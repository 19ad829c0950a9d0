import ZorinTrust.Effects

/-!
# Where trust comes from

Over whole runs of the worker, every key in a store of trust was there at the start or was approved by
the user while it was the pending one, and a session is established only with such a key, proved in
that session.
-/

namespace ZorinTrust

open CText Numeral Machine

/-! ### The invariant -/

/-- `K` was stored at the start, or an APPROVE bound to it was accepted while it was pending. -/
def Provenance (p₀ : Prefs) (log : List Event) (K : Bytes) : Prop :=
  Stored p₀ K ∨ ∃ frame g, .consumed frame g ∈ log ∧ frameCommand frame = some (lit "APPROVE") ∧
    frameBinding frame = K ∧ g.gTrustState = 1 ∧ g.gTrustHostPubPending.val = K ∧ K ≠ []

theorem Provenance.mono {p₀ : Prefs} {log log' : List Event} {K : Bytes} (h : Provenance p₀ log K)
    (hlog : log <:+ log') : Provenance p₀ log' K := by
  rcases h with h | ⟨frame, g, hmem, h⟩
  · exact Or.inl h
  · exact Or.inr ⟨frame, g, hlog.subset hmem, h⟩

/-- What the stores of trust and the approval flag mean. -/
structure StoreInv (p₀ : Prefs) (s : Service) : Prop where
  stored : ∀ K, Stored s.prefs K → Provenance p₀ s.log K
  pin : s.g.gTrustPortableHostPub.val ≠ [] → Provenance p₀ s.log s.g.gTrustPortableHostPub.val
  pendingSep : semi ∉ s.g.gTrustHostPubPending.val
  approve : s.g.gTrustApproveRequested = true → s.g.gTrustState = 1 ∧
    s.g.gTrustHostPubPending.val ≠ [] ∧ Provenance p₀ s.log s.g.gTrustHostPubPending.val

/-- What holds at a place of the worker's loop: an established session is in state 3, a host past the
trust check has its provenance, and no approval is left over when a session starts or meets its host. -/
def PcInv (c : Crypto) (p₀ : Prefs) (s : Service) : Pc → Prop
  | .linked | .waiting _ _ | .pong => s.g.gTrustState = 3
  | .authenticating _ h => s.g.gTrustState = 2 ∧ HelloOk c h ∧ Provenance p₀ s.log h.hostpub.val
  | .checking _ h => s.g.gTrustApproveRequested = false ∧ HelloOk c h ∧
      s.g.gTrustHostIsPortable = h.portable
  | .session => s.g.gTrustApproveRequested = false
  | _ => True

/-- The invariant of the worker. -/
structure TrustInv (c : Crypto) (p₀ : Prefs) (w : Worker) : Prop where
  store : StoreInv p₀ w.s
  pc : PcInv c p₀ w.s w.pc

theorem StoreInv.no_approve {p₀ : Prefs} {s : Service} (h : StoreInv p₀ s) (hs : s.g.gTrustState ≠ 1) :
    s.g.gTrustApproveRequested = false := by
  by_contra hne
  exact hs (h.approve (by simpa using hne)).1

/-- The stores keep their meaning when no key is added and no approval raised. -/
theorem StoreInv.of_suffix {p₀ : Prefs} {s s' : Service} (h : StoreInv p₀ s) (hlog : s.log <:+ s'.log)
    (hprefs : ∀ K, Stored s'.prefs K → Stored s.prefs K)
    (hpin : s'.g.gTrustPortableHostPub = s.g.gTrustPortableHostPub)
    (hpending : s'.g.gTrustHostPubPending = s.g.gTrustHostPubPending)
    (happrove : s'.g.gTrustApproveRequested = true →
      s.g.gTrustApproveRequested = true ∧ s'.g.gTrustState = s.g.gTrustState) : StoreInv p₀ s' where
  stored K hK := (h.stored K (hprefs K hK)).mono hlog
  pin hne := by
    rw [hpin] at hne ⊢
    exact (h.pin hne).mono hlog
  pendingSep := by rw [hpending]; exact h.pendingSep
  approve ha := by
    obtain ⟨ha', hstate⟩ := happrove ha
    obtain ⟨h1, h2, h3⟩ := h.approve ha'
    rw [hstate, hpending]
    exact ⟨h1, h2, h3.mono hlog⟩

theorem StoreInv.quiet {p₀ : Prefs} {s s' : Service} (h : StoreInv p₀ s) (hq : Quiet s s') :
    StoreInv p₀ s' :=
  h.of_suffix hq.history.suffix (fun _ hK => (stored_congr hq.prefs).mp hK) hq.pin hq.pending
    fun ha => ⟨hq.approve ▸ ha, hq.state⟩

theorem PcInv.quiet {c : Crypto} {p₀ : Prefs} {s s' : Service} {pc : Pc} (h : PcInv c p₀ s pc)
    (hq : Quiet s s') : PcInv c p₀ s' pc := by
  cases pc with
  | authenticating link hello => exact ⟨hq.state ▸ h.1, h.2.1, h.2.2.mono hq.history.suffix⟩
  | checking link hello => exact ⟨hq.approve.trans h.1, h.2.1, hq.hostIsPortable.trans h.2.2⟩
  | session => exact hq.approve.trans h
  | linked => exact hq.state.trans h
  | waiting r left => exact hq.state.trans h
  | pong => exact hq.state.trans h
  | off => trivial
  | top => trivial
  | forget => trivial
  | approve => trivial
  | idle left => trivial

/-! ### The steps that touch the stores -/

section

variable {c : Crypto} {p₀ : Prefs} {s : Service}

/-- A consumed APPROVE gives the pending key its provenance. -/
theorem StoreInv.consume (h : StoreInv p₀ s) (file : Option Bytes) :
    StoreInv p₀ (trustUiConsumeCommand file s) := by
  obtain ⟨-, hprefs, -⟩ := trustUiConsumeCommand_spec file s
  obtain ⟨hvars, happrove⟩ := trustUiConsumeCommand_trust file s
  have hlog := (extends_consume file s).suffix
  generalize trustUiConsumeCommand file s = s' at hprefs hvars happrove hlog
  simp only [Globals.trust, TrustVars.mk.injEq] at hvars
  obtain ⟨hstate, -, -, hpending, -, hpin, -, -⟩ := hvars
  refine ⟨fun K hK => (h.stored K (hprefs ▸ hK)).mono hlog, fun hne => ?_, hpending ▸ h.pendingSep,
    fun ha => ?_⟩
  · rw [hpin] at hne ⊢
    exact (h.pin hne).mono hlog
  · rw [hstate, hpending]
    rcases happrove ha with ha' | ⟨frame, hmem, -, hcmd, h1, h2, hbinding⟩
    · obtain ⟨h1, h2, h3⟩ := h.approve ha'
      exact ⟨h1, h2, h3.mono hlog⟩
    · exact ⟨h1, h2, Or.inr ⟨frame, s.g, hmem, hcmd, hbinding, h1, rfl, h2⟩⟩

/-- FORGET only takes keys away. -/
theorem StoreInv.forget (h : StoreInv p₀ s) : StoreInv p₀ (forgetStep s) := by
  have hlog := (extends_forgetStep s).suffix
  by_cases hf : s.g.gTrustForgetRequested = true
  · obtain ⟨hget, -, hvars⟩ := forgetStep_requested hf
    obtain ⟨-, -, hstores⟩ := forgetHost_spec s
    generalize forgetStep s = s' at hlog hget hvars
    simp only [Globals.trust, TrustVars.mk.injEq] at hvars
    obtain ⟨-, happrove, -, hpending, -, hpin, -, -⟩ := hvars
    refine ⟨fun K hK => (h.stored K ?_).mono hlog, fun hne => ?_, ?_, fun ha => ?_⟩
    · rw [stored_congr hget] at hK
      rcases hstores with ⟨-, hp, -⟩ | ⟨-, -, hp⟩
      · exact hp ▸ hK
      · rw [hp] at hK
        split_ifs at hK
        · exact stored_trustHostRemove hK
        · exact hK
    · rw [hpin] at hne ⊢
      rcases hstores with ⟨-, -, hp⟩ | ⟨-, hp, -⟩
      · exact absurd hp hne
      · rw [hp] at hne ⊢
        exact (h.pin hne).mono hlog
    · rw [hpending]
      decide
    · rw [happrove] at ha
      cases ha
  · rw [forgetStep_of_not_requested (by simpa using hf)]
    exact h

/-- An approval stores the pending key, which has its provenance. -/
theorem StoreInv.approved (h : StoreInv p₀ s) : StoreInv p₀ (approveStep s) := by
  have hlog := (extends_approveStep s).suffix
  by_cases hdue : ApprovalDue s.g
  · obtain ⟨hget, hvars⟩ := approveStep_due hdue
    obtain ⟨-, -, hstores⟩ := approveHost_spec s
    obtain ⟨-, -, hprov⟩ := h.approve hdue.2.1
    generalize approveStep s = s' at hlog hget hvars
    simp only [Globals.trust, TrustVars.mk.injEq] at hvars
    obtain ⟨-, happrove, -, hpending, -, hpin, -, -⟩ := hvars
    refine ⟨fun K hK => ?_, fun hne => ?_, ?_, fun ha => ?_⟩
    · rw [stored_congr hget] at hK
      rcases hstores with ⟨-, hp, -⟩ | ⟨-, hp, -⟩
      · exact (h.stored K (hp ▸ hK)).mono hlog
      · rw [hp] at hK
        rcases stored_trustHostAdd h.pendingSep hK with rfl | hK
        · exact hprov.mono hlog
        · exact (h.stored K hK).mono hlog
    · rw [hpin] at hne ⊢
      rcases hstores with ⟨-, -, hp⟩ | ⟨-, -, hp⟩
      · rw [hp]
        exact hprov.mono hlog
      · rw [hp] at hne ⊢
        exact (h.pin hne).mono hlog
    · rw [hpending]
      exact h.pendingSep
    · rw [happrove] at ha
      cases ha
  · rw [approveStep_of_not_due hdue]
    exact h

/-- A host that passes the trust check has its provenance. -/
theorem StoreInv.checked {h : Hello} (hi : StoreInv p₀ s) (hh : HelloOk c h)
    (hcheck : (checkHost h s).1 = true) : Provenance p₀ s.log h.hostpub.val := by
  rcases pin_or_stored_of_checkHost hh hcheck with ⟨hpin, hne⟩ | hstored
  · exact hpin ▸ hi.pin hne
  · exact hi.stored _ hstored

theorem HelloEnv.hello_ok {e : HelloEnv} {h : Hello} (hh : e.hello c = some h) : HelloOk c h := by
  obtain ⟨frame, -, hp⟩ := Option.bind_eq_some_iff.mp hh
  exact parseHello_ok hp

/-- Before the trust check: no store is touched, and the host in the globals is that of the hello. -/
theorem TrustInv.helloStep (hi : StoreInv p₀ s) (hno : s.g.gTrustApproveRequested = false)
    (e : HelloEnv) : TrustInv c p₀ (helloStep c e s) := by
  have hcase := sessionOpen_cases c e s
  unfold ZorinTrust.helloStep
  generalize sessionOpen c e s = q at hcase ⊢
  cases hcase with
  | failed hq => exact ⟨hi.quiet hq, trivial⟩
  | @met link h s₁ hq hhello =>
    have hi₁ := hi.quiet hq
    have hno₁ : s₁.g.gTrustApproveRequested = false := hq.approve.trans hno
    refine ⟨hi₁.of_suffix List.suffix_rfl (fun K hK => hK) rfl rfl fun ha => ⟨ha, rfl⟩, ?_⟩
    exact ⟨hno₁, HelloEnv.hello_ok hhello, rfl⟩

/-- The trust check stores nothing new, and a host that fails it becomes the pending one while no
approval is standing. -/
theorem TrustInv.checkStep {link : Link} {h : Hello} (hi : StoreInv p₀ s)
    (hno : s.g.gTrustApproveRequested = false) (hh : HelloOk c h)
    (hportable : s.g.gTrustHostIsPortable = h.portable) : TrustInv c p₀ (checkStep link h s) := by
  have hcase := sessionCheck_cases hportable
  unfold ZorinTrust.checkStep
  generalize sessionCheck h s = q at hcase ⊢
  cases hcase with
  | trusted hcheck =>
    refine ⟨hi.of_suffix ⟨[_], rfl⟩ (fun K hK => ?_) rfl rfl fun ha => ?_, rfl, hh, ?_⟩
    · rw [stored_trustSetStatus] at hK
      exact stored_checkHost hh hK
    · exact absurd (show s.g.gTrustApproveRequested = true from ha) (by simp [hno])
    · exact (hi.checked hh hcheck).mono ⟨[_], rfl⟩
  | unknown hcheck =>
    refine ⟨⟨fun K hK => ?_, fun hne => ?_, ?_, fun ha => ?_⟩, trivial⟩
    · have hget : ∀ k, (setPending h (checked h s)).prefs.get k = (checkHost h s).2.get k :=
        fun k => trustSetStatus_get _ _ _ k
      rw [stored_congr hget] at hK
      exact (hi.stored K (stored_checkHost hh hK)).mono ⟨[_], rfl⟩
    · exact (hi.pin hne).mono ⟨[_], rfl⟩
    · show semi ∉ (CStr.put 512 h.hostpub.val).val
      rw [CStr.put_val_self]
      exact hh.hostpub_semi
    · exact absurd (show s.g.gTrustApproveRequested = true from ha) (by simp [hno])

/-- From the trust check on: no key is added, and state 3 is the state of an established session. -/
theorem TrustInv.answerStep {link : Link} {h : Hello} (hi : StoreInv p₀ s) (hs : s.g.gTrustState = 2)
    (hh : HelloOk c h) (e : AnswerEnv) : TrustInv c p₀ (answerStep c link h e s) := by
  have hcase := sessionAnswer_cases c link e s hh.hostder
  have hno := hi.no_approve (by rw [hs]; decide)
  have hstatus {s₁ : Service} (hq : Quiet s s₁) (state : Int32) (status : String) :
      StoreInv p₀ (trustSetStatus state status s₁) := by
    refine (hi.quiet hq).of_suffix ⟨[_], rfl⟩ (fun K hK => ?_) rfl rfl fun ha => ?_
    · rwa [stored_trustSetStatus] at hK
    · have hno₁ : s₁.g.gTrustApproveRequested = false := hq.approve.trans hno
      exact absurd (show s₁.g.gTrustApproveRequested = true from ha) (by simp [hno₁])
  unfold ZorinTrust.answerStep
  generalize sessionAnswer c link h e s = q at hcase ⊢
  cases hcase with
  | failed hq => exact ⟨hi.quiet hq, trivial⟩
  | error status hq => exact ⟨hstatus hq _ _, trivial⟩
  | pairRequired hq _ => exact ⟨hstatus hq _ _, trivial⟩
  | @established s₁ policy hq hproved =>
    have hq' : Quiet s { s₁ with g := { s₁.g with gTrustPolicy := policy } } :=
      hq.trans (quiet_set rfl rfl rfl)
    have hest : StoreInv p₀ (establish policy s₁) :=
      (hstatus hq' 3 "DEVICE TRUST ESTABLISHED").of_suffix List.suffix_rfl (fun _ hK => hK) rfl rfl
        fun ha => ⟨ha, rfl⟩
    exact ⟨hest, rfl⟩

/-- Inside an established session trust does not change; its end only changes the state. -/
theorem TrustInv.sessionCase {w : Worker} (hi : StoreInv p₀ s) (hs : s.g.gTrustState = 3)
    (h : SessionCase s w) : TrustInv c p₀ w := by
  cases h with
  | @stays pc s' hpc hq =>
    have hs' : s'.g.gTrustState = 3 := hq.state.trans hs
    refine ⟨hi.quiet hq, ?_⟩
    cases pc with
    | linked => exact hs'
    | waiting r left => exact hs'
    | pong => exact hs'
    | _ => cases hpc
  | @ends s' hq =>
    have hs' : s'.g.gTrustState = 3 := hq.state.trans hs
    obtain ⟨hget, hvars, hext⟩ := sessionEnd_established hs'
    have hi' := hi.quiet hq
    have hno := hi'.no_approve (by rw [hs']; decide)
    refine ⟨hi'.of_suffix hext.suffix (fun K hK => (stored_congr hget).mp hK)
      (congrArg TrustVars.pin hvars) (congrArg TrustVars.pending hvars) fun ha => ?_, trivial⟩
    have hfalse := (congrArg TrustVars.approve hvars).trans hno
    exact absurd ha (by rw [show (endSession s').s.g.gTrustApproveRequested = false from hfalse]; simp)

end

/-! ### Runs -/

variable {c : Crypto} {p₀ : Prefs}

/-- **One step keeps the invariant.** -/
theorem TrustInv.step {l : Label} {w w' : Worker} (hi : TrustInv c p₀ w) (h : next c l w = some w') :
    TrustInv c p₀ w' := by
  cases step_of_next h with
  | lifecycle alive pc s =>
    exact ⟨hi.store.quiet (quiet_lifecycle alive s), hi.pc.quiet (quiet_lifecycle alive s)⟩
  | start e s => exact ⟨hi.store.quiet (quiet_workerStart c e s), trivial⟩
  | stop s => exact ⟨hi.store, trivial⟩
  | consume file s => exact ⟨hi.store.consume file, trivial⟩
  | forget s => exact ⟨hi.store.forget, trivial⟩
  | approve s =>
    refine ⟨hi.store.approved, ?_⟩
    show (approveStep s).g.gTrustApproveRequested = false
    by_cases hdue : ApprovalDue s.g
    · exact congrArg TrustVars.approve (approveStep_due hdue).2
    · rw [approveStep_of_not_due hdue]
      by_contra hne
      have ha : s.g.gTrustApproveRequested = true := by simpa using hne
      obtain ⟨h1, h2, -⟩ := hi.store.approve ha
      exact hdue ⟨h1, ha, h2⟩
  | hello e s => exact TrustInv.helloStep hi.store hi.pc e
  | check link h s => exact TrustInv.checkStep hi.store hi.pc.1 hi.pc.2.1 hi.pc.2.2
  | answer e link h s => exact TrustInv.answerStep hi.store hi.pc.1 hi.pc.2.1 e
  | round e s hforget hreconnect => exact TrustInv.sessionCase hi.store hi.pc (roundStep_cases e s)
  | turn p e r left s =>
    have hs : s.g.gTrustState = 3 := hi.pc
    exact TrustInv.sessionCase hi.store hs (turnStep_cases (by rw [hs]; decide))
  | giveUp r left s => exact TrustInv.sessionCase hi.store hi.pc (giveUpStep_cases s)
  | pong chunks s => exact TrustInv.sessionCase hi.store hi.pc (pongStep_cases chunks s)
  | leave s => exact TrustInv.sessionCase hi.store hi.pc (.ends (.refl s))
  | idle file left s =>
    have hconsume := hi.store.consume file
    unfold idleStep
    dsimp only
    split_ifs
    · exact ⟨hconsume, trivial⟩
    · exact ⟨hconsume, trivial⟩
  | idleEnd left s => exact ⟨hi.store, trivial⟩

/-- **A run keeps the invariant**, from a fresh process on. -/
theorem trustInv_of_reach {w : Worker} (h : Reach (next c) (Worker.init p₀) w) : TrustInv c p₀ w := by
  have hstart : TrustInv c p₀ (Worker.init p₀) := by
    refine ⟨⟨fun K hK => Or.inl hK, fun hne => absurd rfl hne, ?_, fun ha => ?_⟩, trivial⟩
    · show semi ∉ (CStr.put 512 []).val
      decide
    · cases ha
  exact h.invariant hstart fun t l u hi _ hnext => hi.step hnext

/-- **State 3 is entered in one place**: the answer of a host past the trust check that proved its key. -/
theorem TrustInv.enter_established {l : Label} {w w' : Worker} (hi : TrustInv c p₀ w)
    (h : next c l w = some w') (h3 : w.s.g.gTrustState ≠ 3) (h3' : w'.s.g.gTrustState = 3) :
    ∃ link hello e, w.pc = .authenticating link hello ∧ l = .answer e ∧
      Provenance p₀ w.s.log hello.hostpub.val ∧ HostProved c hello e := by
  have hconsume (file : Option Bytes) (s : Service) :
      (trustUiConsumeCommand file s).g.gTrustState = s.g.gTrustState :=
    congrArg TrustVars.state (trustUiConsumeCommand_trust file s).1
  cases step_of_next h with
  | lifecycle alive pc s => exact absurd ((quiet_lifecycle alive s).state.symm.trans h3') h3
  | start e s => exact absurd ((quiet_workerStart c e s).state.symm.trans h3') h3
  | stop s => exact absurd h3' h3
  | consume file s => exact absurd ((hconsume file s).symm.trans h3') h3
  | forget s =>
    by_cases hf : s.g.gTrustForgetRequested = true
    · exact absurd ((forgetStep_state hf).symm.trans h3') (by decide)
    · dsimp only at h3'
      rw [forgetStep_of_not_requested (by simpa using hf)] at h3'
      exact absurd h3' h3
  | approve s =>
    by_cases hdue : ApprovalDue s.g
    · exact absurd ((approveStep_state hdue).symm.trans h3') (by decide)
    · dsimp only at h3'
      rw [approveStep_of_not_due hdue] at h3'
      exact absurd h3' h3
  | hello e s =>
    have hcase := sessionOpen_cases c e s
    unfold ZorinTrust.helloStep at h3'
    generalize sessionOpen c e s = q at hcase h3'
    cases hcase with
    | failed hq => exact absurd (hq.state.symm.trans h3') h3
    | met hq _ => exact absurd (hq.state.symm.trans h3') h3
  | check link hello s =>
    have hcase := sessionCheck_cases hi.pc.2.2
    unfold ZorinTrust.checkStep at h3'
    generalize sessionCheck hello s = q at hcase h3'
    cases hcase with
    | trusted _ => exact absurd h3' (by simp)
    | unknown _ => exact absurd h3' (by simp [setPending])
  | answer e link hello s =>
    obtain ⟨-, hh, hprov⟩ := hi.pc
    have hcase := sessionAnswer_cases c link e s hh.hostder
    unfold ZorinTrust.answerStep at h3'
    generalize sessionAnswer c link hello e s = q at hcase h3'
    cases hcase with
    | failed hq => exact absurd (hq.state.symm.trans h3') h3
    | error status hq => exact absurd h3' (by simp)
    | pairRequired hq _ => exact absurd h3' (by simp)
    | established policy hq hproved => exact ⟨link, hello, e, rfl, rfl, hprov, hproved⟩
  | round e s hforget hreconnect => exact absurd hi.pc h3
  | turn p e r left s => exact absurd hi.pc h3
  | giveUp r left s => exact absurd hi.pc h3
  | pong chunks s => exact absurd hi.pc h3
  | leave s => exact absurd hi.pc h3
  | idle file left s =>
    unfold idleStep at h3'
    dsimp only at h3'
    split_ifs at h3'
    · exact absurd ((hconsume file s).symm.trans h3') h3
    · exact absurd ((hconsume file s).symm.trans h3') h3
  | idleEnd left s => exact absurd h3' h3

/-- **Trust provenance.** -/
theorem trust_provenance (c : Crypto) (p₀ : Prefs) (w : Worker)
    (h : Reach (next c) (Worker.init p₀) w) :
    (∀ K, Stored w.s.prefs K ∨ (K ≠ [] ∧ w.s.g.gTrustPortableHostPub.val = K) →
      Provenance p₀ w.s.log K) ∧
    ∀ l w', next c l w = some w' → w.s.g.gTrustState ≠ 3 → w'.s.g.gTrustState = 3 →
      ∃ link hello e, w.pc = .authenticating link hello ∧ l = .answer e ∧
        Provenance p₀ w.s.log hello.hostpub.val ∧ HostProved c hello e := by
  have hi := trustInv_of_reach h
  refine ⟨fun K hK => ?_, fun l w' hnext h3 h3' => hi.enter_established hnext h3 h3'⟩
  rcases hK with hK | ⟨hne, rfl⟩
  · exact hi.store.stored K hK
  · exact hi.store.pin hne

/-! ### Samples -/

/-- A digest that pads its input, and a check that accepts the signature `01`. -/
def sampleCrypto : Crypto where
  sha256 der := (der ++ List.replicate 32 0).take 32
  verify _ _ sig := sig == [1]

def startLabel : Label := .start { phoneDer := some ⟨[1], by decide⟩ }

/-- A host with this key and this identity connects. -/
def helloLabel (key identity : String) : Label :=
  .hello { chunks := [lit "ZTRUST/2\nHOST_PUB " ++ lit key ++ lit "\nHOST_NONCE 01\nHOST_IDENTITY " ++
    lit identity ++ lit "\nEND\n"] }

/-- It answers the phone's proof with this text. -/
def answerLabel (text : String) : Label :=
  .answer {
    phoneDer := some ⟨[1], by decide⟩
    random := some ⟨List.replicate 32 7, by decide⟩
    keystore := fun _ => some [9]
    chunks := [lit text] }

/-- One turn of the worker's loop up to the session. -/
def toSession (file : Option Bytes) : List Label := [.consume file, .forget, .approve]

def approvalOf (key : String) : Option Bytes := some (commandFrame "APPROVE" (lit key))

/-- An unknown host connects, is approved, and connects again. -/
def pairing (key identity : String) : List Label :=
  startLabel :: toSession none ++ [helloLabel key identity, .check, .idle (approvalOf key)] ++
    toSession none ++ [helloLabel key identity, .check]

/-- A host that the user approves is established under its own key. -/
theorem trust_provenance_pairing : ∃ w w', Reach (next sampleCrypto) (Worker.init {}) w ∧
    next sampleCrypto (answerLabel "AUTH OK\nHOST_SIG 01\nEND\n") w = some w' ∧
    w'.s.g.gTrustState = 3 ∧ Provenance {} w.s.log (lit "aa") ∧
    ∃ link hello e, w.pc = .authenticating link hello ∧ HostProved sampleCrypto hello e := by
  have hrun : (exec (next sampleCrypto) (pairing "aa" "desk") (Worker.init {})).map
      (fun w => (w.s.g.gTrustState, w.s.prefs.trustedHostsV2,
        (next sampleCrypto (answerLabel "AUTH OK\nHOST_SIG 01\nEND\n") w).map (·.s.g.gTrustState))) =
      some (2, some (lit "aa"), some 3) := by
    decide +kernel
  obtain ⟨w, hw, hproj⟩ := Option.map_eq_some_iff.mp hrun
  simp only [Prod.mk.injEq, Option.map_eq_some_iff] at hproj
  obtain ⟨h2, hhosts, w', hnext, h3⟩ := hproj
  have hreach := Run.of_exec hw
  obtain ⟨hstores, hestablished⟩ := trust_provenance sampleCrypto {} w hreach
  obtain ⟨link, hello, e, hpc, -, -, hproved⟩ := hestablished _ w' hnext (by rw [h2]; decide) h3
  have hstored : Stored w.s.prefs (lit "aa") := Or.inl ⟨_, hhosts, Or.inl (by decide)⟩
  exact ⟨w, w', hreach, hnext, h3, hstores _ (Or.inl hstored), link, hello, e, hpc, hproved⟩

end ZorinTrust
