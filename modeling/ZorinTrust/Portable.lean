import ZorinTrust.Provenance

/-!
# Portable hosts are memory-only

A host that calls itself portable is pinned in memory, not written to the registry.  Which of the two an
approval does hangs on `g_trust_pending_is_portable`: the trust check that turns the host away sets it,
an approval or FORGET clears it, and AUTH PAIR_REQUIRED enters state 1 again without setting it.  A
portable host stays out of the preferences in every run that never accepts an approval in that gap.
-/

namespace ZorinTrust

open CText Numeral Machine

/-! ### Conditions on a step -/

/-- The hello a step reads. -/
def Label.greeting (c : Crypto) : Label → Option Hello
  | .hello e => e.hello c
  | _ => none

/-- The host with key `K` only ever calls itself portable. -/
def PortableHost (c : Crypto) (K : Bytes) (l : Label) : Prop :=
  ∀ h ∈ l.greeting c, h.hostpub.val = K → h.portable = true

/-- After AUTH PAIR_REQUIRED, an APPROVE for `K` finds `g_trust_pending_is_portable` set. -/
def ApprovedAsPortable (K : Bytes) (g : Globals) (l : Label) : Prop :=
  ∀ frame ∈ commandRead l.file, frameCommand frame = some (lit "APPROVE") → frameBinding frame = K →
    g.gTrustState = 1 → g.gTrustHostPubPending.val = K →
    g.gTrustStatus.val = lit "HOST REQUIRES --PAIR-ONCE" → g.gTrustPendingIsPortable = true

instance (c : Crypto) (K : Bytes) (l : Label) : Decidable (PortableHost c K l) :=
  inferInstanceAs (Decidable (∀ h ∈ l.greeting c, _))

instance (K : Bytes) (g : Globals) (l : Label) : Decidable (ApprovedAsPortable K g l) :=
  inferInstanceAs (Decidable (∀ frame ∈ commandRead l.file, _))

/-! ### The invariant -/

/-- `K` is not stored; where it waits for approval or was approved, it does so as a portable key, unless
AUTH PAIR_REQUIRED brought it back. -/
structure PortableInv (K : Bytes) (s : Service) : Prop where
  stored : ¬ Stored s.prefs K
  waiting : s.g.gTrustState = 1 → s.g.gTrustHostPubPending.val = K →
    s.g.gTrustStatus.val = lit "HOST REQUIRES --PAIR-ONCE" ∨ s.g.gTrustPendingIsPortable = true
  approve : s.g.gTrustApproveRequested = true → s.g.gTrustHostPubPending.val = K →
    s.g.gTrustPendingIsPortable = true

variable {c : Crypto} {p₀ : Prefs} {K : Bytes} {s : Service}

theorem PortableInv.quiet {s' : Service} (h : PortableInv K s) (hq : Quiet s s') : PortableInv K s' := by
  refine ⟨fun hK => h.stored ((stored_congr hq.prefs).mp hK), ?_, ?_⟩
  · rw [hq.state, hq.pending, hq.pendingIsPortable, hq.status]
    exact h.waiting
  · rw [hq.approve, hq.pending, hq.pendingIsPortable]
    exact h.approve

/-- With no approval standing, and outside state 1 or under a pending key the flag describes. -/
theorem PortableInv.of_no_approve (hstored : ¬ Stored s.prefs K)
    (hno : s.g.gTrustApproveRequested = false)
    (hwaiting : s.g.gTrustState = 1 → s.g.gTrustHostPubPending.val = K →
      s.g.gTrustStatus.val = lit "HOST REQUIRES --PAIR-ONCE" ∨ s.g.gTrustPendingIsPortable = true) :
    PortableInv K s :=
  ⟨hstored, hwaiting, fun ha => by rw [hno] at ha; cases ha⟩

/-! ### The steps -/

theorem PortableInv.consume {l : Label} (h : PortableInv K s) (hok : ApprovedAsPortable K s.g l) :
    PortableInv K (trustUiConsumeCommand l.file s) := by
  obtain ⟨-, hprefs, -⟩ := trustUiConsumeCommand_spec l.file s
  obtain ⟨hvars, happrove⟩ := trustUiConsumeCommand_trust l.file s
  generalize trustUiConsumeCommand l.file s = s' at hprefs hvars happrove
  simp only [Globals.trust, TrustVars.mk.injEq] at hvars
  obtain ⟨hstate, -, -, hpending, -, -, -, hportable, hstatus⟩ := hvars
  refine ⟨fun hK => h.stored (hprefs ▸ hK), ?_, fun ha hK => ?_⟩
  · rw [hstate, hpending, hportable, hstatus]
    exact h.waiting
  · rw [hpending] at hK
    rw [hportable]
    rcases happrove ha with ha' | ⟨frame, -, hread, hcmd, h1, -, hbinding⟩
    · exact h.approve ha' hK
    -- the approval comes now: the flag is set, or state 1 came from AUTH PAIR_REQUIRED
    · rcases h.waiting h1 hK with hstatus | hset
      · exact hok frame hread hcmd (hbinding.trans hK) h1 hK hstatus
      · exact hset

theorem PortableInv.forget (h : PortableInv K s) : PortableInv K (forgetStep s) := by
  by_cases hf : s.g.gTrustForgetRequested = true
  · obtain ⟨hget, -, hvars⟩ := forgetStep_requested hf
    obtain ⟨-, -, hstores⟩ := forgetHost_spec s
    refine .of_no_approve (fun hK => h.stored ?_) (congrArg TrustVars.approve hvars) fun h1 => ?_
    · rw [stored_congr hget] at hK
      rcases hstores with ⟨-, hp, -⟩ | ⟨-, -, hp⟩
      · exact hp ▸ hK
      · rw [hp] at hK
        split_ifs at hK
        · exact stored_trustHostRemove hK
        · exact hK
    · rw [forgetStep_state hf] at h1
      exact absurd h1 (by decide)
  · rw [forgetStep_of_not_requested (by simpa using hf)]
    exact h

/-- The approval step writes another key, or pins this one in memory. -/
theorem PortableInv.approved (h : PortableInv K s) (hsep : semi ∉ s.g.gTrustHostPubPending.val) :
    PortableInv K (approveStep s) := by
  by_cases hdue : ApprovalDue s.g
  · obtain ⟨hget, hvars⟩ := approveStep_due hdue
    obtain ⟨-, -, hstores⟩ := approveHost_spec s
    refine .of_no_approve (fun hK => h.stored ?_) (congrArg TrustVars.approve hvars) fun h1 => ?_
    · rw [stored_congr hget] at hK
      rcases hstores with ⟨-, hp, -⟩ | ⟨hplain, hp, -⟩
      · exact hp ▸ hK
      · rw [hp] at hK
        rcases stored_trustHostAdd hsep hK with hpending | hK
        · have hset := h.approve hdue.2.1 hpending.symm
          rw [hplain] at hset
          cases hset
        · exact hK
    · rw [approveStep_state hdue] at h1
      exact absurd h1 (by decide)
  · rw [approveStep_of_not_due hdue]
    exact h

/-- Before the trust check nothing of this changes. -/
theorem PortableInv.helloStep (h : PortableInv K s) (e : HelloEnv) :
    PortableInv K (helloStep c e s).s := by
  have hcase := sessionOpen_cases c e s
  unfold ZorinTrust.helloStep
  generalize sessionOpen c e s = q at hcase ⊢
  cases hcase with
  | failed hq => exact h.quiet hq
  | met hq hhello =>
    have h₁ := h.quiet hq
    exact ⟨h₁.stored, h₁.waiting, h₁.approve⟩

/-- A portable host that fails the trust check waits as a portable one. -/
theorem PortableInv.checkStep {link : Link} {hello : Hello} (h : PortableInv K s)
    (hno : s.g.gTrustApproveRequested = false) (hh : HelloOk c hello)
    (hportable : s.g.gTrustHostIsPortable = hello.portable)
    (hok : hello.hostpub.val = K → hello.portable = true) :
    PortableInv K (checkStep link hello s).s := by
  have hcase := sessionCheck_cases hportable
  unfold ZorinTrust.checkStep
  generalize sessionCheck hello s = q at hcase ⊢
  cases hcase with
  | trusted hcheck =>
    refine .of_no_approve (fun hK => h.stored ?_) hno fun h1 => ?_
    · rw [stored_trustSetStatus] at hK
      exact stored_checkHost hh hK
    · exact absurd h1 (by simp)
  | unknown hcheck =>
    refine .of_no_approve (fun hK => h.stored ?_) hno fun _ hK => Or.inr ?_
    · have hget : ∀ k, (setPending hello (checked hello s)).prefs.get k = (checkHost hello s).2.get k :=
        fun k => trustSetStatus_get _ _ _ k
      rw [stored_congr hget] at hK
      exact stored_checkHost hh hK
    · have hK : (CStr.put 512 hello.hostpub.val).val = K := hK
      rw [CStr.put_val_self] at hK
      exact hportable.trans (hok hK)

theorem PortableInv.answerStep (h : PortableInv K s) (hno : s.g.gTrustApproveRequested = false)
    {link : Link} {hello : Hello} (hh : HelloOk c hello) (e : AnswerEnv) :
    PortableInv K (answerStep c link hello e s).s := by
  have hcase := sessionAnswer_cases c link e s hh.hostder
  unfold ZorinTrust.answerStep
  generalize sessionAnswer c link hello e s = q at hcase ⊢
  have hstored {s₁ : Service} (hq : Quiet s s₁) (state : Int32) (status : String) :
      ¬ Stored (trustSetStatus state status s₁).prefs K := fun hK =>
    (h.quiet hq).stored ((stored_trustSetStatus _ _ _ _).mp hK)
  cases hcase with
  | failed hq => exact h.quiet hq
  | @error s₁ status hq =>
    have hno₁ : s₁.g.gTrustApproveRequested = false := hq.approve.trans hno
    exact .of_no_approve (hstored hq _ _) hno₁ fun h1 => absurd h1 (by simp)
  | @pairRequired s₁ hq _ =>
    have hno₁ : s₁.g.gTrustApproveRequested = false := hq.approve.trans hno
    refine .of_no_approve (hstored hq _ _) hno₁ fun _ _ => Or.inl ?_
    show (CStr.put 128 (lit "HOST REQUIRES --PAIR-ONCE")).val = _
    decide
  | @established s₁ policy hq hproved =>
    have hq' : Quiet s { s₁ with g := { s₁.g with gTrustPolicy := policy } } :=
      hq.trans (quiet_set rfl rfl rfl)
    have hno₁ : s₁.g.gTrustApproveRequested = false := hq.approve.trans hno
    exact .of_no_approve (hstored hq' _ _) hno₁ fun h1 => absurd h1 (by simp [establish])

theorem PortableInv.sessionCase {w : Worker} (h : PortableInv K s) (hs : s.g.gTrustState = 3)
    (hno : s.g.gTrustApproveRequested = false) (hcase : SessionCase s w) : PortableInv K w.s := by
  cases hcase with
  | stays hpc hq => exact h.quiet hq
  | @ends s' hq =>
    have hs' : s'.g.gTrustState = 3 := hq.state.trans hs
    obtain ⟨hget, hvars, -⟩ := sessionEnd_established hs'
    have h0 : (sessionEnd s').g.gTrustState = 0 := congrArg TrustVars.state hvars
    have ha : (sessionEnd s').g.gTrustApproveRequested = false :=
      (congrArg TrustVars.approve hvars).trans (hq.approve.trans hno)
    refine .of_no_approve (fun hK => (h.quiet hq).stored ((stored_congr hget).mp hK)) ha fun h1 => ?_
    rw [show (endSession s').s.g.gTrustState = 0 from h0] at h1
    exact absurd h1 (by decide)

/-- A session that has met the host `K` has met a portable one. -/
def MetAsPortable (K : Bytes) (pc : Pc) : Prop :=
  ∀ link h, pc = .checking link h → h.hostpub.val = K → h.portable = true

theorem metAsPortable_of_next {l : Label} {w w' : Worker} (hi : MetAsPortable K w.pc)
    (hhost : PortableHost c K l) (hnext : next c l w = some w') : MetAsPortable K w'.pc := by
  cases step_of_next hnext with
  | lifecycle alive pc s => exact hi
  | hello e s =>
    have hcase := sessionOpen_cases c e s
    unfold helloStep
    generalize sessionOpen c e s = q at hcase ⊢
    cases hcase with
    | failed hq => exact fun _ _ hpc => by cases hpc
    | met hq hhello =>
      rintro _ _ ⟨⟩ hK
      exact hhost _ hhello hK
  | check link h s => unfold checkStep; split <;> exact fun _ _ hpc => by cases hpc
  | answer e link h s => unfold answerStep; split <;> exact fun _ _ hpc => by cases hpc
  | round e s _ _ => exact fun _ _ hpc => absurd hpc (pc_ne_checking (roundStep_cases e s) _ _)
  | turn p e r left s => unfold turnStep; split <;> exact fun _ _ hpc => by cases hpc
  | pong chunks s => exact fun _ _ hpc => absurd hpc (pc_ne_checking (pongStep_cases chunks s) _ _)
  | idle file left s => unfold idleStep; dsimp only; split_ifs <;> exact fun _ _ hpc => by cases hpc
  | _ => exact fun _ _ hpc => by cases hpc

/-- **One step keeps the invariant.** -/
theorem PortableInv.step {l : Label} {w w' : Worker} (ht : TrustInv c p₀ w) (hi : PortableInv K w.s)
    (hmet : MetAsPortable K w.pc) (hok : ApprovedAsPortable K w.s.g l)
    (hnext : next c l w = some w') : PortableInv K w'.s := by
  have hno (h : w.s.g.gTrustState = 3) : w.s.g.gTrustApproveRequested = false :=
    ht.store.no_approve (by rw [h]; decide)
  cases step_of_next hnext with
  | lifecycle alive pc s => exact hi.quiet (quiet_lifecycle alive s)
  | start e s => exact hi.quiet (quiet_workerStart c e s)
  | stop s => exact hi
  | consume file s => exact hi.consume hok
  | forget s => exact hi.forget
  | approve s => exact hi.approved ht.store.pendingSep
  | hello e s => exact hi.helloStep e
  | check link h s => exact hi.checkStep ht.pc.1 ht.pc.2.1 ht.pc.2.2 (hmet link h rfl)
  | answer e link h s =>
    exact hi.answerStep (ht.store.no_approve (by rw [ht.pc.1]; decide)) ht.pc.2.1 e
  | round e s hforget hreconnect => exact hi.sessionCase ht.pc (hno ht.pc) (roundStep_cases e s)
  | turn p e r left s =>
    have hs : s.g.gTrustState = 3 := ht.pc
    exact hi.sessionCase hs (hno hs) (turnStep_cases (by rw [hs]; decide))
  | giveUp r left s => exact hi.sessionCase ht.pc (hno ht.pc) (giveUpStep_cases s)
  | pong chunks s => exact hi.sessionCase ht.pc (hno ht.pc) (pongStep_cases chunks s)
  | leave s => exact hi.sessionCase ht.pc (hno ht.pc) (.ends (.refl s))
  | idle file left s =>
    have hconsume := hi.consume hok
    unfold idleStep
    dsimp only
    split_ifs
    · exact hconsume
    · exact hconsume
  | idleEnd left s => exact hi

/-- **A portable key stays out of the preferences**, in every run in which its host only calls itself
portable and no approval is accepted for it while its flag is down. -/
theorem portable_not_stored (c : Crypto) (p₀ : Prefs) (K : Bytes) (hK : ¬ Stored p₀ K) (w : Worker)
    (h : Run (next c) (fun w l => PortableHost c K l ∧ ApprovedAsPortable K w.s.g l) (Worker.init p₀) w) :
    ¬ Stored w.s.prefs K := by
  have hstart : PortableInv K (Worker.init p₀).s :=
    .of_no_approve hK rfl fun h1 => absurd (show (0 : Int32) = 1 from h1) (by decide)
  have hinv := h.invariant_of_reach (I := fun w => PortableInv K w.s ∧ MetAsPortable K w.pc)
    ⟨hstart, fun _ _ hpc => by cases hpc⟩ fun t l u hreach hi hok hnext =>
      ⟨hi.1.step (trustInv_of_reach hreach) hi.2 hok.2 hnext, metAsPortable_of_next hi.2 hok.1 hnext⟩
  exact hinv.1.stored

/-! ### Exactness -/

/-- The preferences take in the key `K`: their calls succeed and the registry string has room. -/
def Prefs.TakesIn (p : Prefs) (K : Bytes) : Prop :=
  p.Succeeds ∧ ((prefText .trustedHostsV2 4096 p).getD []).length + K.length + 2 < 4096

/-- An approval whose flag is down writes the pending key. -/
theorem stored_approveStep (hdue : ApprovalDue s.g) (hplain : s.g.gTrustPendingIsPortable = false)
    (hsep : semi ∉ s.g.gTrustHostPubPending.val) (hp : s.prefs.TakesIn s.g.gTrustHostPubPending.val) :
    Stored (approveStep s).prefs s.g.gTrustHostPubPending.val := by
  obtain ⟨hget, -⟩ := approveStep_due hdue
  obtain ⟨-, -, hstores⟩ := approveHost_spec s
  rw [stored_congr hget]
  rcases hstores with ⟨hset, -⟩ | ⟨-, hprefs, -⟩
  · rw [hplain] at hset
    cases hset
  · rw [hprefs]
    exact (trusted_trustHostAdd hp.1 hdue.2.2 hsep hp.2).stored

/-- **The condition is exact**: the approval that breaks it goes on to write the key. -/
theorem exists_stored_of_not_approvedAsPortable {l : Label} {w w' : Worker}
    (h : Reach (next c) (Worker.init p₀) w) (hnext : next c l w = some w')
    (hno : ¬ ApprovedAsPortable K w.s.g l) (h0 : K ≠ []) (hforget : w.s.g.gTrustForgetRequested = false)
    (hp : w.s.prefs.TakesIn K) : ∃ w'', Reach (next c) w' w'' ∧ Stored w''.s.prefs K := by
  have ht := trustInv_of_reach h
  unfold ApprovedAsPortable at hno
  push Not at hno
  obtain ⟨frame, hread, hcmd, hbinding, h1, hpending, -, hflag⟩ := hno
  have happ : approves frame w.s.g = true :=
    approves_iff.mpr ⟨h1, hpending ▸ h0, hbinding.trans hpending.symm⟩
  have hconsumed : trustUiConsumeCommand l.file w.s =
      { w.s with
        g := { w.s.g with gTrustApproveRequested := true }
        log := .consumed frame w.s.g :: w.s.log } := by
    rw [trustUiConsumeCommand, show commandRead l.file = some frame from hread]
    dsimp only
    rw [commandEffect_approve hcmd happ]
  -- the FORGET step passes, the approval step stores the pending key
  have hrun : ∃ w'', Reach (next c) ⟨.forget, trustUiConsumeCommand l.file w.s⟩ w'' ∧
      Stored w''.s.prefs K := by
    rw [hconsumed]
    subst hpending
    generalize hs₁ : Service.mk _ _ _ = s₁
    have hstored : Stored (approveStep s₁).prefs s₁.g.gTrustHostPubPending.val := by
      subst hs₁
      exact stored_approveStep ⟨h1, rfl, h0⟩ (by simpa using hflag) ht.store.pendingSep hp
    have hpass : forgetStep s₁ = s₁ := forgetStep_of_not_requested (by subst hs₁; exact hforget)
    refine ⟨⟨.session, approveStep s₁⟩, ?_, by subst hs₁; exact hstored⟩
    refine Run.step (t := ⟨.approve, s₁⟩) ?_ trivial (l := .approve) rfl
    refine Run.step .refl trivial (l := .forget) ?_
    show some (Worker.mk .approve (forgetStep s₁)) = _
    rw [hpass]
  cases step_of_next hnext with
  | consume file s => exact hrun
  | idle file left s =>
    have htop : idleStep left file s = ⟨.top, trustUiConsumeCommand file s⟩ := by
      unfold idleStep
      exact if_pos (Or.inl (by rw [show trustUiConsumeCommand file s = _ from hconsumed]))
    obtain ⟨w'', hreach, hstored⟩ := hrun
    rw [htop]
    exact ⟨w'', (Run.step .refl trivial (l := .consume none) rfl).trans hreach, hstored⟩
  | turn p e r left s =>
    have h3 : s.g.gTrustState = 3 := ht.pc
    exact absurd (h1.symm.trans h3) (by decide)
  | _ => cases hread

/-! ### Samples -/

/-- A portable host that is approved when it first connects is pinned, not stored. -/
theorem portable_not_stored_pinned : ∃ w, w.s.g.gTrustPortableHostPub.val = lit "aa" ∧
    Run (next sampleCrypto) (fun w l => PortableHost sampleCrypto (lit "aa") l ∧
      ApprovedAsPortable (lit "aa") w.s.g l) (Worker.init {}) w ∧ ¬ Stored w.s.prefs (lit "aa") := by
  have hrun : (execOk (next sampleCrypto) (fun w l => PortableHost sampleCrypto (lit "aa") l ∧
      ApprovedAsPortable (lit "aa") w.s.g l) (pairing "aa" "portable/x") (Worker.init {})).map
      (·.s.g.gTrustPortableHostPub.val) = some (lit "aa") := by
    decide +kernel
  obtain ⟨w, hw, hpin⟩ := Option.map_eq_some_iff.mp hrun
  have hrun' := Run.of_execOk hw
  have hfresh : ¬ Stored {} (lit "aa") := by simp [Stored]
  exact ⟨w, hpin, hrun', portable_not_stored sampleCrypto {} (lit "aa") hfresh w hrun'⟩

/-- A pinned host asks to pair again, and the user approves it again. -/
def pairAgain : List Label :=
  pairing "aa" "portable/x" ++ [answerLabel "AUTH PAIR_REQUIRED\nEND\n", .idle (approvalOf "aa")] ++
    toSession none

/-- The second approval writes the portable key to the registry. -/
theorem portable_not_stored_pairAgain : ¬ ∀ (c : Crypto) (p₀ : Prefs) (K : Bytes) (w : Worker),
    ¬ Stored p₀ K → Run (next c) (fun _ l => PortableHost c K l) (Worker.init p₀) w →
    ¬ Stored w.s.prefs K := by
  intro hall
  have hrun : (execOk (next sampleCrypto) (fun _ l => PortableHost sampleCrypto (lit "aa") l) pairAgain
      (Worker.init {})).map (·.s.prefs.trustedHostsV2) = some (some (lit "aa")) := by
    decide +kernel
  obtain ⟨w, hw, hhosts⟩ := Option.map_eq_some_iff.mp hrun
  have hfresh : ¬ Stored {} (lit "aa") := by simp [Stored]
  refine hall sampleCrypto {} (lit "aa") w hfresh (Run.of_execOk hw) ?_
  exact Or.inl ⟨_, hhosts, Or.inl (by decide)⟩

end ZorinTrust
