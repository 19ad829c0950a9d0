import ZorinTrust.PrefCalls
import ZorinTrust.RegistryFailures

/-!
# An approved host is accepted next time

The approval step reports WORKSTATION APPROVED whatever became of the key: `trust_host_add` may have
found no room for it, and the one pin in memory may be taken by the next portable host.  `Awaiting`
watches a run and notes the hosts that were approved and have not come back; `approved_accepted` says
that they pass the trust check when they do, in every run whose approvals could keep their host.
-/

namespace ZorinTrust

open CText Machine

/-! ### What is awaited -/

/-- A host as it presents itself: key and identity. -/
abbrev Host := CStr 512 × CStr 96

/-- Does the host call itself portable. -/
def Host.portable (a : Host) : Bool := trustPrefix a.2.val (lit "portable/")

/-- The hello a session reads, over the link it gets. -/
def presented (c : Crypto) (e : HelloEnv) (s : Service) : Option Hello :=
  (openLink e s).1.bind fun _ => e.hello c

structure Awaiting where
  /-- The identity with which the pending host became the pending one. -/
  identity : CStr 96 := .put 96 []
  /-- The hosts that were approved and have not presented themselves since. -/
  hosts : List Host := []

instance (g : Globals) : Decidable (ApprovalDue g) := inferInstanceAs (Decidable (_ ∧ _ ∧ _))

/-- An approval is noted until the host's next trust check, or until FORGET. -/
def Awaiting.see (o : Awaiting) (w : Worker) (l : Label) (w' : Worker) : Awaiting :=
  match l with
  | .approve =>
    if ApprovalDue w.s.g then { o with hosts := (w.s.g.gTrustHostPubPending, o.identity) :: o.hosts }
    else o
  | .forget => if w.s.g.gTrustForgetRequested then { o with hosts := [] } else o
  | .check =>
    match w.pc with
    | .checking _ h => {
        identity := if w'.s.g.gTrustState = 1 then h.hostidentity else o.identity
        hosts := o.hosts.filter (· ≠ (h.hostpub, h.hostidentity)) }
    | _ => o
  | _ => o

/-- **Accepted next time**: an awaited host that presents itself passes the trust check. -/
def AcceptedNext (c : Crypto) (s : Service) (o : Awaiting) : Prop :=
  ∀ a ∈ o.hosts, ∀ e h, presented c e s = some h → h.hostpub = a.1 → h.hostidentity = a.2 →
    (sessionHello c e s).1.isSome = true

/-- The registry string has room for the key. -/
def HasRoom (p : Prefs) (K : Bytes) : Prop :=
  ((prefText .trustedHostsV2 4096 p).getD []).length + K.length + 2 < 4096

/-- An approval can keep the pending host: the pin is not awaited by another portable one, or the
registry holds a plain host or has room for it. -/
def KeepsPending (s : Service) (o : Awaiting) : Prop :=
  (Host.portable (s.g.gTrustHostPubPending, o.identity) = true → s.g.gTrustPendingIsPortable = true →
    ∀ a ∈ o.hosts, a.portable = true → a.1 = s.g.gTrustHostPubPending) ∧
  (Host.portable (s.g.gTrustHostPubPending, o.identity) = false →
    Trusted s.prefs s.g.gTrustHostPubPending.val ∨ HasRoom s.prefs s.g.gTrustHostPubPending.val)

/-- An approval step that does something can keep its host. -/
def CanKeep (w : Worker × Awaiting) : Label → Prop
  | .approve => ApprovalDue w.1.s.g → KeepsPending w.1.s w.2
  | _ => True

instance (p : Prefs) (K : Bytes) : Decidable (HasRoom p K) := inferInstanceAs (Decidable (_ < _))

instance (s : Service) (o : Awaiting) : Decidable (KeepsPending s o) :=
  inferInstanceAs (Decidable ((_ → _ → ∀ a ∈ o.hosts, _) ∧ (_ → _ ∨ _)))

instance (w : Worker × Awaiting) (l : Label) : Decidable (CanKeep w l) :=
  match l with
  | .approve => inferInstanceAs (Decidable (ApprovalDue _ → KeepsPending _ _))
  | .lifecycle _ | .start _ | .stop | .consume _ | .forget | .hello _ | .check | .answer _ | .round _
  | .turn _ _ | .giveUp | .pong _ | .leave | .idle _ | .idleEnd => isTrue trivial

/-! ### The invariant -/

/-- An awaited host is pinned or trusted; the flag and the pin fit the identity of the pending host. -/
structure AcceptInv (s : Service) (o : Awaiting) : Prop where
  succeeds : s.prefs.Succeeds
  flag : s.g.gTrustHostPubPending.val ≠ [] → s.g.gTrustPendingIsPortable = true →
    Host.portable (s.g.gTrustHostPubPending, o.identity) = true
  pinned : s.g.gTrustHostPubPending.val ≠ [] → s.g.gTrustPendingIsPortable = false →
    Host.portable (s.g.gTrustHostPubPending, o.identity) = true →
    s.g.gTrustPortableHostPub = s.g.gTrustHostPubPending
  kept : ∀ a ∈ o.hosts, a.1.val ≠ [] ∧
    if a.portable then s.g.gTrustPortableHostPub = a.1 else Trusted s.prefs a.1.val

variable {c : Crypto} {p₀ : Prefs} {s s' : Service} {o : Awaiting}

/-- What the invariant speaks of is the same. -/
theorem AcceptInv.congr (h : AcceptInv s o)
    (hpending : s'.g.gTrustHostPubPending = s.g.gTrustHostPubPending)
    (hflag : s'.g.gTrustPendingIsPortable = s.g.gTrustPendingIsPortable)
    (hpin : s'.g.gTrustPortableHostPub = s.g.gTrustPortableHostPub)
    (hget : ∀ k, s'.prefs.get k = s.prefs.get k) (hdrained : Drained s.prefs s'.prefs) :
    AcceptInv s' o := by
  refine ⟨hdrained.succeeds h.succeeds, ?_, ?_, fun a ha => ?_⟩
  · rw [hpending, hflag]
    exact h.flag
  · rw [hpending, hflag, hpin]
    exact h.pinned
  · rw [hpin, trusted_congr hget]
    exact h.kept a ha

theorem AcceptInv.quiet (h : AcceptInv s o) (hq : Quiet s s') (hdrained : Drained s.prefs s'.prefs) :
    AcceptInv s' o :=
  h.congr hq.pending hq.pendingIsPortable hq.pin hq.prefs hdrained

/-! ### Trust is kept -/

/-- Adding a key loses none. -/
theorem trusted_trustHostAdd_mono {p : Prefs} {k K : Bytes} (hp : p.Succeeds) (hK : Trusted p K) :
    Trusted (trustHostAdd k p).2 K :=
  addKeeps_iff.mpr (Or.inr (Or.inl hp.next)) K hK

/-- Asking for a key loses none. -/
theorem trusted_trustHostIsTrusted_mono {p : Prefs} {k K : Bytes} (hp : p.Succeeds) (h0 : k ≠ [])
    (hK : Trusted p K) : Trusted (trustHostIsTrusted k p).2 K := by
  rw [trustHostIsTrusted_of_succeeds hp h0]
  split_ifs
  · exact hK
  · exact trusted_trustHostAdd_mono hp.drop.drop hK
  · exact hK

theorem trusted_checkHost_mono {h : Hello} {K : Bytes} (hp : s.prefs.Succeeds)
    (h0 : h.hostpub.val ≠ []) (hK : Trusted s.prefs K) : Trusted (checkHost h s).2 K := by
  unfold checkHost trustCheck
  split_ifs
  · exact hK
  · exact trusted_trustHostIsTrusted_mono hp h0 hK

/-! ### The steps -/

/-- The approval step keeps the host it approves, and the awaited ones. -/
theorem AcceptInv.approve (h : AcceptInv s o) (hdue : ApprovalDue s.g)
    (hsep : semi ∉ s.g.gTrustHostPubPending.val)
    (hok : KeepsPending s o) :
    AcceptInv (approveStep s)
      { o with hosts := (s.g.gTrustHostPubPending, o.identity) :: o.hosts } := by
  obtain ⟨hget, hvars⟩ := approveStep_due hdue
  obtain ⟨-, -, hstores⟩ := approveHost_spec s
  have hdrained := drained_approveStep s
  have hne := hdue.2.2
  generalize approveStep s = s' at hget hvars hdrained
  simp only [Globals.trust, TrustVars.mk.injEq] at hvars
  obtain ⟨-, -, -, hpending, -, hpin, -, hflag, -⟩ := hvars
  -- a portable host is the pinned one afterwards
  have hpinned (hport : Host.portable (s.g.gTrustHostPubPending, o.identity) = true) :
      s'.g.gTrustPortableHostPub = s.g.gTrustHostPubPending := by
    rw [hpin]
    rcases hstores with ⟨-, -, hp⟩ | ⟨hdown, -, hp⟩
    · exact hp
    · exact hp.trans (h.pinned hne hdown hport)
  refine ⟨hdrained.succeeds h.succeeds, ?_, ?_, ?_⟩
  · rw [hflag]
    exact fun _ hno => absurd hno Bool.false_ne_true
  · rw [hpending]
    exact fun _ _ hport => hpinned hport
  intro a ha
  rcases List.mem_cons.mp ha with rfl | ha
  · -- the host that is approved
    refine ⟨hne, ?_⟩
    split_ifs with hport
    · exact hpinned hport
    · rw [trusted_congr hget]
      rcases hstores with ⟨hup, -, -⟩ | ⟨-, hp, -⟩
      · exact absurd (h.flag hne hup) hport
      · rw [hp]
        rcases hok.2 (by simpa using hport) with htrusted | hroom
        · exact trusted_trustHostAdd_mono h.succeeds htrusted
        · exact trusted_trustHostAdd h.succeeds hne hsep hroom
  · -- a host that was approved before
    obtain ⟨ha0, hkept⟩ := h.kept a ha
    refine ⟨ha0, ?_⟩
    split_ifs at hkept ⊢ with hport
    · rw [hpin]
      rcases hstores with ⟨hup, -, hp⟩ | ⟨-, -, hp⟩
      · exact hp.trans (hok.1 (h.flag hne hup) hup a ha hport).symm
      · exact hp.trans hkept
    · rw [trusted_congr hget]
      rcases hstores with ⟨-, hp, -⟩ | ⟨-, hp, -⟩
      · rw [hp]
        exact hkept
      · rw [hp]
        exact trusted_trustHostAdd_mono h.succeeds hkept

/-- After FORGET nobody is awaited, and nobody pending. -/
theorem AcceptInv.forget (h : AcceptInv s o) (hf : s.g.gTrustForgetRequested = true) :
    AcceptInv (forgetStep s) { o with hosts := [] } := by
  obtain ⟨-, -, hvars⟩ := forgetStep_requested hf
  have hpending : (forgetStep s).g.gTrustHostPubPending = .put 512 [] :=
    congrArg TrustVars.pending hvars
  have hnone : (forgetStep s).g.gTrustHostPubPending.val = [] := by
    rw [hpending]
    rfl
  exact ⟨(drained_forgetStep s).succeeds h.succeeds, fun hne => absurd hnone hne,
    fun hne => absurd hnone hne, fun a ha => absurd ha List.not_mem_nil⟩

/-! ### The session -/

/-- A session over a link makes the trust check on the hello that was presented. -/
theorem sessionHello_of_presented {e : HelloEnv} {h : Hello} (hh : presented c e s = some h) :
    ∃ link s₁, Quiet s s₁ ∧ s₁.prefs = s.prefs ∧ e.hello c = some h ∧
      sessionHello c e s = if (checkHost h s₁).1 = true then
        (some (link, h), trustSetStatus 2 "MUTUAL AUTHENTICATION" (checked h (meet h s₁)))
        else (none, setPending h (checked h (meet h s₁))) := by
  obtain ⟨link, hlink, hhello⟩ := Option.bind_eq_some_iff.mp hh
  have hopen : openLink e s = (some link, (openLink e s).2) := Prod.ext hlink rfl
  exact ⟨link, (openLink e s).2, quiet_openLink e s, (openLink_stores e s).1, hhello,
    sessionHello_of_hello hopen hhello⟩

/-- Without one the session is over. -/
theorem sessionHello_of_not_presented {e : HelloEnv} (hh : presented c e s = none) :
    sessionHello c e s = (none, (openLink e s).2) := by
  unfold presented at hh
  unfold sessionHello sessionOpen
  generalize openLink e s = q at hh ⊢
  obtain ⟨link, s₁⟩ := q
  cases link with
  | none => rfl
  | some link =>
    have hnone : (trustRecvFrame 4096 e.chunks).bind (parseHello c e.digestOk) = none := hh
    dsimp only
    rw [hnone]

/-- An awaited host passes the trust check, wherever it is made. -/
theorem AcceptInv.checkHost (h : AcceptInv s o) {hello : Hello}
    (ha : (hello.hostpub, hello.hostidentity) ∈ o.hosts) {t : Service} (hprefs : t.prefs = s.prefs)
    (hpin : t.g.gTrustPortableHostPub = s.g.gTrustPortableHostPub) : (checkHost hello t).1 = true := by
  obtain ⟨h0, hkept⟩ := h.kept _ ha
  unfold ZorinTrust.checkHost trustCheck
  rw [hpin, hprefs]
  have hport : Host.portable (hello.hostpub, hello.hostidentity) = hello.portable := rfl
  rw [hport] at hkept
  split_ifs at hkept with hportable
  · rw [hkept, if_pos ⟨hportable, h0⟩]
    exact miniStreq_iff.mpr rfl
  · rw [if_neg fun hp => hportable hp.1]
    exact (trustHostIsTrusted_iff h.succeeds h0).mpr hkept

/-- **The invariant accepts**: an awaited host passes the trust check. -/
theorem AcceptInv.accepted (h : AcceptInv s o) : AcceptedNext c s o := by
  rintro ⟨K, identity⟩ ha e hello hh rfl rfl
  obtain ⟨link, s₁, hq, hprefs, -, hsession⟩ := sessionHello_of_presented hh
  rw [hsession, if_pos (h.checkHost ha hprefs hq.pin)]
  rfl

/-- Before the trust check a session leaves the stores and the pending host alone. -/
theorem AcceptInv.helloStep (h : AcceptInv s o) (e : HelloEnv) : AcceptInv (helloStep c e s).s o := by
  have hdrained := drained_helloStep c e s
  have hcase := sessionOpen_cases c e s
  unfold ZorinTrust.helloStep at hdrained ⊢
  generalize sessionOpen c e s = q at hcase hdrained ⊢
  cases hcase with
  | failed hq => exact h.quiet hq hdrained
  | met hq _ => exact h.congr hq.pending hq.pendingIsPortable hq.pin hq.prefs hdrained

/-- The trust check keeps the awaited hosts; a host that fails it waits under the identity it
presented. -/
theorem AcceptInv.checkStep {link : Link} {hello : Hello} (h : AcceptInv s o) (hh : HelloOk c hello)
    (hportable : s.g.gTrustHostIsPortable = hello.portable) :
    AcceptInv (checkStep link hello s).s
      (o.see ⟨.checking link hello, s⟩ .check (checkStep link hello s)) := by
  have hdrained := drained_checkStep link hello s
  -- the check loses no key and leaves the pin alone
  have hkept {t : Service} (htpin : t.g.gTrustPortableHostPub = s.g.gTrustPortableHostPub)
      (hget : ∀ k, t.prefs.get k = (ZorinTrust.checkHost hello s).2.get k) :
      ∀ a ∈ o.hosts.filter (· ≠ (hello.hostpub, hello.hostidentity)), a.1.val ≠ [] ∧
        if Host.portable a then t.g.gTrustPortableHostPub = a.1 else Trusted t.prefs a.1.val := by
    intro a ha
    obtain ⟨ha0, hkept⟩ := h.kept a (List.mem_filter.mp ha).1
    refine ⟨ha0, ?_⟩
    split_ifs at hkept ⊢
    · rw [htpin]
      exact hkept
    · rw [trusted_congr hget]
      exact trusted_checkHost_mono h.succeeds hh.hostpub_ne hkept
  have hcase := sessionCheck_cases hportable
  unfold Awaiting.see
  dsimp only
  unfold ZorinTrust.checkStep at hdrained ⊢
  generalize sessionCheck hello s = q at hcase hdrained ⊢
  cases hcase with
  | trusted hcheck =>
    refine ⟨hdrained.succeeds h.succeeds, h.flag, h.pinned, ?_⟩
    exact hkept (t := trustSetStatus 2 _ (checked hello s)) rfl fun k => trustSetStatus_get _ _ _ k
  | unknown hcheck =>
    refine ⟨hdrained.succeeds h.succeeds, fun _ hup => ?_, fun _ hdown hport => ?_, ?_⟩
    · exact hportable.symm.trans hup
    · exact absurd (hport.symm.trans (hportable.symm.trans hdown)) (by decide)
    · exact hkept (t := setPending hello (checked hello s)) rfl fun k => trustSetStatus_get _ _ _ k

/-- The part of a session past the trust check leaves the stores and the pending host alone. -/
theorem AcceptInv.answerStep (h : AcceptInv s o) {link : Link} {hello : Hello} (hh : HelloOk c hello)
    (e : AnswerEnv) : AcceptInv (answerStep c link hello e s).s o := by
  have hdrained := drained_answerStep c link hello e s
  have hcase := sessionAnswer_cases c link e s hh.hostder
  unfold ZorinTrust.answerStep at hdrained ⊢
  generalize sessionAnswer c link hello e s = q at hcase hdrained ⊢
  have hstatus {s₁ t : Service} (hq : Quiet s s₁)
      (hpending : t.g.gTrustHostPubPending = s₁.g.gTrustHostPubPending)
      (hflag : t.g.gTrustPendingIsPortable = s₁.g.gTrustPendingIsPortable)
      (hpin : t.g.gTrustPortableHostPub = s₁.g.gTrustPortableHostPub)
      (hget : ∀ k, t.prefs.get k = s₁.prefs.get k) (hdrained : Drained s.prefs t.prefs) :
      AcceptInv t o :=
    h.congr (hpending.trans hq.pending) (hflag.trans hq.pendingIsPortable) (hpin.trans hq.pin)
      (fun k => (hget k).trans (hq.prefs k)) hdrained
  cases hcase with
  | failed hq => exact h.quiet hq hdrained
  | error status hq => exact hstatus hq rfl rfl rfl (fun k => trustSetStatus_get _ _ _ k) hdrained
  | pairRequired hq _ => exact hstatus hq rfl rfl rfl (fun k => trustSetStatus_get _ _ _ k) hdrained
  | established policy hq _ =>
    exact hstatus hq rfl rfl rfl (fun k => trustSetStatus_get _ _ _ k) hdrained

/-- An established session leaves the stores and the pending host alone, and so does its end. -/
theorem AcceptInv.sessionCase {w : Worker} (h : AcceptInv s o) (hs : s.g.gTrustState = 3)
    (hdrained : Drained s.prefs w.s.prefs) (hcase : SessionCase s w) : AcceptInv w.s o := by
  cases hcase with
  | stays hpc hq => exact h.quiet hq hdrained
  | @ends s₁ hq =>
    obtain ⟨hget, hvars, -⟩ := sessionEnd_established (hq.state.trans hs)
    have hv := hvars.trans (congrArg (fun v : TrustVars =>
      { v with state := 0, status := .put 128 (lit "DEVICE TRUST LOST") }) hq.vars)
    simp only [Globals.trust, TrustVars.mk.injEq] at hv
    obtain ⟨-, -, -, hpending, -, hpin, -, hflag, -⟩ := hv
    exact h.congr hpending hflag hpin (fun k => (hget k).trans (hq.prefs k)) hdrained

/-- A command leaves the stores and the pending host alone. -/
theorem AcceptInv.consume (h : AcceptInv s o) (file : Option Bytes) :
    AcceptInv (trustUiConsumeCommand file s) o := by
  obtain ⟨hvars, -⟩ := trustUiConsumeCommand_trust file s
  have hprefs := (trustUiConsumeCommand_spec file s).2.1
  simp only [Globals.trust, TrustVars.mk.injEq] at hvars
  obtain ⟨-, -, -, hpending, -, hpin, -, hflag, -⟩ := hvars
  exact h.congr hpending hflag hpin (fun k => by rw [hprefs]) (drained_consume file s)

/-! ### Runs -/

/-- **One step keeps the invariant.** -/
theorem AcceptInv.step {l : Label} {w w' : Worker} (ht : TrustInv c p₀ w) (h : AcceptInv w.s o)
    (hok : CanKeep (w, o) l) (hnext : next c l w = some w') : AcceptInv w'.s (o.see w l w') := by
  have hdrained := drained_of_next hnext
  cases step_of_next hnext with
  | lifecycle alive pc s => exact h.quiet (quiet_lifecycle alive s) hdrained
  | start e s => exact h.quiet (quiet_workerStart c e s) hdrained
  | stop s => exact h
  | consume file s => exact h.consume file
  | forget s =>
    unfold Awaiting.see
    dsimp only
    split_ifs with hf
    · exact h.forget hf
    · rw [forgetStep_of_not_requested (by simpa using hf)]
      exact h
  | approve s =>
    unfold Awaiting.see
    dsimp only
    split_ifs with hdue
    · exact h.approve hdue ht.store.pendingSep (hok hdue)
    · rw [approveStep_of_not_due hdue]
      exact h
  | hello e s => exact h.helloStep e
  | check link hello s => exact h.checkStep ht.pc.2.1 ht.pc.2.2
  | answer e link hello s => exact h.answerStep ht.pc.2.1 e
  | round e s hforget hreconnect => exact h.sessionCase ht.pc hdrained (roundStep_cases e s)
  | turn p e r left s =>
    have hs : s.g.gTrustState = 3 := ht.pc
    exact h.sessionCase hs hdrained (turnStep_cases (by rw [hs]; decide))
  | giveUp r left s => exact h.sessionCase ht.pc hdrained (giveUpStep_cases s)
  | pong chunks s => exact h.sessionCase ht.pc hdrained (pongStep_cases chunks s)
  | leave s => exact h.sessionCase ht.pc hdrained (.ends (.refl s))
  | idle file left s =>
    have hconsume := h.consume file
    unfold idleStep
    dsimp only
    split_ifs
    · exact hconsume
    · exact hconsume
  | idleEnd left s => exact h

theorem acceptInv_init {p : Prefs} (hp : p.Succeeds) : AcceptInv (Worker.init p).s {} :=
  ⟨hp, fun hne => absurd rfl hne, fun hne => absurd rfl hne, fun _ ha => absurd ha List.not_mem_nil⟩

/-- **An approved host is accepted next time**, in every run whose preference calls succeed and whose
approvals could keep their host: from the state reached, and at the trust check it stands before. -/
theorem approved_accepted (c : Crypto) (p₀ : Prefs) (hp : p₀.Succeeds) (w : Worker) (o : Awaiting)
    (h : Run (watch (next c) Awaiting.see) CanKeep (Worker.init p₀, {}) (w, o)) :
    AcceptedNext c w.s o ∧ ∀ link hello, w.pc = .checking link hello →
      (hello.hostpub, hello.hostidentity) ∈ o.hosts → (sessionCheck hello w.s).1 = true := by
  have hinv := h.invariant_of_reach (I := fun q => AcceptInv q.1.s q.2) (acceptInv_init hp)
    fun t l u hreach hi hok hnext => by
      obtain ⟨hstep, hsee⟩ := watch_eq_some.mp hnext
      rw [hsee]
      exact hi.step (trustInv_of_reach hreach.unwatch) hok hstep
  refine ⟨hinv.accepted, fun link hello hpc ha => ?_⟩
  have ht : TrustInv c p₀ w := trustInv_of_reach h.reach.unwatch
  obtain ⟨pc, s⟩ := w
  dsimp only at hpc
  subst hpc
  rw [sessionCheck_eq ht.pc.2.2, if_pos (hinv.checkHost ha rfl rfl)]

/-! ### Samples -/

/-- An unknown host connects and is approved; the worker is about to start the next session. -/
def approving (key identity : String) : List Label :=
  startLabel :: toSession none ++ [helloLabel key identity, .check, .idle (approvalOf key)] ++
    toSession none

/-- The hello of `helloLabel "aa" "desk"`. -/
def deskHello : HelloEnv where
  chunks := [lit "ZTRUST/2\nHOST_PUB aa\nHOST_NONCE 01\nHOST_IDENTITY desk\nEND\n"]

/-- A host approved into an empty registry passes when it comes back. -/
theorem approved_accepted_desk : ∃ w o,
    Run (watch (next sampleCrypto) Awaiting.see) CanKeep (Worker.init {}, {}) (w, o) ∧
    o.hosts.map (fun a => (a.1.val, a.2.val)) = [(lit "aa", lit "desk")] ∧
    AcceptedNext sampleCrypto w.s o := by
  have hrun : (execOk (watch (next sampleCrypto) Awaiting.see) CanKeep
      (approving "aa" "desk") (Worker.init {}, {})).map
      (·.2.hosts.map fun a => (a.1.val, a.2.val)) = some [(lit "aa", lit "desk")] := by
    decide +kernel
  obtain ⟨⟨w, o⟩, hw, hhosts⟩ := Option.map_eq_some_iff.mp hrun
  have hrun' := Run.of_execOk hw
  have hp : Prefs.Succeeds {} := fun _ ho => absurd ho List.not_mem_nil
  exact ⟨w, o, hrun', hhosts, (approved_accepted sampleCrypto {} hp w o hrun').1⟩

/-- A registry string without room: the approval is reported, and the host has to ask again. -/
theorem approved_accepted_full : ¬ ∀ (c : Crypto) (p₀ : Prefs) (w : Worker) (o : Awaiting),
    p₀.Succeeds → Reach (watch (next c) Awaiting.see) (Worker.init p₀, {}) (w, o) →
    AcceptedNext c w.s o := by
  intro hall
  let p₀ : Prefs := { trustedHostsV2 := some (List.replicate 4093 98) }
  let aa : Host := (⟨lit "aa", by decide, by decide⟩, ⟨lit "desk", by decide, by decide⟩)
  have hrun : (exec (watch (next sampleCrypto) Awaiting.see) (approving "aa" "desk")
      (Worker.init p₀, {})).map (fun q => (q.1.s.g.gTrustStatus.val, decide (aa ∈ q.2.hosts),
        (presented sampleCrypto deskHello q.1.s).map (fun h => ((h.hostpub, h.hostidentity) : Host)),
        (sessionHello sampleCrypto deskHello q.1.s).1.isSome)) =
      some (lit "WORKSTATION APPROVED - AUTHENTICATING", true, some aa, false) := by
    decide +kernel
  obtain ⟨⟨w, o⟩, hw, hproj⟩ := Option.map_eq_some_iff.mp hrun
  simp only [Prod.mk.injEq, decide_eq_true_eq] at hproj
  obtain ⟨-, hmem, hpresented, hasks⟩ := hproj
  obtain ⟨hello, hhello, haa⟩ := Option.map_eq_some_iff.mp hpresented
  have hp : p₀.Succeeds := fun _ ho => absurd ho List.not_mem_nil
  have haccepted := hall sampleCrypto p₀ w o hp (Run.of_exec hw) aa hmem deskHello hello hhello
    (congrArg Prod.fst haa) (congrArg Prod.snd haa)
  exact absurd (haccepted.symm.trans hasks) (by decide)

/-- A second portable host takes the pin of the first, which has not come back. -/
example : (exec (watch (next sampleCrypto) Awaiting.see)
    (approving "aa" "portable/x" ++ [helloLabel "bb" "portable/y", .check, .idle (approvalOf "bb")] ++
      toSession none)
    (Worker.init {}, {})).map (fun q => (q.2.hosts.map (·.1.val), q.1.s.g.gTrustPortableHostPub.val)) =
    some ([lit "bb", lit "aa"], lit "bb") := by
  decide +kernel

end ZorinTrust
