import ZorinTrust.Provenance

/-!
# The host shown is the host approved

While a host waits for approval the service publishes a fingerprint and a pending key.  Every session
writes the fingerprint of the host it meets, and only a host that fails the trust check becomes the
pending one.  They belong together in every run in which AUTH PAIR_REQUIRED does not bring back the
pending key of another host, and no service callback publishes while a session that follows on such a
host stands before its trust check.
-/

namespace ZorinTrust

open CText Numeral Machine

/-! ### Fingerprint texts -/

theorem zero_notMem_upperHex (c : UInt8) : 0 ∉ upperHex c := by
  have key : ∀ m : Fin 256, 0 ∉ upperHex (UInt8.ofNat m) := by decide +kernel
  simpa using key ⟨c.toNat, c.toNat_lt⟩

theorem zero_notMem_fingerprintText : ∀ (i : ℕ) (d : Bytes), 0 ∉ fingerprintText i d
  | _, [] => List.not_mem_nil
  | i, c :: d => by
    have hc := zero_notMem_upperHex c
    have hd := zero_notMem_fingerprintText (i + 1) d
    rw [fingerprintText]
    split_ifs
    · simp [hc, hd]
    · simp [hc, hd]

theorem length_fingerprintText : ∀ (i : ℕ) (d : Bytes), (fingerprintText i d).length ≤ 3 * d.length
  | _, [] => Nat.le_refl 0
  | i, c :: d => by
    have hd := length_fingerprintText (i + 1) d
    have hc : (upperHex c).length = 2 := rfl
    rw [fingerprintText]
    split_ifs
    · simp only [List.length_append, List.length_cons, hc]
      omega
    · simp only [List.length_append, List.length_cons, hc]
      omega

/-- `g_trust_host_fp` holds every fingerprint in full. -/
theorem keyFingerprint_fits {c : Crypto} {key fp : Bytes} (h : keyFingerprint c key = some fp) :
    (CStr.put 128 fp).val = fp := by
  obtain ⟨der, -, hfp⟩ := Option.bind_eq_some_iff.mp h
  unfold trustFingerprintDer at hfp
  split_ifs at hfp
  cases hfp
  have hlen := length_fingerprintText 0 ((c.sha256 der).take 16)
  have htake := List.length_take_le 16 (c.sha256 der)
  exact CStr.put_val_of_fits (zero_notMem_fingerprintText _ _) (by omega)

/-! ### What a step publishes -/

/-- What is published on the way shows the trust variables of one of the two ends. -/
def Shown (s s' : Service) : Prop :=
  ∀ g paired, .published g paired ∈ s'.log →
    .published g paired ∈ s.log ∨ g.trust = s.g.trust ∨ g.trust = s'.g.trust

theorem Extends.shown {s s' : Service} (h : Extends s s') : Shown s s' := fun g paired hg => by
  obtain ⟨new, hlog, hpub⟩ := h
  rw [hlog] at hg
  rcases List.mem_append.mp hg with hg | hg
  · exact Or.inr (Or.inr (hpub g paired hg))
  · exact Or.inl hg

/-- A quiet stretch, then a state with other trust variables that publishes itself. -/
theorem Extends.shown_of_quiet {s t u : Service} (h : Extends t u) (hq : Quiet s t) : Shown s u :=
  fun g paired hg => by
    rcases h.shown g paired hg with hg | hv | hv
    · rcases hq.history.shown g paired hg with hg | hv | hv
      · exact Or.inl hg
      · exact Or.inr (Or.inl hv)
      · exact Or.inr (Or.inl (hv.trans hq.vars))
    · exact Or.inr (Or.inl (hv.trans hq.vars))
    · exact Or.inr (Or.inr hv)

/-! ### The invariant -/

/-- While a host waits for approval, the fingerprint is that of the pending key. -/
def Displayed (c : Crypto) (g : Globals) : Prop :=
  g.gTrustState = 1 → g.gTrustHostPubPending.val ≠ [] →
    keyFingerprint c g.gTrustHostPubPending.val = some g.gTrustHostFp.val

variable {c : Crypto} {p₀ : Prefs}

theorem Displayed.congr {g g' : Globals} (h : Displayed c g) (hv : g'.trust = g.trust) :
    Displayed c g' := by
  simp only [Globals.trust, TrustVars.mk.injEq] at hv
  obtain ⟨hstate, -, hfp, hpending, -⟩ := hv
  unfold Displayed
  rw [hstate, hfp, hpending]
  exact h

instance (g : Globals) : Decidable (Displayed c g) := inferInstanceAs (Decidable (_ → _ → _))

theorem displayed_of_state {g : Globals} (h : g.gTrustState ≠ 1) : Displayed c g :=
  fun h1 => absurd h1 h

/-- AUTH PAIR_REQUIRED comes from a host with the fingerprint of the pending key, if a key is pending. -/
def PairRequiredMatches (c : Crypto) (w : Worker) (l : Label) : Prop :=
  ∀ link h e, w.pc = .authenticating link h → l = .answer e → PairRequired c link h e w.s →
    w.s.g.gTrustHostPubPending.val = [] ∨
      keyFingerprint c w.s.g.gTrustHostPubPending.val = keyFingerprint c h.hostpub.val

/-- A service callback that finds a session before its trust check, and the state still 1, finds no
pending key or one with the fingerprint of the session's host. -/
def CallbackMatches (c : Crypto) (w : Worker) (l : Label) : Prop :=
  ∀ link h alive, w.pc = .checking link h → l = .lifecycle alive → w.s.g.gTrustState = 1 →
    w.s.g.gTrustHostPubPending.val = [] ∨
      keyFingerprint c w.s.g.gTrustHostPubPending.val = keyFingerprint c h.hostpub.val

/-- Where a step brings the fingerprint of a session's host before the user, it is that of the pending
key. -/
def FingerprintMatches (c : Crypto) (w : Worker) (l : Label) : Prop :=
  PairRequiredMatches c w l ∧ CallbackMatches c w l

/-- The host of a session whose fingerprint is in the globals. -/
def Pc.host : Pc → Option Hello
  | .checking _ h | .authenticating _ h => some h
  | _ => none

/-- What is shown outside the gap before a trust check, what was published, and whose fingerprint a
session shows. -/
structure DisplayInv (c : Crypto) (w : Worker) : Prop where
  now : (∀ link h, w.pc ≠ .checking link h) → Displayed c w.s.g
  published : ∀ g paired, .published g paired ∈ w.s.log → Displayed c g
  host : ∀ h ∈ w.pc.host, w.s.g.gTrustHostFp.val = h.fp

theorem DisplayInv.of_shown {w w' : Worker} (hi : DisplayInv c w) (hstart : Displayed c w.s.g)
    (hshown : Shown w.s w'.s) (hnow : Displayed c w'.s.g)
    (hhost : ∀ h ∈ w'.pc.host, w'.s.g.gTrustHostFp.val = h.fp) : DisplayInv c w' where
  now _ := hnow
  published g paired hg := by
    rcases hshown g paired hg with hg | hv | hv
    · exact hi.published g paired hg
    · exact hstart.congr hv
    · exact hnow.congr hv
  host := hhost

theorem DisplayInv.quiet {pc pc' : Pc} {s s' : Service} (hi : DisplayInv c ⟨pc, s⟩)
    (hstart : Displayed c s.g) (hq : Quiet s s') (hpc : ∀ h ∈ pc'.host, h ∈ pc.host) :
    DisplayInv c ⟨pc', s'⟩ := by
  refine hi.of_shown hstart hq.history.shown (hstart.congr hq.vars) fun h hh => ?_
  show s'.g.gTrustHostFp.val = h.fp
  rw [hq.hostFp]
  exact hi.host h (hpc h hh)

/-! ### The steps -/

/-- A callback in the gap shows the host of the session, under the condition with its own key. -/
theorem DisplayInv.callback {pc : Pc} {s : Service} {alive : Bool} (ht : TrustInv c p₀ ⟨pc, s⟩)
    (hi : DisplayInv c ⟨pc, s⟩) (hok : CallbackMatches c ⟨pc, s⟩ (.lifecycle alive)) :
    Displayed c s.g := by
  by_cases hgap : ∀ link h, pc ≠ .checking link h
  · exact hi.now hgap
  push Not at hgap
  obtain ⟨link, h, rfl⟩ := hgap
  have hh : HelloOk c h := ht.pc.2.1
  intro h1 hne
  rw [hi.host h rfl, (hok link h alive rfl rfl h1).resolve_left hne]
  exact hh.fp

theorem DisplayInv.consume {pc pc' : Pc} {s : Service} (hi : DisplayInv c ⟨pc, s⟩)
    (hgap : ∀ link h, pc ≠ .checking link h) (file : Option Bytes) (hpc : pc'.host = none) :
    DisplayInv c ⟨pc', trustUiConsumeCommand file s⟩ := by
  obtain ⟨hvars, -⟩ := trustUiConsumeCommand_trust file s
  refine hi.of_shown (hi.now hgap) (extends_consume file s).shown ?_ fun h hh => ?_
  · show Displayed c (trustUiConsumeCommand file s).g
    -- only the approval flag may differ
    have hcongr : (trustUiConsumeCommand file s).g.trust =
        { s.g with gTrustApproveRequested :=
            (trustUiConsumeCommand file s).g.gTrustApproveRequested }.trust := hvars
    have hnow : Displayed c { s.g with gTrustApproveRequested :=
        (trustUiConsumeCommand file s).g.gTrustApproveRequested } := hi.now hgap
    exact hnow.congr hcongr
  · rw [hpc] at hh
    cases hh

/-- A session that meets its host writes the fingerprint, and publishes nothing. -/
theorem DisplayInv.helloStep {s : Service} (hi : DisplayInv c ⟨.session, s⟩) (e : HelloEnv) :
    DisplayInv c (helloStep c e s) := by
  have hcase := sessionOpen_cases c e s
  have hstart := hi.now (by simp)
  unfold ZorinTrust.helloStep
  generalize sessionOpen c e s = q at hcase ⊢
  cases hcase with
  | failed hq => exact hi.quiet hstart hq fun h hh => by cases hh
  | @met link hello s₁ hq hhello =>
    refine ⟨fun hgap => absurd rfl (hgap link hello), fun g paired hg => ?_, fun h hh => ?_⟩
    · have hidle : DisplayInv c ⟨.idle 20, s₁⟩ := hi.quiet hstart hq fun h hh => by cases hh
      exact hidle.published g paired hg
    · obtain rfl := Option.some.inj hh
      exact keyFingerprint_fits (HelloEnv.hello_ok hhello).fp

/-- A host that fails the trust check is shown with its own fingerprint. -/
theorem DisplayInv.checkStep {link : Link} {h : Hello} {s : Service}
    (hi : DisplayInv c ⟨.checking link h, s⟩) (hh : HelloOk c h)
    (hportable : s.g.gTrustHostIsPortable = h.portable) : DisplayInv c (checkStep link h s) := by
  have hcase := sessionCheck_cases hportable
  have hhost : s.g.gTrustHostFp.val = h.fp := hi.host h rfl
  have hpub {t : Service} (hext : Extends s t) (hnow : Displayed c t.g) (g : Globals) (paired : Bool)
      (hg : .published g paired ∈ t.log) : Displayed c g := by
    obtain ⟨new, hlog, hnew⟩ := hext
    rw [hlog] at hg
    rcases List.mem_append.mp hg with hg | hg
    · exact hnow.congr (hnew g paired hg)
    · exact hi.published g paired hg
  unfold ZorinTrust.checkStep
  generalize sessionCheck h s = q at hcase ⊢
  cases hcase with
  | trusted hcheck =>
    have hnow : Displayed c (trustSetStatus 2 "MUTUAL AUTHENTICATION" (checked h s)).g :=
      displayed_of_state (by simp)
    refine ⟨fun _ => hnow, hpub (extends_setStatus _ _ rfl) hnow, fun h' hh' => ?_⟩
    obtain rfl := Option.some.inj hh'
    exact hhost
  | unknown hcheck =>
    have hnow : Displayed c (setPending h (checked h s)).g := fun _ _ => by
      show keyFingerprint c (CStr.put 512 h.hostpub.val).val = some s.g.gTrustHostFp.val
      rw [CStr.put_val_self, hhost]
      exact hh.fp
    exact ⟨fun _ => hnow, hpub (extends_setStatus _ _ rfl) hnow, fun h' hh' => by cases hh'⟩

/-- The answer of a host: only AUTH PAIR_REQUIRED enters state 1, under the condition with the
fingerprint of the pending key. -/
theorem DisplayInv.answerStep {link : Link} {h : Hello} {s : Service} {e : AnswerEnv}
    (hi : DisplayInv c ⟨.authenticating link h, s⟩) (hh : HelloOk c h)
    (hok : PairRequired c link h e s → s.g.gTrustHostPubPending.val = [] ∨
      keyFingerprint c s.g.gTrustHostPubPending.val = keyFingerprint c h.hostpub.val) :
    DisplayInv c (answerStep c link h e s) := by
  have hcase := sessionAnswer_cases c link e s hh.hostder
  have hstart := hi.now (by simp)
  unfold ZorinTrust.answerStep
  generalize sessionAnswer c link h e s = q at hcase ⊢
  cases hcase with
  | failed hq => exact hi.quiet hstart hq fun h' hh => by cases hh
  | @error s₁ status hq =>
    have hext : Extends s₁ (trustSetStatus (-1) status s₁) := extends_setStatus _ _ rfl
    exact hi.of_shown hstart (hext.shown_of_quiet hq) (displayed_of_state (by simp))
      fun h' hh => by cases hh
  | @pairRequired s₁ hq hanswer =>
    have hext : Extends s₁ (trustSetStatus 1 "HOST REQUIRES --PAIR-ONCE" s₁) :=
      extends_setStatus _ _ rfl
    refine hi.of_shown hstart (hext.shown_of_quiet hq) (fun _ hne => ?_) fun h' hh => by cases hh
    show keyFingerprint c s₁.g.gTrustHostPubPending.val = some s₁.g.gTrustHostFp.val
    rw [hq.hostFp, hq.pending, hi.host h rfl, (hok hanswer).resolve_left fun hnil => ?_]
    · exact hh.fp
    · exact hne (by rw [← hnil, ← hq.pending]; rfl)
  | @established s₁ policy hq hproved =>
    have hext : Extends s₁ (establish policy s₁) := by
      refine ⟨[_], rfl, fun g paired hg => ?_⟩
      cases List.mem_singleton.mp hg
      rfl
    exact hi.of_shown hstart (hext.shown_of_quiet hq) (displayed_of_state (by simp [establish]))
      fun h' hh => by cases hh

theorem DisplayInv.sessionCase {pc : Pc} {s : Service} {w : Worker} (hi : DisplayInv c ⟨pc, s⟩)
    (hs : s.g.gTrustState = 3) (hgap : ∀ link h, pc ≠ .checking link h) (h : SessionCase s w) :
    DisplayInv c w := by
  have hstart := hi.now hgap
  cases h with
  | @stays pc' s' hpc hq => exact hi.quiet hstart hq fun h hh => by cases pc' <;> cases hh <;> cases hpc
  | @ends s' hq =>
    have hs' : s'.g.gTrustState = 3 := hq.state.trans hs
    obtain ⟨-, hvars, hext⟩ := sessionEnd_established hs'
    have h0 : (sessionEnd s').g.gTrustState = 0 := congrArg TrustVars.state hvars
    exact hi.of_shown hstart (hext.shown_of_quiet hq) (displayed_of_state (by
      show (sessionEnd s').g.gTrustState ≠ 1
      rw [h0]; decide)) fun h hh => by cases hh

/-- **One step keeps the invariant.** -/
theorem DisplayInv.step {l : Label} {w w' : Worker} (ht : TrustInv c p₀ w) (hi : DisplayInv c w)
    (hok : FingerprintMatches c w l) (hnext : next c l w = some w') : DisplayInv c w' := by
  cases step_of_next hnext with
  | lifecycle alive pc s =>
    exact hi.quiet (DisplayInv.callback ht hi hok.2) (quiet_lifecycle alive s) fun _ hh => hh
  | start e s => exact hi.quiet (hi.now (by simp)) (quiet_workerStart c e s) fun _ hh => by cases hh
  | stop s => exact hi.quiet (hi.now (by simp)) (.refl s) fun _ hh => by cases hh
  | consume file s => exact hi.consume (by simp) file rfl
  | forget s =>
    by_cases hf : s.g.gTrustForgetRequested = true
    · exact hi.of_shown (hi.now (by simp)) (extends_forgetStep s).shown (displayed_of_state (by
        show (forgetStep s).g.gTrustState ≠ 1
        rw [forgetStep_state hf]; decide)) fun _ hh => by cases hh
    · rw [forgetStep_of_not_requested (by simpa using hf)]
      exact hi.quiet (hi.now (by simp)) (.refl s) fun _ hh => by cases hh
  | approve s =>
    by_cases hdue : ApprovalDue s.g
    · exact hi.of_shown (hi.now (by simp)) (extends_approveStep s).shown (displayed_of_state (by
        show (approveStep s).g.gTrustState ≠ 1
        rw [approveStep_state hdue]; decide)) fun _ hh => by cases hh
    · rw [approveStep_of_not_due hdue]
      exact hi.quiet (hi.now (by simp)) (.refl s) fun _ hh => by cases hh
  | hello e s => exact hi.helloStep e
  | check link h s => exact hi.checkStep ht.pc.2.1 ht.pc.2.2
  | answer e link h s => exact hi.answerStep ht.pc.2.1 (hok.1 link h e rfl rfl)
  | round e s hforget hreconnect => exact hi.sessionCase ht.pc (by simp) (roundStep_cases e s)
  | turn p e r left s =>
    have hs : s.g.gTrustState = 3 := ht.pc
    exact hi.sessionCase hs (by simp) (turnStep_cases (by rw [hs]; decide))
  | giveUp r left s => exact hi.sessionCase ht.pc (by simp) (giveUpStep_cases s)
  | pong chunks s => exact hi.sessionCase ht.pc (by simp) (pongStep_cases chunks s)
  | leave s => exact hi.sessionCase ht.pc (by simp) (.ends (.refl s))
  | idle file left s =>
    unfold idleStep
    dsimp only
    split_ifs
    · exact hi.consume (by simp) file rfl
    · exact hi.consume (by simp) file rfl
  | idleEnd left s => exact hi.quiet (hi.now (by simp)) (.refl s) fun _ hh => by cases hh

theorem displayInv_of_run {w : Worker}
    (h : Run (next c) (FingerprintMatches c) (Worker.init p₀) w) : DisplayInv c w := by
  refine h.invariant_of_reach ?_ fun t l u hreach hi hok hnext =>
    hi.step (trustInv_of_reach hreach) hok hnext
  have h0 : (Worker.init p₀).s.g.gTrustState ≠ 1 := show (0 : Int32) ≠ 1 by decide
  exact ⟨fun _ => displayed_of_state h0, fun _ _ hg => absurd hg List.not_mem_nil,
    fun _ hh => by cases hh⟩

/-- **The host shown is the host pending**, at every publication of a run that meets the condition. -/
theorem published_displayed (c : Crypto) (p₀ : Prefs) (w : Worker)
    (h : Run (next c) (FingerprintMatches c) (Worker.init p₀) w) (g : Globals) (paired : Bool)
    (hg : .published g paired ∈ w.s.log) : Displayed c g :=
  (displayInv_of_run h).published g paired hg

/-- **The condition is exact**: the first answer or callback that breaks it publishes a fingerprint that
is not that of the pending key. -/
theorem exists_published_not_displayed {l : Label} {w w' : Worker}
    (h : Run (next c) (FingerprintMatches c) (Worker.init p₀) w) (hnext : next c l w = some w')
    (hno : ¬ FingerprintMatches c w l) :
    ∃ g paired, .published g paired ∈ w'.s.log ∧ ¬ Displayed c g := by
  have ht := trustInv_of_reach h.reach
  have hi := displayInv_of_run h
  obtain ⟨pc, s⟩ := w
  rcases not_and_or.mp hno with hno | hno
  · unfold PairRequiredMatches at hno
    push Not at hno
    obtain ⟨link, hello, e, hpc, rfl, hanswer, hne, hfp⟩ := hno
    dsimp only at hpc hanswer hne hfp
    subst hpc
    have hh : HelloOk c hello := ht.pc.2.1
    obtain ⟨s₁, hq, heq⟩ := sessionAnswer_pairRequired hanswer
    have hw : answerStep c link hello e s = w' := Option.some.inj hnext
    unfold answerStep at hw
    rw [heq] at hw
    subst hw
    refine ⟨_, _, List.mem_cons_self, fun hshown => hfp ?_⟩
    have hshown : keyFingerprint c s₁.g.gTrustHostPubPending.val = some s₁.g.gTrustHostFp.val :=
      hshown rfl (by rw [← hq.pending] at hne; exact hne)
    rw [hq.pending, hq.hostFp, hi.host hello rfl] at hshown
    rw [hshown, hh.fp]
  · unfold CallbackMatches at hno
    push Not at hno
    obtain ⟨link, hello, alive, hpc, rfl, h1, hne, hfp⟩ := hno
    dsimp only at hpc h1 hne hfp
    subst hpc
    have hh : HelloOk c hello := ht.pc.2.1
    have hw : Worker.mk (.checking link hello) (lifecycleStep alive s) = w' := Option.some.inj hnext
    subst hw
    refine ⟨_, _, List.mem_cons_self, fun hshown => hfp ?_⟩
    have hshown : keyFingerprint c s.g.gTrustHostPubPending.val = some s.g.gTrustHostFp.val :=
      hshown h1 hne
    rw [hi.host hello rfl] at hshown
    rw [hshown, hh.fp]

/-! ### Samples -/

/-- Some state frame of the history shows globals with this property. -/
def publishedWith (p : Globals → Bool) (log : List Event) : Bool :=
  log.any fun | .published g _ => p g | _ => false

theorem exists_published {p : Globals → Bool} {log : List Event} (h : publishedWith p log = true) :
    ∃ g paired, .published g paired ∈ log ∧ p g = true := by
  obtain ⟨ev, hmem, hev⟩ := List.any_eq_true.mp h
  cases ev with
  | published g paired => exact ⟨g, paired, hmem, hev⟩
  | _ => cases hev

/-- The steps the condition speaks of. -/
def Label.shows : Label → Bool
  | .answer _ | .lifecycle _ => true
  | _ => false

theorem fingerprintMatches_of_not_shows {w : Worker} {l : Label} (h : l.shows = false) :
    FingerprintMatches c w l := by
  constructor
  · rintro link hello e - rfl -
    cases h
  · rintro link hello alive - rfl -
    cases h

/-- An approved host that asks to pair again is shown with its own fingerprint. -/
theorem published_displayed_pairAgain : ∃ w g paired,
    Run (next sampleCrypto) (FingerprintMatches sampleCrypto) (Worker.init {}) w ∧
    .published g paired ∈ w.s.log ∧ g.gTrustState = 1 ∧ g.gTrustHostPubPending.val = lit "aa" ∧
    keyFingerprint sampleCrypto (lit "aa") = some g.gTrustHostFp.val := by
  have hrun : (execOk (next sampleCrypto) (fun _ l => l.shows = false) (pairing "aa" "desk")
      (Worker.init {})).map (fun w => (w.pc.host.map (·.hostpub.val), w.s.g.gTrustHostPubPending.val,
        (next sampleCrypto (answerLabel "AUTH PAIR_REQUIRED\nEND\n") w).map fun w' =>
          publishedWith (fun g => g.gTrustState = 1 ∧ g.gTrustStatus.val =
            lit "HOST REQUIRES --PAIR-ONCE" ∧ g.gTrustHostPubPending.val = lit "aa") w'.s.log)) =
      some (some (lit "aa"), lit "aa", some true) := by
    decide +kernel
  obtain ⟨w, hw, hproj⟩ := Option.map_eq_some_iff.mp hrun
  simp only [Prod.mk.injEq, Option.map_eq_some_iff] at hproj
  obtain ⟨⟨h, hpc, hkey⟩, hpending, w', hnext, hpub⟩ := hproj
  have hrun' : Run (next sampleCrypto) (FingerprintMatches sampleCrypto) (Worker.init {}) w :=
    (Run.of_execOk hw).mono fun t l hl => fingerprintMatches_of_not_shows hl
  have hok : FingerprintMatches sampleCrypto w (answerLabel "AUTH PAIR_REQUIRED\nEND\n") := by
    refine ⟨fun link hello e hw' _ _ => ?_, fun link hello alive _ hl _ => by cases hl⟩
    rw [hw'] at hpc
    cases hpc
    exact Or.inr (by rw [hpending, hkey])
  obtain ⟨g, paired, hg, hp⟩ := exists_published hpub
  simp only [decide_eq_true_eq] at hp
  have hshown := published_displayed sampleCrypto {} w' (hrun'.step hok hnext) g paired hg
  refine ⟨w', g, paired, hrun'.step hok hnext, hg, hp.1, hp.2.2, ?_⟩
  rw [← hp.2.2]
  exact hshown hp.1 (by rw [hp.2.2]; decide)

/-- A trusted host that answers AUTH PAIR_REQUIRED after an unknown one was turned away. -/
def strayPairRequest : List Label :=
  startLabel :: toSession none ++ [helloLabel "aa" "desk", .check, .idleEnd] ++ toSession none ++
    [helloLabel "bb" "desk", .check, answerLabel "AUTH PAIR_REQUIRED\nEND\n"]

/-- It is shown as the host to approve, while the pending key is that of the unknown one. -/
theorem published_displayed_stray : ¬ ∀ (c : Crypto) (p₀ : Prefs) (w : Worker),
    Reach (next c) (Worker.init p₀) w → ∀ g paired, .published g paired ∈ w.s.log → Displayed c g := by
  intro hall
  have hrun : (exec (next sampleCrypto) strayPairRequest
      (Worker.init { trustedHostsV2 := some (lit "bb") })).map
      (fun w => publishedWith (fun g => ¬ Displayed sampleCrypto g) w.s.log) = some true := by
    decide +kernel
  obtain ⟨w, hw, hpub⟩ := Option.map_eq_some_iff.mp hrun
  obtain ⟨g, paired, hg, hp⟩ := exists_published hpub
  exact of_decide_eq_true hp (hall sampleCrypto _ w (Run.of_exec hw) g paired hg)

/-- So is a host that connects while another one waits, when the service is created again before its
trust check. -/
example : (exec (next sampleCrypto) (startLabel :: toSession none ++
    [helloLabel "aa" "desk", .check, .idleEnd] ++ toSession none ++ [helloLabel "bb" "desk", .lifecycle true])
    (Worker.init {})).map (fun w => publishedWith (fun g => ¬ Displayed sampleCrypto g) w.s.log) =
    some true := by
  decide +kernel

end ZorinTrust
