import ZorinTrust.Provenance

/-!
# FORGET

FORGET takes the current host out of one store of trust, which the last hello chose: the pin when that
host called itself portable, the registry and the legacy key otherwise.  It revokes the host exactly
when the other store does not hold it.
-/

namespace ZorinTrust

open CText Numeral Machine

/-- The trust check of the next session with key `K` fails under every identity, and no approval is
standing. -/
def Revoked (K : Bytes) (s : Service) : Prop :=
  s.g.gTrustApproveRequested = false ∧ ∀ identity : CStr 96,
    (trustCheck (trustPrefix identity.val (lit "portable/")) K s.g.gTrustPortableHostPub.val s.prefs).1 =
      false

/-- Every other key of the registry is as trusted as before. -/
def OthersKept (K : Bytes) (s s' : Service) : Prop :=
  ∀ K', K' ≠ K → (Trusted s'.prefs K' ↔ Trusted s.prefs K')

/-! ### The trust check under every identity -/

/-- A host fails the check under every identity exactly when no store holds its key. -/
theorem check_fails_iff {K : Bytes} {s : Service} (hK : K ≠ []) (hp : s.prefs.Succeeds) :
    (∀ identity : CStr 96, (trustCheck (trustPrefix identity.val (lit "portable/")) K
      s.g.gTrustPortableHostPub.val s.prefs).1 = false) ↔
    s.g.gTrustPortableHostPub.val ≠ K ∧ ¬ Trusted s.prefs K := by
  have htrusted : (trustHostIsTrusted K s.prefs).1 = false ↔ ¬ Trusted s.prefs K := by
    rw [← trustHostIsTrusted_iff hp hK, Bool.not_eq_true]
  constructor
  · intro h
    -- the empty identity asks the registry, a portable one asks the pin
    have hplain : (trustHostIsTrusted K s.prefs).1 = false := h (.put 96 [])
    refine ⟨fun hpin => ?_, htrusted.mp hplain⟩
    have hportable : (trustCheck true K s.g.gTrustPortableHostPub.val s.prefs).1 = false :=
      h (.put 96 (lit "portable/"))
    unfold trustCheck at hportable
    have hself : miniStreq K K = true := miniStreq_iff.mpr rfl
    rw [if_pos ⟨rfl, by rw [hpin]; exact hK⟩, hpin, hself] at hportable
    cases hportable
  · rintro ⟨hpin, hnot⟩ identity
    unfold trustCheck
    split_ifs
    · rw [← Bool.not_eq_true, miniStreq_iff]
      exact hpin
    · exact htrusted.mpr hnot

theorem openLink_stores (e : HelloEnv) (s : Service) :
    (openLink e s).2.prefs = s.prefs ∧
      (openLink e s).2.g.gTrustPortableHostPub = s.g.gTrustPortableHostPub := by
  have hget : (trustGetEndpoint e.transport e.transportClock s).2.prefs = s.prefs ∧
      (trustGetEndpoint e.transport e.transportClock s).2.g.gTrustPortableHostPub =
        s.g.gTrustPortableHostPub := by
    unfold trustGetEndpoint
    cases directTransport e.transport e.transportClock <;> exact ⟨rfl, rfl⟩
  unfold openLink
  dsimp only
  split_ifs
  · exact ⟨rfl, rfl⟩
  all_goals exact hget

/-- A revoked host does not get past the trust check, whatever it calls itself. -/
theorem Revoked.hello_fails {c : Crypto} {K : Bytes} {s : Service} (h : Revoked K s) {e : HelloEnv}
    {hello : Hello} (hh : e.hello c = some hello) (hk : hello.hostpub.val = K) :
    (sessionHello c e s).1 = none := by
  obtain ⟨hprefs, hpin⟩ := openLink_stores e s
  cases hlink : openLink e s with
  | mk link s₁ =>
    rw [hlink] at hprefs hpin
    cases link with
    | none =>
      unfold sessionHello sessionOpen
      rw [hlink]
    | some link =>
      have hcheck : (checkHost hello s₁).1 = false := by
        unfold checkHost
        rw [hk, hprefs, hpin]
        exact h.2 hello.hostidentity
      rw [sessionHello_of_hello hlink hh, if_neg (by simp [hcheck])]

/-! ### The step -/

/-- What FORGET leaves in the stores of trust. -/
theorem trusted_forgetStep {s : Service} (hf : s.g.gTrustForgetRequested = true)
    (hK : s.g.gTrustHostPubCurrent.val ≠ []) (hp : s.prefs.Succeeds) (k : Bytes) :
    (Trusted (forgetStep s).prefs k ↔
      Trusted s.prefs k ∧ (s.g.gTrustHostIsPortable = false → k ≠ s.g.gTrustHostPubCurrent.val)) ∧
    (forgetStep s).g.gTrustPortableHostPub.val =
      if s.g.gTrustHostIsPortable then [] else s.g.gTrustPortableHostPub.val := by
  obtain ⟨hget, -, hvars⟩ := forgetStep_requested hf
  have hpin : (forgetStep s).g.gTrustPortableHostPub = (forgetHost s).g.gTrustPortableHostPub :=
    congrArg TrustVars.pin hvars
  rw [trusted_congr hget, hpin]
  obtain ⟨-, -, hstores⟩ := forgetHost_spec s
  rcases hstores with ⟨hportable, hprefs, hpin'⟩ | ⟨hplain, hpin', hprefs⟩
  · rw [hprefs, hpin', hportable]
    simp
  · rw [hprefs, hpin', hplain, if_pos hK, trusted_trustHostRemove_iff hp hK]
    simp

theorem succeeds_forgetStep {s : Service} (hp : s.prefs.Succeeds) : (forgetStep s).prefs.Succeeds := by
  have hhost : (forgetHost s).prefs.Succeeds := by
    unfold forgetHost
    split_ifs
    · exact hp
    · exact (drained_trustHostRemove _ _).succeeds hp
    · exact hp
  unfold forgetStep
  split_ifs
  · exact hhost.drop
  · exact hp

/-- **When FORGET revokes.** -/
theorem forget_revokes_iff (s : Service) (hf : s.g.gTrustForgetRequested = true)
    (hK : s.g.gTrustHostPubCurrent.val ≠ []) (hp : s.prefs.Succeeds) :
    (Revoked s.g.gTrustHostPubCurrent.val (forgetStep s) ∧
      OthersKept s.g.gTrustHostPubCurrent.val s (forgetStep s)) ↔
    if s.g.gTrustHostIsPortable then ¬ Trusted s.prefs s.g.gTrustHostPubCurrent.val
    else s.g.gTrustPortableHostPub.val ≠ s.g.gTrustHostPubCurrent.val := by
  have hothers : OthersKept s.g.gTrustHostPubCurrent.val s (forgetStep s) := fun k hk => by
    rw [(trusted_forgetStep hf hK hp k).1]
    exact and_iff_left fun _ => hk
  have happrove : (forgetStep s).g.gTrustApproveRequested = false :=
    congrArg TrustVars.approve (forgetStep_requested hf).2.2
  obtain ⟨htrusted, hpin⟩ := trusted_forgetStep hf hK hp s.g.gTrustHostPubCurrent.val
  unfold Revoked
  rw [and_iff_left hothers, and_iff_right happrove, check_fails_iff hK (succeeds_forgetStep hp), htrusted,
    hpin]
  by_cases hportable : s.g.gTrustHostIsPortable = true
  · rw [if_pos hportable, if_pos hportable, hportable]
    simp [Ne.symm hK]
  · rw [if_neg hportable, if_neg hportable]
    simp [hportable]

/-! ### Samples -/

/-- A stored host connects under this identity, loses the link, and the user revokes it. -/
def revoking (identity : String) : List Label :=
  startLabel :: toSession none ++ [helloLabel "aa" identity, .check, answerLabel "AUTH FAILED\nEND\n",
    .idle (some (commandFrame "FORGET" [])), .consume none]

/-- What FORGET meets in a run. -/
def atForget (w : Worker) : Prop :=
  w.pc = .forget ∧ w.s.g.gTrustForgetRequested = true ∧ w.s.g.gTrustHostPubCurrent.val = lit "aa" ∧
    w.s.prefs.outcomes = []

instance (w : Worker) : Decidable (atForget w) := inferInstanceAs (Decidable (_ ∧ _ ∧ _ ∧ _))

theorem succeeds_of_nil {p : Prefs} (h : p.outcomes = []) : p.Succeeds := fun o ho => by
  rw [h] at ho
  exact absurd ho List.not_mem_nil

/-- A host that never called itself portable is revoked. -/
theorem forget_revokes_stored : ∃ w, Reach (next sampleCrypto)
      (Worker.init { trustedHostsV2 := some (lit "aa;bb") }) w ∧ w.pc = .forget ∧
    Revoked (lit "aa") (forgetStep w.s) ∧ OthersKept (lit "aa") w.s (forgetStep w.s) := by
  have hrun : (exec (next sampleCrypto) (revoking "desk")
      (Worker.init { trustedHostsV2 := some (lit "aa;bb") })).map (fun w => (decide (atForget w),
        w.s.g.gTrustHostIsPortable, w.s.g.gTrustPortableHostPub.val)) = some (true, false, []) := by
    decide +kernel
  obtain ⟨w, hw, hproj⟩ := Option.map_eq_some_iff.mp hrun
  simp only [Prod.mk.injEq, decide_eq_true_eq] at hproj
  obtain ⟨⟨hpc, hf, hcurrent, houtcomes⟩, hplain, hpin⟩ := hproj
  have hK : w.s.g.gTrustHostPubCurrent.val ≠ [] := by
    rw [hcurrent]
    decide
  have hiff := forget_revokes_iff w.s hf hK (succeeds_of_nil houtcomes)
  rw [hplain, hpin, hcurrent] at hiff
  rw [if_neg (by decide)] at hiff
  exact ⟨w, Run.of_exec hw, hpc, hiff.mpr (by decide)⟩

/-- A stored host that last called itself portable stays trusted. -/
theorem forget_revokes_portable : ¬ ∀ (c : Crypto) (p₀ : Prefs) (w : Worker),
    Reach (next c) (Worker.init p₀) w → w.pc = .forget → w.s.g.gTrustForgetRequested = true →
    w.s.g.gTrustHostPubCurrent.val ≠ [] → w.s.prefs.Succeeds →
    Revoked w.s.g.gTrustHostPubCurrent.val (forgetStep w.s) ∧
      OthersKept w.s.g.gTrustHostPubCurrent.val w.s (forgetStep w.s) := by
  intro hall
  have hrun : (exec (next sampleCrypto) (revoking "portable/x")
      (Worker.init { trustedHostsV2 := some (lit "aa") })).map (fun w => (decide (atForget w),
        (trustCheck false (lit "aa") (forgetStep w.s).g.gTrustPortableHostPub.val
          (forgetStep w.s).prefs).1)) = some (true, true) := by
    decide +kernel
  obtain ⟨w, hw, hproj⟩ := Option.map_eq_some_iff.mp hrun
  simp only [Prod.mk.injEq, decide_eq_true_eq] at hproj
  obtain ⟨⟨hpc, hf, hcurrent, houtcomes⟩, hcheck⟩ := hproj
  obtain ⟨⟨-, hfails⟩, -⟩ := hall sampleCrypto _ w (Run.of_exec hw) hpc hf
    (by rw [hcurrent]; decide) (succeeds_of_nil houtcomes)
  have hplain := hfails (.put 96 [])
  rw [hcurrent] at hplain
  exact absurd (hplain.symm.trans hcheck) (by decide)

end ZorinTrust
