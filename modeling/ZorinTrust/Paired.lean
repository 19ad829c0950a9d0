import ZorinTrust.EndpointSelection
import ZorinTrust.Revocation

/-!
# The flag PAIRED

`trust_ui_publish_state` takes PAIRED from the legacy preference, the trust check looks into the registry
first.  An approval writes the registry only, so the two agree as long as the legacy preference holds a
key whenever the registry does.  `paired_agrees` carries that through the runs that keep it.
-/

namespace ZorinTrust

open CText Machine Delimited

/-! ### The two stores -/

/-- The registry holds no key that the legacy preference does not vouch for. -/
def Vouched (p : Prefs) : Prop := holdsLegacy p = true ∨ hostKeys p = []

/-- The step leaves no key to the registry alone: an approval of a persistent host finds a legacy key,
and a FORGET that takes the legacy key finds no other host. -/
def KeepsVouched (w : Worker) : Label → Prop
  | .approve => ApprovalDue w.s.g → w.s.g.gTrustPendingIsPortable = false → holdsLegacy w.s.prefs = true
  | .forget => w.s.g.gTrustForgetRequested = true → w.s.g.gTrustHostIsPortable = false →
      w.s.g.gTrustHostPubCurrent.val ≠ [] →
      prefText .trustedHostPub 512 w.s.prefs = some w.s.g.gTrustHostPubCurrent.val →
      ∀ k ∈ hostKeys w.s.prefs, k = w.s.g.gTrustHostPubCurrent.val
  | _ => True

variable {c : Crypto} {s t u : Service}

theorem vouched_congr {p q : Prefs} (h : ∀ k, q.get k = p.get k) : Vouched q ↔ Vouched p := by
  unfold Vouched hostKeys prefText
  rw [holdsLegacy_congr h, h]

/-- No host has the empty key. -/
theorem trustHostIsTrusted_nil {p : Prefs} (hp : p.Succeeds) : (trustHostIsTrusted [] p).1 = false := by
  have hlist : ¬ (0 < (trustPrefGet .trustedHostsV2 4096 p).rc ∧
      trustHostListContains (trustPrefGet .trustedHostsV2 4096 p).out [] = true) := by
    simp [trustHostListContains]
  have hlegacy : ¬ (0 < (trustPrefGet .trustedHostPub 512 p.drop).rc ∧
      miniStreq (trustPrefGet .trustedHostPub 512 p.drop).out [] = true) := by
    rw [read_iff hp.drop .trustedHostPub 512 fun v => miniStreq v [] = true]
    rintro ⟨v, -, hne, heq⟩
    exact hne (miniStreq_iff.mp heq)
  unfold trustHostIsTrusted
  dsimp only
  rw [if_neg hlist, if_neg hlegacy]

/-- **What the two reads say**: they agree exactly when the registry is vouched for. -/
theorem paired_iff_vouched {p : Prefs} (hp : p.Succeeds) :
    (holdsLegacy p = true ↔ ∃ k, (trustHostIsTrusted k p).1 = true) ↔ Vouched p := by
  have hlegacy : holdsLegacy p = true → ∃ k, (trustHostIsTrusted k p).1 = true := fun h => by
    obtain ⟨v, hv, hne⟩ := holdsLegacy_iff.mp h
    exact ⟨v, (trustHostIsTrusted_iff hp hne).mpr (Or.inr ⟨hne, hv⟩)⟩
  constructor
  · intro hiff
    by_cases h : holdsLegacy p = true
    · exact Or.inl h
    · refine Or.inr (List.eq_nil_iff_forall_not_mem.mpr fun k hk => h (hiff.mpr ⟨k, ?_⟩))
      exact (trustHostIsTrusted_iff hp (ne_nil_of_mem_entries hk)).mpr (Or.inl hk)
  · rintro (h | hnone)
    · exact ⟨hlegacy, fun _ => h⟩
    · refine ⟨hlegacy, ?_⟩
      rintro ⟨k, hk⟩
      by_cases h0 : k = []
      · rw [h0] at hk
        exact absurd (hk.symm.trans (trustHostIsTrusted_nil hp)) (by decide)
      · rcases (trustHostIsTrusted_iff hp h0).mp hk with hmem | ⟨-, hv⟩
        · rw [hnone] at hmem
          cases hmem
        · exact holdsLegacy_iff.mpr ⟨k, hv, h0⟩

/-! ### The operations -/

theorem holdsLegacy_trustHostAdd (k : Bytes) (p : Prefs) :
    holdsLegacy (trustHostAdd k p).2 = holdsLegacy p := by
  have hput (v : Bytes) (q : Prefs) : holdsLegacy (trustPrefPut .trustedHostsV2 v q).2 = holdsLegacy q := by
    rcases trustPrefPut_snd .trustedHostsV2 v q with h | h
    · rw [h]
      exact holdsLegacy_congr fun k => Prefs.get_drop q k
    · rw [h]
      rfl
  unfold trustHostAdd
  dsimp only
  split_ifs
  · rfl
  · exact holdsLegacy_congr fun k => Prefs.get_drop p k
  · exact holdsLegacy_congr fun k => Prefs.get_drop p k
  · rw [hput]
    exact holdsLegacy_congr fun k => Prefs.get_drop p k

/-- An approval that finds room keeps the registry vouched for exactly when there is a legacy key. -/
theorem vouched_trustHostAdd_iff {k : Bytes} {p : Prefs} (hp : p.Succeeds) (h0 : k ≠ []) (hs : semi ∉ k)
    (hroom : HasRoom p k) : Vouched (trustHostAdd k p).2 ↔ holdsLegacy p = true := by
  unfold Vouched
  rw [holdsLegacy_trustHostAdd]
  constructor
  · rintro (h | hnone)
    · exact h
    · rcases trusted_trustHostAdd hp h0 hs hroom with hmem | ⟨-, hv⟩
      · rw [hnone] at hmem
        cases hmem
      · rw [← holdsLegacy_trustHostAdd k p]
        exact holdsLegacy_iff.mpr ⟨k, hv, h0⟩
  · exact Or.inl

/-- The trust check only copies a legacy key. -/
theorem vouched_trustHostIsTrusted {k : Bytes} {p : Prefs} (hp : p.Succeeds) (h0 : k ≠ [])
    (h : Vouched p) : Vouched (trustHostIsTrusted k p).2 := by
  have hdrop (q : Prefs) : Vouched q.drop ↔ Vouched q := vouched_congr fun k => Prefs.get_drop q k
  rw [trustHostIsTrusted_of_succeeds hp h0]
  split_ifs with hmem hlegacy
  · exact (hdrop p).mpr h
  · refine Or.inl ?_
    dsimp only
    rw [holdsLegacy_trustHostAdd]
    exact holdsLegacy_iff.mpr ⟨k, hlegacy, h0⟩
  · exact (hdrop _).mpr ((hdrop p).mpr h)

/-- A removal keeps the registry vouched for unless it takes the legacy key from under another. -/
theorem vouched_trustHostRemove_iff {k : Bytes} {p : Prefs} (hp : p.Succeeds) (h0 : k ≠ [])
    (h : Vouched p) : Vouched (trustHostRemove k p).2 ↔
      (prefText .trustedHostPub 512 p = some k → ∀ k' ∈ hostKeys p, k' = k) := by
  have hlegacy : prefText .trustedHostPub 512 (trustHostRemove k p).2 =
      if prefText .trustedHostPub 512 p = some k then some [] else prefText .trustedHostPub 512 p := by
    rw [prefText, Prefs.get, trustedHostPub_trustHostRemove hp h0]
    split_ifs <;> rfl
  have hnone : hostKeys (trustHostRemove k p).2 = [] ↔ ∀ k' ∈ hostKeys p, k' = k := by
    rw [hostKeys_trustHostRemove hp h0, List.filter_eq_nil_iff]
    simp
  unfold Vouched
  rw [hnone]
  by_cases htaken : prefText .trustedHostPub 512 p = some k
  · have hgone : holdsLegacy (trustHostRemove k p).2 = false := by
      rw [holdsLegacy, hlegacy, if_pos htaken]
      rfl
    simp [hgone, htaken]
  · rw [holdsLegacy, hlegacy, if_neg htaken]
    refine ⟨fun _ hv => absurd hv htaken, fun _ => ?_⟩
    rcases h with h | hempty
    · exact Or.inl h
    · exact Or.inr fun k' hk' => by
        rw [hempty] at hk'
        cases hk'

/-! ### The steps -/

/-- A published PAIRED is this one. -/
def PairedIs (b : Bool) : Event → Prop
  | .published _ paired => paired = b
  | _ => True

/-- The stores are as before, and what is published says what they hold. -/
structure Steady (s t : Service) : Prop where
  prefs : ∀ k, t.prefs.get k = s.prefs.get k
  paired : s.prefs.Succeeds → t.prefs.Succeeds ∧ Emits (PairedIs (holdsLegacy s.prefs)) s t

namespace Steady

theorem trans (h : Steady s t) (h' : Steady t u) : Steady s u := by
  refine ⟨fun k => (h'.prefs k).trans (h.prefs k), fun hp => ?_⟩
  obtain ⟨hpt, hevents⟩ := h.paired hp
  obtain ⟨hpu, hevents'⟩ := h'.paired hpt
  rw [holdsLegacy_congr h.prefs] at hevents'
  exact ⟨hpu, hevents.trans hevents'⟩

theorem set (hp : t.prefs = s.prefs) (hlog : t.log = s.log) : Steady s t :=
  ⟨fun k => by rw [hp], fun hsucc => ⟨by rwa [hp], .of_log_eq hlog⟩⟩

theorem emit (ev : Event) (s : Service) (h : ∀ b, PairedIs b ev) : Steady s (s.emit ev) :=
  ⟨fun _ => rfl, fun hp => ⟨hp, .single ev rfl (h _)⟩⟩

theorem publish (hp : t.prefs = s.prefs) (hlog : t.log = s.log) : Steady s (trustUiPublishState t) := by
  refine ⟨fun k => by rw [trustUiPublishState_get, hp], fun hsucc => ?_⟩
  rw [← hp] at hsucc ⊢
  refine ⟨hsucc.drop, .single (.published t.g _) ?_ (paired_eq hsucc)⟩
  rw [← hlog]
  rfl

end Steady

theorem Routine.steady (h : Routine s t) : Steady s t := by
  refine ⟨h.prefs, fun hp => ⟨h.drained.succeeds hp, ?_⟩⟩
  obtain ⟨new, hlog, hnew⟩ := h.events
  refine ⟨new, hlog, fun ev hev => ?_⟩
  have hroutine := hnew ev hev
  cases ev with
  | published g paired => exact hroutine.2 hp
  | consumed _ _ => trivial
  | directCleared => trivial
  | connecting _ _ => trivial
  | signed _ => trivial
  | sent _ => trivial

theorem steady_workerStart (c : Crypto) (e : StartEnv) (s : Service) : Steady s (workerStart c e s) :=
  .publish rfl rfl

/-- Connecting publishes nothing. -/
theorem openLink_unpublished (e : HelloEnv) (s : Service) :
    ∃ new, (openLink e s).2.log = new ++ s.log ∧ ∀ g paired, .published g paired ∉ new := by
  obtain ⟨new, hlog, hnew⟩ := (openLink_linked e s).1
  exact ⟨new, hlog, fun g paired hmem => hnew _ hmem⟩

theorem steady_answerStep (link : Link) (h : Hello) (e : AnswerEnv) (s : Service) :
    Steady s (answerStep c link h e s).s := by
  have hR : Composes Steady := ⟨fun s => .set rfl rfl, .trans⟩
  rw [answerStep_service]
  refine hR.answer c link h e ?_ fun _ _ frame s => (routine_judgeAnswer c h _ _ frame s).steady
  refine hR.phoneProof c link h e s ?_ ?_ ?_ ?_
  · exact fun _ _ => .publish rfl rfl
  · exact fun _ => .set rfl rfl
  · exact fun msg s => .emit (.signed msg) s fun _ => trivial
  · exact fun _ _ _ _ _ s _ => .emit _ s fun _ => trivial

/-- What is no publication says nothing of PAIRED. -/
theorem emits_unpublished {b : Bool}
    (hlog : ∃ new, t.log = new ++ s.log ∧ ∀ g paired, .published g paired ∉ new) :
    Emits (PairedIs b) s t := by
  obtain ⟨new, hlog, hnew⟩ := hlog
  refine ⟨new, hlog, fun ev hev => ?_⟩
  cases ev with
  | published g paired => exact absurd hev (hnew g paired)
  | consumed _ _ => trivial
  | directCleared => trivial
  | connecting _ _ => trivial
  | signed _ => trivial
  | sent _ => trivial

/-- What a step that changes the stores publishes, once they are changed. -/
theorem emits_publish {t' : Service}
    (hlog : ∃ new, t.log = new ++ s.log ∧ ∀ g paired, .published g paired ∉ new)
    (hp : t.prefs.Succeeds) (ht : t' = trustUiPublishState t) :
    Emits (PairedIs (holdsLegacy t'.prefs)) s t' := by
  subst ht
  have hkept : holdsLegacy (trustUiPublishState t).prefs = holdsLegacy t.prefs :=
    holdsLegacy_congr fun k => trustUiPublishState_get t k
  rw [hkept]
  exact (emits_unpublished hlog).trans (.single _ rfl (paired_eq hp))

theorem emits_forgetStep (hp : s.prefs.Succeeds) :
    Emits (PairedIs (holdsLegacy (forgetStep s).prefs)) s (forgetStep s) := by
  by_cases hf : s.g.gTrustForgetRequested = true
  · obtain ⟨hlog, -, hstores⟩ := forgetHost_spec s
    have hhost : (forgetHost s).prefs.Succeeds := by
      rcases hstores with ⟨-, hprefs, -⟩ | ⟨-, -, hprefs⟩
      · rwa [hprefs]
      · rw [hprefs]
        split_ifs
        · exact (drained_trustHostRemove _ _).succeeds hp
        · exact hp
    unfold forgetStep
    rw [if_pos hf]
    refine emits_publish ?_ ?_ rfl
    · exact hlog
    · exact hhost
  · rw [forgetStep_of_not_requested (by simpa using hf)]
    exact .refl s

theorem emits_approveStep (hp : s.prefs.Succeeds) :
    Emits (PairedIs (holdsLegacy (approveStep s).prefs)) s (approveStep s) := by
  by_cases hdue : ApprovalDue s.g
  · obtain ⟨hlog, -, hstores⟩ := approveHost_spec s
    have hhost : (approveHost s).prefs.Succeeds := by
      rcases hstores with ⟨-, hprefs, -⟩ | ⟨-, hprefs, -⟩
      · rwa [hprefs]
      · rw [hprefs]
        exact (drained_trustHostAdd _ _).succeeds hp
    have hkept : ∃ new, (approveHost s).log = new ++ s.log ∧ ∀ g paired, .published g paired ∉ new :=
      ⟨[], hlog, fun _ _ h => by cases h⟩
    have hstep : approveStep s = trustSetStatus 0 "WORKSTATION APPROVED - AUTHENTICATING" _ := if_pos hdue
    refine emits_publish ?_ ?_ hstep
    · exact hkept
    · exact hhost
  · rw [approveStep_of_not_due hdue]
    exact .refl s

theorem emits_helloStep (e : HelloEnv) : Emits (PairedIs (holdsLegacy (helloStep c e s).s.prefs)) s
    (helloStep c e s).s := by
  have hlog := openLink_unpublished e s
  unfold helloStep sessionOpen
  generalize openLink e s = q at hlog ⊢
  obtain ⟨opened, s₁⟩ := q
  cases opened with
  | none => exact emits_unpublished hlog
  | some link =>
    dsimp only
    cases (trustRecvFrame 4096 e.chunks).bind (parseHello c e.digestOk) with
    | none => exact emits_unpublished hlog
    | some h => exact emits_unpublished hlog

theorem emits_checkStep (link : Link) (h : Hello) (hp : s.prefs.Succeeds) :
    Emits (PairedIs (holdsLegacy (checkStep link h s).s.prefs)) s (checkStep link h s).s := by
  have hchecked := (drained_trustCheck s.g.gTrustHostIsPortable h.hostpub.val
    s.g.gTrustPortableHostPub.val s.prefs).succeeds hp
  have hlog (prefs : Prefs) : ∃ new, ({ s with prefs } : Service).log = new ++ s.log ∧
      ∀ g paired, .published g paired ∉ new := ⟨[], rfl, fun _ _ h => by cases h⟩
  unfold checkStep sessionCheck
  generalize trustCheck _ _ _ _ = q at hchecked ⊢
  obtain ⟨same, prefs⟩ := q
  cases same with
  | true =>
    refine emits_publish (t := { s with g := _, prefs }) ?_ ?_ rfl
    · exact hlog prefs
    · exact hchecked
  | false =>
    refine emits_publish (t := { s with g := _, prefs }) ?_ ?_ rfl
    · exact hlog prefs
    · exact hchecked

/-! ### The runs -/

theorem vouched_approveStep (h : Vouched s.prefs) {pc : Pc} (hok : KeepsVouched ⟨pc, s⟩ .approve) :
    Vouched (approveStep s).prefs := by
  by_cases hdue : ApprovalDue s.g
  · rw [vouched_congr (approveStep_due hdue).1]
    rcases (approveHost_spec s).2.2 with ⟨-, hprefs, -⟩ | ⟨hplain, hprefs, -⟩
    · rwa [hprefs]
    · rw [hprefs]
      refine Or.inl ?_
      rw [holdsLegacy_trustHostAdd]
      exact hok hdue hplain
  · rwa [approveStep_of_not_due hdue]

theorem vouched_forgetStep_iff (hp : s.prefs.Succeeds) (h : Vouched s.prefs) {pc : Pc} :
    Vouched (forgetStep s).prefs ↔ KeepsVouched ⟨pc, s⟩ .forget := by
  unfold KeepsVouched
  by_cases hf : s.g.gTrustForgetRequested = true
  · rw [vouched_congr (forgetStep_requested hf).1]
    rcases (forgetHost_spec s).2.2 with ⟨hportable, hprefs, -⟩ | ⟨hplain, -, hprefs⟩
    · rw [hprefs]
      exact iff_of_true h fun _ hplain => absurd (hportable.symm.trans hplain) (by decide)
    · by_cases hK : s.g.gTrustHostPubCurrent.val ≠ []
      · rw [hprefs, if_pos hK, vouched_trustHostRemove_iff hp hK h]
        exact ⟨fun hkept _ _ _ => hkept, fun hok => hok hf hplain hK⟩
      · rw [hprefs, if_neg hK]
        exact iff_of_true h fun _ _ hne => absurd hne hK
  · rw [forgetStep_of_not_requested (by simpa using hf)]
    exact iff_of_true h fun hf' => absurd hf' hf

theorem vouched_helloStep (e : HelloEnv) (h : Vouched s.prefs) : Vouched (helloStep c e s).s.prefs := by
  have hcase := sessionOpen_cases c e s
  unfold helloStep
  generalize sessionOpen c e s = q at hcase ⊢
  cases hcase with
  | failed hq => exact (vouched_congr hq.prefs).mpr h
  | met hq _ => exact (vouched_congr hq.prefs).mpr h

theorem vouched_trustCheck {h : Hello} (hh : HelloOk c h) (portable : Bool) (pin : Bytes) {p : Prefs}
    (hp : p.Succeeds) (hv : Vouched p) : Vouched (trustCheck portable h.hostpub.val pin p).2 := by
  unfold trustCheck
  split_ifs
  · exact hv
  · exact vouched_trustHostIsTrusted hp hh.hostpub_ne hv

theorem vouched_checkStep {link : Link} {h : Hello} (hh : HelloOk c h) (hp : s.prefs.Succeeds)
    (hv : Vouched s.prefs) : Vouched (checkStep link h s).s.prefs := by
  have hchecked := vouched_trustCheck hh s.g.gTrustHostIsPortable s.g.gTrustPortableHostPub.val hp hv
  unfold checkStep sessionCheck
  generalize trustCheck _ _ _ _ = q at hchecked ⊢
  obtain ⟨same, prefs⟩ := q
  cases same with
  | true => exact (vouched_congr fun k => trustUiPublishState_get _ k).mpr hchecked
  | false => exact (vouched_congr fun k => trustUiPublishState_get _ k).mpr hchecked

/-- A step that changes no store. -/
theorem Steady.own (h : Steady s t) (hp : s.prefs.Succeeds) :
    Emits (PairedIs (holdsLegacy t.prefs)) s t := by
  rw [holdsLegacy_congr h.prefs]
  exact (h.paired hp).2

/-- **One step keeps the registry vouched for**, when it is one of those. -/
theorem vouched_of_next {p₀ : Prefs} {l : Label} {w w' : Worker} (ht : TrustInv c p₀ w)
    (hp : w.s.prefs.Succeeds) (h : Vouched w.s.prefs) (hok : KeepsVouched w l) (hnext : next c l w = some w') : Vouched w'.s.prefs := by
  cases routineCase_of_next hnext with
  | routine hr => exact (vouched_congr hr.prefs).mpr h
  | start e s => exact (vouched_congr (steady_workerStart c e s).prefs).mpr h
  | forget s => exact (vouched_forgetStep_iff hp h).mpr hok
  | approve s => exact vouched_approveStep h hok
  | hello e s => exact vouched_helloStep e h
  | check link hello s => exact vouched_checkStep ht.pc.2.1 hp h
  | answer e link hello s => exact (vouched_congr (steady_answerStep link hello e s).prefs).mpr h

/-- What a step publishes says what the legacy preference holds after it. -/
theorem emits_of_next {l : Label} {w w' : Worker} (hp : w.s.prefs.Succeeds)
    (hnext : next c l w = some w') : Emits (PairedIs (holdsLegacy w'.s.prefs)) w.s w'.s := by
  cases routineCase_of_next hnext with
  | routine hr => exact hr.steady.own hp
  | start e s => exact (steady_workerStart c e s).own hp
  | forget s => exact emits_forgetStep hp
  | approve s => exact emits_approveStep hp
  | hello e s => exact emits_helloStep e
  | check link h s => exact emits_checkStep link h hp
  | answer e link h s => exact (steady_answerStep link h e s).own hp

/-- **The condition is exact**: from vouched stores with room for the pending host, only the steps that
keep it lead to vouched stores. -/
theorem vouched_next_iff {p₀ : Prefs} {l : Label} {w w' : Worker} (ht : TrustInv c p₀ w)
    (hp : w.s.prefs.Succeeds) (hroom : HasRoom w.s.prefs w.s.g.gTrustHostPubPending.val)
    (h : Vouched w.s.prefs) (hnext : next c l w = some w') :
    Vouched w'.s.prefs ↔ KeepsVouched w l := by
  refine ⟨fun hvouched => ?_, fun hok => vouched_of_next ht hp h hok hnext⟩
  cases step_of_next hnext with
  | forget s => exact (vouched_forgetStep_iff hp h).mp hvouched
  | approve s =>
    intro hdue hplain
    have hprefs : (approveHost s).prefs = (trustHostAdd s.g.gTrustHostPubPending.val s.prefs).2 := by
      rcases (approveHost_spec s).2.2 with ⟨hportable, -⟩ | ⟨-, hprefs, -⟩
      · exact absurd (hportable.symm.trans hplain) (by decide)
      · exact hprefs
    rw [vouched_congr (approveStep_due hdue).1, hprefs] at hvouched
    exact (vouched_trustHostAdd_iff hp hdue.2.2 ht.store.pendingSep hroom).mp hvouched
  | lifecycle alive pc s => trivial
  | start e s => trivial
  | stop s => trivial
  | consume file s => trivial
  | hello e s => trivial
  | check link h s => trivial
  | answer e link h s => trivial
  | round e s _ _ => trivial
  | turn p e r left s => trivial
  | giveUp r left s => trivial
  | pong chunks s => trivial
  | leave s => trivial
  | idle file left s => trivial
  | idleEnd left s => trivial

/-- **PAIRED agrees with the trust check** in every run that keeps the registry vouched for: in the
state reached, and in every frame the next step publishes. -/
theorem paired_agrees (c : Crypto) (p₀ : Prefs) (hp : p₀.Succeeds) (h₀ : Vouched p₀) (w : Worker)
    (h : Run (next c) KeepsVouched (Worker.init p₀) w) :
    (0 < (trustPrefGet .trustedHostPub 512 w.s.prefs).rc ↔
      ∃ k, (trustHostIsTrusted k w.s.prefs).1 = true) ∧
    ∀ l w', KeepsVouched w l → next c l w = some w' → ∀ g paired, .published g paired ∈ since w.s w'.s →
      (paired = true ↔ ∃ k, (trustHostIsTrusted k w'.s.prefs).1 = true) := by
  have hinit : (Worker.init p₀).s.prefs.Succeeds ∧ Vouched (Worker.init p₀).s.prefs := ⟨hp, h₀⟩
  obtain ⟨hsucc, hvouched⟩ := h.invariant_of_reach
    (I := fun w => w.s.prefs.Succeeds ∧ Vouched w.s.prefs) hinit
    fun t l u hreach ht hok hnext =>
      ⟨succeeds_of_next hnext ht.1, vouched_of_next (trustInv_of_reach hreach) ht.1 ht.2 hok hnext⟩
  refine ⟨?_, fun l w' hok hnext g paired hg => ?_⟩
  · rw [← decide_eq_true_iff (p := 0 < _), paired_eq hsucc]
    exact (paired_iff_vouched hsucc).mpr hvouched
  · obtain ⟨new, hlog, hnew⟩ := emits_of_next hsucc hnext
    rw [since_eq hlog] at hg
    have hpaired : paired = holdsLegacy w'.s.prefs := hnew _ hg
    rw [hpaired]
    exact (paired_iff_vouched (succeeds_of_next hnext hsucc)).mpr
      (vouched_of_next (trustInv_of_reach h.reach) hsucc hvouched hok hnext)

/-! ### Samples -/

instance (w : Worker) (l : Label) : Decidable (KeepsVouched w l) :=
  match l with
  | .approve => inferInstanceAs (Decidable (_ → _ → _))
  | .forget => inferInstanceAs (Decidable (_ → _ → _ → _ → ∀ k ∈ hostKeys w.s.prefs, _))
  | .lifecycle _ | .start _ | .stop | .consume _ | .hello _ | .check | .answer _ | .round _ | .turn _ _
  | .giveUp | .pong _ | .leave | .idle _ | .idleEnd => isTrue trivial

/-- A host is approved beside the legacy one. -/
theorem paired_agrees_legacy : ∃ w,
    Run (next sampleCrypto) KeepsVouched (Worker.init { trustedHostPub := some (lit "bb") }) w ∧
    hostKeys w.s.prefs = [lit "aa"] ∧ 0 < (trustPrefGet .trustedHostPub 512 w.s.prefs).rc ∧
    ∃ k, (trustHostIsTrusted k w.s.prefs).1 = true := by
  have hrun : (execOk (next sampleCrypto) KeepsVouched (approving "aa" "desk")
      (Worker.init { trustedHostPub := some (lit "bb") })).map (fun w => (hostKeys w.s.prefs,
        decide (0 < (trustPrefGet .trustedHostPub 512 w.s.prefs).rc))) = some ([lit "aa"], true) := by
    decide +kernel
  obtain ⟨w, hw, hproj⟩ := Option.map_eq_some_iff.mp hrun
  simp only [Prod.mk.injEq, decide_eq_true_eq] at hproj
  obtain ⟨hkeys, hpaired⟩ := hproj
  have hagrees := paired_agrees sampleCrypto { trustedHostPub := some (lit "bb") }
    (fun _ ho => absurd ho List.not_mem_nil) (Or.inl (by decide)) w (Run.of_execOk hw)
  exact ⟨w, Run.of_execOk hw, hkeys, hpaired, hagrees.1.mp hpaired⟩

/-- A fresh phone that has approved one host publishes that it is not paired. -/
theorem paired_agrees_fresh : ¬ ∀ (c : Crypto) (p₀ : Prefs) (w : Worker), p₀.Succeeds →
    Reach (next c) (Worker.init p₀) w →
    (0 < (trustPrefGet .trustedHostPub 512 w.s.prefs).rc ↔
      ∃ k, (trustHostIsTrusted k w.s.prefs).1 = true) := by
  intro hall
  have hrun : (exec (next sampleCrypto) (approving "aa" "desk") (Worker.init {})).map (fun w =>
      (decide (0 < (trustPrefGet .trustedHostPub 512 w.s.prefs).rc),
        (trustHostIsTrusted (lit "aa") w.s.prefs).1)) = some (false, true) := by
    decide +kernel
  obtain ⟨w, hw, hproj⟩ := Option.map_eq_some_iff.mp hrun
  simp only [Prod.mk.injEq, decide_eq_false_iff_not] at hproj
  obtain ⟨hpaired, htrusted⟩ := hproj
  exact hpaired ((hall sampleCrypto {} w (fun _ ho => absurd ho List.not_mem_nil) (Run.of_exec hw)).mpr
    ⟨_, htrusted⟩)

end ZorinTrust
