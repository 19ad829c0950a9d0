import ZorinTrust.Registry

/-!
# The registry as a set

`SetStep` is what a set of keys does under `add`, `remove` and `isTrusted`; an `add` may be refused.
`hosts` is the set the two preferences hold, and `registry_refines_set` says that every call, after
every sequence of calls, is a step of that set, while `WellKept` holds of the stored string.
-/

namespace ZorinTrust

open CText Delimited

/-! ### The abstract set -/

inductive SetCall (κ : Type*)
  | add (k : κ)
  | remove (k : κ)
  | isTrusted (k : κ)

def SetCall.key {κ : Type*} : SetCall κ → κ
  | .add k | .remove k | .isTrusted k => k

/-- One call with its return code, on a set. -/
inductive SetStep {κ : Type*} (S : Set κ) : SetCall κ → ℤ → Set κ → Prop
  | inserted (k : κ) : SetStep S (.add k) 0 (insert k S)
  | refused (k : κ) {rc : ℤ} (h : rc ≠ 0) : SetStep S (.add k) rc S
  | removed (k : κ) : SetStep S (.remove k) 0 (S \ {k})
  | found (k : κ) (h : k ∈ S) : SetStep S (.isTrusted k) 1 S
  | missed (k : κ) (h : k ∉ S) : SetStep S (.isTrusted k) 0 S

/-- The answer of `isTrusted` is membership. -/
theorem SetStep.isTrusted_iff {κ : Type*} {S S' : Set κ} {k : κ} {rc : ℤ}
    (h : SetStep S (.isTrusted k) rc S') : rc = 1 ↔ k ∈ S := by
  cases h with
  | found _ hk => exact ⟨fun _ => hk, fun _ => rfl⟩
  | missed _ hk => exact ⟨fun h => absurd h (by decide), fun h => absurd h hk⟩

/-! ### The calls on the preferences -/

/-- A host key as the callers pass it. -/
structure HostKey where
  val : Bytes
  nonempty : val ≠ []
  semi_free : semi ∉ val
  fits : val.length ≤ 511

@[ext] theorem HostKey.ext {a b : HostKey} (h : a.val = b.val) : a = b := by
  cases a; cases b; cases h; rfl

/-- A call of one of the three functions: its return code and the preferences it leaves. -/
def SetCall.run : SetCall HostKey → Prefs → ℤ × Prefs
  | .add k, p => trustHostAdd k.val p
  | .remove k, p => trustHostRemove k.val p
  | .isTrusted k, p =>
    (if (trustHostIsTrusted k.val p).1 then 1 else 0, (trustHostIsTrusted k.val p).2)

/-- The preferences after a sequence of calls. -/
def after (calls : List (SetCall HostKey)) (p : Prefs) : Prefs :=
  calls.foldl (fun p c => (c.run p).2) p

/-- The stored registry string. -/
def hostText (p : Prefs) : Bytes := p.trustedHostsV2.getD []

/-- The keys of the two preferences. -/
def hosts (p : Prefs) : Set HostKey :=
  { k | k.val ∈ entries semi (hostText p) ∨ p.trustedHostPub = some k.val }

/-- The stored string is the `;`-join of different keys, each one given to some call, and the buffer
holds it. -/
structure WellKept (given : List HostKey) (v : Bytes) : Prop where
  fits : v.length < 4096
  clean : Clean semi v
  nodup : (entries semi v).Nodup
  whole : ∀ x ∈ entries semi v, x ∈ given.map HostKey.val

/-- What a call may do to the two strings. -/
def StoreStep (p : Prefs) (c : SetCall HostKey) (rc : ℤ) (p' : Prefs) : Prop :=
  match c with
  | .add k => p'.trustedHostPub = p.trustedHostPub ∧ (rc ≠ 0 → p'.trustedHostsV2 = p.trustedHostsV2) ∧
      (rc = 0 → entries semi (hostText p') = if k.val ∈ entries semi (hostText p)
        then entries semi (hostText p) else entries semi (hostText p) ++ [k.val])
  | .remove k => entries semi (hostText p') = (entries semi (hostText p)).filter (· ≠ k.val) ∧
      p'.trustedHostPub = if p.trustedHostPub = some k.val then some [] else p.trustedHostPub
  | .isTrusted k => p'.trustedHostPub = p.trustedHostPub ∧
      (p'.trustedHostsV2 = p.trustedHostsV2 ∨ p.trustedHostPub = some k.val ∧
        entries semi (hostText p') = entries semi (hostText p) ++ [k.val])

/-! ### The invariant -/

/-- The preferences of the registry: their calls succeed, and both strings fit the buffers they are
read through. -/
structure Kept (given : List HostKey) (p : Prefs) : Prop where
  succeeds : p.Succeeds
  legacy : ∀ v, p.trustedHostPub = some v → v.length ≤ 511
  kept : WellKept given (hostText p)

section Kept

variable {given : List HostKey} {p : Prefs} (h : Kept given p)
include h

theorem Kept.prefText_hosts : (prefText .trustedHostsV2 4096 p).getD [] = hostText p := by
  have hfit := h.kept.fits
  unfold prefText Prefs.get hostText at *
  dsimp only
  cases hv : p.trustedHostsV2 with
  | none => rfl
  | some v =>
    rw [hv] at hfit
    exact cut_of_lt hfit

theorem Kept.hostKeys_eq : hostKeys p = entries semi (hostText p) := by
  rw [hostKeys, h.prefText_hosts]

theorem Kept.prefText_legacy : prefText .trustedHostPub 512 p = p.trustedHostPub := by
  unfold prefText Prefs.get
  dsimp only
  cases hv : p.trustedHostPub with
  | none => rfl
  | some v => exact congrArg some (cut_of_lt (Nat.lt_succ_of_le (h.legacy v hv)))

/-- What the code reads is what is stored. -/
theorem Kept.trusted_iff (k : HostKey) : Trusted p k.val ↔ k ∈ hosts p := by
  rw [Trusted, h.hostKeys_eq, h.prefText_legacy, and_iff_right k.nonempty]
  rfl

theorem Kept.drop : Kept given p.drop := ⟨h.succeeds.drop, h.legacy, h.kept⟩

theorem Kept.mono {k : HostKey} : Kept (given ++ [k]) p := by
  refine ⟨h.succeeds, h.legacy, h.kept.fits, h.kept.clean, h.kept.nodup, ?_⟩
  intro x hx
  rw [List.map_append]
  exact List.mem_append_left _ (h.kept.whole x hx)

end Kept

/-! ### One call -/

/-- Appending a key inserts it. -/
theorem hosts_push (p : Prefs) (k : HostKey) :
    hosts (p.drop.set .trustedHostsV2 (push semi (hostText p) k.val)).drop = insert k (hosts p) := by
  ext x
  show x.val ∈ entries semi (push semi (hostText p) k.val) ∨ p.trustedHostPub = some x.val ↔
    x = k ∨ (x.val ∈ entries semi (hostText p) ∨ p.trustedHostPub = some x.val)
  rw [entries_push k.semi_free k.nonempty, List.mem_append, List.mem_singleton, HostKey.ext_iff]
  tauto

section Step

variable {given : List HostKey} {p : Prefs} (h : Kept given p) (k : HostKey)
include h

/-- `trust_host_add` finds the key, has no room for it, or appends it. -/
theorem Kept.add_cases :
    (k.val ∈ entries semi (hostText p) ∧ trustHostAdd k.val p = (0, p.drop)) ∨
    (trustHostAdd k.val p = (-2, p.drop)) ∨
    (k.val ∉ entries semi (hostText p) ∧ (hostText p).length + k.val.length + 2 < 4096 ∧
      trustHostAdd k.val p =
        (0, (p.drop.set .trustedHostsV2 (push semi (hostText p) k.val)).drop)) := by
  rw [trustHostAdd_of_succeeds h.succeeds k.nonempty, h.hostKeys_eq, h.prefText_hosts]
  split_ifs with hmem hroom
  · exact Or.inl ⟨hmem, rfl⟩
  · exact Or.inr (Or.inl rfl)
  · exact Or.inr (Or.inr ⟨hmem, by omega, rfl⟩)

/-- Appending a new key keeps the string. -/
theorem Kept.appended (hmem : k.val ∉ entries semi (hostText p))
    (hroom : (hostText p).length + k.val.length + 2 < 4096) :
    Kept (given ++ [k]) (p.drop.set .trustedHostsV2 (push semi (hostText p) k.val)).drop := by
  have hlen := push_length (hostText p) k.val
  have hentries : entries semi (push semi (hostText p) k.val) = entries semi (hostText p) ++ [k.val] :=
    entries_push k.semi_free k.nonempty
  refine ⟨h.succeeds.drop.drop, h.legacy, ?_, clean_push h.kept.clean k.semi_free k.nonempty, ?_, ?_⟩
  · show (push semi (hostText p) k.val).length < 4096
    omega
  · show (entries semi (push semi (hostText p) k.val)).Nodup
    rw [hentries]
    simpa using h.kept.nodup.concat hmem
  · intro x hx
    have hx : x ∈ entries semi (push semi (hostText p) k.val) := hx
    rw [hentries] at hx
    rw [List.map_append]
    rcases List.mem_append.mp hx with hx | hx
    · exact List.mem_append_left _ (h.kept.whole x hx)
    · exact List.mem_append_right _ hx

theorem Kept.add : Kept (given ++ [k]) (trustHostAdd k.val p).2 := by
  rcases h.add_cases k with ⟨-, heq⟩ | heq | ⟨hmem, hroom, heq⟩
  · rw [heq]
    exact h.mono.drop
  · rw [heq]
    exact h.mono.drop
  · rw [heq]
    exact h.appended k hmem hroom

/-- `trust_host_is_trusted` changes nothing, or is an add of the legacy key. -/
theorem Kept.isTrusted_cases :
    (k ∈ hosts p ∧ trustHostIsTrusted k.val p = (true, p.drop)) ∨
    (p.trustedHostPub = some k.val ∧ k.val ∉ entries semi (hostText p) ∧
      trustHostIsTrusted k.val p = (true, (trustHostAdd k.val p.drop.drop).2)) ∨
    (k ∉ hosts p ∧ trustHostIsTrusted k.val p = (false, p.drop.drop)) := by
  rw [trustHostIsTrusted_of_succeeds h.succeeds k.nonempty, h.hostKeys_eq, h.prefText_legacy]
  split_ifs with hmem hlegacy
  · exact Or.inl ⟨Or.inl hmem, rfl⟩
  · exact Or.inr (Or.inl ⟨hlegacy, hmem, rfl⟩)
  · exact Or.inr (Or.inr ⟨fun hk => hk.elim hmem hlegacy, rfl⟩)

theorem Kept.isTrusted : Kept (given ++ [k]) (trustHostIsTrusted k.val p).2 := by
  rcases h.isTrusted_cases k with ⟨-, heq⟩ | ⟨-, -, heq⟩ | ⟨-, heq⟩
  · rw [heq]
    exact h.mono.drop
  · rw [heq]
    exact h.drop.drop.add k
  · rw [heq]
    exact h.mono.drop.drop

/-- The string `trust_host_remove` leaves. -/
theorem Kept.hostText_remove :
    hostText (trustHostRemove k.val p).2 = removedText k.val (hostText p) := by
  rw [hostText, trustedHostsV2_trustHostRemove h.succeeds k.nonempty, h.prefText_hosts]

theorem Kept.entries_remove : entries semi (hostText (trustHostRemove k.val p).2) =
    (entries semi (hostText p)).filter (· ≠ k.val) := by
  rw [h.hostText_remove, entries_removedText h.kept.fits]

theorem Kept.legacy_remove : (trustHostRemove k.val p).2.trustedHostPub =
    if p.trustedHostPub = some k.val then some [] else p.trustedHostPub := by
  rw [trustedHostPub_trustHostRemove h.succeeds k.nonempty, h.prefText_legacy]

theorem Kept.remove : Kept (given ++ [k]) (trustHostRemove k.val p).2 := by
  have hentries := h.entries_remove k
  have htext := h.hostText_remove k
  refine ⟨(drained_trustHostRemove k.val p).succeeds h.succeeds, ?_, ?_, ?_, ?_, ?_⟩
  · intro v hv
    rw [h.legacy_remove] at hv
    split_ifs at hv with hlegacy
    · cases hv
      exact Nat.zero_le _
    · exact h.legacy v hv
  · rw [htext]
    exact length_removedText h.kept.fits
  · rw [htext]
    exact clean_removedText h.kept.fits
  · rw [hentries]
    exact h.kept.nodup.filter _
  · intro x hx
    rw [hentries] at hx
    exact h.mono.kept.whole x (List.mem_filter.mp hx).1

/-! ### The refinement -/

/-- Every call keeps the invariant. -/
theorem Kept.run (c : SetCall HostKey) : Kept (given ++ [c.key]) (c.run p).2 := by
  cases c with
  | add k => exact h.add k
  | remove k => exact h.remove k
  | isTrusted k => exact h.isTrusted k

/-- A `trust_host_add` that returns zero inserts the key. -/
theorem Kept.hosts_add :
    ((trustHostAdd k.val p).1 = 0 ∧ hosts (trustHostAdd k.val p).2 = insert k (hosts p)) ∨
    ((trustHostAdd k.val p).1 = -2 ∧ (trustHostAdd k.val p).2 = p.drop) := by
  rcases h.add_cases k with ⟨hmem, heq⟩ | heq | ⟨hmem, hroom, heq⟩
  · have hin : k ∈ hosts p := Or.inl hmem
    rw [heq]
    exact Or.inl ⟨rfl, (Set.insert_eq_of_mem hin).symm⟩
  · rw [heq]
    exact Or.inr ⟨rfl, rfl⟩
  · rw [heq]
    exact Or.inl ⟨rfl, hosts_push p k⟩

/-- `trust_host_remove` deletes the key. -/
theorem Kept.hosts_remove : hosts (trustHostRemove k.val p).2 = hosts p \ {k} := by
  have hkept := h.remove k
  ext x
  rw [← hkept.trusted_iff, trusted_trustHostRemove_iff h.succeeds k.nonempty, h.trusted_iff,
    Set.mem_sdiff, Set.mem_singleton_iff, HostKey.ext_iff]

/-- `trust_host_is_trusted` leaves the set alone, also when it migrates the legacy key. -/
theorem Kept.hosts_isTrusted : hosts (trustHostIsTrusted k.val p).2 = hosts p := by
  rcases h.isTrusted_cases k with ⟨-, heq⟩ | ⟨hlegacy, -, heq⟩ | ⟨-, heq⟩
  · rw [heq]
    rfl
  · have hin : k ∈ hosts p := Or.inr hlegacy
    rw [heq]
    rcases h.drop.drop.hosts_add k with ⟨-, hadd⟩ | ⟨-, hadd⟩
    · exact hadd.trans (Set.insert_eq_of_mem hin)
    · rw [hadd]
      rfl
  · rw [heq]
    rfl

/-- **One call is a step of the set.** -/
theorem Kept.setStep (c : SetCall HostKey) :
    SetStep (hosts p) c (c.run p).1 (hosts (c.run p).2) := by
  cases c with
  | add k =>
    show SetStep _ _ (trustHostAdd k.val p).1 (hosts (trustHostAdd k.val p).2)
    rcases h.hosts_add k with ⟨hrc, hhosts⟩ | ⟨hrc, hprefs⟩
    · rw [hrc, hhosts]
      exact .inserted k
    · rw [hrc, hprefs]
      exact .refused k (by decide)
  | remove k =>
    have hrc : (trustHostRemove k.val p).1 = 0 := by rw [trustHostRemove_eq k.nonempty]
    show SetStep _ _ (trustHostRemove k.val p).1 (hosts (trustHostRemove k.val p).2)
    rw [hrc, h.hosts_remove]
    exact .removed k
  | isTrusted k =>
    have hanswer := trustHostIsTrusted_iff h.succeeds k.nonempty
    rw [h.trusted_iff] at hanswer
    show SetStep _ _ (if (trustHostIsTrusted k.val p).1 = true then 1 else 0)
      (hosts (trustHostIsTrusted k.val p).2)
    rw [h.hosts_isTrusted]
    split_ifs with htrue
    · exact .found k (hanswer.mp htrue)
    · exact .missed k fun hk => htrue (hanswer.mpr hk)

/-- **What one call does to the two strings.** -/
theorem Kept.storeStep (c : SetCall HostKey) : StoreStep p c (c.run p).1 (c.run p).2 := by
  cases c with
  | add k =>
    show StoreStep p _ (trustHostAdd k.val p).1 (trustHostAdd k.val p).2
    rcases h.add_cases k with ⟨hmem, heq⟩ | heq | ⟨hmem, hroom, heq⟩
    · rw [heq]
      exact ⟨rfl, fun _ => rfl, fun _ => (if_pos hmem).symm⟩
    · rw [heq]
      exact ⟨rfl, fun _ => rfl, fun hrc => absurd (show (-2 : ℤ) = 0 from hrc) (by decide)⟩
    · rw [heq]
      refine ⟨rfl, fun hrc => absurd rfl hrc, fun _ => ?_⟩
      rw [if_neg hmem]
      exact entries_push k.semi_free k.nonempty
  | remove k => exact ⟨h.entries_remove k, h.legacy_remove k⟩
  | isTrusted k =>
    show StoreStep p _ _ (trustHostIsTrusted k.val p).2
    rcases h.isTrusted_cases k with ⟨-, heq⟩ | ⟨hlegacy, hmem, heq⟩ | ⟨-, heq⟩
    · rw [heq]
      exact ⟨rfl, Or.inl rfl⟩
    · rw [heq]
      rcases h.drop.drop.add_cases k with ⟨hin, -⟩ | hadd | ⟨-, -, hadd⟩
      · exact absurd hin hmem
      · rw [hadd]
        exact ⟨rfl, Or.inl rfl⟩
      · rw [hadd]
        exact ⟨rfl, Or.inr ⟨hlegacy, entries_push k.semi_free k.nonempty⟩⟩
    · rw [heq]
      exact ⟨rfl, Or.inl rfl⟩

end Step

/-- A sequence of calls keeps the invariant. -/
theorem Kept.after : ∀ (calls : List (SetCall HostKey)) {given : List HostKey} {p : Prefs},
    Kept given p → Kept (given ++ calls.map SetCall.key) (after calls p)
  | [], given, p, h => by
    rw [List.map_nil, List.append_nil]
    exact h
  | c :: calls, given, p, h => by
    have hrun := Kept.after calls (h.run c)
    rw [List.append_assoc] at hrun
    exact hrun

/-- A registry string that is empty is kept, whatever the legacy key. -/
theorem kept_of_empty {p : Prefs} (hp : p.Succeeds) (hempty : hostText p = [])
    (hlegacy : ∀ v, p.trustedHostPub = some v → v.length ≤ 511) : Kept [] p := by
  refine ⟨hp, hlegacy, ?_, ?_, ?_, ?_⟩
  · rw [hempty]
    decide
  · rw [hempty]
    exact clean_nil
  · rw [hempty, entries_nil]
    exact List.nodup_nil
  · rw [hempty, entries_nil]
    intro x hx
    cases hx

/-- **The registry refines a set**: from an empty registry string and any legacy key that fits, after
every sequence of calls the stored string is well kept, and every further call is a step of the set
the two preferences hold. -/
theorem registry_refines_set (p : Prefs) (hp : p.Succeeds) (hempty : hostText p = [])
    (hlegacy : ∀ v, p.trustedHostPub = some v → v.length ≤ 511) (calls : List (SetCall HostKey)) :
    WellKept (calls.map SetCall.key) (hostText (after calls p)) ∧
      ∀ c : SetCall HostKey,
        SetStep (hosts (after calls p)) c (c.run (after calls p)).1 (hosts (c.run (after calls p)).2) ∧
        StoreStep (after calls p) c (c.run (after calls p)).1 (c.run (after calls p)).2 := by
  have hkept := Kept.after calls (kept_of_empty hp hempty hlegacy)
  exact ⟨hkept.kept, fun c => ⟨hkept.setStep c, hkept.storeStep c⟩⟩

/-- With the legacy key `aa`, migrated, and `bb` added, a removal of `aa` leaves `bb`. -/
theorem registry_refines_set_migrated : ∃ aa bb : HostKey, aa.val = lit "aa" ∧ bb.val = lit "bb" ∧
    let p := after [.isTrusted aa, .add bb, .remove aa] { trustedHostPub := some (lit "aa") }
    WellKept [aa, bb, aa] (hostText p) ∧ hostText p = lit "bb" ∧ aa ∉ hosts p ∧ bb ∈ hosts p := by
  let aa : HostKey := ⟨lit "aa", by decide, by decide, by decide⟩
  let bb : HostKey := ⟨lit "bb", by decide, by decide, by decide⟩
  let calls : List (SetCall HostKey) := [.isTrusted aa, .add bb, .remove aa]
  let p : Prefs := { trustedHostPub := some (lit "aa") }
  have hp : p.Succeeds := by
    intro o ho
    cases ho
  have hlegacy : ∀ v, p.trustedHostPub = some v → v.length ≤ 511 := by
    intro v hv
    cases hv
    decide
  obtain ⟨hkept, hcalls⟩ := registry_refines_set p hp rfl hlegacy calls
  have haa : ((SetCall.isTrusted aa).run (after calls p)).1 = 0 := by decide +kernel
  have hbb : ((SetCall.isTrusted bb).run (after calls p)).1 = 1 := by decide +kernel
  refine ⟨aa, bb, rfl, rfl, hkept, by decide +kernel, ?_, ?_⟩
  · intro hin
    have hrc := (hcalls (.isTrusted aa)).1.isTrusted_iff.mpr hin
    rw [haa] at hrc
    exact absurd hrc (by decide)
  · exact (hcalls (.isTrusted bb)).1.isTrusted_iff.mp hbb

end ZorinTrust
