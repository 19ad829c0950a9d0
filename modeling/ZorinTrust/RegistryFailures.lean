import ZorinTrust.Registry

/-!
# The registry when preference calls fail

`trust_host_add` takes a failed read for an absent string, and `trust_host_remove` reports success
whatever its calls did.  `registry_failures_iff` says for which stores, keys and outcomes the two keep
what they promise: an add loses no host, and a removal that returns zero removes.
-/

namespace ZorinTrust

open CText Delimited

variable {p : Prefs} {k : Bytes}

/-! ### Adding -/

/-- `trust_host_add` loses no host. -/
def AddKeeps (k : Bytes) (p : Prefs) : Prop := ∀ h, Trusted p h → Trusted (trustHostAdd k p).2 h

/-- The read succeeds, or nothing is written, or what is written over the registry still has every
host of it. -/
def AddSafe (k : Bytes) (p : Prefs) : Prop :=
  k = [] ∨ p.next = .success ∨ 4096 ≤ k.length + 2 ∨ p.drop.next.applied = false ∨
    ∀ h ∈ hostKeys p, h ∈ entries semi k ∨ prefText .trustedHostPub 512 p = some h

theorem trustPrefGet_text_of_success (key : PrefKey) (cap : ℕ) (h : p.next = .success) :
    (trustPrefGet key cap p).text = (prefText key cap p).getD [] := by
  unfold trustPrefGet PrefRead.text
  rw [h]
  cases prefText key cap p <;> simp

theorem trustPrefGet_text_of_failure (key : PrefKey) (cap : ℕ) (h : p.next ≠ .success) :
    (trustPrefGet key cap p).text = [] := by
  unfold trustPrefGet PrefRead.text
  cases hn : p.next with
  | success => exact absurd hn h
  | noContext => rfl
  | attachFailed => rfl
  | callFailed => rfl
  | exception applied => rfl

/-- What an add writes, if it writes: the text it read, and the key. -/
theorem hostKeys_trustHostAdd (h0 : k ≠ []) (p : Prefs) : hostKeys (trustHostAdd k p).2 =
    if k ∉ entries semi (trustPrefGet .trustedHostsV2 4096 p).text ∧
        (trustPrefGet .trustedHostsV2 4096 p).text.length + k.length + 2 < 4096 ∧
        p.drop.next.applied = true
    then entries semi (trustPrefGet .trustedHostsV2 4096 p).text ++ entries semi k
    else hostKeys p := by
  have hlen := push_length (trustPrefGet .trustedHostsV2 4096 p).text k
  rw [trustHostAdd, if_neg h0]
  dsimp only
  by_cases hc : trustHostListContains (trustPrefGet .trustedHostsV2 4096 p).text k = true
  · rw [if_pos hc, if_neg fun h => h.1 (trustHostListContains_iff.mp hc)]
    rfl
  rw [if_neg hc]
  by_cases hl : (trustPrefGet .trustedHostsV2 4096 p).text.length + k.length + 2 ≥ 4096
  · rw [if_pos hl, if_neg fun h => by omega]
    rfl
  rw [if_neg hl, trustPrefPut_applied]
  by_cases happlied : p.drop.next.applied = true
  · rw [if_pos happlied, if_pos ⟨fun h => hc (trustHostListContains_iff.mpr h), by omega, happlied⟩,
      hostKeys_drop, hostKeys_set _ (by omega), entries_push_append]
  · rw [if_neg happlied, if_neg fun h => happlied h.2.2]
    rfl

theorem trustedHostPub_trustHostAdd (k : Bytes) (p : Prefs) :
    (trustHostAdd k p).2.trustedHostPub = p.trustedHostPub := by
  unfold trustHostAdd
  dsimp only
  split_ifs
  · rfl
  · rfl
  · rfl
  · rw [trustPrefPut_applied]
    split_ifs <;> rfl

/-- An add loses no host exactly when every key of the old string is in the new one, or is the legacy
key. -/
theorem addKeeps_iff_hostKeys : AddKeeps k p ↔
    ∀ h ∈ hostKeys p, h ∈ hostKeys (trustHostAdd k p).2 ∨ prefText .trustedHostPub 512 p = some h := by
  have hlegacy : prefText .trustedHostPub 512 (trustHostAdd k p).2 = prefText .trustedHostPub 512 p :=
    congrArg (Option.map (cut 512)) (trustedHostPub_trustHostAdd k p)
  unfold AddKeeps Trusted
  rw [hlegacy]
  constructor
  · intro hkeeps h hmem
    exact (hkeeps h (Or.inl hmem)).imp_right And.right
  · intro hkeys h htrusted
    rcases htrusted with hmem | hold
    · exact (hkeys h hmem).imp_right fun h1 => ⟨ne_nil_of_mem_entries hmem, h1⟩
    · exact Or.inr hold

/-- **When an add loses no host.** -/
theorem addKeeps_iff : AddKeeps k p ↔ AddSafe k p := by
  rw [addKeeps_iff_hostKeys]
  by_cases h0 : k = []
  · have hsame : (trustHostAdd k p).2 = p := by rw [trustHostAdd, if_pos h0]
    rw [hsame]
    exact ⟨fun _ => Or.inl h0, fun _ h hmem => Or.inl hmem⟩
  rw [hostKeys_trustHostAdd h0, AddSafe, or_iff_right h0]
  by_cases hread : p.next = .success
  · -- the string was read: the key is appended to it
    rw [trustPrefGet_text_of_success _ _ hread]
    refine ⟨fun _ => Or.inl hread, fun _ h hmem => Or.inl ?_⟩
    split_ifs
    · exact List.mem_append_left _ hmem
    · exact hmem
  -- the read failed: the string is taken to be empty
  rw [trustPrefGet_text_of_failure _ _ hread, entries_nil, or_iff_right hread, List.nil_append,
    List.length_nil, Nat.zero_add]
  by_cases hlen : k.length + 2 < 4096
  · rw [or_iff_right (by omega)]
    by_cases happlied : p.drop.next.applied = true
    · rw [if_pos ⟨List.not_mem_nil, hlen, happlied⟩, happlied, or_iff_right Bool.true_eq_false.mp]
    · rw [if_neg fun h => happlied h.2.2]
      exact ⟨fun _ => Or.inl (Bool.not_eq_true _ ▸ happlied), fun _ h hmem => Or.inl hmem⟩
  · rw [if_neg fun h => hlen h.2.1]
    exact ⟨fun _ => Or.inl (by omega), fun _ h hmem => Or.inl hmem⟩

/-! ### Removing -/

/-- `trust_host_remove` returns zero only if the key is gone from both stores. -/
def RemoveClears (k : Bytes) (p : Prefs) : Prop :=
  (trustHostRemove k p).1 = 0 → ¬ Trusted (trustHostRemove k p).2 k

/-- The calls that are left when `trust_host_remove` comes to the legacy key: the read of the registry
string is over, and the write too if there was something to write. -/
def legacyCalls (p : Prefs) : Prefs :=
  if p.next = .success ∧ (prefText .trustedHostsV2 4096 p).getD [] ≠ [] then p.drop.drop else p.drop

/-- In each store that has the key, the read succeeds and the write takes effect. -/
def RemoveSafe (k : Bytes) (p : Prefs) : Prop :=
  k = [] ∨
    ((k ∈ hostKeys p → p.next = .success ∧ p.drop.next.applied = true) ∧
      (prefText .trustedHostPub 512 p = some k →
        (legacyCalls p).next = .success ∧ (legacyCalls p).drop.next.applied = true))

theorem outcomes_removeFromHosts (k : Bytes) (p : Prefs) :
    (removeFromHosts k p).outcomes = (legacyCalls p).outcomes := by
  have hread := read_pos_iff .trustedHostsV2 4096 p fun _ => True
  simp only [and_true] at hread
  have hpos : 0 < (trustPrefGet .trustedHostsV2 4096 p).rc ↔
      p.next = .success ∧ (prefText .trustedHostsV2 4096 p).getD [] ≠ [] := by
    rw [hread]
    refine and_congr_right fun _ => ?_
    cases prefText .trustedHostsV2 4096 p with
    | none => simp
    | some v => simp
  rw [removeFromHosts, legacyCalls]
  simp only [hpos]
  split_ifs
  · rw [trustPrefPut_applied]
    split_ifs <;> rfl
  · rfl

theorem next_congr {q : Prefs} (h : q.outcomes = p.outcomes) :
    q.next = p.next ∧ q.drop.next = p.drop.next := by
  simp only [Prefs.next, Prefs.drop, h, and_self]

/-- **When a removal that returns zero removes.** -/
theorem removeClears_iff : RemoveClears k p ↔ RemoveSafe k p := by
  by_cases h0 : k = []
  · refine ⟨fun _ => Or.inl h0, fun _ hrc => ?_⟩
    rw [trustHostRemove, if_pos h0] at hrc
    exact absurd (show (-1 : ℤ) = 0 from hrc) (by decide)
  obtain ⟨hnext, hdrop⟩ := next_congr (outcomes_removeFromHosts k p)
  have htext : prefText .trustedHostPub 512 (removeFromHosts k p) = prefText .trustedHostPub 512 p :=
    congrArg (Option.map (cut 512)) (trustedHostPub_removeFromHosts k p)
  have hhosts : k ∉ hostKeys (trustHostRemove k p).2 ↔
      (k ∈ hostKeys p → p.next = .success ∧ p.drop.next.applied = true) := by
    rw [trustHostRemove_eq h0, hostKeys_removeFromLegacy, hostKeys_removeFromHosts]
    split_ifs with h
    · exact ⟨fun _ _ => h, fun _ hmem => by simpa using (List.mem_filter.mp hmem).2⟩
    · exact ⟨fun hno hmem => absurd hmem hno, fun himp hmem => h (himp hmem)⟩
  have hcleared : prefText .trustedHostPub 512 (trustHostRemove k p).2 =
      if prefText .trustedHostPub 512 p = some k ∧ (legacyCalls p).next = .success ∧
        (legacyCalls p).drop.next.applied = true then some []
      else prefText .trustedHostPub 512 p := by
    rw [trustHostRemove_eq h0, prefText, Prefs.get, trustedHostPub_removeFromLegacy h0, htext, hnext,
      hdrop]
    split_ifs
    · rfl
    · exact htext
  have hlegacy : prefText .trustedHostPub 512 (trustHostRemove k p).2 ≠ some k ↔
      (prefText .trustedHostPub 512 p = some k →
        (legacyCalls p).next = .success ∧ (legacyCalls p).drop.next.applied = true) := by
    rw [hcleared]
    split_ifs with h
    · exact ⟨fun _ _ => h.2, fun _ hnil => h0 (Option.some.inj hnil).symm⟩
    · exact ⟨fun hno hk => absurd hk hno, fun himp hk => h ⟨hk, himp hk⟩⟩
  have hrc : (trustHostRemove k p).1 = 0 := by rw [trustHostRemove_eq h0]
  rw [RemoveClears, RemoveSafe, or_iff_right h0, ← hhosts, ← hlegacy, Trusted, not_or, and_iff_right h0]
  exact ⟨fun hclears => hclears hrc, fun hgone _ => hgone⟩

/-! ### Both -/

/-- **The registry under preference failures**: for every store, key and outcomes of the calls, an add
loses no host and a removal that returns zero removes exactly when the calls they rest on end well. -/
theorem registry_failures_iff (k : Bytes) (p : Prefs) :
    AddKeeps k p ∧ RemoveClears k p ↔ AddSafe k p ∧ RemoveSafe k p :=
  and_congr addKeeps_iff removeClears_iff

/-- One failed read, and adding `bb` writes the registry over: `aa` is gone. -/
theorem registry_failures_overwritten : ¬ ∀ (k : Bytes) (p : Prefs), AddKeeps k p ∧ RemoveClears k p := by
  intro h
  let p : Prefs := { trustedHostsV2 := some (lit "aa"), outcomes := [.attachFailed] }
  have hadd := (h (lit "bb") p).1 (lit "aa")
  revert hadd
  decide +kernel

/-- The same failure on a removal: `trust_host_remove` returns zero and the host stays. -/
example : (trustHostRemove (lit "aa")
      { trustedHostsV2 := some (lit "aa"), outcomes := [.attachFailed] }).1 = 0 ∧
    Trusted (trustHostRemove (lit "aa")
      { trustedHostsV2 := some (lit "aa"), outcomes := [.attachFailed] }).2 (lit "aa") := by
  decide +kernel

end ZorinTrust
