import ZorinTrust.Service
import ZorinTrust.Lib.Delimited

/-!
# The persistent host registry

`trusted_hosts_v2` keeps the trusted host keys joined by `;`; `trusted_host_pub` is the single key of
older versions, which `trust_host_is_trusted` migrates.  `Trusted` is the abstract membership the
code's reads decide, and `Stored` also covers what a preference holds beyond the buffers the code
reads it through.  What an operation does is stated for every outcome of its preference calls first, and
then for calls that succeed.
-/

namespace ZorinTrust

open CText Delimited

/-- The separator of `trusted_hosts_v2`. -/
abbrev semi : UInt8 := 59

/-! ### The operations -/

/-- `trust_host_list_contains`. -/
def trustHostListContains (list item : Bytes) : Bool :=
  if item = [] then false else (scan semi list).any (miniStreq · item)

/-- `trust_host_add`. -/
def trustHostAdd (hostpub : Bytes) (p : Prefs) : ℤ × Prefs :=
  if hostpub = [] then (-1, p)
  else
    let list := (trustPrefGet .trustedHostsV2 4096 p).text
    if trustHostListContains list hostpub then (0, p.drop)
    else if list.length + hostpub.length + 2 ≥ 4096 then (-2, p.drop)
    else trustPrefPut .trustedHostsV2 (push semi list hostpub) p.drop

/-- `trust_host_is_trusted`; a legacy match migrates the key. -/
def trustHostIsTrusted (hostpub : Bytes) (p : Prefs) : Bool × Prefs :=
  let list := trustPrefGet .trustedHostsV2 4096 p
  if 0 < list.rc ∧ trustHostListContains list.out hostpub then (true, p.drop)
  else
    let legacy := trustPrefGet .trustedHostPub 512 p.drop
    if 0 < legacy.rc ∧ miniStreq legacy.out hostpub then
      (true, (trustHostAdd hostpub p.drop.drop).2)
    else (false, p.drop.drop)

/-- One turn of the copy loop of `trust_host_remove`.  The text never outgrows the buffer
(`entries_removedText`), so the turn that finds no room and leaves the separator behind is dead. -/
def removeStep (hostpub out seg : Bytes) : Bytes :=
  if seg ≠ hostpub ∧ seg ≠ [] then
    let out := if out = [] then out else out ++ [semi]
    if out.length + seg.length < 4096 then out ++ seg else out
  else out

/-- The string `trust_host_remove` writes back. -/
def removedText (hostpub list : Bytes) : Bytes := (scan semi list).foldl (removeStep hostpub) []

/-- `trust_host_remove`. -/
def trustHostRemove (hostpub : Bytes) (p : Prefs) : ℤ × Prefs :=
  if hostpub = [] then (-1, p)
  else
    let list := trustPrefGet .trustedHostsV2 4096 p
    let p := if 0 < list.rc then
        (trustPrefPut .trustedHostsV2 (removedText hostpub list.out) p.drop).2
      else p.drop
    let legacy := trustPrefGet .trustedHostPub 512 p
    (0, if 0 < legacy.rc ∧ miniStreq legacy.out hostpub then
        (trustPrefPut .trustedHostPub [] p.drop).2
      else p.drop)

/-! ### What the preferences hold -/

/-- The keys of the registry string, as the code reads it. -/
def hostKeys (p : Prefs) : List Bytes := entries semi ((prefText .trustedHostsV2 4096 p).getD [])

/-- `k` is a key the reads of the code accept. -/
def Trusted (p : Prefs) (k : Bytes) : Prop :=
  k ∈ hostKeys p ∨ (k ≠ [] ∧ prefText .trustedHostPub 512 p = some k)

/-- `k` is a key of `trusted_hosts_v2` or the legacy key, in full or as the code reads them. -/
def Stored (p : Prefs) (k : Bytes) : Prop :=
  (∃ v, p.trustedHostsV2 = some v ∧ (k ∈ entries semi v ∨ k ∈ entries semi (cut 4096 v))) ∨
    (k ≠ [] ∧ ∃ v, p.trustedHostPub = some v ∧ (k = v ∨ k = cut 512 v))

instance (p : Prefs) (k : Bytes) : Decidable (Trusted p k) :=
  inferInstanceAs (Decidable (_ ∨ _ ∧ _))

theorem Trusted.stored {p : Prefs} {k : Bytes} (h : Trusted p k) : Stored p k := by
  rcases h with h | ⟨h0, h⟩
  · simp only [hostKeys, prefText, Prefs.get] at h
    cases hv : p.trustedHostsV2 with
    | none => simp [hv] at h
    | some v => exact Or.inl ⟨v, hv, Or.inr (by simpa [hv] using h)⟩
  · simp only [prefText, Prefs.get, Option.map_eq_some_iff] at h
    obtain ⟨v, hv, rfl⟩ := h
    exact Or.inr ⟨h0, v, hv, Or.inr rfl⟩

@[simp] theorem stored_drop (p : Prefs) (k : Bytes) : Stored p.drop k ↔ Stored p k := Iff.rfl

@[simp] theorem hostKeys_drop (p : Prefs) : hostKeys p.drop = hostKeys p := rfl

@[simp] theorem prefText_drop (p : Prefs) (k : PrefKey) (cap : ℕ) :
    prefText k cap p.drop = prefText k cap p := by cases k <;> rfl

theorem trusted_congr {p q : Prefs} {k : Bytes} (h : ∀ key, q.get key = p.get key) :
    Trusted q k ↔ Trusted p k := by
  simp only [Trusted, hostKeys, prefText, h]

theorem stored_congr {p q : Prefs} {k : Bytes} (h : ∀ key, q.get key = p.get key) :
    Stored q k ↔ Stored p k := by
  have h1 : q.trustedHostsV2 = p.trustedHostsV2 := h .trustedHostsV2
  have h2 : q.trustedHostPub = p.trustedHostPub := h .trustedHostPub
  rw [Stored, Stored, h1, h2]

@[simp] theorem stored_trustSetStatus (state : Int32) (status : String) (s : Service) (k : Bytes) :
    Stored (trustSetStatus state status s).prefs k ↔ Stored s.prefs k :=
  stored_congr fun key => trustSetStatus_get state status s key

theorem trustHostListContains_iff {list item : Bytes} :
    trustHostListContains list item = true ↔ item ∈ entries semi list := by
  unfold trustHostListContains
  by_cases hi : item = []
  · subst hi
    simpa using fun h => ne_nil_of_mem_entries h rfl
  · rw [if_neg hi, ← mem_scan hi]
    simp

/-! ### Writes to the registry string -/

theorem push_length (out x : Bytes) : (push semi out x).length ≤ out.length + x.length + 1 := by
  unfold push
  split
  · simp
  · simp; omega

/-- A write of a string that fits the read buffer leaves the keys of that string. -/
theorem stored_set_hosts {p : Prefs} {v k : Bytes} (hv : v.length < 4096)
    (h : Stored (p.set .trustedHostsV2 v) k) : k ∈ entries semi v ∨ Stored p k := by
  rcases h with ⟨v', hv', hk⟩ | h
  · cases hv'
    rw [cut_of_lt hv, or_self] at hk
    exact Or.inl hk
  · exact Or.inr (Or.inr h)

theorem stored_set_legacy_nil {p : Prefs} {k : Bytes} (h : Stored (p.set .trustedHostPub []) k) :
    Stored p k := by
  rcases h with h | ⟨h0, v, hv, hk⟩
  · exact Or.inl h
  · cases hv
    simp only [cut, List.take_nil, or_self] at hk
    exact absurd hk h0

theorem mem_hostKeys_of_read {p : Prefs} {k : Bytes}
    (h : k ∈ entries semi (trustPrefGet .trustedHostsV2 4096 p).text) : k ∈ hostKeys p := by
  rcases trustPrefGet_text .trustedHostsV2 4096 p with ht | ht
  · rw [ht] at h; simp at h
  · rw [hostKeys, ht]; exact h

/-- **`trust_host_add` stores nothing but the key**, whatever the preference calls do. -/
theorem stored_trustHostAdd {hostpub k : Bytes} {p : Prefs} (hs : semi ∉ hostpub)
    (h : Stored (trustHostAdd hostpub p).2 k) : k = hostpub ∨ Stored p k := by
  unfold trustHostAdd at h
  by_cases h0 : hostpub = []
  · rw [if_pos h0] at h; exact Or.inr h
  rw [if_neg h0] at h
  dsimp only at h
  split_ifs at h with hc hl
  · exact Or.inr h
  · exact Or.inr h
  rcases trustPrefPut_snd .trustedHostsV2
    (push semi (trustPrefGet .trustedHostsV2 4096 p).text hostpub) p.drop with hp | hp
  · rw [hp] at h; exact Or.inr h
  · rw [hp, stored_drop] at h
    have hlen := push_length (trustPrefGet .trustedHostsV2 4096 p).text hostpub
    rcases stored_set_hosts (by omega) h with hk | hk
    · rw [entries_push hs h0] at hk
      rcases List.mem_append.mp hk with hk | hk
      · exact Or.inr (Trusted.stored (Or.inl (mem_hostKeys_of_read hk)))
      · exact Or.inl (List.mem_singleton.mp hk)
    · exact Or.inr hk

/-! ### Removal -/

/-- The copy loop rebuilds the string from the keys it keeps, as long as they fit the buffer. -/
theorem foldl_removeStep (hostpub : Bytes) : ∀ (xs : List Bytes) (out : Bytes),
    weight out + room xs ≤ 4096 →
    xs.foldl (removeStep hostpub) out =
        (xs.filter fun x => x ≠ hostpub ∧ x ≠ []).foldl (push semi) out
  | [], out, _ => rfl
  | x :: xs, out, h => by
    simp only [room, List.map_cons, List.sum_cons] at h
    rw [List.foldl_cons]
    by_cases hx : x ≠ hostpub ∧ x ≠ []
    · have hroom : (if out = [] then out else out ++ [semi]).length + x.length < 4096 := by
        unfold weight at h
        by_cases ho : out = []
        · rw [if_pos ho] at h ⊢; rw [ho, List.length_nil]; omega
        · rw [if_neg ho] at h ⊢; rw [List.length_append, List.length_singleton]; omega
      have hstep : removeStep hostpub out x = push semi out x := by
        simp only [removeStep, if_pos hx, if_pos hroom, push]
      have hw := weight_push_le semi out x
      rw [hstep, List.filter_cons_of_pos (by simpa using hx), List.foldl_cons]
      exact foldl_removeStep hostpub xs _ (by simp only [room]; omega)
    · have hstep : removeStep hostpub out x = out := by simp only [removeStep, if_neg hx]
      rw [hstep, List.filter_cons_of_neg (by simpa using hx)]
      exact foldl_removeStep hostpub xs out (by simp only [room]; omega)

theorem removedText_eq {hostpub list : Bytes} (h : list.length < 4096) :
    removedText hostpub list =
      ((scan semi list).filter fun x => x ≠ hostpub ∧ x ≠ []).foldl (push semi) [] := by
  have hroom := room_scan semi list
  exact foldl_removeStep hostpub _ _ (by simp only [weight, if_pos]; omega)

/-- The copy loop keeps keys only. -/
theorem keep_ok (hostpub list : Bytes) :
    ∀ x ∈ (scan semi list).filter fun x => x ≠ hostpub ∧ x ≠ [], semi ∉ x ∧ x ≠ [] := by
  intro x hx
  obtain ⟨hm, hx⟩ := List.mem_filter.mp hx
  simp only [ne_eq, decide_eq_true_eq] at hx
  exact ⟨sep_notMem_of_mem_entries ((mem_scan hx.2).mp hm), hx.2⟩

/-- The copy loop keeps every key but the one removed, in order. -/
theorem entries_removedText {hostpub list : Bytes} (h : list.length < 4096) :
    entries semi (removedText hostpub list) = (entries semi list).filter (· ≠ hostpub) := by
  rw [removedText_eq h, entries_foldl_push _ _ (keep_ok hostpub list), entries_nil, List.nil_append,
    ← filter_scan, List.filter_filter]
  refine List.filter_congr fun x _ => ?_
  simp

theorem clean_removedText {hostpub list : Bytes} (h : list.length < 4096) :
    Clean semi (removedText hostpub list) := by
  rw [removedText_eq h]
  exact clean_foldl_push _ _ clean_nil (keep_ok hostpub list)

theorem length_removedText {hostpub list : Bytes} (h : list.length < 4096) :
    (removedText hostpub list).length < 4096 := by
  rw [removedText_eq h]
  refine length_lt_of_weight_le ?_ (by norm_num)
  have h1 := weight_foldl_push_le semi
    ((scan semi list).filter fun x => x ≠ hostpub ∧ x ≠ []) []
  have h2 := room_filter_le (fun x => x ≠ hostpub ∧ x ≠ []) (scan semi list)
  have h3 := room_scan semi list
  have h4 : weight [] = 0 := rfl
  omega

theorem prefText_length {k : PrefKey} {cap : ℕ} {p : Prefs} {v : Bytes} (hc : 0 < cap)
    (h : prefText k cap p = some v) : v.length < cap := by
  obtain ⟨w, -, rfl⟩ := Option.map_eq_some_iff.mp h
  exact length_cut_lt hc w

/-- **`trust_host_is_trusted` stores nothing new**: it migrates the legacy key at most. -/
theorem stored_trustHostIsTrusted {hostpub k : Bytes} {p : Prefs} (hs : semi ∉ hostpub)
    (h : Stored (trustHostIsTrusted hostpub p).2 k) : Stored p k := by
  unfold trustHostIsTrusted at h
  dsimp only at h
  split_ifs at h with h1 h2
  · exact h
  · rcases stored_trustHostAdd hs h with rfl | hk
    · have hread := trustPrefGet_of_pos h2.1
      rw [miniStreq_iff.mp h2.2] at hread
      by_cases h0 : k = []
      · subst h0
        exact h
      · exact Trusted.stored (Or.inr ⟨h0, by simpa using hread⟩)
    · exact hk
  · exact h

/-- A positive answer is about a key the reads accept, whatever the preference calls do. -/
theorem trusted_of_trustHostIsTrusted {hostpub : Bytes} {p : Prefs} (h0 : hostpub ≠ [])
    (h : (trustHostIsTrusted hostpub p).1 = true) : Trusted p hostpub := by
  unfold trustHostIsTrusted at h
  dsimp only at h
  split_ifs at h with h1 h2
  · refine Or.inl ?_
    rw [hostKeys, trustPrefGet_of_pos h1.1]
    exact trustHostListContains_iff.mp h1.2
  · have hread := trustPrefGet_of_pos h2.1
    rw [miniStreq_iff.mp h2.2] at hread
    exact Or.inr ⟨h0, by simpa using hread⟩

/-! ### The outcomes of the calls -/

/-- The calls after which a write has taken effect. -/
def PrefOutcome.applied : PrefOutcome → Bool
  | .success | .exception true => true
  | _ => false

theorem trustPrefPut_applied (k : PrefKey) (v : Bytes) (p : Prefs) :
    (trustPrefPut k v p).2 = if p.next.applied then (p.set k v).drop else p.drop := by
  unfold trustPrefPut
  cases p.next with
  | exception applied => cases applied <;> rfl
  | success => rfl
  | noContext => rfl
  | attachFailed => rfl
  | callFailed => rfl

/-- A read is positive exactly when it succeeds and finds a non-empty text. -/
theorem read_pos_iff (k : PrefKey) (cap : ℕ) (p : Prefs) (q : Bytes → Prop) :
    (0 < (trustPrefGet k cap p).rc ∧ q (trustPrefGet k cap p).out) ↔
      p.next = .success ∧ ∃ v, prefText k cap p = some v ∧ v ≠ [] ∧ q v := by
  unfold trustPrefGet
  cases hn : p.next with
  | success =>
    cases prefText k cap p with
    | none => simp
    | some v => simp [List.length_pos_iff]
  | noContext => simp
  | attachFailed => simp
  | callFailed => simp
  | exception applied => simp

theorem prefText_of_mem_hostKeys {p : Prefs} {k : Bytes} (h : k ∈ hostKeys p) :
    ∃ v, prefText .trustedHostsV2 4096 p = some v ∧ v ≠ [] := by
  unfold hostKeys at h
  cases hv : prefText .trustedHostsV2 4096 p with
  | none => rw [hv] at h; simp at h
  | some v =>
    refine ⟨v, rfl, ?_⟩
    rintro rfl
    rw [hv] at h
    simp at h

/-- What a write of the registry string does to the keys read back. -/
theorem hostKeys_set {v : Bytes} (q : Prefs) (hv : v.length < 4096) :
    hostKeys (q.set .trustedHostsV2 v) = entries semi v := by
  simp [hostKeys, prefText, Prefs.get, Prefs.set, cut_of_lt hv]

/-! ### The two halves of a removal -/

/-- `trust_host_remove` up to the write of the registry string. -/
def removeFromHosts (hostpub : Bytes) (p : Prefs) : Prefs :=
  let list := trustPrefGet .trustedHostsV2 4096 p
  if 0 < list.rc then (trustPrefPut .trustedHostsV2 (removedText hostpub list.out) p.drop).2
  else p.drop

/-- The rest of `trust_host_remove`: the legacy key is cleared. -/
def removeFromLegacy (hostpub : Bytes) (p : Prefs) : Prefs :=
  let legacy := trustPrefGet .trustedHostPub 512 p
  if 0 < legacy.rc ∧ miniStreq legacy.out hostpub then (trustPrefPut .trustedHostPub [] p.drop).2
  else p.drop

theorem trustHostRemove_eq {hostpub : Bytes} (h0 : hostpub ≠ []) (p : Prefs) :
    trustHostRemove hostpub p = (0, removeFromLegacy hostpub (removeFromHosts hostpub p)) := by
  rw [trustHostRemove, if_neg h0]
  rfl

theorem trustedHostPub_removeFromHosts (hostpub : Bytes) (p : Prefs) :
    (removeFromHosts hostpub p).trustedHostPub = p.trustedHostPub := by
  unfold removeFromHosts
  dsimp only
  split_ifs
  · rw [trustPrefPut_applied]
    split_ifs <;> rfl
  · rfl

/-- The first half takes the key out of the registry string when the read succeeds and the write takes
effect, and else leaves the string alone. -/
theorem hostKeys_removeFromHosts (hostpub : Bytes) (p : Prefs) : hostKeys (removeFromHosts hostpub p) =
    if p.next = .success ∧ p.drop.next.applied = true then (hostKeys p).filter (· ≠ hostpub)
    else hostKeys p := by
  have hread := read_pos_iff .trustedHostsV2 4096 p fun _ => True
  simp only [and_true] at hread
  unfold removeFromHosts
  dsimp only
  by_cases hpos : 0 < (trustPrefGet .trustedHostsV2 4096 p).rc
  · have htext := trustPrefGet_of_pos hpos
    have hlen := prefText_length (by norm_num) htext
    rw [if_pos hpos, trustPrefPut_applied]
    by_cases happlied : p.drop.next.applied = true
    · rw [if_pos happlied, if_pos ⟨(hread.mp hpos).1, happlied⟩, hostKeys_drop,
        hostKeys_set _ (length_removedText hlen), entries_removedText hlen, hostKeys, htext]
      rfl
    · rw [if_neg happlied, if_neg fun h => happlied h.2]
      rfl
  · rw [if_neg hpos, hostKeys_drop]
    split_ifs with h
    · -- a successful read that is not positive found no key
      have hnil : hostKeys p = [] := by
        refine List.eq_nil_iff_forall_not_mem.mpr fun k hk => ?_
        exact hpos (hread.mpr ⟨h.1, prefText_of_mem_hostKeys hk⟩)
      rw [hnil]
      rfl
    · rfl

theorem trustedHostsV2_removeFromLegacy (hostpub : Bytes) (p : Prefs) :
    (removeFromLegacy hostpub p).trustedHostsV2 = p.trustedHostsV2 := by
  unfold removeFromLegacy
  dsimp only
  split_ifs
  · rw [trustPrefPut_applied]
    split_ifs <;> rfl
  · rfl

theorem hostKeys_removeFromLegacy (hostpub : Bytes) (p : Prefs) :
    hostKeys (removeFromLegacy hostpub p) = hostKeys p := by
  rw [hostKeys, prefText, Prefs.get, trustedHostsV2_removeFromLegacy]
  rfl

/-- The second half clears the legacy key when it is the one removed, the read succeeds and the write
takes effect. -/
theorem trustedHostPub_removeFromLegacy {hostpub : Bytes} (h0 : hostpub ≠ []) (p : Prefs) :
    (removeFromLegacy hostpub p).trustedHostPub =
      if prefText .trustedHostPub 512 p = some hostpub ∧ p.next = .success ∧ p.drop.next.applied = true
      then some [] else p.trustedHostPub := by
  have hread : (0 < (trustPrefGet .trustedHostPub 512 p).rc ∧
      miniStreq (trustPrefGet .trustedHostPub 512 p).out hostpub = true) ↔
      p.next = .success ∧ prefText .trustedHostPub 512 p = some hostpub := by
    rw [read_pos_iff .trustedHostPub 512 p fun v => miniStreq v hostpub = true]
    refine and_congr_right fun _ => ?_
    constructor
    · rintro ⟨v, hv, -, heq⟩
      rw [hv, miniStreq_iff.mp heq]
    · intro hv
      exact ⟨hostpub, hv, h0, miniStreq_iff.mpr rfl⟩
  unfold removeFromLegacy
  dsimp only
  by_cases h : 0 < (trustPrefGet .trustedHostPub 512 p).rc ∧
      miniStreq (trustPrefGet .trustedHostPub 512 p).out hostpub = true
  · rw [if_pos h, trustPrefPut_applied]
    obtain ⟨hnext, htext⟩ := hread.mp h
    by_cases happlied : p.drop.next.applied = true
    · rw [if_pos happlied, if_pos ⟨htext, hnext, happlied⟩]
      rfl
    · rw [if_neg happlied, if_neg fun h => happlied h.2.2]
      rfl
  · rw [if_neg h, if_neg fun h' => h (hread.mpr ⟨h'.2.1, h'.1⟩)]
    rfl

/-- The first half stores nothing new. -/
theorem stored_removeFromHosts {hostpub k : Bytes} {p : Prefs}
    (h : Stored (removeFromHosts hostpub p) k) : Stored p k := by
  unfold removeFromHosts at h
  dsimp only at h
  split_ifs at h with hpos
  · have hread := trustPrefGet_of_pos hpos
    have hlen := prefText_length (by norm_num) hread
    rw [trustPrefPut_applied] at h
    split_ifs at h
    · rw [stored_drop] at h
      rcases stored_set_hosts (length_removedText hlen) h with hk | hk
      · rw [entries_removedText hlen] at hk
        refine Trusted.stored (Or.inl ?_)
        rw [hostKeys, hread]
        exact (List.mem_filter.mp hk).1
      · exact hk
    · exact h
  · exact h

/-- The second half clears the legacy key at most. -/
theorem stored_removeFromLegacy {hostpub k : Bytes} {p : Prefs}
    (h : Stored (removeFromLegacy hostpub p) k) : Stored p k := by
  unfold removeFromLegacy at h
  dsimp only at h
  split_ifs at h
  · rw [trustPrefPut_applied] at h
    split_ifs at h
    · rw [stored_drop] at h
      exact stored_set_legacy_nil h
    · exact h
  · exact h

/-- **`trust_host_remove` stores nothing new**, whatever the preference calls do. -/
theorem stored_trustHostRemove {hostpub k : Bytes} {p : Prefs}
    (h : Stored (trustHostRemove hostpub p).2 k) : Stored p k := by
  by_cases h0 : hostpub = []
  · rw [trustHostRemove, if_pos h0] at h
    exact h
  · rw [trustHostRemove_eq h0] at h
    exact stored_removeFromHosts (stored_removeFromLegacy h)

/-! ### The calls that are left -/

theorem drained_trustHostAdd (k : Bytes) (p : Prefs) : Drained p (trustHostAdd k p).2 := by
  unfold trustHostAdd
  dsimp only
  split_ifs
  · exact .refl p
  · exact drained_drop p
  · exact drained_drop p
  · exact (drained_drop p).trans (drained_put _ _ _)

theorem drained_trustHostIsTrusted (k : Bytes) (p : Prefs) : Drained p (trustHostIsTrusted k p).2 := by
  unfold trustHostIsTrusted
  dsimp only
  split_ifs
  · exact drained_drop p
  · exact ((drained_drop p).trans (drained_drop _)).trans (drained_trustHostAdd _ _)
  · exact (drained_drop p).trans (drained_drop _)

theorem drained_removeFromHosts (k : Bytes) (p : Prefs) : Drained p (removeFromHosts k p) := by
  unfold removeFromHosts
  dsimp only
  split_ifs
  · exact (drained_drop p).trans (drained_put _ _ _)
  · exact drained_drop p

theorem drained_removeFromLegacy (k : Bytes) (p : Prefs) : Drained p (removeFromLegacy k p) := by
  unfold removeFromLegacy
  dsimp only
  split_ifs
  · exact (drained_drop p).trans (drained_put _ _ _)
  · exact drained_drop p

theorem drained_trustHostRemove (k : Bytes) (p : Prefs) : Drained p (trustHostRemove k p).2 := by
  by_cases h0 : k = []
  · rw [trustHostRemove, if_pos h0]
    exact .refl p
  · rw [trustHostRemove_eq h0]
    exact (drained_removeFromHosts k p).trans (drained_removeFromLegacy k _)

/-! ### Preference calls that succeed -/

section Succeeds

variable {p : Prefs} (hp : p.Succeeds)
include hp

theorem trustPrefGet_of_succeeds (k : PrefKey) (cap : ℕ) :
    (trustPrefGet k cap p) =
      match prefText k cap p with
      | some v => ⟨v.length, v⟩
      | none => ⟨-3, []⟩ := by
  cases h : prefText k cap p <;> simp only [trustPrefGet, hp.next, h]

/-- A succeeding read is positive exactly when it finds a non-empty text. -/
theorem read_iff (k : PrefKey) (cap : ℕ) (q : Bytes → Prop) :
    (0 < (trustPrefGet k cap p).rc ∧ q (trustPrefGet k cap p).out) ↔
      ∃ v, prefText k cap p = some v ∧ v ≠ [] ∧ q v := by
  rw [read_pos_iff]
  exact and_iff_right hp.next

theorem next_applied_of_succeeds : p.next.applied = true := by
  rw [hp.next]
  rfl

/-- The registry string a removal leaves. -/
theorem trustedHostsV2_trustHostRemove {hostpub : Bytes} (h0 : hostpub ≠ []) :
    (trustHostRemove hostpub p).2.trustedHostsV2.getD [] =
      removedText hostpub ((prefText .trustedHostsV2 4096 p).getD []) := by
  rw [trustHostRemove_eq h0, trustedHostsV2_removeFromLegacy, removeFromHosts,
    trustPrefGet_of_succeeds hp]
  cases hv : prefText .trustedHostsV2 4096 p with
  | none =>
    have hnone : p.trustedHostsV2 = none := Option.map_eq_none_iff.mp hv
    show p.trustedHostsV2.getD [] = _
    rw [hnone]
    rfl
  | some v =>
    rw [trustPrefPut_of_succeeds hp.drop]
    dsimp only
    split_ifs with hpos
    · rfl
    · -- an empty text comes from an empty string
      obtain ⟨w, hw, rfl⟩ := Option.map_eq_some_iff.mp hv
      have hstored : p.trustedHostsV2 = some w := hw
      obtain rfl : w = [] := by simpa [cut] using hpos
      show p.trustedHostsV2.getD [] = _
      rw [hstored]
      rfl

/-- The keys a removal leaves in the registry string. -/
theorem hostKeys_trustHostRemove {hostpub : Bytes} (h0 : hostpub ≠ []) :
    hostKeys (trustHostRemove hostpub p).2 = (hostKeys p).filter (· ≠ hostpub) := by
  rw [trustHostRemove_eq h0, hostKeys_removeFromLegacy, hostKeys_removeFromHosts,
    if_pos ⟨hp.next, next_applied_of_succeeds hp.drop⟩]

/-- What a removal leaves of the legacy key. -/
theorem trustedHostPub_trustHostRemove {hostpub : Bytes} (h0 : hostpub ≠ []) :
    (trustHostRemove hostpub p).2.trustedHostPub =
      if prefText .trustedHostPub 512 p = some hostpub then some [] else p.trustedHostPub := by
  have hq := (drained_removeFromHosts hostpub p).succeeds hp
  have htext : prefText .trustedHostPub 512 (removeFromHosts hostpub p) =
      prefText .trustedHostPub 512 p :=
    congrArg (Option.map (cut 512)) (trustedHostPub_removeFromHosts hostpub p)
  rw [trustHostRemove_eq h0, trustedHostPub_removeFromLegacy h0, htext, trustedHostPub_removeFromHosts]
  simp only [hq.next, next_applied_of_succeeds hq.drop, and_true]

/-- A succeeding `trust_host_add`: the key is there, or has no room, or is appended. -/
theorem trustHostAdd_of_succeeds {k : Bytes} (h0 : k ≠ []) : trustHostAdd k p =
    if k ∈ hostKeys p then (0, p.drop)
    else if ((prefText .trustedHostsV2 4096 p).getD []).length + k.length + 2 ≥ 4096 then (-2, p.drop)
    else (0, (p.drop.set .trustedHostsV2
      (push semi ((prefText .trustedHostsV2 4096 p).getD []) k)).drop) := by
  have htext : (trustPrefGet .trustedHostsV2 4096 p).text = (prefText .trustedHostsV2 4096 p).getD [] := by
    rw [trustPrefGet_of_succeeds hp, PrefRead.text]
    cases prefText .trustedHostsV2 4096 p with
    | none => rfl
    | some v => exact if_neg (by simp)
  have hmem : trustHostListContains ((prefText .trustedHostsV2 4096 p).getD []) k = true ↔
      k ∈ hostKeys p := trustHostListContains_iff
  simp only [trustHostAdd, if_neg h0, htext, hmem, trustPrefPut_of_succeeds hp.drop]

/-- A succeeding `trust_host_is_trusted`: the key is in the registry string, or is the legacy key and
is migrated, or is neither. -/
theorem trustHostIsTrusted_of_succeeds {k : Bytes} (h0 : k ≠ []) : trustHostIsTrusted k p =
    if k ∈ hostKeys p then (true, p.drop)
    else if prefText .trustedHostPub 512 p = some k then (true, (trustHostAdd k p.drop.drop).2)
    else (false, p.drop.drop) := by
  have hhosts : (0 < (trustPrefGet .trustedHostsV2 4096 p).rc ∧
      trustHostListContains (trustPrefGet .trustedHostsV2 4096 p).out k = true) ↔ k ∈ hostKeys p := by
    rw [read_iff hp .trustedHostsV2 4096 fun v => trustHostListContains v k = true]
    simp only [trustHostListContains_iff]
    constructor
    · rintro ⟨v, hv, -, hk⟩
      rw [hostKeys, hv]
      exact hk
    · intro hk
      obtain ⟨v, hv, hne⟩ := prefText_of_mem_hostKeys hk
      rw [hostKeys, hv] at hk
      exact ⟨v, hv, hne, hk⟩
  have hlegacy : (0 < (trustPrefGet .trustedHostPub 512 p.drop).rc ∧
      miniStreq (trustPrefGet .trustedHostPub 512 p.drop).out k = true) ↔
        prefText .trustedHostPub 512 p = some k := by
    rw [read_iff hp.drop .trustedHostPub 512 fun v => miniStreq v k = true, prefText_drop]
    simp only [miniStreq_iff]
    constructor
    · rintro ⟨v, hv, -, rfl⟩
      exact hv
    · intro h
      exact ⟨k, h, h0, rfl⟩
  rw [trustHostIsTrusted]
  simp only [hhosts, hlegacy]

/-- **The registry keeps what it is given**, as long as its string has room. -/
theorem trusted_trustHostAdd {k : Bytes} (h0 : k ≠ []) (hs : semi ∉ k)
    (hroom : ((prefText .trustedHostsV2 4096 p).getD []).length + k.length + 2 < 4096) :
    Trusted (trustHostAdd k p).2 k := by
  rw [trustHostAdd_of_succeeds hp h0]
  split_ifs with hc
  · exact Or.inl hc
  · omega
  · have hlen := push_length ((prefText .trustedHostsV2 4096 p).getD []) k
    refine Or.inl ?_
    rw [hostKeys_drop, hostKeys_set _ (by omega), entries_push hs h0]
    exact List.mem_append_right _ List.mem_cons_self

/-- **The registry decides trust**: with succeeding preference calls `trust_host_is_trusted` answers
membership. -/
theorem trustHostIsTrusted_iff {k : Bytes} (h0 : k ≠ []) :
    (trustHostIsTrusted k p).1 = true ↔ Trusted p k := by
  rw [trustHostIsTrusted_of_succeeds hp h0, Trusted]
  by_cases h1 : k ∈ hostKeys p
  · rw [if_pos h1]
    exact ⟨fun _ => Or.inl h1, fun _ => rfl⟩
  by_cases h2 : prefText .trustedHostPub 512 p = some k
  · rw [if_neg h1, if_pos h2]
    exact ⟨fun _ => Or.inr ⟨h0, h2⟩, fun _ => rfl⟩
  · rw [if_neg h1, if_neg h2]
    exact ⟨fun h => absurd h Bool.false_ne_true, fun h => (h.elim h1 fun h => h2 h.2).elim⟩

/-- **The registry forgets exactly one key**: with succeeding preference calls `trust_host_remove`
leaves every other key as trusted as it was. -/
theorem trusted_trustHostRemove_iff {hostpub k : Bytes} (h0 : hostpub ≠ []) :
    Trusted (trustHostRemove hostpub p).2 k ↔ Trusted p k ∧ k ≠ hostpub := by
  have hlegacy : prefText .trustedHostPub 512 (trustHostRemove hostpub p).2 =
      if prefText .trustedHostPub 512 p = some hostpub then some []
      else prefText .trustedHostPub 512 p := by
    rw [prefText, Prefs.get, trustedHostPub_trustHostRemove hp h0]
    split_ifs <;> rfl
  rw [Trusted, Trusted, hostKeys_trustHostRemove hp h0, hlegacy, List.mem_filter, decide_eq_true_eq]
  by_cases h : prefText .trustedHostPub 512 p = some hostpub
  · rw [if_pos h, h, Option.some.injEq, Option.some.injEq]
    constructor
    · rintro (⟨hm, hne⟩ | ⟨h1, h2⟩)
      · exact ⟨Or.inl hm, hne⟩
      · exact absurd h2.symm h1
    · rintro ⟨hm | ⟨-, rfl⟩, hne⟩
      · exact Or.inl ⟨hm, hne⟩
      · exact absurd rfl hne
  · rw [if_neg h]
    constructor
    · rintro (⟨hm, hne⟩ | ⟨h1, h2⟩)
      · exact ⟨Or.inl hm, hne⟩
      · exact ⟨Or.inr ⟨h1, h2⟩, by rintro rfl; exact h h2⟩
    · rintro ⟨hm | h2, hne⟩
      · exact Or.inl ⟨hm, hne⟩
      · exact Or.inr h2

end Succeeds

end ZorinTrust
