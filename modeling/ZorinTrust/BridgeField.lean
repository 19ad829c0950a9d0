import ZorinTrust.Report
import ZorinTrust.Lib.Search

/-!
# Reading a report field in the app

`bridge_field` of the app looks for `key=` with `strstr` anywhere in the reply of the agent, not at line
starts as `trust_frame_field` does, and its pattern has room for 95 bytes.  `bridgeField_ideal` evaluates
it on the lines `append_kv` wrote: the first line that holds the pattern answers, whichever key it has.
`bridgeField_iff` is the exact condition under which that answer is the value asked for.
-/

namespace ZorinTrust

open CText Search

/-- The text `bridge_field` looks for. -/
def fieldPattern (key : Bytes) : Bytes := cut 96 (key ++ [61])

/-- `bridge_field(text, key, out, cap)`: its code, and the text in `out` afterwards. -/
def bridgeField (text key out : Bytes) (cap : ℕ) : ℤ × Bytes :=
  if cap < 2 then (-1, out)
  else
    match text.dropInfix? (fieldPattern key) with
    | none => (-1, [])
    | some (_, p) =>
      let v := (p.takeWhile (· != 10)).take (cap - 1)
      (v.length, v)

/-- The answer that returns a value. -/
def answer (cap : ℕ) (v : Bytes) : ℤ × Bytes := ((cut cap v).length, cut cap v)

/-! ### The pattern -/

theorem fieldPattern_ne_nil (key : Bytes) : fieldPattern key ≠ [] := by
  rw [fieldPattern, cut]
  intro h
  have := congrArg List.length h
  rw [List.length_take, List.length_append, List.length_singleton, List.length_nil] at this
  omega

theorem notMem_fieldPattern {key : Bytes} {c : UInt8} (h : c ∉ key) (hc : c ≠ 61) :
    c ∉ fieldPattern key := fun hmem => by
  rcases List.mem_append.mp (List.mem_of_mem_take hmem) with hmem | hmem
  · exact h hmem
  · exact hc (List.mem_singleton.mp hmem)

theorem fieldPattern_of_le {key : Bytes} (h : key.length ≤ 94) : fieldPattern key = key ++ [61] :=
  cut_of_lt (by rw [List.length_append, List.length_singleton]; omega)

/-! ### The lines of a report -/

/-- A pair as a line, without its line feed. -/
def pairLine (kv : Bytes × Bytes) : Bytes := kv.1 ++ 61 :: kv.2

/-- The calls that render a list of pairs. -/
def renderCalls (kvs : List (Bytes × Bytes)) : List Append := kvs.map fun kv => .kv kv.1 (some kv.2)

theorem ideal_renderCalls (kvs : List (Bytes × Bytes)) :
    ideal (renderCalls kvs) = (kvs.map pairLine).flatMap (· ++ [10]) := by
  rw [ideal, renderCalls, List.flatMap_map, List.flatMap_map]
  refine List.flatMap_congr fun kv _ => ?_
  simp [Append.line, kvLine, pairLine]

/-- Keys are distinct, keys and values have no line feed, keys no equals sign. -/
structure PairsOk (kvs : List (Bytes × Bytes)) : Prop where
  nodup : (kvs.map Prod.fst).Nodup
  key : ∀ kv ∈ kvs, 61 ∉ kv.1 ∧ 10 ∉ kv.1
  value : ∀ kv ∈ kvs, 10 ∉ kv.2

/-- A line that holds the pattern answers, and what comes after its line feed does not matter. -/
theorem bridgeField_append {kvs : List (Bytes × Bytes)} (hok : PairsOk kvs) {key : Bytes}
    (hkey : 10 ∉ key) (out : Bytes) {cap : ℕ} (hcap : 2 ≤ cap) (tail : Bytes) {w : Bytes}
    (hafter : afterFirst (fieldPattern key) (kvs.map pairLine) = some w) :
    bridgeField (ideal (renderCalls kvs) ++ tail) key out cap = answer cap w := by
  have hlines := dropInfix?_lines (notMem_fieldPattern hkey (by decide)) (fieldPattern_ne_nil key)
    (kvs.map pairLine)
  rw [hafter] at hlines
  obtain ⟨p, rest, hsome⟩ := hlines
  -- the value ends with its line, which has no line feed of its own
  obtain ⟨pre, line, post, a, hkvs, -, hline, -⟩ := afterFirst_eq_some.mp hafter
  have hno : ∀ c ∈ w, (c != 10) = true := by
    intro c hc
    rw [bne_iff_ne]
    rintro rfl
    have hmem : line ∈ kvs.map pairLine := by rw [hkvs]; simp
    obtain ⟨kv, hkv, rfl⟩ := List.mem_map.mp hmem
    have h10 : 10 ∈ pairLine kv := by rw [hline]; simp [hc]
    rcases List.mem_append.mp h10 with h10 | h10
    · exact (hok.key kv hkv).2 h10
    · rcases List.mem_cons.mp h10 with h10 | h10
      · exact absurd h10 (by decide)
      · exact hok.value kv hkv h10
  rw [bridgeField, if_neg (by omega), ideal_renderCalls, dropInfix?_append_right hsome tail]
  dsimp only
  rw [List.append_assoc, List.cons_append, List.takeWhile_append_of_pos hno,
    List.takeWhile_cons_of_neg (by simp), List.append_nil]
  rfl

/-- **The first line that holds the pattern answers.** -/
theorem bridgeField_ideal {kvs : List (Bytes × Bytes)} (hok : PairsOk kvs) {key : Bytes}
    (hkey : 10 ∉ key) (out : Bytes) {cap : ℕ} (hcap : 2 ≤ cap) :
    bridgeField (ideal (renderCalls kvs)) key out cap =
      match afterFirst (fieldPattern key) (kvs.map pairLine) with
      | none => (-1, [])
      | some w => answer cap w := by
  cases hafter : afterFirst (fieldPattern key) (kvs.map pairLine) with
  | none =>
    have hlines := dropInfix?_lines (notMem_fieldPattern hkey (by decide)) (fieldPattern_ne_nil key)
      (kvs.map pairLine)
    rw [hafter] at hlines
    dsimp only at hlines ⊢
    rw [bridgeField, if_neg (by omega), ideal_renderCalls, hlines]
  | some w => simpa using bridgeField_append hok hkey out hcap [] hafter

/-! ### Keys that are not hidden -/

/-- In a line whose value has no equals sign the pattern stands only behind a key that ends with the key
asked for. -/
theorem fieldPattern_infix_iff {key : Bytes} {kv : Bytes × Bytes} (hlen : key.length ≤ 94)
    (hk : 61 ∉ kv.1) (hv : 61 ∉ kv.2) : fieldPattern key <:+: pairLine kv ↔ key <:+ kv.1 := by
  rw [fieldPattern_of_le hlen, pairLine]
  constructor
  · rintro ⟨a, b, h⟩
    have hsplit : (a ++ key) ++ 61 :: b = kv.1 ++ 61 :: kv.2 := by simpa using h
    have hone := congrArg (List.count 61) hsplit
    simp only [List.count_append, List.count_cons_self, List.count_eq_zero_of_not_mem hk,
      List.count_eq_zero_of_not_mem hv] at hone
    have hcount : (a ++ key).count 61 = kv.1.count 61 := by
      rw [List.count_eq_zero_of_not_mem hk, List.count_append]
      omega
    exact ⟨a, (append_sep_inj hsplit hcount).1⟩
  · rintro ⟨a, ha⟩
    exact ⟨a, kv.2, by rw [← ha]; simp⟩

/-- A key whose pattern no earlier line holds is found in its own line. -/
theorem afterFirst_of_clear (pre post : List (Bytes × Bytes)) {k v : Bytes} (hlen : k.length ≤ 94)
    (hpre : ∀ x ∈ pre, ¬ fieldPattern k <:+: pairLine x) :
    afterFirst (fieldPattern k) ((pre ++ (k, v) :: post).map pairLine) = some v := by
  refine afterFirst_eq_some.mpr ⟨pre.map pairLine, pairLine (k, v), post.map pairLine, [], by simp, ?_,
    ?_, fun b u _ => Nat.zero_le _⟩
  · intro l hl
    obtain ⟨x, hx, rfl⟩ := List.mem_map.mp hl
    exact hpre x hx
  · rw [fieldPattern_of_le hlen, pairLine]
    simp

theorem answer_eq_iff {cap : ℕ} {v w : Bytes} : answer cap w = answer cap v ↔ cut cap w = cut cap v := by
  constructor
  · intro h
    exact congrArg Prod.snd h
  · intro h
    rw [answer, h, answer]

/-- The first line that holds the pattern of `key` goes on behind it as `v` does, as far as `cap` bytes
reach. -/
def FirstHolds (kvs : List (Bytes × Bytes)) (key v : Bytes) (cap : ℕ) : Prop :=
  ∃ pre kv post a w, kvs = pre ++ kv :: post ∧ (∀ x ∈ pre, ¬ fieldPattern key <:+: pairLine x) ∧
    pairLine kv = a ++ fieldPattern key ++ w ∧
    (∀ b u, pairLine kv = b ++ fieldPattern key ++ u → a.length ≤ b.length) ∧ cut cap w = cut cap v

theorem firstHolds_iff {kvs : List (Bytes × Bytes)} {key v : Bytes} {cap : ℕ} :
    FirstHolds kvs key v cap ↔
      ∃ w, afterFirst (fieldPattern key) (kvs.map pairLine) = some w ∧ cut cap w = cut cap v := by
  constructor
  · rintro ⟨pre, kv, post, a, w, rfl, hpre, hline, hmin, hcut⟩
    refine ⟨w, afterFirst_eq_some.mpr ⟨pre.map pairLine, pairLine kv, post.map pairLine, a, by simp, ?_,
      hline, hmin⟩, hcut⟩
    intro l hl
    obtain ⟨x, hx, rfl⟩ := List.mem_map.mp hl
    exact hpre x hx
  · rintro ⟨w, hafter, hcut⟩
    obtain ⟨pre, line, post, a, hkvs, hpre, hline, hmin⟩ := afterFirst_eq_some.mp hafter
    obtain ⟨pre', rest, rfl, rfl, hrest⟩ := List.map_eq_append_iff.mp hkvs
    obtain ⟨kv, post', rfl, rfl, rfl⟩ := List.map_eq_cons_iff.mp hrest
    exact ⟨pre', kv, post', a, w, rfl, fun x hx => hpre _ (List.mem_map_of_mem hx), hline, hmin, hcut⟩

/-- The text of a report of these pairs that was not cut. -/
def Untruncated (kvs : List (Bytes × Bytes)) (text : Bytes) : Prop :=
  ∃ cap m r, appendAll cap (Report.start m) (renderCalls kvs) = some r ∧ cstr r.out = text ∧
    text = ideal (renderCalls kvs)

/-- A buffer that is large enough for all lines holds such a report. -/
theorem untruncated_of_length {kvs : List (Bytes × Bytes)} (cap : ℕ) {m : Bytes} (hne : kvs ≠ [])
    (h0 : 0 ∉ ideal (renderCalls kvs)) (hcap : (ideal (renderCalls kvs)).length + 2 < cap)
    (hint : cap < 2 ^ 31) (hm : m.length = cap) : Untruncated kvs (ideal (renderCalls kvs)) := by
  have hcalls : renderCalls kvs ≠ [] := by simpa [renderCalls] using hne
  obtain ⟨r, hrun, htext⟩ := appendAll_whole hint hm hcalls h0 hcap
  exact ⟨cap, m, r, hrun, htext, rfl⟩

/-- **When the app reads what the agent wrote**: a report that was not cut gives back the value of a key
exactly when there is room for a byte and the first line with the pattern goes on with that value. -/
theorem bridgeField_iff {kvs : List (Bytes × Bytes)} (hok : PairsOk kvs) {text : Bytes}
    (htext : Untruncated kvs text) {k v : Bytes} (hmem : (k, v) ∈ kvs) (out : Bytes) (cap : ℕ) :
    bridgeField text k out cap = answer cap v ↔ 2 ≤ cap ∧ FirstHolds kvs k v cap := by
  have hkey := (hok.key _ hmem).2
  obtain ⟨-, -, -, -, -, rfl⟩ := htext
  rw [firstHolds_iff]
  have hlen (h : (-1 : ℤ) = ((cut cap v).length : ℕ)) : False := by omega
  by_cases hcap : cap < 2
  · rw [bridgeField, if_pos hcap]
    exact iff_of_false (fun h => hlen (congrArg Prod.fst h)) (fun h => by omega)
  · rw [bridgeField_ideal hok hkey out (by omega)]
    cases afterFirst (fieldPattern k) (kvs.map pairLine) with
    | none => exact iff_of_false (fun h => hlen (congrArg Prod.fst h)) (fun h => by simpa using h.2)
    | some w =>
      dsimp only
      rw [answer_eq_iff]
      exact ⟨fun h => ⟨by omega, w, rfl, h⟩, fun ⟨_, w', hw, h⟩ => by rwa [Option.some.inj hw]⟩

theorem bridgeField_iff_gid :
    bridgeField (lit "gid=0\nuid=2000\n") (lit "uid") [] 4 = answer 4 (lit "2000") := by
  have hok : PairsOk [(lit "gid", lit "0"), (lit "uid", lit "2000")] :=
    ⟨by decide, by decide, by decide⟩
  have htext : Untruncated [(lit "gid", lit "0"), (lit "uid", lit "2000")] (lit "gid=0\nuid=2000\n") :=
    untruncated_of_length 20 (m := List.replicate 20 7) (by decide) (by decide) (by decide)
      (by decide) rfl
  refine (bridgeField_iff hok htext (k := lit "uid") (v := lit "2000") (by decide) [] 4).mpr
    ⟨by decide, firstHolds_iff.mpr ⟨lit "2000", by decide, rfl⟩⟩

/-- With `uid` behind `euid` the app reads the value of `euid`. -/
theorem bridgeField_suffix :
    PairsOk [(lit "euid", lit "1"), (lit "uid", lit "0")] ∧
      (appendAll 20 (Report.start (List.replicate 20 7))
        (renderCalls [(lit "euid", lit "1"), (lit "uid", lit "0")])).map (fun r => cstr r.out) =
          some (ideal (renderCalls [(lit "euid", lit "1"), (lit "uid", lit "0")])) ∧
      bridgeField (ideal (renderCalls [(lit "euid", lit "1"), (lit "uid", lit "0")])) (lit "uid") [] 8 =
        answer 8 (lit "1") ∧
      bridgeField (ideal (renderCalls [(lit "euid", lit "1"), (lit "uid", lit "0")])) (lit "uid") [] 8 ≠
        answer 8 (lit "0") :=
  ⟨⟨by decide, by decide, by decide⟩, by decide, by decide, by decide⟩

end ZorinTrust
