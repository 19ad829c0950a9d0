import ZorinTrust.Codec

/-!
# Field extraction and the line grammar

`trustFrameFieldOut` is `trust_frame_field` with all it returns: the code and the text left in the
buffer, and `none` while the loop has not ended.  `trustFrameFieldOut_eq` says that a turn for each byte
and one more are enough and ties the result to the scanner of the other modules;
`trustFrameFieldOut_grammar` is the grammar: the first line `key value` decides, and nothing else does.
Lengths are natural numbers: every text read here stands in a fixed buffer, far below `INT_MAX`.
-/

namespace ZorinTrust

open CText Lines

/-- The `while (*p)` loop: its return code and the output, `none` when the turns run out. -/
def frameFieldLoop (key : Bytes) (cap : ℕ) : ℕ → Bytes → Option (ℤ × Bytes)
  | 0, _ => none
  | n + 1, p =>
    if p = [] then some (-1, [])
    else
      match lineField key cap (p.takeWhile (!isEol ·)) with
      | some v => some (v.length, v)
      | none => frameFieldLoop key cap n ((p.dropWhile (!isEol ·)).dropWhile isEol)

/-- `trust_frame_field`, for at most `fuel` turns of its loop; `out` is the text in the buffer before. -/
def trustFrameFieldOut (fuel : ℕ) (text key out : Bytes) (cap : ℕ) : Option (ℤ × Bytes) :=
  if cap < 2 then some (-1, out) else frameFieldLoop key cap fuel text

/-- The code and the output that go with a found value. -/
def fieldAnswer : Option Bytes → ℤ × Bytes
  | some v => (v.length, v)
  | none => (-1, [])

/-- The loop is the scanner with its answer written out; one more turn sees the end of the text. -/
theorem frameFieldLoop_eq (key : Bytes) (cap : ℕ) : ∀ (n : ℕ) (p : Bytes), p.length ≤ n →
    ∀ m, n < m → frameFieldLoop key cap m p = some (fieldAnswer (scanLoop key cap n p))
  | _, _, _, 0, hm => absurd hm (Nat.not_lt_zero _)
  | 0, p, h, m + 1, _ => by
    obtain rfl : p = [] := List.length_eq_zero_iff.mp (by omega)
    rfl
  | n + 1, p, h, m + 1, hm => by
    by_cases hp : p = []
    · subst hp
      rfl
    rw [frameFieldLoop, scanLoop, if_neg hp, if_neg hp]
    cases hl : lineField key cap (p.takeWhile (!isEol ·)) with
    | some v => rfl
    | none =>
      -- the first byte is gone: it is in the line or in the line end
      have hlen : ((p.dropWhile (!isEol ·)).dropWhile isEol).length ≤ n := by
        obtain ⟨c, rest, rfl⟩ := List.exists_cons_of_ne_nil hp
        by_cases hc : isEol c = true
        · rw [List.dropWhile_cons_of_neg (by simpa using hc), List.dropWhile_cons_of_pos hc]
          exact (List.length_dropWhile_le _ _).trans (Nat.le_of_succ_le_succ h)
        · rw [List.dropWhile_cons_of_pos (by simpa using hc)]
          exact ((List.length_dropWhile_le _ _).trans (List.length_dropWhile_le _ _)).trans
            (Nat.le_of_succ_le_succ h)
      exact frameFieldLoop_eq key cap n _ hlen m (Nat.lt_of_succ_lt_succ hm)

/-- **The loop ends on every text**, with the scanner's answer. -/
theorem trustFrameFieldOut_eq {fuel cap : ℕ} {text : Bytes} (key out : Bytes) (hcap : 2 ≤ cap)
    (hfuel : text.length < fuel) :
    trustFrameFieldOut fuel text key out cap = some (fieldAnswer (scan key cap text)) := by
  rw [trustFrameFieldOut, if_neg (by omega), scan]
  exact frameFieldLoop_eq key cap _ _ le_rfl _ hfuel

/-! ### The grammar -/

/-- A line that consists of the key, one space and a value. -/
def IsField (key line : Bytes) : Prop := ∃ v, line = key ++ sp :: v

/-- The test on one line accepts the lines of the grammar. -/
theorem lineField_eq_some_iff {key line v : Bytes} {cap : ℕ} :
    lineField key cap line = some v ↔ ∃ w, line = key ++ sp :: w ∧ v = cut cap w := by
  unfold lineField
  constructor
  · intro h
    split_ifs at h with hmatch
    obtain ⟨-, hsp, hpre⟩ := hmatch
    obtain ⟨t, rfl⟩ := List.isPrefixOf_iff_prefix.mp hpre
    rw [List.drop_left] at hsp
    obtain ⟨w, rfl⟩ := List.head?_eq_some_iff.mp hsp
    rw [← List.drop_drop, List.drop_left, List.drop_one, List.tail_cons, Option.some.injEq] at h
    exact ⟨w, rfl, h.symm⟩
  · rintro ⟨w, rfl, rfl⟩
    rw [if_pos ⟨by simp, by simp, by simp⟩, ← List.drop_drop, List.drop_left, List.drop_one,
      List.tail_cons]

theorem lineField_eq_none_iff {key line : Bytes} {cap : ℕ} :
    lineField key cap line = none ↔ ¬ IsField key line := by
  rw [Option.eq_none_iff_forall_ne_some]
  constructor
  · rintro h ⟨w, hw⟩
    exact h _ (lineField_eq_some_iff.mpr ⟨w, hw, rfl⟩)
  · intro h v hv
    obtain ⟨w, hw, -⟩ := lineField_eq_some_iff.mp hv
    exact h ⟨w, hw⟩

theorem scan_eq_none_iff {key text : Bytes} {cap : ℕ} :
    scan key cap text = none ↔ ∀ line ∈ lines text, ¬ IsField key line := by
  rw [scan_eq_findSome, List.findSome?_eq_none_iff]
  exact forall₂_congr fun _ _ => lineField_eq_none_iff

theorem scan_of_first {key text v : Bytes} {cap : ℕ} {pre post : List Bytes}
    (h : lines text = pre ++ (key ++ sp :: v) :: post) (hpre : ∀ line ∈ pre, ¬ IsField key line) :
    scan key cap text = some (cut cap v) := by
  rw [scan_eq_findSome, List.findSome?_eq_some_iff]
  exact ⟨pre, _, post, h, lineField_eq_some_iff.mpr ⟨v, rfl, rfl⟩,
    fun line hl => lineField_eq_none_iff.mpr (hpre line hl)⟩

/-- The key of a line: the text before its first space. -/
def lineKey (line : Bytes) : Bytes := line.takeWhile (· != sp)

theorem lineKey_of_isField {key line : Bytes} (hsp : sp ∉ key) (h : IsField key line) :
    lineKey line = key := by
  obtain ⟨v, rfl⟩ := h
  have hall : ∀ c ∈ key, (c != sp) = true := fun c hc => by
    rw [bne_iff_ne]
    rintro rfl
    exact hsp hc
  rw [lineKey, List.takeWhile_append_of_pos hall, List.takeWhile_cons_of_neg (by simp), List.append_nil]

theorem fieldAnswer_eq_iff {o : Option Bytes} : fieldAnswer o = (-1, []) ↔ o = none := by
  cases o with
  | none => simp [fieldAnswer]
  | some v =>
    refine iff_of_false (fun h => ?_) (by simp)
    have hlen : (v.length : ℤ) = -1 := congrArg Prod.fst h
    omega

/-- **Field extraction is the line grammar**: the first line of the form `key value` is answered, cut to
the buffer, `-1` with an empty text says that there is none, and a line with another key never counts,
whatever its value holds. -/
theorem trustFrameFieldOut_grammar (text key out : Bytes) {cap : ℕ} (hcap : 2 ≤ cap) :
    ∃ rc v, (∀ fuel, text.length < fuel → trustFrameFieldOut fuel text key out cap = some (rc, v)) ∧
      (∀ pre w post, lines text = pre ++ (key ++ sp :: w) :: post →
        (∀ line ∈ pre, ¬ IsField key line) → v = w.take (cap - 1) ∧ rc = v.length) ∧
      (rc = -1 ∧ v = [] ↔ ∀ line ∈ lines text, ¬ IsField key line) ∧
      (sp ∉ key → (∀ line ∈ lines text, lineKey line ≠ key) → rc = -1 ∧ v = []) := by
  have hnone : (fieldAnswer (scan key cap text)).1 = -1 ∧ (fieldAnswer (scan key cap text)).2 = [] ↔
      ∀ line ∈ lines text, ¬ IsField key line := by
    rw [← Prod.mk.injEq, fieldAnswer_eq_iff, scan_eq_none_iff]
  refine ⟨_, _, fun fuel hfuel => trustFrameFieldOut_eq key out hcap hfuel, ?_, hnone, ?_⟩
  · intro pre w post hlines hpre
    rw [scan_of_first hlines hpre]
    exact ⟨rfl, rfl⟩
  · intro hsp hother
    exact hnone.mpr fun line hl hfield => hother line hl (lineKey_of_isField hsp hfield)

theorem trustFrameFieldOut_grammar_user :
    trustFrameFieldOut 42 (lit "USERS 9\r\nX USER 7\n\nUSER abcdef\nUSER z") (lit "USER") [] 4 =
      some (3, lit "abc") := by
  obtain ⟨rc, v, hrun, hfirst, -, -⟩ := trustFrameFieldOut_grammar
    (lit "USERS 9\r\nX USER 7\n\nUSER abcdef\nUSER z") (lit "USER") [] (by norm_num : 2 ≤ 4)
  have hlines : lines (lit "USERS 9\r\nX USER 7\n\nUSER abcdef\nUSER z") =
      [lit "USERS 9", lit "X USER 7"] ++ (lit "USER" ++ sp :: lit "abcdef") :: [lit "USER z"] := by
    decide
  have hpre : ∀ line ∈ [lit "USERS 9", lit "X USER 7"], ¬ IsField (lit "USER") line := by
    intro line hl hfield
    have hkey := lineKey_of_isField (by decide) hfield
    rcases List.mem_pair.mp hl with rfl | rfl
    · exact absurd hkey (by decide)
    · exact absurd hkey (by decide)
  obtain ⟨rfl, rfl⟩ := hfirst _ _ _ hlines hpre
  exact hrun 42 (by decide)

end ZorinTrust
