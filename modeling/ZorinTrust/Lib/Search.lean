import Mathlib

/-!
# Searching a text

`List.dropInfix?` splits a text at the first occurrence of a pattern, which is what `strstr` and a step
over the pattern give a C program.  A pattern without the separator never spans two lines, so the search
of the whole text is the search of the lines in turn: `dropInfix?_lines`.  `rfind` is the search from
the end: it finds an occurrence or a later one, and occurrences of a pattern without repetitions stand
apart.
-/

namespace Search

variable {α : Type*} {sep : α} {l rest i p s : List α}

/-- An occurrence of a pattern without the separator lies before the separator or behind it. -/
theorem occurrence (hi : sep ∉ i) (h : l ++ sep :: rest = p ++ i ++ s) :
    (∃ t, l = p ++ i ++ t ∧ s = t ++ sep :: rest) ∨ ∃ t, p = l ++ sep :: t ∧ rest = t ++ i ++ s := by
  rcases List.append_eq_append_iff.mp h with ⟨t, hpi, hrest⟩ | ⟨t, hl, hs⟩
  · cases t with
    | nil => exact Or.inl ⟨[], by simpa using hpi.symm, by simpa using hrest.symm⟩
    | cons c t =>
      obtain ⟨rfl, rfl⟩ := List.cons_eq_cons.mp hrest
      rcases List.append_eq_append_iff.mp hpi with ⟨u, rfl, hu⟩ | ⟨u, hp, hu⟩
      · exact absurd (by rw [hu]; simp) hi
      · cases u with
        | nil => exact absurd (by rw [List.nil_append] at hu; rw [← hu]; simp) hi
        | cons c u =>
          obtain ⟨rfl, rfl⟩ := List.cons_eq_cons.mp hu
          exact Or.inr ⟨u, hp, rfl⟩
  · exact Or.inl ⟨t, hl, hs⟩

theorem infix_append_sep_iff (hi : sep ∉ i) : i <:+: l ++ sep :: rest ↔ i <:+: l ∨ i <:+: rest := by
  constructor
  · rintro ⟨p, s, h⟩
    rcases occurrence hi h.symm with ⟨t, hl, -⟩ | ⟨t, -, hrest⟩
    · exact Or.inl ⟨p, t, hl.symm⟩
    · exact Or.inr ⟨t, s, hrest.symm⟩
  · rintro (h | h)
    · exact h.trans (List.prefix_append _ _).isInfix
    · exact h.trans ⟨l ++ [sep], [], by simp⟩

variable [DecidableEq α]

/-- The split at the first occurrence. -/
theorem dropInfix?_eq_some : l.dropInfix? i = some (p, s) ↔
    l = p ++ i ++ s ∧ ∀ p' s', l = p' ++ i ++ s' → p.length ≤ p'.length := by
  rw [List.dropInfix?_eq_some_iff]
  constructor
  · rintro ⟨⟨i', hl, hi'⟩, hmin⟩
    rw [beq_iff_eq] at hi'
    rw [hi'] at hl
    exact ⟨hl, fun p' s' h => hmin p' i s' h (by simp)⟩
  · rintro ⟨hl, hmin⟩
    refine ⟨⟨i, hl, by simp⟩, fun p' i' s' h hi' => ?_⟩
    rw [beq_iff_eq] at hi'
    exact hmin p' s' (hi' ▸ h)

theorem exists_dropInfix? (h : i <:+: l) : ∃ p s, l.dropInfix? i = some (p, s) := by
  classical
  have hex : ∃ n p s, p.length = n ∧ l = p ++ i ++ s := by
    obtain ⟨p, s, h⟩ := h
    exact ⟨p.length, p, s, rfl, h.symm⟩
  obtain ⟨p, s, hlen, hl⟩ := Nat.find_spec hex
  refine ⟨p, s, dropInfix?_eq_some.mpr ⟨hl, fun p' s' h' => ?_⟩⟩
  rw [hlen]
  exact Nat.find_min' hex ⟨p', s', rfl, h'⟩

theorem dropInfix?_eq_none : l.dropInfix? i = none ↔ ¬ i <:+: l := by
  constructor
  · intro h hi
    obtain ⟨p, s, hsome⟩ := exists_dropInfix? hi
    rw [h] at hsome
    exact absurd hsome (by simp)
  · intro h
    by_contra hne
    obtain ⟨⟨p, s⟩, hsome⟩ := Option.ne_none_iff_exists'.mp hne
    exact h ⟨p, s, (dropInfix?_eq_some.mp hsome).1.symm⟩

/-- The first occurrence is in the first line. -/
theorem dropInfix?_append_of_some (hi : sep ∉ i) (h : l.dropInfix? i = some (p, s)) :
    (l ++ sep :: rest).dropInfix? i = some (p, s ++ sep :: rest) := by
  obtain ⟨hl, hmin⟩ := dropInfix?_eq_some.mp h
  refine dropInfix?_eq_some.mpr ⟨by rw [hl]; simp, fun p' s' h' => ?_⟩
  rcases occurrence hi h' with ⟨t, ht, -⟩ | ⟨t, ht, -⟩
  · exact hmin p' t ht
  · have := congrArg List.length hl
    simp only [List.length_append] at this
    rw [ht, List.length_append]
    omega

/-- The first line has no occurrence. -/
theorem dropInfix?_append_of_notInfix (hi : sep ∉ i) (h : ¬ i <:+: l) :
    (l ++ sep :: rest).dropInfix? i = (rest.dropInfix? i).map fun ps => (l ++ sep :: ps.1, ps.2) := by
  cases hrest : rest.dropInfix? i with
  | none =>
    rw [dropInfix?_eq_none] at hrest
    rw [Option.map_none, dropInfix?_eq_none, infix_append_sep_iff hi]
    exact not_or.mpr ⟨h, hrest⟩
  | some ps =>
    obtain ⟨p, s⟩ := ps
    obtain ⟨heq, hmin⟩ := dropInfix?_eq_some.mp hrest
    refine dropInfix?_eq_some.mpr ⟨by rw [heq]; simp, fun p' s' h' => ?_⟩
    dsimp only
    rcases occurrence hi h' with ⟨t, ht, -⟩ | ⟨t, ht, hrest'⟩
    · exact absurd ⟨p', t, ht.symm⟩ h
    · have := hmin t s' hrest'
      rw [ht, List.length_append, List.length_append, List.length_cons, List.length_cons]
      omega

/-- More text behind the first occurrence. -/
theorem dropInfix?_append_right (h : l.dropInfix? i = some (p, s)) (t : List α) :
    (l ++ t).dropInfix? i = some (p, s ++ t) := by
  obtain ⟨rfl, hmin⟩ := dropInfix?_eq_some.mp h
  refine dropInfix?_eq_some.mpr ⟨by simp, fun p' s' h' => ?_⟩
  rcases List.append_eq_append_iff.mp h' with ⟨u, hl, -⟩ | ⟨u, hl, -⟩
  · have := congrArg List.length hl
    simp only [List.length_append] at this
    omega
  · exact hmin p' u hl

/-- What comes after the first occurrence, in the first line that has one. -/
def afterFirst (i : List α) (ls : List (List α)) : Option (List α) :=
  ls.findSome? fun l => (l.dropInfix? i).map Prod.snd

/-- **The search of a text is the search of its lines.** -/
theorem dropInfix?_lines (hi : sep ∉ i) (hne : i ≠ []) : ∀ ls : List (List α),
    match afterFirst i ls with
    | none => (ls.flatMap (· ++ [sep])).dropInfix? i = none
    | some w => ∃ p rest, (ls.flatMap (· ++ [sep])).dropInfix? i = some (p, w ++ sep :: rest)
  | [] => by
    rw [afterFirst, List.findSome?_nil, List.flatMap_nil, dropInfix?_eq_none, List.infix_nil]
    exact hne
  | l :: ls => by
    have ih := dropInfix?_lines hi hne ls
    have htext : (l :: ls).flatMap (· ++ [sep]) = l ++ sep :: ls.flatMap (· ++ [sep]) := by simp
    rw [afterFirst, List.findSome?_cons, htext]
    cases hl : l.dropInfix? i with
    | some ps =>
      obtain ⟨p, s⟩ := ps
      exact ⟨p, _, dropInfix?_append_of_some hi hl⟩
    | none =>
      rw [dropInfix?_append_of_notInfix hi (dropInfix?_eq_none.mp hl)]
      rw [afterFirst] at ih
      rw [Option.map_none]
      dsimp only
      cases hafter : ls.findSome? fun l => (l.dropInfix? i).map Prod.snd with
      | none =>
        rw [hafter] at ih
        dsimp only at ih ⊢
        rw [ih, Option.map_none]
      | some w =>
        rw [hafter] at ih
        obtain ⟨p, rest, hsome⟩ := ih
        exact ⟨l ++ sep :: p, rest, by rw [hsome, Option.map_some]⟩

/-- What comes after the first occurrence, told with the lines before it. -/
theorem afterFirst_eq_some {ls : List (List α)} {w : List α} : afterFirst i ls = some w ↔
    ∃ pre line post a, ls = pre ++ line :: post ∧ (∀ l ∈ pre, ¬ i <:+: l) ∧ line = a ++ i ++ w ∧
      ∀ b v, line = b ++ i ++ v → a.length ≤ b.length := by
  rw [afterFirst, List.findSome?_eq_some_iff]
  constructor
  · rintro ⟨pre, line, post, hls, hline, hpre⟩
    obtain ⟨⟨a, w⟩, hdrop, rfl⟩ := Option.map_eq_some_iff.mp hline
    obtain ⟨heq, hmin⟩ := dropInfix?_eq_some.mp hdrop
    exact ⟨pre, line, post, a, hls,
      fun l hl => dropInfix?_eq_none.mp (Option.map_eq_none_iff.mp (hpre l hl)), heq, hmin⟩
  · rintro ⟨pre, line, post, a, hls, hpre, heq, hmin⟩
    refine ⟨pre, line, post, hls, ?_, fun l hl => ?_⟩
    · rw [dropInfix?_eq_some.mpr ⟨heq, hmin⟩, Option.map_some]
    · rw [dropInfix?_eq_none.mpr (hpre l hl), Option.map_none]

/-! ### Searching backwards -/

/-- The last occurrence that starts at or behind `start` and before the given place. -/
def rfindBelow (l i : List α) (start : ℕ) : ℕ → Option ℕ
  | 0 => none
  | n + 1 => if start ≤ n ∧ i <+: l.drop n then some n else rfindBelow l i start n

/-- The last occurrence inside `[start, stop)`. -/
def rfind (l i : List α) (start stop : ℕ) : Option ℕ := rfindBelow l i start (stop + 1 - i.length)

theorem of_rfindBelow {start n : ℕ} : ∀ {k : ℕ}, rfindBelow l i start k = some n →
    n < k ∧ i <+: l.drop n
  | k + 1, h => by
    rw [rfindBelow] at h
    split_ifs at h with hk
    · cases h
      exact ⟨Nat.lt_succ_self _, hk.2⟩
    · have ih := of_rfindBelow h
      exact ⟨by omega, ih.2⟩

theorem exists_rfindBelow {start n : ℕ} (hn : i <+: l.drop n) (hstart : start ≤ n) :
    ∀ {k : ℕ}, n < k → ∃ m, rfindBelow l i start k = some m ∧ n ≤ m
  | k + 1, h => by
    rw [rfindBelow]
    split_ifs with hk
    · exact ⟨k, rfl, by omega⟩
    · have hne : n ≠ k := by
        rintro rfl
        exact hk ⟨hstart, hn⟩
      exact exists_rfindBelow hn hstart (by omega)

theorem of_rfind {start stop n : ℕ} (h : rfind l i start stop = some n) :
    n + i.length ≤ stop ∧ i <+: l.drop n := by
  obtain ⟨hlt, hi⟩ := of_rfindBelow h
  exact ⟨by omega, hi⟩

/-- An occurrence is found, or a later one. -/
theorem exists_rfind {start stop n : ℕ} (hn : i <+: l.drop n) (hstart : start ≤ n)
    (hstop : n + i.length ≤ stop) : ∃ m, rfind l i start stop = some m ∧ n ≤ m :=
  exists_rfindBelow hn hstart (by omega)

omit [DecidableEq α] in
/-- Occurrences of a pattern without repetitions do not overlap. -/
theorem add_length_le_of_nodup {n m : ℕ} (hi : i.Nodup) (hn : i <+: l.drop n) (hm : i <+: l.drop m)
    (hlt : n < m) : n + i.length ≤ m := by
  by_contra hlen
  have hk : m - n < i.length := by omega
  have hpos : 0 < i.length := by omega
  have h0 := List.prefix_iff_getElem?.mp hm 0 hpos
  have hk' := List.prefix_iff_getElem?.mp hn (m - n) hk
  rw [List.getElem?_drop] at h0 hk'
  rw [show n + (m - n) = m + 0 by omega, h0, Option.some.injEq] at hk'
  have := (hi.getElem_inj_iff).mp hk'
  omega

end Search
