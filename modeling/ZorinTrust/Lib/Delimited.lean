import ZorinTrust.Lib.CText

/-!
# Separator-delimited lists in a string

A set kept as one string: the members joined by a separator byte.  `scan sep` is the loop
`for (p = s; *p; p = *q ? q + 1 : q)` with `q` the next separator, `entries sep` the abstract list of
non-empty members.  `filter_scan` says the loop visits exactly these, `entries_append` is what
appending a member does, `entries_foldl_push` what rebuilding the string member by member does.
-/

namespace Delimited

open CText

variable {sep : UInt8}

/-- The segments the scan visits, in order. -/
def scanLoop (sep : UInt8) : ℕ → Bytes → List Bytes
  | 0, _ => []
  | n + 1, p =>
    if p = [] then [] else p.takeWhile (· != sep) :: scanLoop sep n (p.dropWhile (· != sep)).tail

def scan (sep : UInt8) (s : Bytes) : List Bytes := scanLoop sep s.length s

/-- The members of the list a string holds. -/
def entries (sep : UInt8) (s : Bytes) : List Bytes := (s.splitOn sep).filter (· ≠ [])

@[simp] theorem entries_nil : entries sep [] = [] := by simp [entries]

theorem sep_notMem_takeWhile (sep : UInt8) (p : Bytes) : sep ∉ p.takeWhile (· != sep) := by
  intro h
  have := List.mem_takeWhile_imp h
  simp at this

/-- A text is its first segment alone, or its first segment, a separator and a shorter rest. -/
theorem firstSegment (sep : UInt8) (p : Bytes) :
    (p.takeWhile (· != sep) = p ∧ p.dropWhile (· != sep) = []) ∨
      p = p.takeWhile (· != sep) ++ sep :: (p.dropWhile (· != sep)).tail := by
  have happ := List.takeWhile_append_dropWhile (p := (· != sep)) (l := p)
  cases hd : p.dropWhile (· != sep) with
  | nil => rw [hd, List.append_nil] at happ; exact Or.inl ⟨happ, rfl⟩
  | cons c t =>
    have hc : c = sep := by
      have hne : p.dropWhile (· != sep) ≠ [] := by rw [hd]; exact List.cons_ne_nil _ _
      have := List.head_dropWhile_not (· != sep) hne
      simpa [hd] using this
    rw [hd, hc] at happ
    exact Or.inr (by simpa using happ.symm)

theorem filter_scanLoop : ∀ (n : ℕ) (p : Bytes), p.length ≤ n →
    (scanLoop sep n p).filter (· ≠ []) = entries sep p
  | 0, p, h => by
    obtain rfl : p = [] := List.length_eq_zero_iff.mp (by omega)
    simp [scanLoop]
  | n + 1, p, h => by
    by_cases hp : p = []
    · subst hp; simp [scanLoop]
    · rw [scanLoop, if_neg hp]
      rcases firstSegment sep p with ⟨h1, h2⟩ | h1
      · have hno : sep ∉ p := h1 ▸ sep_notMem_takeWhile sep p
        rw [h2, h1, entries, List.splitOn_eq_singleton hno]
        cases n <;> simp [scanLoop]
      · have hsep := sep_notMem_takeWhile sep p
        generalize p.takeWhile (· != sep) = seg at h1 hsep ⊢
        generalize (p.dropWhile (· != sep)).tail = rest at h1 ⊢
        have hlen : rest.length ≤ n := by
          have := congrArg List.length h1
          simp only [List.length_append, List.length_cons] at this
          omega
        have hent : entries sep p = [seg].filter (· ≠ []) ++ entries sep rest := by
          rw [h1, entries, List.splitOn_append_cons_self_of_not_mem hsep, ← List.singleton_append,
            List.filter_append, entries]
        rw [hent, ← List.singleton_append, List.filter_append, filter_scanLoop n rest hlen]

/-- The scan visits the members, and besides them only empty segments. -/
theorem filter_scan (p : Bytes) : (scan sep p).filter (· ≠ []) = entries sep p :=
  filter_scanLoop _ _ le_rfl

theorem mem_scan {p x : Bytes} (hx : x ≠ []) : x ∈ scan sep p ↔ x ∈ entries sep p := by
  rw [← filter_scan, List.mem_filter]
  simp [hx]

theorem sep_notMem_of_mem_scanLoop {x : Bytes} :
    ∀ {n : ℕ} {p : Bytes}, x ∈ scanLoop sep n p → sep ∉ x
  | 0, _, h => by simp [scanLoop] at h
  | n + 1, p, h => by
    rw [scanLoop] at h
    split_ifs at h with hp
    · simp at h
    · rcases List.mem_cons.mp h with rfl | h
      · exact sep_notMem_takeWhile sep p
      · exact sep_notMem_of_mem_scanLoop h

theorem sep_notMem_of_mem_entries {p x : Bytes} (h : x ∈ entries sep p) : sep ∉ x :=
  sep_notMem_of_mem_scanLoop ((mem_scan (by simpa [entries] using (List.mem_filter.mp h).2)).mpr h)

theorem ne_nil_of_mem_entries {p x : Bytes} (h : x ∈ entries sep p) : x ≠ [] := by
  simpa using (List.mem_filter.mp h).2

theorem entries_single {x : Bytes} (hs : sep ∉ x) (hx : x ≠ []) : entries sep x = [x] := by
  simp [entries, List.splitOn_eq_singleton hs, hx]

theorem entries_append (l k : Bytes) : entries sep (l ++ sep :: k) = entries sep l ++ entries sep k := by
  simp [entries, List.splitOn_append_cons_self]

/-! ### Rebuilding the string -/

/-- Append a member, with a separator before it unless it is the first. -/
def push (sep : UInt8) (out x : Bytes) : Bytes := (if out = [] then out else out ++ [sep]) ++ x

theorem entries_push_append (out x : Bytes) :
    entries sep (push sep out x) = entries sep out ++ entries sep x := by
  unfold push
  by_cases ho : out = []
  · rw [if_pos ho, ho, List.nil_append, entries_nil, List.nil_append]
  · rw [if_neg ho, List.append_assoc, List.singleton_append, entries_append]

theorem entries_push {out x : Bytes} (hs : sep ∉ x) (hx : x ≠ []) :
    entries sep (push sep out x) = entries sep out ++ [x] := by
  rw [entries_push_append, entries_single hs hx]

/-- A string that is empty or whose members all are not. -/
def Clean (sep : UInt8) (s : Bytes) : Prop := s = [] ∨ [] ∉ s.splitOn sep

theorem clean_nil : Clean sep [] := Or.inl rfl

theorem clean_push {out x : Bytes} (h : Clean sep out) (hs : sep ∉ x) (hx : x ≠ []) :
    Clean sep (push sep out x) := by
  refine Or.inr ?_
  unfold push
  by_cases ho : out = []
  · rw [if_pos ho, ho, List.nil_append, List.splitOn_eq_singleton hs]
    simpa using hx.symm
  · have hclean := h.resolve_left ho
    rw [if_neg ho, List.append_assoc, List.singleton_append, List.splitOn_append_cons_self,
      List.splitOn_eq_singleton hs]
    simpa using ⟨hclean, hx⟩

theorem clean_foldl_push : ∀ (xs : List Bytes) (out : Bytes), Clean sep out →
    (∀ x ∈ xs, sep ∉ x ∧ x ≠ []) → Clean sep (xs.foldl (push sep) out)
  | [], _, hout, _ => hout
  | x :: xs, out, hout, h => by
    obtain ⟨hs, hx⟩ := h x List.mem_cons_self
    exact clean_foldl_push xs _ (clean_push hout hs hx) fun y hy => h y (List.mem_cons_of_mem _ hy)

theorem entries_foldl_push : ∀ (xs : List Bytes) (out : Bytes), (∀ x ∈ xs, sep ∉ x ∧ x ≠ []) →
    entries sep (xs.foldl (push sep) out) = entries sep out ++ xs
  | [], out, _ => by simp
  | x :: xs, out, h => by
    obtain ⟨hs, hx⟩ := h x List.mem_cons_self
    rw [List.foldl_cons, entries_foldl_push xs _ fun y hy => h y (List.mem_cons_of_mem _ hy),
      entries_push hs hx]
    simp

theorem foldl_push_cons : ∀ (xs : List Bytes) {x : Bytes}, x ≠ [] →
    xs.foldl (push sep) x = [sep].intercalate (x :: xs)
  | [], x, _ => List.intercalate_singleton.symm
  | y :: xs, x, hx => by
    have hpush : push sep x y = x ++ [sep] ++ y := by rw [push, if_neg hx]
    rw [List.foldl_cons, foldl_push_cons xs (by simp [hpush]), hpush, List.intercalate_cons_cons]
    cases xs with
    | nil => rw [List.intercalate_singleton, List.intercalate_singleton]
    | cons z xs =>
      rw [List.intercalate_cons_cons, List.intercalate_cons_cons]
      simp only [List.append_assoc]

/-- Pushing members that are not empty joins them. -/
theorem foldl_push_eq_intercalate {xs : List Bytes} (h : ∀ x ∈ xs, x ≠ []) :
    xs.foldl (push sep) [] = [sep].intercalate xs := by
  cases xs with
  | nil => rfl
  | cons x xs =>
    have hpush : push sep [] x = x := by rw [push, if_pos rfl, List.nil_append]
    rw [List.foldl_cons, hpush, foldl_push_cons xs (h x List.mem_cons_self)]

theorem mem_intercalate {α : Type*} (sep : List α) {c : α} : ∀ {ls : List (List α)} {l : List α},
    l ∈ ls → c ∈ l → c ∈ sep.intercalate ls
  | [], _, h, _ => absurd h List.not_mem_nil
  | [x], l, h, hc => by
    rw [List.intercalate_singleton]
    rwa [← List.mem_singleton.mp h]
  | x :: y :: ls, l, h, hc => by
    rw [List.intercalate_cons_cons]
    rcases List.mem_cons.mp h with rfl | h
    · exact List.mem_append_left _ (List.mem_append_left _ hc)
    · exact List.mem_append_right _ (mem_intercalate sep h hc)

theorem notMem_intercalate {α : Type*} {sep : List α} {c : α} (hsep : c ∉ sep) :
    ∀ {ls : List (List α)}, (∀ l ∈ ls, c ∉ l) → c ∉ sep.intercalate ls
  | [], _ => List.not_mem_nil
  | [x], h => by
    rw [List.intercalate_singleton]
    exact h x List.mem_cons_self
  | x :: y :: ls, h => by
    rw [List.intercalate_cons_cons, List.mem_append, List.mem_append]
    rintro ((hc | hc) | hc)
    · exact h x List.mem_cons_self hc
    · exact hsep hc
    · exact notMem_intercalate hsep (fun l hl => h l (List.mem_cons_of_mem _ hl)) hc

/-- The room a list of segments takes, each counted with one separator. -/
def room (xs : List Bytes) : ℕ := (xs.map fun x => x.length + 1).sum

theorem room_scanLoop : ∀ (n : ℕ) (p : Bytes), room (scanLoop sep n p) ≤ p.length + 1
  | 0, p => by simp [scanLoop, room]
  | n + 1, p => by
    rw [scanLoop]
    split_ifs with hp
    · simp [room]
    · have hrec := room_scanLoop n (p.dropWhile (· != sep)).tail
      rcases firstSegment sep p with ⟨h1, h2⟩ | h1
      · rw [h1, h2]
        cases n <;> simp [scanLoop, room]
      · have hlen := congrArg List.length h1
        simp only [List.length_append, List.length_cons] at hlen
        simp only [room, List.map_cons, List.sum_cons] at hrec ⊢
        omega

/-- The room a rebuilt string takes, counted the same way. -/
def weight (out : Bytes) : ℕ := if out = [] then 0 else out.length + 1

theorem length_lt_of_weight_le {out : Bytes} {n : ℕ} (h : weight out ≤ n) (hn : 0 < n) :
    out.length < n := by
  unfold weight at h
  split_ifs at h with ho
  · rw [ho]; exact hn
  · omega

theorem weight_push_le (sep : UInt8) (out x : Bytes) :
    weight (push sep out x) ≤ weight out + (x.length + 1) := by
  unfold weight push
  by_cases ho : out = []
  · rw [if_pos ho, if_pos ho, ho, List.nil_append]
    split <;> omega
  · rw [if_neg ho, if_neg ho]
    split
    · omega
    · rw [List.length_append, List.length_append, List.length_singleton]; omega

theorem weight_foldl_push_le (sep : UInt8) : ∀ (xs : List Bytes) (out : Bytes),
    weight (xs.foldl (push sep) out) ≤ weight out + room xs
  | [], out => by simp
  | x :: xs, out => by
    have h1 := weight_foldl_push_le sep xs (push sep out x)
    have h2 := weight_push_le sep out x
    simp only [List.foldl_cons, room, List.map_cons, List.sum_cons] at h1 ⊢
    omega

theorem room_filter_le (f : Bytes → Bool) : ∀ xs : List Bytes, room (xs.filter f) ≤ room xs
  | [] => le_rfl
  | x :: xs => by
    have := room_filter_le f xs
    rw [List.filter_cons]
    split
    · simp only [room, List.map_cons, List.sum_cons] at this ⊢; omega
    · simp only [room, List.map_cons, List.sum_cons] at this ⊢; omega

theorem room_scan (sep : UInt8) (p : Bytes) : room (scan sep p) ≤ p.length + 1 := room_scanLoop _ _

end Delimited
