import ZorinTrust.Lib.Buffer
import ZorinTrust.Lib.Delimited

/-!
# Interface names out of `/proc/net/dev`

`parse_interfaces` of the agent walks the text line by line, takes the name before the first colon of
every line from the third on, and writes the names, joined by commas, into a buffer of `cap` bytes with
two tests of the room left.  `interfaceNames` is the list the text declares; `parseInterfaces_eq` says
that the buffer ends with the first `cap - 1` bytes of that list, whatever the text.
-/

namespace ZorinTrust

open CText Buffer Delimited

/-- The bytes around a name that are left out. -/
def isBlank (c : UInt8) : Bool := c == 32 || c == 9

/-- The cursors `s` and `z` moved inwards over blanks. -/
def trimBlanks (s : Bytes) : Bytes := (s.dropWhile isBlank).rdropWhile isBlank

/-- The body for one line from the third on. -/
def interfaceLine (cap : ℕ) (line : Bytes) (st : Bytes × ℕ) : Option (Bytes × ℕ) :=
  let name := line.takeWhile (· != 58)
  if name.length < line.length then
    let name := trimBlanks name
    if name ≠ [] then putMember cap 44 name st else some st
  else some st

/-- The `while (*p)` loop; no result when the turns run out or a store misses the buffer. -/
def interfacesLoop (cap : ℕ) : ℕ → ℕ → Bytes → Bytes × ℕ → Option (Bytes × ℕ)
  | 0, _, _, _ => none
  | n + 1, line, p, st =>
    if p = [] then some st
    else
      let body := p.takeWhile (· != 10)
      (if line + 1 > 2 then interfaceLine cap body st else some st).bind fun st =>
        interfacesLoop cap n (line + 1) (p.dropWhile (· != 10)).tail st

/-- `parse_interfaces(in, out, cap)`, for at most `fuel` turns of its loop. -/
def parseInterfaces (fuel : ℕ) (text out : Bytes) (cap : ℕ) : Option Bytes :=
  (interfacesLoop cap fuel 0 text (out, 0)).bind fun st => store st.1 st.2 0

/-! ### The list the text declares -/

/-- The name of a line: the text before the first colon without the blanks around it. -/
def interfaceName (line : Bytes) : Option Bytes :=
  if 58 ∈ line ∧ trimBlanks (line.takeWhile (· != 58)) ≠ [] then
    some (trimBlanks (line.takeWhile (· != 58)))
  else none

/-- The names on lines three onward. -/
def interfaceNames (text : Bytes) : List Bytes := ((text.splitOn 10).drop 2).filterMap interfaceName

/-- No blank at either end. -/
def Trimmed (name : Bytes) : Prop :=
  (∀ c ∈ name.head?, isBlank c = false) ∧ ∀ c ∈ name.getLast?, isBlank c = false

theorem dropWhile_isBlank {s : Bytes} (h : ∀ c ∈ s.head?, isBlank c = false) :
    s.dropWhile isBlank = s := by
  cases s with
  | nil => rfl
  | cons c s => exact List.dropWhile_cons_of_neg (by simpa using h c rfl)

theorem trimBlanks_append {a name b : Bytes} (ha : ∀ c ∈ a, isBlank c = true)
    (hb : ∀ c ∈ b, isBlank c = true) (hne : name ≠ []) (hname : Trimmed name) :
    trimBlanks (a ++ name ++ b) = name := by
  have hhead : ∀ c ∈ (name ++ b).head?, isBlank c = false := by
    rw [List.head?_append_of_ne_nil _ hne]
    exact hname.1
  have hlast : ∀ c ∈ name.reverse.head?, isBlank c = false := by
    rw [List.head?_reverse]
    exact hname.2
  rw [trimBlanks, List.append_assoc, List.dropWhile_append_of_pos ha, dropWhile_isBlank hhead,
    List.rdropWhile, List.reverse_append,
    List.dropWhile_append_of_pos fun c hc => hb c (List.mem_reverse.mp hc),
    dropWhile_isBlank hlast, List.reverse_reverse]

/-- Trimming takes off blanks, and all there are. -/
theorem trimBlanks_eq (s : Bytes) : ∃ a b, s = a ++ trimBlanks s ++ b ∧
    (∀ c ∈ a, isBlank c = true) ∧ (∀ c ∈ b, isBlank c = true) ∧ Trimmed (trimBlanks s) := by
  refine ⟨s.takeWhile isBlank, (s.dropWhile isBlank).rtakeWhile isBlank, ?_,
    fun c hc => List.mem_takeWhile_imp hc, fun c hc => List.mem_rtakeWhile_imp hc, ?_, ?_⟩
  · rw [trimBlanks, List.append_assoc, List.rdropWhile_append_rtakeWhile,
      List.takeWhile_append_dropWhile]
  · intro c hc
    obtain ⟨t, ht⟩ := List.rdropWhile_prefix isBlank (l := s.dropWhile isBlank)
    have hhead : c ∈ (s.dropWhile isBlank).head? := by
      rw [← ht]
      exact List.mem_head?_append_of_mem_head? hc
    have hnot := List.head?_dropWhile_not isBlank s
    rw [Option.mem_def.mp hhead] at hnot
    simpa using hnot
  · intro c hc
    obtain ⟨hne, rfl⟩ := List.mem_getLast?_eq_getLast hc
    exact Bool.eq_false_iff.mpr (List.rdropWhile_last_not isBlank _ hne)

/-- **The name of a line**, told without cursors. -/
theorem interfaceName_eq_some_iff {line name : Bytes} : interfaceName line = some name ↔
    ∃ a b rest, line = a ++ name ++ b ++ 58 :: rest ∧ 58 ∉ a ++ name ++ b ∧
      (∀ c ∈ a, isBlank c = true) ∧ (∀ c ∈ b, isBlank c = true) ∧ name ≠ [] ∧ Trimmed name := by
  unfold interfaceName
  constructor
  · intro h
    split_ifs at h with hline
    obtain ⟨hcolon, hne⟩ := hline
    cases h
    obtain ⟨a, b, heq, ha, hb, htrim⟩ := trimBlanks_eq (line.takeWhile (· != 58))
    refine ⟨a, b, (line.dropWhile (· != 58)).tail, ?_, ?_, ha, hb, hne, htrim⟩
    · rw [← heq]
      rcases firstSegment 58 line with ⟨hall, -⟩ | hsplit
      · exact absurd hcolon (hall ▸ sep_notMem_takeWhile 58 line)
      · exact hsplit
    · rw [← heq]
      exact sep_notMem_takeWhile 58 line
  · rintro ⟨a, b, rest, rfl, hno, ha, hb, hne, htrim⟩
    have hall : ∀ c ∈ a ++ name ++ b, (c != 58) = true := fun c hc => by
      rw [bne_iff_ne]
      rintro rfl
      exact hno hc
    rw [List.takeWhile_append_of_pos hall, List.takeWhile_cons_of_neg (by simp), List.append_nil,
      trimBlanks_append ha hb hne htrim, if_pos ⟨by simp, hne⟩]

/-! ### All lines -/

variable {cap : ℕ} {full : Bytes} {st : Bytes × ℕ}

/-- **One line**: the list grows by the name of the line, if it has one. -/
theorem interfaceLine_holds (line : Bytes) (h : Holds cap full st) :
    ∃ st', interfaceLine cap line st = some st' ∧
      Holds cap ((interfaceName line).toList.foldl (push 44) full) st' := by
  have hcolon : (line.takeWhile (· != 58)).length < line.length ↔ 58 ∈ line := by
    rcases firstSegment 58 line with ⟨hall, -⟩ | hsplit
    · rw [hall]
      exact iff_of_false (lt_irrefl _) (hall ▸ sep_notMem_takeWhile 58 line)
    · refine iff_of_true ?_ (by rw [hsplit]; simp)
      have := congrArg List.length hsplit
      rw [List.length_append, List.length_cons] at this
      omega
  simp only [interfaceLine, interfaceName, hcolon]
  by_cases hc : 58 ∈ line
  swap
  · rw [if_neg hc, if_neg fun hname => hc hname.1]
    exact ⟨st, rfl, h⟩
  rw [if_pos hc]
  generalize trimBlanks (line.takeWhile (· != 58)) = name
  by_cases hname : name = []
  · rw [if_neg (not_not.mpr hname), if_neg fun hboth => hboth.2 hname]
    exact ⟨st, rfl, h⟩
  have hsome : (if 58 ∈ line ∧ name ≠ [] then some name else none) = some name :=
    if_pos ⟨hc, hname⟩
  rw [if_pos hname, hsome, Option.toList_some, List.foldl_cons, List.foldl_nil]
  exact h.putMember 44 name

/-- The names still to come when `line` lines are behind. -/
def namesFrom (line : ℕ) (p : Bytes) : List Bytes :=
  ((p.splitOn 10).drop (2 - line)).filterMap interfaceName

@[simp] theorem interfaceName_nil : interfaceName [] = none := by simp [interfaceName]

@[simp] theorem namesFrom_nil (line : ℕ) : namesFrom line [] = [] := by
  rw [namesFrom, List.splitOn_nil]
  cases 2 - line with
  | zero => rw [List.drop_zero, List.filterMap_cons_none interfaceName_nil, List.filterMap_nil]
  | succ k => rw [List.drop_succ_cons, List.drop_nil, List.filterMap_nil]

theorem filterMap_drop_cons (k : ℕ) (line : Bytes) (ls : List Bytes) :
    ((line :: ls).drop k).filterMap interfaceName =
      (if k = 0 then (interfaceName line).toList else []) ++ (ls.drop (k - 1)).filterMap interfaceName := by
  cases k with
  | zero =>
    rw [List.drop_zero, if_pos rfl, List.filterMap_cons]
    cases interfaceName line <;> rfl
  | succ k => rfl

/-- The first line and the lines behind it. -/
theorem namesFrom_eq (line : ℕ) (p : Bytes) : namesFrom line p =
    (if line + 1 > 2 then (interfaceName (p.takeWhile (· != 10))).toList else []) ++
      namesFrom (line + 1) (p.dropWhile (· != 10)).tail := by
  have hk : line + 1 > 2 ↔ 2 - line = 0 := by omega
  have hsub : 2 - (line + 1) = 2 - line - 1 := by omega
  rcases firstSegment 10 p with ⟨hall, hrest⟩ | hsplit
  · have hno : 10 ∉ p := hall ▸ sep_notMem_takeWhile 10 p
    rw [hrest, hall, List.tail_nil, namesFrom_nil, namesFrom, List.splitOn_eq_singleton hno,
      filterMap_drop_cons, List.drop_nil, List.filterMap_nil]
    simp only [hk]
  · have hseg := sep_notMem_takeWhile 10 p
    generalize p.takeWhile (· != 10) = seg at hsplit hseg ⊢
    generalize (p.dropWhile (· != 10)).tail = rest at hsplit ⊢
    rw [hsplit, namesFrom, List.splitOn_append_cons_self_of_not_mem hseg, filterMap_drop_cons,
      namesFrom, hsub]
    simp only [hk]

theorem interfacesLoop_holds : ∀ (n line : ℕ) (p : Bytes) {full : Bytes} {st : Bytes × ℕ},
    p.length < n → Holds cap full st → ∃ st', interfacesLoop cap n line p st = some st' ∧
      Holds cap ((namesFrom line p).foldl (push 44) full) st'
  | 0, _, _, _, _, hn, _ => absurd hn (Nat.not_lt_zero _)
  | n + 1, line, p, full, st, hn, h => by
    rw [interfacesLoop]
    by_cases hp : p = []
    · subst hp
      exact ⟨st, if_pos rfl, by rwa [namesFrom_nil]⟩
    have hlen : (p.dropWhile (· != 10)).tail.length < n := by
      have hdrop := List.length_dropWhile_le (· != 10) p
      have hpos := List.length_pos_of_ne_nil hp
      rw [List.length_tail]
      omega
    rw [if_neg hp, namesFrom_eq, List.foldl_append]
    by_cases hline : line + 1 > 2
    · obtain ⟨st1, hrun1, h1⟩ := interfaceLine_holds (p.takeWhile (· != 10)) h
      obtain ⟨st', hrun, h'⟩ := interfacesLoop_holds n (line + 1) _ hlen h1
      refine ⟨st', ?_, by rwa [if_pos hline]⟩
      simp only [if_pos hline, hrun1, Option.bind_some, hrun]
    · obtain ⟨st', hrun, h'⟩ := interfacesLoop_holds n (line + 1) _ hlen h
      refine ⟨st', ?_, by rwa [if_neg hline, List.foldl_nil]⟩
      simp only [if_neg hline, Option.bind_some, hrun]

theorem ne_nil_of_mem_interfaceNames {text name : Bytes} (h : name ∈ interfaceNames text) :
    name ≠ [] := by
  obtain ⟨line, -, hline⟩ := List.mem_filterMap.mp h
  unfold interfaceName at hline
  split_ifs at hline with hname
  cases hline
  exact hname.2

theorem zero_notMem_interfaceNames {text name : Bytes} (h0 : 0 ∉ text)
    (h : name ∈ interfaceNames text) : 0 ∉ name := by
  obtain ⟨line, hline, hname⟩ := List.mem_filterMap.mp h
  obtain ⟨a, b, rest, rfl, -⟩ := interfaceName_eq_some_iff.mp hname
  intro hc
  have htext := mem_intercalate [10] (List.mem_of_mem_drop hline) (c := 0) (by simp [hc])
  rw [List.intercalate_splitOn] at htext
  exact h0 htext

/-- **Interface extraction**: for every text the loop ends, no store misses the buffer, and the C string
in it is the first `cap - 1` bytes of the comma-joined names of lines three onward. -/
theorem parseInterfaces_eq {fuel : ℕ} (text out : Bytes) (h0 : 0 ∉ text) (hcap : 1 ≤ cap)
    (hout : out.length = cap) (hfuel : text.length < fuel) :
    ∃ m, parseInterfaces fuel text out cap = some m ∧ m.length = cap ∧ 0 ∈ m ∧
      cstr m = ([44].intercalate (interfaceNames text)).take (cap - 1) := by
  obtain ⟨st, hrun, hst⟩ := interfacesLoop_holds fuel 0 text hfuel (holds_nil hout)
  have hnames : (namesFrom 0 text).foldl (push 44) [] = [44].intercalate (interfaceNames text) :=
    foldl_push_eq_intercalate fun name => ne_nil_of_mem_interfaceNames
  rw [hnames] at hst
  obtain ⟨rest, hstore, hfin⟩ := hst.finish hcap
  have hnul : 0 ∉ [44].intercalate (interfaceNames text) :=
    notMem_intercalate (by decide) fun name => zero_notMem_interfaceNames h0
  refine ⟨_, ?_, hfin.length_eq, by simp, cstr_append rest fun hc => hnul (List.mem_of_mem_take hc)⟩
  rw [parseInterfaces, hrun, Option.bind_some, hstore]

theorem parseInterfaces_eq_two :
    ∃ m, parseInterfaces 64 (lit "Inter-|\n face |\n  lo: 1 2\nbare\n : 3\n\twlan0:4") (List.replicate 6 7) 6 =
        some m ∧ m.length = 6 ∧ 0 ∈ m ∧
      cstr m = ([44].intercalate
        (interfaceNames (lit "Inter-|\n face |\n  lo: 1 2\nbare\n : 3\n\twlan0:4"))).take (6 - 1) ∧
      cstr m = lit "lo,wl" := by
  obtain ⟨m, hrun, hlen, hnul, hm⟩ := parseInterfaces_eq
    (lit "Inter-|\n face |\n  lo: 1 2\nbare\n : 3\n\twlan0:4") (List.replicate 6 7) (by decide)
    (by decide : 1 ≤ 6) rfl (by decide : _ < 64)
  exact ⟨m, hrun, hlen, hnul, hm, hm.trans (by decide)⟩

end ZorinTrust
