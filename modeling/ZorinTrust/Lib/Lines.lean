import ZorinTrust.Lib.CText

/-!
# Line-oriented key-value frames

A frame is a text of lines, a field a line `key value`.  `lines` is the abstract list of non-empty
lines (CR and LF both end a line); `scan key cap` is the one-pass C scanner that returns the value of
the first line whose text before a space is the key, cut to a buffer of `cap` bytes.
`scan_eq_findSome` reduces the scanner to the list of lines, and `scan_frame` evaluates it on a frame
rendered from a list of fields.
-/

namespace Lines

open CText

def isEol (c : UInt8) : Bool := c == 10 || c == 13

/-- Printable bytes end no line. -/
theorem isEol_of_le {c : UInt8} (h : 14 ≤ c) : isEol c = false := by
  rw [isEol, Bool.or_eq_false_iff, beq_eq_false_iff_ne, beq_eq_false_iff_ne]
  constructor <;> rintro rfl <;> exact absurd h (by decide)

theorem isEol_of_all {s : Bytes} (h : s.all (!isEol ·) = true) : ∀ c ∈ s, isEol c = false :=
  fun c hc => by simpa using List.all_eq_true.mp h c hc

/-- The space between a key and its value. -/
abbrev sp : UInt8 := 32

/-- The non-empty lines of a text. -/
def lines (text : Bytes) : List Bytes := (text.splitOnP isEol).filter (· ≠ [])

/-- The test the scanner makes on one line: the key, one space, then the value. -/
def lineField (key : Bytes) (cap : ℕ) (line : Bytes) : Option Bytes :=
  if key.length < line.length ∧ (line.drop key.length).head? = some sp ∧ key.isPrefixOf line then
    some (cut cap (line.drop (key.length + 1)))
  else none

/-- The scanner loop; every turn takes at least one byte off the text. -/
def scanLoop (key : Bytes) (cap : ℕ) : ℕ → Bytes → Option Bytes
  | 0, _ => none
  | n + 1, p =>
    if p = [] then none
    else
      match lineField key cap (p.takeWhile (!isEol ·)) with
      | some v => some v
      | none => scanLoop key cap n ((p.dropWhile (!isEol ·)).dropWhile isEol)

def scan (key : Bytes) (cap : ℕ) (text : Bytes) : Option Bytes := scanLoop key cap text.length text

/-! ### The scanner and the list of lines -/

@[simp] theorem lines_nil : lines [] = [] := by simp [lines]

theorem lines_append {c : UInt8} (a b : Bytes) (hc : isEol c = true) :
    lines (a ++ c :: b) = lines a ++ lines b := by
  simp [lines, List.splitOnP_append_cons _ _ hc]

theorem lines_single {a : Bytes} (h : ∀ c ∈ a, isEol c = false) (ha : a ≠ []) : lines a = [a] := by
  simp [lines, List.splitOnP_eq_singleton h, ha]

theorem lines_line {a b : Bytes} (h : ∀ c ∈ a, isEol c = false) (ha : a ≠ []) :
    lines (a ++ 10 :: b) = a :: lines b := by
  rw [lines_append a b rfl, lines_single h ha, List.singleton_append]

/-- A text up to its first line end, and what comes then. -/
theorem lines_cons {a b : Bytes} (h : ∀ c ∈ a, isEol c = false) (ha : a ≠ [])
    (hb : ∀ c ∈ b.head?, isEol c = true) : lines (a ++ b) = a :: lines b := by
  cases b with
  | nil => rw [List.append_nil, lines_single h ha, lines_nil]
  | cons c b =>
    have hc : isEol c = true := hb c rfl
    have hcb : lines (c :: b) = lines b := by simpa using lines_append [] b hc
    rw [lines_append a b hc, lines_single h ha, hcb, List.singleton_append]

theorem lines_dropWhile : ∀ p : Bytes, lines (p.dropWhile isEol) = lines p
  | [] => rfl
  | c :: p => by
    by_cases hc : isEol c = true
    · rw [List.dropWhile_cons_of_pos hc, lines_dropWhile p]
      simpa using (lines_append [] p hc).symm
    · rw [List.dropWhile_cons_of_neg hc]

@[simp] theorem lineField_nil (key : Bytes) (cap : ℕ) : lineField key cap [] = none := by
  simp [lineField]

theorem scanLoop_eq (key : Bytes) (cap : ℕ) : ∀ (n : ℕ) (p : Bytes), p.length ≤ n →
    scanLoop key cap n p = (lines p).findSome? (lineField key cap)
  | 0, p, h => by
    obtain rfl : p = [] := List.length_eq_zero_iff.mp (by omega)
    simp [scanLoop]
  | n + 1, p, h => by
    by_cases hp : p = []
    · subst hp; simp [scanLoop]
    rw [scanLoop, if_neg hp]
    have happ := List.takeWhile_append_dropWhile (p := (!isEol ·)) (l := p)
    have hline : ∀ c ∈ p.takeWhile (!isEol ·), isEol c = false := fun c hc => by
      simpa using List.mem_takeWhile_imp hc
    generalize p.takeWhile (!isEol ·) = line at happ hline ⊢
    cases hd : p.dropWhile (!isEol ·) with
    | nil =>
      rw [hd, List.append_nil] at happ
      subst happ
      rw [lines_single hline hp, List.findSome?_cons, List.findSome?_nil]
      cases lineField key cap line with
      | some v => rfl
      | none => cases n <;> simp [scanLoop]
    | cons c rest =>
      have hne : p.dropWhile (!isEol ·) ≠ [] := by rw [hd]; exact List.cons_ne_nil _ _
      have hc : isEol c = true := by
        have := List.head_dropWhile_not (!isEol ·) hne
        simpa [hd] using this
      rw [hd] at happ
      have hlen : rest.length ≤ n := by
        have := congrArg List.length happ
        simp only [List.length_append, List.length_cons] at this
        omega
      have hsub : ((c :: rest).dropWhile isEol).length ≤ n := by
        rw [List.dropWhile_cons_of_pos hc]
        exact (List.length_dropWhile_le _ _).trans hlen
      rw [scanLoop_eq key cap n _ hsub, lines_dropWhile, ← happ, lines_append _ _ hc]
      have hcr : lines (c :: rest) = lines rest := by simpa using lines_append [] rest hc
      by_cases hl : line = []
      · simp [hl, hcr]
      · rw [lines_single hline hl, List.singleton_append, List.findSome?_cons, hcr]
        cases lineField key cap line <;> rfl

/-- **The scanner returns the first matching line's value.** -/
theorem scan_eq_findSome (key : Bytes) (cap : ℕ) (text : Bytes) :
    scan key cap text = (lines text).findSome? (lineField key cap) :=
  scanLoop_eq key cap _ _ le_rfl

/-- The value of a field without any buffer: what the sender wrote after the key. -/
def field (key text : Bytes) : Option Bytes :=
  (lines text).findSome? fun line => lineField key (line.length + 1) line

theorem lineField_eq_cut (key : Bytes) (cap : ℕ) (line : Bytes) :
    lineField key cap line = (lineField key (line.length + 1) line).map (cut cap) := by
  unfold lineField
  split_ifs with h
  · have hlen : (line.drop (key.length + 1)).length < line.length + 1 := by
      rw [List.length_drop]; omega
    rw [Option.map_some, cut_of_lt hlen]
  · rfl

/-- A buffer keeps the beginning of the field. -/
theorem scan_eq_field (key : Bytes) (cap : ℕ) (text : Bytes) :
    scan key cap text = (field key text).map (cut cap) := by
  rw [scan_eq_findSome, field]
  induction lines text with
  | nil => rfl
  | cons line ls ih =>
    rw [List.findSome?_cons, List.findSome?_cons, lineField_eq_cut key cap line, ih]
    cases lineField key (line.length + 1) line <;> rfl

theorem lineField_length {key line v : Bytes} {cap : ℕ} (h0 : 0 < cap)
    (h : lineField key cap line = some v) : v.length < cap := by
  unfold lineField at h
  split_ifs at h
  cases h
  exact length_cut_lt h0 _

/-- A value never overruns its buffer. -/
theorem scan_length {key text v : Bytes} {cap : ℕ} (h0 : 0 < cap)
    (h : scan key cap text = some v) : v.length < cap := by
  rw [scan_eq_findSome] at h
  obtain ⟨line, -, hl⟩ := List.exists_of_findSome?_eq_some h
  exact lineField_length h0 hl

theorem mem_of_scanLoop {key v : Bytes} {cap : ℕ} {c : UInt8} (hc : c ∈ v) :
    ∀ {n : ℕ} {p : Bytes}, scanLoop key cap n p = some v → c ∈ p
  | 0, _, h => by simp [scanLoop] at h
  | n + 1, p, h => by
    rw [scanLoop] at h
    split_ifs at h with hp
    split at h
    · rename_i v' hv
      cases h
      unfold lineField at hv
      split_ifs at hv
      cases hv
      exact (List.takeWhile_prefix _).subset (List.mem_of_mem_drop (List.mem_of_mem_take hc))
    · have := mem_of_scanLoop hc h
      exact (List.dropWhile_suffix _).subset ((List.dropWhile_suffix _).subset this)

/-- The bytes of a value are bytes of the text. -/
theorem mem_of_scan {key text v : Bytes} {cap : ℕ} (h : scan key cap text = some v) {c : UInt8}
    (hc : c ∈ v) : c ∈ text := mem_of_scanLoop hc h

/-! ### Frames rendered from fields -/

/-- One field as a line, without its line end. -/
def fieldText (f : String × Bytes) : Bytes := lit f.1 ++ sp :: f.2

/-- A field whose line reads back: no line end inside, no space in the key. -/
structure FieldOk (f : String × Bytes) : Prop where
  key_eol : ∀ c ∈ lit f.1, isEol c = false
  key_sp : sp ∉ lit f.1
  val_eol : ∀ c ∈ f.2, isEol c = false

theorem fieldOk_of_key {key : String} {v : Bytes} (hkey : (lit key).all (fun c => !isEol c && c != sp) = true)
    (hv : ∀ c ∈ v, isEol c = false) : FieldOk (key, v) := by
  rw [List.all_eq_true] at hkey
  refine ⟨fun c hc => ?_, fun hc => ?_, hv⟩
  · have := hkey c hc
    rw [Bool.and_eq_true, Bool.not_eq_true'] at this
    exact this.1
  · have := hkey sp hc
    simp at this

theorem FieldOk.text_eol {f : String × Bytes} (h : FieldOk f) : ∀ c ∈ fieldText f, isEol c = false := by
  intro c hc
  rcases List.mem_append.mp hc with hc | hc
  · exact h.key_eol c hc
  · rcases List.mem_cons.mp hc with rfl | hc
    · rfl
    · exact h.val_eol c hc

/-- A byte of a rendered frame is a space, a line feed, or a byte of one of its texts. -/
theorem notMem_frame {c : UInt8} {head tail : Bytes} {fs : List (String × Bytes)} (h10 : c ≠ 10)
    (hsp : c ≠ sp) (hhead : c ∉ head) (hfs : ∀ f ∈ fs, c ∉ lit f.1 ∧ c ∉ f.2) (htail : c ∉ tail) :
    c ∉ head ++ 10 :: (fs.flatMap (fun f => fieldText f ++ [10]) ++ (tail ++ [10])) := by
  have hfields : ∀ f ∈ fs, c ∉ fieldText f ++ [10] := fun f hf => by
    obtain ⟨hkey, hval⟩ := hfs f hf
    simp [fieldText, hkey, hval, h10, hsp]
  simp only [List.mem_append, List.mem_cons, List.mem_flatMap, List.not_mem_nil, h10, hhead, htail,
    or_self, or_false, false_or]
  rintro ⟨f, hf, hc⟩
  exact hfields f hf (by simpa [h10] using hc)

theorem length_fields : ∀ fs : List (String × Bytes),
    (fs.flatMap fun f => fieldText f ++ [10]).length =
      (fs.map fun f => (lit f.1).length + 2).sum + (fs.map fun f => f.2.length).sum
  | [] => rfl
  | f :: fs => by
    have := length_fields fs
    simp only [List.flatMap_cons, List.length_append, List.length_nil, List.map_cons,
      List.sum_cons, fieldText, List.length_cons] at this ⊢
    omega

/-- The scanner's test decides the key of a field line, whatever the value holds. -/
theorem lineField_fieldText {key : Bytes} {f : String × Bytes} {cap : ℕ} (hk : sp ∉ key)
    (hf : sp ∉ lit f.1) :
    lineField key cap (fieldText f) = if lit f.1 = key then some (cut cap f.2) else none := by
  by_cases h : lit f.1 = key
  · rw [if_pos h, lineField, fieldText, h, if_pos]
    · simp
    · simp
  · rw [if_neg h, lineField, if_neg]
    rintro ⟨-, hsp, hpre⟩
    obtain ⟨t, ht⟩ := List.isPrefixOf_iff_prefix.mp hpre
    rw [← ht, List.drop_left] at hsp
    cases t with
    | nil => simp at hsp
    | cons c t =>
      obtain rfl : c = sp := by simpa using hsp
      exact h (append_sep_inj_of_notMem ht hk hf).1.symm

/-- A line without a space is no field. -/
theorem lineField_of_noSp {key line : Bytes} {cap : ℕ} (h : sp ∉ line) :
    lineField key cap line = none := by
  rw [lineField, if_neg]
  rintro ⟨-, hsp, -⟩
  exact h (List.mem_of_mem_drop (List.mem_of_head? hsp))

/-- The first value a list of fields gives a key. -/
def lookup (key : Bytes) (cap : ℕ) (fs : List (String × Bytes)) : Option Bytes :=
  fs.findSome? fun f => if lit f.1 = key then some (cut cap f.2) else none

/-- The field at a position is the one its key finds, unless the key stands before it. -/
theorem lookup_of_getElem (cap : ℕ) {key : String} {v : Bytes} :
    ∀ {fs : List (String × Bytes)} {i : ℕ}, fs[i]? = some (key, v) →
      (∀ k ∈ (fs.map Prod.fst).take i, lit k ≠ lit key) → lookup (lit key) cap fs = some (cut cap v)
  | [], i, h, _ => by simp at h
  | f :: fs, 0, h, _ => by
    simp only [List.getElem?_cons_zero, Option.some.injEq] at h
    simp [lookup, h]
  | f :: fs, i + 1, h, hb => by
    simp only [List.map_cons, List.take_succ_cons, List.forall_mem_cons] at hb
    rw [List.getElem?_cons_succ] at h
    have ih := lookup_of_getElem cap h hb.2
    simp only [lookup, List.findSome?_cons, if_neg hb.1] at ih ⊢
    exact ih

theorem lines_fields (rest : Bytes) : ∀ fs : List (String × Bytes), (∀ f ∈ fs, FieldOk f) →
    lines (fs.flatMap (fun f => fieldText f ++ [10]) ++ rest) = fs.map fieldText ++ lines rest
  | [], _ => rfl
  | f :: fs, h => by
    have ih := lines_fields rest fs fun g hg => h g (List.mem_cons_of_mem _ hg)
    have hne : fieldText f ≠ [] := by simp [fieldText]
    have hsplit : (f :: fs).flatMap (fun f => fieldText f ++ [10]) ++ rest =
        fieldText f ++ 10 :: (fs.flatMap (fun f => fieldText f ++ [10]) ++ rest) := by simp
    rw [hsplit, lines_line (h f List.mem_cons_self).text_eol hne, ih, List.map_cons, List.cons_append]

theorem findSome_fields {key : Bytes} (cap : ℕ) (hk : sp ∉ key) :
    ∀ fs : List (String × Bytes), (∀ f ∈ fs, FieldOk f) →
      (fs.map fieldText).findSome? (lineField key cap) = lookup key cap fs
  | [], _ => rfl
  | f :: fs, h => by
    have ih := findSome_fields cap hk fs fun g hg => h g (List.mem_cons_of_mem _ hg)
    rw [List.map_cons, List.findSome?_cons, lineField_fieldText hk (h f List.mem_cons_self).key_sp, ih]
    simp only [lookup, List.findSome?_cons]

theorem findSome_lines_fields {key : Bytes} (cap : ℕ) (hk : sp ∉ key) (rest : Bytes)
    (fs : List (String × Bytes)) (h : ∀ f ∈ fs, FieldOk f) :
    (lines (fs.flatMap (fun f => fieldText f ++ [10]) ++ rest)).findSome? (lineField key cap) =
      (lookup key cap fs).or ((lines rest).findSome? (lineField key cap)) := by
  rw [lines_fields rest fs h, List.findSome?_append, findSome_fields cap hk fs h]

/-- A line that is a field is the one its key and value render. -/
theorem fieldText_eq_iff {f g : String × Bytes} (hf : sp ∉ lit f.1) (hg : sp ∉ lit g.1) :
    fieldText f = fieldText g ↔ lit f.1 = lit g.1 ∧ f.2 = g.2 := by
  constructor
  · intro h
    exact append_sep_inj_of_notMem h hf hg
  · rintro ⟨hkey, hval⟩
    rw [fieldText, fieldText, hkey, hval]

/-- **Reading a rendered frame**: a header line, the fields, a trailer line. -/
theorem scan_frame {key head tail : Bytes} {cap : ℕ} {fs : List (String × Bytes)} (hk : sp ∉ key)
    (hhead : ∀ c ∈ head, isEol c = false) (hhead0 : head ≠ []) (hheadsp : sp ∉ head)
    (htail : ∀ c ∈ tail, isEol c = false) (htailsp : sp ∉ tail)
    (hfs : ∀ f ∈ fs, FieldOk f) :
    scan key cap (head ++ 10 :: (fs.flatMap (fun f => fieldText f ++ [10]) ++ (tail ++ [10]))) =
      lookup key cap fs := by
  have htl : (lines (tail ++ [10])).findSome? (lineField key cap) = none := by
    by_cases h : tail = []
    · subst h; simpa using congrArg (List.findSome? (lineField key cap)) (lines_append [] [] rfl)
    · rw [lines_line htail h, lines_nil, List.findSome?_cons, lineField_of_noSp htailsp]
      rfl
  rw [scan_eq_findSome, lines_line hhead hhead0, List.findSome?_cons, lineField_of_noSp hheadsp,
    findSome_lines_fields cap hk _ fs hfs, htl, Option.or_none]

/-- With distinct keys every field is the one its key finds. -/
theorem lookup_of_nodup {fs : List (String × Bytes)} (hd : (fs.map fun f => lit f.1).Nodup) {i : ℕ}
    {key : String} {v : Bytes} (hat : fs[i]? = some (key, v)) (cap : ℕ) :
    lookup (lit key) cap fs = some (cut cap v) := by
  apply lookup_of_getElem cap hat
  intro k hk heq
  rw [← List.map_take, List.mem_map] at hk
  obtain ⟨f, hf, rfl⟩ := hk
  obtain ⟨j, hj, hfj⟩ := List.mem_take_iff_getElem.mp hf
  obtain ⟨hi, hat⟩ := List.getElem?_eq_some_iff.mp hat
  have hji : j = i := by
    rw [List.nodup_iff_injective_get] at hd
    have hinj := @hd ⟨j, by rw [List.length_map]; omega⟩ ⟨i, by rw [List.length_map]; omega⟩
    simp only [List.get_eq_getElem, List.getElem_map, Fin.mk.injEq] at hinj
    apply hinj
    rw [hfj, hat]
    exact heq
  omega

/-! ### Frames cut short -/

/-- Where the value of field `i` starts in the rendered fields. -/
def valueStart : List (String × Bytes) → ℕ → ℕ
  | [], _ => 0
  | f :: _, 0 => (lit f.1).length + 1
  | f :: fs, i + 1 => (fieldText f).length + 1 + valueStart fs i

theorem length_fieldText (f : String × Bytes) :
    (fieldText f).length = (lit f.1).length + 1 + f.2.length := by
  rw [fieldText, List.length_append, List.length_cons]
  omega

theorem findSome_lines_single {α : Type*} {p : Bytes → Option α} {a : Bytes}
    (h : ∀ c ∈ a, isEol c = false) (hp : p [] = none) : (lines a).findSome? p = p a := by
  by_cases ha : a = []
  · rw [ha, lines_nil, List.findSome?_nil, hp]
  · rw [lines_single h ha, List.findSome?_cons, List.findSome?_nil]
    cases p a <;> rfl

/-- A field line cut short still shows its key once the space is there, and as much of the value as
came along. -/
theorem lineField_take {key : Bytes} {f : String × Bytes} {cap : ℕ} (hk : sp ∉ key)
    (hf : sp ∉ lit f.1) (n : ℕ) : lineField key cap ((fieldText f).take n) =
      if lit f.1 = key ∧ key.length < n then some (cut cap (f.2.take (n - (key.length + 1)))) else none := by
  by_cases hn : n ≤ (lit f.1).length
  · -- the cut comes before the space
    have hnosp : sp ∉ (fieldText f).take n := by
      rw [fieldText, List.take_append_of_le_length hn]
      exact fun hc => hf (List.mem_of_mem_take hc)
    rw [lineField_of_noSp hnosp, if_neg]
    rintro ⟨rfl, hlt⟩
    omega
  · obtain ⟨m, hm⟩ : ∃ m, n - (lit f.1).length = m + 1 := ⟨n - (lit f.1).length - 1, by omega⟩
    have hcut : (fieldText f).take n = fieldText (f.1, f.2.take m) := by
      rw [fieldText, fieldText, List.take_append, List.take_of_length_le (by omega), hm,
        List.take_succ_cons]
    rw [hcut, lineField_fieldText (f := (f.1, f.2.take m)) hk hf]
    by_cases heq : lit f.1 = key
    · have hval : n - (key.length + 1) = m := by rw [← heq]; omega
      rw [if_pos heq, if_pos ⟨heq, by rw [← heq]; omega⟩, hval]
    · rw [if_neg heq, if_neg fun h => heq h.1]

/-- A later field has another key than the first. -/
theorem key_ne_of_notMem {f : String × Bytes} {fs : List (String × Bytes)} {i : ℕ} {key : String} {v : Bytes}
    (h : lit f.1 ∉ fs.map fun f => lit f.1) (hat : fs[i]? = some (key, v)) : lit f.1 ≠ lit key := by
  intro heq
  apply h
  rw [heq]
  exact List.mem_map_of_mem (f := fun f : String × Bytes => lit f.1) (List.mem_of_getElem? hat)

/-- A cut inside the first field: it shows the beginning of that field, and no other. -/
theorem findSome_line_take {key : String} {v : Bytes} (cap : ℕ) (hk : sp ∉ lit key)
    {f : String × Bytes} {fs : List (String × Bytes)} {i n : ℕ} (hf : FieldOk f)
    (hd : lit f.1 ∉ fs.map fun f => lit f.1) (hat : (f :: fs)[i]? = some (key, v))
    (hn : n ≤ (fieldText f).length) :
    (lines ((fieldText f).take n)).findSome? (lineField (lit key) cap) =
      if n < valueStart (f :: fs) i then none
      else some (cut cap (v.take (n - valueStart (f :: fs) i))) := by
  have hlen := length_fieldText f
  have heol : ∀ c ∈ (fieldText f).take n, isEol c = false :=
    fun c hc => hf.text_eol c (List.mem_of_mem_take hc)
  rw [findSome_lines_single heol (lineField_nil _ _), lineField_take hk hf.key_sp]
  cases i with
  | zero =>
    simp only [List.getElem?_cons_zero, Option.some.injEq] at hat
    subst hat
    have hstart : valueStart ((key, v) :: fs) 0 = (lit key).length + 1 := rfl
    rw [hstart]
    simp only [true_and]
    by_cases hlt : (lit key).length < n
    · rw [if_pos hlt, if_neg (by omega)]
    · rw [if_neg hlt, if_pos (by omega)]
  | succ i =>
    rw [List.getElem?_cons_succ] at hat
    rw [if_neg fun h => key_ne_of_notMem hd hat h.1, valueStart, if_pos (by omega)]

/-- What the first `n` bytes of the fields show of field `i`. -/
theorem findSome_lines_take {key : String} {v : Bytes} (cap : ℕ) (hk : sp ∉ lit key) (rest : Bytes) :
    ∀ (fs : List (String × Bytes)) (i n : ℕ), (∀ f ∈ fs, FieldOk f) →
      (fs.map fun f => lit f.1).Nodup → fs[i]? = some (key, v) →
      (lines ((fs.flatMap (fun f => fieldText f ++ [10]) ++ rest).take n)).findSome?
          (lineField (lit key) cap) =
        if n < valueStart fs i then none else some (cut cap (v.take (n - valueStart fs i)))
  | [], i, n, _, _, h => by simp at h
  | f :: fs, i, n, hok, hd, hat => by
    have hf := hok f List.mem_cons_self
    have hlen := length_fieldText f
    rw [List.map_cons, List.nodup_cons] at hd
    have hsplit : (f :: fs).flatMap (fun f => fieldText f ++ [10]) ++ rest =
        fieldText f ++ 10 :: (fs.flatMap (fun f => fieldText f ++ [10]) ++ rest) := by simp
    rw [hsplit]
    by_cases hn : n ≤ (fieldText f).length
    · rw [List.take_append_of_le_length hn]
      exact findSome_line_take cap hk hf hd.1 hat hn
    · obtain ⟨m, hm⟩ : ∃ m, n - (fieldText f).length = m + 1 :=
        ⟨n - (fieldText f).length - 1, by omega⟩
      rw [List.take_append, List.take_of_length_le (by omega), hm, List.take_succ_cons,
        lines_line hf.text_eol (by simp [fieldText]), List.findSome?_cons,
        lineField_fieldText hk hf.key_sp]
      cases i with
      | zero =>
        simp only [List.getElem?_cons_zero, Option.some.injEq] at hat
        subst hat
        have hstart : valueStart ((key, v) :: fs) 0 = (lit key).length + 1 := rfl
        rw [if_pos rfl]
        dsimp only at hlen ⊢
        rw [hstart, if_neg (by omega), List.take_of_length_le (by omega)]
      | succ i =>
        rw [List.getElem?_cons_succ] at hat
        have ih := findSome_lines_take cap hk rest fs i m
          (fun g hg => hok g (List.mem_cons_of_mem _ hg)) hd.2 hat
        rw [if_neg (key_ne_of_notMem hd.1 hat)]
        dsimp only
        rw [ih, valueStart]
        by_cases hlt : m < valueStart fs i
        · rw [if_pos hlt, if_pos (by omega)]
        · rw [if_neg hlt, if_neg (by omega),
            show n - ((fieldText f).length + 1 + valueStart fs i) = m - valueStart fs i by omega]

/-- **Reading a frame that is cut short**: a field is found once its value starts, and the value is as
long as the cut leaves it. -/
theorem scan_take {key : String} {v head rest : Bytes} {cap i : ℕ} {fs : List (String × Bytes)}
    (hhead : ∀ c ∈ head, isEol c = false) (hhead0 : head ≠ []) (hheadsp : sp ∉ head)
    (hfs : ∀ f ∈ fs, FieldOk f) (hd : (fs.map fun f => lit f.1).Nodup)
    (hat : fs[i]? = some (key, v)) (n : ℕ) :
    scan (lit key) cap ((head ++ 10 :: (fs.flatMap (fun f => fieldText f ++ [10]) ++ rest)).take n) =
      if n < head.length + 1 + valueStart fs i then none
      else some (cut cap (v.take (n - (head.length + 1 + valueStart fs i)))) := by
  have hk : sp ∉ lit key := (hfs _ (List.mem_of_getElem? hat)).key_sp
  rw [scan_eq_findSome]
  by_cases hn : n ≤ head.length
  · have heol : ∀ c ∈ head.take n, isEol c = false := fun c hc => hhead c (List.mem_of_mem_take hc)
    have hnosp : sp ∉ head.take n := fun hc => hheadsp (List.mem_of_mem_take hc)
    rw [List.take_append_of_le_length hn, findSome_lines_single heol (lineField_nil _ _),
      lineField_of_noSp hnosp, if_pos (by omega)]
  · obtain ⟨m, hm⟩ : ∃ m, n - head.length = m + 1 := ⟨n - head.length - 1, by omega⟩
    rw [List.take_append, List.take_of_length_le (by omega), hm, List.take_succ_cons,
      lines_line hhead hhead0, List.findSome?_cons, lineField_of_noSp hheadsp]
    dsimp only
    rw [findSome_lines_take cap hk rest fs i m hfs hd hat]
    by_cases hlt : m < valueStart fs i
    · rw [if_pos hlt, if_pos (by omega)]
    · rw [if_neg hlt, if_neg (by omega),
        show n - (head.length + 1 + valueStart fs i) = m - valueStart fs i by omega]

end Lines
