import Mathlib

/-!
# Byte strings as C programs hold them

A C string is the bytes of a buffer before the first NUL.  `CStr cap` is the content of a
`char[cap]`: NUL-free and shorter than the buffer, so a value that overruns its buffer cannot be
built.  `CStr.put` is what `snprintf("%s")` and the usual bounded copy loops leave in the buffer.
-/

namespace CText

abbrev Bytes := List UInt8

/-- The bytes of an ASCII literal. -/
def lit (s : String) : Bytes := s.toList.map fun c => UInt8.ofNat c.toNat

/-- The C string at the start of a byte sequence: everything before the first NUL. -/
def cstr (b : Bytes) : Bytes := b.takeWhile fun c => c != 0

/-- The text `snprintf` leaves in a buffer of `cap` bytes when it renders `text`. -/
def cut (cap : ℕ) (text : Bytes) : Bytes := text.take (cap - 1)

/-- `strstr(hay, needle) != 0`. -/
def strstr : Bytes → Bytes → Bool
  | [], needle => needle.isPrefixOf []
  | c :: hay, needle => needle.isPrefixOf (c :: hay) || strstr hay needle

theorem strstr_iff {needle : Bytes} : ∀ {hay : Bytes}, strstr hay needle = true ↔ needle <:+: hay
  | [] => by simp [strstr]
  | c :: hay => by
    rw [strstr, Bool.or_eq_true, List.isPrefixOf_iff_prefix, @strstr_iff needle hay,
      List.infix_cons_iff]

theorem zero_notMem_cstr (b : Bytes) : 0 ∉ cstr b := by
  intro h
  have := List.mem_takeWhile_imp h
  simp at this

theorem cstr_of_nulFree {b : Bytes} (h : 0 ∉ b) : cstr b = b := by
  refine List.takeWhile_eq_self_iff.mpr fun c hc => ?_
  have : c ≠ 0 := by rintro rfl; exact h hc
  simpa using this

theorem cstr_isPrefix (b : Bytes) : cstr b <+: b := List.takeWhile_prefix _

theorem cstr_eq_self_iff {b : Bytes} : cstr b = b ↔ 0 ∉ b :=
  ⟨fun h => h ▸ zero_notMem_cstr b, cstr_of_nulFree⟩

theorem cut_of_lt {cap : ℕ} {t : Bytes} (h : t.length < cap) : cut cap t = t :=
  List.take_of_length_le (by omega)

/-- A text that does not fill the buffer was not cut. -/
theorem cut_eq_iff {cap : ℕ} {x y : Bytes} (h : y.length + 1 < cap) : cut cap x = y ↔ x = y := by
  constructor
  · intro hcut
    have hlen := congrArg List.length hcut
    rw [cut, List.length_take] at hlen
    rw [← hcut, cut_of_lt (by omega)]
  · rintro rfl
    exact cut_of_lt (by omega)

theorem length_cut_lt {cap : ℕ} (h : 0 < cap) (t : Bytes) : (cut cap t).length < cap := by
  simp only [cut, List.length_take]; omega

/-- The content of a `char[cap]` buffer. -/
structure CStr (cap : ℕ) where
  val : Bytes
  nulFree : 0 ∉ val
  fits : val.length < cap
  deriving DecidableEq

namespace CStr

variable {cap : ℕ}

@[ext] theorem ext {a b : CStr cap} (h : a.val = b.val) : a = b := by
  cases a; cases b; cases h; rfl

/-- Copy a byte sequence into the buffer: up to its first NUL, cut to the capacity. -/
def put (cap : ℕ) [NeZero cap] (b : Bytes) : CStr cap where
  val := cut cap (cstr b)
  nulFree h := zero_notMem_cstr b (List.mem_of_mem_take h)
  fits := length_cut_lt (Nat.pos_of_ne_zero (NeZero.ne cap)) _

@[simp] theorem put_val [NeZero cap] (b : Bytes) : (put cap b).val = cut cap (cstr b) := rfl

/-- A text that is NUL-free and short enough is stored as it is. -/
theorem put_val_of_fits [NeZero cap] {b : Bytes} (h0 : 0 ∉ b) (h : b.length < cap) :
    (put cap b).val = b := by
  rw [put_val, cstr_of_nulFree h0, cut_of_lt h]

/-- Copying a buffer into one at least as large keeps its text. -/
@[simp] theorem put_val_self [NeZero cap] (s : CStr cap) : put cap s.val = s :=
  ext (put_val_of_fits s.nulFree s.fits)

end CStr

/-! ### Texts joined by a separator -/

section Separator

variable {α : Type*} [DecidableEq α] {sep : α}

/-- Two splits of one text at a separator agree when the left parts hold equally many separators. -/
theorem append_sep_inj {a b x y : List α} (h : a ++ sep :: x = b ++ sep :: y)
    (hc : a.count sep = b.count sep) : a = b ∧ x = y := by
  rcases List.append_eq_append_iff.mp h with ⟨t, hb, hx⟩ | ⟨t, ha, hy⟩
  · cases t with
    | nil =>
      simp only [List.nil_append, List.cons.injEq, true_and] at hx
      exact ⟨by simpa using hb.symm, hx⟩
    | cons c t =>
      obtain ⟨rfl, -⟩ := List.cons_eq_cons.mp hx
      rw [hb] at hc
      simp at hc
  · cases t with
    | nil =>
      simp only [List.nil_append, List.cons.injEq, true_and] at hy
      exact ⟨by simpa using ha, hy.symm⟩
    | cons c t =>
      obtain ⟨rfl, -⟩ := List.cons_eq_cons.mp hy
      rw [ha] at hc
      simp at hc

/-- The separator-free special case: the left part is determined. -/
theorem append_sep_inj_of_notMem {a b x y : List α} (h : a ++ sep :: x = b ++ sep :: y)
    (ha : sep ∉ a) (hb : sep ∉ b) : a = b ∧ x = y :=
  append_sep_inj h (by rw [List.count_eq_zero_of_not_mem ha, List.count_eq_zero_of_not_mem hb])

/-- Two splits of one text at a separator agree when the right parts hold equally many separators. -/
theorem append_sep_inj_right {a b x y : List α} (h : a ++ sep :: x = b ++ sep :: y)
    (hc : x.count sep = y.count sep) : a = b ∧ x = y := by
  apply append_sep_inj h
  have hcount := congrArg (List.count sep) h
  simp only [List.count_append, List.count_cons_self] at hcount
  omega

end Separator

end CText
