import ZorinTrust.Lib.CText

/-!
# Decimal numerals over bytes

`decimalVal` is the integer a numeral denotes, without bound.  `readDigits w` is the accumulator
loop of a C parser whose variable has `w` bits in two's complement: it multiplies by ten, adds the
digit, and stops at the first byte that is not a digit.  `readDigits_eq` says that the loop computes
the value of the leading digits modulo `2 ^ w`.
-/

namespace Numeral

open CText

def isDigit (c : UInt8) : Bool := 48 ≤ c && c ≤ 57

/-- The value of a digit string read after `v`. -/
def digitsVal (v : ℕ) (ds : Bytes) : ℕ := ds.foldl (fun v c => v * 10 + (c.toNat - 48)) v

/-- An optional minus sign, then at least one digit, then nothing. -/
def isDecimal : Bytes → Bool
  | 45 :: ds => !ds.isEmpty && ds.all isDigit
  | ds => !ds.isEmpty && ds.all isDigit

/-- The integer a decimal numeral denotes. -/
def decimalVal : Bytes → ℤ
  | 45 :: ds => -(digitsVal 0 ds : ℤ)
  | ds => digitsVal 0 ds

/-- Two's complement of width `w`. -/
def wrap (w : ℕ) (x : ℤ) : ℤ := x.bmod (2 ^ w)

/-- `while (*s >= '0' && *s <= '9') v = v * 10 + (*s++ - '0')` on a `w`-bit variable. -/
def readDigits (w : ℕ) : ℤ → Bytes → ℤ
  | v, [] => v
  | v, c :: s => if isDigit c then readDigits w (wrap w (v * 10 + (c.toNat - 48 : ℕ))) s else v

variable {w : ℕ}

theorem wrap_mul_add (x y z : ℤ) : wrap w (wrap w x * y + z) = wrap w (x * y + z) := by
  simp only [wrap]
  rw [← Int.bmod_add_bmod, Int.bmod_mul_bmod, Int.bmod_add_bmod]

theorem wrap_neg (x : ℤ) : wrap w (-(wrap w x)) = wrap w (-x) := Int.bmod_neg_bmod

/-- The window of `w`-bit two's complement. -/
theorem wrap_mem (hw : 0 < w) (x : ℤ) : -(2 ^ (w - 1)) ≤ wrap w x ∧ wrap w x < 2 ^ (w - 1) := by
  have h2 : (2 : ℤ) ^ w = 2 * 2 ^ (w - 1) := by
    rw [← pow_succ', Nat.sub_add_cancel hw]
  have hpos : 0 < 2 ^ w := by positivity
  have hl := Int.le_bmod (x := x) hpos
  have hu := Int.bmod_lt (x := x) hpos
  simp only [wrap]
  push_cast at hl hu
  omega

theorem wrap_eq_self_iff (hw : 0 < w) {x : ℤ} :
    wrap w x = x ↔ -(2 ^ (w - 1)) ≤ x ∧ x < 2 ^ (w - 1) := by
  constructor
  · intro h
    rw [← h]
    exact wrap_mem hw x
  · rintro ⟨hl, hu⟩
    have h2 : (2 : ℤ) ^ w = 2 * 2 ^ (w - 1) := by
      rw [← pow_succ', Nat.sub_add_cancel hw]
    apply Int.bmod_eq_of_le
    · push_cast; omega
    · push_cast; omega

/-- A wrapped value differs from the integer by a multiple of `2 ^ w`. -/
theorem exists_wrap_eq (x : ℤ) : ∃ k : ℤ, wrap w x = x + k * 2 ^ w := by
  refine ⟨-(x.bdiv (2 ^ w)), ?_⟩
  have h := Int.bmod_eq_self_sub_bdiv_mul x (2 ^ w)
  push_cast at h
  rw [wrap, h]
  ring

/-- **The parser loop is exact modulo `2 ^ w`** on the leading digits. -/
theorem readDigits_eq : ∀ (s : Bytes) (v : ℕ),
    readDigits w (wrap w v) s = wrap w (digitsVal v (s.takeWhile isDigit))
  | [], v => by simp [readDigits, digitsVal]
  | c :: s, v => by
    by_cases hc : isDigit c
    · rw [readDigits, if_pos hc, wrap_mul_add, List.takeWhile_cons_of_pos hc]
      have h := readDigits_eq s (v * 10 + (c.toNat - 48))
      push_cast at h ⊢
      exact h
    · rw [readDigits, if_neg hc, List.takeWhile_cons_of_neg hc]
      simp [digitsVal]

/-! ### Rendering -/

/-- `%u`. -/
def ofNat (n : ℕ) : Bytes := (Nat.toDigits 10 n).map fun c => UInt8.ofNat c.toNat

/-- `%d`. -/
def ofInt (x : ℤ) : Bytes := if x < 0 then 45 :: ofNat x.natAbs else ofNat x.natAbs

theorem isDigit_of_mem_ofNat {n : ℕ} {c : UInt8} (h : c ∈ ofNat n) : isDigit c = true := by
  obtain ⟨d, hd, rfl⟩ := List.mem_map.mp h
  have hdig := Nat.isDigit_of_mem_toDigits (by norm_num) (by norm_num) hd
  have hr : 48 ≤ d.toNat ∧ d.toNat ≤ 57 := by
    simpa [Char.isDigit, UInt32.le_iff_toNat_le] using hdig
  have : (UInt8.ofNat d.toNat).toNat = d.toNat := by
    rw [UInt8.toNat_ofNat', Nat.mod_eq_of_lt (by omega)]
  simp only [isDigit, Bool.and_eq_true, decide_eq_true_eq, UInt8.le_iff_toNat_le, this]
  exact ⟨hr.1, hr.2⟩

theorem length_ofNat_le {n k : ℕ} (hk : 0 < k) (h : n < 10 ^ k) : (ofNat n).length ≤ k := by
  rw [ofNat, List.length_map]
  exact (Nat.length_toDigits_le_iff (by norm_num) hk).mpr h

theorem length_ofInt_le {x : ℤ} {k : ℕ} (hk : 0 < k) (h : x.natAbs < 10 ^ k) :
    (ofInt x).length ≤ k + 1 := by
  have := length_ofNat_le hk h
  unfold ofInt
  split_ifs
  · rw [List.length_cons]; omega
  · omega

/-- `%0wd` of a number that is not negative. -/
def zeroPad (w n : ℕ) : Bytes := List.replicate (w - (ofNat n).length) 48 ++ ofNat n

theorem length_zeroPad (w n : ℕ) : (zeroPad w n).length = max w (ofNat n).length := by
  rw [zeroPad, List.length_append, List.length_replicate]
  omega

theorem isDigit_of_mem_ofInt {x : ℤ} {c : UInt8} (h : c ∈ ofInt x) : c = 45 ∨ isDigit c = true := by
  unfold ofInt at h
  split_ifs at h
  · exact (List.mem_cons.mp h).imp id isDigit_of_mem_ofNat
  · exact Or.inr (isDigit_of_mem_ofNat h)

theorem zero_notMem_ofInt (x : ℤ) : 0 ∉ ofInt x := fun hc => by
  rcases isDigit_of_mem_ofInt hc with h | h
  · exact absurd h (by decide)
  · exact absurd h (by decide)

/-! ### Reading a rendered number -/

theorem digitsVal_snoc (v : ℕ) (ds : Bytes) (c : UInt8) :
    digitsVal v (ds ++ [c]) = digitsVal v ds * 10 + (c.toNat - 48) := by
  rw [digitsVal, List.foldl_append]
  rfl

theorem ofNat_of_lt {n : ℕ} (h : n < 10) : ofNat n = [UInt8.ofNat n.digitChar.toNat] := by
  rw [ofNat, Nat.toDigits_of_lt_base h]
  rfl

theorem ofNat_of_le {n : ℕ} (h : 10 ≤ n) : ofNat n = ofNat (n / 10) ++ ofNat (n % 10) := by
  have hlt : n % 10 < 10 := Nat.mod_lt n (by norm_num)
  rw [ofNat_of_lt hlt, ofNat, Nat.toDigits_of_base_le (by norm_num) h, List.map_append]
  rfl

theorem ofNat_ne_nil (n : ℕ) : ofNat n ≠ [] := by
  intro h
  rw [ofNat, List.map_eq_nil_iff] at h
  exact Nat.toDigits_ne_nil h

theorem digitChar_val {d : ℕ} (h : d < 10) :
    (UInt8.ofNat d.digitChar.toNat).toNat - 48 = d := by
  interval_cases d <;> rfl

/-- A rendered number denotes the number; the induction takes off the last digit. -/
theorem digitsVal_ofNat (n : ℕ) : digitsVal 0 (ofNat n) = n := by
  induction n using Nat.strongRecOn with
  | _ n ih =>
    by_cases h : n < 10
    · rw [ofNat_of_lt h]
      show 0 * 10 + _ = n
      rw [Nat.zero_mul, Nat.zero_add, digitChar_val h]
    · have hlt : n % 10 < 10 := Nat.mod_lt n (by norm_num)
      rw [ofNat_of_le (not_lt.mp h), ofNat_of_lt hlt, digitsVal_snoc, ih (n / 10) (by omega),
        digitChar_val hlt]
      omega

theorem all_isDigit_ofNat (n : ℕ) : (ofNat n).all isDigit = true :=
  List.all_eq_true.mpr fun _ hc => isDigit_of_mem_ofNat hc

/-- No digit is a minus sign. -/
theorem ofNat_ne_minus (n : ℕ) (ds : Bytes) : ofNat n ≠ 45 :: ds := by
  intro h
  have hdigit := isDigit_of_mem_ofNat (n := n) (by rw [h]; exact List.mem_cons_self)
  exact absurd hdigit (by decide)

theorem isDecimal_ofNat (n : ℕ) : isDecimal (ofNat n) = true := by
  rw [isDecimal.eq_2 _ (ofNat_ne_minus n), all_isDigit_ofNat, Bool.and_true]
  simpa using ofNat_ne_nil n

theorem decimalVal_ofNat (n : ℕ) : decimalVal (ofNat n) = n := by
  rw [decimalVal.eq_2 _ (ofNat_ne_minus n), digitsVal_ofNat]

theorem isDecimal_ofInt (x : ℤ) : isDecimal (ofInt x) = true := by
  unfold ofInt
  split_ifs
  · rw [isDecimal.eq_1, all_isDigit_ofNat, Bool.and_true]
    simpa using ofNat_ne_nil _
  · exact isDecimal_ofNat _

/-- **A rendered number reads back.** -/
theorem decimalVal_ofInt (x : ℤ) : decimalVal (ofInt x) = x := by
  unfold ofInt
  split_ifs with h
  · rw [decimalVal.eq_1, digitsVal_ofNat]
    omega
  · rw [decimalVal_ofNat]
    omega

/-! ### Whole numerals -/

theorem takeWhile_isDigit_of_all {s : Bytes} (h : s.all isDigit = true) :
    s.takeWhile isDigit = s :=
  List.takeWhile_eq_self_iff.mpr fun c hc => List.all_eq_true.mp h c hc

end Numeral
