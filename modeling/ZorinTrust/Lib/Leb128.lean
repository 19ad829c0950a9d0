import ZorinTrust.Lib.Packed

/-!
# Numbers of any size as bytes

`uleb` is unsigned LEB128: seven bits to a byte, the lowest first, the high bit set on every byte but the
last.  A number is read back from whatever stands behind it, so a row of them needs no lengths.
-/

namespace Leb128

open CText Packed

/-- The bytes of a number. -/
def uleb (n : ℕ) : Bytes :=
  if n >>> 7 = 0 then [UInt8.ofNat (n &&& 0x7F)]
  else UInt8.ofNat ((n &&& 0x7F) ||| 0x80) :: uleb (n >>> 7)
termination_by n
decreasing_by
  rw [Nat.shiftRight_eq_div_pow] at *
  omega

/-- The number at the start of a text, and what stands behind it. -/
def readUleb : Bytes → Option (ℕ × Bytes)
  | [] => none
  | c :: s =>
    if c.toNat < 128 then some (c.toNat, s)
    else do
      let (n, rest) ← readUleb s
      return (c.toNat - 128 + 128 * n, rest)

/-- The high bit stands above the seven bits. -/
theorem or_high {n : ℕ} (h : n < 128) : n ||| 0x80 = n + 128 := or_shiftLeft (k := 7) 1 h

theorem readUleb_uleb (n : ℕ) (s : Bytes) : readUleb (uleb n ++ s) = some (n, s) := by
  have hlow : n &&& 0x7F = n % 128 := Nat.and_two_pow_sub_one_eq_mod n 7
  have hhigh : n >>> 7 = n / 128 := Nat.shiftRight_eq_div_pow n 7
  have hmod := Nat.mod_lt n (show 0 < 128 by decide)
  rw [uleb, hlow, hhigh]
  split_ifs with h
  · have hn : (UInt8.ofNat (n % 128)).toNat = n := by
      rw [UInt8.toNat_ofNat']
      omega
    rw [List.singleton_append, readUleb, hn, if_pos (by omega)]
  · have hn : (UInt8.ofNat (n % 128 ||| 0x80)).toNat = n % 128 + 128 := by
      rw [or_high hmod, UInt8.toNat_ofNat']
      omega
    rw [List.cons_append, readUleb, hn, if_neg (by omega), readUleb_uleb (n / 128) s]
    simp only [Option.bind_eq_bind, Option.bind_some, Option.pure_def, Option.some.injEq,
      Prod.mk.injEq, and_true]
    omega
termination_by n
decreasing_by omega

/-- A number of seven times `k + 1` bits has at most `k + 1` bytes. -/
theorem length_uleb_le : ∀ {k n : ℕ}, n < 128 ^ (k + 1) → (uleb n).length ≤ k + 1
  | k, n, h => by
    have hhigh : n >>> 7 = n / 128 := Nat.shiftRight_eq_div_pow n 7
    rw [uleb]
    split_ifs with h0
    · exact Nat.le_add_left 1 k
    · cases k with
      | zero => omega
      | succ k =>
        have hdiv : n >>> 7 < 128 ^ (k + 1) := by
          rw [hhigh]
          exact Nat.div_lt_of_lt_mul (by rwa [Nat.pow_succ, Nat.mul_comm] at h)
        rw [List.length_cons]
        exact Nat.succ_le_succ (length_uleb_le hdiv)

end Leb128
