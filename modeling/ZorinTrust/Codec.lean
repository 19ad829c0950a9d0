import ZorinTrust.Lib.CText
import ZorinTrust.Lib.Numeral
import ZorinTrust.Lib.Lines

/-!
# Text codecs of the trust runtime

The string helpers every protocol message goes through: `mini_streq`, `trust_prefix`, the hex pair,
`trust_parse_i64`, `trust_frame_field`, and the formatting half of `trust_fingerprint_der`.
A C function that returns a length or `-1` returns an `Option` here; `none` is the negative code.
-/

namespace ZorinTrust

open CText Numeral

/-! ### Comparisons -/

/-- `mini_streq` on two C strings. -/
def miniStreq : Bytes → Bytes → Bool
  | a :: s, b :: t => a == b && miniStreq s t
  | [], [] => true
  | _, _ => false

@[simp] theorem miniStreq_iff : ∀ {a b : Bytes}, miniStreq a b = true ↔ a = b
  | [], [] => by simp [miniStreq]
  | [], _ :: _ => by simp [miniStreq]
  | _ :: _, [] => by simp [miniStreq]
  | a :: s, b :: t => by simp [miniStreq, miniStreq_iff (a := s) (b := t)]

/-- `trust_prefix(a, p)`: does `a` start with `p`. -/
def trustPrefix : Bytes → Bytes → Bool
  | _, [] => true
  | a :: s, p :: t => a == p && trustPrefix s t
  | [], _ :: _ => false

@[simp] theorem trustPrefix_iff : ∀ {a p : Bytes}, trustPrefix a p = true ↔ p <+: a
  | a, [] => by simp [trustPrefix]
  | [], p :: t => by simp [trustPrefix]
  | a :: s, p :: t => by
    simp only [trustPrefix, Bool.and_eq_true, beq_iff_eq, trustPrefix_iff (a := s) (p := t),
      List.cons_prefix_cons]
    exact and_congr_left fun _ => eq_comm

/-! ### Hex -/

/-- The digit of a nibble, in the alphabet of `trust_hex_encode`. -/
def hexDigit (n : UInt8) : UInt8 := if n < 10 then 48 + n else 87 + n

/-- `trust_hex_encode`: `none` when the output buffer is too small. -/
def trustHexEncode (x : Bytes) (cap : ℕ) : Option Bytes :=
  if cap < x.length * 2 + 1 then none
  else some (x.flatMap fun c : UInt8 => [hexDigit (c >>> 4), hexDigit (c &&& 15)])

/-- `trust_hexval`. -/
def trustHexval (c : UInt8) : Option UInt8 :=
  if 48 ≤ c ∧ c ≤ 57 then some (c - 48)
  else if 97 ≤ c ∧ c ≤ 102 then some (c - 97 + 10)
  else if 65 ≤ c ∧ c ≤ 70 then some (c - 65 + 10)
  else none

/-- The digit loop of `trust_hex_decode`. -/
def hexPairs : Bytes → Option Bytes
  | a :: b :: s =>
    match trustHexval a, trustHexval b, hexPairs s with
    | some x, some y, some r => some ((x <<< 4 ||| y) :: r)
    | _, _, _ => none
  | [] => some []
  | [_] => none

/-- `trust_hex_decode`. -/
def trustHexDecode (s : Bytes) (cap : ℕ) : Option Bytes :=
  if s.length % 2 = 1 ∨ s.length / 2 > cap then none else hexPairs s

theorem hexPairs_length : ∀ {s x : Bytes}, hexPairs s = some x → s.length = 2 * x.length
  | [], x, h => by simp [hexPairs] at h; subst h; rfl
  | [_], x, h => by simp [hexPairs] at h
  | a :: b :: s, x, h => by
    rw [hexPairs] at h
    split at h
    · rename_i r _ _ hr
      cases h
      simp only [List.length_cons, hexPairs_length hr]
      omega
    · cases h

theorem trustHexDecode_length {s x : Bytes} {cap : ℕ} (h : trustHexDecode s cap = some x) :
    s.length = 2 * x.length ∧ x.length ≤ cap := by
  unfold trustHexDecode at h
  split_ifs at h with hc
  have := hexPairs_length h
  omega

theorem trustHexEncode_of_lt {x : Bytes} {cap : ℕ} (h : x.length * 2 < cap) :
    trustHexEncode x cap = some (x.flatMap fun c : UInt8 => [hexDigit (c >>> 4), hexDigit (c &&& 15)]) :=
  if_neg (by omega)

theorem trustHexEncode_length {x y : Bytes} {cap : ℕ} (h : trustHexEncode x cap = some y) :
    y.length = 2 * x.length := by
  unfold trustHexEncode at h
  split_ifs at h
  cases h
  induction x with
  | nil => rfl
  | cons c x ih => simp only [List.flatMap_cons, List.length_append]; simp; omega

theorem high_lt (c : UInt8) : (c >>> 4).toNat < 16 := by
  have hc := c.toNat_lt
  have hshift : (c >>> 4).toNat = c.toNat / 2 ^ 4 := by
    simp only [UInt8.toNat_shiftRight, Nat.shiftRight_eq_div_pow]
    rfl
  omega

theorem low_lt (c : UInt8) : (c &&& 15).toNat < 16 := by
  rw [UInt8.toNat_and]
  exact Nat.lt_succ_of_le Nat.and_le_right

/-- `trust_hexval` inverts the digits of the 16 nibbles, which are `0` to `9` and `a` to `f`. -/
theorem hexDigit_nibble {d : UInt8} (h : d.toNat < 16) :
    trustHexval (hexDigit d) = some d ∧
      ((48 ≤ hexDigit d ∧ hexDigit d ≤ 57) ∨ (97 ≤ hexDigit d ∧ hexDigit d ≤ 102)) := by
  have key : ∀ n : Fin 16, trustHexval (hexDigit (UInt8.ofNat n)) = some (UInt8.ofNat n) ∧
      ((48 ≤ hexDigit (UInt8.ofNat n) ∧ hexDigit (UInt8.ofNat n) ≤ 57) ∨
        (97 ≤ hexDigit (UInt8.ofNat n) ∧ hexDigit (UInt8.ofNat n) ≤ 102)) := by
    decide
  simpa using key ⟨d.toNat, h⟩

/-- Every byte is made of its two nibbles. -/
theorem nibbles_eq (c : UInt8) : (c >>> 4) <<< 4 ||| (c &&& 15) = c := by
  rw [← UInt8.toBitVec_inj]
  ext i hi
  interval_cases i <;> simp

theorem hexPairs_encode : ∀ x : Bytes,
    hexPairs (x.flatMap fun c : UInt8 => [hexDigit (c >>> 4), hexDigit (c &&& 15)]) = some x
  | [] => rfl
  | c :: x => by
    have hhigh := (hexDigit_nibble (high_lt c)).1
    have hlow := (hexDigit_nibble (low_lt c)).1
    simp only [List.flatMap_cons, List.cons_append, List.nil_append, hexPairs, hhigh, hlow,
      hexPairs_encode x, nibbles_eq c]

/-- **Decoding undoes encoding** when the result fits. -/
theorem trustHexDecode_encode {x y : Bytes} {cap cap' : ℕ} (h : trustHexEncode x cap = some y)
    (hx : x.length ≤ cap') : trustHexDecode y cap' = some x := by
  have hlen := trustHexEncode_length h
  unfold trustHexEncode at h
  split_ifs at h
  cases h
  rw [trustHexDecode, if_neg (by omega), hexPairs_encode]

/-- Hex digits are neither separators nor line ends. -/
theorem mem_trustHexEncode {x y : Bytes} {cap : ℕ} (h : trustHexEncode x cap = some y) {c : UInt8}
    (hc : c ∈ y) : (48 ≤ c ∧ c ≤ 57) ∨ (97 ≤ c ∧ c ≤ 102) := by
  unfold trustHexEncode at h
  split_ifs at h
  cases h
  obtain ⟨b, -, hb⟩ := List.mem_flatMap.mp hc
  rcases List.mem_pair.mp hb with rfl | rfl
  · exact (hexDigit_nibble (high_lt b)).2
  · exact (hexDigit_nibble (low_lt b)).2

/-- The digits an accepted hex text is made of. -/
theorem mem_hexPairs : ∀ {s x : Bytes}, hexPairs s = some x → ∀ c ∈ s, (trustHexval c).isSome
  | [], _, _, c, hc => by simp at hc
  | [_], _, h, _, _ => by simp [hexPairs] at h
  | a :: b :: s, x, h, c, hc => by
    rw [hexPairs] at h
    split at h
    · rename_i x' y' r ha hb hr
      rcases List.mem_cons.mp hc with rfl | hc
      · simp [ha]
      rcases List.mem_cons.mp hc with rfl | hc
      · simp [hb]
      · exact mem_hexPairs hr c hc
    · cases h

theorem mem_trustHexDecode {s x : Bytes} {cap : ℕ} (h : trustHexDecode s cap = some x) :
    ∀ c ∈ s, (trustHexval c).isSome := by
  unfold trustHexDecode at h
  split_ifs at h
  exact mem_hexPairs h

/-! ### Numbers -/

/-- `trust_parse_i64` (and `trust_ui_parse_i64`, the same loop): an optional minus sign, then digits
up to the first other byte, on a 64-bit two's complement variable. -/
def trustParseI64 : Bytes → ℤ
  | 45 :: s => wrap 64 (-(readDigits 64 0 s))
  | s => readDigits 64 0 s

theorem trustParseI64_eq (s : Bytes) : ∃ x : ℤ, trustParseI64 s = wrap 64 x := by
  have hread (s : Bytes) : readDigits 64 0 s = wrap 64 (digitsVal 0 (s.takeWhile isDigit)) := by
    simpa [wrap] using readDigits_eq (w := 64) s 0
  unfold trustParseI64
  split
  · exact ⟨_, rfl⟩
  · exact ⟨_, hread _⟩

/-- A parsed number is a 64-bit value. -/
theorem trustParseI64_mem (s : Bytes) : -2 ^ 63 ≤ trustParseI64 s ∧ trustParseI64 s < 2 ^ 63 := by
  obtain ⟨x, hx⟩ := trustParseI64_eq s
  rw [hx]
  exact wrap_mem (by norm_num) x

/-! ### Line fields -/

/-- `trust_frame_field(text, key, out, cap)` for `cap ≥ 2`: the value, or `none` for `-1`. -/
def trustFrameField (text : Bytes) (key : String) (cap : ℕ) : Option Bytes :=
  Lines.scan (lit key) cap text

/-- The field a frame carries, before any buffer cuts it. -/
def frameField (text : Bytes) (key : String) : Option Bytes := Lines.field (lit key) text

theorem trustFrameField_eq_cut (text : Bytes) (key : String) (cap : ℕ) :
    trustFrameField text key cap = (frameField text key).map (cut cap) :=
  Lines.scan_eq_field _ _ _

/-- A field never overruns its buffer. -/
theorem trustFrameField_length {text v : Bytes} {key : String} {cap : ℕ} (h0 : 0 < cap)
    (h : trustFrameField text key cap = some v) : v.length < cap := Lines.scan_length h0 h

/-- A field of a C string is a C string. -/
theorem trustFrameField_nulFree {text v : Bytes} {key : String} {cap : ℕ} (ht : 0 ∉ text)
    (h : trustFrameField text key cap = some v) : 0 ∉ v := fun hc => ht (Lines.mem_of_scan h hc)

/-! ### Fingerprints -/

/-- One byte in the alphabet of `trust_fingerprint_der`. -/
def upperHex (c : UInt8) : Bytes :=
  let d (n : UInt8) : UInt8 := if n < 10 then 48 + n else 55 + n
  [d (c >>> 4), d (c &&& 15)]

/-- The formatting loop of `trust_fingerprint_der`: a colon before every second byte. -/
def fingerprintText : ℕ → Bytes → Bytes
  | _, [] => []
  | i, c :: d => (if i ≠ 0 ∧ i % 2 = 0 then 58 :: upperHex c else upperHex c) ++ fingerprintText (i + 1) d

/-- `trust_fingerprint_der` into a 128-byte buffer, over a digest function: the first 16 bytes of the
digest.  `none` is any negative return. -/
def trustFingerprintDer (sha256 : Bytes → Bytes) (der : Bytes) : Option Bytes :=
  if der = [] ∨ (sha256 der).length < 16 then none
  else some (fingerprintText 0 ((sha256 der).take 16))

end ZorinTrust
