import ZorinTrust.Codec

/-!
# Hex texts and the bytes they denote

Keys, signatures and proof fields travel as hex texts; the registry and the approval compare the
texts, signatures and fingerprints use the bytes.  `trust_hex_encode` writes small letters and
`trust_hexval` reads both cases, so a text is determined by its bytes up to the case of its letters:
`trustHexDecode_isSome_iff` is what is accepted, `trustHexEncode_decode` the text that encoding gives
back, `trustHex_lower` the three together.
-/

namespace ZorinTrust

open CText Numeral

/-- A hex digit, in either case. -/
def isHexDigit (c : UInt8) : Bool := isDigit c || (97 ≤ c && c ≤ 102) || (65 ≤ c && c ≤ 70)

/-- A digit `trust_hex_encode` writes. -/
def isSmallHexDigit (c : UInt8) : Bool := isDigit c || (97 ≤ c && c ≤ 102)

/-- `A` to `F` as small letters. -/
def lowerHex (c : UInt8) : UInt8 := if 65 ≤ c ∧ c ≤ 70 then c + 32 else c

theorem isSome_trustHexval (c : UInt8) : (trustHexval c).isSome = isHexDigit c := by
  unfold trustHexval isHexDigit isDigit
  split_ifs with h1 h2 h3
  · simp [h1]
  · simp [h2]
  · simp [h3]
  · grind

/-- A digit is read as a nibble, and that nibble is written as the digit in its small form. -/
theorem trustHexval_eq_some {c d : UInt8} (h : trustHexval c = some d) :
    d.toNat < 16 ∧ hexDigit d = lowerHex c := by
  have hdigit : d < 16 ∧ hexDigit d = lowerHex c := by
    unfold hexDigit lowerHex
    unfold trustHexval at h
    split_ifs at h <;> obtain rfl := Option.some.inj h <;> grind
  exact ⟨UInt8.lt_iff_toNat_lt.mp hdigit.1, hdigit.2⟩

/-- A text without capital letters is its own small form. -/
theorem map_lowerHex_of_small {s : Bytes} (h : s.all isSmallHexDigit = true) :
    s.map lowerHex = s := by
  have hkeep : ∀ c ∈ s, lowerHex c = c := fun c hc => by
    have hsmall := List.all_eq_true.mp h c hc
    unfold isSmallHexDigit isDigit at hsmall
    unfold lowerHex
    grind
  rw [List.map_congr_left hkeep, List.map_id']

/-- The nibbles of a byte put together from two digits. -/
theorem nibbles_of_or {x y : UInt8} (hx : x.toNat < 16) (hy : y.toNat < 16) :
    (x <<< 4 ||| y) >>> 4 = x ∧ (x <<< 4 ||| y) &&& 15 = y := by
  have key : ∀ m n : Fin 16, (UInt8.ofNat m <<< 4 ||| UInt8.ofNat n) >>> 4 = UInt8.ofNat m ∧
      (UInt8.ofNat m <<< 4 ||| UInt8.ofNat n) &&& 15 = UInt8.ofNat n := by
    decide
  simpa using key ⟨x.toNat, hx⟩ ⟨y.toNat, hy⟩

/-! ### What is accepted -/

theorem isSome_hexPairs : ∀ {s : Bytes},
    (hexPairs s).isSome = true ↔ s.length % 2 = 0 ∧ s.all isHexDigit = true
  | [] => by simp [hexPairs]
  | [_] => by simp [hexPairs]
  | a :: b :: s => by
    have ih := isSome_hexPairs (s := s)
    have hlen : (a :: b :: s).length % 2 = s.length % 2 := by
      rw [List.length_cons, List.length_cons]
      omega
    rw [hlen, hexPairs, List.all_cons, List.all_cons, ← isSome_trustHexval, ← isSome_trustHexval]
    cases trustHexval a with
    | none => simp
    | some x =>
      cases trustHexval b with
      | none => simp
      | some y =>
        cases hs : hexPairs s with
        | none =>
          rw [hs] at ih
          simpa using ih
        | some r =>
          rw [hs] at ih
          simpa using ih

/-- **What the decoder accepts**: pairs of hex digits of either case that fit. -/
theorem trustHexDecode_isSome_iff {s : Bytes} {cap : ℕ} :
    (trustHexDecode s cap).isSome = true ↔
      s.length % 2 = 0 ∧ s.length ≤ 2 * cap ∧ s.all isHexDigit = true := by
  unfold trustHexDecode
  split_ifs with h
  · simp only [Option.isSome_none, Bool.false_eq_true, false_iff]
    omega
  · rw [isSome_hexPairs]
    constructor
    · rintro ⟨heven, hall⟩
      exact ⟨heven, by omega, hall⟩
    · rintro ⟨heven, -, hall⟩
      exact ⟨heven, hall⟩

/-! ### What encoding gives back -/

theorem flatMap_hexPairs : ∀ {s x : Bytes}, hexPairs s = some x →
    (x.flatMap fun c : UInt8 => [hexDigit (c >>> 4), hexDigit (c &&& 15)]) = s.map lowerHex
  | [], x, h => by
    rw [hexPairs, Option.some.injEq] at h
    rw [← h]
    rfl
  | [_], x, h => by simp [hexPairs] at h
  | a :: b :: s, x, h => by
    rw [hexPairs] at h
    split at h
    · rename_i d e r ha hb hr
      cases h
      obtain ⟨hd, hda⟩ := trustHexval_eq_some ha
      obtain ⟨he, heb⟩ := trustHexval_eq_some hb
      obtain ⟨hhigh, hlow⟩ := nibbles_of_or hd he
      rw [List.flatMap_cons, hhigh, hlow, hda, heb, flatMap_hexPairs hr]
      rfl
    · cases h

/-- **Re-encoding a decoded text** gives the text with its letters small. -/
theorem trustHexEncode_decode {s x : Bytes} {cap cap' : ℕ} (h : trustHexDecode s cap = some x)
    (hcap : s.length < cap') : trustHexEncode x cap' = some (s.map lowerHex) := by
  have hlen := (trustHexDecode_length h).1
  unfold trustHexDecode at h
  split_ifs at h
  rw [trustHexEncode_of_lt (by omega), flatMap_hexPairs h]

/-- **Two accepted texts denote the same bytes** exactly when they differ in the case of letters only. -/
theorem trustHexDecode_eq_iff {s t x y : Bytes} {cap cap' : ℕ} (hs : trustHexDecode s cap = some x)
    (ht : trustHexDecode t cap' = some y) : x = y ↔ s.map lowerHex = t.map lowerHex := by
  have hx := trustHexEncode_decode hs (Nat.lt_succ_self _)
  have hy := trustHexEncode_decode ht (Nat.lt_succ_self _)
  have hlenx := (trustHexDecode_length hs).1
  have hleny := (trustHexDecode_length ht).1
  constructor
  · rintro rfl
    rw [← hlenx.trans hleny.symm, hx, Option.some.injEq] at hy
    exact hy
  · intro hmap
    rw [← hmap] at hy
    have hdx := trustHexDecode_encode hx le_rfl
    have hdy := trustHexDecode_encode hy le_rfl
    have hlen : x.length = y.length := by
      have := congrArg List.length hmap
      rw [List.length_map, List.length_map] at this
      omega
    rw [hlen, hdy, Option.some.injEq] at hdx
    exact hdx.symm

/-- **Hex texts and bytes**: decoding undoes encoding; what is accepted; encoding gives an accepted text
back with its letters small, and unchanged when it has no capital; so accepted texts denote the same
bytes exactly when they agree up to the case of their letters. -/
theorem trustHex_lower :
    (∀ x cap cap', x.length * 2 < cap → x.length ≤ cap' →
      (trustHexEncode x cap).bind (trustHexDecode · cap') = some x) ∧
    (∀ s cap, (trustHexDecode s cap).isSome = true ↔
      s.length % 2 = 0 ∧ s.length ≤ 2 * cap ∧ s.all isHexDigit = true) ∧
    (∀ s cap x cap', trustHexDecode s cap = some x → s.length < cap' →
      trustHexEncode x cap' = some (s.map lowerHex)) ∧
    (∀ s : Bytes, s.all isSmallHexDigit = true → s.map lowerHex = s) ∧
    (∀ s t cap cap' x y, trustHexDecode s cap = some x → trustHexDecode t cap' = some y →
      (x = y ↔ s.map lowerHex = t.map lowerHex)) := by
  refine ⟨?_, fun s cap => trustHexDecode_isSome_iff, fun s cap x cap' h hcap =>
    trustHexEncode_decode h hcap, fun s => map_lowerHex_of_small,
    fun s t cap cap' x y hs ht => trustHexDecode_eq_iff hs ht⟩
  intro x cap cap' hcap hx
  have henc := trustHexEncode_of_lt hcap
  rw [henc, Option.bind_some]
  exact trustHexDecode_encode henc hx

theorem trustHex_lower_pair : trustHexEncode [0x30, 0xAB] 5 = some (lit "30ab") :=
  trustHex_lower.2.2.1 (lit "30Ab") 2 [0x30, 0xAB] 5 (by decide) (by decide)

/-- Capital letters are accepted, come back small, and give one key two texts. -/
theorem trustHexDecode_capital :
    (trustHexDecode (lit "AA") 1).isSome = true ∧
      (lit "AA").all isSmallHexDigit = false ∧
      (trustHexDecode (lit "AA") 1).bind (trustHexEncode · 3) ≠ some (lit "AA") ∧
      trustHexDecode (lit "AA") 1 = trustHexDecode (lit "aa") 1 ∧ lit "AA" ≠ lit "aa" := by
  decide

end ZorinTrust
