import ZorinTrust.Codec

/-!
# The pair verification phrase

`trust_pair_code` of the Activity reads the first eight hex digits back out of a fingerprint text and
turns them into two words and a number.  `pairPhrase` is the phrase two devices agree on when they
know the first four bytes of the digest; `trustPairCode_fingerprintText` says that the text form of
the fingerprint loses none of them.
-/

namespace ZorinTrust

open CText Numeral

/-- The table `words`. -/
def pairWords : List String :=
  ["EMBER", "FALCON", "NOVA", "WOLF", "ORBIT", "ONYX", "PIXEL", "RAVEN", "SOLAR", "TITAN", "VECTOR",
    "COMET", "PULSE", "ATLAS", "NEXUS", "VAULT"]

/-- The scanning loop of `trust_pair_code`: the first `k` hex digits of a text, all else skipped. -/
def pairNibbles : ℕ → Bytes → List UInt8
  | 0, _ => []
  | _ + 1, [] => []
  | k + 1, c :: fp =>
    match trustHexval c with
    | some v => v :: pairNibbles k fp
    | none => pairNibbles (k + 1) fp

/-- `words[b & 15]`. -/
def pairWord (b : ℕ) : Bytes := lit (pairWords.getD (b &&& 15) "")

/-- `trust_pair_code` into a buffer of `cap` bytes. -/
def trustPairCode (fp : Bytes) (cap : ℕ) : Bytes :=
  match pairNibbles 8 fp with
  | [n0, n1, n2, n3, n4, n5, n6, n7] =>
    let b0 := n0.toNat <<< 4 ||| n1.toNat
    let b1 := n2.toNat <<< 4 ||| n3.toNat
    let b2 := n4.toNat <<< 4 ||| n5.toNat
    let b3 := n6.toNat <<< 4 ||| n7.toNat
    cut cap (pairWord b0 ++ lit "-" ++ pairWord b1 ++ lit " " ++ zeroPad 2 ((b2 <<< 8 ||| b3) % 100))
  | _ => cut cap (lit "UNAVAILABLE")

/-- The phrase of the first four bytes of a digest. -/
def pairPhrase (d0 d1 d2 d3 : UInt8) : Bytes :=
  pairWord d0.toNat ++ lit "-" ++ pairWord d1.toNat ++ lit " " ++
    zeroPad 2 ((d2.toNat * 256 + d3.toNat) % 100)

/-! ### Reading the digits back -/

/-- The digits of the fingerprint alphabet are the ones `trust_hexval` reads. -/
theorem upperHex_eq (c : UInt8) : ∃ a b, upperHex c = [a, b] ∧
    trustHexval a = some (c >>> 4) ∧ trustHexval b = some (c &&& 15) := by
  have key : ∀ n : Fin 16, trustHexval (if UInt8.ofNat n < 10 then 48 + UInt8.ofNat n
      else 55 + UInt8.ofNat n) = some (UInt8.ofNat n) := by
    decide +kernel
  have hread : ∀ n : UInt8, n.toNat < 16 →
      trustHexval (if n < 10 then 48 + n else 55 + n) = some n := by
    intro n hn
    simpa using key ⟨n.toNat, hn⟩
  exact ⟨_, _, rfl, hread _ (high_lt c), hread _ (low_lt c)⟩

theorem pairNibbles_colon (k : ℕ) (fp : Bytes) : pairNibbles k (58 :: fp) = pairNibbles k fp := by
  cases k with
  | zero => rw [pairNibbles, pairNibbles]
  | succ k => rw [pairNibbles, show trustHexval 58 = none from rfl]

/-- One byte of the fingerprint is two turns of the scan. -/
theorem pairNibbles_upperHex (k : ℕ) (c : UInt8) (fp : Bytes) :
    pairNibbles (k + 2) (upperHex c ++ fp) = (c >>> 4) :: (c &&& 15) :: pairNibbles k fp := by
  obtain ⟨a, b, hc, ha, hb⟩ := upperHex_eq c
  rw [hc, List.cons_append, List.singleton_append, pairNibbles, ha]
  dsimp only
  rw [pairNibbles, hb]

/-- **The scan stays in step with the formatter**: it reads the nibbles of the bytes in order, with no
colon between them counted and none skipped. -/
theorem pairNibbles_fingerprintText (m i : ℕ) (d : Bytes) :
    pairNibbles (2 * m) (fingerprintText i d) =
      (d.take m).flatMap fun c : UInt8 => [c >>> 4, c &&& 15] := by
  induction d generalizing m i with
  | nil =>
    rw [List.take_nil, List.flatMap_nil, fingerprintText]
    cases m with
    | zero => rfl
    | succ m => rfl
  | cons c d ih =>
    cases m with
    | zero => rw [Nat.mul_zero, List.take_zero, List.flatMap_nil, pairNibbles]
    | succ m =>
      have hbyte : pairNibbles (2 * (m + 1)) (upperHex c ++ fingerprintText (i + 1) d) =
          (c >>> 4) :: (c &&& 15) :: pairNibbles (2 * m) (fingerprintText (i + 1) d) :=
        pairNibbles_upperHex (2 * m) c _
      rw [fingerprintText, List.take_succ_cons, List.flatMap_cons, ← ih m (i + 1)]
      split_ifs
      · rw [List.cons_append, pairNibbles_colon, hbyte]
        rfl
      · rw [hbyte]
        rfl

/-! ### The phrase -/

/-- The two nibbles of a byte, put together in `int` arithmetic. -/
theorem nibbles_toNat (c : UInt8) : (c >>> 4).toNat <<< 4 ||| (c &&& 15).toNat = c.toNat := by
  have key : ∀ n : Fin 256,
      (UInt8.ofNat n >>> 4).toNat <<< 4 ||| (UInt8.ofNat n &&& 15).toNat = (UInt8.ofNat n).toNat := by
    decide +kernel
  simpa using key ⟨c.toNat, c.toNat_lt⟩

theorem length_pairWord (b : ℕ) : (pairWord b).length ≤ 6 := by
  have hall : ∀ i < 16, (lit (pairWords.getD i "")).length ≤ 6 := by decide
  have hlt : b &&& 15 < 16 := Nat.lt_succ_of_le Nat.and_le_right
  exact hall _ hlt

theorem length_pairPhrase (d0 d1 d2 d3 : UInt8) : (pairPhrase d0 d1 d2 d3).length ≤ 16 := by
  have h0 := length_pairWord d0.toNat
  have h1 := length_pairWord d1.toNat
  have hnum : (ofNat ((d2.toNat * 256 + d3.toNat) % 100)).length ≤ 2 :=
    length_ofNat_le (by norm_num) (Nat.mod_lt _ (by norm_num))
  have hpad := length_zeroPad 2 ((d2.toNat * 256 + d3.toNat) % 100)
  have hdash : (lit "-").length = 1 := rfl
  have hspace : (lit " ").length = 1 := rfl
  simp only [pairPhrase, List.length_append]
  omega

/-- The phrase has a dash in it, the refusal text has none. -/
theorem pairPhrase_ne_unavailable (d0 d1 d2 d3 : UInt8) :
    pairPhrase d0 d1 d2 d3 ≠ lit "UNAVAILABLE" := by
  have hdash : (45 : UInt8) ∈ pairPhrase d0 d1 d2 d3 := by
    simp only [pairPhrase, List.mem_append]
    exact Or.inl (Or.inl (Or.inl (Or.inr (by decide))))
  intro h
  rw [h] at hdash
  exact absurd hdash (by decide)

/-- **The phrase is a function of the leading fingerprint bytes**: from the text of any 16-byte digest
prefix `trust_pair_code` computes the phrase of its first four bytes, in full. -/
theorem trustPairCode_fingerprintText (d : Vector UInt8 16) :
    trustPairCode (fingerprintText 0 d.toList) 96 = pairPhrase d[0] d[1] d[2] d[3] ∧
      trustPairCode (fingerprintText 0 d.toList) 96 ≠ lit "UNAVAILABLE" ∧
      2 ≤ (zeroPad 2 ((d[2].toNat * 256 + d[3].toNat) % 100)).length := by
  have hscan := pairNibbles_fingerprintText 4 0 d.toList
  have htake : d.toList.take 4 = [d[0], d[1], d[2], d[3]] := by
    apply List.ext_getElem
    · simp
    · intro i h1 h2
      have hi : i < 4 := by simpa using h2
      interval_cases i <;> simp
  rw [htake] at hscan
  have heq : trustPairCode (fingerprintText 0 d.toList) 96 = pairPhrase d[0] d[1] d[2] d[3] := by
    have hb3 : d[3].toNat < 2 ^ 8 := d[3].toNat_lt
    rw [trustPairCode, show pairNibbles 8 _ = _ from hscan]
    simp only [List.flatMap_cons, List.flatMap_nil, List.cons_append, List.nil_append, nibbles_toNat]
    rw [← Nat.shiftLeft_add_eq_or_of_lt hb3, Nat.shiftLeft_eq]
    have hlen := length_pairPhrase d[0] d[1] d[2] d[3]
    exact cut_of_lt (show (pairPhrase d[0] d[1] d[2] d[3]).length < 96 by omega)
  have hpad := length_zeroPad 2 ((d[2].toNat * 256 + d[3].toNat) % 100)
  refine ⟨heq, ?_, by omega⟩
  rw [heq]
  exact pairPhrase_ne_unavailable _ _ _ _

example : trustPairCode (lit "0102:0005") 96 = lit "FALCON-NOVA 05" := by decide

end ZorinTrust
