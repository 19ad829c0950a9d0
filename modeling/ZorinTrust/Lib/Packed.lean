import ZorinTrust.Lib.CText

/-!
# Numbers packed into words and bytes

Bit fields put side by side with `|||` and `<<<` are a positional sum, so a mask and a shift read
each of them back.  `pack w n` is the little-endian field of `w` bytes of Python's `struct.pack`, and
`unpackFrom w data pos` the read at an offset: both are `none` where the library raises.  The
`_append` lemmas evaluate reads and slices on a byte string given in parts.
-/

namespace Packed

open CText

/-! ### Bit fields -/

/-- A field shifted above `x` adds to it. -/
theorem or_shiftLeft {x k : ℕ} (y : ℕ) (h : x < 2 ^ k) : x ||| y <<< k = x + 2 ^ k * y := by
  rw [Nat.or_comm, ← Nat.shiftLeft_add_eq_or_of_lt h, Nat.shiftLeft_eq]
  ring

/-- The field of `k` bits at bit `i` of a word. -/
def bits (i k word : ℕ) : ℕ := word >>> i &&& 2 ^ k - 1

theorem bits_eq (i k word : ℕ) : bits i k word = word / 2 ^ i % 2 ^ k := by
  rw [bits, Nat.and_two_pow_sub_one_eq_mod, Nat.shiftRight_eq_div_pow]

/-- The lowest field of a word. -/
theorem bits_zero_add {x k : ℕ} (y : ℕ) (h : x < 2 ^ k) : bits 0 k (x + 2 ^ k * y) = x := by
  rw [bits_eq, Nat.pow_zero, Nat.div_one, Nat.add_mul_mod_self_left, Nat.mod_eq_of_lt h]

/-- The highest field of a word. -/
theorem bits_zero_self {x k : ℕ} (h : x < 2 ^ k) : bits 0 k x = x := by
  rw [bits_eq, Nat.pow_zero, Nat.div_one, Nat.mod_eq_of_lt h]

/-- A field above the lowest one. -/
theorem bits_add_add {x k : ℕ} (i j y : ℕ) (h : x < 2 ^ k) :
    bits (k + i) j (x + 2 ^ k * y) = bits i j y := by
  have hdiv : (x + 2 ^ k * y) / 2 ^ k = y := by
    rw [Nat.add_mul_div_left _ _ (by positivity), Nat.div_eq_of_lt h, Nat.zero_add]
  rw [bits_eq, bits_eq, Nat.pow_add, ← Nat.div_div_eq_div_mul, hdiv]

/-! ### Little-endian fields -/

/-- The `w` low bytes of a number, the lowest first. -/
def le : ℕ → ℕ → Bytes
  | 0, _ => []
  | w + 1, n => UInt8.ofNat n :: le w (n / 256)

/-- The number a field holds. -/
def leVal : Bytes → ℕ
  | [] => 0
  | c :: s => c.toNat + 256 * leVal s

@[simp] theorem length_le (w n : ℕ) : (le w n).length = w := by
  induction w generalizing n with
  | zero => rfl
  | succ w ih => rw [le, List.length_cons, ih]

theorem leVal_le : ∀ {w n : ℕ}, n < 256 ^ w → leVal (le w n) = n
  | 0, n, h => by
    rw [Nat.pow_zero] at h
    rw [le, leVal]
    omega
  | w + 1, n, h => by
    have hdiv : n / 256 < 256 ^ w := by
      rw [Nat.pow_succ] at h
      omega
    rw [le, leVal, leVal_le hdiv, UInt8.toNat_ofNat', Nat.mod_add_div]

theorem leVal_lt : ∀ s : Bytes, leVal s < 256 ^ s.length
  | [] => by simp [leVal]
  | c :: s => by
    have ih := leVal_lt s
    have hc := c.toNat_lt
    rw [leVal, List.length_cons, Nat.pow_succ]
    omega

/-- A field is determined by its number. -/
theorem le_leVal : ∀ s : Bytes, le s.length (leVal s) = s
  | [] => rfl
  | c :: s => by
    have hc := c.toNat_lt
    have hhead : UInt8.ofNat (c.toNat + 256 * leVal s) = c := by
      apply UInt8.toNat_inj.mp
      rw [UInt8.toNat_ofNat']
      omega
    have htail : (c.toNat + 256 * leVal s) / 256 = leVal s := by omega
    rw [List.length_cons, le, leVal, hhead, htail, le_leVal s]

/-- `struct.pack`. -/
def pack (w n : ℕ) : Option Bytes := if n < 256 ^ w then some (le w n) else none

theorem pack_eq_some {w n : ℕ} {b : Bytes} : pack w n = some b ↔ n < 256 ^ w ∧ b = le w n := by
  rw [pack]
  split_ifs with h
  · rw [Option.some.injEq]
    exact ⟨fun hb => ⟨h, hb.symm⟩, fun hb => hb.2.symm⟩
  · exact iff_of_false (by simp) fun hb => h hb.1

theorem pack_of_lt {w n : ℕ} (h : n < 256 ^ w) : pack w n = some (le w n) := if_pos h

/-- A text made from a packed field. -/
theorem bind_pack_eq_some {α : Type*} {w n : ℕ} {f : Bytes → α} {x : α} :
    ((pack w n).bind fun b => some (f b)) = some x ↔ n < 256 ^ w ∧ x = f (le w n) := by
  rw [Option.bind_eq_some_iff]
  constructor
  · rintro ⟨b, hb, hx⟩
    obtain ⟨hn, rfl⟩ := pack_eq_some.mp hb
    exact ⟨hn, (Option.some.inj hx).symm⟩
  · rintro ⟨hn, rfl⟩
    exact ⟨_, pack_of_lt hn, rfl⟩

/-! ### Reading at an offset -/

/-- `data[a:b]`. -/
def slice (data : Bytes) (a b : ℕ) : Bytes := (data.drop a).take (b - a)

/-- `struct.unpack_from`. -/
def unpackFrom (w : ℕ) (data : Bytes) (pos : ℕ) : Option ℕ :=
  if pos + w ≤ data.length then some (leVal (slice data pos (pos + w))) else none

/-- `struct.pack_into`. -/
def packInto (w : ℕ) (data : Bytes) (pos n : ℕ) : Option Bytes :=
  if n < 256 ^ w ∧ pos + w ≤ data.length then
    some (data.take pos ++ le w n ++ data.drop (pos + w))
  else none

theorem slice_append (pre x post : Bytes) :
    slice (pre ++ (x ++ post)) pre.length (pre.length + x.length) = x := by
  rw [slice, List.drop_left, Nat.add_sub_cancel_left, List.take_left]

theorem slice_eq {data pre x post : Bytes} {a b : ℕ} (hdata : data = pre ++ (x ++ post))
    (ha : a = pre.length) (hb : b = pre.length + x.length) : slice data a b = x := by
  rw [hdata, ha, hb, slice_append]

theorem length_slice (data : Bytes) {a b : ℕ} (hb : b ≤ data.length) :
    (slice data a b).length = b - a := by
  rw [slice, List.length_take, List.length_drop]
  omega

theorem slice_append_drop (data : Bytes) {a b : ℕ} (hab : a ≤ b) :
    slice data a b ++ data.drop b = data.drop a := by
  have hdrop : data.drop b = (data.drop a).drop (b - a) := by
    rw [List.drop_drop, Nat.add_sub_cancel' hab]
  rw [slice, hdrop, List.take_append_drop]

/-- A text is what stands before, in and behind a slice. -/
theorem take_slice_drop (data : Bytes) {a b : ℕ} (hab : a ≤ b) :
    data.take a ++ (slice data a b ++ data.drop b) = data := by
  rw [slice_append_drop data hab, List.take_append_drop]

/-- Reading back a field that was written. -/
theorem unpackFrom_le {data pre post : Bytes} {w n pos : ℕ} (hdata : data = pre ++ (le w n ++ post))
    (hpos : pos = pre.length) (hn : n < 256 ^ w) : unpackFrom w data pos = some n := by
  have hlen : pos + w ≤ data.length := by
    rw [hdata, hpos]
    simp
  rw [unpackFrom, if_pos hlen, slice_eq hdata hpos (by rw [hpos, length_le]), leVal_le hn]

theorem unpackFrom_eq_some {w pos n : ℕ} {data : Bytes} : unpackFrom w data pos = some n ↔
    pos + w ≤ data.length ∧ leVal (slice data pos (pos + w)) = n := by
  rw [unpackFrom]
  split_ifs with h
  · rw [Option.some.injEq]
    exact (and_iff_right h).symm
  · exact iff_of_false (by simp) fun hn => h hn.1

/-- A field that was read stands there. -/
theorem slice_of_unpackFrom {w pos n : ℕ} {data : Bytes} (h : unpackFrom w data pos = some n) :
    slice data pos (pos + w) = le w n := by
  obtain ⟨hlen, hval⟩ := unpackFrom_eq_some.mp h
  have hw : (slice data pos (pos + w)).length = w := by
    rw [length_slice data hlen, Nat.add_sub_cancel_left]
  rw [← hval]
  nth_rewrite 2 [← hw]
  rw [le_leVal]

/-! ### Fields behind a prefix -/

theorem slice_shift (pre s : Bytes) (a b : ℕ) :
    slice (pre ++ s) (pre.length + a) (pre.length + b) = slice s a b := by
  rw [slice, slice, List.drop_length_add_append, Nat.add_sub_add_left]

theorem unpackFrom_shift (w : ℕ) (pre s : Bytes) (pos : ℕ) :
    unpackFrom w (pre ++ s) (pre.length + pos) = unpackFrom w s pos := by
  rw [unpackFrom, unpackFrom, Nat.add_assoc, slice_shift, List.length_append]
  simp only [Nat.add_le_add_iff_left]

theorem packInto_shift (w : ℕ) (pre s : Bytes) (pos n : ℕ) :
    packInto w (pre ++ s) (pre.length + pos) n = (packInto w s pos n).map (pre ++ ·) := by
  rw [packInto, packInto, Nat.add_assoc, List.length_append, List.take_length_add_append,
    List.drop_length_add_append]
  simp only [Nat.add_le_add_iff_left]
  split_ifs with h
  · rw [Option.map_some, List.append_assoc, List.append_assoc, List.append_assoc]
  · rfl

/-! ### Overwriting a field -/

theorem packInto_eq_some {w pos n : ℕ} {data out : Bytes} : packInto w data pos n = some out ↔
    (n < 256 ^ w ∧ pos + w ≤ data.length) ∧
      out = data.take pos ++ (le w n ++ data.drop (pos + w)) := by
  rw [packInto]
  split_ifs with h
  · rw [Option.some.injEq, List.append_assoc]
    exact ⟨fun hout => ⟨h, hout.symm⟩, fun hout => hout.2.symm⟩
  · exact iff_of_false (by simp) fun hout => h hout.1

theorem length_packInto {w pos n : ℕ} {data out : Bytes} (h : packInto w data pos n = some out) :
    out.length = data.length := by
  obtain ⟨⟨-, hlen⟩, rfl⟩ := packInto_eq_some.mp h
  simp only [List.length_append, List.length_take, List.length_drop, length_le]
  omega

theorem unpackFrom_packInto {w pos n : ℕ} {data out : Bytes} (h : packInto w data pos n = some out) :
    unpackFrom w out pos = some n := by
  obtain ⟨⟨hn, hlen⟩, hout⟩ := packInto_eq_some.mp h
  have hpos : pos = (data.take pos).length := by
    rw [List.length_take]
    omega
  exact unpackFrom_le hout hpos hn

/-- A field before the one that is written. -/
theorem unpackFrom_packInto_left {v w pos q n : ℕ} {data out : Bytes}
    (h : packInto w data pos n = some out) (hq : q + v ≤ pos) :
    unpackFrom v out q = unpackFrom v data q := by
  have htake : out.take pos = data.take pos := by
    obtain ⟨⟨-, hlen⟩, rfl⟩ := packInto_eq_some.mp h
    exact List.take_left' (by rw [List.length_take]; omega)
  have hslice (s : Bytes) : slice s q (q + v) = slice (s.take pos) q (q + v) := by
    rw [slice, slice, List.drop_take, List.take_take, Nat.add_sub_cancel_left, min_eq_left (by omega)]
  rw [unpackFrom, unpackFrom, length_packInto h, hslice, htake, ← hslice]

/-- A field behind the one that is written. -/
theorem unpackFrom_packInto_right {v w pos q n : ℕ} {data out : Bytes}
    (h : packInto w data pos n = some out) (hq : pos + w ≤ q) :
    unpackFrom v out q = unpackFrom v data q := by
  have hdrop : out.drop (pos + w) = data.drop (pos + w) := by
    obtain ⟨⟨-, hlen⟩, rfl⟩ := packInto_eq_some.mp h
    rw [← List.append_assoc]
    refine List.drop_left' ?_
    rw [List.length_append, List.length_take, length_le]
    omega
  have hslice (s : Bytes) : slice s q (q + v) =
      slice (s.drop (pos + w)) (q - (pos + w)) (q + v - (pos + w)) := by
    rw [slice, slice, List.drop_drop, Nat.add_sub_cancel' hq, Nat.sub_sub_sub_cancel_right hq]
  rw [unpackFrom, unpackFrom, length_packInto h, hslice, hdrop, ← hslice]

/-- The second of two writes of a field is the one that counts. -/
theorem packInto_packInto {w pos n : ℕ} {data out : Bytes} (h : packInto w data pos n = some out)
    (m : ℕ) : packInto w out pos m = packInto w data pos m := by
  have hlen := length_packInto h
  obtain ⟨⟨-, hpos⟩, hout⟩ := packInto_eq_some.mp h
  have hpre : (data.take pos).length = pos := by
    rw [List.length_take]
    omega
  have htake : out.take pos = data.take pos := by rw [hout, List.take_left' hpre]
  have hdrop : out.drop (pos + w) = data.drop (pos + w) := by
    rw [hout, ← List.append_assoc]
    exact List.drop_left' (by rw [List.length_append, hpre, length_le])
  rw [packInto, packInto, hlen, htake, hdrop]

/-- Writing what stands there. -/
theorem packInto_unpackFrom {w pos n : ℕ} {data : Bytes} (h : unpackFrom w data pos = some n) :
    packInto w data pos n = some data := by
  obtain ⟨hlen, hval⟩ := unpackFrom_eq_some.mp h
  have hw : (slice data pos (pos + w)).length = w := by
    rw [length_slice data hlen, Nat.add_sub_cancel_left]
  have hn : n < 256 ^ w := by
    rw [← hval]
    exact (leVal_lt _).trans_eq (by rw [hw])
  refine packInto_eq_some.mpr ⟨⟨hn, hlen⟩, ?_⟩
  rw [← slice_of_unpackFrom h, take_slice_drop data (Nat.le_add_right _ _)]

/-- A field that was overwritten is put back. -/
theorem packInto_restore {w pos n m : ℕ} {data out : Bytes} (hn : unpackFrom w data pos = some n)
    (h : packInto w data pos m = some out) : packInto w out pos n = some data := by
  rw [packInto_packInto h, packInto_unpackFrom hn]

/-! ### Records -/

/-- `struct.pack` of several fields, each a width and a number. -/
def packAll : List (ℕ × ℕ) → Option Bytes
  | [] => some []
  | (w, n) :: fs => do
    let b ← pack w n
    return b ++ (← packAll fs)

/-- `struct.unpack_from` of several fields. -/
def unpackAll : List ℕ → Bytes → ℕ → Option (List ℕ)
  | [], data, pos => if pos ≤ data.length then some [] else none
  | w :: ws, data, pos => do
    let n ← unpackFrom w data pos
    return n :: (← unpackAll ws data (pos + w))

/-- The bytes of a record. -/
def leAll (fs : List (ℕ × ℕ)) : Bytes := fs.flatMap fun f => le f.1 f.2

@[simp] theorem length_leAll (fs : List (ℕ × ℕ)) : (leAll fs).length = (fs.map Prod.fst).sum := by
  rw [leAll, List.length_flatMap]
  simp only [length_le]

theorem leAll_append (fs gs : List (ℕ × ℕ)) : leAll (fs ++ gs) = leAll fs ++ leAll gs :=
  List.flatMap_append

theorem packAll_of_lt : ∀ {fs : List (ℕ × ℕ)}, (∀ f ∈ fs, f.2 < 256 ^ f.1) →
    packAll fs = some (leAll fs)
  | [], _ => rfl
  | (w, n) :: fs, h => by
    rw [List.forall_mem_cons] at h
    rw [packAll, pack_of_lt h.1, packAll_of_lt h.2]
    rfl

theorem eq_of_packAll : ∀ {fs : List (ℕ × ℕ)} {b : Bytes}, packAll fs = some b → b = leAll fs
  | [], _, h => (Option.some.inj h).symm
  | (w, n) :: fs, b, h => by
    obtain ⟨x, hx, h⟩ := Option.bind_eq_some_iff.mp h
    obtain ⟨y, hy, h⟩ := Option.bind_eq_some_iff.mp h
    obtain ⟨-, rfl⟩ := pack_eq_some.mp hx
    rw [← Option.some.inj h, eq_of_packAll hy]
    rfl

/-- A record is read where it was written. -/
theorem unpackAll_leAll : ∀ {fs : List (ℕ × ℕ)} {data pre post : Bytes} {pos : ℕ},
    data = pre ++ (leAll fs ++ post) → pos = pre.length → (∀ f ∈ fs, f.2 < 256 ^ f.1) →
      unpackAll (fs.map Prod.fst) data pos = some (fs.map Prod.snd)
  | [], data, pre, post, pos, hdata, hpos, _ => by
    refine if_pos ?_
    rw [hdata, hpos, List.length_append]
    exact Nat.le_add_right _ _
  | (w, n) :: fs, data, pre, post, pos, hdata, hpos, h => by
    rw [List.forall_mem_cons] at h
    rw [show leAll ((w, n) :: fs) = le w n ++ leAll fs from rfl, List.append_assoc] at hdata
    have hrest : data = pre ++ le w n ++ (leAll fs ++ post) := by rw [hdata, List.append_assoc]
    have hnext : pos + w = (pre ++ le w n).length := by rw [hpos, List.length_append, length_le]
    rw [List.map_cons, List.map_cons, unpackAll, unpackFrom_le hdata hpos h.1,
      unpackAll_leAll hrest hnext h.2]
    rfl

end Packed
