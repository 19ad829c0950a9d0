import ZorinTrust.Lib.Packed

/-!
# The invoke encoder of the DEX builder

`insInvoke` is `ins_invoke` of `build_dex.py`: the three code units of an invoke instruction.
`decode35c` is what a runtime reads from them under format 35c.  `decode35c_insInvoke` is the round
trip; `invokeCaseOk_of_lt` says that the builder's own check of the first unit passes on every case.
-/

namespace ZorinTrust

open Packed

/-- `ins_invoke`: `none` where the assertion fails. -/
def insInvoke (op methodIdx : ℕ) (regs : List ℕ) : Option (List ℕ) :=
  if regs.length ≤ 5 ∧ methodIdx < 65536 then
    match (regs ++ List.replicate (5 - regs.length) 0).take 5 with
    | [c, d, e, f, g] =>
      let first := op ||| (g &&& 0xF) <<< 8 ||| regs.length <<< 12
      let third := (c &&& 0xF) ||| (d &&& 0xF) <<< 4 ||| (e &&& 0xF) <<< 8 ||| (f &&& 0xF) <<< 12
      some [first, methodIdx, third]
    | _ => none
  else none

/-- An invoke instruction as the runtime decodes it. -/
structure Invoke where
  op : ℕ
  count : ℕ
  methodIdx : ℕ
  regs : List ℕ
  deriving DecidableEq

/-- Format 35c: `A|G|op BBBB F|E|D|C`, of whose five register fields the first `A` are read. -/
def decode35c : List ℕ → Option Invoke
  | [first, methodIdx, third] =>
    let g := bits 8 4 first
    let count := bits 12 4 first
    some
      { op := bits 0 8 first
        count := count
        methodIdx := methodIdx
        regs := [bits 0 4 third, bits 4 4 third, bits 8 4 third, bits 12 4 third, g].take count }
  | _ => none

/-! ### The two units with register fields -/

/-- The third unit: four nibbles, the lowest first. -/
theorem nibbles {c d e f : ℕ} (hc : c < 16) (hd : d < 16) (he : e < 16) :
    c ||| d <<< 4 ||| e <<< 8 ||| f <<< 12 = c + 2 ^ 4 * (d + 2 ^ 4 * (e + 2 ^ 4 * f)) := by
  rw [or_shiftLeft d (by omega), or_shiftLeft e (by omega), or_shiftLeft f (by omega)]
  ring

theorem bits_nibbles {c d e f : ℕ} (hc : c < 16) (hd : d < 16) (he : e < 16) (hf : f < 16) :
    bits 0 4 (c + 2 ^ 4 * (d + 2 ^ 4 * (e + 2 ^ 4 * f))) = c ∧
      bits 4 4 (c + 2 ^ 4 * (d + 2 ^ 4 * (e + 2 ^ 4 * f))) = d ∧
      bits 8 4 (c + 2 ^ 4 * (d + 2 ^ 4 * (e + 2 ^ 4 * f))) = e ∧
      bits 12 4 (c + 2 ^ 4 * (d + 2 ^ 4 * (e + 2 ^ 4 * f))) = f := by
  -- each field is peeled off the fields below it
  refine ⟨bits_zero_add _ hc, ?_, ?_, ?_⟩
  · rw [bits_add_add 0 4 _ hc, bits_zero_add _ hd]
  · rw [bits_add_add 4 4 _ hc, bits_add_add 0 4 _ hd, bits_zero_add _ he]
  · rw [bits_add_add 8 4 _ hc, bits_add_add 4 4 _ hd, bits_add_add 0 4 _ he, bits_zero_self hf]

/-- The first unit: the opcode, the fifth register, the count. -/
theorem opWord {op g n : ℕ} (hop : op < 256) (hg : g < 16) :
    op ||| g <<< 8 ||| n <<< 12 = op + 2 ^ 8 * (g + 2 ^ 4 * n) := by
  rw [or_shiftLeft g (by omega), or_shiftLeft n (by omega)]
  ring

theorem bits_opWord {op g n : ℕ} (hop : op < 256) (hg : g < 16) (hn : n < 16) :
    bits 0 8 (op + 2 ^ 8 * (g + 2 ^ 4 * n)) = op ∧ bits 8 4 (op + 2 ^ 8 * (g + 2 ^ 4 * n)) = g ∧
      bits 12 4 (op + 2 ^ 8 * (g + 2 ^ 4 * n)) = n := by
  refine ⟨bits_zero_add _ hop, ?_, ?_⟩
  · rw [bits_add_add 0 4 _ hop, bits_zero_add _ hg]
  · rw [bits_add_add 4 4 _ hop, bits_add_add 0 4 _ hg, bits_zero_self hn]

theorem nibble_of_lt {r : ℕ} (h : r < 16) : r &&& 0xF = r := by
  rw [show (0xF : ℕ) = 2 ^ 4 - 1 from rfl, Nat.and_two_pow_sub_one_eq_mod, Nat.mod_eq_of_lt h]

theorem length_registers {regs : List ℕ} (hlen : regs.length ≤ 5) :
    ((regs ++ List.replicate (5 - regs.length) 0).take 5).length = 5 := by
  rw [List.length_take, List.length_append, List.length_replicate]
  omega

theorem exists_five {l : List ℕ} (h : l.length = 5) : ∃ c d e f g, l = [c, d, e, f, g] := by
  obtain ⟨c, rest, rfl⟩ := List.exists_of_length_succ _ h
  rw [List.length_cons, Nat.add_right_cancel_iff] at h
  obtain ⟨d, e, f, g, rfl⟩ := List.length_eq_four.mp h
  exact ⟨c, d, e, f, g, rfl⟩

/-- The five register fields of an accepted call, zero where it has no register. -/
theorem exists_registers {regs : List ℕ} (hlen : regs.length ≤ 5) (hregs : ∀ r ∈ regs, r < 16) :
    ∃ c d e f g, (regs ++ List.replicate (5 - regs.length) 0).take 5 = [c, d, e, f, g] ∧
      (c < 16 ∧ d < 16 ∧ e < 16 ∧ f < 16 ∧ g < 16) ∧ [c, d, e, f, g].take regs.length = regs ∧
      (regs.length < 5 → g = 0) := by
  obtain ⟨c, d, e, f, g, hrr⟩ :
      ∃ c d e f g, (regs ++ List.replicate (5 - regs.length) 0).take 5 = [c, d, e, f, g] :=
    exists_five (length_registers hlen)
  have hlt : ∀ r ∈ [c, d, e, f, g], r < 16 := by
    intro r hr
    rw [← hrr] at hr
    rcases List.mem_append.mp (List.mem_of_mem_take hr) with hr | hr
    · exact hregs r hr
    · rw [List.eq_of_mem_replicate hr]
      omega
  refine ⟨c, d, e, f, g, hrr, by simpa using hlt, ?_, ?_⟩
  · rw [← hrr, List.take_take, Nat.min_eq_left hlen, List.take_left]
  · intro hshort
    have hg := congrArg (·[4]?) hrr
    rw [List.getElem?_take_of_lt (by omega), List.getElem?_append_right (by omega),
      List.getElem?_replicate, if_pos (by omega)] at hg
    simpa using hg.symm

theorem exists_insInvoke (op : ℕ) {methodIdx : ℕ} {regs : List ℕ} (hlen : regs.length ≤ 5)
    (hidx : methodIdx < 65536) : ∃ units, insInvoke op methodIdx regs = some units := by
  obtain ⟨c, d, e, f, g, hrr⟩ := exists_five (length_registers hlen)
  unfold insInvoke
  rw [if_pos ⟨hlen, hidx⟩, hrr]
  exact ⟨_, rfl⟩

/-- What an accepted call emits, as sums of the fields. -/
theorem insInvoke_units {op methodIdx : ℕ} {regs units : List ℕ} (hop : op < 256)
    (hregs : ∀ r ∈ regs, r < 16) (h : insInvoke op methodIdx regs = some units) :
    ∃ c d e f g, units = [op + 2 ^ 8 * (g + 2 ^ 4 * regs.length), methodIdx,
        c + 2 ^ 4 * (d + 2 ^ 4 * (e + 2 ^ 4 * f))] ∧ regs.length ≤ 5 ∧ methodIdx < 65536 ∧
      (c < 16 ∧ d < 16 ∧ e < 16 ∧ f < 16 ∧ g < 16) ∧ [c, d, e, f, g].take regs.length = regs ∧
      (regs.length < 5 → g = 0) := by
  unfold insInvoke at h
  split_ifs at h with hassert
  obtain ⟨c, d, e, f, g, hrr, hlt, hfields⟩ := exists_registers hassert.1 hregs
  obtain ⟨hc, hd, he, hf, hg⟩ := hlt
  rw [hrr] at h
  simp only [nibble_of_lt hc, nibble_of_lt hd, nibble_of_lt he, nibble_of_lt hf, nibble_of_lt hg,
    nibbles hc hd he, opWord hop hg, Option.some.injEq] at h
  exact ⟨c, d, e, f, g, h.symm, hassert.1, hassert.2, ⟨hc, hd, he, hf, hg⟩, hfields⟩

/-- **Format 35c reads back what the encoder was given**, and each unit is a code unit. -/
theorem decode35c_insInvoke {op methodIdx : ℕ} {regs units : List ℕ} (hop : op < 256)
    (hregs : ∀ r ∈ regs, r < 16) (h : insInvoke op methodIdx regs = some units) :
    decode35c units = some { op := op, count := regs.length, methodIdx := methodIdx, regs := regs } ∧
      ∀ u ∈ units, u < 65536 := by
  obtain ⟨c, d, e, f, g, rfl, hlen, hidx, ⟨hc, hd, he, hf, hg⟩, htake, -⟩ :=
    insInvoke_units hop hregs h
  obtain ⟨hop0, hg0, hn0⟩ := bits_opWord hop hg (n := regs.length) (by omega)
  obtain ⟨hc0, hd0, he0, hf0⟩ := bits_nibbles hc hd he hf
  constructor
  · simp only [decode35c, hop0, hg0, hn0, hc0, hd0, he0, hf0, htake]
  · intro u hu
    simp only [List.mem_cons, List.not_mem_nil, or_false] at hu
    rcases hu with rfl | rfl | rfl
    · omega
    · exact hidx
    · omega

theorem decode35c_insInvoke_five :
    insInvoke 0x71 7 [3, 0, 15, 4, 9] = some [0x5971, 7, 0x4F03] ∧
      decode35c [0x5971, 7, 0x4F03] =
        some { op := 0x71, count := 5, methodIdx := 7, regs := [3, 0, 15, 4, 9] } :=
  have h : insInvoke 0x71 7 [3, 0, 15, 4, 9] = some [0x5971, 7, 0x4F03] := by decide
  ⟨h, (decode35c_insInvoke (by decide) (by decide) h).1⟩

/-! ### The builder's self-check -/

/-- What `validate_invoke_encoder` compares for one case: the opcode, the count and the fifth
register of the first unit. -/
def invokeCaseOk (op midx : ℕ) (regs : List ℕ) : Bool :=
  match insInvoke op midx regs with
  | some (first :: _) =>
    bits 0 8 first == op && bits 12 4 first == regs.length &&
      bits 8 4 first == (if h : regs.length = 5 then regs.get ⟨4, by omega⟩ else 0)
  | _ => false

/-- The check passes on every case the encoder accepts. -/
theorem invokeCaseOk_of_lt {op midx : ℕ} {regs : List ℕ} (hop : op < 256)
    (hregs : ∀ r ∈ regs, r < 16) (hlen : regs.length ≤ 5) (hidx : midx < 65536) :
    invokeCaseOk op midx regs = true := by
  obtain ⟨units, h⟩ := exists_insInvoke op hlen hidx
  obtain ⟨c, d, e, f, g, rfl, -, -, ⟨-, -, -, -, hg⟩, htake, hshort⟩ := insInvoke_units hop hregs h
  obtain ⟨hop0, hg0, hn0⟩ := bits_opWord hop hg (n := regs.length) (by omega)
  have hfifth : g = if h : regs.length = 5 then regs.get ⟨4, by omega⟩ else 0 := by
    split_ifs with h5
    · rw [h5] at htake
      simp [← htake]
    · exact hshort (by omega)
  simp only [invokeCaseOk, h, hop0, hg0, hn0, beq_self_eq_true, Bool.true_and, ← hfifth]

def validateInvokeEncoder : Bool :=
  [(0x71, 7, [0]), (0x71, 7, [0, 1]), (0x70, 7, [3]), (0x6F, 7, [2]), (0x71, 7, [0, 1, 2, 3, 4])].all
    fun c : ℕ × ℕ × List ℕ => invokeCaseOk c.1 c.2.1 c.2.2

example : validateInvokeEncoder = true := by decide

end ZorinTrust
