import ZorinTrust.DexInvoke
import ZorinTrust.Lib.Leb128
import ZorinTrust.Lib.Placement

/-!
# The code of the DEX class

`build` of `build_dex.py` writes a code item for each method that has a body, aligned and in the order of
the method numbers, and behind them the class data: every method with its number as the difference to the
one before, its flags and the offset of its code.  `readClass` is what a runtime finds when it follows the
offsets and decodes the instructions.  Here a method and a string are their numbers; the tables of `DexFile`
give them their names.
-/

namespace ZorinTrust.Dex

open CText Packed Leb128 Placement

/-! ### Instructions -/

/-- The instructions of `code_spec`; a return is written there as its code unit. -/
inductive Ins
  | constString (reg stringIdx : ℕ)
  | const4 (reg : ℕ) (lit : ℤ)
  | invoke (op methodIdx : ℕ) (regs : List ℕ)
  | ret (unit : ℕ)
  deriving DecidableEq

/-- `ins_const_string`: `none` where the assertion fails. -/
def insConstString (reg stringIdx : ℕ) : Option (List ℕ) :=
  if reg < 256 ∧ stringIdx < 65536 then some [0x001A ||| reg <<< 8, stringIdx] else none

/-- `ins_const4`; `lit & 0xF` is the number modulo 16. -/
def insConst4 (reg : ℕ) (lit : ℤ) : List ℕ :=
  [0x0012 ||| (reg &&& 0xF) <<< 8 ||| (lit % 16).toNat <<< 12]

def Ins.units : Ins → Option (List ℕ)
  | .constString reg stringIdx => insConstString reg stringIdx
  | .const4 reg lit => some (insConst4 reg lit)
  | .invoke op methodIdx regs => insInvoke op methodIdx regs
  | .ret unit => some [unit]

/-- The units of a body are those of its instructions in a row. -/
def assemble : List Ins → Option (List ℕ)
  | [] => some []
  | i :: is => do return (← i.units) ++ (← assemble is)

/-- The entries of `code_spec`. -/
structure Body where
  registers : ℕ
  ins : ℕ
  outs : ℕ
  code : List Ins
  deriving DecidableEq

/-- The fields in front of the units of a code item: no tries and no debug information. -/
def codeHead (registers ins outs size : ℕ) : List (ℕ × ℕ) :=
  [(2, registers), (2, ins), (2, outs), (2, 0), (4, 0), (4, size)]

/-- `code_item`. -/
def codeItem (registers ins outs : ℕ) (units : List ℕ) : Option Bytes := do
  let head ← packAll (codeHead registers ins outs units.length)
  return head ++ (← packAll (units.map fun u => (2, u)))

def Body.item (body : Body) : Option Bytes := do
  codeItem body.registers body.ins body.outs (← assemble body.code)

/-! ### Code items and class data -/

/-- `align` to four bytes. -/
def align (buf : Bytes) : Bytes := if buf.length % 4 = 0 then buf else align (buf ++ [0])
termination_by 3 - (buf.length + 3) % 4
decreasing_by
  rw [List.length_append, List.length_singleton]
  omega

/-- One turn of the loop over `code_spec`: the data and `code_off` so far. -/
def codeTurn (dataOff : ℕ) (codeSpec : List (ℕ × Body)) (st : Bytes × List (ℕ × ℕ)) (m : ℕ) :
    Option (Bytes × List (ℕ × ℕ)) := do
  let data := align st.1
  let body ← codeSpec.lookup m
  return (data ++ (← body.item), st.2 ++ [(m, dataOff + data.length)])

/-- `sorted(code_spec)` by the method numbers. -/
def codeKeys (codeSpec : List (ℕ × Body)) : List ℕ :=
  (codeSpec.map Prod.fst).mergeSort fun a b => decide (a ≤ b)

/-- `direct.sort` and `virtual.sort`: a method is its number and its flags. -/
def sortMethods (methods : List (ℕ × ℕ)) : List (ℕ × ℕ) :=
  methods.mergeSort fun a b => decide (a.1 ≤ b.1)

/-- The methods of a group, in order; the first difference is the one to zero. -/
def encodedMethods (codeOff : List (ℕ × ℕ)) : ℕ → List (ℕ × ℕ) → Bytes
  | _, [] => []
  | prev, (idx, flags) :: rest =>
    uleb (idx - prev) ++ uleb flags ++ uleb ((codeOff.lookup idx).getD 0) ++
      encodedMethods codeOff idx rest

/-- The class data item. -/
def classData (codeOff direct virtual : List (ℕ × ℕ)) : Bytes :=
  uleb 0 ++ uleb 0 ++ uleb direct.length ++ uleb virtual.length ++
    encodedMethods codeOff 0 direct ++ encodedMethods codeOff 0 virtual

/-! ### What a runtime reads -/

/-- A nibble as a signed number. -/
def signedNibble (n : ℕ) : ℤ := if n < 8 then n else n - 16

/-- The instructions of a body, of the formats 21c, 11n, 35c and the returns 10x and 11x. -/
def disassemble : List ℕ → Option (List Ins)
  | [] => some []
  | u :: rest =>
    let op := bits 0 8 u
    if op = 0x1A then
      match rest with
      | stringIdx :: rest => do return .constString (bits 8 8 u) stringIdx :: (← disassemble rest)
      | [] => none
    else if op = 0x12 then do
      return .const4 (bits 8 4 u) (signedNibble (bits 12 4 u)) :: (← disassemble rest)
    else if 0x6E ≤ op ∧ op ≤ 0x72 then
      match rest with
      | methodIdx :: third :: rest => do
        let i ← decode35c [u, methodIdx, third]
        return .invoke i.op i.methodIdx i.regs :: (← disassemble rest)
      | _ => none
    else if 0x0E ≤ op ∧ op ≤ 0x11 then do return .ret u :: (← disassemble rest)
    else none

/-- The code item at an offset. -/
def readCode (b : Bytes) (off : ℕ) : Option Body := do
  match ← unpackAll [2, 2, 2, 2, 4, 4] b off with
  | [registers, ins, outs, _, _, size] =>
    let units ← unpackAll (List.replicate size 2) b (off + 16)
    return { registers := registers, ins := ins, outs := outs, code := ← disassemble units }
  | _ => none

/-- So many methods of a class data item, with their numbers, flags and code offsets. -/
def readEncoded : ℕ → ℕ → Bytes → Option (List (ℕ × ℕ × ℕ) × Bytes)
  | 0, _, s => some ([], s)
  | count + 1, prev, s => do
    let (diff, s) ← readUleb s
    let (flags, s) ← readUleb s
    let (off, s) ← readUleb s
    let (methods, s) ← readEncoded count (prev + diff) s
    return ((prev + diff, flags, off) :: methods, s)

/-- A method with its number, its flags and its body, which a native method does not have. -/
structure ClassMethod where
  idx : ℕ
  flags : ℕ
  body : Option Body
  deriving DecidableEq

def readMethod (b : Bytes) : ℕ × ℕ × ℕ → Option ClassMethod
  | (idx, flags, off) =>
    if off = 0 then some ⟨idx, flags, none⟩ else do return ⟨idx, flags, some (← readCode b off)⟩

/-- The direct and the virtual methods of the class whose data stand at an offset. -/
def readClass (b : Bytes) (off : ℕ) : Option (List ClassMethod × List ClassMethod) := do
  let (staticFields, s) ← readUleb (b.drop off)
  let (instanceFields, s) ← readUleb s
  guard (staticFields = 0 ∧ instanceFields = 0)
  let (directSize, s) ← readUleb s
  let (virtualSize, s) ← readUleb s
  let (direct, s) ← readEncoded directSize 0 s
  let (virtual, _) ← readEncoded virtualSize 0 s
  return (← direct.mapM (readMethod b), ← virtual.mapM (readMethod b))

/-! ### Instructions read back -/

/-- What the formats can hold. -/
def Ins.Fits : Ins → Prop
  | .constString reg stringIdx => reg < 256 ∧ stringIdx < 65536
  | .const4 reg lit => reg < 16 ∧ -8 ≤ lit ∧ lit < 8
  | .invoke op methodIdx regs =>
    (0x6E ≤ op ∧ op ≤ 0x72) ∧ methodIdx < 65536 ∧ regs.length ≤ 5 ∧ ∀ r ∈ regs, r < 16
  | .ret unit => unit < 65536 ∧ 0x0E ≤ bits 0 8 unit ∧ bits 0 8 unit ≤ 0x11

instance : DecidablePred Ins.Fits
  | .constString _ _ => inferInstanceAs (Decidable (_ ∧ _))
  | .const4 _ _ => inferInstanceAs (Decidable (_ ∧ _))
  | .invoke _ _ _ => inferInstanceAs (Decidable (_ ∧ _))
  | .ret _ => inferInstanceAs (Decidable (_ ∧ _))

/-- The units of an instruction, and what they are read back as. -/
structure Encodes (i : Ins) (us : List ℕ) : Prop where
  units : i.units = some us
  lt : ∀ u ∈ us, u < 65536
  short : us.length ≤ 3
  reads : ∀ rest, disassemble (us ++ rest) = (disassemble rest).map (i :: ·)

theorem encodes_constString {reg stringIdx : ℕ} (hreg : reg < 256) (hidx : stringIdx < 65536) :
    Encodes (.constString reg stringIdx) [0x1A + 2 ^ 8 * reg, stringIdx] := by
  have hword : 0x1A ||| reg <<< 8 = 0x1A + 2 ^ 8 * reg := or_shiftLeft reg (by decide)
  have hop : bits 0 8 (0x1A + 2 ^ 8 * reg) = 0x1A := bits_zero_add reg (by decide)
  have hfield : bits 8 8 (0x1A + 2 ^ 8 * reg) = reg := by
    rw [bits_add_add 0 8 _ (by decide), bits_zero_self hreg]
  refine ⟨?_, ?_, Nat.le_of_ble_eq_true rfl, fun rest => ?_⟩
  · rw [Ins.units, insConstString, if_pos ⟨hreg, hidx⟩, hword]
  · intro u hu
    rcases List.mem_pair.mp hu with rfl | rfl
    · omega
    · exact hidx
  · rw [List.cons_append, List.singleton_append, disassemble, hop, hfield, if_pos rfl]
    cases disassemble rest <;> rfl

theorem signedNibble_emod {lit : ℤ} (hlo : -8 ≤ lit) (hhi : lit < 8) :
    signedNibble (lit % 16).toNat = lit := by
  rw [signedNibble]
  split_ifs <;> omega

theorem encodes_const4 {reg : ℕ} {lit : ℤ} (hreg : reg < 16) (hlo : -8 ≤ lit) (hhi : lit < 8) :
    Encodes (.const4 reg lit) [0x12 + 2 ^ 8 * (reg + 2 ^ 4 * (lit % 16).toNat)] := by
  have hlit : (lit % 16).toNat < 16 := by omega
  have hword : 0x12 ||| (reg &&& 0xF) <<< 8 ||| (lit % 16).toNat <<< 12 =
      0x12 + 2 ^ 8 * (reg + 2 ^ 4 * (lit % 16).toNat) := by
    rw [nibble_of_lt hreg, opWord (by decide) hreg]
  have h12 : 0x12 < 256 := by decide
  obtain ⟨hop, hfield, hnibble⟩ := bits_opWord h12 hreg hlit
  refine ⟨by rw [Ins.units, insConst4, hword], ?_, Nat.le_of_ble_eq_true rfl, fun rest => ?_⟩
  · intro u hu
    rw [List.mem_singleton.mp hu]
    omega
  · rw [List.singleton_append, disassemble.eq_def]
    dsimp only
    rw [hop, hfield, hnibble, signedNibble_emod hlo hhi, if_neg (by decide), if_pos rfl]
    cases disassemble rest <;> rfl

theorem exists_encodes_invoke {op methodIdx : ℕ} {regs : List ℕ} (hop : 0x6E ≤ op ∧ op ≤ 0x72)
    (hidx : methodIdx < 65536) (hlen : regs.length ≤ 5) (hregs : ∀ r ∈ regs, r < 16) :
    ∃ us, Encodes (.invoke op methodIdx regs) us := by
  obtain ⟨us, hus⟩ := exists_insInvoke op hlen hidx
  have hop8 : op < 256 := by omega
  obtain ⟨hdecode, hlt⟩ := decode35c_insInvoke hop8 hregs hus
  obtain ⟨c, d, e, f, g, rfl, -, -, ⟨-, -, -, -, hg⟩, -, -⟩ := insInvoke_units hop8 hregs hus
  obtain ⟨hbits, -, -⟩ := bits_opWord hop8 hg (n := regs.length) (by omega)
  refine ⟨_, hus, hlt, le_rfl, fun rest => ?_⟩
  rw [List.cons_append, List.cons_append, List.singleton_append, disassemble, hbits,
    if_neg (by omega), if_neg (by omega), if_pos hop]
  dsimp only
  rw [hdecode]
  cases disassemble rest <;> rfl

theorem encodes_ret {unit : ℕ} (hlt : unit < 65536) (hop : 0x0E ≤ bits 0 8 unit ∧ bits 0 8 unit ≤ 0x11) :
    Encodes (.ret unit) [unit] := by
  refine ⟨rfl, fun u hu => List.mem_singleton.mp hu ▸ hlt, Nat.le_of_ble_eq_true rfl, fun rest => ?_⟩
  rw [List.singleton_append, disassemble.eq_def]
  dsimp only
  rw [if_neg (by omega), if_neg (by omega), if_neg (by omega), if_pos hop]
  cases disassemble rest <;> rfl

theorem exists_encodes : ∀ {i : Ins}, i.Fits → ∃ us, Encodes i us
  | .constString _ _, h => ⟨_, encodes_constString h.1 h.2⟩
  | .const4 _ _, h => ⟨_, encodes_const4 h.1 h.2.1 h.2.2⟩
  | .invoke _ _ _, h => exists_encodes_invoke h.1 h.2.1 h.2.2.1 h.2.2.2
  | .ret _, h => ⟨_, encodes_ret h.1 h.2⟩

/-- A body is read back instruction by instruction. -/
theorem exists_assemble : ∀ {code : List Ins}, (∀ i ∈ code, i.Fits) →
    ∃ us, assemble code = some us ∧ (∀ u ∈ us, u < 65536) ∧ us.length ≤ 3 * code.length ∧
      disassemble us = some code
  | [], _ => ⟨[], rfl, fun _ hu => absurd hu List.not_mem_nil, le_rfl, rfl⟩
  | i :: code, h => by
    rw [List.forall_mem_cons] at h
    obtain ⟨us, hi⟩ := exists_encodes h.1
    obtain ⟨vs, hcode, hlt, hlen, hreads⟩ := exists_assemble h.2
    refine ⟨us ++ vs, ?_, ?_, ?_, ?_⟩
    · rw [assemble, hi.units, hcode]
      rfl
    · intro u hu
      exact (List.mem_append.mp hu).elim (hi.lt u) (hlt u)
    · have hshort := hi.short
      rw [List.length_append, List.length_cons]
      omega
    · rw [hi.reads, hreads, Option.map_some]

/-! ### Code items read back -/

def Body.Fits (body : Body) : Prop :=
  body.registers < 65536 ∧ body.ins < 65536 ∧ body.outs < 65536 ∧ 3 * body.code.length < 2 ^ 32 ∧
    ∀ i ∈ body.code, i.Fits

instance : DecidablePred Body.Fits := fun _ => inferInstanceAs (Decidable (_ ∧ _))

theorem exists_item {body : Body} (h : body.Fits) :
    ∃ item, body.item = some item ∧ ∀ b off, At b off item → readCode b off = some body := by
  obtain ⟨hregisters, hins, houts, hsize, hcode⟩ := h
  obtain ⟨us, hus, hlt, hlen, hreads⟩ := exists_assemble hcode
  have hhead : ∀ f ∈ codeHead body.registers body.ins body.outs us.length, f.2 < 256 ^ f.1 := by
    simp only [codeHead, List.forall_mem_cons, List.not_mem_nil, false_implies, implies_true, and_true]
    omega
  have hunits : ∀ f ∈ us.map fun u => (2, u), f.2 < 256 ^ f.1 := by
    intro f hf
    obtain ⟨u, hu, rfl⟩ := List.mem_map.mp hf
    exact hlt u hu
  refine ⟨leAll (codeHead body.registers body.ins body.outs us.length) ++ leAll (us.map fun u => (2, u)),
    ?_, fun b off hat => ?_⟩
  · rw [Body.item, hus, Option.bind_eq_bind, Option.bind_some, codeItem, packAll_of_lt hhead,
      packAll_of_lt hunits]
    rfl
  · obtain ⟨pre, post, hb, hoff⟩ := hat
    rw [List.append_assoc] at hb
    have hread : unpackAll [2, 2, 2, 2, 4, 4] b off =
        some [body.registers, body.ins, body.outs, 0, 0, us.length] := unpackAll_leAll hb hoff hhead
    have hwidths : (us.map fun u => (2, u)).map Prod.fst = List.replicate us.length 2 := map_fst_fields 2 id us
    have hvalues : (us.map fun u => (2, u)).map Prod.snd = us := by
      rw [List.map_map]
      exact List.map_id us
    have hbehind : unpackAll (List.replicate us.length 2) b (off + 16) = some us := by
      rw [← hwidths]
      nth_rewrite 2 [← hvalues]
      refine unpackAll_leAll (hb.trans (List.append_assoc _ _ _).symm) ?_ hunits
      rw [List.length_append, length_leAll, hoff]
      rfl
    rw [readCode, hread, Option.bind_eq_bind, Option.bind_some]
    simp only [hbehind, hreads, Option.bind_eq_bind, Option.bind_some, Option.pure_def]

/-! ### The code section -/

theorem le_align (buf : Bytes) : buf <+: align buf := by
  rw [align]
  split_ifs with h
  · exact List.prefix_rfl
  · exact (List.prefix_append buf [0]).trans (le_align (buf ++ [0]))
termination_by 3 - (buf.length + 3) % 4
decreasing_by
  rw [List.length_append, List.length_singleton]
  omega

section Layout

variable {dataOff : ℕ} {codeSpec : List (ℕ × Body)} {data : Bytes} {codeOff : List (ℕ × ℕ)} {b : Bytes}

/-- Every recorded offset is that of the method's code item. -/
def Placed (dataOff : ℕ) (codeSpec : List (ℕ × Body)) (data : Bytes) (codeOff : List (ℕ × ℕ)) : Prop :=
  ∀ m off, codeOff.lookup m = some off →
    ∃ k body item, off = dataOff + k ∧ codeSpec.lookup m = some body ∧ body.item = some item ∧ At data k item

theorem Placed.mono {data' : Bytes} (h : Placed dataOff codeSpec data codeOff) (hdata : data <+: data') :
    Placed dataOff codeSpec data' codeOff := by
  intro m off hoff
  obtain ⟨k, body, item, hk, hbody, hitem, hat⟩ := h m off hoff
  exact ⟨k, body, item, hk, hbody, hitem, hat.mono hdata⟩

theorem mem_of_lookup {m : ℕ} {body : Body} (h : codeSpec.lookup m = some body) : (m, body) ∈ codeSpec := by
  obtain ⟨before, behind, rfl, -⟩ := List.lookup_eq_some_iff.mp h
  exact List.mem_append_right before List.mem_cons_self

theorem exists_lookup {m : ℕ} (h : m ∈ codeSpec.map Prod.fst) : ∃ body, codeSpec.lookup m = some body := by
  obtain ⟨c, hc, rfl⟩ := List.mem_map.mp h
  exact Option.isSome_iff_exists.mp (List.lookup_isSome_iff.mpr ⟨c, hc, beq_self_eq_true _⟩)

/-- One turn: the new item stands behind what was there, and its offset is recorded. -/
theorem exists_codeTurn {m : ℕ} {body : Body} (hbody : codeSpec.lookup m = some body) (hfits : body.Fits)
    (h : Placed dataOff codeSpec data codeOff) :
    ∃ data' off, codeTurn dataOff codeSpec (data, codeOff) m = some (data', codeOff ++ [(m, off)]) ∧
      data <+: data' ∧ Placed dataOff codeSpec data' (codeOff ++ [(m, off)]) := by
  obtain ⟨item, hitem, -⟩ := exists_item hfits
  have hdata : data <+: align data ++ item := (le_align data).trans (List.prefix_append _ item)
  refine ⟨align data ++ item, dataOff + (align data).length, ?_, hdata, fun k off hoff => ?_⟩
  · rw [codeTurn, hbody, Option.bind_eq_bind, Option.bind_some, hitem]
    rfl
  · rw [List.lookup_append, Option.or_eq_some_iff] at hoff
    obtain hold | ⟨-, hnew⟩ := hoff
    · exact h.mono hdata k off hold
    · rw [List.lookup_cons] at hnew
      split at hnew
      · rename_i heq
        obtain rfl := Option.some.inj hnew
        rw [beq_iff_eq] at heq
        exact ⟨_, body, item, rfl, heq ▸ hbody, hitem, align data, [], by rw [List.append_nil], rfl⟩
      · exact absurd hnew (by simp)

/-- The loop over the bodies: a code item for every method that has one, and for no other. -/
theorem foldlM_codeTurn (hfits : ∀ c ∈ codeSpec, c.2.Fits) : ∀ {ms : List ℕ} {data : Bytes}
    {codeOff : List (ℕ × ℕ)}, (∀ m ∈ ms, m ∈ codeSpec.map Prod.fst) → Placed dataOff codeSpec data codeOff →
    ∃ data' codeOff', ms.foldlM (codeTurn dataOff codeSpec) (data, codeOff) = some (data', codeOff') ∧
      data <+: data' ∧ Placed dataOff codeSpec data' codeOff' ∧
      ∀ m, codeOff'.lookup m = none → codeOff.lookup m = none ∧ m ∉ ms
  | [], data, codeOff, _, h => ⟨data, codeOff, rfl, List.prefix_rfl, h, fun _ hm => ⟨hm, List.not_mem_nil⟩⟩
  | m :: ms, data, codeOff, hms, h => by
    rw [List.forall_mem_cons] at hms
    obtain ⟨body, hbody⟩ := exists_lookup hms.1
    obtain ⟨data₁, off, hturn, hdata₁, h₁⟩ := exists_codeTurn hbody (hfits _ (mem_of_lookup hbody)) h
    obtain ⟨data', codeOff', hrun, hdata, h', hnone⟩ := foldlM_codeTurn hfits hms.2 h₁
    refine ⟨data', codeOff', ?_, hdata₁.trans hdata, h', fun k hk => ?_⟩
    · rw [List.foldlM_cons, hturn, Option.bind_eq_bind, Option.bind_some, hrun]
    · obtain ⟨hlookup, hnot⟩ := hnone k hk
      rw [List.lookup_append, Option.or_eq_none_iff] at hlookup
      have hne : k ≠ m := fun heq => by simp [heq] at hlookup
      exact ⟨hlookup.1, fun hmem => (List.mem_cons.mp hmem).elim hne hnot⟩

/-- The code section holds every body, and a method without an offset has none. -/
theorem exists_codeSection (hfits : ∀ c ∈ codeSpec, c.2.Fits) (dataOff : ℕ) (data : Bytes) : ∃ data' codeOff,
    (codeKeys codeSpec).foldlM (codeTurn dataOff codeSpec) (data, []) = some (data', codeOff) ∧ data <+: data' ∧
      Placed dataOff codeSpec data' codeOff ∧ ∀ m, codeOff.lookup m = none → codeSpec.lookup m = none := by
  have hkeys : ∀ m, m ∈ codeKeys codeSpec ↔ m ∈ codeSpec.map Prod.fst := fun m =>
    (List.mergeSort_perm _ _).mem_iff
  have hstart : Placed dataOff codeSpec data [] := fun _ _ h => absurd h (by simp)
  obtain ⟨data', codeOff, hrun, hdata, hplaced, hnone⟩ :=
    foldlM_codeTurn hfits (fun m hm => (hkeys m).mp hm) hstart
  refine ⟨data', codeOff, hrun, hdata, hplaced, fun m hm => ?_⟩
  rw [Option.eq_none_iff_forall_not_mem]
  intro body hbody
  exact (hnone m hm).2 ((hkeys m).mpr (List.mem_map_of_mem (mem_of_lookup hbody)))

/-! ### The class read back -/

/-- A method as the builder was given it. -/
def given (codeSpec : List (ℕ × Body)) (m : ℕ × ℕ) : ClassMethod := ⟨m.1, m.2, codeSpec.lookup m.1⟩

/-- What the class data say about a method. -/
def encoded (codeOff : List (ℕ × ℕ)) (m : ℕ × ℕ) : ℕ × ℕ × ℕ := (m.1, m.2, (codeOff.lookup m.1).getD 0)

/-- The differences add up to the numbers again. -/
theorem readEncoded_encodedMethods (codeOff : List (ℕ × ℕ)) : ∀ {ms : List (ℕ × ℕ)} {prev : ℕ} {rest : Bytes},
    (∀ m ∈ ms, prev ≤ m.1) → ms.Pairwise (fun m m' => m.1 ≤ m'.1) →
      readEncoded ms.length prev (encodedMethods codeOff prev ms ++ rest) =
        some (ms.map (encoded codeOff), rest)
  | [], _, _, _, _ => rfl
  | (idx, flags) :: ms, prev, rest, hprev, hsorted => by
    rw [List.pairwise_cons] at hsorted
    have hidx : prev + (idx - prev) = idx := Nat.add_sub_cancel' (hprev _ List.mem_cons_self)
    rw [List.length_cons, readEncoded, encodedMethods]
    simp only [List.append_assoc, readUleb_uleb, Option.bind_eq_bind, Option.bind_some, hidx,
      readEncoded_encodedMethods codeOff hsorted.1 hsorted.2]
    rfl

theorem readMethod_encoded (hpos : 0 < dataOff) (hfits : ∀ c ∈ codeSpec, c.2.Fits)
    (hplaced : Placed dataOff codeSpec data codeOff)
    (hnone : ∀ m, codeOff.lookup m = none → codeSpec.lookup m = none) (hb : Carries dataOff data b) (m : ℕ × ℕ) :
    readMethod b (encoded codeOff m) = some (given codeSpec m) := by
  rw [encoded, given, readMethod]
  cases hoff : codeOff.lookup m.1 with
  | none => rw [Option.getD_none, if_pos rfl, hnone m.1 hoff]
  | some off =>
    obtain ⟨k, body, item, rfl, hbody, hitem, hat⟩ := hplaced m.1 off hoff
    obtain ⟨item', hitem', hread⟩ := exists_item (hfits _ (mem_of_lookup hbody))
    obtain rfl : item = item' := Option.some.inj (hitem.symm.trans hitem')
    have hcode : readCode b (dataOff + k) = some body := hread _ _ (hb k item hat)
    rw [Option.getD_some, if_neg (by omega), hcode, hbody]
    rfl

theorem sortMethods_pairwise (ms : List (ℕ × ℕ)) : (sortMethods ms).Pairwise fun m m' => m.1 ≤ m'.1 := by
  have htrans (x y z : ℕ × ℕ) (hxy : decide (x.1 ≤ y.1) = true) (hyz : decide (y.1 ≤ z.1) = true) :
      decide (x.1 ≤ z.1) = true :=
    decide_eq_true ((of_decide_eq_true hxy).trans (of_decide_eq_true hyz))
  have htotal (x y : ℕ × ℕ) : (decide (x.1 ≤ y.1) || decide (y.1 ≤ x.1)) = true := by
    simp only [Bool.or_eq_true, decide_eq_true_eq]
    exact le_total x.1 y.1
  exact (List.pairwise_mergeSort htrans htotal ms).imp of_decide_eq_true

/-- The class data at an offset, with the code items they point to. -/
theorem readClass_of_drop {off : ℕ} {direct virtual : List (ℕ × ℕ)} {rest : Bytes}
    (hclass : b.drop off = classData codeOff (sortMethods direct) (sortMethods virtual) ++ rest)
    (hmethod : ∀ m, readMethod b (encoded codeOff m) = some (given codeSpec m)) :
    readClass b off =
      some ((sortMethods direct).map (given codeSpec), (sortMethods virtual).map (given codeSpec)) := by
  have hgroup (ms : List (ℕ × ℕ)) (s : Bytes) :
      readEncoded (sortMethods ms).length 0 (encodedMethods codeOff 0 (sortMethods ms) ++ s) =
        some ((sortMethods ms).map (encoded codeOff), s) :=
    readEncoded_encodedMethods codeOff (fun m _ => Nat.zero_le m.1) (sortMethods_pairwise ms)
  rw [readClass, hclass, classData]
  simp only [List.append_assoc, readUleb_uleb, Option.bind_eq_bind, Option.bind_some, hgroup,
    mapM_map fun m _ => hmethod m]
  rfl

end Layout

end ZorinTrust.Dex
