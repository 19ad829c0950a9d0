import ZorinTrust.DexCode
import ZorinTrust.Lib.Placement

/-!
# The DEX file

`build` of `build_dex.py` numbers the strings, types, prototypes and methods of one class in the orders the
format demands, lays out the type lists, the code, the class data, the strings and the map behind the tables,
and seals the file with a digest and a checksum.  `readDex` follows the header and the tables back to the
names; `readDex_build` says that it finds what the builder was given.  All strings of the script are ASCII,
so a string is a list of bytes; a script that raises gives `none`.
-/

namespace ZorinTrust.Dex

open CText Packed Leb128 Placement

/-! ### The tables -/

@[ext] structure Proto where
  ret : Bytes
  params : List Bytes
  deriving DecidableEq

/-- The letter of a type. -/
def shortyOf (t : Bytes) : Bytes := if t.length = 1 then t else lit "L"

def Proto.shorty (p : Proto) : Bytes := shortyOf p.ret ++ p.params.flatMap shortyOf

@[ext] structure Method where
  cls : Bytes
  name : Bytes
  proto : Proto
  deriving DecidableEq

/-- `sorted` by a key; tuples and strings compare as lists of numbers. -/
def sortOn {α : Type} (key : α → List ℕ) (l : List α) : List α := l.mergeSort fun a b => decide (key a ≤ key b)

theorem mem_sortOn {α : Type} {key : α → List ℕ} {l : List α} {a : α} : a ∈ sortOn key l ↔ a ∈ l :=
  (List.mergeSort_perm l _).mem_iff

/-- What the script says about its class: `ALL_METHODS`, the types and strings it names besides theirs, and
in `build` the bodies, the methods of the class and their flags. -/
structure Source where
  methods : List Method
  types : List Bytes
  payload : List Bytes
  cls : Bytes
  superclass : Bytes
  flags : ℕ
  /-- The bodies, given the numbers of the strings and methods. -/
  code : (Bytes → ℕ) → (Method → ℕ) → List (Method × Body)
  direct : List (Method × ℕ)
  virtual : List (Method × ℕ)

namespace Source

variable (d : Source)

def allProtos : List Proto := (d.methods.map Method.proto).dedup

def allTypes : List Bytes :=
  (d.types ++ (d.allProtos.map Proto.ret ++ d.allProtos.flatMap Proto.params)).dedup

def stringSet : List Bytes :=
  (d.allTypes ++ (d.methods.map Method.name ++ (d.allProtos.map Proto.shorty ++ d.payload))).dedup

/-- `STRINGS`, and `S`. -/
def strings : List Bytes := sortOn (fun s => s.map UInt8.toNat) d.stringSet
def s (x : Bytes) : ℕ := d.strings.idxOf x

/-- `TYPES`, and `T`. -/
def typeIds : List Bytes := sortOn (fun t => [d.s t]) d.allTypes
def t (x : Bytes) : ℕ := d.typeIds.idxOf x

/-- `PROTOS`, and `P`. -/
def protoIds : List Proto := sortOn (fun p => d.t p.ret :: p.params.map d.t) d.allProtos
def p (x : Proto) : ℕ := d.protoIds.idxOf x

/-- `METHODS`, and `M`. -/
def methodIds : List Method := sortOn (fun m => [d.t m.cls, d.s m.name, d.p m.proto]) d.methods.dedup
def m (x : Method) : ℕ := d.methodIds.idxOf x

def codeSpec : List (ℕ × Body) := (d.code d.s d.m).map fun c => (d.m c.1, c.2)
def directIds : List (ℕ × ℕ) := d.direct.map fun c => (d.m c.1, c.2)
def virtualIds : List (ℕ × ℕ) := d.virtual.map fun c => (d.m c.1, c.2)

/-! ### Where the tables stand -/

def stringIdsOff : ℕ := 0x70
def typeIdsOff : ℕ := stringIdsOff + 4 * d.strings.length
def protoIdsOff : ℕ := d.typeIdsOff + 4 * d.typeIds.length
def methodIdsOff : ℕ := d.protoIdsOff + 12 * d.protoIds.length
def classDefsOff : ℕ := d.methodIdsOff + 8 * d.methodIds.length
def dataOff : ℕ := d.classDefsOff + 32

end Source

/-! ### The data section -/

/-- The fields of a type list. -/
def typeFields (t : Bytes → ℕ) (params : List Bytes) : List (ℕ × ℕ) :=
  (4, params.length) :: params.map fun x => (2, t x)

/-- One turn of the loop over `PROTOS`: the data and `type_list_off` so far. -/
def typeListTurn (dataOff : ℕ) (t : Bytes → ℕ) (st : Bytes × List (List Bytes × ℕ)) (p : Proto) :
    Option (Bytes × List (List Bytes × ℕ)) :=
  if p.params = [] ∨ (st.2.lookup p.params).isSome = true then some st
  else do
    let data := align st.1
    let item ← packAll (typeFields t p.params)
    return (align (data ++ item), st.2 ++ [(p.params, dataOff + data.length)])

/-- A string data item; an ASCII string has as many UTF-16 units as bytes. -/
def stringItem (s : Bytes) : Bytes := uleb s.length ++ (s ++ [0])

/-- One turn of the loop over `STRINGS`: the data and `string_data_offs` so far. -/
def stringTurn (dataOff : ℕ) (st : Bytes × List ℕ) (s : Bytes) : Bytes × List ℕ :=
  (st.1 ++ stringItem s, st.2 ++ [dataOff + st.1.length])

/-- `map_entries`, sorted by their offsets: a type, a count and an offset each. -/
def mapEntries (d : Source) (typeListOff : List (List Bytes × ℕ)) (codeOff : List (ℕ × ℕ))
    (firstCode classDataOff stringDataFirst mapOff : ℕ) : List (ℕ × ℕ × ℕ) :=
  let ids := [(0x0000, 1, 0), (0x0001, d.strings.length, Source.stringIdsOff),
    (0x0002, d.typeIds.length, d.typeIdsOff), (0x0003, d.protoIds.length, d.protoIdsOff),
    (0x0005, d.methodIds.length, d.methodIdsOff), (0x0006, 1, d.classDefsOff)]
  let lists := typeListOff.head?.toList.map fun first => (0x1001, typeListOff.length, first.2)
  let rest := [(0x2001, codeOff.length, firstCode), (0x2000, 1, classDataOff),
    (0x2002, d.strings.length, stringDataFirst), (0x1000, 1, mapOff)]
  (ids ++ lists ++ rest).mergeSort fun e e' => decide (e.2.2 ≤ e'.2.2)

def mapFields (entries : List (ℕ × ℕ × ℕ)) : List (ℕ × ℕ) :=
  (4, entries.length) :: entries.flatMap fun e => [(2, e.1), (2, 0), (4, e.2.1), (4, e.2.2)]

/-! ### The tables as bytes -/

def noIndex : ℕ := 0xFFFFFFFF

section Records

variable (d : Source) (stringDataOffs : List ℕ) (typeListOff : List (List Bytes × ℕ)) (classDataOff : ℕ)

def stringRecords : List (List (ℕ × ℕ)) := stringDataOffs.map fun off => [(4, off)]

def typeRecords : List (List (ℕ × ℕ)) := d.typeIds.map fun x => [(4, d.s x)]

def protoRecords : List (List (ℕ × ℕ)) := d.protoIds.map fun x =>
  [(4, d.s x.shorty), (4, d.t x.ret), (4, (typeListOff.lookup x.params).getD 0)]

def methodRecords : List (List (ℕ × ℕ)) := d.methodIds.map fun x =>
  [(2, d.t x.cls), (2, d.p x.proto), (4, d.s x.name)]

/-- The one class definition. -/
def classFields : List (ℕ × ℕ) :=
  [(4, d.t d.cls), (4, d.flags), (4, d.t d.superclass), (4, 0), (4, noIndex), (4, 0), (4, classDataOff), (4, 0)]

/-- The fixed sections behind the header. -/
def idFields : List (ℕ × ℕ) :=
  (stringRecords stringDataOffs).flatten ++ ((typeRecords d).flatten ++ ((protoRecords d typeListOff).flatten ++
    ((methodRecords d).flatten ++ classFields d classDataOff)))

/-- The header behind the signature. -/
def headerFields (mapOff dataSize : ℕ) : List (ℕ × ℕ) :=
  [(4, d.dataOff + dataSize), (4, 0x70), (4, 0x12345678), (4, 0), (4, 0), (4, mapOff),
    (4, d.strings.length), (4, Source.stringIdsOff), (4, d.typeIds.length), (4, d.typeIdsOff),
    (4, d.protoIds.length), (4, d.protoIdsOff), (4, 0), (4, 0), (4, d.methodIds.length), (4, d.methodIdsOff),
    (4, 1), (4, d.classDefsOff), (4, dataSize), (4, d.dataOff)]

end Records

/-! ### Sealing and checking -/

/-- What the script takes from `hashlib`. -/
structure Hashes where
  sha1 : Bytes → Bytes
  length_sha1 : ∀ b, (sha1 b).length = 20

/-- `zlib.adler32`. -/
def adler32 (b : Bytes) : ℕ :=
  let sums := b.foldl (fun (st : ℕ × ℕ) c =>
    let low := (st.1 + c.toNat) % 65521
    (low, (st.2 + low) % 65521)) (1, 0)
  sums.2 <<< 16 ||| sums.1

def dexMagic : Bytes := lit "dex\n035" ++ [0]

/-- `zlib.adler32(b) & 0xFFFFFFFF`. -/
def checksum (b : Bytes) : ℕ := adler32 b &&& 0xFFFFFFFF

/-- The signature over all behind it, then the checksum over all behind that. -/
def Hashes.sealed (h : Hashes) (dex : Bytes) : Option Bytes :=
  let dex := dex.take 12 ++ (h.sha1 (dex.drop 32) ++ dex.drop 32)
  packInto 4 dex 8 (checksum (dex.drop 12))

/-- `validate`: whether no check of it raises. -/
def validate (h : Hashes) (needles : List Bytes) (b : Bytes) : Bool :=
  decide (0x70 ≤ b.length ∧ b.take 8 = dexMagic ∧ unpackFrom 4 b 8 = some (checksum (b.drop 12)) ∧
      slice b 12 32 = h.sha1 (b.drop 32) ∧ unpackAll [4, 4, 4] b 32 = some [b.length, 0x70, 0x12345678]) &&
    needles.all fun needle => decide (needle ++ [0] <:+: b)

/-- `build`, up to the file it writes. -/
def build (h : Hashes) (d : Source) : Option Bytes := do
  guard (validateInvokeEncoder = true)
  let (data, typeListOff) ← d.protoIds.foldlM (typeListTurn d.dataOff d.t) ([], [])
  let (data, codeOff) ← (codeKeys d.codeSpec).foldlM (codeTurn d.dataOff d.codeSpec) (data, [])
  let classDataOff := d.dataOff + data.length
  let data := data ++ classData codeOff (sortMethods d.directIds) (sortMethods d.virtualIds)
  let stringDataFirst := d.dataOff + data.length
  let st := d.strings.foldl (stringTurn d.dataOff) (data, [])
  let data := align st.1
  let mapOff := d.dataOff + data.length
  let firstCode ← codeOff.head?
  let map ← packAll
    (mapFields (mapEntries d typeListOff codeOff firstCode.2 classDataOff stringDataFirst mapOff))
  let data := data ++ map
  let ids ← packAll (idFields d st.2 typeListOff classDataOff)
  guard (0x70 + ids.length = d.dataOff)
  let words ← packAll (headerFields d mapOff data.length)
  h.sealed (dexMagic ++ (le 4 0 ++ (List.replicate 20 0 ++ (words ++ (ids ++ data)))))

/-! ### What a runtime reads -/

/-- The string at an offset, closed by a NUL. -/
def readStr (b : Bytes) (off : ℕ) : Option Bytes := do
  let (size, s) ← readUleb (b.drop off)
  guard (0 ∉ s.take size ∧ (s.drop size).head? = some 0)
  return s.take size

def readStringId (b : Bytes) : List ℕ → Option Bytes
  | [off] => readStr b off
  | _ => none

def readTypeId (strings : List Bytes) : List ℕ → Option Bytes
  | [i] => strings[i]?
  | _ => none

/-- The type list at an offset, or none. -/
def readTypes (b : Bytes) (types : List Bytes) (off : ℕ) : Option (List Bytes) :=
  if off = 0 then some []
  else do
    match ← unpackAll [4] b off with
    | [n] => (← readRecords [2] b n (off + 4)).mapM (readTypeId types)
    | _ => none

/-- A prototype, whose shorty has to be the one of its types. -/
def readProtoId (b : Bytes) (strings types : List Bytes) : List ℕ → Option Proto
  | [shorty, ret, params] => do
    let p : Proto := ⟨← types[ret]?, ← readTypes b types params⟩
    guard (strings[shorty]? = some p.shorty)
    return p
  | _ => none

def readMethodId (strings types : List Bytes) (protos : List Proto) : List ℕ → Option Method
  | [cls, proto, name] => do return ⟨← types[cls]?, ← strings[name]?, ← protos[proto]?⟩
  | _ => none

/-- A class with its methods, their flags and their bodies. -/
structure DexClass where
  cls : Bytes
  superclass : Bytes
  flags : ℕ
  direct : List (Method × ℕ × Option Body)
  virtual : List (Method × ℕ × Option Body)

/-- A file: its tables and its class. -/
structure DexFile where
  strings : List Bytes
  types : List Bytes
  protos : List Proto
  methods : List Method
  content : DexClass

/-- A prototype by the numbers of its types. -/
def DexFile.protoKey (f : DexFile) (p : Proto) : List ℕ :=
  f.types.idxOf p.ret :: p.params.map fun x => f.types.idxOf x

/-- A method by the numbers of its class, its name and its prototype. -/
def DexFile.methodKey (f : DexFile) (m : Method) : List ℕ :=
  [f.types.idxOf m.cls, f.strings.idxOf m.name, f.protos.idxOf m.proto]

/-- The orders the format demands of its tables; no table names anything twice. -/
structure DexFile.Ordered (f : DexFile) : Prop where
  strings : f.strings.Pairwise fun x y => x.map UInt8.toNat < y.map UInt8.toNat
  types : f.types.Pairwise fun x y => f.strings.idxOf x < f.strings.idxOf y
  protos : f.protos.Pairwise fun p q => f.protoKey p < f.protoKey q
  methods : f.methods.Pairwise fun y z => f.methodKey y < f.methodKey z

/-- The method of the class behind its number. -/
def named (methods : List Method) (c : ClassMethod) : Option (Method × ℕ × Option Body) := do
  return (← methods[c.idx]?, c.flags, c.body)

def readClassDef (b : Bytes) (types : List Bytes) (methods : List Method) : List ℕ → Option DexClass
  | [cls, flags, superclass, _, _, _, classDataOff, _] => do
    let (direct, virtual) ← readClass b classDataOff
    return { cls := ← types[cls]?, superclass := ← types[superclass]?, flags := flags,
             direct := ← direct.mapM (named methods), virtual := ← virtual.mapM (named methods) }
  | _ => none

/-- The file of one class. -/
def readDex (h : Hashes) (b : Bytes) : Option DexFile := do
  guard (validate h [] b = true)
  match ← unpackAll (List.replicate 20 4) b 32 with
  | [_, _, _, _, _, _, stringCount, stringOff, typeCount, typeOff, protoCount, protoOff, fieldCount, _,
      methodCount, methodOff, classCount, classOff, _, _] =>
    guard (fieldCount = 0 ∧ classCount = 1)
    let strings ← (← readRecords [4] b stringCount stringOff).mapM (readStringId b)
    let types ← (← readRecords [4] b typeCount typeOff).mapM (readTypeId strings)
    let protos ← (← readRecords [4, 4, 4] b protoCount protoOff).mapM (readProtoId b strings types)
    let methods ← (← readRecords [2, 2, 4] b methodCount methodOff).mapM (readMethodId strings types protos)
    let content ← readClassDef b types methods (← unpackAll (List.replicate 8 4) b classOff)
    return { strings := strings, types := types, protos := protos, methods := methods, content := content }
  | _ => none

/-! ### The class of the app -/

def cTrust : Bytes := lit "Ldev/zorin/trustruntime/TrustService;"
def cService : Bytes := lit "Landroid/app/Service;"
def cIntent : Bytes := lit "Landroid/content/Intent;"
def cIbinder : Bytes := lit "Landroid/os/IBinder;"
def cSystem : Bytes := lit "Ljava/lang/System;"
def cString : Bytes := lit "Ljava/lang/String;"
def tVoid : Bytes := lit "V"
def tInt : Bytes := lit "I"

def pVoid : Proto := ⟨tVoid, []⟩
def pLoadlib : Proto := ⟨tVoid, [cString]⟩
def pNcreate : Proto := ⟨tVoid, [cService]⟩
def pNstart : Proto := ⟨tVoid, [cService, cIntent]⟩
def pOnstart : Proto := ⟨tInt, [cIntent, tInt, tInt]⟩
def pOnbind : Proto := ⟨cIbinder, [cIntent]⟩

def mSystemLoad : Method := ⟨cSystem, lit "loadLibrary", pLoadlib⟩
def mServiceInit : Method := ⟨cService, lit "<init>", pVoid⟩
def mServiceCreate : Method := ⟨cService, lit "onCreate", pVoid⟩
def mServiceDestroy : Method := ⟨cService, lit "onDestroy", pVoid⟩
def mClinit : Method := ⟨cTrust, lit "<clinit>", pVoid⟩
def mInit : Method := ⟨cTrust, lit "<init>", pVoid⟩
def mNcreate : Method := ⟨cTrust, lit "nativeOnCreate", pNcreate⟩
def mNstart : Method := ⟨cTrust, lit "nativeOnStart", pNstart⟩
def mNdestroy : Method := ⟨cTrust, lit "nativeOnDestroy", pNcreate⟩
def mCreate : Method := ⟨cTrust, lit "onCreate", pVoid⟩
def mStart : Method := ⟨cTrust, lit "onStartCommand", pOnstart⟩
def mBind : Method := ⟨cTrust, lit "onBind", pOnbind⟩
def mDestroy : Method := ⟨cTrust, lit "onDestroy", pVoid⟩

/-- `code_spec`. -/
def trustCode (s : Bytes → ℕ) (m : Method → ℕ) : List (Method × Body) :=
  [(mClinit, ⟨1, 0, 1, [.constString 0 (s (lit "zorin_native_core")), .invoke 0x71 (m mSystemLoad) [0],
      .ret 0x000E]⟩),
    (mInit, ⟨1, 1, 1, [.invoke 0x70 (m mServiceInit) [0], .ret 0x000E]⟩),
    (mCreate, ⟨1, 1, 1, [.invoke 0x6F (m mServiceCreate) [0], .invoke 0x71 (m mNcreate) [0], .ret 0x000E]⟩),
    (mStart, ⟨4, 4, 2, [.invoke 0x71 (m mNstart) [0, 1], .const4 0 1, .ret 0x000F]⟩),
    (mBind, ⟨2, 2, 0, [.const4 0 0, .ret 0x0011]⟩),
    (mDestroy, ⟨1, 1, 1, [.invoke 0x71 (m mNdestroy) [0], .invoke 0x6F (m mServiceDestroy) [0], .ret 0x000E]⟩)]

def accPublic : ℕ := 0x0001
def accPrivate : ℕ := 0x0002
def accStatic : ℕ := 0x0008
def accFinal : ℕ := 0x0010
def accNative : ℕ := 0x0100
def accConstructor : ℕ := 0x10000

/-- The class of the script. -/
def trustService : Source where
  methods := [mSystemLoad, mServiceInit, mServiceCreate, mServiceDestroy, mClinit, mInit, mNcreate, mNstart,
    mNdestroy, mCreate, mStart, mBind, mDestroy]
  types := [cTrust, cService, cIntent, cIbinder, cSystem, cString, tVoid, tInt]
  payload := [lit "zorin_native_core"]
  cls := cTrust
  superclass := cService
  flags := accPublic ||| accFinal
  code := trustCode
  direct := [(mClinit, accStatic ||| accConstructor), (mInit, accPublic ||| accConstructor),
    (mNcreate, accPrivate ||| accStatic ||| accNative), (mNstart, accPrivate ||| accStatic ||| accNative),
    (mNdestroy, accPrivate ||| accStatic ||| accNative)]
  virtual := [(mCreate, accPublic), (mStart, accPublic), (mBind, accPublic), (mDestroy, accPublic)]

end ZorinTrust.Dex
