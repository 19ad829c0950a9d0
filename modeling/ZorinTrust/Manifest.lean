import ZorinTrust.Lib.Loop
import ZorinTrust.Lib.Packed

/-!
# The binary manifest

`build_manifest.py` writes Android's binary XML, `verify_manifest.py` reads it: a document is a header
and a row of chunks, each with its type and its size, and an attribute names its strings by their place
in the pool.  A script that raises gives `none`.  The reader's walk follows the sizes in the file, a
size of zero holds it in place for ever, so it is run for a number of turns.
-/

namespace ZorinTrust

open CText Packed Loop

/-! ### The writer -/

def no : ℕ := 0xFFFFFFFF
def resXmlType : ℕ := 0x0003
def resStringPoolType : ℕ := 0x0001
def resXmlResourceMapType : ℕ := 0x0180
def resXmlStartNamespaceType : ℕ := 0x0100
def resXmlEndNamespaceType : ℕ := 0x0101
def resXmlStartElementType : ℕ := 0x0102
def resXmlEndElementType : ℕ := 0x0103
def utf8Flag : ℕ := 0x0100
def typeString : ℕ := 0x03
def typeIntDec : ℕ := 0x10
def typeIntBoolean : ℕ := 0x12

def resourceAttrs : List (String × ℕ) :=
  [("label", 0x01010001), ("name", 0x01010003), ("permission", 0x01010006), ("hasCode", 0x0101000C),
    ("exported", 0x01010010), ("process", 0x01010011), ("value", 0x01010024), ("scheme", 0x01010027),
    ("host", 0x01010028), ("minSdkVersion", 0x0101020C), ("versionCode", 0x0101021B),
    ("versionName", 0x0101021C), ("targetSdkVersion", 0x01010270), ("stopWithTask", 0x0101036A),
    ("foregroundServiceType", 0x01010519)]

def androidUri : String := "http://schemas.android.com/apk/res/android"

/-- `STRINGS`: the resource names first, so that the resource map can go by the same places. -/
def strings : List String :=
  resourceAttrs.map Prod.fst ++
    ["package", "android", androidUri, "manifest", "uses-sdk", "application", "activity", "service",
      "property", "meta-data", "intent-filter", "action", "category", "data", "uses-permission",
      "android.permission.INTERNET", "android.permission.FOREGROUND_SERVICE",
      "android.permission.FOREGROUND_SERVICE_SPECIAL_USE", "android.permission.SYSTEM_ALERT_WINDOW",
      "dev.zorin.trustruntime", "8.2.0", "Zorin Trust", ":trust", "android.app.NativeActivity",
      "dev.zorin.trustruntime.TrustService", "android.permission.DUMP",
      "android.app.PROPERTY_SPECIAL_USE_FGS_SUBTYPE",
      "persistent cryptographic owner-device trust over authenticated transport",
      "android.app.lib_name", "zorin_native_core", "android.intent.action.MAIN",
      "android.intent.category.LAUNCHER", "android.intent.action.VIEW",
      "android.intent.category.DEFAULT", "android.intent.category.BROWSABLE", "zorintrust", "connect"]

/-- `INDEX[value]`; no string is there twice (`nodup_strings`). -/
def index (value : String) : Option ℕ := strings.idxOf? value

/-- `value.encode('utf-8')`. -/
def encodeUtf8 (value : String) : Bytes := value.toUTF8.data.toList

/-- `uleb8_len`. -/
def uleb8Len (value : ℕ) : Option Bytes :=
  if value < 128 then some [UInt8.ofNat value]
  else if 0x80 ||| value >>> 8 < 256 then
    some [UInt8.ofNat (0x80 ||| value >>> 8), UInt8.ofNat (value &&& 0xFF)]
  else none

/-- `chunk_header`. -/
def chunkHeader (chunkType headerSize size : ℕ) : Option Bytes :=
  packAll [(2, chunkType), (2, headerSize), (4, size)]

/-- What the loop of `string_pool` adds to the blob for a string. -/
def poolEntry (value : String) : Option Bytes := do
  let encoded := encodeUtf8 value
  return (← uleb8Len value.length) ++ (← uleb8Len encoded.length) ++ encoded ++ [0]

/-- One turn of that loop: the blob and the offsets so far. -/
def poolTurn (st : Bytes × List ℕ) (value : String) : Option (Bytes × List ℕ) := do
  return (st.1 ++ (← poolEntry value), st.2 ++ [st.1.length])

/-- `string_pool`. -/
def stringPool : Option Bytes := do
  let (blob, offsets) ← strings.foldlM poolTurn ([], [])
  let blob := blob ++ List.replicate ((4 - blob.length % 4) % 4) 0
  let headerSize := 28
  let stringsStart := headerSize + 4 * strings.length
  let size := stringsStart + blob.length
  let header ← chunkHeader resStringPoolType headerSize size
  let counts ← packAll [(4, strings.length), (4, 0), (4, utf8Flag), (4, stringsStart), (4, 0)]
  let output ← packAll (offsets.map fun offset => (4, offset))
  return header ++ counts ++ output ++ blob

/-- `resource_map`. -/
def resourceMap : Option Bytes := do
  let resourceIds := resourceAttrs.map Prod.snd
  let size := 8 + 4 * resourceIds.length
  let header ← chunkHeader resXmlResourceMapType 8 size
  return header ++ (← packAll (resourceIds.map fun resourceId => (4, resourceId)))

/-- `node_header`. -/
def nodeHeader (chunkType size line : ℕ) : Option Bytes := do
  let header ← chunkHeader chunkType 16 size
  return header ++ (← packAll [(4, line), (4, no)])

/-- `ns_chunk`. -/
def nsChunk (start : Bool) (line : ℕ) : Option Bytes := do
  let chunkType := if start then resXmlStartNamespaceType else resXmlEndNamespaceType
  let header ← nodeHeader chunkType 24 line
  return header ++ (← packAll [(4, ← index "android"), (4, ← index androidUri)])

/-- The value of an attribute, by its kind. -/
inductive AttrValue
  | string (value : String)
  | int (value : ℤ)
  | bool (value : Bool)
  deriving DecidableEq

/-- The tuples `start_tag` takes. -/
structure Attr where
  name : String
  value : AttrValue
  android : Bool
  deriving DecidableEq

/-- The typed value of eight bytes. -/
def typedValue (valueType value : ℕ) : Option Bytes :=
  packAll [(2, 8), (1, 0), (1, valueType), (4, value)]

/-- `typed_string`. -/
def typedString (value : String) : Option (ℕ × Bytes) := do
  let stringIndex ← index value
  return (stringIndex, ← typedValue typeString stringIndex)

/-- `typed_int`; `value & NO` is the value modulo `2 ^ 32`. -/
def typedInt (value : ℤ) : Option (ℕ × Bytes) := do
  return (no, ← typedValue typeIntDec (value % 2 ^ 32).toNat)

/-- `typed_bool`. -/
def typedBool (value : Bool) : Option (ℕ × Bytes) := do
  return (no, ← typedValue typeIntBoolean (if value then no else 0))

/-- The raw index and the typed value, by the kind. -/
def AttrValue.typed : AttrValue → Option (ℕ × Bytes)
  | .string value => typedString value
  | .int value => typedInt value
  | .bool value => typedBool value

/-- The namespace of an attribute. -/
def attrNamespace (android : Bool) : Option ℕ := if android then index androidUri else some no

/-- `attr`. -/
def attr (item : Attr) : Option Bytes := do
  let namespaceIndex ← attrNamespace item.android
  let nameIndex ← index item.name
  let (raw, typed) ← item.value.typed
  return (← packAll [(4, namespaceIndex), (4, nameIndex), (4, raw)]) ++ typed

/-- The key `start_tag` sorts by. -/
def sortKey (item : Attr) : ℕ × ℕ :=
  if item.android then (1, (resourceAttrs.lookup item.name).getD no) else (0, 0)

/-- The order of two keys, as Python compares tuples. -/
def keyLe (a b : ℕ × ℕ) : Bool := a.1 < b.1 || (a.1 == b.1 && a.2 ≤ b.2)

/-- `attributes.sort`, a stable sort like the library's. -/
def sortAttrs (attrs : List Attr) : List Attr :=
  attrs.mergeSort fun a b => keyLe (sortKey a) (sortKey b)

/-- `start_tag`. -/
def startTag (tag : String) (attrs : List Attr) (line : ℕ) : Option Bytes := do
  let attributes := sortAttrs attrs
  let body := (← attributes.mapM attr).flatten
  let extension ← packAll [(4, no), (4, ← index tag), (2, 20), (2, 20), (2, attributes.length), (2, 0),
    (2, 0), (2, 0)]
  let size := 16 + extension.length + body.length
  return (← nodeHeader resXmlStartElementType size line) ++ extension ++ body

/-- `end_tag`. -/
def endTag (tag : String) (line : ℕ) : Option Bytes := do
  let header ← nodeHeader resXmlEndElementType 24 line
  return header ++ (← packAll [(4, no), (4, ← index tag)])

/-- What `build` makes of its chunks. -/
def document (chunks : List Bytes) : Option Bytes := do
  let payload := chunks.flatten
  return (← chunkHeader resXmlType 8 (8 + payload.length)) ++ payload

/-! ### The reader -/

def noIndex : ℕ := 0xFFFFFFFF
def stringPoolChunk : ℕ := 0x0001
def resourceMapChunk : ℕ := 0x0180
def startElementChunk : ℕ := 0x0102

/-- What the reader gives for a value: a string of the pool, or the typed number. -/
inductive Rendered
  | text (value : String)
  | number (value : ℕ)
  deriving DecidableEq

structure ReadAttr where
  name : String
  resourceId : Option ℕ
  value : Rendered
  valueType : ℕ
  deriving DecidableEq

/-- `bytes.decode`. -/
def decodeUtf8 (b : Bytes) : Option String := String.fromUTF8? ⟨b.toArray⟩

/-- `read_utf8_length`. -/
def readUtf8Length (buffer : Bytes) (position : ℕ) : Option (ℕ × ℕ) := do
  let first ← buffer[position]?
  if first < 128 then return (first.toNat, position + 1)
  else
    let second ← buffer[position + 1]?
    return ((first.toNat &&& 0x7F) <<< 8 ||| second.toNat, position + 2)

/-- The string at a place of the pool. -/
def readString (data : Bytes) (cursor : ℕ) : Option String := do
  let (_, cursor) ← readUtf8Length data cursor
  let (byteLength, cursor) ← readUtf8Length data cursor
  decodeUtf8 (slice data cursor (cursor + byteLength))

/-- The strings of a pool chunk. -/
def readPool (data : Bytes) (position headerSize : ℕ) : Option (List String) := do
  let [stringCount, _, _, stringsStart, _] ← unpackAll [4, 4, 4, 4, 4] data (position + 8) | none
  let offsets ← unpackAll (List.replicate stringCount 4) data (position + headerSize)
  let base := position + stringsStart
  offsets.mapM fun offset => readString data (base + offset)

/-- The string of the raw index, or else the typed value. -/
def renderValue (strings : List String) (rawValueIndex typedValue : ℕ) : Option Rendered :=
  if rawValueIndex ≠ noIndex then strings[rawValueIndex]?.map Rendered.text
  else some (Rendered.number typedValue)

/-- The attribute at an offset. -/
def readAttr (data : Bytes) (strings : List String) (resourceIds : List ℕ) (offset : ℕ) :
    Option ReadAttr := do
  let [_, attributeNameIndex, rawValueIndex] ← unpackAll [4, 4, 4] data offset | none
  let [_, _, valueType, typedValue] ← unpackAll [2, 1, 1, 4] data (offset + 12) | none
  let attributeName ← strings[attributeNameIndex]?
  let resourceId := resourceIds[attributeNameIndex]?
  let renderedValue ← renderValue strings rawValueIndex typedValue
  return ⟨attributeName, resourceId, renderedValue, valueType⟩

/-- The element of a start chunk. -/
def readElement (data : Bytes) (strings : List String) (resourceIds : List ℕ) (position : ℕ) :
    Option (String × List ReadAttr) := do
  let [_, nameIndex] ← unpackAll [4, 4] data (position + 16) | none
  let [attributeStart, attributeSize, attributeCount, _, _, _] ←
    unpackAll [2, 2, 2, 2, 2, 2] data (position + 24) | none
  let tag ← strings[nameIndex]?
  let attributePosition := position + 16 + attributeStart
  let attributes ← (List.range attributeCount).mapM fun index =>
    readAttr data strings resourceIds (attributePosition + index * attributeSize)
  return (tag, attributes)

/-- The variables of `parse_manifest`. -/
structure Parse where
  position : ℕ
  strings : List String
  resourceIds : List ℕ
  elements : List (String × List ReadAttr)

/-- What a chunk adds to the variables. -/
def readChunk (data : Bytes) (st : Parse) (chunkType headerSize chunkSize : ℕ) : Option Parse :=
  if chunkType = stringPoolChunk then do
    return { st with strings := st.strings ++ (← readPool data st.position headerSize) }
  else if chunkType = resourceMapChunk then do
    -- a negative count is an empty format
    let count := (chunkSize - 8) / 4
    return { st with resourceIds := ← unpackAll (List.replicate count 4) data (st.position + 8) }
  else if chunkType = startElementChunk then do
    let element ← readElement data st.strings st.resourceIds st.position
    return { st with elements := st.elements ++ [element] }
  else some st

theorem readChunk_stringPool (data : Bytes) (st : Parse) (headerSize chunkSize : ℕ) :
    readChunk data st resStringPoolType headerSize chunkSize =
      (readPool data st.position headerSize).map fun ss => { st with strings := st.strings ++ ss } := by
  rw [readChunk, if_pos (show resStringPoolType = stringPoolChunk from rfl)]
  cases readPool data st.position headerSize <;> rfl

theorem readChunk_resourceMap (data : Bytes) (st : Parse) (headerSize chunkSize : ℕ) :
    readChunk data st resXmlResourceMapType headerSize chunkSize =
      (unpackAll (List.replicate ((chunkSize - 8) / 4) 4) data (st.position + 8)).map
        fun ids => { st with resourceIds := ids } := by
  rw [readChunk, if_neg (by decide), if_pos (show resXmlResourceMapType = resourceMapChunk from rfl)]
  dsimp only
  cases unpackAll (List.replicate ((chunkSize - 8) / 4) 4) data (st.position + 8) <;> rfl

theorem readChunk_startElement (data : Bytes) (st : Parse) (headerSize chunkSize : ℕ) :
    readChunk data st resXmlStartElementType headerSize chunkSize =
      (readElement data st.strings st.resourceIds st.position).map
        fun element => { st with elements := st.elements ++ [element] } := by
  rw [readChunk, if_neg (by decide), if_neg (by decide),
    if_pos (show resXmlStartElementType = startElementChunk from rfl)]
  cases readElement data st.strings st.resourceIds st.position <;> rfl

/-- Other chunks are passed over. -/
theorem readChunk_other (data : Bytes) (st : Parse) {chunkType : ℕ} (headerSize chunkSize : ℕ)
    (h : chunkType ∉ [stringPoolChunk, resourceMapChunk, startElementChunk]) :
    readChunk data st chunkType headerSize chunkSize = some st := by
  simp only [List.mem_cons, List.not_mem_nil, or_false, not_or] at h
  rw [readChunk, if_neg h.1, if_neg h.2.1, if_neg h.2.2]

/-- One turn of the walk over the chunks. -/
def chunkTurn (data : Bytes) (st : Parse) : Option (List (String × List ReadAttr) ⊕ Parse) :=
  if st.position < data.length then do
    let [chunkType, headerSize, chunkSize] ← unpackAll [2, 2, 4] data st.position | none
    let st ← readChunk data st chunkType headerSize chunkSize
    return Sum.inr { st with position := st.position + chunkSize }
  else some (Sum.inl st.elements)

/-- `parse_manifest`, for at most `n` turns. -/
def parseManifest (n : ℕ) (data : Bytes) : Option (List (String × List ReadAttr)) :=
  turns (chunkTurn data) n ⟨8, [], [], []⟩

end ZorinTrust
