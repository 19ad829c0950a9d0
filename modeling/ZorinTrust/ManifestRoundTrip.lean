import ZorinTrust.ManifestPool

/-!
# The manifest comes back

Each chunk the writer makes is passed over in one turn of the reader, which adds to its variables what
the chunk stands for: the pool its strings, the resource map its ids, a start chunk its element.  The
strings are found by place, so what an attribute reads as depends on nothing but the attribute.
-/

namespace ZorinTrust

open CText Packed Loop

/-! ### Attributes -/

/-- Strings are in the pool, and numbers fit their field. -/
def AttrValue.InPool : AttrValue → Prop
  | .string value => value ∈ strings
  | .int value => 0 ≤ value ∧ value < 2 ^ 32
  | .bool _ => True

instance : DecidablePred AttrValue.InPool := fun value =>
  match value with
  | .string value => inferInstanceAs (Decidable (value ∈ strings))
  | .int value => inferInstanceAs (Decidable (0 ≤ value ∧ value < 2 ^ 32))
  | .bool _ => inferInstanceAs (Decidable True)

/-- What the value of an attribute reads as. -/
def AttrValue.rendered : AttrValue → Rendered
  | .string value => .text value
  | .int value => .number value.toNat
  | .bool value => .number (if value then 0xFFFFFFFF else 0)

def AttrValue.valueType : AttrValue → ℕ
  | .string _ => 0x03
  | .int _ => 0x10
  | .bool _ => 0x12

/-- What an attribute reads as. -/
def Attr.read (item : Attr) : ReadAttr where
  name := item.name
  resourceId := resourceAttrs.lookup item.name
  value := item.value.rendered
  valueType := item.value.valueType

/-- The typed value is the rendered one, by the raw index or by itself. -/
theorem exists_typed {value : AttrValue} (h : value.InPool) : ∃ raw number,
    value.typed = some (raw, leAll [(2, 8), (1, 0), (1, value.valueType), (4, number)]) ∧
      raw < 256 ^ 4 ∧ number < 256 ^ 4 ∧ renderValue strings raw number = some value.rendered := by
  have htyped (t : ℕ) (n : ℕ) (ht : t < 256) (hn : n < 256 ^ 4) :
      typedValue t n = some (leAll [(2, 8), (1, 0), (1, t), (4, n)]) :=
    packAll_of_lt (by simpa using ⟨ht, hn⟩)
  cases value with
  | string v =>
    obtain ⟨i, hi⟩ := exists_index h
    obtain ⟨hlt, hv, -⟩ := of_index hi
    have hlen : strings.length = 52 := rfl
    have hne : i ≠ noIndex := by
      rw [noIndex]
      omega
    refine ⟨i, i, ?_, by omega, by omega, ?_⟩
    · rw [AttrValue.typed, typedString, hi, Option.bind_eq_bind, Option.bind_some,
        htyped typeString i (by decide) (by omega)]
      rfl
    · rw [renderValue, if_pos hne, hv]
      rfl
  | int n =>
    have hmod : n % 2 ^ 32 = n := Int.emod_eq_of_lt h.1 h.2
    have hlt : n.toNat < 256 ^ 4 := by
      have := h.2
      omega
    refine ⟨no, n.toNat, ?_, by decide, hlt, if_neg (by decide)⟩
    rw [AttrValue.typed, typedInt, hmod, htyped typeIntDec n.toNat (by decide) hlt]
    rfl
  | bool b =>
    have hlt : (if b then no else 0) < 256 ^ 4 := by cases b <;> decide
    refine ⟨no, if b then no else 0, ?_, by decide, hlt, if_neg (by decide)⟩
    rw [AttrValue.typed, typedBool, htyped typeIntBoolean _ (by decide) hlt]
    rfl

theorem androidUri_mem : androidUri ∈ strings := by decide +kernel

theorem index_lt {v : String} {i : ℕ} (h : index v = some i) : i < 256 ^ 4 := by
  have hlt := (of_index h).1
  have hlen : strings.length = 52 := rfl
  omega

theorem exists_attrNamespace (android : Bool) :
    ∃ space, attrNamespace android = some space ∧ space < 256 ^ 4 := by
  obtain ⟨i, hi⟩ := exists_index androidUri_mem
  cases android with
  | true => exact ⟨i, hi, index_lt hi⟩
  | false => exact ⟨no, rfl, by decide⟩

theorem valueType_lt (value : AttrValue) : value.valueType < 256 := by
  cases value <;> simp [AttrValue.valueType]

/-- An attribute is read where it was written. -/
theorem exists_attr {item : Attr} (hname : item.name ∈ strings) (hvalue : item.value.InPool) :
    ∃ b, attr item = some b ∧ b.length = 20 ∧ ∀ {data pre post : Bytes} {pos : ℕ},
      data = pre ++ (b ++ post) → pos = pre.length →
        readAttr data strings (resourceAttrs.map Prod.snd) pos = some item.read := by
  obtain ⟨nameIndex, hindex⟩ := exists_index hname
  obtain ⟨-, hnameAt, hidAt⟩ := of_index hindex
  obtain ⟨raw, number, htyped, hraw, hnumber, hrendered⟩ := exists_typed hvalue
  obtain ⟨space, hspace, hspacelt⟩ := exists_attrNamespace item.android
  have hfirst : ∀ f ∈ [(4, space), (4, nameIndex), (4, raw)], f.2 < 256 ^ f.1 := by
    simpa using ⟨hspacelt, index_lt hindex, hraw⟩
  have hsecond : ∀ f ∈ [(2, 8), (1, 0), (1, item.value.valueType), (4, number)], f.2 < 256 ^ f.1 := by
    simpa using ⟨valueType_lt item.value, hnumber⟩
  refine ⟨leAll [(4, space), (4, nameIndex), (4, raw)] ++
    leAll [(2, 8), (1, 0), (1, item.value.valueType), (4, number)], ?_, ?_, ?_⟩
  · simp only [attr, hspace, hindex, htyped, Option.bind_eq_bind, Option.bind_some, packAll_of_lt hfirst,
      Option.pure_def]
  · rw [List.length_append, length_leAll, length_leAll]
    rfl
  · intro data pre post pos hdata hpos
    rw [List.append_assoc] at hdata
    have hrest : data = pre ++ leAll [(4, space), (4, nameIndex), (4, raw)] ++
        (leAll [(2, 8), (1, 0), (1, item.value.valueType), (4, number)] ++ post) := by
      rw [hdata, List.append_assoc]
    have h1 : unpackAll [4, 4, 4] data pos = some [space, nameIndex, raw] :=
      unpackAll_leAll hdata hpos hfirst
    have h2 : unpackAll [2, 1, 1, 4] data (pos + 12) = some [8, 0, item.value.valueType, number] :=
      unpackAll_leAll hrest (by rw [hpos, List.length_append, length_leAll]; rfl) hsecond
    simp only [readAttr, Option.bind_eq_bind, h1, h2, Option.bind_some, hnameAt, hidAt, hrendered,
      Option.pure_def]
    rfl

/-- The attributes of an element, at their stride. -/
theorem exists_attrs : ∀ {items : List Attr},
    (∀ item ∈ items, item.name ∈ strings ∧ item.value.InPool) →
    ∃ bs, items.mapM attr = some bs ∧ bs.flatten.length = 20 * items.length ∧
      ∀ {data pre post : Bytes}, data = pre ++ (bs.flatten ++ post) →
        ((List.range items.length).mapM fun i =>
          readAttr data strings (resourceAttrs.map Prod.snd) (pre.length + i * 20)) =
          some (items.map Attr.read)
  | [], _ => ⟨[], rfl, rfl, fun _ => rfl⟩
  | item :: items, h => by
    rw [List.forall_mem_cons] at h
    obtain ⟨b, hb, hlen, hread⟩ := exists_attr h.1.1 h.1.2
    obtain ⟨bs, hbs, hlens, hreads⟩ := exists_attrs h.2
    refine ⟨b :: bs, ?_, ?_, fun {data pre post} hdata => ?_⟩
    · rw [List.mapM_cons, hb, hbs]
      rfl
    · rw [List.flatten_cons, List.length_append, hlen, hlens, List.length_cons]
      omega
    · rw [List.flatten_cons, List.append_assoc] at hdata
      have hnext : data = pre ++ b ++ (bs.flatten ++ post) := by rw [hdata, List.append_assoc]
      have hfirst := hread hdata rfl
      have hrest := hreads hnext
      have hshift (i : ℕ) : (pre ++ b).length + i * 20 = pre.length + (i + 1) * 20 := by
        rw [List.length_append, hlen, Nat.add_mul]
        omega
      simp only [hshift] at hrest
      have hcomp : (fun i => readAttr data strings (resourceAttrs.map Prod.snd) (pre.length + i * 20)) ∘
          Nat.succ = fun i => readAttr data strings (resourceAttrs.map Prod.snd)
            (pre.length + (i + 1) * 20) := rfl
      rw [List.length_cons, List.range_succ_eq_map, List.mapM_cons, Nat.zero_mul, Nat.add_zero, hfirst,
        List.mapM_map, hcomp, hrest]
      rfl

/-! ### The order of the attributes -/

/-- The order of resource ids, a missing one last. -/
def IdLe : Option ℕ → Option ℕ → Prop
  | some m, some n => m ≤ n
  | none, some _ => False
  | _, none => True

/-- Plain attributes come first, then the android ones by their resource ids. -/
def Attr.Before (a b : Attr) : Prop :=
  (a.android → b.android) ∧
    (a.android → b.android → IdLe (resourceAttrs.lookup a.name) (resourceAttrs.lookup b.name))

theorem lookup_lt_no {name : String} {n : ℕ} (h : resourceAttrs.lookup name = some n) : n < no := by
  obtain ⟨l₁, l₂, hsplit, -⟩ := List.lookup_eq_some_iff.mp h
  refine resourceIds_lt n ?_
  rw [hsplit]
  simp

theorem keyLe_iff {k k' : ℕ × ℕ} : keyLe k k' = true ↔ k.1 < k'.1 ∨ k.1 = k'.1 ∧ k.2 ≤ k'.2 := by
  rw [keyLe, Bool.or_eq_true, Bool.and_eq_true, decide_eq_true_eq, beq_iff_eq, decide_eq_true_eq]

theorem before_of_keyLe {a b : Attr} (h : keyLe (sortKey a) (sortKey b) = true) : a.Before b := by
  rw [keyLe_iff] at h
  refine ⟨fun ha => ?_, fun ha hb => ?_⟩
  · by_contra hb
    rw [sortKey, sortKey, if_pos ha, if_neg hb] at h
    omega
  · rw [sortKey, sortKey, if_pos ha, if_pos hb] at h
    cases hx : resourceAttrs.lookup a.name with
    | none =>
      cases hy : resourceAttrs.lookup b.name with
      | none => trivial
      | some y =>
        have hlt := lookup_lt_no hy
        rw [hx, hy, Option.getD_none, Option.getD_some] at h
        omega
    | some x =>
      cases hy : resourceAttrs.lookup b.name with
      | none => trivial
      | some y =>
        rw [hx, hy, Option.getD_some, Option.getD_some] at h
        show x ≤ y
        omega

theorem sortAttrs_perm (attrs : List Attr) : (sortAttrs attrs).Perm attrs := List.mergeSort_perm _ _

theorem sortAttrs_pairwise (attrs : List Attr) : (sortAttrs attrs).Pairwise Attr.Before := by
  have htrans : ∀ a b c : Attr, keyLe (sortKey a) (sortKey b) = true →
      keyLe (sortKey b) (sortKey c) = true → keyLe (sortKey a) (sortKey c) = true := by
    intro a b c hab hbc
    rw [keyLe_iff] at hab hbc ⊢
    omega
  have htotal : ∀ a b : Attr,
      (keyLe (sortKey a) (sortKey b) || keyLe (sortKey b) (sortKey a)) = true := by
    intro a b
    rw [Bool.or_eq_true, keyLe_iff, keyLe_iff]
    omega
  exact (List.pairwise_mergeSort htrans htotal attrs).imp before_of_keyLe

/-! ### Nodes -/

/-- The calls that make the chunks behind the resource map. -/
inductive Node
  | startTag (tag : String) (attrs : List Attr) (line : ℕ)
  | endTag (tag : String) (line : ℕ)
  | nsChunk (start : Bool) (line : ℕ)

def Node.chunk : Node → Option Bytes
  | .startTag tag attrs line => ZorinTrust.startTag tag attrs line
  | .endTag tag line => ZorinTrust.endTag tag line
  | .nsChunk start line => ZorinTrust.nsChunk start line

/-- Names and string values are in the pool, and what is counted or numbered fits its field. -/
def Node.InPool : Node → Prop
  | .startTag tag attrs line => tag ∈ strings ∧ attrs.length ≤ 65535 ∧ line < 2 ^ 32 ∧
      ∀ item ∈ attrs, item.name ∈ strings ∧ item.value.InPool
  | .endTag tag line => tag ∈ strings ∧ line < 2 ^ 32
  | .nsChunk _ line => line < 2 ^ 32

instance : DecidablePred Node.InPool := fun node =>
  match node with
  | .startTag tag attrs line => inferInstanceAs (Decidable (tag ∈ strings ∧ attrs.length ≤ 65535 ∧
      line < 2 ^ 32 ∧ ∀ item ∈ attrs, item.name ∈ strings ∧ item.value.InPool))
  | .endTag tag line => inferInstanceAs (Decidable (tag ∈ strings ∧ line < 2 ^ 32))
  | .nsChunk _ line => inferInstanceAs (Decidable (line < 2 ^ 32))

/-- What a node reads as. -/
def Node.read : Node → List (String × List ReadAttr)
  | .startTag tag attrs _ => [(tag, (sortAttrs attrs).map Attr.read)]
  | .endTag _ _ => []
  | .nsChunk _ _ => []

/-- How long the chunk of a node is. -/
def Node.size : Node → ℕ
  | .startTag _ attrs _ => 36 + 20 * attrs.length
  | .endTag _ _ => 24
  | .nsChunk _ _ => 24

/-- The header of a node's chunk. -/
def nodeHead (chunkType size line : ℕ) : Bytes :=
  leAll [(2, chunkType), (2, 16), (4, size)] ++ leAll [(4, line), (4, no)]

@[simp] theorem length_nodeHead (chunkType size line : ℕ) : (nodeHead chunkType size line).length = 16 := by
  rw [nodeHead, List.length_append, length_leAll, length_leAll]
  rfl

theorem nodeHeader_of_lt {t size line : ℕ} (ht : t < 256 ^ 2) (hsize : size < 256 ^ 4)
    (hline : line < 256 ^ 4) : nodeHeader t size line = some (nodeHead t size line) := by
  have hfields : ∀ f ∈ [(4, line), (4, no)], f.2 < 256 ^ f.1 := by
    simpa using ⟨hline, show no < 256 ^ 4 by decide⟩
  rw [nodeHeader, chunkHeader_of_lt ht (by decide) hsize, packAll_of_lt hfields]
  rfl

/-- A turn at the chunk of a node. -/
theorem chunkTurn_node {t line : ℕ} {body data pre post : Bytes} {st st' : Parse} (ht : t < 256 ^ 2)
    (hsize : 16 + body.length < 256 ^ 4)
    (hdata : data = pre ++ (nodeHead t (16 + body.length) line ++ body ++ post))
    (hpos : st.position = pre.length) (hread : readChunk data st t 16 (16 + body.length) = some st')
    (hkeep : st'.position = st.position) : chunkTurn data st =
      some (Sum.inr { st' with
        position := pre.length + (nodeHead t (16 + body.length) line ++ body).length }) := by
  have hlen : (nodeHead t (16 + body.length) line ++ body).length = 16 + body.length := by
    rw [List.length_append, length_nodeHead]
  have hchunk : nodeHead t (16 + body.length) line ++ body =
      leAll [(2, t), (2, 16), (4, (nodeHead t (16 + body.length) line ++ body).length)] ++
        (leAll [(4, line), (4, no)] ++ body) := by
    rw [hlen, nodeHead, List.append_assoc]
  refine chunkTurn_eq ht (by decide) (by omega) hchunk hdata hpos ?_ hkeep
  rw [hlen]
  exact hread

/-- Behind the pool and the map, a turn passes over the chunk and adds the elements. -/
def ReadsAs (chunk : Bytes) (elements : List (String × List ReadAttr)) : Prop :=
  ∀ {data pre post : Bytes} {els : List (String × List ReadAttr)}, data = pre ++ (chunk ++ post) →
    chunkTurn data ⟨pre.length, strings, resourceAttrs.map Prod.snd, els⟩ =
      some (Sum.inr ⟨pre.length + chunk.length, strings, resourceAttrs.map Prod.snd, els ++ elements⟩)

/-- A chunk of a type the reader does not know. -/
theorem readsAs_nil {t line : ℕ} (ht : t < 256 ^ 2)
    (hother : t ∉ [stringPoolChunk, resourceMapChunk, startElementChunk]) {body : Bytes}
    (hbody : body.length = 8) : ReadsAs (nodeHead t 24 line ++ body) [] := by
  intro data pre post els hdata
  have h24 : 24 = 16 + body.length := by rw [hbody]
  rw [h24] at hdata ⊢
  rw [List.append_nil]
  exact chunkTurn_node ht (by omega) hdata rfl (readChunk_other _ _ _ _ hother) rfl

theorem readsAs_endTag {tag : String} {line : ℕ} (htag : tag ∈ strings) (hline : line < 2 ^ 32) :
    ∃ c, endTag tag line = some c ∧ c.length = 24 ∧ ReadsAs c [] := by
  obtain ⟨i, hi⟩ := exists_index htag
  have hheader : nodeHeader resXmlEndElementType 24 line = some (nodeHead resXmlEndElementType 24 line) :=
    nodeHeader_of_lt (by decide) (by decide) hline
  have hfields : packAll [(4, no), (4, i)] = some (leAll [(4, no), (4, i)]) :=
    packAll_of_lt (by simpa using ⟨show no < 256 ^ 4 by decide, index_lt hi⟩)
  refine ⟨nodeHead resXmlEndElementType 24 line ++ leAll [(4, no), (4, i)], ?_, ?_,
    readsAs_nil (by decide) (by decide) (length_leAll _)⟩
  · simp only [endTag, Option.bind_eq_bind, hheader, hi, Option.bind_some, hfields, Option.pure_def]
  · rw [List.length_append, length_nodeHead, length_leAll]
    rfl

theorem readsAs_nsChunk (start : Bool) {line : ℕ} (hline : line < 2 ^ 32) :
    ∃ c, nsChunk start line = some c ∧ c.length = 24 ∧ ReadsAs c [] := by
  obtain ⟨i, hi⟩ := exists_index (show "android" ∈ strings by decide +kernel)
  obtain ⟨j, hj⟩ := exists_index androidUri_mem
  obtain ⟨t, ht, htype, hother⟩ : ∃ t,
      t = (if start then resXmlStartNamespaceType else resXmlEndNamespaceType) ∧ t < 256 ^ 2 ∧
        t ∉ [stringPoolChunk, resourceMapChunk, startElementChunk] := by
    cases start <;> exact ⟨_, rfl, by decide, by decide⟩
  have hheader : nodeHeader t 24 line = some (nodeHead t 24 line) :=
    nodeHeader_of_lt htype (by decide) hline
  have hfields : packAll [(4, i), (4, j)] = some (leAll [(4, i), (4, j)]) :=
    packAll_of_lt (by simpa using ⟨index_lt hi, index_lt hj⟩)
  refine ⟨nodeHead t 24 line ++ leAll [(4, i), (4, j)], ?_, ?_, readsAs_nil htype hother (length_leAll _)⟩
  · simp only [nsChunk, ← ht, Option.bind_eq_bind, hheader, hi, hj, Option.bind_some, hfields,
      Option.pure_def]
  · rw [List.length_append, length_nodeHead, length_leAll]
    rfl

/-- The names of a start chunk and the layout of its attributes. -/
def tagNames (tagIndex : ℕ) : List (ℕ × ℕ) := [(4, no), (4, tagIndex)]

def tagCounts (n : ℕ) : List (ℕ × ℕ) := [(2, 20), (2, 20), (2, n), (2, 0), (2, 0), (2, 0)]

theorem tagNames_lt {i : ℕ} (h : i < 256 ^ 4) : ∀ f ∈ tagNames i, f.2 < 256 ^ f.1 := by
  simpa [tagNames] using ⟨show no < 256 ^ 4 by decide, h⟩

theorem tagCounts_lt {n : ℕ} (h : n ≤ 65535) : ∀ f ∈ tagCounts n, f.2 < 256 ^ f.1 := by
  simp [tagCounts]
  omega

/-- What a start chunk holds behind its header. -/
def tagBody (i n : ℕ) (bs : List Bytes) : Bytes :=
  leAll (tagNames i) ++ (leAll (tagCounts n) ++ bs.flatten)

theorem length_tagBody (i n : ℕ) (bs : List Bytes) :
    (tagBody i n bs).length = 20 + bs.flatten.length := by
  rw [tagBody, List.length_append, List.length_append, length_leAll, length_leAll, ← Nat.add_assoc]
  rfl

theorem startTag_eq {tag : String} {attrs : List Attr} {line i : ℕ} {bs : List Bytes}
    (hi : index tag = some i) (hbs : (sortAttrs attrs).mapM attr = some bs)
    (hcount : (sortAttrs attrs).length ≤ 65535) (hsize : 16 + (20 + bs.flatten.length) < 256 ^ 4)
    (hline : line < 2 ^ 32) : startTag tag attrs line =
      some (nodeHead resXmlStartElementType (16 + (tagBody i (sortAttrs attrs).length bs).length) line ++
        tagBody i (sortAttrs attrs).length bs) := by
  have hext : packAll [(4, no), (4, i), (2, 20), (2, 20), (2, (sortAttrs attrs).length), (2, 0), (2, 0),
      (2, 0)] = some (leAll (tagNames i) ++ leAll (tagCounts (sortAttrs attrs).length)) := by
    rw [← leAll_append]
    exact packAll_of_lt (List.forall_mem_append.mpr ⟨tagNames_lt (index_lt hi), tagCounts_lt hcount⟩)
  have hlen : (leAll (tagNames i) ++ leAll (tagCounts (sortAttrs attrs).length)).length = 20 := by
    rw [List.length_append, length_leAll, length_leAll]
    rfl
  have hheader : nodeHeader resXmlStartElementType (16 + 20 + bs.flatten.length) line =
      some (nodeHead resXmlStartElementType (16 + 20 + bs.flatten.length) line) :=
    nodeHeader_of_lt (by decide) (by omega) hline
  simp only [startTag, hbs, Option.bind_eq_bind, Option.bind_some, hi, hext, hlen, hheader,
    Option.pure_def]
  rw [length_tagBody, tagBody, ← Nat.add_assoc, List.append_assoc, List.append_assoc]

/-- The element of a start chunk is read where it was written. -/
theorem readElement_tagBody {tag : String} {items : List Attr} {i : ℕ} {bs : List Bytes}
    {data pre head post : Bytes} (htag : strings[i]? = some tag) (hi : i < 256 ^ 4)
    (hcount : items.length ≤ 65535)
    (hreads : ∀ {data pre post : Bytes}, data = pre ++ (bs.flatten ++ post) →
      ((List.range items.length).mapM fun i =>
        readAttr data strings (resourceAttrs.map Prod.snd) (pre.length + i * 20)) =
        some (items.map Attr.read))
    (hdata : data = pre ++ (head ++ tagBody i items.length bs ++ post)) (hhead : head.length = 16) :
    readElement data strings (resourceAttrs.map Prod.snd) pre.length =
      some (tag, items.map Attr.read) := by
  have hnames : data = pre ++ head ++
      (leAll (tagNames i) ++ (leAll (tagCounts items.length) ++ bs.flatten ++ post)) := by
    rw [hdata, tagBody]
    simp only [List.append_assoc]
  have hcounts : data = pre ++ head ++ leAll (tagNames i) ++
      (leAll (tagCounts items.length) ++ (bs.flatten ++ post)) := by
    rw [hnames]
    simp only [List.append_assoc]
  have hbody : data = pre ++ head ++ leAll (tagNames i) ++ leAll (tagCounts items.length) ++
      (bs.flatten ++ post) := by
    rw [hcounts]
    simp only [List.append_assoc]
  have hlnames : (leAll (tagNames i)).length = 8 := length_leAll _
  have hlcounts : (leAll (tagCounts items.length)).length = 12 := length_leAll _
  have h1 : unpackAll [4, 4] data (pre.length + 16) = some [no, i] :=
    unpackAll_leAll hnames (by rw [List.length_append, hhead]) (tagNames_lt hi)
  have h2 : unpackAll [2, 2, 2, 2, 2, 2] data (pre.length + 24) = some [20, 20, items.length, 0, 0, 0] := by
    refine unpackAll_leAll hcounts ?_ (tagCounts_lt hcount)
    rw [List.length_append, List.length_append, hhead, hlnames]
  have hpos : pre.length + 16 + 20 =
      (pre ++ head ++ leAll (tagNames i) ++ leAll (tagCounts items.length)).length := by
    simp [hhead, hlnames, hlcounts]
  simp only [readElement, Option.bind_eq_bind, h1, h2, Option.bind_some, htag, hpos, hreads hbody,
    Option.pure_def]

theorem readsAs_startTag {tag : String} {attrs : List Attr} {line : ℕ} (htag : tag ∈ strings)
    (hcount : attrs.length ≤ 65535) (hline : line < 2 ^ 32)
    (hattrs : ∀ item ∈ attrs, item.name ∈ strings ∧ item.value.InPool) :
    ∃ c, startTag tag attrs line = some c ∧ c.length = 36 + 20 * attrs.length ∧
      ReadsAs c [(tag, (sortAttrs attrs).map Attr.read)] := by
  obtain ⟨i, hi⟩ := exists_index htag
  obtain ⟨-, htagAt, -⟩ := of_index hi
  have hsorted : ∀ item ∈ sortAttrs attrs, item.name ∈ strings ∧ item.value.InPool := fun item hitem =>
    hattrs item ((sortAttrs_perm attrs).mem_iff.mp hitem)
  obtain ⟨bs, hbs, hbody, hreads⟩ := exists_attrs hsorted
  rw [← (sortAttrs_perm attrs).length_eq] at hcount ⊢
  have hlen := length_tagBody i (sortAttrs attrs).length bs
  refine ⟨_, startTag_eq hi hbs hcount (by omega) hline, ?_, fun {data pre post els} hdata => ?_⟩
  · rw [List.length_append, length_nodeHead]
    omega
  have helement := readElement_tagBody htagAt (index_lt hi) hcount hreads hdata (length_nodeHead _ _ _)
  have hadd : readChunk data ⟨pre.length, strings, resourceAttrs.map Prod.snd, els⟩ resXmlStartElementType 16
      (16 + (tagBody i (sortAttrs attrs).length bs).length) =
        some ⟨pre.length, strings, resourceAttrs.map Prod.snd,
          els ++ [(tag, (sortAttrs attrs).map Attr.read)]⟩ := by
    rw [readChunk_startElement, helement, Option.map_some]
  exact chunkTurn_node (by decide) (by omega) hdata rfl hadd rfl

/-- Every node is read as what it stands for. -/
theorem exists_chunk {node : Node} (h : node.InPool) :
    ∃ c, node.chunk = some c ∧ c.length = node.size ∧ ReadsAs c node.read := by
  cases node with
  | startTag tag attrs line => exact readsAs_startTag h.1 h.2.1 h.2.2.1 h.2.2.2
  | endTag tag line => exact readsAs_endTag h.1 h.2
  | nsChunk start line => exact readsAs_nsChunk start h

/-- The walk over the chunks of a list of nodes. -/
theorem exists_chunks : ∀ {nodes : List Node}, (∀ node ∈ nodes, node.InPool) →
    ∃ chunks, nodes.mapM Node.chunk = some chunks ∧ chunks.flatten.length = (nodes.map Node.size).sum ∧
      ∀ {n : ℕ} {data pre : Bytes} {els : List (String × List ReadAttr)}, nodes.length < n →
        data = pre ++ chunks.flatten →
        turns (chunkTurn data) n ⟨pre.length, strings, resourceAttrs.map Prod.snd, els⟩ =
          some (els ++ nodes.flatMap Node.read)
  | [], _ => by
    refine ⟨[], rfl, rfl, fun {n data pre els} hn hdata => ?_⟩
    obtain ⟨m, rfl⟩ := Nat.exists_eq_succ_of_ne_zero (Nat.ne_of_gt hn)
    have hend : ¬ pre.length < data.length := by simp [hdata]
    rw [turns, chunkTurn, if_neg hend, Option.bind_some, Sum.elim_inl, List.flatMap_nil, List.append_nil]
  | node :: nodes, h => by
    rw [List.forall_mem_cons] at h
    obtain ⟨c, hc, hsize, hread⟩ := exists_chunk h.1
    obtain ⟨chunks, hchunks, hsizes, hwalk⟩ := exists_chunks h.2
    refine ⟨c :: chunks, ?_, ?_, fun {n data pre els} hn hdata => ?_⟩
    · rw [List.mapM_cons, hc, hchunks]
      rfl
    · rw [List.flatten_cons, List.length_append, hsize, hsizes, List.map_cons, List.sum_cons]
    · obtain ⟨m, rfl⟩ := Nat.exists_eq_succ_of_ne_zero (Nat.ne_of_gt (Nat.zero_lt_of_lt hn))
      rw [List.length_cons] at hn
      rw [List.flatten_cons] at hdata
      have hnext : data = pre ++ c ++ chunks.flatten := by rw [hdata, List.append_assoc]
      rw [turns, hread hdata, Option.bind_some, Sum.elim_inr, ← List.length_append,
        hwalk (by omega) hnext, List.flatMap_cons, List.append_assoc]

/-- A document with the chunks of a list of nodes reads as what the nodes stand for. -/
theorem parseManifest_chunks {nodes : List Node} (h : ∀ node ∈ nodes, node.InPool) :
    ∃ pool map chunks, (stringPool = some pool ∧ resourceMap = some map ∧
        nodes.mapM Node.chunk = some chunks) ∧
      (pool.length < 236 + 256 ^ 3 ∧ map.length = 68 ∧
        chunks.flatten.length = (nodes.map Node.size).sum) ∧
      ∀ {n : ℕ} {header : Bytes}, header.length = 8 →
        nodes.length + 2 < n → parseManifest n (header ++ (pool ++ (map ++ chunks.flatten))) =
          some (nodes.flatMap Node.read) := by
  obtain ⟨pool, hpool, hlpool, hreadPool⟩ := exists_stringPool
  obtain ⟨map, hmap, hlmap, hreadMap⟩ := exists_resourceMap
  obtain ⟨chunks, hchunks, hlchunks, hwalk⟩ := exists_chunks h
  refine ⟨pool, map, chunks, ⟨hpool, hmap, hchunks⟩, ⟨hlpool, hlmap, hlchunks⟩,
    fun {n header} hheader hn => ?_⟩
  obtain ⟨m, rfl⟩ : ∃ m, n = m + 1 + 1 := ⟨n - 2, by omega⟩
  have hnext : header ++ (pool ++ (map ++ chunks.flatten)) = header ++ pool ++ (map ++ chunks.flatten) :=
    (List.append_assoc _ _ _).symm
  have hlast : header ++ (pool ++ (map ++ chunks.flatten)) = header ++ pool ++ map ++ chunks.flatten := by
    rw [hnext, List.append_assoc _ map]
  rw [parseManifest, ← hheader, turns, hreadPool rfl, Option.bind_some, Sum.elim_inr,
    ← List.length_append, List.nil_append, turns, hreadMap hnext, Option.bind_some, Sum.elim_inr,
    ← List.length_append, hwalk (by omega) hlast, List.nil_append]

/-- The element of a node, with the attributes as they were given. -/
def Node.element : Node → Option (String × List Attr)
  | .startTag tag attrs _ => some (tag, attrs)
  | .endTag _ _ => none
  | .nsChunk _ _ => none

/-- The element that was read is the one that was given, its attributes in order. -/
def Recovers (given : String × List Attr) (got : String × List ReadAttr) : Prop :=
  got.1 = given.1 ∧ ∃ sorted : List Attr, sorted.Perm given.2 ∧ sorted.Pairwise Attr.Before ∧
    got.2 = sorted.map Attr.read

theorem recovers_read : ∀ nodes : List Node,
    List.Forall₂ Recovers (nodes.filterMap Node.element) (nodes.flatMap Node.read)
  | [] => List.Forall₂.nil
  | .startTag _ attrs _ :: nodes => List.Forall₂.cons
      ⟨rfl, sortAttrs attrs, sortAttrs_perm attrs, sortAttrs_pairwise attrs, rfl⟩ (recovers_read nodes)
  | .endTag _ _ :: nodes => recovers_read nodes
  | .nsChunk _ _ :: nodes => recovers_read nodes

/-- **The manifest comes back.**  A document is made of any chunks that leave its length within four bytes,
and it gives the elements in order, each with its attributes, plain ones first and then the android ones by
resource id.  The bound is one on the nodes, the pool and the map being what they are. -/
theorem parseManifest_document {nodes : List Node} (h : ∀ node ∈ nodes, node.InPool) :
    ∃ pool map chunks, (stringPool = some pool ∧ resourceMap = some map ∧
        nodes.mapM Node.chunk = some chunks) ∧
      (pool.length < 236 + 256 ^ 3 ∧ map.length = 68 ∧
        chunks.flatten.length = (nodes.map Node.size).sum) ∧
      (8 + (pool :: map :: chunks).flatten.length < 2 ^ 32 →
        ∃ data, document (pool :: map :: chunks) = some data ∧ ∀ n, nodes.length + 2 < n →
          ∃ elements, parseManifest n data = some elements ∧
            List.Forall₂ Recovers (nodes.filterMap Node.element) elements) := by
  obtain ⟨pool, map, chunks, hmade, hsizes, hparse⟩ := parseManifest_chunks h
  refine ⟨pool, map, chunks, hmade, hsizes, fun hfits => ?_⟩
  have hheader : chunkHeader resXmlType 8 (8 + (pool :: map :: chunks).flatten.length) =
      some (leAll [(2, resXmlType), (2, 8), (4, 8 + (pool :: map :: chunks).flatten.length)]) :=
    chunkHeader_of_lt (by decide) (by decide) hfits
  refine ⟨_, by rw [document, hheader]; rfl, fun n hn => ?_⟩
  rw [List.flatten_cons, List.flatten_cons]
  exact ⟨_, hparse (length_leAll _) hn, recovers_read nodes⟩

def serviceNodes : List Node :=
  [.startTag "service"
      [⟨"exported", .bool true, true⟩, ⟨"name", .string "dev.zorin.trustruntime.TrustService", true⟩,
        ⟨"package", .string "8.2.0", false⟩, ⟨"foregroundServiceType", .int 0x40000000, true⟩] 22,
    .endTag "service" 24]

theorem parseManifest_document_service :
    ∃ pool map chunks data, (stringPool = some pool ∧ resourceMap = some map ∧
        serviceNodes.mapM Node.chunk = some chunks) ∧ document (pool :: map :: chunks) = some data ∧
      ∀ n, 4 < n → ∃ elements, parseManifest n data = some elements ∧
        List.Forall₂ Recovers (serviceNodes.filterMap Node.element) elements := by
  have h : ∀ node ∈ serviceNodes, node.InPool := by decide +kernel
  obtain ⟨pool, map, chunks, hmade, ⟨hpool, hmap, hchunks⟩, hdata⟩ := parseManifest_document h
  have hsize : (serviceNodes.map Node.size).sum = 140 := rfl
  rw [List.flatten_cons, List.flatten_cons, List.length_append, List.length_append, hmap, hchunks,
    hsize] at hdata
  obtain ⟨data, hdata, hread⟩ := hdata (by norm_num at hpool ⊢; omega)
  exact ⟨pool, map, chunks, data, hmade, hdata, hread⟩

end ZorinTrust
