import ZorinTrust.DexFile

/-!
# Tables and sections of the DEX file read back

Each table of the file is read back from the place the header gives it, and each section from the offsets in
the tables: the strings, the type lists, the class with its code.  What stands in the data section stands in
the file, so the sections are followed one by one.
-/

namespace ZorinTrust.Dex

open CText Packed Leb128 Placement

/-! ### Every key is in its table -/

namespace Source

variable {d : Source} {x : Bytes} {q : Proto} {y : Method}

theorem getElem?_s (h : x ∈ d.strings) : d.strings[d.s x]? = some x := List.getElem?_idxOf h

theorem getElem?_t (h : x ∈ d.typeIds) : d.typeIds[d.t x]? = some x := List.getElem?_idxOf h

theorem getElem?_p (h : q ∈ d.protoIds) : d.protoIds[d.p q]? = some q := List.getElem?_idxOf h

theorem getElem?_m (h : y ∈ d.methodIds) : d.methodIds[d.m y]? = some y := List.getElem?_idxOf h

theorem mem_strings : x ∈ d.strings ↔ x ∈ d.typeIds ∨ (∃ m ∈ d.methods, m.name = x) ∨
    (∃ q ∈ d.protoIds, q.shorty = x) ∨ x ∈ d.payload := by
  simp only [strings, mem_sortOn, stringSet, List.mem_dedup, List.mem_append, List.mem_map, typeIds, protoIds]

theorem mem_typeIds : x ∈ d.typeIds ↔
    x ∈ d.types ∨ (∃ q ∈ d.protoIds, q.ret = x) ∨ ∃ q ∈ d.protoIds, x ∈ q.params := by
  simp only [typeIds, mem_sortOn, allTypes, List.mem_dedup, List.mem_append, List.mem_map, List.mem_flatMap,
    protoIds]

theorem mem_protoIds : q ∈ d.protoIds ↔ ∃ m ∈ d.methods, m.proto = q := by
  simp only [protoIds, mem_sortOn, allProtos, List.mem_dedup, List.mem_map]

theorem mem_methodIds : y ∈ d.methodIds ↔ y ∈ d.methods := by
  simp only [methodIds, mem_sortOn, List.mem_dedup]

/-- What the script relies on: the types it names are listed, no string holds a NUL, and the methods of the
class are listed too. -/
structure Ok (d : Source) : Prop where
  classes : ∀ m ∈ d.methods, m.cls ∈ d.types
  cls : d.cls ∈ d.types
  superclass : d.superclass ∈ d.types
  noNul : ∀ x ∈ d.strings, 0 ∉ x
  fits : ∀ c ∈ d.codeSpec, c.2.Fits
  direct : ∀ c ∈ d.direct, c.1 ∈ d.methods
  virtual : ∀ c ∈ d.virtual, c.1 ∈ d.methods
  code : ∀ c ∈ d.code d.s d.m, c.1 ∈ d.methods

/-- Two methods of the list have two numbers. -/
theorem m_inj {z : Method} (hy : y ∈ d.methods) (hz : z ∈ d.methods) (h : d.m y = d.m z) : y = z := by
  have hlookup := getElem?_m (mem_methodIds.mpr hy)
  rw [h, getElem?_m (mem_methodIds.mpr hz)] at hlookup
  exact (Option.some.inj hlookup).symm

end Source

/-! ### What is read back -/

/-- A method of the class as the script gives it: with its flags, and its body if it has one. -/
def Source.described (d : Source) (c : Method × ℕ) : Method × ℕ × Option Body :=
  (c.1, c.2, (d.code d.s d.m).lookup c.1)

/-- Methods in the order of their numbers. -/
def Source.inOrder (d : Source) (methods : List (Method × ℕ)) : List (Method × ℕ) :=
  methods.mergeSort fun a c => decide (d.m a.1 ≤ d.m c.1)

def Source.content (d : Source) : DexClass where
  cls := d.cls
  superclass := d.superclass
  flags := d.flags
  direct := (d.inOrder d.direct).map d.described
  virtual := (d.inOrder d.virtual).map d.described

/-- The tables and the class of the script. -/
def Source.file (d : Source) : DexFile where
  strings := d.strings
  types := d.typeIds
  protos := d.protoIds
  methods := d.methodIds
  content := d.content

/-! ### The order of the tables -/

theorem pairwise_sortOn {α : Type} {key : α → List ℕ} {l : List α} (hl : l.Nodup)
    (hinj : ∀ a ∈ l, ∀ c ∈ l, key a = key c → a = c) : (sortOn key l).Pairwise fun a c => key a < key c := by
  have htrans (a c e : α) (hac : decide (key a ≤ key c) = true) (hce : decide (key c ≤ key e) = true) :
      decide (key a ≤ key e) = true :=
    decide_eq_true ((of_decide_eq_true hac).trans (of_decide_eq_true hce))
  have htotal (a c : α) : (decide (key a ≤ key c) || decide (key c ≤ key a)) = true := by
    rw [Bool.or_eq_true, decide_eq_true_eq, decide_eq_true_eq]
    exact le_total _ _
  have hsorted := List.pairwise_mergeSort htrans htotal l
  have hnodup : (sortOn key l).Nodup := (List.mergeSort_perm l _).nodup_iff.mpr hl
  refine (hsorted.and hnodup).imp_of_mem fun ha hc hboth => ?_
  exact lt_of_le_of_ne (of_decide_eq_true hboth.1)
    fun hkey => hboth.2 (hinj _ (mem_sortOn.mp ha) _ (mem_sortOn.mp hc) hkey)

theorem eq_of_map_idxOf {α : Type} [BEq α] [LawfulBEq α] {table : List α} : ∀ {xs ys : List α},
    (∀ x ∈ xs, x ∈ table) → xs.map (fun x => table.idxOf x) = ys.map (fun x => table.idxOf x) → xs = ys
  | [], [], _, _ => rfl
  | x :: xs, y :: ys, hxs, h => by
    rw [List.forall_mem_cons] at hxs
    rw [List.map_cons, List.map_cons, List.cons.injEq] at h
    rw [(List.idxOf_inj hxs.1).mp h.1, eq_of_map_idxOf hxs.2 h.2]

/-- Each table is in the order of its keys. -/
theorem Source.ordered_file {d : Source} (hok : d.Ok) : d.file.Ordered where
  strings := pairwise_sortOn (List.nodup_dedup _) fun x _ y _ h =>
    List.map_injective_iff.mpr (fun _ _ => UInt8.toNat_inj.mp) h
  types := by
    have hkeys : d.typeIds.Pairwise fun x y => [d.s x] < [d.s y] := by
      refine pairwise_sortOn (List.nodup_dedup _) fun x hx y _ h => ?_
      exact (List.idxOf_inj (Source.mem_strings.mpr (.inl (mem_sortOn.mpr hx)))).mp (List.cons.inj h).1
    refine hkeys.imp fun h => ?_
    obtain hlt | ⟨-, hnil⟩ := List.cons_lt_cons_iff.mp h
    · exact hlt
    · exact absurd hnil (List.not_lt_nil [])
  protos := by
    refine pairwise_sortOn (List.nodup_dedup _) fun p hp q _ h => ?_
    replace hp : p ∈ d.protoIds := mem_sortOn.mpr hp
    obtain ⟨hret, hparams⟩ := List.cons.inj h
    have hret' := (List.idxOf_inj (Source.mem_typeIds.mpr (.inr (.inl ⟨p, hp, rfl⟩)))).mp hret
    have hparams' := eq_of_map_idxOf (fun x hx => Source.mem_typeIds.mpr (.inr (.inr ⟨p, hp, hx⟩))) hparams
    exact Proto.ext hret' hparams'
  methods := by
    refine pairwise_sortOn (List.nodup_dedup _) fun y hy z _ h => ?_
    replace hy : y ∈ d.methods := List.mem_dedup.mp hy
    obtain ⟨hcls, h⟩ := List.cons.inj h
    obtain ⟨hname, h⟩ := List.cons.inj h
    have hproto := (List.cons.inj h).1
    have hcls' := (List.idxOf_inj (Source.mem_typeIds.mpr (.inl (hok.classes y hy)))).mp hcls
    have hname' := (List.idxOf_inj (Source.mem_strings.mpr (.inr (.inl ⟨y, hy, rfl⟩)))).mp hname
    have hproto' := (List.idxOf_inj (Source.mem_protoIds.mpr ⟨y, hy, rfl⟩)).mp hproto
    exact Method.ext hcls' hname' hproto'

/-! ### Lookups -/

theorem lookup_map {α β γ : Type*} [BEq α] [LawfulBEq α] [BEq β] [LawfulBEq β] {f : α → β} {a : α} :
    ∀ {l : List (α × γ)}, (∀ c ∈ l, f a = f c.1 → a = c.1) →
      (l.map fun c => (f c.1, c.2)).lookup (f a) = l.lookup a
  | [], _ => rfl
  | c :: l, h => by
    rw [List.forall_mem_cons] at h
    rw [List.map_cons, List.lookup_cons, List.lookup_cons, lookup_map h.2]
    by_cases hac : a = c.1
    · rw [hac, beq_self_eq_true, beq_self_eq_true]
    · have hf : f a ≠ f c.1 := fun heq => hac (h.1 heq)
      rw [beq_eq_false_iff_ne.mpr hac, beq_eq_false_iff_ne.mpr hf]

/-! ### Strings and type lists read back -/

theorem readStr_at {b x : Bytes} {off : ℕ} (hx : 0 ∉ x) (hat : At b off (stringItem x)) :
    readStr b off = some x := by
  obtain ⟨post, hdrop⟩ := hat.drop
  have htake : (x ++ ([0] ++ post)).take x.length = x := List.take_left
  have hguard : guard (0 ∉ x ∧ ((x ++ ([0] ++ post)).drop x.length).head? = some 0) = some () := by
    rw [List.drop_left]
    exact if_pos ⟨hx, rfl⟩
  rw [readStr, hdrop, stringItem, List.append_assoc, readUleb_uleb, Option.bind_eq_bind, Option.bind_some,
    List.append_assoc]
  simp only [htake, hguard]
  rfl

theorem foldl_stringTurn (dataOff : ℕ) : ∀ (ss : List Bytes) (data : Bytes) (offs : List ℕ), ∃ data' offs',
    ss.foldl (stringTurn dataOff) (data, offs) = (data', offs ++ offs') ∧ data <+: data' ∧
      List.Forall₂ (fun x off => ∃ k, off = dataOff + k ∧ At data' k (stringItem x)) ss offs'
  | [], data, offs => ⟨data, [], by rw [List.append_nil]; rfl, List.prefix_rfl, .nil⟩
  | x :: ss, data, offs => by
    obtain ⟨data', offs', hrun, hdata, hall⟩ :=
      foldl_stringTurn dataOff ss (data ++ stringItem x) (offs ++ [dataOff + data.length])
    have hat : At (data ++ stringItem x) data.length (stringItem x) := ⟨data, [], by rw [List.append_nil], rfl⟩
    refine ⟨data', (dataOff + data.length) :: offs', ?_, (List.prefix_append _ _).trans hdata, .cons ?_ hall⟩
    · rw [List.foldl_cons, stringTurn, hrun, List.append_assoc]
      rfl
    · exact ⟨data.length, rfl, hat.mono hdata⟩

section Lists

variable {dataOff : ℕ} {t : Bytes → ℕ} {data data' b : Bytes} {offs offs' : List (List Bytes × ℕ)} {q : Proto}

/-- Every recorded offset is that of the type list, which is not empty. -/
def Listed (dataOff : ℕ) (t : Bytes → ℕ) (data : Bytes) (offs : List (List Bytes × ℕ)) : Prop :=
  ∀ params off, offs.lookup params = some off → params ≠ [] ∧ ∃ k, off = dataOff + k ∧
    At data k (leAll (typeFields t params)) ∧ ∀ f ∈ typeFields t params, f.2 < 256 ^ f.1

theorem of_typeListTurn (h : typeListTurn dataOff t (data, offs) q = some (data', offs'))
    (hl : Listed dataOff t data offs) : Listed dataOff t data' offs' ∧ data <+: data' ∧
      (q.params ≠ [] → (offs'.lookup q.params).isSome = true) ∧
      ∀ ps, (offs.lookup ps).isSome = true → (offs'.lookup ps).isSome = true := by
  rw [typeListTurn] at h
  split_ifs at h with hskip
  · obtain ⟨rfl, rfl⟩ := Prod.mk.inj (Option.some.inj h)
    exact ⟨hl, List.prefix_rfl, hskip.resolve_left, fun _ hs => hs⟩
  · obtain ⟨item, hitem, h⟩ := Option.bind_eq_some_iff.mp h
    obtain ⟨rfl, rfl⟩ := Prod.mk.inj (Option.some.inj h)
    have hdata : data <+: align (align data ++ item) :=
      (le_align data).trans ((List.prefix_append _ item).trans (le_align _))
    have hat : At (align (align data ++ item)) (align data).length item :=
      At.mono ⟨align data, [], by rw [List.append_nil], rfl⟩ (le_align _)
    refine ⟨fun ps off hoff => ?_, hdata, fun _ => ?_, fun ps hs => ?_⟩
    · rw [List.lookup_append, Option.or_eq_some_iff] at hoff
      obtain hold | ⟨-, hnew⟩ := hoff
      · obtain ⟨hne, k, hk, hold, hlt⟩ := hl ps off hold
        exact ⟨hne, k, hk, hold.mono hdata, hlt⟩
      · rw [List.lookup_cons] at hnew
        split at hnew
        · rename_i heq
          obtain rfl := Option.some.inj hnew
          rw [beq_iff_eq] at heq
          subst heq
          exact ⟨fun hnil => hskip (.inl hnil), _, rfl, eq_of_packAll hitem ▸ hat, lt_of_packAll hitem⟩
        · exact absurd hnew (by simp)
    · simp [List.lookup_append]
    · obtain ⟨off, hoff⟩ := Option.isSome_iff_exists.mp hs
      simp [List.lookup_append, hoff]

theorem of_foldlM_typeListTurn : ∀ {qs : List Proto} {data : Bytes} {offs : List (List Bytes × ℕ)},
    qs.foldlM (typeListTurn dataOff t) (data, offs) = some (data', offs') → Listed dataOff t data offs →
      Listed dataOff t data' offs' ∧ data <+: data' ∧
        (∀ q ∈ qs, q.params ≠ [] → (offs'.lookup q.params).isSome = true) ∧
        ∀ ps, (offs.lookup ps).isSome = true → (offs'.lookup ps).isSome = true
  | [], data, offs, h, hl => by
    obtain ⟨rfl, rfl⟩ := Prod.mk.inj (Option.some.inj h)
    exact ⟨hl, List.prefix_rfl, fun _ hq => absurd hq List.not_mem_nil, fun _ hs => hs⟩
  | q :: qs, data, offs, h, hl => by
    rw [List.foldlM_cons] at h
    obtain ⟨⟨data₁, offs₁⟩, hturn, h⟩ := Option.bind_eq_some_iff.mp h
    obtain ⟨hl₁, hdata₁, hq, hkeep₁⟩ := of_typeListTurn hturn hl
    obtain ⟨hl', hdata, hqs, hkeep⟩ := of_foldlM_typeListTurn h hl₁
    refine ⟨hl', hdata₁.trans hdata, fun q' hq' hne => ?_, fun ps hs => hkeep ps (hkeep₁ ps hs)⟩
    obtain rfl | hmem := List.mem_cons.mp hq'
    · exact hkeep _ (hq hne)
    · exact hqs q' hmem hne

theorem flatten_map_singleton {α β : Type*} (f : α → β) : ∀ l : List α, (l.map fun x => [f x]).flatten = l.map f
  | [] => rfl
  | x :: l => by rw [List.map_cons, List.flatten_cons, flatten_map_singleton f l, List.map_cons, List.singleton_append]

theorem readTypes_listed (hl : Listed dataOff t data offs) (hb : Carries dataOff data b) (hpos : 0 < dataOff)
    {params types : List Bytes} (hsome : params ≠ [] → (offs.lookup params).isSome = true)
    (htypes : ∀ x ∈ params, types[t x]? = some x) :
    readTypes b types ((offs.lookup params).getD 0) = some params := by
  cases hoff : offs.lookup params with
  | none =>
    have hnil : params = [] := by
      by_contra hne
      exact absurd (hsome hne) (by rw [hoff]; exact Bool.false_ne_true)
    rw [Option.getD_none, readTypes, if_pos rfl, hnil]
  | some off =>
    obtain ⟨-, k, rfl, hat, hlt⟩ := hl params off hoff
    have hfile := hb k _ hat
    rw [typeFields, ← List.singleton_append] at hfile hlt
    rw [leAll_append] at hfile
    rw [List.forall_mem_append] at hlt
    have hcount : unpackAll [4] b (dataOff + k) = some [params.length] := hfile.left.unpackAll hlt.1
    have hbehind : At b (dataOff + k + 4) (leAll (params.map fun x => [(2, t x)]).flatten) := by
      rw [flatten_map_singleton]
      exact hfile.right
    have hrecords := hbehind.readRecords (w := [2]) (by simp) (by rw [flatten_map_singleton]; exact hlt.2)
    rw [List.length_map, List.map_map] at hrecords
    rw [Option.getD_some, readTypes, if_neg (by omega), hcount, Option.bind_eq_bind, Option.bind_some]
    dsimp only
    rw [hrecords, Option.bind_eq_bind, Option.bind_some]
    have hread := mapM_map (f := readTypeId types) (g := fun x => [t x]) (h := id) htypes
    rwa [List.map_id] at hread

end Lists

/-! ### The tables read back -/

section Tables

variable {d : Source} {b : Bytes}

theorem exists_strings {offs : List ℕ} {data : Bytes} (hok : d.Ok) (hb : Carries d.dataOff data b)
    (hall : List.Forall₂ (fun x off => ∃ k, off = d.dataOff + k ∧ At data k (stringItem x)) d.strings offs)
    (hat : At b Source.stringIdsOff (leAll (stringRecords offs).flatten))
    (hlt : ∀ f ∈ (stringRecords offs).flatten, f.2 < 256 ^ f.1) :
    ∃ rs, readRecords [4] b d.strings.length Source.stringIdsOff = some rs ∧
      rs.mapM (readStringId b) = some d.strings := by
  have hread := hat.readRecords (w := [4]) (by simp [stringRecords]) hlt
  rw [stringRecords, List.length_map, ← hall.length_eq, List.map_map] at hread
  refine ⟨_, hread, mapM_of_forall₂ ?_⟩
  rw [List.forall₂_map_right_iff]
  refine (List.forall₂_iff_zip.mpr ⟨hall.length_eq, fun {x off} hmem => ?_⟩)
  obtain ⟨k, rfl, hitem⟩ := (List.forall₂_iff_zip.mp hall).2 hmem
  exact readStr_at (hok.noNul x (List.of_mem_zip hmem).1) (hb k _ hitem)

theorem exists_types (hat : At b d.typeIdsOff (leAll (typeRecords d).flatten))
    (hlt : ∀ f ∈ (typeRecords d).flatten, f.2 < 256 ^ f.1) :
    ∃ rs, readRecords [4] b d.typeIds.length d.typeIdsOff = some rs ∧
      rs.mapM (readTypeId d.strings) = some d.typeIds :=
  exists_table hat (fun _ => rfl) hlt fun _ hx => Source.getElem?_s (Source.mem_strings.mpr (.inl hx))

theorem exists_protos {data : Bytes} {typeListOff : List (List Bytes × ℕ)} (hb : Carries d.dataOff data b)
    (hl : Listed d.dataOff d.t data typeListOff)
    (hsome : ∀ q ∈ d.protoIds, q.params ≠ [] → (typeListOff.lookup q.params).isSome = true)
    (hat : At b d.protoIdsOff (leAll (protoRecords d typeListOff).flatten))
    (hlt : ∀ f ∈ (protoRecords d typeListOff).flatten, f.2 < 256 ^ f.1) :
    ∃ rs, readRecords [4, 4, 4] b d.protoIds.length d.protoIdsOff = some rs ∧
      rs.mapM (readProtoId b d.strings d.typeIds) = some d.protoIds := by
  have hpos : 0 < d.dataOff := Nat.succ_pos _
  refine exists_table hat (fun _ => rfl) hlt fun q hq => ?_
  have hret : d.typeIds[d.t q.ret]? = some q.ret :=
    Source.getElem?_t (Source.mem_typeIds.mpr (.inr (.inl ⟨q, hq, rfl⟩)))
  have hparams : ∀ x ∈ q.params, d.typeIds[d.t x]? = some x := fun x hx =>
    Source.getElem?_t (Source.mem_typeIds.mpr (.inr (.inr ⟨q, hq, hx⟩)))
  have hshorty : d.strings[d.s q.shorty]? = some q.shorty :=
    Source.getElem?_s (Source.mem_strings.mpr (.inr (.inr (.inl ⟨q, hq, rfl⟩))))
  have hguard : guard (d.strings[d.s q.shorty]? = some q.shorty) = some () := if_pos hshorty
  simp only [List.map_cons, List.map_nil, readProtoId, hret, readTypes_listed hl hb hpos (hsome q hq) hparams,
    Option.bind_eq_bind, Option.bind_some, hguard]
  rfl

theorem exists_methods (hok : d.Ok) (hat : At b d.methodIdsOff (leAll (methodRecords d).flatten))
    (hlt : ∀ f ∈ (methodRecords d).flatten, f.2 < 256 ^ f.1) :
    ∃ rs, readRecords [2, 2, 4] b d.methodIds.length d.methodIdsOff = some rs ∧
      rs.mapM (readMethodId d.strings d.typeIds d.protoIds) = some d.methodIds := by
  refine exists_table hat (fun _ => rfl) hlt fun y hy => ?_
  have hmem := Source.mem_methodIds.mp hy
  have hcls : d.typeIds[d.t y.cls]? = some y.cls :=
    Source.getElem?_t (Source.mem_typeIds.mpr (.inl (hok.classes y hmem)))
  have hname : d.strings[d.s y.name]? = some y.name :=
    Source.getElem?_s (Source.mem_strings.mpr (.inr (.inl ⟨y, hmem, rfl⟩)))
  have hproto : d.protoIds[d.p y.proto]? = some y.proto :=
    Source.getElem?_p (Source.mem_protoIds.mpr ⟨y, hmem, rfl⟩)
  simp only [List.map_cons, List.map_nil, readMethodId, hcls, hname, hproto, Option.bind_eq_bind,
    Option.bind_some]
  rfl

/-! ### The class read back by name -/

theorem codeSpec_lookup (hok : d.Ok) {y : Method} (hy : y ∈ d.methods) :
    d.codeSpec.lookup (d.m y) = (d.code d.s d.m).lookup y :=
  lookup_map fun c hc => Source.m_inj hy (hok.code c hc)

theorem named_inOrder (hok : d.Ok) {ms : List (Method × ℕ)} (hms : ∀ c ∈ ms, c.1 ∈ d.methods) :
    ((sortMethods (ms.map fun c => (d.m c.1, c.2))).map (given d.codeSpec)).mapM (named d.methodIds) =
      some ((d.inOrder ms).map d.described) := by
  have hsorted : sortMethods (ms.map fun c => (d.m c.1, c.2)) = (d.inOrder ms).map fun c => (d.m c.1, c.2) :=
    (List.map_mergeSort (f := fun c : Method × ℕ => (d.m c.1, c.2))
      (r := fun a c : Method × ℕ => decide (d.m a.1 ≤ d.m c.1)) (s := fun a c : ℕ × ℕ => decide (a.1 ≤ c.1))
      fun _ _ _ _ => rfl).symm
  rw [hsorted, List.map_map]
  refine mapM_map fun c hc => ?_
  have hc := hms c ((List.mergeSort_perm _ _).mem_iff.mp hc)
  simp only [Function.comp_apply, given, named, Source.getElem?_m (Source.mem_methodIds.mpr hc),
    codeSpec_lookup hok hc, Option.bind_eq_bind, Option.bind_some]
  rfl

theorem readClassDef_content {data rest : Bytes} {codeOff : List (ℕ × ℕ)} {classDataOff : ℕ} (hok : d.Ok)
    (hb : Carries d.dataOff data b) (hplaced : Placed d.dataOff d.codeSpec data codeOff)
    (hnone : ∀ m, codeOff.lookup m = none → d.codeSpec.lookup m = none)
    (hclass : b.drop classDataOff = classData codeOff (sortMethods d.directIds) (sortMethods d.virtualIds) ++ rest) :
    readClassDef b d.typeIds d.methodIds ((classFields d classDataOff).map Prod.snd) = some d.content := by
  have hpos : 0 < d.dataOff := Nat.succ_pos _
  have hread := readClass_of_drop hclass fun m => readMethod_encoded hpos hok.fits hplaced hnone hb m
  have hdirect := named_inOrder hok hok.direct
  have hvirtual := named_inOrder hok hok.virtual
  have hcls : d.typeIds[d.t d.cls]? = some d.cls := Source.getElem?_t (Source.mem_typeIds.mpr (.inl hok.cls))
  have hsuper : d.typeIds[d.t d.superclass]? = some d.superclass :=
    Source.getElem?_t (Source.mem_typeIds.mpr (.inl hok.superclass))
  simp only [classFields, List.map_cons, List.map_nil, readClassDef, hread, hcls, hsuper, Option.bind_eq_bind,
    Option.bind_some, Source.directIds, Source.virtualIds, hdirect, hvirtual]
  rfl

end Tables

/-! ### Header and seal -/

section Seal

variable {h : Hashes} {tail b : Bytes}

theorem of_sealed (hseal : h.sealed (dexMagic ++ (le 4 0 ++ (List.replicate 20 0 ++ tail))) = some b) :
    checksum (h.sha1 tail ++ tail) < 256 ^ 4 ∧
      b = dexMagic ++ (le 4 (checksum (h.sha1 tail ++ tail)) ++ (h.sha1 tail ++ tail)) := by
  have hmagic : dexMagic.length = 8 := by decide
  have hbody : (dexMagic ++ (le 4 0 ++ (List.replicate 20 0 ++ tail))).drop 32 = tail := by
    rw [← List.append_assoc, ← List.append_assoc]
    exact List.drop_left' (by simp [hmagic])
  have hhead : (dexMagic ++ (le 4 0 ++ (List.replicate 20 0 ++ tail))).take 12 = dexMagic ++ le 4 0 := by
    rw [← List.append_assoc]
    exact List.take_left' (by simp [hmagic])
  have hsigned : (dexMagic ++ le 4 0 ++ (h.sha1 tail ++ tail)).drop 12 = h.sha1 tail ++ tail :=
    List.drop_left' (by simp [hmagic])
  have hstart : (dexMagic ++ le 4 0 ++ (h.sha1 tail ++ tail)).take 8 = dexMagic := by
    rw [List.append_assoc]
    exact List.take_left' hmagic
  simp only [Hashes.sealed, hbody, hhead, hsigned] at hseal
  obtain ⟨⟨hlt, -⟩, hb⟩ := packInto_eq_some.mp hseal
  rw [hstart, hsigned] at hb
  exact ⟨hlt, hb⟩

theorem validate_sealed {needles : List Bytes}
    (hlt : checksum (h.sha1 tail ++ tail) < 256 ^ 4)
    (hb : b = dexMagic ++ (le 4 (checksum (h.sha1 tail ++ tail)) ++ (h.sha1 tail ++ tail)))
    (hlong : 0x70 ≤ b.length) (hwords : unpackAll [4, 4, 4] b 32 = some [b.length, 0x70, 0x12345678])
    (hneedles : ∀ needle ∈ needles, needle ++ [0] <:+: b) : validate h needles b = true := by
  have hmagic : dexMagic.length = 8 := by decide
  have hsha := h.length_sha1 tail
  have hstart : b.take 8 = dexMagic := by rw [hb]; exact List.take_left' hmagic
  have hsigned : b.drop 12 = h.sha1 tail ++ tail := by
    rw [hb, ← List.append_assoc]
    exact List.drop_left' (by simp [hmagic])
  have hbody : b.drop 32 = tail := by
    rw [hb, ← List.append_assoc, ← List.append_assoc]
    exact List.drop_left' (by simp [hmagic, hsha])
  have hchecksum : unpackFrom 4 b 8 = some (checksum (b.drop 12)) := by
    rw [hsigned]
    exact unpackFrom_le hb hmagic.symm hlt
  have hsig : slice b 12 32 = h.sha1 (b.drop 32) := by
    rw [hbody]
    refine slice_eq (hb.trans (List.append_assoc _ _ _).symm) ?_ ?_ <;> simp [hmagic, hsha]
  rw [validate, Bool.and_eq_true, decide_eq_true_eq, List.all_eq_true]
  exact ⟨⟨hlong, hstart, hchecksum, hsig, hwords⟩, fun needle hn => decide_eq_true (hneedles needle hn)⟩

end Seal

/-- The reader on a file whose parts are read. -/
theorem readDex_of_parts {h : Hashes} {d : Source} {b : Bytes} {mapOff dataSize classDataOff : ℕ} {content : DexClass}
    (hvalid : validate h [] b = true)
    (hwords : unpackAll (List.replicate 20 4) b 32 = some ((headerFields d mapOff dataSize).map Prod.snd))
    (hstrings : ∃ rs, readRecords [4] b d.strings.length Source.stringIdsOff = some rs ∧
      rs.mapM (readStringId b) = some d.strings)
    (htypes : ∃ rs, readRecords [4] b d.typeIds.length d.typeIdsOff = some rs ∧
      rs.mapM (readTypeId d.strings) = some d.typeIds)
    (hprotos : ∃ rs, readRecords [4, 4, 4] b d.protoIds.length d.protoIdsOff = some rs ∧
      rs.mapM (readProtoId b d.strings d.typeIds) = some d.protoIds)
    (hmethods : ∃ rs, readRecords [2, 2, 4] b d.methodIds.length d.methodIdsOff = some rs ∧
      rs.mapM (readMethodId d.strings d.typeIds d.protoIds) = some d.methodIds)
    (hclass : unpackAll (List.replicate 8 4) b d.classDefsOff = some ((classFields d classDataOff).map Prod.snd))
    (hcontent : readClassDef b d.typeIds d.methodIds ((classFields d classDataOff).map Prod.snd) = some content) :
    readDex h b = some ⟨d.strings, d.typeIds, d.protoIds, d.methodIds, content⟩ := by
  obtain ⟨rs₁, hread₁, hs⟩ := hstrings
  obtain ⟨rs₂, hread₂, ht⟩ := htypes
  obtain ⟨rs₃, hread₃, hp⟩ := hprotos
  obtain ⟨rs₄, hread₄, hm⟩ := hmethods
  have hguard : guard (validate h [] b = true) = some () := if_pos hvalid
  rw [readDex, hguard, hwords]
  simp only [headerFields, List.map_cons, List.map_nil, Option.bind_eq_bind, Option.bind_some, hread₁, hs,
    hread₂, ht, hread₃, hp, hread₄, hm, hclass, hcontent]
  rfl

theorem headerFields_widths (d : Source) (mapOff dataSize : ℕ) :
    (headerFields d mapOff dataSize).map Prod.fst = List.replicate 20 4 := by
  simp only [headerFields, List.map_cons, List.map_nil]
  rfl

/-- The fields `validate` looks at. -/
theorem headerFields_start {d : Source} {mapOff dataSize : ℕ} {b : Bytes}
    (hat : At b 32 (leAll (headerFields d mapOff dataSize)))
    (hlt : ∀ f ∈ headerFields d mapOff dataSize, f.2 < 256 ^ f.1) :
    unpackAll [4, 4, 4] b 32 = some [d.dataOff + dataSize, 0x70, 0x12345678] := by
  have hsplit : headerFields d mapOff dataSize =
      [(4, d.dataOff + dataSize), (4, 0x70), (4, 0x12345678)] ++ (headerFields d mapOff dataSize).drop 3 := rfl
  rw [hsplit, leAll_append] at hat
  rw [hsplit, List.forall_mem_append] at hlt
  exact hat.left.unpackAll hlt.1

/-! ### The file read back -/

/-- Where the parts of a sealed file stand. -/
theorem file_parts {magic checksum sig words ids data b : Bytes}
    (hb : b = magic ++ (checksum ++ (sig ++ (words ++ (ids ++ data))))) (hmagic : magic.length = 8)
    (hchecksum : checksum.length = 4) (hsig : sig.length = 20) (hwords : words.length = 80) :
    At b 32 words ∧ At b 0x70 ids ∧ Carries (0x70 + ids.length) data b := by
  refine ⟨⟨magic ++ (checksum ++ sig), ids ++ data, ?_, ?_⟩,
    ⟨magic ++ (checksum ++ (sig ++ words)), data, ?_, ?_⟩, ?_⟩
  · simp only [hb, List.append_assoc]
  · simp only [List.length_append, hmagic, hchecksum, hsig]
  · simp only [hb, List.append_assoc]
  · simp only [List.length_append, hmagic, hchecksum, hsig, hwords]
  · have hcarries := carries_append (magic ++ (checksum ++ (sig ++ (words ++ ids)))) data []
    have hstart : (magic ++ (checksum ++ (sig ++ (words ++ ids)))).length = 0x70 + ids.length := by
      simp only [List.length_append, hmagic, hchecksum, hsig, hwords]
      omega
    rw [hstart, List.append_nil] at hcarries
    simpa only [hb, List.append_assoc] using hcarries

theorem length_records (d : Source) {offs : List ℕ} (typeListOff : List (List Bytes × ℕ))
    (hlen : offs.length = d.strings.length) :
    (leAll (stringRecords offs).flatten).length = 4 * d.strings.length ∧
      (leAll (typeRecords d).flatten).length = 4 * d.typeIds.length ∧
      (leAll (protoRecords d typeListOff).flatten).length = 12 * d.protoIds.length ∧
      (leAll (methodRecords d).flatten).length = 8 * d.methodIds.length := by
  refine ⟨?_, ?_, ?_, ?_⟩
  · rw [length_leAll_flatten (w := [4]) (by simp [stringRecords]), stringRecords, List.length_map, hlen]
    exact Nat.mul_comm _ _
  · rw [length_leAll_flatten (w := [4]) (by simp [typeRecords]), typeRecords, List.length_map]
    exact Nat.mul_comm _ _
  · rw [length_leAll_flatten (w := [4, 4, 4]) (by simp [protoRecords]), protoRecords, List.length_map]
    exact Nat.mul_comm _ _
  · rw [length_leAll_flatten (w := [2, 2, 4]) (by simp [methodRecords]), methodRecords, List.length_map]
    exact Nat.mul_comm _ _

/-- The tables stand where the header says. -/
theorem idFields_at {d : Source} {b : Bytes} {offs : List ℕ} {typeListOff : List (List Bytes × ℕ)}
    {classDataOff : ℕ} (hlen : offs.length = d.strings.length)
    (hat : At b 0x70 (leAll (idFields d offs typeListOff classDataOff))) :
    At b Source.stringIdsOff (leAll (stringRecords offs).flatten) ∧
      At b d.typeIdsOff (leAll (typeRecords d).flatten) ∧
      At b d.protoIdsOff (leAll (protoRecords d typeListOff).flatten) ∧
      At b d.methodIdsOff (leAll (methodRecords d).flatten) ∧
      At b d.classDefsOff (leAll (classFields d classDataOff)) := by
  obtain ⟨hstrings, htypes, hprotos, hmethods⟩ := length_records d typeListOff hlen
  rw [idFields, leAll_append, leAll_append, leAll_append, leAll_append] at hat
  have htail := hat.right
  rw [hstrings] at htail
  have htail₂ := htail.right
  rw [htypes] at htail₂
  have htail₃ := htail₂.right
  rw [hprotos] at htail₃
  have htail₄ := htail₃.right
  rw [hmethods] at htail₄
  exact ⟨hat.left, htail.left, htail₂.left, htail₃.left, htail₄⟩

end ZorinTrust.Dex
