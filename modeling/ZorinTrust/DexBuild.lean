import ZorinTrust.DexTables

/-!
# The DEX builder comes to its end

Every `struct.pack` of the builder raises on a number that does not fit its field.  `exists_build` bounds the
numbers of the tables and the offsets of a small class, section by section, so none of them does.
-/

namespace ZorinTrust.Dex

open CText Packed Leb128 Placement

/-! ### The builder comes to its end -/

/-- A class whose lists have no more than 1024 entries, and whose names, prototypes and bodies are no longer. -/
structure Source.Small (d : Source) : Prop where
  strings : d.strings.length ≤ 1024
  types : d.typeIds.length ≤ 1024
  protos : d.protoIds.length ≤ 1024
  methods : d.methodIds.length ≤ 1024
  params : ∀ q ∈ d.protoIds, q.params.length ≤ 1024
  texts : ∀ x ∈ d.strings, x.length ≤ 1024
  code : d.codeSpec ≠ [] ∧ d.codeSpec.length ≤ 1024
  bodies : ∀ c ∈ d.codeSpec, c.2.code.length ≤ 1024
  direct : d.direct.length ≤ 1024 ∧ ∀ c ∈ d.direct, c.2 < 2 ^ 32
  virtual : d.virtual.length ≤ 1024 ∧ ∀ c ∈ d.virtual, c.2 < 2 ^ 32
  flags : d.flags < 2 ^ 32

theorem length_align (buf : Bytes) : (align buf).length = buf.length + (3 - (buf.length + 3) % 4) := by
  rw [align]
  split_ifs with h
  · omega
  · rw [length_align (buf ++ [0]), List.length_append, List.length_singleton]
    omega
termination_by 3 - (buf.length + 3) % 4
decreasing_by
  rw [List.length_append, List.length_singleton]
  omega

theorem length_item_le {body : Body} {item : Bytes} (h : body.Fits) (hitem : body.item = some item) :
    item.length ≤ 16 + 6 * body.code.length := by
  obtain ⟨us, hus, -, hlen, -⟩ := exists_assemble h.2.2.2.2
  rw [Body.item, hus, Option.bind_eq_bind, Option.bind_some, codeItem] at hitem
  obtain ⟨head, hhead, hitem⟩ := Option.bind_eq_some_iff.mp hitem
  obtain ⟨units, hunits, hitem⟩ := Option.bind_eq_some_iff.mp hitem
  obtain rfl := Option.some.inj hitem
  have hwidths : (us.map fun u => (2, u)).map Prod.fst = List.replicate us.length 2 := map_fst_fields 2 id us
  rw [List.length_append, eq_of_packAll hhead, eq_of_packAll hunits, length_leAll, length_leAll, hwidths,
    List.sum_replicate, smul_eq_mul]
  simp only [codeHead, List.map_cons, List.map_nil, List.sum_cons, List.sum_nil]
  omega

theorem length_codeSection_le {dataOff : ℕ} {codeSpec : List (ℕ × Body)} {data data' : Bytes}
    {codeOff : List (ℕ × ℕ)} (hfits : ∀ c ∈ codeSpec, c.2.Fits) (hlen : ∀ c ∈ codeSpec, c.2.code.length ≤ 1024)
    (h : (codeKeys codeSpec).foldlM (codeTurn dataOff codeSpec) (data, []) = some (data', codeOff)) :
    data'.length ≤ data.length + codeSpec.length * 6163 ∧ codeOff.length ≤ codeSpec.length := by
  have hkeys : (codeKeys codeSpec).length = codeSpec.length := by
    rw [codeKeys, List.length_mergeSort, List.length_map]
  have hturn : ∀ m ∈ codeKeys codeSpec, ∀ st st', codeTurn dataOff codeSpec st m = some st' →
      st'.1.length ≤ st.1.length + 6163 ∧ st'.2.length ≤ st.2.length + 1 := by
    intro m _ st st' hst
    obtain ⟨body, hbody, hst⟩ := Option.bind_eq_some_iff.mp hst
    obtain ⟨item, hitem, hst⟩ := Option.bind_eq_some_iff.mp hst
    obtain rfl := Option.some.inj hst
    have hmem := mem_of_lookup hbody
    have hitemLen := length_item_le (hfits _ hmem) hitem
    have hbodyLen := hlen _ hmem
    have halign := length_align st.1
    simp only [List.length_append, List.length_singleton]
    omega
  rw [← hkeys]
  exact length_le_of_foldlM hturn h

theorem exists_typeListTurn {dataOff : ℕ} {t : Bytes → ℕ} {q : Proto} (hlen : q.params.length ≤ 1024)
    (hlt : ∀ x ∈ q.params, t x < 65536) (st : Bytes × List (List Bytes × ℕ)) :
    ∃ st', typeListTurn dataOff t st q = some st' ∧ st'.1.length ≤ st.1.length + 2058 ∧
      st'.2.length ≤ st.2.length + 1 := by
  rw [typeListTurn]
  split_ifs with hskip
  · exact ⟨st, rfl, Nat.le_add_right _ _, Nat.le_add_right _ _⟩
  · have hcount : q.params.length < 256 ^ 4 := hlen.trans_lt (by decide)
    have hfields : ∀ f ∈ typeFields t q.params, f.2 < 256 ^ f.1 := by
      rw [typeFields, List.forall_mem_cons, List.forall_mem_map]
      exact ⟨hcount, hlt⟩
    have hitem : (leAll (typeFields t q.params)).length = 4 + q.params.length * 2 := by
      rw [length_leAll, typeFields, List.map_cons, List.sum_cons, map_fst_fields, List.sum_replicate, smul_eq_mul]
    have h₁ := length_align st.1
    have h₂ := length_align (align st.1 ++ leAll (typeFields t q.params))
    rw [List.length_append, hitem] at h₂
    refine ⟨_, by rw [packAll_of_lt hfields]; rfl, ?_, ?_⟩
    · dsimp only
      omega
    · rw [List.length_append, List.length_singleton]

theorem exists_typeLists {dataOff : ℕ} {t : Bytes → ℕ} {qs : List Proto}
    (h : ∀ q ∈ qs, q.params.length ≤ 1024 ∧ ∀ x ∈ q.params, t x < 65536) :
    ∃ data offs, qs.foldlM (typeListTurn dataOff t) ([], []) = some (data, offs) ∧
      data.length ≤ qs.length * 2058 ∧ offs.length ≤ qs.length := by
  have hturn (q : Proto) (hq : q ∈ qs) (st : Bytes × List (List Bytes × ℕ)) :
      ∃ st', typeListTurn dataOff t st q = some st' ∧ st'.1.length ≤ st.1.length + 2058 ∧
        st'.2.length ≤ st.2.length + 1 := exists_typeListTurn (h q hq).1 (h q hq).2 st
  obtain ⟨⟨data, offs⟩, hrun⟩ : ∃ st', qs.foldlM (typeListTurn dataOff t) ([], []) = some st' :=
    exists_foldlM fun q hq st => (hturn q hq st).imp fun _ h => h.1
  have hgrows : ∀ q ∈ qs, ∀ st st', typeListTurn dataOff t st q = some st' →
      st'.1.length ≤ st.1.length + 2058 ∧ st'.2.length ≤ st.2.length + 1 := by
    intro q hq st st' hst
    obtain ⟨st₁, hst₁, hle⟩ := hturn q hq st
    obtain rfl := Option.some.inj (hst₁.symm.trans hst)
    exact hle
  obtain ⟨hdata, hoffs⟩ := length_le_of_foldlM hgrows hrun
  rw [List.length_nil, Nat.zero_add] at hdata
  exact ⟨data, offs, hrun, hdata, hoffs⟩

theorem length_encodedMethods_le {codeOff : List (ℕ × ℕ)}
    (hoffs : ∀ m off, codeOff.lookup m = some off → off < 2 ^ 32) :
    ∀ {ms : List (ℕ × ℕ)} {prev : ℕ}, (∀ m ∈ ms, m.1 < 2 ^ 32 ∧ m.2 < 2 ^ 32) →
      (encodedMethods codeOff prev ms).length ≤ ms.length * 15
  | [], _, _ => le_rfl
  | (idx, flags) :: ms, prev, h => by
    rw [List.forall_mem_cons] at h
    obtain ⟨⟨hidx, hflags⟩, hms⟩ := h
    have hoff : (codeOff.lookup idx).getD 0 < 2 ^ 32 := getD_lookup_lt (Nat.two_pow_pos 32) hoffs idx
    have hbound {n : ℕ} (hn : n < 2 ^ 32) : (uleb n).length ≤ 5 :=
      length_uleb_le (hn.trans_le (by norm_num))
    have h₁ := hbound ((Nat.sub_le idx prev).trans_lt hidx)
    have h₂ : (uleb flags).length ≤ 5 := hbound hflags
    have h₃ := hbound hoff
    have ih : (encodedMethods codeOff idx ms).length ≤ ms.length * 15 := length_encodedMethods_le hoffs hms
    rw [encodedMethods]
    simp only [List.length_append, List.length_cons]
    omega

theorem length_classData_le {codeOff direct virtual : List (ℕ × ℕ)}
    (hoffs : ∀ m off, codeOff.lookup m = some off → off < 2 ^ 32)
    (hdirect : direct.length ≤ 1024 ∧ ∀ m ∈ direct, m.1 < 2 ^ 32 ∧ m.2 < 2 ^ 32)
    (hvirtual : virtual.length ≤ 1024 ∧ ∀ m ∈ virtual, m.1 < 2 ^ 32 ∧ m.2 < 2 ^ 32) :
    (classData codeOff direct virtual).length ≤ 30740 := by
  have hsmall {n : ℕ} (hn : n ≤ 1024) : (uleb n).length ≤ 5 := length_uleb_le (hn.trans_lt (by norm_num))
  have h₀ := hsmall (Nat.zero_le 1024)
  have h₁ := hsmall hdirect.1
  have h₂ := hsmall hvirtual.1
  have h₃ : (encodedMethods codeOff 0 direct).length ≤ direct.length * 15 :=
    length_encodedMethods_le hoffs hdirect.2
  have h₄ : (encodedMethods codeOff 0 virtual).length ≤ virtual.length * 15 :=
    length_encodedMethods_le hoffs hvirtual.2
  rw [classData]
  simp only [List.length_append]
  omega

theorem length_foldl_stringTurn_le (dataOff : ℕ) : ∀ {ss : List Bytes} {st : Bytes × List ℕ},
    (∀ x ∈ ss, x.length ≤ 1024) →
      (ss.foldl (stringTurn dataOff) st).1.length ≤ st.1.length + ss.length * 1030
  | [], st, _ => Nat.le_add_right _ _
  | x :: ss, st, h => by
    rw [List.forall_mem_cons] at h
    have ih : (ss.foldl (stringTurn dataOff) (stringTurn dataOff st x)).1.length ≤
        (stringTurn dataOff st x).1.length + ss.length * 1030 := length_foldl_stringTurn_le dataOff h.2
    have hsize : (uleb x.length).length ≤ 5 := length_uleb_le (h.1.trans_lt (by norm_num))
    have hturn : (stringTurn dataOff st x).1.length = st.1.length + (uleb x.length).length + x.length + 1 := by
      simp only [stringTurn, stringItem, List.length_append, List.length_singleton]
      omega
    rw [List.foldl_cons, List.length_cons, Nat.add_mul, Nat.one_mul]
    omega

theorem mapFields_fit {entries : List (ℕ × ℕ × ℕ)} (hlen : entries.length < 2 ^ 32)
    (h : ∀ e ∈ entries, e.1 < 65536 ∧ e.2.1 < 2 ^ 32 ∧ e.2.2 < 2 ^ 32) :
    ∀ f ∈ mapFields entries, f.2 < 256 ^ f.1 := by
  rw [mapFields, List.forall_mem_cons, List.forall_mem_flatMap]
  refine ⟨hlen, fun e he => ?_⟩
  obtain ⟨htype, hsize, hoff⟩ := h e he
  simp only [List.forall_mem_cons, List.not_mem_nil, false_implies, implies_true, and_true]
  exact ⟨htype, by norm_num, hsize, hoff⟩

theorem checksum_lt (b : Bytes) : checksum b < 256 ^ 4 := by
  have hmask : adler32 b &&& 0xFFFFFFFF < 2 ^ 32 := Nat.and_lt_two_pow _ (by norm_num)
  exact hmask.trans_eq (by norm_num)

theorem exists_sealed (h : Hashes) (tail : Bytes) :
    ∃ b, h.sealed (dexMagic ++ (le 4 0 ++ (List.replicate 20 0 ++ tail))) = some b := by
  have hmagic : dexMagic.length = 8 := by decide
  rw [Hashes.sealed, packInto, if_pos]
  · exact ⟨_, rfl⟩
  · refine ⟨checksum_lt _, ?_⟩
    simp only [List.length_append, List.length_take, hmagic, length_le, List.length_replicate]
    omega

section Total

variable {d : Source}

theorem dataOff_eq (d : Source) : d.dataOff = 0x70 + 4 * d.strings.length + 4 * d.typeIds.length +
    12 * d.protoIds.length + 8 * d.methodIds.length + 32 := rfl

theorem Source.Small.numbers (hs : d.Small) : (∀ x ∈ d.strings, d.s x < 1024) ∧
    (∀ x ∈ d.typeIds, d.t x < 1024) ∧ (∀ q ∈ d.protoIds, d.p q < 1024) ∧ ∀ y ∈ d.methodIds, d.m y < 1024 :=
  ⟨fun _ h => (List.idxOf_lt_length_of_mem h).trans_le hs.strings,
    fun _ h => (List.idxOf_lt_length_of_mem h).trans_le hs.types,
    fun _ h => (List.idxOf_lt_length_of_mem h).trans_le hs.protos,
    fun _ h => (List.idxOf_lt_length_of_mem h).trans_le hs.methods⟩

/-- The places of the tables fit their fields. -/
theorem Source.Small.offsets (hs : d.Small) : Source.stringIdsOff < 2 ^ 32 ∧ d.typeIdsOff < 2 ^ 32 ∧
    d.protoIdsOff < 2 ^ 32 ∧ d.methodIdsOff < 2 ^ 32 ∧ d.classDefsOff < 2 ^ 32 := by
  have hstrings := hs.strings
  have htypes := hs.types
  have hprotos := hs.protos
  have hmethods := hs.methods
  simp only [Source.classDefsOff, Source.methodIdsOff, Source.protoIdsOff, Source.typeIdsOff, Source.stringIdsOff]
  omega

theorem mapEntries_fit {typeListOff : List (List Bytes × ℕ)} {codeOff : List (ℕ × ℕ)}
    {firstCode classDataOff stringDataFirst mapOff : ℕ} (hs : d.Small)
    (hlists : typeListOff.length ≤ 1024 ∧ ∀ c ∈ typeListOff.head?, c.2 < 2 ^ 32) (hcode : codeOff.length ≤ 1024)
    (hoffs : firstCode < 2 ^ 32 ∧ classDataOff < 2 ^ 32 ∧ stringDataFirst < 2 ^ 32 ∧ mapOff < 2 ^ 32) :
    ∀ f ∈ mapFields (mapEntries d typeListOff codeOff firstCode classDataOff stringDataFirst mapOff),
      f.2 < 256 ^ f.1 := by
  obtain ⟨h₁, h₂, h₃, h₄⟩ := hoffs
  have hstrings := hs.strings
  have htypes := hs.types
  have hprotos := hs.protos
  have hmethods := hs.methods
  obtain ⟨hS, hT, hP, hM, hC⟩ := hs.offsets
  refine mapFields_fit ?_ fun e he => ?_
  · rw [mapEntries, List.length_mergeSort]
    cases typeListOff <;> simp
  · rw [mapEntries, (List.mergeSort_perm _ _).mem_iff, List.mem_append, List.mem_append] at he
    obtain (he | he) | he := he
    · simp only [List.mem_cons, List.not_mem_nil, or_false] at he
      obtain rfl | rfl | rfl | rfl | rfl | rfl := he <;> dsimp only <;> omega
    · obtain ⟨first, hfirst, rfl⟩ := List.mem_map.mp he
      have hoff := hlists.2 first (by simpa using hfirst)
      have hcount := hlists.1
      dsimp only
      omega
    · simp only [List.mem_cons, List.not_mem_nil, or_false] at he
      obtain rfl | rfl | rfl | rfl := he <;> dsimp only <;> omega

theorem idFields_fit {offs : List ℕ} {typeListOff : List (List Bytes × ℕ)} {classDataOff : ℕ} (hok : d.Ok)
    (hs : d.Small) (hoffs : ∀ off ∈ offs, off < 2 ^ 32)
    (hlists : ∀ params off, typeListOff.lookup params = some off → off < 2 ^ 32) (hclass : classDataOff < 2 ^ 32) :
    ∀ f ∈ idFields d offs typeListOff classDataOff, f.2 < 256 ^ f.1 := by
  obtain ⟨hS, hT, hP, hM⟩ := hs.numbers
  simp only [idFields, List.forall_mem_append]
  refine ⟨?_, ?_, ?_, ?_, ?_⟩
  · intro f hf
    simp only [stringRecords, flatten_map_singleton, List.mem_map] at hf
    obtain ⟨off, hoff, rfl⟩ := hf
    exact hoffs off hoff
  · intro f hf
    simp only [typeRecords, flatten_map_singleton, List.mem_map] at hf
    obtain ⟨x, hx, rfl⟩ := hf
    have hlt := hS x (Source.mem_strings.mpr (.inl hx))
    dsimp only
    omega
  · intro f hf
    obtain ⟨r, hr, hf⟩ := List.mem_flatten.mp hf
    obtain ⟨q, hq, rfl⟩ := List.mem_map.mp hr
    have h₁ := hS q.shorty (Source.mem_strings.mpr (.inr (.inr (.inl ⟨q, hq, rfl⟩))))
    have h₂ := hT q.ret (Source.mem_typeIds.mpr (.inr (.inl ⟨q, hq, rfl⟩)))
    have h₃ := getD_lookup_lt (Nat.two_pow_pos 32) hlists q.params
    simp only [List.mem_cons, List.not_mem_nil, or_false] at hf
    obtain rfl | rfl | rfl := hf <;> dsimp only <;> omega
  · intro f hf
    obtain ⟨r, hr, hf⟩ := List.mem_flatten.mp hf
    obtain ⟨y, hy, rfl⟩ := List.mem_map.mp hr
    have hmem := Source.mem_methodIds.mp hy
    have h₁ := hT y.cls (Source.mem_typeIds.mpr (.inl (hok.classes y hmem)))
    have h₂ := hP y.proto (Source.mem_protoIds.mpr ⟨y, hmem, rfl⟩)
    have h₃ := hS y.name (Source.mem_strings.mpr (.inr (.inl ⟨y, hmem, rfl⟩)))
    simp only [List.mem_cons, List.not_mem_nil, or_false] at hf
    obtain rfl | rfl | rfl := hf <;> dsimp only <;> omega
  · have h₁ := hT d.cls (Source.mem_typeIds.mpr (.inl hok.cls))
    have h₂ := hT d.superclass (Source.mem_typeIds.mpr (.inl hok.superclass))
    have h₃ := hs.flags
    have h₄ : noIndex = 0xFFFFFFFF := rfl
    intro f hf
    simp only [classFields, List.mem_cons, List.not_mem_nil, or_false] at hf
    obtain rfl | rfl | rfl | rfl | rfl | rfl | rfl | rfl := hf <;> dsimp only <;> omega

theorem headerFields_fit {mapOff dataSize : ℕ} (hs : d.Small) (hmap : mapOff < 2 ^ 32)
    (hsize : d.dataOff + dataSize < 2 ^ 32) : ∀ f ∈ headerFields d mapOff dataSize, f.2 < 256 ^ f.1 := by
  have hstrings := hs.strings
  have htypes := hs.types
  have hprotos := hs.protos
  have hmethods := hs.methods
  obtain ⟨hS, hT, hP, hM, hC⟩ := hs.offsets
  simp only [headerFields, List.forall_mem_cons, List.not_mem_nil, false_implies, implies_true, and_true]
  omega

theorem length_leAll_entries : ∀ entries : List (ℕ × ℕ × ℕ),
    (leAll (entries.flatMap fun e => [(2, e.1), (2, 0), (4, e.2.1), (4, e.2.2)])).length = entries.length * 12
  | [] => rfl
  | e :: entries => by
    have hentry : (leAll [(2, e.1), (2, 0), (4, e.2.1), (4, e.2.2)]).length = 12 := by
      rw [length_leAll]
      rfl
    rw [List.flatMap_cons, leAll_append, List.length_append, hentry, length_leAll_entries entries,
      List.length_cons, Nat.add_mul, Nat.one_mul, Nat.add_comm]

theorem length_map_le (d : Source) (typeListOff : List (List Bytes × ℕ)) (codeOff : List (ℕ × ℕ))
    (firstCode classDataOff stringDataFirst mapOff : ℕ) :
    (leAll (mapFields (mapEntries d typeListOff codeOff firstCode classDataOff stringDataFirst mapOff))).length ≤
      136 := by
  have hcount : (mapEntries d typeListOff codeOff firstCode classDataOff stringDataFirst mapOff).length ≤ 11 := by
    rw [mapEntries, List.length_mergeSort]
    cases typeListOff <;> simp
  rw [mapFields, ← List.singleton_append, leAll_append, List.length_append, length_leAll_entries, length_leAll]
  simp only [List.map_cons, List.map_nil, List.sum_cons, List.sum_nil]
  omega

/-- The assertion of `build` about the fixed sections. -/
theorem length_idFields {offs : List ℕ} (typeListOff : List (List Bytes × ℕ)) (classDataOff : ℕ)
    (hlen : offs.length = d.strings.length) :
    0x70 + (leAll (idFields d offs typeListOff classDataOff)).length = d.dataOff := by
  obtain ⟨hstrings, htypes, hprotos, hmethods⟩ := length_records d typeListOff hlen
  have hclass : (leAll (classFields d classDataOff)).length = 32 := by
    rw [length_leAll]
    simp only [classFields, List.map_cons, List.map_nil]
    rfl
  rw [idFields, leAll_append, leAll_append, leAll_append, leAll_append]
  simp only [List.length_append, hstrings, htypes, hprotos, hmethods, hclass]
  rw [dataOff_eq]
  omega

theorem lookup_of_head? {α β : Type*} [BEq α] [LawfulBEq α] {l : List (α × β)} {c : α × β} (h : l.head? = some c) :
    l.lookup c.1 = some c.2 := by
  obtain ⟨rest, rfl⟩ := List.head?_eq_some_iff.mp h
  exact List.lookup_cons_self

/-- **The builder comes to its end** on every small class. -/
theorem exists_build (h : Hashes) (hok : d.Ok) (hs : d.Small) : ∃ b, build h d = some b := by
  obtain ⟨-, hT, -, hM⟩ := hs.numbers
  have hD := dataOff_eq d
  have hstrings := hs.strings
  have htypes := hs.types
  have hprotos := hs.protos
  have hmethods := hs.methods
  have hcodeCount := hs.code.2
  -- the type lists
  have hparams (q : Proto) (hq : q ∈ d.protoIds) : q.params.length ≤ 1024 ∧ ∀ x ∈ q.params, d.t x < 65536 :=
    ⟨hs.params q hq, fun x hx =>
      (hT x (Source.mem_typeIds.mpr (.inr (.inr ⟨q, hq, hx⟩)))).trans (by norm_num)⟩
  obtain ⟨data₁, typeListOff, hlists, hlen₁, hcount₁⟩ :
      ∃ data offs, d.protoIds.foldlM (typeListTurn d.dataOff d.t) ([], []) = some (data, offs) ∧
        data.length ≤ d.protoIds.length * 2058 ∧ offs.length ≤ d.protoIds.length := exists_typeLists hparams
  have hstart : Listed d.dataOff d.t [] [] := fun _ _ h => absurd h (by simp)
  obtain ⟨hlisted, -, -, -⟩ := of_foldlM_typeListTurn hlists hstart
  have hlistOff : ∀ params off, typeListOff.lookup params = some off → off < 2 ^ 32 := by
    intro params off hoff
    obtain ⟨-, k, rfl, hat, -⟩ := hlisted params off hoff
    have hk := hat.le_length
    omega
  -- the code
  obtain ⟨data₂, codeOff, hcode, -, hplaced, hnone⟩ := exists_codeSection hok.fits d.dataOff data₁
  obtain ⟨hlen₂, hcount₂⟩ := length_codeSection_le hok.fits hs.bodies hcode
  have hcodeOff : ∀ m off, codeOff.lookup m = some off → off < 2 ^ 32 := by
    intro m off hoff
    obtain ⟨k, _, _, rfl, _, _, hat⟩ := hplaced m off hoff
    have hk := hat.le_length
    omega
  obtain ⟨first, hfirst⟩ : ∃ first, codeOff.head? = some first := by
    cases hcodeOff : codeOff with
    | nil =>
      obtain ⟨c, rest, hc⟩ := List.exists_cons_of_ne_nil hs.code.1
      have hmissing := hnone c.1 (by rw [hcodeOff]; rfl)
      rw [hc, List.lookup_cons_self] at hmissing
      exact absurd hmissing (by simp)
    | cons first _ => exact ⟨first, rfl⟩
  have hfirstOff : first.2 < 2 ^ 32 := hcodeOff first.1 first.2 (lookup_of_head? hfirst)
  -- the class data and the strings
  have hids {ms : List (Method × ℕ)} (hms : ∀ c ∈ ms, c.1 ∈ d.methods)
      (hflags : ms.length ≤ 1024 ∧ ∀ c ∈ ms, c.2 < 2 ^ 32) :
      (sortMethods (ms.map fun c => (d.m c.1, c.2))).length ≤ 1024 ∧
        ∀ m ∈ sortMethods (ms.map fun c => (d.m c.1, c.2)), m.1 < 2 ^ 32 ∧ m.2 < 2 ^ 32 := by
    refine ⟨by rw [sortMethods, List.length_mergeSort, List.length_map]; exact hflags.1, fun m hm => ?_⟩
    rw [sortMethods, (List.mergeSort_perm _ _).mem_iff] at hm
    obtain ⟨c, hc, rfl⟩ := List.mem_map.mp hm
    have hnumber := hM c.1 (Source.mem_methodIds.mpr (hms c hc))
    exact ⟨by dsimp only; omega, hflags.2 c hc⟩
  have hclassLen := length_classData_le hcodeOff (hids hok.direct hs.direct) (hids hok.virtual hs.virtual)
  obtain ⟨data₃, offs, hrun, -, hall⟩ := foldl_stringTurn d.dataOff d.strings
    (data₂ ++ classData codeOff (sortMethods d.directIds) (sortMethods d.virtualIds)) []
  have hlen₃ : (d.strings.foldl (stringTurn d.dataOff)
      (data₂ ++ classData codeOff (sortMethods d.directIds) (sortMethods d.virtualIds), [])).1.length ≤
        (data₂ ++ classData codeOff (sortMethods d.directIds) (sortMethods d.virtualIds)).length +
          d.strings.length * 1030 := length_foldl_stringTurn_le d.dataOff hs.texts
  rw [hrun] at hlen₃
  simp only [Source.directIds, Source.virtualIds, List.length_append] at hlen₃
  have hoffs : ∀ off ∈ offs, off < 2 ^ 32 := by
    intro off hoff
    obtain ⟨x, -, k, rfl, hat⟩ := exists_of_forall₂ hall.flip off hoff
    have hk := hat.le_length
    omega
  have halign := length_align data₃
  -- the map, the tables and the header
  have hmapFit : ∀ f ∈ mapFields (mapEntries d typeListOff codeOff first.2 (d.dataOff + data₂.length)
      (d.dataOff + (data₂ ++ classData codeOff (sortMethods d.directIds) (sortMethods d.virtualIds)).length)
      (d.dataOff + (align data₃).length)), f.2 < 256 ^ f.1 := by
    refine mapEntries_fit hs ⟨hcount₁.trans hprotos, fun c hc => hlistOff c.1 c.2 (lookup_of_head? hc)⟩
      (hcount₂.trans hcodeCount) ⟨hfirstOff, by omega, ?_, by omega⟩
    simp only [Source.directIds, Source.virtualIds, List.length_append]
    omega
  obtain ⟨map, hmap, hmapLen⟩ : ∃ map, packAll (mapFields (mapEntries d typeListOff codeOff first.2
      (d.dataOff + data₂.length)
      (d.dataOff + (data₂ ++ classData codeOff (sortMethods d.directIds) (sortMethods d.virtualIds)).length)
      (d.dataOff + (align data₃).length))) = some map ∧ map.length ≤ 136 :=
    ⟨_, packAll_of_lt hmapFit, length_map_le _ _ _ _ _ _ _⟩
  obtain ⟨ids, hidsRun, hidsLen⟩ : ∃ ids, packAll (idFields d offs typeListOff (d.dataOff + data₂.length)) =
      some ids ∧ 0x70 + ids.length = d.dataOff :=
    ⟨_, packAll_of_lt (idFields_fit hok hs hoffs hlistOff (by omega)),
      length_idFields typeListOff _ hall.length_eq.symm⟩
  have hheadFit : ∀ f ∈ headerFields d (d.dataOff + (align data₃).length) (align data₃ ++ map).length,
      f.2 < 256 ^ f.1 := by
    refine headerFields_fit hs (by omega) ?_
    rw [List.length_append]
    omega
  obtain ⟨b, hb⟩ := exists_sealed h (leAll (headerFields d (d.dataOff + (align data₃).length)
    (align data₃ ++ map).length) ++ (ids ++ (align data₃ ++ map)))
  refine ⟨b, ?_⟩
  simp only [build, Option.bind_eq_bind, Option.bind_eq_some_iff]
  refine ⟨(), if_pos (by decide), (data₁, typeListOff), hlists, (data₂, codeOff), hcode, ?_⟩
  simp only [hrun, List.nil_append]
  exact ⟨first, hfirst, map, hmap, ids, hidsRun, (), if_pos hidsLen, _, packAll_of_lt hheadFit, hb⟩

end Total

end ZorinTrust.Dex
