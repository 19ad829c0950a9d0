import ZorinTrust.DexBuild

/-!
# The round trip of the DEX file

`readDex_build` puts the sections together: what the builder writes is accepted by its own `validate`, and a
reader that follows header, tables and offsets finds the class the script describes.
-/

namespace ZorinTrust.Dex

open CText Packed Leb128 Placement

/-- **The file is read back.**  Whenever the builder comes to its end, `validate` accepts the file, and the
tables and offsets in it lead back to the strings, types, prototypes and methods, each table in the order the
format demands, to the class with its superclass and flags, and to each of its methods, in the order of their
numbers, with its flags and body. -/
theorem readDex_build (h : Hashes) {d : Source} (hok : d.Ok) {b : Bytes} (hbuild : build h d = some b)
    {needles : List Bytes} (hneedles : ∀ needle ∈ needles, needle ∈ d.strings) :
    validate h needles b = true ∧ readDex h b = some d.file ∧ d.file.Ordered := by
  simp only [build, Option.bind_eq_bind, Option.bind_eq_some_iff] at hbuild
  obtain ⟨_, -, ⟨data₁, typeListOff⟩, hlists, ⟨data₂, codeOff⟩, hcode, hbuild⟩ := hbuild
  obtain ⟨data₃, offs, hrun, hdata₃, hall⟩ := foldl_stringTurn d.dataOff d.strings
    (data₂ ++ classData codeOff (sortMethods d.directIds) (sortMethods d.virtualIds)) []
  simp only [hrun, List.nil_append] at hbuild
  obtain ⟨firstCode, -, map, hmap, ids, hids, _, hlen, words, hwords, hseal⟩ := hbuild
  replace hlen : 0x70 + ids.length = d.dataOff := by
    by_contra hne
    simp [guard, if_neg hne] at hlen
  have hstart : Listed d.dataOff d.t [] [] := fun _ _ h => absurd h (by simp)
  obtain ⟨hlisted, -, hsome, -⟩ := of_foldlM_typeListTurn hlists hstart
  obtain ⟨data', codeOff', hrun', hdata₂, hplaced, hnone⟩ := exists_codeSection hok.fits d.dataOff data₁
  obtain ⟨rfl, rfl⟩ := Prod.mk.inj (Option.some.inj (hrun'.symm.trans hcode))
  obtain ⟨hchecksum, hb⟩ := of_sealed hseal
  have hwordsLen : words.length = 80 := by
    rw [eq_of_packAll hwords, length_leAll, headerFields_widths, List.sum_replicate, smul_eq_mul]
  obtain ⟨hatWords, hatIds, hcarries⟩ :=
    file_parts hb (by decide) (length_le 4 _) (h.length_sha1 _) hwordsLen
  rw [hlen] at hcarries
  have hreadWords := (eq_of_packAll hwords ▸ hatWords).unpackAll (lt_of_packAll hwords)
  rw [headerFields_widths] at hreadWords
  have hlong : b.length = d.dataOff + (align data₃ ++ map).length := by
    rw [hb]
    simp only [List.length_append, length_le, h.length_sha1, hwordsLen, ← hlen]
    have hmagic : dexMagic.length = 8 := by decide
    omega
  -- the sections of the data
  have hsection : data₃ <+: align data₃ ++ map := (le_align data₃).trans (List.prefix_append _ map)
  have hclassAt : At data₃ data'.length
      (classData codeOff' (sortMethods d.directIds) (sortMethods d.virtualIds)) :=
    At.mono ⟨data', [], by rw [List.append_nil], rfl⟩ hdata₃
  have hdata' : data' <+: data₃ := (List.prefix_append _ _).trans hdata₃
  have hcar₃ := hcarries.mono hsection
  have hcar₂ := hcar₃.mono hdata'
  have hcar₁ := hcar₂.mono hdata₂
  obtain ⟨rest, hdrop⟩ := (hcar₃ _ _ hclassAt).drop
  have hcontent := readClassDef_content hok hcar₂ hplaced hnone hdrop
  -- the tables
  obtain ⟨hstringsAt, htypesAt, hprotosAt, hmethodsAt, hclassDefAt⟩ :=
    idFields_at hall.length_eq.symm (eq_of_packAll hids ▸ hatIds)
  have hfits := lt_of_packAll hids
  simp only [idFields, List.forall_mem_append] at hfits
  obtain ⟨hlt₁, hlt₂, hlt₃, hlt₄, hlt₅⟩ := hfits
  have hvalid (needles : List Bytes) (hneedles : ∀ needle ∈ needles, needle ∈ d.strings) :
      validate h needles b = true := by
    refine validate_sealed hchecksum hb (by omega) ?_ fun needle hneedle => ?_
    · rw [hlong]
      exact headerFields_start (eq_of_packAll hwords ▸ hatWords) (lt_of_packAll hwords)
    · obtain ⟨off, -, k, -, hat⟩ := exists_of_forall₂ hall needle (hneedles needle hneedle)
      exact (List.suffix_append _ _).isInfix.trans (hcar₃ k _ hat).within
  refine ⟨hvalid needles hneedles, ?_, Source.ordered_file hok⟩
  exact readDex_of_parts (hvalid [] fun _ hn => absurd hn List.not_mem_nil) hreadWords
    (exists_strings hok hcar₃ hall hstringsAt hlt₁) (exists_types htypesAt hlt₂)
    (exists_protos hcar₁ hlisted hsome hprotosAt hlt₃) (exists_methods hok hmethodsAt hlt₄)
    (hclassDefAt.unpackAll hlt₅) hcontent

/-! ### The class of the app -/

/-- What holds of everything the script names holds of every string. -/
theorem Source.forall_strings {d : Source} {P : Bytes → Prop} (htypes : ∀ x ∈ d.types, P x)
    (hmethods : ∀ m ∈ d.methods, P m.name ∧ P m.proto.shorty ∧ P m.proto.ret ∧ ∀ x ∈ m.proto.params, P x)
    (hpayload : ∀ x ∈ d.payload, P x) : ∀ x ∈ d.strings, P x := by
  intro x hx
  have hproto {q : Proto} (hq : q ∈ d.protoIds) : P q.shorty ∧ P q.ret ∧ ∀ y ∈ q.params, P y := by
    obtain ⟨m, hm, rfl⟩ := Source.mem_protoIds.mp hq
    exact (hmethods m hm).2
  obtain htype | ⟨m, hm, rfl⟩ | ⟨q, hq, rfl⟩ | hx := Source.mem_strings.mp hx
  · obtain hx | ⟨q, hq, rfl⟩ | ⟨q, hq, hx⟩ := Source.mem_typeIds.mp htype
    · exact htypes x hx
    · exact (hproto hq).2.1
    · exact (hproto hq).2.2 x hx
  · exact (hmethods m hm).1
  · exact (hproto hq).1
  · exact hpayload x hx

theorem length_sortOn {α : Type} (key : α → List ℕ) (l : List α) : (sortOn key l).length = l.length :=
  List.length_mergeSort l

theorem length_dedup_le {α : Type} [DecidableEq α] (l : List α) : l.dedup.length ≤ l.length :=
  (List.dedup_sublist l).length_le

/-- The tables are no longer than what the script names. -/
theorem Source.length_tables_le {d : Source} {k : ℕ} (hk : ∀ m ∈ d.methods, m.proto.params.length ≤ k) :
    d.protoIds.length ≤ d.methods.length ∧ d.methodIds.length ≤ d.methods.length ∧
      d.typeIds.length ≤ d.types.length + (d.methods.length + d.methods.length * k) ∧
      d.strings.length ≤ d.typeIds.length + (d.methods.length + (d.methods.length + d.payload.length)) := by
  have hprotos : d.allProtos.length ≤ d.methods.length :=
    (length_dedup_le _).trans_eq (List.length_map _)
  have hparams : (d.allProtos.flatMap Proto.params).length ≤ d.methods.length * k := by
    refine le_trans ?_ (Nat.mul_le_mul_right k hprotos)
    have hlength : (d.allProtos.map fun q => q.params.length).length = d.allProtos.length := List.length_map _
    rw [List.length_flatMap, ← hlength, ← smul_eq_mul]
    refine List.sum_le_card_nsmul _ _ fun n hn => ?_
    obtain ⟨q, hq, rfl⟩ := List.mem_map.mp hn
    obtain ⟨m, hm, rfl⟩ := Source.mem_protoIds.mp (mem_sortOn.mpr hq)
    exact hk m hm
  have htypes := length_dedup_le (d.types ++ (d.allProtos.map Proto.ret ++ d.allProtos.flatMap Proto.params))
  have hstrings := length_dedup_le
    (d.allTypes ++ (d.methods.map Method.name ++ (d.allProtos.map Proto.shorty ++ d.payload)))
  have hmethods := length_dedup_le d.methods
  simp only [List.length_append, List.length_map] at htypes hstrings
  simp only [Source.protoIds, Source.methodIds, Source.typeIds, Source.strings, length_sortOn, Source.allTypes,
    Source.stringSet] at *
  omega

theorem trustCode_fits {s : Bytes → ℕ} {m : Method → ℕ} (hs : ∀ x, s x < 65536) (hm : ∀ y, m y < 65536) :
    ∀ c ∈ trustCode s m, c.2.Fits := by
  have hret (unit : ℕ) (h : unit ∈ [0x000E, 0x000F, 0x0011]) :
      unit < 65536 ∧ 0x0E ≤ bits 0 8 unit ∧ bits 0 8 unit ≤ 0x11 := by
    revert unit
    decide
  simp only [trustCode, Body.Fits, Ins.Fits, List.forall_mem_cons, List.not_mem_nil, false_implies, implies_true,
    and_true, hs, hm, List.length_cons, List.length_nil]
  norm_num [hret]

theorem trustService_numbers : (∀ x, trustService.s x < 65536) ∧ ∀ y, trustService.m y < 65536 := by
  have hparams : ∀ m ∈ trustService.methods, m.proto.params.length ≤ 3 := by decide
  obtain ⟨-, hmethods, htypes, hstrings⟩ := Source.length_tables_le hparams
  have hcount : trustService.methods.length = 13 := rfl
  have htypesCount : trustService.types.length = 8 := rfl
  have hpayload : trustService.payload.length = 1 := rfl
  exact ⟨fun x => List.idxOf_le_length.trans_lt (by omega), fun y => List.idxOf_le_length.trans_lt (by omega)⟩

theorem trustCode_methods {s : Bytes → ℕ} {m : Method → ℕ} {c : Method × Body} (hc : c ∈ trustCode s m) :
    c.1 ∈ trustService.methods := by
  have hkeys : (trustCode s m).map Prod.fst = [mClinit, mInit, mCreate, mStart, mBind, mDestroy] := rfl
  have hall : ∀ y ∈ [mClinit, mInit, mCreate, mStart, mBind, mDestroy], y ∈ trustService.methods := by decide
  exact hall c.1 (hkeys ▸ List.mem_map_of_mem hc)

theorem ok_trustService : trustService.Ok where
  classes := by decide
  cls := by decide
  superclass := by decide
  noNul := Source.forall_strings (by decide) (by decide) (by decide)
  fits := by
    intro c hc
    obtain ⟨e, he, rfl⟩ := List.mem_map.mp hc
    exact trustCode_fits trustService_numbers.1 trustService_numbers.2 e he
  direct := by decide
  virtual := by decide
  code := fun c hc => trustCode_methods hc

theorem small_trustService : trustService.Small := by
  have hparams : ∀ m ∈ trustService.methods, m.proto.params.length ≤ 3 := by decide
  obtain ⟨hprotos, hmethods, htypes, hstrings⟩ := Source.length_tables_le hparams
  have hcount : trustService.methods.length = 13 := rfl
  have htypesCount : trustService.types.length = 8 := rfl
  have hpayload : trustService.payload.length = 1 := rfl
  have hcode : trustService.codeSpec.length = 6 := rfl
  exact
    { strings := by omega
      types := by omega
      protos := by omega
      methods := by omega
      params := fun q hq => by
        obtain ⟨m, hm, rfl⟩ := Source.mem_protoIds.mp hq
        exact (hparams m hm).trans (by norm_num)
      texts := Source.forall_strings (by decide) (by decide) (by decide)
      code := ⟨List.ne_nil_of_length_pos (by omega), by omega⟩
      bodies := by
        intro c hc
        obtain ⟨e, he, rfl⟩ := List.mem_map.mp hc
        have hlengths : (trustService.code trustService.s trustService.m).map (fun c => c.2.code.length) =
            [3, 2, 3, 3, 2, 3] := rfl
        have hall : ∀ n ∈ [3, 2, 3, 3, 2, 3], n ≤ 1024 := by decide
        exact hall _ (hlengths ▸ List.mem_map_of_mem he)
      direct := by decide
      virtual := by decide
      flags := by decide }
/-- The SHA-1 that stands in the file: of the bytes behind the signature in what `build` writes for this
class. -/
def trustSha1 : Hashes :=
  ⟨fun _ => [102, 72, 207, 154, 92, 179, 86, 235, 164, 1, 167, 165, 192, 11, 12, 248, 14, 200, 12, 127],
    fun _ => rfl⟩

theorem readDex_build_trustService : ∃ b, build trustSha1 trustService = some b ∧
    validate trustSha1 [cTrust, lit "nativeOnStart", lit "zorin_native_core"] b = true ∧
      readDex trustSha1 b = some trustService.file ∧ trustService.file.Ordered := by
  obtain ⟨b, hbuild⟩ := exists_build trustSha1 ok_trustService small_trustService
  have hneedles : ∀ needle ∈ [cTrust, lit "nativeOnStart", lit "zorin_native_core"],
      needle ∈ trustService.strings := by
    simp only [List.forall_mem_cons, List.not_mem_nil, false_implies, implies_true, and_true]
    exact ⟨Source.mem_strings.mpr (.inl (Source.mem_typeIds.mpr (.inl (by decide)))),
      Source.mem_strings.mpr (.inr (.inl ⟨mNstart, by decide, rfl⟩)),
      Source.mem_strings.mpr (.inr (.inr (.inr (by decide))))⟩
  exact ⟨b, hbuild, readDex_build trustSha1 ok_trustService hbuild hneedles⟩

end ZorinTrust.Dex
