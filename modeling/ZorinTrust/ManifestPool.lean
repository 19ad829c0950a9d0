import ZorinTrust.Manifest

/-!
# The string pool and the resource map

The pool is written as a blob of strings with their lengths in front and an offset for each, and read
back offset by offset.  The resource map holds the ids of the first strings, so that a name and its id
have one place.
-/

namespace ZorinTrust

open CText Packed Loop

/-! ### Strings -/

theorem decodeUtf8_encodeUtf8 (s : String) : decodeUtf8 (encodeUtf8 s) = some s := by
  have hbytes : (⟨(encodeUtf8 s).toArray⟩ : ByteArray) = s.toByteArray := rfl
  rw [decodeUtf8, hbytes, String.fromUTF8?, dif_pos s.isValidUTF8]
  rfl

theorem nodup_strings : strings.Nodup := by decide +kernel

/-- All strings of the pool have their lengths in one byte. -/
theorem short_of_mem : ∀ s ∈ strings, s.length < 128 ∧ (encodeUtf8 s).length < 128 := by
  decide +kernel

/-- A place in a list that starts with the keys of a table is a place in the table, or behind it. -/
theorem getElem?_idxOf? {rest : List String} {v : String} : ∀ {l : List (String × ℕ)} {i : ℕ},
    (l.map Prod.fst ++ rest).idxOf? v = some i → (l.map Prod.snd)[i]? = l.lookup v
  | [], _, _ => rfl
  | (k, n) :: l, i, h => by
    rw [List.map_cons, List.cons_append, List.idxOf?_cons] at h
    rw [List.lookup_cons, List.map_cons]
    by_cases hv : k = v
    · rw [if_pos (beq_iff_eq.mpr hv), Option.some.injEq] at h
      rw [← h, hv]
      simp
    · rw [if_neg (mt beq_iff_eq.mp hv)] at h
      obtain ⟨j, hj, rfl⟩ := Option.map_eq_some_iff.mp h
      have hne : (v == k) = false := beq_eq_false_iff_ne.mpr (Ne.symm hv)
      rw [hne, List.getElem?_cons_succ]
      exact getElem?_idxOf? hj

/-- A string is found at its place, and the resource id of a name is the one at its place. -/
theorem of_index {v : String} {i : ℕ} (h : index v = some i) : i < strings.length ∧
    strings[i]? = some v ∧ (resourceAttrs.map Prod.snd)[i]? = resourceAttrs.lookup v := by
  obtain ⟨hi, hv, -⟩ := List.idxOf?_eq_some_iff.mp h
  exact ⟨hi, List.getElem?_eq_some_iff.mpr ⟨hi, hv⟩, getElem?_idxOf? h⟩

theorem exists_index {v : String} (h : v ∈ strings) : ∃ i, index v = some i :=
  Option.isSome_iff_exists.mp (List.isSome_idxOf?.mpr h)

/-! ### The pool -/

theorem uleb8Len_of_lt {n : ℕ} (h : n < 128) : uleb8Len n = some [UInt8.ofNat n] := if_pos h

/-- A short length is read where it was written. -/
theorem readUtf8Length_eq {data pre post : Bytes} {n pos : ℕ} (hn : n < 128)
    (hdata : data = pre ++ (UInt8.ofNat n :: post)) (hpos : pos = pre.length) :
    readUtf8Length data pos = some (n, pos + 1) := by
  have hfirst : data[pos]? = some (UInt8.ofNat n) := by
    rw [hdata, hpos, List.getElem?_append_right le_rfl, Nat.sub_self]
    rfl
  have hval : (UInt8.ofNat n).toNat = n := by
    rw [UInt8.toNat_ofNat']
    omega
  have hlt : UInt8.ofNat n < 128 := by
    rw [UInt8.lt_iff_toNat_lt, hval]
    exact hn
  rw [readUtf8Length, hfirst, Option.bind_eq_bind, Option.bind_some, if_pos hlt, hval]
  rfl

/-- A string of the pool is read where it was written. -/
theorem exists_poolEntry {v : String} (hlen : v.length < 128) (hbytes : (encodeUtf8 v).length < 128) :
    ∃ e, poolEntry v = some e ∧ e.length ≤ 130 ∧
      ∀ {data pre post : Bytes} {pos : ℕ}, data = pre ++ (e ++ post) → pos = pre.length →
        readString data pos = some v := by
  refine ⟨UInt8.ofNat v.length :: UInt8.ofNat (encodeUtf8 v).length :: (encodeUtf8 v ++ [0]), ?_, ?_, ?_⟩
  · simp only [poolEntry, uleb8Len_of_lt hlen, uleb8Len_of_lt hbytes]
    rfl
  · simp
    omega
  · intro data pre post pos hdata hpos
    have hbytes' : data = (pre ++ [UInt8.ofNat v.length]) ++
        (UInt8.ofNat (encodeUtf8 v).length :: (encodeUtf8 v ++ 0 :: post)) := by
      rw [hdata]
      simp
    have htext : data = (pre ++ [UInt8.ofNat v.length, UInt8.ofNat (encodeUtf8 v).length]) ++
        (encodeUtf8 v ++ 0 :: post) := by
      rw [hdata]
      simp
    have h1 : readUtf8Length data pos = some (v.length, pos + 1) := readUtf8Length_eq hlen hdata hpos
    have h2 : readUtf8Length data (pos + 1) = some ((encodeUtf8 v).length, pos + 1 + 1) :=
      readUtf8Length_eq hbytes hbytes' (by simp [hpos])
    have h3 : slice data (pos + 1 + 1) (pos + 1 + 1 + (encodeUtf8 v).length) = encodeUtf8 v :=
      slice_eq htext (by simp [hpos]) (by simp [hpos])
    simp only [readString, Option.bind_eq_bind, h1, h2, Option.bind_some, h3, decodeUtf8_encodeUtf8]

/-- The blob of a list of strings, whatever stands before it: every string is read at its offset. -/
theorem foldlM_poolTurn : ∀ {ss : List String},
    (∀ s ∈ ss, s.length < 128 ∧ (encodeUtf8 s).length < 128) → ∀ (blob : Bytes) (offsets : List ℕ),
    ∃ tail news, ss.foldlM poolTurn (blob, offsets) = some (blob ++ tail, offsets ++ news) ∧
      news.length = ss.length ∧ tail.length ≤ 130 * ss.length ∧
      (∀ o ∈ news, o ≤ blob.length + tail.length) ∧
      ∀ {data pre post : Bytes}, data = pre ++ (blob ++ (tail ++ post)) →
        (news.mapM fun o => readString data (pre.length + o)) = some ss
  | [], _, blob, offsets => by
    refine ⟨[], [], ?_, rfl, Nat.zero_le _, by simp, fun _ => rfl⟩
    rw [List.append_nil, List.append_nil]
    rfl
  | v :: ss, h, blob, offsets => by
    rw [List.forall_mem_cons] at h
    obtain ⟨e, he, hlen, hread⟩ := exists_poolEntry h.1.1 h.1.2
    obtain ⟨tail, news, hfold, hnews, htail, hle, hrest⟩ :=
      foldlM_poolTurn h.2 (blob ++ e) (offsets ++ [blob.length])
    rw [List.length_append] at hle
    refine ⟨e ++ tail, blob.length :: news, ?_, ?_, ?_, ?_, ?_⟩
    · have hturn : poolTurn (blob, offsets) v = some (blob ++ e, offsets ++ [blob.length]) := by
        rw [poolTurn, he]
        rfl
      rw [List.foldlM_cons, hturn, Option.bind_eq_bind, Option.bind_some, hfold]
      simp
    · rw [List.length_cons, List.length_cons, hnews]
    · rw [List.length_append, List.length_cons]
      omega
    · rw [List.length_append, List.forall_mem_cons]
      exact ⟨by omega, fun o ho => (hle o ho).trans (by omega)⟩
    · intro data pre post hdata
      have hfirst : readString data (pre.length + blob.length) = some v :=
        hread (show data = (pre ++ blob) ++ (e ++ (tail ++ post)) by simp [hdata]) (by simp)
      have hnext : data = pre ++ ((blob ++ e) ++ (tail ++ post)) := by simp [hdata]
      rw [List.mapM_cons, hfirst, Option.bind_eq_bind, Option.bind_some, hrest hnext]
      rfl

/-! ### Chunks -/

theorem chunkHeader_of_lt {t h size : ℕ} (ht : t < 256 ^ 2) (hh : h < 256 ^ 2) (hsize : size < 256 ^ 4) :
    chunkHeader t h size = some (leAll [(2, t), (2, h), (4, size)]) :=
  packAll_of_lt (by simpa using ⟨ht, hh, hsize⟩)

/-- A turn at a chunk passes over it. -/
theorem chunkTurn_eq {t h : ℕ} {chunk body data pre post : Bytes} {st st' : Parse} (ht : t < 256 ^ 2)
    (hh : h < 256 ^ 2) (hsize : chunk.length < 256 ^ 4)
    (hchunk : chunk = leAll [(2, t), (2, h), (4, chunk.length)] ++ body)
    (hdata : data = pre ++ (chunk ++ post)) (hpos : st.position = pre.length)
    (hread : readChunk data st t h chunk.length = some st') (hkeep : st'.position = st.position) :
    chunkTurn data st = some (Sum.inr { st' with position := pre.length + chunk.length }) := by
  have hhead : data = pre ++ (leAll [(2, t), (2, h), (4, chunk.length)] ++ (body ++ post)) := by
    rw [hdata]
    nth_rewrite 1 [hchunk]
    rw [List.append_assoc]
  have hfields : unpackAll [2, 2, 4] data st.position = some [t, h, chunk.length] :=
    unpackAll_leAll hhead hpos (by simpa using ⟨ht, hh, hsize⟩)
  have hlt : st.position < data.length := by
    have hlen := congrArg List.length hhead
    simp at hlen
    omega
  rw [chunkTurn, if_pos hlt, hfields]
  simp only [Option.bind_eq_bind, Option.bind_some, hread, Option.pure_def, hkeep, hpos]

/-! ### The string pool and the resource map -/

/-- A record of words. -/
def leWords (ns : List ℕ) : Bytes := leAll (ns.map fun n => (4, n))

theorem packAll_words {ns : List ℕ} (h : ∀ n ∈ ns, n < 256 ^ 4) :
    packAll (ns.map fun n => (4, n)) = some (leWords ns) := packAll_of_lt (by simpa using h)

@[simp] theorem length_leWords (ns : List ℕ) : (leWords ns).length = 4 * ns.length := by
  rw [leWords, length_leAll, List.map_map]
  show (ns.map (Function.const ℕ 4)).sum = _
  rw [List.map_const, List.sum_replicate, smul_eq_mul, Nat.mul_comm]

theorem unpackAll_leWords {ns : List ℕ} {data pre post : Bytes} {pos n : ℕ}
    (hdata : data = pre ++ (leWords ns ++ post)) (hpos : pos = pre.length) (hn : ns.length = n)
    (h : ∀ n ∈ ns, n < 256 ^ 4) : unpackAll (List.replicate n 4) data pos = some ns := by
  have hread := unpackAll_leAll hdata hpos (by simpa using h)
  rw [List.map_map, List.map_map] at hread
  have hwidths : (Prod.fst ∘ fun n : ℕ => (4, n)) = Function.const ℕ 4 := rfl
  have hnumbers : (Prod.snd ∘ fun n : ℕ => (4, n)) = id := rfl
  rwa [hwidths, hnumbers, List.map_const, List.map_id, hn] at hread

def poolHead (blob : Bytes) : Bytes := leAll [(2, resStringPoolType), (2, 28), (4, 236 + blob.length)]

def poolCounts : Bytes := leAll [(4, 52), (4, 0), (4, utf8Flag), (4, 236), (4, 0)]

theorem poolCounts_lt : ∀ f ∈ [(4, 52), (4, 0), (4, utf8Flag), (4, 236), (4, 0)], f.2 < 256 ^ f.1 := by
  decide

/-- The pool's parts: its header, its counts, the offsets and the strings. -/
theorem exists_poolParts : ∃ offsets tail pad,
    stringPool = some (poolHead (tail ++ pad) ++ (poolCounts ++ (leWords offsets ++ (tail ++ pad)))) ∧
      offsets.length = 52 ∧ (∀ o ∈ offsets, o < 256 ^ 4) ∧ (tail ++ pad).length < 256 ^ 3 ∧
      ∀ {data pre post : Bytes}, data = pre ++ (tail ++ post) →
        (offsets.mapM fun o => readString data (pre.length + o)) = some strings := by
  obtain ⟨tail, offsets, hfold, hcount, htail, hle, hread⟩ := foldlM_poolTurn short_of_mem [] []
  have hlen : strings.length = 52 := rfl
  rw [List.nil_append, List.nil_append] at hfold
  rw [List.length_nil, Nat.zero_add] at hle
  rw [hlen] at hcount htail
  obtain ⟨pad, hpad⟩ : ∃ pad, pad = List.replicate ((4 - tail.length % 4) % 4) (0 : UInt8) := ⟨_, rfl⟩
  have hblob : (tail ++ pad).length ≤ 130 * 52 + 3 := by
    rw [hpad, List.length_append, List.length_replicate]
    omega
  have hoffsets : ∀ o ∈ offsets, o < 256 ^ 4 := fun o ho => (hle o ho).trans_lt (by omega)
  have hheader : chunkHeader resStringPoolType 28 (28 + 4 * strings.length + (tail ++ pad).length) =
      some (poolHead (tail ++ pad)) := by
    rw [hlen]
    exact chunkHeader_of_lt (by decide) (by decide) (by omega)
  have hfields : packAll [(4, strings.length), (4, 0), (4, utf8Flag), (4, 28 + 4 * strings.length),
      (4, 0)] = some poolCounts := by
    rw [hlen]
    exact packAll_of_lt poolCounts_lt
  refine ⟨offsets, tail, pad, ?_, hcount, hoffsets, by omega, fun hdata => hread hdata⟩
  simp only [stringPool, hfold, Option.bind_eq_bind, Option.bind_some, ← hpad, hheader, hfields,
    packAll_words hoffsets, Option.pure_def, List.append_assoc]

/-- The pool is read as its strings. -/
theorem exists_stringPool : ∃ pool, stringPool = some pool ∧ pool.length < 236 + 256 ^ 3 ∧
    ∀ {data pre post : Bytes} {ss : List String} {ids : List ℕ} {els : List (String × List ReadAttr)},
      data = pre ++ (pool ++ post) → chunkTurn data ⟨pre.length, ss, ids, els⟩ =
        some (Sum.inr ⟨pre.length + pool.length, ss ++ strings, ids, els⟩) := by
  obtain ⟨offsets, tail, pad, hpool, hcount, hoffsets, hblob, hread⟩ := exists_poolParts
  obtain ⟨head, hhead⟩ : ∃ head, head = poolHead (tail ++ pad) := ⟨_, rfl⟩
  have hlhead : head.length = 8 := by
    rw [hhead, poolHead, length_leAll]
    rfl
  have hlcounts : poolCounts.length = 20 := length_leAll _
  have hlwords : (leWords offsets).length = 208 := by rw [length_leWords, hcount]
  rw [← hhead] at hpool
  obtain ⟨chunk, hchunk⟩ : ∃ chunk, chunk = head ++ (poolCounts ++ (leWords offsets ++ (tail ++ pad))) :=
    ⟨_, rfl⟩
  have hsize : chunk.length = 236 + (tail ++ pad).length := by
    rw [hchunk, List.length_append, List.length_append, List.length_append, hlhead, hlcounts, hlwords]
    omega
  refine ⟨chunk, by rw [hchunk]; exact hpool, by omega, fun {data pre post ss ids els} hdata => ?_⟩
  rw [hchunk] at hdata
  -- the file, cut in front of each part
  have hcounts : data = pre ++ head ++ (poolCounts ++ (leWords offsets ++ (tail ++ pad) ++ post)) := by
    rw [hdata]
    simp only [List.append_assoc]
  have hwords : data = pre ++ head ++ poolCounts ++ (leWords offsets ++ (tail ++ pad ++ post)) := by
    rw [hdata]
    simp only [List.append_assoc]
  have htext : data = pre ++ head ++ poolCounts ++ leWords offsets ++ (tail ++ (pad ++ post)) := by
    rw [hdata]
    simp only [List.append_assoc]
  have h1 : unpackAll [4, 4, 4, 4, 4] data (pre.length + 8) = some [52, 0, utf8Flag, 236, 0] :=
    unpackAll_leAll hcounts (by rw [List.length_append, hlhead]) poolCounts_lt
  have h2 : unpackAll (List.replicate 52 4) data (pre.length + 28) = some offsets :=
    unpackAll_leWords hwords (by simp [hlhead, hlcounts]) hcount hoffsets
  have hbase : pre.length + 236 = (pre ++ head ++ poolCounts ++ leWords offsets).length := by
    simp [hlhead, hlcounts, hcount]
  have hstrings : readPool data pre.length 28 = some strings := by
    simp only [readPool, Option.bind_eq_bind, h1, Option.bind_some, h2, hbase]
    exact hread htext
  rw [← hchunk] at hdata
  have hfirst : chunk = leAll [(2, resStringPoolType), (2, 28), (4, chunk.length)] ++
      (poolCounts ++ (leWords offsets ++ (tail ++ pad))) := by
    rw [hsize]
    rw [hhead] at hchunk
    exact hchunk
  have hadd : readChunk data ⟨pre.length, ss, ids, els⟩ resStringPoolType 28 chunk.length =
      some ⟨pre.length, ss ++ strings, ids, els⟩ := by
    rw [readChunk_stringPool, hstrings, Option.map_some]
  exact chunkTurn_eq (by decide) (by decide) (by omega) hfirst hdata rfl hadd rfl

theorem resourceIds_lt : ∀ n ∈ resourceAttrs.map Prod.snd, n < no := by decide

/-- The resource map is read as its ids. -/
theorem exists_resourceMap : ∃ map, resourceMap = some map ∧ map.length = 68 ∧
    ∀ {data pre post : Bytes} {ss : List String} {ids : List ℕ} {els : List (String × List ReadAttr)},
      data = pre ++ (map ++ post) → chunkTurn data ⟨pre.length, ss, ids, els⟩ =
        some (Sum.inr ⟨pre.length + map.length, ss, resourceAttrs.map Prod.snd, els⟩) := by
  have hlen : (resourceAttrs.map Prod.snd).length = 15 := rfl
  have hids : ∀ n ∈ resourceAttrs.map Prod.snd, n < 256 ^ 4 := fun n hn =>
    (resourceIds_lt n hn).trans (by decide)
  obtain ⟨head, hhead⟩ : ∃ head, head = leAll [(2, resXmlResourceMapType), (2, 8), (4, 68)] := ⟨_, rfl⟩
  have hlhead : head.length = 8 := by
    rw [hhead, length_leAll]
    rfl
  have hheader : chunkHeader resXmlResourceMapType 8 68 = some head := by
    rw [hhead]
    exact chunkHeader_of_lt (by decide) (by decide) (by decide)
  have hsize : (head ++ leWords (resourceAttrs.map Prod.snd)).length = 68 := by
    rw [List.length_append, hlhead, length_leWords, hlen]
  refine ⟨head ++ leWords (resourceAttrs.map Prod.snd), ?_, hsize, fun {data pre post ss ids els} hdata => ?_⟩
  · simp only [resourceMap, Option.bind_eq_bind, hlen, hheader, Option.bind_some, packAll_words hids,
      Option.pure_def]
  · have hwords : data = pre ++ head ++ (leWords (resourceAttrs.map Prod.snd) ++ post) := by
      rw [hdata]
      simp only [List.append_assoc]
    have hread : unpackAll (List.replicate 15 4) data (pre.length + 8) =
        some (resourceAttrs.map Prod.snd) :=
      unpackAll_leWords hwords (by rw [List.length_append, hlhead]) hlen hids
    have hfirst : head ++ leWords (resourceAttrs.map Prod.snd) = leAll [(2, resXmlResourceMapType), (2, 8),
        (4, (head ++ leWords (resourceAttrs.map Prod.snd)).length)] ++
          leWords (resourceAttrs.map Prod.snd) := by
      rw [hsize, ← hhead]
    have hadd : readChunk data ⟨pre.length, ss, ids, els⟩ resXmlResourceMapType 8
        (head ++ leWords (resourceAttrs.map Prod.snd)).length =
          some ⟨pre.length, ss, resourceAttrs.map Prod.snd, els⟩ := by
      rw [readChunk_resourceMap, hsize, hread, Option.map_some]
    exact chunkTurn_eq (by decide) (by decide) (by omega) hfirst hdata rfl hadd rfl

end ZorinTrust
