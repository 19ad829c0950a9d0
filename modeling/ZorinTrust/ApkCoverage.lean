import ZorinTrust.ApkSigning

/-!
# Verification covers the whole archive

The digest is taken over the chunks of three sections, and where a section ends is not hashed.  It does
not have to be: the chunks of the sections in a row are the file without its signing block, whatever
the sections are, and the last string that is hashed fixes the chunks one by one.  Two accepted files
with the same signed data store the same digest, so without a collision they have the same chunks.
-/

namespace ZorinTrust

open CText Packed Search Loop

/-! ### The chunks of a section -/

theorem flatten_slices (s : Bytes) (k : ℕ) : ∀ n : ℕ,
    ((List.range n).map fun i => slice s (i * k) (i * k + k)).flatten = s.take (n * k)
  | 0 => by simp
  | n + 1 => by
    rw [List.range_succ, List.map_append, List.flatten_append, flatten_slices s k n, Nat.succ_mul,
      List.take_add]
    simp [slice]

/-- The chunks in a row are the section. -/
theorem flatten_chunks (sec : Bytes) : (chunks sec).flatten = sec := by
  rw [chunks, flatten_slices]
  refine List.take_of_length_le ?_
  have hpos : oneMb = 1048576 := rfl
  have := Nat.div_add_mod (sec.length + oneMb - 1) oneMb
  have := Nat.mod_lt (sec.length + oneMb - 1) (show 0 < oneMb by omega)
  rw [Nat.mul_comm]
  omega

theorem flatten_flatMap_chunks (sections : List Bytes) :
    (sections.flatMap chunks).flatten = sections.flatten := by
  induction sections with
  | nil => rfl
  | cons sec rest ih => rw [List.flatMap_cons, List.flatten_append, flatten_chunks, ih, List.flatten_cons]

/-! ### What the hashed strings determine -/

theorem chunkMessage_eq_some {c m : Bytes} : chunkMessage c = some m ↔
    c.length < 256 ^ 4 ∧ m = 0xA5 :: (le 4 c.length ++ c) := bind_pack_eq_some

/-- A chunk is what its string holds behind the length. -/
theorem chunkMessage_inj {c c' m : Bytes} (h : chunkMessage c = some m) (h' : chunkMessage c' = some m) :
    c = c' := by
  obtain ⟨-, rfl⟩ := chunkMessage_eq_some.mp h
  obtain ⟨-, heq⟩ := chunkMessage_eq_some.mp h'
  obtain ⟨-, heq⟩ := List.cons_eq_cons.mp heq
  exact (List.append_inj heq (by rw [length_le, length_le])).2

/-- The strings determine the chunks. -/
theorem chunks_inj : ∀ {cs cs' ms : List Bytes}, cs.mapM chunkMessage = some ms →
    cs'.mapM chunkMessage = some ms → cs = cs'
  | [], [], _, _, _ => rfl
  | [], c' :: cs', ms, h, h' => by
    cases h
    simp [List.mapM_cons, Option.bind_eq_some_iff] at h'
  | c :: cs, [], ms, h, h' => by
    cases h'
    simp [List.mapM_cons, Option.bind_eq_some_iff] at h
  | c :: cs, c' :: cs', ms, h, h' => by
    simp only [List.mapM_cons, Option.bind_eq_bind, Option.bind_eq_some_iff, Option.pure_def,
      Option.some.injEq] at h h'
    obtain ⟨m, hm, ms, hms, rfl⟩ := h
    obtain ⟨m', hm', ms', hms', heq⟩ := h'
    obtain ⟨rfl, rfl⟩ := List.cons_eq_cons.mp heq
    rw [chunkMessage_inj hm hm', chunks_inj hms hms']

theorem topMessage_eq_some {ds : List Bytes} {t : Bytes} : topMessage ds = some t ↔
    ds.length < 256 ^ 4 ∧ t = 0x5A :: (le 4 ds.length ++ ds.flatten) := bind_pack_eq_some

/-- The last string determines the digests, which all have one length. -/
theorem topMessage_inj {ds ds' : List Bytes} {t : Bytes} {k : ℕ} (hk : ∀ d ∈ ds, d.length = k)
    (hk' : ∀ d ∈ ds', d.length = k) (h : topMessage ds = some t) (h' : topMessage ds' = some t) :
    ds = ds' := by
  obtain ⟨hlt, rfl⟩ := topMessage_eq_some.mp h
  obtain ⟨hlt', heq⟩ := topMessage_eq_some.mp h'
  obtain ⟨-, heq⟩ := List.cons_eq_cons.mp heq
  obtain ⟨hn, hflat⟩ := List.append_inj heq (by rw [length_le, length_le])
  have hlen : ds.length = ds'.length := by rw [← leVal_le hlt, hn, leVal_le hlt']
  have hmap : ds.map List.length = List.replicate ds.length k :=
    List.eq_replicate_iff.mpr ⟨List.length_map _, by simpa using hk⟩
  have hmap' : ds'.map List.length = List.replicate ds'.length k :=
    List.eq_replicate_iff.mpr ⟨List.length_map _, by simpa using hk'⟩
  exact List.eq_iff_flatten_eq.mpr ⟨hflat, by rw [hmap, hmap', hlen]⟩

/-- Strings that do not collide are determined by their digests. -/
theorem map_inj_of_injOn {f : Bytes → Bytes} {S : Set Bytes} (hf : Set.InjOn f S) :
    ∀ {ms ms' : List Bytes}, (∀ m ∈ ms, m ∈ S) → (∀ m ∈ ms', m ∈ S) → ms.map f = ms'.map f → ms = ms'
  | [], [], _, _, _ => rfl
  | m :: ms, m' :: ms', h, h', heq => by
    rw [List.map_cons, List.map_cons, List.cons_eq_cons] at heq
    rw [List.forall_mem_cons] at h h'
    rw [hf h.1 h'.1 heq.1, map_inj_of_injOn hf h.2 h'.2 heq.2]

/-- Equal digests over strings that do not collide are digests of the same bytes. -/
theorem flatten_eq_of_contentDigest {sha256 : Bytes → Bytes} {k : ℕ} (hk : ∀ b, (sha256 b).length = k)
    {S : Set Bytes} (hS : Set.InjOn sha256 S) {secs secs' ms ms' : List Bytes} {t t' : Bytes}
    (h : digestMessages sha256 secs = some (ms, t)) (h' : digestMessages sha256 secs' = some (ms', t'))
    (hmem : ∀ m ∈ ms ++ [t], m ∈ S) (hmem' : ∀ m ∈ ms' ++ [t'], m ∈ S)
    (hdigest : sha256 t = sha256 t') : secs.flatten = secs'.flatten := by
  simp only [digestMessages, Option.bind_eq_bind, Option.bind_eq_some_iff, Option.pure_def,
    Option.some.injEq, Prod.mk.injEq] at h h'
  obtain ⟨ms, hms, t, ht, rfl, rfl⟩ := h
  obtain ⟨ms', hms', t', ht', rfl, rfl⟩ := h'
  obtain rfl : t = t' := hS (hmem t (by simp)) (hmem' t' (by simp)) hdigest
  have hdigests : ms.map sha256 = ms'.map sha256 :=
    topMessage_inj (by simpa using fun m _ => hk m) (by simpa using fun m _ => hk m) ht ht'
  obtain rfl : ms = ms' := map_inj_of_injOn hS (fun m hm => hmem m (by simp [hm]))
    (fun m hm => hmem' m (by simp [hm])) hdigests
  rw [← flatten_flatMap_chunks, chunks_inj hms hms', flatten_flatMap_chunks]

/-! ### Accepted files -/

/-- The signed data of a file. -/
def signedDataOf (data : Bytes) : Option Bytes := do
  let loc ← locateV2 data
  let signer ← readSigner loc.v2
  return signer.signedData

section

variable {Key Cert : Type} (O : Oracle Key Cert)

/-- The byte strings that `content_digest` hashes when a file is verified. -/
def hashedStrings (data : Bytes) : List Bytes :=
  let strings := do
    let loc ← locateV2 data
    let sections ← verifiedSections data loc
    let (messages, top) ← digestMessages O.sha256 sections
    return messages ++ [top]
  strings.getD []

variable {O}

/-- The stored digest is read from the signed data alone. -/
theorem storedDigest_unique {s s' : Signer} {d d' c c' : Bytes} (h : checkSigner O s = some (d, c))
    (h' : checkSigner O s' = some (d', c')) (hdata : s.signedData = s'.signedData) : d = d' := by
  simp only [checkSigner, Option.bind_eq_bind, Option.bind_eq_some_iff, Option.guard_eq_some',
    Option.pure_def, Option.some.injEq, exists_const, Prod.exists, Prod.mk.injEq] at h h'
  obtain ⟨rs, cs, hread, -, -, -, byAlg, hbyAlg, -, -, -, d, hd, -, -, -, -, -, -, -, -, rfl, -⟩ := h
  obtain ⟨rs', cs', hread', -, -, -, byAlg', hbyAlg', -, -, -, d', hd', -, -, -, -, -, -, -, -, rfl, -⟩ := h'
  rw [hdata, hread'] at hread
  cases hread
  rw [hbyAlg] at hbyAlg'
  cases hbyAlg'
  rw [hd] at hd'
  exact Option.some.inj hd'

/-- What an accepted file has: a stored digest, and sections that have it. -/
theorem of_verifyApk {data : Bytes} {info : ApkInfo} (h : verifyApk O data = some info) :
    ∃ signer stored certDer sections messages top, signedDataOf data = some signer.signedData ∧
      checkSigner O signer = some (stored, certDer) ∧ withoutBlock data = some sections.flatten ∧
      digestMessages O.sha256 sections = some (messages, top) ∧ O.sha256 top = stored ∧
      hashedStrings O data = messages ++ [top] := by
  obtain ⟨loc, signer, stored, certDer, sections, hloc, hsigner, hcheck, hsections, hdigest, -⟩ :=
    (verifyApk_eq_some O).mp h
  simp only [contentDigest, Option.bind_eq_bind, Option.bind_eq_some_iff, Option.pure_def,
    Option.some.injEq, Prod.exists] at hdigest
  obtain ⟨messages, top, hmessages, hstored⟩ := hdigest
  refine ⟨signer, stored, certDer, sections, messages, top, ?_, hcheck, withoutBlock_eq hloc hsections,
    hmessages, hstored, ?_⟩
  · rw [signedDataOf, hloc, Option.bind_eq_bind, Option.bind_some, hsigner]
    rfl
  · simp [hashedStrings, hloc, hsections, hmessages]

/-- Two files that pass, with the same signed data, differ in their signing blocks at most, unless two
of the strings hashed for them collide. -/
theorem withoutBlock_eq_of_signedDataOf_eq (O : Oracle Key Cert) {data data' : Bytes}
    {info info' : ApkInfo} (h : verifyApk O data = some info) (h' : verifyApk O data' = some info')
    (hsigned : signedDataOf data = signedDataOf data')
    (hcollision : Set.InjOn O.sha256 {b | b ∈ hashedStrings O data ++ hashedStrings O data'}) :
    ∃ archive, withoutBlock data = some archive ∧ withoutBlock data' = some archive := by
  obtain ⟨s, d, c, secs, ms, t, hdata, hcheck, hwithout, hmessages, hd, hstrings⟩ := of_verifyApk h
  obtain ⟨s', d', c', secs', ms', t', hdata', hcheck', hwithout', hmessages', hd', hstrings'⟩ :=
    of_verifyApk h'
  rw [hdata, hdata', Option.some.injEq] at hsigned
  rw [hstrings, hstrings'] at hcollision
  have hstored : d = d' := storedDigest_unique hcheck hcheck' hsigned
  have hflat : secs.flatten = secs'.flatten := by
    refine flatten_eq_of_contentDigest O.length_sha256 hcollision hmessages hmessages' ?_ ?_ ?_
    · exact fun m hm => List.mem_append_left _ hm
    · exact fun m hm => List.mem_append_right _ hm
    · rw [hd, hd', hstored]
  exact ⟨secs.flatten, hwithout, by rw [hflat, hwithout']⟩

end

/-- `tinySigned` with one more pair in its signing block. -/
def tinyPadded : Bytes :=
  [0x41] ++ (le 8 151 ++ (le 8 4 ++ le 4 7) ++ slice tinySigned 9 124 ++ le 8 151 ++ sigBlockMagic) ++
    [0x42] ++ (tinyEocd.take 16 ++ le 4 160 ++ tinyEocd.drop 20)

theorem withoutBlock_tiny : tinySigned ≠ tinyPadded ∧
    ∃ archive, withoutBlock tinySigned = some archive ∧ withoutBlock tinyPadded = some archive := by
  have hcollision : ∀ x ∈ hashedStrings tinyOracle tinySigned ++ hashedStrings tinyOracle tinyPadded,
      ∀ y ∈ hashedStrings tinyOracle tinySigned ++ hashedStrings tinyOracle tinyPadded,
        tinyOracle.sha256 x = tinyOracle.sha256 y → x = y := by decide +kernel
  have hsigned : (verifyApk tinyOracle tinySigned).isSome := by decide +kernel
  have hpadded : (verifyApk tinyOracle tinyPadded).isSome := by decide +kernel
  obtain ⟨info, h⟩ := Option.isSome_iff_exists.mp hsigned
  obtain ⟨info', h'⟩ := Option.isSome_iff_exists.mp hpadded
  refine ⟨by decide +kernel, withoutBlock_eq_of_signedDataOf_eq tinyOracle h h' (by decide +kernel) ?_⟩
  exact fun x hx y hy => hcollision x hx y hy

end ZorinTrust
