import ZorinTrust.ApkV2

/-!
# What the signer writes, the verifier accepts

The signer lays the block out by prefixing lengths, the verifier takes it apart by reading them.  Each
reader gets a lemma that says what it finds at the place where the writer put an item, and the search
from the end of the file finds the record in the last 22 bytes because the signature of an end record
cannot overlap itself and a later one does not fit.
-/

namespace ZorinTrust

open CText Packed Search Loop

/-! ### Items -/

theorem lp32_eq_some {b x : Bytes} :
    lp32 b = some x ↔ b.length < 256 ^ 4 ∧ x = le 4 b.length ++ b := bind_pack_eq_some

theorem takeLp_eq_some {buf b : Bytes} {pos p : ℕ} : takeLp buf pos = some (b, p) ↔
    ∃ n, unpackFrom 4 buf pos = some n ∧ pos + 4 + n ≤ buf.length ∧
      b = slice buf (pos + 4) (pos + 4 + n) ∧ p = pos + 4 + n := by
  simp only [takeLp, Option.bind_eq_bind, Option.bind_eq_some_iff, Option.guard_eq_some',
    Option.pure_def, Option.some.injEq, exists_const, Prod.mk.injEq]
  constructor
  · rintro ⟨-, n, hn, hlen, hb, hp⟩
    exact ⟨n, hn, hlen, hb.symm, hp.symm⟩
  · rintro ⟨n, hn, hlen, hb, hp⟩
    exact ⟨by omega, n, hn, hlen, hb.symm, hp.symm⟩

/-- An item is read where it was written. -/
theorem takeLp_of_lp32 {buf pre b x post : Bytes} {pos : ℕ} (hx : lp32 b = some x)
    (hbuf : buf = pre ++ (x ++ post)) (hpos : pos = pre.length) :
    takeLp buf pos = some (b, pos + x.length) := by
  obtain ⟨hlt, rfl⟩ := lp32_eq_some.mp hx
  rw [List.append_assoc] at hbuf
  refine takeLp_eq_some.mpr ⟨b.length, unpackFrom_le hbuf hpos hlt, ?_, ?_, ?_⟩
  · have hlen := congrArg List.length hbuf
    simp only [List.length_append, length_le] at hlen
    omega
  · rw [← List.append_assoc] at hbuf
    exact (slice_eq hbuf (by simp [hpos]) (by simp [hpos])).symm
  · rw [List.length_append, length_le, Nat.add_assoc]

/-- The item a text starts and ends with. -/
theorem takeLp_zero {b x : Bytes} (hx : lp32 b = some x) : takeLp x 0 = some (b, x.length) := by
  rw [takeLp_of_lp32 hx (List.append_nil x).symm List.length_nil.symm, Nat.zero_add]

theorem descends_itemTurn (seq : Bytes) : Descends (fun st => seq.length - st.1) (itemTurn seq) := by
  rintro ⟨p, items⟩ ⟨p', items'⟩ h
  rw [itemTurn] at h
  split_ifs at h with hp
  · obtain ⟨⟨item, q⟩, hq, h⟩ := Option.bind_eq_some_iff.mp h
    obtain ⟨n, -, -, -, rfl⟩ := takeLp_eq_some.mp hq
    cases h
    dsimp only
    omega
  · cases h

/-- A sequence of one item. -/
theorem lpItems_of_lp32 {b x : Bytes} (hx : lp32 b = some x) : lpItems x = some [b] := by
  have hpos : 0 < x.length := by
    obtain ⟨-, rfl⟩ := lp32_eq_some.mp hx
    simp
  have hfirst : itemTurn x (0, []) = some (Sum.inr (x.length, [b])) := by
    rw [itemTurn, if_pos hpos, takeLp_zero hx]
    rfl
  have hlast : itemTurn x (x.length, [b]) = some (Sum.inl [b]) := if_neg (lt_irrefl _)
  rw [lpItems, loop_next (descends_itemTurn x) hfirst, loop_return (descends_itemTurn x) hlast]

theorem of_lpSequence {b y : Bytes} (h : lpSequence b = some y) :
    ∃ x, lp32 b = some x ∧ lp32 x = some y := Option.bind_eq_some_iff.mp h

/-- `parse_first_lp_sequence` on a sequence of one item. -/
theorem parseFirstLpSequence_of_lpSequence {b y : Bytes} (h : lpSequence b = some y) :
    parseFirstLpSequence y = some [b] := by
  obtain ⟨x, hx, hy⟩ := of_lpSequence h
  rw [parseFirstLpSequence, takeLp_zero hy]
  simpa using lpItems_of_lp32 hx

/-- Three items in a row. -/
theorem takeLp_three {a b c x y z buf : Bytes} (hx : lp32 a = some x) (hy : lp32 b = some y)
    (hz : lp32 c = some z) (hbuf : buf = x ++ y ++ z) :
    takeLp buf 0 = some (a, x.length) ∧ takeLp buf x.length = some (b, x.length + y.length) ∧
      takeLp buf (x.length + y.length) = some (c, buf.length) := by
  have hlen : buf.length = x.length + y.length + z.length := by
    rw [hbuf, List.length_append, List.length_append]
  have hsecond : buf = x ++ (y ++ z) := by rw [hbuf, List.append_assoc]
  have hthird : buf = x ++ y ++ (z ++ []) := by rw [hbuf, List.append_nil]
  refine ⟨?_, takeLp_of_lp32 hy hsecond rfl, ?_⟩
  · rw [takeLp_of_lp32 hx hsecond List.length_nil.symm, Nat.zero_add]
  · rw [takeLp_of_lp32 hz hthird List.length_append.symm, hlen]

/-- The dictionary of one record. -/
theorem byAlg_algRecord {b r : Bytes} (h : algRecord b = some r) :
    byAlg [r] = some [(algRsaPkcs1Sha256, b)] := by
  simp only [algRecord, Option.bind_eq_bind, Option.bind_eq_some_iff, Option.pure_def,
    Option.some.injEq] at h
  obtain ⟨n, hn, x, hx, rfl⟩ := h
  obtain ⟨hlt, rfl⟩ := pack_eq_some.mp hn
  have halg : unpackFrom 4 (le 4 algRsaPkcs1Sha256 ++ x) 0 = some algRsaPkcs1Sha256 :=
    unpackFrom_le (List.nil_append _).symm List.length_nil.symm hlt
  have htake : takeLp (le 4 algRsaPkcs1Sha256 ++ x) 4 =
      some (b, (le 4 algRsaPkcs1Sha256 ++ x).length) := by
    rw [List.length_append, length_le]
    exact takeLp_of_lp32 hx (by rw [List.append_nil]) (length_le 4 _).symm
  have hread : readRecord (le 4 algRsaPkcs1Sha256 ++ x) = some (algRsaPkcs1Sha256, b) := by
    rw [readRecord, halg, htake]
    simp
  simp [byAlg, hread, setItem]

/-! ### The signer -/

/-- The signed data reads back as its digest record and its certificate. -/
theorem readSignedData_buildSignedData {digest certDer signedData : Bytes}
    (h : buildSignedData digest certDer = some signedData) :
    ∃ r, algRecord digest = some r ∧ readSignedData signedData = some ([r], [certDer]) := by
  simp only [buildSignedData, Option.bind_eq_bind, Option.bind_eq_some_iff, Option.pure_def,
    Option.some.injEq] at h
  obtain ⟨r, hr, digestsField, hdigests, certsField, hcerts, attrsField, hattrs, hdata⟩ := h
  obtain ⟨digestsSeq, hdigest, hdigests⟩ := of_lpSequence hdigests
  obtain ⟨certsSeq, hcert, hcerts⟩ := of_lpSequence hcerts
  obtain ⟨h1, h2, h3⟩ := takeLp_three hdigests hcerts hattrs hdata.symm
  refine ⟨r, hr, ?_⟩
  simp only [readSignedData, Option.bind_eq_bind, Option.bind_eq_some_iff, Option.guard_eq_some',
    Option.pure_def, Option.some.injEq, exists_const, Prod.exists, Prod.mk.injEq]
  exact ⟨_, _, h1, _, _, h2, _, _, h3, ⟨rfl, rfl⟩, _, lpItems_of_lp32 hdigest, _,
    lpItems_of_lp32 hcert, rfl, rfl⟩

section

variable {Key Cert : Type} {O : Oracle Key Cert}

/-- The certificate survives its encoding, and what the key signs verifies under it. -/
structure Oracle.Matches (O : Oracle Key Cert) (key : Key) (cert : Cert) : Prop where
  load : O.loadDerCertificate (O.certificateDer cert) = some cert
  verify : ∀ message signature, O.sign key message = some signature →
    O.verify cert signature message = true

/-- The checks on the signer pass for the v2 value of a matching key, and find the digest in it. -/
theorem checkSigner_buildV2Value {key : Key} {cert : Cert} (hmatch : O.Matches key cert)
    {digest v2 : Bytes}
    (h : buildV2Value O digest (O.certificateDer cert) (O.publicKeyDer cert) key = some v2) :
    ∃ signer, readSigner v2 = some signer ∧
      checkSigner O signer = some (digest, O.certificateDer cert) := by
  simp only [buildV2Value, Option.bind_eq_bind, Option.bind_eq_some_iff] at h
  obtain ⟨signedData, hdata, signature, hsign, sigRecord, hrecord, sigsField, hsigs, dataField, hfield,
    pubField, hpub, hv2⟩ := h
  obtain ⟨sigsSeq, hsig, hsigs⟩ := of_lpSequence hsigs
  obtain ⟨h1, h2, h3⟩ := takeLp_three hfield hsigs hpub rfl
  obtain ⟨digestRecord, hdigest, hread⟩ := readSignedData_buildSignedData hdata
  refine ⟨⟨signedData, sigsSeq, O.publicKeyDer cert⟩, ?_, ?_⟩
  · simp only [readSigner, Option.bind_eq_bind, Option.bind_eq_some_iff, Option.guard_eq_some',
      Option.pure_def, Option.some.injEq, exists_const, Prod.exists]
    exact ⟨_, parseFirstLpSequence_of_lpSequence hv2, rfl, _, rfl, _, _, h1, _, _, h2, _, _, h3, rfl, rfl⟩
  · simp only [checkSigner, Option.bind_eq_bind, Option.bind_eq_some_iff, Option.guard_eq_some',
      Option.pure_def, Option.some.injEq, exists_const, Prod.exists, Prod.mk.injEq]
    exact ⟨_, _, hread, _, lpItems_of_lp32 hsig, by simp, _, byAlg_algRecord hdigest, _,
      byAlg_algRecord hrecord, rfl, _, rfl, _, rfl, _, rfl, _, hmatch.load, rfl,
      hmatch.verify _ _ hsign, rfl, rfl⟩

end

/-! ### The end record -/

theorem eocdAt_eq_some {data : Bytes} {pos cdOff cdSize : ℕ} : eocdAt data pos = some (cdOff, cdSize) ↔
    ∃ c, pos + 22 + c = data.length ∧ unpackFrom 2 data (pos + 20) = some c ∧
      unpackFrom 4 data (pos + 12) = some cdSize ∧ unpackFrom 4 data (pos + 16) = some cdOff ∧
      cdOff ≠ 4294967295 ∧ cdSize ≠ 4294967295 := by
  simp only [eocdAt, Option.bind_eq_bind, Option.bind_eq_some_iff, Option.guard_eq_some',
    Option.pure_def, Option.some.injEq, exists_const, Prod.mk.injEq]
  constructor
  · rintro ⟨-, c, hc, hlen, size, hsize, off, hoff, hne, rfl, rfl⟩
    exact ⟨c, hlen, hc, hsize, hoff, hne⟩
  · rintro ⟨c, hlen, hc, hsize, hoff, hne⟩
    exact ⟨by omega, c, hc, hlen, cdSize, hsize, cdOff, hoff, hne, rfl, rfl⟩

/-- The record is read from where it starts. -/
theorem eocdAt_shift (pre e : Bytes) (pos : ℕ) : eocdAt (pre ++ e) (pre.length + pos) = eocdAt e pos := by
  simp only [eocdAt, Nat.add_assoc, unpackFrom_shift, List.length_append, Nat.add_le_add_iff_left,
    Nat.add_left_cancel_iff]

/-- Another offset in the record. -/
theorem eocdAt_packInto {e e' : Bytes} {cdOff cdSize n : ℕ} (he : eocdAt e 0 = some (cdOff, cdSize))
    (h : packInto 4 e 16 n = some e') (hn : n ≠ 4294967295) : eocdAt e' 0 = some (n, cdSize) := by
  obtain ⟨c, hlen, hc, hsize, -, -, hne⟩ := eocdAt_eq_some.mp he
  rw [← length_packInto h] at hlen
  rw [← unpackFrom_packInto_right h (by omega)] at hc
  rw [← unpackFrom_packInto_left h (by omega)] at hsize
  exact eocdAt_eq_some.mpr ⟨c, hlen, hc, hsize, unpackFrom_packInto h, hn, hne⟩

/-- The signature of the record stays. -/
theorem eocdSig_packInto {e e' : Bytes} {n : ℕ} (he : eocdSig <+: e) (h : packInto 4 e 16 n = some e') :
    eocdSig <+: e' := by
  obtain ⟨-, rfl⟩ := packInto_eq_some.mp h
  exact (List.prefix_take_iff.mpr ⟨he, by decide⟩).trans (List.prefix_append _ _)

theorem descends_eocdTurn (data : Bytes) (start : ℕ) :
    Descends (fun pos => pos.elim 0 (· + 1)) (eocdTurn data start) := by
  rintro (_ | pos) next h
  · cases h
  · rw [eocdTurn] at h
    split at h
    · cases h
    · cases h
      cases hnext : rfind data eocdSig start pos with
      | none => exact Nat.succ_pos _
      | some pos' =>
        have hlt := (of_rfind hnext).1
        have hsig : eocdSig.length = 4 := rfl
        show pos' + 1 < pos + 1
        omega

/-- From a candidate at or behind a record that ends the file, the search comes to that record. -/
theorem loop_eocdTurn {data : Bytes} {start pos cdOff cdSize : ℕ} (hsig : eocdSig <+: data.drop pos)
    (hat : eocdAt data pos = some (cdOff, cdSize)) (hlast : pos + 22 = data.length)
    (hstart : start ≤ pos) : ∀ cand : ℕ, eocdSig <+: data.drop cand → pos ≤ cand →
      loop (fun pos => pos.elim 0 (· + 1)) (eocdTurn data start) (some cand) =
        some (pos, cdOff, cdSize) := by
  intro cand
  induction cand using Nat.strong_induction_on with
  | _ cand ih =>
    intro hcand hle
    rcases hle.eq_or_lt with rfl | hlt
    · refine loop_return (descends_eocdTurn data start) ?_
      rw [eocdTurn, hat]
    · have hnone : eocdAt data cand = none := by
        by_contra hne
        obtain ⟨⟨o, z⟩, hsome⟩ := Option.ne_none_iff_exists'.mp hne
        obtain ⟨c, hlen, -⟩ := eocdAt_eq_some.mp hsome
        omega
      have hapart := add_length_le_of_nodup (by decide) hsig hcand hlt
      obtain ⟨next, hnext, hge⟩ := exists_rfind hsig hstart hapart
      have hturn : eocdTurn data start (some cand) = some (Sum.inr (some next)) := by
        rw [eocdTurn, hnone, hnext]
      obtain ⟨hstop, hsig'⟩ := of_rfind hnext
      have hlength : eocdSig.length = 4 := rfl
      rw [loop_next (descends_eocdTurn data start) hturn]
      exact ih next (by omega) hsig' hge

/-- The record that ends the file is the one that is found. -/
theorem findEocd_eq {data : Bytes} {pos cdOff cdSize : ℕ} (hsig : eocdSig <+: data.drop pos)
    (hat : eocdAt data pos = some (cdOff, cdSize)) (hlast : pos + 22 = data.length) :
    findEocd data = some (pos, cdOff, cdSize) := by
  have hlength : eocdSig.length = 4 := rfl
  have hstart : data.length - (65535 + 22) ≤ pos := by omega
  have hstop : pos + eocdSig.length ≤ data.length := by omega
  obtain ⟨first, hfirst, hge⟩ := exists_rfind hsig hstart hstop
  rw [findEocd, hfirst]
  exact loop_eocdTurn hsig hat hlast hstart first (of_rfind hfirst).2 hge

/-- What was found is a record with its signature. -/
theorem of_findEocd {data : Bytes} {pos cdOff cdSize : ℕ} (h : findEocd data = some (pos, cdOff, cdSize)) :
    eocdSig <+: data.drop pos ∧ eocdAt data pos = some (cdOff, cdSize) := by
  have hrfind (start stop : ℕ) : ∀ n ∈ rfind data eocdSig start stop, eocdSig <+: data.drop n :=
    fun n hn => (of_rfind hn).2
  have hstep : ∀ s s', (∀ n ∈ s, eocdSig <+: data.drop n) →
      eocdTurn data (data.length - (65535 + 22)) s = some (Sum.inr s') →
      ∀ n ∈ s', eocdSig <+: data.drop n := by
    rintro (_ | cand) next - hturn
    · cases hturn
    · rw [eocdTurn] at hturn
      split at hturn
      · cases hturn
      · cases hturn
        exact hrfind _ _
  rw [findEocd] at h
  obtain ⟨last, hsig, hturn⟩ := loop_inv hstep (hrfind _ _) h
  cases last with
  | none => cases hturn
  | some cand =>
    rw [eocdTurn] at hturn
    split at hturn
    next o z hat =>
      cases hturn
      exact ⟨hsig _ rfl, hat⟩
    · cases hturn

/-! ### The signing block -/

/-- The pair of the signing block. -/
theorem of_buildSigningBlock {v2 block : Bytes} (h : buildSigningBlock v2 = some block) :
    ∃ pair, pair = le 8 (4 + v2.length) ++ (le 4 v2Id ++ v2) ∧ 4 + v2.length < 256 ^ 8 ∧
      pair.length + 24 < 256 ^ 8 ∧
      block = le 8 (pair.length + 24) ++ (pair ++ (le 8 (pair.length + 24) ++ sigBlockMagic)) := by
  simp only [buildSigningBlock, u64, u32, Option.bind_eq_bind, Option.bind_eq_some_iff, Option.pure_def,
    Option.some.injEq, pack_eq_some] at h
  obtain ⟨n, ⟨hn, rfl⟩, pid, ⟨-, rfl⟩, s1, ⟨hs, rfl⟩, s2, ⟨-, rfl⟩, rfl⟩ := h
  rw [List.append_assoc] at hs
  exact ⟨_, rfl, hn, hs, by simp only [List.append_assoc]⟩

theorem descends_pairTurn (data : Bytes) (pairsEnd : ℕ) :
    Descends (fun st => pairsEnd - st.1) (pairTurn data pairsEnd) := by
  rintro ⟨p, v2⟩ ⟨p', v2'⟩ h
  rw [pairTurn] at h
  split_ifs at h with hp
  · simp only [Option.bind_eq_bind, Option.bind_eq_some_iff, Option.guard_eq_some', Option.pure_def,
      Option.some.injEq, exists_const, Sum.inr.injEq, Prod.mk.injEq] at h
    obtain ⟨-, n, -, -, -, -, rfl, -⟩ := h
    dsimp only
    omega
  · cases h

/-- The turn that reads the pair of the v2 value. -/
theorem pairTurn_eq {data pre v2 rest : Bytes} {pairsEnd : ℕ} (hlt : 4 + v2.length < 256 ^ 8)
    (hdata : data = pre ++ (le 8 (4 + v2.length) ++ (le 4 v2Id ++ (v2 ++ rest))))
    (hend : pairsEnd = pre.length + 12 + v2.length) :
    pairTurn data pairsEnd (pre.length, none) = some (Sum.inr (pairsEnd, some v2)) := by
  have hn : unpackFrom 8 data pre.length = some (4 + v2.length) := unpackFrom_le hdata rfl hlt
  have hdata' : data = pre ++ le 8 (4 + v2.length) ++ (le 4 v2Id ++ (v2 ++ rest)) := by
    rw [hdata, List.append_assoc]
  have hpid : unpackFrom 4 data (pre.length + 8) = some v2Id :=
    unpackFrom_le hdata' (by simp) (by decide)
  have hval : slice data (pre.length + 8 + 4) (pre.length + 8 + (4 + v2.length)) = v2 := by
    rw [← List.append_assoc] at hdata'
    exact slice_eq hdata' (by simp) (by simp; omega)
  rw [pairTurn, if_pos (by omega)]
  simp only [Option.bind_eq_bind, Option.bind_eq_some_iff, Option.guard_eq_some', Option.pure_def,
    Option.some.injEq, exists_const, Sum.inr.injEq, Prod.mk.injEq]
  refine ⟨by omega, _, hn, ⟨by omega, by omega⟩, _, hpid, by omega, ?_⟩
  rw [hval]
  simp

/-- What the verifier reads of a block that stands behind `pre`: its size at both ends, the magic and,
turn by turn, its pair. -/
theorem read_block {data pre block rest v2 : Bytes} (hblock : buildSigningBlock v2 = some block)
    (hdata : data = pre ++ (block ++ rest)) :
    ∃ size pairsEnd, 24 ≤ size ∧ block.length = size + 8 ∧ pairsEnd + 24 = pre.length + block.length ∧
      unpackFrom 8 data pre.length = some size ∧ unpackFrom 8 data pairsEnd = some size ∧
      slice data (pairsEnd + 8) (pairsEnd + 24) = sigBlockMagic ∧
      pairTurn data pairsEnd (pre.length + 8, none) = some (Sum.inr (pairsEnd, some v2)) := by
  obtain ⟨pair, hpair, hn, hsize, hblock⟩ := of_buildSigningBlock hblock
  obtain ⟨head, hhead⟩ : ∃ head, head = le 8 (pair.length + 24) := ⟨_, rfl⟩
  have hhlen : head.length = 8 := by rw [hhead, length_le]
  have hmagic : sigBlockMagic.length = 16 := rfl
  have hplen : pair.length = 12 + v2.length := by
    rw [hpair, List.length_append, List.length_append, length_le, length_le]
    omega
  rw [← hhead] at hblock
  have hblen : block.length = pair.length + 24 + 8 := by
    simp only [hblock, List.length_append, hhlen, hmagic]
    omega
  -- the file, cut in front of each field that is read
  have hfirst : data = pre ++ (head ++ (pair ++ (head ++ sigBlockMagic) ++ rest)) := by
    rw [hdata, hblock]
    simp only [List.append_assoc]
  have hsecond : data = pre ++ head ++ pair ++ (head ++ (sigBlockMagic ++ rest)) := by
    rw [hfirst]
    simp only [List.append_assoc]
  have hthird : data = pre ++ head ++ pair ++ head ++ (sigBlockMagic ++ rest) := by
    rw [hfirst]
    simp only [List.append_assoc]
  have hpairs : data = pre ++ head ++
      (le 8 (4 + v2.length) ++ (le 4 v2Id ++ (v2 ++ (head ++ sigBlockMagic ++ rest)))) := by
    rw [hfirst, hpair]
    simp only [List.append_assoc]
  rw [hhead] at hfirst hsecond
  refine ⟨pair.length + 24, pre.length + 8 + pair.length, by omega, hblen, by omega, ?_, ?_, ?_, ?_⟩
  · exact unpackFrom_le hfirst rfl hsize
  · exact unpackFrom_le hsecond (by simp; omega) hsize
  · exact slice_eq hthird (by simp; omega) (by simp; omega)
  · have hpos : (pre ++ head).length = pre.length + 8 := by rw [List.length_append, hhlen]
    have hend : pre.length + 8 + pair.length = (pre ++ head).length + 12 + v2.length := by omega
    rw [← hpos]
    exact pairTurn_eq hn hpairs (by omega)

/-- The block is located where it was put. -/
theorem locateV2_eq {data pre block rest v2 : Bytes} {eocdOff cdSize : ℕ}
    (hblock : buildSigningBlock v2 = some block) (hdata : data = pre ++ (block ++ rest))
    (hfind : findEocd data = some (eocdOff, pre.length + block.length, cdSize))
    (hadj : pre.length + block.length + cdSize = eocdOff) :
    locateV2 data = some ⟨eocdOff, pre.length + block.length, cdSize, pre.length, v2⟩ := by
  obtain ⟨size, pairsEnd, hsize, hlen, hend, hsize1, hsize2, hmagic, hturn⟩ := read_block hblock hdata
  have hstop : pairTurn data pairsEnd (pairsEnd, some v2) = some (Sum.inl (pairsEnd, some v2)) :=
    if_neg (lt_irrefl _)
  have hloop : loop (fun st => pairsEnd - st.1) (pairTurn data pairsEnd) (pre.length + 8, none) =
      some (pairsEnd, some v2) := by
    rw [loop_next (descends_pairTurn _ _) hturn, loop_return (descends_pairTurn _ _) hstop]
  have hcd24 : pre.length + block.length - 24 = pairsEnd := by omega
  have hcd16 : pre.length + block.length - 16 = pairsEnd + 8 := by omega
  have hstart : pre.length + block.length - (size + 8) = pre.length := by omega
  simp only [locateV2, Option.bind_eq_bind, Option.bind_eq_some_iff, Option.guard_eq_some',
    Option.pure_def, Option.some.injEq, exists_const, Prod.exists]
  refine ⟨_, _, _, hfind, hadj, ?_⟩
  rw [hcd24, hcd16, ← hend]
  refine ⟨⟨by omega, hmagic⟩, size, hsize2, by omega, size, ?_⟩
  rw [hend, hstart]
  exact ⟨hsize1, rfl, _, _, hloop, rfl, _, rfl, rfl⟩

theorem of_locateV2 {data : Bytes} {loc : V2Location} (h : locateV2 data = some loc) :
    loc.eocdOff + 22 ≤ data.length ∧ loc.cdOff + loc.cdSize = loc.eocdOff ∧
      loc.blockStart ≤ loc.cdOff := by
  simp only [locateV2, Option.bind_eq_bind, Option.bind_eq_some_iff, Option.guard_eq_some',
    Option.pure_def, Option.some.injEq, exists_const, Prod.exists] at h
  obtain ⟨eocdOff, cdOff, cdSize, hfind, hadj, -, size2, -, -, size1, -, -, p, v, -, -, v2, -, rfl⟩ := h
  obtain ⟨-, hat⟩ := of_findEocd hfind
  obtain ⟨c, hlen, -⟩ := eocdAt_eq_some.mp hat
  exact ⟨by dsimp only; omega, hadj, Nat.sub_le _ _⟩

/-- The sections that are digested are the file without its block. -/
theorem withoutBlock_eq {data : Bytes} {loc : V2Location} {sections : List Bytes}
    (hloc : locateV2 data = some loc) (h : verifiedSections data loc = some sections) :
    withoutBlock data = some sections.flatten := by
  obtain ⟨hlen, hadj, hstart⟩ := of_locateV2 hloc
  simp only [verifiedSections, Option.bind_eq_bind, Option.bind_eq_some_iff, Option.pure_def,
    Option.some.injEq] at h
  obtain ⟨e, he, rfl⟩ := h
  have htake : (data.take loc.blockStart).length = loc.blockStart := by
    rw [List.length_take]
    omega
  have hcd : (slice data loc.cdOff loc.eocdOff).length = loc.cdSize := by
    rw [length_slice data (by omega)]
    omega
  have hpos : loc.blockStart + loc.cdSize + 16 =
      (data.take loc.blockStart ++ slice data loc.cdOff loc.eocdOff).length + 16 := by
    rw [List.length_append, htake, hcd]
  rw [withoutBlock, hloc]
  show packInto 4 (data.take loc.blockStart ++ data.drop loc.cdOff) _ _ = _
  rw [← slice_append_drop data (show loc.cdOff ≤ loc.eocdOff by omega), ← List.append_assoc, hpos,
    packInto_shift, he, Option.map_some]
  simp

/-! ### The signed archive -/

section

variable {Key Cert : Type} {O : Oracle Key Cert}

/-- What the signer puts together, from the parts of the archive. -/
theorem of_signApk {key : Key} {cert : Cert} {data signed : Bytes} {eocdOff cdOff cdSize : ℕ}
    (hfind : findEocd data = some (eocdOff, cdOff, cdSize)) (h : signApk O key cert data = some signed) :
    cdOff + cdSize = eocdOff ∧ ∃ digest v2 block e,
      contentDigest O.sha256 [data.take cdOff, slice data cdOff eocdOff, data.drop eocdOff] =
        some digest ∧
      buildV2Value O digest (O.certificateDer cert) (O.publicKeyDer cert) key = some v2 ∧
      buildSigningBlock v2 = some block ∧
      packInto 4 (data.drop eocdOff) 16 (cdOff + block.length) = some e ∧
      signed = data.take cdOff ++ (block ++ (slice data cdOff eocdOff ++ e)) := by
  simp only [signApk, hfind, Option.bind_eq_bind, Option.bind_some, Option.bind_eq_some_iff,
    Option.guard_eq_some', Option.pure_def, Option.some.injEq, exists_const] at h
  obtain ⟨hadj, digest, hdigest, v2, hv2, block, hblock, e, he, rfl⟩ := h
  exact ⟨hadj, digest, v2, block, e, hdigest, hv2, hblock, he, by simp only [List.append_assoc]⟩

/-- The end record of the signed archive is found, with the offset moved behind the block. -/
theorem findEocd_signed {pre block cd e e' : Bytes} (hsig : eocdSig <+: e) (hlen : e.length = 22)
    {cdOff : ℕ} (hat : eocdAt e 0 = some (cdOff, cd.length))
    (he : packInto 4 e 16 (pre.length + block.length) = some e')
    (hsize : (pre ++ (block ++ (cd ++ e'))).length < 2 ^ 32) :
    findEocd (pre ++ (block ++ (cd ++ e'))) =
      some (pre.length + block.length + cd.length, pre.length + block.length, cd.length) := by
  have hlen' : e'.length = 22 := (length_packInto he).trans hlen
  have hfile : pre ++ (block ++ (cd ++ e')) = pre ++ block ++ cd ++ e' := by
    simp only [List.append_assoc]
  have hpos : pre.length + block.length + cd.length = (pre ++ block ++ cd).length := by
    rw [List.length_append, List.length_append]
  rw [hfile, hpos]
  rw [hfile, List.length_append, ← hpos] at hsize
  refine findEocd_eq ?_ ?_ ?_
  · rw [List.drop_left]
    exact eocdSig_packInto hsig he
  · have hshift := eocdAt_shift (pre ++ block ++ cd) e' 0
    rw [Nat.add_zero] at hshift
    rw [hshift]
    exact eocdAt_packInto hat he (by omega)
  · rw [← hlen', ← List.length_append]

/-- What the verifier digests is the archive before it was signed. -/
theorem verifiedSections_signed {pre block cd e e' v2 : Bytes} {cdOff : ℕ}
    (hcdOff : unpackFrom 4 e 16 = some pre.length) (he : packInto 4 e 16 cdOff = some e') :
    verifiedSections (pre ++ (block ++ (cd ++ e')))
      ⟨pre.length + block.length + cd.length, pre.length + block.length, cd.length, pre.length, v2⟩ =
      some [pre, cd, e] := by
  have hrecord : (pre ++ (block ++ (cd ++ e'))).drop (pre.length + block.length + cd.length) = e' := by
    rw [Nat.add_assoc, List.drop_length_add_append, List.drop_length_add_append, List.drop_left]
  have hcd : slice (pre ++ (block ++ (cd ++ e'))) (pre.length + block.length)
      (pre.length + block.length + cd.length) = cd :=
    slice_eq (List.append_assoc _ _ _).symm List.length_append.symm (by rw [List.length_append])
  simp only [verifiedSections, hrecord, hcd, packInto_restore hcdOff he, List.take_left, Option.bind_eq_bind,
    Option.bind_some, Option.pure_def]

/-- Signing and verifying an archive: the verifier accepts, locates the block at the directory's old
offset, and the archive comes back when the block is taken out. -/
theorem verifyApk_signApk (O : Oracle Key Cert) {key : Key} {cert : Cert} (hmatch : O.Matches key cert)
    {data signed : Bytes} {eocdOff cdOff cdSize : ℕ}
    (hfind : findEocd data = some (eocdOff, cdOff, cdSize)) (hlast : eocdOff + 22 = data.length)
    (hsign : signApk O key cert data = some signed) (hsize : signed.length < 2 ^ 32) :
    ∃ info, verifyApk O signed = some info ∧ info.blockStart = cdOff ∧
      withoutBlock signed = some data := by
  obtain ⟨hsig, hat⟩ := of_findEocd hfind
  obtain ⟨hadj, digest, v2, block, e', hdigest, hv2, hblock, he, rfl⟩ := of_signApk hfind hsign
  obtain ⟨signer, hsigner, hcheck⟩ := checkSigner_buildV2Value hmatch hv2
  -- the archive is the entries, the directory and the record
  have hparts := take_slice_drop data (show cdOff ≤ eocdOff by omega)
  have hpre : (data.take cdOff).length = cdOff := by
    rw [List.length_take]
    omega
  have hcd : (slice data cdOff eocdOff).length = cdSize := by
    rw [length_slice data (by omega)]
    omega
  have hlen : (data.drop eocdOff).length = 22 := by
    rw [List.length_drop]
    omega
  generalize data.take cdOff = pre at *
  generalize slice data cdOff eocdOff = cd at *
  generalize data.drop eocdOff = e at *
  subst hpre hcd hparts
  rw [← hadj, ← List.append_assoc, ← List.length_append] at hat
  have hat0 := eocdAt_shift (pre ++ cd) e 0
  rw [Nat.add_zero, hat] at hat0
  obtain ⟨-, -, -, -, hcdOff, -⟩ := eocdAt_eq_some.mp hat0.symm
  have hlocate := locateV2_eq hblock rfl (findEocd_signed hsig hlen hat0.symm he hsize) rfl
  have hsections : verifiedSections (pre ++ (block ++ (cd ++ e')))
      ⟨pre.length + block.length + cd.length, pre.length + block.length, cd.length, pre.length, v2⟩ =
      some [pre, cd, e] := verifiedSections_signed hcdOff he
  refine ⟨_, (verifyApk_eq_some O).mpr ⟨_, signer, digest, _, _, hlocate, hsigner, hcheck, hsections,
    hdigest, rfl⟩, rfl, ?_⟩
  rw [withoutBlock_eq hlocate hsections]
  simp

end

/-- An end record for two bytes in front of it. -/
def tinyEocd : Bytes := eocdSig ++ List.replicate 8 0 ++ le 4 1 ++ le 4 1 ++ le 2 0

def tinyArchive : Bytes := [0x41, 0x42] ++ tinyEocd

/-- The SHA-256 digests of the sections of `tinyArchive`, with the strings that are hashed. -/
def tinyDigests : List (Bytes × ℕ) :=
  [([0xA5, 1, 0, 0, 0, 0x41],
      0x5f80ee7226b90f2c64d17f4edce56c058e6f26148fec7d36c047556e1a8b6ad8),
    ([0xA5, 1, 0, 0, 0, 0x42],
      0xf6d0dab7fcebc23e49b969a13cf61e17d412c6f511d27cd77dfbe54207b5b451),
    (0xA5 :: (le 4 22 ++ tinyEocd),
      0xd55822f034ed2933245a08acf4295c08c7a926b67709c99b0bdc5d4daf7f07cd)]

def bigEndian (n : ℕ) : Bytes := (le 32 n).reverse

/-- The digests of `tinyArchive`; a certificate and a signature scheme of a few bytes. -/
def tinyOracle : Oracle Unit Unit where
  sha256 b :=
    if b = 0x5A :: (le 4 3 ++ (tinyDigests.map fun e => bigEndian e.2).flatten) then
      bigEndian 0x60d8839622751abbdadb7678d2c00c48ea42ac9b76fe867820bd80f8a6dd869d
    else bigEndian ((tinyDigests.lookup b).getD 0)
  length_sha256 b := by split_ifs <;> rw [bigEndian, List.length_reverse, length_le]
  loadDerCertificate b := if b = lit "cert" then some () else none
  certificateDer _ := lit "cert"
  publicKeyDer _ := lit "key"
  sign _ message := some (message.take 4)
  verify _ signature message := decide (signature = message.take 4)

def tinySigned : Bytes := (signApk tinyOracle () () tinyArchive).getD []

theorem verifyApk_signApk_tiny : ∃ info, verifyApk tinyOracle tinySigned = some info ∧
    info.blockStart = 1 ∧ withoutBlock tinySigned = some tinyArchive := by
  have hmatch : tinyOracle.Matches () () := by
    refine ⟨rfl, fun message signature h => ?_⟩
    cases h
    exact decide_eq_true rfl
  have hfind : findEocd tinyArchive = some (2, 1, 1) := by decide +kernel
  have hsign : signApk tinyOracle () () tinyArchive = some tinySigned := by decide +kernel
  exact verifyApk_signApk tinyOracle hmatch hfind rfl hsign (by decide +kernel)

end ZorinTrust
