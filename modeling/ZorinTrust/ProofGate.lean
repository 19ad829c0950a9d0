import ZorinTrust.OwnerProof

/-!
# The owner-proof gate

What must have happened before `PROOF_RESULT OK` goes out, in terms of the frame as the host sent it,
the polls of the wait loop and the clock.
-/

namespace ZorinTrust

open CText Numeral

/-! ### The frame behind the buffers -/

/-- Hex in a buffer of even size is whole: a cut text has odd length and does not decode. -/
theorem cut_of_hexDecode {cap k : ℕ} {v x : Bytes} (hcap : 0 < cap) (heven : cap % 2 = 0)
    (h : trustHexDecode (cut cap v) k = some x) : cut cap v = v := by
  have hlen := (trustHexDecode_length h).1
  rcases Nat.lt_or_ge v.length cap with hv | hv
  · exact cut_of_lt hv
  · rw [cut, List.length_take] at hlen
    omega

/-- The texts of a request are the fields of its frame; only the last three can be cut. -/
theorem proofScreen_fields {frame : Bytes} {clock : Option Int64} {r : ProofRequest}
    (h0 : 0 ∉ frame) (h : proofScreen frame clock = .ok r) :
    frameField frame "ACTION_HEX" = some r.ah.val ∧ frameField frame "RESOURCE_HEX" = some r.rh.val ∧
      (∃ n, frameField frame "NONCE" = some n ∧ r.nonce.val = cut 128 n) ∧
      (∃ i, frameField frame "ISSUED" = some i ∧ r.issueds.val = cut 64 i) ∧
      ∃ x, frameField frame "EXPIRES" = some x ∧ r.expiress.val = cut 64 x := by
  obtain ⟨htexts, hdec, -⟩ := proofScreen_eq_ok h
  obtain ⟨hah, hrh, hnonce, hissued, hexpires, -⟩ := proofTexts_eq_some htexts
  obtain ⟨-, hab, hrb, -⟩ := proofDecode_eq_some hdec
  obtain ⟨a, ha, -, hacut⟩ := fieldBuf_eq_some h0 hah
  obtain ⟨b, hb, -, hbcut⟩ := fieldBuf_eq_some h0 hrh
  obtain ⟨n, hn, -, hncut⟩ := fieldBuf_eq_some h0 hnonce
  obtain ⟨i, hi, -, hicut⟩ := fieldBuf_eq_some h0 hissued
  obtain ⟨x, hx, -, hxcut⟩ := fieldBuf_eq_some h0 hexpires
  rw [hacut] at hab
  rw [hbcut] at hrb
  refine ⟨?_, ?_, ⟨n, hn, hncut⟩, ⟨i, hi, hicut⟩, x, hx, hxcut⟩
  · rw [ha, hacut, cut_of_hexDecode (by norm_num) (by norm_num) hab]
  · rw [hb, hbcut, cut_of_hexDecode (by norm_num) (by norm_num) hrb]

theorem proofScreen_explicit {frame : Bytes} {clock : Option Int64} {r : ProofRequest}
    (h0 : 0 ∉ frame) (h : proofScreen frame clock = .ok r) :
    r.explicitMode = true ↔ frameField frame "MODE" = some (lit "EXPLICIT") := by
  obtain ⟨htexts, -⟩ := proofScreen_eq_ok h
  obtain ⟨-, -, -, -, -, -, hmode⟩ := proofTexts_eq_some htexts
  rw [ProofTexts.explicitMode, miniStreq_iff, hmode]
  cases hm : fieldBuf frame "MODE" 32 with
  | none =>
    have hnone : frameField frame "MODE" = none := by
      simpa [fieldBuf, trustFrameField_eq_cut] using hm
    rw [hnone]
    simp only [Option.getD_none, reduceCtorEq, iff_false]
    decide
  | some c =>
    obtain ⟨m, hf, -, hcut⟩ := fieldBuf_eq_some h0 hm
    rw [hf, Option.getD_some, hcut, Option.some.injEq]
    constructor
    · intro hc
      have hlen := congrArg List.length hc
      have h8 : (lit "EXPLICIT").length = 8 := rfl
      rw [cut, List.length_take, h8] at hlen
      rw [← hc, cut_of_lt (by omega)]
    · rintro rfl
      rfl

theorem proofScreen_requestId {frame : Bytes} {clock : Option Int64} {r : ProofRequest}
    (h0 : 0 ∉ frame) (h : proofScreen frame clock = .ok r) (hx : r.explicitMode = true) :
    ∃ rid, frameField frame "REQUEST_ID" = some rid ∧ rid ≠ [] ∧ r.requestid.val = cut 96 rid := by
  obtain ⟨htexts, -, -, -, hid⟩ := proofScreen_eq_ok h
  obtain ⟨-, -, -, -, -, hreq, -⟩ := proofTexts_eq_some htexts
  have hne := hid hx
  cases hc : fieldBuf frame "REQUEST_ID" 96 with
  | none => rw [hreq, hc] at hne; exact absurd rfl hne
  | some c =>
    obtain ⟨rid, hf, -, hcut⟩ := fieldBuf_eq_some h0 hc
    rw [hreq, hc, Option.getD_some, hcut] at hne
    refine ⟨rid, hf, ?_, by rw [hreq, hc, Option.getD_some, hcut]⟩
    rintro rfl
    exact hne rfl

theorem exists_prefix_of_allowed {a : Bytes} (h : trustActionAllowed (cstr a) = true) :
    ∃ p ∈ actionPrefixes, lit p <+: a := by
  unfold trustActionAllowed at h
  split_ifs at h
  obtain ⟨p, hp, hpre⟩ := List.any_eq_true.mp h
  exact ⟨p, hp, (trustPrefix_iff.mp hpre).trans (cstr_isPrefix a)⟩

/-- The message buffer holds every transcript. -/
theorem proofMessage_eq (g : Globals) (r : ProofRequest) :
    proofMessage g r = ownerTranscript g.gTrustHostFp.val g.gTrustPhoneFp.val r.ah.val r.rh.val
      r.nonce.val r.issueds.val r.expiress.val := by
  refine cut_of_lt ?_
  have h1 := g.gTrustHostFp.fits
  have h2 := g.gTrustPhoneFp.fits
  have h3 := r.ah.fits
  have h4 := r.rh.fits
  have h5 := r.nonce.fits
  have h6 := r.issueds.fits
  have h7 := r.expiress.fits
  have h8 : (lit "ZTRUST/2").length = 8 := rfl
  have h9 : (lit "OWNER_PROOF").length = 11 := rfl
  simp only [ownerTranscript, List.intercalate_cons_cons, List.intercalate_singleton,
    List.length_append, List.length_singleton, h8, h9]
  omega

/-! ### The gate -/

/-- **The owner-proof gate.** -/
theorem ownerProof_gate (frame : CStr 4096) (e : ProofEnv) (s : Service)
    (hok : SendsOk s (trustHandleProofRequest frame e s).2) :
    ∃ action resource nonce issued expires decoded : Bytes, ∃ now : Int64,
      (frameField frame.val "ACTION_HEX" = some action ∧
        frameField frame.val "RESOURCE_HEX" = some resource ∧
        frameField frame.val "NONCE" = some nonce ∧ frameField frame.val "ISSUED" = some issued ∧
        frameField frame.val "EXPIRES" = some expires) ∧
      (trustHexDecode action 255 = some decoded ∧ decoded ≠ [] ∧ ∃ p ∈ actionPrefixes, lit p <+: decoded) ∧
      (e.clock = some now ∧
        let i := trustParseI64 (cut 64 issued)
        let x := trustParseI64 (cut 64 expires)
        i < x ∧ (x - i < 2 ^ 63 → x - i ≤ 120) ∧ |i - now.toInt| ≤ 30) ∧
      (frameField frame.val "MODE" = some (lit "EXPLICIT") →
        ∃ rid, frameField frame.val "REQUEST_ID" = some rid ∧ rid ≠ [] ∧
          AuthorizedBy e.polls (cut 96 rid)) ∧
      (frameField frame.val "MODE" ≠ some (lit "EXPLICIT") → e.locked = false) ∧
      ∀ m, .signed m ∈ since s (trustHandleProofRequest frame e s).2 ↔
        m = ownerTranscript s.g.gTrustHostFp.val s.g.gTrustPhoneFp.val action resource (cut 128 nonce)
          (cut 64 issued) (cut 64 expires) := by
  obtain ⟨r, s₁, hscreen, hwait, hplain, hrun⟩ := trustHandleProofRequest_ok hok
  obtain ⟨-, hdec, hallowed, ⟨now, hclock, httl⟩, hid⟩ := proofScreen_eq_ok hscreen
  obtain ⟨-, hab, -, hab0⟩ := proofDecode_eq_some hdec
  obtain ⟨ha, hrs, ⟨n, hn, hncut⟩, ⟨i, hi, hicut⟩, x, hx, hxcut⟩ :=
    proofScreen_fields frame.nulFree hscreen
  have hexpl := proofScreen_explicit frame.nulFree hscreen
  obtain ⟨hsigned, -⟩ := trustHandleProofRequest_events hwait hplain (congrArg Prod.snd hrun)
  obtain ⟨hlt, hnear, hspan⟩ := ttl_window (trustParseI64_mem _) (trustParseI64_mem _)
    ⟨now.le_toInt, now.toInt_lt⟩ httl
  rw [hicut, hxcut] at hlt hspan
  rw [hicut] at hnear
  refine ⟨r.ah.val, r.rh.val, n, i, x, r.ab, now, ⟨ha, hrs, hn, hi, hx⟩,
    ⟨hab, hab0, exists_prefix_of_allowed hallowed⟩, ⟨hclock, hlt, hspan, hnear⟩, ?_, ?_, ?_⟩
  · intro hmode
    have hxm := hexpl.mpr hmode
    obtain ⟨rid, hrid, hrid0, hcut⟩ := proofScreen_requestId frame.nulFree hscreen hxm
    have hw : Waiting r.requestid.val (proofPend r s).g :=
      ⟨rfl, congrArg CStr.val (CStr.put_val_self r.requestid)⟩
    obtain ⟨j, hj, happ, hlock, hno⟩ := proofWait_approved (hid hxm) hw (hwait hxm)
    rw [hcut] at happ hno
    refine ⟨rid, hrid, hrid0, ?_⟩
    -- the decision left by an earlier request was reset, so the approval came in this wait
    rcases happ with hpos | ⟨k, hk, hp⟩
    · exact absurd hpos (by simp [proofPend])
    · exact ⟨k, j, hk, hj, hp, hlock, hno⟩
  · intro hmode
    exact (hplain (by simpa using fun h => hmode (hexpl.mp h))).1
  · intro m
    rw [hsigned m, proofMessage_eq, hncut, hicut, hxcut]

/-- An EXPLICIT request `r1` for an action and a resource given in hex. -/
def explicitFrame (ah rh : Bytes) : CStr 4096 :=
  .put 4096 (lit "PROOF_REQUEST\nACTION_HEX " ++ ah ++ lit "\nRESOURCE_HEX " ++ rh ++
    lit "\nNONCE n\nISSUED 100\nEXPIRES 110\nREQUEST_ID r1\nMODE EXPLICIT\nEND\n")

/-- The user approves `r1` while the phone is locked, and unlocks it at the next turn. -/
def explicitEnv : ProofEnv where
  clock := some 100
  polls := [{ locked := true },
    { command := some (commandFrame "AUTH_APPROVE" (lit "r1")), locked := true }, { locked := false }]
  keystore := fun _ => some [1, 2, 3]

theorem ownerProof_gate_explicit :
    SendsOk {} (trustHandleProofRequest (explicitFrame (lit "6f776e65722e78") (lit "72")) explicitEnv {}).2 ∧
      AuthorizedBy explicitEnv.polls (lit "r1") := by
  have hok : SendsOk {} (trustHandleProofRequest (explicitFrame (lit "6f776e65722e78") (lit "72"))
      explicitEnv {}).2 := ⟨okWire [1, 2, 3], by decide +kernel, by decide +kernel⟩
  refine ⟨hok, ?_⟩
  obtain ⟨-, -, -, -, -, -, -, -, -, -, hexplicit, -, -⟩ := ownerProof_gate _ _ _ hok
  obtain ⟨rid, hrid, -, hauth⟩ := hexplicit (by decide +kernel)
  have hfield : frameField (explicitFrame (lit "6f776e65722e78") (lit "72")).val "REQUEST_ID" =
      some (lit "r1") := by decide +kernel
  rw [hfield, Option.some.injEq] at hrid
  rw [← hrid] at hauth
  exact hauth

/-- An unlocked phone, for a request without EXPLICIT mode. -/
def plainEnv : ProofEnv where
  clock := some 100
  keystore := fun _ => some [1, 2, 3]

def plainFrame (nonce issued expires : Bytes) : CStr 4096 :=
  .put 4096 (lit "PROOF_REQUEST\nACTION_HEX 6f776e65722e78\nRESOURCE_HEX 72\nNONCE " ++ nonce ++
    lit "\nISSUED " ++ issued ++ lit "\nEXPIRES " ++ expires ++ lit "\nEND\n")

/-- **A long NONCE is signed cut**, so the signed bytes are not always the texts of the frame. -/
theorem ownerProof_nonce_cut :
    ¬ ∀ (frame : CStr 4096) (e : ProofEnv) (s : Service),
      SendsOk s (trustHandleProofRequest frame e s).2 →
        ∀ action resource nonce issued expires : Bytes,
          frameField frame.val "ACTION_HEX" = some action →
          frameField frame.val "RESOURCE_HEX" = some resource →
          frameField frame.val "NONCE" = some nonce →
          frameField frame.val "ISSUED" = some issued →
          frameField frame.val "EXPIRES" = some expires →
          ∀ m, .signed m ∈ since s (trustHandleProofRequest frame e s).2 →
            m = ownerTranscript s.g.gTrustHostFp.val s.g.gTrustPhoneFp.val action resource nonce
              issued expires := by
  intro h
  have hlong := h (plainFrame (List.replicate 128 97) (lit "100") (lit "110")) plainEnv {}
    ⟨okWire [1, 2, 3], by decide +kernel, by decide +kernel⟩ (lit "6f776e65722e78") (lit "72")
    (List.replicate 128 97) (lit "100") (lit "110") (by decide +kernel) (by decide +kernel)
    (by decide +kernel) (by decide +kernel) (by decide +kernel)
    (ownerTranscript (lit "<NONE>") (lit "INITIALIZING") (lit "6f776e65722e78") (lit "72")
      (List.replicate 127 97) (lit "100") (lit "110")) (by decide +kernel)
  revert hlong
  decide +kernel

end ZorinTrust
