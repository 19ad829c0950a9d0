import ZorinTrust.UiBridge

/-!
# Bounded owner proofs

`trust_handle_proof_request` in the order the source runs it: the checks on the frame and the clock
(`proofScreen`), for an EXPLICIT request the publication and the wait for a decision (`proofPend`,
`proofWait`), then the signature over the transcript (`proofSign`).  What the world does in between
is an input: the clock, the polls of the wait loop, the keystore, the socket.
-/

namespace ZorinTrust

open CText Numeral

/-! ### Refusals -/

/-- The exits that answer `PROOF_RESULT DENY`. -/
inductive ProofDeny
  | malformed
  | encoding
  | actionNotAllowed
  | clock
  | ttl
  | missingRequestId
  | userDenied
  | approvalTimeout
  | phoneLocked
  | signing
  deriving DecidableEq

def ProofDeny.rc : ProofDeny → ℤ
  | .malformed => -1
  | .encoding => -2
  | .actionNotAllowed => -3
  | .clock => -4
  | .ttl => -5
  | .missingRequestId => -6
  | .userDenied => -7
  | .approvalTimeout => -8
  | .phoneLocked => -9
  | .signing => -10

def ProofDeny.reason : ProofDeny → String
  | .malformed => "malformed"
  | .encoding => "encoding"
  | .actionNotAllowed => "action-not-allowed"
  | .clock => "clock"
  | .ttl => "ttl"
  | .missingRequestId => "missing-request-id"
  | .userDenied => "user-denied"
  | .approvalTimeout => "approval-timeout"
  | .phoneLocked => "phone-locked"
  | .signing => "signing"

def ProofDeny.wire (d : ProofDeny) : Bytes :=
  lit "PROOF_RESULT DENY\nREASON " ++ lit d.reason ++ lit "\nEND\n"

def refuse (d : ProofDeny) (s : Service) : ℤ × Service := (d.rc, s.emit (.sent d.wire))

/-! ### The checks on the frame -/

def actionPrefixes : List String := ["owner.", "credential.", "authority.", "ops.", "portable."]

/-- `trust_action_allowed`. -/
def trustActionAllowed (a : Bytes) : Bool :=
  if a = [] then false else actionPrefixes.any fun p => trustPrefix a (lit p)

/-- The condition that refuses a request with reason `ttl`, in 64-bit arithmetic. -/
def ttlRefuses (issued expires now : ℤ) : Prop :=
  expires ≤ issued ∨ wrap 64 (expires - issued) > 120 ∨ issued < wrap 64 (now - 30) ∨
    issued > wrap 64 (now + 30)

instance (issued expires now : ℤ) : Decidable (ttlRefuses issued expires now) :=
  inferInstanceAs (Decidable (_ ∨ _ ∨ _ ∨ _))

/-- A field copied into its buffer. -/
def fieldBuf (frame : Bytes) (key : String) (cap : ℕ) [NeZero cap] : Option (CStr cap) :=
  (trustFrameField frame key cap).map (.put cap)

/-- The texts of a request: the required fields, then the optional ones (empty when absent). -/
structure ProofTexts where
  ah : CStr 512
  rh : CStr 1100
  nonce : CStr 128
  issueds : CStr 64
  expiress : CStr 64
  ph : CStr 800
  requestid : CStr 96
  mode : CStr 32
  deriving DecidableEq

def proofTexts (frame : Bytes) : Option ProofTexts := do
  let ah ← fieldBuf frame "ACTION_HEX" 512
  let rh ← fieldBuf frame "RESOURCE_HEX" 1100
  let nonce ← fieldBuf frame "NONCE" 128
  let issueds ← fieldBuf frame "ISSUED" 64
  let expiress ← fieldBuf frame "EXPIRES" 64
  return {
    ah, rh, nonce, issueds, expiress
    ph := (fieldBuf frame "PROMPT_HEX" 800).getD (.put 800 [])
    requestid := (fieldBuf frame "REQUEST_ID" 96).getD (.put 96 [])
    mode := (fieldBuf frame "MODE" 32).getD (.put 32 []) }

def ProofTexts.explicitMode (t : ProofTexts) : Bool := miniStreq t.mode.val (lit "EXPLICIT")

/-- A request past the checks: its texts and the decoded action, resource and prompt. -/
structure ProofRequest extends ProofTexts where
  ab : Bytes
  rb : Bytes
  pb : Bytes
  deriving DecidableEq

/-- The prompt: absent, or decoded like the other two. -/
def promptDecode (ph : Bytes) : Option Bytes := if ph = [] then some [] else trustHexDecode ph 383

def proofDecode (t : ProofTexts) : Option ProofRequest := do
  let ab ← trustHexDecode t.ah.val 255
  let rb ← trustHexDecode t.rh.val 511
  let pb ← promptDecode t.ph.val
  if ab = [] then none else some { t with ab, rb, pb }

/-- The checks of `trust_handle_proof_request`, in order, before it touches any global. -/
def proofScreen (frame : Bytes) (clock : Option Int64) : Except ProofDeny ProofRequest :=
  match proofTexts frame with
  | none => .error .malformed
  | some t =>
    match proofDecode t with
    | none => .error .encoding
    | some r =>
      if trustActionAllowed (cstr r.ab) = false then .error .actionNotAllowed
      else
        match clock with
        | none => .error .clock
        | some now =>
          if ttlRefuses (trustParseI64 t.issueds.val) (trustParseI64 t.expiress.val) now.toInt then
            .error .ttl
          else if t.explicitMode = true ∧ t.requestid.val = [] then .error .missingRequestId
          else .ok r

/-! ### The decision -/

/-- `trust_clear_authority_request`. -/
def trustClearAuthorityRequest (s : Service) : Service :=
  trustUiPublishState
    { s with g := { s.g with
        gAuthorityPending := false
        gAuthorityDecision := 0
        gAuthorityRequestId := .put 96 []
        gAuthorityAction := .put 256 []
        gAuthorityResource := .put 512 []
        gAuthorityPrompt := .put 384 [] } }

/-- An EXPLICIT request becomes the pending one and is published. -/
def proofPend (r : ProofRequest) (s : Service) : Service :=
  trustUiPublishState
    { s with g := { s.g with
        gAuthorityDecision := 0
        gAuthorityPending := true
        gAuthorityRequestId := .put 96 r.requestid.val
        gAuthorityAction := .put 256 r.ab
        gAuthorityResource := .put 512 r.rb
        gAuthorityPrompt := .put 384 (if r.pb ≠ [] then r.pb else r.ab) } }

/-- What one turn of the wait loop finds: the command file and the device lock. -/
structure Poll where
  command : Option Bytes := none
  locked : Bool := false
  deriving DecidableEq

/-- The variable `decided`. -/
inductive Decided
  | undecided
  | approved
  | denied
  deriving DecidableEq

/-- One turn of the wait loop. -/
def waitTurn (p : Poll) (s : Service) : Decided × Service :=
  let s := trustUiConsumeCommand p.command s
  if s.g.gAuthorityDecision < 0 then (.denied, s)
  else if 0 < s.g.gAuthorityDecision ∧ p.locked = false then (.approved, s)
  else (.undecided, s)

/-- The wait loop; the polls end early when `g_running` is cleared. -/
def proofWait : ℕ → List Poll → Service → Decided × Service
  | 0, _, s => (.undecided, s)
  | _, [], s => (.undecided, s)
  | n + 1, p :: polls, s =>
    match waitTurn p s with
    | (.undecided, s) => proofWait n polls s
    | done => done

/-! ### The signature -/

/-- The separator of the signed texts. -/
abbrev bar : UInt8 := 124

/-- The text of `snprintf(msg, …, "ZTRUST/2|OWNER_PROOF|%s|%s|%s|%s|%s|%s|%s", …)`. -/
def ownerTranscript (hostFp phoneFp ah rh nonce issueds expiress : Bytes) : Bytes :=
  [bar].intercalate [lit "ZTRUST/2", lit "OWNER_PROOF", hostFp, phoneFp, ah, rh, nonce, issueds, expiress]

def proofMessage (g : Globals) (r : ProofRequest) : Bytes :=
  cut 2600 (ownerTranscript g.gTrustHostFp.val g.gTrustPhoneFp.val r.ah.val r.rh.val r.nonce.val
    r.issueds.val r.expiress.val)

/-- `trust_sign` into a buffer of `cap` bytes, over what the keystore answers; `none` for `slen <= 0`. -/
def trustSign (keystore : Bytes → Option Bytes) (cap : ℕ) (msg : Bytes) : Option Bytes :=
  (keystore msg).filter fun sig => sig ≠ [] ∧ sig.length ≤ cap

theorem trustSign_eq_some {keystore : Bytes → Option Bytes} {cap : ℕ} {msg sig : Bytes}
    (h : trustSign keystore cap msg = some sig) : sig ≠ [] ∧ sig.length ≤ cap := by
  obtain ⟨-, hsig⟩ := Option.filter_eq_some_iff.mp h
  simpa using hsig

def okHead : Bytes := lit "PROOF_RESULT OK"

def okWire (sig : Bytes) : Bytes :=
  cut 800 (okHead ++ lit "\nSIGNATURE " ++ (trustHexEncode sig 512).getD [] ++ lit "\nEND\n")

/-- What happens around one request: `clock_gettime`, the polls of the wait loop, the device lock a
request without EXPLICIT mode meets, the keystore, and whether the answer can be sent. -/
structure ProofEnv where
  clock : Option Int64
  polls : List Poll := []
  locked : Bool := false
  keystore : Bytes → Option Bytes
  sendOk : Bool := true

/-- From the decision to the end. -/
def proofSign (r : ProofRequest) (e : ProofEnv) (s : Service) : ℤ × Service :=
  let clear (s : Service) : Service := if r.explicitMode then trustClearAuthorityRequest s else s
  let msg := proofMessage s.g r
  let s := s.emit (.signed msg)
  match trustSign e.keystore 192 msg with
  | none => refuse .signing (clear s)
  | some sig =>
    let s := s.emit (.sent (okWire sig))
    if e.sendOk = false then (-11, clear s)
    else
      let s := { s with g := { s.g with
        gTrustProofCount := s.g.gTrustProofCount + 1
        gTrustLastProof := .put 128 (cstr r.ab ++ lit " -> " ++ (cstr r.rb).take 72) } }
      (0, if r.explicitMode then trustClearAuthorityRequest s else trustUiPublishState s)

/-- `trust_handle_proof_request`. -/
def trustHandleProofRequest (frame : CStr 4096) (e : ProofEnv) (s : Service) : ℤ × Service :=
  match proofScreen frame.val e.clock with
  | .error d => refuse d s
  | .ok r =>
    if r.explicitMode then
      match proofWait 500 e.polls (proofPend r s) with
      | (.denied, s) => refuse .userDenied (trustClearAuthorityRequest s)
      | (.undecided, s) => refuse .approvalTimeout (trustClearAuthorityRequest s)
      | (.approved, s) => proofSign r e s
    else if e.locked then refuse .phoneLocked s
    else proofSign r e s

/-! ### What the checks guarantee -/

theorem fieldBuf_eq_some {frame : Bytes} {key : String} {cap : ℕ} [NeZero cap] {c : CStr cap}
    (h0 : 0 ∉ frame) (h : fieldBuf frame key cap = some c) :
    ∃ v, frameField frame key = some v ∧ trustFrameField frame key cap = some c.val ∧
      c.val = cut cap v := by
  obtain ⟨w, hw, rfl⟩ := Option.map_eq_some_iff.mp h
  have hval : (CStr.put cap w).val = w :=
    CStr.put_val_of_fits (trustFrameField_nulFree h0 hw)
      (trustFrameField_length (Nat.pos_of_ne_zero (NeZero.ne cap)) hw)
  have hcut := hw
  rw [trustFrameField_eq_cut] at hcut
  obtain ⟨v, hv, rfl⟩ := Option.map_eq_some_iff.mp hcut
  exact ⟨v, hv, hw.trans (congrArg some hval.symm), hval⟩

theorem proofTexts_eq_some {frame : Bytes} {t : ProofTexts} (h : proofTexts frame = some t) :
    fieldBuf frame "ACTION_HEX" 512 = some t.ah ∧ fieldBuf frame "RESOURCE_HEX" 1100 = some t.rh ∧
      fieldBuf frame "NONCE" 128 = some t.nonce ∧ fieldBuf frame "ISSUED" 64 = some t.issueds ∧
      fieldBuf frame "EXPIRES" 64 = some t.expiress ∧
      t.requestid = (fieldBuf frame "REQUEST_ID" 96).getD (.put 96 []) ∧
      t.mode = (fieldBuf frame "MODE" 32).getD (.put 32 []) := by
  simp only [proofTexts, Option.bind_eq_bind, Option.bind_eq_some_iff, Option.pure_def,
    Option.some.injEq] at h
  obtain ⟨ah, h1, rh, h2, nonce, h3, issueds, h4, expiress, h5, rfl⟩ := h
  exact ⟨h1, h2, h3, h4, h5, rfl, rfl⟩

theorem proofDecode_eq_some {t : ProofTexts} {r : ProofRequest} (h : proofDecode t = some r) :
    r.toProofTexts = t ∧ trustHexDecode t.ah.val 255 = some r.ab ∧
      trustHexDecode t.rh.val 511 = some r.rb ∧ r.ab ≠ [] := by
  simp only [proofDecode, Option.bind_eq_bind, Option.bind_eq_some_iff] at h
  obtain ⟨ab, h1, rb, h2, pb, -, h3⟩ := h
  split_ifs at h3 with h0
  cases h3
  exact ⟨rfl, h1, h2, h0⟩

/-- **What `proofScreen` lets through**: the frame has the texts, the action and resource decode, the
action is allowed, the clock was read and does not refuse the times. -/
theorem proofScreen_eq_ok {frame : Bytes} {clock : Option Int64} {r : ProofRequest}
    (h : proofScreen frame clock = .ok r) :
    proofTexts frame = some r.toProofTexts ∧ proofDecode r.toProofTexts = some r ∧
      trustActionAllowed (cstr r.ab) = true ∧
      (∃ now, clock = some now ∧ ¬ ttlRefuses (trustParseI64 r.issueds.val)
        (trustParseI64 r.expiress.val) now.toInt) ∧
      (r.explicitMode = true → r.requestid.val ≠ []) := by
  unfold proofScreen at h
  cases ht : proofTexts frame with
  | none => rw [ht] at h; cases h
  | some t =>
    simp only [ht] at h
    cases hd : proofDecode t with
    | none => rw [hd] at h; cases h
    | some r' =>
      simp only [hd] at h
      by_cases ha : trustActionAllowed (cstr r'.ab) = false
      · rw [if_pos ha] at h; cases h
      rw [if_neg ha] at h
      cases clock with
      | none => cases h
      | some now =>
        dsimp only at h
        split_ifs at h with htl hid
        cases h
        obtain ⟨rfl, -⟩ := proofDecode_eq_some hd
        exact ⟨rfl, hd, by simpa using ha, ⟨now, rfl, htl⟩, fun he hn => hid ⟨he, hn⟩⟩

theorem ttl_window {issued expires now : ℤ} (hi : -2 ^ 63 ≤ issued ∧ issued < 2 ^ 63)
    (he : -2 ^ 63 ≤ expires ∧ expires < 2 ^ 63) (hn : -2 ^ 63 ≤ now ∧ now < 2 ^ 63)
    (h : ¬ ttlRefuses issued expires now) :
    issued < expires ∧ |issued - now| ≤ 30 ∧ (expires - issued < 2 ^ 63 → expires - issued ≤ 120) := by
  simp only [ttlRefuses, not_or, not_le, not_lt, gt_iff_lt] at h
  obtain ⟨h1, h2, h3, h4⟩ := h
  obtain ⟨j, hj⟩ := exists_wrap_eq (w := 64) (now - 30)
  obtain ⟨k, hk⟩ := exists_wrap_eq (w := 64) (now + 30)
  have hj' := wrap_mem (w := 64) (by norm_num) (now - 30)
  have hk' := wrap_mem (w := 64) (by norm_num) (now + 30)
  rw [hj] at h3 hj'
  rw [hk] at h4 hk'
  norm_num at hi he hn h1 h2 h3 h4 hj' hk' ⊢
  refine ⟨h1, ?_, fun hd => ?_⟩
  · rw [abs_le]; omega
  · have := (wrap_eq_self_iff (w := 64) (by norm_num) (x := expires - issued)).mpr (by norm_num; omega)
    omega

/-! ### The wait loop -/

/-- An AUTH_APPROVE for `rid` was consumed at some turn, the device was seen unlocked at that turn or a
later one, and no AUTH_DENY for `rid` was consumed up to there. -/
def AuthorizedBy (polls : List Poll) (rid : Bytes) : Prop :=
  ∃ i j, i ≤ j ∧ j < 500 ∧ (∃ p, polls[i]? = some p ∧ Carries p.command "AUTH_APPROVE" rid) ∧
    (∃ p, polls[j]? = some p ∧ p.locked = false) ∧
    ∀ k ≤ j, ∀ p, polls[k]? = some p → ¬ Carries p.command "AUTH_DENY" rid

/-- The globals while a request with this id waits. -/
def Waiting (rid : Bytes) (g : Globals) : Prop :=
  g.gAuthorityPending = true ∧ g.gAuthorityRequestId.val = rid

theorem SameButRequests.waiting {rid : Bytes} {g g' : Globals} (h : SameButRequests g g')
    (hw : Waiting rid g) : Waiting rid g' := by
  rw [h]; exact hw

/-- A consumption only turns request flags and records what it read. -/
theorem trustUiConsumeCommand_spec (file : Option Bytes) (s : Service) :
    SameButRequests s.g (trustUiConsumeCommand file s).g ∧
      (trustUiConsumeCommand file s).prefs = s.prefs ∧
      ∃ new, (trustUiConsumeCommand file s).log = new ++ s.log ∧
        ∀ e ∈ new, ∃ frame g, e = .consumed frame g := by
  rcases trustUiConsumeCommand_cases file s with h | ⟨frame, -, h⟩
  · rw [h]
    exact ⟨rfl, rfl, [], rfl, by simp⟩
  · rw [h]
    exact ⟨sameButRequests_commandEffect frame s.g, rfl, [.consumed frame s.g], rfl, by simp⟩

/-- While `rid` waits, a positive decision is old or comes from an AUTH_APPROVE for `rid`, and an
AUTH_DENY for `rid` makes the decision negative. -/
theorem decision_consume {rid : Bytes} {f : Option Bytes} {s : Service} (hw : Waiting rid s.g)
    (h0 : rid ≠ []) :
    (0 < (trustUiConsumeCommand f s).g.gAuthorityDecision →
      0 < s.g.gAuthorityDecision ∨ Carries f "AUTH_APPROVE" rid) ∧
    (Carries f "AUTH_DENY" rid → (trustUiConsumeCommand f s).g.gAuthorityDecision < 0) := by
  constructor
  · intro h
    rcases trustUiConsumeCommand_cases f s with hc | ⟨frame, hf, hc⟩
    · rw [hc] at h; exact Or.inl h
    · rw [hc] at h
      dsimp only at h
      have hcase := commandEffect_cases frame s.g
      generalize commandEffect frame s.g = g' at h hcase
      cases hcase with
      | ignored => exact Or.inl h
      | reconnect _ => exact Or.inl h
      | forget _ => exact Or.inl h
      | approve _ _ _ _ => exact Or.inl h
      | authApprove hcmd _ _ hb => exact Or.inr ⟨frame, hf, hcmd, hb.trans hw.2⟩
      | authDeny _ _ _ _ => simp at h
  · rintro ⟨frame, hf, hcmd, hb⟩
    have hdec : decides frame s.g = true := decides_iff.mpr ⟨hw.1, hw.2 ▸ h0, hb.trans hw.2.symm⟩
    have heff : commandEffect frame s.g = { s.g with gAuthorityDecision := -1 } := by
      simp only [commandEffect, hcmd, hdec]
      rfl
    simp [trustUiConsumeCommand, hf, heff]

theorem decision_authApprove {rid : Bytes} {f : Option Bytes} {s : Service} (hw : Waiting rid s.g)
    (h0 : rid ≠ []) (hc : Carries f "AUTH_APPROVE" rid) :
    (trustUiConsumeCommand f s).g.gAuthorityDecision = 1 := by
  obtain ⟨frame, hf, hcmd, hb⟩ := hc
  have hdec : decides frame s.g = true := decides_iff.mpr ⟨hw.1, hw.2 ▸ h0, hb.trans hw.2.symm⟩
  have heff : commandEffect frame s.g = { s.g with gAuthorityDecision := 1 } := by
    simp only [commandEffect, hcmd, hdec]
    rfl
  simp [trustUiConsumeCommand, hf, heff]

theorem waitTurn_service (p : Poll) (s : Service) :
    (waitTurn p s).2 = trustUiConsumeCommand p.command s := by
  unfold waitTurn
  dsimp only
  split_ifs <;> rfl

/-- The wait loop only turns request flags and records the commands it read. -/
theorem proofWait_spec : ∀ (n : ℕ) (polls : List Poll) (s : Service),
    SameButRequests s.g (proofWait n polls s).2.g ∧ (proofWait n polls s).2.prefs = s.prefs ∧
      ∃ new, (proofWait n polls s).2.log = new ++ s.log ∧ ∀ e ∈ new, ∃ frame g, e = .consumed frame g
  | 0, _, s => ⟨rfl, rfl, [], rfl, by simp⟩
  | _ + 1, [], s => ⟨rfl, rfl, [], rfl, by simp⟩
  | n + 1, p :: polls, s => by
    obtain ⟨h1, h2, new, h3, h4⟩ := trustUiConsumeCommand_spec p.command s
    rw [← waitTurn_service] at h1 h2 h3
    rw [proofWait]
    split
    · rename_i s' hturn
      rw [hturn] at h1 h2 h3
      obtain ⟨i1, i2, new', i3, i4⟩ := proofWait_spec n polls s'
      refine ⟨h1.trans i1, i2.trans h2, new' ++ new, ?_, ?_⟩
      · rw [i3, h3, List.append_assoc]
      · intro e he
        exact (List.mem_append.mp he).elim (i4 e) (h4 e)
    · exact ⟨h1, h2, new, h3, h4⟩

/-- **The wait loop approves for a reason**: the decision was made before, or an AUTH_APPROVE for `rid`
came at a turn `i`; at a turn `j` no earlier the device was unlocked, and no AUTH_DENY came by then. -/
theorem proofWait_approved {rid : Bytes} (h0 : rid ≠ []) : ∀ {n : ℕ} {polls : List Poll} {s s' : Service},
    Waiting rid s.g → proofWait n polls s = (.approved, s') →
      ∃ j, j < n ∧ (0 < s.g.gAuthorityDecision ∨
          ∃ i ≤ j, ∃ p, polls[i]? = some p ∧ Carries p.command "AUTH_APPROVE" rid) ∧
        (∃ p, polls[j]? = some p ∧ p.locked = false) ∧
        ∀ k ≤ j, ∀ p, polls[k]? = some p → ¬ Carries p.command "AUTH_DENY" rid
  | 0, _, _, _, _, h => by cases h
  | _ + 1, [], _, _, _, h => by cases h
  | n + 1, p :: polls, s, s', hw, h => by
    have hdec := decision_consume (f := p.command) hw h0
    have hw' := (trustUiConsumeCommand_spec p.command s).1.waiting hw
    rw [proofWait] at h
    unfold waitTurn at h
    dsimp only at h
    generalize trustUiConsumeCommand p.command s = s₁ at h hdec hw'
    by_cases hneg : s₁.g.gAuthorityDecision < 0
    · rw [if_pos hneg] at h; cases h
    have hnodeny : ¬ Carries p.command "AUTH_DENY" rid := fun hc => hneg (hdec.2 hc)
    rw [if_neg hneg] at h
    by_cases hpos : 0 < s₁.g.gAuthorityDecision ∧ p.locked = false
    · refine ⟨0, by omega, ?_, ⟨p, rfl, hpos.2⟩, ?_⟩
      · exact (hdec.1 hpos.1).imp id fun hc => ⟨0, le_rfl, p, rfl, hc⟩
      · rintro k hk q hq
        obtain rfl : k = 0 := by omega
        cases hq
        exact hnodeny
    · rw [if_neg hpos] at h
      obtain ⟨j, hj, happ, hlock, hno⟩ := proofWait_approved h0 hw' h
      refine ⟨j + 1, by omega, ?_, hlock, ?_⟩
      · rcases happ with happ | ⟨i, hi, q, hq, hc⟩
        · exact (hdec.1 happ).imp id fun hc => ⟨0, by omega, p, rfl, hc⟩
        · exact Or.inr ⟨i + 1, by omega, q, hq, hc⟩
      · rintro k hk q hq
        cases k with
        | zero => cases hq; exact hnodeny
        | succ k => exact hno k (by omega) q hq

/-! ### The whole request -/

/-- `PROOF_RESULT OK` was handed to the socket. -/
def SendsOk (s s' : Service) : Prop := ∃ w, okHead <+: w ∧ .sent w ∈ since s s'

theorem refuse_not_ok {d : ProofDeny} {s s' : Service} {l : List Event} (hlog : s'.log = l ++ s.log)
    (hnew : ∀ w, .sent w ∉ l) : ¬ SendsOk s (refuse d s').2 := by
  rintro ⟨w, hw, hs⟩
  rw [since_eq (l := .sent d.wire :: l) (by simp [refuse, hlog])] at hs
  rcases List.mem_cons.mp hs with h | h
  · cases h
    have hdec : ∀ d : ProofDeny, ¬ okHead <+: d.wire := by intro d; cases d <;> decide
    exact hdec d hw
  · exact hnew w h

theorem proofPend_log (r : ProofRequest) (s : Service) :
    ∃ paired, (proofPend r s).log = .published (proofPend r s).g paired :: s.log := ⟨_, rfl⟩

/-- **When `PROOF_RESULT OK` goes out**: the checks passed, and the request was approved in the wait
loop, or needs no approval and the device was unlocked. -/
theorem trustHandleProofRequest_ok {frame : CStr 4096} {e : ProofEnv} {s : Service}
    (h : SendsOk s (trustHandleProofRequest frame e s).2) :
    ∃ r s₁, proofScreen frame.val e.clock = .ok r ∧
      (r.explicitMode = true → proofWait 500 e.polls (proofPend r s) = (.approved, s₁)) ∧
      (r.explicitMode = false → e.locked = false ∧ s₁ = s) ∧
      trustHandleProofRequest frame e s = proofSign r e s₁ := by
  unfold trustHandleProofRequest at h ⊢
  cases hsc : proofScreen frame.val e.clock with
  | error d =>
    rw [hsc] at h
    exact absurd h (refuse_not_ok (l := []) rfl (by simp))
  | ok r =>
    simp only [hsc] at h ⊢
    by_cases hx : r.explicitMode = true
    · rw [if_pos hx] at h ⊢
      obtain ⟨-, -, new, hlog, hcons⟩ := proofWait_spec 500 e.polls (proofPend r s)
      obtain ⟨paired, hp⟩ := proofPend_log r s
      have hno : ∀ (d : ProofDeny) (s₁ : Service), (proofWait 500 e.polls (proofPend r s)).2 = s₁ →
          ¬ SendsOk s (refuse d (trustClearAuthorityRequest s₁)).2 := by
        rintro d s₁ rfl
        obtain ⟨g, paired', hc⟩ : ∃ g paired', (trustClearAuthorityRequest
            (proofWait 500 e.polls (proofPend r s)).2).log =
              .published g paired' :: (proofWait 500 e.polls (proofPend r s)).2.log := ⟨_, _, rfl⟩
        refine refuse_not_ok (l := .published g paired' :: (new ++ [.published (proofPend r s).g paired])) ?_ ?_
        · rw [hc, hlog, hp]; simp
        · intro w hw
          simp only [List.mem_cons, reduceCtorEq, List.mem_append, List.not_mem_nil, or_false,
            false_or] at hw
          obtain ⟨f, g, hfg⟩ := hcons _ hw
          cases hfg
      generalize hwait : proofWait 500 e.polls (proofPend r s) = q at h hno ⊢
      obtain ⟨decided, s₁⟩ := q
      cases decided with
      | approved => exact ⟨r, s₁, rfl, fun _ => hwait, fun hf => absurd hf (by simp [hx]), rfl⟩
      | denied => exact absurd h (hno .userDenied s₁ rfl)
      | undecided => exact absurd h (hno .approvalTimeout s₁ rfl)
    · rw [if_neg hx] at h ⊢
      by_cases hl : e.locked = true
      · rw [if_pos hl] at h
        exact absurd h (refuse_not_ok (l := []) rfl (by simp))
      · rw [if_neg hl]
        exact ⟨r, s, rfl, fun hx' => absurd hx' hx, fun _ => ⟨by simpa using hl, rfl⟩, rfl⟩

/-- An answer, or a publication; that of an EXPLICIT request shows nothing pending any more. -/
def ClosingEvent (r : ProofRequest) : Event → Prop
  | .sent _ => True
  | .published g _ => r.explicitMode = true → g.gAuthorityPending = false
  | _ => False

/-- What `proofSign` adds to the history: the signature first, then the answer and the publication. -/
theorem proofSign_log (r : ProofRequest) (e : ProofEnv) (s : Service) :
    ∃ new, (proofSign r e s).2.log = new ++ .signed (proofMessage s.g r) :: s.log ∧
      (∀ ev ∈ new, ClosingEvent r ev) ∧
      ((proofSign r e s).1 = 0 → ∃ sig, .sent (okWire sig) ∈ new) := by
  have hcons : ∀ {ev new}, ClosingEvent r ev → (∀ ev ∈ new, ClosingEvent r ev) →
      ∀ ev' ∈ ev :: new, ClosingEvent r ev' := fun h h' => List.forall_mem_cons.mpr ⟨h, h'⟩
  have hnil : ∀ ev ∈ [], ClosingEvent r ev := by simp
  have hdeny : ∀ {P : Prop}, ProofDeny.signing.rc = 0 → P := fun h => absurd h (by decide)
  have hlost : ∀ {P : Prop}, (-11 : ℤ) = 0 → P := fun h => absurd h (by decide)
  unfold proofSign
  dsimp only
  by_cases hx : r.explicitMode = true
  · simp only [if_pos hx]
    cases trustSign e.keystore 192 (proofMessage s.g r) with
    | none => exact ⟨[_, _], rfl, hcons trivial <| hcons (fun _ => rfl) hnil, hdeny⟩
    | some sig =>
      dsimp only
      split_ifs
      · exact ⟨[_, _], rfl, hcons (fun _ => rfl) <| hcons trivial hnil, hlost⟩
      · exact ⟨[_, _], rfl, hcons (fun _ => rfl) <| hcons trivial hnil, fun _ => ⟨sig, by simp⟩⟩
  · simp only [if_neg hx]
    cases trustSign e.keystore 192 (proofMessage s.g r) with
    | none => exact ⟨[_], rfl, hcons trivial hnil, hdeny⟩
    | some sig =>
      dsimp only
      split_ifs
      · exact ⟨[_], rfl, hcons trivial hnil, hlost⟩
      · exact ⟨[_, _], rfl, hcons (fun h => absurd h hx) <| hcons trivial hnil, fun _ => ⟨sig, by simp⟩⟩

/-- A message depends on the fingerprints only. -/
theorem proofMessage_congr {g g' : Globals} (hh : g'.gTrustHostFp = g.gTrustHostFp)
    (hp : g'.gTrustPhoneFp = g.gTrustPhoneFp) (r : ProofRequest) :
    proofMessage g' r = proofMessage g r := by
  simp only [proofMessage, hh, hp]

theorem proofMessage_consume (file : Option Bytes) (s : Service) (r : ProofRequest) :
    proofMessage (trustUiConsumeCommand file s).g r = proofMessage s.g r := by
  have hsame := (trustUiConsumeCommand_spec file s).1
  unfold SameButRequests at hsame
  exact proofMessage_congr (by rw [hsame]) (by rw [hsame]) r

/-- The history up to the decision: nothing is signed, and an EXPLICIT request is published. -/
theorem decided_log {e : ProofEnv} {s s₁ : Service} {r : ProofRequest}
    (hwait : r.explicitMode = true → proofWait 500 e.polls (proofPend r s) = (.approved, s₁))
    (hplain : r.explicitMode = false → e.locked = false ∧ s₁ = s) :
    proofMessage s₁.g r = proofMessage s.g r ∧ ∃ old, s₁.log = old ++ s.log ∧ (∀ m, .signed m ∉ old) ∧
      (r.explicitMode = true → (∃ paired, .published (proofPend r s).g paired ∈ old) ∧
        ∀ g paired, .published g paired ∈ old → g = (proofPend r s).g) := by
  by_cases hx : r.explicitMode = true
  · obtain ⟨hsame, -, cons, hcons, hall⟩ := proofWait_spec 500 e.polls (proofPend r s)
    obtain ⟨paired, hpub⟩ := proofPend_log r s
    rw [hwait hx] at hsame hcons
    have hmsg : proofMessage s₁.g r = proofMessage s.g r := by
      unfold SameButRequests at hsame
      exact proofMessage_congr (by rw [hsame]; rfl) (by rw [hsame]; rfl) r
    refine ⟨hmsg, cons ++ [.published (proofPend r s).g paired], ?_, fun m hm => ?_,
      fun _ => ⟨⟨paired, by simp⟩, fun g p hg => ?_⟩⟩
    · rw [hcons, hpub, List.append_assoc, List.singleton_append]
    · rcases List.mem_append.mp hm with hm | hm
      · obtain ⟨f, g, hfg⟩ := hall _ hm
        cases hfg
      · simp at hm
    · rcases List.mem_append.mp hg with hg | hg
      · obtain ⟨f, g', hfg⟩ := hall _ hg
        cases hfg
      · rcases List.mem_singleton.mp hg
        rfl
  · obtain ⟨-, rfl⟩ := hplain (by simpa using hx)
    exact ⟨rfl, [], rfl, by simp, fun h => absurd h hx⟩

/-- **The history of a proof**: one message is signed, and an EXPLICIT request was published, as the
only pending one. -/
theorem trustHandleProofRequest_events {e : ProofEnv} {s s' s₁ : Service} {r : ProofRequest}
    (hwait : r.explicitMode = true → proofWait 500 e.polls (proofPend r s) = (.approved, s₁))
    (hplain : r.explicitMode = false → e.locked = false ∧ s₁ = s)
    (hrun : s' = (proofSign r e s₁).2) :
    (∀ m, .signed m ∈ since s s' ↔ m = proofMessage s.g r) ∧
      (r.explicitMode = true → (∃ paired, .published (proofPend r s).g paired ∈ since s s') ∧
        ∀ g paired, .published g paired ∈ since s s' → g.gAuthorityPending = true →
          g = (proofPend r s).g) := by
  obtain ⟨new, hlog, hnew, -⟩ := proofSign_log r e s₁
  obtain ⟨hmsg, old, hold, hnosign, hpub⟩ := decided_log hwait hplain
  have hsince : since s s' = new ++ .signed (proofMessage s.g r) :: old :=
    since_eq (by rw [hrun, hlog, hold, hmsg]; simp)
  rw [hsince]
  refine ⟨fun m => ⟨fun hm => ?_, fun hm => by simp [hm]⟩, fun hx => ?_⟩
  · rcases List.mem_append.mp hm with hm | hm
    · exact (hnew _ hm).elim
    rcases List.mem_cons.mp hm with hm | hm
    · cases hm; rfl
    · exact absurd hm (hnosign m)
  · obtain ⟨⟨paired, hp⟩, honly⟩ := hpub hx
    refine ⟨⟨paired, by simp [hp]⟩, fun g p hg hpend => ?_⟩
    rcases List.mem_append.mp hg with hg | hg
    · rw [hnew _ hg hx] at hpend
      cases hpend
    rcases List.mem_cons.mp hg with hg | hg
    · cases hg
    · exact honly g p hg

/-- **A proof request signs its own transcript** or nothing, and only past the checks. -/
theorem signed_trustHandleProofRequest {frame : CStr 4096} {e : ProofEnv} {s : Service} {m : Bytes}
    (h : .signed m ∈ since s (trustHandleProofRequest frame e s).2) :
    ∃ r, proofScreen frame.val e.clock = .ok r ∧ m = proofMessage s.g r := by
  have hrefuse (d : ProofDeny) (s' : Service) (l : List Event) (hlog : s'.log = l ++ s.log)
      (hno : .signed m ∉ l) : .signed m ∉ since s (refuse d s').2 := by
    rw [since_eq (l := .sent d.wire :: l) (by simp [refuse, hlog])]
    simpa using hno
  unfold trustHandleProofRequest at h
  cases hsc : proofScreen frame.val e.clock with
  | error d =>
    rw [hsc] at h
    exact absurd h (hrefuse d s [] rfl (by simp))
  | ok r =>
    simp only [hsc] at h
    refine ⟨r, rfl, ?_⟩
    by_cases hx : r.explicitMode = true
    · rw [if_pos hx] at h
      obtain ⟨-, -, new, hlog, hcons⟩ := proofWait_spec 500 e.polls (proofPend r s)
      obtain ⟨paired, hpub⟩ := proofPend_log r s
      -- a request that is refused after the wait has published and consumed, no more
      have hwaited (d : ProofDeny) :
          .signed m ∉ since s (refuse d (trustClearAuthorityRequest
            (proofWait 500 e.polls (proofPend r s)).2)).2 := by
        obtain ⟨g, paired', hc⟩ : ∃ g paired', (trustClearAuthorityRequest
            (proofWait 500 e.polls (proofPend r s)).2).log =
              .published g paired' :: (proofWait 500 e.polls (proofPend r s)).2.log := ⟨_, _, rfl⟩
        refine hrefuse d _ (.published g paired' :: (new ++ [.published (proofPend r s).g paired])) ?_ ?_
        · rw [hc, hlog, hpub, List.cons_append, List.append_assoc, List.singleton_append]
        · intro hm
          simp only [List.mem_cons, reduceCtorEq, List.mem_append, List.not_mem_nil, or_false,
            false_or] at hm
          obtain ⟨f, g, hfg⟩ := hcons _ hm
          cases hfg
      generalize hwait : proofWait 500 e.polls (proofPend r s) = q at h hwaited
      obtain ⟨decided, s₁⟩ := q
      cases decided with
      | approved =>
        exact ((trustHandleProofRequest_events (fun _ => hwait) (fun hf => absurd hf (by simp [hx]))
          rfl).1 m).mp h
      | denied => exact absurd h (hwaited .userDenied)
      | undecided => exact absurd h (hwaited .approvalTimeout)
    · rw [if_neg hx] at h
      by_cases hl : e.locked = true
      · rw [if_pos hl] at h
        exact absurd h (hrefuse .phoneLocked s [] rfl (by simp))
      · rw [if_neg hl] at h
        exact ((trustHandleProofRequest_events (fun hx' => absurd hx' hx)
          (fun _ => ⟨by simpa using hl, rfl⟩) rfl).1 m).mp h

theorem okHead_prefix_okWire (sig : Bytes) : okHead <+: okWire sig := by
  refine List.prefix_take_iff.mpr ⟨?_, by decide⟩
  rw [List.append_assoc, List.append_assoc]
  exact List.prefix_append _ _

/-- A request that returns 0 has sent its proof. -/
theorem sendsOk_of_rc {frame : CStr 4096} {e : ProofEnv} {s : Service}
    (h : (trustHandleProofRequest frame e s).1 = 0) :
    SendsOk s (trustHandleProofRequest frame e s).2 := by
  have hdeny : ∀ d : ProofDeny, d.rc ≠ 0 := by intro d; cases d <;> decide
  -- a run that gets to the signature sends what `proofSign` sends
  have hsign {r : ProofRequest} {s₁ : Service}
      (hwait : r.explicitMode = true → proofWait 500 e.polls (proofPend r s) = (.approved, s₁))
      (hplain : r.explicitMode = false → e.locked = false ∧ s₁ = s)
      (hrc : (proofSign r e s₁).1 = 0) : SendsOk s (proofSign r e s₁).2 := by
    obtain ⟨new, hlog, -, hok⟩ := proofSign_log r e s₁
    obtain ⟨-, old, hold, -⟩ := decided_log hwait hplain
    obtain ⟨sig, hsig⟩ := hok hrc
    refine ⟨okWire sig, okHead_prefix_okWire sig, ?_⟩
    rw [since_eq (l := new ++ .signed (proofMessage s₁.g r) :: old) (by rw [hlog, hold]; simp)]
    exact List.mem_append_left _ hsig
  unfold trustHandleProofRequest at h ⊢
  cases hsc : proofScreen frame.val e.clock with
  | error d => rw [hsc] at h; exact absurd h (hdeny d)
  | ok r =>
    simp only [hsc] at h ⊢
    by_cases hx : r.explicitMode = true
    · rw [if_pos hx] at h ⊢
      generalize hwait : proofWait 500 e.polls (proofPend r s) = q at h ⊢
      obtain ⟨decided, s₁⟩ := q
      cases decided with
      | approved => exact hsign (fun _ => hwait) (fun hf => absurd hf (by simp [hx])) h
      | denied => exact absurd h (hdeny .userDenied)
      | undecided => exact absurd h (hdeny .approvalTimeout)
    · rw [if_neg hx] at h ⊢
      by_cases hl : e.locked = true
      · rw [if_pos hl] at h; exact absurd h (hdeny .phoneLocked)
      · rw [if_neg hl] at h ⊢
        exact hsign (fun hx' => absurd hx' hx) (fun _ => ⟨by simpa using hl, rfl⟩) h

end ZorinTrust
