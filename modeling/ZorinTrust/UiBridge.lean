import ZorinTrust.Service

/-!
# The file bridge between the UI process and `:trust`

`trust-ui-state` is written by the service (`stateFrame`, the text of `trust_ui_publish_state`) and
read by the UI (`trustUiSyncFromService`); `trust-ui-command` goes the other way (`commandFrame`,
`trustUiConsumeCommand`).
-/

namespace ZorinTrust

open CText Numeral Lines

/-! ### Publishing -/

/-- A `trust_hex_encode` into a local buffer of `trust_ui_publish_state`. -/
def hexOf {n : ℕ} (cap : ℕ) (s : CStr n) : Bytes := (trustHexEncode s.val cap).getD []

def flag (b : Bool) : Bytes := ofInt (if b then 1 else 0)

/-- The fields of the state frame, in order. -/
def stateFields (g : Globals) (paired : Bool) : List (String × Bytes) :=
  [("STATE", ofInt g.gTrustState.toInt),
   ("SERVICE_ALIVE", flag g.gTrustServiceAlive),
   ("PAIRED", flag paired),
   ("PROOF_COUNT", ofNat g.gTrustProofCount.toNat),
   ("AUTH_PENDING", flag g.gAuthorityPending),
   ("STATUS_HEX", hexOf 260 g.gTrustStatus),
   ("HOST_NAME_HEX", hexOf 260 g.gTrustHostName),
   ("HOST_FP_HEX", hexOf 260 g.gTrustHostFp),
   ("HOST_ID_HEX", hexOf 220 g.gTrustHostIdentity),
   ("PHONE_FP_HEX", hexOf 260 g.gTrustPhoneFp),
   ("POLICY_HEX", hexOf 220 g.gTrustPolicy),
   ("TRANSPORT_HEX", hexOf 180 g.gTrustTransport),
   ("PENDING_HEX", hexOf 1100 g.gTrustHostPubPending),
   ("LAST_PROOF_HEX", hexOf 260 g.gTrustLastProof),
   ("AUTH_REQUEST_HEX", hexOf 220 g.gAuthorityRequestId),
   ("AUTH_ACTION_HEX", hexOf 540 g.gAuthorityAction),
   ("AUTH_RESOURCE_HEX", hexOf 1060 g.gAuthorityResource),
   ("AUTH_PROMPT_HEX", hexOf 800 g.gAuthorityPrompt)]

/-- The `snprintf` of `trust_ui_publish_state`, before its cut. -/
def stateText (g : Globals) (paired : Bool) : Bytes :=
  lit "ZTRUSTUI/2" ++ 10 :: ((stateFields g paired).flatMap (fun f => fieldText f ++ [10]) ++
    (lit "END" ++ [10]))

/-- What `trust_ui_publish_state` writes to `trust-ui-state`. -/
def stateFrame (g : Globals) (paired : Bool) : Bytes := cut 8000 (stateText g paired)

/-! ### The published frame reads back -/

section Frame

variable {n cap : ℕ} {g : Globals} {paired : Bool}

/-- The local buffers of `trust_ui_publish_state` are large enough for the globals they encode. -/
theorem trustHexEncode_hexOf (s : CStr n) (h : 2 * n ≤ cap + 1) :
    trustHexEncode s.val cap = some (hexOf cap s) := by
  have := s.fits
  rw [hexOf, trustHexEncode_of_lt (by omega), Option.getD_some]

theorem length_hexOf_val (cap : ℕ) (s : CStr n) : (hexOf cap s).length ≤ 2 * s.val.length := by
  unfold hexOf
  cases h : trustHexEncode s.val cap with
  | none => exact Nat.zero_le _
  | some y => rw [Option.getD_some, trustHexEncode_length h]

theorem length_hexOf (cap : ℕ) (s : CStr n) : (hexOf cap s).length ≤ 2 * (n - 1) := by
  have hfit := s.fits
  have hlen := length_hexOf_val cap s
  omega

theorem isEol_trustHexEncode {x y : Bytes} {cap : ℕ} (h : trustHexEncode x cap = some y) :
    ∀ c ∈ y, isEol c = false := by
  intro c hc
  rcases mem_trustHexEncode h hc with ⟨hle, -⟩ | ⟨hle, -⟩
  · exact isEol_of_le (UInt8.le_trans (by decide : (14 : UInt8) ≤ 48) hle)
  · exact isEol_of_le (UInt8.le_trans (by decide : (14 : UInt8) ≤ 97) hle)

theorem isEol_hexOf (s : CStr n) : ∀ c ∈ hexOf cap s, isEol c = false := by
  intro c hc
  unfold hexOf at hc
  cases h : trustHexEncode s.val cap with
  | none => rw [h] at hc; simp at hc
  | some y =>
    rw [h, Option.getD_some] at hc
    exact isEol_trustHexEncode h c hc

theorem isEol_of_isDigit {c : UInt8} (h : isDigit c = true) : isEol c = false := by
  rw [isDigit, Bool.and_eq_true, decide_eq_true_eq] at h
  exact isEol_of_le (UInt8.le_trans (by decide : (14 : UInt8) ≤ 48) h.1)

theorem isEol_ofInt (x : ℤ) : ∀ c ∈ ofInt x, isEol c = false := by
  intro c hc
  rcases isDigit_of_mem_ofInt hc with rfl | hdigit
  · rfl
  · exact isEol_of_isDigit hdigit

theorem isEol_ofNat (x : ℕ) : ∀ c ∈ ofNat x, isEol c = false := fun c hc => by
  have := isEol_ofInt x c
  rw [ofInt, if_neg (by omega)] at this
  exact this hc

theorem stateFields_keys : (stateFields g paired).map Prod.fst =
    ["STATE", "SERVICE_ALIVE", "PAIRED", "PROOF_COUNT", "AUTH_PENDING", "STATUS_HEX", "HOST_NAME_HEX",
      "HOST_FP_HEX", "HOST_ID_HEX", "PHONE_FP_HEX", "POLICY_HEX", "TRANSPORT_HEX", "PENDING_HEX",
      "LAST_PROOF_HEX", "AUTH_REQUEST_HEX", "AUTH_ACTION_HEX", "AUTH_RESOURCE_HEX",
      "AUTH_PROMPT_HEX"] := rfl

/-- Every field of the state frame is a well-formed line. -/
theorem stateFields_ok : ∀ f ∈ stateFields g paired, FieldOk f := by
  have hkey : ∀ k ∈ (stateFields g paired).map Prod.fst,
      (lit k).all (!isEol ·) = true ∧ sp ∉ lit k := by
    rw [stateFields_keys]
    decide +kernel
  have hval : ∀ f ∈ stateFields g paired, ∀ c ∈ f.2, isEol c = false := by
    intro f hf
    simp only [stateFields, List.mem_cons, List.not_mem_nil, or_false] at hf
    rcases hf with rfl | rfl | rfl | rfl | rfl | rfl | rfl | rfl | rfl | rfl | rfl | rfl | rfl | rfl |
      rfl | rfl | rfl | rfl
    all_goals first | exact isEol_hexOf _ | exact isEol_ofInt _ | exact isEol_ofNat _
  intro f hf
  obtain ⟨h1, h2⟩ := hkey f.1 (List.mem_map_of_mem hf)
  exact ⟨isEol_of_all h1, h2, hval f hf⟩

/-- How long a state frame gets with the two fingerprints and the transport it shows. -/
theorem length_stateText_le (g : Globals) (paired : Bool) : (stateText g paired).length ≤
    4991 + 2 * (g.gTrustHostFp.val.length + g.gTrustPhoneFp.val.length + g.gTrustTransport.val.length) := by
  have hs : (ofInt g.gTrustState.toInt).length ≤ 11 := by
    refine length_ofInt_le (k := 10) (by norm_num) ?_
    have h1 := g.gTrustState.toInt_lt
    have h2 := g.gTrustState.le_toInt
    omega
  have hc : (ofNat g.gTrustProofCount.toNat).length ≤ 10 :=
    length_ofNat_le (by norm_num) (by have := g.gTrustProofCount.toNat_lt; omega)
  have hflag : ∀ b, (flag b).length = 1 := by decide
  have hkeys : ((stateFields g paired).map fun f => (lit f.1).length + 2).sum ≤ 300 := by
    rw [show (stateFields g paired).map (fun f => (lit f.1).length + 2) =
      ((stateFields g paired).map Prod.fst).map (fun k => (lit k).length + 2) by rw [List.map_map]; rfl,
      stateFields_keys]
    decide +kernel
  have hhead : (lit "ZTRUSTUI/2").length = 10 := rfl
  have htail : (lit "END" ++ [10]).length = 4 := rfl
  rw [stateText, List.length_append, List.length_cons, List.length_append, length_fields, hhead, htail]
  have hvals : List.Forall₂ (· ≤ ·) ((stateFields g paired).map fun f => f.2.length)
      [11, 1, 1, 10, 1, 254, 254, 2 * g.gTrustHostFp.val.length, 190, 2 * g.gTrustPhoneFp.val.length, 190,
        2 * g.gTrustTransport.val.length, 1022, 254, 190, 510, 1022, 766] :=
    .cons hs <| .cons (hflag _).le <| .cons (hflag _).le <| .cons hc <| .cons (hflag _).le <|
    .cons (length_hexOf _ _) <| .cons (length_hexOf _ _) <| .cons (length_hexOf_val _ _) <|
    .cons (length_hexOf _ _) <| .cons (length_hexOf_val _ _) <| .cons (length_hexOf _ _) <|
    .cons (length_hexOf_val _ _) <| .cons (length_hexOf _ _) <| .cons (length_hexOf _ _) <|
    .cons (length_hexOf _ _) <| .cons (length_hexOf _ _) <| .cons (length_hexOf _ _) <|
    .cons (length_hexOf _ _) .nil
  have := hvals.sum_le_sum
  simp only [List.sum_cons, List.sum_nil] at this
  omega

/-- The wire buffer holds every state frame, and so does the buffer the UI reads it into. -/
theorem length_stateText (g : Globals) (paired : Bool) : (stateText g paired).length < 7600 := by
  have hlen := length_stateText_le g paired
  have h1 := g.gTrustHostFp.fits
  have h2 := g.gTrustPhoneFp.fits
  have h3 := g.gTrustTransport.fits
  omega

theorem stateFrame_eq : stateFrame g paired = stateText g paired :=
  cut_of_lt (by have := length_stateText g paired; omega)

/-- **The published frame reads back** field by field. -/
theorem trustFrameField_stateFrame {key : String} (hk : sp ∉ lit key) :
    trustFrameField (stateFrame g paired) key cap = lookup (lit key) cap (stateFields g paired) := by
  rw [stateFrame_eq, trustFrameField, stateText]
  exact scan_frame hk (isEol_of_all (by decide)) (by decide) (by decide) (isEol_of_all (by decide))
    (by decide) stateFields_ok

/-- A hex field of the state frame decodes to the global it was made from. -/
theorem hexField_stateFrame (i cap : ℕ) {key : String} {s : CStr n} {cap' : ℕ} (hk : sp ∉ lit key)
    (hat : (stateFields g paired)[i]? = some (key, hexOf cap s))
    (hbefore : ∀ k ∈ ((stateFields g paired).map Prod.fst).take i, lit k ≠ lit key)
    (hn : 2 * n ≤ cap + 1) (hn' : 2 * n ≤ 1200) (hcap : n ≤ cap' + 1) :
    (trustFrameField (stateFrame g paired) key 1200).bind (trustHexDecode · cap') = some s.val := by
  have h1 := length_hexOf cap s
  have h2 := s.fits
  rw [trustFrameField_stateFrame hk, lookup_of_getElem _ hat hbefore, Option.bind_some,
    cut_of_lt (by omega)]
  exact trustHexDecode_encode (trustHexEncode_hexOf s hn) (by omega)

/-- What the UI decodes from the action field of a published frame. -/
theorem actionField_stateFrame :
    (trustFrameField (stateFrame g paired) "AUTH_ACTION_HEX" 1200).bind (trustHexDecode · 255) =
      some g.gAuthorityAction.val :=
  hexField_stateFrame 15 540 (by decide) rfl (by rw [stateFields_keys]; decide +kernel)
    (by norm_num) (by norm_num) (by norm_num)

theorem resourceField_stateFrame :
    (trustFrameField (stateFrame g paired) "AUTH_RESOURCE_HEX" 1200).bind (trustHexDecode · 511) =
      some g.gAuthorityResource.val :=
  hexField_stateFrame 16 1060 (by decide) rfl (by rw [stateFields_keys]; decide +kernel)
    (by norm_num) (by norm_num) (by norm_num)

end Frame

/-! ### Reading the state back in the UI process -/

/-- The UI process's copies of the globals, its pairing hint and the last frame it compared. -/
structure UiCopy where
  g : Globals := {}
  gTrustPairedHint : Bool := false
  gTrustUiLastFrame : CStr 5200 := .put 5200 []
  deriving DecidableEq

/-- `trust_ui_decode_field`; both failures leave the empty string. -/
def trustUiDecodeField (frame : Bytes) (key : String) (cap : ℕ) [NeZero cap] : CStr cap :=
  match trustFrameField frame key 1200 with
  | none => .put cap []
  | some hex => .put cap ((trustHexDecode hex (cap - 1)).getD [])

/-- A numeric field that keeps its old value when the frame has none. -/
def uiNumber {α : Type} (frame : Bytes) (key : String) (old : α) (read : ℤ → α) : α :=
  match trustFrameField frame key 64 with
  | none => old
  | some v => read (trustParseI64 v)

/-- The globals `trust_ui_sync_from_service` sets from a frame. -/
def uiGlobals (frame : Bytes) (g : Globals) : Globals :=
  { g with
    gTrustState := uiNumber frame "STATE" g.gTrustState Int32.ofInt
    gTrustServiceAlive := uiNumber frame "SERVICE_ALIVE" g.gTrustServiceAlive (· ≠ 0)
    gTrustProofCount := uiNumber frame "PROOF_COUNT" g.gTrustProofCount UInt32.ofInt
    gTrustStatus := trustUiDecodeField frame "STATUS_HEX" 128
    gTrustHostName := trustUiDecodeField frame "HOST_NAME_HEX" 128
    gTrustHostFp := trustUiDecodeField frame "HOST_FP_HEX" 128
    gTrustHostIdentity := trustUiDecodeField frame "HOST_ID_HEX" 96
    gTrustPhoneFp := trustUiDecodeField frame "PHONE_FP_HEX" 128
    gTrustPolicy := trustUiDecodeField frame "POLICY_HEX" 96
    gTrustTransport := trustUiDecodeField frame "TRANSPORT_HEX" 64
    gTrustHostPubPending := trustUiDecodeField frame "PENDING_HEX" 512
    gTrustLastProof := trustUiDecodeField frame "LAST_PROOF_HEX" 128
    gAuthorityPending := uiNumber frame "AUTH_PENDING" g.gAuthorityPending (· ≠ 0)
    gAuthorityRequestId := trustUiDecodeField frame "AUTH_REQUEST_HEX" 96
    gAuthorityAction := trustUiDecodeField frame "AUTH_ACTION_HEX" 256
    gAuthorityResource := trustUiDecodeField frame "AUTH_RESOURCE_HEX" 512
    gAuthorityPrompt := trustUiDecodeField frame "AUTH_PROMPT_HEX" 384 }

/-- `trust_ui_sync_from_service` on the content of `trust-ui-state`. -/
def trustUiSyncFromService (file : Bytes) (u : UiCopy) : ℤ × UiCopy :=
  let frame := cstr (cut 7600 file)
  if cut 7600 file = [] ∨ (strstr frame (lit "ZTRUSTUI/2") = false ∧
      strstr frame (lit "ZTRUSTUI/1") = false) then (-1, u)
  else
    let changed := u.gTrustUiLastFrame.val = [] ∨ miniStreq u.gTrustUiLastFrame.val frame = false
    (if changed then 1 else 0,
      { g := uiGlobals frame u.g
        gTrustPairedHint := uiNumber frame "PAIRED" u.gTrustPairedHint (· ≠ 0)
        gTrustUiLastFrame := if changed then .put 5200 frame else u.gTrustUiLastFrame })

/-! ### Commands -/

/-- The text `trust_ui_send_command` writes to `trust-ui-command`. -/
def commandFrame (command : String) (binding : Bytes) : Bytes :=
  if binding = [] then cut 900 (lit "ZTRUSTUI/2\nCOMMAND " ++ lit command ++ lit "\nEND\n")
  else cut 900 (lit "ZTRUSTUI/2\nCOMMAND " ++ lit command ++ lit "\nBINDING " ++ binding ++
    lit "\nEND\n")

/-- The command a frame names. -/
def frameCommand (frame : Bytes) : Option Bytes := trustFrameField frame "COMMAND" 64

/-- The binding a frame carries; empty when it has none. -/
def frameBinding (frame : Bytes) : Bytes := (trustFrameField frame "BINDING" 600).getD []

/-- The test `trust_ui_consume_command` makes before it accepts an APPROVE. -/
def approves (frame : Bytes) (g : Globals) : Bool :=
  g.gTrustState == 1 && g.gTrustHostPubPending.val != [] && frameBinding frame != [] &&
    miniStreq (frameBinding frame) g.gTrustHostPubPending.val

/-- The test it makes before it takes an AUTH_APPROVE or AUTH_DENY for the pending request. -/
def decides (frame : Bytes) (g : Globals) : Bool :=
  g.gAuthorityPending && frameBinding frame != [] &&
    miniStreq (frameBinding frame) g.gAuthorityRequestId.val

/-- What `trust_ui_consume_command` does with a command frame. -/
def commandEffect (frame : Bytes) (g : Globals) : Globals :=
  match frameCommand frame with
  | none => g
  | some cmd =>
    if miniStreq cmd (lit "RECONNECT") then { g with gTrustReconnectRequested := true }
    else if miniStreq cmd (lit "FORGET") then { g with gTrustForgetRequested := true }
    else if miniStreq cmd (lit "APPROVE") then
      if approves frame g then { g with gTrustApproveRequested := true } else g
    else if miniStreq cmd (lit "AUTH_APPROVE") || miniStreq cmd (lit "AUTH_DENY") then
      if decides frame g then
        { g with gAuthorityDecision := if miniStreq cmd (lit "AUTH_APPROVE") then 1 else -1 }
      else g
    else g

/-- The frame `trust_ui_consume_command` reads: `none` when the file is missing or empty. -/
def commandRead (file : Option Bytes) : Option Bytes :=
  match file with
  | none => none
  | some raw => if cut 1024 raw = [] then none else some (cstr (cut 1024 raw))

/-- `trust_ui_consume_command` on the content of `trust-ui-command`. -/
def trustUiConsumeCommand (file : Option Bytes) (s : Service) : Service :=
  match commandRead file with
  | none => s
  | some frame => { s with g := commandEffect frame s.g, log := .consumed frame s.g :: s.log }

/-! ### What a command can change -/

/-- `g'` is `g` up to the four request flags a command can set. -/
def SameButRequests (g g' : Globals) : Prop :=
  g' = { g with
    gTrustReconnectRequested := g'.gTrustReconnectRequested
    gTrustForgetRequested := g'.gTrustForgetRequested
    gTrustApproveRequested := g'.gTrustApproveRequested
    gAuthorityDecision := g'.gAuthorityDecision }

theorem SameButRequests.trans {g g' g'' : Globals} (h : SameButRequests g g')
    (h' : SameButRequests g' g'') : SameButRequests g g'' := by
  unfold SameButRequests at *
  rw [h'] at *
  rw [h]

/-- The file content is a command frame with this command and binding. -/
def Carries (file : Option Bytes) (command : String) (binding : Bytes) : Prop :=
  ∃ frame, commandRead file = some frame ∧ frameCommand frame = some (lit command) ∧
    frameBinding frame = binding

instance (file : Option Bytes) (command : String) (binding : Bytes) :
    Decidable (Carries file command binding) :=
  inferInstanceAs (Decidable (∃ frame ∈ commandRead file, _))

/-- What a command frame can do to the globals, with the tests that allow it. -/
inductive CommandCase (frame : Bytes) (g : Globals) : Globals → Prop
  | ignored : CommandCase frame g g
  | reconnect (hcmd : frameCommand frame = some (lit "RECONNECT")) :
      CommandCase frame g { g with gTrustReconnectRequested := true }
  | forget (hcmd : frameCommand frame = some (lit "FORGET")) :
      CommandCase frame g { g with gTrustForgetRequested := true }
  | approve (hcmd : frameCommand frame = some (lit "APPROVE")) (hstate : g.gTrustState = 1)
      (hpending : g.gTrustHostPubPending.val ≠ [])
      (hbinding : frameBinding frame = g.gTrustHostPubPending.val) :
      CommandCase frame g { g with gTrustApproveRequested := true }
  | authApprove (hcmd : frameCommand frame = some (lit "AUTH_APPROVE"))
      (hpending : g.gAuthorityPending = true) (hid : g.gAuthorityRequestId.val ≠ [])
      (hbinding : frameBinding frame = g.gAuthorityRequestId.val) :
      CommandCase frame g { g with gAuthorityDecision := 1 }
  | authDeny (hcmd : frameCommand frame = some (lit "AUTH_DENY"))
      (hpending : g.gAuthorityPending = true) (hid : g.gAuthorityRequestId.val ≠ [])
      (hbinding : frameBinding frame = g.gAuthorityRequestId.val) :
      CommandCase frame g { g with gAuthorityDecision := -1 }

theorem approves_iff {frame : Bytes} {g : Globals} : approves frame g = true ↔
    g.gTrustState = 1 ∧ g.gTrustHostPubPending.val ≠ [] ∧
      frameBinding frame = g.gTrustHostPubPending.val := by
  simp only [approves, Bool.and_eq_true, beq_iff_eq, bne_iff_ne, miniStreq_iff, and_assoc]
  constructor
  · rintro ⟨h1, h2, -, h4⟩; exact ⟨h1, h2, h4⟩
  · rintro ⟨h1, h2, h3⟩; exact ⟨h1, h2, h3 ▸ h2, h3⟩

theorem decides_iff {frame : Bytes} {g : Globals} : decides frame g = true ↔
    g.gAuthorityPending = true ∧ g.gAuthorityRequestId.val ≠ [] ∧
      frameBinding frame = g.gAuthorityRequestId.val := by
  simp only [decides, Bool.and_eq_true, bne_iff_ne, miniStreq_iff, and_assoc]
  constructor
  · rintro ⟨h1, h2, h3⟩; exact ⟨h1, h3 ▸ h2, h3⟩
  · rintro ⟨h1, h2, h3⟩; exact ⟨h1, h3 ▸ h2, h3⟩

theorem commandEffect_approve {frame : Bytes} {g : Globals}
    (hcmd : frameCommand frame = some (lit "APPROVE")) (h : approves frame g = true) :
    commandEffect frame g = { g with gTrustApproveRequested := true } := by
  simp only [commandEffect, hcmd, h]
  rfl

/-- **What a command does**: nothing, or one of the five cases. -/
theorem commandEffect_cases (frame : Bytes) (g : Globals) :
    CommandCase frame g (commandEffect frame g) := by
  unfold commandEffect
  cases hc : frameCommand frame with
  | none => exact .ignored
  | some cmd =>
    simp only [Bool.or_eq_true, miniStreq_iff]
    split_ifs with h1 h2 h3 h4 h5 h6 h7
    · exact .reconnect (h1 ▸ hc)
    · exact .forget (h2 ▸ hc)
    · obtain ⟨hs, hp, hb⟩ := approves_iff.mp h4
      exact .approve (h3 ▸ hc) hs hp hb
    · exact .ignored
    · obtain ⟨hp, hid, hb⟩ := decides_iff.mp h6
      exact .authApprove (h7 ▸ hc) hp hid hb
    · obtain ⟨hp, hid, hb⟩ := decides_iff.mp h6
      exact .authDeny (h5.resolve_left h7 ▸ hc) hp hid hb
    · exact .ignored
    · exact .ignored

theorem sameButRequests_commandEffect (frame : Bytes) (g : Globals) :
    SameButRequests g (commandEffect frame g) := by
  have h := commandEffect_cases frame g
  generalize commandEffect frame g = g' at h ⊢
  cases h <;> rfl

theorem trustUiConsumeCommand_cases (file : Option Bytes) (s : Service) :
    trustUiConsumeCommand file s = s ∨ ∃ frame, commandRead file = some frame ∧
      trustUiConsumeCommand file s =
        { s with g := commandEffect frame s.g, log := .consumed frame s.g :: s.log } := by
  unfold trustUiConsumeCommand
  cases h : commandRead file with
  | none => exact Or.inl rfl
  | some frame => exact Or.inr ⟨frame, rfl, rfl⟩

end ZorinTrust
