import ZorinTrust.ProofTranscript

/-!
# Round trips over the file bridge

What the service publishes is what the Activity reads back, field by field and at every length a buffer
allows, and a command frame gives the service the command and the binding it was made from.  `synced`
is the state the Activity ends up with; `uiGlobals_stateFrame` says that the reader computes it.
-/

namespace ZorinTrust

open CText Numeral Lines

/-- The Activity's copy of the globals once every field of the frame is in it. -/
def synced (g old : Globals) : Globals :=
  { old with
    gTrustState := g.gTrustState
    gTrustServiceAlive := g.gTrustServiceAlive
    gTrustProofCount := g.gTrustProofCount
    gTrustStatus := g.gTrustStatus
    gTrustHostName := g.gTrustHostName
    gTrustHostFp := g.gTrustHostFp
    gTrustHostIdentity := g.gTrustHostIdentity
    gTrustPhoneFp := g.gTrustPhoneFp
    gTrustPolicy := g.gTrustPolicy
    gTrustTransport := g.gTrustTransport
    gTrustHostPubPending := g.gTrustHostPubPending
    gTrustLastProof := g.gTrustLastProof
    gAuthorityPending := g.gAuthorityPending
    gAuthorityRequestId := g.gAuthorityRequestId
    gAuthorityAction := g.gAuthorityAction
    gAuthorityResource := g.gAuthorityResource
    gAuthorityPrompt := g.gAuthorityPrompt }

/-- The hex buffers of `trust_ui_publish_state`. -/
def hexBuffers (g : Globals) : List (Option Bytes) :=
  [trustHexEncode g.gTrustStatus.val 260, trustHexEncode g.gTrustHostName.val 260,
    trustHexEncode g.gTrustHostFp.val 260, trustHexEncode g.gTrustHostIdentity.val 220,
    trustHexEncode g.gTrustPhoneFp.val 260, trustHexEncode g.gTrustPolicy.val 220,
    trustHexEncode g.gTrustTransport.val 180, trustHexEncode g.gTrustHostPubPending.val 1100,
    trustHexEncode g.gTrustLastProof.val 260, trustHexEncode g.gAuthorityRequestId.val 220,
    trustHexEncode g.gAuthorityAction.val 540, trustHexEncode g.gAuthorityResource.val 1060,
    trustHexEncode g.gAuthorityPrompt.val 800]

/-! ### The state frame -/

section State

variable {g : Globals} {paired : Bool}

/-- No two lines of the frame share a key. -/
theorem stateFields_nodup : ((stateFields g paired).map fun f => lit f.1).Nodup := by
  have hkeys : (stateFields g paired).map (fun f => lit f.1) =
      ((stateFields g paired).map Prod.fst).map lit := by
    rw [List.map_map]
    rfl
  rw [hkeys, stateFields_keys]
  decide +kernel

theorem trustFrameField_at {key : String} {v : Bytes} {i : ℕ}
    (hat : (stateFields g paired)[i]? = some (key, v)) (cap : ℕ) :
    trustFrameField (stateFrame g paired) key cap = some (cut cap v) := by
  rw [trustFrameField_stateFrame (stateFields_ok _ (List.mem_of_getElem? hat)).key_sp]
  exact lookup_of_nodup stateFields_nodup hat cap

/-- A text reads back, whatever its buffer holds. -/
theorem trustUiDecodeField_stateFrame {key : String} {n : ℕ} [NeZero n] {s : CStr n} (i cap : ℕ)
    (hat : (stateFields g paired)[i]? = some (key, hexOf cap s)) (hcap : 2 * n ≤ cap + 1)
    (hn : 2 * n ≤ 1200) : trustUiDecodeField (stateFrame g paired) key n = s := by
  have hlen := length_hexOf cap s
  have hfit := s.fits
  have hdec : trustHexDecode (hexOf cap s) (n - 1) = some s.val :=
    trustHexDecode_encode (trustHexEncode_hexOf s hcap) (by omega)
  rw [trustUiDecodeField, trustFrameField_at hat, cut_of_lt (by omega)]
  dsimp only
  rw [hdec, Option.getD_some, CStr.put_val_self]

/-- A number reads back when 64 bits hold it. -/
theorem uiNumber_stateFrame {α : Type} {key : String} {x : ℤ} (i : ℕ)
    (hat : (stateFields g paired)[i]? = some (key, ofInt x)) (hx : FitsInt64 x) (old : α)
    (read : ℤ → α) : uiNumber (stateFrame g paired) key old read = read x := by
  have hlen : (ofInt x).length ≤ 20 := by
    apply length_ofInt_le (by norm_num)
    have hmax : (2 : ℤ) ^ 63 < 10 ^ 19 := by norm_num
    unfold FitsInt64 at hx
    omega
  have hparse : trustParseI64 (ofInt x) = x := by
    have hx' : FitsInt64 (decimalVal (ofInt x)) := by rw [decimalVal_ofInt]; exact hx
    rw [trustParseI64_of_fits (isDecimal_ofInt x) hx', decimalVal_ofInt]
  rw [uiNumber, trustFrameField_at hat, cut_of_lt (by omega)]
  dsimp only
  rw [hparse]

theorem uiNumber_flag {key : String} {b : Bool} (i : ℕ)
    (hat : (stateFields g paired)[i]? = some (key, flag b)) (old : Bool) :
    uiNumber (stateFrame g paired) key old (· ≠ 0) = b := by
  have hfits : FitsInt64 (if b then 1 else 0) := by
    unfold FitsInt64
    cases b <;> norm_num
  rw [uiNumber_stateFrame i hat hfits]
  cases b <;> rfl

theorem uiNumber_state (old : Int32) :
    uiNumber (stateFrame g paired) "STATE" old Int32.ofInt = g.gTrustState := by
  have hl := g.gTrustState.le_toInt
  have hu := g.gTrustState.toInt_lt
  have hfits : FitsInt64 g.gTrustState.toInt := by
    unfold FitsInt64
    norm_num at hl hu ⊢
    omega
  rw [uiNumber_stateFrame 0 rfl hfits, Int32.ofInt_toInt]

theorem uiNumber_proofCount (old : UInt32) :
    uiNumber (stateFrame g paired) "PROOF_COUNT" old UInt32.ofInt = g.gTrustProofCount := by
  have hu := g.gTrustProofCount.toNat_lt
  have hfits : FitsInt64 (g.gTrustProofCount.toNat : ℤ) := by
    unfold FitsInt64
    norm_num at hu ⊢
    omega
  have hat : (stateFields g paired)[3]? =
      some ("PROOF_COUNT", ofInt (g.gTrustProofCount.toNat : ℤ)) := by
    rw [ofInt, if_neg (by omega), Int.natAbs_natCast]
    rfl
  have hmod : (g.gTrustProofCount.toNat : ℤ) % 2 ^ 32 = g.gTrustProofCount.toNat :=
    Int.emod_eq_of_lt (by omega) (by exact_mod_cast hu)
  rw [uiNumber_stateFrame 3 hat hfits, UInt32.ofInt, hmod, Int.toNat_natCast, UInt32.ofNat_toNat]

/-- **The reader takes over the published globals**, each field as it stands. -/
theorem uiGlobals_stateFrame (g old : Globals) (paired : Bool) :
    uiGlobals (stateFrame g paired) old = synced g old := by
  have status : trustUiDecodeField (stateFrame g paired) "STATUS_HEX" 128 = g.gTrustStatus :=
    trustUiDecodeField_stateFrame 5 260 rfl (by norm_num) (by norm_num)
  have hostName : trustUiDecodeField (stateFrame g paired) "HOST_NAME_HEX" 128 = g.gTrustHostName :=
    trustUiDecodeField_stateFrame 6 260 rfl (by norm_num) (by norm_num)
  have hostFp : trustUiDecodeField (stateFrame g paired) "HOST_FP_HEX" 128 = g.gTrustHostFp :=
    trustUiDecodeField_stateFrame 7 260 rfl (by norm_num) (by norm_num)
  have hostId : trustUiDecodeField (stateFrame g paired) "HOST_ID_HEX" 96 = g.gTrustHostIdentity :=
    trustUiDecodeField_stateFrame 8 220 rfl (by norm_num) (by norm_num)
  have phoneFp : trustUiDecodeField (stateFrame g paired) "PHONE_FP_HEX" 128 = g.gTrustPhoneFp :=
    trustUiDecodeField_stateFrame 9 260 rfl (by norm_num) (by norm_num)
  have policy : trustUiDecodeField (stateFrame g paired) "POLICY_HEX" 96 = g.gTrustPolicy :=
    trustUiDecodeField_stateFrame 10 220 rfl (by norm_num) (by norm_num)
  have transport : trustUiDecodeField (stateFrame g paired) "TRANSPORT_HEX" 64 = g.gTrustTransport :=
    trustUiDecodeField_stateFrame 11 180 rfl (by norm_num) (by norm_num)
  have pending : trustUiDecodeField (stateFrame g paired) "PENDING_HEX" 512 = g.gTrustHostPubPending :=
    trustUiDecodeField_stateFrame 12 1100 rfl (by norm_num) (by norm_num)
  have lastProof : trustUiDecodeField (stateFrame g paired) "LAST_PROOF_HEX" 128 = g.gTrustLastProof :=
    trustUiDecodeField_stateFrame 13 260 rfl (by norm_num) (by norm_num)
  have request : trustUiDecodeField (stateFrame g paired) "AUTH_REQUEST_HEX" 96 =
      g.gAuthorityRequestId :=
    trustUiDecodeField_stateFrame 14 220 rfl (by norm_num) (by norm_num)
  have action : trustUiDecodeField (stateFrame g paired) "AUTH_ACTION_HEX" 256 = g.gAuthorityAction :=
    trustUiDecodeField_stateFrame 15 540 rfl (by norm_num) (by norm_num)
  have resource : trustUiDecodeField (stateFrame g paired) "AUTH_RESOURCE_HEX" 512 =
      g.gAuthorityResource :=
    trustUiDecodeField_stateFrame 16 1060 rfl (by norm_num) (by norm_num)
  have prompt : trustUiDecodeField (stateFrame g paired) "AUTH_PROMPT_HEX" 384 = g.gAuthorityPrompt :=
    trustUiDecodeField_stateFrame 17 800 rfl (by norm_num) (by norm_num)
  have alive (b : Bool) : uiNumber (stateFrame g paired) "SERVICE_ALIVE" b (· ≠ 0) =
      g.gTrustServiceAlive := uiNumber_flag 1 rfl b
  have authority (b : Bool) : uiNumber (stateFrame g paired) "AUTH_PENDING" b (· ≠ 0) =
      g.gAuthorityPending := uiNumber_flag 4 rfl b
  rw [uiGlobals, uiNumber_state, uiNumber_proofCount, alive, authority, status, hostName, hostFp, hostId,
    phoneFp, policy, transport, pending, lastProof, request, action, resource, prompt, synced]

/-! ### Reading the file -/

/-- The bytes of the frame are printable, up to the line ends and the spaces. -/
theorem nulFree_stateFields : ∀ f ∈ stateFields g paired, 0 ∉ lit f.1 ∧ 0 ∉ f.2 := by
  have hkeys : ∀ k ∈ (stateFields g paired).map Prod.fst, 0 ∉ lit k := by
    rw [stateFields_keys]
    decide +kernel
  have hhex {n cap : ℕ} (s : CStr n) : 0 ∉ hexOf cap s := by
    intro hc
    unfold hexOf at hc
    cases h : trustHexEncode s.val cap with
    | none => rw [h] at hc; simp at hc
    | some y =>
      rw [h, Option.getD_some] at hc
      rcases mem_trustHexEncode h hc with ⟨hle, -⟩ | ⟨hle, -⟩
      · exact absurd hle (by decide)
      · exact absurd hle (by decide)
  have hnat (x : ℕ) : 0 ∉ ofNat x := fun hc => absurd (isDigit_of_mem_ofNat hc) (by decide)
  intro f hf
  refine ⟨hkeys f.1 (List.mem_map_of_mem hf), ?_⟩
  simp only [stateFields, List.mem_cons, List.not_mem_nil, or_false] at hf
  rcases hf with rfl | rfl | rfl | rfl | rfl | rfl | rfl | rfl | rfl | rfl | rfl | rfl | rfl | rfl |
    rfl | rfl | rfl | rfl
  all_goals first | exact hhex _ | exact zero_notMem_ofInt _ | exact hnat _

theorem nulFree_stateFrame : 0 ∉ stateFrame g paired := by
  rw [stateFrame_eq, stateText]
  exact notMem_frame (by decide) (by decide) (by decide) nulFree_stateFields (by decide)

variable (g paired) in
/-- The Activity's buffer takes in any beginning of the frame as it is. -/
theorem read_stateFrame (n : ℕ) : cut 7600 ((stateFrame g paired).take n) = (stateFrame g paired).take n ∧
    cstr ((stateFrame g paired).take n) = (stateFrame g paired).take n := by
  have hlen := length_stateText g paired
  rw [← stateFrame_eq] at hlen
  constructor
  · apply cut_of_lt
    rw [List.length_take]
    omega
  · exact cstr_of_nulFree fun hc => nulFree_stateFrame (List.mem_of_mem_take hc)

variable (g paired) in
/-- The test for the header line, on a beginning of the frame. -/
theorem header_stateFrame (n : ℕ) : (strstr ((stateFrame g paired).take n) (lit "ZTRUSTUI/2") = false ∧
    strstr ((stateFrame g paired).take n) (lit "ZTRUSTUI/1") = false) ↔ n < 10 := by
  constructor
  · rintro ⟨h, -⟩
    by_contra hn
    have hin : lit "ZTRUSTUI/2" <:+: (stateFrame g paired).take n := by
      rw [stateFrame_eq, stateText]
      apply List.IsPrefix.isInfix
      apply List.prefix_take_iff.mpr
      exact ⟨List.prefix_append _ _, not_lt.mp hn⟩
    rw [strstr_iff.mpr hin] at h
    cases h
  · intro hn
    have hshort (needle : Bytes) (h10 : needle.length = 10) :
        strstr ((stateFrame g paired).take n) needle = false := by
      rw [← Bool.not_eq_true, strstr_iff]
      intro hin
      have hle := hin.length_le
      rw [List.length_take] at hle
      omega
    exact ⟨hshort _ rfl, hshort _ rfl⟩

variable (g paired) in
/-- **What a read of the frame does**, wherever it is cut: without the header nothing, with it what the
fields found say. -/
theorem sync_take (n : ℕ) (u : UiCopy) :
    (n < 10 → trustUiSyncFromService ((stateFrame g paired).take n) u = (-1, u)) ∧
    (10 ≤ n → (trustUiSyncFromService ((stateFrame g paired).take n) u).1 ≠ -1 ∧
      (trustUiSyncFromService ((stateFrame g paired).take n) u).2.g =
        uiGlobals ((stateFrame g paired).take n) u.g ∧
      (trustUiSyncFromService ((stateFrame g paired).take n) u).2.gTrustPairedHint =
        uiNumber ((stateFrame g paired).take n) "PAIRED" u.gTrustPairedHint (· ≠ 0)) := by
  obtain ⟨hcut, hcstr⟩ := read_stateFrame g paired n
  have hheader := header_stateFrame g paired n
  have hne : 10 ≤ n → (stateFrame g paired).take n ≠ [] := by
    intro hn hnil
    rw [hnil] at hheader
    exact absurd (hheader.mp ⟨by decide, by decide⟩) (not_lt.mpr hn)
  unfold trustUiSyncFromService
  simp only [hcut, hcstr, hheader]
  constructor
  · intro hn
    rw [if_pos (Or.inr hn)]
  · intro hn
    rw [if_neg (by rintro (hnil | hlt); exacts [hne hn hnil, absurd hlt (not_lt.mpr hn)])]
    refine ⟨?_, rfl, rfl⟩
    dsimp only
    split_ifs <;> decide

end State

/-! ### Commands -/

/-- The command names the Activity passes to `trust_ui_send_command`. -/
def uiCommands : List String := ["APPROVE", "AUTH_APPROVE", "AUTH_DENY", "FORGET", "RECONNECT"]

/-- The lines of a command frame; an empty binding has none. -/
def commandFields (command : String) (binding : Bytes) : List (String × Bytes) :=
  ("COMMAND", lit command) :: if binding = [] then [] else [("BINDING", binding)]

theorem commandFrame_eq_cut (command : String) (binding : Bytes) : commandFrame command binding =
    cut 900 (lit "ZTRUSTUI/2" ++ 10 :: ((commandFields command binding).flatMap
      (fun f => fieldText f ++ [10]) ++ (lit "END" ++ [10]))) := by
  have hhead : lit "ZTRUSTUI/2\nCOMMAND " = lit "ZTRUSTUI/2" ++ 10 :: (lit "COMMAND" ++ [sp]) := rfl
  have hend : lit "\nEND\n" = 10 :: (lit "END" ++ [10]) := rfl
  have hbinding : lit "\nBINDING " = 10 :: (lit "BINDING" ++ [sp]) := rfl
  unfold commandFrame commandFields
  rw [hhead, hend, hbinding]
  split_ifs <;> simp [fieldText]

section Command

variable {command : String} {binding : CStr 512} (hcommand : command ∈ uiCommands)
  (hbinding : ∀ c ∈ binding.val, isEol c = false)

include hcommand in
theorem uiCommands_ok : (lit command).length ≤ 12 ∧ (lit command).all (!isEol ·) = true ∧
    0 ∉ lit command := by
  have hall : ∀ k ∈ uiCommands, (lit k).length ≤ 12 ∧ (lit k).all (!isEol ·) = true ∧ 0 ∉ lit k := by
    decide +kernel
  exact hall command hcommand

include hcommand hbinding in
theorem commandFields_ok : ∀ f ∈ commandFields command binding.val, FieldOk f := by
  obtain ⟨-, heol, -⟩ := uiCommands_ok hcommand
  have hkeys : ∀ k ∈ ["COMMAND", "BINDING"], (lit k).all (!isEol ·) = true ∧ sp ∉ lit k := by decide
  obtain ⟨h1, h2⟩ := hkeys "COMMAND" (by simp)
  obtain ⟨h3, h4⟩ := hkeys "BINDING" (by simp)
  intro f hf
  rcases List.mem_cons.mp hf with rfl | hf
  · exact ⟨isEol_of_all h1, h2, isEol_of_all heol⟩
  · split_ifs at hf
    · simp at hf
    · obtain rfl := List.mem_singleton.mp hf
      exact ⟨isEol_of_all h3, h4, hbinding⟩

include hcommand in
/-- The wire buffer of `trust_ui_send_command` holds every command. -/
theorem commandFrame_eq : commandFrame command binding.val =
    lit "ZTRUSTUI/2" ++ 10 :: ((commandFields command binding.val).flatMap
      (fun f => fieldText f ++ [10]) ++ (lit "END" ++ [10])) := by
  obtain ⟨hlen, -, -⟩ := uiCommands_ok hcommand
  have hfit := binding.fits
  rw [commandFrame_eq_cut]
  apply cut_of_lt
  have h1 : (lit "ZTRUSTUI/2").length = 10 := rfl
  have h2 : (lit "END" ++ [10]).length = 4 := rfl
  have h3 : (lit "COMMAND").length = 7 := rfl
  have h4 : (lit "BINDING").length = 7 := rfl
  rw [List.length_append, List.length_cons, List.length_append, length_fields, h1, h2]
  unfold commandFields
  split_ifs
  · simp only [List.map_cons, List.map_nil, List.sum_cons, List.sum_nil, h3]
    omega
  · simp only [List.map_cons, List.map_nil, List.sum_cons, List.sum_nil, h3, h4]
    omega

include hcommand in
theorem nulFree_commandFrame : 0 ∉ commandFrame command binding.val := by
  obtain ⟨-, -, h0⟩ := uiCommands_ok hcommand
  have hb := binding.nulFree
  have hlits : 0 ∉ lit "ZTRUSTUI/2\nCOMMAND " ∧ 0 ∉ lit "\nBINDING " ∧ 0 ∉ lit "\nEND\n" := by decide
  unfold commandFrame
  intro hc
  split_ifs at hc
  · have hc := List.mem_of_mem_take hc
    simp only [List.mem_append, h0, hlits, or_self] at hc
  · have hc := List.mem_of_mem_take hc
    simp only [List.mem_append, h0, hb, hlits, or_self] at hc

include hcommand in
/-- The service's buffer takes in the whole file. -/
theorem commandRead_commandFrame :
    commandRead (some (commandFrame command binding.val)) = some (commandFrame command binding.val) := by
  have hlt : (commandFrame command binding.val).length < 900 := by
    rw [commandFrame_eq_cut]
    exact length_cut_lt (by norm_num) _
  have hne : commandFrame command binding.val ≠ [] := by
    rw [commandFrame_eq hcommand]
    simp
  rw [commandRead, cut_of_lt (by omega), if_neg hne, cstr_of_nulFree (nulFree_commandFrame hcommand)]

include hcommand hbinding in
/-- **A command reads back**: the service finds the command and the binding that were sent. -/
theorem carries_commandFrame :
    Carries (some (commandFrame command binding.val)) command binding.val := by
  obtain ⟨hlen, -, -⟩ := uiCommands_ok hcommand
  have hfit := binding.fits
  have hfields := commandFields_ok hcommand hbinding
  have hscan (key : String) (cap : ℕ) (hk : sp ∉ lit key) :
      trustFrameField (commandFrame command binding.val) key cap =
        lookup (lit key) cap (commandFields command binding.val) := by
    rw [commandFrame_eq hcommand]
    exact scan_frame hk (isEol_of_all (by decide)) (by decide) (by decide) (isEol_of_all (by decide))
      (by decide) hfields
  refine ⟨_, commandRead_commandFrame hcommand, ?_, ?_⟩
  · have hcut : cut 64 (lit command) = lit command := cut_of_lt (by omega)
    rw [frameCommand, hscan _ _ (by decide), commandFields, lookup, List.findSome?_cons, if_pos rfl,
      hcut]
  · have hcmd : lit "COMMAND" ≠ lit "BINDING" := by decide
    rw [frameBinding, hscan _ _ (by decide), commandFields, lookup, List.findSome?_cons, if_neg hcmd]
    by_cases hnil : binding.val = []
    · rw [if_pos hnil, hnil]
      rfl
    · have hcut : cut 600 binding.val = binding.val := cut_of_lt (by omega)
      rw [if_neg hnil, List.findSome?_cons, if_pos rfl, hcut]
      rfl

/-- What the service is to make of a command: each sets one request, the bound ones only for what waits. -/
def carriedOut (command : String) (binding : Bytes) (g : Globals) : Globals :=
  if command = "RECONNECT" then { g with gTrustReconnectRequested := true }
  else if command = "FORGET" then { g with gTrustForgetRequested := true }
  else if command = "APPROVE" then
    if g.gTrustState = 1 ∧ g.gTrustHostPubPending.val ≠ [] ∧ binding = g.gTrustHostPubPending.val then
      { g with gTrustApproveRequested := true }
    else g
  else if g.gAuthorityPending = true ∧ g.gAuthorityRequestId.val ≠ [] ∧
      binding = g.gAuthorityRequestId.val then
    { g with gAuthorityDecision := if command = "AUTH_APPROVE" then 1 else -1 }
  else g

include hcommand in
/-- A frame with a command and a binding has the effect of that command. -/
theorem commandEffect_eq {frame : Bytes} (hcmd : frameCommand frame = some (lit command)) (g : Globals) :
    commandEffect frame g = carriedOut command (frameBinding frame) g := by
  have hne : ∀ k ∈ uiCommands, ∀ k' ∈ uiCommands, (lit k = lit k' ↔ k = k') := by decide
  unfold commandEffect carriedOut
  rw [hcmd]
  simp only [Bool.or_eq_true, miniStreq_iff, approves_iff, decides_iff,
    hne command hcommand "RECONNECT" (by decide), hne command hcommand "FORGET" (by decide),
    hne command hcommand "APPROVE" (by decide), hne command hcommand "AUTH_APPROVE" (by decide),
    hne command hcommand "AUTH_DENY" (by decide)]
  by_cases h1 : command = "RECONNECT"
  · rw [if_pos h1, if_pos h1]
  by_cases h2 : command = "FORGET"
  · rw [if_neg h1, if_neg h1, if_pos h2, if_pos h2]
  by_cases h3 : command = "APPROVE"
  · rw [if_neg h1, if_neg h1, if_neg h2, if_neg h2, if_pos h3, if_pos h3]
  have hauth : command = "AUTH_APPROVE" ∨ command = "AUTH_DENY" := by
    simp only [uiCommands, List.mem_cons, List.not_mem_nil, or_false] at hcommand
    tauto
  rw [if_neg h1, if_neg h1, if_neg h2, if_neg h2, if_neg h3, if_neg h3, if_pos hauth]

include hcommand hbinding in
/-- **A command is carried out**: the service makes of the file what the command asks, and records the frame. -/
theorem trustUiConsumeCommand_commandFrame (s : Service) :
    trustUiConsumeCommand (some (commandFrame command binding.val)) s =
      { s with
        g := carriedOut command binding.val s.g
        log := .consumed (commandFrame command binding.val) s.g :: s.log } := by
  obtain ⟨frame, hread, hcmd, hbind⟩ := carries_commandFrame hcommand hbinding
  obtain rfl := Option.some.inj ((commandRead_commandFrame hcommand).symm.trans hread)
  rw [trustUiConsumeCommand, hread]
  dsimp only
  rw [commandEffect_eq hcommand hcmd, hbind]

end Command

/-- **ZTRUSTUI/2 round-trips in both directions**: a published state reaches the Activity unchanged,
through buffers that hold it, and a command reaches the service with its binding and is carried out. -/
theorem ztrustui_roundTrip :
    (∀ (g : Globals) (paired : Bool) (u : UiCopy),
      (∀ b ∈ hexBuffers g, b.isSome = true) ∧ stateFrame g paired = stateText g paired ∧
        cstr (cut 7600 (stateFrame g paired)) = stateFrame g paired ∧
        (trustUiSyncFromService (stateFrame g paired) u).1 ≠ -1 ∧
        (trustUiSyncFromService (stateFrame g paired) u).2.g = synced g u.g ∧
        (trustUiSyncFromService (stateFrame g paired) u).2.gTrustPairedHint = paired) ∧
    ∀ command ∈ uiCommands, ∀ binding : CStr 512, (∀ c ∈ binding.val, isEol c = false) →
      Carries (some (commandFrame command binding.val)) command binding.val ∧
        ∀ s, trustUiConsumeCommand (some (commandFrame command binding.val)) s =
          { s with
            g := carriedOut command binding.val s.g
            log := .consumed (commandFrame command binding.val) s.g :: s.log } := by
  refine ⟨?_, fun command hcommand binding hbinding =>
    ⟨carries_commandFrame hcommand hbinding, trustUiConsumeCommand_commandFrame hcommand hbinding⟩⟩
  intro g paired u
  have hfull : (stateFrame g paired).take (stateFrame g paired).length = stateFrame g paired :=
    List.take_length
  have hlong : 10 ≤ (stateFrame g paired).length := by
    rw [stateFrame_eq, stateText, List.length_append]
    exact Nat.le_add_right 10 _
  obtain ⟨hcut, hcstr⟩ := read_stateFrame g paired (stateFrame g paired).length
  obtain ⟨hrc, hglobals, hhint⟩ := (sync_take g paired _ u).2 hlong
  rw [hfull] at hcut hcstr hrc hglobals hhint
  refine ⟨?_, stateFrame_eq, by rw [hcut, hcstr], hrc, ?_, ?_⟩
  · have hfits {n : ℕ} (s : CStr n) (cap : ℕ) (h : 2 * n ≤ cap + 1) :
        (trustHexEncode s.val cap).isSome = true := by
      rw [trustHexEncode_hexOf s h]
      rfl
    intro b hb
    simp only [hexBuffers, List.mem_cons, List.not_mem_nil, or_false] at hb
    rcases hb with rfl | rfl | rfl | rfl | rfl | rfl | rfl | rfl | rfl | rfl | rfl | rfl | rfl
    all_goals exact hfits _ _ (by norm_num)
  · rw [hglobals, uiGlobals_stateFrame]
  · rw [hhint]
    exact uiNumber_flag 2 rfl _

end ZorinTrust
