import ZorinTrust.BridgeSession
import ZorinTrust.Lib.Machine

/-!
# Where the app's bridge token comes from

`bridge_token_from_intent` takes the token of the Intent or the stored one, and `render_core` stores the
token in use once a `STATUS` under it succeeds.  `saved_token` says what can be stored over any number of
starts and renderings beside an agent that requires authentication, `open_agent_saves` what happens beside
one that does not.
-/

namespace ZorinTrust.Bridge

open CText Lines Machine Calls Calls.Monitor

local instance neZeroKept : NeZero 96 := ⟨by decide⟩

/-- `g_bridge_token`, `g_bridge_token_saved` and the preference `bridge_token`. -/
structure Provision where
  gBridgeToken : CStr 96 := .put 96 []
  gBridgeTokenSaved : Bool := false
  bridgeToken : Option Bytes := none

/-- `bridge_token_from_intent`. -/
def Provision.fromIntent (p : Provision) (extra : Option Bytes) : Provision :=
  let intent : CStr 96 := .put 96 (extra.getD [])
  if intent.val.length < 16 then
    match p.bridgeToken with
    | none => { p with gBridgeToken := intent, gBridgeTokenSaved := false }
    | some saved =>
      { p with gBridgeToken := .put 96 saved, gBridgeTokenSaved := 16 ≤ (CStr.put 96 saved).val.length }
  else { p with gBridgeToken := intent, gBridgeTokenSaved := false }

/-- `bridge_save_authenticated_token`. -/
def Provision.saveAuthenticated (p : Provision) : Provision :=
  if p.gBridgeTokenSaved ∨ p.gBridgeToken.val.length < 16 then p
  else { p with bridgeToken := some p.gBridgeToken.val, gBridgeTokenSaved := true }

/-- `render_core`, for the codes of its HELLO and its STATUS. -/
def Provision.renderCore (p : Provision) (hello br : ℤ) : Provision :=
  if hello = 0 ∧ br = 0 then p.saveAuthenticated else p

/-- A start of the app with the token of its Intent, or a rendering. -/
inductive TokenLabel
  | start (extra : Option Bytes)
  | core (hello br : ℤ)

def Provision.next : TokenLabel → Provision → Option Provision
  | .start extra, p => some (p.fromIntent extra)
  | .core hello br, p => some (p.renderCore hello br)

/-- A code of `STATUS` under `token` beside the agent `g`: a failure, or the answer of a whole exchange. -/
def StatusCode (g : Agent) (token : CStr 96) (br : ℤ) : Prop :=
  br ≠ 0 ∨ ∃ fuel wire text r, Requests token (lit "STATUS") 2048 wire text r ∧ Serves g fuel wire text ∧
    r.1 = br

/-- Tokens have no spaces, and the codes are those of the agent. -/
def TokenOk (g : Agent) (p : Provision) : TokenLabel → Prop
  | .start extra => ∀ t ∈ extra, sp ∉ t
  | .core _ br => StatusCode g p.gBridgeToken br

variable {g : Agent} {p q : Provision}

theorem fromIntent_token (p : Provision) (extra : Option Bytes) :
    (p.fromIntent extra).gBridgeToken = bridgeTokenFromIntent extra p.bridgeToken := by
  unfold Provision.fromIntent bridgeTokenFromIntent
  dsimp only
  split_ifs
  · cases p.bridgeToken <;> rfl
  · rfl

theorem fromIntent_stored (p : Provision) (extra : Option Bytes) :
    (p.fromIntent extra).bridgeToken = p.bridgeToken := by
  unfold Provision.fromIntent
  dsimp only
  split_ifs
  · split
    · rfl
    · rfl
  · rfl

theorem sp_notMem_put {t : Bytes} (h : sp ∉ t) : sp ∉ (CStr.put 96 t).val := fun hsp =>
  h ((cstr_isPrefix t).subset (List.mem_of_mem_take hsp))

/-- The token in use has no space when the tokens it can come from have none. -/
theorem sp_notMem_fromIntent {extra saved : Option Bytes} (hextra : ∀ t ∈ extra, sp ∉ t)
    (hsaved : ∀ t ∈ saved, sp ∉ t) : sp ∉ (bridgeTokenFromIntent extra saved).val := by
  have hintent : sp ∉ (CStr.put 96 (extra.getD [])).val := by
    cases extra with
    | none => exact sp_notMem_put List.not_mem_nil
    | some t => exact sp_notMem_put (hextra t rfl)
  unfold bridgeTokenFromIntent
  dsimp only
  split_ifs
  · cases saved with
    | none => exact hintent
    | some t => exact sp_notMem_put (hsaved t rfl)
  · exact hintent

/-- **What a successful `STATUS` says**: the agent has the token. -/
theorem token_of_status (hauth : g.gRequireAuth = true) {token : CStr 96} (hsp : sp ∉ token.val)
    (h : StatusCode g token 0) : token = g.gToken := by
  obtain h | ⟨fuel, wire, text, r, hreq, hserve, hcode⟩ := h
  · exact absurd rfl h
  · by_contra hne
    obtain ⟨hwire, rfl⟩ := hreq.eq (by norm_num)
    obtain ⟨fd, s, tr, -, -, -, hrun, -, hafter⟩ := hserve.exec
    rw [handleClient_wire (c := .status) hauth (by decide) hsp hwire, if_neg hne] at hrun
    rw [sent_of_sendText hrun hafter, bridgeReply_refused (by norm_num)] at hcode
    exact absurd hcode (by decide)

/-- The stored token is the one found at the start, or the agent's. -/
structure Provisioned (g : Agent) (found : Option Bytes) (p : Provision) : Prop where
  inUse : sp ∉ p.gBridgeToken.val
  stored : p.bridgeToken = found ∨
    p.bridgeToken = some g.gToken.val ∧ 16 ≤ g.gToken.val.length ∧ sp ∉ g.gToken.val

variable {found : Option Bytes}

theorem Provisioned.noSpace (h : Provisioned g found p) (hfound : ∀ t ∈ found, sp ∉ t) :
    ∀ t ∈ p.bridgeToken, sp ∉ t := by
  intro t ht
  obtain hsame | ⟨hstored, -, hsp⟩ := h.stored
  · exact hfound t (hsame ▸ ht)
  · rw [hstored] at ht
    obtain rfl := Option.some.inj ht
    exact hsp

/-- One step. -/
theorem Provisioned.step (hauth : g.gRequireAuth = true) (hfound : ∀ t ∈ found, sp ∉ t) {l : TokenLabel}
    (h : Provisioned g found p) (hok : TokenOk g p l) (hnext : Provision.next l p = some q) :
    Provisioned g found q := by
  cases l with
  | start extra =>
    obtain rfl := Option.some.inj hnext
    refine ⟨?_, ?_⟩
    · rw [fromIntent_token]
      exact sp_notMem_fromIntent hok (h.noSpace hfound)
    · rw [fromIntent_stored]
      exact h.stored
  | core hello br =>
    obtain rfl := Option.some.inj hnext
    unfold Provision.renderCore Provision.saveAuthenticated
    split_ifs with hcodes hkeep
    · exact h
    · -- the token is stored, so the `STATUS` under it has succeeded
      obtain ⟨-, rfl⟩ := hcodes
      obtain ⟨-, hlen⟩ := not_or.mp hkeep
      have htoken := token_of_status hauth h.inUse hok
      exact ⟨h.inUse, .inr ⟨congrArg (fun t : CStr 96 => some t.val) htoken, htoken ▸ not_lt.mp hlen,
        htoken ▸ h.inUse⟩⟩
    · exact h

/-- The reply to a command the agent does not know. -/
def unknownReply : Bytes :=
  lit ("ERR unknown-command; allowed=HELLO,STATUS,SERVICES,KERNEL," ++
    "NETWORK,SECURITY,FILESYSTEM,PROCESS,REPORT,PROBES,PROCFS\n")

/-- An agent that requires no authentication takes the line with the token for the command. -/
theorem open_agent_unknown (hopen : g.gRequireAuth = false) {token : CStr 96} {wire : Bytes} {c : AgentCommand}
    (hc : c ≠ .hello) (hwire : bridgeWire token c.name = some wire) : handleClient g wire = .unknown := by
  have hne : wire ≠ [] := by
    rintro rfl
    exact absurd (trim_wire hc hwire) (List.ne_nil_of_length_pos (by simp [lit])).symm
  have hhead : ∀ rest : Bytes, ∀ d : AgentCommand, lit "AUTH " ++ rest ≠ d.name := by
    intro rest d h
    have hfirst : d.name.head? = some 65 := h ▸ rfl
    revert hfirst
    cases d <;> decide
  have hauthorize : authorize g (cstr (cut 512 wire)) = some (lit "AUTH " ++ (token.val ++ sp :: c.name)) := by
    unfold authorize
    dsimp only
    simp only [trim_wire hc hwire, hopen, Bool.not_false, ↓reduceIte, ite_self]
  have hfind : agentCommands.find? (fun d => streq (lit "AUTH " ++ (token.val ++ sp :: c.name)) d.name) =
      none := by
    refine List.find?_eq_none.mpr fun d _ h => hhead _ d (streq_iff.mp h)
  rw [handleClient, if_neg hne, hauthorize]
  dsimp only
  rw [hfind]

set_option maxRecDepth 4000 in
/-- The app takes it for a success. -/
theorem bridgeReply_unknown : (bridgeReply unknownReply 2048).1 = 0 := by decide

/-- **Without authentication any token passes for authenticated.**  An agent started with
`--insecure-localhost` does not know the line `AUTH token STATUS`, but the app takes its answer for a
`STATUS` and stores whatever token it has. -/
theorem open_agent_saves (hopen : g.gRequireAuth = false) {wire text : Bytes} {r : ℤ × Bytes} {fuel : ℕ}
    (hlen : 16 ≤ p.gBridgeToken.val.length) (hreq : Requests p.gBridgeToken (lit "STATUS") 2048 wire text r)
    (hserve : Serves g fuel wire text) : text = unknownReply ∧ r.1 = 0 ∧
      (p.gBridgeTokenSaved = false → (p.renderCore 0 r.1).bridgeToken = some p.gBridgeToken.val) := by
  obtain ⟨hwire, rfl⟩ := hreq.eq (by norm_num)
  obtain ⟨fd, s, tr, -, -, -, hrun, -, hafter⟩ := hserve.exec
  rw [open_agent_unknown (c := .status) hopen (by decide) hwire] at hrun
  have htext : text = unknownReply := sent_of_sendText hrun hafter
  have hcode : (bridgeReply text 2048).1 = 0 := htext ▸ bridgeReply_unknown
  refine ⟨htext, hcode, fun hnew => ?_⟩
  rw [hcode, Provision.renderCore, if_pos ⟨rfl, rfl⟩, Provision.saveAuthenticated,
    if_neg (not_or.mpr ⟨by rw [hnew]; decide, not_lt.mpr hlen⟩)]

theorem open_agent_saves_any : ∃ (text : Bytes) (r : ℤ × Bytes), text = unknownReply ∧ r.1 = 0 ∧
    ((({} : Provision).fromIntent (some (lit "0123456789abcdef"))).renderCore 0 r.1).bridgeToken =
      some (lit "0123456789abcdef") := by
  have hserve : Serves { gRequireAuth := false } 0 keyedWire unknownReply := by
    have hopen : (Proc.boot.opened 4 .socket).fds 4 = some .socket := opened_self
    have hnext : (kernel fun _ => True).next (Proc.boot.opened 4 .socket) (.read 4 511) (some keyedWire) =
        (Proc.boot.opened 4 .socket).asked (some keyedWire) := next_read hopen 511 (some keyedWire)
    have hshort : keyedWire.length < 384 := length_cut_lt (by norm_num) _
    refine ⟨4, Proc.boot.opened 4 .socket, [⟨.write 4 unknownReply, ()⟩], rfl, hopen, ?_, ?_, ?_⟩
    · refine Exec.perform_bind ?_
      dsimp only
      rw [open_agent_unknown (c := .status) rfl (by decide) keyedWire_eq]
      exact .call (.done ())
    · refine ⟨fun t ht => ?_, trivial, trivial⟩
      obtain rfl := Option.some.inj ht
      omega
    · show ((kernel fun _ => True).after ((kernel fun _ => True).next _ _ _) _).sent = _
      rw [hnext]
      rfl
  have hlen : unknownReply.length = 115 := by simp [unknownReply, lit]
  have hreq := requests_onePiece keyedWire_eq (List.ne_nil_of_length_pos (hlen ▸ by norm_num))
    (show unknownReply.length < 2048 - 1 by omega)
  obtain ⟨htext, hcode, hsaved⟩ := open_agent_saves (g := { gRequireAuth := false })
    (p := ({} : Provision).fromIntent (some (lit "0123456789abcdef"))) rfl (by decide) hreq hserve
  exact ⟨unknownReply, _, htext, hcode, hsaved (by decide)⟩

end ZorinTrust.Bridge
