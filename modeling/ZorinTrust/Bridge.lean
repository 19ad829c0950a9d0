import ZorinTrust.Codec
import ZorinTrust.Lib.Delimited
import ZorinTrust.Lib.Lines

/-!
# The bridge between the app and the shell agent

`native_core.c` sends a command to the agent with `bridge_request`, `agent.c` reads it with
`handle_client` and checks it with `authorize`.  Token and command share one line of text; each side
keeps the first 95 bytes of the token.  `bridge_agreement` says which requests reach which command.
-/

namespace ZorinTrust.Bridge

open CText Delimited Lines

local instance neZeroToken : NeZero 96 := ⟨by decide⟩

/-! ### The agent's text functions -/

/-- `streq`. -/
def streq : Bytes → Bytes → Bool
  | a :: s, b :: t => a == b && streq s t
  | s, t => s == [] && t == []

/-- `streq_prefix`. -/
def streqPrefix : Bytes → Bytes → Bool
  | _, [] => true
  | a :: s, b :: t => a == b && streqPrefix s t
  | [], _ :: _ => false

/-- The bytes `trim` takes off the end. -/
def isTrimmed (c : UInt8) : Bool := c == 10 || c == 13 || c == sp || c == 9

/-- `trim`. -/
def trim (s : Bytes) : Bytes := s.rdropWhile isTrimmed

/-- The loop of `token_equal`: `enda` and `endb` are set at the terminators. -/
def tokenEqualLoop : ℕ → Bytes → Bytes → Bool → Bool → UInt8 → UInt8
  | 0, _, _, _, _, diff => diff
  | n + 1, a, b, enda, endb, diff =>
    let ca := if enda then 0 else a.headD 0
    let cb := if endb then 0 else b.headD 0
    tokenEqualLoop n a.tail b.tail (enda || ca == 0) (endb || cb == 0) (diff ||| (ca ^^^ cb))

/-- `token_equal`. -/
def tokenEqual (a b : Bytes) : Bool := tokenEqualLoop 95 a b false false 0 == 0

/-! ### The agent -/

/-- The commands of `handle_client`. -/
inductive AgentCommand
  | hello
  | status
  | services
  | kernel
  | network
  | security
  | filesystem
  | process
  | report
  | probes
  | procfs
  deriving DecidableEq

def AgentCommand.name : AgentCommand → Bytes
  | .hello => lit "HELLO"
  | .status => lit "STATUS"
  | .services => lit "SERVICES"
  | .kernel => lit "KERNEL"
  | .network => lit "NETWORK"
  | .security => lit "SECURITY"
  | .filesystem => lit "FILESYSTEM"
  | .process => lit "PROCESS"
  | .report => lit "REPORT"
  | .probes => lit "PROBES"
  | .procfs => lit "PROCFS"

/-- The comparisons of `handle_client`, in order. -/
def agentCommands : List AgentCommand :=
  [.hello, .status, .services, .kernel, .network, .security, .filesystem, .process, .report, .probes,
    .procfs]

/-- The globals of `agent.c`, and `allow_root` of its `main`. -/
structure Agent where
  gToken : CStr 96 := .put 96 []
  gRequireAuth : Bool := true
  allowRoot : Bool := false

/-- What `handle_client` does with a request. -/
inductive Dispatch
  /-- The read failed or found the end of the stream. -/
  | closed
  /-- `ERR auth-required-or-failed` -/
  | refused
  | command (c : AgentCommand)
  /-- `ERR unknown-command` -/
  | unknown
  deriving DecidableEq

/-- `authorize`: where the command starts in the request. -/
def authorize (g : Agent) (cmd : Bytes) : Option Bytes :=
  let cmd := trim cmd
  if streq cmd (lit "HELLO") then some cmd
  else if !g.gRequireAuth then some cmd
  else if !streqPrefix cmd (lit "AUTH ") then none
  else
    let token := (cmd.drop 5).takeWhile (· != sp)
    let p := (cmd.drop 5).dropWhile (· != sp)
    if p = [] then none
    else
      let p := p.tail.dropWhile (· == sp)
      if !tokenEqual token g.gToken.val then none else some p

/-- `handle_client` on the bytes its `read` returns. -/
def handleClient (g : Agent) (req : Bytes) : Dispatch :=
  if req = [] then .closed
  else
    match authorize g (cstr (cut 512 req)) with
    | none => .refused
    | some cmd =>
      match agentCommands.find? fun c => streq cmd c.name with
      | some c => .command c
      | none => .unknown

/-- The argument loop of `main`; the value of `--port` only places the socket. -/
def agentArgs : List Bytes → Agent → Agent
  | [], g => g
  | [a], g =>
    if streq a (lit "--allow-root") then { g with allowRoot := true }
    else if streq a (lit "--insecure-localhost") then { g with gRequireAuth := false }
    else g
  | a :: b :: args, g =>
    if streq a (lit "--allow-root") then agentArgs (b :: args) { g with allowRoot := true }
    else if streq a (lit "--insecure-localhost") then agentArgs (b :: args) { g with gRequireAuth := false }
    else if streq a (lit "--port") then agentArgs args g
    else if streq a (lit "--token") then agentArgs args { g with gToken := .put 96 b }
    else agentArgs (b :: args) g

/-- `main` up to its socket: the exit code, or the agent that listens. -/
def agentStart (uid : ℕ) (args : List Bytes) : Except ℤ Agent :=
  let g := agentArgs args {}
  if uid = 0 ∧ g.allowRoot = false then .error 13
  else if g.gRequireAuth = true ∧ g.gToken.val.length < 16 then .error 14
  else .ok g

/-! ### The app -/

/-- `bridge_token_from_intent`: the token of the Intent, or the saved one when it is too short. -/
def bridgeTokenFromIntent (extra saved : Option Bytes) : CStr 96 :=
  let intent : CStr 96 := .put 96 (extra.getD [])
  if intent.val.length < 16 then (saved.map (CStr.put 96)).getD intent else intent

/-- The `wire` text `bridge_request` sends; `none` is its return code 401. -/
def bridgeWire (gBridgeToken : CStr 96) (command : Bytes) : Option Bytes :=
  if miniStreq command (lit "HELLO") then some (cut 384 (lit "HELLO\n"))
  else if gBridgeToken.val = [] then none
  else some (cut 384 (lit "AUTH " ++ gBridgeToken.val ++ sp :: (command ++ [10])))

/-! ### The text functions -/

@[simp] theorem streq_iff : ∀ {a b : Bytes}, streq a b = true ↔ a = b
  | [], [] => by simp [streq]
  | [], _ :: _ => by simp [streq]
  | _ :: _, [] => by simp [streq]
  | a :: s, b :: t => by simp [streq, streq_iff (a := s) (b := t)]

@[simp] theorem streqPrefix_iff : ∀ {a b : Bytes}, streqPrefix a b = true ↔ b <+: a
  | a, [] => by simp [streqPrefix]
  | [], b :: t => by simp [streqPrefix]
  | a :: s, b :: t => by
    simp only [streqPrefix, Bool.and_eq_true, beq_iff_eq, streqPrefix_iff (a := s) (b := t),
      List.cons_prefix_cons]
    exact and_congr_left fun _ => eq_comm

/-- The text a side of the comparison still has. -/
def remaining (ended : Bool) (a : Bytes) : Bytes := if ended then [] else a

/-- One turn takes one byte off what remains. -/
theorem remaining_tail {a : Bytes} (h : 0 ∉ a) (ended : Bool) :
    remaining (ended || (if ended then 0 else a.headD 0) == 0) a.tail = (remaining ended a).tail := by
  cases ended with
  | true => rfl
  | false =>
    cases a with
    | nil => rfl
    | cons x t =>
      have hx : x ≠ 0 := by rintro rfl; exact h List.mem_cons_self
      simp [remaining, hx]

theorem remaining_head (ended : Bool) (a : Bytes) :
    (if ended then 0 else a.headD 0) = (remaining ended a).headD 0 := by
  cases ended <;> rfl

theorem zero_notMem_remaining {a : Bytes} (h : 0 ∉ a) (ended : Bool) : 0 ∉ remaining ended a := by
  cases ended with
  | true => exact List.not_mem_nil
  | false => exact h

/-- Two texts agree on `n + 1` bytes when their first bytes agree, the terminator included, and so do
`n` bytes of the rest. -/
theorem take_succ_eq_iff {x y : Bytes} (hx : 0 ∉ x) (hy : 0 ∉ y) (n : ℕ) :
    x.take (n + 1) = y.take (n + 1) ↔ x.headD 0 = y.headD 0 ∧ x.tail.take n = y.tail.take n := by
  cases x with
  | nil =>
    cases y with
    | nil => simp
    | cons b t =>
      have hb : 0 ≠ b := by rintro rfl; exact hy List.mem_cons_self
      simp [hb]
  | cons a s =>
    have ha : a ≠ 0 := by rintro rfl; exact hx List.mem_cons_self
    cases y with
    | nil => simp [ha]
    | cons b t => simp

/-- The accumulator stays zero as long as the two texts agree. -/
theorem tokenEqualLoop_eq_zero : ∀ (n : ℕ) (a b : Bytes) (enda endb : Bool) (diff : UInt8),
    0 ∉ a → 0 ∉ b → (tokenEqualLoop n a b enda endb diff = 0 ↔
      diff = 0 ∧ (remaining enda a).take n = (remaining endb b).take n)
  | 0, a, b, enda, endb, diff, _, _ => by simp [tokenEqualLoop]
  | n + 1, a, b, enda, endb, diff, ha, hb => by
    rw [tokenEqualLoop, tokenEqualLoop_eq_zero n _ _ _ _ _ (fun h => ha (List.mem_of_mem_tail h))
      (fun h => hb (List.mem_of_mem_tail h)), remaining_tail ha, remaining_tail hb, remaining_head,
      remaining_head, UInt8.or_eq_zero_iff, UInt8.xor_eq_zero_iff, and_assoc,
      take_succ_eq_iff (zero_notMem_remaining ha enda) (zero_notMem_remaining hb endb)]

theorem tokenEqual_iff {a b : Bytes} (ha : 0 ∉ a) (hb : 0 ∉ b) :
    tokenEqual a b = true ↔ a.take 95 = b.take 95 := by
  rw [tokenEqual, beq_iff_eq, tokenEqualLoop_eq_zero 95 a b false false 0 ha hb]
  simp [remaining]

/-! ### What `authorize` accepts -/

/-- `AUTH`, a token whose first 95 bytes are the agent's, one space or more, the command. -/
def Presents (token text command : Bytes) : Prop :=
  ∃ u gap, text = lit "AUTH " ++ (u ++ (gap ++ command)) ∧ sp ∉ u ∧ u.take 95 = token ∧ gap ≠ [] ∧
    ∀ c ∈ gap, c = sp

variable {g : Agent} {buf command : Bytes}

theorem zero_notMem_trim (h : 0 ∉ buf) : 0 ∉ trim buf := fun h0 =>
  h ((List.rdropWhile_prefix isTrimmed buf).subset h0)

theorem token_take (token : CStr 96) : token.val.take 95 = token.val :=
  List.take_of_length_le (Nat.le_of_lt_succ token.fits)

/-- **`authorize` reads the line**: what it hands to the dispatcher is the command under the token. -/
theorem presents_of_authorize (hauth : g.gRequireAuth = true) (h0 : 0 ∉ buf)
    (hhello : command ≠ lit "HELLO") (h : authorize g buf = some command) :
    Presents g.gToken.val (trim buf) command := by
  have htrim := zero_notMem_trim h0
  unfold authorize at h
  dsimp only at h
  generalize trim buf = text at h htrim ⊢
  split_ifs at h with h1 h2 h3 h4 h5
  · exact absurd ((Option.some.inj h).symm.trans (streq_iff.mp h1)) hhello
  · rw [hauth] at h2
    exact absurd h2 (by decide)
  · obtain ⟨rest, rfl⟩ := streqPrefix_iff.mp (by simpa using h3)
    have hdrop : (lit "AUTH " ++ rest).drop 5 = rest := rfl
    rw [hdrop] at h h4 h5
    have hrest := (firstSegment sp rest).resolve_left fun hall => h4 hall.2
    have hu : 0 ∉ rest.takeWhile (· != sp) := fun hu =>
      htrim (List.mem_append_right _ ((List.takeWhile_prefix _).subset hu))
    have hequal : tokenEqual (rest.takeWhile (· != sp)) g.gToken.val = true := by simpa using h5
    refine ⟨rest.takeWhile (· != sp), sp :: (rest.dropWhile (· != sp)).tail.takeWhile (· == sp), ?_,
      sep_notMem_takeWhile sp rest, ?_, List.cons_ne_nil _ _, ?_⟩
    · rw [← Option.some.inj h, List.cons_append, List.takeWhile_append_dropWhile, ← hrest]
    · rw [(tokenEqual_iff hu g.gToken.nulFree).mp hequal, token_take]
    · intro c hc
      rcases List.mem_cons.mp hc with rfl | hc
      · rfl
      · simpa using List.mem_takeWhile_imp hc

/-- The token of a presented line ends at its first space. -/
theorem split_token {u gap rest : Bytes} (hu : sp ∉ u) (hgap : gap ≠ []) (hsp : ∀ c ∈ gap, c = sp) :
    (u ++ (gap ++ rest)).takeWhile (· != sp) = u ∧
      (u ++ (gap ++ rest)).dropWhile (· != sp) = gap ++ rest := by
  obtain ⟨c, gap, rfl⟩ := List.exists_cons_of_ne_nil hgap
  obtain rfl := hsp c List.mem_cons_self
  have hall : ∀ x ∈ u, (x != sp) = true := by
    intro x hx
    rw [bne_iff_ne]
    rintro rfl
    exact hu hx
  rw [List.takeWhile_append_of_pos hall, List.dropWhile_append_of_pos hall]
  simp

/-- The command of a presented line starts at the first byte that is no space. -/
theorem skip_gap {gap : Bytes} (hgap : gap ≠ []) (hsp : ∀ c ∈ gap, c = sp)
    (hcommand : command.head? ≠ some sp) : (gap ++ command).tail.dropWhile (· == sp) = command := by
  obtain ⟨c, gap, rfl⟩ := List.exists_cons_of_ne_nil hgap
  have hall : ∀ x ∈ gap, (x == sp) = true := by
    intro x hx
    rw [beq_iff_eq]
    exact hsp x (List.mem_cons_of_mem _ hx)
  rw [List.cons_append, List.tail_cons, List.dropWhile_append_of_pos hall]
  cases command with
  | nil => rfl
  | cons x t =>
    have hx : ¬ (x == sp) = true := by simpa using hcommand
    exact List.dropWhile_cons_of_neg hx

/-- **`authorize` accepts the line** of a command under the agent's token. -/
theorem authorize_of_presents (hauth : g.gRequireAuth = true) (h0 : 0 ∉ buf)
    (hcommand : command.head? ≠ some sp) (h : Presents g.gToken.val (trim buf) command) :
    authorize g buf = some command := by
  obtain ⟨u, gap, htext, hu, htoken, hgap, hsp⟩ := h
  have htrim := zero_notMem_trim h0
  obtain ⟨htake, hdrop⟩ : (u ++ (gap ++ command)).takeWhile (· != sp) = u ∧
      (u ++ (gap ++ command)).dropWhile (· != sp) = gap ++ command := split_token hu hgap hsp
  have hhello : lit "AUTH " ++ (u ++ (gap ++ command)) ≠ lit "HELLO" := by
    intro heq
    have hhead : (some 65 : Option UInt8) = some 72 := congrArg List.head? heq
    exact absurd hhead (by decide)
  rw [htext] at htrim
  have hfive : (lit "AUTH " ++ (u ++ (gap ++ command))).drop 5 = u ++ (gap ++ command) := rfl
  have hequal : tokenEqual u g.gToken.val = true := by
    refine (tokenEqual_iff ?_ g.gToken.nulFree).mpr ?_
    · exact fun h => htrim (List.mem_append_right _ (List.mem_append_left _ h))
    · rw [htoken, token_take]
  have hprefix : streqPrefix (lit "AUTH " ++ (u ++ (gap ++ command))) (lit "AUTH ") = true :=
    streqPrefix_iff.mpr (List.prefix_append _ _)
  have hne : gap ++ command ≠ [] := List.append_ne_nil_of_left_ne_nil hgap _
  unfold authorize
  dsimp only
  rw [htext, if_neg fun h => hhello (streq_iff.mp h), hauth, Bool.not_true,
    if_neg Bool.false_ne_true, hprefix, Bool.not_true, if_neg Bool.false_ne_true, hfive, htake, hdrop,
    if_neg hne, hequal, Bool.not_true, if_neg Bool.false_ne_true, skip_gap hgap hsp hcommand]

/-! ### Dispatch -/

/-- The name of a command starts with no space, ends with no byte that is trimmed, and is short. -/
theorem name_ok (c : AgentCommand) : c.name.head? ≠ some sp ∧ c.name.length ≤ 10 ∧ 0 ∉ c.name ∧
    c.name.getLast?.any (!isTrimmed ·) = true := by
  cases c <;> decide

theorem find_name (c : AgentCommand) : (agentCommands.find? fun d => streq c.name d.name) = some c := by
  cases c <;> decide

theorem name_ne_hello {c : AgentCommand} (h : c ≠ .hello) : c.name ≠ lit "HELLO" := by
  cases c with
  | hello => exact absurd rfl h
  | _ => decide

/-- The dispatcher runs a command exactly on its name. -/
theorem handleClient_eq_command {req : Bytes} {c : AgentCommand} :
    handleClient g req = .command c ↔
      req ≠ [] ∧ authorize g (cstr (cut 512 req)) = some c.name := by
  unfold handleClient
  by_cases hreq : req = []
  · rw [if_pos hreq]
    exact ⟨nofun, fun h => absurd hreq h.1⟩
  rw [if_neg hreq, and_iff_right hreq]
  cases hcmd : authorize g (cstr (cut 512 req)) with
  | none => exact ⟨nofun, nofun⟩
  | some cmd =>
    dsimp only
    constructor
    · intro h
      cases hfind : agentCommands.find? fun d => streq cmd d.name with
      | none => rw [hfind] at h; cases h
      | some d =>
        rw [hfind] at h
        obtain rfl := Dispatch.command.inj h
        have hname : streq cmd d.name = true :=
          List.find?_some (p := fun d : AgentCommand => streq cmd d.name) hfind
        exact congrArg some (streq_iff.mp hname)
    · intro h
      rw [Option.some.inj h, find_name]

/-- **Which requests reach a command**: with authentication required, a command other than HELLO runs
exactly on the requests that present it under the agent's token. -/
theorem handleClient_iff_presents {req : Bytes} {c : AgentCommand} (hauth : g.gRequireAuth = true)
    (hc : c ≠ .hello) : handleClient g req = .command c ↔
      Presents g.gToken.val (trim (cstr (cut 512 req))) c.name := by
  rw [handleClient_eq_command]
  have h0 := zero_notMem_cstr (cut 512 req)
  obtain ⟨hhead, -, -, -⟩ := name_ok c
  constructor
  · rintro ⟨-, h⟩
    exact presents_of_authorize hauth h0 (name_ne_hello hc) h
  · intro h
    refine ⟨?_, authorize_of_presents hauth h0 hhead h⟩
    rintro rfl
    obtain ⟨u, gap, htext, -⟩ := h
    exact absurd htext (List.ne_nil_of_length_pos (by simp [lit])).symm

/-! ### The two ends together -/

/-- The app keeps of a token what the agent keeps. -/
theorem bridgeTokenFromIntent_of_long {token : Bytes} {saved : Option Bytes} (h0 : 0 ∉ token)
    (h : 16 ≤ token.length) : bridgeTokenFromIntent (some token) saved = .put 96 token := by
  have hlen : ¬ (CStr.put 96 token).val.length < 16 := by
    rw [CStr.put_val, cstr_of_nulFree h0, cut, List.length_take]
    omega
  rw [bridgeTokenFromIntent, Option.getD_some]
  exact if_neg hlen

/-- The agent starts with a token that is long enough. -/
theorem agentStart_token (uid : ℕ) (token : Bytes) (huid : uid ≠ 0) (h0 : 0 ∉ token)
    (h : 16 ≤ token.length) :
    agentStart uid [lit "--token", token] = .ok { gToken := .put 96 token } := by
  have hargs : agentArgs [lit "--token", token] {} = { gToken := .put 96 token } := by
    rw [agentArgs, if_neg (by decide), if_neg (by decide), if_neg (by decide), if_pos (by decide),
      agentArgs]
  have hlen : ¬ (CStr.put 96 token).val.length < 16 := by
    rw [CStr.put_val, cstr_of_nulFree h0, cut, List.length_take]
    omega
  rw [agentStart, hargs]
  dsimp only
  rw [if_neg fun h => huid h.1, if_neg fun h => hlen h.2]

/-- `trim` takes the line feed off a line that ends with a name. -/
theorem trim_name (line : Bytes) (c : AgentCommand) : trim (line ++ c.name ++ [10]) = line ++ c.name := by
  obtain ⟨-, -, -, hlast⟩ := name_ok c
  obtain ⟨x, hx, hkeep⟩ := (Option.any_eq_true _ _).mp hlast
  obtain ⟨init, hname⟩ := List.getLast?_eq_some_iff.mp hx
  have hx : ¬ isTrimmed x = true := by simpa using hkeep
  rw [trim, List.rdropWhile_concat_pos _ _ _ (by decide), hname, ← List.append_assoc,
    List.rdropWhile_concat_neg _ _ _ hx]

/-- **The wire text presents the command** under the token that was sent. -/
theorem presents_wire (token : CStr 96) (c : AgentCommand) (hsp : sp ∉ token.val) :
    Presents token.val (trim (cstr (cut 512
      (cut 384 (lit "AUTH " ++ token.val ++ sp :: (c.name ++ [10])))))) c.name := by
  obtain ⟨-, hlen, h0, -⟩ := name_ok c
  have hfit := token.fits
  have hline : lit "AUTH " ++ token.val ++ sp :: (c.name ++ [10]) =
      lit "AUTH " ++ token.val ++ [sp] ++ c.name ++ [10] := by simp
  have hshort : (lit "AUTH " ++ token.val ++ [sp] ++ c.name ++ [10]).length < 384 := by
    have hauth : (lit "AUTH ").length = 5 := rfl
    simp only [List.length_append, List.length_singleton]
    omega
  have hnul : 0 ∉ lit "AUTH " ++ token.val ++ [sp] ++ c.name ++ [10] := by
    have hauth : 0 ∉ lit "AUTH " := by decide
    have hspace : (0 : UInt8) ≠ sp := by decide
    simp [hauth, hspace, token.nulFree, h0]
  rw [hline, cut_of_lt hshort, cut_of_lt (by omega), cstr_of_nulFree hnul, trim_name]
  refine ⟨token.val, [sp], by simp, hsp, token_take token, List.cons_ne_nil _ _, ?_⟩
  intro x hx
  exact List.mem_singleton.mp hx

/-- **The bridge agrees on authentication.**  A command the app sends under the agent's token runs, and
with authentication required no command but HELLO runs unless the request presents it under that
token. -/
theorem bridge_agreement :
    (∀ (uid : ℕ) (args : List Bytes) (g : Agent) (token : Bytes) (saved : Option Bytes) (c : AgentCommand),
      agentStart uid args = .ok g → g.gRequireAuth = true → g.gToken = .put 96 token →
      16 ≤ token.length → sp ∉ token → 0 ∉ token → c ≠ .hello →
      ∃ wire, bridgeWire (bridgeTokenFromIntent (some token) saved) c.name = some wire ∧
        handleClient g wire = .command c) ∧
    (∀ (g : Agent) (req : Bytes) (c : AgentCommand), g.gRequireAuth = true → c ≠ .hello →
      handleClient g req = .command c →
      Presents g.gToken.val (trim (cstr (cut 512 req))) c.name) := by
  refine ⟨?_, fun g req c hauth hc h => (handleClient_iff_presents hauth hc).mp h⟩
  intro uid args g token saved c _ hauth htoken hlen hsp h0 hc
  have hstored : (CStr.put 96 token).val = token.take 95 := by
    rw [CStr.put_val, cstr_of_nulFree h0, cut]
  have hne : (CStr.put 96 token).val ≠ [] := by
    apply List.ne_nil_of_length_pos
    rw [hstored, List.length_take]
    omega
  have hspace : sp ∉ (CStr.put 96 token).val := by
    rw [hstored]
    exact fun h => hsp (List.mem_of_mem_take h)
  refine ⟨cut 384 (lit "AUTH " ++ (CStr.put 96 token).val ++ sp :: (c.name ++ [10])), ?_, ?_⟩
  · rw [bridgeTokenFromIntent_of_long h0 hlen, bridgeWire,
      if_neg fun h => name_ne_hello hc (miniStreq_iff.mp h), if_neg hne]
  · rw [handleClient_iff_presents hauth hc, htoken]
    exact presents_wire _ c hspace

/-- STATUS under a token of sixteen bytes, with the agent started by `--token`. -/
theorem bridge_agreement_status : ∃ wire,
    bridgeWire (bridgeTokenFromIntent (some (lit "0123456789abcdef")) none) (lit "STATUS") = some wire ∧
      handleClient { gToken := .put 96 (lit "0123456789abcdef") } wire = .command .status ∧
      Presents (lit "0123456789abcdef") (trim (cstr (cut 512 wire))) (lit "STATUS") := by
  have hstart := agentStart_token 2000 (lit "0123456789abcdef") (by decide) (by decide) (by decide)
  obtain ⟨hsent, hread⟩ := bridge_agreement
  obtain ⟨wire, hwire, hrun⟩ := hsent 2000 [lit "--token", lit "0123456789abcdef"] _
    (lit "0123456789abcdef") none .status hstart rfl rfl (by decide) (by decide) (by decide) (by decide)
  exact ⟨wire, hwire, hrun, hread _ wire .status rfl (by decide) hrun⟩

/-- Two spaces before the command: it runs, and the line is not the token, one space and the command. -/
theorem bridge_two_spaces : ¬ ∀ (g : Agent) (req : Bytes) (c : AgentCommand), g.gRequireAuth = true →
    c ≠ .hello → handleClient g req = .command c →
    ∃ u, trim (cstr (cut 512 req)) = lit "AUTH " ++ u ++ sp :: c.name ∧ sp ∉ u ∧
      u.take 95 = g.gToken.val := by
  intro h
  obtain ⟨u, htext, hu, -⟩ := h { gToken := .put 96 (lit "0123456789abcdef") }
    (lit "AUTH 0123456789abcdef  STATUS\n") .status rfl (by decide) (by decide +kernel)
  have hread : trim (cstr (cut 512 (lit "AUTH 0123456789abcdef  STATUS\n"))) =
      lit "AUTH " ++ lit "0123456789abcdef " ++ sp :: lit "STATUS" := by decide +kernel
  rw [hread] at htext
  obtain rfl := List.append_cancel_left (List.append_cancel_right htext)
  exact absurd hu (by decide)

end ZorinTrust.Bridge
