import ZorinTrust.Session
import ZorinTrust.Lib.Machine

/-!
# The worker of the `:trust` process

`trust_worker` and the session loop of `trust_auth_session` as a labelled machine.  A program counter
stands wherever another process can act between two steps: at every read of the command file, at every
receive, at every turn of the two polling loops, and between the host a session writes to the globals
and the trust check, where the main thread may publish.  A label carries what the step meets: the command
file, the bytes received, the clock, the keystore.  `g_running` belongs to the service's main thread,
so every loop may end at any turn; a service callback runs between two steps.
-/

namespace ZorinTrust

open CText Numeral

/-! ### The steps of `trust_worker` -/

/-- What the start of the worker meets: the phone's key, and whether its digest went through. -/
structure StartEnv where
  phoneDer : Option { der : Bytes // der ≠ [] ∧ der.length ≤ 256 }
  digestOk : Bool := true

/-- `trust_worker` before its loop. -/
def workerStart (c : Crypto) (e : StartEnv) (s : Service) : Service :=
  let phoneFp := match e.phoneDer with
    | none => .put 128 (lit "KEYSTORE ERROR")
    | some der =>
      match trustFingerprintDer c.sha256 der.val with
      | some fp => if e.digestOk then .put 128 fp else s.g.gTrustPhoneFp
      | none => s.g.gTrustPhoneFp
  trustUiPublishState { s with g := { s.g with gTrustPhoneFp := phoneFp } }

/-- What FORGET does to the stores of trust. -/
def forgetHost (s : Service) : Service :=
  if s.g.gTrustHostIsPortable then
    { s with g := { s.g with gTrustPortableHostPub := .put 512 [] } }.emit .directCleared
  else if s.g.gTrustHostPubCurrent.val ≠ [] then
    { s with prefs := (trustHostRemove s.g.gTrustHostPubCurrent.val s.prefs).2 }
  else s

/-- The FORGET step of `trust_worker`. -/
def forgetStep (s : Service) : Service :=
  if s.g.gTrustForgetRequested then
    let s := forgetHost s
    trustSetStatus 0 "WORKSTATION REVOKED"
      { s with g := { s.g with
          gTrustForgetRequested := false
          gTrustApproveRequested := false
          gTrustPendingIsPortable := false
          gTrustHostIsPortable := false
          gTrustHostPubPending := .put 512 []
          gTrustHostPubCurrent := .put 512 []
          gTrustHostName := .put 128 (lit "<NONE>")
          gTrustHostFp := .put 128 (lit "<NONE>")
          gTrustPolicy := .put 96 (lit "none") } }
  else s

/-- What an approval does to the stores of trust: a pin in memory, or a registry entry. -/
def approveHost (s : Service) : Service :=
  if s.g.gTrustPendingIsPortable then
    { s with g := { s.g with gTrustPortableHostPub := .put 512 s.g.gTrustHostPubPending.val } }
  else { s with prefs := (trustHostAdd s.g.gTrustHostPubPending.val s.prefs).2 }

/-- The approval step of `trust_worker`. -/
def approveStep (s : Service) : Service :=
  if s.g.gTrustState = 1 ∧ s.g.gTrustApproveRequested = true ∧ s.g.gTrustHostPubPending.val ≠ [] then
    let s := approveHost s
    trustSetStatus 0 "WORKSTATION APPROVED - AUTHENTICATING"
      { s with g := { s.g with
          gTrustHostPubCurrent := .put 512 s.g.gTrustHostPubPending.val
          gTrustApproveRequested := false
          gTrustPendingIsPortable := false } }
  else s

/-! ### The machine -/

/-- Where the worker stands. -/
inductive Pc
  /-- No worker thread. -/
  | off
  /-- The head of the worker's loop. -/
  | top
  /-- Before `if (g_trust_forget_requested)`. -/
  | forget
  /-- Before the approval step. -/
  | approve
  /-- Before `trust_auth_session`. -/
  | session
  /-- In a session, its host in the globals, before the trust check. -/
  | checking (link : Link) (h : Hello)
  /-- In a session, past the trust check. -/
  | authenticating (link : Link) (h : Hello)
  /-- The head of the loop of an established session. -/
  | linked
  /-- In the wait loop for an EXPLICIT request, with so many turns left. -/
  | waiting (r : ProofRequest) (left : ℕ)
  /-- After a proof request, before the host's PONG. -/
  | pong
  /-- In the polling loop between two sessions, with so many turns left. -/
  | idle (left : ℕ)
  deriving DecidableEq

structure Worker where
  pc : Pc := .off
  s : Service := {}
  deriving DecidableEq

/-- What one turn of the session loop meets; `proof` is what a proof request meets that needs no
wait. -/
structure RoundEnv where
  locked : Bool := false
  sendOk : Bool := true
  chunks : List Bytes
  proof : ProofEnv

/-- The proof request a turn of the session loop takes up, when it passes the checks. -/
def RoundEnv.request (e : RoundEnv) : Option ProofRequest :=
  if e.sendOk = false then none
  else
    (trustRecvSessionMessage 4096 e.chunks).bind fun smsg =>
      if strstr smsg (lit "PROOF_REQUEST") then
        (proofScreen (CStr.put 4096 smsg).val e.proof.clock).toOption
      else none

inductive Label
  /-- `nativeOnCreate` and `nativeOnDestroy` publish the service's life. -/
  | lifecycle (alive : Bool)
  /-- `trust_start_worker` created the thread. -/
  | start (e : StartEnv)
  | stop
  | consume (file : Option Bytes)
  | forget
  | approve
  | hello (e : HelloEnv)
  | check
  | answer (e : AnswerEnv)
  | round (e : RoundEnv)
  | turn (p : Poll) (e : ProofEnv)
  /-- The wait loop ran out of turns, or `g_running` was cleared. -/
  | giveUp
  | pong (chunks : List Bytes)
  | leave
  | idle (file : Option Bytes)
  | idleEnd

/-- The command file a step reads. -/
def Label.file : Label → Option Bytes
  | .consume file | .idle file => file
  | .turn p _ => p.command
  | _ => none

def lifecycleStep (alive : Bool) (s : Service) : Service :=
  trustUiPublishState { s with g := { s.g with gTrustServiceAlive := alive } }

/-- The worker leaves the session. -/
def endSession (s : Service) : Worker := ⟨.idle 20, sessionEnd s⟩

def helloStep (c : Crypto) (e : HelloEnv) (s : Service) : Worker :=
  match sessionOpen c e s with
  | (some (link, h), s) => ⟨.checking link h, s⟩
  | (none, s) => ⟨.idle 20, s⟩

def checkStep (link : Link) (h : Hello) (s : Service) : Worker :=
  match sessionCheck h s with
  | (true, s) => ⟨.authenticating link h, s⟩
  | (false, s) => ⟨.idle 20, s⟩

def answerStep (c : Crypto) (link : Link) (h : Hello) (e : AnswerEnv) (s : Service) : Worker :=
  match sessionAnswer c link h e s with
  | (some (), s) => ⟨.linked, s⟩
  | (none, s) => ⟨.idle 20, s⟩

/-- `trust_handle_proof_request` up to its wait loop, or to its end when it does not wait. -/
def beginProof (frame : CStr 4096) (e : ProofEnv) (s : Service) : Worker :=
  match proofScreen frame.val e.clock with
  | .error d => ⟨.pong, (refuse d s).2⟩
  | .ok r =>
    if r.explicitMode then ⟨.waiting r 500, proofPend r s⟩
    else if e.locked then ⟨.pong, (refuse .phoneLocked s).2⟩
    else ⟨.pong, (proofSign r e s).2⟩

/-- One turn of the session loop. -/
def roundStep (e : RoundEnv) (s : Service) : Worker :=
  let s := s.emit (.sent (lit (if e.locked then "POLL LOCKED\n" else "POLL UNLOCKED\n")))
  if e.sendOk = false then endSession s
  else
    match trustRecvSessionMessage 4096 e.chunks with
    | none => endSession s
    | some smsg =>
      if strstr smsg (lit "PROOF_REQUEST") then beginProof (.put 4096 smsg) e.proof s
      else if strstr smsg (lit "PONG") then ⟨.linked, s⟩
      else endSession s

/-- One turn of the wait loop; a decision ends the request. -/
def turnStep (r : ProofRequest) (left : ℕ) (p : Poll) (e : ProofEnv) (s : Service) : Worker :=
  match waitTurn p s with
  | (.undecided, s) => ⟨.waiting r left, s⟩
  | (.denied, s) => ⟨.pong, (refuse .userDenied (trustClearAuthorityRequest s)).2⟩
  | (.approved, s) => ⟨.pong, (proofSign r e s).2⟩

def giveUpStep (s : Service) : Worker :=
  ⟨.pong, (refuse .approvalTimeout (trustClearAuthorityRequest s)).2⟩

/-- After a proof request the host must answer PONG. -/
def pongStep (chunks : List Bytes) (s : Service) : Worker :=
  match trustRecvSessionMessage 128 chunks with
  | none => endSession s
  | some pong => if strstr pong (lit "PONG") then ⟨.linked, s⟩ else endSession s

/-- One turn of the loop between two sessions. -/
def idleStep (left : ℕ) (file : Option Bytes) (s : Service) : Worker :=
  let s := trustUiConsumeCommand file s
  if s.g.gTrustApproveRequested = true ∨ s.g.gTrustForgetRequested = true then ⟨.top, s⟩
  else ⟨.idle left, s⟩

/-- One step of the worker. -/
def next (c : Crypto) (l : Label) (w : Worker) : Option Worker :=
  match l, w.pc with
  | .lifecycle alive, pc => some ⟨pc, lifecycleStep alive w.s⟩
  | .start e, .off => some ⟨.top, workerStart c e w.s⟩
  | .stop, .top => some ⟨.off, w.s⟩
  | .consume file, .top => some ⟨.forget, trustUiConsumeCommand file w.s⟩
  | .forget, .forget => some ⟨.approve, forgetStep w.s⟩
  | .approve, .approve => some ⟨.session, approveStep w.s⟩
  | .hello e, .session => some (helloStep c e w.s)
  | .check, .checking link h => some (checkStep link h w.s)
  | .answer e, .authenticating link h => some (answerStep c link h e w.s)
  | .round e, .linked =>
    if w.s.g.gTrustForgetRequested = true ∨ w.s.g.gTrustReconnectRequested = true then none
    else some (roundStep e w.s)
  | .turn p e, .waiting r (left + 1) => some (turnStep r left p e w.s)
  | .giveUp, .waiting _ _ => some (giveUpStep w.s)
  | .pong chunks, .pong => some (pongStep chunks w.s)
  | .leave, .linked => some (endSession w.s)
  | .idle file, .idle (left + 1) => some (idleStep left file w.s)
  | .idleEnd, .idle _ => some ⟨.top, w.s⟩
  | _, _ => none

/-- A fresh process with these preferences. -/
def Worker.init (p : Prefs) : Worker := ⟨.off, { prefs := p }⟩

/-- **What one step can be**: the label and the counter determine the transition. -/
inductive Step (c : Crypto) : Label → Worker → Worker → Prop
  | lifecycle (alive : Bool) (pc : Pc) (s : Service) :
      Step c (.lifecycle alive) ⟨pc, s⟩ ⟨pc, lifecycleStep alive s⟩
  | start (e : StartEnv) (s : Service) : Step c (.start e) ⟨.off, s⟩ ⟨.top, workerStart c e s⟩
  | stop (s : Service) : Step c .stop ⟨.top, s⟩ ⟨.off, s⟩
  | consume (file : Option Bytes) (s : Service) :
      Step c (.consume file) ⟨.top, s⟩ ⟨.forget, trustUiConsumeCommand file s⟩
  | forget (s : Service) : Step c .forget ⟨.forget, s⟩ ⟨.approve, forgetStep s⟩
  | approve (s : Service) : Step c .approve ⟨.approve, s⟩ ⟨.session, approveStep s⟩
  | hello (e : HelloEnv) (s : Service) : Step c (.hello e) ⟨.session, s⟩ (helloStep c e s)
  | check (link : Link) (h : Hello) (s : Service) :
      Step c .check ⟨.checking link h, s⟩ (checkStep link h s)
  | answer (e : AnswerEnv) (link : Link) (h : Hello) (s : Service) :
      Step c (.answer e) ⟨.authenticating link h, s⟩ (answerStep c link h e s)
  | round (e : RoundEnv) (s : Service) (hforget : s.g.gTrustForgetRequested = false)
      (hreconnect : s.g.gTrustReconnectRequested = false) :
      Step c (.round e) ⟨.linked, s⟩ (roundStep e s)
  | turn (p : Poll) (e : ProofEnv) (r : ProofRequest) (left : ℕ) (s : Service) :
      Step c (.turn p e) ⟨.waiting r (left + 1), s⟩ (turnStep r left p e s)
  | giveUp (r : ProofRequest) (left : ℕ) (s : Service) :
      Step c .giveUp ⟨.waiting r left, s⟩ (giveUpStep s)
  | pong (chunks : List Bytes) (s : Service) : Step c (.pong chunks) ⟨.pong, s⟩ (pongStep chunks s)
  | leave (s : Service) : Step c .leave ⟨.linked, s⟩ (endSession s)
  | idle (file : Option Bytes) (left : ℕ) (s : Service) :
      Step c (.idle file) ⟨.idle (left + 1), s⟩ (idleStep left file s)
  | idleEnd (left : ℕ) (s : Service) : Step c .idleEnd ⟨.idle left, s⟩ ⟨.top, s⟩

theorem step_of_next {c : Crypto} {l : Label} {w w' : Worker} (h : next c l w = some w') :
    Step c l w w' := by
  obtain ⟨pc, s⟩ := w
  unfold next at h
  split at h
  case h_10 e hpc =>
    obtain rfl : pc = .linked := hpc
    rw [ite_eq_iff] at h
    rcases h with ⟨-, h⟩ | ⟨hflags, h⟩
    · cases h
    · cases h
      rw [not_or, Bool.not_eq_true, Bool.not_eq_true] at hflags
      exact .round e s hflags.1 hflags.2
  -- everywhere else the equation names the new state, or there is none
  all_goals
    subst_vars
    cases h
    try constructor

/-! ### The machine runs the request handler -/

/-- What the handler does with the outcome of its wait loop. -/
def finishWait (r : ProofRequest) (e : ProofEnv) : Decided × Service → ℤ × Service
  | (.denied, s) => refuse .userDenied (trustClearAuthorityRequest s)
  | (.undecided, s) => refuse .approvalTimeout (trustClearAuthorityRequest s)
  | (.approved, s) => proofSign r e s

/-- Turn by turn, the machine goes through the wait loop. -/
theorem reach_finishWait (c : Crypto) (r : ProofRequest) (e : ProofEnv) :
    ∀ (n : ℕ) (polls : List Poll) (s : Service),
      Machine.Reach (next c) ⟨.waiting r n, s⟩ ⟨.pong, (finishWait r e (proofWait n polls s)).2⟩
  | 0, polls, s => Machine.Run.step .refl trivial (l := .giveUp) rfl
  | n + 1, [], s => Machine.Run.step .refl trivial (l := .giveUp) rfl
  | n + 1, p :: polls, s => by
    have hturn : Machine.Reach (next c) ⟨.waiting r (n + 1), s⟩ (turnStep r n p e s) :=
      Machine.Run.step .refl trivial (l := .turn p e) rfl
    refine hturn.trans ?_
    rw [proofWait]
    unfold turnStep
    cases hw : waitTurn p s with
    | mk decided s₁ =>
      cases decided with
      | undecided => exact reach_finishWait c r e n polls s₁
      | approved => exact .refl
      | denied => exact .refl

/-- **The machine refines the handler**: from the start of a proof request it can reach the end the
source function computes. -/
theorem reach_trustHandleProofRequest (c : Crypto) (frame : CStr 4096) (e : ProofEnv) (s : Service) :
    Machine.Reach (next c) (beginProof frame e s)
      ⟨.pong, (trustHandleProofRequest frame e s).2⟩ := by
  unfold beginProof trustHandleProofRequest
  cases proofScreen frame.val e.clock with
  | error d => exact .refl
  | ok r =>
    dsimp only
    split_ifs
    · have h := reach_finishWait c r e 500 e.polls (proofPend r s)
      generalize proofWait 500 e.polls (proofPend r s) = q at h ⊢
      obtain ⟨decided, s₁⟩ := q
      cases decided <;> exact h
    · exact .refl
    · exact .refl

end ZorinTrust
