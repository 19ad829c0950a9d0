import ZorinTrust.SessionExits
import ZorinTrust.ProofOutcome

/-!
# The routine of a session

Most of what the worker does neither touches the preferences nor the texts that name the peers, opens no
connection and sends no invitation: the proof requests, the polls, the commands, the ends of a session.
`Routine` says so of a stretch of the run; what a history holds of connections, invitations and published
frames then only depends on the few steps that are not routine (`routineCase_of_next`).
-/

namespace ZorinTrust

open CText Machine Lines

/-! ### Routine stretches -/

/-- The texts a frame shows of the peers and the link. -/
structure PeerTexts where
  hostFp : CStr 128
  phoneFp : CStr 128
  transport : CStr 64

def Globals.peers (g : Globals) : PeerTexts := ⟨g.gTrustHostFp, g.gTrustPhoneFp, g.gTrustTransport⟩

/-- The legacy preference holds a text, as the code reads it. -/
def holdsLegacy (p : Prefs) : Bool := (prefText .trustedHostPub 512 p).getD [] != []

/-- The message has no line INVITE. -/
def NoInvite (m : Bytes) : Prop := ∀ v, fieldText ("INVITE", v) ∉ lines m

/-- What a routine stretch from `s` on can emit. -/
def RoutineEvent (s : Service) : Event → Prop
  | .published g paired => g.peers = s.g.peers ∧ (s.prefs.Succeeds → paired = holdsLegacy s.prefs)
  | .connecting _ _ => False
  | .sent m => NoInvite m
  | _ => True

structure Routine (s t : Service) : Prop where
  peers : t.g.peers = s.g.peers
  prefs : ∀ k, t.prefs.get k = s.prefs.get k
  drained : Drained s.prefs t.prefs
  events : Emits (RoutineEvent s) s t

variable {s t u : Service}

theorem holdsLegacy_congr {p q : Prefs} (h : ∀ k, q.get k = p.get k) : holdsLegacy q = holdsLegacy p := by
  unfold holdsLegacy prefText
  rw [h]

theorem holdsLegacy_iff {p : Prefs} :
    holdsLegacy p = true ↔ ∃ v, prefText .trustedHostPub 512 p = some v ∧ v ≠ [] := by
  unfold holdsLegacy
  cases prefText .trustedHostPub 512 p <;> simp

/-- `PAIRED` is whether the legacy preference holds a text, when it can be read. -/
theorem paired_eq {p : Prefs} (hp : p.Succeeds) :
    decide (0 < (trustPrefGet .trustedHostPub 512 p).rc) = holdsLegacy p := by
  have hread := read_iff hp .trustedHostPub 512 fun _ => True
  simp only [and_true] at hread
  rw [Bool.eq_iff_iff, decide_eq_true_eq, hread, holdsLegacy_iff]

namespace Routine

theorem refl (s : Service) : Routine s s := ⟨rfl, fun _ => rfl, .refl _, .refl s⟩

theorem event {ev : Event} (h : Routine s t) (hev : RoutineEvent t ev) : RoutineEvent s ev := by
  cases ev with
  | published g paired =>
    obtain ⟨hpeers, hpaired⟩ := hev
    refine ⟨hpeers.trans h.peers, fun hp => ?_⟩
    rw [hpaired (h.drained.succeeds hp), holdsLegacy_congr h.prefs]
  | consumed _ _ => exact hev
  | directCleared => exact hev
  | connecting _ _ => exact hev
  | signed _ => exact hev
  | sent _ => exact hev

theorem trans (h : Routine s t) (h' : Routine t u) : Routine s u := by
  obtain ⟨new, hlog, hnew⟩ := h'.events
  exact ⟨h'.peers.trans h.peers, fun k => (h'.prefs k).trans (h.prefs k), h.drained.trans h'.drained,
    h.events.trans ⟨new, hlog, fun ev hev => h.event (hnew ev hev)⟩⟩

/-- A change of other globals. -/
theorem set (hpeers : t.g.peers = s.g.peers) (hp : t.prefs = s.prefs) (hlog : t.log = s.log) :
    Routine s t :=
  ⟨hpeers, fun k => by rw [hp], .of_eq hp, .of_log_eq hlog⟩

theorem emit (ev : Event) (s : Service) (h : RoutineEvent s ev) : Routine s (s.emit ev) :=
  ⟨rfl, fun _ => rfl, .refl _, .single ev rfl h⟩

/-- A change of other globals, published. -/
theorem publish (hpeers : t.g.peers = s.g.peers) (hp : t.prefs = s.prefs) (hlog : t.log = s.log) :
    Routine s (trustUiPublishState t) := by
  have hlog' : (trustUiPublishState t).log =
      .published t.g (decide (0 < (trustPrefGet .trustedHostPub 512 t.prefs).rc)) :: s.log := by
    rw [← hlog]
    rfl
  refine ⟨hpeers, fun k => by rw [trustUiPublishState_get, hp], ?_, .single _ hlog' ⟨hpeers, ?_⟩⟩
  · rw [← hp]
    exact drained_drop _
  · rw [hp]
    exact paired_eq

/-- A status change over a change of other globals. -/
theorem setStatus (state : Int32) (status : String) (hpeers : t.g.peers = s.g.peers)
    (hp : t.prefs = s.prefs) (hlog : t.log = s.log) : Routine s (trustSetStatus state status t) :=
  publish hpeers hp hlog

theorem of_sameButRequests (hg : SameButRequests s.g t.g) (hp : t.prefs = s.prefs)
    (hlog : ∃ new, t.log = new ++ s.log ∧ ∀ ev ∈ new, ∃ frame g, ev = .consumed frame g) :
    Routine s t := by
  obtain ⟨new, hlog, hcons⟩ := hlog
  refine ⟨by rw [hg]; rfl, fun k => by rw [hp], .of_eq hp, new, hlog, fun ev hev => ?_⟩
  obtain ⟨frame, g, rfl⟩ := hcons ev hev
  trivial

end Routine

/-! ### The messages -/

/-- A message: fields, and the line END. -/
def message (fs : List (String × Bytes)) : Bytes :=
  fs.flatMap (fun f => fieldText f ++ [10]) ++ lit "END\n"

/-- A line of a message that is a field INVITE is one of the message's fields. -/
theorem mem_lines_message {fs : List (String × Bytes)} (hfs : ∀ f ∈ fs, FieldOk f) {v : Bytes}
    (h : fieldText ("INVITE", v) ∈ lines (message fs)) : ∃ f ∈ fs, lit f.1 = lit "INVITE" ∧ f.2 = v := by
  have hend : lines (lit "END\n") = [lit "END"] := by decide
  rw [message, lines_fields _ fs hfs, hend, List.mem_append, List.mem_map, List.mem_singleton] at h
  rcases h with ⟨f, hf, htext⟩ | h
  · exact ⟨f, hf, (fieldText_eq_iff (hfs f hf).key_sp (show sp ∉ lit "INVITE" by decide)).mp htext⟩
  · have hsp : sp ∈ lit "END" := by
      rw [← h, fieldText]
      simp
    exact absurd hsp (by decide)

theorem noInvite_message {fs : List (String × Bytes)} (hfs : ∀ f ∈ fs, FieldOk f)
    (hkeys : ∀ f ∈ fs, lit f.1 ≠ lit "INVITE") : NoInvite (message fs) := fun v hv => by
  obtain ⟨f, hf, hkey, -⟩ := mem_lines_message hfs hv
  exact absurd hkey (hkeys f hf)

theorem noInvite_deny (d : ProofDeny) : NoInvite d.wire := by
  have hwire : d.wire = message [("PROOF_RESULT", lit "DENY"), ("REASON", lit d.reason)] := by
    cases d <;> decide
  rw [hwire]
  refine noInvite_message ?_ ?_
  · simp only [List.forall_mem_cons, List.not_mem_nil, false_implies, implies_true, and_true]
    refine ⟨fieldOk_of_key (by decide) (isEol_of_all (by decide)), fieldOk_of_key (by decide) ?_⟩
    cases d <;> exact isEol_of_all (by decide)
  · simp only [List.forall_mem_cons, List.not_mem_nil, false_implies, implies_true, and_true]
    decide

theorem noInvite_okWire {sig : Bytes} (h : sig.length ≤ 192) : NoInvite (okWire sig) := by
  obtain ⟨sighex, henc, hwire⟩ := okWire_eq h
  have hmessage : okWire sig = message [("PROOF_RESULT", lit "OK"), ("SIGNATURE", sighex)] := by
    rw [hwire]
    simp [message, fieldText, okHead, lit]
  rw [hmessage]
  refine noInvite_message ?_ ?_
  · simp only [List.forall_mem_cons, List.not_mem_nil, false_implies, implies_true, and_true]
    exact ⟨fieldOk_of_key (by decide) (isEol_of_all (by decide)),
      fieldOk_of_key (by decide) (isEol_trustHexEncode henc)⟩
  · simp only [List.forall_mem_cons, List.not_mem_nil, false_implies, implies_true, and_true]
    decide

/-- The line a turn of the session loop opens with. -/
theorem noInvite_poll (locked : Bool) :
    NoInvite (lit (if locked then "POLL LOCKED\n" else "POLL UNLOCKED\n")) := fun v hv => by
  have hline : ∀ line ∈ lines (lit (if locked then "POLL LOCKED\n" else "POLL UNLOCKED\n")),
      line.head? = some 80 := by
    cases locked <;> decide
  have hhead : (fieldText ("INVITE", v)).head? = some 73 := by simp [fieldText, lit]
  rw [hline _ hv] at hhead
  exact absurd hhead (by decide)

/-! ### The session -/

theorem routine_lifecycle (alive : Bool) (s : Service) : Routine s (lifecycleStep alive s) :=
  .publish rfl rfl rfl

theorem routine_consume (file : Option Bytes) (s : Service) :
    Routine s (trustUiConsumeCommand file s) := by
  obtain ⟨hg, hp, hlog⟩ := trustUiConsumeCommand_spec file s
  exact .of_sameButRequests hg hp hlog

/-- **A session is routine** from the trust check on, its handshake apart. -/
theorem routineSession : SessionRule Routine where
  refl := .refl
  trans := .trans
  publish _ := .publish rfl rfl rfl
  pend _ _ := .publish rfl rfl rfl
  clear _ := .publish rfl rfl rfl
  refuse d s := .emit (.sent d.wire) s (noInvite_deny d)
  signed msg s := .emit (.signed msg) s trivial
  answered sig s hlen := .emit (.sent (okWire sig)) s (noInvite_okWire hlen)
  counted _ _ _ := .set rfl rfl rfl
  consume := routine_consume
  poll locked s := .emit _ s (noInvite_poll locked)

theorem routine_sessionEnd (s : Service) : Routine s (sessionEnd s) := by
  unfold sessionEnd
  dsimp only
  split_ifs
  · exact .setStatus _ _ rfl rfl rfl
  · exact .set rfl rfl rfl

theorem routine_establish (policy : CStr 96) (s : Service) : Routine s (establish policy s) := by
  have hstatus : Routine s (trustSetStatus 3 "DEVICE TRUST ESTABLISHED"
      { s with g := { s.g with gTrustPolicy := policy } }) := .setStatus _ _ rfl rfl rfl
  exact hstatus.trans (.set rfl rfl rfl)

theorem routine_judgeAnswer (c : Crypto) (h : Hello) (phonepub phnonce frame : Bytes) (s : Service) :
    Routine s (judgeAnswer c h phonepub phnonce frame s).2 := by
  unfold judgeAnswer
  split_ifs
  · exact .setStatus _ _ rfl rfl rfl
  · exact .setStatus _ _ rfl rfl rfl
  · cases (trustFrameField frame "HOST_SIG" 384).bind (trustHexDecode · 192) with
    | none => exact .refl s
    | some hostsig =>
      dsimp only
      split_ifs
      · exact .refl s
      · exact .setStatus _ _ rfl rfl rfl
      · exact routine_establish _ s

/-! ### The steps -/

/-- **A step is routine**, or the start, a FORGET, an approval or one of the parts of a handshake. -/
inductive RoutineCase (c : Crypto) : Label → Worker → Worker → Prop
  | routine {l : Label} {w w' : Worker} (h : Routine w.s w'.s) : RoutineCase c l w w'
  | start (e : StartEnv) (s : Service) : RoutineCase c (.start e) ⟨.off, s⟩ ⟨.top, workerStart c e s⟩
  | forget (s : Service) : RoutineCase c .forget ⟨.forget, s⟩ ⟨.approve, forgetStep s⟩
  | approve (s : Service) : RoutineCase c .approve ⟨.approve, s⟩ ⟨.session, approveStep s⟩
  | hello (e : HelloEnv) (s : Service) : RoutineCase c (.hello e) ⟨.session, s⟩ (helloStep c e s)
  | check (link : Link) (h : Hello) (s : Service) :
      RoutineCase c .check ⟨.checking link h, s⟩ (checkStep link h s)
  | answer (e : AnswerEnv) (link : Link) (h : Hello) (s : Service) :
      RoutineCase c (.answer e) ⟨.authenticating link h, s⟩ (answerStep c link h e s)

theorem routineCase_of_next {c : Crypto} {l : Label} {w w' : Worker} (hnext : next c l w = some w') :
    RoutineCase c l w w' := by
  cases step_of_next hnext with
  | lifecycle alive pc s => exact .routine (routine_lifecycle alive s)
  | start e s => exact .start e s
  | stop s => exact .routine (.refl s)
  | consume file s => exact .routine (routine_consume file s)
  | forget s => exact .forget s
  | approve s => exact .approve s
  | hello e s => exact .hello e s
  | check link h s => exact .check link h s
  | answer e link h s => exact .answer e link h s
  | round e s _ _ => exact .routine (routineSession.round routine_sessionEnd e s)
  | turn p e r left s => exact .routine (routineSession.turn r left p e s)
  | giveUp r left s => exact .routine (routineSession.giveUp s)
  | pong chunks s => exact .routine (routineSession.pong routine_sessionEnd chunks s)
  | leave s => exact .routine (routine_sessionEnd s)
  | idle file left s => exact .routine (routineSession.idle left file s)
  | idleEnd left s => exact .routine (.refl s)

end ZorinTrust
