import ZorinTrust.Codec

/-!
# State of the `:trust` process

`Globals` is the file-scope state of `trust_runtime.inc`; a `char[n]` global is a `CStr n`, so every
assignment cuts to the declared buffer.  `Prefs` is the `zorin_trust_runtime` preference file with
the outcomes of the preference calls still to come.  `Service` adds the history of what the process
did that another party can see.
-/

namespace ZorinTrust

open CText Numeral

/-! ### Buffer sizes of the source -/

instance neZero32 : NeZero 32 := ⟨by decide⟩
instance neZero40 : NeZero 40 := ⟨by decide⟩
instance neZero64 : NeZero 64 := ⟨by decide⟩
instance neZero96 : NeZero 96 := ⟨by decide⟩
instance neZero128 : NeZero 128 := ⟨by decide⟩
instance neZero256 : NeZero 256 := ⟨by decide⟩
instance neZero384 : NeZero 384 := ⟨by decide⟩
instance neZero512 : NeZero 512 := ⟨by decide⟩
instance neZero800 : NeZero 800 := ⟨by decide⟩
instance neZero1100 : NeZero 1100 := ⟨by decide⟩
instance neZero4096 : NeZero 4096 := ⟨by decide⟩
instance neZero5200 : NeZero 5200 := ⟨by decide⟩

/-! ### Globals -/

structure Globals where
  /-- 0 offline, 1 waiting for approval, 2 authenticating, 3 trusted, -1 error. -/
  gTrustState : Int32 := 0
  gTrustApproveRequested : Bool := false
  gTrustForgetRequested : Bool := false
  gTrustReconnectRequested : Bool := false
  gTrustStatus : CStr 128 := .put 128 (lit "WAITING FOR HOST AGENT")
  gTrustHostName : CStr 128 := .put 128 (lit "<NONE>")
  gTrustHostFp : CStr 128 := .put 128 (lit "<NONE>")
  gTrustHostIdentity : CStr 96 := .put 96 (lit "UNKNOWN")
  gTrustHostPubPending : CStr 512 := .put 512 []
  gTrustHostPubCurrent : CStr 512 := .put 512 []
  gTrustPortableHostPub : CStr 512 := .put 512 []
  gTrustHostIsPortable : Bool := false
  gTrustPendingIsPortable : Bool := false
  gTrustPhoneFp : CStr 128 := .put 128 (lit "INITIALIZING")
  gTrustPolicy : CStr 96 := .put 96 (lit "none")
  gTrustTransport : CStr 64 := .put 64 (lit "USB / ADB")
  gTrustProofCount : UInt32 := 0
  gTrustLastProof : CStr 128 := .put 128 (lit "NONE")
  gAuthorityPending : Bool := false
  /-- 0 waiting, 1 approve, -1 deny. -/
  gAuthorityDecision : ℤ := 0
  gAuthorityRequestId : CStr 96 := .put 96 []
  gAuthorityAction : CStr 256 := .put 256 []
  gAuthorityResource : CStr 512 := .put 512 []
  gAuthorityPrompt : CStr 384 := .put 384 []
  gTrustServiceAlive : Bool := false
  deriving DecidableEq

/-! ### Preferences -/

inductive PrefKey
  | trustedHostsV2
  | trustedHostPub
  deriving DecidableEq

/-- How one preference call ends; an exception may be raised after `apply()` took effect. -/
inductive PrefOutcome
  | success
  | noContext
  | attachFailed
  | callFailed
  | exception (applied : Bool)
  deriving DecidableEq

structure Prefs where
  trustedHostsV2 : Option Bytes := none
  trustedHostPub : Option Bytes := none
  /-- Outcomes of the calls to come, next first; past the end every call succeeds. -/
  outcomes : List PrefOutcome := []
  deriving DecidableEq

namespace Prefs

def get (p : Prefs) : PrefKey → Option Bytes
  | .trustedHostsV2 => p.trustedHostsV2
  | .trustedHostPub => p.trustedHostPub

def set (p : Prefs) (k : PrefKey) (v : Bytes) : Prefs :=
  match k with
  | .trustedHostsV2 => { p with trustedHostsV2 := some v }
  | .trustedHostPub => { p with trustedHostPub := some v }

def drop (p : Prefs) : Prefs := { p with outcomes := p.outcomes.tail }

def next (p : Prefs) : PrefOutcome := p.outcomes.headD .success

/-- Every preference call to come succeeds. -/
def Succeeds (p : Prefs) : Prop := ∀ o ∈ p.outcomes, o = .success

end Prefs

/-- What `trust_pref_get` hands back: the return code and the buffer. -/
structure PrefRead where
  rc : ℤ
  out : Bytes
  deriving DecidableEq

/-- The idiom `if (n < 0) { list[0] = 0; n = 0; }` after a read. -/
def PrefRead.text (r : PrefRead) : Bytes := if r.rc < 0 then [] else r.out

/-- The text a successful `trust_pref_get` copies out, cut to the buffer. -/
def prefText (k : PrefKey) (cap : ℕ) (p : Prefs) : Option Bytes := (p.get k).map (cut cap)

/-- `trust_pref_get`; its caller goes on with `p.drop`, the outcomes after this one. -/
def trustPrefGet (k : PrefKey) (cap : ℕ) (p : Prefs) : PrefRead :=
  let found : PrefRead :=
    match prefText k cap p with
    | some v => ⟨v.length, v⟩
    | none => ⟨-3, []⟩
  match p.next with
  | .success => found
  | .noContext => ⟨-1, []⟩
  | .attachFailed => ⟨-2, []⟩
  | .callFailed => ⟨-3, []⟩
  | .exception _ => ⟨-4, found.out⟩

/-- `trust_pref_put`. -/
def trustPrefPut (k : PrefKey) (v : Bytes) (p : Prefs) : ℤ × Prefs :=
  match p.next with
  | .success => (0, (p.set k v).drop)
  | .noContext => (-1, p.drop)
  | .attachFailed => (-2, p.drop)
  | .callFailed => (-3, p.drop)
  | .exception applied => (-4, (if applied then p.set k v else p).drop)

@[simp] theorem Prefs.get_drop (p : Prefs) (k : PrefKey) : p.drop.get k = p.get k := by
  cases k <;> rfl

/-- A read that reports success returns the stored text, cut to the buffer. -/
theorem trustPrefGet_of_pos {k : PrefKey} {cap : ℕ} {p : Prefs} (h : 0 < (trustPrefGet k cap p).rc) :
    prefText k cap p = some (trustPrefGet k cap p).out := by
  unfold trustPrefGet at h ⊢
  cases hn : p.next <;> simp only [hn] at h ⊢
  case success =>
    cases hg : prefText k cap p with
    | none => simp [hg] at h
    | some v => rfl
  all_goals omega

/-- Past the failure idiom a read yields nothing or the stored text, cut to the buffer. -/
theorem trustPrefGet_text (k : PrefKey) (cap : ℕ) (p : Prefs) :
    (trustPrefGet k cap p).text = [] ∨ prefText k cap p = some (trustPrefGet k cap p).text := by
  unfold trustPrefGet PrefRead.text
  cases p.next <;> cases hg : prefText k cap p <;> simp

/-- A write leaves every entry as it was, or sets the one it names. -/
theorem trustPrefPut_snd (k : PrefKey) (v : Bytes) (p : Prefs) :
    (trustPrefPut k v p).2 = p.drop ∨ (trustPrefPut k v p).2 = (p.set k v).drop := by
  unfold trustPrefPut
  cases p.next with
  | exception applied => cases applied <;> simp
  | success => exact Or.inr rfl
  | noContext => exact Or.inl rfl
  | attachFailed => exact Or.inl rfl
  | callFailed => exact Or.inl rfl

theorem trustPrefPut_of_succeeds {k : PrefKey} {v : Bytes} {p : Prefs} (h : p.Succeeds) :
    trustPrefPut k v p = (0, (p.set k v).drop) := by
  unfold trustPrefPut Prefs.next
  cases ho : p.outcomes with
  | nil => rfl
  | cons o os =>
    have : o = .success := h o (by rw [ho]; exact List.mem_cons_self)
    rw [this]; rfl

/-- The calls still to come after `q` are the last of those after `p`. -/
def Drained (p q : Prefs) : Prop := q.outcomes <:+ p.outcomes

theorem Drained.refl (p : Prefs) : Drained p p := List.suffix_rfl

theorem Drained.trans {p q r : Prefs} (h : Drained p q) (h' : Drained q r) : Drained p r :=
  List.IsSuffix.trans h' h

theorem Drained.of_eq {p q : Prefs} (h : q = p) : Drained p q := by
  rw [h]
  exact .refl p

/-- Calls that are all to succeed go on to succeed. -/
theorem Drained.succeeds {p q : Prefs} (h : Drained p q) (hp : p.Succeeds) : q.Succeeds := fun o ho =>
  hp o (h.subset ho)

theorem drained_drop (p : Prefs) : Drained p p.drop := List.tail_suffix _

theorem drained_put (k : PrefKey) (v : Bytes) (p : Prefs) : Drained p (trustPrefPut k v p).2 := by
  rcases trustPrefPut_snd k v p with h | h
  · rw [h]
    exact drained_drop p
  · rw [h]
    cases k <;> exact drained_drop p

theorem Prefs.Succeeds.drop {p : Prefs} (h : p.Succeeds) : p.drop.Succeeds := (drained_drop p).succeeds h

theorem Prefs.Succeeds.next {p : Prefs} (h : p.Succeeds) : p.next = .success := by
  unfold Prefs.next
  cases ho : p.outcomes with
  | nil => rfl
  | cons o os => exact h o (by rw [ho]; exact List.mem_cons_self)

/-! ### The process and its history -/

/-- What the process did that another party can see. -/
inductive Event
  /-- `trust_ui_publish_state` with these globals and this `PAIRED` value. -/
  | published (g : Globals) (paired : Bool)
  /-- `trust_ui_consume_command` read and unlinked this command frame; the globals before it acted. -/
  | consumed (frame : Bytes) (before : Globals)
  /-- `trust_clear_direct_endpoint` removed the file `direct-transport`. -/
  | directCleared
  /-- `connect` was called on this address and port. -/
  | connecting (address : Bytes) (port : ℤ)
  /-- `trust_sign` was handed this message. -/
  | signed (msg : Bytes)
  /-- `trust_send_all` was handed this message. -/
  | sent (msg : Bytes)
  deriving DecidableEq

structure Service where
  g : Globals := {}
  prefs : Prefs := {}
  /-- Newest first. -/
  log : List Event := []
  deriving DecidableEq

namespace Service

def emit (s : Service) (e : Event) : Service := { s with log := e :: s.log }

@[simp] theorem emit_g (s : Service) (e : Event) : (s.emit e).g = s.g := rfl
@[simp] theorem emit_prefs (s : Service) (e : Event) : (s.emit e).prefs = s.prefs := rfl
@[simp] theorem emit_log (s : Service) (e : Event) : (s.emit e).log = e :: s.log := rfl

end Service

/-- The events of a stretch of the run, newest first. -/
def since (s s' : Service) : List Event := s'.log.take (s'.log.length - s.log.length)

theorem since_eq {s s' : Service} {l : List Event} (h : s'.log = l ++ s.log) : since s s' = l := by
  simp [since, h]

/-- Every event of a stretch of the run satisfies `P`. -/
def Emits (P : Event → Prop) (s s' : Service) : Prop :=
  ∃ new, s'.log = new ++ s.log ∧ ∀ ev ∈ new, P ev

namespace Emits

variable {P : Event → Prop} {s t u : Service}

theorem of_log_eq (h : t.log = s.log) : Emits P s t := ⟨[], h, fun _ hev => by cases hev⟩

theorem refl (s : Service) : Emits P s s := of_log_eq rfl

theorem single (ev : Event) (hlog : t.log = ev :: s.log) (h : P ev) : Emits P s t :=
  ⟨[ev], hlog, fun _ hev => List.mem_singleton.mp hev ▸ h⟩

theorem trans (h : Emits P s t) (h' : Emits P t u) : Emits P s u := by
  obtain ⟨new, hlog, hnew⟩ := h
  obtain ⟨new', hlog', hnew'⟩ := h'
  refine ⟨new' ++ new, by rw [hlog', hlog, List.append_assoc], fun ev hev => ?_⟩
  rcases List.mem_append.mp hev with hev | hev
  · exact hnew' ev hev
  · exact hnew ev hev

end Emits

/-- `trust_ui_publish_state`: `PAIRED` reports whether the legacy preference could be read. -/
def trustUiPublishState (s : Service) : Service :=
  { g := s.g
    prefs := s.prefs.drop
    log := .published s.g (0 < (trustPrefGet .trustedHostPub 512 s.prefs).rc) :: s.log }

/-- `trust_set_status`. -/
def trustSetStatus (state : Int32) (status : String) (s : Service) : Service :=
  trustUiPublishState
    { s with g := { s.g with gTrustState := state, gTrustStatus := .put 128 (lit status) } }

@[simp] theorem trustUiPublishState_g (s : Service) : (trustUiPublishState s).g = s.g := rfl

@[simp] theorem trustUiPublishState_get (s : Service) (k : PrefKey) :
    (trustUiPublishState s).prefs.get k = s.prefs.get k := by simp [trustUiPublishState]

@[simp] theorem trustSetStatus_g (state : Int32) (status : String) (s : Service) :
    (trustSetStatus state status s).g =
      { s.g with gTrustState := state, gTrustStatus := .put 128 (lit status) } := rfl

@[simp] theorem trustSetStatus_get (state : Int32) (status : String) (s : Service) (k : PrefKey) :
    (trustSetStatus state status s).prefs.get k = s.prefs.get k := by simp [trustSetStatus]

end ZorinTrust
