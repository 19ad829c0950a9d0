import ZorinTrust.Stretches

/-!
# What each step does to trust

`TrustVars` is the part of the globals that trust depends on.  A `Quiet` stretch changes none of it and
no preference; everything around a proof request is quiet.  `HelloCase`, `CheckCase` and `AnswerCase`
list what the parts of a session can do, so that no later proof unfolds them.
-/

namespace ZorinTrust

open CText Numeral

/-! ### Quiet stretches -/

/-- What the trust decisions read and change. -/
structure TrustVars where
  state : Int32
  approve : Bool
  hostFp : CStr 128
  pending : CStr 512
  current : CStr 512
  pin : CStr 512
  hostIsPortable : Bool
  pendingIsPortable : Bool
  status : CStr 128

def Globals.trust (g : Globals) : TrustVars where
  state := g.gTrustState
  approve := g.gTrustApproveRequested
  hostFp := g.gTrustHostFp
  pending := g.gTrustHostPubPending
  current := g.gTrustHostPubCurrent
  pin := g.gTrustPortableHostPub
  hostIsPortable := g.gTrustHostIsPortable
  pendingIsPortable := g.gTrustPendingIsPortable
  status := g.gTrustStatus

/-- The history grows, and what is published on the way shows the trust variables of the end. -/
def Extends (s s' : Service) : Prop :=
  ∃ new, s'.log = new ++ s.log ∧ ∀ g paired, .published g paired ∈ new → g.trust = s'.g.trust

/-- Nothing about trust changes. -/
structure Quiet (s s' : Service) : Prop where
  vars : s'.g.trust = s.g.trust
  prefs : ∀ k, s'.prefs.get k = s.prefs.get k
  history : Extends s s'

theorem Extends.refl (s : Service) : Extends s s := ⟨[], rfl, by simp⟩

theorem Extends.trans {s t u : Service} (h : Extends s t) (h' : Extends t u)
    (hv : t.g.trust = u.g.trust) : Extends s u := by
  obtain ⟨new, hlog, hpub⟩ := h
  obtain ⟨new', hlog', hpub'⟩ := h'
  refine ⟨new' ++ new, by rw [hlog', hlog, List.append_assoc], fun g p hg => ?_⟩
  rcases List.mem_append.mp hg with hg | hg
  · exact hpub' g p hg
  · exact (hpub g p hg).trans hv

/-- A state that only differs from `s` in its globals, published. -/
theorem extends_publish {s t : Service} (hlog : t.log = s.log) : Extends s (trustUiPublishState t) := by
  refine ⟨[.published t.g _], by rw [← hlog]; rfl, fun g p hg => ?_⟩
  rcases List.mem_singleton.mp hg
  rfl

theorem Extends.suffix {s s' : Service} (h : Extends s s') : s.log <:+ s'.log := by
  obtain ⟨new, hlog, -⟩ := h
  exact ⟨new, hlog.symm⟩

theorem Quiet.refl (s : Service) : Quiet s s := ⟨rfl, fun _ => rfl, .refl s⟩

theorem Quiet.trans {s t u : Service} (h : Quiet s t) (h' : Quiet t u) : Quiet s u :=
  ⟨h'.vars.trans h.vars, fun k => (h'.prefs k).trans (h.prefs k), h.history.trans h'.history h'.vars.symm⟩

theorem Quiet.state {s s' : Service} (h : Quiet s s') : s'.g.gTrustState = s.g.gTrustState :=
  congrArg TrustVars.state h.vars

theorem Quiet.approve {s s' : Service} (h : Quiet s s') :
    s'.g.gTrustApproveRequested = s.g.gTrustApproveRequested :=
  congrArg TrustVars.approve h.vars

theorem Quiet.hostFp {s s' : Service} (h : Quiet s s') : s'.g.gTrustHostFp = s.g.gTrustHostFp :=
  congrArg TrustVars.hostFp h.vars

theorem Quiet.pending {s s' : Service} (h : Quiet s s') :
    s'.g.gTrustHostPubPending = s.g.gTrustHostPubPending :=
  congrArg TrustVars.pending h.vars

theorem Quiet.pin {s s' : Service} (h : Quiet s s') :
    s'.g.gTrustPortableHostPub = s.g.gTrustPortableHostPub :=
  congrArg TrustVars.pin h.vars

theorem Quiet.hostIsPortable {s s' : Service} (h : Quiet s s') :
    s'.g.gTrustHostIsPortable = s.g.gTrustHostIsPortable :=
  congrArg TrustVars.hostIsPortable h.vars

theorem Quiet.pendingIsPortable {s s' : Service} (h : Quiet s s') :
    s'.g.gTrustPendingIsPortable = s.g.gTrustPendingIsPortable :=
  congrArg TrustVars.pendingIsPortable h.vars

theorem Quiet.status {s s' : Service} (h : Quiet s s') : s'.g.gTrustStatus = s.g.gTrustStatus :=
  congrArg TrustVars.status h.vars

/-- A change of other globals, published. -/
theorem quiet_publish {s t : Service} (hv : t.g.trust = s.g.trust) (hp : t.prefs = s.prefs)
    (hlog : t.log = s.log) : Quiet s (trustUiPublishState t) :=
  ⟨hv, fun k => by rw [trustUiPublishState_get, hp], extends_publish hlog⟩

/-- A change of other globals. -/
theorem quiet_set {s t : Service} (hv : t.g.trust = s.g.trust) (hp : t.prefs = s.prefs)
    (hlog : t.log = s.log) : Quiet s t :=
  ⟨hv, fun k => by rw [hp], [], by rw [hlog]; rfl, by simp⟩

/-- An event that is no publication. -/
theorem quiet_emit {s : Service} {v : Event} (h : ∀ g paired, v ≠ .published g paired) :
    Quiet s (s.emit v) :=
  ⟨rfl, fun _ => rfl, [v], rfl, fun g p hg => absurd (List.mem_singleton.mp hg).symm (h g p)⟩

/-! ### Quiet functions -/

theorem quiet_lifecycle (alive : Bool) (s : Service) : Quiet s (lifecycleStep alive s) :=
  quiet_publish rfl rfl rfl

theorem quiet_workerStart (c : Crypto) (e : StartEnv) (s : Service) : Quiet s (workerStart c e s) :=
  quiet_publish rfl rfl rfl

theorem quiet_proofPend (r : ProofRequest) (s : Service) : Quiet s (proofPend r s) :=
  quiet_publish rfl rfl rfl

theorem quiet_clear (s : Service) : Quiet s (trustClearAuthorityRequest s) :=
  quiet_publish rfl rfl rfl

theorem quiet_refuse (d : ProofDeny) (s : Service) : Quiet s (refuse d s).2 :=
  quiet_emit (by simp)

theorem quiet_setTransport (text : String) (s : Service) : Quiet s (setTransport text s) :=
  quiet_set rfl rfl rfl

/-- A command that is no APPROVE, or finds no host waiting for approval, is quiet. -/
theorem quiet_consume {file : Option Bytes} {s : Service} (h : s.g.gTrustState ≠ 1) :
    Quiet s (trustUiConsumeCommand file s) := by
  rcases trustUiConsumeCommand_cases file s with hc | ⟨frame, -, hc⟩
  · rw [hc]; exact .refl s
  · have hvars : (commandEffect frame s.g).trust = s.g.trust := by
      have hcase := commandEffect_cases frame s.g
      generalize commandEffect frame s.g = g' at hcase ⊢
      cases hcase with
      | approve _ hstate _ _ => exact absurd hstate h
      | ignored => rfl
      | reconnect _ => rfl
      | forget _ => rfl
      | authApprove _ _ _ _ => rfl
      | authDeny _ _ _ _ => rfl
    rw [hc]
    exact ⟨hvars, fun _ => rfl, [_], rfl, by simp⟩

/-- A proof request is quiet. -/
theorem quietRule : ProofRule Quiet where
  refl := .refl
  trans := .trans
  publish _ := quiet_publish rfl rfl rfl
  pend := quiet_proofPend
  clear := quiet_clear
  refuse := quiet_refuse
  signed _ _ := quiet_emit (by simp)
  answered _ _ _ := quiet_emit (by simp)
  counted _ _ _ := quiet_set rfl rfl rfl

/-- So are the commands, when no host waits for approval. -/
theorem quietSession : SessionRule fun s t => s.g.gTrustState ≠ 1 → Quiet s t where
  toProofRule := quietRule.guard fun h hs => h.state ▸ hs
  consume _ _ h := quiet_consume h
  poll _ _ _ := quiet_emit (by simp)

theorem quiet_openLink (e : HelloEnv) (s : Service) : Quiet s (openLink e s).2 := by
  refine quietRule.connect e s ?_ ?_ ?_
  · exact fun text s _ => quiet_setTransport text s
  · exact fun _ => quiet_emit (by simp)
  · exact fun _ _ _ => quiet_emit (by simp)

/-! ### The parts of a session -/

/-- What a hello that passed its checks carries. -/
structure HelloOk (c : Crypto) (h : Hello) : Prop where
  hostpub_ne : h.hostpub.val ≠ []
  hostpub_semi : semi ∉ h.hostpub.val
  hostder : trustHexDecode h.hostpub.val 256 = some h.hostder
  fp : keyFingerprint c h.hostpub.val = some h.fp

theorem parseHello_ok {c : Crypto} {digestOk : Bool} {frame : Bytes} {h : Hello}
    (hp : parseHello c digestOk frame = some h) : HelloOk c h := by
  unfold parseHello at hp
  split_ifs at hp
  simp only [Option.bind_eq_bind, Option.bind_eq_some_iff] at hp
  obtain ⟨hostpub, -, hostnonce, -, hostder, hder, hp⟩ := hp
  split_ifs at hp with hbad
  simp only [Option.bind_eq_some_iff, Option.some.injEq] at hp
  obtain ⟨fp, hfp, rfl⟩ := hp
  rw [not_or] at hbad
  refine ⟨?_, fun hc => ?_, hder, ?_⟩
  · show hostpub.val ≠ []
    intro hnil
    rw [hnil] at hder
    exact hbad.1 (Option.some.inj hder).symm
  · have := mem_trustHexDecode hder semi hc
    simp [show trustHexval semi = none from rfl] at this
  · show (trustHexDecode hostpub.val 256).bind (trustFingerprintDer c.sha256) = some fp
    rw [hder, Option.bind_some, hfp]

/-- The hello a session reads, when its frame passes the checks. -/
def HelloEnv.hello (c : Crypto) (e : HelloEnv) : Option Hello :=
  (trustRecvFrame 4096 e.chunks).bind (parseHello c e.digestOk)

/-- The trust check of a session that read `h`. -/
def checkHost (h : Hello) (s : Service) : Bool × Prefs :=
  trustCheck h.portable h.hostpub.val s.g.gTrustPortableHostPub.val s.prefs

/-- The service once the host of the hello is in the globals. -/
def meet (h : Hello) (s : Service) : Service := { s with g := setHost h s.g }

/-- The service once the trust check is made. -/
def checked (h : Hello) (s : Service) : Service := { s with prefs := (checkHost h s).2 }

/-- What a session can do before the trust check. -/
inductive HelloCase (c : Crypto) (e : HelloEnv) (s : Service) : Option (Link × Hello) × Service → Prop
  | failed {s₁ : Service} (hquiet : Quiet s s₁) : HelloCase c e s (none, s₁)
  | met {link : Link} {h : Hello} {s₁ : Service} (hquiet : Quiet s s₁) (hhello : e.hello c = some h) :
      HelloCase c e s (some (link, h), meet h s₁)

/-- A session over a link puts the host of its hello in the globals. -/
theorem sessionOpen_of_hello {c : Crypto} {e : HelloEnv} {s s₁ : Service} {link : Link} {h : Hello}
    (hlink : openLink e s = (some link, s₁)) (hh : e.hello c = some h) :
    sessionOpen c e s = (some (link, h), meet h s₁) := by
  unfold HelloEnv.hello at hh
  unfold sessionOpen
  rw [hlink]
  dsimp only
  rw [hh]
  rfl

theorem sessionOpen_cases (c : Crypto) (e : HelloEnv) (s : Service) :
    HelloCase c e s (sessionOpen c e s) := by
  have hquiet := quiet_openLink e s
  cases hlink : openLink e s with
  | mk link s₁ =>
    rw [hlink] at hquiet
    cases link with
    | none =>
      unfold sessionOpen
      rw [hlink]
      exact .failed hquiet
    | some link =>
      cases hh : e.hello c with
      | none =>
        unfold HelloEnv.hello at hh
        unfold sessionOpen
        rw [hlink]
        dsimp only
        rw [hh]
        exact .failed hquiet
      | some h =>
        rw [sessionOpen_of_hello hlink hh]
        exact .met hquiet hh

/-- What the trust check can do, when the host in the globals is that of the hello. -/
inductive CheckCase (h : Hello) (s : Service) : Bool × Service → Prop
  | trusted (hcheck : (checkHost h s).1 = true) :
      CheckCase h s (true, trustSetStatus 2 "MUTUAL AUTHENTICATION" (checked h s))
  | unknown (hcheck : (checkHost h s).1 = false) : CheckCase h s (false, setPending h (checked h s))

theorem sessionCheck_eq {h : Hello} {s : Service} (hportable : s.g.gTrustHostIsPortable = h.portable) :
    sessionCheck h s = if (checkHost h s).1 = true then
      (true, trustSetStatus 2 "MUTUAL AUTHENTICATION" (checked h s))
      else (false, setPending h (checked h s)) := by
  unfold sessionCheck checked checkHost
  rw [hportable]

theorem sessionCheck_cases {h : Hello} {s : Service} (hportable : s.g.gTrustHostIsPortable = h.portable) :
    CheckCase h s (sessionCheck h s) := by
  rw [sessionCheck_eq hportable]
  by_cases hcheck : (checkHost h s).1 = true
  · rw [if_pos hcheck]
    exact .trusted hcheck
  · rw [if_neg hcheck]
    exact .unknown (by simpa using hcheck)

/-- A session over a link that reads a hello makes the trust check. -/
theorem sessionHello_of_hello {c : Crypto} {e : HelloEnv} {s s₁ : Service} {link : Link} {h : Hello}
    (hlink : openLink e s = (some link, s₁)) (hh : e.hello c = some h) :
    sessionHello c e s = if (checkHost h s₁).1 = true then
      (some (link, h), trustSetStatus 2 "MUTUAL AUTHENTICATION" (checked h (meet h s₁)))
      else (none, setPending h (checked h (meet h s₁))) := by
  unfold sessionHello
  rw [sessionOpen_of_hello hlink hh]
  dsimp only
  rw [sessionCheck_eq rfl]
  change _ = if (checkHost h (meet h s₁)).1 = true then _ else _
  cases (checkHost h (meet h s₁)).1 <;> rfl

/-- The message a host signs: the phone's nonce, its own, and the two keys. -/
def hostMessage (phnonce hostnonce phonepub hostpub : Bytes) : Bytes :=
  [bar].intercalate [lit "ZTRUST/2", lit "HOST", phnonce, hostnonce, phonepub, hostpub]

/-- The host proved its key in this session: its signature over this session's nonces and the two keys
verifies. -/
def HostProved (c : Crypto) (h : Hello) (e : AnswerEnv) : Prop :=
  ∃ der nonce phnonce phonepub frame sigHex sig, e.phoneDer = some der ∧ phonepub = e.phonepub der.val ∧
    e.random = some nonce ∧
    trustHexEncode nonce.val 80 = some phnonce ∧ trustRecvFrame 4096 e.chunks = some frame ∧
    trustFrameField frame "HOST_SIG" 384 = some sigHex ∧ trustHexDecode sigHex 192 = some sig ∧
    trustHexDecode h.hostpub.val 256 = some h.hostder ∧
    c.verify h.hostder (hostMessage phnonce h.hostnonce.val phonepub h.hostpub.val) sig = true

/-- The host answers AUTH PAIR_REQUIRED. -/
def AnswerEnv.pairRequired (e : AnswerEnv) : Bool :=
  match trustRecvFrame 4096 e.chunks with
  | none => false
  | some frame => strstr frame (lit "AUTH PAIR_REQUIRED")

/-- The service once a session is established. -/
def establish (policy : CStr 96) (s : Service) : Service :=
  let s := trustSetStatus 3 "DEVICE TRUST ESTABLISHED" { s with g := { s.g with gTrustPolicy := policy } }
  { s with g := { s.g with gTrustReconnectRequested := false } }

/-- The phone gets its proof out, and the host answers AUTH PAIR_REQUIRED. -/
def PairRequired (c : Crypto) (link : Link) (h : Hello) (e : AnswerEnv) (s : Service) : Prop :=
  (sendPhoneProof c link h e s).1.isSome = true ∧ e.pairRequired = true

/-- What a session can do from the trust check on. -/
inductive AnswerCase (c : Crypto) (link : Link) (h : Hello) (e : AnswerEnv) (s : Service) :
    Option Unit × Service → Prop
  | failed {s₁ : Service} (hquiet : Quiet s s₁) : AnswerCase c link h e s (none, s₁)
  | error {s₁ : Service} (status : String) (hquiet : Quiet s s₁) :
      AnswerCase c link h e s (none, trustSetStatus (-1) status s₁)
  | pairRequired {s₁ : Service} (hquiet : Quiet s s₁) (hanswer : PairRequired c link h e s) :
      AnswerCase c link h e s (none, trustSetStatus 1 "HOST REQUIRES --PAIR-ONCE" s₁)
  | established {s₁ : Service} (policy : CStr 96) (hquiet : Quiet s s₁) (hproved : HostProved c h e) :
      AnswerCase c link h e s (some (), establish policy s₁)

/-- The handshake buffers hold their messages. -/
theorem handshakeMessage_host {phnonce phonepub : Bytes} (hostnonce : CStr 128) (hostpub : CStr 512)
    (hn : phnonce.length ≤ 64) (hp : phonepub.length ≤ 511) :
    handshakeMessage "HOST" [phnonce, hostnonce.val, phonepub, hostpub.val] =
      hostMessage phnonce hostnonce.val phonepub hostpub.val := by
  refine cut_of_lt ?_
  have h1 := hostnonce.fits
  have h2 := hostpub.fits
  have h3 : (lit "ZTRUST/2").length = 8 := rfl
  have h4 : (lit "HOST").length = 4 := rfl
  simp only [List.intercalate_cons_cons, List.intercalate_singleton, List.length_append,
    List.length_singleton, h3, h4]
  omega

theorem AnswerEnv.length_phonepub (e : AnswerEnv) (der : Bytes) : (e.phonepub der).length ≤ 511 := by
  unfold AnswerEnv.phonepub
  cases h : trustHexEncode der 512 with
  | none => have := e.stale.fits; rw [Option.getD_none]; omega
  | some y =>
    have hlen := trustHexEncode_length h
    unfold trustHexEncode at h
    split_ifs at h with hc
    rw [Option.getD_some]; omega

/-- How far the phone's half of the handshake gets. -/
inductive PhoneCase (e : AnswerEnv) (s : Service) : Option (Bytes × Bytes) × Service → Prop
  | failed {s₁ : Service} (hquiet : Quiet s s₁) : PhoneCase e s (none, s₁)
  | error {s₁ : Service} (status : String) (hquiet : Quiet s s₁) :
      PhoneCase e s (none, trustSetStatus (-1) status s₁)
  | sent {s₁ : Service} {phonepub phnonce : Bytes} (hquiet : Quiet s s₁)
      (hnonce : ∃ nonce, e.random = some nonce ∧ trustHexEncode nonce.val 80 = some phnonce)
      (hpub : ∃ der, e.phoneDer = some der ∧ phonepub = e.phonepub der.val) :
      PhoneCase e s (some (phonepub, phnonce), s₁)

theorem sendPhoneProof_cases (c : Crypto) (link : Link) (h : Hello) (e : AnswerEnv) (s : Service) :
    PhoneCase e s (sendPhoneProof c link h e s) := by
  unfold sendPhoneProof
  cases hder : e.phoneDer with
  | none => exact .error _ (.refl s)
  | some der =>
    dsimp only
    generalize hs₁ : { s with g := { s.g with gTrustPhoneFp := _ } } = s₁
    have hq : Quiet s s₁ := by
      rw [← hs₁]
      exact quiet_set rfl rfl rfl
    cases hr : e.random with
    | none => exact .failed hq
    | some nonce =>
      have hlen : nonce.val.length * 2 < 80 := by rw [nonce.property]; norm_num
      have henc := trustHexEncode_of_lt hlen
      dsimp only
      rw [henc, Option.getD_some]
      generalize handshakeMessage "PHONE" _ = proof
      have hq₂ : Quiet s (s₁.emit (.signed proof)) := hq.trans (quiet_emit (by simp))
      cases trustSign e.keystore 160 proof with
      | none => exact .error _ hq₂
      | some sig =>
        dsimp only
        have hq₃ := fun wire => hq₂.trans (quiet_emit (s := s₁.emit (.signed proof))
          (v := .sent wire) (by simp))
        split_ifs
        · exact .sent (hq₃ _) ⟨nonce, hr, henc⟩ ⟨der, hder, rfl⟩
        · exact .failed (hq₃ _)

theorem sessionAnswer_cases (c : Crypto) (link : Link) {h : Hello} (e : AnswerEnv) (s : Service)
    (hder : trustHexDecode h.hostpub.val 256 = some h.hostder) :
    AnswerCase c link h e s (sessionAnswer c link h e s) := by
  have hphone := sendPhoneProof_cases c link h e s
  unfold sessionAnswer
  generalize hq₀ : sendPhoneProof c link h e s = q at hphone ⊢
  cases hphone with
  | failed hq => exact .failed hq
  | error status hq => exact .error status hq
  | sent hq hnonce hpub =>
    rename_i s₁ phonepub phnonce
    obtain ⟨nonce, hrandom, henc⟩ := hnonce
    obtain ⟨der, hphone, rfl⟩ := hpub
    have hpub := e.length_phonepub der.val
    have hlen := trustHexEncode_length henc
    rw [nonce.property] at hlen
    dsimp only
    cases hframe : trustRecvFrame 4096 e.chunks with
    | none => exact .failed hq
    | some frame =>
      dsimp only
      unfold judgeAnswer
      by_cases hpair : strstr frame (lit "AUTH PAIR_REQUIRED") = true
      · rw [if_pos hpair]
        refine .pairRequired hq ⟨by rw [hq₀]; rfl, ?_⟩
        rw [AnswerEnv.pairRequired, hframe]
        exact hpair
      rw [if_neg hpair]
      by_cases hok : strstr frame (lit "AUTH OK") = false
      · rw [if_pos hok]
        exact .error _ hq
      rw [if_neg hok]
      cases hsig : (trustFrameField frame "HOST_SIG" 384).bind (trustHexDecode · 192) with
      | none => exact .failed hq
      | some hostsig =>
        obtain ⟨sigHex, hfield, hdec⟩ := Option.bind_eq_some_iff.mp hsig
        dsimp only
        rw [handshakeMessage_host h.hostnonce h.hostpub (by omega) hpub]
        by_cases h0 : hostsig = []
        · rw [if_pos h0]
          exact .failed hq
        rw [if_neg h0]
        by_cases hver : c.verify h.hostder
            (hostMessage phnonce h.hostnonce.val (e.phonepub der.val) h.hostpub.val) hostsig = false
        · rw [if_pos hver]
          exact .error _ hq
        · have hproved : HostProved c h e := by
            unfold HostProved
            exact ⟨der, nonce, phnonce, _, frame, sigHex, hostsig, hphone, rfl, hrandom, henc, hframe,
              hfield, hdec, hder, by simpa using hver⟩
          rw [if_neg hver]
          exact .established _ hq hproved

/-- A host that asks to pair again is the one way back into state 1 past the trust check. -/
theorem sessionAnswer_pairRequired {c : Crypto} {link : Link} {h : Hello} {e : AnswerEnv} {s : Service}
    (hanswer : PairRequired c link h e s) : ∃ s₁, Quiet s s₁ ∧
      sessionAnswer c link h e s = (none, trustSetStatus 1 "HOST REQUIRES --PAIR-ONCE" s₁) := by
  obtain ⟨hsent, hpair⟩ := hanswer
  have hphone := sendPhoneProof_cases c link h e s
  unfold sessionAnswer
  generalize sendPhoneProof c link h e s = q at hphone hsent ⊢
  cases hphone with
  | failed hq => cases hsent
  | error status hq => cases hsent
  | @sent s₁ phonepub phnonce hq hnonce hpub =>
    refine ⟨s₁, hq, ?_⟩
    unfold AnswerEnv.pairRequired at hpair
    dsimp only
    cases hframe : trustRecvFrame 4096 e.chunks with
    | none => simp [hframe] at hpair
    | some frame =>
      rw [hframe] at hpair
      exact if_pos hpair

/-! ### Commands and status changes -/

/-- What a consumed command can do to trust: raise the approval flag, for the pending host. -/
theorem trustUiConsumeCommand_trust (file : Option Bytes) (s : Service) :
    (trustUiConsumeCommand file s).g.trust =
      { s.g.trust with approve := (trustUiConsumeCommand file s).g.gTrustApproveRequested } ∧
    ((trustUiConsumeCommand file s).g.gTrustApproveRequested = true → s.g.gTrustApproveRequested = true ∨
      ∃ frame, .consumed frame s.g ∈ (trustUiConsumeCommand file s).log ∧
        commandRead file = some frame ∧ frameCommand frame = some (lit "APPROVE") ∧
        s.g.gTrustState = 1 ∧ s.g.gTrustHostPubPending.val ≠ [] ∧
        frameBinding frame = s.g.gTrustHostPubPending.val) := by
  rcases trustUiConsumeCommand_cases file s with hc | ⟨frame, hread, hc⟩
  · rw [hc]
    exact ⟨rfl, Or.inl⟩
  · rw [hc]
    dsimp only
    have hcase := commandEffect_cases frame s.g
    generalize commandEffect frame s.g = g' at hcase ⊢
    cases hcase with
    | approve hcmd hstate hpending hbinding =>
      exact ⟨rfl, fun _ => Or.inr ⟨frame, by simp, hread, hcmd, hstate, hpending, hbinding⟩⟩
    | ignored => exact ⟨rfl, Or.inl⟩
    | reconnect _ => exact ⟨rfl, Or.inl⟩
    | forget _ => exact ⟨rfl, Or.inl⟩
    | authApprove _ _ _ _ => exact ⟨rfl, Or.inl⟩
    | authDeny _ _ _ _ => exact ⟨rfl, Or.inl⟩

theorem extends_consume (file : Option Bytes) (s : Service) :
    Extends s (trustUiConsumeCommand file s) := by
  obtain ⟨-, -, new, hlog, hcons⟩ := trustUiConsumeCommand_spec file s
  refine ⟨new, hlog, fun g p hg => ?_⟩
  obtain ⟨frame, g', h⟩ := hcons _ hg
  cases h

/-- A status change over a state that only differs in its globals and preferences. -/
theorem extends_setStatus {s t : Service} (state : Int32) (status : String) (hlog : t.log = s.log) :
    Extends s (trustSetStatus state status t) := extends_publish hlog

/-- An approval touches one store of trust and nothing else. -/
theorem approveHost_spec (s : Service) :
    (approveHost s).log = s.log ∧
      (approveHost s).g.gTrustHostPubPending = s.g.gTrustHostPubPending ∧
      ((s.g.gTrustPendingIsPortable = true ∧ (approveHost s).prefs = s.prefs ∧
          (approveHost s).g.gTrustPortableHostPub = s.g.gTrustHostPubPending) ∨
        (s.g.gTrustPendingIsPortable = false ∧
          (approveHost s).prefs = (trustHostAdd s.g.gTrustHostPubPending.val s.prefs).2 ∧
          (approveHost s).g.gTrustPortableHostPub = s.g.gTrustPortableHostPub)) := by
  unfold approveHost
  split_ifs with h
  · exact ⟨rfl, rfl, Or.inl ⟨h, rfl, CStr.put_val_self _⟩⟩
  · exact ⟨rfl, rfl, Or.inr ⟨by simpa using h, rfl, rfl⟩⟩

theorem extends_approveStep (s : Service) : Extends s (approveStep s) := by
  unfold approveStep
  split_ifs
  · exact extends_setStatus _ _ (approveHost_spec s).1
  · exact .refl s

/-- FORGET clears the pin, takes the current key out of the registry, or does nothing. -/
theorem forgetHost_spec (s : Service) :
    (∃ new, (forgetHost s).log = new ++ s.log ∧ ∀ g paired, .published g paired ∉ new) ∧
      (forgetHost s).g = { s.g with gTrustPortableHostPub := (forgetHost s).g.gTrustPortableHostPub } ∧
      ((s.g.gTrustHostIsPortable = true ∧ (forgetHost s).prefs = s.prefs ∧
          (forgetHost s).g.gTrustPortableHostPub.val = []) ∨
        (s.g.gTrustHostIsPortable = false ∧ (forgetHost s).g.gTrustPortableHostPub =
            s.g.gTrustPortableHostPub ∧
          (forgetHost s).prefs = if s.g.gTrustHostPubCurrent.val ≠ [] then
            (trustHostRemove s.g.gTrustHostPubCurrent.val s.prefs).2 else s.prefs)) := by
  unfold forgetHost
  by_cases h : s.g.gTrustHostIsPortable = true
  · rw [if_pos h]
    exact ⟨⟨[.directCleared], rfl, by simp⟩, rfl, Or.inl ⟨h, rfl, rfl⟩⟩
  · rw [if_neg h]
    split_ifs with hc
    · exact ⟨⟨[], rfl, by simp⟩, rfl, Or.inr ⟨by simpa using h, rfl, rfl⟩⟩
    · exact ⟨⟨[], rfl, by simp⟩, rfl, Or.inr ⟨by simpa using h, rfl, rfl⟩⟩

theorem extends_forgetStep (s : Service) : Extends s (forgetStep s) := by
  unfold forgetStep
  split_ifs
  · obtain ⟨⟨new, hlog, hnew⟩, -⟩ := forgetHost_spec s
    refine ⟨.published _ _ :: new, congrArg (_ :: ·) hlog, fun g p hg => ?_⟩
    rcases List.mem_cons.mp hg with hg | hg
    · cases hg; rfl
    · exact absurd hg (hnew g p)
  · exact .refl s

/-- The approval step runs for a pending host whose approval was requested. -/
def ApprovalDue (g : Globals) : Prop :=
  g.gTrustState = 1 ∧ g.gTrustApproveRequested = true ∧ g.gTrustHostPubPending.val ≠ []

theorem approveStep_of_not_due {s : Service} (h : ¬ ApprovalDue s.g) : approveStep s = s := if_neg h

/-- The approval step leaves the pending key, and whose identity it last saw. -/
theorem approveStep_due {s : Service} (h : ApprovalDue s.g) :
    (∀ k, (approveStep s).prefs.get k = (approveHost s).prefs.get k) ∧
      (approveStep s).g.trust =
        { s.g.trust with
          state := 0
          approve := false
          pin := (approveHost s).g.gTrustPortableHostPub
          current := s.g.gTrustHostPubPending
          pendingIsPortable := false
          status := .put 128 (lit "WORKSTATION APPROVED - AUTHENTICATING") } := by
  have hstep : approveStep s = trustSetStatus 0 "WORKSTATION APPROVED - AUTHENTICATING"
      { approveHost s with g := { (approveHost s).g with
          gTrustHostPubCurrent := .put 512 (approveHost s).g.gTrustHostPubPending.val
          gTrustApproveRequested := false
          gTrustPendingIsPortable := false } } := if_pos h
  rw [hstep]
  refine ⟨fun k => trustSetStatus_get _ _ _ k, ?_⟩
  unfold approveHost
  split_ifs with hp
  · simp [Globals.trust]
  · simp [Globals.trust]

theorem approveStep_state {s : Service} (h : ApprovalDue s.g) : (approveStep s).g.gTrustState = 0 :=
  congrArg TrustVars.state (approveStep_due h).2

theorem forgetStep_of_not_requested {s : Service} (h : s.g.gTrustForgetRequested = false) :
    forgetStep s = s := by
  unfold forgetStep
  rw [if_neg (by simp [h])]

/-- FORGET leaves no pending or current host and no flag. -/
theorem forgetStep_requested {s : Service} (h : s.g.gTrustForgetRequested = true) :
    (∀ k, (forgetStep s).prefs.get k = (forgetHost s).prefs.get k) ∧
      (forgetStep s).g.gTrustForgetRequested = false ∧
      (forgetStep s).g.trust =
        { state := 0
          approve := false
          hostFp := .put 128 (lit "<NONE>")
          pending := .put 512 []
          current := .put 512 []
          pin := (forgetHost s).g.gTrustPortableHostPub
          hostIsPortable := false
          pendingIsPortable := false
          status := .put 128 (lit "WORKSTATION REVOKED") } := by
  unfold forgetStep
  rw [if_pos h]
  exact ⟨fun k => trustSetStatus_get _ _ _ k, rfl, rfl⟩

theorem forgetStep_state {s : Service} (h : s.g.gTrustForgetRequested = true) :
    (forgetStep s).g.gTrustState = 0 :=
  congrArg TrustVars.state (forgetStep_requested h).2.2

/-- The trust check stores nothing new. -/
theorem stored_checkHost {c : Crypto} {h : Hello} {s : Service} {K : Bytes} (hh : HelloOk c h)
    (hK : Stored (checkHost h s).2 K) : Stored s.prefs K := by
  unfold checkHost trustCheck at hK
  split_ifs at hK
  · exact hK
  · exact stored_trustHostIsTrusted hh.hostpub_semi hK

/-- A host passes the trust check as the pinned one or as one the preferences hold. -/
theorem pin_or_stored_of_checkHost {c : Crypto} {h : Hello} {s : Service} (hh : HelloOk c h)
    (hcheck : (checkHost h s).1 = true) :
    (s.g.gTrustPortableHostPub.val = h.hostpub.val ∧ s.g.gTrustPortableHostPub.val ≠ []) ∨
      Stored s.prefs h.hostpub.val := by
  unfold checkHost trustCheck at hcheck
  split_ifs at hcheck with hp
  · exact Or.inl ⟨miniStreq_iff.mp hcheck, hp.2⟩
  · exact Or.inr (trusted_of_trustHostIsTrusted hh.hostpub_ne hcheck).stored

/-! ### The loop of an established session -/

/-- The worker is in an established session. -/
def Pc.established : Pc → Bool
  | .linked | .waiting _ _ | .pong => true
  | _ => false

/-- What a step of an established session can do: stay, with nothing about trust changed, or end it. -/
inductive SessionCase (s : Service) : Worker → Prop
  | stays {pc : Pc} {s' : Service} (hpc : pc.established = true) (hquiet : Quiet s s') :
      SessionCase s ⟨pc, s'⟩
  | ends {s' : Service} (hquiet : Quiet s s') : SessionCase s (endSession s')

theorem SessionCase.of_quiet {s : Service} {w : Worker} (hpc : w.pc.established = true)
    (hq : Quiet s w.s) : SessionCase s w := by
  obtain ⟨pc, s'⟩ := w
  exact .stays hpc hq

/-- No step of an established session stands before a trust check. -/
theorem pc_ne_checking {s : Service} {w : Worker} (h : SessionCase s w) (link : Link) (hello : Hello) :
    w.pc ≠ .checking link hello := by
  rintro hpc
  cases h with
  | stays hest _ =>
    dsimp only at hpc
    subst hpc
    cases hest
  | ends _ => cases hpc

theorem established_beginProof (frame : CStr 4096) (e : ProofEnv) (s : Service) :
    (beginProof frame e s).pc.established = true := by
  unfold beginProof
  cases proofScreen frame.val e.clock with
  | error d => rfl
  | ok r =>
    dsimp only
    split_ifs <;> rfl

theorem roundStep_cases (e : RoundEnv) (s : Service) : SessionCase s (roundStep e s) := by
  unfold roundStep
  dsimp only
  generalize hpoll : lit (if e.locked = true then _ else _) = poll
  have hsent : Quiet s (s.emit (.sent poll)) := quiet_emit (by simp)
  by_cases hok : e.sendOk = false
  · rw [if_pos hok]
    exact .ends hsent
  rw [if_neg hok]
  cases trustRecvSessionMessage 4096 e.chunks with
  | none => exact .ends hsent
  | some smsg =>
    dsimp only
    by_cases hreq : strstr smsg (lit "PROOF_REQUEST") = true
    · rw [if_pos hreq]
      exact .of_quiet (established_beginProof _ _ _) (hsent.trans (quietRule.start _ _ _))
    rw [if_neg hreq]
    by_cases hpong : strstr smsg (lit "PONG") = true
    · rw [if_pos hpong]
      exact .stays rfl hsent
    · rw [if_neg hpong]
      exact .ends hsent

theorem turnStep_cases {r : ProofRequest} {left : ℕ} {p : Poll} {e : ProofEnv} {s : Service}
    (h : s.g.gTrustState ≠ 1) : SessionCase s (turnStep r left p e s) := by
  refine .of_quiet ?_ (quietSession.turn r left p e s h)
  unfold turnStep
  generalize waitTurn p s = q
  obtain ⟨decided, s₁⟩ := q
  cases decided <;> rfl

theorem giveUpStep_cases (s : Service) : SessionCase s (giveUpStep s) := .of_quiet rfl (quietRule.giveUp s)

theorem pongStep_cases (chunks : List Bytes) (s : Service) : SessionCase s (pongStep chunks s) := by
  unfold pongStep
  cases trustRecvSessionMessage 128 chunks with
  | none => exact .ends (.refl s)
  | some pong =>
    dsimp only
    split_ifs
    · exact .stays rfl (.refl s)
    · exact .ends (.refl s)

/-- The end of an established session. -/
theorem sessionEnd_established {s : Service} (h : s.g.gTrustState = 3) :
    (∀ k, (sessionEnd s).prefs.get k = s.prefs.get k) ∧
      (sessionEnd s).g.trust =
        { s.g.trust with state := 0, status := .put 128 (lit "DEVICE TRUST LOST") } ∧
      Extends s (sessionEnd s) := by
  have hend : sessionEnd s = trustSetStatus 0 "DEVICE TRUST LOST"
      { s with g := { s.g with gTrustReconnectRequested := false } } := if_pos h
  rw [hend]
  exact ⟨fun k => trustSetStatus_get _ _ _ k, rfl, extends_setStatus _ _ rfl⟩

end ZorinTrust
