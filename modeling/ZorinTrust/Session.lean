import ZorinTrust.Registry
import ZorinTrust.OwnerProof
import ZorinTrust.Endpoint

/-!
# One authentication session

`trust_auth_session` up to the point where the session is established, cut where the host's globals are
written but not yet checked, and where the phone waits for the host's second frame: `sessionOpen`
connects and reads the host's hello, `sessionCheck` makes the trust check, `sessionAnswer` sends the
phone's proof and judges the host's answer.  The digest and the signature
check are oracles (`Crypto`); everything the world decides is in `HelloEnv` and `AnswerEnv`.
-/

namespace ZorinTrust

open CText Numeral

/-- SHA-256, and `trust_verify_host` on key, message and signature. -/
structure Crypto where
  sha256 : Bytes → Bytes
  verify : Bytes → Bytes → Bytes → Bool

/-! ### Receiving -/

/-- The receive loops: chunks are appended until `done` says so; `none` is a closed connection or a
full buffer. -/
def recvLoop (done : Bytes → Bool) (cap : ℕ) : Bytes → List Bytes → Option Bytes
  | _, [] => none
  | out, chunk :: chunks =>
    let got := chunk.take (cap - 1 - out.length)
    if got = [] then none
    else if done (out ++ got) then some (out ++ got)
    else recvLoop done cap (out ++ got) chunks

/-- `out[pos-4..pos-2]` is `END`. -/
def endsInEnd (out : Bytes) : Bool :=
  4 ≤ out.length && (out.drop (out.length - 4)).take 3 == lit "END"

def frameDone (out : Bytes) : Bool :=
  strstr (cstr out) (lit "\nEND\n") || strstr (cstr out) (lit "\r\nEND\r\n") || endsInEnd out

def messageDone (out : Bytes) : Bool :=
  strstr (cstr out) (lit "PONG\n") || strstr (cstr out) (lit "PONG\r\n") ||
    strstr (cstr out) (lit "\nEND\n") || strstr (cstr out) (lit "\r\nEND\r\n")

/-- `trust_recv_frame`; the buffer as a C string. -/
def trustRecvFrame (cap : ℕ) (chunks : List Bytes) : Option Bytes :=
  (recvLoop frameDone cap [] chunks).map cstr

/-- `trust_recv_session_message`; the buffer as a C string. -/
def trustRecvSessionMessage (cap : ℕ) (chunks : List Bytes) : Option Bytes :=
  (recvLoop messageDone cap [] chunks).map cstr

/-! ### The host's hello -/

/-- What the phone keeps of the hello: the host's texts, its key in DER and the fingerprint of it. -/
structure Hello where
  hostpub : CStr 512
  hostnonce : CStr 128
  hostname : CStr 128
  hostidentity : CStr 96
  hostder : Bytes
  fp : Bytes
  deriving DecidableEq

/-- The fingerprint of a key text: `trust_fingerprint_der` of what it decodes to. -/
def keyFingerprint (c : Crypto) (key : Bytes) : Option Bytes :=
  (trustHexDecode key 256).bind (trustFingerprintDer c.sha256)

/-- The checks on the hello frame; `digestOk` is whether the digest call went through. -/
def parseHello (c : Crypto) (digestOk : Bool) (frame : Bytes) : Option Hello := do
  if strstr frame (lit "ZTRUST/2") = false then none else
  let hostpub ← fieldBuf frame "HOST_PUB" 512
  let hostnonce ← fieldBuf frame "HOST_NONCE" 128
  let hostder ← trustHexDecode hostpub.val 256
  if hostder = [] ∨ digestOk = false then none else
  let fp ← trustFingerprintDer c.sha256 hostder
  some {
    hostpub, hostnonce, hostder, fp
    hostname := (fieldBuf frame "HOST_NAME" 128).getD (.put 128 (lit "UNKNOWN HOST"))
    hostidentity := (fieldBuf frame "HOST_IDENTITY" 96).getD (.put 96 (lit "UNKNOWN")) }

/-- Does the host call itself portable. -/
def Hello.portable (h : Hello) : Bool := trustPrefix h.hostidentity.val (lit "portable/")

/-- The globals that describe the connecting host. -/
def setHost (h : Hello) (g : Globals) : Globals :=
  { g with
    gTrustHostName := .put 128 h.hostname.val
    gTrustHostFp := .put 128 h.fp
    gTrustHostIdentity := .put 96 h.hostidentity.val
    gTrustHostPubCurrent := .put 512 h.hostpub.val
    gTrustHostIsPortable := h.portable }

/-- The trust check: a portable host is compared with the pin when there is one. -/
def trustCheck (portable : Bool) (hostpub pin : Bytes) (p : Prefs) : Bool × Prefs :=
  if portable = true ∧ pin ≠ [] then (miniStreq pin hostpub, p) else trustHostIsTrusted hostpub p

/-- What the world contributes up to the trust check. -/
structure HelloEnv where
  socketOk : Bool := true
  transport : Option Bytes := none
  transportClock : Option Int64 := none
  connectOk : Bool := true
  retrySocketOk : Bool := true
  retryConnectOk : Bool := true
  chunks : List Bytes
  digestOk : Bool := true

/-- What is left of the endpoint once connected. -/
structure Link where
  portable : Bool
  invite : CStr 40
  deriving DecidableEq

/-- Connect to the invited endpoint, or to localhost when there is none or it is gone. -/
def openLink (e : HelloEnv) (s : Service) : Option Link × Service :=
  if e.socketOk = false then (none, s)
  else
    let (endpoint, s) := trustGetEndpoint e.transport e.transportClock s
    let s := s.emit (.connecting endpoint.address endpoint.port)
    if e.connectOk then (some ⟨endpoint.isPortable, endpoint.invite⟩, s)
    else if endpoint.rc ≤ 0 ∨ e.retrySocketOk = false then (none, s)
    else
      let s := (setTransport "USB / ADB" s).emit (.connecting [127, 0, 0, 1] zorinTrustPort)
      (if e.retryConnectOk then some ⟨false, .put 40 []⟩ else none, s)

/-- A host that fails the trust check becomes the pending one. -/
def setPending (h : Hello) (s : Service) : Service :=
  trustSetStatus 1 "UNKNOWN HOST - APPROVAL REQUIRED"
    { s with g := { s.g with
        gTrustHostPubPending := .put 512 h.hostpub.val
        gTrustPendingIsPortable := s.g.gTrustHostIsPortable } }

/-- `trust_auth_session` up to the trust check: the link and the hello, whose host is in the globals. -/
def sessionOpen (c : Crypto) (e : HelloEnv) (s : Service) : Option (Link × Hello) × Service :=
  match openLink e s with
  | (none, s) => (none, s)
  | (some link, s) =>
    match (trustRecvFrame 4096 e.chunks).bind (parseHello c e.digestOk) with
    | none => (none, s)
    | some h => (some (link, h), { s with g := setHost h s.g })

/-- The trust check of the host in the globals, and what follows from it. -/
def sessionCheck (h : Hello) (s : Service) : Bool × Service :=
  let (same, prefs) :=
    trustCheck s.g.gTrustHostIsPortable h.hostpub.val s.g.gTrustPortableHostPub.val s.prefs
  let s := { s with prefs }
  if same then (true, trustSetStatus 2 "MUTUAL AUTHENTICATION" s) else (false, setPending h s)

/-- `trust_auth_session` up to and including the trust check: the link and the hello of a host that
passed it, or nothing. -/
def sessionHello (c : Crypto) (e : HelloEnv) (s : Service) : Option (Link × Hello) × Service :=
  match sessionOpen c e s with
  | (none, s) => (none, s)
  | (some (link, h), s) =>
    match sessionCheck h s with
    | (true, s) => (some (link, h), s)
    | (false, s) => (none, s)

/-! ### The phone's proof and the host's answer -/

/-- What the world contributes from the trust check to the established session. -/
structure AnswerEnv where
  /-- `trust_get_public_der`; `none` for `phlen <= 0`, and the key fits its 256-byte buffer. -/
  phoneDer : Option { der : Bytes // der ≠ [] ∧ der.length ≤ 256 }
  /-- What `phonepub` holds when the key is too long to encode. -/
  stale : CStr 512 := .put 512 []
  digestOk : Bool := true
  random : Option { nonce : Bytes // nonce.length = 32 }
  keystore : Bytes → Option Bytes
  locked : Bool := false
  sendOk : Bool := true
  chunks : List Bytes

/-- The text `snprintf` puts in `proof` or `hproof`. -/
def handshakeMessage (role : String) (parts : List Bytes) : Bytes :=
  cut 1536 ([bar].intercalate (lit "ZTRUST/2" :: lit role :: parts))

/-- The phone's hello; a portable link carries the invitation. -/
def phoneHello (phonepub phnonce sig : Bytes) (locked : Bool) (link : Link) : Bytes :=
  cut 2300 (lit "PHONE_PUB " ++ phonepub ++ lit "\nPHONE_NONCE " ++ phnonce ++ lit "\nPHONE_SIG " ++ sig ++
    lit "\nPHONE_STATE " ++ lit (if locked then "LOCKED" else "UNLOCKED") ++
    (if link.portable = true ∧ link.invite.val ≠ [] then lit "\nINVITE " ++ link.invite.val else []) ++
    lit "\nEND\n")

def AnswerEnv.phonepub (e : AnswerEnv) (der : Bytes) : Bytes :=
  (trustHexEncode der 512).getD e.stale.val

/-- The phone's half of the handshake: the nonce text and the history, or a failed session. -/
def sendPhoneProof (c : Crypto) (link : Link) (h : Hello) (e : AnswerEnv) (s : Service) :
    Option (Bytes × Bytes) × Service :=
  match e.phoneDer with
  | none => (none, trustSetStatus (-1) "ANDROID KEYSTORE ERROR" s)
  | some der =>
    let phonepub := e.phonepub der.val
    let phoneFp := match trustFingerprintDer c.sha256 der.val with
      | some fp => if e.digestOk then .put 128 fp else s.g.gTrustPhoneFp
      | none => s.g.gTrustPhoneFp
    let s := { s with g := { s.g with gTrustPhoneFp := phoneFp } }
    match e.random with
    | none => (none, s)
    | some nonce =>
      let phnonce := (trustHexEncode nonce.val 80).getD []
      let proof := handshakeMessage "PHONE" [h.hostnonce.val, phnonce, h.hostpub.val, phonepub]
      let s := s.emit (.signed proof)
      match trustSign e.keystore 160 proof with
      | none => (none, trustSetStatus (-1) "PHONE SIGNATURE FAILED" s)
      | some sig =>
        let wire := phoneHello phonepub phnonce ((trustHexEncode sig 384).getD []) e.locked link
        (if e.sendOk then some (phonepub, phnonce) else none, s.emit (.sent wire))

/-- The host's answer: `some` when the session is established. -/
def judgeAnswer (c : Crypto) (h : Hello) (phonepub phnonce : Bytes) (frame : Bytes) (s : Service) :
    Option Unit × Service :=
  if strstr frame (lit "AUTH PAIR_REQUIRED") then (none, trustSetStatus 1 "HOST REQUIRES --PAIR-ONCE" s)
  else if strstr frame (lit "AUTH OK") = false then
    (none, trustSetStatus (-1) "HOST REJECTED DEVICE" s)
  else
    match (trustFrameField frame "HOST_SIG" 384).bind (trustHexDecode · 192) with
    | none => (none, s)
    | some hostsig =>
      if hostsig = [] then (none, s)
      else
        let hproof := handshakeMessage "HOST" [phnonce, h.hostnonce.val, phonepub, h.hostpub.val]
        if c.verify h.hostder hproof hostsig = false then
          (none, trustSetStatus (-1) "HOST SIGNATURE INVALID" s)
        else
          let policy := (fieldBuf frame "POLICY" 96).getD (.put 96 (lit "owner-workstation"))
          let s := { s with g := { s.g with gTrustPolicy := .put 96 policy.val } }
          let s := trustSetStatus 3 "DEVICE TRUST ESTABLISHED" s
          (some (), { s with g := { s.g with gTrustReconnectRequested := false } })

/-- `trust_auth_session` from the trust check to the established session. -/
def sessionAnswer (c : Crypto) (link : Link) (h : Hello) (e : AnswerEnv) (s : Service) :
    Option Unit × Service :=
  match sendPhoneProof c link h e s with
  | (none, s) => (none, s)
  | (some (phonepub, phnonce), s) =>
    match trustRecvFrame 4096 e.chunks with
    | none => (none, s)
    | some frame => judgeAnswer c h phonepub phnonce frame s

/-- The end of an established session. -/
def sessionEnd (s : Service) : Service :=
  let s := { s with g := { s.g with gTrustReconnectRequested := false } }
  if s.g.gTrustState = 3 then trustSetStatus 0 "DEVICE TRUST LOST" s else s

end ZorinTrust
