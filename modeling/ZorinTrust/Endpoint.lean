import ZorinTrust.Service

/-!
# The direct transport endpoint

`trust_get_endpoint` reads the file `direct-transport`, an expiring invitation to a private IPv4
address, and falls back to the localhost end of the ADB tunnel.
-/

namespace ZorinTrust

open CText Numeral

/-- `ZORIN_TRUST_PORT`. -/
def zorinTrustPort : ℤ := 47472

/-- The digit loop of `trust_parse_ipv4_octet`: value, number of digits, rest. -/
def octetDigits : ℕ → ℕ → ℕ → Bytes → ℕ × ℕ × Bytes
  | n + 1, value, digits, c :: p =>
    if isDigit c then octetDigits n (value * 10 + (c.toNat - 48)) (digits + 1) p
    else (value, digits, c :: p)
  | _, value, digits, p => (value, digits, p)

/-- `trust_parse_ipv4_octet`: the octet and the text after it. -/
def trustParseIpv4Octet (p : Bytes) : Option (UInt8 × Bytes) :=
  let (value, digits, rest) := octetDigits 3 0 0 p
  if digits = 0 ∨ value > 255 then none else some (UInt8.ofNat value, rest)

/-- The dot between two octets. -/
def skipDot : Bytes → Option Bytes
  | 46 :: p => some p
  | _ => none

/-- The address ranges `trust_parse_private_ipv4` accepts. -/
def isPrivate (a b : UInt8) : Bool :=
  a == 10 || (a == 172 && 16 ≤ b && b ≤ 31) || (a == 192 && b == 168) || (a == 169 && b == 254)

/-- `trust_parse_private_ipv4`: the four bytes of the address, in network order. -/
def trustParsePrivateIpv4 (text : Bytes) : Option Bytes := do
  let (a, p) ← trustParseIpv4Octet text
  let (b, p) ← trustParseIpv4Octet (← skipDot p)
  let (c, p) ← trustParseIpv4Octet (← skipDot p)
  let (d, p) ← trustParseIpv4Octet (← skipDot p)
  if p ≠ [] then none else if isPrivate a b then some [a, b, c, d] else none

/-- `trust_valid_invite`. -/
def trustValidInvite (invite : Bytes) : Bool :=
  invite.length == 32 && invite.all fun c => (trustHexval c).isSome

/-- What `trust_get_endpoint` returns: the code and the four output parameters. -/
structure Endpoint where
  rc : ℤ
  address : Bytes
  port : ℤ
  isPortable : Bool
  invite : CStr 40
  deriving DecidableEq

/-- 127.0.0.1, the phone's end of the ADB tunnel. -/
def localEndpoint : Endpoint := ⟨0, [127, 0, 0, 1], zorinTrustPort, false, .put 40 []⟩

/-- What the invitation file holds. -/
inductive Invitation
  /-- No invitation, and the file stays. -/
  | absent
  /-- An unusable invitation: `trust_clear_direct_endpoint` removes it. -/
  | unusable
  | usable (e : Endpoint)
  deriving DecidableEq

/-- The checks `trust_get_endpoint` makes on the fields of an invitation. -/
def readInvitation (frame : Bytes) (clock : Option Int64) : Invitation :=
  match trustFrameField frame "HOST" 64, trustFrameField frame "PORT" 16,
    trustFrameField frame "EXPIRES" 32, trustFrameField frame "INVITE" 40 with
  | some host, some portText, some expiresText, some inviteText =>
    if trustValidInvite inviteText = false then .unusable
    else
      match clock with
      | none => .absent
      | some now =>
        let port := wrap 32 (trustParseI64 portText)
        if trustParseI64 expiresText ≤ now.toInt ∨ port < 1 ∨ port > 65535 then .unusable
        else
          match trustParsePrivateIpv4 host with
          | none => .unusable
          | some address =>
            let mode := (trustFrameField frame "MODE" 32).getD []
            .usable ⟨1, address, port, miniStreq mode (lit "portable"), .put 40 inviteText⟩
  | _, _, _, _ => .unusable

/-- The invitation in the content of `direct-transport`. -/
def directTransport (file : Option Bytes) (clock : Option Int64) : Invitation :=
  match file with
  | none => .absent
  | some raw =>
    if cut 512 raw = [] then .absent
    else if strstr (cstr (cut 512 raw)) (lit "ZTRANSPORT/1") = false then .unusable
    else readInvitation (cstr (cut 512 raw)) clock

def setTransport (text : String) (s : Service) : Service :=
  { s with g := { s.g with gTrustTransport := .put 64 (lit text) } }

/-- `trust_get_endpoint` on the content of `direct-transport`. -/
def trustGetEndpoint (file : Option Bytes) (clock : Option Int64) (s : Service) : Endpoint × Service :=
  let s := setTransport "USB / ADB" s
  match directTransport file clock with
  | .absent => (localEndpoint, s)
  | .unusable => (localEndpoint, s.emit .directCleared)
  | .usable e => (e, setTransport (if e.isPortable then "DIRECT LAN / PORTABLE" else "DIRECT LAN") s)

end ZorinTrust
