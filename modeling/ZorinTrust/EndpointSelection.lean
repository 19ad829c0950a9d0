import ZorinTrust.Routine
import ZorinTrust.DirectRoundTrip
import ZorinTrust.HexText

/-!
# Where a session connects to

`trust_get_endpoint` answers with the endpoint of an unexpired invitation, or with the localhost end of
the tunnel and nothing of the invitation.  So a session connects to an invited private address or to
loopback, and the line INVITE goes out on a connection to the endpoint that carries it, and on no other.
-/

namespace ZorinTrust

open CText Numeral Lines

/-! ### The invitation -/

/-- An unexpired invitation and the endpoint it names; port and expiry are what `trust_parse_i64` makes
of their buffers. -/
structure Invited (frame : Bytes) (now : Int64) (ep : Endpoint) : Prop where
  rc : ep.rc = 1
  host : ∃ text groups, frameField frame "HOST" = some text ∧ PrivateIpv4 text groups ∧
    ep.address = groups.map octetByte
  port : ∃ text, trustFrameField frame "PORT" 16 = some text ∧ ep.port = wrap 32 (trustParseI64 text)
  range : 1 ≤ ep.port ∧ ep.port ≤ 65535
  expires : ∃ text, trustFrameField frame "EXPIRES" 32 = some text ∧ now.toInt < trustParseI64 text
  invite : frameField frame "INVITE" = some ep.invite.val
  digits : ep.invite.val.length = 32 ∧ ∀ c ∈ ep.invite.val, isHexDigit c = true
  mode : ep.isPortable = true ↔ frameField frame "MODE" = some (lit "portable")

/-- The file as the reader's buffer holds it is such an invitation, under the marker. -/
def Selected (file : Option Bytes) (clock : Option Int64) (ep : Endpoint) : Prop :=
  ∃ raw now, file = some raw ∧ clock = some now ∧ lit "ZTRANSPORT/1" <:+: cstr (cut 512 raw) ∧
    Invited (cstr (cut 512 raw)) now ep

theorem trustValidInvite_iff {invite : Bytes} :
    trustValidInvite invite = true ↔ invite.length = 32 ∧ ∀ c ∈ invite, isHexDigit c = true := by
  rw [trustValidInvite, Bool.and_eq_true, beq_iff_eq, List.all_eq_true]
  simp only [isSome_trustHexval]

/-- A value that leaves its buffer room is the field, whole. -/
theorem trustFrameField_iff {frame v : Bytes} {key : String} (cap : ℕ) (h : v.length + 1 < cap) :
    trustFrameField frame key cap = some v ↔ frameField frame key = some v := by
  rw [trustFrameField_eq_cut, Option.map_eq_some_iff]
  constructor
  · rintro ⟨w, hw, hcut⟩
    rw [hw, (cut_eq_iff h).mp hcut]
  · intro hv
    exact ⟨v, hv, (cut_eq_iff h).mpr rfl⟩

theorem mode_iff (frame : Bytes) :
    miniStreq ((trustFrameField frame "MODE" 32).getD []) (lit "portable") = true ↔
      frameField frame "MODE" = some (lit "portable") := by
  rw [miniStreq_iff, ← trustFrameField_iff 32 (by decide)]
  cases trustFrameField frame "MODE" 32 with
  | none => exact ⟨fun h => absurd h (by decide), fun h => by cases h⟩
  | some mode => simp

/-- **The checks accept exactly the invitations.** -/
theorem readInvitation_usable {frame : Bytes} {clock : Option Int64} {ep : Endpoint} (h0 : 0 ∉ frame) :
    readInvitation frame clock = .usable ep ↔ ∃ now, clock = some now ∧ Invited frame now ep := by
  constructor
  · intro h
    unfold readInvitation at h
    split at h
    · rename_i host portText expiresText inviteText hhost hport hexpires hinvite
      split_ifs at h with hvalid
      cases clock with
      | none => cases h
      | some now =>
        dsimp only at h
        split_ifs at h with hrange
        cases haddress : trustParsePrivateIpv4 host with
        | none =>
          rw [haddress] at h
          cases h
        | some address =>
          rw [haddress] at h
          cases h
          rw [not_or, not_or, not_le, not_lt, not_lt] at hrange
          rw [Bool.not_eq_false, trustValidInvite_iff] at hvalid
          obtain ⟨groups, hgroups, haddr⟩ := trustParsePrivateIpv4_eq_some.mp haddress
          have hlen := hgroups.length_le
          have hval : (CStr.put 40 inviteText).val = inviteText :=
            CStr.put_val_of_fits (trustFrameField_nulFree h0 hinvite) (by omega)
          rw [trustFrameField_iff 64 (by omega)] at hhost
          rw [trustFrameField_iff 40 (by omega)] at hinvite
          refine ⟨now, rfl, rfl, ⟨host, groups, hhost, hgroups, haddr⟩, ⟨portText, hport, rfl⟩,
            hrange.2, ⟨expiresText, hexpires, hrange.1⟩, ?_, ?_, mode_iff frame⟩
          · rw [hval]
            exact hinvite
          · rw [hval]
            exact hvalid
    · cases h
  · rintro ⟨now, rfl, h⟩
    obtain ⟨rc, address, port, isPortable, invite⟩ := ep
    obtain ⟨rfl, ⟨host, groups, hhost, hgroups, rfl⟩, ⟨portText, hport, rfl⟩, hrange,
      ⟨expiresText, hexpires, hlate⟩, hinvite, hdigits, hmode⟩ := h
    have hlen := hgroups.length_le
    have hlen' := hdigits.1
    dsimp only at hrange hlen'
    rw [← trustFrameField_iff 64 (by omega)] at hhost
    rw [← trustFrameField_iff 40 (by omega)] at hinvite
    unfold readInvitation
    rw [hhost, hport, hexpires, hinvite]
    dsimp only
    rw [if_neg (by rw [trustValidInvite_iff.mpr hdigits]; decide), if_neg (by omega),
      trustParsePrivateIpv4_eq_some.mpr ⟨groups, hgroups, rfl⟩]
    dsimp only
    rw [CStr.put_val_self, Bool.eq_iff_iff.mpr ((mode_iff frame).trans hmode.symm)]

theorem directTransport_usable {file : Option Bytes} {clock : Option Int64} {ep : Endpoint} :
    directTransport file clock = .usable ep ↔ Selected file clock ep := by
  unfold directTransport Selected
  cases file with
  | none => simp
  | some raw =>
    dsimp only
    by_cases hempty : cut 512 raw = []
    · have hmarker : ¬ lit "ZTRANSPORT/1" <:+: cstr (cut 512 raw) := by
        rw [hempty]
        decide
      rw [if_pos hempty]
      constructor
      · intro h
        cases h
      · rintro ⟨raw', now, hraw, -, hmarker', -⟩
        cases hraw
        exact absurd hmarker' hmarker
    rw [if_neg hempty]
    by_cases hmarker : lit "ZTRANSPORT/1" <:+: cstr (cut 512 raw)
    · rw [if_neg (by rw [strstr_iff.mpr hmarker]; decide), readInvitation_usable (zero_notMem_cstr _)]
      constructor
      · rintro ⟨now, hnow, h⟩
        exact ⟨raw, now, rfl, hnow, hmarker, h⟩
      · rintro ⟨raw', now, hraw, hnow, -, h⟩
        cases hraw
        exact ⟨now, hnow, h⟩
    · rw [if_pos (by rw [← Bool.not_eq_true, strstr_iff]; exact hmarker)]
      constructor
      · intro h
        cases h
      · rintro ⟨raw', now, hraw, -, hmarker', -⟩
        cases hraw
        exact absurd hmarker' hmarker

/-- **Selection fails closed**: the endpoint of the invitation, or the local one. -/
theorem selected_or_local (file : Option Bytes) (clock : Option Int64) (s : Service) :
    Selected file clock (trustGetEndpoint file clock s).1 ∨
      ((trustGetEndpoint file clock s).1 = localEndpoint ∧ ∀ ep, ¬ Selected file clock ep) := by
  unfold trustGetEndpoint
  dsimp only
  cases h : directTransport file clock with
  | usable ep => exact Or.inl (directTransport_usable.mp h)
  | absent =>
    refine Or.inr ⟨rfl, fun ep hep => ?_⟩
    rw [← directTransport_usable, h] at hep
    cases hep
  | unusable =>
    refine Or.inr ⟨rfl, fun ep hep => ?_⟩
    rw [← directTransport_usable, h] at hep
    cases hep

/-- An invited address is not loopback. -/
theorem Invited.ne_loopback {frame : Bytes} {now : Int64} {ep : Endpoint} (h : Invited frame now ep) :
    ep.address ≠ [127, 0, 0, 1] := by
  obtain ⟨text, groups, -, hgroups, haddress⟩ := h.host
  have hrange := (privateOctets_iff hgroups.octet).mpr hgroups.range
  rw [haddress]
  intro hloop
  rw [hloop] at hrange
  exact absurd hrange (by decide)

theorem Invited.invite_eol {frame : Bytes} {now : Int64} {ep : Endpoint} (h : Invited frame now ep) :
    ∀ c ∈ ep.invite.val, isEol c = false := fun c hc => by
  have hhex := h.digits.2 c hc
  by_contra heol
  rw [Bool.not_eq_false, isEol, Bool.or_eq_true, beq_iff_eq, beq_iff_eq] at heol
  rcases heol with rfl | rfl
  · exact absurd hhex (by decide)
  · exact absurd hhex (by decide)

/-! ### The connection -/

/-- The connection in place after a history: the last one that was opened. -/
def connection (l : List Event) : Option (Bytes × ℤ) :=
  l.findSome? fun
    | .connecting address port => some (address, port)
    | _ => none

/-- A connection attempt goes to the invited endpoint, or to the end of the tunnel. -/
def Permitted (e : HelloEnv) (address : Bytes) (port : ℤ) : Prop :=
  (address = [127, 0, 0, 1] ∧ port = zorinTrustPort) ∨
    ∃ ep, Selected e.transport e.transportClock ep ∧ address = ep.address ∧ port = ep.port

/-- Up to the connection there are only attempts. -/
def Attempt (e : HelloEnv) : Event → Prop
  | .connecting address port => Permitted e address port
  | .directCleared => True
  | _ => False

/-- What is left of the endpoint belongs to the connection in place. -/
structure Linked (e : HelloEnv) (link : Link) (address : Bytes) (port : ℤ) : Prop where
  permitted : Permitted e address port
  carried : link.portable = true → ∃ ep, Selected e.transport e.transportClock ep ∧
    ep.isPortable = true ∧ link.invite = ep.invite ∧ address = ep.address ∧ port = ep.port

theorem emits_trustGetEndpoint (e : HelloEnv) (s : Service) :
    Emits (Attempt e) s (trustGetEndpoint e.transport e.transportClock s).2 := by
  unfold trustGetEndpoint
  dsimp only
  cases directTransport e.transport e.transportClock with
  | absent => exact .of_log_eq rfl
  | unusable => exact .single .directCleared rfl trivial
  | usable ep => exact .of_log_eq rfl

/-- **Connecting**: attempts only, and the link belongs to the last of them. -/
theorem openLink_linked (e : HelloEnv) (s : Service) :
    Emits (Attempt e) s (openLink e s).2 ∧
      ∀ link ∈ (openLink e s).1, ∃ address port before, Emits (Attempt e) s before ∧
        (openLink e s).2.log = .connecting address port :: before.log ∧ Linked e link address port := by
  unfold openLink
  by_cases hsocket : e.socketOk = false
  · rw [if_pos hsocket]
    exact ⟨.refl s, fun _ h => by cases h⟩
  rw [if_neg hsocket]
  have hget := emits_trustGetEndpoint e s
  have hsel := selected_or_local e.transport e.transportClock s
  generalize trustGetEndpoint e.transport e.transportClock s = q at hget hsel ⊢
  obtain ⟨ep, s₁⟩ := q
  dsimp only at hget hsel ⊢
  have hperm : Permitted e ep.address ep.port := by
    rcases hsel with hsel | ⟨rfl, -⟩
    · exact Or.inr ⟨ep, hsel, rfl, rfl⟩
    · exact Or.inl ⟨rfl, rfl⟩
  have hlocal : Permitted e [127, 0, 0, 1] zorinTrustPort := Or.inl ⟨rfl, rfl⟩
  have hconn : Emits (Attempt e) s (s₁.emit (.connecting ep.address ep.port)) :=
    hget.trans (.single _ rfl hperm)
  have hback : Emits (Attempt e) s (setTransport "USB / ADB" (s₁.emit (.connecting ep.address ep.port))) :=
    hconn.trans (.of_log_eq rfl)
  split_ifs with hok hrc hagain
  · refine ⟨hconn, ?_⟩
    rintro _ ⟨⟩
    refine ⟨ep.address, ep.port, s₁, hget, rfl, hperm, fun hportable => ?_⟩
    rcases hsel with hsel | ⟨rfl, -⟩
    · exact ⟨ep, hsel, hportable, rfl, rfl, rfl⟩
    · cases hportable
  · exact ⟨hconn, fun _ h => by cases h⟩
  · refine ⟨hback.trans (.single _ rfl hlocal), ?_⟩
    rintro _ ⟨⟩
    exact ⟨_, _, _, hback, rfl, hlocal, fun hportable => by cases hportable⟩
  · exact ⟨hback.trans (.single _ rfl hlocal), fun _ h => by cases h⟩

/-! ### What goes out on it -/

/-- Once connected nothing else is connected to, and a line INVITE is the invitation of a portable
link. -/
def Admitted (link : Link) : Event → Prop
  | .connecting _ _ => False
  | .sent m => ∀ v, fieldText ("INVITE", v) ∈ lines m → link.portable = true ∧ v = link.invite.val
  | _ => True

variable {link : Link} {s t : Service}

theorem admitted_of_routine {ev : Event} (h : RoutineEvent s ev) : Admitted link ev := by
  cases ev with
  | published _ _ => trivial
  | consumed _ _ => trivial
  | directCleared => trivial
  | connecting _ _ => exact h
  | signed _ => trivial
  | sent m => exact fun v hv => absurd hv (h v)

theorem Routine.admitted (h : Routine s t) : Emits (Admitted link) s t := by
  obtain ⟨new, hlog, hnew⟩ := h.events
  exact ⟨new, hlog, fun ev hev => admitted_of_routine (hnew ev hev)⟩

theorem emits_setStatus (state : Int32) (status : String) (h : t.log = s.log) :
    Emits (Admitted link) s (trustSetStatus state status t) :=
  .single (.published _ _) (by rw [← h]; rfl) trivial

/-! ### The handshake -/

/-- The fields of the phone's hello. -/
def helloFields (phonepub phnonce sig : Bytes) (locked : Bool) (link : Link) : List (String × Bytes) :=
  [("PHONE_PUB", phonepub), ("PHONE_NONCE", phnonce), ("PHONE_SIG", sig),
    ("PHONE_STATE", lit (if locked then "LOCKED" else "UNLOCKED"))] ++
    if link.portable = true ∧ link.invite.val ≠ [] then [("INVITE", link.invite.val)] else []

/-- The phone's hello fits its buffer. -/
theorem phoneHello_eq {phonepub phnonce sig : Bytes} (locked : Bool) (link : Link)
    (hpub : phonepub.length ≤ 510) (hnonce : phnonce.length = 64) (hsig : sig.length ≤ 320) :
    phoneHello phonepub phnonce sig locked link =
      message (helloFields phonepub phnonce sig locked link) := by
  have hinvite := link.invite.fits
  have hstate : (lit (if locked then "LOCKED" else "UNLOCKED")).length ≤ 8 := by
    cases locked <;> decide
  have h1 : (lit "PHONE_PUB ").length = 10 := rfl
  have h2 : (lit "\nPHONE_NONCE ").length = 13 := rfl
  have h3 : (lit "\nPHONE_SIG ").length = 11 := rfl
  have h4 : (lit "\nPHONE_STATE ").length = 13 := rfl
  have h5 : (lit "\nINVITE ").length = 8 := rfl
  have h6 : (lit "\nEND\n").length = 5 := rfl
  rw [phoneHello, cut_of_lt]
  · have e1 : lit "PHONE_PUB " = lit "PHONE_PUB" ++ [sp] := rfl
    have e2 : lit "\nPHONE_NONCE " = 10 :: (lit "PHONE_NONCE" ++ [sp]) := rfl
    have e3 : lit "\nPHONE_SIG " = 10 :: (lit "PHONE_SIG" ++ [sp]) := rfl
    have e4 : lit "\nPHONE_STATE " = 10 :: (lit "PHONE_STATE" ++ [sp]) := rfl
    have e5 : lit "\nINVITE " = 10 :: (lit "INVITE" ++ [sp]) := rfl
    have e6 : lit "\nEND\n" = 10 :: lit "END\n" := rfl
    rw [e1, e2, e3, e4, e5, e6, message, helloFields]
    split_ifs <;> simp [fieldText]
  · have htail : (if link.portable = true ∧ link.invite.val ≠ [] then lit "\nINVITE " ++ link.invite.val
        else []).length ≤ 47 := by
      split_ifs
      · rw [List.length_append, h5]
        omega
      · exact Nat.zero_le _
    simp only [List.length_append, h1, h2, h3, h4, h6, hnonce]
    omega

/-- **The invitation in the hello**: the line INVITE is there for a portable link only, and says what
the link does. -/
theorem admitted_phoneHello {der nonce sig : Bytes} {e : AnswerEnv} (hder : der.length ≤ 255)
    (hnonce : nonce.length = 32) (hsig : sig.length ≤ 160)
    (hlink : link.portable = true → ∀ c ∈ link.invite.val, isEol c = false) :
    Admitted link (.sent (phoneHello (e.phonepub der) ((trustHexEncode nonce 80).getD [])
      ((trustHexEncode sig 384).getD []) e.locked link)) := by
  obtain ⟨pub, hpub⟩ : ∃ pub, trustHexEncode der 512 = some pub := ⟨_, trustHexEncode_of_lt (by omega)⟩
  obtain ⟨non, hnon⟩ : ∃ non, trustHexEncode nonce 80 = some non := ⟨_, trustHexEncode_of_lt (by omega)⟩
  obtain ⟨hex, hhex⟩ : ∃ hex, trustHexEncode sig 384 = some hex := ⟨_, trustHexEncode_of_lt (by omega)⟩
  have hlpub := trustHexEncode_length hpub
  have hlnon := trustHexEncode_length hnon
  have hlhex := trustHexEncode_length hhex
  rw [AnswerEnv.phonepub, hpub, hnon, hhex, Option.getD_some, Option.getD_some, Option.getD_some,
    phoneHello_eq e.locked link (by omega) (by omega) (by omega)]
  have hfixed : ∀ f ∈ [("PHONE_PUB", pub), ("PHONE_NONCE", non), ("PHONE_SIG", hex),
      ("PHONE_STATE", lit (if e.locked then "LOCKED" else "UNLOCKED"))],
      FieldOk f ∧ lit f.1 ≠ lit "INVITE" := by
    simp only [List.forall_mem_cons, List.not_mem_nil, false_implies, implies_true, and_true]
    refine ⟨⟨fieldOk_of_key (by decide) (isEol_trustHexEncode hpub), by decide⟩,
      ⟨fieldOk_of_key (by decide) (isEol_trustHexEncode hnon), by decide⟩,
      ⟨fieldOk_of_key (by decide) (isEol_trustHexEncode hhex), by decide⟩,
      fieldOk_of_key (by decide) ?_, by decide⟩
    cases e.locked <;> exact isEol_of_all (by decide)
  have hfields : ∀ f ∈ helloFields pub non hex e.locked link, FieldOk f ∧
      (lit f.1 = lit "INVITE" → link.portable = true ∧ f.2 = link.invite.val) := by
    intro f hf
    rcases List.mem_append.mp hf with hf | hf
    · obtain ⟨hok, hkey⟩ := hfixed f hf
      exact ⟨hok, fun h => absurd h hkey⟩
    · split_ifs at hf with hportable
      · obtain rfl := List.mem_singleton.mp hf
        exact ⟨fieldOk_of_key (by decide) (hlink hportable.1), fun _ => ⟨hportable.1, rfl⟩⟩
      · cases hf
  intro v hv
  obtain ⟨f, hf, hkey, rfl⟩ := mem_lines_message (fun f hf => (hfields f hf).1) hv
  exact (hfields f hf).2 hkey

variable {c : Crypto} {h : Hello} {e : AnswerEnv}

theorem emits_sessionAnswer (s : Service) (hkey : ∀ der ∈ e.phoneDer, der.val.length ≤ 255)
    (hlink : link.portable = true → ∀ c ∈ link.invite.val, isEol c = false) :
    Emits (Admitted link) s (sessionAnswer c link h e s).2 := by
  have hR : Composes (Emits (Admitted link)) := ⟨.refl, .trans⟩
  refine hR.answer c link h e ?_ fun _ _ frame s => (routine_judgeAnswer c h _ _ frame s).admitted
  refine hR.phoneProof c link h e s ?_ ?_ ?_ ?_
  · exact fun _ _ => emits_setStatus _ _ rfl
  · exact fun _ => .of_log_eq rfl
  · exact fun msg s => .single (.signed msg) rfl trivial
  · intro der hder nonce _ sig s hsig
    exact .single _ rfl (admitted_phoneHello (hkey der hder) nonce.property hsig hlink)

/-- The link and the history the session goes on with, once connected. -/
theorem emits_sessionHello (c : Crypto) (e : HelloEnv) (s : Service) :
    ((sessionHello c e s).1 = none ∧ (sessionHello c e s).2 = (openLink e s).2) ∨
      ∃ link ∈ (openLink e s).1, Emits (Admitted link) (openLink e s).2 (sessionHello c e s).2 ∧
        ∀ p ∈ (sessionHello c e s).1, p.1 = link := by
  cases hlink : openLink e s with
  | mk opened s₁ =>
    cases opened with
    | none =>
      unfold sessionHello sessionOpen
      rw [hlink]
      exact Or.inl ⟨rfl, rfl⟩
    | some link =>
      refine Or.inr ⟨link, rfl, ?_⟩
      cases hh : e.hello c with
      | none =>
        unfold HelloEnv.hello at hh
        unfold sessionHello sessionOpen
        rw [hlink]
        dsimp only
        rw [hh]
        exact ⟨.refl s₁, fun _ h => by cases h⟩
      | some h =>
        rw [sessionHello_of_hello hlink hh]
        split_ifs
        · refine ⟨emits_setStatus _ _ rfl, ?_⟩
          rintro _ ⟨⟩
          rfl
        · exact ⟨emits_setStatus _ _ rfl, fun _ h => by cases h⟩

/-! ### The session -/

theorem Linked.invite_eol {e : HelloEnv} {address : Bytes} {port : ℤ} (h : Linked e link address port)
    (hportable : link.portable = true) : ∀ c ∈ link.invite.val, isEol c = false := by
  obtain ⟨ep, ⟨_, _, -, -, -, hinvited⟩, -, hinvite, -⟩ := h.carried hportable
  rw [hinvite]
  exact hinvited.invite_eol

/-- **A whole session**: attempts to connect, or attempts, a connection and what goes out on it. -/
theorem trustAuthSession_events (c : Crypto) (e : SessionEnv) (s : Service)
    (hkey : ∀ der ∈ e.answer.phoneDer, der.val.length ≤ 255) :
    Emits (Attempt e.hello) s (trustAuthSession c e s) ∨
      ∃ link address port before connected, Emits (Attempt e.hello) s before ∧
        connected.log = .connecting address port :: before.log ∧ Linked e.hello link address port ∧
        Emits (Admitted link) connected (trustAuthSession c e s) := by
  obtain ⟨hattempt, hlinked⟩ := openLink_linked e.hello s
  have hhello := emits_sessionHello c e.hello s
  unfold trustAuthSession
  generalize sessionHello c e.hello s = q at hhello ⊢
  obtain ⟨passed, s₁⟩ := q
  rcases hhello with ⟨rfl, rfl⟩ | ⟨link, hlink, hhello, hpassed⟩
  · exact Or.inl hattempt
  obtain ⟨address, port, before, hbefore, hlog, hlinked⟩ := hlinked link hlink
  refine Or.inr ⟨link, address, port, before, _, hbefore, hlog, hlinked, hhello.trans ?_⟩
  cases passed with
  | none => exact .refl s₁
  | some lh =>
    obtain ⟨link', h⟩ := lh
    obtain rfl : link' = link := hpassed _ rfl
    dsimp only
    have hanswer := emits_sessionAnswer (c := c) (h := h) s₁ hkey hlinked.invite_eol
    generalize sessionAnswer c link' h e.answer s₁ = q at hanswer ⊢
    obtain ⟨established, s₂⟩ := q
    cases established with
    | none => exact hanswer
    | some _ => exact hanswer.trans ((routineSession.loop e.turns s₂).trans (routine_sessionEnd _)).admitted

/-- A message after the connection, and the events before it. -/
theorem split_of_mem {α : Type*} {new old newer older : List α} {x y : α} (hy : y ∉ x :: old)
    (h : new ++ x :: old = newer ++ y :: older) :
    ∃ mid, new = newer ++ y :: mid ∧ older = mid ++ x :: old := by
  rcases List.append_eq_append_iff.mp h with ⟨tail, -, htail⟩ | ⟨tail, hnew, htail⟩
  · rw [htail] at hy
    exact absurd (by simp) hy
  · cases tail with
    | nil =>
      obtain ⟨rfl, -⟩ := List.cons.inj htail
      exact absurd List.mem_cons_self hy
    | cons z mid =>
      obtain ⟨rfl, rfl⟩ := List.cons.inj htail
      exact ⟨mid, hnew, rfl⟩

theorem connection_append {new old : List Event} {address : Bytes} {port : ℤ}
    (h : ∀ ev ∈ new, Admitted link ev) :
    connection (new ++ .connecting address port :: old) = some (address, port) := by
  induction new with
  | nil => rfl
  | cons ev new ih =>
    have hev := h ev List.mem_cons_self
    have hrest := ih fun ev' hev' => h ev' (List.mem_cons_of_mem _ hev')
    cases ev with
    | connecting _ _ => exact absurd hev id
    | published _ _ => exact hrest
    | consumed _ _ => exact hrest
    | directCleared => exact hrest
    | signed _ => exact hrest
    | sent _ => exact hrest

/-- **Endpoint selection fails closed**: an unexpired invitation with a private address, or the local
endpoint and nothing else.  A session connects to one or the other, and an invitation goes out on a
connection to the portable endpoint that carries it. -/
theorem endpoint_fails_closed :
    (∀ (file : Option Bytes) (clock : Option Int64) (s : Service),
      Selected file clock (trustGetEndpoint file clock s).1 ∨
        ((trustGetEndpoint file clock s).1 = localEndpoint ∧ ∀ ep, ¬ Selected file clock ep)) ∧
    ∀ (c : Crypto) (e : SessionEnv) (s : Service), (∀ der ∈ e.answer.phoneDer, der.val.length ≤ 255) →
      (∀ address port, .connecting address port ∈ since s (trustAuthSession c e s) →
        Permitted e.hello address port) ∧
      ∀ newer older m v, since s (trustAuthSession c e s) = newer ++ .sent m :: older →
        fieldText ("INVITE", v) ∈ lines m →
        ∃ ep, Selected e.hello.transport e.hello.transportClock ep ∧ ep.isPortable = true ∧
          v = ep.invite.val ∧ connection older = some (ep.address, ep.port) ∧
          ep.address ≠ [127, 0, 0, 1] := by
  refine ⟨selected_or_local, fun c e s hkey => ?_⟩
  rcases trustAuthSession_events c e s hkey with ⟨new, hlog, hnew⟩ |
    ⟨link, address, port, before, connected, ⟨old, hold, hattempt⟩, hconnected, hlinked, new, hlog, hnew⟩
  · rw [since_eq hlog]
    refine ⟨fun address port hmem => hnew _ hmem, fun newer older m v hsplit _ => ?_⟩
    exact absurd (hnew (.sent m) (by rw [hsplit]; simp)) id
  · have hall : (trustAuthSession c e s).log = (new ++ .connecting address port :: old) ++ s.log := by
      rw [hlog, hconnected, hold, List.append_assoc, List.cons_append]
    rw [since_eq hall]
    refine ⟨fun address' port' hmem => ?_, fun newer older m v hsplit hinvite => ?_⟩
    · rcases List.mem_append.mp hmem with hmem | hmem
      · exact absurd (hnew _ hmem) id
      · rcases List.mem_cons.mp hmem with heq | hmem
        · cases heq
          exact hlinked.permitted
        · exact hattempt _ hmem
    · have hsent : Event.sent m ∉ Event.connecting address port :: old := fun hmem => by
        rcases List.mem_cons.mp hmem with heq | hmem
        · cases heq
        · exact hattempt _ hmem
      obtain ⟨mid, rfl, rfl⟩ := split_of_mem hsent hsplit
      have hadmits : link.portable = true ∧ v = link.invite.val :=
        hnew (.sent m) (List.mem_append_right _ List.mem_cons_self) v hinvite
      obtain ⟨ep, hsel, hportable, hlinkinvite, rfl, rfl⟩ := hlinked.carried hadmits.1
      have hmid : ∀ ev ∈ mid, Admitted link ev := fun ev hev =>
        hnew ev (List.mem_append_right _ (List.mem_cons_of_mem _ hev))
      refine ⟨ep, hsel, hportable, by rw [hadmits.2, hlinkinvite], connection_append hmid, ?_⟩
      obtain ⟨_, _, -, -, -, hinvited⟩ := hsel
      exact hinvited.ne_loopback

/-! ### Samples -/

/-- The file of a portable invitation that expires at 1100. -/
def invitationFile (invite : String) : Bytes :=
  lit "ZTRANSPORT/1\nHOST 192.168.0.7\nPORT 47472\nEXPIRES 1100\nMODE portable\nINVITE " ++ lit invite ++
    lit "\nEND\n"

/-- A host of the registry, met over an invitation. -/
def invitedComeback (invite : String) : SessionEnv :=
  { comeback [] with
    hello := { deskHello with
      transport := some (invitationFile invite)
      transportClock := some 1000 } }

/-- The hello of the sample phone on that link. -/
def invitedHello (invite : String) : Bytes :=
  phoneHello (lit "02") ((trustHexEncode (List.replicate 32 8) 80).getD []) (lit "09") false
    ⟨true, .put 40 (lit invite)⟩

/-- The phone's hello carries the invitation to the host of the invitation. -/
theorem endpoint_fails_closed_portable : ∃ (ep : Endpoint) (older : List Event),
    since knowsDesk (trustAuthSession sampleCrypto
      (invitedComeback "0123456789abcdef0123456789abcdef") knowsDesk) =
      .sent (invitedHello "0123456789abcdef0123456789abcdef") :: older ∧
    ep.invite.val = lit "0123456789abcdef0123456789abcdef" ∧
    connection older = some (ep.address, ep.port) ∧ ep.address ≠ [127, 0, 0, 1] := by
  have hhead : (since knowsDesk (trustAuthSession sampleCrypto
      (invitedComeback "0123456789abcdef0123456789abcdef") knowsDesk)).head? =
      some (.sent (invitedHello "0123456789abcdef0123456789abcdef")) := by decide +kernel
  obtain ⟨older, hsplit⟩ := List.head?_eq_some_iff.mp hhead
  have hline : fieldText ("INVITE", lit "0123456789abcdef0123456789abcdef") ∈
      lines (invitedHello "0123456789abcdef0123456789abcdef") := by decide +kernel
  have hkey : ∀ der ∈ (comeback []).answer.phoneDer, der.val.length ≤ 255 := by decide
  obtain ⟨ep, -, -, hinvite, hconn, hne⟩ := (endpoint_fails_closed.2 sampleCrypto
    (invitedComeback "0123456789abcdef0123456789abcdef") knowsDesk hkey).2 [] older _ _ hsplit hline
  exact ⟨ep, older, hsplit, hinvite.symm, hconn, hne⟩

/-- Upper-case digits pass as well. -/
theorem endpoint_fails_closed_uppercase : ¬ ∀ (file : Option Bytes) (clock : Option Int64) (s : Service),
    (trustGetEndpoint file clock s).1.rc = 1 →
    ∀ c ∈ (trustGetEndpoint file clock s).1.invite.val, (48 ≤ c ∧ c ≤ 57) ∨ (97 ≤ c ∧ c ≤ 102) := by
  intro hall
  have hupper := hall (some (invitationFile "0123456789ABCDEF0123456789ABCDEF")) (some 1000) {}
    (by decide +kernel) 65 (by decide +kernel)
  exact absurd hupper (by decide)

end ZorinTrust
