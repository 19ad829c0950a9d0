import ZorinTrust.Lib.Calls
import ZorinTrust.PrivilegeDiff
import ZorinTrust.Bridge

/-!
# The app's side of the bridge

`bridge_request` as a program over socket calls.  `net` keeps what its socket has seen: whether it is open,
what was sent over it and what has come back.  `bridgeRequest_run` says of every run, however the reply is
cut into pieces, that the socket is closed again and that the answer is `bridgeReply` of the bytes received.
-/

namespace ZorinTrust.Bridge

open CText Lines Calls Calls.Monitor

/-- The calls of `bridge_request`. -/
inductive Net
  /-- `last_errno`. -/
  | errno
  | socket
  | connect (fd : ℤ)
  | send (fd : ℤ) (wire : Bytes)
  | recv (fd : ℤ) (count : ℕ)
  | close (fd : ℤ)

/-- What a call returns; a failed `recv` is `none`. -/
@[reducible] def Net.Answer : Net → Type
  | errno | socket | connect _ | send _ _ => ℤ
  | recv _ _ => Option Bytes
  | close _ => Unit

/-- A program of the app. -/
abbrev NetM := Prog Net Net.Answer

def net (c : Net) : NetM c.Answer := Prog.perform c

/-- `e ? e : code`. -/
def errOr (e code : ℤ) : ℤ := if e ≠ 0 then e else code

/-- The receive loop into a buffer of `cap` bytes that holds `out`: what it holds in the end and `e`, or the
code of the `return` inside. -/
def recvReply (fd : ℤ) (cap : ℕ) (out : Bytes) : NetM (Except ℤ (Bytes × ℤ)) :=
  if out.length < cap - 1 then
    net (.recv fd (cap - 1 - out.length)) >>= fun n =>
      match n with
      | none => do
        let e ← net .errno
        if out = [] then
          net (.close fd)
          return .error (errOr e (-4))
        else return .ok (out, e)
      | some [] => return .ok (out, 0)
      | some (c :: b) => recvReply fd cap (out ++ c :: b)
  else return .ok (out, 0)
termination_by cap - 1 - out.length
decreasing_by
  rw [List.length_append, List.length_cons]
  omega

/-- The end of `bridge_request`. -/
def replyCode (out : Bytes) (pos : ℕ) (e : ℤ) : ℤ :=
  if pos = 0 then errOr e (-4) else if strstr out (lit "ERR auth-required-or-failed") then 403 else 0

/-- The part of `bridge_request` behind the `send`. -/
def bridgeReceive (fd : ℤ) (cap : ℕ) : NetM (ℤ × Bytes) := do
  match ← recvReply fd cap [] with
  | .error code => return (code, [])
  | .ok (got, e) => do
    net (.close fd)
    return (replyCode (trimLine (cstr got)) got.length e, trimLine (cstr got))

/-- `bridge_request(command, out, cap)`: its code and `out`. -/
def bridgeRequest (gBridgeToken : CStr 96) (command out : Bytes) (cap : ℕ) : NetM (ℤ × Bytes) :=
  if cap < 2 then return (-1, out)
  else do
    let fd ← net .socket
    if fd < 0 then
      let e ← net .errno
      return (e, [])
    else
      let rc ← net (.connect fd)
      if rc ≠ 0 then
        let e ← net .errno
        net (.close fd)
        return (errOr e (-2), [])
      else
        match bridgeWire gBridgeToken command with
        | none => do
          net (.close fd)
          return (401, [])
        | some wire => do
          let sent ← net (.send fd wire)
          if sent ≠ wire.length then
            let e ← net .errno
            net (.close fd)
            return (errOr e (-3), [])
          else bridgeReceive fd cap

/-! ### What the socket has seen -/

/-- The socket of a request. -/
structure Conn where
  /-- The descriptor while it is open. -/
  fd : Option ℤ := none
  connected : Bool := false
  wire : Option Bytes := none
  got : Bytes := []
  /-- The last call failed. -/
  failed : Bool := false

/-- **What a request keeps to**, for a token, a command and a buffer of `cap` bytes: one socket, which is
used only while it is open; nothing but the wire text of the command is sent; what is received fits.  The
peer is any relation `gives` between the bytes received and what the next `recv` returns. -/
def request (token : CStr 96) (command : Bytes) (cap : ℕ) (gives : Bytes → Option Bytes → Prop) :
    Monitor Net Net.Answer Conn where
  allowed c
    | .errno => True
    | .socket => c.fd = none ∧ c.wire = none
    | .connect fd => c.fd = some fd ∧ c.wire = none
    | .send fd wire => c.fd = some fd ∧ c.connected = true ∧ c.wire = none ∧
        bridgeWire token command = some wire
    | .recv fd count => c.fd = some fd ∧ c.wire ≠ none ∧ 0 < count ∧ c.got.length + count < cap
    | .close fd => c.fd = some fd
  answers c
    | .errno, e => 0 ≤ e ∧ (c.failed = true → 0 < e)
    | .recv _ count, b => gives c.got b ∧ ∀ t ∈ b, t.length ≤ count
    | _, _ => True
  next c
    | .errno, _ => c
    | .socket, fd => { c with fd := if 0 ≤ fd then some fd else none, failed := fd < 0 }
    | .connect _, rc => { c with connected := rc = 0, failed := rc ≠ 0 }
    | .send _ wire, n => { c with wire := if n = wire.length then some wire else none, failed := n < 0 }
    | .recv _ _, b => { c with got := c.got ++ b.getD [], failed := b = none }
    | .close _, _ => { c with fd := none, failed := false }

variable {token : CStr 96} {command : Bytes} {cap : ℕ} {gives : Bytes → Option Bytes → Prop} {fd : ℤ}
  {c : Conn}

/-! ### One call -/

theorem wp_netErrno {Q : ℤ → Conn → Prop} (hQ : ∀ e, 0 ≤ e → (c.failed = true → 0 < e) → Q e c) :
    (request token command cap gives).wp (net .errno) Q c := ⟨trivial, fun e h => hQ e h.1 h.2⟩

theorem wp_netClose {Q : Unit → Conn → Prop} (hfd : c.fd = some fd)
    (hQ : Q () { c with fd := none, failed := false }) :
    (request token command cap gives).wp (net (.close fd)) Q c := ⟨hfd, fun _ _ => hQ⟩

theorem wp_netRecv {count : ℕ} {Q : Option Bytes → Conn → Prop} (hfd : c.fd = some fd)
    (hwire : c.wire ≠ none) (hcount : 0 < count) (hroom : c.got.length + count < cap)
    (hQ : ∀ b : Option Bytes, gives c.got b → (∀ t ∈ b, t.length ≤ count) →
      Q b { c with got := c.got ++ b.getD [], failed := b = none }) :
    (request token command cap gives).wp (net (.recv fd count)) Q c :=
  ⟨⟨hfd, hwire, hcount, hroom⟩, fun b h => hQ b h.1 h.2⟩

/-! ### The request -/

/-- The bytes a peer can have given. -/
inductive Gave (gives : Bytes → Option Bytes → Prop) : Bytes → Prop
  | nothing : Gave gives []
  | more {got t : Bytes} (h : Gave gives got) (ht : gives got (some t)) : Gave gives (got ++ t)

/-- The peer has no more to say, or the buffer is full. -/
def Ended (cap : ℕ) (gives : Bytes → Option Bytes → Prop) (got : Bytes) : Prop :=
  got.length = cap - 1 ∨ gives got (some []) ∨ gives got none

/-- The codes of a request that no byte came back to: an errno or 401, or what the source has for a `send` or
a `recv` without an errno. -/
def NoReply (code : ℤ) : Prop := 0 < code ∨ code = -3 ∨ code = -4

/-- What the receive loop leaves. -/
def Received (fd : ℤ) (cap : ℕ) (gives : Bytes → Option Bytes → Prop) (wire : Option Bytes) :
    Except ℤ (Bytes × ℤ) → Conn → Prop
  | .error code, c => c.fd = none ∧ c.got = [] ∧ NoReply code
  | .ok (got, e), c => c.fd = some fd ∧ c.wire = wire ∧ c.got = got ∧ 0 ≤ e ∧ got.length < cap ∧
    Gave gives got ∧ Ended cap gives got

theorem noReply_errOr {e code : ℤ} (he : 0 ≤ e) (h : NoReply code) : NoReply (errOr e code) := by
  unfold errOr
  split_ifs with hne
  · exact .inl (lt_of_le_of_ne he hne.symm)
  · exact h

/-- **The receive loop** puts the pieces together. -/
theorem wp_recvReply {c : Conn} (hfd : c.fd = some fd) (hwire : c.wire ≠ none)
    (hroom : c.got.length < cap) (hgave : Gave gives c.got) :
    (request token command cap gives).wp (recvReply fd cap c.got) (Received fd cap gives c.wire) c := by
  rw [recvReply]
  by_cases h : c.got.length < cap - 1
  · rw [if_pos h]
    refine wp_bind.mpr (wp_netRecv hfd hwire (by omega) (by omega) fun b hgives hlen => ?_)
    match b, hgives, hlen with
    | none, hgives, _ =>
      refine wp_bind.mpr (wp_netErrno fun e he _ => ?_)
      by_cases hnil : c.got = []
      · rw [if_pos hnil]
        refine wp_bind.mpr (wp_netClose hfd ⟨rfl, ?_, noReply_errOr he (.inr (.inr rfl))⟩)
        exact (List.append_nil _).trans hnil
      · rw [if_neg hnil]
        exact ⟨hfd, rfl, List.append_nil _, he, hroom, hgave, .inr (.inr hgives)⟩
    | some [], hgives, _ => exact ⟨hfd, rfl, List.append_nil _, le_rfl, hroom, hgave, .inr (.inl hgives)⟩
    | some (x :: b), hgives, hlen =>
      have hb := hlen _ rfl
      exact wp_recvReply (c := { c with got := c.got ++ x :: b, failed := false }) hfd hwire (by
        show (c.got ++ x :: b).length < cap
        rw [List.length_append]
        omega) (hgave.more hgives)
  · rw [if_neg h]
    exact ⟨hfd, rfl, rfl, le_rfl, hroom, hgave, .inl (by omega)⟩
termination_by cap - 1 - c.got.length
decreasing_by
  show cap - 1 - (c.got ++ x :: b).length < cap - 1 - c.got.length
  rw [List.length_append, List.length_cons]
  omega

/-- What a request that is over has done. -/
structure Outcome (token : CStr 96) (command : Bytes) (cap : ℕ) (gives : Bytes → Option Bytes → Prop)
    (r : ℤ × Bytes) (c : Conn) : Prop where
  closed : c.fd = none
  silent : c.got = [] → NoReply r.1 ∧ r.2 = []
  answered : c.got ≠ [] → r = bridgeReply c.got cap ∧ c.wire ≠ none ∧ bridgeWire token command = c.wire ∧
    c.got.length < cap ∧ Gave gives c.got ∧ Ended cap gives c.got

/-- Nothing was received. -/
theorem outcome_silent {code : ℤ} (hfd : c.fd = none) (hgot : c.got = []) (hcode : NoReply code) :
    Outcome token command cap gives (code, []) c where
  closed := hfd
  silent _ := ⟨hcode, rfl⟩
  answered h := absurd hgot h

theorem replyCode_eq {got : Bytes} {e : ℤ} (hgot : got ≠ []) (hlen : got.length < cap) :
    (replyCode (trimLine (cstr got)) got.length e, trimLine (cstr got)) = bridgeReply got cap := by
  have htake : got.take (cap - 1) = got := List.take_of_length_le (by omega)
  rw [bridgeReply, htake, replyCode, if_neg (fun h => hgot (List.eq_nil_of_length_eq_zero h)), if_neg hgot]
  split_ifs <;> rfl

theorem wp_bridgeReceive (hfd : c.fd = some fd) (hwire : bridgeWire token command = c.wire)
    (hsent : c.wire ≠ none) (hgot : c.got = []) (hcap : 2 ≤ cap) :
    (request token command cap gives).wp (bridgeReceive fd cap) (Outcome token command cap gives) c := by
  have hloop := @wp_recvReply token command _ gives _ _ hfd hsent
    (by rw [hgot]; exact Nat.zero_lt_of_lt hcap) (by rw [hgot]; exact .nothing)
  rw [hgot] at hloop
  refine wp_bind.mpr (wp_mono (fun r c' hr => ?_) hloop)
  match r, hr with
  | .error code, ⟨hclosed, hnil, hcode⟩ => exact outcome_silent hclosed hnil hcode
  | .ok (got, e), ⟨hopen, hsame, hbytes, he, hlen, hgave, hended⟩ =>
    refine wp_bind.mpr (wp_netClose hopen ⟨rfl, fun hnil => ?_, fun hne => ?_⟩)
    · obtain rfl : got = [] := hbytes.symm.trans hnil
      exact ⟨noReply_errOr he (.inr (.inr rfl)), rfl⟩
    · obtain rfl : c'.got = got := hbytes
      exact ⟨replyCode_eq hne hlen, hsame ▸ hsent, hwire.trans hsame.symm, hlen, hgave, hended⟩

/-- **`bridge_request`** over one socket. -/
theorem wp_bridgeRequest (out : Bytes) (hcap : 2 ≤ cap) :
    (request token command cap gives).wp (bridgeRequest token command out cap)
      (Outcome token command cap gives) {} := by
  rw [bridgeRequest, if_neg (not_lt.mpr hcap)]
  refine wp_bind.mpr ⟨⟨rfl, rfl⟩, fun (fd : ℤ) _ => ?_⟩
  show (request token command cap gives).wp (ite _ _ _) _
    { fd := if 0 ≤ fd then some fd else none, failed := fd < 0 }
  rcases lt_or_ge fd 0 with hneg | hfd
  · rw [if_pos hneg, if_neg (not_le.mpr hneg)]
    refine wp_bind.mpr (wp_netErrno fun e _ he => outcome_silent rfl rfl ?_)
    exact .inl (he (decide_eq_true hneg))
  rw [if_neg (not_lt.mpr hfd), if_pos hfd]
  refine wp_bind.mpr ⟨⟨rfl, rfl⟩, fun (rc : ℤ) _ => ?_⟩
  show (request token command cap gives).wp (ite _ _ _) _
    { fd := some fd, connected := rc = 0, failed := rc ≠ 0 }
  by_cases hrc : rc ≠ 0
  · rw [if_pos hrc]
    refine wp_bind.mpr (wp_netErrno fun e _ he => wp_bind.mpr (wp_netClose rfl
      (outcome_silent rfl rfl (.inl ?_))))
    -- a failed call leaves an errno
    have hpos : 0 < e := he (decide_eq_true hrc)
    rwa [errOr, if_pos hpos.ne']
  rw [if_neg hrc]
  cases hwire : bridgeWire token command with
  | none => exact wp_bind.mpr (wp_netClose rfl (outcome_silent rfl rfl (.inl (by norm_num))))
  | some wire =>
    refine wp_bind.mpr ⟨⟨rfl, decide_eq_true (not_not.mp hrc), rfl, hwire⟩, fun (n : ℤ) _ => ?_⟩
    show (request token command cap gives).wp (ite _ _ _) _
      { fd := some fd, connected := rc = 0, failed := n < 0,
        wire := if n = wire.length then some wire else none }
    by_cases hn : n ≠ wire.length
    · rw [if_pos hn]
      exact wp_bind.mpr (wp_netErrno fun e he _ => wp_bind.mpr (wp_netClose rfl
        (outcome_silent rfl rfl (noReply_errOr he (.inr (.inl rfl))))))
    · rw [if_neg hn, if_pos (not_not.mp hn)]
      exact wp_bridgeReceive rfl hwire (by simp) rfl hcap

/-! ### A peer that delivers a text -/

/-- The pieces are those of `text`, and the end comes after all of it. -/
def Delivers (text got : Bytes) (b : Option Bytes) : Prop :=
  ∃ t, b = some t ∧ got ++ t <+: text ∧ (t = [] → got = text)

theorem gave_isPrefix {text got : Bytes} (h : Gave (Delivers text) got) : got <+: text := by
  cases h with
  | nothing => exact List.nil_prefix
  | more _ ht =>
    obtain ⟨t, ht, hprefix, -⟩ := ht
    obtain rfl := Option.some.inj ht
    exact hprefix

/-- Whatever the pieces, what was received in the end is the text as far as the buffer goes. -/
theorem got_of_ended {text got : Bytes} (h : Gave (Delivers text) got) (hended : Ended cap (Delivers text) got)
    (hlen : got.length ≤ cap - 1) : got = text.take (cap - 1) := by
  have hprefix := gave_isPrefix h
  obtain hfull | ⟨t, ht, -, hall⟩ | ⟨t, ht, -⟩ := hended
  · rw [← hfull]
    exact List.prefix_iff_eq_take.mp hprefix
  · obtain rfl := hall (Option.some.inj ht).symm
    exact (List.take_of_length_le hlen).symm
  · cases ht

theorem bridgeReply_take (text : Bytes) (cap : ℕ) :
    bridgeReply (text.take (cap - 1)) cap = bridgeReply text cap := by
  simp only [bridgeReply, List.take_take, min_self]

/-- **The cut into pieces does not matter**: over a connection that delivers `text`, the answer is
`bridgeReply` of the text. -/
theorem Outcome.delivered {text : Bytes} {r : ℤ × Bytes} {c : Conn}
    (h : Outcome token command cap (Delivers text) r c) (hgot : c.got ≠ []) : r = bridgeReply text cap := by
  obtain ⟨hr, -, -, hlen, hgave, hended⟩ := h.answered hgot
  rw [hr, got_of_ended hgave hended (by omega), bridgeReply_take]

/-! ### Every run -/

/-- **`bridge_request`, every run.**  However the reply is cut into pieces and whatever fails, the app uses
one socket only while it is open, sends nothing but the wire text of its command, and never receives more
than its buffer holds; when it returns, the socket is closed, and the code and the text are those of the
bytes received. -/
theorem bridgeRequest_run (out : Bytes) {tr : List (Σ op, Net.Answer op)} {o : Option (ℤ × Bytes)}
    (hcap : 2 ≤ cap) (hrun : Exec (bridgeRequest token command out cap) tr o)
    (hans : (request token command cap gives).Answered {} tr) :
    (∀ pre e post, tr = pre ++ e :: post →
      (request token command cap gives).allowed ((request token command cap gives).after {} pre) e.1) ∧
    ∀ r, o = some r →
      Outcome token command cap gives r ((request token command cap gives).after {} tr) := by
  obtain ⟨hsafe, hend⟩ := wp_sound (wp_bridgeRequest out hcap) hrun hans
  refine ⟨?_, hend⟩
  rintro pre e post rfl
  exact hsafe.allowed

/-- A run in which the reply comes in one piece. -/
def onePiece (wire text : Bytes) (cap : ℕ) : List (Σ op, Net.Answer op) :=
  [⟨.socket, (5 : ℤ)⟩, ⟨.connect 5, (0 : ℤ)⟩, ⟨.send 5 wire, (wire.length : ℤ)⟩,
    ⟨.recv 5 (cap - 1), some text⟩, ⟨.recv 5 (cap - 1 - text.length), some []⟩, ⟨.close 5, ()⟩]

variable {wire text : Bytes}

theorem onePiece_exec {out : Bytes} (hwire : bridgeWire token command = some wire) (hne : text ≠ [])
    (hfit : text.length < cap - 1) :
    Exec (bridgeRequest token command out cap) (onePiece wire text cap) (some (bridgeReply text cap)) := by
  obtain ⟨x, t, rfl⟩ := List.exists_cons_of_ne_nil hne
  have hpos : ([] : Bytes).length < cap - 1 := by
    rw [List.length_nil]
    omega
  have hloop : Exec (recvReply 5 cap [])
      [⟨.recv 5 (cap - 1), some (x :: t)⟩, ⟨.recv 5 (cap - 1 - (x :: t).length), some []⟩]
      (some (.ok (x :: t, 0))) := by
    rw [recvReply, if_pos hpos]
    refine Exec.perform_bind ?_
    dsimp only
    rw [List.nil_append, recvReply, if_pos hfit]
    exact .call (.done _)
  rw [bridgeRequest, if_neg (by omega), hwire]
  refine Exec.perform_bind ?_
  rw [if_neg (by decide)]
  refine Exec.perform_bind ?_
  rw [if_neg (by decide)]
  refine Exec.perform_bind ?_
  rw [if_neg (by simp), ← replyCode_eq (e := 0) hne (by omega)]
  exact hloop.bind (.call (.done _))

theorem onePiece_answered (hne : text ≠ []) (hfit : text.length ≤ cap - 1) :
    (request token command cap (Delivers text)).Answered {} (onePiece wire text cap) := by
  refine ⟨trivial, trivial, trivial, ⟨⟨text, rfl, List.prefix_rfl, fun h => absurd h hne⟩, ?_⟩,
    ⟨⟨[], rfl, ?_, fun _ => rfl⟩, ?_⟩, trivial, trivial⟩
  · rintro _ ⟨⟩
    exact hfit
  · exact (List.append_nil _).symm ▸ List.prefix_rfl
  · rintro _ ⟨⟩
    exact Nat.zero_le _

theorem bridgeRequest_run_hello :
    Outcome (.put 96 []) (lit "HELLO") 128 (Delivers (lit "ZORIN_ADB_CORE/3 auth=required\n"))
      (bridgeReply (lit "ZORIN_ADB_CORE/3 auth=required\n") 128)
      ((request (.put 96 []) (lit "HELLO") 128 (Delivers (lit "ZORIN_ADB_CORE/3 auth=required\n"))).after {}
        (onePiece (lit "HELLO\n") (lit "ZORIN_ADB_CORE/3 auth=required\n") 128)) :=
  (bridgeRequest_run [] (by norm_num) (onePiece_exec rfl (by decide) (by decide))
    (onePiece_answered (by decide) (by decide))).2 _ rfl

end ZorinTrust.Bridge
