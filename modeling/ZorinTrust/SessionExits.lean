import ZorinTrust.Acceptance

/-!
# The exits of a session

`trustAuthSession` is the function the worker calls, whole; `reach_trustAuthSession` has the machine run
it.  A session that ends should no longer report MUTUAL AUTHENTICATION or DEVICE TRUST ESTABLISHED:
`session_state_ends_iff` says which exits keep to that.  Five of them, between the trust check and the
check of the host's signature, close the socket and leave the state as it was.
-/

namespace ZorinTrust

open CText Machine

/-! ### `trust_auth_session` -/

/-- One turn of the session loop; `pong` is what the host sends after a proof request. -/
structure Turn where
  round : RoundEnv
  pong : List Bytes := []

/-- What a whole session meets; `g_running` is cleared after the last turn. -/
structure SessionEnv where
  hello : HelloEnv
  answer : AnswerEnv
  turns : List Turn := []

/-- The body of the session loop: does it go on. -/
def sessionTurn (t : Turn) (s : Service) : Bool × Service :=
  let s := s.emit (.sent (lit (if t.round.locked then "POLL LOCKED\n" else "POLL UNLOCKED\n")))
  if t.round.sendOk = false then (false, s)
  else
    match trustRecvSessionMessage 4096 t.round.chunks with
    | none => (false, s)
    | some smsg =>
      if strstr smsg (lit "PROOF_REQUEST") then
        let s := (trustHandleProofRequest (.put 4096 smsg) t.round.proof s).2
        match trustRecvSessionMessage 128 t.pong with
        | none => (false, s)
        | some pong => (strstr pong (lit "PONG"), s)
      else (strstr smsg (lit "PONG"), s)

/-- The loop of an established session. -/
def sessionLoop : List Turn → Service → Service
  | [], s => s
  | t :: turns, s =>
    if s.g.gTrustForgetRequested = true ∨ s.g.gTrustReconnectRequested = true then s
    else
      match sessionTurn t s with
      | (true, s) => sessionLoop turns s
      | (false, s) => s

/-- `trust_auth_session`; the worker drops its return code. -/
def trustAuthSession (c : Crypto) (e : SessionEnv) (s : Service) : Service :=
  match sessionHello c e.hello s with
  | (none, s) => s
  | (some (link, h), s) =>
    match sessionAnswer c link h e.answer s with
    | (none, s) => s
    | (some (), s) => sessionEnd (sessionLoop e.turns s)

variable {c : Crypto} {s : Service}

/-! ### The machine runs the session -/

theorem reach_step {l : Label} {w w' : Worker} (h : next c l w = some w') : Reach (next c) w w' :=
  Run.step .refl trivial h

/-- After a turn the worker is at the loop's head, or leaves the session. -/
def afterTurn : Bool × Service → Worker
  | (true, s) => ⟨.linked, s⟩
  | (false, s) => endSession s

theorem reach_sessionTurn (t : Turn) (hforget : s.g.gTrustForgetRequested = false)
    (hreconnect : s.g.gTrustReconnectRequested = false) :
    Reach (next c) ⟨.linked, s⟩ (afterTurn (sessionTurn t s)) := by
  have hround : Reach (next c) ⟨.linked, s⟩ (roundStep t.round s) := by
    refine reach_step (l := .round t.round) ?_
    simp [next, hforget, hreconnect]
  refine hround.trans ?_
  unfold roundStep sessionTurn
  dsimp only
  generalize s.emit (.sent _) = s₁
  by_cases hsend : t.round.sendOk = false
  · rw [if_pos hsend, if_pos hsend]
    exact .refl
  rw [if_neg hsend, if_neg hsend]
  cases trustRecvSessionMessage 4096 t.round.chunks with
  | none => exact .refl
  | some smsg =>
    dsimp only
    by_cases hreq : strstr smsg (lit "PROOF_REQUEST") = true
    · rw [if_pos hreq, if_pos hreq]
      refine (reach_trustHandleProofRequest c (.put 4096 smsg) t.round.proof s₁).trans ?_
      generalize (trustHandleProofRequest (.put 4096 smsg) t.round.proof s₁).2 = s₂
      have hpong : Reach (next c) ⟨.pong, s₂⟩ (pongStep t.pong s₂) := reach_step (l := .pong t.pong) rfl
      refine hpong.trans ?_
      unfold pongStep
      cases trustRecvSessionMessage 128 t.pong with
      | none => exact .refl
      | some pong =>
        dsimp only
        cases strstr pong (lit "PONG") <;> exact .refl
    · rw [if_neg hreq, if_neg hreq]
      cases strstr smsg (lit "PONG") <;> exact .refl

theorem reach_sessionLoop : ∀ (turns : List Turn) (s : Service),
    Reach (next c) ⟨.linked, s⟩ (endSession (sessionLoop turns s))
  | [], s => reach_step (l := .leave) rfl
  | t :: turns, s => by
    rw [sessionLoop]
    by_cases hflags : s.g.gTrustForgetRequested = true ∨ s.g.gTrustReconnectRequested = true
    · rw [if_pos hflags]
      exact reach_step (l := .leave) rfl
    · rw [if_neg hflags]
      rw [not_or, Bool.not_eq_true, Bool.not_eq_true] at hflags
      have hturn := reach_sessionTurn (c := c) t hflags.1 hflags.2
      generalize sessionTurn t s = q at hturn ⊢
      obtain ⟨on, s₁⟩ := q
      cases on with
      | true => exact hturn.trans (reach_sessionLoop turns s₁)
      | false => exact hturn

/-- **The machine refines the session**: from before the call it can reach the state the source
function returns in. -/
theorem reach_trustAuthSession (e : SessionEnv) (s : Service) :
    Reach (next c) ⟨.session, s⟩ ⟨.idle 20, trustAuthSession c e s⟩ := by
  have hhello : Reach (next c) ⟨.session, s⟩ (helloStep c e.hello s) :=
    reach_step (l := .hello e.hello) rfl
  refine hhello.trans ?_
  unfold helloStep trustAuthSession sessionHello
  generalize sessionOpen c e.hello s = q
  obtain ⟨opened, s₀⟩ := q
  cases opened with
  | none => exact .refl
  | some lh =>
    obtain ⟨link, h⟩ := lh
    have hcheck : Reach (next c) ⟨.checking link h, s₀⟩ (checkStep link h s₀) :=
      reach_step (l := .check) rfl
    refine hcheck.trans ?_
    unfold checkStep
    dsimp only
    generalize sessionCheck h s₀ = q
    obtain ⟨same, s₁⟩ := q
    cases same with
    | false => exact .refl
    | true =>
      have hanswer : Reach (next c) ⟨.authenticating link h, s₁⟩ (answerStep c link h e.answer s₁) :=
        reach_step (l := .answer e.answer) rfl
      refine hanswer.trans ?_
      unfold answerStep
      dsimp only
      generalize sessionAnswer c link h e.answer s₁ = q
      obtain ⟨established, s₂⟩ := q
      cases established with
      | none => exact .refl
      | some _ => exact reach_sessionLoop e.turns s₂

/-! ### The loop -/

variable {R : Service → Service → Prop}

theorem SessionRule.loopTurn (hR : SessionRule R) (t : Turn) (s : Service) :
    R s (sessionTurn t s).2 := by
  have hpoll := hR.poll t.round.locked s
  unfold sessionTurn
  dsimp only
  generalize s.emit (.sent _) = s₁ at hpoll ⊢
  by_cases hsend : t.round.sendOk = false
  · rw [if_pos hsend]
    exact hpoll
  rw [if_neg hsend]
  cases trustRecvSessionMessage 4096 t.round.chunks with
  | none => exact hpoll
  | some smsg =>
    dsimp only
    by_cases hreq : strstr smsg (lit "PROOF_REQUEST") = true
    · rw [if_pos hreq]
      have hproof := hR.trans hpoll (hR.request (.put 4096 smsg) t.round.proof s₁)
      cases trustRecvSessionMessage 128 t.pong with
      | none => exact hproof
      | some pong => exact hproof
    · rw [if_neg hreq]
      exact hpoll

/-- **The loop keeps what its turns keep.** -/
theorem SessionRule.loop (hR : SessionRule R) : ∀ (turns : List Turn) (s : Service),
    R s (sessionLoop turns s)
  | [], s => hR.refl s
  | t :: turns, s => by
    rw [sessionLoop]
    by_cases hflags : s.g.gTrustForgetRequested = true ∨ s.g.gTrustReconnectRequested = true
    · rw [if_pos hflags]
      exact hR.refl s
    · rw [if_neg hflags]
      have hturn := hR.loopTurn t s
      generalize sessionTurn t s = q at hturn ⊢
      obtain ⟨on, s₁⟩ := q
      cases on with
      | true => exact hR.trans hturn (loop hR turns s₁)
      | false => exact hturn

/-! ### Which exits reset it -/

/-- The process reports MUTUAL AUTHENTICATION or DEVICE TRUST ESTABLISHED. -/
def Reporting (g : Globals) : Prop := g.gTrustState = 2 ∨ g.gTrustState = 3

instance (g : Globals) : Decidable (Reporting g) := inferInstanceAs (Decidable (_ ∨ _))

/-- An `AUTH OK` without a signature that could be checked. -/
def unsignedOk (frame : Bytes) : Bool :=
  !strstr frame (lit "AUTH PAIR_REQUIRED") && strstr frame (lit "AUTH OK") &&
    ((trustFrameField frame "HOST_SIG" 384).bind (trustHexDecode · 192)).getD [] == []

/-- The host's answer is lost, or cannot be checked. -/
def AnswerEnv.unanswered (e : AnswerEnv) : Bool :=
  match trustRecvFrame 4096 e.chunks with
  | none => true
  | some frame => unsignedOk frame

/-- The Keystore signs the phone's proof of this session. -/
def AnswerEnv.signs (h : Hello) (e : AnswerEnv) (der nonce : Bytes) : Bool :=
  (trustSign e.keystore 160 (handshakeMessage "PHONE"
    [h.hostnonce.val, (trustHexEncode nonce 80).getD [], h.hostpub.val, e.phonepub der])).isSome

/-- The session breaks off past the trust check: no randomness, a proof that cannot be sent, or no
answer to it that could be checked. -/
def Abandons (h : Hello) (e : AnswerEnv) : Bool :=
  match e.phoneDer, e.random with
  | none, _ => false
  | some _, none => true
  | some der, some nonce => e.signs h der.val nonce.val && (!e.sendOk || e.unanswered)

/-- The phone's half of the handshake: without a proof the state is an error, or the session broke
off. -/
theorem sendPhoneProof_state (link : Link) (h : Hello) (e : AnswerEnv) (hs : s.g.gTrustState = 2) :
    ((∃ sent, (sendPhoneProof c link h e s).1 = some sent) ∧
        (sendPhoneProof c link h e s).2.g.gTrustState = 2 ∧ Abandons h e = e.unanswered) ∨
      ((sendPhoneProof c link h e s).1 = none ∧
        (Reporting (sendPhoneProof c link h e s).2.g ↔ Abandons h e = true)) := by
  unfold sendPhoneProof Abandons
  cases e.phoneDer with
  | none => exact Or.inr ⟨rfl, by simp [Reporting]⟩
  | some der =>
    cases e.random with
    | none => exact Or.inr ⟨rfl, fun _ => rfl, fun _ => Or.inl hs⟩
    | some nonce =>
      dsimp only
      unfold AnswerEnv.signs
      generalize handshakeMessage "PHONE" _ = proof
      cases trustSign e.keystore 160 proof with
      | none => exact Or.inr ⟨rfl, by simp [Reporting]⟩
      | some sig =>
        dsimp only
        cases e.sendOk with
        | true => exact Or.inl ⟨⟨_, rfl⟩, hs, rfl⟩
        | false => exact Or.inr ⟨rfl, fun _ => rfl, fun _ => Or.inl hs⟩

/-- The host's answer: the session is established, or the state is another one unless the answer could
not be checked. -/
theorem judgeAnswer_state (h : Hello) (phonepub phnonce frame : Bytes) (hs : s.g.gTrustState = 2) :
    ((judgeAnswer c h phonepub phnonce frame s).1 = some () ∧
        (judgeAnswer c h phonepub phnonce frame s).2.g.gTrustState = 3 ∧ unsignedOk frame = false) ∨
      ((judgeAnswer c h phonepub phnonce frame s).1 = none ∧
        (Reporting (judgeAnswer c h phonepub phnonce frame s).2.g ↔ unsignedOk frame = true)) := by
  unfold judgeAnswer unsignedOk
  by_cases hpair : strstr frame (lit "AUTH PAIR_REQUIRED") = true
  · rw [if_pos hpair, hpair]
    exact Or.inr ⟨rfl, by simp [Reporting]⟩
  rw [if_neg hpair]
  rw [Bool.not_eq_true] at hpair
  rw [hpair]
  by_cases hok : strstr frame (lit "AUTH OK") = false
  · rw [if_pos hok, hok]
    exact Or.inr ⟨rfl, by simp [Reporting]⟩
  rw [if_neg hok]
  rw [Bool.not_eq_false] at hok
  rw [hok]
  cases (trustFrameField frame "HOST_SIG" 384).bind (trustHexDecode · 192) with
  | none => exact Or.inr ⟨rfl, fun _ => rfl, fun _ => Or.inl hs⟩
  | some hostsig =>
    dsimp only
    by_cases h0 : hostsig = []
    · rw [if_pos h0, h0]
      exact Or.inr ⟨rfl, fun _ => rfl, fun _ => Or.inl hs⟩
    rw [if_neg h0]
    have hsigned : (!false && true && (some hostsig).getD [] == []) = false := by simp [h0]
    rw [hsigned]
    split_ifs
    · exact Or.inr ⟨rfl, by simp [Reporting]⟩
    · exact Or.inl ⟨rfl, rfl, rfl⟩

/-- **From the trust check to the answer**: the session is established, or it is over, and reports
itself still exactly when it broke off. -/
theorem sessionAnswer_state (link : Link) (h : Hello) (e : AnswerEnv) (hs : s.g.gTrustState = 2) :
    ((sessionAnswer c link h e s).1 = some () ∧ (sessionAnswer c link h e s).2.g.gTrustState = 3 ∧
        Abandons h e = false) ∨
      ((sessionAnswer c link h e s).1 = none ∧
        (Reporting (sessionAnswer c link h e s).2.g ↔ Abandons h e = true)) := by
  have hphone := sendPhoneProof_state (c := c) link h e hs
  unfold sessionAnswer
  generalize sendPhoneProof c link h e s = q at hphone ⊢
  obtain ⟨sent, s₁⟩ := q
  rcases hphone with ⟨⟨⟨phonepub, phnonce⟩, rfl⟩, hs₁, habandons⟩ | ⟨rfl, habandons⟩
  · rw [habandons]
    unfold AnswerEnv.unanswered
    cases trustRecvFrame 4096 e.chunks with
    | none => exact Or.inr ⟨rfl, fun _ => rfl, fun _ => Or.inl hs₁⟩
    | some frame => exact judgeAnswer_state h phonepub phnonce frame hs₁
  · exact Or.inr ⟨rfl, habandons⟩

/-- The end of an established session resets its state. -/
theorem sessionEnd_state (turns : List Turn) (hs : s.g.gTrustState = 3) :
    (sessionEnd (sessionLoop turns s)).g.gTrustState = 0 := by
  have hne : s.g.gTrustState ≠ 1 := by
    rw [hs]
    decide
  have hloop := (quietSession.loop turns s hne).state.trans hs
  exact congrArg TrustVars.state (sessionEnd_established hloop).2.1

/-- **Which sessions leave their state behind**: those whose host passes the trust check and that then
break off before the check of the host's signature. -/
theorem session_state_ends_iff (c : Crypto) (e : SessionEnv) (s : Service) (hs : ¬ Reporting s.g) :
    ¬ Reporting (trustAuthSession c e s).g ↔
      ∀ h, presented c e.hello s = some h → (checkHost h s).1 = true → Abandons h e.answer = false := by
  unfold trustAuthSession
  cases hpres : presented c e.hello s with
  | none =>
    rw [sessionHello_of_not_presented hpres]
    have hquiet := quiet_openLink e.hello s
    simp only [Reporting, hquiet.state, reduceCtorEq, false_implies, implies_true, iff_true]
    exact hs
  | some h =>
    obtain ⟨link, s₁, hquiet, hprefs, -, hsession⟩ := sessionHello_of_presented hpres
    have hcheck : checkHost h s₁ = checkHost h s := by
      unfold checkHost
      rw [hquiet.pin, hprefs]
    rw [hsession, hcheck]
    by_cases htrusted : (checkHost h s).1 = true
    · rw [if_pos htrusted]
      dsimp only
      have hanswer := sessionAnswer_state (c := c) link h e.answer
        (s := trustSetStatus 2 "MUTUAL AUTHENTICATION" (checked h (meet h s₁))) rfl
      generalize sessionAnswer c link h e.answer _ = q at hanswer ⊢
      obtain ⟨established, s₂⟩ := q
      rcases hanswer with ⟨rfl, hs₂, habandons⟩ | ⟨rfl, habandons⟩
      · have hend := sessionEnd_state e.turns hs₂
        constructor
        · rintro - _ ⟨⟩ -
          exact habandons
        · intro _
          simp [Reporting, hend]
      · simp only [Option.some.injEq, forall_eq', htrusted, true_implies]
        rw [← Bool.not_eq_true]
        exact not_congr habandons
    · rw [if_neg htrusted]
      constructor
      · rintro - _ ⟨⟩ hpass
        exact absurd hpass htrusted
      · intro _
        simp [Reporting, setPending]

/-! ### Samples -/

/-- A host of the registry comes back, and answers with these chunks. -/
def comeback (chunks : List Bytes) : SessionEnv where
  hello := deskHello
  answer := {
    phoneDer := some ⟨[2], by decide⟩
    random := some ⟨List.replicate 32 8, by decide⟩
    keystore := fun _ => some [9]
    chunks }

def knowsDesk : Service := { prefs := { trustedHostsV2 := some (lit "aa") } }

/-- A session that was established and lost is reported as lost. -/
theorem session_state_ends_lost :
    ¬ Reporting (trustAuthSession sampleCrypto (comeback [lit "AUTH OK\nHOST_SIG 01\nEND\n"])
      knowsDesk).g := by
  refine (session_state_ends_iff _ _ knowsDesk (by decide)).mpr fun h hpres _ => ?_
  have hanswer : (presented sampleCrypto deskHello knowsDesk).map
      (Abandons · (comeback [lit "AUTH OK\nHOST_SIG 01\nEND\n"]).answer) = some false := by
    decide +kernel
  have hpres' : presented sampleCrypto deskHello knowsDesk = some h := hpres
  rw [hpres'] at hanswer
  exact Option.some.inj hanswer

/-- A host of the registry that hangs up after its hello stays reported as MUTUAL AUTHENTICATION. -/
theorem session_state_ends_hangup : ¬ ∀ (c : Crypto) (e : SessionEnv) (s : Service),
    ¬ Reporting s.g → ¬ Reporting (trustAuthSession c e s).g := by
  intro hall
  have hstays : (trustAuthSession sampleCrypto (comeback []) knowsDesk).g.gTrustState = 2 := by
    decide +kernel
  exact hall sampleCrypto (comeback []) knowsDesk (by decide) (Or.inl hstays)

end ZorinTrust
