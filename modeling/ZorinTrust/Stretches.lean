import ZorinTrust.Worker

/-!
# Stretches of a run

What a function of the service does is often said by a relation between the states before and after:
the stores are as they were, the texts stay short, no connection is opened.  Such a relation composes, so
when the parts of a proof request keep it, the request, its steps and the loop around it do as well.
-/

namespace ZorinTrust

open CText

/-- A relation between two states of the service that composes. -/
structure Composes (R : Service → Service → Prop) : Prop where
  refl : ∀ s, R s s
  trans : ∀ {s t u}, R s t → R t u → R s u

/-- What a proof request does, the wait apart, keeps the relation. -/
structure ProofRule (R : Service → Service → Prop) : Prop extends Composes R where
  publish : ∀ s, R s (trustUiPublishState s)
  pend : ∀ r s, R s (proofPend r s)
  clear : ∀ s, R s (trustClearAuthorityRequest s)
  refuse : ∀ d s, R s (refuse d s).2
  signed : ∀ msg s, R s (s.emit (.signed msg))
  answered : ∀ sig s, sig.length ≤ 192 → R s (s.emit (.sent (okWire sig)))
  counted : ∀ count last s,
    R s { s with g := { s.g with gTrustProofCount := count, gTrustLastProof := last } }

/-- So do the command file, which the loops read, and the line a turn of the session loop opens with. -/
structure SessionRule (R : Service → Service → Prop) : Prop extends ProofRule R where
  consume : ∀ file s, R s (trustUiConsumeCommand file s)
  poll : ∀ (locked : Bool) (s : Service),
    R s (s.emit (.sent (lit (if locked then "POLL LOCKED\n" else "POLL UNLOCKED\n"))))

variable {R : Service → Service → Prop}

/-! ### A proof request -/

namespace ProofRule

theorem sign (hR : ProofRule R) (r : ProofRequest) (e : ProofEnv) (s : Service) :
    R s (proofSign r e s).2 := by
  have hclear (t : Service) : R t (if r.explicitMode then trustClearAuthorityRequest t else t) := by
    split_ifs
    · exact hR.clear t
    · exact hR.refl t
  unfold proofSign
  dsimp only
  generalize proofMessage s.g r = msg
  have hsigned := hR.signed msg s
  cases hsign : trustSign e.keystore 192 msg with
  | none => exact hR.trans (hR.trans hsigned (hclear _)) (hR.refuse _ _)
  | some sig =>
    have hsent := hR.trans hsigned (hR.answered sig _ (trustSign_eq_some hsign).2)
    dsimp only
    by_cases hsend : e.sendOk = false
    · rw [if_pos hsend]
      exact hR.trans hsent (hclear _)
    · rw [if_neg hsend]
      refine hR.trans hsent ?_
      dsimp only
      split_ifs
      · refine hR.trans ?_ (hR.clear _)
        exact hR.counted _ _ _
      · refine hR.trans ?_ (hR.publish _)
        exact hR.counted _ _ _

theorem start (hR : ProofRule R) (frame : CStr 4096) (e : ProofEnv) (s : Service) :
    R s (beginProof frame e s).s := by
  unfold beginProof
  cases proofScreen frame.val e.clock with
  | error d => exact hR.refuse d s
  | ok r =>
    dsimp only
    split_ifs
    · exact hR.pend r s
    · exact hR.refuse _ s
    · exact hR.sign r e s

theorem giveUp (hR : ProofRule R) (s : Service) : R s (giveUpStep s).s :=
  hR.trans (hR.clear s) (hR.refuse _ _)

/-- The rule for states of which the relation keeps a property. -/
theorem guard (hR : ProofRule R) {P : Service → Prop} (hP : ∀ {s t}, R s t → P s → P t) :
    ProofRule fun s t => P s → R s t where
  refl s _ := hR.refl s
  trans h h' hs := hR.trans (h hs) (h' (hP (h hs) hs))
  publish s _ := hR.publish s
  pend r s _ := hR.pend r s
  clear s _ := hR.clear s
  refuse d s _ := hR.refuse d s
  signed msg s _ := hR.signed msg s
  answered sig s hlen _ := hR.answered sig s hlen
  counted count last s _ := hR.counted count last s

end ProofRule

namespace SessionRule

/-- A turn of the wait loop reads the command file and decides. -/
theorem look (hR : SessionRule R) (p : Poll) (s : Service) : R s (waitTurn p s).2 := by
  rw [waitTurn_service]
  exact hR.consume p.command s

theorem turn (hR : SessionRule R) (r : ProofRequest) (left : ℕ) (p : Poll) (e : ProofEnv) (s : Service) :
    R s (turnStep r left p e s).s := by
  have hturn := hR.look p s
  unfold turnStep
  generalize waitTurn p s = q at hturn ⊢
  obtain ⟨decided, s₁⟩ := q
  cases decided with
  | undecided => exact hturn
  | denied => exact hR.trans (hR.trans hturn (hR.clear s₁)) (hR.refuse _ _)
  | approved => exact hR.trans hturn (hR.sign r e s₁)

theorem wait (hR : SessionRule R) : ∀ (n : ℕ) (polls : List Poll) (s : Service),
    R s (proofWait n polls s).2
  | 0, _, s => hR.refl s
  | _ + 1, [], s => hR.refl s
  | n + 1, p :: polls, s => by
    have hturn := hR.look p s
    rw [proofWait]
    generalize waitTurn p s = q at hturn ⊢
    obtain ⟨decided, s₁⟩ := q
    cases decided with
    | undecided => exact hR.trans hturn (wait hR n polls s₁)
    | approved => exact hturn
    | denied => exact hturn

theorem request (hR : SessionRule R) (frame : CStr 4096) (e : ProofEnv) (s : Service) :
    R s (trustHandleProofRequest frame e s).2 := by
  unfold trustHandleProofRequest
  cases proofScreen frame.val e.clock with
  | error d => exact hR.refuse d s
  | ok r =>
    dsimp only
    split_ifs
    · have hwait := hR.trans (hR.pend r s) (hR.wait 500 e.polls (proofPend r s))
      generalize proofWait 500 e.polls (proofPend r s) = q at hwait ⊢
      obtain ⟨decided, s₁⟩ := q
      have hclear := hR.trans hwait (hR.clear s₁)
      cases decided with
      | denied => exact hR.trans hclear (hR.refuse _ _)
      | undecided => exact hR.trans hclear (hR.refuse _ _)
      | approved => exact hR.trans hwait (hR.sign r e s₁)
    · exact hR.refuse _ s
    · exact hR.sign r e s

/-! ### The loops -/

theorem idle (hR : SessionRule R) (left : ℕ) (file : Option Bytes) (s : Service) :
    R s (idleStep left file s).s := by
  unfold idleStep
  dsimp only
  split_ifs
  · exact hR.consume file s
  · exact hR.consume file s

/-- A turn of the session loop that may end the session. -/
theorem round (hR : SessionRule R) (hend : ∀ s, R s (sessionEnd s)) (e : RoundEnv) (s : Service) :
    R s (roundStep e s).s := by
  have hpoll := hR.poll e.locked s
  unfold roundStep
  dsimp only
  generalize s.emit (.sent _) = s₁ at hpoll ⊢
  by_cases hsend : e.sendOk = false
  · rw [if_pos hsend]
    exact hR.trans hpoll (hend s₁)
  rw [if_neg hsend]
  cases trustRecvSessionMessage 4096 e.chunks with
  | none => exact hR.trans hpoll (hend s₁)
  | some smsg =>
    dsimp only
    split_ifs
    · exact hR.trans hpoll (hR.start _ _ s₁)
    · exact hpoll
    · exact hR.trans hpoll (hend s₁)

end SessionRule

theorem Composes.pong (hR : Composes R) (hend : ∀ s, R s (sessionEnd s)) (chunks : List Bytes) (s : Service) :
    R s (pongStep chunks s).s := by
  unfold pongStep
  cases trustRecvSessionMessage 128 chunks with
  | none => exact hend s
  | some pong =>
    dsimp only
    split_ifs
    · exact hR.refl s
    · exact hend s

/-! ### The handshake -/

/-- The phone's fingerprint once its key was read. -/
def phoneFpOf (c : Crypto) (digestOk : Bool) (der : Bytes) (g : Globals) : CStr 128 :=
  match trustFingerprintDer c.sha256 der with
  | some fp => if digestOk then .put 128 fp else g.gTrustPhoneFp
  | none => g.gTrustPhoneFp

namespace Composes

/-- Connecting: the transport is one of three texts, an unusable file is removed, at most two attempts. -/
theorem connect (hR : Composes R) (e : HelloEnv) (s : Service)
    (htransport : ∀ text s, (lit text).length ≤ 21 → R s (setTransport text s))
    (hcleared : ∀ s, R s (s.emit .directCleared))
    (hconnecting : ∀ address port s, R s (s.emit (.connecting address port))) :
    R s (openLink e s).2 := by
  have husb (s : Service) : R s (setTransport "USB / ADB" s) := htransport _ s (by decide)
  have hget : R s (trustGetEndpoint e.transport e.transportClock s).2 := by
    unfold trustGetEndpoint
    cases directTransport e.transport e.transportClock with
    | absent => exact husb s
    | unusable => exact hR.trans (husb s) (hcleared _)
    | usable ep =>
      refine hR.trans (husb s) (htransport _ _ ?_)
      split_ifs <;> decide
  unfold openLink
  by_cases hsocket : e.socketOk = false
  · rw [if_pos hsocket]
    exact hR.refl s
  rw [if_neg hsocket]
  dsimp only
  generalize trustGetEndpoint e.transport e.transportClock s = q at hget ⊢
  obtain ⟨ep, s₁⟩ := q
  have hconn := hR.trans hget (hconnecting ep.address ep.port s₁)
  have hback := hR.trans hconn (hR.trans (husb _) (hconnecting [127, 0, 0, 1] zorinTrustPort _))
  dsimp only
  split_ifs
  · exact hconn
  · exact hconn
  · exact hback
  · exact hback

/-- The phone's half: the fingerprint of its key, the signature, the hello. -/
theorem phoneProof (hR : Composes R) (c : Crypto) (link : Link) (h : Hello) (e : AnswerEnv) (s : Service)
    (hstatus : ∀ status s, R s (trustSetStatus (-1) status s))
    (hfp : ∀ der, R s { s with g := { s.g with gTrustPhoneFp := phoneFpOf c e.digestOk der s.g } })
    (hsigned : ∀ msg s, R s (s.emit (.signed msg)))
    (hhello : ∀ der ∈ e.phoneDer, ∀ nonce ∈ e.random, ∀ sig s, sig.length ≤ 160 →
      R s (s.emit (.sent (phoneHello (e.phonepub der.val) ((trustHexEncode nonce.val 80).getD [])
        ((trustHexEncode sig 384).getD []) e.locked link)))) :
    R s (sendPhoneProof c link h e s).2 := by
  unfold sendPhoneProof
  cases hder : e.phoneDer with
  | none => exact hstatus _ s
  | some der =>
    have hset := hfp der.val
    dsimp only
    cases hrandom : e.random with
    | none => exact hset
    | some nonce =>
      dsimp only
      generalize handshakeMessage "PHONE" _ = proof
      have hproof := hR.trans hset (hsigned proof _)
      cases hsign : trustSign e.keystore 160 proof with
      | none => exact hR.trans hproof (hstatus _ _)
      | some sig =>
        exact hR.trans hproof (hhello der hder nonce hrandom sig _ (trustSign_eq_some hsign).2)

/-- The answer is judged once the phone's proof is out. -/
theorem answer (hR : Composes R) (c : Crypto) (link : Link) (h : Hello) (e : AnswerEnv) {s : Service}
    (hphone : R s (sendPhoneProof c link h e s).2)
    (hjudge : ∀ phonepub phnonce frame s, R s (judgeAnswer c h phonepub phnonce frame s).2) :
    R s (sessionAnswer c link h e s).2 := by
  unfold sessionAnswer
  generalize sendPhoneProof c link h e s = q at hphone ⊢
  obtain ⟨sent, s₁⟩ := q
  cases sent with
  | none => exact hphone
  | some sent =>
    dsimp only
    cases trustRecvFrame 4096 e.chunks with
    | none => exact hphone
    | some frame => exact hR.trans hphone (hjudge _ _ frame s₁)

end Composes

theorem answerStep_service (c : Crypto) (link : Link) (h : Hello) (e : AnswerEnv) (s : Service) :
    (answerStep c link h e s).s = (sessionAnswer c link h e s).2 := by
  unfold answerStep
  generalize sessionAnswer c link h e s = q
  obtain ⟨established, s₁⟩ := q
  cases established <;> rfl

end ZorinTrust
