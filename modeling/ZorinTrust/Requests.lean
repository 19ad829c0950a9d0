import ZorinTrust.Worker

/-!
# Proof requests in the session loop

What one step of an established session can do about a proof request, and whether it signs and answers
`PROOF_RESULT OK`.  A step that takes up no request, or ends one without a proof, is `Unanswered`.
-/

namespace ZorinTrust

open CText Numeral

/-! ### Signatures and answers in the history -/

def Event.isSigned : Event → Bool
  | .signed _ => true
  | _ => false

/-- `PROOF_RESULT OK` went out. -/
def Event.isOk : Event → Bool
  | .sent w => okHead.isPrefixOf w
  | _ => false

/-- `trust_sign` was called. -/
def Signs (s s' : Service) : Prop := ∃ ev ∈ since s s', ev.isSigned = true

theorem sendsOk_iff {s s' : Service} : SendsOk s s' ↔ ∃ ev ∈ since s s', ev.isOk = true := by
  constructor
  · rintro ⟨w, hw, hmem⟩
    exact ⟨.sent w, hmem, List.isPrefixOf_iff_prefix.mpr hw⟩
  · rintro ⟨ev, hmem, hok⟩
    cases ev with
    | sent w => exact ⟨w, List.isPrefixOf_iff_prefix.mp hok, hmem⟩
    | _ => cases hok

instance (s s' : Service) : Decidable (Signs s s') := inferInstanceAs (Decidable (∃ ev ∈ since s s', _))

instance (s s' : Service) : Decidable (SendsOk s s') := decidable_of_iff _ sendsOk_iff.symm

/-- Nothing is signed and no `PROOF_RESULT OK` goes out. -/
def Unanswered (s s' : Service) : Prop :=
  ∃ l, s'.log = l ++ s.log ∧ ∀ ev ∈ l, ev.isSigned = false ∧ ev.isOk = false

theorem Unanswered.refl (s : Service) : Unanswered s s := ⟨[], rfl, by simp⟩

theorem Unanswered.trans {s t u : Service} (h : Unanswered s t) (h' : Unanswered t u) :
    Unanswered s u := by
  obtain ⟨l, hl, hev⟩ := h
  obtain ⟨l', hl', hev'⟩ := h'
  refine ⟨l' ++ l, by rw [hl', hl, List.append_assoc], fun ev hmem => ?_⟩
  rcases List.mem_append.mp hmem with hmem | hmem
  · exact hev' ev hmem
  · exact hev ev hmem

/-- One event that is no signature and no positive answer. -/
theorem Unanswered.of_cons {s s' : Service} {ev : Event} (hlog : s'.log = ev :: s.log)
    (hs : ev.isSigned = false) (hok : ev.isOk = false) : Unanswered s s' :=
  ⟨[ev], hlog, fun ev' hmem => by rw [List.mem_singleton.mp hmem]; exact ⟨hs, hok⟩⟩

theorem Unanswered.not_signs {s s' : Service} (h : Unanswered s s') : ¬ Signs s s' := by
  obtain ⟨l, hl, hev⟩ := h
  rintro ⟨ev, hmem, hs⟩
  rw [since_eq hl] at hmem
  rw [(hev ev hmem).1] at hs
  cases hs

theorem Unanswered.not_sendsOk {s s' : Service} (h : Unanswered s s') : ¬ SendsOk s s' := by
  obtain ⟨l, hl, hev⟩ := h
  rw [sendsOk_iff]
  rintro ⟨ev, hmem, hok⟩
  rw [since_eq hl] at hmem
  rw [(hev ev hmem).2] at hok
  cases hok

theorem unanswered_publish {s t : Service} (hlog : t.log = s.log) :
    Unanswered s (trustUiPublishState t) :=
  .of_cons (congrArg (_ :: ·) hlog) rfl rfl

theorem unanswered_refuse (d : ProofDeny) (s : Service) : Unanswered s (refuse d s).2 :=
  .of_cons rfl rfl (by cases d <;> decide)

theorem unanswered_consume (file : Option Bytes) (s : Service) :
    Unanswered s (trustUiConsumeCommand file s) := by
  obtain ⟨-, -, new, hlog, hcons⟩ := trustUiConsumeCommand_spec file s
  refine ⟨new, hlog, fun ev hmem => ?_⟩
  obtain ⟨frame, g, rfl⟩ := hcons ev hmem
  exact ⟨rfl, rfl⟩

theorem unanswered_lifecycle (alive : Bool) (s : Service) : Unanswered s (lifecycleStep alive s) :=
  unanswered_publish rfl

theorem unanswered_proofPend (r : ProofRequest) (s : Service) : Unanswered s (proofPend r s) :=
  unanswered_publish rfl

theorem unanswered_clear (s : Service) : Unanswered s (trustClearAuthorityRequest s) :=
  unanswered_publish rfl

theorem unanswered_endSession (s : Service) : Unanswered s (endSession s).s := by
  unfold endSession sessionEnd
  dsimp only
  split_ifs
  · exact unanswered_publish rfl
  · exact .refl s

/-- **When a proof is answered**: a request that gets to the signature signs, and sends
`PROOF_RESULT OK` exactly when the keystore signs. -/
theorem Unanswered.proofSign {s s₁ : Service} (h : Unanswered s s₁) (r : ProofRequest) (e : ProofEnv) :
    Signs s (proofSign r e s₁).2 ∧
      (SendsOk s (proofSign r e s₁).2 ↔ trustSign e.keystore 192 (proofMessage s₁.g r) ≠ none) := by
  obtain ⟨old, hold, hev⟩ := h
  have hclear (t : Service) : Unanswered t (if r.explicitMode then trustClearAuthorityRequest t else t) := by
    split_ifs
    · exact unanswered_clear t
    · exact .refl t
  refine ⟨?_, ?_⟩
  · obtain ⟨new, hlog, -, -⟩ := proofSign_log r e s₁
    refine ⟨.signed (proofMessage s₁.g r), ?_, rfl⟩
    rw [since_eq (l := new ++ .signed (proofMessage s₁.g r) :: old) (by simp [hlog, hold])]
    simp
  unfold ZorinTrust.proofSign
  dsimp only
  cases hsig : trustSign e.keystore 192 (proofMessage s₁.g r) with
  | none =>
    refine iff_of_false ?_ (by simp)
    rw [sendsOk_iff]
    rintro ⟨ev, hmem, hok⟩
    obtain ⟨l, hl, hev'⟩ := (hclear (s₁.emit (.signed (proofMessage s₁.g r)))).trans
      (unanswered_refuse .signing _)
    rw [since_eq (l := l ++ .signed (proofMessage s₁.g r) :: old) (by simp [hl, hold])] at hmem
    rcases List.mem_append.mp hmem with hmem | hmem
    · rw [(hev' ev hmem).2] at hok
      cases hok
    · rcases List.mem_cons.mp hmem with rfl | hmem
      · cases hok
      · rw [(hev ev hmem).2] at hok
        cases hok
  | some sig =>
    refine iff_of_true ?_ (by simp)
    have hanswer {t : Service}
        (ht : Unanswered ((s₁.emit (.signed (proofMessage s₁.g r))).emit (.sent (okWire sig))) t) :
        SendsOk s t := by
      obtain ⟨l, hl, -⟩ := ht
      refine ⟨okWire sig, okHead_prefix_okWire sig, ?_⟩
      rw [since_eq (l := l ++ .sent (okWire sig) :: .signed (proofMessage s₁.g r) :: old)
        (by simp [hl, hold])]
      simp
    dsimp only
    split_ifs
    · exact hanswer (unanswered_clear _)
    · exact hanswer (.refl _)
    · exact hanswer (unanswered_publish rfl)
    · exact hanswer (unanswered_publish rfl)

/-! ### A turn of the session loop -/

/-- The poll message of a turn. -/
def polled (e : RoundEnv) (s : Service) : Service :=
  s.emit (.sent (lit (if e.locked then "POLL LOCKED\n" else "POLL UNLOCKED\n")))

theorem unanswered_polled (e : RoundEnv) (s : Service) : Unanswered s (polled e s) := by
  refine .of_cons rfl rfl ?_
  cases e.locked <;> decide

/-- What a turn of the session loop does about a proof request. -/
inductive RoundCase (e : RoundEnv) (s : Service) : Worker → Prop
  | unanswered {w : Worker} (hpc : ∀ r left, w.pc ≠ .waiting r left) (h : Unanswered s w.s)
      (hreq : ∀ r ∈ e.request, r.explicitMode = false ∧ e.proof.locked = true) : RoundCase e s w
  | waits {r : ProofRequest} (hreq : e.request = some r) (hx : r.explicitMode = true)
      (hid : r.requestid.val ≠ []) : RoundCase e s ⟨.waiting r 500, proofPend r (polled e s)⟩
  | signs {r : ProofRequest} (hreq : e.request = some r) (hx : r.explicitMode = false)
      (hlocked : e.proof.locked = false) : RoundCase e s ⟨.pong, (proofSign r e.proof (polled e s)).2⟩

theorem roundStep_request (e : RoundEnv) (s : Service) : RoundCase e s (roundStep e s) := by
  have hpoll := unanswered_polled e s
  have hend : RoundCase e s (endSession (polled e s)) ∨ e.request ≠ none := by
    by_cases hreq : e.request = none
    · exact Or.inl (.unanswered (by simp [endSession]) (hpoll.trans (unanswered_endSession _))
        (by simp [hreq]))
    · exact Or.inr hreq
  unfold roundStep
  dsimp only
  rw [show s.emit (.sent (lit (if e.locked then "POLL LOCKED\n" else "POLL UNLOCKED\n"))) = polled e s
    from rfl]
  by_cases hok : e.sendOk = false
  · rw [if_pos hok]
    exact hend.resolve_right (by simp [RoundEnv.request, hok])
  rw [if_neg hok]
  have hrequest : e.request = (trustRecvSessionMessage 4096 e.chunks).bind fun smsg =>
      if strstr smsg (lit "PROOF_REQUEST") then
        (proofScreen (CStr.put 4096 smsg).val e.proof.clock).toOption
      else none := if_neg hok
  cases hmsg : trustRecvSessionMessage 4096 e.chunks with
  | none => exact hend.resolve_right (by simp [hrequest, hmsg])
  | some smsg =>
    rw [hmsg, Option.bind_some] at hrequest
    dsimp only
    by_cases hreq : strstr smsg (lit "PROOF_REQUEST") = true
    · rw [if_pos hreq] at hrequest ⊢
      unfold beginProof
      cases hscreen : proofScreen (CStr.put 4096 smsg).val e.proof.clock with
      | error d =>
        rw [hscreen] at hrequest
        exact .unanswered (by simp) (hpoll.trans (unanswered_refuse d _))
          (by simp [hrequest, Except.toOption])
      | ok r =>
        rw [hscreen] at hrequest
        have hr : e.request = some r := hrequest
        dsimp only
        by_cases hx : r.explicitMode = true
        · rw [if_pos hx]
          exact .waits hr hx ((proofScreen_eq_ok hscreen).2.2.2.2 hx)
        rw [if_neg hx]
        by_cases hlocked : e.proof.locked = true
        · rw [if_pos hlocked]
          refine .unanswered (by simp) (hpoll.trans (unanswered_refuse _ _)) fun r' hr' => ?_
          rw [hr] at hr'
          cases hr'
          exact ⟨by simpa using hx, hlocked⟩
        · rw [if_neg hlocked]
          exact .signs hr (by simpa using hx) (by simpa using hlocked)
    · rw [if_neg hreq] at hrequest ⊢
      split_ifs
      · exact .unanswered (by simp) hpoll (by simp [hrequest])
      · exact hend.resolve_right (by simp [hrequest])

/-! ### A turn of the wait loop -/

/-- A consumed command leaves the decision, approves, or denies the waiting request. -/
theorem decision_cases {rid : Bytes} {s : Service} (file : Option Bytes) (hw : Waiting rid s.g) :
    (trustUiConsumeCommand file s).g.gAuthorityDecision = s.g.gAuthorityDecision ∨
      (trustUiConsumeCommand file s).g.gAuthorityDecision = 1 ∨
      ((trustUiConsumeCommand file s).g.gAuthorityDecision = -1 ∧ Carries file "AUTH_DENY" rid) := by
  rcases trustUiConsumeCommand_cases file s with hc | ⟨frame, hread, hc⟩
  · rw [hc]
    exact Or.inl rfl
  · rw [hc]
    dsimp only
    have hcase := commandEffect_cases frame s.g
    generalize commandEffect frame s.g = g' at hcase ⊢
    cases hcase with
    | ignored => exact Or.inl rfl
    | reconnect _ => exact Or.inl rfl
    | forget _ => exact Or.inl rfl
    | approve _ _ _ _ => exact Or.inl rfl
    | authApprove _ _ _ _ => exact Or.inr (Or.inl rfl)
    | authDeny hcmd _ _ hb => exact Or.inr (Or.inr ⟨rfl, frame, hread, hcmd, hb.trans hw.2⟩)

/-- **An approval stands after a poll** when the poll brings it, or it stood before and the poll denies
nothing. -/
theorem decision_pos_iff {rid : Bytes} {s : Service} (file : Option Bytes) (hw : Waiting rid s.g)
    (h0 : rid ≠ []) : 0 < (trustUiConsumeCommand file s).g.gAuthorityDecision ↔
      Carries file "AUTH_APPROVE" rid ∨
        0 < s.g.gAuthorityDecision ∧ ¬ Carries file "AUTH_DENY" rid := by
  obtain ⟨hpos, hdeny⟩ := decision_consume (f := file) hw h0
  constructor
  · intro h
    rcases hpos h with hold | hnew
    · exact .inr ⟨hold, fun hc => absurd h (not_lt.mpr (hdeny hc).le)⟩
    · exact .inl hnew
  · rintro (hnew | ⟨hold, hno⟩)
    · rw [decision_authApprove hw h0 hnew]
      norm_num
    · rcases decision_cases file hw with heq | heq | ⟨-, hc⟩
      · rw [heq]
        exact hold
      · rw [heq]
        norm_num
      · exact absurd hc hno

/-- What a turn of the wait loop does. -/
inductive TurnCase (r : ProofRequest) (left : ℕ) (p : Poll) (e : ProofEnv) (s : Service) : Worker → Prop
  | undecided (h : ¬ (0 < (trustUiConsumeCommand p.command s).g.gAuthorityDecision ∧ p.locked = false)) :
      TurnCase r left p e s ⟨.waiting r left, trustUiConsumeCommand p.command s⟩
  | denied {s' : Service} (h : (trustUiConsumeCommand p.command s).g.gAuthorityDecision < 0)
      (hs : Unanswered s s') : TurnCase r left p e s ⟨.pong, s'⟩
  | approved (h : 0 < (trustUiConsumeCommand p.command s).g.gAuthorityDecision)
      (hlocked : p.locked = false) :
      TurnCase r left p e s ⟨.pong, (proofSign r e (trustUiConsumeCommand p.command s)).2⟩

theorem turnStep_request (r : ProofRequest) (left : ℕ) (p : Poll) (e : ProofEnv) (s : Service) :
    TurnCase r left p e s (turnStep r left p e s) := by
  have hconsume := unanswered_consume p.command s
  unfold turnStep waitTurn
  dsimp only
  by_cases hneg : (trustUiConsumeCommand p.command s).g.gAuthorityDecision < 0
  · rw [if_pos hneg]
    exact .denied hneg ((hconsume.trans (unanswered_clear _)).trans (unanswered_refuse _ _))
  rw [if_neg hneg]
  by_cases hpos : 0 < (trustUiConsumeCommand p.command s).g.gAuthorityDecision ∧ p.locked = false
  · rw [if_pos hpos]
    exact .approved hpos.1 hpos.2
  · rw [if_neg hpos]
    exact .undecided hpos

/-! ### The other steps of a session -/

theorem unanswered_giveUp (s : Service) : Unanswered s (giveUpStep s).s :=
  (unanswered_clear s).trans (unanswered_refuse _ _)

theorem unanswered_pong (chunks : List Bytes) (s : Service) : Unanswered s (pongStep chunks s).s := by
  unfold pongStep
  cases trustRecvSessionMessage 128 chunks with
  | none => exact unanswered_endSession s
  | some pong =>
    dsimp only
    split_ifs
    · exact .refl s
    · exact unanswered_endSession s

/-! ### Where a request can wait -/

/-- The steps after which a request may wait. -/
def Label.waits : Label → Bool
  | .lifecycle _ | .round _ | .turn _ _ => true
  | _ => false

/-- After no other step one does. -/
theorem pc_ne_waiting {c : Crypto} {l : Label} {w w' : Worker} (h : next c l w = some w')
    (hl : l.waits = false) (r : ProofRequest) (left : ℕ) : w'.pc ≠ .waiting r left := by
  cases step_of_next h with
  | lifecycle | round | turn => cases hl
  | start | stop | consume | forget | approve | giveUp | leave | idleEnd => simp [giveUpStep, endSession]
  | hello e s =>
    unfold helloStep
    split <;> simp
  | check link hello s =>
    unfold checkStep
    split <;> simp
  | answer e link hello s =>
    unfold answerStep
    split <;> simp
  | pong chunks s =>
    unfold pongStep endSession
    split
    · simp
    · split_ifs <;> simp
  | idle file left s =>
    unfold idleStep
    dsimp only
    split_ifs <;> simp

end ZorinTrust
