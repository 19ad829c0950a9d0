import ZorinTrust.ProofOutcome
import ZorinTrust.Requests

/-!
# When a proof is signed, and how late

The time window of a request is checked once, against ISSUED, before the wait for a decision.  A request
that is not EXPLICIT is signed at once; an EXPLICIT one at the first poll that finds the phone unlocked with
an approval read and no denial (`waitEnd_iff`).  EXPIRES plays no part in either, so the proof is in time
exactly when the clock of that moment happens to be before it (`signed_in_time_iff`).
-/

namespace ZorinTrust

open CText Numeral

/-! ### The poll that ends the wait -/

/-- How many polls the wait loop makes before the one that ends it with an approval. -/
def waitEnd : ℕ → List Poll → Service → Option ℕ
  | 0, _, _ => none
  | _, [], _ => none
  | n + 1, p :: polls, s =>
    match waitTurn p s with
    | (.undecided, s) => (waitEnd n polls s).map (· + 1)
    | (.approved, _) => some 0
    | (.denied, _) => none

/-- An approval that stands, or comes with a poll up to `j`, meets an unlocked phone at poll `j`, and no
denial comes by then. -/
def ApprovedAt (polls : List Poll) (rid : Bytes) (stands : Prop) (j : ℕ) : Prop :=
  (stands ∨ ∃ i ≤ j, ∃ p, polls[i]? = some p ∧ Carries p.command "AUTH_APPROVE" rid) ∧
    (∃ p, polls[j]? = some p ∧ p.locked = false) ∧
    ∀ k ≤ j, ∀ p, polls[k]? = some p → ¬ Carries p.command "AUTH_DENY" rid

section Polls

variable {rid : Bytes} {p : Poll} {polls : List Poll} {stands : Prop} {j : ℕ}

theorem approvedAt_zero : ApprovedAt (p :: polls) rid stands 0 ↔
    (stands ∨ Carries p.command "AUTH_APPROVE" rid) ∧ p.locked = false ∧
      ¬ Carries p.command "AUTH_DENY" rid := by
  simp [ApprovedAt]

/-- After a poll without a denial, what it brought stands. -/
theorem approvedAt_succ (hno : ¬ Carries p.command "AUTH_DENY" rid) :
    ApprovedAt (p :: polls) rid stands (j + 1) ↔
      ApprovedAt polls rid (stands ∨ Carries p.command "AUTH_APPROVE" rid) j := by
  unfold ApprovedAt
  rw [List.getElem?_cons_succ]
  refine and_congr ?_ (and_congr_right fun _ => ⟨fun h k hk => h (k + 1) (by omega), fun h k hk q hq => ?_⟩)
  · constructor
    · rintro (h | ⟨i, hi, q, hq, h⟩)
      · exact .inl (.inl h)
      · cases i with
        | zero =>
          cases hq
          exact .inl (.inr h)
        | succ i => exact .inr ⟨i, by omega, q, hq, h⟩
    · rintro ((h | h) | ⟨i, hi, q, hq, h⟩)
      · exact .inl h
      · exact .inr ⟨0, Nat.zero_le _, p, rfl, h⟩
      · exact .inr ⟨i + 1, by omega, q, hq, h⟩
  · cases k with
    | zero =>
      cases hq
      exact hno
    | succ k => exact h k (by omega) q hq

/-- **The wait ends** at the first poll that finds an approval and an unlocked phone, if one of the `n` polls
does: by induction on the polls. -/
theorem waitEnd_iff (h0 : rid ≠ []) : ∀ {n : ℕ} {polls : List Poll} {s : Service} {j : ℕ},
    Waiting rid s.g → 0 ≤ s.g.gAuthorityDecision →
      (waitEnd n polls s = some j ↔ j < n ∧ ApprovedAt polls rid (0 < s.g.gAuthorityDecision) j ∧
        ∀ k < j, ¬ ApprovedAt polls rid (0 < s.g.gAuthorityDecision) k)
  | 0, _, _, j, _, _ => iff_of_false nofun fun h => Nat.not_lt_zero j h.1
  | n + 1, [], _, _, _, _ => iff_of_false nofun fun ⟨_, ⟨_, ⟨_, hp, _⟩, _⟩, _⟩ => by simp at hp
  | n + 1, p :: polls, s, j, hw, hpos => by
    have hdec := decision_pos_iff p.command hw h0
    have hcases := decision_cases p.command hw
    have hdeny := (decision_consume (f := p.command) hw h0).2
    have hw₁ := (trustUiConsumeCommand_spec p.command s).1.waiting hw
    rw [waitEnd]
    unfold waitTurn
    dsimp only
    generalize trustUiConsumeCommand p.command s = s₁ at hdec hcases hdeny hw₁
    by_cases hneg : s₁.g.gAuthorityDecision < 0
    · -- only a denial makes the decision negative
      have hc : Carries p.command "AUTH_DENY" rid := by
        rcases hcases with heq | heq | ⟨-, hc⟩
        · omega
        · omega
        · exact hc
      rw [if_pos hneg]
      exact iff_of_false nofun fun ⟨_, ⟨_, _, hno⟩, _⟩ => hno 0 (Nat.zero_le j) p rfl hc
    rw [if_neg hneg]
    have hno : ¬ Carries p.command "AUTH_DENY" rid := fun hc => hneg (hdeny hc)
    have hstands : (0 < s.g.gAuthorityDecision ∨ Carries p.command "AUTH_APPROVE" rid) ↔
        0 < s₁.g.gAuthorityDecision := by
      rw [hdec, and_iff_left hno, or_comm]
    have hnow : ApprovedAt (p :: polls) rid (0 < s.g.gAuthorityDecision) 0 ↔
        0 < s₁.g.gAuthorityDecision ∧ p.locked = false := by
      rw [approvedAt_zero, hstands, and_iff_left hno]
    by_cases happroved : 0 < s₁.g.gAuthorityDecision ∧ p.locked = false
    · rw [if_pos happroved]
      constructor
      · rintro ⟨⟩
        exact ⟨Nat.succ_pos n, hnow.mpr happroved, fun k hk => absurd hk (Nat.not_lt_zero k)⟩
      · rintro ⟨-, -, hfirst⟩
        by_contra hj
        exact hfirst 0 (Nat.pos_of_ne_zero fun h => hj (congrArg some h.symm)) (hnow.mpr happroved)
    rw [if_neg happroved]
    dsimp only
    cases j with
    | zero =>
      refine iff_of_false ?_ fun h => happroved (hnow.mp h.2.1)
      intro h
      obtain ⟨k, -, hk⟩ := Option.map_eq_some_iff.mp h
      cases hk
    | succ j =>
      simp only [Option.map_eq_some_iff, Nat.add_right_cancel_iff, exists_eq_right]
      rw [waitEnd_iff h0 hw₁ (not_lt.mp hneg), Nat.add_lt_add_iff_right,
        approvedAt_succ hno, hstands]
      refine and_congr_right fun _ => and_congr_right fun _ => ?_
      constructor
      · intro h k hk
        cases k with
        | zero => exact fun h0 => happroved (hnow.mp h0)
        | succ k =>
          rw [approvedAt_succ hno, hstands]
          exact h k (by omega)
      · intro h k hk
        have hk' := h (k + 1) (by omega)
        rwa [approvedAt_succ hno, hstands] at hk'

end Polls

/-- The polls are those of the wait loop. -/
theorem exists_waitEnd_iff : ∀ (n : ℕ) (polls : List Poll) (s : Service),
    (∃ j, waitEnd n polls s = some j) ↔ (proofWait n polls s).1 = .approved
  | 0, _, _ => by simp [waitEnd, proofWait]
  | _ + 1, [], _ => by simp [waitEnd, proofWait]
  | n + 1, p :: polls, s => by
    rw [waitEnd, proofWait]
    generalize waitTurn p s = q
    obtain ⟨decided, s₁⟩ := q
    cases decided with
    | undecided =>
      dsimp only
      rw [← exists_waitEnd_iff n polls s₁]
      simp
    | approved => simp
    | denied => simp

/-- **The wait of a fresh request** ends at the first of 500 polls that authorizes its id. -/
theorem waitEnd_proofPend_iff {r : ProofRequest} {s : Service} (polls : List Poll)
    (h0 : r.requestid.val ≠ []) {j : ℕ} : waitEnd 500 polls (proofPend r s) = some j ↔
      j < 500 ∧ ApprovedAt polls r.requestid.val False j ∧
        ∀ k < j, ¬ ApprovedAt polls r.requestid.val False k := by
  have hw : Waiting r.requestid.val (proofPend r s).g :=
    ⟨rfl, congrArg CStr.val (CStr.put_val_self r.requestid)⟩
  have hzero : (0 < (proofPend r s).g.gAuthorityDecision) = False := eq_false (lt_irrefl 0)
  rw [waitEnd_iff h0 hw (show (0 : ℤ) ≤ (proofPend r s).g.gAuthorityDecision from le_rfl), hzero]

theorem unanswered_proofWait (n : ℕ) (polls : List Poll) (s : Service) :
    Unanswered s (proofWait n polls s).2 := by
  obtain ⟨-, -, new, hlog, hcons⟩ := proofWait_spec n polls s
  refine ⟨new, hlog, fun ev hmem => ?_⟩
  obtain ⟨frame, g, rfl⟩ := hcons ev hmem
  exact ⟨rfl, rfl⟩

/-! ### The clock -/

/-- What the clock shows after the check: when a request that does not wait is signed, and after each poll
of one that does. -/
structure SignClock where
  atOnce : ℤ
  afterPoll : ℕ → ℤ

/-- What the clock shows when `trust_sign` is called, if it is. -/
def signedAt (t : SignClock) (frame : Bytes) (e : ProofEnv) (s : Service) : Option ℤ :=
  match proofScreen frame e.clock with
  | .error _ => none
  | .ok r =>
    if r.explicitMode then (waitEnd 500 e.polls (proofPend r s)).map t.afterPoll
    else if e.locked then none
    else some t.atOnce

variable (frame : CStr 4096) (e : ProofEnv) (s : Service) (t : SignClock)

/-- **A request is signed** exactly when there is a moment for it. -/
theorem signs_iff_signedAt :
    Signs s (trustHandleProofRequest frame e s).2 ↔ ∃ now, signedAt t frame.val e s = some now := by
  unfold trustHandleProofRequest signedAt
  cases hscreen : proofScreen frame.val e.clock with
  | error d => exact iff_of_false (unanswered_refuse d s).not_signs fun ⟨_, h⟩ => nomatch h
  | ok r =>
    dsimp only
    by_cases hx : r.explicitMode = true
    · rw [if_pos hx, if_pos hx]
      have hend : (∃ now, (waitEnd 500 e.polls (proofPend r s)).map t.afterPoll = some now) ↔
          (proofWait 500 e.polls (proofPend r s)).1 = .approved := by
        rw [← exists_waitEnd_iff]
        simp only [Option.map_eq_some_iff]
        exact ⟨fun ⟨_, j, hj, _⟩ => ⟨j, hj⟩, fun ⟨j, hj⟩ => ⟨_, j, hj, rfl⟩⟩
      rw [hend]
      have hwait := (unanswered_proofPend r s).trans (unanswered_proofWait 500 e.polls (proofPend r s))
      generalize proofWait 500 e.polls (proofPend r s) = q at hwait ⊢
      obtain ⟨decided, s₁⟩ := q
      cases decided with
      | denied =>
        refine iff_of_false ?_ nofun
        exact ((hwait.trans (unanswered_clear s₁)).trans (unanswered_refuse .userDenied _)).not_signs
      | undecided =>
        refine iff_of_false ?_ nofun
        exact ((hwait.trans (unanswered_clear s₁)).trans
          (unanswered_refuse .approvalTimeout _)).not_signs
      | approved => exact iff_of_true (hwait.proofSign r e).1 rfl
    · rw [if_neg hx, if_neg hx]
      by_cases hlocked : e.locked = true
      · rw [if_pos hlocked, if_pos hlocked]
        exact iff_of_false (unanswered_refuse .phoneLocked s).not_signs fun ⟨_, h⟩ => nomatch h
      · rw [if_neg hlocked, if_neg hlocked]
        exact iff_of_true ((Unanswered.refl s).proofSign r e).1 ⟨_, rfl⟩

/-- The text of EXPIRES a request was checked with. -/
theorem proofScreen_expires {r : ProofRequest} (h : proofScreen frame.val e.clock = .ok r) :
    trustFrameField frame.val "EXPIRES" 64 = some r.expiress.val := by
  obtain ⟨htexts, -⟩ := proofScreen_eq_ok h
  obtain ⟨-, -, -, -, hexpires, -⟩ := proofTexts_eq_some htexts
  obtain ⟨-, -, hfield, -⟩ := fieldBuf_eq_some frame.nulFree hexpires
  exact hfield

/-- **The condition**, for a request the checks let through: one that is not EXPLICIT meets a locked phone
or a clock before EXPIRES; for one that is, the clock is before EXPIRES after the first poll that finds it
approved and the phone unlocked, if one of the 500 does. -/
def InTime (t : SignClock) (frame : Bytes) (e : ProofEnv) : Prop :=
  ∀ r, proofScreen frame e.clock = .ok r →
    if r.explicitMode then
      ∀ j < 500, ApprovedAt e.polls r.requestid.val False j →
        (∀ k < j, ¬ ApprovedAt e.polls r.requestid.val False k) →
          t.afterPoll j < trustParseI64 r.expiress.val
    else e.locked = true ∨ t.atOnce < trustParseI64 r.expiress.val

/-- The check at the start bounds the age by 30 seconds and the lifetime by 120, but not the one by the
other: a lifetime that outlasts those 30 seconds and the wait is enough. -/
theorem inTime_of_lifetime {wait : ℤ}
    (hwait : ∀ now, e.clock = some now →
      t.atOnce ≤ now.toInt + wait ∧ ∀ j, t.afterPoll j ≤ now.toInt + wait)
    (hlife : ∀ r, proofScreen frame.val e.clock = .ok r →
      30 + wait < trustParseI64 r.expiress.val - trustParseI64 r.issueds.val) : InTime t frame.val e := by
  intro r hscreen
  obtain ⟨-, -, -, ⟨now, hclock, httl⟩, -⟩ := proofScreen_eq_ok hscreen
  obtain ⟨-, hnear, -⟩ := ttl_window (trustParseI64_mem _) (trustParseI64_mem _)
    ⟨now.le_toInt, now.toInt_lt⟩ httl
  obtain ⟨honce, hpoll⟩ := hwait now hclock
  have hlong := hlife r hscreen
  have hage := (abs_le.mp hnear).1
  split_ifs
  · intro j _ _ _
    have hj := hpoll j
    omega
  · right
    omega

/-- **Signed before it expires**: what the clock shows when the request is signed is before EXPIRES exactly
under the condition. -/
theorem signed_in_time_iff :
    (Signs s (trustHandleProofRequest frame e s).2 → ∀ now ∈ signedAt t frame.val e s,
      ∀ expires, trustFrameField frame.val "EXPIRES" 64 = some expires → now < trustParseI64 expires) ↔
    InTime t frame.val e := by
  rw [signs_iff_signedAt frame e s t]
  have hdrop : ((∃ now, signedAt t frame.val e s = some now) → ∀ now ∈ signedAt t frame.val e s,
      ∀ expires, trustFrameField frame.val "EXPIRES" 64 = some expires → now < trustParseI64 expires) ↔
      ∀ now ∈ signedAt t frame.val e s, ∀ expires,
        trustFrameField frame.val "EXPIRES" 64 = some expires → now < trustParseI64 expires :=
    ⟨fun h now hnow => h ⟨now, hnow⟩ now hnow, fun h _ => h⟩
  rw [hdrop]
  unfold InTime
  cases hscreen : proofScreen frame.val e.clock with
  | error d => simp [signedAt, hscreen]
  | ok r =>
    have hexpires := proofScreen_expires frame e hscreen
    have hmoment (now : ℤ) : (∀ expires, trustFrameField frame.val "EXPIRES" 64 = some expires →
        now < trustParseI64 expires) ↔ now < trustParseI64 r.expiress.val := by
      simp [hexpires]
    have hone (q : ProofRequest → Prop) :
        (∀ r', (Except.ok r : Except ProofDeny ProofRequest) = .ok r' → q r') ↔ q r := by simp
    simp only [hmoment]
    rw [hone]
    unfold signedAt
    rw [hscreen]
    dsimp only
    by_cases hx : r.explicitMode = true
    · rw [if_pos hx, if_pos hx]
      have h0 := (proofScreen_eq_ok hscreen).2.2.2.2 hx
      simp only [Option.mem_def, Option.map_eq_some_iff, forall_exists_index, and_imp,
        waitEnd_proofPend_iff e.polls h0]
      exact ⟨fun h j hj happroved hfirst => h _ j hj happroved hfirst rfl,
        fun h _ j hj happroved hfirst hnow => hnow ▸ h j hj happroved hfirst⟩
    · rw [if_neg hx, if_neg hx]
      by_cases hlocked : e.locked = true
      · simp [hlocked]
      · simp [hlocked]

/-- **A proof of an expired request**: issued 29 seconds ago for one second, and signed at once, on a clock
that never runs back. -/
theorem signed_in_time_expired :
    ¬ ∀ (frame : CStr 4096) (e : ProofEnv) (s : Service) (t : SignClock),
      (∀ now, e.clock = some now → now.toInt ≤ t.atOnce ∧ ∀ j, now.toInt ≤ t.afterPoll j) →
      Signs s (trustHandleProofRequest frame e s).2 → ∀ now ∈ signedAt t frame.val e s,
        ∀ expires, trustFrameField frame.val "EXPIRES" 64 = some expires →
          now < trustParseI64 expires := by
  intro h
  have hclock : ∀ now, plainEnv.clock = some now → now.toInt ≤ 100 ∧ ∀ _ : ℕ, now.toInt ≤ 100 := by
    rintro now ⟨⟩
    exact ⟨by decide, fun _ => by decide⟩
  have hbad := h (plainFrame (lit "n") (lit "71") (lit "72")) plainEnv {} ⟨100, fun _ => 100⟩ hclock
    (by decide +kernel) 100 (by decide +kernel) (lit "72") (by decide +kernel)
  exact absurd hbad (by decide)

end ZorinTrust
