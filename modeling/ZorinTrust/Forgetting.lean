import ZorinTrust.Authorization

/-!
# FORGET inside a session

The session loop tests `g_trust_forget_requested` but reads no command; only the wait loop of an EXPLICIT
request does, and it goes on with its own request.  A FORGET that lies in the command file when a proof
request is taken up therefore stops nothing, and one that is unlinked in the place of an older command never
will: the request is answered as if the FORGET were not there.  `LateProofs` observes a run for the requests
taken up after a FORGET was written, and for the AUTH commands the polls read.
-/

namespace ZorinTrust

open CText Numeral Machine

def IsForget (file : Option Bytes) : Prop :=
  ∃ frame ∈ commandRead file, frameCommand frame = some (lit "FORGET")

instance (file : Option Bytes) : Decidable (IsForget file) :=
  inferInstanceAs (Decidable (∃ frame ∈ commandRead file, _))

/-- A FORGET is completely written to the command file, and lies there. -/
def ForgetWritten (σ : System) : Prop :=
  IsForget σ.command ∧ ∀ file ∈ σ.command, file.length ≤ σ.commandBytes

instance (σ : System) : Decidable (ForgetWritten σ) := inferInstanceAs (Decidable (_ ∧ _))

structure LateProofs where
  /-- A FORGET was completely written and unlinked unread. -/
  lost : Bool := false
  /-- The request at hand was taken up after a FORGET was written. -/
  late : Bool := false
  /-- The last AUTH command the polls read for the request at hand approves it. -/
  approved : Bool := false
  /-- A late request was answered `PROOF_RESULT OK`. -/
  answered : Bool := false

/-- A FORGET was completely written, and no later command took its place. -/
def LateProofs.forgotten (o : LateProofs) (σ : System) : Bool := decide (ForgetWritten σ) || o.lost

/-- The request a step is about is a late one. -/
def LateProofs.about (o : LateProofs) (σ : System) : Label → Bool
  | .round _ => o.forgotten σ
  | _ => o.late

/-- The step unlinks a FORGET that came after the bytes it goes on from. -/
def loses (σ : System) (l : Label) : Bool :=
  decide (ForgetWritten σ) && (commandRead l.file).isSome && !decide (IsForget l.file)

/-- The approval that stands once a poll has read these bytes. -/
def LateProofs.approves (o : LateProofs) (r : ProofRequest) (file : Option Bytes) : Bool :=
  decide (Carries file "AUTH_APPROVE" r.requestid.val) ||
    o.approved && !decide (Carries file "AUTH_DENY" r.requestid.val)

/-- What a step of the service shows. -/
def LateProofs.serve (o : LateProofs) (l : Label) (σ σ' : System) : LateProofs where
  lost := (o.lost || loses σ l) && σ'.worker.pc.established
  late := o.about σ l && σ'.worker.pc.established
  approved := match σ.worker.pc with
    | .waiting r _ => o.approves r l.file
    | _ => false
  answered := o.answered || o.about σ l && decide (SendsOk σ.worker.s σ'.worker.s)

def LateProofs.see (o : LateProofs) (σ : System) (l : SysLabel) (σ' : System) : LateProofs :=
  match l with
  | .service l => o.serve l σ σ'
  | .ui a => { o with lost := o.lost && !(a.written σ.ui).isSome }
  | .fill _ | .look => o

/-- The keystore answers no signature of 1 to 192 bytes. -/
def Unsigned (keystore : Bytes → Option Bytes) (msg : Bytes) : Prop :=
  ∀ sig ∈ keystore msg, sig = [] ∨ 192 < sig.length

instance (keystore : Bytes → Option Bytes) (msg : Bytes) : Decidable (Unsigned keystore msg) :=
  inferInstanceAs (Decidable (∀ sig ∈ keystore msg, _))

theorem trustSign_eq_none_iff {keystore : Bytes → Option Bytes} {msg : Bytes} :
    trustSign keystore 192 msg = none ↔ Unsigned keystore msg := by
  unfold trustSign Unsigned
  rw [Option.filter_eq_none_iff]
  refine forall₂_congr fun sig _ => ?_
  rw [decide_eq_true_eq, not_and_or, not_not, not_le]

/-- **The condition**, on what the host sends, the phone is and the user writes.  A request taken up after a
FORGET was written does not pass the checks; or it is not EXPLICIT and meets a locked phone; or it is
EXPLICIT and no poll finds the phone unlocked with the last AUTH command for it an AUTH_APPROVE; or the
keystore does not sign. -/
def RefusedAnyway (p : System × LateProofs) (l : SysLabel) : Prop :=
  match l, p.1.worker.pc with
  | .service (.round e), .linked =>
    p.2.forgotten p.1 = true → ∀ r ∈ e.request, r.explicitMode = false → e.proof.locked = false →
      Unsigned e.proof.keystore (proofMessage p.1.worker.s.g r)
  | .service (.turn poll e), .waiting r _ =>
    p.2.late = true → p.2.approves r poll.command = true → poll.locked = false →
      Unsigned e.keystore (proofMessage p.1.worker.s.g r)
  | _, _ => True

instance (p : System × LateProofs) (l : SysLabel) : Decidable (RefusedAnyway p l) := by
  obtain ⟨⟨⟨pc, s⟩, stateBytes, command, commandBytes, held, ui⟩, o⟩ := p
  rcases l with l | k | _ | a
  · rcases l with _ | _ | _ | _ | _ | _ | _ | _ | _ | e | _ | _ | _ | _ | _ | _
    all_goals try exact instDecidableTrue
    -- the two loops
    all_goals rcases pc with _ | _ | _ | _ | _ | _ | _ | _ | _ | _ | _
    all_goals try exact instDecidableTrue
    · exact inferInstanceAs (Decidable (_ → ∀ r ∈ e.request, _))
    · exact inferInstanceAs (Decidable (_ → _ → _ → _))
  all_goals exact instDecidableTrue

/-! ### The invariant -/

/-- While `r` waits, the service's decision is that of the polls. -/
structure PollInv (s : Service) (o : LateProofs) (r : ProofRequest) : Prop where
  waiting : Waiting r.requestid.val s.g
  id : r.requestid.val ≠ []
  approved : o.approved = true ↔ 0 < s.g.gAuthorityDecision

/-- No late request was answered, and outside a session there is none. -/
structure LateInv (p : System × LateProofs) : Prop where
  answered : p.2.answered = false
  late : p.1.worker.pc.established = false → p.2.late = false
  wait : ∀ r left, p.1.worker.pc = .waiting r left → PollInv p.1.worker.s p.2 r

variable {c : Crypto} {σ σ' : System} {o : LateProofs} {r : ProofRequest}

/-- **An approval stands** for the service exactly when the polls say so. -/
theorem PollInv.approves_iff {s : Service} (h : PollInv s o r) (file : Option Bytes) :
    o.approves r file = true ↔ 0 < (trustUiConsumeCommand file s).g.gAuthorityDecision := by
  rw [decision_pos_iff file h.waiting h.id, LateProofs.approves, Bool.or_eq_true, Bool.and_eq_true,
    decide_eq_true_eq, h.approved, Bool.not_eq_true', decide_eq_false_iff_not]

/-- What a step of the service keeps: it answers no late request. -/
theorem LateInv.serve {l : Label} (hi : LateInv (σ, o))
    (h : o.about σ l = true → ¬ SendsOk σ.worker.s σ'.worker.s)
    (hwait : ∀ r left, σ'.worker.pc = .waiting r left → PollInv σ'.worker.s (o.serve l σ σ') r) :
    LateInv (σ', o.serve l σ σ') := by
  refine ⟨?_, fun hpc => ?_, hwait⟩
  · show (o.answered || o.about σ l && decide (SendsOk σ.worker.s σ'.worker.s)) = false
    rw [hi.answered, Bool.false_or, Bool.and_eq_false_iff, decide_eq_false_iff_not]
    by_cases hlate : o.about σ l = true
    · exact Or.inr (h hlate)
    · exact Or.inl (by simpa using hlate)
  · show (o.about σ l && σ'.worker.pc.established) = false
    rw [show σ'.worker.pc.established = false from hpc, Bool.and_false]

/-- **A turn of the session loop answers** a request that is not EXPLICIT, on an unlocked phone, when the
keystore signs. -/
theorem sendsOk_round_iff (e : RoundEnv) (s : Service) : SendsOk s (roundStep e s).s ↔
    ∃ r ∈ e.request, r.explicitMode = false ∧ e.proof.locked = false ∧
      ¬ Unsigned e.proof.keystore (proofMessage s.g r) := by
  have hround := roundStep_request e s
  generalize roundStep e s = w at hround ⊢
  cases hround with
  | unanswered _ h hplain =>
    refine iff_of_false h.not_sendsOk ?_
    rintro ⟨r, hreq, -, hlocked, -⟩
    rw [(hplain r hreq).2] at hlocked
    cases hlocked
  | @waits r hreq hx _ =>
    refine iff_of_false ((unanswered_polled e _).trans (unanswered_proofPend _ _)).not_sendsOk ?_
    rintro ⟨r', hreq', hx', -, -⟩
    rw [hreq] at hreq'
    cases hreq'
    rw [hx] at hx'
    cases hx'
  | @signs r hreq hx hlocked =>
    rw [((unanswered_polled e s).proofSign r e.proof).2, Ne, trustSign_eq_none_iff]
    refine ⟨fun hsig => ⟨r, hreq, hx, hlocked, hsig⟩, ?_⟩
    rintro ⟨r', hreq', -, -, hsig⟩
    rw [hreq] at hreq'
    cases hreq'
    exact hsig

/-- **A turn of the wait loop answers** when an approval stands, the phone is unlocked and the keystore
signs. -/
theorem sendsOk_turn_iff {s : Service} (h : PollInv s o r) (left : ℕ) (poll : Poll) (e : ProofEnv) :
    SendsOk s (turnStep r left poll e s).s ↔ o.approves r poll.command = true ∧ poll.locked = false ∧
      ¬ Unsigned e.keystore (proofMessage s.g r) := by
  rw [h.approves_iff]
  have hconsume := unanswered_consume poll.command s
  have hturn := turnStep_request r left poll e s
  generalize turnStep r left poll e s = w at hturn ⊢
  cases hturn with
  | undecided hwait => exact iff_of_false hconsume.not_sendsOk fun h => hwait ⟨h.1, h.2.1⟩
  | denied hneg hs => exact iff_of_false hs.not_sendsOk fun h => absurd h.1 (not_lt.mpr hneg.le)
  | approved hpos hlocked =>
    rw [(hconsume.proofSign r e).2, Ne, trustSign_eq_none_iff, proofMessage_consume]
    exact ⟨fun hsig => ⟨hpos, hlocked, hsig⟩, fun h => h.2.2⟩

/-- A request that begins to wait has no approval. -/
theorem pollInv_round {e : RoundEnv} {s : Service} {left : ℕ} (hpc : (roundStep e s).pc = .waiting r left)
    (hnone : o.approved = false) : PollInv (roundStep e s).s o r := by
  have hround := roundStep_request e s
  generalize roundStep e s = w at hpc hround ⊢
  cases hround with
  | unanswered hno _ _ => exact absurd hpc (hno r left)
  | waits _ _ hid =>
    cases hpc
    refine ⟨⟨rfl, by rw [← CStr.put_val_self r.requestid]; rfl⟩, hid, ?_⟩
    rw [hnone]
    exact iff_of_false Bool.false_ne_true (lt_irrefl 0)
  | signs _ _ _ => cases hpc

/-- A request that goes on waiting has the decision of the polls. -/
theorem pollInv_turn {left left' : ℕ} {poll : Poll} {e : ProofEnv} {s : Service} {r' : ProofRequest}
    (hpoll : PollInv s o r) (hpc : (turnStep r left poll e s).pc = .waiting r' left') {o' : LateProofs}
    (ho : o'.approved = o.approves r poll.command) : PollInv (turnStep r left poll e s).s o' r' := by
  have hturn := turnStep_request r left poll e s
  generalize turnStep r left poll e s = w at hpc hturn ⊢
  cases hturn with
  | undecided _ =>
    cases hpc
    exact ⟨(trustUiConsumeCommand_spec poll.command s).1.waiting hpoll.waiting, hpoll.id,
      by rw [ho]; exact hpoll.approves_iff _⟩
  | denied _ _ => cases hpc
  | approved _ _ => cases hpc

/-- **A step of the service keeps the invariant.** -/
theorem LateInv.service {l : Label} (hi : LateInv (σ, o)) (hok : RefusedAnyway (σ, o) (.service l))
    (hsys : sysNext c (.service l) σ = some σ') : LateInv (σ', o.serve l σ σ') := by
  obtain ⟨-, w, hw, hσ'⟩ := sysNext_service.mp hsys
  -- outside a session there is no late request
  have hout (h : σ.worker.pc.established = false) {s t : Service} (hlate : o.late = true) :
      ¬ SendsOk s t := by
    rw [hi.late h] at hlate
    cases hlate
  have hrest (hl : l.waits = false) (h : o.about σ l = true → ¬ SendsOk σ.worker.s σ'.worker.s) :
      LateInv (σ', o.serve l σ σ') :=
    hi.serve h fun r left hpc => absurd hpc (by rw [hσ']; exact pc_ne_waiting hw hl r left)
  subst hσ'
  obtain ⟨⟨pc, s⟩, stateBytes, command, commandBytes, held, ui⟩ := σ
  dsimp only at hw hout
  cases step_of_next hw with
  | lifecycle alive pc s =>
    refine hi.serve (fun _ => (unanswered_lifecycle alive s).not_sendsOk) fun r left hpc => ?_
    obtain ⟨hwaiting, hid, happroved⟩ := hi.wait r left hpc
    dsimp only at hpc
    subst hpc
    refine ⟨hwaiting, hid, Iff.trans ?_ happroved⟩
    show o.approves r (Label.lifecycle alive).file = true ↔ _
    rw [LateProofs.approves, decide_eq_false (not_carries_lifecycle alive _ _),
      decide_eq_false (not_carries_lifecycle alive _ _), Bool.false_or, Bool.not_false, Bool.and_true]
  | round e s hforget hreconnect =>
    refine hi.serve (fun hlate hsends => ?_) fun r left hpc => pollInv_round hpc rfl
    obtain ⟨r, hreq, hx, hlocked, hsig⟩ := (sendsOk_round_iff e s).mp hsends
    exact hsig (hok hlate r hreq hx hlocked)
  | turn poll e r left s =>
    have hpoll := hi.wait r (left + 1) rfl
    refine hi.serve (fun hlate hsends => ?_) fun r' left' hpc => pollInv_turn hpoll hpc rfl
    obtain ⟨happroves, hlocked, hsig⟩ := (sendsOk_turn_iff hpoll left poll e).mp hsends
    exact hsig (hok hlate happroves hlocked)
  | giveUp r left s => exact hrest rfl fun _ => (unanswered_giveUp s).not_sendsOk
  | pong chunks s => exact hrest rfl fun _ => (unanswered_pong chunks s).not_sendsOk
  | leave s => exact hrest rfl fun _ => (unanswered_endSession s).not_sendsOk
  | start | stop | consume | forget | approve | hello | check | answer | idle | idleEnd =>
    exact hrest rfl (hout rfl)

/-- **One step keeps the invariant.** -/
theorem LateInv.step {l : SysLabel} {p q : System × LateProofs} (hi : LateInv p)
    (hok : RefusedAnyway p l) (hnext : watch (sysNext c) LateProofs.see l p = some q) : LateInv q := by
  obtain ⟨σ, o⟩ := p
  obtain ⟨σ', o'⟩ := q
  obtain ⟨hsys, hsee⟩ := watch_eq_some.mp hnext
  clear hnext
  dsimp only at hsys hsee
  subst hsee
  cases l with
  | service l => exact hi.service hok hsys
  | ui a =>
    cases hsys
    exact ⟨hi.answered, hi.late, fun r left hpc => { hi.wait r left hpc with }⟩
  | fill k =>
    cases hsys
    exact ⟨hi.answered, hi.late, hi.wait⟩
  | look =>
    obtain ⟨-, rfl⟩ := sysNext_look.mp hsys
    exact ⟨hi.answered, hi.late, hi.wait⟩

theorem lateInv_of_run {p₀ : Prefs} {p : System × LateProofs}
    (h : Run (watch (sysNext c) LateProofs.see) RefusedAnyway (System.init p₀, {}) p) : LateInv p := by
  refine h.invariant (I := LateInv) ⟨rfl, fun _ => rfl, fun r left hpc => ?_⟩ fun _ _ _ hi hok hnext =>
    hi.step hok hnext
  cases hpc

/-- **No late proof**: in every run that meets the condition, no request taken up after a FORGET was
written is answered `PROOF_RESULT OK`. -/
theorem no_late_proof (c : Crypto) (p₀ : Prefs) (σ : System) (o : LateProofs)
    (h : Run (watch (sysNext c) LateProofs.see) RefusedAnyway (System.init p₀, {}) (σ, o)) :
    o.answered = false :=
  (lateInv_of_run h).answered

/-- **The condition is exact**: the first step that breaks it answers a late request
`PROOF_RESULT OK`. -/
theorem answered_of_not_refusedAnyway {p₀ : Prefs} {l : SysLabel} {p q : System × LateProofs}
    (h : Run (watch (sysNext c) LateProofs.see) RefusedAnyway (System.init p₀, {}) p)
    (hno : ¬ RefusedAnyway p l) (hnext : watch (sysNext c) LateProofs.see l p = some q) :
    q.2.answered = true := by
  have hi := lateInv_of_run h
  obtain ⟨σ, o⟩ := p
  obtain ⟨σ', o'⟩ := q
  obtain ⟨hsys, hsee⟩ := watch_eq_some.mp hnext
  clear hnext
  dsimp only at hsys hsee
  subst hsee
  have hanswered {l : Label} (hlate : o.about σ l = true) (hsends : SendsOk σ.worker.s σ'.worker.s) :
      (o.serve l σ σ').answered = true := by
    show (o.answered || o.about σ l && decide (SendsOk σ.worker.s σ'.worker.s)) = true
    rw [hlate, decide_eq_true hsends, Bool.and_self, Bool.or_true]
  unfold RefusedAnyway at hno
  split at hno
  · rename_i e hpc
    push Not at hno
    obtain ⟨hforget, r, hreq, hx, hlocked, hsig⟩ := hno
    obtain ⟨-, w, hw, rfl⟩ := sysNext_service.mp hsys
    obtain ⟨⟨pc, s⟩, stateBytes, command, commandBytes, held, ui⟩ := σ
    dsimp only at hpc hw
    subst hpc
    refine hanswered (l := .round e) hforget ?_
    cases step_of_next hw with
    | round e s _ _ => exact (sendsOk_round_iff e s).mpr ⟨r, hreq, hx, hlocked, hsig⟩
  · rename_i poll e r left hpc
    push Not at hno
    obtain ⟨hlate, happroves, hlocked, hsig⟩ := hno
    have hpoll := hi.wait r left hpc
    obtain ⟨-, w, hw, rfl⟩ := sysNext_service.mp hsys
    obtain ⟨⟨pc, s⟩, stateBytes, command, commandBytes, held, ui⟩ := σ
    dsimp only at hpc hw hpoll hsig
    subst hpc
    refine hanswered (l := .turn poll e) hlate ?_
    cases step_of_next hw with
    | turn poll e r left s => exact (sendsOk_turn_iff hpoll left poll e).mpr ⟨happroves, hlocked, hsig⟩
  · exact absurd trivial hno

/-! ### Samples -/

/-- In an established session the user opens Devices and touches REVOKE WORKSTATION. -/
def forgetting : List SysLabel := establishing ++ touching (.productNav 2) ++ touching .trustForget

/-- A request that meets a locked phone is refused. -/
theorem no_late_proof_locked : ∃ σ o,
    Run (watch (sysNext sampleCrypto) LateProofs.see) RefusedAnyway (System.init storedHost, {}) (σ, o) ∧
    o.late = true ∧ o.answered = false := by
  have hrun : (execOk (watch (sysNext sampleCrypto) LateProofs.see) RefusedAnyway
      (forgetting ++ [requestLabel "i" "6f776e65722e61" "AUTO" true]) (System.init storedHost, {})).map
      (·.2.late) = some true := by
    decide +kernel
  obtain ⟨⟨σ, o⟩, hw, hlate⟩ := Option.map_eq_some_iff.mp hrun
  have hrun' := Run.of_execOk hw
  exact ⟨σ, o, hrun', hlate, no_late_proof sampleCrypto storedHost σ o hrun'⟩

/-- A request that needs no approval is answered on an unlocked phone. -/
theorem no_late_proof_plain : ¬ ∀ (c : Crypto) (p₀ : Prefs) (σ : System) (o : LateProofs),
    Reach (watch (sysNext c) LateProofs.see) (System.init p₀, {}) (σ, o) → o.answered = false := by
  intro hall
  have hrun : (exec (watch (sysNext sampleCrypto) LateProofs.see)
      (forgetting ++ [requestLabel "i" "6f776e65722e61" "AUTO" false]) (System.init storedHost, {})).map
      (·.2.answered) = some true := by
    decide +kernel
  obtain ⟨⟨σ, o⟩, hw, hanswered⟩ := Option.map_eq_some_iff.mp hrun
  have hnone := hall sampleCrypto storedHost σ o (Run.of_exec hw)
  rw [show o.answered = true from hanswered] at hnone
  cases hnone

end ZorinTrust
