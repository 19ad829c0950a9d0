import ZorinTrust.ProofGate

/-!
# Every proof request ends in one answer

`trust_handle_proof_request` has many exits, some before and some after it makes a request the pending
one.  Each hands one `PROOF_RESULT` to the socket, leaves nothing pending and counts a proof only when
the proof went out (`proof_all_or_nothing`).
-/

namespace ZorinTrust

open CText Numeral

/-! ### The answer -/

/-- No request is pending, decided or named. -/
structure AuthorityCleared (g : Globals) : Prop where
  pending : g.gAuthorityPending = false
  decision : g.gAuthorityDecision = 0
  requestId : g.gAuthorityRequestId.val = []
  action : g.gAuthorityAction.val = []
  resource : g.gAuthorityResource.val = []
  prompt : g.gAuthorityPrompt.val = []

/-- The messages a stretch of the history hands to the socket, newest first. -/
def sentMessages (l : List Event) : List Bytes :=
  l.filterMap fun
    | .sent m => some m
    | _ => none

@[simp] theorem sentMessages_append (l l' : List Event) :
    sentMessages (l ++ l') = sentMessages l ++ sentMessages l' := List.filterMap_append

theorem mem_sentMessages {l : List Event} {m : Bytes} : m ∈ sentMessages l ↔ .sent m ∈ l := by
  simp only [sentMessages, List.mem_filterMap]
  constructor
  · rintro ⟨ev, hev, h⟩
    cases ev with
    | sent m' => cases h; exact hev
    | published _ _ => cases h
    | consumed _ _ => cases h
    | directCleared => cases h
    | connecting _ _ => cases h
    | signed _ => cases h
  · intro h
    exact ⟨.sent m, h, rfl⟩

/-- Return code, message and proof count at the exits. -/
inductive ProofExit (sendOk : Bool) (count : UInt32) : ℤ → Bytes → UInt32 → Prop
  | deny (d : ProofDeny) : ProofExit sendOk count d.rc d.wire count
  | lost {sig : Bytes} (hlen : sig.length ≤ 192) (hsend : sendOk = false) :
      ProofExit sendOk count (-11) (okWire sig) count
  | proved {sig : Bytes} (hlen : sig.length ≤ 192) (hsend : sendOk = true) :
      ProofExit sendOk count 0 (okWire sig) (count + 1)

/-- What a stretch of the run that ends a request has done: one message, by one of the exits. -/
structure Answered (e : ProofEnv) (s : Service) (q : ℤ × Service) : Prop where
  exit : ∃ new m, q.2.log = new ++ s.log ∧ sentMessages new = [m] ∧
    ProofExit e.sendOk s.g.gTrustProofCount q.1 m q.2.g.gTrustProofCount
  cleared : AuthorityCleared q.2.g
  state : q.2.g.gTrustState = s.g.gTrustState

/-- A stretch that hands nothing to the socket. -/
structure Silent (s t : Service) : Prop where
  log : ∃ new, t.log = new ++ s.log ∧ sentMessages new = []
  count : t.g.gTrustProofCount = s.g.gTrustProofCount
  state : t.g.gTrustState = s.g.gTrustState

theorem Silent.refl (s : Service) : Silent s s := ⟨⟨[], rfl, rfl⟩, rfl, rfl⟩

theorem Silent.trans {s t u : Service} (h : Silent s t) (h' : Silent t u) : Silent s u := by
  obtain ⟨new, hlog, hnone⟩ := h.log
  obtain ⟨new', hlog', hnone'⟩ := h'.log
  refine ⟨⟨new' ++ new, by rw [hlog', hlog, List.append_assoc], ?_⟩, h'.count.trans h.count,
    h'.state.trans h.state⟩
  rw [sentMessages_append, hnone, hnone']
  rfl

theorem Answered.of_silent {e : ProofEnv} {s t : Service} {q : ℤ × Service} (h : Silent s t)
    (ha : Answered e t q) : Answered e s q := by
  obtain ⟨new, hlog, hnone⟩ := h.log
  obtain ⟨new', m, hlog', hone, hexit⟩ := ha.exit
  refine ⟨⟨new' ++ new, m, by rw [hlog', hlog, List.append_assoc], ?_, h.count ▸ hexit⟩, ha.cleared,
    ha.state.trans h.state⟩
  rw [sentMessages_append, hnone, hone, List.append_nil]

/-! ### The parts of the handler -/

theorem cleared_clear (s : Service) : AuthorityCleared (trustClearAuthorityRequest s).g :=
  ⟨rfl, rfl, rfl, rfl, rfl, rfl⟩

theorem silent_clear (s : Service) : Silent s (trustClearAuthorityRequest s) :=
  ⟨⟨[_], rfl, rfl⟩, rfl, rfl⟩

theorem silent_proofPend (r : ProofRequest) (s : Service) : Silent s (proofPend r s) :=
  ⟨⟨[_], rfl, rfl⟩, rfl, rfl⟩

theorem silent_proofWait (n : ℕ) (polls : List Poll) (s : Service) :
    Silent s (proofWait n polls s).2 := by
  obtain ⟨hsame, -, new, hlog, hcons⟩ := proofWait_spec n polls s
  refine ⟨⟨new, hlog, ?_⟩, ?_, ?_⟩
  · rw [List.eq_nil_iff_forall_not_mem]
    intro m hm
    obtain ⟨frame, g, h⟩ := hcons _ (mem_sentMessages.mp hm)
    cases h
  · rw [hsame]
  · rw [hsame]

theorem answered_refuse (d : ProofDeny) {e : ProofEnv} {s : Service} (h : AuthorityCleared s.g) :
    Answered e s (refuse d s) :=
  ⟨⟨[.sent d.wire], d.wire, rfl, rfl, .deny d⟩, h, rfl⟩

/-- A refusal after the wait clears the request first. -/
theorem answered_refuse_clear (d : ProofDeny) (e : ProofEnv) (s : Service) :
    Answered e s (refuse d (trustClearAuthorityRequest s)) :=
  (answered_refuse d (cleared_clear s)).of_silent (silent_clear s)

/-- **From the decision to the end** there is one answer; what an EXPLICIT request set is cleared. -/
theorem answered_proofSign {r : ProofRequest} (e : ProofEnv) {s : Service}
    (h : r.explicitMode = false → AuthorityCleared s.g) : Answered e s (proofSign r e s) := by
  unfold proofSign
  dsimp only
  by_cases hx : r.explicitMode = true
  · simp only [if_pos hx]
    cases hsign : trustSign e.keystore 192 (proofMessage s.g r) with
    | none => exact ⟨⟨[_, _, _], _, rfl, rfl, .deny .signing⟩, cleared_clear _, rfl⟩
    | some sig =>
      have hlen := (trustSign_eq_some hsign).2
      dsimp only
      split_ifs with hsend
      · exact ⟨⟨[_, _, _], _, rfl, rfl, .lost hlen hsend⟩, cleared_clear _, rfl⟩
      · exact ⟨⟨[_, _, _], _, rfl, rfl, .proved hlen (by simpa using hsend)⟩, cleared_clear _, rfl⟩
  · have hcleared := h (by simpa using hx)
    simp only [if_neg hx]
    cases hsign : trustSign e.keystore 192 (proofMessage s.g r) with
    | none => exact ⟨⟨[_, _], _, rfl, rfl, .deny .signing⟩, hcleared, rfl⟩
    | some sig =>
      have hlen := (trustSign_eq_some hsign).2
      dsimp only
      split_ifs with hsend
      · exact ⟨⟨[_, _], _, rfl, rfl, .lost hlen hsend⟩, hcleared, rfl⟩
      · refine ⟨⟨[_, _, _], _, rfl, rfl, .proved hlen (by simpa using hsend)⟩, ?_, rfl⟩
        exact ⟨hcleared.pending, hcleared.decision, hcleared.requestId, hcleared.action,
          hcleared.resource, hcleared.prompt⟩

/-- **The handler answers once**, by one of its exits, and leaves nothing pending. -/
theorem answered_trustHandleProofRequest (frame : CStr 4096) (e : ProofEnv) {s : Service}
    (h : AuthorityCleared s.g) : Answered e s (trustHandleProofRequest frame e s) := by
  unfold trustHandleProofRequest
  cases proofScreen frame.val e.clock with
  | error d => exact answered_refuse d h
  | ok r =>
    dsimp only
    by_cases hx : r.explicitMode = true
    · rw [if_pos hx]
      have hwait := (silent_proofPend r s).trans (silent_proofWait 500 e.polls (proofPend r s))
      generalize proofWait 500 e.polls (proofPend r s) = q at hwait ⊢
      obtain ⟨decided, s₁⟩ := q
      cases decided with
      | denied => exact (answered_refuse_clear .userDenied e s₁).of_silent hwait
      | undecided => exact (answered_refuse_clear .approvalTimeout e s₁).of_silent hwait
      | approved =>
        exact (answered_proofSign e fun hf => absurd hx (by simp [hf])).of_silent hwait
    · rw [if_neg hx]
      split_ifs
      · exact answered_refuse .phoneLocked h
      · exact answered_proofSign e fun _ => h

/-! ### The messages -/

/-- The wire buffer holds every proof: 192 bytes of signature are 384 hex digits. -/
theorem okWire_eq {sig : Bytes} (h : sig.length ≤ 192) :
    ∃ sighex, trustHexEncode sig 512 = some sighex ∧
      okWire sig = okHead ++ lit "\nSIGNATURE " ++ sighex ++ lit "\nEND\n" := by
  have henc : trustHexEncode sig 512 = some _ := trustHexEncode_of_lt (by omega)
  refine ⟨_, henc, ?_⟩
  have hlen := trustHexEncode_length henc
  rw [okWire, henc, Option.getD_some]
  apply cut_of_lt
  have h1 : okHead.length = 15 := rfl
  have h2 : (lit "\nSIGNATURE ").length = 11 := rfl
  have h3 : (lit "\nEND\n").length = 5 := rfl
  rw [List.length_append, List.length_append, List.length_append, hlen, h1, h2, h3]
  omega

/-- A complete message of the proof protocol. -/
def ProofResult (m : Bytes) : Prop := lit "PROOF_RESULT " <+: m ∧ lit "\nEND\n" <:+ m

theorem proofResult_of_exit {sendOk : Bool} {count count' : UInt32} {rc : ℤ} {m : Bytes}
    (h : ProofExit sendOk count rc m count') : ProofResult m := by
  have hok {sig : Bytes} (hlen : sig.length ≤ 192) : ProofResult (okWire sig) := by
    obtain ⟨sighex, -, hwire⟩ := okWire_eq hlen
    rw [hwire]
    refine ⟨?_, List.suffix_append _ _⟩
    rw [List.append_assoc, List.append_assoc]
    exact (show lit "PROOF_RESULT " <+: okHead by decide).trans (List.prefix_append _ _)
  cases h with
  | deny d =>
    refine ⟨?_, List.suffix_append _ _⟩
    rw [ProofDeny.wire, List.append_assoc]
    exact (show lit "PROOF_RESULT " <+: lit "PROOF_RESULT DENY\nREASON " by decide).trans
      (List.prefix_append _ _)
  | lost hlen _ => exact hok hlen
  | proved hlen _ => exact hok hlen

/-- **All or nothing**: one complete message, nothing left pending, the state kept, and a proof counted
exactly when the function returns 0, that is when a proof was sent in full. -/
theorem proof_all_or_nothing (frame : CStr 4096) (e : ProofEnv) (s : Service)
    (h : AuthorityCleared s.g) :
    (∃ m, sentMessages (since s (trustHandleProofRequest frame e s).2) = [m] ∧ ProofResult m) ∧
    AuthorityCleared (trustHandleProofRequest frame e s).2.g ∧
    (trustHandleProofRequest frame e s).2.g.gTrustState = s.g.gTrustState ∧
    ((trustHandleProofRequest frame e s).1 = 0 ↔
      SendsOk s (trustHandleProofRequest frame e s).2 ∧ e.sendOk = true) ∧
    (trustHandleProofRequest frame e s).2.g.gTrustProofCount =
      if (trustHandleProofRequest frame e s).1 = 0 then s.g.gTrustProofCount + 1
      else s.g.gTrustProofCount := by
  have ha := answered_trustHandleProofRequest frame e h
  generalize trustHandleProofRequest frame e s = q at ha ⊢
  obtain ⟨new, m, hlog, hone, hexit⟩ := ha.exit
  have hsends : SendsOk s q.2 ↔ okHead <+: m := by
    simp only [SendsOk, since_eq hlog, ← mem_sentMessages, hone, List.mem_singleton]
    constructor
    · rintro ⟨w, hw, rfl⟩
      exact hw
    · intro hm
      exact ⟨m, hm, rfl⟩
  refine ⟨⟨m, by rw [since_eq hlog, hone], proofResult_of_exit hexit⟩, ha.cleared, ha.state, ?_⟩
  rw [hsends]
  generalize q.1 = rc at hexit ⊢
  generalize q.2.g.gTrustProofCount = count at hexit ⊢
  cases hexit with
  | deny d =>
    have hrc : d.rc ≠ 0 := by cases d <;> decide
    have hhead : ¬ okHead <+: d.wire := by cases d <;> decide
    exact ⟨⟨fun h => absurd h hrc, fun h => absurd h.1 hhead⟩, (if_neg hrc).symm⟩
  | lost _ hsend =>
    rw [hsend]
    exact ⟨⟨fun h => absurd h (by decide), fun h => absurd h.2 Bool.false_ne_true⟩, rfl⟩
  | proved _ hsend => exact ⟨⟨fun _ => ⟨okHead_prefix_okWire _, hsend⟩, fun _ => rfl⟩, rfl⟩

/-- An approved EXPLICIT request is counted, and nothing of it is left. -/
theorem proof_all_or_nothing_explicit :
    (trustHandleProofRequest (explicitFrame (lit "6f776e65722e78") (lit "72"))
        explicitEnv {}).2.g.gTrustProofCount = 1 ∧
      AuthorityCleared
        (trustHandleProofRequest (explicitFrame (lit "6f776e65722e78") (lit "72")) explicitEnv {}).2.g := by
  have hstart : AuthorityCleared ({} : Service).g := ⟨rfl, rfl, rfl, rfl, rfl, rfl⟩
  obtain ⟨-, hcleared, -, -, hcount⟩ := proof_all_or_nothing
    (explicitFrame (lit "6f776e65722e78") (lit "72")) explicitEnv {} hstart
  refine ⟨?_, hcleared⟩
  rw [hcount, if_pos (by decide +kernel)]
  rfl

end ZorinTrust
