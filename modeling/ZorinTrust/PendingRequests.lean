import ZorinTrust.UiChanges
import ZorinTrust.Authorization

/-!
# Whose requests are pending

A request is pending only while an established session waits for its decision, so no state frame shows a
request beside a host that is not trusted.  The Activity's copies hold none beside such a host either, as long
as no look at the state file ends between STATE and AUTH_PENDING (`pending_established`): such a look sets the
state and leaves the request.
-/

namespace ZorinTrust

open CText Numeral Machine

/-- What is published with a request is the state of an established session. -/
def AskEvent : Event → Prop
  | .published g _ => g.gAuthorityPending = true → g.gTrustState = 3
  | _ => True

/-- The stretch has no request pending, if there was none. -/
def Calm (s t : Service) : Prop :=
  s.g.gAuthorityPending = false → t.g.gAuthorityPending = false ∧ Emits AskEvent s t

variable {c : Crypto} {s t u : Service}

namespace Calm

theorem trans (h : Calm s t) (h' : Calm t u) : Calm s u := fun hs => by
  obtain ⟨ht, hevents⟩ := h hs
  obtain ⟨hu, hevents'⟩ := h' ht
  exact ⟨hu, hevents.trans hevents'⟩

theorem set (hpending : t.g.gAuthorityPending = s.g.gAuthorityPending) (hlog : t.log = s.log) : Calm s t :=
  fun hs => ⟨hpending.trans hs, .of_log_eq hlog⟩

theorem composes : Composes Calm := ⟨fun _ => .set rfl rfl, .trans⟩

theorem emit (ev : Event) (s : Service) (h : AskEvent ev) : Calm s (s.emit ev) := fun hs =>
  ⟨hs, .single ev rfl h⟩

theorem publish (hpending : t.g.gAuthorityPending = s.g.gAuthorityPending) (hlog : t.log = s.log) :
    Calm s (trustUiPublishState t) := fun hs => by
  have ht : t.g.gAuthorityPending = false := hpending.trans hs
  refine ⟨ht, .single (.published t.g _) (by rw [← hlog]; rfl) fun hask => ?_⟩
  exact absurd (ht.symm.trans hask) Bool.false_ne_true

end Calm

/-! ### Steps without a request -/

theorem calm_consume (file : Option Bytes) (s : Service) : Calm s (trustUiConsumeCommand file s) := fun hs => by
  obtain ⟨hg, -, new, hlog, hcons⟩ := trustUiConsumeCommand_spec file s
  refine ⟨by rw [hg]; exact hs, new, hlog, fun ev hev => ?_⟩
  obtain ⟨frame, g, rfl⟩ := hcons ev hev
  trivial

theorem calm_sessionEnd (s : Service) : Calm s (sessionEnd s) := by
  unfold sessionEnd
  dsimp only
  split_ifs
  · exact .publish rfl rfl
  · exact .set rfl rfl

theorem calm_forgetHost (s : Service) : Calm s (forgetHost s) := by
  unfold forgetHost
  split_ifs
  · exact fun hs => ⟨hs, .single .directCleared rfl trivial⟩
  · exact .set rfl rfl
  · exact .set rfl rfl

theorem calm_forgetStep (s : Service) : Calm s (forgetStep s) := by
  by_cases hf : s.g.gTrustForgetRequested = true
  · have hstep : forgetStep s = trustSetStatus 0 "WORKSTATION REVOKED" _ := if_pos hf
    rw [hstep]
    exact (calm_forgetHost s).trans (.publish rfl rfl)
  · rw [forgetStep_of_not_requested (by simpa using hf)]
    exact .set rfl rfl

theorem calm_approveStep (s : Service) : Calm s (approveStep s) := by
  by_cases hdue : ApprovalDue s.g
  · have hstep : approveStep s = trustSetStatus 0 "WORKSTATION APPROVED - AUTHENTICATING" _ := if_pos hdue
    have hhost : Calm s (approveHost s) := by
      unfold approveHost
      split_ifs <;> exact .set rfl rfl
    rw [hstep]
    exact hhost.trans (.publish rfl rfl)
  · rw [approveStep_of_not_due hdue]
    exact .set rfl rfl

theorem calm_openLink (e : HelloEnv) (s : Service) : Calm s (openLink e s).2 := by
  refine Calm.composes.connect e s ?_ ?_ ?_
  · exact fun text s _ => .set rfl rfl
  · exact fun s => .emit _ s trivial
  · exact fun _ _ s => .emit _ s trivial

theorem calm_helloStep (e : HelloEnv) (s : Service) : Calm s (helloStep c e s).s := by
  have hopen := calm_openLink e s
  unfold helloStep sessionOpen
  generalize openLink e s = q at hopen ⊢
  obtain ⟨opened, s₁⟩ := q
  cases opened with
  | none => exact hopen
  | some link =>
    dsimp only
    cases (trustRecvFrame 4096 e.chunks).bind (parseHello c e.digestOk) with
    | none => exact hopen
    | some h => exact hopen.trans (.set rfl rfl)

theorem calm_checkStep (link : Link) (h : Hello) (s : Service) : Calm s (checkStep link h s).s := by
  unfold checkStep sessionCheck
  dsimp only
  split_ifs
  · exact .publish rfl rfl
  · exact .publish rfl rfl

theorem calm_judgeAnswer (h : Hello) (phonepub phnonce frame : Bytes) (s : Service) :
    Calm s (judgeAnswer c h phonepub phnonce frame s).2 := by
  unfold judgeAnswer
  split_ifs
  · exact .publish rfl rfl
  · exact .publish rfl rfl
  · cases (trustFrameField frame "HOST_SIG" 384).bind (trustHexDecode · 192) with
    | none => exact .set rfl rfl
    | some hostsig =>
      dsimp only
      split_ifs
      · exact .set rfl rfl
      · exact .publish rfl rfl
      · exact fun hs => ⟨hs, .single (.published _ _) rfl fun _ => rfl⟩

theorem calm_answerStep (link : Link) (h : Hello) (e : AnswerEnv) (s : Service) :
    Calm s (answerStep c link h e s).s := by
  rw [answerStep_service]
  refine Calm.composes.answer c link h e ?_ fun _ _ frame s => calm_judgeAnswer h _ _ frame s
  refine Calm.composes.phoneProof c link h e s ?_ ?_ ?_ ?_
  · exact fun _ _ => .publish rfl rfl
  · exact fun _ => .set rfl rfl
  · exact fun msg s => .emit (.signed msg) s trivial
  · exact fun _ _ _ _ _ s _ => .emit _ s trivial

/-! ### The request -/

/-- The stretch ends with no request pending. -/
def Clears (s t : Service) : Prop := t.g.gAuthorityPending = false ∧ Emits AskEvent s t

theorem Clears.calm (h : Clears s t) (h' : Calm t u) : Clears s u := by
  obtain ⟨hu, hevents⟩ := h' h.1
  exact ⟨hu, h.2.trans hevents⟩

theorem clears_clear (s : Service) : Clears s (trustClearAuthorityRequest s) :=
  ⟨rfl, .single (.published _ _) rfl fun hask => absurd hask Bool.false_ne_true⟩

theorem calm_refuse (d : ProofDeny) (s : Service) : Calm s (refuse d s).2 := .emit _ s trivial

/-- A signature ends its request, if it had to be asked for. -/
theorem clears_proofSign (r : ProofRequest) (e : ProofEnv) (s : Service)
    (h : r.explicitMode = true ∨ s.g.gAuthorityPending = false) : Clears s (proofSign r e s).2 := by
  have hclear : ∀ {t : Service}, Emits AskEvent s t → t.g.gAuthorityPending = s.g.gAuthorityPending →
      Clears s (if r.explicitMode then trustClearAuthorityRequest t else t) := by
    intro t hevents hsame
    split_ifs with hx
    · exact ⟨rfl, hevents.trans (clears_clear t).2⟩
    · exact ⟨hsame.trans (h.resolve_left hx), hevents⟩
  have hsigned : ∀ msg, Emits AskEvent s (s.emit (.signed msg)) := fun msg => .single _ rfl trivial
  unfold proofSign
  dsimp only
  cases trustSign e.keystore 192 (proofMessage s.g r) with
  | none => exact (hclear (hsigned _) rfl).calm (calm_refuse _ _)
  | some sig =>
    have hsent : Emits AskEvent s ((s.emit (.signed (proofMessage s.g r))).emit (.sent (okWire sig))) :=
      (hsigned _).trans (.single _ rfl trivial)
    dsimp only
    split_ifs with hsend hx hx
    · exact ⟨rfl, hsent.trans (clears_clear _).2⟩
    · exact ⟨h.resolve_left hx, hsent⟩
    · exact ⟨rfl, hsent.trans (.single (.published _ _) rfl fun hask => absurd hask Bool.false_ne_true)⟩
    · have hnone := h.resolve_left hx
      exact ⟨hnone, hsent.trans (.single (.published _ _) rfl fun hask =>
        absurd (hnone.symm.trans hask) Bool.false_ne_true)⟩

/-! ### The invariant -/

/-- A request is pending only in the wait for its decision, and was published only by an established
session. -/
structure AskInv (w : Worker) : Prop where
  waits : w.s.g.gAuthorityPending = true → ∃ r left, w.pc = .waiting r left
  explicit : ∀ r left, w.pc = .waiting r left → r.explicitMode = true
  shown : ∀ ev ∈ w.s.log, AskEvent ev

namespace AskInv

variable {pc pc' : Pc}

theorem events (h : ∀ ev ∈ s.log, AskEvent ev) (hevents : Emits AskEvent s t) : ∀ ev ∈ t.log, AskEvent ev := by
  obtain ⟨new, hlog, hnew⟩ := hevents
  intro ev hev
  rw [hlog] at hev
  exact (List.mem_append.mp hev).elim (hnew ev) (h ev)

theorem none_pending (hi : AskInv ⟨pc, s⟩) (hpc : ∀ r left, pc ≠ .waiting r left) :
    s.g.gAuthorityPending = false := by
  rw [← Bool.not_eq_true]
  intro hask
  obtain ⟨r, left, hw⟩ := hi.waits hask
  exact hpc r left hw

/-- A step that leaves no request pending. -/
theorem cleared (hi : AskInv ⟨pc, s⟩) (hclears : Clears s t) (hpc' : ∀ r left, pc' ≠ .waiting r left) :
    AskInv ⟨pc', t⟩ where
  waits hask := absurd (hclears.1.symm.trans hask) Bool.false_ne_true
  explicit r left hw := absurd hw (hpc' r left)
  shown := events hi.shown hclears.2

/-- A step outside the wait loop. -/
theorem calm (hi : AskInv ⟨pc, s⟩) (hpc : ∀ r left, pc ≠ .waiting r left) (hcalm : Calm s t)
    (hpc' : ∀ r left, pc' ≠ .waiting r left) : AskInv ⟨pc', t⟩ :=
  hi.cleared (hcalm (hi.none_pending hpc)) hpc'

/-- A proof request begins to wait, or is over. -/
theorem begin (hi : AskInv ⟨.linked, s⟩) (hst : s.g.gTrustState = 3) (frame : CStr 4096) (e : ProofEnv) :
    AskInv (beginProof frame e s) := by
  have hnone := hi.none_pending (by simp)
  unfold beginProof
  cases proofScreen frame.val e.clock with
  | error d => exact hi.calm (by simp) (calm_refuse d s) (by simp)
  | ok r =>
    dsimp only
    split_ifs with hx hlocked
    · refine ⟨fun _ => ⟨r, 500, rfl⟩, fun r' left hw => ?_, events hi.shown (.single (.published _ _) rfl fun _ => hst)⟩
      cases hw
      exact hx
    · exact hi.calm (by simp) (calm_refuse _ s) (by simp)
    · exact hi.cleared (clears_proofSign r e s (.inr hnone)) (by simp)

theorem ended (hi : AskInv ⟨.linked, s⟩) : AskInv (endSession s) :=
  hi.calm (by simp) (calm_sessionEnd s) (by simp)

theorem round (hi : AskInv ⟨.linked, s⟩) (hst : s.g.gTrustState = 3) (e : RoundEnv) : AskInv (roundStep e s) := by
  have hpoll : ∀ m, AskInv ⟨.linked, s.emit (.sent m)⟩ := fun m =>
    hi.calm (by simp) (.emit _ s trivial) (by simp)
  unfold roundStep
  dsimp only
  generalize lit (if e.locked = true then _ else _) = poll
  by_cases hsend : e.sendOk = false
  · rw [if_pos hsend]
    exact (hpoll _).ended
  rw [if_neg hsend]
  cases trustRecvSessionMessage 4096 e.chunks with
  | none => exact (hpoll _).ended
  | some smsg =>
    dsimp only
    split_ifs
    · exact (hpoll _).begin hst _ _
    · exact hpoll _
    · exact (hpoll _).ended

theorem turn {r : ProofRequest} {left : ℕ} (hi : AskInv ⟨.waiting r (left + 1), s⟩) (p : Poll) (e : ProofEnv) :
    AskInv (turnStep r left p e s) := by
  have hx := hi.explicit r (left + 1) rfl
  obtain ⟨hg, -, new, hlog, hcons⟩ := trustUiConsumeCommand_spec p.command s
  have hlook : Emits AskEvent s (waitTurn p s).2 := by
    rw [waitTurn_service]
    refine ⟨new, hlog, fun ev hev => ?_⟩
    obtain ⟨frame, g, rfl⟩ := hcons ev hev
    trivial
  unfold turnStep
  generalize waitTurn p s = q at hlook ⊢
  obtain ⟨decided, s₁⟩ := q
  cases decided with
  | undecided =>
    refine ⟨fun _ => ⟨r, left, rfl⟩, fun r' left' hw => ?_, events hi.shown hlook⟩
    cases hw
    exact hx
  | denied =>
    have hclears : Clears s (trustClearAuthorityRequest s₁) := ⟨rfl, hlook.trans (clears_clear s₁).2⟩
    exact hi.cleared (hclears.calm (calm_refuse _ _)) (by simp)
  | approved =>
    have hsign := clears_proofSign r e s₁ (.inl hx)
    exact hi.cleared ⟨hsign.1, hlook.trans hsign.2⟩ (by simp)

/-- The service publishes its life, in an established session with the request that waits. -/
theorem lifecycle (hi : AskInv ⟨pc, s⟩) (hst : pc.established = true → s.g.gTrustState = 3) (alive : Bool) :
    AskInv ⟨pc, lifecycleStep alive s⟩ := by
  refine ⟨hi.waits, hi.explicit, events hi.shown (.single (.published _ _) rfl fun hask => ?_)⟩
  obtain ⟨r, left, rfl⟩ := hi.waits hask
  exact hst rfl

end AskInv

theorem PcInv.established {p₀ : Prefs} {pc : Pc} (h : PcInv c p₀ s pc) (hpc : pc.established = true) :
    s.g.gTrustState = 3 := by
  cases pc with
  | linked | waiting r left | pong => exact h
  | off | top | forget | approve | session | checking link hello | authenticating link hello | idle left =>
    cases hpc

/-- **One step keeps the invariant.** -/
theorem AskInv.step {p₀ : Prefs} {l : Label} {w w' : Worker} (ht : TrustInv c p₀ w) (hi : AskInv w)
    (hnext : next c l w = some w') : AskInv w' := by
  have hstay (hl : l.waits = false) := pc_ne_waiting hnext hl
  cases step_of_next hnext with
  | lifecycle alive pc s => exact hi.lifecycle ht.pc.established alive
  | start e s => exact hi.calm (by simp) (.publish rfl rfl) (hstay rfl)
  | stop s => exact hi.calm (by simp) (.set rfl rfl) (hstay rfl)
  | consume file s => exact hi.calm (by simp) (calm_consume file s) (hstay rfl)
  | forget s => exact hi.calm (by simp) (calm_forgetStep s) (hstay rfl)
  | approve s => exact hi.calm (by simp) (calm_approveStep s) (hstay rfl)
  | hello e s => exact hi.calm (by simp) (calm_helloStep e s) (hstay rfl)
  | check link h s => exact hi.calm (by simp) (calm_checkStep link h s) (hstay rfl)
  | answer e link h s => exact hi.calm (by simp) (calm_answerStep link h e s) (hstay rfl)
  | round e s _ _ => exact hi.round ht.pc e
  | turn p e r left s => exact hi.turn p e
  | giveUp r left s => exact hi.cleared ((clears_clear s).calm (calm_refuse _ _)) (hstay rfl)
  | pong chunks s => exact hi.calm (by simp) (Calm.composes.pong calm_sessionEnd chunks s) (hstay rfl)
  | leave s => exact hi.ended
  | idle file left s =>
    have hcalm : Calm s (idleStep left file s).s := by
      unfold idleStep
      dsimp only
      split_ifs <;> exact calm_consume file s
    exact hi.calm (by simp) hcalm (hstay rfl)
  | idleEnd left s => exact hi.calm (by simp) (.set rfl rfl) (hstay rfl)

theorem askInv_of_reach {p₀ : Prefs} {w : Worker} (h : Reach (next c) (Worker.init p₀) w) : AskInv w := by
  refine (h.invariant (I := fun w => TrustInv c p₀ w ∧ AskInv w) ?_ fun t l u hi _ hnext =>
    ⟨hi.1.step hnext, hi.2.step hi.1 hnext⟩).2
  refine ⟨trustInv_of_reach .refl, ⟨fun hask => ?_, fun r left hw => ?_, fun ev hev => ?_⟩⟩
  · cases hask
  · cases hw
  · cases hev

/-! ### Both processes -/

/-- A copy of the globals shows a request only beside an established session. -/
def Asked (g : Globals) : Prop := g.gAuthorityPending = true → g.gTrustState = 3

instance (g : Globals) : Decidable (Asked g) := inferInstanceAs (Decidable (_ → _))

theorem stateFile_cases : ∀ log : List Event, stateFile log = [] ∨
    ∃ g paired, .published g paired ∈ log ∧ stateFile log = stateFrame g paired
  | [] => .inl rfl
  | ev :: log => by
    have hrest := stateFile_cases log
    have htail : stateFile log = [] ∨
        ∃ g paired, .published g paired ∈ ev :: log ∧ stateFile log = stateFrame g paired :=
      hrest.imp_right fun ⟨g, paired, hmem, hfile⟩ => ⟨g, paired, List.mem_cons_of_mem ev hmem, hfile⟩
    cases ev with
    | published g paired => exact .inr ⟨g, paired, List.mem_cons_self, rfl⟩
    | consumed _ _ => exact htail
    | directCleared => exact htail
    | connecting _ _ => exact htail
    | signed _ => exact htail
    | sent _ => exact htail

/-- A look at the state file finds no header, or takes in the number AUTH_PENDING. -/
def ReachesPending (σ : System) : SysLabel → Prop
  | .ui .sync | .ui .refresh =>
    σ.stateRead.length < 10 ∨ (trustFrameField σ.stateRead "AUTH_PENDING" 64).isSome = true
  | _ => True

instance (σ : System) (l : SysLabel) : Decidable (ReachesPending σ l) := by
  rcases l with l | k | _ | a
  · exact instDecidableTrue
  · exact instDecidableTrue
  · exact instDecidableTrue
  · rcases a with _ | _ | _ | _ | _ | _ | _
    all_goals first | exact instDecidableTrue | exact inferInstanceAs (Decidable (_ ∨ _))

/-- **A look at the state file.**  Up to AUTH_PENDING the numbers are those of one frame. -/
theorem asked_sync {σ : System} (hlog : ∀ ev ∈ σ.worker.s.log, AskEvent ev)
    (hok : ReachesPending σ (.ui .sync)) (hui : Asked σ.ui.copy.g) :
    Asked (trustUiSyncFromService σ.stateRead σ.ui.copy).2.g := by
  obtain hnone | ⟨g, paired, hmem, hfile⟩ := stateFile_cases σ.worker.s.log
  · rw [show σ.stateRead = [] by rw [System.stateRead, hnone, List.take_nil]]
    exact hui
  have hread : σ.stateRead = (stateFrame g paired).take σ.stateBytes := by rw [System.stateRead, hfile]
  have hlong : 10 ≤ (stateFrame g paired).length := by
    rw [stateFrame_eq, stateText, List.length_append]
    exact Nat.le_add_right 10 _
  unfold ReachesPending at hok
  dsimp only at hok
  rw [hread] at hok ⊢
  obtain ⟨hshort, hframe⟩ := sync_take g paired σ.stateBytes σ.ui.copy
  by_cases hn : σ.stateBytes < 10
  · rw [hshort hn]
    exact hui
  obtain ⟨-, hglobals, -⟩ := hframe (not_lt.mp hn)
  have hreach : fieldStart g paired 4 ≤ σ.stateBytes := by
    by_contra hlt
    rcases hok with hok | hok
    · rw [List.length_take] at hok
      omega
    · rw [trustFrameField_take (i := 4) (v := flag g.gAuthorityPending) rfl 64, if_pos (not_le.mp hlt)] at hok
      cases hok
  rw [hglobals]
  intro hask
  have hpending : uiNumber ((stateFrame g paired).take σ.stateBytes) "AUTH_PENDING"
      σ.ui.copy.g.gAuthorityPending (· ≠ 0) = true := hask
  rw [uiNumber_take_pending, if_neg (not_lt.mpr hreach)] at hpending
  have hshows : g.gAuthorityPending = true := by
    split_ifs at hpending
    exact hpending
  show uiNumber ((stateFrame g paired).take σ.stateBytes) "STATE" σ.ui.copy.g.gTrustState Int32.ofInt = 3
  rw [uiNumber_take_before (i := 0) (by norm_num) rfl hreach, uiNumber_state]
  exact hlog _ hmem hshows

/-- A touch changes what the copies say of no request and of no host. -/
theorem asked_touch (t : Touch) (e : TouchEnv) {v : Ui} (hui : Asked v.copy.g) :
    Asked (touchAct t e v).ui.copy.g := by
  unfold touchAct
  split_ifs
  · unfold developerTouch
    split
    · exact hui
    · split_ifs <;> exact hui
  · unfold productTouch
    split
    · exact hui
    · split_ifs <;> exact hui

theorem asked_uiStep {σ : System} (hlog : ∀ ev ∈ σ.worker.s.log, AskEvent ev) {a : UiLabel}
    (hok : ReachesPending σ (.ui a)) (hui : Asked σ.ui.copy.g) : Asked (σ.uiStep a).copy.g := by
  cases a with
  | sync => exact asked_sync hlog hok hui
  | refresh =>
    have hsync := asked_sync hlog hok hui
    unfold System.uiStep Ui.refresh
    dsimp only
    split_ifs
    · exact hsync
    · exact hsync
  | draw =>
    unfold System.uiStep Ui.draw
    split_ifs <;> exact hui
  | touch t e => exact asked_touch t e hui
  | transportIntent => exact hui
  | fill k => exact hui
  | restart => exact fun hask => absurd hask Bool.false_ne_true

theorem asked_of_run {p₀ : Prefs} {σ : System} (h : Run (sysNext c) ReachesPending (System.init p₀) σ) :
    Asked σ.ui.copy.g := by
  refine h.invariant_of_reach (I := fun σ => Asked σ.ui.copy.g) (fun hask => absurd hask Bool.false_ne_true) fun τ l υ hreach hi hok hnext => ?_
  cases l with
  | service l =>
    obtain ⟨-, w, hw, rfl⟩ := sysNext_service.mp hnext
    exact hi
  | look =>
    obtain ⟨-, rfl⟩ := sysNext_look.mp hnext
    exact hi
  | fill k =>
    cases hnext
    exact hi
  | ui a =>
    cases hnext
    exact asked_uiStep (askInv_of_reach (reach_worker hreach)).shown hok hi

/-- **A request is asked by an established session.**  In every run of the two processes, a request is
pending only while the worker waits for its decision in a session in state 3, and every state frame that shows
one shows that state; so do the Activity's copies when every look at the state file reaches AUTH_PENDING. -/
theorem pending_established (c : Crypto) (p₀ : Prefs) (σ : System) (h : Reach (sysNext c) (System.init p₀) σ) :
    (σ.worker.s.g.gAuthorityPending = true → σ.worker.s.g.gTrustState = 3 ∧
      ∃ r left, σ.worker.pc = .waiting r left ∧ r.explicitMode = true) ∧
    (∀ g paired, .published g paired ∈ σ.worker.s.log → Asked g) ∧
    (Run (sysNext c) ReachesPending (System.init p₀) σ → Asked σ.ui.copy.g) := by
  have hask := askInv_of_reach (reach_worker h)
  refine ⟨fun hpending => ?_, fun g paired hmem => hask.shown _ hmem, asked_of_run⟩
  obtain ⟨r, left, hpc⟩ := hask.waits hpending
  have htrust := (trustInv_of_reach (reach_worker h)).pc
  rw [hpc] at htrust
  exact ⟨htrust, r, left, hpc, hask.explicit r left hpc⟩

/-- The service starts, and the Activity looks at what it published. -/
def starting : List SysLabel := [.service (.lifecycle true), .fill 8000, .ui .sync]

theorem pending_established_started : ∃ σ : System,
    Run (sysNext sampleCrypto) ReachesPending (System.init {}) σ ∧ σ.worker.s.log ≠ [] ∧
      (∀ g paired, .published g paired ∈ σ.worker.s.log → Asked g) ∧ Asked σ.ui.copy.g := by
  have hrun : (execOk (sysNext sampleCrypto) ReachesPending starting (System.init {})).map
      (·.worker.s.log.isEmpty) = some false := by
    decide +kernel
  obtain ⟨σ, hσ, hlog⟩ := Option.map_eq_some_iff.mp hrun
  have hok := Run.of_execOk hσ
  obtain ⟨-, hshown, hcopies⟩ := pending_established sampleCrypto {} σ hok.reach
  exact ⟨σ, hok, List.isEmpty_eq_false_iff.mp hlog, hshown, hcopies hok⟩

/-- A look that ends in the number STATE: the Activity holds a request beside state 0. -/
theorem exists_not_asked : ∃ σ : System, Reach (sysNext sampleCrypto) (System.init storedHost) σ ∧
    ¬ Asked σ.ui.copy.g := by
  have hrun : (exec (sysNext sampleCrypto)
      (establishing ++ [requestLabel "i" "6f776e65722e61" "EXPLICIT" false] ++ refreshing ++
        [.service .giveUp, .fill 17, .ui .sync]) (System.init storedHost)).map
      (fun σ => decide (Asked σ.ui.copy.g)) = some false := by
    decide +kernel
  obtain ⟨σ, hσ, hno⟩ := Option.map_eq_some_iff.mp hrun
  exact ⟨σ, Run.of_exec hσ, of_decide_eq_false hno⟩

end ZorinTrust
