import ZorinTrust.Revocation

/-!
# The preference calls of a run

A step of the worker makes some of the preference calls to come and leaves the others as they were, so
a run in which every call is to succeed stays one (`succeeds_of_next`).
-/

namespace ZorinTrust

open CText

/-! ### The steps -/

theorem drained_trustCheck (portable : Bool) (hostpub pin : Bytes) (p : Prefs) :
    Drained p (trustCheck portable hostpub pin p).2 := by
  unfold trustCheck
  split_ifs
  · exact .refl _
  · exact drained_trustHostIsTrusted _ _

theorem drained_consume (file : Option Bytes) (s : Service) :
    Drained s.prefs (trustUiConsumeCommand file s).prefs :=
  .of_eq (trustUiConsumeCommand_spec file s).2.1

theorem drained_forgetStep (s : Service) : Drained s.prefs (forgetStep s).prefs := by
  have hhost : Drained s.prefs (forgetHost s).prefs := by
    unfold forgetHost
    split_ifs
    · exact .refl _
    · exact drained_trustHostRemove _ _
    · exact .refl _
  unfold forgetStep
  split_ifs
  · exact hhost.trans (drained_drop _)
  · exact .refl _

theorem drained_approveStep (s : Service) : Drained s.prefs (approveStep s).prefs := by
  have hhost : Drained s.prefs (approveHost s).prefs := by
    unfold approveHost
    split_ifs
    · exact .refl _
    · exact drained_trustHostAdd _ _
  unfold approveStep
  split_ifs
  · exact hhost.trans (drained_drop _)
  · exact .refl _

theorem drained_helloStep (c : Crypto) (e : HelloEnv) (s : Service) :
    Drained s.prefs (helloStep c e s).s.prefs := by
  have hlink : Drained s.prefs (openLink e s).2.prefs := .of_eq (openLink_stores e s).1
  unfold helloStep sessionOpen
  generalize openLink e s = q at hlink ⊢
  obtain ⟨link, s₁⟩ := q
  cases link with
  | none => exact hlink
  | some link =>
    dsimp only
    cases (trustRecvFrame 4096 e.chunks).bind (parseHello c e.digestOk) with
    | none => exact hlink
    | some h => exact hlink

theorem drained_checkStep (link : Link) (h : Hello) (s : Service) :
    Drained s.prefs (checkStep link h s).s.prefs := by
  have hcheck := drained_trustCheck s.g.gTrustHostIsPortable h.hostpub.val
    s.g.gTrustPortableHostPub.val s.prefs
  unfold checkStep sessionCheck
  generalize trustCheck _ _ _ _ = q at hcheck ⊢
  obtain ⟨same, prefs⟩ := q
  cases same with
  | true => exact hcheck.trans (drained_drop _)
  | false => exact hcheck.trans (drained_drop _)

theorem drained_judgeAnswer (c : Crypto) (h : Hello) (phonepub phnonce frame : Bytes) (s : Service) :
    Drained s.prefs (judgeAnswer c h phonepub phnonce frame s).2.prefs := by
  unfold judgeAnswer
  dsimp only
  split_ifs
  · exact drained_drop _
  · exact drained_drop _
  · split
    · exact .refl _
    · split_ifs
      · exact .refl _
      · exact drained_drop _
      · exact drained_drop _

/-- A session makes calls only to publish. -/
theorem drainedSession : SessionRule fun s t => Drained s.prefs t.prefs where
  refl _ := .refl _
  trans := .trans
  publish _ := drained_drop _
  pend _ _ := drained_drop _
  clear _ := drained_drop _
  refuse _ _ := .refl _
  signed _ _ := .refl _
  answered _ _ _ := .refl _
  counted _ _ _ := .refl _
  consume := drained_consume
  poll _ _ := .refl _

theorem drained_answerStep (c : Crypto) (link : Link) (h : Hello) (e : AnswerEnv) (s : Service) :
    Drained s.prefs (answerStep c link h e s).s.prefs := by
  rw [answerStep_service]
  refine drainedSession.answer c link h e ?_ (drained_judgeAnswer c h)
  refine drainedSession.phoneProof c link h e s ?_ ?_ ?_ ?_
  · exact fun _ _ => drained_drop _
  · exact fun _ => .refl _
  · exact fun _ _ => .refl _
  · exact fun _ _ _ _ _ _ _ => .refl _

theorem drained_sessionEnd (s : Service) : Drained s.prefs (sessionEnd s).prefs := by
  unfold sessionEnd
  dsimp only
  split_ifs
  · exact drained_drop _
  · exact .refl _

/-! ### Runs -/

/-- One step uses up the calls it makes, and no others. -/
theorem drained_of_next {c : Crypto} {l : Label} {w w' : Worker} (h : next c l w = some w') :
    Drained w.s.prefs w'.s.prefs := by
  cases step_of_next h with
  | lifecycle alive pc s => exact drained_drop _
  | start e s => exact drained_drop _
  | stop s => exact .refl _
  | consume file s => exact drained_consume file s
  | forget s => exact drained_forgetStep s
  | approve s => exact drained_approveStep s
  | hello e s => exact drained_helloStep c e s
  | check link hello s => exact drained_checkStep link hello s
  | answer e link hello s => exact drained_answerStep c link hello e s
  | round e s _ _ => exact drainedSession.round drained_sessionEnd e s
  | turn p e r left s => exact drainedSession.turn r left p e s
  | giveUp r left s => exact drainedSession.giveUp s
  | pong chunks s => exact drainedSession.pong drained_sessionEnd chunks s
  | leave s => exact drained_sessionEnd s
  | idle file left s => exact drainedSession.idle left file s
  | idleEnd left s => exact .refl _

/-- **A run whose preference calls are all to succeed stays one.** -/
theorem succeeds_of_next {c : Crypto} {l : Label} {w w' : Worker} (h : next c l w = some w')
    (hp : w.s.prefs.Succeeds) : w'.s.prefs.Succeeds :=
  (drained_of_next h).succeeds hp

end ZorinTrust
