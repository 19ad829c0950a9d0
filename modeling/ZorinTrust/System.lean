import ZorinTrust.Worker
import ZorinTrust.Activity

/-!
# The two processes

The service and the Activity share no memory.  The service publishes its state in one file; the Activity
leaves commands in another, which the service reads and unlinks.  A write truncates the file and then fills
it, so a read may find any beginning of the text; and between a read of the command file and its unlink the
Activity may write again.  Steps of the two processes interleave freely; `handle_touch` and a turn of the
refresh thread are sequences of such steps.  The worker and the service's main thread publish one after the
other.
-/

namespace ZorinTrust

open CText Numeral Machine

structure System where
  worker : Worker := {}
  /-- How many bytes of the state published last are in `trust-ui-state`. -/
  stateBytes : ℕ := 0
  /-- The command written last, up to its unlink. -/
  command : Option Bytes := none
  /-- How many bytes of it are in `trust-ui-command`. -/
  commandBytes : ℕ := 0
  /-- What `trust_ui_consume_command` has read and not yet unlinked. -/
  held : Option (Option Bytes) := none
  ui : Ui := {}

/-- The state published last, as a text. -/
def stateFile : List Event → Bytes
  | [] => []
  | .published g paired :: _ => stateFrame g paired
  | _ :: log => stateFile log

/-- What the Activity reads. -/
def System.stateRead (σ : System) : Bytes := (stateFile σ.worker.s.log).take σ.stateBytes

/-- What the service reads. -/
def System.commandFile (σ : System) : Option Bytes := σ.command.map (·.take σ.commandBytes)

/-- A state frame was published. -/
def Event.isPublished : Event → Bool
  | .published _ _ => true
  | _ => false

/-- The step publishes, so it truncates the state file. -/
def publishes (s s' : Service) : Bool := (since s s').any Event.isPublished

/-- The steps of the Activity. -/
inductive UiLabel
  | sync
  /-- The refresh thread looks at the state file. -/
  | refresh
  | draw
  | touch (t : Touch) (e : TouchEnv)
  /-- `trust_apply_transport_intent` took an endpoint. -/
  | transportIntent
  /-- More bytes of the command go into its file. -/
  | fill (k : ℕ)
  /-- The process was started afresh. -/
  | restart

inductive SysLabel
  | service (l : Label)
  /-- More bytes of the state go into its file. -/
  | fill (k : ℕ)
  /-- The service reads the command file. -/
  | look
  | ui (a : UiLabel)

/-- The command a step of the Activity begins to write. -/
def UiLabel.written (u : Ui) : UiLabel → Option Bytes
  | .touch t e => (touchAct t e u).written e
  | .transportIntent => some (commandFrame "RECONNECT" [])
  | _ => none

def UiLabel.filled : UiLabel → ℕ
  | .fill k => k
  | _ => 0

def System.uiStep (σ : System) : UiLabel → Ui
  | .sync => σ.ui.sync σ.stateRead
  | .refresh => σ.ui.refresh σ.stateRead
  | .draw => σ.ui.draw
  | .touch t e => (touchAct t e σ.ui).ui
  | .transportIntent | .fill _ => σ.ui
  | .restart => {}

/-- A step of the Activity; a new command truncates the file. -/
def System.uiNext (σ : System) (a : UiLabel) : System :=
  { σ with
    ui := σ.uiStep a
    command := (a.written σ.ui).or σ.command
    commandBytes := if (a.written σ.ui).isSome then 0 else σ.commandBytes + a.filled }

/-- The next thing the worker does is to read the command file. -/
def Pc.looks : Pc → Bool
  | .top | .idle (_ + 1) | .waiting _ (_ + 1) => true
  | _ => false

/-- The step goes on from what was read; the main thread's step reads nothing. -/
def Label.goesOn (held : Option (Option Bytes)) : Label → Prop
  | .lifecycle _ => True
  | .consume file | .idle file => held = some file
  | .turn p _ => held = some p.command
  | _ => held = none

instance (held : Option (Option Bytes)) (l : Label) : Decidable (l.goesOn held) := by
  cases l <;> unfold Label.goesOn <;> infer_instance

def Label.holds (held : Option (Option Bytes)) : Label → Option (Option Bytes)
  | .lifecycle _ => held
  | _ => none

/-- One step of either process. -/
def sysNext (c : Crypto) : SysLabel → System → Option System
  | .service l, σ =>
    if l.goesOn σ.held then
      (next c l σ.worker).map fun w =>
        { σ with
          worker := w
          stateBytes := if publishes σ.worker.s w.s then 0 else σ.stateBytes
          held := l.holds σ.held
          command := if commandRead l.file = none then σ.command else none }
    else none
  | .fill k, σ => some { σ with stateBytes := σ.stateBytes + k }
  | .look, σ =>
    if σ.worker.pc.looks = true ∧ σ.held = none then some { σ with held := some σ.commandFile } else none
  | .ui a, σ => some (σ.uiNext a)

/-- Two fresh processes. -/
def System.init (p : Prefs) : System := { worker := Worker.init p }

theorem sysNext_service {c : Crypto} {l : Label} {σ σ' : System} :
    sysNext c (.service l) σ = some σ' ↔ l.goesOn σ.held ∧
      ∃ w, next c l σ.worker = some w ∧
        σ' = { σ with
          worker := w
          stateBytes := if publishes σ.worker.s w.s then 0 else σ.stateBytes
          held := l.holds σ.held
          command := if commandRead l.file = none then σ.command else none } := by
  rw [sysNext]
  by_cases hheld : l.goesOn σ.held
  · rw [if_pos hheld, Option.map_eq_some_iff, and_iff_right hheld]
    exact exists_congr fun w => and_congr_right fun _ => eq_comm
  · simp [hheld]

theorem sysNext_look {c : Crypto} {σ σ' : System} :
    sysNext c .look σ = some σ' ↔
      (σ.worker.pc.looks = true ∧ σ.held = none) ∧ σ' = { σ with held := some σ.commandFile } := by
  rw [sysNext]
  split_ifs with h
  · rw [Option.some_inj, and_iff_right h, eq_comm]
  · simp [h]

/-! ### What the steps add up to -/

variable {c : Crypto}

/-- **The service in the system is the worker**: its part of a run is a run of the worker. -/
theorem reach_worker {σ σ' : System} (h : Reach (sysNext c) σ σ') :
    Reach (next c) σ.worker σ'.worker := by
  induction h with
  | refl => exact .refl
  | @step τ υ l _ _ hnext ih =>
    cases l with
    | service l =>
      obtain ⟨-, w, hw, rfl⟩ := sysNext_service.mp hnext
      exact ih.step trivial hw
    | look =>
      obtain ⟨-, rfl⟩ := sysNext_look.mp hnext
      exact ih
    | fill k | ui a =>
      cases hnext
      exact ih

theorem reach_ui (a : UiLabel) (σ : System) : Reach (sysNext c) σ (σ.uiNext a) :=
  Run.step .refl trivial (l := .ui a) rfl

theorem reach_sync (σ : System) : Reach (sysNext c) σ { σ with ui := σ.ui.sync σ.stateRead } :=
  reach_ui .sync σ

/-- `render` is a look at the state file and a draw. -/
theorem reach_render (σ : System) :
    Reach (sysNext c) σ { σ with ui := σ.ui.render σ.stateRead } := by
  unfold Ui.render
  split_ifs
  · exact (reach_sync σ).trans (reach_ui .draw _)
  · exact .refl

/-- **`handle_touch` in steps**: look, act, write the whole command, and draw what the touch changed. -/
theorem reach_handleTouch (t : Touch) (e : TouchEnv) (σ : System) :
    Reach (sysNext c) σ
      { σ with
        ui := (handleTouch t e σ.stateRead σ.stateRead σ.ui).ui
        command := ((handleTouch t e σ.stateRead σ.stateRead σ.ui).written e).or σ.command
        commandBytes :=
          (((handleTouch t e σ.stateRead σ.stateRead σ.ui).written e).map List.length).getD
            σ.commandBytes } := by
  have hact := (reach_sync (c := c) σ).trans (reach_ui (.touch t e) _)
  unfold handleTouch
  dsimp only
  set r := touchAct t e (σ.ui.sync σ.stateRead) with hr
  have hwritten : Reach (sysNext c) σ
      { σ with
        ui := r.ui
        command := (r.written e).or σ.command
        commandBytes := ((r.written e).map List.length).getD σ.commandBytes } := by
    have hnext : System.uiNext { σ with ui := σ.ui.sync σ.stateRead } (.touch t e) =
        { σ with
          ui := r.ui
          command := (r.written e).or σ.command
          commandBytes := if (r.written e).isSome then 0 else σ.commandBytes } := rfl
    rw [hnext] at hact
    cases hw : r.written e with
    | none =>
      rw [hw] at hact
      exact hact
    | some file =>
      rw [hw] at hact
      have hfill := hact.trans (reach_ui (.fill file.length) _)
      simp only [System.uiNext, System.uiStep, UiLabel.filled, UiLabel.written, Option.isSome_some,
        Option.isSome_none, Bool.false_eq_true, if_true, if_false, Nat.zero_add, Option.some_or,
        Option.none_or] at hfill
      exact hfill
  split_ifs
  · exact hwritten.trans (reach_render _)
  · exact hwritten

/-- **A turn of the refresh thread in steps.** -/
theorem reach_trustUiRefreshTurn (window : Bool) (σ : System) :
    Reach (sysNext c) σ
      { σ with ui := trustUiRefreshTurn σ.stateRead σ.stateRead window σ.ui } := by
  have hlook := reach_ui (c := c) .refresh σ
  unfold trustUiRefreshTurn
  dsimp only
  split_ifs
  · exact hlook.trans (reach_render _)
  · exact hlook

end ZorinTrust
