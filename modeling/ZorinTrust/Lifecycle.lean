import ZorinTrust.Lib.Machine

/-!
# The life of the worker thread

The service's callbacks run on the main thread and start the worker; the worker ends itself when it
finds `g_running` cleared.  The two share three flags.  A step of the machine is one access to a flag,
and a callback is complete with its last one.  `one_worker` is why the model of the worker has one
thread, and says when a callback that starts the service leaves it with a worker.
-/

namespace ZorinTrust

open Machine

/-- The callbacks that end in `trust_start_worker`. -/
inductive Starting
  | nativeOnCreate
  | nativeOnStart
  deriving DecidableEq

inductive Callback
  | starting (k : Starting)
  | nativeOnDestroy
  deriving DecidableEq

/-- Where the main thread stands. -/
inductive MainPc
  | idle
  /-- Before `g_running=1`. -/
  | setRunning (k : Starting)
  /-- Before `g_trust_service_alive=1`. -/
  | setAlive (k : Starting)
  /-- Before the `trust_ui_publish_state` of `nativeOnCreate`. -/
  | publish (k : Starting)
  /-- In `trust_start_worker`, before it tests `g_trust_thread_started`. -/
  | check (k : Starting)
  /-- Before `g_trust_thread_started=1`. -/
  | claim (k : Starting)
  /-- Before `pthread_create`. -/
  | spawn (k : Starting)
  /-- In `nativeOnDestroy`, before `g_trust_service_alive=0`. -/
  | clearAlive
  | publishDead
  /-- Before `g_running=0`. -/
  | clearRunning
  deriving DecidableEq

/-- The worker that `pthread_create` is about to make. -/
def MainPc.spawning : MainPc → ℕ
  | .spawn _ => 1
  | _ => 0

/-- The callback under way has set `g_running`. -/
def MainPc.raised : MainPc → Bool
  | .setAlive _ | .publish _ | .check _ | .claim _ | .spawn _ => true
  | _ => false

/-- Where a worker thread stands. -/
inductive WorkerPc
  /-- Created, and not yet running. -/
  | created
  /-- Before its loop. -/
  | prologue
  /-- Before the loop tests `g_running`. -/
  | head
  | body
  /-- Out of the loop, before `g_trust_thread_started=0`. -/
  | left
  | gone
  deriving DecidableEq

/-- The worker has not left its loop. -/
def WorkerPc.inLoop : WorkerPc → Bool
  | .created | .prologue | .head | .body => true
  | .left | .gone => false

structure Lifecycle where
  gRunning : Bool := true
  gTrustServiceAlive : Bool := false
  gTrustThreadStarted : Bool := false
  /-- `SERVICE_ALIVE` as it was published last. -/
  published : Option Bool := none
  main : MainPc := .idle
  workers : List WorkerPc := []
  /-- The latest callback that is complete. -/
  last : Option Callback := none

/-- What a worker does next. -/
inductive WorkerOp
  | run
  | publish
  /-- The loop tests `g_running`. -/
  | test
  /-- A loop inside the body tests `g_running`; whichever way, the body goes on. -/
  | poll
  | back
  /-- `g_trust_thread_started=0`. -/
  | clear

inductive LifeLabel
  | call (k : Callback)
  /-- The next access of the callback under way. -/
  | main
  | worker (i : ℕ) (op : WorkerOp)

namespace Lifecycle

def begin : Callback → MainPc
  | .starting k => .setRunning k
  | .nativeOnDestroy => .clearAlive

def complete (k : Callback) (σ : Lifecycle) : Lifecycle := { σ with main := .idle, last := some k }

def publish (σ : Lifecycle) : Lifecycle := { σ with published := some σ.gTrustServiceAlive }

def mainStep (σ : Lifecycle) : Option Lifecycle :=
  match σ.main with
  | .idle => none
  | .setRunning k => some { σ with gRunning := true, main := .setAlive k }
  | .setAlive k => some {
      σ with gTrustServiceAlive := true, main := if k = .nativeOnCreate then .publish k else .check k }
  | .publish k => some { σ.publish with main := .check k }
  | .check k =>
    if σ.gTrustThreadStarted then some (complete (.starting k) σ) else some { σ with main := .claim k }
  | .claim k => some { σ with gTrustThreadStarted := true, main := .spawn k }
  | .spawn k => some (complete (.starting k) { σ with workers := σ.workers ++ [.created] })
  | .clearAlive => some { σ with gTrustServiceAlive := false, main := .publishDead }
  | .publishDead => some { σ.publish with main := .clearRunning }
  | .clearRunning => some (complete .nativeOnDestroy { σ with gRunning := false })

/-- One step of a worker: where it stands then, and what becomes of the flags. -/
def workerStep (op : WorkerOp) (pc : WorkerPc) (σ : Lifecycle) : Option (WorkerPc × Lifecycle) :=
  match op, pc with
  | .run, .created => some (.prologue, σ)
  | .publish, .prologue => some (.head, σ.publish)
  | .test, .head => some (if σ.gRunning then .body else .left, σ)
  | .publish, .body => some (.body, σ.publish)
  | .poll, .body => some (.body, σ)
  | .back, .body => some (.head, σ)
  | .clear, .left => some (.gone, { σ with gTrustThreadStarted := false })
  | _, _ => none

/-- One access to a flag, by either side. -/
def next (l : LifeLabel) (σ : Lifecycle) : Option Lifecycle :=
  match l with
  | .call k => if σ.main = .idle then some { σ with main := begin k } else none
  | .main => σ.mainStep
  | .worker i op =>
    σ.workers[i]?.bind fun pc =>
      (workerStep op pc σ).map fun q => { q.2 with workers := σ.workers.set i q.1 }

/-- The workers that have not left their loop. -/
def inLoop (σ : Lifecycle) : ℕ := σ.workers.countP WorkerPc.inLoop

/-- The workers between their loop and the end of their thread. -/
def leaving (σ : Lifecycle) : ℕ := σ.workers.countP (· == .left)

/-- A service that was started has its worker. -/
def HasWorker (σ : Lifecycle) : Prop := ∀ k, σ.last = some (.starting k) → σ.inLoop = 1

/-- `trust_start_worker` does not test the flag while a worker is about to clear it. -/
def Timely (σ : Lifecycle) : LifeLabel → Prop
  | .main => ∀ k, σ.main = .check k → σ.leaving = 0
  | _ => True

/-! ### The steps -/

/-- What a step of a worker is for the others: it goes on, it leaves its loop, or it ends. -/
inductive WorkerCase (σ : Lifecycle) : Lifecycle → Prop
  | goesOn {σ' : Lifecycle} (hin : σ'.inLoop = σ.inLoop) (hleaving : σ'.leaving = σ.leaving)
      (hstarted : σ'.gTrustThreadStarted = σ.gTrustThreadStarted) : WorkerCase σ σ'
  | leaves {σ' : Lifecycle} (hrunning : σ.gRunning = false) (hin : σ'.inLoop + 1 = σ.inLoop)
      (hleaving : σ'.leaving = σ.leaving + 1)
      (hstarted : σ'.gTrustThreadStarted = σ.gTrustThreadStarted) : WorkerCase σ σ'
  | ends {σ' : Lifecycle} (hin : σ'.inLoop = σ.inLoop) (hleaving : σ'.leaving + 1 = σ.leaving)
      (hstarted : σ'.gTrustThreadStarted = false) : WorkerCase σ σ'

/-- Replacing one entry changes the count by that entry. -/
theorem countP_set_add {α : Type*} {l : List α} {i : ℕ} {x : α} (h : l[i]? = some x) (y : α)
    (p : α → Bool) : (l.set i y).countP p + (p x).toNat = l.countP p + (p y).toNat := by
  obtain ⟨hi, rfl⟩ := List.getElem?_eq_some_iff.mp h
  have hpos : p l[i] = true → 0 < l.countP p := fun hp =>
    List.countP_pos_iff.mpr ⟨l[i], List.getElem_mem hi, hp⟩
  rw [List.countP_set hi]
  cases hp : p l[i] with
  | true =>
    have := hpos hp
    cases p y <;> simp <;> omega
  | false => cases p y <;> simp

variable {σ σ' : Lifecycle}

/-- **What a step of a worker can be.** -/
theorem worker_cases {i : ℕ} {op : WorkerOp} (h : next (.worker i op) σ = some σ') :
    WorkerCase σ σ' ∧ σ'.main = σ.main ∧ σ'.last = σ.last ∧ σ'.gRunning = σ.gRunning := by
  obtain ⟨pc, hpc, h⟩ := Option.bind_eq_some_iff.mp h
  obtain ⟨⟨pc', τ⟩, hstep, rfl⟩ := Option.map_eq_some_iff.mp h
  have hin := countP_set_add hpc pc' WorkerPc.inLoop
  have hleaving := countP_set_add hpc pc' (· == .left)
  unfold workerStep at hstep
  split at hstep
  case h_3 =>
    -- the test of the loop
    cases hrunning : σ.gRunning with
    | true =>
      rw [hrunning, if_pos rfl] at hstep
      cases hstep
      exact ⟨.goesOn (Nat.add_right_cancel hin) hleaving rfl, rfl, rfl, hrunning⟩
    | false =>
      rw [hrunning, if_neg Bool.false_ne_true] at hstep
      cases hstep
      exact ⟨.leaves hrunning hin hleaving rfl, rfl, rfl, hrunning⟩
  case h_7 =>
    cases hstep
    exact ⟨.ends hin hleaving rfl, rfl, rfl, rfl⟩
  case h_8 => cases hstep
  all_goals
    cases hstep
    exact ⟨.goesOn (Nat.add_right_cancel hin) hleaving rfl, rfl, rfl, rfl⟩

/-- **What the next access of a callback can be.** -/
inductive MainCase (σ : Lifecycle) : Lifecycle → Prop
  | setRunning {k : Starting} (hmain : σ.main = .setRunning k) :
      MainCase σ { σ with gRunning := true, main := .setAlive k }
  | setAlive {k : Starting} (hmain : σ.main = .setAlive k) :
      MainCase σ {
        σ with gTrustServiceAlive := true, main := if k = .nativeOnCreate then .publish k else .check k }
  | publish {k : Starting} (hmain : σ.main = .publish k) : MainCase σ { σ.publish with main := .check k }
  | finds {k : Starting} (hmain : σ.main = .check k) (hstarted : σ.gTrustThreadStarted = true) :
      MainCase σ (complete (.starting k) σ)
  | misses {k : Starting} (hmain : σ.main = .check k) (hstarted : σ.gTrustThreadStarted = false) :
      MainCase σ { σ with main := .claim k }
  | claim {k : Starting} (hmain : σ.main = .claim k) :
      MainCase σ { σ with gTrustThreadStarted := true, main := .spawn k }
  | spawn {k : Starting} (hmain : σ.main = .spawn k) :
      MainCase σ (complete (.starting k) { σ with workers := σ.workers ++ [.created] })
  | clearAlive (hmain : σ.main = .clearAlive) :
      MainCase σ { σ with gTrustServiceAlive := false, main := .publishDead }
  | publishDead (hmain : σ.main = .publishDead) : MainCase σ { σ.publish with main := .clearRunning }
  | clearRunning (hmain : σ.main = .clearRunning) :
      MainCase σ (complete .nativeOnDestroy { σ with gRunning := false })

theorem main_cases (h : next .main σ = some σ') : MainCase σ σ' := by
  change σ.mainStep = some σ' at h
  unfold mainStep at h
  cases hmain : σ.main with
  | check k =>
    rw [hmain] at h
    dsimp only at h
    split_ifs at h with hstarted
    · cases h
      exact .finds hmain hstarted
    · cases h
      exact .misses hmain (by simpa using hstarted)
  | idle =>
    rw [hmain] at h
    cases h
  | setRunning k =>
    rw [hmain] at h
    cases h
    exact .setRunning hmain
  | setAlive k =>
    rw [hmain] at h
    cases h
    exact .setAlive hmain
  | publish k =>
    rw [hmain] at h
    cases h
    exact .publish hmain
  | claim k =>
    rw [hmain] at h
    cases h
    exact .claim hmain
  | spawn k =>
    rw [hmain] at h
    cases h
    exact .spawn hmain
  | clearAlive =>
    rw [hmain] at h
    cases h
    exact .clearAlive hmain
  | publishDead =>
    rw [hmain] at h
    cases h
    exact .publishDead hmain
  | clearRunning =>
    rw [hmain] at h
    cases h
    exact .clearRunning hmain

/-! ### The flag counts the workers -/

/-- `g_trust_thread_started` stands for the one worker there is, or is about to be. -/
structure Counted (σ : Lifecycle) : Prop where
  count : σ.inLoop + σ.leaving + σ.main.spawning = σ.gTrustThreadStarted.toNat
  claim : ∀ k, σ.main = .claim k → σ.gTrustThreadStarted = false

/-- A worker more, just created. -/
theorem spawn_count (σ : Lifecycle) (k : Callback) :
    (complete k { σ with workers := σ.workers ++ [.created] }).inLoop = σ.inLoop + 1 ∧
      (complete k { σ with workers := σ.workers ++ [.created] }).leaving = σ.leaving := by
  simp [complete, inLoop, leaving, WorkerPc.inLoop]

/-- An access that is about neither the workers nor their flag. -/
theorem Counted.keeps (h : Counted σ) (hworkers : σ'.workers = σ.workers)
    (hstarted : σ'.gTrustThreadStarted = σ.gTrustThreadStarted)
    (hspawning : σ'.main.spawning = σ.main.spawning)
    (hclaim : ∀ k, σ'.main = .claim k → σ.gTrustThreadStarted = false) : Counted σ' := by
  refine ⟨?_, fun k hk => hstarted.trans (hclaim k hk)⟩
  rw [inLoop, leaving, hworkers, hstarted, hspawning]
  exact h.count

theorem Counted.worker_step (h : Counted σ) {i : ℕ} {op : WorkerOp} (hnext : next (.worker i op) σ = some σ') :
    Counted σ' := by
  obtain ⟨hcount, hclaim⟩ := h
  obtain ⟨hcase, hmain, -, -⟩ := worker_cases hnext
  rw [← hmain] at hcount hclaim
  cases hcase with
  | goesOn hin hleaving hstarted =>
    rw [← hin, ← hleaving, ← hstarted] at hcount
    rw [← hstarted] at hclaim
    exact ⟨hcount, hclaim⟩
  | leaves _ hin hleaving hstarted =>
    rw [← hstarted] at hclaim hcount
    exact ⟨by omega, hclaim⟩
  | ends hin hleaving hstarted =>
    have hle := Bool.toNat_le σ.gTrustThreadStarted
    refine ⟨?_, fun _ _ => hstarted⟩
    rw [hstarted, Bool.toNat_false]
    omega

theorem Counted.main_step (h : Counted σ) (hnext : next .main σ = some σ') : Counted σ' := by
  cases main_cases hnext with
  | setRunning hmain => exact h.keeps rfl rfl (by rw [hmain]; rfl) (by simp)
  | setAlive hmain =>
    refine h.keeps rfl rfl ?_ fun k' hk' => ?_
    · rw [hmain]
      dsimp only
      split_ifs <;> rfl
    · dsimp only at hk'
      split_ifs at hk'
  | publish hmain => exact h.keeps rfl rfl (by rw [hmain]; rfl) (by simp)
  | finds hmain _ => exact h.keeps rfl rfl (by rw [hmain]; rfl) (by simp [complete])
  | misses hmain hstarted => exact h.keeps rfl rfl (by rw [hmain]; rfl) fun _ _ => hstarted
  | claim hmain =>
    have hcount := h.count
    rw [hmain, h.claim _ hmain] at hcount
    refine ⟨?_, by simp⟩
    show σ.inLoop + σ.leaving + 1 = 1
    exact congrArg (· + 1) hcount
  | @spawn k hmain =>
    have hcount := h.count
    rw [hmain] at hcount
    obtain ⟨hin, hleaving⟩ := spawn_count σ (.starting k)
    refine ⟨?_, by simp [complete]⟩
    rw [hin, hleaving]
    show σ.inLoop + 1 + σ.leaving + 0 = σ.gTrustThreadStarted.toNat
    rw [← hcount]
    show _ = σ.inLoop + σ.leaving + 1
    omega
  | clearAlive hmain => exact h.keeps rfl rfl (by rw [hmain]; rfl) (by simp)
  | publishDead hmain => exact h.keeps rfl rfl (by rw [hmain]; rfl) (by simp)
  | clearRunning hmain => exact h.keeps rfl rfl (by rw [hmain]; rfl) (by simp [complete])

theorem Counted.step {l : LifeLabel} (h : Counted σ) (hnext : next l σ = some σ') : Counted σ' := by
  cases l with
  | call k =>
    unfold next at hnext
    split_ifs at hnext with hidle
    cases hnext
    refine h.keeps rfl rfl ?_ fun k' hk' => ?_
    · rw [hidle]
      cases k <;> rfl
    · cases k <;> cases hk'
  | worker i op => exact h.worker_step hnext
  | main => exact h.main_step hnext

theorem counted_of_reach (h : Reach next {} σ) : Counted σ :=
  h.invariant (I := Counted) ⟨rfl, by simp⟩ fun _ _ _ hi _ hnext => hi.step hnext

/-! ### A started service keeps its worker -/

/-- While `g_running` is set no worker leaves its loop; it is set from the start of a callback that
starts the service to the end of the one that ends it. -/
structure Served (σ : Lifecycle) : Prop where
  worker : σ.HasWorker
  started : ∀ k, σ.last = some (.starting k) → σ.gRunning = true
  raised : σ.main.raised = true → σ.gRunning = true

/-- At the test of `trust_start_worker` the flag is right about the workers in their loop, unless one
is about to clear it. -/
theorem Counted.check (h : Counted σ) {k : Starting} (hmain : σ.main = .check k) :
    σ.inLoop + σ.leaving = σ.gTrustThreadStarted.toNat := by
  have hcount := h.count
  rw [hmain] at hcount
  exact hcount

theorem Served.worker_step (h : Served σ) {i : ℕ} {op : WorkerOp}
    (hnext : next (.worker i op) σ = some σ') : Served σ' := by
  obtain ⟨hcase, hmain, hlast, hrunning⟩ := worker_cases hnext
  refine ⟨fun k hk => ?_, ?_, ?_⟩
  · rw [hlast] at hk
    have hin := h.worker k hk
    cases hcase with
    | goesOn hin' _ _ => omega
    | leaves hdown _ _ _ =>
      rw [h.started k hk] at hdown
      cases hdown
    | ends hin' _ _ => omega
  · rw [hlast, hrunning]
    exact h.started
  · rw [hmain, hrunning]
    exact h.raised

theorem Served.main_step (hc : Counted σ) (h : Served σ) (hok : Timely σ .main)
    (hnext : next .main σ = some σ') : Served σ' := by
  obtain ⟨hworker, hstarted, hraised⟩ := h
  -- from the first access of the callback on
  have hup {pc : MainPc} (hmain : σ.main = pc) (h : pc.raised = true) : σ.gRunning = true :=
    hraised (by rw [hmain, h])
  cases main_cases hnext with
  | setRunning _ => exact ⟨hworker, fun _ _ => rfl, fun _ => rfl⟩
  | setAlive hmain => exact ⟨hworker, hstarted, fun _ => hup hmain rfl⟩
  | publish hmain => exact ⟨hworker, hstarted, fun _ => hup hmain rfl⟩
  | @finds k hmain hflag =>
    -- the flag is up, and nobody is about to clear it
    have hcount := hc.check hmain
    rw [hok k hmain, hflag] at hcount
    have hup := hup hmain rfl
    exact ⟨fun _ _ => hcount, fun _ _ => hup, fun _ => hup⟩
  | misses hmain _ => exact ⟨hworker, hstarted, fun _ => hup hmain rfl⟩
  | claim hmain => exact ⟨hworker, hstarted, fun _ => hup hmain rfl⟩
  | @spawn k hmain =>
    have hup := hup hmain rfl
    have hcount := hc.count
    rw [hmain] at hcount
    have hle := Bool.toNat_le σ.gTrustThreadStarted
    have hnone : σ.inLoop = 0 := by
      change σ.inLoop + σ.leaving + 1 = _ at hcount
      omega
    refine ⟨fun _ _ => ?_, fun _ _ => hup, fun _ => hup⟩
    rw [(spawn_count σ _).1, hnone]
  | clearAlive _ => exact ⟨hworker, hstarted, by simp [MainPc.raised]⟩
  | publishDead _ => exact ⟨hworker, hstarted, by simp [MainPc.raised]⟩
  | clearRunning _ =>
    exact ⟨by simp [HasWorker, complete], by simp [complete], by simp [complete, MainPc.raised]⟩

/-- A timely step keeps the worker of a started service. -/
theorem Served.step {l : LifeLabel} (hc : Counted σ) (h : Served σ) (hok : Timely σ l)
    (hnext : next l σ = some σ') : Served σ' := by
  cases l with
  | call k =>
    unfold next at hnext
    split_ifs at hnext with hidle
    cases hnext
    refine ⟨h.worker, h.started, fun hup => ?_⟩
    cases k <;> cases hup
  | worker i op => exact h.worker_step hnext
  | main => exact h.main_step hc hok hnext

theorem served_of_run (h : Run next Timely {} σ) : Served σ :=
  h.invariant_of_reach (I := Served) ⟨by simp [HasWorker], by simp, by simp [MainPc.raised]⟩
    fun _ _ _ hreach hi hok hnext => hi.step (counted_of_reach hreach) hok hnext

/-- A callback that finds the flag up while the worker is about to clear it leaves the service without
a worker: the condition on the steps is exact. -/
theorem hasWorker_check_iff (h : Run next Timely {} σ) {k : Starting} (hmain : σ.main = .check k)
    (hnext : next .main σ = some σ') : σ'.HasWorker ↔ Timely σ .main := by
  have hc := counted_of_reach h.reach
  constructor
  · intro hworker k' hk'
    have hcount := hc.check hk'
    have hflag := Bool.toNat_le σ.gTrustThreadStarted
    change σ.mainStep = some σ' at hnext
    unfold mainStep at hnext
    rw [hmain] at hnext
    dsimp only at hnext
    split_ifs at hnext with hup
    · cases hnext
      have hone : σ.inLoop = 1 := hworker k rfl
      omega
    · rw [Bool.not_eq_true] at hup
      rw [hup, Bool.toNat_false] at hcount
      omega
  · exact fun hok => ((served_of_run h).step hc hok hnext).worker

/-- **One worker**: in every interleaving at most one is in its loop; and when no callback tests the
flag while a worker is about to clear it, a started service has one. -/
theorem one_worker (σ : Lifecycle) :
    (Reach next {} σ → σ.inLoop ≤ 1) ∧ (Run next Timely {} σ → σ.HasWorker) := by
  refine ⟨fun h => ?_, fun h => (served_of_run h).worker⟩
  have hcount := (counted_of_reach h).count
  have hle := Bool.toNat_le σ.gTrustThreadStarted
  omega

/-! ### Samples -/

instance (σ : Lifecycle) : ∀ l, Decidable (Timely σ l)
  | .main =>
    match hmain : σ.main with
    | .check k => decidable_of_iff (σ.leaving = 0) (by simp [Timely, hmain])
    | .idle | .setRunning _ | .setAlive _ | .publish _ | .claim _ | .spawn _ | .clearAlive | .publishDead
    | .clearRunning => isTrue (by simp [Timely, hmain])
  | .call _ => isTrue trivial
  | .worker _ _ => isTrue trivial

/-- A callback, access by access, with this many of them. -/
def callback (k : Callback) (accesses : ℕ) : List LifeLabel :=
  .call k :: List.replicate accesses .main

/-- The service is created, its worker reaches its loop, and the service is destroyed. -/
def createDestroy : List LifeLabel :=
  callback (.starting .nativeOnCreate) 6 ++ [.worker 0 .run, .worker 0 .publish] ++
    callback .nativeOnDestroy 3 ++ [.worker 0 .test]

/-- A service that is created again once its worker is gone has a new one. -/
theorem one_worker_recreated : ∃ σ : Lifecycle, Run next Timely {} σ ∧
    σ.workers = [.gone, .created] ∧ σ.inLoop ≤ 1 ∧ σ.HasWorker := by
  have hrun : (execOk next Timely
      (createDestroy ++ .worker 0 .clear :: callback (.starting .nativeOnCreate) 6) {}).map
      (·.workers) = some [.gone, .created] := by
    decide +kernel
  obtain ⟨σ, hσ, hworkers⟩ := Option.map_eq_some_iff.mp hrun
  have h := Run.of_execOk hσ
  exact ⟨σ, h, hworkers, (one_worker σ).1 h.reach, (one_worker σ).2 h⟩

/-- Created again while its worker is about to end, the service stays without one. -/
theorem one_worker_lost : ¬ ∀ σ : Lifecycle, Reach next {} σ → σ.inLoop ≤ 1 ∧ σ.HasWorker := by
  intro hall
  have hrun : (exec next
      (createDestroy ++ callback (.starting .nativeOnCreate) 4 ++ [.worker 0 .clear]) {}).map
      (fun σ => (σ.last, σ.inLoop)) = some (some (.starting .nativeOnCreate), 0) := by
    decide +kernel
  obtain ⟨σ, hσ, hproj⟩ := Option.map_eq_some_iff.mp hrun
  rw [Prod.mk.injEq] at hproj
  have hone := (hall σ (Run.of_exec hσ)).2 .nativeOnCreate hproj.1
  omega

end Lifecycle

end ZorinTrust
