import ReductStore.Lifecycle.Window

set_option autoImplicit false

namespace ReductStore

open Lifecycle Traced

structure LifecycleRunResult where
  affectedRecords : Nat
  caughtUp : Bool

inductive WorkerStage where
  -- before the check of the stop flag and the mode
  | loopHead
  -- in the sleep of the disabled mode
  | pausing
  -- in the sleep before a run
  | waiting
  | acting
  -- in the sleep before the next turn of the inner loop
  | catchingUp
  | stopped
  deriving DecidableEq

structure Worker where
  settings : LifecycleSettings
  stage : WorkerStage

structure StartedRun where
  mode : LifecycleMode
  settings : LifecycleSettings

structure LifecycleTask where
  settings : LifecycleSettings
  mode : LifecycleMode
  stopFlag : Bool
  worker : Option Worker
  runs : List StartedRun

inductive TaskEvent where
  | start
  | setMode (mode : LifecycleMode)
  | stop
  -- the worker goes on; a run ends with the result
  | advance (result : Except ReductError LifecycleRunResult)

def intended : LifecycleType → LifecycleMode → Option Operation
  | _, .disabled => none
  | .delete, .enabled => some .queryRemoveRecords
  | .delete, .dryRun => some .queryCountRecords
  | .compress, .enabled => some .compressBlocks
  | .compress, .dryRun => some .estimateCompressibleData

structure StartedRun.Obeys (run : StartedRun) : Prop where
  active : run.mode ≠ .disabled
  operation : ∀ build events entries progress now plan,
    (buildLifecycleAction run.settings.lifecycleType build run.settings events entries progress now).outcome = .value plan →
      intended run.settings.lifecycleType run.mode = some plan.operation

def WorkerStage.Committed (stage : WorkerStage) : Prop := stage = .waiting ∨ stage = .acting ∨ stage = .catchingUp

instance (stage : WorkerStage) : Decidable stage.Committed := inferInstanceAs (Decidable (_ ∨ _ ∨ _))

namespace LifecycleTask

def new (settings : LifecycleSettings) : LifecycleTask :=
  { settings, mode := settings.mode, stopFlag := false, worker := none, runs := [] }

def isRunning (task : LifecycleTask) : Bool := task.worker.any fun worker => worker.stage ≠ .stopped

def setMode (task : LifecycleTask) (mode : LifecycleMode) : LifecycleTask :=
  { task with settings := { task.settings with mode }, mode }

def atStage (task : LifecycleTask) (worker : Worker) (stage : WorkerStage) : LifecycleTask :=
  { task with worker := some { worker with stage } }

def startRun (task : LifecycleTask) (worker : Worker) : LifecycleTask :=
  { task.atStage worker .acting with runs := task.runs ++ [{ mode := task.mode, settings := worker.settings }] }

def advance (task : LifecycleTask) (worker : Worker) (result : Except ReductError LifecycleRunResult) : LifecycleTask :=
  match worker.stage with
  | .loopHead =>
    if task.stopFlag then task.atStage worker .stopped
    else if task.mode = .disabled then task.atStage worker .pausing
    else task.atStage worker .waiting
  | .pausing => task.atStage worker .loopHead
  | .waiting => if task.stopFlag then task.atStage worker .stopped else task.startRun worker
  | .acting =>
    match result with
    | .ok result =>
      if result.caughtUp = false ∧ result.affectedRecords = 0 then task.atStage worker .catchingUp
      else task.atStage worker .loopHead
    | .error _ => task.atStage worker .loopHead
  | .catchingUp => if task.stopFlag then task.atStage worker .loopHead else task.startRun worker
  | .stopped => task

def apply (task : LifecycleTask) : TaskEvent → LifecycleTask
  | .start =>
    if task.isRunning then task
    else { task with stopFlag := false, worker := some { settings := task.settings, stage := .loopHead } }
  | .setMode mode => task.setMode mode
  | .stop => { task with stopFlag := true }
  | .advance result =>
    match task.worker with
    | none => task
    | some worker => task.advance worker result

def Reaches (task : LifecycleTask) : TaskEvent → Prop
  | .setMode mode => ∀ worker ∈ task.worker, worker.stage ≠ .stopped →
      if mode = .disabled then ¬ worker.stage.Committed else (mode = .dryRun ↔ worker.settings.mode = .dryRun)
  | _ => True

theorem plan_operation {operation : LifecycleMode → Operation} {build : Condition.Build} {settings : LifecycleSettings}
    {events : Bool} {entries : List (List Char × EntryInfo)} {progress : Option Nat} {now : Nat} {plan : Plan}
    (computed : (Lifecycle.plan operation build settings events entries progress now).outcome = .value plan) :
    plan.operation = operation settings.mode := by
  obtain ⟨olderThan, -, rest⟩ := bind_eq_value computed
  obtain ⟨window, -, rest⟩ := bind_eq_value rest
  rw [outcome_pure, Outcome.value.injEq] at rest
  rw [← rest]

theorem obeys_of_kind {run : StartedRun} (active : run.mode ≠ .disabled)
    (kind : run.mode = .dryRun ↔ run.settings.mode = .dryRun) : run.Obeys := by
  refine ⟨active, fun build events entries progress now plan computed => ?_⟩
  -- both actions choose by the mode alone
  have chosen (dry real : Operation) : (if run.settings.mode = .dryRun then dry else real) =
      if run.mode = .dryRun then dry else real := if_congr kind.symm rfl rfl
  cases action : run.settings.lifecycleType <;> rw [action] at computed <;> rw [plan_operation computed, chosen] <;>
    cases mode : run.mode <;> first | rfl | exact absurd mode active

structure Steered (task : LifecycleTask) : Prop where
  same : task.settings.mode = task.mode
  kind : ∀ worker ∈ task.worker, worker.stage ≠ .stopped → task.mode ≠ .disabled →
    (task.mode = .dryRun ↔ worker.settings.mode = .dryRun)
  active : ∀ worker ∈ task.worker, worker.stage.Committed → task.mode ≠ .disabled
  obeyed : ∀ run ∈ task.runs, run.Obeys

variable {task : LifecycleTask} {worker : Worker}

theorem Steered.atStage (steered : task.Steered) (present : worker ∈ task.worker) (going : worker.stage ≠ .stopped)
    {stage : WorkerStage} (active : stage.Committed → task.mode ≠ .disabled) : (task.atStage worker stage).Steered where
  same := steered.same
  kind := by
    rintro _ ⟨⟩ _
    exact steered.kind worker present going
  active := by
    rintro _ ⟨⟩
    exact active
  obeyed := steered.obeyed

theorem Steered.startRun (steered : task.Steered) (present : worker ∈ task.worker) (committed : worker.stage.Committed) :
    (task.startRun worker).Steered := by
  have active := steered.active worker present committed
  have going : worker.stage ≠ .stopped := by
    rintro stopped
    simp [stopped, WorkerStage.Committed] at committed
  refine { steered.atStage present going (fun _ => active) with obeyed := fun run member => ?_ }
  rcases List.mem_append.mp member with old | new
  · exact steered.obeyed run old
  · obtain rfl := List.mem_singleton.mp new
    exact obeys_of_kind active (steered.kind worker present going active)

theorem Steered.advance (steered : task.Steered) (present : worker ∈ task.worker)
    (result : Except ReductError LifecycleRunResult) : (task.advance worker result).Steered := by
  have idle {stage : WorkerStage} (free : ¬ stage.Committed) : stage.Committed → task.mode ≠ .disabled :=
    fun committed => absurd committed free
  unfold LifecycleTask.advance
  cases stage : worker.stage with
  | loopHead =>
    have going : worker.stage ≠ .stopped := by simp [stage]
    simp only
    split_ifs with flag disabled
    · exact steered.atStage present going (idle (by decide))
    · exact steered.atStage present going (idle (by decide))
    · exact steered.atStage present going fun _ => disabled
  | pausing => exact steered.atStage present (by simp [stage]) (idle (by decide))
  | waiting =>
    simp only
    split_ifs with flag
    · exact steered.atStage present (by simp [stage]) (idle (by decide))
    · exact steered.startRun present (by rw [stage]; decide)
  | acting =>
    have going : worker.stage ≠ .stopped := by simp [stage]
    have active := steered.active worker present (by rw [stage]; decide)
    cases result with
    | error failure => exact steered.atStage present going (idle (by decide))
    | ok result =>
      simp only
      split_ifs
      · exact steered.atStage present going fun _ => active
      · exact steered.atStage present going (idle (by decide))
  | catchingUp =>
    simp only
    split_ifs with flag
    · exact steered.atStage present (by simp [stage]) (idle (by decide))
    · exact steered.startRun present (by rw [stage]; decide)
  | stopped => exact steered

theorem Steered.setMode (steered : task.Steered) {mode : LifecycleMode} (reaches : task.Reaches (.setMode mode)) :
    (task.setMode mode).Steered where
  same := rfl
  kind := by
    intro worker present going active
    have := reaches worker present going
    rwa [if_neg (show mode ≠ .disabled from active)] at this
  active := by
    intro worker present committed disabled
    have going : worker.stage ≠ .stopped := by
      rintro stopped
      simp [stopped, WorkerStage.Committed] at committed
    have := reaches worker present going
    rw [if_pos (show mode = .disabled from disabled)] at this
    exact this committed
  obeyed := steered.obeyed

/-- Every run that starts does what the mode of the task is for at this time; in the disabled mode none starts. -/
theorem runs_obey (settings : LifecycleSettings) (task : LifecycleTask)
    (run : Runs apply Reaches (new settings) task) : ∀ started ∈ task.runs, started.Obeys := by
  have steered : task.Steered := by
    refine run.invariant Steered ?_ fun current event steered reaches => ?_
    · exact { same := rfl, kind := (by rintro _ ⟨⟩), active := (by rintro _ ⟨⟩), obeyed := fun _ absent => by cases absent }
    · cases event with
      | start =>
        simp only [apply]
        split_ifs
        · exact steered
        · refine { same := steered.same, kind := ?_, active := ?_, obeyed := steered.obeyed }
          · rintro _ ⟨⟩ _ _
            rw [steered.same]
          · rintro _ ⟨⟩ committed
            exact absurd committed (show ¬ WorkerStage.loopHead.Committed by decide)
      | setMode mode => exact steered.setMode reaches
      | stop => exact ⟨steered.same, steered.kind, steered.active, steered.obeyed⟩
      | advance result =>
        simp only [apply]
        cases present : current.worker with
        | none => exact steered
        | some worker => exact steered.advance (Option.mem_def.mpr present) result
  exact steered.obeyed

def hourly (mode : LifecycleMode) : LifecycleSettings :=
  { lifecycleType := .delete, entries := [], olderThan := ['1', 'd'], interval := ['1', 'h']
    processingInterval := none, mode }

def idleResult : Except ReductError LifecycleRunResult := .ok { affectedRecords := 0, caughtUp := true }

def switched (first second : LifecycleMode) : LifecycleTask :=
  ((new (hourly first)).apply .start).apply (.setMode second)

def nextRun (task : LifecycleTask) : LifecycleTask := (task.apply (.advance idleResult)).apply (.advance idleResult)

theorem runs_obey_enabled : (nextRun (switched .disabled .enabled)).runs.length = 1 ∧
    ∀ started ∈ (nextRun (switched .disabled .enabled)).runs, started.Obeys := by
  have reached : ((new (hourly .disabled)).apply .start).Reaches (.setMode .enabled) := by
    rintro _ ⟨⟩ _
    decide
  have run : Runs apply Reaches (new (hourly .disabled)) (switched .disabled .enabled) :=
    (Runs.start.step TaskEvent.start trivial).step (TaskEvent.setMode .enabled) reached
  exact ⟨by decide +kernel, runs_obey (hourly .disabled) _
    ((run.step (TaskEvent.advance idleResult) trivial).step (TaskEvent.advance idleResult) trivial)⟩

theorem runs_disobey :
    (Runs apply (fun _ _ => True) (new (hourly .enabled)) (nextRun (switched .enabled .dryRun)) ∧
      (nextRun (switched .enabled .dryRun)).runs.map StartedRun.mode = [.dryRun] ∧
      (nextRun (switched .enabled .dryRun)).runs.map (fun run =>
        ((deletePlan .release run.settings false [] none 1000000000000).outcome)) =
        [.value { window := { start := 913600000001, stop := 913600000001, lastProcessedTs := none, reachesCutoff := false }
                  operation := .queryRemoveRecords }]) ∧
    (Runs apply (fun _ _ => True) (new (hourly .enabled))
        (((((new (hourly .enabled)).apply .start).apply (.advance idleResult)).apply (.setMode .disabled)).apply
          (.advance idleResult)) ∧
      (((((new (hourly .enabled)).apply .start).apply (.advance idleResult)).apply (.setMode .disabled)).apply
          (.advance idleResult)).runs.map StartedRun.mode = [.disabled]) := by
  refine ⟨⟨?_, by decide +kernel, by decide +kernel⟩, ?_, by decide +kernel⟩
  · exact (((Runs.start.step TaskEvent.start trivial).step (TaskEvent.setMode .dryRun) trivial).step (TaskEvent.advance idleResult) trivial).step
      (TaskEvent.advance idleResult) trivial
  · exact (((Runs.start.step TaskEvent.start trivial).step (TaskEvent.advance idleResult) trivial).step (TaskEvent.setMode .disabled) trivial).step
      (TaskEvent.advance idleResult) trivial

end LifecycleTask

end ReductStore
