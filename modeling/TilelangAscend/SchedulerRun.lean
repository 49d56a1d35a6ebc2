import Mathlib.Data.List.MinMax
import Mathlib.Order.Nat
import TilelangAscend.ListHistory
import TilelangAscend.Scheduler

namespace TilelangAscend.Simulator

open ListHistory

/-!
# Runs of the scheduler

A run is the sequence of tasks that the scheduler places.  `PlacedStep` says once
what placing a task requires and changes, `Fires` collects the states that a sequence
of placements reaches, and every ordering fact about a schedule is derived from
these two.  The pass structure of the scheduler matters only for which sequences it
produces: a completed schedule is the last state of a firing sequence that contains
every task.
-/

/-! ## Completed sets -/

variable {taskIds : List TaskId} {completed : Completed}

theorem anyMissing_eq_false :
    anyMissing completed taskIds = false ↔
      ∀ taskId ∈ taskIds, ∃ record, completed taskId = some record := by
  simp [anyMissing, Option.ne_none_iff_exists']

theorem endCycle_le_maxEnd {taskId : TaskId} {record : ExecutionRecord}
    (member : taskId ∈ taskIds) (done : completed taskId = some record) :
    record.endCycle ≤ maxEnd completed taskIds := by
  have listed :
      record.endCycle ∈
        taskIds.filterMap fun other => (completed other).map ExecutionRecord.endCycle :=
    List.mem_filterMap.mpr ⟨taskId, member, by simp [done]⟩
  exact List.le_max_of_le' 0 listed le_rfl

theorem maxEnd_le {bound : Nat}
    (bounded :
      ∀ taskId ∈ taskIds, ∀ record, completed taskId = some record → record.endCycle ≤ bound) :
    maxEnd completed taskIds ≤ bound := by
  refine List.max_le_of_forall_le (α := Nat) _ bound ?_
  intro cycle listed
  obtain ⟨taskId, member, ends⟩ := List.mem_filterMap.mp listed
  obtain ⟨record, done, rfl⟩ := Option.map_eq_some_iff.mp ends
  exact bounded taskId member record done

theorem maxEnd_congr {first second : Completed}
    (same : ∀ taskId ∈ taskIds, first taskId = second taskId) :
    maxEnd first taskIds = maxEnd second taskIds := by
  unfold maxEnd
  rw [List.filterMap_congr fun taskId member => by rw [same taskId member]]

theorem maxEnd_append (completed : Completed) (first second : List TaskId) :
    maxEnd completed (first ++ second) =
      max (maxEnd completed first) (maxEnd completed second) := by
  apply le_antisymm
  · refine maxEnd_le ?_
    intro taskId member record done
    rcases List.mem_append.mp member with inFirst | inSecond
    · exact le_trans (endCycle_le_maxEnd inFirst done) (le_max_left _ _)
    · exact le_trans (endCycle_le_maxEnd inSecond done) (le_max_right _ _)
  · refine max_le (maxEnd_le ?_) (maxEnd_le ?_)
    · intro taskId member record done
      exact endCycle_le_maxEnd (List.mem_append_left _ member) done
    · intro taskId member record done
      exact endCycle_le_maxEnd (List.mem_append_right _ member) done

theorem maxEnd_attained (completed : Completed) (taskIds : List TaskId) :
    maxEnd completed taskIds = 0 ∨
      ∃ taskId ∈ taskIds,
        ∃ record, completed taskId = some record ∧ maxEnd completed taskIds = record.endCycle := by
  induction taskIds with
  | nil => exact Or.inl rfl
  | cons first rest ih =>
    cases done : completed first with
    | none =>
      have same : maxEnd completed (first :: rest) = maxEnd completed rest := by
        simp [maxEnd, done]
      rw [same]
      rcases ih with zero | ⟨taskId, member, record, isDone, attained⟩
      · exact Or.inl zero
      · exact Or.inr ⟨taskId, List.mem_cons_of_mem _ member, record, isDone, attained⟩
    | some record =>
      have split :
          maxEnd completed (first :: rest) = max record.endCycle (maxEnd completed rest) := by
        simp [maxEnd, done]
      rcases le_total (maxEnd completed rest) record.endCycle with restSmaller | firstSmaller
      · refine Or.inr ⟨first, List.mem_cons_self, record, done, ?_⟩
        rw [split, max_eq_left restSmaller]
      · rw [split, max_eq_right firstSmaller]
        rcases ih with zero | ⟨taskId, member, other, isDone, attained⟩
        · exact Or.inl zero
        · exact Or.inr ⟨taskId, List.mem_cons_of_mem _ member, other, isDone, attained⟩

/-! ## One placement -/

section Run

variable {σ : Type} {model : SynchronizationModel σ} {config : SimulatorConfig}
  {program : KernelProgram} {fifo : TaskId → Option TaskId}

/-- A task that is not completed while its queue predecessor is. -/
structure QueueHead
    (fifo : TaskId → Option TaskId)
    (state : RunState σ)
    (task : Task) :
    Prop where
  fresh : state.completed task.taskId = none
  queued :
    ∀ predecessor, fifo task.taskId = some predecessor →
      ∃ record, state.completed predecessor = some record

/-- What the scheduler checked before it placed a task, and what it then changed. -/
structure PlacedStep
    (model : SynchronizationModel σ)
    (fifo : TaskId → Option TaskId)
    (state : RunState σ)
    (task : Task)
    (next : RunState σ) where
  decision : SyncDecision
  synchronizationCycle : Nat
  fresh : state.completed task.taskId = none
  inputsReady :
    anyMissing state.completed (executionDependencies task ++ (fifo task.taskId).toList) = false
  evaluated : model.evaluate state.sync task state.completed = .ok decision
  released : decision.readyCycle = some synchronizationCycle
  scheduled :
    model.onScheduled state.sync task
      (operationRecord state.completed task (fifo task.taskId) decision
        (placementOf state.completed fifo task synchronizationCycle)) = .ok next.sync
  completedShape :
    next.completed =
      Function.update state.completed task.taskId
        (some (operationRecord state.completed task (fifo task.taskId) decision
          (placementOf state.completed fifo task synchronizationCycle)))
  recordsShape :
    next.records =
      state.records ++
        (waitRecords task decision
            (placementOf state.completed fifo task synchronizationCycle) ++
          [operationRecord state.completed task (fifo task.taskId) decision
            (placementOf state.completed fifo task synchronizationCycle)])

namespace PlacedStep

variable {state next : RunState σ} {task : Task}

/-- The cycles of the placed task. -/
def placement (step : PlacedStep model fifo state task next) : Placement :=
  placementOf state.completed fifo task step.synchronizationCycle

/-- The operation record of the placed task. -/
def record (step : PlacedStep model fifo state task next) : ExecutionRecord :=
  operationRecord state.completed task (fifo task.taskId) step.decision step.placement

section

variable (step : PlacedStep model fifo state task next)
include step

@[simp] theorem record_taskId : step.record.taskId = task.taskId :=
  rfl

@[simp] theorem record_startCycle : step.record.startCycle = step.placement.startCycle :=
  rfl

@[simp] theorem record_endCycle :
    step.record.endCycle = step.placement.startCycle + task.durationCycles :=
  rfl

theorem completed_self : next.completed task.taskId = some step.record := by
  rw [step.completedShape, Function.update_self]
  rfl

end

variable {other : TaskId}

section

variable (step : PlacedStep model fifo state task next)
include step

theorem completed_other (differs : other ≠ task.taskId) :
    next.completed other = state.completed other := by
  rw [step.completedShape, Function.update_of_ne differs]

theorem completed_persists {record : ExecutionRecord}
    (done : state.completed other = some record) : next.completed other = some record := by
  have differs : other ≠ task.taskId := by
    intro same
    rw [same, step.fresh] at done
    cases done
  rw [step.completed_other differs, done]

theorem synchronizationCycle_le : step.synchronizationCycle ≤ step.record.startCycle :=
  le_trans (le_max_right _ _) (le_max_left _ _)

theorem dependency_done {dependency : TaskId} (member : dependency ∈ executionDependencies task) :
    ∃ record,
      state.completed dependency = some record ∧ record.endCycle ≤ step.record.startCycle := by
  obtain ⟨record, done⟩ :=
    anyMissing_eq_false.mp step.inputsReady dependency (List.mem_append_left _ member)
  have bounded : record.endCycle ≤ step.placement.dependencyCycle := endCycle_le_maxEnd member done
  exact ⟨record, done, le_trans bounded (le_trans (le_max_left _ _) (le_max_left _ _))⟩

theorem predecessor_done {predecessor : TaskId} (queued : fifo task.taskId = some predecessor) :
    ∃ record,
      state.completed predecessor = some record ∧
        record.endCycle ≤ step.placement.resourceCycle := by
  have member : predecessor ∈ (fifo task.taskId).toList := by
    simp [queued]
  obtain ⟨record, done⟩ :=
    anyMissing_eq_false.mp step.inputsReady predecessor (List.mem_append_right _ member)
  exact ⟨record, done, endCycle_le_maxEnd member done⟩

theorem queueHead : QueueHead fifo state task := by
  refine ⟨step.fresh, ?_⟩
  intro predecessor queued
  obtain ⟨record, done, _⟩ := step.predecessor_done queued
  exact ⟨record, done⟩

end

end PlacedStep

variable {state final : RunState σ} {task : Task} {tasks log : List Task} {made : Bool}
  {fuel : Nat} {failure : SimError}

theorem attempt_placed {next : RunState σ}
    (placed : attempt model config fifo state task = .ok (some next)) :
    Nonempty (PlacedStep model fifo state task next) := by
  unfold attempt at placed
  by_cases done : (state.completed task.taskId).isSome
  · simp [done] at placed
  · simp only [done, Bool.false_eq_true, ↓reduceIte] at placed
    have fresh : state.completed task.taskId = none := by
      simpa using done
    by_cases missing :
        anyMissing state.completed (executionDependencies task ++ (fifo task.taskId).toList)
    · simp [missing] at placed
    · simp only [missing, Bool.false_eq_true, ↓reduceIte] at placed
      cases evaluated : model.evaluate state.sync task state.completed with
      | error failure => simp [evaluated] at placed
      | ok decision =>
        simp only [evaluated] at placed
        cases released : decision.readyCycle with
        | none => simp [released] at placed
        | some synchronizationCycle =>
          simp only [released] at placed
          split at placed
          · cases placed
          · split at placed
            · cases placed
            · rename_i sync scheduled
              simp only [Except.ok.injEq, Option.some.injEq] at placed
              subst placed
              exact ⟨{
                decision := decision
                synchronizationCycle := synchronizationCycle
                fresh := fresh
                inputsReady := by simpa using missing
                evaluated := evaluated
                released := released
                scheduled := scheduled
                completedShape := rfl
                recordsShape := rfl }⟩

/-- The state after a task was placed with a record. -/
def placedState
    (fifo : TaskId → Option TaskId)
    (state : RunState σ)
    (task : Task)
    (decision : SyncDecision)
    (cycle : Nat)
    (sync : σ) :
    RunState σ where
  completed :=
    Function.update state.completed task.taskId
      (some (operationRecord state.completed task (fifo task.taskId) decision
        (placementOf state.completed fifo task cycle)))
  sync := sync
  records :=
    state.records ++
      (waitRecords task decision (placementOf state.completed fifo task cycle) ++
        [operationRecord state.completed task (fifo task.taskId) decision
          (placementOf state.completed fifo task cycle)])

theorem attempt_of_released {decision : SyncDecision} {cycle : Nat}
    (fresh : state.completed task.taskId = none)
    (inputsReady :
      anyMissing state.completed (executionDependencies task ++ (fifo task.taskId).toList) = false)
    (evaluated : model.evaluate state.sync task state.completed = .ok decision)
    (released : decision.readyCycle = some cycle)
    (inTime :
      config.maxCycles.any (· <
        (operationRecord state.completed task (fifo task.taskId) decision
          (placementOf state.completed fifo task cycle)).endCycle) = false) :
    attempt model config fifo state task =
      (model.onScheduled state.sync task
        (operationRecord state.completed task (fifo task.taskId) decision
          (placementOf state.completed fifo task cycle))).map
        fun sync => some (placedState fifo state task decision cycle sync) := by
  cases scheduled :
      model.onScheduled state.sync task
        (operationRecord state.completed task (fifo task.taskId) decision
          (placementOf state.completed fifo task cycle)) with
  | error failure =>
    simp [attempt, fresh, inputsReady, evaluated, released, inTime, scheduled, Except.map]
  | ok sync =>
    simp [attempt, fresh, inputsReady, evaluated, released, inTime, scheduled, Except.map,
      placedState]

/-! ## Firing sequences -/

/-- States reached by placing the tasks of a list one after another. -/
inductive Fires
    (model : SynchronizationModel σ)
    (config : SimulatorConfig)
    (program : KernelProgram) :
    List Task → RunState σ → Prop where
  | initial
      {sync : σ} :
      model.reset program = .ok sync →
      Fires model config program [] (RunState.initial sync)
  | place
      {log : List Task}
      {state next : RunState σ}
      {task : Task} :
      Fires model config program log state →
      task ∈ program.tasks →
      attempt model config (fifoPredecessors program.tasks) state task = .ok (some next) →
      Fires model config program (log ++ [task]) next

namespace Fires

variable {log : List Task} {state : RunState σ}

theorem reset_ok (fired : Fires model config program log state) :
    ∃ sync, model.reset program = .ok sync := by
  induction fired with
  | initial accepts => exact ⟨_, accepts⟩
  | place earlier isTask placed ih => exact ih

variable {task : Task}

section

variable (fired : Fires model config program log state)
include fired

theorem log_mem (member : task ∈ log) : task ∈ program.tasks := by
  induction fired with
  | initial => simp at member
  | place earlier isTask placed ih =>
    rcases List.mem_append.mp member with inLog | isLast
    · exact ih inLog
    · rw [List.mem_singleton.mp isLast]
      exact isTask

theorem completed_iff (taskId : TaskId) :
    (∃ record, state.completed taskId = some record) ↔ ∃ task ∈ log, task.taskId = taskId := by
  induction fired with
  | initial => simp [RunState.initial]
  | @place earlierLog earlierState next task earlier isTask placed ih =>
    obtain ⟨step⟩ := attempt_placed placed
    by_cases same : taskId = task.taskId
    · subst taskId
      constructor
      · intro _
        exact ⟨task, by simp, rfl⟩
      · intro _
        exact ⟨step.record, step.completed_self⟩
    · rw [step.completed_other same, ih]
      constructor
      · rintro ⟨other, member, identifier⟩
        exact ⟨other, List.mem_append_left _ member, identifier⟩
      · rintro ⟨other, member, identifier⟩
        rcases List.mem_append.mp member with inLog | isLast
        · exact ⟨other, inLog, identifier⟩
        · rw [List.mem_singleton.mp isLast] at identifier
          exact (same identifier.symm).elim

theorem log_nodup : (log.map Task.taskId).Nodup := by
  induction fired with
  | initial => simp
  | @place earlierLog earlierState next task earlier isTask placed ih =>
    obtain ⟨step⟩ := attempt_placed placed
    have absent : task.taskId ∉ earlierLog.map Task.taskId := by
      intro member
      obtain ⟨other, inLog, identifier⟩ := List.mem_map.mp member
      obtain ⟨record, done⟩ := (earlier.completed_iff task.taskId).mpr ⟨other, inLog, identifier⟩
      rw [step.fresh] at done
      cases done
    rw [List.map_append, List.nodup_append]
    refine ⟨ih, by simp, ?_⟩
    intro identifier inLog other isLast same
    simp only [List.map_cons, List.map_nil, List.mem_singleton] at isLast
    subst isLast
    subst same
    exact absent inLog

theorem record_duration (isTask : task ∈ program.tasks) {record : ExecutionRecord}
    (done : state.completed task.taskId = some record) :
    record.endCycle = record.startCycle + task.durationCycles := by
  induction fired generalizing record with
  | initial => simp [RunState.initial] at done
  | @place earlierLog earlierState next placedTask earlier placedMember placed
      ih =>
      obtain ⟨step⟩ := attempt_placed placed
      by_cases same : task.taskId = placedTask.taskId
      · have sameTask : task = placedTask :=
          eq_of_key_eq program.taskIds_nodup isTask placedMember same
        subst sameTask
        rw [step.completed_self] at done
        cases done
        rfl
      · rw [step.completed_other same] at done
        exact ih done

theorem start_le_end {taskId : TaskId} {record : ExecutionRecord}
    (done : state.completed taskId = some record) : record.startCycle ≤ record.endCycle := by
  obtain ⟨task, member, identifier⟩ := (fired.completed_iff taskId).mp ⟨record, done⟩
  subst identifier
  have duration := fired.record_duration (fired.log_mem member) done
  omega

end

end Fires

/-! ## Ordering between tasks of a schedule -/

/-- The first task is completed and ends no later than the second one starts. -/
def EndsBefore (completed : Completed) (first second : TaskId) : Prop :=
  ∀ secondRecord, completed second = some secondRecord →
    ∃ firstRecord,
      completed first = some firstRecord ∧ firstRecord.endCycle ≤ secondRecord.startCycle

namespace Fires

variable {log : List Task} {state : RunState σ} {first : TaskId} {task : Task}

section

variable (fired : Fires model config program log state)
include fired

theorem endsBefore_trans {second third : TaskId}
    (firstSecond : EndsBefore state.completed first second)
    (secondThird : EndsBefore state.completed second third) :
    EndsBefore state.completed first third := by
  intro thirdRecord thirdDone
  obtain ⟨secondRecord, secondDone, secondEnds⟩ := secondThird thirdRecord thirdDone
  obtain ⟨firstRecord, firstDone, firstEnds⟩ := firstSecond secondRecord secondDone
  have inner := fired.start_le_end secondDone
  exact ⟨firstRecord, firstDone, by omega⟩

/--
The step rule: if placing a task always finds another task completed by its start,
then the other task ends before it in every reached state.
-/
theorem endsBefore_of_step (isTask : task ∈ program.tasks)
    (edge :
      ∀ earlierLog earlierState next, Fires model config program earlierLog earlierState →
        ∀ step :
          PlacedStep model (fifoPredecessors program.tasks) earlierState task next,
          ∃ record,
            earlierState.completed first = some record ∧ record.endCycle ≤ step.record.startCycle) :
    EndsBefore state.completed first task.taskId := by
  induction fired with
  | initial =>
    intro record done
    simp [RunState.initial] at done
  | @place earlierLog earlierState next placedTask earlier placedMember placed
      ih =>
      obtain ⟨step⟩ := attempt_placed placed
      intro record done
      by_cases same : task.taskId = placedTask.taskId
      · have sameTask : task = placedTask :=
          eq_of_key_eq program.taskIds_nodup isTask placedMember same
        subst sameTask
        rw [step.completed_self] at done
        cases done
        obtain ⟨firstRecord, firstDone, ends⟩ := edge _ _ _ earlier step
        exact ⟨firstRecord, step.completed_persists firstDone, ends⟩
      · rw [step.completed_other same] at done
        obtain ⟨firstRecord, firstDone, ends⟩ := ih record done
        exact ⟨firstRecord, step.completed_persists firstDone, ends⟩

theorem dependency_endsBefore (isTask : task ∈ program.tasks) {dependency : TaskId}
    (member : dependency ∈ executionDependencies task) :
    EndsBefore state.completed dependency task.taskId :=
  fired.endsBefore_of_step isTask fun _ _ _ _ step => step.dependency_done member

theorem predecessor_endsBefore (isTask : task ∈ program.tasks) {predecessor : TaskId}
    (queued : fifoPredecessors program.tasks task.taskId = some predecessor) :
    EndsBefore state.completed predecessor task.taskId := by
  refine fired.endsBefore_of_step isTask ?_
  intro _ _ _ _ step
  obtain ⟨record, done, ends⟩ := step.predecessor_done queued
  exact ⟨record, done, le_trans ends (le_max_right _ _)⟩

end

end Fires

/-! ## FIFO order -/

private theorem fifoScan_of_not_mem (tasks : List Task)
    (previous : ResourceKey → Option TaskId) (predecessors : TaskId → Option TaskId)
    {taskId : TaskId} (absent : taskId ∉ tasks.map Task.taskId) :
    fifoScan previous predecessors tasks taskId = predecessors taskId := by
  induction tasks generalizing previous predecessors with
  | nil => rfl
  | cons task rest ih =>
    simp only [List.map_cons, List.mem_cons, not_or] at absent
    rw [fifoScan, ih _ _ absent.2, Function.update_of_ne absent.1]

/-- The latest task on every resource of a scanned prefix. -/
def lastOnResource (tasks : List Task) (resource : ResourceKey) : Option TaskId :=
  (lastWhere (fun task => task.resource = resource) tasks).map Task.taskId

private theorem fifoScan_split (scanned before : List Task) (task : Task)
    (after : List Task) (predecessors : TaskId → Option TaskId)
    (unique : task.taskId ∉ after.map Task.taskId) :
    fifoScan (lastOnResource scanned) predecessors
        (before ++ task :: after) task.taskId =
      lastOnResource (scanned ++ before) task.resource := by
  induction before generalizing scanned predecessors with
  | nil =>
    rw [List.nil_append, fifoScan, fifoScan_of_not_mem _ _ _ unique,
      Function.update_self, List.append_nil]
  | cons first rest ih =>
    have extended :
        Function.update (lastOnResource scanned) first.resource (some first.taskId) =
          lastOnResource (scanned ++ [first]) :=
      (lastWhere_update Task.resource Task.taskId scanned first).symm
    rw [List.cons_append, fifoScan, extended, ih]
    simp

theorem fifoPredecessors_eq {before after : List Task}
    (unique : (tasks.map Task.taskId).Nodup) (shape : tasks = before ++ task :: after) :
    fifoPredecessors tasks task.taskId = lastOnResource before task.resource := by
  subst shape
  have absent : task.taskId ∉ after.map Task.taskId := by
    rw [List.map_append, List.nodup_append] at unique
    exact (List.nodup_cons.mp unique.2.1).1
  have start : (fun _ => none) = lastOnResource [] := by
    funext resource
    rfl
  rw [fifoPredecessors, start, fifoScan_split [] before task after _ absent]
  simp

namespace Fires

variable {log : List Task} {state : RunState σ} {task earlier : Task} {before after : List Task}
  {test : Task → Bool} {resource : ResourceKey}

section

variable (fired : Fires model config program log state)
include fired

theorem resource_endsBefore (shape : program.tasks = before ++ task :: after)
    (member : earlier ∈ before) (sameResource : earlier.resource = task.resource) :
    EndsBefore state.completed earlier.taskId task.taskId := by
  refine related_of_latest (fun other => other.resource = task.resource)
    (fun other => other.resource = task.resource)
    (fun first second => EndsBefore state.completed first.taskId second.taskId)
    ?_ ?_ ?_ before task after earlier shape rfl member (by simpa using sameResource)
  · intro first second third firstSecond secondThird
    exact fired.endsBefore_trans firstSecond secondThird
  · intro other passes
    simpa using passes
  · intro prior item later latest itemShape onResource isLatest
    have isTask : item ∈ program.tasks := by
      rw [itemShape]
      simp
    refine fired.predecessor_endsBefore isTask ?_
    rw [fifoPredecessors_eq program.taskIds_nodup itemShape, lastOnResource, onResource, isLatest]
    rfl

theorem mem_log_of_taskId {other : Task} (isTask : task ∈ program.tasks)
    (inLog : other ∈ log) (identifier : other.taskId = task.taskId) : task ∈ log := by
  have same : other = task :=
    eq_of_key_eq program.taskIds_nodup (fired.log_mem inLog) isTask identifier
  rw [← same]
  exact inLog

theorem completed_iff_mem_log (isTask : task ∈ program.tasks) :
    (∃ record, state.completed task.taskId = some record) ↔ task ∈ log := by
  rw [fired.completed_iff]
  constructor
  · rintro ⟨other, inLog, identifier⟩
    exact fired.mem_log_of_taskId isTask inLog identifier
  · intro inLog
    exact ⟨task, inLog, rfl⟩

theorem resource_fired (shape : program.tasks = before ++ task :: after)
    (member : earlier ∈ before) (sameResource : earlier.resource = task.resource)
    (inLog : task ∈ log) : earlier ∈ log := by
  obtain ⟨record, done⟩ := (fired.completed_iff task.taskId).mpr ⟨task, inLog, rfl⟩
  obtain ⟨earlierRecord, earlierDone, _⟩ :=
    fired.resource_endsBefore shape member sameResource record done
  have isTask : earlier ∈ program.tasks := by
    rw [shape]
    exact List.mem_append_left _ member
  exact (fired.completed_iff_mem_log isTask).mp ⟨earlierRecord, earlierDone⟩

theorem fired_before_head (shape : program.tasks = before ++ task :: after)
    (isHead : QueueHead (fifoPredecessors program.tasks) state task)
    (member : earlier ∈ before) (sameResource : earlier.resource = task.resource) :
    earlier ∈ log := by
  have passes : decide (earlier.resource = task.resource) = true := by
    simpa using sameResource
  obtain ⟨latest, isLatest⟩ :=
    lastWhere_isSome (fun other : Task => decide (other.resource = task.resource)) member passes
  obtain ⟨older, newer, beforeShape, latestPasses, newerFail⟩ := lastWhere_eq_some isLatest
  have queued :
      fifoPredecessors program.tasks task.taskId = some latest.taskId := by
    rw [fifoPredecessors_eq program.taskIds_nodup shape, lastOnResource, isLatest]
    rfl
  obtain ⟨latestRecord, latestDone⟩ := isHead.queued _ queued
  have latestShape :
      program.tasks = older ++ latest :: (newer ++ task :: after) := by
    rw [shape, beforeShape]
    simp
  have latestTask : latest ∈ program.tasks := by
    rw [latestShape]
    simp
  have latestInLog : latest ∈ log :=
    (fired.completed_iff_mem_log latestTask).mp ⟨latestRecord, latestDone⟩
  have latestResource : latest.resource = task.resource := by
    simpa using latestPasses
  rw [beforeShape] at member
  rcases List.mem_append.mp member with inOlder | inRest
  · exact fired.resource_fired latestShape inOlder
      (sameResource.trans latestResource.symm) latestInLog
  · rcases List.mem_cons.mp inRest with isLatestTask | inNewer
    · rw [isLatestTask]
      exact latestInLog
    · have fails := newerFail earlier inNewer
      simp [sameResource] at fails

private theorem resource_log_of_prefix (shape : program.tasks = before ++ task :: after)
    (isHead : QueueHead (fifoPredecessors program.tasks) state task)
    (isPrefix :
      log.filter (fun other => other.resource = task.resource) <+:
        program.tasks.filter (fun other => other.resource = task.resource)) :
    log.filter (fun other => other.resource = task.resource) =
      before.filter (fun other => other.resource = task.resource) := by
  have isTask : task ∈ program.tasks := by
    rw [shape]
    simp
  have taskAbsent : task ∉ log := by
    intro inLog
    obtain ⟨record, done⟩ := (fired.completed_iff_mem_log isTask).mpr inLog
    rw [isHead.fresh] at done
    cases done
  have tasksNodup : program.tasks.Nodup := List.Nodup.of_map _ program.taskIds_nodup
  have beforeNodup : before.Nodup := by
    rw [shape] at tasksNodup
    exact (List.nodup_append.mp tasksNodup).1
  refine prefix_eq_before task (after.filter (fun other => other.resource = task.resource))
    (beforeNodup.filter _) ?_ ?_ ?_
  · rw [shape] at isPrefix
    simpa [List.filter_append] using isPrefix
  · intro earlier member
    have parts := List.mem_filter.mp member
    have sameResource : earlier.resource = task.resource := by
      simpa using parts.2
    exact List.mem_filter.mpr ⟨fired.fired_before_head shape isHead parts.1 sameResource, parts.2⟩
  · intro inLog
    exact taskAbsent (List.mem_filter.mp inLog).1

theorem resource_prefix (resource : ResourceKey) :
    log.filter (fun other => other.resource = resource) <+:
      program.tasks.filter (fun other => other.resource = resource) := by
  induction fired with
  | initial => exact List.nil_prefix
  | @place earlierLog earlierState next task earlier isTask placed ih =>
    by_cases onResource : task.resource = resource
    · subst onResource
      obtain ⟨step⟩ := attempt_placed placed
      obtain ⟨before, after, shape⟩ := List.mem_iff_append.mp isTask
      have exactly := earlier.resource_log_of_prefix shape step.queueHead ih
      rw [List.filter_append, exactly, shape, List.filter_append]
      simp [List.prefix_append_right_inj]
    · rw [List.filter_append]
      simpa [onResource] using ih

/--
The tasks that fired on the resource of a queue head are exactly the earlier ones of the
program, in program order.
-/
theorem resource_log (shape : program.tasks = before ++ task :: after)
    (isHead : QueueHead (fifoPredecessors program.tasks) state task) :
    log.filter (fun other => other.resource = task.resource) =
      before.filter (fun other => other.resource = task.resource) :=
  fired.resource_log_of_prefix shape isHead (fired.resource_prefix task.resource)

theorem step_at {older newer : List Task} (shape : log = older ++ task :: newer) :
    ∃ earlier next,
      Fires model config program older earlier ∧
        ∃ step : PlacedStep model (fifoPredecessors program.tasks) earlier task next,
          state.completed task.taskId = some step.record ∧
            ∀ taskId record, earlier.completed taskId = some record →
              state.completed taskId = some record := by
  induction fired generalizing newer with
  | initial => simp at shape
  | @place earlierLog earlierState next placedTask earlier isTask placed
      ih =>
      obtain ⟨lastStep⟩ := attempt_placed placed
      cases newer using List.reverseRecOn with
      | nil =>
        obtain ⟨logSame, taskSame⟩ := List.append_inj' shape rfl
        simp only [List.cons.injEq, and_true] at taskSame
        subst logSame
        subst taskSame
        exact ⟨earlierState, next, earlier, lastStep, lastStep.completed_self,
          fun taskId record done => lastStep.completed_persists done⟩
      | append_singleton rest last =>
        have split : earlierLog ++ [placedTask] = (older ++ task :: rest) ++ [last] := by
          rw [shape]
          simp
        obtain ⟨logSame, _⟩ := List.append_inj' split rfl
        obtain ⟨before, after, firedBefore, step, done, persists⟩ := ih logSame
        exact ⟨before, after, firedBefore, step, lastStep.completed_persists done,
          fun taskId record earlierDone =>
            lastStep.completed_persists (persists taskId record earlierDone)⟩

end

private theorem filter_resource {tasks : List Task}
    (onResource : ∀ task ∈ tasks, test task = true → task.resource = resource) :
    (tasks.filter (fun task => task.resource = resource)).filter test = tasks.filter test := by
  rw [List.filter_filter]
  refine List.filter_congr ?_
  intro task member
  by_cases passes : test task
  · simp [passes, onResource task member passes]
  · simp [passes]

theorem class_prefix (fired : Fires model config program log state)
    (onResource : ∀ task ∈ program.tasks, test task = true → task.resource = resource) :
    log.filter test <+: program.tasks.filter test := by
  have isPrefix := (fired.resource_prefix resource).filter test
  rwa [filter_resource onResource,
    filter_resource fun task member => onResource task (fired.log_mem member)] at isPrefix

theorem class_log (fired : Fires model config program log state)
    (shape : program.tasks = before ++ task :: after)
    (isHead : QueueHead (fifoPredecessors program.tasks) state task)
    (onResource : ∀ other ∈ program.tasks, test other = true → other.resource = task.resource) :
    log.filter test = before.filter test := by
  have exactly := congrArg (List.filter test) (fired.resource_log shape isHead)
  rwa [filter_resource fun other member => onResource other (fired.log_mem member),
    filter_resource fun other member =>
      onResource other (by rw [shape]; exact List.mem_append_left _ member)] at exactly

end Fires

/-! ## From passes to firing sequences -/

/-- A pass over pending tasks is a firing sequence. -/
theorem schedulePass_fires {progress : Bool} (fired : Fires model config program log state)
    (areTasks : ∀ task ∈ tasks, task ∈ program.tasks)
    (passed :
      schedulePass model config (fifoPredecessors program.tasks) state made tasks =
        .ok (final, progress)) :
    ∃ later, Fires model config program (log ++ later) final := by
  induction tasks generalizing log state made with
  | nil =>
    simp only [schedulePass, Except.ok.injEq, Prod.mk.injEq] at passed
    rw [← passed.1]
    exact ⟨[], by simpa using fired⟩
  | cons task rest ih =>
    have restTasks : ∀ other ∈ rest, other ∈ program.tasks :=
      fun other member => areTasks other (List.mem_cons_of_mem _ member)
    simp only [schedulePass] at passed
    cases placed : attempt model config (fifoPredecessors program.tasks) state task with
    | error failure => simp [placed] at passed
    | ok outcome =>
      cases outcome with
      | none =>
        simp only [placed] at passed
        exact ih fired restTasks passed
      | some next =>
        simp only [placed] at passed
        have extended := fired.place (areTasks task List.mem_cons_self) placed
        obtain ⟨later, laterFires⟩ := ih extended restTasks passed
        exact ⟨task :: later, by simpa using laterFires⟩

/-- So is the loop of passes. -/
theorem scheduleLoop_fires (fired : Fires model config program log state)
    (looped : scheduleLoop model config program.tasks fuel state = .ok final) :
    ∃ later,
      Fires model config program (log ++ later) final ∧ pendingTasks program.tasks final = [] := by
  induction fuel generalizing log state with
  | zero =>
    unfold scheduleLoop at looped
    by_cases finished : (pendingTasks program.tasks state).isEmpty
    · simp only [finished, ↓reduceIte, Except.ok.injEq] at looped
      subst looped
      exact ⟨[], by simpa using fired, by simpa using finished⟩
    · simp [finished] at looped
  | succ fuel ih =>
    unfold scheduleLoop at looped
    by_cases finished : (pendingTasks program.tasks state).isEmpty
    · simp only [finished, ↓reduceIte, Except.ok.injEq] at looped
      subst looped
      exact ⟨[], by simpa using fired, by simpa using finished⟩
    · simp only [finished, Bool.false_eq_true, ↓reduceIte] at looped
      split at looped
      · cases looped
      · rename_i next passed
        obtain ⟨later, laterFires⟩ := schedulePass_fires fired (fun _ member => member) passed
        obtain ⟨rest, restFires, restDone⟩ := ih laterFires looped
        exact ⟨later ++ rest, by simpa using restFires, restDone⟩
      · split at looped <;> cases looped

/-- A schedule is a firing sequence of all tasks. -/
theorem scheduleState_fires (scheduled : scheduleState model config program = .ok final) :
    ∃ log, Fires model config program log final ∧ ∀ task ∈ program.tasks, task ∈ log := by
  unfold scheduleState at scheduled
  split at scheduled
  · cases scheduled
  · split at scheduled
    · cases scheduled
    · split at scheduled
      · cases scheduled
      · rename_i sync accepted
        obtain ⟨log, fired, finished⟩ := scheduleLoop_fires (Fires.initial accepted) scheduled
        refine ⟨log, by simpa using fired, ?_⟩
        intro task isTask
        have notPending : task ∉ pendingTasks program.tasks final := by
          simp [finished]
        have done : ∃ record, final.completed task.taskId = some record := by
          by_contra none
          exact notPending
            (List.mem_filter.mpr ⟨isTask, by simpa [Option.eq_none_iff_forall_ne_some] using none⟩)
        exact (fired.completed_iff_mem_log isTask).mp done

/-! ## How scheduling fails -/

/-- A pass without progress changes nothing. -/
theorem schedulePass_idle
    (passed : schedulePass model config fifo state made tasks = .ok (final, false)) :
    made = false ∧ final = state ∧
      ∀ task ∈ tasks, attempt model config fifo state task = .ok none := by
  induction tasks generalizing state made with
  | nil =>
    cases passed
    simp
  | cons task rest ih =>
    simp only [schedulePass] at passed
    cases tried : attempt model config fifo state task with
    | error failure => simp [tried] at passed
    | ok outcome =>
      cases outcome with
      | none =>
        simp only [tried] at passed
        obtain ⟨unmade, same, idle⟩ := ih passed
        refine ⟨unmade, same, ?_⟩
        intro other member
        rcases List.mem_cons.mp member with isTask | inRest
        · rw [isTask]
          exact tried
        · exact idle other inRest
      | some next =>
        simp only [tried] at passed
        cases (ih passed).1

theorem schedulePass_progress (fired : Fires model config program log state)
    (areTasks : ∀ task ∈ tasks, task ∈ program.tasks)
    (passed :
      schedulePass model config (fifoPredecessors program.tasks) state false tasks =
        .ok (final, true)) :
    ∃ later, later ≠ [] ∧ Fires model config program (log ++ later) final := by
  induction tasks with
  | nil =>
    cases passed
  | cons task rest ih =>
    have restTasks : ∀ other ∈ rest, other ∈ program.tasks :=
      fun other member => areTasks other (List.mem_cons_of_mem _ member)
    simp only [schedulePass] at passed
    cases tried : attempt model config (fifoPredecessors program.tasks) state task with
    | error failure => simp [tried] at passed
    | ok outcome =>
      cases outcome with
      | none =>
        simp only [tried] at passed
        exact ih restTasks passed
      | some next =>
        simp only [tried] at passed
        have extended := fired.place (areTasks task List.mem_cons_self) tried
        obtain ⟨later, laterFires⟩ := schedulePass_fires extended restTasks passed
        exact ⟨task :: later, by simp, by simpa using laterFires⟩

/-- A failing pass has reached a state in which an attempt fails. -/
theorem schedulePass_error (fired : Fires model config program log state)
    (areTasks : ∀ task ∈ tasks, task ∈ program.tasks)
    (passed :
      schedulePass model config (fifoPredecessors program.tasks) state made tasks =
        .error failure) :
    ∃ reachedLog reached task,
      Fires model config program reachedLog reached ∧ task ∈ program.tasks ∧
        attempt model config (fifoPredecessors program.tasks) reached task = .error failure := by
  induction tasks generalizing log state made with
  | nil =>
    cases passed
  | cons task rest ih =>
    have restTasks : ∀ other ∈ rest, other ∈ program.tasks :=
      fun other member => areTasks other (List.mem_cons_of_mem _ member)
    have isTask := areTasks task List.mem_cons_self
    simp only [schedulePass] at passed
    cases tried : attempt model config (fifoPredecessors program.tasks) state task with
    | error tryFailure =>
      simp only [tried, Except.error.injEq] at passed
      subst passed
      exact ⟨log, state, task, fired, isTask, tried⟩
    | ok outcome =>
      cases outcome with
      | none =>
        simp only [tried] at passed
        exact ih fired restTasks passed
      | some next =>
        simp only [tried] at passed
        exact ih (fired.place isTask tried) restTasks passed

theorem Fires.pending_nil (fired : Fires model config program log state)
    (complete : program.tasks.length ≤ log.length) : pendingTasks program.tasks state = [] := by
  have isSubperm : log.Subperm program.tasks :=
    (List.Nodup.of_map _ fired.log_nodup).subperm fun task inLog => fired.log_mem inLog
  have isPerm := isSubperm.perm_of_length_le complete
  unfold pendingTasks
  rw [List.filter_eq_nil_iff]
  intro task isTask pending
  obtain ⟨record, done⟩ := (fired.completed_iff_mem_log isTask).mpr (isPerm.mem_iff.mpr isTask)
  simp [done] at pending

/-- No task can be placed, and some task is pending. -/
structure Deadlocked
    (model : SynchronizationModel σ)
    (config : SimulatorConfig)
    (program : KernelProgram)
    (state : RunState σ) :
    Prop where
  idle :
    ∀ task ∈ program.tasks,
      attempt model config (fifoPredecessors program.tasks) state task = .ok none
  pending : pendingTasks program.tasks state ≠ []

/-- A failing loop has reached a state in which it is stuck or an attempt fails. -/
theorem scheduleLoop_error (fired : Fires model config program log state)
    (enough : program.tasks.length ≤ log.length + fuel)
    (looped : scheduleLoop model config program.tasks fuel state = .error failure) :
    ∃ reachedLog reached,
      Fires model config program reachedLog reached ∧
        ((∃ task ∈ program.tasks,
          attempt model config (fifoPredecessors program.tasks) reached task = .error failure) ∨
          (Deadlocked model config program reached ∧
            (config.deadlockDetect = true →
              failure = .deadlock ((pendingTasks program.tasks reached).map Task.taskId)))) := by
  induction fuel generalizing log state with
  | zero =>
    have done := fired.pending_nil enough
    simp [scheduleLoop, done] at looped
  | succ fuel ih =>
    rw [scheduleLoop] at looped
    by_cases finished : (pendingTasks program.tasks state).isEmpty
    · simp [finished] at looped
    · simp only [finished, Bool.false_eq_true, ↓reduceIte] at looped
      cases passed :
          schedulePass model config (fifoPredecessors program.tasks) state false program.tasks with
      | error passFailure =>
        simp only [passed, Except.error.injEq] at looped
        subst looped
        obtain ⟨reachedLog, reached, task, reaches, isTask, fails⟩ :=
          schedulePass_error fired (fun _ member => member) passed
        exact ⟨reachedLog, reached, reaches, Or.inl ⟨task, isTask, fails⟩⟩
      | ok outcome =>
        obtain ⟨next, progress⟩ := outcome
        cases progress with
        | true =>
          simp only [passed] at looped
          obtain ⟨later, nonempty, extended⟩ :=
            schedulePass_progress fired (fun _ member => member) passed
          refine ih extended ?_ looped
          have positive : 0 < later.length := List.length_pos_iff.mpr nonempty
          rw [List.length_append]
          omega
        | false =>
          simp only [passed] at looped
          obtain ⟨_, same, idle⟩ := schedulePass_idle passed
          subst same
          refine ⟨log, next, fired, Or.inr ⟨⟨idle, ?_⟩, ?_⟩⟩
          · simpa using finished
          · intro detects
            simp only [detects, ↓reduceIte, Except.error.injEq] at looped
            exact looped.symm

/-- The tasks of a state in the order in which they were placed. -/
def firingOrder (program : KernelProgram) (state : RunState σ) : List Task :=
  (state.records.filter (·.category = .operation)).filterMap fun record =>
    program.tasks.find? (·.taskId = record.taskId)

theorem find?_taskId (isTask : task ∈ program.tasks) :
    program.tasks.find? (·.taskId = task.taskId) = some task := by
  cases found : program.tasks.find? (·.taskId = task.taskId) with
  | none =>
    have rejected := List.find?_eq_none.mp found task isTask
    simp at rejected
  | some other =>
    have sameId : other.taskId = task.taskId := by
      simpa using List.find?_some found
    rw [eq_of_key_eq program.taskIds_nodup (List.mem_of_find?_eq_some found) isTask sameId]

theorem Fires.firingOrder_eq (fired : Fires model config program log state) :
    firingOrder program state = log := by
  induction fired with
  | initial => rfl
  | @place earlierLog earlierState next task earlier isTask placed ih =>
    obtain ⟨step⟩ := attempt_placed placed
    have stalls :
        (waitRecords task step.decision step.placement).filter (·.category = .operation) = [] := by
      unfold waitRecords
      split <;> simp
    have records :
        next.records =
          earlierState.records ++
            (waitRecords task step.decision step.placement ++ [step.record]) :=
      step.recordsShape
    have isOperation : step.record.category = .operation := rfl
    unfold firingOrder at ih ⊢
    rw [records, List.filter_append, List.filter_append, stalls, List.filterMap_append, ih]
    have found : program.tasks.find? (·.taskId = step.record.taskId) = some task :=
      find?_taskId isTask
    have kept : [step.record].filter (·.category = .operation) = [step.record] := by
      simp [isOperation]
    rw [List.nil_append, kept, List.filterMap_cons, found, List.filterMap_nil]

/-- Place the tasks of a list one after another, when each of them can be placed. -/
def replay
    (model : SynchronizationModel σ)
    (config : SimulatorConfig)
    (program : KernelProgram) :
    RunState σ → List Task → Option (RunState σ)
  | state, [] => some state
  | state, task :: rest =>
    match attempt model config (fifoPredecessors program.tasks) state task with
    | .ok (some next) => replay model config program next rest
    | _ => none

/-- A replay that succeeds is a firing sequence. -/
theorem replay_fires (fired : Fires model config program log state)
    (areTasks : ∀ task ∈ tasks, task ∈ program.tasks)
    (replayed : replay model config program state tasks = some final) :
    Fires model config program (log ++ tasks) final := by
  induction tasks generalizing log state with
  | nil =>
    simp only [replay, Option.some.injEq] at replayed
    rw [← replayed, List.append_nil]
    exact fired
  | cons task rest ih =>
    simp only [replay] at replayed
    split at replayed
    · rename_i next placed
      have extended := fired.place (areTasks task List.mem_cons_self) placed
      have finished :=
        ih extended
          (fun other member => areTasks other (List.mem_cons_of_mem _ member)) replayed
      simpa using finished
    · cases replayed

theorem replay_observed {β : Type} {observe : RunState σ → β} {value : β}
    (areTasks : ∀ task ∈ tasks, task ∈ program.tasks)
    (evaluated :
      ((model.reset program).toOption.bind fun sync =>
        (replay model config program (RunState.initial sync) tasks).map observe) =
        some value) :
    ∃ state, Fires model config program tasks state ∧ observe state = value := by
  cases accepts : model.reset program with
  | error failure => simp [accepts, Except.toOption] at evaluated
  | ok sync =>
    simp only [accepts, Except.toOption, Option.bind_some, Option.map_eq_some_iff] at evaluated
    obtain ⟨final, replayed, observed⟩ := evaluated
    refine ⟨final, ?_, observed⟩
    simpa using replay_fires (Fires.initial accepts) areTasks replayed

end Run

end TilelangAscend.Simulator
