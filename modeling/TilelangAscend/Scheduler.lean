import TilelangAscend.SyncModel

namespace TilelangAscend.Simulator

/-!
# The discrete-event scheduler

`DiscreteEventScheduler.run` visits the pending tasks of a program in source order,
pass after pass, and places every task whose execution dependencies and FIFO
predecessor are completed and which the synchronization model lets through.  The
wall-clock timeout is the only behaviour left out: a pass without progress either
reports the deadlock or, with detection switched off, repeats until that timeout.
-/

/-- The protocol that synchronization models implement. -/
structure SynchronizationModel (σ : Type) where
  reset : KernelProgram → Except SimError σ
  evaluate : σ → Task → Completed → Except SimError SyncDecision
  onScheduled : σ → Task → ExecutionRecord → Except SimError σ
  /-- Whether the optional accounting hook finds something left at kernel end. -/
  auditFlagBalance : σ → Bool

/-- Synchronization model that never delays a task. -/
def noOpSynchronizationModel : SynchronizationModel Unit where
  reset := fun _ => .ok ()
  evaluate := fun _ _ _ => .ok {}
  onScheduled := fun _ _ _ => .ok ()
  auditFlagBalance := fun _ => false

/-- The flag and barrier model as a synchronization model. -/
def flagBarrierSynchronizationModel
    (config : SyncConfig) :
    SynchronizationModel FlagBarrierModel where
  reset := reset config
  evaluate := FlagBarrierModel.evaluate
  onScheduled := fun model task record => (model.onScheduled task record).map model.withState
  auditFlagBalance := FlagBarrierModel.auditFlagBalance

/-- Policies of the flag accounting check. -/
inductive CheckPolicy where
  | off
  | warn
  | error
  deriving Repr, DecidableEq

/-- Scheduler settings. -/
structure SimulatorConfig where
  platform : Platform := .a2
  deadlockDetect : Bool := true
  flagBalanceCheck : CheckPolicy := .error
  maxCycles : Option Nat := none
  deriving Repr, DecidableEq

/-- `_execution_dependencies`: declared edges without the inferred memory hazards. -/
def executionDependencies (task : Task) : List TaskId :=
  task.dependencies.filter fun dependency =>
    dependency ∉ task.metadata.memoryDependencies ∨ dependency ∈ task.metadata.hardwareDependencies

/-- Loop of `_fifo_predecessors`, with the last task of every resource so far. -/
def fifoScan :
    (ResourceKey → Option TaskId) →
    (TaskId → Option TaskId) →
    List Task →
    TaskId → Option TaskId
  | _, predecessors, [] => predecessors
  | previousByResource, predecessors, task :: rest =>
    fifoScan
      (Function.update previousByResource task.resource (some task.taskId))
      (Function.update predecessors task.taskId (previousByResource task.resource))
      rest

/-- `_fifo_predecessors`: the task queued right before each task on its resource. -/
def fifoPredecessors (tasks : List Task) : TaskId → Option TaskId :=
  fifoScan (fun _ => none) (fun _ => none) tasks

/-- Cycles from which the scheduler derives the interval of one task. -/
structure Placement where
  dependencyCycle : Nat
  resourceCycle : Nat
  synchronizationCycle : Nat
  deriving Repr, DecidableEq

namespace Placement

/-- Earliest cycle allowed by dependencies and synchronization. -/
def readyCycle (placement : Placement) : Nat :=
  max placement.dependencyCycle placement.synchronizationCycle

/-- Cycle at which the task starts on its pipe. -/
def startCycle (placement : Placement) : Nat :=
  max placement.readyCycle placement.resourceCycle

/-- Cycle at which the task would start without synchronization. -/
def unsynchronizedCycle (placement : Placement) : Nat :=
  max placement.dependencyCycle placement.resourceCycle

end Placement

/-- The cycles of one task, given the cycle that synchronization allows. -/
def placementOf
    (completed : Completed)
    (fifo : TaskId → Option TaskId)
    (task : Task)
    (synchronizationCycle : Nat) :
    Placement where
  dependencyCycle := maxEnd completed (executionDependencies task)
  resourceCycle := maxEnd completed (fifo task.taskId).toList
  synchronizationCycle := synchronizationCycle

/-- Scheduling edges of a placed task, kept for reports. -/
def schedulePredecessors
    (task : Task)
    (predecessor : Option TaskId)
    (decision : SyncDecision) :
    PredecessorEdges where
  explicit := executionDependencies task
  fifo := predecessor.toList
  synchronization := decision.producerTaskIds

/-- The scheduling edges that determined the start cycle. -/
def criticalPredecessors (completed : Completed) (task : Task)
    (predecessor : Option TaskId) (decision : SyncDecision) (placement : Placement) :
    PredecessorEdges :=
  if placement.startCycle = 0 then
    {}
  else
    { explicit :=
        if placement.dependencyCycle = placement.startCycle then
          (executionDependencies task).filter fun taskId =>
            (completed taskId).any (·.endCycle = placement.dependencyCycle)
        else
          []
      fifo :=
        if placement.resourceCycle = placement.startCycle then predecessor.toList else []
      synchronization :=
        if placement.synchronizationCycle = placement.startCycle then
          decision.producerTaskIds
        else
          [] }

/-- The stall record of a task that synchronization delays beyond its other inputs. -/
def waitRecords (task : Task) (decision : SyncDecision) (placement : Placement) :
    List ExecutionRecord :=
  if placement.unsynchronizedCycle < placement.synchronizationCycle then
    [{ taskId := task.taskId
       coreId := task.coreId
       lane := task.lane
       pipe := task.pipe
       startCycle := placement.unsynchronizedCycle
       endCycle := placement.synchronizationCycle
       category := .wait
       stallReason := decision.reason }]
  else
    []

/-- The operation record of a placed task. -/
def operationRecord
    (completed : Completed)
    (task : Task)
    (predecessor : Option TaskId)
    (decision : SyncDecision)
    (placement : Placement) :
    ExecutionRecord where
  taskId := task.taskId
  coreId := task.coreId
  lane := task.lane
  pipe := task.pipe
  startCycle := placement.startCycle
  endCycle := placement.startCycle + task.durationCycles
  metadata :=
    { syncProducers := decision.producerTaskIds
      schedulePredecessors := schedulePredecessors task predecessor decision
      criticalPredecessors := criticalPredecessors completed task predecessor decision placement
      queueEnterCycle :=
        if placement.readyCycle < placement.startCycle then
          some placement.readyCycle
        else
          none }

/-- Scheduler state: completed records, synchronization state and emitted records. -/
structure RunState (σ : Type) where
  completed : Completed
  sync : σ
  records : List ExecutionRecord

section Scheduler

variable {σ : Type}

/-- State before the first pass. -/
def RunState.initial (sync : σ) : RunState σ where
  completed := fun _ => none
  sync := sync
  records := []

/--
Try to place one task.  `none` leaves the task pending, `some` is the state after
it was placed.
-/
def attempt (model : SynchronizationModel σ) (config : SimulatorConfig)
    (fifo : TaskId → Option TaskId) (state : RunState σ) (task : Task) :
    Except SimError (Option (RunState σ)) :=
  if (state.completed task.taskId).isSome then
    .ok none
  else if anyMissing state.completed
      (executionDependencies task ++ (fifo task.taskId).toList) then
    .ok none
  else
    match model.evaluate state.sync task state.completed with
    | .error failure => .error failure
    | .ok decision =>
      match decision.readyCycle with
      | none => .ok none
      | some synchronizationCycle =>
        let placement := placementOf state.completed fifo task synchronizationCycle
        let record := operationRecord state.completed task (fifo task.taskId) decision placement
        if config.maxCycles.any (· < record.endCycle) then
          .error (.maxCycles task.taskId record.endCycle)
        else
          match model.onScheduled state.sync task record with
          | .error failure => .error failure
          | .ok sync =>
            .ok (some
              { completed := Function.update state.completed task.taskId (some record)
                sync := sync
                records := state.records ++ (waitRecords task decision placement ++ [record]) })

/-- One pass over the tasks in source order, with the progress made so far. -/
def schedulePass
    (model : SynchronizationModel σ)
    (config : SimulatorConfig)
    (fifo : TaskId → Option TaskId) :
    RunState σ → Bool → List Task → Except SimError (RunState σ × Bool)
  | state, madeProgress, [] => .ok (state, madeProgress)
  | state, madeProgress, task :: rest =>
    match attempt model config fifo state task with
    | .error failure => .error failure
    | .ok none => schedulePass model config fifo state madeProgress rest
    | .ok (some next) => schedulePass model config fifo next true rest

/-- Tasks that are not completed. -/
def pendingTasks (tasks : List Task) (state : RunState σ) : List Task :=
  tasks.filter fun task => (state.completed task.taskId).isNone

/--
The pass loop.  Every pass that does not end the loop completes a task, so as many
passes as there are tasks suffice and the fuel is never exhausted.
-/
def scheduleLoop
    (model : SynchronizationModel σ)
    (config : SimulatorConfig)
    (tasks : List Task) :
    Nat → RunState σ → Except SimError (RunState σ)
  | fuel, state =>
    if (pendingTasks tasks state).isEmpty then
      .ok state
    else
      match fuel with
      | 0 => .error .executionTimeout
      | fuel + 1 =>
        match schedulePass model config (fifoPredecessors tasks) state false tasks with
        | .error failure => .error failure
        | .ok (next, true) => scheduleLoop model config tasks fuel next
        | .ok (next, false) =>
          if config.deadlockDetect then
            .error (.deadlock ((pendingTasks tasks next).map Task.taskId))
          else
            .error .executionTimeout

/-- `_validate_dependencies`: every declared dependency names a task. -/
def validateDependencies (tasks : List Task) : Except SimError Unit :=
  match tasks.find? fun task =>
      task.dependencies.any fun dependency => dependency ∉ tasks.map Task.taskId with
  | some task => .error (.unknownDependencies task.taskId)
  | none => .ok ()

/-- Scheduling up to the last pass: the state in which every task is completed. -/
def scheduleState (model : SynchronizationModel σ) (config : SimulatorConfig)
    (program : KernelProgram) : Except SimError (RunState σ) :=
  if config.platform ≠ program.platform then
    .error .platformMismatch
  else
    match validateDependencies program.tasks with
    | .error failure => .error failure
    | .ok () =>
      match model.reset program with
      | .error failure => .error failure
      | .ok sync =>
        scheduleLoop model config program.tasks program.tasks.length (RunState.initial sync)

/-- Identifier of a record; the stall record of a task has a suffix. -/
def ExecutionRecord.recordId (record : ExecutionRecord) : String :=
  match record.category with
  | .operation => record.taskId
  | .wait => record.taskId ++ "#wait"

/-- Order of records in a schedule: start cycle, end cycle, identifier. -/
def recordOrder (first second : ExecutionRecord) : Prop :=
  first.startCycle < second.startCycle ∨
    (first.startCycle = second.startCycle ∧
      (first.endCycle < second.endCycle ∨
        (first.endCycle = second.endCycle ∧ first.recordId ≤ second.recordId)))

instance : DecidableRel recordOrder :=
  fun _ _ => inferInstanceAs (Decidable (_ ∨ _))

/-- Records of one scheduling run in time order and its makespan. -/
structure ScheduleResult where
  records : List ExecutionRecord
  makespanCycles : Nat
  deriving Repr, DecidableEq

/-- Latest end cycle over the records of a run. -/
def makespan (records : List ExecutionRecord) : Nat :=
  (records.map ExecutionRecord.endCycle).foldr max 0

/-- The schedule that a final state describes. -/
def RunState.result (state : RunState σ) : ScheduleResult where
  records := state.records.insertionSort recordOrder
  makespanCycles := makespan state.records

/-- `DiscreteEventScheduler.run`: schedule a program and audit its flags. -/
def run (model : SynchronizationModel σ) (config : SimulatorConfig)
    (program : KernelProgram) : Except SimError ScheduleResult :=
  match scheduleState model config program with
  | .error failure => .error failure
  | .ok state =>
    if config.flagBalanceCheck = .error ∧ model.auditFlagBalance state.sync = true then
      .error .flagAccounting
    else
      .ok state.result

/-- The operation record of a task in a schedule. -/
def ScheduleResult.operation? (result : ScheduleResult) (taskId : TaskId) :
    Option ExecutionRecord :=
  result.records.find? fun record => record.category = .operation ∧ record.taskId = taskId

/-- In a schedule, the second task starts no earlier than the first one ends. -/
def ScheduleResult.EndsBefore (result : ScheduleResult) (first second : TaskId) : Prop :=
  ∃ firstRecord secondRecord,
    result.operation? first = some firstRecord ∧ result.operation? second = some secondRecord ∧
      firstRecord.endCycle ≤ secondRecord.startCycle

end Scheduler

end TilelangAscend.Simulator
