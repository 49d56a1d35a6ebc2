import Mathlib.Data.List.Sort
import Mathlib.Logic.Function.Basic
import TilelangAscend.Program

namespace TilelangAscend.Simulator

/-!
# The flag and barrier synchronization model

`FlagBarrierSynchronizationModel` of the simulator: local flags, cross flags of
modes 0, 1 and 2, pipe barriers and `sync_all`.  `reset` scans a program once and
builds the tables that stay fixed during a run; `evaluate` answers whether an
otherwise ready task may start, and `onScheduled` updates credits, phases and
arrivals after the scheduler placed it.  Dictionaries are functions that are
updated at one key, and the views `resources_by_lane` and `resources_by_core` of
the source are read off `lastByResource` by enumerating pipes and lanes.
-/

/-- Lane families that cross flags address. -/
inductive LaneKind where
  | cube
  | vector
  deriving Repr, DecidableEq

/-- Cross-flag modes: 0 is global, 1 pairs the vector lanes of a core, 2 pairs cube and vector. -/
inductive CrossMode where
  | mode0
  | mode1
  | mode2
  deriving Repr, DecidableEq

/-- Direction of a mode-2 credit inside a core. -/
inductive CrossDirection where
  | c2v
  | v2c
  deriving Repr, DecidableEq

/-- One credit queue. -/
inductive FlagKey where
  | localFlag (coreId : Nat) (lane : Lane) (src dst : PipeName) (flagId : Int)
  | crossFlag (coreId : Nat) (direction : CrossDirection) (lane : Lane) (flagId : Int)
  deriving Repr, DecidableEq

/-- One mode-0 or mode-1 collective; `group` is the core of a mode-1 collective. -/
structure CollectiveKey where
  mode : CrossMode
  kind : LaneKind
  group : Option Nat
  flagId : Int
  deriving Repr, DecidableEq

/-- One rendezvous of `sync_all`. -/
structure SyncAllKey where
  scope : SyncScope
  phase : Nat
  deriving Repr, DecidableEq

/-- Namespace in which a cross wait looks up its mode; mode 0 has no core. -/
structure WaitModeKey where
  flagId : Int
  kind : LaneKind
  core : Option Nat
  deriving Repr, DecidableEq

/-- A produced credit: the cycle at which it became available and its producer. -/
structure Credit where
  cycle : Nat
  taskId : TaskId
  deriving Repr, DecidableEq

/-- What a `ProgramValidationError` of the synchronization model complains about. -/
inductive ValidationFailure where
  | localFlagId
  | flagId
  | sourcePipe
  | destinationPipe
  | lanePipe
  | crossFlagId
  | crossMode
  | modeOneLane
  | crossLane
  | unknownPipe
  | ambiguousModes
  | syncScope
  | mismatchedPhases
  | duplicateParticipant
  | notParticipant
  | noModeDeclaration
  | overflowedCredits (key : FlagKey)
  | overflowedPhases (key : CollectiveKey)
  | missingCredit (key : FlagKey)
  deriving Repr, DecidableEq

/-- Errors that end a scheduling run. -/
inductive SimError where
  | platformMismatch
  | unknownDependencies (taskId : TaskId)
  | validation (taskId : TaskId) (failure : ValidationFailure)
  | deadlock (pending : List TaskId)
  | flagAccounting
  | maxCycles (taskId : TaskId) (endCycle : Nat)
  | executionTimeout
  deriving Repr, DecidableEq

/-- Reason attached to a synchronization decision. -/
inductive SyncReason where
  | synchronizationOrdering
  | syncAll
  | localFlagDepth
  | crossFlagDepth
  | localFlag
  | crossFlag
  | barrier
  deriving Repr, DecidableEq

/--
Result of evaluating synchronization state for one otherwise ready task.  A
missing ready cycle means that the task is blocked.
-/
structure SyncDecision where
  readyCycle : Option Nat := some 0
  reason : Option SyncReason := none
  producerTaskIds : List TaskId := []
  deriving Repr, DecidableEq

namespace SyncDecision

/-- The decision that keeps a task waiting. -/
def blockedBy (reason : SyncReason) : SyncDecision where
  readyCycle := none
  reason := some reason

end SyncDecision

/-- Whether an execution record is an operation or a recorded stall. -/
inductive RecordCategory where
  | operation
  | wait
  deriving Repr, DecidableEq

/-- Scheduling edges kept for reports, by origin. -/
structure PredecessorEdges where
  explicit : List TaskId := []
  fifo : List TaskId := []
  synchronization : List TaskId := []
  deriving Repr, DecidableEq

/-- Trace metadata that the scheduler adds to an operation record. -/
structure TraceMetadata where
  syncProducers : List TaskId := []
  schedulePredecessors : PredecessorEdges := {}
  criticalPredecessors : PredecessorEdges := {}
  queueEnterCycle : Option Nat := none
  deriving Repr, DecidableEq

/-- A scheduled operation interval; a wait record names the task that it blocks. -/
structure ExecutionRecord where
  taskId : TaskId
  coreId : Nat
  lane : Lane
  pipe : Pipe
  startCycle : Nat
  endCycle : Nat
  category : RecordCategory := .operation
  stallReason : Option SyncReason := none
  metadata : TraceMetadata := {}
  deriving Repr, DecidableEq

/-- Records of the tasks scheduled so far. -/
abbrev Completed := TaskId → Option ExecutionRecord

/-- Latest end cycle among completed tasks of a list, 0 when there is none. -/
def maxEnd (completed : Completed) (taskIds : List TaskId) : Nat :=
  (taskIds.filterMap fun taskId => (completed taskId).map ExecutionRecord.endCycle).foldr max 0

/-- Whether some task of a list is not completed yet. -/
def anyMissing (completed : Completed) (taskIds : List TaskId) : Bool :=
  taskIds.any fun taskId => (completed taskId).isNone

/-- Constructor arguments of the synchronization model. -/
structure SyncConfig where
  flagBlocking : Bool := false
  localFlagDepth : Nat := 1
  crossFlagDepth : Nat := 15
  /-- `_MAX_CROSS_FLAG_CREDITS` for mode-2 credits; `none` is the model without this limit. -/
  creditLimit : Option Nat := some 15
  /-- `_MAX_CROSS_FLAG_CREDITS` for the phases of a collective. -/
  phaseLimit : Option Nat := some 15
  deriving Repr, DecidableEq

/-- Raise a validation error that names a task. -/
def reject {α : Type} (task : Task) (failure : ValidationFailure) : Except SimError α :=
  .error (.validation task.taskId failure)

/-! ## Operand readers -/

/-- `_flag_id`: a non-negative integer flag id. -/
def flagIdOf (task : Task) : Except SimError Int :=
  match task.metadata.flagId with
  | .value number => if 0 ≤ number then .ok number else reject task .flagId
  | _ => reject task .flagId

/-- `_cross_mode`: the mode of a cross set, 2 when absent. -/
def crossModeOf (task : Task) : Except SimError CrossMode :=
  match task.metadata.mode with
  | .absent => .ok .mode2
  | .value 0 => .ok .mode0
  | .value 1 => .ok .mode1
  | .value 2 => .ok .mode2
  | _ => reject task .crossMode

/-- `_lane_kind`: the lane family of a cross flag task. -/
def laneKindOf (task : Task) : Except SimError LaneKind :=
  match task.lane with
  | .cube => .ok .cube
  | .vector0 => .ok .vector
  | .vector1 => .ok .vector
  | .control => reject task .crossLane

/-- `_cross_target_kind`: the lane family that consumes a cross set. -/
def crossTargetKind (mode : CrossMode) (task : Task) : Except SimError LaneKind :=
  match laneKindOf task, mode with
  | .ok .cube, .mode2 => .ok .vector
  | .ok .vector, .mode2 => .ok .cube
  | kind, _ => kind

/-- The pipe a barrier drains: its `target_pipe`, or its own pipe. -/
def targetPipeOf (task : Task) : PipeName :=
  task.metadata.targetPipe.getD (.pipe task.pipe)

/-- The lane a named-pipe barrier drains: its `target_lane`, or its own lane. -/
def targetLaneOf (task : Task) : LaneName :=
  task.metadata.targetLane.getD (.lane task.lane)

/-- `_sync_all_scope`: explicit scope, or the scope of the calling lane. -/
def syncAllScope (task : Task) : Except SimError SyncScope :=
  match task.metadata.syncScope with
  | some (.scope scope) => .ok scope
  | some (.other _) => reject task .syncScope
  | none =>
    match task.lane with
    | .cube => .ok .aic
    | .vector0 => .ok .aiv
    | .vector1 => .ok .aiv
    | .control => .ok .mix

/-- `_local_flag_key`: the credit queue of a local set or wait. -/
def localFlagKey (task : Task) : Except SimError FlagKey :=
  match flagIdOf task, task.metadata.srcPipe, task.metadata.dstPipe with
  | .error failure, _, _ => .error failure
  | .ok _, none, _ => reject task .sourcePipe
  | .ok _, some _, none => reject task .destinationPipe
  | .ok flagId, some src, some dst => .ok (.localFlag task.coreId task.lane src dst flagId)

/-- `_cross_set_keys_mode2`: the queues that a mode-2 set feeds. -/
def crossSetKeysMode2 (task : Task) : Except SimError (List FlagKey) :=
  match flagIdOf task, task.lane with
  | .error failure, _ => .error failure
  | .ok flagId, .cube =>
    .ok (Lane.vectorLanes.map fun lane => .crossFlag task.coreId .c2v lane flagId)
  | .ok flagId, .vector0 => .ok [.crossFlag task.coreId .v2c .vector0 flagId]
  | .ok flagId, .vector1 => .ok [.crossFlag task.coreId .v2c .vector1 flagId]
  | .ok _, .control => reject task .crossLane

/-- `_cross_wait_keys_mode2`: the queues that a mode-2 wait drains. -/
def crossWaitKeysMode2 (task : Task) : Except SimError (List FlagKey) :=
  match flagIdOf task, task.lane with
  | .error failure, _ => .error failure
  | .ok flagId, .cube =>
    .ok (Lane.vectorLanes.map fun lane => .crossFlag task.coreId .v2c lane flagId)
  | .ok flagId, .vector0 => .ok [.crossFlag task.coreId .c2v .vector0 flagId]
  | .ok flagId, .vector1 => .ok [.crossFlag task.coreId .c2v .vector1 flagId]
  | .ok _, .control => reject task .crossLane

/-- `_collective_key`: the collective that a mode-0 or mode-1 task belongs to. -/
def collectiveKey (task : Task) (mode : CrossMode) : Except SimError CollectiveKey :=
  match laneKindOf task, flagIdOf task, mode with
  | .error failure, _, _ => .error failure
  | .ok _, .error failure, _ => .error failure
  | .ok kind, .ok flagId, .mode0 =>
    .ok { mode := .mode0, kind := kind, group := none, flagId := flagId }
  | .ok _, .ok flagId, .mode1 =>
    .ok { mode := .mode1, kind := .vector, group := some task.coreId, flagId := flagId }
  | .ok _, .ok _, .mode2 => reject task .crossMode

/-- `_collective_participants`: the lanes that a collective joins. -/
def collectiveParticipants (coreIds : List Nat) (key : CollectiveKey) : List Participant :=
  match key.mode, key.kind, key.group with
  | .mode0, .cube, _ => coreIds.map fun coreId => ⟨coreId, .cube⟩
  | .mode0, .vector, _ =>
    coreIds.flatMap fun coreId => Lane.vectorLanes.map fun lane => ⟨coreId, lane⟩
  | .mode1, .vector, some coreId => Lane.vectorLanes.map fun lane => ⟨coreId, lane⟩
  | _, _, _ => []

/-- `_sync_all_participants`: the lanes that a rendezvous of one scope joins. -/
def syncAllParticipants
    (coreIds : List Nat) :
    SyncScope → List Participant
  | .aic => coreIds.map fun coreId => ⟨coreId, .cube⟩
  | .aiv => coreIds.flatMap fun coreId => Lane.vectorLanes.map fun lane => ⟨coreId, lane⟩
  | .mix =>
    coreIds.flatMap fun coreId => (Lane.cube :: Lane.vectorLanes).map fun lane => ⟨coreId, lane⟩

/--
`_sync_all_task_participants`: an unscoped control-lane call stands for the three
hardware lanes of its core, every other call for its own lane.
-/
def syncAllTaskParticipants (task : Task) (scope : SyncScope) : List Participant :=
  match scope, task.lane with
  | .mix, .control => (Lane.cube :: Lane.vectorLanes).map fun lane => ⟨task.coreId, lane⟩
  | _, _ => [task.participant]

/-! ## Validation -/

/-- `_validate_lane_pipe`: the named pipe exists on the lane of the task. -/
def validateLanePipe (task : Task) (pipe : Pipe) : Except SimError Unit :=
  if pipe ∈ task.lane.allowedPipes then .ok () else reject task .lanePipe

/-- The source pipe of a set or wait, which must not be the scalar pipe. -/
def sourcePipeOf (task : Task) : Except SimError Pipe :=
  match task.metadata.srcPipe with
  | some (.pipe .s) => reject task .sourcePipe
  | some (.pipe pipe) => .ok pipe
  | _ => reject task .sourcePipe

/-- The destination pipe of a local set or wait. -/
def destinationPipeOf (task : Task) : Except SimError Pipe :=
  match task.metadata.dstPipe with
  | some (.pipe pipe) => .ok pipe
  | _ => reject task .destinationPipe

/-- Flag ids of cross flags lie in `[0, 15]`. -/
def validateCrossFlagId (task : Task) : Except SimError Unit :=
  match flagIdOf task with
  | .error failure => .error failure
  | .ok flagId => if flagId ≤ 15 then .ok () else reject task .crossFlagId

/-- Flag ids of local flags lie in `[0, 7]`. -/
def validateLocalFlagId (task : Task) : Except SimError Unit :=
  match task.metadata.flagId with
  | .value flagId =>
    if 0 ≤ flagId ∧ flagId ≤ 7 then .ok () else reject task .localFlagId
  | _ => reject task .localFlagId

/-- Mode 1 is reserved for vector lanes. -/
def validateCrossMode (task : Task) : Except SimError Unit :=
  match crossModeOf task, laneKindOf task with
  | .error failure, _ => .error failure
  | .ok _, .error failure => .error failure
  | .ok .mode1, .ok .cube => reject task .modeOneLane
  | .ok _, .ok _ => .ok ()

/-- `_validate_sync_task`: operand checks of one synchronization task. -/
def validateSyncTask (task : Task) : Except SimError Unit :=
  match task.operation with
  | .setFlag | .waitFlag => do
      validateLocalFlagId task
      let src ← sourcePipeOf task
      let dst ← destinationPipeOf task
      validateLanePipe task src
      validateLanePipe task dst
  | .setCrossFlag => do
      validateCrossFlagId task
      validateCrossMode task
      let src ← sourcePipeOf task
      validateLanePipe task src
  | .waitCrossFlag => do
      validateCrossFlagId task
      let _ ← laneKindOf task
  | .pipeBarrier =>
    match targetPipeOf task with
    | .other _ => reject task .unknownPipe
    | _ => .ok ()
  | _ => .ok ()

/-- Namespace and mode that a cross set declares for the waits of its flag. -/
def declaredWaitMode (task : Task) : Option (WaitModeKey × CrossMode) :=
  match task.operation, flagIdOf task, crossModeOf task with
  | .setCrossFlag, .ok flagId, .ok mode =>
    match crossTargetKind mode task with
    | .ok kind =>
      some
        ({ flagId := flagId
           kind := kind
           core := if mode = .mode0 then none else some task.coreId },
          mode)
    | .error _ => none
  | _, _, _ => none

/-- Modes declared for one namespace, without repetition. -/
def waitModes (tasks : List Task) (key : WaitModeKey) : List CrossMode :=
  ((tasks.filterMap declaredWaitMode).filterMap fun declared =>
    if declared.1 = key then some declared.2 else none).eraseDups

/-- Whether the namespace that a cross set declares names conflicting modes. -/
def ambiguousModes (tasks : List Task) (task : Task) : Bool :=
  match declaredWaitMode task with
  | none => false
  | some (key, mode) =>
    (waitModes tasks key).any (· ≠ mode) ||
      (key.core.isSome && (waitModes tasks { key with core := none }).any (· ≠ mode))

/-! ## Tables built by `reset` -/

/-- State of the table-building scan over the tasks of a program. -/
structure SyncTables where
  lastByResource : ResourceKey → Option TaskId := fun _ => none
  lastFence : Participant → Option TaskId := fun _ => none
  lastPipeFence : Participant × PipeName → Option TaskId := fun _ => none
  syncAllPhase : Participant → Nat := fun _ => 0
  pendingSyncAll : Participant → Option SyncAllKey := fun _ => none
  orderingDependencies : TaskId → List TaskId := fun _ => []
  barrierDependencies : TaskId → List TaskId := fun _ => []
  syncAllTaskPhase : TaskId → Option SyncAllKey := fun _ => none
  syncAllReleaseDependencies : TaskId → Option SyncAllKey := fun _ => none

/-- Last task on each pipe of a lane (`resources_by_lane`). -/
def SyncTables.resourcesByLane (tables : SyncTables) (lane : Participant) : List TaskId :=
  Pipe.all.filterMap fun pipe => tables.lastByResource ⟨lane.coreId, lane.lane, pipe⟩

/-- Last task on each pipe of each lane of a core (`resources_by_core`). -/
def SyncTables.resourcesByCore (tables : SyncTables) (coreId : Nat) : List TaskId :=
  Lane.all.flatMap fun lane => tables.resourcesByLane ⟨coreId, lane⟩

/-- Source pipe on which a set marker is queued. -/
def setSourcePipe (task : Task) : Option PipeName :=
  match task.operation with
  | .setFlag | .setCrossFlag => task.metadata.srcPipe
  | _ => none

/-- Tasks a marker must follow: lane fence, pipe fence and the tail of a set's source pipe. -/
def orderingOf (tables : SyncTables) (task : Task) : List TaskId :=
  ((tables.lastFence task.participant).toList ++
    (tables.lastPipeFence (task.participant, .pipe task.pipe)).toList ++
    (match setSourcePipe task with
      | some (.pipe pipe) => (tables.lastByResource ⟨task.coreId, task.lane, pipe⟩).toList
      | _ => [])).eraseDups

/-- Tasks that a full barrier drains; a control-lane barrier drains the whole core. -/
def fullBarrierDependencies (tables : SyncTables) (task : Task) : List TaskId :=
  if task.lane = .control then
    tables.resourcesByCore task.coreId
  else
    tables.resourcesByLane task.participant

/-- Tasks that a barrier or a `sync_all` drains before it may start. -/
def barrierOf (tables : SyncTables) (task : Task) : List TaskId :=
  match task.operation with
  | .barrierAll => fullBarrierDependencies tables task
  | .pipeBarrier =>
    match targetPipeOf task, targetLaneOf task with
    | .all, _ => fullBarrierDependencies tables task
    | .pipe pipe, .lane lane => (tables.lastByResource ⟨task.coreId, lane, pipe⟩).toList
    | _, _ => []
  | .syncAll => tables.resourcesByLane task.participant
  | _ => []

/-- Whether every later task of the lane must follow this task. -/
def isLaneFence (task : Task) : Bool :=
  match task.operation with
  | .waitCrossFlag | .barrierAll | .syncAll => true
  | .waitFlag => task.metadata.dstPipe = some (.pipe .s)
  | .pipeBarrier => targetPipeOf task = .all
  | _ => false

/-- The pipe whose later tasks must follow this task, when it fences a single pipe. -/
def fencedPipe (task : Task) : Option PipeName :=
  if isLaneFence task then
    none
  else
    match task.operation with
    | .waitFlag => task.metadata.dstPipe
    | .pipeBarrier => some (targetPipeOf task)
    | .setFlag | .setCrossFlag => task.metadata.srcPipe
    | _ => none

/-- Rendezvous of a `sync_all`: its scope and the common phase of its participants. -/
def syncAllKeyOf (tables : SyncTables) (task : Task) : Except SimError SyncAllKey :=
  match syncAllScope task with
  | .error failure => .error failure
  | .ok scope =>
    match (syncAllTaskParticipants task scope).map tables.syncAllPhase with
    | [] => reject task .mismatchedPhases
    | phase :: others =>
      if others.all (· = phase) then
        .ok ⟨scope, phase⟩
      else
        reject task .mismatchedPhases

/-- Table updates made for every task, before the rendezvous bookkeeping of `sync_all`. -/
def recordTask (tables : SyncTables) (task : Task) : SyncTables :=
  { tables with
    syncAllReleaseDependencies :=
      Function.update tables.syncAllReleaseDependencies task.taskId
        (tables.pendingSyncAll task.participant)
    orderingDependencies :=
      Function.update tables.orderingDependencies task.taskId (orderingOf tables task)
    barrierDependencies :=
      Function.update tables.barrierDependencies task.taskId (barrierOf tables task)
    lastByResource := Function.update tables.lastByResource task.resource (some task.taskId)
    lastFence :=
      if isLaneFence task then
        Function.update tables.lastFence task.participant (some task.taskId)
      else
        tables.lastFence
    lastPipeFence :=
      match fencedPipe task with
      | some pipe =>
        Function.update tables.lastPipeFence (task.participant, pipe) (some task.taskId)
      | none => tables.lastPipeFence }

/-- Rendezvous bookkeeping of one `sync_all` with a known key. -/
def recordSyncAll (tables : SyncTables) (task : Task) (key : SyncAllKey) : SyncTables :=
  { tables with
    syncAllTaskPhase := Function.update tables.syncAllTaskPhase task.taskId (some key)
    syncAllPhase :=
      fun participant =>
        if participant ∈ syncAllTaskParticipants task key.scope then
          tables.syncAllPhase participant + 1
        else
          tables.syncAllPhase participant
    pendingSyncAll := Function.update tables.pendingSyncAll task.participant (some key) }

/-- One iteration of the table-building loop of `reset`. -/
def resetStep (tables : SyncTables) (task : Task) : Except SimError SyncTables :=
  if task.operation = .syncAll then
    match syncAllKeyOf tables task with
    | .error failure => .error failure
    | .ok key => .ok (recordSyncAll (recordTask tables task) task key)
  else
    .ok (recordTask tables task)

/-- The table-building loop of `reset`. -/
def buildTables :
    SyncTables → List Task → Except SimError SyncTables
  | tables, [] => .ok tables
  | tables, task :: rest =>
    match resetStep tables task with
    | .error failure => .error failure
    | .ok next => buildTables next rest

/-! ## Run state -/

/-- Credits, collective phases and arrivals, which change during a run. -/
structure SyncState where
  tokens : FlagKey → List Credit := fun _ => []
  collectiveReady : CollectiveKey × Participant → List Credit := fun _ => []
  collectiveWaitPhase : CollectiveKey × Participant → Nat := fun _ => 0
  syncAllArrivals : SyncAllKey × Participant → Option Credit := fun _ => none

/-- The model after `reset`: fixed tables and the changing state. -/
structure FlagBarrierModel where
  config : SyncConfig
  tasks : List Task
  coreIds : List Nat
  crossWaitModes : WaitModeKey → Option CrossMode
  tables : SyncTables
  state : SyncState

/-- Check every task, then report the first cross set whose namespace is ambiguous. -/
def validateProgram (tasks : List Task) : Except SimError Unit := do
  tasks.forM validateSyncTask
  match tasks.find? (ambiguousModes tasks) with
  | some task => reject task .ambiguousModes
  | none => .ok ()

/-- `reset`: validate a program and build the tables of its run. -/
def reset (config : SyncConfig) (program : KernelProgram) : Except SimError FlagBarrierModel :=
  match validateProgram program.tasks with
  | .error failure => .error failure
  | .ok () =>
    match buildTables {} program.tasks with
    | .error failure => .error failure
    | .ok tables =>
      .ok
        { config := config
          tasks := program.tasks
          coreIds := (program.cores.map CoreProgram.coreId).insertionSort (· ≤ ·)
          crossWaitModes := fun key => (waitModes program.tasks key).head?
          tables := tables
          state := {} }

namespace FlagBarrierModel

/-- `_cross_wait_mode`: the mode that the sets of a wait's flag declared. -/
def crossWaitMode (model : FlagBarrierModel) (task : Task) : Except SimError (Option CrossMode) :=
  match flagIdOf task, laneKindOf task with
  | .error failure, _ => .error failure
  | .ok _, .error failure => .error failure
  | .ok flagId, .ok kind =>
    match model.crossWaitModes ⟨flagId, kind, some task.coreId⟩,
      model.crossWaitModes ⟨flagId, kind, none⟩ with
    | some inCore, some globally =>
      if inCore = globally then
        .ok (some inCore)
      else
        reject task .ambiguousModes
    | some inCore, none => .ok (some inCore)
    | none, globally => .ok globally

/-- Lanes of all cores, in core order. -/
def participants (model : FlagBarrierModel) : List Participant :=
  model.coreIds.flatMap fun coreId => Lane.all.map fun lane => ⟨coreId, lane⟩

/-- Arrivals of a rendezvous, listed by participant. -/
def arrivals (model : FlagBarrierModel) (key : SyncAllKey) : List Credit :=
  model.participants.filterMap fun participant => model.state.syncAllArrivals (key, participant)

/-- Decision for a task that a `sync_all` of its lane releases. -/
def evaluateRelease (model : FlagBarrierModel) (key : SyncAllKey) (orderingCycle : Nat) :
    SyncDecision :=
  if (syncAllParticipants model.coreIds key.scope).any
      (fun participant => (model.state.syncAllArrivals (key, participant)).isNone) then
    .blockedBy .syncAll
  else
    { readyCycle := some (max orderingCycle (((model.arrivals key).map Credit.cycle).foldr max 0))
      reason := some .syncAll
      producerTaskIds := ((model.arrivals key).map Credit.taskId).eraseDups }

/-- Depth check of a local set in blocking mode. -/
def evaluateLocalSet (model : FlagBarrierModel) (task : Task) (orderingCycle : Nat) :
    Except SimError SyncDecision :=
  if model.config.flagBlocking then
    match localFlagKey task with
    | .error failure => .error failure
    | .ok key =>
      if model.config.localFlagDepth ≤ (model.state.tokens key).length then
        .ok (.blockedBy .localFlagDepth)
      else
        .ok { readyCycle := some orderingCycle }
  else
    .ok { readyCycle := some orderingCycle }

/-- Depth check of a mode-2 cross set in blocking mode. -/
def evaluateCrossSet (model : FlagBarrierModel) (task : Task) (orderingCycle : Nat) :
    Except SimError SyncDecision :=
  if model.config.flagBlocking then
    match crossModeOf task with
    | .error failure => .error failure
    | .ok .mode2 =>
      match crossSetKeysMode2 task with
      | .error failure => .error failure
      | .ok keys =>
        if keys.any (fun key => model.config.crossFlagDepth ≤ (model.state.tokens key).length) then
          .ok (.blockedBy .crossFlagDepth)
        else
          .ok { readyCycle := some orderingCycle }
    | .ok _ => .ok { readyCycle := some orderingCycle }
  else
    .ok { readyCycle := some orderingCycle }

/-- Decision for a wait on credit queues: every queue must hold a credit. -/
def evaluateCredits (model : FlagBarrierModel) (keys : List FlagKey) (reason : SyncReason)
    (orderingCycle : Nat) : SyncDecision :=
  if keys.any (fun key => (model.state.tokens key).isEmpty) then
    .blockedBy reason
  else
    let heads := keys.filterMap fun key => (model.state.tokens key).head?
    { readyCycle := some (max orderingCycle ((heads.map Credit.cycle).foldr max 0))
      reason := some reason
      producerTaskIds := heads.map Credit.taskId }

/-- `_evaluate_collective_wait`: every participant must have produced the waiter's phase. -/
def evaluateCollectiveWait (model : FlagBarrierModel) (task : Task) (mode : CrossMode)
    (orderingCycle : Nat) : Except SimError SyncDecision :=
  match collectiveKey task mode with
  | .error failure => .error failure
  | .ok key =>
    let phase := model.state.collectiveWaitPhase (key, task.participant)
    let expected := collectiveParticipants model.coreIds key
    if expected.any (fun participant =>
        (model.state.collectiveReady (key, participant)).length ≤ phase) then
      .ok (.blockedBy .crossFlag)
    else
      let ready := expected.filterMap fun participant =>
        (model.state.collectiveReady (key, participant))[phase]?
      .ok
        { readyCycle := some (max orderingCycle ((ready.map Credit.cycle).foldr max 0))
          reason := some .crossFlag
          producerTaskIds := ready.map Credit.taskId }

/-- Decision for a cross wait, by the mode its flag was set with. -/
def evaluateCrossWait (model : FlagBarrierModel) (task : Task) (orderingCycle : Nat) :
    Except SimError SyncDecision :=
  match model.crossWaitMode task with
  | .error failure => .error failure
  | .ok none => .ok (.blockedBy .crossFlag)
  | .ok (some .mode2) =>
    match crossWaitKeysMode2 task with
    | .error failure => .error failure
    | .ok keys => .ok (model.evaluateCredits keys .crossFlag orderingCycle)
  | .ok (some mode) => model.evaluateCollectiveWait task mode orderingCycle

/-- Decision for a barrier: the tasks it drains must be completed. -/
def evaluateBarrier (model : FlagBarrierModel) (task : Task) (completed : Completed)
    (orderingCycle : Nat) : SyncDecision :=
  let required := model.tables.barrierDependencies task.taskId
  if anyMissing completed required then
    .blockedBy .barrier
  else
    { readyCycle := some (max (maxEnd completed required) orderingCycle)
      reason := some .barrier }

/-- Decision of a task that no `sync_all` of its lane releases, by operation. -/
def evaluateOperation (model : FlagBarrierModel) (task : Task) (completed : Completed)
    (orderingCycle : Nat) : Except SimError SyncDecision :=
  match task.operation with
  | .setFlag => model.evaluateLocalSet task orderingCycle
  | .setCrossFlag => model.evaluateCrossSet task orderingCycle
  | .waitFlag =>
    match localFlagKey task with
    | .error failure => .error failure
    | .ok key => .ok (model.evaluateCredits [key] .localFlag orderingCycle)
  | .waitCrossFlag => model.evaluateCrossWait task orderingCycle
  | .barrierAll | .pipeBarrier | .syncAll =>
    .ok (model.evaluateBarrier task completed orderingCycle)
  | .other _ => .ok { readyCycle := some orderingCycle }

/--
`evaluate`: the current synchronization constraint of a task.  A task that follows
a `sync_all` of its lane is answered by the release of that rendezvous alone.
-/
def evaluate (model : FlagBarrierModel) (task : Task) (completed : Completed) :
    Except SimError SyncDecision :=
  let ordering := model.tables.orderingDependencies task.taskId
  if anyMissing completed ordering then
    .ok (.blockedBy .synchronizationOrdering)
  else
    let orderingCycle := maxEnd completed ordering
    match model.tables.syncAllReleaseDependencies task.taskId with
    | some key => .ok (model.evaluateRelease key orderingCycle)
    | none => model.evaluateOperation task completed orderingCycle

/-- Replace the changing part of the model. -/
def withState (model : FlagBarrierModel) (state : SyncState) : FlagBarrierModel :=
  { model with state := state }

/-- Append a credit to one queue; a mode-2 queue rejects it at the credit limit. -/
def pushCredit (config : SyncConfig) (task : Task) (limited : Bool) (credit : Credit)
    (state : SyncState) (key : FlagKey) : Except SimError SyncState :=
  if limited && !config.flagBlocking &&
      config.creditLimit.any (· ≤ (state.tokens key).length) then
    reject task (.overflowedCredits key)
  else
    .ok { state with
      tokens := Function.update state.tokens key (state.tokens key ++ [credit]) }

/-- Consume the oldest credit of one queue. -/
def popCredit (task : Task) (state : SyncState) (key : FlagKey) : Except SimError SyncState :=
  match state.tokens key with
  | [] => reject task (.missingCredit key)
  | _ :: rest => .ok { state with tokens := Function.update state.tokens key rest }

/-- Apply a queue operation to each key in turn. -/
def forKeys
    (operation : SyncState → FlagKey → Except SimError SyncState) :
    SyncState → List FlagKey → Except SimError SyncState
  | state, [] => .ok state
  | state, key :: rest =>
    match operation state key with
    | .error failure => .error failure
    | .ok next => forKeys operation next rest

/-- `_on_collective_set`: append a phase credit for the producing lane. -/
def onCollectiveSet (model : FlagBarrierModel) (task : Task) (mode : CrossMode)
    (credit : Credit) : Except SimError SyncState :=
  match collectiveKey task mode with
  | .error failure => .error failure
  | .ok key =>
    let expected := collectiveParticipants model.coreIds key
    if task.participant ∉ expected then
      reject task .notParticipant
    else
      let ready := model.state.collectiveReady (key, task.participant)
      let minimumWaitPhase :=
        ((expected.map fun participant =>
          model.state.collectiveWaitPhase (key, participant)).min?).getD 0
      if model.config.phaseLimit.any (· ≤ ready.length - minimumWaitPhase) then
        reject task (.overflowedPhases key)
      else
        .ok { model.state with
          collectiveReady :=
            Function.update model.state.collectiveReady (key, task.participant)
              (ready ++ [credit]) }

/-- State update of a scheduled cross set. -/
def onCrossSet (model : FlagBarrierModel) (task : Task) (credit : Credit) :
    Except SimError SyncState :=
  match crossModeOf task with
  | .error failure => .error failure
  | .ok .mode2 =>
    match crossSetKeysMode2 task with
    | .error failure => .error failure
    | .ok keys => forKeys (pushCredit model.config task true credit) model.state keys
  | .ok mode => model.onCollectiveSet task mode credit

/-- State update of a scheduled cross wait. -/
def onCrossWait (model : FlagBarrierModel) (task : Task) : Except SimError SyncState :=
  match model.crossWaitMode task with
  | .error failure => .error failure
  | .ok none => reject task .noModeDeclaration
  | .ok (some .mode2) =>
    match crossWaitKeysMode2 task with
    | .error failure => .error failure
    | .ok keys => forKeys (popCredit task) model.state keys
  | .ok (some mode) =>
    match collectiveKey task mode with
    | .error failure => .error failure
    | .ok key =>
      .ok { model.state with
        collectiveWaitPhase :=
          Function.update model.state.collectiveWaitPhase (key, task.participant)
            (model.state.collectiveWaitPhase (key, task.participant) + 1) }

/-- State update of a scheduled `sync_all`: register its participants. -/
def onSyncAll (model : FlagBarrierModel) (task : Task) (credit : Credit) :
    Except SimError SyncState :=
  match model.tables.syncAllTaskPhase task.taskId with
  | none => reject task .syncScope
  | some key =>
    let joining := syncAllTaskParticipants task key.scope
    if joining.any (fun participant => (model.state.syncAllArrivals (key, participant)).isSome) then
      reject task .duplicateParticipant
    else
      .ok { model.state with
        syncAllArrivals :=
          fun entry =>
            if entry.1 = key ∧ entry.2 ∈ joining then
              some credit
            else
              model.state.syncAllArrivals entry }

/-- `on_scheduled`: update the synchronization state after a task was placed. -/
def onScheduled (model : FlagBarrierModel) (task : Task) (record : ExecutionRecord) :
    Except SimError SyncState :=
  let credit : Credit := ⟨record.endCycle, task.taskId⟩
  match task.operation with
  | .setFlag =>
    match localFlagKey task with
    | .error failure => .error failure
    | .ok key => pushCredit model.config task false credit model.state key
  | .setCrossFlag => model.onCrossSet task credit
  | .waitFlag =>
    match localFlagKey task with
    | .error failure => .error failure
    | .ok key => popCredit task model.state key
  | .waitCrossFlag => model.onCrossWait task
  | .syncAll => model.onSyncAll task credit
  | _ => .ok model.state

/-! ## Flag accounting at the kernel boundary -/

/-- Queues whose remaining credits the audit counts for one wait task. -/
def auditedCrossKeys (model : FlagBarrierModel) (task : Task) : List FlagKey :=
  match task.operation, model.crossWaitMode task, crossWaitKeysMode2 task with
  | .waitCrossFlag, .ok (some .mode2), .ok keys => keys
  | _, _, _ => []

/-- Collective and participant that the audit counts for one wait task. -/
def auditedCollective (model : FlagBarrierModel) (task : Task) : Option CollectiveKey :=
  match task.operation, model.crossWaitMode task with
  | .waitCrossFlag, .ok (some mode) => (collectiveKey task mode).toOption
  | _, _ => none

/-- Whether a set task left credits behind that the audit counts. -/
def residualCredits (model : FlagBarrierModel) (task : Task) : Bool :=
  match task.operation, localFlagKey task, crossModeOf task, crossSetKeysMode2 task with
  | .setFlag, .ok key, _, _ => !(model.state.tokens key).isEmpty
  | .setCrossFlag, _, .ok .mode2, .ok keys =>
    keys.any fun key =>
      !(model.state.tokens key).isEmpty && (model.tasks.flatMap model.auditedCrossKeys).contains key
  | _, _, _, _ => false

/-- Whether a waiting lane consumed another number of phases than it produced. -/
def residualPhases (model : FlagBarrierModel) (task : Task) : Bool :=
  match model.auditedCollective task with
  | some key =>
    (model.tasks.any fun producer =>
      producer.operation = .setCrossFlag &&
        (match crossModeOf producer with
          | .ok mode => (collectiveKey producer mode).toOption = some key
          | .error _ => false)) &&
      (collectiveParticipants model.coreIds key).contains task.participant &&
      (model.state.collectiveReady (key, task.participant)).length ≠
        model.state.collectiveWaitPhase (key, task.participant)
  | none => false

/-- Whether a rendezvous that was entered is missing a participant. -/
def residualArrivals (model : FlagBarrierModel) (task : Task) : Bool :=
  match model.tables.syncAllTaskPhase task.taskId with
  | some key =>
    (syncAllParticipants model.coreIds key.scope).any fun participant =>
      (model.state.syncAllArrivals (key, participant)).isNone
  | none => false

/--
`audit_flag_balance`: whether credits, phases or arrivals are left at a completed
kernel boundary.  The dictionaries of the source then hold exactly the keys of the
program's own sets and `sync_all`s, so the audit enumerates the tasks.
-/
def auditFlagBalance (model : FlagBarrierModel) : Bool :=
  model.tasks.any fun task =>
    model.residualCredits task || model.residualPhases task || model.residualArrivals task

end FlagBarrierModel

end TilelangAscend.Simulator
