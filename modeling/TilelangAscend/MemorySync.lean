import TilelangAscend.EventIndex
import TilelangAscend.LaneFences
import TilelangAscend.ScheduleValidity

namespace TilelangAscend.Simulator

open EventIndex

/-!
# Static validation of memory dependencies

`validate_memory_synchronization` accepts an inferred memory edge between two pipes
of a lane when a UnitFlag predecessor, a full barrier or a chain of local flags lies
between producer and consumer.  The second half compares the barrier rule with the
schedule: a barrier orders the edge when it stands on the edge's own lane and no
`sync_all` of that lane has taken over the decision of `evaluate`.
-/

/-- `_is_full_barrier`: whether one task establishes full pipe visibility. -/
def isFullBarrier (task : Task) : Bool :=
  match task.operation with
  | .barrierAll => true
  | .pipeBarrier => targetPipeOf task = .all
  | _ => false

/-- `_is_local_flag_event`: whether a task sets or waits for a local flag. -/
def isLocalFlagEvent (task : Task) : Bool :=
  match task.operation with
  | .setFlag | .waitFlag => true
  | _ => false

/-- `_has_full_barrier_between`: whether a full barrier lies in a half-open interval. -/
def hasFullBarrierBetween (indices : List Nat) (start stop : Nat) : Bool :=
  match indices[bisectLeft indices start]? with
  | some index => index < stop
  | none => false

/-- `_has_full_barrier`: whether a slice contains a full barrier. -/
def hasFullBarrier (tasks : List Task) : Bool :=
  tasks.any isFullBarrier

/-- Pipes and flag id by which the validator pairs sets with waits. -/
structure FlagSignature where
  src : Option PipeName
  dst : Option PipeName
  flagId : MetadataInt
  deriving Repr, DecidableEq

/-- The signature of a local set or wait. -/
def flagSignature (task : Task) : FlagSignature where
  src := task.metadata.srcPipe
  dst := task.metadata.dstPipe
  flagId := task.metadata.flagId

/--
The loop of `_has_local_flag_fence`: pipes whose later work follows the producer, and
for every pending signature whether its set followed the producer.
-/
def fenceScan
    (consumer : Task) :
    List (Option PipeName) → (FlagSignature → Option Bool) → List Task → Bool
  | _, _, [] => false
  | reachable, pending, task :: rest =>
    if task.participant = consumer.participant then
      match task.operation with
      | .setFlag =>
        fenceScan consumer reachable
          (Function.update pending (flagSignature task) (some (task.metadata.srcPipe ∈ reachable)))
          rest
      | .waitFlag =>
        match pending (flagSignature task) with
        | none => fenceScan consumer reachable pending rest
        | some sourceWasReachable =>
          let extended :=
            if sourceWasReachable then
              task.metadata.dstPipe :: reachable
            else
              reachable
          if some (.pipe consumer.pipe) ∈ extended then
            true
          else
            fenceScan consumer extended (Function.update pending (flagSignature task) none) rest
      | _ => fenceScan consumer reachable pending rest
    else
      fenceScan consumer reachable pending rest

/-- `_has_local_flag_fence`: whether flags in a slice connect producer and consumer. -/
def hasLocalFlagFence (tasks : List Task) (producer consumer : Task) : Bool :=
  fenceScan consumer [some (.pipe producer.pipe)] (fun _ => none) tasks

/-- `_has_local_flag_fence_between`: the same over the indexed events of an interval. -/
def hasLocalFlagFenceBetween (flagEvents : List (Nat × Task)) (start stop : Nat)
    (producer consumer : Task) : Bool :=
  let indices := flagEvents.map Prod.fst
  hasLocalFlagFence
    (((flagEvents.take (bisectLeft indices stop)).drop (bisectLeft indices start)).map
      Prod.snd)
    producer consumer

/-- Position and task of an identifier in the tasks of a core. -/
def indexedTask? (tasks : List Task) (taskId : TaskId) : Option (Task × Nat) :=
  tasks.zipIdx.find? fun entry => entry.1.taskId = taskId

/-- Whether a UnitFlag predecessor of the consumer stands on the producer's pipe after it. -/
def hasUnitFlagFence (tasks : List Task) (producer : Task) (producerIndex : Nat)
    (consumer : Task) (consumerIndex : Nat) : Bool :=
  consumer.metadata.unitFlagDependencies.any fun predecessor =>
    match indexedTask? tasks predecessor with
    | some (task, index) =>
      task.pipe = producer.pipe ∧ task.lane = producer.lane ∧
        producerIndex ≤ index ∧ index < consumerIndex
    | none => false

/-- One missing pipe synchronization. -/
structure HazardDiagnostic where
  coreId : Nat
  producerTask : TaskId
  consumerTask : TaskId
  producerPipe : Pipe
  consumerPipe : Pipe
  deriving Repr, DecidableEq

/-- The diagnostic of one dependency of a consumer, when no fence covers it. -/
def edgeDiagnostic (tasks : List Task) (consumerIndex : Nat) (consumer : Task)
    (dependency : TaskId) : Option HazardDiagnostic :=
  match indexedTask? tasks dependency with
  | none => none
  | some (producer, producerIndex) =>
    if producer.lane ≠ consumer.lane ∨ producer.pipe = consumer.pipe then
      none
    else if consumerIndex ≤ producerIndex then
      none
    else if hasUnitFlagFence tasks producer producerIndex consumer consumerIndex then
      none
    else if hasFullBarrierBetween ((events isFullBarrier 0 tasks).map Prod.fst)
          (producerIndex + 1) consumerIndex ||
        hasLocalFlagFenceBetween (events isLocalFlagEvent 0 tasks)
          (producerIndex + 1) consumerIndex producer consumer then
      none
    else
      some
        { coreId := consumer.coreId
          producerTask := producer.taskId
          consumerTask := consumer.taskId
          producerPipe := producer.pipe
          consumerPipe := consumer.pipe }

/-- Diagnostics of one core in report order. -/
def coreDiagnostics (dependencyKey : TaskMetadata → List TaskId) (core : CoreProgram) :
    List HazardDiagnostic :=
  core.tasks.zipIdx.flatMap fun entry =>
    (dependencyKey entry.1.metadata).filterMap
      (edgeDiagnostic core.tasks entry.2 entry.1)

/--
`validate_memory_synchronization`: the diagnostics of a program under a reporting
policy; the error policy raises the first one.
-/
def validateMemorySynchronization (program : KernelProgram) (hazardCheck : CheckPolicy := .error)
    (dependencyKey : TaskMetadata → List TaskId := TaskMetadata.memoryDependencies) :
    Except HazardDiagnostic (List HazardDiagnostic) :=
  match hazardCheck, program.cores.flatMap (coreDiagnostics dependencyKey) with
  | .off, _ => .ok []
  | .warn, diagnostics => .ok diagnostics
  | .error, [] => .ok []
  | .error, first :: _ => .error first

/-! ## Memory edges -/

/-- An inferred edge that the validator looks at: one lane, two pipes, program order. -/
structure MemoryEdge (core : CoreProgram) where
  before : List Task
  producer : Task
  between : List Task
  consumer : Task
  after : List Task
  shape : core.tasks = before ++ producer :: (between ++ consumer :: after)
  listed : producer.taskId ∈ consumer.metadata.memoryDependencies
  sameLane : producer.lane = consumer.lane
  pipesDiffer : producer.pipe ≠ consumer.pipe

namespace MemoryEdge

variable {core : CoreProgram}

/-- Whether the validator finds a full barrier between producer and consumer. -/
def fullBarrierAccepts (edge : MemoryEdge core) : Bool :=
  hasFullBarrierBetween ((events isFullBarrier 0 core.tasks).map Prod.fst)
    (edge.before.length + 1) (edge.before.length + 1 + edge.between.length)

/-- Whether the validator finds a chain of local flags between producer and consumer. -/
def localFlagAccepts (edge : MemoryEdge core) : Bool :=
  hasLocalFlagFenceBetween (events isLocalFlagEvent 0 core.tasks)
    (edge.before.length + 1) (edge.before.length + 1 + edge.between.length)
    edge.producer edge.consumer

/-- In a schedule, the consumer starts no earlier than the producer ends. -/
def Ordered (edge : MemoryEdge core) (result : ScheduleResult) : Prop :=
  result.EndsBefore edge.producer.taskId edge.consumer.taskId

section

variable (edge : MemoryEdge core)
include edge

theorem producer_core : edge.producer.coreId = core.coreId :=
  core.tasksOwned edge.producer (by rw [edge.shape]; simp)

theorem consumer_core : edge.consumer.coreId = core.coreId :=
  core.tasksOwned edge.consumer (by rw [edge.shape]; simp)

theorem participant_eq : edge.consumer.participant = edge.producer.participant := by
  simp [Task.participant, edge.producer_core, edge.consumer_core, edge.sameLane]

theorem localFlagAccepts_eq :
    edge.localFlagAccepts =
      hasLocalFlagFence (edge.between.filter isLocalFlagEvent) edge.producer edge.consumer := by
  have window :=
    events_window isLocalFlagEvent (edge.before ++ [edge.producer]) edge.between
      (edge.consumer :: edge.after)
  have tasksShape :
      edge.before ++ [edge.producer] ++ (edge.between ++ edge.consumer :: edge.after) =
        core.tasks := by
    rw [edge.shape]
    simp
  rw [tasksShape, List.length_append, List.length_singleton] at window
  simp only [localFlagAccepts, hasLocalFlagFenceBetween, window]

end

end MemoryEdge

theorem KernelProgram.core_shape (program : KernelProgram) {core : CoreProgram}
    (member : core ∈ program.cores) :
    ∃ left right,
      program.tasks = left ++ (core.tasks ++ right) ∧ (∀ task ∈ left, task.coreId ≠ core.coreId) ∧
        ∀ task ∈ right, task.coreId ≠ core.coreId := by
  obtain ⟨earlier, later, coresShape⟩ := List.mem_iff_append.mp member
  have unique := program.coresUnique
  rw [coresShape, List.map_append, List.map_cons, List.nodup_append] at unique
  obtain ⟨_, laterUnique, apart⟩ := unique
  refine ⟨programTasks earlier, programTasks later, ?_, ?_, ?_⟩
  · simp [KernelProgram.tasks, programTasks, coresShape]
  · intro task isTask same
    obtain ⟨other, otherMember, owned⟩ := List.mem_flatMap.mp isTask
    refine apart other.coreId (List.mem_map_of_mem otherMember) core.coreId (by simp) ?_
    rw [← other.tasksOwned task owned, same]
  · intro task isTask same
    obtain ⟨other, otherMember, owned⟩ := List.mem_flatMap.mp isTask
    refine (List.nodup_cons.mp laterUnique).1 ?_
    rw [← same, other.tasksOwned task owned]
    exact List.mem_map_of_mem otherMember

/-! ## Barriers against the schedule -/

/-- A fence of the edge's own lane that waits for the producer lies before the consumer. -/
def MemoryEdge.FencedOnLane {core : CoreProgram} (edge : MemoryEdge core) : Prop :=
  FollowedByFence edge.before edge.producer edge.between

section BarrierFences

variable {syncConfig : SyncConfig} {config : SimulatorConfig} {program : KernelProgram}
  {log : List Task} {state : RunState FlagBarrierModel}

theorem MemoryEdge.program_shape {core : CoreProgram} (edge : MemoryEdge core)
    (member : core ∈ program.cores) :
    ∃ left right,
      program.tasks =
          (left ++ edge.before) ++
            edge.producer :: (edge.between ++ edge.consumer :: (edge.after ++ right)) ∧
        ∀ task ∈ left, task.participant ≠ edge.producer.participant := by
  obtain ⟨left, right, tasksShape, leftOther, _⟩ := program.core_shape member
  refine ⟨left, right, by rw [tasksShape, edge.shape]; simp, ?_⟩
  intro task inLeft same
  refine leftOther task inLeft ?_
  rw [← edge.producer_core]
  exact congrArg Participant.coreId same

theorem MemoryEdge.fenced_endsBefore {core : CoreProgram} (edge : MemoryEdge core)
    (member : core ∈ program.cores)
    (fired : Fires (flagBarrierSynchronizationModel syncConfig) config program log state)
    (fenced : edge.FencedOnLane) :
    EndsBefore state.completed edge.producer.taskId edge.consumer.taskId := by
  obtain ⟨left, right, shape, leftOther⟩ := edge.program_shape member
  have followed : FollowedByFence (left ++ edge.before) edge.producer edge.between := by
    obtain ⟨older, fence, newer, betweenShape, onLane, waits⟩ := fenced
    refine ⟨older, fence, newer, betweenShape, onLane, waits.imp_right ?_⟩
    rintro ⟨drains, unreleased⟩
    refine ⟨drains, ?_⟩
    intro other otherMember
    rw [List.append_assoc] at otherMember
    rcases List.mem_append.mp otherMember with inLeft | inCore
    · simp [isSyncAllOn, leftOther other inLeft]
    · exact unreleased other inCore
  obtain ⟨fence, inBetween, onLane, producerFence⟩ := fired.followed_endsBefore shape followed
  have consumerShape :
      program.tasks =
        (left ++ edge.before ++ edge.producer :: edge.between) ++
          edge.consumer :: (edge.after ++ right) := by
    rw [shape]
    simp
  have fenceConsumer : EndsBefore state.completed fence.taskId edge.consumer.taskId := by
    refine fired.fence_endsBefore consumerShape (by simp [inBetween]) ?_
    rw [edge.participant_eq]
    exact onLane
  exact fired.endsBefore_trans producerFence fenceConsumer

theorem MemoryEdge.consumer_isTask {core : CoreProgram} (edge : MemoryEdge core)
    (member : core ∈ program.cores) : edge.consumer ∈ program.tasks :=
  List.mem_flatMap.mpr ⟨core, member, by rw [edge.shape]; simp⟩

end BarrierFences

/--
A memory edge that the validator accepts for a full barrier is ordered in every
completed schedule, provided that a fence of the edge's own lane follows the producer.
-/
theorem barrier_fence_orders_edge
    (config : SimulatorConfig)
    (program : KernelProgram)
    (result : ScheduleResult)
    (completes : run (flagBarrierSynchronizationModel {}) config program = .ok result)
    (core : CoreProgram)
    (member : core ∈ program.cores)
    (edge : MemoryEdge core)
    (_accepted : edge.fullBarrierAccepts = true)
    (fenced : edge.FencedOnLane) :
    edge.Ordered result := by
  obtain ⟨log, state, fired, complete, rfl⟩ := run_fires completes
  exact fired.result_endsBefore complete (edge.consumer_isTask member)
    (edge.fenced_endsBefore member fired fenced)

/-- A load, a barrier of the control lane and a matrix task that reads the load. -/
def controlBarrierCore : CoreProgram where
  coreId := 0
  tasks :=
    [{ taskId := "load", operation := .other "copy", coreId := 0
       lane := .cube, pipe := .mte2, durationCycles := 100 },
     { taskId := "barrier", operation := .barrierAll, coreId := 0
       lane := .control, pipe := .s, durationCycles := 1 },
     { taskId := "mma", operation := .other "mma", coreId := 0
       lane := .cube, pipe := .m, durationCycles := 10
       dependencies := ["load"]
       metadata := { memoryDependencies := ["load"] } }]

/-- The edge from the load to the matrix task across the control-lane barrier. -/
def controlBarrierEdge : MemoryEdge controlBarrierCore where
  before := []
  producer := controlBarrierCore.tasks[0]
  between := [controlBarrierCore.tasks[1]]
  consumer := controlBarrierCore.tasks[2]
  after := []
  shape := rfl
  listed := by decide
  sameLane := rfl
  pipesDiffer := by decide

/-- The validator counts the control-lane barrier, the schedule does not. -/
theorem control_barrier_leaves_edge_unordered :
    ¬ ∀ (config : SimulatorConfig) (program : KernelProgram) (result : ScheduleResult),
        run (flagBarrierSynchronizationModel {}) config program = .ok result →
        ∀ core ∈ program.cores,
          ∀ edge : MemoryEdge core, edge.fullBarrierAccepts = true → edge.Ordered result := by
  intro sound
  have cycles :
      (run (flagBarrierSynchronizationModel {}) {}
          { cores := [controlBarrierCore] }).toOption.map
        (fun result => (result.interval? "load", result.interval? "mma")) =
      some (some (0, 100), some (0, 10)) := by
    decide +kernel
  obtain ⟨result, completes, intervals⟩ := ok_of_observed cycles
  obtain ⟨loadRecord, mmaRecord, loadDone, mmaDone, ordered⟩ :=
    sound {} _ result completes controlBarrierCore (by simp) controlBarrierEdge (by decide +kernel)
  have loadIs : result.operation? "load" = some loadRecord := loadDone
  have mmaIs : result.operation? "mma" = some mmaRecord := mmaDone
  simp only [ScheduleResult.interval?, loadIs, mmaIs, Option.map_some, Prod.mk.injEq,
    Option.some.injEq] at intervals
  omega

/-- A load, a barrier of its own lane and a matrix task that reads the load. -/
def cubeBarrierCore : CoreProgram where
  coreId := 0
  tasks :=
    [{ taskId := "load", operation := .other "copy", coreId := 0
       lane := .cube, pipe := .mte2, durationCycles := 100 },
     { taskId := "barrier", operation := .barrierAll, coreId := 0
       lane := .cube, pipe := .s, durationCycles := 1 },
     { taskId := "mma", operation := .other "mma", coreId := 0
       lane := .cube, pipe := .m, durationCycles := 10
       dependencies := ["load"]
       metadata := { memoryDependencies := ["load"] } }]

/-- The edge from the load to the matrix task across the barrier of their lane. -/
def cubeBarrierEdge : MemoryEdge cubeBarrierCore where
  before := []
  producer := cubeBarrierCore.tasks[0]
  between := [cubeBarrierCore.tasks[1]]
  consumer := cubeBarrierCore.tasks[2]
  after := []
  shape := rfl
  listed := by decide
  sameLane := rfl
  pipesDiffer := by decide

/-- The barrier of the cube lane makes the matrix task wait for the load. -/
theorem cube_barrier_orders_edge :
    ∃ result,
      run (flagBarrierSynchronizationModel {}) {} { cores := [cubeBarrierCore] } = .ok result ∧
        result.interval? "mma" = some (101, 111) ∧
        cubeBarrierEdge.fullBarrierAccepts = true ∧
        cubeBarrierEdge.Ordered result := by
  have cycles :
      (run (flagBarrierSynchronizationModel {}) {}
          { cores := [cubeBarrierCore] }).toOption.map
        (fun result => result.interval? "mma") =
      some (some (101, 111)) := by
    decide +kernel
  obtain ⟨result, completes, interval⟩ := ok_of_observed cycles
  have accepted : cubeBarrierEdge.fullBarrierAccepts = true := by
    decide +kernel
  refine ⟨result, completes, interval, accepted, ?_⟩
  refine barrier_fence_orders_edge {} _ result completes cubeBarrierCore (by simp)
    cubeBarrierEdge accepted ⟨[], cubeBarrierCore.tasks[1], [], rfl, by decide, Or.inr ?_⟩
  exact ⟨by decide, by decide⟩

end TilelangAscend.Simulator
