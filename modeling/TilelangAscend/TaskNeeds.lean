import TilelangAscend.CreditLimit
import TilelangAscend.DependencyRuns
import TilelangAscend.FlagFences
import TilelangAscend.Rendezvous

namespace TilelangAscend.Simulator

open DependencyRuns
open ListHistory
open FlagBarrierModel

/-!
# What a task waits for

In a program with the pipe placement of the bridge, every queue, phase list and rendezvous has
one producer queue and one consumer queue, so the credit that a wait receives is fixed by the
program: it is the credit of the set with the same number.  Each task then has a fixed list of
tasks that it follows, whatever the order in which the scheduler visits them.
-/

/-- Flag tasks are queued as `_sync_task_pipe` does. -/
structure SyncTaskPlacement (program : KernelProgram) : Prop
    extends LocalFlagPlacement program where
  crossSets :
    ∀ task ∈ program.tasks,
      task.operation = .setCrossFlag → task.metadata.srcPipe = some (.pipe task.pipe)
  crossWaits :
    ∀ task ∈ program.tasks, task.operation = .waitCrossFlag → task.pipe = .s

/-- Flag tasks are queued as `_sync_task_pipe` does, and a cross flag has one source pipe. -/
structure BridgePlacement (program : KernelProgram) : Prop
    extends LocalFlagPlacement program where
  crossSets :
    ∀ task ∈ program.tasks,
      task.operation = .setCrossFlag → task.metadata.srcPipe = some (.pipe task.pipe)
  crossWaits :
    ∀ task ∈ program.tasks, task.operation = .waitCrossFlag → task.pipe = .s
  singleSource :
    ∀ first ∈ program.tasks,
      ∀ second ∈ program.tasks, first.operation = .setCrossFlag → second.operation = .setCrossFlag →
        first.participant = second.participant →
        first.metadata.flagId = second.metadata.flagId →
        first.metadata.srcPipe = second.metadata.srcPipe

/-! ## Producers and consumers of a channel -/

/-- The lane whose sets feed a mode-2 queue. -/
def setLane : CrossDirection → Lane → Lane
  | .c2v, _ => .cube
  | .v2c, lane => lane

/-- The lane whose waits drain a mode-2 queue. -/
def waitLane : CrossDirection → Lane → Lane
  | .c2v, lane => lane
  | .v2c, _ => .cube

variable {task : Task} {flagId : Int} {coreId : Nat} {direction : CrossDirection} {lane : Lane}
  {model : FlagBarrierModel} {entry : CollectiveKey × Participant}

theorem flagIdOf_ok (found : flagIdOf task = .ok flagId) :
    task.metadata.flagId = .value flagId := by
  unfold flagIdOf at found
  split at found
  · split at found
    · cases found
      assumption
    · cases found
  · cases found

theorem localFlagKey_ne_crossFlag {task : Task} {coreId : Nat}
    {direction : CrossDirection} {lane : Lane} {flagId : Int} :
    FlagKey.crossFlag coreId direction lane flagId ∉ (localFlagKey task).toOption.toList := by
  unfold localFlagKey
  split
  all_goals simp [Except.toOption, reject]

theorem crossSet_of_feeds (fed : feeds (.crossFlag coreId direction lane flagId) task = true) :
    task.operation = .setCrossFlag ∧ task.participant = ⟨coreId, setLane direction lane⟩ ∧
      task.metadata.flagId = .value flagId := by
  have member : FlagKey.crossFlag coreId direction lane flagId ∈ setKeys task := by
    simpa [feeds] using fed
  unfold setKeys at member
  split at member
  · exact absurd member localFlagKey_ne_crossFlag
  · rename_i isSet
    split at member
    · rename_i keys _ keyed
      unfold crossSetKeysMode2 at keyed
      split at keyed
      all_goals cases keyed
      all_goals rename_i found onLane
      all_goals simp only [Lane.vectorLanes, List.map_cons, List.map_nil, List.mem_cons,
        FlagKey.crossFlag.injEq, List.not_mem_nil, or_false] at member
      · rcases member with ⟨rfl, rfl, rfl, rfl⟩ | ⟨rfl, rfl, rfl, rfl⟩
        all_goals exact ⟨isSet, by rw [Task.participant, onLane]; rfl, flagIdOf_ok found⟩
      all_goals obtain ⟨rfl, rfl, rfl, rfl⟩ := member
      all_goals exact ⟨isSet, by rw [Task.participant, onLane]; rfl, flagIdOf_ok found⟩
    · simp at member
  · simp at member

theorem crossWait_of_drains
    (drained : model.drainsQueue (.crossFlag coreId direction lane flagId) task = true) :
    task.operation = .waitCrossFlag ∧ task.participant = ⟨coreId, waitLane direction lane⟩ := by
  have member : FlagKey.crossFlag coreId direction lane flagId ∈ model.waitKeys task := by
    simpa [drainsQueue] using drained
  unfold waitKeys at member
  split at member
  · exact absurd member localFlagKey_ne_crossFlag
  · unfold auditedCrossKeys at member
    split at member
    · rename_i keys isWait _ keyed
      unfold crossWaitKeysMode2 at keyed
      split at keyed
      all_goals cases keyed
      all_goals rename_i found onLane
      all_goals simp only [Lane.vectorLanes, List.map_cons, List.map_nil, List.mem_cons,
        FlagKey.crossFlag.injEq, List.not_mem_nil, or_false] at member
      · rcases member with ⟨rfl, rfl, rfl, rfl⟩ | ⟨rfl, rfl, rfl, rfl⟩
        all_goals exact ⟨isWait, by rw [Task.participant, onLane]; rfl⟩
      all_goals obtain ⟨rfl, rfl, rfl, rfl⟩ := member
      all_goals exact ⟨isWait, by rw [Task.participant, onLane]; rfl⟩
    · simp at member

theorem crossSet_of_setPhase (extended : setPhase? task = some entry) :
    task.operation = .setCrossFlag ∧ task.participant = entry.2 ∧
      task.metadata.flagId = .value entry.1.flagId := by
  unfold setPhase? at extended
  split at extended
  · rename_i mode isSet moded
    cases keyed : collectiveKey task mode with
    | error failure => simp [keyed, Except.toOption] at extended
    | ok key =>
      simp only [keyed, Except.toOption, Option.map_some, Option.some.injEq] at extended
      subst extended
      refine ⟨isSet, rfl, ?_⟩
      unfold collectiveKey at keyed
      split at keyed
      all_goals cases keyed
      all_goals rename_i found
      all_goals exact flagIdOf_ok found
  · cases extended

theorem crossWait_of_waitPhase (advances : model.waitPhase? task = some entry) :
    task.operation = .waitCrossFlag ∧ task.participant = entry.2 := by
  unfold waitPhase? auditedCollective at advances
  split at advances
  · rename_i mode isWait _
    cases keyed : collectiveKey task mode with
    | error failure => simp [keyed, Except.toOption] at advances
    | ok key =>
      simp only [keyed, Except.toOption, Option.map_some, Option.some.injEq] at advances
      subst advances
      exact ⟨isWait, rfl⟩
  · cases advances

namespace SyncTaskPlacement

variable {program : KernelProgram}

theorem crossWaits_resource (placement : SyncTaskPlacement program) {first second : Task}
    (firstIsTask : first ∈ program.tasks) (secondIsTask : second ∈ program.tasks)
    (firstIsWait : first.operation = .waitCrossFlag)
    (secondIsWait : second.operation = .waitCrossFlag)
    (sameLane : first.participant = second.participant) : first.resource = second.resource := by
  refine resource_eq_of_participant sameLane ?_
  rw [placement.crossWaits first firstIsTask firstIsWait,
    placement.crossWaits second secondIsTask secondIsWait]

theorem drains_resource (placement : SyncTaskPlacement program) {model : FlagBarrierModel}
    {key : FlagKey} {wait : Task} (waitIsTask : wait ∈ program.tasks)
    (waitDrains : model.drainsQueue key wait = true) :
    ∀ task ∈ program.tasks, model.drainsQueue key task = true → task.resource = wait.resource := by
  cases key with
  | localFlag coreId lane src dst flagId =>
    exact placement.toLocalFlagPlacement.drains_resource waitIsTask waitDrains
  | crossFlag coreId direction lane flagId =>
    intro task isTask taskDrains
    obtain ⟨isWait, onLane⟩ := crossWait_of_drains waitDrains
    obtain ⟨taskIsWait, taskOnLane⟩ := crossWait_of_drains taskDrains
    exact placement.crossWaits_resource isTask waitIsTask taskIsWait isWait
      (taskOnLane.trans onLane.symm)

end SyncTaskPlacement

namespace BridgePlacement

variable {program : KernelProgram}

theorem toSyncTaskPlacement
    (placement : BridgePlacement program) :
    SyncTaskPlacement program where
  toLocalFlagPlacement := placement.toLocalFlagPlacement
  crossSets := placement.crossSets
  crossWaits := placement.crossWaits

theorem crossSets_resource (placement : BridgePlacement program) {first second : Task}
    (firstIsTask : first ∈ program.tasks) (secondIsTask : second ∈ program.tasks)
    (firstIsSet : first.operation = .setCrossFlag) (secondIsSet : second.operation = .setCrossFlag)
    (sameLane : first.participant = second.participant)
    (sameFlag : first.metadata.flagId = second.metadata.flagId) :
    first.resource = second.resource := by
  have sameSource :=
    placement.singleSource first firstIsTask second secondIsTask firstIsSet secondIsSet
      sameLane sameFlag
  rw [placement.crossSets first firstIsTask firstIsSet,
    placement.crossSets second secondIsTask secondIsSet] at sameSource
  refine resource_eq_of_participant sameLane ?_
  simpa using sameSource

variable {set : Task} {entry : CollectiveKey × Participant}

theorem feeds_resource (placement : BridgePlacement program) {key : FlagKey}
    (setIsTask : set ∈ program.tasks) (setFeeds : feeds key set = true) :
    ∀ task ∈ program.tasks, feeds key task = true → task.resource = set.resource := by
  cases key with
  | localFlag coreId lane src dst flagId =>
    exact placement.toLocalFlagPlacement.feeds_resource setIsTask setFeeds
  | crossFlag coreId direction lane flagId =>
    intro task isTask taskFeeds
    obtain ⟨isSet, onLane, flagged⟩ := crossSet_of_feeds setFeeds
    obtain ⟨taskIsSet, taskOnLane, taskFlagged⟩ := crossSet_of_feeds taskFeeds
    exact placement.crossSets_resource isTask setIsTask taskIsSet isSet
      (taskOnLane.trans onLane.symm) (taskFlagged.trans flagged.symm)

theorem setPhase_resource (placement : BridgePlacement program)
    (setIsTask : set ∈ program.tasks) (setExtends : setPhase? set = some entry) :
    ∀ task ∈ program.tasks,
      decide (setPhase? task = some entry) = true → task.resource = set.resource := by
  intro task isTask taskExtends
  obtain ⟨isSet, onLane, flagged⟩ := crossSet_of_setPhase setExtends
  obtain ⟨taskIsSet, taskOnLane, taskFlagged⟩ :=
    crossSet_of_setPhase (of_decide_eq_true taskExtends)
  exact placement.crossSets_resource isTask setIsTask taskIsSet isSet
    (taskOnLane.trans onLane.symm) (taskFlagged.trans flagged.symm)

theorem waitPhase_resource (placement : BridgePlacement program)
    {model : FlagBarrierModel} {wait : Task} (waitIsTask : wait ∈ program.tasks)
    (waitAdvances : model.waitPhase? wait = some entry) :
    ∀ task ∈ program.tasks,
      decide (model.waitPhase? task = some entry) = true → task.resource = wait.resource := by
  intro task isTask taskAdvances
  obtain ⟨isWait, onLane⟩ := crossWait_of_waitPhase waitAdvances
  obtain ⟨taskIsWait, taskOnLane⟩ := crossWait_of_waitPhase (of_decide_eq_true taskAdvances)
  exact placement.toSyncTaskPlacement.crossWaits_resource isTask waitIsTask taskIsWait isWait
    (taskOnLane.trans onLane.symm)

end BridgePlacement

/-! ## What a task needs -/

/-- End cycle of a task, if it is completed. -/
def endCycle? (completed : Completed) (taskId : TaskId) : Option Nat :=
  (completed taskId).map ExecutionRecord.endCycle

/-- The set whose credit a wait receives: both have the same number on their channel. -/
def creditNeed (program : KernelProgram) (model : FlagBarrierModel) (task : Task)
    (key : FlagKey) : Option TaskId :=
  ((program.tasks.filter (feeds key))[
    (program.earlierTasks task).countP (model.drainsQueue key)]?).map Task.taskId

/-- The set of a participant that produces the phase which a collective wait consumes. -/
def phaseNeed (program : KernelProgram) (model : FlagBarrierModel) (task : Task)
    (key : CollectiveKey) (participant : Participant) : Option TaskId :=
  ((program.tasks.filter fun set => setPhase? set = some (key, participant))[
    (program.earlierTasks task).countP fun wait =>
      model.waitPhase? wait = some (key, task.participant)]?).map Task.taskId

/-- The call with which a participant arrives at a rendezvous. -/
def arrivalNeed (program : KernelProgram) (model : FlagBarrierModel) (key : SyncAllKey)
    (participant : Participant) : Option TaskId :=
  (program.tasks.find? fun call => model.arrivesAt call (key, participant)).map Task.taskId

/-- Tasks that synchronization makes a task follow; `none` if it can never start. -/
def syncNeeds (program : KernelProgram) (model : FlagBarrierModel) (task : Task) :
    Option (List TaskId) :=
  match model.tables.syncAllReleaseDependencies task.taskId with
  | some key => (syncAllParticipants model.coreIds key.scope).mapM (arrivalNeed program model key)
  | none =>
    match task.operation with
    | .waitFlag => (model.waitKeys task).mapM (creditNeed program model task)
    | .waitCrossFlag =>
      match model.crossWaitMode task, model.waitPhase? task with
      | .ok (some _), some (key, _) =>
        (collectiveParticipants model.coreIds key).mapM (phaseNeed program model task key)
      | .ok (some _), none => (model.waitKeys task).mapM (creditNeed program model task)
      | _, _ => none
    | .barrierAll | .pipeBarrier | .syncAll => some (model.tables.barrierDependencies task.taskId)
    | _ => some []

/-- Every task that a task follows, besides the synchronization of its operation. -/
def queueNeeds (program : KernelProgram) (model : FlagBarrierModel) (task : Task) : List TaskId :=
  executionDependencies task ++ (fifoPredecessors program.tasks task.taskId).toList ++
    model.tables.orderingDependencies task.taskId

/-- Every task that a task follows; `none` if it can never start. -/
def taskNeeds (program : KernelProgram) (model : FlagBarrierModel) (task : Task) :
    Option (List TaskId) :=
  (syncNeeds program model task).map (queueNeeds program model task ++ ·)

/-! ## Channels along a run -/

section Channels

variable {syncConfig : SyncConfig} {config : SimulatorConfig} {program : KernelProgram}
  {log : List Task} {state : RunState FlagBarrierModel}

theorem Fires.endCycle?_eq
    (fired : Fires (flagBarrierSynchronizationModel syncConfig) config program log state)
    {task : Task} (isTask : task ∈ program.tasks) :
    endCycle? state.completed task.taskId =
      if task ∈ log then some (creditOf state.completed task).cycle else none := by
  by_cases inLog : task ∈ log
  · obtain ⟨record, done⟩ := (fired.completed_iff_mem_log isTask).mpr inLog
    simp [endCycle?, creditOf, done, inLog]
  · cases done : state.completed task.taskId with
    | none => simp [endCycle?, done, inLog]
    | some record => exact absurd ((fired.completed_iff_mem_log isTask).mp ⟨record, done⟩) inLog

variable {test : Task → Bool} {wait : Task}

section

variable (fired : Fires (flagBarrierSynchronizationModel syncConfig) config program log state)
include fired

theorem Fires.channel_prefix
    (onResource :
      ∀ first ∈ program.tasks, test first = true →
        ∀ second ∈ program.tasks, test second = true → second.resource = first.resource) :
    log.filter test <+: program.tasks.filter test := by
  by_cases used : ∃ task ∈ program.tasks, test task = true
  · obtain ⟨task, isTask, passes⟩ := used
    exact fired.class_prefix (onResource task isTask passes)
  · have unused : log.filter test = [] := by
      rw [List.filter_eq_nil_iff]
      intro task inLog passes
      exact used ⟨task, fired.log_mem inLog, passes⟩
    rw [unused]
    exact List.nil_prefix

theorem Fires.produced_cycle
    (onResource :
      ∀ first ∈ program.tasks, test first = true →
        ∀ second ∈ program.tasks, test second = true → second.resource = first.resource)
    (index : Nat) :
    (((log.filter test).map (creditOf state.completed))[index]?).map Credit.cycle =
      (((program.tasks.filter test)[index]?).map Task.taskId).bind (endCycle? state.completed) := by
  have noDuplicates : (program.tasks.filter test).Nodup :=
    (List.Nodup.of_map _ program.taskIds_nodup).filter _
  rw [List.getElem?_map, getElem?_of_prefix noDuplicates (fired.channel_prefix onResource) index]
  cases found : (program.tasks.filter test)[index]? with
  | none => rfl
  | some set =>
    obtain ⟨isTask, passes⟩ := List.mem_filter.mp (List.mem_of_getElem? found)
    rw [Option.map_some, Option.bind_some, fired.endCycle?_eq isTask]
    by_cases inLog : set ∈ log
    · simp [Option.filter_some, inLog, passes]
    · simp [Option.filter_some, inLog]

/-- The head of a queue is the credit of the set that its wait needs. -/
theorem Fires.head_cycle (placement : BridgePlacement program) (waitIsTask : wait ∈ program.tasks)
    (isHead : QueueHead (fifoPredecessors program.tasks) state wait) {key : FlagKey}
    (waitDrains : key ∈ state.sync.waitKeys wait) :
    ((state.sync.state.tokens key).head?).map Credit.cycle =
      (creditNeed program state.sync wait key).bind (endCycle? state.completed) := by
  obtain ⟨before, after, shape⟩ := List.mem_iff_append.mp waitIsTask
  have drains : state.sync.drainsQueue key wait = true := by
    simpa [drainsQueue] using waitDrains
  obtain ⟨queue, _⟩ := fired.tokens_eq key
  have firedWaits :
      log.countP (state.sync.drainsQueue key) =
        (program.earlierTasks wait).countP (state.sync.drainsQueue key) := by
    rw [KernelProgram.earlierTasks_eq shape, List.countP_eq_length_filter,
      fired.class_log shape isHead
        (placement.toSyncTaskPlacement.drains_resource waitIsTask drains),
      List.countP_eq_length_filter]
  rw [queue, List.head?_drop, firedWaits, creditNeed]
  exact fired.produced_cycle
    (fun first isTask feedsKey => placement.feeds_resource isTask feedsKey) _

/-- The phases of a collective count its placed sets and waits. -/
theorem Fires.collective_eq (entry : CollectiveKey × Participant) :
    state.sync.state.collectiveReady entry =
        (log.filter fun set => setPhase? set = some entry).map (creditOf state.completed) ∧
      state.sync.state.collectiveWaitPhase entry =
        log.countP fun wait => state.sync.waitPhase? wait = some entry := by
  induction fired with
  | initial accepts =>
    have empty := (reset_accepted accepts).2
    simp [RunState.initial, empty]
  | @place earlierLog earlierState next task earlier isTask placed ih =>
    obtain ⟨step⟩ := attempt_placed placed
    obtain ⟨_, nextShape⟩ := step.sync_effect
    obtain ⟨ready, waited⟩ := ih
    have credits :
        (earlierLog.filter fun set => setPhase? set = some entry).map
            (creditOf next.completed) =
          (earlierLog.filter fun set => setPhase? set = some entry).map
            (creditOf earlierState.completed) := by
      refine List.map_congr_left ?_
      intro other member
      exact step.creditOf_eq (earlier.placed_not_mem step (List.mem_of_mem_filter member))
    have waits : next.sync.waitPhase? = earlierState.sync.waitPhase? := by
      rw [nextShape]
      rfl
    rw [waits, List.filter_append, List.map_append, credits, List.countP_append, nextShape]
    simp only [withState, effect]
    refine ⟨?_, ?_⟩
    · by_cases extended : setPhase? task = some entry
      · simp [extended, ready, step.creditOf_self]
      · simp [extended, ready]
    · by_cases advanced : earlierState.sync.waitPhase? task = some entry
      · simp [advanced, waited]
      · simp [advanced, waited]

/-- A collective phase is ready when the sets it needs have ended. -/
theorem Fires.phase_cycle (placement : BridgePlacement program) (waitIsTask : wait ∈ program.tasks)
    (isHead : QueueHead (fifoPredecessors program.tasks) state wait) {key : CollectiveKey}
    (advances : state.sync.waitPhase? wait = some (key, wait.participant))
    (participant : Participant) :
    ((state.sync.state.collectiveReady (key, participant))[
        state.sync.state.collectiveWaitPhase (key, wait.participant)]?).map Credit.cycle =
      (phaseNeed program state.sync wait key participant).bind (endCycle? state.completed) := by
  obtain ⟨before, after, shape⟩ := List.mem_iff_append.mp waitIsTask
  have firedWaits :
      state.sync.state.collectiveWaitPhase (key, wait.participant) =
        (program.earlierTasks wait).countP fun other =>
          state.sync.waitPhase? other = some (key, wait.participant) := by
    rw [(fired.collective_eq _).2, KernelProgram.earlierTasks_eq shape,
      List.countP_eq_length_filter,
      fired.class_log shape isHead (placement.waitPhase_resource waitIsTask advances),
      List.countP_eq_length_filter]
  rw [(fired.collective_eq _).1, firedWaits, phaseNeed]
  exact fired.produced_cycle
    (fun first isTask extended => placement.setPhase_resource isTask (of_decide_eq_true extended)) _

theorem Fires.arrived_of_mem {call : Task} {entry : SyncAllKey × Participant}
    (inLog : call ∈ log) (arrives : state.sync.arrivesAt call entry) :
    ∃ credit, state.sync.state.syncAllArrivals entry = some credit := by
  induction fired with
  | initial =>
    cases inLog
  | @place earlierLog earlierState next task earlier isTask placed ih =>
    obtain ⟨step⟩ := attempt_placed placed
    obtain ⟨_, nextShape⟩ := step.sync_effect
    rw [nextShape] at arrives ⊢
    simp only [withState, effect]
    by_cases taskArrives : earlierState.sync.arrivesAt task entry
    · simp [taskArrives]
    · simp only [taskArrives, ↓reduceIte]
      rcases List.mem_append.mp inLog with old | new
      · exact ih old arrives
      · rw [List.mem_singleton.mp new] at arrives
        exact absurd arrives taskArrives

/-- A participant arrives when its own sync_all calls have ended. -/
theorem Fires.arrival_cycle (key : SyncAllKey) (participant : Participant) :
    (state.sync.state.syncAllArrivals (key, participant)).map Credit.cycle =
      (arrivalNeed program state.sync key participant).bind (endCycle? state.completed) := by
  cases arrived : state.sync.state.syncAllArrivals (key, participant) with
  | some credit =>
    obtain ⟨origin, inLog, originArrives, record, done, ends⟩ := fired.arrival_origin arrived
    have originIsTask := fired.log_mem inLog
    cases found :
        program.tasks.find? fun call => state.sync.arrivesAt call (key, participant) with
    | none =>
      have missed := List.find?_eq_none.mp found origin originIsTask
      exact absurd originArrives (by simpa using missed)
    | some call =>
      have callArrives : state.sync.arrivesAt call (key, participant) := by
        simpa using List.find?_some found
      have same :=
        arrivesAt_unique fired.accepted (List.mem_of_find?_eq_some found) originIsTask
          callArrives originArrives
      simp [arrivalNeed, found, same, endCycle?, done, ends]
  | none =>
    cases found :
        program.tasks.find? fun call => state.sync.arrivesAt call (key, participant) with
    | none => simp [arrivalNeed, found]
    | some call =>
      have callArrives : state.sync.arrivesAt call (key, participant) := by
        simpa using List.find?_some found
      have notFired : call ∉ log := by
        intro inLog
        obtain ⟨credit, registered⟩ := fired.arrived_of_mem inLog callArrives
        rw [arrived] at registered
        cases registered
      simp [arrivalNeed, found, fired.endCycle?_eq (List.mem_of_find?_eq_some found), notFired]

end

end Channels

end TilelangAscend.Simulator
