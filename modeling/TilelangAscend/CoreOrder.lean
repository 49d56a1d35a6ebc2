import TilelangAscend.CoreTables

namespace TilelangAscend.Simulator

open DependencyRuns
open ListHistory
open FlagBarrierModel

/-!
# Independence from the order of the cores

Everything a task waits for is found among the tasks of single cores, so a program with its
cores in another order has the same needs.  Both runs place whatever these needs allow, and
end in the same way.
-/

/-- The core of a credit queue. -/
def FlagKey.coreId : FlagKey → Nat
  | .localFlag coreId _ _ _ _ => coreId
  | .crossFlag coreId _ _ _ => coreId

variable {key : FlagKey} {task : Task} {program : KernelProgram}

theorem feeds_onCore (fed : feeds key task = true) : task.coreId = key.coreId := by
  cases key with
  | localFlag coreId lane src dst flagId =>
    obtain ⟨_, keyed⟩ := localSet_of_feeds fed
    exact (localFlagKey_ok keyed).1
  | crossFlag coreId direction lane flagId =>
    obtain ⟨_, onLane, _⟩ := crossSet_of_feeds fed
    exact congrArg Participant.coreId onLane

theorem drains_onCore {model : FlagBarrierModel}
    (drained : model.drainsQueue key task = true) : task.coreId = key.coreId := by
  cases key with
  | localFlag coreId lane src dst flagId =>
    obtain ⟨_, keyed⟩ := localWait_of_drains drained
    exact (localFlagKey_ok keyed).1
  | crossFlag coreId direction lane flagId =>
    obtain ⟨_, onLane⟩ := crossWait_of_drains drained
    exact congrArg Participant.coreId onLane

theorem mapM_congr {α β : Type} {items : List α} {first second : α → Option β}
    (same : ∀ item ∈ items, first item = second item) : items.mapM first = items.mapM second := by
  induction items with
  | nil => rfl
  | cons item rest ih =>
    rw [List.mapM_cons, List.mapM_cons, same item List.mem_cons_self,
      ih fun other member => same other (List.mem_cons_of_mem _ member)]

namespace Reordered

variable {program permuted : KernelProgram} {model : FlagBarrierModel} {task : Task}

/-- The model of the reordered program. -/
def modelOf (permuted : KernelProgram) (model : FlagBarrierModel) : FlagBarrierModel :=
  { model with tasks := permuted.tasks }

section

variable (reordered : Reordered program permuted)
include reordered

theorem creditNeed_eq (isTask : task ∈ program.tasks) {key : FlagKey}
    (drained : key ∈ model.waitKeys task) :
    creditNeed permuted (modelOf permuted model) task key = creditNeed program model task key := by
  have drains : model.drainsQueue key task = true := by
    simpa [drainsQueue] using drained
  have sameWaits :
      (permuted.earlierTasks task).countP (model.drainsQueue key) =
        (program.earlierTasks task).countP (model.drainsQueue key) := by
    rw [List.countP_eq_length_filter, List.countP_eq_length_filter,
      reordered.earlier_filter_eq isTask
        (fun other drainsToo => (drains_onCore drainsToo).trans (drains_onCore drains).symm)]
  have sameSets : permuted.tasks.filter (feeds key) = program.tasks.filter (feeds key) :=
    reordered.filter_eq key.coreId fun other fed => feeds_onCore fed
  unfold creditNeed
  rw [sameSets]
  exact congrArg (fun index => ((program.tasks.filter (feeds key))[index]?).map Task.taskId)
    sameWaits

theorem phaseNeed_eq (isTask : task ∈ program.tasks) (key : CollectiveKey)
    (participant : Participant) :
    phaseNeed permuted (modelOf permuted model) task key participant =
      phaseNeed program model task key participant := by
  have sameWaits :
      ((permuted.earlierTasks task).countP fun wait =>
          model.waitPhase? wait = some (key, task.participant)) =
        (program.earlierTasks task).countP fun wait =>
          model.waitPhase? wait = some (key, task.participant) := by
    rw [List.countP_eq_length_filter, List.countP_eq_length_filter,
      reordered.earlier_filter_eq isTask]
    intro other advances
    exact congrArg Participant.coreId (crossWait_of_waitPhase (of_decide_eq_true advances)).2
  have sameSets :
      (permuted.tasks.filter fun set => setPhase? set = some (key, participant)) =
        program.tasks.filter fun set => setPhase? set = some (key, participant) := by
    refine reordered.filter_eq participant.coreId ?_
    intro other extended
    exact congrArg Participant.coreId (crossSet_of_setPhase (of_decide_eq_true extended)).2.1
  unfold phaseNeed
  rw [sameSets]
  exact congrArg
    (fun index =>
      ((program.tasks.filter fun set => setPhase? set = some (key, participant))[index]?).map
        Task.taskId)
    sameWaits

theorem arrivalNeed_eq (key : SyncAllKey) (participant : Participant) :
    arrivalNeed permuted (modelOf permuted model) key participant =
      arrivalNeed program model key participant := by
  have sameCalls :
      (permuted.tasks.filter fun call => model.arrivesAt call (key, participant)) =
        program.tasks.filter fun call => model.arrivesAt call (key, participant) := by
    refine reordered.filter_eq participant.coreId ?_
    intro call arrives
    exact (syncAllTaskParticipants_onCore (of_decide_eq_true arrives).2.2).symm
  unfold arrivalNeed
  rw [← List.head?_filter, ← List.head?_filter, ← sameCalls]
  rfl

theorem fifoPredecessors_eq (isTask : task ∈ program.tasks) :
    fifoPredecessors permuted.tasks task.taskId = fifoPredecessors program.tasks task.taskId := by
  obtain ⟨before, after, shape⟩ := List.mem_iff_append.mp isTask
  obtain ⟨otherBefore, otherAfter, otherShape⟩ :=
    List.mem_iff_append.mp (reordered.tasks_perm.mem_iff.mpr isTask)
  have sameQueue :
      ((permuted.earlierTasks task).filter fun other => other.resource = task.resource) =
        (program.earlierTasks task).filter fun other => other.resource = task.resource := by
    refine reordered.earlier_filter_eq isTask ?_
    intro other sameResource
    exact congrArg ResourceKey.coreId (of_decide_eq_true sameResource)
  rw [Simulator.fifoPredecessors_eq permuted.taskIds_nodup otherShape,
    Simulator.fifoPredecessors_eq program.taskIds_nodup shape,
    ← KernelProgram.earlierTasks_eq shape, ← KernelProgram.earlierTasks_eq otherShape]
  simp only [lastOnResource, lastWhere, sameQueue]

theorem taskNeeds_eq (isTask : task ∈ program.tasks) :
    taskNeeds permuted (modelOf permuted model) task = taskNeeds program model task := by
  have sameQueue :
      queueNeeds permuted (modelOf permuted model) task = queueNeeds program model task := by
    unfold queueNeeds
    rw [reordered.fifoPredecessors_eq isTask]
    rfl
  have sameCredits :
      (model.waitKeys task).mapM (creditNeed permuted (modelOf permuted model) task) =
        (model.waitKeys task).mapM (creditNeed program model task) :=
    mapM_congr fun key drained => reordered.creditNeed_eq isTask drained
  have samePhases :
      phaseNeed permuted (modelOf permuted model) task = phaseNeed program model task := by
    funext key participant
    exact reordered.phaseNeed_eq isTask key participant
  have sameArrivals :
      arrivalNeed permuted (modelOf permuted model) = arrivalNeed program model := by
    funext key participant
    exact reordered.arrivalNeed_eq key participant
  have sameSync :
      syncNeeds permuted (modelOf permuted model) task = syncNeeds program model task := by
    unfold syncNeeds
    rw [samePhases, sameArrivals]
    simp only [← sameCredits]
    rfl
  unfold taskNeeds
  rw [sameSync, sameQueue]

theorem find?_eq (taskId : TaskId) :
    permuted.tasks.find? (·.taskId = taskId) = program.tasks.find? (·.taskId = taskId) := by
  cases found : program.tasks.find? (·.taskId = taskId) with
  | none =>
    rw [List.find?_eq_none] at found ⊢
    intro task isTask
    exact found task (reordered.tasks_perm.mem_iff.mp isTask)
  | some task =>
    have isTask := List.mem_of_find?_eq_some found
    have identified : task.taskId = taskId := by
      simpa using List.find?_some found
    rw [← identified]
    exact find?_taskId (reordered.tasks_perm.mem_iff.mpr isTask)

theorem needsOf_eq : needsOf permuted (modelOf permuted model) = needsOf program model := by
  funext taskId
  unfold needsOf
  rw [reordered.find?_eq]
  cases found : program.tasks.find? (·.taskId = taskId) with
  | none => rfl
  | some task => exact reordered.taskNeeds_eq (List.mem_of_find?_eq_some found)

theorem durationOf_eq : durationOf permuted = durationOf program := by
  funext taskId
  unfold durationOf
  rw [reordered.find?_eq]

theorem bridgePlacement
    (placement : BridgePlacement program) :
    BridgePlacement permuted where
  sets task isTask := placement.sets task (reordered.tasks_perm.mem_iff.mp isTask)
  waits task isTask := placement.waits task (reordered.tasks_perm.mem_iff.mp isTask)
  crossSets task isTask := placement.crossSets task (reordered.tasks_perm.mem_iff.mp isTask)
  crossWaits task isTask := placement.crossWaits task (reordered.tasks_perm.mem_iff.mp isTask)
  singleSource first firstIsTask second secondIsTask :=
    placement.singleSource first (reordered.tasks_perm.mem_iff.mp firstIsTask) second
      (reordered.tasks_perm.mem_iff.mp secondIsTask)

theorem orderFree
    (free : OrderFree program model) :
    OrderFree permuted (modelOf permuted model) where
  waitsUnreleased := by
    intro task isTask waits noPhase other earlier
    have isTaskHere := reordered.tasks_perm.mem_iff.mp isTask
    have sameCalls :
        (permuted.earlierTasks task).filter (isSyncAllOn task.participant) =
          (program.earlierTasks task).filter (isSyncAllOn task.participant) := by
      refine reordered.earlier_filter_eq isTaskHere ?_
      intro call onLane
      simp only [isSyncAllOn, decide_eq_true_eq] at onLane
      exact congrArg Participant.coreId onLane.2
    have none : (program.earlierTasks task).filter (isSyncAllOn task.participant) = [] := by
      rw [List.filter_eq_nil_iff]
      intro call member
      simp [free.waitsUnreleased task isTaskHere waits noPhase call member]
    rw [none, List.filter_eq_nil_iff] at sameCalls
    simpa using sameCalls other earlier
  joinsExpected := by
    intro task isTask isSyncAll participant joins
    have expected :=
      free.joinsExpected task (reordered.tasks_perm.mem_iff.mp isTask) isSyncAll participant joins
    unfold syncAllExpects at expected ⊢
    cases scopeFound : syncAllScope task with
    | error failure => simp [scopeFound] at expected
    | ok scope =>
      rw [scopeFound] at expected
      refine (mem_syncAllParticipants_congr ?_).mp expected
      intro coreId
      exact ((reordered.cores.map CoreProgram.coreId).mem_iff).symm

end

end Reordered

/-- No pending task of the program has all it needs. -/
def Stuck (program : KernelProgram) (model : FlagBarrierModel)
    (state : RunState FlagBarrierModel) : Prop :=
  ∀ taskId, (needsOf program model taskId).isSome → endCycle? state.completed taskId = none →
    readyCycle (endCycle? state.completed) (needsOf program model taskId) = none

/-! ## The flag balance of completed runs -/

/-- Two synchronization states leave the same flags unbalanced. -/
structure SameBalance (first second : SyncState) : Prop where
  credits : ∀ key, (first.tokens key).isEmpty = (second.tokens key).isEmpty
  produced :
    ∀ entry, (first.collectiveReady entry).length = (second.collectiveReady entry).length
  consumed : ∀ entry, first.collectiveWaitPhase entry = second.collectiveWaitPhase entry
  arrived :
    ∀ entry, (first.syncAllArrivals entry).isNone = (second.syncAllArrivals entry).isNone

theorem Fires.log_perm {σ : Type} {model : SynchronizationModel σ}
    {config : SimulatorConfig} {log : List Task} {state : RunState σ}
    (fired : Fires model config program log state)
    (complete : ∀ task ∈ program.tasks, task ∈ log) : log.Perm program.tasks := by
  rw [List.perm_ext_iff_of_nodup (List.Nodup.of_map _ fired.log_nodup)
    (List.Nodup.of_map _ program.taskIds_nodup)]
  intro task
  exact ⟨fired.log_mem, complete task⟩

namespace Reordered

variable {config : SimulatorConfig} {program permuted : KernelProgram}
  {model : FlagBarrierModel} {log otherLog : List Task}
  {state otherState : RunState FlagBarrierModel}

theorem auditFlagBalance_eq (reordered : Reordered program permuted)
    (ownTasks : model.tasks = program.tasks) {first second : SyncState}
    (same : SameBalance first second) :
    ((modelOf permuted model).withState first).auditFlagBalance =
      (model.withState second).auditFlagBalance := by
  have tasksPerm : permuted.tasks.Perm model.tasks := by
    rw [ownTasks]
    exact reordered.tasks_perm
  have anyPerm : ∀ test : Task → Bool, permuted.tasks.any test = model.tasks.any test := by
    intro test
    rw [Bool.eq_iff_iff, List.any_eq_true, List.any_eq_true]
    simp only [tasksPerm.mem_iff]
  have credits :
      ∀ task,
        ((modelOf permuted model).withState first).residualCredits task =
          (model.withState second).residualCredits task := by
    intro task
    have audited :
        ∀ key,
          (permuted.tasks.flatMap model.auditedCrossKeys).contains key =
            (model.tasks.flatMap model.auditedCrossKeys).contains key :=
      fun key => (tasksPerm.flatMap_right _).contains_eq
    unfold residualCredits
    simp only [withState, modelOf, same.credits]
    split
    · rfl
    · congr 1
      funext key
      exact congrArg _ (audited key)
    · rfl
  have phases :
      ∀ task,
        ((modelOf permuted model).withState first).residualPhases task =
          (model.withState second).residualPhases task := by
    intro task
    unfold residualPhases
    simp only [withState, modelOf, anyPerm, same.produced, same.consumed]
    rfl
  have arrivals :
      ∀ task,
        ((modelOf permuted model).withState first).residualArrivals task =
          (model.withState second).residualArrivals task := by
    intro task
    unfold residualArrivals
    simp only [withState, modelOf, same.arrived]
  unfold auditFlagBalance
  simp only [credits, phases, arrivals]
  exact anyPerm _

theorem sameBalance (reordered : Reordered program permuted)
    (accepted : AcceptedModel {} program model)
    (otherAccepted : AcceptedModel {} permuted (modelOf permuted model))
    (fired : Fires (flagBarrierSynchronizationModel {}) config program log state)
    (complete : ∀ task ∈ program.tasks, task ∈ log)
    (otherFired : Fires (flagBarrierSynchronizationModel {}) config permuted otherLog otherState)
    (otherComplete : ∀ task ∈ permuted.tasks, task ∈ otherLog) :
    SameBalance otherState.sync.state state.sync.state := by
  have logsPerm : otherLog.Perm log :=
    ((otherFired.log_perm otherComplete).trans reordered.tasks_perm).trans
      (fired.log_perm complete).symm
  have shape := accepted.eq_withState fired.accepted
  have otherShape := otherAccepted.eq_withState otherFired.accepted
  have sameDrains : ∀ key, otherState.sync.drainsQueue key = state.sync.drainsQueue key := by
    intro key
    rw [shape, otherShape]
    rfl
  have sameAdvances : otherState.sync.waitPhase? = state.sync.waitPhase? := by
    rw [shape, otherShape]
    rfl
  have sameArrives :
      ∀ call entry, otherState.sync.arrivesAt call entry ↔ state.sync.arrivesAt call entry := by
    intro call entry
    rw [shape, otherShape]
    exact Iff.rfl
  exact {
    credits := by
      intro key
      have sameLength :
          (otherState.sync.state.tokens key).length = (state.sync.state.tokens key).length := by
        rw [(otherFired.tokens_eq key).1, (fired.tokens_eq key).1, List.length_drop,
          List.length_drop, List.length_map, List.length_map, sameDrains,
          logsPerm.countP_eq, (logsPerm.filter _).length_eq]
      rw [Bool.eq_iff_iff, List.isEmpty_iff_length_eq_zero, List.isEmpty_iff_length_eq_zero,
        sameLength]
    produced := by
      intro entry
      rw [(otherFired.collective_eq entry).1, (fired.collective_eq entry).1, List.length_map,
        List.length_map, (logsPerm.filter _).length_eq]
    consumed := by
      intro entry
      rw [(otherFired.collective_eq entry).2, (fired.collective_eq entry).2, sameAdvances,
        logsPerm.countP_eq]
    arrived := by
      intro entry
      cases here : state.sync.state.syncAllArrivals entry with
      | some credit =>
        obtain ⟨call, inLog, arrives, _⟩ := fired.arrival_origin here
        obtain ⟨other, there⟩ :=
          otherFired.arrived_of_mem (logsPerm.mem_iff.mpr inLog)
            ((sameArrives call entry).mpr arrives)
        rw [there]
        rfl
      | none =>
        cases there : otherState.sync.state.syncAllArrivals entry with
        | none => rfl
        | some credit =>
          obtain ⟨call, inLog, arrives, _⟩ := otherFired.arrival_origin there
          obtain ⟨other, arrived⟩ :=
            fired.arrived_of_mem (logsPerm.mem_iff.mp inLog) ((sameArrives call entry).mp arrives)
          rw [here] at arrived
          cases arrived }

theorem endCycle?_eq (reordered : Reordered program permuted)
    (unbounded : config.maxCycles = none) (placement : BridgePlacement program)
    (accepted : AcceptedModel {} program model)
    (otherAccepted : AcceptedModel {} permuted (modelOf permuted model))
    (free : OrderFree program model)
    (fired : Fires (flagBarrierSynchronizationModel {}) config program log state)
    (otherFired : Fires (flagBarrierSynchronizationModel {}) config permuted otherLog otherState)
    (stuck : Stuck program model state)
    (otherStuck : Stuck permuted (modelOf permuted model) otherState) :
    endCycle? otherState.completed = endCycle? state.completed := by
  have runs := fired.runs unbounded placement accepted free
  have otherRuns :=
    otherFired.runs unbounded (reordered.bridgePlacement placement) otherAccepted
      (reordered.orderFree free)
  unfold Stuck at otherStuck
  rw [reordered.needsOf_eq] at otherRuns otherStuck
  rw [reordered.durationOf_eq] at otherRuns
  exact otherRuns.eq_of_stuck runs otherStuck stuck

end Reordered

/-! ## Outcomes -/

/-- Errors with which a run reports a deadlock. -/
def SimError.isDeadlock : SimError → Bool
  | .deadlock _ => true
  | .flagAccounting => true
  | _ => false

/-- Errors with which a run reports a channel at its limit. -/
def SimError.isOverflow : SimError → Bool
  | .validation _ failure => failure.isOverflow
  | _ => false

/-- Two runs both report a deadlock, or both complete with the same cycles. -/
inductive SameOutcome (program : KernelProgram) :
    Except SimError ScheduleResult → Except SimError ScheduleResult → Prop where
  | deadlocks {first second : SimError} :
      first.isDeadlock = true →
      second.isDeadlock = true →
      SameOutcome program (.error first) (.error second)
  | completes {first second : ScheduleResult} :
      (∀ task ∈ program.tasks,
        ∃ interval,
          first.interval? task.taskId = some interval ∧
            second.interval? task.taskId = some interval) →
      SameOutcome program (.ok first) (.ok second)

section Outcomes

variable {config : SimulatorConfig} {program : KernelProgram} {model : FlagBarrierModel}
  {log : List Task} {state : RunState FlagBarrierModel}

theorem Fires.stuck_of_complete
    (fired : Fires (flagBarrierSynchronizationModel {}) config program log state)
    (complete : ∀ task ∈ program.tasks, task ∈ log) : Stuck program model state := by
  intro taskId hasNeeds fresh
  cases found : program.tasks.find? (·.taskId = taskId) with
  | none => simp [needsOf, found] at hasNeeds
  | some task =>
    have isTask := List.mem_of_find?_eq_some found
    have identified : task.taskId = taskId := by
      simpa using List.find?_some found
    obtain ⟨record, done⟩ := (fired.completed_iff_mem_log isTask).mpr (complete task isTask)
    rw [identified] at done
    simp [endCycle?, done] at fresh

theorem Deadlocked.unfinished
    (deadlocked : Deadlocked (flagBarrierSynchronizationModel {}) config program state) :
    ∃ task ∈ program.tasks, endCycle? state.completed task.taskId = none := by
  obtain ⟨task, member⟩ := List.exists_mem_of_ne_nil _ deadlocked.pending
  obtain ⟨isTask, pending⟩ := List.mem_filter.mp member
  refine ⟨task, isTask, ?_⟩
  simpa [endCycle?] using pending

theorem Fires.interval_eq
    (fired : Fires (flagBarrierSynchronizationModel {}) config program log state)
    (complete : ∀ task ∈ program.tasks, task ∈ log) {task : Task} (isTask : task ∈ program.tasks) :
    ∃ start,
      endCycle? state.completed task.taskId = some (start + task.durationCycles) ∧
        state.result.interval? task.taskId = some (start, start + task.durationCycles) := by
  obtain ⟨record, done⟩ := (fired.completed_iff_mem_log isTask).mpr (complete task isTask)
  have ends := fired.record_duration isTask done
  refine ⟨record.startCycle, ?_, ?_⟩
  · simp [endCycle?, done, ends]
  · simp [ScheduleResult.interval?, fired.operation?_eq, done, ends]

end Outcomes

/--
Reordering the cores changes neither whether a run deadlocks nor any cycle, unless a channel
reaches its limit: in a program placed by the bridge in which no wait for credits follows a
`sync_all` of its lane and every `sync_all` joins participants that its scope expects.
-/
theorem run_coreOrder_free
    {config : SimulatorConfig}
    {program permuted : KernelProgram}
    {model : FlagBarrierModel}
    (reordered : Reordered program permuted)
    (platform : config.platform = program.platform)
    (unbounded : config.maxCycles = none)
    (detects : config.deadlockDetect = true)
    (placement : BridgePlacement program)
    (accepted : reset {} program = .ok model)
    (free : OrderFree program model)
    (withinLimits :
      ∀ failure, run (flagBarrierSynchronizationModel {}) config program = .error failure →
        failure.isOverflow = false)
    (otherWithinLimits :
      ∀ failure, run (flagBarrierSynchronizationModel {}) config permuted = .error failure →
        failure.isOverflow = false) :
    SameOutcome program
      (run (flagBarrierSynchronizationModel {}) config program)
      (run (flagBarrierSynchronizationModel {}) config permuted) := by
  have acceptedModel := (reset_accepted accepted).1
  have otherAccepted : reset {} permuted = .ok (Reordered.modelOf permuted model) :=
    reordered.reset_eq accepted
  have otherModel := (reset_accepted otherAccepted).1
  have otherPlacement := reordered.bridgePlacement placement
  have otherFree := reordered.orderFree free
  have sameEnds :
      ∀ {log otherLog state otherState},
        Fires (flagBarrierSynchronizationModel {}) config program log state →
        Fires (flagBarrierSynchronizationModel {}) config permuted otherLog otherState →
        Stuck program model state →
        Stuck permuted (Reordered.modelOf permuted model) otherState →
        endCycle? otherState.completed = endCycle? state.completed :=
    fun fired otherFired => reordered.endCycle?_eq unbounded placement acceptedModel otherModel
      free fired otherFired
  have ends := scheduleState_ends platform unbounded detects placement accepted free
  have otherEnds :=
    scheduleState_ends (platform.trans reordered.platform.symm) unbounded detects otherPlacement
      otherAccepted otherFree
  unfold run at withinLimits otherWithinLimits ⊢
  generalize scheduleState (flagBarrierSynchronizationModel {}) config program = outcome
    at ends withinLimits ⊢
  generalize scheduleState (flagBarrierSynchronizationModel {}) config permuted = otherOutcome
    at otherEnds otherWithinLimits ⊢
  cases ends with
  | @overflows taskId failure overflows =>
    have limited := withinLimits (.validation taskId failure) rfl
    simp [SimError.isOverflow, overflows] at limited
  | @deadlocks log state pending fired deadlocked =>
    have stuck : Stuck program model state := fun taskId hasNeeds fresh =>
      fired.needs_missing unbounded placement acceptedModel free deadlocked.idle hasNeeds fresh
    cases otherEnds with
    | @overflows taskId failure overflows =>
      have limited := otherWithinLimits (.validation taskId failure) rfl
      simp [SimError.isOverflow, overflows] at limited
    | @deadlocks otherLog otherState otherPending otherFired otherDeadlocked =>
      exact .deadlocks rfl rfl
    | @completes otherLog otherState otherFired otherComplete =>
      obtain ⟨task, isTask, unfinished⟩ := deadlocked.unfinished
      have same := sameEnds fired otherFired stuck (otherFired.stuck_of_complete otherComplete)
      obtain ⟨start, ended, _⟩ :=
        otherFired.interval_eq otherComplete (reordered.tasks_perm.mem_iff.mpr isTask)
      rw [same, unfinished] at ended
      cases ended
  | @completes log state fired complete =>
    have stuck : Stuck program model state := fired.stuck_of_complete complete
    cases otherEnds with
    | @overflows taskId failure overflows =>
      have limited := otherWithinLimits (.validation taskId failure) rfl
      simp [SimError.isOverflow, overflows] at limited
    | @deadlocks otherLog otherState otherPending otherFired otherDeadlocked =>
      have otherStuck : Stuck permuted (Reordered.modelOf permuted model) otherState :=
        fun taskId hasNeeds fresh =>
          otherFired.needs_missing unbounded otherPlacement otherModel otherFree
            otherDeadlocked.idle hasNeeds fresh
      obtain ⟨task, isTask, unfinished⟩ := otherDeadlocked.unfinished
      have same := sameEnds fired otherFired stuck otherStuck
      obtain ⟨start, ended, _⟩ :=
        fired.interval_eq complete (reordered.tasks_perm.mem_iff.mp isTask)
      rw [← same, unfinished] at ended
      cases ended
    | @completes otherLog otherState otherFired otherComplete =>
      have same := sameEnds fired otherFired stuck (otherFired.stuck_of_complete otherComplete)
      have audits : otherState.sync.auditFlagBalance = state.sync.auditFlagBalance := by
        rw [acceptedModel.eq_withState fired.accepted, otherModel.eq_withState otherFired.accepted]
        exact reordered.auditFlagBalance_eq acceptedModel.tasks
          (reordered.sameBalance acceptedModel otherModel fired complete otherFired otherComplete)
      simp only [flagBarrierSynchronizationModel, audits]
      by_cases unbalanced :
          config.flagBalanceCheck = .error ∧ state.sync.auditFlagBalance = true
      · simp only [unbalanced, and_self, ↓reduceIte]
        exact .deadlocks rfl rfl
      · simp only [unbalanced, ↓reduceIte]
        refine .completes ?_
        intro task isTask
        obtain ⟨start, ended, interval⟩ := fired.interval_eq complete isTask
        obtain ⟨otherStart, otherEnded, otherInterval⟩ :=
          otherFired.interval_eq otherComplete (reordered.tasks_perm.mem_iff.mpr isTask)
        rw [same, ended, Option.some.injEq, Nat.add_right_cancel_iff] at otherEnded
        subst otherEnded
        exact ⟨_, interval, otherInterval⟩

/-- The error with which a run ends. -/
def failureOf : Except SimError ScheduleResult → Option SimError
  | .ok _ => none
  | .error failure => some failure

theorem isOverflow_of_failureOf {outcome : Except SimError ScheduleResult}
    (evaluated : (failureOf outcome).any SimError.isOverflow = false) :
    ∀ failure, outcome = .error failure → failure.isOverflow = false := by
  rintro failure rfl
  simpa [failureOf] using evaluated

theorem SameOutcome.failureOf_isSome {first second : Except SimError ScheduleResult}
    (same : SameOutcome program first second) :
    (failureOf first).isSome = (failureOf second).isSome := by
  cases same with
  | deadlocks => rfl
  | completes => rfl

/-- A cross flag task of mode 2 or, with `mode`, of another mode. -/
def crossFlag
    (taskId : TaskId)
    (operation : Operation)
    (coreId : Nat)
    (lane : Lane)
    (pipe : Pipe)
    (mode : MetadataInt)
    (idNonempty : taskId ≠ "" := by exact nonempty_of_check trivial)
    (pipeAllowed : pipe ∈ lane.allowedPipes := by exact allowed_of_check trivial) :
    Task where
  taskId := taskId
  operation := operation
  coreId := coreId
  lane := lane
  pipe := pipe
  durationCycles := 5
  metadata := { srcPipe := some (.pipe pipe), flagId := .value 0, mode := mode }
  idNonempty := idNonempty
  pipeAllowed := pipeAllowed

/-- A `sync_all` of the cube lane of a core. -/
def cubeSyncCall
    (taskId : TaskId)
    (coreId : Nat)
    (idNonempty : taskId ≠ "" := by exact nonempty_of_check trivial) :
    Task where
  taskId := taskId
  operation := .syncAll
  coreId := coreId
  lane := .cube
  pipe := .s
  durationCycles := 1
  idNonempty := idNonempty

/-- A core whose cube lane waits for both vector lanes after a `sync_all`. -/
def waitingCore : CoreProgram where
  coreId := 0
  tasks :=
    [cubeSyncCall "sync-0" 0,
     crossFlag "wait" .waitCrossFlag 0 .cube .s .absent,
     crossFlag "set-0" .setCrossFlag 0 .vector0 .v .absent,
     crossFlag "set-1" .setCrossFlag 0 .vector1 .v .absent]

/-- A core that only takes part in the `sync_all`. -/
def joiningCore : CoreProgram where
  coreId := 1
  tasks := [cubeSyncCall "sync-1" 1]

/-- The waiting core comes first: its wait is released after the sets were placed. -/
def waitingCoreFirst : KernelProgram where
  cores := [waitingCore, joiningCore]

/-- The joining core comes first: the wait is released before the sets are placed. -/
def joiningCoreFirst : KernelProgram where
  cores := [joiningCore, waitingCore]

/-- A wait for credits after a `sync_all` makes the outcome depend on the order of the cores. -/
theorem released_wait_depends_on_coreOrder :
    Reordered waitingCoreFirst joiningCoreFirst ∧ BridgePlacement waitingCoreFirst ∧
      (∀ failure, run (flagBarrierSynchronizationModel {}) {} waitingCoreFirst = .error failure →
        failure.isOverflow = false) ∧
      (∀ failure, run (flagBarrierSynchronizationModel {}) {} joiningCoreFirst = .error failure →
        failure.isOverflow = false) ∧
      ¬ SameOutcome waitingCoreFirst
        (run (flagBarrierSynchronizationModel {}) {} waitingCoreFirst)
        (run (flagBarrierSynchronizationModel {}) {} joiningCoreFirst) := by
  have completes :
      failureOf (run (flagBarrierSynchronizationModel {}) {} waitingCoreFirst) = none := by
    decide +kernel
  have fails :
      failureOf (run (flagBarrierSynchronizationModel {}) {} joiningCoreFirst) =
        some (.validation "wait" (.missingCredit (.crossFlag 0 .v2c .vector0 0))) := by
    decide +kernel
  refine ⟨⟨List.Perm.swap _ _ _, rfl⟩, ⟨⟨by decide, by decide⟩, by decide, by decide, by decide⟩,
    isOverflow_of_failureOf (by rw [completes]; rfl),
    isOverflow_of_failureOf (by rw [fails]; rfl), ?_⟩
  intro same
  have bothFail := same.failureOf_isSome
  rw [completes, fails] at bothFail
  cases bothFail

/-- The cube lane of a core announces itself, waits for the others and joins a `sync_all`. -/
def announcingCore
    (coreId : Nat)
    (set wait mma call : TaskId)
    (duration : Nat)
    (setNonempty : set ≠ "" := by exact nonempty_of_check trivial)
    (waitNonempty : wait ≠ "" := by exact nonempty_of_check trivial)
    (mmaNonempty : mma ≠ "" := by exact nonempty_of_check trivial)
    (callNonempty : call ≠ "" := by exact nonempty_of_check trivial)
    (durationPositive : 0 < duration := by exact positive_of_check trivial) :
    CoreProgram where
  coreId := coreId
  tasks :=
    [crossFlag set .setCrossFlag coreId .cube .fix (.value 0) setNonempty,
     crossFlag wait .waitCrossFlag coreId .cube .s .absent waitNonempty,
     { taskId := mma, operation := .other "mma", coreId := coreId
       lane := .cube, pipe := .m, durationCycles := duration
       idNonempty := mmaNonempty, durationPositive := durationPositive },
     cubeSyncCall call coreId callNonempty]
  tasksOwned := by simp [crossFlag, cubeSyncCall]

/-- Two cores that wait for each other. -/
def announcingCores : KernelProgram where
  cores :=
    [announcingCore 0 "set-0" "wait-0" "mma-0" "sync-0" 30,
     announcingCore 1 "set-1" "wait-1" "mma-1" "sync-1" 10]

/-- The same two cores in the other order. -/
def announcingCoresSwapped : KernelProgram where
  cores :=
    [announcingCore 1 "set-1" "wait-1" "mma-1" "sync-1" 10,
     announcingCore 0 "set-0" "wait-0" "mma-0" "sync-0" 30]

/-- Both orders of the announcing cores yield the same cycles. -/
theorem announcingCores_coreOrder_free :
    failureOf (run (flagBarrierSynchronizationModel {}) {} announcingCores) = none ∧
      SameOutcome announcingCores
        (run (flagBarrierSynchronizationModel {}) {} announcingCores)
        (run (flagBarrierSynchronizationModel {}) {} announcingCoresSwapped) := by
  have completes :
      failureOf (run (flagBarrierSynchronizationModel {}) {} announcingCores) = none := by
    decide +kernel
  have otherCompletes :
      failureOf (run (flagBarrierSynchronizationModel {}) {} announcingCoresSwapped) = none := by
    decide +kernel
  have resets : (reset {} announcingCores).toOption.map (fun _ => ()) = some () := by
    decide +kernel
  obtain ⟨model, accepted, _⟩ := ok_of_observed resets
  have unreleased :
      ∀ task ∈ announcingCores.tasks, isWait task = true →
        ∀ other ∈ announcingCores.earlierTasks task,
          isSyncAllOn task.participant other = false := by
    decide +kernel
  refine ⟨completes, run_coreOrder_free ⟨List.Perm.swap _ _ _, rfl⟩ rfl rfl rfl
    ⟨⟨by decide, by decide⟩, by decide, by decide, by decide⟩ accepted
    ⟨fun task isTask waits _ => unreleased task isTask waits, by decide⟩
    (isOverflow_of_failureOf (by rw [completes]; rfl))
    (isOverflow_of_failureOf (by rw [otherCompletes]; rfl))⟩

end TilelangAscend.Simulator
