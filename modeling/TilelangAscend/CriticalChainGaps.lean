import TilelangAscend.CriticalChain
import TilelangAscend.TaskNeeds

namespace TilelangAscend.Simulator

open FlagBarrierModel

/-!
# Gaps in the critical chain

A task starts with its dependencies, its queue, the sets and rendezvous whose credits it
takes, or the fences before it.  The scheduler records the first three as critical
predecessors.  The synchronization model names no producer for a barrier, nor for the full
barriers and lane fences that a task is ordered after, so a chain that reaches a task which
such a fence delays ends there or continues with a gap.
-/

/-- Whether a barrier drains tasks before this task starts. -/
def drainsBeforeStart (model : FlagBarrierModel) (task : Task) : Bool :=
  (model.tables.syncAllReleaseDependencies task.taskId).isNone &&
    match task.operation with
    | .barrierAll | .pipeBarrier | .syncAll => true
    | _ => false

/-- Latest end among the tasks that fences make a task wait for. -/
def fenceCycle (model : FlagBarrierModel) (completed : Completed) (task : Task) : Nat :=
  max (maxEnd completed (model.tables.orderingDependencies task.taskId))
    (if drainsBeforeStart model task then
      maxEnd completed (model.tables.barrierDependencies task.taskId)
    else
      0)

/--
Whether the fences of a task end no later than its dependencies, its queue predecessor
and the producers of its credits.
-/
def fencesHidden (fifo : TaskId → Option TaskId) (state : RunState FlagBarrierModel)
    (task : Task) : Bool :=
  match state.sync.evaluate task state.completed with
  | .error _ => true
  | .ok decision =>
    fenceCycle state.sync state.completed task ≤
      max (maxEnd state.completed (executionDependencies task ++ (fifo task.taskId).toList))
        (maxEnd state.completed decision.producerTaskIds)

/-- The state in which a run places a task. -/
def stateBefore
    {σ : Type}
    (model : SynchronizationModel σ)
    (config : SimulatorConfig)
    (program : KernelProgram)
    (task : Task) :
    Option (RunState σ) := do
  let sync ← (model.reset program).toOption
  let final ← (scheduleState model config program).toOption
  replay model config program (RunState.initial sync)
    ((firingOrder program final).takeWhile (·.taskId ≠ task.taskId))

/-- Whether no fence alone delays a task when it is placed. -/
def FencesHiddenWhenPlaced (syncConfig : SyncConfig) (config : SimulatorConfig)
    (program : KernelProgram) (task : Task) : Prop :=
  ∀ state ∈ stateBefore (flagBarrierSynchronizationModel syncConfig) config program task,
    fencesHidden (fifoPredecessors program.tasks) state task = true

instance
    (syncConfig : SyncConfig)
    (config : SimulatorConfig)
    (program : KernelProgram)
    (task : Task) :
    Decidable (FencesHiddenWhenPlaced syncConfig config program task) :=
  match found :
      stateBefore (flagBarrierSynchronizationModel syncConfig) config program task with
  | none => isTrue (by simp [FencesHiddenWhenPlaced, found])
  | some state =>
    decidable_of_iff (fencesHidden (fifoPredecessors program.tasks) state task = true)
      (by simp [FencesHiddenWhenPlaced, found])

/-! ## Credits -/

/-- A credit that some queue, phase list or rendezvous holds. -/
inductive HoldsCredit
    (state : SyncState)
    (credit : Credit) :
    Prop where
  | queued
      (key : FlagKey) :
      credit ∈ state.tokens key → HoldsCredit state credit
  | produced
      (entry : CollectiveKey × Participant) :
      credit ∈ state.collectiveReady entry → HoldsCredit state credit
  | arrived
      (entry : SyncAllKey × Participant) :
      state.syncAllArrivals entry = some credit → HoldsCredit state credit

/-- The last cycle of a list of credits. -/
def latestCredit (credits : List Credit) : Nat :=
  (credits.map Credit.cycle).foldr max 0

section Credits

variable {syncConfig : SyncConfig} {config : SimulatorConfig} {program : KernelProgram}
  {log : List Task} {state : RunState FlagBarrierModel}

private theorem creditOf_recorded
    (fired : Fires (flagBarrierSynchronizationModel syncConfig) config program log state)
    {set : Task} (inLog : set ∈ log) :
    ∃ record,
      state.completed (creditOf state.completed set).taskId = some record ∧
        record.endCycle = (creditOf state.completed set).cycle := by
  obtain ⟨record, done⟩ := (fired.completed_iff set.taskId).mpr ⟨set, inLog, rfl⟩
  exact ⟨record, done, by simp [creditOf, done]⟩

variable {credit : Credit}

section

variable (fired : Fires (flagBarrierSynchronizationModel syncConfig) config program log state)
include fired

theorem Fires.arrival_recorded {entry : SyncAllKey × Participant}
    (arrived : state.sync.state.syncAllArrivals entry = some credit) :
    ∃ record, state.completed credit.taskId = some record ∧ record.endCycle = credit.cycle := by
  induction fired with
  | initial accepts =>
    have empty := (reset_accepted accepts).2
    simp [RunState.initial, empty] at arrived
  | @place earlierLog earlierState next task earlier isTask placed ih =>
    obtain ⟨step⟩ := attempt_placed placed
    obtain ⟨_, nextShape⟩ := step.sync_effect
    rw [nextShape] at arrived
    simp only [FlagBarrierModel.withState, FlagBarrierModel.effect] at arrived
    by_cases arrives : earlierState.sync.arrivesAt task entry
    · simp only [arrives, ↓reduceIte, Option.some.injEq] at arrived
      subst arrived
      exact ⟨step.record, step.completed_self, rfl⟩
    · simp only [arrives, ↓reduceIte] at arrived
      obtain ⟨record, done, ends⟩ := ih arrived
      exact ⟨record, step.completed_persists done, ends⟩

theorem Fires.credit_recorded (held : HoldsCredit state.sync.state credit) :
    ∃ record, state.completed credit.taskId = some record ∧ record.endCycle = credit.cycle := by
  cases held with
  | queued key member =>
    rw [(fired.tokens_eq key).1] at member
    obtain ⟨set, isSet, rfl⟩ := List.mem_map.mp (List.mem_of_mem_drop member)
    exact creditOf_recorded fired (List.mem_of_mem_filter isSet)
  | produced entry member =>
    rw [(fired.collective_eq entry).1] at member
    obtain ⟨set, isSet, rfl⟩ := List.mem_map.mp member
    exact creditOf_recorded fired (List.mem_of_mem_filter isSet)
  | arrived entry arrived => exact fired.arrival_recorded arrived

theorem Fires.maxEnd_producers {credits : List Credit}
    (held : ∀ credit ∈ credits, HoldsCredit state.sync.state credit) {producers : List TaskId}
    (named : ∀ taskId, taskId ∈ producers ↔ taskId ∈ credits.map Credit.taskId) :
    maxEnd state.completed producers = latestCredit credits := by
  apply le_antisymm
  · rcases maxEnd_attained state.completed producers with
        zero | ⟨taskId, member, record, done, attained⟩
    · omega
    · obtain ⟨credit, isCredit, rfl⟩ := List.mem_map.mp ((named taskId).mp member)
      obtain ⟨credited, isDone, ends⟩ := fired.credit_recorded (held credit isCredit)
      rw [done] at isDone
      cases isDone
      rw [attained, ends]
      exact List.le_max_of_le' 0 (List.mem_map_of_mem isCredit) le_rfl
  · refine List.max_le_of_forall_le (α := Nat) _ _ ?_
    intro cycle member
    obtain ⟨credit, isCredit, rfl⟩ := List.mem_map.mp member
    obtain ⟨credited, isDone, ends⟩ := fired.credit_recorded (held credit isCredit)
    rw [← ends]
    exact endCycle_le_maxEnd ((named _).mpr (List.mem_map_of_mem isCredit)) isDone

end

end Credits

/-! ## What releases a task -/

/-- A decision whose cycle is the latest of the fences and of credits that the model holds. -/
structure ReleasedBy
    (model : FlagBarrierModel)
    (fences : Nat)
    (decision : SyncDecision)
    (cycle : Nat)
    (credits : List Credit) :
    Prop where
  held : ∀ credit ∈ credits, HoldsCredit model.state credit
  named :
    ∀ taskId, taskId ∈ decision.producerTaskIds ↔ taskId ∈ credits.map Credit.taskId
  latest : cycle = max fences (latestCredit credits)

section Decisions

variable {model : FlagBarrierModel} {task : Task} {completed : Completed}
  {decision : SyncDecision} {orderingCycle cycle : Nat}

private theorem releasedBy_fences
    {fences : Nat}
    (released : ({ readyCycle := some fences } : SyncDecision).readyCycle = some cycle)
    {reason : Option SyncReason} :
    ReleasedBy model fences { readyCycle := some fences, reason := reason } cycle [] where
  held := by simp
  named := by simp
  latest := by
    simp only [Option.some.injEq] at released
    simp [latestCredit, released]

private theorem evaluateRelease_releasedBy {key : SyncAllKey}
    (released : (model.evaluateRelease key orderingCycle).readyCycle = some cycle) :
    ReleasedBy model orderingCycle (model.evaluateRelease key orderingCycle) cycle
      (model.arrivals key) := by
  unfold evaluateRelease at released ⊢
  split
  · rename_i missing
    simp [missing, SyncDecision.blockedBy] at released
  · rename_i present
    simp only [present, Bool.false_eq_true, ↓reduceIte, Option.some.injEq] at released
    refine ⟨?_, ?_, released.symm⟩
    · intro credit member
      obtain ⟨participant, _, arrived⟩ := List.mem_filterMap.mp member
      exact .arrived _ arrived
    · intro taskId
      exact List.mem_eraseDups

private theorem evaluateCredits_releasedBy {keys : List FlagKey} {reason : SyncReason}
    (released : (model.evaluateCredits keys reason orderingCycle).readyCycle = some cycle) :
    ReleasedBy model orderingCycle (model.evaluateCredits keys reason orderingCycle) cycle
      (keys.filterMap fun key => (model.state.tokens key).head?) := by
  unfold evaluateCredits at released ⊢
  split
  · rename_i missing
    simp [missing, SyncDecision.blockedBy] at released
  · rename_i present
    simp only [present, Bool.false_eq_true, ↓reduceIte, Option.some.injEq] at released
    refine ⟨?_, fun taskId => Iff.rfl, released.symm⟩
    intro credit member
    obtain ⟨key, _, isHead⟩ := List.mem_filterMap.mp member
    exact .queued key (List.mem_of_head? isHead)

private theorem evaluateCollectiveWait_releasedBy {mode : CrossMode}
    (evaluated : model.evaluateCollectiveWait task mode orderingCycle = .ok decision)
    (released : decision.readyCycle = some cycle) :
    ∃ credits, ReleasedBy model orderingCycle decision cycle credits := by
  unfold evaluateCollectiveWait at evaluated
  split at evaluated
  · cases evaluated
  · rename_i key keyed
    simp only at evaluated
    split at evaluated
    · simp only [Except.ok.injEq] at evaluated
      subst evaluated
      cases released
    · simp only [Except.ok.injEq] at evaluated
      subst evaluated
      simp only [Option.some.injEq] at released
      refine ⟨_, ?_, fun taskId => Iff.rfl, released.symm⟩
      intro credit member
      obtain ⟨participant, _, found⟩ := List.mem_filterMap.mp member
      exact .produced _ (List.mem_of_getElem? found)

private theorem evaluateLocalSet_releasedBy
    (evaluated : model.evaluateLocalSet task orderingCycle = .ok decision)
    (released : decision.readyCycle = some cycle) :
    ReleasedBy model orderingCycle decision cycle [] := by
  unfold evaluateLocalSet at evaluated
  split at evaluated
  · split at evaluated
    · cases evaluated
    · split at evaluated
      · cases evaluated
        cases released
      · cases evaluated
        exact releasedBy_fences released
  · cases evaluated
    exact releasedBy_fences released

private theorem evaluateCrossSet_releasedBy
    (evaluated : model.evaluateCrossSet task orderingCycle = .ok decision)
    (released : decision.readyCycle = some cycle) :
    ReleasedBy model orderingCycle decision cycle [] := by
  unfold evaluateCrossSet at evaluated
  split at evaluated
  · split at evaluated
    · cases evaluated
    · split at evaluated
      · cases evaluated
      · split at evaluated
        · cases evaluated
          cases released
        · cases evaluated
          exact releasedBy_fences released
    · cases evaluated
      exact releasedBy_fences released
  · cases evaluated
    exact releasedBy_fences released

private theorem evaluateCrossWait_releasedBy
    (evaluated : model.evaluateCrossWait task orderingCycle = .ok decision)
    (released : decision.readyCycle = some cycle) :
    ∃ credits, ReleasedBy model orderingCycle decision cycle credits := by
  unfold evaluateCrossWait at evaluated
  split at evaluated
  · cases evaluated
  · cases evaluated
    cases released
  · split at evaluated
    · cases evaluated
    · cases evaluated
      exact ⟨_, evaluateCredits_releasedBy released⟩
  · exact evaluateCollectiveWait_releasedBy evaluated released

private theorem evaluateBarrier_releasedBy
    (released : (model.evaluateBarrier task completed orderingCycle).readyCycle = some cycle) :
    ReleasedBy model
      (max orderingCycle (maxEnd completed (model.tables.barrierDependencies task.taskId)))
      (model.evaluateBarrier task completed orderingCycle) cycle [] := by
  simp only [evaluateBarrier] at released ⊢
  split
  · rename_i missing
    simp [missing, SyncDecision.blockedBy] at released
  · rename_i present
    simp only [present, Bool.false_eq_true, ↓reduceIte, Option.some.injEq] at released
    rw [max_comm] at released
    refine ⟨by simp, by simp, ?_⟩
    simp [latestCredit, released]

private theorem fenceCycle_of_not_drains (keeps : drainsBeforeStart model task = false) :
    fenceCycle model completed task =
      maxEnd completed (model.tables.orderingDependencies task.taskId) := by
  simp [fenceCycle, keeps]

private theorem evaluateOperation_releasedBy
    (notReleased : model.tables.syncAllReleaseDependencies task.taskId = none)
    (evaluated :
      model.evaluateOperation task completed
        (maxEnd completed (model.tables.orderingDependencies task.taskId)) = .ok decision)
    (released : decision.readyCycle = some cycle) :
    ∃ credits, ReleasedBy model (fenceCycle model completed task) decision cycle credits := by
  have drained :
      drainsBeforeStart model task = true →
      fenceCycle model completed task =
        max (maxEnd completed (model.tables.orderingDependencies task.taskId))
          (maxEnd completed (model.tables.barrierDependencies task.taskId)) := by
    intro drains
    simp [fenceCycle, drains]
  unfold evaluateOperation at evaluated
  cases operation : task.operation with
  | setFlag =>
    simp only [operation] at evaluated
    rw [fenceCycle_of_not_drains (by simp [drainsBeforeStart, operation])]
    exact ⟨_, evaluateLocalSet_releasedBy evaluated released⟩
  | setCrossFlag =>
    simp only [operation] at evaluated
    rw [fenceCycle_of_not_drains (by simp [drainsBeforeStart, operation])]
    exact ⟨_, evaluateCrossSet_releasedBy evaluated released⟩
  | waitFlag =>
    simp only [operation] at evaluated
    rw [fenceCycle_of_not_drains (by simp [drainsBeforeStart, operation])]
    split at evaluated
    · cases evaluated
    · cases evaluated
      exact ⟨_, evaluateCredits_releasedBy released⟩
  | waitCrossFlag =>
    simp only [operation] at evaluated
    rw [fenceCycle_of_not_drains (by simp [drainsBeforeStart, operation])]
    exact evaluateCrossWait_releasedBy evaluated released
  | other name =>
    simp only [operation] at evaluated
    rw [fenceCycle_of_not_drains (by simp [drainsBeforeStart, operation])]
    cases evaluated
    exact ⟨_, releasedBy_fences released⟩
  | barrierAll | syncAll | pipeBarrier =>
    simp only [operation] at evaluated
    rw [drained (by simp [drainsBeforeStart, operation, notReleased])]
    cases evaluated
    exact ⟨_, evaluateBarrier_releasedBy released⟩

theorem evaluate_releasedBy (evaluated : model.evaluate task completed = .ok decision)
    (released : decision.readyCycle = some cycle) :
    ∃ credits, ReleasedBy model (fenceCycle model completed task) decision cycle credits := by
  simp only [evaluate] at evaluated
  split at evaluated
  · cases evaluated
    cases released
  · split at evaluated
    · rename_i key isReleased
      cases evaluated
      rw [fenceCycle_of_not_drains (by simp [drainsBeforeStart, isReleased])]
      exact ⟨_, evaluateRelease_releasedBy released⟩
    · rename_i notReleased
      exact evaluateOperation_releasedBy notReleased evaluated released

end Decisions

/-! ## The start of a placed task -/

section Steps

variable {syncConfig : SyncConfig} {config : SimulatorConfig} {program : KernelProgram}
  {log : List Task} {state next : RunState FlagBarrierModel} {task : Task}
  {fifo : TaskId → Option TaskId}

theorem Fires.synchronizationCycle_eq
    (fired : Fires (flagBarrierSynchronizationModel syncConfig) config program log state)
    (step : PlacedStep (flagBarrierSynchronizationModel syncConfig) fifo state task next) :
    step.synchronizationCycle =
      max (fenceCycle state.sync state.completed task)
        (maxEnd state.completed step.decision.producerTaskIds) := by
  obtain ⟨credits, releasedBy⟩ := evaluate_releasedBy step.evaluated step.released
  rw [releasedBy.latest, fired.maxEnd_producers releasedBy.held releasedBy.named]

theorem PlacedStep.fencesHidden_iff
    (step : PlacedStep (flagBarrierSynchronizationModel syncConfig) fifo state task next) :
    fencesHidden fifo state task = true ↔
      fenceCycle state.sync state.completed task ≤
        max (max step.placement.dependencyCycle step.placement.resourceCycle)
          (maxEnd state.completed step.decision.producerTaskIds) := by
  have evaluated : state.sync.evaluate task state.completed = .ok step.decision := step.evaluated
  simp only [fencesHidden, evaluated, decide_eq_true_eq, maxEnd_append]
  exact Iff.rfl

theorem PlacedStep.mem_items {σ : Type} {model : SynchronizationModel σ}
    {state next : RunState σ} (step : PlacedStep model fifo state task next)
    {item : EdgeKind × TaskId} :
    item ∈ step.record.metadata.criticalPredecessors.items ↔
      step.placement.startCycle ≠ 0 ∧
        match item.1 with
        | .explicit =>
          step.placement.dependencyCycle = step.placement.startCycle ∧
            item.2 ∈ executionDependencies task ∧
            (state.completed item.2).any (·.endCycle = step.placement.dependencyCycle) = true
        | .fifo =>
          step.placement.resourceCycle = step.placement.startCycle ∧ fifo task.taskId = some item.2
        | .synchronization =>
          step.placement.synchronizationCycle = step.placement.startCycle ∧
            item.2 ∈ step.decision.producerTaskIds := by
  have shape :
      step.record.metadata.criticalPredecessors =
        criticalPredecessors state.completed task (fifo task.taskId) step.decision step.placement :=
    rfl
  obtain ⟨kind, taskId⟩ := item
  rw [shape, criticalPredecessors]
  by_cases zero : step.placement.startCycle = 0
  · simp [zero, PredecessorEdges.items]
  · simp only [zero, ↓reduceIte, ne_eq, not_false_eq_true, true_and, PredecessorEdges.items,
      List.mem_append, List.mem_map, Prod.mk.injEq]
    cases kind with
    | explicit =>
      by_cases attained : step.placement.dependencyCycle = step.placement.startCycle
      · simp [attained]
      · simp [attained]
    | fifo =>
      by_cases attained : step.placement.resourceCycle = step.placement.startCycle
      · simp [attained]
      · simp [attained]
    | synchronization =>
      by_cases attained : step.placement.synchronizationCycle = step.placement.startCycle
      · simp [attained]
      · simp [attained]

private theorem exists_of_maxEnd {completed : Completed} {taskIds : List TaskId}
    {cycle : Nat} (positive : cycle ≠ 0) (latest : maxEnd completed taskIds = cycle) :
    ∃ taskId ∈ taskIds, ∃ record, completed taskId = some record ∧ record.endCycle = cycle := by
  rcases maxEnd_attained completed taskIds with zero | ⟨taskId, member, record, done, attained⟩
  · omega
  · exact ⟨taskId, member, record, done, by omega⟩

theorem Fires.explained_iff
    (fired : Fires (flagBarrierSynchronizationModel syncConfig) config program log state)
    (step : PlacedStep (flagBarrierSynchronizationModel syncConfig) fifo state task next) :
    Explained state.completed step.record ↔ fencesHidden fifo state task = true := by
  rw [step.fencesHidden_iff]
  have synchronization :
      step.placement.synchronizationCycle =
        max (fenceCycle state.sync state.completed task)
          (maxEnd state.completed step.decision.producerTaskIds) :=
    fired.synchronizationCycle_eq step
  have start :
      step.placement.startCycle =
        max (max step.placement.dependencyCycle step.placement.synchronizationCycle)
          step.placement.resourceCycle :=
    rfl
  constructor
  · rintro (zero | ⟨⟨kind, taskId⟩, member, predecessor, found, ends⟩)
    · rw [step.record_startCycle] at zero
      omega
    · rw [step.record_startCycle] at ends
      obtain ⟨_, source⟩ := step.mem_items.mp member
      cases kind with
      | explicit =>
        have attained := source.1
        omega
      | fifo =>
        have attained := source.1
        omega
      | synchronization =>
        have bounded := endCycle_le_maxEnd source.2 found
        omega
  · intro hidden
    by_cases zero : step.placement.startCycle = 0
    · exact Or.inl zero
    · refine Or.inr ?_
      rcases (by omega :
          step.placement.dependencyCycle = step.placement.startCycle ∨
            step.placement.resourceCycle = step.placement.startCycle ∨
            maxEnd state.completed step.decision.producerTaskIds =
              step.placement.startCycle) with byDependency | byQueue | byProducer
      · obtain ⟨taskId, member, record, done, ends⟩ := exists_of_maxEnd zero byDependency
        refine ⟨(.explicit, taskId), step.mem_items.mpr ⟨zero, byDependency, member, ?_⟩,
          record, done, ends⟩
        simp [done, ends, byDependency]
      · obtain ⟨taskId, member, record, done, ends⟩ := exists_of_maxEnd zero byQueue
        exact ⟨(.fifo, taskId),
          step.mem_items.mpr ⟨zero, byQueue, Option.mem_toList.mp member⟩,
          record, done, ends⟩
      · obtain ⟨taskId, member, record, done, ends⟩ := exists_of_maxEnd zero byProducer
        exact ⟨(.synchronization, taskId),
          step.mem_items.mpr ⟨zero, by omega, member⟩, record, done, ends⟩

end Steps

/-! ## Steps of a completed run -/

section Runs

variable {σ : Type} {model : SynchronizationModel σ} {config : SimulatorConfig}
  {program : KernelProgram} {log : List Task} {state : RunState σ}

theorem replay_append {first second : List Task} :
    replay model config program state (first ++ second) =
      (replay model config program state first).bind fun middle =>
        replay model config program middle second := by
  induction first generalizing state with
  | nil => rfl
  | cons task rest ih =>
    simp only [List.cons_append, replay]
    split
    · rename_i next placed
      exact ih
    · rfl

theorem Fires.replayed (fired : Fires model config program log state) :
    ∃ sync,
      model.reset program = .ok sync ∧
        replay model config program (RunState.initial sync) log = some state := by
  induction fired with
  | initial accepts => exact ⟨_, accepts, rfl⟩
  | @place earlierLog earlierState next task earlier isTask placed ih =>
    obtain ⟨sync, accepts, reached⟩ := ih
    refine ⟨sync, accepts, ?_⟩
    rw [replay_append, reached]
    simp [replay, placed]

variable {older newer : List Task} {task : Task}

private theorem takeWhile_before (distinct : ((older ++ task :: newer).map Task.taskId).Nodup) :
    (older ++ task :: newer).takeWhile (·.taskId ≠ task.taskId) = older := by
  have differs : ∀ other ∈ older, other.taskId ≠ task.taskId := by
    intro other member same
    rw [List.map_append, List.nodup_append] at distinct
    exact distinct.2.2 other.taskId (List.mem_map_of_mem member) task.taskId (by simp) same
  rw [List.takeWhile_append_of_pos (by simpa using differs)]
  simp

theorem stateBefore_eq {final earlier : RunState σ}
    (scheduled : scheduleState model config program = .ok final)
    (fired : Fires model config program log final) (shape : log = older ++ task :: newer)
    (firedBefore : Fires model config program older earlier) :
    stateBefore model config program task = some earlier := by
  obtain ⟨sync, accepts, replayed⟩ := firedBefore.replayed
  have distinct := fired.log_nodup
  rw [shape] at distinct
  have isBefore : (firingOrder program final).takeWhile (·.taskId ≠ task.taskId) = older := by
    rw [fired.firingOrder_eq, shape, takeWhile_before distinct]
  unfold stateBefore
  rw [accepts, scheduled]
  simp only [Except.toOption, Option.bind_eq_bind, Option.bind_some]
  rw [isBefore, replayed]

end Runs

/-! ## The chain of a completed run -/

section Chain

variable {syncConfig : SyncConfig} {config : SimulatorConfig} {program : KernelProgram}
  {log : List Task} {state next : RunState FlagBarrierModel} {task : Task}

theorem Fires.item_done
    (fired : Fires (flagBarrierSynchronizationModel syncConfig) config program log state)
    {fifo : TaskId → Option TaskId}
    (step : PlacedStep (flagBarrierSynchronizationModel syncConfig) fifo state task next)
    {item : EdgeKind × TaskId} (member : item ∈ step.record.metadata.criticalPredecessors.items) :
    ∃ record, state.completed item.2 = some record := by
  obtain ⟨kind, taskId⟩ := item
  obtain ⟨_, source⟩ := step.mem_items.mp member
  cases kind with
  | explicit =>
    obtain ⟨record, done, _⟩ := step.dependency_done source.2.1
    exact ⟨record, done⟩
  | fifo =>
    obtain ⟨record, done, _⟩ := step.predecessor_done source.2
    exact ⟨record, done⟩
  | synchronization =>
    obtain ⟨credits, releasedBy⟩ := evaluate_releasedBy step.evaluated step.released
    obtain ⟨credit, isCredit, same⟩ := List.mem_map.mp ((releasedBy.named _).mp source.2)
    obtain ⟨record, done, _⟩ := fired.credit_recorded (releasedBy.held credit isCredit)
    rw [same] at done
    exact ⟨record, done⟩

variable {σ : Type} {model : SynchronizationModel σ} {taskId : TaskId}
  {record terminal : ExecutionRecord}

theorem Fires.operationTable_eq {state : RunState σ}
    (fired : Fires model config program log state) :
    operationTable state.result.records = state.completed := by
  have describes := fired.recordsDescribe
  funext taskId
  cases done : state.completed taskId with
  | some record =>
    unfold operationTable
    rw [fired.operations_singleton done]
    rfl
  | none =>
    unfold operationTable
    rw [List.getLast?_eq_none_iff, List.filter_eq_nil_iff]
    intro record member
    rw [isOperationOf, decide_eq_true_eq]
    rintro ⟨isOperation, rfl⟩
    have completed := describes.operations record (mem_result_records.mp member) isOperation
    rw [done] at completed
    cases completed

theorem Fires.mem_operationIds {state : RunState σ}
    (fired : Fires model config program log state) :
    taskId ∈ operationIds state.result.records ↔
      ∃ record, state.completed taskId = some record := by
  have describes := fired.recordsDescribe
  unfold operationIds
  rw [List.mem_eraseDups, List.mem_map]
  constructor
  · rintro ⟨record, member, rfl⟩
    obtain ⟨isRecord, isOperation⟩ := List.mem_filter.mp member
    exact ⟨record, describes.operations record (mem_result_records.mp isRecord)
      (of_decide_eq_true isOperation)⟩
  · rintro ⟨record, done⟩
    obtain ⟨member, isOperation, identifier⟩ := describes.listed taskId record done
    exact ⟨record,
      List.mem_filter.mpr ⟨mem_result_records.mpr member, decide_eq_true isOperation⟩,
      identifier⟩

theorem Fires.completed_keyed {state : RunState σ} (fired : Fires model config program log state)
    (done : state.completed taskId = some record) :
    record.taskId = taskId ∧ record.startCycle < record.endCycle := by
  obtain ⟨_, _, identifier⟩ := fired.recordsDescribe.listed taskId record done
  obtain ⟨task, inLog, same⟩ := (fired.completed_iff taskId).mp ⟨record, done⟩
  subst same
  have duration := fired.record_duration (fired.log_mem inLog) done
  have positive := task.durationPositive
  exact ⟨identifier, by omega⟩

theorem explained_iff_hidden {final : RunState FlagBarrierModel}
    (scheduled :
      scheduleState (flagBarrierSynchronizationModel syncConfig) config program = .ok final)
    (fired : Fires (flagBarrierSynchronizationModel syncConfig) config program log final)
    (inLog : task ∈ log)
    (done : final.completed task.taskId = some record) :
    Explained final.completed record ↔ FencesHiddenWhenPlaced syncConfig config program task := by
  obtain ⟨older, newer, shape⟩ := List.mem_iff_append.mp inLog
  obtain ⟨earlier, next, firedBefore, step, isDone, persists⟩ := fired.step_at shape
  rw [done] at isDone
  cases isDone
  have before := stateBefore_eq scheduled fired shape firedBefore
  have hidden :
      FencesHiddenWhenPlaced syncConfig config program task ↔
        fencesHidden (fifoPredecessors program.tasks) earlier task = true := by
    simp [FencesHiddenWhenPlaced, before]
  rw [hidden, ← firedBefore.explained_iff step]
  constructor
  · rintro (zero | ⟨item, member, predecessor, found, ends⟩)
    · exact Or.inl zero
    · obtain ⟨earlierRecord, earlierDone⟩ := firedBefore.item_done step member
      have same := persists _ _ earlierDone
      rw [found] at same
      cases same
      exact Or.inr ⟨item, member, predecessor, earlierDone, ends⟩
  · rintro (zero | ⟨item, member, predecessor, found, ends⟩)
    · exact Or.inl zero
    · exact Or.inr ⟨item, member, predecessor, persists _ _ found, ends⟩

theorem terminalOperation_ends {state : RunState σ} (fired : Fires model config program log state)
    (isTerminal : terminalOperation state.result.records = some terminal) :
    state.completed terminal.taskId = some terminal ∧
      terminal.endCycle = state.result.makespanCycles := by
  unfold terminalOperation at isTerminal
  rw [fired.operationTable_eq] at isTerminal
  obtain ⟨taskId, _, done⟩ :=
    List.mem_filterMap.mp (List.argmax_mem (Option.mem_def.mpr isTerminal))
  have identifier := (fired.completed_keyed done).1
  rw [← identifier] at done
  refine ⟨done, le_antisymm (fired.end_le_makespan done) ?_⟩
  rcases fired.makespan_attained with ⟨_, zero⟩ | ⟨task, _, record, isDone, attained⟩
  · omega
  · have listed :
        record ∈ (operationIds state.result.records).filterMap state.completed :=
      List.mem_filterMap.mpr ⟨task.taskId, fired.mem_operationIds.mpr ⟨record, isDone⟩, isDone⟩
    have ordered : terminalKey record ≤ terminalKey terminal :=
      List.le_of_mem_argmax listed (Option.mem_def.mpr isTerminal)
    rw [attained]
    rcases (Prod.Lex.le_iff (x := terminalKey record) (y := terminalKey terminal)).mp
        ordered with earlier | ⟨same, _⟩
    · exact le_of_lt earlier
    · exact le_of_eq same

theorem terminalOperation_isSome {state : RunState σ}
    (fired : Fires model config program log state) (inLog : task ∈ log) :
    ∃ terminal, terminalOperation state.result.records = some terminal := by
  cases found : terminalOperation state.result.records with
  | some terminal => exact ⟨terminal, rfl⟩
  | none =>
    obtain ⟨record, done⟩ := (fired.completed_iff task.taskId).mpr ⟨task, inLog, rfl⟩
    have listed : record ∈ (operationIds state.result.records).filterMap state.completed :=
      List.mem_filterMap.mpr ⟨task.taskId, fired.mem_operationIds.mpr ⟨record, done⟩, done⟩
    unfold terminalOperation at found
    rw [fired.operationTable_eq, List.argmax_eq_none] at found
    rw [found] at listed
    simp at listed

theorem walkBack_completed {state : RunState σ} (fired : Fires model config program log state)
    (done : state.completed terminal.taskId = some terminal) :
    Walk state.completed [terminal.taskId] terminal
      (walkBack state.completed (operationIds state.result.records).length
        [terminal.taskId] terminal) := by
  have keyed (taskId : TaskId) (record : ExecutionRecord)
      (isDone : state.completed taskId = some record) :
      record.taskId = taskId ∧ taskId ∈ operationIds state.result.records :=
    ⟨(fired.completed_keyed isDone).1, fired.mem_operationIds.mpr ⟨record, isDone⟩⟩
  refine walkBack_walk keyed (by simp) ?_ (by simp)
  · intro taskId member
    rw [List.mem_singleton.mp member]
    exact fired.mem_operationIds.mpr ⟨terminal, done⟩

theorem gapFree_iff_tight {state : RunState σ} (fired : Fires model config program log state)
    (done : state.completed terminal.taskId = some terminal)
    (latest : terminal.endCycle = state.result.makespanCycles) {entries : List ChainEntry}
    (walk : Walk state.completed [terminal.taskId] terminal entries) :
    GapFree state.result
        { terminalTaskId := terminal.taskId
          spanCycles := terminal.endCycle - (firstOperation terminal entries).startCycle
          operationCycles :=
            ((terminal :: entries.map ChainEntry.record).map ExecutionRecord.durationCycles).sum
          steps := chainSteps terminal entries } ↔
      Tight terminal entries := by
  have found := walk.operations_found fun taskId record isDone => (fired.completed_keyed isDone).1
  constructor
  · intro gapFree
    obtain ⟨toSuccessor, head⟩ := chainSteps_head terminal entries
    obtain ⟨first, isFirst, zero⟩ := gapFree.startsAtZero
    rw [head] at isFirst
    cases isFirst
    exact (tight_iff terminal entries).mpr ⟨gapFree.adjacent, zero⟩
  · intro tight
    obtain ⟨adjacent, zero⟩ := (tight_iff terminal entries).mp tight
    have ordered :
        ∀ record ∈ terminal :: entries.map ChainEntry.record,
          record.startCycle ≤ record.endCycle := by
      intro record member
      rcases List.mem_cons.mp member with rfl | inRest
      · exact le_of_lt (fired.completed_keyed done).2
      · obtain ⟨entry, isEntry, rfl⟩ := List.mem_map.mp inRest
        exact le_of_lt (fired.completed_keyed (found entry isEntry)).2
    refine {
      operations := ?_
      startsAtZero := ?_
      endsLatest := ?_
      adjacent := adjacent
      spanIsMakespan := ?_
      workIsMakespan := ?_ }
    · intro step member
      rw [fired.operation?_eq]
      rcases List.mem_append.mp member with inRest | isLast
      · obtain ⟨entry, isEntry, rfl⟩ := List.mem_map.mp (List.mem_reverse.mp inRest)
        exact ⟨entry.record, found entry isEntry, rfl⟩
      · rw [List.mem_singleton.mp isLast]
        exact ⟨terminal, done, rfl⟩
    · obtain ⟨toSuccessor, head⟩ := chainSteps_head terminal entries
      exact ⟨_, head, zero⟩
    · refine ⟨_, chainSteps_getLast terminal entries, latest, ?_⟩
      intro record member
      refine le_trans ?_ (le_of_eq latest.symm)
      exact List.le_max_of_le' 0 (List.mem_map_of_mem (mem_result_records.mp member)) le_rfl
    · rw [← latest, zero]
      exact Nat.sub_zero _
    · rw [← latest]
      exact tight.durations ordered

end Chain

private theorem run_scheduled {σ : Type} {model : SynchronizationModel σ}
    {config : SimulatorConfig} {program : KernelProgram} {result : ScheduleResult}
    (completes : run model config program = .ok result) :
    ∃ final, scheduleState model config program = .ok final ∧ result = final.result := by
  unfold run at completes
  split at completes
  · cases completes
  · rename_i final scheduled
    split at completes
    · cases completes
    · cases completes
      exact ⟨final, scheduled, rfl⟩

/--
The chain that a report derives from a completed run has no gap when no fence alone
delayed a task of the run; a chain without a gap passes no task that a fence alone
delayed.
-/
theorem criticalChain_gapFree
    (syncConfig : SyncConfig)
    (config : SimulatorConfig)
    (program : KernelProgram)
    (result : ScheduleResult)
    (completes : run (flagBarrierSynchronizationModel syncConfig) config program = .ok result) :
    (program.tasks ≠ [] → (criticalChain result.records).isSome) ∧
      ∀ chain, criticalChain result.records = some chain →
        ((∀ task ∈ program.tasks, FencesHiddenWhenPlaced syncConfig config program task) →
          GapFree result chain) ∧
        (GapFree result chain →
          ∀ task ∈ program.tasks, task.taskId ∈ chain.steps.map ChainStep.taskId →
            FencesHiddenWhenPlaced syncConfig config program task) := by
  obtain ⟨final, scheduled, rfl⟩ := run_scheduled completes
  obtain ⟨log, fired, complete⟩ := scheduleState_fires scheduled
  constructor
  · intro nonempty
    obtain ⟨task, isTask⟩ := List.exists_mem_of_ne_nil _ nonempty
    obtain ⟨terminal, isTerminal⟩ := terminalOperation_isSome fired (complete task isTask)
    simp [criticalChain, isTerminal]
  · intro chain derived
    unfold criticalChain at derived
    cases isTerminal : terminalOperation final.result.records with
    | none => simp [isTerminal] at derived
    | some terminal =>
      simp only [isTerminal, Option.some.injEq, fired.operationTable_eq] at derived
      obtain ⟨done, latest⟩ := terminalOperation_ends fired isTerminal
      have walk := walkBack_completed fired done
      have promised := gapFree_iff_tight fired done latest walk
      rw [derived] at promised
      rw [promised]
      have explained : ∀ task ∈ log, ∀ record, final.completed task.taskId = some record →
          (Explained final.completed record ↔
            FencesHiddenWhenPlaced syncConfig config program task) :=
        fun task inLog record isDone => explained_iff_hidden scheduled fired inLog isDone
      constructor
      · intro hidden
        refine walk.tight (fun _ _ isDone => fired.completed_keyed isDone) done ?_ ?_
        · intro taskId member record isDone
          rw [List.mem_singleton.mp member, done] at isDone
          cases isDone
          exact (fired.completed_keyed done).2
        · intro taskId record isDone
          obtain ⟨task, inLog, rfl⟩ := (fired.completed_iff taskId).mp ⟨record, isDone⟩
          exact (explained task inLog record isDone).mpr (hidden task (fired.log_mem inLog))
      · intro tight task isTask onChain
        obtain ⟨record, isDone⟩ := (fired.completed_iff_mem_log isTask).mpr (complete task isTask)
        refine (explained task (complete task isTask) record isDone).mp ?_
        refine walk.explained tight record ?_
        rw [← derived] at onChain
        obtain ⟨step, member, identifier⟩ := List.mem_map.mp onChain
        obtain ⟨visited, isVisited, describes⟩ := record_of_mem_chainSteps member
        have visitedDone : final.completed visited.taskId = some visited := by
          rcases List.mem_cons.mp isVisited with rfl | inRest
          · exact done
          · obtain ⟨entry, isEntry, rfl⟩ := List.mem_map.mp inRest
            exact walk.operations_found
              (fun _ _ found => (fired.completed_keyed found).1) entry isEntry
        have same : visited.taskId = task.taskId := by
          rw [← identifier, describes]
          rfl
        rw [same, isDone] at visitedDone
        cases visitedDone
        exact isVisited

/-- A load whose flag releases a matrix task. -/
def flaggedLoad : KernelProgram where
  cores :=
    [{ coreId := 0
       tasks :=
         [{ taskId := "load", operation := .other "copy", coreId := 0
            lane := .cube, pipe := .mte2, durationCycles := 4 },
          { taskId := "set", operation := .setFlag, coreId := 0
            lane := .cube, pipe := .mte2, durationCycles := 1
            metadata :=
              { srcPipe := some (.pipe .mte2), dstPipe := some (.pipe .m)
                flagId := .value 0 } },
          { taskId := "wait", operation := .waitFlag, coreId := 0
            lane := .cube, pipe := .m, durationCycles := 1
            metadata :=
              { srcPipe := some (.pipe .mte2), dstPipe := some (.pipe .m)
                flagId := .value 0 } },
          { taskId := "mma", operation := .other "mma", coreId := 0
            lane := .cube, pipe := .m, durationCycles := 10 }] }]

/-- The chain of the flagged load runs through the flag and fills the whole run. -/
theorem flaggedLoad_gapFree :
    ∃ result chain,
      run (flagBarrierSynchronizationModel {}) {} flaggedLoad = .ok result ∧
        criticalChain result.records = some chain ∧
        chain.steps.map ChainStep.taskId = ["load", "set", "wait", "mma"] ∧
        GapFree result chain := by
  have derived :
      (run (flagBarrierSynchronizationModel {}) {} flaggedLoad).toOption.map
          (fun result => (criticalChain result.records).map fun chain =>
            chain.steps.map ChainStep.taskId) =
        some (some ["load", "set", "wait", "mma"]) := by
    decide +kernel
  have hidden : ∀ task ∈ flaggedLoad.tasks, FencesHiddenWhenPlaced {} {} flaggedLoad task := by
    decide +kernel
  obtain ⟨result, completes, steps⟩ := ok_of_observed derived
  obtain ⟨chain, isChain, visits⟩ := Option.map_eq_some_iff.mp steps
  have promised := (criticalChain_gapFree {} {} flaggedLoad result completes).2 chain isChain
  exact ⟨result, chain, completes, isChain, visits, promised.1 hidden⟩

/-- A load and a barrier of its lane. -/
def loadThenBarrier : KernelProgram where
  cores :=
    [{ coreId := 0
       tasks :=
         [{ taskId := "load", operation := .other "copy", coreId := 0
            lane := .cube, pipe := .mte2, durationCycles := 4 },
          { taskId := "barrier", operation := .barrierAll, coreId := 0
            lane := .cube, pipe := .s, durationCycles := 1 }] }]

/-- The chain of the load and the barrier starts with the barrier, at cycle 4. -/
theorem loadThenBarrier_gap :
    ¬ ∀ (syncConfig : SyncConfig) (config : SimulatorConfig) (program : KernelProgram)
        (result : ScheduleResult) (chain : CriticalChain),
        run (flagBarrierSynchronizationModel syncConfig) config program = .ok result →
        criticalChain result.records = some chain →
        GapFree result chain := by
  intro gapFree
  have derived :
      (run (flagBarrierSynchronizationModel {}) {} loadThenBarrier).toOption.map
          (fun result => (criticalChain result.records).map fun chain =>
            chain.steps.map fun step => (step.taskId, step.startCycle)) =
        some (some [("barrier", 4)]) := by
    decide +kernel
  obtain ⟨result, completes, steps⟩ := ok_of_observed derived
  obtain ⟨chain, isChain, visits⟩ := Option.map_eq_some_iff.mp steps
  obtain ⟨first, isFirst, zero⟩ := (gapFree {} {} _ result chain completes isChain).startsAtZero
  cases shape : chain.steps with
  | nil => simp [shape] at visits
  | cons step rest =>
    simp only [shape, List.head?_cons, Option.some.injEq] at isFirst
    subst isFirst
    simp [shape, zero] at visits

end TilelangAscend.Simulator
