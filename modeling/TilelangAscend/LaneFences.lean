import TilelangAscend.ResetTables

namespace TilelangAscend.Simulator

open ListHistory

/-!
# Lane fences and drains

Runs of the flag and barrier model keep the tables that `reset` built.  Every placed
task has therefore waited for the fence of its lane, and a barrier or `sync_all` that
no earlier `sync_all` of its lane releases has waited for everything its lane issued
before it.  Both facts are derived from one inversion of `evaluate`.
-/

/-! ## Accepted models -/

/-- The part of a model that `reset` fixes for the whole run. -/
structure AcceptedModel
    (syncConfig : SyncConfig)
    (program : KernelProgram)
    (model : FlagBarrierModel) :
    Prop where
  validated : validateProgram program.tasks = .ok ()
  built : buildTables {} program.tasks = .ok model.tables
  config : model.config = syncConfig
  tasks : model.tasks = program.tasks
  coreIds :
    model.coreIds = (program.cores.map CoreProgram.coreId).insertionSort (· ≤ ·)
  crossWaitModes :
    model.crossWaitModes = fun key => (waitModes program.tasks key).head?

variable {model : FlagBarrierModel} {syncConfig : SyncConfig} {program : KernelProgram}
  {task : Task} {cycle orderingCycle : Nat} {completed : Completed} {decision : SyncDecision}

/-- What reset accepts is an accepted program with an empty state. -/
theorem reset_accepted (accepted : reset syncConfig program = .ok model) :
    AcceptedModel syncConfig program model ∧ model.state = {} := by
  unfold reset at accepted
  split at accepted
  · cases accepted
  · rename_i validated
    split at accepted
    · cases accepted
    · rename_i tables built
      simp only [Except.ok.injEq] at accepted
      subst accepted
      exact ⟨⟨validated, built, rfl, rfl, rfl, rfl⟩, rfl⟩

/-- Acceptance is about the program, whatever the state. -/
theorem AcceptedModel.withState
    (accepted : AcceptedModel syncConfig program model)
    (state : SyncState) :
    AcceptedModel syncConfig program (model.withState state) where
  validated := accepted.validated
  built := accepted.built
  config := accepted.config
  tasks := accepted.tasks
  coreIds := accepted.coreIds
  crossWaitModes := accepted.crossWaitModes

/-- The core of a task is one of the cores of the model. -/
theorem AcceptedModel.mem_coreIds (accepted : AcceptedModel syncConfig program model)
    (isTask : task ∈ program.tasks) : task.coreId ∈ model.coreIds := by
  rw [accepted.coreIds, List.mem_insertionSort]
  obtain ⟨core, coreMember, owned⟩ := List.mem_flatMap.mp isTask
  rw [core.tasksOwned task owned]
  exact List.mem_map_of_mem coreMember

/-! ## What a released task has waited for -/

/-- A released barrier starts behind the tasks it drains. -/
theorem evaluateBarrier_ready
    (released : (model.evaluateBarrier task completed orderingCycle).readyCycle = some cycle) :
    anyMissing completed (model.tables.barrierDependencies task.taskId) = false ∧
      maxEnd completed (model.tables.barrierDependencies task.taskId) ≤ cycle ∧
      orderingCycle ≤ cycle := by
  simp only [FlagBarrierModel.evaluateBarrier] at released
  split at released
  · cases released
  · rename_i complete
    simp only [Option.some.injEq] at released
    exact ⟨by simpa using complete, by omega, by omega⟩

/-- A released wait finds a credit in each of its queues and starts no earlier. -/
theorem evaluateCredits_ready {keys : List FlagKey} {reason : SyncReason}
    (released : (model.evaluateCredits keys reason orderingCycle).readyCycle = some cycle) :
    (∀ key ∈ keys, ∃ credit rest, model.state.tokens key = credit :: rest ∧ credit.cycle ≤ cycle) ∧
      orderingCycle ≤ cycle := by
  simp only [FlagBarrierModel.evaluateCredits] at released
  split at released
  · cases released
  · rename_i filled
    simp only [Option.some.injEq] at released
    refine ⟨?_, by omega⟩
    intro key member
    cases queue : model.state.tokens key with
    | nil =>
      refine (filled (List.any_eq_true.mpr ⟨key, member, ?_⟩)).elim
      simp [queue]
    | cons credit rest =>
      have listed : credit ∈ keys.filterMap fun other => (model.state.tokens other).head? :=
        List.mem_filterMap.mpr ⟨key, member, by simp [queue]⟩
      have bounded :
          credit.cycle ≤
            ((keys.filterMap fun other =>
              (model.state.tokens other).head?).map Credit.cycle).foldr max 0 :=
        List.le_max_of_le' 0 (List.mem_map_of_mem listed) le_rfl
      exact ⟨credit, rest, rfl, by omega⟩

/-- A released local set finds room in its queue if sets may block. -/
theorem evaluateLocalSet_ready
    (evaluated : model.evaluateLocalSet task orderingCycle = .ok decision)
    (released : decision.readyCycle = some cycle) :
    cycle = orderingCycle ∧
      (model.config.flagBlocking = true →
        ∃ key,
          localFlagKey task = .ok key ∧
            (model.state.tokens key).length < model.config.localFlagDepth) := by
  unfold FlagBarrierModel.evaluateLocalSet at evaluated
  by_cases blocking : model.config.flagBlocking
  · simp only [blocking, ↓reduceIte] at evaluated
    cases keyed : localFlagKey task with
    | error failure => simp [keyed] at evaluated
    | ok key =>
      simp only [keyed] at evaluated
      split at evaluated
      · cases evaluated
        cases released
      · rename_i below
        cases evaluated
        cases released
        exact ⟨rfl, fun _ => ⟨key, rfl, by omega⟩⟩
  · simp only [blocking, Bool.false_eq_true, ↓reduceIte, Except.ok.injEq] at evaluated
    rw [← evaluated] at released
    cases released
    exact ⟨rfl, fun isBlocking => (blocking isBlocking).elim⟩

/-- A released mode-2 set finds room in all its queues if sets may block. -/
theorem evaluateCrossSet_ready
    (evaluated : model.evaluateCrossSet task orderingCycle = .ok decision)
    (released : decision.readyCycle = some cycle) :
    cycle = orderingCycle ∧
      (model.config.flagBlocking = true → crossModeOf task = .ok .mode2 →
        ∃ keys,
          crossSetKeysMode2 task = .ok keys ∧
            ∀ key ∈ keys, (model.state.tokens key).length < model.config.crossFlagDepth) := by
  unfold FlagBarrierModel.evaluateCrossSet at evaluated
  by_cases blocking : model.config.flagBlocking
  · simp only [blocking, ↓reduceIte] at evaluated
    split at evaluated
    · cases evaluated
    · split at evaluated
      · cases evaluated
      · rename_i keys keyed
        split at evaluated
        · cases evaluated
          cases released
        · rename_i below
          cases evaluated
          cases released
          refine ⟨rfl, fun _ _ => ⟨keys, keyed, ?_⟩⟩
          intro key member
          by_contra full
          refine below (List.any_eq_true.mpr ⟨key, member, ?_⟩)
          simpa using full
    · rename_i mode otherMode moded
      cases evaluated
      cases released
      refine ⟨rfl, fun _ isMode2 => ?_⟩
      rw [moded] at isMode2
      cases isMode2
      exact (otherMode rfl).elim
  · simp only [blocking, Bool.false_eq_true, ↓reduceIte, Except.ok.injEq] at evaluated
    rw [← evaluated] at released
    cases released
    exact ⟨rfl, fun isBlocking => (blocking isBlocking).elim⟩

/-- A released collective wait finds the set of its phase of every participant. -/
theorem evaluateCollectiveWait_ready {mode : CrossMode}
    (evaluated : model.evaluateCollectiveWait task mode orderingCycle = .ok decision)
    (released : decision.readyCycle = some cycle) :
    (∃ key,
      collectiveKey task mode = .ok key ∧
        ∀ participant ∈ collectiveParticipants model.coreIds key,
          model.state.collectiveWaitPhase (key, task.participant) <
            (model.state.collectiveReady (key, participant)).length) ∧
      orderingCycle ≤ cycle := by
  unfold FlagBarrierModel.evaluateCollectiveWait at evaluated
  split at evaluated
  · cases evaluated
  · rename_i key keyed
    simp only at evaluated
    split at evaluated
    · cases evaluated
      cases released
    · rename_i produced
      simp only [Except.ok.injEq] at evaluated
      rw [← evaluated] at released
      simp only [Option.some.injEq] at released
      refine ⟨⟨key, keyed, ?_⟩, by omega⟩
      intro participant member
      by_contra missing
      refine produced (List.any_eq_true.mpr ⟨participant, member, ?_⟩)
      simpa using missing

/-- A released cross wait finds its credits or its phase, by its mode. -/
theorem evaluateCrossWait_ready
    (evaluated : model.evaluateCrossWait task orderingCycle = .ok decision)
    (released : decision.readyCycle = some cycle) :
    (∃ mode,
      model.crossWaitMode task = .ok (some mode) ∧
        (mode = .mode2 →
          ∃ keys,
            crossWaitKeysMode2 task = .ok keys ∧
              ∀ key ∈ keys,
                ∃ credit rest, model.state.tokens key = credit :: rest ∧ credit.cycle ≤ cycle) ∧
        (mode ≠ .mode2 → ∃ key, collectiveKey task mode = .ok key)) ∧
      orderingCycle ≤ cycle := by
  unfold FlagBarrierModel.evaluateCrossWait at evaluated
  split at evaluated
  · cases evaluated
  · cases evaluated
    cases released
  · rename_i moded
    split at evaluated
    · cases evaluated
    · rename_i keys keyed
      cases evaluated
      obtain ⟨credits, ordered⟩ := evaluateCredits_ready released
      exact ⟨⟨.mode2, moded, fun _ => ⟨keys, keyed, credits⟩, fun other => (other rfl).elim⟩,
        ordered⟩
  · rename_i mode otherMode moded
    obtain ⟨⟨key, keyed, _⟩, ordered⟩ := evaluateCollectiveWait_ready evaluated released
    exact ⟨⟨mode, moded, fun isMode2 => (otherMode isMode2).elim, fun _ => ⟨key, keyed⟩⟩, ordered⟩

/-- No released task starts before the fences of its lane. -/
theorem evaluateOperation_ordering_le
    (evaluated : model.evaluateOperation task completed orderingCycle = .ok decision)
    (released : decision.readyCycle = some cycle) : orderingCycle ≤ cycle := by
  unfold FlagBarrierModel.evaluateOperation at evaluated
  split at evaluated
  · exact le_of_eq (evaluateLocalSet_ready evaluated released).1.symm
  · exact le_of_eq (evaluateCrossSet_ready evaluated released).1.symm
  · split at evaluated
    · cases evaluated
    · cases evaluated
      exact (evaluateCredits_ready released).2
  · exact (evaluateCrossWait_ready evaluated released).2
  all_goals
    cases evaluated
    first
    | exact (evaluateBarrier_ready released).2.2
    | cases released
      exact le_rfl

/-- What `evaluate` has checked when it lets a task through. -/
structure Released
    (model : FlagBarrierModel)
    (task : Task)
    (completed : Completed)
    (decision : SyncDecision)
    (cycle : Nat) :
    Prop where
  ordered :
    anyMissing completed (model.tables.orderingDependencies task.taskId) = false
  ordering_le :
    maxEnd completed (model.tables.orderingDependencies task.taskId) ≤ cycle
  rendezvous :
    ∀ key, model.tables.syncAllReleaseDependencies task.taskId = some key →
      ∀ participant ∈ syncAllParticipants model.coreIds key.scope,
        ∃ credit,
          model.state.syncAllArrivals (key, participant) = some credit ∧ credit.cycle ≤ cycle
  operation :
    model.tables.syncAllReleaseDependencies task.taskId = none →
    model.evaluateOperation task completed
        (maxEnd completed (model.tables.orderingDependencies task.taskId)) =
      .ok decision

/-- The expected participants of a sync_all are participants of the model. -/
theorem mem_participants_of_expected {scope : SyncScope} {participant : Participant}
    (expected : participant ∈ syncAllParticipants model.coreIds scope) :
    participant ∈ model.participants := by
  have onCore : participant.coreId ∈ model.coreIds := by
    cases scope <;>
      simp only [syncAllParticipants, Lane.vectorLanes, List.map_cons, List.map_nil,
        List.mem_map, List.mem_flatMap, List.mem_cons, List.not_mem_nil, or_false]
        at expected
    · obtain ⟨coreId, member, rfl⟩ := expected
      exact member
    · obtain ⟨coreId, member, rfl | rfl⟩ := expected
      · exact member
      · exact member
    · obtain ⟨coreId, member, rfl | rfl | rfl⟩ := expected
      · exact member
      · exact member
      · exact member
  exact List.mem_flatMap.mpr
    ⟨participant.coreId, onCore, List.mem_map.mpr ⟨participant.lane, Lane.mem_all _, rfl⟩⟩

/-- A decision that names a cycle is a release by the branch of the operation. -/
theorem evaluate_released (evaluated : model.evaluate task completed = .ok decision)
    (released : decision.readyCycle = some cycle) :
    Released model task completed decision cycle := by
  unfold FlagBarrierModel.evaluate at evaluated
  by_cases missing :
      anyMissing completed (model.tables.orderingDependencies task.taskId)
  · simp only [missing, ↓reduceIte, Except.ok.injEq] at evaluated
    rw [← evaluated] at released
    cases released
  · simp only [missing, Bool.false_eq_true, ↓reduceIte] at evaluated
    have ordered :
        anyMissing completed (model.tables.orderingDependencies task.taskId) = false := by
      simpa using missing
    cases pending : model.tables.syncAllReleaseDependencies task.taskId with
    | none =>
      simp only [pending] at evaluated
      exact {
        ordered := ordered
        ordering_le := evaluateOperation_ordering_le evaluated released
        rendezvous := by
          intro key isPending
          rw [pending] at isPending
          cases isPending
        operation := fun _ => evaluated }
    | some key =>
      simp only [pending, Except.ok.injEq, FlagBarrierModel.evaluateRelease] at evaluated
      split at evaluated
      · rw [← evaluated] at released
        cases released
      · rename_i complete
        rw [← evaluated] at released
        simp only [Option.some.injEq] at released
        refine {
          ordered := ordered
          ordering_le := by omega
          rendezvous := ?_
          operation := ?_ }
        · intro pendingKey isPending participant expected
          rw [pending] at isPending
          cases isPending
          have arrived : (model.state.syncAllArrivals (key, participant)).isSome := by
            by_contra absent
            refine complete (List.any_eq_true.mpr ⟨participant, expected, ?_⟩)
            simpa using absent
          obtain ⟨credit, isCredit⟩ := Option.isSome_iff_exists.mp arrived
          have listed : credit ∈ model.arrivals key :=
            List.mem_filterMap.mpr ⟨participant, mem_participants_of_expected expected, isCredit⟩
          have bounded : credit.cycle ≤ ((model.arrivals key).map Credit.cycle).foldr max 0 :=
            List.le_max_of_le' 0 (List.mem_map_of_mem listed) le_rfl
          exact ⟨credit, isCredit, by omega⟩
        · intro none
          rw [pending] at none
          cases none

/-! ## Runs of the model -/

/-- A fence of a lane runs on the lane. -/
theorem participant_of_isFenceOn {lane : Participant} {fence : Task}
    (fences : isFenceOn lane fence = true) : fence.participant = lane := by
  simp only [isFenceOn, Bool.decide_and, Bool.decide_eq_true, Bool.and_eq_true,
    decide_eq_true_eq] at fences
  exact fences.2

section FlagRuns

variable {syncConfig : SyncConfig} {config : SimulatorConfig} {program : KernelProgram}
  {log : List Task} {state : RunState FlagBarrierModel}
  {task : Task} {fifo : TaskId → Option TaskId} {next : RunState FlagBarrierModel}

section

variable (step : PlacedStep (flagBarrierSynchronizationModel syncConfig) fifo state task next)
include step

/-- A step places the task in the synchronization state. -/
theorem PlacedStep.sync_eq :
    ∃ updated,
      state.sync.onScheduled task step.record = .ok updated ∧
        next.sync = state.sync.withState updated := by
  have scheduled := step.scheduled
  simp only [flagBarrierSynchronizationModel] at scheduled
  cases updates :
      state.sync.onScheduled task
        (operationRecord state.completed task (fifo task.taskId) step.decision
          (placementOf state.completed fifo task step.synchronizationCycle)) with
  | error failure => simp [updates, Except.map] at scheduled
  | ok updated =>
    simp only [updates, Except.map, Except.ok.injEq] at scheduled
    exact ⟨updated, updates, scheduled.symm⟩

/-- A placed task had been released. -/
theorem PlacedStep.wasReleased :
    Released state.sync task state.completed step.decision step.synchronizationCycle :=
  evaluate_released step.evaluated step.released

/-- The fences a task is ordered behind have ended before it starts. -/
theorem PlacedStep.ordering_done {dependency : TaskId}
    (member : dependency ∈ state.sync.tables.orderingDependencies task.taskId) :
    ∃ record,
      state.completed dependency = some record ∧ record.endCycle ≤ step.record.startCycle := by
  obtain ⟨record, done⟩ := anyMissing_eq_false.mp step.wasReleased.ordered dependency member
  have bounded := endCycle_le_maxEnd member done
  exact ⟨record, done,
    le_trans bounded (le_trans step.wasReleased.ordering_le step.synchronizationCycle_le)⟩

end

namespace Fires

/-- A run keeps the acceptance of its program. -/
theorem accepted
    (fired : Fires (flagBarrierSynchronizationModel syncConfig) config program log state) :
    AcceptedModel syncConfig program state.sync := by
  induction fired with
  | initial accepts => exact (reset_accepted accepts).1
  | @place earlierLog earlierState next task earlier isTask placed ih =>
    obtain ⟨step⟩ := attempt_placed placed
    obtain ⟨updated, _, nextShape⟩ := step.sync_eq
    rw [nextShape]
    exact ih.withState updated

variable {before after : List Task} {task : Task}

section

variable (fired : Fires (flagBarrierSynchronizationModel syncConfig) config program log state)
  (shape : program.tasks = before ++ task :: after)
include fired shape

/-- The tables hold the entries of every task. -/
theorem entries : Nonempty (TaskEntries state.sync.tables before task) :=
  buildTables_entries program.taskIds_nodup fired.accepted.built shape

/-- A task without an earlier sync_all on its lane has no release dependency. -/
theorem release_none (unreleased : ∀ other ∈ before, isSyncAllOn task.participant other = false) :
    state.sync.tables.syncAllReleaseDependencies task.taskId = none := by
  obtain ⟨found⟩ := fired.entries shape
  rw [found.release]
  cases latest : lastWhere (isSyncAllOn task.participant) before with
  | none => rfl
  | some syncAll =>
    obtain ⟨_, _, syncAllShape, passes, _⟩ := lastWhere_eq_some latest
    have fails := unreleased syncAll (by rw [syncAllShape]; simp)
    rw [passes] at fails
    cases fails

/-- A task starts behind every earlier fence of its lane. -/
theorem fence_endsBefore {fence : Task} (member : fence ∈ before)
    (fences : isFenceOn task.participant fence = true) :
    EndsBefore state.completed fence.taskId task.taskId := by
  refine related_of_latest (isFenceOn task.participant)
    (fun other => other.participant = task.participant)
    (fun first second => EndsBefore state.completed first.taskId second.taskId)
    ?_ ?_ ?_ before task after fence shape rfl member fences
  · intro first second third firstSecond secondThird
    exact fired.endsBefore_trans firstSecond secondThird
  · intro other passes
    exact participant_of_isFenceOn passes
  · intro prior item later latest itemShape sameLane isLatest
    have isTask : item ∈ program.tasks := by
      rw [itemShape]
      simp
    refine fired.endsBefore_of_step isTask ?_
    intro earlierLog earlierState next earlier step
    obtain ⟨found⟩ := earlier.entries itemShape
    refine step.ordering_done ?_
    rw [found.ordering, orderingOf, List.mem_eraseDups]
    refine List.mem_append_left _ (List.mem_append_left _ ?_)
    rw [found.describes.lastFence, sameLane, isLatest]
    simp

end

end Fires

/-! ## Drains -/

/-- Whether a task drains every pipe of its lane. -/
def drainsLane (task : Task) : Bool :=
  match task.operation with
  | .barrierAll | .syncAll => true
  | .pipeBarrier => targetPipeOf task = .all
  | _ => false

/-- A draining barrier depends on the tail of every pipe of its lane. -/
theorem mem_barrierOf_of_drains {tables : SyncTables} (pipe : Pipe) {tail : TaskId}
    (drains : drainsLane task = true)
    (isTail : tables.lastByResource ⟨task.coreId, task.lane, pipe⟩ = some tail) :
    tail ∈ barrierOf tables task := by
  have onLane : tail ∈ tables.resourcesByLane task.participant :=
    List.mem_filterMap.mpr ⟨pipe, Pipe.mem_all pipe, isTail⟩
  have drained : tail ∈ fullBarrierDependencies tables task := by
    unfold fullBarrierDependencies
    split
    · exact List.mem_flatMap.mpr ⟨task.lane, Lane.mem_all _, onLane⟩
    · exact onLane
  unfold drainsLane at drains
  unfold barrierOf
  split at drains
  · rename_i isBarrier
    simpa [isBarrier] using drained
  · rename_i isSyncAll
    simpa [isSyncAll] using onLane
  · rename_i isPipeBarrier
    have targetsAll : targetPipeOf task = .all := by simpa using drains
    simpa [isPipeBarrier, targetsAll] using drained
  · cases drains

/-- A released draining barrier starts behind all tasks of its drain list. -/
theorem evaluateOperation_drain {model : FlagBarrierModel} {completed : Completed}
    {orderingCycle cycle : Nat} {decision : SyncDecision} (drains : drainsLane task = true)
    (evaluated : model.evaluateOperation task completed orderingCycle = .ok decision)
    (released : decision.readyCycle = some cycle) :
    anyMissing completed (model.tables.barrierDependencies task.taskId) = false ∧
      maxEnd completed (model.tables.barrierDependencies task.taskId) ≤ cycle := by
  have isBarrier : model.evaluateBarrier task completed orderingCycle = decision := by
    unfold drainsLane at drains
    unfold FlagBarrierModel.evaluateOperation at evaluated
    split at drains
    all_goals simp_all
  subst isBarrier
  have ready := evaluateBarrier_ready released
  exact ⟨ready.1, ready.2.1⟩

/--
A task is followed, in the next part of a program, by a fence of its lane that waits for
it: a fence queued on its own pipe, or a drain before which no `sync_all` of the lane
stands.
-/
def FollowedByFence (before : List Task) (task : Task) (rest : List Task) : Prop :=
  ∃ older fence newer,
    rest = older ++ fence :: newer ∧ isFenceOn task.participant fence = true ∧
      (fence.pipe = task.pipe ∨
        (drainsLane fence = true ∧
          ∀ other ∈ before ++ task :: older, isSyncAllOn task.participant other = false))

instance
    (before : List Task)
    (task : Task)
    (rest : List Task) :
    Decidable (FollowedByFence before task rest) :=
  decidable_of_iff _ exists_split_iff.symm

/-- Lane and pipe determine the resource. -/
theorem resource_eq_of_participant {first second : Task}
    (sameLane : first.participant = second.participant)
    (samePipe : first.pipe = second.pipe) : first.resource = second.resource := by
  have coreSame : first.coreId = second.coreId := congrArg Participant.coreId sameLane
  have laneSame : first.lane = second.lane := congrArg Participant.lane sameLane
  simp [Task.resource, coreSame, laneSame, samePipe]

namespace Fires

variable {before after : List Task}

/-- A draining barrier starts behind every earlier task of its lane. -/
theorem drain_endsBefore
    (fired : Fires (flagBarrierSynchronizationModel syncConfig) config program log state)
    {drain earlier : Task} (shape : program.tasks = before ++ drain :: after)
    (drains : drainsLane drain = true)
    (unreleased : ∀ other ∈ before, isSyncAllOn drain.participant other = false)
    (member : earlier ∈ before) (sameLane : earlier.participant = drain.participant) :
    EndsBefore state.completed earlier.taskId drain.taskId := by
  have isDrainTask : drain ∈ program.tasks := by
    rw [shape]
    simp
  obtain ⟨tail, isTail⟩ :=
    lastWhere_isSome (fun other : Task => decide (other.resource = earlier.resource))
      member (by simp)
  obtain ⟨older, newer, beforeShape, tailPasses, newerFail⟩ := lastWhere_eq_some isTail
  have tailResource : tail.resource = earlier.resource := by
    simpa using tailPasses
  have tailDrained : EndsBefore state.completed tail.taskId drain.taskId := by
    refine fired.endsBefore_of_step isDrainTask ?_
    intro earlierLog earlierState next reached step
    obtain ⟨found⟩ := reached.entries shape
    have drained :=
      evaluateOperation_drain drains
        (step.wasReleased.operation (reached.release_none shape unreleased)) step.released
    have listed : tail.taskId ∈ earlierState.sync.tables.barrierDependencies drain.taskId := by
      rw [found.barrier]
      have coreSame : earlier.coreId = drain.coreId := congrArg Participant.coreId sameLane
      have laneSame : earlier.lane = drain.lane := congrArg Participant.lane sameLane
      have onLane :
          (⟨drain.coreId, drain.lane, earlier.pipe⟩ : ResourceKey) = earlier.resource := by
        simp [Task.resource, coreSame, laneSame]
      refine mem_barrierOf_of_drains earlier.pipe drains ?_
      rw [found.describes.lastByResource, onLane, lastOnResource, isTail]
      rfl
    obtain ⟨record, done⟩ := anyMissing_eq_false.mp drained.1 tail.taskId listed
    have bounded := endCycle_le_maxEnd listed done
    exact ⟨record, done, le_trans bounded (le_trans drained.2 step.synchronizationCycle_le)⟩
  rw [beforeShape] at member
  rcases List.mem_append.mp member with inOlder | inRest
  · have tailShape :
        program.tasks = older ++ tail :: (newer ++ drain :: after) := by
      rw [shape, beforeShape]
      simp
    exact fired.endsBefore_trans
      (fired.resource_endsBefore tailShape inOlder tailResource.symm) tailDrained
  · rcases List.mem_cons.mp inRest with isTailTask | inNewer
    · rw [isTailTask]
      exact tailDrained
    · have fails := newerFail earlier inNewer
      simp at fails

/-- A task followed by a fence that waits for it ends before that fence. -/
theorem followed_endsBefore
    (fired : Fires (flagBarrierSynchronizationModel syncConfig) config program log state)
    {rest : List Task} {task : Task} (shape : program.tasks = before ++ task :: (rest ++ after))
    (followed : FollowedByFence before task rest) :
    ∃ fence ∈ rest,
      isFenceOn task.participant fence = true ∧
        EndsBefore state.completed task.taskId fence.taskId := by
  obtain ⟨older, fence, newer, restShape, onLane, waits⟩ := followed
  have fenceLane := participant_of_isFenceOn onLane
  have fenceShape : program.tasks = (before ++ task :: older) ++ fence :: (newer ++ after) := by
    rw [shape, restShape]
    simp
  refine ⟨fence, by rw [restShape]; simp, onLane, ?_⟩
  rcases waits with samePipe | ⟨drains, unreleased⟩
  · exact fired.resource_endsBefore fenceShape (by simp)
      (resource_eq_of_participant fenceLane.symm samePipe.symm)
  · refine fired.drain_endsBefore fenceShape drains ?_ (by simp) fenceLane.symm
    intro other member
    rw [fenceLane]
    exact unreleased other member

end Fires

end FlagRuns

end TilelangAscend.Simulator
