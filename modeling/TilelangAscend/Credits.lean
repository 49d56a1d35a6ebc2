import TilelangAscend.CreditEffects
import TilelangAscend.ScheduleValidity

namespace TilelangAscend.Simulator

open ListHistory
open FlagBarrierModel

/-!
# Credits along a run

A queue holds the credits of the sets that fired on it, in firing order, without as many
oldest ones as waits fired on it.  A wait that no `sync_all` of its lane releases finds
these credits in `evaluate`, so `onScheduled` accepts it and it starts after the credits
that it pops.
-/

/-- The credit of a completed set. -/
def creditOf
    (completed : Completed)
    (task : Task) :
    Credit where
  cycle := ((completed task.taskId).map ExecutionRecord.endCycle).getD 0
  taskId := task.taskId

/-- Whether a task feeds a queue. -/
def feeds (key : FlagKey) (task : Task) : Bool :=
  key ∈ setKeys task

/-- Whether a task drains a queue. -/
def FlagBarrierModel.drainsQueue (model : FlagBarrierModel) (key : FlagKey)
    (task : Task) : Bool :=
  key ∈ model.waitKeys task

theorem waitKeys_of_setKeys {model : FlagBarrierModel} {task : Task} {key : FlagKey}
    (feedsKey : key ∈ setKeys task) : key ∉ model.waitKeys task := by
  unfold setKeys at feedsKey
  split at feedsKey
  · rename_i isSet
    simp [waitKeys, auditedCrossKeys, isSet]
  · rename_i isSet
    simp [waitKeys, auditedCrossKeys, isSet]
  · simp at feedsKey

theorem AcceptedModel.waitKeys_eq {firstConfig secondConfig : SyncConfig}
    {program : KernelProgram} {first second : FlagBarrierModel}
    (firstAccepted : AcceptedModel firstConfig program first)
    (secondAccepted : AcceptedModel secondConfig program second) :
    first.waitKeys = second.waitKeys := by
  have modes : first.crossWaitMode = second.crossWaitMode := by
    funext task
    unfold crossWaitMode
    rw [firstAccepted.crossWaitModes, secondAccepted.crossWaitModes]
  funext task
  unfold waitKeys auditedCrossKeys
  rw [modes]

/-- Which tasks drain a queue is a fact about the program. -/
theorem AcceptedModel.drainsQueue_eq {firstConfig secondConfig : SyncConfig}
    {program : KernelProgram} {first second : FlagBarrierModel}
    (firstAccepted : AcceptedModel firstConfig program first)
    (secondAccepted : AcceptedModel secondConfig program second) :
    first.drainsQueue = second.drainsQueue := by
  funext key task
  simp [drainsQueue, firstAccepted.waitKeys_eq secondAccepted]

section Credits

variable {syncConfig : SyncConfig} {config : SimulatorConfig} {program : KernelProgram}
  {log : List Task} {state : RunState FlagBarrierModel}
  {task : Task} {next : RunState FlagBarrierModel} {fifo : TaskId → Option TaskId}

theorem PlacedStep.creditOf_eq
    (step : PlacedStep (flagBarrierSynchronizationModel syncConfig) fifo state task next)
    {other : Task} (differs : other.taskId ≠ task.taskId) :
    creditOf next.completed other = creditOf state.completed other := by
  simp [creditOf, step.completed_other differs]

theorem PlacedStep.creditOf_self
    (step : PlacedStep (flagBarrierSynchronizationModel syncConfig) fifo state task next) :
    creditOf next.completed task = ⟨step.record.endCycle, task.taskId⟩ := by
  simp [creditOf, step.completed_self]

namespace Fires

theorem placed_not_mem
    (fired : Fires (flagBarrierSynchronizationModel syncConfig) config program log state)
    {task : Task} {next : RunState FlagBarrierModel} {fifo : TaskId → Option TaskId}
    (step : PlacedStep (flagBarrierSynchronizationModel syncConfig) fifo state task next)
    {other : Task} (inLog : other ∈ log) : other.taskId ≠ task.taskId := by
  intro same
  obtain ⟨record, done⟩ := (fired.completed_iff task.taskId).mpr ⟨other, inLog, same⟩
  rw [step.fresh] at done
  cases done

theorem tokens_eq
    (fired : Fires (flagBarrierSynchronizationModel syncConfig) config program log state)
    (key : FlagKey) :
    state.sync.state.tokens key =
        ((log.filter (feeds key)).map (creditOf state.completed)).drop
          (log.countP (state.sync.drainsQueue key)) ∧
      log.countP (state.sync.drainsQueue key) ≤ log.countP (feeds key) := by
  induction fired with
  | initial accepts =>
    have empty := (reset_accepted accepts).2
    simp [RunState.initial, empty]
  | @place earlierLog earlierState next task earlier isTask placed ih =>
    obtain ⟨step⟩ := attempt_placed placed
    obtain ⟨filled, nextShape⟩ := step.sync_effect
    obtain ⟨queue, counted⟩ := ih
    have credits :
        (earlierLog.filter (feeds key)).map (creditOf next.completed) =
          (earlierLog.filter (feeds key)).map (creditOf earlierState.completed) := by
      refine List.map_congr_left ?_
      intro other member
      exact step.creditOf_eq (earlier.placed_not_mem step (List.mem_of_mem_filter member))
    have drains : next.sync.drainsQueue key = earlierState.sync.drainsQueue key := by
      rw [nextShape]
      rfl
    have lengths : (earlierLog.filter (feeds key)).length = earlierLog.countP (feeds key) :=
      (List.countP_eq_length_filter).symm
    have tokens :
        next.sync.state.tokens key =
          if key ∈ setKeys task then
            earlierState.sync.state.tokens key ++ [⟨step.record.endCycle, task.taskId⟩]
          else if key ∈ earlierState.sync.waitKeys task then
            (earlierState.sync.state.tokens key).tail
          else
            earlierState.sync.state.tokens key := by
      rw [nextShape]
      rfl
    rw [tokens, drains, List.filter_append, List.map_append, credits,
      List.countP_append, List.countP_append]
    by_cases feedsKey : key ∈ setKeys task
    · have fed : feeds key task = true := by simp [feeds, feedsKey]
      have notDrained : earlierState.sync.drainsQueue key task = false := by
        simp [drainsQueue, waitKeys_of_setKeys feedsKey]
      rw [if_pos feedsKey, queue, ← step.creditOf_self,
        ← List.drop_append_of_le_length (by rw [List.length_map, lengths]; exact counted)]
      simp only [List.filter_cons, fed, ↓reduceIte, List.filter_nil, List.map_cons,
        List.map_nil, List.countP_singleton, notDrained, Bool.false_eq_true]
      exact ⟨rfl, by omega⟩
    · have notFed : feeds key task = false := by simp [feeds, feedsKey]
      rw [if_neg feedsKey]
      simp only [List.filter_cons, notFed, Bool.false_eq_true, ↓reduceIte, List.filter_nil,
        List.map_nil, List.append_nil, List.countP_singleton]
      by_cases drainsKey : key ∈ earlierState.sync.waitKeys task
      · have drained : earlierState.sync.drainsQueue key task = true := by
          simp [drainsQueue, drainsKey]
        have nonempty := filled key drainsKey
        rw [queue] at nonempty
        have below :
            earlierLog.countP (earlierState.sync.drainsQueue key) <
              earlierLog.countP (feeds key) := by
          by_contra full
          refine nonempty (List.drop_eq_nil_of_le ?_)
          rw [List.length_map, lengths]
          omega
        rw [if_pos drainsKey, queue, List.tail_drop]
        simp only [drained, ↓reduceIte, true_and]
        omega
      · have notDrained : earlierState.sync.drainsQueue key task = false := by
          simp [drainsQueue, drainsKey]
        rw [if_neg drainsKey]
        simp only [notDrained, Bool.false_eq_true, ↓reduceIte]
        exact ⟨queue, by omega⟩

end Fires

/-! ## Waits that no rendezvous releases -/

/-- Local and cross waits. -/
def isWait (task : Task) : Bool :=
  match task.operation with
  | .waitFlag | .waitCrossFlag => true
  | _ => false

theorem forKeys_pop_succeeds {syncState : SyncState} {keys : List FlagKey} (distinct : keys.Nodup)
    (filled : ∀ key ∈ keys, ∃ credit rest, syncState.tokens key = credit :: rest) :
    ∃ updated, forKeys (popCredit task) syncState keys = .ok updated := by
  induction keys generalizing syncState with
  | nil => exact ⟨syncState, rfl⟩
  | cons first rest ih =>
    obtain ⟨firstFresh, restDistinct⟩ := List.nodup_cons.mp distinct
    obtain ⟨credit, remaining, queue⟩ := filled first List.mem_cons_self
    simp only [forKeys, popCredit, queue]
    refine ih restDistinct ?_
    intro key member
    have differs : key ≠ first := fun same => firstFresh (same ▸ member)
    simpa [Function.update_of_ne differs] using filled key (List.mem_cons_of_mem _ member)

theorem evaluateOperation_wait {model : FlagBarrierModel} {completed : Completed}
    {orderingCycle cycle : Nat} {decision : SyncDecision} (waits : isWait task = true)
    (evaluated : model.evaluateOperation task completed orderingCycle = .ok decision)
    (released : decision.readyCycle = some cycle) :
    (∀ key ∈ model.waitKeys task,
      ∃ credit rest, model.state.tokens key = credit :: rest ∧ credit.cycle ≤ cycle) ∧
      ∀ record, ∃ updated, model.onScheduled task record = .ok updated := by
  unfold isWait at waits
  split at waits
  · rename_i operation
    simp only [evaluateOperation, operation] at evaluated
    split at evaluated
    · cases evaluated
    · rename_i key keyed
      cases evaluated
      have credits := (evaluateCredits_ready released).1
      have waited : model.waitKeys task = [key] := by
        simp [waitKeys, operation, keyed, Except.toOption]
      rw [waited]
      refine ⟨credits, ?_⟩
      intro record
      obtain ⟨credit, rest, queue, _⟩ := credits key (by simp)
      simp [onScheduled, operation, keyed, popCredit, queue]
  · rename_i operation
    simp only [evaluateOperation, operation] at evaluated
    obtain ⟨⟨mode, moded, credits, collective⟩, _⟩ := evaluateCrossWait_ready evaluated released
    by_cases isMode2 : mode = .mode2
    · subst isMode2
      obtain ⟨keys, keyed, filled⟩ := credits rfl
      have waited : model.waitKeys task = keys := by
        simp [waitKeys, auditedCrossKeys, operation, moded, keyed]
      rw [waited]
      refine ⟨filled, ?_⟩
      intro record
      simp only [onScheduled, operation, onCrossWait, moded, keyed]
      refine forKeys_pop_succeeds (crossWaitKeysMode2_nodup keyed) ?_
      intro key member
      obtain ⟨credit, rest, queue, _⟩ := filled key member
      exact ⟨credit, rest, queue⟩
    · obtain ⟨key, keyed⟩ := collective isMode2
      have noKeys : model.waitKeys task = [] := by
        cases mode
        · simp [waitKeys, auditedCrossKeys, operation, moded]
        · simp [waitKeys, auditedCrossKeys, operation, moded]
        · exact (isMode2 rfl).elim
      refine ⟨by simp [noKeys], ?_⟩
      intro record
      cases mode
      · simp [onScheduled, operation, onCrossWait, moded, keyed]
      · simp [onScheduled, operation, onCrossWait, moded, keyed]
      · exact (isMode2 rfl).elim
  · cases waits

theorem Fires.wait_credits
    (fired : Fires (flagBarrierSynchronizationModel syncConfig) config program log state)
    {before after : List Task} (shape : program.tasks = before ++ task :: after)
    (unreleased : ∀ other ∈ before, isSyncAllOn task.participant other = false)
    (waits : isWait task = true)
    (step :
      PlacedStep (flagBarrierSynchronizationModel syncConfig)
        (fifoPredecessors program.tasks) state task next) :
    ∀ key ∈ state.sync.waitKeys task,
      ∃ credit rest,
        state.sync.state.tokens key = credit :: rest ∧ credit.cycle ≤ step.record.startCycle := by
  intro key member
  have evaluated := step.wasReleased.operation (fired.release_none shape unreleased)
  obtain ⟨credit, rest, queue, bounded⟩ :=
    (evaluateOperation_wait waits evaluated step.released).1 key member
  exact ⟨credit, rest, queue, le_trans bounded step.synchronizationCycle_le⟩

end Credits

/-! ## Agreement of `evaluate` and `onScheduled` -/

/--
`evaluate` and `onScheduled` agree on a wait in a state: a wait that is not blocked is
accepted, and when it is placed it starts no earlier than the credits that it pops end.
-/
structure WaitAgrees
    (syncConfig : SyncConfig)
    (config : SimulatorConfig)
    (program : KernelProgram)
    (state : RunState FlagBarrierModel)
    (wait : Task) :
    Prop where
  accepted :
    ∀ decision cycle, state.sync.evaluate wait state.completed = .ok decision →
      decision.readyCycle = some cycle →
      ∀ record, ∃ updated, state.sync.onScheduled wait record = .ok updated
  startsAfterCredits :
    ∀ next record,
      attempt (flagBarrierSynchronizationModel syncConfig) config
        (fifoPredecessors program.tasks) state wait = .ok (some next) →
      next.completed wait.taskId = some record →
      ∀ key ∈ state.sync.waitKeys wait,
        ∃ credit rest,
          state.sync.state.tokens key = credit :: rest ∧ credit.cycle ≤ record.startCycle

/--
In every reachable state `evaluate` and `onScheduled` agree on every wait before which
its lane issues no `sync_all`.
-/
theorem wait_agrees_before_syncAll
    (syncConfig : SyncConfig)
    (config : SimulatorConfig)
    (program : KernelProgram)
    (log : List Task)
    (state : RunState FlagBarrierModel)
    (fired : Fires (flagBarrierSynchronizationModel syncConfig) config program log state)
    (before : List Task)
    (wait : Task)
    (after : List Task)
    (shape : program.tasks = before ++ wait :: after)
    (waits : isWait wait = true)
    (unreleased : ∀ other ∈ before, isSyncAllOn wait.participant other = false) :
    WaitAgrees syncConfig config program state wait := by
  refine {
    accepted := ?_
    startsAfterCredits := ?_ }
  · intro decision cycle evaluated released
    have operation :=
      (evaluate_released evaluated released).operation (fired.release_none shape unreleased)
    exact (evaluateOperation_wait waits operation released).2
  · intro next record placed done
    obtain ⟨step⟩ := attempt_placed placed
    rw [step.completed_self] at done
    cases done
    exact fired.wait_credits shape unreleased waits step

/-- A flag task between the load and matrix pipes of the cube lane. -/
def cubeFlag
    (taskId : TaskId)
    (operation : Operation)
    (pipe : Pipe)
    (idNonempty : taskId ≠ "" := by exact nonempty_of_check trivial)
    (pipeAllowed : pipe ∈ Lane.cube.allowedPipes := by exact allowed_of_check trivial) :
    Task where
  taskId := taskId
  operation := operation
  coreId := 0
  lane := .cube
  pipe := pipe
  durationCycles := 1
  metadata := { srcPipe := some (.pipe .mte2), dstPipe := some (.pipe .m), flagId := .value 0 }
  idNonempty := idNonempty
  pipeAllowed := pipeAllowed

/-- A `sync_all` and a wait of the same lane whose flag nobody sets. -/
def waitAfterSyncAll : KernelProgram where
  cores :=
    [{ coreId := 0
       tasks :=
         [{ taskId := "sync", operation := .syncAll, coreId := 0
            lane := .cube, pipe := .s, durationCycles := 1 },
          cubeFlag "wait" .waitFlag .m] }]

/-- After the `sync_all` the wait is let through, and the run ends with a missing credit. -/
theorem waitAfterSyncAll_disagrees :
    run (flagBarrierSynchronizationModel {}) {} waitAfterSyncAll =
        .error (.validation "wait"
          (.missingCredit (.localFlag 0 .cube (.pipe .mte2) (.pipe .m) 0))) ∧
      ¬ ∀ (syncConfig : SyncConfig) (config : SimulatorConfig) (program : KernelProgram)
          (log : List Task) (state : RunState FlagBarrierModel),
          Fires (flagBarrierSynchronizationModel syncConfig) config program log state →
          ∀ wait ∈ program.tasks,
            isWait wait = true → WaitAgrees syncConfig config program state wait := by
  refine ⟨by decide +kernel, ?_⟩
  intro agrees
  have observed :
      ((flagBarrierSynchronizationModel {}).reset waitAfterSyncAll).toOption.bind
        (fun sync =>
          (replay (flagBarrierSynchronizationModel {}) {} waitAfterSyncAll
            (RunState.initial sync) [waitAfterSyncAll.tasks[0]]).map fun state =>
            ((state.sync.evaluate waitAfterSyncAll.tasks[1] state.completed).toOption.map
                SyncDecision.readyCycle,
              (state.sync.onScheduled waitAfterSyncAll.tasks[1]
                { taskId := "wait", coreId := 0, lane := .cube, pipe := .m
                  startCycle := 1, endCycle := 2 }).toOption.isSome)) =
      some (some (some 1), false) := by
    decide +kernel
  obtain ⟨state, fired, answers⟩ := replay_observed (by decide) observed
  simp only [Prod.mk.injEq] at answers
  obtain ⟨released, rejected⟩ := answers
  have agree :=
    agrees {} {} waitAfterSyncAll _ state fired waitAfterSyncAll.tasks[1] (by decide) (by decide)
  cases evaluated : state.sync.evaluate waitAfterSyncAll.tasks[1] state.completed with
  | error failure => simp [evaluated, Except.toOption] at released
  | ok decision =>
    simp only [evaluated, Except.toOption, Option.map_some, Option.some.injEq] at released
    obtain ⟨updated, accepted⟩ := agree.accepted decision 1 evaluated released _
    rw [accepted] at rejected
    simp [Except.toOption] at rejected

/-- A set, its wait and a later `sync_all` of the same lane. -/
def waitBeforeSyncAll : KernelProgram where
  cores :=
    [{ coreId := 0
       tasks :=
         [cubeFlag "set" .setFlag .mte2,
          cubeFlag "wait" .waitFlag .m,
          { taskId := "sync", operation := .syncAll, coreId := 0
            lane := .cube, pipe := .s, durationCycles := 1 }] }]

/-- The wait before the `sync_all` is let through at the end of its set, and agrees. -/
theorem waitBeforeSyncAll_agrees :
    ∃ state,
      Fires (flagBarrierSynchronizationModel {}) {} waitBeforeSyncAll
          [waitBeforeSyncAll.tasks[0]] state ∧
        (state.sync.evaluate waitBeforeSyncAll.tasks[1] state.completed).toOption.map
            SyncDecision.readyCycle = some (some 1) ∧
        WaitAgrees {} {} waitBeforeSyncAll state waitBeforeSyncAll.tasks[1] := by
  have observed :
      ((flagBarrierSynchronizationModel {}).reset waitBeforeSyncAll).toOption.bind
        (fun sync =>
          (replay (flagBarrierSynchronizationModel {}) {} waitBeforeSyncAll
            (RunState.initial sync) [waitBeforeSyncAll.tasks[0]]).map fun state =>
            (state.sync.evaluate waitBeforeSyncAll.tasks[1] state.completed).toOption.map
              SyncDecision.readyCycle) =
      some (some (some 1)) := by
    decide +kernel
  obtain ⟨state, fired, released⟩ := replay_observed (by decide) observed
  refine ⟨state, fired, released, ?_⟩
  exact wait_agrees_before_syncAll {} {} waitBeforeSyncAll _ state fired
    [waitBeforeSyncAll.tasks[0]] waitBeforeSyncAll.tasks[1] [waitBeforeSyncAll.tasks[2]] rfl
    (by decide) (by decide)

end TilelangAscend.Simulator
