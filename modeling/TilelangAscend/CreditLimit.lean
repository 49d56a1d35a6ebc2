import TilelangAscend.BlockingDepth

namespace TilelangAscend.Simulator

open ListHistory
open FlagBarrierModel

/-!
# The credit limit of mode-2 channels

The default model rejects a mode-2 set that is placed while 15 credits are queued.  A run
with the limit goes in lockstep with the run without it until the limit is exceeded, so
the error appears exactly when the unlimited run places a set on a full queue.  Whether
that is an overflow in simulated time is another question: sixteen sets may be placed before
the first wait although every wait starts in the cycle in which its set ends.
-/

/-! ## Lockstep with the unlimited model -/

/-- The configuration without the limit on mode-2 credits. -/
def SyncConfig.unlimited (syncConfig : SyncConfig) : SyncConfig :=
  { syncConfig with creditLimit := none }

/-- The model without the limit on mode-2 credits. -/
def FlagBarrierModel.unlimited (model : FlagBarrierModel) : FlagBarrierModel :=
  { model with config := model.config.unlimited }

/-- The scheduler state with the model without the limit. -/
def RunState.unlimited (state : RunState FlagBarrierModel) : RunState FlagBarrierModel :=
  { state with sync := state.sync.unlimited }

/-- Whether a queue of a model has reached the credit limit. -/
def FlagBarrierModel.atLimit (model : FlagBarrierModel) (key : FlagKey) : Bool :=
  model.config.creditLimit.any (· ≤ (model.state.tokens key).length)

theorem pushCredit_unlimited (config : SyncConfig) (task : Task) (limited : Bool)
    (credit : Credit) (state : SyncState) (key : FlagKey) :
    pushCredit config.unlimited task limited credit state key =
      .ok { state with
        tokens := Function.update state.tokens key (state.tokens key ++ [credit]) } := by
  simp [pushCredit, SyncConfig.unlimited]

theorem forKeys_push_unlimited (config : SyncConfig) (task : Task) (limited : Bool)
    (credit : Credit) (state : SyncState) (keys : List FlagKey) :
    ∃ updated,
      forKeys (pushCredit config.unlimited task limited credit) state keys = .ok updated := by
  induction keys generalizing state with
  | nil => exact ⟨state, rfl⟩
  | cons first rest ih =>
    simp only [forKeys, pushCredit_unlimited]
    exact ih _

variable {config : SyncConfig} {task : Task} {credit : Credit} {state updated : SyncState}
  {keys : List FlagKey} {limited : Bool}

theorem forKeys_push_agrees
    (pushed : forKeys (pushCredit config task limited credit) state keys = .ok updated) :
    forKeys (pushCredit config.unlimited task limited credit) state keys = .ok updated := by
  induction keys generalizing state with
  | nil => exact pushed
  | cons first rest ih =>
    simp only [forKeys] at pushed ⊢
    cases step : pushCredit config task limited credit state first with
    | error failure => simp [step] at pushed
    | ok next =>
      simp only [step] at pushed
      rw [pushCredit_unlimited, ← pushCredit_ok step]
      exact ih pushed

theorem forKeys_push_error {failure : SimError} (distinct : keys.Nodup)
    (rejected : forKeys (pushCredit config task limited credit) state keys = .error failure) :
    ∃ key ∈ keys,
      failure = .validation task.taskId (.overflowedCredits key) ∧
        config.creditLimit.any (· ≤ (state.tokens key).length) = true := by
  induction keys generalizing state with
  | nil =>
    cases rejected
  | cons first rest ih =>
    obtain ⟨firstFresh, restDistinct⟩ := List.nodup_cons.mp distinct
    simp only [forKeys] at rejected
    cases step : pushCredit config task limited credit state first with
    | error stepFailure =>
      simp only [step, Except.error.injEq] at rejected
      subst rejected
      unfold pushCredit at step
      split at step
      · rename_i full
        simp only [Bool.and_eq_true] at full
        cases step
        exact ⟨first, List.mem_cons_self, rfl, full.2⟩
      · cases step
    | ok next =>
      simp only [step] at rejected
      obtain ⟨key, member, failureIs, full⟩ := ih restDistinct rejected
      have differs : key ≠ first := fun same => firstFresh (same ▸ member)
      rw [pushCredit_ok step] at full
      refine ⟨key, List.mem_cons_of_mem _ member, failureIs, ?_⟩
      simpa [Function.update_of_ne differs] using full

/--
`onScheduled` with the limit either agrees with `onScheduled` without it, or rejects a
mode-2 set whose queue has reached the limit and which the unlimited model accepts.
-/
theorem onScheduled_lockstep (model : FlagBarrierModel) (task : Task) (record : ExecutionRecord) :
    model.unlimited.onScheduled task record = model.onScheduled task record ∨
      ∃ key updated,
        model.onScheduled task record = .error (.validation task.taskId (.overflowedCredits key)) ∧
          model.unlimited.onScheduled task record = .ok updated ∧
          task.operation = .setCrossFlag ∧
          key ∈ setKeys task ∧
          model.atLimit key = true := by
  cases operation : task.operation with
  | setCrossFlag =>
    simp only [onScheduled, operation, onCrossSet]
    cases moded : crossModeOf task with
    | error failure => exact Or.inl rfl
    | ok mode =>
      cases mode with
      | mode0 => exact Or.inl rfl
      | mode1 => exact Or.inl rfl
      | mode2 =>
        simp only
        cases keyed : crossSetKeysMode2 task with
        | error failure => exact Or.inl rfl
        | ok keys =>
          simp only
          have distinct := crossSetKeysMode2_nodup keyed
          cases pushed :
              forKeys
                (pushCredit model.config task true ⟨record.endCycle, task.taskId⟩)
                model.state keys with
          | ok updated => exact Or.inl (forKeys_push_agrees pushed)
          | error failure =>
            obtain ⟨key, member, failureIs, full⟩ := forKeys_push_error distinct pushed
            obtain ⟨updated, accepted⟩ :=
              forKeys_push_unlimited model.config task true
                ⟨record.endCycle, task.taskId⟩ model.state keys
            refine Or.inr ⟨key, updated, by rw [failureIs], accepted, trivial, ?_, full⟩
            simpa [setKeys, operation, moded, keyed] using member
  | setFlag =>
    refine Or.inl ?_
    simp only [onScheduled, operation]
    split
    · rfl
    · simp [pushCredit, FlagBarrierModel.unlimited]
  | _ =>
    refine Or.inl ?_
    simp only [onScheduled, operation]
    try rfl

section Lockstep

variable {syncConfig : SyncConfig} {config : SimulatorConfig} {program : KernelProgram}
  {fifo : TaskId → Option TaskId}

/-- A task is placed on a full queue by the unlimited model. -/
structure PlacedAtLimit
    (syncConfig : SyncConfig)
    (config : SimulatorConfig)
    (fifo : TaskId → Option TaskId)
    (state : RunState FlagBarrierModel)
    (task : Task)
    (key : FlagKey)
    (next : RunState FlagBarrierModel) :
    Prop where
  placed :
    attempt (flagBarrierSynchronizationModel syncConfig.unlimited) config fifo
      state.unlimited task = .ok (some next)
  isSet : task.operation = .setCrossFlag
  feedsKey : key ∈ setKeys task
  full : state.sync.atLimit key = true

/-- The error of a set that exceeds the credit limit. -/
def overflowError (task : Task) (key : FlagKey) : SimError :=
  .validation task.taskId (.overflowedCredits key)

variable {state next : RunState FlagBarrierModel} {task : Task} {tasks log : List Task}

theorem attempt_lockstep_released {syncConfig : SyncConfig} {config : SimulatorConfig}
    {fifo : TaskId → Option TaskId} {decision : SyncDecision} {cycle : Nat}
    (fresh : state.completed task.taskId = none)
    (ready :
      anyMissing state.completed (executionDependencies task ++ (fifo task.taskId).toList) = false)
    (evaluated : state.sync.evaluate task state.completed = .ok decision)
    (released : decision.readyCycle = some cycle)
    (inTime :
      config.maxCycles.any (· <
        (operationRecord state.completed task (fifo task.taskId) decision
          (placementOf state.completed fifo task cycle)).endCycle) = false) :
    attempt (flagBarrierSynchronizationModel syncConfig.unlimited) config fifo
          state.unlimited task =
        (attempt (flagBarrierSynchronizationModel syncConfig) config fifo state task).map
          (Option.map RunState.unlimited) ∨
      ∃ key next,
        attempt (flagBarrierSynchronizationModel syncConfig) config fifo state task =
            .error (overflowError task key) ∧
          PlacedAtLimit syncConfig config fifo state task key next := by
  have limited : attempt (flagBarrierSynchronizationModel syncConfig) config fifo state task = _ :=
    attempt_of_released fresh ready evaluated released inTime
  have unlimited :
      attempt (flagBarrierSynchronizationModel syncConfig.unlimited) config
          fifo state.unlimited task = _ :=
    attempt_of_released fresh ready evaluated released inTime
  rcases onScheduled_lockstep state.sync task
      (operationRecord state.completed task (fifo task.taskId) decision
        (placementOf state.completed fifo task cycle)) with
      same | ⟨key, updated, rejected, accepted, isSet, feedsKey, full⟩
  · refine Or.inl ?_
    have scheduledSame :
        (flagBarrierSynchronizationModel syncConfig.unlimited).onScheduled
            state.unlimited.sync task
            (operationRecord state.unlimited.completed task (fifo task.taskId) decision
              (placementOf state.unlimited.completed fifo task cycle)) =
          (state.sync.onScheduled task
            (operationRecord state.completed task (fifo task.taskId) decision
              (placementOf state.completed fifo task cycle))).map
            state.sync.unlimited.withState := by
      rw [← same]
      rfl
    rw [unlimited, limited, scheduledSame]
    simp only [flagBarrierSynchronizationModel]
    cases state.sync.onScheduled task
        (operationRecord state.completed task (fifo task.taskId) decision
          (placementOf state.completed fifo task cycle)) with
    | error failure => rfl
    | ok updated => rfl
  · refine Or.inr
      ⟨key, placedState fifo state.unlimited task decision cycle
        (state.sync.unlimited.withState updated), ?_, ?_, isSet, feedsKey, full⟩
    · rw [limited]
      simp only [flagBarrierSynchronizationModel, rejected]
      rfl
    · rw [unlimited]
      have acceptedState :
          (flagBarrierSynchronizationModel syncConfig.unlimited).onScheduled
              state.unlimited.sync task
              (operationRecord state.unlimited.completed task (fifo task.taskId) decision
                (placementOf state.unlimited.completed fifo task cycle)) =
            .ok (state.sync.unlimited.withState updated) := by
        change Except.map _ (state.sync.unlimited.onScheduled task _) = _
        erw [accepted]
        rfl
      rw [acceptedState]
      rfl

/-- An attempt with the limit follows the one without it, or overflows. -/
theorem attempt_lockstep (syncConfig : SyncConfig) (config : SimulatorConfig)
    (fifo : TaskId → Option TaskId) (state : RunState FlagBarrierModel) (task : Task) :
    attempt (flagBarrierSynchronizationModel syncConfig.unlimited) config fifo
          state.unlimited task =
        (attempt (flagBarrierSynchronizationModel syncConfig) config fifo state task).map
          (Option.map RunState.unlimited) ∨
      ∃ key next,
        attempt (flagBarrierSynchronizationModel syncConfig) config fifo state task =
            .error (overflowError task key) ∧
          PlacedAtLimit syncConfig config fifo state task key next := by
  have completedSame : state.unlimited.completed = state.completed := rfl
  have evaluateSame :
      (flagBarrierSynchronizationModel syncConfig.unlimited).evaluate
          state.unlimited.sync task state.completed =
        state.sync.evaluate task state.completed := rfl
  have evaluateLimited :
      (flagBarrierSynchronizationModel syncConfig).evaluate state.sync task
          state.completed =
        state.sync.evaluate task state.completed := rfl
  by_cases done : (state.completed task.taskId).isSome
  · refine Or.inl ?_
    simp [attempt, completedSame, done, Except.map]
  · by_cases missing :
        anyMissing state.completed (executionDependencies task ++ (fifo task.taskId).toList)
    · refine Or.inl ?_
      simp [attempt, completedSame, done, missing, Except.map]
    · cases evaluated : state.sync.evaluate task state.completed with
      | error failure =>
        refine Or.inl ?_
        rw [evaluated] at evaluateSame evaluateLimited
        simp [attempt, completedSame, done, missing, evaluateSame, evaluateLimited, Except.map]
      | ok decision =>
        rw [evaluated] at evaluateSame evaluateLimited
        cases released : decision.readyCycle with
        | none =>
          refine Or.inl ?_
          simp [attempt, completedSame, done, missing, evaluateSame, evaluateLimited,
            released, Except.map]
        | some cycle =>
          by_cases late :
              config.maxCycles.any (· <
                (operationRecord state.completed task (fifo task.taskId) decision
                  (placementOf state.completed fifo task cycle)).endCycle)
          · refine Or.inl ?_
            simp [attempt, completedSame, done, missing, evaluateSame, evaluateLimited,
              released, late, Except.map]
          · exact attempt_lockstep_released (by simpa using done) (by simpa using missing)
              evaluated released (by simpa using late)

/-! ### Passes -/

/-- The unlimited run goes on to place a task on a full queue. -/
structure ExceedsLimit
    (syncConfig : SyncConfig)
    (config : SimulatorConfig)
    (program : KernelProgram)
    (log : List Task)
    (task : Task)
    (key : FlagKey) :
    Prop where
  isTask : task ∈ program.tasks
  exceeds :
    ∃ later state next,
      Fires (flagBarrierSynchronizationModel syncConfig.unlimited) config program
          (log ++ later) state.unlimited ∧
        state.sync.config = syncConfig ∧
        PlacedAtLimit syncConfig config (fifoPredecessors program.tasks) state task key next

theorem attempt_config
    (placed :
      attempt (flagBarrierSynchronizationModel syncConfig) config fifo state task =
        .ok (some next)) :
    next.sync.config = state.sync.config := by
  obtain ⟨step⟩ := attempt_placed placed
  obtain ⟨updated, _, nextShape⟩ := step.sync_eq
  rw [nextShape]
  rfl

theorem schedulePass_config {made progress : Bool}
    (passed :
      schedulePass (flagBarrierSynchronizationModel syncConfig) config fifo state made
        tasks = .ok (next, progress)) :
    next.sync.config = state.sync.config := by
  induction tasks generalizing state made with
  | nil =>
    cases passed
    rfl
  | cons task rest ih =>
    simp only [schedulePass] at passed
    split at passed
    · cases passed
    · exact ih passed
    · rename_i placed
      exact (ih passed).trans (attempt_config placed)

theorem schedulePass_lockstep (made : Bool)
    (fired :
      Fires (flagBarrierSynchronizationModel syncConfig.unlimited) config program log
        state.unlimited)
    (configured : state.sync.config = syncConfig)
    (areTasks : ∀ task ∈ tasks, task ∈ program.tasks) :
    schedulePass (flagBarrierSynchronizationModel syncConfig.unlimited) config
          (fifoPredecessors program.tasks) state.unlimited made tasks =
        (schedulePass (flagBarrierSynchronizationModel syncConfig) config
          (fifoPredecessors program.tasks) state made tasks).map
          (fun outcome => (outcome.1.unlimited, outcome.2)) ∨
      ∃ task key,
        schedulePass (flagBarrierSynchronizationModel syncConfig) config
            (fifoPredecessors program.tasks) state made tasks =
          .error (overflowError task key) ∧
        ExceedsLimit syncConfig config program log task key := by
  induction tasks generalizing log state made with
  | nil => exact Or.inl rfl
  | cons task rest ih =>
    have restTasks : ∀ other ∈ rest, other ∈ program.tasks :=
      fun other member => areTasks other (List.mem_cons_of_mem _ member)
    have isTask := areTasks task List.mem_cons_self
    rcases attempt_lockstep syncConfig config (fifoPredecessors program.tasks) state task with
        same | ⟨key, next, rejected, exceeds⟩
    · cases attempted :
          attempt (flagBarrierSynchronizationModel syncConfig) config
            (fifoPredecessors program.tasks) state task with
      | error failure =>
        rw [attempted] at same
        simp only [Except.map] at same
        exact Or.inl (by simp only [schedulePass, same, attempted, Except.map])
      | ok outcome =>
        rw [attempted] at same
        cases outcome with
        | none =>
          simp only [Except.map, Option.map_none] at same
          simp only [schedulePass, same, attempted]
          exact ih made fired configured restTasks
        | some next =>
          simp only [Except.map, Option.map_some] at same
          simp only [schedulePass, same, attempted]
          have extended := fired.place isTask same
          rcases ih true extended
              ((attempt_config attempted).trans configured) restTasks with
              agree | ⟨late, key, rejected, isLate, exceeds⟩
          · exact Or.inl agree
          · refine Or.inr ⟨late, key, rejected, isLate, ?_⟩
            obtain ⟨later, reached, after, reachedFires, facts⟩ := exceeds
            exact ⟨task :: later, reached, after, by simpa using reachedFires, facts⟩
    · refine Or.inr ⟨task, key, by simp only [schedulePass, rejected], isTask, ?_⟩
      exact ⟨[], state, next, by simpa using fired, configured, exceeds⟩

theorem scheduleLoop_lockstep {fuel : Nat}
    (fired :
      Fires (flagBarrierSynchronizationModel syncConfig.unlimited) config program log
        state.unlimited)
    (configured : state.sync.config = syncConfig) :
    scheduleLoop (flagBarrierSynchronizationModel syncConfig.unlimited) config
          program.tasks fuel state.unlimited =
        (scheduleLoop (flagBarrierSynchronizationModel syncConfig) config program.tasks fuel
          state).map RunState.unlimited ∨
      ∃ task key,
        scheduleLoop (flagBarrierSynchronizationModel syncConfig) config program.tasks fuel
            state = .error (overflowError task key) ∧
        ExceedsLimit syncConfig config program log task key := by
  have pendingSame :
      pendingTasks program.tasks state.unlimited = pendingTasks program.tasks state := rfl
  induction fuel generalizing log state with
  | zero =>
    refine Or.inl ?_
    unfold scheduleLoop
    rw [pendingSame]
    split
    · rfl
    · rfl
  | succ fuel ih =>
    by_cases finished : (pendingTasks program.tasks state).isEmpty
    · refine Or.inl ?_
      unfold scheduleLoop
      rw [pendingSame]
      simp only [finished, ↓reduceIte]
      rfl
    · rcases schedulePass_lockstep false fired configured (fun _ member => member) with
          same | ⟨task, key, rejected, isTask, exceeds⟩
      · cases passed :
            schedulePass (flagBarrierSynchronizationModel syncConfig) config
              (fifoPredecessors program.tasks) state false program.tasks with
        | error failure =>
          refine Or.inl ?_
          rw [passed] at same
          simp only [Except.map] at same
          unfold scheduleLoop
          rw [pendingSame]
          simp only [finished, Bool.false_eq_true, ↓reduceIte, same, passed, Except.map]
        | ok outcome =>
          obtain ⟨next, progress⟩ := outcome
          rw [passed] at same
          simp only [Except.map] at same
          obtain ⟨later, nextFires⟩ := schedulePass_fires fired (fun _ member => member) same
          cases progress with
          | false =>
            refine Or.inl ?_
            unfold scheduleLoop
            rw [pendingSame]
            simp only [finished, Bool.false_eq_true, ↓reduceIte, same, passed]
            split
            · rfl
            · rfl
          | true =>
            have unlimitedLoop :
                scheduleLoop (flagBarrierSynchronizationModel syncConfig.unlimited)
                    config program.tasks (fuel + 1) state.unlimited =
                  scheduleLoop (flagBarrierSynchronizationModel syncConfig.unlimited)
                    config program.tasks fuel next.unlimited := by
              rw [scheduleLoop, pendingSame]
              simp only [finished, Bool.false_eq_true, ↓reduceIte, same]
            have limitedLoop :
                scheduleLoop (flagBarrierSynchronizationModel syncConfig) config
                    program.tasks (fuel + 1) state =
                  scheduleLoop (flagBarrierSynchronizationModel syncConfig) config
                    program.tasks fuel next := by
              rw [scheduleLoop]
              simp only [finished, Bool.false_eq_true, ↓reduceIte, passed]
            rw [unlimitedLoop, limitedLoop]
            rcases ih nextFires
                ((schedulePass_config passed).trans configured) rfl with
                agree | ⟨task, key, rejected, isTask, exceeds⟩
            · exact Or.inl agree
            · refine Or.inr ⟨task, key, rejected, isTask, ?_⟩
              obtain ⟨more, reached, after, reachedFires, facts⟩ := exceeds
              exact ⟨later ++ more, reached, after, by simpa using reachedFires, facts⟩
      · refine Or.inr ⟨task, key, ?_, isTask, exceeds⟩
        rw [scheduleLoop]
        simp only [finished, Bool.false_eq_true, ↓reduceIte, rejected]

theorem reset_unlimited (syncConfig : SyncConfig) (program : KernelProgram) :
    reset syncConfig.unlimited program =
      (reset syncConfig program).map FlagBarrierModel.unlimited := by
  unfold reset
  cases validateProgram program.tasks with
  | error failure => rfl
  | ok _ =>
    cases buildTables {} program.tasks with
    | error failure => rfl
    | ok tables => rfl

/-- So does the whole run. -/
theorem scheduleState_lockstep (syncConfig : SyncConfig) (config : SimulatorConfig)
    (program : KernelProgram) :
    scheduleState (flagBarrierSynchronizationModel syncConfig.unlimited) config program =
        (scheduleState (flagBarrierSynchronizationModel syncConfig) config program).map
          RunState.unlimited ∨
      ∃ task key,
        scheduleState (flagBarrierSynchronizationModel syncConfig) config program =
            .error (overflowError task key) ∧
        ExceedsLimit syncConfig config program [] task key := by
  have resetSame :
      (flagBarrierSynchronizationModel syncConfig.unlimited).reset program =
        ((flagBarrierSynchronizationModel syncConfig).reset program).map
          FlagBarrierModel.unlimited :=
    reset_unlimited syncConfig program
  by_cases platform : config.platform ≠ program.platform
  · refine Or.inl ?_
    simp only [scheduleState, platform, ↓reduceIte, not_false_eq_true, ne_eq]
    rfl
  · cases declared : validateDependencies program.tasks with
    | error failure =>
      refine Or.inl ?_
      simp only [scheduleState, platform, ↓reduceIte, declared]
      rfl
    | ok _ =>
      cases accepted : (flagBarrierSynchronizationModel syncConfig).reset program with
      | error failure =>
        refine Or.inl ?_
        rw [accepted] at resetSame
        simp only [Except.map] at resetSame
        simp only [scheduleState, platform, ↓reduceIte, declared, accepted, resetSame]
        rfl
      | ok sync =>
        rw [accepted] at resetSame
        simp only [Except.map] at resetSame
        simp only [scheduleState, platform, ↓reduceIte, declared, accepted, resetSame]
        have started :
            Fires (flagBarrierSynchronizationModel syncConfig.unlimited) config program
              [] (RunState.initial sync).unlimited :=
          Fires.initial resetSame
        exact scheduleLoop_lockstep started (reset_accepted accepted).1.config

/-- The credit limit rejects runs at mode-2 sets; it changes no schedule and no other error. -/
theorem creditLimit_only_rejects (syncConfig : SyncConfig) (config : SimulatorConfig)
    (program : KernelProgram) :
    run (flagBarrierSynchronizationModel syncConfig) config program =
        run (flagBarrierSynchronizationModel syncConfig.unlimited) config program ∨
      ∃ task ∈ program.tasks, ∃ key ∈ setKeys task,
        task.operation = .setCrossFlag ∧
          run (flagBarrierSynchronizationModel syncConfig) config program =
            .error (overflowError task key) := by
  rcases scheduleState_lockstep syncConfig config program with same | ⟨task, key, ended, limit⟩
  · refine Or.inl ?_
    unfold run
    rw [same]
    cases scheduleState (flagBarrierSynchronizationModel syncConfig) config program <;> rfl
  · obtain ⟨_, _, _, _, _, full⟩ := limit.exceeds
    refine Or.inr ⟨task, limit.isTask, key, full.feedsKey, full.isSet, ?_⟩
    unfold run
    rw [ended]

end Lockstep

/-! ## Outstanding credits in simulated time -/

/-- End cycle of a completed task. -/
def endOf (completed : Completed) (task : Task) : Nat :=
  ((completed task.taskId).map ExecutionRecord.endCycle).getD 0

/-- Sets of a channel in the order in which a schedule placed them. -/
def placedSets (program : KernelProgram) (final : RunState FlagBarrierModel)
    (key : FlagKey) : List Task :=
  (firingOrder program final).filter (feeds key)

/-- Waits on a channel in the order in which a schedule placed them. -/
def placedWaits (program : KernelProgram) (final : RunState FlagBarrierModel)
    (key : FlagKey) : List Task :=
  (firingOrder program final).filter (final.sync.drainsQueue key)

/--
Credits of a channel that are outstanding at a cycle: the set has ended and the wait that
receives the credit has not started.  The queue hands the credits out in the order in which
the sets were placed.
-/
def outstandingCredits (program : KernelProgram) (final : RunState FlagBarrierModel)
    (key : FlagKey) (cycle : Nat) : Nat :=
  (placedSets program final key).zipIdx.countP fun entry =>
    endOf final.completed entry.1 ≤ cycle &&
      !(placedWaits program final key)[entry.2]?.any fun wait =>
        startOf final.completed wait ≤ cycle

/-- Channels of mode-2 cross flags. -/
def isMode2Channel : FlagKey → Bool
  | .crossFlag .. => true
  | .localFlag .. => false

/-! ## Exchanges without outstanding credits -/

/-- Every credit of a channel is received by a wait that starts no later than its set ends. -/
def handedOver (program : KernelProgram) (final : RunState FlagBarrierModel)
    (key : FlagKey) : Bool :=
  (placedSets program final key).zipIdx.all fun entry =>
    (placedWaits program final key)[entry.2]?.any fun wait =>
      startOf final.completed wait ≤ endOf final.completed entry.1

theorem outstandingCredits_eq_zero {program : KernelProgram} {final : RunState FlagBarrierModel}
    (handed :
      ((firingOrder program final).all fun task =>
        (setKeys task).all (handedOver program final)) = true)
    (key : FlagKey) (cycle : Nat) : outstandingCredits program final key cycle = 0 := by
  refine List.countP_eq_zero.mpr ?_
  rintro ⟨set, index⟩ member
  have isPlaced : set ∈ placedSets program final key := List.fst_mem_of_mem_zipIdx member
  obtain ⟨fired, fed⟩ := List.mem_filter.mp isPlaced
  have isKey : key ∈ setKeys set := by simpa [feeds] using fed
  have received :=
    List.all_eq_true.mp
      (List.all_eq_true.mp (List.all_eq_true.mp handed set fired) key isKey) _ member
  cases isWait : (placedWaits program final key)[index]? with
  | none => simp [isWait] at received
  | some wait =>
    simp only [isWait, Option.any_some, decide_eq_true_eq] at received
    simp only [Option.any_some, Bool.and_eq_true, decide_eq_true_eq, Bool.not_eq_eq_eq_not,
      Bool.not_true, decide_eq_false_iff_not, not_le, not_and, not_lt]
    intro ended
    exact received.trans ended

/-- A mode-2 cross flag task of one core; the index tells the tasks of one kind apart. -/
def mode2Flag
    (kind : String)
    (index : Nat)
    (operation : Operation)
    (lane : Lane)
    (pipe : Pipe)
    (durationCycles : Nat)
    (kindNonempty : kind ≠ "" := by exact nonempty_of_check trivial)
    (pipeAllowed : pipe ∈ lane.allowedPipes := by exact allowed_of_check trivial)
    (durationPositive : 0 < durationCycles := by exact positive_of_check trivial) :
    Task where
  taskId := kind ++ toString index
  operation := operation
  coreId := 0
  lane := lane
  pipe := pipe
  durationCycles := durationCycles
  metadata := { srcPipe := some (.pipe pipe), flagId := .value 0, mode := .value 2 }
  idNonempty := by
    intro isEmpty
    exact kindNonempty (String.append_eq_empty_iff.mp isEmpty).1
  pipeAllowed := pipeAllowed
  durationPositive := durationPositive

/-- Sets of the cube lane, listed before the waits of both vector lanes for them. -/
def mode2Exchange (count : Nat) : List Task :=
  (List.range count).map (fun index => mode2Flag "set-" index .setCrossFlag .cube .fix 10) ++
    (List.range count).map (fun index => mode2Flag "wait0-" index .waitCrossFlag .vector0 .s 1) ++
    (List.range count).map (fun index => mode2Flag "wait1-" index .waitCrossFlag .vector1 .s 1)

/-- Sixteen exchanges: the first pass reaches the sixteenth set before the first wait. -/
def sixteenExchanges : KernelProgram where
  cores := [{ coreId := 0, tasks := mode2Exchange 16, tasksOwned := by decide +kernel }]
  idsUnique := by decide +kernel
  dependenciesKnown := by decide +kernel
  acyclic := by decide +kernel

/-- No credit is ever outstanding, but the sixteenth set is placed on a full queue. -/
theorem sixteenExchanges_overflow :
    ¬ ∀ (config : SimulatorConfig) (program : KernelProgram)
        (final : RunState FlagBarrierModel),
        scheduleState (flagBarrierSynchronizationModel { creditLimit := none }) config
          program = .ok final →
        (∀ key cycle, isMode2Channel key = true → outstandingCredits program final key cycle ≤ 15) →
        ∀ taskId key,
          run (flagBarrierSynchronizationModel {}) config program ≠
            .error (.validation taskId (.overflowedCredits key)) := by
  intro neverOverflows
  have observed : (scheduleState (flagBarrierSynchronizationModel { creditLimit := none }) {}
          sixteenExchanges).toOption.map
        (fun final =>
          (firingOrder sixteenExchanges final).all fun task =>
            (setKeys task).all (handedOver sixteenExchanges final)) = some true := by
    decide +kernel
  have overflows :
      run (flagBarrierSynchronizationModel {}) {} sixteenExchanges =
        .error (.validation "set-15" (.overflowedCredits (.crossFlag 0 .c2v .vector0 0))) := by
    decide +kernel
  obtain ⟨final, scheduled, handed⟩ := ok_of_observed observed
  refine neverOverflows {} sixteenExchanges final scheduled ?_ _ _ overflows
  intro key cycle _
  rw [outstandingCredits_eq_zero handed]
  exact Nat.zero_le 15

end TilelangAscend.Simulator
