import TilelangAscend.Credits

namespace TilelangAscend.Simulator

open ListHistory
open FlagBarrierModel

/-!
# Credits in blocking mode

With `flag_blocking` a set is placed only while its queue is shorter than the depth of its
channel.  The queue is measured in firing order, the bound that blocking mode is for is
measured in simulated time.  The two agree when a set that reuses a slot never starts
before the waits that made room for it.
-/

/-- Depth of a channel: local channels and mode-2 channels have their own. -/
def channelDepth
    (syncConfig : SyncConfig) :
    FlagKey → Nat
  | .localFlag .. => syncConfig.localFlagDepth
  | .crossFlag .. => syncConfig.crossFlagDepth

/-- Sets of a channel that have ended by a cycle. -/
def endedSets (program : KernelProgram) (result : ScheduleResult) (key : FlagKey)
    (cycle : Nat) : Nat :=
  program.tasks.countP fun task =>
    feeds key task && (result.operation? task.taskId).any (·.endCycle ≤ cycle)

/-- Waits on a channel that have started by a cycle. -/
def startedWaits (program : KernelProgram) (model : FlagBarrierModel)
    (result : ScheduleResult) (key : FlagKey) (cycle : Nat) : Nat :=
  program.tasks.countP fun task =>
    model.drainsQueue key task && (result.operation? task.taskId).any (·.startCycle ≤ cycle)

/-- Tasks before a task in program order. -/
def KernelProgram.earlierTasks (program : KernelProgram) (task : Task) : List Task :=
  program.tasks.takeWhile fun other => other.taskId ≠ task.taskId

theorem KernelProgram.earlierTasks_eq {program : KernelProgram} {before after : List Task}
    {task : Task} (shape : program.tasks = before ++ task :: after) :
    program.earlierTasks task = before := by
  have unique := program.taskIds_nodup
  rw [shape, List.map_append, List.map_cons, List.nodup_append] at unique
  have differs : ∀ other ∈ before, other.taskId ≠ task.taskId :=
    fun other member => unique.2.2 _ (List.mem_map_of_mem member) task.taskId List.mem_cons_self
  unfold KernelProgram.earlierTasks
  rw [shape, List.takeWhile_append_of_pos (by simpa using differs)]
  simp

/-- Start cycle of a completed task. -/
def startOf (completed : Completed) (task : Task) : Nat :=
  ((completed task.taskId).map ExecutionRecord.startCycle).getD 0

/-- The first waits placed on a channel, as many as must have made room for one more set. -/
def freeingWaits (syncConfig : SyncConfig) (model : FlagBarrierModel) (older : List Task)
    (key : FlagKey) : List Task :=
  (older.filter (model.drainsQueue key)).take
    (older.countP (feeds key) + 1 - channelDepth syncConfig key)

/--
The steps of a firing sequence respect simulated time: a set that reuses a slot of its
channel has no earlier `sync_all` on its lane, and none of the waits that made room for it
starts later than it.
-/
def TimelySets (syncConfig : SyncConfig) (program : KernelProgram) (log : List Task)
    (state : RunState FlagBarrierModel) : Prop :=
  ∀ older set newer, log = older ++ set :: newer →
    ∀ key ∈ setKeys set, channelDepth syncConfig key ≤ older.countP (feeds key) →
      (∀ other ∈ program.earlierTasks set, isSyncAllOn set.participant other = false) ∧
      ∀ wait ∈ freeingWaits syncConfig state.sync older key,
        startOf state.completed wait ≤ startOf state.completed set

/-- The bound of blocking mode on a schedule, and what it means for a set that stalled. -/
structure CreditsBounded
    (syncConfig : SyncConfig)
    (program : KernelProgram)
    (log : List Task)
    (state : RunState FlagBarrierModel) :
    Prop where
  atEveryCycle :
    ∀ key cycle,
      endedSets program state.result key cycle ≤
        startedWaits program state.sync state.result key cycle + channelDepth syncConfig key
  afterFreeingWait :
    ∀ older set newer, log = older ++ set :: newer →
      ∀ key ∈ setKeys set, channelDepth syncConfig key ≤ older.countP (feeds key) →
        ∃ wait,
          (older.filter (state.sync.drainsQueue key))[
              older.countP (feeds key) - channelDepth syncConfig key]? = some wait ∧
            startOf state.completed wait ≤ startOf state.completed set

section Blocking

variable {syncConfig : SyncConfig} {config : SimulatorConfig} {program : KernelProgram}
  {log : List Task} {state : RunState FlagBarrierModel} {task set : Task} {key : FlagKey}
  {completed : Completed} {cycle : Nat} {older newer : List Task}

theorem evaluateOperation_below_depth {model : FlagBarrierModel} {orderingCycle : Nat}
    {decision : SyncDecision} (blocking : model.config.flagBlocking = true)
    (member : key ∈ setKeys task)
    (evaluated : model.evaluateOperation task completed orderingCycle = .ok decision)
    (released : decision.readyCycle = some cycle) :
    (model.state.tokens key).length < channelDepth model.config key := by
  unfold setKeys at member
  split at member
  · rename_i operation
    simp only [evaluateOperation, operation] at evaluated
    obtain ⟨found, keyed, below⟩ := (evaluateLocalSet_ready evaluated released).2 blocking
    simp only [keyed, Except.toOption, Option.toList_some, List.mem_singleton] at member
    subst member
    have isLocal : channelDepth model.config key = model.config.localFlagDepth := by
      unfold localFlagKey at keyed
      split at keyed
      all_goals cases keyed
      rfl
    omega
  · rename_i operation
    simp only [evaluateOperation, operation] at evaluated
    split at member
    · rename_i keys moded keyed
      obtain ⟨found, foundKeyed, below⟩ :=
        (evaluateCrossSet_ready evaluated released).2 blocking moded
      rw [keyed] at foundKeyed
      cases foundKeyed
      have isCross : channelDepth model.config key = model.config.crossFlagDepth := by
        unfold crossSetKeysMode2 at keyed
        split at keyed
        all_goals cases keyed
        all_goals simp only [Lane.vectorLanes, List.map_cons, List.map_nil, List.mem_cons,
          List.not_mem_nil, or_false] at member
        · rcases member with isFirst | isSecond
          · rw [isFirst]
            rfl
          · rw [isSecond]
            rfl
        · rw [member]
          rfl
        · rw [member]
          rfl
      rw [isCross]
      exact below key member
    · simp at member
  · simp at member

theorem PlacedStep.startOf_eq {fifo : TaskId → Option TaskId} {next : RunState FlagBarrierModel}
    (step : PlacedStep (flagBarrierSynchronizationModel syncConfig) fifo state task next)
    {other : Task} (differs : other.taskId ≠ task.taskId) :
    startOf next.completed other = startOf state.completed other := by
  simp [startOf, step.completed_other differs]

section

variable (fired : Fires (flagBarrierSynchronizationModel syncConfig) config program log state)
include fired

/-- A blocking set finds fewer credits than the depth. -/
theorem Fires.set_within_depth (blocking : syncConfig.flagBlocking = true)
    (shape : log = older ++ set :: newer) (member : key ∈ setKeys set)
    (unreleased : ∀ other ∈ program.earlierTasks set, isSyncAllOn set.participant other = false) :
    older.countP (feeds key) <
      older.countP (state.sync.drainsQueue key) + channelDepth syncConfig key := by
  obtain ⟨earlier, next, reached, step, -⟩ := fired.step_at shape
  have isTask : set ∈ program.tasks := fired.log_mem (by rw [shape]; simp)
  obtain ⟨before, after, programShape⟩ := List.mem_iff_append.mp isTask
  rw [KernelProgram.earlierTasks_eq programShape] at unreleased
  have evaluated := step.wasReleased.operation (reached.release_none programShape unreleased)
  have below :=
    evaluateOperation_below_depth (by rw [reached.accepted.config]; exact blocking) member
      evaluated step.released
  obtain ⟨queue, counted⟩ := reached.tokens_eq key
  have sameDrains : earlier.sync.drainsQueue = state.sync.drainsQueue :=
    reached.accepted.drainsQueue_eq fired.accepted
  rw [queue, List.length_drop, List.length_map, ← List.countP_eq_length_filter, sameDrains,
    reached.accepted.config] at below
  rw [sameDrains] at counted
  omega

theorem Fires.countP_completed {test : Task → Bool}
    (completes : ∀ task, test task = true → ∃ record, state.completed task.taskId = some record) :
    program.tasks.countP test = log.countP test := by
  have tasksNodup : program.tasks.Nodup := List.Nodup.of_map _ program.taskIds_nodup
  have logNodup : log.Nodup := List.Nodup.of_map _ fired.log_nodup
  have same : (program.tasks.filter test).Perm (log.filter test) := by
    rw [List.perm_ext_iff_of_nodup (tasksNodup.filter _) (logNodup.filter _)]
    intro task
    rw [List.mem_filter, List.mem_filter]
    constructor
    · rintro ⟨isTask, passes⟩
      exact ⟨(fired.completed_iff_mem_log isTask).mp (completes task passes), passes⟩
    · rintro ⟨inLog, passes⟩
      exact ⟨fired.log_mem inLog, passes⟩
  rw [List.countP_eq_length_filter, List.countP_eq_length_filter]
  exact same.length_eq

end

theorem completed_of_any {taskId : TaskId} {test : ExecutionRecord → Bool}
    (passes : (completed taskId).any test = true) :
    ∃ record, completed taskId = some record ∧ test record = true := by
  cases done : completed taskId with
  | none => simp [done] at passes
  | some record => exact ⟨record, rfl, by simpa [done] using passes⟩

theorem Fires.freeing_waits_started
    (fired : Fires (flagBarrierSynchronizationModel syncConfig) config program log state)
    {setRecord : ExecutionRecord} (shape : log = older ++ set :: newer)
    (done : state.completed set.taskId = some setRecord) (ended : setRecord.endCycle ≤ cycle)
    (timely :
      ∀ wait ∈ freeingWaits syncConfig state.sync older key,
        startOf state.completed wait ≤ startOf state.completed set) :
    (freeingWaits syncConfig state.sync older key).length ≤
      log.countP fun task =>
        state.sync.drainsQueue key task &&
          (state.completed task.taskId).any (·.startCycle ≤ cycle) := by
  have started :
      ∀ wait ∈ freeingWaits syncConfig state.sync older key,
        (state.sync.drainsQueue key wait &&
          (state.completed wait.taskId).any (·.startCycle ≤ cycle)) = true := by
    intro wait freeing
    obtain ⟨inOlder, drains⟩ := List.mem_filter.mp (List.mem_of_mem_take freeing)
    obtain ⟨waitRecord, waitDone⟩ :=
      (fired.completed_iff wait.taskId).mpr ⟨wait, by rw [shape]; simp [inOlder], rfl⟩
    have startsFirst := timely wait freeing
    have setRuns := fired.start_le_end done
    simp only [startOf, waitDone, done, Option.map_some, Option.getD_some] at startsFirst
    simp only [drains, waitDone, Option.any_some, Bool.true_and, decide_eq_true_eq]
    omega
  have isSublist : (freeingWaits syncConfig state.sync older key).Sublist log := by
    rw [shape]
    exact ((List.take_sublist _ _).trans List.filter_sublist).trans (List.sublist_append_left _ _)
  rw [← List.countP_eq_length.mpr started]
  exact isSublist.countP_le

/-- So many waits have made room for a set that was placed within the depth. -/
theorem length_freeingWaits
    (within :
      older.countP (feeds key) <
        older.countP (state.sync.drainsQueue key) + channelDepth syncConfig key) :
    (freeingWaits syncConfig state.sync older key).length =
      older.countP (feeds key) + 1 - channelDepth syncConfig key := by
  rw [freeingWaits, List.length_take, ← List.countP_eq_length_filter]
  omega

/-- With timely sets the bound holds at every cycle. -/
theorem Fires.bounded_at_cycle
    (fired : Fires (flagBarrierSynchronizationModel syncConfig) config program log state)
    (blocking : syncConfig.flagBlocking = true)
    (timely : TimelySets syncConfig program log state) (key : FlagKey) (cycle : Nat) :
    endedSets program state.result key cycle ≤
      startedWaits program state.sync state.result key cycle + channelDepth syncConfig key := by
  unfold endedSets startedWaits
  rw [fired.operation?_eq, fired.countP_completed ?_, fired.countP_completed ?_]
  · cases latest :
        lastWhere
          (fun task => feeds key task &&
            (state.completed task.taskId).any (·.endCycle ≤ cycle)) log with
    | none =>
      have noneEnded :
          (log.countP fun task => feeds key task &&
            (state.completed task.taskId).any (·.endCycle ≤ cycle)) = 0 := by
        rw [List.countP_eq_length_filter, List.length_eq_zero_iff]
        exact List.getLast?_eq_none_iff.mp latest
      omega
    | some set =>
      obtain ⟨older, newer, shape, setEnded, newerRuns⟩ := lastWhere_eq_some latest
      simp only [Bool.and_eq_true] at setEnded
      obtain ⟨fed, endedBy⟩ := setEnded
      obtain ⟨setRecord, done, ended⟩ := completed_of_any endedBy
      have newerNone :
          (newer.countP fun task => feeds key task &&
            (state.completed task.taskId).any (·.endCycle ≤ cycle)) = 0 := by
        rw [List.countP_eq_zero]
        intro task member
        simp [newerRuns task member]
      have olderFewer :
          (older.countP fun task => feeds key task &&
            (state.completed task.taskId).any (·.endCycle ≤ cycle)) ≤ older.countP (feeds key) := by
        refine List.countP_mono_left ?_
        intro task _ passes
        simp only [Bool.and_eq_true] at passes
        exact passes.1
      have total :
          (log.countP fun task => feeds key task &&
            (state.completed task.taskId).any (·.endCycle ≤ cycle)) ≤
              older.countP (feeds key) + 1 := by
        rw [shape, List.countP_append, List.countP_cons, newerNone]
        split <;> omega
      by_cases room : older.countP (feeds key) < channelDepth syncConfig key
      · omega
      · have member : key ∈ setKeys set := by simpa [feeds] using fed
        obtain ⟨unreleased, waitsFirst⟩ := timely older set newer shape key member (by omega)
        have within := fired.set_within_depth blocking shape member unreleased
        have started := fired.freeing_waits_started shape done (by simpa using ended) waitsFirst
        rw [length_freeingWaits within] at started
        omega
  · intro task passes
    simp only [Bool.and_eq_true] at passes
    obtain ⟨record, done, _⟩ := completed_of_any passes.2
    exact ⟨record, done⟩
  · intro task passes
    simp only [Bool.and_eq_true] at passes
    obtain ⟨record, done, _⟩ := completed_of_any passes.2
    exact ⟨record, done⟩

end Blocking

/-- In blocking mode every timely firing sequence keeps its credits bounded. -/
theorem Fires.creditsBounded
    {syncConfig : SyncConfig} {config : SimulatorConfig} {program : KernelProgram}
    {log : List Task} {state : RunState FlagBarrierModel}
    (fired : Fires (flagBarrierSynchronizationModel syncConfig) config program log state)
    (blocking : syncConfig.flagBlocking = true)
    (timely : TimelySets syncConfig program log state) :
    CreditsBounded syncConfig program log state := by
  refine {
    atEveryCycle := fired.bounded_at_cycle blocking timely
    afterFreeingWait := ?_ }
  intro older set newer shape key member reuses
  obtain ⟨unreleased, waitsFirst⟩ := timely older set newer shape key member reuses
  have within := fired.set_within_depth blocking shape member unreleased
  have inRange :
      older.countP (feeds key) - channelDepth syncConfig key <
        (freeingWaits syncConfig state.sync older key).length := by
    rw [length_freeingWaits within]
    omega
  have taken := List.getElem?_eq_getElem inRange
  refine ⟨_, ?_, waitsFirst _ (List.getElem_mem inRange)⟩
  rw [← taken, freeingWaits, List.getElem?_take_of_lt (by omega)]

/-- Two sets on the load pipe while the matrix pipe is busy before their waits. -/
def stalledSet : KernelProgram where
  cores :=
    [{ coreId := 0
       tasks :=
         [cubeFlag "set-0" .setFlag .mte2,
          cubeFlag "set-1" .setFlag .mte2,
          { taskId := "mma", operation := .other "mma", coreId := 0
            lane := .cube, pipe := .m, durationCycles := 100 },
          cubeFlag "wait-0" .waitFlag .m,
          cubeFlag "wait-1" .waitFlag .m] }]

/-- The second set stalls but starts long before the wait that frees its slot. -/
theorem stalledSet_exceeds_depth :
    ¬ ∀ (syncConfig : SyncConfig) (config : SimulatorConfig) (program : KernelProgram)
        (model : FlagBarrierModel) (result : ScheduleResult),
        syncConfig.flagBlocking = true →
        reset syncConfig program = .ok model →
        run (flagBarrierSynchronizationModel syncConfig) config program = .ok result →
        ∀ key cycle,
          endedSets program result key cycle ≤
            startedWaits program model result key cycle + channelDepth syncConfig key := by
  intro bounded
  have counts : (run (flagBarrierSynchronizationModel { flagBlocking := true }) {}
          stalledSet).toOption.map
        (fun result =>
          (endedSets stalledSet result
              (.localFlag 0 .cube (.pipe .mte2) (.pipe .m) 0) 2,
            ((reset { flagBlocking := true } stalledSet).toOption.map fun model =>
              startedWaits stalledSet model result
                (.localFlag 0 .cube (.pipe .mte2) (.pipe .m) 0) 2))) =
      some (2, some 0) := by
    decide +kernel
  obtain ⟨result, completes, observed⟩ := ok_of_observed counts
  obtain ⟨log, state, fired, _, _⟩ := run_fires completes
  obtain ⟨model, accepted⟩ := fired.reset_ok
  have isReset : reset { flagBlocking := true } stalledSet = .ok model := accepted
  simp only [isReset, Except.toOption, Option.map_some, Prod.mk.injEq, Option.some.injEq]
    at observed
  have holds :=
    bounded { flagBlocking := true } {} stalledSet model result rfl isReset completes
      (.localFlag 0 .cube (.pipe .mte2) (.pipe .m) 0) 2
  rw [observed.1, observed.2] at holds
  exact absurd holds (by decide)

end TilelangAscend.Simulator
