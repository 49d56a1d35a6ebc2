import TilelangAscend.CriticalPath
import TilelangAscend.SchedulerRun

namespace TilelangAscend.Simulator

open ListHistory

/-!
# Valid schedules

Whatever the synchronization model answers, a completed schedule gives every task one
operation interval of its duration, keeps the intervals of one hardware queue disjoint
and in program order, and respects every execution dependency.  Without
synchronization each task starts as early as these constraints allow, so the makespan
is the longest weighted path of the FIFO and dependency edges.
-/

/-- The hardware queue of a record. -/
def ExecutionRecord.resource (record : ExecutionRecord) : ResourceKey where
  coreId := record.coreId
  lane := record.lane
  pipe := record.pipe

/-- Whether a record is the operation record of a task. -/
def isOperationOf (taskId : TaskId) (record : ExecutionRecord) : Bool :=
  record.category = .operation ∧ record.taskId = taskId

/-- Edges that delay a task: execution dependencies and its FIFO predecessor. -/
def delayingTasks (program : KernelProgram) (task : Task) : List TaskId :=
  executionDependencies task ++ (fifoPredecessors program.tasks task.taskId).toList

/-- Precedence between tasks of a program. -/
def Precedes (program : KernelProgram) (earlier task : Task) : Prop :=
  earlier ∈ program.tasks ∧ task ∈ program.tasks ∧ earlier.taskId ∈ delayingTasks program task

/-- What holds of every completed schedule. -/
structure ValidSchedule
    (program : KernelProgram)
    (result : ScheduleResult) :
    Prop where
  /-- Each task has exactly one operation record, of its duration, on its own queue. -/
  oneOperation :
    ∀ task ∈ program.tasks,
      ∃ record,
        result.records.filter (isOperationOf task.taskId) = [record] ∧
          record.endCycle = record.startCycle + task.durationCycles ∧
          record.resource = task.resource
  /-- Every record belongs to a task and stands on the queue of that task. -/
  owned :
    ∀ record ∈ result.records,
      ∃ task ∈ program.tasks, record.taskId = task.taskId ∧ record.resource = task.resource
  /-- Intervals on one queue are pairwise disjoint. -/
  disjoint :
    result.records.Pairwise fun first second =>
      first.resource = second.resource →
        first.endCycle ≤ second.startCycle ∨ second.endCycle ≤ first.startCycle
  /-- Intervals of different tasks on one queue follow program order. -/
  programOrder :
    ∀ before earlier between task after,
      program.tasks = before ++ earlier :: (between ++ task :: after) →
      earlier.resource = task.resource →
      ∀ first ∈ result.records,
        ∀ second ∈ result.records, first.taskId = earlier.taskId → second.taskId = task.taskId →
          first.endCycle ≤ second.startCycle
  /-- The stall of a task ends before its operation starts. -/
  stallFirst :
    ∀ stall ∈ result.records,
      ∀ operation ∈ result.records, stall.taskId = operation.taskId → stall.category = .wait →
        operation.category = .operation →
        stall.endCycle ≤ operation.startCycle
  /-- A task starts no earlier than the end of each execution dependency. -/
  dependencies :
    ∀ task ∈ program.tasks,
      ∀ dependency ∈ executionDependencies task, EndsBefore result.operation? dependency task.taskId

/-- What holds in addition when nothing but the queues and dependencies delays tasks. -/
structure EarliestSchedule
    (program : KernelProgram)
    (result : ScheduleResult) :
    Prop where
  /-- A task starts with the latest end of its delaying tasks, at 0 if there is none. -/
  starts :
    ∀ task ∈ program.tasks,
      ∃ record,
        result.operation? task.taskId = some record ∧
          record.startCycle = maxEnd result.operation? (delayingTasks program task)
  /-- No weighted path is longer than the makespan. -/
  pathsBounded :
    ∀ task ∈ program.tasks,
      ∀ total, CriticalPath.PathTo (Precedes program) Task.durationCycles task total →
        total ≤ result.makespanCycles
  /-- Some weighted path is as long as the makespan, unless there is no task. -/
  pathAttained :
    (program.tasks = [] ∧ result.makespanCycles = 0) ∨
      ∃ task ∈ program.tasks,
        CriticalPath.PathTo (Precedes program) Task.durationCycles task result.makespanCycles

section Validity

variable {σ : Type} {model : SynchronizationModel σ} {config : SimulatorConfig}
  {program : KernelProgram}

/-! ## The records of a run -/

variable {record : ExecutionRecord}

theorem mem_waitRecords {task : Task} {decision : SyncDecision} {placement : Placement}
    (member : record ∈ waitRecords task decision placement) :
    record.taskId = task.taskId ∧ record.resource = task.resource ∧
      record.category = .wait ∧
      record.startCycle = placement.unsynchronizedCycle ∧
      record.endCycle = placement.startCycle := by
  unfold waitRecords at member
  split at member
  · rename_i delayed
    rw [List.mem_singleton] at member
    subst member
    refine ⟨rfl, rfl, rfl, rfl, ?_⟩
    simp only [Placement.unsynchronizedCycle, Placement.startCycle,
      Placement.readyCycle] at delayed ⊢
    omega
  · simp at member

/-- What the emitted records say about the fired tasks. -/
structure RecordsDescribe
    (program : KernelProgram)
    (log : List Task)
    (state : RunState σ) :
    Prop where
  operationIds :
    (state.records.filter fun record => record.category = .operation).map
        ExecutionRecord.taskId =
      log.map Task.taskId
  operations :
    ∀ record ∈ state.records, record.category = .operation →
      state.completed record.taskId = some record
  listed :
    ∀ taskId record, state.completed taskId = some record →
      record ∈ state.records ∧ record.category = .operation ∧ record.taskId = taskId
  owned :
    ∀ record ∈ state.records,
      ∃ task ∈ log, record.taskId = task.taskId ∧ record.resource = task.resource
  stalls :
    ∀ record ∈ state.records, record.category = .wait →
      ∃ operation,
        state.completed record.taskId = some operation ∧ record.startCycle ≤ operation.startCycle ∧
          record.endCycle = operation.startCycle
  ordered :
    state.records.Pairwise fun first second =>
      first.resource = second.resource → first.endCycle ≤ second.startCycle

namespace Fires

variable {log : List Task} {state : RunState σ}
  {task : Task} {next : RunState σ} {record : ExecutionRecord}

theorem resource_end_le (fired : Fires model config program log state) {earlier : Task}
    (isTask : task ∈ program.tasks)
    (step : PlacedStep model (fifoPredecessors program.tasks) state task next)
    (inLog : earlier ∈ log) (sameResource : earlier.resource = task.resource)
    (done : state.completed earlier.taskId = some record) :
    record.endCycle ≤ step.placement.resourceCycle := by
  obtain ⟨before, after, shape⟩ := List.mem_iff_append.mp isTask
  have inFiltered : earlier ∈ log.filter (fun other => other.resource = task.resource) :=
    List.mem_filter.mpr ⟨inLog, by simpa using sameResource⟩
  rw [fired.resource_log shape step.queueHead] at inFiltered
  obtain ⟨inBefore, passes⟩ := List.mem_filter.mp inFiltered
  obtain ⟨latest, isLatest⟩ :=
    lastWhere_isSome (fun other : Task => decide (other.resource = task.resource)) inBefore passes
  obtain ⟨older, newer, beforeShape, latestPasses, newerFail⟩ := lastWhere_eq_some isLatest
  have queued : fifoPredecessors program.tasks task.taskId = some latest.taskId := by
    rw [fifoPredecessors_eq program.taskIds_nodup shape, lastOnResource, isLatest]
    rfl
  obtain ⟨latestRecord, latestDone, latestEnds⟩ := step.predecessor_done queued
  rw [beforeShape] at inBefore
  rcases List.mem_append.mp inBefore with inOlder | inRest
  · have latestShape :
        program.tasks = older ++ latest :: (newer ++ task :: after) := by
      rw [shape, beforeShape]
      simp
    have latestResource : latest.resource = task.resource := by
      simpa using latestPasses
    obtain ⟨earlierRecord, earlierDone, earlierEnds⟩ :=
      fired.resource_endsBefore latestShape inOlder
        (sameResource.trans latestResource.symm) latestRecord latestDone
    rw [done] at earlierDone
    cases earlierDone
    have inner := fired.start_le_end latestDone
    omega
  · rcases List.mem_cons.mp inRest with isLatestTask | inNewer
    · rw [isLatestTask, latestDone] at done
      cases done
      exact latestEnds
    · have fails := newerFail earlier inNewer
      simp [sameResource] at fails

private theorem record_end_le (fired : Fires model config program log state)
    (describes : RecordsDescribe program log state) (isTask : task ∈ program.tasks)
    (step : PlacedStep model (fifoPredecessors program.tasks) state task next)
    (member : record ∈ state.records) (sameResource : record.resource = task.resource) :
    record.endCycle ≤ step.placement.resourceCycle := by
  obtain ⟨owner, inLog, identifier, onResource⟩ := describes.owned record member
  have ownerResource : owner.resource = task.resource := onResource.symm.trans sameResource
  cases category : record.category with
  | operation =>
    have done := describes.operations record member category
    rw [identifier] at done
    exact fired.resource_end_le isTask step inLog ownerResource done
  | wait =>
    obtain ⟨operation, done, _, endsAtStart⟩ := describes.stalls record member category
    have inner := fired.start_le_end done
    rw [identifier] at done
    have ends := fired.resource_end_le isTask step inLog ownerResource done
    omega

theorem recordsDescribe (fired : Fires model config program log state) :
    RecordsDescribe program log state := by
  induction fired with
  | initial =>
    exact {
      operationIds := rfl
      operations := by simp [RunState.initial]
      listed := by simp [RunState.initial]
      owned := by simp [RunState.initial]
      stalls := by simp [RunState.initial]
      ordered := by simp [RunState.initial] }
  | @place earlierLog earlierState next task earlier isTask placed describes =>
    obtain ⟨step⟩ := attempt_placed placed
    have recordsShape :
        next.records =
          earlierState.records ++
            (waitRecords task step.decision step.placement ++ [step.record]) :=
      step.recordsShape
    have newMember :
        ∀ record, record ∈ waitRecords task step.decision step.placement ++ [step.record] →
          record.taskId = task.taskId ∧ record.resource = task.resource := by
      intro record member
      rcases List.mem_append.mp member with isStall | isOperation
      · obtain ⟨identifier, onResource, _⟩ := mem_waitRecords isStall
        exact ⟨identifier, onResource⟩
      · rw [List.mem_singleton.mp isOperation]
        exact ⟨rfl, rfl⟩
    refine {
      operationIds := ?_
      operations := ?_
      listed := ?_
      owned := ?_
      stalls := ?_
      ordered := ?_ }
    · have noStalls :
          (waitRecords task step.decision step.placement).filter
              (fun record => record.category = .operation) = [] := by
        rw [List.filter_eq_nil_iff]
        intro record member
        obtain ⟨_, _, category, _⟩ := mem_waitRecords member
        simp [category]
      have kept : decide (step.record.category = .operation) = true := rfl
      rw [recordsShape, List.filter_append, List.filter_append, noStalls,
        List.filter_cons_of_pos (by simpa using kept), List.map_append,
        describes.operationIds]
      simp
    · intro record member category
      rw [recordsShape] at member
      rcases List.mem_append.mp member with isOld | isNew
      · exact step.completed_persists (describes.operations record isOld category)
      · rcases List.mem_append.mp isNew with isStall | isOperation
        · obtain ⟨_, _, isWait, _⟩ := mem_waitRecords isStall
          rw [category] at isWait
          cases isWait
        · rw [List.mem_singleton.mp isOperation]
          exact step.completed_self
    · intro taskId record done
      rw [recordsShape]
      by_cases same : taskId = task.taskId
      · rw [same, step.completed_self] at done
        cases done
        exact ⟨by simp, rfl, same.symm⟩
      · rw [step.completed_other same] at done
        obtain ⟨member, category, identifier⟩ := describes.listed taskId record done
        exact ⟨List.mem_append_left _ member, category, identifier⟩
    · intro record member
      rw [recordsShape] at member
      rcases List.mem_append.mp member with isOld | isNew
      · obtain ⟨owner, inLog, facts⟩ := describes.owned record isOld
        exact ⟨owner, List.mem_append_left _ inLog, facts⟩
      · exact ⟨task, by simp, newMember record isNew⟩
    · intro record member category
      rw [recordsShape] at member
      rcases List.mem_append.mp member with isOld | isNew
      · obtain ⟨operation, done, facts⟩ := describes.stalls record isOld category
        exact ⟨operation, step.completed_persists done, facts⟩
      · rcases List.mem_append.mp isNew with isStall | isOperation
        · obtain ⟨identifier, _, _, starts, ends⟩ := mem_waitRecords isStall
          refine ⟨step.record, by rw [identifier, step.completed_self], ?_, ends⟩
          rw [starts, step.record_startCycle]
          simp only [Placement.unsynchronizedCycle, Placement.startCycle, Placement.readyCycle]
          omega
        · rw [List.mem_singleton.mp isOperation] at category
          cases category
    · have oldFirst :
          ∀ first ∈ earlierState.records,
            ∀ second, second ∈ waitRecords task step.decision step.placement ++ [step.record] →
              first.resource = second.resource →
              first.endCycle ≤ second.startCycle := by
        intro first isOld second isNew sameResource
        have secondResource := (newMember second isNew).2
        have ends :=
          record_end_le earlier describes isTask step isOld (sameResource.trans secondResource)
        rcases List.mem_append.mp isNew with isStall | isOperation
        · obtain ⟨_, _, _, starts, _⟩ := mem_waitRecords isStall
          rw [starts]
          exact le_trans ends (le_max_right _ _)
        · rw [List.mem_singleton.mp isOperation]
          exact le_trans ends (le_max_right _ _)
      have stallsFirst :
          (waitRecords task step.decision step.placement ++ [step.record]).Pairwise
            fun first second =>
              first.resource = second.resource → first.endCycle ≤ second.startCycle := by
        unfold waitRecords
        split
        · rename_i delayed
          simp only [List.singleton_append, List.pairwise_cons, List.mem_singleton,
            forall_eq, List.not_mem_nil, false_implies, implies_true, List.Pairwise.nil,
            and_true]
          intro _
          exact step.synchronizationCycle_le
        · simp
      rw [recordsShape, List.pairwise_append]
      exact ⟨describes.ordered, stallsFirst, oldFirst⟩

end Fires

/-! ## The schedule of a completed run -/

theorem run_fires {result : ScheduleResult} (completes : run model config program = .ok result) :
    ∃ log state,
      Fires model config program log state ∧ (∀ task ∈ program.tasks, task ∈ log) ∧
        result = state.result := by
  unfold run at completes
  split at completes
  · cases completes
  · rename_i state scheduled
    split at completes
    · cases completes
    · obtain ⟨log, fired, complete⟩ := scheduleState_fires scheduled
      simp only [Except.ok.injEq] at completes
      exact ⟨log, state, fired, complete, completes.symm⟩

theorem makespan_append (first second : List ExecutionRecord) :
    makespan (first ++ second) = max (makespan first) (makespan second) := by
  induction first with
  | nil => simp [makespan]
  | cons record rest ih =>
    simp only [makespan, List.cons_append, List.map_cons, List.foldr_cons] at *
    rw [ih, max_assoc]

theorem mem_result_records {state : RunState σ} :
    record ∈ state.result.records ↔ record ∈ state.records := by
  simp [RunState.result]

namespace Fires

variable {log : List Task} {state : RunState σ}

theorem operation?_eq (fired : Fires model config program log state) :
    state.result.operation? = state.completed := by
  have describes := fired.recordsDescribe
  funext taskId
  cases found : state.result.operation? taskId with
  | none =>
    cases done : state.completed taskId with
    | none => rfl
    | some record =>
      obtain ⟨member, category, identifier⟩ := describes.listed taskId record done
      have rejected := List.find?_eq_none.mp found record (mem_result_records.mpr member)
      simp [category, identifier] at rejected
  | some record =>
    have accepted := List.find?_some found
    simp only [decide_eq_true_eq] at accepted
    have member : record ∈ state.records := mem_result_records.mp (List.mem_of_find?_eq_some found)
    have done := describes.operations record member accepted.1
    rw [accepted.2] at done
    exact done.symm

variable {task : Task} {record : ExecutionRecord} {taskId : TaskId}

section

variable (fired : Fires model config program log state)
include fired

theorem result_endsBefore (complete : ∀ task ∈ program.tasks, task ∈ log) {first : TaskId}
    (isTask : task ∈ program.tasks) (ends : EndsBefore state.completed first task.taskId) :
    state.result.EndsBefore first task.taskId := by
  obtain ⟨record, done⟩ := (fired.completed_iff_mem_log isTask).mpr (complete task isTask)
  obtain ⟨firstRecord, firstDone, bounded⟩ := ends record done
  refine ⟨firstRecord, record, ?_, ?_, bounded⟩
  · rw [fired.operation?_eq, firstDone]
  · rw [fired.operation?_eq, done]

theorem operations_singleton (done : state.completed taskId = some record) :
    state.result.records.filter (isOperationOf taskId) = [record] := by
  have describes := fired.recordsDescribe
  obtain ⟨member, category, identifier⟩ := describes.listed taskId record done
  have idsNodup :
      ((state.records.filter fun other => other.category = .operation).map
        ExecutionRecord.taskId).Nodup := by
    rw [describes.operationIds]
    exact fired.log_nodup
  have inOperations : record ∈ state.records.filter fun other => other.category = .operation :=
    List.mem_filter.mpr ⟨member, by simpa using category⟩
  have single := filter_key_eq_singleton idsNodup inOperations
  rw [List.filter_filter, identifier] at single
  have sameTest :
      isOperationOf taskId =
        fun other => decide (other.taskId = taskId) && decide (other.category = .operation) := by
    funext other
    simp [isOperationOf, Bool.and_comm]
  have permuted : (state.result.records.filter (isOperationOf taskId)).Perm [record] := by
    have sorted : state.result.records.Perm state.records := List.perm_insertionSort _ _
    have filtered := sorted.filter (isOperationOf taskId)
    rw [sameTest] at filtered ⊢
    rw [single] at filtered
    exact filtered
  exact List.perm_singleton.mp permuted

private theorem record_within {operation : ExecutionRecord} (member : record ∈ state.records)
    (done : state.completed record.taskId = some operation) :
    record.endCycle ≤ operation.endCycle := by
  have describes := fired.recordsDescribe
  cases category : record.category with
  | operation =>
    have own := describes.operations record member category
    rw [done] at own
    cases own
    exact le_rfl
  | wait =>
    obtain ⟨other, otherDone, _, ends⟩ := describes.stalls record member category
    rw [done] at otherDone
    cases otherDone
    rw [ends]
    exact fired.start_le_end done

private theorem earlier_end_le {before after : List Task} {earlier : Task}
    (shape : program.tasks = before ++ task :: after) (inBefore : earlier ∈ before)
    (sameResource : earlier.resource = task.resource) (member : record ∈ state.records)
    (owner : record.taskId = task.taskId) :
    ∃ operation,
      state.completed earlier.taskId = some operation ∧ operation.endCycle ≤ record.startCycle := by
  induction fired with
  | initial => simp [RunState.initial] at member
  | @place earlierLog earlierState next placedTask earlierFires placedMember placed
      ih =>
      obtain ⟨step⟩ := attempt_placed placed
      rw [step.recordsShape] at member
      rcases List.mem_append.mp member with isOld | isNew
      · obtain ⟨operation, done, ends⟩ := ih isOld
        exact ⟨operation, step.completed_persists done, ends⟩
      · have afterQueue :
            record.taskId = placedTask.taskId ∧
              step.placement.resourceCycle ≤ record.startCycle := by
          rcases List.mem_append.mp isNew with isStall | isOperation
          · obtain ⟨identifier, _, _, starts, _⟩ := mem_waitRecords isStall
            rw [starts]
            exact ⟨identifier, le_max_right _ _⟩
          · rw [List.mem_singleton.mp isOperation]
            exact ⟨rfl, le_max_right _ _⟩
        have isTask : task ∈ program.tasks := by
          rw [shape]
          simp
        have samePlaced : task = placedTask :=
          eq_of_key_eq program.taskIds_nodup isTask placedMember (owner.symm.trans afterQueue.1)
        subst samePlaced
        have inLog := earlierFires.fired_before_head shape step.queueHead inBefore sameResource
        obtain ⟨operation, done⟩ :=
          (earlierFires.completed_iff earlier.taskId).mpr ⟨earlier, inLog, rfl⟩
        have ends := earlierFires.resource_end_le isTask step inLog sameResource done
        exact ⟨operation, step.completed_persists done, le_trans ends afterQueue.2⟩

theorem validSchedule (complete : ∀ task ∈ program.tasks, task ∈ log) :
    ValidSchedule program state.result := by
  have describes := fired.recordsDescribe
  have sorted : state.result.records.Perm state.records := List.perm_insertionSort _ _
  refine {
    oneOperation := ?_
    owned := ?_
    disjoint := ?_
    programOrder := ?_
    stallFirst := ?_
    dependencies := ?_ }
  · intro task isTask
    obtain ⟨record, done⟩ := (fired.completed_iff_mem_log isTask).mpr (complete task isTask)
    obtain ⟨member, _, identifier⟩ := describes.listed task.taskId record done
    obtain ⟨owner, inLog, ownerIdentifier, onResource⟩ := describes.owned record member
    have isOwner : owner = task :=
      eq_of_key_eq program.taskIds_nodup (fired.log_mem inLog) isTask
        (ownerIdentifier.symm.trans identifier)
    exact ⟨record, fired.operations_singleton done, fired.record_duration isTask done,
      by rw [onResource, isOwner]⟩
  · intro record member
    obtain ⟨owner, inLog, facts⟩ := describes.owned record (mem_result_records.mp member)
    exact ⟨owner, fired.log_mem inLog, facts⟩
  · have symmetric :
        state.records.Pairwise fun first second =>
          first.resource = second.resource →
            first.endCycle ≤ second.startCycle ∨ second.endCycle ≤ first.startCycle :=
      describes.ordered.imp fun ordered sameResource => Or.inl (ordered sameResource)
    refine symmetric.perm sorted.symm ?_
    intro first second apart sameResource
    exact (apart sameResource.symm).symm
  · intro before earlier between task after shape sameResource first firstMember
      second secondMember firstOwner secondOwner
    have taskShape : program.tasks = (before ++ earlier :: between) ++ task :: after := by
      rw [shape]
      simp
    obtain ⟨operation, done, ends⟩ :=
      fired.earlier_end_le taskShape (by simp) sameResource
        (mem_result_records.mp secondMember) secondOwner
    have within : first.endCycle ≤ operation.endCycle :=
      fired.record_within (mem_result_records.mp firstMember) (by rw [firstOwner]; exact done)
    exact le_trans within ends
  · intro stall stallMember operation operationMember sameTask isStall isOperation
    obtain ⟨own, done, _, ends⟩ :=
      describes.stalls stall (mem_result_records.mp stallMember) isStall
    have operationDone :=
      describes.operations operation (mem_result_records.mp operationMember) isOperation
    rw [← sameTask, done] at operationDone
    cases operationDone
    exact le_of_eq ends
  · intro task isTask dependency member
    rw [fired.operation?_eq]
    exact fired.dependency_endsBefore isTask member

theorem end_le_makespan (done : state.completed taskId = some record) :
    record.endCycle ≤ state.result.makespanCycles := by
  obtain ⟨member, _, _⟩ := fired.recordsDescribe.listed taskId record done
  exact List.le_max_of_le' 0 (List.mem_map_of_mem member) le_rfl

theorem makespan_attained :
    (log = [] ∧ state.result.makespanCycles = 0) ∨
      ∃ task ∈ log,
        ∃ record,
          state.completed task.taskId = some record ∧
            state.result.makespanCycles = record.endCycle := by
  induction fired with
  | initial => exact Or.inl ⟨rfl, rfl⟩
  | @place earlierLog earlierState next task earlier isTask placed ih =>
    obtain ⟨step⟩ := attempt_placed placed
    have extended :
        next.result.makespanCycles =
          max earlierState.result.makespanCycles step.record.endCycle := by
      have recordsShape :
          next.records =
            earlierState.records ++
              (waitRecords task step.decision step.placement ++ [step.record]) :=
        step.recordsShape
      have stallWithin :
          makespan (waitRecords task step.decision step.placement ++ [step.record]) =
            step.record.endCycle := by
        unfold waitRecords
        split
        · have within : step.synchronizationCycle ≤ step.record.endCycle :=
            le_trans step.synchronizationCycle_le (Nat.le_add_right _ _)
          have stallEnd : step.placement.synchronizationCycle = step.synchronizationCycle := rfl
          simpa [makespan, stallEnd] using within
        · simp [makespan]
      simp only [RunState.result]
      rw [recordsShape, makespan_append, stallWithin]
    rcases le_total earlierState.result.makespanCycles step.record.endCycle with
        newLater | oldLater
    · refine Or.inr ⟨task, by simp, step.record, step.completed_self, ?_⟩
      rw [extended, max_eq_right newLater]
    · rw [max_eq_left oldLater] at extended
      rcases ih with ⟨_, zero⟩ | ⟨latest, inLog, record, done, attained⟩
      · refine Or.inr ⟨task, by simp, step.record, step.completed_self, ?_⟩
        rw [zero] at oldLater
        have positive := task.durationPositive
        rw [step.record_endCycle] at oldLater
        omega
      · exact Or.inr
          ⟨latest, List.mem_append_left _ inLog, record,
            step.completed_persists done, extended.trans attained⟩

end

end Fires

/-! ## Schedules without synchronization -/

section NoSynchronization

variable {log : List Task} {state : RunState Unit} {task : Task} {record : ExecutionRecord}

private theorem delaying_endsBefore {log : List Task} {state : RunState σ}
    (fired : Fires model config program log state) (isTask : task ∈ program.tasks)
    {delaying : TaskId} (member : delaying ∈ delayingTasks program task) :
    EndsBefore state.completed delaying task.taskId := by
  rcases List.mem_append.mp member with isDependency | isPredecessor
  · exact fired.dependency_endsBefore isTask isDependency
  · exact fired.predecessor_endsBefore isTask (Option.mem_toList.mp isPredecessor)

theorem noOp_start (fired : Fires noOpSynchronizationModel config program log state)
    (isTask : task ∈ program.tasks) (done : state.completed task.taskId = some record) :
    record.startCycle = maxEnd state.completed (delayingTasks program task) := by
  induction fired generalizing record with
  | initial => simp [RunState.initial] at done
  | @place earlierLog earlierState next placedTask earlier placedMember placed
      ih =>
      obtain ⟨step⟩ := attempt_placed placed
      by_cases same : task.taskId = placedTask.taskId
      · have sameTask : task = placedTask :=
          eq_of_key_eq program.taskIds_nodup isTask placedMember same
        subst sameTask
        rw [step.completed_self] at done
        cases done
        have unchanged :
            ∀ delaying ∈ delayingTasks program task,
              next.completed delaying = earlierState.completed delaying := by
          intro delaying member
          obtain ⟨delayingRecord, delayingDone⟩ :=
            anyMissing_eq_false.mp step.inputsReady delaying member
          rw [delayingDone]
          exact step.completed_persists delayingDone
        have undelayed : step.synchronizationCycle = 0 := by
          have evaluated := step.evaluated
          have released := step.released
          simp only [noOpSynchronizationModel, Except.ok.injEq] at evaluated
          rw [← evaluated] at released
          simpa using released.symm
        rw [maxEnd_congr unchanged, delayingTasks, maxEnd_append, step.record_startCycle]
        simp [Placement.startCycle, Placement.readyCycle, PlacedStep.placement,
          placementOf, undelayed]
      · rw [step.completed_other same] at done
        have unchanged :
            ∀ delaying ∈ delayingTasks program task,
              next.completed delaying = earlierState.completed delaying := by
          intro delaying member
          obtain ⟨delayingRecord, delayingDone, _⟩ :=
            delaying_endsBefore earlier isTask member record done
          rw [delayingDone]
          exact step.completed_persists delayingDone
        rw [maxEnd_congr unchanged]
        exact ih done

/-- Start cycle of a task in a final state; tasks outside the program start at 0. -/
private def startIn (program : KernelProgram) (completed : Completed) (task : Task) : Nat :=
  if task ∈ program.tasks then
    ((completed task.taskId).map ExecutionRecord.startCycle).getD 0
  else
    0

private theorem startIn_eq {completed : Completed} (isTask : task ∈ program.tasks)
    (done : completed task.taskId = some record) :
    startIn program completed task = record.startCycle := by
  simp [startIn, isTask, done]

theorem earliestSchedule (fired : Fires noOpSynchronizationModel config program log state)
    (complete : ∀ task ∈ program.tasks, task ∈ log) : EarliestSchedule program state.result := by
  have completedRecord :
      ∀ task ∈ program.tasks, ∃ record, state.completed task.taskId = some record :=
    fun task isTask => (fired.completed_iff_mem_log isTask).mpr (complete task isTask)
  have respects :
      ∀ earlier task, Precedes program earlier task →
        startIn program state.completed earlier + earlier.durationCycles ≤
          startIn program state.completed task := by
    rintro earlier task ⟨earlierIsTask, isTask, isDelaying⟩
    obtain ⟨record, done⟩ := completedRecord task isTask
    obtain ⟨earlierRecord, earlierDone, ends⟩ :=
      delaying_endsBefore fired isTask isDelaying record done
    rw [startIn_eq earlierIsTask earlierDone, startIn_eq isTask done,
      ← fired.record_duration earlierIsTask earlierDone]
    exact ends
  have earliest :
      ∀ task,
        startIn program state.completed task = 0 ∨
          ∃ earlier,
            Precedes program earlier task ∧
              startIn program state.completed task =
                startIn program state.completed earlier + earlier.durationCycles := by
    intro task
    by_cases isTask : task ∈ program.tasks
    · obtain ⟨record, done⟩ := completedRecord task isTask
      have starts := noOp_start fired isTask done
      rw [startIn_eq isTask done, starts]
      rcases maxEnd_attained state.completed (delayingTasks program task) with
          zero | ⟨delaying, member, delayingRecord, delayingDone, attained⟩
      · exact Or.inl zero
      · obtain ⟨earlier, inLog, identifier⟩ :=
          (fired.completed_iff delaying).mp ⟨delayingRecord, delayingDone⟩
        subst identifier
        have earlierIsTask := fired.log_mem inLog
        refine Or.inr ⟨earlier, ⟨earlierIsTask, isTask, member⟩, ?_⟩
        rw [attained, startIn_eq earlierIsTask delayingDone]
        exact fired.record_duration earlierIsTask delayingDone
    · exact Or.inl (by simp [startIn, isTask])
  refine {
    starts := ?_
    pathsBounded := ?_
    pathAttained := ?_ }
  · intro task isTask
    obtain ⟨record, done⟩ := completedRecord task isTask
    rw [fired.operation?_eq]
    exact ⟨record, done, noOp_start fired isTask done⟩
  · intro task isTask total path
    obtain ⟨record, done⟩ := completedRecord task isTask
    have bounded := CriticalPath.path_le_finish (fun _ => rfl) respects path
    rw [startIn_eq isTask done, ← fired.record_duration isTask done] at bounded
    exact le_trans bounded (fired.end_le_makespan done)
  · rcases fired.makespan_attained with ⟨noLog, zero⟩ | ⟨task, inLog, record, done, attained⟩
    · refine Or.inl ⟨?_, zero⟩
      rw [List.eq_nil_iff_forall_not_mem]
      intro task isTask
      have inLog := complete task isTask
      rw [noLog] at inLog
      simp at inLog
    · have isTask := fired.log_mem inLog
      refine Or.inr ⟨task, isTask, ?_⟩
      have path :=
        CriticalPath.exists_path_finish
          (fun job => job.durationPositive) (fun _ => rfl) earliest task
      rw [startIn_eq isTask done, ← fired.record_duration isTask done] at path
      rw [attained]
      exact path

end NoSynchronization

end Validity

/--
Every completed schedule is valid, and without synchronization it is also the earliest
one, with the longest weighted path as its makespan.
-/
theorem schedule_valid_and_earliest
    (config : SimulatorConfig)
    (program : KernelProgram) :
    (∀ (σ : Type) (model : SynchronizationModel σ) (result : ScheduleResult),
      run model config program = .ok result →
      ValidSchedule program result) ∧
    (∀ result : ScheduleResult, run noOpSynchronizationModel config program = .ok result →
      EarliestSchedule program result) := by
  constructor
  · intro σ model result completes
    obtain ⟨log, state, fired, complete, rfl⟩ := run_fires completes
    exact fired.validSchedule complete
  · intro result completes
    obtain ⟨log, state, fired, complete, rfl⟩ := run_fires completes
    exact earliestSchedule fired complete

theorem ok_of_observed {ε α β : Type} {outcome : Except ε α} {observe : α → β} {value : β}
    (evaluated : outcome.toOption.map observe = some value) :
    ∃ result, outcome = .ok result ∧ observe result = value := by
  cases outcome with
  | error failure => simp [Except.toOption] at evaluated
  | ok result =>
    refine ⟨result, rfl, ?_⟩
    simpa [Except.toOption] using evaluated

/-- Start and end cycle of a task in a schedule. -/
def ScheduleResult.interval? (result : ScheduleResult) (taskId : TaskId) : Option (Nat × Nat) :=
  (result.operation? taskId).map fun record => (record.startCycle, record.endCycle)

/-- Two loads on one pipe and a matrix task that depends on the second load. -/
def loadsThenMma : KernelProgram where
  cores :=
    [{ coreId := 0
       tasks :=
         [{ taskId := "load-0", operation := .other "copy", coreId := 0
            lane := .cube, pipe := .mte2, durationCycles := 4 },
          { taskId := "load-1", operation := .other "copy", coreId := 0
            lane := .cube, pipe := .mte2, durationCycles := 6 },
          { taskId := "mma", operation := .other "mma", coreId := 0
            lane := .cube, pipe := .m, durationCycles := 10
            dependencies := ["load-1"] }] }]

/-- The schedule of the two loads and the matrix task is the earliest one. -/
theorem loadsThenMma_earliest :
    ∃ result,
      run noOpSynchronizationModel {} loadsThenMma = .ok result ∧ result.makespanCycles = 20 ∧
        ValidSchedule loadsThenMma result ∧
        EarliestSchedule loadsThenMma result := by
  have spans :
      (run noOpSynchronizationModel {} loadsThenMma).toOption.map
        ScheduleResult.makespanCycles = some 20 := by
    decide +kernel
  obtain ⟨result, completes, makespan⟩ := ok_of_observed spans
  have guarantees := schedule_valid_and_earliest {} loadsThenMma
  exact ⟨result, completes, makespan, guarantees.1 Unit _ result completes,
    guarantees.2 result completes⟩

end TilelangAscend.Simulator
