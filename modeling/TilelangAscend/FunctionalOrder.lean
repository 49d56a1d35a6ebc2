import TilelangAscend.DependencyCycles
import TilelangAscend.ScheduleValidity

namespace TilelangAscend.Simulator

open DependencyOrder

/-!
# The order of functional execution

`FunctionalSimulator._functional_execution_order` interprets the tasks of a schedule one by one.
It follows the rank of the tasks in the schedule, but a task waits until all its declared
dependencies, including those the scheduler ignores, have been interpreted.
-/

/-- Index of the operation record of a task in a schedule; the last one counts. -/
def scheduleRank (schedule : ScheduleResult) (taskId : TaskId) : Option Nat :=
  (schedule.records.zipIdx.reverse.find? fun entry =>
    entry.1.category ≠ .wait ∧ entry.1.taskId = taskId).map Prod.snd

/-- Why no order is returned. -/
inductive OrderFailure where
  /-- A task that becomes ready has no record in the schedule. -/
  | missingRecord
  /-- Some tasks wait for each other. -/
  | cannotOrder
  deriving Repr, DecidableEq

/-- `_functional_execution_order`. -/
def functionalExecutionOrder (program : KernelProgram) (schedule : ScheduleResult) :
    Except OrderFailure (List Task) :=
  match priorityOrder (program.tasks.map Task.taskId) (dependenciesOf program.tasks)
      (scheduleRank schedule) with
  | none => .error .missingRecord
  | some order =>
    if order.length ≠ program.tasks.length then
      .error .cannotOrder
    else
      .ok (order.filterMap fun taskId => program.tasks.find? (·.taskId = taskId))

/-! ## What is expected of the order -/

/-- Every task has an operation record in the schedule. -/
def Recorded (program : KernelProgram) (schedule : ScheduleResult) : Prop :=
  ∀ task ∈ program.tasks,
    ∃ record ∈ schedule.records, record.category ≠ .wait ∧ record.taskId = task.taskId

/-- An order in which every task follows all its dependencies. -/
def LinearExtension (order : List Task) : Prop :=
  ∀ before task after, order = before ++ task :: after →
    ∀ dependency ∈ task.dependencies, dependency ∈ before.map Task.taskId

/-- The rank in the schedule puts every task after its dependencies. -/
def RankRespectsDependencies (program : KernelProgram) (schedule : ScheduleResult) : Prop :=
  ∀ task ∈ program.tasks, ∀ dependency ∈ task.dependencies,
    ∀ first second, scheduleRank schedule dependency = some first →
      scheduleRank schedule task.taskId = some second →
      first < second

/-- Tasks in the order of their records in the schedule. -/
def rankOrder (program : KernelProgram) (schedule : ScheduleResult) : List Task :=
  program.tasks.insertionSort fun first second =>
    (scheduleRank schedule first.taskId).getD 0 ≤ (scheduleRank schedule second.taskId).getD 0

/-! ## Ranks -/

section Rank

variable {schedule : ScheduleResult} {index : Nat}

theorem scheduleRank_spec {taskId : TaskId} (isRank : scheduleRank schedule taskId = some index) :
    ∃ record, schedule.records[index]? = some record ∧ record.taskId = taskId := by
  obtain ⟨⟨record, position⟩, found, rfl⟩ := Option.map_eq_some_iff.mp isRank
  have accepted := List.find?_some found
  simp only [decide_eq_true_eq] at accepted
  have member := List.mem_reverse.mp (List.mem_of_find?_eq_some found)
  exact ⟨record, List.mk_mem_zipIdx_iff_getElem?.mp member, accepted.2⟩

theorem scheduleRank_injective {first second : TaskId}
    (firstRank : scheduleRank schedule first = some index)
    (secondRank : scheduleRank schedule second = some index) : first = second := by
  obtain ⟨record, isRecord, rfl⟩ := scheduleRank_spec firstRank
  obtain ⟨other, isOther, rfl⟩ := scheduleRank_spec secondRank
  rw [isRecord] at isOther
  cases isOther
  rfl

theorem scheduleRank_isSome {record : ExecutionRecord}
    (member : record ∈ schedule.records) (isOperation : record.category ≠ .wait) :
    ∃ index, scheduleRank schedule record.taskId = some index := by
  obtain ⟨index, isRecord⟩ := List.mem_iff_getElem?.mp member
  have indexed : (record, index) ∈ schedule.records.zipIdx.reverse :=
    List.mem_reverse.mpr (List.mk_mem_zipIdx_iff_getElem?.mpr isRecord)
  cases found : schedule.records.zipIdx.reverse.find? fun entry =>
      entry.1.category ≠ .wait ∧ entry.1.taskId = record.taskId with
  | none =>
    have rejected := List.find?_eq_none.mp found _ indexed
    simp [isOperation] at rejected
  | some entry => exact ⟨entry.2, by rw [scheduleRank, found]; rfl⟩

end Rank

/-! ## From identifiers to tasks -/

section Tasks

variable {program : KernelProgram} {order : List TaskId}

theorem filterMap_find?_map (known : ∀ taskId ∈ order, taskId ∈ program.tasks.map Task.taskId) :
    (order.filterMap fun taskId => program.tasks.find? (·.taskId = taskId)).map Task.taskId =
      order := by
  induction order with
  | nil => rfl
  | cons taskId rest ih =>
    obtain ⟨task, isTask, rfl⟩ := List.mem_map.mp (known _ List.mem_cons_self)
    have restKnown := ih fun other member => known other (List.mem_cons_of_mem _ member)
    rw [List.filterMap_cons, find?_of_mem program.taskIds_nodup isTask, List.map_cons, restKnown]

theorem mem_of_mem_filterMap_find? {task : Task}
    (member : task ∈ order.filterMap fun taskId => program.tasks.find? (·.taskId = taskId)) :
    task ∈ program.tasks := by
  obtain ⟨_, _, found⟩ := List.mem_filterMap.mp member
  exact List.mem_of_find?_eq_some found

theorem filterMap_find?_perm (permutation : order.Perm (program.tasks.map Task.taskId)) :
    (order.filterMap fun taskId => program.tasks.find? (·.taskId = taskId)).Perm
      program.tasks := by
  have mapped := filterMap_find?_map fun _ => permutation.mem_iff.mp
  have distinct : (order.filterMap fun taskId =>
      program.tasks.find? (·.taskId = taskId)).Nodup := by
    refine List.Nodup.of_map Task.taskId ?_
    rw [mapped]
    exact permutation.nodup_iff.mpr program.taskIds_nodup
  refine (List.perm_ext_iff_of_nodup distinct
    (List.Nodup.of_map Task.taskId program.taskIds_nodup)).mpr ?_
  intro task
  refine ⟨mem_of_mem_filterMap_find?, ?_⟩
  intro isTask
  refine List.mem_filterMap.mpr ⟨task.taskId, ?_, find?_of_mem program.taskIds_nodup isTask⟩
  exact permutation.mem_iff.mpr (List.mem_map_of_mem isTask)

theorem linearExtension_of_needsFirst (permutation : order.Perm (program.tasks.map Task.taskId))
    (needsFirst : NeedsFirst (dependenciesOf program.tasks) order) :
    LinearExtension (order.filterMap fun taskId => program.tasks.find? (·.taskId = taskId)) := by
  have mapped := filterMap_find?_map fun _ => permutation.mem_iff.mp
  intro before task after splits dependency isDependency
  have isTask : task ∈ program.tasks :=
    mem_of_mem_filterMap_find? (by rw [splits]; exact List.mem_append_cons_self)
  rw [splits, List.map_append, List.map_cons] at mapped
  rw [← mapped] at needsFirst
  refine needsFirst.needs_before ?_
  rwa [dependenciesOf_task program.taskIds_nodup isTask]

end Tasks

/-! ## The result -/

variable {program : KernelProgram} {schedule : ScheduleResult}

theorem priorityOrder_perm {order : List TaskId}
    (ordered :
      priorityOrder (program.tasks.map Task.taskId) (dependenciesOf program.tasks)
        (scheduleRank schedule) = some order) :
    order.Perm (program.tasks.map Task.taskId) ∧
      NeedsFirst (dependenciesOf program.tasks) order := by
  obtain ⟨enumeration, enumerates, complete⟩ := program.exists_enumeration
  let larger (taskId : TaskId) : Option Nat := some ((scheduleRank schedule taskId).getD 0)
  have ranked : ∀ taskId ∈ program.tasks.map Task.taskId,
      larger taskId = some ((scheduleRank schedule taskId).getD 0) := fun _ _ => rfl
  have extended : ∀ {taskId : TaskId} {index : Nat}, scheduleRank schedule taskId = some index →
      larger taskId = some index := by
    intro taskId index isRank
    simp only [larger, isRank, Option.getD_some]
  obtain ⟨other, otherOrdered, permutation, needsFirst, _⟩ :=
    priorityOrder_spec enumerates complete program.dependencies_closed program.taskIds_nodup
      program.dependencies_distinct ranked
  have sameOrder := (priorityOrder_mono extended ordered).symm.trans otherOrdered
  cases sameOrder
  exact ⟨permutation, needsFirst⟩

theorem run_recorded {σ : Type} {model : SynchronizationModel σ}
    {config : SimulatorConfig} (completes : run model config program = .ok schedule) :
    Recorded program schedule := by
  obtain ⟨log, state, fired, complete, rfl⟩ := run_fires completes
  intro task isTask
  obtain ⟨record, done⟩ := (fired.completed_iff_mem_log isTask).mpr (complete task isTask)
  obtain ⟨member, category, identifier⟩ := fired.recordsDescribe.listed _ record done
  exact ⟨record, mem_result_records.mpr member, by simp [category], identifier⟩

theorem priorityOrder_ranked (recorded : Recorded program schedule) :
    ∃ order,
      priorityOrder (program.tasks.map Task.taskId) (dependenciesOf program.tasks)
          (scheduleRank schedule) = some order ∧
        (RankRespectsDependencies program schedule →
          order.Pairwise fun first second =>
            (scheduleRank schedule first).getD 0 < (scheduleRank schedule second).getD 0) := by
  have hasRank : ∀ taskId ∈ program.tasks.map Task.taskId,
      ∃ index, scheduleRank schedule taskId = some index := by
    intro taskId member
    obtain ⟨task, isTask, rfl⟩ := List.mem_map.mp member
    obtain ⟨record, isRecord, isOperation, sameId⟩ := recorded task isTask
    rw [← sameId]
    exact scheduleRank_isSome isRecord isOperation
  have ranked : ∀ taskId ∈ program.tasks.map Task.taskId,
      scheduleRank schedule taskId = some ((scheduleRank schedule taskId).getD 0) := by
    intro taskId member
    obtain ⟨index, isRank⟩ := hasRank taskId member
    rw [isRank]
    rfl
  obtain ⟨enumeration, enumerates, complete⟩ := program.exists_enumeration
  obtain ⟨order, ordered, _, _, sorted⟩ :=
    priorityOrder_spec enumerates complete program.dependencies_closed program.taskIds_nodup
      program.dependencies_distinct ranked
  refine ⟨order, ordered, ?_⟩
  intro respected
  refine sorted ?_ ?_
  · intro first firstMember second secondMember sameRank
    refine scheduleRank_injective (ranked first firstMember) ?_
    rw [sameRank]
    exact ranked second secondMember
  · intro taskId member dependency isDependency
    have dependencyRank :=
      ranked dependency (program.dependencies_closed taskId member dependency isDependency)
    have taskRank := ranked taskId member
    obtain ⟨task, isTask, rfl⟩ := List.mem_map.mp member
    rw [dependenciesOf_task program.taskIds_nodup isTask] at isDependency
    exact respected task isTask dependency isDependency _ _ dependencyRank taskRank

theorem eq_rankOrder {tasks : List Task} (permutation : tasks.Perm program.tasks)
    (sorted :
      (tasks.map Task.taskId).Pairwise fun first second =>
        (scheduleRank schedule first).getD 0 < (scheduleRank schedule second).getD 0) :
    tasks = rankOrder program schedule := by
  rw [List.pairwise_map] at sorted
  have rankSorted : (rankOrder program schedule).Pairwise fun first second =>
      (scheduleRank schedule first.taskId).getD 0 ≤
        (scheduleRank schedule second.taskId).getD 0 := by
    refine @List.pairwise_insertionSort _ _ _ ⟨?_⟩ ⟨?_⟩ program.tasks
    · intro first second
      exact le_total _ _
    · intro first second third
      exact le_trans
  have same : tasks.Perm (rankOrder program schedule) :=
    permutation.trans (List.perm_insertionSort _ _).symm
  have distinctRanks : (tasks.map fun task => (scheduleRank schedule task.taskId).getD 0).Nodup :=
    List.pairwise_map.mpr (sorted.imp ne_of_lt)
  refine List.Perm.eq_of_pairwise ?_ (sorted.imp le_of_lt) rankSorted same
  intro first second firstMember secondMember below above
  exact List.inj_on_of_nodup_map distinctRanks firstMember (same.mem_iff.mpr secondMember)
    (below.antisymm above)

/--
The functional order never fails for a cycle.  With a record for every task, as every completed
run provides, it is a permutation of the tasks in which each follows its dependencies, and it is
the rank order of the schedule if that one already respects the dependencies.
-/
theorem functionalExecutionOrder_linearExtension
    (program : KernelProgram)
    (schedule : ScheduleResult) :
    functionalExecutionOrder program schedule ≠ .error .cannotOrder ∧
      (Recorded program schedule →
        ∃ order,
          functionalExecutionOrder program schedule = .ok order ∧ order.Perm program.tasks ∧
            LinearExtension order ∧
            (RankRespectsDependencies program schedule → order = rankOrder program schedule)) ∧
      ∀ (σ : Type) (model : SynchronizationModel σ) (config : SimulatorConfig),
        run model config program = .ok schedule → Recorded program schedule := by
  refine ⟨?_, ?_, fun _ _ _ => run_recorded⟩
  · unfold functionalExecutionOrder
    split
    · simp
    · rename_i order ordered
      have sameLength := (priorityOrder_perm ordered).1.length_eq
      rw [List.length_map] at sameLength
      simp [sameLength]
  · intro recorded
    obtain ⟨order, ordered, sorted⟩ := priorityOrder_ranked recorded
    obtain ⟨permutation, needsFirst⟩ := priorityOrder_perm ordered
    have sameLength := permutation.length_eq
    rw [List.length_map] at sameLength
    refine ⟨_, ?_, filterMap_find?_perm permutation,
      linearExtension_of_needsFirst permutation needsFirst, ?_⟩
    · simp [functionalExecutionOrder, ordered, sameLength]
    · intro respected
      refine eq_rankOrder (filterMap_find?_perm permutation) ?_
      rw [filterMap_find?_map fun _ => permutation.mem_iff.mp]
      exact sorted respected

/-- The loads and the matrix task are interpreted in the order of their schedule. -/
theorem loadsThenMma_functionalOrder :
    ∃ schedule order,
      run noOpSynchronizationModel {} loadsThenMma = .ok schedule ∧
        functionalExecutionOrder loadsThenMma schedule = .ok order ∧
        order.Perm loadsThenMma.tasks ∧
        LinearExtension order ∧
        order = rankOrder loadsThenMma schedule := by
  have observed :
      (run noOpSynchronizationModel {} loadsThenMma).toOption.map
        (fun schedule => loadsThenMma.tasks.map fun task => scheduleRank schedule task.taskId) =
        some [some 0, some 1, some 2] := by
    decide +kernel
  obtain ⟨schedule, completes, ranks⟩ := ok_of_observed observed
  have guarantees := functionalExecutionOrder_linearExtension loadsThenMma schedule
  have recorded := guarantees.2.2 Unit _ _ completes
  obtain ⟨order, ordered, permutation, extension, rankFaithful⟩ := guarantees.2.1 recorded
  refine ⟨schedule, order, completes, ordered, permutation, extension, rankFaithful ?_⟩
  simp only [loadsThenMma, KernelProgram.tasks, programTasks, List.flatMap_cons, List.flatMap_nil,
    List.append_nil, List.map_cons, List.map_nil, List.cons.injEq, and_true] at ranks
  obtain ⟨_, secondRank, thirdRank⟩ := ranks
  intro task isTask dependency isDependency first second firstRank taskRank
  simp only [loadsThenMma, KernelProgram.tasks, programTasks, List.flatMap_cons, List.flatMap_nil,
    List.append_nil, List.mem_cons, List.not_mem_nil, or_false] at isTask
  rcases isTask with rfl | rfl | rfl
  · cases isDependency
  · cases isDependency
  · rw [List.mem_singleton.mp isDependency, secondRank] at firstRank
    rw [thirdRank] at taskRank
    cases firstRank
    cases taskRank
    decide

end TilelangAscend.Simulator
