import Mathlib.Data.String.Basic
import TilelangAscend.CycleSearch
import TilelangAscend.Program

namespace TilelangAscend.Simulator

open CycleSearch DependencyOrder

/-!
# The cycle check of a program

The depth-first search of `_validate_acyclic` fails exactly on a cycle; when it succeeds, the
tasks can be enumerated so that each one follows its dependencies.
-/

variable {dependencies : TaskId → List TaskId} {taskIds before marked visiting : List TaskId}
  {taskId : TaskId} {fuel : Nat} {tasks : List Task} {task : Task}

theorem foldlM_eq_searchAll {step : List TaskId → TaskId → Option (List TaskId)}
    {searchStep : List TaskId → TaskId → Outcome TaskId}
    (same : ∀ visited taskId, step visited taskId = (searchStep visited taskId).visited?) :
    taskIds.foldlM step before = (searchAll searchStep before taskIds).visited? := by
  induction taskIds generalizing before with
  | nil => rfl
  | cons taskId rest ih =>
    rw [List.foldlM_cons, same, searchAll]
    cases searchStep before taskId with
    | visited next => exact ih
    | cycle path => rfl
    | exhausted => rfl

theorem visit_eq_search (sameMarks : ∀ taskId, taskId ∈ marked ↔ taskId ∈ visiting) :
    visit dependencies fuel marked before taskId =
      (search dependencies fuel visiting before taskId).visited? := by
  induction fuel generalizing marked visiting before taskId with
  | zero => rfl
  | succ fuel ih =>
    have successors :
        (dependencies taskId).foldlM (visit dependencies fuel (taskId :: marked)) before =
          (searchAll (search dependencies fuel (visiting ++ [taskId])) before
            (dependencies taskId)).visited? := by
      refine foldlM_eq_searchAll fun _ _ => ih fun other => ?_
      simp [sameMarks, or_comm]
    unfold visit search
    rw [successors]
    simp only [sameMarks]
    split
    · rfl
    · split
      · rfl
      · cases searchAll (search dependencies fuel (visiting ++ [taskId])) before
          (dependencies taskId) <;> rfl

theorem validateAcyclic_eq_search (tasks : List Task) :
    validateAcyclic tasks =
      (searchAll (search (dependenciesOf tasks) (tasks.length + 1) []) []
        (tasks.map Task.taskId)).visited?.isSome := by
  rw [validateAcyclic, foldlM_eq_searchAll fun _ _ => visit_eq_search fun _ => Iff.rfl]

theorem mem_of_dependenciesOf (depends : dependenciesOf tasks taskId ≠ []) :
    taskId ∈ tasks.map Task.taskId := by
  unfold dependenciesOf at depends
  split at depends
  · rename_i task found
    exact List.mem_map.mpr
      ⟨task, List.mem_of_find?_eq_some found, by simpa using List.find?_some found⟩
  · exact absurd rfl depends

theorem taskIds_length_lt (tasks : List Task) :
    (tasks.map Task.taskId).length < tasks.length + 1 := by
  rw [List.length_map]
  exact Nat.lt_succ_self _

theorem validateAcyclic_eq_false_iff :
    validateAcyclic tasks = false ↔ HasCycle (dependenciesOf tasks) := by
  rw [validateAcyclic_eq_search]
  rcases searchRoots_exact (fun _ => mem_of_dependenciesOf) (taskIds_length_lt tasks) with
    ⟨nodes, found, acyclic⟩ | ⟨path, found, isCycle⟩
  · rw [found]
    exact ⟨nofun, fun cyclic => absurd cyclic acyclic⟩
  · rw [found]
    exact ⟨fun _ => isCycle.hasCycle, fun _ => rfl⟩

theorem exists_enumeration (acyclic : validateAcyclic tasks = true) :
    ∃ enumeration,
      NeedsFirst (dependenciesOf tasks) enumeration ∧
        ∀ taskId ∈ tasks.map Task.taskId, taskId ∈ enumeration := by
  have correct := searchRoots_correct (fun _ => mem_of_dependenciesOf) (taskIds_length_lt tasks)
  rw [validateAcyclic_eq_search] at acyclic
  revert correct acyclic
  cases searchAll (search (dependenciesOf tasks) (tasks.length + 1) []) []
    (tasks.map Task.taskId) with
  | exhausted => exact nofun
  | cycle path => exact nofun
  | visited nodes =>
    rintro _ ⟨complete, ordered⟩
    exact ⟨nodes.reverse, ordered .nil, fun taskId member =>
      List.mem_reverse.mpr (complete taskId member)⟩

theorem validateAcyclic_of_depth (depth : TaskId → Nat)
    (deeper :
      ∀ task ∈ tasks, ∀ dependency ∈ task.dependencies, depth dependency < depth task.taskId) :
    validateAcyclic tasks = true := by
  by_contra rejects
  obtain ⟨taskId, leads⟩ := validateAcyclic_eq_false_iff.mp (Bool.not_eq_true _ ▸ rejects)
  have lower : ∀ last, Relation.TransGen
      (fun first second => second ∈ dependenciesOf tasks first) taskId last →
      depth last < depth taskId := by
    have graded : ∀ taskId, ∀ dependency ∈ dependenciesOf tasks taskId,
        depth dependency < depth taskId := by
      intro taskId dependency isDependency
      unfold dependenciesOf at isDependency
      split at isDependency
      · rename_i task found
        have sameId : task.taskId = taskId := by
          simpa using List.find?_some found
        rw [← sameId]
        exact deeper task (List.mem_of_find?_eq_some found) dependency isDependency
      · cases isDependency
    intro last leads
    induction leads with
    | single isDependency => exact graded _ _ isDependency
    | tail _ isDependency ih => exact (graded _ _ isDependency).trans ih
  exact lt_irrefl _ (lower taskId leads)

/-! ## Declared dependencies -/

theorem find?_of_mem (distinct : (tasks.map Task.taskId).Nodup) (member : task ∈ tasks) :
    tasks.find? (·.taskId = task.taskId) = some task := by
  cases found : tasks.find? (·.taskId = task.taskId) with
  | none =>
    have rejected := List.find?_eq_none.mp found task member
    simp at rejected
  | some other =>
    have sameId : other.taskId = task.taskId := by
      simpa using List.find?_some found
    rw [List.inj_on_of_nodup_map distinct (List.mem_of_find?_eq_some found) member sameId]

theorem dependenciesOf_task (distinct : (tasks.map Task.taskId).Nodup)
    (member : task ∈ tasks) : dependenciesOf tasks task.taskId = task.dependencies := by
  rw [dependenciesOf, find?_of_mem distinct member]

namespace KernelProgram

section

variable (program : KernelProgram)
include program

theorem dependencies_closed :
    ∀ taskId ∈ program.tasks.map Task.taskId,
      ∀ dependency ∈ dependenciesOf program.tasks taskId,
        dependency ∈ program.tasks.map Task.taskId := by
  intro taskId member dependency isDependency
  obtain ⟨task, isTask, rfl⟩ := List.mem_map.mp member
  rw [dependenciesOf_task program.taskIds_nodup isTask] at isDependency
  exact program.dependenciesKnown task isTask dependency isDependency

theorem dependencies_distinct :
    ∀ taskId ∈ program.tasks.map Task.taskId, (dependenciesOf program.tasks taskId).Nodup := by
  intro taskId member
  obtain ⟨task, isTask, rfl⟩ := List.mem_map.mp member
  rw [dependenciesOf_task program.taskIds_nodup isTask]
  exact task.dependenciesUnique

theorem exists_enumeration :
    ∃ enumeration,
      NeedsFirst (dependenciesOf program.tasks) enumeration ∧
        ∀ taskId ∈ program.tasks.map Task.taskId, taskId ∈ enumeration :=
  Simulator.exists_enumeration program.acyclic

/-- The tasks can be listed with dependencies first. -/
theorem exists_order :
    ∃ order,
      order.Perm (program.tasks.map Task.taskId) ∧
        NeedsFirst (dependenciesOf program.tasks) order := by
  obtain ⟨enumeration, enumerates, complete⟩ := program.exists_enumeration
  have ranked : ∀ taskId ∈ program.tasks.map Task.taskId,
      (fun _ : TaskId => some 0) taskId = some ((fun _ => 0) taskId) := fun _ _ => rfl
  obtain ⟨order, _, permutation, needsFirst, _⟩ :=
    priorityOrder_spec enumerates complete program.dependencies_closed program.taskIds_nodup
      program.dependencies_distinct ranked
  exact ⟨order, permutation, needsFirst⟩

/-- Every task has a depth above those of its dependencies. -/
theorem exists_depth :
    ∃ depth : TaskId → Nat,
      (∀ taskId, ∀ dependency ∈ dependenciesOf program.tasks taskId,
        depth dependency < depth taskId) ∧
        ∀ taskId ∈ program.tasks.map Task.taskId, depth taskId < program.tasks.length := by
  obtain ⟨order, permutation, needsFirst⟩ := program.exists_order
  have sameLength := permutation.length_eq
  rw [List.length_map] at sameLength
  refine ⟨order.idxOf, ?_, ?_⟩
  · intro taskId dependency isDependency
    have isTask : taskId ∈ order := by
      refine permutation.mem_iff.mpr ?_
      by_contra unknown
      have missing : program.tasks.find? (·.taskId = taskId) = none := by
        refine List.find?_eq_none.mpr ?_
        intro task member sameId
        exact unknown (List.mem_map.mpr ⟨task, member, by simpa using sameId⟩)
      rw [dependenciesOf, missing] at isDependency
      cases isDependency
    exact needsFirst.idxOf_lt isTask isDependency
  · intro taskId member
    rw [← sameLength]
    exact List.idxOf_lt_length_iff.mpr (permutation.mem_iff.mpr member)

end

end KernelProgram

end TilelangAscend.Simulator
