import Mathlib.Data.Finset.Sort
import TilelangAscend.DependencyCycles
import TilelangAscend.Scheduler

namespace TilelangAscend.Simulator

open CycleSearch

/-!
# The wait-for cycle of a deadlock

`_wait_cycle` explains a pass without progress.  It searches the graph of what the pending tasks
still wait for: their execution dependencies and their predecessors in the hardware queues.
-/

/-- The dictionary `edges` of `_wait_cycle`; tasks that are not pending have no entry. -/
def waitEdges (pending : Finset TaskId) (tasks : List Task)
    (fifoPredecessor : TaskId → Option TaskId)
    (executionDependencies : TaskId → List TaskId) (completed : Completed)
    (taskId : TaskId) : List TaskId :=
  if taskId ∈ pending ∧ taskId ∈ tasks.map Task.taskId then
    (executionDependencies taskId ++ (fifoPredecessor taskId).toList).filter fun dependency =>
      (completed dependency).isNone
  else
    []

/--
`_wait_cycle`: the first cycle that a search from the sorted pending tasks closes, `[]` without
one.  `none` stands for a search that runs out of fuel.
-/
def waitCycle (pending : Finset TaskId) (tasks : List Task)
    (fifoPredecessor : TaskId → Option TaskId)
    (executionDependencies : TaskId → List TaskId) (completed : Completed) :
    Option (List TaskId) :=
  let edges := waitEdges pending tasks fifoPredecessor executionDependencies completed
  match searchAll (search edges (pending.card + 1) []) [] (pending.sort (· ≤ ·)) with
  | .visited _ => some []
  | .cycle path => some path
  | .exhausted => none

theorem mem_of_waitEdges {pending : Finset TaskId} {tasks : List Task}
    {fifoPredecessor : TaskId → Option TaskId} {executionDependencies : TaskId → List TaskId}
    {completed : Completed} {taskId : TaskId}
    (waits : waitEdges pending tasks fifoPredecessor executionDependencies completed taskId ≠ []) :
    taskId ∈ pending.sort (· ≤ ·) := by
  rw [Finset.mem_sort]
  unfold waitEdges at waits
  split at waits
  · rename_i isPending
    exact isPending.1
  · exact absurd rfl waits

/--
The cycle check of a program fails exactly on a cyclic graph.  The search behind a deadlock
report always ends; it reports tasks exactly on a cyclic wait-for graph, and these form a cycle.
-/
theorem cycleDetection_exact :
    (∀ tasks : List Task, validateAcyclic tasks = false ↔ HasCycle (dependenciesOf tasks)) ∧
      ∀ (pending : Finset TaskId) (tasks : List Task)
        (fifoPredecessor : TaskId → Option TaskId)
        (executionDependencies : TaskId → List TaskId) (completed : Completed),
        ∃ path,
          waitCycle pending tasks fifoPredecessor executionDependencies completed = some path ∧
            (path ≠ [] ↔
              HasCycle
                (waitEdges pending tasks fifoPredecessor executionDependencies completed)) ∧
            (path ≠ [] →
              IsCycle
                (waitEdges pending tasks fifoPredecessor executionDependencies completed)
                path) := by
  refine ⟨fun _ => validateAcyclic_eq_false_iff, ?_⟩
  intro pending tasks fifoPredecessor executionDependencies completed
  have enough : (pending.sort (· ≤ ·)).length < pending.card + 1 := by
    rw [Finset.length_sort]
    exact Nat.lt_succ_self _
  have expandable : ∀ taskId,
      waitEdges pending tasks fifoPredecessor executionDependencies completed taskId ≠ [] →
        taskId ∈ pending.sort (· ≤ ·) := fun _ => mem_of_waitEdges
  unfold waitCycle
  rcases searchRoots_exact expandable enough with
    ⟨nodes, found, acyclic⟩ | ⟨path, found, isCycle⟩
  · exact ⟨[], by simp only [found], ⟨fun reports => absurd rfl reports,
      fun cyclic => absurd cyclic acyclic⟩, fun reports => absurd rfl reports⟩
  · have reports : path ≠ [] := by
      rintro rfl
      exact absurd isCycle.moves (by decide)
    exact ⟨path, by simp only [found], ⟨fun _ => isCycle.hasCycle, fun _ => reports⟩,
      fun _ => isCycle⟩

end TilelangAscend.Simulator
