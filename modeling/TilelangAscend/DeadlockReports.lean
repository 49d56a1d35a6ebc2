import TilelangAscend.CoreOrder
import TilelangAscend.DynamicControl
import TilelangAscend.WaitCycle

namespace TilelangAscend.Simulator

open CycleSearch
open DependencyRuns

/-!
# Deadlocks

A run that only follows needs deadlocks on a set of tasks that wait for each other.  With any
synchronization model, a deadlock without a wait-for cycle is the model's own doing.
-/

variable {σ : Type} {model : SynchronizationModel σ} {config : SimulatorConfig}
  {program : KernelProgram} {state : RunState σ}

/-! ## Reports -/

/-- `pending` when a pass makes no progress. -/
def pendingIds (program : KernelProgram) (state : RunState σ) : Finset TaskId :=
  ((pendingTasks program.tasks state).map Task.taskId).toFinset

/-- The graph that `run` hands to `_wait_cycle`. -/
def pendingEdges (program : KernelProgram) (state : RunState σ) : TaskId → List TaskId :=
  waitEdges (pendingIds program state) program.tasks (fifoPredecessors program.tasks)
    (executionDependenciesOf program.tasks) state.completed

theorem delaying_isTask {task : Task} (isTask : task ∈ program.tasks) {delaying : TaskId}
    (member : delaying ∈ delayingTasks program task) :
    delaying ∈ program.tasks.map Task.taskId := by
  rcases List.mem_append.mp member with isDependency | isPredecessor
  · exact program.dependenciesKnown task isTask delaying (List.mem_of_mem_filter isDependency)
  · obtain ⟨before, after, shape⟩ := List.mem_iff_append.mp isTask
    rw [fifoPredecessors_eq program.taskIds_nodup shape] at isPredecessor
    obtain ⟨earlier, latest, rfl⟩ := Option.map_eq_some_iff.mp (Option.mem_toList.mp isPredecessor)
    have isEarlier := List.mem_of_mem_filter (List.mem_of_getLast? latest)
    exact List.mem_map_of_mem (by simp [shape, isEarlier])

/-- On a deadlock, pending tasks wait in a cycle, or the model holds one that has its inputs. -/
theorem deadlock_explained (deadlocked : Deadlocked model config program state) :
    HasCycle (pendingEdges program state) ∨
      ∃ task ∈ pendingTasks program.tasks state,
        anyMissing state.completed (delayingTasks program task) = false ∧
          (model.evaluate state.sync task state.completed).map SyncDecision.readyCycle =
            .ok none := by
  by_cases cyclic : HasCycle (pendingEdges program state)
  · exact .inl cyclic
  obtain ⟨first, pending⟩ := List.exists_mem_of_ne_nil _ deadlocked.pending
  have nonempty : (pendingIds program state).Nonempty :=
    ⟨_, List.mem_toFinset.mpr (List.mem_map_of_mem pending)⟩
  obtain ⟨taskId, isPending, ends⟩ := exists_sink cyclic nonempty
  obtain ⟨task, member, rfl⟩ := List.mem_map.mp (List.mem_toFinset.mp isPending)
  obtain ⟨isTask, fresh⟩ := List.mem_filter.mp member
  have inputs : anyMissing state.completed (delayingTasks program task) = false := by
    refine anyMissing_eq_false.mpr fun delaying delays => ?_
    by_contra missing
    have unended : (state.completed delaying).isNone := by
      simpa [Option.eq_none_iff_forall_ne_some] using missing
    obtain ⟨other, otherMember, rfl⟩ := List.mem_map.mp (delaying_isTask isTask delays)
    refine ends other.taskId ?_ (List.mem_toFinset.mpr
      (List.mem_map_of_mem (List.mem_filter.mpr ⟨otherMember, unended⟩)))
    rw [pendingEdges, waitEdges, if_pos ⟨isPending, List.mem_map_of_mem isTask⟩,
      executionDependenciesOf, find?_taskId isTask]
    exact List.mem_filter.mpr ⟨delays, unended⟩
  refine .inr ⟨task, member, inputs, ?_⟩
  have idle := deadlocked.idle task isTask
  unfold attempt at idle
  rw [Option.isNone_iff_eq_none.mp fresh] at idle
  unfold delayingTasks at inputs
  grind [Except.map]

/-- A task that is queued before the one it depends on. -/
def reversedQueue : KernelProgram where
  cores :=
    [{ coreId := 0
       tasks :=
        [{ taskId := "mma", operation := .other "mma", coreId := 0, lane := .cube, pipe := .m
           durationCycles := 10, dependencies := ["bias"] },
         { taskId := "bias", operation := .other "mma", coreId := 0, lane := .cube, pipe := .m
           durationCycles := 10 }] }]

/-- A task that needs a later one of its own queue. -/
theorem reversedQueue_cyclic : HasCycle (pendingEdges reversedQueue (.initial ())) := by
  have deadlocked : Deadlocked noOpSynchronizationModel {} reversedQueue (.initial ()) := by
    refine ⟨fun task isTask => ?_, by decide⟩
    rcases List.mem_cons.mp isTask with rfl | isLast
    · rfl
    · rw [List.mem_singleton.mp isLast]
      rfl
  rcases deadlock_explained deadlocked with cyclic | ⟨_, _, _, held⟩
  · exact cyclic
  · cases held

/-! ## Runs that only follow needs -/

/-- Each task of the set needs another one of it, or something that never comes. -/
structure Blocked (program : KernelProgram) (model : FlagBarrierModel) (blocked : Set TaskId) :
    Prop where
  occupied : ∃ task ∈ program.tasks, task.taskId ∈ blocked
  waits :
    ∀ taskId ∈ blocked, ∀ inputs, needsOf program model taskId = some inputs →
      ∃ input ∈ inputs, input ∈ blocked

/-- A run deadlocks exactly when some tasks can only wait for each other. -/
theorem run_deadlocks_iff {model : FlagBarrierModel}
    (platform : config.platform = program.platform)
    (unbounded : config.maxCycles = none)
    (detects : config.deadlockDetect = true)
    (placement : BridgePlacement program)
    (accepted : reset {} program = .ok model)
    (free : OrderFree program model)
    (withinLimits :
      ∀ failure, run (flagBarrierSynchronizationModel {}) config program = .error failure →
        failure.isOverflow = false) :
    (∃ pending,
        run (flagBarrierSynchronizationModel {}) config program = .error (.deadlock pending)) ↔
      ∃ blocked, Blocked program model blocked := by
  have acceptedModel := (reset_accepted accepted).1
  have ends := scheduleState_ends platform unbounded detects placement accepted free
  unfold run at withinLimits ⊢
  generalize scheduleState (flagBarrierSynchronizationModel {}) config program = outcome
    at ends withinLimits ⊢
  cases ends with
  | @overflows taskId failure overflows =>
    have limited := withinLimits (.validation taskId failure) rfl
    simp [SimError.isOverflow, overflows] at limited
  | @deadlocks log state pending fired deadlocked =>
    refine iff_of_true ⟨pending, rfl⟩
      ⟨{taskId | endCycle? state.completed taskId = none}, deadlocked.unfinished, ?_⟩
    intro taskId fresh inputs needed
    have missing :=
      fired.needs_missing unbounded placement acceptedModel free deadlocked.idle
        (by rw [needed]; rfl) fresh
    rw [needed, readyCycle] at missing
    split at missing
    · rename_i waits
      obtain ⟨input, isInput, unended⟩ := List.any_eq_true.mp waits
      exact ⟨input, isInput, Option.isNone_iff_eq_none.mp unended⟩
    · cases missing
  | @completes log final fired complete =>
    refine iff_of_false ?_ ?_
    · rintro ⟨pending, fails⟩
      dsimp only at fails
      split at fails <;> cases fails
    · rintro ⟨blocked, ⟨task, isTask, member⟩, waits⟩
      obtain ⟨start, ended, _⟩ := fired.interval_eq complete isTask
      rw [(fired.runs unbounded placement acceptedModel free).none_of_blocked waits member] at ended
      cases ended

/-- Two pipes that wait for each other's flag before they set their own. -/
def crossedFlags : KernelProgram where
  cores :=
    [{ coreId := 0
       tasks :=
        [{ taskId := "wait-mte2", operation := .waitFlag, coreId := 0, lane := .cube, pipe := .mte2
           durationCycles := 1
           metadata :=
            { srcPipe := some (.pipe .m), dstPipe := some (.pipe .mte2), flagId := .value 0 } },
         { taskId := "set-mte2", operation := .setFlag, coreId := 0, lane := .cube, pipe := .mte2
           durationCycles := 1
           metadata :=
            { srcPipe := some (.pipe .mte2), dstPipe := some (.pipe .m), flagId := .value 0 } },
         { taskId := "wait-m", operation := .waitFlag, coreId := 0, lane := .cube, pipe := .m
           durationCycles := 1
           metadata :=
            { srcPipe := some (.pipe .mte2), dstPipe := some (.pipe .m), flagId := .value 0 } },
         { taskId := "set-m", operation := .setFlag, coreId := 0, lane := .cube, pipe := .m
           durationCycles := 1
           metadata :=
            { srcPipe := some (.pipe .m), dstPipe := some (.pipe .mte2), flagId := .value 0 } }] }]
/-- The four tasks of the crossed flags can only wait for each other. -/
theorem crossedFlags_blocked :
    ∃ model, reset {} crossedFlags = .ok model ∧ ∃ blocked, Blocked crossedFlags model blocked := by
  have fails :
      run (flagBarrierSynchronizationModel {}) {} crossedFlags =
        .error (.deadlock ["wait-mte2", "set-mte2", "wait-m", "set-m"]) := by
    decide +kernel
  have unreleased :
      ∀ task ∈ crossedFlags.tasks, isWait task = true →
        ∀ other ∈ crossedFlags.earlierTasks task, isSyncAllOn task.participant other = false := by
    decide +kernel
  have noSyncAll : ∀ task ∈ crossedFlags.tasks, task.operation ≠ .syncAll := by
    decide
  refine ⟨_, rfl, (run_deadlocks_iff rfl rfl rfl
    ⟨⟨by decide, by decide⟩, by decide, by decide, by decide⟩ rfl
    ⟨fun task isTask waits _ => unreleased task isTask waits,
      fun task isTask isSync => absurd isSync (noSyncAll task isTask)⟩ ?_).mp ⟨_, fails⟩⟩
  rw [fails]
  rintro _ ⟨⟩
  rfl

end TilelangAscend.Simulator
