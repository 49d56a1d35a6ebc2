import TilelangAscend.CreditEffects
import TilelangAscend.ScheduleValidity

namespace TilelangAscend.Simulator

open ListHistory

/-!
# Rendezvous of `sync_all`

A rendezvous is a scope and a phase.  Each participant of a phase arrives through one
`sync_all` only, because its phase counts the calls that it joined before.  A task that
a rendezvous releases therefore starts after all calls of that rendezvous, and by
induction over the calls of a lane so does every later task of the lane.
-/

section Rendezvous

variable {syncConfig : SyncConfig} {config : SimulatorConfig} {program : KernelProgram}
  {log : List Task} {state : RunState FlagBarrierModel}

/-! ## Arrivals -/

variable {entry : SyncAllKey × Participant} {model : FlagBarrierModel} {task call : Task}

theorem Fires.arrival_origin
    (fired : Fires (flagBarrierSynchronizationModel syncConfig) config program log state)
    {credit : Credit} (arrived : state.sync.state.syncAllArrivals entry = some credit) :
    ∃ origin ∈ log,
      state.sync.arrivesAt origin entry ∧
        ∃ record, state.completed origin.taskId = some record ∧ credit.cycle = record.endCycle := by
  induction fired with
  | initial accepts =>
    have empty := (reset_accepted accepts).2
    simp [RunState.initial, empty] at arrived
  | @place earlierLog earlierState next task earlier isTask placed ih =>
    obtain ⟨step⟩ := attempt_placed placed
    obtain ⟨_, nextShape⟩ := step.sync_effect
    rw [nextShape] at arrived ⊢
    simp only [FlagBarrierModel.withState, FlagBarrierModel.effect] at arrived
    by_cases arrives : earlierState.sync.arrivesAt task entry
    · simp only [arrives, ↓reduceIte, Option.some.injEq] at arrived
      refine ⟨task, by simp, arrives, step.record, step.completed_self, ?_⟩
      rw [← arrived]
    · simp only [arrives, ↓reduceIte] at arrived
      obtain ⟨origin, inLog, originArrives, record, done, ends⟩ := ih arrived
      exact ⟨origin, List.mem_append_left _ inLog, originArrives, record,
        step.completed_persists done, ends⟩

theorem arrivesAt_phase {before after : List Task}
    (accepted : AcceptedModel syncConfig program model)
    (shape : program.tasks = before ++ task :: after) (arrives : model.arrivesAt task entry) :
    isSyncAllJoining entry.2 task = true ∧
      entry.1.phase = before.countP (isSyncAllJoining entry.2) := by
  obtain ⟨isSyncAll, phased, joins⟩ := arrives
  obtain ⟨found⟩ := buildTables_entries program.taskIds_nodup accepted.built shape
  obtain ⟨key, keyed, keyPhased⟩ := found.phase isSyncAll
  rw [phased] at keyPhased
  cases keyPhased
  obtain ⟨scopeFound, phases⟩ := syncAllKeyOf_ok keyed
  have joinsTask : entry.2 ∈ syncAllJoins task := by
    simpa [syncAllJoins, scopeFound] using joins
  refine ⟨by simp [isSyncAllJoining, isSyncAll, joinsTask], ?_⟩
  rw [← phases entry.2 joinsTask, found.describes.syncAllPhase]

theorem arrivesAt_unique {first second : Task} (accepted : AcceptedModel syncConfig program model)
    (firstIsTask : first ∈ program.tasks) (secondIsTask : second ∈ program.tasks)
    (firstArrives : model.arrivesAt first entry)
    (secondArrives : model.arrivesAt second entry) : first = second := by
  have ordered :
      ∀ earlier later : Task, model.arrivesAt earlier entry → model.arrivesAt later entry →
        ∀ before after, program.tasks = before ++ later :: after → earlier ∉ before := by
    intro earlier later earlierArrives laterArrives before after shape inBefore
    obtain ⟨older, newer, beforeShape⟩ := List.mem_iff_append.mp inBefore
    have earlierShape : program.tasks = older ++ earlier :: (newer ++ later :: after) := by
      rw [shape, beforeShape]
      simp
    obtain ⟨joining, earlierPhase⟩ := arrivesAt_phase accepted earlierShape earlierArrives
    obtain ⟨_, laterPhase⟩ := arrivesAt_phase accepted shape laterArrives
    rw [beforeShape, List.countP_append, List.countP_cons_of_pos joining] at laterPhase
    omega
  by_contra differs
  obtain ⟨before, after, shape⟩ := List.mem_iff_append.mp secondIsTask
  rcases before_or_after shape firstIsTask differs with inBefore | inAfter
  · exact ordered first second firstArrives secondArrives before after shape inBefore
  · obtain ⟨between, rest, afterShape⟩ := List.mem_iff_append.mp inAfter
    refine ordered second first secondArrives firstArrives (before ++ second :: between) rest
      ?_ (by simp)
    rw [shape, afterShape]
    simp

/-! ## Release -/

/-- Participants that the rendezvous of a `sync_all` waits for. -/
def syncAllExpects (program : KernelProgram) (task : Task) : List Participant :=
  match syncAllScope task with
  | .ok scope => syncAllParticipants (program.cores.map CoreProgram.coreId) scope
  | .error _ => []

/-- A `sync_all` joins only participants that its rendezvous waits for. -/
def JoinsExpected (program : KernelProgram) (task : Task) : Prop :=
  ∀ participant ∈ syncAllJoins task, participant ∈ syncAllExpects program task

instance
    (program : KernelProgram)
    (task : Task) :
    Decidable (JoinsExpected program task) :=
  inferInstanceAs (Decidable (∀ participant ∈ _, _))

theorem mem_syncAllParticipants_congr {first second : List Nat}
    (same : ∀ coreId, coreId ∈ first ↔ coreId ∈ second) {scope : SyncScope}
    {participant : Participant} :
    participant ∈ syncAllParticipants first scope ↔
      participant ∈ syncAllParticipants second scope := by
  cases scope <;> simp [syncAllParticipants, same]

theorem syncAllTaskParticipants_ne_nil (task : Task) (scope : SyncScope) :
    ∃ participant, participant ∈ syncAllTaskParticipants task scope := by
  unfold syncAllTaskParticipants
  split
  · exact ⟨⟨task.coreId, .cube⟩, by simp⟩
  · exact ⟨task.participant, by simp⟩

theorem Fires.release_endsBefore
    (fired : Fires (flagBarrierSynchronizationModel syncConfig) config program log state)
    {key : SyncAllKey} (isTask : task ∈ program.tasks) (callIsTask : call ∈ program.tasks)
    (isSyncAll : call.operation = .syncAll) (joinsExpected : JoinsExpected program call)
    (callPhase : state.sync.tables.syncAllTaskPhase call.taskId = some key)
    (releases : state.sync.tables.syncAllReleaseDependencies task.taskId = some key) :
    EndsBefore state.completed call.taskId task.taskId := by
  have built := fired.accepted.built
  refine fired.endsBefore_of_step isTask ?_
  intro earlierLog earlierState next reached step
  have sameTables : earlierState.sync.tables = state.sync.tables := by
    have earlierBuilt := reached.accepted.built
    rw [built] at earlierBuilt
    simpa using earlierBuilt.symm
  obtain ⟨before, after, callShape⟩ := List.mem_iff_append.mp callIsTask
  obtain ⟨found⟩ := reached.entries callShape
  obtain ⟨callKey, keyed, callKeyPhase⟩ := found.phase isSyncAll
  rw [sameTables, callPhase] at callKeyPhase
  cases callKeyPhase
  obtain ⟨scopeFound, _⟩ := syncAllKeyOf_ok keyed
  obtain ⟨participant, joins⟩ := syncAllTaskParticipants_ne_nil call key.scope
  have expected : participant ∈ syncAllParticipants earlierState.sync.coreIds key.scope := by
    have waitedFor : participant ∈ syncAllExpects program call :=
      joinsExpected participant (by simpa [syncAllJoins, scopeFound] using joins)
    simp only [syncAllExpects, scopeFound] at waitedFor
    refine (mem_syncAllParticipants_congr ?_).mp waitedFor
    intro coreId
    rw [reached.accepted.coreIds, List.mem_insertionSort]
  obtain ⟨credit, arrived, bounded⟩ :=
    step.wasReleased.rendezvous key (by rw [sameTables]; exact releases) participant expected
  obtain ⟨origin, inLog, originArrives, record, done, ends⟩ := reached.arrival_origin arrived
  have callArrives : earlierState.sync.arrivesAt call (key, participant) := by
    refine ⟨isSyncAll, ?_, joins⟩
    rw [sameTables]
    exact callPhase
  have isCall : origin = call :=
    arrivesAt_unique reached.accepted (reached.log_mem inLog) callIsTask originArrives callArrives
  subst isCall
  exact ⟨record, done,
    le_trans (le_of_eq ends.symm) (le_trans bounded step.synchronizationCycle_le)⟩

theorem Fires.later_endsBefore
    (fired : Fires (flagBarrierSynchronizationModel syncConfig) config program log state)
    {barrier : Task} (barrierIsSyncAll : barrier.operation = .syncAll)
    (callIsTask : call ∈ program.tasks) (callIsSyncAll : call.operation = .syncAll)
    (joinsExpected : JoinsExpected program call)
    (sameRendezvous :
      state.sync.tables.syncAllTaskPhase call.taskId =
        state.sync.tables.syncAllTaskPhase barrier.taskId) :
    ∀ before task after, program.tasks = before ++ task :: after → barrier ∈ before →
      task.participant = barrier.participant →
      EndsBefore state.completed call.taskId task.taskId := by
  intro before
  induction sizeShape : before.length using Nat.strongRecOn generalizing before with
  | _ size ih =>
    intro task after shape barrierBefore sameLane
    have barrierPasses : isSyncAllOn task.participant barrier = true := by
      simp [isSyncAllOn, barrierIsSyncAll, sameLane]
    obtain ⟨latest, isLatest⟩ :=
      lastWhere_isSome (isSyncAllOn task.participant) barrierBefore barrierPasses
    obtain ⟨older, newer, beforeShape, latestPasses, newerFail⟩ := lastWhere_eq_some isLatest
    have latestLane : latest.participant = task.participant := by
      simp only [isSyncAllOn, Bool.decide_and, Bool.and_eq_true, decide_eq_true_eq] at latestPasses
      exact latestPasses.2
    have latestFences : isFenceOn task.participant latest = true := by
      simp only [isSyncAllOn, Bool.decide_and, Bool.and_eq_true, decide_eq_true_eq] at latestPasses
      simp [isFenceOn, isLaneFence, latestPasses]
    by_cases isBarrier : latest = barrier
    · subst isBarrier
      obtain ⟨found⟩ := fired.entries shape
      have latestShape : program.tasks = older ++ latest :: (newer ++ task :: after) := by
        rw [shape, beforeShape]
        simp
      obtain ⟨latestFound⟩ := fired.entries latestShape
      obtain ⟨key, _, phased⟩ := latestFound.phase barrierIsSyncAll
      refine fired.release_endsBefore (by rw [shape]; simp) callIsTask callIsSyncAll
        joinsExpected (sameRendezvous.trans phased) ?_
      rw [found.release, isLatest]
      exact phased
    · have inOlder : barrier ∈ older := by
        rw [beforeShape] at barrierBefore
        rcases List.mem_append.mp barrierBefore with inOlder | inRest
        · exact inOlder
        · rcases List.mem_cons.mp inRest with same | inNewer
          · exact (isBarrier same.symm).elim
          · have fails := newerFail barrier inNewer
            rw [barrierPasses] at fails
            cases fails
      have smaller : older.length < size := by
        rw [← sizeShape, beforeShape]
        simp
      have callLatest :=
        ih older.length smaller older rfl latest
          (newer ++ task :: after) (by rw [shape, beforeShape]; simp) inOlder
          (latestLane.trans sameLane)
      have latestTask := fired.fence_endsBefore shape (by rw [beforeShape]; simp) latestFences
      exact fired.endsBefore_trans callLatest latestTask

end Rendezvous

/-! ## Schedules -/

/-- A `sync_all` is a rendezvous of the participants that it stands for. -/
structure IsRendezvous
    (program : KernelProgram)
    (model : FlagBarrierModel)
    (result : ScheduleResult)
    (before : List Task)
    (barrier : Task)
    (after : List Task) :
    Prop where
  earlierEnd :
    ∀ participant ∈ syncAllJoins barrier,
      ∀ earlier ∈ before, earlier.participant = participant →
        result.EndsBefore earlier.taskId barrier.taskId
  laterStart :
    ∀ participant ∈ syncAllJoins barrier,
      ∀ later ∈ after, later.participant = participant →
        ∀ call ∈ program.tasks, call.operation = .syncAll →
          model.tables.syncAllTaskPhase call.taskId = model.tables.syncAllTaskPhase barrier.taskId →
          result.EndsBefore call.taskId later.taskId

/-- Programs whose `sync_all`s drain and release every participant they stand for. -/
structure RendezvousProgram (program : KernelProgram) : Prop where
  /-- Lanes that a call stands for beside its own lane have no tasks. -/
  ownLane :
    ∀ barrier ∈ program.tasks, barrier.operation = .syncAll →
      ∀ participant ∈ syncAllJoins barrier, participant ≠ barrier.participant →
        ∀ task ∈ program.tasks, task.participant ≠ participant
  /-- A lane's task is followed by a fence that waits for it, at the latest by the call. -/
  followed :
    ∀ before task between barrier after,
      program.tasks = before ++ task :: (between ++ barrier :: after) →
      barrier.operation = .syncAll →
      task.participant = barrier.participant →
      FollowedByFence before task (between ++ [barrier])
  /-- A call joins only participants that its scope expects. -/
  expected :
    ∀ barrier ∈ program.tasks, barrier.operation = .syncAll → JoinsExpected program barrier

/-- In every completed schedule of such a program each `sync_all` is a rendezvous. -/
theorem syncAll_isRendezvous
    (syncConfig : SyncConfig)
    (config : SimulatorConfig)
    (program : KernelProgram)
    (model : FlagBarrierModel)
    (result : ScheduleResult)
    (accepted : reset syncConfig program = .ok model)
    (completes : run (flagBarrierSynchronizationModel syncConfig) config program = .ok result)
    (ready : RendezvousProgram program)
    (before : List Task)
    (barrier : Task)
    (after : List Task)
    (shape : program.tasks = before ++ barrier :: after)
    (isSyncAll : barrier.operation = .syncAll) :
    IsRendezvous program model result before barrier after := by
  obtain ⟨log, state, fired, complete, rfl⟩ := run_fires completes
  have isTask : barrier ∈ program.tasks := by
    rw [shape]
    simp
  have onOwnLane :
      ∀ participant ∈ syncAllJoins barrier,
        ∀ task ∈ program.tasks,
          task.participant = participant → task.participant = barrier.participant := by
    intro participant joins task taskIsTask onLane
    by_contra differs
    exact ready.ownLane barrier isTask isSyncAll participant joins
      (by rw [← onLane]; exact differs) task taskIsTask onLane
  refine {
    earlierEnd := ?_
    laterStart := ?_ }
  · intro participant joins earlier inBefore onLane
    obtain ⟨older, between, beforeShape⟩ := List.mem_iff_append.mp inBefore
    have earlierShape : program.tasks = older ++ earlier :: (between ++ barrier :: after) := by
      rw [shape, beforeShape]
      simp
    have sameLane := onOwnLane participant joins earlier (by rw [earlierShape]; simp) onLane
    refine fired.result_endsBefore complete isTask ?_
    have followedShape : program.tasks = older ++ earlier :: ((between ++ [barrier]) ++ after) := by
      rw [earlierShape]
      simp
    obtain ⟨fence, inRest, onFence, ends⟩ :=
      fired.followed_endsBefore followedShape
        (ready.followed older earlier between barrier after earlierShape isSyncAll sameLane)
    rcases List.mem_append.mp inRest with inBetween | isBarrier
    · rw [sameLane] at onFence
      refine fired.endsBefore_trans ends (fired.fence_endsBefore shape ?_ onFence)
      rw [beforeShape]
      simp [inBetween]
    · rw [List.mem_singleton.mp isBarrier] at ends
      exact ends
  · intro participant joins later inAfter onLane call callIsTask callIsSyncAll same
    obtain ⟨between, rest, afterShape⟩ := List.mem_iff_append.mp inAfter
    have laterShape : program.tasks = (before ++ barrier :: between) ++ later :: rest := by
      rw [shape, afterShape]
      simp
    have laterIsTask : later ∈ program.tasks := by
      rw [laterShape]
      simp
    have sameLane := onOwnLane participant joins later laterIsTask onLane
    have sameTables : model.tables = state.sync.tables := by
      have built := fired.accepted.built
      rw [(reset_accepted accepted).1.built] at built
      simpa using built
    refine fired.result_endsBefore complete laterIsTask ?_
    exact fired.later_endsBefore isSyncAll callIsTask callIsSyncAll
      (ready.expected call callIsTask callIsSyncAll) (by rw [← sameTables]; exact same)
      _ later rest laterShape (by simp) sameLane

/-- A cube load before an unscoped `sync_all` of the control lane. -/
def bundledSyncAll : KernelProgram where
  cores :=
    [{ coreId := 0
       tasks :=
         [{ taskId := "load", operation := .other "copy", coreId := 0
            lane := .cube, pipe := .mte2, durationCycles := 100 },
          { taskId := "sync", operation := .syncAll, coreId := 0
            lane := .control, pipe := .s, durationCycles := 1 }] }]

/-- The control-lane call stands for the cube lane but does not drain it. -/
theorem bundledSyncAll_not_rendezvous :
    ¬ ∀ (syncConfig : SyncConfig) (config : SimulatorConfig) (program : KernelProgram)
        (model : FlagBarrierModel) (result : ScheduleResult),
        reset syncConfig program = .ok model →
        run (flagBarrierSynchronizationModel syncConfig) config program = .ok result →
        ∀ before barrier after, program.tasks = before ++ barrier :: after →
          barrier.operation = .syncAll →
          IsRendezvous program model result before barrier after := by
  intro rendezvous
  have cycles :
      (run (flagBarrierSynchronizationModel {}) {} bundledSyncAll).toOption.map
        (fun result => (result.interval? "load", result.interval? "sync")) =
      some (some (0, 100), some (0, 1)) := by
    decide +kernel
  obtain ⟨result, completes, intervals⟩ := ok_of_observed cycles
  obtain ⟨log, state, fired, _, _⟩ := run_fires completes
  obtain ⟨model, accepted⟩ := fired.reset_ok
  have holds :=
    rendezvous {} {} bundledSyncAll model result accepted completes
      [bundledSyncAll.tasks[0]] bundledSyncAll.tasks[1] [] rfl rfl
  obtain ⟨loadRecord, syncRecord, loadDone, syncDone, ordered⟩ :=
    holds.earlierEnd ⟨0, .cube⟩ (by decide) bundledSyncAll.tasks[0] (by simp) rfl
  have loadIs : result.operation? "load" = some loadRecord := loadDone
  have syncIs : result.operation? "sync" = some syncRecord := syncDone
  simp only [ScheduleResult.interval?, loadIs, syncIs, Option.map_some, Prod.mk.injEq,
    Option.some.injEq] at intervals
  omega

/-- Two cores whose cube lanes meet in a `sync_all`. -/
def cubeSyncAll : KernelProgram where
  cores :=
    [{ coreId := 0
       tasks :=
         [{ taskId := "load", operation := .other "copy", coreId := 0
            lane := .cube, pipe := .mte2, durationCycles := 10 },
          { taskId := "sync-0", operation := .syncAll, coreId := 0
            lane := .cube, pipe := .s, durationCycles := 1 },
          { taskId := "mma", operation := .other "mma", coreId := 0
            lane := .cube, pipe := .m, durationCycles := 10 }] },
     { coreId := 1
       tasks :=
         [{ taskId := "slow-load", operation := .other "copy", coreId := 1
            lane := .cube, pipe := .mte2, durationCycles := 30 },
          { taskId := "sync-1", operation := .syncAll, coreId := 1
            lane := .cube, pipe := .s, durationCycles := 1 }] }]

theorem cubeSyncAll_ready : RendezvousProgram cubeSyncAll where
  ownLane := by decide
  followed := by
    have checked :
        ∀ before task rest, cubeSyncAll.tasks = before ++ task :: rest →
          ∀ between barrier after, rest = between ++ barrier :: after →
            barrier.operation = .syncAll →
            task.participant = barrier.participant →
            FollowedByFence before task (between ++ [barrier]) := by
      simp only [forall_split_iff]
      decide +kernel
    intro before task between barrier after shape
    exact checked before task _ shape between barrier after rfl
  expected := by decide

/-- The matrix task starts after the calls of both cores, and so after the slow load. -/
theorem cubeSyncAll_isRendezvous :
    ∃ model result,
      reset {} cubeSyncAll = .ok model ∧
        run (flagBarrierSynchronizationModel {}) {} cubeSyncAll = .ok result ∧
        result.interval? "mma" = some (31, 41) ∧
        RendezvousProgram cubeSyncAll ∧
        IsRendezvous cubeSyncAll model result [cubeSyncAll.tasks[0]] cubeSyncAll.tasks[1]
          (cubeSyncAll.tasks.drop 2) := by
  have cycles :
      (run (flagBarrierSynchronizationModel {}) {} cubeSyncAll).toOption.map
        (fun result => result.interval? "mma") = some (some (31, 41)) := by
    decide +kernel
  obtain ⟨result, completes, interval⟩ := ok_of_observed cycles
  obtain ⟨log, state, fired, _, _⟩ := run_fires completes
  obtain ⟨model, accepted⟩ := fired.reset_ok
  exact ⟨model, result, accepted, completes, interval, cubeSyncAll_ready,
    syncAll_isRendezvous {} {} cubeSyncAll model result accepted completes
      cubeSyncAll_ready _ _ _ rfl rfl⟩

end TilelangAscend.Simulator
