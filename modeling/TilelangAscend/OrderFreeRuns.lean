import TilelangAscend.TaskNeeds

namespace TilelangAscend.Simulator

open DependencyRuns
open ListHistory
open FlagBarrierModel

/-!
# Runs that only follow needs

When no wait for a credit is let through by a `sync_all` and every `sync_all` joins participants
that its rendezvous waits for, the scheduler places a task exactly when the tasks that it needs
are completed, at the latest of their ends.  The firing sequences of a program are then runs
over its fixed dependency graph.
-/

/-- Waits for credits come before every `sync_all` of their lane, and calls are expected. -/
structure OrderFree
    (program : KernelProgram)
    (model : FlagBarrierModel) :
    Prop where
  waitsUnreleased :
    ∀ task ∈ program.tasks, isWait task = true → model.waitPhase? task = none →
      ∀ other ∈ program.earlierTasks task, isSyncAllOn task.participant other = false
  joinsExpected :
    ∀ task ∈ program.tasks, task.operation = .syncAll → JoinsExpected program task

/-! ## Operands of accepted cross flags -/

section Operands

variable {syncConfig : SyncConfig} {program : KernelProgram} {model : FlagBarrierModel}
  {task : Task} {key : WaitModeKey} {mode : CrossMode} {flagId : Int} {kind : LaneKind}

/-- An accepted program has no cross wait that two modes could feed. -/
theorem AcceptedModel.unambiguous (accepted : AcceptedModel syncConfig program model)
    (isTask : task ∈ program.tasks) : ambiguousModes program.tasks task = false := by
  have validated := accepted.validated
  unfold validateProgram at validated
  cases checked : program.tasks.forM validateSyncTask with
  | error failure => simp [checked, bind, Except.bind] at validated
  | ok _ =>
    simp only [checked, bind, Except.bind] at validated
    split at validated
    · cases validated
    · rename_i noneFound
      have passes := List.find?_eq_none.mp noneFound task isTask
      simpa using passes

/-- The modes of a flag are those that some task of the list declares. -/
theorem mem_waitModes {tasks : List Task} :
    mode ∈ waitModes tasks key ↔ ∃ task ∈ tasks, declaredWaitMode task = some (key, mode) := by
  simp only [waitModes, List.mem_eraseDups, List.mem_filterMap]
  constructor
  · rintro ⟨declared, ⟨task, isTask, declares⟩, selected⟩
    split at selected
    · rename_i isKey
      cases selected
      exact ⟨task, isTask, by rw [declares, ← isKey]⟩
    · cases selected
  · rintro ⟨task, isTask, declares⟩
    exact ⟨(key, mode), ⟨task, isTask, declares⟩, by simp⟩

section

variable (accepted : AcceptedModel syncConfig program model)
include accepted

/-- Two modes declared for one flag, with or without its core, are the same. -/
theorem AcceptedModel.modes_agree {other : WaitModeKey} {otherMode : CrossMode}
    (declared : mode ∈ waitModes program.tasks key)
    (otherDeclared : otherMode ∈ waitModes program.tasks other)
    (sameNamespace : other = key ∨ (key.core.isSome ∧ other = { key with core := none })) :
    otherMode = mode := by
  obtain ⟨task, isTask, declares⟩ := mem_waitModes.mp declared
  have clear := accepted.unambiguous isTask
  simp only [ambiguousModes, declares, Bool.or_eq_false_iff, List.any_eq_false] at clear
  rcases sameNamespace with same | ⟨inCore, same⟩
  · subst same
    simpa using clear.1 otherMode otherDeclared
  · have globalClear := clear.2
    rw [inCore, Bool.true_and, List.any_eq_false] at globalClear
    subst same
    simpa using globalClear otherMode otherDeclared

/-- A cross task of an accepted program has its flag and its lane kind. -/
theorem AcceptedModel.cross_operands (isTask : task ∈ program.tasks)
    (isCross : task.operation = .setCrossFlag ∨ task.operation = .waitCrossFlag) :
    ∃ flagId kind, flagIdOf task = .ok flagId ∧ laneKindOf task = .ok kind := by
  have validated := accepted.task_validated isTask
  cases flagged : flagIdOf task with
  | error failure =>
    rcases isCross with isSet | isWait
    · simp [validateSyncTask, isSet, validateCrossFlagId, flagged, bind, Except.bind] at validated
    · simp [validateSyncTask, isWait, validateCrossFlagId, flagged, bind, Except.bind] at validated
  | ok flagId =>
    cases kinded : laneKindOf task with
    | ok kind => exact ⟨flagId, kind, rfl, rfl⟩
    | error failure =>
      rcases isCross with isSet | isWait
      · cases moded : crossModeOf task with
        | error modeFailure =>
          simp only [validateSyncTask, isSet, validateCrossFlagId, flagged,
            validateCrossMode, moded, bind, Except.bind] at validated
          split at validated <;> cases validated
        | ok mode =>
          simp only [validateSyncTask, isSet, validateCrossFlagId, flagged,
            validateCrossMode, moded, kinded, bind, Except.bind] at validated
          split at validated <;> cases validated
      · simp only [validateSyncTask, isWait, validateCrossFlagId, flagged, kinded, bind,
          Except.bind] at validated
        split at validated <;> cases validated

/-- A cross set of an accepted program has a mode, and mode 1 only on a vector lane. -/
theorem AcceptedModel.cross_mode (isTask : task ∈ program.tasks)
    (isSet : task.operation = .setCrossFlag) :
    ∃ mode, crossModeOf task = .ok mode ∧ (mode = .mode1 → laneKindOf task = .ok .vector) := by
  have validated := accepted.task_validated isTask
  obtain ⟨flagId, kind, flagged, kinded⟩ := accepted.cross_operands isTask (Or.inl isSet)
  cases moded : crossModeOf task with
  | error failure =>
    simp only [validateSyncTask, isSet, validateCrossFlagId, flagged, validateCrossMode,
      moded, bind, Except.bind] at validated
    split at validated <;> cases validated
  | ok mode =>
    refine ⟨mode, rfl, ?_⟩
    intro isModeOne
    subst isModeOne
    cases kind with
    | vector => exact kinded
    | cube =>
      simp only [validateSyncTask, isSet, validateCrossFlagId, flagged, validateCrossMode,
        moded, kinded, reject, bind, Except.bind] at validated
      split at validated <;> cases validated

/-- The mode of a cross wait is always found. -/
theorem AcceptedModel.crossWaitMode_ok (isTask : task ∈ program.tasks)
    (isCrossWait : task.operation = .waitCrossFlag) :
    ∃ mode, model.crossWaitMode task = .ok mode := by
  obtain ⟨flagId, kind, flagged, kinded⟩ := accepted.cross_operands isTask (Or.inr isCrossWait)
  unfold crossWaitMode
  simp only [flagged, kinded]
  split
  · rename_i inCore globally inCoreFound globallyFound
    rw [accepted.crossWaitModes] at inCoreFound globallyFound
    have agree : globally = inCore :=
      accepted.modes_agree (List.mem_of_mem_head? inCoreFound)
        (List.mem_of_mem_head? globallyFound) (Or.inr ⟨rfl, rfl⟩)
    exact ⟨some inCore, by rw [if_pos agree.symm]⟩
  · exact ⟨_, rfl⟩
  · exact ⟨_, rfl⟩

end

/-- With a flag and a lane kind the queues of a wait are found. -/
theorem crossWaitKeysMode2_ok (flagged : flagIdOf task = .ok flagId)
    (kinded : laneKindOf task = .ok kind) : ∃ keys, crossWaitKeysMode2 task = .ok keys := by
  cases onLane : task.lane with
  | control => simp [laneKindOf, onLane, reject] at kinded
  | _ => simp [crossWaitKeysMode2, flagged, onLane]

/-- With a flag and a lane kind the queues of a set are found. -/
theorem crossSetKeysMode2_ok (flagged : flagIdOf task = .ok flagId)
    (kinded : laneKindOf task = .ok kind) : ∃ keys, crossSetKeysMode2 task = .ok keys := by
  cases onLane : task.lane with
  | control => simp [laneKindOf, onLane, reject] at kinded
  | _ => simp [crossSetKeysMode2, flagged, onLane]

/-- With a flag and a lane kind the collective of a task is found. -/
theorem collectiveKey_ok (mode : CrossMode) (collective : mode ≠ .mode2)
    (flagged : flagIdOf task = .ok flagId) (kinded : laneKindOf task = .ok kind) :
    ∃ key, collectiveKey task mode = .ok key := by
  cases mode with
  | mode2 => exact absurd rfl collective
  | _ => simp [collectiveKey, flagged, kinded]

/-- A cross wait waits for nothing, for credits, or for a phase of a collective. -/
theorem AcceptedModel.crossWait_cases (accepted : AcceptedModel syncConfig program model)
    (isTask : task ∈ program.tasks) (isCrossWait : task.operation = .waitCrossFlag) :
    (model.crossWaitMode task = .ok none ∧ model.waitPhase? task = none) ∨
      (model.crossWaitMode task = .ok (some .mode2) ∧ model.waitPhase? task = none ∧
        crossWaitKeysMode2 task = .ok (model.waitKeys task)) ∨
      ∃ mode key,
        mode ≠ .mode2 ∧ model.crossWaitMode task = .ok (some mode) ∧
          collectiveKey task mode = .ok key ∧
          model.waitPhase? task = some (key, task.participant) := by
  obtain ⟨flagId, kind, flagged, kinded⟩ := accepted.cross_operands isTask (Or.inr isCrossWait)
  obtain ⟨found, moded⟩ := accepted.crossWaitMode_ok isTask isCrossWait
  cases found with
  | none =>
    refine Or.inl ⟨moded, ?_⟩
    simp [waitPhase?, auditedCollective, isCrossWait, moded]
  | some mode =>
    by_cases isMode2 : mode = .mode2
    · subst isMode2
      refine Or.inr (Or.inl ⟨moded, ?_, ?_⟩)
      · simp [waitPhase?, auditedCollective, isCrossWait, moded, collectiveKey, flagged,
          kinded, reject, Except.toOption]
      · obtain ⟨keys, keyed⟩ := crossWaitKeysMode2_ok flagged kinded
        simp [waitKeys, auditedCrossKeys, isCrossWait, moded, keyed]
    · obtain ⟨key, keyed⟩ := collectiveKey_ok mode isMode2 flagged kinded
      refine Or.inr (Or.inr ⟨mode, key, isMode2, moded, keyed, ?_⟩)
      simp [waitPhase?, auditedCollective, isCrossWait, moded, keyed, Except.toOption]

/-- Who has arrived at an expected sync_all is among its participants. -/
theorem AcceptedModel.arrives_expected (accepted : AcceptedModel syncConfig program model)
    {call : Task} (callIsTask : call ∈ program.tasks)
    (joinsExpected : JoinsExpected program call) {key : SyncAllKey}
    {participant : Participant} (arrives : model.arrivesAt call (key, participant)) :
    participant ∈ syncAllParticipants model.coreIds key.scope := by
  obtain ⟨isSyncAll, phased, joins⟩ := arrives
  obtain ⟨before, after, callShape⟩ := List.mem_iff_append.mp callIsTask
  obtain ⟨found⟩ := buildTables_entries program.taskIds_nodup accepted.built callShape
  obtain ⟨callKey, keyed, callPhase⟩ := found.phase isSyncAll
  rw [phased, Option.some.injEq] at callPhase
  subst callPhase
  obtain ⟨scopeFound, _⟩ := syncAllKeyOf_ok keyed
  have waitedFor : participant ∈ syncAllExpects program call :=
    joinsExpected participant (by simpa [syncAllJoins, scopeFound] using joins)
  simp only [syncAllExpects, scopeFound] at waitedFor
  refine (mem_syncAllParticipants_congr ?_).mp waitedFor
  intro coreId
  rw [accepted.coreIds, List.mem_insertionSort]

end Operands

/-! ## Decisions follow needs -/

/-- The ready cycle over completed tasks is their latest end, if none is missing. -/
theorem readyCycle_completed (completed : Completed) (taskIds : List TaskId) :
    readyCycle (endCycle? completed) (some taskIds) =
      if anyMissing completed taskIds then none else some (maxEnd completed taskIds) := by
  have missing :
      (fun taskId => (endCycle? completed taskId).isNone) =
        fun taskId => (completed taskId).isNone := by
    funext taskId
    simp [endCycle?]
  simp only [readyCycle, missing]
  rfl

/-- The ready cycle over the sources of credits is that of the tasks that gave them. -/
theorem readyCycle_credits {β : Type} {completed : Completed} {items : List β}
    {need : β → Option TaskId} {source : β → Option Credit}
    (same :
      ∀ item ∈ items, (source item).map Credit.cycle = (need item).bind (endCycle? completed)) :
    readyCycle (endCycle? completed) (items.mapM need) =
      if items.any fun item => (source item).isNone then
        none
      else
        some (((items.filterMap source).map Credit.cycle).foldr max 0) := by
  rw [readyCycle_mapM same, List.map_filterMap]
  simp

section Decisions

variable {config : SimulatorConfig} {program : KernelProgram} {log : List Task}
  {state : RunState FlagBarrierModel} {task : Task}

section

variable (fired : Fires (flagBarrierSynchronizationModel {}) config program log state)
include fired

/-- The latest arrival at a sync_all does not depend on the order of the arrivals. -/
theorem Fires.arrivals_latest (free : OrderFree program state.sync) (key : SyncAllKey) :
    ((state.sync.arrivals key).map Credit.cycle).foldr max 0 =
      (((syncAllParticipants state.sync.coreIds key.scope).filterMap fun participant =>
        state.sync.state.syncAllArrivals (key, participant)).map Credit.cycle).foldr max 0 := by
  apply le_antisymm
  · refine List.max_le_of_forall_le (α := Nat) _ _ ?_
    intro cycle member
    obtain ⟨credit, isArrival, rfl⟩ := List.mem_map.mp member
    obtain ⟨participant, _, arrived⟩ := List.mem_filterMap.mp isArrival
    obtain ⟨origin, inLog, originArrives, _⟩ := fired.arrival_origin arrived
    have originIsTask := fired.log_mem inLog
    have expected :=
      fired.accepted.arrives_expected originIsTask
        (free.joinsExpected origin originIsTask originArrives.1) originArrives
    exact List.le_max_of_le' 0
      (List.mem_map_of_mem (List.mem_filterMap.mpr ⟨participant, expected, arrived⟩)) le_rfl
  · refine List.max_le_of_forall_le (α := Nat) _ _ ?_
    intro cycle member
    obtain ⟨credit, isArrival, rfl⟩ := List.mem_map.mp member
    obtain ⟨participant, expected, arrived⟩ := List.mem_filterMap.mp isArrival
    exact List.le_max_of_le' 0
      (List.mem_map_of_mem (List.mem_filterMap.mpr
        ⟨participant, mem_participants_of_expected expected, arrived⟩)) le_rfl

/-- A sync_all is released when all participants have arrived. -/
theorem Fires.evaluateRelease_ready (free : OrderFree program state.sync)
    (key : SyncAllKey) (orderingCycle : Nat) :
    (state.sync.evaluateRelease key orderingCycle).readyCycle =
      (readyCycle (endCycle? state.completed)
        ((syncAllParticipants state.sync.coreIds key.scope).mapM
          (arrivalNeed program state.sync key))).map (max orderingCycle ·) := by
  rw [readyCycle_credits fun participant _ => fired.arrival_cycle key participant,
    ← fired.arrivals_latest free]
  unfold evaluateRelease
  split
  · rfl
  · rfl

/-- A wait for credits at the head of its queue needs the sets its place in the queue names. -/
theorem Fires.evaluateCredits_ready (placement : BridgePlacement program)
    (isTask : task ∈ program.tasks)
    (isHead : QueueHead (fifoPredecessors program.tasks) state task) (reason : SyncReason)
    (orderingCycle : Nat) :
    (state.sync.evaluateCredits (state.sync.waitKeys task) reason orderingCycle).readyCycle =
      (readyCycle (endCycle? state.completed)
        ((state.sync.waitKeys task).mapM (creditNeed program state.sync task))).map
          (max orderingCycle ·) := by
  rw [readyCycle_credits fun key member => fired.head_cycle placement isTask isHead member]
  have isEmpty : ∀ key,
      (state.sync.state.tokens key).head?.isNone = (state.sync.state.tokens key).isEmpty := by
    intro key
    cases state.sync.state.tokens key <;> rfl
  simp only [evaluateCredits, isEmpty]
  split
  · rfl
  · rfl

/-- A collective wait at the head of its queue needs its phase of every participant. -/
theorem Fires.evaluateCollective_ready (placement : BridgePlacement program)
    (isTask : task ∈ program.tasks)
    (isHead : QueueHead (fifoPredecessors program.tasks) state task) {mode : CrossMode}
    {key : CollectiveKey} (keyed : collectiveKey task mode = .ok key)
    (advances : state.sync.waitPhase? task = some (key, task.participant)) (orderingCycle : Nat) :
    ∃ decision,
      state.sync.evaluateCollectiveWait task mode orderingCycle = .ok decision ∧
        decision.readyCycle =
          (readyCycle (endCycle? state.completed)
            ((collectiveParticipants state.sync.coreIds key).mapM
              (phaseNeed program state.sync task key))).map (max orderingCycle ·) := by
  rw [readyCycle_credits fun participant _ =>
    fired.phase_cycle placement isTask isHead advances participant]
  have isShort : ∀ participant,
      ((state.sync.state.collectiveReady (key, participant))[
          state.sync.state.collectiveWaitPhase (key, task.participant)]?).isNone =
        decide ((state.sync.state.collectiveReady (key, participant)).length ≤
          state.sync.state.collectiveWaitPhase (key, task.participant)) := by
    intro participant
    rw [Bool.eq_iff_iff, decide_eq_true_iff, Option.isNone_iff_eq_none, List.getElem?_eq_none_iff]
  simp only [evaluateCollectiveWait, keyed, isShort]
  split
  · exact ⟨_, rfl, rfl⟩
  · exact ⟨_, rfl, rfl⟩

/-- The decision on an operation is a function of what the task needs. -/
theorem Fires.evaluateOperation_ready (placement : BridgePlacement program)
    (isTask : task ∈ program.tasks)
    (isHead : QueueHead (fifoPredecessors program.tasks) state task)
    (unreleased : state.sync.tables.syncAllReleaseDependencies task.taskId = none)
    (orderingCycle : Nat) :
    ∃ decision,
      state.sync.evaluateOperation task state.completed orderingCycle = .ok decision ∧
        decision.readyCycle =
          (readyCycle (endCycle? state.completed)
            (syncNeeds program state.sync task)).map (max orderingCycle ·) := by
  have nonblocking : state.sync.config.flagBlocking = false := by
    rw [fired.accepted.config]
  unfold syncNeeds evaluateOperation
  rw [unreleased]
  cases operation : task.operation with
  | setFlag =>
    refine ⟨{ readyCycle := some orderingCycle }, ?_, by simp [readyCycle]⟩
    simp [evaluateLocalSet, nonblocking]
  | setCrossFlag =>
    refine ⟨{ readyCycle := some orderingCycle }, ?_, by simp [readyCycle]⟩
    simp [evaluateCrossSet, nonblocking]
  | waitFlag =>
    have validated := fired.accepted.task_validated isTask
    obtain ⟨src, dst, flagId, _, _, _, keyed⟩ :=
      localFlag_operands validated (by simp [isLocalFlagEvent, operation])
    have keys : [FlagKey.localFlag task.coreId task.lane (.pipe src) (.pipe dst) flagId] =
        state.sync.waitKeys task := by
      simp [waitKeys, operation, keyed, Except.toOption]
    simp only [keyed, keys]
    exact ⟨_, rfl, fired.evaluateCredits_ready placement isTask isHead .localFlag orderingCycle⟩
  | waitCrossFlag =>
    simp only [evaluateCrossWait]
    rcases fired.accepted.crossWait_cases isTask operation with
        ⟨moded, uncounted⟩ | ⟨moded, uncounted, keyed⟩ |
          ⟨mode, key, collective, moded, keyed, counted⟩
    · simp only [moded]
      exact ⟨_, rfl, by simp [SyncDecision.blockedBy, readyCycle]⟩
    · simp only [moded, uncounted, keyed]
      exact ⟨_, rfl, fired.evaluateCredits_ready placement isTask isHead .crossFlag orderingCycle⟩
    · obtain ⟨decision, evaluated, ready⟩ :=
        fired.evaluateCollective_ready placement isTask isHead keyed counted orderingCycle
      refine ⟨decision, ?_, ?_⟩
      · simp only [moded]
        cases mode with
        | mode2 => exact absurd rfl collective
        | mode0 => exact evaluated
        | mode1 => exact evaluated
      · simp only [moded, counted]
        exact ready
  | barrierAll | pipeBarrier | syncAll =>
    refine ⟨_, rfl, ?_⟩
    simp only [readyCycle_completed, evaluateBarrier]
    split
    · rfl
    · simp [max_comm]
  | other name => exact ⟨_, rfl, by simp [readyCycle]⟩

/-- The decision of the model is a function of what the task needs. -/
theorem Fires.evaluate_ready (placement : BridgePlacement program)
    (free : OrderFree program state.sync) (isTask : task ∈ program.tasks)
    (isHead : QueueHead (fifoPredecessors program.tasks) state task) :
    ∃ decision,
      state.sync.evaluate task state.completed = .ok decision ∧
        decision.readyCycle =
          readyCycle (endCycle? state.completed)
            ((syncNeeds program state.sync task).map
              (state.sync.tables.orderingDependencies task.taskId ++ ·)) := by
  rw [readyCycle_append, readyCycle_completed]
  unfold evaluate
  by_cases missing :
      anyMissing state.completed (state.sync.tables.orderingDependencies task.taskId)
  · simp only [missing, ↓reduceIte]
    exact ⟨_, rfl, rfl⟩
  · simp only [missing, Bool.false_eq_true, ↓reduceIte, Option.bind_some]
    cases released : state.sync.tables.syncAllReleaseDependencies task.taskId with
    | none => exact fired.evaluateOperation_ready placement isTask isHead released _
    | some key =>
      refine ⟨_, rfl, ?_⟩
      simp only [syncNeeds, released]
      exact fired.evaluateRelease_ready free key _

end

end Decisions

/-! ## Updates fail only at a limit -/

/-- Errors that report a channel at its credit limit. -/
def ValidationFailure.isOverflow : ValidationFailure → Bool
  | .overflowedCredits _ => true
  | .overflowedPhases _ => true
  | _ => false

variable {task : Task} {syncConfig : SyncConfig} {program : KernelProgram}
  {model : FlagBarrierModel} {mode : CrossMode} {key : CollectiveKey}

/-- A task of vector kind runs on one of the two vector lanes. -/
theorem lane_of_vectorKind (kinded : laneKindOf task = .ok .vector) :
    task.lane = .vector0 ∨ task.lane = .vector1 := by
  unfold laneKindOf at kinded
  split at kinded
  all_goals simp_all [reject]

/-- A task of cube kind runs on the cube lane. -/
theorem lane_of_cubeKind (kinded : laneKindOf task = .ok .cube) : task.lane = .cube := by
  unfold laneKindOf at kinded
  split at kinded
  all_goals simp_all [reject]

/-- A cross task takes part in its own collective. -/
theorem AcceptedModel.collective_participates
    (accepted : AcceptedModel syncConfig program model) (isTask : task ∈ program.tasks)
    (isCross : task.operation = .setCrossFlag ∨ task.operation = .waitCrossFlag)
    (modeOne : mode = .mode1 → laneKindOf task = .ok .vector)
    (keyed : collectiveKey task mode = .ok key) :
    task.participant ∈ collectiveParticipants model.coreIds key := by
  have inCores := accepted.mem_coreIds isTask
  obtain ⟨flagId, kind, flagged, kinded⟩ := accepted.cross_operands isTask isCross
  cases mode with
  | mode0 =>
    simp only [collectiveKey, flagged, kinded, Except.ok.injEq] at keyed
    subst keyed
    cases kind with
    | cube => simp [collectiveParticipants, Task.participant, lane_of_cubeKind kinded, inCores]
    | vector =>
      simp only [collectiveParticipants, List.mem_flatMap, Lane.vectorLanes, List.map_cons,
        List.map_nil, List.mem_cons, List.not_mem_nil, or_false]
      refine ⟨task.coreId, inCores, ?_⟩
      rcases lane_of_vectorKind kinded with onLane | onLane
      · exact Or.inl (by rw [Task.participant, onLane])
      · exact Or.inr (by rw [Task.participant, onLane])
  | mode1 =>
    simp only [collectiveKey, flagged, kinded, Except.ok.injEq] at keyed
    subst keyed
    simp only [collectiveParticipants, Lane.vectorLanes, List.map_cons, List.map_nil,
      List.mem_cons, List.not_mem_nil, or_false]
    rcases lane_of_vectorKind (modeOne rfl) with onLane | onLane
    · exact Or.inl (by rw [Task.participant, onLane])
    · exact Or.inr (by rw [Task.participant, onLane])
  | mode2 => simp [collectiveKey, flagged, kinded, reject] at keyed

/-- A collective set comes from a participant of its collective. -/
theorem AcceptedModel.set_participates (accepted : AcceptedModel syncConfig program model)
    (isTask : task ∈ program.tasks) (isSet : task.operation = .setCrossFlag)
    (moded : crossModeOf task = .ok mode) (keyed : collectiveKey task mode = .ok key) :
    task.participant ∈ collectiveParticipants model.coreIds key := by
  obtain ⟨foundMode, foundModed, modeOne⟩ := accepted.cross_mode isTask isSet
  rw [moded, Except.ok.injEq] at foundModed
  subst foundModed
  exact accepted.collective_participates isTask (Or.inl isSet) modeOne keyed

/-- An update succeeds, or reports a channel at its limit. -/
def SucceedsOrOverflows {α : Type} (task : Task) (outcome : Except SimError α) : Prop :=
  (∃ result, outcome = .ok result) ∨
    ∃ failure, outcome = .error (.validation task.taskId failure) ∧ failure.isOverflow = true

section Updates

variable {config : SimulatorConfig} {program : KernelProgram} {log : List Task}
  {state : RunState FlagBarrierModel} {task : Task}

/-- Placing a cross set never fails but for an overflow. -/
theorem AcceptedModel.onCrossSet_succeeds {model : FlagBarrierModel}
    {syncConfig : SyncConfig} (accepted : AcceptedModel syncConfig program model)
    (isTask : task ∈ program.tasks) (isSet : task.operation = .setCrossFlag)
    (credit : Credit) : SucceedsOrOverflows task (model.onCrossSet task credit) := by
  obtain ⟨flagId, kind, flagged, kinded⟩ := accepted.cross_operands isTask (Or.inl isSet)
  obtain ⟨mode, moded, _⟩ := accepted.cross_mode isTask isSet
  by_cases isMode2 : mode = .mode2
  · subst isMode2
    obtain ⟨keys, keyed⟩ := crossSetKeysMode2_ok flagged kinded
    simp only [onCrossSet, moded, keyed]
    cases pushed : forKeys (pushCredit model.config task true credit) model.state keys with
    | ok updated => exact Or.inl ⟨updated, rfl⟩
    | error failure =>
      obtain ⟨key, _, failureIs, _⟩ := forKeys_push_error (crossSetKeysMode2_nodup keyed) pushed
      exact Or.inr ⟨.overflowedCredits key, by rw [failureIs], rfl⟩
  · obtain ⟨key, keyed⟩ := collectiveKey_ok mode isMode2 flagged kinded
    have participates := accepted.set_participates isTask isSet moded keyed
    have collective : model.onCrossSet task credit = model.onCollectiveSet task mode credit := by
      cases mode with
      | mode2 => exact absurd rfl isMode2
      | _ => simp only [onCrossSet, moded]
    rw [collective]
    simp only [onCollectiveSet, keyed, participates, not_true_eq_false, ↓reduceIte]
    split
    · exact Or.inr ⟨.overflowedPhases key, rfl, rfl⟩
    · exact Or.inl ⟨_, rfl⟩

/-- Placing a sync_all never fails: its participant has not arrived in this phase. -/
theorem Fires.onSyncAll_succeeds
    (fired : Fires (flagBarrierSynchronizationModel {}) config program log state)
    (isTask : task ∈ program.tasks) (fresh : state.completed task.taskId = none)
    (isSyncAll : task.operation = .syncAll) (credit : Credit) :
    ∃ updated, state.sync.onSyncAll task credit = .ok updated := by
  obtain ⟨before, after, shape⟩ := List.mem_iff_append.mp isTask
  obtain ⟨found⟩ := fired.entries shape
  obtain ⟨key, _, phased⟩ := found.phase isSyncAll
  have unregistered :
      ((syncAllTaskParticipants task key.scope).any fun participant =>
        (state.sync.state.syncAllArrivals (key, participant)).isSome) = false := by
    rw [List.any_eq_false]
    intro participant joins registered
    obtain ⟨arrival, arrived⟩ := Option.isSome_iff_exists.mp registered
    obtain ⟨origin, inLog, originArrives, record, done, _⟩ := fired.arrival_origin arrived
    have same :=
      arrivesAt_unique fired.accepted (fired.log_mem inLog) isTask originArrives
        ⟨isSyncAll, phased, joins⟩
    rw [same, fresh] at done
    cases done
  simp only [onSyncAll, phased, unregistered, Bool.false_eq_true, ↓reduceIte]
  exact ⟨_, rfl⟩

/-- Placing a released task never fails but for an overflow. -/
theorem Fires.onScheduled_succeeds
    (fired : Fires (flagBarrierSynchronizationModel {}) config program log state)
    (free : OrderFree program state.sync) (isTask : task ∈ program.tasks)
    (fresh : state.completed task.taskId = none) {decision : SyncDecision} {cycle : Nat}
    (evaluated : state.sync.evaluate task state.completed = .ok decision)
    (released : decision.readyCycle = some cycle) (record : ExecutionRecord) :
    SucceedsOrOverflows task (state.sync.onScheduled task record) := by
  -- A wait for credits is not let through by a `sync_all`, so it finds its credits.
  have uncountedWait :
      isWait task = true →
      state.sync.waitPhase? task = none →
      ∃ updated, state.sync.onScheduled task record = .ok updated := by
    intro waits uncounted
    obtain ⟨before, after, shape⟩ := List.mem_iff_append.mp isTask
    have unreleased := free.waitsUnreleased task isTask waits uncounted
    rw [KernelProgram.earlierTasks_eq shape] at unreleased
    have operation :=
      (evaluate_released evaluated released).operation (fired.release_none shape unreleased)
    exact (evaluateOperation_wait waits operation released).2 record
  cases operation : task.operation with
  | setFlag =>
    have validated := fired.accepted.task_validated isTask
    obtain ⟨src, dst, flagId, _, _, _, keyed⟩ :=
      localFlag_operands validated (by simp [isLocalFlagEvent, operation])
    simp only [onScheduled, operation, keyed, pushCredit, Bool.false_and,
      Bool.false_eq_true, ↓reduceIte]
    exact Or.inl ⟨_, rfl⟩
  | setCrossFlag =>
    simp only [onScheduled, operation]
    exact fired.accepted.onCrossSet_succeeds isTask operation _
  | waitFlag =>
    refine Or.inl (uncountedWait (by simp [isWait, operation]) ?_)
    simp [waitPhase?, auditedCollective, operation]
  | waitCrossFlag =>
    have waits : isWait task = true := by simp [isWait, operation]
    rcases fired.accepted.crossWait_cases isTask operation with
        ⟨_, uncounted⟩ | ⟨_, uncounted, _⟩ | ⟨mode, key, collective, moded, keyed, _⟩
    · exact Or.inl (uncountedWait waits uncounted)
    · exact Or.inl (uncountedWait waits uncounted)
    · cases mode with
      | mode2 => exact absurd rfl collective
      | _ =>
        simp only [onScheduled, operation, onCrossWait, moded, keyed]
        exact Or.inl ⟨_, rfl⟩
  | syncAll =>
    simp only [onScheduled, operation]
    exact Or.inl (fired.onSyncAll_succeeds isTask fresh operation _)
  | barrierAll | pipeBarrier | other =>
    refine Or.inl ⟨state.sync.state, ?_⟩
    simp only [onScheduled, operation]

end Updates

/-! ## The scheduler follows the needs -/

section Needs

variable {config : SimulatorConfig} {program : KernelProgram} {log : List Task}
  {state : RunState FlagBarrierModel} {task : Task}

/-- What a task needs splits into dependencies, FIFO predecessor and synchronization. -/
theorem readyCycle_taskNeeds (program : KernelProgram) (model : FlagBarrierModel)
    (completed : Completed) (task : Task) :
    readyCycle (endCycle? completed) (taskNeeds program model task) =
      if anyMissing completed
          (executionDependencies task ++ (fifoPredecessors program.tasks task.taskId).toList) then
        none
      else
        (readyCycle (endCycle? completed)
          ((syncNeeds program model task).map
            (model.tables.orderingDependencies task.taskId ++ ·))).map
          (max (maxEnd completed
            (executionDependencies task ++
              (fifoPredecessors program.tasks task.taskId).toList)) ·) := by
  have grouped :
      taskNeeds program model task =
        ((syncNeeds program model task).map
          (model.tables.orderingDependencies task.taskId ++ ·)).map
          ((executionDependencies task ++
            (fifoPredecessors program.tasks task.taskId).toList) ++ ·) := by
    rw [taskNeeds, Option.map_map]
    congr 1
    funext needed
    simp [queueNeeds]
  rw [grouped, readyCycle_append, readyCycle_completed]
  split
  · rfl
  · rfl

/-- What an attempt does with a task, as far as its needs decide. -/
inductive AttemptFollows
    (program : KernelProgram)
    (state : RunState FlagBarrierModel)
    (task : Task) :
    Except SimError (Option (RunState FlagBarrierModel)) → Prop where
  | pending :
      readyCycle (endCycle? state.completed) (taskNeeds program state.sync task) = none →
      AttemptFollows program state task (.ok none)
  | placed {cycle : Nat} {record : ExecutionRecord} {next : RunState FlagBarrierModel} :
      readyCycle (endCycle? state.completed) (taskNeeds program state.sync task) = some cycle →
      record.endCycle = cycle + task.durationCycles →
      next.completed = Function.update state.completed task.taskId (some record) →
      AttemptFollows program state task (.ok (some next))
  | overflows {failure : ValidationFailure} :
      failure.isOverflow = true →
      AttemptFollows program state task (.error (.validation task.taskId failure))

/-- An attempt places the task at the cycle its needs allow, or is blocked by a missing one. -/
theorem Fires.attempt_follows
    (fired : Fires (flagBarrierSynchronizationModel {}) config program log state)
    (unbounded : config.maxCycles = none) (placement : BridgePlacement program)
    (free : OrderFree program state.sync) (isTask : task ∈ program.tasks)
    (fresh : state.completed task.taskId = none) :
    AttemptFollows program state task
      (attempt (flagBarrierSynchronizationModel {}) config
        (fifoPredecessors program.tasks) state task) := by
  by_cases missing :
      anyMissing state.completed
        (executionDependencies task ++ (fifoPredecessors program.tasks task.taskId).toList)
  · have blocked :
        attempt (flagBarrierSynchronizationModel {}) config
          (fifoPredecessors program.tasks) state task = .ok none := by
      simp [attempt, fresh, missing]
    rw [blocked]
    refine .pending ?_
    rw [readyCycle_taskNeeds, if_pos missing]
  · have inputsReady :
        anyMissing state.completed
          (executionDependencies task ++
            (fifoPredecessors program.tasks task.taskId).toList) = false := by
      simpa using missing
    have isHead : QueueHead (fifoPredecessors program.tasks) state task := by
      refine ⟨fresh, ?_⟩
      intro predecessor queued
      exact anyMissing_eq_false.mp inputsReady predecessor (by simp [queued])
    obtain ⟨decision, evaluated, ready⟩ := fired.evaluate_ready placement free isTask isHead
    have needs := readyCycle_taskNeeds program state.sync state.completed task
    rw [if_neg missing, ← ready] at needs
    cases released : decision.readyCycle with
    | none =>
      have blocked :
          attempt (flagBarrierSynchronizationModel {}) config
            (fifoPredecessors program.tasks) state task = .ok none := by
        simp [attempt, fresh, missing, flagBarrierSynchronizationModel, evaluated, released]
      rw [blocked]
      refine .pending ?_
      rw [needs, released]
      rfl
    | some cycle =>
      rw [released, Option.map_some] at needs
      have inTime :
          config.maxCycles.any (· <
            (operationRecord state.completed task
              (fifoPredecessors program.tasks task.taskId) decision
              (placementOf state.completed (fifoPredecessors program.tasks) task
                cycle)).endCycle) = false := by
        rw [unbounded]
        rfl
      rw [attempt_of_released fresh inputsReady evaluated released inTime]
      rcases fired.onScheduled_succeeds free isTask fresh evaluated released
          (operationRecord state.completed task
            (fifoPredecessors program.tasks task.taskId) decision
            (placementOf state.completed (fifoPredecessors program.tasks) task cycle)) with
          ⟨updated, succeeds⟩ | ⟨failure, fails, overflows⟩
      · simp only [flagBarrierSynchronizationModel, succeeds, Except.map]
        refine .placed needs ?_ rfl
        simp only [operationRecord, placementOf, Placement.startCycle,
          Placement.readyCycle, maxEnd_append]
        omega
      · simp only [flagBarrierSynchronizationModel, fails, Except.map]
        exact .overflows overflows

end Needs

/-! ## Firing sequences as runs over the needs -/

/-- Needs of the task with an identifier. -/
def needsOf (program : KernelProgram) (model : FlagBarrierModel) (taskId : TaskId) :
    Option (List TaskId) :=
  (program.tasks.find? (·.taskId = taskId)).bind (taskNeeds program model)

/-- Duration of the task with an identifier. -/
def durationOf (program : KernelProgram) (taskId : TaskId) : Nat :=
  ((program.tasks.find? (·.taskId = taskId)).map Task.durationCycles).getD 0

/-- Two models of one accepted program differ in their state only. -/
theorem AcceptedModel.eq_withState {first second : FlagBarrierModel}
    (firstAccepted : AcceptedModel syncConfig program first)
    (secondAccepted : AcceptedModel syncConfig program second) :
    second = first.withState second.state := by
  have sameTables : first.tables = second.tables := by
    have built := firstAccepted.built
    rw [secondAccepted.built, Except.ok.injEq] at built
    exact built.symm
  have sameConfig := secondAccepted.config.trans firstAccepted.config.symm
  have sameTasks := secondAccepted.tasks.trans firstAccepted.tasks.symm
  have sameCoreIds := secondAccepted.coreIds.trans firstAccepted.coreIds.symm
  have sameModes := secondAccepted.crossWaitModes.trans firstAccepted.crossWaitModes.symm
  cases first
  cases second
  cases sameConfig
  cases sameTasks
  cases sameCoreIds
  cases sameModes
  cases sameTables
  rfl

section Scheduling

variable {config : SimulatorConfig} {program : KernelProgram} {model : FlagBarrierModel}
  {log : List Task} {state : RunState FlagBarrierModel}

/-- The condition is about the program: a run keeps it. -/
theorem OrderFree.along (free : OrderFree program model)
    (accepted : AcceptedModel {} program model)
    (fired : Fires (flagBarrierSynchronizationModel {}) config program log state) :
    OrderFree program state.sync := by
  rw [accepted.eq_withState fired.accepted]
  exact ⟨free.waitsUnreleased, free.joinsExpected⟩

/-- What a task needs does not change along a run. -/
theorem AcceptedModel.taskNeeds_eq (accepted : AcceptedModel {} program model)
    (fired : Fires (flagBarrierSynchronizationModel {}) config program log state)
    (task : Task) : taskNeeds program state.sync task = taskNeeds program model task := by
  rw [accepted.eq_withState fired.accepted]
  rfl

/-- The cycles of every firing sequence follow from the needs alone. -/
theorem Fires.runs (unbounded : config.maxCycles = none)
    (placement : BridgePlacement program) (accepted : AcceptedModel {} program model)
    (free : OrderFree program model)
    (fired : Fires (flagBarrierSynchronizationModel {}) config program log state) :
    Runs (needsOf program model) (durationOf program) (endCycle? state.completed) := by
  induction fired with
  | initial => exact Runs.start
  | @place earlierLog earlierState next task earlier isTask placed ih =>
    obtain ⟨step⟩ := attempt_placed placed
    have follows :=
      earlier.attempt_follows unbounded placement (free.along accepted earlier) isTask step.fresh
    rw [placed] at follows
    cases follows with
    | @placed cycle record _ ready ends nextShape =>
      have updated :
          endCycle? next.completed =
            Function.update (endCycle? earlierState.completed) task.taskId
              (some (cycle + durationOf program task.taskId)) := by
        funext taskId
        rw [nextShape]
        by_cases same : taskId = task.taskId
        · subst same
          simp [endCycle?, ends, durationOf, find?_taskId isTask]
        · simp [endCycle?, same]
      rw [updated]
      refine Runs.place ih (by simp [endCycle?, step.fresh]) ?_
      rw [needsOf, find?_taskId isTask, Option.bind_some, ← accepted.taskNeeds_eq earlier]
      exact ready

/-- When no attempt succeeds, every pending task misses something it needs. -/
theorem Fires.needs_missing (unbounded : config.maxCycles = none)
    (placement : BridgePlacement program) (accepted : AcceptedModel {} program model)
    (free : OrderFree program model)
    (fired : Fires (flagBarrierSynchronizationModel {}) config program log state)
    (idle :
      ∀ task ∈ program.tasks,
        attempt (flagBarrierSynchronizationModel {}) config
          (fifoPredecessors program.tasks) state task = .ok none)
    {taskId : TaskId}
    (hasNeeds : (needsOf program model taskId).isSome)
    (fresh : endCycle? state.completed taskId = none) :
    readyCycle (endCycle? state.completed) (needsOf program model taskId) = none := by
  cases found : program.tasks.find? (·.taskId = taskId) with
  | none => simp [needsOf, found] at hasNeeds
  | some task =>
    have isTask := List.mem_of_find?_eq_some found
    have identified : task.taskId = taskId := by
      simpa using List.find?_some found
    have taskFresh : state.completed task.taskId = none := by
      simpa [endCycle?, identified] using fresh
    have follows :=
      fired.attempt_follows unbounded placement (free.along accepted fired) isTask taskFresh
    rw [idle task isTask] at follows
    cases follows with
    | pending missing =>
      rw [accepted.taskNeeds_eq fired] at missing
      simpa [needsOf, found] using missing

/-- The check of the task list for duplicates and unknown dependencies passes. -/
theorem validateDependencies_ok (program : KernelProgram) :
    validateDependencies program.tasks = .ok () := by
  unfold validateDependencies
  split
  · rename_i task found
    have unknown := List.find?_some found
    simp only [List.any_eq_true, decide_eq_true_eq] at unknown
    obtain ⟨dependency, member, unknown⟩ := unknown
    exact absurd
      (program.dependenciesKnown task (List.mem_of_find?_eq_some found) dependency member)
      unknown
  · rfl

/-- How scheduling ends when it follows the needs. -/
inductive ScheduleEnds
    (config : SimulatorConfig)
    (program : KernelProgram) :
    Except SimError (RunState FlagBarrierModel) → Prop where
  | completes {log : List Task} {final : RunState FlagBarrierModel} :
      Fires (flagBarrierSynchronizationModel {}) config program log final →
      (∀ task ∈ program.tasks, task ∈ log) →
      ScheduleEnds config program (.ok final)
  | deadlocks {log : List Task} {state : RunState FlagBarrierModel} {pending : List TaskId} :
      Fires (flagBarrierSynchronizationModel {}) config program log state →
      Deadlocked (flagBarrierSynchronizationModel {}) config program state →
      ScheduleEnds config program (.error (.deadlock pending))
  | overflows {taskId : TaskId} {failure : ValidationFailure} :
      failure.isOverflow = true →
      ScheduleEnds config program (.error (.validation taskId failure))

/-- A run ends with all tasks placed, with none placeable, or with an overflow. -/
theorem scheduleState_ends (platform : config.platform = program.platform)
    (unbounded : config.maxCycles = none) (detects : config.deadlockDetect = true)
    (placement : BridgePlacement program) (accepted : reset {} program = .ok model)
    (free : OrderFree program model) :
    ScheduleEnds config program
      (scheduleState (flagBarrierSynchronizationModel {}) config program) := by
  have started :
      scheduleState (flagBarrierSynchronizationModel {}) config program =
        scheduleLoop (flagBarrierSynchronizationModel {}) config program.tasks
          program.tasks.length (RunState.initial model) := by
    have resets : (flagBarrierSynchronizationModel {}).reset program = .ok model := accepted
    simp [scheduleState, platform, validateDependencies_ok, resets]
  have acceptedModel := (reset_accepted accepted).1
  cases scheduled : scheduleState (flagBarrierSynchronizationModel {}) config program with
  | ok final =>
    obtain ⟨log, fired, complete⟩ := scheduleState_fires scheduled
    exact .completes fired complete
  | error failure =>
    rw [started] at scheduled
    have initial :
        Fires (flagBarrierSynchronizationModel {}) config program [] (RunState.initial model) :=
      Fires.initial accepted
    obtain ⟨log, reached, fired, ⟨task, isTask, fails⟩ | ⟨deadlocked, isDeadlock⟩⟩ :=
      scheduleLoop_error initial (by simp) scheduled
    · have taskFresh : reached.completed task.taskId = none := by
        by_contra done
        have isDone : (reached.completed task.taskId).isSome := by
          rwa [← Option.ne_none_iff_isSome]
        simp [attempt, isDone] at fails
      have follows :=
        fired.attempt_follows unbounded placement (free.along acceptedModel fired) isTask taskFresh
      rw [fails] at follows
      cases follows with
      | overflows overflows => exact .overflows overflows
    · rw [isDeadlock detects]
      exact .deadlocks fired deadlocked

end Scheduling

end TilelangAscend.Simulator
