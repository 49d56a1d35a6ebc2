import TilelangAscend.CoreOrder

namespace TilelangAscend.Simulator

open FlagBarrierModel

/-!
# The flag audit counts the program

`audit_flag_balance` looks at what is left in queues, phase lists and arrivals at the end of a
run.  In a completed run every task has fired once, so what is left is the difference of the
numbers of sets and waits in the program, and the audit is a statement about the program.
-/

section Balance

variable (program : KernelProgram) (model : FlagBarrierModel)

/-- A queue with another number of sets than waits in the program. -/
def QueueUnbalanced (key : FlagKey) : Prop :=
  program.tasks.countP (feeds key) ≠ program.tasks.countP (model.drainsQueue key)

/-- A local channel with another number of sets than waits. -/
def LocalUnbalanced : Prop :=
  ∃ coreId lane src dst flagId,
    QueueUnbalanced program model (.localFlag coreId lane src dst flagId)

/-- A mode-2 channel that has a waiter, with unequal numbers produced and consumed. -/
def CrossUnbalanced : Prop :=
  ∃ coreId direction lane flagId,
    (∃ wait ∈ program.tasks,
        model.drainsQueue (.crossFlag coreId direction lane flagId) wait = true) ∧
      QueueUnbalanced program model (.crossFlag coreId direction lane flagId)

/-- A collective participant that waits, with unequal numbers produced and consumed. -/
def CollectiveUnbalanced : Prop :=
  ∃ entry,
    (∃ wait ∈ program.tasks, model.waitPhase? wait = some entry) ∧
      (program.tasks.countP fun set => setPhase? set = some entry) ≠
        program.tasks.countP fun wait => model.waitPhase? wait = some entry

/-- A `sync_all` phase to which no call brings one of its participants. -/
def ArrivalMissing : Prop :=
  ∃ call ∈ program.tasks, ∃ key,
    model.tables.syncAllTaskPhase call.taskId = some key ∧
      ∃ participant ∈ syncAllParticipants model.coreIds key.scope,
        ∀ other ∈ program.tasks, ¬ model.arrivesAt other (key, participant)

/-- What the audit of a completed run reports, as counts over the program. -/
def FlagsUnbalanced : Prop :=
  LocalUnbalanced program model ∨ CrossUnbalanced program model ∨
    CollectiveUnbalanced program model ∨
    ArrivalMissing program model

end Balance

/-! ## Declared modes of waits -/

section Modes

variable {syncConfig : SyncConfig} {program : KernelProgram} {model : FlagBarrierModel}
  {mode : CrossMode} {wait set : Task} {kind : LaneKind}

theorem AcceptedModel.declared_of_crossWaitMode
    (accepted : AcceptedModel syncConfig program model) {flagId : Int}
    (flagged : flagIdOf wait = .ok flagId) (kinded : laneKindOf wait = .ok kind)
    (moded : model.crossWaitMode wait = .ok (some mode)) :
    ∃ set ∈ program.tasks, ∃ core,
      (core = some wait.coreId ∨ core = none) ∧
        declaredWaitMode set = some (⟨flagId, kind, core⟩, mode) := by
  have declared :
      ∀ core, model.crossWaitModes ⟨flagId, kind, core⟩ = some mode →
        ∃ set ∈ program.tasks, declaredWaitMode set = some (⟨flagId, kind, core⟩, mode) := by
    intro core found
    rw [accepted.crossWaitModes] at found
    exact mem_waitModes.mp (List.mem_of_mem_head? found)
  simp only [crossWaitMode, flagged, kinded] at moded
  split at moded
  · rename_i inCore globally inCoreFound globallyFound
    split at moded
    · rw [Except.ok.injEq, Option.some.injEq] at moded
      subst moded
      obtain ⟨set, isTask, declares⟩ := declared _ inCoreFound
      exact ⟨set, isTask, _, Or.inl rfl, declares⟩
    · cases moded
  · rename_i inCore inCoreFound globallyFound
    rw [Except.ok.injEq, Option.some.injEq] at moded
    subst moded
    obtain ⟨set, isTask, declares⟩ := declared _ inCoreFound
    exact ⟨set, isTask, _, Or.inl rfl, declares⟩
  · rename_i globally inCoreFound
    rw [Except.ok.injEq] at moded
    obtain ⟨set, isTask, declares⟩ := declared _ moded
    exact ⟨set, isTask, _, Or.inr rfl, declares⟩

theorem declaredWaitMode_some {key : WaitModeKey}
    (declares : declaredWaitMode set = some (key, mode)) :
    set.operation = .setCrossFlag ∧ flagIdOf set = .ok key.flagId ∧
      crossModeOf set = .ok mode ∧
      crossTargetKind mode set = .ok key.kind ∧
      key.core = if mode = .mode0 then none else some set.coreId := by
  unfold declaredWaitMode at declares
  split at declares
  · rename_i flagId setMode isSet flagged moded
    split at declares
    · rename_i kind targets
      rw [Option.some.injEq, Prod.mk.injEq] at declares
      obtain ⟨rfl, rfl⟩ := declares
      exact ⟨isSet, flagged, moded, targets, rfl⟩
    · cases declares
  · cases declares

theorem laneKindOf_of_crossTargetKind (collective : mode ≠ .mode2)
    (targets : crossTargetKind mode set = .ok kind) : laneKindOf set = .ok kind := by
  cases mode with
  | mode2 => exact absurd rfl collective
  | _ =>
    unfold crossTargetKind at targets
    split at targets
    · cases ‹_ = CrossMode.mode2›
    · cases ‹_ = CrossMode.mode2›
    · exact targets

theorem AcceptedModel.collectiveWait_declared
    (accepted : AcceptedModel syncConfig program model) (isTask : wait ∈ program.tasks)
    {entry : CollectiveKey × Participant} (advances : model.waitPhase? wait = some entry) :
    (∃ set ∈ program.tasks,
        set.operation = .setCrossFlag ∧
          ∃ mode, crossModeOf set = .ok mode ∧ collectiveKey set mode = .ok entry.1) ∧
      entry.2 ∈ collectiveParticipants model.coreIds entry.1 := by
  obtain ⟨isCrossWait, sameParticipant⟩ := crossWait_of_waitPhase advances
  obtain ⟨flagId, kind, flagged, kinded⟩ := accepted.cross_operands isTask (Or.inr isCrossWait)
  rcases accepted.crossWait_cases isTask isCrossWait with
    ⟨_, missing⟩ | ⟨_, missing, _⟩ | ⟨mode, key, collective, moded, keyed, phased⟩
  · rw [missing] at advances
    cases advances
  · rw [missing] at advances
    cases advances
  · rw [phased, Option.some.injEq] at advances
    subst advances
    obtain ⟨set, setIsTask, core, fromCore, declares⟩ :=
      accepted.declared_of_crossWaitMode flagged kinded moded
    obtain ⟨isSet, setFlagged, setModed, targets, declaredCore⟩ := declaredWaitMode_some declares
    have setKinded := laneKindOf_of_crossTargetKind collective targets
    simp only at setFlagged setKinded declaredCore
    obtain ⟨_, foundModed, modeOne⟩ := accepted.cross_mode setIsTask isSet
    rw [setModed, Except.ok.injEq] at foundModed
    subst foundModed
    have waitModeOne : mode = .mode1 → laneKindOf wait = .ok .vector := by
      intro isModeOne
      have vectorSet := modeOne isModeOne
      rw [setKinded] at vectorSet
      rw [kinded, Except.ok.inj vectorSet]
    refine ⟨⟨set, setIsTask, isSet, mode, setModed, ?_⟩, ?_⟩
    · rw [← keyed]
      cases mode with
      | mode0 => simp only [collectiveKey, setFlagged, setKinded, flagged, kinded]
      | mode1 =>
        have sameCore : set.coreId = wait.coreId := by
          rcases fromCore with inCore | globally
          · rw [inCore] at declaredCore
            simpa using declaredCore.symm
          · rw [globally] at declaredCore
            simp at declaredCore
        simp only [collectiveKey, setFlagged, setKinded, flagged, kinded, sameCore]
      | mode2 => exact absurd rfl collective
    · exact accepted.collective_participates isTask (Or.inr isCrossWait) waitModeOne keyed

end Modes

/-! ## What a completed run leaves -/

section Leftovers

variable {syncConfig : SyncConfig} {config : SimulatorConfig} {program : KernelProgram}
  {log : List Task} {state : RunState FlagBarrierModel}

section

variable (fired : Fires (flagBarrierSynchronizationModel syncConfig) config program log state)
  (complete : ∀ task ∈ program.tasks, task ∈ log)
include fired complete

theorem Fires.tokens_ne_nil_iff (key : FlagKey) :
    state.sync.state.tokens key ≠ [] ↔ QueueUnbalanced program state.sync key := by
  obtain ⟨queue, drained⟩ := fired.tokens_eq key
  have logPerm := fired.log_perm complete
  have remaining :
      (state.sync.state.tokens key).length =
        program.tasks.countP (feeds key) - program.tasks.countP (state.sync.drainsQueue key) := by
    rw [queue, List.length_drop, List.length_map, ← List.countP_eq_length_filter,
      logPerm.countP_eq, logPerm.countP_eq]
  rw [logPerm.countP_eq, logPerm.countP_eq] at drained
  rw [← List.length_pos_iff, remaining, QueueUnbalanced]
  omega

theorem Fires.exists_feeds {key : FlagKey} (unbalanced : QueueUnbalanced program state.sync key) :
    ∃ set ∈ program.tasks, feeds key set = true := by
  have drained := (fired.tokens_eq key).2
  have logPerm := fired.log_perm complete
  rw [logPerm.countP_eq, logPerm.countP_eq] at drained
  rw [QueueUnbalanced] at unbalanced
  have fed : 0 < program.tasks.countP (feeds key) := by omega
  exact List.countP_pos_iff.mp fed

theorem Fires.phases_count (entry : CollectiveKey × Participant) :
    (state.sync.state.collectiveReady entry).length =
        program.tasks.countP (fun set => setPhase? set = some entry) ∧
      state.sync.state.collectiveWaitPhase entry =
        program.tasks.countP fun wait => state.sync.waitPhase? wait = some entry := by
  obtain ⟨produced, consumed⟩ := fired.collective_eq entry
  have logPerm := fired.log_perm complete
  constructor
  · rw [produced, List.length_map, ← List.countP_eq_length_filter, logPerm.countP_eq]
  · rw [consumed, logPerm.countP_eq]

theorem Fires.arrival_isNone_iff (entry : SyncAllKey × Participant) :
    (state.sync.state.syncAllArrivals entry).isNone = true ↔
      ∀ call ∈ program.tasks, ¬ state.sync.arrivesAt call entry := by
  constructor
  · intro missing call isTask arrives
    obtain ⟨credit, arrived⟩ := fired.arrived_of_mem (complete call isTask) arrives
    rw [arrived] at missing
    cases missing
  · intro noCall
    cases arrived : state.sync.state.syncAllArrivals entry with
    | none => rfl
    | some credit =>
      obtain ⟨call, inLog, arrives, _⟩ := fired.arrival_origin arrived
      exact absurd arrives (noCall call (fired.log_mem inLog))

end

/-! ## The three parts of the audit -/

section

variable (fired : Fires (flagBarrierSynchronizationModel syncConfig) config program log state)
  (complete : ∀ task ∈ program.tasks, task ∈ log)
include fired complete

theorem Fires.residualCredits_iff :
    (∃ task ∈ program.tasks, state.sync.residualCredits task = true) ↔
      LocalUnbalanced program state.sync ∨ CrossUnbalanced program state.sync := by
  have ownTasks := fired.accepted.tasks
  constructor
  · rintro ⟨task, isTask, residual⟩
    unfold residualCredits at residual
    split at residual
    · rename_i key isSet keyed
      have left : state.sync.state.tokens key ≠ [] := by simpa using residual
      rw [fired.tokens_ne_nil_iff complete] at left
      cases key with
      | localFlag coreId lane src dst flagId => exact Or.inl ⟨coreId, lane, src, dst, flagId, left⟩
      | crossFlag coreId direction lane flagId =>
        apply absurd _ (@localFlagKey_ne_crossFlag task coreId direction lane flagId)
        simp [keyed, Except.toOption]
    · rename_i keys isSet keyed
      simp only [List.any_eq_true, Bool.and_eq_true, Bool.not_eq_true', List.isEmpty_eq_false_iff,
        List.contains_iff_mem, List.mem_flatMap, ownTasks] at residual
      obtain ⟨key, inKeys, left, wait, waitIsTask, audited⟩ := residual
      rw [fired.tokens_ne_nil_iff complete] at left
      have drains : state.sync.drainsQueue key wait = true := by
        have isWait : wait.operation = .waitCrossFlag := by
          unfold auditedCrossKeys at audited
          split at audited
          · assumption
          · cases audited
        simpa [drainsQueue, waitKeys, isWait] using audited
      cases key with
      | localFlag coreId lane src dst flagId => exact Or.inl ⟨coreId, lane, src, dst, flagId, left⟩
      | crossFlag coreId direction lane flagId =>
        exact Or.inr ⟨coreId, direction, lane, flagId, ⟨wait, waitIsTask, drains⟩, left⟩
    · cases residual
  · rintro (⟨coreId, lane, src, dst, flagId, unbalanced⟩ |
      ⟨coreId, direction, lane, flagId, ⟨wait, waitIsTask, drains⟩, unbalanced⟩)
    · obtain ⟨set, isTask, fed⟩ := fired.exists_feeds complete unbalanced
      obtain ⟨isSet, keyed⟩ := localSet_of_feeds fed
      refine ⟨set, isTask, ?_⟩
      rw [← fired.tokens_ne_nil_iff complete] at unbalanced
      simpa [residualCredits, isSet, keyed] using unbalanced
    · obtain ⟨set, isTask, fed⟩ := fired.exists_feeds complete unbalanced
      obtain ⟨isSet, _, _⟩ := crossSet_of_feeds fed
      obtain ⟨isWait, _⟩ := crossWait_of_drains drains
      rw [← fired.tokens_ne_nil_iff complete] at unbalanced
      refine ⟨set, isTask, ?_⟩
      have member : FlagKey.crossFlag coreId direction lane flagId ∈ setKeys set := by
        simpa [feeds] using fed
      have audited :
          FlagKey.crossFlag coreId direction lane flagId ∈ state.sync.auditedCrossKeys wait := by
        simpa [drainsQueue, waitKeys, isWait] using drains
      simp only [setKeys, isSet] at member
      split at member
      · rename_i keys moded keyed
        simp only [residualCredits, isSet, moded, keyed, List.any_eq_true, Bool.and_eq_true,
          Bool.not_eq_true', List.isEmpty_eq_false_iff, List.contains_iff_mem, List.mem_flatMap,
          ownTasks]
        exact ⟨_, member, unbalanced, wait, waitIsTask, audited⟩
      · cases member

theorem Fires.residualPhases_iff :
    (∃ task ∈ program.tasks, state.sync.residualPhases task = true) ↔
      CollectiveUnbalanced program state.sync := by
  have ownTasks := fired.accepted.tasks
  constructor
  · rintro ⟨wait, isTask, residual⟩
    unfold residualPhases at residual
    split at residual
    · rename_i key audited
      simp only [Bool.and_eq_true, decide_eq_true_eq] at residual
      obtain ⟨produced, consumed⟩ := fired.phases_count complete (key, wait.participant)
      refine ⟨(key, wait.participant), ⟨wait, isTask, by simp [waitPhase?, audited]⟩, ?_⟩
      rw [← produced, ← consumed]
      exact residual.2
    · cases residual
  · rintro ⟨entry, ⟨wait, isTask, advances⟩, unbalanced⟩
    obtain ⟨⟨set, setIsTask, isSet, mode, moded, keyed⟩, participates⟩ :=
      fired.accepted.collectiveWait_declared isTask advances
    obtain ⟨produced, consumed⟩ := fired.phases_count complete entry
    rw [← produced, ← consumed] at unbalanced
    obtain ⟨key, audited, rfl⟩ := Option.map_eq_some_iff.mp advances
    refine ⟨wait, isTask, ?_⟩
    simp only [residualPhases, audited, Bool.and_eq_true, List.any_eq_true, decide_eq_true_eq,
      List.contains_iff_mem, ownTasks]
    refine ⟨⟨⟨set, setIsTask, isSet, ?_⟩, participates⟩, unbalanced⟩
    simp only [moded, keyed, Except.toOption, decide_eq_true_eq]

theorem Fires.residualArrivals_iff :
    (∃ task ∈ program.tasks, state.sync.residualArrivals task = true) ↔
      ArrivalMissing program state.sync := by
  constructor
  · rintro ⟨call, isTask, residual⟩
    unfold residualArrivals at residual
    split at residual
    · rename_i key phased
      obtain ⟨participant, expected, missing⟩ := List.any_eq_true.mp residual
      exact ⟨call, isTask, key, phased, participant, expected,
        (fired.arrival_isNone_iff complete _).mp missing⟩
    · cases residual
  · rintro ⟨call, isTask, key, phased, participant, expected, noCall⟩
    refine ⟨call, isTask, ?_⟩
    simp only [residualArrivals, phased, List.any_eq_true]
    exact ⟨participant, expected, (fired.arrival_isNone_iff complete _).mpr noCall⟩

theorem Fires.auditFlagBalance_iff :
    state.sync.auditFlagBalance = true ↔ FlagsUnbalanced program state.sync := by
  rw [FlagsUnbalanced, ← or_assoc, ← fired.residualCredits_iff complete,
    ← fired.residualPhases_iff complete, ← fired.residualArrivals_iff complete,
    auditFlagBalance, fired.accepted.tasks, List.any_eq_true]
  simp only [Bool.or_eq_true, or_assoc, ← exists_or, and_or_left]

end

end Leftovers

/--
A run that completes with audit policy `error` is rejected by the flag accounting exactly if
some local channel, awaited mode-2 channel or waiting collective participant is unbalanced in
the program, or some `sync_all` phase lacks an arrival.
-/
theorem flagAccounting_iff_unbalanced
    {syncConfig : SyncConfig}
    {config : SimulatorConfig}
    {program : KernelProgram}
    {model : FlagBarrierModel}
    {state : RunState FlagBarrierModel}
    (accepts : reset syncConfig program = .ok model)
    (completes :
      scheduleState (flagBarrierSynchronizationModel syncConfig) config program = .ok state)
    (policy : config.flagBalanceCheck = .error) :
    run (flagBarrierSynchronizationModel syncConfig) config program = .error .flagAccounting ↔
      FlagsUnbalanced program model := by
  obtain ⟨log, fired, complete⟩ := scheduleState_fires completes
  have shape := (reset_accepted accepts).1.eq_withState fired.accepted
  have sameCounts : FlagsUnbalanced program model ↔ FlagsUnbalanced program state.sync := by
    rw [shape]
    exact Iff.rfl
  rw [sameCounts, ← fired.auditFlagBalance_iff complete]
  have audits :
      (flagBarrierSynchronizationModel syncConfig).auditFlagBalance state.sync =
        state.sync.auditFlagBalance :=
    rfl
  simp only [run, completes, policy, audits, true_and]
  split
  · rename_i raised
    simp [raised]
  · rename_i passed
    simp [passed]

/-- Two sets of a local flag and one wait. -/
def twoSetsOneWait : KernelProgram where
  cores :=
    [{ coreId := 0
       tasks :=
         [cubeFlag "first-set" .setFlag .mte2,
          cubeFlag "second-set" .setFlag .mte2,
          cubeFlag "wait" .waitFlag .m] }]

/-- The run completes, and the audit reports the credit that is left. -/
theorem twoSetsOneWait_rejected :
    ∃ model, reset {} twoSetsOneWait = .ok model ∧ FlagsUnbalanced twoSetsOneWait model ∧
      run (flagBarrierSynchronizationModel {}) {} twoSetsOneWait = .error .flagAccounting := by
  have completes :
      (scheduleState (flagBarrierSynchronizationModel {}) {} twoSetsOneWait).toOption.map
        (fun state => (state.completed "wait").isSome) = some true := by
    decide +kernel
  obtain ⟨state, scheduled, _⟩ := ok_of_observed completes
  obtain ⟨log, fired, _⟩ := scheduleState_fires scheduled
  obtain ⟨model, started⟩ := fired.reset_ok
  have accepts : reset {} twoSetsOneWait = .ok model := started
  have rejected :
      run (flagBarrierSynchronizationModel {}) {} twoSetsOneWait = .error .flagAccounting := by
    decide +kernel
  exact ⟨model, accepts, (flagAccounting_iff_unbalanced accepts scheduled rfl).mp rejected,
    rejected⟩

end TilelangAscend.Simulator
