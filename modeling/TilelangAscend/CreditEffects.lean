import TilelangAscend.LaneFences

namespace TilelangAscend.Simulator

open FlagBarrierModel

/-!
# What placing a task does to credits, phases and arrivals

`onScheduled` is described once: `effect` is the total state update of a task, and
every successful call of `onScheduled` is that update.  A set appends its credit to
its queues, a wait drops the oldest credit of its queues, a collective set or wait
advances one phase counter and a `sync_all` registers its participants.
-/

attribute [ext] SyncState

/-- Queues that a local or mode-2 set feeds. -/
def setKeys (task : Task) : List FlagKey :=
  match task.operation with
  | .setFlag => (localFlagKey task).toOption.toList
  | .setCrossFlag =>
    match crossModeOf task, crossSetKeysMode2 task with
    | .ok .mode2, .ok keys => keys
    | _, _ => []
  | _ => []

/-- Phase list that a mode-0 or mode-1 set extends. -/
def setPhase? (task : Task) : Option (CollectiveKey × Participant) :=
  match task.operation, crossModeOf task with
  | .setCrossFlag, .ok mode =>
    (collectiveKey task mode).toOption.map fun key => (key, task.participant)
  | _, _ => none

namespace FlagBarrierModel

/-- Queues that a local or mode-2 wait drains. -/
def waitKeys (model : FlagBarrierModel) (task : Task) : List FlagKey :=
  match task.operation with
  | .waitFlag => (localFlagKey task).toOption.toList
  | _ => model.auditedCrossKeys task

/-- Phase counter that a mode-0 or mode-1 wait advances. -/
def waitPhase? (model : FlagBarrierModel) (task : Task) : Option (CollectiveKey × Participant) :=
  (model.auditedCollective task).map fun key => (key, task.participant)

/-- Whether a task registers an arrival of a participant at a rendezvous. -/
def arrivesAt (model : FlagBarrierModel) (task : Task)
    (entry : SyncAllKey × Participant) : Prop :=
  task.operation = .syncAll ∧ model.tables.syncAllTaskPhase task.taskId = some entry.1 ∧
    entry.2 ∈ syncAllTaskParticipants task entry.1.scope

instance
    (model : FlagBarrierModel)
    (task : Task)
    (entry : SyncAllKey × Participant) :
    Decidable (model.arrivesAt task entry) :=
  inferInstanceAs (Decidable (_ ∧ _))

/-- The state update of a placed task that produces a credit. -/
def effect
    (model : FlagBarrierModel)
    (task : Task)
    (credit : Credit) :
    SyncState where
  tokens := fun key =>
    if key ∈ setKeys task then
      model.state.tokens key ++ [credit]
    else if key ∈ model.waitKeys task then
      (model.state.tokens key).tail
    else
      model.state.tokens key
  collectiveReady := fun entry =>
    if setPhase? task = some entry then
      model.state.collectiveReady entry ++ [credit]
    else
      model.state.collectiveReady entry
  collectiveWaitPhase := fun entry =>
    if model.waitPhase? task = some entry then
      model.state.collectiveWaitPhase entry + 1
    else
      model.state.collectiveWaitPhase entry
  syncAllArrivals := fun entry =>
    if model.arrivesAt task entry then
      some credit
    else
      model.state.syncAllArrivals entry

end FlagBarrierModel

/-! ## Queue operations -/

variable {task : Task} {state updated : SyncState} {config : SyncConfig} {limited : Bool}
  {credit : Credit} {key : FlagKey} {keys : List FlagKey}

theorem pushCredit_ok (pushed : pushCredit config task limited credit state key = .ok updated) :
    updated =
      { state with
        tokens := Function.update state.tokens key (state.tokens key ++ [credit]) } := by
  unfold pushCredit at pushed
  split at pushed
  · cases pushed
  · cases pushed
    rfl

theorem popCredit_ok (popped : popCredit task state key = .ok updated) :
    state.tokens key ≠ [] ∧
      updated =
        { state with
          tokens := Function.update state.tokens key (state.tokens key).tail } := by
  unfold popCredit at popped
  split at popped
  · cases popped
  · rename_i head rest queue
    cases popped
    exact ⟨by simp [queue], by simp [queue]⟩

theorem forKeys_push (distinct : keys.Nodup)
    (pushed : forKeys (pushCredit config task limited credit) state keys = .ok updated) :
    updated =
      { state with
        tokens := fun key =>
          if key ∈ keys then state.tokens key ++ [credit] else state.tokens key } := by
  induction keys generalizing state with
  | nil =>
    cases pushed
    simp
  | cons first rest ih =>
    obtain ⟨firstFresh, restDistinct⟩ := List.nodup_cons.mp distinct
    simp only [forKeys] at pushed
    cases step : pushCredit config task limited credit state first with
    | error failure => simp [step] at pushed
    | ok next =>
      simp only [step] at pushed
      rw [ih restDistinct pushed, pushCredit_ok step]
      simp only [SyncState.mk.injEq, and_self, and_true]
      funext key
      by_cases isFirst : key = first
      · subst isFirst
        simp [firstFresh]
      · simp [isFirst]

theorem forKeys_pop (distinct : keys.Nodup)
    (popped : forKeys (popCredit task) state keys = .ok updated) :
    (∀ key ∈ keys, state.tokens key ≠ []) ∧
      updated =
        { state with
          tokens := fun key =>
            if key ∈ keys then (state.tokens key).tail else state.tokens key } := by
  induction keys generalizing state with
  | nil =>
    cases popped
    simp
  | cons first rest ih =>
    obtain ⟨firstFresh, restDistinct⟩ := List.nodup_cons.mp distinct
    simp only [forKeys] at popped
    cases step : popCredit task state first with
    | error failure => simp [step] at popped
    | ok next =>
      simp only [step] at popped
      obtain ⟨firstFilled, nextShape⟩ := popCredit_ok step
      obtain ⟨restFilled, updatedShape⟩ := ih restDistinct popped
      subst nextShape
      constructor
      · intro key member
        rcases List.mem_cons.mp member with isFirst | inRest
        · rw [isFirst]
          exact firstFilled
        · have differs : key ≠ first := fun same => firstFresh (same ▸ inRest)
          have filled := restFilled key inRest
          simpa [Function.update_of_ne differs] using filled
      · rw [updatedShape]
        simp only [SyncState.mk.injEq, and_self, and_true]
        funext key
        by_cases isFirst : key = first
        · subst isFirst
          simp [firstFresh]
        · simp [isFirst]

theorem crossSetKeysMode2_nodup (keyed : crossSetKeysMode2 task = .ok keys) : keys.Nodup := by
  unfold crossSetKeysMode2 at keyed
  split at keyed
  all_goals cases keyed
  all_goals simp [Lane.vectorLanes]

theorem crossWaitKeysMode2_nodup (keyed : crossWaitKeysMode2 task = .ok keys) : keys.Nodup := by
  unfold crossWaitKeysMode2 at keyed
  split at keyed
  all_goals cases keyed
  all_goals simp [Lane.vectorLanes]

/-! ## Successful updates are effects -/

section Updates

variable {model : FlagBarrierModel} {task : Task} {credit : Credit} {updated : SyncState}

theorem onCrossSet_effect (isSet : task.operation = .setCrossFlag)
    (updates : model.onCrossSet task credit = .ok updated) :
    updated = model.effect task credit := by
  have noWait : model.waitKeys task = [] := by
    simp [waitKeys, auditedCrossKeys, isSet]
  have noWaitPhase : model.waitPhase? task = none := by
    simp [waitPhase?, auditedCollective, isSet]
  unfold onCrossSet at updates
  split at updates
  · cases updates
  · rename_i moded
    have noPhase : setPhase? task = none := by
      unfold setPhase? collectiveKey
      simp only [isSet, moded]
      split <;> simp_all [reject, Except.toOption]
    split at updates
    · cases updates
    · rename_i keys keyed
      rw [forKeys_push (crossSetKeysMode2_nodup keyed) updates]
      ext entry : 2
      all_goals
        simp [effect, arrivesAt, setKeys, isSet, moded, keyed, noWait, noWaitPhase, noPhase]
  · rename_i mode otherMode moded
    have noKeys : setKeys task = [] := by
      unfold setKeys
      simp only [isSet, moded]
      split
      · rename_i isMode2 _
        exact (otherMode (by simpa using isMode2)).elim
      · rfl
    unfold onCollectiveSet at updates
    split at updates
    · cases updates
    · rename_i key keyed
      have phase : setPhase? task = some (key, task.participant) := by
        simp [setPhase?, isSet, moded, keyed, Except.toOption]
      simp only at updates
      split at updates
      · cases updates
      · split at updates
        · cases updates
        · cases updates
          ext entry : 2
          · simp [effect, noKeys, noWait]
          · simp only [effect, phase, Option.some.injEq, Function.update_apply]
            by_cases same : entry = (key, task.participant)
            · simp [same]
            · have differs : ¬ (key, task.participant) = entry := fun equal => same equal.symm
              simp [same, differs]
          · simp [effect, noWaitPhase]
          · simp [effect, arrivesAt, isSet]

theorem onCrossWait_effect (isWait : task.operation = .waitCrossFlag)
    (updates : model.onCrossWait task = .ok updated) :
    (∀ key ∈ model.waitKeys task, model.state.tokens key ≠ []) ∧
      updated = model.effect task credit := by
  have noSet : setKeys task = [] := by
    simp [setKeys, isWait]
  have noSetPhase : setPhase? task = none := by
    simp [setPhase?, isWait]
  unfold onCrossWait at updates
  split at updates
  · cases updates
  · cases updates
  · rename_i moded
    have noPhase : model.waitPhase? task = none := by
      unfold waitPhase? auditedCollective collectiveKey
      simp only [isWait, moded]
      split <;> simp_all [reject, Except.toOption]
    split at updates
    · cases updates
    · rename_i keys keyed
      have waited : model.waitKeys task = keys := by
        simp [waitKeys, auditedCrossKeys, isWait, moded, keyed]
      obtain ⟨filled, shape⟩ := forKeys_pop (crossWaitKeysMode2_nodup keyed) updates
      rw [waited]
      refine ⟨filled, ?_⟩
      rw [shape]
      ext entry : 2
      all_goals
        simp [effect, arrivesAt, isWait, waited, noSet, noSetPhase, noPhase]
  · rename_i mode otherMode moded
    split at updates
    · cases updates
    · rename_i key keyed
      have noKeys : model.waitKeys task = [] := by
        unfold waitKeys auditedCrossKeys
        simp only [isWait, moded]
        split
        · rename_i isMode2 _
          exact (otherMode (by simpa using isMode2)).elim
        · rfl
      have phase : model.waitPhase? task = some (key, task.participant) := by
        simp [waitPhase?, auditedCollective, isWait, moded, keyed, Except.toOption]
      cases updates
      rw [noKeys]
      refine ⟨by simp, ?_⟩
      ext entry : 2
      · simp [effect, noSet, noKeys]
      · simp [effect, noSetPhase]
      · simp only [effect, phase, Option.some.injEq, Function.update_apply]
        by_cases same : entry = (key, task.participant)
        · simp [same]
        · have differs : ¬ (key, task.participant) = entry := fun equal => same equal.symm
          simp [same, differs]
      · simp [effect, arrivesAt, isWait]

theorem onSyncAll_effect (isSyncAll : task.operation = .syncAll)
    (updates : model.onSyncAll task credit = .ok updated) :
    updated = model.effect task credit := by
  unfold onSyncAll at updates
  split at updates
  · cases updates
  · rename_i key phased
    simp only at updates
    split at updates
    · cases updates
    · cases updates
      ext entry : 2
      · simp [effect, waitKeys, auditedCrossKeys, setKeys, isSyncAll]
      · simp [effect, setPhase?, isSyncAll]
      · simp [effect, waitPhase?, auditedCollective, isSyncAll]
      · simp only [effect, arrivesAt, isSyncAll, phased, Option.some.injEq, true_and]
        by_cases same : entry.1 = key
        · simp [same]
        · have differs : ¬ key = entry.1 := fun equal => same equal.symm
          simp [same, differs]

/--
Every successful `onScheduled` is the effect of its task, and a wait found a credit in
each of its queues.
-/
theorem onScheduled_effect {record : ExecutionRecord}
    (updates : model.onScheduled task record = .ok updated) :
    (∀ key ∈ model.waitKeys task, model.state.tokens key ≠ []) ∧
      updated = model.effect task ⟨record.endCycle, task.taskId⟩ := by
  unfold onScheduled at updates
  cases operation : task.operation with
  | setFlag =>
    simp only [operation] at updates
    have noWait : model.waitKeys task = [] := by
      simp [waitKeys, auditedCrossKeys, operation]
    refine ⟨by simp [noWait], ?_⟩
    split at updates
    · cases updates
    · rename_i key keyed
      rw [pushCredit_ok updates]
      ext entry : 2
      · by_cases same : entry = key
        · subst same
          simp [effect, setKeys, operation, keyed, Except.toOption]
        · simp [effect, setKeys, operation, keyed, Except.toOption, noWait, same]
      · simp [effect, setPhase?, operation]
      · simp [effect, waitPhase?, auditedCollective, operation]
      · simp [effect, arrivesAt, operation]
  | waitFlag =>
    simp only [operation] at updates
    split at updates
    · cases updates
    · rename_i key keyed
      obtain ⟨filled, shape⟩ := popCredit_ok updates
      have waited : model.waitKeys task = [key] := by
        simp [waitKeys, operation, keyed, Except.toOption]
      rw [waited]
      refine ⟨by simpa using filled, ?_⟩
      rw [shape]
      ext entry : 2
      · by_cases same : entry = key
        · subst same
          simp [effect, setKeys, operation, waited]
        · simp [effect, setKeys, operation, waited, same]
      · simp [effect, setPhase?, operation]
      · simp [effect, waitPhase?, auditedCollective, operation]
      · simp [effect, arrivesAt, operation]
  | setCrossFlag =>
    simp only [operation] at updates
    refine ⟨?_, onCrossSet_effect operation updates⟩
    simp [waitKeys, auditedCrossKeys, operation]
  | waitCrossFlag =>
    simp only [operation] at updates
    exact onCrossWait_effect operation updates
  | syncAll =>
    simp only [operation] at updates
    refine ⟨?_, onSyncAll_effect operation updates⟩
    simp [waitKeys, auditedCrossKeys, operation]
  | _ =>
    simp only [operation, Except.ok.injEq] at updates
    subst updates
    refine ⟨?_, ?_⟩
    · simp [waitKeys, auditedCrossKeys, operation]
    · ext entry : 2
      all_goals
        simp [effect, arrivesAt,
          waitKeys, auditedCrossKeys,
          waitPhase?, auditedCollective, setKeys,
          setPhase?, operation]

end Updates

theorem PlacedStep.sync_effect {syncConfig : SyncConfig} {fifo : TaskId → Option TaskId}
    {state next : RunState FlagBarrierModel}
    (step : PlacedStep (flagBarrierSynchronizationModel syncConfig) fifo state task next) :
    (∀ key ∈ state.sync.waitKeys task, state.sync.state.tokens key ≠ []) ∧
      next.sync =
        state.sync.withState (state.sync.effect task ⟨step.record.endCycle, task.taskId⟩) := by
  obtain ⟨updated, updates, shape⟩ := step.sync_eq
  obtain ⟨filled, isEffect⟩ := onScheduled_effect updates
  exact ⟨filled, by rw [shape, isEffect]⟩

end TilelangAscend.Simulator
