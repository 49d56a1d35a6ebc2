import TilelangAscend.Rendezvous
import TilelangAscend.BlockingDepth

namespace TilelangAscend.Simulator

open ListHistory

/-!
# Phases of `sync_all` and its scopes

`reset` numbers the calls of a participant over all scopes together, while a rendezvous is one
scope and one number.  Two calls of one scope therefore meet in the same phase exactly if they
are equally far in their own scope, provided that equally far calls were preceded by equally many
calls of other scopes.
-/

/-- Whether a task is a `sync_all` of the scope of another one that a participant joins. -/
def isScopedCall (task : Task) (participant : Participant) (earlier : Task) : Bool :=
  isSyncAllJoining participant earlier &&
    decide ((syncAllScope earlier).toOption = (syncAllScope task).toOption)

/-- Whether a task is a `sync_all` of another scope that a participant joins. -/
def isForeignCall (task : Task) (participant : Participant) (earlier : Task) : Bool :=
  isSyncAllJoining participant earlier &&
    decide ((syncAllScope earlier).toOption ≠ (syncAllScope task).toOption)

/-- Calls of its own scope that a participant joins before a `sync_all`. -/
def scopedCalls (program : KernelProgram) (task : Task) (participant : Participant) : Nat :=
  (program.earlierTasks task).countP (isScopedCall task participant)

/-- Calls of other scopes that a participant joins before a `sync_all`. -/
def foreignCalls (program : KernelProgram) (task : Task) (participant : Participant) : Nat :=
  (program.earlierTasks task).countP (isForeignCall task participant)

/-- A `sync_all` has this number among the calls of its scope, for each of its participants. -/
def IsOrdinal (program : KernelProgram) (task : Task) (ordinal : Nat) : Prop :=
  ∀ participant ∈ syncAllJoins task, scopedCalls program task participant = ordinal

/-- Two `sync_all`s of one scope. -/
structure SameScope
    (program : KernelProgram)
    (first second : Task) :
    Prop where
  firstIsTask : first ∈ program.tasks
  secondIsTask : second ∈ program.tasks
  firstIsSyncAll : first.operation = .syncAll
  secondIsSyncAll : second.operation = .syncAll
  scope : syncAllScope first = syncAllScope second

/-- Calls of one scope meet in the same phase exactly if they have the same number in it. -/
def PhasesMatchScopes (program : KernelProgram) (model : FlagBarrierModel) : Prop :=
  ∀ first second, SameScope program first second →
    (model.tables.syncAllTaskPhase first.taskId = model.tables.syncAllTaskPhase second.taskId ↔
      ∃ ordinal, IsOrdinal program first ordinal ∧ IsOrdinal program second ordinal)

/--
Participants that are equally far in a scope have joined equally many calls of other scopes.
-/
def ForeignCallsAgree (program : KernelProgram) : Prop :=
  ∀ first second, SameScope program first second →
    ∀ participant ∈ syncAllJoins first, ∀ other ∈ syncAllJoins second,
      scopedCalls program first participant = scopedCalls program second other →
      foreignCalls program first participant = foreignCalls program second other

/-! ## Counting calls -/

theorem exists_split_of_lt_countP {α : Type} {test : α → Bool} {items : List α}
    {count : Nat} (below : count < items.countP test) :
    ∃ before item after,
      items = before ++ item :: after ∧ test item = true ∧ before.countP test = count := by
  induction items using List.reverseRecOn with
  | nil => simp at below
  | append_singleton rest last ih =>
    by_cases earlier : count < rest.countP test
    · obtain ⟨before, item, after, shape, passes, counted⟩ := ih earlier
      exact ⟨before, item, after ++ [last], by simp [shape], passes, counted⟩
    · rw [List.countP_append, List.countP_singleton] at below
      have passes : test last = true := by
        by_contra fails
        rw [if_neg fails] at below
        exact earlier below
      rw [if_pos passes] at below
      exact ⟨rest, last, [], rfl, passes, by omega⟩

theorem countP_isSyncAllJoining (task : Task) (participant : Participant) (earlier : List Task) :
    earlier.countP (isSyncAllJoining participant) =
      earlier.countP (isScopedCall task participant) +
        earlier.countP (isForeignCall task participant) := by
  induction earlier with
  | nil => rfl
  | cons head rest ih =>
    simp only [List.countP_cons, ih, isScopedCall, isForeignCall]
    by_cases joining : isSyncAllJoining participant head = true
    · by_cases sameScope : (syncAllScope head).toOption = (syncAllScope task).toOption
      · simp [joining, sameScope]
        omega
      · simp [joining, sameScope]
        omega
    · simp [joining]

namespace SameScope

variable {program : KernelProgram} {first second third : Task}

theorem symm (same : SameScope program first second) : SameScope program second first :=
  ⟨same.secondIsTask, same.firstIsTask, same.secondIsSyncAll, same.firstIsSyncAll, same.scope.symm⟩

theorem left (same : SameScope program first second) : SameScope program first first :=
  ⟨same.firstIsTask, same.firstIsTask, same.firstIsSyncAll, same.firstIsSyncAll, rfl⟩

end SameScope

section Phases

variable {syncConfig : SyncConfig} {program : KernelProgram} {model : FlagBarrierModel}
  {first second : Task}

theorem AcceptedModel.syncAllTaskPhase_eq
    (accepted : AcceptedModel syncConfig program model) (isTask : first ∈ program.tasks)
    (isSyncAll : first.operation = .syncAll) :
    ∃ key,
      model.tables.syncAllTaskPhase first.taskId = some key ∧ syncAllScope first = .ok key.scope ∧
        ∀ participant ∈ syncAllJoins first,
          scopedCalls program first participant + foreignCalls program first participant =
            key.phase := by
  obtain ⟨before, after, shape⟩ := List.mem_iff_append.mp isTask
  obtain ⟨found⟩ := buildTables_entries program.taskIds_nodup accepted.built shape
  obtain ⟨key, keyed, phased⟩ := found.phase isSyncAll
  obtain ⟨scopeFound, phases⟩ := syncAllKeyOf_ok keyed
  refine ⟨key, phased, scopeFound, ?_⟩
  intro participant joins
  rw [scopedCalls, foreignCalls, program.earlierTasks_eq shape,
    ← countP_isSyncAllJoining first participant before, ← phases participant joins,
    found.describes.syncAllPhase]

theorem exists_mem_syncAllJoins {scope : SyncScope} (scopeFound : syncAllScope first = .ok scope) :
    ∃ participant, participant ∈ syncAllJoins first := by
  simp only [syncAllJoins, scopeFound]
  exact syncAllTaskParticipants_ne_nil first scope

variable {participant other : Participant}

theorem exists_earlier_scopedCall (isTask : second ∈ program.tasks) {ordinal : Nat}
    (below : ordinal < scopedCalls program second participant) :
    ∃ third ∈ program.tasks,
      third.operation = .syncAll ∧ (syncAllScope third).toOption = (syncAllScope second).toOption ∧
        participant ∈ syncAllJoins third ∧
        scopedCalls program third participant = ordinal ∧
        foreignCalls program third participant ≤ foreignCalls program second participant := by
  obtain ⟨before, after, shape⟩ := List.mem_iff_append.mp isTask
  rw [scopedCalls, program.earlierTasks_eq shape] at below
  obtain ⟨older, third, newer, beforeShape, isScoped, counted⟩ := exists_split_of_lt_countP below
  have thirdShape : program.tasks = older ++ third :: (newer ++ second :: after) := by
    rw [shape, beforeShape]
    simp
  simp only [isScopedCall, Bool.and_eq_true, decide_eq_true_eq, isSyncAllJoining] at isScoped
  obtain ⟨⟨isSyncAll, joins⟩, sameScope⟩ := isScoped
  have sameTests :
      isScopedCall third = isScopedCall second ∧ isForeignCall third = isForeignCall second := by
    constructor
    · funext other earlier
      simp only [isScopedCall, sameScope]
    · funext other earlier
      simp only [isForeignCall, sameScope]
  refine ⟨third, ?_, isSyncAll, sameScope, joins, ?_, ?_⟩
  · rw [thirdShape]
    simp
  · rw [scopedCalls, program.earlierTasks_eq thirdShape, sameTests.1]
    exact counted
  · rw [foreignCalls, foreignCalls, program.earlierTasks_eq thirdShape,
      program.earlierTasks_eq shape, sameTests.2, beforeShape, List.countP_append]
    exact Nat.le_add_right _ _

section

variable (accepted : AcceptedModel syncConfig program model) (agree : ForeignCallsAgree program)
include accepted agree

theorem ForeignCallsAgree.scopedCalls_le (same : SameScope program first second)
    (joins : participant ∈ syncAllJoins first)
    (totals :
      scopedCalls program first participant + foreignCalls program first participant =
        scopedCalls program second other + foreignCalls program second other) :
    scopedCalls program second other ≤ scopedCalls program first participant := by
  by_contra further
  obtain ⟨third, thirdIsTask, isSyncAll, sameScope, thirdJoins, counted, fewer⟩ :=
    exists_earlier_scopedCall same.secondIsTask (Nat.lt_of_not_le further)
  obtain ⟨key, _, secondScope, _⟩ :=
    accepted.syncAllTaskPhase_eq same.secondIsTask same.secondIsSyncAll
  obtain ⟨thirdKey, _, thirdScope, _⟩ := accepted.syncAllTaskPhase_eq thirdIsTask isSyncAll
  have thirdSame : syncAllScope first = syncAllScope third := by
    rw [thirdScope, secondScope] at sameScope
    simp only [Except.toOption, Option.some.injEq] at sameScope
    rw [same.scope, secondScope, thirdScope, sameScope]
  have foreign :=
    agree first third ⟨same.firstIsTask, thirdIsTask, same.firstIsSyncAll, isSyncAll, thirdSame⟩
      participant joins other thirdJoins counted.symm
  omega

theorem ForeignCallsAgree.scopedCalls_eq (same : SameScope program first second)
    (joins : participant ∈ syncAllJoins first) (otherJoins : other ∈ syncAllJoins second)
    (totals :
      scopedCalls program first participant + foreignCalls program first participant =
        scopedCalls program second other + foreignCalls program second other) :
    scopedCalls program first participant = scopedCalls program second other := by
  apply Nat.le_antisymm
  · exact agree.scopedCalls_le accepted same.symm otherJoins totals.symm
  · exact agree.scopedCalls_le accepted same joins totals

theorem ForeignCallsAgree.phasesMatchScopes : PhasesMatchScopes program model := by
  intro first second same
  obtain ⟨firstKey, firstPhased, firstScope, firstTotal⟩ :=
    accepted.syncAllTaskPhase_eq same.firstIsTask same.firstIsSyncAll
  obtain ⟨secondKey, secondPhased, secondScope, secondTotal⟩ :=
    accepted.syncAllTaskPhase_eq same.secondIsTask same.secondIsSyncAll
  obtain ⟨participant, joins⟩ := exists_mem_syncAllJoins firstScope
  rw [firstPhased, secondPhased, Option.some.injEq]
  constructor
  · intro sameKey
    refine ⟨scopedCalls program first participant, ?_, ?_⟩
    · intro other otherJoins
      apply agree.scopedCalls_eq accepted same.left otherJoins joins
      rw [firstTotal other otherJoins, firstTotal participant joins]
    · intro other otherJoins
      apply agree.scopedCalls_eq accepted same.symm otherJoins joins
      rw [secondTotal other otherJoins, firstTotal participant joins, sameKey]
  · rintro ⟨ordinal, firstOrdinal, secondOrdinal⟩
    obtain ⟨other, otherJoins⟩ := exists_mem_syncAllJoins secondScope
    have equallyFar : scopedCalls program first participant = scopedCalls program second other := by
      rw [firstOrdinal participant joins, secondOrdinal other otherJoins]
    have foreign := agree first second same participant joins other otherJoins equallyFar
    have phases : firstKey.phase = secondKey.phase := by
      rw [← firstTotal participant joins, ← secondTotal other otherJoins, equallyFar, foreign]
    have scopes : firstKey.scope = secondKey.scope := by
      have sameScope := same.scope
      rw [firstScope, secondScope] at sameScope
      exact Except.ok.inj sameScope
    cases firstKey
    cases secondKey
    simp_all

end

theorem PhasesMatchScopes.foreignCallsAgree (accepted : AcceptedModel syncConfig program model)
    (phasesMatch : PhasesMatchScopes program model) : ForeignCallsAgree program := by
  intro first second same participant joins other otherJoins equallyFar
  obtain ⟨firstKey, firstPhased, _, firstTotal⟩ :=
    accepted.syncAllTaskPhase_eq same.firstIsTask same.firstIsSyncAll
  obtain ⟨secondKey, secondPhased, _, secondTotal⟩ :=
    accepted.syncAllTaskPhase_eq same.secondIsTask same.secondIsSyncAll
  obtain ⟨ordinal, firstOrdinal, _⟩ := (phasesMatch first first same.left).mp rfl
  obtain ⟨otherOrdinal, secondOrdinal, _⟩ := (phasesMatch second second same.symm.left).mp rfl
  have sameOrdinal : ordinal = otherOrdinal := by
    rw [← firstOrdinal participant joins, ← secondOrdinal other otherJoins, equallyFar]
  subst sameOrdinal
  have samePhase := (phasesMatch first second same).mpr ⟨ordinal, firstOrdinal, secondOrdinal⟩
  rw [firstPhased, secondPhased, Option.some.injEq] at samePhase
  have firstCount := firstTotal participant joins
  have secondCount := secondTotal other otherJoins
  rw [samePhase] at firstCount
  omega

end Phases

/--
The rendezvous phases of an accepted program match the calls per scope exactly if participants
that are equally far in a scope have joined equally many calls of other scopes.
-/
theorem syncAll_phasesMatch_iff
    {syncConfig : SyncConfig}
    {program : KernelProgram}
    {model : FlagBarrierModel}
    (accepts : reset syncConfig program = .ok model) :
    PhasesMatchScopes program model ↔ ForeignCallsAgree program := by
  have accepted := (reset_accepted accepts).1
  constructor
  · intro phasesMatch
    exact phasesMatch.foreignCallsAgree accepted
  · intro agree
    exact agree.phasesMatchScopes accepted

/-- The cube lane meets the cube lanes of all cores before all lanes meet. -/
def cubeThenMix : KernelProgram where
  cores :=
    [{ coreId := 0
       tasks :=
         [{ taskId := "cube-aic", operation := .syncAll, coreId := 0
            lane := .cube, pipe := .s, durationCycles := 1 },
          { taskId := "cube-mix", operation := .syncAll, coreId := 0
            lane := .cube, pipe := .s, durationCycles := 1
            metadata := { syncScope := some (.scope .mix) } },
          { taskId := "vector-mix-0", operation := .syncAll, coreId := 0
            lane := .vector0, pipe := .s, durationCycles := 1
            metadata := { syncScope := some (.scope .mix) } },
          { taskId := "vector-mix-1", operation := .syncAll, coreId := 0
            lane := .vector1, pipe := .s, durationCycles := 1
            metadata := { syncScope := some (.scope .mix) } }] }]

/-- The first calls of scope `mix` on the cube lane and on a vector lane get different phases. -/
theorem cubeThenMix_phases_differ :
    ¬ ∀ (syncConfig : SyncConfig) (program : KernelProgram) (model : FlagBarrierModel),
        reset syncConfig program = .ok model →
        PhasesMatchScopes program model := by
  intro phasesMatch
  have phases :
      (reset {} cubeThenMix).toOption.map
        (fun model =>
          (model.tables.syncAllTaskPhase "cube-mix",
            model.tables.syncAllTaskPhase "vector-mix-0")) =
      some (some ⟨.mix, 1⟩, some ⟨.mix, 0⟩) := by
    decide +kernel
  obtain ⟨model, accepts, observed⟩ := ok_of_observed phases
  rw [Prod.mk.injEq] at observed
  have matched :=
    (phasesMatch {} cubeThenMix model accepts cubeThenMix.tasks[1] cubeThenMix.tasks[2]
        ⟨by decide, by decide, rfl, rfl, rfl⟩).mpr
      ⟨0, by unfold IsOrdinal; decide +kernel, by unfold IsOrdinal; decide +kernel⟩
  have cubePhase : model.tables.syncAllTaskPhase cubeThenMix.tasks[1].taskId = some ⟨.mix, 1⟩ :=
    observed.1
  have vectorPhase : model.tables.syncAllTaskPhase cubeThenMix.tasks[2].taskId = some ⟨.mix, 0⟩ :=
    observed.2
  rw [cubePhase, vectorPhase] at matched
  simp at matched

/-- All lanes meet their own kind before they meet each other. -/
def ownThenMix : KernelProgram where
  cores :=
    [{ coreId := 0
       tasks :=
         [{ taskId := "cube-aic", operation := .syncAll, coreId := 0
            lane := .cube, pipe := .s, durationCycles := 1 },
          { taskId := "vector-aiv-0", operation := .syncAll, coreId := 0
            lane := .vector0, pipe := .s, durationCycles := 1 },
          { taskId := "vector-aiv-1", operation := .syncAll, coreId := 0
            lane := .vector1, pipe := .s, durationCycles := 1 },
          { taskId := "mix", operation := .syncAll, coreId := 0
            lane := .control, pipe := .s, durationCycles := 1 }] }]

/-- Before the common call each participant has joined one call of another scope. -/
theorem ownThenMix_phasesMatch :
    ∃ model, reset {} ownThenMix = .ok model ∧ PhasesMatchScopes ownThenMix model := by
  have phase :
      (reset {} ownThenMix).toOption.map
        (fun model => model.tables.syncAllTaskPhase "mix") = some (some ⟨.mix, 1⟩) := by
    decide +kernel
  obtain ⟨model, accepts, _⟩ := ok_of_observed phase
  refine ⟨model, accepts, (syncAll_phasesMatch_iff accepts).mpr ?_⟩
  have checked :
      ∀ first ∈ ownThenMix.tasks, ∀ second ∈ ownThenMix.tasks,
        (syncAllScope first).toOption = (syncAllScope second).toOption →
        ∀ participant ∈ syncAllJoins first, ∀ other ∈ syncAllJoins second,
          scopedCalls ownThenMix first participant = scopedCalls ownThenMix second other →
          foreignCalls ownThenMix first participant = foreignCalls ownThenMix second other := by
    decide +kernel
  intro first second same
  exact checked first same.firstIsTask second same.secondIsTask (congrArg _ same.scope)

end TilelangAscend.Simulator
