import TilelangAscend.CreditOrder

namespace TilelangAscend.Simulator

open ListHistory
open FlagBarrierModel

/-!
# Sets that the program holds back

The scheduler counts credits in firing order, and it gives a set that waited for room no cycle
of the wait that made room.  The credit limit and the depths of blocking mode therefore mean
something only where other rules keep a set behind the waits of its channel.  `Gates` collects
the rules that need no credit; `TiedTo` adds the credits that were handed over before a set is
placed, and `FiredBefore` the credits that are handed over in every run.
-/

/-- The first task holds the second one back in every run. -/
inductive Gates (program : KernelProgram) : Task → Task → Prop where
  | queue
      {before after : List Task}
      {first second : Task} :
      program.tasks = before ++ second :: after →
      first ∈ before →
      first.resource = second.resource →
      Gates program first second
  | dependency
      {first second : Task} :
      first ∈ program.tasks →
      second ∈ program.tasks →
      first.taskId ∈ executionDependencies second →
      Gates program first second
  | fence
      {before after : List Task}
      {first second : Task} :
      program.tasks = before ++ second :: after →
      first ∈ before →
      isFenceOn second.participant first = true →
      Gates program first second
  | drain
      {before after : List Task}
      {first second : Task} :
      program.tasks = before ++ second :: after →
      drainsLane second = true →
      (∀ other ∈ before, isSyncAllOn second.participant other = false) →
      first ∈ before →
      first.participant = second.participant →
      Gates program first second

/--
What was placed before ties the second task to the first one: a chain of gates, and of credits
that the waits in it have consumed, leads from the first to the second.
-/
inductive TiedTo
    (program : KernelProgram)
    (model : FlagBarrierModel)
    (placed : List Task) :
    Task → Task → Prop where
  | gate
      {first second : Task} :
      Gates program first second →
      TiedTo program model placed first second
  | trans
      {first second third : Task} :
      TiedTo program model placed first second →
      TiedTo program model placed second third →
      TiedTo program model placed first third
  | credit
      {older newer : List Task}
      {set wait : Task}
      {key : FlagKey} :
      placed = older ++ wait :: newer →
      key ∈ model.waitKeys wait →
      (placed.filter (feeds key))[older.countP (model.drainsQueue key)]? = some set →
      (∀ other ∈ program.earlierTasks wait, isSyncAllOn wait.participant other = false) →
      TiedTo program model placed set wait

/--
Every set that reuses a slot of its channel has no earlier `sync_all` on its lane, and what was
placed before ties it to each of the waits that made room for it.
-/
def SetsTied (syncConfig : SyncConfig) (program : KernelProgram) (log : List Task)
    (state : RunState FlagBarrierModel) : Prop :=
  ∀ older set newer, log = older ++ set :: newer →
    ∀ key ∈ setKeys set, channelDepth syncConfig key ≤ older.countP (feeds key) →
      (∀ other ∈ program.earlierTasks set, isSyncAllOn set.participant other = false) ∧
      ∀ wait ∈ freeingWaits syncConfig state.sync older key,
        TiedTo program state.sync older wait set

/--
The first task is placed before the second one in every run; the test tells which waits drain
which channel.  The last rule is about a set and a wait of one channel: so many waits are placed
before this wait that its credit or an earlier one must come from this set, since too few other
sets can be placed without the set or before the wait.
-/
inductive FiredBefore
    (program : KernelProgram)
    (drains : FlagKey → Task → Bool) :
    Task → Task → Prop where
  | gate
      {first second : Task} :
      Gates program first second →
      FiredBefore program drains first second
  | trans
      {first second third : Task} :
      FiredBefore program drains first second →
      FiredBefore program drains second third →
      FiredBefore program drains first third
  | credit
      {earlierWaits afterSet afterWait : List Task}
      {set wait : Task}
      {key : FlagKey} :
      set ∈ program.tasks →
      feeds key set = true →
      drains key wait = true →
      earlierWaits.Nodup →
      (∀ other ∈ earlierWaits, drains key other = true) →
      (∀ other ∈ earlierWaits, FiredBefore program drains other wait) →
      (∀ other ∈ afterSet, FiredBefore program drains set other) →
      (∀ other ∈ afterWait, FiredBefore program drains wait other) →
      OtherSets program key set (afterSet ++ afterWait) earlierWaits.length →
      FiredBefore program drains set wait

/-- Waits of a channel that are placed before a task in every run. -/
structure WaitsBefore
    (program : KernelProgram)
    (drains : FlagKey → Task → Bool)
    (key : FlagKey)
    (task : Task)
    (waits : List Task) :
    Prop where
  distinct : waits.Nodup
  areWaits : ∀ wait ∈ waits, drains key wait = true
  firedBefore : ∀ wait ∈ waits, FiredBefore program drains wait task

/--
On every channel of a mode-2 set at most 14 sets more can be placed before the set than waits
are placed before it in every run.
-/
def SetsHeldBack (program : KernelProgram) (drains : FlagKey → Task → Bool) : Prop :=
  ∀ set ∈ program.tasks, set.operation = .setCrossFlag →
    ∀ key ∈ setKeys set,
      ∃ laterSets earlierWaits,
        (∀ later ∈ laterSets, FiredBefore program drains set later) ∧
          WaitsBefore program drains key set earlierWaits ∧
          OtherSets program key set laterSets (earlierWaits.length + 14)

section HeldSets

variable {syncConfig : SyncConfig} {config : SimulatorConfig} {program : KernelProgram}
  {model : FlagBarrierModel} {log older newer placed : List Task}
  {state : RunState FlagBarrierModel} {first second set wait : Task} {key : FlagKey}

theorem ne_of_mem_before {before after : List Task}
    (shape : program.tasks = before ++ second :: after) (member : first ∈ before) :
    first.taskId ≠ second.taskId := by
  have unique := program.taskIds_nodup
  rw [shape, List.map_append, List.map_cons, List.nodup_append] at unique
  exact unique.2.2 _ (List.mem_map_of_mem member) _ List.mem_cons_self

theorem Gates.ids_differ (gates : Gates program first second) : first.taskId ≠ second.taskId := by
  cases gates with
  | queue shape member => exact ne_of_mem_before shape member
  | dependency _ _ member =>
    intro same
    rw [same] at member
    exact second.notSelfDependent (List.mem_of_mem_filter member)
  | fence shape member => exact ne_of_mem_before shape member
  | drain shape _ _ member => exact ne_of_mem_before shape member

theorem Gates.isTask (gates : Gates program first second) : first ∈ program.tasks := by
  cases gates with
  | dependency isTask => exact isTask
  | queue shape member => simp [shape, member]
  | fence shape member => simp [shape, member]
  | drain shape _ _ member => simp [shape, member]

theorem feeds_of_isWait (waits : isWait wait = true) : feeds key wait = false := by
  unfold isWait at waits
  simp only [feeds, setKeys]
  split at waits <;> simp_all

section

variable (fired : Fires (flagBarrierSynchronizationModel syncConfig) config program log state)
include fired

/-- A gate ends before what it gates starts. -/
theorem Fires.gates_endsBefore (gates : Gates program first second) :
    EndsBefore state.completed first.taskId second.taskId := by
  cases gates with
  | queue shape member sameResource => exact fired.resource_endsBefore shape member sameResource
  | dependency _ isSecond member => exact fired.dependency_endsBefore isSecond member
  | fence shape member fences => exact fired.fence_endsBefore shape member fences
  | drain shape drains unreleased member sameLane =>
    exact fired.drain_endsBefore shape drains unreleased member sameLane

/-! ## Blocking mode -/

/-- So does every task that a task is tied to. -/
theorem Fires.tiedTo_endsBefore (isPrefix : placed <+: log)
    (tied : TiedTo program state.sync placed first second) :
    EndsBefore state.completed first.taskId second.taskId := by
  induction tied with
  | gate gates => exact fired.gates_endsBefore gates
  | trans _ _ firstSecond secondThird => exact fired.endsBefore_trans firstSecond secondThird
  | @credit older newer set wait key shape waited isSet unreleased =>
    intro record done
    obtain ⟨later, logShape⟩ := isPrefix
    have waitShape : log = older ++ wait :: (newer ++ later) := by
      rw [← logShape, shape]
      simp
    obtain ⟨_, credit, _, _, _, consumed, bounded⟩ := fired.consumed_credit waitShape waited
    have setIs :
        (log.filter (feeds key))[older.countP (state.sync.drainsQueue key)]? = some set := by
      rw [← logShape, List.filter_append,
        List.getElem?_append_left (List.getElem?_eq_some_iff.mp isSet).1]
      exact isSet
    have inLog : set ∈ log := List.mem_of_mem_filter (List.mem_of_getElem? setIs)
    obtain ⟨setRecord, setDone⟩ := (fired.completed_iff set.taskId).mpr ⟨set, inLog, rfl⟩
    rw [producedCredits, List.getElem?_map, setIs, Option.map_some, Option.some.injEq] at consumed
    have starts := bounded unreleased
    rw [← consumed] at starts
    simp only [creditOf, startOf, setDone, done, Option.map_some, Option.getD_some] at starts
    exact ⟨setRecord, setDone, starts⟩

/-- Sets that are tied to the waits that freed their slots are timely. -/
theorem Fires.timelySets (tied : SetsTied syncConfig program log state) :
    TimelySets syncConfig program log state := by
  intro older set newer shape key member reuses
  obtain ⟨unreleased, ties⟩ := tied older set newer shape key member reuses
  refine ⟨unreleased, fun wait freeing => ?_⟩
  obtain ⟨setRecord, setDone⟩ :=
    (fired.completed_iff set.taskId).mpr ⟨set, by rw [shape]; simp, rfl⟩
  obtain ⟨waitRecord, waitDone, ends⟩ :=
    fired.tiedTo_endsBefore ⟨set :: newer, shape.symm⟩ (ties wait freeing) setRecord setDone
  have waitRuns := fired.start_le_end waitDone
  simp only [startOf, setDone, waitDone, Option.map_some, Option.getD_some]
  omega

/-! ## Firing order -/

theorem Fires.fires_prefix (shape : log = older ++ newer) :
    ∃ earlier, Fires (flagBarrierSynchronizationModel syncConfig) config program older earlier := by
  cases newer with
  | nil =>
    rw [List.append_nil] at shape
    exact ⟨state, shape ▸ fired⟩
  | cons task rest =>
    obtain ⟨earlier, _, reached, _⟩ := fired.step_at shape
    exact ⟨earlier, reached⟩

/-- A gate is placed before what it gates. -/
theorem Fires.gates_mem (gates : Gates program first second)
    (shape : log = older ++ second :: newer) : first ∈ older := by
  have endsThere : log = (older ++ [second]) ++ newer := by simp [shape]
  obtain ⟨reached, placed⟩ := fired.fires_prefix endsThere
  obtain ⟨record, done⟩ := (placed.completed_iff second.taskId).mpr ⟨second, by simp, rfl⟩
  obtain ⟨firstRecord, firstDone, _⟩ := placed.gates_endsBefore gates record done
  have inPrefix : first ∈ older ++ [second] :=
    (placed.completed_iff_mem_log gates.isTask).mp ⟨firstRecord, firstDone⟩
  rcases List.mem_append.mp inPrefix with inOlder | isSecond
  · exact inOlder
  · exact absurd (congrArg Task.taskId (List.mem_singleton.mp isSecond)) gates.ids_differ

/-- The waits placed so far have each consumed a credit that was set before. -/
theorem Fires.countP_drains_lt (drains : state.sync.drainsQueue key wait = true)
    (shape : log = older ++ wait :: newer) :
    older.countP (state.sync.drainsQueue key) < older.countP (feeds key) := by
  have endsThere : log = (older ++ [wait]) ++ newer := by simp [shape]
  obtain ⟨reached, placed⟩ := fired.fires_prefix endsThere
  have sameDrains : reached.sync.drainsQueue = state.sync.drainsQueue :=
    placed.accepted.drainsQueue_eq fired.accepted
  have waited : key ∈ state.sync.waitKeys wait := by
    simpa [drainsQueue] using drains
  have counted := (placed.tokens_eq key).2
  rw [sameDrains, List.countP_append, List.countP_append, List.countP_singleton,
    List.countP_singleton, drains, feeds_of_isWait (isWait_of_waitKeys waited)] at counted
  simp only [↓reduceIte, Bool.false_eq_true] at counted
  omega

omit fired in
/-- A log split at a task and at one placed before it. -/
theorem exists_earlier_split {other : Task} (shape : log = older ++ second :: newer)
    (inOlder : other ∈ older) :
    ∃ prior rest,
      older = prior ++ other :: rest ∧ log = prior ++ other :: (rest ++ second :: newer) := by
  obtain ⟨prior, rest, olderShape⟩ := List.mem_iff_append.mp inOlder
  exact ⟨prior, rest, olderShape, by rw [shape, olderShape]; simp⟩

/-- What every run places before a task is placed before it. -/
theorem Fires.firedBefore_mem (before : FiredBefore program state.sync.drainsQueue first second) :
    ∀ older newer, log = older ++ second :: newer → first ∈ older := by
  have distinct : log.Nodup := List.Nodup.of_map _ fired.log_nodup
  induction before with
  | gate gates => exact fun older newer shape => fired.gates_mem gates shape
  | @trans _ _ third _ _ firstSecond secondThird =>
    intro older newer shape
    obtain ⟨prior, rest, rfl, split⟩ := exists_earlier_split shape (secondThird older newer shape)
    exact List.mem_append_left _ (firstSecond prior (rest ++ third :: newer) split)
  | @credit earlierWaits afterSet afterWait set wait key isSet setFeeds drains waitsDistinct
      areWaits _ _ _ others waitsBefore setFirst waitFirst =>
    intro older newer shape
    by_contra absent
    have unplaced : ∀ other ∈ set :: (afterSet ++ afterWait), other ∉ older := by
      intro other member inOlder
      obtain ⟨prior, rest, olderShape, otherShape⟩ := exists_earlier_split shape inOlder
      rcases List.mem_cons.mp member with isSame | isOther
      · exact absent (isSame ▸ inOlder)
      rcases List.mem_append.mp isOther with followsSet | followsWait
      · refine absent ?_
        rw [olderShape]
        exact List.mem_append_left _ (setFirst other followsSet _ _ otherShape)
      · have again := waitFirst other followsWait _ _ otherShape
        rw [otherShape] at distinct
        exact (List.nodup_append.mp distinct).2.2 wait again wait (by simp) rfl
    have olderDistinct : older.Nodup := by
      rw [shape] at distinct
      exact (List.nodup_append.mp distinct).1
    have fewSets := others.countP_le isSet setFeeds
      (fun task member => fired.log_mem (by rw [shape]; exact List.mem_append_left _ member))
      olderDistinct unplaced
    have enoughWaits : earlierWaits.length ≤ older.countP (state.sync.drainsQueue key) := by
      rw [← List.countP_eq_length.mpr areWaits]
      exact (waitsDistinct.subperm fun other member =>
        waitsBefore other member older newer shape).countP_le _
    have received := fired.countP_drains_lt drains shape
    omega

/-- Waits that every run places before a task are placed before it. -/
theorem WaitsBefore.length_le {waits : List Task}
    (before : WaitsBefore program state.sync.drainsQueue key second waits)
    (shape : log = older ++ second :: newer) :
    waits.length ≤ older.countP (state.sync.drainsQueue key) := by
  rw [← List.countP_eq_length.mpr before.areWaits]
  exact (before.distinct.subperm fun wait member =>
    fired.firedBefore_mem (before.firedBefore wait member) older newer shape).countP_le _

/-- A set that the program holds back is placed on a queue of at most 14 credits. -/
theorem SetsHeldBack.countP_le (held : SetsHeldBack program state.sync.drainsQueue)
    (shape : log = older ++ set :: newer) (isSet : set.operation = .setCrossFlag)
    (member : key ∈ setKeys set) :
    older.countP (feeds key) ≤ older.countP (state.sync.drainsQueue key) + 14 := by
  have isTask : set ∈ program.tasks := fired.log_mem (by rw [shape]; simp)
  obtain ⟨laterSets, earlierWaits, later, waitsBefore, others⟩ := held set isTask isSet key member
  have distinct : log.Nodup := List.Nodup.of_map _ fired.log_nodup
  have unplaced : ∀ other ∈ set :: laterSets, other ∉ older := by
    intro other isOther inOlder
    obtain ⟨prior, rest, olderShape, otherShape⟩ := exists_earlier_split shape inOlder
    rw [shape] at distinct
    have fresh : set ∉ older :=
      fun again => (List.nodup_append.mp distinct).2.2 set again set (by simp) rfl
    rcases List.mem_cons.mp isOther with isSame | isLater
    · exact fresh (isSame ▸ inOlder)
    · refine fresh ?_
      rw [olderShape]
      exact List.mem_append_left _
        (fired.firedBefore_mem (later other isLater) prior _ otherShape)
  have olderDistinct : older.Nodup := by
    rw [shape] at distinct
    exact (List.nodup_append.mp distinct).1
  have fewSets := others.countP_le isTask (by simpa [feeds] using member)
    (fun task inOlder => fired.log_mem (by rw [shape]; exact List.mem_append_left _ inOlder))
    olderDistinct unplaced
  have enoughWaits := waitsBefore.length_le fired shape
  omega

end

/-! ## Sets behind one another and behind the waits they depend on -/

/-- Later sets of a channel on the queue of a set. -/
def laterSets (key : FlagKey) (set : Task) (after : List Task) : List Task :=
  after.filter fun later => feeds key later && decide (set.resource = later.resource)

/-- Waits of a channel that a set depends on. -/
def awaitedWaits (program : KernelProgram) (drains : FlagKey → Task → Bool) (key : FlagKey)
    (set : Task) : List Task :=
  program.tasks.filter fun wait =>
    drains key wait && decide (wait.taskId ∈ executionDependencies set)

/-- On every channel of a mode-2 set, sets behind it and waits it depends on leave 14 sets. -/
def FewOtherSets (program : KernelProgram) (drains : FlagKey → Task → Bool) : Prop :=
  ∀ before set after, program.tasks = before ++ set :: after →
    set.operation = .setCrossFlag →
    ∀ key ∈ setKeys set,
      program.tasks.countP (feeds key) ≤
        (laterSets key set after).length + 1 + ((awaitedWaits program drains key set).length + 14)

instance (program : KernelProgram) (drains : FlagKey → Task → Bool) :
    Decidable (FewOtherSets program drains) :=
  decidableForallSplit

/-- With few sets on a channel all of them are held back. -/
theorem FewOtherSets.heldBack {drains : FlagKey → Task → Bool}
    (few : FewOtherSets program drains) : SetsHeldBack program drains := by
  have distinct : program.tasks.Nodup := List.Nodup.of_map _ program.taskIds_nodup
  intro set isTask isSet key member
  obtain ⟨before, after, shape⟩ := List.mem_iff_append.mp isTask
  have isLater : ∀ later ∈ laterSets key set after,
      later ∈ after ∧ feeds key later = true ∧ set.resource = later.resource := by
    intro later inLater
    simpa [laterSets] using inLater
  refine ⟨laterSets key set after, awaitedWaits program drains key set, ?_, ?_, ?_⟩
  · intro later inLater
    obtain ⟨inAfter, _, sameResource⟩ := isLater later inLater
    obtain ⟨between, rest, afterShape⟩ := List.mem_iff_append.mp inAfter
    have laterShape : program.tasks = (before ++ set :: between) ++ later :: rest := by
      rw [shape, afterShape]
      simp
    exact .gate (.queue laterShape (by simp) sameResource)
  · have awaited : ∀ wait ∈ awaitedWaits program drains key set,
        wait ∈ program.tasks ∧ drains key wait = true ∧
          wait.taskId ∈ executionDependencies set := by
      intro wait inAwaited
      simpa [awaitedWaits] using inAwaited
    exact {
      distinct := distinct.filter _
      areWaits := fun wait inAwaited => (awaited wait inAwaited).2.1
      firedBefore := fun wait inAwaited =>
        .gate (.dependency (awaited wait inAwaited).1 isTask (awaited wait inAwaited).2.2) }
  · rw [shape] at distinct
    have tailDistinct := (List.nodup_append.mp distinct).2.1
    exact {
      distinct := List.Nodup.sublist (List.filter_sublist.cons_cons set) tailDistinct
      areSets := fun other inLater =>
        ⟨by simp [shape, (isLater other inLater).1], (isLater other inLater).2.1⟩
      counts := few before set after shape isSet key member }

end HeldSets

/--
In blocking mode every firing sequence whose sets are tied to the waits that make room for them
keeps its credits bounded.
-/
theorem blocking_bounds_credits
    (syncConfig : SyncConfig)
    (blocking : syncConfig.flagBlocking = true)
    (config : SimulatorConfig)
    (program : KernelProgram)
    (log : List Task)
    (state : RunState FlagBarrierModel)
    (fired : Fires (flagBarrierSynchronizationModel syncConfig) config program log state)
    (tied : SetsTied syncConfig program log state) :
    CreditsBounded syncConfig program log state :=
  fired.creditsBounded blocking (fired.timelySets tied)

/-- Two exchanges over one channel with a barrier of the lane between them. -/
def fencedExchanges : KernelProgram where
  cores :=
    [{ coreId := 0
       tasks :=
         [cubeFlag "set-0" .setFlag .mte2,
          cubeFlag "wait-0" .waitFlag .m,
          { taskId := "barrier", operation := .barrierAll, coreId := 0
            lane := .cube, pipe := .s, durationCycles := 1 },
          cubeFlag "set-1" .setFlag .mte2,
          cubeFlag "wait-1" .waitFlag .m] }]

/-- The barrier ties the second set to the first wait, and the depth is kept. -/
theorem fencedExchanges_bounded :
    ∃ state,
      Fires (flagBarrierSynchronizationModel { flagBlocking := true }) {} fencedExchanges
          fencedExchanges.tasks state ∧
        SetsTied { flagBlocking := true } fencedExchanges fencedExchanges.tasks state ∧
        CreditsBounded { flagBlocking := true } fencedExchanges fencedExchanges.tasks
          state := by
  have observed : ((flagBarrierSynchronizationModel { flagBlocking := true }).reset
          fencedExchanges).toOption.bind
        (fun sync =>
          (replay (flagBarrierSynchronizationModel { flagBlocking := true }) {}
            fencedExchanges (RunState.initial sync) fencedExchanges.tasks).map fun state =>
            freeingWaits { flagBlocking := true } state.sync (fencedExchanges.tasks.take 3)
              (.localFlag 0 .cube (.pipe .mte2) (.pipe .m) 0)) =
      some [fencedExchanges.tasks[1]] := by
    decide +kernel
  obtain ⟨state, fired, freeing⟩ := replay_observed (fun _ member => member) observed
  have onlyReuse :
      ∀ index : Fin fencedExchanges.tasks.length,
        ∀ key ∈ setKeys fencedExchanges.tasks[index],
          channelDepth { flagBlocking := true } key ≤
            (fencedExchanges.tasks.take index).countP (feeds key) →
          index = ⟨3, by decide +kernel⟩ ∧
            key = .localFlag 0 .cube (.pipe .mte2) (.pipe .m) 0 := by
    decide +kernel
  have waitThenBarrier :
      Gates fencedExchanges fencedExchanges.tasks[1] fencedExchanges.tasks[2] :=
    @Gates.drain _ (fencedExchanges.tasks.take 2) (fencedExchanges.tasks.drop 3) _ _
      (by decide +kernel) (by decide +kernel) (by decide +kernel) (by decide +kernel)
      (by decide +kernel)
  have barrierThenSet :
      Gates fencedExchanges fencedExchanges.tasks[2] fencedExchanges.tasks[3] :=
    @Gates.fence _ (fencedExchanges.tasks.take 3) (fencedExchanges.tasks.drop 4) _ _
      (by decide +kernel) (by decide +kernel) (by decide +kernel)
  have tied : SetsTied { flagBlocking := true } fencedExchanges fencedExchanges.tasks state := by
    unfold SetsTied
    simp only [forall_split_iff]
    intro index key member reuses
    obtain ⟨isSecond, isKey⟩ := onlyReuse index key member reuses
    subst isSecond
    subst isKey
    refine ⟨by decide +kernel, fun wait isFreeing => ?_⟩
    rw [freeing] at isFreeing
    rw [List.mem_singleton.mp isFreeing]
    exact .trans (.gate waitThenBarrier) (.gate barrierThenSet)
  exact ⟨state, fired, tied,
    blocking_bounds_credits { flagBlocking := true } rfl {} fencedExchanges _ state fired tied⟩

/--
When the program holds its mode-2 sets back, the default model raises no overflow on a kernel
that can be scheduled without the limit.
-/
theorem no_overflow_of_heldBack
    (config : SimulatorConfig)
    (program : KernelProgram)
    (model : FlagBarrierModel)
    (accepts : reset {} program = .ok model)
    (held : SetsHeldBack program model.drainsQueue)
    (final : RunState FlagBarrierModel)
    (scheduled :
      scheduleState (flagBarrierSynchronizationModel { creditLimit := none }) config
        program = .ok final)
    (taskId : TaskId)
    (key : FlagKey) :
    run (flagBarrierSynchronizationModel {}) config program ≠
      .error (.validation taskId (.overflowedCredits key)) := by
  intro raised
  have unlimited :
      scheduleState (flagBarrierSynchronizationModel (SyncConfig.unlimited {})) config
        program = .ok final := scheduled
  rcases scheduleState_lockstep {} config program with agree | ⟨set, key, _, isTask, exceeds⟩
  · rw [unlimited] at agree
    cases limited : scheduleState (flagBarrierSynchronizationModel {}) config program with
    | error failure =>
      rw [limited] at agree
      cases agree
    | ok state =>
      simp only [run, limited] at raised
      split at raised <;> cases raised
  · obtain ⟨older, state, next, reached, configured, limit⟩ := exceeds
    have placed := reached.place isTask limit.placed
    have sameModel : SetsHeldBack program next.sync.drainsQueue := by
      rwa [placed.accepted.drainsQueue_eq (reset_accepted accepts).1]
    have below := sameModel.countP_le placed rfl limit.isSet limit.feedsKey
    have sameDrains : state.unlimited.sync.drainsQueue = next.sync.drainsQueue :=
      reached.accepted.drainsQueue_eq placed.accepted
    have full := limit.full
    obtain ⟨queue, _⟩ := reached.tokens_eq key
    have queueState : state.sync.state.tokens key = state.unlimited.sync.state.tokens key := rfl
    rw [FlagBarrierModel.atLimit, configured, queueState, queue, List.length_drop,
      List.length_map, ← List.countP_eq_length_filter, sameDrains] at full
    simp only [Option.any_some, decide_eq_true_eq] at full
    omega

/-- Sixteen exchanges whose last set depends on the first wait of both vector lanes. -/
def backPressedExchanges : KernelProgram where
  cores :=
    [{ coreId := 0
       tasks :=
         mode2Exchange 15 ++
           [{ mode2Flag "set-" 15 .setCrossFlag .cube .fix 10 with
              dependencies := ["wait0-0", "wait1-0"]
              notSelfDependent := by decide +kernel
              dependenciesUnique := by decide +kernel },
            mode2Flag "wait0-" 15 .waitCrossFlag .vector0 .s 1,
            mode2Flag "wait1-" 15 .waitCrossFlag .vector1 .s 1]
       tasksOwned := by decide +kernel }]
  idsUnique := by decide +kernel
  dependenciesKnown := by decide +kernel
  acyclic := by decide +kernel

/-- Fifteen credits are queued before the first wait, and the last set finds a free slot. -/
theorem backPressedExchanges_no_overflow :
    ∃ model,
      reset {} backPressedExchanges = .ok model ∧
        SetsHeldBack backPressedExchanges model.drainsQueue ∧
        ∀ taskId key,
          run (flagBarrierSynchronizationModel {}) {} backPressedExchanges ≠
            .error (.validation taskId (.overflowedCredits key)) := by
  have counted :
      (reset {} backPressedExchanges).toOption.map
        (fun model => decide (FewOtherSets backPressedExchanges model.drainsQueue)) =
      some true := by
    decide +kernel
  have completes :
      (scheduleState (flagBarrierSynchronizationModel { creditLimit := none }) {}
          backPressedExchanges).toOption.map
        (fun final => (firingOrder backPressedExchanges final).length) = some 48 := by
    decide +kernel
  obtain ⟨model, accepts, counts⟩ := ok_of_observed counted
  obtain ⟨final, scheduled, _⟩ := ok_of_observed completes
  have held : SetsHeldBack backPressedExchanges model.drainsQueue :=
    (of_decide_eq_true counts).heldBack
  exact ⟨model, accepts, held,
    no_overflow_of_heldBack {} backPressedExchanges model accepts held final scheduled⟩

end TilelangAscend.Simulator
