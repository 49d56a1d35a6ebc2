import TilelangAscend.TaskNeeds

namespace TilelangAscend.Simulator

open ListHistory
open FlagBarrierModel

/-!
# The order of credits in simulated time

A queue holds its credits in the order in which the scheduler fired the sets, and the
scheduler fires tasks by program order within a pass.  All sets of a local queue sit on one
pipe, so there the firing order is the order of simulated time.  The key of a mode-2 queue
does not name a pipe: its sets may sit on several pipes of one lane, and their credits are in
time order only where the program itself orders the sets.  `OrderedBefore` collects what orders
two tasks in every run.
-/

/--
Sets of a queue besides a given one, so many that at most a number of further sets of the
queue remain.
-/
structure OtherSets
    (program : KernelProgram)
    (key : FlagKey)
    (set : Task)
    (others : List Task)
    (remaining : Nat) :
    Prop where
  distinct : (set :: others).Nodup
  areSets : ∀ other ∈ others, other ∈ program.tasks ∧ feeds key other = true
  counts : program.tasks.countP (feeds key) ≤ others.length + 1 + remaining

/--
The first task ends before the second one starts in every run.  The last rule is about a wait
and a set of one queue: the wait follows the set if at most as many other sets of the queue as
waits before this wait can fire without the set and before the wait.
-/
inductive OrderedBefore
    (program : KernelProgram)
    (model : FlagBarrierModel) :
    Task → Task → Prop where
  | queue
      {before after : List Task}
      {first second : Task} :
      program.tasks = before ++ second :: after →
      first ∈ before →
      first.resource = second.resource →
      OrderedBefore program model first second
  | dependency
      {first second : Task} :
      second ∈ program.tasks →
      first.taskId ∈ executionDependencies second →
      OrderedBefore program model first second
  | fence
      {before after : List Task}
      {first second : Task} :
      program.tasks = before ++ second :: after →
      first ∈ before →
      isFenceOn second.participant first = true →
      OrderedBefore program model first second
  | drain
      {before after : List Task}
      {first second : Task} :
      program.tasks = before ++ second :: after →
      drainsLane second = true →
      (∀ other ∈ before, isSyncAllOn second.participant other = false) →
      first ∈ before →
      first.participant = second.participant →
      OrderedBefore program model first second
  | trans
      {first second third : Task} :
      OrderedBefore program model first second →
      OrderedBefore program model second third →
      OrderedBefore program model first third
  | credit
      {before after afterSet afterWait : List Task}
      {set wait : Task}
      {key : FlagKey} :
      set ∈ program.tasks →
      feeds key set = true →
      program.tasks = before ++ wait :: after →
      model.drainsQueue key wait = true →
      (∀ other ∈ before, isSyncAllOn wait.participant other = false) →
      (∀ other ∈ afterSet, OrderedBefore program model set other) →
      (∀ other ∈ afterWait, OrderedBefore program model wait other) →
      OtherSets program key set (afterSet ++ afterWait) (before.countP (model.drainsQueue key)) →
      OrderedBefore program model set wait

/-- Without a set and the given others, no more sets of the queue than remain can be placed. -/
theorem OtherSets.countP_le {program : KernelProgram} {key : FlagKey} {set : Task}
    {others placed : List Task} {remaining : Nat}
    (sets : OtherSets program key set others remaining) (isTask : set ∈ program.tasks)
    (fed : feeds key set = true) (areTasks : ∀ task ∈ placed, task ∈ program.tasks)
    (distinct : placed.Nodup) (unplaced : ∀ other ∈ set :: others, other ∉ placed) :
    placed.countP (feeds key) ≤ remaining := by
  have together : (placed.filter (feeds key) ++ set :: others).Nodup := by
    refine List.nodup_append.mpr ⟨distinct.filter _, sets.distinct, ?_⟩
    intro task isPlaced other member same
    exact unplaced other member (same ▸ List.mem_of_mem_filter isPlaced)
  have within : placed.filter (feeds key) ++ set :: others ⊆ program.tasks.filter (feeds key) := by
    intro task member
    rcases List.mem_append.mp member with isPlaced | isRest
    · obtain ⟨inPlaced, placedFeeds⟩ := List.mem_filter.mp isPlaced
      exact List.mem_filter.mpr ⟨areTasks task inPlaced, placedFeeds⟩
    · rcases List.mem_cons.mp isRest with isSet | isOther
      · rw [isSet]
        exact List.mem_filter.mpr ⟨isTask, fed⟩
      · exact List.mem_filter.mpr (sets.areSets task isOther)
  have bounded := (together.subperm within).length_le
  have counts := sets.counts
  rw [← List.countP_eq_length_filter, List.length_append, List.length_cons,
    ← List.countP_eq_length_filter] at bounded
  omega

/-- The sets of every mode-2 queue are ordered by the program. -/
def OrderedSources (program : KernelProgram) (model : FlagBarrierModel) : Prop :=
  ∀ coreId direction lane flagId,
    ∀ first ∈ program.tasks,
      ∀ second ∈ program.tasks, first ≠ second →
        feeds (.crossFlag coreId direction lane flagId) first = true →
        feeds (.crossFlag coreId direction lane flagId) second = true →
        OrderedBefore program model first second ∨ OrderedBefore program model second first

/-- Credits of a queue that a firing sequence has produced, in firing order. -/
def producedCredits (log : List Task) (state : RunState FlagBarrierModel)
    (key : FlagKey) : List Credit :=
  (log.filter (feeds key)).map (creditOf state.completed)

/-- Credits in the order of simulated time. -/
def InTimeOrder (credits : List Credit) : Prop :=
  credits.Pairwise fun first second => first.cycle ≤ second.cycle

instance (credits : List Credit) : Decidable (InTimeOrder credits) :=
  inferInstanceAs (Decidable (List.Pairwise _ _))

/--
Credits are consumed in simulated-time order: every queue is sorted, and so is everything
produced on it, and a wait with a number on its queue pops the credit with this number; unless
a rendezvous answers for the wait, it starts no earlier than this credit.
-/
structure ConsumesInTimeOrder
    (syncConfig : SyncConfig)
    (config : SimulatorConfig)
    (program : KernelProgram)
    (log : List Task)
    (state : RunState FlagBarrierModel) :
    Prop where
  queues : ∀ key, InTimeOrder (state.sync.state.tokens key)
  produced : ∀ key, InTimeOrder (producedCredits log state key)
  consumed :
    ∀ older wait newer, log = older ++ wait :: newer →
      ∀ key ∈ state.sync.waitKeys wait,
        ∃ earlier credit rest,
          Fires (flagBarrierSynchronizationModel syncConfig) config program older earlier ∧
            earlier.sync.state.tokens key = credit :: rest ∧
            (producedCredits log state key)[older.countP (state.sync.drainsQueue key)]? =
              some credit ∧
            ((∀ other ∈ program.earlierTasks wait, isSyncAllOn wait.participant other = false) →
              credit.cycle ≤ startOf state.completed wait)

theorem le_of_inTimeOrder {credits : List Credit} (sorted : InTimeOrder credits)
    {first second : Nat} {firstCredit secondCredit : Credit} (inOrder : first ≤ second)
    (isFirst : credits[first]? = some firstCredit)
    (isSecond : credits[second]? = some secondCredit) :
    firstCredit.cycle ≤ secondCredit.cycle := by
  obtain ⟨firstInside, firstIs⟩ := List.getElem?_eq_some_iff.mp isFirst
  obtain ⟨secondInside, secondIs⟩ := List.getElem?_eq_some_iff.mp isSecond
  rcases Nat.lt_or_eq_of_le inOrder with strictly | same
  · have ordered := List.pairwise_iff_getElem.mp sorted first second firstInside secondInside
      strictly
    rwa [firstIs, secondIs] at ordered
  · subst same
    rw [← firstIs, ← secondIs]

theorem isWait_of_waitKeys {model : FlagBarrierModel} {task : Task} {key : FlagKey}
    (waited : key ∈ model.waitKeys task) : isWait task = true := by
  unfold waitKeys auditedCrossKeys at waited
  unfold isWait
  split at waited
  · simp [*]
  · split at waited
    · simp [*]
    · simp at waited

/-! ## Ordered tasks along a run -/

section OrderedRuns

variable {syncConfig : SyncConfig} {config : SimulatorConfig} {program : KernelProgram}
  {model : FlagBarrierModel} {log : List Task} {state : RunState FlagBarrierModel}
  {first second wait set task : Task} {key : FlagKey} {afterSet afterWait : List Task}
  {next : RunState FlagBarrierModel}

theorem orderedBefore_of_resource (firstIsTask : first ∈ program.tasks)
    (secondIsTask : second ∈ program.tasks) (differs : first ≠ second)
    (sameResource : first.resource = second.resource) :
    OrderedBefore program model first second ∨ OrderedBefore program model second first := by
  obtain ⟨before, after, shape⟩ := List.mem_iff_append.mp secondIsTask
  have elsewhere : first ∈ before ∨ first ∈ after := by
    rw [shape] at firstIsTask
    simpa [differs] using firstIsTask
  rcases elsewhere with isBefore | isAfter
  · exact Or.inl (.queue shape isBefore sameResource)
  · obtain ⟨between, rest, afterShape⟩ := List.mem_iff_append.mp isAfter
    have firstShape : program.tasks = (before ++ second :: between) ++ first :: rest := by
      rw [shape, afterShape]
      simp
    exact Or.inr (.queue firstShape (by simp) sameResource.symm)

theorem SyncTaskPlacement.orderedBefore_of_feeds (placement : SyncTaskPlacement program)
    (ordered : OrderedSources program model) (firstIsTask : first ∈ program.tasks)
    (secondIsTask : second ∈ program.tasks) (differs : first ≠ second)
    (firstFeeds : feeds key first = true) (secondFeeds : feeds key second = true) :
    OrderedBefore program model first second ∨ OrderedBefore program model second first := by
  cases key with
  | crossFlag coreId direction lane flagId =>
    exact ordered coreId direction lane flagId first firstIsTask second secondIsTask differs
      firstFeeds secondFeeds
  | localFlag coreId lane src dst flagId =>
    exact orderedBefore_of_resource firstIsTask secondIsTask differs
      (placement.toLocalFlagPlacement.feeds_resource secondIsTask secondFeeds first
        firstIsTask firstFeeds)

/-- What holds along a run of a program that orders the sets of every queue. -/
structure OrderedRun
    (program : KernelProgram)
    (model : FlagBarrierModel)
    (log : List Task)
    (state : RunState FlagBarrierModel) :
    Prop where
  endsBefore :
    ∀ first second, OrderedBefore program model first second →
      EndsBefore state.completed (Task.taskId first) (Task.taskId second)
  firedInOrder : log.Pairwise fun first second => ¬ OrderedBefore program model second first
  produced : ∀ key, InTimeOrder (producedCredits log state key)

section

variable (runs : OrderedRun program model log state)
  (fired : Fires (flagBarrierSynchronizationModel syncConfig) config program log state)
include runs fired

theorem OrderedRun.mem_popped {popped pending : List Task} {waits : Nat}
    (isTask : set ∈ program.tasks) (setFeeds : feeds key set = true)
    (waitFresh : state.completed wait.taskId = none)
    (setOrdered : ∀ other ∈ afterSet, OrderedBefore program model set other)
    (waitOrdered : ∀ other ∈ afterWait, OrderedBefore program model wait other)
    (others : OtherSets program key set (afterSet ++ afterWait) waits)
    (shape : log.filter (feeds key) = popped ++ pending)
    (poppedLength : popped.length = waits + 1) : set ∈ popped := by
  by_contra absent
  have inLog : ∀ other ∈ popped, other ∈ log ∧ feeds key other = true := by
    intro other member
    have inFiltered : other ∈ log.filter (feeds key) := by
      rw [shape]
      exact List.mem_append_left _ member
    exact List.mem_filter.mp inFiltered
  have notOther : ∀ other ∈ afterSet ++ afterWait, other ∉ popped := by
    intro other isOther isPopped
    obtain ⟨record, done⟩ :=
      (fired.completed_iff other.taskId).mpr ⟨other, (inLog other isPopped).1, rfl⟩
    rcases List.mem_append.mp isOther with isAfterSet | isAfterWait
    · -- the set would have fired as well, and before the other set
      have follows := setOrdered other isAfterSet
      obtain ⟨setRecord, setDone, _⟩ := runs.endsBefore _ _ follows record done
      have setInLog : set ∈ log := (fired.completed_iff_mem_log isTask).mp ⟨setRecord, setDone⟩
      have setFired : set ∈ popped ++ pending := by
        rw [← shape]
        exact List.mem_filter.mpr ⟨setInLog, setFeeds⟩
      have setPending : set ∈ pending := by
        simpa [absent] using setFired
      have inOrder := runs.firedInOrder.sublist (List.filter_sublist (p := feeds key))
      rw [shape] at inOrder
      exact (List.pairwise_append.mp inOrder).2.2 other isPopped set setPending follows
    · obtain ⟨waitRecord, waitDone, _⟩ :=
        runs.endsBefore _ _ (waitOrdered other isAfterWait) record done
      rw [waitFresh] at waitDone
      cases waitDone
  have poppedDistinct : popped.Nodup := by
    have filtered := (List.Nodup.of_map _ fired.log_nodup).filter (feeds key)
    rw [shape] at filtered
    exact (List.nodup_append.mp filtered).1
  have counted := others.countP_le isTask setFeeds
    (fun other member => fired.log_mem (inLog other member).1) poppedDistinct
    (List.forall_mem_cons.mpr ⟨absent, notOther⟩)
  rw [List.countP_eq_length.mpr fun other member => (inLog other member).2] at counted
  omega

theorem OrderedRun.set_done (placement : SyncTaskPlacement program)
    (accepted : AcceptedModel syncConfig program model) {before after : List Task}
    (isTask : set ∈ program.tasks) (setFeeds : feeds key set = true)
    (shape : program.tasks = before ++ wait :: after) (drains : model.drainsQueue key wait = true)
    (unreleased : ∀ other ∈ before, isSyncAllOn wait.participant other = false)
    (setOrdered : ∀ other ∈ afterSet, OrderedBefore program model set other)
    (waitOrdered : ∀ other ∈ afterWait, OrderedBefore program model wait other)
    (others :
      OtherSets program key set (afterSet ++ afterWait) (before.countP (model.drainsQueue key)))
    (step :
      PlacedStep (flagBarrierSynchronizationModel syncConfig)
        (fifoPredecessors program.tasks) state wait next) :
    ∃ record,
      state.completed set.taskId = some record ∧ record.endCycle ≤ step.record.startCycle := by
  have waitIsTask : wait ∈ program.tasks := by
    rw [shape]
    simp
  have sameKeys : state.sync.waitKeys = model.waitKeys := fired.accepted.waitKeys_eq accepted
  have waited : key ∈ state.sync.waitKeys wait := by
    rw [sameKeys]
    simpa [drainsQueue] using drains
  have waits : isWait wait = true := isWait_of_waitKeys waited
  obtain ⟨credit, rest, queue, bounded⟩ := fired.wait_credits shape unreleased waits step key waited
  have sameDrains : state.sync.drainsQueue key = model.drainsQueue key := by
    funext task
    simp [drainsQueue, sameKeys]
  have consumed :
      log.countP (state.sync.drainsQueue key) = before.countP (model.drainsQueue key) := by
    rw [sameDrains, List.countP_eq_length_filter, List.countP_eq_length_filter,
      fired.class_log shape step.queueHead (placement.drains_resource waitIsTask drains)]
  obtain ⟨tokens, _⟩ := fired.tokens_eq key
  rw [queue, consumed] at tokens
  have popped :
      (producedCredits log state key)[before.countP (model.drainsQueue key)]? = some credit := by
    have head := congrArg List.head? tokens
    rw [List.head?_cons, List.head?_drop] at head
    exact head.symm
  have inRange : before.countP (model.drainsQueue key) < (log.filter (feeds key)).length := by
    have within := (List.getElem?_eq_some_iff.mp popped).1
    simpa [producedCredits] using within
  have member :=
    runs.mem_popped fired isTask setFeeds step.fresh setOrdered waitOrdered others
      (List.take_append_drop (before.countP (model.drainsQueue key) + 1)
        (log.filter (feeds key))).symm
      (by rw [List.length_take]; omega)
  obtain ⟨index, inTake, isSet⟩ := List.getElem_of_mem member
  have atMost : index ≤ before.countP (model.drainsQueue key) := by
    rw [List.length_take] at inTake
    omega
  obtain ⟨record, done⟩ :=
    (fired.completed_iff set.taskId).mpr
      ⟨set, List.mem_of_mem_filter (List.mem_of_mem_take member), rfl⟩
  have setCredit :
      (producedCredits log state key)[index]? = some (creditOf state.completed set) := by
    rw [List.getElem_take] at isSet
    rw [producedCredits, List.getElem?_map, List.getElem?_eq_getElem (by omega), isSet]
    rfl
  have earlier : (creditOf state.completed set).cycle ≤ credit.cycle :=
    le_of_inTimeOrder (runs.produced key) atMost setCredit popped
  refine ⟨record, done, ?_⟩
  have cycle : (creditOf state.completed set).cycle = record.endCycle := by
    simp [creditOf, done]
  omega

theorem OrderedRun.endsBefore_step (placement : SyncTaskPlacement program)
    (accepted : AcceptedModel syncConfig program model) (isTask : task ∈ program.tasks)
    (nextFired :
      Fires (flagBarrierSynchronizationModel syncConfig) config program (log ++ [task]) next)
    (step :
      PlacedStep (flagBarrierSynchronizationModel syncConfig)
        (fifoPredecessors program.tasks) state task next)
    (ordered : OrderedBefore program model first second) :
    EndsBefore next.completed first.taskId second.taskId := by
  induction ordered with
  | queue shape member sameResource => exact nextFired.resource_endsBefore shape member sameResource
  | dependency isSecond member => exact nextFired.dependency_endsBefore isSecond member
  | fence shape member fences => exact nextFired.fence_endsBefore shape member fences
  | drain shape drains unreleased member sameLane =>
    exact nextFired.drain_endsBefore shape drains unreleased member sameLane
  | trans _ _ firstSecond secondThird => exact nextFired.endsBefore_trans firstSecond secondThird
  | @credit before after afterSet afterWait set wait key isSet setFeeds shape drains unreleased
      setOrdered waitOrdered others _ _ =>
      intro record done
      by_cases same : wait.taskId = task.taskId
      · have isWaitTask : wait ∈ program.tasks := by
          rw [shape]
          simp
        have sameTask : wait = task := eq_of_key_eq program.taskIds_nodup isWaitTask isTask same
        subst sameTask
        rw [step.completed_self] at done
        cases done
        obtain ⟨setRecord, setDone, ends⟩ :=
          runs.set_done fired placement accepted isSet setFeeds shape drains unreleased
            setOrdered waitOrdered others step
        exact ⟨setRecord, step.completed_persists setDone, ends⟩
      · -- the wait was placed before, and the link held then
        rw [step.completed_other same] at done
        obtain ⟨setRecord, setDone, ends⟩ :=
          runs.endsBefore set wait
            (.credit isSet setFeeds shape drains unreleased setOrdered waitOrdered others)
            record done
        exact ⟨setRecord, step.completed_persists setDone, ends⟩

end

theorem PlacedStep.producedCredits_eq {fifo : TaskId → Option TaskId}
    (step : PlacedStep (flagBarrierSynchronizationModel syncConfig) fifo state task next)
    (fired : Fires (flagBarrierSynchronizationModel syncConfig) config program log state) :
    producedCredits (log ++ [task]) next key =
      producedCredits log state key ++
        ([task].filter (feeds key)).map (creditOf next.completed) := by
  have kept :
      (log.filter (feeds key)).map (creditOf next.completed) = producedCredits log state key := by
    refine List.map_congr_left ?_
    intro other member
    exact step.creditOf_eq (fired.placed_not_mem step (List.mem_of_mem_filter member))
  rw [producedCredits, List.filter_append, List.map_append, kept]

theorem OrderedRun.produced_step (runs : OrderedRun program model log state)
    (fired : Fires (flagBarrierSynchronizationModel syncConfig) config program log state)
    (placement : SyncTaskPlacement program) (ordered : OrderedSources program model)
    (isTask : task ∈ program.tasks)
    (nextFired :
      Fires (flagBarrierSynchronizationModel syncConfig) config program (log ++ [task]) next)
    (step :
      PlacedStep (flagBarrierSynchronizationModel syncConfig)
        (fifoPredecessors program.tasks) state task next)
    (endsBefore :
      ∀ first second, OrderedBefore program model first second →
        EndsBefore next.completed first.taskId second.taskId)
    (key : FlagKey) : InTimeOrder (producedCredits (log ++ [task]) next key) := by
  rw [step.producedCredits_eq fired]
  refine List.pairwise_append.mpr ⟨runs.produced key, ?_, ?_⟩
  · by_cases taskFeeds : feeds key task = true
    · simp [taskFeeds]
    · simp [taskFeeds]
  · intro firstCredit isFirst secondCredit isSecond
    obtain ⟨second, isPlaced, secondIs⟩ := List.mem_map.mp isSecond
    obtain ⟨onlyTask, taskFeeds⟩ := List.mem_filter.mp isPlaced
    have isSame : second = task := List.mem_singleton.mp onlyTask
    subst isSame
    obtain ⟨first, firstFired, firstIs⟩ := List.mem_map.mp isFirst
    obtain ⟨inLog, firstFeeds⟩ := List.mem_filter.mp firstFired
    have differs : first ≠ second := by
      intro same
      exact fired.placed_not_mem step inLog (congrArg Task.taskId same)
    obtain ⟨firstRecord, firstDone⟩ := (fired.completed_iff first.taskId).mpr ⟨first, inLog, rfl⟩
    have firstCycle : firstCredit.cycle = firstRecord.endCycle := by
      rw [← firstIs]
      simp [creditOf, firstDone]
    have secondCycle : secondCredit.cycle = step.record.endCycle := by
      rw [← secondIs, step.creditOf_self]
    rcases placement.orderedBefore_of_feeds ordered (fired.log_mem inLog) isTask differs
      firstFeeds taskFeeds with inOrder | reversed
    · obtain ⟨record, done, ends⟩ := endsBefore _ _ inOrder _ step.completed_self
      have sameRecord : record = firstRecord := by
        have persists := step.completed_persists firstDone
        rw [done] at persists
        exact Option.some.inj persists
      have runsForward := nextFired.start_le_end step.completed_self
      rw [sameRecord] at ends
      omega
    · obtain ⟨record, done, _⟩ := runs.endsBefore _ _ reversed firstRecord firstDone
      rw [step.fresh] at done
      cases done

/-- With ordered sources every firing sequence is ordered. -/
theorem Fires.orderedRun
    (fired : Fires (flagBarrierSynchronizationModel syncConfig) config program log state)
    (placement : SyncTaskPlacement program) (accepted : AcceptedModel syncConfig program model)
    (ordered : OrderedSources program model) : OrderedRun program model log state := by
  induction fired with
  | initial accepts =>
    refine {
      endsBefore := ?_
      firedInOrder := List.Pairwise.nil
      produced := ?_ }
    · intro first second _ record done
      simp [RunState.initial] at done
    · intro key
      exact List.Pairwise.nil
  | @place earlierLog earlierState next task earlier isTask placed ih =>
    obtain ⟨step⟩ := attempt_placed placed
    have nextFired := earlier.place isTask placed
    have endsBefore : ∀ first second, OrderedBefore program model first second →
        EndsBefore next.completed first.taskId second.taskId := by
      intro first second inOrder
      exact ih.endsBefore_step earlier placement accepted isTask nextFired step inOrder
    refine {
      endsBefore := endsBefore
      firedInOrder := ?_
      produced := ih.produced_step earlier placement ordered isTask
        nextFired step endsBefore }
    refine List.pairwise_append.mpr ⟨ih.firedInOrder, List.pairwise_singleton _ _, ?_⟩
    intro first inLog second onlyTask reversed
    rw [List.mem_singleton.mp onlyTask] at reversed
    obtain ⟨record, done⟩ := (earlier.completed_iff first.taskId).mpr ⟨first, inLog, rfl⟩
    obtain ⟨taskRecord, taskDone, _⟩ := ih.endsBefore _ _ reversed record done
    rw [step.fresh] at taskDone
    cases taskDone

/-! ## Which credit a wait consumes -/

/-- A wait consumes the credit of its place in the queue. -/
theorem Fires.consumed_credit
    (fired : Fires (flagBarrierSynchronizationModel syncConfig) config program log state)
    {older newer : List Task} (shape : log = older ++ wait :: newer)
    (waited : key ∈ state.sync.waitKeys wait) :
    ∃ earlier credit rest,
      Fires (flagBarrierSynchronizationModel syncConfig) config program older earlier ∧
        earlier.sync.state.tokens key = credit :: rest ∧
        (producedCredits log state key)[older.countP (state.sync.drainsQueue key)]? = some credit ∧
        ((∀ other ∈ program.earlierTasks wait, isSyncAllOn wait.participant other = false) →
          credit.cycle ≤ startOf state.completed wait) := by
  induction fired generalizing newer with
  | initial => simp at shape
  | @place earlierLog earlierState next task earlier isTask placed ih =>
    obtain ⟨step⟩ := attempt_placed placed
    have sameKeys : next.sync.waitKeys = earlierState.sync.waitKeys :=
      (earlier.place isTask placed).accepted.waitKeys_eq earlier.accepted
    have sameDrains : next.sync.drainsQueue key = earlierState.sync.drainsQueue key := by
      funext other
      simp [drainsQueue, sameKeys]
    rw [sameKeys] at waited
    rw [sameDrains, step.producedCredits_eq earlier]
    cases newer using List.reverseRecOn with
    | nil =>
      obtain ⟨logSame, taskSame⟩ := List.append_inj' shape rfl
      simp only [List.cons.injEq, and_true] at taskSame
      subst logSame
      subst taskSame
      have filled := step.sync_effect.1 key waited
      obtain ⟨credit, rest, queue⟩ := List.exists_cons_of_ne_nil filled
      have popped :
          (producedCredits earlierLog earlierState key)[
            earlierLog.countP (earlierState.sync.drainsQueue key)]? = some credit := by
        have head := congrArg List.head? (earlier.tokens_eq key).1
        rw [queue, List.head?_cons, List.head?_drop] at head
        exact head.symm
      refine ⟨earlierState, credit, rest, earlier, queue, ?_, ?_⟩
      · rw [List.getElem?_append_left (List.getElem?_eq_some_iff.mp popped).1]
        exact popped
      · intro unreleased
        obtain ⟨before, after, programShape⟩ := List.mem_iff_append.mp isTask
        rw [KernelProgram.earlierTasks_eq programShape] at unreleased
        obtain ⟨head, tail, headQueue, bounded⟩ :=
          earlier.wait_credits programShape unreleased (isWait_of_waitKeys waited) step key waited
        rw [queue] at headQueue
        cases headQueue
        simpa [startOf, step.completed_self] using bounded
    | append_singleton inner last =>
      have split : earlierLog ++ [task] = (older ++ wait :: inner) ++ [last] := by
        rw [shape]
        simp
      obtain ⟨logSame, _⟩ := List.append_inj' split rfl
      obtain ⟨origin, credit, rest, reached, queue, popped, bounded⟩ := ih logSame waited
      have inLog : wait ∈ earlierLog := by
        rw [logSame]
        simp
      refine ⟨origin, credit, rest, reached, queue, ?_, ?_⟩
      · rw [List.getElem?_append_left (List.getElem?_eq_some_iff.mp popped).1]
        exact popped
      · rw [step.startOf_eq (earlier.placed_not_mem step inLog)]
        exact bounded

end OrderedRuns

/--
In every state of every run of a program that orders the sets of each mode-2 queue, credits
are consumed in simulated-time order.
-/
theorem credits_consumed_in_time_order
    (syncConfig : SyncConfig)
    (config : SimulatorConfig)
    (program : KernelProgram)
    (placement : SyncTaskPlacement program)
    (model : FlagBarrierModel)
    (accepts : reset syncConfig program = .ok model)
    (ordered : OrderedSources program model)
    (log : List Task)
    (state : RunState FlagBarrierModel)
    (fired : Fires (flagBarrierSynchronizationModel syncConfig) config program log state) :
    ConsumesInTimeOrder syncConfig config program log state := by
  have runs := fired.orderedRun placement (reset_accepted accepts).1 ordered
  refine {
    queues := ?_
    produced := runs.produced
    consumed := fun older wait newer shape key waited => fired.consumed_credit shape waited }
  intro key
  rw [(fired.tokens_eq key).1]
  exact (runs.produced key).sublist (List.drop_sublist _ _)

/-- A slow copy and a set behind it on the fixpipe, and a set of the same flag on the load pipe. -/
def twoSourceTasks : List Task :=
  [{ taskId := "copy", operation := .other "copy", coreId := 0
     lane := .cube, pipe := .fix, durationCycles := 100 },
   mode2Flag "set-" 0 .setCrossFlag .cube .fix 1,
   mode2Flag "set-" 1 .setCrossFlag .cube .mte2 1]

/-- Waits of both vector lanes for two credits. -/
def pairedWaits : List Task :=
  [mode2Flag "wait0-" 0 .waitCrossFlag .vector0 .s 1,
   mode2Flag "wait1-" 0 .waitCrossFlag .vector1 .s 1,
   mode2Flag "wait0-" 1 .waitCrossFlag .vector0 .s 1,
   mode2Flag "wait1-" 1 .waitCrossFlag .vector1 .s 1]

/-- Two sets of one flag on two pipes, and waits for both. -/
def twoSources : KernelProgram where
  cores :=
    [{ coreId := 0, tasks := twoSourceTasks ++ pairedWaits, tasksOwned := by decide +kernel }]

/--
The run fires the tasks in program order: the late credit of the fixpipe is queued before the
early one of the load pipe, and the first wait starts only after the late one.
-/
theorem twoSources_out_of_time_order :
    (scheduleState (flagBarrierSynchronizationModel {}) {} twoSources).toOption.map
        (fun final =>
          (decide (firingOrder twoSources final = twoSources.tasks),
            startOf final.completed (mode2Flag "wait0-" 0 .waitCrossFlag .vector0 .s 1))) =
      some (true, 101) ∧
    ¬ ∀ (program : KernelProgram) (log : List Task) (state : RunState FlagBarrierModel),
        SyncTaskPlacement program →
        Fires (flagBarrierSynchronizationModel {}) {} program log state →
        ∀ key, InTimeOrder (state.sync.state.tokens key) := by
  refine ⟨by decide +kernel, ?_⟩
  intro sorted
  have placement : SyncTaskPlacement twoSources :=
    { sets := by decide +kernel
      waits := by decide +kernel
      crossSets := by decide +kernel
      crossWaits := by decide +kernel }
  have observed :
      ((flagBarrierSynchronizationModel {}).reset twoSources).toOption.bind
        (fun sync =>
          (replay (flagBarrierSynchronizationModel {}) {} twoSources
            (RunState.initial sync) twoSourceTasks).map fun state =>
            state.sync.state.tokens (.crossFlag 0 .c2v .vector0 0)) =
      some [⟨101, "set-0"⟩, ⟨1, "set-1"⟩] := by
    decide +kernel
  obtain ⟨state, fired, tokens⟩ := replay_observed (by decide +kernel) observed
  have inOrder := sorted twoSources _ state placement fired (.crossFlag 0 .c2v .vector0 0)
  rw [tokens] at inOrder
  exact absurd inOrder (by decide)

/-- The same sets with a barrier of the lane between them. -/
def fencedSources : KernelProgram where
  cores :=
    [{ coreId := 0
       tasks :=
         [mode2Flag "set-" 0 .setCrossFlag .cube .fix 100,
          { taskId := "barrier", operation := .barrierAll, coreId := 0
            lane := .cube, pipe := .s, durationCycles := 1 },
          mode2Flag "set-" 1 .setCrossFlag .cube .mte2 1] ++ pairedWaits
       tasksOwned := by decide +kernel }]

theorem fencedSources_ordered (model : FlagBarrierModel) : OrderedSources fencedSources model := by
  have setThenBarrier :
      OrderedBefore fencedSources model fencedSources.tasks[0] fencedSources.tasks[1] :=
    @OrderedBefore.drain _ _ (fencedSources.tasks.take 1) (fencedSources.tasks.drop 2) _ _
      (by decide +kernel) (by decide +kernel) (by decide +kernel) (by decide +kernel)
      (by decide +kernel)
  have barrierThenSet :
      OrderedBefore fencedSources model fencedSources.tasks[1] fencedSources.tasks[2] :=
    @OrderedBefore.fence _ _ (fencedSources.tasks.take 2) (fencedSources.tasks.drop 3) _ _
      (by decide +kernel) (by decide +kernel) (by decide +kernel)
  have onlySets :
      ∀ task ∈ fencedSources.tasks, task.operation = .setCrossFlag →
        task = fencedSources.tasks[0] ∨ task = fencedSources.tasks[2] := by
    decide +kernel
  intro coreId direction lane flagId first firstIsTask second secondIsTask differs firstFeeds
    secondFeeds
  rcases onlySets first firstIsTask (crossSet_of_feeds firstFeeds).1 with rfl | rfl
  · rcases onlySets second secondIsTask (crossSet_of_feeds secondFeeds).1 with rfl | rfl
    · exact (differs rfl).elim
    · exact Or.inl (setThenBarrier.trans barrierThenSet)
  · rcases onlySets second secondIsTask (crossSet_of_feeds secondFeeds).1 with rfl | rfl
    · exact Or.inr (setThenBarrier.trans barrierThenSet)
    · exact (differs rfl).elim

/-- With the barrier, every reached state has both credits in time order. -/
theorem fencedSources_in_time_order :
    ∃ state,
      Fires (flagBarrierSynchronizationModel {}) {} fencedSources
          (fencedSources.tasks.take 3) state ∧
        state.sync.state.tokens (.crossFlag 0 .c2v .vector0 0) = [⟨100, "set-0"⟩, ⟨102, "set-1"⟩] ∧
        ConsumesInTimeOrder {} {} fencedSources (fencedSources.tasks.take 3) state := by
  have placement : SyncTaskPlacement fencedSources :=
    { sets := by decide +kernel
      waits := by decide +kernel
      crossSets := by decide +kernel
      crossWaits := by decide +kernel }
  have observed :
      ((flagBarrierSynchronizationModel {}).reset fencedSources).toOption.bind
        (fun sync =>
          (replay (flagBarrierSynchronizationModel {}) {} fencedSources
            (RunState.initial sync) (fencedSources.tasks.take 3)).map fun state =>
            state.sync.state.tokens (.crossFlag 0 .c2v .vector0 0)) =
      some [⟨100, "set-0"⟩, ⟨102, "set-1"⟩] := by
    decide +kernel
  obtain ⟨state, fired, tokens⟩ := replay_observed (by decide +kernel) observed
  obtain ⟨model, accepts⟩ := fired.reset_ok
  exact ⟨state, fired, tokens,
    credits_consumed_in_time_order {} {} fencedSources placement model accepts
      (fencedSources_ordered model) _ state fired⟩

end TilelangAscend.Simulator
