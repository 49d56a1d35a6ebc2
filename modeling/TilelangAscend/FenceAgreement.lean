import TilelangAscend.MemorySync
import TilelangAscend.SyncInsertSound

namespace TilelangAscend.SyncInsert

open Simulator (Task Participant FlagSignature flagSignature fenceScan hasLocalFlagFence
  hasFullBarrier isFullBarrier)

/-!
# Emitted synchronization and the simulator's fence test

The simulator reads the events of an emitted program as tasks of one execution unit.  Between
two operations on different pipelines its test finds a full barrier exactly when the program has
one there, and a chain of local flags exactly when the events hand the first pipeline over to
the second one.
-/

/-! ## Programs and their tasks -/

/-- A straight-line sequence of operations without synchronization. -/
def straightLine : List Operation → Block
  | [] => .stop []
  | op :: rest => .operation [] op (straightLine rest)

/-- The pipe of the simulator for a pipeline. -/
def Pipeline.pipe : Pipeline → Simulator.Pipe
  | .mte1 => .mte1
  | .mte2 => .mte2
  | .mte3 => .mte3
  | .m => .m
  | .v => .v
  | .fix => .fix
  | .s => .s

/--
A task of one execution unit stands for an event.  The set and the wait of an event `X_Y` with
an id are local flags from `X` to `Y` with that id.
-/
def Renders
    (table : OperationTable)
    (unit : Participant) :
    Event → Task → Prop
  | .operation op, task =>
    task.participant = unit ∧ task.pipe = (op.pipeline table).pipe ∧
      ∃ name, task.operation = .other name
  | .barrierAll, task =>
    task.participant = unit ∧ task.operation = .pipeBarrier ∧ task.metadata.targetPipe = some .all
  | .barrier pipe, task =>
    task.participant = unit ∧ task.operation = .pipeBarrier ∧
      task.metadata.targetPipe = some (.pipe pipe.pipe)
  | .setFlag source target eventId, task =>
    task.participant = unit ∧ task.operation = .setFlag ∧
      flagSignature task = ⟨some (.pipe source.pipe), some (.pipe target.pipe), .value eventId⟩
  | .waitFlag source target eventId, task =>
    task.participant = unit ∧ task.operation = .waitFlag ∧
      flagSignature task = ⟨some (.pipe source.pipe), some (.pipe target.pipe), .value eventId⟩

/-- Tasks strictly between two positions. -/
def tasksBetween (tasks : List Task) (first second : Nat) : List Task :=
  (tasks.drop (first + 1)).take (second - first - 1)

/--
The simulator accepts the order of every two conflicting operations on different pipelines in
an execution, whatever tasks stand for its events.
-/
def FencesAccepted (context : PassContext) (execution : List Event) : Prop :=
  ∀ (unit : Participant) (tasks : List Task),
    List.Forall₂ (Renders context.table unit) execution tasks →
    ∀ first second firstOp secondOp producer consumer, first < second →
      execution[first]? = some (.operation firstOp) →
      execution[second]? = some (.operation secondOp) →
      Conflicts context firstOp secondOp →
      firstOp.pipeline context.table ≠ secondOp.pipeline context.table →
      tasks[first]? = some producer →
      tasks[second]? = some consumer →
      hasLocalFlagFence (tasksBetween tasks first second) producer consumer = true ∨
        hasFullBarrier (tasksBetween tasks first second) = true

/-! ## Chains of ordered steps -/

variable {source target : Pipeline} {execution segment : List Event} {first second middle : Nat}
  {event : Event} {exempt : Pipeline → Prop} {context : PassContext} {table : OperationTable}

theorem Handoff.trans {middle : Pipeline} {before after : List Event}
    (first : Handoff source before middle) (second : Handoff middle after target) :
    Handoff source (before ++ after) target := by
  induction second with
  | start => simpa using first
  | skip event _ ih =>
    rw [← List.append_assoc]
    exact .skip event ih
  | pair target eventId _ ih =>
    rw [← List.append_assoc]
    exact .pair target eventId ih

/-- Two operations of an execution with a full barrier or a handoff between them. -/
structure Linked
    (table : OperationTable)
    (execution : List Event)
    (first second : Nat) :
    Prop where
  before : first < second
  operations :
    ∃ firstOp secondOp,
      execution[first]? = some (.operation firstOp) ∧
        execution[second]? = some (.operation secondOp) ∧
        (.barrierAll ∈ between execution first second ∨
          Handoff (firstOp.pipeline table) (between execution first second)
            (secondOp.pipeline table))

theorem between_split (firstBefore : first < middle) (secondAfter : middle < second)
    (found : execution[middle]? = some event) :
    between execution first second =
      between execution first middle ++ event :: between execution middle second := by
  obtain ⟨inside, isEvent⟩ := List.getElem?_eq_some_iff.mp found
  have lengths : second - first - 1 = (middle - first - 1) + (second - middle - 1 + 1) := by
    omega
  have start : first + 1 + (middle - first - 1) = middle := by
    omega
  unfold between
  rw [lengths, List.take_add, List.drop_drop, start, List.drop_eq_getElem_cons inside, isEvent,
    List.take_succ_cons]

theorem Handoff.self (pipe : Pipeline) (segment : List Event) : Handoff pipe segment pipe := by
  simpa using Handoff.start.append segment

theorem DirectlyOrdered.barrierAll_or_handoff
    (directly : DirectlyOrdered exempt segment source target) :
    .barrierAll ∈ segment ∨ Handoff source segment target := by
  cases directly with
  | barrierAll member => exact Or.inl member
  | exempt _ => exact Or.inr (Handoff.self _ segment)
  | barrier _ => exact Or.inr (Handoff.self _ segment)
  | handoff _ handoff => exact Or.inr handoff

theorem OrderedStep.linked (step : OrderedStep context exempt execution first second) :
    Linked context.table execution first second := by
  obtain ⟨before, firstOp, secondOp, firstAt, secondAt, _, directly⟩ := step
  exact ⟨before, firstOp, secondOp, firstAt, secondAt, directly.barrierAll_or_handoff⟩

theorem Linked.trans (earlier : Linked table execution first middle)
    (later : Linked table execution middle second) : Linked table execution first second := by
  obtain ⟨firstBefore, firstOp, middleOp, firstAt, middleAt, firstLink⟩ := earlier
  obtain ⟨secondAfter, _, secondOp, sameAt, secondAt, secondLink⟩ := later
  rw [middleAt] at sameAt
  cases sameAt
  refine ⟨firstBefore.trans secondAfter, firstOp, secondOp, firstAt, secondAt, ?_⟩
  rw [between_split firstBefore secondAfter middleAt]
  rcases firstLink with inFirst | firstHandoff
  · exact Or.inl (List.mem_append_left _ inFirst)
  · rcases secondLink with inSecond | secondHandoff
    · exact Or.inl (List.mem_append_right _ (List.mem_cons_of_mem _ inSecond))
    · have passed := Handoff.trans (firstHandoff.append [.operation middleOp]) secondHandoff
      exact Or.inr (by simpa using passed)

theorem linked_of_transGen
    (chain : Relation.TransGen (OrderedStep context exempt execution) first second) :
    Linked context.table execution first second := by
  induction chain with
  | single step => exact step.linked
  | tail _ step ih => exact ih.trans step.linked

/-! ## The fence test follows handoffs -/

theorem Handoff.first_pair (handoff : Handoff source segment target) (differ : source ≠ target) :
    ∃ before reached eventId after,
      segment =
          before ++ .setFlag source reached eventId :: .waitFlag source reached eventId :: after ∧
        Handoff reached after target := by
  induction handoff with
  | start => exact absurd rfl differ
  | skip event _ ih =>
    obtain ⟨before, reached, eventId, after, shape, rest⟩ := ih differ
    exact ⟨before, reached, eventId, after ++ [event], by simp [shape], .skip event rest⟩
  | @pair segment reached target eventId handoff ih =>
    by_cases stays : source = reached
    · subst stays
      exact ⟨segment, target, eventId, [], rfl, .start⟩
    · obtain ⟨before, first, firstId, after, shape, rest⟩ := ih stays
      exact ⟨before, first, firstId, _, by simp [shape], .pair target eventId rest⟩

theorem forall₂_append_split {α β : Type} {related : α → β → Prop} {before after : List α}
    {items : List β} (relatedItems : List.Forall₂ related (before ++ after) items) :
    ∃ first rest,
      items = first ++ rest ∧ List.Forall₂ related before first ∧
        List.Forall₂ related after rest := by
  induction before generalizing items with
  | nil => exact ⟨[], items, rfl, .nil, relatedItems⟩
  | cons head others ih =>
    obtain ⟨item, tail, isItem, tailRelated, rfl⟩ := List.forall₂_cons_left_iff.mp relatedItems
    obtain ⟨first, rest, rfl, firstRelated, restRelated⟩ := ih tailRelated
    exact ⟨item :: first, rest, rfl, .cons isItem firstRelated, restRelated⟩

theorem renders_at {unit : Participant} {tasks : List Task} {position : Nat} {task : Task}
    (rendered : List.Forall₂ (Renders table unit) execution tasks)
    (isEvent : execution[position]? = some event)
    (isTask : tasks[position]? = some task) : Renders table unit event task := by
  obtain ⟨inside, rfl⟩ := List.getElem?_eq_some_iff.mp isEvent
  obtain ⟨taskInside, rfl⟩ := List.getElem?_eq_some_iff.mp isTask
  exact List.Forall₂.get rendered inside taskInside

section Scan

variable {table : OperationTable} {unit : Participant} {consumer : Task}

theorem fenceScan_append (reachable : List (Option Simulator.PipeName))
    (pending : FlagSignature → Option Bool) (tasks rest : List Task) :
    fenceScan consumer reachable pending (tasks ++ rest) = true ∨
      ∃ larger later,
        reachable ⊆ larger ∧
          fenceScan consumer reachable pending (tasks ++ rest) =
            fenceScan consumer larger later rest := by
  induction tasks generalizing reachable pending with
  | nil => exact Or.inr ⟨reachable, pending, List.Subset.refl _, rfl⟩
  | cons task others ih =>
    simp only [List.cons_append, fenceScan]
    split
    · split
      · exact ih _ _
      · split
        · exact ih _ _
        · rename_i sourceWasReachable _
          generalize isExtended :
            (if sourceWasReachable = true then task.metadata.dstPipe :: reachable
              else reachable) = extended
          have grown : reachable ⊆ extended := by
            rw [← isExtended]
            split
            · exact List.subset_cons_self _ _
            · exact List.Subset.refl _
          split
          · exact Or.inl rfl
          · rcases ih extended
              (Function.update pending (flagSignature task) none) with
              accepted | ⟨larger, later, grows, same⟩
            · exact Or.inl accepted
            · exact Or.inr ⟨larger, later, List.Subset.trans grown grows, same⟩
      · exact ih _ _
    · exact ih _ _

variable {segment : List Event} {tasks : List Task} {source target : Pipeline}

/-- What a scan has reached after the set and the wait of an event. -/
def reachedAfterPair {Name : Type} [DecidableEq Name] (source target : Name)
    (reachable : List Name) : List Name :=
  if source ∈ reachable then target :: reachable else reachable

/-- A scan over the set and the wait of an event extends what it has reached. -/
theorem fenceScan_pair {eventId : Nat} {setTask waitTask : Task}
    (rendersSet : Renders table unit (.setFlag source target eventId) setTask)
    (rendersWait : Renders table unit (.waitFlag source target eventId) waitTask)
    (onUnit : consumer.participant = unit) (reachable : List (Option Simulator.PipeName))
    (pending : FlagSignature → Option Bool) (rest : List Task) :
    ∃ later,
      fenceScan consumer reachable pending (setTask :: waitTask :: rest) =
        if some (.pipe consumer.pipe) ∈
            reachedAfterPair (some (.pipe source.pipe)) (some (.pipe target.pipe)) reachable then
          true
        else
          fenceScan consumer
            (reachedAfterPair (some (.pipe source.pipe)) (some (.pipe target.pipe)) reachable)
            later rest := by
  obtain ⟨setUnit, isSet, setSignature⟩ := rendersSet
  obtain ⟨waitUnit, isWait, waitSignature⟩ := rendersWait
  have setSource : setTask.metadata.srcPipe = some (.pipe source.pipe) :=
    congrArg FlagSignature.src setSignature
  have waitTarget : waitTask.metadata.dstPipe = some (.pipe target.pipe) :=
    congrArg FlagSignature.dst waitSignature
  have sameSignature : flagSignature waitTask = flagSignature setTask :=
    waitSignature.trans setSignature.symm
  let pendingSet := Function.update pending (flagSignature setTask)
    (some (setTask.metadata.srcPipe ∈ reachable : Bool))
  refine ⟨Function.update pendingSet (flagSignature setTask) none, ?_⟩
  simp only [fenceScan, setUnit, waitUnit, onUnit, isSet, isWait, sameSignature, ↓reduceIte,
    Function.update_self, setSource, waitTarget, decide_eq_true_eq, reachedAfterPair, pendingSet]
  by_cases sourceReached : some (.pipe source.pipe) ∈ reachable
  · simp only [if_pos sourceReached]
  · simp only [if_neg sourceReached]

/-- The scan follows a chain of emitted sets and waits to its end. -/
theorem fenceScan_of_handoff (handoff : Handoff source segment target) (differ : source ≠ target)
    (rendered : List.Forall₂ (Renders table unit) segment tasks)
    (onUnit : consumer.participant = unit) (onPipe : consumer.pipe = target.pipe)
    (reachable : List (Option Simulator.PipeName)) (pending : FlagSignature → Option Bool)
    (reached : some (.pipe source.pipe) ∈ reachable) :
    fenceScan consumer reachable pending tasks = true := by
  induction isSize : segment.length using Nat.strongRecOn
    generalizing source segment tasks reachable pending with
  | _ size ih =>
    obtain ⟨before, next, eventId, after, rfl, restHandoff⟩ := handoff.first_pair differ
    obtain ⟨beforeTasks, pairTasks, rfl, _, pairRendered⟩ := forall₂_append_split rendered
    obtain ⟨setTask, waitTasks, rendersSet, waitRendered, rfl⟩ :=
      List.forall₂_cons_left_iff.mp pairRendered
    obtain ⟨waitTask, afterTasks, rendersWait, afterRendered, rfl⟩ :=
      List.forall₂_cons_left_iff.mp waitRendered
    rcases fenceScan_append reachable pending beforeTasks (setTask :: waitTask :: afterTasks)
      with accepted | ⟨larger, later, grows, same⟩
    · exact accepted
    · obtain ⟨_, pairScan⟩ :=
        fenceScan_pair rendersSet rendersWait onUnit larger later afterTasks
      have isExtended :
          reachedAfterPair (some (.pipe source.pipe)) (some (.pipe next.pipe)) larger =
            some (.pipe next.pipe) :: larger :=
        if_pos (grows reached)
      rw [same, pairScan, isExtended]
      split
      · rfl
      · rename_i notReached
        by_cases arrives : next = target
        · subst arrives
          rw [onPipe] at notReached
          exact absurd List.mem_cons_self notReached
        · refine ih after.length ?_ restHandoff arrives afterRendered _ _
            List.mem_cons_self rfl
          rw [← isSize]
          simp only [List.length_append, List.length_cons]
          omega

theorem hasLocalFlagFence_of_handoff {producer : Task}
    (handoff : Handoff source segment target) (differ : source ≠ target)
    (rendered : List.Forall₂ (Renders table unit) segment tasks)
    (onUnit : consumer.participant = unit) (onPipe : consumer.pipe = target.pipe)
    (producerOn : producer.pipe = source.pipe) :
    hasLocalFlagFence tasks producer consumer = true := by
  refine fenceScan_of_handoff handoff differ rendered onUnit onPipe _ _ ?_
  rw [producerOn]
  exact List.mem_singleton_self _

/-- The full barriers of a segment are those that its tasks stand for. -/
theorem hasFullBarrier_iff (rendered : List.Forall₂ (Renders table unit) segment tasks) :
    hasFullBarrier tasks = true ↔ .barrierAll ∈ segment := by
  induction rendered with
  | nil => simp [hasFullBarrier]
  | @cons event task _ _ isTask _ ih =>
    have isHead : isFullBarrier task = true ↔ event = .barrierAll := by
      cases event with
      | operation op =>
        obtain ⟨_, _, name, isOther⟩ := isTask
        simp [isFullBarrier, isOther]
      | barrierAll =>
        obtain ⟨_, isBarrier, targetsAll⟩ := isTask
        simp [isFullBarrier, isBarrier, Simulator.targetPipeOf, targetsAll]
      | barrier pipe =>
        obtain ⟨_, isBarrier, targetsPipe⟩ := isTask
        simp [isFullBarrier, isBarrier, Simulator.targetPipeOf, targetsPipe]
      | setFlag source target eventId =>
        simp [isFullBarrier, isTask.2.1]
      | waitFlag source target eventId =>
        simp [isFullBarrier, isTask.2.1]
    rw [hasFullBarrier, List.any_cons, Bool.or_eq_true, isHead, List.mem_cons, eq_comm]
    exact or_congr_right ih

end Scan

/-- Where every hazard is ordered, every slice is accepted. -/
theorem HazardsOrdered.fencesAccepted (ordered : HazardsOrdered context exempt execution) :
    FencesAccepted context execution := by
  intro unit tasks rendered first second firstOp secondOp producer consumer before firstAt
    secondAt conflict differ isProducer isConsumer
  obtain ⟨_, _, _, sameFirst, sameSecond, link⟩ :=
    linked_of_transGen (ordered first second firstOp secondOp before firstAt secondAt conflict)
  rw [firstAt] at sameFirst
  rw [secondAt] at sameSecond
  cases sameFirst
  cases sameSecond
  have sliceRendered :
      List.Forall₂ (Renders context.table unit) (between execution first second)
        (tasksBetween tasks first second) :=
    List.forall₂_take _ (List.forall₂_drop _ rendered)
  rcases link with isBarrier | handoff
  · exact Or.inr ((hasFullBarrier_iff sliceRendered).mpr isBarrier)
  · obtain ⟨_, producerOn, _⟩ := renders_at rendered firstAt isProducer
    obtain ⟨consumerUnit, consumerOn, _⟩ := renders_at rendered secondAt isConsumer
    exact Or.inl (hasLocalFlagFence_of_handoff handoff differ sliceRendered consumerUnit
      consumerOn producerOn)

/-! ## The fence test follows nothing else -/

/-- A synchronization unit or an operation of an emitted program. -/
inductive EmissionStep where
  | sync (unit : SyncUnit)
  | operation (op : Operation)

/-- Events of a step of an emitted program. -/
def EmissionStep.events : EmissionStep → List Event
  | .sync unit => unit.events
  | .operation op => [.operation op]

/-- Events of consecutive steps. -/
def stepEvents (steps : List EmissionStep) : List Event :=
  steps.flatMap EmissionStep.events

theorem Pipeline.pipe_injective : Function.Injective Pipeline.pipe := by
  intro first second same
  cases first <;> cases second <;> first | rfl | cases same

/-- Events in front of a chain leave it a chain. -/
theorem Handoff.prepend (before : List Event) (handoff : Handoff source segment target) :
    Handoff source (before ++ segment) target :=
  (Handoff.self source before).trans handoff

section Exactness

variable {unit : Participant} {consumer : Task} {steps : List EmissionStep} {tasks : List Task}
  {firstOp secondOp : Operation} {before later : List Event}

/-- A chain from what a scan reaches after a pair starts at what it reached before the pair. -/
theorem exists_handoff_of_pair {source next reached : Pipeline} {eventId : Nat}
    {reachable : List (Option Simulator.PipeName)}
    (isReached :
      some (.pipe reached.pipe) ∈
        reachedAfterPair (some (.pipe source.pipe)) (some (.pipe next.pipe)) reachable)
    (handoff : Handoff reached segment target) :
    ∃ start : Pipeline,
      some (.pipe start.pipe) ∈ reachable ∧
        Handoff start ((SyncUnit.eventPair source next eventId).events ++ segment) target := by
  have overPair : Handoff source (SyncUnit.eventPair source next eventId).events next :=
    .pair next eventId .start
  unfold reachedAfterPair at isReached
  split at isReached
  · rename_i sourceReached
    rcases List.mem_cons.mp isReached with isNext | isOld
    · have sameNext : reached = next := Pipeline.pipe_injective (by simpa using isNext)
      subst sameNext
      exact ⟨source, sourceReached, overPair.trans handoff⟩
    · exact ⟨reached, isOld, handoff.prepend _⟩
  · exact ⟨reached, isReached, handoff.prepend _⟩

/-- Every wait of an emitted program follows its set, so an accepted scan has found a chain. -/
theorem handoff_of_fenceScan
    (rendered : List.Forall₂ (Renders table unit) (stepEvents steps) tasks)
    (onUnit : consumer.participant = unit) (onPipe : consumer.pipe = target.pipe)
    {reachable : List (Option Simulator.PipeName)} {pending : FlagSignature → Option Bool}
    (accepted : fenceScan consumer reachable pending tasks = true) :
    ∃ source : Pipeline,
      some (.pipe source.pipe) ∈ reachable ∧ Handoff source (stepEvents steps) target := by
  induction steps generalizing tasks reachable pending with
  | nil =>
    cases rendered
    cases accepted
  | cons step rest ih =>
    have inTwo : List.Forall₂ (Renders table unit) (step.events ++ stepEvents rest) tasks :=
      rendered
    obtain ⟨stepTasks, restTasks, rfl, stepRendered, restRendered⟩ := forall₂_append_split inTwo
    have skipped
        (same :
          fenceScan consumer reachable pending (stepTasks ++ restTasks) =
            fenceScan consumer reachable pending restTasks) :
        ∃ source : Pipeline,
          some (.pipe source.pipe) ∈ reachable ∧
            Handoff source (step.events ++ stepEvents rest) target := by
      rw [same] at accepted
      obtain ⟨source, isReachable, handoff⟩ := ih restRendered accepted
      exact ⟨source, isReachable, handoff.prepend _⟩
    cases step with
    | operation op =>
      obtain ⟨task, _, ⟨_, _, _, isOther⟩, nothing, rfl⟩ :=
        List.forall₂_cons_left_iff.mp stepRendered
      cases nothing
      exact skipped (by simp [fenceScan, isOther])
    | sync emitted =>
      cases emitted with
      | barrierAll =>
        obtain ⟨task, _, ⟨_, isBarrier, _⟩, nothing, rfl⟩ :=
          List.forall₂_cons_left_iff.mp stepRendered
        cases nothing
        exact skipped (by simp [fenceScan, isBarrier])
      | barrier pipe =>
        obtain ⟨task, _, ⟨_, isBarrier, _⟩, nothing, rfl⟩ :=
          List.forall₂_cons_left_iff.mp stepRendered
        cases nothing
        exact skipped (by simp [fenceScan, isBarrier])
      | eventPair source next eventId =>
        obtain ⟨setTask, _, isSet, waitRendered, rfl⟩ :=
          List.forall₂_cons_left_iff.mp stepRendered
        obtain ⟨waitTask, _, isWait, nothing, rfl⟩ :=
          List.forall₂_cons_left_iff.mp waitRendered
        cases nothing
        obtain ⟨_, pairScan⟩ := fenceScan_pair isSet isWait onUnit reachable pending restTasks
        rw [List.cons_append, List.cons_append, List.nil_append, pairScan] at accepted
        split at accepted
        · rename_i isReached
          rw [onPipe] at isReached
          exact exists_handoff_of_pair isReached (Handoff.self _ _)
        · obtain ⟨reached, isReached, handoff⟩ := ih restRendered accepted
          exact exists_handoff_of_pair isReached handoff

/-- A task on a pipe of an execution unit. -/
def unitTask
    (unit : Participant)
    {pipe : Simulator.Pipe}
    (allowed : pipe ∈ unit.lane.allowedPipes)
    (operation : Simulator.Operation)
    (metadata : Simulator.TaskMetadata) :
    Task where
  taskId := "0"
  operation := operation
  coreId := unit.coreId
  lane := unit.lane
  pipe := pipe
  durationCycles := 1
  metadata := metadata
  pipeAllowed := allowed

/-- A unit that has the pipes of all operations has tasks for every event. -/
theorem exists_renders
    (onUnit : ∀ op, .operation op ∈ execution → (op.pipeline table).pipe ∈ unit.lane.allowedPipes) :
    ∃ tasks, List.Forall₂ (Renders table unit) execution tasks := by
  induction execution with
  | nil => exact ⟨[], .nil⟩
  | cons event rest ih =>
    obtain ⟨others, othersRendered⟩ := ih fun op member => onUnit op (List.mem_cons_of_mem _ member)
    have scalar : Simulator.Pipe.s ∈ unit.lane.allowedPipes := by
      cases unit.lane <;> decide
    have isRendered : ∃ task, Renders table unit event task := by
      cases event with
      | operation op =>
        exact ⟨unitTask unit (onUnit op List.mem_cons_self) (.other "op") {}, rfl, rfl, _, rfl⟩
      | barrierAll =>
        exact ⟨unitTask unit scalar .pipeBarrier { targetPipe := some .all }, rfl, rfl, rfl⟩
      | barrier pipe =>
        exact ⟨unitTask unit scalar .pipeBarrier { targetPipe := some (.pipe pipe.pipe) },
          rfl, rfl, rfl⟩
      | setFlag source target eventId =>
        exact ⟨unitTask unit scalar .setFlag
          { srcPipe := some (.pipe source.pipe)
            dstPipe := some (.pipe target.pipe)
            flagId := .value eventId },
          rfl, rfl, rfl⟩
      | waitFlag source target eventId =>
        exact ⟨unitTask unit scalar .waitFlag
          { srcPipe := some (.pipe source.pipe)
            dstPipe := some (.pipe target.pipe)
            flagId := .value eventId },
          rfl, rfl, rfl⟩
    obtain ⟨task, isTask⟩ := isRendered
    exact ⟨task :: others, .cons isTask othersRendered⟩

theorem getElem?_after_slice {α : Type} (before slice later : List α) (first second : α) :
    (before ++ first :: (slice ++ second :: later))[before.length + 1 + slice.length]? =
      some second := by
  have regroup :
      before ++ first :: (slice ++ second :: later) =
        (before ++ first :: slice) ++ second :: later := by
    simp
  have size : before.length + 1 + slice.length = (before ++ first :: slice).length := by
    simp only [List.length_append, List.length_cons]
    omega
  rw [regroup, size, List.getElem?_append_right le_rfl, Nat.sub_self, List.getElem?_cons_zero]

/--
If the simulator accepts two conflicting operations on different pipelines, the program has a
full barrier between them or hands the first pipeline over to the second one.
-/
theorem FencesAccepted.barrierAll_or_handoff
    (accepted :
      FencesAccepted context
        (before ++ .operation firstOp :: (stepEvents steps ++ .operation secondOp :: later)))
    (onUnit :
      ∀ op,
        .operation op ∈
            before ++ .operation firstOp :: (stepEvents steps ++ .operation secondOp :: later) →
        (op.pipeline context.table).pipe ∈ unit.lane.allowedPipes)
    (conflict : Conflicts context firstOp secondOp)
    (differ : firstOp.pipeline context.table ≠ secondOp.pipeline context.table) :
    .barrierAll ∈ stepEvents steps ∨
      Handoff (firstOp.pipeline context.table) (stepEvents steps)
        (secondOp.pipeline context.table) := by
  obtain ⟨tasks, rendered⟩ := exists_renders onUnit
  have accepts := accepted unit tasks rendered before.length
    (before.length + 1 + (stepEvents steps).length) firstOp secondOp
  obtain ⟨beforeTasks, _, rfl, beforeRendered, fromFirst⟩ := forall₂_append_split rendered
  obtain ⟨producer, _, ⟨_, producerOn, _⟩, afterFirst, rfl⟩ :=
    List.forall₂_cons_left_iff.mp fromFirst
  obtain ⟨sliceTasks, _, rfl, sliceRendered, fromSecond⟩ := forall₂_append_split afterFirst
  obtain ⟨consumer, laterTasks, ⟨consumerUnit, consumerOn, _⟩, _, rfl⟩ :=
    List.forall₂_cons_left_iff.mp fromSecond
  have sameBefore := beforeRendered.length_eq
  have sameSlice := sliceRendered.length_eq
  have slice :
      tasksBetween (beforeTasks ++ producer :: (sliceTasks ++ consumer :: laterTasks))
          before.length (before.length + 1 + (stepEvents steps).length) =
        sliceTasks := by
    have size :
        before.length + 1 + (stepEvents steps).length - before.length - 1 = sliceTasks.length := by
      omega
    have start : before.length + 1 = (beforeTasks ++ [producer]).length := by
      simp [sameBefore]
    rw [tasksBetween, size, List.append_cons beforeTasks producer, start, List.drop_left,
      List.take_left]
  rw [slice] at accepts
  have fenced :=
    accepts producer consumer (by omega) (by simp) (getElem?_after_slice _ _ _ _ _) conflict differ
      (by simp [sameBefore])
      (by rw [sameBefore, sameSlice]; exact getElem?_after_slice _ _ _ _ _)
  rcases fenced with flags | barrier
  · obtain ⟨source, isSource, handoff⟩ :=
      handoff_of_fenceScan sliceRendered consumerUnit consumerOn flags
    have isFirst : source = firstOp.pipeline context.table := by
      refine Pipeline.pipe_injective ?_
      simpa [producerOn] using isSource
    exact Or.inr (isFirst ▸ handoff)
  · exact Or.inl ((hasFullBarrier_iff sliceRendered).mp barrier)

end Exactness

end TilelangAscend.SyncInsert
