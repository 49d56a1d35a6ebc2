import Mathlib.Data.List.Induction
import TilelangAscend.LoopRebuild

namespace TilelangAscend.SyncInsert

/-!
# Executions and the order that synchronization gives

An execution of a sequence is a list of events: operations, barriers, and sets and waits of
events.  Pipelines run on their own, so two operations are ordered only if a barrier or a
chain of events stands between them.  A hazard is a pair of operations that touch overlapping
buffers, one of them writing.
-/

/-- What a program does, in program order. -/
inductive Event where
  | operation (op : Operation)
  | barrierAll
  | barrier (pipe : Pipeline)
  | setFlag (source target : Pipeline) (eventId : Nat)
  | waitFlag (source target : Pipeline) (eventId : Nat)
  deriving Repr, DecidableEq

/-- Events of a synchronization unit. -/
def SyncUnit.events : SyncUnit → List Event
  | .barrierAll => [.barrierAll]
  | .barrier pipe => [.barrier pipe]
  | .eventPair source target eventId =>
    [.setFlag source target eventId, .waitFlag source target eventId]

/-- Events of a list of synchronization units. -/
def syncEvents (syncs : List SyncUnit) : List Event :=
  syncs.flatMap SyncUnit.events

/--
Executions of a sequence: branches go either way, and a loop runs any number of times, except
that a loop whose extent the analyzer proves positive runs at least once.
-/
def Executes (analyzer : ExtentAnalyzer) : Block → List Event → Prop
  | .stop syncs, execution => execution = syncEvents syncs
  | .operation syncs op rest, execution =>
    ∃ later, Executes analyzer rest later ∧ execution = syncEvents syncs ++ .operation op :: later
  | .letStmt syncs _ body rest, execution =>
    ∃ inner later,
      Executes analyzer body inner ∧ Executes analyzer rest later ∧
        execution = syncEvents syncs ++ inner ++ later
  | .ifThenElse syncs _ thenCase elseCase rest, execution =>
    ∃ inner later,
      (Executes analyzer thenCase inner ∨ Executes analyzer elseCase inner) ∧
        Executes analyzer rest later ∧
        execution = syncEvents syncs ++ inner ++ later
  | .forLoop syncs extent body rest, execution =>
    ∃ (rounds : List (List Event)) (later : List Event),
      (analyzer.provesPositive extent = true → rounds ≠ []) ∧
        (∀ round ∈ rounds, Executes analyzer body round) ∧
        Executes analyzer rest later ∧
        execution = syncEvents syncs ++ rounds.flatten ++ later
  | .unrolledLoop syncs _ first second rest, execution =>
    ∃ firstRound secondRound later,
      Executes analyzer first firstRound ∧ Executes analyzer second secondRound ∧
        Executes analyzer rest later ∧
        execution = syncEvents syncs ++ firstRound ++ secondRound ++ later

/-! ## Order -/

/--
A chain of event pairs: after the events of a segment, what the source pipeline did before the
segment is complete for another pipeline.
-/
inductive Handoff (source : Pipeline) : List Event → Pipeline → Prop where
  | start :
      Handoff source [] source
  | skip {segment : List Event} {reached : Pipeline} (event : Event) :
      Handoff source segment reached → Handoff source (segment ++ [event]) reached
  | pair {segment : List Event} {reached : Pipeline} (target : Pipeline) (eventId : Nat) :
      Handoff source segment reached →
      Handoff source
        (segment ++ [.setFlag reached target eventId, .waitFlag reached target eventId]) target

/--
Two operations with a segment between them are ordered by what the segment contains.  On an
exempt pipeline the hardware keeps operations in order by itself.
-/
inductive DirectlyOrdered
    (exempt : Pipeline → Prop)
    (segment : List Event) :
    Pipeline → Pipeline → Prop where
  | barrierAll {source target : Pipeline} :
      .barrierAll ∈ segment → DirectlyOrdered exempt segment source target
  | exempt {pipe : Pipeline} :
      exempt pipe → DirectlyOrdered exempt segment pipe pipe
  | barrier {pipe : Pipeline} :
      .barrier pipe ∈ segment → DirectlyOrdered exempt segment pipe pipe
  | handoff {source target : Pipeline} :
      source ≠ target → Handoff source segment target →
      DirectlyOrdered exempt segment source target

/-- Two buffers overlap: one name, or one scope and overlapping planned byte ranges. -/
def BufferPlan.Overlaps (plan : BufferPlan) (first second : BufferName) : Prop :=
  first = second ∨
    ∃ x ∈ plan.addressMap,
      ∃ y ∈ plan.addressMap,
        x.name = first ∧ y.name = second ∧
          x.scope = y.scope ∧
          ∃ start other,
            x.address = some start ∧ y.address = some other ∧
              start < other + plan.getBufferSize second ∧
              other < start + plan.getBufferSize first

/-- Two touched buffers overlap and one of them is written. -/
def TouchesConflict (plan : BufferPlan) (first second : Touch) : Prop :=
  plan.Overlaps first.bufferName second.bufferName ∧ (first.isWrite = true ∨ second.isWrite = true)

/-- Two operations touch overlapping buffers, and one of the two accesses is a write. -/
def Conflicts (context : PassContext) (first second : Operation) : Prop :=
  ∃ touch ∈ first.touches context.table,
    ∃ other ∈ second.touches context.table, TouchesConflict context.plan touch other

/-- Events between two positions of an execution. -/
def between (execution : List Event) (first second : Nat) : List Event :=
  (execution.drop (first + 1)).take (second - first - 1)

/-- Two conflicting operations of an execution, ordered by what stands between them. -/
structure OrderedStep
    (context : PassContext)
    (exempt : Pipeline → Prop)
    (execution : List Event)
    (first second : Nat) :
    Prop where
  before : first < second
  operations :
    ∃ firstOp secondOp,
      execution[first]? = some (.operation firstOp) ∧
        execution[second]? = some (.operation secondOp) ∧
        Conflicts context firstOp secondOp ∧
        DirectlyOrdered exempt (between execution first second)
          (firstOp.pipeline context.table) (secondOp.pipeline context.table)

/--
Every hazard of an execution is ordered, possibly through operations that conflict in between.
-/
def HazardsOrdered (context : PassContext) (exempt : Pipeline → Prop)
    (execution : List Event) : Prop :=
  ∀ first second firstOp secondOp, first < second → execution[first]? = some (.operation firstOp) →
    execution[second]? = some (.operation secondOp) →
    Conflicts context firstOp secondOp →
    Relation.TransGen (OrderedStep context exempt execution) first second

/-! ## Longer traces -/

/-- Later events keep a handoff. -/
theorem Handoff.append {source reached : Pipeline} {segment : List Event}
    (handoff : Handoff source segment reached) (later : List Event) :
    Handoff source (segment ++ later) reached := by
  induction later using List.reverseRecOn with
  | nil => simpa using handoff
  | append_singleton events event ih =>
    rw [← List.append_assoc]
    exact .skip event ih

variable {execution later : List Event} {first second : Nat}

theorem between_append (inside : second ≤ execution.length) :
    between (execution ++ later) first second = between execution first second := by
  unfold between
  by_cases order : first + 1 ≤ second
  · rw [List.drop_append_of_le_length (order.trans inside), List.take_append_of_le_length]
    rw [List.length_drop]
    omega
  · have none : second - first - 1 = 0 := by omega
    simp [none]

theorem between_length :
    between (execution ++ later) first execution.length = execution.drop (first + 1) := by
  rw [between_append le_rfl, between, List.take_of_length_le]
  rw [List.length_drop]
  omega

/-- Later events keep two operations ordered. -/
theorem OrderedStep.append {context : PassContext} {exempt : Pipeline → Prop}
    (step : OrderedStep context exempt execution first second) (later : List Event) :
    OrderedStep context exempt (execution ++ later) first second := by
  obtain ⟨before, firstOp, secondOp, firstAt, secondAt, conflict, ordered⟩ := step
  have firstInside := (List.getElem?_eq_some_iff.mp firstAt).1
  have secondInside := (List.getElem?_eq_some_iff.mp secondAt).1
  refine ⟨before, firstOp, secondOp, ?_, ?_, conflict, ?_⟩
  · rwa [List.getElem?_append_left firstInside]
  · rwa [List.getElem?_append_left secondInside]
  · rwa [between_append secondInside.le]

end TilelangAscend.SyncInsert
