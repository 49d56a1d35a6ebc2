import TilelangAscend.HandoffSoundness
import TilelangAscend.ScopedRebuild
import TilelangAscend.TraceBehaviours

namespace TilelangAscend.ScopedSync

open AbsorbingTransfer
open SyncInsert
open TraceBehaviours

/-!
# Runs of one execution unit

What one unit does when it runs a rebuilt program: it skips the blocks of the other unit, loops
run any number of times, and `tl.loop_break` leaves the innermost loop.  A run also shows the
places that it passes: those behind which the pass puts a full barrier, and those that the
visitor of the pass does not follow.
-/

/-! ## Behaviours of programs -/

/-- Places that a run passes. -/
inductive Place where
  /-- The pass puts a full barrier between this place and the next operation. -/
  | fence
  /-- An outermost block of the unit begins or ends. -/
  | scopeChange
  /-- A `While` starts another iteration. -/
  | backEdge
  /-- A `While` runs no iteration. -/
  | skippedLoop
  /-- `tl.loop_break` has left a loop. -/
  | loopExit
  deriving Repr, DecidableEq

/-- Places across which the visitor carries no accesses, though the run goes on. -/
def Place.isGap : Place → Bool
  | .fence => false
  | _ => true

/-- A step of a run. -/
inductive Step where
  | event (event : Event)
  | passes (place : Place)
  deriving Repr, DecidableEq

/-- Steps of a list of synchronization units. -/
def syncSteps (syncs : List SyncUnit) : List Step :=
  (syncEvents syncs).map Step.event

/-- A fence that a run passes if a condition of the source holds. -/
def fenceIf (condition : Bool) : List Step :=
  if condition then [.passes .fence] else []

/-- Whether an operation is a buffer store. -/
def isStore : Operation → Bool
  | .store _ _ _ => true
  | .call _ _ => false

/-- Operations that the pass fences: those that touch a slice, and stores inside a `For`. -/
def fencedOperation (context : PassContext) (inFor : Bool) (op : Operation) : Bool :=
  (op.touches context.table).any Touch.isSliced || (inFor && isStore op)

/-- Statements with one body that the pass fences. -/
def Wrapper.isFenced : Wrapper → Bool
  | .letStmt _ value => (analyzeExprAccesses value).any ExprAccess.isSliced
  | .ifThen _ => true
  | _ => false

/-- Statements with two bodies that the pass fences. -/
def Branch.isFenced : Branch → Bool
  | .ifThenElse _ => true
  | .blockInit _ => false

/-- Steps of a call or a store with the synchronization before it. -/
def operationSteps (context : PassContext) (inFor : Bool) (syncs : List SyncUnit)
    (op : Operation) : List Step :=
  fenceIf (fencedOperation context inFor op) ++ syncSteps syncs ++ [.event (.operation op)]

/-- A `For`: one or more rounds, or none unless its extent is known to be positive. -/
def forRuns (context : PassContext) (extent : Expr) (body : Behaviour Step) : Behaviour Step :=
  (if context.analyzer.provesPositive extent then ∅ else emit []) ∪
    catching [.passes .loopExit] (repeated [] body)

/-- A `While`: any number of rounds. -/
def whileRuns (body : Behaviour Step) : Behaviour Step :=
  emit [.passes .skippedLoop] ∪ catching [.passes .loopExit] (repeated [.passes .backEdge] body)

/-- A statement with one body, run by a unit inside or outside its blocks. -/
def wrapperRuns
    (unit : ExecutionUnit)
    (inside : Bool)
    (body : Bool → Behaviour Step) :
    Wrapper → Behaviour Step
  | .resourceScope owner =>
    if owner = unit then
      if inside then
        body true
      else
        andThen (emit [.passes .scopeChange]) (andThen (body true) (emit [.passes .scopeChange]))
    else
      emit []
  | .whileLoop _ => whileRuns (body inside)
  | .ifThen _ => andThen (emit [] ∪ body inside) (emit [.passes .fence])
  | _ => body inside

/-- A statement with two bodies. -/
def branchRuns (first second : Behaviour Step) : Branch → Behaviour Step
  | .ifThenElse _ => andThen (first ∪ second) (emit [.passes .fence])
  | .blockInit _ => andThen first second

/-- What a unit does on a rebuilt sequence, inside or outside its blocks and `For` loops. -/
def behaviour
    (context : PassContext)
    (unit : ExecutionUnit)
    (inside inFor : Bool) :
    RebuiltBody SyncUnit → Behaviour Step
  | .stop syncs => emit (syncSteps syncs)
  | .operation syncs op rest =>
    if op = loopBreak then
      leave (operationSteps context inFor syncs op)
    else
      andThen (emit (operationSteps context inFor syncs op))
        (behaviour context unit inside inFor rest)
  | .noOp syncs rest => andThen (emit (syncSteps syncs)) (behaviour context unit inside inFor rest)
  | .wrap syncs wrapper body rest =>
    andThen (emit (fenceIf wrapper.isFenced ++ syncSteps syncs))
      (andThen
        (wrapperRuns unit inside (fun isInside => behaviour context unit isInside inFor body)
          wrapper)
        (behaviour context unit inside inFor rest))
  | .branch syncs kind first second rest =>
    andThen (emit (fenceIf kind.isFenced ++ syncSteps syncs))
      (andThen
        (branchRuns (behaviour context unit inside inFor first)
          (behaviour context unit inside inFor second) kind)
        (behaviour context unit inside inFor rest))
  | .forLoop syncs header body rest =>
    andThen (emit (syncSteps syncs))
      (andThen (forRuns context header.extent (behaviour context unit inside true body))
        (behaviour context unit inside inFor rest))
  | .unrolledLoop _ marker _ _ _ => marker.elim

/-! ## Order in a run -/

/-- Steps between two positions of a run. -/
def stepsBetween (run : List Step) (first second : Nat) : List Step :=
  (run.drop (first + 1)).take (second - first - 1)

/-- The event of a step that is one. -/
def Step.event? : Step → Option Event
  | .event happened => some happened
  | .passes _ => none

/-- Two conflicting operations of a run, ordered by the events between them. -/
structure OrderedStep
    (context : PassContext)
    (exempt : Pipeline → Prop)
    (run : List Step)
    (first second : Nat) :
    Prop where
  before : first < second
  operations :
    ∃ firstOp secondOp,
      run[first]? = some (.event (.operation firstOp)) ∧
        run[second]? = some (.event (.operation secondOp)) ∧
        Conflicts context firstOp secondOp ∧
        DirectlyOrdered exempt ((stepsBetween run first second).filterMap Step.event?)
          (firstOp.pipeline context.table) (secondOp.pipeline context.table)

/-- Two operations of a run are ordered, possibly through conflicting ones between them. -/
abbrev Ordered (context : PassContext) (exempt : Pipeline → Prop) (run : List Step) :
    Nat → Nat → Prop :=
  Relation.TransGen (OrderedStep context exempt run)

/-- A run passes a place between two positions. -/
def PassesBetween (run : List Step) (place : Place) (first second : Nat) : Prop :=
  ∃ position, first < position ∧ position < second ∧ run[position]? = some (.passes place)

/-- A run passes no gap between two positions. -/
def Gapless (run : List Step) (first second : Nat) : Prop :=
  ∀ place, place.isGap = true → ¬ PassesBetween run place first second

theorem Gapless.mono {run : List Step} {first second innerFirst innerSecond : Nat}
    (gapless : Gapless run first second) (starts : first ≤ innerFirst)
    (ends : innerSecond ≤ second) : Gapless run innerFirst innerSecond := by
  rintro place isGap ⟨position, after, before, passes⟩
  exact gapless place isGap ⟨position, starts.trans_lt after, before.trans_le ends, passes⟩

/-! ## Histories without gaps -/

/--
The event that stands for a step.  Nothing has to be ordered across a gap, so a full barrier
stands for it; a fence orders nothing by itself, like a barrier of the scalar pipeline.
-/
def standIn : Step → Event
  | .event event => event
  | .passes place => if place.isGap then .barrierAll else .barrier .s

section StandIns

variable {context : PassContext} {exempt : Pipeline → Prop} {run steps : List Step}

theorem between_standIn (first second : Nat) :
    between (run.map standIn) first second = (stepsBetween run first second).map standIn := by
  simp only [between, stepsBetween, List.map_take, List.map_drop]

variable {first second position : Nat} {step : Step} {source : Pipeline}

theorem position_of_mem_stepsBetween (member : step ∈ stepsBetween run first second) :
    ∃ position, first < position ∧ position < second ∧ run[position]? = some step := by
  obtain ⟨index, found⟩ := List.mem_iff_getElem?.mp member
  rw [stepsBetween, List.getElem?_take] at found
  split at found
  · rw [List.getElem?_drop] at found
    exact ⟨first + 1 + index, by omega, by omega, found⟩
  · cases found

theorem mem_stepsBetween (after : first < position) (before : position < second)
    (found : run[position]? = some step) : step ∈ stepsBetween run first second := by
  apply List.mem_iff_getElem?.mpr
  refine ⟨position - first - 1, ?_⟩
  rw [stepsBetween, List.getElem?_take_of_lt (by omega), List.getElem?_drop]
  rwa [show first + 1 + (position - first - 1) = position by omega]

theorem Gapless.step_cases (gapless : Gapless run first second)
    (member : step ∈ stepsBetween run first second) :
    (∃ event, step = .event event) ∨ step = .passes .fence := by
  cases step with
  | event event => exact Or.inl ⟨event, rfl⟩
  | passes place =>
    cases isGap : place.isGap with
    | true => exact absurd (position_of_mem_stepsBetween member) (gapless place isGap)
    | false =>
      right
      cases place <;> first | rfl | cases isGap

/-- Steps that are events or fences. -/
def EventsAndFences (steps : List Step) : Prop :=
  ∀ step ∈ steps, (∃ event, step = .event event) ∨ step = .passes .fence

theorem eq_event_of_standIn {event : Event}
    (kind : (∃ event, step = .event event) ∨ step = .passes .fence)
    (stands : standIn step = event) (notScalar : event ≠ .barrier .s) : step = .event event := by
  rcases kind with ⟨own, rfl⟩ | rfl
  · exact congrArg Step.event stands
  · exact absurd stands.symm notScalar

theorem handoff_of_standIn {reached : Pipeline} (plain : EventsAndFences steps)
    (handoff : Handoff source (steps.map standIn) reached) :
    Handoff source (steps.filterMap Step.event?) reached := by
  generalize stands : steps.map standIn = events at handoff
  induction handoff generalizing steps with
  | start =>
    rw [List.map_eq_nil_iff.mp stands]
    exact .start
  | skip event _ ih =>
    obtain ⟨before, last, rfl, isBefore, _⟩ := List.map_eq_append_iff.mp stands
    rw [List.filterMap_append]
    exact (ih (fun step member => plain step (List.mem_append_left _ member)) isBefore).append _
  | pair target eventId _ ih =>
    obtain ⟨before, flags, rfl, isBefore, isFlags⟩ := List.map_eq_append_iff.mp stands
    obtain ⟨set, others, rfl, isSet, isOthers⟩ := List.map_eq_cons_iff.mp isFlags
    obtain ⟨wait, others, rfl, isWait, isNil⟩ := List.map_eq_cons_iff.mp isOthers
    cases List.map_eq_nil_iff.mp isNil
    have isSetEvent := eq_event_of_standIn (plain set (by simp)) isSet (by simp)
    have isWaitEvent := eq_event_of_standIn (plain wait (by simp)) isWait (by simp)
    rw [List.filterMap_append, isSetEvent, isWaitEvent]
    exact (ih (fun step member => plain step (List.mem_append_left _ member))
      isBefore).pair target eventId

theorem directlyOrdered_of_standIn {target : Pipeline} (scalar : exempt .s)
    (plain : EventsAndFences steps)
    (ordered : DirectlyOrdered exempt (steps.map standIn) source target) :
    DirectlyOrdered exempt (steps.filterMap Step.event?) source target := by
  cases ordered with
  | barrierAll member =>
    obtain ⟨step, inSteps, stands⟩ := List.mem_map.mp member
    have isEvent := eq_event_of_standIn (plain step inSteps) stands (by simp)
    exact .barrierAll (List.mem_filterMap.mpr ⟨step, inSteps, by rw [isEvent]; rfl⟩)
  | exempt isExempt => exact .exempt isExempt
  | barrier member =>
    by_cases isScalar : source = .s
    · rw [isScalar]
      exact .exempt scalar
    · obtain ⟨step, inSteps, stands⟩ := List.mem_map.mp member
      have isEvent := eq_event_of_standIn (plain step inSteps) stands (by simpa using isScalar)
      exact .barrier (List.mem_filterMap.mpr ⟨step, inSteps, by rw [isEvent]; rfl⟩)
  | handoff distinct handoff => exact .handoff distinct (handoff_of_standIn plain handoff)

theorem operation_of_standIn {op : Operation}
    (found : (run.map standIn)[position]? = some (.operation op)) :
    run[position]? = some (.event (.operation op)) := by
  rw [List.getElem?_map, Option.map_eq_some_iff] at found
  obtain ⟨step, isStep, stands⟩ := found
  cases step with
  | event event => rw [isStep, ← stands]; rfl
  | passes place => cases place <;> cases stands

/-- A step ordered in the stand-in is ordered in the run. -/
theorem orderedStep_of_standIn (scalar : exempt .s) (gapless : Gapless run first second)
    (step : SyncInsert.OrderedStep context exempt (run.map standIn) first second) :
    OrderedStep context exempt run first second := by
  obtain ⟨before, firstOp, secondOp, firstAt, secondAt, conflict, ordered⟩ := step
  refine ⟨before, firstOp, secondOp, operation_of_standIn firstAt, operation_of_standIn secondAt,
    conflict, ?_⟩
  rw [between_standIn] at ordered
  exact directlyOrdered_of_standIn scalar (fun _ => gapless.step_cases) ordered

theorem lt_of_ordered
    (ordered :
      Relation.TransGen (SyncInsert.OrderedStep context exempt (run.map standIn)) first second) :
    first < second := by
  induction ordered with
  | single step => exact step.before
  | tail _ step ih => exact ih.trans step.before

/-- Operations ordered in the stand-in are ordered in the run. -/
theorem ordered_of_standIn (scalar : exempt .s) (gapless : Gapless run first second)
    (ordered :
      Relation.TransGen (SyncInsert.OrderedStep context exempt (run.map standIn)) first second) :
    Ordered context exempt run first second := by
  induction ordered with
  | single step => exact .single (orderedStep_of_standIn scalar gapless step)
  | tail chain step ih =>
    have earlier := ih (gapless.mono le_rfl step.before.le)
    exact earlier.tail (orderedStep_of_standIn scalar
      (gapless.mono (lt_of_ordered chain).le le_rfl) step)

end StandIns

end TilelangAscend.ScopedSync
