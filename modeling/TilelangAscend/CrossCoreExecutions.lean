import TilelangAscend.CrossCoreExposure
import TilelangAscend.ListReach

namespace TilelangAscend.CrossCore

open ListReach

/-!
# Executions of a stage and what the exposed-read analysis promises

An execution of a statement is the sequence of its reads and writes: the loads of every
expression it evaluates, and the ranges behind access pointers.  Conditions choose a branch,
extents a number of trips, and an index or offset a position, by any value that the
expression may take; a constant takes its own value only.
-/

/-! ## Accesses -/

/-- Row-major position of indices. -/
def flatIndex (shape : List Int) : Nat → Int → List Int → Int
  | _, offset, [] => offset
  | axis, offset, index :: rest =>
    flatIndex shape (axis + 1) (offset * shape.getD axis 1 + index) rest

/-- All loads of an expression. -/
def PrimExpr.loads : PrimExpr → List (BufferName × PrimExpr)
  | .bufferLoad buffer indices => (buffer, indices) :: indices.loads
  | .binary _ a b => a.loads ++ b.loads
  | .cast value => value.loads
  | .select condition trueValue falseValue => condition.loads ++ trueValue.loads ++ falseValue.loads
  | .call _ args => args.loads
  | .next head rest => head.loads ++ rest.loads
  | .intImm _ => []
  | .var _ => []
  | .done => []

/-- What an access touches: the element at some indices, or a range of elements. -/
inductive Place where
  | element (indices : PrimExpr)
  | range (offset extent : PrimExpr)
  deriving Repr, DecidableEq

/-- A read or write as the program states it. -/
structure Access where
  isWrite : Bool
  buffer : BufferName
  place : Place
  deriving Repr, DecidableEq

/-- The loads of an expression. -/
def PrimExpr.readAccesses (expr : PrimExpr) : List Access :=
  expr.loads.map fun load => ⟨false, load.1, .element load.2⟩

/-- What an argument of a call reads: the loads in it and the range behind its pointer. -/
def Arg.readAccesses : Arg → List Access
  | .accessPtr buffer offset extent rwMask =>
    offset.readAccesses ++ extent.readAccesses ++
      if rwMask &&& 1 ≠ 0 then [⟨false, buffer, .range offset extent⟩] else []
  | .handle _ => []
  | .value expr => expr.readAccesses

/-- What an argument of a call writes. -/
def Arg.writeAccesses : Arg → List Access
  | .accessPtr buffer offset extent rwMask =>
    if rwMask &&& 2 ≠ 0 then [⟨true, buffer, .range offset extent⟩] else []
  | _ => []

/-- What an operation reads. -/
def Operation.readAccesses : Operation → List Access
  | .evaluate call => call.args.flatMap Arg.readAccesses
  | .bufferStore _ indices value => value.readAccesses ++ indices.readAccesses

/-- What an operation writes, after its reads. -/
def Operation.writeAccesses : Operation → List Access
  | .evaluate call => call.args.flatMap Arg.writeAccesses
  | .bufferStore buffer indices _ => [⟨true, buffer, .element indices⟩]

/-! ## Executions -/

/-- What surrounds a statement: buffer shapes, and the values that expressions may take. -/
structure Surroundings where
  shape : BufferName → List Int
  takes : PrimExpr → Int → Prop
  constant : ∀ number value, takes (.intImm number) value ↔ value = number
  inhabited : ∀ expr, ∃ value, takes expr value

namespace Surroundings

variable (surroundings : Surroundings)

/-- The values that an index list may take. -/
def takesAll : PrimExpr → List Int → Prop
  | .next head rest, values =>
    ∃ value others, values = value :: others ∧ surroundings.takes head value ∧ takesAll rest others
  | _, values => values = []

/-- The elements from `start` to before `stop` are what an access may touch. -/
def Spans (access : Access) (start stop : Int) : Prop :=
  match access.place with
  | .element indices =>
    ∃ values,
      surroundings.takesAll indices values ∧
        start = flatIndex (surroundings.shape access.buffer) 0 0 values ∧
        stop = start + 1
  | .range offset extent =>
    surroundings.takes offset start ∧
      ∃ length, surroundings.takes extent length ∧ stop = start + length

/-- The sequences of accesses of a statement. -/
def Way : Stmt → List Access → Prop
  | .skip, way => way = []
  | .operation op, way => way = op.readAccesses ++ op.writeAccesses
  | .seq first rest, way =>
    ∃ firstWay restWay, way = firstWay ++ restWay ∧ Way first firstWay ∧ Way rest restWay
  | .letStmt _ value body, way => ∃ bodyWay, way = value.readAccesses ++ bodyWay ∧ Way body bodyWay
  | .forLoop _ min extent body, way =>
    ∃ (count : Int) (trips : List (List Access)),
      surroundings.takes extent count ∧ trips.length = count.toNat ∧
        (∀ trip ∈ trips, Way body trip) ∧
        way = (min.readAccesses ++ extent.readAccesses) ++ trips.flatten
  | .ifThenElse condition thenCase elseCase, way =>
    ∃ (value : Int) (caseWay : List Access),
      surroundings.takes condition value ∧ way = condition.readAccesses ++ caseWay ∧
        ((value ≠ 0 ∧ Way thenCase caseWay) ∨ (value = 0 ∧ Way elseCase caseWay))

end Surroundings

/-- A read or write that happens. -/
structure AccessEvent where
  isWrite : Bool
  buffer : BufferName
  start : Int
  stop : Int
  deriving Repr, DecidableEq

/-- An event touches an element of a buffer. -/
def AccessEvent.Touches (event : AccessEvent) (buffer : BufferName) (element : Int) : Prop :=
  event.buffer = buffer ∧ event.start ≤ element ∧ element < event.stop

/-- An access happens as an event. -/
structure Surroundings.Happens
    (surroundings : Surroundings)
    (access : Access)
    (event : AccessEvent) :
    Prop where
  isWrite : event.isWrite = access.isWrite
  buffer : event.buffer = access.buffer
  spans : surroundings.Spans access event.start event.stop

/-- The executions of a statement. -/
def Surroundings.Executes (surroundings : Surroundings) (stmt : Stmt)
    (events : List AccessEvent) : Prop :=
  ∃ way, surroundings.Way stmt way ∧ List.Forall₂ surroundings.Happens way events

/-! ## The promise -/

/-- A constant range of a buffer. -/
structure Target where
  buffer : BufferName
  offset : Int
  extent : Int
  deriving Repr, DecidableEq

/-- The elements of the range. -/
def Target.Contains (target : Target) (element : Int) : Prop :=
  target.offset ≤ element ∧ element < target.offset + target.extent

instance (target : Target) (element : Int) : Decidable (target.Contains element) :=
  inferInstanceAs (Decidable (_ ∧ _))

/-- `CheckExposedRead` on a statement whose surroundings have not written the range. -/
def Target.check (target : Target) (stmt : Stmt) : Bool × Bool :=
  checkExposedRead target.buffer (.intImm target.offset) (.intImm target.extent) stmt false

/-- What the analysis promises of a statement. -/
structure ExposureSound
    (surroundings : Surroundings)
    (target : Target)
    (stmt : Stmt) :
    Prop where
  /-- Without an exposed read, writes of the whole range precede every read that overlaps it. -/
  reads :
    (target.check stmt).1 = false →
    ∀ before event after, surroundings.Executes stmt (before ++ event :: after) →
      event.isWrite = false →
      (∃ element, target.Contains element ∧ event.Touches target.buffer element) →
      ∀ element, target.Contains element →
        ∃ write ∈ before, write.isWrite = true ∧ write.Touches target.buffer element
  /-- With a kill, every execution writes the whole range. -/
  kills :
    (target.check stmt).2 = true →
    ∀ events, surroundings.Executes stmt events →
      ∀ element, target.Contains element →
        ∃ write ∈ events, write.isWrite = true ∧ write.Touches target.buffer element

/-! ## When it is kept -/

/-- An operand that the analysis looks at may overlap the range. -/
def Target.seenRead (target : Target) (op : Operation) : Bool :=
  (op.readRanges target.buffer).any fun range =>
    rangeOverlaps range.1 range.2 (.intImm target.offset) (.intImm target.extent)

/-- The analysis counts a write of the operation as one of the whole range. -/
def Target.countedWrite (target : Target) (op : Operation) : Bool :=
  (op.writeRanges target.buffer).any fun range =>
    rangeContains range.1 range.2 (.intImm target.offset) (.intImm target.extent)

/-- The operations on every way through a statement that takes each loop once. -/
@[grind =]
def Stmt.singleTrips : Stmt → List (List Operation)
  | .skip => [[]]
  | .operation op => [[op]]
  | .seq first rest =>
    first.singleTrips.flatMap fun before => rest.singleTrips.map fun after => before ++ after
  | .letStmt _ _ body => body.singleTrips
  | .forLoop _ _ _ body => body.singleTrips
  | .ifThenElse _ thenCase elseCase => thenCase.singleTrips ++ elseCase.singleTrips

/-- A way that takes each loop once comes to a seen read in front of all counted writes. -/
def Target.Reported (target : Target) (stmt : Stmt) : Prop :=
  ∃ operations ∈ stmt.singleTrips,
    Reaches (target.seenRead · = true) (target.countedWrite · = false) operations

/-- Every way that takes each loop once has a counted write. -/
def Target.Counted (target : Target) (stmt : Stmt) : Prop :=
  ∀ operations ∈ stmt.singleTrips, ∃ op ∈ operations, target.countedWrite op = true

section Static

variable (surroundings : Surroundings) (target : Target)

/-- An access reads an element of the range in some execution. -/
def MayRead (access : Access) : Prop :=
  access.isWrite = false ∧ access.buffer = target.buffer ∧
    ∃ start stop,
      surroundings.Spans access start stop ∧
        ∃ element, target.Contains element ∧ start ≤ element ∧ element < stop

/-- An access writes an element of the buffer in all executions. -/
def MustWrite (element : Int) (access : Access) : Prop :=
  access.isWrite = true ∧ access.buffer = target.buffer ∧
    ∀ start stop, surroundings.Spans access start stop → start ≤ element ∧ element < stop

/-- The expressions around a statement, which the analysis does not look at, may read. -/
def MayReadIn (expr : PrimExpr) : Prop :=
  ∃ access ∈ expr.readAccesses, MayRead surroundings target access

/--
A statement that always writes an element: loops count only when they always run, branches
only when both that may be taken write it.
-/
def AlwaysWrites (element : Int) : Stmt → Prop
  | .skip => False
  | .operation op => ∃ access ∈ op.writeAccesses, MustWrite surroundings target element access
  | .seq first rest => AlwaysWrites element first ∨ AlwaysWrites element rest
  | .letStmt _ _ body => AlwaysWrites element body
  | .forLoop _ _ extent body =>
    (∀ count, surroundings.takes extent count → 0 < count) ∧ AlwaysWrites element body
  | .ifThenElse condition thenCase elseCase =>
    ((∃ value, surroundings.takes condition value ∧ value ≠ 0) → AlwaysWrites element thenCase) ∧
    (surroundings.takes condition 0 → AlwaysWrites element elseCase)

/--
A read of the range that the analysis overlooks and in front of which an element need not
be written: a read that it does not look at, or one behind a counted write.
-/
def Overlooked (element : Int) : Stmt → Prop → Prop
  | .skip, _ => False
  | .operation op, counted =>
    (target.seenRead op = false ∨ counted) ∧
      ∃ access ∈ op.readAccesses, MayRead surroundings target access
  | .seq first rest, counted =>
    Overlooked element first counted ∨
      (¬ AlwaysWrites surroundings target element first ∧
        Overlooked element rest (counted ∨ target.Counted first))
  | .letStmt _ value body, counted =>
    MayReadIn surroundings target value ∨ Overlooked element body counted
  | .forLoop _ min extent body, counted =>
    (MayReadIn surroundings target min ∨ MayReadIn surroundings target extent) ∨
      ((∃ count, surroundings.takes extent count ∧ 0 < count) ∧ Overlooked element body counted)
  | .ifThenElse condition thenCase elseCase, counted =>
    MayReadIn surroundings target condition ∨
      ((∃ value, surroundings.takes condition value ∧ value ≠ 0) ∧
          Overlooked element thenCase counted) ∨
        (surroundings.takes condition 0 ∧ Overlooked element elseCase counted)

/-- The statements on which the analysis keeps its promise. -/
structure NothingOverlooked (stmt : Stmt) : Prop where
  reads :
    target.Reported stmt ∨
      ∀ element, target.Contains element → ¬ Overlooked surroundings target element stmt False
  kills :
    target.Counted stmt →
    ∀ element, target.Contains element → AlwaysWrites surroundings target element stmt

end Static

end TilelangAscend.CrossCore
