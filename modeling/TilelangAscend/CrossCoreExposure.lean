import Mathlib.Tactic.Linarith
import TilelangAscend.CrossCoreStatements

namespace TilelangAscend.CrossCore

/-!
# The exposed-read analysis

For every buffer that several stages use, the pass asks whether some stage reads a range of it
without having written the range before.  `checkExposedRead` walks the statement of a stage in
order, with a flag that tells whether the range has been written; ranges are compared only
where their offsets and extents are constants.
-/

/-- `RangeContains`: the first range contains the second, provable from constants only. -/
def rangeContains (aOff aExt bOff bExt : PrimExpr) : Bool :=
  match aOff, aExt, bOff, bExt with
  | .intImm a0, .intImm a1, .intImm b0, .intImm b1 => decide (a0 ≤ b0 ∧ b0 + b1 ≤ a0 + a1)
  | _, _, _, _ => false

/-- `RangeOverlaps`: the ranges overlap, assumed where they are not constant. -/
def rangeOverlaps (aOff aExt bOff bExt : PrimExpr) : Bool :=
  match aOff, aExt, bOff, bExt with
  | .intImm a0, .intImm a1, .intImm b0, .intImm b1 => decide (a0 < b0 + b1 ∧ b0 < a0 + a1)
  | _, _, _, _ => true

/-- The first index of a load or store, zero where there is none. -/
def firstIndex : PrimExpr → PrimExpr
  | .next head _ => head
  | _ => .intImm 0

/-- `CollectBufferReadsFromExpr`: offsets at which an expression loads a buffer. -/
def collectBufferReadsFromExpr (target : BufferName) : PrimExpr → List PrimExpr
  | .bufferLoad buffer indices => if buffer = target then [firstIndex indices] else []
  | .call _ args => collectBufferReadsFromExpr target args
  | .next head rest =>
    collectBufferReadsFromExpr target head ++ collectBufferReadsFromExpr target rest
  | .binary .add a b => collectBufferReadsFromExpr target a ++ collectBufferReadsFromExpr target b
  | .binary .sub a b => collectBufferReadsFromExpr target a ++ collectBufferReadsFromExpr target b
  | .binary .mul a b => collectBufferReadsFromExpr target a ++ collectBufferReadsFromExpr target b
  | .binary .div a b => collectBufferReadsFromExpr target a ++ collectBufferReadsFromExpr target b
  | .cast value => collectBufferReadsFromExpr target value
  | .select condition trueValue falseValue =>
    collectBufferReadsFromExpr target condition ++
      collectBufferReadsFromExpr target trueValue ++
      collectBufferReadsFromExpr target falseValue
  | _ => []

/-- The range that an argument reads of a buffer. -/
def Arg.read? (target : BufferName) : Arg → Option (PrimExpr × PrimExpr)
  | .accessPtr buffer offset extent rwMask =>
    if buffer = target ∧ rwMask &&& 1 ≠ 0 then some (offset, extent) else none
  | _ => none

/-- The range that an argument writes of a buffer. -/
def Arg.write? (target : BufferName) : Arg → Option (PrimExpr × PrimExpr)
  | .accessPtr buffer offset extent rwMask =>
    if buffer = target ∧ rwMask &&& 2 ≠ 0 then some (offset, extent) else none
  | _ => none

/-- The ranges that an operation reads of a buffer. -/
def Operation.readRanges (target : BufferName) : Operation → List (PrimExpr × PrimExpr)
  | .evaluate call => call.args.filterMap (Arg.read? target)
  | .bufferStore _ _ value =>
    (collectBufferReadsFromExpr target value).map fun offset => (offset, .intImm 1)

/-- The ranges that an operation writes of a buffer. -/
def Operation.writeRanges (target : BufferName) : Operation → List (PrimExpr × PrimExpr)
  | .evaluate call => call.args.filterMap (Arg.write? target)
  | .bufferStore buffer indices _ =>
    if buffer = target then [(firstIndex indices, .intImm 1)] else []

/--
`CheckExposedRead`: whether a statement reads the target range before it writes it, and whether
it writes the whole of it.
-/
def checkExposedRead
    (target : BufferName)
    (offset extent : PrimExpr) :
    Stmt → Bool → Bool × Bool
  | .skip, _ => (false, false)
  | .operation op, covered =>
    let reads := (op.readRanges target).any fun range => rangeOverlaps range.1 range.2 offset extent
    let kills := (op.writeRanges target).any fun range =>
      rangeContains range.1 range.2 offset extent
    (reads && !covered, kills)
  | .seq first rest, covered =>
    let firstResult := checkExposedRead target offset extent first covered
    let restResult := checkExposedRead target offset extent rest (covered || firstResult.2)
    (firstResult.1 || restResult.1, firstResult.2 || restResult.2)
  | .letStmt _ _ body, covered => checkExposedRead target offset extent body covered
  | .forLoop _ _ _ body, covered => checkExposedRead target offset extent body covered
  | .ifThenElse _ thenCase elseCase, covered =>
    let thenResult := checkExposedRead target offset extent thenCase covered
    let elseResult := checkExposedRead target offset extent elseCase covered
    (thenResult.1 || elseResult.1, thenResult.2 && elseResult.2)

end TilelangAscend.CrossCore
