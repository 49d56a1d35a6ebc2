import Mathlib.Logic.Function.Basic
import Mathlib.Data.Rat.Defs

namespace TilelangAscend.ParallelVector

/-!
# Lowering of parallel loops to vector calls

This module models the one-dimensional path of `AscendLowerParallelToVector`: a parallel loop from
zero with a constant extent, whose body stores into one-dimensional unified buffers.  The pass
decomposes the value of every store into vector calls over temporaries, or lowers the loop to a
serial one when it cannot.  The meaning of the loop and of the calls follows: a vector call acts
on every lane as the exact scalar operation does.
-/

/-- Variables of indices and values. -/
abbrev Var := String

/-! ## Indices -/

/-- Integer index expressions. -/
inductive IndexExpr where
  | imm (value : Int)
  | var (name : Var)
  | add (a b : IndexExpr)
  | sub (a b : IndexExpr)
  | mul (a b : IndexExpr)
  deriving DecidableEq, Repr

namespace IndexExpr

/-- Value of an index expression. -/
def eval (values : Var → Int) : IndexExpr → Int
  | .imm value => value
  | .var name => values name
  | .add a b => a.eval values + b.eval values
  | .sub a b => a.eval values - b.eval values
  | .mul a b => a.eval values * b.eval values

/-- `ContainsVar` and `VectorDimChecker`: the expression mentions a variable. -/
def containsVar (target : Var) : IndexExpr → Bool
  | .imm _ => false
  | .var name => name == target
  | .add a b => a.containsVar target || b.containsVar target
  | .sub a b => a.containsVar target || b.containsVar target
  | .mul a b => a.containsVar target || b.containsVar target

/-- `SubstituteLoopVars`: the vector dimension variable becomes zero. -/
def substituteLoopVars (vectorDimVar : Var) : IndexExpr → IndexExpr
  | .imm value => .imm value
  | .var name => if name = vectorDimVar then .imm 0 else .var name
  | .add a b => .add (a.substituteLoopVars vectorDimVar) (b.substituteLoopVars vectorDimVar)
  | .sub a b => .sub (a.substituteLoopVars vectorDimVar) (b.substituteLoopVars vectorDimVar)
  | .mul a b => .mul (a.substituteLoopVars vectorDimVar) (b.substituteLoopVars vectorDimVar)

end IndexExpr

/-- `CalculateBufferOffset` of a one-dimensional access. -/
def calculateBufferOffset (vectorDimVar : Var) (index : IndexExpr) : IndexExpr :=
  index.substituteLoopVars vectorDimVar

/-- `IsScalarAccess`: the index does not mention the vector dimension variable. -/
def isScalarAccess (vectorDimVar : Var) (index : IndexExpr) : Bool :=
  !index.containsVar vectorDimVar

/-! ## Values -/

/-- `IntImm` and `FloatImm`. -/
inductive Imm where
  | int (value : Int)
  | float (value : Rat)
  deriving DecidableEq, Repr

/-- `IsZero` of an immediate. -/
def Imm.isZero : Imm → Bool
  | .int value => value == 0
  | .float value => value == 0

/-- The binary operations that `kBinaryOpTable` matches. -/
inductive BinaryOp where
  | add
  | sub
  | mul
  | div
  | min
  | max
  | bitwiseAnd
  | bitwiseOr
  | shiftLeft
  | shiftRight
  deriving DecidableEq, Repr

/-- The unary calls that `IsUnaryOp` matches. -/
inductive UnaryOp where
  | exp
  | log
  | sqrt
  | rsqrt
  | fabs
  | bitwiseNot
  deriving DecidableEq, Repr

/-- Values that a parallel loop stores. -/
inductive Expr where
  | imm (value : Imm)
  | var (name : Var)
  | load (buffer : String) (index : IndexExpr)
  | binary (op : BinaryOp) (a b : Expr)
  | call (op : UnaryOp) (arg : Expr)
  deriving DecidableEq, Repr

/-- One `BufferStore` of the loop body. -/
structure Store where
  buffer : String
  index : IndexExpr
  value : Expr
  deriving DecidableEq, Repr

/-- A parallel loop from zero. -/
structure ParallelLoop where
  loopVar : Var
  extent : Int
  body : List Store
  deriving DecidableEq, Repr

namespace Expr

/-- `IsZero`. -/
def isZero : Expr → Bool
  | .imm value => value.isZero
  | _ => false

/-- `IsScalar`: an immediate or a variable. -/
def isScalar : Expr → Bool
  | .imm _ => true
  | .var _ => true
  | _ => false

/-- The expression is a buffer load. -/
def isLoad : Expr → Bool
  | .load _ _ => true
  | _ => false

/-- `IsScalarLike`. -/
def isScalarLike (vectorDimVar : Var) : Expr → Bool
  | .load _ index => isScalarAccess vectorDimVar index
  | expr => expr.isScalar

/-- `left_is_simple` and `right_is_simple`. -/
def isSimple (vectorDimVar : Var) (expr : Expr) : Bool :=
  expr.isLoad || expr.isScalarLike vectorDimVar

end Expr

/-! ## Emitted calls -/

/-- Buffers of the lowered program: those of the source, and temporaries by their number. -/
inductive Buffer where
  | named (name : String)
  | temp (id : Nat)
  deriving DecidableEq, Repr

/-- `tvm_access_ptr`: a buffer from an offset on. -/
structure AccessPtr where
  buffer : Buffer
  offset : IndexExpr
  deriving DecidableEq, Repr

/-- Vector operations with two operands; the last four take a scalar as the second one. -/
inductive VectorOp where
  | add
  | sub
  | mul
  | div
  | min
  | max
  | bitwiseAnd
  | bitwiseOr
  | bitwiseLshift
  | bitwiseRshift
  | adds
  | subs
  | muls
  | divs
  deriving DecidableEq, Repr

/-- Vector operations with one operand. -/
inductive VectorUnaryOp where
  | exp
  | ln
  | sqrt
  | rsqrt
  | abs
  | bitwiseNot
  | relu
  deriving DecidableEq, Repr

/-- The statements that the pass emits, named after their generators. -/
inductive VectorCall where
  | ascendCopy (src : Buffer) (srcIndex : IndexExpr) (dst : Buffer) (dstIndex : IndexExpr)
      (extent : Int)
  | unary (op : VectorUnaryOp) (dst src : AccessPtr) (count : Int)
  | binary (op : VectorOp) (dst src0 src1 : AccessPtr) (count : Int)
  | scalar (op : VectorOp) (dst src : AccessPtr) (value : Expr) (count : Int)
  | bufferScalar (op : VectorOp) (dst src scalar : AccessPtr) (scalarOffset : IndexExpr)
      (count : Int)
  deriving DecidableEq, Repr

/-- The operation column of `kBinaryOpTable`. -/
def BinaryOp.opType : BinaryOp → VectorOp
  | .add => .add
  | .sub => .sub
  | .mul => .mul
  | .div => .div
  | .min => .min
  | .max => .max
  | .bitwiseAnd => .bitwiseAnd
  | .bitwiseOr => .bitwiseOr
  | .shiftLeft => .bitwiseLshift
  | .shiftRight => .bitwiseRshift

/-- `kTIRUnaryOpMap`, with the bitwise complement beside it. -/
def UnaryOp.opType : UnaryOp → VectorUnaryOp
  | .exp => .exp
  | .log => .ln
  | .sqrt => .sqrt
  | .rsqrt => .rsqrt
  | .fabs => .abs
  | .bitwiseNot => .bitwiseNot

/-- The operation of a call with a scalar operand: only the four arithmetic ones change. -/
def VectorOp.scalarOpType : VectorOp → VectorOp
  | .add => .adds
  | .sub => .subs
  | .mul => .muls
  | .div => .divs
  | op => op

/-! ## Decomposition -/

section Decomposition

variable (vectorDimVar : Var) (elementCount : Int)

/-- The load that `relu` reads when the other operand of `max` is zero. -/
def reluInput : Expr → Expr → Option AccessPtr
  | zero, .load buffer index =>
    if zero.isZero then
      some { buffer := .named buffer, offset := calculateBufferOffset vectorDimVar index }
    else none
  | _, _ => none

/-- `IsUnaryOp`: the vector operation and its input. -/
def isUnaryOp : Expr → Option (VectorUnaryOp × AccessPtr)
  | .call op (.load buffer index) =>
    some (op.opType,
      { buffer := .named buffer, offset := calculateBufferOffset vectorDimVar index })
  | .binary .max a b =>
    match reluInput vectorDimVar a b with
    | some input => some (.relu, input)
    | none => (reluInput vectorDimVar b a).map fun input => (.relu, input)
  | _ => none

/-- `IsBinaryOp`, as the test that `left_is_complex` and `right_is_complex` make. -/
def isBinaryOp : Expr → Bool
  | .binary _ _ _ => true
  | _ => false

/-- `left_is_complex` and `right_is_complex`. -/
def isComplex (expr : Expr) : Bool :=
  isBinaryOp expr || (isUnaryOp vectorDimVar expr).isSome

/-- `GenerateAscendCopy` between one-dimensional buffers.  Without source indices the copy starts
at the source's beginning and ends at the destination's offset; with them it starts at these
indices and ends at the destination's beginning. -/
def generateAscendCopy (src dst : Buffer) (dstOffset : IndexExpr)
    (srcIndices : Option IndexExpr) : VectorCall :=
  match srcIndices with
  | none => .ascendCopy src (.imm 0) dst dstOffset elementCount
  | some index => .ascendCopy src index dst (.imm 0) elementCount

/-- The call for a vector operand on the left and a simple operand on the right: the common end of
`HandleSimpleCase` and `HandleLeftComplexRightSimple`. -/
def generateRightSimple (op : VectorOp) (output left : AccessPtr) (right : Expr) :
    Option VectorCall :=
  match right with
  | .load buffer index =>
    let offset := calculateBufferOffset vectorDimVar index
    if isScalarAccess vectorDimVar index then
      some (.bufferScalar op.scalarOpType output left
        { buffer := .named buffer, offset := offset } offset elementCount)
    else
      some (.binary op output left { buffer := .named buffer, offset := offset } elementCount)
  | right =>
    if right.isScalar then some (.scalar op.scalarOpType output left right elementCount)
    else none

/-- `HandleSimpleCase`. -/
def handleSimpleCase (op : VectorOp) (left right : Expr) (output : AccessPtr) (nextTemp : Nat) :
    Option (List VectorCall × Nat) :=
  match left with
  | .load buffer index =>
    let leftPtr : AccessPtr :=
      { buffer := .named buffer, offset := calculateBufferOffset vectorDimVar index }
    (generateRightSimple vectorDimVar elementCount op output leftPtr right).map
      fun call => ([call], nextTemp)
  | _ => none

/-- `HandleLeftSimpleRightComplex`, from the decomposition of the right operand into a
temporary. -/
def handleLeftSimpleRightComplex (op : VectorOp) (left : Expr) (output tmp : AccessPtr)
    (right : Option (List VectorCall × Nat)) : Option (List VectorCall × Nat) :=
  match left with
  | .load buffer index =>
    right.map fun (calls, nextTemp) =>
      (calls ++ [.binary op output
        { buffer := .named buffer, offset := calculateBufferOffset vectorDimVar index } tmp
        elementCount], nextTemp)
  | _ => none

/-- `HandleLeftComplexRightSimple`, from the decomposition of the left operand into a
temporary. -/
def handleLeftComplexRightSimple (op : VectorOp) (right : Expr) (output tmp : AccessPtr)
    (left : Option (List VectorCall × Nat)) : Option (List VectorCall × Nat) :=
  left.bind fun (calls, nextTemp) =>
    (generateRightSimple vectorDimVar elementCount op output tmp right).map
      fun call => (calls ++ [call], nextTemp)

/-- The pointer to a temporary: `CreateTempBufferLike`, with offset zero. -/
def tempPtr (id : Nat) : AccessPtr :=
  { buffer := .temp id, offset := .imm 0 }

/-- `DecomposeExpression`: the calls that compute a value into the output, and the number of the
next temporary. -/
def decomposeExpression : Expr → AccessPtr → Nat → Option (List VectorCall × Nat)
  | .imm _, _, _ => none
  | .var _, _, _ => none
  | .load buffer index, output, nextTemp =>
    some ([generateAscendCopy elementCount (.named buffer) output.buffer output.offset
      (some (index.substituteLoopVars vectorDimVar))], nextTemp)
  | .call op arg, output, nextTemp =>
    (isUnaryOp vectorDimVar (.call op arg)).map fun (op, input) =>
      ([.unary op output input elementCount], nextTemp)
  | .binary op left right, output, nextTemp =>
    match isUnaryOp vectorDimVar (.binary op left right) with
    | some (op, input) => some ([.unary op output input elementCount], nextTemp)
    | none =>
      if left.isSimple vectorDimVar && right.isSimple vectorDimVar then
        handleSimpleCase vectorDimVar elementCount op.opType left right output nextTemp
      else if left.isSimple vectorDimVar && isComplex vectorDimVar right then
        handleLeftSimpleRightComplex vectorDimVar elementCount op.opType left output
          (tempPtr nextTemp)
          (decomposeExpression right (tempPtr nextTemp) (nextTemp + 1))
      else if isComplex vectorDimVar left && right.isSimple vectorDimVar then
        handleLeftComplexRightSimple vectorDimVar elementCount op.opType right output
          (tempPtr nextTemp)
          (decomposeExpression left (tempPtr nextTemp) (nextTemp + 1))
      else if isComplex vectorDimVar left && isComplex vectorDimVar right then
        (decomposeExpression left (tempPtr nextTemp) (nextTemp + 2)).bind
          fun (leftCalls, afterLeft) =>
            (decomposeExpression right (tempPtr (nextTemp + 1)) afterLeft).map
              fun (rightCalls, afterRight) =>
                (leftCalls ++ rightCalls ++ [.binary op.opType output (tempPtr nextTemp)
                  (tempPtr (nextTemp + 1)) elementCount], afterRight)
      else none

/-- `DetectVectorPlan` of a one-dimensional store. -/
def detectVectorPlan (store : Store) : Bool :=
  store.index.containsVar vectorDimVar && decide (0 < elementCount)

/-- `VectorizeStoreAsRowBody` of a store to a unified buffer. -/
def vectorizeStoreAsRowBody (store : Store) (nextTemp : Nat) : Option (List VectorCall × Nat) :=
  decomposeExpression vectorDimVar elementCount store.value
    { buffer := .named store.buffer,
      offset := calculateBufferOffset vectorDimVar store.index } nextTemp

/-- The loop over the stores in `TryVectorizeBufferStoreSeq`. -/
def vectorizeStores : List Store → Nat → Option (List VectorCall)
  | [], _ => some []
  | store :: rest, nextTemp =>
    if detectVectorPlan vectorDimVar elementCount store then
      (vectorizeStoreAsRowBody vectorDimVar elementCount store nextTemp).bind
        fun (calls, afterStore) => (vectorizeStores rest afterStore).map fun later => calls ++ later
    else none

/-- `TryVectorizeBufferStoreSeq`: a body without stores is not vectorized. -/
def tryVectorizeBufferStoreSeq (stores : List Store) (nextTemp : Nat) : Option (List VectorCall) :=
  match stores with
  | [] => none
  | store :: rest => vectorizeStores vectorDimVar elementCount (store :: rest) nextTemp

end Decomposition

/-- What becomes of a parallel loop. -/
inductive Lowered where
  | serial (loop : ParallelLoop)
  | vector (calls : List VectorCall)
  deriving DecidableEq, Repr

/-- `VisitStmt_` of a parallel loop over stores, given the number of the next temporary. -/
def visitFor (loop : ParallelLoop) (nextTemp : Nat) : Lowered :=
  match tryVectorizeBufferStoreSeq loop.loopVar loop.extent loop.body nextTemp with
  | some calls => .vector calls
  | none => .serial loop

/-! ## Meaning -/

/-- Exact scalar operations on the values of one data type. -/
structure Machine (Value : Type) where
  ofImm : Imm → Value
  ofIndex : Int → Value
  binary : BinaryOp → Value → Value → Value
  unary : UnaryOp → Value → Value
  relu : Value → Value
  max_zero_left : ∀ zero value, zero.isZero → binary .max (ofImm zero) value = relu value
  max_zero_right : ∀ zero value, zero.isZero → binary .max value (ofImm zero) = relu value

/-- Contents of all buffers. -/
abbrev Memory (Value : Type) := Buffer → Int → Value

/-- The scalar operation that a vector operation applies in every lane. -/
def VectorOp.counterpart : VectorOp → BinaryOp
  | .add => .add
  | .sub => .sub
  | .mul => .mul
  | .div => .div
  | .min => .min
  | .max => .max
  | .bitwiseAnd => .bitwiseAnd
  | .bitwiseOr => .bitwiseOr
  | .bitwiseLshift => .shiftLeft
  | .bitwiseRshift => .shiftRight
  | .adds => .add
  | .subs => .sub
  | .muls => .mul
  | .divs => .div

/-- The second operand of the operation is a scalar. -/
def VectorOp.takesScalar : VectorOp → Bool
  | .adds => true
  | .subs => true
  | .muls => true
  | .divs => true
  | _ => false

section Meaning

variable {Value : Type} (machine : Machine Value) (scalars : Var → Value)

/-- Value of an expression under given index variables. -/
def Expr.eval (indices : Var → Int) (memory : Memory Value) : Expr → Value
  | .imm value => machine.ofImm value
  | .var name => scalars name
  | .load buffer index => memory (.named buffer) (index.eval indices)
  | .binary op a b => machine.binary op (a.eval indices memory) (b.eval indices memory)
  | .call op arg => machine.unary op (arg.eval indices memory)

/-- The index variables in one iteration of a loop. -/
def inIteration (loopVar : Var) (indices : Var → Int) (iteration : Int) : Var → Int :=
  Function.update indices loopVar iteration

/-- Value of an expression in one iteration of a loop, where the loop variable is the iteration. -/
def Expr.evalIn (loopVar : Var) (indices : Var → Int) (memory : Memory Value)
    (iteration : Int) (expr : Expr) : Value :=
  expr.eval machine (Function.update scalars loopVar (machine.ofIndex iteration))
    (inIteration loopVar indices iteration) memory

/-- The memory after one store in one iteration of a loop. -/
def runStore (loopVar : Var) (indices : Var → Int) (iteration : Int)
    (memory : Memory Value) (store : Store) : Memory Value :=
  Function.update memory (.named store.buffer)
    (Function.update (memory (.named store.buffer))
      (store.index.eval (inIteration loopVar indices iteration))
      (store.value.evalIn machine scalars loopVar indices memory iteration))

/-- The memory after the iterations below `count` of the serial loop. -/
def runIterations
    (loopVar : Var)
    (body : List Store)
    (indices : Var → Int)
    (memory : Memory Value) :
    Nat → Memory Value
  | 0 => memory
  | count + 1 =>
    body.foldl (runStore machine scalars loopVar indices count)
      (runIterations loopVar body indices memory count)

/-- The memory after the serial loop. -/
def runLoop (loop : ParallelLoop) (indices : Var → Int) (memory : Memory Value) : Memory Value :=
  runIterations machine scalars loop.loopVar loop.body indices memory loop.extent.toNat

/-- The memory after `count` lanes were written from an offset on. -/
def writeLanes (memory : Memory Value) (dst : Buffer) (offset count : Int)
    (lane : Int → Value) : Memory Value :=
  fun buffer cell =>
    if buffer = dst ∧ offset ≤ cell ∧ cell < offset + count then lane (cell - offset)
    else memory buffer cell

/-- What a lane of a pointer holds. -/
def AccessPtr.lane (indices : Var → Int) (memory : Memory Value) (ptr : AccessPtr)
    (lane : Int) : Value :=
  memory ptr.buffer (ptr.offset.eval indices + lane)

/-- The unary operation of a call, on one lane. -/
def VectorUnaryOp.apply : VectorUnaryOp → Value → Value
  | .exp => machine.unary .exp
  | .ln => machine.unary .log
  | .sqrt => machine.unary .sqrt
  | .rsqrt => machine.unary .rsqrt
  | .abs => machine.unary .fabs
  | .bitwiseNot => machine.unary .bitwiseNot
  | .relu => machine.relu

/-- The memory after one emitted call.  A scalar operation reads one element of a buffer, at the
given scalar offset from its beginning; any other operation reads the pointer lane by lane. -/
def runCall (indices : Var → Int) (memory : Memory Value) : VectorCall → Memory Value
  | .ascendCopy src srcIndex dst dstIndex extent =>
    writeLanes memory dst (dstIndex.eval indices) extent
      (AccessPtr.lane indices memory { buffer := src, offset := srcIndex })
  | .unary op dst src count =>
    writeLanes memory dst.buffer (dst.offset.eval indices) count
      fun lane => op.apply machine (src.lane indices memory lane)
  | .binary op dst src0 src1 count =>
    writeLanes memory dst.buffer (dst.offset.eval indices) count
      fun lane =>
        machine.binary op.counterpart (src0.lane indices memory lane)
          (src1.lane indices memory lane)
  | .scalar op dst src value count =>
    writeLanes memory dst.buffer (dst.offset.eval indices) count
      fun lane =>
        machine.binary op.counterpart (src.lane indices memory lane)
          (value.eval machine scalars indices memory)
  | .bufferScalar op dst src scalar scalarOffset count =>
    writeLanes memory dst.buffer (dst.offset.eval indices) count
      fun lane =>
        machine.binary op.counterpart (src.lane indices memory lane)
          (if op.takesScalar then memory scalar.buffer (scalarOffset.eval indices)
            else scalar.lane indices memory lane)

/-- The memory after a list of emitted calls. -/
def runCalls (indices : Var → Int) (memory : Memory Value) (calls : List VectorCall) :
    Memory Value :=
  calls.foldl (runCall machine scalars indices) memory

/-- The memory after a lowered loop. -/
def runLowered (indices : Var → Int) (memory : Memory Value) : Lowered → Memory Value
  | .serial loop => runLoop machine scalars loop indices memory
  | .vector calls => runCalls machine scalars indices memory calls

end Meaning

/-- The lowered loop leaves every buffer of the source as the serial loop does, whatever the
values, the exact operations on them, the scalar variables and the initial memory. -/
def PreservesMeaning (loop : ParallelLoop) (nextTemp : Nat) (indices : Var → Int) : Prop :=
  ∀ (Value : Type) (machine : Machine Value) (scalars : Var → Value) (memory : Memory Value)
    (name : String),
    runLowered machine scalars indices memory (visitFor loop nextTemp) (.named name) =
      runLoop machine scalars loop indices memory (.named name)

/-! ## Loops in scope -/

/-- The index moves by one with every iteration. -/
def UnitStride (loopVar : Var) (indices : Var → Int) (index : IndexExpr) : Prop :=
  ∀ iteration,
    index.eval (inIteration loopVar indices iteration) =
      index.eval (inIteration loopVar indices 0) + iteration

/-- The loads of an expression. -/
def Expr.loads : Expr → List (String × IndexExpr)
  | .imm _ => []
  | .var _ => []
  | .load buffer index => [(buffer, index)]
  | .binary _ a b => a.loads ++ b.loads
  | .call _ arg => arg.loads

/-- The variables that an expression reads as values. -/
def Expr.vars : Expr → List Var
  | .imm _ => []
  | .var name => [name]
  | .load _ _ => []
  | .binary _ a b => a.vars ++ b.vars
  | .call _ arg => arg.vars

/-- A cell that the iteration writes. -/
def ParallelLoop.Writes (loop : ParallelLoop) (indices : Var → Int) (iteration : Int)
    (buffer : String)
    (cell : Int) : Prop :=
  ∃ store ∈ loop.body,
    store.buffer = buffer ∧ store.index.eval (inIteration loop.loopVar indices iteration) = cell

/-- A cell that the iteration reads. -/
def ParallelLoop.Reads (loop : ParallelLoop) (indices : Var → Int) (iteration : Int)
    (buffer : String)
    (cell : Int) : Prop :=
  ∃ store ∈ loop.body, ∃ index,
    (buffer, index) ∈ store.value.loads ∧
      index.eval (inIteration loop.loopVar indices iteration) = cell

/-- The parallel loops the pass is meant for: stores of unit stride, values over unit-stride loads,
loop-invariant loads and loop-invariant variables, and independent iterations. -/
structure InScope (loop : ParallelLoop) (indices : Var → Int) : Prop where
  stores_unitStride : ∀ store ∈ loop.body, UnitStride loop.loopVar indices store.index
  loads_unitStride_or_scalar :
    ∀ store ∈ loop.body, ∀ access ∈ store.value.loads,
      UnitStride loop.loopVar indices access.2 ∨ isScalarAccess loop.loopVar access.2
  vars_invariant : ∀ store ∈ loop.body, loop.loopVar ∉ store.value.vars
  independent :
    ∀ writer other : Int, 0 ≤ writer → writer < loop.extent → 0 ≤ other → other < loop.extent →
      writer ≠ other → ∀ buffer cell,
        loop.Writes indices writer buffer cell →
          ¬ loop.Writes indices other buffer cell ∧ ¬ loop.Reads indices other buffer cell

end TilelangAscend.ParallelVector
