import TilelangAscend.ParallelVectorSound
import Mathlib.Data.String.Basic

namespace TilelangAscend.ParallelNest

/-!
# Lowering of loop nests over matrices to vector calls

This module models the two-dimensional path of `AscendLowerParallelToVector`: a parallel loop in a
parallel or serial one, both from zero with constant extents, whose body stores into matrices of
the unified buffer.  Depending on the loops and on the stored values the pass emits one flat call
for the whole block, a loop over its rows, or nothing, which leaves the nest serial.  Under a flat
call a vector is first broadcast to a matrix.
-/

open ParallelVector (Var IndexExpr Imm BinaryOp UnaryOp Buffer AccessPtr VectorCall Machine Memory
  calculateBufferOffset decomposeExpression inIteration writeLanes)

/-- Constant shapes: the extent is `shape[0]` of a vector or a matrix, the width `shape[1]` of a
matrix. -/
structure Shapes where
  extent : String → Int
  width : String → Int

/-- Values that a loop nest stores. -/
inductive Expr where
  | imm (value : Imm)
  | var (name : Var)
  | loadVector (buffer : String) (index : IndexExpr)
  | loadMatrix (buffer : String) (row column : IndexExpr)
  | binary (op : BinaryOp) (a b : Expr)
  | call (op : UnaryOp) (arg : Expr)
  deriving DecidableEq, Repr

/-- One `BufferStore` of the nest, to a matrix. -/
structure Store where
  buffer : String
  row : IndexExpr
  column : IndexExpr
  value : Expr
  deriving DecidableEq, Repr

/-- A parallel loop in a parallel or serial loop, both from zero. -/
structure LoopNest where
  outerVar : Var
  innerVar : Var
  outerParallel : Bool
  outerExtent : Nat
  innerExtent : Nat
  body : List Store
  deriving DecidableEq, Repr

/-- The buffers that an expression reads. -/
def Expr.buffers : Expr → List String
  | .imm _ => []
  | .var _ => []
  | .loadVector buffer _ => [buffer]
  | .loadMatrix buffer _ _ => [buffer]
  | .binary _ a b => a.buffers ++ b.buffers
  | .call _ arg => arg.buffers

/-- The buffers of a nest. -/
def LoopNest.buffers (nest : LoopNest) : List String :=
  nest.body.flatMap fun store => store.buffer :: store.value.buffers

/-! ## New buffers -/

/-- A name of a new buffer: longer than every used name, and one name for each number. -/
def freshName (used : List String) (id : Nat) : String :=
  String.ofList (List.replicate ((used.map String.length).foldr max 0 + id + 1) 'b')

/-! ## Emitted calls -/

/-- The axis along which a vector is broadcast. -/
inductive BroadcastDim where
  | outer
  | inner
  deriving DecidableEq, Repr

/-- The statements that the pass emits for a nest: calls on pointers, copies of a whole matrix and
broadcasts. -/
inductive Call where
  | vector (call : VectorCall)
  | copyMatrix (src : String) (srcOffset : IndexExpr) (srcWidth : Int) (dst : String)
      (dstExtent dstWidth : Int)
  | copyVector (src : String) (srcIndex : IndexExpr) (elementCount srcExtent : Int) (dst : String)
      (dstExtent dstWidth : Int)
  | broadcast (dst src : String) (dim : BroadcastDim) (srcExtent outerExtent innerVecLen : Int)
  deriving DecidableEq, Repr

/-- What becomes of a body of stores: calls, or a serial loop over them that binds the variable
of the row index, if the row index is one. -/
inductive Emitted where
  | calls (calls : List Call)
  | rowLoop (outerIndexVar : Option Var) (extent : Int) (calls : List Call)
  deriving DecidableEq, Repr

/-! ## Plans -/

/-- `VectorPlan`. -/
structure VectorPlan where
  innerVecLen : Int
  outerExtent : Int
  outerIndexVar : Option Var
  is2dVectorizable : Bool
  deriving DecidableEq, Repr

/-- The expression as a plain variable. -/
def asVar : IndexExpr → Option Var
  | .var name => some name
  | _ => none

/-- The linear index of a matrix element, rows one after the other. -/
def flatIndex (shapes : Shapes) (buffer : String) (row column : IndexExpr) : IndexExpr :=
  .add (.mul row (.imm (shapes.width buffer))) column

section Plans

variable (shapes : Shapes) (fresh : Nat → String)
  (vectorDimVar : Var) (outerDimVar : Option Var) (vectorDimExtent : Int)

/-- `DetectVectorPlan` of a store to a matrix of the unified buffer. -/
def detectVectorPlan (elementCount : Int) (store : Store) : Option VectorPlan :=
  let innerVecLen :=
    if 0 < vectorDimExtent then vectorDimExtent else shapes.width store.buffer
  if !store.column.containsVar vectorDimVar || decide (innerVecLen ≤ 0) ||
      decide (elementCount.tmod innerVecLen ≠ 0) then
    none
  else
    some {
      innerVecLen := innerVecLen
      outerExtent := elementCount.tdiv innerVecLen
      outerIndexVar := asVar store.row
      is2dVectorizable := outerDimVar.any fun outer => store.row.containsVar outer
    }

/-- `CanBroadcast`: the index is one of the two loop variables. -/
def canBroadcast (index : IndexExpr) : Option BroadcastDim :=
  match asVar index with
  | some name =>
    if name = vectorDimVar then some .outer
    else if outerDimVar = some name then some .inner
    else none
  | none => none

/-- The expression loads from a matrix: `container_2d_dim`. -/
def Expr.hasMatrix : Expr → Bool
  | .imm _ => false
  | .var _ => false
  | .loadVector _ _ => false
  | .loadMatrix _ _ _ => true
  | .binary _ a b => a.hasMatrix || b.hasMatrix
  | .call _ arg => arg.hasMatrix

/-- The loop over the loads in `CheckExpressionSupports2DVectorization`. -/
def Expr.loadsSupport2D (outer : Var) (containsMatrix : Bool) : Expr → Bool
  | .imm _ => true
  | .var _ => true
  | .loadVector _ index =>
    index.containsVar vectorDimVar && index.containsVar outer ||
      !containsMatrix && (canBroadcast vectorDimVar outerDimVar index).isSome
  | .loadMatrix _ row column =>
    (row.containsVar vectorDimVar || column.containsVar vectorDimVar) &&
      (row.containsVar outer || column.containsVar outer)
  | .binary _ a b => a.loadsSupport2D outer containsMatrix && b.loadsSupport2D outer containsMatrix
  | .call _ arg => arg.loadsSupport2D outer containsMatrix

/-- `CheckExpressionSupports2DVectorization`. -/
def checkExpressionSupports2DVectorization (expr : Expr) : Bool :=
  match outerDimVar with
  | some outer => expr.loadsSupport2D vectorDimVar outerDimVar outer expr.hasMatrix
  | none => false

/-! ## One store -/

/-- `SubstituteLoopVars` of the outer variable, which becomes zero for a whole block. -/
def zeroOuter (is2d : Bool) (index : IndexExpr) : IndexExpr :=
  match is2d, outerDimVar with
  | true, some outer => index.substituteLoopVars outer
  | _, _ => index

/-- A value over linear indices, after the broadcasts that it needs. -/
structure LoweredLoads where
  value : ParallelVector.Expr
  broadcasts : List Call
  nextTemp : Nat
  deriving DecidableEq, Repr

/-- `BroadcastableBufferCollector` and `BufferLoadReplacer`: when vectors are collected, a vector
indexed by a loop variable is broadcast to a new matrix, with a workspace beside it, and read from
the matrix's first element on.  Every other load keeps its place. -/
def Expr.lowerLoads (collect is2d : Bool) (outerExtent innerVecLen : Int) :
    Expr → Nat → LoweredLoads
  | .imm value, nextTemp => { value := .imm value, broadcasts := [], nextTemp := nextTemp }
  | .var name, nextTemp => { value := .var name, broadcasts := [], nextTemp := nextTemp }
  | .loadVector buffer index, nextTemp =>
    match (if collect then canBroadcast vectorDimVar outerDimVar index else none) with
    | some dim => {
        value := .load (fresh nextTemp) (.imm 0)
        broadcasts :=
          [.broadcast (fresh nextTemp) buffer dim (shapes.extent buffer) outerExtent innerVecLen]
        nextTemp := nextTemp + 2
      }
    | none => {
        value := .load buffer (zeroOuter outerDimVar is2d index)
        broadcasts := []
        nextTemp := nextTemp
      }
  | .loadMatrix buffer row column, nextTemp => {
      value := .load buffer (zeroOuter outerDimVar is2d (flatIndex shapes buffer row column))
      broadcasts := []
      nextTemp := nextTemp
    }
  | .binary op a b, nextTemp =>
    let left := a.lowerLoads collect is2d outerExtent innerVecLen nextTemp
    let right := b.lowerLoads collect is2d outerExtent innerVecLen left.nextTemp
    {
      value := .binary op left.value right.value
      broadcasts := left.broadcasts ++ right.broadcasts
      nextTemp := right.nextTemp
    }
  | .call op arg, nextTemp =>
    let lowered := arg.lowerLoads collect is2d outerExtent innerVecLen nextTemp
    { lowered with value := .call op lowered.value }

/-- The vectors that `VectorizeStoreAsRowBody` collects: none beside a matrix. -/
def Expr.collectsVectors (is2d : Bool) (expr : Expr) : Bool :=
  is2d && !expr.hasMatrix

/-- The width of the matrix that a load reads once vectors are broadcast; none for a vector. -/
def Expr.sourceWidth (collect : Bool) (innerVecLen : Int) : Expr → Option Int
  | .loadMatrix buffer _ _ => some (shapes.width buffer)
  | .loadVector _ index =>
    if collect && (canBroadcast vectorDimVar outerDimVar index).isSome then some innerVecLen
    else none
  | _ => none

/-- The copy of a bare load: `DecomposeExpression` gives up on matrices of different widths,
`GenerateAscendCopy` with source indices copies to the beginning of the whole destination. -/
def generateAscendCopy (elementCount : Int) (sourceWidth : Option Int) (src : String)
    (index : IndexExpr) (dst : String) : Option Call :=
  match sourceWidth with
  | some width =>
    if width ≠ shapes.width dst then none
    else
      some (.copyMatrix src (calculateBufferOffset vectorDimVar index) width dst
        (shapes.extent dst) (shapes.width dst))
  | none =>
    some (.copyVector src (index.substituteLoopVars vectorDimVar) elementCount
      (shapes.extent src) dst (shapes.extent dst) (shapes.width dst))

/-- `DecomposeExpression` of the value whose loads were lowered. -/
def decomposeLowered (elementCount : Int) (sourceWidth : Option Int) (output : AccessPtr)
    (dst : String) (lowered : LoweredLoads) : Option (List Call × Nat) :=
  match lowered.value with
  | .load src index =>
    (generateAscendCopy shapes vectorDimVar elementCount sourceWidth src index dst).map
      fun copy => (lowered.broadcasts ++ [copy], lowered.nextTemp)
  | value =>
    (decomposeExpression vectorDimVar elementCount value output lowered.nextTemp).map
      fun (calls, nextTemp) => (lowered.broadcasts ++ calls.map .vector, nextTemp)

/-- `total_elements` of a store: the whole block, or one row of it. -/
def totalElements (is2d : Bool) (innerVecLen outerExtent : Int) : Int :=
  if is2d then innerVecLen * outerExtent else innerVecLen

/-- `VectorizeStoreAsRowBody` of a store to the unified buffer. -/
def vectorizeStoreAsRowBody (innerVecLen outerExtent : Int) (is2d : Bool) (store : Store)
    (nextTemp : Nat) : Option (List Call × Nat) :=
  let collect := store.value.collectsVectors is2d
  let index := zeroOuter outerDimVar is2d (flatIndex shapes store.buffer store.row store.column)
  decomposeLowered shapes vectorDimVar (totalElements is2d innerVecLen outerExtent)
    (store.value.sourceWidth shapes vectorDimVar outerDimVar collect innerVecLen)
    { buffer := .named store.buffer, offset := calculateBufferOffset vectorDimVar index }
    store.buffer
    (store.value.lowerLoads shapes fresh vectorDimVar outerDimVar collect is2d outerExtent
      innerVecLen nextTemp)

/-! ## A body of stores -/

/-- The loop over the stores in `TryVectorizeBufferStoreSeq`: every plan has the outer extent of
the first one. -/
def vectorizeStores (elementCount outerExtent : Int) (is2d : Bool) :
    List Store → Nat → Option (List Call)
  | [], _ => some []
  | store :: rest, nextTemp =>
    (detectVectorPlan shapes vectorDimVar outerDimVar vectorDimExtent elementCount store).bind
      fun plan => if plan.outerExtent ≠ outerExtent then none
        else
          (vectorizeStoreAsRowBody shapes fresh vectorDimVar outerDimVar plan.innerVecLen
            plan.outerExtent is2d store nextTemp).bind fun (calls, afterStore) =>
              (vectorizeStores elementCount outerExtent is2d rest afterStore).map
                fun later => calls ++ later

/-- `TryVectorizeBufferStoreSeq` of stores to matrices. -/
def tryVectorizeBufferStoreSeq (elementCount : Int) (hasOuterSerial : Bool)
    (stores : List Store) (nextTemp : Nat) : Option Emitted :=
  match stores with
  | [] => none
  | first :: _ =>
    (detectVectorPlan shapes vectorDimVar outerDimVar vectorDimExtent elementCount first).bind
      fun plan =>
        let is2d :=
          plan.is2dVectorizable &&
            stores.all fun store =>
              checkExpressionSupports2DVectorization vectorDimVar outerDimVar store.value
        (vectorizeStores shapes fresh vectorDimVar outerDimVar vectorDimExtent elementCount
          plan.outerExtent is2d stores nextTemp).map fun calls =>
            if is2d || hasOuterSerial || plan.outerExtent == 1 then .calls calls
            else .rowLoop plan.outerIndexVar plan.outerExtent calls

end Plans

/-! ## The nest -/

/-- What becomes of a nest: the serial nest, what was emitted for it, or that in its serial outer
loop. -/
inductive Lowered where
  | serial
  | emitted (emitted : Emitted)
  | inSerial (emitted : Emitted)
  deriving DecidableEq, Repr

/-- `VisitStmt_` of the nest.  Two parallel loops are tried as one block.  In a serial loop the
parallel one is tried with the element count of both, then, visited by itself, with its own. -/
def visitFor (shapes : Shapes) (nest : LoopNest) (nextTemp : Nat) : Lowered :=
  let fresh := freshName nest.buffers
  let totalElements := (nest.innerExtent : Int) * nest.outerExtent
  if nest.outerParallel then
    match tryVectorizeBufferStoreSeq shapes fresh nest.innerVar (some nest.outerVar)
        nest.innerExtent totalElements false nest.body nextTemp with
    | some emitted => .emitted emitted
    | none => .serial
  else
    match tryVectorizeBufferStoreSeq shapes fresh nest.innerVar none nest.innerExtent
        totalElements true nest.body nextTemp with
    | some emitted => .inSerial emitted
    | none =>
      match tryVectorizeBufferStoreSeq shapes fresh nest.innerVar none nest.innerExtent
          nest.innerExtent false nest.body nextTemp with
      | some emitted => .inSerial emitted
      | none => .serial

/-! ## Meaning -/

section Meaning

variable {Value : Type} (machine : Machine Value) (scalars : Var → Value)

/-- Value of an expression under given index variables; a matrix holds its rows one after the
other. -/
def Expr.eval
    (shapes : Shapes)
    (scalars : Var → Value)
    (indices : Var → Int)
    (memory : Memory Value) :
    Expr → Value
  | .imm value => machine.ofImm value
  | .var name => scalars name
  | .loadVector buffer index => memory (.named buffer) (index.eval indices)
  | .loadMatrix buffer row column =>
    memory (.named buffer) (row.eval indices * shapes.width buffer + column.eval indices)
  | .binary op a b =>
    machine.binary op (a.eval shapes scalars indices memory) (b.eval shapes scalars indices memory)
  | .call op arg => machine.unary op (arg.eval shapes scalars indices memory)

/-- The index variables in one iteration of the nest. -/
def LoopNest.indicesAt (nest : LoopNest) (indices : Var → Int) (outer inner : Int) : Var → Int :=
  inIteration nest.innerVar (inIteration nest.outerVar indices outer) inner

/-- The scalar variables in one iteration of the nest, where the loop variables are its
numbers. -/
def LoopNest.scalarsAt (nest : LoopNest) (outer inner : Int) : Var → Value :=
  Function.update (Function.update scalars nest.outerVar (machine.ofIndex outer)) nest.innerVar
    (machine.ofIndex inner)

/-- The linear cell that a store writes in one iteration. -/
def Store.cell (shapes : Shapes) (nest : LoopNest) (indices : Var → Int)
    (outer inner : Int) (store : Store) : Int :=
  store.row.eval (nest.indicesAt indices outer inner) * shapes.width store.buffer +
    store.column.eval (nest.indicesAt indices outer inner)

/-- The memory after one store in one iteration. -/
def runStore (shapes : Shapes) (nest : LoopNest) (indices : Var → Int) (outer inner : Int)
    (memory : Memory Value) (store : Store) : Memory Value :=
  Function.update memory (.named store.buffer)
    (Function.update (memory (.named store.buffer)) (store.cell shapes nest indices outer inner)
      (store.value.eval machine shapes (nest.scalarsAt machine scalars outer inner)
        (nest.indicesAt indices outer inner) memory))

/-- The memory after the inner iterations below `count` of one outer iteration. -/
def runRow
    (shapes : Shapes)
    (nest : LoopNest)
    (indices : Var → Int)
    (outer : Int)
    (memory : Memory Value) :
    Nat → Memory Value
  | 0 => memory
  | count + 1 =>
    nest.body.foldl (runStore machine scalars shapes nest indices outer count)
      (runRow shapes nest indices outer memory count)

/-- The memory after the outer iterations below `count` of the serial nest. -/
def runRows (shapes : Shapes) (nest : LoopNest) (indices : Var → Int) (memory : Memory Value) :
    Nat → Memory Value
  | 0 => memory
  | count + 1 =>
    runRow machine scalars shapes nest indices count
      (runRows shapes nest indices memory count) nest.innerExtent

/-- The memory after the serial nest. -/
def runNest (shapes : Shapes) (nest : LoopNest) (indices : Var → Int) (memory : Memory Value) :
    Memory Value :=
  runRows machine scalars shapes nest indices memory nest.outerExtent

/-- The first source element of a copied matrix: the linear offset, taken apart into a row by
`floordiv` and a column by `truncmod`. -/
def copyStart (offset width : Int) : Int :=
  Int.fdiv offset width * width + Int.tmod offset width

/-- The elements that `copy_ub_to_ub` moves from a vector: the destination's size when the source
is taken whole, and otherwise one row of the source. -/
def copiedElements (elementCount srcExtent dstExtent dstWidth : Int) : Int :=
  if elementCount = srcExtent then dstExtent * dstWidth else elementCount

/-- The element of the source that a broadcast puts into a linear cell. -/
def broadcastElement (dim : BroadcastDim) (innerVecLen : Int) (cell : Int) : Int :=
  match dim with
  | .outer => cell % innerVecLen
  | .inner => cell / innerVecLen

/-- The source has as many elements as the axis it is laid along. -/
def broadcastFits (dim : BroadcastDim) (srcExtent outerExtent innerVecLen : Int) : Bool :=
  match dim with
  | .outer => srcExtent == innerVecLen
  | .inner => srcExtent == outerExtent

/-- The memory after one emitted call.  What a broadcast of a source that does not fit writes is
not determined. -/
def runCall
    (misfit : Int → Value)
    (scalars : Var → Value)
    (indices : Var → Int)
    (memory : Memory Value) :
    Call → Memory Value
  | .vector call => ParallelVector.runCall machine scalars indices memory call
  | .copyMatrix src srcOffset srcWidth dst dstExtent dstWidth =>
    writeLanes memory (.named dst) 0 (dstExtent * dstWidth) fun lane =>
      memory (.named src) (copyStart (srcOffset.eval indices) srcWidth + lane)
  | .copyVector src srcIndex elementCount srcExtent dst dstExtent dstWidth =>
    writeLanes memory (.named dst) 0
      (copiedElements elementCount srcExtent dstExtent dstWidth) fun lane =>
        memory (.named src) (srcIndex.eval indices + lane)
  | .broadcast dst src dim srcExtent outerExtent innerVecLen =>
    writeLanes memory (.named dst) 0 (outerExtent * innerVecLen) fun lane =>
      if broadcastFits dim srcExtent outerExtent innerVecLen then
        memory (.named src) (broadcastElement dim innerVecLen lane)
      else misfit lane

/-- The memory after a list of emitted calls. -/
def runCalls (misfit : Int → Value) (scalars : Var → Value) (indices : Var → Int)
    (memory : Memory Value) (calls : List Call) : Memory Value :=
  calls.foldl (runCall machine misfit scalars indices) memory

/-- The memory after the iterations below `count` of a serial loop over emitted statements, each
run with the index and scalar variables of its iteration. -/
def runLoopOver
    (loopVar : Option Var)
    (body : (Var → Value) → (Var → Int) → Memory Value → Memory Value)
    (indices : Var → Int)
    (memory : Memory Value) :
    Nat → Memory Value
  | 0 => memory
  | count + 1 =>
    match loopVar with
    | some bound =>
      body (Function.update scalars bound (machine.ofIndex count))
        (inIteration bound indices count)
        (runLoopOver loopVar body indices memory count)
    | none => body scalars indices (runLoopOver loopVar body indices memory count)

/-- The memory after what was emitted for a body of stores. -/
def runEmitted
    (misfit : Int → Value)
    (scalars : Var → Value)
    (indices : Var → Int)
    (memory : Memory Value) :
    Emitted → Memory Value
  | .calls calls => runCalls machine misfit scalars indices memory calls
  | .rowLoop outerIndexVar extent calls =>
    runLoopOver machine scalars outerIndexVar
      (fun scalars indices memory => runCalls machine misfit scalars indices memory calls)
      indices memory extent.toNat

/-- The memory after a lowered nest. -/
def runLowered
    (shapes : Shapes)
    (nest : LoopNest)
    (misfit : Int → Value)
    (indices : Var → Int)
    (memory : Memory Value) :
    Lowered → Memory Value
  | .serial => runNest machine scalars shapes nest indices memory
  | .emitted emitted => runEmitted machine misfit scalars indices memory emitted
  | .inSerial emitted =>
    runLoopOver machine scalars (some nest.outerVar)
      (fun scalars indices memory => runEmitted machine misfit scalars indices memory emitted)
      indices memory nest.outerExtent

end Meaning

/-- The lowered nest leaves every buffer but the new ones as the serial nest does, whatever the
values, the exact operations on them, the scalar variables, the initial memory and what an unbound
loop variable or a broadcast that does not fit give. -/
def PreservesMeaning (shapes : Shapes) (nest : LoopNest) (nextTemp : Nat) (indices : Var → Int) :
    Prop :=
  ∀ (Value : Type) (machine : Machine Value) (scalars : Var → Value) (misfit : Int → Value)
    (unbound : Int) (memory : Memory Value) (name : String),
    (∀ id, name ≠ freshName nest.buffers id) →
      runLowered machine scalars shapes nest misfit (inIteration nest.outerVar indices unbound)
          memory (visitFor shapes nest nextTemp) (.named name) =
        runNest machine scalars shapes nest indices memory (.named name)

/-! ## Nests in scope -/

/-- An element that a load reads. -/
inductive Access where
  | vector (buffer : String) (index : IndexExpr)
  | matrix (buffer : String) (row column : IndexExpr)
  deriving DecidableEq, Repr

/-- The loads of an expression. -/
def Expr.accesses : Expr → List Access
  | .imm _ => []
  | .var _ => []
  | .loadVector buffer index => [.vector buffer index]
  | .loadMatrix buffer row column => [.matrix buffer row column]
  | .binary _ a b => a.accesses ++ b.accesses
  | .call _ arg => arg.accesses

/-- The variables that an expression reads as values. -/
def Expr.vars : Expr → List Var
  | .imm _ => []
  | .var name => [name]
  | .loadVector _ _ => []
  | .loadMatrix _ _ _ => []
  | .binary _ a b => a.vars ++ b.vars
  | .call _ arg => arg.vars

section Scope

variable (shapes : Shapes) (nest : LoopNest) (indices : Var → Int)

/-- The index moves by one with every outer iteration and not with the inner ones. -/
def FollowsOuter (index : IndexExpr) : Prop :=
  ∀ outer inner,
    index.eval (nest.indicesAt indices outer inner) =
      index.eval (nest.indicesAt indices 0 0) + outer

/-- The index moves by one with every inner iteration and not with the outer ones. -/
def FollowsInner (index : IndexExpr) : Prop :=
  ∀ outer inner,
    index.eval (nest.indicesAt indices outer inner) =
      index.eval (nest.indicesAt indices 0 0) + inner

/-- A vector is indexed by one loop variable, a matrix by both. -/
def Access.HasForm : Access → Prop
  | .vector _ index =>
    FollowsInner nest indices index ∧ index.containsVar nest.outerVar = false ∨
      FollowsOuter nest indices index ∧ index.containsVar nest.innerVar = false
  | .matrix _ row column => FollowsOuter nest indices row ∧ FollowsInner nest indices column

/-- The buffer of an access. -/
def Access.buffer : Access → String
  | .vector buffer _ => buffer
  | .matrix buffer _ _ => buffer

/-- The linear cell of an access in one iteration. -/
def Access.cell (outer inner : Int) : Access → Int
  | .vector _ index => index.eval (nest.indicesAt indices outer inner)
  | .matrix buffer row column =>
    row.eval (nest.indicesAt indices outer inner) * shapes.width buffer +
      column.eval (nest.indicesAt indices outer inner)

/-- The element of an access lies in its buffer. -/
def Access.InBounds (outer inner : Int) : Access → Prop
  | .vector buffer index =>
    0 ≤ index.eval (nest.indicesAt indices outer inner) ∧
      index.eval (nest.indicesAt indices outer inner) < shapes.extent buffer
  | .matrix buffer row column =>
    (0 ≤ row.eval (nest.indicesAt indices outer inner) ∧
      row.eval (nest.indicesAt indices outer inner) < shapes.extent buffer) ∧
      0 ≤ column.eval (nest.indicesAt indices outer inner) ∧
        column.eval (nest.indicesAt indices outer inner) < shapes.width buffer

/-- The element that a store writes, as an access. -/
def Store.target (store : Store) : Access :=
  .matrix store.buffer store.row store.column

/-- A cell that the iteration writes. -/
def LoopNest.Writes (outer inner : Int) (buffer : String) (cell : Int) : Prop :=
  ∃ store ∈ nest.body,
    store.buffer = buffer ∧ store.target.cell shapes nest indices outer inner = cell

/-- A cell that the iteration reads. -/
def LoopNest.Reads (outer inner : Int) (buffer : String) (cell : Int) : Prop :=
  ∃ store ∈ nest.body, ∃ access ∈ store.value.accesses,
    access.buffer = buffer ∧ access.cell shapes nest indices outer inner = cell

/-- An iteration of the nest. -/
def LoopNest.Iteration (outer inner : Int) : Prop :=
  (0 ≤ outer ∧ outer < nest.outerExtent) ∧ 0 ≤ inner ∧ inner < nest.innerExtent

/-- The nests the pass is meant for: stores to and loads from matrices at both loop variables,
loads from vectors at one of them, all within their buffers, and independent iterations. -/
structure InScope : Prop where
  distinct : nest.outerVar ≠ nest.innerVar
  widths_positive : ∀ store ∈ nest.body, 0 < shapes.width store.buffer
  stores_form : ∀ store ∈ nest.body, store.target.HasForm nest indices
  loads_form : ∀ store ∈ nest.body, ∀ access ∈ store.value.accesses, access.HasForm nest indices
  vars_invariant :
    ∀ store ∈ nest.body, nest.outerVar ∉ store.value.vars ∧ nest.innerVar ∉ store.value.vars
  stores_inBounds :
    ∀ store ∈ nest.body, ∀ outer inner, nest.Iteration outer inner →
      store.target.InBounds shapes nest indices outer inner
  loads_inBounds :
    ∀ store ∈ nest.body, ∀ access ∈ store.value.accesses, ∀ outer inner,
      nest.Iteration outer inner → access.InBounds shapes nest indices outer inner
  independent :
    ∀ outer inner otherOuter otherInner, nest.Iteration outer inner →
      nest.Iteration otherOuter otherInner → (outer, inner) ≠ (otherOuter, otherInner) →
        ∀ buffer cell, nest.Writes shapes indices outer inner buffer cell →
          ¬ nest.Writes shapes indices otherOuter otherInner buffer cell ∧
            ¬ nest.Reads shapes indices otherOuter otherInner buffer cell

end Scope

end TilelangAscend.ParallelNest
