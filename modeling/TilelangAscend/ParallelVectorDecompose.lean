import TilelangAscend.ParallelVector

namespace TilelangAscend.ParallelVector

/-!
# What a decomposition computes

The calls of a decomposition read every load the way the code reads it: lane by lane from the
offset on, except for a loop-invariant load on the right of an arithmetic operation.  This module
shows that the emitted calls compute exactly that value in every lane of the output and leave
everything but the output and newer temporaries alone.
-/

/-! ## Indices -/

namespace IndexExpr

theorem eval_substituteLoopVars (loopVar : Var) (indices : Var → Int) (index : IndexExpr) :
    (index.substituteLoopVars loopVar).eval indices =
      index.eval (inIteration loopVar indices 0) := by
  induction index with
  | imm value => rfl
  | var name =>
    by_cases same : name = loopVar
    · subst same
      simp [substituteLoopVars, eval, inIteration]
    · simp [substituteLoopVars, eval, inIteration, same]
  | add a b ihA ihB => simp [substituteLoopVars, eval, ihA, ihB]
  | sub a b ihA ihB => simp [substituteLoopVars, eval, ihA, ihB]
  | mul a b ihA ihB => simp [substituteLoopVars, eval, ihA, ihB]

theorem eval_of_isScalarAccess {loopVar : Var} {index : IndexExpr}
    (scalar : isScalarAccess loopVar index) (indices : Var → Int) (iteration : Int) :
    index.eval (inIteration loopVar indices iteration) =
      index.eval (inIteration loopVar indices 0) := by
  induction index with
  | imm value => rfl
  | var name =>
    have other : name ≠ loopVar := by simpa [isScalarAccess, containsVar] using scalar
    simp [eval, inIteration, other]
  | add a b ihA ihB =>
    simp only [isScalarAccess, containsVar, Bool.not_or, Bool.and_eq_true] at scalar
    simp only [eval, ihA scalar.1, ihB scalar.2]
  | sub a b ihA ihB =>
    simp only [isScalarAccess, containsVar, Bool.not_or, Bool.and_eq_true] at scalar
    simp only [eval, ihA scalar.1, ihB scalar.2]
  | mul a b ihA ihB =>
    simp only [isScalarAccess, containsVar, Bool.not_or, Bool.and_eq_true] at scalar
    simp only [eval, ihA scalar.1, ihB scalar.2]

end IndexExpr

theorem UnitStride.not_isScalarAccess {loopVar : Var} {indices : Var → Int}
    {index : IndexExpr} (unitStride : UnitStride loopVar indices index) :
    isScalarAccess loopVar index = false := by
  by_contra scalar
  have isScalar : isScalarAccess loopVar index = true := by simpa using scalar
  have constant := IndexExpr.eval_of_isScalarAccess isScalar indices 1
  have moved := unitStride 1
  omega

/-! ## The value the code computes -/

section Values

variable {Value : Type} (machine : Machine Value) (scalars : Var → Value)
  (vectorDimVar : Var) (indices : Var → Int)

/-- The operation has a form with a scalar operand. -/
def BinaryOp.hasScalarForm (op : BinaryOp) : Bool :=
  op.opType.scalarOpType.takesScalar

/-- What the code reads for the right operand of an operation in one lane: one element for a
loop-invariant load under an operation with a scalar form, and the lane otherwise. -/
def rightLane (op : BinaryOp) (memory : Memory Value) (laneValue : Value) : Expr → Value
  | .load buffer index =>
    if isScalarAccess vectorDimVar index && op.hasScalarForm then
      memory (.named buffer) ((calculateBufferOffset vectorDimVar index).eval indices)
    else laneValue
  | _ => laneValue

/-- What the code computes for an expression in one lane. -/
def Expr.laneValue (memory : Memory Value) (lane : Int) : Expr → Value
  | .imm value => machine.ofImm value
  | .var name => scalars name
  | .load buffer index =>
    memory (.named buffer) ((calculateBufferOffset vectorDimVar index).eval indices + lane)
  | .call op arg => machine.unary op (arg.laneValue memory lane)
  | .binary op a b =>
    machine.binary op (a.laneValue memory lane)
      (rightLane vectorDimVar indices op memory (b.laneValue memory lane) b)

theorem Expr.laneValue_congr {memory other : Memory Value}
    (agree : ∀ name, memory (.named name) = other (.named name)) (lane : Int) (expr : Expr) :
    expr.laneValue machine scalars vectorDimVar indices memory lane =
      expr.laneValue machine scalars vectorDimVar indices other lane := by
  induction expr with
  | imm value => rfl
  | var name => rfl
  | load buffer index => simp only [laneValue, agree]
  | call op arg ih => simp only [laneValue, ih]
  | binary op a b ihA ihB =>
    simp only [laneValue, ihA, ihB]
    cases b <;> simp only [rightLane, agree]

end Values

/-! ## One call -/

section Calls

variable {Value : Type} {machine : Machine Value} {scalars : Var → Value}
  {vectorDimVar : Var} {indices : Var → Int} {elementCount : Int}

theorem writeLanes_lane (memory : Memory Value) (dst : Buffer) (offset : Int)
    (value : Int → Value) {lane : Int} (nonneg : 0 ≤ lane) (below : lane < elementCount) :
    writeLanes memory dst offset elementCount value dst (offset + lane) = value lane := by
  have inside : offset ≤ offset + lane ∧ offset + lane < offset + elementCount := by omega
  have back : offset + lane - offset = lane := by omega
  simp [writeLanes, inside, back]

/-- A cell that is not one of the lanes of the pointer. -/
def AccessPtr.Outside (ptr : AccessPtr) (indices : Var → Int) (elementCount : Int)
    (buffer : Buffer)
    (cell : Int) : Prop :=
  ¬ (buffer = ptr.buffer ∧ ptr.offset.eval indices ≤ cell ∧
    cell < ptr.offset.eval indices + elementCount)

/-- The call writes the lanes of its output from the memory before and nothing else. -/
def WritesLanes (machine : Machine Value) (scalars : Var → Value) (indices : Var → Int)
    (elementCount : Int) (call : VectorCall) (output : AccessPtr)
    (value : Memory Value → Int → Value) : Prop :=
  ∀ memory,
    runCall machine scalars indices memory call =
      writeLanes memory output.buffer (output.offset.eval indices) elementCount (value memory)

@[simp] theorem counterpart_scalarOpType (op : BinaryOp) :
    op.opType.scalarOpType.counterpart = op := by
  cases op <;> rfl

@[simp] theorem counterpart_opType (op : BinaryOp) : op.opType.counterpart = op := by
  cases op <;> rfl

@[simp] theorem apply_opType (op : UnaryOp) (value : Value) :
    op.opType.apply machine value = machine.unary op value := by
  cases op <;> rfl

variable {input : AccessPtr}

theorem reluInput_eq_some {zero other : Expr}
    (found : reluInput vectorDimVar zero other = some input) :
    ∃ value buffer index, zero = .imm value ∧ value.isZero ∧ other = .load buffer index ∧
      input = { buffer := .named buffer, offset := calculateBufferOffset vectorDimVar index } := by
  cases other with
  | load buffer index =>
    simp only [reluInput, Option.ite_none_right_eq_some, Option.some.injEq] at found
    cases zero with
    | imm value => exact ⟨value, buffer, index, rfl, found.1, rfl, found.2.symm⟩
    | _ => exact absurd found.1 (by simp [Expr.isZero])
  | _ => simp [reluInput] at found

theorem isUnaryOp_lane {expr : Expr} {op : VectorUnaryOp}
    (unary : isUnaryOp vectorDimVar expr = some (op, input)) (memory : Memory Value) (lane : Int) :
    op.apply machine (input.lane indices memory lane) =
      expr.laneValue machine scalars vectorDimVar indices memory lane := by
  cases expr with
  | call callOp arg =>
    cases arg with
    | load buffer index =>
      simp only [isUnaryOp, Option.some.injEq, Prod.mk.injEq] at unary
      obtain ⟨rfl, rfl⟩ := unary
      simp [AccessPtr.lane, Expr.laneValue]
    | _ => simp [isUnaryOp] at unary
  | binary binaryOp a b =>
    cases binaryOp with
    | max =>
      simp only [isUnaryOp] at unary
      split at unary
      next foundInput found =>
        obtain ⟨value, buffer, index, rfl, isZero, rfl, rfl⟩ := reluInput_eq_some found
        simp only [Option.some.injEq, Prod.mk.injEq] at unary
        obtain ⟨rfl, rfl⟩ := unary
        simp [AccessPtr.lane, Expr.laneValue, rightLane, BinaryOp.hasScalarForm,
          BinaryOp.opType, VectorOp.scalarOpType, VectorOp.takesScalar, VectorUnaryOp.apply,
          machine.max_zero_left value _ isZero]
      next notFound =>
        simp only [Option.map_eq_some_iff, Prod.mk.injEq] at unary
        obtain ⟨foundInput, found, rfl, rfl⟩ := unary
        obtain ⟨value, buffer, index, rfl, isZero, rfl, rfl⟩ := reluInput_eq_some found
        simp [AccessPtr.lane, Expr.laneValue, rightLane, VectorUnaryOp.apply,
          machine.max_zero_right value _ isZero]
    | _ => simp [isUnaryOp] at unary
  | _ => simp [isUnaryOp] at unary

theorem binary_writesLanes (op : BinaryOp) (output src0 src1 : AccessPtr) :
    WritesLanes machine scalars indices elementCount
      (.binary op.opType output src0 src1 elementCount) output fun memory lane =>
        machine.binary op (src0.lane indices memory lane) (src1.lane indices memory lane) := by
  intro memory
  simp only [runCall, counterpart_opType]

theorem generateRightSimple_writesLanes {op : BinaryOp} {output left : AccessPtr}
    {right : Expr} {call : VectorCall}
    (generated :
      generateRightSimple vectorDimVar elementCount op.opType output left right = some call) :
    WritesLanes machine scalars indices elementCount call output fun memory lane =>
      machine.binary op (left.lane indices memory lane)
        (rightLane vectorDimVar indices op memory
          (right.laneValue machine scalars vectorDimVar indices memory lane) right) := by
  intro memory
  cases right with
  | load buffer index =>
    simp only [generateRightSimple] at generated
    split at generated
    next scalar =>
      simp only [Option.some.injEq] at generated
      subst generated
      simp only [runCall, counterpart_scalarOpType, rightLane, scalar, Bool.true_and,
        Expr.laneValue, BinaryOp.hasScalarForm, AccessPtr.lane]
    next vector =>
      simp only [Option.some.injEq] at generated
      subst generated
      have notScalar : isScalarAccess vectorDimVar index = false := by simpa using vector
      simp only [runCall, counterpart_opType, rightLane, notScalar, Bool.false_and,
        Bool.false_eq_true, ↓reduceIte, Expr.laneValue, AccessPtr.lane]
  | imm value =>
    simp only [generateRightSimple, Expr.isScalar, ↓reduceIte, Option.some.injEq] at generated
    subst generated
    simp only [runCall, counterpart_scalarOpType, rightLane, Expr.laneValue, Expr.eval]
  | var name =>
    simp only [generateRightSimple, Expr.isScalar, ↓reduceIte, Option.some.injEq] at generated
    subst generated
    simp only [runCall, counterpart_scalarOpType, rightLane, Expr.laneValue, Expr.eval]
  | _ => simp [generateRightSimple, Expr.isScalar] at generated

end Calls

/-! ## Whole decompositions -/

section Decompositions

variable {Value : Type} (machine : Machine Value) (scalars : Var → Value)
  (indices : Var → Int) (elementCount : Int)

/-- The calls keep everything but temporaries from a number on. -/
def KeepsOlder (calls : List VectorCall) (nextTemp : Nat) : Prop :=
  ∀ (memory : Memory Value) buffer cell, (∀ id, nextTemp ≤ id → buffer ≠ .temp id) →
    runCalls machine scalars indices memory calls buffer cell = memory buffer cell

/-- The calls leave a value in every lane of the output, and change nothing else but temporaries
from a number on. -/
structure Computes
    (calls : List VectorCall)
    (output : AccessPtr)
    (nextTemp : Nat)
    (value : Memory Value → Int → Value) : Prop where
  lanes :
    ∀ memory lane, 0 ≤ lane → lane < elementCount →
      runCalls machine scalars indices memory calls output.buffer
        (output.offset.eval indices + lane) = value memory lane
  kept :
    ∀ memory buffer cell, output.Outside indices elementCount buffer cell →
      (∀ id, nextTemp ≤ id → buffer ≠ .temp id) →
        runCalls machine scalars indices memory calls buffer cell = memory buffer cell

variable {machine scalars indices elementCount}

theorem runCalls_append (memory : Memory Value) (first second : List VectorCall) :
    runCalls machine scalars indices memory (first ++ second) =
      runCalls machine scalars indices (runCalls machine scalars indices memory first) second :=
  List.foldl_append

theorem keepsOlder_nil (nextTemp : Nat) : KeepsOlder machine scalars indices [] nextTemp := by
  intro memory buffer cell older
  rfl

variable {nextTemp : Nat} {calls : List VectorCall} {value : Memory Value → Int → Value}

theorem Computes.keepsOlder {id first : Nat}
    (computes : Computes machine scalars indices elementCount calls (tempPtr id) nextTemp value)
    (isNew : first ≤ id) (newer : first ≤ nextTemp) :
    KeepsOlder machine scalars indices calls first := by
  intro memory buffer cell older
  apply computes.kept
  · rintro ⟨isTemp, -⟩
    exact older id isNew isTemp
  · intro later above
    exact older later (Nat.le_trans newer above)

theorem KeepsOlder.append {first second : List VectorCall}
    (firstKeeps : KeepsOlder machine scalars indices first nextTemp)
    (secondKeeps : KeepsOlder machine scalars indices second nextTemp) :
    KeepsOlder machine scalars indices (first ++ second) nextTemp := by
  intro memory buffer cell older
  rw [runCalls_append]
  exact (secondKeeps _ buffer cell older).trans (firstKeeps memory buffer cell older)

theorem KeepsOlder.named (keeps : KeepsOlder machine scalars indices calls nextTemp)
    (memory : Memory Value) (name : String) :
    runCalls machine scalars indices memory calls (.named name) = memory (.named name) := by
  funext cell
  apply keeps
  intro id above isTemp
  cases isTemp

theorem computes_of_last {call : VectorCall} {output : AccessPtr}
    {laneValue : Memory Value → Int → Value}
    (keeps : KeepsOlder machine scalars indices calls nextTemp)
    (last : WritesLanes machine scalars indices elementCount call output laneValue)
    (value_eq :
      ∀ memory lane, 0 ≤ lane → lane < elementCount →
        laneValue (runCalls machine scalars indices memory calls) lane = value memory lane) :
    Computes machine scalars indices elementCount (calls ++ [call]) output nextTemp value := by
  have ran :
      ∀ memory, runCalls machine scalars indices memory (calls ++ [call]) =
        writeLanes (runCalls machine scalars indices memory calls) output.buffer
          (output.offset.eval indices) elementCount
          (laneValue (runCalls machine scalars indices memory calls)) := by
    intro memory
    rw [runCalls_append]
    exact last (runCalls machine scalars indices memory calls)
  constructor
  · intro memory lane nonneg below
    rw [ran, writeLanes_lane _ _ _ _ nonneg below]
    exact value_eq memory lane nonneg below
  · intro memory buffer cell outside older
    rw [ran, writeLanes, if_neg outside]
    exact keeps memory buffer cell older

end Decompositions

/-! ## The decomposition of an expression -/

section Decompose

variable {Value : Type} (machine : Machine Value) (scalars : Var → Value)
  (vectorDimVar : Var) (indices : Var → Int) (elementCount : Int)

/-- What the induction over an expression establishes: wherever it decomposes, the calls compute
its lane values. -/
def DecomposesRight (expr : Expr) : Prop :=
  expr.isLoad = false →
    ∀ output nextTemp calls afterTemp,
      decomposeExpression vectorDimVar elementCount expr output nextTemp = some (calls, afterTemp) →
        nextTemp ≤ afterTemp ∧
          Computes machine scalars indices elementCount calls output nextTemp
            fun memory lane =>
              expr.laneValue machine scalars vectorDimVar indices memory lane

variable {machine scalars vectorDimVar indices elementCount} {op : BinaryOp}
  {right expr left : Expr} {output : AccessPtr} {nextTemp afterTemp : Nat}
  {calls : List VectorCall}

theorem rightLane_of_isComplex (complex : isComplex vectorDimVar right)
    (memory : Memory Value) (laneValue : Value) :
    rightLane vectorDimVar indices op memory laneValue right = laneValue := by
  cases right with
  | load buffer index => simp [isComplex, isBinaryOp, isUnaryOp] at complex
  | _ => rfl

theorem not_isLoad_of_isComplex (complex : isComplex vectorDimVar expr) : expr.isLoad = false := by
  cases expr with
  | load buffer index => simp [isComplex, isBinaryOp, isUnaryOp] at complex
  | _ => rfl

theorem computes_unary {op : VectorUnaryOp} {input : AccessPtr}
    (unary : isUnaryOp vectorDimVar expr = some (op, input)) (nextTemp : Nat) :
    Computes machine scalars indices elementCount [.unary op output input elementCount] output
      nextTemp fun memory lane =>
        expr.laneValue machine scalars vectorDimVar indices memory lane := by
  have last :
      WritesLanes machine scalars indices elementCount (.unary op output input elementCount)
        output fun memory lane => op.apply machine (input.lane indices memory lane) := by
    intro memory
    rfl
  apply computes_of_last (keepsOlder_nil nextTemp) last
  intro memory lane _ _
  exact isUnaryOp_lane unary memory lane

/-- Two simple operands: the emitted calls compute the operation. -/
theorem handleSimpleCase_computes
    (handled :
      handleSimpleCase vectorDimVar elementCount op.opType left right output nextTemp =
        some (calls, afterTemp)) :
    nextTemp ≤ afterTemp ∧
      Computes machine scalars indices elementCount calls output nextTemp fun memory lane =>
        (Expr.binary op left right).laneValue machine scalars vectorDimVar indices memory
          lane := by
  cases left with
  | load buffer index =>
    simp only [handleSimpleCase, Option.map_eq_some_iff, Prod.mk.injEq] at handled
    obtain ⟨call, generated, rfl, rfl⟩ := handled
    refine ⟨Nat.le_refl _, ?_⟩
    apply computes_of_last (keepsOlder_nil _) (generateRightSimple_writesLanes generated)
    intro memory lane _ _
    rfl
  | _ => simp [handleSimpleCase] at handled

/-- A complex right operand is computed before the operation. -/
theorem handleLeftSimpleRightComplex_computes (complex : isComplex vectorDimVar right)
    (rightDecomposes : DecomposesRight machine scalars vectorDimVar indices elementCount right)
    (handled :
      handleLeftSimpleRightComplex vectorDimVar elementCount op.opType left output
          (tempPtr nextTemp)
          (decomposeExpression vectorDimVar elementCount right (tempPtr nextTemp) (nextTemp + 1)) =
        some (calls, afterTemp)) :
    nextTemp ≤ afterTemp ∧
      Computes machine scalars indices elementCount calls output nextTemp fun memory lane =>
        (Expr.binary op left right).laneValue machine scalars vectorDimVar indices memory
          lane := by
  cases left with
  | load buffer index =>
    simp only [handleLeftSimpleRightComplex, Option.map_eq_some_iff, Prod.exists,
      Prod.mk.injEq] at handled
    obtain ⟨rightCalls, afterRight, decomposed, rfl, rfl⟩ := handled
    obtain ⟨increased, computes⟩ :=
      rightDecomposes (not_isLoad_of_isComplex complex) _ _ _ _ decomposed
    have keeps : KeepsOlder machine scalars indices rightCalls nextTemp :=
      computes.keepsOlder (Nat.le_refl _) (Nat.le_succ _)
    refine ⟨Nat.le_of_succ_le increased, ?_⟩
    apply computes_of_last keeps (binary_writesLanes op output _ _)
    intro memory lane nonneg below
    have temporary := computes.lanes memory lane nonneg below
    simp only [AccessPtr.lane, Expr.laneValue,
      rightLane_of_isComplex complex, keeps.named memory buffer, temporary]
  | _ => simp [handleLeftSimpleRightComplex] at handled

/-- A complex left operand is computed before the operation. -/
theorem handleLeftComplexRightSimple_computes (complex : isComplex vectorDimVar left)
    (leftDecomposes : DecomposesRight machine scalars vectorDimVar indices elementCount left)
    (handled :
      handleLeftComplexRightSimple vectorDimVar elementCount op.opType right output
          (tempPtr nextTemp)
          (decomposeExpression vectorDimVar elementCount left (tempPtr nextTemp) (nextTemp + 1)) =
        some (calls, afterTemp)) :
    nextTemp ≤ afterTemp ∧
      Computes machine scalars indices elementCount calls output nextTemp fun memory lane =>
        (Expr.binary op left right).laneValue machine scalars vectorDimVar indices memory
          lane := by
  simp only [handleLeftComplexRightSimple, Option.bind_eq_some_iff, Option.map_eq_some_iff,
    Prod.exists, Prod.mk.injEq] at handled
  obtain ⟨leftCalls, afterLeft, decomposed, call, generated, rfl, rfl⟩ := handled
  obtain ⟨increased, computes⟩ :=
    leftDecomposes (not_isLoad_of_isComplex complex) _ _ _ _ decomposed
  have keeps : KeepsOlder machine scalars indices leftCalls nextTemp :=
    computes.keepsOlder (Nat.le_refl _) (Nat.le_succ _)
  refine ⟨Nat.le_of_succ_le increased, ?_⟩
  apply computes_of_last keeps (generateRightSimple_writesLanes generated)
  intro memory lane nonneg below
  have temporary := computes.lanes memory lane nonneg below
  have sameRight :
      right.laneValue machine scalars vectorDimVar indices
          (runCalls machine scalars indices memory leftCalls) lane =
        right.laneValue machine scalars vectorDimVar indices memory lane :=
    Expr.laneValue_congr machine scalars vectorDimVar indices (keeps.named memory) lane right
  simp only [AccessPtr.lane, temporary, sameRight, Expr.laneValue]
  cases right <;> simp only [rightLane, keeps.named memory]

/-- Two complex operands are computed one after the other. -/
theorem bothComplex_computes {afterLeft afterRight : Nat}
    {leftCalls rightCalls : List VectorCall} (leftComplex : isComplex vectorDimVar left)
    (rightComplex : isComplex vectorDimVar right)
    (leftDecomposes : DecomposesRight machine scalars vectorDimVar indices elementCount left)
    (rightDecomposes : DecomposesRight machine scalars vectorDimVar indices elementCount right)
    (decomposedLeft :
      decomposeExpression vectorDimVar elementCount left (tempPtr nextTemp) (nextTemp + 2) =
        some (leftCalls, afterLeft))
    (decomposedRight :
      decomposeExpression vectorDimVar elementCount right (tempPtr (nextTemp + 1)) afterLeft =
        some (rightCalls, afterRight)) :
    nextTemp ≤ afterRight ∧
      Computes machine scalars indices elementCount
        (leftCalls ++ rightCalls ++ [.binary op.opType output (tempPtr nextTemp)
          (tempPtr (nextTemp + 1)) elementCount]) output nextTemp fun memory lane =>
        (Expr.binary op left right).laneValue machine scalars vectorDimVar indices memory
          lane := by
  obtain ⟨increasedLeft, computesLeft⟩ :=
    leftDecomposes (not_isLoad_of_isComplex leftComplex) _ _ _ _ decomposedLeft
  obtain ⟨increasedRight, computesRight⟩ :=
    rightDecomposes (not_isLoad_of_isComplex rightComplex) _ _ _ _ decomposedRight
  have keepsLeft : KeepsOlder machine scalars indices leftCalls nextTemp :=
    computesLeft.keepsOlder (Nat.le_refl _) (by omega)
  have keepsRight : KeepsOlder machine scalars indices rightCalls nextTemp :=
    computesRight.keepsOlder (by omega) (by omega)
  refine ⟨by omega, ?_⟩
  apply computes_of_last (keepsLeft.append keepsRight) (binary_writesLanes op output _ _)
  intro memory lane nonneg below
  -- The right operand's calls leave the left operand's temporary, which is older than theirs.
  have leftKept :
      runCalls machine scalars indices (runCalls machine scalars indices memory leftCalls)
          rightCalls (.temp nextTemp) (0 + lane) =
        runCalls machine scalars indices memory leftCalls (.temp nextTemp) (0 + lane) := by
    apply computesRight.kept
    · rintro ⟨sameTemp, -⟩
      cases sameTemp
    · intro id above sameTemp
      cases sameTemp
      omega
  have leftLane := computesLeft.lanes memory lane nonneg below
  have rightLanes :=
    computesRight.lanes (runCalls machine scalars indices memory leftCalls) lane nonneg below
  have sameRight :
      right.laneValue machine scalars vectorDimVar indices
          (runCalls machine scalars indices memory leftCalls) lane =
        right.laneValue machine scalars vectorDimVar indices memory lane :=
    Expr.laneValue_congr machine scalars vectorDimVar indices (keepsLeft.named memory) lane right
  simp only [tempPtr, IndexExpr.eval] at leftLane rightLanes
  simp only [AccessPtr.lane, tempPtr, IndexExpr.eval, Expr.laneValue,
    rightLane_of_isComplex rightComplex, runCalls_append, leftKept, leftLane, rightLanes, sameRight]

/-- Every expression that decomposes is computed by its calls. -/
theorem decomposesRight (expr : Expr) :
    DecomposesRight machine scalars vectorDimVar indices elementCount expr := by
  induction expr with
  | imm value =>
    intro _ output nextTemp calls afterTemp decomposed
    simp [decomposeExpression] at decomposed
  | var name =>
    intro _ output nextTemp calls afterTemp decomposed
    simp [decomposeExpression] at decomposed
  | load buffer index =>
    intro notLoad
    cases notLoad
  | call op arg ih =>
    intro _ output nextTemp calls afterTemp decomposed
    simp only [decomposeExpression, Option.map_eq_some_iff, Prod.exists, Prod.mk.injEq]
      at decomposed
    obtain ⟨unaryOp, input, unary, rfl, rfl⟩ := decomposed
    exact ⟨Nat.le_refl _, computes_unary unary nextTemp⟩
  | binary op left right ihLeft ihRight =>
    intro _ output nextTemp calls afterTemp decomposed
    rw [decomposeExpression] at decomposed
    split at decomposed
    next unaryOp input unary =>
      simp only [Option.some.injEq, Prod.mk.injEq] at decomposed
      obtain ⟨rfl, rfl⟩ := decomposed
      exact ⟨Nat.le_refl _, computes_unary unary nextTemp⟩
    next notUnary =>
      split at decomposed
      next bothSimple => exact handleSimpleCase_computes decomposed
      next =>
        split at decomposed
        next simpleComplex =>
          simp only [Bool.and_eq_true] at simpleComplex
          exact handleLeftSimpleRightComplex_computes simpleComplex.2 ihRight decomposed
        next =>
          split at decomposed
          next complexSimple =>
            simp only [Bool.and_eq_true] at complexSimple
            exact handleLeftComplexRightSimple_computes complexSimple.1 ihLeft decomposed
          next =>
            split at decomposed
            next bothComplex =>
              simp only [Bool.and_eq_true] at bothComplex
              simp only [Option.bind_eq_some_iff, Option.map_eq_some_iff, Prod.exists,
                Prod.mk.injEq] at decomposed
              obtain ⟨leftCalls, afterLeft, decomposedLeft, rightCalls, afterRight,
                decomposedRight, rfl, rfl⟩ := decomposed
              exact bothComplex_computes bothComplex.1 bothComplex.2 ihLeft
                ihRight decomposedLeft decomposedRight
            next => cases decomposed

end Decompose

end TilelangAscend.ParallelVector
