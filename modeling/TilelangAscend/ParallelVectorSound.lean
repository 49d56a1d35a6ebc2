import TilelangAscend.LoopFission
import TilelangAscend.ParallelVectorDecompose
import Mathlib.Tactic.Linarith

namespace TilelangAscend.ParallelVector

/-!
# When lowering a parallel loop preserves its meaning

A loop-invariant load is recognised only as the right operand of an addition, a subtraction, a
multiplication or a division; anywhere else it is read lane by lane.  A store of a bare load is
copied to the beginning of its buffer.  This module shows that a loop without these two shapes is
lowered soundly, and that a single store with one of them is not.
-/

/-! ## The condition -/

/-- The pass can decompose the expression. -/
def Expr.decomposes : Expr → Bool
  | .imm _ => false
  | .var _ => false
  | .load _ _ => true
  | .call _ arg => arg.isLoad
  | .binary op a b =>
    (op == .max && a.isZero && b.isLoad) || (a.decomposes && (b.isScalar || b.decomposes))

/-- A right operand is read right: a loop-invariant load stands under an operation with a scalar
form. -/
def rightPlaced (loopVar : Var) (op : BinaryOp) (placed : Bool) : Expr → Bool
  | .load _ index => !isScalarAccess loopVar index || op.hasScalarForm
  | _ => placed

/-- Loop-invariant loads stand only to the right of an operation with a scalar form. -/
def Expr.loadsPlaced (loopVar : Var) : Expr → Bool
  | .imm _ => true
  | .var _ => true
  | .load _ index => !isScalarAccess loopVar index
  | .call _ arg => arg.loadsPlaced loopVar
  | .binary op a b => a.loadsPlaced loopVar && rightPlaced loopVar op (b.loadsPlaced loopVar) b

/-- The store has neither of the two shapes that are lowered wrongly. -/
def StorePlaced (loop : ParallelLoop) (indices : Var → Int) (store : Store) : Prop :=
  (loop.extent = 1 ∨ store.value.loadsPlaced loop.loopVar) ∧
    (store.value.isLoad → (calculateBufferOffset loop.loopVar store.index).eval indices = 0)

/-- The loop is left serial, or each of its stores is lowered soundly. -/
def VectorSafe (loop : ParallelLoop) (indices : Var → Int) : Prop :=
  loop.extent ≤ 0 ∨ (∃ store ∈ loop.body, store.value.decomposes = false) ∨
    ∀ store ∈ loop.body, StorePlaced loop indices store

/-! ## Which expressions decompose -/

section Decomposes

variable {vectorDimVar : Var} {elementCount : Int}

theorem isSimple_eq (expr : Expr) :
    expr.isSimple vectorDimVar = (expr.isLoad || expr.isScalar) := by
  cases expr <;> simp [Expr.isSimple, Expr.isLoad, Expr.isScalarLike, Expr.isScalar]

variable {expr right : Expr}

theorem isComplex_of_decomposes (decomposes : expr.decomposes)
    (notLoad : expr.isLoad = false) : isComplex vectorDimVar expr := by
  cases expr with
  | imm value => cases decomposes
  | var name => cases decomposes
  | load buffer index => cases notLoad
  | binary op a b => simp [isComplex, isBinaryOp]
  | call op arg =>
    cases arg with
    | load buffer index => simp [isComplex, isBinaryOp, isUnaryOp]
    | _ => cases decomposes

theorem decomposes_of_isSimple (simple : expr.isSimple vectorDimVar) :
    expr.decomposes = expr.isLoad := by
  rw [isSimple_eq] at simple
  cases expr with
  | imm value => rfl
  | var name => rfl
  | load buffer index => rfl
  | _ => cases simple

theorem not_isScalar_of_isComplex (complex : isComplex vectorDimVar expr) :
    expr.isScalar = false := by
  cases expr with
  | imm value => cases complex
  | var name => cases complex
  | _ => rfl

theorem not_decomposes_of_neither (notSimple : ¬ expr.isSimple vectorDimVar)
    (notComplex : ¬ isComplex vectorDimVar expr) : (expr.isScalar || expr.decomposes) = false := by
  rw [isSimple_eq, Bool.or_eq_true, not_or] at notSimple
  rw [Bool.or_eq_false_iff]
  constructor
  · exact Bool.eq_false_iff.mpr notSimple.2
  · apply Bool.eq_false_iff.mpr
    intro decomposes
    exact notComplex (isComplex_of_decomposes decomposes (Bool.eq_false_iff.mpr notSimple.1))

theorem isUnaryOp_binary_isSome (op : BinaryOp) (a b : Expr) :
    (isUnaryOp vectorDimVar (.binary op a b)).isSome =
      (op == .max && (a.isZero && b.isLoad || b.isZero && a.isLoad)) := by
  have relu :
      ∀ zero other : Expr,
        (reluInput vectorDimVar zero other).isSome = (zero.isZero && other.isLoad) := by
    intro zero other
    cases other with
    | load buffer index => cases isZero : zero.isZero <;> simp [reluInput, isZero, Expr.isLoad]
    | _ => simp [reluInput, Expr.isLoad]
  cases op with
  | max =>
    simp only [isUnaryOp, beq_self_eq_true, Bool.true_and, ← relu]
    cases reluInput vectorDimVar a b <;> simp
  | _ => rfl

theorem generateRightSimple_isSome (op : VectorOp) (output left : AccessPtr)
    {right : Expr} (simple : right.isSimple vectorDimVar) :
    (generateRightSimple vectorDimVar elementCount op output left right).isSome := by
  rw [isSimple_eq] at simple
  cases right with
  | load buffer index =>
    simp only [generateRightSimple]
    split <;> rfl
  | imm value => rfl
  | var name => rfl
  | _ => cases simple

theorem decomposes_of_isLoad (isLoad : expr.isLoad) : expr.decomposes := by
  cases expr with
  | load buffer index => rfl
  | _ => cases isLoad

theorem isScalar_of_isZero (isZero : expr.isZero) : expr.isScalar := by
  cases expr with
  | imm value => rfl
  | _ => cases isZero

theorem right_of_isSimple (simple : expr.isSimple vectorDimVar) :
    (expr.isScalar || expr.decomposes) = true := by
  rw [decomposes_of_isSimple simple, Bool.or_comm, ← @isSimple_eq vectorDimVar]
  exact simple

theorem handleSimpleCase_isSome (op : VectorOp) (left : Expr) (output : AccessPtr)
    (nextTemp : Nat) (simple : right.isSimple vectorDimVar) :
    (handleSimpleCase vectorDimVar elementCount op left right output nextTemp).isSome =
      left.isLoad := by
  cases left with
  | load buffer index =>
    rw [handleSimpleCase, Option.isSome_map, generateRightSimple_isSome _ _ _ simple]
    rfl
  | _ => rfl

/-- `HandleLeftSimpleRightComplex` fails only without a load on the left or with the right
operand. -/
theorem handleLeftSimpleRightComplex_isSome (op : VectorOp) (left : Expr)
    (output tmp : AccessPtr) (right : Option (List VectorCall × Nat)) :
    (handleLeftSimpleRightComplex vectorDimVar elementCount op left output tmp right).isSome =
      (left.isLoad && right.isSome) := by
  cases left with
  | load buffer index =>
    rw [handleLeftSimpleRightComplex, Option.isSome_map]
    rfl
  | _ => rfl

theorem handleLeftComplexRightSimple_isSome (op : VectorOp) (output tmp : AccessPtr)
    (left : Option (List VectorCall × Nat)) (simple : right.isSimple vectorDimVar) :
    (handleLeftComplexRightSimple vectorDimVar elementCount op right output tmp left).isSome =
      left.isSome := by
  cases left with
  | none => rfl
  | some decomposed =>
    have generated := @generateRightSimple_isSome vectorDimVar elementCount op output tmp _ simple
    simp [handleLeftComplexRightSimple, Option.isSome_map, generated]

theorem decomposeExpression_isSome (expr : Expr) (output : AccessPtr) (nextTemp : Nat) :
    (decomposeExpression vectorDimVar elementCount expr output nextTemp).isSome =
      expr.decomposes := by
  induction expr generalizing output nextTemp with
  | imm value => rfl
  | var name => rfl
  | load buffer index => rfl
  | call op arg ih =>
    cases arg <;> rfl
  | binary op a b ihA ihB =>
    have unaryForm := @isUnaryOp_binary_isSome vectorDimVar op a b
    rw [decomposeExpression]
    split
    next unaryOp input unary =>
      rw [unary, Option.isSome_some] at unaryForm
      simp only [Bool.true_eq, Bool.and_eq_true, Bool.or_eq_true] at unaryForm
      obtain ⟨isMax, ⟨zeroLeft, loadRight⟩ | ⟨zeroRight, loadLeft⟩⟩ := unaryForm
      · simp [Expr.decomposes, isMax, zeroLeft, loadRight]
      · simp [Expr.decomposes, decomposes_of_isLoad loadLeft, isScalar_of_isZero zeroRight]
    next notUnary =>
      have notRelu : (op == .max && a.isZero && b.isLoad) = false := by
        rw [notUnary, Option.isSome_none] at unaryForm
        cases isMax : op == .max <;> simp_all
      rw [Expr.decomposes, notRelu, Bool.false_or]
      split
      next bothSimple =>
        rw [Bool.and_eq_true] at bothSimple
        rw [handleSimpleCase_isSome _ _ _ _ bothSimple.2, decomposes_of_isSimple bothSimple.1,
          right_of_isSimple bothSimple.2, Bool.and_true]
      next notBothSimple =>
        split
        next simpleComplex =>
          rw [Bool.and_eq_true] at simpleComplex
          rw [handleLeftSimpleRightComplex_isSome, ihB,
            decomposes_of_isSimple simpleComplex.1,
            not_isScalar_of_isComplex simpleComplex.2, Bool.false_or]
        next notSimpleComplex =>
          split
          next complexSimple =>
            rw [Bool.and_eq_true] at complexSimple
            rw [handleLeftComplexRightSimple_isSome _ _ _ _ complexSimple.2, ihA,
              right_of_isSimple complexSimple.2, Bool.and_true]
          next notComplexSimple =>
            split
            next bothComplex =>
              rw [Bool.and_eq_true] at bothComplex
              rw [not_isScalar_of_isComplex bothComplex.2, Bool.false_or,
                ← ihA (tempPtr nextTemp) (nextTemp + 2)]
              cases decomposeExpression vectorDimVar elementCount a (tempPtr nextTemp)
                  (nextTemp + 2) with
              | none => rfl
              | some left =>
                rw [← ihB (tempPtr (nextTemp + 1)) left.2]
                simp
            next notBothComplex =>
              simp only [Bool.and_eq_true] at notBothSimple notSimpleComplex
              simp only [Bool.and_eq_true] at notComplexSimple notBothComplex
              by_cases leftRead : a.isSimple vectorDimVar ∨ isComplex vectorDimVar a
              · -- The left operand is readable, so the right one is neither simple nor complex.
                have rightNotSimple : ¬ b.isSimple vectorDimVar := by
                  intro rightSimple
                  rcases leftRead with simple | complex
                  · exact notBothSimple ⟨simple, rightSimple⟩
                  · exact notComplexSimple ⟨complex, rightSimple⟩
                have rightNotComplex : ¬ isComplex vectorDimVar b := by
                  intro rightComplex
                  rcases leftRead with simple | complex
                  · exact notSimpleComplex ⟨simple, rightComplex⟩
                  · exact notBothComplex ⟨complex, rightComplex⟩
                rw [not_decomposes_of_neither rightNotSimple rightNotComplex, Bool.and_false]
                rfl
              · rw [not_or] at leftRead
                have leftFails := not_decomposes_of_neither leftRead.1 leftRead.2
                rw [Bool.or_eq_false_iff] at leftFails
                rw [leftFails.2, Bool.false_and]
                rfl

end Decomposes

/-! ## What the code computes is the value -/

section Values

variable {Value : Type} (machine : Machine Value) (scalars : Var → Value)
  {loopVar : Var} {indices : Var → Int} {lane : Int} {index : IndexExpr}

/-- Reading lane by lane from the offset follows an index of unit stride, and any index in the
first lane. -/
theorem lane_index (follows : UnitStride loopVar indices index ∨ lane = 0) :
    (calculateBufferOffset loopVar index).eval indices + lane =
      index.eval (inIteration loopVar indices lane) := by
  rw [calculateBufferOffset, IndexExpr.eval_substituteLoopVars]
  rcases follows with unitStride | first
  · exact (unitStride lane).symm
  · subst first
    exact Int.add_zero _

theorem rightLane_load {op : BinaryOp} {buffer : String} (memory : Memory Value)
    (access : UnitStride loopVar indices index ∨ isScalarAccess loopVar index)
    (placed : lane = 0 ∨ rightPlaced loopVar op true (.load buffer index)) :
    rightLane loopVar indices op memory
        ((Expr.load buffer index).laneValue machine scalars loopVar indices memory lane)
        (.load buffer index) =
      (Expr.load buffer index).evalIn machine scalars loopVar indices memory lane := by
  by_cases readsOne : isScalarAccess loopVar index && op.hasScalarForm
  · rw [Bool.and_eq_true] at readsOne
    have constant := IndexExpr.eval_of_isScalarAccess readsOne.1 indices lane
    simp [rightLane, readsOne.1, readsOne.2, Expr.evalIn, Expr.eval, calculateBufferOffset,
      IndexExpr.eval_substituteLoopVars, constant]
  · have follows : UnitStride loopVar indices index ∨ lane = 0 := by
      rcases access with unitStride | scalar
      · exact Or.inl unitStride
      · right
        apply placed.resolve_right
        simpa [rightPlaced, scalar] using readsOne
    simp only [rightLane, readsOne, Expr.laneValue, Expr.evalIn, Expr.eval, lane_index follows,
      Bool.false_eq_true, ↓reduceIte]

theorem laneValue_eq_evalIn (memory : Memory Value) (expr : Expr)
    (loads :
      ∀ access ∈ expr.loads, UnitStride loopVar indices access.2 ∨ isScalarAccess loopVar access.2)
    (vars : loopVar ∉ expr.vars)
    (placed : lane = 0 ∨ expr.loadsPlaced loopVar) :
    expr.laneValue machine scalars loopVar indices memory lane =
      expr.evalIn machine scalars loopVar indices memory lane := by
  induction expr with
  | imm value => rfl
  | var name =>
    have other : name ≠ loopVar := by
      intro same
      exact vars (by simp [Expr.vars, same])
    simp [Expr.laneValue, Expr.evalIn, Expr.eval, other]
  | load buffer index =>
    have follows : UnitStride loopVar indices index ∨ lane = 0 := by
      rcases loads (buffer, index) (by simp [Expr.loads]) with unitStride | scalar
      · exact Or.inl unitStride
      · simp only [Expr.loadsPlaced, scalar, Bool.not_true, Bool.false_eq_true, or_false]
          at placed
        exact Or.inr placed
    simp only [Expr.laneValue, Expr.evalIn, Expr.eval, lane_index follows]
  | call op arg ih =>
    have argument := ih loads vars placed
    rw [Expr.evalIn] at argument
    simp only [Expr.laneValue, Expr.evalIn, Expr.eval, argument]
  | binary op a b ihA ihB =>
    simp only [Expr.loads, List.mem_append] at loads
    simp only [Expr.vars, List.mem_append, not_or] at vars
    simp only [Expr.loadsPlaced, Bool.and_eq_true] at placed
    have left :=
      ihA (fun access member => loads access (Or.inl member)) vars.1
        (placed.imp_right fun both => both.1)
    have right :
        rightLane loopVar indices op memory
            (b.laneValue machine scalars loopVar indices memory lane) b =
          b.evalIn machine scalars loopVar indices memory lane := by
      cases b with
      | load buffer index =>
        apply rightLane_load
        · exact loads (buffer, index) (Or.inr (by simp [Expr.loads]))
        · exact placed.imp_right fun both => both.2
      | _ =>
        exact ihB (fun access member => loads access (Or.inr member)) vars.2
          (placed.imp_right fun both => both.2)
    rw [Expr.evalIn] at left right
    simp only [Expr.laneValue, left, right, Expr.evalIn, Expr.eval]

end Values

/-! ## The serial loop over cells -/

section Cells

variable {Value : Type}

/-- The cells of the source's buffers. -/
def sourceCells (memory : Memory Value) : String × Int → Value :=
  fun cell => memory (.named cell.1) cell.2

/-- A memory with given cells, where no temporary holds anything of its own. -/
def withoutTemps (cells : String × Int → Value) : Memory Value
  | .named name, cell => cells (name, cell)
  | .temp _, cell => cells ("", cell)

variable (machine : Machine Value) (scalars : Var → Value) (loopVar : Var) (indices : Var → Int)

theorem evalIn_congr {memory other : Memory Value} {iteration : Int} (expr : Expr)
    (agree :
      ∀ access ∈ expr.loads,
        memory (.named access.1) (access.2.eval (inIteration loopVar indices iteration)) =
          other (.named access.1) (access.2.eval (inIteration loopVar indices iteration))) :
    expr.evalIn machine scalars loopVar indices memory iteration =
      expr.evalIn machine scalars loopVar indices other iteration := by
  simp only [Expr.evalIn]
  induction expr with
  | imm value => rfl
  | var name => rfl
  | load buffer index =>
    simp only [Expr.eval]
    exact agree (buffer, index) (by simp [Expr.loads])
  | call op arg ih =>
    simp only [Expr.eval]
    rw [ih agree]
  | binary op a b ihA ihB =>
    simp only [Expr.loads, List.mem_append] at agree
    simp only [Expr.eval]
    rw [ihA fun access member => agree access (Or.inl member),
      ihB fun access member => agree access (Or.inr member)]

/-- A store as an assignment to a cell. -/
def Store.assign (store : Store) : LoopFission.Assign (String × Int) Value where
  target iteration := (store.buffer, store.index.eval (inIteration loopVar indices iteration))
  reads iteration cell :=
    ∃ index, (cell.1, index) ∈ store.value.loads ∧
      index.eval (inIteration loopVar indices iteration) = cell.2
  value iteration cells :=
    store.value.evalIn machine scalars loopVar indices (withoutTemps cells) iteration
  value_local := by
    intro iteration cells other agree
    apply evalIn_congr
    intro access member
    exact agree (access.1, access.2.eval (inIteration loopVar indices iteration))
      ⟨access.2, member, rfl⟩

theorem assign_value (store : Store) (iteration : Nat) (memory : Memory Value) :
    (store.assign machine scalars loopVar indices).value iteration (sourceCells memory) =
      store.value.evalIn machine scalars loopVar indices memory iteration := by
  apply evalIn_congr
  intro access member
  rfl

theorem sourceCells_runStore (iteration : Nat) (memory : Memory Value) (store : Store) :
    sourceCells (runStore machine scalars loopVar indices iteration memory store) =
      (store.assign machine scalars loopVar indices).perform iteration (sourceCells memory) := by
  funext ⟨name, cell⟩
  rw [LoopFission.Assign.perform, assign_value]
  by_cases sameBuffer : name = store.buffer
  · subst sameBuffer
    by_cases sameCell : cell = store.index.eval (inIteration loopVar indices iteration)
    · subst sameCell
      simp [sourceCells, runStore, Store.assign]
    · simp [sourceCells, runStore, Store.assign, sameCell]
  · simp [sourceCells, runStore, Store.assign, sameBuffer]

theorem sourceCells_iteration (iteration : Nat) (body : List Store) (memory : Memory Value) :
    sourceCells (body.foldl (runStore machine scalars loopVar indices iteration) memory) =
      LoopFission.runIteration (body.map (Store.assign machine scalars loopVar indices))
        iteration (sourceCells memory) := by
  induction body generalizing memory with
  | nil => rfl
  | cons store rest ih =>
    rw [List.foldl_cons, ih, sourceCells_runStore]
    rfl

theorem sourceCells_runIterations (body : List Store) (memory : Memory Value) (count : Nat) :
    sourceCells (runIterations machine scalars loopVar body indices memory count) =
      LoopFission.runSerial (body.map (Store.assign machine scalars loopVar indices))
        (sourceCells memory) count := by
  induction count with
  | zero => rfl
  | succ earlier ih =>
    rw [runIterations, sourceCells_iteration, ih]
    rfl

end Cells

variable {loop : ParallelLoop} {indices : Var → Int} {loopVar : Var} {store : Store}
  {nextTemp : Nat} {calls : List VectorCall}

theorem InScope.assigns_independent {Value : Type} (inScope : InScope loop indices)
    (machine : Machine Value) (scalars : Var → Value) :
    LoopFission.Independent
      (loop.body.map (Store.assign machine scalars loop.loopVar indices))
      loop.extent.toNat := by
  rintro writer writerBelow other otherBelow distinct cell ⟨writing, writingIn, writes⟩
    ⟨touching, touchingIn, touches⟩
  obtain ⟨store, member, rfl⟩ := List.mem_map.mp writingIn
  obtain ⟨otherStore, otherMember, rfl⟩ := List.mem_map.mp touchingIn
  subst writes
  have apart :=
    inScope.independent writer other (by omega) (by omega) (by omega) (by omega) (by omega)
      store.buffer _ ⟨store, member, rfl, rfl⟩
  rcases touches with alsoWrites | reads
  · simp only [Store.assign, Prod.mk.injEq] at alsoWrites
    exact apart.1 ⟨otherStore, otherMember, alsoWrites.1, alsoWrites.2⟩
  · obtain ⟨index, loaded, isCell⟩ := reads
    exact apart.2 ⟨otherStore, otherMember, index, loaded, isCell⟩

/-! ## The lowered loop -/

/-- Where the calls of a store write: a copied load goes to the beginning of the buffer. -/
def storeOutput (loopVar : Var) (store : Store) : AccessPtr where
  buffer := .named store.buffer
  offset := if store.value.isLoad then .imm 0 else calculateBufferOffset loopVar store.index

theorem storeOutput_offset
    (zeroOffset :
      store.value.isLoad → (calculateBufferOffset loopVar store.index).eval indices = 0) :
    (storeOutput loopVar store).offset.eval indices =
      store.index.eval (inIteration loopVar indices 0) := by
  rw [← IndexExpr.eval_substituteLoopVars]
  by_cases isLoad : store.value.isLoad
  · simp only [storeOutput, isLoad, ↓reduceIte, IndexExpr.eval]
    exact (zeroOffset isLoad).symm
  · simp [storeOutput, isLoad, calculateBufferOffset]

section Lowered

variable {Value : Type} {machine : Machine Value} {scalars : Var → Value} {indices : Var → Int}

theorem vectorizeStoreAsRowBody_computes {loopVar : Var} {elementCount : Int}
    {store : Store} {nextTemp afterTemp : Nat} {calls : List VectorCall}
    (vectorized :
      vectorizeStoreAsRowBody loopVar elementCount store nextTemp = some (calls, afterTemp)) :
    Computes machine scalars indices elementCount calls (storeOutput loopVar store) nextTemp
      fun memory lane =>
        store.value.laneValue machine scalars loopVar indices memory lane := by
  rw [vectorizeStoreAsRowBody] at vectorized
  by_cases isLoad : store.value.isLoad
  · obtain ⟨buffer, index, value⟩ := store
    cases value with
    | load source sourceIndex =>
      simp only [decomposeExpression, generateAscendCopy, Option.some.injEq, Prod.mk.injEq]
        at vectorized
      obtain ⟨rfl, rfl⟩ := vectorized
      have last :
          WritesLanes machine scalars indices elementCount
            (.ascendCopy (.named source) (sourceIndex.substituteLoopVars loopVar)
              (.named buffer) (.imm 0) elementCount)
            (storeOutput loopVar ⟨buffer, index, .load source sourceIndex⟩)
            fun memory lane =>
              (Expr.load source sourceIndex).laneValue machine scalars loopVar indices memory
                lane := by
        intro memory
        rfl
      apply computes_of_last (keepsOlder_nil _) last
      intro memory lane _ _
      rfl
    | _ => cases isLoad
  · have notLoad : store.value.isLoad = false := by simpa using isLoad
    have right :=
      @decomposesRight Value machine scalars loopVar indices elementCount store.value notLoad
        _ _ _ _ vectorized
    have sameOutput :
        storeOutput loopVar store =
          { buffer := .named store.buffer,
            offset := calculateBufferOffset loopVar store.index } := by
      simp [storeOutput, notLoad]
    rw [sameOutput]
    exact right.2

theorem vectorizeStoreAsRowBody_performed {loop : ParallelLoop} {store : Store}
    {nextTemp afterTemp : Nat} {calls : List VectorCall} (inScope : InScope loop indices)
    (member : store ∈ loop.body) (placed : StorePlaced loop indices store)
    (vectorized :
      vectorizeStoreAsRowBody loop.loopVar loop.extent store nextTemp = some (calls, afterTemp))
    (memory : Memory Value) :
    LoopFission.Performed (store.assign machine scalars loop.loopVar indices) loop.extent.toNat
      (sourceCells memory) (sourceCells (runCalls machine scalars indices memory calls)) := by
  have computes :=
    @vectorizeStoreAsRowBody_computes Value machine scalars indices _ _ _ _ _ _ vectorized
  have unitStride := inScope.stores_unitStride store member
  have offset := storeOutput_offset placed.2
  constructor
  · intro iteration below
    have lane := computes.lanes memory iteration (Int.natCast_nonneg iteration) (by omega)
    have firstOrPlaced : (iteration : Int) = 0 ∨ store.value.loadsPlaced loop.loopVar := by
      rcases placed.1 with one | loadsPlaced
      · left
        omega
      · exact Or.inr loadsPlaced
    have value :=
      laneValue_eq_evalIn machine scalars memory store.value
        (inScope.loads_unitStride_or_scalar store member) (inScope.vars_invariant store member)
        firstOrPlaced
    rw [assign_value, ← value, ← lane, offset, ← unitStride iteration]
    rfl
  · rintro ⟨name, cell⟩ unwritten
    apply computes.kept
    · rintro ⟨sameBuffer, fromOffset, belowEnd⟩
      rw [offset] at fromOffset belowEnd
      cases sameBuffer
      -- The cell would be the target of the iteration that is its distance from the offset.
      have lane := unitStride ((cell - store.index.eval (inIteration loop.loopVar indices 0)).toNat)
      apply unwritten (cell - store.index.eval (inIteration loop.loopVar indices 0)).toNat
      · omega
      · simp only [Store.assign, Prod.mk.injEq, true_and, lane]
        omega
    · intro id _ isTemp
      cases isTemp

theorem vectorizeStores_performed {loop : ParallelLoop} (inScope : InScope loop indices)
    (placed : ∀ store ∈ loop.body, StorePlaced loop indices store) (stores : List Store)
    (inBody : ∀ store ∈ stores, store ∈ loop.body) {nextTemp : Nat} {calls : List VectorCall}
    (vectorized : vectorizeStores loop.loopVar loop.extent stores nextTemp = some calls)
    (memory : Memory Value) :
    LoopFission.PerformedInTurn loop.extent.toNat
      (stores.map (Store.assign machine scalars loop.loopVar indices)) (sourceCells memory)
      (sourceCells (runCalls machine scalars indices memory calls)) := by
  induction stores generalizing nextTemp calls memory with
  | nil =>
    simp only [vectorizeStores, Option.some.injEq] at vectorized
    subst vectorized
    rfl
  | cons store rest ih =>
    simp only [vectorizeStores, Option.ite_none_right_eq_some, Option.bind_eq_some_iff,
      Option.map_eq_some_iff, Prod.exists] at vectorized
    obtain ⟨-, storeCalls, afterStore, first, laterCalls, later, rfl⟩ := vectorized
    have storeIn := inBody store List.mem_cons_self
    refine ⟨sourceCells (runCalls machine scalars indices memory storeCalls), ?_, ?_⟩
    · exact vectorizeStoreAsRowBody_performed inScope storeIn (placed store storeIn) first memory
    · rw [runCalls_append]
      apply ih _ later
      intro laterStore member
      exact inBody laterStore (List.mem_cons_of_mem _ member)

end Lowered

theorem vectorizeStores_decomposes {elementCount : Int} {stores : List Store}
    (vectorized : vectorizeStores loopVar elementCount stores nextTemp = some calls)
    (member : store ∈ stores) : 0 < elementCount ∧ store.value.decomposes := by
  induction stores generalizing nextTemp calls with
  | nil => cases member
  | cons first rest ih =>
    simp only [vectorizeStores, Option.ite_none_right_eq_some, Option.bind_eq_some_iff,
      Option.map_eq_some_iff, Prod.exists] at vectorized
    obtain ⟨planned, firstCalls, afterFirst, decomposed, later, vectorizedLater, -⟩ := vectorized
    rcases List.mem_cons.mp member with isFirst | inRest
    · subst isFirst
      rw [detectVectorPlan, Bool.and_eq_true, decide_eq_true_eq] at planned
      rw [vectorizeStoreAsRowBody] at decomposed
      rw [← decomposeExpression_isSome, decomposed]
      exact ⟨planned.2, rfl⟩
    · exact ih vectorizedLater inRest

theorem vectorizeStores_of_visitFor (lowered : visitFor loop nextTemp = .vector calls) :
    ∃ store rest, loop.body = store :: rest ∧
      vectorizeStores loop.loopVar loop.extent loop.body nextTemp = some calls := by
  rw [visitFor] at lowered
  cases isBody : loop.body with
  | nil =>
    rw [isBody] at lowered
    cases lowered
  | cons store rest =>
    rw [isBody] at lowered
    simp only [tryVectorizeBufferStoreSeq] at lowered
    split at lowered
    next vectorCalls vectorized =>
      cases lowered
      exact ⟨store, rest, rfl, vectorized⟩
    next => cases lowered

theorem preservesMeaning_of_vectorSafe (inScope : InScope loop indices)
    (safe : VectorSafe loop indices) (nextTemp : Nat) :
    PreservesMeaning loop nextTemp indices := by
  intro Value machine scalars memory name
  cases lowered : visitFor loop nextTemp with
  | serial fallback =>
    have same : fallback = loop := by
      rw [visitFor] at lowered
      split at lowered <;> cases lowered
      rfl
    rw [same]
    rfl
  | vector calls =>
    obtain ⟨first, rest, isBody, vectorized⟩ := vectorizeStores_of_visitFor lowered
    have firstIn : first ∈ loop.body := by simp [isBody]
    have placed : ∀ store ∈ loop.body, StorePlaced loop indices store := by
      rcases safe with empty | ⟨store, member, fails⟩ | placed
      · have nonempty := (vectorizeStores_decomposes vectorized firstIn).1
        omega
      · have decomposes := (vectorizeStores_decomposes vectorized member).2
        rw [fails] at decomposes
        cases decomposes
      · exact placed
    have performed :=
      @vectorizeStores_performed Value machine scalars indices loop inScope placed loop.body
        (fun _ member => member) _ _ vectorized memory
    have fissioned :=
      LoopFission.performedInTurn_eq_runSerial (inScope.assigns_independent machine scalars)
        performed
    have serial :=
      sourceCells_runIterations machine scalars loop.loopVar indices loop.body memory
        loop.extent.toNat
    funext cell
    exact congrFun (fissioned.trans serial.symm) (name, cell)

end TilelangAscend.ParallelVector
