import TilelangAscend.ParallelNestRuns
import TilelangAscend.ParallelVectorExact

namespace TilelangAscend.ParallelNest

/-!
# What a single store reads

This module follows a nest with one store that is not a copy: what the serial nest leaves, what is
emitted for each plan, and what a block reads in its last lane when every cell holds its own
index.  A block that reads a value wrongly then comes to too small a sum.
-/

open ParallelVector (Var IndexExpr Imm BinaryOp UnaryOp Buffer AccessPtr VectorCall Machine Memory
  calculateBufferOffset decomposeExpression inIteration writeLanes isScalarAccess sourceCells
  withoutTemps sumMachine indexMemory shortfall)

/-! ## A single store -/

section SingleStore

variable {shapes : Shapes} {nest : LoopNest} {indices : Var → Int} {store : Store}
  {Value : Type} {machine : Machine Value} {misfit : Int → Value} {scalars : Var → Value}

theorem runNest_written (inScope : InScope shapes nest indices)
    (single : nest.body = [store]) (memory : Memory Value) {outer inner : Nat}
    (outerBelow : outer < nest.outerExtent) (innerBelow : inner < nest.innerExtent) :
    runNest machine scalars shapes nest indices memory (.named store.buffer)
        (store.target.cell shapes nest indices outer inner) =
      store.value.eval machine shapes (nest.scalarsAt machine scalars outer inner)
        (nest.indicesAt indices outer inner) memory := by
  have independent := @InScope.block_independent Value machine shapes nest indices scalars inScope
  have serial := sourceCells_runRows machine shapes nest indices scalars memory nest.outerExtent
  rw [single] at independent serial
  have position : blockPosition nest (outer * nest.innerExtent + inner) = (outer, inner) := by
    have positive := Nat.lt_of_le_of_lt (Nat.zero_le _) innerBelow
    rw [blockPosition, Nat.add_comm, Nat.add_mul_div_right _ _ positive,
      Nat.div_eq_of_lt innerBelow, Nat.zero_add, Nat.add_mul_mod_self_right,
      Nat.mod_eq_of_lt innerBelow]
  have below : outer * nest.innerExtent + inner < nest.outerExtent * nest.innerExtent := by
    calc outer * nest.innerExtent + inner
        < outer * nest.innerExtent + nest.innerExtent := Nat.add_lt_add_left innerBelow _
      _ = (outer + 1) * nest.innerExtent := (Nat.succ_mul _ _).symm
      _ ≤ nest.outerExtent * nest.innerExtent := Nat.mul_le_mul_right _ outerBelow
  have writes :
      LoopFission.Writes
        (assignsAt machine shapes nest indices scalars (blockPosition nest) [store])
        (outer * nest.innerExtent + inner)
        (store.buffer, store.target.cell shapes nest indices outer inner) := by
    refine ⟨_, List.mem_singleton_self _, ?_⟩
    simp only [Store.assignAt, position]
  have inTurn :=
    @LoopFission.runSerial_written _ _ _ _ (sourceCells memory) _ _ _ _ independent
      (Nat.le_refl _) below writes
  have performed := sourceCells_runStore machine shapes nest indices scalars position memory store
  calc runNest machine scalars shapes nest indices memory (.named store.buffer)
          (store.target.cell shapes nest indices outer inner)
      = LoopFission.runSerial
          (assignsAt machine shapes nest indices scalars (blockPosition nest) [store])
          (sourceCells memory) (nest.outerExtent * nest.innerExtent)
          (store.buffer, store.target.cell shapes nest indices outer inner) :=
        congrFun serial (store.buffer, store.target.cell shapes nest indices outer inner)
    _ = runStore machine scalars shapes nest indices outer inner memory store
          (.named store.buffer) (store.target.cell shapes nest indices outer inner) :=
        inTurn.trans (congrFun performed _).symm
    _ = _ := by
        rw [runStore, Function.update_self]
        exact Function.update_self _ _ _

variable {elementCount : Int}

theorem detectVectorPlan_of_inScope (inScope : InScope shapes nest indices)
    (member : store ∈ nest.body) (outerDimVar : Option Var)
    (divides : elementCount.tmod (nest.innerVecLen shapes store) = 0) :
    detectVectorPlan shapes nest.innerVar outerDimVar nest.innerExtent elementCount store =
      some {
        innerVecLen := nest.innerVecLen shapes store
        outerExtent := elementCount.tdiv (nest.innerVecLen shapes store)
        outerIndexVar := asVar store.row
        is2dVectorizable := outerDimVar.any fun outer => store.row.containsVar outer
      } := by
  have column : store.column.containsVar nest.innerVar := by
    have follows := (inScope.stores_form store member).2
    have unitStride :
        ParallelVector.UnitStride nest.innerVar (inIteration nest.outerVar indices 0)
          store.column := by
      intro inner
      have moved := follows 0 inner
      exact moved
    have notScalar := unitStride.not_isScalarAccess
    simpa [isScalarAccess] using notScalar
  have positive : 0 < nest.innerVecLen shapes store := by
    rw [LoopNest.innerVecLen]
    split
    next positive => exact positive
    next => exact inScope.widths_positive store member
  rw [LoopNest.innerVecLen] at positive divides ⊢
  simp only [detectVectorPlan, column, Bool.not_true, divides, ne_eq, not_true_eq_false,
    decide_false, Bool.or_false, Int.not_le.mpr positive, Bool.false_eq_true, ↓reduceIte]

theorem vectorizeStoreAsRowBody_of_lowers (lowers : store.lowers shapes nest)
    (notLoad : store.value.isLoad = false) (fresh : Nat → String)
    (outerDimVar : Option Var) (innerVecLen outerExtent : Int) (is2d : Bool) (nextTemp : Nat) :
    ∃ calls afterTemp,
      vectorizeStoreAsRowBody shapes fresh nest.innerVar outerDimVar innerVecLen outerExtent is2d
        store nextTemp = some (calls, afterTemp) := by
  rw [Store.lowers, Bool.and_eq_true] at lowers
  have decomposes := lowers.1
  rw [← decomposes_lowerLoads fresh nest.innerVar outerDimVar
    (store.value.collectsVectors is2d) is2d outerExtent innerVecLen store.value nextTemp]
    at decomposes
  have isLoad :=
    (@lowerLoads_shape shapes fresh nest.innerVar outerDimVar (store.value.collectsVectors is2d)
      is2d outerExtent innerVecLen store.value nextTemp).2.2
  rw [isLoad_flatten, notLoad] at isLoad
  simp only [vectorizeStoreAsRowBody, decomposeLowered]
  split
  next src index isValue =>
    rw [isValue] at isLoad
    cases isLoad
  next =>
    rw [← @ParallelVector.decomposeExpression_isSome nest.innerVar
      (totalElements is2d innerVecLen outerExtent)] at decomposes
    obtain ⟨⟨calls, afterTemp⟩, decomposed⟩ := Option.isSome_iff_exists.mp decomposes
    rw [decomposed]
    exact ⟨_, _, rfl⟩

theorem tryVectorizeBufferStoreSeq_single {fresh : Nat → String}
    {outerDimVar : Option Var} {plan : VectorPlan}
    (detected :
      detectVectorPlan shapes nest.innerVar outerDimVar nest.innerExtent elementCount store =
        some plan)
    {is2d : Bool}
    (isBlock :
      (plan.is2dVectorizable &&
          checkExpressionSupports2DVectorization nest.innerVar outerDimVar store.value) = is2d)
    {nextTemp afterTemp : Nat}
    {calls : List Call}
    (vectorized :
      vectorizeStoreAsRowBody shapes fresh nest.innerVar outerDimVar plan.innerVecLen
        plan.outerExtent is2d store nextTemp = some (calls, afterTemp))
    (hasOuterSerial : Bool) :
    tryVectorizeBufferStoreSeq shapes fresh nest.innerVar outerDimVar nest.innerExtent
        elementCount hasOuterSerial [store] nextTemp =
      some (if is2d || hasOuterSerial || plan.outerExtent == 1 then .calls calls
        else .rowLoop plan.outerIndexVar plan.outerExtent calls) := by
  simp only [tryVectorizeBufferStoreSeq, detected, Option.bind_some, List.all_cons, List.all_nil,
    Bool.and_true, isBlock, vectorizeStores, ne_eq, not_true_eq_false, ↓reduceIte, vectorized,
    Option.map_some, List.append_nil]

section

variable (inScope : InScope shapes nest indices) (single : nest.body = [store])
  (lowers : store.lowers shapes nest) (notLoad : store.value.isLoad = false)
include inScope single lowers notLoad

theorem vectorized_of_is2d (innerPositive : 0 < nest.innerExtent) {is2d : Bool}
    (isBlock :
      (((some nest.outerVar).any fun outer => store.row.containsVar outer) &&
          checkExpressionSupports2DVectorization nest.innerVar (some nest.outerVar) store.value) =
        is2d)
    (nextTemp : Nat) :
    ∃ calls afterTemp,
      vectorizeStoreAsRowBody shapes (freshName nest.buffers) nest.innerVar
          (some nest.outerVar) nest.innerExtent nest.outerExtent is2d store nextTemp =
        some (calls, afterTemp) ∧
      tryVectorizeBufferStoreSeq shapes (freshName nest.buffers) nest.innerVar
          (some nest.outerVar) nest.innerExtent (nest.innerExtent * nest.outerExtent) false
          [store] nextTemp =
        some (if is2d || false || (nest.outerExtent : Int) == 1 then .calls calls
          else .rowLoop (asVar store.row) nest.outerExtent calls) := by
  have member : store ∈ nest.body := by simp [single]
  have positive : 0 < (nest.innerExtent : Int) := by exact_mod_cast innerPositive
  have rowLength : nest.innerVecLen shapes store = nest.innerExtent := if_pos positive
  have detected :=
    detectVectorPlan_of_inScope inScope member (some nest.outerVar)
      (rowLength ▸ Int.mul_tmod_right (nest.innerExtent : Int) nest.outerExtent)
  rw [rowLength, Int.mul_tdiv_cancel_left _ (Int.ne_of_gt positive)] at detected
  obtain ⟨calls, afterTemp, vectorized⟩ :=
    vectorizeStoreAsRowBody_of_lowers lowers notLoad (freshName nest.buffers)
      (some nest.outerVar) nest.innerExtent nest.outerExtent is2d nextTemp
  exact ⟨calls, afterTemp, vectorized,
    tryVectorizeBufferStoreSeq_single detected isBlock vectorized false⟩

theorem visitFor_block (isBlock : nest.isBlock) (innerPositive : 0 < nest.innerExtent)
    (nextTemp : Nat) :
    ∃ calls afterTemp,
      visitFor shapes nest nextTemp = .emitted (.calls calls) ∧
        vectorizeStoreAsRowBody shapes (freshName nest.buffers) nest.innerVar
          (some nest.outerVar) nest.innerExtent nest.outerExtent true store nextTemp =
            some (calls, afterTemp) := by
  have member : store ∈ nest.body := by simp [single]
  have follows := containsVar_of_followsOuter inScope.distinct (inScope.stores_form store member).1
  have both := isBlock
  rw [LoopNest.isBlock, single, List.all_cons, List.all_nil, Bool.and_true, Bool.and_eq_true]
    at both
  obtain ⟨calls, afterTemp, vectorized, emitted⟩ :=
    @vectorized_of_is2d _ _ _ _ inScope single lowers notLoad innerPositive true
      (by rw [Option.any_some, follows, both.2]; rfl) nextTemp
  refine ⟨calls, afterTemp, ?_, vectorized⟩
  rw [visitFor, single]
  simp only [both.1, ↓reduceIte, emitted, Bool.true_or]

theorem visitFor_rows (notBlock : nest.isBlock = false)
    (outerParallel : nest.outerParallel) (innerPositive : 0 < nest.innerExtent) (nextTemp : Nat) :
    ∃ calls afterTemp,
      visitFor shapes nest nextTemp =
          .emitted (if nest.outerExtent = 1 then .calls calls
            else .rowLoop (asVar store.row) nest.outerExtent calls) ∧
        vectorizeStoreAsRowBody shapes (freshName nest.buffers) nest.innerVar
          (some nest.outerVar) nest.innerExtent nest.outerExtent false store nextTemp =
            some (calls, afterTemp) := by
  rw [LoopNest.isBlock, outerParallel, single, List.all_cons, List.all_nil, Bool.and_true,
    Bool.true_and] at notBlock
  obtain ⟨calls, afterTemp, vectorized, emitted⟩ :=
    @vectorized_of_is2d _ _ _ _ inScope single lowers notLoad innerPositive false
      (by rw [notBlock, Bool.and_false]) nextTemp
  refine ⟨calls, afterTemp, ?_, vectorized⟩
  rw [visitFor, single]
  simp only [outerParallel, ↓reduceIte, emitted, Bool.false_or, beq_iff_eq]
  norm_cast

theorem visitFor_inSerial (outerSerial : nest.outerParallel = false) (nextTemp : Nat) :
    ∃ calls outerExtent afterTemp,
      visitFor shapes nest nextTemp = .inSerial (.calls calls) ∧
        vectorizeStoreAsRowBody shapes (freshName nest.buffers) nest.innerVar none
          (nest.innerVecLen shapes store) outerExtent false store nextTemp =
            some (calls, afterTemp) := by
  have member : store ∈ nest.body := by simp [single]
  have divides :
      ((nest.innerExtent : Int) * nest.outerExtent).tmod (nest.innerVecLen shapes store) = 0 := by
    rw [LoopNest.innerVecLen]
    split
    next positive => exact Int.mul_tmod_right _ _
    next empty =>
      have isZero : (nest.innerExtent : Int) = 0 := by omega
      rw [isZero, Int.zero_mul, Int.zero_tmod]
  have detected := detectVectorPlan_of_inScope inScope member none divides
  obtain ⟨calls, afterTemp, vectorized⟩ :=
    vectorizeStoreAsRowBody_of_lowers lowers notLoad (freshName nest.buffers) none
      (nest.innerVecLen shapes store)
      (((nest.innerExtent : Int) * nest.outerExtent).tdiv (nest.innerVecLen shapes store)) false
      nextTemp
  have emitted := tryVectorizeBufferStoreSeq_single detected rfl vectorized true
  refine ⟨calls, _, afterTemp, ?_, vectorized⟩
  rw [visitFor, single]
  simp only [outerSerial, Bool.false_eq_true, ↓reduceIte, emitted, Bool.or_true, Bool.true_or]

end

end SingleStore

/-! ## Blocks that read the wrong elements -/

section Blocks

variable {shapes : Shapes} {nest : LoopNest} {indices : Var → Int}
  {fresh : Nat → String} {collect : Bool} {unbound : Int} {lastOuter lastInner : Nat}

/-- The lane of the last iteration of a block. -/
def lastLane (nest : LoopNest) (lastOuter lastInner : Nat) : Nat :=
  lastOuter * nest.innerExtent + lastInner

theorem lastLane_position (columns : nest.innerExtent = lastInner + 1) :
    lastLane nest lastOuter lastInner / nest.innerExtent = lastOuter ∧
      lastLane nest lastOuter lastInner % nest.innerExtent = lastInner := by
  have positive : 0 < nest.innerExtent := columns ▸ Nat.succ_pos _
  have below : lastInner < nest.innerExtent := columns ▸ Nat.lt_succ_self _
  rw [lastLane, Nat.add_comm, Nat.add_mul_div_right _ _ positive, Nat.div_eq_of_lt below,
    Nat.zero_add, Nat.add_mul_mod_self_right, Nat.mod_eq_of_lt below]
  exact ⟨rfl, rfl⟩

theorem lastLane_lt (rows : nest.outerExtent = lastOuter + 1)
    (columns : nest.innerExtent = lastInner + 1) :
    lastLane nest lastOuter lastInner < nest.outerExtent * nest.innerExtent := by
  rw [lastLane, rows, Nat.succ_mul]
  exact Nat.add_lt_add_left (columns ▸ Nat.lt_succ_self _) _

/-- The access lies in its buffer in the first and in the last iteration of the block. -/
def Access.InBlockBounds (shapes : Shapes) (nest : LoopNest) (indices : Var → Int)
    (lastOuter lastInner : Nat)
    (access : Access) : Prop :=
  access.InBounds shapes nest indices 0 0 ∧ access.InBounds shapes nest indices lastOuter lastInner

variable {buffer : String} {row column index : IndexExpr} {after before : Memory Int}
  {nextTemp : Nat}

theorem Access.InBlockBounds.width_le
    (form : (Access.matrix buffer row column).HasForm nest indices)
    (columns : nest.innerExtent = lastInner + 1)
    (bounds : (Access.matrix buffer row column).InBlockBounds shapes nest indices lastOuter
      lastInner) :
    (nest.innerExtent : Int) ≤ shapes.width buffer := by
  have first := bounds.1.2.1
  have last := bounds.2.2.2
  rw [form.2 lastOuter lastInner] at last
  rw [columns]
  push_cast
  linarith

/-- The last element of a block is at least as far from its first as the last lane, and farther
if the rows do not lie one directly after the other. -/
theorem lastCell_ge (form : (Access.matrix buffer row column).HasForm nest indices)
    (rows : nest.outerExtent = lastOuter + 1) (columns : nest.innerExtent = lastInner + 1)
    (bounds : (Access.matrix buffer row column).InBlockBounds shapes nest indices lastOuter
      lastInner) :
    (Access.matrix buffer row column).cell shapes nest indices 0 0 +
          lastLane nest lastOuter lastInner ≤
        (Access.matrix buffer row column).cell shapes nest indices lastOuter lastInner ∧
      (¬ (Access.matrix buffer row column).FitsBlock shapes nest →
        (Access.matrix buffer row column).cell shapes nest indices 0 0 +
            lastLane nest lastOuter lastInner <
          (Access.matrix buffer row column).cell shapes nest indices lastOuter lastInner) := by
  have width := bounds.width_le form columns
  have distance :
      (Access.matrix buffer row column).cell shapes nest indices lastOuter lastInner -
          ((Access.matrix buffer row column).cell shapes nest indices 0 0 +
            lastLane nest lastOuter lastInner) =
        lastOuter * (shapes.width buffer - nest.innerExtent) := by
    simp only [Access.cell, lastLane]
    rw [form.1 lastOuter lastInner, form.2 lastOuter lastInner]
    push_cast
    ring
  constructor
  · have nonneg : 0 ≤ (lastOuter : Int) * (shapes.width buffer - nest.innerExtent) :=
      Int.mul_nonneg (Int.natCast_nonneg _) (by linarith)
    linarith
  · intro misfit
    rw [Access.FitsBlock, not_or] at misfit
    have laterRow : 0 < (lastOuter : Int) := by omega
    have wider : 0 < shapes.width buffer - nest.innerExtent := by omega
    have positive := Int.mul_pos laterRow wider
    linarith

/-- What the block needs to know of the loads of an expression to read them at all. -/
structure Expr.InBlock
    (shapes : Shapes)
    (nest : LoopNest)
    (indices : Var → Int)
    (fresh : Nat → String)
    (collect : Bool)
    (lastOuter lastInner : Nat)
    (expr : Expr) : Prop where
  forms : ∀ access ∈ expr.accesses, access.HasForm nest indices
  bounds :
    ∀ access ∈ expr.accesses, access.InBlockBounds shapes nest indices lastOuter lastInner
  collected :
    ∀ buffer index, .vector buffer index ∈ expr.accesses →
      collect ∧ (canBroadcast nest.innerVar (some nest.outerVar) index).isSome
  used : ∀ access ∈ expr.accesses, ∀ id, access.buffer ≠ fresh id

theorem Expr.InBlock.part
    {whole part : Expr}
    (inBlock : whole.InBlock shapes nest indices fresh collect lastOuter lastInner)
    (inside : part.accesses ⊆ whole.accesses) :
    part.InBlock shapes nest indices fresh collect lastOuter lastInner where
  forms access member := inBlock.forms access (inside member)
  bounds access member := inBlock.bounds access (inside member)
  collected buffer index member := inBlock.collected buffer index (inside member)
  used access member := inBlock.used access (inside member)

/-- The block reads the expression right. -/
def Expr.ReadRight (shapes : Shapes) (nest : LoopNest) (expr : Expr) : Prop :=
  (∀ access ∈ expr.accesses, access.FitsBlock shapes nest) ∧ expr.vectorsPlaced nest

/-- The block reads an operation right when it does both operands and takes no vector for a
scalar. -/
theorem Expr.ReadRight.binary {op : BinaryOp} {a b : Expr}
    (left : a.ReadRight shapes nest) (right : b.ReadRight shapes nest)
    (notScalar : (op.hasScalarForm && b.isLongVector nest) = false) :
    (Expr.binary op a b).ReadRight shapes nest := by
  constructor
  · intro access member
    rcases List.mem_append.mp member with inLeft | inRight
    · exact left.1 access inLeft
    · exact right.1 access inRight
  · rw [Expr.vectorsPlaced, left.2, right.2, notScalar]
    rfl

/-- Broadcasts that do not fit give a value below every index. -/
def belowIndices : Int → Int :=
  fun _ => -1

/-- The element of a broadcast vector in the last iteration. -/
def lastElement (dim : BroadcastDim) (lastOuter lastInner : Nat) : Nat :=
  match dim with
  | .outer => lastInner
  | .inner => lastOuter

/-- The last lane of a broadcast holds the element of the last iteration, the first one the first
element. -/
theorem broadcastElement_lastLane (dim : BroadcastDim)
    (columns : nest.innerExtent = lastInner + 1) :
    broadcastElement dim nest.innerExtent (lastLane nest lastOuter lastInner) =
        lastElement dim lastOuter lastInner ∧
      broadcastElement dim nest.innerExtent (0 : Nat) = 0 := by
  obtain ⟨isOuter, isInner⟩ := @lastLane_position nest lastOuter lastInner columns
  cases dim with
  | outer => exact ⟨congrArg Int.ofNat isInner, rfl⟩
  | inner => exact ⟨congrArg Int.ofNat isOuter, Int.zero_ediv _⟩

theorem lastElement_pos_of_isLongVector {buffer : String} {index : IndexExpr} {dim : BroadcastDim}
    (found : canBroadcast nest.innerVar (some nest.outerVar) index = some dim)
    (rows : nest.outerExtent = lastOuter + 1) (columns : nest.innerExtent = lastInner + 1)
    (long : (Expr.loadVector buffer index).isLongVector nest) :
    0 < lastElement dim lastOuter lastInner := by
  simp only [Expr.isLongVector, found] at long
  cases dim with
  | outer =>
    simp only [bne_iff_ne, ne_eq] at long
    exact Nat.pos_of_ne_zero fun isZero => long (by rw [columns]; exact congrArg (· + 1) isZero)
  | inner =>
    simp only [bne_iff_ne, ne_eq] at long
    exact Nat.pos_of_ne_zero fun isZero => long (by rw [rows]; exact congrArg (· + 1) isZero)

/-- In the last lane, what the code reads for a broadcast vector of indices is at most the index of
its element, and less if the broadcast does not fit or the vector is taken for a scalar. -/
theorem rightLane_vector_le (distinct : nest.outerVar ≠ nest.innerVar)
    (rows : nest.outerExtent = lastOuter + 1) (columns : nest.innerExtent = lastInner + 1)
    (inBlock :
      (Expr.loadVector buffer index).InBlock shapes nest indices fresh collect lastOuter lastInner)
    (asScalar : Bool) (sourceBefore : AgreeOnUsed fresh before indexMemory)
    (done :
      BroadcastsDone sumMachine belowIndices (fun _ => 0) unbound nest indices fresh nextTemp
        ((Expr.loadVector buffer index).lowerInBlock shapes nest fresh collect nextTemp) before
        after) :
    let read :=
      after (.named (fresh nextTemp))
        (0 + ((if asScalar then 0 else lastLane nest lastOuter lastInner : Nat) : Int))
    read ≤ index.eval (nest.indicesAt indices lastOuter lastInner) ∧
      (¬ (Access.vector buffer index).FitsBlock shapes nest ∨
          (asScalar && (Expr.loadVector buffer index).isLongVector nest) = true →
        read < index.eval (nest.indicesAt indices lastOuter lastInner)) := by
  intro read
  obtain ⟨collects, isFound⟩ := inBlock.collected buffer index List.mem_cons_self
  obtain ⟨dim, found⟩ := Option.isSome_iff_exists.mp isFound
  have isUsed : ∀ id, buffer ≠ fresh id := inBlock.used _ List.mem_cons_self
  have below := @lastLane_lt nest lastOuter lastInner rows columns
  have firstBelow := Nat.lt_of_le_of_lt (Nat.zero_le _) below
  have elements := @broadcastElement_lastLane nest lastOuter lastInner dim columns
  have isElement :
      index.eval (nest.indicesAt indices lastOuter lastInner) =
        lastElement dim lastOuter lastInner := by
    rw [eval_of_canBroadcast distinct found]
    cases dim <;> rfl
  have held :
      read =
        if broadcastFits dim (shapes.extent buffer) nest.outerExtent nest.innerExtent then
          if asScalar then 0 else (lastElement dim lastOuter lastInner : Int)
        else -1 := by
    cases asScalar with
    | true =>
      have first :=
        (lane_broadcast_value sumMachine belowIndices (fun _ => 0) unbound firstBelow collects
          found isUsed sourceBefore done).2
      rw [elements.2] at first
      exact first
    | false =>
      have last :=
        (lane_broadcast_value sumMachine belowIndices (fun _ => 0) unbound below collects found
          isUsed sourceBefore done).2
      rw [elements.1] at last
      exact last
  rw [isElement, held]
  cases fits : broadcastFits dim (shapes.extent buffer) nest.outerExtent nest.innerExtent with
  | false =>
    constructor
    · rw [if_neg Bool.false_ne_true]
      omega
    · intro _
      rw [if_neg Bool.false_ne_true]
      omega
  | true =>
    rw [if_pos rfl]
    have fitsBlock : (Access.vector buffer index).FitsBlock shapes nest := ⟨dim, found, fits⟩
    cases asScalar with
    | false =>
      refine ⟨Int.le_refl _, ?_⟩
      rintro (misfit | long)
      · exact absurd fitsBlock misfit
      · cases long
    | true =>
      refine ⟨Int.natCast_nonneg _, ?_⟩
      rintro (misfit | long)
      · exact absurd fitsBlock misfit
      · rw [if_pos rfl]
        exact_mod_cast @lastElement_pos_of_isLongVector nest _ _ buffer _ _ found rows columns long

/-- In the last lane, what the code reads for a right operand is at most its sum, and less if the
block does not read it right or takes a vector for a scalar. -/
theorem rightRead_le (distinct : nest.outerVar ≠ nest.innerVar)
    (rows : nest.outerExtent = lastOuter + 1) (columns : nest.innerExtent = lastInner + 1)
    (op : BinaryOp) {expr : Expr}
    (inBlock : expr.InBlock shapes nest indices fresh collect lastOuter lastInner)
    (sourceBefore : AgreeOnUsed fresh before indexMemory)
    (done :
      BroadcastsDone sumMachine belowIndices (fun _ => 0) unbound nest indices fresh nextTemp
        (expr.lowerInBlock shapes nest fresh collect nextTemp) before after)
    {value : Int}
    (isValue :
      value =
        expr.eval sumMachine shapes
          (nest.scalarsAt sumMachine (fun _ => 0) lastOuter lastInner)
          (nest.indicesAt indices lastOuter lastInner) indexMemory) :
    let code :=
      (expr.lowerInBlock shapes nest fresh collect nextTemp).value.laneValue sumMachine
        (fun _ => 0) nest.innerVar (inIteration nest.outerVar indices unbound) after
        (lastLane nest lastOuter lastInner)
    let read :=
      ParallelVector.rightLane nest.innerVar (inIteration nest.outerVar indices unbound) op after
        code (expr.lowerInBlock shapes nest fresh collect nextTemp).value
    code ≤ value ∧ (¬ expr.ReadRight shapes nest → code < value) →
      read ≤ value ∧
        (¬ expr.ReadRight shapes nest ∨ (op.hasScalarForm && expr.isLongVector nest) = true →
          read < value) := by
  intro code read bounded
  cases expr with
  | loadVector buffer index =>
    obtain ⟨collects, isFound⟩ := inBlock.collected buffer index List.mem_cons_self
    obtain ⟨dim, found⟩ := Option.isSome_iff_exists.mp isFound
    have isUsed : ∀ id, buffer ≠ fresh id := inBlock.used _ List.mem_cons_self
    obtain ⟨isLoad, -⟩ :=
      lane_broadcast_value sumMachine belowIndices (fun _ => 0) unbound
        (lastLane_lt rows columns) collects found isUsed sourceBefore done
    have isRead :
        read =
          after (.named (fresh nextTemp))
            (0 + ((if op.hasScalarForm then 0 else lastLane nest lastOuter lastInner : Nat) :
              Int)) := by
      simp only [read, code, isLoad, ParallelVector.rightLane]
      cases op.hasScalarForm <;> rfl
    have reads :=
      rightLane_vector_le distinct rows columns inBlock op.hasScalarForm sourceBefore done
    rw [isRead, isValue]
    refine ⟨reads.1, fun wrong => reads.2 (wrong.imp_left fun notRight fits => ?_)⟩
    apply notRight
    refine ⟨?_, rfl⟩
    intro access member
    rw [List.mem_singleton.mp member]
    exact fits
  | loadMatrix buffer row column =>
    have isRead : read = code :=
      rightLane_matrix sumMachine (fun _ => 0) unbound distinct
        (inBlock.forms _ List.mem_cons_self) op after _ _
    rw [isRead]
    refine ⟨bounded.1, fun wrong => bounded.2 (wrong.resolve_right ?_)⟩
    simp [Expr.isLongVector]
  | _ =>
    refine ⟨bounded.1, fun wrong => bounded.2 (wrong.resolve_right ?_)⟩
    simp [Expr.isLongVector]

/-- In the last lane, the code's sum of the loaded indices is at most the sum of the right ones,
and less if the block does not read the expression right. -/
theorem lastLane_le_eval (injective : Function.Injective fresh)
    (distinct : nest.outerVar ≠ nest.innerVar) (rows : nest.outerExtent = lastOuter + 1)
    (columns : nest.innerExtent = lastInner + 1)
    (sourceAfter : AgreeOnUsed fresh after indexMemory) (expr : Expr)
    (inBlock : expr.InBlock shapes nest indices fresh collect lastOuter lastInner)
    (nextTemp : Nat) (before : Memory Int) (sourceBefore : AgreeOnUsed fresh before indexMemory)
    (done :
      BroadcastsDone sumMachine belowIndices (fun _ => 0) unbound nest indices fresh nextTemp
        (expr.lowerInBlock shapes nest fresh collect nextTemp) before after) :
    let code :=
      (expr.lowerInBlock shapes nest fresh collect nextTemp).value.laneValue sumMachine
        (fun _ => 0) nest.innerVar (inIteration nest.outerVar indices unbound) after
        (lastLane nest lastOuter lastInner)
    let value :=
      expr.eval sumMachine shapes (nest.scalarsAt sumMachine (fun _ => 0) lastOuter lastInner)
        (nest.indicesAt indices lastOuter lastInner) indexMemory
    code ≤ value ∧ (¬ expr.ReadRight shapes nest → code < value) := by
  intro code value
  induction expr generalizing nextTemp before with
  | imm immediate =>
    refine ⟨Int.le_refl 0, fun wrong => absurd ⟨?_, rfl⟩ wrong⟩
    intro access member
    cases member
  | var name =>
    have zero : nest.scalarsAt sumMachine (fun _ => (0 : Int)) lastOuter lastInner name = 0 := by
      simp only [LoopNest.scalarsAt, sumMachine, Function.update_apply]
      split
      · rfl
      · split <;> rfl
    refine ⟨le_of_eq zero.symm, fun wrong => absurd ⟨?_, rfl⟩ wrong⟩
    intro access member
    cases member
  | loadVector buffer index =>
    obtain ⟨collects, isFound⟩ := inBlock.collected buffer index List.mem_cons_self
    obtain ⟨dim, found⟩ := Option.isSome_iff_exists.mp isFound
    have isUsed : ∀ id, buffer ≠ fresh id := inBlock.used _ List.mem_cons_self
    obtain ⟨isLoad, -⟩ :=
      lane_broadcast_value sumMachine belowIndices (fun _ => 0) unbound
        (lastLane_lt rows columns) collects found isUsed sourceBefore done
    have reads := rightLane_vector_le distinct rows columns inBlock false sourceBefore done
    have isCode :
        code = after (.named (fresh nextTemp)) (0 + lastLane nest lastOuter lastInner) := by
      simp only [code, isLoad]
      rfl
    rw [isCode]
    refine ⟨reads.1, fun wrong => reads.2 (Or.inl fun fits => wrong ⟨?_, rfl⟩)⟩
    intro access member
    rw [List.mem_singleton.mp member]
    exact fits
  | loadMatrix buffer row column =>
    have farther :=
      lastCell_ge (inBlock.forms _ List.mem_cons_self) rows columns
        (inBlock.bounds _ List.mem_cons_self)
    have isCode :
        code =
          (Access.matrix buffer row column).cell shapes nest indices 0 0 +
            lastLane nest lastOuter lastInner := by
      simp only [code, Expr.lowerInBlock, Expr.lowerLoads, ParallelVector.Expr.laneValue,
        eval_zeroOuter distinct]
      rw [sourceAfter buffer _ (inBlock.used _ List.mem_cons_self)]
      rfl
    rw [isCode]
    refine ⟨farther.1, fun wrong => farther.2 fun fits => wrong ⟨?_, rfl⟩⟩
    intro access member
    rw [List.mem_singleton.mp member]
    exact fits
  | call op arg ih =>
    exact ih ⟨inBlock.forms, inBlock.bounds, inBlock.collected, inBlock.used⟩ nextTemp before
      sourceBefore done
  | binary op a b ihA ihB =>
    have leftDone := done.left sumMachine (fun _ => 0) unbound injective
    have rightDone := done.right sumMachine (fun _ => 0) unbound
    have sourceBetween :
        AgreeOnUsed fresh
          (runCalls sumMachine belowIndices (fun _ => 0)
            (inIteration nest.outerVar indices unbound) before
            (a.lowerInBlock shapes nest fresh collect nextTemp).broadcasts)
          indexMemory := by
      intro name cell used
      rw [agreeOnUsed_broadcasts sumMachine belowIndices (fun _ => 0) unbound a nextTemp before
        name cell used]
      exact sourceBefore name cell used
    have leftBlock := inBlock.part (List.subset_append_left _ _)
    have rightBlock := inBlock.part (List.subset_append_right _ _)
    have left := ihA leftBlock nextTemp before sourceBefore leftDone
    have right := ihB rightBlock _ _ sourceBetween rightDone
    have rightRead :=
      rightRead_le distinct rows columns op rightBlock sourceBetween rightDone rfl right
    refine ⟨Int.add_le_add left.1 rightRead.1, fun wrong => ?_⟩
    by_cases leftRight : a.ReadRight shapes nest
    · -- The left operand is read right, so the right one is not, or is taken for a scalar.
      have rightWrong :
          ¬ b.ReadRight shapes nest ∨ (op.hasScalarForm && b.isLongVector nest) = true := by
        by_contra allRight
        rw [not_or, not_not, Bool.not_eq_true] at allRight
        exact wrong (leftRight.binary allRight.1 allRight.2)
      exact Int.add_lt_add_of_le_of_lt left.1 (rightRead.2 rightWrong)
    · exact Int.add_lt_add_of_lt_of_le (left.2 leftRight) rightRead.1

end Blocks

end TilelangAscend.ParallelNest
