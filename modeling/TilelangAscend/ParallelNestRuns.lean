import TilelangAscend.ParallelNestSound

namespace TilelangAscend.ParallelNest

/-!
# Runs of lowered nests

A block that is lowered to flat calls, a loop over rows and the calls inside a serial loop all
leave the memory of the serial nest when their plan meets its condition.  This module assembles
the runs from those of single stores and closes with a nest whose rows are not one directly after
the other, which a flat call changes.
-/

open ParallelVector (Var IndexExpr Imm BinaryOp UnaryOp Buffer AccessPtr VectorCall Machine Memory
  calculateBufferOffset decomposeExpression inIteration writeLanes isScalarAccess sourceCells
  withoutTemps)

section Runs

variable {shapes : Shapes} {nest : LoopNest} {indices : Var → Int}
  {Value : Type} {machine : Machine Value} {misfit : Int → Value} {scalars : Var → Value}

/-! ## The serial nest -/

theorem runNest_unbound (unbound : Int) (memory : Memory Value) :
    runNest machine scalars shapes nest (inIteration nest.outerVar indices unbound) memory =
      runNest machine scalars shapes nest indices memory := by
  have sameIndices :
      ∀ outer inner : Int,
        nest.indicesAt (inIteration nest.outerVar indices unbound) outer inner =
          nest.indicesAt indices outer inner := by
    intro outer inner
    simp only [LoopNest.indicesAt, inIteration, Function.update_idem]
  have sameStore :
      ∀ outer inner : Int,
        runStore machine scalars shapes nest (inIteration nest.outerVar indices unbound) outer
            inner =
          runStore machine scalars shapes nest indices outer inner := by
    intro outer inner
    funext current store
    simp only [runStore, Store.cell, sameIndices]
  have sameRow :
      ∀ (outer : Int) (current : Memory Value) (count : Nat),
        runRow machine scalars shapes nest (inIteration nest.outerVar indices unbound) outer
            current count =
          runRow machine scalars shapes nest indices outer current count := by
    intro outer current count
    induction count with
    | zero => rfl
    | succ inner ih => rw [runRow, ih, sameStore, runRow]
  rw [runNest, runNest]
  induction nest.outerExtent with
  | zero => rfl
  | succ outer ih => rw [runRows, ih, sameRow, runRows]

/-! ## One block -/

variable {nextTemp : Nat} {outerExtent elementCount : Int} {calls : List Call} {name : String}
  {emitted : Emitted}

theorem block_run (inScope : InScope shapes nest indices) (isBlock : nest.isBlock)
    (safe : BlockSafe shapes nest indices)
    (vectorized :
      vectorizeStores shapes (freshName nest.buffers) nest.innerVar (some nest.outerVar)
        nest.innerExtent ((nest.innerExtent : Int) * nest.outerExtent) outerExtent true nest.body
        nextTemp = some calls)
    (unbound : Int)
    (memory : Memory Value) :
    visibleCells (freshName nest.buffers) memory
        (runCalls machine misfit scalars (inIteration nest.outerVar indices unbound) memory calls) =
      sourceCells (runNest machine scalars shapes nest indices memory) := by
  have performs :
      ∀ store ∈ nest.body, ∀ plan firstTemp storeCalls afterTemp,
        detectVectorPlan shapes nest.innerVar (some nest.outerVar) nest.innerExtent
            ((nest.innerExtent : Int) * nest.outerExtent) store = some plan →
          vectorizeStoreAsRowBody shapes (freshName nest.buffers) nest.innerVar
              (some nest.outerVar) plan.innerVecLen plan.outerExtent true store firstTemp =
            some (storeCalls, afterTemp) →
            ∀ current : Memory Value,
              LoopFission.Performed
                (store.assignAt machine shapes nest indices scalars (blockPosition nest))
                (nest.outerExtent * nest.innerExtent)
                (visibleCells (freshName nest.buffers) memory current)
                (visibleCells (freshName nest.buffers) memory
                  (runCalls machine misfit scalars (inIteration nest.outerVar indices unbound)
                    current storeCalls)) := by
    intro store member plan firstTemp storeCalls afterTemp detected storeVectorized current
    have product := detectVectorPlan_product detected
    obtain ⟨innerVecLen, -, outer, -⟩ := detectVectorPlan_eq_some detected
    have extents :
        nest.outerExtent * nest.innerExtent ≠ 0 →
          plan.innerVecLen = nest.innerExtent ∧ plan.outerExtent = nest.outerExtent := by
      intro nonempty
      have positive : 0 < (nest.innerExtent : Int) := by
        exact_mod_cast Nat.pos_of_ne_zero (Nat.mul_ne_zero_iff.mp nonempty).2
      rw [if_pos positive] at innerVecLen
      refine ⟨innerVecLen, ?_⟩
      rw [outer, innerVecLen]
      exact Int.mul_tdiv_cancel_left _ (Int.ne_of_gt positive)
    exact block_performed inScope isBlock member (safe store member).1 (safe store member).2
      product extents storeVectorized memory current
  have performed := vectorizeStores_performed _ nest.body performs vectorized memory
  have fissioned := LoopFission.performedInTurn_eq_runSerial inScope.block_independent performed
  rw [fissioned, visibleCells_self]
  exact (sourceCells_runRows machine shapes nest indices scalars memory nest.outerExtent).symm

/-! ## Rows -/

theorem row_run (inScope : InScope shapes nest indices)
    (innerPositive : 0 < nest.innerExtent) (notBlock : nest.isBlock = false)
    (safe :
      ∀ store ∈ nest.body,
        store.RowPlaced shapes nest ∧ store.CopyFits shapes nest indices nest.innerExtent ∧
          (store.value.isLoad → nest.outerExtent = 1))
    {outerDimVar : Option Var}
    (vectorized :
      vectorizeStores shapes (freshName nest.buffers) nest.innerVar outerDimVar
        nest.innerExtent elementCount outerExtent false nest.body nextTemp = some calls)
    {outer : Nat}
    (below : outer < nest.outerExtent)
    (initial memory : Memory Value) :
    visibleCells (freshName nest.buffers) initial
        (runCalls machine misfit
          (Function.update scalars nest.outerVar (machine.ofIndex outer))
          (inIteration nest.outerVar indices outer) memory calls) =
      LoopFission.runSerial
        (assignsAt machine shapes nest indices scalars (rowPosition outer) nest.body)
        (visibleCells (freshName nest.buffers) initial memory) nest.innerExtent := by
  have positive : 0 < (nest.innerExtent : Int) := by exact_mod_cast innerPositive
  have performs :
      ∀ store ∈ nest.body, ∀ plan firstTemp storeCalls afterTemp,
        detectVectorPlan shapes nest.innerVar outerDimVar nest.innerExtent elementCount store =
            some plan →
          vectorizeStoreAsRowBody shapes (freshName nest.buffers) nest.innerVar outerDimVar
              plan.innerVecLen plan.outerExtent false store firstTemp =
            some (storeCalls, afterTemp) →
            ∀ current : Memory Value,
              LoopFission.Performed
                (store.assignAt machine shapes nest indices scalars (rowPosition outer))
                nest.innerExtent
                (visibleCells (freshName nest.buffers) initial current)
                (visibleCells (freshName nest.buffers) initial
                  (runCalls machine misfit
                    (Function.update scalars nest.outerVar (machine.ofIndex outer))
                    (inIteration nest.outerVar indices outer) current storeCalls)) := by
    intro store member plan firstTemp storeCalls afterTemp detected storeVectorized current
    obtain ⟨innerVecLen, -⟩ := detectVectorPlan_eq_some detected
    rw [if_pos positive] at innerVecLen
    rw [innerVecLen] at storeVectorized
    obtain ⟨placed, copyFits, oneRow⟩ := safe store member
    have firstRow : store.value.isLoad → outer = 0 :=
      fun isLoad => Nat.lt_one_iff.mp (oneRow isLoad ▸ below)
    exact row_performed inScope innerPositive below member notBlock placed copyFits firstRow
      storeVectorized initial current
  have performed := vectorizeStores_performed _ nest.body performs vectorized memory
  exact LoopFission.performedInTurn_eq_runSerial (inScope.row_independent below) performed

theorem rows_run {body : (Var → Value) → (Var → Int) → Memory Value → Memory Value}
    {memory : Memory Value}
    (runsRow :
      ∀ outer : Nat, outer < nest.outerExtent → ∀ current,
        visibleCells (freshName nest.buffers) memory
            (body (Function.update scalars nest.outerVar (machine.ofIndex outer))
              (inIteration nest.outerVar indices outer) current) =
          LoopFission.runSerial
            (assignsAt machine shapes nest indices scalars (rowPosition outer) nest.body)
            (visibleCells (freshName nest.buffers) memory current) nest.innerExtent)
    (unbound : Int)
    {count : Nat}
    (within : count ≤ nest.outerExtent) :
    visibleCells (freshName nest.buffers) memory
        (runLoopOver machine scalars (some nest.outerVar) body
          (inIteration nest.outerVar indices unbound) memory count) =
      sourceCells (runRows machine scalars shapes nest indices memory count) := by
  induction count with
  | zero => exact visibleCells_self _ _
  | succ outer ih =>
    have rebound :
        inIteration nest.outerVar (inIteration nest.outerVar indices unbound) outer =
          inIteration nest.outerVar indices outer :=
      Function.update_idem _ _ _
    rw [runLoopOver, rebound, runsRow outer within, ih (Nat.le_of_lt within),
      runRows, sourceCells_row]

/-! ## The lowered nest -/

theorem runNest_empty (empty : nest.outerExtent * nest.innerExtent = 0)
    (memory : Memory Value) (name : String) :
    runNest machine scalars shapes nest indices memory (.named name) = memory (.named name) := by
  have cells := sourceCells_runRows machine shapes nest indices scalars memory nest.outerExtent
  rw [empty] at cells
  funext cell
  exact congrFun cells (name, cell)

theorem eq_of_visibleCells {fresh : Nat → String} {initial memory other : Memory Value}
    (same : visibleCells fresh initial memory = sourceCells other)
    (used : ∀ id, name ≠ fresh id) : memory (.named name) = other (.named name) := by
  funext cell
  have sameCell := congrFun same (name, cell)
  rw [@visibleCells_used Value fresh initial memory (name, cell) used] at sameCell
  exact sameCell

/-- When the stores are vectorized, each of them is. -/
theorem lowers_of_vectorizeStores {outerDimVar : Option Var}
    {elementCount outerExtent : Int} {nextTemp : Nat} {calls : List Call}
    (vectorized :
      vectorizeStores shapes (freshName nest.buffers) nest.innerVar outerDimVar
        nest.innerExtent elementCount outerExtent nest.isBlock nest.body nextTemp = some calls)
    (inBlock : nest.isBlock → outerDimVar = some nest.outerVar)
    {store : Store}
    (member : store ∈ nest.body) : store.lowers shapes nest := by
  obtain ⟨plan, firstTemp, storeCalls, afterTemp, detected, storeVectorized⟩ :=
    vectorizeStores_mem vectorized member
  obtain ⟨innerVecLen, -⟩ := detectVectorPlan_eq_some detected
  have planned : plan.innerVecLen = nest.innerVecLen shapes store := innerVecLen
  rw [planned] at storeVectorized
  exact lowers_of_vectorized storeVectorized inBlock

theorem NestSafe.ofLowers (safe : NestSafe shapes nest indices)
    (nonempty : nest.body ≠ []) (lowers : ∀ store ∈ nest.body, store.lowers shapes nest) :
    if nest.isBlock then BlockSafe shapes nest indices
    else if nest.outerParallel then RowsSafe shapes nest
    else SerialSafe shapes nest indices := by
  rcases safe with empty | ⟨store, member, fails⟩ | planSafe
  · exact absurd empty nonempty
  · rw [lowers store member] at fails
    cases fails
  · exact planSafe

/-- The emitted block or row loop computes what the serial nest does. -/
theorem emitted_run (inScope : InScope shapes nest indices)
    (safe : NestSafe shapes nest indices) (outerParallel : nest.outerParallel)
    (vectorized :
      tryVectorizeBufferStoreSeq shapes (freshName nest.buffers) nest.innerVar
        (some nest.outerVar) nest.innerExtent ((nest.innerExtent : Int) * nest.outerExtent) false
        nest.body nextTemp = some emitted)
    (unbound : Int)
    (memory : Memory Value)
    (used : ∀ id, name ≠ freshName nest.buffers id) :
    runEmitted machine misfit scalars (inIteration nest.outerVar indices unbound) memory emitted
        (.named name) =
      runNest machine scalars shapes nest indices memory (.named name) := by
  obtain ⟨first, rest, plan, calls, isBody, detected, allVectorized, rfl⟩ :=
    tryVectorizeBufferStoreSeq_eq_some vectorized
  obtain ⟨innerVecLen, -, outerExtent, outerIndexVar, is2dVectorizable⟩ :=
    detectVectorPlan_eq_some detected
  have firstIn : first ∈ nest.body := by
    rw [isBody]
    exact List.mem_cons_self
  have follows := containsVar_of_followsOuter inScope.distinct (inScope.stores_form first firstIn).1
  have isBlock :
      (plan.is2dVectorizable &&
          nest.body.all fun store =>
            checkExpressionSupports2DVectorization nest.innerVar (some nest.outerVar) store.value) =
        nest.isBlock := by
    rw [is2dVectorizable, LoopNest.isBlock, outerParallel, Option.any_some, follows]
  rw [isBlock] at allVectorized ⊢
  have lowers := fun store member =>
    @lowers_of_vectorizeStores shapes nest _ _ _ _ _ allVectorized (fun _ => rfl) store member
  have planSafe := safe.ofLowers (List.ne_nil_of_mem firstIn) lowers
  cases block : nest.isBlock with
  | true =>
    rw [block, if_pos rfl] at planSafe
    rw [block] at allVectorized
    exact eq_of_visibleCells (block_run inScope block planSafe allVectorized unbound memory) used
  | false =>
    rw [block, if_neg Bool.false_ne_true, outerParallel, if_pos rfl] at planSafe
    rw [block] at allVectorized
    simp only [Bool.false_or, beq_iff_eq]
    by_cases empty : nest.outerExtent * nest.innerExtent = 0
    · have noRows : plan.outerExtent = 0 := by
        have noElements : (nest.innerExtent : Int) * nest.outerExtent = 0 := by
          rw [Int.mul_comm]
          exact_mod_cast empty
        rw [outerExtent, noElements, Int.zero_tdiv]
      rw [noRows, if_neg Int.zero_ne_one, runNest_empty empty]
      rfl
    · obtain ⟨notOne, binds, stores⟩ := planSafe.resolve_left empty
      have innerPositive := Nat.pos_of_ne_zero (Nat.mul_ne_zero_iff.mp empty).2
      have positive : 0 < (nest.innerExtent : Int) := by exact_mod_cast innerPositive
      rw [if_pos positive] at innerVecLen
      have rowCount : plan.outerExtent = nest.outerExtent := by
        rw [outerExtent, innerVecLen]
        exact Int.mul_tdiv_cancel_left _ (Int.ne_of_gt positive)
      have boundVar : plan.outerIndexVar = some nest.outerVar := by
        rw [isBody, List.head?_cons, Option.map_some, Option.some.injEq] at binds
        rw [outerIndexVar, binds]
        rfl
      have notOneRow : (nest.outerExtent : Int) ≠ 1 := by exact_mod_cast notOne
      have rowSafe :
          ∀ store ∈ nest.body,
            store.RowPlaced shapes nest ∧ store.CopyFits shapes nest indices nest.innerExtent ∧
              (store.value.isLoad → nest.outerExtent = 1) := by
        intro store member
        obtain ⟨notLoad, placed⟩ := stores store member
        have noLoad : ¬ store.value.isLoad := by simp [notLoad]
        exact ⟨placed, fun isLoad => absurd isLoad noLoad, fun isLoad => absurd isLoad noLoad⟩
      have runs :=
        @rows_run shapes nest indices Value machine scalars
          (fun rowScalars rowIndices current =>
            runCalls machine misfit rowScalars rowIndices current calls)
          memory
          (fun outer below current =>
            row_run inScope innerPositive block rowSafe allVectorized below memory current)
          unbound nest.outerExtent (Nat.le_refl _)
      rw [rowCount, if_neg notOneRow, boundVar]
      exact eq_of_visibleCells runs used

/-- Lowering under a serial outer loop computes what the serial nest does. -/
theorem inSerial_run (inScope : InScope shapes nest indices)
    (safe : NestSafe shapes nest indices) (outerSerial : nest.outerParallel = false)
    (nonempty : nest.body ≠ [])
    (vectorized :
      vectorizeStores shapes (freshName nest.buffers) nest.innerVar none nest.innerExtent
        elementCount outerExtent false nest.body nextTemp = some calls)
    (isCalls : 0 < nest.innerExtent → emitted = .calls calls)
    (unbound : Int)
    (memory : Memory Value)
    (used : ∀ id, name ≠ freshName nest.buffers id) :
    runLoopOver machine scalars (some nest.outerVar)
        (fun rowScalars rowIndices current =>
          runEmitted machine misfit rowScalars rowIndices current emitted)
        (inIteration nest.outerVar indices unbound) memory nest.outerExtent (.named name) =
      runNest machine scalars shapes nest indices memory (.named name) := by
  have notBlock : nest.isBlock = false := by rw [LoopNest.isBlock, outerSerial, Bool.false_and]
  have lowers : ∀ store ∈ nest.body, store.lowers shapes nest := by
    intro store member
    rw [← notBlock] at vectorized
    exact lowers_of_vectorizeStores vectorized (by simp [notBlock]) member
  have planSafe := safe.ofLowers nonempty lowers
  rw [notBlock, if_neg Bool.false_ne_true, outerSerial, if_neg Bool.false_ne_true] at planSafe
  rcases planSafe with noRows | ⟨innerPositive, stores⟩
  · rw [noRows, runNest, noRows]
    rfl
  · rw [isCalls innerPositive]
    have runs :=
      @rows_run shapes nest indices Value machine scalars
        (fun rowScalars rowIndices current =>
          runCalls machine misfit rowScalars rowIndices current calls)
        memory
        (fun outer below current =>
          row_run inScope innerPositive notBlock stores vectorized below memory current)
        unbound nest.outerExtent (Nat.le_refl _)
    exact eq_of_visibleCells runs used

end Runs

/-- A nest that meets the condition keeps its meaning. -/
theorem preservesMeaning_of_nestSafe {shapes : Shapes} {nest : LoopNest}
    {indices : Var → Int} (inScope : InScope shapes nest indices)
    (safe : NestSafe shapes nest indices) (nextTemp : Nat) :
    PreservesMeaning shapes nest nextTemp indices := by
  intro Value machine scalars misfit unbound memory name used
  rw [visitFor]
  cases outerParallel : nest.outerParallel with
  | true =>
    simp only [↓reduceIte]
    split
    next emitted vectorized =>
      exact emitted_run inScope safe outerParallel vectorized unbound memory used
    next => exact congrFun (runNest_unbound unbound memory) _
  | false =>
    simp only [Bool.false_eq_true, ↓reduceIte]
    split
    next emitted vectorized =>
      obtain ⟨first, rest, plan, calls, isBody, detected, allVectorized, rfl⟩ :=
        tryVectorizeBufferStoreSeq_eq_some vectorized
      obtain ⟨-, -, -, -, is2dVectorizable⟩ := detectVectorPlan_eq_some detected
      rw [is2dVectorizable, Option.any_none, Bool.false_and] at allVectorized
      apply inSerial_run inScope safe outerParallel (by simp [isBody]) allVectorized _ unbound
        memory used
      intro _
      rw [Bool.or_true, Bool.true_or, if_pos rfl]
    next =>
      split
      next emitted vectorized =>
        obtain ⟨first, rest, plan, calls, isBody, detected, allVectorized, rfl⟩ :=
          tryVectorizeBufferStoreSeq_eq_some vectorized
        obtain ⟨innerVecLen, -, outerExtent, -, is2dVectorizable⟩ :=
          detectVectorPlan_eq_some detected
        rw [is2dVectorizable, Option.any_none, Bool.false_and] at allVectorized
        apply inSerial_run inScope safe outerParallel (by simp [isBody]) allVectorized _ unbound
          memory used
        intro innerPositive
        have positive : 0 < (nest.innerExtent : Int) := by exact_mod_cast innerPositive
        rw [if_pos positive] at innerVecLen
        have oneRow : plan.outerExtent = 1 := by
          rw [outerExtent, innerVecLen]
          exact Int.tdiv_self (Int.ne_of_gt positive)
        rw [oneRow, is2dVectorizable]
        rfl
      next => exact congrFun (runNest_unbound unbound memory) _

end TilelangAscend.ParallelNest
