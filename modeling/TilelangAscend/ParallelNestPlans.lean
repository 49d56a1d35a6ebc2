import TilelangAscend.ParallelNestCells

namespace TilelangAscend.ParallelNest

/-!
# The plans of a nest

A flat call is right when the rows it covers lie one directly after the other and every broadcast
fits.  A loop over rows is right when it binds the row variable, and each of its calls when the
single loop over that row is lowered soundly.  The copy of a bare load always fills its
destination from the beginning.  This module states these conditions and takes apart what the pass
emits for a body of stores.
-/

open ParallelVector (Var IndexExpr Imm BinaryOp UnaryOp Buffer AccessPtr VectorCall Machine Memory
  calculateBufferOffset decomposeExpression inIteration writeLanes isScalarAccess sourceCells
  withoutTemps)

/-! ## The condition -/

/-- The expression is a load. -/
def Expr.isLoad : Expr → Bool
  | .loadVector _ _ => true
  | .loadMatrix _ _ _ => true
  | _ => false

/-- The nest is lowered as one block: both loops are parallel and every value supports it. -/
def LoopNest.isBlock (nest : LoopNest) : Bool :=
  nest.outerParallel &&
    nest.body.all fun store =>
      checkExpressionSupports2DVectorization nest.innerVar (some nest.outerVar) store.value

/-- The length of a row's vectors in the plan of a store. -/
def LoopNest.innerVecLen (shapes : Shapes) (nest : LoopNest) (store : Store) : Int :=
  if 0 < (nest.innerExtent : Int) then nest.innerExtent else shapes.width store.buffer

/-- The pass can decompose the stored value; a bare load it copies only between matrices of one
width. -/
def Store.lowers (shapes : Shapes) (nest : LoopNest) (store : Store) : Bool :=
  (store.value.flatten shapes).decomposes &&
    (store.value.sourceWidth shapes nest.innerVar (some nest.outerVar)
      (store.value.collectsVectors nest.isBlock) (nest.innerVecLen shapes store)).all
        fun width => width == shapes.width store.buffer

/-- The elements that the copy of a bare load moves for `elementCount` iterations. -/
def Store.copied (shapes : Shapes) (nest : LoopNest) (elementCount : Int) (store : Store) : Int :=
  match store.value with
  | .loadVector buffer _ =>
    if nest.isBlock then shapes.extent store.buffer * shapes.width store.buffer
    else
      copiedElements elementCount (shapes.extent buffer) (shapes.extent store.buffer)
        (shapes.width store.buffer)
  | _ => shapes.extent store.buffer * shapes.width store.buffer

/-- The copy of a bare load moves just the stored elements, from the first cell on. -/
def Store.CopyFits (shapes : Shapes) (nest : LoopNest) (indices : Var → Int) (elementCount : Int)
    (store : Store) : Prop :=
  store.value.isLoad →
    store.copied shapes nest elementCount = elementCount ∧
      (0 < elementCount → store.target.cell shapes nest indices 0 0 = 0)

/-- Every single loop over a row reads the store's loop-invariant loads as scalars only where the
code does. -/
def Store.RowPlaced (shapes : Shapes) (nest : LoopNest) (store : Store) : Prop :=
  nest.innerExtent = 1 ∨ (store.value.flatten shapes).loadsPlaced nest.innerVar

section Condition

variable (shapes : Shapes) (nest : LoopNest) (indices : Var → Int)

/-- One flat call is right for every store of the block. -/
def BlockSafe : Prop :=
  ∀ store ∈ nest.body,
    (nest.outerExtent * nest.innerExtent = 0 ∨
      (∀ access ∈ store.target :: store.value.accesses, access.FitsBlock shapes nest) ∧
        store.value.vectorsPlaced nest) ∧
      store.CopyFits shapes nest indices (nest.innerExtent * nest.outerExtent)

/-- The loop over the rows binds the row variable, and its calls are right for every store. -/
def RowsSafe : Prop :=
  nest.outerExtent * nest.innerExtent = 0 ∨
    nest.outerExtent ≠ 1 ∧ nest.body.head?.map Store.row = some (.var nest.outerVar) ∧
      ∀ store ∈ nest.body, store.value.isLoad = false ∧ store.RowPlaced shapes nest

/-- In every row of the serial outer loop the calls are right for every store. -/
def SerialSafe : Prop :=
  nest.outerExtent = 0 ∨
    0 < nest.innerExtent ∧
      ∀ store ∈ nest.body,
        store.RowPlaced shapes nest ∧ store.CopyFits shapes nest indices nest.innerExtent ∧
          (store.value.isLoad → nest.outerExtent = 1)

/-- The nest is left serial, or the plan that the pass selects for it is right. -/
def NestSafe : Prop :=
  nest.body = [] ∨ (∃ store ∈ nest.body, store.lowers shapes nest = false) ∨
    if nest.isBlock then BlockSafe shapes nest indices
    else if nest.outerParallel then RowsSafe shapes nest
    else SerialSafe shapes nest indices

end Condition

/-! ## Plans -/

variable {shapes : Shapes} {vectorDimVar : Var} {outerDimVar : Option Var}
  {vectorDimExtent elementCount : Int} {store : Store} {plan : VectorPlan}

theorem detectVectorPlan_eq_some
    (detected :
      detectVectorPlan shapes vectorDimVar outerDimVar vectorDimExtent elementCount store =
        some plan) :
    plan.innerVecLen =
        (if 0 < vectorDimExtent then vectorDimExtent else shapes.width store.buffer) ∧
      elementCount.tmod plan.innerVecLen = 0 ∧
      plan.outerExtent = elementCount.tdiv plan.innerVecLen ∧
      plan.outerIndexVar = asVar store.row ∧
      plan.is2dVectorizable = outerDimVar.any fun outer => store.row.containsVar outer := by
  simp only [detectVectorPlan, Option.ite_none_left_eq_some, Option.some.injEq, Bool.or_eq_true,
    decide_eq_true_eq, not_or, Decidable.not_not] at detected
  obtain ⟨⟨-, divides⟩, rfl⟩ := detected
  exact ⟨rfl, divides, rfl, rfl, rfl⟩

/-- A plan covers all elements of the nest. -/
theorem detectVectorPlan_product
    (detected :
      detectVectorPlan shapes vectorDimVar outerDimVar vectorDimExtent elementCount store =
        some plan) :
    plan.innerVecLen * plan.outerExtent = elementCount := by
  obtain ⟨-, divides, outerExtent, -⟩ := detectVectorPlan_eq_some detected
  have whole := Int.mul_tdiv_add_tmod elementCount plan.innerVecLen
  rw [divides, Int.add_zero] at whole
  rw [outerExtent, whole]

section Stores

variable {shapes : Shapes} {fresh : Nat → String} {vectorDimVar : Var}
  {outerDimVar : Option Var} {vectorDimExtent : Int} {elementCount outerExtent : Int}
  {nextTemp : Nat} {is2d : Bool} {store : Store} {calls : List Call} {stores : List Store}

theorem vectorizeStores_cons_eq_some {rest : List Store}
    (vectorized :
      vectorizeStores shapes fresh vectorDimVar outerDimVar vectorDimExtent elementCount
        outerExtent is2d (store :: rest) nextTemp = some calls) :
    ∃ plan storeCalls afterStore laterCalls,
      detectVectorPlan shapes vectorDimVar outerDimVar vectorDimExtent elementCount store =
          some plan ∧
        vectorizeStoreAsRowBody shapes fresh vectorDimVar outerDimVar plan.innerVecLen
            plan.outerExtent is2d store nextTemp = some (storeCalls, afterStore) ∧
        vectorizeStores shapes fresh vectorDimVar outerDimVar vectorDimExtent elementCount
            outerExtent is2d rest afterStore = some laterCalls ∧
        calls = storeCalls ++ laterCalls := by
  simp only [vectorizeStores, Option.bind_eq_some_iff, Option.ite_none_left_eq_some,
    Option.map_eq_some_iff, Prod.exists] at vectorized
  obtain ⟨plan, detected, -, storeCalls, afterStore, first, laterCalls, later, rfl⟩ := vectorized
  exact ⟨plan, storeCalls, afterStore, laterCalls, detected, first, later, rfl⟩

/-- When the stores are vectorized, each of them has a plan. -/
theorem vectorizeStores_mem
    (vectorized :
      vectorizeStores shapes fresh vectorDimVar outerDimVar vectorDimExtent elementCount
        outerExtent is2d stores nextTemp = some calls)
    (member : store ∈ stores) :
    ∃ plan first storeCalls afterStore,
      detectVectorPlan shapes vectorDimVar outerDimVar vectorDimExtent elementCount store =
          some plan ∧
        vectorizeStoreAsRowBody shapes fresh vectorDimVar outerDimVar plan.innerVecLen
          plan.outerExtent is2d store first = some (storeCalls, afterStore) := by
  induction stores generalizing nextTemp calls with
  | nil => cases member
  | cons head rest ih =>
    obtain ⟨plan, storeCalls, afterStore, laterCalls, detected, first, later, -⟩ :=
      vectorizeStores_cons_eq_some vectorized
    rcases List.mem_cons.mp member with isHead | inRest
    · subst isHead
      exact ⟨plan, nextTemp, storeCalls, afterStore, detected, first⟩
    · exact ih later inRest

/-- Calls that perform each store perform the body. -/
theorem vectorizeStores_performed {Value : Type} {machine : Machine Value}
    {misfit : Int → Value} {callScalars : Var → Value} {callIndices : Var → Int}
    {count : Nat} {initial : Memory Value} {elementCount outerExtent : Int} {is2d : Bool}
    (assign : Store → LoopFission.Assign (String × Int) Value) (stores : List Store)
    (performs :
      ∀ store ∈ stores, ∀ plan nextTemp calls afterTemp,
        detectVectorPlan shapes vectorDimVar outerDimVar vectorDimExtent elementCount store =
            some plan →
          vectorizeStoreAsRowBody shapes fresh vectorDimVar outerDimVar plan.innerVecLen
              plan.outerExtent is2d store nextTemp = some (calls, afterTemp) →
            ∀ memory : Memory Value,
              LoopFission.Performed (assign store) count (visibleCells fresh initial memory)
                (visibleCells fresh initial
                  (runCalls machine misfit callScalars callIndices memory calls)))
    {nextTemp : Nat}
    {calls : List Call}
    (vectorized :
      vectorizeStores shapes fresh vectorDimVar outerDimVar vectorDimExtent elementCount
        outerExtent is2d stores nextTemp = some calls)
    (memory : Memory Value) :
    LoopFission.PerformedInTurn count (stores.map assign) (visibleCells fresh initial memory)
      (visibleCells fresh initial
        (runCalls machine misfit callScalars callIndices memory calls)) := by
  induction stores generalizing nextTemp calls memory with
  | nil =>
    cases vectorized
    rfl
  | cons store rest ih =>
    obtain ⟨plan, storeCalls, afterStore, laterCalls, detected, first, later, rfl⟩ :=
      vectorizeStores_cons_eq_some vectorized
    refine ⟨_, performs store List.mem_cons_self plan nextTemp storeCalls afterStore detected
      first memory, ?_⟩
    rw [runCalls_append]
    apply ih _ later
    intro laterStore member
    exact performs laterStore (List.mem_cons_of_mem _ member)

theorem tryVectorizeBufferStoreSeq_eq_some {hasOuterSerial : Bool} {emitted : Emitted}
    (vectorized :
      tryVectorizeBufferStoreSeq shapes fresh vectorDimVar outerDimVar vectorDimExtent
        elementCount hasOuterSerial stores nextTemp = some emitted) :
    ∃ first rest plan calls, stores = first :: rest ∧
      detectVectorPlan shapes vectorDimVar outerDimVar vectorDimExtent elementCount first =
          some plan ∧
        let is2d :=
          plan.is2dVectorizable &&
            stores.all fun store =>
              checkExpressionSupports2DVectorization vectorDimVar outerDimVar store.value
        vectorizeStores shapes fresh vectorDimVar outerDimVar vectorDimExtent elementCount
            plan.outerExtent is2d stores nextTemp = some calls ∧
          emitted = if is2d || hasOuterSerial || plan.outerExtent == 1 then .calls calls
            else .rowLoop plan.outerIndexVar plan.outerExtent calls := by
  cases stores with
  | nil => cases vectorized
  | cons first rest =>
    simp only [tryVectorizeBufferStoreSeq, Option.bind_eq_some_iff, Option.map_eq_some_iff]
      at vectorized
    obtain ⟨plan, detected, calls, allVectorized, isEmitted⟩ := vectorized
    exact ⟨first, rest, plan, calls, rfl, detected, allVectorized, isEmitted.symm⟩

end Stores

end TilelangAscend.ParallelNest
