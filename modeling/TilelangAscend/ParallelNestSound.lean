import TilelangAscend.ParallelNestPlans

namespace TilelangAscend.ParallelNest

/-!
# When lowering a nest preserves its meaning

Under the conditions on its plan, the calls of every store of a nest perform the store's
assignment, over a row or over the whole block.  Independent iterations may be run one assignment
after the other, so the lowered nest leaves the memory of the serial one.
-/

open ParallelVector (Var IndexExpr Imm BinaryOp UnaryOp Buffer AccessPtr VectorCall Machine Memory
  calculateBufferOffset decomposeExpression inIteration writeLanes isScalarAccess sourceCells
  withoutTemps)

variable {shapes : Shapes} {nest : LoopNest} {indices : Var → Int}

/-! ## What the pass looks at -/

theorem containsVar_of_followsOuter (distinct : nest.outerVar ≠ nest.innerVar)
    {index : IndexExpr} (follows : FollowsOuter nest indices index) :
    index.containsVar nest.outerVar := by
  by_contra absent
  have scalar : isScalarAccess nest.outerVar index := by
    simpa [isScalarAccess] using absent
  have constant :=
    ParallelVector.IndexExpr.eval_of_isScalarAccess scalar (inIteration nest.innerVar indices 0) 1
  have moved := follows 1 0
  simp only [LoopNest.indicesAt, inIteration] at moved constant
  rw [Function.update_comm distinct, Function.update_comm distinct] at moved
  omega

theorem lowerLoads_shape (fresh : Nat → String) (vectorDimVar : Var)
    (outerDimVar : Option Var) (collect is2d : Bool) (outerExtent innerVecLen : Int)
    (expr : Expr) (nextTemp : Nat) : let value :=
      (expr.lowerLoads shapes fresh vectorDimVar outerDimVar collect is2d outerExtent innerVecLen
        nextTemp).value
    value.isZero = (expr.flatten shapes).isZero ∧ value.isScalar = (expr.flatten shapes).isScalar ∧
      value.isLoad = (expr.flatten shapes).isLoad := by
  cases expr with
  | loadVector buffer index =>
    simp only [Expr.lowerLoads]
    split <;> exact ⟨rfl, rfl, rfl⟩
  | _ => exact ⟨rfl, rfl, rfl⟩

theorem decomposes_lowerLoads (fresh : Nat → String) (vectorDimVar : Var)
    (outerDimVar : Option Var) (collect is2d : Bool) (outerExtent innerVecLen : Int)
    (expr : Expr) (nextTemp : Nat) :
    (expr.lowerLoads shapes fresh vectorDimVar outerDimVar collect is2d outerExtent innerVecLen
        nextTemp).value.decomposes =
      (expr.flatten shapes).decomposes := by
  induction expr generalizing nextTemp with
  | imm value => rfl
  | var name => rfl
  | loadVector buffer index =>
    simp only [Expr.lowerLoads]
    split <;> rfl
  | loadMatrix buffer row column => rfl
  | binary op a b ihA ihB =>
    have shapeA :=
      @lowerLoads_shape shapes fresh vectorDimVar outerDimVar collect is2d outerExtent
        innerVecLen a nextTemp
    have shapeB := fun next =>
      @lowerLoads_shape shapes fresh vectorDimVar outerDimVar collect is2d outerExtent
        innerVecLen b next
    simp only [Expr.lowerLoads, Expr.flatten, ParallelVector.Expr.decomposes, ihA,
      ihB, shapeA, shapeB]
  | call op arg ih =>
    exact (@lowerLoads_shape shapes fresh vectorDimVar outerDimVar collect is2d
      outerExtent innerVecLen arg nextTemp).2.2

variable {vectorDimVar : Var} {calls : List Call} {afterTemp : Nat} {outerDimVar : Option Var}

theorem decomposes_of_decomposeLowered {elementCount : Int} {sourceWidth : Option Int}
    {output : AccessPtr} {dst : String} {lowered : LoweredLoads}
    (decomposed :
      decomposeLowered shapes vectorDimVar elementCount sourceWidth output dst lowered =
        some (calls, afterTemp)) :
    lowered.value.decomposes ∧
      (lowered.value.isLoad → sourceWidth.all fun width => width == shapes.width dst) := by
  rw [decomposeLowered] at decomposed
  split at decomposed
  next src index isLoad =>
    simp only [Option.map_eq_some_iff, Prod.mk.injEq] at decomposed
    obtain ⟨copy, generated, -⟩ := decomposed
    rw [isLoad]
    refine ⟨rfl, fun _ => ?_⟩
    cases sourceWidth with
    | none => rfl
    | some width =>
      simp only [generateAscendCopy, Option.ite_none_left_eq_some, Decidable.not_not] at generated
      simp [generated.1]
  next notLoad =>
    simp only [Option.map_eq_some_iff, Prod.exists] at decomposed
    obtain ⟨vectorCalls, nextTemp, decomposed, -⟩ := decomposed
    constructor
    · rw [← ParallelVector.decomposeExpression_isSome, decomposed]
      rfl
    · intro isLoad
      cases isValue : lowered.value with
      | load src index => exact absurd isValue (notLoad src index)
      | _ =>
        rw [isValue] at isLoad
        cases isLoad

theorem sourceWidth_row (vectorDimVar : Var) (outerDimVar other : Option Var)
    (innerVecLen : Int) (expr : Expr) :
    expr.sourceWidth shapes vectorDimVar outerDimVar false innerVecLen =
      expr.sourceWidth shapes vectorDimVar other false innerVecLen := by
  cases expr <;> rfl

theorem sourceWidth_of_not_isLoad {collect : Bool} {innerVecLen : Int} {expr : Expr}
    (notLoad : expr.isLoad = false) :
    expr.sourceWidth shapes vectorDimVar outerDimVar collect innerVecLen = none := by
  cases expr with
  | loadVector buffer index => cases notLoad
  | loadMatrix buffer row column => cases notLoad
  | _ => rfl

theorem isLoad_flatten (expr : Expr) : (expr.flatten shapes).isLoad = expr.isLoad := by
  cases expr <;> rfl

theorem accesses_of_isLoad {expr : Expr} (isLoad : expr.isLoad) :
    ∃ access, expr.accesses = [access] ∧
      expr.flatten shapes = .load access.buffer (access.index shapes) := by
  cases expr with
  | loadVector buffer index => exact ⟨.vector buffer index, rfl, rfl⟩
  | loadMatrix buffer row column => exact ⟨.matrix buffer row column, rfl, rfl⟩
  | _ => cases isLoad

theorem lowers_of_vectorized {fresh : Nat → String} {outerExtent : Int} {store : Store}
    {nextTemp : Nat}
    (vectorized :
      vectorizeStoreAsRowBody shapes fresh nest.innerVar outerDimVar
        (nest.innerVecLen shapes store) outerExtent nest.isBlock store nextTemp =
          some (calls, afterTemp))
    (inBlock : nest.isBlock → outerDimVar = some nest.outerVar) : store.lowers shapes nest := by
  obtain ⟨decomposes, sameWidth⟩ := decomposes_of_decomposeLowered vectorized
  rw [decomposes_lowerLoads] at decomposes
  have sameSource :
      store.value.sourceWidth shapes nest.innerVar outerDimVar
          (store.value.collectsVectors nest.isBlock) (nest.innerVecLen shapes store) =
        store.value.sourceWidth shapes nest.innerVar (some nest.outerVar)
          (store.value.collectsVectors nest.isBlock) (nest.innerVecLen shapes store) := by
    cases isBlock : nest.isBlock with
    | true => rw [inBlock isBlock]
    | false => exact sourceWidth_row _ _ _ _ _
  rw [Store.lowers, decomposes, Bool.true_and, ← sameSource]
  cases isLoad : store.value.isLoad with
  | true =>
    apply sameWidth
    rw [(lowerLoads_shape _ _ _ _ _ _ _ _ _).2.2, isLoad_flatten]
    exact isLoad
  | false =>
    rw [sourceWidth_of_not_isLoad isLoad]
    rfl

/-! ## Rows -/

section Modes

variable {Value : Type} {machine : Machine Value} {misfit : Int → Value} {scalars : Var → Value}

theorem firstIteration (outerPositive : 0 < nest.outerExtent)
    (innerPositive : 0 < nest.innerExtent) : nest.Iteration 0 0 := by
  constructor <;> constructor <;> omega

theorem Access.InBounds.cell_nonneg {access : Access} {outer inner : Int}
    (inBounds : access.InBounds shapes nest indices outer inner) :
    0 ≤ access.cell shapes nest indices outer inner := by
  cases access with
  | vector buffer index => exact inBounds.1
  | matrix buffer row column =>
    have width : 0 ≤ shapes.width buffer :=
      Int.le_of_lt (Int.lt_of_le_of_lt inBounds.2.1 inBounds.2.2)
    exact Int.add_nonneg (Int.mul_nonneg inBounds.1.1 width) inBounds.2.1

variable {store : Store} {outerExtent : Int} {nextTemp afterTemp : Nat} {calls : List Call}
  {index : IndexExpr} {buffer : String}

theorem buffers_used (member : store ∈ nest.body) (id : Nat) :
    store.buffer ≠ freshName nest.buffers id ∧
      ∀ access ∈ store.value.accesses, access.buffer ≠ freshName nest.buffers id := by
  have loaded : ∀ expr : Expr, ∀ access ∈ expr.accesses, access.buffer ∈ expr.buffers := by
    intro expr
    induction expr with
    | imm value => simp [Expr.accesses]
    | var name => simp [Expr.accesses]
    | loadVector buffer index => simp [Expr.accesses, Expr.buffers, Access.buffer]
    | loadMatrix buffer row column => simp [Expr.accesses, Expr.buffers, Access.buffer]
    | binary op a b ihA ihB =>
      intro access member
      rcases List.mem_append.mp member with inLeft | inRight
      · exact List.mem_append_left _ (ihA access inLeft)
      · exact List.mem_append_right _ (ihB access inRight)
    | call op arg ih => exact ih
  constructor
  · exact ne_freshName (List.mem_flatMap.mpr ⟨store, member, List.mem_cons_self⟩) id
  · intro access reads
    apply ne_freshName
    exact List.mem_flatMap.mpr
      ⟨store, member, List.mem_cons_of_mem _ (loaded store.value access reads)⟩

theorem row_leavesLanes (fresh : Nat → String) {store : Store}
    (widthNonneg : 0 ≤ shapes.width store.buffer) {outerDimVar : Option Var}
    {outer innerVecLen outerExtent : Int} {nextTemp afterTemp : Nat} {calls : List Call}
    (vectorized :
      vectorizeStoreAsRowBody shapes fresh nest.innerVar outerDimVar innerVecLen outerExtent
        false store nextTemp = some (calls, afterTemp))
    (bareLoad :
      ∀ src index, store.value.flatten shapes = .load src index →
        copiedBy shapes innerVecLen
            (store.value.sourceWidth shapes nest.innerVar outerDimVar false innerVecLen) src
            store.buffer = innerVecLen ∧
          (0 < innerVecLen →
            store.target.cell shapes nest indices outer 0 = 0 ∧
              0 ≤ (calculateBufferOffset nest.innerVar index).eval
                (inIteration nest.outerVar indices outer))) :
    LeavesLanes machine misfit scalars (inIteration nest.outerVar indices outer) fresh calls
      store.buffer (store.target.cell shapes nest indices outer 0) innerVecLen
      fun memory lane =>
        (store.value.flatten shapes).laneValue machine scalars nest.innerVar
          (inIteration nest.outerVar indices outer) memory lane := by
  rw [vectorizeStoreAsRowBody] at vectorized
  have rowLoads :
      store.value.lowerLoads shapes fresh nest.innerVar outerDimVar
          (store.value.collectsVectors false) false outerExtent innerVecLen nextTemp =
        { value := store.value.flatten shapes, broadcasts := [], nextTemp := nextTemp } :=
    lowerLoads_row _ _ _ _ _ _ _ _
  rw [rowLoads] at vectorized
  have offset :
      (calculateBufferOffset nest.innerVar
          (zeroOuter outerDimVar false (flatIndex shapes store.buffer store.row store.column))).eval
          (inIteration nest.outerVar indices outer) =
        store.target.cell shapes nest indices outer 0 := by
    rw [calculateBufferOffset, ParallelVector.IndexExpr.eval_substituteLoopVars]
    rfl
  have leaves :=
    @decomposeLowered_leavesLanes Value machine misfit scalars
      (inIteration nest.outerVar indices outer) shapes fresh nest.innerVar
      _ _ _ _ _ _ _ vectorized (fun _ _ _ _ => rfl) widthNonneg (offset.symm ▸ bareLoad)
  rw [offset] at leaves
  exact leaves

theorem row_performed (inScope : InScope shapes nest indices)
    (innerPositive : 0 < nest.innerExtent) {outer : Nat}
    (below : outer < nest.outerExtent) (member : store ∈ nest.body)
    (notBlock : nest.isBlock = false) (placed : store.RowPlaced shapes nest)
    (copyFits : store.CopyFits shapes nest indices nest.innerExtent)
    (firstRow : store.value.isLoad → outer = 0) {outerDimVar : Option Var}
    (vectorized :
      vectorizeStoreAsRowBody shapes (freshName nest.buffers) nest.innerVar outerDimVar
        nest.innerExtent outerExtent false store nextTemp = some (calls, afterTemp))
    (initial memory : Memory Value) :
    LoopFission.Performed
      (store.assignAt machine shapes nest indices scalars (rowPosition outer)) nest.innerExtent
      (visibleCells (freshName nest.buffers) initial memory)
      (visibleCells (freshName nest.buffers) initial
        (runCalls machine misfit
          (Function.update scalars nest.outerVar (machine.ofIndex outer))
          (inIteration nest.outerVar indices outer) memory calls)) := by
  have form := inScope.stores_form store member
  have forms := inScope.loads_form store member
  have used := fun id => buffers_used member id
  have bareLoad :
      ∀ src index, store.value.flatten shapes = .load src index →
        copiedBy shapes nest.innerExtent
            (store.value.sourceWidth shapes nest.innerVar outerDimVar false nest.innerExtent) src
            store.buffer = nest.innerExtent ∧
          (0 < (nest.innerExtent : Int) →
            store.target.cell shapes nest indices outer 0 = 0 ∧
              0 ≤ (calculateBufferOffset nest.innerVar index).eval
                (inIteration nest.outerVar indices outer)) := by
    intro src index isFlat
    have isLoad : store.value.isLoad := by
      rw [← @isLoad_flatten shapes, isFlat]
      rfl
    obtain ⟨access, accesses, isAccess⟩ := @accesses_of_isLoad shapes _ isLoad
    obtain ⟨rfl, rfl⟩ := ParallelVector.Expr.load.inj (isFlat.symm.trans isAccess)
    have isFirst := firstRow isLoad
    subst isFirst
    obtain ⟨copied, beginning⟩ := copyFits isLoad
    constructor
    · rw [Store.copied, notBlock] at copied
      cases isValue : store.value with
      | loadVector buffer sourceIndex =>
        rw [isValue] at copied accesses
        cases accesses
        exact copied
      | loadMatrix buffer row column =>
        rw [isValue] at copied
        exact copied
      | _ =>
        rw [isValue] at isLoad
        cases isLoad
    · intro nonempty
      refine ⟨beginning nonempty, ?_⟩
      rw [calculateBufferOffset, ParallelVector.IndexExpr.eval_substituteLoopVars]
      have inBounds :=
        inScope.loads_inBounds store member access (by simp [accesses]) 0 0
          (firstIteration below innerPositive)
      exact (access.eval_index shapes nest indices 0 0).symm ▸ inBounds.cell_nonneg
  have leaves :=
    @row_leavesLanes shapes nest indices Value machine misfit
      (Function.update scalars nest.outerVar (machine.ofIndex outer)) (freshName nest.buffers) _
      (Int.le_of_lt (inScope.widths_positive store member)) _ outer _ _ _ _ _ vectorized bareLoad
  apply performed_of_leavesLanes leaves (fun id => (used id).1)
    (fun access reads id => (used id).2 access reads)
  · intro number _
    exact Store.cell_row form outer number
  · intro current number within
    apply laneValue_row machine scalars current forms (inScope.vars_invariant store member).2
    rcases placed with oneColumn | loadsPlaced
    · left
      omega
    · exact Or.inr loadsPlaced

/-! ## Blocks -/

theorem canBroadcast_of_loadsSupport2D {containsMatrix : Bool} {expr : Expr}
    (supports : expr.loadsSupport2D nest.innerVar (some nest.outerVar) nest.outerVar containsMatrix)
    (reads : .vector buffer index ∈ expr.accesses)
    (form : (Access.vector buffer index).HasForm nest indices) :
    containsMatrix = false ∧ (canBroadcast nest.innerVar (some nest.outerVar) index).isSome := by
  induction expr with
  | imm value => cases reads
  | var name => cases reads
  | loadVector source sourceIndex =>
    obtain ⟨rfl, rfl⟩ := Access.vector.inj (List.mem_singleton.mp reads)
    have notBoth :
        (index.containsVar nest.innerVar && index.containsVar nest.outerVar) = false := by
      rcases form with ⟨-, absent⟩ | ⟨-, absent⟩
      · rw [absent, Bool.and_false]
      · rw [absent, Bool.false_and]
    rw [Expr.loadsSupport2D, notBoth, Bool.false_or, Bool.and_eq_true, Bool.not_eq_true']
      at supports
    exact supports
  | loadMatrix source row column => cases List.mem_singleton.mp reads
  | binary op a b ihA ihB =>
    rw [Expr.loadsSupport2D, Bool.and_eq_true] at supports
    rcases List.mem_append.mp reads with inLeft | inRight
    · exact ihA supports.1 inLeft
    · exact ihB supports.2 inRight
  | call op arg ih => exact ih supports reads

/-- In a block every vector that is read is broadcast. -/
theorem collected_of_isBlock (inScope : InScope shapes nest indices)
    (isBlock : nest.isBlock) (member : store ∈ nest.body)
    (reads : .vector buffer index ∈ store.value.accesses) :
    store.value.collectsVectors true ∧
      (canBroadcast nest.innerVar (some nest.outerVar) index).isSome := by
  rw [LoopNest.isBlock, Bool.and_eq_true, List.all_eq_true] at isBlock
  obtain ⟨noMatrix, canBroadcast⟩ :=
    canBroadcast_of_loadsSupport2D (isBlock.2 store member) reads
      (inScope.loads_form store member _ reads)
  rw [Expr.collectsVectors, noMatrix]
  exact ⟨rfl, canBroadcast⟩

theorem block_bareLoad (inScope : InScope shapes nest indices) (isBlock : nest.isBlock)
    (member : store ∈ nest.body)
    (copyFits : store.CopyFits shapes nest indices ((nest.innerExtent : Int) * nest.outerExtent))
    (fresh : Nat → String)
    (unbound innerVecLen outerExtent : Int)
    (nextTemp : Nat)
    {src : String}
    (isLowered :
      (store.value.lowerLoads shapes fresh nest.innerVar (some nest.outerVar)
        (store.value.collectsVectors true) true outerExtent innerVecLen nextTemp).value =
          .load src index) :
    copiedBy shapes ((nest.innerExtent : Int) * nest.outerExtent)
        (store.value.sourceWidth shapes nest.innerVar (some nest.outerVar)
          (store.value.collectsVectors true) innerVecLen) src store.buffer =
        (nest.innerExtent : Int) * nest.outerExtent ∧
      (0 < (nest.innerExtent : Int) * nest.outerExtent →
        store.target.cell shapes nest indices 0 0 = 0 ∧
          0 ≤ (calculateBufferOffset nest.innerVar index).eval
            (inIteration nest.outerVar indices unbound)) := by
  have isLoad : store.value.isLoad := by
    rw [← @isLoad_flatten shapes, ← (lowerLoads_shape _ _ _ _ _ _ _ _ _).2.2, isLowered]
    rfl
  obtain ⟨copied, beginning⟩ := copyFits isLoad
  cases isValue : store.value with
  | loadVector buffer sourceIndex =>
    have reads : .vector buffer sourceIndex ∈ store.value.accesses := by
      rw [isValue]
      exact List.mem_cons_self
    obtain ⟨collects, found⟩ := collected_of_isBlock inScope isBlock member reads
    obtain ⟨dim, isDim⟩ := Option.isSome_iff_exists.mp found
    rw [collects, isValue] at isLowered
    rw [isValue] at collects
    rw [Store.copied, isValue] at copied
    simp only [isBlock, ↓reduceIte] at copied
    simp only [Expr.lowerLoads, isDim, ↓reduceIte] at isLowered
    obtain ⟨-, rfl⟩ := ParallelVector.Expr.load.inj isLowered
    simp only [Expr.sourceWidth, collects, found, Bool.and_true, ↓reduceIte]
    exact ⟨copied, fun nonempty => ⟨beginning nonempty, Int.le_refl 0⟩⟩
  | loadMatrix buffer row column =>
    rw [Store.copied, isValue] at copied
    rw [isValue] at isLowered
    obtain ⟨-, rfl⟩ := ParallelVector.Expr.load.inj isLowered
    refine ⟨copied, fun nonempty => ⟨beginning nonempty, ?_⟩⟩
    rw [eval_zeroOuter inScope.distinct]
    have reads : .matrix buffer row column ∈ store.value.accesses := by
      rw [isValue]
      exact List.mem_cons_self
    have positive : 0 < nest.innerExtent * nest.outerExtent := by exact_mod_cast nonempty
    have inBounds :=
      inScope.loads_inBounds store member _ reads 0 0
        (firstIteration (Nat.pos_of_mul_pos_left positive) (Nat.pos_of_mul_pos_right positive))
    exact inBounds.cell_nonneg
  | _ =>
    rw [isValue] at isLoad
    cases isLoad

/-- The calls of a store in a block leave the lanes of the serial nest. -/
theorem block_leavesLanes (inScope : InScope shapes nest indices) (isBlock : nest.isBlock)
    {store : Store} (member : store ∈ nest.body)
    (copyFits : store.CopyFits shapes nest indices ((nest.innerExtent : Int) * nest.outerExtent))
    (fresh : Nat → String)
    (unbound : Int)
    {innerVecLen outerExtent : Int}
    (product : innerVecLen * outerExtent = (nest.innerExtent : Int) * nest.outerExtent)
    {nextTemp afterTemp : Nat}
    {calls : List Call}
    (vectorized :
      vectorizeStoreAsRowBody shapes fresh nest.innerVar (some nest.outerVar) innerVecLen
        outerExtent true store nextTemp = some (calls, afterTemp)) :
    LeavesLanes machine misfit scalars (inIteration nest.outerVar indices unbound) fresh calls
      store.buffer (store.target.cell shapes nest indices 0 0)
      ((nest.outerExtent * nest.innerExtent : Nat) : Int) fun memory lane =>
        let lowered :=
          store.value.lowerLoads shapes fresh nest.innerVar (some nest.outerVar)
            (store.value.collectsVectors true) true outerExtent innerVecLen nextTemp
        lowered.value.laneValue machine scalars nest.innerVar
          (inIteration nest.outerVar indices unbound)
          (runCalls machine misfit scalars (inIteration nest.outerVar indices unbound) memory
            lowered.broadcasts) lane := by
  rw [vectorizeStoreAsRowBody, totalElements, if_pos rfl, product] at vectorized
  have offset :=
    @eval_zeroOuter nest indices inScope.distinct unbound
      (flatIndex shapes store.buffer store.row store.column)
  have leaves :=
    @decomposeLowered_leavesLanes Value machine misfit scalars
      (inIteration nest.outerVar indices unbound) shapes fresh nest.innerVar
      _ _ _ _ _ _ _ vectorized
      (fun current name cell isUsed =>
        runCalls_broadcasts_kept _ _ _ _ _ _ _ _ _ _ _ _ (fun id _ _ => isUsed id) current cell)
      (Int.le_of_lt (inScope.widths_positive store member))
      fun src index isLowered =>
        offset.symm ▸ block_bareLoad inScope isBlock member copyFits fresh unbound innerVecLen
          outerExtent nextTemp isLowered
  have count :
      (nest.innerExtent : Int) * nest.outerExtent =
        ((nest.outerExtent * nest.innerExtent : Nat) : Int) := by
    push_cast
    exact Int.mul_comm _ _
  rw [offset, count] at leaves
  exact leaves

/-- The calls of a store in a block perform it. -/
theorem block_performed (inScope : InScope shapes nest indices) (isBlock : nest.isBlock)
    (member : store ∈ nest.body)
    (accessesFit :
      nest.outerExtent * nest.innerExtent = 0 ∨
        (∀ access ∈ store.target :: store.value.accesses, access.FitsBlock shapes nest) ∧
          store.value.vectorsPlaced nest)
    (copyFits : store.CopyFits shapes nest indices ((nest.innerExtent : Int) * nest.outerExtent))
    {innerVecLen unbound : Int}
    (product : innerVecLen * outerExtent = (nest.innerExtent : Int) * nest.outerExtent)
    (extents :
      nest.outerExtent * nest.innerExtent ≠ 0 →
        innerVecLen = nest.innerExtent ∧ outerExtent = nest.outerExtent)
    (vectorized :
      vectorizeStoreAsRowBody shapes (freshName nest.buffers) nest.innerVar (some nest.outerVar)
        innerVecLen outerExtent true store nextTemp = some (calls, afterTemp))
    (initial memory : Memory Value) :
    LoopFission.Performed
      (store.assignAt machine shapes nest indices scalars (blockPosition nest))
      (nest.outerExtent * nest.innerExtent)
      (visibleCells (freshName nest.buffers) initial memory)
      (visibleCells (freshName nest.buffers) initial
        (runCalls machine misfit scalars (inIteration nest.outerVar indices unbound) memory
          calls)) := by
  have form := inScope.stores_form store member
  have used := fun id => buffers_used member id
  have leaves :=
    @block_leavesLanes shapes nest indices Value machine misfit scalars inScope isBlock store
      member copyFits (freshName nest.buffers) unbound _ _ product _ _ _ vectorized
  apply performed_of_leavesLanes leaves (fun id => (used id).1)
    (fun access reads id => (used id).2 access reads)
  · intro number within
    have nonempty := Nat.ne_of_gt (Nat.lt_of_le_of_lt (Nat.zero_le _) within)
    have fits := (accessesFit.resolve_left nonempty).1 store.target List.mem_cons_self
    exact Access.cell_block form fits within
  · intro current number within
    have nonempty := Nat.ne_of_gt (Nat.lt_of_le_of_lt (Nat.zero_le _) within)
    obtain ⟨fits, placed⟩ := accessesFit.resolve_left nonempty
    obtain ⟨rfl, rfl⟩ := extents nonempty
    have fitsBlock :
        store.value.FitsBlock shapes nest indices (freshName nest.buffers)
          (store.value.collectsVectors true) := by
      refine ⟨inScope.loads_form store member, ?_, ?_, ?_, inScope.vars_invariant store member⟩
      · intro access reads
        exact fits access (List.mem_cons_of_mem _ reads)
      · intro buffer index reads
        exact (collected_of_isBlock inScope isBlock member reads).1
      · intro access reads id
        exact (used id).2 access reads
    exact laneValue_lowerInBlock machine misfit scalars unbound (freshName_injective _)
      inScope.distinct within
      (fun name cell isUsed =>
        runCalls_broadcasts_kept _ _ _ _ _ _ _ _ _ _ _ _ (fun id _ _ => isUsed id) current cell)
      store.value fitsBlock placed nextTemp current (fun _ _ _ => rfl) (fun _ _ _ _ => rfl)

end Modes

end TilelangAscend.ParallelNest
