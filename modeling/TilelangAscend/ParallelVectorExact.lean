import TilelangAscend.ParallelVectorSound

namespace TilelangAscend.ParallelVector

/-!
# Which parallel loops change their meaning

A misplaced loop-invariant load is read one cell further in every lane, and a copied load lands at
the beginning of its buffer.  This module exhibits memories that show both, and concludes that a
loop with a single store keeps its meaning exactly when it has neither shape.
-/

/-! ## A single store -/

section SingleStore

variable {Value : Type} {machine : Machine Value} {scalars : Var → Value}
  {indices : Var → Int} {loop : ParallelLoop} {store : Store}

theorem runLoop_written (inScope : InScope loop indices) (single : loop.body = [store])
    (memory : Memory Value) {iteration : Nat} (below : (iteration : Int) < loop.extent) :
    runLoop machine scalars loop indices memory (.named store.buffer)
        (store.index.eval (inIteration loop.loopVar indices iteration)) =
      store.value.evalIn machine scalars loop.loopVar indices memory iteration := by
  have independent := inScope.assigns_independent machine scalars
  have serial :=
    sourceCells_runIterations machine scalars loop.loopVar indices loop.body memory
      loop.extent.toNat
  rw [single] at independent serial
  have writes :
      LoopFission.Writes ([store].map (Store.assign machine scalars loop.loopVar indices))
        iteration
        (store.buffer, store.index.eval (inIteration loop.loopVar indices iteration)) :=
    ⟨_, List.mem_singleton_self _, rfl⟩
  have inTurn :=
    @LoopFission.runSerial_written _ _ _ _ (sourceCells memory) _ _ _ _ independent
      (Nat.le_refl _) (by omega) writes
  have alone :
      LoopFission.runIteration
          ([store].map (Store.assign machine scalars loop.loopVar indices)) iteration
          (sourceCells memory)
          (store.buffer, store.index.eval (inIteration loop.loopVar indices iteration)) =
        store.value.evalIn machine scalars loop.loopVar indices memory iteration := by
    rw [← assign_value]
    exact Function.update_self _ _ _
  rw [runLoop, single]
  exact (congrFun serial _).trans (inTurn.trans alone)

theorem runLoop_kept (single : loop.body = [store]) (memory : Memory Value)
    {name : String} {cell : Int}
    (unwritten :
      ∀ iteration : Nat, (iteration : Int) < loop.extent →
        store.buffer = name →
          store.index.eval (inIteration loop.loopVar indices iteration) ≠ cell) :
    runLoop machine scalars loop indices memory (.named name) cell = memory (.named name) cell := by
  have serial :=
    sourceCells_runIterations machine scalars loop.loopVar indices loop.body memory
      loop.extent.toNat
  have kept :=
    @LoopFission.runSerial_kept _ _ _
      (loop.body.map (Store.assign machine scalars loop.loopVar indices)) (sourceCells memory)
      (name, cell) loop.extent.toNat (by
        rintro iteration below ⟨assign, member, isTarget⟩
        rw [single, List.map_singleton, List.mem_singleton] at member
        subst member
        simp only [Store.assign, Prod.mk.injEq] at isTarget
        exact unwritten iteration (by omega) isTarget.1 isTarget.2)
  exact (congrFun serial (name, cell)).trans kept

theorem visitFor_single (inScope : InScope loop indices) (single : loop.body = [store])
    (nonempty : 0 < loop.extent) (decomposes : store.value.decomposes) (nextTemp : Nat) :
    ∃ calls, visitFor loop nextTemp = .vector calls ∧
      ∀ (Value : Type) (machine : Machine Value) (scalars : Var → Value),
        Computes machine scalars indices loop.extent calls (storeOutput loop.loopVar store)
          nextTemp fun memory lane =>
            store.value.laneValue machine scalars loop.loopVar indices memory lane := by
  have member : store ∈ loop.body := by simp [single]
  have planned : detectVectorPlan loop.loopVar loop.extent store = true := by
    have notScalar := (inScope.stores_unitStride store member).not_isScalarAccess
    simp only [isScalarAccess, Bool.not_eq_false'] at notScalar
    simp [detectVectorPlan, notScalar, nonempty]
  have found : (vectorizeStoreAsRowBody loop.loopVar loop.extent store nextTemp).isSome := by
    rw [vectorizeStoreAsRowBody, decomposeExpression_isSome]
    exact decomposes
  obtain ⟨⟨calls, afterTemp⟩, vectorized⟩ := Option.isSome_iff_exists.mp found
  refine ⟨calls, ?_, ?_⟩
  · simp [visitFor, tryVectorizeBufferStoreSeq, single, vectorizeStores, planned, vectorized]
  · intro Value machine scalars
    exact vectorizeStoreAsRowBody_computes vectorized

end SingleStore

/-! ## Misplaced loads -/

/-- Sums of what is loaded: every operation adds, and immediates are zero. -/
def sumMachine : Machine Int where
  ofImm _ := 0
  ofIndex _ := 0
  binary _ a b := a + b
  unary _ value := value
  relu value := value
  max_zero_left := by simp
  max_zero_right := by simp

/-- The memory where every cell holds its own index. -/
def indexMemory : Memory Int :=
  fun _ cell => cell

/-- Zero when a condition holds and one when it does not. -/
def shortfall (holds : Bool) : Int :=
  if holds then 0 else 1

theorem shortfall_and_le (first second : Bool) :
    shortfall (first && second) ≤ shortfall first + shortfall second := by
  cases first <;> cases second <;> simp [shortfall]

theorem second_lane_index {loopVar : Var} {indices : Var → Int} {index : IndexExpr}
    (access : UnitStride loopVar indices index ∨ isScalarAccess loopVar index) :
    index.eval (inIteration loopVar indices 1) + shortfall (!isScalarAccess loopVar index) =
      (calculateBufferOffset loopVar index).eval indices + 1 := by
  rcases access with unitStride | scalar
  · rw [lane_index (Or.inl unitStride), unitStride.not_isScalarAccess]
    simp [shortfall]
  · rw [calculateBufferOffset, IndexExpr.eval_substituteLoopVars,
      IndexExpr.eval_of_isScalarAccess scalar, scalar]
    rfl

/-- In the second lane a misplaced load is read one cell too far, so the sum of the loaded indices
comes out too large. -/
theorem evalIn_le_laneValue {loopVar : Var} {indices : Var → Int} (expr : Expr)
    (loads :
      ∀ access ∈ expr.loads,
        UnitStride loopVar indices access.2 ∨ isScalarAccess loopVar access.2) :
    expr.evalIn sumMachine (fun _ => 0) loopVar indices indexMemory 1 +
        shortfall (expr.loadsPlaced loopVar) ≤
      expr.laneValue sumMachine (fun _ => 0) loopVar indices indexMemory 1 := by
  induction expr with
  | imm value => simp [Expr.evalIn, Expr.eval, Expr.laneValue, Expr.loadsPlaced, shortfall]
  | var name =>
    have zero :
        Function.update (fun _ : Var => (0 : Int)) loopVar (sumMachine.ofIndex 1) name = 0 := by
      by_cases same : name = loopVar <;> simp [same, sumMachine]
    simp [Expr.evalIn, Expr.eval, Expr.laneValue, Expr.loadsPlaced, zero, shortfall]
  | load buffer index =>
    have second := second_lane_index (loads (buffer, index) (by simp [Expr.loads]))
    simp only [Expr.evalIn, Expr.eval, Expr.laneValue, Expr.loadsPlaced, indexMemory, second,
      le_refl]
  | call op arg ih => exact ih loads
  | binary op a b ihA ihB =>
    simp only [Expr.loads, List.mem_append] at loads
    have left := ihA fun access member => loads access (Or.inl member)
    have right :
        b.evalIn sumMachine (fun _ => 0) loopVar indices indexMemory 1 +
            shortfall (rightPlaced loopVar op (b.loadsPlaced loopVar) b) ≤
          rightLane loopVar indices op indexMemory
            (b.laneValue sumMachine (fun _ => 0) loopVar indices indexMemory 1) b := by
      cases b with
      | load buffer index =>
        have access := loads (buffer, index) (Or.inr (by simp [Expr.loads]))
        have second := second_lane_index access
        simp only [Expr.evalIn, Expr.eval, Expr.laneValue, rightLane, rightPlaced, indexMemory]
        cases scalar : isScalarAccess loopVar index with
        | false =>
          rw [scalar] at second
          simp only [Bool.false_and, Bool.false_eq_true, ↓reduceIte, Bool.not_false, Bool.true_or]
          exact le_of_eq second
        | true =>
          rw [scalar] at second
          cases form : op.hasScalarForm with
          | false =>
            simp only [Bool.and_false, Bool.false_eq_true, ↓reduceIte, Bool.or_false]
            exact le_of_eq second
          | true =>
            simp only [Bool.and_true, ↓reduceIte, Bool.or_true, shortfall]
            simp only [shortfall, Bool.not_true, Bool.false_eq_true, ↓reduceIte] at second
            omega
      | _ => exact ihB fun access member => loads access (Or.inr member)
    have both :=
      shortfall_and_le (a.loadsPlaced loopVar) (rightPlaced loopVar op (b.loadsPlaced loopVar) b)
    simp only [Expr.evalIn] at left right
    simp only [Expr.evalIn, Expr.eval, Expr.laneValue, Expr.loadsPlaced, sumMachine] at *
    omega

section Failures

variable {indices : Var → Int} {loop : ParallelLoop} {store : Store}

theorem not_preservesMeaning_of_misplaced (inScope : InScope loop indices)
    (single : loop.body = [store]) (several : 1 < loop.extent)
    (decomposes : store.value.decomposes)
    (offset :
      (storeOutput loop.loopVar store).offset.eval indices =
        store.index.eval (inIteration loop.loopVar indices 0))
    (misplaced : store.value.loadsPlaced loop.loopVar = false)
    (nextTemp : Nat) : ¬ PreservesMeaning loop nextTemp indices := by
  intro preserves
  have member : store ∈ loop.body := by simp [single]
  obtain ⟨calls, lowered, computes⟩ := visitFor_single inScope single (by omega) decomposes nextTemp
  have same := preserves Int sumMachine (fun _ => 0) indexMemory store.buffer
  rw [lowered] at same
  have sameCell := congrFun same (store.index.eval (inIteration loop.loopVar indices 1))
  have vector := (computes Int sumMachine (fun _ => 0)).lanes indexMemory 1 (by omega) several
  have serial :=
    @runLoop_written Int sumMachine (fun _ => 0) indices loop store inScope single indexMemory 1
      several
  have tooLarge := evalIn_le_laneValue store.value (inScope.loads_unitStride_or_scalar store member)
  rw [offset, ← inScope.stores_unitStride store member 1] at vector
  rw [misplaced] at tooLarge
  simp only [shortfall, Bool.false_eq_true, ↓reduceIte] at tooLarge
  have contradiction := (vector.symm.trans sameCell).trans serial
  simp only [Nat.cast_one] at contradiction
  omega

/-! ## Copies to the wrong place -/

/-- The memory where one cell of one buffer holds a one. -/
def markMemory (name : String) (cell : Int) : Memory Int :=
  fun buffer position => if buffer = .named name ∧ position = cell then 1 else 0

theorem markMemory_eq_one {name : String} {cell : Int} {buffer : String} {position : Int} :
    markMemory name cell (.named buffer) position = 1 ↔ buffer = name ∧ position = cell := by
  simp [markMemory]

theorem not_preservesMeaning_of_shifted {source : String} {sourceIndex : IndexExpr}
    (inScope : InScope loop indices) (single : loop.body = [store])
    (nonempty : 0 < loop.extent) (isLoad : store.value = .load source sourceIndex)
    (shifted : (calculateBufferOffset loop.loopVar store.index).eval indices ≠ 0)
    (nextTemp : Nat) : ¬ PreservesMeaning loop nextTemp indices := by
  intro preserves
  have member : store ∈ loop.body := by simp [single]
  have unitStride := inScope.stores_unitStride store member
  rw [calculateBufferOffset, IndexExpr.eval_substituteLoopVars] at shifted
  obtain ⟨calls, lowered, computes⟩ :=
    visitFor_single inScope single nonempty (by rw [isLoad]; rfl) nextTemp
  -- Mark the cell that the first iteration loads.
  have same :=
    preserves Int sumMachine (fun _ => 0)
      (markMemory source (sourceIndex.eval (inIteration loop.loopVar indices 0))) store.buffer
  rw [lowered] at same
  have lanes := (computes Int sumMachine (fun _ => 0)).lanes
    (markMemory source (sourceIndex.eval (inIteration loop.loopVar indices 0)))
  have kept := (computes Int sumMachine (fun _ => 0)).kept
    (markMemory source (sourceIndex.eval (inIteration loop.loopVar indices 0)))
  simp only [storeOutput, isLoad, Expr.isLoad, ↓reduceIte, IndexExpr.eval, Int.zero_add,
    Expr.laneValue, calculateBufferOffset, IndexExpr.eval_substituteLoopVars] at lanes
  have serialAt :
      ∀ iteration : Nat, (iteration : Int) < loop.extent →
        runLoop sumMachine (fun _ => 0) loop indices
            (markMemory source (sourceIndex.eval (inIteration loop.loopVar indices 0)))
            (.named store.buffer)
            (store.index.eval (inIteration loop.loopVar indices iteration)) =
          markMemory source (sourceIndex.eval (inIteration loop.loopVar indices 0))
            (.named source) (sourceIndex.eval (inIteration loop.loopVar indices iteration)) := by
    intro iteration below
    rw [runLoop_written inScope single _ below, isLoad]
    rfl
  have vectorFirst := (congrFun same _).trans (serialAt 0 nonempty)
  rw [Nat.cast_zero, markMemory_eq_one.mpr ⟨rfl, rfl⟩, runLowered] at vectorFirst
  by_cases inside :
      0 ≤ store.index.eval (inIteration loop.loopVar indices 0) ∧
        store.index.eval (inIteration loop.loopVar indices 0) < loop.extent
  · -- The first target lies in the copied range, where it receives a later element.
    rw [lanes _ inside.1 inside.2, markMemory_eq_one] at vectorFirst
    omega
  · rw [kept, markMemory_eq_one] at vectorFirst
    · obtain ⟨sameBuffer, sameCell⟩ := vectorFirst
      have vectorZero := lanes 0 (by omega) nonempty
      rw [Int.add_zero, markMemory_eq_one.mpr ⟨rfl, rfl⟩] at vectorZero
      have serialZero := (congrFun same 0).symm.trans vectorZero
      by_cases written :
          ∃ iteration : Nat, (iteration : Int) < loop.extent ∧
            store.index.eval (inIteration loop.loopVar indices iteration) = 0
      · obtain ⟨iteration, below, isZero⟩ := written
        have later : (0 : Int) ≠ iteration := by
          intro isFirst
          rw [← isFirst] at isZero
          exact shifted isZero
        have loaded := serialAt iteration below
        rw [isZero, serialZero] at loaded
        have sameSource := (markMemory_eq_one.mp loaded.symm).2
        -- A later iteration loads the marked cell, which the first one writes.
        have apart :=
          inScope.independent 0 iteration (by omega) nonempty (by omega) below later
            store.buffer (store.index.eval (inIteration loop.loopVar indices 0))
            ⟨store, member, rfl, rfl⟩
        apply apart.2
        refine ⟨store, member, sourceIndex, ?_, ?_⟩
        · rw [isLoad, sameBuffer]
          exact List.mem_singleton_self _
        · rw [sameCell]
          exact sameSource
      · have untouched :=
          @runLoop_kept Int sumMachine (fun _ => 0) indices loop store single
            (markMemory source (sourceIndex.eval (inIteration loop.loopVar indices 0)))
            store.buffer 0 (by
              intro iteration below _ isZero
              exact written ⟨iteration, below, isZero⟩)
        rw [serialZero] at untouched
        have zeroMarked := (markMemory_eq_one.mp untouched.symm).2
        omega
    · rintro ⟨-, fromStart, belowEnd⟩
      simp only [storeOutput, isLoad, Expr.isLoad, ↓reduceIte, IndexExpr.eval, Int.zero_add]
        at fromStart belowEnd
      exact inside ⟨fromStart, belowEnd⟩
    · intro id _ isTemp
      cases isTemp

end Failures

/-! ## Main result -/

theorem vectorSafe_of_preservesMeaning {loop : ParallelLoop} {indices : Var → Int}
    {store : Store} {nextTemp : Nat} (inScope : InScope loop indices)
    (single : loop.body = [store]) (preserves : PreservesMeaning loop nextTemp indices) :
    VectorSafe loop indices := by
  by_contra unsafeLoop
  simp only [VectorSafe, not_or, single, List.mem_singleton, exists_eq_left, forall_eq,
    Bool.not_eq_false, Int.not_le] at unsafeLoop
  obtain ⟨nonempty, decomposes, notPlaced⟩ := unsafeLoop
  by_cases lost :
      store.value.isLoad ∧ (calculateBufferOffset loop.loopVar store.index).eval indices ≠ 0
  · cases isValue : store.value with
    | load source sourceIndex =>
      exact not_preservesMeaning_of_shifted inScope single nonempty isValue lost.2 nextTemp
        preserves
    | _ => simp [isValue, Expr.isLoad] at lost
  · have zeroOffset :
        store.value.isLoad → (calculateBufferOffset loop.loopVar store.index).eval indices = 0 := by
      intro isLoad
      by_contra nonzero
      exact lost ⟨isLoad, nonzero⟩
    have misplaced : ¬ (loop.extent = 1 ∨ store.value.loadsPlaced loop.loopVar) := by
      intro placed
      exact notPlaced ⟨placed, zeroOffset⟩
    rw [not_or, Bool.not_eq_true] at misplaced
    exact not_preservesMeaning_of_misplaced inScope single (by omega) decomposes
      (storeOutput_offset zeroOffset) misplaced.2 nextTemp preserves

/-- A parallel loop in scope that is safe to vectorize keeps its meaning, and a loop over a single
store keeps its meaning only then. -/
theorem lowerParallel_preserves_vectorSafe
    (loop : ParallelLoop)
    (indices : Var → Int)
    (nextTemp : Nat)
    (inScope : InScope loop indices) :
    (VectorSafe loop indices → PreservesMeaning loop nextTemp indices) ∧
      ∀ store, loop.body = [store] →
        (PreservesMeaning loop nextTemp indices ↔ VectorSafe loop indices) := by
  refine ⟨fun safe => preservesMeaning_of_vectorSafe inScope safe nextTemp, ?_⟩
  intro store single
  constructor
  · exact vectorSafe_of_preservesMeaning inScope single
  · intro safe
    exact preservesMeaning_of_vectorSafe inScope safe nextTemp

/-- The index `j + offset`. -/
def atLane (offset : Int) : IndexExpr :=
  .add (.var "j") (.imm offset)

theorem unitStride_atLane (indices : Var → Int) (offset : Int) :
    UnitStride "j" indices (atLane offset) := by
  intro iteration
  simp only [atLane, IndexExpr.eval, inIteration, Function.update_self]
  omega

/-- A loop that scales a vector by one element and then adds the exponential of another one. -/
def scaleLoop : ParallelLoop where
  loopVar := "j"
  extent := 4
  body :=
    [{ buffer := "t", index := atLane 0,
       value := .binary .mul (.load "a" (atLane 2)) (.load "s" (.imm 3)) },
     { buffer := "out", index := atLane 8,
       value := .binary .add (.binary .max (.load "t" (atLane 0)) (.var "x"))
         (.call .exp (.load "b" (atLane 0))) }]

theorem scaleLoop_inScope : InScope scaleLoop fun _ => 0 where
  stores_unitStride := by
    intro store member
    simp only [scaleLoop, List.mem_cons, List.not_mem_nil, or_false] at member
    rcases member with rfl | rfl <;> exact unitStride_atLane _ _
  loads_unitStride_or_scalar := by
    intro store member access loaded
    simp only [scaleLoop, List.mem_cons, List.not_mem_nil, or_false] at member
    rcases member with rfl | rfl
    · simp only [Expr.loads, List.mem_append, List.mem_singleton] at loaded
      rcases loaded with rfl | rfl
      · exact Or.inl (unitStride_atLane _ _)
      · exact Or.inr rfl
    · simp only [Expr.loads, List.append_nil, List.mem_append, List.mem_singleton] at loaded
      rcases loaded with rfl | rfl <;> exact Or.inl (unitStride_atLane _ _)
  vars_invariant := by decide
  independent := by
    rintro writer other - - - - distinct buffer cell ⟨store, member, rfl, rfl⟩
    simp only [scaleLoop, List.mem_cons, List.not_mem_nil, or_false] at member
    rcases member with rfl | rfl <;>
      simp [ParallelLoop.Writes, ParallelLoop.Reads, scaleLoop, Expr.loads, atLane,
        IndexExpr.eval, inIteration] <;> omega

/-- The scaling loop is vectorized and keeps its meaning. -/
theorem lowerParallel_preserves_scaleLoop :
    (∃ calls, visitFor scaleLoop 0 = .vector calls) ∧ VectorSafe scaleLoop (fun _ => 0) ∧
      PreservesMeaning scaleLoop 0 (fun _ => 0) := by
  have safe : VectorSafe scaleLoop (fun _ => 0) := by
    refine Or.inr (Or.inr ?_)
    intro store member
    simp only [scaleLoop, List.mem_cons, List.not_mem_nil, or_false] at member
    rcases member with rfl | rfl <;> exact ⟨Or.inr rfl, fun isLoad => by cases isLoad⟩
  refine ⟨⟨_, rfl⟩, safe, ?_⟩
  exact (lowerParallel_preserves_vectorSafe scaleLoop (fun _ => 0) 0 scaleLoop_inScope).1 safe

/-- A loop that adds a vector to one element: `out[j] = s[0] + a[j]`. -/
def leftScalarLoop : ParallelLoop where
  loopVar := "j"
  extent := 2
  body :=
    [{ buffer := "out", index := atLane 0,
       value := .binary .add (.load "s" (.imm 0)) (.load "a" (atLane 0)) }]

theorem leftScalarLoop_inScope : InScope leftScalarLoop fun _ => 0 where
  stores_unitStride := by
    intro store member
    simp only [leftScalarLoop, List.mem_singleton] at member
    subst member
    exact unitStride_atLane _ _
  loads_unitStride_or_scalar := by
    intro store member access loaded
    simp only [leftScalarLoop, List.mem_singleton] at member
    subst member
    simp only [Expr.loads, List.mem_append, List.mem_singleton] at loaded
    rcases loaded with rfl | rfl
    · exact Or.inr rfl
    · exact Or.inl (unitStride_atLane _ _)
  vars_invariant := by decide
  independent := by
    rintro writer other - - - - distinct buffer cell ⟨store, member, rfl, rfl⟩
    simp only [leftScalarLoop, List.mem_singleton] at member
    subst member
    simp [ParallelLoop.Writes, ParallelLoop.Reads, leftScalarLoop, Expr.loads, atLane,
      IndexExpr.eval, inIteration]
    omega

/-- With an element on the left of an addition, the second lane adds the element after it. -/
theorem lowerParallel_changes_leftScalarLoop :
    InScope leftScalarLoop (fun _ => 0) ∧ ¬ PreservesMeaning leftScalarLoop 0 (fun _ => 0) := by
  refine ⟨leftScalarLoop_inScope, ?_⟩
  intro preserves
  have second := congrFun (preserves Int sumMachine (fun _ => 0) indexMemory "out") 1
  revert second
  decide

end TilelangAscend.ParallelVector
