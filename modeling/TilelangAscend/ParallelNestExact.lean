import TilelangAscend.ParallelNestMisreads

namespace TilelangAscend.ParallelNest

/-!
# Which nests change their meaning

A flat call over a matrix of wider rows misses the last element of the block, and what it reads
there lies before the element it should read; a row that is not bound is written elsewhere.  This
module exhibits memories that show each of these, and concludes that a nest with a single store
that is not a copy keeps its meaning exactly when its plan meets the condition.
-/

open ParallelVector (Var IndexExpr Imm BinaryOp UnaryOp Buffer AccessPtr VectorCall Machine Memory
  calculateBufferOffset decomposeExpression inIteration writeLanes isScalarAccess sourceCells
  withoutTemps sumMachine indexMemory shortfall)

/-! ## Memories that show a failure -/

/-- Every operation gives zero. -/
def zeroMachine : Machine Int where
  ofImm _ := 0
  ofIndex _ := 0
  binary _ _ _ := 0
  unary _ _ := 0
  relu _ := 0
  max_zero_left := by simp
  max_zero_right := by simp

/-- The memory where every cell holds a one. -/
def onesMemory : Memory Int :=
  fun _ _ => 1

section Failures

variable {shapes : Shapes} {nest : LoopNest} {indices : Var → Int} {store : Store}
  {expr : Expr} {lastOuter lastInner : Nat}

theorem eval_zeroMachine (notLoad : expr.isLoad = false) (outer inner : Int)
    (memory : Memory Int) :
    expr.eval zeroMachine shapes (nest.scalarsAt zeroMachine (fun _ => 0) outer inner)
      (nest.indicesAt indices outer inner) memory = 0 := by
  cases expr with
  | loadVector buffer index => cases notLoad
  | loadMatrix buffer row column => cases notLoad
  | var name =>
    simp only [Expr.eval, LoopNest.scalarsAt, zeroMachine, Function.update_apply]
    split
    · rfl
    · split <;> rfl
  | _ => rfl

theorem laneValue_zeroMachine (notLoad : expr.isLoad = false) {scalars : Var → Int}
    (noScalars : ∀ name, scalars name = 0) (vectorDimVar : Var) (callIndices : Var → Int)
    (memory : Memory Int) (lane : Int) :
    (expr.flatten shapes).laneValue zeroMachine scalars vectorDimVar callIndices memory lane =
      0 := by
  cases expr with
  | loadVector buffer index => cases notLoad
  | loadMatrix buffer row column => cases notLoad
  | var name => exact noScalars name
  | _ => rfl

theorem copyFits_of_notLoad {count : Nat} (notLoad : store.value.isLoad = false) :
    store.CopyFits shapes nest indices count := by
  intro isLoad
  rw [notLoad] at isLoad
  cases isLoad

theorem inBlockBounds_of_inBounds {access : Access}
    (inBounds :
      ∀ outer inner, nest.Iteration outer inner → access.InBounds shapes nest indices outer inner)
    (rows : nest.outerExtent = lastOuter + 1)
    (columns : nest.innerExtent = lastInner + 1) :
    access.InBlockBounds shapes nest indices lastOuter lastInner := by
  constructor
  · apply inBounds
    constructor <;> constructor <;> omega
  · apply inBounds
    constructor <;> constructor <;> omega

theorem not_preservesMeaning_of_wideTarget (inScope : InScope shapes nest indices)
    (single : nest.body = [store]) (lowers : store.lowers shapes nest)
    (notLoad : store.value.isLoad = false) (isBlock : nest.isBlock)
    (rows : nest.outerExtent = lastOuter + 1) (columns : nest.innerExtent = lastInner + 1)
    (wide : ¬ store.target.FitsBlock shapes nest) (nextTemp : Nat) :
    ¬ PreservesMeaning shapes nest nextTemp indices := by
  intro preserves
  have member : store ∈ nest.body := by simp [single]
  have positive : 0 < nest.innerExtent := columns ▸ Nat.succ_pos _
  obtain ⟨calls, afterTemp, lowered, vectorized⟩ :=
    visitFor_block inScope single lowers notLoad isBlock positive nextTemp
  have leaves :=
    @block_leavesLanes shapes nest indices Int zeroMachine (fun _ => 0) (fun _ => 0) inScope
      isBlock store member (copyFits_of_notLoad notLoad) (freshName nest.buffers) 0 _ _ rfl _ _ _
      vectorized
  have same :=
    preserves Int zeroMachine (fun _ => 0) (fun _ => 0) 0 onesMemory store.buffer
      fun id => (buffers_used member id).1
  rw [lowered] at same
  have sameCell := congrFun same (store.target.cell shapes nest indices lastOuter lastInner)
  have farther :=
    (lastCell_ge (inScope.stores_form store member) rows columns
      (inBlockBounds_of_inBounds (inScope.stores_inBounds store member) rows columns)).2 wide
  have count :
      ((nest.outerExtent * nest.innerExtent : Nat) : Int) =
        lastLane nest lastOuter lastInner + 1 := by
    rw [lastLane, rows, Nat.succ_mul, columns]
    push_cast
    ring
  have kept :=
    leaves.kept onesMemory store.buffer (store.target.cell shapes nest indices lastOuter lastInner)
      (by
        rintro ⟨-, -, below⟩
        rw [count] at below
        exact absurd below (by simp only [Store.target] at farther ⊢; omega))
      fun id => (buffers_used member id).1
  have written :=
    @runNest_written shapes nest indices store Int zeroMachine (fun _ => 0) inScope single
      onesMemory lastOuter lastInner (rows ▸ Nat.lt_succ_self _) (columns ▸ Nat.lt_succ_self _)
  rw [eval_zeroMachine notLoad] at written
  have contradiction := (kept.symm.trans sameCell).trans written
  exact Int.one_ne_zero contradiction

/-- The flat calls of a block that reads its value wrongly leave too small a sum in the last
element. -/
theorem not_preservesMeaning_of_wrongRead (inScope : InScope shapes nest indices)
    (single : nest.body = [store]) (lowers : store.lowers shapes nest)
    (notLoad : store.value.isLoad = false) (isBlock : nest.isBlock)
    (rows : nest.outerExtent = lastOuter + 1) (columns : nest.innerExtent = lastInner + 1)
    (fits : store.target.FitsBlock shapes nest)
    (wrong : ¬ store.value.ReadRight shapes nest) (nextTemp : Nat) :
    ¬ PreservesMeaning shapes nest nextTemp indices := by
  intro preserves
  have member : store ∈ nest.body := by simp [single]
  have used := fun id => buffers_used member id
  have positive : 0 < nest.innerExtent := columns ▸ Nat.succ_pos _
  obtain ⟨calls, afterTemp, lowered, vectorized⟩ :=
    visitFor_block inScope single lowers notLoad isBlock positive nextTemp
  have leaves :=
    @block_leavesLanes shapes nest indices Int sumMachine belowIndices (fun _ => 0) inScope
      isBlock store member (copyFits_of_notLoad notLoad) (freshName nest.buffers) 0 _ _ rfl _ _ _
      vectorized
  have below := @lastLane_lt nest lastOuter lastInner rows columns
  have lane :=
    leaves.lanes indexMemory (lastLane nest lastOuter lastInner) (Int.natCast_nonneg _)
      (by exact_mod_cast below)
  have same :=
    preserves Int sumMachine (fun _ => 0) belowIndices 0 indexMemory store.buffer
      fun id => (used id).1
  rw [lowered] at same
  have sameCell := congrFun same (store.target.cell shapes nest indices lastOuter lastInner)
  have written :=
    @runNest_written shapes nest indices store Int sumMachine (fun _ => 0) inScope single
      indexMemory lastOuter lastInner (rows ▸ Nat.lt_succ_self _) (columns ▸ Nat.lt_succ_self _)
  have targetCell := Access.cell_block (inScope.stores_form store member) fits below
  obtain ⟨isOuter, isInner⟩ := @lastLane_position nest lastOuter lastInner columns
  rw [isOuter, isInner] at targetCell
  have inBlock :
      store.value.InBlock shapes nest indices (freshName nest.buffers)
        (store.value.collectsVectors true) lastOuter lastInner := by
    refine ⟨inScope.loads_form store member, ?_, ?_, ?_⟩
    · intro access reads
      exact inBlockBounds_of_inBounds (inScope.loads_inBounds store member access reads) rows
        columns
    · intro buffer index reads
      exact collected_of_isBlock inScope isBlock member reads
    · intro access reads id
      exact (used id).2 access reads
  have keepsUsed :=
    @agreeOnUsed_broadcasts shapes nest indices (freshName nest.buffers)
      (store.value.collectsVectors true) Int sumMachine belowIndices (fun _ => 0) 0 store.value
      nextTemp indexMemory
  have tooSmall :=
    (lastLane_le_eval (freshName_injective nest.buffers) inScope.distinct rows columns keepsUsed
      store.value inBlock nextTemp indexMemory (fun _ _ _ => rfl) (fun _ _ _ _ => rfl)).2 wrong
  have isLane := (lane.symm.trans (congrArg _ targetCell.symm)).trans (sameCell.trans written)
  exact absurd isLane (Int.ne_of_lt tooSmall)

/-! ## Rows -/

theorem row_leavesLanes_of_notLoad {Value : Type} {machine : Machine Value}
    {misfit : Int → Value} {scalars : Var → Value} (inScope : InScope shapes nest indices)
    (member : store ∈ nest.body) (notLoad : store.value.isLoad = false)
    {outerDimVar : Option Var} {innerVecLen outerExtent : Int} {nextTemp afterTemp : Nat}
    {calls : List Call}
    (vectorized :
      vectorizeStoreAsRowBody shapes (freshName nest.buffers) nest.innerVar outerDimVar
        innerVecLen outerExtent false store nextTemp = some (calls, afterTemp))
    (outer : Int) :
    LeavesLanes machine misfit scalars (inIteration nest.outerVar indices outer)
      (freshName nest.buffers) calls store.buffer
      (store.target.cell shapes nest indices 0 0 + outer * shapes.width store.buffer) innerVecLen
      fun memory lane =>
        (store.value.flatten shapes).laneValue machine scalars nest.innerVar
          (inIteration nest.outerVar indices outer) memory lane := by
  have firstCell :
      store.target.cell shapes nest indices 0 0 + outer * shapes.width store.buffer =
        store.target.cell shapes nest indices outer 0 := by
    have form := inScope.stores_form store member
    simp only [Store.target, Access.cell]
    rw [form.1 outer 0, form.2 outer 0]
    ring
  rw [firstCell]
  apply row_leavesLanes _ (Int.le_of_lt (inScope.widths_positive store member)) vectorized
  intro src index isFlat
  have isLoad := @isLoad_flatten shapes store.value
  rw [isFlat, notLoad] at isLoad
  cases isLoad

/-- Rows that are not bound are written where an unbound variable says, and the first one stays
unwritten. -/
theorem not_preservesMeaning_of_unbound (inScope : InScope shapes nest indices)
    (single : nest.body = [store]) (lowers : store.lowers shapes nest)
    (notLoad : store.value.isLoad = false) (notBlock : nest.isBlock = false)
    (outerParallel : nest.outerParallel) (rows : nest.outerExtent = lastOuter + 1)
    (columns : nest.innerExtent = lastInner + 1)
    (unbound : nest.outerExtent = 1 ∨ asVar store.row = none) (nextTemp : Nat) :
    ¬ PreservesMeaning shapes nest nextTemp indices := by
  intro preserves
  have member : store ∈ nest.body := by simp [single]
  have used := fun id => (buffers_used member id).1
  obtain ⟨calls, afterTemp, lowered, vectorized⟩ :=
    visitFor_rows inScope single lowers notLoad notBlock outerParallel
      (columns ▸ Nat.succ_pos _) nextTemp
  have width :=
    (inBlockBounds_of_inBounds (inScope.stores_inBounds store member) rows
      columns).width_le (inScope.stores_form store member) columns
  have leaves :=
    @row_leavesLanes_of_notLoad shapes nest indices store Int zeroMachine (fun _ => 0) (fun _ => 0)
      inScope member notLoad _ _ _ _ _ _ vectorized 1
  -- The row that the unbound variable names lies after the first one.
  have keeps :
      ∀ memory : Memory Int,
        runCalls zeroMachine (fun _ => 0) (fun _ => 0) (inIteration nest.outerVar indices 1)
            memory calls (.named store.buffer) (store.target.cell shapes nest indices 0 0) =
          memory (.named store.buffer) (store.target.cell shapes nest indices 0 0) := by
    intro memory
    apply leaves.kept _ _ _ _ used
    rintro ⟨-, fromFirst, -⟩
    rw [columns] at width
    push_cast at width
    omega
  have keepsLoop :
      ∀ count : Nat,
        runLoopOver zeroMachine (fun _ => 0) none
            (fun scalars callIndices memory =>
              runCalls zeroMachine (fun _ => 0) scalars callIndices memory calls)
            (inIteration nest.outerVar indices 1) onesMemory count (.named store.buffer)
            (store.target.cell shapes nest indices 0 0) = 1 := by
    intro count
    induction count with
    | zero => rfl
    | succ earlier ih =>
      rw [runLoopOver, keeps]
      exact ih
  have same := preserves Int zeroMachine (fun _ => 0) (fun _ => 0) 1 onesMemory store.buffer used
  have sameCell := congrFun same (store.target.cell shapes nest indices 0 0)
  have written :=
    @runNest_written shapes nest indices store Int zeroMachine (fun _ => 0) inScope single
      onesMemory 0 0 (rows ▸ Nat.succ_pos _) (columns ▸ Nat.succ_pos _)
  rw [eval_zeroMachine notLoad] at written
  have leftOne :
      runLowered zeroMachine (fun _ => 0) shapes nest (fun _ => 0)
          (inIteration nest.outerVar indices 1) onesMemory (visitFor shapes nest nextTemp)
          (.named store.buffer) (store.target.cell shapes nest indices 0 0) = 1 := by
    rw [lowered]
    by_cases oneRow : nest.outerExtent = 1
    · rw [if_pos oneRow]
      exact keeps onesMemory
    · rw [if_neg oneRow, unbound.resolve_left oneRow]
      exact keepsLoop _
  exact Int.one_ne_zero ((leftOne.symm.trans sameCell).trans written)

theorem runLoopOver_firstRow {Value : Type} {machine : Machine Value}
    {misfit : Int → Value} {scalars : Var → Value} (inScope : InScope shapes nest indices)
    (member : store ∈ nest.body) (notLoad : store.value.isLoad = false)
    {outerDimVar : Option Var} {innerVecLen outerExtent : Int} {nextTemp afterTemp : Nat}
    {calls : List Call}
    (vectorized :
      vectorizeStoreAsRowBody shapes (freshName nest.buffers) nest.innerVar outerDimVar
        innerVecLen outerExtent false store nextTemp = some (calls, afterTemp))
    (width : innerVecLen ≤ shapes.width store.buffer)
    (unbound : Int)
    (memory : Memory Value)
    {lane : Int}
    (nonneg : 0 ≤ lane)
    (below : lane < innerVecLen)
    (count : Nat) :
    runLoopOver machine scalars (some nest.outerVar)
        (fun rowScalars rowIndices current =>
          runCalls machine misfit rowScalars rowIndices current calls)
        (inIteration nest.outerVar indices unbound) memory (count + 1) (.named store.buffer)
        (store.target.cell shapes nest indices 0 0 + lane) =
      (store.value.flatten shapes).laneValue machine
        (Function.update scalars nest.outerVar (machine.ofIndex 0)) nest.innerVar
        (inIteration nest.outerVar indices 0) memory lane := by
  have rebound :
      ∀ outer : Int,
        inIteration nest.outerVar (inIteration nest.outerVar indices unbound) outer =
          inIteration nest.outerVar indices outer :=
    fun outer => Function.update_idem _ _ _
  induction count with
  | zero =>
    have leaves :=
      @row_leavesLanes_of_notLoad shapes nest indices store Value machine misfit
        (Function.update scalars nest.outerVar (machine.ofIndex 0)) inScope member notLoad _ _ _
        _ _ _ vectorized 0
    rw [Int.zero_mul, Int.add_zero] at leaves
    rw [runLoopOver, Nat.cast_zero, rebound]
    exact leaves.lanes memory lane nonneg below
  | succ earlier ih =>
    have leaves :=
      @row_leavesLanes_of_notLoad shapes nest indices store Value machine misfit
        (Function.update scalars nest.outerVar (machine.ofIndex (earlier + 1 : Nat))) inScope
        member notLoad _ _ _ _ _ _ vectorized (earlier + 1 : Nat)
    rw [runLoopOver, rebound, leaves.kept _ _ _ _ fun id => (buffers_used member id).1]
    · exact ih
    · rintro ⟨-, fromFirst, -⟩
      have rowsApart : (0 : Int) ≤ earlier * shapes.width store.buffer :=
        Int.mul_nonneg (Int.natCast_nonneg _) (Int.le_of_lt (inScope.widths_positive store member))
      push_cast at fromFirst
      rw [Int.add_mul, Int.one_mul] at fromFirst
      omega

theorem misplaced_firstRow (inScope : InScope shapes nest indices)
    (single : nest.body = [store]) (notLoad : store.value.isLoad = false)
    (rows : nest.outerExtent = lastOuter + 1) (columns : nest.innerExtent = lastInner + 1)
    (notPlaced : ¬ store.RowPlaced shapes nest) {outerDimVar : Option Var}
    {outerExtent : Int} {nextTemp afterTemp : Nat} {calls : List Call}
    (vectorized :
      vectorizeStoreAsRowBody shapes (freshName nest.buffers) nest.innerVar outerDimVar
        nest.innerExtent outerExtent false store nextTemp = some (calls, afterTemp)) :
    runLoopOver sumMachine (fun _ => 0) (some nest.outerVar)
        (fun rowScalars rowIndices current =>
          runCalls sumMachine (fun _ => 0) rowScalars rowIndices current calls)
        (inIteration nest.outerVar indices 0) indexMemory nest.outerExtent
        (.named store.buffer) ≠
      runNest sumMachine (fun _ => 0) shapes nest indices indexMemory (.named store.buffer) := by
  intro same
  have member : store ∈ nest.body := by simp [single]
  have width :=
    (inBlockBounds_of_inBounds (inScope.stores_inBounds store member) rows
      columns).width_le (inScope.stores_form store member) columns
  rw [Store.RowPlaced, not_or, Bool.not_eq_true] at notPlaced
  have second : 1 < nest.innerExtent := by omega
  have sameCell := congrFun same (store.target.cell shapes nest indices 0 0 + 1)
  have code :=
    @runLoopOver_firstRow shapes nest indices store Int sumMachine (fun _ => 0) (fun _ => 0)
      inScope member notLoad _ _ _ _ _ _ vectorized width 0 indexMemory 1 (by omega)
      (by exact_mod_cast second) lastOuter
  have written :=
    @runNest_written shapes nest indices store Int sumMachine (fun _ => 0) inScope single
      indexMemory 0 1 (rows ▸ Nat.succ_pos _) second
  have tooLarge :=
    @ParallelVector.evalIn_le_laneValue nest.innerVar (inIteration nest.outerVar indices 0)
      (store.value.flatten shapes) (by
        intro access reads
        rw [loads_flatten, List.mem_map] at reads
        obtain ⟨original, isOriginal, rfl⟩ := reads
        exact (inScope.loads_form store member original isOriginal).unitStride_or_scalar 0)
  have zeroScalars :
      ∀ name : Var,
        Function.update (fun _ : Var => (0 : Int)) name (sumMachine.ofIndex 0) = fun _ => 0 :=
    fun name => Function.update_eq_self name _
  have secondScalars :
      nest.scalarsAt sumMachine (fun _ => (0 : Int)) ((0 : Nat) : Int) ((1 : Nat) : Int) =
        Function.update (fun _ => 0) nest.innerVar (sumMachine.ofIndex 1) := by
    rw [LoopNest.scalarsAt, Nat.cast_zero, zeroScalars]
    rfl
  have isValue :
      store.value.eval sumMachine shapes
          (nest.scalarsAt sumMachine (fun _ => 0) ((0 : Nat) : Int) ((1 : Nat) : Int))
          (nest.indicesAt indices ((0 : Nat) : Int) ((1 : Nat) : Int)) indexMemory =
        (store.value.flatten shapes).evalIn sumMachine (fun _ => 0) nest.innerVar
          (inIteration nest.outerVar indices 0) indexMemory 1 := by
    rw [secondScalars, ← eval_flatten]
    rfl
  have secondCell :
      store.target.cell shapes nest indices ((0 : Nat) : Int) ((1 : Nat) : Int) =
        store.target.cell shapes nest indices 0 0 + 1 :=
    Store.cell_row (inScope.stores_form store member) 0 1
  rw [zeroScalars, ← rows] at code
  rw [secondCell, isValue] at written
  rw [notPlaced.2] at tooLarge
  simp only [shortfall, Bool.false_eq_true, ↓reduceIte] at tooLarge
  have contradiction := (code.symm.trans sameCell).trans written
  omega

theorem not_preservesMeaning_of_emptyRows (inScope : InScope shapes nest indices)
    (single : nest.body = [store]) (lowers : store.lowers shapes nest)
    (notLoad : store.value.isLoad = false) (outerSerial : nest.outerParallel = false)
    (rows : nest.outerExtent = lastOuter + 1) (noColumns : nest.innerExtent = 0)
    (nextTemp : Nat) : ¬ PreservesMeaning shapes nest nextTemp indices := by
  intro preserves
  have member : store ∈ nest.body := by simp [single]
  have rowLength : nest.innerVecLen shapes store = shapes.width store.buffer := by
    rw [LoopNest.innerVecLen, noColumns]
    rfl
  obtain ⟨calls, outerExtent, afterTemp, lowered, vectorized⟩ :=
    visitFor_inSerial inScope single lowers notLoad outerSerial nextTemp
  rw [rowLength] at vectorized
  have code :=
    @runLoopOver_firstRow shapes nest indices store Int zeroMachine (fun _ => 0) (fun _ => 0)
      inScope member notLoad _ _ _ _ _ _ vectorized (Int.le_refl _) 0 onesMemory 0
      (Int.le_refl 0) (inScope.widths_positive store member) lastOuter
  have noScalars :
      ∀ name,
        Function.update (fun _ : Var => (0 : Int)) nest.outerVar (zeroMachine.ofIndex 0) name = 0 :=
    fun name => congrFun (Function.update_eq_self nest.outerVar _) name
  rw [laneValue_zeroMachine notLoad noScalars, ← rows] at code
  have same :=
    preserves Int zeroMachine (fun _ => 0) (fun _ => 0) 0 onesMemory store.buffer
      fun id => (buffers_used member id).1
  rw [lowered, runNest_empty (by rw [noColumns, Nat.mul_zero])] at same
  have contradiction := code.symm.trans (congrFun same _)
  exact Int.zero_ne_one contradiction

end Failures

/-! ## Main result -/

variable {nest : LoopNest} {indices : Var → Int} {store : Store} {shapes : Shapes}
  {nextTemp : Nat}

theorem asVar_row {index : IndexExpr} (follows : FollowsOuter nest indices index)
    (notOuter : index ≠ .var nest.outerVar) : asVar index = none := by
  cases index with
  | var name =>
    have moved := follows 1 0
    have other : name ≠ nest.outerVar := fun same => notOuter (congrArg _ same)
    simp only [IndexExpr.eval, LoopNest.indicesAt, inIteration, Function.update_apply, other,
      ↓reduceIte] at moved
    omega
  | _ => rfl

theorem eq_of_single {other : Store} (single : nest.body = [store])
    (member : other ∈ nest.body) : other = store := by
  rw [single] at member
  exact List.mem_singleton.mp member

section

variable (inScope : InScope shapes nest indices) (single : nest.body = [store])
  (lowers : store.lowers shapes nest) (notLoad : store.value.isLoad = false)
include inScope single lowers notLoad

theorem blockSafe_of_preservesMeaning (isBlock : nest.isBlock)
    (preserves : PreservesMeaning shapes nest nextTemp indices) :
    BlockSafe shapes nest indices := by
  by_contra unsafeBlock
  by_cases empty : nest.outerExtent * nest.innerExtent = 0
  · apply unsafeBlock
    intro other isOther
    rw [eq_of_single single isOther]
    exact ⟨Or.inl empty, copyFits_of_notLoad notLoad⟩
  · obtain ⟨someRows, someColumns⟩ := Nat.mul_ne_zero_iff.mp empty
    obtain ⟨lastOuter, rows⟩ := Nat.exists_eq_succ_of_ne_zero someRows
    obtain ⟨lastInner, columns⟩ := Nat.exists_eq_succ_of_ne_zero someColumns
    by_cases fits : store.target.FitsBlock shapes nest
    · refine not_preservesMeaning_of_wrongRead inScope single lowers notLoad isBlock rows
        columns fits (fun readRight => unsafeBlock ?_) nextTemp preserves
      intro other isOther
      rw [eq_of_single single isOther]
      refine ⟨Or.inr ⟨?_, readRight.2⟩, copyFits_of_notLoad notLoad⟩
      intro access isAccess
      rcases List.mem_cons.mp isAccess with isTarget | reads
      · rw [isTarget]
        exact fits
      · exact readRight.1 access reads
    · exact not_preservesMeaning_of_wideTarget inScope single lowers notLoad isBlock rows
        columns fits nextTemp preserves

theorem rowsSafe_of_preservesMeaning (notBlock : nest.isBlock = false)
    (outerParallel : nest.outerParallel = true)
    (preserves : PreservesMeaning shapes nest nextTemp indices) : RowsSafe shapes nest := by
  by_contra unsafeRows
  rw [RowsSafe, not_or] at unsafeRows
  obtain ⟨nonempty, notSafe⟩ := unsafeRows
  have member : store ∈ nest.body := by simp [single]
  obtain ⟨someRows, someColumns⟩ := Nat.mul_ne_zero_iff.mp nonempty
  obtain ⟨lastOuter, rows⟩ := Nat.exists_eq_succ_of_ne_zero someRows
  obtain ⟨lastInner, columns⟩ := Nat.exists_eq_succ_of_ne_zero someColumns
  by_cases bound : nest.outerExtent ≠ 1 ∧ store.row = .var nest.outerVar
  · have notPlaced : ¬ store.RowPlaced shapes nest := by
      intro placed
      apply notSafe
      refine ⟨bound.1, by rw [single, List.head?_cons, Option.map_some, bound.2], ?_⟩
      intro other isOther
      rw [eq_of_single single isOther]
      exact ⟨notLoad, placed⟩
    obtain ⟨calls, afterTemp, lowered, vectorized⟩ :=
      visitFor_rows inScope single lowers notLoad notBlock outerParallel
        (columns ▸ Nat.succ_pos _) nextTemp
    apply misplaced_firstRow inScope single notLoad rows columns notPlaced vectorized
    have same :=
      preserves Int sumMachine (fun _ => 0) (fun _ => 0) 0 indexMemory store.buffer
        fun id => (buffers_used member id).1
    rw [lowered, if_neg bound.1, bound.2] at same
    exact same
  · have unbound : nest.outerExtent = 1 ∨ asVar store.row = none := by
      by_cases oneRow : nest.outerExtent = 1
      · exact Or.inl oneRow
      · right
        apply asVar_row (inScope.stores_form store member).1
        intro isOuter
        exact bound ⟨oneRow, isOuter⟩
    exact not_preservesMeaning_of_unbound inScope single lowers notLoad notBlock
      outerParallel rows columns unbound nextTemp preserves

theorem serialSafe_of_preservesMeaning (outerSerial : nest.outerParallel = false)
    (preserves : PreservesMeaning shapes nest nextTemp indices) :
    SerialSafe shapes nest indices := by
  by_contra unsafeSerial
  rw [SerialSafe, not_or] at unsafeSerial
  obtain ⟨someRows, notSafe⟩ := unsafeSerial
  have member : store ∈ nest.body := by simp [single]
  obtain ⟨lastOuter, rows⟩ := Nat.exists_eq_succ_of_ne_zero someRows
  by_cases noColumns : nest.innerExtent = 0
  · exact not_preservesMeaning_of_emptyRows inScope single lowers notLoad outerSerial
      rows noColumns nextTemp preserves
  · obtain ⟨lastInner, columns⟩ := Nat.exists_eq_succ_of_ne_zero noColumns
    have notPlaced : ¬ store.RowPlaced shapes nest := by
      intro placed
      apply notSafe
      refine ⟨columns ▸ Nat.succ_pos _, ?_⟩
      intro other isOther
      rw [eq_of_single single isOther]
      refine ⟨placed, copyFits_of_notLoad notLoad, fun isLoad => ?_⟩
      rw [notLoad] at isLoad
      cases isLoad
    obtain ⟨calls, outerExtent, afterTemp, lowered, vectorized⟩ :=
      visitFor_inSerial inScope single lowers notLoad outerSerial nextTemp
    have rowLength : nest.innerVecLen shapes store = nest.innerExtent :=
      if_pos (by exact_mod_cast Nat.pos_of_ne_zero noColumns)
    rw [rowLength] at vectorized
    apply misplaced_firstRow inScope single notLoad rows columns notPlaced vectorized
    have same :=
      preserves Int sumMachine (fun _ => 0) (fun _ => 0) 0 indexMemory store.buffer
        fun id => (buffers_used member id).1
    rw [lowered] at same
    exact same

end

theorem nestSafe_of_preservesMeaning (inScope : InScope shapes nest indices)
    (single : nest.body = [store]) (notLoad : store.value.isLoad = false)
    (preserves : PreservesMeaning shapes nest nextTemp indices) :
    NestSafe shapes nest indices := by
  by_cases lowers : store.lowers shapes nest = true
  · refine Or.inr (Or.inr ?_)
    cases isBlock : nest.isBlock with
    | true => exact blockSafe_of_preservesMeaning inScope single lowers notLoad isBlock preserves
    | false =>
      rw [if_neg Bool.false_ne_true]
      cases outerParallel : nest.outerParallel with
      | true =>
        exact rowsSafe_of_preservesMeaning inScope single lowers notLoad isBlock
          outerParallel preserves
      | false =>
        exact serialSafe_of_preservesMeaning inScope single lowers notLoad outerParallel preserves
  · exact Or.inr (Or.inl ⟨store, by simp [single], Bool.eq_false_iff.mpr lowers⟩)

/-- A nest in scope that is left serial, or whose plan meets its condition, keeps its meaning, and
a nest over a single store that is no copy keeps its meaning only then. -/
theorem lowerNest_preserves_nestSafe
    (shapes : Shapes)
    (nest : LoopNest)
    (indices : Var → Int)
    (nextTemp : Nat)
    (inScope : InScope shapes nest indices) :
    (NestSafe shapes nest indices → PreservesMeaning shapes nest nextTemp indices) ∧
      ∀ store, nest.body = [store] → store.value.isLoad = false →
        (PreservesMeaning shapes nest nextTemp indices ↔ NestSafe shapes nest indices) := by
  refine ⟨fun safe => preservesMeaning_of_nestSafe inScope safe nextTemp, ?_⟩
  intro store single notLoad
  constructor
  · exact nestSafe_of_preservesMeaning inScope single notLoad
  · intro safe
    exact preservesMeaning_of_nestSafe inScope safe nextTemp

/-- A block that multiplies two matrices and then takes the maximum of a vector of its rows and one
of its columns. -/
def gridNest : LoopNest where
  outerVar := "i"
  innerVar := "j"
  outerParallel := true
  outerExtent := 2
  innerExtent := 3
  body :=
    [{ buffer := "t", row := .var "i", column := .var "j",
       value := .binary .mul (.loadMatrix "a" (.var "i") (.var "j"))
         (.loadMatrix "b" (.var "i") (.var "j")) },
     { buffer := "out", row := .var "i", column := .var "j",
       value := .binary .max (.loadVector "v" (.var "i")) (.loadVector "w" (.var "j")) }]

/-- Shapes in which the block covers every matrix. -/
def gridShapes : Shapes where
  extent buffer := if buffer = "w" then 3 else 2
  width _ := 3

theorem followsOuter_var (distinct : nest.outerVar ≠ nest.innerVar) :
    FollowsOuter nest (fun _ => 0) (.var nest.outerVar) := by
  intro outer inner
  simp [IndexExpr.eval, LoopNest.indicesAt, inIteration, distinct]

theorem followsInner_var (nest : LoopNest) :
    FollowsInner nest (fun _ => 0) (.var nest.innerVar) := by
  intro outer inner
  simp [IndexExpr.eval, LoopNest.indicesAt, inIteration]

theorem gridNest_inScope : InScope gridShapes gridNest fun _ => 0 where
  distinct := by decide
  widths_positive := by decide
  stores_form := by
    intro store member
    simp only [gridNest, List.mem_cons, List.not_mem_nil, or_false] at member
    rcases member with rfl | rfl <;>
      exact ⟨followsOuter_var (by decide), followsInner_var _⟩
  loads_form := by
    intro store member access reads
    simp only [gridNest, List.mem_cons, List.not_mem_nil, or_false] at member
    rcases member with rfl | rfl
    · simp only [Expr.accesses, List.cons_append, List.nil_append, List.mem_cons,
        List.not_mem_nil, or_false] at reads
      rcases reads with rfl | rfl <;>
        exact ⟨followsOuter_var (by decide), followsInner_var _⟩
    · simp only [Expr.accesses, List.cons_append, List.nil_append, List.mem_cons,
        List.not_mem_nil, or_false] at reads
      rcases reads with rfl | rfl
      · exact Or.inr ⟨followsOuter_var (by decide), rfl⟩
      · exact Or.inl ⟨followsInner_var _, rfl⟩
  vars_invariant := by decide
  stores_inBounds := by
    rintro store member outer inner ⟨⟨_, outerBelow⟩, _, innerBelow⟩
    simp only [gridNest, List.mem_cons, List.not_mem_nil, or_false] at member outerBelow innerBelow
    rcases member with rfl | rfl <;>
      simp [Store.target, Access.InBounds, gridShapes, gridNest, IndexExpr.eval,
        LoopNest.indicesAt, inIteration] <;> omega
  loads_inBounds := by
    rintro store member access reads outer inner ⟨⟨_, outerBelow⟩, _, innerBelow⟩
    simp only [gridNest, List.mem_cons, List.not_mem_nil, or_false] at member outerBelow innerBelow
    rcases member with rfl | rfl <;>
    · simp only [Expr.accesses, List.cons_append, List.nil_append, List.mem_cons,
        List.not_mem_nil, or_false] at reads
      rcases reads with rfl | rfl <;>
        simp [Access.InBounds, gridShapes, gridNest, IndexExpr.eval, LoopNest.indicesAt,
          inIteration] <;> omega
  independent := by
    rintro outer inner otherOuter otherInner ⟨⟨_, outerBelow⟩, _, innerBelow⟩
      ⟨⟨_, otherOuterBelow⟩, _, otherInnerBelow⟩ distinct buffer cell ⟨store, member, rfl, rfl⟩
    simp only [gridNest] at outerBelow innerBelow otherOuterBelow otherInnerBelow
    rw [Ne, Prod.mk.injEq] at distinct
    simp only [gridNest, List.mem_cons, List.not_mem_nil, or_false] at member
    rcases member with rfl | rfl <;>
      simp [LoopNest.Writes, LoopNest.Reads, gridNest, Expr.accesses, Store.target, Access.cell,
        Access.buffer, gridShapes, IndexExpr.eval, LoopNest.indicesAt, inIteration] <;> omega

/-- The block is lowered to flat calls and keeps its meaning. -/
theorem lowerNest_preserves_gridNest :
    (∃ calls, visitFor gridShapes gridNest 0 = .emitted (.calls calls)) ∧
      NestSafe gridShapes gridNest (fun _ => 0) ∧
      PreservesMeaning gridShapes gridNest 0 (fun _ => 0) := by
  have safe : NestSafe gridShapes gridNest (fun _ => 0) := by
    refine Or.inr (Or.inr ?_)
    have isBlock : gridNest.isBlock = true := by decide
    rw [isBlock, if_pos rfl]
    intro store member
    simp only [gridNest, List.mem_cons, List.not_mem_nil, or_false] at member
    rcases member with rfl | rfl
    · refine ⟨Or.inr ⟨?_, by decide⟩, fun isLoad => by cases isLoad⟩
      intro access isAccess
      simp only [Store.target, Expr.accesses, List.cons_append, List.nil_append, List.mem_cons,
        List.not_mem_nil, or_false] at isAccess
      rcases isAccess with rfl | rfl | rfl <;> exact Or.inr rfl
    · refine ⟨Or.inr ⟨?_, by decide⟩, fun isLoad => by cases isLoad⟩
      intro access isAccess
      simp only [Store.target, Expr.accesses, List.cons_append, List.nil_append, List.mem_cons,
        List.not_mem_nil, or_false] at isAccess
      rcases isAccess with rfl | rfl | rfl
      · exact Or.inr rfl
      · exact ⟨.inner, by decide, by decide⟩
      · exact ⟨.outer, by decide, by decide⟩
  refine ⟨⟨_, rfl⟩, safe, ?_⟩
  exact (lowerNest_preserves_nestSafe gridShapes gridNest (fun _ => 0) 0 gridNest_inScope).1 safe
/-- A block of exponentials in matrices with wider rows: `out[i, j] = exp(a[i, j])`. -/
def wideNest : LoopNest where
  outerVar := "i"
  innerVar := "j"
  outerParallel := true
  outerExtent := 2
  innerExtent := 2
  body :=
    [{ buffer := "out", row := .var "i", column := .var "j",
       value := .call .exp (.loadMatrix "a" (.var "i") (.var "j")) }]

/-- Matrices of two rows of four elements. -/
def wideShapes : Shapes where
  extent _ := 2
  width _ := 4

theorem wideNest_inScope : InScope wideShapes wideNest fun _ => 0 where
  distinct := by decide
  widths_positive := by decide
  stores_form := by
    intro store member
    rw [List.mem_singleton.mp member]
    exact ⟨followsOuter_var (by decide), followsInner_var _⟩
  loads_form := by
    intro store member access reads
    rw [List.mem_singleton.mp member] at reads
    rw [List.mem_singleton.mp reads]
    exact ⟨followsOuter_var (by decide), followsInner_var _⟩
  vars_invariant := by decide
  stores_inBounds := by
    rintro store member outer inner ⟨⟨_, outerBelow⟩, _, innerBelow⟩
    simp only [wideNest] at outerBelow innerBelow
    rw [List.mem_singleton.mp member]
    simp [Store.target, Access.InBounds, wideShapes, wideNest, IndexExpr.eval,
      LoopNest.indicesAt, inIteration]
    omega
  loads_inBounds := by
    rintro store member access reads outer inner ⟨⟨_, outerBelow⟩, _, innerBelow⟩
    simp only [wideNest] at outerBelow innerBelow
    rw [List.mem_singleton.mp member] at reads
    rw [List.mem_singleton.mp reads]
    simp [Access.InBounds, wideShapes, wideNest, IndexExpr.eval, LoopNest.indicesAt, inIteration]
    omega
  independent := by
    rintro outer inner otherOuter otherInner ⟨⟨_, outerBelow⟩, _, innerBelow⟩
      ⟨⟨_, otherOuterBelow⟩, _, otherInnerBelow⟩ distinct buffer cell ⟨store, member, rfl, rfl⟩
    simp only [wideNest] at outerBelow innerBelow otherOuterBelow otherInnerBelow
    rw [Ne, Prod.mk.injEq] at distinct
    rw [List.mem_singleton.mp member]
    simp [LoopNest.Writes, LoopNest.Reads, wideNest, Expr.accesses, Store.target, Access.cell,
      Access.buffer, wideShapes, IndexExpr.eval, LoopNest.indicesAt, inIteration]
    omega

/-- The flat call over the block writes the rest of the first row and misses the second row. -/
theorem lowerNest_changes_wideNest :
    InScope wideShapes wideNest (fun _ => 0) ∧
      ¬ PreservesMeaning wideShapes wideNest 0 (fun _ => 0) := by
  refine ⟨wideNest_inScope, ?_⟩
  intro preserves
  have third :=
    congrFun
      (preserves Int zeroMachine (fun _ => 0) (fun _ => 0) 0 onesMemory "out"
        (ne_freshName (by decide)))
      2
  revert third
  decide

end TilelangAscend.ParallelNest
