import TilelangAscend.ParallelNestCalls
import Mathlib.Tactic.Ring

namespace TilelangAscend.ParallelNest

/-!
# The values of rows and of whole blocks

A row of a nest is a single loop over linear indices, so its lane values are those of that loop.
A whole block is read with both loop variables zeroed.  A matrix is then read right when its rows
lie one directly after the other, and a vector when its broadcast fits and is not taken for a
scalar.
-/

open ParallelVector (Var IndexExpr Imm BinaryOp UnaryOp Buffer AccessPtr VectorCall Machine Memory
  calculateBufferOffset decomposeExpression inIteration writeLanes isScalarAccess)

/-! ## Linear indices -/

/-- The value over linear indices. -/
def Expr.flatten (shapes : Shapes) : Expr → ParallelVector.Expr
  | .imm value => .imm value
  | .var name => .var name
  | .loadVector buffer index => .load buffer index
  | .loadMatrix buffer row column => .load buffer (flatIndex shapes buffer row column)
  | .binary op a b => .binary op (a.flatten shapes) (b.flatten shapes)
  | .call op arg => .call op (arg.flatten shapes)

/-- The linear index of an access. -/
def Access.index (shapes : Shapes) : Access → IndexExpr
  | .vector _ index => index
  | .matrix buffer row column => flatIndex shapes buffer row column

theorem Access.eval_index (shapes : Shapes) (nest : LoopNest) (indices : Var → Int)
    (outer inner : Int) (access : Access) :
    (access.index shapes).eval (nest.indicesAt indices outer inner) =
      access.cell shapes nest indices outer inner := by
  cases access <;> rfl

theorem loads_flatten (shapes : Shapes) (expr : Expr) :
    (expr.flatten shapes).loads =
      expr.accesses.map fun access => (access.buffer, access.index shapes) := by
  induction expr with
  | imm value => rfl
  | var name => rfl
  | loadVector buffer index => rfl
  | loadMatrix buffer row column => rfl
  | binary op a b ihA ihB =>
    rw [Expr.flatten, ParallelVector.Expr.loads, ihA, ihB, Expr.accesses, List.map_append]
  | call op arg ih => exact ih

theorem vars_flatten (shapes : Shapes) (expr : Expr) : (expr.flatten shapes).vars = expr.vars := by
  induction expr with
  | imm value => rfl
  | var name => rfl
  | loadVector buffer index => rfl
  | loadMatrix buffer row column => rfl
  | binary op a b ihA ihB =>
    rw [Expr.flatten, ParallelVector.Expr.vars, ihA, ihB, Expr.vars]
  | call op arg ih => exact ih

theorem eval_flatten {Value : Type} (machine : Machine Value) (shapes : Shapes)
    (scalars : Var → Value) (indices : Var → Int) (memory : Memory Value) (expr : Expr) :
    (expr.flatten shapes).eval machine scalars indices memory =
      expr.eval machine shapes scalars indices memory := by
  induction expr with
  | imm value => rfl
  | var name => rfl
  | loadVector buffer index => rfl
  | loadMatrix buffer row column => rfl
  | binary op a b ihA ihB =>
    rw [Expr.flatten, ParallelVector.Expr.eval, ihA, ihB, Expr.eval]
  | call op arg ih => rw [Expr.flatten, ParallelVector.Expr.eval, ih, Expr.eval]

theorem lowerLoads_row (shapes : Shapes) (fresh : Nat → String) (vectorDimVar : Var)
    (outerDimVar : Option Var) (outerExtent innerVecLen : Int) (expr : Expr) (nextTemp : Nat) :
    expr.lowerLoads shapes fresh vectorDimVar outerDimVar false false outerExtent innerVecLen
        nextTemp =
      { value := expr.flatten shapes, broadcasts := [], nextTemp := nextTemp } := by
  induction expr generalizing nextTemp with
  | imm value => rfl
  | var name => rfl
  | loadVector buffer index => rfl
  | loadMatrix buffer row column => rfl
  | binary op a b ihA ihB =>
    rw [Expr.lowerLoads, ihA, ihB]
    rfl
  | call op arg ih =>
    rw [Expr.lowerLoads, ih]
    rfl

/-! ## Rows -/

section Rows

variable {shapes : Shapes} {nest : LoopNest} {indices : Var → Int}

theorem unitStride_flatIndex {buffer : String} {row column : IndexExpr}
    (form : (Access.matrix buffer row column).HasForm nest indices) (outer : Int) :
    ParallelVector.UnitStride nest.innerVar (inIteration nest.outerVar indices outer)
      (flatIndex shapes buffer row column) := by
  intro inner
  have rowMoved := form.1 outer inner
  have rowFirst := form.1 outer 0
  have columnMoved := form.2 outer inner
  have columnFirst := form.2 outer 0
  simp only [LoopNest.indicesAt] at rowMoved rowFirst columnMoved columnFirst
  simp only [flatIndex, IndexExpr.eval, rowMoved, rowFirst, columnMoved, columnFirst]
  ring

theorem Access.HasForm.unitStride_or_scalar {access : Access}
    (form : access.HasForm nest indices) (outer : Int) :
    ParallelVector.UnitStride nest.innerVar (inIteration nest.outerVar indices outer)
        (access.index shapes) ∨
      isScalarAccess nest.innerVar (access.index shapes) := by
  cases access with
  | vector buffer index =>
    rcases form with ⟨follows, -⟩ | ⟨-, notInner⟩
    · left
      intro inner
      have moved := follows outer inner
      have first := follows outer 0
      rw [Int.add_zero] at first
      exact moved.trans (congrArg (· + inner) first.symm)
    · right
      simp [isScalarAccess, Access.index, notInner]
  | matrix buffer row column => exact Or.inl (unitStride_flatIndex form outer)

theorem Store.cell_row {store : Store} (form : store.target.HasForm nest indices)
    (outer inner : Int) :
    store.target.cell shapes nest indices outer inner =
      store.target.cell shapes nest indices outer 0 + inner := by
  simp only [Store.target, Access.cell, form.1 outer inner, form.1 outer 0, form.2 outer inner,
    form.2 outer 0]
  ring

theorem laneValue_row {Value : Type} (machine : Machine Value) (scalars : Var → Value)
    (memory : Memory Value) {expr : Expr}
    (forms : ∀ access ∈ expr.accesses, access.HasForm nest indices)
    (notInner : nest.innerVar ∉ expr.vars) {outer lane : Int}
    (placed : lane = 0 ∨ (expr.flatten shapes).loadsPlaced nest.innerVar) :
    (expr.flatten shapes).laneValue machine
        (Function.update scalars nest.outerVar (machine.ofIndex outer)) nest.innerVar
        (inIteration nest.outerVar indices outer) memory lane =
      expr.eval machine shapes (nest.scalarsAt machine scalars outer lane)
        (nest.indicesAt indices outer lane) memory := by
  rw [← eval_flatten]
  apply ParallelVector.laneValue_eq_evalIn
  · intro access member
    rw [loads_flatten, List.mem_map] at member
    obtain ⟨original, isOriginal, rfl⟩ := member
    exact (forms original isOriginal).unitStride_or_scalar outer
  · rw [vars_flatten]
    exact notInner
  · exact placed

end Rows

/-! ## Blocks -/

/-- The expression loads a vector that has more than one element in the block. -/
def Expr.isLongVector (nest : LoopNest) : Expr → Bool
  | .loadVector _ index =>
    match canBroadcast nest.innerVar (some nest.outerVar) index with
    | some .outer => nest.innerExtent != 1
    | some .inner => nest.outerExtent != 1
    | none => false
  | _ => false

/-- No vector of more than one element stands to the right of an operation with a scalar form. -/
def Expr.vectorsPlaced (nest : LoopNest) : Expr → Bool
  | .imm _ => true
  | .var _ => true
  | .loadVector _ _ => true
  | .loadMatrix _ _ _ => true
  | .binary op a b =>
    a.vectorsPlaced nest && b.vectorsPlaced nest && !(op.hasScalarForm && b.isLongVector nest)
  | .call _ arg => arg.vectorsPlaced nest

/-- A block reads the access right: the rows of a matrix lie one directly after the other, and a
vector is broadcast from as many elements as the block has rows or columns. -/
def Access.FitsBlock (shapes : Shapes) (nest : LoopNest) : Access → Prop
  | .vector buffer index =>
    ∃ dim, canBroadcast nest.innerVar (some nest.outerVar) index = some dim ∧
      broadcastFits dim (shapes.extent buffer) nest.outerExtent nest.innerExtent
  | .matrix buffer _ _ => nest.outerExtent = 1 ∨ shapes.width buffer = nest.innerExtent

section Blocks

variable {shapes : Shapes} {nest : LoopNest} {indices : Var → Int}

/-- With both loop variables zeroed, an index has its value in the first iteration, whatever an
unbound outer variable holds. -/
theorem eval_zeroOuter (distinct : nest.outerVar ≠ nest.innerVar) (unbound : Int)
    (index : IndexExpr) :
    (calculateBufferOffset nest.innerVar (zeroOuter (some nest.outerVar) true index)).eval
        (inIteration nest.outerVar indices unbound) =
      index.eval (nest.indicesAt indices 0 0) := by
  rw [calculateBufferOffset, zeroOuter, ParallelVector.IndexExpr.eval_substituteLoopVars,
    ParallelVector.IndexExpr.eval_substituteLoopVars]
  simp only [LoopNest.indicesAt, inIteration]
  rw [Function.update_comm distinct.symm, Function.update_idem]

theorem containsVar_substituteLoopVars {zeroed other : Var} (distinct : zeroed ≠ other)
    (index : IndexExpr) :
    (index.substituteLoopVars zeroed).containsVar other = index.containsVar other := by
  induction index with
  | imm value => rfl
  | var name =>
    by_cases isZeroed : name = zeroed
    · subst isZeroed
      simp [IndexExpr.substituteLoopVars, IndexExpr.containsVar, distinct]
    · simp [IndexExpr.substituteLoopVars, isZeroed]
  | add a b ihA ihB =>
    simp only [IndexExpr.substituteLoopVars, IndexExpr.containsVar, ihA, ihB]
  | sub a b ihA ihB =>
    simp only [IndexExpr.substituteLoopVars, IndexExpr.containsVar, ihA, ihB]
  | mul a b ihA ihB =>
    simp only [IndexExpr.substituteLoopVars, IndexExpr.containsVar, ihA, ihB]

theorem position_eq {count width : Nat} (position : Nat) (below : position < count * width) :
    position / width < count ∧
      ((position / width : Nat) : Int) * width + ((position % width : Nat) : Int) = position := by
  constructor
  · exact Nat.div_lt_of_lt_mul (Nat.mul_comm count width ▸ below)
  · have whole := Nat.div_add_mod position width
    rw [Nat.mul_comm] at whole
    exact_mod_cast whole

variable {position nextTemp : Nat} {buffer : String} {row column : IndexExpr}

/-- Where rows lie one directly after the other, a block moves by one cell with every
iteration. -/
theorem Access.cell_block (form : (Access.matrix buffer row column).HasForm nest indices)
    (fits : nest.outerExtent = 1 ∨ shapes.width buffer = nest.innerExtent)
    (below : position < nest.outerExtent * nest.innerExtent) :
    (Access.matrix buffer row column).cell shapes nest indices
        ((position / nest.innerExtent : Nat) : Int) ((position % nest.innerExtent : Nat) : Int) =
      (Access.matrix buffer row column).cell shapes nest indices 0 0 + position := by
  obtain ⟨rowBelow, whole⟩ := position_eq position below
  have rowMoved :=
    form.1 ((position / nest.innerExtent : Nat) : Int) ((position % nest.innerExtent : Nat) : Int)
  have columnMoved :=
    form.2 ((position / nest.innerExtent : Nat) : Int) ((position % nest.innerExtent : Nat) : Int)
  rw [Access.cell, Access.cell, rowMoved, columnMoved]
  rcases fits with oneRow | sameWidth
  · have first : position / nest.innerExtent = 0 := Nat.lt_one_iff.mp (oneRow ▸ rowBelow)
    rw [first] at whole ⊢
    push_cast at whole ⊢
    linarith
  · rw [sameWidth]
    linarith

theorem eval_of_canBroadcast (distinct : nest.outerVar ≠ nest.innerVar)
    {index : IndexExpr} {dim : BroadcastDim}
    (found : canBroadcast nest.innerVar (some nest.outerVar) index = some dim)
    (outer inner : Int) :
    index.eval (nest.indicesAt indices outer inner) =
      match dim with
      | .outer => inner
      | .inner => outer := by
  cases index with
  | var name =>
    simp only [canBroadcast, asVar] at found
    split at found
    next isInner =>
      cases found
      simp [IndexExpr.eval, LoopNest.indicesAt, inIteration, isInner]
    next notInner =>
      split at found
      next isOuter =>
        cases found
        cases isOuter
        simp [IndexExpr.eval, LoopNest.indicesAt, inIteration, distinct]
      next => cases found
  | _ => cases found

variable {Value : Type} (machine : Machine Value) (misfit : Int → Value) (scalars : Var → Value)

/-- The block reads every load of the expression right, from a buffer that is not new. -/
structure Expr.FitsBlock
    (shapes : Shapes)
    (nest : LoopNest)
    (indices : Var → Int)
    (fresh : Nat → String)
    (collect : Bool)
    (expr : Expr) : Prop where
  forms : ∀ access ∈ expr.accesses, access.HasForm nest indices
  fits : ∀ access ∈ expr.accesses, access.FitsBlock shapes nest
  collected : ∀ buffer index, .vector buffer index ∈ expr.accesses → collect
  used : ∀ access ∈ expr.accesses, ∀ id, access.buffer ≠ fresh id
  vars : nest.outerVar ∉ expr.vars ∧ nest.innerVar ∉ expr.vars

variable {fresh : Nat → String} {collect : Bool}

theorem Expr.FitsBlock.part
    {whole part : Expr}
    (fits : whole.FitsBlock shapes nest indices fresh collect)
    (inside : part.accesses ⊆ whole.accesses)
    (varsInside : part.vars ⊆ whole.vars) :
    part.FitsBlock shapes nest indices fresh collect where
  forms access member := fits.forms access (inside member)
  fits access member := fits.fits access (inside member)
  collected buffer index member := fits.collected buffer index (inside member)
  used access member := fits.used access (inside member)
  vars := ⟨fun member => fits.vars.1 (varsInside member),
    fun member => fits.vars.2 (varsInside member)⟩

/-- The value as a block lowers it. -/
def Expr.lowerInBlock (shapes : Shapes) (nest : LoopNest) (fresh : Nat → String)
    (collect : Bool) (expr : Expr) (nextTemp : Nat) : LoweredLoads :=
  expr.lowerLoads shapes fresh nest.innerVar (some nest.outerVar) collect true nest.outerExtent
    nest.innerExtent nextTemp

variable {Value : Type} (machine : Machine Value) (misfit : Int → Value)
  (scalars : Var → Value) (unbound : Int)

theorem rightLane_matrix (distinct : nest.outerVar ≠ nest.innerVar)
    (form : (Access.matrix buffer row column).HasForm nest indices) (op : BinaryOp)
    (memory : Memory Value) (lane : Int) (nextTemp : Nat) :
    ParallelVector.rightLane nest.innerVar (inIteration nest.outerVar indices unbound) op memory
        (((Expr.loadMatrix buffer row column).lowerInBlock shapes nest fresh collect
          nextTemp).value.laneValue machine scalars nest.innerVar
            (inIteration nest.outerVar indices unbound) memory lane)
        ((Expr.loadMatrix buffer row column).lowerInBlock shapes nest fresh collect
          nextTemp).value =
      ((Expr.loadMatrix buffer row column).lowerInBlock shapes nest fresh collect
        nextTemp).value.laneValue machine scalars nest.innerVar
          (inIteration nest.outerVar indices unbound) memory lane := by
  have notScalar :
      isScalarAccess nest.innerVar
          (zeroOuter (some nest.outerVar) true (flatIndex shapes buffer row column)) =
        false := by
    rw [isScalarAccess, zeroOuter, containsVar_substituteLoopVars distinct]
    exact (unitStride_flatIndex form 0).not_isScalarAccess
  simp only [Expr.lowerInBlock, Expr.lowerLoads, ParallelVector.rightLane, notScalar,
    Bool.false_and, Bool.false_eq_true, ↓reduceIte]

/-- The new buffers with numbers in a range hold what the broadcasts of a lowered value leave. -/
def BroadcastsDone (nest : LoopNest) (indices : Var → Int) (fresh : Nat → String)
    (first : Nat) (lowered : LoweredLoads)
    (before after : Memory Value) : Prop :=
  ∀ id cell, first ≤ id → id < lowered.nextTemp →
    after (.named (fresh id)) cell =
      runCalls machine misfit scalars (inIteration nest.outerVar indices unbound) before
        lowered.broadcasts (.named (fresh id)) cell

/-- Two memories agree on the buffers that are not new. -/
def AgreeOnUsed (fresh : Nat → String) (memory other : Memory Value) : Prop :=
  ∀ name cell, (∀ id, name ≠ fresh id) → memory (.named name) cell = other (.named name) cell

theorem agreeOnUsed_broadcasts (expr : Expr) (nextTemp : Nat) (memory : Memory Value) :
    AgreeOnUsed fresh
      (runCalls machine misfit scalars (inIteration nest.outerVar indices unbound) memory
        (expr.lowerInBlock shapes nest fresh collect nextTemp).broadcasts)
      memory := by
  intro name cell used
  apply runCalls_broadcasts_kept
  intro id _ _
  exact used id

/-- The right operand's broadcasts write later buffers, so those of the left operand are done when
those of both are. -/
theorem BroadcastsDone.left {misfit : Int → Value} (injective : Function.Injective fresh)
    {op : BinaryOp} {a b : Expr} {nextTemp : Nat} {before after : Memory Value}
    (done :
      BroadcastsDone machine misfit scalars unbound nest indices fresh nextTemp
        ((Expr.binary op a b).lowerInBlock shapes nest fresh collect nextTemp) before after) :
    BroadcastsDone machine misfit scalars unbound nest indices fresh nextTemp
      (a.lowerInBlock shapes nest fresh collect nextTemp) before after := by
  intro id cell fromFirst belowMiddle
  have fromMiddle :=
    @lowerLoads_nextTemp shapes fresh nest.innerVar (some nest.outerVar) collect true
      nest.outerExtent nest.innerExtent b
      (a.lowerInBlock shapes nest fresh collect nextTemp).nextTemp
  have both := done id cell fromFirst (Nat.lt_of_lt_of_le belowMiddle fromMiddle)
  rw [Expr.lowerInBlock, Expr.lowerLoads, runCalls_append] at both
  rw [both]
  apply runCalls_broadcasts_kept
  intro other fromOther _ same
  have sameId := injective same
  subst sameId
  exact Nat.lt_irrefl id (Nat.lt_of_lt_of_le belowMiddle fromOther)

theorem BroadcastsDone.right {misfit : Int → Value} {op : BinaryOp} {a b : Expr}
    {nextTemp : Nat} {before after : Memory Value}
    (done :
      BroadcastsDone machine misfit scalars unbound nest indices fresh nextTemp
        ((Expr.binary op a b).lowerInBlock shapes nest fresh collect nextTemp) before after) :
    BroadcastsDone machine misfit scalars unbound nest indices fresh
      (a.lowerInBlock shapes nest fresh collect nextTemp).nextTemp
      (b.lowerInBlock shapes nest fresh collect
        (a.lowerInBlock shapes nest fresh collect nextTemp).nextTemp)
      (runCalls machine misfit scalars (inIteration nest.outerVar indices unbound) before
        (a.lowerInBlock shapes nest fresh collect nextTemp).broadcasts)
      after := by
  intro id cell fromMiddle belowLast
  have toMiddle :=
    @lowerLoads_nextTemp shapes fresh nest.innerVar (some nest.outerVar) collect true
      nest.outerExtent nest.innerExtent a nextTemp
  have both := done id cell (Nat.le_trans toMiddle fromMiddle) belowLast
  rw [Expr.lowerInBlock, Expr.lowerLoads, runCalls_append] at both
  exact both

variable {source after before : Memory Value}

/-- A broadcast vector holds in each lane the element that the lane asks for, or what a broadcast
that does not fit leaves. -/
theorem lane_broadcast_value {index : IndexExpr} {dim : BroadcastDim}
    (below : position < nest.outerExtent * nest.innerExtent) (collects : collect)
    (found : canBroadcast nest.innerVar (some nest.outerVar) index = some dim)
    (isUsed : ∀ id, buffer ≠ fresh id) (sourceBefore : AgreeOnUsed fresh before source)
    (done :
      BroadcastsDone machine misfit scalars unbound nest indices fresh nextTemp
        ((Expr.loadVector buffer index).lowerInBlock shapes nest fresh collect nextTemp) before
        after) :
    ((Expr.loadVector buffer index).lowerInBlock shapes nest fresh collect nextTemp).value =
        .load (fresh nextTemp) (.imm 0) ∧
      after (.named (fresh nextTemp)) (0 + position) =
        if broadcastFits dim (shapes.extent buffer) nest.outerExtent nest.innerExtent then
          source (.named buffer) (broadcastElement dim nest.innerExtent position)
        else misfit position := by
  simp only [BroadcastsDone, Expr.lowerInBlock, Expr.lowerLoads, collects, found, ↓reduceIte]
    at done ⊢
  have broadcastDone :=
    done nextTemp (0 + position) (Nat.le_refl _) (Nat.lt_add_of_pos_right Nat.two_pos)
  rw [runCalls, List.foldl_cons, List.foldl_nil, runCall,
    ParallelVector.writeLanes_lane _ _ _ _ (Int.natCast_nonneg _) (by exact_mod_cast below),
    sourceBefore buffer _ isUsed] at broadcastDone
  exact ⟨trivial, broadcastDone⟩

section

variable (distinct : nest.outerVar ≠ nest.innerVar)
  (below : position < nest.outerExtent * nest.innerExtent)
include distinct below

theorem lane_broadcast {index : IndexExpr}
    (fits : (Expr.loadVector buffer index).FitsBlock shapes nest indices fresh collect)
    (sourceBefore : AgreeOnUsed fresh before source)
    (done :
      BroadcastsDone machine misfit scalars unbound nest indices fresh nextTemp
        ((Expr.loadVector buffer index).lowerInBlock shapes nest fresh collect nextTemp) before
        after) :
    ((Expr.loadVector buffer index).lowerInBlock shapes nest fresh collect nextTemp).value =
        .load (fresh nextTemp) (.imm 0) ∧
      after (.named (fresh nextTemp)) (0 + position) =
        source (.named buffer)
          (index.eval (nest.indicesAt indices ((position / nest.innerExtent : Nat) : Int)
            ((position % nest.innerExtent : Nat) : Int))) := by
  obtain ⟨dim, found, fitsDim⟩ := fits.fits _ List.mem_cons_self
  have isUsed : ∀ id, buffer ≠ fresh id := fits.used _ List.mem_cons_self
  obtain ⟨isLoad, lane⟩ :=
    lane_broadcast_value machine misfit scalars unbound below
      (fits.collected buffer index List.mem_cons_self) found isUsed sourceBefore done
  refine ⟨isLoad, ?_⟩
  rw [lane, if_pos fitsDim, eval_of_canBroadcast distinct found]
  cases dim <;> rfl

theorem eval_of_not_isLongVector {index : IndexExpr}
    (fits : (Access.vector buffer index).FitsBlock shapes nest)
    (short : (Expr.loadVector buffer index).isLongVector nest = false) :
    index.eval (nest.indicesAt indices ((position / nest.innerExtent : Nat) : Int)
        ((position % nest.innerExtent : Nat) : Int)) =
      index.eval (nest.indicesAt indices ((0 / nest.innerExtent : Nat) : Int)
        ((0 % nest.innerExtent : Nat) : Int)) := by
  obtain ⟨dim, found, -⟩ := fits
  rw [eval_of_canBroadcast distinct found, eval_of_canBroadcast distinct found]
  simp only [Expr.isLongVector, found] at short
  cases dim with
  | outer =>
    have one : nest.innerExtent = 1 := by simpa using short
    rw [one, Nat.mod_one, Nat.mod_one]
  | inner =>
    have one : nest.outerExtent = 1 := by simpa using short
    have rowBelow := (position_eq position below).1
    rw [one] at rowBelow
    rw [Nat.lt_one_iff.mp rowBelow, Nat.zero_div]

theorem rightLane_lowerInBlock (op : BinaryOp) {operand : Expr}
    (fits : operand.FitsBlock shapes nest indices fresh collect)
    (notScalar : (op.hasScalarForm && operand.isLongVector nest) = false)
    (sourceBefore : AgreeOnUsed fresh before source)
    (done :
      BroadcastsDone machine misfit scalars unbound nest indices fresh nextTemp
        (operand.lowerInBlock shapes nest fresh collect nextTemp) before after)
    (lane :
      (operand.lowerInBlock shapes nest fresh collect nextTemp).value.laneValue machine scalars
          nest.innerVar (inIteration nest.outerVar indices unbound) after position =
        operand.eval machine shapes
          (nest.scalarsAt machine scalars ((position / nest.innerExtent : Nat) : Int)
            ((position % nest.innerExtent : Nat) : Int))
          (nest.indicesAt indices ((position / nest.innerExtent : Nat) : Int)
            ((position % nest.innerExtent : Nat) : Int)) source) :
    ParallelVector.rightLane nest.innerVar (inIteration nest.outerVar indices unbound) op after
        ((operand.lowerInBlock shapes nest fresh collect nextTemp).value.laneValue machine scalars
          nest.innerVar (inIteration nest.outerVar indices unbound) after position)
        (operand.lowerInBlock shapes nest fresh collect nextTemp).value =
      operand.eval machine shapes
        (nest.scalarsAt machine scalars ((position / nest.innerExtent : Nat) : Int)
          ((position % nest.innerExtent : Nat) : Int))
        (nest.indicesAt indices ((position / nest.innerExtent : Nat) : Int)
          ((position % nest.innerExtent : Nat) : Int)) source := by
  cases operand with
  | loadVector buffer index =>
    obtain ⟨isLoad, -⟩ :=
      lane_broadcast machine misfit scalars unbound distinct below fits sourceBefore done
    rw [isLoad] at lane ⊢
    rw [ParallelVector.rightLane]
    split
    next scalar =>
      -- A vector that is taken for a scalar has one element, which every lane reads.
      rw [Bool.and_eq_true] at scalar
      have short : (Expr.loadVector buffer index).isLongVector nest = false := by
        rw [scalar.2, Bool.true_and] at notScalar
        exact notScalar
      have first :=
        (lane_broadcast machine misfit scalars unbound distinct
          (Nat.lt_of_le_of_lt (Nat.zero_le _) below) fits sourceBefore done).2
      rw [Expr.eval, eval_of_not_isLongVector distinct below
        (fits.fits _ List.mem_cons_self) short, ← first]
      rfl
    next => exact lane
  | loadMatrix buffer row column =>
    rw [← lane]
    exact rightLane_matrix machine scalars unbound distinct
      (fits.forms _ List.mem_cons_self) op after _ _
  | _ => exact lane

end

theorem laneValue_lowerInBlock (injective : Function.Injective fresh)
    (distinct : nest.outerVar ≠ nest.innerVar)
    (below : position < nest.outerExtent * nest.innerExtent)
    (sourceAfter : AgreeOnUsed fresh after source) (expr : Expr)
    (fits : expr.FitsBlock shapes nest indices fresh collect)
    (placed : expr.vectorsPlaced nest) (nextTemp : Nat) (before : Memory Value)
    (sourceBefore : AgreeOnUsed fresh before source)
    (done :
      BroadcastsDone machine misfit scalars unbound nest indices fresh nextTemp
        (expr.lowerInBlock shapes nest fresh collect nextTemp) before after) :
    (expr.lowerInBlock shapes nest fresh collect nextTemp).value.laneValue machine scalars
        nest.innerVar (inIteration nest.outerVar indices unbound) after position =
      expr.eval machine shapes
        (nest.scalarsAt machine scalars ((position / nest.innerExtent : Nat) : Int)
          ((position % nest.innerExtent : Nat) : Int))
        (nest.indicesAt indices ((position / nest.innerExtent : Nat) : Int)
          ((position % nest.innerExtent : Nat) : Int)) source := by
  induction expr generalizing nextTemp before with
  | imm value => rfl
  | var name =>
    have vars := fits.vars
    simp only [Expr.vars, List.mem_singleton] at vars
    simp [Expr.lowerInBlock, Expr.lowerLoads, ParallelVector.Expr.laneValue, Expr.eval,
      LoopNest.scalarsAt, Ne.symm vars.1, Ne.symm vars.2]
  | loadVector buffer index =>
    obtain ⟨isLoad, lane⟩ :=
      lane_broadcast machine misfit scalars unbound distinct below fits sourceBefore done
    rw [isLoad, Expr.eval, ← lane]
    rfl
  | loadMatrix buffer row column =>
    have form := fits.forms _ List.mem_cons_self
    have cell := Access.cell_block form (fits.fits _ List.mem_cons_self) below
    have isUsed := fits.used _ List.mem_cons_self
    simp only [Expr.lowerInBlock, Expr.lowerLoads, ParallelVector.Expr.laneValue, Expr.eval,
      eval_zeroOuter distinct]
    rw [sourceAfter buffer _ isUsed]
    exact congrArg _ cell.symm
  | call op arg ih =>
    have argument :=
      ih ⟨fits.forms, fits.fits, fits.collected, fits.used, fits.vars⟩ placed
        nextTemp before sourceBefore done
    simp only [Expr.lowerInBlock] at argument
    simp only [Expr.lowerInBlock, Expr.lowerLoads, ParallelVector.Expr.laneValue, Expr.eval,
      argument]
  | binary op a b ihA ihB =>
    simp only [Expr.vectorsPlaced, Bool.and_eq_true, Bool.not_eq_true'] at placed
    have leftDone := done.left machine scalars unbound injective
    have rightDone := done.right machine scalars unbound
    have usedBetween :=
      @agreeOnUsed_broadcasts shapes nest indices fresh collect Value machine misfit scalars
        unbound a nextTemp before
    have sourceBetween :
        AgreeOnUsed fresh
          (runCalls machine misfit scalars (inIteration nest.outerVar indices unbound) before
            (a.lowerInBlock shapes nest fresh collect nextTemp).broadcasts)
          source :=
      fun name cell used => (usedBetween name cell used).trans (sourceBefore name cell used)
    have leftFits := fits.part (List.subset_append_left _ _) (List.subset_append_left _ _)
    have rightFits := fits.part (List.subset_append_right _ _) (List.subset_append_right _ _)
    have left := ihA leftFits placed.1.1 nextTemp before sourceBefore leftDone
    have right := ihB rightFits placed.1.2 _ _ sourceBetween rightDone
    have rightRead :=
      rightLane_lowerInBlock machine misfit scalars unbound distinct below op rightFits
        placed.2 sourceBetween rightDone right
    rw [Expr.eval, ← left, ← rightRead]
    rfl

end Blocks

end TilelangAscend.ParallelNest
