import TilelangAscend.ParallelNestValues

namespace TilelangAscend.ParallelNest

/-!
# The serial nest over cells

The serial nest performs the assignments of its body in every iteration, a row at a time, and so
does one loop over all iterations of the block.  The buffers that the lowering creates are masked,
so that the calls of a store may be compared with its assignment.
-/

open ParallelVector (Var IndexExpr Imm BinaryOp UnaryOp Buffer AccessPtr VectorCall Machine Memory
  calculateBufferOffset decomposeExpression inIteration writeLanes isScalarAccess sourceCells
  withoutTemps)

section Cells

variable {Value : Type}

open Classical in
/-- The cells of a memory, with those of an initial memory for the new buffers. -/
noncomputable def visibleCells (fresh : Nat → String) (initial memory : Memory Value) :
    String × Int → Value :=
  fun cell => if ∃ id, cell.1 = fresh id then initial (.named cell.1) cell.2
    else memory (.named cell.1) cell.2

theorem visibleCells_used {fresh : Nat → String} {initial memory : Memory Value}
    {cell : String × Int} (used : ∀ id, cell.1 ≠ fresh id) :
    visibleCells fresh initial memory cell = memory (.named cell.1) cell.2 :=
  if_neg fun ⟨id, same⟩ => used id same

theorem visibleCells_self (fresh : Nat → String) (memory : Memory Value) :
    visibleCells fresh memory memory = sourceCells memory := by
  funext cell
  rw [visibleCells, ite_self]
  rfl

variable (machine : Machine Value) (shapes : Shapes)

theorem eval_congr (nest : LoopNest) (indices : Var → Int) (scalars : Var → Value)
    (outer inner : Int) {memory other : Memory Value} (expr : Expr)
    (agree :
      ∀ access ∈ expr.accesses,
        memory (.named access.buffer) (access.cell shapes nest indices outer inner) =
          other (.named access.buffer) (access.cell shapes nest indices outer inner)) :
    expr.eval machine shapes scalars (nest.indicesAt indices outer inner) memory =
      expr.eval machine shapes scalars (nest.indicesAt indices outer inner) other := by
  induction expr with
  | imm value => rfl
  | var name => rfl
  | loadVector buffer index => exact agree (.vector buffer index) List.mem_cons_self
  | loadMatrix buffer row column => exact agree (.matrix buffer row column) List.mem_cons_self
  | binary op a b ihA ihB =>
    rw [Expr.eval, Expr.eval,
      ihA fun access member => agree access (List.mem_append_left _ member),
      ihB fun access member => agree access (List.mem_append_right _ member)]
  | call op arg ih => rw [Expr.eval, Expr.eval, ih agree]

variable (nest : LoopNest) (indices : Var → Int) (scalars : Var → Value)

/-- A store as an assignment to a cell, in the iteration of the nest that each number stands
for. -/
def Store.assignAt (position : Nat → Nat × Nat) (store : Store) :
    LoopFission.Assign (String × Int) Value where
  target number :=
    (store.buffer, store.target.cell shapes nest indices (position number).1 (position number).2)
  reads number cell :=
    ∃ access ∈ store.value.accesses, access.buffer = cell.1 ∧
      access.cell shapes nest indices (position number).1 (position number).2 = cell.2
  value number cells :=
    store.value.eval machine shapes
      (nest.scalarsAt machine scalars (position number).1 (position number).2)
      (nest.indicesAt indices (position number).1 (position number).2) (withoutTemps cells)
  value_local := by
    intro number cells other agree
    apply eval_congr
    intro access member
    exact agree (access.buffer, _) ⟨access, member, rfl, rfl⟩

variable {position : Nat → Nat × Nat} {outer number inner count : Nat}

theorem sourceCells_runStore (isPosition : position number = (outer, inner))
    (memory : Memory Value) (store : Store) :
    sourceCells (runStore machine scalars shapes nest indices outer inner memory store) =
      (store.assignAt machine shapes nest indices scalars position).perform number
        (sourceCells memory) := by
  have value :
      (store.assignAt machine shapes nest indices scalars position).value number
          (sourceCells memory) =
        store.value.eval machine shapes (nest.scalarsAt machine scalars outer inner)
          (nest.indicesAt indices outer inner) memory := by
    simp only [Store.assignAt, isPosition]
    exact eval_congr _ _ _ _ _ _ _ _ fun access member => rfl
  funext named
  obtain ⟨name, cell⟩ := named
  rw [LoopFission.Assign.perform, value]
  simp only [Store.assignAt, isPosition]
  by_cases sameBuffer : name = store.buffer
  · subst sameBuffer
    by_cases sameCell : cell = store.target.cell shapes nest indices outer inner
    · subst sameCell
      rw [Function.update_self, sourceCells, runStore, Function.update_self]
      exact Function.update_self _ _ _
    · rw [Function.update_of_ne (fun same => sameCell (Prod.mk.inj same).2), sourceCells, runStore,
        Function.update_self]
      exact Function.update_of_ne sameCell _ _
  · rw [Function.update_of_ne (fun same => sameBuffer (Prod.mk.inj same).1), sourceCells, runStore,
      Function.update_of_ne fun same => sameBuffer (Buffer.named.inj same)]
    rfl

/-- The assignments of a list of stores. -/
def assignsAt (position : Nat → Nat × Nat) (body : List Store) :
    List (LoopFission.Assign (String × Int) Value) :=
  body.map (Store.assignAt machine shapes nest indices scalars position)

theorem sourceCells_iteration (isPosition : position number = (outer, inner))
    (body : List Store) (memory : Memory Value) :
    sourceCells (body.foldl (runStore machine scalars shapes nest indices outer inner) memory) =
      LoopFission.runIteration (assignsAt machine shapes nest indices scalars position body) number
        (sourceCells memory) := by
  induction body generalizing memory with
  | nil => rfl
  | cons store rest ih =>
    rw [List.foldl_cons, ih, sourceCells_runStore machine shapes nest indices scalars isPosition]
    rfl

theorem sourceCells_runRow {position : Nat → Nat × Nat} {first outer : Nat}
    {cells : String × Int → Value} {memory : Memory Value}
    (before :
      sourceCells memory =
        LoopFission.runSerial (assignsAt machine shapes nest indices scalars position nest.body)
          cells first)
    {count : Nat}
    (isRow : ∀ inner < count, position (first + inner) = (outer, inner)) :
    sourceCells (runRow machine scalars shapes nest indices outer memory count) =
      LoopFission.runSerial (assignsAt machine shapes nest indices scalars position nest.body)
        cells (first + count) := by
  induction count with
  | zero => exact before
  | succ inner ih =>
    have earlier := ih fun other below => isRow other (Nat.lt_succ_of_lt below)
    rw [runRow, sourceCells_iteration machine shapes nest indices scalars
      (isRow inner (Nat.lt_succ_self inner)), earlier]
    rfl

/-- The iterations of a row in their order. -/
def rowPosition (outer : Nat) (number : Nat) : Nat × Nat :=
  (outer, number)

/-- The iterations of the nest in their order. -/
def blockPosition (nest : LoopNest) (number : Nat) : Nat × Nat :=
  (number / nest.innerExtent, number % nest.innerExtent)

theorem sourceCells_row (outer : Nat) (memory : Memory Value) :
    sourceCells (runRow machine scalars shapes nest indices outer memory nest.innerExtent) =
      LoopFission.runSerial
        (assignsAt machine shapes nest indices scalars (rowPosition outer) nest.body)
        (sourceCells memory) nest.innerExtent := by
  have row :=
    @sourceCells_runRow Value machine shapes nest indices scalars (rowPosition outer) 0 outer
      (sourceCells memory) memory rfl nest.innerExtent
      fun inner _ => by rw [Nat.zero_add, rowPosition]
  rw [row, Nat.zero_add]

theorem sourceCells_runRows (memory : Memory Value) (count : Nat) :
    sourceCells (runRows machine scalars shapes nest indices memory count) =
      LoopFission.runSerial
        (assignsAt machine shapes nest indices scalars (blockPosition nest) nest.body)
        (sourceCells memory) (count * nest.innerExtent) := by
  induction count with
  | zero =>
    rw [Nat.zero_mul]
    rfl
  | succ outer ih =>
    rw [runRows, Nat.succ_mul]
    apply sourceCells_runRow machine shapes nest indices scalars ih
    intro inner below
    have positive : 0 < nest.innerExtent := Nat.lt_of_le_of_lt (Nat.zero_le _) below
    rw [blockPosition, Nat.add_comm, Nat.add_mul_div_right _ _ positive,
      Nat.div_eq_of_lt below, Nat.zero_add, Nat.add_mul_mod_self_right, Nat.mod_eq_of_lt below]

variable {machine shapes nest indices scalars}

theorem InScope.assigns_independent (inScope : InScope shapes nest indices)
    (within :
      ∀ number < count,
        (position number).1 < nest.outerExtent ∧ (position number).2 < nest.innerExtent)
    (injective : ∀ first < count, ∀ second < count, position first = position second →
      first = second) :
    LoopFission.Independent (assignsAt machine shapes nest indices scalars position nest.body)
      count := by
  have isIteration : ∀ number < count, nest.Iteration (position number).1 (position number).2 := by
    intro number below
    have bounds := within number below
    constructor <;> constructor <;> omega
  rintro writer writerBelow other otherBelow distinct cell ⟨writing, writingIn, writes⟩
    ⟨touching, touchingIn, touches⟩
  obtain ⟨store, member, rfl⟩ := List.mem_map.mp writingIn
  obtain ⟨otherStore, otherMember, rfl⟩ := List.mem_map.mp touchingIn
  subst writes
  have different :
      (((position writer).1 : Int), ((position writer).2 : Int)) ≠
        (((position other).1 : Int), ((position other).2 : Int)) := by
    intro same
    apply distinct (injective writer writerBelow other otherBelow _)
    have components := Prod.mk.inj same
    exact Prod.ext (Int.ofNat_inj.mp components.1) (Int.ofNat_inj.mp components.2)
  have apart :=
    inScope.independent _ _ _ _ (isIteration writer writerBelow) (isIteration other otherBelow)
      different store.buffer _ ⟨store, member, rfl, rfl⟩
  rcases touches with alsoWrites | ⟨access, reads, isBuffer, isCell⟩
  · have components := Prod.mk.inj alsoWrites
    exact apart.1 ⟨otherStore, otherMember, components.1, components.2⟩
  · exact apart.2 ⟨otherStore, otherMember, access, reads, isBuffer, isCell⟩

/-- The iterations of one row do not depend on each other. -/
theorem InScope.row_independent (inScope : InScope shapes nest indices)
    (below : outer < nest.outerExtent) :
    LoopFission.Independent
      (assignsAt machine shapes nest indices scalars (rowPosition outer) nest.body)
      nest.innerExtent := by
  apply inScope.assigns_independent
  · intro number within
    exact ⟨below, within⟩
  · intro first _ second _ same
    exact (Prod.mk.inj same).2

/-- The iterations of a block do not depend on each other. -/
theorem InScope.block_independent (inScope : InScope shapes nest indices) :
    LoopFission.Independent
      (assignsAt machine shapes nest indices scalars (blockPosition nest) nest.body)
      (nest.outerExtent * nest.innerExtent) := by
  apply inScope.assigns_independent
  · intro number within
    refine ⟨(position_eq number within).1, ?_⟩
    apply Nat.mod_lt
    exact Nat.pos_of_mul_pos_left (Nat.lt_of_le_of_lt (Nat.zero_le _) within)
  · intro first _ second _ same
    have components := Prod.mk.inj same
    rw [← Nat.div_add_mod first nest.innerExtent, components.1, components.2,
      Nat.div_add_mod second nest.innerExtent]

/-- Calls that leave the right lanes perform the store. -/
theorem performed_of_leavesLanes {fresh : Nat → String} {misfit : Int → Value}
    {callScalars : Var → Value} {callIndices : Var → Int} {store : Store}
    {calls : List Call} {first : Int} {value : Memory Value → Int → Value}
    (leaves :
      LeavesLanes machine misfit callScalars callIndices fresh calls store.buffer first count value)
    (storeUsed : ∀ id, store.buffer ≠ fresh id)
    (loadsUsed : ∀ access ∈ store.value.accesses, ∀ id, access.buffer ≠ fresh id)
    (targets :
      ∀ number < count,
        store.target.cell shapes nest indices (position number).1 (position number).2 =
          first + number)
    (values :
      ∀ memory, ∀ number < count,
        value memory number =
          store.value.eval machine shapes
            (nest.scalarsAt machine scalars (position number).1 (position number).2)
            (nest.indicesAt indices (position number).1 (position number).2) memory)
    (initial memory : Memory Value) :
    LoopFission.Performed (store.assignAt machine shapes nest indices scalars position) count
      (visibleCells fresh initial memory)
      (visibleCells fresh initial
        (runCalls machine misfit callScalars callIndices memory calls)) := by
  constructor
  · intro number below
    have lane := leaves.lanes memory number (Int.natCast_nonneg number) (by exact_mod_cast below)
    simp only [Store.assignAt]
    rw [visibleCells_used storeUsed, targets number below, lane, values memory number below]
    apply eval_congr
    intro access member
    have visible :=
      @visibleCells_used Value fresh initial memory
        (access.buffer, access.cell shapes nest indices (position number).1 (position number).2)
        (loadsUsed access member)
    exact visible.symm
  · rintro ⟨name, cell⟩ unwritten
    by_cases isNew : ∃ id, name = fresh id
    · rw [visibleCells, visibleCells, if_pos isNew, if_pos isNew]
    · have used : ∀ id, name ≠ fresh id := fun id same => isNew ⟨id, same⟩
      rw [visibleCells_used used, visibleCells_used used]
      apply leaves.kept memory name cell _ used
      rintro ⟨same, fromFirst, belowEnd⟩
      subst same
      apply unwritten (cell - first).toNat (by omega)
      simp only [Store.assignAt]
      rw [targets _ (by omega)]
      exact congrArg (Prod.mk store.buffer) (by omega)

end Cells

end TilelangAscend.ParallelNest
