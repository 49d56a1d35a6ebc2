import Mathlib.Logic.Function.Basic
import Mathlib.Data.List.Basic

namespace TilelangAscend.LoopFission

/-!
# Loop fission

A loop whose body is a list of assignments may be run one iteration after the other, or one
assignment after the other, each over every iteration at once.  This module states both orders
over an arbitrary memory of cells and shows that they agree when the iterations are independent.
-/

variable {Cell Value : Type*}

/-- One assignment of a loop body, as a function of the iteration it runs in. -/
structure Assign (Cell Value : Type*) where
  target : Nat → Cell
  reads : Nat → Cell → Prop
  value : Nat → (Cell → Value) → Value
  value_local :
    ∀ iteration memory other,
      (∀ cell, reads iteration cell → memory cell = other cell) →
        value iteration memory = value iteration other

/-- A cell that some assignment writes in the iteration. -/
def Writes (body : List (Assign Cell Value)) (iteration : Nat) (cell : Cell) : Prop :=
  ∃ assign ∈ body, assign.target iteration = cell

/-- A cell that some assignment writes or reads in the iteration. -/
def Touches (body : List (Assign Cell Value)) (iteration : Nat) (cell : Cell) : Prop :=
  ∃ assign ∈ body, assign.target iteration = cell ∨ assign.reads iteration cell

/-- No iteration writes a cell that another one reads or writes. -/
def Independent (body : List (Assign Cell Value)) (count : Nat) : Prop :=
  ∀ writer < count, ∀ other < count, writer ≠ other →
    ∀ cell, Writes body writer cell → ¬ Touches body other cell

/-- One assignment ran over every iteration at once, each reading the memory before. -/
structure Performed
    (assign : Assign Cell Value)
    (count : Nat)
    (before after : Cell → Value) : Prop where
  written : ∀ iteration < count, after (assign.target iteration) = assign.value iteration before
  kept : ∀ cell, (∀ iteration < count, assign.target iteration ≠ cell) → after cell = before cell

/-- The assignments ran one after the other, each over every iteration at once. -/
def PerformedInTurn (count : Nat) :
    List (Assign Cell Value) → (Cell → Value) → (Cell → Value) → Prop
  | [], before, after => after = before
  | assign :: rest, before, after =>
    ∃ between, Performed assign count before between ∧ PerformedInTurn count rest between after

variable {body : List (Assign Cell Value)} {iteration count : Nat} {cell : Cell}
  {other memory before after : Cell → Value} {assign : Assign Cell Value}

theorem Writes.touches (writes : Writes body iteration cell) : Touches body iteration cell := by
  obtain ⟨assign, member, isTarget⟩ := writes
  exact ⟨assign, member, Or.inl isTarget⟩

/-- Two memories agree on the cells that an iteration of the body touches. -/
def AgreeOn (body : List (Assign Cell Value)) (iteration : Nat)
    (memory other : Cell → Value) : Prop :=
  ∀ cell, Touches body iteration cell → memory cell = other cell

theorem AgreeOn.value_eq (agree : AgreeOn body iteration memory other) (member : assign ∈ body) :
    assign.value iteration memory = assign.value iteration other := by
  apply assign.value_local
  intro cell read
  exact agree cell ⟨assign, member, Or.inr read⟩

theorem PerformedInTurn.kept (part : List (Assign Cell Value))
    (performed : PerformedInTurn count part before after)
    (unwritten : ∀ iteration < count, ¬ Writes part iteration cell) :
    after cell = before cell := by
  induction part generalizing before with
  | nil => rw [performed]
  | cons assign rest ih =>
    obtain ⟨between, first, later⟩ := performed
    have keptLater : after cell = between cell := by
      apply ih later
      rintro iteration below ⟨writer, member, isTarget⟩
      exact unwritten iteration below ⟨writer, List.mem_cons_of_mem _ member, isTarget⟩
    rw [keptLater]
    apply first.kept
    intro iteration below isTarget
    exact unwritten iteration below ⟨assign, List.mem_cons_self, isTarget⟩

/-! ## One iteration -/

variable [DecidableEq Cell]

/-- The memory after an assignment ran in one iteration. -/
def Assign.perform (assign : Assign Cell Value) (iteration : Nat)
    (memory : Cell → Value) : Cell → Value :=
  Function.update memory (assign.target iteration) (assign.value iteration memory)

/-- The memory after the whole body ran in one iteration. -/
def runIteration (body : List (Assign Cell Value)) (iteration : Nat)
    (memory : Cell → Value) : Cell → Value :=
  body.foldl (fun current assign => assign.perform iteration current) memory

/-- The memory after the iterations below `count` ran one after the other. -/
def runSerial (body : List (Assign Cell Value)) (memory : Cell → Value) :
    Nat → Cell → Value
  | 0 => memory
  | count + 1 => runIteration body count (runSerial body memory count)

theorem runIteration_kept (body : List (Assign Cell Value)) (memory : Cell → Value)
    (unwritten : ¬ Writes body iteration cell) :
    runIteration body iteration memory cell = memory cell := by
  induction body generalizing memory with
  | nil => rfl
  | cons assign rest ih =>
    have notFirst : cell ≠ assign.target iteration := by
      intro isTarget
      exact unwritten ⟨assign, List.mem_cons_self, isTarget.symm⟩
    have notRest : ¬ Writes rest iteration cell := by
      rintro ⟨writer, member, isTarget⟩
      exact unwritten ⟨writer, List.mem_cons_of_mem _ member, isTarget⟩
    have afterFirst := ih (assign.perform iteration memory) notRest
    calc runIteration (assign :: rest) iteration memory cell
        = assign.perform iteration memory cell := afterFirst
      _ = memory cell := Function.update_of_ne notFirst _ _

theorem AgreeOn.perform (agree : AgreeOn body iteration memory other) (member : assign ∈ body) :
    AgreeOn body iteration (assign.perform iteration memory) (assign.perform iteration other) := by
  intro cell touched
  by_cases isTarget : cell = assign.target iteration
  · subst isTarget
    simp [Assign.perform, agree.value_eq member]
  · simp [Assign.perform, Function.update_of_ne isTarget, agree cell touched]

theorem AgreeOn.runIteration (part : List (Assign Cell Value))
    (inBody : ∀ assign ∈ part, assign ∈ body) (agree : AgreeOn body iteration memory other) :
    AgreeOn body iteration (runIteration part iteration memory)
      (runIteration part iteration other) := by
  induction part generalizing memory other with
  | nil => exact agree
  | cons assign rest ih =>
    apply ih
    · intro later member
      exact inBody later (List.mem_cons_of_mem _ member)
    · exact agree.perform (inBody assign List.mem_cons_self)

/-! ## The serial order -/

/-- A cell that no iteration writes keeps its value. -/
theorem runSerial_kept {body : List (Assign Cell Value)} {memory : Cell → Value}
    {cell : Cell} (count : Nat) (unwritten : ∀ iteration < count, ¬ Writes body iteration cell) :
    runSerial body memory count cell = memory cell := by
  induction count with
  | zero => rfl
  | succ earlier ih =>
    rw [runSerial, runIteration_kept _ _ (unwritten earlier (Nat.lt_succ_self earlier))]
    apply ih
    intro iteration below
    exact unwritten iteration (Nat.lt_succ_of_lt below)

/-- A written cell holds what its iteration computes. -/
theorem runSerial_written {body : List (Assign Cell Value)} {memory : Cell → Value}
    {iteration count total : Nat} {cell : Cell} (independent : Independent body total)
    (within : count ≤ total) (below : iteration < count) (writes : Writes body iteration cell) :
    runSerial body memory count cell = runIteration body iteration memory cell := by
  induction count with
  | zero => exact absurd below (Nat.not_lt_zero _)
  | succ earlier ih =>
    have earlierBelow : earlier < total := within
    rcases Nat.lt_succ_iff_lt_or_eq.mp below with before | last
    · have notLast : ¬ Writes body earlier cell := by
        intro alsoLast
        exact independent iteration (Nat.lt_trans before earlierBelow) earlier earlierBelow
          (Nat.ne_of_lt before) cell writes alsoLast.touches
      rw [runSerial, runIteration_kept _ _ notLast]
      exact ih (Nat.le_of_lt earlierBelow) before
    · subst last
      have agree : AgreeOn body iteration (runSerial body memory iteration) memory := by
        intro touchedCell touched
        apply runSerial_kept
        intro other otherBelow otherWrites
        exact independent other (Nat.lt_trans otherBelow earlierBelow) iteration earlierBelow
          (Nat.ne_of_lt otherBelow) touchedCell otherWrites touched
      have ran := agree.runIteration body (fun _ member => member)
      exact ran cell writes.touches

/-! ## The fissioned order -/

theorem Performed.agreeOn (independent : Independent body count)
    (below : iteration < count) (member : assign ∈ body)
    (performed : Performed assign count before after)
    (agree : AgreeOn body iteration before other) :
    AgreeOn body iteration after (assign.perform iteration other) := by
  intro cell touched
  by_cases isTarget : cell = assign.target iteration
  · subst isTarget
    rw [performed.written iteration below, agree.value_eq member]
    simp [Assign.perform]
  · have unwritten : ∀ writer < count, assign.target writer ≠ cell := by
      intro writer writerBelow writesCell
      by_cases same : writer = iteration
      · subst same
        exact isTarget writesCell.symm
      · exact independent writer writerBelow iteration below same cell
          ⟨assign, member, writesCell⟩ touched
    rw [performed.kept cell unwritten, agree cell touched]
    simp [Assign.perform, Function.update_of_ne isTarget]

theorem PerformedInTurn.agreeOn (independent : Independent body count)
    (below : iteration < count) (part : List (Assign Cell Value))
    (inBody : ∀ assign ∈ part, assign ∈ body) (performed : PerformedInTurn count part before after)
    (agree : AgreeOn body iteration before other) :
    AgreeOn body iteration after (runIteration part iteration other) := by
  induction part generalizing before other with
  | nil =>
    rw [performed]
    exact agree
  | cons assign rest ih =>
    obtain ⟨between, first, later⟩ := performed
    apply ih _ later
    · exact first.agreeOn independent below (inBody assign List.mem_cons_self) agree
    · intro laterAssign member
      exact inBody laterAssign (List.mem_cons_of_mem _ member)

/-- Independent iterations may run statement by statement. -/
theorem performedInTurn_eq_runSerial (independent : Independent body count)
    (performed : PerformedInTurn count body before after) :
    after = runSerial body before count := by
  funext cell
  by_cases written : ∃ iteration < count, Writes body iteration cell
  · obtain ⟨iteration, below, writes⟩ := written
    have agree : AgreeOn body iteration before before := fun _ _ => rfl
    have inTurn := performed.agreeOn independent below body (fun _ member => member) agree
    rw [runSerial_written independent (Nat.le_refl count) below writes]
    exact inTurn cell writes.touches
  · have unwritten : ∀ iteration < count, ¬ Writes body iteration cell := by
      intro iteration below writes
      exact written ⟨iteration, below, writes⟩
    rw [runSerial_kept count unwritten]
    exact performed.kept body unwritten

end TilelangAscend.LoopFission
