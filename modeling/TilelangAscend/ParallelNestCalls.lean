import TilelangAscend.ParallelNest
import Mathlib.Data.List.MinMax

namespace TilelangAscend.ParallelNest

/-!
# What the calls of a store leave

The calls of a store first broadcast vectors into new buffers and then compute the value lane by
lane into one range of the destination.  This module shows that the range holds the lane values of
the lowered expression, read from the memory after the broadcasts, and that the calls leave
everything else but new buffers alone.
-/

open ParallelVector (Var IndexExpr Imm BinaryOp UnaryOp Buffer AccessPtr VectorCall Machine Memory
  calculateBufferOffset decomposeExpression inIteration writeLanes)

/-! ## New names -/

variable {used : List String} {name : String}

theorem length_lt_freshName (member : name ∈ used) (id : Nat) :
    name.length < (freshName used id).length := by
  have longest : name.length ≤ (used.map String.length).foldr max 0 :=
    List.le_max_of_le (List.mem_map_of_mem member) (Nat.le_refl _)
  rw [freshName, String.length_ofList, List.length_replicate]
  omega

theorem ne_freshName (member : name ∈ used) (id : Nat) : name ≠ freshName used id := by
  intro same
  have longer := length_lt_freshName member id
  rw [← same] at longer
  exact Nat.lt_irrefl _ longer

theorem freshName_injective (used : List String) : Function.Injective (freshName used) := by
  intro first second same
  have sameLength := congrArg String.length same
  simp only [freshName, String.length_ofList, List.length_replicate] at sameLength
  omega

/-! ## Lists of calls -/

section Calls

variable {Value : Type} {machine : Machine Value} {misfit : Int → Value}
  {scalars : Var → Value} {indices : Var → Int}

theorem runCalls_append (memory : Memory Value) (first second : List Call) :
    runCalls machine misfit scalars indices memory (first ++ second) =
      runCalls machine misfit scalars indices
        (runCalls machine misfit scalars indices memory first) second :=
  List.foldl_append

theorem runCalls_vector (memory : Memory Value) (calls : List VectorCall) :
    runCalls machine misfit scalars indices memory (calls.map .vector) =
      ParallelVector.runCalls machine scalars indices memory calls := by
  rw [runCalls, List.foldl_map]
  rfl

theorem writeLanes_other {memory : Memory Value} {dst buffer : Buffer}
    {offset count cell : Int} {lane : Int → Value}
    (other : ¬ (buffer = dst ∧ offset ≤ cell ∧ cell < offset + count)) :
    writeLanes memory dst offset count lane buffer cell = memory buffer cell :=
  if_neg other

end Calls

/-! ## Broadcasts -/

section Broadcasts

variable {Value : Type} (machine : Machine Value) (misfit : Int → Value)
  (scalars : Var → Value) (indices : Var → Int) (shapes : Shapes) {fresh : Nat → String}
  (vectorDimVar : Var) (outerDimVar : Option Var)
  (collect is2d : Bool) (outerExtent innerVecLen : Int)

theorem lowerLoads_nextTemp (expr : Expr) (nextTemp : Nat) :
    nextTemp ≤
      (expr.lowerLoads shapes fresh vectorDimVar outerDimVar collect is2d outerExtent innerVecLen
        nextTemp).nextTemp := by
  induction expr generalizing nextTemp with
  | imm value => exact Nat.le_refl _
  | var name => exact Nat.le_refl _
  | loadVector buffer index =>
    simp only [Expr.lowerLoads]
    split
    · exact Nat.le_add_right _ 2
    · exact Nat.le_refl _
  | loadMatrix buffer row column => exact Nat.le_refl _
  | binary op a b ihA ihB => exact Nat.le_trans (ihA nextTemp) (ihB _)
  | call op arg ih => exact ih nextTemp

theorem runCalls_broadcasts_kept (expr : Expr) {nextTemp : Nat} {name : String}
    (kept :
      ∀ id, nextTemp ≤ id →
        id < (expr.lowerLoads shapes fresh vectorDimVar outerDimVar collect is2d outerExtent
          innerVecLen nextTemp).nextTemp →
          name ≠ fresh id)
    (memory : Memory Value)
    (cell : Int) :
    runCalls machine misfit scalars indices memory
        (expr.lowerLoads shapes fresh vectorDimVar outerDimVar collect is2d outerExtent
          innerVecLen nextTemp).broadcasts (.named name) cell =
      memory (.named name) cell := by
  induction expr generalizing nextTemp memory with
  | imm value => rfl
  | var value => rfl
  | loadVector buffer index =>
    simp only [Expr.lowerLoads] at kept ⊢
    split at kept
    next dim found =>
      have isOther : name ≠ fresh nextTemp :=
        kept nextTemp (Nat.le_refl _) (Nat.lt_add_of_pos_right Nat.two_pos)
      rw [runCalls, List.foldl_cons, List.foldl_nil, runCall]
      exact writeLanes_other fun within => isOther (Buffer.named.inj within.1)
    next notFound => rfl
  | loadMatrix buffer row column => rfl
  | binary op a b ihA ihB =>
    simp only [Expr.lowerLoads] at kept ⊢
    have middle :=
      @lowerLoads_nextTemp shapes fresh vectorDimVar outerDimVar collect is2d outerExtent
        innerVecLen a nextTemp
    rw [runCalls_append, ihB, ihA]
    · intro id from_ below
      apply kept id from_
      exact Nat.lt_of_lt_of_le below (lowerLoads_nextTemp _ _ _ _ _ _ _ _ _)
    · intro id from_ below
      exact kept id (Nat.le_trans middle from_) below
  | call op arg ih => exact ih kept memory

end Broadcasts

/-! ## The calls of a store -/

section Stores

variable {Value : Type} (machine : Machine Value) (misfit : Int → Value)
  (scalars : Var → Value) (indices : Var → Int)

/-- The calls leave a value in each of `count` cells of a buffer, and change nothing else but the
new buffers. -/
structure LeavesLanes
    (fresh : Nat → String)
    (calls : List Call)
    (dst : String)
    (first count : Int)
    (value : Memory Value → Int → Value) : Prop where
  lanes :
    ∀ memory lane, 0 ≤ lane → lane < count →
      runCalls machine misfit scalars indices memory calls (.named dst) (first + lane) =
        value memory lane
  kept :
    ∀ memory name cell, ¬ (name = dst ∧ first ≤ cell ∧ cell < first + count) →
      (∀ id, name ≠ fresh id) →
        runCalls machine misfit scalars indices memory calls (.named name) cell =
          memory (.named name) cell

variable {machine misfit scalars indices} {broadcasts : List Call} {dst : String} {count : Int}
  {value : Memory Value → Int → Value}

theorem leavesLanes_of_computes {fresh : Nat → String} {calls : List VectorCall}
    {offset : IndexExpr} {nextTemp : Nat}
    (keepsUsed :
      ∀ (memory : Memory Value) name cell, (∀ id, name ≠ fresh id) →
        runCalls machine misfit scalars indices memory broadcasts (.named name) cell =
          memory (.named name) cell)
    (computes :
      ParallelVector.Computes machine scalars indices count calls
        { buffer := .named dst, offset := offset } nextTemp value) :
    LeavesLanes machine misfit scalars indices fresh (broadcasts ++ calls.map .vector) dst
      (offset.eval indices) count
      fun memory => value (runCalls machine misfit scalars indices memory broadcasts) := by
  constructor
  · intro memory lane nonneg below
    rw [runCalls_append, runCalls_vector]
    exact computes.lanes _ lane nonneg below
  · intro memory name cell outside used
    rw [runCalls_append, runCalls_vector, ← keepsUsed memory name cell used]
    apply computes.kept
    · rintro ⟨same, within⟩
      exact outside ⟨Buffer.named.inj same, within⟩
    · intro id _ isTemp
      cases isTemp

/-- A copy that moves `count` elements to the beginning of its destination, after calls that write
new buffers only. -/
theorem leavesLanes_of_copy {fresh : Nat → String} {copy : Call} {first : Int}
    {moved : Memory Value → Int → Value}
    (keepsUsed :
      ∀ (memory : Memory Value) name cell, (∀ id, name ≠ fresh id) →
        runCalls machine misfit scalars indices memory broadcasts (.named name) cell =
          memory (.named name) cell)
    (atBeginning : 0 < count → first = 0)
    (copies :
      ∀ memory, runCall machine misfit scalars indices memory copy =
        writeLanes memory (.named dst) 0 count (moved memory))
    (movesValue : ∀ memory lane, 0 < count → moved memory lane = value memory lane) :
    LeavesLanes machine misfit scalars indices fresh (broadcasts ++ [copy]) dst first count
      fun memory => value (runCalls machine misfit scalars indices memory broadcasts) := by
  constructor
  · intro memory lane nonneg below
    have nonempty : 0 < count := Int.lt_of_le_of_lt nonneg below
    have beginning := atBeginning nonempty
    subst beginning
    rw [runCalls_append]
    calc runCalls machine misfit scalars indices _ [copy] (.named dst) (0 + lane)
        = writeLanes _ (.named dst) 0 count (moved _) (.named dst) (0 + lane) :=
          congrFun (congrFun (copies _) _) _
      _ = moved _ lane := ParallelVector.writeLanes_lane _ _ _ _ nonneg below
      _ = value _ lane := movesValue _ _ nonempty
  · intro memory name cell outside used
    rw [runCalls_append, ← keepsUsed memory name cell used]
    calc runCalls machine misfit scalars indices _ [copy] (.named name) cell
        = writeLanes _ (.named dst) 0 count (moved _) (.named name) cell :=
          congrFun (congrFun (copies _) _) _
      _ = runCalls machine misfit scalars indices memory broadcasts (.named name) cell := by
          apply writeLanes_other
          rintro ⟨same, within⟩
          have beginning := atBeginning (by omega)
          subst beginning
          exact outside ⟨Buffer.named.inj same, within⟩

/-- The elements that the copy of a bare load moves. -/
def copiedBy (shapes : Shapes) (elementCount : Int) (sourceWidth : Option Int) (src dst : String) :
    Int :=
  match sourceWidth with
  | some _ => shapes.extent dst * shapes.width dst
  | none => copiedElements elementCount (shapes.extent src) (shapes.extent dst) (shapes.width dst)

theorem copyStart_eq {offset width : Int} (offsetNonneg : 0 ≤ offset)
    (widthNonneg : 0 ≤ width) : copyStart offset width = offset := by
  rw [copyStart, Int.fdiv_eq_tdiv_of_nonneg offsetNonneg widthNonneg, Int.mul_comm]
  exact Int.mul_tdiv_add_tmod offset width

variable {shapes : Shapes} {fresh : Nat → String} {vectorDimVar : Var}

theorem runCall_generateAscendCopy {elementCount : Int} {sourceWidth : Option Int}
    {src dst : String} {index : IndexExpr} {copy : Call}
    (generated :
      generateAscendCopy shapes vectorDimVar elementCount sourceWidth src index dst = some copy) :
    ∃ start : Int,
      (∀ memory : Memory Value,
        runCall machine misfit scalars indices memory copy =
          writeLanes memory (.named dst) 0 (copiedBy shapes elementCount sourceWidth src dst)
            fun lane => memory (.named src) (start + lane)) ∧
        (0 ≤ shapes.width dst → 0 ≤ (calculateBufferOffset vectorDimVar index).eval indices →
          start = (calculateBufferOffset vectorDimVar index).eval indices) := by
  cases sourceWidth with
  | none =>
    simp only [generateAscendCopy, Option.some.injEq] at generated
    subst generated
    exact ⟨_, fun memory => rfl, fun _ _ => rfl⟩
  | some width =>
    simp only [generateAscendCopy, Option.ite_none_left_eq_some, Option.some.injEq,
      Decidable.not_not] at generated
    obtain ⟨sameWidth, rfl⟩ := generated
    refine ⟨_, fun memory => rfl, ?_⟩
    intro widthNonneg offsetNonneg
    exact copyStart_eq offsetNonneg (sameWidth ▸ widthNonneg)

/-- A decomposed value is left in the destination lane by lane, unless it is a bare load whose copy
does not move just the lanes. -/
theorem decomposeLowered_leavesLanes {elementCount : Int} {sourceWidth : Option Int}
    {dst : String} {offset : IndexExpr} {lowered : LoweredLoads} {calls : List Call}
    {afterTemp : Nat}
    (decomposed :
      decomposeLowered shapes vectorDimVar elementCount sourceWidth
        { buffer := .named dst, offset := offset } dst lowered = some (calls, afterTemp))
    (keepsUsed :
      ∀ (memory : Memory Value) name cell, (∀ id, name ≠ fresh id) →
        runCalls machine misfit scalars indices memory lowered.broadcasts (.named name) cell =
          memory (.named name) cell)
    (widthNonneg : 0 ≤ shapes.width dst)
    (copyFits :
      ∀ src index, lowered.value = .load src index →
        copiedBy shapes elementCount sourceWidth src dst = elementCount ∧
          (0 < elementCount →
            offset.eval indices = 0 ∧
              0 ≤ (calculateBufferOffset vectorDimVar index).eval indices)) :
    LeavesLanes machine misfit scalars indices fresh calls dst (offset.eval indices) elementCount
      fun memory lane =>
        lowered.value.laneValue machine scalars vectorDimVar indices
          (runCalls machine misfit scalars indices memory lowered.broadcasts) lane := by
  rw [decomposeLowered] at decomposed
  split at decomposed
  next src index isLoad =>
    simp only [Option.map_eq_some_iff, Prod.mk.injEq] at decomposed
    obtain ⟨copy, generated, rfl, -⟩ := decomposed
    obtain ⟨start, moves, fromOffset⟩ :=
      @runCall_generateAscendCopy Value machine misfit scalars indices _ _ _ _ _ _ _ _ generated
    obtain ⟨moved, inBounds⟩ := copyFits src index isLoad
    rw [moved] at moves
    have movesValue :
        ∀ (memory : Memory Value) lane, 0 < elementCount →
          memory (.named src) (start + lane) =
            lowered.value.laneValue machine scalars vectorDimVar indices memory lane := by
      intro memory lane nonempty
      rw [isLoad, fromOffset widthNonneg (inBounds nonempty).2]
      rfl
    exact leavesLanes_of_copy keepsUsed (fun nonempty => (inBounds nonempty).1) moves movesValue
  next notLoad =>
    simp only [Option.map_eq_some_iff, Prod.exists, Prod.mk.injEq] at decomposed
    obtain ⟨vectorCalls, _, decomposed, rfl, rfl⟩ := decomposed
    have isNotLoad : lowered.value.isLoad = false := by
      cases isValue : lowered.value with
      | load src index => exact absurd isValue (notLoad src index)
      | _ => rfl
    have right :=
      @ParallelVector.decomposesRight Value machine scalars vectorDimVar indices elementCount
        lowered.value isNotLoad _ _ _ _ decomposed
    exact leavesLanes_of_computes keepsUsed right.2

end Stores

end TilelangAscend.ParallelNest
