import Mathlib.Algebra.BigOperators.Group.List.Basic
import Mathlib.Data.String.Basic
import Mathlib.Tactic.Ring

namespace TilelangAscend.Simulator

/-!
# Runtime integers

Extents that are known only when a program runs are affine integers over named symbols, or
expressions over them.  An affine integer keeps its terms combined, sorted and free of zeros, so
that scaling has to combine the terms again; the value is the same as that of the scaled terms.
-/

/-- Add a term to a sorted list of terms. -/
def addTerm
    (name : String)
    (coefficient : Int) :
    List (String × Int) → List (String × Int)
  | [] => [(name, coefficient)]
  | (other, value) :: rest =>
    if name < other then
      (name, coefficient) :: (other, value) :: rest
    else if name = other then
      (other, value + coefficient) :: rest
    else
      (other, value) :: addTerm name coefficient rest

/-- The terms of one name are combined, and the names are sorted. -/
def combineTerms (terms : List (String × Int)) : List (String × Int) :=
  terms.foldl (fun combined term => addTerm term.1 term.2 combined) []

/-- Terms with a name of their own, in the order of the names. -/
def TermsSorted (terms : List (String × Int)) : Prop :=
  terms.Pairwise fun first second => first.1 < second.1

/-- The sum of the terms, where a symbol that is not bound counts nothing. -/
def termsValue (bindings : String → Option Int) (terms : List (String × Int)) : Int :=
  (terms.map fun term => term.2 * (bindings term.1).getD 0).sum

section Terms

variable {bindings : String → Option Int}
  {name : String} {terms : List (String × Int)} {coefficient : Int}

theorem mem_addTerm {other : String} :
    other ∈ (addTerm name coefficient terms).map Prod.fst ↔
      other = name ∨ other ∈ terms.map Prod.fst := by
  induction terms with
  | nil => simp [addTerm]
  | cons term rest ih =>
    rw [addTerm]
    split
    · simp
    · split
      · rename_i same
        simp [← same]
      · simp only [List.map_cons, List.mem_cons, ih]
        tauto

theorem TermsSorted.addTerm (sorted : TermsSorted terms) :
    TermsSorted (addTerm name coefficient terms) := by
  induction terms with
  | nil => exact List.pairwise_singleton _ _
  | cons term rest ih =>
    obtain ⟨first, others⟩ := List.pairwise_cons.mp sorted
    rw [Simulator.addTerm]
    split
    · rename_i before
      refine List.pairwise_cons.mpr ⟨fun other member => ?_, sorted⟩
      rcases List.mem_cons.mp member with rfl | inRest
      · exact before
      · exact before.trans (first other inRest)
    · split
      · exact List.pairwise_cons.mpr ⟨first, others⟩
      · rename_i notBefore different
        refine List.pairwise_cons.mpr ⟨fun other member => ?_, ih others⟩
        rcases mem_addTerm.mp (List.mem_map_of_mem member) with added | inRest
        · rw [added]
          exact lt_of_le_of_ne (le_of_not_gt notBefore) (Ne.symm different)
        · obtain ⟨found, foundMember, sameName⟩ := List.mem_map.mp inRest
          rw [← sameName]
          exact first found foundMember

theorem termsValue_addTerm (name : String) (coefficient : Int) (terms : List (String × Int)) :
    termsValue bindings (addTerm name coefficient terms) =
      termsValue bindings terms + coefficient * (bindings name).getD 0 := by
  induction terms with
  | nil => simp [addTerm, termsValue]
  | cons term rest ih =>
    simp only [termsValue, List.map_cons, List.sum_cons] at ih ⊢
    rw [addTerm]
    split
    · simp only [List.map_cons, List.sum_cons]
      ring
    · split
      · rename_i same
        simp only [List.map_cons, List.sum_cons, same]
        ring
      · simp only [List.map_cons, List.sum_cons, ih]
        ring

theorem foldl_addTerm (terms combined : List (String × Int)) (sorted : TermsSorted combined) :
    let result := terms.foldl (fun done term => addTerm term.1 term.2 done) combined
    TermsSorted result ∧
      termsValue bindings result = termsValue bindings combined + termsValue bindings terms ∧
      ∀ name ∈ result.map Prod.fst, name ∈ combined.map Prod.fst ∨ name ∈ terms.map Prod.fst := by
  induction terms generalizing combined with
  | nil => exact ⟨sorted, by simp [termsValue], fun name member => .inl member⟩
  | cons term rest ih =>
    obtain ⟨keeps, value, names⟩ := ih (addTerm term.1 term.2 combined) sorted.addTerm
    refine ⟨keeps, ?_, fun name member => ?_⟩
    · rw [List.foldl_cons, value, termsValue_addTerm]
      simp only [termsValue, List.map_cons, List.sum_cons]
      ring
    · rcases names name member with early | late
      · rcases mem_addTerm.mp early with rfl | before
        · exact .inr List.mem_cons_self
        · exact .inl before
      · exact .inr (List.mem_cons_of_mem _ late)

theorem combineTerms_sorted (terms : List (String × Int)) : TermsSorted (combineTerms terms) :=
  (@foldl_addTerm (fun _ => none) terms [] List.Pairwise.nil).1

theorem termsValue_combineTerms (terms : List (String × Int)) :
    termsValue bindings (combineTerms terms) = termsValue bindings terms := by
  have value := (@foldl_addTerm bindings terms [] List.Pairwise.nil).2.1
  rw [combineTerms, value]
  exact Int.zero_add _

theorem mem_combineTerms (member : name ∈ (combineTerms terms).map Prod.fst) :
    name ∈ terms.map Prod.fst := by
  rcases (@foldl_addTerm (fun _ => none) terms [] List.Pairwise.nil).2.2 name member with
    early | found
  · exact absurd early List.not_mem_nil
  · exact found

theorem termsValue_filter (terms : List (String × Int)) :
    termsValue bindings (terms.filter fun term => term.2 ≠ 0) = termsValue bindings terms := by
  induction terms with
  | nil => rfl
  | cons term rest ih =>
    simp only [termsValue] at ih ⊢
    by_cases zero : term.2 = 0
    · rw [List.filter_cons_of_neg (by simpa using zero), ih, List.map_cons,
        List.sum_cons, zero, Int.zero_mul, Int.zero_add]
    · rw [List.filter_cons_of_pos (by simpa using zero), List.map_cons, List.map_cons,
        List.sum_cons, List.sum_cons, ih]

/-- Scaling the terms scales their value. -/
theorem termsValue_scaled (terms : List (String × Int)) (coefficient : Int) :
    termsValue bindings (terms.map fun term => (term.1, term.2 * coefficient)) =
      termsValue bindings terms * coefficient := by
  induction terms with
  | nil => simp [termsValue]
  | cons term rest ih =>
    simp only [termsValue, List.map_cons, List.sum_cons] at ih ⊢
    rw [ih]
    ring

end Terms

/-- `AffineInt`: a sum of symbols with coefficients, and a constant. -/
structure AffineInt where
  terms : List (String × Int)
  constant : Int
  named : ∀ term ∈ terms, term.1 ≠ ""
  sorted : TermsSorted terms
  nonzero : ∀ term ∈ terms, term.2 ≠ 0
  deriving DecidableEq

namespace AffineInt

/-- `__post_init__`: combine the terms and drop those with coefficient zero. -/
def make
    (terms : List (String × Int))
    (constant : Int)
    (named : ∀ term ∈ terms, term.1 ≠ "") :
    AffineInt where
  terms := (combineTerms terms).filter fun term => term.2 ≠ 0
  constant := constant
  named := by
    intro term member
    obtain ⟨source, sourceMember, sameName⟩ :=
      List.mem_map.mp (mem_combineTerms (List.mem_map_of_mem (List.mem_of_mem_filter member)))
    exact sameName ▸ named source sourceMember
  sorted := (combineTerms_sorted terms).filter _
  nonzero := fun term member => of_decide_eq_true (List.mem_filter.mp member).2

/-- `variable`. -/
def ofVariable (name : String) (named : name ≠ "") : AffineInt :=
  make [(name, 1)] 0 (List.forall_mem_singleton.mpr named)

/-- `evaluate`: every symbol has to be bound. -/
def evaluate (expression : AffineInt) (bindings : String → Option Int) : Option Int :=
  expression.terms.foldlM
    (fun value term => (bindings term.1).map fun bound => value + term.2 * bound)
    expression.constant

/-- `scaled`. -/
def scaled (expression : AffineInt) (coefficient : Int) : AffineInt :=
  make (expression.terms.map fun term => (term.1, term.2 * coefficient))
    (expression.constant * coefficient)
    (List.forall_mem_map.mpr expression.named)

variable {bindings : String → Option Int}

theorem foldlM_terms {terms : List (String × Int)} {start result : Int} :
    terms.foldlM (fun value term => (bindings term.1).map fun bound => value + term.2 * bound)
        start = some result ↔
      (∀ name ∈ terms.map Prod.fst, (bindings name).isSome) ∧
        result = start + termsValue bindings terms := by
  induction terms generalizing start with
  | nil =>
    simp only [List.foldlM_nil, Option.pure_def, Option.some.injEq, List.map_nil,
      List.not_mem_nil, false_implies, implies_true, true_and, termsValue, List.sum_nil,
      Int.add_zero]
    exact eq_comm
  | cons term rest ih =>
    rw [List.foldlM_cons]
    cases bound : bindings term.1 with
    | none => simp [bound]
    | some value =>
      simp only [Option.map_some, Option.bind_eq_bind, Option.bind_some, ih,
        List.map_cons, List.forall_mem_cons, bound, Option.isSome_some, true_and, termsValue,
        List.sum_cons, Option.getD_some, Int.add_assoc]

/-- Scaling an affine expression scales its value. -/
theorem evaluate_scaled {expression : AffineInt} {value : Int}
    (evaluates : expression.evaluate bindings = some value) (coefficient : Int) :
    (expression.scaled coefficient).evaluate bindings = some (value * coefficient) := by
  obtain ⟨bound, rfl⟩ := foldlM_terms.mp evaluates
  refine foldlM_terms.mpr ⟨fun name member => ?_, ?_⟩
  · obtain ⟨term, inCombined, sameName⟩ := List.mem_map.mp member
    have inScaled := mem_combineTerms (List.mem_map_of_mem (List.mem_of_mem_filter inCombined))
    rw [List.map_map] at inScaled
    exact bound name (sameName ▸ inScaled)
  · simp only [scaled, make, termsValue_filter, termsValue_combineTerms, termsValue_scaled]
    ring

end AffineInt

/-- The operations of a `SymbolicInt` on two arguments. -/
inductive BinaryOperation where
  | add
  | and
  | eq
  | floordiv
  | floormod
  | ge
  | gt
  | le
  | lt
  | max
  | min
  | mul
  | ne
  | or
  | sub
  | truncdiv
  | truncmod
  deriving Repr, DecidableEq

/-- `int` of a truth value. -/
def truthInt (holds : Bool) : Int :=
  if holds then 1 else 0

/-- The quotient that is rounded towards zero. -/
def truncQuotient (left divisor : Int) : Int :=
  (left.natAbs / divisor.natAbs : Nat) * (if (left < 0) ≠ (divisor < 0) then -1 else 1)

/-- The value of an operation, which fails for a division by zero. -/
def BinaryOperation.apply (operation : BinaryOperation) (left right : Int) : Option Int :=
  match operation with
  | .add => some (left + right)
  | .sub => some (left - right)
  | .mul => some (left * right)
  | .floordiv => if right = 0 then none else some (left.fdiv right)
  | .floormod => if right = 0 then none else some (left.fmod right)
  | .truncdiv => if right = 0 then none else some (truncQuotient left right)
  | .truncmod => if right = 0 then none else some (left - truncQuotient left right * right)
  | .min => some (Min.min left right)
  | .max => some (Max.max left right)
  | .and => some (truthInt (left ≠ 0 ∧ right ≠ 0))
  | .or => some (truthInt (left ≠ 0 ∨ right ≠ 0))
  | .eq => some (truthInt (left = right))
  | .ne => some (truthInt (left ≠ right))
  | .lt => some (truthInt (left < right))
  | .le => some (truthInt (left ≤ right))
  | .gt => some (truthInt (left > right))
  | .ge => some (truthInt (left ≥ right))

/-- An integer, an `AffineInt` or a `SymbolicInt` over them. -/
inductive RuntimeInt where
  | int (value : Int)
  | affine (expression : AffineInt)
  | binary (operation : BinaryOperation) (left right : RuntimeInt)
  | not (argument : RuntimeInt)
  | select (condition left right : RuntimeInt)
  deriving DecidableEq

namespace RuntimeInt

/-- `_evaluate_runtime_int`: all arguments are evaluated. -/
def evaluate
    (bindings : String → Option Int) :
    RuntimeInt → Option Int
  | .int value => some value
  | .affine expression => expression.evaluate bindings
  | .binary operation left right => do
      let leftValue ← evaluate bindings left
      let rightValue ← evaluate bindings right
      operation.apply leftValue rightValue
  | .not argument => do
      let value ← evaluate bindings argument
      return truthInt (value = 0)
  | .select condition left right => do
      let choice ← evaluate bindings condition
      let leftValue ← evaluate bindings left
      let rightValue ← evaluate bindings right
      return if choice ≠ 0 then leftValue else rightValue

/-- `isinstance(value, int)`: the integer is known when the program is built. -/
def IsStatic : RuntimeInt → Prop
  | .int _ => True
  | _ => False

instance : DecidablePred IsStatic
  | .int _ => .isTrue trivial
  | .affine _ => .isFalse id
  | .binary _ _ _ => .isFalse id
  | .not _ => .isFalse id
  | .select _ _ _ => .isFalse id

end RuntimeInt

/-- `_scale_runtime_int`. -/
def scaleRuntimeInt (value : RuntimeInt) (coefficient : Int) : RuntimeInt :=
  match value with
  | .int value => .int (value * coefficient)
  | .affine expression => .affine (expression.scaled coefficient)
  | symbolic => .binary .mul symbolic (.int coefficient)

/-- Scaling a runtime integer scales its value. -/
theorem evaluate_scaleRuntimeInt {value : RuntimeInt} {bindings : String → Option Int}
    {result : Int} (evaluates : value.evaluate bindings = some result) (coefficient : Int) :
    (scaleRuntimeInt value coefficient).evaluate bindings = some (result * coefficient) := by
  cases value with
  | int constant =>
    obtain rfl := Option.some.inj evaluates
    rfl
  | affine expression => exact AffineInt.evaluate_scaled evaluates coefficient
  | binary operation left right =>
    simp only [scaleRuntimeInt, RuntimeInt.evaluate] at evaluates ⊢
    rw [evaluates]
    rfl
  | not argument =>
    simp only [scaleRuntimeInt, RuntimeInt.evaluate] at evaluates ⊢
    rw [evaluates]
    rfl
  | select condition left right =>
    simp only [scaleRuntimeInt, RuntimeInt.evaluate] at evaluates ⊢
    rw [evaluates]
    rfl

end TilelangAscend.Simulator
