import Mathlib
import TilelangAscend.IntervalCover

namespace TilelangAscend.IntervalCover

/-!
# The length of a union of intervals

The points that a list of intervals covers, counted by one scan over the list sorted by
start.  Unlike the merge of the intervals the scan keeps only a running total.
-/

/-- Order of intervals by start, then by end. -/
def startOrder (left right : Nat × Nat) : Prop :=
  left.1 < right.1 ∨ (left.1 = right.1 ∧ left.2 ≤ right.2)

instance : DecidableRel startOrder :=
  fun _ _ => inferInstanceAs (Decidable (_ ∨ _))

instance : Std.Total startOrder where
  total left right := by
    unfold startOrder
    omega

instance : IsTrans (Nat × Nat) startOrder where
  trans first second third := by
    unfold startOrder
    omega

/-- A list of intervals in order of start. -/
def sortByStart (intervals : List (Nat × Nat)) : List (Nat × Nat) :=
  intervals.insertionSort startOrder

/-- Points covered by the intervals of a list. -/
def points (intervals : List (Nat × Nat)) : Finset Nat :=
  intervals.toFinset.biUnion fun interval => Finset.Ico interval.1 interval.2

/-- Scan over sorted intervals: the length of their union, from a current interval on. -/
def scanLength
    (current : Nat × Nat) :
    List (Nat × Nat) → Nat
  | [] => current.2 - current.1
  | next :: rest =>
    if next.1 ≤ current.2 then
      scanLength (current.1, max current.2 next.2) rest
    else
      (current.2 - current.1) + scanLength next rest

/-- Length of the union of the intervals of a list. -/
def unionLength (intervals : List (Nat × Nat)) : Nat :=
  match sortByStart intervals with
  | [] => 0
  | first :: rest => scanLength first rest

variable {intervals : List (Nat × Nat)} {point : Nat}

theorem sortByStart_sorted (intervals : List (Nat × Nat)) : Sorted (sortByStart intervals) := by
  refine (List.pairwise_insertionSort startOrder intervals).imp ?_
  intro left right ordered
  unfold startOrder at ordered
  omega

@[simp] theorem mem_sortByStart {interval : Nat × Nat} :
    interval ∈ sortByStart intervals ↔ interval ∈ intervals :=
  List.mem_insertionSort startOrder

@[simp] theorem covers_sortByStart :
    Covers (sortByStart intervals) point ↔ Covers intervals point := by
  simp [Covers]

@[simp] theorem mem_points : point ∈ points intervals ↔ Covers intervals point := by
  simp [points, Covers]

theorem points_congr {others : List (Nat × Nat)}
    (same : ∀ point, Covers intervals point ↔ Covers others point) :
    points intervals = points others := by
  ext point
  rw [mem_points, mem_points]
  exact same point

theorem points_cons (interval : Nat × Nat) (rest : List (Nat × Nat)) :
    points (interval :: rest) = Finset.Ico interval.1 interval.2 ∪ points rest := by
  simp [points]

theorem card_points_of_separated (separated : Separated intervals) (sorted : Sorted intervals) :
    (points intervals).card = (intervals.map fun interval => interval.2 - interval.1).sum := by
  induction intervals with
  | nil => rfl
  | cons first rest ih =>
    obtain ⟨firstApart, restSeparated⟩ := List.pairwise_cons.mp separated
    have disjoint : Disjoint (Finset.Ico first.1 first.2) (points rest) := by
      rw [Finset.disjoint_left]
      intro point inFirst inRest
      rw [Finset.mem_Ico] at inFirst
      obtain ⟨other, member, above, _⟩ := mem_points.mp inRest
      have apart := firstApart other member
      omega
    rw [points_cons, Finset.card_union_of_disjoint disjoint, Nat.card_Ico,
      ih restSeparated (List.pairwise_cons.mp sorted).2, List.map_cons,
      List.sum_cons]

theorem scanLength_eq_sum (current : Nat × Nat) (rest : List (Nat × Nat)) :
    scanLength current rest =
      ((mergeInto current rest).map fun interval => interval.2 - interval.1).sum := by
  induction rest generalizing current with
  | nil => simp [scanLength, mergeInto]
  | cons next rest ih =>
    unfold scanLength mergeInto
    split
    · exact ih _
    · rw [List.map_cons, List.sum_cons, ih]

/-- Intervals in order of start, merged where they overlap or touch. -/
def mergeIntervals (intervals : List (Nat × Nat)) : List (Nat × Nat) :=
  merge (sortByStart intervals)

/-- Merged intervals have gaps between them. -/
theorem mergeIntervals_separated (intervals : List (Nat × Nat)) :
    Separated (mergeIntervals intervals) :=
  merge_separated (sortByStart_sorted intervals)

/-- Merging keeps the cycles that are covered. -/
theorem points_mergeIntervals (intervals : List (Nat × Nat)) :
    points (mergeIntervals intervals) = points intervals := by
  refine points_congr fun point => ?_
  rw [← @covers_sortByStart intervals]
  exact ⟨covers_of_merge, covers_merge (sortByStart_sorted intervals)⟩

/-- The length of a union counts its cycles. -/
theorem unionLength_eq_card (intervals : List (Nat × Nat)) :
    unionLength intervals = (points intervals).card := by
  rw [← points_mergeIntervals, card_points_of_separated (mergeIntervals_separated intervals)
    (merge_sorted (sortByStart_sorted intervals))]
  unfold unionLength mergeIntervals
  cases shape : sortByStart intervals with
  | nil => rfl
  | cons first rest => exact scanLength_eq_sum first rest

/-! ## The length of an intersection -/

/-- Walk along two merged lists and add up the overlaps of the intervals that are met. -/
def intersectionLength : List (Nat × Nat) → List (Nat × Nat) → Nat
  | left :: lefts, right :: rights =>
    (min left.2 right.2 - max left.1 right.1) +
      if left.2 ≤ right.2 then
        intersectionLength lefts (right :: rights)
      else
        intersectionLength (left :: lefts) rights
  | _, _ => 0
termination_by lefts rights => lefts.length + rights.length

theorem end_lt_of_mem_points {first : Nat × Nat} {rest : List (Nat × Nat)}
    (separated : Separated (first :: rest)) (member : point ∈ points rest) : first.2 < point := by
  obtain ⟨interval, inRest, above, _⟩ := mem_points.mp member
  exact ((List.pairwise_cons.mp separated).1 interval inRest).trans_le above

/-- The length of an intersection counts the common cycles. -/
theorem intersectionLength_eq_card {lefts rights : List (Nat × Nat)}
    (leftsSeparated : Separated lefts) (rightsSeparated : Separated rights) :
    intersectionLength lefts rights = (points lefts ∩ points rights).card := by
  have add_overlap : ∀ {left right : Nat × Nat} {later union : Finset Nat},
      union = (Finset.Ico left.1 left.2 ∩ Finset.Ico right.1 right.2) ∪ later →
      Disjoint (Finset.Ico left.1 left.2 ∩ Finset.Ico right.1 right.2) later →
      (min left.2 right.2 - max left.1 right.1) + later.card = union.card := by
    rintro left right later _ rfl disjoint
    rw [Finset.card_union_of_disjoint disjoint, Finset.Ico_inter_Ico, Nat.card_Ico]
  fun_induction intersectionLength lefts rights with
  | case1 left lefts right rights ih₁ ih₂ =>
    have afterLeft := fun point => @end_lt_of_mem_points point left lefts leftsSeparated
    have afterRight := fun point => @end_lt_of_mem_points point right rights rightsSeparated
    split
    · -- the left interval ends first and meets none of the later right intervals
      rename_i ends
      rw [ih₁ (List.pairwise_cons.mp leftsSeparated).2 rightsSeparated]
      refine add_overlap ?_ (Finset.disjoint_left.mpr fun point => ?_)
      · ext point
        have := afterLeft point
        have := afterRight point
        simp only [points_cons, Finset.mem_inter, Finset.mem_union, Finset.mem_Ico]
        grind
      · have := afterLeft point
        simp only [Finset.mem_inter, Finset.mem_Ico]
        grind
    · rename_i ends
      rw [ih₂ leftsSeparated (List.pairwise_cons.mp rightsSeparated).2]
      refine add_overlap ?_ (Finset.disjoint_left.mpr fun point => ?_)
      · ext point
        have := afterLeft point
        have := afterRight point
        simp only [points_cons, Finset.mem_inter, Finset.mem_union, Finset.mem_Ico]
        grind
      · have := afterRight point
        simp only [Finset.mem_inter, Finset.mem_Ico]
        grind
  | case2 lefts rights notBoth =>
    cases lefts with
    | nil => simp [points]
    | cons left lefts =>
      cases rights with
      | nil => simp [points]
      | cons right rights => exact absurd rfl (notBoth left lefts right rights rfl)

/-- Example: touching, nested and separate intervals. -/
example : unionLength [(3, 5), (0, 3), (1, 2), (7, 9)] = 7 := by
  decide

end TilelangAscend.IntervalCover
