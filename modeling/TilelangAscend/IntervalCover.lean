import Mathlib.Data.List.Sort
import Mathlib.Order.MinMax

namespace TilelangAscend.IntervalCover

/-!
# Sorted lists of half-open intervals

Finite unions of half-open intervals as lists of endpoints.  Merging a list that is sorted by
start keeps every point and the order, and a sweep over two sorted lists answers whether they
have a point in common.
-/

variable {α : Type} [LinearOrder α]

/-- A point lies in one of the intervals of a list. -/
def Covers (intervals : List (α × α)) (point : α) : Prop :=
  ∃ interval ∈ intervals, interval.1 ≤ point ∧ point < interval.2

/-- The intervals of a list are listed by start. -/
def Sorted (intervals : List (α × α)) : Prop :=
  intervals.Pairwise fun left right => left.1 ≤ right.1

/-! ## Merging -/

/-- Extend the current interval by every listed interval that overlaps or touches it. -/
def mergeInto
    (current : α × α) :
    List (α × α) → List (α × α)
  | [] => [current]
  | next :: rest =>
    if next.1 ≤ current.2 then
      mergeInto (current.1, max current.2 next.2) rest
    else
      current :: mergeInto next rest

/-- Merge overlapping or adjacent intervals of a list that is sorted by start. -/
def merge : List (α × α) → List (α × α)
  | [] => []
  | first :: rest => mergeInto first rest

theorem Sorted.extend {current next : α × α} {rest : List (α × α)} {last : α}
    (sorted : Sorted (current :: next :: rest)) : Sorted ((current.1, last) :: rest) := by
  obtain ⟨currentFirst, restSorted⟩ := List.pairwise_cons.mp sorted
  exact List.pairwise_cons.mpr ⟨fun other member =>
    currentFirst other (List.mem_cons_of_mem _ member), (List.pairwise_cons.mp restSorted).2⟩

theorem start_le_of_mem_mergeInto {current interval : α × α} {rest : List (α × α)}
    (sorted : Sorted (current :: rest)) (member : interval ∈ mergeInto current rest) :
    current.1 ≤ interval.1 := by
  induction rest generalizing current with
  | nil =>
    simp only [mergeInto, List.mem_singleton] at member
    rw [member]
  | cons next rest ih =>
    obtain ⟨currentFirst, restSorted⟩ := List.pairwise_cons.mp sorted
    simp only [mergeInto] at member
    split at member
    · exact @ih (current.1, max current.2 next.2) sorted.extend member
    · rcases List.mem_cons.mp member with isCurrent | inRest
      · rw [isCurrent]
      · exact (currentFirst next List.mem_cons_self).trans (ih restSorted inRest)

variable {current interval left : α × α} {rest intervals lefts rights : List (α × α)} {point : α}

theorem mergeInto_sorted (sorted : Sorted (current :: rest)) :
    Sorted (mergeInto current rest) := by
  induction rest generalizing current with
  | nil => exact List.pairwise_singleton _ _
  | cons next rest ih =>
    obtain ⟨currentFirst, restSorted⟩ := List.pairwise_cons.mp sorted
    simp only [mergeInto]
    split
    · exact ih sorted.extend
    · refine List.pairwise_cons.mpr ⟨?_, ih restSorted⟩
      intro other otherMember
      exact (currentFirst next List.mem_cons_self).trans
        (start_le_of_mem_mergeInto restSorted otherMember)

theorem covers_mergeInto (sorted : Sorted (current :: rest))
    (covered : Covers (current :: rest) point) : Covers (mergeInto current rest) point := by
  induction rest generalizing current with
  | nil => exact covered
  | cons next rest ih =>
    obtain ⟨currentFirst, restSorted⟩ := List.pairwise_cons.mp sorted
    obtain ⟨interval, member, above, below⟩ := covered
    simp only [mergeInto]
    split
    · apply ih sorted.extend
      · rcases List.mem_cons.mp member with isCurrent | inTail
        · rw [isCurrent] at above below
          exact ⟨_, List.mem_cons_self, above, lt_max_of_lt_left below⟩
        · rcases List.mem_cons.mp inTail with isNext | inRest
          · rw [isNext] at above below
            exact ⟨_, List.mem_cons_self,
              (currentFirst next List.mem_cons_self).trans above, lt_max_of_lt_right below⟩
          · exact ⟨interval, List.mem_cons_of_mem _ inRest, above, below⟩
    · rcases List.mem_cons.mp member with isCurrent | inTail
      · rw [isCurrent] at above below
        exact ⟨current, List.mem_cons_self, above, below⟩
      · obtain ⟨merged, mergedMember, within⟩ := ih restSorted ⟨interval, inTail, above, below⟩
        exact ⟨merged, List.mem_cons_of_mem _ mergedMember, within⟩

theorem covers_of_mergeInto (covered : Covers (mergeInto current rest) point) :
    Covers (current :: rest) point := by
  induction rest generalizing current with
  | nil => exact covered
  | cons next rest ih =>
    simp only [mergeInto] at covered
    split at covered
    · rename_i touches
      obtain ⟨interval, member, above, below⟩ := ih covered
      rcases List.mem_cons.mp member with isMerged | inRest
      · rw [isMerged] at above below
        -- a point of the union that is not in the current interval is in the next one
        by_cases inCurrent : point < current.2
        · exact ⟨current, List.mem_cons_self, above, inCurrent⟩
        · have atLeast : current.2 ≤ point := le_of_not_gt inCurrent
          have inNext : point < next.2 := (lt_max_iff.mp below).resolve_left inCurrent
          exact ⟨next, by simp, touches.trans atLeast, inNext⟩
      · exact ⟨interval, by simp [inRest], above, below⟩
    · obtain ⟨interval, member, above, below⟩ := covered
      rcases List.mem_cons.mp member with isCurrent | inRest
      · exact ⟨current, List.mem_cons_self, by rwa [← isCurrent], by rwa [← isCurrent]⟩
      · obtain ⟨origin, isOrigin, within⟩ := ih ⟨interval, inRest, above, below⟩
        exact ⟨origin, List.mem_cons_of_mem _ isOrigin, within⟩

theorem mem_mergeInto (member : interval ∈ mergeInto current rest) :
    (∃ left ∈ current :: rest, interval.1 = left.1) ∧
      ∃ right ∈ current :: rest, interval.2 = right.2 := by
  induction rest generalizing current with
  | nil =>
    simp only [mergeInto, List.mem_singleton] at member
    simp [member]
  | cons next rest ih =>
    simp only [mergeInto] at member
    split at member
    · obtain ⟨⟨left, isLeft, starts⟩, right, isRight, ends⟩ := ih member
      constructor
      · rcases List.mem_cons.mp isLeft with isMerged | inRest
        · exact ⟨current, List.mem_cons_self, by rw [starts, isMerged]⟩
        · exact ⟨left, by simp [inRest], starts⟩
      · rcases List.mem_cons.mp isRight with isMerged | inRest
        · rcases max_choice current.2 next.2 with isCurrent | isNext
          · exact ⟨current, List.mem_cons_self, by rw [ends, isMerged]; exact isCurrent⟩
          · exact ⟨next, by simp, by rw [ends, isMerged]; exact isNext⟩
        · exact ⟨right, by simp [inRest], ends⟩
    · rcases List.mem_cons.mp member with isCurrent | inRest
      · exact ⟨⟨current, List.mem_cons_self, by rw [isCurrent]⟩,
          current, List.mem_cons_self, by rw [isCurrent]⟩
      · obtain ⟨⟨left, isLeft, starts⟩, right, isRight, ends⟩ := ih inRest
        exact ⟨⟨left, List.mem_cons_of_mem _ isLeft, starts⟩,
          right, List.mem_cons_of_mem _ isRight, ends⟩

/-- Every interval ends strictly before the later ones of a list start. -/
def Separated (intervals : List (α × α)) : Prop :=
  intervals.Pairwise fun left right => left.2 < right.1

theorem mergeInto_separated (sorted : Sorted (current :: rest)) :
    Separated (mergeInto current rest) := by
  induction rest generalizing current with
  | nil => exact List.pairwise_singleton _ _
  | cons next rest ih =>
    obtain ⟨currentFirst, restSorted⟩ := List.pairwise_cons.mp sorted
    simp only [mergeInto]
    split
    · exact ih sorted.extend
    · rename_i apart
      refine List.pairwise_cons.mpr ⟨?_, ih restSorted⟩
      intro other otherMember
      exact (lt_of_not_ge apart).trans_le (start_le_of_mem_mergeInto restSorted otherMember)

theorem merge_sorted (sorted : Sorted intervals) : Sorted (merge intervals) := by
  cases intervals with
  | nil => exact List.Pairwise.nil
  | cons first rest => exact mergeInto_sorted sorted

theorem merge_separated (sorted : Sorted intervals) : Separated (merge intervals) := by
  cases intervals with
  | nil => exact List.Pairwise.nil
  | cons first rest => exact mergeInto_separated sorted

theorem mem_merge (member : interval ∈ merge intervals) :
    (∃ left ∈ intervals, interval.1 = left.1) ∧ ∃ right ∈ intervals, interval.2 = right.2 := by
  cases intervals with
  | nil => simp [merge] at member
  | cons first rest => exact mem_mergeInto member

theorem covers_of_merge (covered : Covers (merge intervals) point) : Covers intervals point := by
  cases intervals with
  | nil => exact covered
  | cons first rest => exact covers_of_mergeInto covered

theorem covers_merge (sorted : Sorted intervals) (covered : Covers intervals point) :
    Covers (merge intervals) point := by
  cases intervals with
  | nil => exact covered
  | cons first rest => exact covers_mergeInto sorted covered

/-! ## Sweeping -/

/-- Advance along the right list against one left interval, then continue with the next one. -/
def sweepAgainst
    (left : α × α)
    (continueSweep : List (α × α) → Bool) :
    List (α × α) → Bool
  | [] => true
  | right :: rest =>
    if left.1 < right.2 ∧ right.1 < left.2 then
      false
    else if left.2 ≤ right.1 then
      continueSweep (right :: rest)
    else
      sweepAgainst left continueSweep rest

/-- Whether a sweep over two lists finds no pair of overlapping intervals. -/
def sweepDisjoint : List (α × α) → List (α × α) → Bool
  | [], _ => true
  | left :: rest, right => sweepAgainst left (sweepDisjoint rest) right

theorem not_sweepAgainst (leftsSorted : Sorted (left :: lefts)) (rightsSorted : Sorted rights)
    (continues :
      ∀ remaining, Sorted remaining → Covers lefts point →
        Covers remaining point →
        sweepDisjoint lefts remaining = false)
    (inLefts : Covers (left :: lefts) point)
    (inRights : Covers rights point) : sweepAgainst left (sweepDisjoint lefts) rights = false := by
  induction rights with
  | nil =>
    obtain ⟨interval, member, _⟩ := inRights
    cases member
  | cons right rest ih =>
    obtain ⟨rightFirst, restSorted⟩ := List.pairwise_cons.mp rightsSorted
    obtain ⟨leftFirst, _⟩ := List.pairwise_cons.mp leftsSorted
    obtain ⟨leftInterval, leftMember, leftAbove, leftBelow⟩ := inLefts
    obtain ⟨rightInterval, rightMember, rightAbove, rightBelow⟩ := inRights
    have rightStart : right.1 ≤ point := by
      rcases List.mem_cons.mp rightMember with isRight | inRest
      · rw [← isRight]
        exact rightAbove
      · exact (rightFirst rightInterval inRest).trans rightAbove
    have leftStart : left.1 ≤ point := by
      rcases List.mem_cons.mp leftMember with isLeft | inRest
      · rw [← isLeft]
        exact leftAbove
      · exact (leftFirst leftInterval inRest).trans leftAbove
    simp only [sweepAgainst]
    split
    · rfl
    · rename_i apart
      split
      · rename_i before
        -- The left interval ends before every remaining right interval starts.
        refine continues (right :: rest) rightsSorted ?_
          ⟨rightInterval, rightMember, rightAbove, rightBelow⟩
        rcases List.mem_cons.mp leftMember with isLeft | inRest
        · rw [isLeft] at leftBelow
          exact absurd (leftBelow.trans_le before) (not_lt.mpr rightStart)
        · exact ⟨leftInterval, inRest, leftAbove, leftBelow⟩
      · rename_i notBefore
        -- The right interval ends before every remaining left interval starts.
        refine ih restSorted ?_
        rcases List.mem_cons.mp rightMember with isRight | inRest
        · rw [isRight] at rightBelow
          exact absurd ⟨leftStart.trans_lt rightBelow, not_le.mp notBefore⟩ apart
        · exact ⟨rightInterval, inRest, rightAbove, rightBelow⟩

theorem not_sweepDisjoint (leftsSorted : Sorted lefts) (rightsSorted : Sorted rights)
    (inLefts : Covers lefts point) (inRights : Covers rights point) :
    sweepDisjoint lefts rights = false := by
  induction lefts generalizing rights with
  | nil =>
    obtain ⟨interval, member, _⟩ := inLefts
    cases member
  | cons left lefts ih =>
    refine not_sweepAgainst leftsSorted rightsSorted ?_ inLefts inRights
    intro remaining remainingSorted inRemainingLefts inRemaining
    exact ih (List.pairwise_cons.mp leftsSorted).2 remainingSorted inRemainingLefts inRemaining

theorem exists_of_not_sweepAgainst
    (continues :
      ∀ remaining, sweepDisjoint lefts remaining = false →
        ∃ other ∈ lefts, ∃ right ∈ remaining, other.1 < right.2 ∧ right.1 < other.2)
    (stops : sweepAgainst left (sweepDisjoint lefts) rights = false) :
    ∃ other ∈ left :: lefts, ∃ right ∈ rights, other.1 < right.2 ∧ right.1 < other.2 := by
  induction rights with
  | nil =>
    cases stops
  | cons right rest ih =>
    simp only [sweepAgainst] at stops
    split at stops
    · rename_i overlap
      exact ⟨left, List.mem_cons_self, right, List.mem_cons_self, overlap⟩
    · split at stops
      · obtain ⟨other, member, found⟩ := continues _ stops
        exact ⟨other, List.mem_cons_of_mem _ member, found⟩
      · obtain ⟨other, member, found, foundMember, overlap⟩ := ih stops
        exact ⟨other, member, found, List.mem_cons_of_mem _ foundMember, overlap⟩

/-- If the sweep finds an overlap, two intervals overlap. -/
theorem exists_of_not_sweepDisjoint (stops : sweepDisjoint lefts rights = false) :
    ∃ left ∈ lefts, ∃ right ∈ rights, left.1 < right.2 ∧ right.1 < left.2 := by
  induction lefts generalizing rights with
  | nil =>
    cases stops
  | cons left lefts ih => exact exists_of_not_sweepAgainst (fun _ => ih) stops

theorem exists_common_point {right : α × α} (leftNonempty : left.1 < left.2)
    (rightNonempty : right.1 < right.2) (overlap : left.1 < right.2 ∧ right.1 < left.2) :
    ∃ point, (left.1 ≤ point ∧ point < left.2) ∧ right.1 ≤ point ∧ point < right.2 :=
  ⟨max left.1 right.1, ⟨le_max_left _ _, max_lt leftNonempty overlap.2⟩, le_max_right _ _,
    max_lt overlap.1 rightNonempty⟩

/-- The sweep finds an overlap exactly if there is a common point. -/
theorem sweepDisjoint_eq_false_iff (leftsSorted : Sorted lefts)
    (rightsSorted : Sorted rights) (leftsNonempty : ∀ left ∈ lefts, left.1 < left.2)
    (rightsNonempty : ∀ right ∈ rights, right.1 < right.2) :
    sweepDisjoint lefts rights = false ↔ ∃ point, Covers lefts point ∧ Covers rights point := by
  constructor
  · intro stops
    obtain ⟨left, leftMember, right, rightMember, overlap⟩ := exists_of_not_sweepDisjoint stops
    obtain ⟨point, inLeft, inRight⟩ := exists_common_point (leftsNonempty left leftMember)
      (rightsNonempty right rightMember) overlap
    exact ⟨point, ⟨left, leftMember, inLeft⟩, right, rightMember, inRight⟩
  · rintro ⟨point, inLefts, inRights⟩
    exact not_sweepDisjoint leftsSorted rightsSorted inLefts inRights

theorem merge_nonempty (sorted : Sorted intervals)
    (nonempty : ∀ interval ∈ intervals, interval.1 < interval.2) :
    ∀ interval ∈ merge intervals, interval.1 < interval.2 := by
  have inside :
      ∀ (current : α × α) (rest : List (α × α)), Sorted (current :: rest) →
        (∀ interval ∈ current :: rest, interval.1 < interval.2) →
        ∀ interval ∈ mergeInto current rest, interval.1 < interval.2 := by
    intro current rest
    induction rest generalizing current with
    | nil =>
      intro _ given
      exact given
    | cons next rest ih =>
      intro restSorted given
      obtain ⟨currentFirst, nextSorted⟩ := List.pairwise_cons.mp restSorted
      simp only [mergeInto]
      split
      · apply ih _ restSorted.extend
        · refine List.forall_mem_cons.mpr ⟨?_, fun interval member =>
            given interval (List.mem_cons_of_mem _ (List.mem_cons_of_mem _ member))⟩
          exact lt_max_of_lt_left (given current List.mem_cons_self)
      · refine List.forall_mem_cons.mpr ⟨given current List.mem_cons_self, ?_⟩
        exact ih next nextSorted fun interval member =>
          given interval (List.mem_cons_of_mem _ member)
  cases intervals with
  | nil =>
    intro interval member
    cases member
  | cons first rest => exact inside first rest sorted nonempty

end TilelangAscend.IntervalCover
