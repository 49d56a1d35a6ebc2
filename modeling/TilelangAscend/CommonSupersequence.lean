import Mathlib.Data.List.Forall2
import Mathlib.Data.List.Basic

namespace TilelangAscend.CommonSupersequence

/-!
# Shortest common supersequences

The dynamic program for the longest common subsequence of two lists under a test of sameness, and
the walk over its table that merges the lists.  The test need not be an equivalence: a common
subsequence is a pair of sublists whose elements pass the test one by one.  The merged list is an
interleaving in which as many elements as possible stand for both lists.
-/

variable {α β : Type}

/-! ## The table and the walk -/

/-- One row of the table of common lengths, from the row below it. -/
def commonRow
    (same : α → β → Bool)
    (item : α)
    (below : List β → Nat) :
    List β → Nat
  | [] => 0
  | other :: right =>
    if same item other then
      1 + below right
    else
      max (below (other :: right)) (commonRow same item below right)

/-- Length of the longest common subsequence, as the table computes it. -/
def commonLength (same : α → β → Bool) : List α → List β → Nat
  | [], _ => 0
  | item :: left, right => commonRow same item (commonLength same left) right

/-- The part of the walk that stays at one element of the left list. -/
def mergeRow
    (same : α → α → Bool)
    (item : α)
    (left : List α)
    (continueAfter : List α → List α) :
    List α → List α
  | [] => item :: continueAfter []
  | other :: right =>
    if same item other then
      item :: continueAfter right
    else if commonLength same (item :: left) right ≤ commonLength same left (other :: right) then
      item :: continueAfter (other :: right)
    else
      other :: mergeRow same item left continueAfter right

/-- The walk: an element of both lists, the left one if no less remains in common, or the right. -/
def merge (same : α → α → Bool) : List α → List α → List α
  | [], right => right
  | item :: left, right => mergeRow same item left (merge same left) right

section Equations

variable (same : α → α → Bool) (item other : α) (left right : List α)

@[simp] theorem commonLength_nil_left : commonLength same [] right = 0 :=
  rfl

@[simp] theorem commonLength_nil_right : commonLength same left [] = 0 := by
  cases left <;> rfl

theorem commonLength_cons :
    commonLength same (item :: left) (other :: right) =
      if same item other then
        1 + commonLength same left right
      else
        max (commonLength same left (other :: right)) (commonLength same (item :: left) right) :=
  rfl

@[simp] theorem merge_nil_left : merge same [] right = right :=
  rfl

@[simp] theorem merge_cons_nil : merge same (item :: left) [] = item :: merge same left [] :=
  rfl

theorem merge_cons :
    merge same (item :: left) (other :: right) =
      if same item other then
        item :: merge same left right
      else if commonLength same (item :: left) right ≤ commonLength same left (other :: right) then
        item :: merge same left (other :: right)
      else
        other :: merge same (item :: left) right :=
  rfl

end Equations

/-! ## The table is the longest common length -/

/-- Two lists have a common subsequence of a length. -/
def HasCommon (same : α → α → Bool) (left right : List α) (length : Nat) : Prop :=
  ∃ leftPart rightPart,
    List.Sublist leftPart left ∧ List.Sublist rightPart right ∧
      List.Forall₂ (fun item other => same item other = true) leftPart rightPart ∧
      leftPart.length = length

/-- The longest common subsequence has this length. -/
structure IsLongestCommon
    (same : α → α → Bool)
    (left right : List α)
    (length : Nat) :
    Prop where
  attained : HasCommon same left right length
  bounds : ∀ other, HasCommon same left right other → other ≤ length

namespace HasCommon

variable {same : α → α → Bool} {item other : α} {left right : List α} {length : Nat}

theorem consLeft (common : HasCommon same left right length) :
    HasCommon same (item :: left) right length := by
  obtain ⟨leftPart, rightPart, leftSub, rightSub, matched, sized⟩ := common
  exact ⟨leftPart, rightPart, leftSub.cons item, rightSub, matched, sized⟩

theorem consRight (common : HasCommon same left right length) :
    HasCommon same left (other :: right) length := by
  obtain ⟨leftPart, rightPart, leftSub, rightSub, matched, sized⟩ := common
  exact ⟨leftPart, rightPart, leftSub, rightSub.cons other, matched, sized⟩

theorem consBoth (isSame : same item other = true) (common : HasCommon same left right length) :
    HasCommon same (item :: left) (other :: right) (1 + length) := by
  obtain ⟨leftPart, rightPart, leftSub, rightSub, matched, sized⟩ := common
  refine ⟨item :: leftPart, other :: rightPart, leftSub.cons_cons item,
    rightSub.cons_cons other, .cons isSame matched, ?_⟩
  rw [List.length_cons, sized, Nat.add_comm]

theorem nil_left (common : HasCommon same [] right length) : length = 0 := by
  obtain ⟨leftPart, _, leftSub, _, _, rfl⟩ := common
  rw [List.sublist_nil.mp leftSub, List.length_nil]

theorem nil_right (common : HasCommon same left [] length) : length = 0 := by
  obtain ⟨leftPart, rightPart, _, rightSub, matched, rfl⟩ := common
  rw [matched.length_eq, List.sublist_nil.mp rightSub, List.length_nil]

/-- A common subsequence uses both heads, or leaves one of them out. -/
theorem cases (common : HasCommon same (item :: left) (other :: right) length) :
    HasCommon same left (other :: right) length ∨ HasCommon same (item :: left) right length ∨
      (same item other = true ∧ ∃ shorter, length = 1 + shorter ∧
        HasCommon same left right shorter) := by
  obtain ⟨leftPart, rightPart, leftSub, rightSub, matched, rfl⟩ := common
  cases leftSub with
  | cons _ skipped => exact Or.inl ⟨leftPart, rightPart, skipped, rightSub, matched, rfl⟩
  | cons_cons _ leftRest =>
    cases rightSub with
    | cons _ skipped =>
      exact Or.inr (Or.inl ⟨_, rightPart, leftRest.cons_cons item, skipped, matched, rfl⟩)
    | cons_cons _ rightRest =>
      cases matched with
      | cons isSame rest =>
        refine Or.inr (Or.inr ⟨isSame, _, ?_, _, _, leftRest, rightRest, rest, rfl⟩)
        rw [List.length_cons, Nat.add_comm]

theorem dropLeft (common : HasCommon same (item :: left) right length) :
    ∃ shorter, length ≤ 1 + shorter ∧ HasCommon same left right shorter := by
  obtain ⟨leftPart, rightPart, leftSub, rightSub, matched, rfl⟩ := common
  cases leftSub with
  | cons _ skipped =>
    exact ⟨_, Nat.le_add_left _ 1, leftPart, rightPart, skipped, rightSub, matched, rfl⟩
  | cons_cons _ leftRest =>
    cases matched with
    | cons _ rest =>
      refine ⟨_, ?_, _, _, leftRest, (List.sublist_cons_self _ _).trans rightSub, rest, rfl⟩
      exact Nat.le_of_eq (Nat.add_comm _ 1)

theorem dropRight (common : HasCommon same left (other :: right) length) :
    ∃ shorter, length ≤ 1 + shorter ∧ HasCommon same left right shorter := by
  obtain ⟨leftPart, rightPart, leftSub, rightSub, matched, rfl⟩ := common
  cases rightSub with
  | cons _ skipped =>
    exact ⟨_, Nat.le_add_left _ 1, leftPart, rightPart, leftSub, skipped, matched, rfl⟩
  | cons_cons _ rightRest =>
    cases matched with
    | cons _ rest =>
      refine ⟨_, ?_, _, _, (List.sublist_cons_self _ _).trans leftSub, rightRest, rest, rfl⟩
      exact Nat.le_of_eq (Nat.add_comm _ 1)

end HasCommon

theorem isLongestCommon_commonLength (same : α → α → Bool) (left right : List α) :
    IsLongestCommon same left right (commonLength same left right) := by
  induction left generalizing right with
  | nil =>
    refine ⟨⟨[], [], List.Sublist.refl [], List.nil_sublist right, .nil, rfl⟩, ?_⟩
    intro other common
    rw [common.nil_left]
    exact Nat.zero_le _
  | cons item left leftIh =>
    induction right with
    | nil =>
      refine ⟨⟨[], [], List.nil_sublist _, List.Sublist.refl [], .nil, rfl⟩, ?_⟩
      intro other common
      rw [common.nil_right]
      exact Nat.zero_le _
    | cons other right rightIh =>
      rw [commonLength_cons]
      split
      · rename_i isSame
        refine ⟨(leftIh right).attained.consBoth isSame, ?_⟩
        -- a head that is left out can be matched with the other head instead
        intro length common
        rcases common.cases with skipped | skipped | ⟨_, shorter, rfl, rest⟩
        · obtain ⟨shorter, shrinks, rest⟩ := skipped.dropRight
          exact Nat.le_trans shrinks (Nat.add_le_add_left ((leftIh right).bounds _ rest) 1)
        · obtain ⟨shorter, shrinks, rest⟩ := skipped.dropLeft
          exact Nat.le_trans shrinks (Nat.add_le_add_left ((leftIh right).bounds _ rest) 1)
        · exact Nat.add_le_add_left ((leftIh right).bounds _ rest) 1
      · rename_i differs
        constructor
        · rcases Nat.le_total (commonLength same left (other :: right))
            (commonLength same (item :: left) right) with smaller | smaller
          · rw [Nat.max_eq_right smaller]
            exact rightIh.attained.consRight
          · rw [Nat.max_eq_left smaller]
            exact (leftIh (other :: right)).attained.consLeft
        · intro length common
          rcases common.cases with skipped | skipped | ⟨isSame, _⟩
          · apply Nat.le_trans ((leftIh (other :: right)).bounds _ skipped)
            exact Nat.le_max_left _ _
          · apply Nat.le_trans (rightIh.bounds _ skipped)
            exact Nat.le_max_right _ _
          · exact absurd isSame differs

/-! ## The merged list -/

/-- A list made of two lists in order, in which an element may stand for one of each. -/
inductive Interleaves (same : α → α → Bool) : List α → List α → List α → Prop where
  | nil : Interleaves same [] [] []
  | both {item other : α} {left right merged : List α} :
      same item other = true →
      Interleaves same left right merged →
      Interleaves same (item :: left) (other :: right) (item :: merged)
  | left {item : α} {left right merged : List α} :
      Interleaves same left right merged →
      Interleaves same (item :: left) right (item :: merged)
  | right {other : α} {left right merged : List α} :
      Interleaves same left right merged →
      Interleaves same left (other :: right) (other :: merged)

namespace Interleaves

variable {same : α → α → Bool} {left right merged : List α}

theorem nil_left (same : α → α → Bool) (right : List α) : Interleaves same [] right right := by
  induction right with
  | nil => exact .nil
  | cons other right ih => exact .right ih

/-- The left sequence is a subsequence of the merged one. -/
theorem sublist_left (interleaves : Interleaves same left right merged) :
    List.Sublist left merged := by
  induction interleaves with
  | nil => exact List.Sublist.refl []
  | both _ _ rest => exact rest.cons_cons _
  | left _ rest => exact rest.cons_cons _
  | right _ rest => exact rest.cons _

/-- So is the right one, up to items taken for the same. -/
theorem sublist_right (interleaves : Interleaves same left right merged) :
    List.SublistForall₂ (fun other item => item = other ∨ same item other = true) right
      merged := by
  induction interleaves with
  | nil => exact .nil
  | both isSame _ rest => exact .cons (Or.inr isSame) rest
  | left _ rest => exact .cons_right rest
  | right _ rest => exact .cons (Or.inl rfl) rest

theorem mem_or_mem (interleaves : Interleaves same left right merged) {item : α}
    (member : item ∈ merged) : item ∈ left ∨ item ∈ right := by
  induction interleaves with
  | nil =>
    cases member
  | both _ _ rest =>
    rcases List.mem_cons.mp member with rfl | later
    · exact Or.inl List.mem_cons_self
    · exact (rest later).imp (List.mem_cons_of_mem _) (List.mem_cons_of_mem _)
  | left _ rest =>
    rcases List.mem_cons.mp member with rfl | later
    · exact Or.inl List.mem_cons_self
    · exact (rest later).imp (List.mem_cons_of_mem _) id
  | right _ rest =>
    rcases List.mem_cons.mp member with rfl | later
    · exact Or.inr List.mem_cons_self
    · exact (rest later).imp id (List.mem_cons_of_mem _)

end Interleaves

/-- The merged sequence interleaves both. -/
theorem merge_interleaves (same : α → α → Bool) (left right : List α) :
    Interleaves same left right (merge same left right) := by
  induction left generalizing right with
  | nil => exact Interleaves.nil_left same right
  | cons item left leftIh =>
    induction right with
    | nil => exact .left (leftIh [])
    | cons other right rightIh =>
      rw [merge_cons]
      split
      · rename_i isSame
        exact .both isSame (leftIh right)
      · split
        · exact .left (leftIh (other :: right))
        · exact .right rightIh

/-- Merging commutes with a map that respects sameness. -/
theorem merge_map {same : α → α → Bool} {sameImage : β → β → Bool} (image : α → β)
    (agree : ∀ item other, sameImage (image item) (image other) = same item other)
    (left right : List α) :
    merge sameImage (left.map image) (right.map image) = (merge same left right).map image := by
  have lengths (left right : List α) :
      commonLength sameImage (left.map image) (right.map image) = commonLength same left right := by
    induction left generalizing right with
    | nil => rfl
    | cons item left leftIh =>
      induction right with
      | nil => rfl
      | cons other right rightIh =>
        have atLeft := leftIh (other :: right)
        rw [List.map_cons] at rightIh atLeft
        rw [List.map_cons, List.map_cons, commonLength_cons, commonLength_cons, agree, atLeft,
          rightIh, leftIh right]
  induction left generalizing right with
  | nil => rfl
  | cons item left leftIh =>
    induction right with
    | nil => exact congrArg (image item :: ·) (leftIh [])
    | cons other right rightIh =>
      have atLeft := leftIh (other :: right)
      have lengthLeft := lengths left (other :: right)
      have lengthRight := lengths (item :: left) right
      rw [List.map_cons] at rightIh atLeft lengthLeft lengthRight
      rw [List.map_cons, List.map_cons, merge_cons, merge_cons, agree, atLeft, rightIh,
        leftIh right, lengthLeft, lengthRight]
      split
      · rfl
      · split <;> rfl

/-- The merge is as short as the longest common subsequence allows. -/
theorem length_merge (same : α → α → Bool) (left right : List α) :
    (merge same left right).length + commonLength same left right = left.length + right.length := by
  induction left generalizing right with
  | nil => simp
  | cons item left leftIh =>
    induction right with
    | nil =>
      have rest := leftIh []
      simp only [commonLength_nil_right, List.length_nil, Nat.add_zero] at rest
      simp [rest]
    | cons other right rightIh =>
      rw [merge_cons, commonLength_cons]
      split
      · have rest := leftIh right
        simp only [List.length_cons]
        omega
      · split
        · rename_i smaller
          have rest := leftIh (other :: right)
          rw [Nat.max_eq_left smaller, List.length_cons, List.length_cons (a := item)]
          omega
        · rename_i larger
          rw [Nat.max_eq_right (Nat.le_of_not_le larger), List.length_cons,
            List.length_cons (a := other)]
          omega

end TilelangAscend.CommonSupersequence
