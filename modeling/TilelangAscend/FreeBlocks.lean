import Mathlib
import TilelangAscend.IntervalCover
import TilelangAscend.LinearScan

namespace TilelangAscend.MemoryPlanning

open IntervalCover

/-!
# What the free blocks cover

Free blocks are read as half-open intervals of addresses.  As long as no block ends beyond a
bound that `size_t` can represent, sorting and merging keep the covered addresses, and taking a
range out of separated blocks uncovers exactly this range.
-/

/-- Values of `size_t` are below this number. -/
def sizeRange : Nat :=
  2 ^ 64

theorem toNat_add_of_lt {left right : UInt64} (fits : left.toNat + right.toNat < sizeRange) :
    (left + right).toNat = left.toNat + right.toNat := by
  rw [UInt64.toNat_add]
  exact Nat.mod_eq_of_lt fits

theorem toNat_max (left right : UInt64) : (max left right).toNat = max left.toNat right.toNat := by
  change (if left ≤ right then right else left).toNat = _
  by_cases inOrder : left ≤ right
  · rw [if_pos inOrder, max_eq_right (UInt64.le_iff_toNat_le.mp inOrder)]
  · rw [if_neg inOrder]
    rw [UInt64.le_iff_toNat_le] at inOrder
    exact (max_eq_left (Nat.le_of_not_le inOrder)).symm

theorem toNat_alignUp {value : UInt64} (fits : value.toNat + 31 < sizeRange) :
    (alignUp value 32).toNat = (value.toNat + 31) / 32 * 32 := by
  unfold sizeRange at fits
  have shifted : (value + 32 - 1).toNat = value.toNat + 31 := by
    rw [UInt64.toNat_sub, UInt64.toNat_add]
    simp only [UInt64.reduceToNat]
    omega
  unfold alignUp
  rw [UInt64.toNat_mul, UInt64.toNat_div, shifted]
  exact Nat.mod_eq_of_lt (by
    have := Nat.div_mul_le_self (value.toNat + 31) 32
    simp only [UInt64.reduceToNat]
    omega)

/-- The addresses of a block as a half-open interval. -/
def FreeBlock.span (block : FreeBlock) : Nat × Nat :=
  (block.first.toNat, block.first.toNat + block.second.toNat)

/-- Addresses that free blocks cover. -/
def Free (freeBlocks : List FreeBlock) (address : Nat) : Prop :=
  Covers (freeBlocks.map FreeBlock.span) address

/-- All blocks end at or before a bound. -/
def EndBy (bound : Nat) (freeBlocks : List FreeBlock) : Prop :=
  ∀ block ∈ freeBlocks, block.span.2 ≤ bound

variable {freeBlocks : List FreeBlock} {address bound : Nat} {block : FreeBlock}
  {offset size : UInt64}

theorem free_iff :
    Free freeBlocks address ↔
      ∃ block ∈ freeBlocks, block.span.1 ≤ address ∧ address < block.span.2 := by
  simp [Free, Covers]

theorem free_append {first second : List FreeBlock} :
    Free (first ++ second) address ↔ Free first address ∨ Free second address := by
  simp only [free_iff, List.mem_append]
  constructor
  · rintro ⟨block, inFirst | inSecond, within⟩
    · exact Or.inl ⟨block, inFirst, within⟩
    · exact Or.inr ⟨block, inSecond, within⟩
  · rintro (⟨block, inFirst, within⟩ | ⟨block, inSecond, within⟩)
    · exact ⟨block, Or.inl inFirst, within⟩
    · exact ⟨block, Or.inr inSecond, within⟩

theorem FreeBlock.toNat_end (representable : bound < sizeRange)
    (ends : block.span.2 ≤ bound) : (block.first + block.second).toNat = block.span.2 :=
  toNat_add_of_lt (lt_of_le_of_lt ends representable)

/-! ## Sorting and merging -/

theorem FreeBlock.before_iff {left right : FreeBlock} :
    left.before right ↔
      left.first.toNat < right.first.toNat ∨
        left.first.toNat = right.first.toNat ∧ left.second.toNat ≤ right.second.toNat := by
  rw [FreeBlock.before, UInt64.lt_iff_toNat_lt, UInt64.le_iff_toNat_le, UInt64.toNat_inj]

theorem sortBlocks_perm (freeBlocks : List FreeBlock) : (sortBlocks freeBlocks).Perm freeBlocks :=
  List.perm_insertionSort _ _

theorem sortBlocks_sorted (freeBlocks : List FreeBlock) :
    Sorted ((sortBlocks freeBlocks).map FreeBlock.span) := by
  have isTotal : Std.Total FreeBlock.before := by
    constructor
    intro left right
    simp only [FreeBlock.before_iff]
    omega
  have isTransitive : IsTrans FreeBlock FreeBlock.before := by
    constructor
    intro first second third firstSecond secondThird
    rw [FreeBlock.before_iff] at firstSecond secondThird ⊢
    omega
  have sorted := List.pairwise_insertionSort FreeBlock.before freeBlocks
  refine List.pairwise_map.mpr (sorted.imp ?_)
  intro left right inOrder
  rw [FreeBlock.before_iff] at inOrder
  simp only [FreeBlock.span]
  omega

section

variable (representable : bound < sizeRange)
include representable

theorem map_span_mergeFrom {last : FreeBlock} {rest : List FreeBlock}
    (ends : EndBy bound (last :: rest)) :
    (mergeFrom last rest).map FreeBlock.span = mergeInto last.span (rest.map FreeBlock.span) := by
  induction rest generalizing last with
  | nil => rfl
  | cons current rest ih =>
    have lastEnd := FreeBlock.toNat_end representable (ends last List.mem_cons_self)
    have currentEnd := FreeBlock.toNat_end representable (ends current (by simp))
    have touches : (last.first + last.second ≥ current.first) ↔ current.span.1 ≤ last.span.2 := by
      rw [ge_iff_le, UInt64.le_iff_toNat_le, lastEnd]
      rfl
    simp only [mergeFrom, List.map_cons, mergeInto]
    by_cases merges : current.span.1 ≤ last.span.2
    · rw [if_pos (touches.mpr merges), if_pos merges]
      have newSpan :
          (FreeBlock.span
            ⟨last.first,
              max (last.first + last.second) (current.first + current.second) - last.first⟩) =
            (last.span.1, max last.span.2 current.span.2) := by
        refine Prod.ext rfl ?_
        have newEnd := toNat_max (last.first + last.second) (current.first + current.second)
        rw [lastEnd, currentEnd] at newEnd
        have below : last.first.toNat ≤ max last.span.2 current.span.2 :=
          le_max_of_le_left (Nat.le_add_right _ _)
        have difference := UInt64.toNat_sub_of_le _ _ (UInt64.le_iff_toNat_le.mpr (newEnd ▸ below))
        simp only [FreeBlock.span] at difference newEnd below ⊢
        omega
      rw [← newSpan]
      apply ih
      intro block member
      rcases List.mem_cons.mp member with isNew | inRest
      · rw [isNew, newSpan]
        exact max_le (ends last List.mem_cons_self) (ends current (by simp))
      · exact ends block (by simp [inRest])
    · rw [if_neg (fun holds => merges (touches.mp holds)), if_neg merges, List.map_cons,
        ih fun block member => ends block (List.mem_cons_of_mem _ member)]

theorem map_span_mergeFreeBlocks (ends : EndBy bound freeBlocks) :
    (mergeFreeBlocks freeBlocks).map FreeBlock.span =
      merge ((sortBlocks freeBlocks).map FreeBlock.span) := by
  unfold mergeFreeBlocks
  cases sorted : sortBlocks freeBlocks with
  | nil => rfl
  | cons first rest =>
    refine map_span_mergeFrom representable ?_
    intro block member
    rw [← sorted] at member
    exact ends block ((sortBlocks_perm freeBlocks).mem_iff.mp member)

theorem free_mergeFreeBlocks (ends : EndBy bound freeBlocks) :
    Free (mergeFreeBlocks freeBlocks) address ↔ Free freeBlocks address := by
  have sameFree : Free (sortBlocks freeBlocks) address ↔ Free freeBlocks address := by
    simp only [free_iff, (sortBlocks_perm freeBlocks).mem_iff]
  rw [← sameFree, Free, map_span_mergeFreeBlocks representable ends]
  constructor
  · exact covers_of_merge
  · exact covers_merge (sortBlocks_sorted freeBlocks)

theorem mergeFreeBlocks_separated (ends : EndBy bound freeBlocks) :
    Separated ((mergeFreeBlocks freeBlocks).map FreeBlock.span) := by
  rw [map_span_mergeFreeBlocks representable ends]
  exact merge_separated (sortBlocks_sorted freeBlocks)

theorem mem_mergeFreeBlocks (ends : EndBy bound freeBlocks)
    (member : block ∈ mergeFreeBlocks freeBlocks) :
    (∃ left ∈ freeBlocks, block.span.1 = left.span.1) ∧
      ∃ right ∈ freeBlocks, block.span.2 = right.span.2 := by
  have inMerge : block.span ∈ merge ((sortBlocks freeBlocks).map FreeBlock.span) := by
    rw [← map_span_mergeFreeBlocks representable ends]
    exact List.mem_map_of_mem member
  obtain ⟨⟨left, isLeft, starts⟩, right, isRight, finishes⟩ := mem_merge inMerge
  obtain ⟨leftBlock, leftMember, rfl⟩ := List.mem_map.mp isLeft
  obtain ⟨rightBlock, rightMember, rfl⟩ := List.mem_map.mp isRight
  exact ⟨⟨leftBlock, (sortBlocks_perm freeBlocks).mem_iff.mp leftMember, starts⟩,
    rightBlock, (sortBlocks_perm freeBlocks).mem_iff.mp rightMember, finishes⟩

end

theorem sortBlocks_of_separated (separated : Separated (freeBlocks.map FreeBlock.span)) :
    sortBlocks freeBlocks = freeBlocks := by
  refine List.Pairwise.insertionSort_eq ?_
  refine (List.pairwise_map.mp separated).imp ?_
  intro left right apart
  rw [FreeBlock.before_iff]
  simp only [FreeBlock.span] at apart
  omega

/-! ## Taking out a range -/

theorem span_of_mem_remainder (representable : bound < sizeRange) {part : FreeBlock}
    (ends : block.span.2 ≤ bound) (fits : offset.toNat + size.toNat ≤ bound)
    (member : part ∈ block.remainder offset size) :
    part.span = (block.span.1, offset.toNat) ∨
      part.span = (offset.toNat + size.toNat, block.span.2) := by
  have blockEnd := FreeBlock.toNat_end representable ends
  have rangeEnd : (offset + size).toNat = offset.toNat + size.toNat :=
    toNat_add_of_lt (lt_of_le_of_lt fits representable)
  rcases List.mem_append.mp member with inFront | behind
  · left
    split at inFront
    · rename_i after
      have difference := UInt64.toNat_sub_of_le _ _ (UInt64.le_of_lt after)
      have inOrder := UInt64.lt_iff_toNat_lt.mp after
      rw [List.mem_singleton.mp inFront]
      simp only [FreeBlock.span, Prod.mk.injEq, true_and, difference]
      omega
    · simp at inFront
  · right
    split at behind
    · rename_i before
      have difference := UInt64.toNat_sub_of_le _ _ (UInt64.le_of_lt before)
      have inOrder := UInt64.lt_iff_toNat_lt.mp before
      rw [List.mem_singleton.mp behind]
      rw [blockEnd, rangeEnd] at difference inOrder
      simp only [FreeBlock.span, Prod.mk.injEq, rangeEnd, difference, true_and] at *
      omega
    · simp at behind

section

variable (representable : bound < sizeRange) (ends : EndBy bound freeBlocks)
include representable ends

/-- A block that is left is an old one or a remainder. -/
theorem mem_removeFromFreeBlocks (member : block ∈ removeFromFreeBlocks offset size freeBlocks) :
    block ∈ freeBlocks ∨
      ∃ whole ∈ freeBlocks,
        whole.span.1 ≤ offset.toNat ∧ offset.toNat < whole.span.2 ∧
          block ∈ whole.remainder offset size := by
  induction freeBlocks with
  | nil => simp [removeFromFreeBlocks] at member
  | cons head rest ih =>
    simp only [removeFromFreeBlocks] at member
    split at member
    · rename_i contains
      rw [ge_iff_le, UInt64.le_iff_toNat_le, UInt64.lt_iff_toNat_lt,
        FreeBlock.toNat_end representable (ends head List.mem_cons_self)] at contains
      rcases List.mem_append.mp member with inRest | isPart
      · exact Or.inl (List.mem_cons_of_mem _ inRest)
      · exact Or.inr ⟨head, List.mem_cons_self, contains.1, contains.2, isPart⟩
    · rcases List.mem_cons.mp member with isHead | inRest
      · exact Or.inl (isHead ▸ List.mem_cons_self)
      · rcases ih
          (fun block member => ends block (List.mem_cons_of_mem _ member)) inRest with
          isGiven | ⟨whole, isWhole, contains⟩
        · exact Or.inl (List.mem_cons_of_mem _ isGiven)
        · exact Or.inr ⟨whole, List.mem_cons_of_mem _ isWhole, contains⟩

/-- What is free after an allocation was free before. -/
theorem free_of_removeFromFreeBlocks (fits : offset.toNat + size.toNat ≤ bound)
    (free : Free (removeFromFreeBlocks offset size freeBlocks) address) :
    Free freeBlocks address := by
  obtain ⟨block, member, within⟩ := free_iff.mp free
  rcases mem_removeFromFreeBlocks representable ends member with
    isGiven | ⟨whole, isWhole, starts, inside, isPart⟩
  · exact free_iff.mpr ⟨block, isGiven, within⟩
  · refine free_iff.mpr ⟨whole, isWhole, ?_⟩
    rcases span_of_mem_remainder representable (ends whole isWhole) fits isPart with
      front | back
    · rw [front] at within
      omega
    · rw [back] at within
      omega

/-- What was free and is not allocated stays free. -/
theorem free_removeFromFreeBlocks (separated : Separated (freeBlocks.map FreeBlock.span))
    {whole : FreeBlock} (isWhole : whole ∈ freeBlocks) (starts : whole.span.1 ≤ offset.toNat)
    (fits : offset.toNat + size.toNat ≤ whole.span.2) (nonempty : 0 < size.toNat)
    (free : Free (removeFromFreeBlocks offset size freeBlocks) address) :
    ¬ (offset.toNat ≤ address ∧ address < offset.toNat + size.toNat) := by
  induction freeBlocks with
  | nil => simp at isWhole
  | cons head rest ih =>
    rw [List.map_cons] at separated
    obtain ⟨headApart, restSeparated⟩ := List.pairwise_cons.mp separated
    have apart : ∀ block ∈ rest, head.span.2 < block.span.1 := by
      intro block member
      exact headApart _ (List.mem_map_of_mem member)
    have headEnd := FreeBlock.toNat_end representable (ends head List.mem_cons_self)
    simp only [removeFromFreeBlocks] at free
    split at free
    · rename_i contains
      have contained : head.span.1 ≤ offset.toNat ∧ offset.toNat < head.span.2 := by
        rw [ge_iff_le, UInt64.le_iff_toNat_le, UInt64.lt_iff_toNat_lt, headEnd] at contains
        exact contains
      have isHead : whole = head := by
        rcases List.mem_cons.mp isWhole with same | inRest
        · exact same
        · have := apart whole inRest
          omega
      rw [isHead] at fits starts
      rcases free_append.mp free with inRest | inPart
      · obtain ⟨block, member, within⟩ := free_iff.mp inRest
        have := apart block member
        omega
      · obtain ⟨part, isPart, within⟩ := free_iff.mp inPart
        have headBound := ends head List.mem_cons_self
        rcases span_of_mem_remainder representable headBound (fits.trans headBound) isPart
          with front | back
        · rw [front] at within
          omega
        · rw [back] at within
          omega
    · rename_i absent
      have inRest : whole ∈ rest := by
        rcases List.mem_cons.mp isWhole with same | inRest
        · refine absurd ?_ absent
          rw [ge_iff_le, UInt64.le_iff_toNat_le, UInt64.lt_iff_toNat_lt, headEnd, ← same]
          exact ⟨starts, by omega⟩
        · exact inRest
      obtain ⟨block, member, within⟩ := free_iff.mp free
      rcases List.mem_cons.mp member with isHead | inRemoved
      · have := apart whole inRest
        rw [isHead] at within
        omega
      · exact ih
          (fun block member => ends block (List.mem_cons_of_mem _ member)) restSeparated inRest
          (free_iff.mpr ⟨block, inRemoved, within⟩)

end

end TilelangAscend.MemoryPlanning
