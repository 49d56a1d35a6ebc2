import Mathlib.Data.Finset.Card
import Mathlib.Order.Interval.Finset.Nat
import Mathlib.Data.List.Nodup
import Mathlib.Data.List.Perm.Basic
import Mathlib.Data.List.Range

namespace TilelangAscend.ListRanks

/-!
# Positions in duplicate-free lists

In a list that is strictly sorted by some order the positions follow the order.  The
position of a number in a filtered range counts the smaller numbers that pass the filter.
-/

variable {α : Type} [DecidableEq α] {before : α → α → Prop} {items : List α} {first second : α}
  {test : Nat → Bool} {count number : Nat} {place : Nat → Nat}

theorem before_of_idxOf_lt (sorted : items.Pairwise before) (member : second ∈ items)
    (lower : items.idxOf first < items.idxOf second) : before first second := by
  have within := List.idxOf_lt_length_iff.mpr member
  have related := List.pairwise_iff_getElem.mp sorted _ _ (by omega) within lower
  rwa [List.getElem_idxOf, List.getElem_idxOf] at related

theorem idxOf_lt_iff (sorted : items.Pairwise before)
    (asymmetric : ∀ first second, before first second → ¬ before second first)
    (firstMember : first ∈ items) (secondMember : second ∈ items) :
    items.idxOf first < items.idxOf second ↔ before first second := by
  constructor
  · exact before_of_idxOf_lt sorted secondMember
  · intro isBefore
    rcases Nat.lt_trichotomy (items.idxOf first) (items.idxOf second) with
        lower | same | higher
    · exact lower
    · have equal := (List.idxOf_inj firstMember).mp same
      subst equal
      exact absurd isBefore (asymmetric _ _ isBefore)
    · exact absurd (before_of_idxOf_lt sorted firstMember higher) (asymmetric _ _ isBefore)

/-- How many numbers below a bound pass a test. -/
def rank (test : Nat → Bool) (bound : Nat) : Nat :=
  ((List.range bound).filter test).length

theorem rank_succ (test : Nat → Bool) (bound : Nat) :
    rank test (bound + 1) = rank test bound + if test bound = true then 1 else 0 := by
  unfold rank
  rw [List.range_succ, List.filter_append, List.length_append]
  by_cases passes : test bound = true
  · simp [passes]
  · simp [passes]

theorem rank_le (test : Nat → Bool) (bound : Nat) : rank test bound ≤ bound := by
  have filtered := List.length_filter_le test (List.range bound)
  rwa [List.length_range] at filtered

theorem rank_mono (test : Nat → Bool) {first second : Nat} (ordered : first ≤ second) :
    rank test first ≤ rank test second := by
  induction ordered with
  | refl => exact le_rfl
  | step _ ih =>
    rw [Nat.succ_eq_add_one, rank_succ]
    omega

theorem rank_add {test : Nat → Bool} {first second : Nat} (ordered : first ≤ second)
    (passes : ∀ number, first ≤ number → number < second → test number = true) :
    rank test second = rank test first + (second - first) := by
  induction ordered with
  | refl => simp
  | @step middle isBetween ih =>
    have earlier := ih fun number above below => passes number above (by omega)
    have last := passes middle isBetween (Nat.lt_succ_self _)
    have atLeast : first ≤ middle := isBetween
    rw [Nat.succ_eq_add_one, rank_succ, earlier, last]
    simp only [↓reduceIte]
    omega

theorem idxOf_filter_range (below : number < count) (passes : test number = true) :
    ((List.range count).filter test).idxOf number = rank test number := by
  induction count with
  | zero => omega
  | succ count ih =>
    rw [List.range_succ, List.filter_append]
    by_cases isLast : number = count
    · subst isLast
      have absent : number ∉ (List.range number).filter test := by
        intro member
        have inRange := List.mem_range.mp (List.mem_of_mem_filter member)
        omega
      rw [List.idxOf_append_of_notMem absent]
      simp [rank, passes]
    · have earlier : number < count := by omega
      have member : number ∈ (List.range count).filter test :=
        List.mem_filter.mpr ⟨List.mem_range.mpr earlier, passes⟩
      rw [List.idxOf_append_of_mem member, ih earlier]

theorem exists_of_rank_lt {first second : Nat} (grown : rank test first < rank test second) :
    ∃ number, first ≤ number ∧ number < second ∧ test number = true ∧
      rank test number = rank test first := by
  induction second with
  | zero => simp [rank] at grown
  | succ bound ih =>
    by_cases earlier : rank test first < rank test bound
    · obtain ⟨number, above, below, passes, same⟩ := ih earlier
      exact ⟨number, above, by omega, passes, same⟩
    · rw [rank_succ] at grown
      have passes : test bound = true := by
        by_contra fails
        rw [if_neg fails] at grown
        omega
      rw [if_pos passes] at grown
      have above : first ≤ bound := by
        by_contra behind
        have grows := rank_mono test (show bound + 1 ≤ first by omega)
        rw [rank_succ, if_pos passes] at grows
        omega
      have atLeast := rank_mono test above
      exact ⟨bound, above, Nat.lt_succ_self _, passes, by omega⟩

theorem two_of_rank_lt {low high : Nat} (grown : rank test low + 1 < rank test high) :
    ∃ first second, low ≤ first ∧ first < second ∧ second < high ∧
      test first = true ∧ test second = true := by
  obtain ⟨first, above, _, passes, same⟩ :=
    exists_of_rank_lt (show rank test low < rank test high by omega)
  have next : rank test (first + 1) = rank test low + 1 := by
    rw [rank_succ, if_pos passes, same]
  obtain ⟨second, behind, below, secondPasses, _⟩ :=
    exists_of_rank_lt (show rank test (first + 1) < rank test high by omega)
  exact ⟨first, second, above, by omega, below, passes, secondPasses⟩

theorem passes_of_le_rank {bound : Nat} (full : bound ≤ rank test bound)
    (below : number < bound) : test number = true := by
  induction bound with
  | zero => omega
  | succ bound ih =>
    rw [rank_succ] at full
    have limited := rank_le test bound
    have passes : test bound = true := by
      by_contra fails
      rw [if_neg fails] at full
      omega
    rw [if_pos passes] at full
    by_cases isLast : number = bound
    · exact isLast ▸ passes
    · exact ih (by omega) (by omega)

theorem map_perm_range (within : ∀ number < count, place number < count)
    (distinct : ∀ first < count, ∀ second < count, place first = place second → first = second) :
    ((List.range count).map place).Perm (List.range count) := by
  have nodup : ((List.range count).map place).Nodup := by
    refine List.Nodup.map_on ?_ List.nodup_range
    intro first isFirst second isSecond same
    exact distinct first (List.mem_range.mp isFirst) second (List.mem_range.mp isSecond) same
  refine (List.subperm_of_subset nodup ?_).perm_of_length_le (by simp)
  intro number member
  obtain ⟨source, inRange, rfl⟩ := List.mem_map.mp member
  exact List.mem_range.mpr (within source (List.mem_range.mp inRange))

/--
When the numbers that pass a test are placed above all others, they take the last places.
-/
theorem place_split (within : ∀ number < count, place number < count)
    (distinct : ∀ first < count, ∀ second < count, place first = place second → first = second)
    (above :
      ∀ first < count, ∀ second < count,
        test first = false → test second = true → place first < place second)
    (below : number < count) : place number + rank test count < count ↔ test number = false := by
  have injective (kept : Nat → Bool) :
      Set.InjOn place ((Finset.range count).filter fun other => kept other = true) := by
    intro first isFirst second isSecond same
    have firstBelow := Finset.mem_range.mp (Finset.mem_filter.mp isFirst).1
    have secondBelow := Finset.mem_range.mp (Finset.mem_filter.mp isSecond).1
    exact distinct first firstBelow second secondBelow same
  have passing : ((Finset.range count).filter fun other => test other = true).card =
      rank test count := by
    change ((List.range count).filter fun other => decide (test other = true)).length = _
    simp [rank]
  constructor
  · intro low
    by_contra notFails
    have passes : test number = true := by
      simpa using notFails
    -- the places of the others are below the place of this one
    have inside :
        ∀ other ∈ (Finset.range count).filter fun other => (!test other) = true,
          place other ∈ Finset.range (place number) := by
      intro other member
      obtain ⟨inRange, fails⟩ := Finset.mem_filter.mp member
      exact Finset.mem_range.mpr
        (above other (Finset.mem_range.mp inRange) number below (by simpa using fails) passes)
    have bounded := Finset.card_le_card_of_injOn place inside (injective _)
    have split := Finset.card_filter_add_card_filter_not
      (s := Finset.range count) (fun other => test other = true)
    have negated :
        ((Finset.range count).filter fun other => ¬ test other = true) =
          (Finset.range count).filter fun other => (!test other) = true := by
      ext other
      simp
    rw [negated, passing, Finset.card_range] at split
    rw [Finset.card_range] at bounded
    omega
  · intro fails
    -- the places of the passing numbers are above the place of this one
    have inside :
        ∀ other ∈ (Finset.range count).filter fun other => test other = true,
          place other ∈ Finset.Ico (place number + 1) count := by
      intro other member
      obtain ⟨inRange, passes⟩ := Finset.mem_filter.mp member
      have otherBelow := Finset.mem_range.mp inRange
      exact Finset.mem_Ico.mpr
        ⟨above number below other otherBelow fails passes, within other otherBelow⟩
    have bounded := Finset.card_le_card_of_injOn place inside (injective test)
    rw [passing, Nat.card_Ico] at bounded
    have placed := within number below
    omega

end TilelangAscend.ListRanks
