import TilelangAscend.PipelinePlanningHeads

namespace TilelangAscend.PipelinePlanning

open ListRanks

/-!
# When the orders are a permutation

The intended arrangement has the heads in front of the numbered statements.  The second pass
produces it exactly when all heads but the last one are at the front of the loop body;
otherwise two heads receive the same order.
-/

variable {count : Nat} {info : Nat → StageInfo} {numStages : Int}

/-- The place of a statement when the heads come first. -/
def place (count : Nat) (info : Nat → StageInfo) (position : Nat) : Nat :=
  (heads count info ++ sequence count info).idxOf position

theorem mem_arrangement {position : Nat} (below : position < count) :
    position ∈ heads count info ++ sequence count info :=
  arrangement_perm.mem_iff.mpr (List.mem_range.mpr below)

theorem place_lt {position : Nat} (below : position < count) :
    place count info position < count := by
  have within := List.idxOf_lt_length_iff.mpr (@mem_arrangement count info position below)
  have length := (@arrangement_perm count info).length_eq
  rw [List.length_range] at length
  unfold place
  omega

theorem place_injective {first : Nat} (firstBelow : first < count) {second : Nat}
    (same : place count info first = place count info second) : first = second :=
  (List.idxOf_inj (mem_arrangement firstBelow)).mp same

variable {position : Nat}

theorem place_head (below : position < count) (head : IsHead count info position) :
    place count info position = rank (headTest count info) position := by
  unfold place
  rw [List.idxOf_append_of_mem (mem_heads.mpr ⟨below, head⟩)]
  exact idxOf_filter_range below (by simpa [headTest] using head)

theorem place_numbered (notHead : ¬ IsHead count info position) :
    place count info position =
      rank (headTest count info) count + (sequence count info).idxOf position := by
  have absent : position ∉ heads count info := fun member => notHead (mem_heads.mp member).2
  unfold place
  rw [List.idxOf_append_of_notMem absent, length_heads]

theorem HeadsFirst.shift_head (headsFirst : HeadsFirst count info)
    (below : position < count) (head : IsHead count info position) :
    min (rank (headTest count info) count) (position + 1) =
      rank (headTest count info) position + 1 := by
  have next : rank (headTest count info) (position + 1) =
      rank (headTest count info) position + 1 := by
    simp [rank_succ, headTest, head]
  have limited := rank_le (headTest count info) position
  have total := rank_mono (headTest count info) (show position + 1 ≤ count by omega)
  by_cases last : rank (headTest count info) count = rank (headTest count info) (position + 1)
  · omega
  · -- a later head: all statements before this one are heads
    obtain ⟨later, behind, laterBelow, isHead, _⟩ := exists_of_rank_lt
      (show rank (headTest count info) (position + 1) < rank (headTest count info) count by omega)
    have laterHead : IsHead count info later := by
      simpa [headTest] using isHead
    have filled : rank (headTest count info) position = position := by
      have grows := @rank_add (headTest count info) 0 position (Nat.zero_le position)
        fun number _ numberBelow => by
          simpa [headTest] using
            headsFirst later laterBelow position (by omega) head laterHead number numberBelow
      simpa [rank] using grows
    omega

theorem HeadsFirst.shift_numbered (headsFirst : HeadsFirst count info)
    (notHead : ¬ IsHead count info position) :
    min (rank (headTest count info) count) (position + 1) = rank (headTest count info) count := by
  have stays : rank (headTest count info) (position + 1) = rank (headTest count info) position := by
    simp [rank_succ, headTest, notHead]
  have limited := rank_le (headTest count info) position
  by_contra cut
  obtain ⟨first, second, above, ordered, below, firstHead, secondHead⟩ := two_of_rank_lt
    (show rank (headTest count info) (position + 1) + 1 < rank (headTest count info) count by
      omega)
  exact notHead (headsFirst second below first ordered (by simpa [headTest] using firstHead)
    (by simpa [headTest] using secondHead) position (by omega))

/-- With heads in front the order is the place in the arrangement. -/
theorem HeadsFirst.secondPass_order (headsFirst : HeadsFirst count info)
    (below : position < count) :
    (secondPass count (firstPass count info numStages)).order position =
      place count info position := by
  rw [PipelinePlanning.secondPass_order position]
  by_cases head : IsHead count info position
  · have absent : position ∉ sequence count info := fun member => (mem_sequence.mp member).2 head
    rw [headsFirst.shift_head below head, place_head below head, baseOrder, if_neg absent]
    omega
  · have member : position ∈ sequence count info := mem_sequence.mpr ⟨below, head⟩
    rw [headsFirst.shift_numbered head, place_numbered head, baseOrder, if_pos member]
    omega

/-- Distinct orders need the heads in front. -/
theorem headsFirst_of_distinct
    (distinct :
      ∀ first < count, ∀ second < count,
        (secondPass count (firstPass count info numStages)).order first =
          (secondPass count (firstPass count info numStages)).order second →
        first = second) :
    HeadsFirst count info := by
  -- heads from position `u - 1` on, with `u` heads in all, get order `u - 1`
  have late :
      ∀ position < count, IsHead count info position →
        rank (headTest count info) count ≤ position + 1 →
        (secondPass count (firstPass count info numStages)).order position =
          rank (headTest count info) count - 1 := by
    intro position below head behind
    have absent : position ∉ sequence count info := fun member => (mem_sequence.mp member).2 head
    rw [secondPass_order, min_eq_left behind, baseOrder, if_neg absent]
    omega
  have full :
      rank (headTest count info) count - 1 ≤
        rank (headTest count info) (rank (headTest count info) count - 1) := by
    by_contra short
    obtain ⟨first, second, above, ordered, below, firstHead, secondHead⟩ := two_of_rank_lt
      (show rank (headTest count info) (rank (headTest count info) count - 1) + 1 <
        rank (headTest count info) count by omega)
    have same :=
      distinct first (by omega) second below
        ((late first (by omega) (by simpa [headTest] using firstHead) (by omega)).trans
          (late second below (by simpa [headTest] using secondHead) (by omega)).symm)
    omega
  intro second below first ordered firstHead secondHead position before
  by_cases early : first < rank (headTest count info) count - 1
  · simpa [headTest] using passes_of_le_rank full (show position < _ by omega)
  · have same := distinct first (by omega) second below
      ((late first (by omega) firstHead (by omega)).trans
        (late second below secondHead (by omega)).symm)
    omega

end TilelangAscend.PipelinePlanning
