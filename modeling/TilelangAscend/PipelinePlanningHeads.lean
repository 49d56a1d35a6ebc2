import TilelangAscend.PipelinePlanningOrder

namespace TilelangAscend.PipelinePlanning

open ListRanks

/-!
# Orders of the heads

The second pass puts the heads in front.  Its sentinel counts the heads seen so far, and the
positions below the sentinel are no longer shifted, so the order of a statement grows by
the number of heads, but by no more than its position plus one.
-/

variable {count : Nat} {info : Nat → StageInfo} {numStages : Int}

/-- Whether a statement is a head, as a test. -/
def headTest (count : Nat) (info : Nat → StageInfo) (position : Nat) : Bool :=
  decide (IsHead count info position)

/-- The heads in the order of their positions. -/
def heads (count : Nat) (info : Nat → StageInfo) : List Nat :=
  (List.range count).filter (headTest count info)

/-- The order of a statement after the first pass. -/
def baseOrder (count : Nat) (info : Nat → StageInfo) (position : Nat) : Int :=
  if position ∈ sequence count info then ((sequence count info).idxOf position : Int) else -1

/-- The state of the second pass when the statements below a bound are processed. -/
structure Shifted
    (count : Nat)
    (info : Nat → StageInfo)
    (numStages : Int)
    (bound : Nat)
    (current : PlanState × Int) :
    Prop where
  sentinel : current.2 = rank (headTest count info) bound - 1
  orders :
    ∀ position,
      current.1.order position =
        baseOrder count info position +
          (min (rank (headTest count info) bound) (position + 1) : Nat)
  stages :
    ∀ position < count, IsHead count info position → position < bound →
      current.1.stage position = 0
  otherStages :
    ∀ position ∈ sequence count info, current.1.stage position = stageOf info numStages position
  next :
    current.1.orderIdx = (sequence count info).length + rank (headTest count info) bound

theorem shifted_initial :
    Shifted count info numStages 0 (firstPass count info numStages, -1) where
  sentinel := rfl
  orders := by
    intro position
    rw [firstPass_numbers.orders position]
    simp [baseOrder, rank]
  stages := fun _ _ _ below => absurd below (Nat.not_lt_zero _)
  otherStages := by
    intro position member
    rw [firstPass_numbers.stages position, if_pos member]
  next := firstPass_numbers.next

variable {position : Nat} {current : PlanState × Int}

section

variable (shifted : Shifted count info numStages position current) (below : position < count)
include shifted below

theorem Shifted.matches_iff :
    current.1.order position = current.2 ↔ IsHead count info position := by
  rw [shifted.orders position, shifted.sentinel]
  have bounded := rank_le (headTest count info) position
  rw [min_eq_left (by omega)]
  unfold baseOrder
  by_cases member : position ∈ sequence count info
  · have notHead := (mem_sequence.mp member).2
    simp only [member, if_true, notHead, iff_false]
    omega
  · have head : IsHead count info position := by
      by_contra notHead
      exact member (mem_sequence.mpr ⟨below, notHead⟩)
    simp only [member, if_false, head, iff_true]
    omega

theorem Shifted.head (head : IsHead count info position) :
    Shifted count info numStages (position + 1) (assignHead current position) := by
  have grows : rank (headTest count info) (position + 1) =
      rank (headTest count info) position + 1 := by
    simp [rank_succ, headTest, head]
  have isSentinel := (shifted.matches_iff below).mpr head
  have absent : position ∉ sequence count info := fun member => (mem_sequence.mp member).2 head
  unfold assignHead
  rw [if_pos isSentinel]
  refine ⟨?_, ?_, ?_, ?_, ?_⟩
  · have sentinel := shifted.sentinel
    simp only [grows]
    omega
  · intro other
    have before := shifted.orders other
    have sentinel := shifted.sentinel
    simp only [grows, before]
    split <;> omega
  · intro other otherBelow otherHead otherBound
    by_cases same : other = position
    · simp [same]
    · simp only [Function.update_of_ne same]
      exact shifted.stages other otherBelow otherHead (by omega)
  · intro other member
    have differs : other ≠ position := fun same => absent (same ▸ member)
    simp only [Function.update_of_ne differs]
    exact shifted.otherStages other member
  · have next := shifted.next
    simp only [grows, next]
    omega

theorem Shifted.skip (notHead : ¬ IsHead count info position) :
    Shifted count info numStages (position + 1) (assignHead current position) := by
  have stays : rank (headTest count info) (position + 1) = rank (headTest count info) position := by
    simp [rank_succ, headTest, notHead]
  have noSentinel := mt (shifted.matches_iff below).mp notHead
  unfold assignHead
  rw [if_neg noSentinel]
  refine ⟨?_, ?_, ?_, shifted.otherStages, ?_⟩
  · rw [stays]
    exact shifted.sentinel
  · intro other
    rw [stays]
    exact shifted.orders other
  · intro other otherBelow otherHead otherBound
    have differs : other ≠ position := fun same => notHead (same ▸ otherHead)
    exact shifted.stages other otherBelow otherHead (by omega)
  · rw [stays]
    exact shifted.next

end

theorem shifted_foldl {bound : Nat} (within : bound ≤ count) :
    Shifted count info numStages bound
      ((List.range bound).foldl assignHead (firstPass count info numStages, -1)) := by
  induction bound with
  | zero => exact shifted_initial
  | succ bound ih =>
    rw [List.range_succ, List.foldl_append]
    have earlier := ih (by omega)
    by_cases head : IsHead count info bound
    · exact earlier.head (by omega) head
    · exact earlier.skip (by omega) head

theorem length_heads : (heads count info).length = rank (headTest count info) count :=
  rfl

theorem mem_heads :
    position ∈ heads count info ↔ position < count ∧ IsHead count info position := by
  simp [heads, headTest]

/-- Heads and sequence together are all statements. -/
theorem arrangement_perm : (heads count info ++ sequence count info).Perm (List.range count) := by
  have distinct : (heads count info ++ sequence count info).Nodup := by
    refine List.nodup_append.mpr
      ⟨List.nodup_range.filter _, flatMap_group_nodup List.nodup_range, ?_⟩
    rintro position isHead _ member rfl
    exact (mem_sequence.mp member).2 (mem_heads.mp isHead).2
  refine (List.perm_ext_iff_of_nodup distinct List.nodup_range).mpr ?_
  intro position
  rw [List.mem_append, mem_heads, mem_sequence, List.mem_range]
  tauto

/-- The order of a statement after the shifts. -/
theorem secondPass_order (position : Nat) :
    (secondPass count (firstPass count info numStages)).order position =
      baseOrder count info position +
        (min (rank (headTest count info) count) (position + 1) : Nat) :=
  (@shifted_foldl count info numStages count le_rfl).orders position

/-- The shifts leave the stages alone. -/
theorem secondPass_stage (below : position < count) :
    (secondPass count (firstPass count info numStages)).stage position =
      stageOf info numStages position := by
  have shifted := @shifted_foldl count info numStages count le_rfl
  by_cases head : IsHead count info position
  · rw [stageOf, if_pos head.1]
    exact shifted.stages position below head below
  · exact shifted.otherStages position (mem_sequence.mpr ⟨below, head⟩)

end TilelangAscend.PipelinePlanning
