import TilelangAscend.PipelinePlanningArrangement

namespace TilelangAscend.PipelinePlanning

open ListRanks

/-!
# The order of the arrangement

In the arrangement the heads come first, and a copy follows the main statement that uses it
last.  Main statements keep the order of the loop body, and two statements of stage 0 keep
it unless a copy with a later use precedes a head or a copy with an earlier use.
-/

variable {count : Nat} {info : Nat → StageInfo} {numStages : Int}

/-- The statement behind which a statement is arranged, itself for a main statement. -/
def slot (count : Nat) (info : Nat → StageInfo) (position : Nat) : Int :=
  if IsHead count info position then
    -1
  else if (info position).skipped then
    (info position).lastUseStage
  else
    position

/-- The order of the arrangement: by slot, a main statement before its copies. -/
def Before (count : Nat) (info : Nat → StageInfo) (first second : Nat) : Prop :=
  slot count info first < slot count info second ∨
    (slot count info first = slot count info second ∧
      (((info first).skipped = false ∧ (info second).skipped = true) ∨
        ((info first).skipped = (info second).skipped ∧ first < second)))

theorem before_asymmetric (first second : Nat)
    (isBefore : Before count info first second) : ¬ Before count info second first := by
  unfold Before at isBefore ⊢
  rcases isBefore with lower | ⟨same, ⟨isMain, skipped⟩ | ⟨alike, ordered⟩⟩
  · omega
  · rw [isMain, skipped]
    simp [same]
  · rw [alike]
    rintro (lower | ⟨_, ⟨isMain, skipped⟩ | ⟨_, reversed⟩⟩)
    · omega
    · rw [isMain] at skipped
      cases skipped
    · omega

theorem slot_group {main : Nat} (mainBelow : main < count) {member : Nat}
    (inGroup : member ∈ group count info main) : slot count info member = main := by
  obtain ⟨isMain, rfl | ⟨below, used⟩⟩ := mem_group.mp inGroup
  · simp [slot, IsHead, isMain]
  · have placed : IsPlaced count info member := ⟨main, mainBelow, isMain, used⟩
    have skipped := skipped_of_lastUsedAt used
    simp only [StageInfo.lastUsedAt, Bool.and_eq_true, beq_iff_eq] at used
    simp [slot, IsHead, placed, skipped, used.2]

theorem group_sorted {main : Nat} (mainBelow : main < count) :
    (group count info main).Pairwise (Before count info) := by
  have slots (member : Nat) (inGroup : member ∈ group count info main) :=
    @slot_group count info main mainBelow member inGroup
  unfold group at slots ⊢
  by_cases skipped : (info main).skipped = true
  · simp [skipped]
  · simp only [skipped, Bool.false_eq_true, ↓reduceIte] at slots ⊢
    refine List.pairwise_cons.mpr ⟨?_, ?_⟩
    · intro copy isCopy
      have copySkipped := skipped_of_lastUsedAt (List.mem_filter.mp isCopy).2
      refine Or.inr ⟨?_, Or.inl ⟨by simpa using skipped, copySkipped⟩⟩
      rw [slots main List.mem_cons_self, slots copy (List.mem_cons_of_mem _ isCopy)]
    · refine List.Pairwise.imp_of_mem ?_ (List.pairwise_lt_range.filter _)
      intro first second isFirst isSecond ordered
      have firstSkipped := skipped_of_lastUsedAt (List.mem_filter.mp isFirst).2
      have secondSkipped := skipped_of_lastUsedAt (List.mem_filter.mp isSecond).2
      refine Or.inr ⟨?_, Or.inr ⟨firstSkipped.trans secondSkipped.symm, ordered⟩⟩
      rw [slots first (List.mem_cons_of_mem _ isFirst),
        slots second (List.mem_cons_of_mem _ isSecond)]

theorem arrangement_sorted :
    (heads count info ++ sequence count info).Pairwise (Before count info) := by
  refine List.pairwise_append.mpr ⟨?_, List.pairwise_flatMap.mpr ⟨?_, ?_⟩, ?_⟩
  · refine List.Pairwise.imp_of_mem ?_ (List.pairwise_lt_range.filter _)
    intro first second isFirst isSecond ordered
    have firstHead := (mem_heads.mp isFirst).2
    have secondHead := (mem_heads.mp isSecond).2
    refine Or.inr ⟨?_, Or.inr ⟨firstHead.1.trans secondHead.1.symm, ordered⟩⟩
    simp [slot, firstHead, secondHead]
  · intro main isMain
    exact group_sorted (List.mem_range.mp isMain)
  · refine List.Pairwise.imp_of_mem ?_ List.pairwise_lt_range
    intro first second isFirst isSecond ordered member inFirst other inSecond
    left
    rw [slot_group (List.mem_range.mp isFirst) inFirst,
      slot_group (List.mem_range.mp isSecond) inSecond]
    omega
  · intro head isHead member inSequence
    obtain ⟨main, isMain, inGroup⟩ := List.mem_flatMap.mp inSequence
    left
    rw [slot_group (List.mem_range.mp isMain) inGroup, slot, if_pos (mem_heads.mp isHead).2]
    omega

/-- The arrangement places a statement before another if it comes before. -/
theorem place_lt_iff {first second : Nat} (firstBelow : first < count)
    (secondBelow : second < count) :
    place count info first < place count info second ↔ Before count info first second :=
  idxOf_lt_iff arrangement_sorted before_asymmetric (mem_arrangement firstBelow)
    (mem_arrangement secondBelow)

/-- Statements of the main pass keep their order. -/
theorem before_of_main {first second : Nat} (ordered : first < second)
    (firstMain : (info first).skipped = false)
    (secondMain : (info second).skipped = false) : Before count info first second := by
  left
  simp [slot, IsHead, firstMain, secondMain, ordered]

theorem IsPlaced.lastUse_nonneg {position : Nat} (placed : IsPlaced count info position) :
    0 ≤ (info position).lastUseStage := by
  obtain ⟨main, _, _, used⟩ := placed
  simp only [StageInfo.lastUsedAt, Bool.and_eq_true, beq_iff_eq] at used
  omega

/-- Which of two skipped statements comes first. -/
theorem before_iff_of_skipped {first second : Nat} (ordered : first < second)
    (firstSkipped : (info first).skipped = true) (secondSkipped : (info second).skipped = true) :
    Before count info first second ↔
      IsHead count info first ∨
        (IsPlaced count info second ∧ (info first).lastUseStage ≤ (info second).lastUseStage) := by
  have placedOf (position : Nat) (skipped : (info position).skipped = true)
      (notHead : ¬ IsHead count info position) : IsPlaced count info position := by
    by_contra unplaced
    exact notHead ⟨skipped, unplaced⟩
  unfold Before
  rw [firstSkipped, secondSkipped]
  by_cases firstHead : IsHead count info first
  · by_cases secondHead : IsHead count info second
    · simp [slot, firstHead, secondHead, ordered]
    · have used := (placedOf second secondSkipped secondHead).lastUse_nonneg
      simp only [slot, firstHead, secondHead, secondSkipped, if_true, if_false, true_or, iff_true]
      omega
  · have used := (placedOf first firstSkipped firstHead).lastUse_nonneg
    by_cases secondHead : IsHead count info second
    · have unplaced := secondHead.2
      simp only [slot, firstHead, secondHead, firstSkipped, unplaced, if_true, if_false]
      simp
      omega
    · have placed := placedOf second secondSkipped secondHead
      simp only [slot, firstHead, secondHead, firstSkipped, secondSkipped, if_true, if_false,
        placed, false_or, true_and]
      simp [ordered]
      omega

end TilelangAscend.PipelinePlanning
