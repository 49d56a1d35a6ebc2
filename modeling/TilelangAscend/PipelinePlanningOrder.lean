import TilelangAscend.ListRanks
import TilelangAscend.PipelinePlanning

namespace TilelangAscend.PipelinePlanning

open ListRanks

/-!
# The orders that the two passes give

The first pass numbers the main statements and the copies behind them in one sequence.  The
second pass shifts an order once for every head up to the position of the statement, which
for the statements behind the heads is once for every head.
-/

variable {count : Nat} {info : Nat → StageInfo} {numStages : Int}

/-! ## The first pass -/

/-- A main statement and the copies behind it, in the order in which they are numbered. -/
def group (count : Nat) (info : Nat → StageInfo) (position : Nat) : List Nat :=
  if (info position).skipped then [] else position :: copiesAfter count info position

/-- The statements that the first pass numbers, in order. -/
def sequence (count : Nat) (info : Nat → StageInfo) : List Nat :=
  (List.range count).flatMap (group count info)

/-- The stage that the first pass gives a statement that it numbers. -/
def stageOf (info : Nat → StageInfo) (numStages : Int) (position : Nat) : Int :=
  if (info position).skipped then 0 else numStages

/-- A state in which the statements of a list have the first orders. -/
structure Numbers
    (info : Nat → StageInfo)
    (numStages : Int)
    (numbered : List Nat)
    (state : PlanState) :
    Prop where
  orders :
    ∀ position,
      state.order position = if position ∈ numbered then (numbered.idxOf position : Int) else -1
  stages :
    ∀ position,
      state.stage position = if position ∈ numbered then stageOf info numStages position else -1
  next : state.orderIdx = numbered.length

theorem numbers_initial : Numbers info numStages [] .initial where
  orders := fun _ => rfl
  stages := fun _ => rfl
  next := rfl

variable {position member : Nat} {numbered : List Nat} {state : PlanState}

theorem Numbers.assign
    (numbers : Numbers info numStages numbered state)
    (fresh : position ∉ numbered)
    {stage : Int}
    (stageIs : stage = stageOf info numStages position) :
    Numbers info numStages (numbered ++ [position]) (state.assign position stage) where
  orders := by
    intro other
    by_cases same : other = position
    · subst same
      simp [PlanState.assign, numbers.next, List.idxOf_append_of_notMem fresh]
    · have unchanged := numbers.orders other
      by_cases member : other ∈ numbered
      · simp [PlanState.assign, same, unchanged, member, List.idxOf_append_of_mem member]
      · simp [PlanState.assign, same, unchanged, member]
  stages := by
    intro other
    by_cases same : other = position
    · subst same
      simp [PlanState.assign, stageIs]
    · simp [PlanState.assign, same, numbers.stages other]
  next := by
    simp [PlanState.assign, numbers.next]

theorem Numbers.assignAll {copies : List Nat} (numbers : Numbers info numStages numbered state)
    (distinct : (numbered ++ copies).Nodup)
    (areCopies : ∀ position ∈ copies, (info position).skipped = true) :
    Numbers info numStages (numbered ++ copies)
      (copies.foldl (fun state other => state.assign other 0) state) := by
  induction copies generalizing numbered state with
  | nil => simpa using numbers
  | cons position rest ih =>
    have split : numbered ++ position :: rest = (numbered ++ [position]) ++ rest := by
      simp
    rw [split] at distinct ⊢
    have fresh : position ∉ numbered := by
      intro member
      have apart := (List.nodup_append.mp (List.nodup_append.mp distinct).1).2.2
      exact apart position member position (by simp) rfl
    have stageIs : (0 : Int) = stageOf info numStages position := by
      simp [stageOf, areCopies position List.mem_cons_self]
    exact ih (numbers.assign fresh stageIs) distinct
      fun other member => areCopies other (List.mem_cons_of_mem _ member)

theorem skipped_of_lastUsedAt {info : StageInfo}
    (used : info.lastUsedAt position = true) : info.skipped = true := by
  simp only [StageInfo.lastUsedAt, Bool.and_eq_true, beq_iff_eq] at used
  have known : info.lastUseStage ≠ -1 := by
    omega
  simp [StageInfo.skipped, used.1, known]

theorem mem_group :
    member ∈ group count info position ↔
      (info position).skipped = false ∧
        (member = position ∨ (member < count ∧ (info member).lastUsedAt position = true)) := by
  unfold group copiesAfter
  by_cases skipped : (info position).skipped = true
  · simp [skipped]
  · simp [skipped]

theorem group_unique {first second : Nat} (inFirst : member ∈ group count info first)
    (inSecond : member ∈ group count info second) : first = second := by
  obtain ⟨firstMain, isFirst⟩ := mem_group.mp inFirst
  obtain ⟨secondMain, isSecond⟩ := mem_group.mp inSecond
  rcases isFirst with rfl | ⟨_, usedFirst⟩
  · rcases isSecond with same | ⟨_, used⟩
    · exact same
    · rw [skipped_of_lastUsedAt used] at firstMain
      cases firstMain
  · rcases isSecond with rfl | ⟨_, usedSecond⟩
    · rw [skipped_of_lastUsedAt usedFirst] at secondMain
      cases secondMain
    · simp only [StageInfo.lastUsedAt, Bool.and_eq_true, beq_iff_eq] at usedFirst usedSecond
      omega

theorem group_nodup (position : Nat) : (group count info position).Nodup := by
  unfold group
  split
  · exact List.nodup_nil
  · rename_i main
    refine List.nodup_cons.mpr ⟨?_, List.nodup_range.filter _⟩
    intro member
    exact main (skipped_of_lastUsedAt (List.mem_filter.mp member).2)

theorem flatMap_group_nodup {positions : List Nat} (distinct : positions.Nodup) :
    (positions.flatMap (group count info)).Nodup := by
  rw [List.nodup_flatMap]
  refine ⟨fun position _ => group_nodup position, ?_⟩
  refine distinct.imp ?_
  intro first second differs member inFirst inSecond
  exact differs (group_unique inFirst inSecond)

/-- A step of the main pass numbers one more group. -/
theorem Numbers.assignMain (numbers : Numbers info numStages numbered state)
    (distinct : (numbered ++ group count info position).Nodup) :
    Numbers info numStages (numbered ++ group count info position)
      (assignMain count info numStages state position) := by
  unfold PipelinePlanning.assignMain
  by_cases skipped : (info position).skipped = true
  · simpa [skipped, group] using numbers
  · have shape :
        numbered ++ group count info position =
          (numbered ++ [position]) ++ copiesAfter count info position := by
      simp [group, skipped]
    rw [shape] at distinct ⊢
    have fresh : position ∉ numbered := by
      intro member
      have apart := (List.nodup_append.mp (List.nodup_append.mp distinct).1).2.2
      exact apart position member position (by simp) rfl
    have stageIs : numStages = stageOf info numStages position := by
      simp [stageOf, skipped]
    have filtered := numbers.assign fresh stageIs |>.assignAll distinct
      fun other member => skipped_of_lastUsedAt (List.mem_filter.mp member).2
    rw [copiesAfter, List.foldl_filter] at filtered
    simpa [skipped, copiesAfter] using filtered

/-- The first pass numbers the whole sequence. -/
theorem firstPass_numbers :
    Numbers info numStages (sequence count info) (firstPass count info numStages) := by
  have along :
      ∀ (positions numbered : List Nat) (state : PlanState), Numbers info numStages numbered state →
        (numbered ++ positions.flatMap (group count info)).Nodup →
        Numbers info numStages (numbered ++ positions.flatMap (group count info))
          (positions.foldl (PipelinePlanning.assignMain count info numStages) state) := by
    intro positions
    induction positions with
    | nil =>
      intro numbered state numbers _
      simpa using numbers
    | cons position rest ih =>
      intro numbered state numbers distinct
      rw [List.flatMap_cons, ← List.append_assoc] at distinct ⊢
      exact ih _ _ (numbers.assignMain (List.nodup_append.mp distinct).1) distinct
  exact along (List.range count) [] .initial numbers_initial
    (by simpa using flatMap_group_nodup List.nodup_range)

/-- The sequence has all statements but the heads. -/
theorem mem_sequence :
    position ∈ sequence count info ↔ position < count ∧ ¬ IsHead count info position := by
  unfold sequence
  rw [List.mem_flatMap]
  constructor
  · rintro ⟨main, isMain, member⟩
    obtain ⟨unskipped, rfl | ⟨below, used⟩⟩ := mem_group.mp member
    · refine ⟨List.mem_range.mp isMain, fun head => ?_⟩
      rw [head.1] at unskipped
      cases unskipped
    · exact ⟨below, fun head => head.2 ⟨main, List.mem_range.mp isMain, unskipped, used⟩⟩
  · rintro ⟨below, notHead⟩
    by_cases skipped : (info position).skipped = true
    · have placed : IsPlaced count info position := by
        by_contra unplaced
        exact notHead ⟨skipped, unplaced⟩
      obtain ⟨main, mainBelow, unskipped, used⟩ := placed
      exact ⟨main, List.mem_range.mpr mainBelow, mem_group.mpr ⟨unskipped, Or.inr ⟨below, used⟩⟩⟩
    · exact ⟨position, List.mem_range.mpr below, mem_group.mpr ⟨by simpa using skipped, Or.inl rfl⟩⟩

end TilelangAscend.PipelinePlanning
