import Mathlib.Data.Int.ModEq
import TilelangAscend.PipelinePlanningSlots

namespace TilelangAscend.PipelinePlanning

open ListRanks

/-!
# Validity of the plan

With the heads first, the plan orders the statements by their places, possibly rotated.  The
rotation moves all copies in front of all other statements, so it changes the order between
the two classes only, where the stages differ.
-/

variable {count : Nat} {info : Nat → StageInfo} {numStages : Int}

/-! ## Copies at the end -/

theorem foldl_min_le (items : List Int) (start : Int) :
    items.foldl min start ≤ start ∧ ∀ item ∈ items, items.foldl min start ≤ item := by
  induction items generalizing start with
  | nil => simp
  | cons first rest ih =>
    obtain ⟨fromStart, fromRest⟩ := ih (min start first)
    simp only [List.foldl_cons, List.mem_cons, forall_eq_or_imp]
    exact ⟨by omega, by omega, fromRest⟩

theorem le_foldl_max (items : List Int) (start : Int) :
    start ≤ items.foldl max start ∧ ∀ item ∈ items, item ≤ items.foldl max start := by
  induction items generalizing start with
  | nil => simp
  | cons first rest ih =>
    obtain ⟨fromStart, fromRest⟩ := ih (max start first)
    simp only [List.foldl_cons, List.mem_cons, forall_eq_or_imp]
    exact ⟨by omega, by omega, fromRest⟩

/-- Whether the planner counts a statement as a copy, by position. -/
def copyTest (info : Nat → StageInfo) (position : Nat) : Bool :=
  (info position).copyLike

theorem copyStageAtEnd_pos {state : PlanState} (atEnd : 0 < copyStageAtEnd count info state) :
    copyStageAtEnd count info state = rank (copyTest info) count ∧
      ∀ first < count, ∀ second < count, copyTest info first = false → copyTest info second = true →
        state.order first < state.order second := by
  unfold copyStageAtEnd at atEnd ⊢
  simp only at atEnd ⊢
  split at atEnd
  · rename_i separated
    rw [if_pos separated]
    refine ⟨rfl, ?_⟩
    intro first firstBelow second secondBelow firstOther secondCopy
    have isCopy : second ∈ (List.range count).filter fun position => (info position).copyLike :=
      List.mem_filter.mpr ⟨List.mem_range.mpr secondBelow, secondCopy⟩
    have isOther : first ∈ (List.range count).filter fun position => !(info position).copyLike :=
      List.mem_filter.mpr ⟨List.mem_range.mpr firstBelow, by
        simpa [copyTest] using firstOther⟩
    exact ((le_foldl_max _ 0).2 _ (List.mem_map_of_mem isOther)).trans_lt
      (separated.trans_le ((foldl_min_le _ count).2 _ (List.mem_map_of_mem isCopy)))
  · omega

/-! ## Planned states -/

/-- A state whose orders and stages keep the arrangement. -/
structure Planned
    (count : Nat)
    (info : Nat → StageInfo)
    (state : PlanState) :
    Prop where
  within : ∀ position < count, 0 ≤ state.order position ∧ state.order position < count
  distinct :
    ∀ first < count, ∀ second < count, state.order first = state.order second → first = second
  stageZero : ∀ position < count, (info position).skipped = true → state.stage position = 0
  stagePositive :
    ∀ position < count, (info position).skipped = false → 0 < state.stage position
  mainKept :
    ∀ second < count, ∀ first < second, (info first).skipped = false →
      (info second).skipped = false →
      state.stage first < state.stage second ∨
        (state.stage first = state.stage second ∧ state.order first < state.order second)
  zeroKept :
    ∀ first < count, ∀ second < count, (info first).skipped = true → (info second).skipped = true →
      (state.order first < state.order second ↔ Before count info first second)

theorem copyTest_of_skipped {position : Nat} (skipped : (info position).skipped = true) :
    copyTest info position = true := by
  simp only [StageInfo.skipped, Bool.or_eq_true, Bool.and_eq_true] at skipped
  simp only [copyTest, StageInfo.copyLike, Bool.or_eq_true]
  exact skipped.imp And.left id

section

variable (headsFirst : HeadsFirst count info)
include headsFirst

theorem HeadsFirst.planned_passes
    (positive : 1 ≤ numStages) :
    Planned count info (secondPass count (firstPass count info numStages)) where
  within := by
    intro position below
    have placed := @place_lt count info position below
    rw [headsFirst.secondPass_order below]
    omega
  distinct := by
    intro first firstBelow second secondBelow same
    rw [headsFirst.secondPass_order firstBelow, headsFirst.secondPass_order secondBelow] at same
    exact place_injective firstBelow (by exact_mod_cast same)
  stageZero := by
    intro position below skipped
    rw [secondPass_stage below, stageOf, if_pos skipped]
  stagePositive := by
    intro position below isMain
    rw [secondPass_stage below, stageOf, if_neg (by simp [isMain])]
    omega
  mainKept := by
    intro second secondBelow first ordered firstMain secondMain
    have firstBelow : first < count := by omega
    right
    rw [secondPass_stage firstBelow, secondPass_stage secondBelow, stageOf, stageOf, firstMain,
      secondMain, headsFirst.secondPass_order firstBelow,
      headsFirst.secondPass_order secondBelow]
    have follows := (place_lt_iff firstBelow secondBelow).mpr
      (before_of_main ordered firstMain secondMain)
    exact ⟨rfl, by exact_mod_cast follows⟩
  zeroKept := by
    intro first firstBelow second secondBelow _ _
    rw [headsFirst.secondPass_order firstBelow, headsFirst.secondPass_order secondBelow,
      Int.ofNat_lt]
    exact place_lt_iff firstBelow secondBelow

theorem HeadsFirst.rotated_order
    (atEnd : 0 < copyStageAtEnd count info (secondPass count (firstPass count info numStages)))
    {position : Nat} (below : position < count) :
    ((secondPass count (firstPass count info numStages)).order position +
        copyStageAtEnd count info (secondPass count (firstPass count info numStages))) % count =
      if copyTest info position = true then
        (place count info position + rank (copyTest info) count : Int) - count
      else
        (place count info position + rank (copyTest info) count : Int) := by
  obtain ⟨isRank, above⟩ := copyStageAtEnd_pos atEnd
  have separated :
      ∀ first < count, ∀ second < count, copyTest info first = false → copyTest info second = true →
        place count info first < place count info second := by
    intro first firstBelow second secondBelow firstOther secondCopy
    have lower := above first firstBelow second secondBelow firstOther secondCopy
    rw [headsFirst.secondPass_order firstBelow, headsFirst.secondPass_order secondBelow] at lower
    exact_mod_cast lower
  have split := place_split (fun number => place_lt)
    (fun first firstBelow second _ => place_injective firstBelow) separated below
  have placed := @place_lt count info position below
  have limited := rank_le (copyTest info) count
  rw [isRank, headsFirst.secondPass_order below]
  by_cases isCopy : copyTest info position = true
  · rw [if_pos isCopy]
    have high : ¬ place count info position + rank (copyTest info) count < count := by
      rw [split, isCopy]
      simp
    rw [Int.emod_eq_sub_self_emod, Int.emod_eq_of_lt (by omega) (by omega)]
  · rw [if_neg isCopy]
    have low := split.mpr (by simpa using isCopy)
    rw [Int.emod_eq_of_lt (by omega) (by omega)]

theorem HeadsFirst.rotated_lt_iff
    (atEnd : 0 < copyStageAtEnd count info (secondPass count (firstPass count info numStages)))
    {first second : Nat} (firstBelow : first < count) (secondBelow : second < count)
    (alike : copyTest info first = copyTest info second) :
    ((secondPass count (firstPass count info numStages)).order first +
        copyStageAtEnd count info (secondPass count (firstPass count info numStages))) % count <
        ((secondPass count (firstPass count info numStages)).order second +
          copyStageAtEnd count info (secondPass count (firstPass count info numStages))) %
          count ↔
      place count info first < place count info second := by
  rw [headsFirst.rotated_order atEnd firstBelow, headsFirst.rotated_order atEnd secondBelow, alike]
  split <;> omega

theorem HeadsFirst.planned_rotate (positive : 1 ≤ numStages) :
    Planned count info (rotateCopies count info numStages
      (secondPass count (firstPass count info numStages))) := by
  have passes := headsFirst.planned_passes positive
  unfold rotateCopies
  by_cases rotated :
      0 < copyStageAtEnd count info (secondPass count (firstPass count info numStages)) ∧
        2 ≤ numStages
  swap
  · rw [if_neg rotated]
    exact passes
  rw [if_pos rotated]
  obtain ⟨atEnd, several⟩ := rotated
  refine ⟨?_, ?_, ?_, ?_, ?_, ?_⟩
  · intro position below
    have positiveCount : (count : Int) ≠ 0 := by
      omega
    exact ⟨Int.emod_nonneg _ positiveCount, Int.emod_lt_of_pos _ (by omega)⟩
  · intro first firstBelow second secondBelow same
    have firstWithin := passes.within first firstBelow
    have secondWithin := passes.within second secondBelow
    have congruent := Int.ModEq.add_right_cancel' _ same
    rw [Int.ModEq, Int.emod_eq_of_lt firstWithin.1 firstWithin.2,
      Int.emod_eq_of_lt secondWithin.1 secondWithin.2] at congruent
    exact passes.distinct first firstBelow second secondBelow congruent
  · intro position below skipped
    have isCopy : (info position).copyLike = true := copyTest_of_skipped skipped
    simp only [isCopy, ↓reduceIte]
    exact passes.stageZero position below skipped
  · intro position below isMain
    simp only [secondPass_stage below, stageOf, isMain, Bool.false_eq_true, ↓reduceIte]
    split <;> omega
  · intro second secondBelow first ordered firstMain secondMain
    have firstBelow : first < count := by omega
    have follows := (place_lt_iff firstBelow secondBelow).mpr
      (before_of_main ordered firstMain secondMain)
    simp only [secondPass_stage firstBelow, secondPass_stage secondBelow, stageOf, firstMain,
      secondMain, Bool.false_eq_true, ↓reduceIte]
    have kept := headsFirst.rotated_lt_iff atEnd firstBelow secondBelow
    cases firstCopy : (info first).copyLike with
    | false =>
      cases secondCopy : (info second).copyLike with
      | false => exact Or.inr ⟨rfl, (kept (firstCopy.trans secondCopy.symm)).mpr follows⟩
      | true =>
        left
        simp
    | true =>
      cases secondCopy : (info second).copyLike with
      | false =>
        -- the others come before the copies
        have reversed := (copyStageAtEnd_pos atEnd).2 second secondBelow first firstBelow
          secondCopy firstCopy
        rw [headsFirst.secondPass_order firstBelow,
          headsFirst.secondPass_order secondBelow] at reversed
        omega
      | true => exact Or.inr ⟨rfl, (kept (firstCopy.trans secondCopy.symm)).mpr follows⟩
  · intro first firstBelow second secondBelow firstSkipped secondSkipped
    have alike : copyTest info first = copyTest info second :=
      (copyTest_of_skipped firstSkipped).trans (copyTest_of_skipped secondSkipped).symm
    exact (headsFirst.rotated_lt_iff atEnd firstBelow secondBelow alike).trans
      (place_lt_iff firstBelow secondBelow)

end

/-! ## Dependences -/

theorem Planned.follows_iff {state : PlanState} (planned : Planned count info state)
    {earlier later : Nat} (laterBelow : later < count) (ordered : earlier < later) :
    (state.stage earlier < state.stage later ∨
        (state.stage earlier = state.stage later ∧ state.order earlier < state.order later)) ↔
      (info later).skipped = false ∨
        ((info earlier).skipped = true ∧
          (IsHead count info earlier ∨
            (IsPlaced count info later ∧
              (info earlier).lastUseStage ≤ (info later).lastUseStage))) := by
  have earlierBelow : earlier < count := by omega
  cases laterSkipped : (info later).skipped with
  | false =>
    refine iff_of_true ?_ (Or.inl rfl)
    cases earlierSkipped : (info earlier).skipped with
    | false => exact planned.mainKept later laterBelow earlier ordered earlierSkipped laterSkipped
    | true =>
      left
      rw [planned.stageZero earlier earlierBelow earlierSkipped]
      exact planned.stagePositive later laterBelow laterSkipped
  | true =>
    have laterZero := planned.stageZero later laterBelow laterSkipped
    cases earlierSkipped : (info earlier).skipped with
    | false =>
      have positive := planned.stagePositive earlier earlierBelow earlierSkipped
      simp only [Bool.true_eq_false, Bool.false_eq_true, false_and, or_false, iff_false]
      omega
    | true =>
      have earlierZero := planned.stageZero earlier earlierBelow earlierSkipped
      have kept := planned.zeroKept earlier earlierBelow later laterBelow earlierSkipped
        laterSkipped
      rw [before_iff_of_skipped ordered earlierSkipped laterSkipped] at kept
      rw [earlierZero, laterZero, kept]
      simp

theorem accepted_of_kept
    {Region : Type}
    {statements : List (Statement Region)}
    {annotations : List Annotation}
    (length : annotations.length = statements.length)
    (distinct : (annotations.map Annotation.order).Nodup)
    (dependences : DependencesFollow statements annotations)
    {loop : SoftwarePipeline.PipelineLoop}
    (carries : Carries statements annotations loop) :
    loop.ValidatePipelineBody where
  orders_unique := by
    have same : (loop.body.map fun block => (block.order : Int)) =
        annotations.map Annotation.order := by
      refine List.ext_getElem (by simp [carries.length, length]) ?_
      intro position below annotationBelow
      rw [List.length_map] at below annotationBelow
      have known := carries.blocks position _ _ _ (List.getElem?_eq_getElem below)
        (List.getElem?_eq_getElem (by omega)) (List.getElem?_eq_getElem annotationBelow)
      simpa using known.2.1
    rw [← same] at distinct
    refine List.Nodup.of_map (fun order : Nat => (order : Int)) ?_
    rwa [List.map_map]
  dependencies := by
    intro before dst after shape src member buffer writes reads
    obtain ⟨earlier, earlierBelow, isSource⟩ := List.mem_iff_getElem.mp member
    have bodyLength := carries.length
    have shapeLength := congrArg List.length shape
    simp only [List.length_append, List.length_cons] at shapeLength
    have sourceAt : loop.body[earlier]? = some src := by
      rw [shape, List.getElem?_append_left earlierBelow, List.getElem?_eq_getElem earlierBelow,
        isSource]
    have targetAt : loop.body[before.length]? = some dst := by
      rw [shape]
      simp
    have earlierInside : earlier < statements.length := by omega
    have laterInside : before.length < statements.length := by omega
    have writerAt := List.getElem?_eq_getElem earlierInside
    have readerAt := List.getElem?_eq_getElem laterInside
    have writerPlanAt := List.getElem?_eq_getElem (length ▸ earlierInside)
    have readerPlanAt := List.getElem?_eq_getElem (length ▸ laterInside)
    obtain ⟨sourceStage, sourceOrder, _, sourceWrites⟩ :=
      carries.blocks _ _ _ _ sourceAt writerAt writerPlanAt
    obtain ⟨targetStage, targetOrder, targetReads, _⟩ :=
      carries.blocks _ _ _ _ targetAt readerAt readerPlanAt
    obtain ⟨write, isWrite, writeBuffer⟩ := sourceWrites buffer writes
    have isRead := targetReads buffer reads
    rw [← writeBuffer] at isRead
    have kept := dependences earlier before.length _ _ _ _ earlierBelow writerAt readerAt
      ⟨write, isWrite, isRead⟩ writerPlanAt readerPlanAt
    unfold SoftwarePipeline.PipelineLoop.DependencyKept
    omega

/-! ## The planner -/

section Planner

variable {Region : Type} {mayConflict : Region → Region → Bool}
  {statements : List (Statement Region)} {annotations : List Annotation}

/-- The state after both passes and the rotation. -/
def finalState (mayConflict : Region → Region → Bool) (numStages : Int)
    (statements : List (Statement Region)) : PlanState :=
  let info := infoAt mayConflict statements
  rotateCopies statements.length info numStages
    (secondPass statements.length (firstPass statements.length info numStages))

section

variable (planned : planPipeline mayConflict numStages statements = some annotations)
include planned

theorem planPipeline_eq_some :
    1 ≤ numStages ∧
      annotations = (List.range statements.length).map fun position =>
        { stage := (finalState mayConflict numStages statements).stage position
          order := (finalState mayConflict numStages statements).order position } := by
  unfold planPipeline at planned
  simp only at planned
  split at planned
  · cases planned
  · rename_i enough
    split at planned
    · cases planned
    · split at planned
      · cases planned
      · refine ⟨by omega, ?_⟩
        exact (Option.some.inj planned).symm

theorem planPipeline_getElem? {position : Nat} {plan : Annotation}
    (found : annotations[position]? = some plan) :
    plan.stage = (finalState mayConflict numStages statements).stage position ∧
      plan.order = (finalState mayConflict numStages statements).order position := by
  rw [(planPipeline_eq_some planned).2, List.getElem?_map, Option.map_eq_some_iff] at found
  obtain ⟨other, inRange, rfl⟩ := found
  obtain ⟨_, rfl⟩ := List.getElem?_eq_some_iff.mp inRange
  simp

theorem planPipeline_getElem {position : Nat} (below : position < statements.length) :
    annotations[position]? =
      some
        { stage := (finalState mayConflict numStages statements).stage position
          order := (finalState mayConflict numStages statements).order position } := by
  rw [(planPipeline_eq_some planned).2, List.getElem?_map, List.getElem?_range below]
  rfl

theorem headsFirst_of_permutation
    (permutation :
      (annotations.map Annotation.order).Perm ((List.range statements.length).map Int.ofNat)) :
    HeadsFirst statements.length (infoAt mayConflict statements) := by
  have distinct : (annotations.map Annotation.order).Nodup := by
    refine permutation.nodup_iff.mpr (List.Nodup.map ?_ List.nodup_range)
    exact fun first second same => Int.ofNat.inj same
  rw [(planPipeline_eq_some planned).2, List.map_map] at distinct
  have final := List.inj_on_of_nodup_map distinct
  refine @headsFirst_of_distinct _ _ numStages ?_
  intro first firstBelow second secondBelow same
  refine final (List.mem_range.mpr firstBelow) (List.mem_range.mpr secondBelow) ?_
  -- the rotation depends on the order only
  simp only [Function.comp, finalState, rotateCopies]
  split
  · simp only [same]
  · exact same

theorem Planned.permutation
    (state :
      Planned statements.length (infoAt mayConflict statements)
        (finalState mayConflict numStages statements)) :
    (annotations.map Annotation.order).Perm
      ((List.range statements.length).map Int.ofNat) := by
  have natural :
      ((List.range statements.length).map fun position =>
        ((finalState mayConflict numStages statements).order position).toNat).Perm
          (List.range statements.length) := by
    refine map_perm_range ?_ ?_
    · intro position below
      have within := state.within position below
      omega
    · intro first firstBelow second secondBelow same
      have firstWithin := state.within first firstBelow
      have secondWithin := state.within second secondBelow
      exact state.distinct first firstBelow second secondBelow (by omega)
  have lifted := natural.map Int.ofNat
  rw [List.map_map] at lifted
  rw [(planPipeline_eq_some planned).2, List.map_map]
  refine (List.Perm.of_eq ?_).trans lifted
  refine List.map_congr_left ?_
  intro position inRange
  have within := state.within position (List.mem_range.mp inRange)
  simp only [Function.comp]
  exact (Int.toNat_of_nonneg within.1).symm

theorem planValid_iff_of_headsFirst
    (headsFirst : HeadsFirst statements.length (infoAt mayConflict statements)) :
    PlanValid statements annotations ↔
      KeepsDependences statements.length (infoAt mayConflict statements) statements := by
  obtain ⟨positive, isMap⟩ := planPipeline_eq_some planned
  have state : Planned statements.length (infoAt mayConflict statements)
      (finalState mayConflict numStages statements) :=
    headsFirst.planned_rotate positive
  constructor
  · intro valid
    refine ⟨headsFirst, ?_⟩
    intro later laterBelow earlier ordered writer isWriter reader isReader depends
    refine (state.follows_iff laterBelow ordered).mp ?_
    exact valid.dependences earlier later writer reader _ _ ordered isWriter isReader depends
      (planPipeline_getElem planned (by omega)) (planPipeline_getElem planned laterBelow)
  · intro keeps
    have dependences : DependencesFollow statements annotations := by
      intro earlier later writer reader writerPlan readerPlan ordered isWriter isReader depends
        isWriterPlan isReaderPlan
      obtain ⟨laterBelow, _⟩ := List.getElem?_eq_some_iff.mp isReader
      rw [(planPipeline_getElem? planned isWriterPlan).1,
        (planPipeline_getElem? planned isWriterPlan).2,
        (planPipeline_getElem? planned isReaderPlan).1,
        (planPipeline_getElem? planned isReaderPlan).2]
      exact (state.follows_iff laterBelow ordered).mpr
        (keeps.dependences later laterBelow earlier ordered writer isWriter reader isReader depends)
    have permutation :
        (annotations.map Annotation.order).Perm ((List.range statements.length).map Int.ofNat) :=
      state.permutation planned
    refine ⟨permutation, dependences, ?_⟩
    intro loop carries
    refine accepted_of_kept (by simp [isMap]) ?_ dependences carries
    refine permutation.nodup_iff.mpr (List.Nodup.map ?_ List.nodup_range)
    exact fun first second same => Int.ofNat.inj same

end

end Planner

/-! ## Loop bodies -/

/-- A statement that reads and writes whole buffers. -/
def wholeBuffers
    (reads writes : List String)
    (copyStage : Bool)
    (conditions : List (List String)) :
    Statement Unit where
  reads := reads.map fun buffer => ⟨buffer, ()⟩
  writes := writes.map fun buffer => ⟨buffer, ()⟩
  copyStage := copyStage
  conditions := conditions

/-- Two loads, a computation that uses both, and a store of its result. -/
def loadComputeStore : List (Statement Unit) :=
  [wholeBuffers ["A"] ["a"] true [],
    wholeBuffers ["B"] ["b"] true [],
    wholeBuffers ["a", "b", "c"] ["c"] false [],
    wholeBuffers ["c"] ["C"] false []]

/-- A computation, two statements that compute flags, and a conditional one that uses them. -/
def flagsBehindCompute : List (Statement Unit) :=
  [wholeBuffers ["a"] ["c"] false [],
    wholeBuffers ["a"] ["low"] false [],
    wholeBuffers ["a"] ["high"] false [],
    wholeBuffers ["c"] ["d"] false [["low", "high"]]]

end TilelangAscend.PipelinePlanning
