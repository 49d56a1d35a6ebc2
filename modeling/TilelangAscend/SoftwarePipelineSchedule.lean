import TilelangAscend.SoftwarePipeline
import Mathlib.Data.List.Nodup
import Mathlib.Tactic.Linarith

namespace TilelangAscend.SoftwarePipeline

/-!
# The schedule of a software pipeline

When the prologue and the epilogue do not overlap, the three emitted regions together run one
schedule: the statements of every position of the pipeline, in order, each in the iteration that
its stage puts there.  This module shows that, and that the pipeline runs every statement exactly
once in each iteration exactly when the regions do not overlap.
-/

namespace PipelineLoop

variable {loop : PipelineLoop} {analyzer : Analyzer loop}

/-! ## Emitted regions -/

/-- The statements that a run of consecutive positions executes, each under its bound check. -/
def schedule (loop : PipelineLoop) (start : Int) (count : Nat) : List Event :=
  (List.range count).flatMap fun (index : Nat) =>
    loop.runPosition true loop.orderedStmts (start + index)

theorem runPosition_filter {start stop position : Int} (checked : Bool)
    (blocks : List Block) (above : start ≤ position) (below : position < stop) :
    loop.runPosition checked
        (blocks.filter fun block =>
          !(checked && analyzer.provesOutside start stop block.stage)) position =
      loop.runPosition checked blocks position := by
  induction blocks with
  | nil => rfl
  | cons block rest ih =>
    simp only [runPosition] at ih ⊢
    cases skipped : checked && analyzer.provesOutside start stop block.stage with
    | false => simp only [List.filter_cons, skipped, Bool.not_false, ↓reduceIte,
        List.filterMap_cons, ih]
    | true =>
      rw [Bool.and_eq_true] at skipped
      have outside :=
        analyzer.provesOutside_sound start stop block.stage skipped.2 position above below
      obtain ⟨isChecked, proved⟩ := skipped
      subst isChecked
      simpa [proved, outside] using ih

theorem runEmitted_emitImpl (start stop : Int) (checked : Bool) :
    loop.runEmitted (loop.emitImpl analyzer start stop checked) =
      (List.range (stop - start).toNat).flatMap fun (index : Nat) =>
        loop.runPosition checked loop.orderedStmts (start + index) := by
  have positions :
      ∀ index < (stop - start).toNat,
        loop.runPosition checked
            (loop.orderedStmts.filter fun block =>
              !(checked && analyzer.provesOutside start stop block.stage)) (start + index) =
          loop.runPosition checked loop.orderedStmts (start + index) := by
    intro index below
    apply runPosition_filter <;> omega
  rw [runEmitted, emitImpl]
  by_cases unit : analyzer.isUnitLoop start stop
  · have one := analyzer.isUnitLoop_sound start stop unit
    have first := positions 0 (by omega)
    simp only [Nat.cast_zero, Int.add_zero] at first
    have single : (stop - start).toNat = 1 := by omega
    simpa [unit, single] using first
  · have shifted :
        ∀ index : Nat, loop.loopMin + index + (start - loop.loopMin) = start + index := by
      intro index
      omega
    simp only [unit, Bool.false_eq_true, ↓reduceIte, shifted]
    apply List.flatMap_congr
    intro index member
    exact positions index (List.mem_range.mp member)

theorem runEmitted_checked (start stop : Int) :
    loop.runEmitted (loop.emitImpl analyzer start stop true) =
      loop.schedule start (stop - start).toNat :=
  runEmitted_emitImpl start stop true

theorem schedule_add (start : Int) (first second : Nat) :
    loop.schedule start (first + second) =
      loop.schedule start first ++ loop.schedule (start + first) second := by
  simp only [schedule, List.range_add, List.flatMap_append, List.flatMap_map, Nat.cast_add,
    Int.add_assoc]

/-! ## The order of statements -/

theorem mem_orderedStmts
    (permuted : (loop.body.map Block.order).Perm (List.range loop.body.length))
    {block : Block} : block ∈ loop.orderedStmts ↔ block ∈ loop.body := by
  have nodup : (loop.body.map Block.order).Nodup := permuted.nodup_iff.mpr List.nodup_range
  simp only [orderedStmts, List.mem_filterMap, List.mem_range]
  constructor
  · rintro ⟨order, -, found⟩
    exact List.mem_of_find?_eq_some found
  · intro member
    have below : block.order ∈ List.range loop.body.length :=
      permuted.mem_iff.mp (List.mem_map_of_mem member)
    refine ⟨block.order, List.mem_range.mp below, ?_⟩
    obtain ⟨found, isFound⟩ :
        ∃ found, loop.body.find? (fun other => other.order == block.order) = some found := by
      rw [← Option.isSome_iff_exists, List.find?_isSome]
      exact ⟨block, member, by simp⟩
    have foundIn := List.mem_of_find?_eq_some isFound
    have sameOrder : found.order = block.order := by
      simpa using List.find?_some isFound
    rw [isFound, List.inj_on_of_nodup_map nodup foundIn member sameOrder]

theorem orderedStmts_sorted :
    loop.orderedStmts.Pairwise fun first second => first.order < second.order := by
  rw [orderedStmts, List.pairwise_filterMap]
  apply List.pairwise_lt_range.imp
  intro first second less firstBlock isFirst secondBlock isSecond
  have firstOrder : firstBlock.order = first := by simpa using List.find?_some isFirst
  have secondOrder : secondBlock.order = second := by simpa using List.find?_some isSecond
  omega

end PipelineLoop

/-- The position of the pipeline at which an event runs. -/
def Event.position (event : Event) : Int :=
  event.iteration + event.block.stage

/-- An event runs before another: at an earlier position, or at the same one in order. -/
def Event.Before (first second : Event) : Prop :=
  first.position < second.position ∨
    first.position = second.position ∧ first.block.order < second.block.order

theorem Event.Before.asymm {first second : Event} (before : first.Before second) :
    ¬ second.Before first := by
  simp only [Event.Before] at *
  omega

namespace PipelineLoop

variable {loop : PipelineLoop} {analyzer : Analyzer loop} {start : Int} {count : Nat}
  {event : Event} {block : Block} {trace : List Event}

theorem mem_schedule (permuted : (loop.body.map Block.order).Perm (List.range loop.body.length)) :
    event ∈ loop.schedule start count ↔
      event.block ∈ loop.body ∧ loop.InRange event.iteration ∧
        start ≤ event.position ∧ event.position < start + count := by
  simp only [schedule, runPosition, List.mem_flatMap, List.mem_range, List.mem_filterMap,
    Option.ite_none_right_eq_some, Option.some.injEq, true_implies, mem_orderedStmts permuted]
  constructor
  · rintro ⟨index, below, block, member, inRange, rfl⟩
    refine ⟨member, inRange, ?_, ?_⟩ <;> simp only [Event.position] <;> omega
  · rintro ⟨member, inRange, above, below⟩
    have isPosition :
        start + ((event.position - start).toNat : Int) - event.block.stage = event.iteration := by
      have unfolded : event.position = event.iteration + event.block.stage := rfl
      omega
    refine ⟨(event.position - start).toNat, by omega, event.block, member, ?_, ?_⟩
    · rw [isPosition]
      exact inRange
    · rw [isPosition]

theorem schedule_sorted (start : Int) (count : Nat) :
    (loop.schedule start count).Pairwise Event.Before := by
  rw [schedule, List.pairwise_flatMap]
  constructor
  · intro index _
    rw [runPosition, List.pairwise_filterMap]
    apply orderedStmts_sorted.imp
    intro first second less firstEvent isFirst secondEvent isSecond
    simp only [Option.ite_none_right_eq_some, Option.some.injEq] at isFirst isSecond
    obtain ⟨-, rfl⟩ := isFirst
    obtain ⟨-, rfl⟩ := isSecond
    right
    exact ⟨by simp [Event.position], less⟩
  · apply List.pairwise_lt_range.imp
    intro first second less firstEvent isFirst secondEvent isSecond
    simp only [runPosition, List.mem_filterMap, Option.ite_none_right_eq_some,
      Option.some.injEq] at isFirst isSecond
    obtain ⟨firstBlock, -, -, rfl⟩ := isFirst
    obtain ⟨secondBlock, -, -, rfl⟩ := isSecond
    left
    simp only [Event.position]
    omega

/-! ## Regions that do not overlap -/

/-- No stage is negative, and either the loop is long enough for the deepest stage or every
statement runs in the first or in the last stage.  An empty loop only needs some stage. -/
def RegionsApart (loop : PipelineLoop) : Prop :=
  (0 ≤ loop.maxStage ∧ loop.extent = 0) ∨
    (∀ block ∈ loop.body, 0 ≤ block.stage) ∧
      (loop.maxStage ≤ loop.extent ∨
        ∀ block ∈ loop.body, block.stage = 0 ∨ block.stage = loop.maxStage)

theorem foldl_max_stage (blocks : List Block) (start : Int) :
    start ≤ blocks.foldl (fun stage block => max stage block.stage) start ∧
      ∀ block ∈ blocks,
        block.stage ≤ blocks.foldl (fun stage block => max stage block.stage) start := by
  induction blocks generalizing start with
  | nil => simp
  | cons first rest ih =>
    obtain ⟨fromStart, fromRest⟩ := ih (max start first.stage)
    simp only [List.foldl_cons, List.mem_cons, forall_eq_or_imp]
    exact ⟨by omega, by omega, fromRest⟩

theorem stage_le_maxStage (member : block ∈ loop.body) : block.stage ≤ loop.maxStage :=
  (foldl_max_stage loop.body (-1)).2 block member

theorem neg_one_le_maxStage : -1 ≤ loop.maxStage :=
  (foldl_max_stage loop.body (-1)).1

theorem schedule_eq_nil (permuted : (loop.body.map Block.order).Perm (List.range loop.body.length))
    (outside :
      ∀ block ∈ loop.body, ∀ position, start ≤ position → position < start + count →
        ¬ loop.InRange (position - block.stage)) :
    loop.schedule start count = [] := by
  apply List.eq_nil_iff_forall_not_mem.mpr
  intro event member
  obtain ⟨inBody, inRange, above, below⟩ := (mem_schedule permuted).mp member
  apply outside event.block inBody event.position above below
  simpa [Event.position] using inRange

theorem runPosition_unchecked {position : Int} (blocks : List Block)
    (inRange : ∀ block ∈ blocks, loop.InRange (position - block.stage)) :
    loop.runPosition false blocks position = loop.runPosition true blocks position := by
  apply List.filterMap_congr
  intro block member
  simp [inRange block member]

theorem steadyLoop_eq_schedule
    (permuted : (loop.body.map Block.order).Perm (List.range loop.body.length))
    (stages : ∀ block ∈ loop.body, 0 ≤ block.stage) :
    ((List.range (loop.loopMin + loop.extent - (loop.loopMin + loop.maxStage)).toNat).flatMap
        fun (index : Nat) =>
          loop.runPosition false loop.orderedStmts (loop.loopMin + loop.maxStage + index)) =
      loop.schedule (loop.loopMin + loop.maxStage)
        (loop.loopMin + loop.extent - (loop.loopMin + loop.maxStage)).toNat := by
  apply List.flatMap_congr
  intro index member
  have below := List.mem_range.mp member
  apply runPosition_unchecked
  intro block inOrder
  have inBody := (mem_orderedStmts permuted).mp inOrder
  have nonnegStage := stages block inBody
  have bounded := stage_le_maxStage inBody
  simp only [InRange]
  omega

theorem pipelineTrace_eq_schedule
    (permuted : (loop.body.map Block.order).Perm (List.range loop.body.length))
    (nonneg : 0 ≤ loop.extent) (apart : loop.RegionsApart) :
    loop.pipelineTrace analyzer =
      loop.schedule loop.loopMin (loop.extent + loop.maxStage).toNat := by
  have deepest : -1 ≤ loop.maxStage := neg_one_le_maxStage
  rw [pipelineTrace, runEmitted_checked, runEmitted_checked, runEmitted_emitImpl]
  rcases apart with ⟨someStage, empty⟩ | ⟨stages, lengths⟩
  · -- An empty loop runs nothing in any region.
    have nothing : ∀ start count, loop.schedule start count = [] := by
      intro start count
      apply schedule_eq_nil permuted
      intro block _ position _ _ inRange
      simp only [InRange] at inRange
      omega
    have noBody :
        (loop.loopMin + loop.extent - (loop.loopMin + loop.maxStage)).toNat = 0 := by omega
    rw [nothing, nothing, nothing, noBody]
    rfl
  · have prologueLength :
        (loop.loopMin + loop.maxStage - loop.loopMin).toNat = loop.maxStage.toNat := by omega
    have epilogueLength :
        (loop.loopMin + loop.extent + loop.maxStage - (loop.loopMin + loop.extent)).toNat =
          loop.maxStage.toNat := by omega
    rw [prologueLength, epilogueLength]
    by_cases long : loop.maxStage ≤ loop.extent
    · rw [steadyLoop_eq_schedule permuted stages]
      by_cases someStage : 0 ≤ loop.maxStage
      · -- The three regions are consecutive.
        have total :
            (loop.extent + loop.maxStage).toNat =
              loop.maxStage.toNat +
                (loop.loopMin + loop.extent - (loop.loopMin + loop.maxStage)).toNat +
                loop.maxStage.toNat := by omega
        have steadyStart :
            loop.loopMin + (loop.maxStage.toNat : Int) = loop.loopMin + loop.maxStage := by omega
        have epilogueStart :
            loop.loopMin + ((loop.maxStage.toNat +
                (loop.loopMin + loop.extent - (loop.loopMin + loop.maxStage)).toNat : Nat) : Int) =
              loop.loopMin + loop.extent := by omega
        rw [total, schedule_add, schedule_add, steadyStart, epilogueStart]
      · -- Without a statement nothing runs.
        have nothing : ∀ start count, loop.schedule start count = [] := by
          intro start count
          apply schedule_eq_nil permuted
          intro block member
          have nonnegStage := stages block member
          have bounded := stage_le_maxStage member
          omega
        rw [nothing, nothing, nothing, nothing]
        rfl
    · have firstOrLast := lengths.resolve_left long
      have noSteady :
          (loop.loopMin + loop.extent - (loop.loopMin + loop.maxStage)).toNat = 0 := by omega
      have prologue :
          loop.maxStage.toNat = loop.extent.toNat + (loop.maxStage - loop.extent).toNat := by omega
      have total :
          (loop.extent + loop.maxStage).toNat = loop.extent.toNat + loop.maxStage.toNat := by omega
      have afterLoop : loop.loopMin + (loop.extent.toNat : Int) = loop.loopMin + loop.extent := by
        omega
      -- After the loop's extent the prologue is past the first stage and before the last one.
      have silent :
          loop.schedule (loop.loopMin + loop.extent) (loop.maxStage - loop.extent).toNat = [] := by
        apply schedule_eq_nil permuted
        intro block member position above below inRange
        simp only [InRange] at inRange
        rcases firstOrLast block member with isFirst | isLast <;> omega
      rw [noSteady, total, schedule_add, afterLoop]
      nth_rewrite 1 [prologue]
      rw [schedule_add, afterLoop, silent]
      simp

/-! ## Running once -/

theorem block_eq_of_order
    (permuted : (loop.body.map Block.order).Perm (List.range loop.body.length))
    {first second : Block} (firstIn : first ∈ loop.body) (secondIn : second ∈ loop.body)
    (same : first.order = second.order) : first = second :=
  List.inj_on_of_nodup_map (permuted.nodup_iff.mpr List.nodup_range) firstIn secondIn same

theorem countP_le_one {Element : Type*} {test : Element → Bool} {elements : List Element}
    (apart : elements.Pairwise fun first second => test first → ¬ test second) :
    elements.countP test ≤ 1 := by
  induction elements with
  | nil => simp
  | cons first rest ih =>
    rw [List.pairwise_cons] at apart
    cases passes : test first with
    | false =>
      rw [List.countP_cons_of_neg (by simp [passes])]
      exact ih apart.2
    | true =>
      have noMore : rest.countP test = 0 := by
        rw [List.countP_eq_zero]
        intro other member
        exact apart.1 other member passes
      rw [List.countP_cons_of_pos passes, noMore]

theorem occurrences_le_one
    (permuted : (loop.body.map Block.order).Perm (List.range loop.body.length))
    (sorted : trace.Pairwise Event.Before)
    (inBody : ∀ event ∈ trace, event.block ∈ loop.body) (order : Nat) (iteration : Int) :
    occurrences trace order iteration ≤ 1 := by
  apply countP_le_one
  apply sorted.imp_of_mem
  intro first second firstIn secondIn before isFirst isSecond
  simp only [Bool.and_eq_true, beq_iff_eq] at isFirst isSecond
  have sameBlock :=
    block_eq_of_order permuted (inBody first firstIn) (inBody second secondIn)
      (isFirst.1.trans isSecond.1.symm)
  simp only [Event.Before, Event.position, sameBlock, isFirst.2, isSecond.2] at before
  omega

theorem occurrences_pos_iff {order : Nat} {iteration : Int} :
    0 < occurrences trace order iteration ↔
      ∃ event ∈ trace, event.block.order = order ∧ event.iteration = iteration := by
  simp [occurrences]

section

variable (permuted : (loop.body.map Block.order).Perm (List.range loop.body.length))
include permuted

theorem RegionsApart.runsOnce (nonneg : 0 ≤ loop.extent) (apart : loop.RegionsApart) :
    loop.RunsOnce analyzer := by
  intro block member iteration
  rw [pipelineTrace_eq_schedule permuted nonneg apart]
  have atMostOnce :=
    occurrences_le_one permuted
      (schedule_sorted loop.loopMin (loop.extent + loop.maxStage).toNat)
      (fun event inTrace => ((mem_schedule permuted).mp inTrace).1) block.order iteration
  by_cases inRange : loop.InRange iteration
  · have runs :
        0 < occurrences (loop.schedule loop.loopMin (loop.extent + loop.maxStage).toNat)
          block.order iteration := by
      apply occurrences_pos_iff.mpr
      refine ⟨⟨block, iteration⟩, (mem_schedule permuted).mpr ⟨member, inRange, ?_⟩, rfl, rfl⟩
      have bounded := stage_le_maxStage member
      have stageNonneg : 0 ≤ block.stage := by
        rcases apart with ⟨-, empty⟩ | ⟨stages, -⟩
        · simp only [InRange] at inRange
          omega
        · exact stages block member
      simp only [InRange] at inRange
      simp only [Event.position]
      omega
    rw [if_pos inRange]
    omega
  · rw [if_neg inRange]
    by_contra occurs
    obtain ⟨event, inTrace, -, isIteration⟩ := occurrences_pos_iff.mp (Nat.pos_of_ne_zero occurs)
    rw [← isIteration] at inRange
    exact inRange ((mem_schedule permuted).mp inTrace).2.1

theorem mem_steadyLoop :
    event ∈ loop.runEmitted
        (loop.emitImpl analyzer (loop.loopMin + loop.maxStage) (loop.loopMin + loop.extent) false) ↔
      event.block ∈ loop.body ∧ loop.loopMin + loop.maxStage ≤ event.position ∧
        event.position < loop.loopMin + loop.extent := by
  simp only [runEmitted_emitImpl, runPosition, List.mem_flatMap, List.mem_range,
    List.mem_filterMap, mem_orderedStmts permuted, Bool.false_eq_true, false_implies, ↓reduceIte,
    Option.some.injEq]
  constructor
  · rintro ⟨index, below, block, member, rfl⟩
    refine ⟨member, ?_, ?_⟩ <;> simp only [Event.position] <;> omega
  · rintro ⟨member, above, below⟩
    have unfolded : event.position = event.iteration + event.block.stage := rfl
    have isIteration :
        loop.loopMin + loop.maxStage +
            ((event.position - (loop.loopMin + loop.maxStage)).toNat : Int) -
          event.block.stage = event.iteration := by omega
    refine ⟨(event.position - (loop.loopMin + loop.maxStage)).toNat, by omega, event.block,
      member, ?_⟩
    rw [isIteration]

theorem not_runsOnce_of_negative (member : block ∈ loop.body) (negative : block.stage < 0)
    (notEmpty : ¬ (0 ≤ loop.maxStage ∧ loop.extent = 0)) (nonneg : 0 ≤ loop.extent) :
    ¬ loop.RunsOnce analyzer := by
  intro once
  by_cases steady : loop.maxStage < loop.extent
  · -- The last position of the steady loop runs the statement past the loop's end.
    have occurs :
        0 < occurrences (loop.pipelineTrace analyzer) block.order
          (loop.loopMin + loop.extent - 1 - block.stage) := by
      apply occurrences_pos_iff.mpr
      refine ⟨⟨block, loop.loopMin + loop.extent - 1 - block.stage⟩, ?_, rfl, rfl⟩
      rw [pipelineTrace, List.mem_append, List.mem_append]
      refine Or.inl (Or.inr ((mem_steadyLoop permuted).mpr ⟨member, ?_, ?_⟩)) <;>
        simp only [Event.position] <;> omega
    have outside : ¬ loop.InRange (loop.loopMin + loop.extent - 1 - block.stage) := by
      simp only [InRange]
      omega
    rw [once block member, if_neg outside] at occurs
    exact Nat.lt_irrefl 0 occurs
  · -- Without a steady loop no region reaches the position of the first iteration.
    have inRange : loop.InRange loop.loopMin := by
      simp only [InRange]
      omega
    have occurs : 0 < occurrences (loop.pipelineTrace analyzer) block.order loop.loopMin := by
      rw [once block member, if_pos inRange]
      exact Nat.one_pos
    obtain ⟨event, inTrace, sameOrder, isFirst⟩ := occurrences_pos_iff.mp occurs
    simp only [pipelineTrace, List.mem_append, runEmitted_checked, mem_steadyLoop permuted,
      mem_schedule permuted] at inTrace
    have inBody : event.block ∈ loop.body := by
      rcases inTrace with (⟨inBody, -⟩ | ⟨inBody, -⟩) | ⟨inBody, -⟩ <;> exact inBody
    have sameBlock := block_eq_of_order permuted inBody member sameOrder
    simp only [Event.position, isFirst, sameBlock] at inTrace
    omega

theorem not_runsOnce_of_overlap (member : block ∈ loop.body)
    (afterFirst : 0 < block.stage) (beforeLast : block.stage < loop.maxStage)
    (nonempty : 0 < loop.extent) (short : loop.extent < loop.maxStage) :
    ¬ loop.RunsOnce analyzer := by
  intro once
  have inRange : loop.InRange (loop.loopMin + max loop.extent block.stage - block.stage) := by
    simp only [InRange]
    omega
  have runs :
      ∀ start count, start ≤ loop.loopMin + max loop.extent block.stage →
        loop.loopMin + max loop.extent block.stage < start + (count : Nat) →
          0 < occurrences (loop.schedule start count) block.order
            (loop.loopMin + max loop.extent block.stage - block.stage) := by
    intro start count above below
    apply occurrences_pos_iff.mpr
    refine ⟨⟨block, _⟩, (mem_schedule permuted).mpr ⟨member, inRange, ?_, ?_⟩, rfl, rfl⟩ <;>
      simp only [Event.position] <;> omega
  have total := once block member (loop.loopMin + max loop.extent block.stage - block.stage)
  have inPrologue :=
    runs loop.loopMin (loop.loopMin + loop.maxStage - loop.loopMin).toNat (by omega) (by omega)
  have inEpilogue :=
    runs (loop.loopMin + loop.extent)
      (loop.loopMin + loop.extent + loop.maxStage - (loop.loopMin + loop.extent)).toNat
      (by omega) (by omega)
  rw [if_pos inRange, pipelineTrace, runEmitted_checked, runEmitted_checked] at total
  simp only [occurrences, List.countP_append] at total inPrologue inEpilogue
  omega

/-- The pipeline runs every statement once in each iteration exactly when its regions do not
overlap. -/
theorem runsOnce_iff_regionsApart (nonneg : 0 ≤ loop.extent) :
    loop.RunsOnce analyzer ↔ loop.RegionsApart := by
  constructor
  · intro once
    by_contra overlap
    simp only [RegionsApart, not_or, not_and_or, not_forall, not_le] at overlap
    obtain ⟨notEmpty, ⟨block, member, negative⟩ | ⟨short, block, member, between⟩⟩ := overlap
    · exact not_runsOnce_of_negative permuted member negative (by omega) nonneg once
    · by_cases negative : block.stage < 0
      · exact not_runsOnce_of_negative permuted member negative (by omega) nonneg once
      · have bounded := stage_le_maxStage member
        exact not_runsOnce_of_overlap permuted member (by omega) (by omega) (by omega) short once
  · exact RegionsApart.runsOnce permuted nonneg

end

end PipelineLoop

end TilelangAscend.SoftwarePipeline
