import TilelangAscend.ExceptRules
import TilelangAscend.ScheduleValidity
import TilelangAscend.UnitFlag

namespace TilelangAscend.Simulator

open ExceptRules

/-!
# The UnitFlag protocol

The validation accepts the tasks of a core exactly if every block of L0C is used in rounds: MMAs
that hold it, one MMA that releases it and one fixpipe that consumes it.  Holding MMAs may follow
the last round.  The recorded hardware edges order these tasks in every completed schedule.
-/

/-! ## Rounds of a block -/

/-- Uses of a block in rounds, with a number of holding uses behind the last round. -/
inductive Rounds (openHolds : Nat) : List UnitFlagUse → Prop where
  | finish :
      Rounds openHolds (List.replicate openHolds .hold)
  | round
      (holds : Nat)
      {rest : List UnitFlagUse} :
      Rounds openHolds rest →
      Rounds openHolds (List.replicate holds .hold ++ .release :: .consume :: rest)

/-- Whether a block is readable after a use; `none` if the use is not allowed. -/
def useStep : Bool → UnitFlagUse → Option Bool
  | false, .hold => some false
  | false, .release => some true
  | true, .consume => some false
  | _, _ => none

theorem foldlM_useStep_holds (holds : Nat) (rest : List UnitFlagUse) :
    (List.replicate holds UnitFlagUse.hold ++ rest).foldlM useStep false =
      rest.foldlM useStep false := by
  induction holds with
  | zero => rfl
  | succ holds ih =>
    rw [List.replicate_succ, List.cons_append, List.foldlM_cons]
    exact ih

variable {uses : List UnitFlagUse}

theorem Rounds.hold_cons {openHolds : Nat} (rounds : Rounds openHolds uses) :
    ∃ finalHolds, Rounds finalHolds (.hold :: uses) := by
  cases rounds with
  | finish => exact ⟨openHolds + 1, .finish⟩
  | round holds rest => exact ⟨openHolds, .round (holds + 1) rest⟩

theorem rounds_of_foldlM (uses : List UnitFlagUse)
    (allowed : uses.foldlM useStep false = some false) : ∃ openHolds, Rounds openHolds uses := by
  match uses, allowed with
  | [], _ => exact ⟨0, .finish⟩
  | .hold :: rest, allowed =>
    obtain ⟨openHolds, rounds⟩ := rounds_of_foldlM rest allowed
    exact rounds.hold_cons
  | .release :: .consume :: rest, allowed =>
    obtain ⟨openHolds, rounds⟩ := rounds_of_foldlM rest allowed
    exact ⟨openHolds, .round 0 rounds⟩

theorem exists_rounds_iff :
    (∃ openHolds, Rounds openHolds uses) ↔ uses.foldlM useStep false = some false := by
  constructor
  · rintro ⟨openHolds, rounds⟩
    induction rounds with
    | finish => simpa using foldlM_useStep_holds openHolds []
    | round holds _ ih =>
      rw [foldlM_useStep_holds]
      exact ih
  · exact rounds_of_foldlM uses

/-! ## Uses of the tasks of a core -/

/-- What a task does with one block. -/
def BridgeTask.useOn (bridge : BridgeBuffers) (coreId : Nat) (block : L0cBlock)
    (entry : BridgeTask) : Option UnitFlagUse :=
  entry.unitFlagUse?.bind fun use =>
    match bridge.blocks coreId use.2 with
    | .ok touched => if block ∈ touched then some use.1 else none
    | .error _ => none

/-- The uses of one block along the tasks of a core. -/
def blockUses (bridge : BridgeBuffers) (coreId : Nat) (tasks : List BridgeTask)
    (block : L0cBlock) : List UnitFlagUse :=
  tasks.filterMap (BridgeTask.useOn bridge coreId block)

/-- Regions that tasks use with a unit flag are contiguous and span complete blocks. -/
def WholeBlocks (bridge : BridgeBuffers) (coreId : Nat) (tasks : List BridgeTask) : Prop :=
  ∀ entry ∈ tasks, ∀ use ∈ entry.unitFlagUse?, ∃ touched, bridge.blocks coreId use.2 = .ok touched

/-- State of a block after a use by the task at an index. -/
def BlockState.step
    (state : BlockState)
    (index : Nat) :
    UnitFlagUse → Option BlockState
  | .hold => if state.writer.isSome then none else some state
  | .release => if state.writer.isSome then none else some { state with writer := some index }
  | .consume =>
    if state.writer.isNone then none else some { writer := none, clear := some index }

/-- State of a block before the task at an index. -/
def blockStateAt
    (bridge : BridgeBuffers)
    (coreId : Nat)
    (tasks : List BridgeTask)
    (block : L0cBlock) :
    Nat → Option BlockState
  | 0 => some {}
  | index + 1 =>
    (blockStateAt bridge coreId tasks block index).bind fun state =>
      match (tasks[index]?).bind (BridgeTask.useOn bridge coreId block) with
      | none => some state
      | some use => state.step index use

section Core

variable {bridge : BridgeBuffers} {coreId : Nat} {tasks : List BridgeTask} {block : L0cBlock}

theorem blockStateAt_readable (index : Nat) :
    (blockStateAt bridge coreId tasks block index).map (·.writer.isSome) =
      (blockUses bridge coreId (tasks.take index) block).foldlM useStep false := by
  induction index with
  | zero => rfl
  | succ index ih =>
    rw [List.take_add_one, blockUses, List.filterMap_append, List.foldlM_append,
      ← blockUses, ← ih, blockStateAt]
    cases before : blockStateAt bridge coreId tasks block index with
    | none => rfl
    | some state =>
      cases found : tasks[index]? with
      | none => simp
      | some entry =>
        cases isUse : entry.useOn bridge coreId block with
        | none => simp [isUse]
        | some use =>
          cases use <;> cases ready : state.writer <;>
            simp [isUse, BlockState.step, useStep, ready]

/-! ## Annotations keep what the validation reads -/

/-- What the validation reads of a task. -/
def BridgeTask.key (entry : BridgeTask) : TaskId × Option (UnitFlagUse × Option BufferRegion) :=
  (entry.task.taskId, entry.unitFlagUse?)

/-- Annotated tasks: the same keys, and the hardware edges that were there before. -/
structure Annotates (before after : List BridgeTask) : Prop where
  keys : after.map BridgeTask.key = before.map BridgeTask.key
  edges :
    ∀ (index : Nat) (entry : BridgeTask), before[index]? = some entry →
      ∃ annotated,
        after[index]? = some annotated ∧
          entry.task.metadata.hardwareDependencies ⊆ annotated.task.metadata.hardwareDependencies

theorem Annotates.refl (entries : List BridgeTask) : Annotates entries entries where
  keys := rfl
  edges _ entry found := ⟨entry, found, List.Subset.refl _⟩

theorem Annotates.trans
    {first second third : List BridgeTask}
    (firstStep : Annotates first second)
    (secondStep : Annotates second third) :
    Annotates first third where
  keys := secondStep.keys.trans firstStep.keys
  edges index entry found := by
    obtain ⟨middle, middleFound, kept⟩ := firstStep.edges index entry found
    obtain ⟨last, lastFound, stillKept⟩ := secondStep.edges index middle middleFound
    exact ⟨last, lastFound, List.Subset.trans kept stillKept⟩

variable {before after : List BridgeTask} {index first second : Nat}
  {annotated entry : BridgeTask} {hardware : List TaskId} {state : BlockState}

theorem Annotates.key_at (annotates : Annotates before after) (index : Nat) :
    (after[index]?).map BridgeTask.key = (before[index]?).map BridgeTask.key := by
  rw [← List.getElem?_map, ← List.getElem?_map, annotates.keys]

theorem Annotates.of_after (annotates : Annotates before after)
    (found : after[index]? = some annotated) :
    ∃ entry,
      before[index]? = some entry ∧ annotated.key = entry.key ∧
        entry.task.metadata.hardwareDependencies ⊆
          annotated.task.metadata.hardwareDependencies := by
  have sameKey := annotates.key_at index
  rw [found] at sameKey
  obtain ⟨entry, isEntry, isKey⟩ := Option.map_eq_some_iff.mp sameKey.symm
  obtain ⟨_, isAnnotated, kept⟩ := annotates.edges index entry isEntry
  rw [found] at isAnnotated
  cases isAnnotated
  exact ⟨entry, isEntry, isKey.symm, kept⟩

theorem Annotates.length_eq (annotates : Annotates before after) :
    after.length = before.length := by
  have lengths := congrArg List.length annotates.keys
  simpa using lengths

theorem BridgeTask.useOn_congr {other : BridgeTask} (sameKey : entry.key = other.key)
    (block : L0cBlock) : entry.useOn bridge coreId block = other.useOn bridge coreId block := by
  have sameUse : entry.unitFlagUse? = other.unitFlagUse? := congrArg Prod.snd sameKey
  unfold BridgeTask.useOn
  rw [sameUse]

theorem BridgeTask.annotate_ok {role : UnitFlagUse} {peers : List TaskId}
    (succeeds : entry.annotate role hardware peers = .ok annotated) :
    annotated.key = entry.key ∧
      entry.task.metadata.hardwareDependencies ⊆ annotated.task.metadata.hardwareDependencies ∧
      hardware ⊆ annotated.task.metadata.hardwareDependencies := by
  unfold BridgeTask.annotate at succeeds
  simp only at succeeds
  split at succeeds
  · cases succeeds
    exact ⟨rfl, fun _ member => mem_sortedUnion.mpr (Or.inl member),
      fun _ member => mem_sortedUnion.mpr (Or.inr member)⟩
  · cases succeeds

theorem BridgeTask.annotate_total (role : UnitFlagUse) (peers : List TaskId)
    (others : entry.task.taskId ∉ hardware) :
    ∃ annotated, entry.annotate role hardware peers = .ok annotated := by
  have notSelf :
      entry.task.taskId ∉
        sortedUnion entry.task.dependencies
          (sortedUnion entry.task.metadata.hardwareDependencies hardware) := by
    intro member
    rcases mem_sortedUnion.mp member with declared | isEdge
    · exact entry.task.notSelfDependent declared
    · rcases mem_sortedUnion.mp isEdge with isOld | isNew
      · exact entry.task.notSelfDependent (entry.hardwareDeclared isOld)
      · exact others isNew
  unfold BridgeTask.annotate
  simp only [notSelf, not_false_eq_true, ↓reduceDIte]
  exact ⟨_, rfl⟩

namespace UnitFlagState

variable {state next : UnitFlagState} {index : Nat} {hardware : List TaskId}

theorem annotateAt_ok {role : UnitFlagUse} {peers : List TaskId}
    (succeeds : state.annotateAt index role hardware peers = .ok next) :
    next.states = state.states ∧ Annotates state.tasks next.tasks ∧
      ∃ annotated,
        next.tasks[index]? = some annotated ∧
          hardware ⊆ annotated.task.metadata.hardwareDependencies := by
  unfold annotateAt at succeeds
  split at succeeds
  · cases succeeds
  · rename_i entry found
    cases isAnnotated : entry.annotate role hardware peers with
    | error failure =>
      rw [isAnnotated] at succeeds
      cases succeeds
    | ok annotated =>
      rw [isAnnotated] at succeeds
      cases succeeds
      obtain ⟨sameKey, kept, added⟩ := BridgeTask.annotate_ok isAnnotated
      obtain ⟨inside, isEntry⟩ := List.getElem?_eq_some_iff.mp found
      refine ⟨rfl, ⟨?_, ?_⟩, annotated, by simp [inside], added⟩
      · simp only
        rw [List.map_set, sameKey, ← isEntry, ← List.map_set, List.set_getElem_self]
      · intro position other isOther
        by_cases same : index = position
        · subst same
          rw [found] at isOther
          cases isOther
          exact ⟨annotated, by simp [inside], kept⟩
        · exact ⟨other, by simp [List.getElem?_set_ne same, isOther], List.Subset.refl _⟩

theorem annotateAt_total (role : UnitFlagUse) (peers : List TaskId)
    (inside : index < state.tasks.length) (others : state.idAt index ∉ hardware) :
    ∃ next, state.annotateAt index role hardware peers = .ok next := by
  have found : state.tasks[index]? = some state.tasks[index] := List.getElem?_eq_getElem inside
  rw [idAt, found] at others
  obtain ⟨annotated, isAnnotated⟩ := BridgeTask.annotate_total role peers others
  unfold annotateAt
  rw [found]
  simp only [isAnnotated]
  exact ⟨_, rfl⟩

theorem update_tasks (state : UnitFlagState) (touched : List L0cBlock)
    (change : BlockState → BlockState) : (state.update touched change).tasks = state.tasks := by
  unfold update
  induction touched generalizing state with
  | nil => rfl
  | cons block rest ih => rw [List.foldl_cons, ih]

theorem get_update (state : UnitFlagState) (touched : List L0cBlock)
    (change : BlockState → BlockState)
    (idempotent : ∀ old, change (change old) = change old) (block : L0cBlock) :
    (state.update touched change).get block =
      if block ∈ touched then change (state.get block) else state.get block := by
  unfold update
  induction touched generalizing state with
  | nil => rfl
  | cons head rest ih =>
    rw [List.foldl_cons, ih]
    by_cases same : block = head
    · subst same
      simp [get, idempotent]
    · simp [get, same, AList.lookup_insert_ne same]

end UnitFlagState

/-! ## The invariant of the validation -/

/-- The task that a use of a block has to wait for. -/
def BlockState.awaited
    (state : BlockState) :
    UnitFlagUse → Option Nat
  | .hold => state.clear
  | .release => state.clear
  | .consume => state.writer

/-- The validation has processed the tasks before an index. -/
structure Tracks
    (bridge : BridgeBuffers)
    (coreId : Nat)
    (tasks : List BridgeTask)
    (index : Nat)
    (state : UnitFlagState) :
    Prop where
  annotates : Annotates tasks state.tasks
  states :
    ∀ block, blockStateAt bridge coreId tasks block index = some (state.get block)
  edges :
    ∀ earlier < index,
      ∀ entry, state.tasks[earlier]? = some entry →
        ∀ block use before source awaited, entry.useOn bridge coreId block = some use →
          blockStateAt bridge coreId tasks block earlier = some before →
          before.awaited use = some source →
          tasks[source]? = some awaited →
          awaited.task.taskId ∈ entry.task.metadata.hardwareDependencies

theorem tracks_initial : Tracks bridge coreId tasks 0 { tasks := tasks } where
  annotates := Annotates.refl tasks
  states _ := rfl
  edges _ isEarlier := absurd isEarlier (Nat.not_lt_zero _)

theorem blockStateAt_below (reached : blockStateAt bridge coreId tasks block index = some state) :
    (∀ writer ∈ state.writer, writer < index) ∧ ∀ clear ∈ state.clear, clear < index := by
  induction index generalizing state with
  | zero =>
    cases reached
    exact ⟨by simp, by simp⟩
  | succ index ih =>
    obtain ⟨before, isBefore, stepped⟩ := Option.bind_eq_some_iff.mp reached
    obtain ⟨writerBelow, clearBelow⟩ := ih isBefore
    have weaker :
        (∀ writer ∈ before.writer, writer < index + 1) ∧
          ∀ clear ∈ before.clear, clear < index + 1 :=
      ⟨fun writer isWriter => Nat.lt_succ_of_lt (writerBelow writer isWriter),
        fun clear isClear => Nat.lt_succ_of_lt (clearBelow clear isClear)⟩
    split at stepped
    · cases stepped
      exact weaker
    · rename_i use _
      cases use with
      | hold =>
        simp only [BlockState.step] at stepped
        split at stepped
        · cases stepped
        · cases stepped
          exact weaker
      | release =>
        simp only [BlockState.step] at stepped
        split at stepped
        · cases stepped
        · cases stepped
          exact ⟨by simp, weaker.2⟩
      | consume =>
        simp only [BlockState.step] at stepped
        split at stepped
        · cases stepped
        · cases stepped
          exact ⟨by simp, by simp⟩

section Advance

variable {index : Nat} {state next : UnitFlagState} {entry : BridgeTask} {source : Nat}
  {touched : List L0cBlock} {region : Option BufferRegion} {use : UnitFlagUse}
  {writers : List Nat}

theorem Tracks.idAt_eq (tracks : Tracks bridge coreId tasks index state)
    (found : tasks[source]? = some entry) : state.idAt source = entry.task.taskId := by
  have sameKey := tracks.annotates.key_at source
  rw [found] at sameKey
  obtain ⟨annotated, isAnnotated, isKey⟩ := Option.map_eq_some_iff.mp sameKey
  rw [UnitFlagState.idAt, isAnnotated]
  exact congrArg Prod.fst isKey

theorem Tracks.advance
    (tracks : Tracks bridge coreId tasks index state)
    (annotates : Annotates state.tasks next.tasks)
    (stepped :
      ∀ block,
        (match (tasks[index]?).bind (BridgeTask.useOn bridge coreId block) with
          | none => some (state.get block)
          | some use => (state.get block).step index use) = some (next.get block))
    (recorded :
      ∀ entry, next.tasks[index]? = some entry →
        ∀ block use source awaited, entry.useOn bridge coreId block = some use →
          (state.get block).awaited use = some source →
          tasks[source]? = some awaited →
          awaited.task.taskId ∈ entry.task.metadata.hardwareDependencies) :
    Tracks bridge coreId tasks (index + 1) next where
  annotates := tracks.annotates.trans annotates
  states block := by
    rw [blockStateAt, tracks.states block, Option.bind_some]
    exact stepped block
  edges earlier isEarlier entry found block use before source awaited isUse isBefore isSource
      isAwaited := by
    rcases Nat.lt_succ_iff_lt_or_eq.mp isEarlier with below | same
    · obtain ⟨old, isOld, sameKey, kept⟩ := annotates.of_after found
      rw [BridgeTask.useOn_congr sameKey] at isUse
      exact kept
        (tracks.edges earlier below old isOld block use before source awaited isUse isBefore
          isSource isAwaited)
    · subst same
      rw [tracks.states block] at isBefore
      cases isBefore
      exact recorded entry found block use source awaited isUse isSource isAwaited

theorem BridgeTask.useOn_eq (isUse : entry.unitFlagUse? = some (use, region))
    (whole : bridge.blocks coreId region = .ok touched) (block : L0cBlock) :
    entry.useOn bridge coreId block = if block ∈ touched then some use else none := by
  unfold BridgeTask.useOn
  rw [isUse]
  simp only [Option.bind_some, whole]

theorem Tracks.writeBlocks (tracks : Tracks bridge coreId tasks index state)
    {release : Bool} (found : tasks[index]? = some entry)
    (isUse : entry.unitFlagUse? = some (if release then .release else .hold, region))
    (whole : bridge.blocks coreId region = .ok touched)
    (succeeds : state.writeBlocks index release touched = .ok next) :
    Tracks bridge coreId tasks (index + 1) next := by
  unfold UnitFlagState.writeBlocks at succeeds
  split at succeeds
  · cases succeeds
  · rename_i writable
    have noWriter : ∀ block ∈ touched, (state.get block).writer = none := by
      intro block isTouched
      by_contra isWriter
      exact writable (List.any_eq_true.mpr
        ⟨block, isTouched, Option.isSome_iff_ne_none.mpr isWriter⟩)
    obtain ⟨annotated, isAnnotated, isNext⟩ := exceptBind_eq_ok.mp succeeds
    cases isNext
    obtain ⟨sameStates, annotates, current, isCurrent, added⟩ :=
      UnitFlagState.annotateAt_ok isAnnotated
    have sameGet : ∀ block, annotated.get block = state.get block := by
      intro block
      rw [UnitFlagState.get, sameStates, UnitFlagState.get]
    refine tracks.advance ?_ ?_ ?_
    · rw [UnitFlagState.update_tasks]
      exact annotates
    · intro block
      have updated := UnitFlagState.get_update annotated touched
        (fun old => { old with writer := if release then some index else none }) (fun _ => rfl)
        block
      rw [updated, sameGet, found, Option.bind_some, BridgeTask.useOn_eq isUse whole]
      by_cases isTouched : block ∈ touched
      · have isWritable := noWriter block isTouched
        cases release with
        | true => simp [isTouched, BlockState.step, isWritable]
        | false =>
          have unchanged : { state.get block with writer := none } = state.get block := by
            rw [← isWritable]
          simp [isTouched, BlockState.step, isWritable, unchanged]
      · simp [isTouched]
    · intro last isLast block use source awaited isUseOn isSource isAwaited
      rw [UnitFlagState.update_tasks, isCurrent] at isLast
      cases isLast
      obtain ⟨original, isOriginal, sameKey, _⟩ :=
        (tracks.annotates.trans annotates).of_after isCurrent
      rw [found] at isOriginal
      cases isOriginal
      rw [BridgeTask.useOn_congr sameKey, BridgeTask.useOn_eq isUse whole] at isUseOn
      by_cases isTouched : block ∈ touched
      · rw [if_pos isTouched] at isUseOn
        cases isUseOn
        have isClear : (state.get block).clear = some source := by
          cases release <;> exact isSource
        rw [← tracks.idAt_eq isAwaited]
        exact added (List.mem_map_of_mem (List.mem_filterMap.mpr ⟨block, isTouched, isClear⟩))
      · rw [if_neg isTouched] at isUseOn
        cases isUseOn

theorem UnitFlagState.foldlM_annotateAt_ok {role : UnitFlagUse} {peers : List TaskId}
    (succeeds :
      writers.foldlM (fun current writer => current.annotateAt writer role [] peers) state =
        .ok next) :
    next.states = state.states ∧ Annotates state.tasks next.tasks := by
  induction writers generalizing state with
  | nil =>
    cases succeeds
    exact ⟨rfl, Annotates.refl _⟩
  | cons writer rest ih =>
    rw [List.foldlM_cons] at succeeds
    obtain ⟨annotated, isAnnotated, restSucceeds⟩ := exceptBind_eq_ok.mp succeeds
    obtain ⟨sameStates, annotates, _⟩ := UnitFlagState.annotateAt_ok isAnnotated
    obtain ⟨restStates, restAnnotates⟩ := ih restSucceeds
    exact ⟨restStates.trans sameStates, annotates.trans restAnnotates⟩

section

variable (tracks : Tracks bridge coreId tasks index state) (found : tasks[index]? = some entry)
include tracks found

theorem Tracks.clearBlocks (isUse : entry.unitFlagUse? = some (.consume, region))
    (whole : bridge.blocks coreId region = .ok touched)
    (succeeds : state.clearBlocks index touched = .ok next) :
    Tracks bridge coreId tasks (index + 1) next := by
  unfold UnitFlagState.clearBlocks at succeeds
  split at succeeds
  · cases succeeds
  · rename_i readable
    have hasWriter : ∀ block ∈ touched, (state.get block).writer.isNone = false := by
      intro block isTouched
      by_contra isWriter
      exact readable (List.any_eq_true.mpr ⟨block, isTouched, by simpa using isWriter⟩)
    simp only at succeeds
    generalize isWriters :
      ((touched.filterMap fun block => (state.get block).writer).dedup).insertionSort (· ≤ ·) =
        writers at succeeds
    obtain ⟨consumer, isConsumer, rest⟩ := exceptBind_eq_ok.mp succeeds
    obtain ⟨annotated, isAnnotated, isNext⟩ := exceptBind_eq_ok.mp rest
    cases isNext
    obtain ⟨consumerStates, consumerAnnotates, current, isCurrent, added⟩ :=
      UnitFlagState.annotateAt_ok isConsumer
    obtain ⟨sameStates, annotates⟩ := UnitFlagState.foldlM_annotateAt_ok isAnnotated
    have sameGet : ∀ block, annotated.get block = state.get block := by
      intro block
      rw [UnitFlagState.get, sameStates, consumerStates, UnitFlagState.get]
    refine tracks.advance ?_ ?_ ?_
    · rw [UnitFlagState.update_tasks]
      exact consumerAnnotates.trans annotates
    · intro block
      have updated := UnitFlagState.get_update annotated touched
        (fun _ => { writer := none, clear := some index }) (fun _ => rfl) block
      rw [updated, sameGet, found, Option.bind_some, BridgeTask.useOn_eq isUse whole]
      by_cases isTouched : block ∈ touched
      · simp [isTouched, BlockState.step, hasWriter block isTouched]
      · simp [isTouched]
    · intro last isLast block use source awaited isUseOn isSource isAwaited
      rw [UnitFlagState.update_tasks] at isLast
      obtain ⟨middle, isMiddle, lastKey, kept⟩ := annotates.of_after isLast
      rw [isCurrent] at isMiddle
      cases isMiddle
      obtain ⟨original, isOriginal, sameKey, _⟩ :=
        (tracks.annotates.trans consumerAnnotates).of_after isCurrent
      rw [found] at isOriginal
      cases isOriginal
      rw [BridgeTask.useOn_congr (lastKey.trans sameKey), BridgeTask.useOn_eq isUse whole]
        at isUseOn
      by_cases isTouched : block ∈ touched
      · rw [if_pos isTouched] at isUseOn
        cases isUseOn
        rw [← tracks.idAt_eq isAwaited]
        refine kept (added (List.mem_map_of_mem ?_))
        rw [← isWriters, List.mem_insertionSort, List.mem_dedup]
        exact List.mem_filterMap.mpr ⟨block, isTouched, isSource⟩
      · rw [if_neg isTouched] at isUseOn
        cases isUseOn

theorem Tracks.useAt_eq :
    (state.tasks[index]?).bind BridgeTask.unitFlagUse? = entry.unitFlagUse? := by
  have sameKey := tracks.annotates.key_at index
  rw [found] at sameKey
  obtain ⟨current, isCurrent, isKey⟩ := Option.map_eq_some_iff.mp sameKey
  rw [isCurrent, Option.bind_some]
  exact congrArg Prod.snd isKey

theorem Tracks.validateUnitFlagTask
    (succeeds : validateUnitFlagTask bridge coreId state index = .ok next) :
    Tracks bridge coreId tasks (index + 1) next ∧
      ∀ use ∈ entry.unitFlagUse?, ∃ touched, bridge.blocks coreId use.2 = .ok touched := by
  unfold Simulator.validateUnitFlagTask at succeeds
  rw [tracks.useAt_eq found] at succeeds
  cases isUse : entry.unitFlagUse? with
  | none =>
    rw [isUse] at succeeds
    cases succeeds
    have unused : ∀ block, entry.useOn bridge coreId block = none := by
      intro block
      simp [BridgeTask.useOn, isUse]
    refine ⟨tracks.advance (Annotates.refl _) ?_ ?_, by simp⟩
    · intro block
      rw [found, Option.bind_some, unused block]
    · intro last isLast block use source awaited isUseOn
      obtain ⟨original, isOriginal, sameKey, _⟩ := tracks.annotates.of_after isLast
      rw [found] at isOriginal
      cases isOriginal
      rw [BridgeTask.useOn_congr sameKey, unused block] at isUseOn
      cases isUseOn
  | some branch =>
    obtain ⟨use, region⟩ := branch
    have onlyUse :
        (∃ touched, bridge.blocks coreId region = .ok touched) →
        ∀ other ∈ some (use, region), ∃ touched, bridge.blocks coreId other.2 = .ok touched := by
      rintro whole other isOther
      cases isOther
      exact whole
    rw [isUse] at succeeds
    cases use with
    | hold =>
      obtain ⟨touched, whole, rest⟩ := exceptBind_eq_ok.mp succeeds
      exact ⟨tracks.writeBlocks found (by simpa using isUse) whole rest, onlyUse ⟨touched, whole⟩⟩
    | release =>
      obtain ⟨touched, whole, rest⟩ := exceptBind_eq_ok.mp succeeds
      exact ⟨tracks.writeBlocks found (by simpa using isUse) whole rest, onlyUse ⟨touched, whole⟩⟩
    | consume =>
      obtain ⟨touched, whole, rest⟩ := exceptBind_eq_ok.mp succeeds
      exact ⟨tracks.clearBlocks found isUse whole rest, onlyUse ⟨touched, whole⟩⟩

end

/-! ## Allowed uses are accepted -/

theorem Tracks.idAt_ne (tracks : Tracks bridge coreId tasks index state)
    (distinct : (tasks.map fun entry => entry.task.taskId).Nodup)
    (inside : index < tasks.length) (earlier : source < index) :
    state.idAt index ≠ state.idAt source := by
  have sourceInside : source < tasks.length := Nat.lt_trans earlier inside
  rw [tracks.idAt_eq (List.getElem?_eq_getElem inside),
    tracks.idAt_eq (List.getElem?_eq_getElem sourceInside)]
  intro same
  have sameIndex : index = source := by
    refine (List.getElem?_inj (by simpa using inside) distinct).mp ?_
    simp [List.getElem?_eq_getElem inside, List.getElem?_eq_getElem sourceInside, same]
  omega

theorem BlockState.readable_of_step {before : BlockState}
    (allowed : (before.step index use).isSome) :
    before.writer.isSome = decide (use = .consume) := by
  cases use <;> cases ready : before.writer <;> simp [BlockState.step, ready] at allowed ⊢

theorem Tracks.writeBlocks_total (tracks : Tracks bridge coreId tasks index state)
    (distinct : (tasks.map fun entry => entry.task.taskId).Nodup)
    (inside : index < tasks.length) (release : Bool)
    (writable : ∀ block ∈ touched, (state.get block).writer = none) :
    ∃ next, state.writeBlocks index release touched = .ok next := by
  have allWritable : ¬ (touched.any fun block => (state.get block).writer.isSome) = true := by
    intro anyReadable
    obtain ⟨block, isTouched, isReadable⟩ := List.any_eq_true.mp anyReadable
    rw [writable block isTouched] at isReadable
    cases isReadable
  have others :
      state.idAt index ∉
        (touched.filterMap fun block => (state.get block).clear).map state.idAt := by
    intro member
    obtain ⟨source, isSource, same⟩ := List.mem_map.mp member
    obtain ⟨block, _, isClear⟩ := List.mem_filterMap.mp isSource
    have earlier := (blockStateAt_below (tracks.states block)).2 source isClear
    exact tracks.idAt_ne distinct inside earlier same.symm
  obtain ⟨annotated, isAnnotated⟩ :=
    UnitFlagState.annotateAt_total (if release then .release else .hold) []
      (tracks.annotates.length_eq ▸ inside) others
  unfold UnitFlagState.writeBlocks
  rw [if_neg allWritable]
  simp only [isAnnotated]
  exact ⟨_, rfl⟩

theorem UnitFlagState.foldlM_annotateAt_total (role : UnitFlagUse) (peers : List TaskId)
    (inside : ∀ writer ∈ writers, writer < state.tasks.length) :
    ∃ next,
      writers.foldlM (fun current writer => current.annotateAt writer role [] peers) state =
        .ok next := by
  induction writers generalizing state with
  | nil => exact ⟨state, rfl⟩
  | cons writer rest ih =>
    obtain ⟨annotated, isAnnotated⟩ :=
      UnitFlagState.annotateAt_total role peers (inside writer List.mem_cons_self)
        (List.not_mem_nil)
    obtain ⟨_, annotates, _⟩ := UnitFlagState.annotateAt_ok isAnnotated
    rw [List.foldlM_cons, isAnnotated]
    refine ih fun other isOther => ?_
    rw [annotates.length_eq]
    exact inside other (List.mem_cons_of_mem _ isOther)

theorem Tracks.clearBlocks_total (tracks : Tracks bridge coreId tasks index state)
    (distinct : (tasks.map fun entry => entry.task.taskId).Nodup) (inside : index < tasks.length)
    (readable : ∀ block ∈ touched, (state.get block).writer.isSome) :
    ∃ next, state.clearBlocks index touched = .ok next := by
  have allReadable : ¬ (touched.any fun block => (state.get block).writer.isNone) = true := by
    intro anyWritable
    obtain ⟨block, isTouched, isWritable⟩ := List.any_eq_true.mp anyWritable
    have isReadable := readable block isTouched
    rw [Option.isNone_iff_eq_none.mp isWritable] at isReadable
    cases isReadable
  unfold UnitFlagState.clearBlocks
  rw [if_neg allReadable]
  simp only
  generalize isWriters :
    ((touched.filterMap fun block => (state.get block).writer).dedup).insertionSort (· ≤ ·) =
      writers
  have earlier : ∀ writer ∈ writers, writer < index := by
    intro writer isWriter
    rw [← isWriters, List.mem_insertionSort, List.mem_dedup] at isWriter
    obtain ⟨block, _, ofBlock⟩ := List.mem_filterMap.mp isWriter
    exact (blockStateAt_below (tracks.states block)).1 writer ofBlock
  have others : state.idAt index ∉ writers.map state.idAt := by
    intro member
    obtain ⟨source, isSource, same⟩ := List.mem_map.mp member
    exact tracks.idAt_ne distinct inside (earlier source isSource) same.symm
  obtain ⟨consumer, isConsumer⟩ :=
    UnitFlagState.annotateAt_total .consume (writers.map state.idAt)
      (tracks.annotates.length_eq ▸ inside) others
  obtain ⟨_, annotates, _⟩ := UnitFlagState.annotateAt_ok isConsumer
  have writersInside : ∀ writer ∈ writers, writer < consumer.tasks.length := by
    intro writer isWriter
    rw [annotates.length_eq, tracks.annotates.length_eq]
    exact Nat.lt_trans (earlier writer isWriter) inside
  obtain ⟨annotated, isAnnotated⟩ :=
    UnitFlagState.foldlM_annotateAt_total .release [state.idAt index] writersInside
  exact ⟨_, exceptBind_eq_ok.mpr ⟨consumer, isConsumer,
    exceptBind_eq_ok.mpr ⟨annotated, isAnnotated, rfl⟩⟩⟩

theorem Tracks.validateUnitFlagTask_total (tracks : Tracks bridge coreId tasks index state)
    (distinct : (tasks.map fun entry => entry.task.taskId).Nodup)
    (found : tasks[index]? = some entry)
    (whole : ∀ use ∈ entry.unitFlagUse?, ∃ touched, bridge.blocks coreId use.2 = .ok touched)
    (allowed : ∀ block, (blockStateAt bridge coreId tasks block (index + 1)).isSome) :
    ∃ next, Simulator.validateUnitFlagTask bridge coreId state index = .ok next := by
  have inside : index < tasks.length := (List.getElem?_eq_some_iff.mp found).1
  unfold Simulator.validateUnitFlagTask
  rw [tracks.useAt_eq found]
  cases isUse : entry.unitFlagUse? with
  | none => exact ⟨state, rfl⟩
  | some branch =>
    obtain ⟨use, region⟩ := branch
    obtain ⟨touched, isTouched⟩ := whole (use, region) isUse
    have steps : ∀ block ∈ touched, ((state.get block).step index use).isSome := by
      intro block member
      have isAllowed := allowed block
      rw [blockStateAt, tracks.states block, Option.bind_some, found, Option.bind_some,
        BridgeTask.useOn_eq isUse isTouched, if_pos member] at isAllowed
      exact isAllowed
    cases use with
    | hold =>
      obtain ⟨next, isNext⟩ := tracks.writeBlocks_total distinct inside false
        fun block member => by simpa using BlockState.readable_of_step (steps block member)
      exact ⟨next, exceptBind_eq_ok.mpr ⟨touched, isTouched, isNext⟩⟩
    | release =>
      obtain ⟨next, isNext⟩ := tracks.writeBlocks_total distinct inside true
        fun block member => by simpa using BlockState.readable_of_step (steps block member)
      exact ⟨next, exceptBind_eq_ok.mpr ⟨touched, isTouched, isNext⟩⟩
    | consume =>
      obtain ⟨next, isNext⟩ := tracks.clearBlocks_total distinct inside
        fun block member => by simpa using BlockState.readable_of_step (steps block member)
      exact ⟨next, exceptBind_eq_ok.mpr ⟨touched, isTouched, isNext⟩⟩

end Advance

/-! ## The validation of a core -/

theorem tracks_of_foldlM {state : UnitFlagState} (inside : index ≤ tasks.length)
    (succeeds :
      (List.range index).foldlM (validateUnitFlagTask bridge coreId) { tasks := tasks } =
        .ok state) :
    Tracks bridge coreId tasks index state ∧
      ∀ entry ∈ tasks.take index,
        ∀ use ∈ entry.unitFlagUse?, ∃ touched, bridge.blocks coreId use.2 = .ok touched := by
  induction index generalizing state with
  | zero =>
    cases succeeds
    exact ⟨tracks_initial, by simp⟩
  | succ index ih =>
    rw [List.range_succ, List.foldlM_append] at succeeds
    obtain ⟨before, isBefore, last⟩ := exceptBind_eq_ok.mp succeeds
    rw [List.foldlM_cons] at last
    obtain ⟨next, isNext, isState⟩ := exceptBind_eq_ok.mp last
    cases isState
    obtain ⟨tracks, wholeBefore⟩ := ih (by omega) isBefore
    have found : tasks[index]? = some tasks[index] := List.getElem?_eq_getElem (by omega)
    obtain ⟨advanced, whole⟩ := tracks.validateUnitFlagTask found isNext
    refine ⟨advanced, ?_⟩
    intro entry member
    rw [List.take_add_one, found] at member
    rcases List.mem_append.mp member with isEarlier | isLast
    · exact wholeBefore entry isEarlier
    · rw [Option.toList_some, List.mem_singleton] at isLast
      rw [isLast]
      exact whole

theorem blockStateAt_isSome_of_succ
    (reached : (blockStateAt bridge coreId tasks block (index + 1)).isSome) :
    (blockStateAt bridge coreId tasks block index).isSome := by
  obtain ⟨after, isAfter⟩ := Option.isSome_iff_exists.mp reached
  obtain ⟨before, isBefore, _⟩ := Option.bind_eq_some_iff.mp isAfter
  rw [isBefore]
  rfl

theorem foldlM_total (distinct : (tasks.map fun entry => entry.task.taskId).Nodup)
    (whole : WholeBlocks bridge coreId tasks) (inside : index ≤ tasks.length)
    (allowed : ∀ block, (blockStateAt bridge coreId tasks block index).isSome) :
    ∃ state,
      (List.range index).foldlM (validateUnitFlagTask bridge coreId) { tasks := tasks } =
        .ok state := by
  induction index with
  | zero => exact ⟨_, rfl⟩
  | succ index ih =>
    obtain ⟨before, isBefore⟩ :=
      ih (by omega) fun block => blockStateAt_isSome_of_succ (allowed block)
    obtain ⟨tracks, _⟩ := tracks_of_foldlM (by omega) isBefore
    have found : tasks[index]? = some tasks[index] := List.getElem?_eq_getElem (by omega)
    obtain ⟨next, isNext⟩ :=
      tracks.validateUnitFlagTask_total distinct found
        (whole _ (List.getElem_mem (by omega))) allowed
    refine ⟨next, ?_⟩
    rw [List.range_succ, List.foldlM_append]
    exact exceptBind_eq_ok.mpr ⟨before, isBefore, exceptBind_eq_ok.mpr ⟨next, isNext, rfl⟩⟩

theorem UnitFlagState.unmatched_eq_nil {state : UnitFlagState} :
    state.unmatched = [] ↔ ∀ block, (state.get block).writer = none := by
  have isNil : state.unmatched = [] ↔ ∀ entry ∈ state.states.entries, entry.2.writer = none := by
    rw [UnitFlagState.unmatched, ← List.length_eq_zero_iff, List.length_insertionSort,
      List.length_eq_zero_iff, List.dedup_eq_nil, List.map_eq_nil_iff, List.filterMap_eq_nil_iff]
  rw [isNil]
  constructor
  · intro noWriter block
    unfold UnitFlagState.get
    cases found : state.states.lookup block with
    | none => rfl
    | some value => exact noWriter ⟨block, value⟩ (AList.mem_lookup_iff.mp found)
  · rintro noWriter ⟨block, value⟩ member
    have isWritable := noWriter block
    rw [UnitFlagState.get, AList.mem_lookup_iff.mpr member] at isWritable
    exact isWritable

/-- Every block is used in rounds, in regions of complete blocks. -/
structure UnitFlagProtocol
    (bridge : BridgeBuffers)
    (coreId : Nat)
    (tasks : List BridgeTask) :
    Prop where
  whole : WholeBlocks bridge coreId tasks
  rounds : ∀ block, ∃ openHolds, Rounds openHolds (blockUses bridge coreId tasks block)

theorem exists_rounds_iff_blockStateAt :
    (∃ openHolds, Rounds openHolds (blockUses bridge coreId tasks block)) ↔
      ∃ state,
        blockStateAt bridge coreId tasks block tasks.length = some state ∧ state.writer = none := by
  rw [exists_rounds_iff]
  have readable := @blockStateAt_readable bridge coreId tasks block tasks.length
  rw [List.take_length] at readable
  rw [← readable]
  simp

theorem validateUnitFlagCore_accepts_iff
    (distinct : (tasks.map fun entry => entry.task.taskId).Nodup) :
    (∃ annotated, validateUnitFlagCore bridge coreId tasks = .ok annotated) ↔
      UnitFlagProtocol bridge coreId tasks := by
  constructor
  · rintro ⟨annotated, accepts⟩
    obtain ⟨final, isFinal, matched⟩ := exceptBind_eq_ok.mp accepts
    obtain ⟨tracks, whole⟩ := tracks_of_foldlM (le_refl _) isFinal
    rw [List.take_length] at whole
    split at matched
    · rename_i noneUnmatched
      refine ⟨whole, fun block => exists_rounds_iff_blockStateAt.mpr ?_⟩
      exact ⟨final.get block, tracks.states block,
        UnitFlagState.unmatched_eq_nil.mp noneUnmatched block⟩
    · cases matched
  · intro protocol
    have states := fun block => exists_rounds_iff_blockStateAt.mp (protocol.rounds block)
    obtain ⟨final, isFinal⟩ :=
      foldlM_total distinct protocol.whole (le_refl _) fun block => by
        obtain ⟨state, isState, _⟩ := states block
        rw [isState]
        rfl
    obtain ⟨tracks, _⟩ := tracks_of_foldlM (le_refl _) isFinal
    have noneUnmatched : final.unmatched = [] := by
      refine UnitFlagState.unmatched_eq_nil.mpr fun block => ?_
      obtain ⟨state, isState, isWritable⟩ := states block
      rw [tracks.states block] at isState
      cases isState
      exact isWritable
    refine ⟨final.tasks, exceptBind_eq_ok.mpr ⟨final, isFinal, ?_⟩⟩
    rw [if_pos noneUnmatched]
    rfl

/-! ## Order in schedules -/

/-- Order of the tasks that use a block, in a schedule. -/
structure UnitFlagOrder
    (bridge : BridgeBuffers)
    (coreId : Nat)
    (tasks : List BridgeTask)
    (completed : Completed) :
    Prop where
  /-- A fixpipe starts after the MMA that released a block that it reads. -/
  readsReleased :
    ∀ (block : L0cBlock) (first second : Nat) (mma fixpipe : BridgeTask), first < second →
      tasks[first]? = some mma →
      tasks[second]? = some fixpipe →
      mma.useOn bridge coreId block = some .release →
      fixpipe.useOn bridge coreId block = some .consume →
      (∀ between entry, first < between → between < second →
        tasks[between]? = some entry →
        entry.useOn bridge coreId block = none) →
      EndsBefore completed mma.task.taskId fixpipe.task.taskId
  /-- An MMA on a block starts after the fixpipe that cleared the block. -/
  reopensCleared :
    ∀ (block : L0cBlock) (first second : Nat) (fixpipe mma : BridgeTask) (use : UnitFlagUse),
      first < second →
      tasks[first]? = some fixpipe →
      tasks[second]? = some mma →
      fixpipe.useOn bridge coreId block = some .consume →
      mma.useOn bridge coreId block = some use →
      use ≠ .consume →
      (∀ between entry, first < between → between < second →
        tasks[between]? = some entry →
        entry.useOn bridge coreId block ≠ some .consume) →
      EndsBefore completed fixpipe.task.taskId mma.task.taskId

theorem writer_of_released {mma : BridgeTask} (before : first < second)
    (found : tasks[first]? = some mma) (released : mma.useOn bridge coreId block = some .release)
    (unused :
      ∀ between entry, first < between → between < second →
        tasks[between]? = some entry →
        entry.useOn bridge coreId block = none)
    (reached : blockStateAt bridge coreId tasks block second = some state) :
    state.writer = some first := by
  induction second generalizing state with
  | zero =>
    cases before
  | succ second ih =>
    obtain ⟨earlier, isEarlier, stepped⟩ := Option.bind_eq_some_iff.mp reached
    rcases Nat.lt_succ_iff_lt_or_eq.mp before with below | same
    · have stillWriter :=
        ih below
          (fun between entry above isBelow => unused between entry above (by omega)) isEarlier
      have noUse : (tasks[second]?).bind (BridgeTask.useOn bridge coreId block) = none := by
        cases isEntry : tasks[second]? with
        | none => rfl
        | some entry => exact unused second entry below (Nat.lt_succ_self _) isEntry
      rw [noUse] at stepped
      cases stepped
      exact stillWriter
    · subst same
      rw [found, Option.bind_some, released] at stepped
      simp only [BlockState.step] at stepped
      split at stepped
      · cases stepped
      · cases stepped
        rfl

theorem clear_of_consumed {fixpipe : BridgeTask} (before : first < second)
    (found : tasks[first]? = some fixpipe)
    (consumed : fixpipe.useOn bridge coreId block = some .consume)
    (notConsumed :
      ∀ between entry, first < between → between < second →
        tasks[between]? = some entry →
        entry.useOn bridge coreId block ≠ some .consume)
    (reached : blockStateAt bridge coreId tasks block second = some state) :
    state.clear = some first := by
  induction second generalizing state with
  | zero =>
    cases before
  | succ second ih =>
    obtain ⟨earlier, isEarlier, stepped⟩ := Option.bind_eq_some_iff.mp reached
    rcases Nat.lt_succ_iff_lt_or_eq.mp before with below | same
    · have stillClear :=
        ih below
          (fun between entry above isBelow => notConsumed between entry above (by omega))
          isEarlier
      split at stepped
      · cases stepped
        exact stillClear
      · rename_i use isUse
        obtain ⟨entry, isEntry, ofEntry⟩ := Option.bind_eq_some_iff.mp isUse
        have notHere := notConsumed second entry below (Nat.lt_succ_self _) isEntry
        cases use with
        | hold =>
          simp only [BlockState.step] at stepped
          split at stepped
          · cases stepped
          · cases stepped
            exact stillClear
        | release =>
          simp only [BlockState.step] at stepped
          split at stepped
          · cases stepped
          · cases stepped
            exact stillClear
        | consume => exact absurd ofEntry notHere
    · subst same
      rw [found, Option.bind_some, consumed] at stepped
      simp only [BlockState.step] at stepped
      split at stepped
      · cases stepped
      · cases stepped
        rfl

theorem unitFlagOrder_of_valid {annotated : List BridgeTask} {program : KernelProgram}
    {result : ScheduleResult} (accepts : validateUnitFlagCore bridge coreId tasks = .ok annotated)
    (inProgram : ∀ entry ∈ annotated, entry.task ∈ program.tasks)
    (valid : ValidSchedule program result) :
    UnitFlagOrder bridge coreId tasks result.operation? := by
  obtain ⟨final, isFinal, matched⟩ := exceptBind_eq_ok.mp accepts
  obtain ⟨tracks, _⟩ := tracks_of_foldlM (le_refl _) isFinal
  have isAnnotated : final.tasks = annotated := by
    split at matched
    · cases matched
      rfl
    · cases matched
  -- a recorded edge is an execution dependency of the annotated task
  have ordered :
      ∀ (block : L0cBlock) (source index : Nat) (awaited entry : BridgeTask) (use : UnitFlagUse)
        (before : BlockState),
        tasks[source]? = some awaited →
        tasks[index]? = some entry →
        entry.useOn bridge coreId block = some use →
        blockStateAt bridge coreId tasks block index = some before →
        before.awaited use = some source →
        EndsBefore result.operation? awaited.task.taskId entry.task.taskId := by
    intro block source index awaited entry use before isAwaited found isUse isBefore isSource
    have inside : index < tasks.length := (List.getElem?_eq_some_iff.mp found).1
    have sameKey := tracks.annotates.key_at index
    rw [found] at sameKey
    obtain ⟨current, isCurrent, isKey⟩ := Option.map_eq_some_iff.mp sameKey
    rw [← BridgeTask.useOn_congr isKey] at isUse
    have isEdge :=
      tracks.edges index inside current isCurrent block use before source awaited isUse isBefore
        isSource isAwaited
    have isDependency : awaited.task.taskId ∈ executionDependencies current.task := by
      refine List.mem_filter.mpr ⟨current.hardwareDeclared isEdge, ?_⟩
      simp [isEdge]
    have isTask : current.task ∈ program.tasks :=
      inProgram current (isAnnotated ▸ List.mem_of_getElem? isCurrent)
    have sameId : current.task.taskId = entry.task.taskId := congrArg Prod.fst isKey
    rw [← sameId]
    exact valid.dependencies current.task isTask _ isDependency
  have stateAt : ∀ block index, index ≤ tasks.length →
      ∃ state, blockStateAt bridge coreId tasks block index = some state := by
    intro block index inside
    refine Nat.decreasingInduction ?_ ⟨_, tracks.states block⟩ inside
    intro position _ later
    exact Option.isSome_iff_exists.mp
      (blockStateAt_isSome_of_succ (Option.isSome_iff_exists.mpr later))
  refine ⟨?_, ?_⟩
  · intro block first second mma fixpipe before isFirst isSecond released consumed unused
    obtain ⟨state, reached⟩ :=
      stateAt block second (Nat.le_of_lt (List.getElem?_eq_some_iff.mp isSecond).1)
    exact ordered block first second mma fixpipe .consume state isFirst isSecond consumed reached
      (writer_of_released before isFirst released unused reached)
  · intro block first second fixpipe mma use before isFirst isSecond consumed isUse notConsume
      notConsumed
    obtain ⟨state, reached⟩ :=
      stateAt block second (Nat.le_of_lt (List.getElem?_eq_some_iff.mp isSecond).1)
    have isClear := clear_of_consumed before isFirst consumed notConsumed reached
    refine ordered block first second fixpipe mma use state isFirst isSecond isUse reached ?_
    cases use with
    | hold => exact isClear
    | release => exact isClear
    | consume => exact absurd rfl notConsume

end Core

/-! ## All cores -/

/--
The bridge accepts a program exactly if every block of L0C is used in rounds, and in every
completed schedule of an accepted program the tasks of each round wait for each other.
-/
theorem unitFlag_accepted_iff_and_ordered
    (bridge : BridgeBuffers)
    (cores : List (Nat × List BridgeTask))
    (distinct : ∀ core ∈ cores, (core.2.map fun entry => entry.task.taskId).Nodup) :
    ((∃ annotated, validateUnitFlagPairs bridge cores = .ok annotated) ↔
      ∀ core ∈ cores, UnitFlagProtocol bridge core.1 core.2) ∧
    ∀ (annotated : List (Nat × List BridgeTask)) (program : KernelProgram),
      validateUnitFlagPairs bridge cores = .ok annotated →
      program.cores.map (fun core => (core.coreId, core.tasks)) =
        annotated.map (fun core => (core.1, core.2.map BridgeTask.task)) →
      ∀ (σ : Type) (model : SynchronizationModel σ) (config : SimulatorConfig)
        (result : ScheduleResult),
        run model config program = .ok result →
        ∀ core ∈ cores, UnitFlagOrder bridge core.1 core.2 result.operation? := by
  constructor
  · unfold validateUnitFlagPairs
    rw [exists_exceptMapM_eq_ok]
    refine forall₂_congr fun core isCore => ?_
    rw [← validateUnitFlagCore_accepts_iff (distinct core isCore)]
    constructor
    · rintro ⟨result, succeeds⟩
      obtain ⟨annotated, isAnnotated, _⟩ := exceptBind_eq_ok.mp succeeds
      exact ⟨annotated, isAnnotated⟩
    · rintro ⟨annotated, isAnnotated⟩
      exact ⟨(core.1, annotated), exceptBind_eq_ok.mpr ⟨annotated, isAnnotated, rfl⟩⟩
  · intro annotated program accepts sameCores σ model config result completes core isCore
    obtain ⟨log, state, fired, complete, rfl⟩ := run_fires completes
    have valid := fired.validSchedule complete
    obtain ⟨validated, isValidated, succeeds⟩ := exists_result_of_mem accepts isCore
    obtain ⟨tasks, isTasks, isPair⟩ := exceptBind_eq_ok.mp succeeds
    cases isPair
    refine unitFlagOrder_of_valid isTasks ?_ valid
    intro entry isEntry
    have inCores :
        (core.1, tasks.map BridgeTask.task) ∈
          program.cores.map fun other => (other.coreId, other.tasks) := by
      rw [sameCores]
      exact List.mem_map.mpr ⟨_, isValidated, rfl⟩
    obtain ⟨programCore, isProgramCore, isSame⟩ := List.mem_map.mp inCores
    have sameTasks : programCore.tasks = tasks.map BridgeTask.task := congrArg Prod.snd isSame
    refine List.mem_flatMap.mpr ⟨programCore, isProgramCore, ?_⟩
    rw [sameTasks]
    exact List.mem_map_of_mem isEntry

/-- A region of 32-bit elements of an L0C buffer. -/
def l0cRegion (byteOffset elements : Nat) : BufferRegion where
  buffer := "c"
  scope := .l0c
  shape := [elements]
  dtype := .numeric 32 1 wholeBytes_32
  byteOffset := byteOffset
  stridesRank := noStrides_rank elements

/-- An L0C buffer of four blocks without a planned address. -/
def fourBlocks : BridgeBuffers where
  buffers _ := { shape := [some 512], dtype := .numeric 32 1 wholeBytes_32 }

/-- One MMA that holds two blocks, which no later task releases. -/
def heldBlocks : List BridgeTask :=
  [{ task :=
      { taskId := "0", operation := .other "mma", coreId := 0, lane := .cube, pipe := .m,
        durationCycles := 10 }
     mmaUnitFlag := some 2
     dst := l0cRegion 0 256 }]

/-- Held blocks are accepted although their writes do not end in a releasing MMA. -/
theorem heldBlocks_accepted :
    (validateUnitFlagCore fourBlocks 0 heldBlocks).toOption.isSome ∧
      ¬ ∀ (bridge : BridgeBuffers) (coreId : Nat) (tasks annotated : List BridgeTask),
          (tasks.map fun entry => entry.task.taskId).Nodup →
          validateUnitFlagCore bridge coreId tasks = .ok annotated →
          ∀ block, Rounds 0 (blockUses bridge coreId tasks block) := by
  have accepted : (validateUnitFlagCore fourBlocks 0 heldBlocks).toOption.isSome := by
    decide +kernel
  refine ⟨accepted, ?_⟩
  intro inRounds
  obtain ⟨annotated, isAnnotated⟩ := Option.isSome_iff_exists.mp accepted
  have accepts : validateUnitFlagCore fourBlocks 0 heldBlocks = .ok annotated := by
    cases outcome : validateUnitFlagCore fourBlocks 0 heldBlocks with
    | error failure =>
      rw [outcome] at isAnnotated
      cases isAnnotated
    | ok tasks =>
      rw [outcome] at isAnnotated
      cases isAnnotated
      rfl
  have rounds := inRounds fourBlocks 0 heldBlocks annotated (by decide) accepts ⟨.buffer "c", 0⟩
  have uses : blockUses fourBlocks 0 heldBlocks ⟨.buffer "c", 0⟩ = [.hold] := by
    decide +kernel
  generalize blockUses fourBlocks 0 heldBlocks ⟨.buffer "c", 0⟩ = word at rounds uses
  cases rounds with
  | finish =>
    cases uses
  | round holds rest =>
    have lengths := congrArg List.length uses
    simp only [List.length_append, List.length_replicate, List.length_cons, List.length_nil]
      at lengths
    omega

/-- One wide MMA that two fixpipes read, and a second MMA that reuses the blocks. -/
def wideThenReused : List BridgeTask :=
  [{ task :=
      { taskId := "0", operation := .other "mma", coreId := 0, lane := .cube, pipe := .m,
        durationCycles := 10 }
     mmaUnitFlag := some 3
     dst := l0cRegion 0 512 },
    { task :=
      { taskId := "1", operation := .other "copy_l0c_to_gm", coreId := 0, lane := .cube,
        pipe := .fix, durationCycles := 10 }
      copyUnitFlag := some 3
      src := l0cRegion 0 256 },
    { task :=
      { taskId := "2", operation := .other "copy_l0c_to_gm", coreId := 0, lane := .cube,
        pipe := .fix, durationCycles := 10 }
      copyUnitFlag := some 3
      src := l0cRegion 1024 256 },
    { task :=
      { taskId := "3", operation := .other "mma", coreId := 0, lane := .cube, pipe := .m,
        durationCycles := 10 }
      mmaUnitFlag := some 3
      dst := l0cRegion 0 512 },
    { task :=
      { taskId := "4", operation := .other "copy_l0c_to_gm", coreId := 0, lane := .cube,
        pipe := .fix, durationCycles := 10 }
      copyUnitFlag := some 3
      src := l0cRegion 0 512 }]

/-- The reused blocks are accepted, so every block of them is used in rounds. -/
theorem wideThenReused_inRounds :
    (∃ annotated, validateUnitFlagPairs fourBlocks [(0, wideThenReused)] = .ok annotated) ∧
      ∀ core ∈ [(0, wideThenReused)], UnitFlagProtocol fourBlocks core.1 core.2 := by
  have accepted : (validateUnitFlagPairs fourBlocks [(0, wideThenReused)]).toOption.isSome := by
    decide +kernel
  have accepts :
      ∃ annotated, validateUnitFlagPairs fourBlocks [(0, wideThenReused)] = .ok annotated := by
    cases outcome : validateUnitFlagPairs fourBlocks [(0, wideThenReused)] with
    | error failure =>
      rw [outcome] at accepted
      cases accepted
    | ok annotated => exact ⟨annotated, rfl⟩
  exact ⟨accepts,
    (unitFlag_accepted_iff_and_ordered fourBlocks [(0, wideThenReused)] (by decide)).1.mp
      accepts⟩

end TilelangAscend.Simulator
