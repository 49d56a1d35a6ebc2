import TilelangAscend.FenceAgreement

namespace TilelangAscend.SyncInsert

open AbsorbingTransfer
open GraphSearch
open Outstanding
open Simulator (Participant Task allowed_of_check nonempty_of_check positive_of_check)

/-!
# The fence test on straight-line code

Straight-line code has one execution.  The simulator accepts the synchronization of that
execution exactly when every access that an operation has to follow is answered for: the events
inserted since the access lead to the pipeline of the operation, or the operation asks for an
event that completes the way.  A dependency for which `GetEventType` finds no event is not
answered for by itself.
-/

/-! ## Dependencies that are answered for -/

/-- Whether an operation touches a sliced buffer; the pass puts a full barrier before it. -/
def touchesSlice (table : OperationTable) (op : Operation) : Bool :=
  (op.touches table).any Touch.isSliced

/-- Whether an operation has to follow a recorded access. -/
def DependsOn (context : PassContext) (op : Operation) (recorded : BufferAccess) : Prop :=
  ∃ touch ∈ op.touches context.table,
    context.plan.Overlaps recorded.bufferName touch.bufferName ∧
      (recorded.isWrite = true ∨ touch.isWrite = true)

/--
Whether an operation asks for an event from a pipeline and `GetEventMapping` has it: the
operation depends on an access there, and no inserted event leads on from that access.
-/
def AsksEvent (context : PassContext) (history : AccessHistory) (op : Operation)
    (source : Pipeline) : Prop :=
  source ≠ op.pipeline context.table ∧ (source, op.pipeline context.table) ∈ eventMapping ∧
    ∃ name,
      ∃ recorded ∈ history name,
        DependsOn context op recorded ∧ recorded.pipeline = source ∧
          hasPath recorded.syncGraph source (op.pipeline context.table) = false

/--
Whether the events inserted since a recorded access lead to the pipeline of an operation, alone
or together with an event that the operation asks for.
-/
def Answered (context : PassContext) (history : AccessHistory) (op : Operation)
    (recorded : BufferAccess) : Prop :=
  hasPath recorded.syncGraph recorded.pipeline (op.pipeline context.table) = true ∨
    ∃ source,
      hasPath recorded.syncGraph recorded.pipeline source = true ∧
        AsksEvent context history op source

/-- The requirements of an operation, as the visitor inserts them. -/
def requirements (context : PassContext) (history : AccessHistory) (op : Operation) :
    List SyncType :=
  optimizeSyncRequirements
    (collectSyncRequirements context history (operationAccesses context op))

/-- The state of the visitor, and the part of its history made since the last full barrier. -/
structure FencedState where
  visited : PassState
  live : AccessHistory

/-- The state before the first operation. -/
def FencedState.start : FencedState where
  visited := { history := .empty, eventIdCounter := 0 }
  live := .empty

/-- Visit of an operation; a full barrier before it leaves no earlier access to follow. -/
def FencedState.step
    (context : PassContext)
    (state : FencedState)
    (op : Operation) :
    FencedState where
  visited := (visitOperation context state.visited op).2
  live :=
    updateLatestAccessHistory
      (if touchesSlice context.table op then
        .empty
      else
        updateSyncStatesAfterSync state.live (requirements context state.visited.history op))
      (operationAccesses context op)

/--
Every operation of a straight-line sequence has its dependencies on other pipelines answered
for, as far as they were made since the last full barrier.
-/
def DependenciesAnswered
    (context : PassContext) :
    FencedState → List Operation → Prop
  | _, [] => True
  | state, op :: rest =>
    (touchesSlice context.table op = false →
      ∀ name,
        ∀ recorded ∈ state.live name,
          DependsOn context op recorded →
          recorded.pipeline ≠ op.pipeline context.table →
          Answered context state.visited.history op recorded) ∧
      DependenciesAnswered context (state.step context op) rest

/-! ## What an operation asks for -/

section Requirements

variable {context : PassContext} {used : Pipeline → Prop} {history : AccessHistory}
  {op : Operation} {source target : Pipeline} {recorded : BufferAccess} {name : BufferName}

/-- An access whose pipeline has an event for that of the operation is answered for. -/
theorem answered_of_mapped (inHistory : recorded ∈ history name)
    (depends : DependsOn context op recorded)
    (differ : recorded.pipeline ≠ op.pipeline context.table)
    (mapped : (recorded.pipeline, op.pipeline context.table) ∈ eventMapping) :
    Answered context history op recorded := by
  by_cases path : hasPath recorded.syncGraph recorded.pipeline (op.pipeline context.table) = true
  · exact Or.inl path
  · exact Or.inr ⟨recorded.pipeline, hasPath_iff.mpr .refl, differ, mapped, name, recorded,
      inHistory, depends, rfl, Bool.eq_false_iff.mpr path⟩

/-- The buffers whose history an access consults overlap it. -/
theorem overlaps_of_mem_findRelatedBuffers (known : context.plan.Known) {buffer : BufferName}
    (related : name ∈ context.plan.findRelatedBuffers buffer) :
    context.plan.Overlaps name buffer := by
  unfold BufferPlan.findRelatedBuffers at related
  split at related
  · exact Or.inl (List.mem_singleton.mp related)
  · rename_i hasAddress
    obtain ⟨entry, member, rfl⟩ := List.mem_map.mp related
    obtain ⟨isEntry, isRelated⟩ := List.mem_filter.mp member
    obtain ⟨own, ownMember, rfl⟩ :
        ∃ own ∈ context.plan.addressMap, own.name = buffer := by
      by_contra unplanned
      refine hasAddress ?_
      have missing : (context.plan.addressMap.findSome? fun entry =>
          if entry.name = buffer then entry.address else none) = none := by
        refine List.findSome?_eq_none_iff.mpr ?_
        intro other otherMember
        exact if_neg fun isBuffer => unplanned ⟨other, otherMember, isBuffer⟩
      rw [BufferPlan.getPhysicalAddress, missing]
      rfl
    obtain ⟨start, address, _⟩ := known.addressKnown entry isEntry
    obtain ⟨ownStart, ownAddress, _⟩ := known.addressKnown own ownMember
    have size := known.sizeKnown entry isEntry
    have ownSize := known.sizeKnown own ownMember
    have sizesKnown :
        ¬ (context.plan.getBufferSize own.name ≤ 0 ∨
          context.plan.getBufferSize entry.name ≤ 0) := by
      omega
    simp only [BufferPlan.isRelated, address, known.getBufferScope_eq ownMember,
      known.getPhysicalAddress_eq ownMember ownAddress, if_neg sizesKnown, Bool.and_eq_true,
      decide_eq_true_eq] at isRelated
    obtain ⟨sameScope, startsBefore, endsAfter⟩ := isRelated
    exact Or.inr ⟨entry, isEntry, own, ownMember, rfl, rfl, sameScope, start, ownStart, address,
      ownAddress, endsAfter, startsBefore⟩

/-- A requirement of an operation comes from a sliced touch or from an access it depends on. -/
theorem mem_requirements (known : context.plan.Known)
    (wellFormed : WellFormed context used history) {syncType : SyncType} :
    syncType ∈ requirements context history op ↔
      (syncType = .barrierAll ∧ touchesSlice context.table op = true) ∨
        ∃ name,
          ∃ recorded ∈ history name,
            ∃ touch ∈ op.touches context.table,
              context.plan.Overlaps recorded.bufferName touch.bufferName ∧
                (recorded.isWrite = true ∨ touch.isWrite = true) ∧
                getRequiredSyncType recorded
                    (freshAccess context (op.pipeline context.table) touch) =
                  some syncType := by
  rw [requirements, mem_optimizeSyncRequirements]
  unfold collectSyncRequirements operationAccesses accessRequirements
  simp only [List.mem_flatMap, List.mem_map, List.mem_append, List.mem_filterMap]
  constructor
  · rintro ⟨_, ⟨touch, touched, rfl⟩, fromSlice | ⟨name, related, recorded, inHistory, isAsked⟩⟩
    · split at fromSlice
      · rename_i isSliced
        exact Or.inl ⟨List.mem_singleton.mp fromSlice,
          List.any_eq_true.mpr ⟨touch, touched, isSliced⟩⟩
      · cases fromSlice
    · split at isAsked
      · rename_i depends
        have sameName := (wellFormed name recorded inHistory).bufferName
        refine Or.inr ⟨name, recorded, inHistory, touch, touched, ?_, ?_, isAsked⟩
        · rw [sameName]
          exact overlaps_of_mem_findRelatedBuffers known related
        · have oneWrites := (Bool.and_eq_true_iff.mp depends).2
          simpa [freshAccess] using oneWrites
      · cases isAsked
  · rintro (⟨rfl, isSliced⟩ |
      ⟨name, recorded, inHistory, touch, touched, overlaps, writes, isAsked⟩)
    · obtain ⟨touch, touched, sliced⟩ := List.any_eq_true.mp isSliced
      refine ⟨_, ⟨touch, touched, rfl⟩, Or.inl ?_⟩
      have freshSliced :
          (freshAccess context (op.pipeline context.table) touch).isSliced = true := sliced
      rw [if_pos freshSliced]
      exact List.mem_singleton_self _
    · have isRecorded := wellFormed name recorded inHistory
      have depends :
          hasDataDependency context.plan recorded
            (freshAccess context (op.pipeline context.table) touch) = true :=
        overlaps.hasDataDependency known
          (isRecorded.address.trans (congrArg _ isRecorded.bufferName.symm)) rfl writes
      refine ⟨_, ⟨touch, touched, rfl⟩,
        Or.inr ⟨name, isRecorded.bufferName ▸ overlaps.related known, recorded, inHistory, ?_⟩⟩
      rw [if_pos depends]
      exact isAsked

/-- `GetRequiredSyncType` yields an event for two pipelines that have one and no way yet. -/
theorem getRequiredSyncType_eventPair {current : BufferAccess} :
    getRequiredSyncType recorded current = some (.eventPair source target) ↔
      recorded.pipeline = source ∧ current.pipeline = target ∧ source ≠ target ∧
        hasPath recorded.syncGraph source target = false ∧ (source, target) ∈ eventMapping := by
  unfold getRequiredSyncType getEventType
  constructor
  · intro isAsked
    split at isAsked
    · split at isAsked
      · cases isAsked
      · cases isAsked
    · rename_i differ
      split at isAsked
      · cases isAsked
      · rename_i noPath
        split at isAsked
        · rename_i mapped
          cases isAsked
          exact ⟨rfl, rfl, differ, Bool.eq_false_iff.mpr noPath, mapped⟩
        · cases isAsked
  · rintro ⟨rfl, rfl, differ, noPath, mapped⟩
    rw [if_neg differ, noPath, if_neg Bool.false_ne_true, if_pos mapped]

theorem eventPair_mem_requirements (known : context.plan.Known)
    (wellFormed : WellFormed context used history) :
    .eventPair source target ∈ requirements context history op ↔
      target = op.pipeline context.table ∧ AsksEvent context history op source := by
  rw [mem_requirements known wellFormed]
  constructor
  · rintro (⟨isBarrier, _⟩ | ⟨name, recorded, inHistory, touch, touched, overlaps, writes, isAsked⟩)
    · cases isBarrier
    · obtain ⟨isSource, isTarget, differ, noPath, mapped⟩ :=
        getRequiredSyncType_eventPair.mp isAsked
      have onPipe : op.pipeline context.table = target := isTarget
      subst onPipe
      exact ⟨rfl, differ, mapped, name, recorded, inHistory, ⟨touch, touched, overlaps, writes⟩,
        isSource, noPath⟩
  · rintro ⟨rfl, differ, mapped, name, recorded, inHistory, ⟨touch, touched, overlaps, writes⟩,
      isSource, noPath⟩
    exact Or.inr ⟨name, recorded, inHistory, touch, touched, overlaps, writes,
      getRequiredSyncType_eventPair.mpr ⟨isSource, rfl, differ, noPath, mapped⟩⟩

theorem barrierAll_mem_requirements (known : context.plan.Known)
    (wellFormed : WellFormed context used history) :
    .barrierAll ∈ requirements context history op ↔ touchesSlice context.table op = true := by
  rw [mem_requirements known wellFormed]
  constructor
  · rintro (⟨_, isSliced⟩ | ⟨_, recorded, _, touch, _, _, _, isAsked⟩)
    · exact isSliced
    · unfold getRequiredSyncType getEventType at isAsked
      split_ifs at isAsked
      all_goals cases isAsked
  · exact fun isSliced => Or.inl ⟨rfl, isSliced⟩

end Requirements

/-! ## The emitted program -/

/-- What the visitor emits for a straight-line sequence. -/
def emission
    (context : PassContext) :
    PassState → List Operation → List EmissionStep
  | _, [] => []
  | state, op :: rest =>
    let visited := visitOperation context state op
    visited.1.map .sync ++ .operation op :: emission context visited.2 rest

section Emission

variable {context : PassContext}

theorem stepEvents_append (first second : List EmissionStep) :
    stepEvents (first ++ second) = stepEvents first ++ stepEvents second :=
  List.flatMap_append

theorem stepEvents_syncs (syncs : List SyncUnit) :
    stepEvents (syncs.map .sync) = syncEvents syncs := by
  simp only [stepEvents, List.flatMap_map]
  rfl

theorem unrollForLoops_straightLine (ops : List Operation) :
    unrollForLoops (straightLine ops) = straightLine ops := by
  induction ops with
  | nil => rfl
  | cons op rest ih => rw [straightLine, unrollForLoops, ih]

/-- There is no loop to rebuild in straight-line code. -/
theorem rebuildForLoops_straightLine (state : PassState) (ops : List Operation) :
    rebuildForLoops (visitStmt context state (straightLine ops)).1 =
      some (visitStmt context state (straightLine ops)).1 := by
  induction ops generalizing state with
  | nil => rfl
  | cons op rest ih =>
    simp only [straightLine, visitStmt, rebuildForLoops, ih]
    rfl

theorem carries_straightLine (state : PassState) (ops : List Operation) :
    Carries context.analyzer (straightLine ops) (visitStmt context state (straightLine ops)).1 := by
  induction ops generalizing state with
  | nil => exact .stop
  | cons op rest ih => exact .operation (ih _)

/-- The emission is the only execution of visited straight-line code. -/
theorem executes_straightLine {state : PassState} {ops : List Operation}
    {execution : List Event} :
    Executes context.analyzer (visitStmt context state (straightLine ops)).1 execution ↔
      execution = stepEvents (emission context state ops) := by
  induction ops generalizing state execution with
  | nil => rfl
  | cons op rest ih =>
    simp only [straightLine, visitStmt, Executes, ih, exists_eq_left, emission, List.nil_append,
      stepEvents_append, stepEvents_syncs]
    rfl

end Emission

/-! ## Answered dependencies are accepted -/

section Sufficiency

variable {context : PassContext} {state : FencedState} {op : Operation}

/-- Both histories of a state are well formed. -/
structure FencedState.WellFormed (context : PassContext) (state : FencedState) : Prop where
  history : SyncInsert.WellFormed context (fun _ => True) state.visited.history
  live : SyncInsert.WellFormed context (fun _ => True) state.live

theorem FencedState.wellFormed_start : FencedState.start.WellFormed context :=
  ⟨wellFormed_empty, wellFormed_empty⟩

theorem WellFormed.recordOperation {history : AccessHistory}
    (wellFormed : WellFormed context (fun _ => True) history) (op : Operation) :
    WellFormed context (fun _ => True)
      (updateLatestAccessHistory history (operationAccesses context op)) :=
  (recordTouches_meaning_le wellFormed (op.pipeline context.table) (op.touches context.table)
    fun _ => trivial).2

/-- An operation keeps the state well formed. -/
theorem FencedState.WellFormed.step (wellFormed : state.WellFormed context) (op : Operation) :
    (state.step context op).WellFormed context := by
  refine ⟨(wellFormed.history.updateSyncStatesAfterSync _).recordOperation op, ?_⟩
  unfold FencedState.step
  split
  · exact wellFormed_empty.recordOperation op
  · exact (wellFormed.live.updateSyncStatesAfterSync _).recordOperation op

theorem barrierAll_mem_insertSynchronization_iff {counter : Nat} {syncType : SyncType} :
    .barrierAll ∈ (insertSynchronization context counter syncType).1 ↔ syncType = .barrierAll := by
  cases syncType with
  | barrierAll => simp [insertSynchronization]
  | pipeBarrier pipe =>
    simp only [insertSynchronization]
    split <;> simp
  | eventPair source target => simp [insertSynchronization]

theorem barrierAll_mem_insertAll_iff {counter : Nat} {inserted : List SyncType} :
    .barrierAll ∈ (insertAll context counter inserted).1 ↔ .barrierAll ∈ inserted := by
  induction inserted generalizing counter with
  | nil => simp [insertAll]
  | cons syncType rest ih =>
    rw [insertAll, List.mem_append, List.mem_cons, ih, barrierAll_mem_insertSynchronization_iff,
      eq_comm]

/-- What stays outstanding after the synchronization before an operation. -/
theorem transferSyncs_visitOperation_le (known : context.plan.Known)
    (wellFormed : state.WellFormed context) {outstanding : OutstandingSet}
    (below : outstanding ≤ state.live.meaning context) :
    transferSyncs (visitOperation context state.visited op).1 outstanding ≤
      AccessHistory.meaning context
        (if touchesSlice context.table op then
          .empty
        else
          updateSyncStatesAfterSync state.live
            (requirements context state.visited.history op)) := by
  split
  · rename_i isSliced
    have barrier : .barrierAll ∈ (visitOperation context state.visited op).1 :=
      barrierAll_mem_insertAll_iff.mpr
        ((barrierAll_mem_requirements known wellFormed.history).mpr isSliced)
    rw [transferSyncs_barrierAll (Survives.of_sublist (List.singleton_sublist.mpr barrier))]
    exact bot_le
  · exact ((transferSyncs_absorbing _).monotone below).trans
      (transferSyncs_insertAll wellFormed.live state.visited.eventIdCounter _)

theorem safeAt_of_answered (known : context.plan.Known) (wellFormed : state.WellFormed context)
    (answered :
      ∀ name,
        ∀ recorded ∈ state.live name,
          DependsOn context op recorded →
          recorded.pipeline ≠ op.pipeline context.table →
          Answered context state.visited.history op recorded) :
    SafeAt context (fun _ => True) op
      ((updateSyncStatesAfterSync state.live
        (requirements context state.visited.history op)).meaning context) := by
  intro access member touch touched overlaps writes
  obtain ⟨name, updated, inHistory, below⟩ := mem_meaning.mp member
  obtain ⟨recorded, inLive, rfl⟩ := List.mem_map.mp inHistory
  have advances :=
    BufferAccess.Advances.foldl_updateAccess recorded
      (requirements context state.visited.history op)
  have sameName : access.bufferName = recorded.bufferName := by
    have updatedRecorded := wellFormed.live.updateSyncStatesAfterSync _ name _ inHistory
    exact (Outstanding.le_def.mp below).1.trans
      (updatedRecorded.bufferName.trans (wellFormed.live name recorded inLive).bufferName.symm)
  have sameKind : access.isWrite = recorded.isWrite :=
    (Outstanding.le_def.mp below).2.2.1.trans advances.isWrite
  rw [sameName] at overlaps
  rw [sameKind] at writes
  refine Satisfied.anti below ?_
  unfold Satisfied
  split
  · exact Or.inl trivial
  · rename_i differ
    simp only [BufferAccess.meaning, advances.pipeline] at differ ⊢
    rcases answered name recorded inLive ⟨touch, touched, overlaps, writes⟩ differ with
      path | ⟨source, path, asks⟩
    · exact hasPath_mono advances.edges path
    · exact hasPath_of_inserted
        ((eventPair_mem_requirements known wellFormed.history).mpr ⟨rfl, asks⟩) path

/-- Answered dependencies make the emitted program safe. -/
theorem safe_of_answered (known : context.plan.Known) {ops : List Operation}
    (wellFormed : state.WellFormed context) {outstanding : OutstandingSet}
    (below : outstanding ≤ state.live.meaning context)
    (answered : DependenciesAnswered context state ops) :
    Safe context (fun _ => True) (visitStmt context state.visited (straightLine ops)).1
      outstanding := by
  induction ops generalizing state outstanding with
  | nil => trivial
  | cons op rest ih =>
    obtain ⟨opAnswered, restAnswered⟩ := answered
    have synced :
        transferSyncs (visitOperation context state.visited op).1 outstanding ≤ _ :=
      transferSyncs_visitOperation_le known wellFormed below
    have live : WellFormed context (fun _ => True)
        (if touchesSlice context.table op then
          .empty
        else
          updateSyncStatesAfterSync state.live
            (requirements context state.visited.history op)) := by
      split
      · exact wellFormed_empty
      · exact wellFormed.live.updateSyncStatesAfterSync _
    have recorded :
        recordOperation context op
            (transferSyncs (visitOperation context state.visited op).1 outstanding) ≤
          (state.step context op).live.meaning context :=
      ((recordTouches_absorbing _ _).monotone synced).trans
        (recordTouches_meaning_le live _ _ fun _ => trivial).1
    refine ⟨?_, ih (wellFormed.step op) recorded restAnswered⟩
    intro access member
    have inMeaning := synced member
    split at inMeaning
    · rw [meaning_empty] at inMeaning
      cases inMeaning
    · rename_i notSliced
      exact safeAt_of_answered known wellFormed (opAnswered (Bool.eq_false_iff.mpr notSliced))
        access inMeaning

end Sufficiency

/-! ## Accepted dependencies are answered -/

section Necessity

variable {context : PassContext} {used : Pipeline → Prop} {source target next pipe : Pipeline}
  {segment : List Event} {name : BufferName} {recorded : BufferAccess} {op second : Operation}
  {earlier steps : List EmissionStep} {state : FencedState}

/-- A chain of events ends with a wait or leaves the last event out. -/
theorem handoff_append_iff {event : Event}
    (notWait : ∀ source target eventId, event ≠ .waitFlag source target eventId) :
    Handoff source (segment ++ [event]) target ↔ Handoff source segment target := by
  constructor
  · intro handoff
    generalize isAll : segment ++ [event] = all at handoff
    cases handoff with
    | start => simp at isAll
    | skip _ inner =>
      obtain ⟨rfl, _⟩ := List.append_inj' isAll rfl
      exact inner
    | pair _ eventId _ =>
      have sameLast := congrArg List.getLast? isAll
      simp only [List.getLast?_append, List.getLast?_singleton, List.getLast?_cons_cons,
        Option.some_or, Option.some.injEq] at sameLast
      exact absurd sameLast (notWait _ _ _)
  · exact .skip event

theorem handoff_nil_iff : Handoff source [] target ↔ target = source := by
  constructor
  · intro handoff
    generalize isEmpty : ([] : List Event) = all at handoff
    cases handoff with
    | start => rfl
    | skip => simp at isEmpty
    | pair => simp at isEmpty
  · rintro rfl
    exact .start

/-- What an event pair adds to a chain. -/
theorem handoff_append_pair_iff {eventId : Nat} :
    Handoff source (segment ++ (SyncUnit.eventPair next target eventId).events) pipe ↔
      Handoff source segment pipe ∨ (Handoff source segment next ∧ pipe = target) := by
  constructor
  · intro handoff
    generalize isAll : segment ++ (SyncUnit.eventPair next target eventId).events = all at handoff
    have split :
        segment ++ (SyncUnit.eventPair next target eventId).events =
          (segment ++ [.setFlag next target eventId]) ++ [.waitFlag next target eventId] := by
      simp [SyncUnit.events]
    cases handoff with
    | start => simp [SyncUnit.events] at isAll
    | skip _ inner =>
      rw [split] at isAll
      obtain ⟨rfl, _⟩ := List.append_inj' isAll rfl
      exact Or.inl ((handoff_append_iff (by simp)).mp inner)
    | pair _ _ inner =>
      obtain ⟨rfl, samePair⟩ := List.append_inj' isAll rfl
      simp only [SyncUnit.events, List.cons.injEq, Event.setFlag.injEq] at samePair
      obtain ⟨⟨rfl, rfl, _⟩, _⟩ := samePair
      exact Or.inr ⟨inner, rfl⟩
  · rintro (handoff | ⟨handoff, rfl⟩)
    · exact handoff.append _
    · exact .pair pipe eventId handoff

/-- What an inserted event adds to the pipelines that an access has reached. -/
theorem hasPath_updateAccess_iff (isRecorded : Recorded context used name recorded) :
    hasPath (updateAccess recorded (.eventPair source target)).syncGraph recorded.pipeline pipe =
        true ↔
      hasPath recorded.syncGraph recorded.pipeline pipe = true ∨
        (hasPath recorded.syncGraph recorded.pipeline source = true ∧ pipe = target) := by
  simp only [updateAccess]
  split
  · rename_i reached
    constructor
    · intro path
      exact (hasPath_addSync isRecorded.rooted path).imp_right fun isTarget => ⟨reached, isTarget⟩
    · have larger : ∀ edge ∈ recorded.syncGraph, edge ∈ recorded.syncGraph.addSync source target :=
        fun _ => List.mem_insert_of_mem
      rintro (path | ⟨path, rfl⟩)
      · exact hasPath_mono larger path
      · exact hasPath_tail (hasPath_mono larger path) List.mem_insert_self
  · rename_i notReached
    constructor
    · exact Or.inl
    · rintro (path | ⟨path, _⟩)
      · exact path
      · exact absurd path notReached

/-- After the requirements of an operation, its pipeline is reached only if it was answered for. -/
theorem answered_of_hasPath (known : context.plan.Known) {history : AccessHistory}
    (wellFormed : WellFormed context used history) {op : Operation}
    (isRecorded : Recorded context used name recorded) {inserted : List SyncType}
    (asked : inserted ⊆ requirements context history op)
    (path :
      hasPath (inserted.foldl updateAccess recorded).syncGraph recorded.pipeline pipe = true) :
    hasPath recorded.syncGraph recorded.pipeline pipe = true ∨
      (pipe = op.pipeline context.table ∧ Answered context history op recorded) := by
  induction inserted generalizing recorded with
  | nil => exact Or.inl path
  | cons syncType rest ih =>
    obtain ⟨headAsked, restAsked⟩ := List.cons_subset.mp asked
    have samePipe := (BufferAccess.Advances.updateAccess recorded syncType).pipeline
    have later := ih (isRecorded.updateAccess syncType) restAsked
    rw [samePipe] at later
    cases syncType with
    | barrierAll => exact later path
    | pipeBarrier drained =>
      have sameGraph :
          (updateAccess recorded (.pipeBarrier drained)).syncGraph = recorded.syncGraph := by
        simp only [updateAccess]
        split <;> rfl
      simpa only [Answered, sameGraph, samePipe] using later path
    | eventPair source target =>
      obtain ⟨rfl, asks⟩ := (eventPair_mem_requirements known wellFormed).mp headAsked
      have answered
          (reached : hasPath recorded.syncGraph recorded.pipeline source = true) :
          Answered context history op recorded :=
        Or.inr ⟨source, reached, asks⟩
      rcases later path with path | ⟨isTarget, path | ⟨next, path, nextAsks⟩⟩
      · rcases (hasPath_updateAccess_iff isRecorded).mp path with path | ⟨reached, isTarget⟩
        · exact Or.inl path
        · exact Or.inr ⟨isTarget, answered reached⟩
      · rw [samePipe] at path
        rcases (hasPath_updateAccess_iff isRecorded).mp path with path | ⟨reached, _⟩
        · exact Or.inr ⟨isTarget, Or.inl path⟩
        · exact Or.inr ⟨isTarget, answered reached⟩
      · rw [samePipe] at path
        rcases (hasPath_updateAccess_iff isRecorded).mp path with path | ⟨reached, _⟩
        · exact Or.inr ⟨isTarget, Or.inr ⟨next, path, nextAsks⟩⟩
        · exact Or.inr ⟨isTarget, answered reached⟩

/-- The operation that made an access, and the steps since: no full barrier is among them. -/
structure TracedTo
    (context : PassContext)
    (earlier : List EmissionStep)
    (recorded : BufferAccess)
    (op : Operation)
    (steps : List EmissionStep) :
    Prop where
  made : ∃ before, earlier = before ++ .operation op :: steps
  touched :
    ∃ touch ∈ op.touches context.table,
      touch.bufferName = recorded.bufferName ∧ touch.isWrite = recorded.isWrite
  pipeline : op.pipeline context.table = recorded.pipeline
  unfenced : .barrierAll ∉ stepEvents steps
  reaches :
    ∀ pipe,
      hasPath recorded.syncGraph recorded.pipeline pipe = true ↔
        Handoff recorded.pipeline (stepEvents steps) pipe

/-- Every access of a history is traced to its operation. -/
def Traced (context : PassContext) (earlier : List EmissionStep)
    (history : AccessHistory) : Prop :=
  ∀ name, ∀ recorded ∈ history name, ∃ op steps, TracedTo context earlier recorded op steps

theorem TracedTo.append (traced : TracedTo context earlier recorded op steps)
    {after : BufferAccess} {more : List EmissionStep}
    (sameName : after.bufferName = recorded.bufferName)
    (advances : recorded.Advances after)
    (noBarrier : .barrierAll ∉ stepEvents more)
    (reaches :
      ∀ pipe,
        hasPath after.syncGraph recorded.pipeline pipe = true ↔
          Handoff recorded.pipeline (stepEvents steps ++ stepEvents more) pipe) :
    TracedTo context (earlier ++ more) after op (steps ++ more) := by
  obtain ⟨before, rfl⟩ := traced.made
  obtain ⟨touch, touched, isName, isKind⟩ := traced.touched
  refine ⟨⟨before, by simp⟩, ⟨touch, touched, isName.trans sameName.symm,
    isKind.trans advances.isWrite.symm⟩, traced.pipeline.trans advances.pipeline.symm, ?_, ?_⟩
  · rw [stepEvents_append, List.mem_append]
    exact fun member => member.elim traced.unfenced noBarrier
  · rw [advances.pipeline, stepEvents_append]
    exact reaches

theorem updateAccess_bufferName (access : BufferAccess) (syncType : SyncType) :
    (updateAccess access syncType).bufferName = access.bufferName := by
  cases syncType <;> simp only [updateAccess] <;> split <;> rfl

/-- A synchronization leads on from an access as its record says. -/
theorem TracedTo.sync (traced : TracedTo context earlier recorded op steps)
    (isRecorded : Recorded context used name recorded) (counter : Nat) {syncType : SyncType}
    (notBarrier : syncType ≠ .barrierAll) :
    TracedTo context
      (earlier ++ (insertSynchronization context counter syncType).1.map .sync)
      (updateAccess recorded syncType) op
      (steps ++ (insertSynchronization context counter syncType).1.map .sync) := by
  have noBarrier :
      .barrierAll ∉
        stepEvents ((insertSynchronization context counter syncType).1.map .sync) := by
    rw [stepEvents_syncs]
    intro member
    obtain ⟨unit, isEmitted, inEvents⟩ := List.mem_flatMap.mp member
    cases unit with
    | barrierAll => exact notBarrier (barrierAll_mem_insertSynchronization_iff.mp isEmitted)
    | barrier => simp [SyncUnit.events] at inEvents
    | eventPair => simp [SyncUnit.events] at inEvents
  refine traced.append (updateAccess_bufferName recorded syncType)
    (BufferAccess.Advances.updateAccess recorded syncType) noBarrier ?_
  intro pipe
  rw [stepEvents_syncs]
  cases syncType with
  | barrierAll => exact absurd rfl notBarrier
  | pipeBarrier drained =>
    have sameGraph :
        (updateAccess recorded (.pipeBarrier drained)).syncGraph = recorded.syncGraph := by
      simp only [updateAccess]
      split <;> rfl
    rw [sameGraph, traced.reaches]
    simp only [insertSynchronization]
    split
    · simp [syncEvents]
    · exact (handoff_append_iff (by simp)).symm
  | eventPair source target =>
    rw [hasPath_updateAccess_iff isRecorded, traced.reaches, traced.reaches]
    simp only [insertSynchronization, syncEvents, List.flatMap_cons, List.flatMap_nil,
      List.append_nil]
    exact handoff_append_pair_iff.symm

/-- Inserted synchronization keeps an access traced. -/
theorem TracedTo.insertAll (traced : TracedTo context earlier recorded op steps)
    (isRecorded : Recorded context used name recorded) (counter : Nat)
    {inserted : List SyncType} (noBarrier : .barrierAll ∉ inserted) :
    TracedTo context (earlier ++ (insertAll context counter inserted).1.map .sync)
      (inserted.foldl updateAccess recorded) op
      (steps ++ (insertAll context counter inserted).1.map .sync) := by
  induction inserted generalizing recorded earlier steps counter with
  | nil => simpa [SyncInsert.insertAll] using traced
  | cons syncType rest ih =>
    rw [List.mem_cons, not_or] at noBarrier
    have once := traced.sync isRecorded counter (Ne.symm noBarrier.1)
    have all := ih once (isRecorded.updateAccess syncType)
      (insertSynchronization context counter syncType).2 noBarrier.2
    simpa [SyncInsert.insertAll] using all

theorem of_mem_recordTouches {history : AccessHistory} {pipeline : Pipeline} {touches : List Touch}
    (member :
      recorded ∈
        updateLatestAccessHistory history (touches.map (freshAccess context pipeline)) name) :
    recorded ∈ history name ∨ ∃ touch ∈ touches, recorded = freshAccess context pipeline touch := by
  induction touches generalizing history with
  | nil => exact Or.inl member
  | cons touch rest ih =>
    rcases ih member with isOld | ⟨other, inRest, isFresh⟩
    · rcases of_mem_recordAccess isOld with inHistory | ⟨_, isFresh⟩
      · exact Or.inl inHistory
      · exact Or.inr ⟨touch, List.mem_cons_self, isFresh⟩
    · exact Or.inr ⟨other, List.mem_cons_of_mem _ inRest, isFresh⟩

theorem tracedTo_fresh {touch : Touch} (touched : touch ∈ op.touches context.table) :
    TracedTo context (earlier ++ [.operation op])
      (freshAccess context (op.pipeline context.table) touch) op [] := by
  refine ⟨⟨earlier, rfl⟩, ⟨touch, touched, rfl, rfl⟩, rfl, List.not_mem_nil, ?_⟩
  intro pipe
  rw [stepEvents, List.flatMap_nil, handoff_nil_iff]
  constructor
  · exact hasPath_nil
  · rintro rfl
    exact hasPath_iff.mpr .refl

/-- The accesses since the last full barrier stay traced when an operation is visited. -/
theorem Traced.step (traced : Traced context earlier state.live) (known : context.plan.Known)
    (wellFormed : state.WellFormed context) (op : Operation) :
    Traced context
      (earlier ++ (visitOperation context state.visited op).1.map .sync ++ [.operation op])
      (state.step context op).live := by
  intro name recorded member
  rcases of_mem_recordTouches member with isOld | ⟨touch, touched, rfl⟩
  · split at isOld
    · cases isOld
    · rename_i notSliced
      obtain ⟨previous, inLive, rfl⟩ := List.mem_map.mp isOld
      obtain ⟨first, steps, tracedTo⟩ := traced name previous inLive
      have noBarrier : .barrierAll ∉ requirements context state.visited.history op :=
        fun asked => notSliced ((barrierAll_mem_requirements known wellFormed.history).mp asked)
      have synced :=
        tracedTo.insertAll (wellFormed.live name previous inLive) state.visited.eventIdCounter
          noBarrier
      refine ⟨first, _, synced.append rfl (BufferAccess.Advances.refl _) ?_ ?_⟩
      · simp [stepEvents, EmissionStep.events]
      · intro pipe
        exact (synced.reaches pipe).trans (handoff_append_iff (by simp)).symm
  · exact ⟨op, [], tracedTo_fresh touched⟩

/-- An operation that depends on an access conflicts with the operation that made it. -/
theorem TracedTo.conflicts {first : Operation}
    (traced : TracedTo context earlier recorded first steps)
    (depends : DependsOn context op recorded) : Conflicts context first op := by
  obtain ⟨touch, touched, sameName, sameKind⟩ := traced.touched
  obtain ⟨own, ownTouched, overlaps, writes⟩ := depends
  rw [← sameName] at overlaps
  rw [← sameKind] at writes
  exact ⟨touch, touched, own, ownTouched, overlaps, writes⟩

/-- The execution around an earlier operation and the one that is visited next. -/
theorem stepEvents_emission_cons {first : Operation} {before : List EmissionStep}
    {passState : PassState} {rest : List Operation}
    (made :
      earlier ++ (visitOperation context passState op).1.map .sync =
        before ++ .operation first :: steps) :
    stepEvents (earlier ++ emission context passState (op :: rest)) =
      stepEvents before ++ .operation first ::
        (stepEvents steps ++ .operation op ::
          stepEvents (emission context (visitOperation context passState op).2 rest)) := by
  have regroup :
      earlier ++ emission context passState (op :: rest) =
        (before ++ .operation first :: steps) ++
          .operation op :: emission context (visitOperation context passState op).2 rest := by
    rw [emission, ← List.append_assoc]
    exact congrArg (· ++ _) made
  rw [regroup]
  simp [stepEvents, EmissionStep.events]

/-- If the simulator accepts the emitted program, all its dependencies are answered for. -/
theorem answered_of_accepted (known : context.plan.Known) {ops : List Operation}
    (wellFormed : state.WellFormed context) (traced : Traced context earlier state.live)
    {unit : Participant}
    (onUnit :
      ∀ op,
        .operation op ∈ stepEvents (earlier ++ emission context state.visited ops) →
        (op.pipeline context.table).pipe ∈ unit.lane.allowedPipes)
    (accepted :
      FencesAccepted context (stepEvents (earlier ++ emission context state.visited ops))) :
    DependenciesAnswered context state ops := by
  induction ops generalizing state earlier with
  | nil => trivial
  | cons op rest ih =>
    refine ⟨?_, ?_⟩
    · intro notSliced name recorded inLive depends differ
      obtain ⟨first, steps, tracedTo⟩ := traced name recorded inLive
      have isRecorded := wellFormed.live name recorded inLive
      have synced :=
        tracedTo.insertAll isRecorded state.visited.eventIdCounter fun asked =>
          Bool.eq_false_iff.mp notSliced
            ((barrierAll_mem_requirements known wellFormed.history).mp asked)
      obtain ⟨before, made⟩ := synced.made
      rw [stepEvents_emission_cons made] at accepted onUnit
      have conflict : Conflicts context first op := tracedTo.conflicts depends
      rw [← tracedTo.pipeline] at differ
      rcases accepted.barrierAll_or_handoff onUnit conflict differ with isBarrier | handoff
      · exact absurd isBarrier synced.unfenced
      · have samePipe := (BufferAccess.Advances.foldl_updateAccess recorded
          (requirements context state.visited.history op)).pipeline
        rw [tracedTo.pipeline, ← samePipe] at handoff
        have path := (synced.reaches _).mpr handoff
        rw [samePipe] at path
        rcases answered_of_hasPath known wellFormed.history isRecorded (List.Subset.refl _) path
          with path | ⟨_, answered⟩
        · exact Or.inl path
        · exact answered
    · have regroup :
          earlier ++ emission context state.visited (op :: rest) =
            (earlier ++ (visitOperation context state.visited op).1.map .sync ++
                [.operation op]) ++
              emission context (state.step context op).visited rest := by
        simp [emission, FencedState.step]
      rw [regroup] at onUnit accepted
      exact ih (wellFormed.step op) (traced.step known wellFormed op) onUnit accepted

end Necessity

/-! ## The pass on straight-line code -/

theorem operation_mem_emission {context : PassContext} {state : PassState} {ops : List Operation}
    {op : Operation} (member : .operation op ∈ stepEvents (emission context state ops)) :
    op ∈ ops := by
  induction ops generalizing state with
  | nil => cases member
  | cons head rest ih =>
    rw [emission, stepEvents_append, stepEvents_syncs] at member
    rcases List.mem_append.mp member with inSyncs | inRest
    · obtain ⟨unit, _, isEvent⟩ := List.mem_flatMap.mp inSyncs
      cases unit <;> simp [SyncUnit.events] at isEvent
    · rcases List.mem_cons.mp inRest with isHead | inLater
      · cases isHead
        exact List.mem_cons_self
      · exact List.mem_cons_of_mem _ (ih inLater)

/--
On a unit that has the pipes of all operations, the simulator accepts what the pass emits for
straight-line code if and only if the dependencies of all operations are answered for.
-/
theorem straightLine_fencesAccepted
    (context : PassContext)
    (ops : List Operation)
    (known : context.plan.Known)
    (lane : Simulator.Lane)
    (onLane : ∀ op ∈ ops, (op.pipeline context.table).pipe ∈ lane.allowedPipes) :
    ∃ output,
      substitute context (straightLine ops) = some output ∧
        Carries context.analyzer (straightLine ops) output ∧
        ((∀ execution, Executes context.analyzer output execution →
            FencesAccepted context execution) ↔
          DependenciesAnswered context .start ops) := by
  refine ⟨(visitStmt context FencedState.start.visited (straightLine ops)).1, ?_,
    carries_straightLine _ ops, ?_, ?_⟩
  · rw [substitute, unrollForLoops_straightLine]
    exact rebuildForLoops_straightLine _ ops
  · intro accepted
    have nothingYet : Traced context [] FencedState.start.live := by
      intro name recorded member
      cases member
    have onUnit (op : Operation)
        (member : .operation op ∈
          stepEvents ([] ++ emission context FencedState.start.visited ops)) :
        (op.pipeline context.table).pipe ∈ (Participant.mk 0 lane).lane.allowedPipes :=
      onLane op (operation_mem_emission member)
    exact answered_of_accepted known FencedState.wellFormed_start nothingYet onUnit
      (accepted _ (executes_straightLine.mpr rfl))
  · intro answered execution executes
    have safe := safe_of_answered known FencedState.wellFormed_start bot_le answered
    exact (safe.hazardsOrdered executes).fencesAccepted

/-- Copies of the cube unit, as the operation table configures them. -/
def cubeTable : OperationTable where
  operationConfig name :=
    match name with
    | "copy_gm_to_l1" => some ⟨[(0, .read), (1, .write)], .mte2⟩
    | "copy_l1_to_l0a" => some ⟨[(0, .read), (1, .write)], .mte1⟩
    | "copy_l0c_to_l1" => some ⟨[(0, .read), (1, .write)], .fix⟩
    | _ => none
  usesWorkspace _ := false

/-- One buffer in each of three memories of the cube unit. -/
def cubePlan : BufferPlan where
  addressMap :=
    [⟨"acc", "wmma.accumulator", some 0⟩, ⟨"tile", "shared.l1", some 0⟩,
      ⟨"left", "wmma.matrix_a", some 0⟩]
  sizeMap := [⟨"acc", some 1024⟩, ⟨"tile", some 512⟩, ⟨"left", some 512⟩]

theorem cubePlan_known :
    cubePlan.Known where
  uniqueNames := by decide
  addressKnown := by simp [cubePlan]
  sizeKnown := by decide

/-- A pass over the cube buffers. -/
def cubeContext : PassContext where
  platform := .a2
  plan := cubePlan
  table := cubeTable
  analyzer := ⟨fun _ => false, fun _ => false⟩

/-- Load the tile from global memory. -/
def loadL1 : Operation :=
  .call (.external "copy_gm_to_l1")
    [.accessPtr "A" (.literal 0) .read, .accessPtr "tile" (.literal 0) .write]

/-- Store the accumulator to the tile. -/
def storeL1 : Operation :=
  .call (.external "copy_l0c_to_l1")
    [.accessPtr "acc" (.literal 0) .read, .accessPtr "tile" (.literal 0) .write]

/-- Load the left operand from the tile. -/
def loadL0a : Operation :=
  .call (.external "copy_l1_to_l0a")
    [.accessPtr "tile" (.literal 0) .read, .accessPtr "left" (.literal 0) .write]

/-- The fixpipe task that writes the tile. -/
def storeL1Task : Task where
  taskId := "0"
  operation := .other "copy_l0c_to_l1"
  coreId := 0
  lane := .cube
  pipe := .fix
  durationCycles := 1

/-- The task that reads the tile. -/
def loadL0aTask : Task where
  taskId := "1"
  operation := .other "copy_l1_to_l0a"
  coreId := 0
  lane := .cube
  pipe := .mte1
  durationCycles := 1

/-- Nothing is emitted between a fixpipe that writes a tile and a copy that reads it. -/
theorem storeThenLoad_rejected :
    ¬ ∀ (context : PassContext) (ops : List Operation) (output : Block)
        (execution : List Event),
        context.plan.Known →
        substitute context (straightLine ops) = some output →
        Executes context.analyzer output execution →
        FencesAccepted context execution := by
  intro accepted
  have unsynchronized :
      substitute cubeContext (straightLine [storeL1, loadL0a]) =
        some (straightLine [storeL1, loadL0a]) := by
    decide +kernel
  have executes :
      Executes cubeContext.analyzer (straightLine [storeL1, loadL0a])
        [.operation storeL1, .operation loadL0a] :=
    ⟨_, ⟨_, rfl, rfl⟩, rfl⟩
  have rendered :
      List.Forall₂ (Renders cubeTable ⟨0, .cube⟩) [.operation storeL1, .operation loadL0a]
        [storeL1Task, loadL0aTask] :=
    .cons ⟨rfl, rfl, _, rfl⟩ (.cons ⟨rfl, rfl, _, rfl⟩ .nil)
  have conflict : Conflicts cubeContext storeL1 loadL0a := by
    refine ⟨⟨"tile", true, false⟩, by decide, ⟨"tile", false, false⟩, by decide, Or.inl rfl,
      Or.inl rfl⟩
  have fence :=
    accepted cubeContext [storeL1, loadL0a] _ _ cubePlan_known unsynchronized executes ⟨0, .cube⟩
      [storeL1Task, loadL0aTask] rendered 0 1 storeL1 loadL0a storeL1Task loadL0aTask (by decide)
      rfl rfl conflict (by decide) rfl rfl
  revert fence
  decide

/-- Buffers of the cube plan overlap only themselves. -/
theorem cubePlan_overlaps {first second : BufferName} (overlaps : cubePlan.Overlaps first second) :
    first = second := by
  rcases overlaps with same | ⟨x, xMember, y, yMember, rfl, rfl, sameScope, _⟩
  · exact same
  · simp only [cubePlan, List.mem_cons, List.not_mem_nil, or_false] at xMember yMember
    rcases xMember with rfl | rfl | rfl <;> rcases yMember with rfl | rfl | rfl <;>
      first | rfl | exact absurd sameScope (by decide)

/-- Over the cube buffers it is enough that the accesses to the touched names have events. -/
theorem cubeDependencies_answered {state : FencedState} {op : Operation}
    (wellFormed : state.WellFormed cubeContext)
    (mapped :
      ∀ name ∈ (op.touches cubeTable).map Touch.bufferName,
        ∀ recorded ∈ state.live name,
          recorded ∈ state.visited.history name ∧
            (recorded.pipeline ≠ op.pipeline cubeTable →
              (recorded.pipeline, op.pipeline cubeTable) ∈ eventMapping)) :
    ∀ name,
      ∀ recorded ∈ state.live name,
        DependsOn cubeContext op recorded →
        recorded.pipeline ≠ op.pipeline cubeContext.table →
        Answered cubeContext state.visited.history op recorded := by
  intro name recorded inLive depends differ
  have ⟨touch, touched, overlaps, _⟩ := depends
  have sameName : touch.bufferName = name :=
    (cubePlan_overlaps overlaps).symm.trans (wellFormed.live name recorded inLive).bufferName
  obtain ⟨inHistory, hasEvent⟩ :=
    mapped name (sameName ▸ List.mem_map_of_mem touched) recorded inLive
  exact answered_of_mapped inHistory depends differ (hasEvent differ)

/--
A tile that the fixpipe writes, that is then overwritten by a load and read, is accepted: the
fixpipe and the reader have no event, but the reader depends on the load alone.
-/
theorem overwrittenTile_accepted :
    ∃ output,
      substitute cubeContext (straightLine [storeL1, loadL1, loadL0a]) = some output ∧
        Carries cubeContext.analyzer (straightLine [storeL1, loadL1, loadL0a]) output ∧
        ∀ execution, Executes cubeContext.analyzer output execution →
          FencesAccepted cubeContext execution := by
  obtain ⟨output, emitted, carries, accepts⟩ :=
    straightLine_fencesAccepted cubeContext [storeL1, loadL1, loadL0a] cubePlan_known .cube
      (by decide)
  refine ⟨output, emitted, carries, accepts.mpr ?_⟩
  have atStart : FencedState.start.WellFormed cubeContext := FencedState.wellFormed_start
  have afterStore := atStart.step storeL1
  have afterLoad := afterStore.step loadL1
  refine ⟨?_, ?_, ?_, trivial⟩
  · intro _ name recorded member
    cases member
  · exact fun _ => cubeDependencies_answered afterStore (by decide +kernel)
  · exact fun _ => cubeDependencies_answered afterLoad (by decide +kernel)

end TilelangAscend.SyncInsert
