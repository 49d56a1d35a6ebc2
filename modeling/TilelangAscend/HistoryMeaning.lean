import TilelangAscend.HandoffSoundness

namespace TilelangAscend.SyncInsert

open AbsorbingTransfer
open GraphSearch
open Outstanding

/-!
# The meaning of an access history

The access history of the pass denotes a set of outstanding accesses.  Each update of the
history denotes at least what remains outstanding after the step that it records: emitted
synchronization, an executed operation, or the join of two paths.
-/

/-- Pipelines whose operations need no barrier: the scalar one, and the vector one of A5. -/
def Exempt (platform : Platform) (pipe : Pipeline) : Prop :=
  pipe = .s ∨ (pipe = .v ∧ platform = .a5)

/-- The outstanding access that a record stands for. -/
def BufferAccess.meaning
    (context : PassContext)
    (access : BufferAccess) :
    Outstanding where
  bufferName := access.bufferName
  pipeline := access.pipeline
  isWrite := access.isWrite
  reached := {pipe | hasPath access.syncGraph access.pipeline pipe = true}
  drained := access.pipeline ∈ access.pipeBarriers ∧ ¬ Exempt context.platform access.pipeline

/-- The accesses that a history says may be outstanding. -/
def AccessHistory.meaning (context : PassContext) (history : AccessHistory) : OutstandingSet :=
  lowerClosure {access | ∃ name, ∃ recorded ∈ history name, access = recorded.meaning context}

/-- A well-formed record in the history of a buffer. -/
structure Recorded
    (context : PassContext)
    (used : Pipeline → Prop)
    (name : BufferName)
    (access : BufferAccess) :
    Prop where
  bufferName : access.bufferName = name
  address : access.physicalAddress = context.plan.getPhysicalAddress name
  rooted :
    ∀ edge ∈ access.syncGraph, hasPath access.syncGraph access.pipeline edge.1 = true
  used : used access.pipeline

/-- A history of well-formed records. -/
def WellFormed (context : PassContext) (used : Pipeline → Prop)
    (history : AccessHistory) : Prop :=
  ∀ name, ∀ access ∈ history name, Recorded context used name access

section Meaning

variable {context : PassContext} {used : Pipeline → Prop} {history : AccessHistory}

theorem mem_meaning {access : Outstanding} :
    access ∈ history.meaning context ↔
      ∃ name, ∃ recorded ∈ history name, access ≤ recorded.meaning context := by
  unfold AccessHistory.meaning
  rw [mem_lowerClosure]
  constructor
  · rintro ⟨_, ⟨name, recorded, member, rfl⟩, below⟩
    exact ⟨name, recorded, member, below⟩
  · rintro ⟨name, recorded, member, below⟩
    exact ⟨_, ⟨name, recorded, member, rfl⟩, below⟩

theorem meaning_le {state : OutstandingSet}
    (below : ∀ name, ∀ recorded ∈ history name, recorded.meaning context ∈ state) :
    history.meaning context ≤ state := by
  intro access member
  obtain ⟨name, recorded, inHistory, isBelow⟩ := mem_meaning.mp member
  exact state.lower isBelow (below name recorded inHistory)

/-- The empty history means that nothing is outstanding. -/
theorem meaning_empty : AccessHistory.empty.meaning context = ⊥ := by
  refine le_bot_iff.mp (meaning_le ?_)
  intro name recorded member
  cases member

/-- The empty history is well formed. -/
theorem wellFormed_empty : WellFormed context used .empty := by
  intro name access member
  cases member

/-! ## Paths and edges -/

variable {source target pipe producer : Pipeline} {graph : SyncGraph}
  {access previous : BufferAccess} {name : BufferName} {after : Outstanding}
  {joined : List BufferAccess}

/-- More edges keep every path. -/
theorem hasPath_mono {larger : SyncGraph} (included : ∀ edge ∈ graph, edge ∈ larger)
    (path : hasPath graph source target = true) : hasPath larger source target = true := by
  rw [hasPath_iff] at path ⊢
  exact Relation.ReflTransGen.mono (fun _ _ edge => included _ edge) _ _ path

/-- A path goes on over an edge. -/
theorem hasPath_tail {middle : Pipeline} (path : hasPath graph source middle = true)
    (edge : (middle, target) ∈ graph) : hasPath graph source target = true := by
  rw [hasPath_iff] at path ⊢
  exact path.tail edge

/-- An added edge reaches its target and nothing else. -/
theorem hasPath_addSync (rooted : ∀ edge ∈ graph, hasPath graph producer edge.1 = true)
    (path : hasPath (graph.addSync source target) producer pipe = true) :
    hasPath graph producer pipe = true ∨ pipe = target := by
  rw [hasPath_iff] at path
  induction path with
  | refl => exact Or.inl (hasPath_iff.mpr .refl)
  | @tail middle next _ edge _ =>
    rcases List.mem_insert_iff.mp edge with isNew | isOld
    · cases isNew
      exact Or.inr rfl
    · exact Or.inl (hasPath_tail (rooted _ isOld) isOld)

/-- What both branches reach is reached in each of them. -/
theorem hasPath_intersectCompletion {other : SyncGraph}
    (path : hasPath (graph.intersectCompletion other producer) producer pipe = true) :
    hasPath graph producer pipe = true ∧ hasPath other producer pipe = true := by
  rw [hasPath_iff] at path
  induction path with
  | refl => exact ⟨hasPath_iff.mpr .refl, hasPath_iff.mpr .refl⟩
  | @tail middle next _ edge _ =>
    simp only [Edge, SyncGraph.intersectCompletion, List.mem_map, List.mem_filter,
      Bool.and_eq_true] at edge
    obtain ⟨destination, ⟨_, ⟨_, inGraph⟩, inOther⟩, isEdge⟩ := edge
    cases isEdge
    exact ⟨inGraph, inOther⟩

/-! ## Emitted synchronization -/

/-- Noting a sync keeps what was recorded of an access. -/
theorem Recorded.updateAccess (recorded : Recorded context used name access)
    (syncType : SyncType) : Recorded context used name (updateAccess access syncType) := by
  cases syncType with
  | barrierAll => exact recorded
  | pipeBarrier pipe =>
    simp only [SyncInsert.updateAccess]
    split
    · exact ⟨recorded.bufferName, recorded.address, recorded.rooted, recorded.used⟩
    · exact recorded
  | eventPair source target =>
    simp only [SyncInsert.updateAccess]
    split
    · rename_i isReached
      refine ⟨recorded.bufferName, recorded.address, ?_, recorded.used⟩
      have larger : ∀ edge ∈ access.syncGraph, edge ∈ access.syncGraph.addSync source target :=
        fun _ => List.mem_insert_of_mem
      intro edge member
      rcases List.mem_insert_iff.mp member with isNew | isOld
      · cases isNew
        exact hasPath_mono larger isReached
      · exact hasPath_mono larger (recorded.rooted edge isOld)
    · exact recorded

theorem transferUnit_meaning_le {unit : SyncUnit} {change : BufferAccess → BufferAccess}
    (advances :
      ∀ name, ∀ recorded ∈ history name, ∀ after,
        advance unit (recorded.meaning context) = some after →
        after ≤ (change recorded).meaning context) :
    transferUnit unit (history.meaning context) ≤
      AccessHistory.meaning context (fun name => (history name).map change) := by
  refine rewrite_le ?_ (fun _ isAdded => isAdded.elim)
  intro before member after advanced
  obtain ⟨name, recorded, inHistory, below⟩ := mem_meaning.mp member
  refine mem_meaning.mpr ⟨name, change recorded, List.mem_map_of_mem inHistory, ?_⟩
  cases recordedAdvanced : advance unit (recorded.meaning context) with
  | none =>
    -- only a full barrier retires an access, and it retires all of them
    cases unit <;> simp [advance] at recordedAdvanced advanced
  | some recordedAfter =>
    obtain ⟨_, sameAdvance, belowAfter⟩ := advance_mono below recordedAdvanced
    rw [advanced] at sameAdvance
    cases sameAdvance
    exact belowAfter.trans (advances name recorded inHistory recordedAfter recordedAdvanced)

/-- The entry covers what a barrier advances. -/
theorem advance_barrier_le
    (advanced : advance (.barrier pipe) (access.meaning context) = some after) :
    after ≤ (updateAccess access (.pipeBarrier pipe)).meaning context := by
  cases advanced
  simp only [updateAccess]
  split
  · rename_i isPipe
    exact ⟨rfl, rfl, rfl, subset_rfl, fun _ => Or.inr isPipe⟩
  · exact ⟨rfl, rfl, rfl, subset_rfl, Or.inl⟩

/-- The entry covers what an event pair advances. -/
theorem advance_eventPair_le (recorded : Recorded context used name access) {eventId : Nat}
    (advanced : advance (.eventPair source target eventId) (access.meaning context) = some after) :
    after ≤ (updateAccess access (.eventPair source target)).meaning context := by
  cases advanced
  simp only [updateAccess]
  split
  · rename_i isReached
    refine ⟨rfl, rfl, rfl, ?_, id⟩
    intro pipe path
    exact (hasPath_addSync recorded.rooted path).imp id (fun isTarget => ⟨isReached, isTarget⟩)
  · exact ⟨rfl, rfl, rfl, Set.subset_union_left, id⟩

/-- An inserted requirement advances no more than the history notes. -/
theorem transferSyncs_insertSynchronization (wellFormed : WellFormed context used history)
    (counter : Nat) (syncType : SyncType) :
    transferSyncs (insertSynchronization context counter syncType).1 (history.meaning context) ≤
      (updateSyncStatesAfterSync history [syncType]).meaning context := by
  cases syncType with
  | barrierAll =>
    refine transferUnit_meaning_le ?_
    intro name recorded _ after advanced
    cases advanced
  | eventPair source target =>
    refine transferUnit_meaning_le ?_
    intro name recorded member after advanced
    exact advance_eventPair_le (wellFormed name recorded member) advanced
  | pipeBarrier pipe =>
    simp only [insertSynchronization]
    split
    · -- no barrier is emitted, but the record only says so of an exempt pipeline
      rename_i isExempt
      refine meaning_le ?_
      intro name recorded member
      refine mem_meaning.mpr ⟨name, _, List.mem_map_of_mem member, ?_⟩
      simp only [List.foldl_cons, List.foldl_nil, updateAccess]
      split
      · rename_i isPipe
        refine ⟨rfl, rfl, rfl, subset_rfl, fun drained => absurd ?_ drained.2⟩
        exact Or.inr ⟨isPipe.trans isExempt.1, isExempt.2⟩
      · exact le_rfl
    · refine transferUnit_meaning_le ?_
      intro name recorded _ after advanced
      exact advance_barrier_le advanced

/-- Noting inserted syncs keeps a history well formed. -/
theorem WellFormed.updateSyncStatesAfterSync
    (wellFormed : WellFormed context used history) (inserted : List SyncType) :
    WellFormed context used (updateSyncStatesAfterSync history inserted) := by
  intro name access member
  obtain ⟨before, inHistory, rfl⟩ := List.mem_map.mp member
  have recorded := wellFormed name before inHistory
  clear member inHistory
  induction inserted generalizing before with
  | nil => exact recorded
  | cons syncType rest ih => exact ih _ (recorded.updateAccess syncType)

theorem updateSyncStatesAfterSync_cons (syncType : SyncType) (rest : List SyncType) :
    updateSyncStatesAfterSync history (syncType :: rest) =
      updateSyncStatesAfterSync (updateSyncStatesAfterSync history [syncType]) rest := by
  funext name
  simp [updateSyncStatesAfterSync, Function.comp_def]

theorem transferSyncs_append (first second : List SyncUnit) (state : OutstandingSet) :
    transferSyncs (first ++ second) state = transferSyncs second (transferSyncs first state) := by
  induction first generalizing state with
  | nil => rfl
  | cons unit rest ih => exact ih (transferUnit unit state)

/-- Inserted requirements advance no more than the history notes. -/
theorem transferSyncs_insertAll (wellFormed : WellFormed context used history)
    (counter : Nat) (inserted : List SyncType) :
    transferSyncs (insertAll context counter inserted).1 (history.meaning context) ≤
      (updateSyncStatesAfterSync history inserted).meaning context := by
  induction inserted generalizing history counter with
  | nil =>
    have unchanged : updateSyncStatesAfterSync history [] = history := by
      funext name
      simp [updateSyncStatesAfterSync]
    rw [unchanged]
    exact le_rfl
  | cons syncType rest ih =>
    rw [updateSyncStatesAfterSync_cons]
    simp only [insertAll, transferSyncs_append]
    refine ((transferSyncs_absorbing _).monotone
      (transferSyncs_insertSynchronization wellFormed counter syncType)).trans ?_
    exact ih (wellFormed.updateSyncStatesAfterSync [syncType]) _

/-! ## Executed operations -/

theorem recorded_freshAccess
    {pipeline : Pipeline}
    (isUsed : used pipeline)
    (touch : Touch) :
    Recorded context used touch.bufferName (freshAccess context pipeline touch) where
  bufferName := rfl
  address := rfl
  rooted _ member := nomatch member
  used := isUsed

theorem hasPath_nil (path : hasPath [] source target = true) : target = source := by
  rw [hasPath_iff] at path
  cases path with
  | refl => rfl
  | tail _ edge =>
    cases edge

/-- The entry of a new access covers it. -/
theorem fresh_le_meaning (pipeline : Pipeline) (touch : Touch) :
    fresh pipeline touch ≤ (freshAccess context pipeline touch).meaning context := by
  refine ⟨rfl, rfl, rfl, ?_, ?_⟩
  · intro pipe path
    exact hasPath_nil path
  · intro drained
    cases drained.1

/-- An entry stays unless the new access replaces it. -/
theorem mem_recordAccess (member : previous ∈ history name)
    (stays :
      name = access.bufferName →
        access.isWrite = false ∧
          ¬ (previous.isWrite = false ∧ previous.pipeline = access.pipeline)) :
    previous ∈ recordAccess history access name := by
  unfold recordAccess
  by_cases sameName : name = access.bufferName
  · subst sameName
    obtain ⟨isRead, isOther⟩ := stays rfl
    rw [Function.update_self, isRead]
    exact List.mem_append_left _ (List.mem_filter.mpr ⟨member, decide_eq_true isOther⟩)
  · rwa [Function.update_of_ne sameName]

/-- The history covers what recording a touch adds. -/
theorem recordTouch_meaning_le (wellFormed : WellFormed context used history)
    (pipeline : Pipeline) (touch : Touch) :
    recordTouch pipeline touch (history.meaning context) ≤
      (recordAccess history (freshAccess context pipeline touch)).meaning context := by
  refine rewrite_le ?_ ?_
  · intro before member after kept
    split at kept
    · cases kept
    · rename_i notSuperseded
      cases kept
      obtain ⟨name, recorded, inHistory, below⟩ := mem_meaning.mp member
      refine mem_meaning.mpr ⟨name, recorded, mem_recordAccess inHistory ?_, below⟩
      intro sameName
      have hasName := (wellFormed name recorded inHistory).bufferName
      obtain ⟨beforeName, beforePipe, beforeKind, _⟩ := Outstanding.le_def.mp below
      have isTouched : before.bufferName = touch.bufferName :=
        beforeName.trans (hasName.trans sameName)
      have stays := fun cause => notSuperseded ⟨isTouched, cause⟩
      refine ⟨Bool.eq_false_iff.mpr fun isWrite => stays (Or.inl isWrite), ?_⟩
      rintro ⟨isRead, samePipe⟩
      exact stays (Or.inr ⟨beforeKind.trans isRead, beforePipe.trans samePipe⟩)
  · rintro after rfl
    refine mem_meaning.mpr ⟨touch.bufferName, freshAccess context pipeline touch, ?_,
      fresh_le_meaning pipeline touch⟩
    simp [recordAccess, freshAccess]

/-- An entry after recording is old, or the new one. -/
theorem of_mem_recordAccess {entry : BufferAccess}
    (member : entry ∈ recordAccess history access name) :
    entry ∈ history name ∨ name = access.bufferName ∧ entry = access := by
  unfold SyncInsert.recordAccess at member
  by_cases sameName : name = access.bufferName
  · subst sameName
    rw [Function.update_self] at member
    rcases List.mem_append.mp member with isOld | isNew
    · split at isOld
      · cases isOld
      · exact Or.inl (List.mem_of_mem_filter isOld)
    · exact Or.inr ⟨rfl, List.mem_singleton.mp isNew⟩
  · rw [Function.update_of_ne sameName] at member
    exact Or.inl member

/-- Recording an access keeps a history well formed. -/
theorem WellFormed.recordAccess (wellFormed : WellFormed context used history)
    (recorded : Recorded context used access.bufferName access) :
    WellFormed context used (recordAccess history access) := by
  intro name entry member
  rcases of_mem_recordAccess member with isOld | ⟨rfl, rfl⟩
  · exact wellFormed name entry isOld
  · exact recorded

/-- The history covers what recording an operation adds. -/
theorem recordTouches_meaning_le (wellFormed : WellFormed context used history)
    (pipeline : Pipeline) (touches : List Touch) (isUsed : touches ≠ [] → used pipeline) :
    recordTouches pipeline touches (history.meaning context) ≤
        (updateLatestAccessHistory history
          (touches.map (freshAccess context pipeline))).meaning context ∧
      WellFormed context used
        (updateLatestAccessHistory history (touches.map (freshAccess context pipeline))) := by
  induction touches generalizing history with
  | nil => exact ⟨le_rfl, wellFormed⟩
  | cons touch rest ih =>
    have touchUsed := isUsed (List.cons_ne_nil touch rest)
    have recorded : WellFormed context used
        (SyncInsert.recordAccess history (freshAccess context pipeline touch)) :=
      wellFormed.recordAccess (recorded_freshAccess touchUsed touch)
    obtain ⟨below, wellFormedAfter⟩ := ih recorded (fun _ => touchUsed)
    refine ⟨?_, wellFormedAfter⟩
    exact ((recordTouches_absorbing pipeline rest).monotone
      (recordTouch_meaning_le wellFormed pipeline touch)).trans below

/-! ## Joined paths -/

/-- An entry common to both branches covers the entry of each. -/
theorem meaning_le_intersectAccess (previousRecorded : Recorded context used name previous)
    (recorded : Recorded context used name access) (same : sameClass previous access = true) :
    previous.meaning context ≤ (intersectAccess previous access).meaning context ∧
      access.meaning context ≤ (intersectAccess previous access).meaning context := by
  obtain ⟨samePipe, sameKind⟩ : previous.pipeline = access.pipeline ∧
      previous.isWrite = access.isWrite := by
    simpa [sameClass] using same
  have bothReach : ∀ pipe ∈ ((intersectAccess previous access).meaning context).reached,
      hasPath previous.syncGraph access.pipeline pipe = true ∧
        hasPath access.syncGraph access.pipeline pipe = true := by
    intro pipe path
    refine hasPath_intersectCompletion ?_
    rw [← samePipe]
    simpa [intersectAccess, BufferAccess.meaning, samePipe] using path
  have bothDrained : ((intersectAccess previous access).meaning context).drained →
      (previous.pipeline ∈ previous.pipeBarriers ∧ previous.pipeline ∈ access.pipeBarriers) ∧
        ¬ Exempt context.platform previous.pipeline := by
    rintro ⟨inBoth, notExempt⟩
    exact ⟨by simpa [intersectAccess] using inBoth, notExempt⟩
  refine ⟨⟨rfl, rfl, rfl, ?_, ?_⟩, ⟨?_, samePipe.symm, sameKind.symm, ?_, ?_⟩⟩
  · intro pipe path
    have reached := (bothReach pipe path).1
    rw [← samePipe] at reached
    exact reached
  · intro drained
    exact ⟨(bothDrained drained).1.1, (bothDrained drained).2⟩
  · exact recorded.bufferName.trans previousRecorded.bufferName.symm
  · intro pipe path
    exact (bothReach pipe path).2
  · intro drained
    have known := bothDrained drained
    rw [samePipe] at known
    exact ⟨known.1.2, known.2⟩

theorem Recorded.intersectAccess
    (recorded : Recorded context used name previous)
    (same : sameClass previous access = true) :
    Recorded context used name (intersectAccess previous access) where
  bufferName := recorded.bufferName
  address := recorded.address
  used := recorded.used
  rooted := by
    have samePipe : previous.pipeline = access.pipeline := by
      have both : previous.pipeline = access.pipeline ∧ previous.isWrite = access.isWrite := by
        simpa [sameClass] using same
      exact both.1
    intro edge member
    simp only [SyncInsert.intersectAccess, SyncGraph.intersectCompletion, List.mem_map] at member
    obtain ⟨destination, _, rfl⟩ := member
    rw [hasPath_iff]
    simp only [SyncInsert.intersectAccess, samePipe]
    exact .refl

/-- Joining an entry keeps all that either side covers. -/
theorem joinAccess_spec (joinedRecorded : ∀ previous ∈ joined, Recorded context used name previous)
    (recorded : Recorded context used name access) :
    (∀ entry ∈ joinAccess joined access, Recorded context used name entry) ∧
      ∀ previous, previous = access ∨ previous ∈ joined →
        ∃ entry ∈ joinAccess joined access, previous.meaning context ≤ entry.meaning context := by
  induction joined with
  | nil =>
    refine ⟨by simpa [joinAccess] using recorded, ?_⟩
    rintro previous (rfl | member)
    · exact ⟨previous, by simp [joinAccess], le_rfl⟩
    · cases member
  | cons head rest ih =>
    have headRecorded := joinedRecorded head List.mem_cons_self
    unfold joinAccess
    split
    · rename_i same
      obtain ⟨headBelow, accessBelow⟩ := meaning_le_intersectAccess headRecorded recorded same
      refine ⟨?_, ?_⟩
      · intro entry member
        rcases List.mem_cons.mp member with rfl | inRest
        · exact headRecorded.intersectAccess same
        · exact joinedRecorded entry (List.mem_cons_of_mem _ inRest)
      · rintro previous (rfl | member)
        · exact ⟨_, List.mem_cons_self, accessBelow⟩
        · rcases List.mem_cons.mp member with rfl | inRest
          · exact ⟨_, List.mem_cons_self, headBelow⟩
          · exact ⟨previous, List.mem_cons_of_mem _ inRest, le_rfl⟩
    · obtain ⟨restRecorded, restBelow⟩ := ih
        (fun previous inRest => joinedRecorded previous (List.mem_cons_of_mem _ inRest))
      refine ⟨?_, ?_⟩
      · intro entry member
        rcases List.mem_cons.mp member with rfl | inRest
        · exact headRecorded
        · exact restRecorded entry inRest
      · intro previous cause
        by_cases isHead : previous = head
        · exact ⟨head, List.mem_cons_self, by rw [isHead]⟩
        · have inRest : previous = access ∨ previous ∈ rest :=
            cause.imp_right fun member => (List.mem_cons.mp member).resolve_left isHead
          obtain ⟨entry, member, below⟩ := restBelow previous inRest
          exact ⟨entry, List.mem_cons_of_mem _ member, below⟩

theorem foldl_joinAccess_spec {accesses : List BufferAccess}
    (joinedRecorded : ∀ previous ∈ joined, Recorded context used name previous)
    (recorded : ∀ access ∈ accesses, Recorded context used name access) :
    (∀ entry ∈ accesses.foldl joinAccess joined, Recorded context used name entry) ∧
      ∀ previous, previous ∈ accesses ∨ previous ∈ joined →
        ∃ entry ∈ accesses.foldl joinAccess joined,
          previous.meaning context ≤ entry.meaning context := by
  induction accesses generalizing joined with
  | nil =>
    refine ⟨joinedRecorded, ?_⟩
    rintro previous (member | member)
    · cases member
    · exact ⟨previous, member, le_rfl⟩
  | cons access rest ih =>
    obtain ⟨headRecorded, headBelow⟩ :=
      joinAccess_spec joinedRecorded (recorded access List.mem_cons_self)
    obtain ⟨restRecorded, restBelow⟩ := ih headRecorded
      (fun entry inRest => recorded entry (List.mem_cons_of_mem _ inRest))
    refine ⟨restRecorded, ?_⟩
    intro previous cause
    by_cases inRest : previous ∈ rest
    · exact restBelow previous (Or.inl inRest)
    · have entered : previous = access ∨ previous ∈ joined :=
        cause.imp_left fun member => (List.mem_cons.mp member).resolve_right inRest
      obtain ⟨middle, member, below⟩ := headBelow previous entered
      obtain ⟨entry, inFold, belowEntry⟩ := restBelow middle (Or.inr member)
      exact ⟨entry, inFold, below.trans belowEntry⟩

/-- The joined history covers both branches and is well formed. -/
theorem joinAccessHistories_spec {current : AccessHistory}
    (wellFormed : WellFormed context used history)
    (currentWellFormed : WellFormed context used current) :
    history.meaning context ⊔ current.meaning context ≤
        (joinAccessHistories history current).meaning context ∧
      WellFormed context used (joinAccessHistories history current) := by
  have joins : ∀ name,
      (∀ entry ∈ joinAccessHistories history current name, Recorded context used name entry) ∧
        ∀ previous, previous ∈ history name ++ current name ∨ previous ∈ [] →
          ∃ entry ∈ joinAccessHistories history current name,
            previous.meaning context ≤ entry.meaning context := by
    intro name
    refine foldl_joinAccess_spec (fun _ member => nomatch member) ?_
    intro access member
    rcases List.mem_append.mp member with inEntry | inCurrent
    · exact wellFormed name access inEntry
    · exact currentWellFormed name access inCurrent
  refine ⟨sup_le ?_ ?_, fun name => (joins name).1⟩
  · refine meaning_le ?_
    intro name recorded member
    exact mem_meaning.mpr ⟨name, (joins name).2 recorded (Or.inl (List.mem_append_left _ member))⟩
  · refine meaning_le ?_
    intro name recorded member
    exact mem_meaning.mpr ⟨name, (joins name).2 recorded (Or.inl (List.mem_append_right _ member))⟩

end Meaning

end TilelangAscend.SyncInsert
