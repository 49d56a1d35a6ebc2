import TilelangAscend.ScalarVectorTrace

namespace TilelangAscend.SyncInsertVS

open SyncInsert

/-!
# Notes of the scalar and vector pass

What reading and emitting synchronization notes on the entries of the histories, and how the
notes decide what a statement requires: an entry with more notes requires no more.
-/

/-! ## Notes on entries -/

/-- What a synchronization unit is emitted for. -/
def unitType : SyncUnit → SyncType
  | .barrierAll => .barrierAll
  | .barrier pipe => .pipeBarrier pipe
  | .eventPair source target _ => .eventPair source target

theorem foldl_noteUnit (syncs : List SyncUnit) (entry : BufferAccess) :
    syncs.foldl BufferAccess.noteUnit entry =
      (syncs.map unitType).foldl BufferAccess.noteSync entry := by
  rw [List.foldl_map]
  congr 1
  funext entry unit
  cases unit <;> rfl

/-- A synchronization is noted on an entry. -/
def HasNote (entry : BufferAccess) : SyncType → Prop
  | .barrierAll => False
  | .pipeBarrier pipe => pipe ∈ entry.pipeBarriers
  | .eventPair source target => (source, target) ∈ entry.eventPairs

/-- The pipeline on whose entries a synchronization is noted. -/
def startsAt : SyncType → Option Pipeline
  | .barrierAll => none
  | .pipeBarrier pipe => some pipe
  | .eventPair source _ => some source

theorem noteSync_same (entry : BufferAccess) (syncType : SyncType) :
    (entry.noteSync syncType).toAccess = entry.toAccess ∧
      (entry.noteSync syncType).physicalAddress = entry.physicalAddress ∧
      (entry.noteSync syncType).isBackEdge = entry.isBackEdge := by
  cases syncType with
  | barrierAll => exact ⟨rfl, rfl, rfl⟩
  | pipeBarrier pipe =>
    simp only [BufferAccess.noteSync, BufferAccess.noteBarrier]
    split <;> exact ⟨rfl, rfl, rfl⟩
  | eventPair source target =>
    simp only [BufferAccess.noteSync, BufferAccess.noteEvent]
    split <;> exact ⟨rfl, rfl, rfl⟩

theorem hasNote_noteSync (entry : BufferAccess) (syncType other : SyncType) :
    HasNote (entry.noteSync syncType) other ↔
      HasNote entry other ∨ (other = syncType ∧ startsAt other = some entry.pipeline) := by
  cases syncType with
  | barrierAll =>
    cases other <;> simp [BufferAccess.noteSync, HasNote, startsAt]
  | pipeBarrier pipe =>
    simp only [BufferAccess.noteSync, BufferAccess.noteBarrier]
    split <;> cases other <;> simp_all [HasNote, startsAt] <;> grind
  | eventPair source target =>
    simp only [BufferAccess.noteSync, BufferAccess.noteEvent]
    split <;> cases other <;> simp_all [HasNote, startsAt] <;> grind

theorem foldl_noteSync_same (syncTypes : List SyncType) (entry : BufferAccess) :
    let noted := syncTypes.foldl BufferAccess.noteSync entry
    noted.toAccess = entry.toAccess ∧ noted.physicalAddress = entry.physicalAddress ∧
      noted.isBackEdge = entry.isBackEdge := by
  induction syncTypes generalizing entry with
  | nil => exact ⟨rfl, rfl, rfl⟩
  | cons syncType rest ih =>
    have same := noteSync_same entry syncType
    have restSame := ih (entry.noteSync syncType)
    exact ⟨restSame.1.trans same.1, restSame.2.1.trans same.2.1, restSame.2.2.trans same.2.2⟩

theorem hasNote_foldl_noteSync (syncTypes : List SyncType) (entry : BufferAccess)
    (other : SyncType) :
    HasNote (syncTypes.foldl BufferAccess.noteSync entry) other ↔
      HasNote entry other ∨ (other ∈ syncTypes ∧ startsAt other = some entry.pipeline) := by
  induction syncTypes generalizing entry with
  | nil => simp
  | cons syncType rest ih =>
    have samePipe : (entry.noteSync syncType).pipeline = entry.pipeline :=
      congrArg Access.pipeline (noteSync_same entry syncType).1
    rw [List.foldl_cons, ih, hasNote_noteSync, samePipe, List.mem_cons]
    tauto

/-! ## Entries with more notes -/

/-- The same access, with at least the notes of some kinds that another entry has. -/
structure NotedMore
    (kinds : SyncType → Prop)
    (less more : BufferAccess) :
    Prop where
  sameAccess : more.toAccess = less.toAccess
  sameAddress : more.physicalAddress = less.physicalAddress
  sameEdge : more.isBackEdge = less.isBackEdge
  notes : ∀ syncType, kinds syncType → HasNote less syncType → HasNote more syncType

/-- Synchronization of some kinds stands in another list too. -/
def Covered (kinds : SyncType → Prop) (syncs others : List SyncUnit) : Prop :=
  ∀ syncType, kinds syncType → syncType ∈ syncs.map unitType → syncType ∈ others.map unitType

section Kinds

variable {kinds : SyncType → Prop}

theorem transports_notedMore (kinds : SyncType → Prop) :
    Transports (NotedMore kinds) (Covered kinds) where
  refl := fun _ => ⟨rfl, rfl, rfl, fun _ _ hasNote => hasNote⟩
  sameAccess := NotedMore.sameAccess
  sameEdge := NotedMore.sameEdge
  carried := by
    intro first second more
    refine ⟨more.sameAccess, more.sameAddress, rfl, ?_⟩
    intro syncType isKind hasNote
    have noted := more.notes syncType isKind
    cases syncType <;> exact noted hasNote
  noted := by
    intro syncs others first second covered more
    rw [foldl_noteUnit, foldl_noteUnit]
    have same := foldl_noteSync_same (syncs.map unitType) first
    have otherSame := foldl_noteSync_same (others.map unitType) second
    refine ⟨otherSame.1.trans (more.sameAccess.trans same.1.symm),
      otherSame.2.1.trans (more.sameAddress.trans same.2.1.symm),
      otherSame.2.2.trans (more.sameEdge.trans same.2.2.symm), ?_⟩
    intro syncType isKind hasNote
    have samePipe : second.pipeline = first.pipeline := congrArg Access.pipeline more.sameAccess
    rw [hasNote_foldl_noteSync] at hasNote ⊢
    exact hasNote.imp (more.notes syncType isKind) fun added =>
      ⟨covered syncType isKind added.1, samePipe ▸ added.2⟩

namespace NotedMore

variable {first second : BufferAccess}

theorem trans
    {third : BufferAccess}
    (more : NotedMore kinds first second)
    (next : NotedMore kinds second third) :
    NotedMore kinds first third where
  sameAccess := next.sameAccess.trans more.sameAccess
  sameAddress := next.sameAddress.trans more.sameAddress
  sameEdge := next.sameEdge.trans more.sameEdge
  notes := fun syncType isKind hasNote =>
    next.notes syncType isKind (more.notes syncType isKind hasNote)

theorem narrow {fewer : SyncType → Prop} (more : NotedMore kinds first second)
    (narrows : ∀ syncType, fewer syncType → kinds syncType) : NotedMore fewer first second :=
  ⟨more.sameAccess, more.sameAddress, more.sameEdge, fun syncType isKind =>
    more.notes syncType (narrows syncType isKind)⟩

theorem noteSyncs (syncTypes : List SyncType) (entry : BufferAccess) :
    NotedMore kinds entry (syncTypes.foldl BufferAccess.noteSync entry) := by
  have same := foldl_noteSync_same syncTypes entry
  refine ⟨same.1, same.2.1, same.2.2, ?_⟩
  intro syncType _ hasNote
  rw [hasNote_foldl_noteSync]
  exact Or.inl hasNote

end NotedMore

/-! ## Requirements -/

/-- The entries that `CheckBufferDependency` looks at for a buffer. -/
def consulted (state : PassState) (buffer : BufferName) : List BufferAccess :=
  match state.accessHistory buffer with
  | none => (state.writeHistory buffer).toList
  | some latest =>
    if latest.isWrite then
      [latest]
    else
      latest :: (state.writeHistory buffer).toList

/-- The synchronization between two accesses of given pipelines. -/
def neededType (source target : Pipeline) : SyncType :=
  if source = target then .pipeBarrier source else .eventPair source target

variable {isRevisitPass : Bool} {syncType : SyncType} {current less more : BufferAccess}
  {context : PassContext} {state : PassState} {buffer : BufferName} {supported : List Access}

omit kinds in
theorem getRequiredSyncType_eq_some {previous : BufferAccess} :
    getRequiredSyncType isRevisitPass previous current = some syncType ↔
      shouldSync previous.pipeline current.pipeline = true ∧
        (isRevisitPass = true → previous.isBackEdge = true) ∧
        neededType previous.pipeline current.pipeline = syncType ∧
        ¬ HasNote previous syncType := by
  unfold getRequiredSyncType neededType
  split
  · rename_i noSync
    simp [noSync]
  · rename_i syncs
    rw [Bool.not_eq_false] at syncs
    split
    · rename_i skipped
      simp [skipped.1, skipped.2]
    · rename_i looked
      have edge : isRevisitPass = true → previous.isBackEdge = true := by
        intro isRevisit
        apply Bool.not_eq_false _ |>.mp
        intro noEdge
        exact looked ⟨isRevisit, noEdge⟩
      split
      · split
        · rename_i noted
          constructor
          · rintro ⟨⟩
          · rintro ⟨_, _, rfl, notNoted⟩
            exact absurd noted notNoted
        · rename_i notNoted
          rw [Option.some.injEq]
          constructor
          · rintro rfl
            exact ⟨syncs, edge, rfl, notNoted⟩
          · rintro ⟨_, _, isNeeded, _⟩
            exact isNeeded
      · rename_i differ
        split
        · rename_i noted
          constructor
          · rintro ⟨⟩
          · rintro ⟨_, _, rfl, notNoted⟩
            exact absurd noted notNoted
        · rename_i notNoted
          rw [getEventType_of_shouldSync syncs differ, Option.some.injEq]
          constructor
          · rintro rfl
            exact ⟨syncs, edge, rfl, notNoted⟩
          · rintro ⟨_, _, isNeeded, _⟩
            exact isNeeded

omit kinds in
theorem startsAt_neededType (source target : Pipeline) :
    startsAt (neededType source target) = some source := by
  unfold neededType
  split <;> rfl

theorem NotedMore.requires (notedMore : NotedMore kinds less more) (isKind : kinds syncType)
    (requires : getRequiredSyncType isRevisitPass more current = some syncType) :
    getRequiredSyncType isRevisitPass less current = some syncType := by
  obtain ⟨syncs, edge, isNeeded, notNoted⟩ := getRequiredSyncType_eq_some.mp requires
  have samePipe : more.pipeline = less.pipeline := congrArg Access.pipeline notedMore.sameAccess
  rw [samePipe] at syncs isNeeded
  exact getRequiredSyncType_eq_some.mpr ⟨syncs,
    fun isRevisit => notedMore.sameEdge ▸ edge isRevisit, isNeeded,
    fun noted => notNoted (notedMore.notes syncType isKind noted)⟩

theorem NotedMore.hasDataDependency_eq {plan : BufferPlan}
    (notedMore : NotedMore kinds less more) (current : BufferAccess) :
    hasDataDependency plan more current = hasDataDependency plan less current := by
  have same : more.asOutstanding = less.asOutstanding := by
    unfold BufferAccess.asOutstanding
    rw [notedMore.sameAccess, notedMore.sameAddress]
  unfold hasDataDependency
  rw [same]

/-- An access of a statement that requires synchronization after a recorded access. -/
structure Requirer
    (context : PassContext)
    (isRevisitPass : Bool)
    (state : PassState)
    (supported : List Access)
    (syncType : SyncType)
    (access : Access)
    (buffer : BufferName)
    (previous : BufferAccess) :
    Prop where
  member : access ∈ supported
  related : buffer ∈ findRelatedBuffers context.plan access.bufferName
  recorded : previous ∈ consulted state buffer
  depends : hasDataDependency context.plan previous (freshAccess context access) = true
  requires : getRequiredSyncType isRevisitPass previous (freshAccess context access) = some syncType

omit kinds in
/-- A buffer requires what its consulted entries require. -/
theorem mem_checkBufferDependency :
    syncType ∈ checkBufferDependency context isRevisitPass state current buffer ↔
      ∃ previous ∈ consulted state buffer,
        hasDataDependency context.plan previous current = true ∧
          getRequiredSyncType isRevisitPass previous current = some syncType := by
  have mem_requirement (previous : BufferAccess) :
      syncType ∈ requirement context isRevisitPass previous current ↔
        hasDataDependency context.plan previous current = true ∧
          getRequiredSyncType isRevisitPass previous current = some syncType := by
    unfold requirement
    split
    · rename_i depends
      simp [depends]
    · rename_i independent
      simp [independent]
  unfold checkBufferDependency consulted
  cases state.accessHistory buffer with
  | none =>
    cases state.writeHistory buffer with
    | none => simp
    | some lastWrite => simp [mem_requirement]
  | some latest =>
    cases state.writeHistory buffer with
    | none =>
      cases isWrite : latest.isWrite <;> simp [isWrite, mem_requirement]
    | some lastWrite =>
      cases isWrite : latest.isWrite <;> simp [isWrite, mem_requirement]

omit kinds in
/-- A statement requires what one of its accesses requires. -/
theorem mem_requiredSyncs :
    syncType ∈ requiredSyncs context isRevisitPass state (supported.map (freshAccess context)) ↔
      ∃ access buffer previous,
        Requirer context isRevisitPass state supported syncType access buffer previous := by
  unfold requiredSyncs
  rw [mem_dedupSyncRequirements]
  simp only [List.mem_flatMap, List.mem_map, mem_checkBufferDependency]
  constructor
  · rintro ⟨_, ⟨access, member, rfl⟩, buffer, related, previous, recorded, depends, requires⟩
    exact ⟨access, buffer, previous, member, related, recorded, depends, requires⟩
  · rintro ⟨access, buffer, previous, requirer⟩
    exact ⟨_, ⟨access, requirer.member, rfl⟩, buffer, requirer.related, previous,
      requirer.recorded, requirer.depends, requirer.requires⟩

omit kinds in
theorem Matches.consulted {related : BufferAccess → BufferAccess → Prop}
    {first second : PassState} {entry : BufferAccess} (matched : Matches related first second)
    (sameWrite : ∀ {entry other}, related entry other → other.isWrite = entry.isWrite)
    (recorded : entry ∈ SyncInsertVS.consulted second buffer) :
    ∃ other ∈ SyncInsertVS.consulted first buffer, related other entry := by
  have ofWrite (inWrites : entry ∈ (second.writeHistory buffer).toList) :
      ∃ other ∈ (first.writeHistory buffer).toList, related other entry := by
    have writes := matched.writes buffer
    revert writes inWrites
    cases first.writeHistory buffer <;> cases second.writeHistory buffer <;>
      intro inWrites writes
    · cases inWrites
    · cases writes
    · cases writes
    · rename_i other _
      cases writes with
      | some isRelated =>
        exact ⟨other, List.mem_singleton_self _, List.mem_singleton.mp inWrites ▸ isRelated⟩
  have accesses := matched.accesses buffer
  unfold SyncInsertVS.consulted at recorded ⊢
  revert accesses recorded
  cases first.accessHistory buffer <;> cases second.accessHistory buffer <;>
    intro recorded accesses
  · exact ofWrite recorded
  · cases accesses
  · cases accesses
  · rename_i latest _
    cases accesses with
    | some isRelated =>
      dsimp only at recorded ⊢
      rw [sameWrite isRelated] at recorded
      by_cases isWrite : latest.isWrite = true
      · rw [if_pos isWrite] at recorded ⊢
        exact ⟨latest, List.mem_singleton_self _, List.mem_singleton.mp recorded ▸ isRelated⟩
      · rw [if_neg isWrite] at recorded ⊢
        rcases List.mem_cons.mp recorded with rfl | inWrites
        · exact ⟨latest, List.mem_cons_self, isRelated⟩
        · obtain ⟨other, member, otherRelated⟩ := ofWrite inWrites
          exact ⟨other, List.mem_cons_of_mem _ member, otherRelated⟩

/-- A history that notes more requires no more. -/
theorem Matches.requires {less more : PassState}
    (matched : Matches (NotedMore kinds) less more) (isKind : kinds syncType)
    (required : syncType ∈
      requiredSyncs context isRevisitPass more (supported.map (freshAccess context))) :
    syncType ∈ requiredSyncs context isRevisitPass less (supported.map (freshAccess context)) := by
  obtain ⟨access, buffer, previous, requirer⟩ := mem_requiredSyncs.mp required
  obtain ⟨other, recorded, notedMore⟩ :=
    matched.consulted (fun more => congrArg Access.isWrite more.sameAccess) requirer.recorded
  exact mem_requiredSyncs.mpr ⟨access, buffer, other, requirer.member, requirer.related, recorded,
    notedMore.hasDataDependency_eq _ ▸ requirer.depends,
    notedMore.requires isKind requirer.requires⟩

end Kinds

end TilelangAscend.SyncInsertVS
