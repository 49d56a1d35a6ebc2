import TilelangAscend.HistoryMeaning

namespace TilelangAscend.SyncInsert

open AbsorbingTransfer
open GraphSearch
open Outstanding

/-!
# The pass covers every hazard

What the visitor emits before a statement makes it safe for what the history denotes, and the
history after the statement denotes what remains outstanding.  This stays true for every
sequence that has at least the emitted synchronization, hence for the loops that the rebuilder
merges from two visited copies.
-/

/-! ## What the pass relies on -/

/--
Every local buffer is planned once, with a literal address and a positive literal size.
-/
structure BufferPlan.Known (plan : BufferPlan) : Prop where
  uniqueNames : (plan.addressMap.map AddressEntry.name).Nodup
  addressKnown : ∀ entry ∈ plan.addressMap, ∃ start, entry.address = some start ∧ 0 ≤ start
  sizeKnown : ∀ entry ∈ plan.addressMap, 0 < plan.getBufferSize entry.name

/-- The pipelines that the operations of a body access buffers on. -/
def UsedBy (table : OperationTable) (body : Block) (pipe : Pipeline) : Prop :=
  ∃ op ∈ body.operations, op.touches table ≠ [] ∧ op.pipeline table = pipe

/-- Every ordered pair of distinct pipelines has an event. -/
def EventsMapped (used : Pipeline → Prop) : Prop :=
  ∀ source target, used source → used target → source ≠ target → (source, target) ∈ eventMapping

/-- An operation that depends on a recorded access of another pipeline has an event for it. -/
def DependenciesMapped (context : PassContext) (history : AccessHistory)
    (op : Operation) : Prop :=
  ∀ name,
    ∀ recorded ∈ history name,
      ∀ touch ∈ op.touches context.table,
        context.plan.Overlaps recorded.bufferName touch.bufferName →
        recorded.isWrite = true ∨ touch.isWrite = true →
        recorded.pipeline ≠ op.pipeline context.table →
        (recorded.pipeline, op.pipeline context.table) ∈ eventMapping

/-- A body before the pass: no synchronization and no marked iterations. -/
def Block.isSource : Block → Bool
  | .stop syncs => syncs.isEmpty
  | .operation syncs _ rest => syncs.isEmpty && rest.isSource
  | .letStmt syncs _ body rest => syncs.isEmpty && body.isSource && rest.isSource
  | .ifThenElse syncs _ thenCase elseCase rest =>
    syncs.isEmpty && thenCase.isSource && elseCase.isSource && rest.isSource
  | .forLoop syncs _ body rest => syncs.isEmpty && body.isSource && rest.isSource
  | .unrolledLoop _ _ _ _ _ => false

/-! ## Overlapping buffers are related -/

section Plan

variable {plan : BufferPlan} {entry : AddressEntry} {start : Int}

section

variable (known : plan.Known) (member : entry ∈ plan.addressMap)
include known member

theorem BufferPlan.Known.entry_unique {other : AddressEntry}
    (otherMember : other ∈ plan.addressMap) (sameName : other.name = entry.name) : other = entry :=
  List.inj_on_of_nodup_map known.uniqueNames otherMember member sameName

theorem BufferPlan.Known.getPhysicalAddress_eq (address : entry.address = some start) :
    plan.getPhysicalAddress entry.name = start := by
  unfold BufferPlan.getPhysicalAddress
  cases found : plan.addressMap.findSome? fun other =>
      if other.name = entry.name then other.address else none with
  | none =>
    have missing := List.findSome?_eq_none_iff.mp found entry member
    simp [address] at missing
  | some value =>
    obtain ⟨other, otherMember, isAddress⟩ := List.exists_of_findSome?_eq_some found
    split at isAddress
    · rename_i sameName
      rw [known.entry_unique member otherMember sameName, address] at isAddress
      exact (Option.some.inj isAddress).symm
    · cases isAddress

theorem BufferPlan.Known.getBufferScope_eq : plan.getBufferScope entry.name = entry.scope := by
  unfold BufferPlan.getBufferScope
  cases found : plan.addressMap.find? fun other => other.name = entry.name with
  | none =>
    have missing := List.find?_eq_none.mp found entry member
    simp at missing
  | some other =>
    have sameName : other.name = entry.name := by
      simpa using List.find?_some found
    rw [known.entry_unique member (List.mem_of_find?_eq_some found) sameName]
    rfl

end

theorem BufferPlan.Known.mem_findRelatedBuffers (known : plan.Known)
    {first second : AddressEntry} (firstMember : first ∈ plan.addressMap)
    (secondMember : second ∈ plan.addressMap) (sameScope : first.scope = second.scope)
    {other : Int} (firstAddress : first.address = some start)
    (secondAddress : second.address = some other)
    (startsBefore : start < other + plan.getBufferSize second.name)
    (endsAfter : other < start + plan.getBufferSize first.name) :
    first.name ∈ plan.findRelatedBuffers second.name := by
  have isOther := known.getPhysicalAddress_eq secondMember secondAddress
  obtain ⟨_, sameAddress, nonnegative⟩ := known.addressKnown second secondMember
  rw [secondAddress] at sameAddress
  cases sameAddress
  have hasAddress : plan.getPhysicalAddress second.name ≠ -1 := by omega
  unfold BufferPlan.findRelatedBuffers
  rw [if_neg hasAddress]
  refine List.mem_map_of_mem (List.mem_filter.mpr ⟨firstMember, ?_⟩)
  have firstSize := known.sizeKnown first firstMember
  have secondSize := known.sizeKnown second secondMember
  have sizesKnown : ¬ (plan.getBufferSize second.name ≤ 0 ∨ plan.getBufferSize first.name ≤ 0) := by
    omega
  simp only [BufferPlan.isRelated, firstAddress, known.getBufferScope_eq secondMember, sameScope,
    isOther, if_neg sizesKnown]
  simp only [decide_true, Bool.true_and, decide_eq_true_eq]
  exact ⟨endsAfter, startsBefore⟩

theorem BufferPlan.Known.self_mem_findRelatedBuffers (known : plan.Known)
    (buffer : BufferName) : buffer ∈ plan.findRelatedBuffers buffer := by
  by_cases planned : ∃ entry ∈ plan.addressMap, entry.name = buffer
  · obtain ⟨entry, member, rfl⟩ := planned
    obtain ⟨start, address, _⟩ := known.addressKnown entry member
    have size := known.sizeKnown entry member
    exact known.mem_findRelatedBuffers member member rfl address address (by omega) (by omega)
  · have unknown : plan.getPhysicalAddress buffer = -1 := by
      have missing : (plan.addressMap.findSome? fun entry =>
          if entry.name = buffer then entry.address else none) = none := by
        refine List.findSome?_eq_none_iff.mpr ?_
        intro entry member
        exact if_neg fun isBuffer => planned ⟨entry, member, isBuffer⟩
      rw [BufferPlan.getPhysicalAddress, missing]
      rfl
    unfold BufferPlan.findRelatedBuffers
    rw [if_pos unknown]
    exact List.mem_singleton_self buffer

theorem BufferPlan.Overlaps.related {first second : BufferName}
    (overlaps : plan.Overlaps first second) (known : plan.Known) :
    first ∈ plan.findRelatedBuffers second := by
  rcases overlaps with rfl | ⟨x, xMember, y, yMember, rfl, rfl, sameScope, start, other,
    xAddress, yAddress, startsBefore, endsAfter⟩
  · exact known.self_mem_findRelatedBuffers first
  · exact known.mem_findRelatedBuffers xMember yMember sameScope xAddress yAddress startsBefore
      endsAfter

theorem BufferPlan.Overlaps.hasDataDependency {previous current : BufferAccess}
    (overlaps : plan.Overlaps previous.bufferName current.bufferName) (known : plan.Known)
    (previousAddress : previous.physicalAddress = plan.getPhysicalAddress previous.bufferName)
    (currentAddress : current.physicalAddress = plan.getPhysicalAddress current.bufferName)
    (writes : previous.isWrite = true ∨ current.isWrite = true) :
    hasDataDependency plan previous current = true := by
  have oneWrites : (previous.isWrite || current.isWrite) = true := by
    simpa using writes
  simp only [SyncInsert.hasDataDependency, oneWrites, Bool.and_true]
  rcases overlaps with sameName | ⟨x, xMember, y, yMember, xName, yName, _, start, other,
    xAddress, yAddress, startsBefore, endsAfter⟩
  · rw [if_pos sameName]
  · split
    · rfl
    · have xStart := known.getPhysicalAddress_eq xMember xAddress
      have yStart := known.getPhysicalAddress_eq yMember yAddress
      have xSize := known.sizeKnown x xMember
      have ySize := known.sizeKnown y yMember
      obtain ⟨_, xSame, xNonnegative⟩ := known.addressKnown x xMember
      obtain ⟨_, ySame, yNonnegative⟩ := known.addressKnown y yMember
      rw [xAddress] at xSame
      rw [yAddress] at ySame
      cases xSame
      cases ySame
      rw [xName] at xStart xSize
      rw [yName] at yStart ySize
      have addressesKnown : previous.physicalAddress ≠ -1 ∧ current.physicalAddress ≠ -1 := by
        omega
      rw [if_pos addressesKnown, if_pos ⟨xSize, ySize⟩, decide_eq_true_eq]
      omega

end Plan

/-! ## Emitted synchronization satisfies its requirement -/

/-- One record says at least what another one says. -/
structure BufferAccess.Advances (before after : BufferAccess) : Prop where
  pipeline : after.pipeline = before.pipeline
  isWrite : after.isWrite = before.isWrite
  edges : ∀ edge ∈ before.syncGraph, edge ∈ after.syncGraph
  barriers : ∀ pipe ∈ before.pipeBarriers, pipe ∈ after.pipeBarriers

namespace BufferAccess.Advances

variable (access : BufferAccess)

theorem refl : access.Advances access :=
  ⟨rfl, rfl, fun _ => id, fun _ => id⟩

theorem trans {first second third : BufferAccess} (advances : first.Advances second)
    (advancesNext : second.Advances third) : first.Advances third :=
  ⟨advancesNext.pipeline.trans advances.pipeline,
    advancesNext.isWrite.trans advances.isWrite,
    fun edge => advancesNext.edges edge ∘ advances.edges edge,
    fun pipe => advancesNext.barriers pipe ∘ advances.barriers pipe⟩

theorem updateAccess (syncType : SyncType) : access.Advances (updateAccess access syncType) := by
  cases syncType with
  | barrierAll => exact refl access
  | pipeBarrier pipe =>
    simp only [SyncInsert.updateAccess]
    split
    · exact ⟨rfl, rfl, fun _ => id, fun _ => List.mem_insert_of_mem⟩
    · exact refl access
  | eventPair source target =>
    simp only [SyncInsert.updateAccess]
    split
    · exact ⟨rfl, rfl, fun _ => List.mem_insert_of_mem, fun _ => id⟩
    · exact refl access

theorem foldl_updateAccess (inserted : List SyncType) :
    access.Advances (inserted.foldl SyncInsert.updateAccess access) := by
  induction inserted generalizing access with
  | nil => exact refl access
  | cons syncType rest ih => exact (updateAccess access syncType).trans (ih _)

theorem foldl_updateAccess_mem {inserted : List SyncType} {syncType : SyncType}
    (member : syncType ∈ inserted) :
    ∃ middle : BufferAccess,
      access.Advances middle ∧
        (SyncInsert.updateAccess middle syncType).Advances
          (inserted.foldl SyncInsert.updateAccess access) := by
  induction inserted generalizing access with
  | nil =>
    cases member
  | cons head rest ih =>
    rcases List.mem_cons.mp member with rfl | inRest
    · exact ⟨access, refl access, foldl_updateAccess _ rest⟩
    · obtain ⟨middle, before, after⟩ := ih (SyncInsert.updateAccess access head) inRest
      exact ⟨middle, (updateAccess access head).trans before, after⟩

end BufferAccess.Advances

section Requirements

variable {context : PassContext} {used : Pipeline → Prop}

theorem satisfied_of_advances {before after : BufferAccess}
    (advances : before.Advances after) {pipe : Pipeline}
    (settled :
      if before.pipeline = pipe then
        pipe = .s ∨ pipe ∈ before.pipeBarriers
      else
        hasPath before.syncGraph before.pipeline pipe = true) :
    Satisfied (Exempt context.platform) (after.meaning context) pipe := by
  simp only [Satisfied, BufferAccess.meaning, advances.pipeline]
  split
  · rename_i samePipe
    rw [if_pos samePipe] at settled
    by_cases isExempt : Exempt context.platform pipe
    · exact Or.inl isExempt
    · refine Or.inr ⟨?_, samePipe ▸ isExempt⟩
      rcases settled with isScalar | isDrained
      · exact absurd (Or.inl isScalar) isExempt
      · rw [samePipe]
        exact advances.barriers pipe isDrained
  · rename_i otherPipe
    rw [if_neg otherPipe] at settled
    exact hasPath_mono advances.edges settled

/-- An emitted event leads on from every pipeline that an access had reached. -/
theorem hasPath_of_inserted {access : BufferAccess} {inserted : List SyncType}
    {source target : Pipeline} (member : .eventPair source target ∈ inserted)
    (path : hasPath access.syncGraph access.pipeline source = true) :
    hasPath (inserted.foldl updateAccess access).syncGraph access.pipeline target = true := by
  obtain ⟨middle, before, after⟩ := BufferAccess.Advances.foldl_updateAccess_mem access member
  have reached : hasPath middle.syncGraph middle.pipeline source = true := by
    rw [before.pipeline]
    exact hasPath_mono before.edges path
  have added : updateAccess middle (.eventPair source target) =
      { middle with syncGraph := middle.syncGraph.addSync source target } :=
    if_pos reached
  have edge : (source, target) ∈ middle.syncGraph.addSync source target :=
    List.mem_insert_self
  have extended : hasPath (middle.syncGraph.addSync source target) middle.pipeline target = true :=
    hasPath_tail (hasPath_mono (fun _ => List.mem_insert_of_mem) reached) edge
  rw [added] at after
  rw [← before.pipeline]
  exact hasPath_mono after.edges extended

theorem satisfied_of_required {previous current : BufferAccess}
    (mapped :
      previous.pipeline ≠ current.pipeline →
      (previous.pipeline, current.pipeline) ∈ eventMapping)
    {inserted : List SyncType}
    (required :
      ∀ syncType, getRequiredSyncType previous current = some syncType → syncType ∈ inserted) :
    Satisfied (Exempt context.platform)
      ((inserted.foldl updateAccess previous).meaning context) current.pipeline := by
  by_cases samePipe : previous.pipeline = current.pipeline
  · by_cases needsBarrier :
        previous.pipeline ≠ .s ∧ previous.pipeline ∉ previous.pipeBarriers
    · have inserted : SyncType.pipeBarrier previous.pipeline ∈ inserted := by
        refine required _ ?_
        rw [getRequiredSyncType, if_pos samePipe, if_pos needsBarrier]
      obtain ⟨middle, before, after⟩ :=
        BufferAccess.Advances.foldl_updateAccess_mem previous inserted
      refine satisfied_of_advances after ?_
      simp only [updateAccess, before.pipeline, samePipe, ↓reduceIte]
      exact Or.inr List.mem_insert_self
    · refine satisfied_of_advances (BufferAccess.Advances.foldl_updateAccess previous inserted) ?_
      rw [if_pos samePipe, ← samePipe]
      tauto
  · by_cases hasHandoff :
        hasPath previous.syncGraph previous.pipeline current.pipeline = true
    · refine satisfied_of_advances (BufferAccess.Advances.foldl_updateAccess previous inserted) ?_
      rwa [if_neg samePipe]
    · have inserted :
          SyncType.eventPair previous.pipeline current.pipeline ∈ inserted := by
        refine required _ ?_
        rw [getRequiredSyncType, if_neg samePipe, if_neg hasHandoff, getEventType,
          if_pos (mapped samePipe)]
      refine satisfied_of_advances (BufferAccess.Advances.refl _) ?_
      rw [(BufferAccess.Advances.foldl_updateAccess previous _).pipeline, if_neg samePipe]
      exact hasPath_of_inserted inserted (hasPath_iff.mpr .refl)

theorem mem_optimizeSyncRequirements {requirements : List SyncType} {syncType : SyncType} :
    syncType ∈ optimizeSyncRequirements requirements ↔ syncType ∈ requirements := by
  simp [optimizeSyncRequirements, List.mem_insertionSort]

theorem safeAt_of_requirements (known : context.plan.Known) {history : AccessHistory}
    (wellFormed : WellFormed context used history) {op : Operation}
    (mapped : DependenciesMapped context history op) :
    SafeAt context (Exempt context.platform) op
      ((updateSyncStatesAfterSync history
        (optimizeSyncRequirements
          (collectSyncRequirements context history (operationAccesses context op)))).meaning
        context) := by
  intro access member touch touched overlaps writes
  obtain ⟨name, updated, inHistory, below⟩ := mem_meaning.mp member
  obtain ⟨recorded, inBefore, rfl⟩ := List.mem_map.mp inHistory
  have isRecorded := wellFormed name recorded inBefore
  have updatedRecorded := wellFormed.updateSyncStatesAfterSync _ name _ inHistory
  obtain ⟨accessName, _, accessKind, _⟩ := Outstanding.le_def.mp below
  have sameName : access.bufferName = recorded.bufferName :=
    accessName.trans (updatedRecorded.bufferName.trans isRecorded.bufferName.symm)
  have sameKind : access.isWrite = recorded.isWrite :=
    accessKind.trans (BufferAccess.Advances.foldl_updateAccess recorded _).isWrite
  rw [sameName] at overlaps
  rw [sameKind] at writes
  refine Satisfied.anti below ?_
  let current := freshAccess context (op.pipeline context.table) touch
  have pairMapped :
      recorded.pipeline ≠ current.pipeline →
      (recorded.pipeline, current.pipeline) ∈ eventMapping :=
    mapped name recorded inBefore touch touched overlaps writes
  refine satisfied_of_required pairMapped ?_
  intro syncType isRequired
  refine mem_optimizeSyncRequirements.mpr (List.mem_flatMap.mpr
    ⟨_, List.mem_map_of_mem touched, List.mem_append_right _ (List.mem_flatMap.mpr
      ⟨recorded.bufferName, overlaps.related known, ?_⟩)⟩)
  have depends : hasDataDependency context.plan recorded current = true :=
    overlaps.hasDataDependency known
      (isRecorded.address.trans (congrArg _ isRecorded.bufferName.symm)) rfl writes
  refine List.mem_filterMap.mpr ⟨recorded, isRecorded.bufferName ▸ inBefore, ?_⟩
  rw [if_pos depends]
  exact isRequired

end Requirements

/-! ## More synchronization -/

theorem transferUnit_le (unit : SyncUnit) (state : OutstandingSet) :
    transferUnit unit state ≤ state := by
  refine rewrite_le ?_ (fun _ isAdded => isAdded.elim)
  intro before member after advanced
  exact state.lower (advance_le advanced) member

theorem transferUnit_sameSync {first second : SyncUnit} (same : SameSync first second) :
    transferUnit first = transferUnit second := by
  have sameAdvance : advance first = advance second := by
    funext access
    cases first <;> cases second <;> simp_all [SameSync, sameSync, advance]
  unfold transferUnit
  rw [sameAdvance]

theorem transferSyncs_survives {units larger : List SyncUnit}
    (survives : Survives units larger) (state : OutstandingSet) :
    transferSyncs larger state ≤ transferSyncs units state := by
  induction survives generalizing state with
  | @nil larger =>
    induction larger generalizing state with
    | nil => exact le_rfl
    | cons unit rest ih => exact (ih _).trans (transferUnit_le unit state)
  | @cons unit other _ _ same _ ih =>
    simp only [transferSyncs, transferUnit_sameSync same]
    exact ih _
  | @cons_right other units larger _ ih =>
    refine (ih (transferUnit other state)).trans ?_
    exact (transferSyncs_absorbing units).monotone (transferUnit_le other state)

theorem transferSyncs_barrierAll {larger : List SyncUnit}
    (survives : Survives [.barrierAll] larger) (state : OutstandingSet) :
    transferSyncs larger state = ⊥ := by
  refine le_bot_iff.mp ((transferSyncs_survives survives state).trans ?_)
  refine rewrite_le ?_ (fun _ isAdded => isAdded.elim)
  intro before _ after advanced
  cases advanced

variable {block : Block}

theorem Carries.extends_self {analyzer : ExtentAnalyzer} {source : Block}
    (carries : Carries analyzer source block) : Extends block block := by
  induction carries with
  | stop => exact .stop (Survives.refl _)
  | operation _ rest => exact .operation (Survives.refl _) rest
  | letStmt _ _ body rest => exact .letStmt (Survives.refl _) body rest
  | ifThenElse _ _ _ thenCase elseCase rest =>
    exact .ifThenElse (Survives.refl _) thenCase elseCase rest
  | forLoop _ _ _ body rest => exact .forLoop (Survives.refl _) body rest
  | emptyLoop _ _ rest => exact rest

theorem Extends.of_prepend {larger : Block} {emitted : List SyncUnit}
    (extended : Extends larger (block.prepend emitted)) : Extends larger block := by
  have drops : ∀ {syncs largerSyncs : List SyncUnit},
      Survives (emitted ++ syncs) largerSyncs → Survives syncs largerSyncs :=
    fun survives => (Survives.of_sublist (List.sublist_append_right emitted _)).trans survives
  cases block with
  | stop =>
    cases extended with
    | stop survives => exact .stop (drops survives)
  | operation =>
    cases extended with
    | operation survives rest => exact .operation (drops survives) rest
  | letStmt =>
    cases extended with
    | letStmt survives body rest => exact .letStmt (drops survives) body rest
  | ifThenElse =>
    cases extended with
    | ifThenElse survives thenCase elseCase rest =>
      exact .ifThenElse (drops survives) thenCase elseCase rest
  | forLoop =>
    cases extended with
    | forLoop survives body rest => exact .forLoop (drops survives) body rest
  | unrolledLoop =>
    cases extended

theorem Extends.forgets {context : PassContext} {larger : Block}
    (extended : Extends larger (block.prepend [.barrierAll])) (exempt : Pipeline → Prop)
    (state : OutstandingSet) :
    transfer context larger state = transfer context larger ⊥ ∧
      (Safe context exempt larger ⊥ → Safe context exempt larger state) := by
  have forgotten : ∀ {syncs largerSyncs : List SyncUnit},
      Survives ([.barrierAll] ++ syncs) largerSyncs →
        transferSyncs largerSyncs state = transferSyncs largerSyncs ⊥ := by
    intro syncs largerSyncs survives
    have barrier : Survives [.barrierAll] largerSyncs :=
      (Survives.of_sublist (List.sublist_append_left [.barrierAll] syncs)).trans survives
    rw [transferSyncs_barrierAll barrier state, transferSyncs_barrierAll barrier ⊥]
  cases block with
  | stop =>
    cases extended with
    | stop survives => simp only [transfer, Safe, forgotten survives, implies_true, and_self]
  | operation =>
    cases extended with
    | operation survives rest => simp only [transfer, Safe, forgotten survives, imp_self, and_self]
  | letStmt =>
    cases extended with
    | letStmt survives body rest =>
      simp only [transfer, Safe, forgotten survives, imp_self, and_self]
  | ifThenElse =>
    cases extended with
    | ifThenElse survives thenCase elseCase rest =>
      simp only [transfer, Safe, forgotten survives, imp_self, and_self]
  | forLoop =>
    cases extended with
    | forLoop survives body rest =>
      simp only [transfer, Safe, forgotten survives, imp_self, and_self]
  | unrolledLoop =>
    cases extended

/-! ## Visited sequences -/

section Visit

variable {context : PassContext} {used : Pipeline → Prop}

/--
A rebuilt sequence is safe for what the history before it denotes, and leaves what the history
after it denotes, also with more synchronization.
-/
structure CoveredBy
    (context : PassContext)
    (before after : AccessHistory)
    (block : Block) :
    Prop where
  safe :
    ∀ {larger}, Extends larger block →
      Safe context (Exempt context.platform) larger (before.meaning context)
  leaves :
    ∀ {larger}, Extends larger block →
      transfer context larger (before.meaning context) ≤ after.meaning context

variable {before after history entry afterFirst : AccessHistory} {block : Block}
  {op : Operation} {extent : Expr}

theorem CoveredBy.safe_of_le {larger : Block}
    (covered : CoveredBy context before after block) (extended : Extends larger block)
    {state : OutstandingSet} (below : state ≤ before.meaning context) :
    Safe context (Exempt context.platform) larger state :=
  (covered.safe extended).anti below

theorem CoveredBy.leaves_of_le {larger : Block}
    (covered : CoveredBy context before after block) (extended : Extends larger block)
    {state : OutstandingSet} (below : state ≤ before.meaning context) :
    transfer context larger state ≤ after.meaning context :=
  ((transfer_absorbing context larger).monotone below).trans (covered.leaves extended)

theorem transferSyncs_larger_le (larger : List SyncUnit) :
    transferSyncs larger (history.meaning context) ≤ history.meaning context :=
  transferSyncs_survives List.SublistForall₂.nil (history.meaning context)

theorem EventsMapped.dependencies (mapped : EventsMapped used)
    (wellFormed : WellFormed context used history)
    (isUsed : op.touches context.table ≠ [] → used (op.pipeline context.table)) :
    DependenciesMapped context history op := by
  intro name recorded member touch touched _ _ differ
  exact mapped _ _ (wellFormed name recorded member).used
    (isUsed (List.ne_nil_of_mem touched)) differ

theorem visitOperation_spec (known : context.plan.Known) {state : PassState}
    (wellFormed : WellFormed context used state.history)
    (mapped : DependenciesMapped context state.history op)
    (isUsed : op.touches context.table ≠ [] → used (op.pipeline context.table))
    {larger : List SyncUnit} (survives : Survives (visitOperation context state op).1 larger) :
    SafeAt context (Exempt context.platform) op
        (transferSyncs larger (state.history.meaning context)) ∧
      recordOperation context op (transferSyncs larger (state.history.meaning context)) ≤
        (visitOperation context state op).2.history.meaning context ∧
      WellFormed context used (visitOperation context state op).2.history := by
  have synced : transferSyncs larger (state.history.meaning context) ≤
      (updateSyncStatesAfterSync state.history
        (optimizeSyncRequirements
          (collectSyncRequirements context state.history
            (operationAccesses context op)))).meaning context :=
    (transferSyncs_survives survives _).trans
      (transferSyncs_insertAll wellFormed state.eventIdCounter _)
  have safe := safeAt_of_requirements known wellFormed mapped
  obtain ⟨recorded, wellFormedAfter⟩ :=
    recordTouches_meaning_le (wellFormed.updateSyncStatesAfterSync _)
      (op.pipeline context.table) (op.touches context.table) isUsed
  refine ⟨fun access member => safe access (synced member), ?_, wellFormedAfter⟩
  exact ((recordTouches_absorbing _ _).monotone synced).trans recorded

/-- What the rebuilder makes of a visited source sequence. -/
structure Rebuilt
    (context : PassContext)
    (used : Pipeline → Prop)
    (source : Block)
    (state : PassState)
    (visited : Block × PassState)
    (block : Block) :
    Prop where
  rebuilds : rebuildForLoops visited.1 = some block
  carries : Carries context.analyzer source block
  wellFormed : WellFormed context used visited.2.history
  covered : CoveredBy context state.history visited.2.history block

theorem Rebuilt.operation (known : context.plan.Known) {state : PassState}
    (wellFormed : WellFormed context used state.history) {op : Operation}
    (mapped : DependenciesMapped context state.history op)
    (isUsed : op.touches context.table ≠ [] → used (op.pipeline context.table))
    {source unrolled rest : Block}
    (restRebuilt :
      Rebuilt context used source (visitOperation context state op).2
        (visitStmt context (visitOperation context state op).2 unrolled) rest) :
    Rebuilt context used (.operation [] op source) state
      (visitStmt context state (.operation [] op unrolled))
      (.operation (visitOperation context state op).1 op rest) := by
  refine ⟨?_, .operation restRebuilt.carries, restRebuilt.wellFormed, ⟨?_, ?_⟩⟩
  · simp only [visitStmt, rebuildForLoops, restRebuilt.rebuilds]
    rfl
  · intro larger extended
    cases extended with
    | operation survives restExtended =>
      obtain ⟨safe, recorded, _⟩ := visitOperation_spec known wellFormed mapped isUsed survives
      exact ⟨safe, restRebuilt.covered.safe_of_le restExtended recorded⟩
  · intro larger extended
    cases extended with
    | operation survives restExtended =>
      obtain ⟨_, recorded, _⟩ := visitOperation_spec known wellFormed mapped isUsed survives
      exact restRebuilt.covered.leaves_of_le restExtended recorded

theorem Rebuilt.letStmt {state : PassState} {value : Expr}
    {sourceBody source unrolledBody unrolled body rest : Block}
    (bodyRebuilt :
      Rebuilt context used sourceBody state (visitStmt context state unrolledBody) body)
    (restRebuilt :
      Rebuilt context used source (visitStmt context state unrolledBody).2
        (visitStmt context (visitStmt context state unrolledBody).2 unrolled) rest) :
    Rebuilt context used (.letStmt [] value sourceBody source) state
      (visitStmt context state (.letStmt [] value unrolledBody unrolled))
      (.letStmt (letBarrier value) value body rest) := by
  refine ⟨?_, .letStmt bodyRebuilt.carries restRebuilt.carries, restRebuilt.wellFormed, ⟨?_, ?_⟩⟩
  · simp only [visitStmt, rebuildForLoops, bodyRebuilt.rebuilds, restRebuilt.rebuilds]
    rfl
  · intro larger extended
    cases extended with
    | @letStmt syncs _ _ _ _ _ _ _ bodyExtended restExtended =>
      have below : transferSyncs syncs (state.history.meaning context) ≤ _ :=
        transferSyncs_larger_le syncs
      exact ⟨bodyRebuilt.covered.safe_of_le bodyExtended below,
        restRebuilt.covered.safe_of_le restExtended
          (bodyRebuilt.covered.leaves_of_le bodyExtended below)⟩
  · intro larger extended
    cases extended with
    | @letStmt syncs _ _ _ _ _ _ _ bodyExtended restExtended =>
      exact restRebuilt.covered.leaves_of_le restExtended
        (bodyRebuilt.covered.leaves_of_le bodyExtended (transferSyncs_larger_le syncs))

theorem Rebuilt.ifThenElse {state thenState elseState restState : PassState}
    {condition : Expr} {sourceThen sourceElse source thenCase elseCase rest : Block}
    {thenVisited elseVisited restVisited : Block × PassState}
    (thenRebuilt : Rebuilt context used sourceThen thenState thenVisited thenCase)
    (elseRebuilt : Rebuilt context used sourceElse elseState elseVisited elseCase)
    (restRebuilt : Rebuilt context used source restState restVisited rest) :
    Rebuilt context used (.ifThenElse [] condition sourceThen sourceElse source) state
      (.ifThenElse [.barrierAll] condition thenVisited.1 elseVisited.1
        (restVisited.1.prepend [.barrierAll]), restVisited.2)
      (.ifThenElse [.barrierAll] condition thenCase elseCase (rest.prepend [.barrierAll])) := by
  refine ⟨?_, .ifThenElse thenRebuilt.carries elseRebuilt.carries
    (restRebuilt.carries.prepend _), restRebuilt.wellFormed, ⟨?_, ?_⟩⟩
  · simp only [rebuildForLoops, thenRebuilt.rebuilds, elseRebuilt.rebuilds,
      rebuildForLoops_prepend, restRebuilt.rebuilds]
    rfl
  · intro larger extended
    cases extended with
    | ifThenElse survives thenExtended elseExtended restExtended =>
      simp only [Safe, transferSyncs_barrierAll survives]
      refine ⟨thenRebuilt.covered.safe_of_le thenExtended bot_le,
        elseRebuilt.covered.safe_of_le elseExtended bot_le, ?_⟩
      exact (restExtended.forgets _ _).2
        (restRebuilt.covered.safe_of_le restExtended.of_prepend bot_le)
  · intro larger extended
    cases extended with
    | ifThenElse survives thenExtended elseExtended restExtended =>
      simp only [transfer]
      rw [(restExtended.forgets (Exempt context.platform) _).1]
      exact restRebuilt.covered.leaves_of_le restExtended.of_prepend bot_le

theorem Rebuilt.emptyLoop {extent : Expr}
    (isEmpty : context.analyzer.provesEmpty extent = true) {state : PassState}
    {sourceBody source unrolledBody unrolled rest : Block}
    (restRebuilt : Rebuilt context used source state (visitStmt context state unrolled) rest) :
    Rebuilt context used (.forLoop [] extent sourceBody source) state
      (visitStmt context state (.unrolledLoop [] extent unrolledBody unrolledBody unrolled))
      (rest.prepend []) := by
  simp only [visitStmt, if_pos isEmpty]
  refine ⟨?_, .emptyLoop isEmpty (restRebuilt.carries.prepend []), restRebuilt.wellFormed, ⟨?_, ?_⟩⟩
  · rw [rebuildForLoops_prepend, restRebuilt.rebuilds]
    rfl
  · intro larger extended
    exact restRebuilt.covered.safe extended.of_prepend
  · intro larger extended
    exact restRebuilt.covered.leaves extended.of_prepend

/-- The history with which the pass goes on after a loop. -/
def exitHistory (context : PassContext) (extent : Expr)
    (entry afterFirst : AccessHistory) : AccessHistory :=
  if context.analyzer.provesPositive extent then
    afterFirst
  else
    joinAccessHistories entry afterFirst

theorem WellFormed.exitHistory (entryWellFormed : WellFormed context used entry)
    (afterWellFormed : WellFormed context used afterFirst) :
    WellFormed context used (exitHistory context extent entry afterFirst) := by
  unfold SyncInsert.exitHistory
  split
  · exact afterWellFormed
  · exact (joinAccessHistories_spec entryWellFormed afterWellFormed).2

theorem loopExit_le_exitHistory (entryWellFormed : WellFormed context used entry)
    (afterWellFormed : WellFormed context used afterFirst) {before after : OutstandingSet}
    (beforeBelow : before ≤ entry.meaning context)
    (afterBelow : after ≤ afterFirst.meaning context) :
    loopExit context extent before after ≤
      (exitHistory context extent entry afterFirst).meaning context := by
  unfold loopExit exitHistory
  split
  · exact afterBelow
  · exact (sup_le_sup beforeBelow afterBelow).trans
      (joinAccessHistories_spec entryWellFormed afterWellFormed).1

/--
A loop.  Its merged body extends both visited copies: the first makes it safe for what is
outstanding before the loop, the second for what an iteration leaves.
-/
theorem Rebuilt.forLoop {extent : Expr}
    (nonempty : context.analyzer.provesEmpty extent = false) {state restState : PassState}
    (wellFormed : WellFormed context used state.history)
    {sourceBody source first second merged rest : Block}
    {firstVisited secondVisited restVisited : Block × PassState}
    (firstRebuilt : Rebuilt context used sourceBody state firstVisited first)
    (secondRebuilt : Rebuilt context used sourceBody firstVisited.2 secondVisited second)
    (merges : mergeStatementSequences first second = some merged)
    (extendsFirst : Extends merged first) (extendsSecond : Extends merged second)
    (carries : Carries context.analyzer sourceBody merged)
    (restHistory :
      restState.history = exitHistory context extent state.history firstVisited.2.history)
    (restRebuilt : Rebuilt context used source restState restVisited rest) :
    Rebuilt context used (.forLoop [] extent sourceBody source) state
      (.unrolledLoop [] extent firstVisited.1 secondVisited.1 restVisited.1, restVisited.2)
      (.forLoop [] extent merged rest) := by
  have exits : ∀ {syncs : List SyncUnit} {body : Block}, Extends body merged →
      loopExit context extent (transferSyncs syncs (state.history.meaning context))
          (transfer context body (transferSyncs syncs (state.history.meaning context))) ≤
        restState.history.meaning context := by
    intro syncs body extended
    have entered : transferSyncs syncs (state.history.meaning context) ≤ _ :=
      transferSyncs_larger_le syncs
    rw [restHistory]
    exact loopExit_le_exitHistory wellFormed firstRebuilt.wellFormed entered
      (firstRebuilt.covered.leaves_of_le (extended.trans extendsFirst) entered)
  refine ⟨?_, .forLoop nonempty carries restRebuilt.carries, restRebuilt.wellFormed, ⟨?_, ?_⟩⟩
  · simp only [rebuildForLoops, firstRebuilt.rebuilds, secondRebuilt.rebuilds, restRebuilt.rebuilds]
    simp only [Option.bind_eq_bind, Option.bind_some, merges]
  · intro larger extended
    cases extended with
    | @forLoop syncs _ _ _ _ _ _ _ bodyExtended restExtended =>
      have entered : transferSyncs syncs (state.history.meaning context) ≤ _ :=
        transferSyncs_larger_le syncs
      have bodyFirst := bodyExtended.trans extendsFirst
      have bodySecond := bodyExtended.trans extendsSecond
      exact ⟨firstRebuilt.covered.safe_of_le bodyFirst entered,
        secondRebuilt.covered.safe_of_le bodySecond
          (firstRebuilt.covered.leaves_of_le bodyFirst entered),
        restRebuilt.covered.safe_of_le restExtended (exits bodyExtended)⟩
  · intro larger extended
    cases extended with
    | forLoop _ bodyExtended restExtended =>
      exact restRebuilt.covered.leaves_of_le restExtended (exits bodyExtended)

theorem visitStmt_rebuilt (known : context.plan.Known) (mapped : EventsMapped used)
    {source : Block} (isSource : source.isSource = true)
    (isUsed :
      ∀ op ∈ source.operations, op.touches context.table ≠ [] → used (op.pipeline context.table))
    {state : PassState}
    (wellFormed : WellFormed context used state.history) :
    ∃ block,
      Rebuilt context used source state (visitStmt context state (unrollForLoops source))
        block := by
  induction source generalizing state with
  | stop syncs =>
    refine ⟨.stop syncs, rfl, .stop, wellFormed, ⟨?_, ?_⟩⟩
    · intro larger extended
      cases extended
      trivial
    · intro larger extended
      cases extended
      exact transferSyncs_larger_le _
  | operation syncs op rest restRebuilds =>
    obtain ⟨noSyncs, restSource⟩ : syncs = [] ∧ rest.isSource = true := by
      simpa [Block.isSource] using isSource
    subst noSyncs
    simp only [Block.operations, List.forall_mem_cons] at isUsed
    obtain ⟨opUsed, restUsed⟩ := isUsed
    have opMapped := mapped.dependencies wellFormed opUsed
    obtain ⟨_, _, visitedWellFormed⟩ :=
      visitOperation_spec known wellFormed opMapped opUsed (Survives.refl _)
    obtain ⟨block, rebuilt⟩ := restRebuilds restSource restUsed visitedWellFormed
    exact ⟨_, Rebuilt.operation known wellFormed opMapped opUsed rebuilt⟩
  | letStmt syncs value body rest bodyRebuilds restRebuilds =>
    obtain ⟨⟨noSyncs, bodySource⟩, restSource⟩ :
        (syncs = [] ∧ body.isSource = true) ∧ rest.isSource = true := by
      simpa [Block.isSource] using isSource
    subst noSyncs
    simp only [Block.operations, List.forall_mem_append] at isUsed
    obtain ⟨bodyBlock, bodyRebuilt⟩ := bodyRebuilds bodySource isUsed.1 wellFormed
    obtain ⟨restBlock, restRebuilt⟩ := restRebuilds restSource isUsed.2 bodyRebuilt.wellFormed
    exact ⟨_, bodyRebuilt.letStmt restRebuilt⟩
  | ifThenElse syncs condition thenCase elseCase rest thenRebuilds elseRebuilds restRebuilds =>
    obtain ⟨⟨⟨noSyncs, thenSource⟩, elseSource⟩, restSource⟩ :
        ((syncs = [] ∧ thenCase.isSource = true) ∧ elseCase.isSource = true) ∧
          rest.isSource = true := by
      simpa [Block.isSource] using isSource
    subst noSyncs
    simp only [Block.operations, List.forall_mem_append] at isUsed
    obtain ⟨⟨thenUsed, elseUsed⟩, restUsed⟩ := isUsed
    have forgotten : ∀ entry : PassState,
        WellFormed context used (entry.withHistory .empty).history :=
      fun _ => wellFormed_empty
    obtain ⟨_, thenRebuilt⟩ := thenRebuilds thenSource thenUsed (forgotten state)
    obtain ⟨_, elseRebuilt⟩ := elseRebuilds elseSource elseUsed (forgotten _)
    obtain ⟨_, restRebuilt⟩ := restRebuilds restSource restUsed (forgotten _)
    exact ⟨_, thenRebuilt.ifThenElse elseRebuilt restRebuilt⟩
  | forLoop syncs extent body rest bodyRebuilds restRebuilds =>
    obtain ⟨⟨noSyncs, bodySource⟩, restSource⟩ :
        (syncs = [] ∧ body.isSource = true) ∧ rest.isSource = true := by
      simpa [Block.isSource] using isSource
    subst noSyncs
    simp only [Block.operations, List.forall_mem_append] at isUsed
    obtain ⟨bodyUsed, restUsed⟩ := isUsed
    cases isEmpty : context.analyzer.provesEmpty extent with
    | true =>
      obtain ⟨_, restRebuilt⟩ := restRebuilds restSource restUsed wellFormed
      exact ⟨_, restRebuilt.emptyLoop isEmpty⟩
    | false =>
      obtain ⟨_, firstRebuilt⟩ := bodyRebuilds bodySource bodyUsed wellFormed
      obtain ⟨_, secondRebuilt⟩ := bodyRebuilds bodySource bodyUsed firstRebuilt.wellFormed
      obtain ⟨merged, merges, extendsFirst, extendsSecond, carries⟩ :=
        mergeStatementSequences_extends firstRebuilt.carries secondRebuilt.carries
      let firstVisited := visitStmt context state (unrollForLoops body)
      let secondVisited := visitStmt context firstVisited.2 (unrollForLoops body)
      have exitWellFormed : WellFormed context used
          (secondVisited.2.withHistory
            (exitHistory context extent state.history firstVisited.2.history)).history :=
        wellFormed.exitHistory firstRebuilt.wellFormed
      obtain ⟨restBlock, restRebuilt⟩ := restRebuilds restSource restUsed exitWellFormed
      refine ⟨.forLoop [] extent merged restBlock, ?_⟩
      simp only [unrollForLoops, visitStmt, isEmpty]
      exact Rebuilt.forLoop isEmpty wellFormed firstRebuilt secondRebuilt merges extendsFirst
        extendsSecond carries rfl restRebuilt
  | unrolledLoop =>
    cases isSource

end Visit

/-! ## The whole pass -/

/--
The pass yields a program with the statements of its input, and every execution of that program
orders all its hazards by emitted synchronization.
-/
theorem substitute_hazardsOrdered
    {context : PassContext}
    {body : Block}
    (isSource : body.isSource = true)
    (known : context.plan.Known)
    (mapped : EventsMapped (UsedBy context.table body)) :
    ∃ output,
      substitute context body = some output ∧ Carries context.analyzer body output ∧
        ∀ execution, Executes context.analyzer output execution →
          HazardsOrdered context (Exempt context.platform) execution := by
  have isUsed : ∀ op ∈ body.operations, op.touches context.table ≠ [] →
      UsedBy context.table body (op.pipeline context.table) :=
    fun op member touches => ⟨op, member, touches, rfl⟩
  let initial : PassState := { history := .empty, eventIdCounter := 0 }
  have wellFormed : WellFormed context (UsedBy context.table body) initial.history :=
    wellFormed_empty
  obtain ⟨output, rebuilt⟩ := visitStmt_rebuilt known mapped isSource isUsed wellFormed
  refine ⟨output, rebuilt.rebuilds, rebuilt.carries, ?_⟩
  intro execution executes
  have safe := rebuilt.covered.safe rebuilt.carries.extends_self
  rw [meaning_empty] at safe
  exact safe.hazardsOrdered executes

/-- Copies and a vector operation, as the operation table configures them. -/
def vectorTable : OperationTable where
  operationConfig name :=
    match name with
    | "copy_gm_to_ub" => some ⟨[(0, .read), (1, .write)], .mte2⟩
    | "tl.ascend_exp" => some ⟨[(0, .write), (1, .read)], .v⟩
    | _ => none
  usesWorkspace _ := false

/-- Two buffers of the unified buffer, planned one after the other. -/
def vectorPlan : BufferPlan where
  addressMap := [⟨"a_ub", "shared", some 0⟩, ⟨"b_ub", "shared", some 256⟩]
  sizeMap := [⟨"a_ub", some 256⟩, ⟨"b_ub", some 256⟩]

/-- A pass over the vector buffers that knows nothing about loop extents. -/
def vectorContext (platform : Platform) : PassContext where
  platform := platform
  plan := vectorPlan
  table := vectorTable
  analyzer := ⟨fun _ => false, fun _ => false⟩

/-- Load the first buffer. -/
def loadTile : Operation :=
  .call (.external "copy_gm_to_ub")
    [.accessPtr "A" (.literal 0) .read, .accessPtr "a_ub" (.literal 0) .write]

/-- Compute the second buffer from the first one. -/
def expTile : Operation :=
  .call (.intrinsic "tl.ascend_exp")
    [.accessPtr "b_ub" (.literal 0) .write, .accessPtr "a_ub" (.literal 0) .read]

theorem vectorPlan_known :
    vectorPlan.Known where
  uniqueNames := by decide
  addressKnown := by simp [vectorPlan]
  sizeKnown := by decide

/-- A loop that loads a tile and computes on it in each iteration. -/
def loadExpLoop : Block :=
  .forLoop [] (.var "n") (.operation [] loadTile (.operation [] expTile (.stop []))) (.stop [])

theorem loadExpLoop_eventsMapped : EventsMapped (UsedBy vectorTable loadExpLoop) := by
  have onPipelines : ∀ pipe, UsedBy vectorTable loadExpLoop pipe → pipe = .mte2 ∨ pipe = .v := by
    rintro pipe ⟨op, member, _, rfl⟩
    simp only [loadExpLoop, Block.operations, List.mem_append, List.mem_cons,
      List.not_mem_nil, or_false] at member
    rcases member with rfl | rfl
    · exact Or.inl (by decide)
    · exact Or.inr (by decide)
  intro source target sourceUsed targetUsed distinct
  rcases onPipelines source sourceUsed with rfl | rfl <;>
    rcases onPipelines target targetUsed with rfl | rfl
  · exact absurd rfl distinct
  · decide
  · decide
  · exact absurd rfl distinct

/-- Every execution of the loop orders its hazards, however often it runs. -/
theorem loadExpLoop_hazardsOrdered :
    ∃ output,
      substitute (vectorContext .a2) loadExpLoop = some output ∧
        Carries (vectorContext .a2).analyzer loadExpLoop output ∧
        ∀ execution, Executes (vectorContext .a2).analyzer output execution →
          HazardsOrdered (vectorContext .a2) (Exempt .a2) execution :=
  substitute_hazardsOrdered (by decide) vectorPlan_known loadExpLoop_eventsMapped

/-- Two computations of one tile in a row. -/
def expTwice : Block :=
  .operation [] expTile (.operation [] expTile (.stop []))

/-- On A5 nothing is emitted between two vector operations that write one buffer. -/
theorem expTwice_unordered_on_a5 :
    expTwice.isSource = true ∧ vectorPlan.Known ∧
      EventsMapped (UsedBy vectorTable expTwice) ∧
      ∃ output execution,
        substitute (vectorContext .a5) expTwice = some output ∧
          Executes (vectorContext .a5).analyzer output execution ∧
          ¬ HazardsOrdered (vectorContext .a5) (· = .s) execution := by
  have onVector : ∀ pipe, UsedBy vectorTable expTwice pipe → pipe = .v := by
    rintro pipe ⟨op, member, _, rfl⟩
    simp only [expTwice, Block.operations, List.mem_cons, List.not_mem_nil, or_false,
      or_self] at member
    rw [member]
    decide
  refine ⟨by decide, vectorPlan_known, ?_, expTwice, [.operation expTile, .operation expTile],
    by decide +kernel, ?_, ?_⟩
  · intro source target sourceUsed targetUsed distinct
    exact absurd ((onVector source sourceUsed).trans (onVector target targetUsed).symm) distinct
  · exact ⟨_, ⟨_, rfl, rfl⟩, rfl⟩
  · intro ordered
    have noStep : ∀ first second,
        ¬ OrderedStep (vectorContext .a5) (· = .s) [.operation expTile, .operation expTile] first
          second := by
      rintro first second ⟨before, firstOp, secondOp, firstAt, secondAt, _, directly⟩
      have inside := (List.getElem?_eq_some_iff.mp secondAt).1
      simp only [List.length_cons, List.length_nil] at inside
      obtain ⟨rfl, rfl⟩ : first = 0 ∧ second = 1 := by omega
      cases firstAt
      cases secondAt
      have nothing : between [.operation expTile, .operation expTile] 0 1 = [] := rfl
      have isVector : expTile.pipeline (vectorContext .a5).table = .v := by decide
      rw [nothing, isVector] at directly
      cases directly with
      | barrierAll member => cases member
      | exempt isScalar => cases isScalar
      | barrier member => cases member
      | handoff distinct => exact distinct rfl
    have conflict : Conflicts (vectorContext .a5) expTile expTile :=
      ⟨⟨"b_ub", true, false⟩, by decide, ⟨"b_ub", true, false⟩, by decide, Or.inl rfl, Or.inl rfl⟩
    obtain ⟨_, step, _⟩ := Relation.TransGen.head'_iff.mp
      (ordered 0 1 expTile expTile (by decide) rfl rfl conflict)
    exact noStep _ _ step

end TilelangAscend.SyncInsert
