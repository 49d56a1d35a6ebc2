import TilelangAscend.ScalarVectorNotes

namespace TilelangAscend.SyncInsertVS

open SyncInsert

/-!
# A second run of the scalar and vector pass

Running the pass on its own output.  A program settles once the visitor recognizes what it
emitted: then nothing more is required before any statement.  The event that stands in for the
vector barrier on A5 is not recognized, and is emitted again.
-/

/-! ## Checks -/

/-- A vector access depends on an earlier one without a vector barrier noted in between. -/
def isVectorHazard (context : PassContext) (isRevisitPass : Bool)
    (previous current : BufferAccess) : Bool :=
  previous.pipeline = .v && current.pipeline = .v &&
    hasDataDependency context.plan previous current &&
    (!isRevisitPass || previous.isBackEdge) && .v ∉ previous.pipeBarriers

/-- No access of a statement meets a vector hazard. -/
def meetsNoVectorHazard (context : PassContext) (isRevisitPass : Bool) (state : PassState)
    (supported : List Access) : Bool :=
  supported.all fun access =>
    (findRelatedBuffers context.plan access.bufferName).all fun buffer =>
      (consulted state buffer).all fun previous =>
        !isVectorHazard context isRevisitPass previous (freshAccess context access)

/-- Nothing is required before a statement. -/
def needsNothing (context : PassContext) (isRevisitPass : Bool) (state : PassState)
    (supported : List Access) : Bool :=
  (requiredSyncs context isRevisitPass state (supported.map (freshAccess context))).isEmpty

/-- Histories whose entries have at least the notes of others. -/
abbrev MoreNoted (less more : PassState) : Prop :=
  Matches (NotedMore fun _ => True) less more

/-- Histories whose entries have at least the vector barriers of others. -/
abbrev MoreBarriers (less more : PassState) : Prop :=
  Matches (NotedMore fun syncType => syncType = .pipeBarrier .v) less more

section Checks

variable {context : PassContext} {isRevisitPass : Bool} {state first second third : PassState}
  {supported : List Access}

theorem needsNothing_iff :
    needsNothing context isRevisitPass state supported = true ↔
      ∀ syncType,
        syncType ∉
          requiredSyncs context isRevisitPass state (supported.map (freshAccess context)) := by
  unfold needsNothing
  rw [List.isEmpty_iff, List.eq_nil_iff_forall_not_mem]

theorem isVectorHazard_iff {previous current : BufferAccess} :
    isVectorHazard context isRevisitPass previous current = true ↔
      hasDataDependency context.plan previous current = true ∧
        getRequiredSyncType isRevisitPass previous current = some (.pipeBarrier .v) := by
  have needed (source target : Pipeline) :
      neededType source target = .pipeBarrier .v ↔ source = .v ∧ target = .v := by
    unfold neededType
    split
    · rename_i same
      subst same
      simp
    · rename_i differ
      constructor
      · rintro ⟨⟩
      · rintro ⟨rfl, rfl⟩
        exact absurd rfl differ
  rw [getRequiredSyncType_eq_some, needed]
  unfold isVectorHazard
  simp only [Bool.and_eq_true, Bool.or_eq_true, Bool.not_eq_true', decide_eq_true_eq, HasNote]
  constructor
  · rintro ⟨⟨⟨⟨sourceVector, targetVector⟩, depends⟩, edge⟩, notNoted⟩
    refine ⟨depends, ?_, ?_, ⟨sourceVector, targetVector⟩, notNoted⟩
    · rw [sourceVector, targetVector]
      rfl
    · intro isRevisit
      exact edge.resolve_left (by rw [isRevisit]; exact Bool.noConfusion)
  · rintro ⟨depends, _, edge, ⟨sourceVector, targetVector⟩, notNoted⟩
    refine ⟨⟨⟨⟨sourceVector, targetVector⟩, depends⟩, ?_⟩, notNoted⟩
    cases isRevisitPass with
    | false => exact Or.inl rfl
    | true => exact Or.inr (edge rfl)

theorem meetsNoVectorHazard_iff :
    meetsNoVectorHazard context isRevisitPass state supported = true ↔
      .pipeBarrier .v ∉
        requiredSyncs context isRevisitPass state (supported.map (freshAccess context)) := by
  rw [mem_requiredSyncs]
  simp only [meetsNoVectorHazard, List.all_eq_true, Bool.not_eq_true']
  constructor
  · rintro noHazard ⟨access, buffer, previous, requirer⟩
    have isHazard := isVectorHazard_iff.mpr ⟨requirer.depends, requirer.requires⟩
    rw [noHazard access requirer.member buffer requirer.related previous requirer.recorded]
      at isHazard
    cases isHazard
  · intro notRequired access member buffer related previous recorded
    rw [← Bool.not_eq_true]
    intro isHazard
    obtain ⟨depends, requires⟩ := isVectorHazard_iff.mp isHazard
    exact notRequired ⟨access, buffer, previous, member, related, recorded, depends, requires⟩

theorem needsNothing_of_moreNoted (more : MoreNoted first second)
    (nothing : needsNothing context isRevisitPass first supported = true) :
    needsNothing context isRevisitPass second supported = true :=
  needsNothing_iff.mpr fun syncType required =>
    needsNothing_iff.mp nothing syncType (Matches.requires more trivial required)

theorem meetsNoVectorHazard_of_moreBarriers (more : MoreBarriers first second)
    (noHazard : meetsNoVectorHazard context isRevisitPass first supported = true) :
    meetsNoVectorHazard context isRevisitPass second supported = true :=
  meetsNoVectorHazard_iff.mpr fun required =>
    meetsNoVectorHazard_iff.mp noHazard (Matches.requires more rfl required)

theorem meetsNoVectorHazard_of_needsNothing
    (nothing : needsNothing context isRevisitPass state supported = true) :
    meetsNoVectorHazard context isRevisitPass state supported = true :=
  meetsNoVectorHazard_iff.mpr (needsNothing_iff.mp nothing _)

end Checks

/-! ## One statement -/

/-- What the visitor emits for some requirements is read back as emitted for them. -/
def Recognizes (context : PassContext) (syncTypes : List SyncType) : Prop :=
  context.platform ≠ .a5 ∨ .pipeBarrier .v ∉ syncTypes

variable {context : PassContext}

theorem map_unitType_insertAll {syncTypes : List SyncType}
    (recognizes : Recognizes context syncTypes) (counter : Nat) :
    (insertAll context counter syncTypes).1.map unitType = syncTypes := by
  induction syncTypes generalizing counter with
  | nil => rfl
  | cons syncType rest ih =>
    have restRecognized : Recognizes context rest :=
      recognizes.imp id fun noBarrier member => noBarrier (List.mem_cons_of_mem _ member)
    have emitted : (insertSynchronization context counter syncType).1.map unitType =
        [syncType] := by
      cases syncType with
      | barrierAll => rfl
      | eventPair source target => rfl
      | pipeBarrier pipe =>
        have notReplaced : ¬ (pipe = .v ∧ context.platform = .a5) := by
          rintro ⟨rfl, onA5⟩
          rcases recognizes with notA5 | noBarrier
          · exact notA5 onA5
          · exact noBarrier List.mem_cons_self
        simp only [insertSynchronization, if_neg notReplaced]
        rfl
    simp only [insertAll, List.map_append, emitted, ih restRecognized]
    rfl

theorem PassState.noteUnits_append (state : PassState) (syncs more : List SyncUnit) :
    state.noteUnits (syncs ++ more) = (state.noteUnits syncs).noteUnits more := by
  simp only [PassState.noteUnits, PassState.mapAccesses, List.foldl_append, Option.map_map]
  rfl

section Statement

variable (context : PassContext) (isRevisitPass : Bool) (state : PassState)
  (supported : List Access)

/-- What a visited statement requires. -/
abbrev requiredFor : List SyncType :=
  requiredSyncs context isRevisitPass state (supported.map (freshAccess context))

theorem moreNoted_processStatement :
    MoreNoted (recordStatement context isRevisitPass state supported)
      (processStatement context isRevisitPass state supported).2 := by
  have transports := transports_notedMore fun _ => True
  have noted (entry : Option BufferAccess) :
      Option.Rel (NotedMore fun _ => True) entry
        (entry.map fun access =>
          (requiredFor context isRevisitPass state supported).foldl BufferAccess.noteSync
            access) := by
    cases entry with
    | none => exact .none
    | some entry => exact .some (NotedMore.noteSyncs _ _)
  have updated : MoreNoted state
      ((state.updateSyncStatesAfterSync
        (requiredFor context isRevisitPass state supported)).withCounter
          (insertAll context state.eventIdCounter
            (requiredFor context isRevisitPass state supported)).2) :=
    ⟨fun name => noted _, fun name => noted _⟩
  exact updated.recordStatement transports isRevisitPass supported

variable {context isRevisitPass state supported}

theorem processStatement_moreNoted
    (recognizes : Recognizes context (requiredFor context isRevisitPass state supported)) :
    MoreNoted (processStatement context isRevisitPass state supported).2
      (recordStatement context isRevisitPass
        (state.noteUnits (processStatement context isRevisitPass state supported).1)
        supported) := by
  have transports := transports_notedMore fun _ => True
  have same : state.noteUnits (processStatement context isRevisitPass state supported).1 =
      state.updateSyncStatesAfterSync (requiredFor context isRevisitPass state supported) := by
    unfold PassState.noteUnits PassState.updateSyncStatesAfterSync
    congr 1
    funext entry
    rw [foldl_noteUnit]
    exact congrArg (fun types => List.foldl BufferAccess.noteSync entry types)
      (map_unitType_insertAll recognizes _)
  rw [same]
  exact ((Matches.refl transports.refl _).withCounter _).recordStatement transports isRevisitPass
    supported

theorem moreNoted_noteUnits (state : PassState) (syncs : List SyncUnit) :
    MoreNoted state (state.noteUnits syncs) := by
  have noted (entry : Option BufferAccess) :
      Option.Rel (NotedMore fun _ => True) entry
        (entry.map fun access => syncs.foldl BufferAccess.noteUnit access) := by
    cases entry with
    | none => exact .none
    | some entry =>
      refine .some ?_
      dsimp only
      rw [foldl_noteUnit]
      exact NotedMore.noteSyncs _ _
  exact ⟨fun name => noted _, fun name => noted _⟩

theorem not_mem_requiredSyncs_noteUnits {syncs : List SyncUnit} {syncType : SyncType}
    (read : syncType ∈ syncs.map unitType) :
    syncType ∉ requiredFor context isRevisitPass (state.noteUnits syncs) supported := by
  intro required
  obtain ⟨access, buffer, previous, requirer⟩ := mem_requiredSyncs.mp required
  obtain ⟨_, _, isNeeded, notNoted⟩ := getRequiredSyncType_eq_some.mp requirer.requires
  have updated : Matches (fun entry other => other = syncs.foldl BufferAccess.noteUnit entry) state
      (state.noteUnits syncs) := by
    have noted (entry : Option BufferAccess) :
        Option.Rel (fun entry other => other = syncs.foldl BufferAccess.noteUnit entry) entry
          (entry.map fun access => syncs.foldl BufferAccess.noteUnit access) := by
      cases entry with
      | none => exact .none
      | some entry => exact .some rfl
    exact ⟨fun name => noted _, fun name => noted _⟩
  obtain ⟨entry, _, rfl⟩ := updated.consulted (by
    rintro entry _ rfl
    rw [foldl_noteUnit]
    exact congrArg Access.isWrite (foldl_noteSync_same (syncs.map unitType) entry).1)
    requirer.recorded
  apply notNoted
  rw [foldl_noteUnit, hasNote_foldl_noteSync]
  refine Or.inr ⟨read, ?_⟩
  have samePipe := congrArg Access.pipeline (foldl_noteSync_same (syncs.map unitType) entry).1
  rw [← foldl_noteUnit] at samePipe
  rw [← isNeeded, startsAt_neededType, samePipe]

theorem needsNothing_processStatement
    (recognizes : Recognizes context (requiredFor context isRevisitPass state supported)) :
    needsNothing context isRevisitPass
      (state.noteUnits (processStatement context isRevisitPass state supported).1) supported =
        true := by
  rw [needsNothing_iff]
  intro syncType required
  have wasRequired := Matches.requires (moreNoted_noteUnits state _) trivial required
  refine not_mem_requiredSyncs_noteUnits ?_ required
  exact (map_unitType_insertAll recognizes _).symm ▸ wasRequired

end Statement

/-! ## Whole visits -/

theorem SameStatements.visitBy {units : List SyncUnit → List SyncUnit → Prop}
    (reflexive : ∀ syncs, units syncs syncs)
    (transitive : ∀ syncs others third, units syncs others → units others third → units syncs third)
    (emitted : ∀ isRevisitPass state supported syncs,
      units syncs (syncs ++ (processStatement context isRevisitPass state supported).1))
    (isRevisitPass : Bool)
    (state : PassState)
    (block : Block) :
    SameStatements units block (visitBy context isRevisitPass state block).1 := by
  have either (isRevisitPass : Bool)
      (revisits : isRevisitPass = false → ∀ state block,
        SameStatements units block (SyncInsertVS.visitBy context true state block).1)
      (state : PassState) (block : Block) :
      SameStatements units block (SyncInsertVS.visitBy context isRevisitPass state block).1 := by
    induction block generalizing state with
    | stop syncs =>
      cases isRevisitPass <;> exact .stop (reflexive syncs)
    | operation syncs op rest restSame =>
      rw [visitBy_operation]
      exact .operation (emitted _ _ _ _) (restSame _)
    | letStmt syncs value body rest bodySame restSame =>
      rw [visitBy_letStmt]
      exact .letStmt (emitted _ _ _ _) (bodySame _) (restSame _)
    | ifThenElse syncs condition thenCase elseCase rest thenSame elseSame restSame =>
      rw [visitBy_ifThenElse]
      exact .ifThenElse (reflexive syncs) (thenSame _) (elseSame _) (restSame _)
    | forLoop syncs extent body rest bodySame restSame =>
      cases isRevisitPass with
      | true => exact .forLoop (reflexive syncs) (bodySame _) (restSame _)
      | false =>
        exact .forLoop (reflexive syncs)
          ((bodySame _).trans transitive (revisits rfl _ _)) (restSame _)
    | unrolledLoop syncs extent first second rest firstSame secondSame restSame =>
      rw [visitBy_unrolledLoop]
      exact .unrolledLoop (reflexive syncs) (firstSame _) (secondSame _) (restSame _)
  exact either isRevisitPass (fun _ => either true Bool.noConfusion) state block

section Order

variable {context : PassContext} {isRevisitPass : Bool} {first second third : PassState}
  {block larger : Block}

theorem MoreNoted.trans (more : MoreNoted first second) (next : MoreNoted second third) :
    MoreNoted first third := by
  have rel {entry other last : Option BufferAccess}
      (related : Option.Rel (NotedMore fun _ => True) entry other)
      (relatedNext : Option.Rel (NotedMore fun _ => True) other last) :
      Option.Rel (NotedMore fun _ => True) entry last := by
    cases related with
    | none => exact relatedNext
    | some notedMore =>
      cases relatedNext with
      | some notedNext => exact .some (notedMore.trans notedNext)
  exact ⟨fun name => rel (more.accesses name) (next.accesses name),
    fun name => rel (more.writes name) (next.writes name)⟩

theorem MoreNoted.barriers (more : MoreNoted first second) : MoreBarriers first second := by
  have rel {entry other : Option BufferAccess}
      (related : Option.Rel (NotedMore fun _ => True) entry other) :
      Option.Rel (NotedMore fun syncType => syncType = .pipeBarrier .v) entry other := by
    cases related with
    | none => exact .none
    | some notedMore => exact .some (notedMore.narrow fun _ _ => trivial)
  exact ⟨fun name => rel (more.accesses name), fun name => rel (more.writes name)⟩

theorem MoreNoted.refl (state : PassState) : MoreNoted state state :=
  Matches.refl (transports_notedMore _).refl state

theorem MoreNoted.toCounter (counter : Nat) (more : MoreNoted first second) :
    MoreNoted first (second.withCounter counter) :=
  ⟨more.accesses, more.writes⟩

theorem MoreNoted.fromCounter {counter : Nat} (more : MoreNoted first second) :
    MoreNoted (first.withCounter counter) second :=
  ⟨more.accesses, more.writes⟩

/-- The same statements, each with at least the synchronization before it. -/
abbrev MoreSynced (block larger : Block) : Prop :=
  SameStatements (Covered fun _ => True) block larger

theorem moreSynced_visitBy (context : PassContext) (isRevisitPass : Bool)
    (state : PassState) (block : Block) :
    MoreSynced block (visitBy context isRevisitPass state block).1 := by
  apply SameStatements.visitBy
  · exact fun _ _ _ member => member
  · exact fun _ _ _ covered next syncType isKind member =>
      next syncType isKind (covered syncType isKind member)
  · intro _ _ _ syncs syncType _ member
    rw [List.map_append]
    exact List.mem_append_left _ member

theorem MoreNoted.trace (more : MoreNoted first second) (synced : MoreSynced block larger) :
    MoreNoted (trace context isRevisitPass first block)
      (trace context isRevisitPass second larger) :=
  trace_matches (transports_notedMore _) isRevisitPass synced more

theorem MoreSynced.refl (block : Block) : MoreSynced block block :=
  SameStatements.refl (fun _ _ _ member => member) block

theorem MoreNoted.quiet (more : MoreNoted first second) (synced : MoreSynced block larger)
    (quiet : throughout context (needsNothing context) isRevisitPass first block = true) :
    throughout context (needsNothing context) isRevisitPass second larger = true := by
  have keeps (isRevisitPass : Bool) (first second : PassState) (supported : List Access)
      (more : MoreNoted first second)
      (nothing : needsNothing context isRevisitPass first supported = true) :
      needsNothing context isRevisitPass second supported = true :=
    needsNothing_of_moreNoted more nothing
  exact throughout_of_matches (transports_notedMore _) keeps synced more quiet

theorem noVectorHazard_of_moreBarriers (more : MoreBarriers first second)
    (synced : SameStatements (Covered fun syncType => syncType = .pipeBarrier .v) block larger)
    (noHazard : throughout context (meetsNoVectorHazard context) isRevisitPass first block = true) :
    throughout context (meetsNoVectorHazard context) isRevisitPass second larger = true := by
  have keeps (isRevisitPass : Bool) (first second : PassState) (supported : List Access)
      (more : MoreBarriers first second)
      (noHazard : meetsNoVectorHazard context isRevisitPass first supported = true) :
      meetsNoVectorHazard context isRevisitPass second supported = true :=
    meetsNoVectorHazard_of_moreBarriers more noHazard
  exact throughout_of_matches (transports_notedMore _) keeps synced more noHazard

/-- Whatever is emitted in a visit is recognized afterwards. -/
def Recognized (context : PassContext) (isRevisitPass : Bool) (state : PassState)
    (block : Block) : Prop :=
  context.platform ≠ .a5 ∨
    throughout context (meetsNoVectorHazard context) isRevisitPass state block = true

theorem MoreNoted.recognized (more : MoreNoted first second) (synced : MoreSynced block larger)
    (recognized : Recognized context isRevisitPass first block) :
    Recognized context isRevisitPass second larger :=
  recognized.imp id (noVectorHazard_of_moreBarriers more.barriers
    (synced.imp fun _ _ covered syncType _ => covered syncType trivial))

theorem moreNoted_visitBy (context : PassContext) (isRevisitPass : Bool)
    (state : PassState) (block : Block) :
    MoreNoted (trace context isRevisitPass state block)
      (visitBy context isRevisitPass state block).2 := by
  induction block generalizing state with
  | stop syncs =>
    cases isRevisitPass <;> exact MoreNoted.refl _
  | operation syncs op rest restMore =>
    rw [visitBy_operation]
    have visited := moreNoted_processStatement context isRevisitPass (state.noteUnits syncs)
      (supportedAccesses context op)
    exact (visited.trace (MoreSynced.refl rest)).trans (restMore _)
  | letStmt syncs value body rest bodyMore restMore =>
    rw [visitBy_letStmt]
    have visited := moreNoted_processStatement context isRevisitPass (state.noteUnits syncs)
      (scanBufferLoads context value)
    have inner := (visited.trace (MoreSynced.refl body)).trans (bodyMore _)
    exact (inner.trace (MoreSynced.refl rest)).trans (restMore _)
  | ifThenElse syncs condition thenCase elseCase rest thenMore elseMore restMore =>
    rw [visitBy_ifThenElse]
    have merged := Matches.overwrittenBy (MoreNoted.refl (state.noteUnits syncs))
      (thenMore (state.noteUnits syncs))
    exact ((MoreNoted.toCounter _ merged).trace (MoreSynced.refl rest)).trans (restMore _)
  | forLoop syncs extent body rest bodyMore restMore =>
    have inner := bodyMore (state.noteUnits syncs)
    cases isRevisitPass with
    | true => exact (inner.trace (MoreSynced.refl rest)).trans (restMore _)
    | false => exact ((inner.toCounter _).trace (MoreSynced.refl rest)).trans (restMore _)
  | unrolledLoop syncs extent first second rest firstMore secondMore restMore =>
    rw [visitBy_unrolledLoop]
    have middle := ((firstMore (state.noteUnits syncs)).trace (MoreSynced.refl second)).trans
      (secondMore _)
    exact (middle.trace (MoreSynced.refl rest)).trans (restMore _)

/-! ## Settled programs -/

/-- A condition on the synchronization before each statement. -/
def everySyncs (holds : List SyncUnit → Prop) : Block → Prop
  | .stop syncs => holds syncs
  | .operation syncs _ rest => holds syncs ∧ everySyncs holds rest
  | .letStmt syncs _ body rest => holds syncs ∧ everySyncs holds body ∧ everySyncs holds rest
  | .ifThenElse syncs _ thenCase elseCase rest =>
    holds syncs ∧ everySyncs holds thenCase ∧ everySyncs holds elseCase ∧ everySyncs holds rest
  | .forLoop syncs _ body rest => holds syncs ∧ everySyncs holds body ∧ everySyncs holds rest
  | .unrolledLoop syncs _ first second rest =>
    holds syncs ∧ everySyncs holds first ∧ everySyncs holds second ∧ everySyncs holds rest

/-- Every type of synchronization stands at most once before a statement. -/
def NoRepeats (syncs : List SyncUnit) : Prop :=
  (syncs.map unitType).Nodup

variable {state : PassState} {supported : List Access}

theorem noRepeats_processStatement {syncs : List SyncUnit}
    (recognizes :
      Recognizes context (requiredFor context isRevisitPass (state.noteUnits syncs) supported))
    (once : NoRepeats syncs) :
    NoRepeats
      (syncs ++ (processStatement context isRevisitPass (state.noteUnits syncs) supported).1) := by
  unfold NoRepeats
  rw [List.map_append, processStatement, map_unitType_insertAll recognizes, List.nodup_append]
  refine ⟨once, List.nodup_dedup _, ?_⟩
  rintro syncType read _ required rfl
  exact not_mem_requiredSyncs_noteUnits read required

/-- After a visit nothing more is needed, and nothing stands twice that did not before. -/
structure Settles
    (context : PassContext)
    (isRevisitPass : Bool)
    (state : PassState)
    (block : Block) :
    Prop where
  quiet :
    throughout context (needsNothing context) isRevisitPass state
      (visitBy context isRevisitPass state block).1 = true
  finish :
    MoreNoted (visitBy context isRevisitPass state block).2
      (trace context isRevisitPass state (visitBy context isRevisitPass state block).1)
  once :
    everySyncs NoRepeats block → everySyncs NoRepeats (visitBy context isRevisitPass state block).1

namespace Settles

theorem later (settles : Settles context isRevisitPass first block) (more : MoreNoted first second)
    (synced : MoreSynced (visitBy context isRevisitPass first block).1 larger) :
    throughout context (needsNothing context) isRevisitPass second larger = true ∧
      MoreNoted (visitBy context isRevisitPass first block).2
        (trace context isRevisitPass second larger) :=
  ⟨more.quiet synced settles.quiet, settles.finish.trans (more.trace synced)⟩

theorem statement {state : PassState} {syncs : List SyncUnit} {op : Operation} {rest : Block}
    (recognizes : Recognizes context
      (requiredFor context isRevisitPass (state.noteUnits syncs) (supportedAccesses context op)))
    (restSettles : Settles context isRevisitPass
      (processStatement context isRevisitPass (state.noteUnits syncs)
        (supportedAccesses context op)).2 rest) :
    Settles context isRevisitPass state (.operation syncs op rest) := by
  have restLater := restSettles.later (processStatement_moreNoted recognizes) (MoreSynced.refl _)
  constructor
  · rw [visitBy_operation]
    simp only [throughout, Bool.and_eq_true, PassState.noteUnits_append]
    exact ⟨needsNothing_processStatement recognizes, restLater.1⟩
  · rw [visitBy_operation]
    simp only [SyncInsertVS.trace, PassState.noteUnits_append]
    exact restLater.2
  · rw [visitBy_operation]
    exact fun once => ⟨noRepeats_processStatement recognizes once.1, restSettles.once once.2⟩

theorem letStmt {state : PassState} {syncs : List SyncUnit} {value : Expr} {body rest : Block}
    (recognizes : Recognizes context
      (requiredFor context isRevisitPass (state.noteUnits syncs) (scanBufferLoads context value)))
    (bodySettles : Settles context isRevisitPass
      (processStatement context isRevisitPass (state.noteUnits syncs)
        (scanBufferLoads context value)).2 body)
    (restSettles : Settles context isRevisitPass
      (visitBy context isRevisitPass
        (processStatement context isRevisitPass (state.noteUnits syncs)
          (scanBufferLoads context value)).2 body).2 rest) :
    Settles context isRevisitPass state (.letStmt syncs value body rest) := by
  have bodyLater := bodySettles.later (processStatement_moreNoted recognizes) (MoreSynced.refl _)
  have restLater := restSettles.later bodyLater.2 (MoreSynced.refl _)
  constructor
  · rw [visitBy_letStmt]
    simp only [throughout, Bool.and_eq_true, PassState.noteUnits_append]
    exact ⟨⟨needsNothing_processStatement recognizes, bodyLater.1⟩, restLater.1⟩
  · rw [visitBy_letStmt]
    simp only [SyncInsertVS.trace, PassState.noteUnits_append]
    exact restLater.2
  · rw [visitBy_letStmt]
    exact fun once => ⟨noRepeats_processStatement recognizes once.1, bodySettles.once once.2.1,
      restSettles.once once.2.2⟩

theorem ifThenElse {state : PassState} {syncs : List SyncUnit} {condition : Expr}
    {thenCase elseCase rest : Block}
    (thenSettles : Settles context isRevisitPass (state.noteUnits syncs) thenCase)
    (elseSettles : Settles context isRevisitPass
      ((state.noteUnits syncs).withCounter
        (visitBy context isRevisitPass (state.noteUnits syncs) thenCase).2.eventIdCounter)
      elseCase)
    (restSettles : Settles context isRevisitPass
      (((state.noteUnits syncs).overwrittenBy
        (visitBy context isRevisitPass (state.noteUnits syncs) thenCase).2).withCounter
          (visitBy context isRevisitPass
            ((state.noteUnits syncs).withCounter
              (visitBy context isRevisitPass (state.noteUnits syncs) thenCase).2.eventIdCounter)
            elseCase).2.eventIdCounter)
      rest) :
    Settles context isRevisitPass state (.ifThenElse syncs condition thenCase elseCase rest) := by
  have saved := MoreNoted.refl (state.noteUnits syncs)
  have elseLater := elseSettles.later (saved.withCounter _) (MoreSynced.refl _)
  have merged := Matches.overwrittenBy saved thenSettles.finish
  have restLater := restSettles.later (merged.withCounter _) (MoreSynced.refl _)
  constructor
  · rw [visitBy_ifThenElse]
    simp only [throughout, Bool.and_eq_true]
    exact ⟨⟨thenSettles.quiet, elseLater.1⟩, restLater.1⟩
  · rw [visitBy_ifThenElse]
    exact restLater.2
  · rw [visitBy_ifThenElse]
    exact fun once => ⟨once.1, thenSettles.once once.2.1, elseSettles.once once.2.2.1,
      restSettles.once once.2.2.2⟩

variable {state : PassState} {syncs : List SyncUnit} {extent : Expr} {rest body : Block}

theorem revisitedLoop (bodySettles : Settles context true (state.noteUnits syncs) body)
    (restSettles : Settles context true
      (visitBy context true (state.noteUnits syncs) body).2 rest) :
    Settles context true state (.forLoop syncs extent body rest) := by
  have restLater := restSettles.later bodySettles.finish (MoreSynced.refl _)
  refine ⟨?_, restLater.2, fun once => ⟨once.1, bodySettles.once once.2.1,
    restSettles.once once.2.2⟩⟩
  have body := bodySettles.quiet
  have rest := restLater.1
  simp only [visitBy, if_true] at body rest ⊢
  simp only [revisitStmt, throughout, Bool.and_eq_true, Bool.true_or]
  exact ⟨⟨body, trivial⟩, rest⟩

theorem visitedLoop (bodySettles : Settles context false (state.noteUnits syncs) body)
    (revisitSettles : Settles context true
      ((state.noteUnits syncs).backEdge (visitStmt context (state.noteUnits syncs) body).2)
      (visitStmt context (state.noteUnits syncs) body).1)
    (restSettles : Settles context false
      ((visitStmt context (state.noteUnits syncs) body).2.withCounter
        (revisitStmt context
          ((state.noteUnits syncs).backEdge (visitStmt context (state.noteUnits syncs) body).2)
          (visitStmt context (state.noteUnits syncs) body).1).2.eventIdCounter)
      rest) :
    Settles context false state (.forLoop syncs extent body rest) := by
  have saved := MoreNoted.refl (state.noteUnits syncs)
  -- the first visit of the final body, which the revisit has extended
  have bodyLater := bodySettles.later saved (moreSynced_visitBy context true
    ((state.noteUnits syncs).backEdge (visitStmt context (state.noteUnits syncs) body).2) _)
  have revisitLater := revisitSettles.later
    (Matches.backEdge (transports_notedMore _) saved bodyLater.2) (MoreSynced.refl _)
  have restLater := restSettles.later (bodyLater.2.withCounter _) (MoreSynced.refl _)
  refine ⟨?_, restLater.2, fun once => ⟨once.1,
    revisitSettles.once (bodySettles.once once.2.1), restSettles.once once.2.2⟩⟩
  change throughout context (needsNothing context) false state (.forLoop syncs extent _ _) = true
  simp only [throughout, Bool.and_eq_true, Bool.false_or]
  exact ⟨⟨bodyLater.1, revisitLater.1⟩, restLater.1⟩

theorem unrolledLoop {firstCopy secondCopy : Block}
    (firstSettles : Settles context isRevisitPass (state.noteUnits syncs) firstCopy)
    (secondSettles : Settles context isRevisitPass
      (visitBy context isRevisitPass (state.noteUnits syncs) firstCopy).2 secondCopy)
    (restSettles : Settles context isRevisitPass
      (visitBy context isRevisitPass
        (visitBy context isRevisitPass (state.noteUnits syncs) firstCopy).2 secondCopy).2 rest) :
    Settles context isRevisitPass state (.unrolledLoop syncs extent firstCopy secondCopy rest) := by
  have secondLater := secondSettles.later firstSettles.finish (MoreSynced.refl _)
  have restLater := restSettles.later secondLater.2 (MoreSynced.refl _)
  constructor
  · rw [visitBy_unrolledLoop]
    simp only [throughout, Bool.and_eq_true]
    exact ⟨⟨firstSettles.quiet, secondLater.1⟩, restLater.1⟩
  · rw [visitBy_unrolledLoop]
    exact restLater.2
  · rw [visitBy_unrolledLoop]
    exact fun once => ⟨once.1, firstSettles.once once.2.1, secondSettles.once once.2.2.1,
      restSettles.once once.2.2.2⟩

end Settles

/-- A recognized block needs no further synchronization. -/
theorem settles_of_recognized (isRevisitPass : Bool) (state : PassState) (block : Block)
    (recognized : Recognized context isRevisitPass state block) :
    Settles context isRevisitPass state block := by
  have either (isRevisitPass : Bool)
      (revisits : isRevisitPass = false → ∀ state block, Recognized context true state block →
        Settles context true state block)
      (state : PassState) (block : Block)
      (recognized : Recognized context isRevisitPass state block) :
      Settles context isRevisitPass state block := by
    induction block generalizing state with
    | stop syncs =>
      cases isRevisitPass <;> exact ⟨rfl, MoreNoted.refl _, id⟩
    | operation syncs op rest restSettles =>
      simp only [Recognized, throughout, Bool.and_eq_true, or_and_left] at recognized
      have recognizes := recognized.1.imp id meetsNoVectorHazard_iff.mp
      apply Settles.statement recognizes
      apply restSettles
      exact (moreNoted_processStatement _ _ _ _).recognized (MoreSynced.refl rest) recognized.2
    | letStmt syncs value body rest bodySettles restSettles =>
      simp only [Recognized, throughout, Bool.and_eq_true, or_and_left] at recognized
      have recognizes := recognized.1.1.imp id meetsNoVectorHazard_iff.mp
      have visited := moreNoted_processStatement context isRevisitPass (state.noteUnits syncs)
        (scanBufferLoads context value)
      have bodySettled := bodySettles _ (visited.recognized (MoreSynced.refl body) recognized.1.2)
      have inner := (visited.trace (MoreSynced.refl body)).trans
        (moreNoted_visitBy context isRevisitPass _ body)
      exact Settles.letStmt recognizes bodySettled
        (restSettles _ (inner.recognized (MoreSynced.refl rest) recognized.2))
    | ifThenElse syncs condition thenCase elseCase rest thenSettles elseSettles restSettles =>
      simp only [Recognized, throughout, Bool.and_eq_true, or_and_left] at recognized
      have saved := MoreNoted.refl (state.noteUnits syncs)
      have merged := Matches.overwrittenBy saved
        (moreNoted_visitBy context isRevisitPass (state.noteUnits syncs) thenCase)
      apply Settles.ifThenElse (thenSettles _ recognized.1.1)
      · apply elseSettles
        exact (saved.toCounter _).recognized (MoreSynced.refl elseCase) recognized.1.2
      · apply restSettles
        exact (MoreNoted.toCounter _ merged).recognized (MoreSynced.refl rest) recognized.2
    | forLoop syncs extent body rest bodySettles restSettles =>
      simp only [Recognized, throughout, Bool.and_eq_true, or_and_left] at recognized
      have inner := moreNoted_visitBy context isRevisitPass (state.noteUnits syncs) body
      have bodySettled := bodySettles _ recognized.1.1
      cases isRevisitPass with
      | true =>
        apply Settles.revisitedLoop bodySettled
        exact restSettles _ (inner.recognized (MoreSynced.refl rest) recognized.2)
      | false =>
        have again := recognized.1.2
        rw [Bool.false_or] at again
        apply Settles.visitedLoop bodySettled
        · apply revisits rfl
          have edge : MoreNoted _ _ := Matches.backEdge (transports_notedMore _)
            (MoreNoted.refl (state.noteUnits syncs)) inner
          exact edge.recognized
            (moreSynced_visitBy context false (state.noteUnits syncs) body) again
        · apply restSettles
          exact (inner.toCounter _).recognized (MoreSynced.refl rest) recognized.2
    | unrolledLoop syncs extent first second rest firstSettles secondSettles restSettles =>
      simp only [Recognized, throughout, Bool.and_eq_true, or_and_left] at recognized
      have middle := moreNoted_visitBy context isRevisitPass (state.noteUnits syncs) first
      have finish := (middle.trace (MoreSynced.refl second)).trans
        (moreNoted_visitBy context isRevisitPass _ second)
      apply Settles.unrolledLoop (firstSettles _ recognized.1.1)
      · exact secondSettles _ (middle.recognized (MoreSynced.refl second) recognized.1.2)
      · exact restSettles _ (finish.recognized (MoreSynced.refl rest) recognized.2)
  exact either isRevisitPass (fun _ => either true Bool.noConfusion) state block recognized

theorem processStatement_of_needsNothing
    (nothing : needsNothing context isRevisitPass state supported = true) :
    (processStatement context isRevisitPass state supported).1 = [] := by
  unfold needsNothing at nothing
  simp only [processStatement, List.isEmpty_iff.mp nothing]
  rfl

/-- A block that needs nothing is left as it is. -/
theorem visitBy_of_quiet
    (quiet : throughout context (needsNothing context) isRevisitPass state block = true) :
    (visitBy context isRevisitPass state block).1 = block := by
  induction block generalizing state isRevisitPass with
  | stop syncs =>
    cases isRevisitPass <;> rfl
  | operation syncs op rest restQuiet =>
    simp only [throughout, Bool.and_eq_true] at quiet
    have visited := moreNoted_processStatement context isRevisitPass (state.noteUnits syncs)
      (supportedAccesses context op)
    rw [visitBy_operation, restQuiet (visited.quiet (MoreSynced.refl rest) quiet.2),
      processStatement_of_needsNothing quiet.1, List.append_nil]
  | letStmt syncs value body rest bodyQuiet restQuiet =>
    simp only [throughout, Bool.and_eq_true] at quiet
    have visited := moreNoted_processStatement context isRevisitPass (state.noteUnits syncs)
      (scanBufferLoads context value)
    have inner := (visited.trace (MoreSynced.refl body)).trans
      (moreNoted_visitBy context isRevisitPass _ body)
    rw [visitBy_letStmt, bodyQuiet (visited.quiet (MoreSynced.refl body) quiet.1.2),
      restQuiet (inner.quiet (MoreSynced.refl rest) quiet.2),
      processStatement_of_needsNothing quiet.1.1, List.append_nil]
  | ifThenElse syncs condition thenCase elseCase rest thenQuiet elseQuiet restQuiet =>
    simp only [throughout, Bool.and_eq_true] at quiet
    have saved := MoreNoted.refl (state.noteUnits syncs)
    have merged : MoreNoted _ _ := Matches.overwrittenBy saved
      (moreNoted_visitBy context isRevisitPass (state.noteUnits syncs) thenCase)
    rw [visitBy_ifThenElse, thenQuiet quiet.1.1,
      elseQuiet ((saved.toCounter _).quiet (MoreSynced.refl elseCase) quiet.1.2),
      restQuiet ((merged.toCounter _).quiet (MoreSynced.refl rest) quiet.2)]
  | forLoop syncs extent body rest bodyQuiet restQuiet =>
    simp only [throughout, Bool.and_eq_true] at quiet
    have inner := moreNoted_visitBy context isRevisitPass (state.noteUnits syncs) body
    have bodySame := bodyQuiet quiet.1.1
    cases isRevisitPass with
    | true =>
      have restSame := restQuiet (inner.quiet (MoreSynced.refl rest) quiet.2)
      exact congrArg₂ (Block.forLoop syncs extent) bodySame restSame
    | false =>
      have again := quiet.1.2
      rw [Bool.false_or] at again
      have edge : MoreNoted _ _ := Matches.backEdge (transports_notedMore _)
        (MoreNoted.refl (state.noteUnits syncs)) inner
      have revisitSame := bodyQuiet (edge.quiet (MoreSynced.refl body) again)
      have finalSame : (visitBy context true
          ((state.noteUnits syncs).backEdge (visitBy context false (state.noteUnits syncs) body).2)
          (visitBy context false (state.noteUnits syncs) body).1).1 = body := by
        rw [bodySame]
        exact revisitSame
      exact congrArg₂ (Block.forLoop syncs extent) finalSame
        (restQuiet ((inner.toCounter _).quiet (MoreSynced.refl rest) quiet.2))
  | unrolledLoop syncs extent firstCopy secondCopy rest firstQuiet secondQuiet restQuiet =>
    simp only [throughout, Bool.and_eq_true] at quiet
    have middle := moreNoted_visitBy context isRevisitPass (state.noteUnits syncs) firstCopy
    have finish := (middle.trace (MoreSynced.refl secondCopy)).trans
      (moreNoted_visitBy context isRevisitPass _ secondCopy)
    rw [visitBy_unrolledLoop, firstQuiet quiet.1.1,
      secondQuiet (middle.quiet (MoreSynced.refl secondCopy) quiet.1.2),
      restQuiet (finish.quiet (MoreSynced.refl rest) quiet.2)]

/-! ## Visits that change nothing -/

/-- How many synchronization units a sequence has. -/
def unitCount : Block → Nat
  | .stop syncs => syncs.length
  | .operation syncs _ rest => syncs.length + unitCount rest
  | .letStmt syncs _ body rest => syncs.length + unitCount body + unitCount rest
  | .ifThenElse syncs _ thenCase elseCase rest =>
    syncs.length + unitCount thenCase + unitCount elseCase + unitCount rest
  | .forLoop syncs _ body rest => syncs.length + unitCount body + unitCount rest
  | .unrolledLoop syncs _ firstCopy secondCopy rest =>
    syncs.length + unitCount firstCopy + unitCount secondCopy + unitCount rest

/-- A visit never removes synchronization. -/
theorem unitCount_visitBy (context : PassContext) (isRevisitPass : Bool)
    (state : PassState) (block : Block) :
    unitCount block ≤ unitCount (visitBy context isRevisitPass state block).1 := by
  have longer : SameStatements (fun syncs others => syncs.length ≤ others.length) block
      (visitBy context isRevisitPass state block).1 := by
    apply SameStatements.visitBy
    · exact fun syncs => Nat.le_refl _
    · exact fun _ _ _ longer longerNext => Nat.le_trans longer longerNext
    · intro _ _ _ syncs
      rw [List.length_append]
      exact Nat.le_add_right _ _
  generalize (visitBy context isRevisitPass state block).1 = visited at longer
  induction longer with
  | stop longer => exact longer
  | operation longer _ restLonger => exact Nat.add_le_add longer restLonger
  | letStmt longer _ _ bodyLonger restLonger =>
    exact Nat.add_le_add (Nat.add_le_add longer bodyLonger) restLonger
  | ifThenElse longer _ _ _ thenLonger elseLonger restLonger =>
    exact Nat.add_le_add (Nat.add_le_add (Nat.add_le_add longer thenLonger) elseLonger) restLonger
  | forLoop longer _ _ bodyLonger restLonger =>
    exact Nat.add_le_add (Nat.add_le_add longer bodyLonger) restLonger
  | unrolledLoop longer _ _ _ firstLonger secondLonger restLonger =>
    exact Nat.add_le_add (Nat.add_le_add (Nat.add_le_add longer firstLonger) secondLonger)
      restLonger

theorem needsNothing_of_length
    (none : (processStatement context isRevisitPass state supported).1.length = 0) :
    needsNothing context isRevisitPass state supported = true := by
  unfold needsNothing
  cases required :
    requiredSyncs context isRevisitPass state (supported.map (freshAccess context)) with
  | nil => rfl
  | cons syncType rest =>
    rw [List.length_eq_zero_iff] at none
    simp only [processStatement, required, insertAll, List.append_eq_nil_iff] at none
    cases syncType with
    | barrierAll => cases none.1
    | eventPair source target => cases none.1
    | pipeBarrier pipe =>
      simp only [insertSynchronization] at none
      split at none <;> cases none.1

theorem noVectorHazard_of_quiet
    (quiet : throughout context (needsNothing context) isRevisitPass state block = true) :
    throughout context (meetsNoVectorHazard context) isRevisitPass state block = true := by
  have keeps (isRevisitPass : Bool) (first second : PassState) (supported : List Access)
      (more : MoreNoted first second)
      (nothing : needsNothing context isRevisitPass first supported = true) :
      meetsNoVectorHazard context isRevisitPass second supported = true :=
    meetsNoVectorHazard_of_needsNothing (needsNothing_of_moreNoted more nothing)
  exact throughout_of_matches (transports_notedMore _) keeps (MoreSynced.refl block)
    (MoreNoted.refl state) quiet

theorem finish_of_quiet
    (quiet : throughout context (needsNothing context) isRevisitPass state block = true) :
    MoreNoted (visitBy context isRevisitPass state block).2
      (trace context isRevisitPass state block) := by
  have settles := settles_of_recognized isRevisitPass state block
    (Or.inr (noVectorHazard_of_quiet quiet))
  have finish := settles.finish
  rwa [visitBy_of_quiet quiet] at finish

theorem processStatement_moreNoted_of_needsNothing
    (nothing : needsNothing context isRevisitPass state supported = true) :
    MoreNoted (processStatement context isRevisitPass state supported).2
      (recordStatement context isRevisitPass state supported) := by
  have more := processStatement_moreNoted (Or.inr (needsNothing_iff.mp nothing _))
  rw [processStatement_of_needsNothing nothing] at more
  have same : state.noteUnits [] = state := by
    unfold PassState.noteUnits PassState.mapAccesses
    simp only [List.foldl_nil, Option.map_id_fun', id_eq]
  rwa [same] at more

/-- A visit that adds nothing had nothing to add. -/
theorem quiet_of_unitCount
    (same : unitCount (visitBy context isRevisitPass state block).1 = unitCount block) :
    throughout context (needsNothing context) isRevisitPass state block = true := by
  induction block generalizing state isRevisitPass with
  | stop syncs => rfl
  | operation syncs op rest restQuiet =>
    rw [visitBy_operation] at same
    simp only [unitCount, List.length_append] at same
    have restLonger := unitCount_visitBy context isRevisitPass
      (processStatement context isRevisitPass (state.noteUnits syncs)
        (supportedAccesses context op)).2 rest
    have nothing := needsNothing_of_length
      (by omega : (processStatement context isRevisitPass (state.noteUnits syncs)
        (supportedAccesses context op)).1.length = 0)
    have later := restQuiet (Nat.le_antisymm (by omega) restLonger)
    simp only [throughout, Bool.and_eq_true]
    exact ⟨nothing, (processStatement_moreNoted_of_needsNothing nothing).quiet
      (MoreSynced.refl rest) later⟩
  | letStmt syncs value body rest bodyQuiet restQuiet =>
    rw [visitBy_letStmt] at same
    simp only [unitCount, List.length_append] at same
    have bodyLonger := unitCount_visitBy context isRevisitPass
      (processStatement context isRevisitPass (state.noteUnits syncs)
        (scanBufferLoads context value)).2 body
    have restLonger := unitCount_visitBy context isRevisitPass
      (visitBy context isRevisitPass
        (processStatement context isRevisitPass (state.noteUnits syncs)
          (scanBufferLoads context value)).2 body).2 rest
    have nothing := needsNothing_of_length
      (by omega : (processStatement context isRevisitPass (state.noteUnits syncs)
        (scanBufferLoads context value)).1.length = 0)
    have inner := bodyQuiet (Nat.le_antisymm (by omega) bodyLonger)
    have later := restQuiet (Nat.le_antisymm (by omega) restLonger)
    have visited := processStatement_moreNoted_of_needsNothing nothing
    have finish := (finish_of_quiet inner).trans (visited.trace (MoreSynced.refl body))
    simp only [throughout, Bool.and_eq_true]
    exact ⟨⟨nothing, visited.quiet (MoreSynced.refl body) inner⟩,
      finish.quiet (MoreSynced.refl rest) later⟩
  | ifThenElse syncs condition thenCase elseCase rest thenQuiet elseQuiet restQuiet =>
    rw [visitBy_ifThenElse] at same
    simp only [unitCount] at same
    have thenLonger := unitCount_visitBy context isRevisitPass (state.noteUnits syncs) thenCase
    have elseLonger := unitCount_visitBy context isRevisitPass
      ((state.noteUnits syncs).withCounter
        (visitBy context isRevisitPass (state.noteUnits syncs) thenCase).2.eventIdCounter)
      elseCase
    have restLonger := unitCount_visitBy context isRevisitPass
      (((state.noteUnits syncs).overwrittenBy
        (visitBy context isRevisitPass (state.noteUnits syncs) thenCase).2).withCounter
          (visitBy context isRevisitPass
            ((state.noteUnits syncs).withCounter
              (visitBy context isRevisitPass (state.noteUnits syncs) thenCase).2.eventIdCounter)
            elseCase).2.eventIdCounter)
      rest
    have inThen := thenQuiet (Nat.le_antisymm (by omega) thenLonger)
    have inElse := elseQuiet (Nat.le_antisymm (by omega) elseLonger)
    have later := restQuiet (Nat.le_antisymm (by omega) restLonger)
    have saved := MoreNoted.refl (state.noteUnits syncs)
    have merged : MoreNoted _ _ := Matches.overwrittenBy saved (finish_of_quiet inThen)
    simp only [throughout, Bool.and_eq_true]
    exact ⟨⟨inThen, saved.fromCounter.quiet (MoreSynced.refl elseCase) inElse⟩,
      merged.fromCounter.quiet (MoreSynced.refl rest) later⟩
  | forLoop syncs extent body rest bodyQuiet restQuiet =>
    have bodyLonger := unitCount_visitBy context isRevisitPass (state.noteUnits syncs) body
    cases isRevisitPass with
    | true =>
      have restLonger := unitCount_visitBy context true
        (visitBy context true (state.noteUnits syncs) body).2 rest
      change syncs.length + unitCount (visitBy context true (state.noteUnits syncs) body).1 +
        unitCount (visitBy context true
          (visitBy context true (state.noteUnits syncs) body).2 rest).1 =
          syncs.length + unitCount body + unitCount rest at same
      have inner := bodyQuiet (Nat.le_antisymm (by omega) bodyLonger)
      have later := restQuiet (Nat.le_antisymm (by omega) restLonger)
      simp only [throughout, Bool.and_eq_true, Bool.true_or]
      exact ⟨⟨inner, trivial⟩, (finish_of_quiet inner).quiet (MoreSynced.refl rest) later⟩
    | false =>
      have finalLonger := unitCount_visitBy context true
        ((state.noteUnits syncs).backEdge (visitBy context false (state.noteUnits syncs) body).2)
        (visitBy context false (state.noteUnits syncs) body).1
      have restLonger := unitCount_visitBy context false
        ((visitBy context false (state.noteUnits syncs) body).2.withCounter
          (visitBy context true
            ((state.noteUnits syncs).backEdge
              (visitBy context false (state.noteUnits syncs) body).2)
            (visitBy context false (state.noteUnits syncs) body).1).2.eventIdCounter)
        rest
      change syncs.length + unitCount (visitBy context true
          ((state.noteUnits syncs).backEdge (visitBy context false (state.noteUnits syncs) body).2)
          (visitBy context false (state.noteUnits syncs) body).1).1 +
        unitCount (visitBy context false
          ((visitBy context false (state.noteUnits syncs) body).2.withCounter
            (visitBy context true
              ((state.noteUnits syncs).backEdge
                (visitBy context false (state.noteUnits syncs) body).2)
              (visitBy context false (state.noteUnits syncs) body).1).2.eventIdCounter)
          rest).1 = syncs.length + unitCount body + unitCount rest at same
      have inner := bodyQuiet (Nat.le_antisymm (by omega) bodyLonger)
      have finish := finish_of_quiet inner
      -- the first visit has changed nothing, so the revisit is one of the same body
      rw [visitBy_of_quiet inner] at same finalLonger restLonger
      have again := bodyQuiet (Nat.le_antisymm (by omega) finalLonger)
      have later := restQuiet (Nat.le_antisymm (by omega) restLonger)
      have edge : MoreNoted _ _ := Matches.backEdge (transports_notedMore _)
        (MoreNoted.refl (state.noteUnits syncs)) finish
      simp only [throughout, Bool.and_eq_true, Bool.false_or]
      exact ⟨⟨inner, edge.quiet (MoreSynced.refl body) again⟩,
        finish.fromCounter.quiet (MoreSynced.refl rest) later⟩
  | unrolledLoop syncs extent firstCopy secondCopy rest firstQuiet secondQuiet restQuiet =>
    rw [visitBy_unrolledLoop] at same
    simp only [unitCount] at same
    have firstLonger := unitCount_visitBy context isRevisitPass (state.noteUnits syncs) firstCopy
    have secondLonger := unitCount_visitBy context isRevisitPass
      (visitBy context isRevisitPass (state.noteUnits syncs) firstCopy).2 secondCopy
    have restLonger := unitCount_visitBy context isRevisitPass
      (visitBy context isRevisitPass
        (visitBy context isRevisitPass (state.noteUnits syncs) firstCopy).2 secondCopy).2 rest
    have inFirst := firstQuiet (Nat.le_antisymm (by omega) firstLonger)
    have inSecond := secondQuiet (Nat.le_antisymm (by omega) secondLonger)
    have later := restQuiet (Nat.le_antisymm (by omega) restLonger)
    have middle := finish_of_quiet inFirst
    have finish := (finish_of_quiet inSecond).trans (middle.trace (MoreSynced.refl secondCopy))
    simp only [throughout, Bool.and_eq_true]
    exact ⟨⟨inFirst, middle.quiet (MoreSynced.refl secondCopy) inSecond⟩,
      finish.quiet (MoreSynced.refl rest) later⟩

end Order

/-! ## The pass and its own output -/

theorem vectorBarrier_notMem_insertAll (onA5 : context.platform = .a5) (counter : Nat)
    (syncTypes : List SyncType) :
    .pipeBarrier .v ∉ (insertAll context counter syncTypes).1.map unitType := by
  induction syncTypes generalizing counter with
  | nil => exact List.not_mem_nil
  | cons syncType rest ih =>
    simp only [insertAll, List.map_append, List.mem_append, not_or]
    refine ⟨?_, ih _⟩
    cases syncType with
    | barrierAll => simp [insertSynchronization, unitType]
    | eventPair source target => simp [insertSynchronization, unitType]
    | pipeBarrier pipe =>
      by_cases isVector : pipe = .v
      · simp [insertSynchronization, isVector, onA5, unitType]
      · simp [insertSynchronization, isVector, unitType, Ne.symm isVector]

theorem vectorBarriers_visitBy (onA5 : context.platform = .a5) (isRevisitPass : Bool)
    (state : PassState) (block : Block) :
    SameStatements (Covered fun syncType => syncType = .pipeBarrier .v)
      (visitBy context isRevisitPass state block).1 block := by
  have grown : SameStatements
      (fun syncs others => Covered (fun syncType => syncType = .pipeBarrier .v) others syncs) block
      (visitBy context isRevisitPass state block).1 := by
    apply SameStatements.visitBy
    · exact fun _ _ _ member => member
    · exact fun _ _ _ covered next syncType isKind member =>
        covered syncType isKind (next syncType isKind member)
    · rintro _ _ _ syncs _ rfl member
      rw [List.map_append, List.mem_append] at member
      exact member.resolve_right (vectorBarrier_notMem_insertAll onA5 _ _)
  exact grown.swap

/-- A body has no vector hazard beyond the vector barriers that it contains. -/
def vectorHazardFree (context : PassContext) (body : Block) : Bool :=
  throughout context (meetsNoVectorHazard context) false .initial body

/--
Running the pass on its output adds nothing, and no statement gets one type of synchronization
twice, just when the platform has vector barriers or the body needs none.
-/
theorem substitute_idempotent_iff
    (context : PassContext)
    (body : Block) :
    (substitute context (substitute context body) = substitute context body ∧
      (everySyncs NoRepeats body → everySyncs NoRepeats (substitute context body))) ↔
      (context.platform ≠ .a5 ∨ vectorHazardFree context body = true) := by
  constructor
  · rintro ⟨unchanged, _⟩
    by_cases onA5 : context.platform = .a5
    · refine Or.inr ?_
      have quiet : throughout context (needsNothing context) false .initial
          (substitute context body) = true :=
        quiet_of_unitCount (congrArg unitCount unchanged)
      -- what the first run emitted is no vector barrier, so the body has no hazard either
      exact noVectorHazard_of_moreBarriers (MoreNoted.refl _).barriers
        (vectorBarriers_visitBy onA5 false .initial body) (noVectorHazard_of_quiet quiet)
    · exact Or.inl onA5
  · intro recognized
    have settles := settles_of_recognized false .initial body recognized
    exact ⟨visitBy_of_quiet settles.quiet, settles.once⟩

/-- The pass on A5, with the vector operation `tl.ascend_exp`. -/
def expContext : PassContext where
  platform := .a5
  plan := ⟨[], []⟩
  table :=
    { operationConfig := fun name =>
        if name = "tl.ascend_exp" then some ⟨[(0, .write), (1, .read)], .v⟩ else none
      usesWorkspace := fun _ => false }
  isScalarVariable _ := false

/-- Replace a tile by its exponential. -/
def expInPlace : Operation :=
  .call (.intrinsic "tl.ascend_exp")
    [.accessPtr "a_ub" (.literal 0) .write, .accessPtr "a_ub" (.literal 0) .read]

/-- On A5 a second run inserts the vector event again. -/
theorem expTwice_repeated :
    let once :=
      substitute expContext (.operation [] expInPlace (.operation [] expInPlace (.stop [])))
    once = .operation [] expInPlace (.operation [.eventPair .v .v 1] expInPlace (.stop [])) ∧
      substitute expContext once ≠ once := by
  decide +kernel

end TilelangAscend.SyncInsertVS
