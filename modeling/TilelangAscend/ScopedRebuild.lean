import TilelangAscend.ScopedProgram

namespace TilelangAscend.ScopedSync

open SyncInsert

/-!
# Rebuilt loops keep the program

The two visited copies of a loop body differ in their synchronization only, so they merge, and
without synchronization the rebuilt program is the source without its empty loops and no-ops.
Only the thread bindings of loops are missing: `LoopInfo` does not note them.
-/

/-! ## Erasure -/

namespace Body

variable {Sync OtherSync Loop OtherLoop Marker : Type}

/-- Rewrite the headers of loops. -/
def mapLoops
    (rewrite : Loop → OtherLoop) :
    Body Sync Loop Marker → Body Sync OtherLoop Marker
  | .stop syncs => .stop syncs
  | .operation syncs op rest => .operation syncs op (rest.mapLoops rewrite)
  | .noOp syncs rest => .noOp syncs (rest.mapLoops rewrite)
  | .wrap syncs wrapper body rest =>
    .wrap syncs wrapper (body.mapLoops rewrite) (rest.mapLoops rewrite)
  | .branch syncs kind first second rest =>
    .branch syncs kind (first.mapLoops rewrite) (second.mapLoops rewrite) (rest.mapLoops rewrite)
  | .forLoop syncs header body rest =>
    .forLoop syncs (rewrite header) (body.mapLoops rewrite) (rest.mapLoops rewrite)
  | .unrolledLoop syncs marker first second rest =>
    .unrolledLoop syncs marker (first.mapLoops rewrite) (second.mapLoops rewrite)
      (rest.mapLoops rewrite)

/-- No statement of a sequence is a no-op. -/
def NoOpFree : Body Sync Loop Marker → Prop
  | .stop _ => True
  | .operation _ _ rest => rest.NoOpFree
  | .noOp _ _ => False
  | .wrap _ _ body rest => body.NoOpFree ∧ rest.NoOpFree
  | .branch _ _ first second rest => first.NoOpFree ∧ second.NoOpFree ∧ rest.NoOpFree
  | .forLoop _ _ body rest => body.NoOpFree ∧ rest.NoOpFree
  | .unrolledLoop _ _ first second rest => first.NoOpFree ∧ second.NoOpFree ∧ rest.NoOpFree

@[simp] theorem erase_prepend (emitted : List Sync) (body : Body Sync Loop Marker) :
    (body.prepend emitted).erase = body.erase := by
  cases body <;> rfl

@[simp] theorem noOpFree_prepend (emitted : List Sync) (body : Body Sync Loop Marker) :
    (body.prepend emitted).NoOpFree ↔ body.NoOpFree := by
  cases body <;> rfl

theorem syncLists_mapSyncs (rewrite : List Sync → List OtherSync) (body : Body Sync Loop Marker) :
    (body.mapSyncs rewrite).syncLists = body.syncLists.map rewrite := by
  induction body with
  | stop => rfl
  | operation _ _ _ restLists => simp [mapSyncs, syncLists, restLists]
  | noOp _ _ restLists => simp [mapSyncs, syncLists, restLists]
  | wrap _ _ _ _ bodyLists restLists => simp [mapSyncs, syncLists, bodyLists, restLists]
  | branch _ _ _ _ _ firstLists secondLists restLists =>
    simp [mapSyncs, syncLists, firstLists, secondLists, restLists]
  | forLoop _ _ _ _ bodyLists restLists => simp [mapSyncs, syncLists, bodyLists, restLists]
  | unrolledLoop _ _ _ _ _ firstLists secondLists restLists =>
    simp [mapSyncs, syncLists, firstLists, secondLists, restLists]

end Body

open Body

/-- A header without its thread binding. -/
def LoopHeader.unbound (header : LoopHeader) : LoopHeader :=
  { header with threadBinding := none }

@[simp] theorem loopHeaders_erase (body : SourceBody) :
    loopHeaders body.erase = loopHeaders body := by
  induction body with
  | stop => rfl
  | operation _ _ _ restHeaders => exact restHeaders
  | noOp _ _ restHeaders => exact restHeaders
  | wrap _ _ _ _ bodyHeaders restHeaders => simp only [erase, loopHeaders, bodyHeaders, restHeaders]
  | branch _ _ _ _ _ firstHeaders secondHeaders restHeaders =>
    simp only [erase, loopHeaders, firstHeaders, secondHeaders, restHeaders]
  | forLoop _ _ _ _ bodyHeaders restHeaders =>
    simp only [erase, loopHeaders, bodyHeaders, restHeaders]
  | unrolledLoop _ marker => exact marker.elim

theorem LoopHeader.unbound_eq_iff {header : LoopHeader} :
    header.unbound = header ↔ header.threadBinding = none := by
  constructor
  · intro same
    rw [← same]
    rfl
  · intro isNone
    cases header
    cases isNone
    rfl

theorem mapLoops_unbound_iff {body : SourceBody} :
    body.mapLoops LoopHeader.unbound = body ↔
      ∀ header ∈ loopHeaders body, header.threadBinding = none := by
  induction body with
  | stop => simp [mapLoops, loopHeaders]
  | operation _ _ _ restHolds => simp [mapLoops, loopHeaders, restHolds]
  | noOp _ _ restHolds => simp [mapLoops, loopHeaders, restHolds]
  | wrap _ _ _ _ bodyHolds restHolds =>
    simp [mapLoops, loopHeaders, bodyHolds, restHolds, or_imp, forall_and]
  | branch _ _ _ _ _ firstHolds secondHolds restHolds =>
    simp [mapLoops, loopHeaders, firstHolds, secondHolds, restHolds, or_imp, forall_and]
  | forLoop _ _ _ _ bodyHolds restHolds =>
    simp [mapLoops, loopHeaders, bodyHolds, restHolds, LoopHeader.unbound_eq_iff, or_imp,
      forall_and]
  | unrolledLoop _ marker => exact marker.elim

section Merge

variable {Sync : Type}

theorem dropNoOps_spec (fence : Operation → List Sync → List Sync) (body : RebuiltBody Sync) :
    (dropNoOps fence body).erase = body.erase ∧ (dropNoOps fence body).NoOpFree := by
  induction body with
  | stop => exact ⟨rfl, trivial⟩
  | operation _ _ _ restKept => exact ⟨congrArg (Body.operation [] _) restKept.1, restKept.2⟩
  | noOp _ _ restKept =>
    exact ⟨(erase_prepend _ _).trans restKept.1, (noOpFree_prepend _ _).mpr restKept.2⟩
  | wrap _ _ _ _ bodyKept restKept =>
    exact ⟨congrArg₂ (Body.wrap [] _) bodyKept.1 restKept.1, bodyKept.2, restKept.2⟩
  | branch _ kind _ _ _ firstKept secondKept restKept =>
    refine ⟨?_, firstKept.2, secondKept.2, restKept.2⟩
    simp only [dropNoOps, erase, firstKept.1, secondKept.1, restKept.1]
  | forLoop _ _ _ _ bodyKept restKept =>
    exact ⟨congrArg₂ (Body.forLoop [] _) bodyKept.1 restKept.1, bodyKept.2, restKept.2⟩
  | unrolledLoop _ marker => exact marker.elim

theorem mergeStatementSequences_of_erase (merging : SyncMerge Sync)
    {first second : RebuiltBody Sync} (firstFree : first.NoOpFree)
    (secondFree : second.NoOpFree) (same : second.erase = first.erase) :
    ∃ merged,
      mergeStatementSequences merging first second = some merged ∧ merged.erase = first.erase := by
  induction first generalizing second with
  | stop =>
    cases second with
    | stop => exact ⟨_, rfl, rfl⟩
    | noOp => exact secondFree.elim
    | _ => cases same
  | noOp => exact firstFree.elim
  | operation syncs op _ restMerges =>
    cases second with
    | operation others otherOp _ =>
      obtain ⟨rfl, sameRest⟩ : otherOp = op ∧ _ := by simpa [erase] using same
      obtain ⟨rest, merges, isRest⟩ := restMerges firstFree (by exact secondFree) sameRest
      refine ⟨.operation (merging.mergeSyncSequences syncs others) otherOp rest, ?_, ?_⟩
      · simp only [mergeStatementSequences, merges]
        rfl
      · exact congrArg (Body.operation [] otherOp) isRest
    | noOp => exact secondFree.elim
    | _ => cases same
  | wrap syncs wrapper _ _ bodyMerges restMerges =>
    cases second with
    | wrap others otherWrapper _ _ =>
      obtain ⟨rfl, sameBody, sameRest⟩ : otherWrapper = wrapper ∧ _ ∧ _ := by
        simpa [erase] using same
      obtain ⟨body, bodyMerged, isBody⟩ := bodyMerges firstFree.1 secondFree.1 sameBody
      obtain ⟨rest, restMerged, isRest⟩ := restMerges firstFree.2 secondFree.2 sameRest
      refine ⟨.wrap (merging.mergeSyncSequences syncs others) otherWrapper body rest, ?_, ?_⟩
      · simp only [mergeStatementSequences, bodyMerged, restMerged]
        rfl
      · exact congrArg₂ (Body.wrap [] otherWrapper) isBody isRest
    | noOp => exact secondFree.elim
    | _ => cases same
  | branch syncs kind _ _ _ leftMerges rightMerges restMerges =>
    cases second with
    | branch others otherKind _ _ _ =>
      obtain ⟨rfl, sameLeft, sameRight, sameRest⟩ : otherKind = kind ∧ _ ∧ _ ∧ _ := by
        simpa [erase] using same
      obtain ⟨left, leftMerged, isLeft⟩ := leftMerges firstFree.1 secondFree.1 sameLeft
      obtain ⟨right, rightMerged, isRight⟩ := rightMerges firstFree.2.1 secondFree.2.1 sameRight
      obtain ⟨rest, restMerged, isRest⟩ := restMerges firstFree.2.2 secondFree.2.2 sameRest
      let merged := merging.mergeSyncSequences syncs others
      refine ⟨.branch merged otherKind left right rest, ?_, ?_⟩
      · simp only [mergeStatementSequences, leftMerged, rightMerged, restMerged]
        rfl
      · simp only [erase, isLeft, isRight, isRest]
    | noOp => exact secondFree.elim
    | _ => cases same
  | forLoop syncs header _ _ bodyMerges restMerges =>
    cases second with
    | forLoop others otherHeader _ _ =>
      obtain ⟨rfl, sameBody, sameRest⟩ : otherHeader = header ∧ _ ∧ _ := by
        simpa [erase] using same
      obtain ⟨body, bodyMerged, isBody⟩ := bodyMerges firstFree.1 secondFree.1 sameBody
      obtain ⟨rest, restMerged, isRest⟩ := restMerges firstFree.2 secondFree.2 sameRest
      refine ⟨.forLoop (merging.mergeSyncSequences syncs others) otherHeader body rest, ?_, ?_⟩
      · simp only [mergeStatementSequences, bodyMerged, restMerged]
        rfl
      · exact congrArg₂ (Body.forLoop [] otherHeader) isBody isRest
    | noOp => exact secondFree.elim
    | _ => cases same
  | unrolledLoop _ marker => exact marker.elim

end Merge

/-! ## Visited copies -/

/--
An unrolled sequence with the statements of a source sequence and any synchronization between
them, whose loops the table notes; a loop that the analyzer proves empty has become a no-op.
-/
inductive Copies
    {Sync : Type}
    (analyzer : ExtentAnalyzer)
    (loopInfos : List LoopInfo) :
    SourceBody → VisitedBody Sync → Prop where
  | stop {sourceSyncs : List Empty} {syncs : List Sync} :
      Copies analyzer loopInfos (.stop sourceSyncs) (.stop syncs)
  | operation {sourceSyncs : List Empty} {syncs : List Sync} {op : Operation}
      {source : SourceBody} {rest : VisitedBody Sync} :
      Copies analyzer loopInfos source rest →
      Copies analyzer loopInfos (.operation sourceSyncs op source) (.operation syncs op rest)
  | noOp {sourceSyncs : List Empty} {syncs : List Sync}
      {source : SourceBody} {rest : VisitedBody Sync} :
      Copies analyzer loopInfos source rest →
      Copies analyzer loopInfos (.noOp sourceSyncs source) (.noOp syncs rest)
  | wrap {sourceSyncs : List Empty} {syncs : List Sync} {wrapper : Wrapper}
      {sourceBody source : SourceBody} {body rest : VisitedBody Sync} :
      Copies analyzer loopInfos sourceBody body →
      Copies analyzer loopInfos source rest →
      Copies analyzer loopInfos (.wrap sourceSyncs wrapper sourceBody source)
        (.wrap syncs wrapper body rest)
  | branch {sourceSyncs : List Empty} {syncs : List Sync} {kind : Branch}
      {sourceFirst sourceSecond source : SourceBody} {first second rest : VisitedBody Sync} :
      Copies analyzer loopInfos sourceFirst first →
      Copies analyzer loopInfos sourceSecond second →
      Copies analyzer loopInfos source rest →
      Copies analyzer loopInfos (.branch sourceSyncs kind sourceFirst sourceSecond source)
        (.branch syncs kind first second rest)
  | emptyLoop {sourceSyncs : List Empty} {syncs : List Sync} {header : LoopHeader}
      {sourceBody source : SourceBody} {rest : VisitedBody Sync} :
      analyzer.provesEmpty header.extent = true →
      Copies analyzer loopInfos source rest →
      Copies analyzer loopInfos (.forLoop sourceSyncs header sourceBody source) (.noOp syncs rest)
  | forLoop {sourceSyncs : List Empty} {syncs : List Sync} {header : LoopHeader}
      {loopId depth : Nat}
      {sourceBody source : SourceBody} {first second rest : VisitedBody Sync} :
      analyzer.provesEmpty header.extent = false →
      loopInfos.find? (fun info => info.loopId = loopId) = some (header.info loopId depth) →
      Copies analyzer loopInfos sourceBody first →
      Copies analyzer loopInfos sourceBody second →
      Copies analyzer loopInfos source rest →
      Copies analyzer loopInfos (.forLoop sourceSyncs header sourceBody source)
        (.unrolledLoop syncs ⟨loopId, header.extent⟩ first second rest)

namespace Copies

variable {Sync OtherSync : Type} {analyzer : ExtentAnalyzer} {loopInfos : List LoopInfo}
  {source : SourceBody} {visited : VisitedBody Sync}

theorem prepend (copies : Copies analyzer loopInfos source visited) (emitted : List Sync) :
    Copies analyzer loopInfos source (visited.prepend emitted) := by
  cases copies with
  | stop => exact .stop
  | operation rest => exact .operation rest
  | noOp rest => exact .noOp rest
  | wrap body rest => exact .wrap body rest
  | branch first second rest => exact .branch first second rest
  | emptyLoop isEmpty rest => exact .emptyLoop isEmpty rest
  | forLoop nonempty noted first second rest => exact .forLoop nonempty noted first second rest

theorem mapSyncs (copies : Copies analyzer loopInfos source visited)
    (rewrite : List Sync → List OtherSync) :
    Copies analyzer loopInfos source (visited.mapSyncs rewrite) := by
  induction copies with
  | stop => exact .stop
  | operation _ rest => exact .operation rest
  | noOp _ rest => exact .noOp rest
  | wrap _ _ body rest => exact .wrap body rest
  | branch _ _ _ first second rest => exact .branch first second rest
  | emptyLoop isEmpty _ rest => exact .emptyLoop isEmpty rest
  | forLoop nonempty noted _ _ _ first second rest =>
    exact .forLoop nonempty noted first second rest

theorem rebuilt [DecidableEq Sync] (merging : SyncMerge Sync)
    (copies : Copies analyzer loopInfos source visited) :
    ∃ output,
      loopRebuilder merging loopInfos visited = some output ∧
        output.erase = (dropEmptyLoops analyzer source).erase.mapLoops LoopHeader.unbound := by
  induction copies with
  | stop => exact ⟨_, rfl, rfl⟩
  | @operation _ syncs op _ _ _ restRebuilt =>
    obtain ⟨rest, rebuilds, isRest⟩ := restRebuilt
    refine ⟨.operation syncs op rest, ?_, congrArg (Body.operation [] op) isRest⟩
    simp only [loopRebuilder, rebuilds]
    rfl
  | @noOp _ syncs _ _ _ restRebuilt =>
    obtain ⟨rest, rebuilds, isRest⟩ := restRebuilt
    refine ⟨.noOp syncs rest, ?_, isRest⟩
    simp only [loopRebuilder, rebuilds]
    rfl
  | @wrap _ syncs wrapper _ _ _ _ _ _ bodyRebuilt restRebuilt =>
    obtain ⟨body, bodyRebuilds, isBody⟩ := bodyRebuilt
    obtain ⟨rest, restRebuilds, isRest⟩ := restRebuilt
    refine ⟨.wrap syncs wrapper body rest, ?_, congrArg₂ (Body.wrap [] wrapper) isBody isRest⟩
    simp only [loopRebuilder, bodyRebuilds, restRebuilds]
    rfl
  | @branch _ syncs kind _ _ _ _ _ _ _ _ _ firstRebuilt secondRebuilt restRebuilt =>
    obtain ⟨first, firstRebuilds, isFirst⟩ := firstRebuilt
    obtain ⟨second, secondRebuilds, isSecond⟩ := secondRebuilt
    obtain ⟨rest, restRebuilds, isRest⟩ := restRebuilt
    refine ⟨.branch syncs kind first second rest, ?_, ?_⟩
    · simp only [loopRebuilder, firstRebuilds, secondRebuilds, restRebuilds]
      rfl
    · simp only [erase, isFirst, isSecond, isRest]
      rfl
  | @emptyLoop _ syncs header _ _ _ isEmpty _ restRebuilt =>
    obtain ⟨rest, rebuilds, isRest⟩ := restRebuilt
    refine ⟨.noOp syncs rest, ?_, ?_⟩
    · simp only [loopRebuilder, rebuilds]
      rfl
    · rw [dropEmptyLoops, if_pos isEmpty]
      exact isRest
  | @forLoop _ syncs header loopId depth _ _ _ _ _ nonempty noted _ _ _
      firstRebuilt secondRebuilt restRebuilt =>
      obtain ⟨first, firstRebuilds, isFirst⟩ := firstRebuilt
      obtain ⟨second, secondRebuilds, isSecond⟩ := secondRebuilt
      obtain ⟨rest, restRebuilds, isRest⟩ := restRebuilt
      -- both copies erase to the body, so flattened they merge
      obtain ⟨firstErased, firstFree⟩ := dropNoOps_spec (flattenSyncs merging) first
      obtain ⟨secondErased, secondFree⟩ := dropNoOps_spec (flattenSyncs merging) second
      have sameErased : (flattenStmts merging second).erase = (flattenStmts merging first).erase :=
        (secondErased.trans isSecond).trans (firstErased.trans isFirst).symm
      obtain ⟨body, merges, isBody⟩ :=
        mergeStatementSequences_of_erase merging firstFree secondFree sameErased
      refine ⟨.forLoop syncs header.unbound body rest, ?_, ?_⟩
      · simp only [loopRebuilder, noted, firstRebuilds, secondRebuilds, restRebuilds]
        simp only [Option.bind_eq_bind, Option.bind_some]
        rw [flattenStmts, merges]
        rfl
      · rw [dropEmptyLoops, if_neg (Bool.eq_false_iff.mp nonempty)]
        exact congrArg₂ (Body.forLoop [] header.unbound)
          (isBody.trans (firstErased.trans isFirst)) isRest

end Copies

/-! ## The unroller and the visitor -/

theorem loopIds_forLoopUnroller (loopCounter currentDepth : Nat) (source : SourceBody) :
    (forLoopUnroller loopCounter currentDepth source).2.map LoopInfo.loopId =
      List.range' loopCounter (forLoopUnroller loopCounter currentDepth source).2.length := by
  induction source generalizing loopCounter currentDepth with
  | stop => rfl
  | operation _ _ _ restIds => exact restIds loopCounter currentDepth
  | noOp _ _ restIds => exact restIds loopCounter currentDepth
  | wrap _ _ _ _ bodyIds restIds =>
    simp only [forLoopUnroller, List.map_append, List.length_append, bodyIds, restIds,
      List.range'_append_1]
  | branch _ _ _ _ _ firstIds secondIds restIds =>
    simp only [forLoopUnroller, List.map_append, List.length_append, firstIds, secondIds,
      restIds, List.range'_append_1]
    rw [Nat.add_assoc loopCounter, List.range'_append_1]
  | forLoop _ header _ _ bodyIds restIds =>
    simp only [forLoopUnroller, List.map_cons, List.map_append, List.length_cons,
      List.length_append, bodyIds, restIds, List.range'_append_1, List.range'_succ]
    rfl
  | unrolledLoop _ marker => exact marker.elim

theorem find?_loopId {loopInfos : List LoopInfo}
    (unique : (loopInfos.map LoopInfo.loopId).Nodup) {info : LoopInfo}
    (member : info ∈ loopInfos) :
    (loopInfos.find? fun other => other.loopId = info.loopId) = some info := by
  cases found : loopInfos.find? fun other => other.loopId = info.loopId with
  | none =>
    have missing := List.find?_eq_none.mp found info member
    simp at missing
  | some other =>
    have sameId : other.loopId = info.loopId := by simpa using List.find?_some found
    have otherMember := List.mem_of_find?_eq_some found
    exact congrArg some (List.inj_on_of_nodup_map unique otherMember member sameId)

theorem visitStmt_copies (context : PassContext) {loopInfos : List LoopInfo}
    (unique : (loopInfos.map LoopInfo.loopId).Nodup) {loopCounter currentDepth : Nat}
    {source : SourceBody} (noted : (forLoopUnroller loopCounter currentDepth source).2 ⊆ loopInfos)
    (state : ScopedState) :
    Copies context.analyzer loopInfos source
      (visitStmt context state (forLoopUnroller loopCounter currentDepth source).1).1 := by
  induction source generalizing loopCounter currentDepth state with
  | stop => exact .stop
  | operation _ _ _ restCopies => exact .operation (restCopies noted _)
  | noOp _ _ restCopies => exact .noOp (restCopies noted _)
  | wrap _ _ _ _ bodyCopies restCopies =>
    obtain ⟨bodyNoted, restNoted⟩ := List.append_subset.mp noted
    exact .wrap (bodyCopies bodyNoted _) ((restCopies restNoted _).prepend _)
  | branch _ _ _ _ _ firstCopies secondCopies restCopies =>
    obtain ⟨bothNoted, restNoted⟩ := List.append_subset.mp noted
    obtain ⟨firstNoted, secondNoted⟩ := List.append_subset.mp bothNoted
    exact .branch (firstCopies firstNoted _) (secondCopies secondNoted _)
      ((restCopies restNoted _).prepend _)
  | forLoop _ header _ _ bodyCopies restCopies =>
    obtain ⟨headNoted, laterNoted⟩ := List.cons_subset.mp noted
    obtain ⟨bodyNoted, restNoted⟩ := List.append_subset.mp laterNoted
    simp only [forLoopUnroller, visitStmt]
    split
    · rename_i isEmpty
      exact .emptyLoop isEmpty (restCopies restNoted _)
    · rename_i nonempty
      exact .forLoop (Bool.eq_false_iff.mpr nonempty) (find?_loopId unique headNoted)
        (bodyCopies bodyNoted _) (bodyCopies bodyNoted _) (restCopies restNoted _)
  | unrolledLoop _ marker => exact marker.elim

theorem annotate_copies (context : PassContext) (loopCounter : Nat) (body : SourceBody) :
    Copies context.analyzer (forLoopUnroller loopCounter 0 body).2 body
      (annotate context loopCounter body) := by
  apply visitStmt_copies context ?_ (List.Subset.refl _)
  rw [loopIds_forLoopUnroller]
  exact List.nodup_range'

/-! ## Emitted statements -/

section Emission

open SyncSequence

theorem emitAll_append (first second : List SyncInsert.SyncUnit) :
    emitAll (first ++ second) = emitAll first ++ emitAll second := by
  simp [emitAll, ungroup]

theorem getLast?_emitAll {syncs : List SyncInsert.SyncUnit} :
    (emitAll syncs).getLast? = some statementMerge.barrierAll ↔
      syncs.getLast? = some unitMerge.barrierAll := by
  rcases List.eq_nil_or_concat syncs with rfl | ⟨before, unit, rfl⟩
  · simp [emitAll, ungroup]
  · rw [List.concat_eq_append, emitAll_append, List.getLast?_append, List.getLast?_concat]
    cases unit with
    | barrierAll => simp [emitAll, ungroup, emit, SyncUnit.stmts, statementMerge, unitMerge]
    | barrier pipe =>
      simp [emitAll, ungroup, emit, SyncUnit.stmts, statementMerge, unitMerge,
        createPipeBarrier, name_ne_all pipe]
    | eventPair =>
      simp [emitAll, ungroup, emit, SyncUnit.stmts, statementMerge, unitMerge,
        createPipeBarrier, createWaitFlag]

theorem flattenSyncs_emitAll (op : Operation) (syncs : List SyncInsert.SyncUnit) :
    flattenSyncs statementMerge op (emitAll syncs) = emitAll (flattenSyncs unitMerge op syncs) := by
  cases op with
  | call => rfl
  | store =>
    simp only [flattenSyncs, getLast?_emitAll]
    split
    · rfl
    · exact (emitAll_append syncs [.barrierAll]).symm

/-- A sequence with the statements that its units stand for. -/
def Body.emitted {Loop Marker : Type} (body : Body SyncInsert.SyncUnit Loop Marker) :
    Body (CallStatement Nat) Loop Marker :=
  body.mapSyncs emitAll

theorem emitted_prepend {Loop Marker : Type} (syncs : List SyncInsert.SyncUnit)
    (body : Body SyncInsert.SyncUnit Loop Marker) :
    (body.prepend syncs).emitted = body.emitted.prepend (emitAll syncs) := by
  cases body <;> simp only [Body.prepend, Body.emitted, mapSyncs, emitAll_append]

theorem flattenStmts_emitted (body : RebuiltBody SyncInsert.SyncUnit) :
    flattenStmts statementMerge body.emitted = (flattenStmts unitMerge body).emitted := by
  induction body with
  | stop => rfl
  | operation syncs op _ restEmitted =>
    exact congrArg₂ (fun written rest => Body.operation written op rest)
      (flattenSyncs_emitAll op syncs) restEmitted
  | noOp syncs _ restEmitted =>
    exact (congrArg (Body.prepend (emitAll syncs)) restEmitted).trans (emitted_prepend syncs _).symm
  | wrap syncs wrapper _ _ bodyEmitted restEmitted =>
    exact congrArg₂ (Body.wrap (emitAll syncs) wrapper) bodyEmitted restEmitted
  | branch syncs kind _ _ _ firstEmitted secondEmitted restEmitted =>
    change Body.branch _ _ _ _ _ = Body.branch _ _ _ _ _
    congr 1
  | forLoop syncs header _ _ bodyEmitted restEmitted =>
    exact congrArg₂ (Body.forLoop (emitAll syncs) header) bodyEmitted restEmitted
  | unrolledLoop _ marker => exact marker.elim

theorem mergeStatementSequences_emitted (first second : RebuiltBody SyncInsert.SyncUnit) :
    mergeStatementSequences statementMerge first.emitted second.emitted =
      (mergeStatementSequences unitMerge first second).map Body.emitted := by
  have merged (left right : List SyncInsert.SyncUnit) :
      statementMerge.mergeSyncSequences (emitAll left) (emitAll right) =
        emitAll (unitMerge.mergeSyncSequences left right) :=
    mergeSyncSequences_emitAll left right
  induction first generalizing second with
  | stop syncs =>
    cases second with
    | stop others => exact congrArg (some <| Body.stop ·) (merged syncs others)
    | _ => rfl
  | operation syncs op _ restEmitted =>
    cases second with
    | operation others otherOp otherRest =>
      have rest := restEmitted otherRest
      simp only [Body.emitted, mapSyncs, mergeStatementSequences, merged] at rest ⊢
      split
      · rw [rest]
        cases mergeStatementSequences unitMerge _ otherRest <;> rfl
      · rfl
    | _ => rfl
  | noOp => cases second <;> rfl
  | wrap syncs wrapper _ _ bodyEmitted restEmitted =>
    cases second with
    | wrap others otherWrapper otherBody otherRest =>
      have body := bodyEmitted otherBody
      have rest := restEmitted otherRest
      simp only [Body.emitted, mapSyncs, mergeStatementSequences, merged] at body rest ⊢
      split
      · rw [body, rest]
        cases mergeStatementSequences unitMerge _ otherBody <;>
          cases mergeStatementSequences unitMerge _ otherRest <;> rfl
      · rfl
    | _ => rfl
  | branch syncs kind _ _ _ firstEmitted secondEmitted restEmitted =>
    cases second with
    | branch others otherKind otherFirst otherSecond otherRest =>
      have left := firstEmitted otherFirst
      have right := secondEmitted otherSecond
      have rest := restEmitted otherRest
      simp only [Body.emitted, mapSyncs, mergeStatementSequences, merged] at left right rest ⊢
      split
      · rw [left, right, rest]
        cases mergeStatementSequences unitMerge _ otherFirst <;>
          cases mergeStatementSequences unitMerge _ otherSecond <;>
            cases mergeStatementSequences unitMerge _ otherRest <;> rfl
      · rfl
    | _ => rfl
  | forLoop syncs header _ _ bodyEmitted restEmitted =>
    cases second with
    | forLoop others otherHeader otherBody otherRest =>
      have body := bodyEmitted otherBody
      have rest := restEmitted otherRest
      simp only [Body.emitted, mapSyncs, mergeStatementSequences, merged] at body rest ⊢
      split
      · rw [body, rest]
        cases mergeStatementSequences unitMerge _ otherBody <;>
          cases mergeStatementSequences unitMerge _ otherRest <;> rfl
      · rfl
    | _ => rfl
  | unrolledLoop _ marker => exact marker.elim

theorem loopRebuilder_emitted (loopInfos : List LoopInfo)
    (visited : VisitedBody SyncInsert.SyncUnit) :
    loopRebuilder statementMerge loopInfos visited.emitted =
      (loopRebuilder unitMerge loopInfos visited).map Body.emitted := by
  induction visited with
  | stop => rfl
  | operation syncs op rest restEmitted =>
    simp only [Body.emitted, mapSyncs, loopRebuilder] at restEmitted ⊢
    rw [restEmitted]
    cases loopRebuilder unitMerge loopInfos rest <;> rfl
  | noOp syncs rest restEmitted =>
    simp only [Body.emitted, mapSyncs, loopRebuilder] at restEmitted ⊢
    rw [restEmitted]
    cases loopRebuilder unitMerge loopInfos rest <;> rfl
  | wrap syncs wrapper body rest bodyEmitted restEmitted =>
    simp only [Body.emitted, mapSyncs, loopRebuilder] at bodyEmitted restEmitted ⊢
    rw [bodyEmitted, restEmitted]
    cases loopRebuilder unitMerge loopInfos body <;>
      cases loopRebuilder unitMerge loopInfos rest <;> rfl
  | branch syncs kind first second rest firstEmitted secondEmitted restEmitted =>
    simp only [Body.emitted, mapSyncs, loopRebuilder] at firstEmitted secondEmitted restEmitted ⊢
    rw [firstEmitted, secondEmitted, restEmitted]
    cases loopRebuilder unitMerge loopInfos first <;>
      cases loopRebuilder unitMerge loopInfos second <;>
        cases loopRebuilder unitMerge loopInfos rest <;> rfl
  | forLoop _ header => exact header.elim
  | unrolledLoop syncs marker first second rest firstEmitted secondEmitted restEmitted =>
    have bodyEmitted (left right : RebuiltBody SyncInsert.SyncUnit) :
        mergeStatementSequences statementMerge (flattenStmts statementMerge left.emitted)
            (flattenStmts statementMerge right.emitted) =
          (mergeStatementSequences unitMerge (flattenStmts unitMerge left)
            (flattenStmts unitMerge right)).map Body.emitted := by
      rw [flattenStmts_emitted, flattenStmts_emitted, mergeStatementSequences_emitted]
    simp only [Body.emitted, mapSyncs, loopRebuilder] at firstEmitted secondEmitted restEmitted ⊢
    rw [firstEmitted, secondEmitted, restEmitted]
    cases loopInfos.find? fun info => info.loopId = marker.loopId with
    | none => rfl
    | some info =>
      cases loopRebuilder unitMerge loopInfos first with
      | none => rfl
      | some left =>
        cases loopRebuilder unitMerge loopInfos second with
        | none => rfl
        | some right =>
          change (mergeStatementSequences statementMerge
            (flattenStmts statementMerge left.emitted)
            (flattenStmts statementMerge right.emitted)).bind _ = Option.map _
              ((mergeStatementSequences unitMerge (flattenStmts unitMerge left)
                (flattenStmts unitMerge right)).bind _)
          rw [bodyEmitted]
          cases mergeStatementSequences unitMerge (flattenStmts unitMerge left)
              (flattenStmts unitMerge right) <;>
            cases loopRebuilder unitMerge loopInfos rest <;> rfl

/-- The pass on units, each of which it emits as a whole. -/
def substituteUnits (context : PassContext) (loopCounter : Nat) (body : SourceBody) :
    Option (RebuiltBody SyncInsert.SyncUnit) :=
  loopRebuilder unitMerge (forLoopUnroller loopCounter 0 body).2 (annotate context loopCounter body)

theorem substitute_eq_emitted (context : PassContext) (loopCounter : Nat) (body : SourceBody) :
    substitute context loopCounter body =
      (substituteUnits context loopCounter body).map Body.emitted :=
  loopRebuilder_emitted _ _

/-- The statement after every set flag is the wait for the same event and id. -/
def SetsAwaited (output : RebuiltBody (CallStatement Nat)) : Prop :=
  ∀ stmts ∈ output.syncLists, ∀ before set after, stmts = before ++ set :: after →
    set.op = .ascendAutoSetFlag →
    ∃ wait rest, after = wait :: rest ∧ isMatchingEventPair set wait = true

theorem awaited_emitAll {units : List SyncInsert.SyncUnit}
    {before after : List (CallStatement Nat)} {set : CallStatement Nat}
    (parts : emitAll units = before ++ set :: after) (isSet : set.op = .ascendAutoSetFlag) :
    ∃ wait rest, after = wait :: rest ∧ isMatchingEventPair set wait = true := by
  induction units generalizing before with
  | nil => simp [emitAll, ungroup] at parts
  | cons unit rest ih =>
    have split : (emit unit).stmts ++ emitAll rest = before ++ set :: after := parts
    have notBarrier (name : String) : createPipeBarrier name ≠ set := by
      rintro rfl
      cases isSet
    cases unit with
    | barrierAll =>
      cases before with
      | nil => exact absurd (List.cons.inj split).1 (notBarrier _)
      | cons _ earlier => exact ih (List.cons.inj split).2
    | barrier =>
      cases before with
      | nil => exact absurd (List.cons.inj split).1 (notBarrier _)
      | cons _ earlier => exact ih (List.cons.inj split).2
    | eventPair source target eventId =>
      obtain ⟨isHead, tail⟩ | ⟨earlier, rfl⟩ :
          (createSetFlag (eventType source target) eventId = set ∧
            createWaitFlag (eventType source target) eventId :: emitAll rest = after) ∨
            ∃ earlier, before = createSetFlag (eventType source target) eventId :: earlier := by
        cases before with
        | nil => exact Or.inl (List.cons.inj split)
        | cons head earlier => exact Or.inr ⟨earlier, by rw [(List.cons.inj split).1]⟩
      · refine ⟨_, _, tail.symm, ?_⟩
        rw [← isHead]
        simp [isMatchingEventPair, sameEvent, CallStatement.sameArgument, createSetFlag,
          createWaitFlag]
      · cases earlier with
        | nil =>
          have isWait := (List.cons.inj (List.cons.inj split).2).1
          rw [← isWait] at isSet
          cases isSet
        | cons _ others => exact ih (List.cons.inj (List.cons.inj split).2).2

/-- The pass yields a program with the statements of its input. -/
def KeepsProgram (context : PassContext) (loopCounter : Nat) (body : SourceBody) : Prop :=
  ∃ output,
    substitute context loopCounter body = some output ∧
      output.erase = (dropEmptyLoops context.analyzer body).erase ∧
      SetsAwaited output

/--
The merges of the rebuilder never fail and keep every set flag in front of its wait; the program
is kept just if no loop that stays in it has a thread binding.
-/
theorem substitute_keepsProgram_iff
    (context : PassContext)
    (loopCounter : Nat)
    (body : SourceBody) :
    (∃ output, substitute context loopCounter body = some output ∧ SetsAwaited output) ∧
      (KeepsProgram context loopCounter body ↔
        ∀ header ∈ loopHeaders (dropEmptyLoops context.analyzer body),
          header.threadBinding = none) := by
  have copies := annotate_copies context loopCounter body
  obtain ⟨units, rebuilds, isUnits⟩ := copies.rebuilt unitMerge
  obtain ⟨output, substitutes, isOutput⟩ := (copies.mapSyncs emitAll).rebuilt statementMerge
  have substituted : substitute context loopCounter body = some output := substitutes
  have isEmitted : units.emitted = output := by
    rw [substitute_eq_emitted, substituteUnits, rebuilds] at substituted
    exact Option.some.inj substituted
  have awaited : SetsAwaited output := by
    intro stmts member before set after parts isSet
    rw [← isEmitted, Body.emitted, syncLists_mapSyncs] at member
    obtain ⟨syncs, _, rfl⟩ := List.mem_map.mp member
    exact awaited_emitAll parts isSet
  refine ⟨⟨output, substituted, awaited⟩, ?_⟩
  rw [← loopHeaders_erase, ← mapLoops_unbound_iff]
  constructor
  · rintro ⟨other, otherSubstituted, keeps, _⟩
    cases substituted.symm.trans otherSubstituted
    exact isOutput.symm.trans keeps
  · intro unbound
    exact ⟨output, substituted, isOutput.trans unbound, awaited⟩

/-- A loop over the threads of a block, as it stands in a kernel. -/
def threadLoop : SourceBody :=
  .forLoop [] ⟨"tx", .literal 0, .literal 128, .threadBinding, [], some "threadIdx.x"⟩
    (.operation [] (.store "a" (.var "tx") (.literal 0)) (.stop [])) (.stop [])

/-- A pass without planned buffers that knows nothing about loop extents. -/
def bareContext : PassContext where
  platform := .a2
  plan := ⟨[], []⟩
  table := ⟨fun _ => none, fun _ => false⟩
  analyzer := ⟨fun _ => false, fun _ => false⟩

/-- The rebuilt loop is not bound to the threads any more. -/
theorem threadLoop_unbound : ¬ KeepsProgram bareContext 0 threadLoop := by
  rintro ⟨output, substituted, keeps, _⟩
  have changed : (substitute bareContext 0 threadLoop).map Body.erase ≠
      some (dropEmptyLoops bareContext.analyzer threadLoop).erase := by
    decide +kernel
  apply changed
  rw [substituted, Option.map_some, keeps]

end Emission

end TilelangAscend.ScopedSync
