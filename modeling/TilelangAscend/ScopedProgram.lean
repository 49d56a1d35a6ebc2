import TilelangAscend.SyncSequenceMerge

namespace TilelangAscend.ScopedSync

open SyncInsert

/-!
# Programs with resource scopes

The statement kinds that `AscendSyncInsert` walks over, with the fields that it copies: blocks of
the two execution units, `While` loops and branches that leave a loop among them.  A sequence is
in the form into which `MergeStatementSequences` splits it, every statement with the
synchronization directly before it; `SeqStmt` nesting is flattened, and an empty sequence is the
no-op `Evaluate(0)`.
-/

/-! ## Statements -/

/-- The two execution units of a core: `resource_scope` 0 is Cube and 1 is Vector. -/
inductive ExecutionUnit where
  | cube
  | vector
  deriving Repr, DecidableEq

/-- `ForKind`. -/
inductive ForKind where
  | serial
  | parallel
  | vectorized
  | unrolled
  | threadBinding
  deriving Repr, DecidableEq

/-- The fields of a `For` beside its body. -/
structure LoopHeader where
  loopVar : String
  min : Expr
  extent : Expr
  kind : ForKind
  annotations : List (String × String)
  threadBinding : Option String
  deriving Repr, DecidableEq

/-- Fields of a node that the pass only compares and copies. -/
abbrev Fields := List (String × Expr)

/-- Attributes with a meaning to the pass; the last three mark unrolled loops. -/
def reservedKeys : List String :=
  ["resource_scope", "unrolled_loop", "iteration_start", "iteration_end"]

/-- A key of an attribute without a meaning to the pass. -/
abbrev AttrKey := { key : String // key ∉ reservedKeys }

/-- Declarations and checks that scope over a body. -/
inductive Declaration where
  | allocate
  | allocateConst
  | declBuffer
  | assertStmt
  | bufferRealize
  deriving Repr, DecidableEq

/-- Statements with one body, other than `For`. -/
inductive Wrapper where
  | letStmt (var : String) (value : Expr)
  | attrStmt (key : AttrKey) (value : Expr)
  | resourceScope (unit : ExecutionUnit)
  | whileLoop (condition : Expr)
  /-- `IfThenElse` without an else case. -/
  | ifThen (condition : Expr)
  /-- `Block` without an init statement, with the `BlockRealize` around it. -/
  | block (fields : Fields)
  | declaration (kind : Declaration) (fields : Fields)
  deriving DecidableEq

/-- Statements with two bodies. -/
inductive Branch where
  | ifThenElse (condition : Expr)
  /-- `Block` with an init statement, which is its first body. -/
  | blockInit (fields : Fields)
  deriving DecidableEq

/-- `tl.loop_break`, which leaves the innermost loop. -/
def loopBreak : Operation :=
  .call (.intrinsic "tl.loop_break") []

/--
Statement sequences.  The parameters are the statements that synchronize, the headers of `For`
loops, and the markers of unrolled loops; a phase of the pass that has none of them has `Empty`.
-/
inductive Body (Sync Loop Marker : Type) where
  | stop (syncs : List Sync)
  | operation (syncs : List Sync) (op : Operation) (rest : Body Sync Loop Marker)
  /-- `Evaluate(0)`. -/
  | noOp (syncs : List Sync) (rest : Body Sync Loop Marker)
  | wrap (syncs : List Sync) (wrapper : Wrapper) (body rest : Body Sync Loop Marker)
  | branch (syncs : List Sync) (kind : Branch) (first second rest : Body Sync Loop Marker)
  | forLoop (syncs : List Sync) (header : Loop) (body rest : Body Sync Loop Marker)
  /-- The attribute `unrolled_loop` around two marked iterations. -/
  | unrolledLoop (syncs : List Sync) (marker : Marker) (first second rest : Body Sync Loop Marker)
  deriving DecidableEq

/-- Value and node of an `unrolled_loop` attribute: the number in `loop_<n>` and the extent. -/
structure LoopMarker where
  loopId : Nat
  extent : Expr
  deriving Repr, DecidableEq

/-- A body before the pass. -/
abbrev SourceBody := Body Empty LoopHeader Empty

/-- A body after `ForLoopUnroller`. -/
abbrev UnrolledBody := Body Empty Empty LoopMarker

/-- A body after the visitor. -/
abbrev VisitedBody (Sync : Type) := Body Sync Empty LoopMarker

/-- A body after `LoopRebuilder`. -/
abbrev RebuiltBody (Sync : Type) := Body Sync LoopHeader Empty

namespace Body

variable {Sync OtherSync Loop Marker : Type}

/-- Put synchronization statements in front of a sequence. -/
def prepend
    (emitted : List Sync) :
    Body Sync Loop Marker → Body Sync Loop Marker
  | .stop syncs => .stop (emitted ++ syncs)
  | .operation syncs op rest => .operation (emitted ++ syncs) op rest
  | .noOp syncs rest => .noOp (emitted ++ syncs) rest
  | .wrap syncs wrapper body rest => .wrap (emitted ++ syncs) wrapper body rest
  | .branch syncs kind first second rest => .branch (emitted ++ syncs) kind first second rest
  | .forLoop syncs header body rest => .forLoop (emitted ++ syncs) header body rest
  | .unrolledLoop syncs marker first second rest =>
    .unrolledLoop (emitted ++ syncs) marker first second rest

/-- Rewrite every list of synchronization statements. -/
def mapSyncs
    (rewrite : List Sync → List OtherSync) :
    Body Sync Loop Marker → Body OtherSync Loop Marker
  | .stop syncs => .stop (rewrite syncs)
  | .operation syncs op rest => .operation (rewrite syncs) op (rest.mapSyncs rewrite)
  | .noOp syncs rest => .noOp (rewrite syncs) (rest.mapSyncs rewrite)
  | .wrap syncs wrapper body rest =>
    .wrap (rewrite syncs) wrapper (body.mapSyncs rewrite) (rest.mapSyncs rewrite)
  | .branch syncs kind first second rest =>
    .branch (rewrite syncs) kind (first.mapSyncs rewrite) (second.mapSyncs rewrite)
      (rest.mapSyncs rewrite)
  | .forLoop syncs header body rest =>
    .forLoop (rewrite syncs) header (body.mapSyncs rewrite) (rest.mapSyncs rewrite)
  | .unrolledLoop syncs marker first second rest =>
    .unrolledLoop (rewrite syncs) marker (first.mapSyncs rewrite) (second.mapSyncs rewrite)
      (rest.mapSyncs rewrite)

/-- The lists of synchronization statements of a sequence. -/
def syncLists : Body Sync Loop Marker → List (List Sync)
  | .stop syncs => [syncs]
  | .operation syncs _ rest => syncs :: rest.syncLists
  | .noOp syncs rest => syncs :: rest.syncLists
  | .wrap syncs _ body rest => syncs :: (body.syncLists ++ rest.syncLists)
  | .branch syncs _ first second rest =>
    syncs :: (first.syncLists ++ second.syncLists ++ rest.syncLists)
  | .forLoop syncs _ body rest => syncs :: (body.syncLists ++ rest.syncLists)
  | .unrolledLoop syncs _ first second rest =>
    syncs :: (first.syncLists ++ second.syncLists ++ rest.syncLists)

/-- Drop the synchronization and the no-ops of a sequence. -/
def erase : Body Sync Loop Marker → Body Empty Loop Marker
  | .stop _ => .stop []
  | .operation _ op rest => .operation [] op rest.erase
  | .noOp _ rest => rest.erase
  | .wrap _ wrapper body rest => .wrap [] wrapper body.erase rest.erase
  | .branch _ kind first second rest => .branch [] kind first.erase second.erase rest.erase
  | .forLoop _ header body rest => .forLoop [] header body.erase rest.erase
  | .unrolledLoop _ marker first second rest =>
    .unrolledLoop [] marker first.erase second.erase rest.erase

end Body

/-- Drop the loops of a source body that the analyzer proves empty. -/
def dropEmptyLoops
    (analyzer : ExtentAnalyzer) :
    SourceBody → SourceBody
  | .stop syncs => .stop syncs
  | .operation syncs op rest => .operation syncs op (dropEmptyLoops analyzer rest)
  | .noOp syncs rest => .noOp syncs (dropEmptyLoops analyzer rest)
  | .wrap syncs wrapper body rest =>
    .wrap syncs wrapper (dropEmptyLoops analyzer body) (dropEmptyLoops analyzer rest)
  | .branch syncs kind first second rest =>
    .branch syncs kind (dropEmptyLoops analyzer first) (dropEmptyLoops analyzer second)
      (dropEmptyLoops analyzer rest)
  | .forLoop syncs header body rest =>
    if analyzer.provesEmpty header.extent then
      dropEmptyLoops analyzer rest
    else
      .forLoop syncs header (dropEmptyLoops analyzer body) (dropEmptyLoops analyzer rest)
  | .unrolledLoop _ marker _ _ _ => marker.elim

/-- The headers of the loops of a source body. -/
def loopHeaders : SourceBody → List LoopHeader
  | .stop _ => []
  | .operation _ _ rest => loopHeaders rest
  | .noOp _ rest => loopHeaders rest
  | .wrap _ _ body rest => loopHeaders body ++ loopHeaders rest
  | .branch _ _ first second rest => loopHeaders first ++ loopHeaders second ++ loopHeaders rest
  | .forLoop _ header body rest => header :: (loopHeaders body ++ loopHeaders rest)
  | .unrolledLoop _ marker _ _ _ => marker.elim

/-! ## Unrolling -/

/-- `LoopInfo`. -/
structure LoopInfo where
  loopVar : String
  min : Expr
  extent : Expr
  kind : ForKind
  annotations : List (String × String)
  loopId : Nat
  depth : Nat
  deriving Repr, DecidableEq

/-- What `ForLoopUnroller` notes of a loop. -/
def LoopHeader.info
    (header : LoopHeader)
    (loopId depth : Nat) :
    LoopInfo where
  loopVar := header.loopVar
  min := header.min
  extent := header.extent
  kind := header.kind
  annotations := header.annotations
  loopId := loopId
  depth := depth

/--
`ForLoopUnroller`: every loop becomes two marked copies of its unrolled body.  `loop_counter`
grows by one with each noted loop.
-/
def forLoopUnroller
    (loopCounter currentDepth : Nat) :
    SourceBody → UnrolledBody × List LoopInfo
  | .stop syncs => (.stop syncs, [])
  | .operation syncs op rest =>
    let later := forLoopUnroller loopCounter currentDepth rest
    (.operation syncs op later.1, later.2)
  | .noOp syncs rest =>
    let later := forLoopUnroller loopCounter currentDepth rest
    (.noOp syncs later.1, later.2)
  | .wrap syncs wrapper body rest =>
    let inner := forLoopUnroller loopCounter currentDepth body
    let later := forLoopUnroller (loopCounter + inner.2.length) currentDepth rest
    (.wrap syncs wrapper inner.1 later.1, inner.2 ++ later.2)
  | .branch syncs kind first second rest =>
    let left := forLoopUnroller loopCounter currentDepth first
    let right := forLoopUnroller (loopCounter + left.2.length) currentDepth second
    let later := forLoopUnroller (loopCounter + left.2.length + right.2.length) currentDepth rest
    (.branch syncs kind left.1 right.1 later.1, left.2 ++ right.2 ++ later.2)
  | .forLoop syncs header body rest =>
    let inner := forLoopUnroller (loopCounter + 1) (currentDepth + 1) body
    let later := forLoopUnroller (loopCounter + 1 + inner.2.length) currentDepth rest
    (.unrolledLoop syncs ⟨loopCounter, header.extent⟩ inner.1 inner.1 later.1,
      header.info loopCounter currentDepth :: (inner.2 ++ later.2))
  | .unrolledLoop _ marker _ _ _ => marker.elim

/-! ## The visitor -/

/-- State of the visitor with `current_resource_scope_`, which is -1 outside all scopes. -/
structure ScopedState extends PassState where
  scope : Option ExecutionUnit

namespace ScopedState

/-- The state with another history. -/
def withHistory (state : ScopedState) (history : AccessHistory) : ScopedState :=
  { state with history := history }

/-- The state in which a statement with one body visits it. -/
def enter (state : ScopedState) : Wrapper → ScopedState
  | .resourceScope unit =>
    if state.scope = some unit then
      state
    else
      { state with history := .empty, scope := some unit }
  | .ifThen _ => state.withHistory .empty
  | _ => state

/-- The state after a statement with one body, from the states before it and after the body. -/
def leave (entry inner : ScopedState) : Wrapper → ScopedState
  | .resourceScope unit =>
    if entry.scope = some unit then
      inner
    else
      { inner with history := entry.history, scope := entry.scope }
  | .ifThen _ => inner.withHistory .empty
  | _ => inner

/-- The state in which a body of a statement with two bodies is visited, or what follows it. -/
def cut (state : ScopedState) : Branch → ScopedState
  | .ifThenElse _ => state.withHistory .empty
  | .blockInit _ => state

end ScopedState

/-- Synchronization before a statement with one body. -/
def Wrapper.before : Wrapper → List SyncUnit
  | .letStmt _ value => letBarrier value
  | .ifThen _ => [.barrierAll]
  | _ => []

/-- Synchronization after a statement with one body. -/
def Wrapper.after : Wrapper → List SyncUnit
  | .ifThen _ => [.barrierAll]
  | _ => []

/-- Synchronization around a statement with two bodies. -/
def Branch.around : Branch → List SyncUnit
  | .ifThenElse _ => [.barrierAll]
  | .blockInit _ => []

/-- `VisitStmt` of `AscendSyncInsert` on an unrolled body. -/
def visitStmt
    (context : PassContext) :
    ScopedState → UnrolledBody → VisitedBody SyncUnit × ScopedState
  | state, .stop _ => (.stop [], state)
  | state, .operation _ op rest =>
    let visited := visitOperation context state.toPassState op
    let later := visitStmt context { state with toPassState := visited.2 } rest
    (.operation visited.1 op later.1, later.2)
  | state, .noOp _ rest =>
    let later := visitStmt context state rest
    (.noOp [] later.1, later.2)
  | state, .wrap _ wrapper body rest =>
    let inner := visitStmt context (state.enter wrapper) body
    let later := visitStmt context (state.leave inner.2 wrapper) rest
    (.wrap wrapper.before wrapper inner.1 (later.1.prepend wrapper.after), later.2)
  | state, .branch _ kind first second rest =>
    let left := visitStmt context (state.cut kind) first
    let right := visitStmt context (left.2.cut kind) second
    let later := visitStmt context (right.2.cut kind) rest
    (.branch kind.around kind left.1 right.1 (later.1.prepend kind.around), later.2)
  | _, .forLoop _ header _ _ => header.elim
  | state, .unrolledLoop _ marker first second rest =>
    if context.analyzer.provesEmpty marker.extent then
      let later := visitStmt context state rest
      (.noOp [] later.1, later.2)
    else
      let left := visitStmt context state first
      let right := visitStmt context left.2 second
      -- the exit after one iteration stands for every positive trip count
      let exitHistory :=
        if context.analyzer.provesPositive marker.extent then
          left.2.history
        else
          joinAccessHistories state.history left.2.history
      let later := visitStmt context (right.2.withHistory exitHistory) rest
      (.unrolledLoop [] marker left.1 right.1 later.1, later.2)

/-! ## Rebuilding -/

/-- What the rebuilder does with the statements that synchronize. -/
structure SyncMerge (Sync : Type) where
  barrierAll : Sync
  mergeSyncSequences : List Sync → List Sync → List Sync

/-- The merge of the statements that the pass emits. -/
def statementMerge : SyncMerge (SyncSequence.CallStatement Nat) where
  barrierAll := SyncSequence.createPipeBarrier "PIPE_ALL"
  mergeSyncSequences := SyncSequence.mergeSyncSequences

/-- The merge of units, each of them a barrier or a set with its wait. -/
def unitMerge : SyncMerge SyncUnit where
  barrierAll := .barrierAll
  mergeSyncSequences := mergeSyncSequences

section Rebuild

variable {Sync : Type} [DecidableEq Sync]

/-- `StmtFlattener` puts a full barrier in front of a store that has none there. -/
def flattenSyncs (merging : SyncMerge Sync) (op : Operation) (syncs : List Sync) : List Sync :=
  match op with
  | .store _ _ _ =>
    if syncs.getLast? = some merging.barrierAll then syncs else syncs ++ [merging.barrierAll]
  | .call _ _ => syncs

/-- Drop the no-ops of a sequence and its bodies, and rewrite what stands before operations. -/
def dropNoOps
    (fence : Operation → List Sync → List Sync) :
    RebuiltBody Sync → RebuiltBody Sync
  | .stop syncs => .stop syncs
  | .operation syncs op rest => .operation (fence op syncs) op (dropNoOps fence rest)
  | .noOp syncs rest => (dropNoOps fence rest).prepend syncs
  | .wrap syncs wrapper body rest =>
    .wrap syncs wrapper (dropNoOps fence body) (dropNoOps fence rest)
  | .branch syncs kind first second rest =>
    .branch syncs kind (dropNoOps fence first) (dropNoOps fence second) (dropNoOps fence rest)
  | .forLoop syncs header body rest =>
    .forLoop syncs header (dropNoOps fence body) (dropNoOps fence rest)
  | .unrolledLoop _ marker _ _ _ => marker.elim

/-- `FlattenStmts`, with the no-ops that `MergeStatementSequences` passes over. -/
def flattenStmts (merging : SyncMerge Sync) : RebuiltBody Sync → RebuiltBody Sync :=
  dropNoOps (flattenSyncs merging)

/--
`MergeStatementSequences` and `MergeCorrespondingStatements` on flattened sequences.  It fails
if the copies differ in the number of their statements, in a kind or in a field.
-/
def mergeStatementSequences
    (merging : SyncMerge Sync) :
    RebuiltBody Sync → RebuiltBody Sync → Option (RebuiltBody Sync)
  | .stop first, .stop second => some (.stop (merging.mergeSyncSequences first second))
  | .operation firstSyncs firstOp firstRest, .operation secondSyncs secondOp secondRest =>
    if firstOp = secondOp then do
      let rest ← mergeStatementSequences merging firstRest secondRest
      some (.operation (merging.mergeSyncSequences firstSyncs secondSyncs) firstOp rest)
    else
      none
  | .wrap firstSyncs firstWrapper firstBody firstRest,
      .wrap secondSyncs secondWrapper secondBody secondRest =>
      if firstWrapper = secondWrapper then do
        let body ← mergeStatementSequences merging firstBody secondBody
        let rest ← mergeStatementSequences merging firstRest secondRest
        some (.wrap (merging.mergeSyncSequences firstSyncs secondSyncs) firstWrapper body rest)
      else
        none
  | .branch firstSyncs firstKind firstLeft firstRight firstRest,
      .branch secondSyncs secondKind secondLeft secondRight secondRest =>
      if firstKind = secondKind then do
        let left ← mergeStatementSequences merging firstLeft secondLeft
        let right ← mergeStatementSequences merging firstRight secondRight
        let rest ← mergeStatementSequences merging firstRest secondRest
        some (.branch (merging.mergeSyncSequences firstSyncs secondSyncs) firstKind left right rest)
      else
        none
  | .forLoop firstSyncs firstHeader firstBody firstRest,
      .forLoop secondSyncs secondHeader secondBody secondRest =>
      if firstHeader = secondHeader then do
        let body ← mergeStatementSequences merging firstBody secondBody
        let rest ← mergeStatementSequences merging firstRest secondRest
        some (.forLoop (merging.mergeSyncSequences firstSyncs secondSyncs) firstHeader body rest)
      else
        none
  | _, _ => none

/-- The header of a rebuilt loop; `LoopInfo` has no thread binding. -/
def LoopInfo.header (info : LoopInfo) : LoopHeader where
  loopVar := info.loopVar
  min := info.min
  extent := info.extent
  kind := info.kind
  annotations := info.annotations
  threadBinding := none

/-- `LoopRebuilder`: every pair of marked iterations becomes a loop again. -/
def loopRebuilder
    (merging : SyncMerge Sync)
    (loopInfos : List LoopInfo) :
    VisitedBody Sync → Option (RebuiltBody Sync)
  | .stop syncs => some (.stop syncs)
  | .operation syncs op rest => do
      let rest ← loopRebuilder merging loopInfos rest
      some (.operation syncs op rest)
  | .noOp syncs rest => do
      let rest ← loopRebuilder merging loopInfos rest
      some (.noOp syncs rest)
  | .wrap syncs wrapper body rest => do
      let body ← loopRebuilder merging loopInfos body
      let rest ← loopRebuilder merging loopInfos rest
      some (.wrap syncs wrapper body rest)
  | .branch syncs kind first second rest => do
      let first ← loopRebuilder merging loopInfos first
      let second ← loopRebuilder merging loopInfos second
      let rest ← loopRebuilder merging loopInfos rest
      some (.branch syncs kind first second rest)
  | .forLoop _ header _ _ => header.elim
  | .unrolledLoop syncs marker first second rest => do
      -- the unroller has noted every loop
      let info ← loopInfos.find? fun info => info.loopId = marker.loopId
      let first ← loopRebuilder merging loopInfos first
      let second ← loopRebuilder merging loopInfos second
      let body ← mergeStatementSequences merging (flattenStmts merging first)
        (flattenStmts merging second)
      let rest ← loopRebuilder merging loopInfos rest
      some (.forLoop syncs info.header body rest)

end Rebuild

/-- The state in which the visitor starts. -/
def initialState : ScopedState where
  history := .empty
  eventIdCounter := 0
  scope := none

/-- The unrolled body after the visitor, with units. -/
def annotate (context : PassContext) (loopCounter : Nat) (body : SourceBody) :
    VisitedBody SyncUnit :=
  (visitStmt context initialState (forLoopUnroller loopCounter 0 body).1).1

/-- `Substitute`: unroll the loops, visit the statements, and rebuild the loops. -/
def substitute (context : PassContext) (loopCounter : Nat) (body : SourceBody) :
    Option (RebuiltBody (SyncSequence.CallStatement Nat)) :=
  loopRebuilder statementMerge (forLoopUnroller loopCounter 0 body).2
    ((annotate context loopCounter body).mapSyncs SyncSequence.emitAll)

end TilelangAscend.ScopedSync
