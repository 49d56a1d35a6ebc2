import Mathlib.Data.List.Sort
import TilelangAscend.GraphSearch
import TilelangAscend.SyncProgram

namespace TilelangAscend.SyncInsert

open GraphSearch

/-!
# Insertion of synchronization

The visitor of `AscendSyncInsert`.  It keeps, for every buffer, the accesses that may still be
outstanding, each with the events and barriers that were emitted after it, and emits what a
statement still needs before it.  Loops are unrolled twice beforehand: the second copy shows
the dependencies that a back edge carries, and the state after the first copy is the one that
the rest of the program sees.
-/

/-! ## Completion facts -/

/-- Events emitted after an access: edges between pipelines. -/
abbrev SyncGraph := List (Pipeline × Pipeline)

namespace SyncGraph

/-- `AddSync` for an event pair. -/
def addSync (graph : SyncGraph) (source target : Pipeline) : SyncGraph :=
  graph.insert (source, target)

/-- `IntersectCompletion`: the pipelines that both graphs reach from the producer. -/
def intersectCompletion (graph other : SyncGraph) (producer : Pipeline) : SyncGraph :=
  ((graph.map Prod.snd).filter fun destination =>
    destination ≠ producer && hasPath graph producer destination &&
      hasPath other producer destination).map fun destination => (producer, destination)

end SyncGraph

/-- An outstanding access; `pipeBarriers` are the pipelines with a barrier emitted after it. -/
structure BufferAccess where
  bufferName : BufferName
  isWrite : Bool
  pipeline : Pipeline
  syncGraph : SyncGraph
  pipeBarriers : List Pipeline
  physicalAddress : Int
  isSliced : Bool
  deriving Repr, DecidableEq

/-- Outstanding accesses of each buffer. -/
abbrev AccessHistory := BufferName → List BufferAccess

/-- The history without accesses. -/
def AccessHistory.empty : AccessHistory :=
  fun _ => []

/-- Synchronization that a pair of accesses can require. -/
inductive SyncType where
  | barrierAll
  | pipeBarrier (pipe : Pipeline)
  | eventPair (source target : Pipeline)
  deriving Repr, DecidableEq

/-- Text of a synchronization type, by which requirements are sorted. -/
def SyncType.text : SyncType → String
  | .barrierAll => "PipeBarrier_ALL"
  | .pipeBarrier pipe => "PipeBarrier_PIPE_" ++ pipe.name
  | .eventPair source target => "EventPair_" ++ source.name ++ "_" ++ target.name

/-- `GetEventMapping`: the pairs of pipelines that have an event. -/
def eventMapping : List (Pipeline × Pipeline) :=
  [(.mte2, .mte1), (.mte1, .mte2), (.mte1, .m), (.m, .mte1), (.mte2, .v), (.v, .mte2),
   (.mte3, .v), (.v, .mte3), (.m, .v), (.v, .m), (.v, .v), (.mte3, .mte1), (.mte1, .mte3),
   (.mte1, .v), (.mte2, .m), (.m, .mte2), (.v, .mte1), (.m, .fix), (.fix, .m),
   (.mte3, .mte2), (.mte2, .mte3), (.s, .v), (.v, .s), (.s, .mte2), (.mte2, .s),
   (.s, .mte3), (.mte3, .s), (.mte2, .fix), (.fix, .mte2), (.fix, .s), (.m, .s),
   (.fix, .mte3)]

/-- `GetEventType`: the event of two pipelines, which names both of them. -/
def getEventType (source target : Pipeline) : Option SyncType :=
  if (source, target) ∈ eventMapping then some (.eventPair source target) else none

/-- `HasDataDependency`: two accesses share memory and one of them writes. -/
def hasDataDependency (plan : BufferPlan) (previous current : BufferAccess) : Bool :=
  let previousSize := plan.getBufferSize previous.bufferName
  let currentSize := plan.getBufferSize current.bufferName
  let sharesMemory : Bool :=
    if previous.bufferName = current.bufferName then
      true
    else if previous.physicalAddress ≠ -1 ∧ current.physicalAddress ≠ -1 then
      if 0 < previousSize ∧ 0 < currentSize then
        decide
          (previous.physicalAddress < current.physicalAddress + currentSize ∧
            current.physicalAddress < previous.physicalAddress + previousSize)
      else
        decide (previous.physicalAddress = current.physicalAddress)
    else
      false
  sharesMemory && (previous.isWrite || current.isWrite)

/-- `GetRequiredSyncType`: what the second access still needs to follow the first. -/
def getRequiredSyncType (previous current : BufferAccess) : Option SyncType :=
  if previous.pipeline = current.pipeline then
    if previous.pipeline ≠ .s ∧ previous.pipeline ∉ previous.pipeBarriers then
      some (.pipeBarrier previous.pipeline)
    else
      none
  else if hasPath previous.syncGraph previous.pipeline current.pipeline then
    none
  else
    getEventType previous.pipeline current.pipeline

/-! ## Requirements of a statement -/

/-- What the pass is given: platform, planned buffers, operations and the loop analyzer. -/
structure PassContext where
  platform : Platform
  plan : BufferPlan
  table : OperationTable
  analyzer : ExtentAnalyzer

/-- The access record of a touched buffer. -/
def freshAccess
    (context : PassContext)
    (pipeline : Pipeline)
    (touch : Touch) :
    BufferAccess where
  bufferName := touch.bufferName
  isWrite := touch.isWrite
  pipeline := pipeline
  syncGraph := []
  pipeBarriers := []
  physicalAddress := context.plan.getPhysicalAddress touch.bufferName
  isSliced := touch.isSliced

/-- Access records of an operation. -/
def operationAccesses (context : PassContext) (op : Operation) : List BufferAccess :=
  (op.touches context.table).map (freshAccess context (op.pipeline context.table))

/-- Requirements of one access. -/
def accessRequirements (context : PassContext) (history : AccessHistory)
    (access : BufferAccess) : List SyncType :=
  (if access.isSliced then [.barrierAll] else []) ++
    (context.plan.findRelatedBuffers access.bufferName).flatMap fun name =>
      (history name).filterMap fun previous =>
        if hasDataDependency context.plan previous access then
          getRequiredSyncType previous access
        else
          none

/-- `CollectSyncRequirements`. -/
def collectSyncRequirements (context : PassContext) (history : AccessHistory)
    (accesses : List BufferAccess) : List SyncType :=
  accesses.flatMap (accessRequirements context history)

/-- `OptimizeSyncRequirements`: sort by text and remove repetitions. -/
def optimizeSyncRequirements (requirements : List SyncType) : List SyncType :=
  (requirements.insertionSort fun first second => first.text ≤ second.text).dedup

/-- `UpdateSyncStatesAfterSync` for one access and one emitted synchronization. -/
def updateAccess (access : BufferAccess) (syncType : SyncType) : BufferAccess :=
  match syncType with
  | .eventPair source target =>
    if hasPath access.syncGraph access.pipeline source then
      { access with syncGraph := access.syncGraph.addSync source target }
    else
      access
  | .pipeBarrier pipe =>
    if access.pipeline = pipe then
      { access with pipeBarriers := access.pipeBarriers.insert pipe }
    else
      access
  | .barrierAll => access

/-- `UpdateSyncStatesAfterSync`. -/
def updateSyncStatesAfterSync (history : AccessHistory) (inserted : List SyncType) :
    AccessHistory :=
  fun name => (history name).map fun access => inserted.foldl updateAccess access

/-- Enter one access into the history of its buffer. -/
def recordAccess (history : AccessHistory) (access : BufferAccess) : AccessHistory :=
  Function.update history access.bufferName
    ((if access.isWrite then
        []
      else
        (history access.bufferName).filter fun previous =>
          ¬ (previous.isWrite = false ∧ previous.pipeline = access.pipeline)) ++
      [access])

/-- `UpdateLatestAccessHistory`. -/
def updateLatestAccessHistory (history : AccessHistory) (accesses : List BufferAccess) :
    AccessHistory :=
  accesses.foldl recordAccess history

/-- Whether two accesses of a buffer are joined into one. -/
def sameClass (first second : BufferAccess) : Bool :=
  first.pipeline = second.pipeline ∧ first.isWrite = second.isWrite

/-- Facts that hold for both of two accesses of one class. -/
def intersectAccess (previous access : BufferAccess) : BufferAccess :=
  { previous with
    syncGraph := previous.syncGraph.intersectCompletion access.syncGraph access.pipeline
    pipeBarriers := previous.pipeBarriers.filter (· ∈ access.pipeBarriers)
    isSliced := previous.isSliced || access.isSliced }

/-- Enter an access of one path into the joined accesses of a buffer. -/
def joinAccess : List BufferAccess → BufferAccess → List BufferAccess
  | [], access => [access]
  | previous :: rest, access =>
    if sameClass previous access then
      intersectAccess previous access :: rest
    else
      previous :: joinAccess rest access

/-- `JoinAccessHistories`: the history after either of two paths. -/
def joinAccessHistories (entry current : AccessHistory) : AccessHistory :=
  fun name => (entry name ++ current name).foldl joinAccess []

/-! ## The visitor -/

/-- State of the visitor. -/
structure PassState where
  history : AccessHistory
  eventIdCounter : Nat

/-- The state with another history. -/
def PassState.withHistory (state : PassState) (history : AccessHistory) : PassState :=
  { state with history := history }

/-- `InsertSynchronization`: the emitted statements and the event counter after them. -/
def insertSynchronization
    (context : PassContext)
    (counter : Nat) :
    SyncType → List SyncUnit × Nat
  | .barrierAll => ([.barrierAll], counter)
  | .pipeBarrier pipe =>
    if pipe = .v ∧ context.platform = .a5 then
      ([], counter)
    else
      ([.barrier pipe], counter)
  | .eventPair source target => ([.eventPair source target ((counter + 1) % 8)], (counter + 1) % 8)

/-- Insert a list of synchronizations in order. -/
def insertAll
    (context : PassContext) :
    Nat → List SyncType → List SyncUnit × Nat
  | counter, [] => ([], counter)
  | counter, syncType :: rest =>
    let emitted := insertSynchronization context counter syncType
    let later := insertAll context emitted.2 rest
    (emitted.1 ++ later.1, later.2)

/-- Visit of a call or a store: the synchronization before it and the state after it. -/
def visitOperation (context : PassContext) (state : PassState) (op : Operation) :
    List SyncUnit × PassState :=
  let accesses := operationAccesses context op
  let optimized := optimizeSyncRequirements (collectSyncRequirements context state.history accesses)
  let inserted := insertAll context state.eventIdCounter optimized
  (inserted.1,
    { history :=
        updateLatestAccessHistory (updateSyncStatesAfterSync state.history optimized) accesses
      eventIdCounter := inserted.2 })

/-- Barrier in front of a `LetStmt` whose value reads a sliced buffer. -/
def letBarrier (value : Expr) : List SyncUnit :=
  if (analyzeExprAccesses value).any ExprAccess.isSliced then [.barrierAll] else []

/-- `VisitStmt` of `AscendSyncInsert` on an unrolled sequence. -/
def visitStmt
    (context : PassContext) :
    PassState → Block → Block × PassState
  | state, .stop syncs => (.stop syncs, state)
  | state, .operation syncs op rest =>
    let visited := visitOperation context state op
    let later := visitStmt context visited.2 rest
    (.operation (syncs ++ visited.1) op later.1, later.2)
  | state, .letStmt syncs value body rest =>
    let inner := visitStmt context state body
    let later := visitStmt context inner.2 rest
    (.letStmt (syncs ++ letBarrier value) value inner.1 later.1, later.2)
  | state, .ifThenElse syncs condition thenCase elseCase rest =>
    let first := visitStmt context (state.withHistory .empty) thenCase
    let second := visitStmt context (first.2.withHistory .empty) elseCase
    let later := visitStmt context (second.2.withHistory .empty) rest
    (.ifThenElse (syncs ++ [.barrierAll]) condition first.1 second.1
      (later.1.prepend [.barrierAll]), later.2)
  | state, .forLoop syncs extent body rest =>
    let inner := visitStmt context state body
    let later := visitStmt context inner.2 rest
    (.forLoop syncs extent inner.1 later.1, later.2)
  | state, .unrolledLoop syncs extent first second rest =>
    if context.analyzer.provesEmpty extent then
      let later := visitStmt context state rest
      (later.1.prepend syncs, later.2)
    else
      let firstVisited := visitStmt context state first
      let secondVisited := visitStmt context firstVisited.2 second
      -- the exit after one iteration stands for every positive trip count
      let exitHistory :=
        if context.analyzer.provesPositive extent then
          firstVisited.2.history
        else
          joinAccessHistories state.history firstVisited.2.history
      let later := visitStmt context (secondVisited.2.withHistory exitHistory) rest
      (.unrolledLoop syncs extent firstVisited.1 secondVisited.1 later.1, later.2)

/-- `ForLoopUnroller`: every loop becomes two marked copies of its body. -/
def unrollForLoops : Block → Block
  | .stop syncs => .stop syncs
  | .operation syncs op rest => .operation syncs op (unrollForLoops rest)
  | .letStmt syncs value body rest =>
    .letStmt syncs value (unrollForLoops body) (unrollForLoops rest)
  | .ifThenElse syncs condition thenCase elseCase rest =>
    .ifThenElse syncs condition (unrollForLoops thenCase) (unrollForLoops elseCase)
      (unrollForLoops rest)
  | .forLoop syncs extent body rest =>
    .unrolledLoop syncs extent (unrollForLoops body) (unrollForLoops body) (unrollForLoops rest)
  | .unrolledLoop syncs extent first second rest =>
    .unrolledLoop syncs extent (unrollForLoops first) (unrollForLoops second) (unrollForLoops rest)

end TilelangAscend.SyncInsert
