import TilelangAscend.SyncInsertion

namespace TilelangAscend.SyncInsertVS

open SyncInsert

/-!
# Synchronization of the scalar and vector pipelines

The visitor of `AscendSyncInsertVS`.  For every buffer name it keeps one latest access and one
latest write, each with the synchronization emitted after it.  A loop body is visited twice:
the second visit starts from the accesses at the end of the first one, marked as carried by
the back edge, and only those make it emit more.
-/

/-! ## Accesses of a statement -/

/-- An access to a buffer on a pipeline. -/
structure Access where
  bufferName : BufferName
  isWrite : Bool
  pipeline : Pipeline
  deriving Repr, DecidableEq

/--
What the pass is given.  `isScalarVariable` holds for buffers of the scopes `local.var` and
`n`.
-/
structure PassContext where
  platform : Platform
  plan : BufferPlan
  table : OperationTable
  isScalarVariable : BufferName → Bool

/-- `IsSupportedPipeline`. -/
def isSupportedPipeline : Pipeline → Bool
  | .v => true
  | .s => true
  | .mte2 => true
  | .mte3 => true
  | _ => false

/-- `ShouldSync`: two vector accesses, or a scalar access and one of another pipeline. -/
def shouldSync (first second : Pipeline) : Bool :=
  if ¬ isSupportedPipeline first ∨ ¬ isSupportedPipeline second then
    false
  else if first = .v ∧ second = .v then
    true
  else
    decide ((first = .s ∨ second = .s) ∧ first ≠ second)

/-- Buffers that an expression loads, in visiting order. -/
def bufferLoads : Expr → List BufferName
  | .literal _ => []
  | .var _ => []
  | .operator first second => bufferLoads first ++ bufferLoads second
  | .bufferLoad buffer index => buffer :: bufferLoads index
  | .accessPtr _ offset _ => bufferLoads offset
  | .handle _ argument => bufferLoads argument

/-- A scalar read of a buffer. -/
def scalarRead (buffer : BufferName) : Access :=
  { bufferName := buffer, isWrite := false, pipeline := .s }

/-- `ScanBufferLoads`: the scalar reads of an expression. -/
def scanBufferLoads (context : PassContext) (expr : Expr) : List Access :=
  ((bufferLoads expr).filter fun buffer => ¬ context.isScalarVariable buffer).map scalarRead

/-- `ExtractBufferInfoFromAccessPtr`: the buffer that an argument names. -/
def extractBufferInfoFromAccessPtr : Expr → Option BufferName
  | .var name => if name = "" then none else some name
  | .accessPtr buffer _ _ => if buffer = "" then none else some buffer
  | .handle buffer _ => if buffer = "" then none else some buffer
  | _ => none

/-- Enter an access into a map from names to accesses. -/
def mergeAccess (accesses : List Access) (access : Access) : List Access :=
  if accesses.any fun other => other.bufferName = access.bufferName then
    accesses.map fun other =>
      if other.bufferName = access.bufferName then
        { other with isWrite := other.isWrite || access.isWrite }
      else
        other
  else
    accesses ++ [access]

/-- `CollectBufferAccesses`: the buffers that a configured call accesses, each once. -/
def collectBufferAccesses (config : OperationConfig) (args : List Expr) : List Access :=
  (config.bufferAccesses.filterMap fun entry =>
    args[entry.1]?.bind fun arg =>
      (extractBufferInfoFromAccessPtr arg).map fun buffer =>
        { bufferName := buffer
          isWrite := entry.2 = .write
          pipeline := config.defaultPipeline }).foldl mergeAccess []

/-- `AnalyzeStmtAccesses`: the configured accesses of a call. -/
def analyzeStmtAccesses (context : PassContext) (callee : Callee) (args : List Expr) :
    List Access :=
  match resolveOperationConfig context.table callee args with
  | none => []
  | some config => collectBufferAccesses config args

/-- Add a scalar read unless its buffer is accessed already. -/
def addScalarRead (accesses : List Access) (read : Access) : List Access :=
  if accesses.any fun other => other.bufferName = read.bufferName then
    accesses
  else
    accesses ++ [read]

/--
Accesses that the visitor finds in a call or a store.  The index of a store is not scanned, and
neither is a scalar variable.
-/
def statementAccesses
    (context : PassContext) :
    Operation → List Access
  | .call callee args =>
    (args.flatMap (scanBufferLoads context)).foldl addScalarRead
      (analyzeStmtAccesses context callee args)
  | .store buffer _ value =>
    (scanBufferLoads context value).foldl addScalarRead
      (if context.isScalarVariable buffer then
        []
      else
        [{ bufferName := buffer, isWrite := true, pipeline := .s }])

/-- The accesses of supported pipelines, which `ProcessStatement` keeps. -/
def supportedAccesses (context : PassContext) (op : Operation) : List Access :=
  (statementAccesses context op).filter fun access => isSupportedPipeline access.pipeline

/-! ## Histories -/

/--
A recorded access.  `pipeBarriers` and `eventPairs` are the barriers and events emitted after
it.
-/
structure BufferAccess extends Access where
  pipeBarriers : List Pipeline
  eventPairs : List (Pipeline × Pipeline)
  physicalAddress : Int
  isBackEdge : Bool
  deriving Repr, DecidableEq

/-- The record of an access that has just executed. -/
def freshAccess
    (context : PassContext)
    (access : Access) :
    BufferAccess where
  toAccess := access
  pipeBarriers := []
  eventPairs := []
  physicalAddress := context.plan.getPhysicalAddress access.bufferName
  isBackEdge := false

/-- One access for a buffer name. -/
abbrev LatestAccesses := BufferName → Option BufferAccess

/-- The later of two histories, with the entries that only the earlier one has. -/
def overwrite (saved later : LatestAccesses) : LatestAccesses :=
  fun name => (later name).or (saved name)

/-- The history with its entries marked as carried by a back edge. -/
def carried (history : LatestAccesses) : LatestAccesses :=
  fun name => (history name).map fun access => { access with isBackEdge := true }

/-- State of the visitor. -/
structure PassState where
  accessHistory : LatestAccesses
  writeHistory : LatestAccesses
  eventIdCounter : Nat

namespace PassState

/-- The state in which the visitor starts. -/
def initial : PassState where
  accessHistory _ := none
  writeHistory _ := none
  eventIdCounter := 0

/-- Update every recorded access. -/
def mapAccesses (state : PassState) (update : BufferAccess → BufferAccess) : PassState :=
  { state with
    accessHistory := fun name => (state.accessHistory name).map update
    writeHistory := fun name => (state.writeHistory name).map update }

/-- The state with another event counter. -/
def withCounter (state : PassState) (counter : Nat) : PassState :=
  { state with eventIdCounter := counter }

/-- The state whose histories are overwritten by those of a later one. -/
def overwrittenBy (saved later : PassState) : PassState where
  accessHistory := overwrite saved.accessHistory later.accessHistory
  writeHistory := overwrite saved.writeHistory later.writeHistory
  eventIdCounter := later.eventIdCounter

/-- The state in which a loop body is visited again. -/
def backEdge (saved finish : PassState) : PassState where
  accessHistory := overwrite saved.accessHistory (carried finish.accessHistory)
  writeHistory := overwrite saved.writeHistory (carried finish.writeHistory)
  eventIdCounter := finish.eventIdCounter

end PassState

/-! ## Requirements -/

/-- A recorded access as the sibling pass records it. -/
def BufferAccess.asOutstanding (access : BufferAccess) : SyncInsert.BufferAccess where
  bufferName := access.bufferName
  isWrite := access.isWrite
  pipeline := access.pipeline
  syncGraph := []
  pipeBarriers := []
  physicalAddress := access.physicalAddress
  isSliced := false

/-- `HasDataDependency`, the test of the sibling pass. -/
def hasDataDependency (plan : BufferPlan) (previous current : BufferAccess) : Bool :=
  SyncInsert.hasDataDependency plan previous.asOutstanding current.asOutstanding

/-- `GetRequiredSyncType`: what the second access still needs to follow the first. -/
def getRequiredSyncType (isRevisitPass : Bool) (previous current : BufferAccess) :
    Option SyncType :=
  if shouldSync previous.pipeline current.pipeline = false then
    none
  else if isRevisitPass ∧ previous.isBackEdge = false then
    none
  else if previous.pipeline = current.pipeline then
    if previous.pipeline ∈ previous.pipeBarriers then
      none
    else
      some (.pipeBarrier previous.pipeline)
  else if (previous.pipeline, current.pipeline) ∈ previous.eventPairs then
    none
  else
    getEventType previous.pipeline current.pipeline

/-- Whether an entry of the address map may share memory with a buffer of known address. -/
def isRelated (plan : BufferPlan) (buffer : BufferName) (entry : AddressEntry) : Bool :=
  match entry.address with
  | none => false
  | some other =>
    let target := plan.getPhysicalAddress buffer
    let targetSize := plan.getBufferSize buffer
    let otherSize := plan.getBufferSize entry.name
    entry.scope = plan.getBufferScope buffer &&
      (if targetSize ≤ 0 then
        if 0 < otherSize then
          decide (other ≤ target ∧ target < other + otherSize)
        else
          decide (other = target)
      else if otherSize ≤ 0 then
        decide (other = target)
      else
        decide (target < other + otherSize ∧ other < target + targetSize))

/-- `FindRelatedBuffers`: the buffer names whose history an access consults. -/
def findRelatedBuffers (plan : BufferPlan) (buffer : BufferName) : List BufferName :=
  if plan.getPhysicalAddress buffer = -1 then
    [buffer]
  else
    (plan.addressMap.filter (isRelated plan buffer)).map AddressEntry.name

/-- What an access needs with respect to one recorded access. -/
def requirement (context : PassContext) (isRevisitPass : Bool)
    (previous current : BufferAccess) : List SyncType :=
  if hasDataDependency context.plan previous current then
    (getRequiredSyncType isRevisitPass previous current).toList
  else
    []

/--
`CheckBufferDependency`: the latest access of a buffer, and its latest write unless the latest
access is a write.
-/
def checkBufferDependency (context : PassContext) (isRevisitPass : Bool)
    (state : PassState) (current : BufferAccess) (buffer : BufferName) : List SyncType :=
  let afterAccess :=
    match state.accessHistory buffer with
    | none => []
    | some latest => requirement context isRevisitPass latest current
  let lastAccessIsWrite :=
    match state.accessHistory buffer with
    | none => false
    | some latest => latest.isWrite
  let afterWrite :=
    match state.writeHistory buffer with
    | none => []
    | some lastWrite => requirement context isRevisitPass lastWrite current
  afterAccess ++ if lastAccessIsWrite then [] else afterWrite

/-- `DedupSyncRequirements`: sort by text and remove repetitions. -/
def dedupSyncRequirements (requirements : List SyncType) : List SyncType :=
  (requirements.insertionSort fun first second => first.text ≤ second.text).dedup

/-! ## Emission -/

/-- `InsertSynchronization`: A5 has no barrier of the vector pipeline and uses an event. -/
def insertSynchronization
    (context : PassContext)
    (counter : Nat) :
    SyncType → List SyncUnit × Nat
  | .barrierAll => ([.barrierAll], counter)
  | .pipeBarrier pipe =>
    if pipe = .v ∧ context.platform = .a5 then
      ([.eventPair .v .v ((counter + 1) % 8)], (counter + 1) % 8)
    else
      ([.barrier pipe], counter)
  | .eventPair source target => ([.eventPair source target ((counter + 1) % 8)], (counter + 1) % 8)

/-- Insert a list of synchronizations in order. -/
def insertAll
    (context : PassContext) :
    Nat → List SyncType → List SyncUnit × Nat
  | counter, [] => ([], counter)
  | counter, syncType :: rest =>
    let emitted := insertSynchronization context counter syncType
    let later := insertAll context emitted.2 rest
    (emitted.1 ++ later.1, later.2)

/-- Note a barrier of a pipeline on an access of that pipeline. -/
def BufferAccess.noteBarrier (access : BufferAccess) (pipe : Pipeline) : BufferAccess :=
  if access.pipeline = pipe then
    { access with pipeBarriers := access.pipeBarriers.insert pipe }
  else
    access

/-- Note an event on an access of its source pipeline. -/
def BufferAccess.noteEvent (access : BufferAccess) (source target : Pipeline) : BufferAccess :=
  if access.pipeline = source then
    { access with eventPairs := access.eventPairs.insert (source, target) }
  else
    access

/-- Visit of a synchronization statement, for one recorded access. -/
def BufferAccess.noteUnit
    (access : BufferAccess) :
    SyncUnit → BufferAccess
  | .barrierAll => access
  | .barrier pipe => access.noteBarrier pipe
  | .eventPair source target _ => access.noteEvent source target

/-- `UpdateSyncStatesAfterSync`, for one recorded access and one synchronization. -/
def BufferAccess.noteSync
    (access : BufferAccess) :
    SyncType → BufferAccess
  | .barrierAll => access
  | .pipeBarrier pipe => access.noteBarrier pipe
  | .eventPair source target => access.noteEvent source target

/-- Visit of the synchronization statements before a statement. -/
def PassState.noteUnits (state : PassState) (syncs : List SyncUnit) : PassState :=
  state.mapAccesses fun access => syncs.foldl BufferAccess.noteUnit access

/-- `UpdateSyncStatesAfterSync`. -/
def PassState.updateSyncStatesAfterSync (state : PassState) (inserted : List SyncType) :
    PassState :=
  state.mapAccesses fun access => inserted.foldl BufferAccess.noteSync access

/-- Whether a revisit keeps the access that the back edge carries for a buffer. -/
def keepsBackEdge (isRevisitPass : Bool) (state : PassState) (access : BufferAccess) : Bool :=
  isRevisitPass &&
    match state.accessHistory access.bufferName with
    | none => false
    | some latest => latest.isBackEdge && !shouldSync latest.pipeline access.pipeline

/-- `UpdateLatestAccessHistory` for one access. -/
def recordAccess (isRevisitPass : Bool) (state : PassState) (access : BufferAccess) : PassState :=
  if keepsBackEdge isRevisitPass state access then
    state
  else
    { state with
      accessHistory := Function.update state.accessHistory access.bufferName (some access)
      writeHistory :=
        if access.isWrite then
          Function.update state.writeHistory access.bufferName (some access)
        else
          state.writeHistory }

/-- `UpdateLatestAccessHistory`. -/
def updateLatestAccessHistory (isRevisitPass : Bool) (state : PassState)
    (accesses : List BufferAccess) : PassState :=
  accesses.foldl (recordAccess isRevisitPass) state

/-- Synchronization that the accesses of a statement need, sorted and without repetitions. -/
def requiredSyncs (context : PassContext) (isRevisitPass : Bool) (state : PassState)
    (accesses : List BufferAccess) : List SyncType :=
  dedupSyncRequirements
    (accesses.flatMap fun access =>
      (findRelatedBuffers context.plan access.bufferName).flatMap
        (checkBufferDependency context isRevisitPass state access))

/--
`ProcessStatement` and `ProcessLetStatement`: the synchronization before a statement and the
state after it.
-/
def processStatement (context : PassContext) (isRevisitPass : Bool) (state : PassState)
    (supported : List Access) : List SyncUnit × PassState :=
  let accesses := supported.map (freshAccess context)
  let optimized := requiredSyncs context isRevisitPass state accesses
  let inserted := insertAll context state.eventIdCounter optimized
  (inserted.1,
    updateLatestAccessHistory isRevisitPass
      ((state.updateSyncStatesAfterSync optimized).withCounter inserted.2) accesses)

/-! ## The visitor -/

/-- `VisitStmt` during a revisit: a loop body is visited once. -/
def revisitStmt
    (context : PassContext) :
    PassState → Block → Block × PassState
  | state, .stop syncs => (.stop syncs, state.noteUnits syncs)
  | state, .operation syncs op rest =>
    let visited :=
      processStatement context true (state.noteUnits syncs) (supportedAccesses context op)
    let later := revisitStmt context visited.2 rest
    (.operation (syncs ++ visited.1) op later.1, later.2)
  | state, .letStmt syncs value body rest =>
    let visited :=
      processStatement context true (state.noteUnits syncs) (scanBufferLoads context value)
    let inner := revisitStmt context visited.2 body
    let later := revisitStmt context inner.2 rest
    (.letStmt (syncs ++ visited.1) value inner.1 later.1, later.2)
  | state, .ifThenElse syncs condition thenCase elseCase rest =>
    let saved := state.noteUnits syncs
    let first := revisitStmt context saved thenCase
    let second := revisitStmt context (saved.withCounter first.2.eventIdCounter) elseCase
    let merged := (saved.overwrittenBy first.2).withCounter second.2.eventIdCounter
    let later := revisitStmt context merged rest
    (.ifThenElse syncs condition first.1 second.1 later.1, later.2)
  | state, .forLoop syncs extent body rest =>
    let inner := revisitStmt context (state.noteUnits syncs) body
    let later := revisitStmt context inner.2 rest
    (.forLoop syncs extent inner.1 later.1, later.2)
  | state, .unrolledLoop syncs extent first second rest =>
    -- an attribute: its body is visited as it stands
    let firstVisited := revisitStmt context (state.noteUnits syncs) first
    let secondVisited := revisitStmt context firstVisited.2 second
    let later := revisitStmt context secondVisited.2 rest
    (.unrolledLoop syncs extent firstVisited.1 secondVisited.1 later.1, later.2)

/-- `VisitStmt` outside a revisit: a loop body is visited and then revisited. -/
def visitStmt
    (context : PassContext) :
    PassState → Block → Block × PassState
  | state, .stop syncs => (.stop syncs, state.noteUnits syncs)
  | state, .operation syncs op rest =>
    let visited :=
      processStatement context false (state.noteUnits syncs) (supportedAccesses context op)
    let later := visitStmt context visited.2 rest
    (.operation (syncs ++ visited.1) op later.1, later.2)
  | state, .letStmt syncs value body rest =>
    let visited :=
      processStatement context false (state.noteUnits syncs) (scanBufferLoads context value)
    let inner := visitStmt context visited.2 body
    let later := visitStmt context inner.2 rest
    (.letStmt (syncs ++ visited.1) value inner.1 later.1, later.2)
  | state, .ifThenElse syncs condition thenCase elseCase rest =>
    let saved := state.noteUnits syncs
    let first := visitStmt context saved thenCase
    let second := visitStmt context (saved.withCounter first.2.eventIdCounter) elseCase
    -- the histories of the else case are dropped
    let merged := (saved.overwrittenBy first.2).withCounter second.2.eventIdCounter
    let later := visitStmt context merged rest
    (.ifThenElse syncs condition first.1 second.1 later.1, later.2)
  | state, .forLoop syncs extent body rest =>
    let saved := state.noteUnits syncs
    let first := visitStmt context saved body
    let final := revisitStmt context (saved.backEdge first.2) first.1
    -- the rest sees the end of the first visit
    let later := visitStmt context (first.2.withCounter final.2.eventIdCounter) rest
    (.forLoop syncs extent final.1 later.1, later.2)
  | state, .unrolledLoop syncs extent first second rest =>
    let firstVisited := visitStmt context (state.noteUnits syncs) first
    let secondVisited := visitStmt context firstVisited.2 second
    let later := visitStmt context secondVisited.2 rest
    (.unrolledLoop syncs extent firstVisited.1 secondVisited.1 later.1, later.2)

/-- Either kind of visit. -/
def visitBy (context : PassContext) (isRevisitPass : Bool) :
    PassState → Block → Block × PassState :=
  if isRevisitPass then revisitStmt context else visitStmt context

section Visits

variable (context : PassContext) (isRevisitPass : Bool) (state : PassState)
  (syncs : List SyncUnit)

theorem visitBy_operation (op : Operation) (rest : Block) :
    let visited := processStatement context isRevisitPass (state.noteUnits syncs)
      (supportedAccesses context op)
    let later := visitBy context isRevisitPass visited.2 rest
    visitBy context isRevisitPass state (.operation syncs op rest) =
      (.operation (syncs ++ visited.1) op later.1, later.2) := by
  cases isRevisitPass <;> rfl

theorem visitBy_letStmt (value : Expr) (body rest : Block) :
    let visited := processStatement context isRevisitPass (state.noteUnits syncs)
      (scanBufferLoads context value)
    let inner := visitBy context isRevisitPass visited.2 body
    let later := visitBy context isRevisitPass inner.2 rest
    visitBy context isRevisitPass state (.letStmt syncs value body rest) =
      (.letStmt (syncs ++ visited.1) value inner.1 later.1, later.2) := by
  cases isRevisitPass <;> rfl

theorem visitBy_ifThenElse (condition : Expr) (thenCase elseCase rest : Block) :
    let saved := state.noteUnits syncs
    let first := visitBy context isRevisitPass saved thenCase
    let second := visitBy context isRevisitPass (saved.withCounter first.2.eventIdCounter) elseCase
    let later := visitBy context isRevisitPass
      ((saved.overwrittenBy first.2).withCounter second.2.eventIdCounter) rest
    visitBy context isRevisitPass state (.ifThenElse syncs condition thenCase elseCase rest) =
      (.ifThenElse syncs condition first.1 second.1 later.1, later.2) := by
  cases isRevisitPass <;> rfl

theorem visitBy_unrolledLoop (extent : Expr) (first second rest : Block) :
    let firstVisited := visitBy context isRevisitPass (state.noteUnits syncs) first
    let secondVisited := visitBy context isRevisitPass firstVisited.2 second
    let later := visitBy context isRevisitPass secondVisited.2 rest
    visitBy context isRevisitPass state (.unrolledLoop syncs extent first second rest) =
      (.unrolledLoop syncs extent firstVisited.1 secondVisited.1 later.1, later.2) := by
  cases isRevisitPass <;> rfl

end Visits

/-- `Substitute` of an enabled pass: the program with its synchronization. -/
def substitute (context : PassContext) (body : Block) : Block :=
  (visitStmt context .initial body).1

end TilelangAscend.SyncInsertVS
