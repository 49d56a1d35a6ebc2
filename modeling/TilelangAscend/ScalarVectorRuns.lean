import TilelangAscend.ExecutionOrder
import TilelangAscend.ScalarVectorSync

namespace TilelangAscend.SyncInsertVS

open SyncInsert

/-!
# Runs of a synchronized program

A run lists what a program does in program order: operations, the expressions that scalar code
evaluates, and synchronization.  Every access of a run is listed, also those that the visitor
does not look at.  A hazard is a pair of accesses that the pass is meant to separate, and it
is tracked if the one latest access and the one latest write of a buffer name are enough to
find it.
-/

/-- What a program does. -/
inductive Event where
  | operation (op : Operation)
  /-- The value of a `LetStmt`. -/
  | letValue (value : Expr)
  /-- The condition of an `IfThenElse` or the extent of a loop. -/
  | evaluate (expr : Expr)
  | sync (unit : SyncUnit)
  /-- The run has not taken the path that the visitor follows; no instruction stands here. -/
  | bypass
  deriving Repr, DecidableEq

/-! ## Accesses of an event -/

/-- Every access of an operation, with the loads that scalar code does for its arguments. -/
def executedAccesses
    (context : PassContext) :
    Operation → List Access
  | .call callee args =>
    analyzeStmtAccesses context callee args ++ (args.flatMap bufferLoads).map scalarRead
  | .store buffer index value =>
    { bufferName := buffer, isWrite := true, pipeline := .s } ::
      (bufferLoads index ++ bufferLoads value).map scalarRead

/-- Every access of an event. -/
def Event.accesses
    (context : PassContext) :
    Event → List Access
  | .operation op => executedAccesses context op
  | .letValue value => (bufferLoads value).map scalarRead
  | .evaluate expr => (bufferLoads expr).map scalarRead
  | .sync _ => []
  | .bypass => []

/-- The accesses of an event that the visitor records. -/
def Event.recorded
    (context : PassContext) :
    Event → List Access
  | .operation op => supportedAccesses context op
  | .letValue value => scanBufferLoads context value
  | .evaluate _ => []
  | .sync _ => []
  | .bypass => []

/-- A sequence without synchronization and without an access that the visitor records. -/
def isInert
    (context : PassContext) :
    Block → Bool
  | .stop syncs => syncs.isEmpty
  | .operation syncs op rest =>
    syncs.isEmpty && (supportedAccesses context op).isEmpty && isInert context rest
  | .letStmt syncs value body rest =>
    syncs.isEmpty && (scanBufferLoads context value).isEmpty && isInert context body &&
      isInert context rest
  | .ifThenElse syncs _ thenCase elseCase rest =>
    syncs.isEmpty && isInert context thenCase && isInert context elseCase && isInert context rest
  | .forLoop syncs _ body rest => syncs.isEmpty && isInert context body && isInert context rest
  | .unrolledLoop syncs _ first second rest =>
    syncs.isEmpty && isInert context first && isInert context second && isInert context rest

/-! ## Runs -/

/-- Events of a list of synchronization statements. -/
def syncEvents (syncs : List SyncUnit) : List Event :=
  syncs.map Event.sync

/-- What a run shows when it goes past sequences other than the visitor does. -/
def passedBy (context : PassContext) (sequences : List Block) : List Event :=
  if sequences.all (isInert context) then [] else [.bypass]

/--
Runs of a sequence: branches go either way and a loop runs any number of times.  The visitor
follows the then case of a branch and at least one iteration of a loop.
-/
def Executes (context : PassContext) : Block → List Event → Prop
  | .stop syncs, run => run = syncEvents syncs
  | .operation syncs op rest, run =>
    ∃ later, Executes context rest later ∧ run = syncEvents syncs ++ .operation op :: later
  | .letStmt syncs value body rest, run =>
    ∃ inner later,
      Executes context body inner ∧ Executes context rest later ∧
        run = syncEvents syncs ++ .letValue value :: (inner ++ later)
  | .ifThenElse syncs condition thenCase elseCase rest, run =>
    ∃ inner later,
      (Executes context thenCase inner ∨
        ∃ taken,
          Executes context elseCase taken ∧
            inner = taken ++ passedBy context [thenCase, elseCase]) ∧
        Executes context rest later ∧
        run = syncEvents syncs ++ .evaluate condition :: (inner ++ later)
  | .forLoop syncs extent body rest, run =>
    ∃ (rounds : List (List Event)) (later : List Event),
      (∀ round ∈ rounds, Executes context body round) ∧ Executes context rest later ∧
        run =
          syncEvents syncs ++
            .evaluate extent ::
              ((if rounds = [] then passedBy context [body] else rounds.flatten) ++ later)
  | .unrolledLoop syncs _ first second rest, run =>
    ∃ firstRound secondRound later,
      Executes context first firstRound ∧ Executes context second secondRound ∧
        Executes context rest later ∧
        run = syncEvents syncs ++ (firstRound ++ (secondRound ++ later))

/-! ## Hazards -/

/-- An access at a position of a run. -/
structure Occurrence where
  position : Nat
  access : Access
  deriving Repr, DecidableEq

/-- The access is executed at its position. -/
def Occurs (context : PassContext) (run : List Event) (occurrence : Occurrence) : Prop :=
  ∃ event, run[occurrence.position]? = some event ∧ occurrence.access ∈ event.accesses context

/-- The visitor records the access at its position. -/
def IsRecorded (context : PassContext) (run : List Event) (occurrence : Occurrence) : Prop :=
  ∃ event, run[occurrence.position]? = some event ∧ occurrence.access ∈ event.recorded context

/--
Two accesses that the pass is meant to separate: they share memory, one of them writes, and
`ShouldSync` holds for their pipelines.
-/
structure Hazard
    (context : PassContext)
    (run : List Event)
    (first second : Occurrence) :
    Prop where
  before : first.position < second.position
  firstOccurs : Occurs context run first
  secondOccurs : Occurs context run second
  shouldSync : shouldSync first.access.pipeline second.access.pipeline = true
  overlaps : context.plan.Overlaps first.access.bufferName second.access.bufferName
  writes : first.access.isWrite = true ∨ second.access.isWrite = true

/-! ## Order -/

/-- A barrier of the common pipeline, or the event from one pipeline to the other. -/
def Orders (source target : Pipeline) : SyncUnit → Prop
  | .barrierAll => False
  | .barrier pipe => pipe = source ∧ pipe = target
  | .eventPair first second _ => first = source ∧ second = target

/--
Two accesses of the same memory with a synchronization of their pipelines executed between
them.
-/
structure SyncedStep
    (context : PassContext)
    (run : List Event)
    (first second : Occurrence) :
    Prop where
  firstOccurs : Occurs context run first
  secondOccurs : Occurs context run second
  overlaps : context.plan.Overlaps first.access.bufferName second.access.bufferName
  synced :
    ∃ position unit,
      first.position < position ∧ position < second.position ∧
        run[position]? = some (.sync unit) ∧
        Orders first.access.pipeline second.access.pipeline unit

/-- Two accesses are separated, possibly through accesses of the same memory in between. -/
def Separated (context : PassContext) (run : List Event) : Occurrence → Occurrence → Prop :=
  Relation.TransGen (SyncedStep context run)

/-- Every hazard of a run is separated. -/
def HazardsSeparated (context : PassContext) (run : List Event) : Prop :=
  ∀ first second, Hazard context run first second → Separated context run first second

/-! ## Tracked hazards -/

/--
The history still has the first access when the visitor comes to the second one: the run has
followed the visitor, and the first access is the latest access of its buffer name, or the
latest write.
-/
structure StillKnown
    (context : PassContext)
    (run : List Event)
    (first second : Occurrence) :
    Prop where
  firstRecorded : IsRecorded context run first
  secondRecorded : IsRecorded context run second
  followed :
    ∀ position,
      first.position < position → position < second.position → run[position]? ≠ some .bypass
  latest :
    (∀ other : Occurrence, first.position < other.position → other.position < second.position →
      IsRecorded context run other →
      other.access.bufferName ≠ first.access.bufferName) ∨
    first.access.isWrite = true ∧
      ∀ other : Occurrence, first.position < other.position → other.position < second.position →
        IsRecorded context run other →
        other.access.isWrite = true →
        other.access.bufferName ≠ first.access.bufferName

/--
Hazards that a history of one latest access and one latest write finds, directly or through
other hazards of the same memory.
-/
inductive Tracked
    (context : PassContext)
    (run : List Event) :
    Occurrence → Occurrence → Prop where
  | known {first second : Occurrence} :
      StillKnown context run first second → Tracked context run first second
  /-- A later access of the first pipeline and buffer stands for the first access. -/
  | producer {first second : Occurrence} (other : Occurrence) :
      first.position ≤ other.position →
      other.access.bufferName = first.access.bufferName →
      other.access.pipeline = first.access.pipeline →
      Hazard context run other second →
      Tracked context run other second →
      Tracked context run first second
  /-- An earlier access of the second pipeline and buffer stands for the second access. -/
  | consumer {first second : Occurrence} (other : Occurrence) :
      other.position ≤ second.position →
      other.access.bufferName = second.access.bufferName →
      other.access.pipeline = second.access.pipeline →
      Hazard context run first other →
      Tracked context run first other →
      Tracked context run first second
  | chain {first second : Occurrence} (other : Occurrence) :
      Hazard context run first other →
      Hazard context run other second →
      Tracked context run first other →
      Tracked context run other second →
      Tracked context run first second

end TilelangAscend.SyncInsertVS
