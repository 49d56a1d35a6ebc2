import Mathlib.Data.List.Basic
import Mathlib.Data.List.Dedup

namespace TilelangAscend.SyncInsert

/-!
# Programs of the synchronization pass

What `AscendSyncInsert` reads: expressions and the buffers they load, configured calls and
buffer stores, the planned addresses and sizes of buffers, and statement sequences.  A
sequence is kept in the form into which `MergeStatementSequences` splits it: every statement
carries the synchronization statements directly before it, and `SeqStmt` nesting is flattened.
-/

/-- Hardware pipelines. -/
inductive Pipeline where
  | mte1
  | mte2
  | mte3
  | m
  | v
  | fix
  | s
  deriving Repr, DecidableEq

instance : LawfulBEq (Pipeline × Pipeline) := inferInstance

/-- Name of a pipeline without `PIPE_`. -/
def Pipeline.name : Pipeline → String
  | .mte1 => "MTE1"
  | .mte2 => "MTE2"
  | .mte3 => "MTE3"
  | .m => "M"
  | .v => "V"
  | .fix => "FIX"
  | .s => "S"

/-- Hardware generations. -/
inductive Platform where
  | a2
  | a3
  | a5
  deriving Repr, DecidableEq

/-- Buffer names, which identify buffers. -/
abbrev BufferName := String

/-! ## Expressions -/

/-- The mask of an access pointer, which an accepted call has as 1, 2 or 3. -/
inductive AccessMask where
  | read
  | write
  | readWrite
  deriving Repr, DecidableEq

/-- Expressions, as far as the buffers they mention matter. -/
inductive Expr where
  | literal (value : Int)
  | var (name : String)
  | operator (first second : Expr)
  | bufferLoad (buffer : BufferName) (index : Expr)
  | accessPtr (buffer : BufferName) (offset : Expr) (mask : AccessMask)
  /-- Another call whose second argument is a buffer variable. -/
  | handle (buffer : BufferName) (argument : Expr)
  deriving Repr, DecidableEq

/-- A buffer that an expression accesses. -/
structure ExprAccess where
  bufferName : BufferName
  isSliced : Bool
  deriving Repr, DecidableEq

/--
`ExprAccessAnalyzer`: the buffers that an expression accesses, in visiting order.  A load is
always sliced, an access pointer unless its offset is the literal 0.
-/
def visitExpr : Expr → List ExprAccess
  | .literal _ => []
  | .var _ => []
  | .operator first second => visitExpr first ++ visitExpr second
  | .bufferLoad buffer index => ⟨buffer, true⟩ :: visitExpr index
  | .accessPtr buffer offset _ => ⟨buffer, offset ≠ .literal 0⟩ :: visitExpr offset
  | .handle _ argument => visitExpr argument

/-- `AnalyzeExprAccesses`: each accessed buffer once, sliced if any of its accesses is. -/
def analyzeExprAccesses (expr : Expr) : List ExprAccess :=
  ((visitExpr expr).map ExprAccess.bufferName).dedup.map fun buffer =>
    ⟨buffer, (visitExpr expr).any fun access => access.bufferName = buffer ∧ access.isSliced⟩

/--
`ExtractBufferInfoFromAccessPtr`: the buffer that an argument names.  It counts as sliced if
its offset accesses a sliced buffer.
-/
def extractBufferInfoFromAccessPtr : Expr → Option ExprAccess
  | .accessPtr buffer offset _ => some ⟨buffer, (visitExpr offset).any ExprAccess.isSliced⟩
  | .handle buffer _ => some ⟨buffer, false⟩
  | _ => none

/-! ## Operations -/

/-- Whether a configured argument is read or written. -/
inductive AccessType where
  | read
  | write
  deriving Repr, DecidableEq

/-- Accessed arguments and pipeline of an operation. -/
structure OperationConfig where
  bufferAccesses : List (Nat × AccessType)
  defaultPipeline : Pipeline
  deriving Repr, DecidableEq

/-- The tables `GetOperationConfig` and `GetWorkspaceOpConfigs`. -/
structure OperationTable where
  operationConfig : String → Option OperationConfig
  usesWorkspace : String → Bool

/-- A called function: an extern one, under its normalized name, or an intrinsic. -/
inductive Callee where
  | external (name : String)
  | intrinsic (name : String)
  deriving Repr, DecidableEq

/-- Statements that execute something: calls and buffer stores. -/
inductive Operation where
  | call (callee : Callee) (args : List Expr)
  | store (buffer : BufferName) (index value : Expr)
  deriving Repr, DecidableEq

/-- Accesses that the masks of the access pointers of a call declare. -/
def declaredAccesses (args : List Expr) : List (Nat × AccessType) :=
  args.zipIdx.flatMap fun entry =>
    match entry.1 with
    | .accessPtr _ _ .read => [(entry.2, .read)]
    | .accessPtr _ _ .write => [(entry.2, .write)]
    | .accessPtr _ _ .readWrite => [(entry.2, .read), (entry.2, .write)]
    | _ => []

/--
The configuration of a call.  `ResolveOperationConfig` derives the accesses of an intrinsic
with a workspace from its arguments.
-/
def resolveOperationConfig (table : OperationTable) (callee : Callee) (args : List Expr) :
    Option OperationConfig :=
  match callee with
  | .external name => table.operationConfig name
  | .intrinsic name =>
    (table.operationConfig name).map fun config =>
      if table.usesWorkspace name then
        { config with bufferAccesses := declaredAccesses args }
      else
        config

/-- A buffer that an operation touches. -/
structure Touch where
  bufferName : BufferName
  isWrite : Bool
  isSliced : Bool
  deriving Repr, DecidableEq

/-- Enter a touched buffer into a map from names to touches. -/
def mergeTouch (touches : List Touch) (touch : Touch) : List Touch :=
  if touches.any fun other => other.bufferName = touch.bufferName then
    touches.map fun other =>
      if other.bufferName = touch.bufferName then
        { other with
          isWrite := other.isWrite || touch.isWrite
          isSliced := other.isSliced || touch.isSliced }
      else
        other
  else
    touches ++ [touch]

/-- `AnalyzeStmtAccesses`: the buffers that a call touches, each once. -/
def analyzeStmtAccesses (table : OperationTable) (callee : Callee) (args : List Expr) :
    List Touch :=
  match resolveOperationConfig table callee args with
  | none => []
  | some config =>
    (config.bufferAccesses.filterMap fun entry =>
      args[entry.1]?.bind fun arg =>
        (extractBufferInfoFromAccessPtr arg).map fun info =>
          { bufferName := info.bufferName
            isWrite := entry.2 = .write
            isSliced := info.isSliced }).foldl mergeTouch []

/--
Buffers that the pass records for an operation.  A store reads what its value loads and
then writes its buffer; its index is not looked at.
-/
def Operation.touches
    (table : OperationTable) :
    Operation → List Touch
  | .call callee args => analyzeStmtAccesses table callee args
  | .store buffer _ value =>
    ((analyzeExprAccesses value).map fun access =>
      { bufferName := access.bufferName, isWrite := false, isSliced := access.isSliced }) ++
      [{ bufferName := buffer, isWrite := true, isSliced := false }]

/-- Pipeline that executes an operation; the scalar pipeline executes stores. -/
def Operation.pipeline
    (table : OperationTable) :
    Operation → Pipeline
  | .call callee args =>
    ((resolveOperationConfig table callee args).map OperationConfig.defaultPipeline).getD .s
  | .store _ _ _ => .s

/-! ## Planned buffers -/

/-- An entry of `address_map`; an address that is not a literal is missing. -/
structure AddressEntry where
  name : BufferName
  scope : String
  address : Option Int
  deriving Repr, DecidableEq

/-- An entry of `size_map`. -/
structure SizeEntry where
  name : BufferName
  size : Option Int
  deriving Repr, DecidableEq

/-- Planned addresses and sizes of the local buffers. -/
structure BufferPlan where
  addressMap : List AddressEntry
  sizeMap : List SizeEntry

namespace BufferPlan

/-- `GetPhysicalAddress`: -1 for a buffer without a literal address. -/
def getPhysicalAddress (plan : BufferPlan) (buffer : BufferName) : Int :=
  (plan.addressMap.findSome? fun entry =>
    if entry.name = buffer then entry.address else none).getD (-1)

/-- `GetBufferSize`: -1 for a buffer without a literal size. -/
def getBufferSize (plan : BufferPlan) (buffer : BufferName) : Int :=
  (plan.sizeMap.findSome? fun entry => if entry.name = buffer then entry.size else none).getD (-1)

/-- `GetBufferScope`: empty for a buffer without an entry. -/
def getBufferScope (plan : BufferPlan) (buffer : BufferName) : String :=
  ((plan.addressMap.find? fun entry => entry.name = buffer).map AddressEntry.scope).getD ""

/-- Whether an entry of the address map may share memory with a buffer of known address. -/
def isRelated (plan : BufferPlan) (buffer : BufferName) (entry : AddressEntry) : Bool :=
  match entry.address with
  | none => false
  | some other =>
    let target := plan.getPhysicalAddress buffer
    let targetSize := plan.getBufferSize buffer
    let otherSize := plan.getBufferSize entry.name
    entry.scope = plan.getBufferScope buffer &&
      (if targetSize ≤ 0 ∨ otherSize ≤ 0 then
        decide (other = target)
      else
        decide (target < other + otherSize ∧ other < target + targetSize))

/-- `FindRelatedBuffers`: the buffers whose history an access consults. -/
def findRelatedBuffers (plan : BufferPlan) (buffer : BufferName) : List BufferName :=
  if plan.getPhysicalAddress buffer = -1 then
    [buffer]
  else
    (plan.addressMap.filter (plan.isRelated buffer)).map AddressEntry.name

end BufferPlan

/-! ## Statement sequences -/

/--
A synchronization statement.  The set and the wait of an event are emitted together and form
one unit, as `MergeSyncSequences` groups them.
-/
inductive SyncUnit where
  | barrierAll
  | barrier (pipe : Pipeline)
  | eventPair (source target : Pipeline) (eventId : Nat)
  deriving Repr, DecidableEq

/--
Statement sequences.  Each constructor is a statement with the synchronization statements
before it and the rest of the sequence; an `IfThenElse` without an else case has an empty one.
-/
inductive Block where
  | stop (syncs : List SyncUnit)
  | operation (syncs : List SyncUnit) (op : Operation) (rest : Block)
  | letStmt (syncs : List SyncUnit) (value : Expr) (body rest : Block)
  | ifThenElse (syncs : List SyncUnit) (condition : Expr) (thenCase elseCase rest : Block)
  | forLoop (syncs : List SyncUnit) (extent : Expr) (body rest : Block)
  /-- The attribute `unrolled_loop` around two marked iterations. -/
  | unrolledLoop (syncs : List SyncUnit) (extent : Expr) (first second rest : Block)
  deriving Repr, DecidableEq

namespace Block

/-- Put synchronization statements in front of a sequence. -/
def prepend
    (emitted : List SyncUnit) :
    Block → Block
  | .stop syncs => .stop (emitted ++ syncs)
  | .operation syncs op rest => .operation (emitted ++ syncs) op rest
  | .letStmt syncs value body rest => .letStmt (emitted ++ syncs) value body rest
  | .ifThenElse syncs condition thenCase elseCase rest =>
    .ifThenElse (emitted ++ syncs) condition thenCase elseCase rest
  | .forLoop syncs extent body rest => .forLoop (emitted ++ syncs) extent body rest
  | .unrolledLoop syncs extent first second rest =>
    .unrolledLoop (emitted ++ syncs) extent first second rest

/-- The operations of a sequence. -/
def operations : Block → List Operation
  | .stop _ => []
  | .operation _ op rest => op :: rest.operations
  | .letStmt _ _ body rest => body.operations ++ rest.operations
  | .ifThenElse _ _ thenCase elseCase rest =>
    thenCase.operations ++ elseCase.operations ++ rest.operations
  | .forLoop _ _ body rest => body.operations ++ rest.operations
  | .unrolledLoop _ _ first second rest => first.operations ++ second.operations ++ rest.operations

end Block

/-- What `arith::Analyzer` proves about a loop extent: that it is ≤ 0, or that it is > 0. -/
structure ExtentAnalyzer where
  provesEmpty : Expr → Bool
  provesPositive : Expr → Bool

end TilelangAscend.SyncInsert
