import Mathlib.Data.List.Infix
import Mathlib.Data.List.Sort
import Mathlib.Data.String.Basic
import TilelangAscend.LoopNests

namespace TilelangAscend.CrossCoreSync

/-!
# Automatic cross-core synchronization

`AutoInsertCrossCoreSync` of the combine pass.  A collector finds the copies between a core and
a workspace in global memory, the copies of the two cores are matched workspace by workspace, a
walk over the two loop nests chooses the depth at which each side synchronizes, and an inserter
puts a set after every write and a wait before every read.
-/

/-! ## Statements -/

/--
What bounds a loop.  Stage loops are made by the cross-core pipeline only, which starts them at
zero and gives them a constant extent; their annotation `tl_cross_interval` may be missing.
-/
inductive LoopKind where
  | fixed (extent : Nat)
  | dynamic (extent : String)
  | stage (extent : Nat) (crossInterval : Option Nat)
  deriving Repr, DecidableEq

/-- A loop, with the name hint of its variable. -/
structure Loop where
  name : String
  kind : LoopKind
  deriving Repr, DecidableEq

/-- The extent of a loop as a constant, `as_const_int`. -/
def Loop.iterTimesAsConst (loop : Loop) : Option Nat :=
  match loop.kind with
  | .fixed extent => some extent
  | .dynamic _ => none
  | .stage extent _ => some extent

/--
A call in an evaluate statement.  The name is that of a `call_extern`; an operand that is
itself a call is an access to the named buffer.
-/
structure Call where
  externName : Option String
  operands : List (Option String)
  deriving Repr, DecidableEq

/-- A flag operation, with the order of the copy that it belongs to. -/
inductive SyncCall where
  | setCrossFlag (model : Nat) (pipe : String) (flag : Nat) (order : Nat)
  | waitCrossFlag (flag : Nat) (pipe : String) (order : Nat)
  deriving Repr, DecidableEq

/-- Conditions on a stage variable, which is given by the number of loops around its loop. -/
inductive Condition where
  | lastOfInterval (stageVar interval extent : Nat)
  | firstOfInterval (stageVar interval : Nat)
  deriving Repr, DecidableEq

/-- The stage variable that a condition reads. -/
def Condition.stageVar : Condition → Nat
  | .lastOfInterval stageVar _ _ => stageVar
  | .firstOfInterval stageVar _ => stageVar

/-- What the inserter adds: a flag operation, in a branch when it has a condition. -/
structure GuardedSync where
  condition : Option Condition
  call : SyncCall
  deriving Repr, DecidableEq

/--
Statements of a core, with a type of statements that were added to it.  `scope` is a statement
that only wraps its body, and the condition of a branch is opaque.
-/
inductive Stmt (Added : Type) where
  | skip
  | evaluate (call : Call)
  | added (stmt : Added)
  | seq (first rest : Stmt Added)
  | forLoop (loop : Loop) (body : Stmt Added)
  | ifThenElse (condition : Nat) (thenCase elseCase : Stmt Added)
  | scope (body : Stmt Added)
  deriving Repr, DecidableEq

/-- A body before synchronization. -/
abbrev Body := Stmt Empty

/-- A body with its flags. -/
abbrev SyncedBody := Stmt GuardedSync

/-! ## Collecting the workspace copies -/

/-- A loop node.  Nodes of one body are told apart by the order in which they are entered. -/
structure ForNode where
  index : Nat
  loop : Loop
  deriving Repr, DecidableEq

/-- `CrossCoreSyncPoint`.  The stage loop is given by its place among the parents. -/
structure SyncPoint where
  order : Nat
  syncFlagId : Nat
  isWrite : Bool
  workspaceName : String
  pipe : String
  targetForNode : Option ForNode
  parentForNodes : List ForNode
  crossInterval : Nat
  stageLoop : Option Nat
  deriving Repr, DecidableEq

/-- The table of copies with global memory: name, whether it writes, and its pipe. -/
def gmCopyCfgInfos : List (String × Bool × String) :=
  [("copy_gm_to_l1", false, "MTE2"),
   ("copy_l0c_to_gm", true, "FIX"),
   ("copy_gm_to_ub", false, "MTE2"),
   ("copy_ub_to_gm", true, "MTE3"),
   ("atomic_add_ub_to_gm", true, "MTE3"),
   ("atomic_add_l0c_to_gm", true, "FIX")]

/-- `find` on strings. -/
def occursIn (part text : String) : Bool :=
  decide (part.toList <:+: text.toList)

/-- `GetGMCopyCfgInfo`. -/
def getGMCopyCfgInfo (funcName : String) : Option (Bool × String) :=
  (gmCopyCfgInfos.find? fun info => occursIn info.1 funcName).map (·.2)

/-- `FetchWorkspaceName`: the first operand whose buffer is a workspace. -/
def fetchWorkspaceName (call : Call) : Option String :=
  call.operands.reduceOption.find? (occursIn "workspace")

/-- The workspace copy that a call makes: whether it writes, its pipe and its workspace. -/
def workspaceCopy (call : Call) : Option (Bool × String × String) := do
  let funcName ← call.externName
  let (isWrite, pipe) ← getGMCopyCfgInfo funcName
  let workspaceName ← fetchWorkspaceName call
  return (isWrite, pipe, workspaceName)

/-- State of `CrossCoreSyncCollector`. -/
structure Collector where
  order : Nat
  syncFlagId : Nat
  nextFor : Nat
  currentStageLoop : Option Nat
  syncPoints : List SyncPoint
  deriving Repr, DecidableEq

/-- The collector before it visits a body. -/
def Collector.start : Collector :=
  ⟨0, 0, 0, none, []⟩

/-- Whether a loop is annotated as a stage loop. -/
def Loop.isStageLoop (loop : Loop) : Bool :=
  match loop.kind with
  | .stage _ _ => true
  | _ => false

/-- `GetCrossInterval`, from the loops around the copy. -/
def getCrossInterval (currentLoops : List ForNode) (stageLoop : Option Nat) : Nat :=
  match stageLoop.bind (currentLoops[·]?) with
  | some ⟨_, _, .stage _ (some interval)⟩ => interval
  | _ => 1

/-- `VisitStmt_(EvaluateNode)` of the collector. -/
def Collector.visitCall (currentLoops : List ForNode) (call : Call)
    (collector : Collector) : Collector :=
  match workspaceCopy call with
  | none => { collector with order := collector.order + 1 }
  | some (isWrite, pipe, workspaceName) =>
    { collector with
      order := collector.order + 1
      syncFlagId := collector.syncFlagId + 1
      syncPoints := collector.syncPoints ++
        [{ order := collector.order + 1
           syncFlagId := collector.syncFlagId
           isWrite := isWrite
           workspaceName := workspaceName
           pipe := pipe
           targetForNode := none
           parentForNodes := currentLoops
           crossInterval := getCrossInterval currentLoops collector.currentStageLoop
           stageLoop := collector.currentStageLoop }] }

/-- A loop is entered: a stage loop becomes the current one. -/
def Collector.enterLoop (currentLoops : List ForNode) (loop : Loop)
    (collector : Collector) : Collector :=
  { collector with
    nextFor := collector.nextFor + 1
    currentStageLoop :=
      if loop.isStageLoop then some currentLoops.length else collector.currentStageLoop }

/-- A loop is left: after a stage loop no stage loop is current. -/
def Collector.leaveLoop (loop : Loop) (collector : Collector) : Collector :=
  { collector with
    currentStageLoop := if loop.isStageLoop then none else collector.currentStageLoop }

/-- `CrossCoreSyncCollector`. -/
def collect : List ForNode → Body → Collector → Collector
  | _, .skip, collector => collector
  | currentLoops, .evaluate call, collector => collector.visitCall currentLoops call
  | currentLoops, .seq first rest, collector =>
    collect currentLoops rest (collect currentLoops first collector)
  | currentLoops, .forLoop loop body, collector =>
    (collect (currentLoops ++ [⟨collector.nextFor, loop⟩]) body
      (collector.enterLoop currentLoops loop)).leaveLoop loop
  | currentLoops, .ifThenElse _ thenCase elseCase, collector =>
    collect currentLoops elseCase (collect currentLoops thenCase collector)
  | currentLoops, .scope body, collector => collect currentLoops body collector

/-- The sync points of a body. -/
def collectSyncPoints (body : Body) : List SyncPoint :=
  (collect [] body Collector.start).syncPoints

/-! ## Depth of the synchronization -/

/-- `IsSharedLoop`: loops at the same depth with the same name. -/
def isSharedLoop (index : Nat) (cubeParents vecParents : List ForNode) : Bool :=
  match cubeParents[index]?, vecParents[index]? with
  | some cube, some vec => cube.loop.name == vec.loop.name
  | _, _ => false

/-- `CollectNonConstSharedLoopIds`. -/
def collectNonConstSharedLoopIds (cubeParents vecParents : List ForNode) : List String :=
  cubeParents.zipIdx.filterMap fun (node, index) =>
    if node.loop.iterTimesAsConst.isNone && isSharedLoop index cubeParents vecParents then
      some node.loop.name
    else
      none

/-- `GetLoopIterTimesWithSkip`; there is no result where the extent has to be constant. -/
def getLoopIterTimesWithSkip (skipLoopIds : List String) (node : ForNode) : Option Nat :=
  if node.loop.name ∈ skipLoopIds then some 1 else node.loop.iterTimesAsConst

/-- Local variables of `FindTargetLoopDepth`. -/
structure Walk where
  cubeTimes : Nat
  vecTimes : Nat
  cubeIdx : Nat
  vecIdx : Nat
  cubeDepth : Nat
  vecDepth : Nat
  lastPairTimes : Nat
  deriving Repr, DecidableEq

/-- The walk before it enters a loop. -/
def Walk.start : Walk :=
  ⟨1, 1, 0, 0, 0, 0, 1⟩

/-- Where both sides have run equally often, the depths of the pair are kept. -/
def Walk.recordPair (walk : Walk) : Walk :=
  if walk.cubeTimes = walk.vecTimes then
    { walk with
      cubeDepth := walk.cubeIdx
      vecDepth := walk.vecIdx
      lastPairTimes := walk.cubeTimes }
  else
    walk

/-- The walk enters the next cube loop. -/
def Walk.stepCube (times : Nat) (walk : Walk) : Walk :=
  { walk with
    cubeTimes := walk.cubeTimes * times
    cubeIdx := walk.cubeIdx + 1 }

/-- The walk enters the next vector loop. -/
def Walk.stepVec (times : Nat) (walk : Walk) : Walk :=
  { walk with
    vecTimes := walk.vecTimes * times
    vecIdx := walk.vecIdx + 1
    vecDepth :=
      if walk.vecTimes * times = walk.lastPairTimes then walk.vecIdx + 1 else walk.vecDepth }

/-- The inner loop over the cube loops that are left. -/
def advanceCube : List (Option Nat) → Walk → Option (List (Option Nat) × Walk)
  | [], walk => some ([], walk)
  | none :: _, _ => none
  | some times :: rest, walk =>
    if walk.cubeTimes ≤ walk.vecTimes ∨ times = 1 then
      advanceCube rest (walk.recordPair.stepCube times)
    else
      some (some times :: rest, walk)

/-- The inner loop over the vector loops that are left. -/
def advanceVec : List (Option Nat) → Walk → Option (List (Option Nat) × Walk)
  | [], walk => some ([], walk)
  | none :: _, _ => none
  | some times :: rest, walk =>
    if walk.vecTimes ≤ walk.cubeTimes ∨ times = 1 then
      advanceVec rest (walk.recordPair.stepVec times)
    else
      some (some times :: rest, walk)

/-- The outer loop, which ends when no loop is left or none was entered. -/
def Walk.run : Nat → List (Option Nat) → List (Option Nat) → Walk → Option Walk
  | 0, _, _, walk => some walk
  | fuel + 1, cubeRest, vecRest, walk =>
    if cubeRest.isEmpty && vecRest.isEmpty then
      some walk
    else do
      let (nextCube, cubeWalk) ← advanceCube cubeRest walk
      let (nextVec, vecWalk) ← advanceVec vecRest cubeWalk
      if nextCube.length = cubeRest.length ∧ nextVec.length = vecRest.length then
        some vecWalk
      else
        Walk.run fuel nextCube nextVec vecWalk

/-- The depths after the last comparison. -/
def Walk.depths (walk : Walk) : Nat × Nat :=
  if walk.cubeTimes = walk.vecTimes then (walk.cubeIdx, walk.vecIdx)
  else (walk.cubeDepth, walk.vecDepth)

/-- `FindTargetLoopDepth`: how many loops lie around the synchronization of each side. -/
def findTargetLoopDepth (cubeParents vecParents : List ForNode) : Option (Nat × Nat) :=
  if cubeParents.isEmpty && vecParents.isEmpty then
    some (0, 0)
  else
    let skipLoopIds := collectNonConstSharedLoopIds cubeParents vecParents
    (Walk.run (cubeParents.length + vecParents.length + 1)
      (cubeParents.map (getLoopIterTimesWithSkip skipLoopIds))
      (vecParents.map (getLoopIterTimesWithSkip skipLoopIds)) Walk.start).map Walk.depths

/-! ## Matching the copies of the two cores -/

/-- The points of a workspace, in order. -/
def pointsOf (workspace : String) (points : List SyncPoint) : List SyncPoint :=
  points.filter (·.workspaceName == workspace)

/-- The workspaces of the cube core, in the order of `std::map`. -/
def workspaces (points : List SyncPoint) : List String :=
  (points.map (·.workspaceName)).dedup.insertionSort (· ≤ ·)

/-- Matched points of one workspace; there is no result where the check reports an error. -/
def matchWorkspace (cubePoints vecPoints : List SyncPoint) (workspace : String) :
    Option (List (SyncPoint × SyncPoint)) :=
  let pairs := (pointsOf workspace cubePoints).zip (pointsOf workspace vecPoints)
  if (pointsOf workspace cubePoints).length = (pointsOf workspace vecPoints).length ∧
      ∀ pair ∈ pairs, pair.1.isWrite ≠ pair.2.isWrite then
    some pairs
  else
    none

/-- The matched pairs of several workspaces, one after the other. -/
def matchWorkspaces
    (cubePoints vecPoints : List SyncPoint) :
    List String → Option (List (SyncPoint × SyncPoint))
  | [] => some []
  | workspace :: rest => do
      let pairs ← matchWorkspace cubePoints vecPoints workspace
      let morePairs ← matchWorkspaces cubePoints vecPoints rest
      return pairs ++ morePairs

/-- All matched pairs, in the order in which they get their flags. -/
def matchSyncPoints (cubePoints vecPoints : List SyncPoint) :
    Option (List (SyncPoint × SyncPoint)) :=
  matchWorkspaces cubePoints vecPoints (workspaces cubePoints)

/-- A matched pair gets its flag and the loops at its depths. -/
def placePair (flag : Nat) (pair : SyncPoint × SyncPoint) : Option (SyncPoint × SyncPoint) := do
  let (cubeDepth, vecDepth) ← findTargetLoopDepth pair.1.parentForNodes pair.2.parentForNodes
  return (
    { pair.1 with
      syncFlagId := flag
      targetForNode := pair.1.parentForNodes[cubeDepth]? },
    { pair.2 with
      syncFlagId := flag
      targetForNode := pair.2.parentForNodes[vecDepth]? })

/-- Pairs get consecutive flags. -/
def placePairs : Nat → List (SyncPoint × SyncPoint) → Option (List (SyncPoint × SyncPoint))
  | _, [] => some []
  | flag, pair :: rest => do
      let placed ← placePair flag pair
      let placedRest ← placePairs (flag + 1) rest
      return placed :: placedRest

/-- The points of a core after matching; a point without a partner stays as collected. -/
def resolvePoints (placed points : List SyncPoint) : List SyncPoint :=
  points.map fun point => (placed.find? (·.order == point.order)).getD point

/-! ## Inserting the flags -/

/-- `GenAutoCrossCoreSetFlagStmt` and `GenAutoCrossCoreWaitFlagStmt`. -/
def genSyncCall (point : SyncPoint) : SyncCall :=
  if point.isWrite then
    .setCrossFlag 2 point.pipe point.syncFlagId point.order
  else
    .waitCrossFlag point.syncFlagId point.pipe point.order

/-- Extent of the stage loop of a point. -/
def SyncPoint.stageExtent (point : SyncPoint) : Nat :=
  match point.stageLoop.bind (point.parentForNodes[·]?) with
  | some node => node.loop.iterTimesAsConst.getD 0
  | none => 0

/-- The condition under which a point synchronizes, `GenSyncCondition`, if it has one. -/
def SyncPoint.condition? (point : SyncPoint) : Option Condition :=
  match point.stageLoop with
  | none => none
  | some stageVar =>
    if point.crossInterval > 1 then
      if point.isWrite then
        some (.lastOfInterval stageVar point.crossInterval point.stageExtent)
      else
        some (.firstOfInterval stageVar point.crossInterval)
    else
      none

/-- The flag operation of a point under its condition. -/
def guardedSync (point : SyncPoint) : SyncedBody :=
  .added ⟨point.condition?, genSyncCall point⟩

/-- `AttachSyncStmt`: set after a write, wait before a read. -/
def attachSyncStmt (point : SyncPoint) (stmt : SyncedBody) : SyncedBody :=
  if point.isWrite then .seq stmt (guardedSync point) else .seq (guardedSync point) stmt

/-- Number of calls in a statement, by which its visit advances `order_`. -/
def Stmt.calls : Body → Nat
  | .skip => 0
  | .evaluate _ => 1
  | .seq first rest => first.calls + rest.calls
  | .forLoop _ body => body.calls
  | .ifThenElse _ thenCase elseCase => thenCase.calls + elseCase.calls
  | .scope body => body.calls

/-- Number of loops in a statement. -/
def Stmt.fors : Body → Nat
  | .skip => 0
  | .evaluate _ => 0
  | .seq first rest => first.fors + rest.fors
  | .forLoop _ body => body.fors + 1
  | .ifThenElse _ thenCase elseCase => thenCase.fors + elseCase.fors
  | .scope body => body.fors

/-- `VisitStmt_(EvaluateNode)` of the inserter, after `cur_order_` was advanced. -/
def insertAtCall (points : List SyncPoint) (curOrder : Nat) (stmt : SyncedBody) : SyncedBody :=
  match points.find? fun point => point.order == curOrder && point.targetForNode.isNone with
  | some point => attachSyncStmt point stmt
  | none => stmt

/-- Flags around a loop: every point whose target it is, in order. -/
def insertAtLoop (points : List SyncPoint) (index : Nat) (stmt : SyncedBody) : SyncedBody :=
  (points.filter fun point => point.targetForNode.any (·.index == index)).foldl
    (fun attached point => attachSyncStmt point attached) stmt

/-- `CrossCoreSyncInserter`, from the calls and the loops visited before the statement. -/
def insertSyncs (points : List SyncPoint) : Nat → Nat → Body → SyncedBody
  | _, _, .skip => .skip
  | curOrder, _, .evaluate call => insertAtCall points (curOrder + 1) (.evaluate call)
  | curOrder, nextFor, .seq first rest =>
    .seq (insertSyncs points curOrder nextFor first)
      (insertSyncs points (curOrder + first.calls) (nextFor + first.fors) rest)
  | curOrder, nextFor, .forLoop loop body =>
    insertAtLoop points nextFor (.forLoop loop (insertSyncs points curOrder (nextFor + 1) body))
  | curOrder, nextFor, .ifThenElse condition thenCase elseCase =>
    .ifThenElse condition (insertSyncs points curOrder nextFor thenCase)
      (insertSyncs points (curOrder + thenCase.calls) (nextFor + thenCase.fors) elseCase)
  | curOrder, nextFor, .scope body => .scope (insertSyncs points curOrder nextFor body)

/-- `AutoInsertCrossCoreSync::AutoInsert`: the two bodies with flags, unless it reports an error. -/
def autoInsert (cubeCode vecCode : Body) : Option (SyncedBody × SyncedBody) := do
  let cubePoints := collectSyncPoints cubeCode
  let vecPoints := collectSyncPoints vecCode
  let pairs ← matchSyncPoints cubePoints vecPoints
  let placed ← placePairs 0 pairs
  return (
    insertSyncs (resolvePoints (placed.map Prod.fst) cubePoints) 0 0 cubeCode,
    insertSyncs (resolvePoints (placed.map Prod.snd) vecPoints) 0 0 vecCode)

/-! ## Running the bodies -/

/-- Iterations of a loop, for given values of the dynamic extents. -/
def Loop.times (sizes : String → Nat) (loop : Loop) : Nat :=
  match loop.kind with
  | .fixed extent => extent
  | .dynamic extent => sizes extent
  | .stage extent _ => extent

/-- Whether a condition holds for the value of its stage variable. -/
def Condition.passes : Condition → Nat → Bool
  | .lastOfInterval _ interval extent, index =>
    index % interval == interval - 1 || index == extent - 1
  | .firstOfInterval _ interval, index => index % interval == 0

/-- Whether a condition holds for the indices of the enclosing loops. -/
def Condition.holds (indices : List Nat) (condition : Condition) : Bool :=
  (indices[condition.stageVar]?).any condition.passes

/--
How often a run of a statement executes the flag operations that are counted, for values of the
dynamic extents and decisions of the branches.
-/
def Stmt.executions
    (sizes : String → Nat)
    (choice : Nat → List Nat → Bool)
    (counted : SyncCall → Bool) :
    List Nat → SyncedBody → Nat
  | _, .skip => 0
  | _, .evaluate _ => 0
  | indices, .added ⟨condition, call⟩ =>
    if counted call && condition.all (Condition.holds indices) then 1 else 0
  | indices, .seq first rest =>
    first.executions sizes choice counted indices + rest.executions sizes choice counted indices
  | indices, .forLoop loop body =>
    ((List.range (loop.times sizes)).map fun index =>
      body.executions sizes choice counted (indices ++ [index])).sum
  | indices, .ifThenElse condition thenCase elseCase =>
    if choice condition indices then
      thenCase.executions sizes choice counted indices
    else
      elseCase.executions sizes choice counted indices
  | indices, .scope body => body.executions sizes choice counted indices

/-- The flag operation of a point: a set for a write, a wait for a read. -/
def SyncPoint.isFlagOf (point : SyncPoint) : SyncCall → Bool
  | .setCrossFlag _ _ _ order => point.isWrite && order == point.order
  | .waitCrossFlag _ _ order => !point.isWrite && order == point.order

/-- Whether the added conditions read variables of enclosing loops only. -/
def Stmt.ConditionsInScope : Nat → SyncedBody → Prop
  | _, .skip => True
  | _, .evaluate _ => True
  | depth, .added ⟨condition, _⟩ => ∀ guard ∈ condition, guard.stageVar < depth
  | depth, .seq first rest => first.ConditionsInScope depth ∧ rest.ConditionsInScope depth
  | depth, .forLoop _ body => body.ConditionsInScope (depth + 1)
  | depth, .ifThenElse _ thenCase elseCase =>
    thenCase.ConditionsInScope depth ∧ elseCase.ConditionsInScope depth
  | depth, .scope body => body.ConditionsInScope depth

/-- Whether a statement makes a workspace copy. -/
def Stmt.containsCopy : Body → Bool
  | .skip => false
  | .evaluate call => (workspaceCopy call).isSome
  | .seq first rest => first.containsCopy || rest.containsCopy
  | .forLoop _ body => body.containsCopy
  | .ifThenElse _ thenCase elseCase => thenCase.containsCopy || elseCase.containsCopy
  | .scope body => body.containsCopy

/-- Whether no branch encloses a workspace copy. -/
def Stmt.branchesWithoutCopies : Body → Bool
  | .skip => true
  | .evaluate _ => true
  | .seq first rest => first.branchesWithoutCopies && rest.branchesWithoutCopies
  | .forLoop _ body => body.branchesWithoutCopies
  | .ifThenElse _ thenCase elseCase => !thenCase.containsCopy && !elseCase.containsCopy
  | .scope body => body.branchesWithoutCopies

/--
Whether every dynamic loop around one of two matched copies is around the other as well: at the
same depth, with the same name and the same extent.
-/
def SharesDynamicLoops (cubeParents vecParents : List ForNode) : Prop :=
  ∀ (index : Nat) (name extent : String),
    (cubeParents[index]?).map ForNode.loop = some (Loop.mk name (.dynamic extent)) ↔
      (vecParents[index]?).map ForNode.loop = some (Loop.mk name (.dynamic extent))

end TilelangAscend.CrossCoreSync
