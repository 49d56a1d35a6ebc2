import Mathlib

namespace TilelangAscend.CrossCore

/-!
# The cross-core pipeline pass

What `CrossCorePipeline` reads and writes: loop bodies of calls, buffer stores, bindings,
branches and loops; the analysis that assigns every statement to a core; the split of the
collected statements into stages; and the staged loops that replace the pipelined loop.
-/

/-! ## Programs -/

/-- Buffer names, which identify buffers. -/
abbrev BufferName := String

/-- Loop and binding variables: those of the program, and those that the pass creates. -/
inductive Var where
  | source (id : Nat) (name : String)
  | outer (name : String)
  | stage
  | transformed (name : String)
  deriving Repr, DecidableEq

/-- `name_hint` of a variable. -/
def Var.nameHint : Var → String
  | .source _ name => name
  | .outer name => name ++ "_outer"
  | .stage => "i"
  | .transformed name => name ++ "_transformed"

/-- Binary operators. -/
inductive BinaryOp where
  | add
  | sub
  | mul
  | div
  | floorDiv
  | floorMod
  | min
  | max
  | eq
  | ne
  | lt
  | le
  | gt
  | ge
  | and
  | or
  deriving Repr, DecidableEq

/--
Expressions.  Index and argument lists are expressions too: `next head rest` puts one entry
before the entries of `rest`, and `done` ends a list.
-/
inductive PrimExpr where
  | intImm (value : Int)
  | var (name : Var)
  | binary (op : BinaryOp) (a b : PrimExpr)
  | cast (value : PrimExpr)
  | select (condition trueValue falseValue : PrimExpr)
  | bufferLoad (buffer : BufferName) (indices : PrimExpr)
  | call (op : String) (args : PrimExpr)
  | done
  | next (head rest : PrimExpr)
  deriving Repr, DecidableEq

/-- An argument of a call, behind the function name of a `call_extern`. -/
inductive Arg where
  /-- `tvm_access_ptr(dtype, buffer, offset, extent, rw_mask)`. -/
  | accessPtr (buffer : BufferName) (offset extent : PrimExpr) (rwMask : Nat)
  /-- Another call whose second argument is a buffer variable. -/
  | handle (buffer : BufferName)
  | value (expr : PrimExpr)
  deriving Repr, DecidableEq

/-- The buffer of an argument that is a call. -/
def Arg.buffer? : Arg → Option BufferName
  | .accessPtr buffer _ _ _ => some buffer
  | .handle buffer => some buffer
  | .value _ => none

/-- A call with its normalized name. -/
structure Call where
  op : String
  args : List Arg
  deriving Repr, DecidableEq

/-- Statements that do something: an evaluated call or a buffer store. -/
inductive Operation where
  | evaluate (call : Call)
  | bufferStore (buffer : BufferName) (indices value : PrimExpr)
  deriving Repr, DecidableEq

/-- Statements.  `SeqStmt` is binary here, and `skip` stands for a missing `else`. -/
inductive Stmt where
  | skip
  | operation (op : Operation)
  | seq (first rest : Stmt)
  | letStmt (name : Var) (value : PrimExpr) (body : Stmt)
  | forLoop (name : Var) (min extent : PrimExpr) (body : Stmt)
  | ifThenElse (condition : PrimExpr) (thenCase elseCase : Stmt)
  deriving Repr, DecidableEq

/-- A loop with a `num_stages` annotation. -/
structure Pipeline where
  loopVar : Nat × String
  min : PrimExpr
  extent : PrimExpr
  numStages : Nat
  body : Stmt
  deriving Repr, DecidableEq

/-! ## Owners -/

/-- `CUBE_SCOPE` and `VEC_SCOPE`; `INVALID_SCOPE` is `none`. -/
inductive CoreScope where
  | cube
  | vec
  deriving Repr, DecidableEq

/-- `callnodeMapPos_`. -/
def callnodeMapPos : String → Option CoreScope
  | "wmma.matrix_a" => some .cube
  | "wmma.matrix_b" => some .cube
  | "wmma.accumulator" => some .cube
  | "shared.l1" => some .cube
  | "shared.ub" => some .vec
  | "local.var" => some .vec
  | _ => none

/-- `location_map_`: the storage scopes of the buffers that blocks allocate. -/
abbrev LocationMap := BufferName → Option String

/-- The core that owns a buffer. -/
def checkBufferScope (locations : LocationMap) (buffer : BufferName) : Option CoreScope :=
  (locations buffer).bind callnodeMapPos

/-- The first known owner among the buffer operands of a call. -/
def ownScope (locations : LocationMap) (args : List Arg) : Option CoreScope :=
  (args.filterMap Arg.buffer?).findSome? (checkBufferScope locations)

/--
The scope after the operands of a call: each operand sets it, up to the first one with a
known owner.
-/
def scanOperands
    (locations : LocationMap) :
    Option CoreScope → List Arg → Option CoreScope
  | scope, [] => scope
  | scope, arg :: rest =>
    match arg.buffer? with
    | none => scanOperands locations scope rest
    | some buffer =>
      match checkBufferScope locations buffer with
      | some owner => some owner
      | none => scanOperands locations none rest

/-- `DetectScope`: the first known owner in a statement. -/
def detectScope (locations : LocationMap) : Stmt → Option CoreScope
  | .skip => none
  | .operation (.evaluate call) => ownScope locations call.args
  | .operation (.bufferStore buffer _ _) => checkBufferScope locations buffer
  | .seq first rest => (detectScope locations first).or (detectScope locations rest)
  | .letStmt _ _ body => detectScope locations body
  | .forLoop _ _ _ body => detectScope locations body
  | .ifThenElse _ thenCase elseCase =>
    (detectScope locations thenCase).or (detectScope locations elseCase)

/-- `mixed_scope`: both branches have an owner, and not the same one. -/
def mixedScope (locations : LocationMap) (thenCase elseCase : Stmt) : Bool :=
  (detectScope locations thenCase).isSome && (detectScope locations elseCase).isSome &&
    decide (detectScope locations thenCase ≠ detectScope locations elseCase)

/-! ## Collecting statements -/

/-- The buffers with a location that an expression loads, as `CollectBuffersFromExpr` finds them. -/
def collectBuffersFromExpr (locations : LocationMap) : PrimExpr → List BufferName
  | .bufferLoad buffer _ => if (locations buffer).isSome then [buffer] else []
  | .call _ args => collectBuffersFromExpr locations args
  | .next head rest =>
    collectBuffersFromExpr locations head ++ collectBuffersFromExpr locations rest
  | .binary .add a b => collectBuffersFromExpr locations a ++ collectBuffersFromExpr locations b
  | .binary .sub a b => collectBuffersFromExpr locations a ++ collectBuffersFromExpr locations b
  | .binary .mul a b => collectBuffersFromExpr locations a ++ collectBuffersFromExpr locations b
  | .binary .div a b => collectBuffersFromExpr locations a ++ collectBuffersFromExpr locations b
  | .cast value => collectBuffersFromExpr locations value
  | .select condition trueValue falseValue =>
    collectBuffersFromExpr locations condition ++
      collectBuffersFromExpr locations trueValue ++
      collectBuffersFromExpr locations falseValue
  | _ => []

/-- The buffers of known owners among the operands of a call. -/
def collectBuffers (locations : LocationMap) (call : Call) : List BufferName :=
  (call.args.filterMap Arg.buffer?).filter fun buffer => (checkBufferScope locations buffer).isSome

/-- The buffers that an operation uses. -/
def Operation.usedBuffers (locations : LocationMap) : Operation → List BufferName
  | .evaluate call => collectBuffers locations call
  | .bufferStore buffer _ value =>
    (if (locations buffer).isSome then [buffer] else []) ++
      collectBuffersFromExpr locations value

/-- `CollectBuffersFromStmt`. -/
def collectBuffersFromStmt (locations : LocationMap) : Stmt → List BufferName
  | .skip => []
  | .operation op => op.usedBuffers locations
  | .seq first rest =>
    collectBuffersFromStmt locations first ++ collectBuffersFromStmt locations rest
  | .letStmt _ _ body => collectBuffersFromStmt locations body
  | .forLoop _ _ _ body => collectBuffersFromStmt locations body
  | .ifThenElse _ thenCase elseCase =>
    collectBuffersFromStmt locations thenCase ++ collectBuffersFromStmt locations elseCase

/-- Whether a buffer is a workspace by its name. -/
def isWorkspace (buffer : BufferName) : Bool :=
  decide ("workspace".toList <:+: buffer.toList)

/-- `FindWorkspaceName`: the first workspace among the operands of a call. -/
def findWorkspaceName (call : Call) : Option BufferName :=
  (call.args.filterMap Arg.buffer?).find? isWorkspace

/-- `IS_WRITE_GM` and `IS_PIPE_WRITE`: the calls that write a workspace. -/
def workspaceWriters : List String :=
  ["copy_l0c_to_gm", "copy_ub_to_gm", "atomic_add_l0c_to_gm", "atomic_add_ub_to_gm",
    "copy_l0c_to_pipe", "copy_ub_to_pipe"]

/-- A collected statement. -/
structure StmtInfo where
  bufferName : Option BufferName
  stmt : Stmt
  usedBuffers : List BufferName
  scope : Option CoreScope
  deriving Repr, DecidableEq

/-- State of `LoopAnalyzer`: three lists of statements, and the scope that was seen last. -/
structure LoopAnalyzer where
  statementsC : List StmtInfo
  statementsV : List StmtInfo
  statements : List StmtInfo
  idxC : Nat
  idxV : Nat
  idx : Nat
  workspaceWritesC : Nat
  workspaceWritesV : Nat
  coreScope : Option CoreScope
  deriving Repr, DecidableEq

/-- State before the pipeline body. -/
def LoopAnalyzer.start : LoopAnalyzer where
  statementsC := []
  statementsV := []
  statements := []
  idxC := 0
  idxV := 0
  idx := 0
  workspaceWritesC := 0
  workspaceWritesV := 0
  coreScope := none

/--
Add an operation to the list of the current core and to the unified list.  Without a known
core it is added nowhere.
-/
def LoopAnalyzer.push (analyzer : LoopAnalyzer) (info : StmtInfo) : LoopAnalyzer :=
  match analyzer.coreScope with
  | some .cube =>
    { analyzer with
      statementsC := analyzer.statementsC ++ [info]
      idxC := analyzer.idxC + 1
      statements := analyzer.statements ++ [{ info with scope := some .cube }]
      idx := analyzer.idx + 1 }
  | some .vec =>
    { analyzer with
      statementsV := analyzer.statementsV ++ [info]
      idxV := analyzer.idxV + 1
      statements := analyzer.statements ++ [{ info with scope := some .vec }]
      idx := analyzer.idx + 1 }
  | none => analyzer

/-- Count a call that writes a workspace for the current core. -/
def LoopAnalyzer.noteWrite (analyzer : LoopAnalyzer) (call : Call) : LoopAnalyzer :=
  if call.op ∈ workspaceWriters then
    match analyzer.coreScope with
    | some .cube => { analyzer with workspaceWritesC := analyzer.workspaceWritesC + 1 }
    | some .vec => { analyzer with workspaceWritesV := analyzer.workspaceWritesV + 1 }
    | none => analyzer
  else analyzer

/--
`ProcessInfo` and `ProcessInfoUnified`: one compound statement replaces the statements that
were added since `saved`, and takes over the buffers they use.
-/
def processInfo (statements saved : List StmtInfo) (savedIdx : Nat) (info : StmtInfo) :
    List StmtInfo :=
  saved ++ [{ info with usedBuffers := (statements.drop savedIdx).flatMap StmtInfo.usedBuffers }]

/-- `LoopAnalyzer::VisitStmt_`. -/
def LoopAnalyzer.visitStmt
    (locations : LocationMap)
    (analyzer : LoopAnalyzer) :
    Stmt → LoopAnalyzer
  | .skip => analyzer
  | .operation (.evaluate call) =>
    let analyzer :=
      { analyzer with coreScope := scanOperands locations analyzer.coreScope call.args }
    (analyzer.noteWrite call).push
      { bufferName := findWorkspaceName call
        stmt := .operation (.evaluate call)
        usedBuffers := (Operation.evaluate call).usedBuffers locations
        scope := none }
  | .operation (.bufferStore buffer indices value) =>
    let analyzer := { analyzer with coreScope := checkBufferScope locations buffer }
    analyzer.push
      { bufferName := none
        stmt := .operation (.bufferStore buffer indices value)
        usedBuffers := (Operation.bufferStore buffer indices value).usedBuffers locations
        scope := none }
  | .seq first rest => (analyzer.visitStmt locations first).visitStmt locations rest
  -- There is no visitor for bindings: the default one visits the body.
  | .letStmt _ _ body => analyzer.visitStmt locations body
  | .forLoop name min extent body =>
    let visited := analyzer.visitStmt locations body
    let info : StmtInfo :=
      { bufferName := none
        stmt := .forLoop name min extent body
        usedBuffers := []
        scope := none }
    let hasNewC : Bool := decide (analyzer.statementsC.length < visited.statementsC.length)
    let hasNewV : Bool := decide (analyzer.statementsV.length < visited.statementsV.length)
    let statementsC :=
      if hasNewC then
        processInfo visited.statementsC analyzer.statementsC analyzer.idxC info
      else visited.statementsC
    let statementsV :=
      if hasNewV then
        processInfo visited.statementsV analyzer.statementsV analyzer.idxV info
      else visited.statementsV
    let statements :=
      if hasNewV || hasNewC then
        processInfo visited.statements analyzer.statements analyzer.idx
          { info with scope := visited.coreScope }
      else visited.statements
    { visited with
      statementsC := statementsC
      statementsV := statementsV
      statements := statements
      idxC := if hasNewC then statementsC.length else visited.idxC
      idxV := if hasNewV then statementsV.length else visited.idxV
      idx := if hasNewV || hasNewC then statements.length else visited.idx }
  | .ifThenElse condition thenCase elseCase =>
    let visited := (analyzer.visitStmt locations thenCase).visitStmt locations elseCase
    let iteScope := (detectScope locations thenCase).or (detectScope locations elseCase)
    let info : StmtInfo :=
      { bufferName := none
        stmt := .ifThenElse condition thenCase elseCase
        usedBuffers := []
        scope := none }
    -- The entries of the branches stay in the unified list.
    let unified :=
      { info with
        usedBuffers := collectBuffersFromStmt locations thenCase ++
          collectBuffersFromStmt locations elseCase
        scope := iteScope }
    if mixedScope locations thenCase elseCase then visited
    else
      match iteScope with
      | some .cube =>
        let statementsC := processInfo visited.statementsC analyzer.statementsC analyzer.idxC info
        { visited with
          statementsC := statementsC
          idxC := statementsC.length
          statements := visited.statements ++ [unified]
          idx := visited.idx + 1 }
      | some .vec =>
        let statementsV := processInfo visited.statementsV analyzer.statementsV analyzer.idxV info
        { visited with
          statementsV := statementsV
          idxV := statementsV.length
          statements := visited.statements ++ [unified]
          idx := visited.idx + 1 }
      | none => visited

/-- `LoopAnalyzer::Analyze`. -/
def analyze (locations : LocationMap) (pipeline : Pipeline) : LoopAnalyzer :=
  LoopAnalyzer.start.visitStmt locations pipeline.body

/-! ## Staged loops -/

/-- `SplitIntoStages`: maximal runs of consecutive statements of one scope. -/
def splitIntoStages (statements : List StmtInfo) : List (List StmtInfo) :=
  statements.splitBy fun first second => decide (first.scope = second.scope)

/-- A sequence of statements, where a single one needs no `SeqStmt`. -/
def seqOf : List Stmt → Stmt
  | [] => .skip
  | [stmt] => stmt
  | stmt :: next :: rest => .seq stmt (seqOf (next :: rest))

/-- `VarReplacer` on variables: the one with the old name is replaced. -/
def replaceVar (old new name : Var) : Var :=
  if name.nameHint = old.nameHint then new else name

/-- `VarReplacer` on expressions. -/
def PrimExpr.replaceVar (old new : Var) : PrimExpr → PrimExpr
  | .intImm value => .intImm value
  | .var name => .var (CrossCore.replaceVar old new name)
  | .binary op a b => .binary op (a.replaceVar old new) (b.replaceVar old new)
  | .cast value => .cast (value.replaceVar old new)
  | .select condition trueValue falseValue =>
    .select (condition.replaceVar old new) (trueValue.replaceVar old new)
      (falseValue.replaceVar old new)
  | .bufferLoad buffer indices => .bufferLoad buffer (indices.replaceVar old new)
  | .call op args => .call op (args.replaceVar old new)
  | .done => .done
  | .next head rest => .next (head.replaceVar old new) (rest.replaceVar old new)

/-- `VarReplacer` on arguments. -/
def Arg.replaceVar (old new : Var) : Arg → Arg
  | .accessPtr buffer offset extent rwMask =>
    .accessPtr buffer (offset.replaceVar old new) (extent.replaceVar old new) rwMask
  | .handle buffer => .handle buffer
  | .value expr => .value (expr.replaceVar old new)

/-- `VarReplacer` on operations. -/
def Operation.replaceVar (old new : Var) : Operation → Operation
  | .evaluate call => .evaluate { call with args := call.args.map (Arg.replaceVar old new) }
  | .bufferStore buffer indices value =>
    .bufferStore buffer (indices.replaceVar old new) (value.replaceVar old new)

/-- `VarReplacer` on statements.  Binders are not expressions and keep their variable. -/
def Stmt.replaceVar (old new : Var) : Stmt → Stmt
  | .skip => .skip
  | .operation op => .operation (op.replaceVar old new)
  | .seq first rest => .seq (first.replaceVar old new) (rest.replaceVar old new)
  | .letStmt name value body => .letStmt name (value.replaceVar old new) (body.replaceVar old new)
  | .forLoop name min extent body =>
    .forLoop name (min.replaceVar old new) (extent.replaceVar old new) (body.replaceVar old new)
  | .ifThenElse condition thenCase elseCase =>
    .ifThenElse (condition.replaceVar old new) (thenCase.replaceVar old new)
      (elseCase.replaceVar old new)

/-- The variable of the pipelined loop. -/
def Pipeline.originalLoopVar (pipeline : Pipeline) : Var :=
  .source pipeline.loopVar.1 pipeline.loopVar.2

/-- The variable of the outer loop. -/
def Pipeline.outerLoopVar (pipeline : Pipeline) : Var := .outer pipeline.loopVar.2

/-- The variable that takes the place of the loop variable in the stages. -/
def Pipeline.transformedVar (pipeline : Pipeline) : Var := .transformed pipeline.loopVar.2

/-- `outer_loop_var_ * num_stages + stage_loop_var_`. -/
def Pipeline.bindingExpr (pipeline : Pipeline) : PrimExpr :=
  .binary .add (.binary .mul (.var pipeline.outerLoopVar) (.intImm pipeline.numStages))
    (.var .stage)

/-- `CreateStageBody`. -/
def createStageBody (statements : List StmtInfo) : Stmt := seqOf (statements.map StmtInfo.stmt)

/-- `AddLetStmtBinding`. -/
def addLetStmtBinding (pipeline : Pipeline) (body : Stmt) : Stmt :=
  .letStmt pipeline.transformedVar pipeline.bindingExpr
    (body.replaceVar pipeline.originalLoopVar pipeline.transformedVar)

/-- `CreateStageLoopWithBinding`. -/
def createStageLoopWithBinding (pipeline : Pipeline) (body : Stmt) : Stmt :=
  .forLoop .stage (.intImm 0) (.intImm pipeline.numStages) (addLetStmtBinding pipeline body)

/-- `CreateStagedLoops`. -/
def createStagedLoops (pipeline : Pipeline) (stages : List (List StmtInfo)) : Stmt :=
  seqOf (stages.map fun stage => createStageLoopWithBinding pipeline (createStageBody stage))

/-- Conversion of an `int64_t` to `int`. -/
def toInt (value : Int) : Int := Int.bmod value (2 ^ 32)

/--
The extent of the outer loop: a constant extent is divided by the number of stages, any other
is multiplied by it.
-/
def Pipeline.newExtent (pipeline : Pipeline) : PrimExpr :=
  match pipeline.extent with
  | .intImm value => .intImm ((toInt value).tdiv pipeline.numStages)
  | extent => .binary .mul extent (.intImm pipeline.numStages)

/-- `ModifyOuterLoop`. -/
def modifyOuterLoop (pipeline : Pipeline) (innerLoops : Stmt) : Stmt :=
  .forLoop pipeline.outerLoopVar pipeline.min pipeline.newExtent innerLoops

/-- `LoopRewriter::Rewrite`, put into the outer loop. -/
def rewritePipeline (pipeline : Pipeline) (statements : List StmtInfo) : Stmt :=
  modifyOuterLoop pipeline (createStagedLoops pipeline (splitIntoStages statements))

/--
`ProcessCrossCorePipeline`: the loop that replaces a pipelined one.  Without a workspace write
there is none.
-/
def processCrossCorePipeline (locations : LocationMap) (pipeline : Pipeline) : Option Stmt :=
  let analyzer := analyze locations pipeline
  if analyzer.workspaceWritesC = 0 ∧ analyzer.workspaceWritesV = 0 then none
  else some (rewritePipeline pipeline analyzer.statements)

/-! ## A handover in two stages -/

/-- Cube and vector statements that hand a tile over through a workspace. -/
def handoverStatements : List StmtInfo :=
  [{ bufferName := some "workspace_1"
     stmt := .operation (.evaluate
       { op := "copy_l0c_to_gm"
         args := [.accessPtr "workspace_1" (.intImm 0) (.intImm 64) 2,
           .accessPtr "c_frag" (.intImm 0) (.intImm 64) 1] })
     usedBuffers := ["c_frag"]
     scope := some .cube },
   { bufferName := some "workspace_1"
     stmt := .operation (.evaluate
       { op := "copy_gm_to_ub"
         args := [.accessPtr "workspace_1" (.intImm 0) (.intImm 64) 1,
           .accessPtr "c_ub" (.intImm 0) (.intImm 64) 2] })
     usedBuffers := ["c_ub"]
     scope := some .vec }]

/-- A loop over these statements with `num_stages=2`. -/
def handoverPipeline (min extent : PrimExpr) : Pipeline where
  loopVar := (0, "k")
  min := min
  extent := extent
  numStages := 2
  body := seqOf (handoverStatements.map StmtInfo.stmt)

/-- Locations of the buffers of the handover. -/
def handoverLocations : LocationMap
  | "c_frag" => some "wmma.accumulator"
  | "c_ub" => some "shared.ub"
  | _ => none

/-- The handover loop is rewritten whatever its range. -/
theorem processCrossCorePipeline_handover (min extent : PrimExpr) :
    processCrossCorePipeline handoverLocations (handoverPipeline min extent) =
      some (rewritePipeline (handoverPipeline min extent) handoverStatements) := by
  rfl

end TilelangAscend.CrossCore
