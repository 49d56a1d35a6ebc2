import Mathlib.Data.List.Infix

namespace TilelangAscend.CombineCV

/-!
# Resources of Ascend operations

The classifiers of the combine pass.  A call is owned by the cube or the vector side, is common
to both, needs an explicit owner, or uses no resource at all.  A classifier has no result where
the source fails one of its internal checks.
-/

/-! ## Expressions -/

/-- A buffer, with its storage scope. -/
structure Buffer where
  name : String
  scope : String
  deriving Repr, DecidableEq

/--
Expressions.  A variable carries the storage scope of its pointer type, the operator of a call is
missing when it is not an `Op`, and `compute` is any other expression over its operands.  Lists
of arguments are made from `noArgs` and `arg`.
-/
inductive Expr where
  | intImm (value : Int)
  | stringImm (value : String)
  | var (name storageScope : String)
  | call (op : Option String) (args : Expr)
  | bufferLoad (buffer : Buffer) (indices : Expr)
  | compute (operator : String) (operands : Expr)
  | noArgs
  | arg (first rest : Expr)
  deriving Repr, DecidableEq

/-- The arguments in a list of arguments. -/
def Expr.toList : Expr → List Expr
  | .arg first rest => first :: rest.toList
  | _ => []

/-- The string of a string constant. -/
def Expr.asString : Expr → Option String
  | .stringImm value => some value
  | _ => none

/-! ## Resources -/

/-- `AscendResource`. -/
inductive AscendResource where
  | none
  | common
  | explicit
  | cube
  | vector
  deriving Repr, DecidableEq

/-- `IsConcreteResource`. -/
def AscendResource.isConcrete (resource : AscendResource) : Bool :=
  resource == .cube || resource == .vector

/-- `ResourceForStorageScope`. -/
def resourceForStorageScope (scope : String) : AscendResource :=
  if scope = "shared.ub" then
    .vector
  else if scope = "shared.l1" ∨ scope = "wmma.matrix_a" ∨ scope = "wmma.matrix_b" ∨
      scope = "wmma.accumulator" ∨ scope = "shared.bt" then
    .cube
  else
    .none

/-- `ResourceForBufferStore`: a store to global memory needs an explicit owner. -/
def resourceForBufferStore (buffer : Buffer) : AscendResource :=
  if buffer.scope = "global" then .explicit else resourceForStorageScope buffer.scope

/-- Characters without a given start, if they have it. -/
def dropStart (start text : List Char) : List Char :=
  if start.isPrefixOf text then text.drop start.length else text

/-- `NormalizePipeName`. -/
def normalizePipeName (pipe : String) : String :=
  String.ofList (dropStart "PIPE_".toList (pipe.toList.map Char.toUpper))

/-- `ResourceForPipe`. -/
def resourceForPipe (pipe : String) : AscendResource :=
  if normalizePipeName pipe = "V" then
    .vector
  else if normalizePipeName pipe = "M" ∨ normalizePipeName pipe = "MTE1" ∨
      normalizePipeName pipe = "FIX" then
    .cube
  else
    .explicit

/-- `ResourceForPipeArgument`. -/
def resourceForPipeArgument (args : List Expr) (index : Nat) : AscendResource :=
  match (args[index]?).bind Expr.asString with
  | some pipe => resourceForPipe pipe
  | none => .explicit

/-- `MergeResources`, which fails where cube and vector are mixed. -/
def mergeResources (first second : AscendResource) : Option AscendResource :=
  if second = .none ∨ second = .common then
    some first
  else if first = .none ∨ first = .common then
    some second
  else if first = second ∨ first = .explicit ∨ second = .explicit then
    some (if first = .explicit then second else first)
  else
    none

/-- `StorageScopeForAccessPtr`. -/
def storageScopeForAccessPtr : Expr → String
  | .call (some "tir.tvm_access_ptr") args =>
    match args.toList with
    | _ :: .var _ storageScope :: _ => storageScope
    | _ => ""
  | _ => ""

/-- `ResourceForAccessPtr`. -/
def resourceForAccessPtr (expr : Expr) : AscendResource :=
  resourceForStorageScope (storageScopeForAccessPtr expr)

/-- `ResourceForAccessPtrs`, over the arguments that are left. -/
def resourceForAccessPtrs (args : List Expr) : Option AscendResource :=
  args.foldlM (fun result arg => mergeResources result (resourceForAccessPtr arg)) .none

/-- The rest of a text after the last occurrence of a part. -/
def afterLast (part : List Char) : List Char → Option (List Char)
  | [] => none
  | char :: rest =>
    match afterLast part rest with
    | some found => some found
    | none =>
      if part.isPrefixOf (char :: rest) then some ((char :: rest).drop part.length)
      else none

/-- `NormalizeFunctionName`: without template arguments and without the namespace. -/
def normalizeFunctionName (name : String) : String :=
  let plain := name.toList.takeWhile (· ≠ '<')
  String.ofList ((afterLast "tl::ascend::".toList plain).getD plain)

/-! ## Operations -/

/-- The fields of `OperationConfig` that the classifiers read. -/
structure OperationConfig where
  defaultPipeline : String
  copyScopes : List String
  copyResourceScope : Int
  deriving Repr, DecidableEq

/-- The tables of operations, and the selected vector terminals. -/
structure Tables where
  operationConfig : String → Option OperationConfig
  selectedTerminal : String → Bool

/-- `ResourceForConfiguredOperation`, over the operands. -/
def resourceForConfiguredOperation
    (config : OperationConfig)
    (args : List Expr) :
    Option AscendResource := do
  if config.copyScopes ≠ [] then
    guard (config.copyResourceScope = 0 ∨ config.copyResourceScope = 1)
    let owner := if config.copyResourceScope = 0 then AscendResource.cube else .vector
    guard (2 ≤ config.copyScopes.length)
    guard (config.copyScopes.length ≤ args.length)
    guard ((args.take config.copyScopes.length).map storageScopeForAccessPtr = config.copyScopes)
    let _ ← (args.drop config.copyScopes.length).mapM fun arg =>
      mergeResources owner (resourceForAccessPtr arg)
    return owner
  else
    let operands ← resourceForAccessPtrs args
    if config.defaultPipeline = "PIPE_V" then
      mergeResources .vector operands
    else if config.defaultPipeline = "PIPE_M" ∨ config.defaultPipeline = "PIPE_MTE1" ∨
        config.defaultPipeline = "PIPE_FIX" then
      mergeResources .cube operands
    else
      return if operands = .none then .explicit else operands

/-- `ResourceForPipePair`. -/
def resourceForPipePair (src dst : String) : Option AscendResource :=
  mergeResources (resourceForPipe src) (resourceForPipe dst)

/-- `ResourceForEventType`: the two pipes around the first underscore. -/
def resourceForEventType (eventType : String) : Option AscendResource :=
  if '_' ∈ eventType.toList then
    resourceForPipePair (String.ofList (eventType.toList.takeWhile (· ≠ '_')))
      (String.ofList ((eventType.toList.dropWhile (· ≠ '_')).drop 1))
  else
    some .explicit

/-- Operands without a resource leave the owner open. -/
def explicitIfNone (resource : AscendResource) : AscendResource :=
  if resource = .none then .explicit else resource

/-- Operations that both sides perform. -/
def commonOps : List String :=
  ["tl.ascend_printf", "tl.ascend_sync_all", "tl.ascend_use_swizzle", "tl.loop_break"]

/-- Whether an operation sets the vector mask, `IsVectorMaskSetter`. -/
def isVectorMaskSetter (op : String) : Bool :=
  op = "tl.ascend_set_mask_mode" || op = "tl.ascend_set_mask_payload"

/-- The case of `call_extern` in `ResourceForCall`. -/
def resourceForExtern (tables : Tables) (args : List Expr) : Option AscendResource :=
  match args with
  | .stringImm callee :: operands =>
    let name := normalizeFunctionName callee
    if name = "free_pipe_C" then
      some .cube
    else if name = "free_pipe_V" then
      some .vector
    else
      match tables.operationConfig name with
      | some config => resourceForConfiguredOperation config operands
      | none => (resourceForAccessPtrs operands).map explicitIfNone
  | _ => some .explicit

/-- The case of `free_pipe` in `ResourceForCall`. -/
def resourceForFreePipe (args : List Expr) : AscendResource :=
  match (args[0]?).bind Expr.asString with
  | some "free_pipe_C" => .cube
  | some "free_pipe_V" => .vector
  | _ => .explicit

/-- The case of the cache operation in `ResourceForCall`. -/
def resourceForDataCache (args : List Expr) : Option AscendResource :=
  match args with
  | [_, operand] =>
    if storageScopeForAccessPtr operand = "shared.ub" then
      some .vector
    else if storageScopeForAccessPtr operand = "global" then
      some .explicit
    else
      none
  | _ => none

/-- The case of local flags in `ResourceForCall`. -/
def resourceForFlag (args : List Expr) : Option AscendResource :=
  match args with
  | .stringImm src :: .stringImm dst :: _ => resourceForPipePair src dst
  | _ => some .explicit

/-- The case of automatic local flags in `ResourceForCall`. -/
def resourceForAutoFlag (args : List Expr) : Option AscendResource :=
  match args with
  | .stringImm eventType :: _ => resourceForEventType eventType
  | _ => some .explicit

/-- The cases of named operators in `ResourceForCall`, in the order of the source. -/
def resourceForOp (tables : Tables) (op : String) (args : List Expr) : Option AscendResource :=
  if op ∈ commonOps then
    some .common
  else if op = "tl.ascend_datacachecleanandinvalid_experiment" then
    resourceForDataCache args
  else if op = "tl.ascend_src_code" then
    some .explicit
  else if op = "tl.ascend_free_pipe" then
    some (resourceForFreePipe args)
  else if op = "tl.ascend_set_deq_scale" ∨ isVectorMaskSetter op ∨ tables.selectedTerminal op then
    some .vector
  else if op = "tl.ascend_dump_tensor" then
    match (args[0]?).elim .none resourceForAccessPtr with
    | .none => some .common
    | resource => some resource
  else if op = "tl.ascend_set_flag" ∨ op = "tl.ascend_wait_flag" then
    resourceForFlag args
  else if op = "tl.ascend_pipe_barrier" ∨ op = "tl.ascend_set_cross_flag" ∨
      op = "tl.ascend_auto_barrier" then
    some (resourceForPipeArgument args 0)
  else if op = "tl.ascend_auto_set_flag" ∨ op = "tl.ascend_auto_wait_flag" then
    resourceForAutoFlag args
  else if op = "tl.ascend_wait_cross_flag" ∨ op = "tl.ascend_auto_set_cross_flag" ∨
      op = "tl.ascend_auto_wait_cross_flag" then
    some (resourceForPipeArgument args 1)
  else if op = "tir.call_extern" then
    resourceForExtern tables args
  else
    match tables.operationConfig op with
    | some config => resourceForConfiguredOperation config args
    | none =>
      if "tl.ascend_".toList.isPrefixOf op.toList then
        (resourceForAccessPtrs args).map explicitIfNone
      else
        some .none

/-- `ResourceForCall`. -/
def resourceForCall (tables : Tables) (op : Option String) (args : List Expr) :
    Option AscendResource :=
  match op with
  | none => some .none
  | some op => resourceForOp tables op args

/-- `IsContextDependentResourceCall`. -/
def isContextDependentResourceCall (tables : Tables) (op : Option String) (args : List Expr) :
    Option Bool :=
  match op with
  | none => some false
  | some op =>
    if op = "tl.ascend_datacachecleanandinvalid_experiment" then
      match args with
      | [_, operand] => some (storageScopeForAccessPtr operand == "global")
      | _ => some false
    else if op = "tl.ascend_pipe_barrier" then
      match (args[0]?).bind Expr.asString with
      | some pipe =>
        some (normalizePipeName pipe == "ALL" || normalizePipeName pipe == "MTE2" ||
          normalizePipeName pipe == "MTE3")
      | none => some false
    else if op = "tl.ascend_set_flag" ∨ op = "tl.ascend_wait_flag" then
      match args with
      | .stringImm _ :: .stringImm _ :: _ => (resourceForOp tables op args).map (· == .explicit)
      | _ => some false
    else
      some false

end TilelangAscend.CombineCV
