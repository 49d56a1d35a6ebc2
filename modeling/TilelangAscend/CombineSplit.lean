import TilelangAscend.CombineResources

namespace TilelangAscend.CombineCV

/-!
# Splitting a body between the cores

`ContextualResourceResolver`, `AscendResourceScopeVerifier` and `CVCombineEmitter`.  The resolver
gives shared barriers and flags the owner of the work around them, the verifier rejects operations
without an owner and conflicting scopes, and the emitter writes the body of one side.
-/

/-! ## Statements -/

/--
Statements.  A sequence is made from `done` and `next` under `seqStmt`; a branch without an else
case has the empty sequence there.  `blockRealize` and `allocate` carry the expressions that the
visitors see.
-/
inductive Stmt where
  | evaluate (value : Expr)
  | bufferStore (buffer : Buffer) (value indices : Expr)
  | customizedCode (code : String)
  | seqStmt (children : Stmt)
  | done
  | next (first rest : Stmt)
  | letStmt (var : String) (value : Expr) (body : Stmt)
  | forLoop (vectorized : Bool) (var : String) (min extent : Expr) (body : Stmt)
  | whileLoop (condition : Expr) (body : Stmt)
  | ifThenElse (condition : Expr) (thenCase elseCase : Stmt)
  | attrStmt (key : String) (value : Expr) (body : Stmt)
  | blockRealize (name : String) (predicate regions : Expr) (body : Stmt)
  | allocate (var : String) (extents : Expr) (body : Stmt)
  deriving Repr, DecidableEq

/-- The statements of a sequence. -/
def Stmt.children : Stmt → List Stmt
  | .next first rest => first :: rest.children
  | _ => []

/-- The statement that does nothing. -/
def noOp : Stmt :=
  .evaluate (.intImm 0)

/-- The two sides: cube is scope zero, vector is scope one. -/
inductive Side where
  | cube
  | vector
  deriving Repr, DecidableEq

/-- The side that a `resource_scope` names, if its value is a valid one. -/
def scopeOf : Expr → Option Side
  | .intImm value =>
    if value = 0 then some .cube else if value = 1 then some .vector else none
  | _ => none

/-! ## Summaries -/

/-- `ResourceSummary`, the state of `ExactResourceCollector`. -/
structure ResourceSummary where
  resource : AscendResource
  hasContextOperation : Bool
  hasSharedGmRead : Bool
  deriving Repr, DecidableEq

/-- The summary of nothing. -/
def ResourceSummary.empty : ResourceSummary :=
  ⟨.none, false, false⟩

/-- `Add`: different resources make the summary explicit. -/
def ResourceSummary.add (resource : AscendResource) (summary : ResourceSummary) :
    ResourceSummary :=
  if resource = .none ∨ resource = .common then
    summary
  else if summary.resource = .none then
    { summary with resource := resource }
  else if summary.resource ≠ resource then
    { summary with resource := .explicit }
  else
    summary

/-- `ExactResourceCollector` on expressions; `owned` is `owned_expression_`. -/
def collectExpr (tables : Tables) (owned : Bool) :
    Expr → ResourceSummary → Option ResourceSummary
  | .intImm _, summary => some summary
  | .stringImm _, summary => some summary
  | .var _ _, summary => some summary
  | .call op args, summary => do
      if ← isContextDependentResourceCall tables op args.toList then
        return { summary with hasContextOperation := true }
      else
        let resource ← resourceForCall tables op args.toList
        collectExpr tables (owned || resource.isConcrete) args (summary.add resource)
  | .bufferLoad buffer indices, summary =>
    let added := summary.add (resourceForStorageScope buffer.scope)
    collectExpr tables owned indices
      { added with
        hasSharedGmRead := added.hasSharedGmRead || (!owned && buffer.scope == "global") }
  | .compute _ operands, summary => collectExpr tables owned operands summary
  | .noArgs, summary => some summary
  | .arg first rest, summary => do
      collectExpr tables owned rest (← collectExpr tables owned first summary)

/-- `ExactResourceCollector` on statements. -/
def collectStmt (tables : Tables) : Stmt → ResourceSummary → Option ResourceSummary
  | .evaluate value, summary => collectExpr tables false value summary
  | .bufferStore buffer value indices, summary => do
      let resource := resourceForBufferStore buffer
      let stored ← collectExpr tables resource.isConcrete value (summary.add resource)
      collectExpr tables resource.isConcrete indices stored
  | .customizedCode _, summary => some (summary.add .explicit)
  | .seqStmt children, summary => collectStmt tables children summary
  | .done, summary => some summary
  | .next first rest, summary => do
      collectStmt tables rest (← collectStmt tables first summary)
  | .letStmt _ value body, summary => do
      collectStmt tables body (← collectExpr tables false value summary)
  | .forLoop vectorized _ min extent body, summary => do
      let started := if vectorized then summary.add .vector else summary
      let bounded ← collectExpr tables false extent (← collectExpr tables false min started)
      collectStmt tables body bounded
  | .whileLoop condition body, summary => do
      collectStmt tables body (← collectExpr tables false condition summary)
  | .ifThenElse condition thenCase elseCase, summary => do
      let tested ← collectExpr tables false condition summary
      collectStmt tables elseCase (← collectStmt tables thenCase tested)
  | .attrStmt key value body, summary =>
    match if key = "resource_scope" then scopeOf value else none with
    | some .cube => some (summary.add .cube)
    | some .vector => some (summary.add .vector)
    | none => do collectStmt tables body (← collectExpr tables false value summary)
  | .blockRealize _ predicate regions body, summary => do
      let tested ← collectExpr tables false regions (← collectExpr tables false predicate summary)
      collectStmt tables body tested
  | .allocate _ extents body, summary => do
      collectStmt tables body (← collectExpr tables false extents summary)

/-- `SummarizeResources`. -/
def summarizeResources (tables : Tables) (stmt : Stmt) : Option ResourceSummary :=
  collectStmt tables stmt .empty

/-- `RegionResource`. -/
def regionResource : List ResourceSummary → AscendResource → AscendResource
  | [], region => region
  | summary :: rest, region =>
    if summary.resource = .none then
      regionResource rest region
    else if !summary.resource.isConcrete ∨ (region ≠ .none ∧ region ≠ summary.resource) then
      .explicit
    else
      regionResource rest summary.resource

/-- `NearestResource`, over the summaries in the order in which they are looked at. -/
def nearestResource (summaries : List ResourceSummary) : AscendResource :=
  ((summaries.find? (·.resource ≠ .none)).map (·.resource)).getD .none

/-! ## Resolving -/

/-- The context of one statement of a sequence, from the summaries before and after it. -/
def childContext (sequenceContext : AscendResource) (before : List ResourceSummary)
    (summary : ResourceSummary) (after : List ResourceSummary) : AscendResource :=
  if summary.resource.isConcrete then
    summary.resource
  else if !sequenceContext.isConcrete ∧ summary.resource = .none ∧ summary.hasContextOperation then
    if nearestResource before.reverse = nearestResource after ∧
        (nearestResource before.reverse).isConcrete then
      nearestResource before.reverse
    else
      sequenceContext
  else
    sequenceContext

/-- The contexts of the statements of a sequence. -/
def childContexts (sequenceContext : AscendResource) :
    List ResourceSummary → List ResourceSummary → List AscendResource
  | _, [] => []
  | before, summary :: after =>
    childContext sequenceContext before summary after ::
      childContexts sequenceContext (before ++ [summary]) after

/-- Whether evaluating expressions reads global memory on both sides. -/
def sharedGmRead (tables : Tables) (expressions : List Expr) : Option Bool := do
  let summaries ← expressions.mapM fun expression =>
    summarizeResources tables (.evaluate expression)
  return summaries.any (·.hasSharedGmRead)

/-- The operator and the arguments of a call. -/
def Expr.asCall : Expr → Option (Option String × List Expr)
  | .call op args => some (op, args.toList)
  | _ => none

/-- `VisitStmt_(EvaluateNode)` of the resolver. -/
def resolveEvaluate (tables : Tables) (context : AscendResource) (sharedRead : Bool)
    (value : Expr) : Option Stmt :=
  match value.asCall with
  | none => some (.evaluate value)
  | some (op, args) => do
      let dependent ← isContextDependentResourceCall tables op args
      if !dependent || !context.isConcrete then
        return .evaluate value
      else if op = some "tl.ascend_datacachecleanandinvalid_experiment" ∧ sharedRead then
        return .evaluate value
      else
        return .attrStmt "resource_scope"
          (.intImm (if context = .vector then 1 else 0)) (.evaluate value)

/--
`ContextualResourceResolver`.  A statement has one context; the statements of a sequence have one
each.
-/
def resolve (tables : Tables) :
    List AscendResource → Bool → Stmt → Option Stmt
  | contexts, sharedRead, .evaluate value =>
    resolveEvaluate tables (contexts.headD .none) sharedRead value
  | _, _, .bufferStore buffer value indices => some (.bufferStore buffer value indices)
  | _, _, .customizedCode code => some (.customizedCode code)
  | contexts, sharedRead, .seqStmt children => do
      let summaries ← children.children.mapM (summarizeResources tables)
      let region := regionResource summaries .none
      let sequenceContext := if region.isConcrete then region else contexts.headD .none
      let resolved ← resolve tables (childContexts sequenceContext [] summaries)
        (sharedRead || summaries.any (·.hasSharedGmRead)) children
      return .seqStmt resolved
  | _, _, .done => some .done
  | contexts, sharedRead, .next first rest => do
      let resolvedFirst ← resolve tables [contexts.headD .none] sharedRead first
      let resolvedRest ← resolve tables contexts.tail sharedRead rest
      return .next resolvedFirst resolvedRest
  | contexts, sharedRead, .letStmt var value body => do
      let read ← sharedGmRead tables [value]
      return .letStmt var value (← resolve tables contexts (sharedRead || read) body)
  | contexts, sharedRead, .forLoop vectorized var min extent body => do
      let read ← sharedGmRead tables [min, extent]
      return .forLoop vectorized var min extent
        (← resolve tables contexts (sharedRead || read) body)
  | contexts, sharedRead, .whileLoop condition body => do
      let read ← sharedGmRead tables [condition]
      return .whileLoop condition (← resolve tables contexts (sharedRead || read) body)
  | contexts, sharedRead, .ifThenElse condition thenCase elseCase => do
      let read ← sharedGmRead tables [condition]
      let resolvedThen ← resolve tables contexts (sharedRead || read) thenCase
      let resolvedElse ← resolve tables contexts (sharedRead || read) elseCase
      return .ifThenElse condition resolvedThen resolvedElse
  | contexts, sharedRead, .attrStmt key value body =>
    if key = "resource_scope" then
      some (.attrStmt key value body)
    else do
      let read ← sharedGmRead tables [value]
      return .attrStmt key value (← resolve tables contexts (sharedRead || read) body)
  | contexts, sharedRead, .blockRealize name predicate regions body => do
      let read ← sharedGmRead tables [predicate]
      return .blockRealize name predicate regions
        (← resolve tables contexts (sharedRead || read) body)
  | contexts, sharedRead, .allocate var extents body => do
      return .allocate var extents (← resolve tables contexts sharedRead body)

/-- The resolver on a body, in the context that it has there. -/
def resolveBody (tables : Tables) (context : AscendResource) (sharedRead : Bool) (body : Stmt) :
    Option Stmt :=
  resolve tables [context] sharedRead body

/-! ## Verifying -/

/-- `Check` of the verifier, when scopes are not required. -/
def checkResource (scope : Option Side) (resource : AscendResource) : Bool :=
  match resource, scope with
  | .none, _ => true
  | .common, _ => true
  | .explicit, none => false
  | _, none => true
  | .cube, some side => side == .cube
  | .vector, some side => side == .vector
  | .explicit, some _ => true

/-- `AscendResourceScopeVerifier` on expressions. -/
def verifyExpr (tables : Tables) (scope : Option Side) : Expr → Bool
  | .intImm _ => true
  | .stringImm _ => true
  | .var _ _ => true
  | .call op args =>
    (resourceForCall tables op args.toList).any (checkResource scope) &&
      verifyExpr tables scope args
  | .bufferLoad buffer indices =>
    checkResource scope (resourceForStorageScope buffer.scope) && verifyExpr tables scope indices
  | .compute _ operands => verifyExpr tables scope operands
  | .noArgs => true
  | .arg first rest => verifyExpr tables scope first && verifyExpr tables scope rest

/-- `AscendResourceScopeVerifier` on statements. -/
def verifyStmt (tables : Tables) : Option Side → Stmt → Bool
  | scope, .evaluate value => verifyExpr tables scope value
  | scope, .bufferStore buffer value indices =>
    (buffer.scope ≠ "global" || scope.isSome) &&
      checkResource scope (resourceForBufferStore buffer) &&
      verifyExpr tables scope value && verifyExpr tables scope indices
  | scope, .customizedCode _ => checkResource scope .explicit
  | scope, .seqStmt children => verifyStmt tables scope children
  | _, .done => true
  | scope, .next first rest => verifyStmt tables scope first && verifyStmt tables scope rest
  | scope, .letStmt _ value body => verifyExpr tables scope value && verifyStmt tables scope body
  | scope, .forLoop vectorized _ min extent body =>
    (!vectorized || checkResource scope .vector) && verifyExpr tables scope min &&
      verifyExpr tables scope extent && verifyStmt tables scope body
  | scope, .whileLoop condition body =>
    verifyExpr tables scope condition && verifyStmt tables scope body
  | scope, .ifThenElse condition thenCase elseCase =>
    verifyExpr tables scope condition && verifyStmt tables scope thenCase &&
      verifyStmt tables scope elseCase
  | scope, .attrStmt key value body =>
    if key = "resource_scope" then
      match scopeOf value with
      | none => false
      | some side => (scope.all (· == side)) && verifyStmt tables (some side) body
    else
      verifyExpr tables scope value && verifyStmt tables scope body
  | scope, .blockRealize _ predicate regions body =>
    verifyExpr tables scope predicate && verifyExpr tables scope regions &&
      verifyStmt tables scope body
  | scope, .allocate _ extents body =>
    verifyExpr tables scope extents && verifyStmt tables scope body

/-! ## Emitting -/

/-- The side that keeps a resource. -/
def AscendResource.keptOn (side : Side) (resource : AscendResource) : Bool :=
  (resource == .vector) == (side == .vector)

/-- `VisitStmt_(EvaluateNode)` of the emitter, outside explicit scopes. -/
def emitEvaluate (tables : Tables) (side : Side) (value : Expr) : Option Stmt :=
  match value.asCall with
  | none => some (.evaluate value)
  | some (op, args) => do
      match ← resourceForCall tables op args with
      | .common => return .evaluate value
      | .cube => return if AscendResource.cube.keptOn side then .evaluate value else noOp
      | .vector => return if AscendResource.vector.keptOn side then .evaluate value else noOp
      | .explicit => none
      | .none => return .evaluate value

/-- `VisitStmt_(BufferStoreNode)` of the emitter, outside explicit scopes. -/
def emitStore (side : Side) (buffer : Buffer) (value indices : Expr) : Option Stmt :=
  match resourceForBufferStore buffer with
  | .explicit => none
  | .none => some (.bufferStore buffer value indices)
  | resource => some (if resource.keptOn side then .bufferStore buffer value indices else noOp)

/-- `CVCombineEmitter`; the depth counts the explicit scopes around the statement. -/
def emit (tables : Tables) (side : Side) : Nat → Stmt → Option Stmt
  | depth, .evaluate value =>
    if 0 < depth then some (.evaluate value) else emitEvaluate tables side value
  | depth, .bufferStore buffer value indices =>
    if 0 < depth then some (.bufferStore buffer value indices)
    else emitStore side buffer value indices
  | _, .customizedCode code => some (.customizedCode code)
  | depth, .seqStmt children => do return .seqStmt (← emit tables side depth children)
  | _, .done => some .done
  | depth, .next first rest => do
      let emittedFirst ← emit tables side depth first
      let emittedRest ← emit tables side depth rest
      return .next emittedFirst emittedRest
  | depth, .letStmt var value body => do
      return .letStmt var value (← emit tables side depth body)
  | depth, .forLoop vectorized var min extent body => do
      return .forLoop vectorized var min extent (← emit tables side depth body)
  | depth, .whileLoop condition body => do
      return .whileLoop condition (← emit tables side depth body)
  | depth, .ifThenElse condition thenCase elseCase => do
      let emittedThen ← emit tables side depth thenCase
      let emittedElse ← emit tables side depth elseCase
      return .ifThenElse condition emittedThen emittedElse
  | depth, .attrStmt key value body =>
    if key = "resource_scope" then
      match scopeOf value with
      | none => none
      | some scope =>
        if scope = side then do
          return .attrStmt key value (← emit tables side (depth + 1) body)
        else
          some noOp
    else do
      return .attrStmt key value (← emit tables side depth body)
  | depth, .blockRealize name predicate regions body => do
      return .blockRealize name predicate regions (← emit tables side depth body)
  | depth, .allocate var extents body => do
      return .allocate var extents (← emit tables side depth body)

/--
`CombineCV` on the body of the root block, without automatic cross-core flags.  The resolver
comes to the block in the context of what is around it.
-/
def combineCV (tables : Tables) (context : AscendResource) (sharedRead : Bool) (body : Stmt) :
    Option Stmt := do
  let resolved ← resolveBody tables context sharedRead body
  guard (verifyStmt tables none resolved)
  let cubeCode ← emit tables .cube 0 resolved
  let vecCode ← emit tables .vector 0 resolved
  return .seqStmt (.next (.attrStmt "resource_scope" (.intImm 0) cubeCode)
    (.next (.attrStmt "resource_scope" (.intImm 1) vecCode) .done))

end TilelangAscend.CombineCV
