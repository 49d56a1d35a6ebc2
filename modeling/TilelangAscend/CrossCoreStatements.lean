import Mathlib.Data.List.Perm.Basic
import Mathlib.Data.List.SplitBy
import TilelangAscend.CrossCorePipeline

namespace TilelangAscend.CrossCore

/-!
# Operations of the staged loops

Which operations the staged loops contain, and under which loops, branches and bindings.  The
statements that the analysis collects are first described without its lists, by one function on
statements; the occurrences of operations in them are then compared with those of the body.
-/

/-! ## Occurrences of operations -/

/-- A compound statement around an operation. -/
inductive Frame where
  | loop (name : Var) (min extent : PrimExpr)
  | binding (name : Var) (value : PrimExpr)
  | branch (condition : PrimExpr) (taken : Bool)
  deriving Repr, DecidableEq

/-- An operation with the statements around it, the outermost first. -/
structure Occurrence where
  frames : List Frame
  op : Operation
  deriving Repr, DecidableEq

/-- An occurrence inside one more statement. -/
def Occurrence.within (frame : Frame) (occurrence : Occurrence) : Occurrence :=
  { occurrence with frames := frame :: occurrence.frames }

@[simp] theorem op_comp_within (frame : Frame) :
    Occurrence.op ∘ Occurrence.within frame = Occurrence.op := rfl

/-- The occurrences of operations in a statement, in program order. -/
def Stmt.occurrences : Stmt → List Occurrence
  | .skip => []
  | .operation op => [⟨[], op⟩]
  | .seq first rest => first.occurrences ++ rest.occurrences
  | .letStmt name value body => body.occurrences.map (Occurrence.within (.binding name value))
  | .forLoop name min extent body =>
    body.occurrences.map (Occurrence.within (.loop name min extent))
  | .ifThenElse condition thenCase elseCase =>
    thenCase.occurrences.map (Occurrence.within (.branch condition true)) ++
      elseCase.occurrences.map (Occurrence.within (.branch condition false))

/-- The operations of a statement, in program order. -/
def Stmt.operations (stmt : Stmt) : List Operation := stmt.occurrences.map Occurrence.op

@[simp] theorem operations_skip : Stmt.skip.operations = [] := rfl

@[simp] theorem operations_operation (op : Operation) :
    (Stmt.operation op).operations = [op] := rfl

@[simp] theorem operations_seq (first rest : Stmt) :
    (Stmt.seq first rest).operations = first.operations ++ rest.operations := by
  simp [Stmt.operations, Stmt.occurrences]

@[simp] theorem operations_letStmt (name : Var) (value : PrimExpr) (body : Stmt) :
    (Stmt.letStmt name value body).operations = body.operations := by
  simp [Stmt.operations, Stmt.occurrences]

@[simp] theorem operations_forLoop (name : Var) (min extent : PrimExpr) (body : Stmt) :
    (Stmt.forLoop name min extent body).operations = body.operations := by
  simp [Stmt.operations, Stmt.occurrences]

@[simp] theorem operations_ifThenElse (condition : PrimExpr) (thenCase elseCase : Stmt) :
    (Stmt.ifThenElse condition thenCase elseCase).operations =
      thenCase.operations ++ elseCase.operations := by
  simp [Stmt.operations, Stmt.occurrences]

theorem occurrences_eq_nil_iff (stmt : Stmt) : stmt.occurrences = [] ↔ stmt.operations = [] := by
  simp [Stmt.operations]

/-! ## Owners of operations -/

/-- The first known owner among the buffers of an operation. -/
def Operation.ownScope (locations : LocationMap) : Operation → Option CoreScope
  | .evaluate call => CrossCore.ownScope locations call.args
  | .bufferStore buffer _ _ => checkBufferScope locations buffer

/--
The owner of an operation after a given scope: its own, or with no buffer operand the given
one.
-/
def Operation.scopeAfter
    (locations : LocationMap)
    (scope : Option CoreScope) :
    Operation → Option CoreScope
  | .evaluate call => scanOperands locations scope call.args
  | .bufferStore buffer _ _ => checkBufferScope locations buffer

/-- The scope after a sequence of operations. -/
def scopeAfterAll (locations : LocationMap) (scope : Option CoreScope)
    (operations : List Operation) : Option CoreScope :=
  operations.foldl (Operation.scopeAfter locations) scope

/-- Some operation of a sequence has an owner. -/
def SomeOwned (locations : LocationMap) : Option CoreScope → List Operation → Prop
  | _, [] => False
  | scope, op :: rest =>
    (op.scopeAfter locations scope).isSome ∨
      SomeOwned locations (op.scopeAfter locations scope) rest

instance decidableSomeOwned (locations : LocationMap) :
    (scope : Option CoreScope) → (operations : List Operation) →
      Decidable (SomeOwned locations scope operations)
  | _, [] => isFalse id
  | scope, op :: rest =>
    have := decidableSomeOwned locations (op.scopeAfter locations scope) rest
    inferInstanceAs (Decidable (_ ∨ _))

@[simp] theorem scopeAfterAll_append (locations : LocationMap) (scope : Option CoreScope)
    (first rest : List Operation) :
    scopeAfterAll locations scope (first ++ rest) =
      scopeAfterAll locations (scopeAfterAll locations scope first) rest := by
  simp [scopeAfterAll]

theorem someOwned_append (locations : LocationMap) (scope : Option CoreScope)
    (first rest : List Operation) :
    SomeOwned locations scope (first ++ rest) ↔
      SomeOwned locations scope first ∨
        SomeOwned locations (scopeAfterAll locations scope first) rest := by
  induction first generalizing scope with
  | nil => simp [SomeOwned, scopeAfterAll]
  | cons op tail ih =>
    simp only [List.cons_append, SomeOwned, ih, scopeAfterAll, List.foldl_cons]
    exact or_assoc.symm

theorem scanOperands_of_ownScope (locations : LocationMap) (scope : Option CoreScope)
    {args : List Arg} {owner : CoreScope} (known : ownScope locations args = some owner) :
    scanOperands locations scope args = some owner := by
  induction args generalizing scope with
  | nil => simp [ownScope] at known
  | cons arg rest ih =>
    cases operand : arg.buffer? with
    | none =>
      simp only [scanOperands, operand]
      apply ih
      simpa [ownScope, List.filterMap_cons, operand] using known
    | some buffer =>
      cases found : checkBufferScope locations buffer with
      | none =>
        simp only [scanOperands, operand, found]
        apply ih
        simpa [ownScope, List.filterMap_cons, operand, found] using known
      | some first =>
        simp only [scanOperands, operand, found]
        simpa [ownScope, List.filterMap_cons, operand, found] using known

variable {op : Operation} {locations : LocationMap} {stmt : Stmt}

theorem scopeAfter_of_ownScope (locations : LocationMap) (scope : Option CoreScope)
    (known : (op.ownScope locations).isSome) : (op.scopeAfter locations scope).isSome := by
  cases op with
  | evaluate call =>
    obtain ⟨owner, found⟩ := Option.isSome_iff_exists.mp known
    simp [Operation.scopeAfter, scanOperands_of_ownScope locations scope found]
  | bufferStore buffer indices value => exact known

theorem someOwned_of_ownScope (locations : LocationMap) (scope : Option CoreScope)
    {operations : List Operation} (member : op ∈ operations)
    (known : (op.ownScope locations).isSome) : SomeOwned locations scope operations := by
  obtain ⟨before, after, rfl⟩ := List.append_of_mem member
  rw [someOwned_append]
  exact .inr (.inl (scopeAfter_of_ownScope locations _ known))

theorem detectScope_isSome_iff (locations : LocationMap) (stmt : Stmt) :
    (detectScope locations stmt).isSome ↔
      ∃ op ∈ stmt.operations, (op.ownScope locations).isSome := by
  induction stmt with
  | skip => simp [detectScope]
  | operation op => cases op <;> simp [detectScope, Operation.ownScope]
  | seq first rest firstIh restIh =>
    simp [detectScope, firstIh, restIh, or_and_right, exists_or]
  | letStmt name value body ih => simpa [detectScope] using ih
  | forLoop name min extent body ih => simpa [detectScope] using ih
  | ifThenElse condition thenCase elseCase thenIh elseIh =>
    simp [detectScope, thenIh, elseIh, or_and_right, exists_or]

/-! ## What the analysis collects -/

/-- The statements that a visit adds to the unified list, from the scope seen last. -/
def collected (locations : LocationMap) (scope : Option CoreScope) : Stmt → List Stmt
  | .skip => []
  | .operation op =>
    if (op.scopeAfter locations scope).isSome then [.operation op] else []
  | .seq first rest =>
    collected locations scope first ++
      collected locations (scopeAfterAll locations scope first.operations) rest
  | .letStmt _ _ body => collected locations scope body
  | .forLoop name min extent body =>
    if collected locations scope body = [] then [] else [.forLoop name min extent body]
  | .ifThenElse condition thenCase elseCase =>
    collected locations scope thenCase ++
      collected locations (scopeAfterAll locations scope thenCase.operations) elseCase ++
      if mixedScope locations thenCase elseCase = false ∧
          ((detectScope locations thenCase).or (detectScope locations elseCase)).isSome then
        [.ifThenElse condition thenCase elseCase]
      else []

theorem collected_ne_nil_iff (locations : LocationMap) (scope : Option CoreScope) (stmt : Stmt) :
    collected locations scope stmt ≠ [] ↔ SomeOwned locations scope stmt.operations := by
  induction stmt generalizing scope with
  | skip => simp [collected, SomeOwned]
  | operation op => simp [collected, SomeOwned, Option.isSome_iff_ne_none]
  | seq first rest firstIh restIh =>
    rw [operations_seq, someOwned_append, ← firstIh, ← restIh]
    simp only [collected, ne_eq, List.append_eq_nil_iff]
    tauto
  | letStmt name value body ih => simpa [collected] using ih scope
  | forLoop name min extent body ih =>
    rw [operations_forLoop, ← ih]
    by_cases nothing : collected locations scope body = [] <;> simp [collected, nothing]
  | ifThenElse condition thenCase elseCase thenIh elseIh =>
    have branchOwned :
        ((detectScope locations thenCase).or (detectScope locations elseCase)).isSome →
          SomeOwned locations scope (thenCase.operations ++ elseCase.operations) := by
      intro found
      rw [Option.isSome_or, Bool.or_eq_true, detectScope_isSome_iff,
        detectScope_isSome_iff] at found
      rcases found with ⟨op, member, known⟩ | ⟨op, member, known⟩
      · exact someOwned_of_ownScope locations scope (by simp [member]) known
      · exact someOwned_of_ownScope locations scope (by simp [member]) known
    rw [operations_ifThenElse]
    by_cases pushed : mixedScope locations thenCase elseCase = false ∧
        ((detectScope locations thenCase).or (detectScope locations elseCase)).isSome
    · simp [collected, pushed, branchOwned pushed.2]
    · rw [someOwned_append, ← thenIh, ← elseIh]
      simp only [collected, if_neg pushed, ne_eq, List.append_eq_nil_iff]
      tauto

/-- What one visit does to the lists of the analysis. -/
structure Collects
    (locations : LocationMap)
    (analyzer visited : LoopAnalyzer)
    (stmt : Stmt) : Prop where
  scope : visited.coreScope = scopeAfterAll locations analyzer.coreScope stmt.operations
  statements : ∃ added, visited.statements = analyzer.statements ++ added ∧
    added.map StmtInfo.stmt = collected locations analyzer.coreScope stmt
  fewerC : analyzer.statementsC.length ≤ visited.statementsC.length
  fewerV : analyzer.statementsV.length ≤ visited.statementsV.length
  grown : (analyzer.statementsV.length < visited.statementsV.length ∨
    analyzer.statementsC.length < visited.statementsC.length) ↔
      collected locations analyzer.coreScope stmt ≠ []

theorem push_collects (locations : LocationMap) (analyzer current : LoopAnalyzer)
    {info : StmtInfo} (isOperation : info.stmt = .operation op)
    (sameC : current.statementsC = analyzer.statementsC)
    (sameV : current.statementsV = analyzer.statementsV)
    (sameStatements : current.statements = analyzer.statements)
    (owned : current.coreScope = op.scopeAfter locations analyzer.coreScope) :
    Collects locations analyzer (current.push info) (.operation op) := by
  cases owner : current.coreScope with
  | none =>
    rw [owner] at owned
    constructor
    · simp [LoopAnalyzer.push, owner, scopeAfterAll, ← owned]
    · exact ⟨[], by simp [LoopAnalyzer.push, owner, sameStatements], by simp [collected, ← owned]⟩
    · simp [LoopAnalyzer.push, owner, sameC]
    · simp [LoopAnalyzer.push, owner, sameV]
    · simp [LoopAnalyzer.push, owner, sameC, sameV, collected, ← owned]
  | some core =>
    rw [owner] at owned
    cases core with
    | cube =>
      constructor
      · simp [LoopAnalyzer.push, owner, scopeAfterAll, ← owned]
      · exact ⟨[{ info with scope := some .cube }],
          by simp [LoopAnalyzer.push, owner, sameStatements],
          by simp [collected, ← owned, isOperation]⟩
      · simp [LoopAnalyzer.push, owner, sameC]
      · simp [LoopAnalyzer.push, owner, sameV]
      · simp [LoopAnalyzer.push, owner, sameC, sameV, collected, ← owned]
    | vec =>
      constructor
      · simp [LoopAnalyzer.push, owner, scopeAfterAll, ← owned]
      · exact ⟨[{ info with scope := some .vec }],
          by simp [LoopAnalyzer.push, owner, sameStatements],
          by simp [collected, ← owned, isOperation]⟩
      · simp [LoopAnalyzer.push, owner, sameC]
      · simp [LoopAnalyzer.push, owner, sameV]
      · simp [LoopAnalyzer.push, owner, sameC, sameV, collected, ← owned]

theorem Collects.seq {analyzer middle visited : LoopAnalyzer} {first rest : Stmt}
    (before : Collects locations analyzer middle first)
    (after : Collects locations middle visited rest) :
    Collects locations analyzer visited (.seq first rest) := by
  obtain ⟨firstAdded, firstStatements, firstCollected⟩ := before.statements
  obtain ⟨restAdded, restStatements, restCollected⟩ := after.statements
  have collects : collected locations analyzer.coreScope (.seq first rest) =
      collected locations analyzer.coreScope first ++
        collected locations middle.coreScope rest := by
    rw [collected, before.scope]
  refine ⟨?_, ⟨firstAdded ++ restAdded, ?_, ?_⟩, ?_, ?_, ?_⟩
  · rw [after.scope, before.scope, operations_seq, scopeAfterAll_append]
  · rw [restStatements, firstStatements, List.append_assoc]
  · rw [List.map_append, firstCollected, restCollected, collects]
  · exact before.fewerC.trans after.fewerC
  · exact before.fewerV.trans after.fewerV
  · have firstGrown := before.grown
    have restGrown := after.grown
    have firstC := before.fewerC
    have firstV := before.fewerV
    have restC := after.fewerC
    have restV := after.fewerV
    rw [collects, ne_eq, List.append_eq_nil_iff, not_and_or, ← ne_eq, ← ne_eq, ← firstGrown,
      ← restGrown]
    omega

theorem forLoop_collects (locations : LocationMap) (analyzer : LoopAnalyzer) (name : Var)
    (min extent : PrimExpr) {body : Stmt}
    (inner : Collects locations analyzer (analyzer.visitStmt locations body) body) :
    Collects locations analyzer
      (analyzer.visitStmt locations (.forLoop name min extent body))
      (.forLoop name min extent body) := by
  have grown := inner.grown
  obtain ⟨added, statements, addedStatements⟩ := inner.statements
  by_cases nothing : collected locations analyzer.coreScope body = []
  · have noAdded : added = [] := by simpa [nothing] using addedStatements
    have notNew : ¬(analyzer.statementsV.length <
          (analyzer.visitStmt locations body).statementsV.length) ∧
        ¬(analyzer.statementsC.length <
          (analyzer.visitStmt locations body).statementsC.length) := by
      have := grown.not.mpr (by simp [nothing])
      tauto
    constructor
    · rw [operations_forLoop, ← inner.scope]
      simp only [LoopAnalyzer.visitStmt]
    · refine ⟨[], ?_, by simp [collected, nothing]⟩
      simp [LoopAnalyzer.visitStmt, notNew.1, notNew.2, statements, noAdded]
    · simpa [LoopAnalyzer.visitStmt, notNew.2] using inner.fewerC
    · simpa [LoopAnalyzer.visitStmt, notNew.1] using inner.fewerV
    · simp [LoopAnalyzer.visitStmt, notNew.1, notNew.2, collected, nothing]
  · have isNew := grown.mpr nothing
    constructor
    · rw [operations_forLoop, ← inner.scope]
      simp only [LoopAnalyzer.visitStmt]
    · simp only [LoopAnalyzer.visitStmt, collected, nothing, if_false]
      rw [if_pos (by simpa using isNew)]
      exact ⟨_, rfl, rfl⟩
    · simp only [LoopAnalyzer.visitStmt]
      split
      · simp [processInfo]
      · exact inner.fewerC
    · simp only [LoopAnalyzer.visitStmt]
      split
      · simp [processInfo]
      · exact inner.fewerV
    · simp only [collected, nothing, if_false, ne_eq, List.cons_ne_nil, not_false_eq_true, iff_true]
      rcases isNew with newV | newC
      · left
        simp [LoopAnalyzer.visitStmt, newV, processInfo]
      · right
        simp [LoopAnalyzer.visitStmt, newC, processInfo]

theorem ifThenElse_collects (locations : LocationMap) (analyzer : LoopAnalyzer)
    (condition : PrimExpr) {thenCase elseCase : Stmt}
    (inner : Collects locations analyzer
      ((analyzer.visitStmt locations thenCase).visitStmt locations elseCase)
      (.seq thenCase elseCase)) :
    Collects locations analyzer
      (analyzer.visitStmt locations (.ifThenElse condition thenCase elseCase))
      (.ifThenElse condition thenCase elseCase) := by
  obtain ⟨added, statements, addedStatements⟩ := inner.statements
  have scope := inner.scope
  rw [operations_seq, ← operations_ifThenElse condition] at scope
  have fewerC := inner.fewerC
  have fewerV := inner.fewerV
  have grown := inner.grown
  rw [collected] at addedStatements grown
  by_cases mixed : mixedScope locations thenCase elseCase
  · have kept : analyzer.visitStmt locations (.ifThenElse condition thenCase elseCase) =
        (analyzer.visitStmt locations thenCase).visitStmt locations elseCase := by
      simp only [LoopAnalyzer.visitStmt, mixed, if_true]
    have same : collected locations analyzer.coreScope
          (.ifThenElse condition thenCase elseCase) =
        collected locations analyzer.coreScope thenCase ++
          collected locations
            (scopeAfterAll locations analyzer.coreScope thenCase.operations) elseCase := by
      simp [collected, mixed]
    rw [kept]
    exact ⟨scope, ⟨added, statements, addedStatements.trans same.symm⟩, fewerC, fewerV,
      by rw [same]; exact grown⟩
  · have notMixed : mixedScope locations thenCase elseCase = false := by simpa using mixed
    cases found : (detectScope locations thenCase).or (detectScope locations elseCase) with
    | none =>
      have kept : analyzer.visitStmt locations (.ifThenElse condition thenCase elseCase) =
          (analyzer.visitStmt locations thenCase).visitStmt locations elseCase := by
        simp only [LoopAnalyzer.visitStmt, found, ite_self]
      have same : collected locations analyzer.coreScope
            (.ifThenElse condition thenCase elseCase) =
          collected locations analyzer.coreScope thenCase ++
            collected locations
              (scopeAfterAll locations analyzer.coreScope thenCase.operations) elseCase := by
        simp [collected, found]
      rw [kept]
      exact ⟨scope, ⟨added, statements, addedStatements.trans same.symm⟩, fewerC, fewerV,
        by rw [same]; exact grown⟩
    | some core =>
      have same : collected locations analyzer.coreScope
            (.ifThenElse condition thenCase elseCase) =
          collected locations analyzer.coreScope thenCase ++
            collected locations
              (scopeAfterAll locations analyzer.coreScope thenCase.operations) elseCase ++
            [.ifThenElse condition thenCase elseCase] := by
        simp [collected, found, notMixed]
      let entry (core : CoreScope) : StmtInfo :=
        { bufferName := none
          stmt := .ifThenElse condition thenCase elseCase
          usedBuffers := collectBuffersFromStmt locations thenCase ++
            collectBuffersFromStmt locations elseCase
          scope := some core }
      cases core with
      | cube =>
        constructor
        · simp only [LoopAnalyzer.visitStmt, notMixed, found, Bool.false_eq_true, if_false]
          exact scope
        · refine ⟨added ++ [entry .cube], ?_, ?_⟩
          · simp [LoopAnalyzer.visitStmt, notMixed, found, statements, entry]
          · rw [List.map_append, addedStatements, same]
            rfl
        · simp [LoopAnalyzer.visitStmt, notMixed, found, processInfo]
        · simpa [LoopAnalyzer.visitStmt, notMixed, found] using fewerV
        · rw [same]
          simp [LoopAnalyzer.visitStmt, notMixed, found, processInfo]
      | vec =>
        constructor
        · simp only [LoopAnalyzer.visitStmt, notMixed, found, Bool.false_eq_true, if_false]
          exact scope
        · refine ⟨added ++ [entry .vec], ?_, ?_⟩
          · simp [LoopAnalyzer.visitStmt, notMixed, found, statements, entry]
          · rw [List.map_append, addedStatements, same]
            rfl
        · simpa [LoopAnalyzer.visitStmt, notMixed, found] using fewerC
        · simp [LoopAnalyzer.visitStmt, notMixed, found, processInfo]
        · rw [same]
          simp [LoopAnalyzer.visitStmt, notMixed, found, processInfo]

theorem visitStmt_collects (locations : LocationMap) (analyzer : LoopAnalyzer) (stmt : Stmt) :
    Collects locations analyzer (analyzer.visitStmt locations stmt) stmt := by
  induction stmt generalizing analyzer with
  | skip =>
    exact ⟨rfl, ⟨[], by simp [LoopAnalyzer.visitStmt], rfl⟩, le_rfl, le_rfl,
      by simp [LoopAnalyzer.visitStmt, collected]⟩
  | operation op =>
    cases op with
    | evaluate call =>
      simp only [LoopAnalyzer.visitStmt]
      apply push_collects locations analyzer _ rfl <;>
        · simp only [LoopAnalyzer.noteWrite]
          split
          · split <;> simp_all [Operation.scopeAfter]
          · rfl
    | bufferStore buffer indices value =>
      exact push_collects locations analyzer _ rfl rfl rfl rfl rfl
  | seq first rest firstIh restIh =>
    exact (firstIh analyzer).seq (restIh _)
  | letStmt name value body ih =>
    have inner := ih analyzer
    exact ⟨by rw [operations_letStmt]; exact inner.scope, inner.statements, inner.fewerC,
      inner.fewerV, inner.grown⟩
  | forLoop name min extent body ih =>
    exact forLoop_collects locations analyzer name min extent (ih analyzer)
  | ifThenElse condition thenCase elseCase thenIh elseIh =>
    exact ifThenElse_collects locations analyzer condition ((thenIh analyzer).seq (elseIh _))

theorem analyze_statements (locations : LocationMap) (pipeline : Pipeline) :
    (analyze locations pipeline).statements.map StmtInfo.stmt =
      collected locations none pipeline.body := by
  obtain ⟨added, statements, addedStatements⟩ :=
    (visitStmt_collects locations LoopAnalyzer.start pipeline.body).statements
  rw [analyze, statements]
  exact addedStatements

/-! ## Operations of the collected statements -/

/-- An operation outside branches and bindings, or below a loop that is outside them. -/
def Occurrence.direct (occurrence : Occurrence) : Bool :=
  match occurrence.frames with
  | [] => true
  | .loop _ _ _ :: _ => true
  | _ => false

/-- An operation with an owner of its own. -/
def Occurrence.known (locations : LocationMap) (occurrence : Occurrence) : Bool :=
  (occurrence.op.ownScope locations).isSome

/-- The occurrences in the statements that the analysis collects. -/
def collectedOccurrences (locations : LocationMap) (scope : Option CoreScope)
    (stmt : Stmt) : List Occurrence :=
  (collected locations scope stmt).flatMap Stmt.occurrences

/--
The analysis keeps every operation: outside loops there is no operation below a branch or a
binding and each one is owned, and a loop with operations has an owned one.
-/
def Kept (locations : LocationMap) (scope : Option CoreScope) : Stmt → Prop
  | .skip => True
  | .operation op => (op.scopeAfter locations scope).isSome
  | .seq first rest =>
    Kept locations scope first ∧
      Kept locations (scopeAfterAll locations scope first.operations) rest
  | .letStmt _ _ body => body.operations = []
  | .forLoop _ _ _ body => body.operations = [] ∨ SomeOwned locations scope body.operations
  | .ifThenElse _ thenCase elseCase => thenCase.operations = [] ∧ elseCase.operations = []

instance decidableKept (locations : LocationMap) :
    (scope : Option CoreScope) → (stmt : Stmt) → Decidable (Kept locations scope stmt)
  | _, .skip => isTrue trivial
  | scope, .operation op =>
    inferInstanceAs (Decidable ((op.scopeAfter locations scope).isSome = true))
  | scope, .seq first rest =>
    have := decidableKept locations scope first
    have := decidableKept locations (scopeAfterAll locations scope first.operations) rest
    inferInstanceAs (Decidable (_ ∧ _))
  | _, .letStmt _ _ body => inferInstanceAs (Decidable (body.operations = []))
  | scope, .forLoop _ _ _ body =>
    inferInstanceAs (Decidable (body.operations = [] ∨ SomeOwned locations scope body.operations))
  | _, .ifThenElse _ thenCase elseCase =>
    inferInstanceAs (Decidable (thenCase.operations = [] ∧ elseCase.operations = []))

@[simp] theorem known_within
    (locations : LocationMap)
    (frame : Frame)
    (occurrence : Occurrence) :
    (occurrence.within frame).known locations = occurrence.known locations := rfl

@[simp] theorem direct_within_loop
    (name : Var)
    (min extent : PrimExpr)
    (occurrence : Occurrence) :
    (occurrence.within (.loop name min extent)).direct = true := rfl

@[simp] theorem direct_within_binding
    (name : Var)
    (value : PrimExpr)
    (occurrence : Occurrence) :
    (occurrence.within (.binding name value)).direct = false := rfl

@[simp] theorem direct_within_branch
    (condition : PrimExpr)
    (taken : Bool)
    (occurrence : Occurrence) :
    (occurrence.within (.branch condition taken)).direct = false := rfl

theorem collected_ne_nil_of_known (locations : LocationMap) (scope : Option CoreScope)
    {occurrence : Occurrence} (member : occurrence ∈ stmt.occurrences)
    (known : occurrence.known locations) : collected locations scope stmt ≠ [] := by
  rw [collected_ne_nil_iff]
  apply someOwned_of_ownScope locations scope _ known
  exact List.mem_map_of_mem member

/--
Every known operation is collected once outside branches and bindings, wherever it stands in
the body.
-/
theorem countP_collectedOccurrences (locations : LocationMap) (scope : Option CoreScope)
    (stmt : Stmt) :
    (collectedOccurrences locations scope stmt).countP
        (fun occurrence => occurrence.direct && occurrence.known locations) =
      stmt.occurrences.countP (Occurrence.known locations) := by
  induction stmt generalizing scope with
  | skip => rfl
  | operation op =>
    by_cases owned : (op.scopeAfter locations scope).isSome
    · have isDirect : Occurrence.direct ⟨[], op⟩ = true := rfl
      simp [collectedOccurrences, collected, owned, Stmt.occurrences, List.countP_cons, isDirect]
    · have unknown : ¬(op.ownScope locations).isSome :=
        fun known => owned (scopeAfter_of_ownScope locations scope known)
      simp [collectedOccurrences, collected, owned, Stmt.occurrences, Occurrence.known, unknown]
  | seq first rest firstIh restIh =>
    simp only [collectedOccurrences] at firstIh restIh ⊢
    simp only [collected, List.flatMap_append, List.countP_append, firstIh,
      restIh, Stmt.occurrences]
  | letStmt name value body ih =>
    simpa [collectedOccurrences, collected, Stmt.occurrences, List.countP_map,
      Function.comp_def] using ih scope
  | forLoop name min extent body ih =>
    by_cases nothing : collected locations scope body = []
    · have unknown : ∀ occurrence ∈ body.occurrences, ¬occurrence.known locations :=
        fun occurrence member known =>
          collected_ne_nil_of_known locations scope member known nothing
      have noKnown : body.occurrences.countP (Occurrence.known locations) = 0 :=
        List.countP_eq_zero.mpr unknown
      simp [collectedOccurrences, collected, nothing, Stmt.occurrences, List.countP_map,
        Function.comp_def, noKnown]
    · simp [collectedOccurrences, collected, nothing, Stmt.occurrences, List.countP_map,
        Function.comp_def]
  | ifThenElse condition thenCase elseCase thenIh elseIh =>
    have ownEntry :
        ((if mixedScope locations thenCase elseCase = false ∧
            ((detectScope locations thenCase).or (detectScope locations elseCase)).isSome then
          [Stmt.ifThenElse condition thenCase elseCase]
        else []).flatMap Stmt.occurrences).countP
          (fun occurrence => occurrence.direct && occurrence.known locations) = 0 := by
      split <;> simp [Stmt.occurrences, List.countP_map, Function.comp_def]
    simp only [collectedOccurrences] at thenIh elseIh ⊢
    simp only [collected, List.flatMap_append, List.countP_append, thenIh,
      elseIh, ownEntry, Stmt.occurrences, List.countP_map]
    rfl

theorem direct_of_collected (locations : LocationMap) (scope : Option CoreScope)
    (knownDirect : ∀ occurrence ∈ stmt.occurrences,
      occurrence.known locations → occurrence.direct) :
    ∀ occurrence ∈ collectedOccurrences locations scope stmt, occurrence.direct := by
  induction stmt generalizing scope with
  | skip => simp [collectedOccurrences, collected]
  | operation op =>
    by_cases owned : (op.scopeAfter locations scope).isSome <;>
      simp [collectedOccurrences, collected, owned, Stmt.occurrences, Occurrence.direct]
  | seq first rest firstIh restIh =>
    intro occurrence member
    simp only [collectedOccurrences, collected, List.flatMap_append, List.mem_append] at member
    rcases member with member | member
    · apply firstIh scope _ occurrence member
      intro other inFirst
      exact knownDirect other (by simp [Stmt.occurrences, inFirst])
    · apply restIh _ _ occurrence member
      intro other inRest
      exact knownDirect other (by simp [Stmt.occurrences, inRest])
  | letStmt name value body ih =>
    apply ih scope
    intro other inBody known
    have := knownDirect (other.within (.binding name value)) (List.mem_map_of_mem inBody) known
    simp at this
  | forLoop name min extent body ih =>
    intro occurrence member
    by_cases nothing : collected locations scope body = []
    · simp [collectedOccurrences, collected, nothing] at member
    · simp only [collectedOccurrences, collected, nothing, if_false, List.flatMap_cons,
        List.flatMap_nil, List.append_nil, Stmt.occurrences, List.mem_map] at member
      obtain ⟨inner, -, rfl⟩ := member
      rfl
  | ifThenElse condition thenCase elseCase thenIh elseIh =>
    have thenUnknown : ∀ occurrence ∈ thenCase.occurrences, ¬occurrence.known locations := by
      intro occurrence inThen known
      have := knownDirect (occurrence.within (.branch condition true))
        (by
          rw [Stmt.occurrences]
          exact List.mem_append_left _ (List.mem_map_of_mem inThen)) known
      simp at this
    have elseUnknown : ∀ occurrence ∈ elseCase.occurrences, ¬occurrence.known locations := by
      intro occurrence inElse known
      have := knownDirect (occurrence.within (.branch condition false))
        (by
          rw [Stmt.occurrences]
          exact List.mem_append_right _ (List.mem_map_of_mem inElse)) known
      simp at this
    have noEntry :
        ¬((detectScope locations thenCase).or (detectScope locations elseCase)).isSome := by
      rw [Option.isSome_or, Bool.or_eq_true, detectScope_isSome_iff, detectScope_isSome_iff]
      simp only [Stmt.operations, List.mem_map, exists_exists_and_eq_and]
      rintro (⟨occurrence, member, known⟩ | ⟨occurrence, member, known⟩)
      · exact thenUnknown occurrence member known
      · exact elseUnknown occurrence member known
    intro occurrence member
    rw [collectedOccurrences, collected, if_neg (fun pushed => noEntry pushed.2),
      List.append_nil, List.flatMap_append, List.mem_append] at member
    rcases member with member | member
    · exact thenIh scope (fun other inThen known =>
        (thenUnknown other inThen known).elim) occurrence member
    · exact elseIh _ (fun other inElse known =>
        (elseUnknown other inElse known).elim) occurrence member

theorem collected_eq_nil (locations : LocationMap) (scope : Option CoreScope)
    (noOperations : stmt.operations = []) : collected locations scope stmt = [] := by
  by_contra something
  rw [← ne_eq, collected_ne_nil_iff, noOperations] at something
  exact something

theorem collectedOccurrences_sublist (locations : LocationMap) (scope : Option CoreScope)
    (allDirect : ∀ occurrence ∈ stmt.occurrences, occurrence.direct) :
    (collectedOccurrences locations scope stmt).Sublist stmt.occurrences ∧
      ((collectedOccurrences locations scope stmt).length = stmt.occurrences.length ↔
        Kept locations scope stmt) := by
  induction stmt generalizing scope with
  | skip => simp [collectedOccurrences, collected, Stmt.occurrences, Kept]
  | operation op =>
    by_cases owned : (op.scopeAfter locations scope).isSome <;>
      simp [collectedOccurrences, collected, owned, Stmt.occurrences, Kept]
  | seq first rest firstIh restIh =>
    obtain ⟨firstSublist, firstKept⟩ := firstIh scope
      (fun occurrence member => allDirect occurrence (by simp [Stmt.occurrences, member]))
    obtain ⟨restSublist, restKept⟩ := restIh
      (scopeAfterAll locations scope first.operations)
      (fun occurrence member => allDirect occurrence (by simp [Stmt.occurrences, member]))
    have split : collectedOccurrences locations scope (.seq first rest) =
        collectedOccurrences locations scope first ++
          collectedOccurrences locations (scopeAfterAll locations scope first.operations) rest := by
      simp [collectedOccurrences, collected]
    refine ⟨?_, ?_⟩
    · rw [split]
      exact firstSublist.append restSublist
    · have firstFewer := firstSublist.length_le
      have restFewer := restSublist.length_le
      rw [split, Kept, ← firstKept, ← restKept, Stmt.occurrences, List.length_append,
        List.length_append]
      omega
  | letStmt name value body ih =>
    have noOccurrences : body.occurrences = [] := by
      rw [List.eq_nil_iff_forall_not_mem]
      intro occurrence member
      have := allDirect (occurrence.within (.binding name value)) (List.mem_map_of_mem member)
      simp at this
    have noOperations := (occurrences_eq_nil_iff body).mp noOccurrences
    have nothing : collected locations scope (.letStmt name value body) = [] :=
      collected_eq_nil locations scope (by simpa using noOperations)
    simp [collectedOccurrences, nothing, Stmt.occurrences, Kept, noOccurrences, noOperations]
  | forLoop name min extent body ih =>
    by_cases nothing : collected locations scope body = []
    · have notOwned : ¬SomeOwned locations scope body.operations := by
        rw [← collected_ne_nil_iff]
        simp [nothing]
      simp only [collectedOccurrences, collected, nothing, if_true, List.flatMap_nil,
        List.nil_sublist, Stmt.occurrences, List.length_nil, List.length_map, Kept, notOwned,
        or_false, true_and]
      rw [← occurrences_eq_nil_iff, eq_comm, List.length_eq_zero_iff]
    · have owned := (collected_ne_nil_iff locations scope body).mp nothing
      simp [collectedOccurrences, collected, nothing, Stmt.occurrences, Kept, owned]
  | ifThenElse condition thenCase elseCase thenIh elseIh =>
    have noThen : thenCase.occurrences = [] := by
      rw [List.eq_nil_iff_forall_not_mem]
      intro occurrence member
      have := allDirect (occurrence.within (.branch condition true))
        (by
          rw [Stmt.occurrences]
          exact List.mem_append_left _ (List.mem_map_of_mem member))
      simp at this
    have noElse : elseCase.occurrences = [] := by
      rw [List.eq_nil_iff_forall_not_mem]
      intro occurrence member
      have := allDirect (occurrence.within (.branch condition false))
        (by
          rw [Stmt.occurrences]
          exact List.mem_append_right _ (List.mem_map_of_mem member))
      simp at this
    have thenOperations := (occurrences_eq_nil_iff thenCase).mp noThen
    have elseOperations := (occurrences_eq_nil_iff elseCase).mp noElse
    have nothing : collected locations scope (.ifThenElse condition thenCase elseCase) = [] :=
      collected_eq_nil locations scope (by simp [thenOperations, elseOperations])
    simp [collectedOccurrences, nothing, Stmt.occurrences, Kept, noThen, noElse,
      thenOperations, elseOperations]

theorem Kept.direct {scope : Option CoreScope} (kept : Kept locations scope stmt) :
    ∀ occurrence ∈ stmt.occurrences, occurrence.direct := by
  induction stmt generalizing scope with
  | skip => simp [Stmt.occurrences]
  | operation op => simp [Stmt.occurrences, Occurrence.direct]
  | seq first rest firstIh restIh =>
    intro occurrence member
    rw [Stmt.occurrences, List.mem_append] at member
    rcases member with member | member
    · exact firstIh kept.1 occurrence member
    · exact restIh kept.2 occurrence member
  | letStmt name value body ih =>
    have noOccurrences := (occurrences_eq_nil_iff body).mpr kept
    simp [Stmt.occurrences, noOccurrences]
  | forLoop name min extent body ih =>
    intro occurrence member
    obtain ⟨inner, -, rfl⟩ := List.mem_map.mp member
    rfl
  | ifThenElse condition thenCase elseCase thenIh elseIh =>
    have noThen := (occurrences_eq_nil_iff thenCase).mpr kept.1
    have noElse := (occurrences_eq_nil_iff elseCase).mpr kept.2
    simp [Stmt.occurrences, noThen, noElse]

/-! ## The emitted loops -/

/-- `VarReplacer` on the headers around an operation. -/
def Frame.replaceVar (old new : Var) : Frame → Frame
  | .loop name min extent => .loop name (min.replaceVar old new) (extent.replaceVar old new)
  | .binding name value => .binding name (value.replaceVar old new)
  | .branch condition taken => .branch (condition.replaceVar old new) taken

/--
An occurrence of the body in the staged loops: below the outer loop, a stage loop and the
binding of the transformed variable, under its own headers.
-/
def Occurrence.staged (pipeline : Pipeline) (occurrence : Occurrence) : Occurrence where
  frames :=
    .loop pipeline.outerLoopVar pipeline.min pipeline.newExtent ::
      .loop .stage (.intImm 0) (.intImm pipeline.numStages) ::
      .binding pipeline.transformedVar pipeline.bindingExpr ::
      occurrence.frames.map (Frame.replaceVar pipeline.originalLoopVar pipeline.transformedVar)
  op := occurrence.op.replaceVar pipeline.originalLoopVar pipeline.transformedVar

theorem occurrences_replaceVar (old new : Var) (stmt : Stmt) :
    (stmt.replaceVar old new).occurrences =
      stmt.occurrences.map fun occurrence =>
        ⟨occurrence.frames.map (Frame.replaceVar old new), occurrence.op.replaceVar old new⟩ := by
  induction stmt with
  | skip => rfl
  | operation op => rfl
  | seq first rest firstIh restIh =>
    simp [Stmt.replaceVar, Stmt.occurrences, firstIh, restIh]
  | letStmt name value body ih =>
    simp [Stmt.replaceVar, Stmt.occurrences, ih, Occurrence.within,
      Frame.replaceVar, Function.comp_def]
  | forLoop name min extent body ih =>
    simp [Stmt.replaceVar, Stmt.occurrences, ih, Occurrence.within,
      Frame.replaceVar, Function.comp_def]
  | ifThenElse condition thenCase elseCase thenIh elseIh =>
    simp [Stmt.replaceVar, Stmt.occurrences, thenIh, elseIh,
      Occurrence.within, Frame.replaceVar, Function.comp_def]

theorem occurrences_seqOf (stmts : List Stmt) :
    (seqOf stmts).occurrences = stmts.flatMap Stmt.occurrences := by
  induction stmts with
  | nil => rfl
  | cons head tail ih =>
    cases tail with
    | nil => simp [seqOf]
    | cons next rest =>
      rw [seqOf, Stmt.occurrences, ih]
      rfl

theorem occurrences_rewritePipeline (pipeline : Pipeline) (statements : List StmtInfo) :
    (rewritePipeline pipeline statements).occurrences =
      ((statements.map StmtInfo.stmt).flatMap Stmt.occurrences).map
        (Occurrence.staged pipeline) := by
  have stageLoop (stage : List StmtInfo) :
      ((createStageLoopWithBinding pipeline (createStageBody stage)).occurrences).map
          (Occurrence.within (.loop pipeline.outerLoopVar pipeline.min pipeline.newExtent)) =
        ((stage.map StmtInfo.stmt).flatMap Stmt.occurrences).map (Occurrence.staged pipeline) := by
    simp [createStageLoopWithBinding, addLetStmtBinding, Stmt.occurrences,
      occurrences_replaceVar, createStageBody, occurrences_seqOf, Occurrence.within,
      Occurrence.staged, Function.comp_def]
  have stagesJoined : (splitIntoStages statements).flatten = statements := List.flatten_splitBy _ _
  have allStages (stages : List (List StmtInfo)) :
      ((createStagedLoops pipeline stages).occurrences).map
          (Occurrence.within (.loop pipeline.outerLoopVar pipeline.min pipeline.newExtent)) =
        ((stages.flatten.map StmtInfo.stmt).flatMap Stmt.occurrences).map
          (Occurrence.staged pipeline) := by
    rw [createStagedLoops, occurrences_seqOf]
    induction stages with
    | nil => rfl
    | cons stage rest ih =>
      simp only [List.map_cons, List.flatMap_cons, List.map_append, stageLoop,
        ih, List.flatten_cons, List.flatMap_append]
  rw [rewritePipeline, modifyOuterLoop, Stmt.occurrences, allStages, stagesJoined]

theorem ownScope_replaceVar (locations : LocationMap) (old new : Var) (op : Operation) :
    (op.replaceVar old new).ownScope locations = op.ownScope locations := by
  cases op with
  | evaluate call =>
    have sameBuffer (arg : Arg) : (arg.replaceVar old new).buffer? = arg.buffer? := by
      cases arg <;> rfl
    simp [Operation.replaceVar, Operation.ownScope, ownScope, List.filterMap_map, sameBuffer]
  | bufferStore buffer indices value => rfl

/-- An occurrence of the staged loops without the headers that the pass puts around it. -/
def Occurrence.inStage (occurrence : Occurrence) : Occurrence :=
  { occurrence with frames := occurrence.frames.drop 3 }

@[simp] theorem known_inStage_staged (locations : LocationMap) (pipeline : Pipeline)
    (occurrence : Occurrence) :
    (occurrence.staged pipeline).inStage.known locations = occurrence.known locations := by
  simp [Occurrence.known, Occurrence.inStage, Occurrence.staged, ownScope_replaceVar]

@[simp] theorem direct_inStage_staged (pipeline : Pipeline) (occurrence : Occurrence) :
    (occurrence.staged pipeline).inStage.direct = occurrence.direct := by
  obtain ⟨frames, op⟩ := occurrence
  cases frames with
  | nil => rfl
  | cons frame rest => cases frame <;> rfl

/--
Some operations are lost, doubled or torn from their headers unless the analysis keeps every
operation.
-/
theorem kept_of_perm (locations : LocationMap) (pipeline : Pipeline)
    (perm : ((collectedOccurrences locations none pipeline.body).map
      (Occurrence.staged pipeline)).Perm
        (pipeline.body.occurrences.map (Occurrence.staged pipeline))) :
    Kept locations none pipeline.body := by
  have knownDirect : ∀ occurrence ∈ pipeline.body.occurrences,
      occurrence.known locations → occurrence.direct := by
    have counts := perm.countP_eq fun occurrence =>
      occurrence.inStage.direct && occurrence.inStage.known locations
    simp only [List.countP_map, Function.comp_def, known_inStage_staged,
      direct_inStage_staged] at counts
    rw [countP_collectedOccurrences, ← List.countP_filter, List.countP_eq_length_filter,
      eq_comm, List.countP_eq_length] at counts
    intro occurrence member known
    exact counts occurrence (List.mem_filter.mpr ⟨member, known⟩)
  have allDirect : ∀ occurrence ∈ pipeline.body.occurrences, occurrence.direct := by
    intro occurrence member
    obtain ⟨collectedOne, isCollected, same⟩ := List.mem_map.mp
      (perm.symm.subset (List.mem_map_of_mem member))
    rw [← direct_inStage_staged pipeline, ← same, direct_inStage_staged]
    exact direct_of_collected locations none knownDirect collectedOne isCollected
  have counts := perm.length_eq
  rw [List.length_map, List.length_map] at counts
  exact (collectedOccurrences_sublist locations none allDirect).2.mp counts

/-- The handover with a branch around its vector statement. -/
def guardedPipeline : Pipeline :=
  { handoverPipeline (.intImm 0) (.intImm 6) with
    body := .seq handoverStatements[0].stmt
      (.ifThenElse (.var (.source 1 "last")) handoverStatements[1].stmt .skip) }

end TilelangAscend.CrossCore
