import Mathlib
import TilelangAscend.CombineSplit

namespace TilelangAscend.CombineCV

/-!
# The two sides partition the body

A body is read as the list of what a reader meets from top to bottom: control statements that
are entered and left, and statements that are run.  The body of a side is the list of the resolved
body without what belongs to the other side.
-/

/-! ## Reading a body -/

/-- What stands before the body of a control statement. -/
inductive Header where
  | letStmt (var : String) (value : Expr)
  | forLoop (vectorized : Bool) (var : String) (min extent : Expr)
  | whileLoop (condition : Expr)
  | thenCase (condition : Expr)
  | elseCase (condition : Expr)
  | attrStmt (key : String) (value : Expr)
  | blockRealize (name : String) (predicate regions : Expr)
  | allocate (var : String) (extents : Expr)
  deriving Repr, DecidableEq

/-- What a reader of a body meets. -/
inductive Item where
  | enter (header : Header)
  | leave (header : Header)
  | run (stmt : Stmt)
  deriving Repr, DecidableEq

/-- An item, with the resource scope that it lies in. -/
structure Token where
  item : Item
  scope : Option Side
  deriving Repr, DecidableEq

/-- A control statement around the tokens of its body. -/
def around (header : Header) (scope : Option Side) (inner : List Token) : List Token :=
  ⟨.enter header, scope⟩ :: inner ++ [⟨.leave header, scope⟩]

/-- The resource scope inside an attribute. -/
def innerScope (key : String) (value : Expr) (scope : Option Side) : Option Side :=
  if key = "resource_scope" then (scopeOf value).or scope else scope

/-- The tokens of a statement in a resource scope. -/
def Stmt.tokens : Option Side → Stmt → List Token
  | scope, .evaluate value => [⟨.run (.evaluate value), scope⟩]
  | scope, .bufferStore buffer value indices => [⟨.run (.bufferStore buffer value indices), scope⟩]
  | scope, .customizedCode code => [⟨.run (.customizedCode code), scope⟩]
  | scope, .seqStmt children => children.tokens scope
  | _, .done => []
  | scope, .next first rest => first.tokens scope ++ rest.tokens scope
  | scope, .letStmt var value body => around (.letStmt var value) scope (body.tokens scope)
  | scope, .forLoop vectorized var min extent body =>
    around (.forLoop vectorized var min extent) scope (body.tokens scope)
  | scope, .whileLoop condition body => around (.whileLoop condition) scope (body.tokens scope)
  | scope, .ifThenElse condition thenCase elseCase =>
    around (.thenCase condition) scope (thenCase.tokens scope) ++
      around (.elseCase condition) scope (elseCase.tokens scope)
  | scope, .attrStmt key value body =>
    around (.attrStmt key value) (innerScope key value scope)
      (body.tokens (innerScope key value scope))
  | scope, .blockRealize name predicate regions body =>
    around (.blockRealize name predicate regions) scope (body.tokens scope)
  | scope, .allocate var extents body => around (.allocate var extents) scope (body.tokens scope)

/-! ## Owners -/

/-- The side that owns a resource. -/
def AscendResource.owner? : AscendResource → Option Side
  | .cube => some .cube
  | .vector => some .vector
  | _ => Option.none

/-- The side that owns an operation or a store outside every scope. -/
def Stmt.owner? (tables : Tables) : Stmt → Option Side
  | .evaluate (.call op args) => (resourceForCall tables op args.toList).bind AscendResource.owner?
  | .bufferStore buffer _ _ => (resourceForBufferStore buffer).owner?
  | _ => none

/-- The side that owns a token: that of its scope, else that of its operation or store. -/
def Token.owner? (tables : Tables) (token : Token) : Option Side :=
  match token.scope, token.item with
  | some side, _ => some side
  | none, .run stmt => stmt.owner? tables
  | none, _ => none

/-- A token belongs to the side of its owner, or to both. -/
def Token.belongsTo (tables : Tables) (side : Side) (token : Token) : Bool :=
  (token.owner? tables).all (· == side)

/-- Whether a token does anything. -/
def Token.works (token : Token) : Bool :=
  token.item != .run noOp

/-- The tokens of a body without those that do nothing. -/
def Stmt.work (scope : Option Side) (stmt : Stmt) : List Token :=
  (stmt.tokens scope).filter Token.works

@[simp] theorem works_enter (header : Header) (scope : Option Side) :
    Token.works ⟨.enter header, scope⟩ = true := by
  simp [Token.works]

@[simp] theorem works_leave (header : Header) (scope : Option Side) :
    Token.works ⟨.leave header, scope⟩ = true := by
  simp [Token.works]

theorem belongsTo_scope (tables : Tables) (side scope : Side) (item : Item) :
    Token.belongsTo tables side ⟨item, some scope⟩ = (scope == side) := by
  simp [Token.belongsTo, Token.owner?]

variable {item : Item} {tables : Tables} {side : Side} {scope : Option Side}
  {stmt resolved : Stmt} {resource : AscendResource} {value : Expr} {sharedRead : Bool}

theorem belongsTo_control (tables : Tables) (side : Side) (control : ∀ stmt, item ≠ .run stmt) :
    Token.belongsTo tables side ⟨item, none⟩ = true := by
  cases item with
  | enter header => rfl
  | leave header => rfl
  | run stmt => exact absurd rfl (control stmt)

/-! ## Emitting one side -/

/-- The emitter is in a scope of its own side, or in none. -/
inductive EmitsIn (side : Side) : Nat → Option Side → Prop where
  | outside : EmitsIn side 0 none
  | inside (depth : Nat) : EmitsIn side (depth + 1) (some side)

theorem EmitsIn.belongsTo {depth : Nat} (emits : EmitsIn side depth scope)
    (control : ∀ stmt, item ≠ .run stmt) : Token.belongsTo tables side ⟨item, scope⟩ = true := by
  cases emits with
  | outside => exact belongsTo_control tables side control
  | inside depth => simp [belongsTo_scope]

/-- What the emitted statement has to contain. -/
def Emitted (tables : Tables) (side : Side) (scope : Option Side)
    (stmt emitted : Stmt) : Prop :=
  emitted.work scope = (stmt.work scope).filter (Token.belongsTo tables side)

theorem around_emitted {tables : Tables} {side : Side} {scope : Option Side}
    {header : Header} (enters : Token.belongsTo tables side ⟨.enter header, scope⟩ = true)
    (leaves : Token.belongsTo tables side ⟨.leave header, scope⟩ = true)
    {before after : List Token}
    (inner : after.filter Token.works =
      (before.filter Token.works).filter (Token.belongsTo tables side)) :
    (around header scope after).filter Token.works =
      ((around header scope before).filter Token.works).filter (Token.belongsTo tables side) := by
  rw [around, around, List.filter_append, List.filter_cons_of_pos (works_enter header scope),
    inner, List.filter_append, List.filter_cons_of_pos (works_enter header scope),
    List.filter_append, List.filter_cons_of_pos enters]
  simp [leaves]

theorem Emitted.keep (isRun : stmt.tokens scope = [⟨.run stmt, scope⟩])
    (belongs : Token.belongsTo tables side ⟨.run stmt, scope⟩ = true) :
    Emitted tables side scope stmt stmt := by
  unfold Emitted Stmt.work
  rw [isRun]
  cases works : Token.works ⟨.run stmt, scope⟩ with
  | true => simp [works, belongs]
  | false => simp [works]

theorem Emitted.drop (isRun : stmt.tokens scope = [⟨.run stmt, scope⟩])
    (foreign : Token.belongsTo tables side ⟨.run stmt, scope⟩ = false) :
    Emitted tables side scope stmt noOp := by
  have nothing : noOp.work scope = [] := by
    simp [Stmt.work, noOp, Stmt.tokens, Token.works]
  unfold Emitted
  rw [nothing, Stmt.work, isRun]
  cases works : Token.works ⟨.run stmt, scope⟩ with
  | true => simp [works, foreign]
  | false => simp [works]

theorem keptOn_eq (concrete : resource.isConcrete = true) (side : Side) :
    resource.keptOn side = resource.owner?.all (· == side) := by
  cases resource <;> cases side <;> first | rfl | cases concrete

theorem Emitted.keptOn (isRun : stmt.tokens none = [⟨.run stmt, none⟩])
    (owner : stmt.owner? tables = resource.owner?) (concrete : resource.isConcrete = true) :
    Emitted tables side none stmt (if resource.keptOn side then stmt else noOp) := by
  have belongs :
      Token.belongsTo tables side ⟨.run stmt, none⟩ = resource.keptOn side := by
    rw [keptOn_eq concrete, ← owner]
    rfl
  cases kept : resource.keptOn side with
  | true => exact Emitted.keep isRun (belongs.trans kept)
  | false => exact Emitted.drop isRun (belongs.trans kept)

theorem Emitted.shared (isRun : stmt.tokens none = [⟨.run stmt, none⟩])
    (unowned : stmt.owner? tables = none) : Emitted tables side none stmt stmt := by
  apply Emitted.keep isRun
  simp [Token.belongsTo, Token.owner?, unowned]

theorem emitEvaluate_emitted (side : Side) (verified : verifyExpr tables none value = true) :
    ∃ emitted, emitEvaluate tables side value = some emitted ∧
      Emitted tables side none (.evaluate value) emitted := by
  cases value with
  | call op args =>
    simp only [verifyExpr, Bool.and_eq_true, Option.any_eq_true] at verified
    obtain ⟨⟨resource, classified, checked⟩, -⟩ := verified
    have owner : Stmt.owner? tables (.evaluate (.call op args)) = resource.owner? := by
      simp [Stmt.owner?, classified]
    cases resource with
    | none =>
      refine ⟨.evaluate (.call op args), ?_, Emitted.shared rfl owner⟩
      simp [emitEvaluate, Expr.asCall, classified]
    | common =>
      refine ⟨.evaluate (.call op args), ?_, Emitted.shared rfl owner⟩
      simp [emitEvaluate, Expr.asCall, classified]
    | explicit => simp [checkResource] at checked
    | cube =>
      refine ⟨_, ?_, Emitted.keptOn rfl owner rfl⟩
      simp [emitEvaluate, Expr.asCall, classified]
    | vector =>
      refine ⟨_, ?_, Emitted.keptOn rfl owner rfl⟩
      simp [emitEvaluate, Expr.asCall, classified]
  | intImm value => exact ⟨_, rfl, Emitted.shared rfl rfl⟩
  | stringImm value => exact ⟨_, rfl, Emitted.shared rfl rfl⟩
  | var name storageScope => exact ⟨_, rfl, Emitted.shared rfl rfl⟩
  | bufferLoad buffer indices => exact ⟨_, rfl, Emitted.shared rfl rfl⟩
  | compute operator operands => exact ⟨_, rfl, Emitted.shared rfl rfl⟩
  | noArgs => exact ⟨_, rfl, Emitted.shared rfl rfl⟩
  | arg first rest => exact ⟨_, rfl, Emitted.shared rfl rfl⟩

theorem emitStore_emitted (side : Side) {buffer : Buffer} (value indices : Expr)
    (checked : checkResource none (resourceForBufferStore buffer) = true) :
    ∃ emitted, emitStore side buffer value indices = some emitted ∧
      Emitted tables side none (.bufferStore buffer value indices) emitted := by
  have owner :
      Stmt.owner? tables (.bufferStore buffer value indices) =
        (resourceForBufferStore buffer).owner? := rfl
  cases classified : resourceForBufferStore buffer with
  | none =>
    rw [classified] at owner
    refine ⟨.bufferStore buffer value indices, ?_, Emitted.shared rfl owner⟩
    simp [emitStore, classified]
  | common =>
    exfalso
    unfold resourceForBufferStore resourceForStorageScope at classified
    split at classified
    · cases classified
    · split at classified
      · cases classified
      · split at classified <;> cases classified
  | explicit => simp [classified, checkResource] at checked
  | cube =>
    rw [classified] at owner
    refine ⟨_, ?_, Emitted.keptOn rfl owner rfl⟩
    simp [emitStore, classified]
  | vector =>
    rw [classified] at owner
    refine ⟨_, ?_, Emitted.keptOn rfl owner rfl⟩
    simp [emitStore, classified]

theorem emitted_inside (isRun : stmt.tokens (some side) = [⟨.run stmt, some side⟩]) :
    Emitted tables side (some side) stmt stmt := by
  apply Emitted.keep isRun
  simp [belongsTo_scope]

theorem tokens_scope {scope : Side} (verified : verifyStmt tables (some scope) stmt = true) :
    ∀ token ∈ stmt.tokens (some scope), token.scope = some scope := by
  induction stmt with
  | evaluate value => simp [Stmt.tokens]
  | bufferStore buffer value indices => simp [Stmt.tokens]
  | customizedCode code => simp [Stmt.tokens]
  | seqStmt children ih => exact ih verified
  | done => simp [Stmt.tokens]
  | next first rest firstIh restIh =>
    simp only [verifyStmt, Bool.and_eq_true] at verified
    simp only [Stmt.tokens, List.forall_mem_append]
    exact ⟨firstIh verified.1, restIh verified.2⟩
  | letStmt var value body ih =>
    simp only [verifyStmt, Bool.and_eq_true] at verified
    simpa [Stmt.tokens, around, or_imp, forall_and] using ih verified.2
  | forLoop vectorized var min extent body ih =>
    simp only [verifyStmt, Bool.and_eq_true] at verified
    simpa [Stmt.tokens, around, or_imp, forall_and] using ih verified.2
  | whileLoop condition body ih =>
    simp only [verifyStmt, Bool.and_eq_true] at verified
    simpa [Stmt.tokens, around, or_imp, forall_and] using ih verified.2
  | ifThenElse condition thenCase elseCase thenIh elseIh =>
    simp only [verifyStmt, Bool.and_eq_true] at verified
    have inThen := thenIh verified.1.2
    have inElse := elseIh verified.2
    simpa [Stmt.tokens, around, or_imp, forall_and] using And.intro inThen inElse
  | attrStmt key value body ih =>
    by_cases isScope : key = "resource_scope"
    · simp only [verifyStmt, isScope, ↓reduceIte] at verified
      cases side : scopeOf value with
      | none => simp [side] at verified
      | some inner =>
        simp only [side, Option.all_some, Bool.and_eq_true, beq_iff_eq] at verified
        obtain ⟨rfl, bodyVerified⟩ := verified
        have inner := ih bodyVerified
        simpa [Stmt.tokens, around, innerScope, isScope, side, or_imp, forall_and] using inner
    · simp only [verifyStmt, isScope, ↓reduceIte, Bool.and_eq_true] at verified
      have inner := ih verified.2
      simpa [Stmt.tokens, around, innerScope, isScope, or_imp, forall_and] using inner
  | blockRealize name predicate regions body ih =>
    simp only [verifyStmt, Bool.and_eq_true] at verified
    simpa [Stmt.tokens, around, or_imp, forall_and] using ih verified.2
  | allocate var extents body ih =>
    simp only [verifyStmt, Bool.and_eq_true] at verified
    simpa [Stmt.tokens, around, or_imp, forall_and] using ih verified.2

theorem emitted_foreign {scope : Side} {body : Stmt}
    (isScope : scopeOf value = some scope) (foreign : scope ≠ side)
    (verified : verifyStmt tables (some scope) body = true) :
    Emitted tables side none (.attrStmt "resource_scope" value body) noOp := by
  have nothing : noOp.work none = [] := by
    simp [Stmt.work, noOp, Stmt.tokens, Token.works]
  have allForeign :
      ∀ token ∈ Stmt.tokens none (.attrStmt "resource_scope" value body),
        token.scope = some scope := by
    have inner := tokens_scope verified
    simpa [Stmt.tokens, around, innerScope, isScope, or_imp, forall_and] using inner
  unfold Emitted
  rw [nothing, eq_comm, List.filter_eq_nil_iff]
  intro token member
  obtain ⟨item, tokenScope⟩ := token
  obtain rfl : tokenScope = some scope := allForeign _ (List.mem_of_mem_filter member)
  simp [belongsTo_scope, foreign]

theorem emit_emitted {tables : Tables} {side : Side} {depth : Nat} {scope : Option Side}
    {stmt : Stmt} (emits : EmitsIn side depth scope)
    (verified : verifyStmt tables scope stmt = true) :
    ∃ emitted, emit tables side depth stmt = some emitted ∧
      Emitted tables side scope stmt emitted := by
  induction stmt generalizing depth scope with
  | evaluate value =>
    cases emits with
    | outside => exact emitEvaluate_emitted side verified
    | inside depth => exact ⟨_, rfl, emitted_inside rfl⟩
  | bufferStore buffer value indices =>
    cases emits with
    | outside =>
      simp only [verifyStmt, Bool.and_eq_true] at verified
      exact emitStore_emitted side value indices verified.1.1.2
    | inside depth => exact ⟨_, rfl, emitted_inside rfl⟩
  | customizedCode code =>
    cases emits with
    | outside => simp [verifyStmt, checkResource] at verified
    | inside depth => exact ⟨_, rfl, emitted_inside rfl⟩
  | seqStmt children ih =>
    obtain ⟨emitted, isEmitted, tokens⟩ := ih emits verified
    exact ⟨.seqStmt emitted, by simp [emit, isEmitted], tokens⟩
  | done => exact ⟨.done, rfl, rfl⟩
  | next first rest firstIh restIh =>
    simp only [verifyStmt, Bool.and_eq_true] at verified
    obtain ⟨emittedFirst, isFirst, firstTokens⟩ := firstIh emits verified.1
    obtain ⟨emittedRest, isRest, restTokens⟩ := restIh emits verified.2
    refine ⟨.next emittedFirst emittedRest, by simp [emit, isFirst, isRest], ?_⟩
    simp only [Emitted, Stmt.work, Stmt.tokens, List.filter_append] at firstTokens restTokens ⊢
    rw [firstTokens, restTokens]
  | letStmt var value body ih =>
    simp only [verifyStmt, Bool.and_eq_true] at verified
    obtain ⟨emitted, isEmitted, tokens⟩ := ih emits verified.2
    refine ⟨.letStmt var value emitted, by simp [emit, isEmitted], ?_⟩
    exact around_emitted (emits.belongsTo (by simp)) (emits.belongsTo (by simp)) tokens
  | forLoop vectorized var min extent body ih =>
    simp only [verifyStmt, Bool.and_eq_true] at verified
    obtain ⟨emitted, isEmitted, tokens⟩ := ih emits verified.2
    refine ⟨.forLoop vectorized var min extent emitted, by simp [emit, isEmitted], ?_⟩
    exact around_emitted (emits.belongsTo (by simp)) (emits.belongsTo (by simp)) tokens
  | whileLoop condition body ih =>
    simp only [verifyStmt, Bool.and_eq_true] at verified
    obtain ⟨emitted, isEmitted, tokens⟩ := ih emits verified.2
    refine ⟨.whileLoop condition emitted, by simp [emit, isEmitted], ?_⟩
    exact around_emitted (emits.belongsTo (by simp)) (emits.belongsTo (by simp)) tokens
  | ifThenElse condition thenCase elseCase thenIh elseIh =>
    simp only [verifyStmt, Bool.and_eq_true] at verified
    obtain ⟨emittedThen, isThen, thenTokens⟩ := thenIh emits verified.1.2
    obtain ⟨emittedElse, isElse, elseTokens⟩ := elseIh emits verified.2
    refine ⟨.ifThenElse condition emittedThen emittedElse, by simp [emit, isThen, isElse], ?_⟩
    have inThen :=
      @around_emitted tables side scope (.thenCase condition) (emits.belongsTo (by simp))
        (emits.belongsTo (by simp)) _ _ thenTokens
    have inElse :=
      @around_emitted tables side scope (.elseCase condition) (emits.belongsTo (by simp))
        (emits.belongsTo (by simp)) _ _ elseTokens
    simp only [Emitted, Stmt.work, Stmt.tokens, List.filter_append]
    rw [inThen, inElse]
  | attrStmt key value body ih =>
    by_cases isKey : key = "resource_scope"
    · subst isKey
      simp only [verifyStmt, ↓reduceIte] at verified
      cases isScope : scopeOf value with
      | none => simp [isScope] at verified
      | some inner =>
        simp only [isScope, Bool.and_eq_true] at verified
        obtain ⟨agrees, bodyVerified⟩ := verified
        by_cases own : inner = side
        · subst own
          obtain ⟨emitted, isEmitted, tokens⟩ := ih (EmitsIn.inside depth) bodyVerified
          refine ⟨.attrStmt "resource_scope" value emitted, by simp [emit, isScope, isEmitted], ?_⟩
          have inScope :
              innerScope "resource_scope" value scope = some inner := by
            simp [innerScope, isScope]
          simp only [Emitted, Stmt.work, Stmt.tokens, inScope]
          exact around_emitted (by simp [belongsTo_scope]) (by simp [belongsTo_scope]) tokens
        · cases emits with
          | outside =>
            exact ⟨noOp, by simp [emit, isScope, own], emitted_foreign isScope own bodyVerified⟩
          | inside depth => simp [Ne.symm own] at agrees
    · simp only [verifyStmt, isKey, ↓reduceIte, Bool.and_eq_true] at verified
      obtain ⟨emitted, isEmitted, tokens⟩ := ih emits verified.2
      refine ⟨.attrStmt key value emitted, by simp [emit, isKey, isEmitted], ?_⟩
      have inScope : innerScope key value scope = scope := by simp [innerScope, isKey]
      simp only [Emitted, Stmt.work, Stmt.tokens, inScope]
      exact around_emitted (emits.belongsTo (by simp)) (emits.belongsTo (by simp)) tokens
  | blockRealize name predicate regions body ih =>
    simp only [verifyStmt, Bool.and_eq_true] at verified
    obtain ⟨emitted, isEmitted, tokens⟩ := ih emits verified.2
    refine ⟨.blockRealize name predicate regions emitted, by simp [emit, isEmitted], ?_⟩
    exact around_emitted (emits.belongsTo (by simp)) (emits.belongsTo (by simp)) tokens
  | allocate var extents body ih =>
    simp only [verifyStmt, Bool.and_eq_true] at verified
    obtain ⟨emitted, isEmitted, tokens⟩ := ih emits verified.2
    refine ⟨.allocate var extents emitted, by simp [emit, isEmitted], ?_⟩
    exact around_emitted (emits.belongsTo (by simp)) (emits.belongsTo (by simp)) tokens

/-! ## Resolving keeps the body -/

/-- Whether a token is the start or the end of a resource scope. -/
def Token.isScopeMark (token : Token) : Bool :=
  match token.item with
  | .enter (.attrStmt key _) => key == "resource_scope"
  | .leave (.attrStmt key _) => key == "resource_scope"
  | _ => false

/-- The tokens of a body without the marks of its scopes. -/
def Stmt.reading (stmt : Stmt) : List Token :=
  (stmt.tokens none).filter fun token => !token.isScopeMark

/-- Whether a token runs a call whose owner depends on its context. -/
def Token.isContextDependent (tables : Tables) (token : Token) : Prop :=
  ∃ op args, token.item = .run (.evaluate (.call op args)) ∧
    isContextDependentResourceCall tables op args.toList = some true

/-- A token keeps its item, and its scope unless a scope was inferred for it. -/
def Inferred (tables : Tables) (before after : Token) : Prop :=
  after.item = before.item ∧
    (after.scope = before.scope ∨
      (before.scope = none ∧ before.isContextDependent tables ∧ after.scope.isSome))

/-- The resolver changed a statement only by inferring scopes. -/
def OnlyInferred (tables : Tables) (stmt resolved : Stmt) : Prop :=
  List.Forall₂ (Inferred tables) stmt.reading resolved.reading

theorem OnlyInferred.refl (tables : Tables) (stmt : Stmt) : OnlyInferred tables stmt stmt :=
  List.forall₂_same.mpr fun _ _ => ⟨rfl, Or.inl rfl⟩

theorem forall₂_around {header : Header}
    (plain : Token.isScopeMark ⟨.enter header, none⟩ = false) {before after : List Token}
    (inner : List.Forall₂ (Inferred tables)
      (before.filter fun token => !token.isScopeMark)
      (after.filter fun token => !token.isScopeMark)) :
    List.Forall₂ (Inferred tables)
      ((around header none before).filter fun token => !token.isScopeMark)
      ((around header none after).filter fun token => !token.isScopeMark) := by
  have plainLeave : Token.isScopeMark ⟨.leave header, none⟩ = false := by
    cases header <;> first | rfl | exact plain
  have same : ∀ token, Inferred tables token token := fun token => ⟨rfl, Or.inl rfl⟩
  simp only [around, List.cons_append, List.filter_cons, plain, Bool.not_false, ↓reduceIte,
    List.filter_append, plainLeave, List.filter_nil]
  exact List.Forall₂.cons (same _)
    (List.rel_append inner (List.Forall₂.cons (same _) List.Forall₂.nil))

theorem resolveEvaluate_onlyInferred {context : AscendResource}
    (isResolved : resolveEvaluate tables context sharedRead value = some resolved) :
    OnlyInferred tables (.evaluate value) resolved := by
  cases value with
  | call op args =>
    simp only [resolveEvaluate, Expr.asCall, Option.bind_eq_bind, Option.bind_eq_some_iff]
      at isResolved
    obtain ⟨dependent, classified, outcome⟩ := isResolved
    split at outcome
    case isTrue =>
        obtain rfl := Option.some.inj outcome
        exact OnlyInferred.refl tables _
    case isFalse resolvable =>
        split at outcome
        case isTrue =>
            obtain rfl := Option.some.inj outcome
            exact OnlyInferred.refl tables _
        case isFalse =>
            obtain rfl := Option.some.inj outcome
            have isDependent : dependent = true := by
              cases dependent with
              | true => rfl
              | false => simp at resolvable
            rw [isDependent] at classified
            have hasSide :
                (scopeOf (.intImm (if context = .vector then 1 else 0))).isSome := by
              split <;> rfl
            obtain ⟨side, isSide⟩ := Option.isSome_iff_exists.mp hasSide
            have after :
                Stmt.reading (.attrStmt "resource_scope"
                  (.intImm (if context = .vector then 1 else 0))
                  (.evaluate (.call op args))) =
                    [⟨.run (.evaluate (.call op args)), some side⟩] := by
              simp [Stmt.reading, Stmt.tokens, around, innerScope, isSide, Token.isScopeMark]
            unfold OnlyInferred
            rw [after]
            refine List.Forall₂.cons ⟨rfl, Or.inr ⟨rfl, ?_, rfl⟩⟩ List.Forall₂.nil
            exact ⟨op, args, rfl, classified⟩
  | intImm value => obtain rfl := Option.some.inj isResolved; exact OnlyInferred.refl tables _
  | stringImm value => obtain rfl := Option.some.inj isResolved; exact OnlyInferred.refl tables _
  | var name storageScope =>
    obtain rfl := Option.some.inj isResolved
    exact OnlyInferred.refl tables _
  | bufferLoad buffer indices =>
    obtain rfl := Option.some.inj isResolved
    exact OnlyInferred.refl tables _
  | compute operator operands =>
    obtain rfl := Option.some.inj isResolved
    exact OnlyInferred.refl tables _
  | noArgs => obtain rfl := Option.some.inj isResolved; exact OnlyInferred.refl tables _
  | arg first rest => obtain rfl := Option.some.inj isResolved; exact OnlyInferred.refl tables _

theorem resolve_onlyInferred {contexts : List AscendResource}
    (isResolved : resolve tables contexts sharedRead stmt = some resolved) :
    OnlyInferred tables stmt resolved := by
  induction stmt generalizing contexts sharedRead resolved with
  | evaluate value => exact resolveEvaluate_onlyInferred isResolved
  | bufferStore buffer value indices =>
    obtain rfl := Option.some.inj isResolved
    exact OnlyInferred.refl tables _
  | customizedCode code =>
    obtain rfl := Option.some.inj isResolved
    exact OnlyInferred.refl tables _
  | seqStmt children ih =>
    simp only [resolve, Option.bind_eq_bind, Option.pure_def, Option.bind_eq_some_iff,
      Option.some.injEq] at isResolved
    obtain ⟨summaries, -, inner, innerResolved, rfl⟩ := isResolved
    have inside : OnlyInferred tables children inner := ih innerResolved
    exact inside
  | done =>
    obtain rfl := Option.some.inj isResolved
    exact OnlyInferred.refl tables _
  | next first rest firstIh restIh =>
    simp only [resolve, Option.bind_eq_bind, Option.pure_def, Option.bind_eq_some_iff,
      Option.some.injEq] at isResolved
    obtain ⟨firstResolved, isFirst, restResolved, isRest, rfl⟩ := isResolved
    unfold OnlyInferred Stmt.reading
    simp only [Stmt.tokens, List.filter_append]
    exact List.rel_append (firstIh isFirst) (restIh isRest)
  | letStmt var value body ih =>
    simp only [resolve, Option.bind_eq_bind, Option.pure_def, Option.bind_eq_some_iff,
      Option.some.injEq] at isResolved
    obtain ⟨read, -, inner, innerResolved, rfl⟩ := isResolved
    exact forall₂_around rfl (ih innerResolved)
  | forLoop vectorized var min extent body ih =>
    simp only [resolve, Option.bind_eq_bind, Option.pure_def, Option.bind_eq_some_iff,
      Option.some.injEq] at isResolved
    obtain ⟨read, -, inner, innerResolved, rfl⟩ := isResolved
    exact forall₂_around rfl (ih innerResolved)
  | whileLoop condition body ih =>
    simp only [resolve, Option.bind_eq_bind, Option.pure_def, Option.bind_eq_some_iff,
      Option.some.injEq] at isResolved
    obtain ⟨read, -, inner, innerResolved, rfl⟩ := isResolved
    exact forall₂_around rfl (ih innerResolved)
  | ifThenElse condition thenCase elseCase thenIh elseIh =>
    simp only [resolve, Option.bind_eq_bind, Option.pure_def, Option.bind_eq_some_iff,
      Option.some.injEq] at isResolved
    obtain ⟨read, -, thenResolved, isThen, elseResolved, isElse, rfl⟩ := isResolved
    unfold OnlyInferred Stmt.reading
    simp only [Stmt.tokens, List.filter_append]
    exact List.rel_append (forall₂_around rfl (thenIh isThen))
      (forall₂_around rfl (elseIh isElse))
  | attrStmt key value body ih =>
    by_cases isKey : key = "resource_scope"
    · simp only [resolve, isKey, ↓reduceIte, Option.some.injEq] at isResolved
      subst isResolved isKey
      exact OnlyInferred.refl tables _
    · simp only [resolve, isKey, ↓reduceIte, Option.bind_eq_bind, Option.pure_def,
        Option.bind_eq_some_iff, Option.some.injEq] at isResolved
      obtain ⟨read, -, inner, innerResolved, rfl⟩ := isResolved
      have plain : Token.isScopeMark ⟨.enter (.attrStmt key value), none⟩ = false := by
        simp [Token.isScopeMark, isKey]
      have inScope : innerScope key value none = none := by simp [innerScope, isKey]
      unfold OnlyInferred Stmt.reading
      simp only [Stmt.tokens, inScope]
      exact forall₂_around plain (ih innerResolved)
  | blockRealize name predicate regions body ih =>
    simp only [resolve, Option.bind_eq_bind, Option.pure_def, Option.bind_eq_some_iff,
      Option.some.injEq] at isResolved
    obtain ⟨read, -, inner, innerResolved, rfl⟩ := isResolved
    exact forall₂_around rfl (ih innerResolved)
  | allocate var extents body ih =>
    simp only [resolve, Option.bind_eq_bind, Option.pure_def, Option.bind_eq_some_iff,
      Option.some.injEq] at isResolved
    obtain ⟨inner, innerResolved, rfl⟩ := isResolved
    exact forall₂_around rfl (ih innerResolved)

/-! ## The partition -/

/--
The combined body of a body that the resolver and the verifier accept.  The emission succeeds; the
work of each side is the work of the resolved body that belongs to this side, in the same order
and under the same control statements; and the resolver only inferred scopes.
-/
theorem combineCV_partitions
    {tables : Tables}
    {context : AscendResource}
    {sharedRead : Bool}
    {body resolved : Stmt}
    (isResolved : resolveBody tables context sharedRead body = some resolved)
    (verified : verifyStmt tables none resolved = true) :
    ∃ cubeCode vecCode,
      combineCV tables context sharedRead body =
        some (.seqStmt (.next (.attrStmt "resource_scope" (.intImm 0) cubeCode)
          (.next (.attrStmt "resource_scope" (.intImm 1) vecCode) .done))) ∧
      cubeCode.work none = (resolved.work none).filter (Token.belongsTo tables .cube) ∧
      vecCode.work none = (resolved.work none).filter (Token.belongsTo tables .vector) ∧
      OnlyInferred tables body resolved := by
  obtain ⟨cubeCode, isCube, cubeTokens⟩ :=
    @emit_emitted tables .cube 0 none resolved EmitsIn.outside verified
  obtain ⟨vecCode, isVec, vecTokens⟩ :=
    @emit_emitted tables .vector 0 none resolved EmitsIn.outside verified
  refine ⟨cubeCode, vecCode, ?_, cubeTokens, vecTokens, resolve_onlyInferred isResolved⟩
  simp [combineCV, isResolved, verified, isCube, isVec]

/-- The entry of one vector operation. -/
def fillTables : Tables where
  operationConfig op := if op = "tl.ascend_fill" then some ⟨"PIPE_V", [], -1⟩ else none
  selectedTerminal _ := false

/-- An access pointer to a buffer. -/
def accessPtr (buffer : Buffer) : Expr :=
  .call (some "tir.tvm_access_ptr")
    (.arg (.stringImm "float32") (.arg (.var buffer.name buffer.scope) .noArgs))

/-- A vector operation that fills a buffer in unified memory. -/
def fillUb : Stmt :=
  .evaluate (.call (some "tl.ascend_fill")
    (.arg (accessPtr ⟨"a_ub", "shared.ub"⟩) (.arg (.intImm 1) .noArgs)))

/-- A barrier that both sides have. -/
def sharedBarrier : Stmt :=
  .evaluate (.call (some "tl.ascend_pipe_barrier") (.arg (.stringImm "MTE3") .noArgs))

/-- A store to the first-level buffer of the cube side. -/
def storeL1 : Stmt :=
  .bufferStore ⟨"a_l1", "shared.l1"⟩ (.intImm 2) (.arg (.intImm 0) .noArgs)

/-- A loop with work of both sides and a barrier between two vector operations. -/
def mixedLoop : Stmt :=
  .forLoop false "i" (.intImm 0) (.intImm 4)
    (.seqStmt (.next storeL1 (.next fillUb (.next sharedBarrier (.next fillUb .done)))))

/-- The barrier of the mixed loop goes with the vector operations, the loop to both sides. -/
theorem combineCV_partitions_mixedLoop :
    ∃ resolved cubeCode vecCode : Stmt,
      combineCV fillTables .none false mixedLoop =
        some (.seqStmt (.next (.attrStmt "resource_scope" (.intImm 0) cubeCode)
          (.next (.attrStmt "resource_scope" (.intImm 1) vecCode) .done))) ∧
      cubeCode.work none = (resolved.work none).filter (Token.belongsTo fillTables .cube) ∧
      vecCode.work none = (resolved.work none).filter (Token.belongsTo fillTables .vector) ∧
      (resolved.work none).length = 8 := by
  have resolvable : (resolveBody fillTables .none false mixedLoop).isSome := by decide +kernel
  obtain ⟨resolved, isResolved⟩ := Option.isSome_iff_exists.mp resolvable
  have facts :
      (resolveBody fillTables .none false mixedLoop).map (fun resolved =>
        (verifyStmt fillTables none resolved, (resolved.work none).length)) =
          some (true, 8) := by decide +kernel
  rw [isResolved, Option.map_some, Option.some.injEq, Prod.mk.injEq] at facts
  obtain ⟨cubeCode, vecCode, combined, cubeWork, vecWork, -⟩ :=
    combineCV_partitions isResolved facts.1
  exact ⟨resolved, cubeCode, vecCode, combined, cubeWork, vecWork, facts.2⟩

end TilelangAscend.CombineCV
