import Mathlib.Data.List.Forall2
import TilelangAscend.SyncInsertion

namespace TilelangAscend.SyncInsert

/-!
# Rebuilding loops

`LoopRebuilder` turns the two visited copies of a loop body back into one.  The copies execute
the same operations; the synchronization before each operation is merged so that both copies'
sequences survive in order.
-/

/-- Whether two units synchronize the same pipelines; event ids may differ. -/
def sameSync : SyncUnit → SyncUnit → Bool
  | .barrierAll, .barrierAll => true
  | .barrier first, .barrier second => first = second
  | .eventPair firstSource firstTarget _, .eventPair secondSource secondTarget _ =>
    firstSource = secondSource ∧ firstTarget = secondTarget
  | _, _ => false

/-- One row of the table of common lengths, from the row below it. -/
def commonRow
    (unit : SyncUnit)
    (below : List SyncUnit → Nat) :
    List SyncUnit → Nat
  | [] => 0
  | other :: right =>
    if sameSync unit other then
      1 + below right
    else
      max (below (other :: right)) (commonRow unit below right)

/-- The table of common lengths of `MergeSyncSequences`. -/
def common : List SyncUnit → List SyncUnit → Nat
  | [], _ => 0
  | unit :: left, right => commonRow unit (common left) right

/-- The part of the merge loop that stays at one unit of the left sequence. -/
def mergeRow
    (unit : SyncUnit)
    (left : List SyncUnit)
    (continueAfter : List SyncUnit → List SyncUnit) :
    List SyncUnit → List SyncUnit
  | [] => unit :: continueAfter []
  | other :: right =>
    if sameSync unit other then
      unit :: continueAfter right
    else if common (unit :: left) right ≤ common left (other :: right) then
      unit :: continueAfter (other :: right)
    else
      other :: mergeRow unit left continueAfter right

/-- `MergeSyncSequences`: a common supersequence of two synchronization sequences. -/
def mergeSyncSequences : List SyncUnit → List SyncUnit → List SyncUnit
  | [], right => right
  | unit :: left, right => mergeRow unit left (mergeSyncSequences left) right

/-- `FlattenStmts` puts a full barrier in front of a store that has none there. -/
def flattenSyncs (op : Operation) (syncs : List SyncUnit) : List SyncUnit :=
  match op with
  | .store _ _ _ =>
    if syncs.getLast? = some .barrierAll then syncs else syncs ++ [.barrierAll]
  | .call _ _ => syncs

/--
`MergeStatementSequences`: merge two copies of one sequence.  It fails if the copies differ in
more than their synchronization.
-/
def mergeStatementSequences : Block → Block → Option Block
  | .stop first, .stop second => some (.stop (mergeSyncSequences first second))
  | .operation firstSyncs firstOp firstRest, .operation secondSyncs secondOp secondRest =>
    if firstOp = secondOp then do
      let rest ← mergeStatementSequences firstRest secondRest
      some (.operation
        (mergeSyncSequences (flattenSyncs firstOp firstSyncs) (flattenSyncs secondOp secondSyncs))
        firstOp rest)
    else
      none
  | .letStmt firstSyncs firstValue firstBody firstRest,
      .letStmt secondSyncs secondValue secondBody secondRest =>
      if firstValue = secondValue then do
        let body ← mergeStatementSequences firstBody secondBody
        let rest ← mergeStatementSequences firstRest secondRest
        some (.letStmt (mergeSyncSequences firstSyncs secondSyncs) firstValue body rest)
      else
        none
  | .ifThenElse firstSyncs firstCondition firstThen firstElse firstRest,
      .ifThenElse secondSyncs secondCondition secondThen secondElse secondRest =>
      if firstCondition = secondCondition then do
        let thenCase ← mergeStatementSequences firstThen secondThen
        let elseCase ← mergeStatementSequences firstElse secondElse
        let rest ← mergeStatementSequences firstRest secondRest
        some (.ifThenElse (mergeSyncSequences firstSyncs secondSyncs) firstCondition thenCase
          elseCase rest)
      else
        none
  | .forLoop firstSyncs firstExtent firstBody firstRest,
      .forLoop secondSyncs secondExtent secondBody secondRest =>
      if firstExtent = secondExtent then do
        let body ← mergeStatementSequences firstBody secondBody
        let rest ← mergeStatementSequences firstRest secondRest
        some (.forLoop (mergeSyncSequences firstSyncs secondSyncs) firstExtent body rest)
      else
        none
  | _, _ => none

/-- `LoopRebuilder`: every pair of marked iterations becomes a loop again. -/
def rebuildForLoops : Block → Option Block
  | .stop syncs => some (.stop syncs)
  | .operation syncs op rest => do
      let rest ← rebuildForLoops rest
      some (.operation syncs op rest)
  | .letStmt syncs value body rest => do
      let body ← rebuildForLoops body
      let rest ← rebuildForLoops rest
      some (.letStmt syncs value body rest)
  | .ifThenElse syncs condition thenCase elseCase rest => do
      let thenCase ← rebuildForLoops thenCase
      let elseCase ← rebuildForLoops elseCase
      let rest ← rebuildForLoops rest
      some (.ifThenElse syncs condition thenCase elseCase rest)
  | .forLoop syncs extent body rest => do
      let body ← rebuildForLoops body
      let rest ← rebuildForLoops rest
      some (.forLoop syncs extent body rest)
  | .unrolledLoop syncs extent first second rest => do
      let first ← rebuildForLoops first
      let second ← rebuildForLoops second
      let body ← mergeStatementSequences first second
      let rest ← rebuildForLoops rest
      some (.forLoop syncs extent body rest)

/-- `Substitute`: the body of a function with its synchronization. -/
def substitute (context : PassContext) (body : Block) : Option Block :=
  rebuildForLoops
    (visitStmt context { history := .empty, eventIdCounter := 0 } (unrollForLoops body)).1

/-! ## Sequences with more synchronization -/

@[simp] theorem sameSync_refl (unit : SyncUnit) : sameSync unit unit = true := by
  cases unit <;> simp [sameSync]

variable {first second unit : SyncUnit} {left : List SyncUnit}
  {continueAfter : List SyncUnit → List SyncUnit} {analyzer : ExtentAnalyzer} {source : Block}

theorem sameSync_symm (same : sameSync first second = true) : sameSync second first = true := by
  cases first <;> cases second <;> simp_all [sameSync]

theorem sameSync_trans {third : SyncUnit} (same : sameSync first second = true)
    (sameNext : sameSync second third = true) : sameSync first third = true := by
  cases first <;> cases second <;> cases third <;> simp_all [sameSync]

/-- Two units synchronize the same pipelines. -/
def SameSync (first second : SyncUnit) : Prop :=
  sameSync first second = true

instance : Std.Refl SameSync :=
  ⟨sameSync_refl⟩

instance : IsTrans SyncUnit SameSync :=
  ⟨fun _ _ _ => sameSync_trans⟩

/-- A sequence of units survives in another one, in order. -/
def Survives (units larger : List SyncUnit) : Prop :=
  List.SublistForall₂ SameSync units larger

namespace Survives

theorem of_sublist {units larger : List SyncUnit} (sublist : List.Sublist units larger) :
    Survives units larger :=
  sublist.sublistForall₂

theorem refl (units : List SyncUnit) : Survives units units :=
  of_sublist (List.Sublist.refl units)

theorem trans {first second third : List SyncUnit} (survives : Survives first second)
    (survivesNext : Survives second third) : Survives first third :=
  IsTrans.trans (r := List.SublistForall₂ SameSync) _ _ _ survives survivesNext

end Survives

theorem survives_mergeRow_left (survives : ∀ right, Survives left (continueAfter right))
    (right : List SyncUnit) :
    Survives (unit :: left) (mergeRow unit left continueAfter right) := by
  induction right with
  | nil => exact .cons (sameSync_refl unit) (survives [])
  | cons other right ih =>
    unfold mergeRow
    split
    · exact .cons (sameSync_refl unit) (survives right)
    · split
      · exact .cons (sameSync_refl unit) (survives (other :: right))
      · exact .cons_right ih

theorem survives_mergeRow_right (survives : ∀ right, Survives right (continueAfter right))
    (right : List SyncUnit) : Survives right (mergeRow unit left continueAfter right) := by
  induction right with
  | nil => exact .nil
  | cons other right ih =>
    unfold mergeRow
    split
    · rename_i same
      exact .cons (sameSync_symm same) (survives right)
    · split
      · exact .cons_right (survives (other :: right))
      · exact .cons (sameSync_refl other) ih

theorem survives_mergeSyncSequences (left right : List SyncUnit) :
    Survives left (mergeSyncSequences left right) ∧
      Survives right (mergeSyncSequences left right) := by
  induction left generalizing right with
  | nil => exact ⟨.nil, Survives.refl right⟩
  | cons unit left ih =>
    exact ⟨survives_mergeRow_left (fun right => (ih right).1) right,
      survives_mergeRow_right (fun right => (ih right).2) right⟩

theorem survives_flattenSyncs (op : Operation) (syncs : List SyncUnit) :
    Survives syncs (flattenSyncs op syncs) := by
  unfold flattenSyncs
  split
  · split
    · exact Survives.refl syncs
    · exact Survives.of_sublist (List.sublist_append_left syncs _)
  · exact Survives.refl syncs

/-- A sequence with the same statements and at least the synchronization of another one. -/
inductive Extends : Block → Block → Prop where
  | stop {larger syncs : List SyncUnit} :
      Survives syncs larger → Extends (.stop larger) (.stop syncs)
  | operation {larger syncs : List SyncUnit} {op : Operation} {largerRest rest : Block} :
      Survives syncs larger →
      Extends largerRest rest →
      Extends (.operation larger op largerRest) (.operation syncs op rest)
  | letStmt {larger syncs : List SyncUnit} {value : Expr}
      {largerBody body largerRest rest : Block} :
      Survives syncs larger →
      Extends largerBody body →
      Extends largerRest rest →
      Extends (.letStmt larger value largerBody largerRest) (.letStmt syncs value body rest)
  | ifThenElse {larger syncs : List SyncUnit} {condition : Expr}
      {largerThen thenCase largerElse elseCase largerRest rest : Block} :
      Survives syncs larger →
      Extends largerThen thenCase →
      Extends largerElse elseCase →
      Extends largerRest rest →
      Extends (.ifThenElse larger condition largerThen largerElse largerRest)
        (.ifThenElse syncs condition thenCase elseCase rest)
  | forLoop {larger syncs : List SyncUnit} {extent : Expr}
      {largerBody body largerRest rest : Block} :
      Survives syncs larger →
      Extends largerBody body →
      Extends largerRest rest →
      Extends (.forLoop larger extent largerBody largerRest) (.forLoop syncs extent body rest)

/-- Extending a block is transitive. -/
theorem Extends.trans {first second third : Block} (extended : Extends first second)
    (extendedNext : Extends second third) : Extends first third := by
  induction extended generalizing third with
  | stop survives =>
    cases extendedNext with
    | stop survivesNext => exact .stop (survivesNext.trans survives)
  | operation survives _ restExtends =>
    cases extendedNext with
    | operation survivesNext restNext =>
      exact .operation (survivesNext.trans survives) (restExtends restNext)
  | letStmt survives _ _ bodyExtends restExtends =>
    cases extendedNext with
    | letStmt survivesNext bodyNext restNext =>
      exact .letStmt (survivesNext.trans survives) (bodyExtends bodyNext) (restExtends restNext)
  | ifThenElse survives _ _ _ thenExtends elseExtends restExtends =>
    cases extendedNext with
    | ifThenElse survivesNext thenNext elseNext restNext =>
      exact .ifThenElse (survivesNext.trans survives) (thenExtends thenNext)
        (elseExtends elseNext) (restExtends restNext)
  | forLoop survives _ _ bodyExtends restExtends =>
    cases extendedNext with
    | forLoop survivesNext bodyNext restNext =>
      exact .forLoop (survivesNext.trans survives) (bodyExtends bodyNext) (restExtends restNext)

/-! ## Copies of one sequence -/

/--
A sequence with the statements of a source sequence and any synchronization between them; a
loop that the analyzer proves empty is left out.
-/
inductive Carries (analyzer : ExtentAnalyzer) : Block → Block → Prop where
  | stop {sourceSyncs syncs : List SyncUnit} :
      Carries analyzer (.stop sourceSyncs) (.stop syncs)
  | operation {sourceSyncs syncs : List SyncUnit} {op : Operation} {source rest : Block} :
      Carries analyzer source rest →
      Carries analyzer (.operation sourceSyncs op source) (.operation syncs op rest)
  | letStmt {sourceSyncs syncs : List SyncUnit} {value : Expr}
      {sourceBody body source rest : Block} :
      Carries analyzer sourceBody body →
      Carries analyzer source rest →
      Carries analyzer (.letStmt sourceSyncs value sourceBody source)
        (.letStmt syncs value body rest)
  | ifThenElse {sourceSyncs syncs : List SyncUnit} {condition : Expr}
      {sourceThen thenCase sourceElse elseCase source rest : Block} :
      Carries analyzer sourceThen thenCase →
      Carries analyzer sourceElse elseCase →
      Carries analyzer source rest →
      Carries analyzer (.ifThenElse sourceSyncs condition sourceThen sourceElse source)
        (.ifThenElse syncs condition thenCase elseCase rest)
  | forLoop {sourceSyncs syncs : List SyncUnit} {extent : Expr}
      {sourceBody body source rest : Block} :
      analyzer.provesEmpty extent = false →
      Carries analyzer sourceBody body →
      Carries analyzer source rest →
      Carries analyzer (.forLoop sourceSyncs extent sourceBody source)
        (.forLoop syncs extent body rest)
  | emptyLoop {sourceSyncs : List SyncUnit} {extent : Expr} {sourceBody source rest : Block} :
      analyzer.provesEmpty extent = true →
      Carries analyzer source rest →
      Carries analyzer (.forLoop sourceSyncs extent sourceBody source) rest

theorem Carries.prepend {block : Block} (carries : Carries analyzer source block)
    (emitted : List SyncUnit) : Carries analyzer source (block.prepend emitted) := by
  induction carries with
  | stop => exact .stop
  | operation rest => exact .operation rest
  | letStmt body rest => exact .letStmt body rest
  | ifThenElse thenCase elseCase rest => exact .ifThenElse thenCase elseCase rest
  | forLoop nonempty body rest => exact .forLoop nonempty body rest
  | emptyLoop isEmpty _ restCarries => exact .emptyLoop isEmpty restCarries

/-- The merged block extends both copies of the loop body. -/
theorem mergeStatementSequences_extends {first second : Block}
    (firstCarries : Carries analyzer source first)
    (secondCarries : Carries analyzer source second) :
    ∃ merged,
      mergeStatementSequences first second = some merged ∧ Extends merged first ∧
        Extends merged second ∧
        Carries analyzer source merged := by
  induction firstCarries generalizing second with
  | @stop _ firstSyncs =>
    cases secondCarries with
    | @stop _ secondSyncs =>
      obtain ⟨left, right⟩ := survives_mergeSyncSequences firstSyncs secondSyncs
      exact ⟨_, rfl, .stop left, .stop right, .stop⟩
  | @operation _ firstSyncs op _ _ _ restMerges =>
    cases secondCarries with
    | @operation _ secondSyncs _ _ _ restCarries =>
      obtain ⟨rest, merged, left, right, carries⟩ := restMerges restCarries
      obtain ⟨leftSurvives, rightSurvives⟩ :=
        survives_mergeSyncSequences (flattenSyncs op firstSyncs) (flattenSyncs op secondSyncs)
      refine ⟨_, by simp only [mergeStatementSequences, merged]; rfl, ?_, ?_, .operation carries⟩
      · exact .operation ((survives_flattenSyncs op firstSyncs).trans leftSurvives) left
      · exact .operation ((survives_flattenSyncs op secondSyncs).trans rightSurvives) right
  | @letStmt _ firstSyncs value _ _ _ _ _ _ bodyMerges restMerges =>
    cases secondCarries with
    | @letStmt _ secondSyncs _ _ _ _ _ bodyCarries restCarries =>
      obtain ⟨body, bodyMerged, bodyLeft, bodyRight, bodyShape⟩ := bodyMerges bodyCarries
      obtain ⟨rest, restMerged, restLeft, restRight, restShape⟩ := restMerges restCarries
      obtain ⟨left, right⟩ := survives_mergeSyncSequences firstSyncs secondSyncs
      refine ⟨_, by simp only [mergeStatementSequences, bodyMerged, restMerged]; rfl,
        .letStmt left bodyLeft restLeft, .letStmt right bodyRight restRight,
        .letStmt bodyShape restShape⟩
  | @ifThenElse _ firstSyncs condition _ _ _ _ _ _ _ _ _ thenMerges elseMerges restMerges =>
    cases secondCarries with
    | @ifThenElse _ secondSyncs _ _ _ _ _ _ _ thenCarries elseCarries restCarries =>
      obtain ⟨thenCase, thenMerged, thenLeft, thenRight, thenShape⟩ := thenMerges thenCarries
      obtain ⟨elseCase, elseMerged, elseLeft, elseRight, elseShape⟩ := elseMerges elseCarries
      obtain ⟨rest, restMerged, restLeft, restRight, restShape⟩ := restMerges restCarries
      obtain ⟨left, right⟩ := survives_mergeSyncSequences firstSyncs secondSyncs
      refine ⟨_,
        by simp only [mergeStatementSequences, thenMerged, elseMerged, restMerged]; rfl,
        .ifThenElse left thenLeft elseLeft restLeft,
        .ifThenElse right thenRight elseRight restRight,
        .ifThenElse thenShape elseShape restShape⟩
  | @forLoop _ firstSyncs extent _ _ _ _ nonempty _ _ bodyMerges restMerges =>
    cases secondCarries with
    | @forLoop _ secondSyncs _ _ _ _ _ _ bodyCarries restCarries =>
      obtain ⟨body, bodyMerged, bodyLeft, bodyRight, bodyShape⟩ := bodyMerges bodyCarries
      obtain ⟨rest, restMerged, restLeft, restRight, restShape⟩ := restMerges restCarries
      obtain ⟨left, right⟩ := survives_mergeSyncSequences firstSyncs secondSyncs
      refine ⟨_, by simp only [mergeStatementSequences, bodyMerged, restMerged]; rfl,
        .forLoop left bodyLeft restLeft, .forLoop right bodyRight restRight,
        .forLoop nonempty bodyShape restShape⟩
    | emptyLoop isEmpty =>
      rw [nonempty] at isEmpty
      cases isEmpty
  | @emptyLoop _ _ _ _ _ isEmpty _ restMerges =>
    cases secondCarries with
    | forLoop nonempty =>
      rw [isEmpty] at nonempty
      cases nonempty
    | emptyLoop _ restCarries =>
      obtain ⟨rest, restMerged, restLeft, restRight, restShape⟩ := restMerges restCarries
      exact ⟨rest, restMerged, restLeft, restRight, .emptyLoop isEmpty restShape⟩

/-- Syncs in front of a block stay in front when loops are rebuilt. -/
theorem rebuildForLoops_prepend (emitted : List SyncUnit) (block : Block) :
    rebuildForLoops (block.prepend emitted) =
      (rebuildForLoops block).map (Block.prepend emitted) := by
  cases block with
  | stop => rfl
  | operation syncs op rest =>
    simp only [Block.prepend, rebuildForLoops]
    cases rebuildForLoops rest <;> rfl
  | letStmt syncs value body rest =>
    simp only [Block.prepend, rebuildForLoops]
    cases rebuildForLoops body <;> cases rebuildForLoops rest <;> rfl
  | ifThenElse syncs condition thenCase elseCase rest =>
    simp only [Block.prepend, rebuildForLoops]
    cases rebuildForLoops thenCase <;> cases rebuildForLoops elseCase <;>
      cases rebuildForLoops rest <;> rfl
  | forLoop syncs extent body rest =>
    simp only [Block.prepend, rebuildForLoops]
    cases rebuildForLoops body <;> cases rebuildForLoops rest <;> rfl
  | unrolledLoop syncs extent first second rest =>
    simp only [Block.prepend, rebuildForLoops]
    cases rebuildForLoops first with
    | none => rfl
    | some firstRebuilt =>
      cases rebuildForLoops second with
      | none => rfl
      | some secondRebuilt =>
        cases merged : mergeStatementSequences firstRebuilt secondRebuilt with
        | none => simp [merged]
        | some body =>
          cases rebuildForLoops rest <;> simp [merged, Block.prepend]

end TilelangAscend.SyncInsert
