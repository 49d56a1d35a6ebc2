import TilelangAscend.ScalarVectorHistory

namespace TilelangAscend.SyncInsertVS

open SyncInsert

/-!
# Visits that emit nothing

The histories that a visit of `AscendSyncInsertVS` follows when it emits nothing, and checks at
all statements of such a visit.  Sequences with the same statements and related synchronization
have related histories.
-/

/-! ## Histories and checks -/

/-- Histories after a statement for which nothing is emitted. -/
def recordStatement (context : PassContext) (isRevisitPass : Bool) (state : PassState)
    (supported : List Access) : PassState :=
  updateLatestAccessHistory isRevisitPass state (supported.map (freshAccess context))

/-- Histories after a sequence for which nothing is emitted. -/
def trace
    (context : PassContext) :
    Bool → PassState → Block → PassState
  | _, state, .stop syncs => state.noteUnits syncs
  | isRevisitPass, state, .operation syncs op rest =>
    trace context isRevisitPass
      (recordStatement context isRevisitPass (state.noteUnits syncs) (supportedAccesses context op))
      rest
  | isRevisitPass, state, .letStmt syncs value body rest =>
    trace context isRevisitPass
      (trace context isRevisitPass
        (recordStatement context isRevisitPass (state.noteUnits syncs)
          (scanBufferLoads context value))
        body)
      rest
  | isRevisitPass, state, .ifThenElse syncs _ thenCase _ rest =>
    trace context isRevisitPass
      ((state.noteUnits syncs).overwrittenBy
        (trace context isRevisitPass (state.noteUnits syncs) thenCase))
      rest
  | isRevisitPass, state, .forLoop syncs _ body rest =>
    trace context isRevisitPass (trace context isRevisitPass (state.noteUnits syncs) body) rest
  | isRevisitPass, state, .unrolledLoop syncs _ first second rest =>
    trace context isRevisitPass
      (trace context isRevisitPass
        (trace context isRevisitPass (state.noteUnits syncs) first) second)
      rest

/-- A check holds at every statement that a visit without emission reaches. -/
def throughout
    (context : PassContext)
    (check : Bool → PassState → List Access → Bool) :
    Bool → PassState → Block → Bool
  | _, _, .stop _ => true
  | isRevisitPass, state, .operation syncs op rest =>
    let supported := supportedAccesses context op
    check isRevisitPass (state.noteUnits syncs) supported &&
      throughout context check isRevisitPass
        (recordStatement context isRevisitPass (state.noteUnits syncs) supported) rest
  | isRevisitPass, state, .letStmt syncs value body rest =>
    let reads := scanBufferLoads context value
    let inside := recordStatement context isRevisitPass (state.noteUnits syncs) reads
    check isRevisitPass (state.noteUnits syncs) reads &&
      throughout context check isRevisitPass inside body &&
      throughout context check isRevisitPass (trace context isRevisitPass inside body) rest
  | isRevisitPass, state, .ifThenElse syncs _ thenCase elseCase rest =>
    let saved := state.noteUnits syncs
    throughout context check isRevisitPass saved thenCase &&
      throughout context check isRevisitPass saved elseCase &&
      throughout context check isRevisitPass
        (saved.overwrittenBy (trace context isRevisitPass saved thenCase)) rest
  | isRevisitPass, state, .forLoop syncs _ body rest =>
    let saved := state.noteUnits syncs
    let finish := trace context isRevisitPass saved body
    throughout context check isRevisitPass saved body &&
      -- a revisit visits the body of an inner loop once
      (isRevisitPass || throughout context check true (saved.backEdge finish) body) &&
      throughout context check isRevisitPass finish rest
  | isRevisitPass, state, .unrolledLoop syncs _ first second rest =>
    let saved := state.noteUnits syncs
    let middle := trace context isRevisitPass saved first
    throughout context check isRevisitPass saved first &&
      throughout context check isRevisitPass middle second &&
      throughout context check isRevisitPass (trace context isRevisitPass middle second) rest

/-! ## Related visits -/

/-- Sequences with the same statements, and related synchronization before each of them. -/
inductive SameStatements
    (units : List SyncUnit → List SyncUnit → Prop) :
    Block → Block → Prop where
  | stop {syncs others : List SyncUnit} :
      units syncs others → SameStatements units (.stop syncs) (.stop others)
  | operation {syncs others : List SyncUnit} {op : Operation} {rest otherRest : Block} :
      units syncs others →
      SameStatements units rest otherRest →
      SameStatements units (.operation syncs op rest) (.operation others op otherRest)
  | letStmt {syncs others : List SyncUnit} {value : Expr}
      {body otherBody rest otherRest : Block} :
      units syncs others →
      SameStatements units body otherBody →
      SameStatements units rest otherRest →
      SameStatements units (.letStmt syncs value body rest)
        (.letStmt others value otherBody otherRest)
  | ifThenElse {syncs others : List SyncUnit} {condition : Expr}
      {thenCase otherThen elseCase otherElse rest otherRest : Block} :
      units syncs others →
      SameStatements units thenCase otherThen →
      SameStatements units elseCase otherElse →
      SameStatements units rest otherRest →
      SameStatements units (.ifThenElse syncs condition thenCase elseCase rest)
        (.ifThenElse others condition otherThen otherElse otherRest)
  | forLoop {syncs others : List SyncUnit} {extent : Expr}
      {body otherBody rest otherRest : Block} :
      units syncs others →
      SameStatements units body otherBody →
      SameStatements units rest otherRest →
      SameStatements units (.forLoop syncs extent body rest)
        (.forLoop others extent otherBody otherRest)
  | unrolledLoop {syncs others : List SyncUnit} {extent : Expr}
      {first otherFirst second otherSecond rest otherRest : Block} :
      units syncs others →
      SameStatements units first otherFirst →
      SameStatements units second otherSecond →
      SameStatements units rest otherRest →
      SameStatements units (.unrolledLoop syncs extent first second rest)
        (.unrolledLoop others extent otherFirst otherSecond otherRest)

/-- Histories with related entries for every buffer. -/
structure Matches
    (related : BufferAccess → BufferAccess → Prop)
    (first second : PassState) :
    Prop where
  accesses : ∀ name, Option.Rel related (first.accessHistory name) (second.accessHistory name)
  writes : ∀ name, Option.Rel related (first.writeHistory name) (second.writeHistory name)

/-- A relation on entries that visits of sequences with related synchronization keep. -/
structure Transports
    (related : BufferAccess → BufferAccess → Prop)
    (units : List SyncUnit → List SyncUnit → Prop) :
    Prop where
  refl : ∀ entry, related entry entry
  sameAccess : ∀ {first second}, related first second → second.toAccess = first.toAccess
  sameEdge : ∀ {first second}, related first second → second.isBackEdge = first.isBackEdge
  carried : ∀ {first second}, related first second →
    related { first with isBackEdge := true } { second with isBackEdge := true }
  noted : ∀ {syncs others first second}, units syncs others → related first second →
    related (syncs.foldl BufferAccess.noteUnit first) (others.foldl BufferAccess.noteUnit second)

section Related

variable {context : PassContext} {related : BufferAccess → BufferAccess → Prop}
  {units : List SyncUnit → List SyncUnit → Prop} {first second : PassState}

theorem rel_overwrite {saved later otherSaved otherLater : LatestAccesses}
    (savedRelated : ∀ name, Option.Rel related (saved name) (otherSaved name))
    (laterRelated : ∀ name, Option.Rel related (later name) (otherLater name))
    (name : BufferName) :
    Option.Rel related (overwrite saved later name) (overwrite otherSaved otherLater name) := by
  unfold overwrite
  have isRelated := laterRelated name
  revert isRelated
  cases later name <;> cases otherLater name <;> intro isRelated
  · exact savedRelated name
  · cases isRelated
  · cases isRelated
  · exact isRelated

theorem rel_map {update otherUpdate : BufferAccess → BufferAccess}
    (keeps : ∀ {entry other}, related entry other → related (update entry) (otherUpdate other))
    {entry other : Option BufferAccess} (isRelated : Option.Rel related entry other) :
    Option.Rel related (entry.map update) (other.map otherUpdate) := by
  cases isRelated with
  | some isRelated => exact .some (keeps isRelated)
  | none => exact .none

namespace SameStatements

variable {block other : Block}

theorem imp {weaker : List SyncUnit → List SyncUnit → Prop}
    (same : SameStatements units block other)
    (weaken : ∀ syncs others, units syncs others → weaker syncs others) :
    SameStatements weaker block other := by
  induction same with
  | stop unitsRelated => exact .stop (weaken _ _ unitsRelated)
  | operation unitsRelated _ restSame => exact .operation (weaken _ _ unitsRelated) restSame
  | letStmt unitsRelated _ _ bodySame restSame =>
    exact .letStmt (weaken _ _ unitsRelated) bodySame restSame
  | ifThenElse unitsRelated _ _ _ thenSame elseSame restSame =>
    exact .ifThenElse (weaken _ _ unitsRelated) thenSame elseSame restSame
  | forLoop unitsRelated _ _ bodySame restSame =>
    exact .forLoop (weaken _ _ unitsRelated) bodySame restSame
  | unrolledLoop unitsRelated _ _ _ firstSame secondSame restSame =>
    exact .unrolledLoop (weaken _ _ unitsRelated) firstSame secondSame restSame

theorem swap (same : SameStatements units block other) :
    SameStatements (fun syncs others => units others syncs) other block := by
  induction same with
  | stop unitsRelated => exact .stop unitsRelated
  | operation unitsRelated _ restSame => exact .operation unitsRelated restSame
  | letStmt unitsRelated _ _ bodySame restSame => exact .letStmt unitsRelated bodySame restSame
  | ifThenElse unitsRelated _ _ _ thenSame elseSame restSame =>
    exact .ifThenElse unitsRelated thenSame elseSame restSame
  | forLoop unitsRelated _ _ bodySame restSame => exact .forLoop unitsRelated bodySame restSame
  | unrolledLoop unitsRelated _ _ _ firstSame secondSame restSame =>
    exact .unrolledLoop unitsRelated firstSame secondSame restSame

theorem refl (reflexive : ∀ syncs, units syncs syncs) (block : Block) :
    SameStatements units block block := by
  induction block with
  | stop syncs => exact .stop (reflexive syncs)
  | operation syncs op rest restSame => exact .operation (reflexive syncs) restSame
  | letStmt syncs value body rest bodySame restSame =>
    exact .letStmt (reflexive syncs) bodySame restSame
  | ifThenElse syncs condition thenCase elseCase rest thenSame elseSame restSame =>
    exact .ifThenElse (reflexive syncs) thenSame elseSame restSame
  | forLoop syncs extent body rest bodySame restSame =>
    exact .forLoop (reflexive syncs) bodySame restSame
  | unrolledLoop syncs extent first second rest firstSame secondSame restSame =>
    exact .unrolledLoop (reflexive syncs) firstSame secondSame restSame

theorem trans
    (transitive : ∀ syncs others third, units syncs others → units others third → units syncs third)
    {third : Block}
    (same : SameStatements units block other)
    (next : SameStatements units other third) : SameStatements units block third := by
  induction same generalizing third with
  | stop unitsRelated =>
    cases next with
    | stop unitsNext => exact .stop (transitive _ _ _ unitsRelated unitsNext)
  | operation unitsRelated _ restSame =>
    cases next with
    | operation unitsNext restNext =>
      exact .operation (transitive _ _ _ unitsRelated unitsNext) (restSame restNext)
  | letStmt unitsRelated _ _ bodySame restSame =>
    cases next with
    | letStmt unitsNext bodyNext restNext =>
      exact .letStmt (transitive _ _ _ unitsRelated unitsNext) (bodySame bodyNext)
        (restSame restNext)
  | ifThenElse unitsRelated _ _ _ thenSame elseSame restSame =>
    cases next with
    | ifThenElse unitsNext thenNext elseNext restNext =>
      exact .ifThenElse (transitive _ _ _ unitsRelated unitsNext) (thenSame thenNext)
        (elseSame elseNext) (restSame restNext)
  | forLoop unitsRelated _ _ bodySame restSame =>
    cases next with
    | forLoop unitsNext bodyNext restNext =>
      exact .forLoop (transitive _ _ _ unitsRelated unitsNext) (bodySame bodyNext)
        (restSame restNext)
  | unrolledLoop unitsRelated _ _ _ firstSame secondSame restSame =>
    cases next with
    | unrolledLoop unitsNext firstNext secondNext restNext =>
      exact .unrolledLoop (transitive _ _ _ unitsRelated unitsNext) (firstSame firstNext)
        (secondSame secondNext) (restSame restNext)

end SameStatements

namespace Matches

theorem refl (reflexive : ∀ entry, related entry entry) (state : PassState) :
    Matches related state state := by
  have same (entry : Option BufferAccess) : Option.Rel related entry entry := by
    cases entry with
    | none => exact .none
    | some entry => exact .some (reflexive entry)
  exact ⟨fun name => same _, fun name => same _⟩

theorem withCounter (counter : Nat) (matched : Matches related first second) :
    Matches related (first.withCounter counter) second :=
  ⟨matched.accesses, matched.writes⟩

theorem noteUnits (transports : Transports related units)
    (matched : Matches related first second) {syncs others : List SyncUnit}
    (unitsRelated : units syncs others) :
    Matches related (first.noteUnits syncs) (second.noteUnits others) :=
  ⟨fun name => rel_map (transports.noted unitsRelated) (matched.accesses name),
    fun name => rel_map (transports.noted unitsRelated) (matched.writes name)⟩

variable {later otherLater : PassState}

theorem overwrittenBy (matched : Matches related first second)
    (laterMatched : Matches related later otherLater) :
    Matches related (first.overwrittenBy later) (second.overwrittenBy otherLater) :=
  ⟨rel_overwrite matched.accesses laterMatched.accesses,
    rel_overwrite matched.writes laterMatched.writes⟩

section

variable (transports : Transports related units) (matched : Matches related first second)
include transports matched

theorem backEdge (laterMatched : Matches related later otherLater) :
    Matches related (first.backEdge later) (second.backEdge otherLater) :=
  ⟨rel_overwrite matched.accesses
      fun name => rel_map transports.carried (laterMatched.accesses name),
    rel_overwrite matched.writes fun name => rel_map transports.carried (laterMatched.writes name)⟩

theorem keepsBackEdge_eq (isRevisitPass : Bool) (access : BufferAccess) :
    keepsBackEdge isRevisitPass second access = keepsBackEdge isRevisitPass first access := by
  unfold keepsBackEdge
  have entries := matched.accesses access.bufferName
  revert entries
  cases first.accessHistory access.bufferName <;> cases second.accessHistory access.bufferName <;>
    intro entries
  · rfl
  · cases entries
  · cases entries
  · cases entries with
    | some isRelated =>
      dsimp only
      rw [transports.sameAccess isRelated, transports.sameEdge isRelated]

theorem recordAccess (isRevisitPass : Bool) (access : BufferAccess) :
    Matches related (recordAccess isRevisitPass first access)
      (recordAccess isRevisitPass second access) := by
  have updated {history other : LatestAccesses}
      (entries : ∀ name, Option.Rel related (history name) (other name)) (name : BufferName) :
      Option.Rel related (Function.update history access.bufferName (some access) name)
        (Function.update other access.bufferName (some access) name) := by
    by_cases same : name = access.bufferName
    · subst same
      rw [Function.update_self, Function.update_self]
      exact .some (transports.refl access)
    · rw [Function.update_of_ne same, Function.update_of_ne same]
      exact entries name
  unfold SyncInsertVS.recordAccess
  rw [matched.keepsBackEdge_eq transports]
  split
  · exact matched
  · refine ⟨updated matched.accesses, ?_⟩
    dsimp only
    split
    · exact updated matched.writes
    · exact matched.writes

end

theorem recordStatement (transports : Transports related units)
    (matched : Matches related first second) (isRevisitPass : Bool) (supported : List Access) :
    Matches related (recordStatement context isRevisitPass first supported)
      (recordStatement context isRevisitPass second supported) := by
  unfold SyncInsertVS.recordStatement updateLatestAccessHistory
  induction supported generalizing first second with
  | nil => exact matched
  | cons access rest ih =>
    exact ih (matched.recordAccess transports isRevisitPass _)

end Matches

/-- Blocks with the same statements keep two histories matched. -/
theorem trace_matches (transports : Transports related units) (isRevisitPass : Bool)
    {block other : Block} (same : SameStatements units block other)
    (matched : Matches related first second) :
    Matches related (trace context isRevisitPass first block)
      (trace context isRevisitPass second other) := by
  induction same generalizing first second with
  | stop unitsRelated => exact matched.noteUnits transports unitsRelated
  | operation unitsRelated _ restMatches =>
    apply restMatches
    exact (matched.noteUnits transports unitsRelated).recordStatement transports _ _
  | letStmt unitsRelated _ _ bodyMatches restMatches =>
    apply restMatches
    apply bodyMatches
    exact (matched.noteUnits transports unitsRelated).recordStatement transports _ _
  | ifThenElse unitsRelated _ _ _ thenMatches _ restMatches =>
    have saved := matched.noteUnits transports unitsRelated
    apply restMatches
    exact saved.overwrittenBy (thenMatches saved)
  | forLoop unitsRelated _ _ bodyMatches restMatches =>
    apply restMatches
    apply bodyMatches
    exact matched.noteUnits transports unitsRelated
  | unrolledLoop unitsRelated _ _ _ firstMatches secondMatches restMatches =>
    apply restMatches
    apply secondMatches
    apply firstMatches
    exact matched.noteUnits transports unitsRelated

/-- A check that matched histories keep holds throughout. -/
theorem throughout_of_matches {check otherCheck : Bool → PassState → List Access → Bool}
    (transports : Transports related units)
    (keeps : ∀ isRevisitPass first second supported, Matches related first second →
      check isRevisitPass first supported = true → otherCheck isRevisitPass second supported = true)
    {isRevisitPass : Bool}
    {block other : Block}
    (same : SameStatements units block other)
    (matched : Matches related first second)
    (holds : throughout context check isRevisitPass first block = true) :
    throughout context otherCheck isRevisitPass second other = true := by
  induction same generalizing first second isRevisitPass with
  | stop _ => rfl
  | operation unitsRelated _ restHolds =>
    have saved := matched.noteUnits transports unitsRelated
    simp only [throughout, Bool.and_eq_true] at holds ⊢
    exact ⟨keeps _ _ _ _ saved holds.1, restHolds (saved.recordStatement transports _ _) holds.2⟩
  | letStmt unitsRelated sameBody _ bodyHolds restHolds =>
    have saved := matched.noteUnits transports unitsRelated
    simp only [throughout, Bool.and_eq_true] at holds ⊢
    have inside := @Matches.recordStatement context _ _ _ _ transports saved
    exact ⟨⟨keeps _ _ _ _ saved holds.1.1, bodyHolds (inside _ _) holds.1.2⟩,
      restHolds (trace_matches transports _ sameBody (inside _ _)) holds.2⟩
  | ifThenElse unitsRelated sameThen _ _ thenHolds elseHolds restHolds =>
    have saved := matched.noteUnits transports unitsRelated
    simp only [throughout, Bool.and_eq_true] at holds ⊢
    exact ⟨⟨thenHolds saved holds.1.1, elseHolds saved holds.1.2⟩,
      restHolds (saved.overwrittenBy (trace_matches transports _ sameThen saved)) holds.2⟩
  | forLoop unitsRelated sameBody _ bodyHolds restHolds =>
    have saved := matched.noteUnits transports unitsRelated
    have finish := @trace_matches context _ _ _ _ transports isRevisitPass _ _ sameBody saved
    simp only [throughout, Bool.and_eq_true, Bool.or_eq_true] at holds ⊢
    exact ⟨⟨bodyHolds saved holds.1.1, holds.1.2.imp id
        (bodyHolds (saved.backEdge transports finish))⟩,
      restHolds finish holds.2⟩
  | unrolledLoop unitsRelated sameFirst sameSecond _ firstHolds secondHolds restHolds =>
    have saved := matched.noteUnits transports unitsRelated
    have middle := @trace_matches context _ _ _ _ transports isRevisitPass _ _ sameFirst saved
    simp only [throughout, Bool.and_eq_true] at holds ⊢
    exact ⟨⟨firstHolds saved holds.1.1, secondHolds middle holds.1.2⟩,
      restHolds (trace_matches transports _ sameSecond middle) holds.2⟩

end Related

end TilelangAscend.SyncInsertVS
