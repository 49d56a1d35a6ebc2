import TilelangAscend.ScopedExtends

namespace TilelangAscend.ScopedSync

open SyncInsert
open TraceBehaviours

/-!
# The pass covers the hazards of each unit

The history of the visitor accounts for what the unit of the current scope has outstanding.  A
block of the other unit is visited with a history of its own and leaves that of its surroundings
alone, so both units' programs are covered by one pass.
-/

/-! ## Where recorded accesses come from -/

/-- Blocks that a unit does not run. -/
def Wrapper.isSkipped (unit : ExecutionUnit) : Wrapper → Bool
  | .resourceScope owner => owner ≠ unit
  | _ => false

/-- The operations of a source body that a unit runs. -/
def unitOperations (unit : ExecutionUnit) : SourceBody → List Operation
  | .stop _ => []
  | .operation _ op rest => op :: unitOperations unit rest
  | .noOp _ rest => unitOperations unit rest
  | .wrap _ wrapper body rest =>
    (if wrapper.isSkipped unit then [] else unitOperations unit body) ++ unitOperations unit rest
  | .branch _ _ first second rest =>
    unitOperations unit first ++ unitOperations unit second ++ unitOperations unit rest
  | .forLoop _ _ body rest => unitOperations unit body ++ unitOperations unit rest
  | .unrolledLoop _ marker _ _ _ => marker.elim

/-- Conflicting operations of different pipelines have an event. -/
def ConflictsMapped (context : PassContext) (ops : List Operation) : Prop :=
  ∀ first ∈ ops, ∀ second ∈ ops, Conflicts context first second →
    first.pipeline context.table ≠ second.pipeline context.table →
    (first.pipeline context.table, second.pipeline context.table) ∈ eventMapping

/-- Every record stems from an operation of a list. -/
def Stems (context : PassContext) (ops : List Operation) (history : AccessHistory) : Prop :=
  ∀ name, ∀ recorded ∈ history name, ∃ op ∈ ops, ∃ touch ∈ op.touches context.table,
    touch.bufferName = name ∧ touch.isWrite = recorded.isWrite ∧
      op.pipeline context.table = recorded.pipeline

/-- A history of well-formed records that stem from the operations of a list. -/
structure Tracks
    (context : PassContext)
    (ops : List Operation)
    (history : AccessHistory) :
    Prop where
  wellFormed : WellFormed context (fun _ => True) history
  stems : Stems context ops history

section Tracking

variable {context : PassContext} {ops : List Operation} {history : AccessHistory}

theorem tracks_empty : Tracks context ops .empty :=
  ⟨wellFormed_empty, fun _ _ member => nomatch member⟩

theorem Stems.updateSyncStatesAfterSync (stems : Stems context ops history)
    (inserted : List SyncType) :
    Stems context ops (updateSyncStatesAfterSync history inserted) := by
  intro name recorded member
  obtain ⟨before, inHistory, rfl⟩ := List.mem_map.mp member
  obtain ⟨op, inOps, touch, touched, sameName, sameKind, samePipe⟩ := stems name before inHistory
  have advances := BufferAccess.Advances.foldl_updateAccess before inserted
  exact ⟨op, inOps, touch, touched, sameName, sameKind.trans advances.isWrite.symm,
    samePipe.trans advances.pipeline.symm⟩

variable {op : Operation} {joined : List BufferAccess} {entry : BufferAccess}

theorem Stems.updateLatestAccessHistory (stems : Stems context ops history)
    (inOps : op ∈ ops) {touches : List Touch} (touched : touches ⊆ op.touches context.table) :
    Stems context ops (updateLatestAccessHistory history
      (touches.map (freshAccess context (op.pipeline context.table)))) := by
  induction touches generalizing history with
  | nil => exact stems
  | cons touch rest ih =>
    obtain ⟨isTouched, restTouched⟩ := List.cons_subset.mp touched
    apply ih ?_ restTouched
    intro name recorded member
    rcases of_mem_recordAccess member with isOld | ⟨isName, rfl⟩
    · exact stems name recorded isOld
    · exact ⟨op, inOps, touch, isTouched, isName.symm, rfl, rfl⟩

theorem kind_of_mem_joinAccess {access : BufferAccess}
    (member : entry ∈ joinAccess joined access) :
    ∃ previous, (previous = access ∨ previous ∈ joined) ∧
      previous.isWrite = entry.isWrite ∧ previous.pipeline = entry.pipeline := by
  induction joined with
  | nil => exact ⟨access, Or.inl rfl, by rw [List.mem_singleton.mp member]; exact ⟨rfl, rfl⟩⟩
  | cons head rest ih =>
    unfold joinAccess at member
    split at member
    · rcases List.mem_cons.mp member with rfl | inRest
      · exact ⟨head, Or.inr List.mem_cons_self, rfl, rfl⟩
      · exact ⟨entry, Or.inr (List.mem_cons_of_mem _ inRest), rfl, rfl⟩
    · rcases List.mem_cons.mp member with rfl | inRest
      · exact ⟨entry, Or.inr List.mem_cons_self, rfl, rfl⟩
      · obtain ⟨previous, cause, kind⟩ := ih inRest
        exact ⟨previous, cause.imp_right (List.mem_cons_of_mem _), kind⟩

theorem kind_of_mem_foldl_joinAccess {accesses : List BufferAccess}
    (member : entry ∈ accesses.foldl joinAccess joined) :
    ∃ previous, (previous ∈ accesses ∨ previous ∈ joined) ∧
      previous.isWrite = entry.isWrite ∧ previous.pipeline = entry.pipeline := by
  induction accesses generalizing joined with
  | nil => exact ⟨entry, Or.inr member, rfl, rfl⟩
  | cons access rest ih =>
    obtain ⟨middle, cause, sameKind, samePipe⟩ := ih member
    rcases cause with inRest | inJoined
    · exact ⟨middle, Or.inl (List.mem_cons_of_mem _ inRest), sameKind, samePipe⟩
    · obtain ⟨previous, isJoined, kind, pipe⟩ := kind_of_mem_joinAccess inJoined
      refine ⟨previous, ?_, kind.trans sameKind, pipe.trans samePipe⟩
      rcases isJoined with rfl | inOld
      · exact Or.inl List.mem_cons_self
      · exact Or.inr inOld

theorem Stems.joinAccessHistories {current : AccessHistory}
    (stems : Stems context ops history) (currentStems : Stems context ops current) :
    Stems context ops (joinAccessHistories history current) := by
  intro name entry member
  obtain ⟨previous, cause, sameKind, samePipe⟩ := kind_of_mem_foldl_joinAccess member
  have inEither := cause.resolve_right List.not_mem_nil
  obtain ⟨op, inOps, touch, touched, sameName, kind, pipe⟩ :
      ∃ op ∈ ops, ∃ touch ∈ op.touches context.table, touch.bufferName = name ∧
        touch.isWrite = previous.isWrite ∧ op.pipeline context.table = previous.pipeline := by
    rcases List.mem_append.mp inEither with inEntry | inCurrent
    · exact stems name previous inEntry
    · exact currentStems name previous inCurrent
  exact ⟨op, inOps, touch, touched, sameName, kind.trans sameKind, pipe.trans samePipe⟩

theorem Tracks.exitHistory {afterFirst : AccessHistory}
    (tracks : Tracks context ops history) (afterTracks : Tracks context ops afterFirst)
    (extent : Expr) : Tracks context ops (exitHistory context extent history afterFirst) := by
  refine ⟨tracks.wellFormed.exitHistory afterTracks.wellFormed, ?_⟩
  unfold SyncInsert.exitHistory
  split
  · exact afterTracks.stems
  · exact tracks.stems.joinAccessHistories afterTracks.stems

theorem Tracks.dependenciesMapped (tracks : Tracks context ops history)
    (mapped : ConflictsMapped context ops) (inOps : op ∈ ops) :
    DependenciesMapped context history op := by
  intro name recorded member touch touched overlaps writes differ
  obtain ⟨source, sourceInOps, sourceTouch, sourceTouched, sameName, sameKind, samePipe⟩ :=
    tracks.stems name recorded member
  have hasName := (tracks.wellFormed name recorded member).bufferName
  rw [hasName, ← sameName] at overlaps
  rw [← sameKind] at writes
  rw [← samePipe] at differ ⊢
  exact mapped source sourceInOps op inOps ⟨sourceTouch, sourceTouched, touch, touched, overlaps,
    writes⟩ differ

theorem Tracks.visitOperation (known : context.plan.Known)
    (mapped : ConflictsMapped context ops) {state : PassState}
    (tracks : Tracks context ops state.history) (inOps : op ∈ ops) :
    Tracks context ops (visitOperation context state op).2.history := by
  obtain ⟨_, _, wellFormed⟩ := visitOperation_spec known tracks.wellFormed
    (tracks.dependenciesMapped mapped inOps) (fun _ => trivial) (Survives.refl _)
  refine ⟨wellFormed, ?_⟩
  exact (tracks.stems.updateSyncStatesAfterSync _).updateLatestAccessHistory inOps
    (List.Subset.refl _)

end Tracking

/-! ## Scopes of the visitor -/

/-- The scope in which a unit is inside or outside its blocks. -/
def scopeOf (unit : ExecutionUnit) (inside : Bool) : Option ExecutionUnit :=
  if inside then some unit else none

section Scopes

variable {context : PassContext} {unit owner : ExecutionUnit} {inside : Bool}
  {state inner : ScopedState}

theorem scope_leave {wrapper : Wrapper} (same : inner.scope = (state.enter wrapper).scope) :
    (state.leave inner wrapper).scope = state.scope := by
  cases wrapper with
  | resourceScope owner =>
    simp only [ScopedState.leave, ScopedState.enter] at same ⊢
    split
    · rename_i isCurrent
      rwa [if_pos isCurrent] at same
    · rfl
  | _ => exact same

@[simp] theorem scope_cut (state : ScopedState) (kind : Branch) :
    (state.cut kind).scope = state.scope := by
  cases kind <;> rfl

theorem scope_visitStmt (state : ScopedState) (body : UnrolledBody) :
    (visitStmt context state body).2.scope = state.scope := by
  induction body generalizing state with
  | stop => rfl
  | operation _ _ _ restScope => exact restScope _
  | noOp _ _ restScope => exact restScope _
  | wrap _ wrapper _ _ bodyScope restScope => exact (restScope _).trans (scope_leave (bodyScope _))
  | branch _ kind _ _ _ firstScope secondScope restScope =>
    simp only [visitStmt, restScope, secondScope, firstScope, scope_cut]
  | forLoop _ header => exact header.elim
  | unrolledLoop _ marker _ _ _ firstScope secondScope restScope =>
    simp only [visitStmt]
    split
    · exact restScope state
    · exact (restScope _).trans ((secondScope _).trans (firstScope _))

theorem history_leave_other (isOther : owner ≠ unit) (here : state.scope = scopeOf unit inside) :
    (state.leave inner (.resourceScope owner)).history = state.history := by
  have notCurrent : state.scope ≠ some owner := by
    rw [here]
    cases inside with
    | true => exact fun same => isOther (Option.some.inj same).symm
    | false => exact nofun
  simp only [ScopedState.leave, if_neg notCurrent]

theorem enter_nested (here : state.scope = some unit) :
    state.enter (.resourceScope unit) = state :=
  if_pos here

theorem leave_nested (here : state.scope = some unit) :
    state.leave inner (.resourceScope unit) = inner :=
  if_pos here

theorem enter_outermost (here : state.scope = none) :
    (state.enter (.resourceScope unit)).history = .empty ∧
      (state.enter (.resourceScope unit)).scope = some unit := by
  have notCurrent : state.scope ≠ some unit := by
    rw [here]
    exact nofun
  constructor <;> simp only [ScopedState.enter, if_neg notCurrent]

theorem history_leave_outermost (here : state.scope = none) :
    (state.leave inner (.resourceScope unit)).history = state.history := by
  have notCurrent : state.scope ≠ some unit := by
    rw [here]
    exact nofun
  simp only [ScopedState.leave, if_neg notCurrent]

end Scopes

/-! ## Visited sequences -/

section Visit

variable {context : PassContext} {unit : ExecutionUnit} {inside : Bool} {ops : List Operation}
  {loopInfos : List LoopInfo}

/--
The visitor is inside or outside the blocks of a unit, with a history that tracks what the unit
does.
-/
structure Follows
    (context : PassContext)
    (unit : ExecutionUnit)
    (inside : Bool)
    (ops : List Operation)
    (state : ScopedState) :
    Prop where
  here : state.scope = scopeOf unit inside
  tracks : Tracks context ops state.history

namespace Follows

variable {state inner : ScopedState}

theorem cut (follows : Follows context unit inside ops state) (kind : Branch) :
    Follows context unit inside ops (state.cut kind) := by
  cases kind with
  | ifThenElse => exact ⟨follows.here, tracks_empty⟩
  | blockInit => exact follows

theorem enter (follows : Follows context unit inside ops state) {wrapper : Wrapper}
    {source : SourceBody}
    (runs : (if wrapper.isSkipped unit then [] else unitOperations unit source) ⊆ ops) :
    wrapper.isSkipped unit = true ∨
      unitOperations unit source ⊆ ops ∧
        ∃ isInside, Follows context unit isInside ops (state.enter wrapper) := by
  cases skipped : wrapper.isSkipped unit with
  | true => exact Or.inl rfl
  | false =>
    rw [skipped] at runs
    refine Or.inr ⟨runs, ?_⟩
    cases wrapper with
    | resourceScope owner =>
      obtain rfl : owner = unit := by simpa [Wrapper.isSkipped] using skipped
      cases inside with
      | true =>
        rw [enter_nested follows.here]
        exact ⟨true, follows⟩
      | false =>
        obtain ⟨noHistory, entered⟩ := enter_outermost follows.here
        exact ⟨true, entered, noHistory ▸ tracks_empty⟩
    | ifThen condition => exact ⟨inside, follows.here, tracks_empty⟩
    | _ => exact ⟨inside, follows⟩

theorem leave (follows : Follows context unit inside ops state) {wrapper : Wrapper}
    (sameScope : inner.scope = (state.enter wrapper).scope)
    (bodyTracks : wrapper.isSkipped unit = true ∨ Tracks context ops inner.history) :
    Follows context unit inside ops (state.leave inner wrapper) := by
  refine ⟨(scope_leave sameScope).trans follows.here, ?_⟩
  cases wrapper with
  | resourceScope owner =>
    by_cases isOwn : owner = unit
    · subst isOwn
      cases inside with
      | true =>
        rw [leave_nested follows.here]
        exact bodyTracks.resolve_left (by simp [Wrapper.isSkipped])
      | false =>
        rw [history_leave_outermost follows.here]
        exact follows.tracks
    · rw [history_leave_other isOwn follows.here]
      exact follows.tracks
  | ifThen condition => exact tracks_empty
  | _ => exact bodyTracks.resolve_left nofun

theorem visit (known : context.plan.Known) (mapped : ConflictsMapped context ops)
    {source : SourceBody} {loopCounter currentDepth : Nat}
    (follows : Follows context unit inside ops state) (runs : unitOperations unit source ⊆ ops) :
    Follows context unit inside ops
      (visitStmt context state (forLoopUnroller loopCounter currentDepth source).1).2 := by
  induction source generalizing loopCounter currentDepth inside state with
  | stop => exact follows
  | operation _ op _ restFollows =>
    obtain ⟨opRuns, restRuns⟩ := List.cons_subset.mp runs
    apply restFollows ?_ restRuns
    exact ⟨follows.here, follows.tracks.visitOperation known mapped opRuns⟩
  | noOp _ _ restFollows => exact restFollows follows runs
  | wrap _ wrapper body _ bodyFollows restFollows =>
    obtain ⟨bodyRuns, restRuns⟩ := List.append_subset.mp runs
    apply restFollows ?_ restRuns
    apply follows.leave (scope_visitStmt _ _)
    refine (follows.enter bodyRuns).imp_right ?_
    rintro ⟨runs, isInside, entered⟩
    exact (bodyFollows entered runs).tracks
  | branch _ kind _ _ _ firstFollows secondFollows restFollows =>
    obtain ⟨bothRun, restRuns⟩ := List.append_subset.mp runs
    obtain ⟨firstRuns, secondRuns⟩ := List.append_subset.mp bothRun
    apply restFollows ?_ restRuns
    apply Follows.cut
    apply secondFollows ?_ secondRuns
    apply Follows.cut
    exact firstFollows (follows.cut kind) firstRuns
  | forLoop _ header _ _ bodyFollows restFollows =>
    obtain ⟨bodyRuns, restRuns⟩ := List.append_subset.mp runs
    simp only [forLoopUnroller, visitStmt]
    split
    · exact restFollows follows restRuns
    · apply restFollows ?_ restRuns
      have once := @bodyFollows inside state (loopCounter + 1) (currentDepth + 1) follows bodyRuns
      exact ⟨(bodyFollows once bodyRuns).here, follows.tracks.exitHistory once.tracks header.extent⟩
  | unrolledLoop _ marker => exact marker.elim

end Follows

/--
A rebuilt sequence is safe for what the history before it denotes, and leaves what the history
after it denotes, also with more synchronization.
-/
structure CoveredBy
    (context : PassContext)
    (unit : ExecutionUnit)
    (inside : Bool)
    (before after : AccessHistory)
    (block : RebuiltBody SyncUnit) :
    Prop where
  safe :
    ∀ {larger}, Extends larger block →
      Safe context (Exempt context.platform) unit inside larger (before.meaning context)
  leaves :
    ∀ {larger}, Extends larger block →
      transfer context unit inside larger (before.meaning context) ≤ after.meaning context

namespace CoveredBy

variable {before after middle : AccessHistory} {block larger : RebuiltBody SyncUnit}
  {state : OutstandingSet}

theorem safe_of_le (covered : CoveredBy context unit inside before after block)
    (extended : Extends larger block) (below : state ≤ before.meaning context) :
    Safe context (Exempt context.platform) unit inside larger state :=
  (covered.safe extended).anti below

theorem leaves_of_le (covered : CoveredBy context unit inside before after block)
    (extended : Extends larger block) (below : state ≤ before.meaning context) :
    transfer context unit inside larger state ≤ after.meaning context :=
  ((transfer_absorbing inside larger).monotone below).trans (covered.leaves extended)

theorem noOp (covered : CoveredBy context unit inside before after block) :
    CoveredBy context unit inside before after (.noOp [] block) := by
  have drops {larger : RebuiltBody SyncUnit} (extended : Extends larger (.noOp [] block)) :
      Extends larger block := by
    cases extended with
    | noOp inner => rwa [Body.prepend_nil] at inner
  exact ⟨fun extended => covered.safe (drops extended),
    fun extended => covered.leaves (drops extended)⟩

/-- An operation behind what it requires is covered. -/
theorem operation (known : context.plan.Known) (mapped : ConflictsMapped context ops)
    {passState : PassState} (tracks : Tracks context ops passState.history)
    {op : Operation} (inOps : op ∈ ops)
    (restCovered :
      CoveredBy context unit inside (visitOperation context passState op).2.history after block) :
    CoveredBy context unit inside passState.history after
      (.operation (visitOperation context passState op).1 op block) := by
  have spec {syncs : List SyncUnit}
      (survives : Survives (visitOperation context passState op).1 syncs) :=
    visitOperation_spec known tracks.wellFormed (tracks.dependenciesMapped mapped inOps)
      (fun _ => trivial) survives
  refine ⟨?_, ?_⟩
  · intro larger extended
    cases extended with
    | operation survives restExtended =>
      obtain ⟨safe, recorded, _⟩ := spec survives
      exact ⟨safe, restCovered.safe_of_le restExtended recorded⟩
  · intro larger extended
    cases extended with
    | operation survives restExtended =>
      obtain ⟨_, recorded, _⟩ := spec survives
      simp only [transfer]
      exact restCovered.leaves_of_le restExtended recorded

variable {rest body : RebuiltBody SyncUnit} {syncs : List SyncUnit}

theorem through {wrapper : Wrapper}
    (safely : ∀ check state, SafeWrapper unit inside check wrapper state ↔ check inside state)
    (passes : ∀ inner state, transferWrapper unit inside inner wrapper state = inner inside state)
    (bodyCovered : CoveredBy context unit inside before middle body)
    (restCovered : CoveredBy context unit inside middle after rest) :
    CoveredBy context unit inside before after (.wrap syncs wrapper body rest) := by
  refine ⟨?_, ?_⟩
  · intro larger extended
    cases extended with
    | wrap _ bodyExtended restExtended =>
      simp only [Safe, safely, passes]
      exact ⟨bodyCovered.safe_of_le bodyExtended (transferSyncs_larger_le _),
        restCovered.safe_of_le restExtended
          (bodyCovered.leaves_of_le bodyExtended (transferSyncs_larger_le _))⟩
  · intro larger extended
    cases extended with
    | wrap _ bodyExtended restExtended =>
      simp only [transfer, passes]
      exact restCovered.leaves_of_le restExtended
        (bodyCovered.leaves_of_le bodyExtended (transferSyncs_larger_le _))

theorem otherBlock {owner : ExecutionUnit} (isOther : owner ≠ unit)
    (restCovered : CoveredBy context unit inside before after rest) :
    CoveredBy context unit inside before after (.wrap syncs (.resourceScope owner) body rest) := by
  refine ⟨?_, ?_⟩
  · intro larger extended
    cases extended with
    | wrap _ _ restExtended =>
      simp only [Safe, transferWrapper_other _ _ isOther]
      exact ⟨safeWrapper_other _ _ isOther,
        restCovered.safe_of_le restExtended (transferSyncs_larger_le _)⟩
  · intro larger extended
    cases extended with
    | wrap _ _ restExtended =>
      simp only [transfer, transferWrapper_other _ _ isOther]
      exact restCovered.leaves_of_le restExtended (transferSyncs_larger_le _)

theorem outermostBlock (bodyCovered : CoveredBy context unit true .empty middle body)
    (restCovered : CoveredBy context unit false before after rest) :
    CoveredBy context unit false before after (.wrap syncs (.resourceScope unit) body rest) := by
  refine ⟨?_, ?_⟩
  · intro larger extended
    cases extended with
    | wrap _ bodyExtended restExtended =>
      simp only [Safe, safeWrapper_outermost _ _ rfl, transferWrapper_outermost _ _ rfl]
      exact ⟨bodyCovered.safe_of_le bodyExtended bot_le, restCovered.safe_of_le restExtended bot_le⟩
  · intro larger extended
    cases extended with
    | wrap _ _ restExtended =>
      simp only [transfer, transferWrapper_outermost _ _ rfl]
      exact restCovered.leaves_of_le restExtended bot_le

theorem ifThen {condition : Expr} (bodyCovered : CoveredBy context unit inside .empty middle body)
    (restCovered : CoveredBy context unit inside .empty after rest) :
    CoveredBy context unit inside before after
      (.wrap [.barrierAll] (.ifThen condition) body (rest.prepend [.barrierAll])) := by
  refine ⟨?_, ?_⟩
  · intro larger extended
    cases extended with
    | wrap survives bodyExtended restExtended =>
      simp only [Safe, transferSyncs_barrierAll survives]
      exact ⟨bodyCovered.safe_of_le bodyExtended bot_le, (restExtended.forgets _ _).2
        (restCovered.safe_of_le restExtended.of_prepend_all bot_le)⟩
  · intro larger extended
    cases extended with
    | wrap _ _ restExtended =>
      simp only [transfer]
      rw [(restExtended.forgets (Exempt context.platform) _).1]
      exact restCovered.leaves_of_le restExtended.of_prepend_all bot_le

/-- A wrapper around a covered body is covered. -/
theorem wrapper {state inner : ScopedState} (here : state.scope = scopeOf unit inside)
    {wrapper : Wrapper}
    (bodyCovered :
      wrapper.isSkipped unit = true ∨
        ∀ isInside, (state.enter wrapper).scope = scopeOf unit isInside →
          CoveredBy context unit isInside (state.enter wrapper).history inner.history body)
    (restCovered : CoveredBy context unit inside (state.leave inner wrapper).history after rest) :
    CoveredBy context unit inside state.history after
      (.wrap wrapper.before wrapper body (rest.prepend wrapper.after)) := by
  cases wrapper with
  | resourceScope owner =>
    simp only [Wrapper.after, Body.prepend_nil]
    by_cases isOwn : owner = unit
    · subst isOwn
      have covered := bodyCovered.resolve_left (by simp [Wrapper.isSkipped])
      cases inside with
      | true =>
        rw [enter_nested here] at covered
        rw [leave_nested here] at restCovered
        exact through (fun check entry => safeWrapper_nested check entry rfl)
          (fun follow entry => transferWrapper_nested follow entry rfl) (covered true here)
          restCovered
      | false =>
        have entered := covered true (enter_outermost here).2
        rw [(enter_outermost here).1] at entered
        rw [history_leave_outermost here] at restCovered
        exact entered.outermostBlock restCovered
    · rw [history_leave_other isOwn here] at restCovered
      exact restCovered.otherBlock isOwn
  | ifThen condition => exact ((bodyCovered.resolve_left nofun) inside here).ifThen restCovered
  | _ =>
    simp only [Wrapper.after, Body.prepend_nil]
    exact through (fun _ _ => Iff.rfl) (fun _ _ => rfl)
      ((bodyCovered.resolve_left nofun) inside here) restCovered

theorem ifThenElse {afterFirst afterSecond : AccessHistory} {condition : Expr}
    {first second rest : RebuiltBody SyncUnit}
    (firstCovered : CoveredBy context unit inside .empty afterFirst first)
    (secondCovered : CoveredBy context unit inside .empty afterSecond second)
    (restCovered : CoveredBy context unit inside .empty after rest) :
    CoveredBy context unit inside before after
      (.branch [.barrierAll] (.ifThenElse condition) first second
        (rest.prepend [.barrierAll])) := by
  refine ⟨?_, ?_⟩
  · intro larger extended
    cases extended with
    | branch survives firstExtended secondExtended restExtended =>
      simp only [Safe, transferSyncs_barrierAll survives]
      exact ⟨⟨firstCovered.safe_of_le firstExtended bot_le,
        secondCovered.safe_of_le secondExtended bot_le⟩, (restExtended.forgets _ _).2
          (restCovered.safe_of_le restExtended.of_prepend_all bot_le)⟩
  · intro larger extended
    cases extended with
    | branch _ _ _ restExtended =>
      simp only [transfer]
      rw [(restExtended.forgets (Exempt context.platform) _).1]
      exact restCovered.leaves_of_le restExtended.of_prepend_all bot_le

theorem blockInit {afterFirst : AccessHistory} {fields : Fields}
    {first second : RebuiltBody SyncUnit}
    (firstCovered : CoveredBy context unit inside before afterFirst first)
    (secondCovered : CoveredBy context unit inside afterFirst middle second)
    (restCovered : CoveredBy context unit inside middle after rest) :
    CoveredBy context unit inside before after
      (.branch syncs (.blockInit fields) first second rest) := by
  refine ⟨?_, ?_⟩
  · intro larger extended
    cases extended with
    | @branch units _ _ _ _ _ _ _ _ _ firstExtended secondExtended restExtended =>
      have afterInit := firstCovered.leaves_of_le firstExtended (transferSyncs_larger_le units)
      exact ⟨⟨firstCovered.safe_of_le firstExtended (transferSyncs_larger_le _),
        secondCovered.safe_of_le secondExtended afterInit⟩,
        restCovered.safe_of_le restExtended (secondCovered.leaves_of_le secondExtended afterInit)⟩
  · intro larger extended
    cases extended with
    | branch _ firstExtended secondExtended restExtended =>
      simp only [transfer]
      exact restCovered.leaves_of_le restExtended (secondCovered.leaves_of_le secondExtended
        (firstCovered.leaves_of_le firstExtended (transferSyncs_larger_le _)))

/-- A branch of two covered bodies is covered. -/
theorem branch {state left right : ScopedState} {kind : Branch}
    {first second rest : RebuiltBody SyncUnit}
    (firstCovered : CoveredBy context unit inside (state.cut kind).history left.history first)
    (secondCovered : CoveredBy context unit inside (left.cut kind).history right.history second)
    (restCovered : CoveredBy context unit inside (right.cut kind).history after rest) :
    CoveredBy context unit inside state.history after
      (.branch kind.around kind first second (rest.prepend kind.around)) := by
  cases kind with
  | ifThenElse condition => exact firstCovered.ifThenElse secondCovered restCovered
  | blockInit fields =>
    simp only [Branch.around, Body.prepend_nil]
    exact firstCovered.blockInit secondCovered restCovered

/--
A loop.  Its merged body extends both visited copies: the first makes it safe for what is
outstanding before the loop, the second for what an iteration leaves.
-/
theorem forLoop {afterFirst afterSecond : AccessHistory}
    (tracks : Tracks context ops before) (firstTracks : Tracks context ops afterFirst)
    {syncs : List SyncUnit} {header : LoopHeader} {first second merged rest : RebuiltBody SyncUnit}
    (firstCovered : CoveredBy context unit inside before afterFirst first)
    (secondCovered : CoveredBy context unit inside afterFirst afterSecond second)
    (extendsFirst : Extends merged first) (extendsSecond : Extends merged second)
    (restCovered :
      CoveredBy context unit inside (exitHistory context header.extent before afterFirst) after
        rest) :
    CoveredBy context unit inside before after (.forLoop syncs header merged rest) := by
  have exits {units : List SyncUnit} {body : RebuiltBody SyncUnit}
      (extended : Extends body merged) :
      loopExit context header.extent (transferSyncs units (before.meaning context))
          (transfer context unit inside body (transferSyncs units (before.meaning context))) ≤
        (exitHistory context header.extent before afterFirst).meaning context := by
    have entered : transferSyncs units (before.meaning context) ≤ before.meaning context :=
      transferSyncs_larger_le units
    exact loopExit_le_exitHistory tracks.wellFormed firstTracks.wellFormed entered
      (firstCovered.leaves_of_le (extended.trans extendsFirst) entered)
  refine ⟨?_, ?_⟩
  · intro larger extended
    cases extended with
    | forLoop _ bodyExtended restExtended =>
      have bodyFirst := bodyExtended.trans extendsFirst
      have bodySecond := bodyExtended.trans extendsSecond
      exact ⟨firstCovered.safe_of_le bodyFirst (transferSyncs_larger_le _),
        secondCovered.safe_of_le bodySecond
          (firstCovered.leaves_of_le bodyFirst (transferSyncs_larger_le _)),
        restCovered.safe_of_le restExtended (exits bodyExtended)⟩
  · intro larger extended
    cases extended with
    | forLoop _ bodyExtended restExtended =>
      simp only [transfer]
      exact restCovered.leaves_of_le restExtended (exits bodyExtended)

end CoveredBy

/-- The visited body is covered by the history the pass keeps. -/
theorem visitStmt_covered (known : context.plan.Known) (mapped : ConflictsMapped context ops)
    (unique : (loopInfos.map LoopInfo.loopId).Nodup) {source : SourceBody}
    {loopCounter currentDepth : Nat}
    (noted : (forLoopUnroller loopCounter currentDepth source).2 ⊆ loopInfos)
    {state : ScopedState} (follows : Follows context unit inside ops state)
    (runs : unitOperations unit source ⊆ ops) {block : RebuiltBody SyncUnit}
    (rebuilds :
      loopRebuilder unitMerge loopInfos
        (visitStmt context state (forLoopUnroller loopCounter currentDepth source).1).1 =
          some block) :
    CoveredBy context unit inside state.history
      (visitStmt context state (forLoopUnroller loopCounter currentDepth source).1).2.history
      block := by
  induction source generalizing loopCounter currentDepth inside state block with
  | stop =>
    cases rebuilds
    refine ⟨?_, ?_⟩
    · intro larger extended
      cases extended
      trivial
    · intro larger extended
      cases extended
      exact transferSyncs_larger_le _
  | operation _ op _ restCovered =>
    obtain ⟨opRuns, restRuns⟩ := List.cons_subset.mp runs
    obtain ⟨rest, restRebuilds, isBlock⟩ := Option.bind_eq_some_iff.mp rebuilds
    cases isBlock
    apply CoveredBy.operation known mapped follows.tracks opRuns
    apply restCovered noted ?_ restRuns restRebuilds
    exact ⟨follows.here, follows.tracks.visitOperation known mapped opRuns⟩
  | noOp _ _ restCovered =>
    obtain ⟨rest, restRebuilds, isBlock⟩ := Option.bind_eq_some_iff.mp rebuilds
    cases isBlock
    exact (restCovered noted follows runs restRebuilds).noOp
  | wrap _ wrapper source _ bodyCovered restCovered =>
    obtain ⟨bodyNoted, restNoted⟩ := List.append_subset.mp noted
    obtain ⟨bodyRuns, restRuns⟩ := List.append_subset.mp runs
    obtain ⟨body, bodyRebuilds, rebuilds⟩ := Option.bind_eq_some_iff.mp rebuilds
    obtain ⟨prepended, restRebuilds, isBlock⟩ := Option.bind_eq_some_iff.mp rebuilds
    cases isBlock
    rw [loopRebuilder_prepend, Option.map_eq_some_iff] at restRebuilds
    obtain ⟨rest, restRebuilds, rfl⟩ := restRebuilds
    refine CoveredBy.wrapper follows.here ?_ (restCovered restNoted ?_ restRuns restRebuilds)
    · refine (follows.enter bodyRuns).imp_right ?_
      rintro ⟨runs, _, entered⟩ isInside bodyHere
      exact bodyCovered bodyNoted ⟨bodyHere, entered.tracks⟩ runs bodyRebuilds
    · apply follows.leave (scope_visitStmt _ _)
      refine (follows.enter bodyRuns).imp_right ?_
      rintro ⟨runs, isInside, entered⟩
      exact (entered.visit known mapped runs).tracks
  | branch _ kind _ _ _ firstCovered secondCovered restCovered =>
    obtain ⟨bothNoted, restNoted⟩ := List.append_subset.mp noted
    obtain ⟨firstNoted, secondNoted⟩ := List.append_subset.mp bothNoted
    obtain ⟨bothRun, restRuns⟩ := List.append_subset.mp runs
    obtain ⟨firstRuns, secondRuns⟩ := List.append_subset.mp bothRun
    obtain ⟨first, firstRebuilds, rebuilds⟩ := Option.bind_eq_some_iff.mp rebuilds
    obtain ⟨second, secondRebuilds, rebuilds⟩ := Option.bind_eq_some_iff.mp rebuilds
    obtain ⟨prepended, restRebuilds, isBlock⟩ := Option.bind_eq_some_iff.mp rebuilds
    cases isBlock
    rw [loopRebuilder_prepend, Option.map_eq_some_iff] at restRebuilds
    obtain ⟨rest, restRebuilds, rfl⟩ := restRebuilds
    apply CoveredBy.branch (firstCovered firstNoted (follows.cut kind) firstRuns firstRebuilds)
      (secondCovered secondNoted ?_ secondRuns secondRebuilds)
      (restCovered restNoted ?_ restRuns restRebuilds)
    · exact ((follows.cut kind).visit known mapped firstRuns).cut kind
    · exact ((((follows.cut kind).visit known mapped firstRuns).cut kind).visit known mapped
        secondRuns).cut kind
  | forLoop _ header _ _ bodyCovered restCovered =>
    obtain ⟨bodyRuns, restRuns⟩ := List.append_subset.mp runs
    obtain ⟨headNoted, laterNoted⟩ := List.cons_subset.mp noted
    obtain ⟨bodyNoted, restNoted⟩ := List.append_subset.mp laterNoted
    simp only [forLoopUnroller, visitStmt] at rebuilds ⊢
    split at rebuilds
    · rename_i isEmpty
      obtain ⟨rest, restRebuilds, isBlock⟩ := Option.bind_eq_some_iff.mp rebuilds
      cases isBlock
      rw [if_pos isEmpty]
      exact (restCovered restNoted follows restRuns restRebuilds).noOp
    · rename_i nonempty
      rw [if_neg nonempty]
      obtain ⟨info, found, rebuilds⟩ := Option.bind_eq_some_iff.mp rebuilds
      obtain ⟨first, firstRebuilds, rebuilds⟩ := Option.bind_eq_some_iff.mp rebuilds
      obtain ⟨second, secondRebuilds, rebuilds⟩ := Option.bind_eq_some_iff.mp rebuilds
      obtain ⟨merged, merges, rebuilds⟩ := Option.bind_eq_some_iff.mp rebuilds
      obtain ⟨rest, restRebuilds, isBlock⟩ := Option.bind_eq_some_iff.mp rebuilds
      cases isBlock
      cases (find?_loopId unique headNoted).symm.trans found
      obtain ⟨extendsFirst, extendsSecond⟩ := extends_merged merges
      have once :=
        @Follows.visit _ _ inside _ state known mapped _ (loopCounter + 1) (currentDepth + 1)
          follows bodyRuns
      apply CoveredBy.forLoop follows.tracks once.tracks
        (bodyCovered bodyNoted follows bodyRuns firstRebuilds)
        (bodyCovered bodyNoted once bodyRuns secondRebuilds)
        (extendsFirst.trans (extends_flattenStmts first))
        (extendsSecond.trans (extends_flattenStmts second))
      refine restCovered restNoted ⟨?_, ?_⟩ restRuns restRebuilds
      · exact (once.visit known mapped bodyRuns).here
      · exact follows.tracks.exitHistory once.tracks header.extent
  | unrolledLoop _ marker => exact marker.elim

end Visit

/-! ## The whole pass -/

section Pass

variable {context : PassContext} {unit : ExecutionUnit} {body : SourceBody}

/-- Every run of the output has its hazards ordered. -/
theorem substituteUnits_hazards (known : context.plan.Known)
    (mapped : ConflictsMapped context (unitOperations unit body)) (loopCounter : Nat) :
    ∃ output,
      substituteUnits context loopCounter body = some output ∧
        ∀ run exit, (run, exit) ∈ behaviour context unit false false output →
          Hazards context (Exempt context.platform) run := by
  obtain ⟨output, rebuilds, _⟩ := (annotate_copies context loopCounter body).rebuilt unitMerge
  refine ⟨output, rebuilds, ?_⟩
  intro run exit member
  have unique : ((forLoopUnroller loopCounter 0 body).2.map LoopInfo.loopId).Nodup := by
    rw [loopIds_forLoopUnroller]
    exact List.nodup_range'
  have starts : Follows context unit false (unitOperations unit body) initialState :=
    ⟨rfl, tracks_empty⟩
  have covered := visitStmt_covered known mapped unique (List.Subset.refl _) starts
    (List.Subset.refl _) rebuilds
  have withoutNoOps := covered.safe (extends_dropNoOps (fun _ syncs => Survives.refl syncs) output)
  have safe : Safe context (Exempt context.platform) unit false output ⊥ := by
    rw [(follows_dropNoOps output false _).2] at withoutNoOps
    exact withoutNoOps.anti bot_le
  exact safe.hazards member

theorem Hazards.ordered {exempt : Pipeline → Prop} {run : List Step}
    (hazards : Hazards context exempt run) (scalar : exempt .s) {first second : Nat}
    {firstOp secondOp : Operation} (before : first < second)
    (firstAt : run[first]? = some (.event (.operation firstOp)))
    (secondAt : run[second]? = some (.event (.operation secondOp)))
    (conflict : Conflicts context firstOp secondOp) (gapless : Gapless run first second) :
    Ordered context exempt run first second := by
  have stands {position : Nat} {op : Operation}
      (found : run[position]? = some (.event (.operation op))) :
      (run.map standIn)[position]? = some (.operation op) := by
    rw [List.getElem?_map, found]
    rfl
  exact ordered_of_standIn scalar gapless
    (hazards first second firstOp secondOp before (stands firstAt) (stands secondAt) conflict)

end Pass

end TilelangAscend.ScopedSync
