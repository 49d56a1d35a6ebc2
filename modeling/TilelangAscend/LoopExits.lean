import TilelangAscend.ScopeHazards

namespace TilelangAscend.ScopedSync

open SyncInsert
open TraceBehaviours

/-!
# Hazards across loop exits

The pass visits the body of a `While` once, and drops what a branch has done before
`tl.loop_break`.  Two conflicting operations on both sides of a back edge or of an early exit are
ordered nevertheless if the run passes a place between them where the pass puts a full barrier,
or if the second operation has also run before the back edge.
-/

/-! ## Fences of a run -/

/-- What has followed the last fence of a run. -/
inductive FenceState where
  /-- A full barrier, or there was no fence. -/
  | settled
  /-- No full barrier yet, and no operation either. -/
  | pending
  /-- An operation without a full barrier before it. -/
  | missed
  deriving Repr, DecidableEq

/-- The state after one more step. -/
def FenceState.step : FenceState → Step → FenceState
  | .missed, _ => .missed
  | _, .passes .fence => .pending
  | _, .event .barrierAll => .settled
  | .pending, .event (.operation _) => .missed
  | state, _ => state

/-- The state after some more steps. -/
def FenceState.steps (state : FenceState) (steps : List Step) : FenceState :=
  steps.foldl FenceState.step state

/-- The state after a run. -/
def fenceState (run : List Step) : FenceState :=
  FenceState.settled.steps run

namespace FenceState

theorem steps_missed (steps : List Step) : FenceState.missed.steps steps = .missed := by
  induction steps with
  | nil => rfl
  | cons _ _ ih => exact ih

theorem barrierAll_of_pending {steps : List Step}
    (kept : FenceState.pending.steps steps ≠ .missed) {position : Nat} {op : Operation}
    (found : steps[position]? = some (.event (.operation op))) :
    .event .barrierAll ∈ steps.take position := by
  induction steps generalizing position with
  | nil => cases found
  | cons step rest ih =>
    have noOperation {other : Operation} (isOperation : step = .event (.operation other)) :
        False := by
      subst isOperation
      exact kept (steps_missed rest)
    cases position with
    | zero => exact (noOperation (Option.some.inj found)).elim
    | succ position =>
      rw [List.take_succ_cons]
      cases step with
      | passes place =>
        apply List.mem_cons_of_mem
        apply ih ?_ found
        cases place <;> exact kept
      | event event =>
        cases event with
        | operation other => exact (noOperation rfl).elim
        | barrierAll => exact List.mem_cons_self
        | _ => exact List.mem_cons_of_mem _ (ih kept found)

theorem steps_syncs_settled (syncs : List SyncUnit) :
    FenceState.settled.steps (syncSteps syncs) = .settled := by
  induction syncs with
  | nil => rfl
  | cons unit rest ih => cases unit <;> exact ih

theorem steps_syncs_pending {syncs : List SyncUnit} (member : .barrierAll ∈ syncs) :
    FenceState.pending.steps (syncSteps syncs) = .settled := by
  induction syncs with
  | nil => cases member
  | cons unit rest ih =>
    cases unit with
    | barrierAll => exact steps_syncs_settled rest
    | barrier => exact ih (by simpa using member)
    | eventPair => exact ih (by simpa using member)

end FenceState

theorem fenceState_append (first second : List Step) :
    fenceState (first ++ second) = (fenceState first).steps second :=
  List.foldl_append

theorem orderedStep_of_fence {context : PassContext} {exempt : Pipeline → Prop}
    {run : List Step} (kept : fenceState run ≠ .missed) {first second : Nat}
    {firstOp secondOp : Operation} (before : first < second)
    (firstAt : run[first]? = some (.event (.operation firstOp)))
    (secondAt : run[second]? = some (.event (.operation secondOp)))
    (conflict : Conflicts context firstOp secondOp)
    (passes : PassesBetween run .fence first second) :
    OrderedStep context exempt run first second := by
  refine ⟨before, firstOp, secondOp, firstAt, secondAt, conflict, .barrierAll ?_⟩
  obtain ⟨position, after, ends, fenceAt⟩ := passes
  have inside := (List.getElem?_eq_some_iff.mp fenceAt).1
  have split : run = run.take position ++ .passes .fence :: run.drop (position + 1) := by
    conv_lhs => rw [← List.take_append_drop position run]
    rw [List.drop_eq_getElem_cons inside]
    rw [List.getElem?_eq_getElem inside] at fenceAt
    rw [Option.some.inj fenceAt]
  have pending : FenceState.pending.steps (run.drop (position + 1)) ≠ .missed := by
    intro missed
    rw [split, fenceState_append] at kept
    apply kept
    cases fenceState (run.take position) with
    | missed => exact FenceState.steps_missed _
    | _ => exact missed
  have secondFound : (run.drop (position + 1))[second - position - 1]? =
      some (.event (.operation secondOp)) := by
    rw [List.getElem?_drop]
    rwa [show position + 1 + (second - position - 1) = second by omega]
  have inBetween : .event .barrierAll ∈ stepsBetween run position second :=
    FenceState.barrierAll_of_pending pending secondFound
  obtain ⟨place, afterFence, beforeSecond, found⟩ := position_of_mem_stepsBetween inBetween
  exact List.mem_filterMap.mpr
    ⟨.event .barrierAll, mem_stepsBetween (after.trans afterFence) beforeSecond found, rfl⟩

/-! ## Fenced sequences -/

/-- If one list of units has a full barrier, so does the other one. -/
def Fences (needed given : List SyncUnit) : Prop :=
  .barrierAll ∈ needed → .barrierAll ∈ given

/--
Full barriers stand before and behind every branch, before `LetStmt` values and operations that
touch a slice, and before stores inside a `For`.
-/
def Fenced
    (context : PassContext) :
    Bool → RebuiltBody SyncUnit → Prop
  | _, .stop _ => True
  | inFor, .operation syncs op rest =>
    (fencedOperation context inFor op = true → .barrierAll ∈ syncs) ∧ Fenced context inFor rest
  | inFor, .noOp _ rest => Fenced context inFor rest
  | inFor, .wrap syncs wrapper body rest =>
    Fences wrapper.before syncs ∧ Fences wrapper.after rest.leading ∧
      Fenced context inFor body ∧ Fenced context inFor rest
  | inFor, .branch syncs kind first second rest =>
    Fences kind.around syncs ∧ Fences kind.around rest.leading ∧
      Fenced context inFor first ∧ Fenced context inFor second ∧ Fenced context inFor rest
  | inFor, .forLoop _ _ body rest => Fenced context true body ∧ Fenced context inFor rest
  | _, .unrolledLoop _ marker _ _ _ => marker.elim

section FencedSequences

variable {context : PassContext} {inFor : Bool} {body larger block : RebuiltBody SyncUnit}

theorem fences_of_survives {syncs others : List SyncUnit}
    (survives : Survives syncs others) : Fences syncs others := by
  intro member
  induction survives with
  | nil => cases member
  | @cons unit other _ _ same _ ih =>
    rcases List.mem_cons.mp member with isHead | inRest
    · subst isHead
      cases other with
      | barrierAll => exact List.mem_cons_self
      | _ => cases same
    · exact List.mem_cons_of_mem _ (ih inRest)
  | cons_right _ ih => exact List.mem_cons_of_mem _ (ih member)

theorem Fences.trans {first second third : List SyncUnit} (fences : Fences first second)
    (fencesNext : Fences second third) : Fences first third :=
  fun member => fencesNext (fences member)

theorem Fenced.prepend (fenced : Fenced context inFor body) (emitted : List SyncUnit) :
    Fenced context inFor (body.prepend emitted) := by
  have behind {needed syncs : List SyncUnit} (fences : Fences needed syncs) :
      Fences needed (emitted ++ syncs) :=
    fun member => List.mem_append_right _ (fences member)
  cases body with
  | stop => trivial
  | operation syncs op rest =>
    exact ⟨fun isFenced => List.mem_append_right _ (fenced.1 isFenced), fenced.2⟩
  | noOp => exact fenced
  | wrap => exact ⟨behind fenced.1, fenced.2⟩
  | branch => exact ⟨behind fenced.1, fenced.2⟩
  | forLoop => exact fenced
  | unrolledLoop _ marker => exact marker.elim

theorem fences_leading_prepend (emitted : List SyncUnit) (body : RebuiltBody SyncUnit) :
    Fences emitted (body.prepend emitted).leading := by
  intro member
  cases body <;> exact List.mem_append_left _ member

theorem Extends.fences_leading (extended : Extends larger block) :
    Fences block.leading larger.leading := by
  cases extended with
  | noOp inner => exact fences_of_survives inner.survives_leading
  | stop survives => exact fences_of_survives survives
  | operation survives => exact fences_of_survives survives
  | wrap survives => exact fences_of_survives survives
  | branch survives => exact fences_of_survives survives
  | forLoop survives => exact fences_of_survives survives

theorem Extends.fenced (extended : Extends larger block)
    (fenced : Fenced context inFor block) : Fenced context inFor larger := by
  induction extended generalizing inFor with
  | stop => trivial
  | operation survives _ restFenced =>
    exact ⟨fun isFenced => fences_of_survives survives (fenced.1 isFenced), restFenced fenced.2⟩
  | @noOp _ _ rest _ ih =>
    have inRest : Fenced context inFor rest := fenced
    exact ih (inRest.prepend _)
  | wrap survives _ rest bodyFenced restFenced =>
    obtain ⟨before, after, inBody, inRest⟩ := fenced
    exact ⟨before.trans (fences_of_survives survives), after.trans rest.fences_leading,
      bodyFenced inBody, restFenced inRest⟩
  | branch survives _ _ rest firstFenced secondFenced restFenced =>
    obtain ⟨before, after, inFirst, inSecond, inRest⟩ := fenced
    exact ⟨before.trans (fences_of_survives survives), after.trans rest.fences_leading,
      firstFenced inFirst, secondFenced inSecond, restFenced inRest⟩
  | forLoop _ _ _ bodyFenced restFenced => exact ⟨bodyFenced fenced.1, restFenced fenced.2⟩

theorem Fenced.flattenStmts (fenced : Fenced context inFor body) :
    Fenced context true (flattenStmts unitMerge body) := by
  induction body generalizing inFor with
  | stop => trivial
  | operation syncs op rest restFenced =>
    refine ⟨?_, restFenced fenced.2⟩
    intro isFenced
    cases op with
    | call callee args =>
      apply fenced.1
      simpa [fencedOperation, isStore] using isFenced
    | store =>
      simp only [flattenSyncs]
      split
      · rename_i last
        exact List.mem_of_getLast? last
      · exact List.mem_append_right _ List.mem_cons_self
  | noOp syncs rest restFenced => exact (restFenced fenced).prepend syncs
  | wrap syncs wrapper body rest bodyFenced restFenced =>
    obtain ⟨before, after, inBody, inRest⟩ := fenced
    exact ⟨before, after.trans (extends_flattenStmts rest).fences_leading, bodyFenced inBody,
      restFenced inRest⟩
  | branch syncs kind first second rest firstFenced secondFenced restFenced =>
    obtain ⟨before, after, inFirst, inSecond, inRest⟩ := fenced
    exact ⟨before, after.trans (extends_flattenStmts rest).fences_leading,
      firstFenced inFirst, secondFenced inSecond, restFenced inRest⟩
  | forLoop syncs header body rest bodyFenced restFenced =>
    exact ⟨bodyFenced fenced.1, restFenced fenced.2⟩
  | unrolledLoop _ marker => exact marker.elim

theorem barrierAll_mem_insertAll {counter : Nat} {required : List SyncType}
    (member : .barrierAll ∈ required) : .barrierAll ∈ (insertAll context counter required).1 := by
  induction required generalizing counter with
  | nil => cases member
  | cons syncType rest ih =>
    rcases List.mem_cons.mp member with isHead | inRest
    · subst isHead
      exact List.mem_cons_self
    · exact List.mem_append_right _ (ih inRest)

theorem barrierAll_mem_visitOperation {state : PassState} {op : Operation}
    (touchesSlice : (op.touches context.table).any Touch.isSliced = true) :
    .barrierAll ∈ (visitOperation context state op).1 := by
  obtain ⟨touch, touched, isSliced⟩ := List.any_eq_true.mp touchesSlice
  apply barrierAll_mem_insertAll
  apply mem_optimizeSyncRequirements.mpr
  apply List.mem_flatMap.mpr
  refine ⟨_, List.mem_map_of_mem touched, List.mem_append_left _ ?_⟩
  have freshSliced :
      (freshAccess context (op.pipeline context.table) touch).isSliced = true := isSliced
  rw [if_pos freshSliced]
  exact List.mem_singleton_self _

theorem visitStmt_fenced {loopInfos : List LoopInfo} {source : SourceBody}
    {loopCounter currentDepth : Nat} {state : ScopedState}
    (rebuilds :
      loopRebuilder unitMerge loopInfos
        (visitStmt context state (forLoopUnroller loopCounter currentDepth source).1).1 =
          some block) :
    Fenced context false block := by
  induction source generalizing loopCounter currentDepth state block with
  | stop =>
    cases rebuilds
    trivial
  | operation _ op _ restFenced =>
    obtain ⟨rest, restRebuilds, isBlock⟩ := Option.bind_eq_some_iff.mp rebuilds
    cases isBlock
    refine ⟨?_, restFenced restRebuilds⟩
    intro isFenced
    apply barrierAll_mem_visitOperation
    simpa [fencedOperation] using isFenced
  | noOp _ _ restFenced =>
    obtain ⟨rest, restRebuilds, isBlock⟩ := Option.bind_eq_some_iff.mp rebuilds
    cases isBlock
    have inRest := restFenced restRebuilds
    exact inRest
  | wrap _ wrapper _ _ bodyFenced restFenced =>
    obtain ⟨body, bodyRebuilds, rebuilds⟩ := Option.bind_eq_some_iff.mp rebuilds
    obtain ⟨prepended, restRebuilds, isBlock⟩ := Option.bind_eq_some_iff.mp rebuilds
    cases isBlock
    rw [loopRebuilder_prepend, Option.map_eq_some_iff] at restRebuilds
    obtain ⟨rest, restRebuilds, rfl⟩ := restRebuilds
    exact ⟨fun member => member, fences_leading_prepend _ rest, bodyFenced bodyRebuilds,
      (restFenced restRebuilds).prepend _⟩
  | branch _ kind _ _ _ firstFenced secondFenced restFenced =>
    obtain ⟨first, firstRebuilds, rebuilds⟩ := Option.bind_eq_some_iff.mp rebuilds
    obtain ⟨second, secondRebuilds, rebuilds⟩ := Option.bind_eq_some_iff.mp rebuilds
    obtain ⟨prepended, restRebuilds, isBlock⟩ := Option.bind_eq_some_iff.mp rebuilds
    cases isBlock
    rw [loopRebuilder_prepend, Option.map_eq_some_iff] at restRebuilds
    obtain ⟨rest, restRebuilds, rfl⟩ := restRebuilds
    exact ⟨fun member => member, fences_leading_prepend _ rest, firstFenced firstRebuilds,
      secondFenced secondRebuilds, (restFenced restRebuilds).prepend _⟩
  | forLoop _ header _ _ bodyFenced restFenced =>
    simp only [forLoopUnroller, visitStmt] at rebuilds
    split at rebuilds
    · obtain ⟨rest, restRebuilds, isBlock⟩ := Option.bind_eq_some_iff.mp rebuilds
      cases isBlock
      have inRest := restFenced restRebuilds
      exact inRest
    · obtain ⟨info, found, rebuilds⟩ := Option.bind_eq_some_iff.mp rebuilds
      obtain ⟨first, firstRebuilds, rebuilds⟩ := Option.bind_eq_some_iff.mp rebuilds
      obtain ⟨second, secondRebuilds, rebuilds⟩ := Option.bind_eq_some_iff.mp rebuilds
      obtain ⟨merged, merges, rebuilds⟩ := Option.bind_eq_some_iff.mp rebuilds
      obtain ⟨rest, restRebuilds, isBlock⟩ := Option.bind_eq_some_iff.mp rebuilds
      cases isBlock
      exact ⟨(extends_merged merges).1.fenced (bodyFenced firstRebuilds).flattenStmts,
        restFenced restRebuilds⟩
  | unrolledLoop _ marker => exact marker.elim

end FencedSequences

/-! ## Runs of fenced sequences -/

/-- A full barrier has followed every fence of a run. -/
def Settled (run : List Step) : Prop :=
  fenceState run = .settled

/-- A run may go on with some synchronization. -/
def Ready (syncs : List SyncUnit) (run : List Step) : Prop :=
  Settled run ∨ fenceState run = .pending ∧ .barrierAll ∈ syncs

section FencedRuns

variable {context : PassContext} {unit : ExecutionUnit} {inside inFor : Bool} {run : List Step}
  {syncs : List SyncUnit}

theorem Ready.fencedSyncs {condition : Bool} (ready : Ready syncs run)
    (fences : condition = true → .barrierAll ∈ syncs) :
    Settled (run ++ (fenceIf condition ++ syncSteps syncs)) := by
  have afterFence (member : .barrierAll ∈ syncs) (kept : fenceState run ≠ .missed) :
      Settled (run ++ ([.passes .fence] ++ syncSteps syncs)) := by
    have pending : fenceState (run ++ [.passes .fence]) = .pending := by
      rw [fenceState_append]
      cases state : fenceState run with
      | missed => exact absurd state kept
      | _ => rfl
    rw [← List.append_assoc, Settled, fenceState_append, pending]
    exact FenceState.steps_syncs_pending member
  cases condition with
  | true =>
    apply afterFence (fences rfl)
    rcases ready with settled | ⟨pending, _⟩
    · rw [settled]
      decide
    · rw [pending]
      decide
  | false =>
    change Settled (run ++ syncSteps syncs)
    rw [Settled, fenceState_append]
    rcases ready with settled | ⟨pending, member⟩
    · rw [settled]
      exact FenceState.steps_syncs_settled syncs
    · rw [pending]
      exact FenceState.steps_syncs_pending member

theorem Ready.settled (ready : Ready syncs run) : Settled (run ++ syncSteps syncs) := by
  have noFence : false = true → .barrierAll ∈ syncs := nofun
  exact ready.fencedSyncs noFence

theorem Settled.step (settled : Settled run) {step : Step}
    (keeps : FenceState.settled.step step = .settled) : Settled (run ++ [step]) := by
  rw [Settled, fenceState_append, settled]
  exact keeps

theorem Settled.fence (settled : Settled run) (member : .barrierAll ∈ syncs) :
    Ready syncs (run ++ [.passes .fence]) := by
  refine Or.inr ⟨?_, member⟩
  rw [fenceState_append, settled]
  rfl

/-- A behaviour that settles every run that enters it settled. -/
abbrev Settles (runs : Behaviour Step) (post : List Step → Prop) : Prop :=
  Triple Settled runs post Settled

theorem settles_nothing : Settles (emit []) Settled :=
  Triple.emit fun run settled => by rwa [List.append_nil]

theorem settles_place {place : Place} (isGap : place.isGap = true) :
    Settles (emit [.passes place]) Settled :=
  Triple.emit fun run settled => settled.step (by cases place <;> first | rfl | cases isGap)

theorem settles_repeated {between : List Step} {body : Behaviour Step}
    (settles : Settles body Settled) (separated : ∀ run, Settled run → Settled (run ++ between)) :
    Settles (catching [.passes .loopExit] (repeated between body)) Settled :=
  Triple.catching (Triple.repeated settles separated settles) fun _ settled => settled.step rfl

theorem settles_fence {body : Behaviour Step} (settles : Settles body Settled)
    (member : .barrierAll ∈ syncs) :
    Settles (andThen body (emit [.passes .fence])) (Ready syncs) :=
  Triple.andThen settles (Triple.emit fun _ settled => settled.fence member)

theorem Settles.ready {runs : Behaviour Step} (settles : Settles runs Settled) :
    Settles runs (Ready syncs) :=
  Triple.consequence settles (fun _ => id) (fun _ => Or.inl) (fun _ => id)

theorem Fenced.leads {body : RebuiltBody SyncUnit} (fenced : Fenced context inFor body) :
    Triple (Ready body.leading) (behaviour context unit inside inFor body) Settled Settled := by
  have settled {inFor inside : Bool} {body : RebuiltBody SyncUnit}
      (leads : Triple (Ready body.leading) (behaviour context unit inside inFor body) Settled
        Settled) :
      Settles (behaviour context unit inside inFor body) Settled :=
    Triple.consequence leads (fun _ => Or.inl) (fun _ => id) (fun _ => id)
  induction body generalizing inside inFor with
  | stop syncs => exact Triple.emit fun _ => Ready.settled
  | operation syncs op rest restLeads =>
    have kept {run : List Step} (ready : Ready syncs run) :
        Settled (run ++ operationSteps context inFor syncs op) := by
      rw [operationSteps, ← List.append_assoc]
      exact (ready.fencedSyncs fenced.1).step rfl
    unfold behaviour
    split
    · exact Triple.leave fun _ => kept
    · exact Triple.andThen (Triple.emit fun _ => kept) (settled (restLeads fenced.2))
  | noOp syncs rest restLeads =>
    have inRest : Fenced context inFor rest := fenced
    exact Triple.andThen (Triple.emit fun _ => Ready.settled) (settled (restLeads inRest))
  | wrap syncs wrapper body rest bodyLeads restLeads =>
    obtain ⟨before, after, inBody, inRest⟩ := fenced
    have entered : wrapper.isFenced = true → .barrierAll ∈ syncs := by
      intro isFenced
      apply before
      cases wrapper with
      | letStmt var value =>
        have readsSlice : (analyzeExprAccesses value).any ExprAccess.isSliced = true := isFenced
        rw [Wrapper.before, letBarrier, if_pos readsSlice]
        exact List.mem_cons_self
      | ifThen => exact List.mem_cons_self
      | _ => cases isFenced
    refine Triple.andThen (Triple.emit fun _ ready => Ready.fencedSyncs ready entered)
      (Triple.andThen ?_ (restLeads inRest))
    have inner (isInside : Bool) : Settles (behaviour context unit isInside inFor body) Settled :=
      settled (bodyLeads inBody)
    cases wrapper with
    | resourceScope owner =>
      apply Settles.ready
      rw [wrapperRuns]
      split
      · split
        · exact inner true
        · exact Triple.andThen (settles_place rfl) (Triple.andThen (inner true) (settles_place rfl))
      · exact settles_nothing
    | ifThen condition =>
      exact settles_fence (Triple.union settles_nothing (inner inside)) (after List.mem_cons_self)
    | whileLoop condition =>
      apply Settles.ready
      exact Triple.union (settles_place rfl)
        (settles_repeated (inner inside) fun _ settled => settled.step rfl)
    | _ => exact Settles.ready (inner inside)
  | branch syncs kind first second rest firstLeads secondLeads restLeads =>
    obtain ⟨before, after, inFirst, inSecond, inRest⟩ := fenced
    have entered : kind.isFenced = true → .barrierAll ∈ syncs := by
      intro isFenced
      apply before
      cases kind with
      | ifThenElse => exact List.mem_cons_self
      | blockInit => cases isFenced
    refine Triple.andThen (Triple.emit fun _ ready => Ready.fencedSyncs ready entered)
      (Triple.andThen ?_ (restLeads inRest))
    have left : Settles (behaviour context unit inside inFor first) Settled :=
      settled (firstLeads inFirst)
    have right : Settles (behaviour context unit inside inFor second) Settled :=
      settled (secondLeads inSecond)
    cases kind with
    | ifThenElse condition =>
      exact settles_fence (Triple.union left right) (after List.mem_cons_self)
    | blockInit fields => exact Settles.ready (Triple.andThen left right)
  | forLoop syncs header body rest bodyLeads restLeads =>
    refine Triple.andThen (Triple.emit fun _ => Ready.settled)
      (Triple.andThen ?_ (settled (restLeads fenced.2)))
    have inner : Settles (behaviour context unit inside true body) Settled :=
      settled (bodyLeads fenced.1)
    have rounds := settles_repeated inner fun run settled => by rwa [List.append_nil]
    rw [forRuns]
    split
    · rw [Set.empty_union]
      exact rounds
    · exact Triple.union settles_nothing rounds
  | unrolledLoop _ marker => exact marker.elim

end FencedRuns

/-! ## Operations that have run before -/

section Later

variable {context : PassContext} {exempt : Pipeline → Prop} {run : List Step}
  {first earlier second : Nat}

/-- Later events keep an order. -/
theorem directlyOrdered_append {segment : List Event} {source target : Pipeline}
    (ordered : DirectlyOrdered exempt segment source target) (later : List Event) :
    DirectlyOrdered exempt (segment ++ later) source target := by
  cases ordered with
  | barrierAll member => exact .barrierAll (List.mem_append_left _ member)
  | exempt isExempt => exact .exempt isExempt
  | barrier member => exact .barrier (List.mem_append_left _ member)
  | handoff distinct handoff => exact .handoff distinct (handoff.append later)

theorem stepsBetween_later (upTo : earlier ≤ second) :
    ∃ later, stepsBetween run first second = stepsBetween run first earlier ++ later := by
  have total : second - first - 1 =
      (earlier - first - 1) + (second - first - 1 - (earlier - first - 1)) := by omega
  unfold stepsBetween
  rw [total, List.take_add]
  exact ⟨_, rfl⟩

theorem orderedStep_later {op : Operation} (step : OrderedStep context exempt run first earlier)
    (earlierAt : run[earlier]? = some (.event (.operation op)))
    (secondAt : run[second]? = some (.event (.operation op))) (upTo : earlier ≤ second) :
    OrderedStep context exempt run first second := by
  obtain ⟨before, firstOp, other, firstAt, foundEarlier, conflict, ordered⟩ := step
  cases earlierAt.symm.trans foundEarlier
  refine ⟨before.trans_le upTo, firstOp, op, firstAt, secondAt, conflict, ?_⟩
  obtain ⟨later, isLonger⟩ := stepsBetween_later upTo
  rw [isLonger, List.filterMap_append]
  exact directlyOrdered_append ordered _

/-- What is ordered before an operation is ordered before its later runs. -/
theorem ordered_later {op : Operation} (ordered : Ordered context exempt run first earlier)
    (earlierAt : run[earlier]? = some (.event (.operation op)))
    (secondAt : run[second]? = some (.event (.operation op))) (upTo : earlier ≤ second) :
    Ordered context exempt run first second := by
  cases ordered with
  | single step => exact .single (orderedStep_later step earlierAt secondAt upTo)
  | tail chain step => exact chain.tail (orderedStep_later step earlierAt secondAt upTo)

end Later

/-! ## The whole pass -/

/-- A run does an operation after a position and before it passes a gap. -/
def RunsBeforeGap (run : List Step) (first second : Nat) (op : Operation) : Prop :=
  ∃ earlier,
    first < earlier ∧ earlier ≤ second ∧
      run[earlier]? = some (.event (.operation op)) ∧
      Gapless run first earlier

/--
Also across back edges of a `While` and early exits, the pass orders two conflicting operations
if the run passes a fence between them, or if the second one has run before it passes a gap.
-/
theorem substitute_ordersLoopExits
    {context : PassContext}
    {unit : ExecutionUnit}
    {body : SourceBody}
    (known : context.plan.Known)
    (mapped : ConflictsMapped context (unitOperations unit body))
    (loopCounter : Nat) :
    ∃ output,
      substituteUnits context loopCounter body = some output ∧
        substitute context loopCounter body = some output.emitted ∧
        ∀ run exit, (run, exit) ∈ behaviour context unit false false output →
          ∀ first second firstOp secondOp, first < second →
            run[first]? = some (.event (.operation firstOp)) →
            run[second]? = some (.event (.operation secondOp)) →
            Conflicts context firstOp secondOp →
            PassesBetween run .fence first second ∨ RunsBeforeGap run first second secondOp →
            Ordered context (Exempt context.platform) run first second := by
  obtain ⟨output, rebuilds, ordersHazards⟩ := substituteUnits_hazards known mapped loopCounter
  refine ⟨output, rebuilds, ?_, ?_⟩
  · rw [substitute_eq_emitted, rebuilds, Option.map_some]
  · intro run exit member first second firstOp secondOp before firstAt secondAt conflict covered
    rcases covered with passesFence | ⟨earlier, after, upTo, earlierAt, gapless⟩
    · have settled : Settled run := by
        have fenced : Fenced context false output := visitStmt_fenced rebuilds
        have reached := fenced.leads [] (Or.inl rfl) run exit member
        cases exit <;> exact reached
      have kept : fenceState run ≠ .missed := by
        rw [settled]
        decide
      exact .single (orderedStep_of_fence kept before firstAt secondAt conflict passesFence)
    · have ordered := (ordersHazards run exit member).ordered (Or.inl rfl) after firstAt earlierAt
        conflict gapless
      exact ordered_later ordered earlierAt secondAt upTo

/-- A `While` whose body loads a tile before it computes on it. -/
def loadExpWhile : SourceBody :=
  .wrap [] (.whileLoop (.var "running"))
    (.operation [] loadTile (.operation [] expTile (.stop []))) (.stop [])

/-- However often the `While` runs, what its operations have done before is ordered. -/
theorem loadExpWhile_ordered :
    ∃ output,
      substituteUnits (vectorContext .a2) 0 loadExpWhile = some output ∧
        substitute (vectorContext .a2) 0 loadExpWhile = some output.emitted ∧
        ∀ run exit, (run, exit) ∈ behaviour (vectorContext .a2) .vector false false output →
          ∀ first second firstOp secondOp, first < second →
            run[first]? = some (.event (.operation firstOp)) →
            run[second]? = some (.event (.operation secondOp)) →
            Conflicts (vectorContext .a2) firstOp secondOp →
            PassesBetween run .fence first second ∨ RunsBeforeGap run first second secondOp →
            Ordered (vectorContext .a2) (Exempt .a2) run first second :=
  substitute_ordersLoopExits vectorPlan_known (tiles_conflictsMapped (by decide)) 0

/-! ## Loops that are left early -/

/-- A `While` whose body computes on a tile before it loads the next one. -/
def expLoadWhile : SourceBody :=
  .wrap [] (.whileLoop (.var "running"))
    (.operation [] expTile (.operation [] loadTile (.stop []))) (.stop [])

/-- A `While` that loads a tile before it is left, and a computation on the tile behind it. -/
def loadBreakExp : SourceBody :=
  .wrap [] (.whileLoop (.var "running"))
    (.wrap [] (.ifThen (.var "found"))
      (.operation [] loadTile (.operation [] loopBreak (.stop []))) (.stop []))
    (.operation [] expTile (.stop []))

/-- Steps of one iteration that computes and loads; the load waits for the computation. -/
def expLoadSteps : List Step :=
  .event (.operation expTile) ::
    (syncSteps [.eventPair .v .mte2 1] ++ [.event (.operation loadTile)])

/-- Two iterations. -/
def expLoadWhileRun : List Step :=
  expLoadSteps ++ [.passes .backEdge] ++ expLoadSteps

/-- The first iteration leaves the loop. -/
def loadBreakExpRun : List Step :=
  [.passes .fence, .event .barrierAll, .event (.operation loadTile),
    .event (.operation loopBreak), .passes .loopExit, .event (.operation expTile)]

theorem expLoadWhileRun_member :
    ∃ output,
      substituteUnits (vectorContext .a2) 0 expLoadWhile = some output ∧
        (expLoadWhileRun, .normal) ∈ behaviour (vectorContext .a2) .vector false false output := by
  refine ⟨.wrap [] (.whileLoop (.var "running"))
    (.operation [] expTile (.operation [.eventPair .v .mte2 1] loadTile (.stop []))) (.stop []),
    by decide +kernel, ?_⟩
  have round : (expLoadSteps, .normal) ∈ behaviour (vectorContext .a2) .vector false false
      (.operation [] expTile (.operation [.eventPair .v .mte2 1] loadTile (.stop []))) :=
    behaviour_operation (by decide) (by decide)
      (behaviour_operation (by decide) (by decide) behaviour_stop)
  have loop : (expLoadWhileRun, .normal) ∈ whileRuns (behaviour (vectorContext .a2) .vector false
      false (.operation [] expTile (.operation [.eventPair .v .mte2 1] loadTile (.stop [])))) :=
    Or.inr ⟨rfl, Or.inl (.again round (.last round))⟩
  exact mem_emit_andThen [] (mem_andThen loop behaviour_stop)

theorem loadBreakExpRun_member :
    ∃ output,
      substituteUnits (vectorContext .a2) 0 loadBreakExp = some output ∧
        (loadBreakExpRun, .normal) ∈ behaviour (vectorContext .a2) .vector false false output := by
  refine ⟨.wrap [] (.whileLoop (.var "running"))
    (.wrap [.barrierAll] (.ifThen (.var "found"))
      (.operation [] loadTile (.operation [] loopBreak (.stop []))) (.stop [.barrierAll]))
    (.operation [] expTile (.stop [])), by decide +kernel, ?_⟩
  have breaks : ([.event (.operation loopBreak)], .broken) ∈
      behaviour (vectorContext .a2) .vector false false (.operation [] loopBreak (.stop [])) := by
    unfold behaviour
    rw [if_pos rfl]
    rfl
  have branch : ([.passes .fence, .event .barrierAll, .event (.operation loadTile),
      .event (.operation loopBreak)], .broken) ∈
        behaviour (vectorContext .a2) .vector false false
          (.wrap [.barrierAll] (.ifThen (.var "found"))
            (.operation [] loadTile (.operation [] loopBreak (.stop [])))
            (.stop [.barrierAll])) := by
    have taken : ([.event (.operation loadTile), .event (.operation loopBreak)], .broken) ∈
        emit [] ∪ behaviour (vectorContext .a2) .vector false false
          (.operation [] loadTile (.operation [] loopBreak (.stop []))) :=
      Or.inr (behaviour_operation (by decide) (by decide) breaks)
    exact mem_emit_andThen _ (mem_andThen_broken (mem_andThen_broken taken))
  have computes : ([.event (.operation expTile)], .normal) ∈
      behaviour (vectorContext .a2) .vector false false (.operation [] expTile (.stop [])) :=
    behaviour_operation (by decide) (by decide) behaviour_stop
  have left : ([.passes .fence, .event .barrierAll, .event (.operation loadTile),
      .event (.operation loopBreak), .passes .loopExit], .normal) ∈
        whileRuns (behaviour (vectorContext .a2) .vector false false
          (.wrap [.barrierAll] (.ifThen (.var "found"))
            (.operation [] loadTile (.operation [] loopBreak (.stop [])))
            (.stop [.barrierAll]))) :=
    Or.inr ⟨rfl, Or.inr ⟨_, .last branch, rfl⟩⟩
  exact mem_emit_andThen [] (mem_andThen left computes)

/--
Nothing orders the computation of the second iteration after the load of the first one, and
nothing orders the computation behind a loop after the load before `tl.loop_break`.
-/
theorem loopExits_unordered :
    UnorderedPair .a2 expLoadWhile expLoadWhileRun 3 5 loadTile expTile ∧
      PassesBetween expLoadWhileRun .backEdge 3 5 ∧
      UnorderedPair .a2 loadBreakExp loadBreakExpRun 2 5 loadTile expTile ∧
      PassesBetween loadBreakExpRun .loopExit 2 5 := by
  refine ⟨⟨expLoadWhileRun_member, by decide, rfl, rfl, loadTile_conflicts, ?_⟩,
    ⟨4, by decide, by decide, rfl⟩,
    ⟨loadBreakExpRun_member, by decide, rfl, rfl, loadTile_conflicts, ?_⟩,
    ⟨4, by decide, by decide, rfl⟩⟩
  · intro ordered
    have quiet : ∀ step ∈ stepsBetween expLoadWhileRun 3 5, step.IsQuiet vectorTable := by
      simp [expLoadWhileRun, expLoadSteps, stepsBetween, syncSteps, syncEvents, SyncUnit.events,
        Step.IsQuiet]
    exact absurd (exempt_of_quiet quiet rfl rfl ordered).1 (by decide)
  · intro ordered
    have quiet : ∀ step ∈ stepsBetween loadBreakExpRun 2 5, step.IsQuiet vectorTable := by
      have touchesNothing : loopBreak.touches vectorTable = [] := by decide
      simp [loadBreakExpRun, stepsBetween, Step.IsQuiet, touchesNothing]
    exact absurd (exempt_of_quiet quiet rfl rfl ordered).1 (by decide)

end TilelangAscend.ScopedSync
