import TilelangAscend.ScopedRuns
import TilelangAscend.SyncInsertSound

namespace TilelangAscend.ScopedSync

open AbsorbingTransfer
open SyncInsert
open TraceBehaviours

/-!
# Safe programs with resource scopes

The outstanding accesses of one unit after a rebuilt sequence, and what makes the sequence safe.
A unit outside its blocks starts every block with nothing outstanding, since the block lies
behind a gap.  After a safe sequence the accesses of every run are accounted for.
-/

/-! ## Following a sequence -/

/-- The outstanding accesses after a statement with one body. -/
noncomputable def transferWrapper
    (unit : ExecutionUnit)
    (inside : Bool)
    (body : Bool → OutstandingSet → OutstandingSet)
    (wrapper : Wrapper)
    (state : OutstandingSet) :
    OutstandingSet :=
  match wrapper with
  | .resourceScope owner =>
    if owner = unit then if inside then body true state else ⊥ else state
  | .ifThen _ => state ⊔ body inside state
  | _ => body inside state

/-- The outstanding accesses after a statement with two bodies. -/
def transferBranch (first second : OutstandingSet → OutstandingSet) (kind : Branch)
    (state : OutstandingSet) : OutstandingSet :=
  match kind with
  | .ifThenElse _ => first state ⊔ second state
  | .blockInit _ => second (first state)

/-- The outstanding accesses of a unit after a sequence, inside or outside its blocks. -/
noncomputable def transfer
    (context : PassContext)
    (unit : ExecutionUnit)
    (inside : Bool) :
    RebuiltBody SyncUnit → OutstandingSet → OutstandingSet
  | .stop syncs, state => transferSyncs syncs state
  | .operation syncs op rest, state =>
    transfer context unit inside rest (recordOperation context op (transferSyncs syncs state))
  | .noOp syncs rest, state => transfer context unit inside rest (transferSyncs syncs state)
  | .wrap syncs wrapper body rest, state =>
    transfer context unit inside rest
      (transferWrapper unit inside (fun isInside => transfer context unit isInside body) wrapper
        (transferSyncs syncs state))
  | .branch syncs kind first second rest, state =>
    transfer context unit inside rest
      (transferBranch (transfer context unit inside first) (transfer context unit inside second)
        kind (transferSyncs syncs state))
  | .forLoop syncs header body rest, state =>
    transfer context unit inside rest
      (loopExit context header.extent (transferSyncs syncs state)
        (transfer context unit inside body (transferSyncs syncs state)))
  | .unrolledLoop _ marker _ _ _, _ => marker.elim

/-- A statement with one body is safe for a unit. -/
def SafeWrapper (unit : ExecutionUnit) (inside : Bool)
    (body : Bool → OutstandingSet → Prop) (wrapper : Wrapper) (state : OutstandingSet) : Prop :=
  match wrapper with
  | .resourceScope owner =>
    if owner = unit then if inside then body true state else body true ⊥ else True
  | _ => body inside state

/-- A statement with two bodies is safe. -/
def SafeBranch (first second : OutstandingSet → Prop)
    (afterFirst : OutstandingSet → OutstandingSet) (kind : Branch)
    (state : OutstandingSet) : Prop :=
  match kind with
  | .ifThenElse _ => first state ∧ second state
  | .blockInit _ => first state ∧ second (afterFirst state)

/-- Every operation that a unit runs is safe; a loop body also after its first iteration. -/
def Safe
    (context : PassContext)
    (exempt : Pipeline → Prop)
    (unit : ExecutionUnit)
    (inside : Bool) :
    RebuiltBody SyncUnit → OutstandingSet → Prop
  | .stop _, _ => True
  | .operation syncs op rest, state =>
    SafeAt context exempt op (transferSyncs syncs state) ∧
      Safe context exempt unit inside rest (recordOperation context op (transferSyncs syncs state))
  | .noOp syncs rest, state => Safe context exempt unit inside rest (transferSyncs syncs state)
  | .wrap syncs wrapper body rest, state =>
    SafeWrapper unit inside (fun isInside => Safe context exempt unit isInside body) wrapper
        (transferSyncs syncs state) ∧
      Safe context exempt unit inside rest
        (transferWrapper unit inside (fun isInside => transfer context unit isInside body)
          wrapper (transferSyncs syncs state))
  | .branch syncs kind first second rest, state =>
    SafeBranch (Safe context exempt unit inside first) (Safe context exempt unit inside second)
        (transfer context unit inside first) kind (transferSyncs syncs state) ∧
      Safe context exempt unit inside rest
        (transferBranch (transfer context unit inside first)
          (transfer context unit inside second) kind (transferSyncs syncs state))
  | .forLoop syncs header body rest, state =>
    Safe context exempt unit inside body (transferSyncs syncs state) ∧
      Safe context exempt unit inside body
        (transfer context unit inside body (transferSyncs syncs state)) ∧
      Safe context exempt unit inside rest
        (loopExit context header.extent (transferSyncs syncs state)
          (transfer context unit inside body (transferSyncs syncs state)))
  | .unrolledLoop _ marker _ _ _, _ => marker.elim

section Scopes

variable {unit owner : ExecutionUnit} {inside : Bool}
  (body : Bool → OutstandingSet → OutstandingSet) (check : Bool → OutstandingSet → Prop)
  (state : OutstandingSet)

/-- A block of the unit inside another one shares its history. -/
theorem transferWrapper_nested (isOwn : owner = unit) :
    transferWrapper unit true body (.resourceScope owner) state = body true state :=
  if_pos isOwn

/-- An outermost block of the unit leaves no history behind. -/
theorem transferWrapper_outermost (isOwn : owner = unit) :
    transferWrapper unit false body (.resourceScope owner) state = ⊥ :=
  if_pos isOwn

/-- A block of the other unit passes the history by. -/
theorem transferWrapper_other (isOther : owner ≠ unit) :
    transferWrapper unit inside body (.resourceScope owner) state = state :=
  if_neg isOther

theorem safeWrapper_nested (isOwn : owner = unit) :
    SafeWrapper unit true check (.resourceScope owner) state ↔ check true state := by
  rw [SafeWrapper, if_pos isOwn, if_pos rfl]

theorem safeWrapper_outermost (isOwn : owner = unit) :
    SafeWrapper unit false check (.resourceScope owner) state ↔ check true ⊥ := by
  rw [SafeWrapper, if_pos isOwn, if_neg Bool.false_ne_true]

theorem safeWrapper_other (isOther : owner ≠ unit) :
    SafeWrapper unit inside check (.resourceScope owner) state := by
  rw [SafeWrapper, if_neg isOther]
  trivial

end Scopes

section Following

variable {context : PassContext} {exempt : Pipeline → Prop} {unit : ExecutionUnit}
  {inside : Bool}

theorem transferWrapper_absorbing {body : Bool → OutstandingSet → OutstandingSet}
    (bodyAbsorbs : ∀ isInside, Absorbing (body isInside)) (wrapper : Wrapper) :
    Absorbing (transferWrapper unit inside body wrapper) := by
  cases wrapper with
  | resourceScope owner =>
    by_cases isOwn : owner = unit
    · cases inside with
      | true =>
        have same : transferWrapper unit true body (.resourceScope owner) = body true :=
          funext fun state => transferWrapper_nested body state isOwn
        rw [same]
        exact bodyAbsorbs true
      | false =>
        have same : transferWrapper unit false body (.resourceScope owner) = fun _ => ⊥ :=
          funext fun state => transferWrapper_outermost body state isOwn
        rw [same]
        exact Absorbing.forget
    · have same : transferWrapper unit inside body (.resourceScope owner) = fun state => state :=
        funext fun state => transferWrapper_other body state isOwn
      rw [same]
      exact Absorbing.id
  | ifThen => exact Absorbing.id.sup (bodyAbsorbs inside)
  | _ => exact bodyAbsorbs inside

theorem transferBranch_absorbing {first second : OutstandingSet → OutstandingSet}
    (firstAbsorbs : Absorbing first) (secondAbsorbs : Absorbing second) (kind : Branch) :
    Absorbing (transferBranch first second kind) := by
  cases kind with
  | ifThenElse => exact firstAbsorbs.sup secondAbsorbs
  | blockInit => exact secondAbsorbs.comp firstAbsorbs

/-- A body adds accesses of its own and forwards what it is given. -/
theorem transfer_absorbing (inside : Bool) (body : RebuiltBody SyncUnit) :
    Absorbing (transfer context unit inside body) := by
  induction body generalizing inside with
  | stop syncs => exact transferSyncs_absorbing syncs
  | operation syncs op _ restAbsorbs =>
    exact (restAbsorbs inside).comp
      ((recordTouches_absorbing _ _).comp (transferSyncs_absorbing syncs))
  | noOp syncs _ restAbsorbs => exact (restAbsorbs inside).comp (transferSyncs_absorbing syncs)
  | wrap syncs wrapper _ _ bodyAbsorbs restAbsorbs =>
    exact (restAbsorbs inside).comp
      ((transferWrapper_absorbing bodyAbsorbs wrapper).comp (transferSyncs_absorbing syncs))
  | branch syncs kind _ _ _ firstAbsorbs secondAbsorbs restAbsorbs =>
    exact (restAbsorbs inside).comp
      ((transferBranch_absorbing (firstAbsorbs inside) (secondAbsorbs inside) kind).comp
        (transferSyncs_absorbing syncs))
  | forLoop syncs header _ _ bodyAbsorbs restAbsorbs =>
    exact (restAbsorbs inside).comp
      ((loopExit_absorbing (bodyAbsorbs inside)).comp (transferSyncs_absorbing syncs))
  | unrolledLoop _ marker => exact marker.elim

variable {smaller larger : OutstandingSet}

theorem SafeWrapper.anti {body : Bool → OutstandingSet → Prop}
    (bodyAnti : ∀ isInside smaller larger, smaller ≤ larger →
      body isInside larger → body isInside smaller)
    {wrapper : Wrapper}
    (included : smaller ≤ larger)
    (safe : SafeWrapper unit inside body wrapper larger) :
    SafeWrapper unit inside body wrapper smaller := by
  cases wrapper with
  | resourceScope owner =>
    by_cases isOwn : owner = unit
    · cases inside with
      | true =>
        rw [safeWrapper_nested body _ isOwn] at safe ⊢
        exact bodyAnti _ _ _ included safe
      | false =>
        rw [safeWrapper_outermost body _ isOwn] at safe ⊢
        exact safe
    · exact safeWrapper_other body _ isOwn
  | _ => exact bodyAnti _ _ _ included safe

theorem SafeBranch.anti {first second : OutstandingSet → Prop}
    {afterFirst : OutstandingSet → OutstandingSet}
    (firstAnti : ∀ smaller larger, smaller ≤ larger → first larger → first smaller)
    (secondAnti : ∀ smaller larger, smaller ≤ larger → second larger → second smaller)
    (monotone : Monotone afterFirst) {kind : Branch} (included : smaller ≤ larger)
    (safe : SafeBranch first second afterFirst kind larger) :
    SafeBranch first second afterFirst kind smaller := by
  cases kind with
  | ifThenElse => exact ⟨firstAnti _ _ included safe.1, secondAnti _ _ included safe.2⟩
  | blockInit => exact ⟨firstAnti _ _ included safe.1, secondAnti _ _ (monotone included) safe.2⟩

/-- What is safe after more accesses is safe after fewer. -/
theorem Safe.anti {body : RebuiltBody SyncUnit} (included : smaller ≤ larger)
    (safe : Safe context exempt unit inside body larger) :
    Safe context exempt unit inside body smaller := by
  induction body generalizing inside smaller larger with
  | stop => trivial
  | operation syncs op _ restAnti =>
    have before := (transferSyncs_absorbing syncs).monotone included
    exact ⟨fun access member => safe.1 access (before member),
      restAnti ((recordTouches_absorbing _ _).monotone before) safe.2⟩
  | noOp syncs _ restAnti => exact restAnti ((transferSyncs_absorbing syncs).monotone included) safe
  | wrap syncs wrapper _ _ bodyAnti restAnti =>
    have before := (transferSyncs_absorbing syncs).monotone included
    refine ⟨SafeWrapper.anti ?_ before safe.1, restAnti ?_ safe.2⟩
    · intro isInside _ _ below holds
      exact bodyAnti below holds
    · exact (transferWrapper_absorbing (fun isInside => transfer_absorbing isInside _)
        wrapper).monotone before
  | branch syncs kind first second _ firstAnti secondAnti restAnti =>
    have before := (transferSyncs_absorbing syncs).monotone included
    have firstAbsorbs : Absorbing (transfer context unit inside first) :=
      transfer_absorbing inside first
    refine ⟨safe.1.anti (fun _ _ => firstAnti) (fun _ _ => secondAnti) firstAbsorbs.monotone
      before, restAnti ?_ safe.2⟩
    exact (transferBranch_absorbing firstAbsorbs (transfer_absorbing inside second)
      kind).monotone before
  | forLoop syncs header body _ bodyAnti restAnti =>
    have before := (transferSyncs_absorbing syncs).monotone included
    have bodyAbsorbs : Absorbing (transfer context unit inside body) :=
      transfer_absorbing inside body
    exact ⟨bodyAnti before safe.1, bodyAnti (bodyAbsorbs.monotone before) safe.2.1,
      restAnti ((loopExit_absorbing bodyAbsorbs).monotone before) safe.2.2⟩
  | unrolledLoop _ marker => exact marker.elim

end Following

/-! ## Histories -/

/-- The hazards of a history are ordered, with full barriers for its gaps. -/
def Hazards (context : PassContext) (exempt : Pipeline → Prop) (history : List Step) : Prop :=
  HazardsOrdered context exempt (history.map standIn)

/-- A set accounts for the accesses of a history, with full barriers for its gaps. -/
def AccountedFor (context : PassContext) (exempt : Pipeline → Prop)
    (state : OutstandingSet) (history : List Step) : Prop :=
  Accounted context exempt state (history.map standIn)

section Histories

variable {context : PassContext} {exempt : Pipeline → Prop} {state : OutstandingSet}
  {history : List Step}

theorem standIn_syncSteps (syncs : List SyncUnit) :
    (syncSteps syncs).map standIn = syncEvents syncs := by
  simp [syncSteps, standIn, Function.comp_def]

/-- Inserted syncs advance what a history leaves outstanding. -/
theorem AccountedFor.syncs (accounted : AccountedFor context exempt state history)
    (syncs : List SyncUnit) :
    AccountedFor context exempt (transferSyncs syncs state) (history ++ syncSteps syncs) := by
  unfold AccountedFor
  rw [List.map_append, standIn_syncSteps]
  exact Accounted.syncs accounted syncs

/-- A fence adds nothing to a history. -/
theorem AccountedFor.fence (accounted : AccountedFor context exempt state history) :
    AccountedFor context exempt state (history ++ [.passes .fence]) := by
  have after := Accounted.syncs accounted [.barrier .s]
  unfold AccountedFor
  rw [List.map_append]
  exact after.mono (transferSyncs_survives List.SublistForall₂.nil state)

theorem AccountedFor.fenceIf (accounted : AccountedFor context exempt state history)
    (condition : Bool) : AccountedFor context exempt state (history ++ fenceIf condition) := by
  cases condition with
  | false => simpa [ScopedSync.fenceIf] using accounted
  | true => exact accounted.fence

/-- Behind a gap nothing is outstanding any more. -/
theorem accountedFor_gap {place : Place} (hazards : Hazards context exempt history)
    (isGap : place.isGap = true) : AccountedFor context exempt ⊥ (history ++ [.passes place]) := by
  have isBarrier : (history ++ [Step.passes place]).map standIn =
      history.map standIn ++ syncEvents [.barrierAll] := by
    simp [standIn, isGap, syncEvents, SyncUnit.events]
  refine ⟨?_, ?_⟩
  · rw [isBarrier]
    exact HazardsOrdered.syncs hazards [.barrierAll]
  · rw [isBarrier]
    intro position op isOperation touch touched
    have inside : position < (history.map standIn).length := by
      by_contra outside
      rw [List.getElem?_append_right (by omega)] at isOperation
      have member := List.mem_of_getElem? isOperation
      simp [syncEvents, SyncUnit.events] at member
    left
    rw [List.drop_append_of_le_length inside]
    exact List.mem_append_right _ (by simp [syncEvents, SyncUnit.events])

/-- A safe operation adds its own accesses only. -/
theorem AccountedFor.operation (accounted : AccountedFor context exempt state history)
    {op : Operation} (safe : SafeAt context exempt op state) :
    AccountedFor context exempt (recordOperation context op state)
      (history ++ [.event (.operation op)]) := by
  unfold AccountedFor
  rw [List.map_append]
  exact ⟨accounted.ordered.operation accounted.covers safe, accounted.covers.operation safe⟩

theorem accountedFor_nil : AccountedFor context exempt ⊥ [] := by
  refine ⟨?_, covers_nil⟩
  intro first second firstOp secondOp _ firstAt
  simp at firstAt

end Histories

/-! ## Triples -/

section Triples

variable {context : PassContext} {exempt : Pipeline → Prop} {unit : ExecutionUnit}
  {inside : Bool} {state after : OutstandingSet}

/-- A behaviour leads from the account with one set to the account with another one. -/
abbrev Leads (context : PassContext) (exempt : Pipeline → Prop) (state : OutstandingSet)
    (runs : Behaviour Step) (after : OutstandingSet) : Prop :=
  Triple (AccountedFor context exempt state) runs (AccountedFor context exempt after)
    (Hazards context exempt)

/-- Fewer accesses before and more allowed after. -/
theorem Leads.mono {smaller larger : OutstandingSet} {runs : Behaviour Step}
    (leads : Leads context exempt state runs after) (before : smaller ≤ state)
    (upTo : after ≤ larger) : Leads context exempt smaller runs larger :=
  Triple.consequence leads (fun _ accounted => Accounted.mono accounted before)
    (fun _ accounted => Accounted.mono accounted upTo) (fun _ => id)

theorem leads_nothing : Leads context exempt state (emit []) state :=
  Triple.emit fun history accounted => by rwa [List.append_nil]

theorem leads_fence : Leads context exempt state (emit [.passes .fence]) state :=
  Triple.emit fun _ accounted => accounted.fence

theorem leads_gap {place : Place} (isGap : place.isGap = true) :
    Leads context exempt state (emit [.passes place]) ⊥ :=
  Triple.emit fun _ accounted => accountedFor_gap (Accounted.ordered accounted) isGap

theorem leads_fencedSyncs (condition : Bool) (syncs : List SyncUnit) :
    Leads context exempt state (emit (fenceIf condition ++ syncSteps syncs))
      (transferSyncs syncs state) :=
  Triple.emit fun history accounted => by
    rw [← List.append_assoc]
    exact (accounted.fenceIf condition).syncs syncs

theorem leads_syncs (syncs : List SyncUnit) :
    Leads context exempt state (emit (syncSteps syncs)) (transferSyncs syncs state) :=
  Triple.emit fun _ accounted => accounted.syncs syncs

variable {inFor : Bool} {body : Behaviour Step}

theorem accountedFor_operationSteps {syncs : List SyncUnit} {op : Operation}
    (safe : SafeAt context exempt op (transferSyncs syncs state)) {history : List Step}
    (accounted : AccountedFor context exempt state history) :
    AccountedFor context exempt (recordOperation context op (transferSyncs syncs state))
      (history ++ operationSteps context inFor syncs op) := by
  unfold operationSteps
  rw [← List.append_assoc, ← List.append_assoc]
  exact ((accounted.fenceIf _).syncs syncs).operation safe

/-- A loop leads where its body does, if the way back does. -/
theorem leads_repeated {between : List Step} {again : OutstandingSet}
    (entered : Leads context exempt state body after)
    (separated : ∀ history, AccountedFor context exempt after history →
      AccountedFor context exempt again (history ++ between))
    (later : Leads context exempt again body after) :
    Leads context exempt state (catching [.passes .loopExit] (repeated between body)) after :=
  Triple.catching (Triple.repeated entered separated later) fun _ hazards =>
    Accounted.mono (accountedFor_gap hazards rfl) bot_le

/-- The runs of a For lead behind its body or past it. -/
theorem leads_forRuns {extent : Expr} (entered : Leads context exempt state body after)
    (later : Leads context exempt after body after) :
    Leads context exempt state (forRuns context extent body)
      (loopExit context extent state after) := by
  have rounds := leads_repeated entered (fun _ accounted => by rwa [List.append_nil]) later
  unfold forRuns loopExit
  split
  · rw [Set.empty_union]
    exact rounds
  · exact Triple.union (leads_nothing.mono le_rfl le_sup_left) (rounds.mono le_rfl le_sup_right)

/-- The runs of a While lead behind its body; no history crosses its back edge. -/
theorem leads_whileRuns (entered : Leads context exempt state body after)
    (later : Leads context exempt ⊥ body after) :
    Leads context exempt state (whileRuns body) after := by
  have separated (history : List Step) (accounted : AccountedFor context exempt after history) :
      AccountedFor context exempt ⊥ (history ++ [.passes .backEdge]) :=
    accountedFor_gap (Accounted.ordered accounted) rfl
  exact Triple.union ((leads_gap rfl).mono le_rfl bot_le) (leads_repeated entered separated later)

/-- The runs of a safe body lead to what the analysis says is outstanding. -/
theorem Safe.leads {body : RebuiltBody SyncUnit}
    (safe : Safe context exempt unit inside body state) (inFor : Bool) :
    Leads context exempt state (behaviour context unit inside inFor body)
      (transfer context unit inside body state) := by
  induction body generalizing inside inFor state with
  | stop syncs => exact leads_syncs syncs
  | operation syncs op rest restLeads =>
    have kept {history : List Step} (accounted : AccountedFor context exempt state history) :
        AccountedFor context exempt (recordOperation context op (transferSyncs syncs state))
          (history ++ operationSteps context inFor syncs op) :=
      accountedFor_operationSteps safe.1 accounted
    unfold behaviour
    split
    · exact Triple.leave fun _ accounted => Accounted.ordered (kept accounted)
    · exact Triple.andThen (Triple.emit fun _ => kept) (restLeads safe.2 inFor)
  | noOp syncs rest restLeads => exact Triple.andThen (leads_syncs syncs) (restLeads safe inFor)
  | wrap syncs wrapper body rest bodyLeads restLeads =>
    refine Triple.andThen (leads_fencedSyncs _ syncs) (Triple.andThen ?_ (restLeads safe.2 inFor))
    have inner := safe.1
    cases wrapper with
    | resourceScope owner =>
      by_cases isOwn : owner = unit
      · rw [wrapperRuns, if_pos isOwn]
        cases inside with
        | true =>
          rw [safeWrapper_nested _ _ isOwn] at inner
          rw [transferWrapper_nested _ _ isOwn, if_pos rfl]
          exact bodyLeads inner inFor
        | false =>
          rw [safeWrapper_outermost _ _ isOwn] at inner
          rw [transferWrapper_outermost _ _ isOwn, if_neg Bool.false_ne_true]
          exact Triple.andThen (leads_gap rfl)
            (Triple.andThen (bodyLeads inner inFor) (leads_gap rfl))
      · rw [wrapperRuns, if_neg isOwn, transferWrapper_other _ _ isOwn]
        exact leads_nothing
    | ifThen condition =>
      refine Triple.andThen (Triple.union ?_ ?_) leads_fence
      · exact leads_nothing.mono le_rfl le_sup_left
      · exact (bodyLeads inner inFor).mono le_rfl le_sup_right
    | whileLoop condition =>
      have entered : Safe context exempt unit inside body (transferSyncs syncs state) := inner
      refine leads_whileRuns (bodyLeads entered inFor) ?_
      exact (bodyLeads (entered.anti bot_le) inFor).mono le_rfl
        ((transfer_absorbing inside body).monotone bot_le)
    | _ => exact bodyLeads inner inFor
  | branch syncs kind first second rest firstLeads secondLeads restLeads =>
    refine Triple.andThen (leads_fencedSyncs _ syncs) (Triple.andThen ?_ (restLeads safe.2 inFor))
    have inner := safe.1
    cases kind with
    | ifThenElse condition =>
      refine Triple.andThen (Triple.union ?_ ?_) leads_fence
      · exact (firstLeads inner.1 inFor).mono le_rfl le_sup_left
      · exact (secondLeads inner.2 inFor).mono le_rfl le_sup_right
    | blockInit fields =>
      exact Triple.andThen (firstLeads inner.1 inFor) (secondLeads inner.2 inFor)
  | forLoop syncs header body rest bodyLeads restLeads =>
    refine Triple.andThen (leads_syncs syncs) (Triple.andThen ?_ (restLeads safe.2.2 inFor))
    have later := (bodyLeads safe.2.1 true).mono le_rfl
      ((transfer_absorbing inside body).twice_le _)
    exact leads_forRuns (bodyLeads safe.1 true) later
  | unrolledLoop _ marker => exact marker.elim

/-- Every run of a safe body has its hazards ordered. -/
theorem Safe.hazards {body : RebuiltBody SyncUnit}
    (safe : Safe context exempt unit inside body ⊥) {run : List Step} {exit : Exit}
    (member : (run, exit) ∈ behaviour context unit inside inFor body) :
    Hazards context exempt run := by
  have reached := safe.leads inFor [] accountedFor_nil run exit member
  cases exit with
  | normal => exact Accounted.ordered reached
  | broken => exact reached

end Triples

end TilelangAscend.ScopedSync
