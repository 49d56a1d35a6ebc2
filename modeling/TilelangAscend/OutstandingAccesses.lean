import TilelangAscend.AbsorbingTransfer
import TilelangAscend.ExecutionOrder

namespace TilelangAscend.SyncInsert

open AbsorbingTransfer

/-!
# Outstanding accesses

What the pass has to know about the past of an execution: which accesses may still be
outstanding, and for which pipelines each of them is complete.  A state is a set of such
accesses that is closed under knowing more.  `transfer` follows a sequence with its
synchronization, and `Safe` says that every operation finds the accesses that it conflicts with
complete.  A safe sequence orders all its hazards, whatever its loops and branches do.
-/

/-- An access that may be outstanding, with the pipelines for which it is complete. -/
structure Outstanding where
  bufferName : BufferName
  pipeline : Pipeline
  isWrite : Bool
  reached : Set Pipeline
  drained : Prop

/-- One access lies below another if it is of the same kind and more is known of it. -/
instance : Preorder Outstanding where
  le first second :=
    first.bufferName = second.bufferName ∧ first.pipeline = second.pipeline ∧
      first.isWrite = second.isWrite ∧
      second.reached ⊆ first.reached ∧
      (second.drained → first.drained)
  le_refl access := ⟨rfl, rfl, rfl, subset_rfl, id⟩
  le_trans := by
    rintro first second third ⟨name, pipe, kind, reached, drained⟩
      ⟨nameNext, pipeNext, kindNext, reachedNext, drainedNext⟩
    exact ⟨name.trans nameNext, pipe.trans pipeNext, kind.trans kindNext,
      reachedNext.trans reached, drained ∘ drainedNext⟩

theorem Outstanding.le_def {first second : Outstanding} :
    first ≤ second ↔
      first.bufferName = second.bufferName ∧ first.pipeline = second.pipeline ∧
        first.isWrite = second.isWrite ∧
        second.reached ⊆ first.reached ∧
        (second.drained → first.drained) :=
  Iff.rfl

namespace Outstanding

/-- An access that was just made. -/
def fresh
    (pipeline : Pipeline)
    (touch : Touch) :
    Outstanding where
  bufferName := touch.bufferName
  pipeline := pipeline
  isWrite := touch.isWrite
  reached := {pipeline}
  drained := False

/-- What a synchronization unit adds to the knowledge of an access; `none` retires it. -/
def advance (unit : SyncUnit) (access : Outstanding) : Option Outstanding :=
  match unit with
  | .barrierAll => none
  | .barrier pipe => some { access with drained := access.drained ∨ access.pipeline = pipe }
  | .eventPair source target _ =>
    some { access with
      reached := access.reached ∪ {pipe | source ∈ access.reached ∧ pipe = target} }

/-- Whether the access is ordered before a later operation on a pipeline. -/
def Satisfied (exempt : Pipeline → Prop) (access : Outstanding) (pipeline : Pipeline) : Prop :=
  if access.pipeline = pipeline then
    exempt pipeline ∨ access.drained
  else
    pipeline ∈ access.reached

/-- Whether a touched buffer replaces the access in the history. -/
def Superseded (pipeline : Pipeline) (touch : Touch) (access : Outstanding) : Prop :=
  access.bufferName = touch.bufferName ∧
    (touch.isWrite = true ∨ (access.isWrite = false ∧ access.pipeline = pipeline))

theorem Satisfied.anti {exempt : Pipeline → Prop} {first second : Outstanding}
    {pipeline : Pipeline} (below : first ≤ second)
    (satisfied : Satisfied exempt second pipeline) : Satisfied exempt first pipeline := by
  obtain ⟨_, samePipe, _, reached, drained⟩ := Outstanding.le_def.mp below
  unfold Satisfied at satisfied ⊢
  rw [samePipe]
  split
  · rename_i isSame
    rw [if_pos isSame] at satisfied
    exact satisfied.imp_right drained
  · rename_i isOther
    rw [if_neg isOther] at satisfied
    exact reached satisfied

theorem advance_le {unit : SyncUnit} {before after : Outstanding}
    (advanced : advance unit before = some after) : after ≤ before := by
  unfold advance at advanced
  split at advanced
  · cases advanced
  · cases advanced
    exact ⟨rfl, rfl, rfl, subset_rfl, Or.inl⟩
  · cases advanced
    exact ⟨rfl, rfl, rfl, Set.subset_union_left, id⟩

theorem advance_mono {unit : SyncUnit} {first second secondAfter : Outstanding}
    (below : first ≤ second) (advanced : advance unit second = some secondAfter) :
    ∃ firstAfter, advance unit first = some firstAfter ∧ firstAfter ≤ secondAfter := by
  obtain ⟨sameName, samePipe, sameKind, reached, drained⟩ := Outstanding.le_def.mp below
  unfold advance at advanced ⊢
  split at advanced
  · cases advanced
  · cases advanced
    refine ⟨_, rfl, sameName, samePipe, sameKind, reached, ?_⟩
    rw [samePipe]
    exact Or.imp_left drained
  · cases advanced
    refine ⟨_, rfl, sameName, samePipe, sameKind, ?_, drained⟩
    refine Set.union_subset_union reached ?_
    rintro pipe ⟨isReached, isTarget⟩
    exact ⟨reached isReached, isTarget⟩

end Outstanding

/-- Accesses that may be outstanding. -/
abbrev OutstandingSet := LowerSet Outstanding

open Outstanding

/-! ## Following a sequence -/

/-- The outstanding accesses after a synchronization unit. -/
def transferUnit (unit : SyncUnit) : OutstandingSet → OutstandingSet :=
  rewrite (advance unit) ∅

/-- The outstanding accesses after a list of synchronization units. -/
def transferSyncs : List SyncUnit → OutstandingSet → OutstandingSet
  | [], state => state
  | unit :: rest, state => transferSyncs rest (transferUnit unit state)

open Classical in
/-- The outstanding accesses after a touched buffer. -/
noncomputable def recordTouch
    (pipeline : Pipeline)
    (touch : Touch) :
    OutstandingSet → OutstandingSet :=
  rewrite (fun access => if Superseded pipeline touch access then none else some access)
    {fresh pipeline touch}

/-- The outstanding accesses after the touched buffers of an operation. -/
noncomputable def recordTouches
    (pipeline : Pipeline) :
    List Touch → OutstandingSet → OutstandingSet
  | [], state => state
  | touch :: rest, state => recordTouches pipeline rest (recordTouch pipeline touch state)

/-- The outstanding accesses after an operation. -/
noncomputable def recordOperation
    (context : PassContext)
    (op : Operation) :
    OutstandingSet → OutstandingSet :=
  recordTouches (op.pipeline context.table) (op.touches context.table)

open Classical in
/-- The outstanding accesses after a loop: those after one iteration, or after none. -/
noncomputable def loopExit
    (context : PassContext)
    (extent : Expr)
    (entry exit : OutstandingSet) :
    OutstandingSet :=
  if context.analyzer.provesPositive extent = true then exit else entry ⊔ exit

/-- The outstanding accesses after a sequence. -/
noncomputable def transfer
    (context : PassContext) :
    Block → OutstandingSet → OutstandingSet
  | .stop syncs, state => transferSyncs syncs state
  | .operation syncs op rest, state =>
    transfer context rest (recordOperation context op (transferSyncs syncs state))
  | .letStmt syncs _ body rest, state =>
    transfer context rest (transfer context body (transferSyncs syncs state))
  | .ifThenElse syncs _ thenCase elseCase rest, state =>
    transfer context rest
      (transfer context thenCase (transferSyncs syncs state) ⊔
        transfer context elseCase (transferSyncs syncs state))
  | .forLoop syncs extent body rest, state =>
    transfer context rest
      (loopExit context extent (transferSyncs syncs state)
        (transfer context body (transferSyncs syncs state)))
  | .unrolledLoop syncs _ first second rest, state =>
    transfer context rest
      (transfer context second (transfer context first (transferSyncs syncs state)))

/-- Every outstanding access that an operation conflicts with is ordered before it. -/
def SafeAt (context : PassContext) (exempt : Pipeline → Prop) (op : Operation)
    (state : OutstandingSet) : Prop :=
  ∀ access ∈ state,
    ∀ touch ∈ op.touches context.table, context.plan.Overlaps access.bufferName touch.bufferName →
      (access.isWrite = true ∨ touch.isWrite = true) →
      Satisfied exempt access (op.pipeline context.table)

/-- Every operation of a sequence is safe; a loop body also after its first iteration. -/
def Safe
    (context : PassContext)
    (exempt : Pipeline → Prop) :
    Block → OutstandingSet → Prop
  | .stop _, _ => True
  | .operation syncs op rest, state =>
    SafeAt context exempt op (transferSyncs syncs state) ∧
      Safe context exempt rest (recordOperation context op (transferSyncs syncs state))
  | .letStmt syncs _ body rest, state =>
    Safe context exempt body (transferSyncs syncs state) ∧
      Safe context exempt rest (transfer context body (transferSyncs syncs state))
  | .ifThenElse syncs _ thenCase elseCase rest, state =>
    Safe context exempt thenCase (transferSyncs syncs state) ∧
      Safe context exempt elseCase (transferSyncs syncs state) ∧
      Safe context exempt rest
        (transfer context thenCase (transferSyncs syncs state) ⊔
          transfer context elseCase (transferSyncs syncs state))
  | .forLoop syncs extent body rest, state =>
    Safe context exempt body (transferSyncs syncs state) ∧
      Safe context exempt body (transfer context body (transferSyncs syncs state)) ∧
      Safe context exempt rest
        (loopExit context extent (transferSyncs syncs state)
          (transfer context body (transferSyncs syncs state)))
  | .unrolledLoop syncs _ first second rest, state =>
    Safe context exempt first (transferSyncs syncs state) ∧
      Safe context exempt second (transfer context first (transferSyncs syncs state)) ∧
      Safe context exempt rest
        (transfer context second (transfer context first (transferSyncs syncs state)))

/-! ## Absorption and monotonicity -/

theorem transferUnit_absorbing (unit : SyncUnit) : Absorbing (transferUnit unit) :=
  rewrite_absorbing fun _ _ => advance_le

theorem transferSyncs_absorbing (syncs : List SyncUnit) : Absorbing (transferSyncs syncs) := by
  induction syncs with
  | nil => exact Absorbing.id
  | cons unit rest ih => exact ih.comp (transferUnit_absorbing unit)

theorem recordTouch_absorbing (pipeline : Pipeline) (touch : Touch) :
    Absorbing (recordTouch pipeline touch) := by
  refine rewrite_absorbing ?_
  intro before after kept
  split at kept
  · cases kept
  · cases kept
    exact le_rfl

/-- Recording an operation is absorbing. -/
theorem recordTouches_absorbing (pipeline : Pipeline) (touches : List Touch) :
    Absorbing (recordTouches pipeline touches) := by
  induction touches with
  | nil => exact Absorbing.id
  | cons touch rest ih => exact ih.comp (recordTouch_absorbing pipeline touch)

theorem loopExit_absorbing {context : PassContext} {extent : Expr}
    {body : OutstandingSet → OutstandingSet} (bodyAbsorbs : Absorbing body) :
    Absorbing fun state => loopExit context extent state (body state) := by
  unfold loopExit
  split
  · exact bodyAbsorbs
  · exact Absorbing.id.sup bodyAbsorbs

/-- The transfer of every block is absorbing. -/
theorem transfer_absorbing (context : PassContext) (block : Block) :
    Absorbing (transfer context block) := by
  induction block with
  | stop syncs => exact transferSyncs_absorbing syncs
  | operation syncs op rest restAbsorbs =>
    exact restAbsorbs.comp ((recordTouches_absorbing _ _).comp (transferSyncs_absorbing syncs))
  | letStmt syncs value body rest bodyAbsorbs restAbsorbs =>
    exact restAbsorbs.comp (bodyAbsorbs.comp (transferSyncs_absorbing syncs))
  | ifThenElse syncs condition thenCase elseCase rest thenAbsorbs elseAbsorbs restAbsorbs =>
    exact restAbsorbs.comp ((thenAbsorbs.sup elseAbsorbs).comp (transferSyncs_absorbing syncs))
  | forLoop syncs extent body rest bodyAbsorbs restAbsorbs =>
    exact restAbsorbs.comp ((loopExit_absorbing bodyAbsorbs).comp (transferSyncs_absorbing syncs))
  | unrolledLoop syncs extent first second rest firstAbsorbs secondAbsorbs restAbsorbs =>
    exact restAbsorbs.comp (secondAbsorbs.comp (firstAbsorbs.comp (transferSyncs_absorbing syncs)))

/-- What is safe after more accesses is safe after fewer. -/
theorem Safe.anti {context : PassContext} {exempt : Pipeline → Prop} {block : Block}
    {smaller larger : OutstandingSet} (included : smaller ≤ larger)
    (safe : Safe context exempt block larger) : Safe context exempt block smaller := by
  induction block generalizing smaller larger with
  | stop syncs => trivial
  | operation syncs op rest restAnti =>
    have before := (transferSyncs_absorbing syncs).monotone included
    refine ⟨fun access member => safe.1 access (before member), ?_⟩
    exact restAnti ((recordTouches_absorbing _ _).monotone before) safe.2
  | letStmt syncs value body rest bodyAnti restAnti =>
    have before := (transferSyncs_absorbing syncs).monotone included
    exact ⟨bodyAnti before safe.1,
      restAnti ((transfer_absorbing context body).monotone before) safe.2⟩
  | ifThenElse syncs condition thenCase elseCase rest thenAnti elseAnti restAnti =>
    have before := (transferSyncs_absorbing syncs).monotone included
    refine ⟨thenAnti before safe.1, elseAnti before safe.2.1, restAnti ?_ safe.2.2⟩
    exact sup_le_sup ((transfer_absorbing context thenCase).monotone before)
      ((transfer_absorbing context elseCase).monotone before)
  | forLoop syncs extent body rest bodyAnti restAnti =>
    have before := (transferSyncs_absorbing syncs).monotone included
    have bodyAbsorbs := transfer_absorbing context body
    refine ⟨bodyAnti before safe.1, bodyAnti (bodyAbsorbs.monotone before) safe.2.1,
      restAnti ?_ safe.2.2⟩
    exact (loopExit_absorbing bodyAbsorbs).monotone before
  | unrolledLoop syncs extent first second rest firstAnti secondAnti restAnti =>
    have before := (transferSyncs_absorbing syncs).monotone included
    have afterFirst := (transfer_absorbing context first).monotone before
    exact ⟨firstAnti before safe.1, secondAnti afterFirst safe.2.1,
      restAnti ((transfer_absorbing context second).monotone afterFirst) safe.2.2⟩

end TilelangAscend.SyncInsert
