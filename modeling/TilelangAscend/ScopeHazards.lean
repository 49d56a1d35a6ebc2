import TilelangAscend.ScopedSound

namespace TilelangAscend.ScopedSync

open SyncInsert
open TraceBehaviours

/-!
# Hazards across the blocks of a unit

Blocks inside one outermost block of their unit share the history of the visitor, so the pass
orders their hazards, also those that a loop carries.  An outermost block is visited with a
history of its own, and nothing is emitted for what another outermost block has done.
-/

/--
The pass orders any two conflicting operations that a unit does within one of its outermost
blocks, in whichever inner blocks and iterations of `For` loops they are, if the run does not
start another iteration of a `While`, skip one, or leave a loop early in between.
-/
theorem substitute_ordersBlocks
    {context : PassContext}
    {unit : ExecutionUnit}
    {body : SourceBody}
    (known : context.plan.Known)
    (mapped : ConflictsMapped context (unitOperations unit body))
    (loopCounter : Nat) :
    ∃ output,
      substituteUnits context loopCounter body = some output ∧
        substitute context loopCounter body = some output.emitted ∧
        ∀ run exit, (run, exit) ∈ behaviour context unit false false output →
          ∀ first second firstOp secondOp, first < second →
            run[first]? = some (.event (.operation firstOp)) →
            run[second]? = some (.event (.operation secondOp)) →
            Conflicts context firstOp secondOp →
            Gapless run first second →
            Ordered context (Exempt context.platform) run first second := by
  obtain ⟨output, rebuilds, ordersHazards⟩ := substituteUnits_hazards known mapped loopCounter
  refine ⟨output, rebuilds, ?_, ?_⟩
  · rw [substitute_eq_emitted, rebuilds, Option.map_some]
  · intro run exit member first second firstOp secondOp before firstAt secondAt conflict gapless
    exact (ordersHazards run exit member).ordered (Or.inl rfl) before firstAt secondAt conflict
      gapless

/-- A block of the vector unit. -/
def vectorBlock (body rest : SourceBody) : SourceBody :=
  .wrap [] (.resourceScope .vector) body rest

/-- Two blocks of the vector unit inside another one: the first loads a tile, the second uses it. -/
def nestedTiles : SourceBody :=
  vectorBlock
    (vectorBlock (.operation [] loadTile (.stop []))
      (vectorBlock (.operation [] expTile (.stop [])) (.stop [])))
    (.stop [])

theorem tiles_conflictsMapped {platform : Platform} {ops : List Operation}
    (onlyTiles : ∀ op ∈ ops, op = loadTile ∨ op = expTile) :
    ConflictsMapped (vectorContext platform) ops := by
  intro first firstIn second secondIn _ distinct
  change (first.pipeline vectorTable, second.pipeline vectorTable) ∈ eventMapping
  rcases onlyTiles first firstIn with rfl | rfl <;> rcases onlyTiles second secondIn with rfl | rfl
  · exact absurd rfl distinct
  · decide
  · decide
  · exact absurd rfl distinct

/-- The nested blocks are ordered. -/
theorem nestedTiles_ordered :
    ∃ output,
      substituteUnits (vectorContext .a2) 0 nestedTiles = some output ∧
        substitute (vectorContext .a2) 0 nestedTiles = some output.emitted ∧
        ∀ run exit, (run, exit) ∈ behaviour (vectorContext .a2) .vector false false output →
          ∀ first second firstOp secondOp, first < second →
            run[first]? = some (.event (.operation firstOp)) →
            run[second]? = some (.event (.operation secondOp)) →
            Conflicts (vectorContext .a2) firstOp secondOp →
            Gapless run first second →
            Ordered (vectorContext .a2) (Exempt .a2) run first second :=
  substitute_ordersBlocks vectorPlan_known (tiles_conflictsMapped (by decide)) 0

/-! ## Runs without synchronization -/

/-- Steps that neither synchronize nor access memory. -/
def Step.IsQuiet (table : OperationTable) : Step → Prop
  | .passes _ => True
  | .event (.operation op) => op.touches table = []
  | .event _ => False

section QuietRuns

variable {context : PassContext} {exempt : Pipeline → Prop} {run : List Step}
  {first second : Nat}

theorem handoff_of_operations {source reached : Pipeline} {segment : List Event}
    (onlyOperations : ∀ event ∈ segment, ∃ op, event = .operation op)
    (handoff : Handoff source segment reached) : reached = source := by
  induction handoff with
  | start => rfl
  | skip event _ ih =>
    exact ih fun other member => onlyOperations other (List.mem_append_left _ member)
  | @pair _ middle target eventId _ _ =>
    obtain ⟨op, isOperation⟩ := onlyOperations (.setFlag middle target eventId) (by simp)
    cases isOperation

theorem le_of_reflTransGen
    (chain : Relation.ReflTransGen (OrderedStep context exempt run) first second) :
    first ≤ second := by
  induction chain with
  | refl => exact le_rfl
  | tail _ step ih => exact ih.trans step.before.le

theorem exempt_of_quiet
    (quiet : ∀ step ∈ stepsBetween run first second, step.IsQuiet context.table)
    {firstOp secondOp : Operation} (firstAt : run[first]? = some (.event (.operation firstOp)))
    (secondAt : run[second]? = some (.event (.operation secondOp)))
    (ordered : Ordered context exempt run first second) :
    firstOp.pipeline context.table = secondOp.pipeline context.table ∧
      exempt (firstOp.pipeline context.table) := by
  have onlyOperations : ∀ event ∈ (stepsBetween run first second).filterMap Step.event?,
      ∃ op, event = .operation op := by
    intro event member
    obtain ⟨step, between, isEvent⟩ := List.mem_filterMap.mp member
    have isQuiet := quiet step between
    cases step with
    | event happened =>
      cases isEvent
      cases event with
      | operation op => exact ⟨op, rfl⟩
      | _ => exact isQuiet.elim
    | passes place => cases isEvent
  obtain ⟨middle, step, chain⟩ := Relation.TransGen.head'_iff.mp ordered
  obtain ⟨before, firstOther, middleOp, foundFirst, foundMiddle, conflict, directly⟩ := step
  cases firstAt.symm.trans foundFirst
  rcases (le_of_reflTransGen chain).lt_or_eq with inBetween | rfl
  · -- an operation in between would have to access memory
    have touchesNothing := quiet _ (mem_stepsBetween before inBetween foundMiddle)
    obtain ⟨_, _, touch, touched, _⟩ := conflict
    simp only [Step.IsQuiet] at touchesNothing
    rw [touchesNothing] at touched
    cases touched
  · cases secondAt.symm.trans foundMiddle
    generalize firstOp.pipeline context.table = source at directly ⊢
    generalize secondOp.pipeline context.table = target at directly ⊢
    cases directly with
    | barrierAll member =>
      obtain ⟨op, isOperation⟩ := onlyOperations _ member
      cases isOperation
    | exempt isExempt => exact ⟨rfl, isExempt⟩
    | barrier member =>
      obtain ⟨op, isOperation⟩ := onlyOperations _ member
      cases isOperation
    | handoff distinct handoff =>
      exact absurd (handoff_of_operations onlyOperations handoff).symm distinct

end QuietRuns

theorem loadTile_conflicts : Conflicts (vectorContext .a2) loadTile expTile :=
  ⟨⟨"a_ub", true, false⟩, by decide, ⟨"a_ub", false, false⟩, by decide, Or.inl rfl, Or.inl rfl⟩

theorem expTile_conflicts : Conflicts (vectorContext .a2) expTile loadTile :=
  ⟨⟨"a_ub", false, false⟩, by decide, ⟨"a_ub", true, false⟩, by decide, Or.inl rfl, Or.inr rfl⟩

/--
Two conflicting operations of the vector unit, at two positions of a run of the output, that
nothing orders.
-/
structure UnorderedPair
    (platform : Platform)
    (body : SourceBody)
    (run : List Step)
    (first second : Nat)
    (firstOp secondOp : Operation) :
    Prop where
  runs :
    ∃ output,
      substituteUnits (vectorContext platform) 0 body = some output ∧
        (run, .normal) ∈ behaviour (vectorContext platform) .vector false false output
  before : first < second
  firstAt : run[first]? = some (.event (.operation firstOp))
  secondAt : run[second]? = some (.event (.operation secondOp))
  conflict : Conflicts (vectorContext platform) firstOp secondOp
  unordered : ¬ Ordered (vectorContext platform) (· = .s) run first second

/-! ## Blocks of their own -/

/-- A loop over a block of the other unit and two blocks that each do one operation. -/
def scopedTiles : SourceBody :=
  .forLoop [] ⟨"k", .literal 0, .var "n", .serial, [], none⟩
    (.wrap [] (.resourceScope .cube) (.stop [])
      (vectorBlock (.operation [] loadTile (.stop []))
        (vectorBlock (.operation [] expTile (.stop [])) (.stop []))))
    (.stop [])

/-- Two vector operations in blocks inside another one. -/
def nestedExps : SourceBody :=
  vectorBlock
    (vectorBlock (.operation [] expTile (.stop []))
      (vectorBlock (.operation [] expTile (.stop [])) (.stop [])))
    (.stop [])

/-- What the vector unit does in an outermost block with one operation. -/
def blockSteps (op : Operation) : List Step :=
  [.passes .scopeChange, .event (.operation op), .passes .scopeChange]

/-- Two iterations of the loop. -/
def scopedTilesRun : List Step :=
  blockSteps loadTile ++ blockSteps expTile ++ (blockSteps loadTile ++ blockSteps expTile)

/-- The two operations in one outermost block. -/
def nestedExpsRun : List Step :=
  [.passes .scopeChange, .event (.operation expTile), .event (.operation expTile),
    .passes .scopeChange]

section Runs

variable {context : PassContext} {inside inFor : Bool} {op : Operation}
  {rest : RebuiltBody SyncUnit} {later : List Step} {exit : Exit}

theorem behaviour_stop : ([], .normal) ∈ behaviour context .vector inside inFor (.stop []) :=
  mem_emit []

theorem behaviour_operation {syncs : List SyncUnit}
    (notFenced : fencedOperation context inFor op = false) (goesOn : op ≠ loopBreak)
    (member : (later, exit) ∈ behaviour context .vector inside inFor rest) :
    (syncSteps syncs ++ .event (.operation op) :: later, exit) ∈
      behaviour context .vector inside inFor (.operation syncs op rest) := by
  have steps : operationSteps context inFor syncs op =
      syncSteps syncs ++ [.event (.operation op)] := by
    rw [operationSteps, notFenced]
    rfl
  unfold behaviour
  rw [if_neg goesOn, List.append_cons, ← steps]
  exact mem_emit_andThen _ member

variable {body : RebuiltBody SyncUnit} {steps : List Step}

theorem behaviour_outermost (inBody : (steps, .normal) ∈ behaviour context .vector true inFor body)
    (member : (later, .normal) ∈ behaviour context .vector false inFor rest) :
    (.passes .scopeChange :: steps ++ .passes .scopeChange :: later, .normal) ∈
      behaviour context .vector false inFor (.wrap [] (.resourceScope .vector) body rest) := by
  have block := mem_emit_andThen [.passes .scopeChange]
    (mem_andThen inBody (mem_emit [.passes .scopeChange]))
  have whole := mem_emit_andThen [] (mem_andThen block member)
  simpa [behaviour, wrapperRuns, fenceIf, Wrapper.isFenced, syncSteps, syncEvents] using whole

theorem behaviour_nested (inBody : (steps, .normal) ∈ behaviour context .vector true inFor body)
    (member : (later, .normal) ∈ behaviour context .vector true inFor rest) :
    (steps ++ later, .normal) ∈
      behaviour context .vector true inFor (.wrap [] (.resourceScope .vector) body rest) := by
  have whole := mem_emit_andThen [] (mem_andThen inBody member)
  simpa [behaviour, wrapperRuns, fenceIf, Wrapper.isFenced, syncSteps, syncEvents] using whole

theorem behaviour_other (body : RebuiltBody SyncUnit)
    (member : (later, .normal) ∈ behaviour context .vector inside inFor rest) :
    (later, .normal) ∈
      behaviour context .vector inside inFor (.wrap [] (.resourceScope .cube) body rest) :=
  mem_emit_andThen [] (mem_emit_andThen [] member)

theorem behaviour_twice (header : LoopHeader) {round : List Step}
    (inBody : (round, .normal) ∈ behaviour context .vector inside true body)
    (member : (later, .normal) ∈ behaviour context .vector inside inFor rest) :
    (round ++ round ++ later, .normal) ∈
      behaviour context .vector inside inFor (.forLoop [] header body rest) := by
  have rounds : (round ++ [] ++ round, .normal) ∈
      repeated [] (behaviour context .vector inside true body) :=
    .again inBody (.last inBody)
  rw [List.append_nil] at rounds
  have loop : (round ++ round, .normal) ∈ forRuns context header.extent
      (behaviour context .vector inside true body) :=
    Or.inr ⟨rfl, Or.inl rounds⟩
  exact mem_emit_andThen [] (mem_andThen loop member)

end Runs

theorem scopedTilesRun_member :
    ∃ output,
      substituteUnits (vectorContext .a2) 0 scopedTiles = some output ∧
        (scopedTilesRun, .normal) ∈ behaviour (vectorContext .a2) .vector false false output := by
  refine ⟨.forLoop [] ⟨"k", .literal 0, .var "n", .serial, [], none⟩
    (.wrap [] (.resourceScope .cube) (.stop [])
      (.wrap [] (.resourceScope .vector) (.operation [] loadTile (.stop []))
        (.wrap [] (.resourceScope .vector) (.operation [] expTile (.stop [])) (.stop []))))
    (.stop []), by decide +kernel, ?_⟩
  have loads : ([.event (.operation loadTile)], .normal) ∈
      behaviour (vectorContext .a2) .vector true true (.operation [] loadTile (.stop [])) :=
    behaviour_operation (by decide) (by decide) behaviour_stop
  have computes : ([.event (.operation expTile)], .normal) ∈
      behaviour (vectorContext .a2) .vector true true (.operation [] expTile (.stop [])) :=
    behaviour_operation (by decide) (by decide) behaviour_stop
  have round := behaviour_other (.stop []) (behaviour_outermost loads
    (behaviour_outermost computes behaviour_stop))
  exact behaviour_twice _ round behaviour_stop

theorem nestedExpsRun_member :
    ∃ output,
      substituteUnits (vectorContext .a5) 0 nestedExps = some output ∧
        (nestedExpsRun, .normal) ∈ behaviour (vectorContext .a5) .vector false false output := by
  refine ⟨.wrap [] (.resourceScope .vector)
    (.wrap [] (.resourceScope .vector) (.operation [] expTile (.stop []))
      (.wrap [] (.resourceScope .vector) (.operation [] expTile (.stop [])) (.stop [])))
    (.stop []), by decide +kernel, ?_⟩
  have computes : ([.event (.operation expTile)], .normal) ∈
      behaviour (vectorContext .a5) .vector true false (.operation [] expTile (.stop [])) :=
    behaviour_operation (by decide) (by decide) behaviour_stop
  exact behaviour_outermost
    (behaviour_nested computes (behaviour_nested computes behaviour_stop)) behaviour_stop

/--
Nothing orders an operation of an outermost block after what other blocks have done, be they side
by side or in an earlier iteration; on A5 nothing orders vector operations in nested blocks either.
-/
theorem scopedTiles_unordered :
    UnorderedPair .a2 scopedTiles scopedTilesRun 1 4 loadTile expTile ∧
      UnorderedPair .a2 scopedTiles scopedTilesRun 4 7 expTile loadTile ∧
      UnorderedPair .a5 nestedExps nestedExpsRun 1 2 expTile expTile := by
  refine ⟨⟨scopedTilesRun_member, by decide, rfl, rfl, loadTile_conflicts, ?_⟩,
    ⟨scopedTilesRun_member, by decide, rfl, rfl, expTile_conflicts, ?_⟩,
    ⟨nestedExpsRun_member, by decide, rfl, rfl, ?_, ?_⟩⟩
  · intro ordered
    have quiet : ∀ step ∈ stepsBetween scopedTilesRun 1 4, step.IsQuiet vectorTable := by
      simp [scopedTilesRun, blockSteps, stepsBetween, Step.IsQuiet]
    exact absurd (exempt_of_quiet quiet rfl rfl ordered).1 (by decide)
  · intro ordered
    have quiet : ∀ step ∈ stepsBetween scopedTilesRun 4 7, step.IsQuiet vectorTable := by
      simp [scopedTilesRun, blockSteps, stepsBetween, Step.IsQuiet]
    exact absurd (exempt_of_quiet quiet rfl rfl ordered).1 (by decide)
  · exact ⟨⟨"b_ub", true, false⟩, by decide, ⟨"b_ub", true, false⟩, by decide, Or.inl rfl,
      Or.inl rfl⟩
  · intro ordered
    have quiet : ∀ step ∈ stepsBetween nestedExpsRun 1 2, step.IsQuiet vectorTable := by
      simp [nestedExpsRun, stepsBetween]
    exact absurd (exempt_of_quiet quiet rfl rfl ordered).2 (by decide)

end TilelangAscend.ScopedSync
