import Mathlib.Logic.Function.Basic
import TilelangAscend.SoftwarePipeline

namespace TilelangAscend.PipelinePlanning

/-!
# Planning of the software pipeline

`PipelinePlanner` gives every statement of a loop with `num_stages` a stage and an order.
Copies that a later statement uses and statements that prepare a condition go to stage 0,
the other statements to stage `num_stages`.  A copy is ordered right after its last use;
what is still unordered then is put in front, and when the copies end up behind everything
else, they are rotated to the front.
-/

/-! ## Statements -/

/-- A region of a buffer. -/
structure BufferRegion (Region : Type) where
  buffer : String
  region : Region
  deriving Repr, DecidableEq

/--
What `MakePipelineStageInfo` collects of a statement: its accesses, whether it copies from
global memory, and the buffers that the conditions of its `If` statements load, in the order in
which the collector takes each for the conditional expression.  The collector does not visit
the conditions themselves, so `reads` is without these loads.
-/
structure Statement (Region : Type) where
  reads : List (BufferRegion Region)
  writes : List (BufferRegion Region)
  copyStage : Bool
  conditions : List (List String)
  deriving Repr, DecidableEq

/-- The buffers that the conditional expression loads: the condition taken last. -/
def Statement.conditionLoads {Region : Type} (statement : Statement Region) : List String :=
  statement.conditions.getLast?.getD []

/-- Whether a statement reads a buffer, in a condition or elsewhere. -/
def Statement.readsBuffer {Region : Type} (statement : Statement Region) (buffer : String) : Bool :=
  statement.reads.any (·.buffer = buffer) || statement.conditions.flatten.contains buffer

/-- The analysed part of `PipelineStageInfo`; no last use is `-1`. -/
structure StageInfo where
  copyStage : Bool := false
  prepareForCondition : Bool := false
  lastUseStage : Int := -1
  deriving Repr, DecidableEq, Inhabited

section Analysis

variable {Region : Type} (mayConflict : Region → Region → Bool)
  (statements : List (Statement Region))

/-- Whether some write of a statement may conflict with an access to the same buffer. -/
def conflicts (writes : List (BufferRegion Region)) (access : BufferRegion Region) : Bool :=
  writes.any fun write => write.buffer == access.buffer && mayConflict write.region access.region

/-- `prepare_for_condition`: a conditional expression loads what the statement writes. -/
def preparesCondition (statement : Statement Region) : Bool :=
  statement.writes.any fun write =>
    statements.any fun other => other.conditionLoads.contains write.buffer

/-- The statements behind a position, with their positions. -/
def laterStatements (position : Nat) : List (Statement Region × Nat) :=
  statements.zipIdx.drop (position + 1)

/-- `last_use_stage`: the last statement that reads what a copy writes. -/
def lastUseStage (statement : Statement Region) (position : Nat) : Int :=
  if statement.copyStage then
    (laterStatements statements position).foldl
      (fun last other =>
        if other.1.reads.any (conflicts mayConflict statement.writes) then
          max last other.2
        else
          last)
      (-1)
  else
    -1

/-- Whether a later statement overwrites what a copy writes, which aborts the planning. -/
def overwritten (statement : Statement Region) (position : Nat) : Bool :=
  statement.copyStage &&
    (laterStatements statements position).any fun other =>
      other.1.writes.any (conflicts mayConflict statement.writes)

/-- The stage infos after the analysis of conditions and uses. -/
def stageInfos : List StageInfo :=
  statements.zipIdx.map fun entry =>
    { copyStage := entry.1.copyStage
      prepareForCondition := preparesCondition statements entry.1
      lastUseStage := lastUseStage mayConflict statements entry.1 entry.2 }

/-- The stage info of the statement at a position. -/
def infoAt (position : Nat) : StageInfo :=
  (stageInfos mayConflict statements).getD position {}

end Analysis

/-! ## Stages and orders -/

namespace StageInfo

/-- Statements that the main pass leaves for stage 0. -/
def skipped (info : StageInfo) : Bool :=
  (info.copyStage && info.lastUseStage != -1) || info.prepareForCondition

/-- Whether a copy is ordered right after the statement at a position. -/
def lastUsedAt (info : StageInfo) (position : Nat) : Bool :=
  info.copyStage && info.lastUseStage == position

/-- Statements that the planner counts as copies when it looks for copies at the end. -/
def copyLike (info : StageInfo) : Bool :=
  info.copyStage || info.prepareForCondition

end StageInfo

/-- Orders and stages of the statements, and `order_idx`. -/
structure PlanState where
  order : Nat → Int
  stage : Nat → Int
  orderIdx : Nat

/-- Before the first pass nothing is ordered. -/
def PlanState.initial : PlanState where
  order := fun _ => -1
  stage := fun _ => -1
  orderIdx := 0

/-- Give a statement the next order and a stage. -/
def PlanState.assign
    (state : PlanState)
    (position : Nat)
    (stage : Int) :
    PlanState where
  order := Function.update state.order position state.orderIdx
  stage := Function.update state.stage position stage
  orderIdx := state.orderIdx + 1

section Passes

variable (count : Nat) (info : Nat → StageInfo) (numStages : Int)

/-- The copies whose last use a position is. -/
def copiesAfter (position : Nat) : List Nat :=
  (List.range count).filter fun other => (info other).lastUsedAt position

/-- One round of the first pass: a main statement and the copies that it uses last. -/
def assignMain (state : PlanState) (position : Nat) : PlanState :=
  if (info position).skipped then
    state
  else
    (List.range count).foldl
      (fun state other => if (info other).lastUsedAt position then state.assign other 0 else state)
      (state.assign position numStages)

/-- The first pass over all statements. -/
def firstPass : PlanState :=
  (List.range count).foldl (assignMain count info numStages) .initial

/--
One round of the second pass.  A statement whose order is the sentinel keeps it and goes to
stage 0, the sentinel is incremented, and the orders from the position of the new sentinel
on are shifted.
-/
def assignHead (current : PlanState × Int) (position : Nat) : PlanState × Int :=
  if current.1.order position = current.2 then
    ({ order := fun other =>
         if current.2 + 1 ≤ other then current.1.order other + 1 else current.1.order other
       stage := Function.update current.1.stage position 0
       orderIdx := current.1.orderIdx + 1 },
      current.2 + 1)
  else
    current

/-- The second pass over all statements. -/
def secondPass (state : PlanState) : PlanState :=
  ((List.range count).foldl assignHead (state, -1)).1

/-- `copy_stage_at_end`: the number of copies if all of them come after the others. -/
def copyStageAtEnd (state : PlanState) : Int :=
  let copies := (List.range count).filter fun position => (info position).copyLike
  let others := (List.range count).filter fun position => !(info position).copyLike
  let copyOrderMin := (copies.map state.order).foldl min (count : Int)
  let nonCopyOrderMax := (others.map state.order).foldl max 0
  if nonCopyOrderMax < copyOrderMin then
    copies.length
  else
    -1

/-- Move copies at the end to the beginning and the other statements one stage down. -/
def rotateCopies (state : PlanState) : PlanState :=
  let atEnd := copyStageAtEnd count info state
  if 0 < atEnd ∧ 2 ≤ numStages then
    { state with
      order := fun position => (state.order position + atEnd) % count
      stage := fun position =>
        if (info position).copyLike then state.stage position else state.stage position - 1 }
  else
    state

end Passes

/-- Stage and order that the planner annotates for a statement. -/
structure Annotation where
  stage : Int
  order : Int
  deriving Repr, DecidableEq

/--
The planner on a loop body: the annotations of its statements, unless it aborts because of
`num_stages`, an empty body, two writes to overlapping regions or a wrong number of orders.
-/
def planPipeline {Region : Type} (mayConflict : Region → Region → Bool) (numStages : Int)
    (statements : List (Statement Region)) : Option (List Annotation) :=
  let count := statements.length
  let info := infoAt mayConflict statements
  let ordered := secondPass count (firstPass count info numStages)
  if numStages < 1 ∨ count = 0 then
    none
  else if statements.zipIdx.any fun entry => overwritten mayConflict statements entry.1 entry.2 then
    none
  else if ordered.orderIdx ≠ count then
    none
  else
    let final := rotateCopies count info numStages ordered
    some ((List.range count).map fun position =>
      { stage := final.stage position, order := final.order position })

/-! ## What the plan promises -/

/--
A loop that carries a plan: each block has the annotation of its statement and declares no
accesses to buffers other than those collected for the statement and the loads of its
conditions, which the injector declares as reads.
-/
structure Carries
    {Region : Type}
    (statements : List (Statement Region))
    (annotations : List Annotation)
    (loop : SoftwarePipeline.PipelineLoop) :
    Prop where
  length : loop.body.length = statements.length
  blocks :
    ∀ (position : Nat) (block : SoftwarePipeline.Block) (statement : Statement Region)
        (plan : Annotation),
      loop.body[position]? = some block →
      statements[position]? = some statement →
      annotations[position]? = some plan →
      block.stage = plan.stage ∧ (block.order : Int) = plan.order ∧
        (∀ buffer, block.readsBuffer buffer = true → statement.readsBuffer buffer = true) ∧
        ∀ buffer, block.writesBuffer buffer = true →
          ∃ write ∈ statement.writes, write.buffer = buffer

/-- A statement reads a buffer that an earlier one writes. -/
def DependsOn {Region : Type} (writer reader : Statement Region) : Prop :=
  ∃ write ∈ writer.writes, reader.readsBuffer write.buffer = true

instance
    {Region : Type}
    (writer reader : Statement Region) :
    Decidable (DependsOn writer reader) :=
  inferInstanceAs (Decidable (∃ write ∈ writer.writes, _))

/-- A statement that reads what an earlier one writes comes after it in the pipeline. -/
def DependencesFollow
    {Region : Type}
    (statements : List (Statement Region))
    (annotations : List Annotation) :
    Prop :=
  ∀ (earlier later : Nat) (writer reader : Statement Region)
      (writerPlan readerPlan : Annotation),
    earlier < later →
    statements[earlier]? = some writer →
    statements[later]? = some reader →
    DependsOn writer reader →
    annotations[earlier]? = some writerPlan →
    annotations[later]? = some readerPlan →
    writerPlan.stage < readerPlan.stage ∨
      (writerPlan.stage = readerPlan.stage ∧ writerPlan.order < readerPlan.order)

/-- A plan that the injector can use. -/
structure PlanValid
    {Region : Type}
    (statements : List (Statement Region))
    (annotations : List Annotation) :
    Prop where
  /-- The orders are a permutation of the positions. -/
  permutation :
    (annotations.map Annotation.order).Perm ((List.range statements.length).map Int.ofNat)
  /-- A statement comes after the earlier ones that it depends on. -/
  dependences : DependencesFollow statements annotations
  /-- The injector accepts every loop that carries the plan. -/
  accepted : ∀ loop, Carries statements annotations loop → loop.ValidatePipelineBody

/-! ## When the plan keeps it -/

section Condition

variable (count : Nat) (info : Nat → StageInfo)

/-- A copy whose last use is a statement that the main pass orders. -/
def IsPlaced (position : Nat) : Prop :=
  ∃ main < count, (info main).skipped = false ∧ (info position).lastUsedAt main = true

instance (position : Nat) : Decidable (IsPlaced count info position) :=
  inferInstanceAs (Decidable (∃ main < count, _))

/-- A statement of stage 0 that the first pass leaves unordered. -/
def IsHead (position : Nat) : Prop :=
  (info position).skipped = true ∧ ¬ IsPlaced count info position

instance (position : Nat) : Decidable (IsHead count info position) :=
  inferInstanceAs (Decidable (_ ∧ _))

/-- In front of every head but the last one there are only heads. -/
def HeadsFirst : Prop :=
  ∀ second < count, ∀ first < second, IsHead count info first → IsHead count info second →
    ∀ position < first, IsHead count info position

instance : Decidable (HeadsFirst count info) :=
  inferInstanceAs (Decidable (∀ second < count, ∀ first < second, _))

/-- The loop bodies for which the planner keeps every dependence. -/
structure KeepsDependences
    {Region : Type}
    (statements : List (Statement Region)) :
    Prop where
  headsFirst : HeadsFirst count info
  /--
  A dependent statement is not moved to stage 0, or its writer is moved there too and is a
  head, or is a copy that is used last no later than the dependent copy is.
  -/
  dependences :
    ∀ later < count, ∀ earlier < later,
      ∀ writer ∈ statements[earlier]?, ∀ reader ∈ statements[later]?, DependsOn writer reader →
        (info later).skipped = false ∨
          ((info earlier).skipped = true ∧
            (IsHead count info earlier ∨
              (IsPlaced count info later ∧
                (info earlier).lastUseStage ≤ (info later).lastUseStage)))

end Condition

end TilelangAscend.PipelinePlanning
