import Mathlib.Tactic.Linarith
import Mathlib.Tactic.Ring
import TilelangAscend.CrossCorePipeline

namespace TilelangAscend.CrossCore

/-!
# Iterations of the staged loops

Which values of the original loop variable the statements of a stage see when the outer loop
and the stage loops run.  A statement is identified by its place in the emitted program, and
its visits are the environments in which the control flow reaches that place.
-/

/-! ## Running loops -/

/-- Values of the variables. -/
abbrev Env := Var → Int

/-- An environment in which one variable has a new value. -/
def Env.set (env : Env) (name : Var) (value : Int) : Env :=
  Function.update env name value

@[simp] theorem Env.set_same (env : Env) (name : Var) (value : Int) :
    env.set name value name = value := by
  simp [Env.set]

@[simp] theorem Env.set_other (env : Env) {name other : Var} (value : Int)
    (distinct : other ≠ name) : env.set name value other = env other := by
  simp [Env.set, distinct]

/-- Value of an expression, where `memory` gives the values of loads and calls. -/
def PrimExpr.eval (memory : Env → PrimExpr → Int) (env : Env) : PrimExpr → Int
  | .intImm value => value
  | .var name => env name
  | .binary .add a b => a.eval memory env + b.eval memory env
  | .binary .sub a b => a.eval memory env - b.eval memory env
  | .binary .mul a b => a.eval memory env * b.eval memory env
  | .binary .div a b => (a.eval memory env).tdiv (b.eval memory env)
  | .binary .floorDiv a b => (a.eval memory env).fdiv (b.eval memory env)
  | .binary .floorMod a b => (a.eval memory env).fmod (b.eval memory env)
  | .binary .min a b => Min.min (a.eval memory env) (b.eval memory env)
  | .binary .max a b => Max.max (a.eval memory env) (b.eval memory env)
  | .binary .eq a b => if a.eval memory env = b.eval memory env then 1 else 0
  | .binary .ne a b => if a.eval memory env ≠ b.eval memory env then 1 else 0
  | .binary .lt a b => if a.eval memory env < b.eval memory env then 1 else 0
  | .binary .le a b => if a.eval memory env ≤ b.eval memory env then 1 else 0
  | .binary .gt a b => if a.eval memory env > b.eval memory env then 1 else 0
  | .binary .ge a b => if a.eval memory env ≥ b.eval memory env then 1 else 0
  | .binary .and a b =>
    if a.eval memory env ≠ 0 ∧ b.eval memory env ≠ 0 then 1 else 0
  | .binary .or a b =>
    if a.eval memory env ≠ 0 ∨ b.eval memory env ≠ 0 then 1 else 0
  | .select condition trueValue falseValue =>
    if condition.eval memory env ≠ 0 then trueValue.eval memory env
    else falseValue.eval memory env
  | expr => memory env expr

/-- The indices of a loop, in order. -/
def indexRange (min extent : Int) : List Int :=
  (List.range extent.toNat).map fun step : Nat => min + (step : Int)

/-- Which part of a compound statement to enter. -/
inductive Branch where
  | body
  | first
  | rest
  | thenCase
  | elseCase
  deriving Repr, DecidableEq

/-- The environments in which a run of a statement reaches the place at the end of a path. -/
def Stmt.visits (memory : Env → PrimExpr → Int) : List Branch → Env → Stmt → List Env
  | [], env, _ => [env]
  | .first :: path, env, .seq first _ => first.visits memory path env
  | .rest :: path, env, .seq _ rest => rest.visits memory path env
  | .body :: path, env, .letStmt name value body =>
    body.visits memory path (env.set name (value.eval memory env))
  | .body :: path, env, .forLoop name min extent body =>
    (indexRange (min.eval memory env) (extent.eval memory env)).flatMap fun index =>
      body.visits memory path (env.set name index)
  | .thenCase :: path, env, .ifThenElse condition thenCase _ =>
    if condition.eval memory env ≠ 0 then thenCase.visits memory path env else []
  | .elseCase :: path, env, .ifThenElse condition _ elseCase =>
    if condition.eval memory env ≠ 0 then [] else elseCase.visits memory path env
  | _ :: _, _, _ => []

/-- Path to one statement of a sequence. -/
def seqPath : Nat → Nat → List Branch
  | 0, _ => []
  | 1, _ => []
  | _ + 2, 0 => [.first]
  | length + 2, index + 1 => .rest :: seqPath (length + 1) index

/-- Path to a statement of a stage in the loop that `rewritePipeline` makes. -/
def stagePath (stages : List (List StmtInfo)) (stage position : Nat) : List Branch :=
  .body :: (seqPath stages.length stage ++
    .body :: .body :: seqPath ((stages[stage]?.getD []).length) position)

variable (min : Int) (memory : Env → PrimExpr → Int) (value : Int)

theorem visits_seqOf (path : List Branch) (env : Env) {stmts : List Stmt} {index : Nat}
    {stmt : Stmt} (present : stmts[index]? = some stmt) :
    (seqOf stmts).visits memory (seqPath stmts.length index ++ path) env =
      stmt.visits memory path env := by
  induction stmts generalizing index with
  | nil => simp at present
  | cons head tail ih =>
    cases tail with
    | nil =>
      cases index with
      | zero =>
        obtain rfl : head = stmt := by simpa using present
        simp [seqOf, seqPath]
      | succ index => simp at present
    | cons next rest =>
      cases index with
      | zero =>
        obtain rfl : head = stmt := by simpa using present
        simp [seqOf, seqPath, Stmt.visits]
      | succ index =>
        have inTail : (next :: rest)[index]? = some stmt := by simpa using present
        simpa [seqOf, seqPath, Stmt.visits] using ih inTail

theorem seqOf_replaceVar (old new : Var) (stmts : List Stmt) :
    (seqOf stmts).replaceVar old new = seqOf (stmts.map (Stmt.replaceVar old new)) := by
  induction stmts with
  | nil => rfl
  | cons head tail ih =>
    cases tail with
    | nil => rfl
    | cons next rest => simp only [seqOf, Stmt.replaceVar, List.map_cons, ih]

/-! ## Index ranges -/

theorem flatMap_range_mul (blocks stages : Nat) :
    ((List.range blocks).flatMap fun block =>
        (List.range stages).map fun step => block * stages + step) =
      List.range (blocks * stages) := by
  induction blocks with
  | zero => simp
  | succ blocks ih =>
    rw [List.range_succ, List.flatMap_append, ih, Nat.succ_mul, List.range_add]
    simp

theorem flatMap_indexRange (extent : Int) (stages : Nat) :
    ((indexRange min extent).flatMap fun block : Int =>
        (indexRange 0 stages).map fun step : Int => block * stages + step) =
      indexRange (min * stages) (extent * stages) := by
  have count : (extent * stages).toNat = extent.toNat * stages := by
    rcases Int.le_total extent 0 with empty | nonnegative
    · have noIndices := Int.mul_nonpos_of_nonpos_of_nonneg empty (Int.natCast_nonneg stages)
      have noBlocks : extent.toNat = 0 := by omega
      rw [noBlocks, Nat.zero_mul]
      omega
    · lift extent to Nat using nonnegative
      rw [← Int.natCast_mul, Int.toNat_natCast, Int.toNat_natCast]
  simp only [indexRange, count, ← flatMap_range_mul, List.map_flatMap, List.flatMap_map,
    List.map_map, Int.toNat_natCast]
  congr 1
  funext block
  apply List.map_congr_left
  intro step _
  simp only [Function.comp_apply]
  push_cast
  ring

theorem indexRange_eq_iff (extent otherMin otherExtent : Int) :
    indexRange min extent = indexRange otherMin otherExtent ↔
      extent.toNat = otherExtent.toNat ∧ (extent ≤ 0 ∨ min = otherMin) := by
  constructor
  · intro same
    have lengths : extent.toNat = otherExtent.toNat := by
      simpa [indexRange] using congrArg List.length same
    refine ⟨lengths, ?_⟩
    rcases lt_or_ge 0 extent with positive | empty
    · right
      have heads := congrArg (fun indices => indices[0]?) same
      have count : 0 < extent.toNat := by omega
      have otherCount : 0 < otherExtent.toNat := by omega
      simpa [indexRange, count, otherCount] using heads
    · exact .inl empty
  · rintro ⟨lengths, empty | rfl⟩
    · have none : extent.toNat = 0 := by omega
      simp [indexRange, ← lengths, none]
    · simp [indexRange, lengths]

/-! ## Iterations of a stage -/

/-- The values of the original loop variable with which a statement of a stage runs. -/
def stageIndices (memory : Env → PrimExpr → Int) (env : Env) (pipeline : Pipeline)
    (statements : List StmtInfo) (stage position : Nat) : List Int :=
  ((rewritePipeline pipeline statements).visits memory
      (stagePath (splitIntoStages statements) stage position) env).map
    fun reached => reached pipeline.transformedVar

/-- The indices of the original loop. -/
def originalIndices (memory : Env → PrimExpr → Int) (env : Env) (pipeline : Pipeline) : List Int :=
  indexRange (pipeline.min.eval memory env) (pipeline.extent.eval memory env)

theorem visits_stageLoop (env : Env) (pipeline : Pipeline) {statements : List StmtInfo}
    {position : Nat} (present : position < statements.length) :
    ((createStageLoopWithBinding pipeline (createStageBody statements)).visits memory
        (.body :: .body :: seqPath statements.length position) env).map
        (fun reached => reached pipeline.transformedVar) =
      (indexRange 0 pipeline.numStages).map fun step =>
        env pipeline.outerLoopVar * pipeline.numStages + step := by
  have outerKept (step : Int) :
      (env.set .stage step) pipeline.outerLoopVar = env pipeline.outerLoopVar :=
    Env.set_other env step (by simp [Pipeline.outerLoopVar])
  have bound (step : Int) :
      pipeline.bindingExpr.eval memory (env.set .stage step) =
        env pipeline.outerLoopVar * pipeline.numStages + step := by
    simp [Pipeline.bindingExpr, PrimExpr.eval, outerKept]
  have reached (inner : Env) :
      ((createStageBody statements).replaceVar pipeline.originalLoopVar
          pipeline.transformedVar).visits memory (seqPath statements.length position) inner =
        [inner] := by
    rw [createStageBody, seqOf_replaceVar]
    have found : ((statements.map StmtInfo.stmt).map
        (Stmt.replaceVar pipeline.originalLoopVar pipeline.transformedVar))[position]? =
        some (statements[position].stmt.replaceVar pipeline.originalLoopVar
          pipeline.transformedVar) := by
      simp [present]
    simpa [Stmt.visits] using visits_seqOf memory [] inner found
  simp only [createStageLoopWithBinding, addLetStmtBinding, Stmt.visits, PrimExpr.eval, reached,
    bound]
  simp only [List.map_flatMap, List.map_cons, List.map_nil, Env.set_same]
  exact List.map_eq_flatMap.symm

theorem stageIndices_eq (env : Env) (pipeline : Pipeline) (statements : List StmtInfo)
    {stage position : Nat} {members : List StmtInfo}
    (isStage : (splitIntoStages statements)[stage]? = some members)
    (isMember : position < members.length) :
    stageIndices memory env pipeline statements stage position =
      indexRange (pipeline.min.eval memory env * pipeline.numStages)
        (pipeline.newExtent.eval memory env * pipeline.numStages) := by
  have found : ((splitIntoStages statements).map fun stage =>
      createStageLoopWithBinding pipeline (createStageBody stage))[stage]? =
      some (createStageLoopWithBinding pipeline (createStageBody members)) := by
    simp [isStage]
  have enter (block : Int) :
      ((createStagedLoops pipeline (splitIntoStages statements)).visits memory
          (seqPath (splitIntoStages statements).length stage ++
            .body :: .body :: seqPath members.length position)
          (env.set pipeline.outerLoopVar block)).map
          (fun reached => reached pipeline.transformedVar) =
        (indexRange 0 pipeline.numStages).map fun step => block * pipeline.numStages + step := by
    have entered := visits_seqOf memory (.body :: .body :: seqPath members.length position)
      (env.set pipeline.outerLoopVar block) found
    rw [List.length_map] at entered
    rw [createStagedLoops, entered, visits_stageLoop memory _ pipeline isMember, Env.set_same]
  rw [← flatMap_indexRange]
  simp only [stageIndices, rewritePipeline, modifyOuterLoop, stagePath, isStage,
    Option.getD_some, Stmt.visits, List.map_flatMap, enter]

/-- The blocks cover as many indices as the original loop has. -/
def Pipeline.CoversIterations (pipeline : Pipeline) (min extent : Int) : Prop :=
  match pipeline.extent with
  | .intImm value =>
    (value ≤ 0 ∧ toInt value < pipeline.numStages) ∨
      (toInt value = value ∧
        (pipeline.numStages = 1 ∨ ((pipeline.numStages : Int) ∣ value ∧ min = 0)))
  | _ => extent ≤ 0 ∨ pipeline.numStages = 1

theorem blocks_eq_iff (extent blocks : Int) {stages : Nat} (positive : 1 ≤ stages) :
    indexRange (min * stages) (blocks * stages) = indexRange min extent ↔
      (blocks * stages).toNat = extent.toNat ∧ (extent ≤ 0 ∨ stages = 1 ∨ min = 0) := by
  have starts : min * stages = min ↔ stages = 1 ∨ min = 0 := by
    constructor
    · intro same
      rcases eq_or_ne min 0 with zero | nonzero
      · exact .inr zero
      · left
        have : (stages : Int) = 1 := by
          apply Int.eq_of_mul_eq_mul_left nonzero
          simpa using same
        omega
    · rintro (rfl | rfl) <;> simp
  rw [indexRange_eq_iff, starts]
  constructor
  · rintro ⟨counts, empty | started⟩
    · exact ⟨counts, .inl (by omega)⟩
    · exact ⟨counts, .inr started⟩
  · rintro ⟨counts, empty | started⟩
    · exact ⟨counts, .inl (by omega)⟩
    · exact ⟨counts, .inr started⟩

theorem multiplied_count_iff (extent : Int) {stages : Nat} (positive : 1 ≤ stages) :
    (extent * stages * stages).toNat = extent.toNat ↔ extent ≤ 0 ∨ stages = 1 := by
  constructor
  · intro counts
    by_contra other
    obtain ⟨many, several⟩ : 0 < extent ∧ 2 ≤ stages := by omega
    have wide : (2 : Int) * 2 ≤ (stages : Int) * stages := by
      apply mul_le_mul <;> omega
    have longer : extent * ((2 : Int) * 2) ≤ extent * ((stages : Int) * stages) :=
      Int.mul_le_mul_of_nonneg_left wide (by omega)
    rw [← Int.mul_assoc extent stages stages] at longer
    omega
  · rintro (empty | rfl)
    · have once : extent * stages ≤ 0 :=
        Int.mul_nonpos_of_nonpos_of_nonneg empty (Int.natCast_nonneg stages)
      have twice : extent * stages * stages ≤ 0 :=
        Int.mul_nonpos_of_nonpos_of_nonneg once (Int.natCast_nonneg stages)
      omega
    · simp

theorem toInt_bounds : -(2 ^ 31) ≤ toInt value ∧ toInt value < 2 ^ 31 := by
  have lower := Int.le_bmod (x := value) (m := 2 ^ 32) (by norm_num)
  have upper := Int.bmod_lt (x := value) (m := 2 ^ 32) (by norm_num)
  simp only [toInt]
  omega

theorem toInt_emod : toInt value % 2 ^ 32 = value % 2 ^ 32 :=
  Int.bmod_emod

/--
Dividing a constant extent keeps its count exactly when the division leaves nothing over and
the extent fits an `int`.
-/
theorem divided_count_iff {stages : Nat} (positive : 1 ≤ stages) :
    ((toInt value).tdiv stages * stages).toNat = value.toNat ↔
      (value ≤ 0 ∧ toInt value < stages) ∨ (toInt value = value ∧ (stages : Int) ∣ value) := by
  have bounds := toInt_bounds value
  have congruent := toInt_emod value
  have division := Int.mul_tdiv_add_tmod (toInt value) stages
  rw [Int.mul_comm] at division
  rcases lt_or_ge (toInt value) 0 with negative | nonnegative
  · have notMore : (toInt value).tdiv stages * stages ≤ 0 := by
      apply Int.mul_nonpos_of_nonpos_of_nonneg _ (Int.natCast_nonneg stages)
      have opposite : 0 ≤ (-toInt value).tdiv stages :=
        Int.tdiv_nonneg (by omega) (Int.natCast_nonneg stages)
      rw [Int.neg_tdiv] at opposite
      omega
    omega
  · have remainder := Int.tmod_nonneg (stages : Int) nonnegative
    have remainderBelow := Int.tmod_lt_of_pos (toInt value) (b := stages) (by omega)
    have atLeast : 0 ≤ (toInt value).tdiv stages * stages :=
      Int.mul_nonneg (Int.tdiv_nonneg nonnegative (Int.natCast_nonneg stages))
        (Int.natCast_nonneg stages)
    have smallQuotient : toInt value < stages → (toInt value).tdiv stages = 0 :=
      Int.tdiv_eq_zero_of_lt nonnegative
    constructor
    · intro counts
      rcases lt_or_ge 0 value with many | empty
      · right
        have fits : toInt value = value := by omega
        refine ⟨fits, (toInt value).tdiv stages, ?_⟩
        rw [Int.mul_comm]
        omega
      · left
        omega
    · rintro (⟨empty, small⟩ | ⟨fits, divides⟩)
      · rw [smallQuotient small]
        omega
      · rw [fits] at division ⊢
        have nothingOver : value.tmod stages = 0 := Int.tmod_eq_zero_of_dvd divides
        omega

/--
A statement of a stage runs once for every original index, in increasing order and for no
other index, if and only if the blocks cover the iterations.
-/
theorem stageIndices_eq_originalIndices_iff
    (memory : Env → PrimExpr → Int)
    (env : Env)
    (pipeline : Pipeline)
    (statements : List StmtInfo)
    {stage position : Nat}
    {members : List StmtInfo}
    (isStage : (splitIntoStages statements)[stage]? = some members)
    (isMember : position < members.length)
    (positive : 1 ≤ pipeline.numStages) :
    stageIndices memory env pipeline statements stage position =
        originalIndices memory env pipeline ↔
      pipeline.CoversIterations (pipeline.min.eval memory env)
        (pipeline.extent.eval memory env) := by
  rw [stageIndices_eq memory env pipeline statements isStage isMember, originalIndices,
    blocks_eq_iff _ _ _ positive]
  cases constant : pipeline.extent with
  | intImm value =>
    simp only [Pipeline.newExtent, Pipeline.CoversIterations, constant, PrimExpr.eval]
    rw [divided_count_iff value positive]
    constructor
    · rintro ⟨empty | ⟨fits, divides⟩, started⟩
      · exact .inl empty
      · rcases started with empty | single | zero
        · exact .inl ⟨empty, by omega⟩
        · exact .inr ⟨fits, .inl single⟩
        · exact .inr ⟨fits, .inr ⟨divides, zero⟩⟩
    · rintro (empty | ⟨fits, single | ⟨divides, zero⟩⟩)
      · exact ⟨.inl empty, .inl empty.1⟩
      · exact ⟨.inr ⟨fits, by simp [single]⟩, .inr (.inl single)⟩
      · exact ⟨.inr ⟨fits, divides⟩, .inr (.inr zero)⟩
  | _ =>
    simp only [Pipeline.newExtent, Pipeline.CoversIterations, constant, PrimExpr.eval]
    rw [multiplied_count_iff _ positive]
    tauto

/-- The condition holds for six iterations in two stages. -/
theorem stageIndices_sixIterations :
    stageIndices (fun _ _ => 0) (fun _ => 0) (handoverPipeline (.intImm 0) (.intImm 6))
        handoverStatements 1 0 =
      originalIndices (fun _ _ => 0) (fun _ => 0) (handoverPipeline (.intImm 0) (.intImm 6)) := by
  have isStage : (splitIntoStages handoverStatements)[1]? =
      some [handoverStatements[1]] := by decide
  refine (stageIndices_eq_originalIndices_iff (fun _ _ => 0) (fun _ => 0)
    (handoverPipeline (.intImm 0) (.intImm 6)) handoverStatements isStage (by decide)
    (by decide)).mpr ?_
  exact .inr ⟨by decide, .inr ⟨by decide, rfl⟩⟩

/--
Five iterations in two stages lose the last one, a symbolic extent of three runs through
twelve indices, and a loop that starts at two runs from four on.
-/
theorem stageIndices_handover :
    (stageIndices (fun _ _ => 0) (fun _ => 3) (handoverPipeline (.intImm 0) (.intImm 5))
          handoverStatements 0 0 = [0, 1, 2, 3] ∧
        originalIndices (fun _ _ => 0) (fun _ => 3)
          (handoverPipeline (.intImm 0) (.intImm 5)) = [0, 1, 2, 3, 4]) ∧
      (stageIndices (fun _ _ => 0) (fun _ => 3)
          (handoverPipeline (.intImm 0) (.var (.source 1 "n"))) handoverStatements 0 0 =
          [0, 1, 2, 3, 4, 5, 6, 7, 8, 9, 10, 11] ∧
        originalIndices (fun _ _ => 0) (fun _ => 3)
          (handoverPipeline (.intImm 0) (.var (.source 1 "n"))) = [0, 1, 2]) ∧
      (stageIndices (fun _ _ => 0) (fun _ => 3) (handoverPipeline (.intImm 2) (.intImm 4))
          handoverStatements 0 0 = [4, 5, 6, 7] ∧
        originalIndices (fun _ _ => 0) (fun _ => 3)
          (handoverPipeline (.intImm 2) (.intImm 4)) = [2, 3, 4, 5]) := by
  decide +kernel

end TilelangAscend.CrossCore
