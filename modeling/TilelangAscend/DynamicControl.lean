import TilelangAscend.DependencyCycles
import TilelangAscend.GraphContraction
import TilelangAscend.RelatedLists
import TilelangAscend.Scheduler

namespace TilelangAscend.Simulator

open DependencyOrder
open GraphContraction
open RelatedLists

/-!
# Programs with dynamic control

Tasks of data-dependent branches carry guards.  Once the outcomes of the guards are known,
`_program_for_dynamic_control` drops the tasks whose guards fail and lets the others depend on
what the dropped ones led to.  It does so for `dependencies` and `memory_dependencies`; the
`hardware_dependencies` and `unit_flag_dependencies` stay as they are.
-/

/-- An entry of `dynamic_predicates`: a guard and the outcome that its task is for. -/
structure DynamicPredicate where
  predicateId : Nat
  expected : Bool
  deriving Repr, DecidableEq

/-- A program and the guards of its tasks. -/
structure DynamicProgram where
  program : KernelProgram
  dynamicPredicates : TaskId → List DynamicPredicate

/--
Outcomes of the guards.  The functional simulator evaluates each guard once, at the first task
that asks for it; in sync-only mode one configured outcome holds for all of them.
-/
abbrev Decisions := Nat → Bool

namespace DynamicProgram

/-- Whether all guards of a task have the outcome that it is for. -/
def active (dynamic : DynamicProgram) (decisions : Decisions) (taskId : TaskId) : Bool :=
  (dynamic.dynamicPredicates taskId).all fun predicate =>
    decisions predicate.predicateId = predicate.expected

/-- Whether a task is left out: it has guards and is not active. -/
def dropped (dynamic : DynamicProgram) (decisions : Decisions) (taskId : TaskId) : Bool :=
  !(dynamic.dynamicPredicates taskId).isEmpty && !dynamic.active decisions taskId

/-- Whether an identifier names a task. -/
def known (dynamic : DynamicProgram) (taskId : TaskId) : Bool :=
  taskId ∈ dynamic.program.tasks.map Task.taskId

/-- `active_dependency_ids`: the tasks that stand in for a list of dependencies, sorted. -/
def activeDependencyIds (dynamic : DynamicProgram) (decisions : Decisions)
    (dependencies : List TaskId) : Option (List TaskId) :=
  contract (dependenciesOf dynamic.program.tasks) dynamic.known (dynamic.dropped decisions)
    (dynamic.program.tasks.length + 1) dependencies

end DynamicProgram

/-- A task with other dependencies, if its constructor accepts them. -/
def Task.replaceDependencies (task : Task)
    (dependencies memoryDependencies : List TaskId) : Option Task :=
  if accepted : task.taskId ∉ dependencies ∧ dependencies.Nodup then
    some
      { task with
        dependencies := dependencies
        metadata := { task.metadata with memoryDependencies := memoryDependencies }
        notSelfDependent := accepted.1
        dependenciesUnique := accepted.2 }
  else
    none

/-- A core with other tasks, if its constructor accepts them. -/
def CoreProgram.replaceTasks (core : CoreProgram) (tasks : List Task) : Option CoreProgram :=
  if owned : ∀ task ∈ tasks, task.coreId = core.coreId then
    some { coreId := core.coreId, tasks := tasks, tasksOwned := owned }
  else
    none

/-- A program with other cores, if its constructor accepts them. -/
def KernelProgram.replaceCores (program : KernelProgram) (cores : List CoreProgram) :
    Option KernelProgram :=
  if accepted :
      (cores.map CoreProgram.coreId).Nodup ∧ ((programTasks cores).map Task.taskId).Nodup ∧
        (∀ task ∈ programTasks cores,
          ∀ dependency ∈ task.dependencies, dependency ∈ (programTasks cores).map Task.taskId) ∧
        validateAcyclic (programTasks cores) = true then
    some
      { platform := program.platform
        cores := cores
        coresUnique := accepted.1
        idsUnique := accepted.2.1
        dependenciesKnown := accepted.2.2.1
        acyclic := accepted.2.2.2 }
  else
    none

namespace DynamicProgram

/-- A kept task with its dependencies replaced. -/
def resolveTask
    (dynamic : DynamicProgram)
    (decisions : Decisions)
    (task : Task) :
    Option Task := do
  let memoryDependencies ← dynamic.activeDependencyIds decisions task.metadata.memoryDependencies
  let dependencies ← dynamic.activeDependencyIds decisions task.dependencies
  task.replaceDependencies dependencies memoryDependencies

/-- A core with its kept tasks. -/
def resolveCore
    (dynamic : DynamicProgram)
    (decisions : Decisions)
    (core : CoreProgram) :
    Option CoreProgram := do
  let tasks ←
    (core.tasks.filter fun task => !dynamic.dropped decisions task.taskId).mapM
      (dynamic.resolveTask decisions)
  core.replaceTasks tasks

end DynamicProgram

/-- `_program_for_dynamic_control`, once the outcomes of the guards are known. -/
def programForDynamicControl (dynamic : DynamicProgram) (decisions : Decisions) :
    Option KernelProgram :=
  if dynamic.program.tasks.all fun task => (dynamic.dynamicPredicates task.taskId).isEmpty then
    some dynamic.program
  else do
    let cores ← dynamic.program.cores.mapM (dynamic.resolveCore decisions)
    dynamic.program.replaceCores cores

/-! ## What is expected of the resolved program -/

/-- An execution dependency of a task of a list. -/
def ExecutionEdge (tasks : List Task) (first second : TaskId) : Prop :=
  ∃ task ∈ tasks, task.taskId = second ∧ first ∈ executionDependencies task

/-- A declared dependency of a task of a list. -/
def DependencyEdge (tasks : List Task) (first second : TaskId) : Prop :=
  ∃ task ∈ tasks, task.taskId = second ∧ first ∈ task.dependencies

/-- The identifiers that a task names as dependencies of any kind. -/
def Task.namedDependencies (task : Task) : List TaskId :=
  task.dependencies ++ task.metadata.memoryDependencies ++ task.metadata.hardwareDependencies ++
    task.metadata.unitFlagDependencies

/-- Metadata of a task apart from its memory dependencies. -/
def TaskMetadata.withoutMemory (metadata : TaskMetadata) : TaskMetadata :=
  { metadata with memoryDependencies := [] }

/-- Two tasks that differ at most in their dependencies and memory dependencies. -/
structure SameOperation (resolved task : Task) : Prop where
  taskId : resolved.taskId = task.taskId
  operation : resolved.operation = task.operation
  resource : resolved.resource = task.resource
  durationCycles : resolved.durationCycles = task.durationCycles
  metadata : resolved.metadata.withoutMemory = task.metadata.withoutMemory

namespace SameOperation

theorem refl (task : Task) : SameOperation task task :=
  ⟨rfl, rfl, rfl, rfl, rfl⟩

variable {resolved task : Task}

theorem hardwareDependencies (same : SameOperation resolved task) :
    resolved.metadata.hardwareDependencies = task.metadata.hardwareDependencies := by
  have sameMetadata := congrArg TaskMetadata.hardwareDependencies same.metadata
  exact sameMetadata

theorem unitFlagDependencies (same : SameOperation resolved task) :
    resolved.metadata.unitFlagDependencies = task.metadata.unitFlagDependencies := by
  have sameMetadata := congrArg TaskMetadata.unitFlagDependencies same.metadata
  exact sameMetadata

end SameOperation

/-- The resolved program keeps the active tasks, names only them, and keeps their order. -/
structure ResolvesControl
    (dynamic : DynamicProgram)
    (decisions : Decisions)
    (resolved : KernelProgram) :
    Prop where
  activeTasks :
    List.Forall₂ SameOperation resolved.tasks
      (dynamic.program.tasks.filter fun task => dynamic.active decisions task.taskId)
  namesActive :
    ∀ task ∈ resolved.tasks, ∀ named ∈ task.namedDependencies,
      named ∈ resolved.tasks.map Task.taskId
  acyclic : ∀ taskId, ¬ Relation.TransGen (DependencyEdge resolved.tasks) taskId taskId
  reachable :
    ∀ first second, dynamic.active decisions first = true → dynamic.active decisions second = true →
      Relation.TransGen (ExecutionEdge dynamic.program.tasks) first second →
      Relation.TransGen (ExecutionEdge resolved.tasks) first second

/-- Every hardware and unit-flag dependency of an active task is an active task. -/
def HardwareActive (dynamic : DynamicProgram) (decisions : Decisions) : Prop :=
  ∀ task ∈ dynamic.program.tasks, dynamic.active decisions task.taskId = true →
    ∀ named ∈ task.metadata.hardwareDependencies ++ task.metadata.unitFlagDependencies,
      named ∈ dynamic.program.tasks.map Task.taskId ∧ dynamic.active decisions named = true

/-- Every memory dependency of an active task is a task. -/
def MemoryKnown (dynamic : DynamicProgram) (decisions : Decisions) : Prop :=
  ∀ task ∈ dynamic.program.tasks, dynamic.active decisions task.taskId = true →
    ∀ named ∈ task.metadata.memoryDependencies, named ∈ dynamic.program.tasks.map Task.taskId

/-- Execution dependencies of the task of an identifier. -/
def executionDependenciesOf (tasks : List Task) (taskId : TaskId) : List TaskId :=
  match tasks.find? (·.taskId = taskId) with
  | some task => executionDependencies task
  | none => []

/--
No active task that an execution dependency leads to, past dropped tasks, is one that a memory
dependency of the same task leads to, unless it is a hardware dependency.
-/
def NoDemotedEdge (dynamic : DynamicProgram) (decisions : Decisions) : Prop :=
  ∀ task ∈ dynamic.program.tasks, dynamic.active decisions task.taskId = true →
    ∀ dependency ∈ executionDependencies task,
      ∀ memory ∈ task.metadata.memoryDependencies,
        ∀ target,
          LeadsTo (executionDependenciesOf dynamic.program.tasks) (dynamic.dropped decisions)
            dependency target →
          LeadsTo (dependenciesOf dynamic.program.tasks) (dynamic.dropped decisions) memory target →
          target ∈ task.metadata.hardwareDependencies

/-- Edges as the bridge emits them: inferred memory edges and hardware edges, nothing else. -/
structure BridgeEdges (program : KernelProgram) : Prop where
  memory :
    ∀ task ∈ program.tasks, ∀ named ∈ task.metadata.memoryDependencies, named ∈ task.dependencies
  hardware :
    ∀ task ∈ program.tasks, ∀ named ∈ task.metadata.hardwareDependencies, named ∈ task.dependencies
  declared :
    ∀ task ∈ program.tasks, ∀ dependency ∈ task.dependencies,
      dependency ∈ task.metadata.memoryDependencies ∨
        dependency ∈ task.metadata.hardwareDependencies

/-! ## Resolving one task -/

variable {α β : Type} {elements : List α} {function : α → Option β} {values : List β}

theorem exists_mapM (succeeds : ∀ element ∈ elements, ∃ value, function element = some value) :
    ∃ values, elements.mapM function = some values := by
  induction elements with
  | nil => exact ⟨[], rfl⟩
  | cons element rest ih =>
    obtain ⟨value, isValue⟩ := succeeds element List.mem_cons_self
    obtain ⟨values, mapped⟩ := ih
      fun other member => succeeds other (List.mem_cons_of_mem _ member)
    exact ⟨value :: values, by simp [List.mapM_cons, isValue, mapped]⟩

theorem forall₂_of_mapM (mapped : elements.mapM function = some values) :
    List.Forall₂ (fun element value => function element = some value) elements values := by
  induction elements generalizing values with
  | nil =>
    cases mapped
    exact .nil
  | cons element rest ih =>
    rw [List.mapM_cons] at mapped
    obtain ⟨value, isValue, later⟩ := Option.bind_eq_some_iff.mp mapped
    obtain ⟨restValues, restMapped, isCons⟩ := Option.bind_eq_some_iff.mp later
    cases isCons
    exact .cons isValue (ih restMapped)

theorem map_eq_of_forall₂ {γ : Type} {related : α → β → Prop} {first : α → γ}
    {second : β → γ} (pairs : List.Forall₂ related elements values)
    (same : ∀ element value, related element value → first element = second value) :
    elements.map first = values.map second := by
  induction pairs with
  | nil => rfl
  | cons isRelated _ ih => rw [List.map_cons, List.map_cons, same _ _ isRelated, ih]

section Resolve

variable {dynamic : DynamicProgram} {decisions : Decisions}
  {taskId target : TaskId} {task : Task} {resolved : KernelProgram}

theorem dropped_eq_false :
    dynamic.dropped decisions taskId = false ↔ dynamic.active decisions taskId = true := by
  unfold DynamicProgram.dropped DynamicProgram.active
  cases predicates : dynamic.dynamicPredicates taskId <;> simp

/-- A resolved task is the task with contracted dependencies. -/
structure ResolvesTask
    (dynamic : DynamicProgram)
    (decisions : Decisions)
    (task resolved : Task) :
    Prop where
  same : SameOperation resolved task
  dependencies :
    ∀ target,
      target ∈ resolved.dependencies ↔
        ∃ dependency ∈ task.dependencies,
          LeadsTo (dependenciesOf dynamic.program.tasks) (dynamic.dropped decisions) dependency
            target
  memoryDependencies :
    ∀ target,
      target ∈ resolved.metadata.memoryDependencies ↔
        ∃ dependency ∈ task.metadata.memoryDependencies,
          LeadsTo (dependenciesOf dynamic.program.tasks) (dynamic.dropped decisions) dependency
            target

theorem resolvesTask_of_some {resolved : Task}
    (isResolved : dynamic.resolveTask decisions task = some resolved) :
    ResolvesTask dynamic decisions task resolved := by
  obtain ⟨memory, memoryContracted, later⟩ := Option.bind_eq_some_iff.mp isResolved
  obtain ⟨dependencies, contracted, replaced⟩ := Option.bind_eq_some_iff.mp later
  unfold Task.replaceDependencies at replaced
  split at replaced
  · cases replaced
    exact ⟨⟨rfl, rfl, rfl, rfl, rfl⟩, fun _ => mem_contract contracted,
      fun _ => mem_contract memoryContracted⟩
  · cases replaced

theorem LeadsTo.depth_le {needs : TaskId → List TaskId} {dropped : TaskId → Bool}
    {depth : TaskId → Nat} (measured : ∀ taskId, ∀ need ∈ needs taskId, depth need < depth taskId)
    (leads : LeadsTo needs dropped taskId target) : depth target ≤ depth taskId := by
  induction leads with
  | here => exact le_rfl
  | through _ isNeed _ ih => exact ih.trans (measured _ _ isNeed).le

theorem LeadsTo.known
    (leads :
      LeadsTo (dependenciesOf dynamic.program.tasks) (dynamic.dropped decisions) taskId target)
    (isTask : taskId ∈ dynamic.program.tasks.map Task.taskId) :
    target ∈ dynamic.program.tasks.map Task.taskId := by
  induction leads with
  | here => exact isTask
  | through _ isNeed _ ih =>
    exact ih (dynamic.program.dependencies_closed _ isTask _ isNeed)

theorem exists_activeDependencyIds (decisions : Decisions) {taskIds : List TaskId}
    (areTasks : ∀ taskId ∈ taskIds, taskId ∈ dynamic.program.tasks.map Task.taskId) :
    ∃ resolved, dynamic.activeDependencyIds decisions taskIds = some resolved := by
  obtain ⟨depth, measured, bounded⟩ := dynamic.program.exists_depth
  refine exists_contract measured ?_ ?_ ?_
  · intro taskId isKnown need isNeed
    simp only [DynamicProgram.known, decide_eq_true_eq] at isKnown ⊢
    exact dynamic.program.dependencies_closed taskId isKnown need isNeed
  · intro taskId member
    simpa [DynamicProgram.known] using areTasks taskId member
  · intro taskId member
    exact (bounded taskId (areTasks taskId member)).trans (Nat.lt_succ_self _)

theorem exists_resolveTask (isTask : task ∈ dynamic.program.tasks)
    (memoryKnown :
      ∀ named ∈ task.metadata.memoryDependencies, named ∈ dynamic.program.tasks.map Task.taskId) :
    ∃ resolved, dynamic.resolveTask decisions task = some resolved := by
  obtain ⟨memory, memoryContracted⟩ := exists_activeDependencyIds decisions memoryKnown
  obtain ⟨dependencies, contracted⟩ :=
    exists_activeDependencyIds decisions (dynamic.program.dependenciesKnown task isTask)
  obtain ⟨depth, measured, _⟩ := dynamic.program.exists_depth
  have notSelf : task.taskId ∉ dependencies := by
    intro isSelf
    obtain ⟨dependency, isDependency, leads⟩ := (mem_contract contracted).mp isSelf
    have lower := measured task.taskId dependency
      (by rwa [dependenciesOf_task dynamic.program.taskIds_nodup isTask])
    exact absurd (LeadsTo.depth_le measured leads) (not_le.mpr lower)
  have accepted : task.taskId ∉ dependencies ∧ dependencies.Nodup :=
    ⟨notSelf, nodup_contract contracted⟩
  have replaces : dynamic.resolveTask decisions task =
      task.replaceDependencies dependencies memory := by
    simp only [DynamicProgram.resolveTask, memoryContracted, contracted, Option.bind_eq_bind,
      Option.bind_some]
  rw [replaces, Task.replaceDependencies, dif_pos accepted]
  exact ⟨_, rfl⟩

/-! ## Resolving the program -/

theorem resolveCore_spec {core resolved : CoreProgram}
    (isResolved : dynamic.resolveCore decisions core = some resolved) :
    resolved.coreId = core.coreId ∧
      List.Forall₂ (ResolvesTask dynamic decisions)
        (core.tasks.filter fun task => dynamic.active decisions task.taskId) resolved.tasks := by
  obtain ⟨tasks, mapped, replaced⟩ := Option.bind_eq_some_iff.mp isResolved
  have sameFilter :
      (core.tasks.filter fun task => !dynamic.dropped decisions task.taskId) =
        core.tasks.filter fun task => dynamic.active decisions task.taskId := by
    refine List.filter_congr ?_
    intro task _
    rw [Bool.eq_iff_iff, Bool.not_eq_true', dropped_eq_false]
  rw [sameFilter] at mapped
  unfold CoreProgram.replaceTasks at replaced
  split at replaced
  · cases replaced
    exact ⟨rfl, (forall₂_of_mapM mapped).imp fun _ _ => resolvesTask_of_some⟩
  · cases replaced

theorem resolveCores_spec {cores resolved : List CoreProgram}
    (isResolved :
      List.Forall₂ (fun core other => dynamic.resolveCore decisions core = some other) cores
        resolved) :
    resolved.map CoreProgram.coreId = cores.map CoreProgram.coreId ∧
      List.Forall₂ (ResolvesTask dynamic decisions)
        ((programTasks cores).filter fun task => dynamic.active decisions task.taskId)
        (programTasks resolved) := by
  induction isResolved with
  | nil => exact ⟨rfl, .nil⟩
  | cons coreResolved _ ih =>
    obtain ⟨sameId, resolves⟩ := resolveCore_spec coreResolved
    obtain ⟨sameIds, restResolves⟩ := ih
    refine ⟨by rw [List.map_cons, List.map_cons, sameId, sameIds], ?_⟩
    simp only [programTasks, List.flatMap_cons, List.filter_append] at restResolves ⊢
    exact List.rel_append resolves restResolves

theorem exists_resolveCores (memoryKnown : MemoryKnown dynamic decisions) :
    ∃ cores, dynamic.program.cores.mapM (dynamic.resolveCore decisions) = some cores := by
  refine exists_mapM ?_
  intro core isCore
  have resolves : ∀ task ∈ core.tasks.filter fun task => !dynamic.dropped decisions task.taskId,
      ∃ resolved, dynamic.resolveTask decisions task = some resolved := by
    intro task member
    obtain ⟨inCore, isKept⟩ := List.mem_filter.mp member
    have isTask : task ∈ dynamic.program.tasks := List.mem_flatMap.mpr ⟨core, isCore, inCore⟩
    rw [Bool.not_eq_true', dropped_eq_false] at isKept
    exact exists_resolveTask isTask (memoryKnown task isTask isKept)
  obtain ⟨tasks, mapped⟩ := exists_mapM resolves
  have owned : ∀ task ∈ tasks, task.coreId = core.coreId := by
    intro resolved member
    obtain ⟨task, inCore, isResolved⟩ := exists_of_mem_right (forall₂_of_mapM mapped) member
    have same := (resolvesTask_of_some isResolved).same.resource
    exact (congrArg ResourceKey.coreId same).trans
      (core.tasksOwned task (List.mem_of_mem_filter inCore))
  refine ⟨{ coreId := core.coreId, tasks := tasks, tasksOwned := owned }, ?_⟩
  simp only [DynamicProgram.resolveCore, mapped, Option.bind_eq_bind, Option.bind_some,
    CoreProgram.replaceTasks, dif_pos owned]

theorem leadsTo_of_execution
    (leads :
      LeadsTo (executionDependenciesOf dynamic.program.tasks) (dynamic.dropped decisions) taskId
        target) :
    LeadsTo (dependenciesOf dynamic.program.tasks) (dynamic.dropped decisions) taskId target := by
  induction leads with
  | here isKept => exact .here isKept
  | through isDropped isNeed _ ih =>
    refine .through isDropped ?_ ih
    unfold executionDependenciesOf at isNeed
    unfold dependenciesOf
    split at isNeed
    · rename_i task found
      simpa only [found] using List.mem_of_mem_filter isNeed
    · cases isNeed

section Pairs

variable {resolved : List Task}
  (pairs :
    List.Forall₂ (ResolvesTask dynamic decisions)
      (dynamic.program.tasks.filter fun task => dynamic.active decisions task.taskId) resolved)

include pairs

theorem resolved_taskIds :
    resolved.map Task.taskId =
      (dynamic.program.tasks.filter fun task => dynamic.active decisions task.taskId).map
        Task.taskId := by
  refine (map_eq_of_forall₂ pairs ?_).symm
  intro task other resolves
  exact resolves.same.taskId.symm

variable {taskId target : TaskId} {task : Task}

theorem mem_resolved_taskIds :
    taskId ∈ resolved.map Task.taskId ↔
      taskId ∈ dynamic.program.tasks.map Task.taskId ∧ dynamic.active decisions taskId = true := by
  rw [resolved_taskIds pairs]
  constructor
  · intro member
    obtain ⟨task, inFilter, rfl⟩ := List.mem_map.mp member
    obtain ⟨isTask, isActive⟩ := List.mem_filter.mp inFilter
    exact ⟨List.mem_map_of_mem isTask, isActive⟩
  · rintro ⟨member, isActive⟩
    obtain ⟨task, isTask, rfl⟩ := List.mem_map.mp member
    exact List.mem_map_of_mem (List.mem_filter.mpr ⟨isTask, isActive⟩)

theorem leadsTo_mem_resolved
    (leads :
      LeadsTo (dependenciesOf dynamic.program.tasks) (dynamic.dropped decisions) taskId target)
    (isTask : taskId ∈ dynamic.program.tasks.map Task.taskId) :
    target ∈ resolved.map Task.taskId :=
  (mem_resolved_taskIds pairs).mpr ⟨LeadsTo.known leads isTask, dropped_eq_false.mp leads.kept⟩

theorem exists_source (member : task ∈ resolved) :
    ∃ source ∈ dynamic.program.tasks,
      dynamic.active decisions source.taskId = true ∧
        ResolvesTask dynamic decisions source task := by
  obtain ⟨source, inFilter, resolves⟩ := exists_of_mem_right pairs member
  obtain ⟨isTask, isActive⟩ := List.mem_filter.mp inFilter
  exact ⟨source, isTask, isActive, resolves⟩

theorem resolved_closed :
    ∀ task ∈ resolved, ∀ dependency ∈ task.dependencies, dependency ∈ resolved.map Task.taskId := by
  intro task member dependency isDependency
  obtain ⟨source, isTask, _, resolves⟩ := exists_source pairs member
  obtain ⟨original, isOriginal, leads⟩ := (resolves.dependencies dependency).mp isDependency
  exact leadsTo_mem_resolved pairs leads
    (dynamic.program.dependenciesKnown source isTask original isOriginal)

theorem resolved_acyclic : validateAcyclic resolved = true := by
  obtain ⟨depth, measured, _⟩ := dynamic.program.exists_depth
  refine validateAcyclic_of_depth depth ?_
  intro task member dependency isDependency
  obtain ⟨source, isTask, _, resolves⟩ := exists_source pairs member
  obtain ⟨original, isOriginal, leads⟩ := (resolves.dependencies dependency).mp isDependency
  have lower := measured source.taskId original
    (by rwa [dependenciesOf_task dynamic.program.taskIds_nodup isTask])
  rw [resolves.same.taskId]
  exact (LeadsTo.depth_le measured leads).trans_lt lower

theorem executionEdge_of_leads (noDemoted : NoDemotedEdge dynamic decisions)
    (isTask : task ∈ dynamic.program.tasks)
    (isActive : dynamic.active decisions task.taskId = true) {dependency : TaskId}
    (isDependency : dependency ∈ executionDependencies task)
    (leads :
      LeadsTo (executionDependenciesOf dynamic.program.tasks) (dynamic.dropped decisions)
        dependency target) :
    ExecutionEdge resolved target task.taskId := by
  have inResolved : task.taskId ∈ resolved.map Task.taskId :=
    (mem_resolved_taskIds pairs).mpr ⟨List.mem_map_of_mem isTask, isActive⟩
  obtain ⟨other, isResolved, sameId⟩ := List.mem_map.mp inResolved
  obtain ⟨source, isSource, _, resolves⟩ := exists_source pairs isResolved
  have isSame : source = task :=
    List.inj_on_of_nodup_map dynamic.program.taskIds_nodup isSource isTask
      (resolves.same.taskId.symm.trans sameId)
  subst isSame
  refine ⟨other, isResolved, sameId, List.mem_filter.mpr ⟨?_, ?_⟩⟩
  · exact (resolves.dependencies target).mpr
      ⟨dependency, List.mem_of_mem_filter isDependency, leadsTo_of_execution leads⟩
  · rw [decide_eq_true_eq, resolves.same.hardwareDependencies]
    by_cases isMemory : target ∈ other.metadata.memoryDependencies
    · obtain ⟨memory, isNamed, memoryLeads⟩ := (resolves.memoryDependencies target).mp isMemory
      exact Or.inr
        (noDemoted source isTask isActive dependency isDependency memory isNamed target leads
          memoryLeads)
    · exact Or.inl isMemory

/--
Along execution dependencies from an active task, the resolved program reaches an active task
from which only dropped ones lead on.
-/
theorem reaches_of_execution (noDemoted : NoDemotedEdge dynamic decisions)
    {first second : TaskId} (isActive : dynamic.active decisions first = true)
    (path : Relation.ReflTransGen (ExecutionEdge dynamic.program.tasks) first second) :
    ∃ last,
      Relation.ReflTransGen (ExecutionEdge resolved) first last ∧
        LeadsTo (executionDependenciesOf dynamic.program.tasks) (dynamic.dropped decisions)
          second last := by
  induction path with
  | refl => exact ⟨first, .refl, .here (dropped_eq_false.mpr isActive)⟩
  | @tail middle next _ edge ih =>
    obtain ⟨last, reaches, leads⟩ := ih
    obtain ⟨task, isTask, rfl, isDependency⟩ := edge
    cases nextActive : dynamic.active decisions task.taskId with
    | true =>
      refine ⟨task.taskId, reaches.tail ?_, .here (dropped_eq_false.mpr nextActive)⟩
      exact executionEdge_of_leads pairs noDemoted isTask nextActive isDependency leads
    | false =>
      have isDropped : dynamic.dropped decisions task.taskId = true := by
        by_contra notDropped
        rw [Bool.not_eq_true, dropped_eq_false, nextActive] at notDropped
        cases notDropped
      refine ⟨last, reaches, .through isDropped ?_ leads⟩
      rw [executionDependenciesOf, find?_of_mem dynamic.program.taskIds_nodup isTask]
      exact isDependency

end Pairs

theorem KernelProgram.no_cycle (program : KernelProgram) (taskId : TaskId) :
    ¬ Relation.TransGen (DependencyEdge program.tasks) taskId taskId := by
  obtain ⟨depth, measured, _⟩ := program.exists_depth
  have increases : ∀ {first second : TaskId},
      Relation.TransGen (DependencyEdge program.tasks) first second →
        depth first < depth second := by
    intro first second path
    refine path.trans_induction_on ?_ ?_
    · rintro lower upper ⟨task, isTask, rfl, isDependency⟩
      exact measured task.taskId lower (by rwa [dependenciesOf_task program.taskIds_nodup isTask])
    · intro lower middle upper _ _ below above
      exact below.trans above
  intro cycle
  exact absurd (increases cycle) (lt_irrefl _)

theorem resolvesControl_of_pairs
    (hardwareActive : HardwareActive dynamic decisions)
    (memoryKnown : MemoryKnown dynamic decisions)
    (noDemoted : NoDemotedEdge dynamic decisions)
    (pairs :
      List.Forall₂ (ResolvesTask dynamic decisions)
        (dynamic.program.tasks.filter fun task => dynamic.active decisions task.taskId)
        resolved.tasks) :
    ResolvesControl dynamic decisions resolved where
  activeTasks := (pairs.imp fun _ _ resolves => resolves.same).flip
  acyclic := resolved.no_cycle
  namesActive := by
    intro task member named isNamed
    obtain ⟨source, isTask, isActive, resolves⟩ := exists_source pairs member
    simp only [Task.namedDependencies, List.append_assoc] at isNamed
    rcases List.mem_append.mp isNamed with isDependency | isOther
    · exact resolved_closed pairs task member named isDependency
    · rcases List.mem_append.mp isOther with isMemory | isHardware
      · obtain ⟨original, isOriginal, leads⟩ := (resolves.memoryDependencies named).mp isMemory
        exact leadsTo_mem_resolved pairs leads
          (memoryKnown source isTask isActive original isOriginal)
      · rw [resolves.same.hardwareDependencies, resolves.same.unitFlagDependencies] at isHardware
        exact (mem_resolved_taskIds pairs).mpr
          (hardwareActive source isTask isActive named isHardware)
  reachable := by
    intro first second firstActive secondActive path
    obtain ⟨middle, reachesMiddle, edge⟩ := Relation.TransGen.tail'_iff.mp path
    obtain ⟨last, reaches, leads⟩ := reaches_of_execution pairs noDemoted firstActive reachesMiddle
    obtain ⟨task, isTask, rfl, isDependency⟩ := edge
    exact Relation.TransGen.tail' reaches
      (executionEdge_of_leads pairs noDemoted isTask secondActive isDependency leads)

theorem exists_resolvesControl (hardwareActive : HardwareActive dynamic decisions)
    (memoryKnown : MemoryKnown dynamic decisions) (noDemoted : NoDemotedEdge dynamic decisions) :
    ∃ resolved,
      programForDynamicControl dynamic decisions = some resolved ∧
        ResolvesControl dynamic decisions resolved := by
  unfold programForDynamicControl
  split
  · rename_i noGuards
    have allActive : ∀ task ∈ dynamic.program.tasks,
        dynamic.active decisions task.taskId = true := by
      intro task isTask
      have unguarded := List.all_eq_true.mp noGuards task isTask
      rw [List.isEmpty_iff] at unguarded
      rw [DynamicProgram.active, unguarded]
      rfl
    refine ⟨dynamic.program, rfl, ?_, ?_, dynamic.program.no_cycle, fun _ _ _ _ path => path⟩
    · rw [List.filter_eq_self.mpr allActive]
      exact List.forall₂_same.mpr fun task _ => SameOperation.refl task
    · intro task isTask named isNamed
      simp only [Task.namedDependencies, List.append_assoc] at isNamed
      rcases List.mem_append.mp isNamed with isDependency | isOther
      · exact dynamic.program.dependenciesKnown task isTask named isDependency
      · rcases List.mem_append.mp isOther with isMemory | isHardware
        · exact memoryKnown task isTask (allActive task isTask) named isMemory
        · exact (hardwareActive task isTask (allActive task isTask) named isHardware).1
  · obtain ⟨cores, mapped⟩ := exists_resolveCores memoryKnown
    obtain ⟨sameIds, pairs⟩ := resolveCores_spec (forall₂_of_mapM mapped)
    have accepted :
        (cores.map CoreProgram.coreId).Nodup ∧ ((programTasks cores).map Task.taskId).Nodup ∧
          (∀ task ∈ programTasks cores,
            ∀ dependency ∈ task.dependencies, dependency ∈ (programTasks cores).map Task.taskId) ∧
          validateAcyclic (programTasks cores) = true := by
      refine ⟨?_, ?_, resolved_closed pairs, resolved_acyclic pairs⟩
      · rw [sameIds]
        exact dynamic.program.coresUnique
      · rw [resolved_taskIds pairs]
        exact dynamic.program.taskIds_nodup.sublist (List.filter_sublist.map _)
    rw [mapped]
    simp only [Option.bind_eq_bind, Option.bind_some, KernelProgram.replaceCores, dif_pos accepted]
    exact ⟨_, rfl, resolvesControl_of_pairs hardwareActive memoryKnown noDemoted pairs⟩

theorem ResolvesControl.hardwareActive (resolves : ResolvesControl dynamic decisions resolved) :
    HardwareActive dynamic decisions := by
  intro task isTask isActive named isNamed
  have inFilter : task ∈ dynamic.program.tasks.filter
      fun task => dynamic.active decisions task.taskId :=
    List.mem_filter.mpr ⟨isTask, isActive⟩
  obtain ⟨other, isResolved, same⟩ := exists_of_mem_right resolves.activeTasks inFilter
  have namedResolved : named ∈ resolved.tasks.map Task.taskId := by
    refine resolves.namesActive other isResolved named ?_
    simp only [Task.namedDependencies, List.append_assoc]
    rw [same.hardwareDependencies, same.unitFlagDependencies]
    exact List.mem_append_right _ (List.mem_append_right _ isNamed)
  rw [map_eq_of_forall₂ resolves.activeTasks fun _ _ same => same.taskId] at namedResolved
  obtain ⟨source, inSources, rfl⟩ := List.mem_map.mp namedResolved
  obtain ⟨isSource, sourceActive⟩ := List.mem_filter.mp inSources
  exact ⟨List.mem_map_of_mem isSource, sourceActive⟩

theorem BridgeEdges.in_order (edges : BridgeEdges dynamic.program)
    (hardwareActive : HardwareActive dynamic decisions) :
    MemoryKnown dynamic decisions ∧ NoDemotedEdge dynamic decisions := by
  refine ⟨?_, ?_⟩
  · intro task isTask _ named isNamed
    exact dynamic.program.dependenciesKnown task isTask named
      (edges.memory task isTask named isNamed)
  · intro task isTask isActive dependency isDependency memory _ target leads _
    obtain ⟨isDeclared, isOrdering⟩ := List.mem_filter.mp isDependency
    have isHardware : dependency ∈ task.metadata.hardwareDependencies := by
      rcases edges.declared task isTask dependency isDeclared with isMemory | isHardware
      · simpa [isMemory] using isOrdering
      · exact isHardware
    have dependencyActive :=
      (hardwareActive task isTask isActive dependency (List.mem_append_left _ isHardware)).2
    cases leads with
    | here => exact isHardware
    | through isDropped =>
      rw [dropped_eq_false.mpr dependencyActive] at isDropped
      cases isDropped

end Resolve

/-! ## When resolving keeps the order -/

/--
Resolving dynamic control keeps the active tasks, names only them and keeps their order exactly
if their hardware and unit-flag dependencies are active, for every program with the edges that
the bridge emits.  For other programs this is needed, and enough if also memory dependencies are
tasks and lead to none of the tasks that execution dependencies lead to.
-/
theorem programForDynamicControl_keeps_order_iff
    (dynamic : DynamicProgram)
    (decisions : Decisions) :
    (BridgeEdges dynamic.program →
      ((∃ resolved,
        programForDynamicControl dynamic decisions = some resolved ∧
          ResolvesControl dynamic decisions resolved) ↔
        HardwareActive dynamic decisions)) ∧
      ((∃ resolved,
        programForDynamicControl dynamic decisions = some resolved ∧
          ResolvesControl dynamic decisions resolved) →
        HardwareActive dynamic decisions) ∧
      (HardwareActive dynamic decisions → MemoryKnown dynamic decisions →
        NoDemotedEdge dynamic decisions →
        ∃ resolved,
          programForDynamicControl dynamic decisions = some resolved ∧
            ResolvesControl dynamic decisions resolved) := by
  have needed : (∃ resolved,
      programForDynamicControl dynamic decisions = some resolved ∧
        ResolvesControl dynamic decisions resolved) → HardwareActive dynamic decisions := by
    rintro ⟨resolved, _, resolves⟩
    exact resolves.hardwareActive
  refine ⟨fun edges => ⟨needed, ?_⟩, needed, exists_resolvesControl⟩
  intro hardwareActive
  obtain ⟨memoryKnown, noDemoted⟩ := edges.in_order hardwareActive
  exact exists_resolvesControl hardwareActive memoryKnown noDemoted

/-- One of three atomic additions to a shared destination. -/
def atomicAdd
    (taskId : TaskId)
    (previous : List TaskId)
    (idNonempty : taskId ≠ "" := by decide)
    (notSelfDependent : taskId ∉ previous := by decide)
    (dependenciesUnique : previous.Nodup := by decide) :
    Task where
  taskId := taskId
  operation := .other "atomic_add"
  coreId := 0
  lane := .vector0
  pipe := .mte3
  durationCycles := 4
  dependencies := previous
  metadata := { memoryDependencies := previous, hardwareDependencies := previous }
  idNonempty := idNonempty
  notSelfDependent := notSelfDependent
  dependenciesUnique := dependenciesUnique

/-- Three atomic additions, each serialized after the one before it. -/
def atomicAdds : KernelProgram where
  cores :=
    [{ coreId := 0
       tasks := [atomicAdd "add-0" [], atomicAdd "add-1" ["add-0"], atomicAdd "add-2" ["add-1"]] }]

/-- The second addition stands under a guard. -/
def guardedAdds : DynamicProgram where
  program := atomicAdds
  dynamicPredicates taskId := if taskId = "add-1" then [⟨0, true⟩] else []

/-- If the guard fails, the third addition is no longer ordered after the first. -/
theorem guardedAdds_lose_order :
    BridgeEdges guardedAdds.program ∧
      ∃ resolved,
        programForDynamicControl guardedAdds (fun _ => false) = some resolved ∧
          Relation.TransGen (ExecutionEdge guardedAdds.program.tasks) "add-0" "add-2" ∧
          ¬ Relation.TransGen (ExecutionEdge resolved.tasks) "add-0" "add-2" ∧
          ¬ ResolvesControl guardedAdds (fun _ => false) resolved := by
  have edges : BridgeEdges guardedAdds.program := ⟨by decide, by decide, by decide⟩
  have observed :
      (programForDynamicControl guardedAdds (fun _ => false)).map
        (fun resolved => resolved.tasks.all fun task => (executionDependencies task).isEmpty) =
        some true := by
    decide +kernel
  obtain ⟨resolved, isResolved, noEdges⟩ := Option.map_eq_some_iff.mp observed
  have reachedBefore :
      Relation.TransGen (ExecutionEdge guardedAdds.program.tasks) "add-0" "add-2" := by
    refine .tail (.single (b := "add-1") ?_) ?_
    · exact ⟨atomicAdd "add-1" ["add-0"], by decide, rfl, by decide⟩
    · exact ⟨atomicAdd "add-2" ["add-1"], by decide, rfl, by decide⟩
  have lost : ¬ Relation.TransGen (ExecutionEdge resolved.tasks) "add-0" "add-2" := by
    intro path
    obtain ⟨_, _, task, isTask, _, isDependency⟩ := Relation.TransGen.tail'_iff.mp path
    have noDependency := List.all_eq_true.mp noEdges task isTask
    rw [List.isEmpty_iff] at noDependency
    rw [noDependency] at isDependency
    cases isDependency
  refine ⟨edges, resolved, isResolved, reachedBefore, lost, ?_⟩
  intro resolves
  exact lost (resolves.reachable _ _ (by decide) (by decide) reachedBefore)

/-- If the guard holds, the additions stay in order. -/
theorem guardedAdds_keep_order :
    ∃ resolved,
      programForDynamicControl guardedAdds (fun _ => true) = some resolved ∧
        ResolvesControl guardedAdds (fun _ => true) resolved := by
  have edges : BridgeEdges guardedAdds.program := ⟨by decide, by decide, by decide⟩
  have hardwareActive : HardwareActive guardedAdds (fun _ => true) := by
    unfold HardwareActive
    decide
  exact ((programForDynamicControl_keeps_order_iff guardedAdds (fun _ => true)).1 edges).mpr
    hardwareActive

end TilelangAscend.Simulator
