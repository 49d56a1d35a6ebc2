import Mathlib.Data.List.Basic
import Mathlib.Data.List.Nodup

namespace TilelangAscend.Simulator

/-!
# Simulator programs

The backend-neutral program that the TIR bridge hands to the simulator: lanes,
pipes, tasks with their synchronization operands, the ordered tasks of one core
and the kernel program that collects the cores.  Everything the constructors of
the source reject is a field of the structures below, so a value of
`KernelProgram` is one that passed validation.
-/

/-- Logical C220 execution lanes. -/
inductive Lane where
  | cube
  | vector0
  | vector1
  | control
  deriving Repr, DecidableEq

/-- Logical C220 pipeline resources. -/
inductive Pipe where
  | mte2
  | mte1
  | m
  | fix
  | v
  | mte3
  | s
  deriving Repr, DecidableEq

namespace Lane

/-- Every lane, in declaration order. -/
def all : List Lane :=
  [.cube, .vector0, .vector1, .control]

/-- The two AIV lanes of a core. -/
def vectorLanes : List Lane :=
  [.vector0, .vector1]

/-- Pipes that exist on a lane. -/
def allowedPipes : Lane → List Pipe
  | .cube => [.mte2, .mte1, .m, .fix, .s]
  | .vector0 => [.mte2, .v, .mte3, .s]
  | .vector1 => [.mte2, .v, .mte3, .s]
  | .control => [.s]

theorem mem_all (lane : Lane) : lane ∈ all := by
  cases lane <;> decide

end Lane

namespace Pipe

/-- Every pipe, in declaration order. -/
def all : List Pipe :=
  [.mte2, .mte1, .m, .fix, .v, .mte3, .s]

theorem mem_all (pipe : Pipe) : pipe ∈ all := by
  cases pipe <;> decide

end Pipe

/--
A pipe name carried in task metadata, after the normalization of `_pipe_name`
(surrounding blanks, letter case and a `pipe_` prefix removed).
-/
inductive PipeName where
  | pipe (pipe : Pipe)
  | all
  | other (text : String)
  deriving Repr, DecidableEq

/-- A lane name carried in task metadata. -/
inductive LaneName where
  | lane (lane : Lane)
  | other (text : String)
  deriving Repr, DecidableEq

/-- Collective scopes of `sync_all`. -/
inductive SyncScope where
  | aic
  | aiv
  | mix
  deriving Repr, DecidableEq

/-- A `sync_scope` entry of task metadata. -/
inductive ScopeName where
  | scope (scope : SyncScope)
  | other (text : String)
  deriving Repr, DecidableEq

/-- An integer entry of task metadata, which may be missing or of another type. -/
inductive MetadataInt where
  | absent
  | value (number : Int)
  | malformed
  deriving Repr, DecidableEq

/-- Task identifiers. -/
abbrev TaskId := String

/--
Operation names after `strip().lower()`.  Each synchronization constructor stands
for the spellings collected in one frozen set of the synchronization model, for
example `set_flag`, `auto_set_flag` and their `tl.ascend_` forms.
-/
inductive Operation where
  | setFlag
  | waitFlag
  | setCrossFlag
  | waitCrossFlag
  | barrierAll
  | syncAll
  | pipeBarrier
  | other (name : String)
  deriving Repr, DecidableEq

/-- The metadata entries that scheduling and synchronization read. -/
structure TaskMetadata where
  srcPipe : Option PipeName := none
  dstPipe : Option PipeName := none
  flagId : MetadataInt := .absent
  mode : MetadataInt := .absent
  targetPipe : Option PipeName := none
  targetLane : Option LaneName := none
  syncScope : Option ScopeName := none
  memoryDependencies : List TaskId := []
  hardwareDependencies : List TaskId := []
  unitFlagDependencies : List TaskId := []
  deriving Repr, DecidableEq

/-! Checks of the fields of concrete tasks; named, so that all modules share one proof of each. -/

theorem nonempty_of_check {id : TaskId} (check : if id = "" then False else True) : id ≠ "" := by
  split at check
  · exact check.elim
  · assumption

theorem allowed_of_check {lane : Lane} {pipe : Pipe}
    (check : if pipe ∈ lane.allowedPipes then True else False) : pipe ∈ lane.allowedPipes := by
  split at check
  · assumption
  · exact check.elim

/-- A numeral that the validator lets pass is positive. -/
theorem positive_of_check {number : Nat} (check : if number = 0 then False else True) :
    0 < (OfNat.ofNat number : Nat) := by
  split at check
  · exact check.elim
  · rename_i nonzero
    exact Nat.pos_of_ne_zero nonzero

/-- One schedulable simulator operation. -/
structure Task where
  taskId : TaskId
  operation : Operation
  coreId : Nat
  lane : Lane
  pipe : Pipe
  durationCycles : Nat
  dependencies : List TaskId := []
  metadata : TaskMetadata := {}
  idNonempty : taskId ≠ "" := by first | exact nonempty_of_check trivial | decide
  durationPositive : 0 < durationCycles := by first | exact positive_of_check trivial | decide
  pipeAllowed : pipe ∈ lane.allowedPipes := by first | exact allowed_of_check trivial | decide
  notSelfDependent : taskId ∉ dependencies := by first | exact List.not_mem_nil | simp
  dependenciesUnique : dependencies.Nodup := by first | exact List.nodup_nil | simp
  deriving Repr, DecidableEq

/-- One hardware queue: a pipe of a lane of a core. -/
structure ResourceKey where
  coreId : Nat
  lane : Lane
  pipe : Pipe
  deriving Repr, DecidableEq

/-- A lane of a core, as it takes part in collectives. -/
structure Participant where
  coreId : Nat
  lane : Lane
  deriving Repr, DecidableEq

namespace Task

/-- The hardware queue a task is issued to. -/
def resource (task : Task) : ResourceKey where
  coreId := task.coreId
  lane := task.lane
  pipe := task.pipe

/-- The lane of a core that runs a task. -/
def participant (task : Task) : Participant where
  coreId := task.coreId
  lane := task.lane

end Task

/-- Ordered tasks belonging to one logical core group. -/
structure CoreProgram where
  coreId : Nat
  tasks : List Task
  tasksOwned : ∀ task ∈ tasks, task.coreId = coreId := by decide
  deriving Repr, DecidableEq

/-- Tasks of a list of cores in stable core and program order. -/
def programTasks (cores : List CoreProgram) : List Task :=
  cores.flatMap CoreProgram.tasks

/--
Depth-first visit of one task of the dependency graph.  `none` reports a cycle;
otherwise the visited set is returned.  The fuel bounds the recursion depth, which
never exceeds the number of tasks plus one because `visiting` holds distinct tasks.
-/
def visit
    (dependencies : TaskId → List TaskId) :
    Nat → List TaskId → List TaskId → TaskId → Option (List TaskId)
  | 0, _, _, _ => none
  | fuel + 1, visiting, visited, taskId =>
    if taskId ∈ visiting then
      none
    else if taskId ∈ visited then
      some visited
    else
      ((dependencies taskId).foldlM
          (fun seen dependency => visit dependencies fuel (taskId :: visiting) seen dependency)
          visited).map
        (taskId :: ·)

/-- Dependencies declared by the task of a given identifier. -/
def dependenciesOf (tasks : List Task) (taskId : TaskId) : List TaskId :=
  match tasks.find? (·.taskId = taskId) with
  | some task => task.dependencies
  | none => []

/-- Whether the dependency graph of a task list passes the cycle check. -/
def validateAcyclic (tasks : List Task) : Bool :=
  ((tasks.map Task.taskId).foldlM
      (visit (dependenciesOf tasks) (tasks.length + 1) [])
      []).isSome

/-- Hardware generations the simulator accepts. -/
inductive Platform where
  | a2
  | a3
  deriving Repr, DecidableEq

/-- Validated simulator program produced by the TIR bridge. -/
structure KernelProgram where
  platform : Platform := .a2
  cores : List CoreProgram
  coresUnique : (cores.map CoreProgram.coreId).Nodup := by decide
  idsUnique : ((programTasks cores).map Task.taskId).Nodup := by decide
  dependenciesKnown :
    ∀ task ∈ programTasks cores,
      ∀ dependency ∈ task.dependencies,
        dependency ∈ (programTasks cores).map Task.taskId := by decide
  acyclic : validateAcyclic (programTasks cores) = true := by decide

namespace KernelProgram

/-- All tasks in stable core and program order. -/
def tasks (program : KernelProgram) : List Task :=
  programTasks program.cores

/-- No two tasks of a program share their id. -/
theorem taskIds_nodup (program : KernelProgram) : (program.tasks.map Task.taskId).Nodup :=
  program.idsUnique

end KernelProgram

end TilelangAscend.Simulator
