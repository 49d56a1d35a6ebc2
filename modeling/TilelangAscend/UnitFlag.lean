import Mathlib.Data.List.AList
import Mathlib.Data.List.Dedup
import Mathlib.Data.String.Basic
import TilelangAscend.MemoryRegions
import TilelangAscend.Program

namespace TilelangAscend.Simulator

/-!
# UnitFlag validation

`_validate_unit_flag_pairs` of the TIR bridge: the readable and writable bits of the 512-byte
blocks of L0C, tracked along the tasks of a core.  An MMA with unitFlag 2 waits for writable
blocks without publishing them, one with unitFlag 3 publishes them as readable, and a fixpipe
with unitFlag 3 waits for readable blocks and returns them as writable.  The edges between these
tasks are recorded as hardware dependencies.
-/

/-- What a task does with the unit flags of its L0C blocks. -/
inductive UnitFlagUse where
  | hold
  | release
  | consume
  deriving Repr, DecidableEq

/-- A task of the bridge with the metadata that the validation reads and writes. -/
structure BridgeTask where
  task : Task
  mmaUnitFlag : Option Int := none
  copyUnitFlag : Option Int := none
  /-- Destination and source regions; `none` if missing or symbolic. -/
  dst : Option BufferRegion := none
  src : Option BufferRegion := none
  unitFlagRole : Option UnitFlagUse := none
  unitFlagPairs : List TaskId := []
  unitFlagPair : Option TaskId := none
  /-- The bridge declares the hardware edges of a task among its dependencies. -/
  hardwareDeclared : task.metadata.hardwareDependencies ⊆ task.dependencies := by decide

/-- Buffers and the alias map of the bridge when the validation runs. -/
structure BridgeBuffers where
  buffers : String → BufferSpec
  activeAliases : List ((MemoryScope × Option Nat × String) × String) := []

/-- Reasons for which the validation rejects a program. -/
inductive UnitFlagError where
  | notConcreteContiguous
  | incompleteBlocks
  | overwritesReadable
  | missingProducer
  | unmatched (taskIds : List TaskId)
  | invalidTask
  deriving Repr, DecidableEq

/-! ## Blocks of a region -/

/--
Loop of `_resolve_active_alias_name`.  Every iteration but the last follows an alias of a name
that was not seen before, so the number of aliases bounds them.
-/
def followAliases
    (aliases : List ((MemoryScope × Option Nat × String) × String))
    (scope : MemoryScope)
    (aliasOwner : Option Nat) :
    Nat → List String → String → String
  | 0, _, current => current
  | fuel + 1, seen, current =>
    if current ∈ seen then
      current
    else
      match aliases.lookup (scope, aliasOwner, current) with
      | none => current
      | some target => followAliases aliases scope aliasOwner fuel (current :: seen) target

/-- `_resolve_active_alias`: the buffer behind the aliases of a region. -/
def BridgeBuffers.resolveActiveAlias (bridge : BridgeBuffers) (region : BufferRegion)
    (owner : Nat) : String :=
  followAliases bridge.activeAliases region.scope
    (if region.scope.isShared then none else some owner)
    (bridge.activeAliases.length + 1) [] region.buffer

/-- The memory that a block belongs to: planned memory, or a buffer without an address. -/
inductive L0cAllocation where
  | address
  | buffer (name : String)
  deriving Repr, DecidableEq

/-- A 512-byte block. -/
structure L0cBlock where
  allocation : L0cAllocation
  block : Nat
  deriving Repr, DecidableEq

/-- Blocks of a region, which has to be contiguous and to span complete blocks. -/
def BridgeBuffers.blocks
    (bridge : BridgeBuffers)
    (coreId : Nat) :
    Option BufferRegion → Except UnitFlagError (List L0cBlock)
  | none => .error .notConcreteContiguous
  | some region =>
    if regionIsContiguous region then
      let name := bridge.resolveActiveAlias region coreId
      let address := (bridge.buffers name).address
      let allocation := if address.isSome then .address else .buffer name
      let first := address.getD 0 + (regionBounds region).1
      let last := address.getD 0 + (regionBounds region).2
      if first % 512 ≠ 0 ∨ last % 512 ≠ 0 then
        .error .incompleteBlocks
      else
        .ok ((List.range' (first / 512) (last / 512 - first / 512)).map
          fun block => ⟨allocation, block⟩)
    else
      .error .notConcreteContiguous

/-! ## Annotations -/

/-- `tuple(sorted(set(left).union(right)))`. -/
def sortedUnion (left right : List TaskId) : List TaskId :=
  (left ++ right).dedup.insertionSort (· ≤ ·)

/-- The sorted union has the members of both lists. -/
theorem mem_sortedUnion {left right : List TaskId} {taskId : TaskId} :
    taskId ∈ sortedUnion left right ↔ taskId ∈ left ∨ taskId ∈ right := by
  rw [sortedUnion, List.mem_insertionSort, List.mem_dedup, List.mem_append]

theorem sortedUnion_nodup (left right : List TaskId) : (sortedUnion left right).Nodup :=
  (List.perm_insertionSort _ _).nodup_iff.mpr (List.nodup_dedup _)

/-- `annotate` for one task; the new task is validated again. -/
def BridgeTask.annotate (entry : BridgeTask) (role : UnitFlagUse)
    (hardware peers : List TaskId) : Except UnitFlagError BridgeTask :=
  let edges := sortedUnion entry.task.metadata.hardwareDependencies hardware
  let pairIds := sortedUnion entry.unitFlagPairs peers
  let dependencies := sortedUnion entry.task.dependencies edges
  if notSelf : entry.task.taskId ∉ dependencies then
    .ok
      { entry with
        task :=
          { entry.task with
            metadata :=
              { entry.task.metadata with
                hardwareDependencies := edges
                unitFlagDependencies :=
                  sortedUnion entry.task.metadata.unitFlagDependencies hardware }
            dependencies := dependencies
            notSelfDependent := notSelf
            dependenciesUnique := sortedUnion_nodup _ _ }
        unitFlagRole := some role
        unitFlagPairs := if pairIds = [] then entry.unitFlagPairs else pairIds
        unitFlagPair := if pairIds = [] then entry.unitFlagPair else pairIds.head?
        hardwareDeclared := fun _ member => mem_sortedUnion.mpr (Or.inr member) }
  else
    .error .invalidTask

/-! ## The validation of a core -/

/-- The ready writer of a block and the last task that cleared it, by index. -/
structure BlockState where
  writer : Option Nat := none
  clear : Option Nat := none
  deriving Repr, DecidableEq

/-- Tasks of a core as annotated so far, and the states of the blocks. -/
structure UnitFlagState where
  tasks : List BridgeTask
  states : AList fun _ : L0cBlock => BlockState := ∅

namespace UnitFlagState

/-- `states.get(block, (None, None))`. -/
def get (state : UnitFlagState) (block : L0cBlock) : BlockState :=
  (state.states.lookup block).getD {}

/-- Identifier of the task at an index. -/
def idAt (state : UnitFlagState) (index : Nat) : TaskId :=
  (state.tasks[index]?).elim "" fun entry => entry.task.taskId

/-- `annotate` for the task at an index. -/
def annotateAt (state : UnitFlagState) (index : Nat) (role : UnitFlagUse)
    (hardware peers : List TaskId) : Except UnitFlagError UnitFlagState :=
  match state.tasks[index]? with
  | none => .error .invalidTask
  | some entry => do
      let annotated ← entry.annotate role hardware peers
      pure { state with tasks := state.tasks.set index annotated }

/-- Sets the state of every touched block as a function of its old state. -/
def update (state : UnitFlagState) (touched : List L0cBlock)
    (next : BlockState → BlockState) : UnitFlagState :=
  touched.foldl
    (fun current block =>
      { current with states := current.states.insert block (next (current.get block)) })
    state

/-- An MMA with unitFlag 2 or 3. -/
def writeBlocks (state : UnitFlagState) (index : Nat) (release : Bool)
    (touched : List L0cBlock) : Except UnitFlagError UnitFlagState :=
  if touched.any fun block => (state.get block).writer.isSome then
    .error .overwritesReadable
  else do
    let predecessors := (touched.filterMap fun block => (state.get block).clear).map state.idAt
    let annotated ← state.annotateAt index (if release then .release else .hold) predecessors []
    pure (annotated.update touched fun old =>
      { old with writer := if release then some index else none })

/-- A fixpipe with unitFlag 3. -/
def clearBlocks (state : UnitFlagState) (index : Nat) (touched : List L0cBlock) :
    Except UnitFlagError UnitFlagState :=
  if touched.any fun block => (state.get block).writer.isNone then
    .error .missingProducer
  else do
    let writers :=
      ((touched.filterMap fun block => (state.get block).writer).dedup).insertionSort (· ≤ ·)
    let producers := writers.map state.idAt
    let consumer ← state.annotateAt index .consume producers producers
    let annotated ←
      writers.foldlM
        (fun current writer => current.annotateAt writer .release [] [state.idAt index])
        consumer
    pure (annotated.update touched fun _ => { writer := none, clear := some index })

end UnitFlagState

/-- The branch of the validation for a task, with the region whose blocks it uses. -/
def BridgeTask.unitFlagUse? (entry : BridgeTask) : Option (UnitFlagUse × Option BufferRegion) :=
  match entry.mmaUnitFlag with
  | some 2 => some (.hold, entry.dst)
  | some 3 => some (.release, entry.dst)
  | _ =>
    if entry.task.operation = .other "copy_l0c_to_gm" ∧ entry.copyUnitFlag = some 3 then
      some (.consume, entry.src)
    else
      none

/-- One iteration of the loop over the tasks of a core. -/
def validateUnitFlagTask (bridge : BridgeBuffers) (coreId : Nat) (state : UnitFlagState)
    (index : Nat) : Except UnitFlagError UnitFlagState :=
  match (state.tasks[index]?).bind BridgeTask.unitFlagUse? with
  | none => .ok state
  | some (.hold, region) => do
      state.writeBlocks index false (← bridge.blocks coreId region)
  | some (.release, region) => do
      state.writeBlocks index true (← bridge.blocks coreId region)
  | some (.consume, region) => do
      state.clearBlocks index (← bridge.blocks coreId region)

/-- Tasks whose blocks were published and not read. -/
def UnitFlagState.unmatched (state : UnitFlagState) : List TaskId :=
  (((state.states.entries.filterMap fun entry => entry.2.writer).map
      state.idAt).dedup).insertionSort (· ≤ ·)

/-- The validation of the tasks of a core. -/
def validateUnitFlagCore
    (bridge : BridgeBuffers)
    (coreId : Nat)
    (tasks : List BridgeTask) :
    Except UnitFlagError (List BridgeTask) := do
  let final ←
    (List.range tasks.length).foldlM (validateUnitFlagTask bridge coreId) { tasks := tasks }
  if final.unmatched = [] then
    pure final.tasks
  else
    throw (.unmatched final.unmatched)

/-- `_validate_unit_flag_pairs`: the annotated tasks of all cores. -/
def validateUnitFlagPairs (bridge : BridgeBuffers) (cores : List (Nat × List BridgeTask)) :
    Except UnitFlagError (List (Nat × List BridgeTask)) :=
  cores.mapM fun core => do
    pure (core.1, ← validateUnitFlagCore bridge core.1 core.2)

end TilelangAscend.Simulator
