import TilelangAscend.MemoryViews
import TilelangAscend.Program

namespace TilelangAscend.Simulator.Poison

/-!
# Functional and sync-only execution of tensor tasks

What the two execution modes do to the initialization metadata of memory.  In functional mode
every operation reads and writes the operands it needs; sync-only mode collects the operands
from their metadata keys.  Tensor values are not modelled: whether the argument, shape and value
checks of an operation pass is a parameter of functional execution.  Hazards are errors.
-/

/-- Why a task stops: a read of uninitialized memory, or any other error. -/
inductive Failure where
  | uninitialized
  | other
  deriving Repr, DecidableEq

/-! ## Memory -/

/-- An address space: a scope and the owner of a local scope. -/
abbrev Space := MemoryScope × Option Nat

/-- `MemoryAllocation`: a named part of an address space. -/
structure Allocation where
  space : Space
  address : Nat
  sizeBytes : Nat
  deriving DecidableEq

/-- `MemoryRuntime`: allocations by scope, owner and name, and the initialized bytes. -/
structure MemoryRuntime where
  coreIds : List Nat
  allocations : MemoryScope → Option Nat → String → Option Allocation
  initialized : Space → Nat → Bool

/-! ## Tasks -/

/-- The region operands of a task by metadata key. -/
structure Operands where
  srcRegions : Option (List BufferRegion) := none
  src : Option BufferRegion := none
  lhs : Option BufferRegion := none
  rhs : Option BufferRegion := none
  mask : Option BufferRegion := none
  accumulator : Option BufferRegion := none
  scalarSrc : Option BufferRegion := none
  offsets : Option BufferRegion := none
  bias : Option BufferRegion := none
  dstRegions : Option (List BufferRegion) := none
  dst : Option BufferRegion := none
  padDst : Option BufferRegion := none
  scratch : Option BufferRegion := none
  outputScratch : Option BufferRegion := none
  deriving DecidableEq

/-- Whether a copy writes one payload, or one fragment to each of its destinations. -/
inductive CopyForm where
  | whole
  | banded
  deriving Repr, DecidableEq

/-- The implementation that the executor selects for a task, with the values it branches on. -/
inductive TensorOperation where
  | traceOnly
  | synchronization
  /-- A scalar store; the loads of its value are in evaluation order. -/
  | bufferStore (loads : List BufferRegion)
  | copy (form : CopyForm)
  | binary (hasScalar : Bool)
  | bitwiseBinary
  | axpy
  | mulAddDst
  | mma (init : Bool)
  | gemmV0 (init : Bool)
  | im2col
  | unary
  | bitwiseNot
  | bitwiseShift
  | cast
  | fill
  | reduceSumExperiment
  | sumExperiment
  | brcb (repeats blkStride repStride : Nat)
  | rowExpand
  | sequence
  | gather
  | gatherb
  | gatherMask (custom : Bool)
  | transpose
  | reinterpretcast (materializeView : Bool)
  | topk
  | sort32
  | sort
  | initSortBuf (covered : Nat)
  | mergeSort
  | atomicAdd
  | atomicAddL0c
  | clamp
  | broadcast
  | compare (hasScalar : Bool)
  | tailCompare (hasScalar : Bool)
  | select (hasScalar : Bool)
  | tailSelect (hasScalar : Bool)
  | reduce (clear : Bool)
  | blockReduce
  | wholeReduce
  | unknown
  deriving DecidableEq

/-- A task with the operands of its operation. -/
structure TensorTask extends Operands where
  coreId : Nat
  lane : Lane
  operation : TensorOperation
  deriving DecidableEq

/-! ## Memory accesses -/

namespace MemoryRuntime

/-- Owner of the local memory of a core's second vector lane. -/
def vector1OwnerOffset (memory : MemoryRuntime) : Nat :=
  memory.coreIds.foldl max 0 + 1

/-- Owners of local memory. -/
def localOwnerIds (memory : MemoryRuntime) : List Nat :=
  memory.coreIds ++ memory.coreIds.map (memory.vector1OwnerOffset + ·)

/-- `_normalize_owner` for a core of the program. -/
def normalizeOwner (memory : MemoryRuntime) (scope : MemoryScope) (coreId : Nat) :
    Except Failure (Option Nat) :=
  if scope.isShared then
    .ok none
  else if coreId ∈ memory.localOwnerIds then
    .ok (some coreId)
  else
    .error .other

/-- `vector1_owner`. -/
def vector1Owner (memory : MemoryRuntime) (coreId : Nat) : Except Failure Nat :=
  if coreId ∈ memory.coreIds then
    .ok (memory.vector1OwnerOffset + coreId)
  else
    .error .other

/-- `get`. -/
def get
    (memory : MemoryRuntime)
    (name : String)
    (scope : MemoryScope)
    (coreId : Nat) :
    Except Failure Allocation := do
  let owner ← memory.normalizeOwner scope coreId
  match memory.allocations scope owner name with
  | some allocation => return allocation
  | none => throw .other

/-- The core whose memory holds a region of a task. -/
def regionOwner (memory : MemoryRuntime) (task : TensorTask) (region : BufferRegion) :
    Except Failure Nat :=
  if !region.scope.isShared && task.lane = .vector1 then
    memory.vector1Owner task.coreId
  else
    .ok (region.owner task.coreId)

/-- `_resolve`: the allocation of a region, which must not reach beyond it. -/
def resolve
    (memory : MemoryRuntime)
    (task : TensorTask)
    (region : BufferRegion) :
    Except Failure Allocation := do
  let owner ← memory.regionOwner task region
  let allocation ← memory.get region.buffer region.scope owner
  if allocation.sizeBytes < (regionBounds region).2 then .error .other else .ok allocation

/-- Every byte of some ranges of an allocation is initialized. -/
def initializedOn (memory : MemoryRuntime) (allocation : Allocation)
    (ranges : List (Nat × Nat)) : Bool :=
  ranges.all fun range =>
    (List.range (range.2 - range.1)).all fun position =>
      memory.initialized allocation.space (allocation.address + range.1 + position)

/-- Set the metadata of some ranges of an allocation. -/
def mark (memory : MemoryRuntime) (allocation : Allocation) (ranges : List (Nat × Nat)) :
    MemoryRuntime :=
  { memory with
    initialized := fun space byte =>
      (space = allocation.space &&
          ranges.any fun range =>
            allocation.address + range.1 ≤ byte && byte < allocation.address + range.2) ||
        memory.initialized space byte }

/-- `read`. -/
def read
    (memory : MemoryRuntime)
    (task : TensorTask)
    (region : BufferRegion) :
    Except Failure Unit := do
  let allocation ← memory.resolve task region
  if memory.initializedOn allocation (addressRanges region) then
    return ()
  else
    throw .uninitialized

/-- `write`. -/
def write
    (memory : MemoryRuntime)
    (task : TensorTask)
    (region : BufferRegion) :
    Except Failure MemoryRuntime := do
  let allocation ← memory.resolve task region
  return memory.mark allocation (addressRanges region)

/-- `check_initialized`. -/
def checkInitialized
    (memory : MemoryRuntime)
    (task : TensorTask)
    (region : BufferRegion) :
    Except Failure Unit := do
  let allocation ← memory.resolve task region
  if memory.initializedOn allocation (physicalAddressRanges region) then
    return ()
  else
    throw .uninitialized

/-- `mark_initialized`; without poisoned sources every destination is initialized. -/
def markInitialized
    (memory : MemoryRuntime)
    (task : TensorTask)
    (region : BufferRegion) :
    Except Failure MemoryRuntime := do
  let allocation ← memory.resolve task region
  return memory.mark allocation (physicalAddressRanges region)

/-- `alias`: a name stands for another allocation, which must be large enough. -/
def aliasBuffer
    (memory : MemoryRuntime)
    (task : TensorTask)
    (destination source : BufferRegion) :
    Except Failure MemoryRuntime := do
  let owner ← memory.normalizeOwner destination.scope task.coreId
  let current ← memory.get destination.buffer destination.scope task.coreId
  let target ← memory.get source.buffer destination.scope task.coreId
  if target.sizeBytes < current.sizeBytes then
    throw .other
  return { memory with
    allocations := fun scope other name =>
      if scope = destination.scope ∧ other = owner ∧ name = destination.buffer then
        some target
      else
        memory.allocations scope other name }

end MemoryRuntime

/-! ## Functional execution -/

section Functional

variable (checks : TensorTask → Nat → Bool) (memory : MemoryRuntime) (task : TensorTask)

/-- A check of arguments, shapes or values. -/
def check (stage : Nat) : Except Failure Unit :=
  if checks task stage then .ok () else .error .other

/-- `_operand`. -/
def operand (value : Option BufferRegion) : Except Failure BufferRegion :=
  match value with
  | some region => .ok region
  | none => .error .other

/-- Reads in order, each followed by the checks of what was read. -/
def readAll :
    Nat → List BufferRegion → Except Failure Unit
  | _, [] => .ok ()
  | stage, region :: rest => do
      memory.read task region
      check checks task stage
      readAll (stage + 1) rest

/-- Writes in order. -/
def writeAll
    (memory : MemoryRuntime) :
    List BufferRegion → Except Failure MemoryRuntime
  | [] => .ok memory
  | region :: rest => do
      let memory ← memory.write task region
      writeAll memory rest

/-- The common form: checks, then reads, then writes. -/
def readThenWrite
    (reads writes : List BufferRegion) :
    Except Failure MemoryRuntime := do
  check checks task 0
  readAll checks memory task 1 reads
  writeAll task memory writes

/-- An operation from `src` to `dst`. -/
def sourceToDestination : Except Failure MemoryRuntime := do
  let source ← operand task.src
  let destination ← operand task.dst
  readThenWrite checks memory task [source] [destination]

/-- The second operand: a region, a scalar region or a scalar. -/
def rightOperand (hasScalar : Bool) : Except Failure (List BufferRegion) :=
  match task.rhs, task.scalarSrc with
  | some right, _ => .ok [right]
  | none, some scalar => .ok [scalar]
  | none, none => if hasScalar then .ok [] else .error .other

/-- The second operand of a tail operation: a region or a scalar. -/
def tailRightOperand (hasScalar : Bool) : Except Failure (List BufferRegion) :=
  match task.rhs with
  | some right => .ok [right]
  | none => if hasScalar then .ok [] else .error .other

/-- Reads of the first operands, then of the second one, then the write of the result. -/
def readRightThenWrite
    (first : List BufferRegion)
    (right : Except Failure (List BufferRegion))
    (destination : BufferRegion) :
    Except Failure MemoryRuntime := do
  readAll checks memory task 0 first
  let right ← right
  readAll checks memory task first.length right
  writeAll task memory [destination]

/-- `_copy`. -/
def copy (form : CopyForm) : Except Failure MemoryRuntime := do
  let source ← operand task.src
  let destinations ←
    match task.dstRegions with
    | some regions => pure regions
    | none => do
        let destination ← operand task.dst
        pure [destination]
  match destinations with
  | [] => throw .other
  | destination :: _ => do
      check checks task 0
      let memory ← writeAll task memory task.padDst.toList
      readAll checks memory task 1 (task.srcRegions.getD [source])
      match form with
      | .whole => writeAll task memory [destination]
      | .banded => writeAll task memory destinations

/-- `_binary`. -/
def binary (hasScalar : Bool) : Except Failure MemoryRuntime := do
  let left ← operand task.lhs
  let destination ← operand task.dst
  readRightThenWrite checks memory task [left] (rightOperand task hasScalar) destination

/-- `_unary`. -/
def unary : Except Failure MemoryRuntime :=
  sourceToDestination checks memory task

/-- `_axpy`. -/
def axpy : Except Failure MemoryRuntime := do
  let source ← operand task.lhs
  let destination ← operand task.dst
  let accumulator ← operand task.accumulator
  readThenWrite checks memory task [source, accumulator] [destination]

/-- `_mul_add_dst`. -/
def mulAddDst : Except Failure MemoryRuntime := do
  let left ← operand task.lhs
  let right ← operand task.rhs
  let destination ← operand task.dst
  let accumulator ← operand task.accumulator
  readThenWrite checks memory task [left, right, accumulator] [destination]

/-- What a product reads besides its factors. -/
def productAddend (bias : Option BufferRegion) (init : Bool) :
    Except Failure (List BufferRegion) :=
  match bias with
  | some bias => .ok [bias]
  | none =>
    if init then
      .ok []
    else do
      let accumulator ← operand task.accumulator
      return [accumulator]

/-- `_mma`. -/
def mma (init : Bool) : Except Failure MemoryRuntime := do
  let left ← operand task.lhs
  let right ← operand task.rhs
  let destination ← operand task.dst
  readRightThenWrite checks memory task [left, right] (productAddend task task.bias init)
    destination

/-- `_gemm_v0`. -/
def gemmV0 (init : Bool) : Except Failure MemoryRuntime := do
  let left ← operand task.lhs
  let right ← operand task.rhs
  let destination ← operand task.dst
  readRightThenWrite checks memory task [left, right] (productAddend task none init) destination

/-- `_im2col`. -/
def im2col : Except Failure MemoryRuntime :=
  sourceToDestination checks memory task

/-- `_cast`. -/
def cast : Except Failure MemoryRuntime :=
  sourceToDestination checks memory task

/-- `_fill`. -/
def fill : Except Failure MemoryRuntime := do
  let destination ← operand task.dst
  readThenWrite checks memory task [] [destination]

/-- A region with another shape of the same rank as its strides, at another offset. -/
def reshaped (region : BufferRegion) (shape : List Nat) (byteOffset : Nat) :
    Except Failure BufferRegion :=
  if rank : ∀ strides ∈ region.stridesBytes, strides.length = shape.length then
    .ok { region with shape := shape, byteOffset := byteOffset, stridesRank := rank }
  else
    .error .other

/-- The blocks that `_brcb` writes, in order. -/
def brcbBlocks (destination : BufferRegion) (repeats blkStride repStride : Nat) :
    Except Failure (List BufferRegion) :=
  let blockElements := 32 / destination.itemsize
  let blockBytes := blockElements * destination.itemsize
  ((List.range repeats).flatMap fun r => (List.range 8).map fun b => (r, b)).mapM fun index =>
    reshaped destination [blockElements]
      (destination.byteOffset + (index.1 * repStride + index.2 * blkStride) * blockBytes)

/-- `_brcb`. -/
def brcb (repeats blkStride repStride : Nat) : Except Failure MemoryRuntime := do
  let destination ← operand task.dst
  let source ← operand task.src
  check checks task 0
  if repeats = 0 then
    return memory
  readAll checks memory task 1 [source]
  let blocks ← brcbBlocks destination repeats blkStride repStride
  writeAll task memory blocks

/-- `_row_expand_binop`: the scratch is written before the source is read. -/
def rowExpandBinop : Except Failure MemoryRuntime := do
  let destination ← operand task.dst
  let source ← operand task.src
  let scalarSource ← operand task.scalarSrc
  check checks task 0
  readAll checks memory task 1 [scalarSource]
  let memory ← writeAll task memory task.scratch.toList
  readAll checks memory task 2 [source]
  writeAll task memory [destination]

/-- `_bitwise_binary`. -/
def bitwiseBinary : Except Failure MemoryRuntime := do
  let destination ← operand task.dst
  let left ← operand task.lhs
  let right ← operand task.rhs
  readThenWrite checks memory task [left, right] [destination]

/-- `_bitwise_not`. -/
def bitwiseNot : Except Failure MemoryRuntime :=
  sourceToDestination checks memory task

/-- `_bitwise_shift`. -/
def bitwiseShift : Except Failure MemoryRuntime :=
  sourceToDestination checks memory task

/-- `_sequence`. -/
def sequence : Except Failure MemoryRuntime := do
  let destination ← operand task.dst
  readThenWrite checks memory task [] [destination]

/-- `_reduce_sum_experiment`. -/
def reduceSumExperiment : Except Failure MemoryRuntime :=
  sourceToDestination checks memory task

/-- `_sum_experiment`. -/
def sumExperiment : Except Failure MemoryRuntime :=
  sourceToDestination checks memory task

/-- An operation that gathers from `src` at `offsets`. -/
def gatherToDestination : Except Failure MemoryRuntime := do
  let destination ← operand task.dst
  let source ← operand task.src
  let offsets ← operand task.offsets
  readThenWrite checks memory task [source, offsets] [destination]

/-- `_gather`. -/
def gather : Except Failure MemoryRuntime :=
  gatherToDestination checks memory task

/-- `_gatherb`. -/
def gatherb : Except Failure MemoryRuntime :=
  gatherToDestination checks memory task

/-- `_gather_mask`: custom masks have offsets. -/
def gatherMask (custom : Bool) : Except Failure MemoryRuntime := do
  let destination ← operand task.dst
  let source ← operand task.src
  readRightThenWrite checks memory task [source]
    (if custom then do return [← operand task.offsets] else .ok []) destination

/-- `_transpose`. -/
def transpose : Except Failure MemoryRuntime :=
  sourceToDestination checks memory task

/-- `_reinterpretcast`: planned buffers are copied, others become another name. -/
def reinterpretcast (materializeView : Bool) : Except Failure MemoryRuntime := do
  let destination ← operand task.dst
  let source ← operand task.src
  if materializeView then
    readThenWrite checks memory task [source] [destination]
  else
    memory.aliasBuffer task destination source

/-- `_topk`. -/
def topk : Except Failure MemoryRuntime :=
  sourceToDestination checks memory task

/-- `_sort32`. -/
def sort32 : Except Failure MemoryRuntime :=
  gatherToDestination checks memory task

/-- `_sort`. -/
def sort : Except Failure MemoryRuntime :=
  sourceToDestination checks memory task

/-- `_init_sort_buf`: only whole blocks are written. -/
def initSortBuf (covered : Nat) : Except Failure MemoryRuntime := do
  let destination ← operand task.dst
  check checks task 0
  if covered = 0 then
    return memory
  let region ← reshaped destination [covered] destination.byteOffset
  writeAll task memory [region]

/-- `_merge_sort`. -/
def mergeSort : Except Failure MemoryRuntime := do
  let destination ← operand task.dst
  match task.srcRegions with
  | some sources => readThenWrite checks memory task sources [destination]
  | none => throw .other

/-- An operation that updates `dst` from `src`. -/
def updateDestination : Except Failure MemoryRuntime := do
  let source ← operand task.src
  let destination ← operand task.dst
  readThenWrite checks memory task [source, destination] [destination]

/-- `_atomic_add`. -/
def atomicAdd : Except Failure MemoryRuntime :=
  updateDestination checks memory task

/-- `_atomic_add_l0c`. -/
def atomicAddL0c : Except Failure MemoryRuntime :=
  updateDestination checks memory task

/-- `_block_reduce`: blocks without active elements keep what the destination holds. -/
def blockReduce : Except Failure MemoryRuntime :=
  updateDestination checks memory task

/-- `_whole_reduce`. -/
def wholeReduce : Except Failure MemoryRuntime :=
  updateDestination checks memory task

/-- `_clamp`. -/
def clamp : Except Failure MemoryRuntime :=
  sourceToDestination checks memory task

/-- `_broadcast`. -/
def broadcast : Except Failure MemoryRuntime :=
  sourceToDestination checks memory task

/-- `_compare`. -/
def compare (hasScalar : Bool) : Except Failure MemoryRuntime := do
  let left ← operand task.lhs
  let destination ← operand task.dst
  readRightThenWrite checks memory task [left] (rightOperand task hasScalar) destination

/-- `_select`. -/
def select (hasScalar : Bool) : Except Failure MemoryRuntime := do
  let mask ← operand task.mask
  let left ← operand task.lhs
  let destination ← operand task.dst
  readRightThenWrite checks memory task [mask, left] (rightOperand task hasScalar) destination

/-- `_tail_compare`. -/
def tailCompare (hasScalar : Bool) : Except Failure MemoryRuntime := do
  let left ← operand task.lhs
  let destination ← operand task.dst
  readRightThenWrite checks memory task [left] (tailRightOperand task hasScalar) destination

/-- `_tail_select`. -/
def tailSelect (hasScalar : Bool) : Except Failure MemoryRuntime := do
  let mask ← operand task.mask
  let left ← operand task.lhs
  let destination ← operand task.dst
  readRightThenWrite checks memory task [mask, left] (tailRightOperand task hasScalar) destination

/-- Whether the first two extents of a source are nonempty; both are read unless one is empty. -/
def someExtents (source : BufferRegion) : Except Failure Bool :=
  match source.shape with
  | 0 :: _ => .ok false
  | _ :: cols :: _ => .ok (cols != 0)
  | _ => .error .other

/-- `_reduce`: an empty source leaves the destination alone. -/
def reduce (clear : Bool) : Except Failure MemoryRuntime := do
  let source ← operand task.src
  let destination ← operand task.dst
  readAll checks memory task 0 [source]
  let nonempty ← someExtents source
  if nonempty = false then
    return memory
  check checks task 1
  let accumulators ←
    if clear then
      pure []
    else do
      let accumulator ← operand task.accumulator
      pure [accumulator]
  readAll checks memory task 2 accumulators
  writeAll task memory [destination]

/-- A store of a scalar expression. -/
def bufferStore (loads : List BufferRegion) : Except Failure MemoryRuntime := do
  readAll checks memory task 0 loads
  let destination ← operand task.dst
  writeAll task memory [destination]

/-- `_execute` in functional mode. -/
def executeFunctional : Except Failure MemoryRuntime :=
  match task.operation with
  | .traceOnly => .ok memory
  | .synchronization => .ok memory
  | .bufferStore loads => bufferStore checks memory task loads
  | .copy form => copy checks memory task form
  | .binary hasScalar => binary checks memory task hasScalar
  | .bitwiseBinary => bitwiseBinary checks memory task
  | .axpy => axpy checks memory task
  | .mulAddDst => mulAddDst checks memory task
  | .mma init => mma checks memory task init
  | .gemmV0 init => gemmV0 checks memory task init
  | .im2col => im2col checks memory task
  | .unary => unary checks memory task
  | .bitwiseNot => bitwiseNot checks memory task
  | .bitwiseShift => bitwiseShift checks memory task
  | .cast => cast checks memory task
  | .fill => fill checks memory task
  | .reduceSumExperiment => reduceSumExperiment checks memory task
  | .sumExperiment => sumExperiment checks memory task
  | .brcb repeats blkStride repStride => brcb checks memory task repeats blkStride repStride
  | .rowExpand => rowExpandBinop checks memory task
  | .sequence => sequence checks memory task
  | .gather => gather checks memory task
  | .gatherb => gatherb checks memory task
  | .gatherMask custom => gatherMask checks memory task custom
  | .transpose => transpose checks memory task
  | .reinterpretcast materializeView => reinterpretcast checks memory task materializeView
  | .topk => topk checks memory task
  | .sort32 => sort32 checks memory task
  | .sort => sort checks memory task
  | .initSortBuf covered => initSortBuf checks memory task covered
  | .mergeSort => mergeSort checks memory task
  | .atomicAdd => atomicAdd checks memory task
  | .atomicAddL0c => atomicAddL0c checks memory task
  | .clamp => clamp checks memory task
  | .broadcast => broadcast checks memory task
  | .compare hasScalar => compare checks memory task hasScalar
  | .tailCompare hasScalar => tailCompare checks memory task hasScalar
  | .select hasScalar => select checks memory task hasScalar
  | .tailSelect hasScalar => tailSelect checks memory task hasScalar
  | .reduce clear => reduce checks memory task clear
  | .blockReduce => blockReduce checks memory task
  | .wholeReduce => wholeReduce checks memory task
  | .unknown => .error .other

end Functional

/-! ## Sync-only execution -/

section SyncOnly

variable (checks : TensorTask → Nat → Bool) (memory : MemoryRuntime) (task : TensorTask)

/-- `_metadata_regions` of the read keys. -/
def sourceRegions : List BufferRegion :=
  task.srcRegions.getD task.src.toList ++ task.lhs.toList ++ task.rhs.toList ++
    task.mask.toList ++ task.accumulator.toList ++ task.scalarSrc.toList ++
    task.offsets.toList ++ task.bias.toList

/-- `_metadata_regions` of the write keys. -/
def destinationRegions : List BufferRegion :=
  task.dstRegions.getD task.dst.toList ++ task.padDst.toList ++ task.scratch.toList ++
    task.outputScratch.toList

/-- An atomic operation also reads what it writes. -/
def isAtomic : TensorOperation → Bool
  | .atomicAdd => true
  | .atomicAddL0c => true
  | _ => false

/-- The regions that sync-only mode reads. -/
def syncOnlyReads : List BufferRegion :=
  if isAtomic task.operation then
    sourceRegions task ++
      (destinationRegions task).filter fun region =>
        region ∉ sourceRegions task ∧ some region ≠ task.padDst
  else
    sourceRegions task

/-- Checks of regions in order. -/
def checkAll : List BufferRegion → Except Failure Unit
  | [] => .ok ()
  | region :: rest => do
      memory.checkInitialized task region
      checkAll rest

/-- Marks of regions in order. -/
def markAll
    (memory : MemoryRuntime) :
    List BufferRegion → Except Failure MemoryRuntime
  | [] => .ok memory
  | region :: rest => do
      let memory ← memory.markInitialized task region
      markAll memory rest

/-- The generic path of `_execute_sync_only`. -/
def accessMetadata : Except Failure MemoryRuntime := do
  checkAll memory task (syncOnlyReads task)
  markAll task memory (destinationRegions task)

/-- A scalar load without tensor values: only local buffers hold any. -/
def readScalars : Nat → List BufferRegion → Except Failure Unit
  | _, [] => .ok ()
  | stage, region :: rest => do
      if region.scope ≠ .localScope then
        throw .other
      memory.checkInitialized task region
      memory.read task region
      check checks task stage
      readScalars (stage + 1) rest

/-- `_execute` in sync-only mode. -/
def executeSyncOnly : Except Failure MemoryRuntime :=
  match task.operation with
  | .traceOnly => .ok memory
  | .synchronization => .ok memory
  | .bufferStore loads => do
      readScalars checks memory task 0 loads
      let destination ← operand task.dst
      writeAll task memory [destination]
  | .reinterpretcast materializeView => do
      let destination ← operand task.dst
      let source ← operand task.src
      if materializeView then
        throw .other
      else
        memory.aliasBuffer task destination source
  | .unknown => .error .other
  | _ => accessMetadata memory task

end SyncOnly

/-! ## Runs -/

/-- The mode of an execution. -/
inductive Mode where
  | functional
  | syncOnly
  deriving Repr, DecidableEq

/-- One task. -/
def execute (mode : Mode) (checks : TensorTask → Nat → Bool) (memory : MemoryRuntime)
    (task : TensorTask) : Except Failure MemoryRuntime :=
  match mode with
  | .functional => executeFunctional checks memory task
  | .syncOnly => executeSyncOnly checks memory task

/-- The tasks of a program in execution order; a failure names the position of its task. -/
def executeFrom
    (mode : Mode)
    (checks : TensorTask → Nat → Bool) :
    Nat → MemoryRuntime → List TensorTask → Except (Nat × Failure) MemoryRuntime
  | _, memory, [] => .ok memory
  | position, memory, task :: rest =>
    match execute mode checks memory task with
    | .ok next => executeFrom mode checks (position + 1) next rest
    | .error failure => .error (position, failure)

end TilelangAscend.Simulator.Poison
