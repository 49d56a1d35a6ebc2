import Mathlib.Data.List.Sort
import Mathlib.Data.Int.Basic

namespace TilelangAscend.MemoryPlanning

/-!
# The linear scan allocator

`LinearScanAllocator` of the memory planning pass.  Buffers of one scope are visited by the
start of their live interval.  A buffer with an annotated address is put there, every other one
behind everything allocated so far or, when this leaves the memory or meets an annotated
buffer, into a free block.  Offsets and sizes are `size_t` and wrap around, as in the source.
-/

/-- A buffer; names are unique in a function. -/
abbrev Buffer := String

/-- A buffer with the closed interval of statements in which it is live. -/
structure LiveInterval where
  buffer : Buffer
  start : Int
  finish : Int
  size : UInt64
  deriving Repr, DecidableEq

/-- A planned range; `isReused` tells whether it was taken from a free block. -/
structure Allocation where
  buffer : Buffer
  offset : UInt64
  size : UInt64
  isReused : Bool
  deriving Repr, DecidableEq

/-- Offset and length of a range that no active buffer holds. -/
structure FreeBlock where
  first : UInt64
  second : UInt64
  deriving Repr, DecidableEq

/-- Ways in which planning a scope stops. -/
inductive PlanError where
  | conflict (buffer : Buffer)
  | outOfMemory (buffer : Buffer)
  | missingBuffer (buffer : Buffer)
  deriving Repr, DecidableEq

/-- `AlignUp`: the next multiple of the alignment. -/
def alignUp (value alignment : UInt64) : UInt64 :=
  (value + alignment - 1) / alignment * alignment

/-! ## Free blocks -/

/-- Blocks by offset, then by length. -/
def FreeBlock.before (left right : FreeBlock) : Prop :=
  left.first < right.first ∨ left.first = right.first ∧ left.second ≤ right.second

instance : DecidableRel FreeBlock.before :=
  fun _ _ => inferInstanceAs (Decidable (_ ∨ _))

/-- Blocks in the order of `std::sort` on pairs. -/
def sortBlocks (freeBlocks : List FreeBlock) : List FreeBlock :=
  freeBlocks.insertionSort FreeBlock.before

/-- Extend the latest merged block by every listed block that overlaps or touches it. -/
def mergeFrom
    (last : FreeBlock) :
    List FreeBlock → List FreeBlock
  | [] => [last]
  | current :: rest =>
    if last.first + last.second ≥ current.first then
      let newEnd := max (last.first + last.second) (current.first + current.second)
      mergeFrom ⟨last.first, newEnd - last.first⟩ rest
    else
      last :: mergeFrom current rest

/-- `mergeFreeBlocks`: sort the blocks and merge overlapping and adjacent ones. -/
def mergeFreeBlocks (freeBlocks : List FreeBlock) : List FreeBlock :=
  match sortBlocks freeBlocks with
  | [] => []
  | first :: rest => mergeFrom first rest

/-- What remains of a block when a range that starts in it is taken out. -/
def FreeBlock.remainder (block : FreeBlock) (offset size : UInt64) : List FreeBlock :=
  let allocatedEnd := offset + size
  let blockEnd := block.first + block.second
  (if offset > block.first then [⟨block.first, offset - block.first⟩] else []) ++
    (if allocatedEnd < blockEnd then [⟨allocatedEnd, blockEnd - allocatedEnd⟩] else [])

/-- `removeFromFreeBlocks`: take a range out of the first block that contains its offset. -/
def removeFromFreeBlocks
    (offset size : UInt64) :
    List FreeBlock → List FreeBlock
  | [] => []
  | block :: rest =>
    if offset ≥ block.first ∧ offset < block.first + block.second then
      rest ++ block.remainder offset size
    else
      block :: removeFromFreeBlocks offset size rest

/-! ## The allocator -/

/--
What an allocator knows of a scope: the capacity, the annotated addresses in the order in which
their map is iterated, and `buffer_map_`, the interval that is found for a buffer.
-/
structure Scope where
  memoryLimit : UInt64
  preAllocated : List (Buffer × Int)
  bufferMap : Buffer → Option LiveInterval

namespace Scope

/-- The annotated address of a buffer. -/
def addressOf? (scope : Scope) (buffer : Buffer) : Option Int :=
  scope.preAllocated.lookup buffer

/-- Whether an annotated buffer that is live together with a buffer overlaps a range for it. -/
def conflictsWith (offset : UInt64) (current preInterval : LiveInterval) (address : Int) : Bool :=
  let preOffset := UInt64.ofInt address
  preInterval.buffer ≠ current.buffer ∧
    (current.start < preInterval.finish ∧ preInterval.start < current.finish) ∧
    offset < preOffset + preInterval.size ∧ preOffset < offset + current.size

/-- The annotated buffers of a list, one after another, against a range for a buffer. -/
def checkConflictFrom
    (bufferMap : Buffer → Option LiveInterval)
    (offset : UInt64)
    (current : LiveInterval) :
    List (Buffer × Int) → Except PlanError Bool
  | [] => .ok false
  | (buffer, address) :: rest =>
    match bufferMap buffer with
    | none => .error (.missingBuffer buffer)
    | some preInterval =>
      if conflictsWith offset current preInterval address then
        .ok true
      else
        checkConflictFrom bufferMap offset current rest

/-- `CheckConflict`: whether a range for a buffer meets an annotated one. -/
def checkConflict (scope : Scope) (offset : UInt64) (current : LiveInterval) :
    Except PlanError Bool :=
  checkConflictFrom scope.bufferMap offset current scope.preAllocated

/-- The aligned offset in a block that has room for a buffer and meets no annotated one. -/
def offsetIn (scope : Scope) (current : LiveInterval) (block : FreeBlock) :
    Except PlanError (Option UInt64) :=
  let alignedOffset := alignUp block.first 32
  let availableAfterAlign := block.second - (alignedOffset - block.first)
  if block.second ≥ current.size ∧ availableAfterAlign ≥ current.size then
    match scope.checkConflict alignedOffset current with
    | .error failure => .error failure
    | .ok true => .ok none
    | .ok false => .ok (some alignedOffset)
  else
    .ok none

/-- The first block of a list with room for a buffer. -/
def firstFit
    (scope : Scope)
    (current : LiveInterval) :
    List FreeBlock → Except PlanError (Option UInt64)
  | [] => .ok none
  | block :: rest =>
    match scope.offsetIn current block with
    | .error failure => .error failure
    | .ok (some offset) => .ok (some offset)
    | .ok none => firstFit scope current rest

/-- A found offset with the free blocks and the end of the used memory afterwards. -/
structure Reuse where
  offset : UInt64
  freeBlocks : List FreeBlock
  nextNewOffset : UInt64
  deriving Repr, DecidableEq

/--
`findReusableBlock`: a free block with room, or the last one extended to the end of the memory
when it ends where the used memory does.
-/
def findReusableBlock (scope : Scope) (current : LiveInterval)
    (freeBlocks : List FreeBlock) (nextNewOffset : UInt64) : Except PlanError (Option Reuse) :=
  let sorted := sortBlocks freeBlocks
  match scope.firstFit current sorted with
  | .error failure => .error failure
  | .ok (some offset) => .ok (some ⟨offset, sorted, nextNewOffset⟩)
  | .ok none =>
    match sorted.getLast? with
    | none => .ok none
    | some lastBlock =>
      if lastBlock.first + lastBlock.second = nextNewOffset then
        let extended : FreeBlock := ⟨lastBlock.first, scope.memoryLimit - lastBlock.first⟩
        match scope.offsetIn current extended with
        | .error failure => .error failure
        | .ok none => .ok none
        | .ok (some offset) => .ok (some ⟨offset, sorted.dropLast ++ [extended], scope.memoryLimit⟩)
      else
        .ok none

end Scope

/--
State of the scan.  `active` joins the queue of intervals by end with the list of their
allocations.
-/
structure ScanState where
  active : List (LiveInterval × Allocation) := []
  freeBlocks : List FreeBlock := []
  nextNewOffset : UInt64 := 0
  allocations : List Allocation := []
  deriving Repr, DecidableEq

namespace ScanState

/-- Whether an active buffer is dead before a statement. -/
def expiresBefore (start : Int) (entry : LiveInterval × Allocation) : Bool :=
  entry.1.finish < start

/--
Release the buffers that are dead before a statement.  The source pops them by end; the blocks
are sorted right after, so the order in which they are appended does not matter.
-/
def expire (state : ScanState) (start : Int) : ScanState :=
  { state with
    active := state.active.filter fun entry => !expiresBefore start entry
    freeBlocks :=
      mergeFreeBlocks
        (state.freeBlocks ++
          (state.active.filter (expiresBefore start)).map fun entry =>
            ⟨entry.2.offset, entry.2.size⟩) }

/-- Record an allocation of a buffer. -/
def record (state : ScanState) (interval : LiveInterval) (offset : UInt64)
    (isReused : Bool) : ScanState :=
  let allocation : Allocation := ⟨interval.buffer, offset, interval.size, isReused⟩
  { state with
    active := state.active ++ [(interval, allocation)]
    allocations := state.allocations ++ [allocation] }

/-- The free blocks with the memory that is skipped when a range starts behind the used memory. -/
def freeBelow (state : ScanState) (allocatedOffset : UInt64) : List FreeBlock :=
  if allocatedOffset > state.nextNewOffset then
    state.freeBlocks ++ [⟨state.nextNewOffset, allocatedOffset - state.nextNewOffset⟩]
  else
    state.freeBlocks

/-- The end of the used memory once a range with a given end is used. -/
def usedUpTo (state : ScanState) (allocatedEnd : UInt64) : UInt64 :=
  if allocatedEnd > state.nextNewOffset then allocatedEnd else state.nextNewOffset

/-- Put a buffer at its annotated address, unless an active buffer is there. -/
def placePreAllocated (state : ScanState) (interval : LiveInterval) (address : Int) :
    Except PlanError ScanState :=
  let allocatedOffset := alignUp (UInt64.ofInt address) 32
  let allocatedEnd := allocatedOffset + interval.size
  if state.active.any (fun entry =>
      allocatedOffset < entry.2.offset + entry.2.size ∧
        entry.2.offset < allocatedOffset + interval.size) then
    .error (.conflict interval.buffer)
  else
    .ok
      (ScanState.record
        { state with
          freeBlocks := state.freeBelow allocatedOffset
          nextNewOffset := state.usedUpTo allocatedEnd }
        interval allocatedOffset false)

/-- Put a buffer into a free block. -/
def placeReused (scope : Scope) (state : ScanState) (interval : LiveInterval) :
    Except PlanError ScanState :=
  match scope.findReusableBlock interval state.freeBlocks state.nextNewOffset with
  | .error failure => .error failure
  | .ok none => .error (.outOfMemory interval.buffer)
  | .ok (some reuse) =>
    .ok
      (ScanState.record
        { state with
          freeBlocks := removeFromFreeBlocks reuse.offset interval.size reuse.freeBlocks
          nextNewOffset := reuse.nextNewOffset }
        interval reuse.offset true)

/-- Put a buffer behind the used memory or, where this is not possible, into a free block. -/
def placeNormal (scope : Scope) (state : ScanState) (interval : LiveInterval) :
    Except PlanError ScanState :=
  let newMemoryOffset := alignUp state.nextNewOffset 32
  if newMemoryOffset + interval.size ≤ scope.memoryLimit then
    match scope.checkConflict newMemoryOffset interval with
    | .error failure => .error failure
    | .ok true => placeReused scope state interval
    | .ok false =>
      .ok
        (ScanState.record { state with nextNewOffset := newMemoryOffset + interval.size }
          interval newMemoryOffset false)
  else
    placeReused scope state interval

/-- One round of the allocation loop. -/
def step (scope : Scope) (state : ScanState) (interval : LiveInterval) :
    Except PlanError ScanState :=
  let released := state.expire interval.start
  match scope.addressOf? interval.buffer with
  | some address => released.placePreAllocated interval address
  | none => released.placeNormal scope interval

end ScanState

/--
`buffer_map_` points into the vector of intervals and is filled before `allocate` sorts that
vector: a buffer is looked up at the position that it had before.
-/
def bufferMap (given sorted : List LiveInterval) (buffer : Buffer) : Option LiveInterval :=
  (given.findIdx? fun interval => interval.buffer = buffer).bind fun position => sorted[position]?

/-- `LinearScanAllocator::allocate` with a `std::sort` on the starts of the intervals. -/
def allocate (sort : List LiveInterval → List LiveInterval) (memoryLimit : UInt64)
    (preAllocated : List (Buffer × Int)) (intervals : List LiveInterval) :
    Except PlanError (List Allocation) :=
  let sorted := sort intervals
  let scope : Scope := ⟨memoryLimit, preAllocated, bufferMap intervals sorted⟩
  (sorted.foldlM (ScanState.step scope) {}).map ScanState.allocations

/-- The call of `allocate` in `PlanMemoryForScope`, which sorts the intervals first. -/
def planIntervals (sort : List LiveInterval → List LiveInterval) (memoryLimit : UInt64)
    (preAllocated : List (Buffer × Int)) (intervals : List LiveInterval) :
    Except PlanError (List Allocation) :=
  allocate sort memoryLimit preAllocated (sort intervals)

end TilelangAscend.MemoryPlanning
