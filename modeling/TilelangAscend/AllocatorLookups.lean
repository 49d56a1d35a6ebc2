import TilelangAscend.BufferLiveness
import TilelangAscend.PlannedRanges

namespace TilelangAscend.MemoryPlanning

/-!
# Looking up annotated buffers

`CheckConflict` looks up every annotated buffer of a scope in `buffer_map_`, which has an entry
for each live interval and points into a vector that is sorted once more.  The look-ups of a scan
are listed here, up to the one that throws.  They find the buffers they are made for exactly if
the annotated buffers of the scope are touched and stay in their places, or if none is made.
-/

/-! ## The look-ups of a scan -/

/-- The buffers that `CheckConflict` looks up before it returns or throws. -/
def conflictLookups
    (bufferMap : Buffer → Option LiveInterval)
    (offset : UInt64)
    (current : LiveInterval) :
    List (Buffer × Int) → List Buffer
  | [] => []
  | (buffer, address) :: rest =>
    buffer ::
      match bufferMap buffer with
      | none => []
      | some preInterval =>
        if Scope.conflictsWith offset current preInterval address then
          []
        else
          conflictLookups bufferMap offset current rest

/-- A block has room for a buffer behind its aligned offset. -/
def FreeBlock.hasRoom (block : FreeBlock) (current : LiveInterval) : Prop :=
  block.second ≥ current.size ∧ block.second - (alignUp block.first 32 - block.first) ≥ current.size

instance (block : FreeBlock) (current : LiveInterval) : Decidable (block.hasRoom current) :=
  inferInstanceAs (Decidable (_ ∧ _))

namespace Scope

/-- The look-ups for a range in a block. -/
def offsetLookups (scope : Scope) (current : LiveInterval) (block : FreeBlock) : List Buffer :=
  if block.hasRoom current then
    conflictLookups scope.bufferMap (alignUp block.first 32) current scope.preAllocated
  else
    []

/-- The look-ups for a range in the first block that takes it. -/
def firstFitLookups
    (scope : Scope)
    (current : LiveInterval) :
    List FreeBlock → List Buffer
  | [] => []
  | block :: rest =>
    scope.offsetLookups current block ++
      match scope.offsetIn current block with
      | .ok none => firstFitLookups scope current rest
      | _ => []

/-- The last block, extended to the end of the memory if it ends where the used memory does. -/
def extendedBlock (memoryLimit : UInt64) (sorted : List FreeBlock)
    (nextNewOffset : UInt64) : Option FreeBlock :=
  sorted.getLast?.bind fun lastBlock =>
    if lastBlock.first + lastBlock.second = nextNewOffset then
      some ⟨lastBlock.first, memoryLimit - lastBlock.first⟩
    else
      none

/-- The look-ups of `findReusableBlock`. -/
def reuseLookups (scope : Scope) (current : LiveInterval) (freeBlocks : List FreeBlock)
    (nextNewOffset : UInt64) : List Buffer :=
  let sorted := sortBlocks freeBlocks
  scope.firstFitLookups current sorted ++
    match scope.firstFit current sorted with
    | .ok none =>
      match extendedBlock scope.memoryLimit sorted nextNewOffset with
      | some extended => scope.offsetLookups current extended
      | none => []
    | _ => []

end Scope

namespace ScanState

/-- The look-ups for a buffer without an annotation. -/
def normalLookups (scope : Scope) (state : ScanState) (interval : LiveInterval) : List Buffer :=
  let newMemoryOffset := alignUp state.nextNewOffset 32
  if newMemoryOffset + interval.size ≤ scope.memoryLimit then
    conflictLookups scope.bufferMap newMemoryOffset interval scope.preAllocated ++
      match scope.checkConflict newMemoryOffset interval with
      | .ok true => scope.reuseLookups interval state.freeBlocks state.nextNewOffset
      | _ => []
  else
    scope.reuseLookups interval state.freeBlocks state.nextNewOffset

/-- The look-ups of one round of the allocation loop. -/
def stepLookups (scope : Scope) (state : ScanState) (interval : LiveInterval) : List Buffer :=
  match scope.addressOf? interval.buffer with
  | some _ => []
  | none => (state.expire interval.start).normalLookups scope interval

/-- The look-ups of the allocation loop. -/
def scanLookups
    (scope : Scope) :
    ScanState → List LiveInterval → List Buffer
  | _, [] => []
  | state, interval :: rest =>
    state.stepLookups scope interval ++
      match state.step scope interval with
      | .ok next => scanLookups scope next rest
      | .error _ => []

end ScanState

/-- What the allocator knows of a scope in `PlanMemoryForScope`. -/
def plannedScope (sort : List LiveInterval → List LiveInterval) (memoryLimit : UInt64)
    (preAllocated : List (Buffer × Int)) (intervals : List LiveInterval) : Scope :=
  ⟨memoryLimit, preAllocated, bufferMap (sort intervals) (sort (sort intervals))⟩

/-- The look-ups of `PlanMemoryForScope`. -/
def planLookups (sort : List LiveInterval → List LiveInterval) (memoryLimit : UInt64)
    (preAllocated : List (Buffer × Int)) (intervals : List LiveInterval) : List Buffer :=
  ScanState.scanLookups (plannedScope sort memoryLimit preAllocated intervals) {}
    (sort (sort intervals))

/-! ## The inputs of a scope -/

/-- `pre_alloc_scope_buffer`: the annotated buffers of a scope. -/
def preAllocScopeBuffer (annotations : Buffer → Option Int) (buffers : List Buffer) :
    List (Buffer × Int) :=
  buffers.filterMap fun buffer => (annotations buffer).map fun address => (buffer, address)

/-- The intervals of the buffers of a scope that have a birth and a death. -/
def scopeIntervals (lifetimes : Buffer → Option (Int × Int)) (sizes : Buffer → UInt64)
    (buffers : List Buffer) : List LiveInterval :=
  buffers.filterMap fun buffer =>
    (lifetimes buffer).map fun lifetime => ⟨buffer, lifetime.1, lifetime.2, sizes buffer⟩

/-- Birth and death of a buffer of a program. -/
def lifetime (program : Program) (buffer : Buffer) : Option (Int × Int) :=
  (liveInterval? (linearSeq program) (fun _ => 0) buffer).map fun interval =>
    (interval.start, interval.finish)

/-- The intervals of a program are those of its lifetimes. -/
theorem liveIntervals_eq_scopeIntervals (program : Program) (sizes : Buffer → UInt64)
    (buffers : List Buffer) :
    liveIntervals program sizes buffers = scopeIntervals (lifetime program) sizes buffers := by
  unfold liveIntervals scopeIntervals
  congr 1
  funext buffer
  unfold lifetime liveInterval?
  cases genIndex (linearSeq program) buffer with
  | none => rfl
  | some gen =>
    cases killIndex (linearSeq program) buffer with
    | none => rfl
    | some kill => rfl

/-- Every look-up finds the interval of its buffer, and none throws. -/
structure LookupsFind
    (sort : List LiveInterval → List LiveInterval)
    (memoryLimit : UInt64)
    (preAllocated : List (Buffer × Int))
    (intervals : List LiveInterval) :
    Prop where
  found :
    ∀ buffer ∈ planLookups sort memoryLimit preAllocated intervals,
      ∃ interval, bufferMap (sort intervals) (sort (sort intervals)) buffer = some interval ∧
        interval.buffer = buffer
  noThrow :
    ∀ buffer, planIntervals sort memoryLimit preAllocated intervals ≠ .error (.missingBuffer buffer)

/-! ## When a look-up is made -/

namespace ScanState

/-- A buffer without an annotation is checked for conflicts: it fits somewhere. -/
def FindsRoom (memoryLimit : UInt64) (state : ScanState) (current : LiveInterval) : Prop :=
  alignUp state.nextNewOffset 32 + current.size ≤ memoryLimit ∨
    (∃ block ∈ sortBlocks state.freeBlocks, block.hasRoom current) ∨
    ∃ extended ∈ Scope.extendedBlock memoryLimit (sortBlocks state.freeBlocks)
        state.nextNewOffset,
      extended.hasRoom current

/--
The first buffer without an annotation, with the state in which it is placed; there is none if a
buffer before it is in conflict.
-/
def firstNormal
    (preAllocated : List (Buffer × Int)) :
    ScanState → List LiveInterval → Option (ScanState × LiveInterval)
  | _, [] => none
  | state, interval :: rest =>
    let released := state.expire interval.start
    match preAllocated.lookup interval.buffer with
    | some address =>
      match released.placePreAllocated interval address with
      | .ok next => firstNormal preAllocated next rest
      | .error _ => none
    | none => some (released, interval)

end ScanState

/-- The scan comes to a buffer without an annotation, and this one fits somewhere. -/
def ChecksConflicts (memoryLimit : UInt64) (preAllocated : List (Buffer × Int))
    (sorted : List LiveInterval) : Prop :=
  ∃ state current,
    ScanState.firstNormal preAllocated {} sorted = some (state, current) ∧
      state.FindsRoom memoryLimit current

/-- The second sort leaves a buffer where the first one put it. -/
def KeepsPlace (sort : List LiveInterval → List LiveInterval)
    (intervals : List LiveInterval) (buffer : Buffer) : Prop :=
  (sort (sort intervals)).findIdx? (fun interval => interval.buffer = buffer) =
    (sort intervals).findIdx? fun interval => interval.buffer = buffer

end TilelangAscend.MemoryPlanning
