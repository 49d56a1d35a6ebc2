import TilelangAscend.BumpPlacement
import TilelangAscend.ExceptRules
import TilelangAscend.LinearScan

namespace TilelangAscend.MemoryPlanning

open BumpPlacement (place finish demand Rounds)
open ExceptRules (exceptBind_eq_ok)

/-!
# Planning without reuse

`PlanMemoryForScopeLinear`: annotated buffers keep their addresses, and the other ones follow one
another, in the unified buffer behind the last annotated one and only if they have an external
shape.  The check against the capacity is switched off.
-/

/-! ## Model -/

/-- Scopes with a memory limit. -/
inductive OnChipScope where
  | sharedL1
  | wmmaMatrixA
  | wmmaMatrixB
  | wmmaAccumulator
  | sharedUb
  | sharedBt
  deriving Repr, DecidableEq

/-- `memory_limits_`. -/
def OnChipScope.memoryLimit : OnChipScope → Int
  | .sharedL1 => 524032
  | .wmmaMatrixA => 65536
  | .wmmaMatrixB => 65536
  | .wmmaAccumulator => 131072
  | .sharedUb => 196352
  | .sharedBt => 1024

/-- The allocated buffers of a function, each with its scope, size and annotated address. -/
structure PlannerInput where
  originBuffer : List Buffer
  scopeOf : Buffer → OnChipScope
  sizes : Buffer → UInt64
  preAllocBuffer : Buffer → Option Int
  externalShapes : List Buffer
  uniqueNames : originBuffer.Nodup

/-- `SetTmpBuffers`: buffers of the unified buffer with a shape and without an address. -/
def PlannerInput.tmpBuffers (input : PlannerInput) : List Buffer :=
  input.externalShapes.filter fun buffer =>
    (input.preAllocBuffer buffer).isNone && input.scopeOf buffer = .sharedUb

/-- The values of a word of 64 bits. -/
def wordRange : Nat := 2 ^ 64

/-- Conversion to `size_t`. -/
def asSizeT (value : Int) : Int :=
  value % wordRange

/-- Conversion to `int64_t`. -/
def asInt64 (value : Int) : Int :=
  Int.bmod value wordRange

/-- `AlignUp` to 32 bytes of an `int64_t`, through `size_t`. -/
def alignOffset (value : Int) : Int :=
  asInt64 (asSizeT (asSizeT value + 31) / 32 * 32)

/-- `buf_size`, the size of a buffer as an `int64_t`. -/
def PlannerInput.bufSize (input : PlannerInput) (buffer : Buffer) : Int :=
  asInt64 (input.sizes buffer).toNat

/-- `check_overflow`. -/
def checkOverflow : Bool :=
  false

/-- The address map with the two offsets of a scope. -/
structure LinearState where
  addressMap : Buffer → Option Int
  currentOffset : Int
  maxOffset : Int

/-- Give a buffer an address. -/
def setAddress (addressMap : Buffer → Option Int) (buffer : Buffer) (address : Int) :
    Buffer → Option Int :=
  fun other => if other = buffer then some address else addressMap other

namespace PlannerInput

/-- `alloc_buffer`: the address map and the offset behind the buffer. -/
def allocBuffer (input : PlannerInput) (scope : OnChipScope)
    (addressMap : Buffer → Option Int) (buffer : Buffer) (offset : Int) :
    Except PlanError ((Buffer → Option Int) × Int) :=
  if offset + input.bufSize buffer > scope.memoryLimit ∧ checkOverflow = true then
    .error (.outOfMemory buffer)
  else
    .ok (setAddress addressMap buffer offset, alignOffset (offset + input.bufSize buffer))

/-- A round of the first loop, for a buffer of any scope. -/
def placeOrigin (input : PlannerInput) (scope : OnChipScope) (state : LinearState)
    (buffer : Buffer) : Except PlanError LinearState :=
  if input.scopeOf buffer ≠ scope then
    .ok state
  else
    match input.preAllocBuffer buffer with
    | some address =>
      .ok { state with
        addressMap := setAddress state.addressMap buffer address
        maxOffset := max state.maxOffset (asInt64 (address + (input.sizes buffer).toNat)) }
    | none =>
      if scope ≠ .sharedUb then do
        let (addressMap, offset) ←
          input.allocBuffer scope state.addressMap buffer state.currentOffset
        return ⟨addressMap, offset, max state.maxOffset offset⟩
      else
        .ok state

/-- A round of the second loop. -/
def placeTmp (input : PlannerInput) (state : LinearState) (buffer : Buffer) :
    Except PlanError LinearState :=
  if buffer ∈ input.tmpBuffers ∧ state.addressMap buffer = none then do
    let (addressMap, offset) ← input.allocBuffer .sharedUb state.addressMap buffer state.maxOffset
    return { state with addressMap := addressMap, maxOffset := offset }
  else
    .ok state

/-- `PlanMemoryForScopeLinear`. -/
def planMemoryForScopeLinear
    (input : PlannerInput)
    (scope : OnChipScope)
    (addressMap : Buffer → Option Int) :
    Except PlanError (Buffer → Option Int) := do
  let first ← input.originBuffer.foldlM (input.placeOrigin scope) ⟨addressMap, 0, 0⟩
  if scope = .sharedUb then
    let last ← input.originBuffer.foldlM input.placeTmp first
    return last.addressMap
  else
    return first.addressMap

/-- `PlanMemory` without reuse, over the scopes in the order of their map. -/
def planMemoryLinear (input : PlannerInput) (scopes : List OnChipScope) :
    Except PlanError (Buffer → Option Int) :=
  scopes.foldlM (fun addressMap scope => input.planMemoryForScopeLinear scope addressMap)
    fun _ => none

end PlannerInput

end TilelangAscend.MemoryPlanning
