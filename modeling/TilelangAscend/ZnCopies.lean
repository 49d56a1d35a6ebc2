import TilelangAscend.L1Windows
import TilelangAscend.SegmentWrites

namespace TilelangAscend.Simulator.Bridge

open Memory (MemoryAllocation AddressSpace MemoryError HazardMode)
open TileArrays (Tile block)

/-!
# Execution of copies from GM to L1 in zN

The executor reads the source window and writes it to the regions of the copy: the packed physical
tile at once, the packed fractal rows band by band, or the rows of the window piece by piece.  An
array has the element type of the region it is written to.
-/

/-- Why the executor stops. -/
inductive CopyFailure where
  /-- the first of no destinations -/
  | noDestination
  /-- an array that cannot be reshaped -/
  | badReshape
  | memory (failure : MemoryError)
  deriving Repr, DecidableEq

/-- The regions that a copy writes. -/
def ZnDestination.regions : ZnDestination → List RuntimeRegion
  | .tile region => [region]
  | .spliced regions _ => regions
  | .rebased regions => regions

/-- The shape of the physical tile. -/
def ZnCopy.physicalShape (copy : ZnCopy) : MatrixShape :=
  ⟨copy.physicalRows, copy.physicalCols⟩

/-- Write consecutive elements to a region whose runtime integers are bound. -/
def writeRegion (allocation : MemoryAllocation) (bindings : String → Option Int)
    (space : AddressSpace) (write : RuntimeRegion × List (List UInt8)) :
    Except CopyFailure AddressSpace :=
  match write.1.resolve bindings with
  | some concrete => (allocation.writeElements concrete write.2 space).mapError .memory
  | none => .error (.memory .validation)

/-- An array of zeros in whose corner a tile has been put. -/
def padded (values : Tile (List UInt8)) (itemsize : Nat) (row col : Nat) : List UInt8 :=
  if row < values.rows ∧ col < values.cols then
    values.value row col
  else
    List.replicate itemsize 0

/-- The elements of a tile that is padded to a shape and packed. -/
def packedElements (shape : MatrixShape) (itemsize : Nat) (values : Tile (List UInt8)) :
    List (List UInt8) :=
  (List.range (storageElements .zN shape itemsize)).map
    (@packMatrix _ ⟨List.replicate itemsize 0⟩ .zN shape itemsize (padded values itemsize))

/-- The elements of a tile row by row. -/
def flattened (values : Tile (List UInt8)) : List (List UInt8) :=
  (List.range values.rows).flatMap fun row => (List.range values.cols).map (values.value row)

/-- The pieces of an array of elements, as many as there are regions. -/
def chunks (elements : List (List UInt8)) (count : Nat) :
    Except CopyFailure (List (List (List UInt8))) :=
  let size := elements.length / count
  if count * size = elements.length then
    .ok ((List.range count).map (block size elements))
  else
    .error .badReshape

/-- The loop of a rebased copy: each region takes the next elements. -/
def writeRebased
    (allocation : MemoryAllocation)
    (bindings : String → Option Int)
    (elements : List (List UInt8))
    (regions : List RuntimeRegion)
    (space : AddressSpace) :
    Except CopyFailure AddressSpace := do
  let (after, offset) ← regions.foldlM
    (fun (state : AddressSpace × Nat) region => do
      let count := (region.shape.filterMap staticExtent).prod
      let next ← writeRegion allocation bindings state.1
        (region, (elements.drop state.2).take count)
      return (next, state.2 + count))
    (space, 0)
  if offset ≠ elements.length then
    throw (.memory .validation)
  return after

/-- `_copy` of a zN copy, once its source is read. -/
def ZnCopy.place (copy : ZnCopy) (allocation : MemoryAllocation)
    (bindings : String → Option Int) (values : Tile (List UInt8)) (space : AddressSpace) :
    Except CopyFailure AddressSpace :=
  match copy.destination with
  | .tile region =>
    writeRegion allocation bindings space
      (region, packedElements copy.physicalShape region.itemsize values)
  | .spliced regions writtenRows => do
      let itemsize := (regions.head?.map RuntimeRegion.itemsize).getD 0
      let pieces ← chunks
        (packedElements ⟨writtenRows, copy.physicalCols⟩ itemsize values) regions.length
      (regions.zip pieces).foldlM (writeRegion allocation bindings) space
  | .rebased regions => writeRebased allocation bindings (flattened values) regions space

/-- `_copy` of a zN copy. -/
def ZnCopy.run
    (copy : ZnCopy)
    (source destination : MemoryAllocation)
    (mode : HazardMode)
    (bindings : String → Option Int)
    (gm l1 : AddressSpace) :
    Except CopyFailure AddressSpace := do
  if copy.destination.regions = [] then
    throw .noDestination
  let values ← (readRegion source mode gm bindings copy.src).mapError .memory
  copy.place destination bindings values l1

end TilelangAscend.Simulator.Bridge
