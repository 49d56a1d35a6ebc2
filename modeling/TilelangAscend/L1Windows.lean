import TilelangAscend.GmCopies
import TilelangAscend.RegionAccess
import TilelangAscend.RuntimeFootprint

namespace TilelangAscend.Simulator.Bridge

open Footprint (GemmCall TemplateDtype)
open Memory (MemoryAllocation AddressSpace MemoryError HazardMode)
open TileArrays (Axis Tile cuts)

/-!
# Copies from L1 to L0

A copy reads a window of a matrix that lies in L1 as a padded zN tile, or as an nZ tile where it
is transposed.  The window is cut at the C0 boundaries of its columns, or of its rows, into
regions whose elements are at fixed distances; the executor concatenates what it reads from them.
The steps of a `gemm_v0` read windows of their operands in the same way.
-/

/-! ## Windows of a tile -/

/-- A region of two dimensions elsewhere in the same buffer. -/
def RuntimeRegion.window (region : RuntimeRegion) (rows : RuntimeInt)
    (cols byteOffset rowStride colStride : Nat) : RuntimeRegion :=
  { region with
    shape := [rows, .int cols]
    byteOffset := .int byteOffset
    stridesBytes := some [.int rowStride, .int colStride]
    stridesRank := by
      intro strides given
      rw [← Option.some.inj given]
      rfl }

/-- The regions of a window of a zN tile, one for each band of columns. -/
def zNWindowRegions (source : RuntimeRegion) (shape : MatrixShape) (origin : Nat × Nat)
    (rows : RuntimeInt) (cols : Nat) (byteOffsetOf : Nat → Nat) (itemsize : Nat) :
    List RuntimeRegion :=
  let c0 := elementsPerC0 itemsize
  (cuts c0 (origin.2 + cols) cols origin.2).map fun cut =>
    source.window rows cut.2
      (byteOffsetOf (elementOffset .zN shape itemsize origin.1 cut.1)) (c0 * itemsize) itemsize

/-- The regions of a window of an nZ tile, one for each band of rows. -/
def nZWindowRegions (source : RuntimeRegion) (shape : MatrixShape) (origin : Nat × Nat)
    (window : MatrixShape) (byteOffsetOf : Nat → Nat) (itemsize : Nat) : List RuntimeRegion :=
  let c0 := elementsPerC0 itemsize
  (cuts c0 (origin.1 + window.rows) window.rows origin.1).map fun cut =>
    source.window (.int cut.2) window.cols
      (byteOffsetOf (elementOffset .nZ shape itemsize cut.1 origin.2)) itemsize (c0 * itemsize)

/-! ## The copy -/

/-- The template of a copy: the extents of its source and whether it is transposed. -/
structure L1Template where
  sourceRows : Int
  sourceCols : Int
  transpose : Bool
  deriving Repr, DecidableEq

/-- The operand of the matrix unit that a copy fills. -/
inductive L0Target where
  | l0a
  | l0b
  deriving Repr, DecidableEq

/-- The scope of an operand. -/
def L0Target.scope : L0Target → MemoryScope
  | .l0a => .l0a
  | .l0b => .l0b

/-- The layout of an operand. -/
def L0Target.layout : L0Target → MatrixLayout
  | .l0a => .zZ
  | .l0b => .nZ

/-- What a copy reads: one window, or some regions along an axis. -/
inductive WindowSource where
  | direct (region : RuntimeRegion)
  | regions (parts : List RuntimeRegion)

/-- The regions of a source. -/
def WindowSource.all : WindowSource → List RuntimeRegion
  | .direct region => [region]
  | .regions parts => parts

/-- One region is read directly. -/
def WindowSource.of (parts : List RuntimeRegion) : WindowSource :=
  match parts with
  | [region] => .direct region
  | parts => .regions parts

/-- The operands of a copy from L1 to L0. -/
structure L0Copy where
  source : WindowSource
  dst : RuntimeRegion
  sourceLayout : MatrixLayout
  destinationLayout : MatrixLayout
  sourceShape : MatrixShape
  destinationShape : MatrixShape
  sourceOrigin : Nat × Nat
  sourceRegionAxis : Axis

/-- The shape of the source in the order of the logical rows and columns. -/
def L1Template.sourceShape (template : L1Template) : MatrixShape :=
  if template.transpose then
    ⟨template.sourceCols.toNat, template.sourceRows.toNat⟩
  else
    ⟨template.sourceRows.toNat, template.sourceCols.toNat⟩

/-- The layout of the source. -/
def L1Template.sourceLayout (template : L1Template) : MatrixLayout :=
  if template.transpose then .nZ else .zN

/-- The checks of the extents of a copy, which have to be literals. -/
def l0Extents (template : L1Template) (dstM dstN : Argument) :
    Except BridgeError (Option MatrixShape) :=
  match dstM.resolved, dstN.resolved with
  | some _, some _ =>
    match dstM.static, dstN.static with
    | some destinationRows, some destinationCols =>
      if template.sourceRows ≤ 0 ∨ template.sourceCols ≤ 0 ∨ destinationRows ≤ 0 ∨
          destinationCols ≤ 0 then
        .error .validation
      else if template.sourceShape.rows < destinationRows.toNat ∨
          template.sourceShape.cols < destinationCols.toNat then
        .error .validation
      else
        .ok (some ⟨destinationRows.toNat, destinationCols.toNat⟩)
    | _, _ => .error .unsupported
  | _, _ => .ok none

/-- The slot and the coordinate of a byte offset: padded tiles follow one another. -/
def slotOf (layout : MatrixLayout) (shape : MatrixShape) (byteOffset itemsize : Nat) :
    Nat × Option (Nat × Nat) :=
  let perSlotElements := storageElements layout shape itemsize
  let absoluteElementOffset := byteOffset / itemsize
  let slotBaseElements :=
    if perSlotElements > 0 then
      absoluteElementOffset / perSlotElements * perSlotElements
    else
      0
  (slotBaseElements,
    shape.coordinates.find? fun coordinate =>
      elementOffset layout shape itemsize coordinate.1 coordinate.2 =
        absoluteElementOffset - slotBaseElements)

/-- The regions of the window of a copy in its slot, and the axis along which they lie. -/
def windowSource (transpose : Bool) (source : RuntimeRegion) (shape : MatrixShape)
    (origin : Nat × Nat) (window : MatrixShape) (slotBaseElements itemsize : Nat) :
    List RuntimeRegion × Axis :=
  let byteOffsetOf := fun offset => (slotBaseElements + offset) * itemsize
  if transpose then
    (nZWindowRegions source shape origin window byteOffsetOf itemsize, .rows)
  else
    (zNWindowRegions source shape origin (.int window.rows) window.cols byteOffsetOf itemsize,
      .cols)

/-- The check of the tile in the operand buffer. -/
def checkOperandTile (destination : RuntimeRegion) (bufferSize : Option Nat)
    (tileBytes : Nat) : Except BridgeError Unit :=
  match destination.byteOffset with
  | .int byteOffset =>
    if byteOffset.toNat % tileBytes ≠ 0 then
      .error .unsupported
    else if bufferSize.any fun size => size < byteOffset.toNat + tileBytes then
      .error .validation
    else
      .ok ()
  | _ => .error .unsupported

/-- `_l1_to_l0_metadata`. -/
def l1ToL0Metadata
    (bridge : BridgeBuffers)
    (coreId : Nat)
    (target : L0Target)
    (template : L1Template)
    (sourcePointer destinationPointer : Pointer)
    (dstM dstN : Argument) :
    Except BridgeError (Option L0Copy × BridgeBuffers) := do
  match ← l0Extents template dstM dstN with
  | none => return (none, bridge)
  | some destinationShape =>
    match sourcePointer.dataName.bind bridge.nameByDataVar,
        destinationPointer.dataName.bind bridge.nameByDataVar with
    | some sourceName, some destinationName =>
      let declared := bridge.buffers sourceName
      if declared.scope ≠ .l1 ∨ (bridge.buffers destinationName).scope ≠ target.scope then
        throw .validation
      if declared.dtype ≠ (bridge.buffers destinationName).dtype then
        throw .validation
      let itemsize := dtypeSizeBytes declared.dtype
      if ¬ ValidItemsize itemsize then
        throw .validation
      let sourceElements := storageElements template.sourceLayout template.sourceShape itemsize
      let destinationElements := storageElements target.layout destinationShape itemsize
      let reserved := bridge.reserve sourceName (sourceElements * itemsize)
      match ← accessLinearRegion reserved coreId sourcePointer (.int sourceElements),
          ← accessLinearRegion reserved coreId destinationPointer (.int destinationElements) with
      | some source, some destination =>
        match source.byteOffset with
        | .int byteOffset =>
          if byteOffset.toNat % 32 ≠ 0 then
            throw .unsupported
          let (slotBaseElements, found) :=
            slotOf template.sourceLayout template.sourceShape byteOffset.toNat itemsize
          match found with
          | none => throw .unsupported
          | some origin =>
            if template.sourceShape.rows < origin.1 + destinationShape.rows ∨
                template.sourceShape.cols < origin.2 + destinationShape.cols then
              throw .validation
            let (regions, axis) := windowSource template.transpose source
              template.sourceShape origin destinationShape slotBaseElements itemsize
            let _ ← checkOperandTile destination
              (reserved.buffers destinationName).size (destinationElements * itemsize)
            return (some {
              source := .of regions
              dst := destination
              sourceLayout := template.sourceLayout
              destinationLayout := target.layout
              sourceShape := template.sourceShape
              destinationShape := destinationShape
              sourceOrigin := origin
              sourceRegionAxis := axis }, reserved)
        | _ => throw .unsupported
      | _, _ => return (none, reserved)
    | _, _ => return (none, bridge)

/-! ## The steps of `gemm_v0` -/

/-- The element type behind a template type. -/
def elementType : TemplateDtype → DType
  | .int8 | .uint8 => .numeric 8 1 wholeBytes_8
  | .float16 | .bfloat16 | .int16 | .uint16 => .numeric 16 1 wholeBytes_16
  | .float32 | .int32 | .uint32 => .numeric 32 1 wholeBytes_32
  | .int64 | .uint64 => .numeric 64 1 (by decide)

/-- What a step reads of an operand: a window of the stored matrix. -/
structure OperandWindow where
  shape : MatrixShape
  origin : Nat × Nat
  rows : RuntimeInt
  cols : Nat

/-- The window of the left operand. -/
def leftWindow (call : GemmCall) (step : Nat) : OperandWindow :=
  let kStart := step % call.kSplit * call.kL0Size
  if call.transposeA then
    ⟨⟨call.inner, call.rows⟩, (kStart, 0), .int (call.kSize step), call.rows⟩
  else
    ⟨⟨call.rows, call.inner⟩, (0, kStart), .int call.rows, call.kSize step⟩

/-- The window of the right operand; where it is transposed its rows may be known at run time. -/
def rightWindow (call : GemmCall) (step : Nat) : OperandWindow :=
  let kStart := step % call.kSplit * call.kL0Size
  let nStart := step / call.kSplit * call.nTile
  if call.transposeB then
    ⟨⟨call.cols, call.inner⟩, (nStart, kStart), call.nSize, call.kSize step⟩
  else
    ⟨⟨call.inner, call.cols⟩, (kStart, nStart), .int (call.kSize step), call.nTile⟩

/-- `_gemm_v0_metadata`: the look-up of an operand in L1, with its byte offset. -/
def gemmOperand
    (bridge : BridgeBuffers)
    (coreId : Nat)
    (call : GemmCall)
    (pointer : Pointer)
    (shape : MatrixShape) :
    Except BridgeError (Option (RuntimeRegion × Nat)) := do
  let elements := storageElements .zN shape call.input.sizeBytes
  match ← accessLinearRegion bridge coreId pointer (.int elements) with
  | none => return none
  | some region =>
    if region.scope ≠ .l1 then
      throw .validation
    if region.dtype ≠ elementType call.input then
      throw .validation
    let _ ← checkOperandTile region (bridge.buffers region.buffer).size
      (elements * dtypeSizeBytes region.dtype)
    match region.byteOffset with
    | .int byteOffset => return some (region, byteOffset.toNat)
    | _ => throw .unsupported

/-- `source_window_regions` of `_emit_gemm_v0_trace_tasks`. -/
def sourceWindowRegions (source : RuntimeRegion) (byteOffset : Nat)
    (window : OperandWindow) (inputBytes : Nat) : List RuntimeRegion :=
  zNWindowRegions source window.shape window.origin window.rows window.cols
    (fun offset => byteOffset + offset * inputBytes) inputBytes

/-! ## Execution -/

/-- Read a region whose runtime integers are bound. -/
def readRegion (allocation : MemoryAllocation) (mode : HazardMode) (space : AddressSpace)
    (bindings : String → Option Int) (region : RuntimeRegion) :
    Except MemoryError (Tile (List UInt8)) :=
  match region.resolve bindings with
  | some concrete => allocation.readTile mode space concrete
  | none => .error .validation

/-- The values that the executor reads for a copy from the allocation of its source. -/
def WindowSource.read
    (allocation : MemoryAllocation)
    (mode : HazardMode)
    (space : AddressSpace)
    (bindings : String → Option Int)
    (axis : Axis) :
    WindowSource → Except MemoryError (Tile (List UInt8))
  | .direct region => readRegion allocation mode space bindings region
  | .regions parts => do
      let fragments ← parts.mapM (readRegion allocation mode space bindings)
      match Tile.concatenate axis fragments with
      | some values => return values
      | none => throw .validation

end TilelangAscend.Simulator.Bridge
