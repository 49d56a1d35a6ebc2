import TilelangAscend.ExceptRules
import TilelangAscend.MatrixLayout
import TilelangAscend.RuntimeRegions

namespace TilelangAscend.Simulator.Bridge

open ExceptRules (exceptBind_eq_ok exceptGuard_eq_ok)

/-!
# Copies between GM and local memory

The bridge decodes the copies between GM and UB, from GM to L1 in rows or in the zN layout, and
from L0C to GM, each with a builder of its own.  All of them carry the row stride of the GM side
as an argument.  A builder answers `none` for a call that it leaves opaque.
-/

/-- An integer argument: its value in a run, and what the bridge resolves it to, if it can. -/
structure Argument where
  meaning : (String → Option Int) → Option Int
  resolved : Option RuntimeInt
  faithful :
    ∀ expression ∈ resolved, ∀ bindings, expression.evaluate bindings = meaning bindings

/-- An argument that is a literal. -/
def Argument.literal (value : Int) : Argument where
  meaning := fun _ => some value
  resolved := some (.int value)
  faithful := by
    intro expression given bindings
    rw [← Option.some.inj given]
    rfl

/-- The literal that an argument is resolved to. -/
def Argument.static (argument : Argument) : Option Int :=
  match argument.resolved with
  | some (.int value) => some value
  | _ => none

/-- Both values are known and the first is larger. -/
def exceeds : RuntimeInt → RuntimeInt → Bool
  | .int left, .int right => right < left
  | _, _ => false

/-! ## GM and UB -/

/-- The operands of a copy between GM and UB. -/
structure CopyOperands where
  src : RuntimeRegion
  dst : RuntimeRegion
  validRows : RuntimeInt
  validCols : RuntimeInt
  physical : Option (RuntimeInt × RuntimeInt)

/-- The physical rows and columns at the end of the arguments; one extent is a row. -/
def physicalTile : List Argument → Option (Option (RuntimeInt × RuntimeInt))
  | [] => some none
  | [cols] => cols.resolved.map fun cols => some (.int 1, cols)
  | rows :: cols :: _ => do
      let rows ← rows.resolved
      let cols ← cols.resolved
      return some (rows, cols)

/-- Where the physical extents start among the arguments behind the two pointers. -/
def physicalStart (gmToUb : Bool) (count : Nat) : Nat :=
  if gmToUb ∨ 8 ≤ count + 2 then 4 else 3

/--
`_functional_metadata` of a two-dimensional copy between GM and UB; the arguments behind the
pointers are the GM row stride, the valid rows and columns, and what follows them.
-/
def copyMetadata (bridge : BridgeBuffers) (coreId : Nat) (gmToUb : Bool)
    (source destination : Pointer) (strideN validRows validCols : Argument)
    (others : List Argument) : Except BridgeError (Option CopyOperands) :=
  match validRows.resolved, validCols.resolved with
  | some rows, some cols =>
    if isNegative rows ∨ isNegative cols then
      .error .validation
    else
      let arguments := strideN :: validRows :: validCols :: others
      match physicalTile (arguments.drop (physicalStart gmToUb arguments.length)) with
      | none => .ok none
      | some physical =>
        if physical.any fun tile =>
            [rows, cols, tile.1, tile.2].all (fun extent => decide extent.IsStatic) &&
              (exceeds rows tile.1 || exceeds cols tile.2) then
          .error .validation
        else do
          let physicalCols := physical.map Prod.snd
          let src ← accessBufferRegion bridge coreId source rows cols
            (if gmToUb then none else physicalCols)
            (if gmToUb then strideN.resolved else none)
          let dst ← accessBufferRegion bridge coreId destination rows cols
            (if gmToUb then physicalCols else none)
            (if gmToUb then none else strideN.resolved)
          match src, dst with
          | some src, some dst => return some ⟨src, dst, rows, cols, physical⟩
          | _, _ => return none
  | _, _ => .ok none

/-! ## GM to L1 in rows -/

/-- `_gm_to_l1_linear_metadata`. -/
def gmToL1LinearMetadata (bridge : BridgeBuffers) (coreId : Nat)
    (source destination : Pointer) (realSrcN validM validN dstM dstN : Argument) :
    Except BridgeError (Option CopyOperands) :=
  match realSrcN.resolved, validM.resolved, validN.resolved, dstM.resolved, dstN.resolved with
  | some sourceCols, some rows, some cols, some physicalRows, some physicalCols =>
    let dimensions := [sourceCols, rows, cols, physicalRows, physicalCols]
    if dimensions.any isNegative then
      .error .validation
    else if dimensions.all (fun extent => decide extent.IsStatic) ∧
        (exceeds rows physicalRows ∨ exceeds cols physicalCols ∨ exceeds cols sourceCols) then
      .error .validation
    else do
      let src ← accessBufferRegion bridge coreId source rows cols none (some sourceCols)
      let dst ← accessBufferRegion bridge coreId destination rows cols none none
      match src, dst with
      | some src, some dst =>
        if src.scope ≠ .gm ∨ dst.scope ≠ .l1 then
          .error .validation
        else if src.dtype ≠ dst.dtype then
          .error .validation
        else if (staticExtent cols).any fun width => width * src.itemsize % 32 ≠ 0 then
          .error .validation
        else
          return some ⟨src, dst, rows, cols, some (physicalRows, physicalCols)⟩
      | _, _ => return none
  | _, _, _, _, _ => .ok none

/-! ## GM to L1 in zN -/

/-- Where the tile of a zN copy goes. -/
inductive ZnDestination where
  /-- the whole physical tile, zero outside the valid rectangle -/
  | tile (region : RuntimeRegion)
  /-- the fractal rows of the valid rectangle, in one region for each band of columns -/
  | spliced (regions : List RuntimeRegion) (writtenRows : Nat)
  /-- one region for each row and band of the valid rectangle -/
  | rebased (regions : List RuntimeRegion)

/-- The operands of a zN copy. -/
structure ZnCopy where
  src : RuntimeRegion
  destination : ZnDestination
  sourceCols : Nat
  validRows : Nat
  validCols : Nat
  physicalRows : Nat
  physicalCols : Nat

/-- A region of consecutive elements elsewhere in the same buffer. -/
def RuntimeRegion.segment (region : RuntimeRegion) (extent byteOffset : Nat) : RuntimeRegion :=
  { region with
    shape := [.int extent]
    byteOffset := .int byteOffset
    stridesBytes := none
    stridesRank := nofun }

/-- The fractal-row segments of a spliced copy, one for each band. -/
def spliceRegions (destination : RuntimeRegion)
    (byteOffset writtenRows physicalRows physicalCols itemsize : Nat) : List RuntimeRegion :=
  let c0 := elementsPerC0 itemsize
  (List.range (physicalCols / c0)).map fun band =>
    destination.segment (writtenRows * c0)
      ((byteOffset / itemsize + band * (physicalRows * c0)) * itemsize)

/-- The first columns of the bands of some columns: `range(0, cols, c0)`. -/
def bandStarts (cols c0 : Nat) : List Nat :=
  (List.range (ceilDiv cols c0)).map (· * c0)

/-- The row segments of a rebased copy. -/
def rebasedRegions (destination : RuntimeRegion) (byteOffset validRows validCols : Nat)
    (physical : MatrixShape) (itemsize : Nat) : List RuntimeRegion :=
  let c0 := elementsPerC0 itemsize
  (List.range validRows).flatMap fun row =>
    (bandStarts validCols c0).map fun column =>
      destination.segment (min c0 (validCols - column))
        (byteOffset + elementOffset .zN physical itemsize row column * itemsize)

/-- The five extents of a zN copy. -/
structure ZnExtents where
  sourceCols : Nat
  validRows : Nat
  validCols : Nat
  physicalRows : Nat
  physicalCols : Nat
  deriving Repr, DecidableEq

/-- The checks of the extents of a zN copy, which have to be literals. -/
def znExtents (realSrcN validM validN dstM dstN : Argument) :
    Except BridgeError (Option ZnExtents) :=
  match realSrcN.resolved, validM.resolved, validN.resolved, dstM.resolved, dstN.resolved with
  | some _, some _, some _, some _, some _ =>
    match realSrcN.static, validM.static, validN.static, dstM.static, dstN.static with
    | some sourceCols, some validRows, some validCols, some physicalRows, some physicalCols =>
      if sourceCols < 0 ∨ validRows < 0 ∨ validCols < 0 ∨ physicalRows < 0 ∨ physicalCols < 0 then
        .error .validation
      else if physicalRows = 0 ∨ physicalCols = 0 then
        .error .validation
      else if physicalRows < validRows ∨ physicalCols < validCols then
        .error .validation
      else if sourceCols < validCols then
        .error .validation
      else
        .ok (some ⟨sourceCols.toNat, validRows.toNat, validCols.toNat, physicalRows.toNat,
          physicalCols.toNat⟩)
    | _, _, _, _, _ => .error .unsupported
  | _, _, _, _, _ => .ok none

/-- The destination of a zN copy at a byte offset of its buffer. -/
def znDestination (extents : ZnExtents) (destination : RuntimeRegion)
    (destinationSize : Option Nat) (byteOffset itemsize : Nat) :
    Except BridgeError ZnDestination :=
  let c0 := elementsPerC0 itemsize
  let physical : MatrixShape := ⟨extents.physicalRows, extents.physicalCols⟩
  let tileBytes := storageElements .zN physical itemsize * itemsize
  if byteOffset % tileBytes = 0 then
    if destinationSize.any fun size => size < byteOffset + tileBytes then
      .error .validation
    else
      .ok (.tile destination)
  else if extents.physicalRows % 16 = 0 ∧
      byteOffset % (elementsPerFractal itemsize * itemsize) = 0 then
    let writtenRows := ceilDiv extents.validRows 16 * 16
    let lastElement := byteOffset / itemsize +
      (extents.physicalCols / c0 - 1) * (extents.physicalRows * c0) + writtenRows * c0
    if destinationSize.any fun size => size < lastElement * itemsize then
      .error .validation
    else
      .ok (.spliced
        (spliceRegions destination byteOffset writtenRows extents.physicalRows
          extents.physicalCols itemsize)
        writtenRows)
  else if byteOffset % 32 ≠ 0 then
    .error .unsupported
  else
    .ok (.rebased
      (rebasedRegions destination byteOffset extents.validRows extents.validCols physical itemsize))

/-- `_gm_to_l1_zn_metadata`. -/
def gmToL1ZnMetadata
    (bridge : BridgeBuffers)
    (coreId : Nat)
    (source destination : Pointer)
    (realSrcN validM validN dstM dstN : Argument) :
    Except BridgeError (Option ZnCopy × BridgeBuffers) := do
  match ← znExtents realSrcN validM validN dstM dstN with
  | none => return (none, bridge)
  | some extents =>
    let src ← accessBufferRegion bridge coreId source (.int extents.validRows)
      (.int extents.validCols) none (some (.int extents.sourceCols))
    match src, destination.dataName.bind bridge.nameByDataVar with
    | some src, some name =>
      let declared := bridge.buffers name
      if src.scope ≠ .gm ∨ declared.scope ≠ .l1 then
        throw .validation
      if src.dtype ≠ declared.dtype then
        throw .validation
      if elementsPerC0 src.itemsize = 0 then
        throw .zeroDivision
      if extents.physicalCols % elementsPerC0 src.itemsize ≠ 0 then
        throw .unsupported
      if ¬ ValidItemsize src.itemsize then
        throw .validation
      let physicalElements :=
        storageElements .zN ⟨extents.physicalRows, extents.physicalCols⟩ src.itemsize
      let reserved := bridge.reserve name (physicalElements * src.itemsize)
      match ← accessLinearRegion reserved coreId destination (.int physicalElements) with
      | none => return (none, reserved)
      | some dst =>
        match dst.byteOffset with
        | .int byteOffset =>
          let placed ← znDestination extents dst (reserved.buffers name).size
            byteOffset.toNat src.itemsize
          return (some ⟨src, placed, extents.sourceCols, extents.validRows,
            extents.validCols, extents.physicalRows, extents.physicalCols⟩, reserved)
        | _ => throw .unsupported
    | _, _ => return (none, bridge)

/-- What an accepted zN copy has recorded. -/
structure ZnRecord
    (bridge reserved : BridgeBuffers)
    (coreId : Nat)
    (source destination : Pointer)
    (extents : ZnExtents)
    (name : String)
    (dst : RuntimeRegion)
    (byteOffset : Int)
    (copy : ZnCopy) :
    Prop where
  source : accessBufferRegion bridge coreId source (.int extents.validRows)
    (.int extents.validCols) none (some (.int extents.sourceCols)) = .ok (some copy.src)
  named : destination.dataName.bind bridge.nameByDataVar = some name
  fromGm : copy.src.scope = .gm
  toL1 : (bridge.buffers name).scope = .l1
  sameDtype : copy.src.dtype = (bridge.buffers name).dtype
  wholeBands : extents.physicalCols % elementsPerC0 copy.src.itemsize = 0
  validItemsize : ValidItemsize copy.src.itemsize
  reservedIs : reserved = bridge.reserve name
    (storageElements .zN ⟨extents.physicalRows, extents.physicalCols⟩ copy.src.itemsize *
      copy.src.itemsize)
  accessed : accessLinearRegion reserved coreId destination
    (.int (storageElements .zN ⟨extents.physicalRows, extents.physicalCols⟩
      copy.src.itemsize)) = .ok (some dst)
  offsetIs : dst.byteOffset = .int byteOffset
  placed : znDestination extents dst (reserved.buffers name).size byteOffset.toNat
    copy.src.itemsize = .ok copy.destination
  extentsAre : extents =
    ⟨copy.sourceCols, copy.validRows, copy.validCols, copy.physicalRows, copy.physicalCols⟩

/-- Metadata that is accepted describes the copy. -/
theorem gmToL1Zn_eq_ok {bridge reserved : BridgeBuffers} {coreId : Nat}
    {source destination : Pointer} {realSrcN validM validN dstM dstN : Argument} {copy : ZnCopy}
    (built :
      gmToL1ZnMetadata bridge coreId source destination realSrcN validM validN dstM dstN =
        .ok (some copy, reserved)) :
    ∃ extents name dst byteOffset,
      znExtents realSrcN validM validN dstM dstN = .ok (some extents) ∧
        ZnRecord bridge reserved coreId source destination extents name dst byteOffset copy := by
  unfold gmToL1ZnMetadata at built
  obtain ⟨checked, extentsAre, built⟩ := exceptBind_eq_ok.mp built
  cases checked with
  | none =>
    cases built
  | some extents =>
    obtain ⟨found, srcIs, built⟩ := exceptBind_eq_ok.mp built
    split at built
    · rename_i src name nameIs
      obtain ⟨scopes, built⟩ := exceptGuard_eq_ok.mp built
      obtain ⟨dtypes, built⟩ := exceptGuard_eq_ok.mp built
      obtain ⟨_, built⟩ := exceptGuard_eq_ok.mp built
      obtain ⟨bands, built⟩ := exceptGuard_eq_ok.mp built
      obtain ⟨itemsize, built⟩ := exceptGuard_eq_ok.mp built
      obtain ⟨linear, linearIs, built⟩ := exceptBind_eq_ok.mp built
      cases linear with
      | none =>
        cases built
      | some dst =>
        dsimp only at built
        split at built
        · rename_i byteOffset offsetIs
          obtain ⟨placed, placedIs, built⟩ := exceptBind_eq_ok.mp built
          obtain ⟨recorded, rfl⟩ := Prod.mk.inj (Except.ok.inj built)
          obtain rfl := Option.some.inj recorded
          obtain ⟨fromGm, toL1⟩ := not_or.mp scopes
          exact ⟨extents, name, dst, byteOffset, extentsAre,
            { source := srcIs
              named := nameIs
              fromGm := not_not.mp fromGm
              toL1 := not_not.mp toL1
              sameDtype := not_not.mp dtypes
              wholeBands := not_not.mp bands
              validItemsize := not_not.mp itemsize
              reservedIs := rfl
              accessed := linearIs
              offsetIs := offsetIs
              placed := placedIs
              extentsAre := rfl }⟩
        · cases built
    · cases built

/-! ## L0C to GM -/

/-- The template parameters of a copy from L0C. -/
structure FixTemplate where
  sourceDtype : Option DType
  destinationDtype : Option DType
  rowMajor : Bool
  rows : Int
  cols : Int
  relu : Bool
  deriving DecidableEq

/-- The operands of a copy from L0C. -/
structure FixCopy where
  src : RuntimeRegion
  dst : RuntimeRegion
  sourceShape : MatrixShape
  destinationShape : MatrixShape
  relu : Bool
  unitFlag : Int
  destinationCols : Nat

/-- The extents of a copy from L0C. -/
structure FixExtents where
  destinationCols : Nat
  validRows : Nat
  validCols : Nat
  physicalRows : Nat
  physicalCols : Nat
  deriving Repr, DecidableEq

/-- The checks of the extents of a copy from L0C, which have to be literals. -/
def fixExtents (template : FixTemplate) (dstStrideN validM validN srcM srcN : Argument) :
    Except BridgeError (Option FixExtents) :=
  match dstStrideN.resolved, validM.resolved, validN.resolved, srcM.resolved, srcN.resolved with
  | some _, some _, some _, some _, some _ =>
    match dstStrideN.static, validM.static, validN.static, srcM.static, srcN.static with
    | some destinationCols, some validRows, some validCols, some physicalRows,
        some physicalCols =>
        if destinationCols ≤ 0 ∨ physicalRows ≤ 0 ∨ physicalCols ≤ 0 then
          .error .validation
        else if validRows < 0 ∨ validCols < 0 then
          .error .validation
        else if physicalRows < validRows ∨ physicalCols < validCols then
          .error .validation
        else if destinationCols < validCols then
          .error .validation
        else if (physicalRows, physicalCols) ≠ (template.rows, template.cols) then
          .error .validation
        else
          .ok (some ⟨destinationCols.toNat, validRows.toNat, validCols.toNat,
            physicalRows.toNat, physicalCols.toNat⟩)
    | _, _, _, _, _ => .error .unsupported
  | _, _, _, _, _ => .ok none

/-- The checks of the flags of a copy from L0C. -/
def fixFlags (template : FixTemplate) (enableRelu : Option Int) (unitFlag : Argument) :
    Except BridgeError Int :=
  match enableRelu with
  | none => .error .unsupported
  | some relu =>
    if decide (relu ≠ 0) ≠ template.relu then
      .error .validation
    else
      match unitFlag.static with
      | none => .error .unsupported
      | some flag => if flag = 0 ∨ flag = 3 then .ok flag else .error .unsupported

/-- `_l0c_to_gm_metadata`. -/
def l0cToGmMetadata
    (bridge : BridgeBuffers)
    (coreId : Nat)
    (template : FixTemplate)
    (source destination : Pointer)
    (dstStrideN validM validN srcM srcN : Argument)
    (enableRelu : Option Int)
    (unitFlag : Argument) :
    Except BridgeError (Option FixCopy) := do
  if template.rowMajor = false then
    throw .unsupported
  match ← fixExtents template dstStrideN validM validN srcM srcN with
  | none => return none
  | some extents =>
    let flag ← fixFlags template enableRelu unitFlag
    match source.dataName.bind bridge.nameByDataVar with
    | none => return none
    | some name =>
      let declared := bridge.buffers name
      let itemsize := dtypeSizeBytes declared.dtype
      if ¬ ValidItemsize itemsize then
        throw .validation
      let capacity := storageElements .l0c ⟨extents.physicalRows, extents.physicalCols⟩ itemsize
      let elements := storageElements .l0c ⟨extents.physicalRows, extents.validCols⟩ itemsize
      let src ← accessLinearRegion bridge coreId source (.int elements)
      let dst ← accessBufferRegion bridge coreId destination (.int extents.validRows)
        (.int extents.validCols) none none
      match src, dst with
      | some src, some dst =>
        if src.scope ≠ .l0c ∨ dst.scope ≠ .gm then
          throw .validation
        if template.sourceDtype.isNone ∨ template.destinationDtype.isNone then
          throw .unsupported
        if some src.dtype ≠ template.sourceDtype ∨ some dst.dtype ≠ template.destinationDtype then
          throw .validation
        match src.byteOffset with
        | .int byteOffset =>
          let sourceBytes := capacity * src.itemsize
          if byteOffset.toNat % sourceBytes ≠ 0 then
            throw .unsupported
          if declared.size.any fun size => size < byteOffset.toNat + sourceBytes then
            throw .validation
          return some {
            src := src
            dst := dst
            sourceShape := ⟨extents.physicalRows, extents.validCols⟩
            destinationShape := ⟨extents.validRows, extents.validCols⟩
            relu := template.relu
            unitFlag := flag
            destinationCols := extents.destinationCols }
        | _ => throw .unsupported
      | _, _ => return none

end TilelangAscend.Simulator.Bridge
