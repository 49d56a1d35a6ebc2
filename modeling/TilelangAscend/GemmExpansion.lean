import TilelangAscend.MatrixLayout

namespace TilelangAscend.Simulator.Cube

/-!
# Expansion of `gemm_v0`

The bridge turns a `gemm_v0` call whose product does not fit into one step into copies from L1
to the two ping-pong slots of L0A and L0B and into MMA tasks that accumulate in L0C.  Operands
are int8 with an int32 accumulator, and arithmetic is exact.  Memory is addressed by elements
of the operand's type; a cell that was never written holds nothing.
-/

/-- Why the bridge or the executor refuses a program. -/
inductive CubeError where
  /-- gemm_v0 extents must be positive -/
  | emptyExtent
  /-- gemm_v0 kL0Size must be a multiple of 16 and at most 4095 -/
  | badKL0Size
  /-- gemm_v0 N tiling does not evenly divide the output columns -/
  | unevenTiling
  /-- gemm_v0 B tile exceeds its L0B slot -/
  | rhsTileTooLarge
  /-- gemm_v0 A tile exceeds its L0A slot -/
  | lhsTileTooLarge
  /-- functional gemm_v0 requires a tile-base-aligned operand -/
  | unalignedOperand
  /-- gemm_v0 physical tile exceeds its buffer -/
  | operandExceedsBuffer
  /-- logical coordinate is outside matrix shape -/
  | outsideShape
  /-- mma n_actual must be in [1, cols] and a multiple of 16 -/
  | badActualColumns
  /-- capacity exceeded -/
  | capacityExceeded
  /-- view reaches beyond its allocation -/
  | outOfBounds
  /-- input has another shape than the region -/
  | wrongShape
  /-- read-before-write -/
  | uninitialized
  deriving Repr, DecidableEq

/-- Bytes of an operand element. -/
def inputBytes : Nat := 1

/-- Bytes of an accumulator element. -/
def accumulatorBytes : Nat := 4

/-! ## Planning -/

/-- Template parameters and init flag of a `gemm_v0` call. -/
structure GemmTemplate where
  rows : Nat
  cols : Nat
  inner : Nat
  kL0Size : Nat
  transposeA : Bool
  transposeB : Bool
  init : Bool
  deriving Repr, DecidableEq

/-- An operand: where its buffer is allocated, how long the buffer is, and where the operand is. -/
structure Operand where
  address : Nat
  size : Nat
  offset : Nat
  deriving Repr, DecidableEq

/-- What the bridge records for an accepted call. -/
structure GemmDetails extends GemmTemplate where
  nTile : Nat
  nL0Split : Nat
  stepCount : Nat
  lhs : Operand
  rhs : Operand
  dst : Operand
  deriving Repr, DecidableEq

namespace GemmTemplate

/-- Shape of the stored left operand. -/
def shapeA (template : GemmTemplate) : MatrixShape :=
  if template.transposeA then
    ⟨template.inner, template.rows⟩
  else
    ⟨template.rows, template.inner⟩

/-- Shape of the stored right operand. -/
def shapeB (template : GemmTemplate) : MatrixShape :=
  if template.transposeB then
    ⟨template.cols, template.inner⟩
  else
    ⟨template.inner, template.cols⟩

/-- Shape of the accumulator. -/
def shapeC (template : GemmTemplate) : MatrixShape :=
  ⟨template.rows, template.cols⟩

/-- Number of steps along the inner dimension. -/
def kSplit (template : GemmTemplate) : Nat :=
  (template.inner + template.kL0Size - 1) / template.kL0Size

/-- Columns of a tile: all of them, or as many as half of L0B holds. -/
def tileColumns (template : GemmTemplate) : Nat :=
  let maxNByL0B := 32 * 1024 / (template.kL0Size * inputBytes)
  if template.transposeB ∨ template.cols ≤ maxNByL0B then template.cols else maxNByL0B

/-- Number of expanded steps. -/
def steps (template : GemmTemplate) : Nat :=
  template.kSplit * (template.cols / template.tileColumns)

/-- Bytes of an L0 slot. -/
def slotBudget (template : GemmTemplate) : Nat :=
  64 * 1024 / (if 1 < template.steps then 2 else 1)

end GemmTemplate

/-- The checks of one operand. -/
def checkOperand (operand : Operand) (elements : Nat) : Except CubeError Unit :=
  if operand.offset % elements ≠ 0 then
    .error .unalignedOperand
  else if operand.size < operand.offset + elements then
    .error .operandExceedsBuffer
  else
    .ok ()

/-- `_gemm_v0_metadata` of a call without a partial column count. -/
def gemmV0Metadata
    (template : GemmTemplate)
    (lhs rhs dst : Operand) :
    Except CubeError GemmDetails := do
  if template.rows = 0 ∨ template.cols = 0 ∨ template.inner = 0 ∨ template.kL0Size = 0 then
    throw .emptyExtent
  if template.kL0Size % 16 ≠ 0 ∨ 4095 < template.kL0Size then
    throw .badKL0Size
  if template.tileColumns = 0 ∨ template.cols % template.tileColumns ≠ 0 then
    throw .unevenTiling
  if template.slotBudget < template.tileColumns * template.kL0Size * inputBytes then
    throw .rhsTileTooLarge
  if template.slotBudget < template.rows * template.kL0Size * inputBytes then
    throw .lhsTileTooLarge
  checkOperand lhs (storageElements .zN template.shapeA inputBytes)
  checkOperand rhs (storageElements .zN template.shapeB inputBytes)
  checkOperand dst (storageElements .l0c template.shapeC accumulatorBytes)
  return {
    template with
    nTile := template.tileColumns
    nL0Split := template.cols / template.tileColumns
    stepCount := template.steps
    lhs := lhs
    rhs := rhs
    dst := dst }

/-! ## Memory -/

/-- Cells of an address space. -/
abbrev AddressSpace := Nat → Option Int

/-- A region of an allocation: rows of some width at a row stride. -/
structure Region where
  address : Nat
  size : Nat
  offset : Nat
  rows : Nat
  width : Nat
  rowStride : Nat
  deriving Repr, DecidableEq

namespace Region

/-- A region of consecutive elements. -/
def consecutive (address size offset elements : Nat) : Region where
  address := address
  size := size
  offset := offset
  rows := 1
  width := elements
  rowStride := elements

/-- Address of an element of a region. -/
def cell (region : Region) (row col : Nat) : Nat :=
  region.address + region.offset + row * region.rowStride + col

/-- Elements from the first to the last of a region, with the gaps between its rows. -/
def span (region : Region) : Nat :=
  if region.rows = 0 ∨ region.width = 0 then
    0
  else
    (region.rows - 1) * region.rowStride + region.width

/-- The region does not reach beyond its allocation. -/
def InBounds (region : Region) : Prop :=
  region.offset + region.span ≤ region.size

instance (region : Region) : Decidable region.InBounds :=
  inferInstanceAs (Decidable (_ ≤ _))

/-- Every element of the region has been written. -/
def Initialized (region : Region) (space : AddressSpace) : Prop :=
  ∀ row < region.rows, ∀ col < region.width, (space (region.cell row col)).isSome = true

instance (region : Region) (space : AddressSpace) : Decidable (region.Initialized space) :=
  inferInstanceAs (Decidable (∀ row < _, ∀ col < _, _))

end Region

/-- `read`: the values of a region, row by row. -/
def readRegion (space : AddressSpace) (region : Region) : Except CubeError (Nat → Nat → Int) :=
  if ¬ region.InBounds then
    .error .outOfBounds
  else if region.Initialized space then
    .ok fun row col => (space (region.cell row col)).getD 0
  else
    .error .uninitialized

/-- `write` of consecutive values. -/
def writeRegion (space : AddressSpace) (region : Region) (length : Nat)
    (values : Nat → Int) : Except CubeError AddressSpace :=
  if ¬ region.InBounds then
    .error .outOfBounds
  else if length ≠ region.width then
    .error .wrongShape
  else
    .ok fun address =>
      if region.cell 0 0 ≤ address ∧ address < region.cell 0 0 + region.width then
        some (values (address - region.cell 0 0))
      else
        space address

/-- The memories of a cube core that a product uses. -/
structure CubeMemory where
  l1 : AddressSpace
  l0a : AddressSpace
  l0b : AddressSpace
  l0c : AddressSpace

/-! ## Tasks -/

/-- Destination of a copy from L1. -/
inductive LoadTarget where
  | l0a
  | l0b
  deriving Repr, DecidableEq

/-- Layout of a destination. -/
def LoadTarget.layout : LoadTarget → MatrixLayout
  | .l0a => .zZ
  | .l0b => .nZ

/-- `copy_l1_to_l0a` and `copy_l1_to_l0b`: the source window comes in C0 columns. -/
structure LoadTask where
  target : LoadTarget
  sources : List Region
  destination : Region
  destinationShape : MatrixShape
  transposeAfterSlice : Bool
  deriving Repr, DecidableEq

/-- `mma`. -/
structure MmaTask where
  lhs : Region
  rhs : Region
  dst : Region
  rows : Nat
  cols : Nat
  inner : Nat
  init : Bool
  nActual : Nat
  deriving Repr, DecidableEq

/-- An expanded task. -/
inductive GemmTask where
  | load (task : LoadTask)
  | mma (task : MmaTask)
  deriving Repr, DecidableEq

/-! ## Emission -/

/-- Bytes of half of L0A or L0B. -/
def l0SlotBytes : Nat := 65536 / 2

/--
`source_window_regions`: a window of a zN matrix, cut at the C0 boundaries of its columns.  The
loop advances by at least one column, so that the number of columns bounds it.
-/
def sourceWindowRegions
    (source : Operand)
    (shape : MatrixShape)
    (originRow windowRows limit : Nat) :
    Nat → Nat → Except CubeError (List Region)
  | 0, _ => .ok []
  | fuel + 1, cursor =>
    if cursor < limit then
      let c0 := elementsPerC0 inputBytes
      let width := min (c0 - cursor % c0) (limit - cursor)
      match physicalIndex .zN originRow cursor shape inputBytes with
      | none => .error .outsideShape
      | some offset => do
          let later ←
            sourceWindowRegions source shape originRow windowRows limit fuel (cursor + width)
          return {
            address := source.address
            size := source.size
            offset := source.offset + offset
            rows := windowRows
            width := width
            rowStride := c0 } :: later
    else
      .ok []

namespace GemmDetails

/-- Inner extent of the largest step. -/
def maxK (details : GemmDetails) : Nat :=
  min details.inner details.kL0Size

/-- Elements of an L0A slot. -/
def slotElementsA (details : GemmDetails) : Nat :=
  storageElements .zZ ⟨details.rows, details.maxK⟩ inputBytes

/-- Elements of an L0B slot. -/
def slotElementsB (details : GemmDetails) : Nat :=
  storageElements .nZ ⟨details.maxK, details.nTile⟩ inputBytes

/-- Columns of the tile of a step. -/
def nSize (details : GemmDetails) : Nat :=
  if details.transposeB then details.cols else details.nTile

/-- Inner extent of a step. -/
def kSize (details : GemmDetails) (kIndex : Nat) : Nat :=
  min details.kL0Size (details.inner - kIndex * details.kL0Size)

/-- The copy of the left operand in a step. -/
def loadA
    (details : GemmDetails)
    (kIndex slot : Nat) :
    Except CubeError GemmTask := do
  let kStart := kIndex * details.kL0Size
  let kSize := details.kSize kIndex
  let origin := if details.transposeA then (kStart, 0) else (0, kStart)
  let window : MatrixShape :=
    if details.transposeA then ⟨kSize, details.rows⟩ else ⟨details.rows, kSize⟩
  let sources ←
    sourceWindowRegions details.lhs details.shapeA origin.1 window.rows (origin.2 + window.cols)
      window.cols origin.2
  return .load {
    target := .l0a
    sources := sources
    destination :=
      .consecutive (slot * l0SlotBytes) details.slotElementsA 0
        (storageElements .zZ ⟨details.rows, kSize⟩ inputBytes)
    destinationShape := ⟨details.rows, kSize⟩
    transposeAfterSlice := details.transposeA }

/-- The copy of the right operand in a step. -/
def loadB
    (details : GemmDetails)
    (nIndex kIndex slot : Nat) :
    Except CubeError GemmTask := do
  let kStart := kIndex * details.kL0Size
  let nStart := nIndex * details.nTile
  let kSize := details.kSize kIndex
  let origin := if details.transposeB then (nStart, kStart) else (kStart, nStart)
  let window : MatrixShape :=
    if details.transposeB then ⟨details.nSize, kSize⟩ else ⟨kSize, details.nSize⟩
  let sources ←
    sourceWindowRegions details.rhs details.shapeB origin.1 window.rows (origin.2 + window.cols)
      window.cols origin.2
  return .load {
    target := .l0b
    sources := sources
    destination :=
      .consecutive (slot * l0SlotBytes) details.slotElementsB 0
        (storageElements .nZ ⟨kSize, details.nSize⟩ inputBytes)
    destinationShape := ⟨kSize, details.nSize⟩
    transposeAfterSlice := details.transposeB }

/-- The product of a step. -/
def mma (details : GemmDetails) (nIndex kIndex slot : Nat) : GemmTask :=
  let nStart := nIndex * details.nTile
  let kSize := details.kSize kIndex
  .mma {
    lhs :=
      .consecutive (slot * l0SlotBytes) details.slotElementsA 0
        (storageElements .zZ ⟨details.rows, kSize⟩ inputBytes)
    rhs :=
      .consecutive (slot * l0SlotBytes) details.slotElementsB 0
        (storageElements .nZ ⟨kSize, details.nSize⟩ inputBytes)
    dst :=
      .consecutive details.dst.address details.dst.size
        (details.dst.offset + nStart * ((details.rows + 15) / 16 * 16))
        (storageElements .l0c ⟨details.rows, details.nSize⟩ accumulatorBytes)
    rows := details.rows
    cols := details.nSize
    inner := kSize
    init := details.init && kIndex == 0
    nActual := details.nSize }

/-- Tasks of one step. -/
def stepTasks
    (details : GemmDetails)
    (step : Nat) :
    Except CubeError (List GemmTask) := do
  let nIndex := step / details.kSplit
  let kIndex := step % details.kSplit
  let slot := step % 2
  let loadA ← details.loadA kIndex slot
  let loadB ← details.loadB nIndex kIndex slot
  return [loadA, loadB, details.mma nIndex kIndex slot]

/-- Tasks of the first steps. -/
def tasksBefore
    (details : GemmDetails) :
    Nat → Except CubeError (List GemmTask)
  | 0 => .ok []
  | step + 1 => do
      let earlier ← details.tasksBefore step
      let current ← details.stepTasks step
      return earlier ++ current

/-- `_emit_gemm_v0_trace_tasks`. -/
def emitGemmV0TraceTasks (details : GemmDetails) : Except CubeError (List GemmTask) :=
  details.tasksBefore details.stepCount

end GemmDetails

/-! ## Execution -/

/-- Sum of a function over the first numbers. -/
def sumBelow (count : Nat) (term : Nat → Int) : Int :=
  ((List.range count).map term).sum

/-- `np.matmul`. -/
def matmul (inner : Nat) (left right : Nat → Nat → Int) : Nat → Nat → Int :=
  fun row col => sumBelow inner fun k => left row k * right k col

/-- Fragments of a window side by side, as `np.concatenate` puts them along the columns. -/
def readColumns
    (space : AddressSpace) :
    List Region → Except CubeError (Nat → Nat → Int)
  | [] => .ok fun _ _ => 0
  | region :: rest => do
      let first ← readRegion space region
      let later ← readColumns space rest
      return fun row col =>
        if col < region.width then first row col else later row (col - region.width)

/-- `_copy` with a layout transform. -/
def executeLoad
    (memory : CubeMemory)
    (task : LoadTask) :
    Except CubeError CubeMemory := do
  let window ← readColumns memory.l1 task.sources
  let tile := if task.transposeAfterSlice then fun row col => window col row else window
  let packed := packMatrix task.target.layout task.destinationShape inputBytes tile
  let length := storageElements task.target.layout task.destinationShape inputBytes
  match task.target with
  | .l0a => do
      let l0a ← writeRegion memory.l0a task.destination length packed
      return { memory with l0a := l0a }
  | .l0b => do
      let l0b ← writeRegion memory.l0b task.destination length packed
      return { memory with l0b := l0b }

/-- The accumulated matrix before a product, or zero if the product starts afresh. -/
def previousValues (memory : CubeMemory) (init : Bool) (accumulator : Region)
    (shape : MatrixShape) : Except CubeError (Nat → Nat → Int) :=
  if init then
    .ok fun _ _ => 0
  else do
    let storage ← readRegion memory.l0c accumulator
    return unpackMatrix .l0c shape accumulatorBytes (storage 0)

/-- `_mma` without a bias. -/
def executeMma
    (memory : CubeMemory)
    (task : MmaTask) :
    Except CubeError CubeMemory := do
  let shapeC : MatrixShape := ⟨task.rows, task.nActual⟩
  let left ← readRegion memory.l0a task.lhs
  let right ← readRegion memory.l0b task.rhs
  let aValues := unpackMatrix .zZ ⟨task.rows, task.inner⟩ inputBytes (left 0)
  let bValues := unpackMatrix .nZ ⟨task.inner, task.nActual⟩ inputBytes (right 0)
  let previous ← previousValues memory task.init task.dst shapeC
  let result := fun row col => previous row col + matmul task.inner aValues bValues row col
  let l0c ←
    writeRegion memory.l0c task.dst (storageElements .l0c shapeC accumulatorBytes)
      (packMatrix .l0c shapeC accumulatorBytes result)
  return { memory with l0c := l0c }

/-- `_execute` of an expanded task. -/
def executeTask
    (memory : CubeMemory) :
    GemmTask → Except CubeError CubeMemory
  | .load task => executeLoad memory task
  | .mma task => executeMma memory task

/-- `_validate_runtime_contracts` for the MMA tasks of a program. -/
def validateRuntimeContracts (tasks : List GemmTask) : Bool :=
  tasks.all fun task =>
    match task with
    | .load _ => true
    | .mma details =>
      decide (0 < details.nActual ∧ details.nActual ≤ details.cols ∧ details.nActual % 16 = 0)

/-- The two slots of L0A and of L0B fit into their memories of 65536 bytes. -/
def GemmDetails.slotsFit (details : GemmDetails) : Bool :=
  decide
    (l0SlotBytes + details.slotElementsA * inputBytes ≤ 65536 ∧
      l0SlotBytes + details.slotElementsB * inputBytes ≤ 65536)

/-- Functional execution of an expanded `gemm_v0` in program order. -/
def executeExpansion
    (details : GemmDetails)
    (memory : CubeMemory) :
    Except CubeError CubeMemory := do
  let tasks ← details.emitGemmV0TraceTasks
  if validateRuntimeContracts tasks = false then
    throw .badActualColumns
  if details.slotsFit = false then
    throw .capacityExceeded
  tasks.foldlM executeTask memory

/-- The accumulator region of a call. -/
def GemmDetails.accumulator (details : GemmDetails) : Region :=
  .consecutive details.dst.address details.dst.size details.dst.offset
    (storageElements .l0c details.shapeC accumulatorBytes)

/-- `_gemm_v0`: the product as a single task. -/
def gemmV0
    (details : GemmDetails)
    (memory : CubeMemory) :
    Except CubeError CubeMemory := do
  let left ←
    readRegion memory.l1
      (.consecutive details.lhs.address details.lhs.size details.lhs.offset
        (storageElements .zN details.shapeA inputBytes))
  let right ←
    readRegion memory.l1
      (.consecutive details.rhs.address details.rhs.size details.rhs.offset
        (storageElements .zN details.shapeB inputBytes))
  let aStored := unpackMatrix .zN details.shapeA inputBytes (left 0)
  let bStored := unpackMatrix .zN details.shapeB inputBytes (right 0)
  let aValues := if details.transposeA then fun row col => aStored col row else aStored
  let bValues := if details.transposeB then fun row col => bStored col row else bStored
  let previous ← previousValues memory details.init details.accumulator details.shapeC
  let result := fun row col => previous row col + matmul details.inner aValues bValues row col
  let l0c ←
    writeRegion memory.l0c details.accumulator
      (storageElements .l0c details.shapeC accumulatorBytes)
      (packMatrix .l0c details.shapeC accumulatorBytes result)
  return { memory with l0c := l0c }

end TilelangAscend.Simulator.Cube
