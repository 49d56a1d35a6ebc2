import TilelangAscend.L1Windows

namespace TilelangAscend.Simulator.Bridge

open ExceptRules
open IndexRanges (indices)
open Memory
open TileArrays (Axis Tile cuts mem_cuts concatenate_cuts)

/-!
# Copies from L1 to L0 read slices

Within one band of a padded tile neighbouring rows and columns are at fixed distances, so that a
region covers its part of the window, and the parts put together are the slice of the unpacked
slot at the origin.  No byte of another slot is read.
-/

/-! ## Regions of a window -/

/-- The element of a slot whose storage starts at a byte of the allocation. -/
def slotElement (allocation : MemoryAllocation) (space : AddressSpace)
    (slotStart itemsize element : Nat) : List UInt8 :=
  elementBytes space.data itemsize (allocation.address + (slotStart + element * itemsize))

theorem resolve_window (region : RuntimeRegion) {bindings : String → Option Int}
    {rowExtent : RuntimeInt} {rows : Nat} (evaluates : evaluateNat bindings rowExtent = some rows)
    (cols byteOffset rowStride colStride : Nat) :
    ∃ concrete,
      (region.window rowExtent cols byteOffset rowStride colStride).resolve bindings =
          some concrete ∧
        concrete.shape = [rows, cols] ∧ concrete.byteOffset = byteOffset ∧
        concrete.stridesBytes = some [rowStride, colStride] ∧
        concrete.dtype = region.dtype := by
  refine RuntimeRegion.exists_resolve ?_ (evaluateNat_ofNat bindings byteOffset) ?_ fun _ => rfl
  · simp only [RuntimeRegion.window, List.mapM_cons, List.mapM_nil, evaluates,
      evaluateNat_ofNat, Option.pure_def, Option.bind_eq_bind, Option.bind_some]
  · simp only [RuntimeRegion.window, Option.getD_some, List.mapM_cons, List.mapM_nil,
      evaluateNat_ofNat, Option.pure_def, Option.bind_eq_bind, Option.bind_some]

/-- A part of a padded tile in which rows and columns are at fixed distances. -/
structure LinearPart
    (layout : MatrixLayout)
    (shape : MatrixShape)
    (itemsize row col rows cols rowStep colStep : Nat) :
    Prop where
  rowsInside : row + rows ≤ shape.rows
  colsInside : col + cols ≤ shape.cols
  linear : ∀ rowIndex < rows, ∀ colIndex < cols,
    elementOffset layout shape itemsize (row + rowIndex) (col + colIndex) =
      elementOffset layout shape itemsize row col + (rowIndex * rowStep + colIndex * colStep)

section Parts

variable {layout : MatrixLayout} {shape : MatrixShape}
  {itemsize row col rows cols rowStep colStep : Nat} {slotStart : Nat}

theorem LinearPart.byteOffset
    (part : LinearPart layout shape itemsize row col rows cols rowStep colStep)
    (slotStart : Nat) (valid : ValidItemsize itemsize) {rowIndex colIndex : Nat}
    (rowInside : rowIndex < rows) (colInside : colIndex < cols) :
    slotStart + elementOffset layout shape itemsize row col * itemsize +
          (rowIndex * (rowStep * itemsize) + colIndex * (colStep * itemsize)) =
        slotStart +
          elementOffset layout shape itemsize (row + rowIndex) (col + colIndex) * itemsize ∧
      elementOffset layout shape itemsize (row + rowIndex) (col + colIndex) * itemsize +
          itemsize ≤
        storageElements layout shape itemsize * itemsize := by
  have rowsInside := part.rowsInside
  have colsInside := part.colsInside
  have inStorage : elementOffset layout shape itemsize (row + rowIndex) (col + colIndex) <
      storageElements layout shape itemsize :=
    elementOffset_lt layout valid (by omega) (by omega)
  constructor
  · rw [part.linear rowIndex rowInside colIndex colInside]
    ring
  · rw [← Nat.succ_mul]
    exact Nat.mul_le_mul_right itemsize inStorage

/--
A window of a slot lies in the allocation, and its bytes have been written unless reports do not
stop the run.
-/
structure WindowReadable
    (allocation : MemoryAllocation)
    (mode : HazardMode)
    (space : AddressSpace)
    (layout : MatrixLayout)
    (shape : MatrixShape)
    (itemsize slotStart row col rows cols : Nat) :
    Prop where
  inside : ∀ rowIndex < rows, ∀ colIndex < cols,
    slotStart + elementOffset layout shape itemsize (row + rowIndex) (col + colIndex) * itemsize +
      itemsize ≤ allocation.sizeBytes
  written : mode = .error → ∀ rowIndex < rows, ∀ colIndex < cols, ∀ byte ∈ indices
    (allocation.address + (slotStart +
        elementOffset layout shape itemsize (row + rowIndex) (col + colIndex) * itemsize),
      allocation.address + (slotStart +
        elementOffset layout shape itemsize (row + rowIndex) (col + colIndex) * itemsize) +
        itemsize),
    space.initialized byte = true

theorem LinearPart.readRegion {allocation : MemoryAllocation} {mode : HazardMode}
    {space : AddressSpace} {bindings : String → Option Int} {source : RuntimeRegion}
    {rowExtent : RuntimeInt}
    (part : LinearPart layout shape itemsize row col rows cols rowStep colStep)
    (valid : ValidItemsize itemsize) (width : dtypeSizeBytes source.dtype = itemsize)
    (evaluates : evaluateNat bindings rowExtent = some rows) (rowsPositive : 0 < rows)
    (colsPositive : 0 < cols)
    (readable : WindowReadable allocation mode space layout shape itemsize slotStart row col
      rows cols) :
    ∃ tile,
      Bridge.readRegion allocation mode space bindings
          (source.window rowExtent cols
            (slotStart + elementOffset layout shape itemsize row col * itemsize)
            (rowStep * itemsize) (colStep * itemsize)) = .ok tile ∧
        tile.rows = rows ∧ tile.cols = cols ∧
        ∀ rowIndex < rows, ∀ colIndex < cols, tile.value rowIndex colIndex =
          slotElement allocation space slotStart itemsize
            (elementOffset layout shape itemsize (row + rowIndex) (col + colIndex)) := by
  obtain ⟨concrete, resolved, shapeIs, offsetIs, stridesAre, dtypeIs⟩ :=
    resolve_window source evaluates cols
      (slotStart + elementOffset layout shape itemsize row col * itemsize) (rowStep * itemsize)
      (colStep * itemsize)
  have itemsizeIs : concrete.itemsize = itemsize := by
    rw [BufferRegion.itemsize, dtypeIs, width]
  have lastRow : rows - 1 < rows := by omega
  have lastCol : cols - 1 < cols := by omega
  have lastOffset := (part.byteOffset slotStart valid lastRow lastCol).1
  have lastInside := readable.inside _ lastRow _ lastCol
  obtain ⟨tile, read, tileRows, tileCols, values⟩ :=
    allocation.readTile_eq_ok mode space
      shapeIs stridesAre rowsPositive colsPositive
      (by rw [offsetIs, itemsizeIs]; omega)
      (by
        intro stops rowIndex rowInside colIndex colInside byte member
        obtain ⟨sameOffset, _⟩ := part.byteOffset slotStart valid rowInside colInside
        rw [offsetIs, itemsizeIs, Nat.add_assoc, sameOffset] at member
        exact readable.written stops rowIndex rowInside colIndex colInside byte member)
  refine ⟨tile, ?_, tileRows, tileCols, ?_⟩
  · rw [Bridge.readRegion, resolved]
    exact read
  · intro rowIndex rowInside colIndex colInside
    obtain ⟨sameOffset, _⟩ := part.byteOffset slotStart valid rowInside colInside
    rw [values rowIndex rowInside colIndex colInside, offsetIs, itemsizeIs, Nat.add_assoc,
      sameOffset]
    rfl

theorem LinearPart.bytes_inside {source : RuntimeRegion} {bindings : String → Option Int}
    {rowExtent : RuntimeInt}
    (part : LinearPart layout shape itemsize row col rows cols rowStep colStep)
    (slotStart : Nat) (valid : ValidItemsize itemsize)
    (width : dtypeSizeBytes source.dtype = itemsize)
    (evaluates : evaluateNat bindings rowExtent = some rows) :
    ∃ concrete,
      (source.window rowExtent cols
          (slotStart + elementOffset layout shape itemsize row col * itemsize)
          (rowStep * itemsize) (colStep * itemsize)).resolve bindings = some concrete ∧
        ∀ byte ∈ concrete.bytes, slotStart ≤ byte ∧
          byte < slotStart + storageElements layout shape itemsize * itemsize := by
  obtain ⟨concrete, resolved, shapeIs, offsetIs, stridesAre, dtypeIs⟩ :=
    resolve_window source evaluates cols
      (slotStart + elementOffset layout shape itemsize row col * itemsize) (rowStep * itemsize)
      (colStep * itemsize)
  refine ⟨concrete, resolved, fun byte member => ?_⟩
  have dims : concrete.dims = [(rows, rowStep * itemsize), (cols, colStep * itemsize)] := by
    rw [BufferRegion.dims, BufferRegion.strides, stridesAre, shapeIs]
    rfl
  have itemsizeIs : concrete.itemsize = itemsize := by
    rw [BufferRegion.itemsize, dtypeIs, width]
  rw [BufferRegion.bytes, dims, elementOffsets, MemoryAllocation.elementOffsets_row, offsetIs,
    itemsizeIs] at member
  obtain ⟨_, inRows, inElement⟩ := List.mem_flatMap.mp member
  obtain ⟨rowIndex, rowMember, inRow⟩ := List.mem_flatMap.mp inRows
  obtain ⟨_, inCols, rfl⟩ := List.mem_map.mp inRow
  obtain ⟨colIndex, colMember, rfl⟩ := List.mem_map.mp inCols
  obtain ⟨index, inItem, rfl⟩ := List.mem_map.mp inElement
  have inside := List.mem_range.mp inItem
  obtain ⟨sameOffset, inSlot⟩ := part.byteOffset slotStart valid
    (List.mem_range.mp rowMember) (List.mem_range.mp colMember)
  rw [sameOffset]
  omega

end Parts

/-! ## Windows -/

section Windows

variable {shape window : MatrixShape} {origin : Nat × Nat} {itemsize slotStart : Nat}
  {cut : Nat × Nat} {allocation : MemoryAllocation} {mode : HazardMode} {space : AddressSpace}
  {bindings : String → Option Int} {axis : Axis}

theorem linearPart_zN (valid : ValidItemsize itemsize)
    (rowsInside : origin.1 + window.rows ≤ shape.rows)
    (colsInside : origin.2 + window.cols ≤ shape.cols)
    (member : cut ∈ cuts (elementsPerC0 itemsize) (origin.2 + window.cols) window.cols
      origin.2) :
    LinearPart .zN shape itemsize origin.1 cut.1 window.rows cut.2 (elementsPerC0 itemsize)
      1 := by
  obtain ⟨_, _, before, inBlock⟩ := mem_cuts (elementsPerC0_pos valid) member
  refine ⟨rowsInside, before.trans colsInside, fun rowIndex _ colIndex colInside => ?_⟩
  rw [elementOffset_zN_shift valid (by omega), Nat.mul_one, Nat.add_assoc]

theorem linearPart_nZ (valid : ValidItemsize itemsize)
    (rowsInside : origin.1 + window.rows ≤ shape.rows)
    (colsInside : origin.2 + window.cols ≤ shape.cols)
    (member : cut ∈ cuts (elementsPerC0 itemsize) (origin.1 + window.rows) window.rows
      origin.1) :
    LinearPart .nZ shape itemsize cut.1 origin.2 cut.2 window.cols 1 (elementsPerC0 itemsize) := by
  obtain ⟨_, _, before, inBlock⟩ := mem_cuts (elementsPerC0_pos valid) member
  refine ⟨before.trans rowsInside, colsInside, fun rowIndex rowInside colIndex _ => ?_⟩
  rw [elementOffset_nZ_shift valid (by omega), Nat.mul_one]
  omega

theorem read_of {parts : List RuntimeRegion} {tiles : List (Tile (List UInt8))}
    {joined : Tile (List UInt8)}
    (reads : parts.mapM (readRegion allocation mode space bindings) = .ok tiles)
    (joins : Tile.concatenate axis tiles = some joined) :
    (WindowSource.of parts).read allocation mode space bindings axis = .ok joined := by
  have several : (WindowSource.regions parts).read allocation mode space bindings axis =
      .ok joined := by
    refine exceptBind_eq_ok.mpr ⟨tiles, reads, ?_⟩
    simp only [joins]
    rfl
  match parts with
  | [] => exact several
  | [region] =>
    obtain ⟨tile, others, isTile, isOthers, rfl⟩ :=
      List.forall₂_cons_left_iff.mp (exceptMapM_eq_ok.mp reads)
    obtain rfl := List.forall₂_nil_left_iff.mp isOthers
    obtain rfl := Option.some.inj joins
    exact isTile
  | first :: second :: rest => exact several

theorem all_of (parts : List RuntimeRegion) : (WindowSource.of parts).all = parts := by
  match parts with
  | [] => rfl
  | [region] => rfl
  | first :: second :: rest => rfl

/-- A source that reads the slice of a slot at an origin. -/
def ReadsSlice (allocation : MemoryAllocation) (mode : HazardMode) (space : AddressSpace)
    (bindings : String → Option Int) (source : WindowSource) (axis : Axis)
    (layout : MatrixLayout) (shape : MatrixShape) (itemsize slotStart : Nat)
    (origin : Nat × Nat) (window : MatrixShape) : Prop :=
  ∃ tile, source.read allocation mode space bindings axis = .ok tile ∧
    tile.rows = window.rows ∧ tile.cols = window.cols ∧
    ∀ row < window.rows, ∀ col < window.cols,
      tile.value row col =
        unpackMatrix layout shape itemsize (slotElement allocation space slotStart itemsize)
          (origin.1 + row) (origin.2 + col)

theorem read_cuts {matrix : Nat → Nat → List UInt8} {region : Nat × Nat → RuntimeRegion}
    {blockSize start width height : Nat} (blockPositive : 0 < blockSize) (positive : 0 < width)
    (parts : ∀ cut ∈ cuts blockSize (start + width) width start,
      ∃ tile, readRegion allocation mode space bindings (region cut) = .ok tile ∧
        tile.Covers axis matrix cut.1 cut.2 height) :
    ∃ tile,
      (WindowSource.of ((cuts blockSize (start + width) width start).map region)).read allocation
          mode space bindings axis = .ok tile ∧
        tile.Covers axis matrix start width height := by
  obtain ⟨tiles, reads, covers⟩ := exceptMapM_exists parts
  obtain ⟨joined, joins, covered⟩ :=
    concatenate_cuts blockPositive (Nat.lt_add_of_pos_right positive) (Nat.le_refl _) covers
  rw [Nat.add_sub_cancel_left] at covered
  refine ⟨joined, read_of ?_ joins, covered⟩
  rw [List.mapM_map]
  exact reads

section Reads

variable {allocation : MemoryAllocation} {mode : HazardMode} {space : AddressSpace}
  {bindings : String → Option Int} {source : RuntimeRegion}
  {layout : MatrixLayout} {cut : Nat × Nat} {rowExtent : RuntimeInt}

theorem WindowReadable.ofCols
    (readable : WindowReadable allocation mode space layout shape itemsize slotStart origin.1
      origin.2 window.rows window.cols)
    (after : origin.2 ≤ cut.1)
    (before : cut.1 + cut.2 ≤ origin.2 + window.cols) :
    WindowReadable allocation mode space layout shape itemsize slotStart origin.1 cut.1
      window.rows cut.2 := by
  obtain ⟨skipped, startIs⟩ := Nat.exists_eq_add_of_le after
  constructor
  · intro row rowInside col colInside
    rw [startIs, Nat.add_assoc origin.2]
    exact readable.inside row rowInside (skipped + col) (by omega)
  · intro stops row rowInside col colInside byte member
    rw [startIs, Nat.add_assoc origin.2] at member
    exact readable.written stops row rowInside (skipped + col) (by omega) byte member

theorem WindowReadable.ofRows
    (readable : WindowReadable allocation mode space layout shape itemsize slotStart origin.1
      origin.2 window.rows window.cols)
    (after : origin.1 ≤ cut.1)
    (before : cut.1 + cut.2 ≤ origin.1 + window.rows) :
    WindowReadable allocation mode space layout shape itemsize slotStart cut.1 origin.2 cut.2
      window.cols := by
  obtain ⟨skipped, startIs⟩ := Nat.exists_eq_add_of_le after
  constructor
  · intro row rowInside col colInside
    rw [startIs, Nat.add_assoc origin.1]
    exact readable.inside (skipped + row) (by omega) col colInside
  · intro stops row rowInside col colInside byte member
    rw [startIs, Nat.add_assoc origin.1] at member
    exact readable.written stops (skipped + row) (by omega) col colInside byte member

theorem zNWindow_readsSlice (valid : ValidItemsize itemsize)
    (width : dtypeSizeBytes source.dtype = itemsize)
    (evaluates : evaluateNat bindings rowExtent = some window.rows)
    (rowsPositive : 0 < window.rows) (colsPositive : 0 < window.cols)
    (rowsInside : origin.1 + window.rows ≤ shape.rows)
    (colsInside : origin.2 + window.cols ≤ shape.cols)
    (readable : WindowReadable allocation mode space .zN shape itemsize slotStart origin.1
      origin.2 window.rows window.cols) :
    ReadsSlice allocation mode space bindings
      (.of (zNWindowRegions source shape origin rowExtent window.cols
        (fun offset => slotStart + offset * itemsize) itemsize))
      .cols .zN shape itemsize slotStart origin window := by
  have parts : ∀ cut ∈ cuts (elementsPerC0 itemsize) (origin.2 + window.cols) window.cols
      origin.2,
      ∃ tile, readRegion allocation mode space bindings
          (source.window rowExtent cut.2
            (slotStart + elementOffset .zN shape itemsize origin.1 cut.1 * itemsize)
            (elementsPerC0 itemsize * itemsize) itemsize) = .ok tile ∧
        tile.Covers .cols
          (fun col row => slotElement allocation space slotStart itemsize
            (elementOffset .zN shape itemsize (origin.1 + row) col))
          cut.1 cut.2 window.rows := by
    intro cut member
    obtain ⟨after, nonempty, before, _⟩ := mem_cuts (elementsPerC0_pos valid) member
    obtain ⟨tile, read, tileRows, tileCols, values⟩ :=
      (linearPart_zN valid rowsInside colsInside member).readRegion valid width evaluates
        rowsPositive nonempty (readable.ofCols after before)
    rw [Nat.one_mul] at read
    exact ⟨tile, read, tileCols, tileRows, fun col colInside row rowInside =>
      values row rowInside col colInside⟩
  obtain ⟨tile, read, along, across, values⟩ :=
    read_cuts (elementsPerC0_pos valid) colsPositive parts
  exact ⟨tile, read, across, along, fun row rowInside col colInside =>
    values col colInside row rowInside⟩

theorem nZWindow_readsSlice (valid : ValidItemsize itemsize)
    (width : dtypeSizeBytes source.dtype = itemsize) (rowsPositive : 0 < window.rows)
    (colsPositive : 0 < window.cols) (rowsInside : origin.1 + window.rows ≤ shape.rows)
    (colsInside : origin.2 + window.cols ≤ shape.cols)
    (readable : WindowReadable allocation mode space .nZ shape itemsize slotStart origin.1
      origin.2 window.rows window.cols) :
    ReadsSlice allocation mode space bindings
      (.of (nZWindowRegions source shape origin window
        (fun offset => slotStart + offset * itemsize) itemsize))
      .rows .nZ shape itemsize slotStart origin window := by
  have parts : ∀ cut ∈ cuts (elementsPerC0 itemsize) (origin.1 + window.rows) window.rows
      origin.1,
      ∃ tile, readRegion allocation mode space bindings
          (source.window (.int cut.2) window.cols
            (slotStart + elementOffset .nZ shape itemsize cut.1 origin.2 * itemsize)
            itemsize (elementsPerC0 itemsize * itemsize)) = .ok tile ∧
        tile.Covers .rows
          (fun row col => slotElement allocation space slotStart itemsize
            (elementOffset .nZ shape itemsize row (origin.2 + col)))
          cut.1 cut.2 window.cols := by
    intro cut member
    obtain ⟨after, nonempty, before, _⟩ := mem_cuts (elementsPerC0_pos valid) member
    obtain ⟨tile, read, tileRows, tileCols, values⟩ :=
      (linearPart_nZ valid rowsInside colsInside member).readRegion valid width
        (evaluateNat_ofNat bindings cut.2) nonempty colsPositive (readable.ofRows after before)
    rw [Nat.one_mul] at read
    exact ⟨tile, read, tileRows, tileCols, values⟩
  obtain ⟨tile, read, along, across, values⟩ :=
    read_cuts (elementsPerC0_pos valid) rowsPositive parts
  exact ⟨tile, read, along, across, values⟩

/-- Regions that name bytes of one slot only. -/
def InSlot (bindings : String → Option Int) (slotStart slotBytes : Nat)
    (regions : List RuntimeRegion) : Prop :=
  ∀ region ∈ regions, ∃ concrete, region.resolve bindings = some concrete ∧
    ∀ byte ∈ concrete.bytes, slotStart ≤ byte ∧ byte < slotStart + slotBytes

/-- A zN window of a slot stays inside the slot. -/
theorem zNWindow_inSlot (valid : ValidItemsize itemsize)
    (width : dtypeSizeBytes source.dtype = itemsize)
    (evaluates : evaluateNat bindings rowExtent = some window.rows)
    (rowsInside : origin.1 + window.rows ≤ shape.rows)
    (colsInside : origin.2 + window.cols ≤ shape.cols) :
    InSlot bindings slotStart (storageElements .zN shape itemsize * itemsize)
      (zNWindowRegions source shape origin rowExtent window.cols
        (fun offset => slotStart + offset * itemsize) itemsize) := by
  intro region member
  obtain ⟨cut, inCuts, rfl⟩ := List.mem_map.mp member
  have inSlot := (linearPart_zN valid rowsInside colsInside inCuts).bytes_inside
    slotStart valid width evaluates
  rwa [Nat.one_mul] at inSlot

/-- An nZ window of a slot stays inside the slot. -/
theorem nZWindow_inSlot (valid : ValidItemsize itemsize)
    (width : dtypeSizeBytes source.dtype = itemsize)
    (rowsInside : origin.1 + window.rows ≤ shape.rows)
    (colsInside : origin.2 + window.cols ≤ shape.cols) :
    InSlot bindings slotStart (storageElements .nZ shape itemsize * itemsize)
      (nZWindowRegions source shape origin window
        (fun offset => slotStart + offset * itemsize) itemsize) := by
  intro region member
  obtain ⟨cut, inCuts, rfl⟩ := List.mem_map.mp member
  have inSlot := (linearPart_nZ valid rowsInside colsInside inCuts).bytes_inside
    slotStart valid width (evaluateNat_ofNat bindings cut.2)
  rwa [Nat.one_mul] at inSlot

/-- A source that reads a slice of a slot, and no byte of another one. -/
structure SlicesSlot
    (bindings : String → Option Int)
    (source : WindowSource)
    (axis : Axis)
    (layout : MatrixLayout)
    (shape : MatrixShape)
    (itemsize slotStart : Nat)
    (origin : Nat × Nat)
    (window : MatrixShape) :
    Prop where
  inSlot :
    InSlot bindings slotStart (storageElements layout shape itemsize * itemsize) source.all
  reads : ∀ allocation mode space,
    WindowReadable allocation mode space layout shape itemsize slotStart origin.1 origin.2
        window.rows window.cols →
      ReadsSlice allocation mode space bindings source axis layout shape itemsize slotStart origin
        window

/-- Reading a zN window gives the slice of the slot. -/
theorem zNWindow_slicesSlot (window : MatrixShape) (valid : ValidItemsize itemsize)
    (width : dtypeSizeBytes source.dtype = itemsize)
    (evaluates : evaluateNat bindings rowExtent = some window.rows)
    (rowsPositive : 0 < window.rows) (colsPositive : 0 < window.cols)
    (rowsInside : origin.1 + window.rows ≤ shape.rows)
    (colsInside : origin.2 + window.cols ≤ shape.cols) :
    SlicesSlot bindings
      (.of (zNWindowRegions source shape origin rowExtent window.cols
        (fun offset => slotStart + offset * itemsize) itemsize))
      .cols .zN shape itemsize slotStart origin window := by
  constructor
  · rw [all_of]
    exact zNWindow_inSlot valid width evaluates rowsInside colsInside
  · intro allocation mode space
    exact zNWindow_readsSlice valid width evaluates rowsPositive colsPositive rowsInside colsInside

/-- Whatever its layout, a window reads the slice of its slot. -/
theorem windowSource_slicesSlot {template : L1Template} {slotBase : Nat}
    (valid : ValidItemsize itemsize) (width : dtypeSizeBytes source.dtype = itemsize)
    (rowsPositive : 0 < window.rows) (colsPositive : 0 < window.cols)
    (rowsInside : origin.1 + window.rows ≤ shape.rows)
    (colsInside : origin.2 + window.cols ≤ shape.cols) :
    SlicesSlot bindings
      (.of (windowSource template.transpose source shape origin window slotBase itemsize).1)
      (windowSource template.transpose source shape origin window slotBase itemsize).2
      template.sourceLayout shape itemsize (slotBase * itemsize) origin window := by
  have offsets : (fun offset => (slotBase + offset) * itemsize) =
      fun offset => slotBase * itemsize + offset * itemsize :=
    funext fun offset => Nat.add_mul _ _ _
  unfold windowSource L1Template.sourceLayout
  rw [offsets]
  cases template.transpose with
  | false =>
    exact zNWindow_slicesSlot window valid width (evaluateNat_ofNat bindings _) rowsPositive
      colsPositive rowsInside colsInside
  | true =>
    constructor
    · rw [all_of]
      exact nZWindow_inSlot valid width rowsInside colsInside
    · intro allocation mode space
      exact nZWindow_readsSlice valid width rowsPositive colsPositive rowsInside colsInside

end Reads

end Windows

end TilelangAscend.Simulator.Bridge
