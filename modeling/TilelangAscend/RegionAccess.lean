import TilelangAscend.AllocationAccess
import TilelangAscend.ExceptRules
import TilelangAscend.TileArrays

namespace TilelangAscend.Simulator.Memory

open ExceptRules (exceptBind_eq_ok)
open IndexRanges (indices)
open TileArrays

/-!
# Regions of an allocation as arrays

The executor resolves a region to a view of the allocation of its buffer.  A region of two
dimensions is read into a tile whose elements are the blocks of bytes that its strides name.
-/

/-- The bytes of an element. -/
def elementBytes (data : Nat → UInt8) (itemsize start : Nat) : List UInt8 :=
  (indices (start, start + itemsize)).map data

namespace MemoryAllocation

/-- `_resolve`: the view of a region. -/
def resolveRegion (allocation : MemoryAllocation) (region : BufferRegion) :
    Except MemoryError MemoryView :=
  allocation.view region.byteOffset (some (region.shape.map Int.ofNat)) (some region.dtype)
    (region.stridesBytes.map fun strides => strides.map Int.ofNat)

/-- `FunctionalSimulator.read` of a region of two dimensions. -/
def readTile
    (allocation : MemoryAllocation)
    (mode : HazardMode)
    (space : AddressSpace)
    (region : BufferRegion) :
    Except MemoryError (Tile (List UInt8)) := do
  let view ← allocation.resolveRegion region
  let payload ← allocation.read mode space view
  match view.shape with
  | [rows, cols] => return ofPayload rows cols region.itemsize payload
  | _ => throw .validation

/-- The view of a region with given strides. -/
def regionView
    (allocation : MemoryAllocation)
    (region : BufferRegion)
    (strides : List Nat)
    (rank : strides.length = region.shape.length) :
    MemoryView where
  allocation := allocation
  byteOffset := region.byteOffset
  shape := region.shape
  dtype := region.dtype
  stridesBytes := strides
  stridesRank := rank

variable {allocation : MemoryAllocation} {region : BufferRegion}

theorem map_toNat_ofNat (values : List Nat) : (values.map Int.ofNat).map Int.toNat = values := by
  rw [List.map_map]
  exact List.map_id _

theorem concreteShape_ofNat (shape : List Nat) :
    concreteShape (shape.map Int.ofNat) = .ok shape := by
  have noneNegative : (shape.map Int.ofNat).any (· < 0) = false := by
    rw [List.any_map, List.any_eq_false]
    intro extent _
    simp
  rw [concreteShape, noneNegative, if_neg Bool.false_ne_true, map_toNat_ofNat]

theorem resolveRegion_eq_ok {strides : List Nat} (stridesAre : region.stridesBytes = some strides)
    (rank : strides.length = region.shape.length)
    (inside : (allocation.regionView region strides rank).byteRange.2 ≤
      allocation.address + allocation.sizeBytes) :
    allocation.resolveRegion region = .ok (allocation.regionView region strides rank) := by
  have noneNegative :
      ((region.byteOffset : Int) < 0 || (strides.map Int.ofNat).any (· < 0)) = false := by
    rw [List.any_map, Bool.or_eq_false_iff, List.any_eq_false]
    refine ⟨decide_eq_false (by omega), fun stride _ => ?_⟩
    simp
  unfold resolveRegion MemoryAllocation.view
  simp only [stridesAre, Option.map_some, Option.getD_some, concreteShape_ofNat, noneNegative,
    Bool.false_eq_true, if_false, map_toNat_ofNat, Int.toNat_natCast]
  rw [dif_pos (by rw [List.length_map, rank])]
  exact if_neg (Nat.not_lt.mpr inside)

/-! ## Reading tiles -/

theorem length_elementBytes (data : Nat → UInt8) (itemsize start : Nat) :
    (elementBytes data itemsize start).length = itemsize := by
  rw [elementBytes, List.length_map, IndexRanges.length_indices, Nat.add_sub_cancel_left]

theorem elementOffsets_row (cols stride : Nat) :
    elementOffsets [(cols, stride)] = (List.range cols).map (· * stride) := by
  simp only [elementOffsets, List.map_cons, List.map_nil, Nat.add_zero]
  exact List.map_eq_flatMap.symm

variable {rows cols rowStride colStride : Nat} {view : MemoryView} {mode : HazardMode}
  {space : AddressSpace}

theorem getElem?_elementOffsets {row col : Nat} (rowStride colStride : Nat)
    (rowInside : row < rows) (colInside : col < cols) :
    (elementOffsets [(rows, rowStride), (cols, colStride)])[row * cols + col]? =
      some (row * rowStride + col * colStride) := by
  rw [elementOffsets, elementOffsets_row, getElem?_flatMap_rows _ rowInside colInside]
  · rw [List.getElem?_map, List.getElem?_map, List.getElem?_range colInside]
    rfl
  · intro index _
    rw [List.length_map, List.length_map, List.length_range]

theorem map_bytes_view (view : MemoryView) (data : Nat → UInt8) :
    view.bytes.map data =
      (elementOffsets (view.shape.zip view.stridesBytes)).flatMap fun offset =>
        elementBytes data view.itemsize (view.start + offset) := by
  rw [MemoryView.bytes, List.map_flatMap]
  rfl

/-- The bytes of a tile, row by row. -/
theorem mem_bytes_tile {byte : Nat} (shape : view.shape = [rows, cols])
    (strides : view.stridesBytes = [rowStride, colStride]) :
    byte ∈ view.bytes ↔ ∃ row < rows, ∃ col < cols,
      byte ∈ indices (view.start + (row * rowStride + col * colStride),
        view.start + (row * rowStride + col * colStride) + view.itemsize) := by
  rw [MemoryView.bytes, shape, strides]
  change byte ∈ (elementOffsets [(rows, rowStride), (cols, colStride)]).flatMap _ ↔ _
  rw [elementOffsets, elementOffsets_row]
  simp only [List.mem_flatMap, List.mem_map, List.mem_range]
  constructor
  · rintro ⟨_, ⟨row, rowInside, _, ⟨col, colInside, rfl⟩, rfl⟩, inElement⟩
    exact ⟨row, rowInside, col, colInside, inElement⟩
  · rintro ⟨row, rowInside, col, colInside, inElement⟩
    exact ⟨_, ⟨row, rowInside, _, ⟨col, colInside, rfl⟩, rfl⟩, inElement⟩

/-- A tile inside its allocation can be read. -/
theorem readTile_eq_ok (allocation : MemoryAllocation) (mode : HazardMode)
    (space : AddressSpace) (shape : region.shape = [rows, cols])
    (strides : region.stridesBytes = some [rowStride, colStride])
    (rowsPositive : 0 < rows) (colsPositive : 0 < cols)
    (inside : region.byteOffset + ((rows - 1) * rowStride + (cols - 1) * colStride) +
      region.itemsize ≤ allocation.sizeBytes)
    (initialized : mode = .error → ∀ row < rows, ∀ col < cols, ∀ byte ∈ indices
      (allocation.address + region.byteOffset + (row * rowStride + col * colStride),
        allocation.address + region.byteOffset + (row * rowStride + col * colStride) +
          region.itemsize), space.initialized byte = true) :
    ∃ tile, allocation.readTile mode space region = .ok tile ∧ tile.rows = rows ∧ tile.cols = cols ∧
      ∀ row < rows, ∀ col < cols, tile.value row col =
        elementBytes space.data region.itemsize
          (allocation.address + region.byteOffset + (row * rowStride + col * colStride)) := by
  have rank : [rowStride, colStride].length = region.shape.length := by rw [shape]; rfl
  have noEmpty : region.shape.any (· = 0) = false := by
    rw [shape]
    simp only [List.any_cons, List.any_nil, Bool.or_false, Bool.or_eq_false_iff,
      decide_eq_false_iff_not]
    omega
  have bound : (allocation.regionView region [rowStride, colStride] rank).byteRange.2 ≤
      allocation.address + allocation.sizeBytes := by
    have dims : (allocation.regionView region [rowStride, colStride] rank).region.dims =
        [(rows, rowStride), (cols, colStride)] := by
      rw [MemoryView.region_dims]
      change region.shape.zip [rowStride, colStride] = _
      rw [shape]
      rfl
    rw [MemoryView.byteRange, regionBounds, dims]
    change (if region.shape.any (· = 0) = true then _ else _ : Nat × Nat).2 ≤ _
    rw [noEmpty, if_neg Bool.false_ne_true]
    simp only [List.map_cons, List.map_nil, List.sum_cons, List.sum_nil]
    change allocation.address + region.byteOffset + _ + region.itemsize ≤ _
    omega
  have resolved := resolveRegion_eq_ok strides rank bound
  have written : mode = .error →
      ∀ byte ∈ (allocation.regionView region [rowStride, colStride] rank).bytes,
        space.initialized byte = true := by
    intro stops byte member
    obtain ⟨row, rowInside, col, colInside, inElement⟩ := (mem_bytes_tile shape rfl).mp member
    exact initialized stops row rowInside col colInside byte inElement
  have payload : allocation.read mode space
      (allocation.regionView region [rowStride, colStride] rank) =
        .ok ((elementOffsets [(rows, rowStride), (cols, colStride)]).flatMap fun offset =>
          elementBytes space.data region.itemsize
            (allocation.address + region.byteOffset + offset)) := by
    rw [read_eq_ok resolved written, map_bytes_view]
    change Except.ok ((elementOffsets (region.shape.zip [rowStride, colStride])).flatMap _) = _
    rw [shape]
    rfl
  refine ⟨ofPayload rows cols region.itemsize
    ((elementOffsets [(rows, rowStride), (cols, colStride)]).flatMap fun offset =>
      elementBytes space.data region.itemsize (allocation.address + region.byteOffset + offset)),
    exceptBind_eq_ok.mpr ⟨_, resolved, exceptBind_eq_ok.mpr ⟨_, payload, ?_⟩⟩, rfl, rfl, ?_⟩
  · change (match region.shape with
      | [rows, cols] => Except.ok (ofPayload rows cols region.itemsize _)
      | _ => Except.error MemoryError.validation) = _
    rw [shape]
  · intro row rowInside col colInside
    obtain ⟨position, isOffset⟩ := List.getElem?_eq_some_iff.mp
      (getElem?_elementOffsets rowStride colStride rowInside colInside)
    change block region.itemsize _ _ = _
    rw [block_flatMap (fun offset _ => length_elementBytes _ _ _) position, isOffset]

theorem view_of_resolveRegion (resolved : allocation.resolveRegion region = .ok view) :
    view.shape = region.shape ∧ view.dtype = region.dtype := by
  unfold resolveRegion MemoryAllocation.view at resolved
  simp only [Option.getD_some, concreteShape_ofNat] at resolved
  split at resolved
  · split at resolved
    · cases resolved
    · split at resolved
      · cases resolved
      · obtain rfl := Except.ok.inj resolved
        exact ⟨rfl, rfl⟩
  · cases resolved

theorem length_of_read {payload : List UInt8}
    (resolved : allocation.resolveRegion region = .ok view)
    (read : allocation.read mode space view = .ok payload) : payload.length = view.nbytes := by
  obtain ⟨ranges, rangesAre, read⟩ := exceptBind_eq_ok.mp read
  obtain ⟨_, _, read⟩ := exceptBind_eq_ok.mp read
  obtain rfl := Except.ok.inj read
  obtain rfl := Except.ok.inj ((resolveRanges_of_view resolved).symm.trans rangesAre)
  rw [IndexRanges.readRanges_eq_map, List.length_map, MemoryView.indicesOf_addressRanges,
    MemoryView.length_bytes]

/-- A tile that was read has the shape of its region. -/
theorem tile_of_readTile {tile : Tile (List UInt8)}
    (read : allocation.readTile mode space region = .ok tile) :
    region.shape = [tile.rows, tile.cols] ∧
      ∀ row < tile.rows, ∀ col < tile.cols, (tile.value row col).length = region.itemsize := by
  obtain ⟨view, resolved, read⟩ := exceptBind_eq_ok.mp read
  obtain ⟨payload, isPayload, read⟩ := exceptBind_eq_ok.mp read
  obtain ⟨shapeIs, dtypeIs⟩ := view_of_resolveRegion resolved
  have size := length_of_read resolved isPayload
  split at read
  · rename_i rows cols extents
    obtain rfl := Except.ok.inj read
    refine ⟨shapeIs.symm.trans extents, fun row rowInside col colInside => ?_⟩
    have total : payload.length = rows * cols * region.itemsize := by
      rw [size, MemoryView.nbytes, extents, MemoryView.itemsize, dtypeIs]
      simp only [List.prod_cons, List.prod_nil, Nat.mul_one]
      rfl
    have inside : row * cols + col + 1 ≤ rows * cols :=
      calc row * cols + col + 1
          ≤ (row + 1) * cols := by
            rw [Nat.succ_mul]
            exact Nat.add_le_add_left colInside _
        _ ≤ rows * cols := Nat.mul_le_mul_right _ rowInside
    have fits := Nat.mul_le_mul_right region.itemsize inside
    rw [Nat.succ_mul, ← total] at fits
    change (TileArrays.block region.itemsize payload (row * cols + col)).length = _
    rw [block, List.length_take, List.length_drop]
    omega
  · cases read

end MemoryAllocation

end TilelangAscend.Simulator.Memory
