import TilelangAscend.IndexRanges
import TilelangAscend.MemoryViews

namespace TilelangAscend.Simulator.Memory

open IntervalCover
open IndexRanges (indices indicesOf indicesOf_cons mem_indices)

/-!
# The bytes of a memory view

A view is a region of the address space of its allocation.  Its exact ranges spell out the bytes
of the elements in C order, which is the order of a payload; its physical ranges are the sorted
and separated union of the same bytes, also where the bounding interval stands for them.
-/

/-- The fixed data of a `MemoryAllocation`: its buffer and its place in an address space. -/
structure MemoryAllocation where
  name : String
  scope : MemoryScope
  shape : List Nat
  dtype : DType
  sizeBytes : Nat
  address : Nat
  deriving DecidableEq

/-- `MemoryView`: a typed, strided view into an allocation. -/
structure MemoryView where
  allocation : MemoryAllocation
  byteOffset : Nat
  shape : List Nat
  dtype : DType
  stridesBytes : List Nat
  stridesRank : stridesBytes.length = shape.length
  deriving DecidableEq

namespace MemoryView

/-- The byte width of one element. -/
def itemsize (view : MemoryView) : Nat :=
  dtypeSizeBytes view.dtype

/-- The first byte of a view. -/
def start (view : MemoryView) : Nat :=
  view.allocation.address + view.byteOffset

/-- The region of the address space that a view names. -/
def region (view : MemoryView) : BufferRegion where
  buffer := view.allocation.name
  scope := view.allocation.scope
  shape := view.shape
  dtype := view.dtype
  byteOffset := view.start
  stridesBytes := some view.stridesBytes
  stridesRank := fun _ given => Option.some.inj given ▸ view.stridesRank

/-- `byte_range`: the bounding span of a view. -/
def byteRange (view : MemoryView) : Nat × Nat :=
  regionBounds view.region

/-- `nbytes`: the size of a payload. -/
def nbytes (view : MemoryView) : Nat :=
  view.shape.prod * view.itemsize

/-- `address_ranges`: the exact ranges in the order of a payload. -/
def addressRanges (view : MemoryView) : List (Nat × Nat) :=
  Simulator.addressRanges view.region

/-- `physical_address_ranges`: the union of the touched bytes. -/
def physicalAddressRanges (view : MemoryView) : List (Nat × Nat) :=
  Simulator.physicalAddressRanges view.region

/-- The bytes of the elements of a view, element by element in C order. -/
def bytes (view : MemoryView) : List Nat :=
  (elementOffsets (view.shape.zip view.stridesBytes)).flatMap fun offset =>
    indices (view.start + offset, view.start + offset + view.itemsize)

@[simp]
theorem region_strides (view : MemoryView) : view.region.strides = view.stridesBytes := by
  obtain ⟨allocation, byteOffset, shape, dtype, strides, rank⟩ := view
  cases strides with
  | nil =>
    obtain rfl := List.eq_nil_of_length_eq_zero rank.symm
    rfl
  | cons first rest => rfl

@[simp]
theorem region_dims (view : MemoryView) : view.region.dims = view.shape.zip view.stridesBytes := by
  rw [BufferRegion.dims, region_strides]
  rfl

end MemoryView

/-! ## Joining keeps the order of the bytes -/

theorem indicesOf_joinInto {current : Nat × Nat} {rest : List (Nat × Nat)}
    (ordered : ∀ range ∈ current :: rest, range.1 ≤ range.2) :
    indicesOf (joinInto current rest) = indicesOf (current :: rest) := by
  induction rest generalizing current with
  | nil => rfl
  | cons next rest ih =>
    have currentOrdered := ordered current List.mem_cons_self
    have nextOrdered := ordered next (List.mem_cons_of_mem _ List.mem_cons_self)
    have restOrdered : ∀ range ∈ rest, range.1 ≤ range.2 := fun range member =>
      ordered range (List.mem_cons_of_mem _ (List.mem_cons_of_mem _ member))
    rw [joinInto]
    split
    · rename_i touches
      have joined : indices current ++ indices next = indices (current.1, next.2) := by
        obtain ⟨first, middle⟩ := current
        obtain ⟨middle', last⟩ := next
        obtain rfl : middle = middle' := touches
        exact IndexRanges.indices_append ⟨currentOrdered, nextOrdered⟩
      rw [ih (List.forall_mem_cons.mpr ⟨by simp only; omega, restOrdered⟩)]
      simp only [indicesOf_cons]
      rw [← joined, List.append_assoc]
    · rw [indicesOf_cons,
        ih (List.forall_mem_cons.mpr ⟨nextOrdered, restOrdered⟩),
        ← indicesOf_cons]

theorem indicesOf_joinAdjacent {ranges : List (Nat × Nat)}
    (ordered : ∀ range ∈ ranges, range.1 ≤ range.2) :
    indicesOf (joinAdjacent ranges) = indicesOf ranges := by
  cases ranges with
  | nil => rfl
  | cons first rest => exact indicesOf_joinInto ordered

theorem indicesOf_rangesOf (region : BufferRegion) (dims : List (Nat × Nat)) (size : Nat) :
    indicesOf (rangesOf region dims size) =
      (elementOffsets dims).flatMap fun offset =>
        indices (region.byteOffset + offset, region.byteOffset + offset + size) := by
  rw [indicesOf, rangesOf, List.flatMap_map]

/-! ## Elements side by side -/

theorem elementOffsets_append (outer inner : List (Nat × Nat)) :
    elementOffsets (outer ++ inner) =
      (elementOffsets outer).flatMap fun offset => (elementOffsets inner).map (offset + ·) := by
  induction outer with
  | nil => simp [elementOffsets]
  | cons dim rest ih =>
    obtain ⟨extent, stride⟩ := dim
    simp only [List.cons_append, elementOffsets, ih, List.flatMap_assoc,
      List.map_flatMap, List.flatMap_map, List.map_map]
    refine List.flatMap_congr fun index _ => List.flatMap_congr fun offset _ => ?_
    refine List.map_congr_left fun last _ => ?_
    simp only [Function.comp_apply, Nat.add_assoc]

theorem flatMap_indices_row (start extent itemsize : Nat) :
    ((elementOffsets [(extent, itemsize)]).flatMap fun offset =>
        indices (start + offset, start + offset + itemsize)) =
      indices (start, start + extent * itemsize) := by
  have row : elementOffsets [(extent, itemsize)] = (List.range extent).map (· * itemsize) := by
    simp only [elementOffsets, List.map_cons, List.map_nil, Nat.add_zero]
    exact List.map_eq_flatMap.symm
  rw [row, List.flatMap_map]
  exact IndexRanges.flatMap_indices_blocks start itemsize extent

theorem flatMap_indices_contiguous (start : Nat) (shape : List Nat) (itemsize : Nat) :
    ((elementOffsets (shape.zip (contiguousStridesBytes shape itemsize))).flatMap fun offset =>
        indices (start + offset, start + offset + itemsize)) =
      indices (start, start +
        (shape.foldr
          (fun extent (state : Nat × List Nat) => (state.1 * extent, state.1 :: state.2))
          (itemsize, [])).1) := by
  unfold contiguousStridesBytes
  induction shape generalizing start with
  | nil => simp [elementOffsets]
  | cons extent rest ih =>
    simp only [List.foldr_cons, List.zip_cons_cons, elementOffsets, List.flatMap_assoc,
      List.flatMap_map]
    have blocks := IndexRanges.flatMap_indices_blocks start
      (rest.foldr
        (fun extent (state : Nat × List Nat) => (state.1 * extent, state.1 :: state.2))
        (itemsize, [])).1 extent
    rw [Nat.mul_comm _ extent, ← blocks]
    refine List.flatMap_congr fun index _ => ?_
    rw [← ih]
    simp only [Nat.add_assoc]

/-! ## The ranges of a view -/

namespace MemoryView

variable (view : MemoryView)

theorem elementOffsets_eq_nil {dims : List (Nat × Nat)}
    (empty : ∃ dim ∈ dims, dim.1 = 0) : elementOffsets dims = [] := by
  obtain ⟨dim, inDims, isEmpty⟩ := empty
  refine List.eq_nil_iff_forall_not_mem.mpr fun offset member => ?_
  exact absurd isEmpty (Nat.ne_of_gt (extent_pos_of_mem member dim inDims))

theorem indicesOf_addressRanges : indicesOf view.addressRanges = view.bytes := by
  have byElements :
      indicesOf (joinAdjacent (rangesOf view.region view.region.dims view.region.itemsize)) =
        view.bytes := by
    rw [indicesOf_joinAdjacent rangesOf_ordered, indicesOf_rangesOf, region_dims]
    rfl
  rw [addressRanges, Simulator.addressRanges]
  split
  · rename_i empty
    obtain ⟨extent, inShape, isEmpty⟩ := List.any_eq_true.mp empty
    rw [← view.region.dims_fst] at inShape
    obtain ⟨dim, inDims, rfl⟩ := List.mem_map.mp inShape
    rw [region_dims] at inDims
    rw [bytes, elementOffsets_eq_nil ⟨dim, inDims, of_decide_eq_true isEmpty⟩]
    rfl
  rename_i extents
  split
  · rename_i contiguous
    have nonempty : ∀ extent ∈ view.shape, extent ≠ 0 := by
      intro extent member isEmpty
      exact extents (List.any_eq_true.mpr ⟨extent, member, decide_eq_true isEmpty⟩)
    rw [region_strides] at contiguous
    have bounds : regionBounds view.region =
        (view.start, view.start +
          (view.shape.foldr
            (fun extent (state : Nat × List Nat) => (state.1 * extent, state.1 :: state.2))
            (view.itemsize, [])).1) := by
      rw [regionBounds, if_neg extents, region_dims, contiguous, Nat.add_assoc]
      exact congrArg (fun size => (view.start, view.start + size)) (contiguous_end nonempty)
    rw [bounds, bytes, contiguous]
    exact (List.flatMap_singleton _ _).trans
      (flatMap_indices_contiguous view.start view.shape view.itemsize).symm
  split
  · rename_i extent stride isLast
    split
    · rename_i unitStride
      have dims : view.shape.zip view.stridesBytes =
          view.region.dims.dropLast ++ [(extent, stride)] := by
        rw [← region_dims]
        exact (List.dropLast_append_getLast? _ isLast).symm
      rw [indicesOf_joinAdjacent rangesOf_ordered, indicesOf_rangesOf, bytes, dims,
        elementOffsets_append, List.flatMap_assoc]
      refine List.flatMap_congr fun outer _ => ?_
      have row := flatMap_indices_row (view.start + outer) extent view.itemsize
      rw [List.flatMap_map, show stride = view.itemsize from unitStride]
      simp only [Nat.add_assoc] at row ⊢
      exact row.symm
    · exact byElements
  · exact byElements

theorem physicalAddressRanges_separated :
    Sorted view.physicalAddressRanges ∧ Separated view.physicalAddressRanges := by
  rw [physicalAddressRanges, Simulator.physicalAddressRanges]
  split
  · exact ⟨List.Pairwise.nil, List.Pairwise.nil⟩
  split
  · exact ⟨List.pairwise_singleton _ _, List.pairwise_singleton _ _⟩
  · exact ⟨merge_sorted (sorted_mergeSort _), merge_separated (sorted_mergeSort _)⟩

theorem mem_bytes {byte : Nat} : byte ∈ view.bytes ↔ byte ∈ view.region.bytes := by
  rw [mem_bytes_iff, bytes, List.mem_flatMap, region_dims]
  simp only [mem_indices]
  rfl

theorem covers_physicalAddressRanges (byte : Nat) :
    Covers view.physicalAddressRanges byte ↔ byte ∈ view.bytes := by
  rw [mem_bytes]
  exact Simulator.covers_physicalAddressRanges byte

/-- Every view lists its bytes in C order and unites them into sorted, separated ranges. -/
theorem addressRanges_exact :
    indicesOf view.addressRanges = view.bytes ∧
      (Sorted view.physicalAddressRanges ∧ Separated view.physicalAddressRanges) ∧
      ∀ byte, Covers view.physicalAddressRanges byte ↔ byte ∈ view.bytes :=
  ⟨view.indicesOf_addressRanges, view.physicalAddressRanges_separated,
    view.covers_physicalAddressRanges⟩

end MemoryView

end TilelangAscend.Simulator.Memory
