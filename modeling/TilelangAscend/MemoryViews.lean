import TilelangAscend.MemoryRegions

namespace TilelangAscend.Simulator

open IntervalCover

/-!
# Address ranges of memory views

A view of an allocation has two lists of address ranges.  Payload accesses take the exact ranges
in logical order, with neighbours joined; metadata accesses take the union of the touched bytes,
which for a dense view is its bounding interval.  Both lists cover exactly the bytes of the
region.  Ranges are relative to the start of the allocation.
-/

/-- Join every range to the one before it if it starts where that one ends. -/
def joinInto
    (current : Nat × Nat) :
    List (Nat × Nat) → List (Nat × Nat)
  | [] => [current]
  | next :: rest =>
    if current.2 = next.1 then
      joinInto (current.1, next.2) rest
    else
      current :: joinInto next rest

/-- Ranges in logical order with neighbours joined. -/
def joinAdjacent : List (Nat × Nat) → List (Nat × Nat)
  | [] => []
  | first :: rest => joinInto first rest

/-- Ranges of a given size at the elements of a view. -/
def rangesOf (region : BufferRegion) (dims : List (Nat × Nat)) (size : Nat) : List (Nat × Nat) :=
  (elementOffsets dims).map fun offset =>
    (region.byteOffset + offset, region.byteOffset + offset + size)

/-- `MemoryView.address_ranges`: the exact ranges, whole rows where the last stride allows it. -/
def addressRanges (region : BufferRegion) : List (Nat × Nat) :=
  if region.shape.any (· = 0) then
    []
  else if region.strides = contiguousStridesBytes region.shape region.itemsize then
    [regionBounds region]
  else
    match region.dims.getLast? with
    | some (extent, stride) =>
      if stride = region.itemsize then
        joinAdjacent (rangesOf region region.dims.dropLast (extent * region.itemsize))
      else
        joinAdjacent (rangesOf region region.dims region.itemsize)
    | none => joinAdjacent (rangesOf region region.dims region.itemsize)

/-- Whether dimensions, listed by stride, leave no gap. -/
def denseFrom
    (expectedStride : Nat) :
    List (Nat × Nat) → Bool
  | [] => true
  | (extent, stride) :: rest =>
    if extent ≤ 1 then
      denseFrom expectedStride rest
    else if stride ≠ expectedStride then
      false
    else
      denseFrom (expectedStride * extent) rest

/-- `MemoryView.physical_address_ranges`: the union of the touched bytes. -/
def physicalAddressRanges (region : BufferRegion) : List (Nat × Nat) :=
  if region.shape.any (· = 0) then
    []
  else if denseFrom region.itemsize
      (region.dims.mergeSort fun left right => left.2 ≤ right.2) then
    [regionBounds region]
  else
    merge ((addressRanges region).mergeSort intervalLe)

/-! ## Joining keeps the bytes -/

variable {point size : Nat} {dims : List (Nat × Nat)} {region : BufferRegion}

theorem covers_joinInto {current : Nat × Nat} {rest : List (Nat × Nat)}
    (ordered : ∀ range ∈ current :: rest, range.1 ≤ range.2) :
    Covers (joinInto current rest) point ↔ Covers (current :: rest) point := by
  induction rest generalizing current with
  | nil => rfl
  | cons next rest ih =>
    have currentOrdered := ordered current List.mem_cons_self
    have nextOrdered := ordered next (List.mem_cons_of_mem _ List.mem_cons_self)
    have restOrdered : ∀ range ∈ rest, range.1 ≤ range.2 := fun range member =>
      ordered range (List.mem_cons_of_mem _ (List.mem_cons_of_mem _ member))
    rw [joinInto]
    split
    · rename_i touches
      rw [ih (List.forall_mem_cons.mpr ⟨by simp only; omega, restOrdered⟩)]
      simp only [Covers, List.exists_mem_cons_iff]
      constructor
      · rintro (inside | inRest)
        · by_cases inCurrent : point < current.2
          · exact .inl ⟨inside.1, inCurrent⟩
          · exact .inr (.inl ⟨by omega, inside.2⟩)
        · exact .inr (.inr inRest)
      · rintro (inCurrent | inNext | inRest)
        · exact .inl ⟨inCurrent.1, by omega⟩
        · exact .inl ⟨by omega, inNext.2⟩
        · exact .inr inRest
    · have later := ih (List.forall_mem_cons.mpr ⟨nextOrdered, restOrdered⟩)
      simp only [Covers, List.exists_mem_cons_iff] at later ⊢
      rw [later]

theorem covers_joinAdjacent {ranges : List (Nat × Nat)}
    (ordered : ∀ range ∈ ranges, range.1 ≤ range.2) :
    Covers (joinAdjacent ranges) point ↔ Covers ranges point := by
  cases ranges with
  | nil => rfl
  | cons first rest => exact covers_joinInto ordered

theorem rangesOf_ordered : ∀ range ∈ rangesOf region dims size, range.1 ≤ range.2 := by
  intro range member
  obtain ⟨offset, _, rfl⟩ := List.mem_map.mp member
  exact Nat.le_add_right _ _

theorem covers_rangesOf :
    Covers (rangesOf region dims size) point ↔
      ∃ offset ∈ elementOffsets dims,
        region.byteOffset + offset ≤ point ∧ point < region.byteOffset + offset + size := by
  simp only [Covers, rangesOf, List.mem_map]
  constructor
  · rintro ⟨_, ⟨offset, member, rfl⟩, inside⟩
    exact ⟨offset, member, inside⟩
  · rintro ⟨offset, member, inside⟩
    exact ⟨_, ⟨offset, member, rfl⟩, inside⟩

theorem mem_bytes_iff {byte : Nat} :
    byte ∈ region.bytes ↔
      ∃ offset ∈ elementOffsets region.dims,
        region.byteOffset + offset ≤ byte ∧
          byte < region.byteOffset + offset + region.itemsize := by
  rw [BufferRegion.mem_bytes]
  constructor
  · rintro ⟨offset, member, position, inside, rfl⟩
    exact ⟨offset, member, by omega, by omega⟩
  · rintro ⟨offset, member, fromStart, beforeEnd⟩
    exact ⟨offset, member, byte - (region.byteOffset + offset), by omega, by omega⟩

/-! ## Dense views -/

theorem mem_elementOffsets_perm {other : List (Nat × Nat)} (permuted : dims.Perm other) :
    ∀ offset, offset ∈ elementOffsets dims ↔ offset ∈ elementOffsets other := by
  induction permuted with
  | nil => exact fun _ => Iff.rfl
  | cons dim _ ih =>
    intro offset
    simp only [elementOffsets, List.mem_flatMap, List.mem_map, ih]
  | swap first second rest =>
    intro offset
    simp only [elementOffsets, List.mem_flatMap, List.mem_range, List.mem_map]
    constructor
    · rintro ⟨outer, outerInside, _, ⟨inner, innerInside, last, member, rfl⟩, rfl⟩
      exact ⟨inner, innerInside, _, ⟨outer, outerInside, last, member, rfl⟩, by omega⟩
    · rintro ⟨outer, outerInside, _, ⟨inner, innerInside, last, member, rfl⟩, rfl⟩
      exact ⟨inner, innerInside, _, ⟨outer, outerInside, last, member, rfl⟩, by omega⟩
  | trans _ _ first second => exact fun offset => (first offset).trans (second offset)

theorem exists_block_iff {count block point start : Nat} :
    (∃ index < count, start + index * block ≤ point ∧ point < start + index * block + block) ↔
      start ≤ point ∧ point < start + count * block := by
  constructor
  · rintro ⟨index, below, fromStart, beforeEnd⟩
    have inCount : (index + 1) * block ≤ count * block := Nat.mul_le_mul_right _ below
    rw [Nat.add_mul, Nat.one_mul] at inCount
    exact ⟨by omega, by omega⟩
  · rintro ⟨fromStart, beforeEnd⟩
    have someBlock : 0 < block := by
      by_contra none
      rw [Nat.eq_zero_of_not_pos none, Nat.mul_zero] at beforeEnd
      omega
    have division := Nat.div_add_mod (point - start) block
    have remainder := Nat.mod_lt (point - start) someBlock
    rw [Nat.mul_comm] at division
    refine ⟨(point - start) / block, ?_, by omega, by omega⟩
    rw [Nat.div_lt_iff_lt_mul someBlock]
    omega

theorem dense_fills {expectedStride : Nat} (nonempty : ∀ dim ∈ dims, dim.1 ≠ 0)
    (dense : denseFrom expectedStride dims = true) (point : Nat) :
    (∃ offset ∈ elementOffsets dims, offset ≤ point ∧ point < offset + expectedStride) ↔
      point < (dims.map fun dim => (dim.1 - 1) * dim.2).sum + expectedStride := by
  induction dims generalizing expectedStride with
  | nil => simp [elementOffsets]
  | cons dim rest ih =>
    obtain ⟨extent, stride⟩ := dim
    have someExtent : extent ≠ 0 := nonempty _ List.mem_cons_self
    have restNonempty : ∀ dim ∈ rest, dim.1 ≠ 0 := fun dim member =>
      nonempty dim (List.mem_cons_of_mem _ member)
    simp only [elementOffsets, List.mem_flatMap, List.mem_range, List.mem_map, List.map_cons,
      List.sum_cons]
    rw [denseFrom] at dense
    split at dense
    · have isOne : extent = 1 := by omega
      subst isOne
      rw [Nat.sub_self, Nat.zero_mul, Nat.zero_add, ← ih restNonempty dense]
      constructor
      · rintro ⟨_, ⟨index, isFirst, offset, member, rfl⟩, fromStart, beforeEnd⟩
        obtain rfl : index = 0 := by omega
        exact ⟨offset, member, by omega, by omega⟩
      · rintro ⟨offset, member, fromStart, beforeEnd⟩
        exact ⟨_, ⟨0, Nat.one_pos, offset, member, rfl⟩, by omega, by omega⟩
    · split at dense
      · cases dense
      rename_i sameStride
      obtain rfl := not_not.mp sameStride
      have filled := ih restNonempty dense
      have size : (extent - 1) * stride + stride = stride * extent := by
        rw [← Nat.succ_mul, Nat.mul_comm]
        congr 1
        omega
      rw [show (extent - 1) * stride + (rest.map fun dim => (dim.1 - 1) * dim.2).sum + stride =
        (rest.map fun dim => (dim.1 - 1) * dim.2).sum + stride * extent by omega, ← filled]
      constructor
      · rintro ⟨_, ⟨index, below, offset, member, rfl⟩, fromStart, beforeEnd⟩
        obtain ⟨fromBlock, beforeBlock⟩ := (@exists_block_iff extent stride point offset).mp
          ⟨index, below, by omega, by omega⟩
        exact ⟨offset, member, fromBlock, by rw [Nat.mul_comm stride]; exact beforeBlock⟩
      · rintro ⟨offset, member, fromStart, beforeEnd⟩
        rw [Nat.mul_comm stride] at beforeEnd
        obtain ⟨index, below, fromBlock, beforeBlock⟩ :=
          (@exists_block_iff extent stride point offset).mpr ⟨fromStart, beforeEnd⟩
        exact ⟨_, ⟨index, below, offset, member, rfl⟩, by omega, by omega⟩

theorem contiguous_fills (shape : List Nat) (itemsize point : Nat) :
    (∃ offset ∈ elementOffsets (shape.zip (contiguousStridesBytes shape itemsize)),
        offset ≤ point ∧ point < offset + itemsize) ↔
      point <
        (shape.foldr
          (fun extent (state : Nat × List Nat) => (state.1 * extent, state.1 :: state.2))
          (itemsize, [])).1 := by
  unfold contiguousStridesBytes
  induction shape generalizing point with
  | nil => simp [elementOffsets]
  | cons extent rest ih =>
    simp only [List.foldr_cons, List.zip_cons_cons, elementOffsets, List.mem_flatMap,
      List.mem_range, List.mem_map]
    generalize rest.foldr
      (fun extent (state : Nat × List Nat) => (state.1 * extent, state.1 :: state.2))
      (itemsize, []) = state at *
    have blocks := @exists_block_iff extent state.1 point 0
    simp only [Nat.zero_add, Nat.zero_le, true_and] at blocks
    rw [Nat.mul_comm state.1, ← blocks]
    constructor
    · rintro ⟨_, ⟨index, below, offset, member, rfl⟩, fromStart, beforeEnd⟩
      have inBlock := (ih (point - index * state.1)).mp ⟨offset, member, by omega, by omega⟩
      exact ⟨index, below, by omega, by omega⟩
    · rintro ⟨index, below, fromStart, beforeEnd⟩
      obtain ⟨offset, member, fromOffset, beforeOffset⟩ :=
        (ih (point - index * state.1)).mpr (by omega)
      exact ⟨_, ⟨index, below, offset, member, rfl⟩, by omega, by omega⟩

theorem contiguous_end {shape : List Nat} {itemsize : Nat}
    (nonempty : ∀ extent ∈ shape, extent ≠ 0) :
    ((shape.zip (contiguousStridesBytes shape itemsize)).map fun dim =>
        (dim.1 - 1) * dim.2).sum + itemsize =
      (shape.foldr
        (fun extent (state : Nat × List Nat) => (state.1 * extent, state.1 :: state.2))
        (itemsize, [])).1 := by
  unfold contiguousStridesBytes
  induction shape with
  | nil => simp
  | cons extent rest ih =>
    have someExtent := nonempty extent List.mem_cons_self
    have inner := ih fun other member => nonempty other (List.mem_cons_of_mem _ member)
    simp only [List.foldr_cons, List.zip_cons_cons, List.map_cons, List.sum_cons]
    generalize rest.foldr
      (fun extent (state : Nat × List Nat) => (state.1 * extent, state.1 :: state.2))
      (itemsize, []) = state at *
    have whole : (extent - 1) * state.1 + state.1 = state.1 * extent := by
      rw [← Nat.succ_mul, Nat.mul_comm]
      congr 1
      omega
    omega

/-! ## Both lists cover the bytes -/

section Coverage

variable {region : BufferRegion}

theorem not_mem_bytes_of_empty (empty : region.shape.any (· = 0) = true) (byte : Nat) :
    byte ∉ region.bytes := by
  intro member
  rw [BufferRegion.no_empty_extent member] at empty
  cases empty

theorem dims_nonempty (extents : ¬ region.shape.any (· = 0) = true) :
    ∀ dim ∈ region.dims, dim.1 ≠ 0 := by
  intro dim member isEmpty
  refine extents (List.any_eq_true.mpr ⟨dim.1, ?_, by simpa using isEmpty⟩)
  rw [← region.dims_fst]
  exact List.mem_map_of_mem member

/-- A dense region is covered by its bounds. -/
theorem covers_regionBounds (extents : ¬ region.shape.any (· = 0) = true)
    (fills : ∀ point,
      (∃ offset ∈ elementOffsets region.dims, offset ≤ point ∧ point < offset + region.itemsize) ↔
        point < (region.dims.map fun dim => (dim.1 - 1) * dim.2).sum + region.itemsize)
    (byte : Nat) : Covers [regionBounds region] byte ↔ byte ∈ region.bytes := by
  rw [mem_bytes_iff]
  simp only [Covers, List.mem_singleton, exists_eq_left, regionBounds, if_neg extents]
  constructor
  · rintro ⟨fromStart, beforeEnd⟩
    obtain ⟨offset, member, fromOffset, beforeOffset⟩ :=
      (fills (byte - region.byteOffset)).mpr (by omega)
    exact ⟨offset, member, by omega, by omega⟩
  · rintro ⟨offset, member, fromOffset, beforeOffset⟩
    have inside := (fills (byte - region.byteOffset)).mp ⟨offset, member, by omega, by omega⟩
    exact ⟨by omega, by omega⟩

/-- The address ranges cover the bytes of a region. -/
theorem covers_addressRanges (byte : Nat) :
    Covers (addressRanges region) byte ↔ byte ∈ region.bytes := by
  unfold addressRanges
  split
  · rename_i empty
    refine iff_of_false ?_ (not_mem_bytes_of_empty empty byte)
    rintro ⟨_, member, _⟩
    cases member
  rename_i extents
  split
  · rename_i contiguous
    refine covers_regionBounds extents ?_ byte
    intro point
    have shapeNonempty : ∀ extent ∈ region.shape, extent ≠ 0 := by
      intro extent member isEmpty
      exact extents (List.any_eq_true.mpr ⟨extent, member, by simpa using isEmpty⟩)
    rw [BufferRegion.dims, contiguous, contiguous_fills, contiguous_end shapeNonempty]
  have byElements : Covers (joinAdjacent (rangesOf region region.dims region.itemsize)) byte ↔
      byte ∈ region.bytes := by
    rw [covers_joinAdjacent rangesOf_ordered, covers_rangesOf, mem_bytes_iff]
  split
  · rename_i extent stride isLast
    split
    · rename_i unitStride
      rw [covers_joinAdjacent rangesOf_ordered, covers_rangesOf, mem_bytes_iff]
      have split : region.dims = region.dims.dropLast ++ [(extent, stride)] :=
        (List.dropLast_append_getLast? _ isLast).symm
      subst unitStride
      conv_rhs => rw [split]
      simp only [mem_elementOffsets_append]
      constructor
      · rintro ⟨outer, member, fromRow, beforeRow⟩
        obtain ⟨index, below, fromElement, beforeElement⟩ :=
          (@exists_block_iff extent region.itemsize byte (region.byteOffset + outer)).mpr
            ⟨fromRow, beforeRow⟩
        refine ⟨outer + index * region.itemsize, ⟨outer, member, index * region.itemsize, ?_, rfl⟩,
          by omega, by omega⟩
        simp only [elementOffsets, List.mem_flatMap, List.mem_range]
        exact ⟨index, below, by simp⟩
      · rintro ⟨_, ⟨outer, member, inner, isInner, rfl⟩, fromElement, beforeElement⟩
        simp only [elementOffsets, List.mem_flatMap, List.mem_range, List.map_cons, List.map_nil,
          List.mem_singleton, Nat.add_zero] at isInner
        obtain ⟨index, below, rfl⟩ := isInner
        exact ⟨outer, member,
          (@exists_block_iff extent region.itemsize byte (region.byteOffset + outer)).mp
            ⟨index, below, by omega, by omega⟩⟩
    · exact byElements
  · exact byElements

/-- So do the physical address ranges. -/
theorem covers_physicalAddressRanges (byte : Nat) :
    Covers (physicalAddressRanges region) byte ↔ byte ∈ region.bytes := by
  unfold physicalAddressRanges
  split
  · rename_i empty
    refine iff_of_false ?_ (not_mem_bytes_of_empty empty byte)
    rintro ⟨_, member, _⟩
    cases member
  rename_i extents
  split
  · rename_i dense
    refine covers_regionBounds extents ?_ byte
    intro point
    have permuted : (region.dims.mergeSort fun left right => left.2 ≤ right.2).Perm region.dims :=
      List.mergeSort_perm _ _
    have filled := dense_fills
      (fun dim member => dims_nonempty extents dim (permuted.mem_iff.mp member)) dense point
    rw [(permuted.map _).sum_eq] at filled
    simpa only [mem_elementOffsets_perm permuted] using filled
  · have sameRanges : ∀ range, range ∈ (addressRanges region).mergeSort intervalLe ↔
        range ∈ addressRanges region := fun _ => (List.mergeSort_perm _ _).mem_iff
    rw [← covers_addressRanges]
    constructor
    · intro covered
      obtain ⟨range, member, inside⟩ := covers_of_merge covered
      exact ⟨range, (sameRanges range).mp member, inside⟩
    · rintro ⟨range, member, inside⟩
      exact covers_merge (sorted_mergeSort _) ⟨range, (sameRanges range).mpr member, inside⟩

end Coverage

end TilelangAscend.Simulator
