import TilelangAscend.RegionAccess

namespace TilelangAscend.Simulator.Memory

open ExceptRules (exceptBind_eq_ok)
open IndexRanges (indices writeRanges fillRanges)

/-!
# Writes of consecutive elements

A region of one dimension without strides holds consecutive elements.  Writing several such
segments of an allocation, no two of which share an element, stores every element at its place and
changes nothing outside the segments; a segment that leaves the allocation is refused.
-/

/-- `FunctionalSimulator.write` of a region of one dimension. -/
def MemoryAllocation.writeElements
    (allocation : MemoryAllocation)
    (region : BufferRegion)
    (elements : List (List UInt8))
    (space : AddressSpace) :
    Except MemoryError AddressSpace := do
  let view ← allocation.resolveRegion region
  if view.shape ≠ [elements.length] then
    throw .validation
  match allocation.write space view elements.flatten with
  | (.ok (), after) => return after
  | (.error failure, _) => throw failure

/-- A region of consecutive elements. -/
structure IsLinear
    (region : BufferRegion)
    (extent : Nat) :
    Prop where
  shape : region.shape = [extent]
  strides : region.stridesBytes = none

namespace MemoryAllocation

variable {allocation : MemoryAllocation} {region : BufferRegion} {extent : Nat}

/-- The view of consecutive elements. -/
def linearView (allocation : MemoryAllocation) (region : BufferRegion)
    (linear : IsLinear region extent) : MemoryView :=
  allocation.regionView region [region.itemsize] (by rw [linear.shape]; rfl)

variable (linear : IsLinear region extent)

theorem byteRange_linearView :
    (allocation.linearView region linear).byteRange.2 =
      allocation.address + region.byteOffset + extent * region.itemsize := by
  have dims : (allocation.linearView region linear).region.dims = [(extent, region.itemsize)] := by
    rw [MemoryView.region_dims]
    change region.shape.zip [region.itemsize] = _
    rw [linear.shape]
    rfl
  rw [MemoryView.byteRange, regionBounds, dims]
  change (if region.shape.any (· = 0) = true then _ else _ : Nat × Nat).2 = _
  rw [linear.shape]
  cases extent with
  | zero =>
    rw [Nat.zero_mul, Nat.add_zero]
    rfl
  | succ extent =>
    change allocation.address + region.byteOffset +
      ([(extent + 1, region.itemsize)].map fun dim => (dim.1 - 1) * dim.2).sum + region.itemsize = _
    simp only [List.map_cons, List.map_nil, List.sum_cons, List.sum_nil, Nat.add_sub_cancel,
      Nat.add_zero]
    rw [Nat.succ_mul]
    omega

theorem resolveRegion_linear (linear : IsLinear region extent) :
    allocation.resolveRegion region =
      if region.byteOffset + extent * region.itemsize ≤ allocation.sizeBytes then
        .ok (allocation.linearView region linear)
      else
        .error .bounds := by
  have strides : contiguousStridesBytes region.shape (dtypeSizeBytes region.dtype) =
      [region.itemsize] := by
    rw [linear.shape]
    rfl
  have noneNegative :
      ((region.byteOffset : Int) < 0 || ([region.itemsize].map Int.ofNat).any (· < 0)) = false := by
    simp only [List.map_cons, List.map_nil, List.any_cons, List.any_nil, Bool.or_false,
      Bool.or_eq_false_iff, decide_eq_false_iff_not]
    exact ⟨Int.not_lt.mpr (Int.natCast_nonneg _), Int.not_lt.mpr (Int.natCast_nonneg _)⟩
  have rank : [region.itemsize].length = region.shape.length := by
    rw [linear.shape]
    rfl
  unfold resolveRegion MemoryAllocation.view
  simp only [linear.strides, Option.map_none, Option.getD_none, Option.getD_some,
    concreteShape_ofNat, strides, noneNegative, Bool.false_eq_true, if_false, map_toNat_ofNat,
    Int.toNat_natCast]
  rw [dif_pos (by rw [List.length_map, rank])]
  change (if (allocation.linearView region linear).byteRange.2 >
      allocation.address + allocation.sizeBytes then _ else _) = _
  rw [byteRange_linearView]
  by_cases inside : region.byteOffset + extent * region.itemsize ≤ allocation.sizeBytes
  · rw [if_pos inside, if_neg (by omega)]
    rfl
  · rw [if_neg inside, if_pos (by omega)]

theorem elementOffsets_linearView :
    elementOffsets ((allocation.linearView region linear).shape.zip
        (allocation.linearView region linear).stridesBytes) =
      (List.range extent).map (· * region.itemsize) := by
  change elementOffsets (region.shape.zip [region.itemsize]) = _
  rw [linear.shape]
  exact elementOffsets_row extent region.itemsize

theorem bytes_linearView :
    (allocation.linearView region linear).bytes =
      indices (allocation.address + region.byteOffset,
        allocation.address + region.byteOffset + extent * region.itemsize) := by
  rw [MemoryView.bytes, elementOffsets_linearView, List.flatMap_map]
  exact IndexRanges.flatMap_indices_blocks _ _ _

theorem elementsApart_linearView : (allocation.linearView region linear).ElementsApart := by
  rw [MemoryView.ElementsApart, elementOffsets_linearView, List.pairwise_map]
  refine List.pairwise_lt_range.imp fun {first second} before => .inl ?_
  change first * region.itemsize + region.itemsize ≤ _
  rw [← Nat.succ_mul]
  exact Nat.mul_le_mul_right _ before

theorem nbytes_linearView :
    (allocation.linearView region linear).nbytes = extent * region.itemsize := by
  rw [← MemoryView.length_bytes, bytes_linearView, IndexRanges.length_indices,
    Nat.add_sub_cancel_left]

variable {elements : List (List UInt8)}

theorem length_flatten_elements {itemsize : Nat}
    (widths : ∀ element ∈ elements, element.length = itemsize) :
    elements.flatten.length = elements.length * itemsize := by
  rw [List.length_flatten, List.map_congr_left widths, List.map_const', List.sum_replicate_nat]

/-- The byte at which an element of an allocation starts. -/
def elementStart (allocation : MemoryAllocation) (byteOffset itemsize index : Nat) : Nat :=
  allocation.address + byteOffset + index * itemsize

theorem writeElements_eq (allocation : MemoryAllocation) (linear : IsLinear region extent)
    (count : elements.length = extent)
    (widths : ∀ element ∈ elements, element.length = region.itemsize) (space : AddressSpace) :
    (region.byteOffset + extent * region.itemsize ≤ allocation.sizeBytes →
      ∃ after, allocation.writeElements region elements space = .ok after ∧
        (∀ index (inside : index < elements.length),
          elementBytes after.data region.itemsize
            (elementStart allocation region.byteOffset region.itemsize index) = elements[index]) ∧
        ∀ byte, byte ∉ indices (allocation.address + region.byteOffset,
            allocation.address + region.byteOffset + extent * region.itemsize) →
          after.data byte = space.data byte ∧ after.initialized byte = space.initialized byte) ∧
      (¬ region.byteOffset + extent * region.itemsize ≤ allocation.sizeBytes →
        allocation.writeElements region elements space = .error .bounds) := by
  have resolved := @resolveRegion_linear allocation region extent linear
  constructor
  · intro inside
    rw [if_pos inside] at resolved
    have size : elements.flatten.length = (allocation.linearView region linear).nbytes := by
      rw [length_flatten_elements widths, nbytes_linearView, count]
    have stored : ((List.range extent).flatMap fun position =>
        elementBytes
          (writeRanges space.data (allocation.linearView region linear).addressRanges
            elements.flatten)
          region.itemsize (elementStart allocation region.byteOffset region.itemsize position)) =
        elements.flatMap fun element => element := by
      have inView := map_bytes_write space (elementsApart_linearView linear) size
      rw [map_bytes_view, elementOffsets_linearView, List.flatMap_map] at inView
      exact inView.trans List.flatMap_id'.symm
    refine ⟨
      { data := writeRanges space.data (allocation.linearView region linear).addressRanges
          elements.flatten
        initialized := fillRanges space.initialized
          (allocation.linearView region linear).addressRanges true },
      ?_, fun index inElements => ?_, fun byte outside => ?_⟩
    · rw [writeElements, resolved]
      change (if (allocation.linearView region linear).shape ≠ [elements.length] then _ else _) = _
      rw [if_neg (not_not.mpr (by rw [count]; exact linear.shape)), write_eq_ok resolved size]
      rfl
    · have inRange : index < (List.range extent).length := by
        rw [List.length_range, ← count]
        exact inElements
      have written := TileArrays.block_flatMap
        (fun position _ => length_elementBytes
          (writeRanges space.data (allocation.linearView region linear).addressRanges
            elements.flatten)
          region.itemsize (elementStart allocation region.byteOffset region.itemsize position))
        inRange
      rw [stored, TileArrays.block_flatMap widths inElements, List.getElem_range] at written
      exact written.symm
    · rw [← bytes_linearView linear] at outside
      exact write_outside space elements.flatten outside
  · intro outside
    rw [if_neg outside] at resolved
    rw [writeElements, resolved]
    rfl

end MemoryAllocation

/-! ## Several segments -/

/-- Consecutive elements from an index on. -/
structure Segment where
  start : Nat
  elements : List (List UInt8)

/-- Segments without a common index. -/
def Segment.Apart (left right : Segment) : Prop :=
  ∀ leftIndex < left.elements.length, ∀ rightIndex < right.elements.length,
    left.start + leftIndex ≠ right.start + rightIndex

section Segments

variable {origin itemsize : Nat}

/-- The bytes of a segment whose index zero is at a byte of the address space. -/
def Segment.range (origin itemsize : Nat) (segment : Segment) : Nat × Nat :=
  (origin + segment.start * itemsize,
    origin + segment.start * itemsize + segment.elements.length * itemsize)

/-- The elements of a segment are in their places. -/
def Segment.Stored (origin itemsize : Nat) (segment : Segment) (space : AddressSpace) : Prop :=
  ∀ index (inside : index < segment.elements.length),
    elementBytes space.data itemsize (origin + (segment.start + index) * itemsize) =
      segment.elements[index]

/-- Bytes outside some ranges are unchanged. -/
def Unchanged (ranges : List (Nat × Nat)) (before after : AddressSpace) : Prop :=
  ∀ byte, (∀ range ∈ ranges, byte ∉ indices range) →
    after.data byte = before.data byte ∧ after.initialized byte = before.initialized byte

variable {segment other : Segment} {after before : AddressSpace}

theorem notMem_range_of_apart (apart : segment.Apart other) {index byte : Nat}
    (inside : index < segment.elements.length)
    (member : byte ∈ indices (origin + (segment.start + index) * itemsize,
      origin + (segment.start + index) * itemsize + itemsize)) :
    byte ∉ indices (other.range origin itemsize) := by
  intro inOther
  rw [IndexRanges.mem_indices] at member inOther
  obtain ⟨fromElement, beforeNext⟩ := member
  obtain ⟨fromOther, beforeEnd⟩ := inOther
  dsimp only [Segment.range] at fromElement beforeNext fromOther beforeEnd
  have startsBefore : other.start < segment.start + index + 1 := by
    refine Nat.lt_of_mul_lt_mul_right (a := itemsize) ?_
    rw [Nat.succ_mul]
    omega
  have endsBehind : segment.start + index < other.start + other.elements.length := by
    refine Nat.lt_of_mul_lt_mul_right (a := itemsize) ?_
    rw [Nat.add_mul other.start]
    omega
  exact apart index inside (segment.start + index - other.start) (by omega) (by omega)

/-- What is stored stays when another segment is written. -/
theorem Segment.Stored.of_unchanged (stored : segment.Stored origin itemsize before)
    (apart : segment.Apart other)
    (unchanged : Unchanged [other.range origin itemsize] before after) :
    segment.Stored origin itemsize after := by
  intro index inside
  rw [← stored index inside]
  refine List.map_congr_left fun byte member => (unchanged byte ?_).1
  intro range isRange
  obtain rfl := List.mem_singleton.mp isRange
  exact notMem_range_of_apart apart inside member

/-- Two writes change what either of them changes. -/
theorem Unchanged.trans {first second : List (Nat × Nat)} {middle : AddressSpace}
    (left : Unchanged first before middle) (right : Unchanged second middle after) :
    Unchanged (first ++ second) before after := by
  intro byte outside
  obtain ⟨leftData, leftMark⟩ := left byte fun range member =>
    outside range (List.mem_append_left _ member)
  obtain ⟨rightData, rightMark⟩ := right byte fun range member =>
    outside range (List.mem_append_right _ member)
  exact ⟨rightData.trans leftData, rightMark.trans leftMark⟩

variable {ε ω : Type} {write : AddressSpace → ω → Except ε AddressSpace} {writes : List ω}

/-- Writing segments that are apart stores each of them. -/
theorem foldlM_writes (segmentOf : ω → Segment)
    (each : ∀ item ∈ writes, ∀ space, ∃ after, write space item = .ok after ∧
      (segmentOf item).Stored origin itemsize after ∧
      Unchanged [(segmentOf item).range origin itemsize] space after)
    (apart : writes.Pairwise fun left right => (segmentOf left).Apart (segmentOf right))
    (space : AddressSpace) :
    ∃ after, writes.foldlM write space = .ok after ∧
      (∀ item ∈ writes, (segmentOf item).Stored origin itemsize after) ∧
      Unchanged (writes.map fun item => (segmentOf item).range origin itemsize) space after := by
  induction writes using List.reverseRecOn generalizing space with
  | nil => exact ⟨space, rfl, nofun, fun _ _ => ⟨rfl, rfl⟩⟩
  | append_singleton writes last ih =>
    obtain ⟨earlierApart, _, lastApart⟩ := List.pairwise_append.mp apart
    obtain ⟨middle, run, stored, unchanged⟩ := ih
      (fun item member => each item (List.mem_append_left _ member)) earlierApart space
    obtain ⟨after, written, lastStored, lastUnchanged⟩ :=
      each last (List.mem_append_right _ List.mem_cons_self) middle
    refine ⟨after, ?_, ?_, ?_⟩
    · rw [List.foldlM_append, run]
      change (write middle last >>= pure) = _
      rw [written]
      rfl
    · intro item member
      rcases List.mem_append.mp member with earlier | isLast
      · exact (stored item earlier).of_unchanged
          (lastApart item earlier last List.mem_cons_self) lastUnchanged
      · obtain rfl := List.mem_singleton.mp isLast
        exact lastStored
    · rw [List.map_append]
      exact unchanged.trans lastUnchanged

theorem exists_write_of_foldlM {space : AddressSpace}
    (run : writes.foldlM write space = .ok after) {item : ω} (member : item ∈ writes) :
    ∃ before next, write before item = .ok next := by
  induction writes generalizing space with
  | nil =>
    cases member
  | cons head rest ih =>
    rw [List.foldlM_cons] at run
    obtain ⟨next, written, later⟩ := exceptBind_eq_ok.mp run
    rcases List.mem_cons.mp member with rfl | inRest
    · exact ⟨space, next, written⟩
    · exact ih later inRest

end Segments

end TilelangAscend.Simulator.Memory
