import TilelangAscend.ZnPlacement

namespace TilelangAscend.Simulator.Bridge

open ExceptRules (exceptBind_eq_ok exceptGuard_eq_ok)
open Memory
open TileArrays (Tile block flatMap_range_blocks)

/-!
# The paths of copies from GM to L1 in zN

The full path, the spliced path and the rebased path all write the segments of their own list, in
its order.  Whether the segments of a path fit is a condition on the offset, the extents and the
size of the allocation.
-/

/-! ## The loops write the segments -/

section Paths

variable {copy : ZnCopy} {allocation : MemoryAllocation} {bindings : String → Option Int}
  {region : RuntimeRegion} {base itemsize : Nat} {values : Tile (List UInt8)}

theorem segment_self {extent : Nat} (shape : region.shape = [.int extent])
    (offset : region.byteOffset = .int base) (strides : region.stridesBytes = none) :
    region.segment extent base = region := by
  obtain ⟨buffer, scope, extents, dtype, byteOffset, stridesBytes, coreId, rank⟩ := region
  dsimp only at shape offset strides
  subst shape offset strides
  rfl

theorem place_tile (isTile : copy.destination = .tile region)
    (itemsizeIs : region.itemsize = itemsize)
    (shape : region.shape = [.int (storageElements .zN copy.physicalShape itemsize : Nat)])
    (offset : region.byteOffset = .int base) (strides : region.stridesBytes = none) :
    copy.destination.regions = (tileSegments copy itemsize values).map (segmentRegion region base) ∧
      ∀ space, copy.place allocation bindings values space =
        (tileSegments copy itemsize values).foldlM (writeSegment allocation bindings region base)
          space := by
  have same : segmentRegion region base
      ⟨0, packedElements copy.physicalShape itemsize values⟩ = region := by
    rw [segmentRegion, length_packedElements, Nat.zero_mul, Nat.add_zero]
    exact segment_self shape offset strides
  constructor
  · rw [isTile, tileSegments, List.map_singleton, same]
    rfl
  · intro space
    unfold ZnCopy.place
    simp only [isTile]
    rw [tileSegments, List.foldlM_cons, writeSegment, same, itemsizeIs]
    exact (bind_pure _).symm

theorem place_splice {writtenRows : Nat} (valid : ValidItemsize itemsize)
    (itemsizeIs : region.itemsize = itemsize) (wholeRows : 16 ∣ writtenRows)
    (wholeBands : elementsPerC0 itemsize ∣ copy.physicalCols)
    (someCols : 0 < copy.physicalCols) (wholeOffset : itemsize ∣ base)
    (isSpliced : copy.destination =
      .spliced (spliceRegions region base writtenRows copy.physicalRows copy.physicalCols itemsize)
        writtenRows) :
    copy.destination.regions =
        (spliceSegments copy itemsize writtenRows values).map (segmentRegion region base) ∧
      ∀ space, copy.place allocation bindings values space =
        (spliceSegments copy itemsize writtenRows values).foldlM
          (writeSegment allocation bindings region base) space := by
  have c0Positive := elementsPerC0_pos valid
  have someBands : 0 < copy.physicalCols / elementsPerC0 itemsize :=
    Nat.div_pos (Nat.le_of_dvd someCols wholeBands) c0Positive
  have regionsAre :
      spliceRegions region base writtenRows copy.physicalRows copy.physicalCols itemsize =
        (spliceSegments copy itemsize writtenRows values).map (segmentRegion region base) := by
    unfold spliceRegions spliceSegments
    rw [List.map_map]
    refine List.map_congr_left fun band inBands => ?_
    change _ = region.segment _ _
    rw [length_band valid wholeRows wholeBands (List.mem_range.mp inBands), itemsizeIs,
      Nat.add_mul, Nat.div_mul_cancel wholeOffset]
  have sizeIs : (packedElements ⟨writtenRows, copy.physicalCols⟩ itemsize values).length /
      (copy.physicalCols / elementsPerC0 itemsize) = writtenRows * elementsPerC0 itemsize := by
    rw [length_packedRows valid wholeRows wholeBands, Nat.mul_div_cancel_left _ someBands]
  constructor
  · rw [isSpliced]
    exact regionsAre
  · have count : (spliceRegions region base writtenRows copy.physicalRows copy.physicalCols
        itemsize).length = copy.physicalCols / elementsPerC0 itemsize := by
      rw [spliceRegions, List.length_map, List.length_range]
    have elementsIs : ((spliceRegions region base writtenRows copy.physicalRows copy.physicalCols
        itemsize).head?.map RuntimeRegion.itemsize).getD 0 = itemsize := by
      rw [spliceRegions, List.head?_map, List.head?_range, if_neg someBands.ne']
      exact itemsizeIs
    have pieces : chunks (packedElements ⟨writtenRows, copy.physicalCols⟩ itemsize values)
        (copy.physicalCols / elementsPerC0 itemsize) =
          .ok ((spliceSegments copy itemsize writtenRows values).map Segment.elements) := by
      unfold chunks
      simp only [sizeIs]
      rw [if_pos (length_packedRows valid wholeRows wholeBands).symm, spliceSegments, List.map_map]
      rfl
    intro space
    unfold ZnCopy.place
    simp only [isSpliced]
    rw [elementsIs, count, pieces]
    change (List.zip _ _).foldlM (writeRegion allocation bindings) space = _
    rw [regionsAre, List.zip_map', List.foldlM_map]
    rfl

theorem foldlM_pieces (segments : List Segment) (elements : List (List UInt8))
    (space : AddressSpace) {offset : Nat}
    (rest : elements.drop offset = segments.flatMap Segment.elements) :
    (segments.map (segmentRegion region base)).foldlM
        (fun (state : AddressSpace × Nat) region => do
          let count := (region.shape.filterMap staticExtent).prod
          let next ← writeRegion allocation bindings state.1
            (region, (elements.drop state.2).take count)
          return (next, state.2 + count))
        (space, offset) =
      (do
        let after ← segments.foldlM (writeSegment allocation bindings region base) space
        return (after, offset + (segments.flatMap Segment.elements).length)) := by
  induction segments generalizing space offset with
  | nil => rfl
  | cons segment segments ih =>
    have count : ((segmentRegion region base segment).shape.filterMap staticExtent).prod =
        segment.elements.length :=
      Nat.mul_one _
    rw [List.flatMap_cons] at rest
    have taken : (elements.drop offset).take segment.elements.length = segment.elements := by
      rw [rest]
      exact List.take_left
    have dropped : elements.drop (offset + segment.elements.length) =
        segments.flatMap Segment.elements := by
      rw [← List.drop_drop, rest]
      exact List.drop_left
    rw [List.map_cons, List.foldlM_cons, List.foldlM_cons, List.flatMap_cons, List.length_append,
      ← Nat.add_assoc]
    dsimp only
    rw [count, taken]
    change (writeSegment allocation bindings region base space segment >>= fun next =>
      pure (next, offset + segment.elements.length)) >>= _ = _
    rw [bind_assoc, bind_assoc]
    congr 1
    funext next
    rw [pure_bind]
    exact ih next dropped

theorem flattened_eq_pieces (valid : ValidItemsize itemsize)
    (window : WindowOf copy itemsize values) :
    flattened values = (rebasedSegments copy itemsize values).flatMap Segment.elements := by
  have wholeRow : ∀ row, (List.range copy.validCols).map (values.value row) =
      ((bandStarts copy.validCols (elementsPerC0 itemsize)).map fun column =>
        (⟨elementOffset .zN copy.physicalShape itemsize row column,
          (List.range (min (elementsPerC0 itemsize) (copy.validCols - column))).map
            fun position => values.value row (column + position)⟩ : Segment)).flatMap
        Segment.elements := by
    intro row
    have pieces := flatMap_range_blocks (ceilDiv copy.validCols (elementsPerC0 itemsize))
      (elementsPerC0 itemsize) copy.validCols (values.value row)
    have reached : copy.validCols ≤
        ceilDiv copy.validCols (elementsPerC0 itemsize) * elementsPerC0 itemsize :=
      le_roundUp (elementsPerC0_pos valid)
    rw [Nat.min_eq_right reached] at pieces
    rw [← pieces, bandStarts, List.map_map, List.flatMap_map]
    rfl
  unfold flattened rebasedSegments
  rw [window.rows, window.cols, List.flatMap_assoc]
  exact List.flatMap_congr fun row _ => wholeRow row

/-- The rebased path puts each element where zN puts it. -/
theorem place_rebased (valid : ValidItemsize itemsize)
    (window : WindowOf copy itemsize values) (itemsizeIs : region.itemsize = itemsize)
    (isRebased : copy.destination =
      .rebased (rebasedRegions region base copy.validRows copy.validCols copy.physicalShape
        itemsize)) :
    copy.destination.regions =
        (rebasedSegments copy itemsize values).map (segmentRegion region base) ∧
      ∀ space, copy.place allocation bindings values space =
        (rebasedSegments copy itemsize values).foldlM
          (writeSegment allocation bindings region base) space := by
  have regionsAre :
      rebasedRegions region base copy.validRows copy.validCols copy.physicalShape itemsize =
        (rebasedSegments copy itemsize values).map (segmentRegion region base) := by
    unfold rebasedRegions rebasedSegments
    rw [List.map_flatMap]
    refine List.flatMap_congr fun row _ => ?_
    rw [List.map_map]
    refine List.map_congr_left fun column _ => ?_
    change _ = region.segment _ _
    rw [List.length_map, List.length_range, itemsizeIs]
  constructor
  · rw [isRebased]
    exact regionsAre
  · intro space
    have elementsAre := flattened_eq_pieces valid window
    unfold ZnCopy.place writeRebased
    simp only [isRebased]
    rw [regionsAre, foldlM_pieces _ _ _ (by rw [List.drop_zero]; exact elementsAre), bind_assoc]
    simp only [pure_bind, Nat.zero_add, elementsAre, ne_eq, not_true_eq_false, if_false]
    exact bind_pure _

end Paths

/-! ## Which segments fit -/

section Fit

variable {copy : ZnCopy} {allocation : MemoryAllocation} {base itemsize : Nat}
  {values : Tile (List UInt8)}

theorem tileSegments_fit :
    (∀ segment ∈ tileSegments copy itemsize values, Fits allocation base itemsize segment) ↔
      base + storageElements .zN copy.physicalShape itemsize * itemsize ≤ allocation.sizeBytes := by
  rw [tileSegments, List.forall_mem_singleton, Fits, Nat.zero_add, length_packedElements]

/-- The spliced segments fit if the written rows do. -/
theorem spliceSegments_fit {writtenRows : Nat} (valid : ValidItemsize itemsize)
    (wholeRows : 16 ∣ writtenRows) (wholeBands : elementsPerC0 itemsize ∣ copy.physicalCols)
    (someBands : 0 < copy.physicalCols / elementsPerC0 itemsize) :
    (∀ segment ∈ spliceSegments copy itemsize writtenRows values,
        Fits allocation base itemsize segment) ↔
      base + ((copy.physicalCols / elementsPerC0 itemsize - 1) *
          (copy.physicalRows * elementsPerC0 itemsize) +
        writtenRows * elementsPerC0 itemsize) * itemsize ≤ allocation.sizeBytes := by
  unfold spliceSegments
  rw [List.forall_mem_map]
  constructor
  · intro fit
    have last := fit _ (List.mem_range.mpr (Nat.sub_one_lt_of_lt someBands))
    rw [Fits, length_band valid wholeRows wholeBands (Nat.sub_one_lt_of_lt someBands)] at last
    exact last
  · intro lastFits band inBands
    rw [Fits, length_band valid wholeRows wholeBands (List.mem_range.mp inBands)]
    refine le_trans (Nat.add_le_add_left (Nat.mul_le_mul_right _ (Nat.add_le_add_right
      (Nat.mul_le_mul_right _ ?_) _)) _) lastFits
    exact Nat.le_sub_one_of_lt (List.mem_range.mp inBands)

theorem rebasedSegments_ne_nil (valid : ValidItemsize itemsize)
    (window : WindowOf copy itemsize values) (inRows : copy.validRows ≤ copy.physicalRows)
    (inCols : copy.validCols ≤ copy.physicalCols) :
    rebasedSegments copy itemsize values ≠ [] ↔ 0 < copy.validRows ∧ 0 < copy.validCols := by
  constructor
  · intro some
    obtain ⟨segment, member⟩ := List.exists_mem_of_ne_nil _ some
    obtain ⟨row, inWindow, inRow⟩ := List.mem_flatMap.mp member
    obtain ⟨column, isStart, _⟩ := List.mem_map.mp inRow
    refine ⟨Nat.zero_lt_of_lt (List.mem_range.mp inWindow), Nat.pos_of_ne_zero fun none => ?_⟩
    rw [none, bandStarts, ceilDiv, Nat.zero_add,
      Nat.div_eq_of_lt (Nat.sub_one_lt_of_lt (elementsPerC0_pos valid))] at isStart
    cases isStart
  · rintro ⟨someRows, someCols⟩
    obtain ⟨segment, member, _⟩ :=
      (places_rebased valid window inRows inCols).covers 0 someRows 0 someCols
    exact List.ne_nil_of_mem member

/-- The rebased segments fit if the last element does. -/
theorem rebasedSegments_fit (valid : ValidItemsize itemsize)
    (window : WindowOf copy itemsize values) (inRows : copy.validRows ≤ copy.physicalRows)
    (inCols : copy.validCols ≤ copy.physicalCols) (someRows : 0 < copy.validRows)
    (someCols : 0 < copy.validCols) :
    (∀ segment ∈ rebasedSegments copy itemsize values, Fits allocation base itemsize segment) ↔
      base + (elementOffset .zN copy.physicalShape itemsize (copy.validRows - 1)
        (copy.validCols - 1) + 1) * itemsize ≤ allocation.sizeBytes := by
  constructor
  · intro fit
    obtain ⟨segment, member, index, isElement, isOffset⟩ :=
      (places_rebased valid window inRows inCols).covers (copy.validRows - 1)
        (Nat.sub_one_lt_of_lt someRows) (copy.validCols - 1) (Nat.sub_one_lt_of_lt someCols)
    obtain ⟨inside, _⟩ := List.getElem?_eq_some_iff.mp isElement
    rw [← isOffset]
    exact le_trans (Nat.add_le_add_left (Nat.mul_le_mul_right _ (Nat.add_le_add_left inside _)) _)
      (fit segment member)
  · intro lastFits segment member
    obtain ⟨row, inWindow, inRow⟩ := List.mem_flatMap.mp member
    obtain ⟨column, isStart, rfl⟩ := List.mem_map.mp inRow
    obtain ⟨band, inBands, rfl⟩ := List.mem_map.mp isStart
    have c0Positive := elementsPerC0_pos valid
    have started : band * elementsPerC0 itemsize < copy.validCols := by
      have bound := Nat.mul_le_mul_right (elementsPerC0 itemsize) (List.mem_range.mp inBands)
      rw [Nat.succ_mul] at bound
      have padded := Nat.div_mul_le_self (copy.validCols + elementsPerC0 itemsize - 1)
        (elementsPerC0 itemsize)
      rw [ceilDiv] at bound
      omega
    have inPiece : min (elementsPerC0 itemsize)
        (copy.validCols - band * elementsPerC0 itemsize) - 1 <
          min (elementsPerC0 itemsize) (copy.validCols - band * elementsPerC0 itemsize) := by
      omega
    have before : elementOffset .zN copy.physicalShape itemsize row
        (band * elementsPerC0 itemsize) +
          min (elementsPerC0 itemsize) (copy.validCols - band * elementsPerC0 itemsize) ≤
        elementOffset .zN copy.physicalShape itemsize (copy.validRows - 1)
          (copy.validCols - 1) + 1 := by
      have someShape : 0 < copy.physicalShape.rows := someRows.trans_le inRows
      have ordered := elementOffset_zN_mono valid someShape
        (Nat.le_sub_one_of_lt (List.mem_range.mp inWindow))
        (Nat.le_sub_one_of_lt (piece_inside inPiece).2)
      rw [← offset_of_piece valid inPiece] at ordered
      omega
    rw [Fits, List.length_map, List.length_range]
    exact le_trans (Nat.add_le_add_left (Nat.mul_le_mul_right _ before) _) lastFits

end Fit

end TilelangAscend.Simulator.Bridge
