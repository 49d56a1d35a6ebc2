import TilelangAscend.ZnCopies

namespace TilelangAscend.Simulator.Bridge

open ExceptRules (exceptBind_eq_ok exceptGuard_eq_ok)
open IndexRanges (indices)
open Memory
open TileArrays (Tile block block_flatMap flatMap_range_blocks)

/-!
# Where copies from GM to L1 in zN put their elements

On each of its paths a copy writes segments of the physical tile that do not overlap, and every
element of the window is in one of them at the offset that the layout gives it.  The copy
therefore succeeds exactly if the segments lie in the allocation and there are any.
-/

/-! ## One segment -/

section Writes

variable {allocation : MemoryAllocation} {bindings : String → Option Int}
  {region : RuntimeRegion} {base : Nat}

theorem resolve_segment (region : RuntimeRegion) (bindings : String → Option Int)
    (extent byteOffset : Nat) :
    ∃ concrete, (region.segment extent byteOffset).resolve bindings = some concrete ∧
      IsLinear concrete extent ∧ concrete.byteOffset = byteOffset ∧
      concrete.dtype = region.dtype := by
  have shape : (region.segment extent byteOffset).shape.mapM (evaluateNat bindings) =
      some [extent] := by
    simp only [RuntimeRegion.segment, List.mapM_cons, List.mapM_nil, evaluateNat_ofNat,
      Option.pure_def, Option.bind_eq_bind, Option.bind_some]
  obtain ⟨concrete, resolved, shapeIs, offsetIs, stridesAre, dtypeIs⟩ :=
    RuntimeRegion.exists_resolve shape (evaluateNat_ofNat bindings byteOffset) rfl
      fun strided => by cases strided
  exact ⟨concrete, resolved, ⟨shapeIs, stridesAre⟩, offsetIs, dtypeIs⟩

/-- The region of a segment of a tile at a byte offset of its buffer. -/
def segmentRegion (region : RuntimeRegion) (base : Nat) (segment : Segment) : RuntimeRegion :=
  region.segment segment.elements.length (base + segment.start * region.itemsize)

/-- Write a segment. -/
def writeSegment (allocation : MemoryAllocation) (bindings : String → Option Int)
    (region : RuntimeRegion) (base : Nat) (space : AddressSpace) (segment : Segment) :
    Except CopyFailure AddressSpace :=
  writeRegion allocation bindings space (segmentRegion region base segment, segment.elements)

/-- A segment whose elements are as wide as those of the region. -/
def Uniform (itemsize : Nat) (segment : Segment) : Prop :=
  ∀ element ∈ segment.elements, element.length = itemsize

/-- A segment that lies in the allocation. -/
def Fits (allocation : MemoryAllocation) (base itemsize : Nat) (segment : Segment) : Prop :=
  base + (segment.start + segment.elements.length) * itemsize ≤ allocation.sizeBytes

theorem writeSegment_eq (region : RuntimeRegion) (bindings : String → Option Int)
    {segment : Segment} (uniform : Uniform region.itemsize segment) (space : AddressSpace) :
    (Fits allocation base region.itemsize segment →
      ∃ after, writeSegment allocation bindings region base space segment = .ok after ∧
        segment.Stored (allocation.address + base) region.itemsize after ∧
        Unchanged [segment.range (allocation.address + base) region.itemsize] space after) ∧
      ∀ after, writeSegment allocation bindings region base space segment = .ok after →
        Fits allocation base region.itemsize segment := by
  obtain ⟨concrete, resolved, linear, offsetIs, dtypeIs⟩ :=
    resolve_segment region bindings segment.elements.length (base + segment.start * region.itemsize)
  have itemsizeIs : concrete.itemsize = region.itemsize := by
    rw [BufferRegion.itemsize, dtypeIs, RuntimeRegion.itemsize]
  have widths : ∀ element ∈ segment.elements, element.length = concrete.itemsize := by
    rw [itemsizeIs]
    exact uniform
  obtain ⟨written, refused⟩ := allocation.writeElements_eq linear rfl widths space
  have fitsIff : concrete.byteOffset + segment.elements.length * concrete.itemsize ≤
      allocation.sizeBytes ↔ Fits allocation base region.itemsize segment := by
    rw [Fits, offsetIs, itemsizeIs, Nat.add_mul, Nat.add_assoc]
  have writes : writeSegment allocation bindings region base space segment =
      (allocation.writeElements concrete segment.elements space).mapError .memory := by
    unfold writeSegment writeRegion segmentRegion
    dsimp only
    rw [resolved]
  constructor
  · intro fits
    obtain ⟨after, succeeds, stored, unchanged⟩ := written (fitsIff.mpr fits)
    refine ⟨after, ?_, ?_, ?_⟩
    · rw [writes, succeeds]
      rfl
    · intro index inside
      rw [← stored index inside, MemoryAllocation.elementStart, offsetIs, itemsizeIs]
      congr 1
      rw [Nat.add_mul]
      omega
    · intro byte outside
      apply unchanged byte
      have notInRange := outside _ List.mem_cons_self
      rw [Segment.range] at notInRange
      rw [offsetIs, itemsizeIs, ← Nat.add_assoc]
      exact notInRange
  · intro after succeeds
    by_contra noRoom
    rw [writes, refused (mt fitsIff.mp noRoom)] at succeeds
    cases succeeds

end Writes

/-! ## The segments of each path -/

/-- The window that has been read for a copy. -/
structure WindowOf
    (copy : ZnCopy)
    (itemsize : Nat)
    (values : Tile (List UInt8)) :
    Prop where
  rows : values.rows = copy.validRows
  cols : values.cols = copy.validCols
  widths : ∀ row < copy.validRows, ∀ col < copy.validCols, (values.value row col).length = itemsize

/-- Segments without a common index that hold every element of a window at its offset. -/
structure Places
    (copy : ZnCopy)
    (itemsize : Nat)
    (values : Tile (List UInt8))
    (segments : List Segment) :
    Prop where
  uniform : ∀ segment ∈ segments, Uniform itemsize segment
  apart : segments.Pairwise Segment.Apart
  covers : ∀ row < copy.validRows, ∀ col < copy.validCols, ∃ segment ∈ segments, ∃ index,
    segment.elements[index]? = some (values.value row col) ∧
      segment.start + index = elementOffset .zN copy.physicalShape itemsize row col

section Segments

variable {copy : ZnCopy} {itemsize : Nat} {values : Tile (List UInt8)}

theorem length_padded (window : WindowOf copy itemsize values) (row col : Nat) :
    (padded values itemsize row col).length = itemsize := by
  unfold padded
  split
  · rename_i inside
    rw [window.rows, window.cols] at inside
    exact window.widths row inside.1 col inside.2
  · exact List.length_replicate

variable {row col writtenRows band position : Nat}

theorem padded_inside (window : WindowOf copy itemsize values)
    (rowInside : row < copy.validRows) (colInside : col < copy.validCols) :
    padded values itemsize row col = values.value row col := by
  rw [← window.rows] at rowInside
  rw [← window.cols] at colInside
  exact if_pos ⟨rowInside, colInside⟩

theorem length_packedElements (shape : MatrixShape) (itemsize : Nat) (values : Tile (List UInt8)) :
    (packedElements shape itemsize values).length = storageElements .zN shape itemsize := by
  rw [packedElements, List.length_map, List.length_range]

theorem uniform_packedElements {shape : MatrixShape} (valid : ValidItemsize itemsize)
    (window : WindowOf copy itemsize values) :
    ∀ element ∈ packedElements shape itemsize values, element.length = itemsize := by
  let _ : Zero (List UInt8) := ⟨List.replicate itemsize 0⟩
  intro element member
  obtain ⟨index, _, rfl⟩ := List.mem_map.mp member
  by_cases holds : ∃ row col, row < shape.rows ∧ col < shape.cols ∧
      elementOffset .zN shape itemsize row col = index
  · obtain ⟨row, col, rowInside, colInside, rfl⟩ := holds
    rw [packMatrix_offset valid rowInside colInside]
    exact length_padded window row col
  · rw [packMatrix_padding fun row col rowInside colInside isOffset =>
      holds ⟨row, col, rowInside, colInside, isOffset⟩]
    exact List.length_replicate

theorem getElem?_packedElements (shape : MatrixShape) (valid : ValidItemsize itemsize)
    (window : WindowOf copy itemsize values) (rowInside : row < copy.validRows)
    (colInside : col < copy.validCols) (inRows : copy.validRows ≤ shape.rows)
    (inCols : copy.validCols ≤ shape.cols) :
    (packedElements shape itemsize values)[elementOffset .zN shape itemsize row col]? =
      some (values.value row col) := by
  let _ : Zero (List UInt8) := ⟨List.replicate itemsize 0⟩
  have inStorage : elementOffset .zN shape itemsize row col <
      storageElements .zN shape itemsize :=
    elementOffset_lt .zN valid (by omega) (by omega)
  rw [packedElements, List.getElem?_map, List.getElem?_range inStorage, Option.map_some,
    packMatrix_offset valid (by omega) (by omega), padded_inside window rowInside colInside]

/-- The segment of the full path. -/
def tileSegments (copy : ZnCopy) (itemsize : Nat) (values : Tile (List UInt8)) : List Segment :=
  [⟨0, packedElements copy.physicalShape itemsize values⟩]

theorem places_tile
    (valid : ValidItemsize itemsize)
    (window : WindowOf copy itemsize values)
    (inRows : copy.validRows ≤ copy.physicalRows)
    (inCols : copy.validCols ≤ copy.physicalCols) :
    Places copy itemsize values (tileSegments copy itemsize values) where
  uniform := by
    intro segment member
    obtain rfl := List.mem_singleton.mp member
    exact uniform_packedElements valid window
  apart := List.pairwise_singleton _ _
  covers := by
    intro row rowInside col colInside
    exact ⟨_, List.mem_cons_self, _,
      getElem?_packedElements copy.physicalShape valid window rowInside colInside inRows inCols,
      Nat.zero_add _⟩

/-- The segments of the spliced path, one for each band. -/
def spliceSegments (copy : ZnCopy) (itemsize writtenRows : Nat)
    (values : Tile (List UInt8)) : List Segment :=
  (List.range (copy.physicalCols / elementsPerC0 itemsize)).map fun band =>
    ⟨band * (copy.physicalRows * elementsPerC0 itemsize),
      block (writtenRows * elementsPerC0 itemsize)
        (packedElements ⟨writtenRows, copy.physicalCols⟩ itemsize values) band⟩

theorem length_packedRows (valid : ValidItemsize itemsize) (wholeRows : 16 ∣ writtenRows)
    (wholeBands : elementsPerC0 itemsize ∣ copy.physicalCols) :
    (packedElements ⟨writtenRows, copy.physicalCols⟩ itemsize values).length =
      copy.physicalCols / elementsPerC0 itemsize * (writtenRows * elementsPerC0 itemsize) := by
  obtain ⟨bands, bandsAre⟩ := wholeBands
  have c0Positive := elementsPerC0_pos valid
  rw [length_packedElements]
  change roundUp writtenRows 16 * roundUp copy.physicalCols (elementsPerC0 itemsize) = _
  rw [roundUp_of_dvd (by decide) wholeRows, roundUp_of_dvd c0Positive ⟨bands, bandsAre⟩, bandsAre,
    Nat.mul_div_cancel_left _ c0Positive]
  ring

theorem length_band (valid : ValidItemsize itemsize) (wholeRows : 16 ∣ writtenRows)
    (wholeBands : elementsPerC0 itemsize ∣ copy.physicalCols)
    (inBands : band < copy.physicalCols / elementsPerC0 itemsize) :
    (block (writtenRows * elementsPerC0 itemsize)
      (packedElements ⟨writtenRows, copy.physicalCols⟩ itemsize values) band).length =
        writtenRows * elementsPerC0 itemsize := by
  have bound := Nat.mul_le_mul_right (writtenRows * elementsPerC0 itemsize) inBands
  rw [Nat.succ_mul] at bound
  rw [block, List.length_take, List.length_drop, length_packedRows valid wholeRows wholeBands]
  omega

theorem places_splice
    (valid : ValidItemsize itemsize)
    (window : WindowOf copy itemsize values)
    (wholeRows : 16 ∣ writtenRows)
    (wholePhysical : 16 ∣ copy.physicalRows)
    (wholeBands : elementsPerC0 itemsize ∣ copy.physicalCols)
    (inWritten : copy.validRows ≤ writtenRows)
    (inRows : writtenRows ≤ copy.physicalRows)
    (inCols : copy.validCols ≤ copy.physicalCols) :
    Places copy itemsize values (spliceSegments copy itemsize writtenRows values) where
  uniform := by
    intro segment member element inSegment
    obtain ⟨band, _, rfl⟩ := List.mem_map.mp member
    exact uniform_packedElements valid window element
      (List.mem_of_mem_drop (List.mem_of_mem_take inSegment))
  apart := by
    refine List.pairwise_map.mpr (List.pairwise_lt_range.imp_of_mem ?_)
    intro first second inFirst inSecond before left leftInside right rightInside
    dsimp only at leftInside ⊢
    rw [length_band valid wholeRows wholeBands (List.mem_range.mp inFirst)] at leftInside
    have inBand : writtenRows * elementsPerC0 itemsize ≤
        copy.physicalRows * elementsPerC0 itemsize :=
      Nat.mul_le_mul_right _ inRows
    have ordered := Nat.mul_le_mul_right (copy.physicalRows * elementsPerC0 itemsize) before
    rw [Nat.succ_mul] at ordered
    omega
  covers := by
    intro row rowInside col colInside
    have c0Positive := elementsPerC0_pos valid
    have inBands : col / elementsPerC0 itemsize < copy.physicalCols / elementsPerC0 itemsize := by
      rw [Nat.div_lt_iff_lt_mul c0Positive, Nat.div_mul_cancel wholeBands]
      omega
    have inBand : elementsPerC0 itemsize * row + col % elementsPerC0 itemsize <
        writtenRows * elementsPerC0 itemsize :=
      block_lt (Nat.mod_lt col c0Positive) (rowInside.trans_le inWritten)
    refine ⟨_, List.mem_map_of_mem (List.mem_range.mpr inBands),
      elementsPerC0 itemsize * row + col % elementsPerC0 itemsize, ?_, ?_⟩
    · have inTile := getElem?_packedElements ⟨writtenRows, copy.physicalCols⟩ valid
        window rowInside colInside inWritten inCols
      rw [elementOffset_zN valid, roundUp_of_dvd (by decide) wholeRows] at inTile
      dsimp only
      rw [block, List.getElem?_take_of_lt inBand, List.getElem?_drop, ← inTile]
      congr 1
      ring
    · rw [elementOffset_zN valid]
      change _ = elementsPerC0 itemsize *
        (row + col / elementsPerC0 itemsize * roundUp copy.physicalRows 16) + _
      rw [roundUp_of_dvd (by decide) wholePhysical]
      ring

/-- The segments of the rebased path, one for each row and band of the window. -/
def rebasedSegments (copy : ZnCopy) (itemsize : Nat) (values : Tile (List UInt8)) : List Segment :=
  (List.range copy.validRows).flatMap fun row =>
    (bandStarts copy.validCols (elementsPerC0 itemsize)).map fun column =>
      ⟨elementOffset .zN copy.physicalShape itemsize row column,
        (List.range (min (elementsPerC0 itemsize) (copy.validCols - column))).map fun position =>
          values.value row (column + position)⟩

theorem offset_of_piece (valid : ValidItemsize itemsize)
    (inside : position <
      min (elementsPerC0 itemsize) (copy.validCols - band * elementsPerC0 itemsize)) :
    elementOffset .zN copy.physicalShape itemsize row (band * elementsPerC0 itemsize) + position =
      elementOffset .zN copy.physicalShape itemsize row
        (band * elementsPerC0 itemsize + position) := by
  have inBand : band * elementsPerC0 itemsize % elementsPerC0 itemsize + position <
      elementsPerC0 itemsize := by
    rw [Nat.mul_mod_left]
    omega
  have shifted : elementOffset .zN copy.physicalShape itemsize (row + 0)
      (band * elementsPerC0 itemsize + position) =
        elementOffset .zN copy.physicalShape itemsize row (band * elementsPerC0 itemsize) +
          0 * elementsPerC0 itemsize + position :=
    elementOffset_zN_shift valid inBand
  rw [Nat.zero_mul, Nat.add_zero, Nat.add_zero] at shifted
  exact shifted.symm

theorem piece_inside
    (inside : position <
      min (elementsPerC0 itemsize) (copy.validCols - band * elementsPerC0 itemsize)) :
    position < elementsPerC0 itemsize ∧
      band * elementsPerC0 itemsize + position < copy.validCols := by
  omega

theorem piece_inj {otherRow otherBand otherPosition : Nat}
    (valid : ValidItemsize itemsize) (inRows : copy.validRows ≤ copy.physicalRows)
    (inCols : copy.validCols ≤ copy.physicalCols) (rowInside : row < copy.validRows)
    (otherRowInside : otherRow < copy.validRows)
    (inside : position <
      min (elementsPerC0 itemsize) (copy.validCols - band * elementsPerC0 itemsize))
    (otherInside : otherPosition <
      min (elementsPerC0 itemsize) (copy.validCols - otherBand * elementsPerC0 itemsize))
    (same :
      elementOffset .zN copy.physicalShape itemsize row (band * elementsPerC0 itemsize) +
          position =
        elementOffset .zN copy.physicalShape itemsize otherRow
          (otherBand * elementsPerC0 itemsize) + otherPosition) :
    row = otherRow ∧
      band * elementsPerC0 itemsize + position =
        otherBand * elementsPerC0 itemsize + otherPosition := by
  rw [offset_of_piece valid inside, offset_of_piece valid otherInside] at same
  exact elementOffset_inj .zN valid (rowInside.trans_le inRows)
    ((piece_inside inside).2.trans_le inCols) (otherRowInside.trans_le inRows)
    ((piece_inside otherInside).2.trans_le inCols) same

theorem places_rebased
    (valid : ValidItemsize itemsize)
    (window : WindowOf copy itemsize values)
    (inRows : copy.validRows ≤ copy.physicalRows)
    (inCols : copy.validCols ≤ copy.physicalCols) :
    Places copy itemsize values (rebasedSegments copy itemsize values) where
  uniform := by
    intro segment member element inSegment
    obtain ⟨row, inWindow, inRow⟩ := List.mem_flatMap.mp member
    obtain ⟨column, isStart, rfl⟩ := List.mem_map.mp inRow
    obtain ⟨band, _, rfl⟩ := List.mem_map.mp isStart
    obtain ⟨position, inPiece, rfl⟩ := List.mem_map.mp inSegment
    exact window.widths row (List.mem_range.mp inWindow) _
      (piece_inside (List.mem_range.mp inPiece)).2
  apart := by
    refine List.pairwise_flatMap.mpr ⟨fun row inWindow => ?_, ?_⟩
    · refine List.pairwise_map.mpr (List.pairwise_map.mpr (List.pairwise_lt_range.imp ?_))
      intro band otherBand before position inside otherPosition otherInside same
      simp only [List.length_map, List.length_range] at inside otherInside
      obtain ⟨_, sameCol⟩ := piece_inj valid inRows inCols (List.mem_range.mp inWindow)
        (List.mem_range.mp inWindow) inside otherInside same
      have ordered := Nat.mul_le_mul_right (elementsPerC0 itemsize) before
      rw [Nat.succ_mul] at ordered
      have inBand := (piece_inside inside).1
      omega
    · refine List.pairwise_lt_range.imp_of_mem ?_
      intro row otherRow inWindow otherInWindow before segment member other otherMember position
        inside otherPosition otherInside same
      obtain ⟨column, isStart, rfl⟩ := List.mem_map.mp member
      obtain ⟨band, _, rfl⟩ := List.mem_map.mp isStart
      obtain ⟨otherColumn, otherIsStart, rfl⟩ := List.mem_map.mp otherMember
      obtain ⟨otherBand, _, rfl⟩ := List.mem_map.mp otherIsStart
      simp only [List.length_map, List.length_range] at inside otherInside
      obtain ⟨sameRow, _⟩ := piece_inj valid inRows inCols (List.mem_range.mp inWindow)
        (List.mem_range.mp otherInWindow) inside otherInside same
      exact absurd sameRow (Nat.ne_of_lt before)
  covers := by
    intro row rowInside col colInside
    have c0Positive := elementsPerC0_pos valid
    have division := Nat.div_add_mod' col (elementsPerC0 itemsize)
    have remainder := Nat.mod_lt col c0Positive
    have inPiece : col % elementsPerC0 itemsize < min (elementsPerC0 itemsize)
        (copy.validCols - col / elementsPerC0 itemsize * elementsPerC0 itemsize) := by
      omega
    have isStart : col / elementsPerC0 itemsize * elementsPerC0 itemsize ∈
        bandStarts copy.validCols (elementsPerC0 itemsize) :=
      List.mem_map_of_mem (List.mem_range.mpr (div_lt_ceilDiv c0Positive colInside))
    refine ⟨_, List.mem_flatMap.mpr ⟨row, List.mem_range.mpr rowInside,
      List.mem_map_of_mem isStart⟩, col % elementsPerC0 itemsize, ?_, ?_⟩
    · dsimp only
      rw [List.getElem?_map, List.getElem?_range inPiece, Option.map_some, division]
    · dsimp only
      rw [offset_of_piece valid inPiece, division]

end Segments

/-! ## What a copy leaves in memory -/

/--
Every element of a window is at its offset of the physical tile at a byte offset of the
destination, and no byte outside the regions of the copy has changed.
-/
structure Placed
    (copy : ZnCopy)
    (allocation : MemoryAllocation)
    (bindings : String → Option Int)
    (base : Nat)
    (values : Tile (List UInt8))
    (before after : AddressSpace) :
    Prop where
  stored : ∀ row < copy.validRows, ∀ col < copy.validCols,
    elementBytes after.data copy.src.itemsize
        (allocation.address + base +
          elementOffset .zN copy.physicalShape copy.src.itemsize row col * copy.src.itemsize) =
      values.value row col
  unchanged : ∀ byte,
    (∀ region ∈ copy.destination.regions, ∀ concrete view,
      region.resolve bindings = some concrete → allocation.resolveRegion concrete = .ok view →
        byte ∉ view.bytes) →
    after.data byte = before.data byte ∧ after.initialized byte = before.initialized byte

section Runs

variable {copy : ZnCopy} {allocation : MemoryAllocation} {bindings : String → Option Int}
  {region : RuntimeRegion} {base : Nat} {values : Tile (List UInt8)} {segments : List Segment}

theorem view_of_segment (region : RuntimeRegion) (bindings : String → Option Int)
    {segment : Segment} (fits : Fits allocation base region.itemsize segment) :
    ∃ concrete view, (segmentRegion region base segment).resolve bindings = some concrete ∧
      allocation.resolveRegion concrete = .ok view ∧
      view.bytes = indices (segment.range (allocation.address + base) region.itemsize) := by
  obtain ⟨concrete, resolved, linear, offsetIs, dtypeIs⟩ :=
    resolve_segment region bindings segment.elements.length (base + segment.start * region.itemsize)
  have itemsizeIs : concrete.itemsize = region.itemsize := by
    rw [BufferRegion.itemsize, dtypeIs, RuntimeRegion.itemsize]
  have inside : concrete.byteOffset + segment.elements.length * concrete.itemsize ≤
      allocation.sizeBytes := by
    rw [Fits, Nat.add_mul, ← Nat.add_assoc] at fits
    rw [offsetIs, itemsizeIs]
    exact fits
  refine ⟨concrete, allocation.linearView concrete linear, resolved, ?_, ?_⟩
  · rw [MemoryAllocation.resolveRegion_linear linear, if_pos inside]
  · rw [MemoryAllocation.bytes_linearView, offsetIs, itemsizeIs, Segment.range, ← Nat.add_assoc]

/-- A copy whose regions and whose loop are those of segments that hold its window. -/
structure Through
    (copy : ZnCopy)
    (allocation : MemoryAllocation)
    (bindings : String → Option Int)
    (region : RuntimeRegion)
    (base : Nat)
    (values : Tile (List UInt8))
    (segments : List Segment) :
    Prop where
  places : Places copy copy.src.itemsize values segments
  itemsizeIs : region.itemsize = copy.src.itemsize
  regionsAre : copy.destination.regions = segments.map (segmentRegion region base)
  runs : ∀ space, copy.place allocation bindings values space =
    segments.foldlM (writeSegment allocation bindings region base) space

namespace Through

variable {source : MemoryAllocation} {mode : HazardMode} {gm l1 : AddressSpace}

section

variable (through : Through copy allocation bindings region base values segments)
include through

theorem run_eq (read : readRegion source mode gm bindings copy.src = .ok values) :
    copy.run source allocation mode bindings gm l1 =
      if segments = [] then
        .error .noDestination
      else
        segments.foldlM (writeSegment allocation bindings region base) l1 := by
  have noRegions : copy.destination.regions = [] ↔ segments = [] := by
    rw [through.regionsAre, List.map_eq_nil_iff]
  unfold ZnCopy.run
  by_cases none : segments = []
  · rw [if_pos none, if_pos (noRegions.mpr none)]
    rfl
  · rw [if_neg none, if_neg (mt noRegions.mp none), ← through.runs, read]
    rfl

theorem uniform : ∀ segment ∈ segments, Uniform region.itemsize segment := by
  rw [through.itemsizeIs]
  exact through.places.uniform

/-- A copy that succeeds has segments that fit. -/
theorem fits_of_run (read : readRegion source mode gm bindings copy.src = .ok values)
    {after : AddressSpace} (run : copy.run source allocation mode bindings gm l1 = .ok after) :
    segments ≠ [] ∧ ∀ segment ∈ segments, Fits allocation base copy.src.itemsize segment := by
  rw [through.run_eq read] at run
  split at run
  · cases run
  · rename_i some
    refine ⟨some, fun segment member => ?_⟩
    obtain ⟨before, next, written⟩ := exists_write_of_foldlM run member
    rw [← through.itemsizeIs]
    exact (writeSegment_eq region bindings (through.uniform segment member) before).2 next written

/-- A copy whose segments fit succeeds and places the window. -/
theorem placed_of_fits (read : readRegion source mode gm bindings copy.src = .ok values)
    (some : segments ≠ [])
    (fit : ∀ segment ∈ segments, Fits allocation base copy.src.itemsize segment) :
    ∃ after, copy.run source allocation mode bindings gm l1 = .ok after ∧
      Placed copy allocation bindings base values l1 after := by
  rw [← through.itemsizeIs] at fit
  rw [through.run_eq read, if_neg some]
  obtain ⟨after, run, stored, unchanged⟩ :=
    foldlM_writes id
      (fun segment member space =>
        (writeSegment_eq region bindings (through.uniform segment member) space).1
          (fit segment member))
      through.places.apart l1
  refine ⟨after, run, fun row rowInside col colInside => ?_, fun byte outside => ?_⟩
  · obtain ⟨segment, member, index, isElement, isOffset⟩ :=
      through.places.covers row rowInside col colInside
    obtain ⟨inside, isValue⟩ := List.getElem?_eq_some_iff.mp isElement
    have inPlace := stored segment member index inside
    dsimp only [id] at inPlace
    rw [isOffset, isValue, through.itemsizeIs] at inPlace
    exact inPlace
  · refine unchanged byte fun range isRange => ?_
    obtain ⟨segment, member, rfl⟩ := List.mem_map.mp isRange
    obtain ⟨concrete, view, resolved, viewed, bytesAre⟩ :=
      view_of_segment region bindings (fit segment member)
    rw [id, ← bytesAre]
    refine outside _ ?_ concrete view resolved viewed
    rw [through.regionsAre]
    exact List.mem_map_of_mem member

/-- A copy places its window exactly if there are segments and they fit. -/
theorem placed_iff (read : readRegion source mode gm bindings copy.src = .ok values) :
    (∃ after, copy.run source allocation mode bindings gm l1 = .ok after ∧
      Placed copy allocation bindings base values l1 after) ↔
      segments ≠ [] ∧ ∀ segment ∈ segments, Fits allocation base copy.src.itemsize segment := by
  constructor
  · rintro ⟨after, run, _⟩
    exact through.fits_of_run read run
  · rintro ⟨some, fit⟩
    exact through.placed_of_fits read some fit

end

end Through

end Runs

end TilelangAscend.Simulator.Bridge
