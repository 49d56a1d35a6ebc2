import Mathlib
import TilelangAscend.IntervalCover

namespace TilelangAscend.Simulator

open IntervalCover

/-!
# Buffer regions and their overlap

Typed, optionally strided views of simulator buffers, and the overlap test of the TIR bridge.
The test compares bounding intervals first and expands strided views into byte intervals when
that is possible.  It may report an overlap of views that share no byte, but it never misses
one.  Extents, strides and offsets are the concrete integers of a task operand.
-/

/-- Memory scopes planned for A2/A3. -/
inductive MemoryScope where
  | gm
  | workspace
  | l1
  | l0a
  | l0b
  | l0c
  | ub
  | bt
  | localScope
  deriving Repr, DecidableEq

/-- Scopes that all cores share. -/
def MemoryScope.isShared : MemoryScope → Bool
  | .gm => true
  | .workspace => true
  | _ => false

/-- Element types that `dtype_size_bytes` accepts: whole bytes, possibly in lanes. -/
inductive DType where
  | bool
  | numeric (bits lanes : Nat) (wholeBytes : 0 < bits ∧ bits % 8 = 0)
  deriving Repr, DecidableEq

theorem wholeBytes_8 : 0 < 8 ∧ 8 % 8 = 0 := by decide

theorem wholeBytes_16 : 0 < 16 ∧ 16 % 8 = 0 := by decide

theorem wholeBytes_32 : 0 < 32 ∧ 32 % 8 = 0 := by decide

/-- `dtype_size_bytes`: the byte width of one element. -/
def dtypeSizeBytes : DType → Nat
  | .bool => 1
  | .numeric bits lanes _ => bits / 8 * lanes

/-- `contiguous_strides_bytes`: the C-contiguous byte strides of a shape. -/
def contiguousStridesBytes (shape : List Nat) (itemsize : Nat) : List Nat :=
  (shape.foldr
    (fun extent (state : Nat × List Nat) => (state.1 * extent, state.1 :: state.2))
    (itemsize, [])).2

/-- Declared buffers as far as the overlap tests read them; a symbolic extent is `none`. -/
structure BufferSpec where
  shape : List (Option Nat)
  dtype : DType
  sizeBytes : Option Nat := none
  address : Option Nat := none
  deriving Repr, DecidableEq

theorem noStrides_rank (length : Nat) :
    ∀ strides ∈ (none : Option (List Nat)), strides.length = [length].length := by
  simp

/-- A typed, optionally strided region of a buffer. -/
structure BufferRegion where
  buffer : String
  scope : MemoryScope
  shape : List Nat
  dtype : DType
  byteOffset : Nat := 0
  stridesBytes : Option (List Nat) := none
  coreId : Option Nat := none
  stridesRank : ∀ strides ∈ stridesBytes, strides.length = shape.length := by decide
  deriving DecidableEq

/-- Expanding a region of rank zero reads the last entry of an empty shape. -/
inductive RegionError where
  | indexError
  deriving Repr, DecidableEq

namespace BufferRegion

/-- The core that owns a region. -/
def owner (region : BufferRegion) (coreId : Nat) : Nat :=
  region.coreId.getD coreId

/-- The byte width of one element. -/
def itemsize (region : BufferRegion) : Nat :=
  dtypeSizeBytes region.dtype

/-- Given strides, or contiguous ones when there are none. -/
def strides (region : BufferRegion) : List Nat :=
  match region.stridesBytes with
  | none => contiguousStridesBytes region.shape region.itemsize
  | some [] => contiguousStridesBytes region.shape region.itemsize
  | some (first :: rest) => first :: rest

/-- Extents with their strides. -/
def dims (region : BufferRegion) : List (Nat × Nat) :=
  region.shape.zip region.strides

end BufferRegion

/-! ## The overlap test -/

/-- `_region_bounds`: the bounding interval of a region. -/
def regionBounds (region : BufferRegion) : Nat × Nat :=
  if region.shape.any (· = 0) then
    (region.byteOffset, region.byteOffset)
  else
    (region.byteOffset,
      region.byteOffset + (region.dims.map fun dim => (dim.1 - 1) * dim.2).sum + region.itemsize)

/-- `_MAX_INTERVAL_EXPANSION`: the largest number of outer indices that is expanded. -/
def maxIntervalExpansion : Nat := 4096

/-- Offset of a linear outer index; the dimensions are listed from the innermost one. -/
def outerBase : List (Nat × Nat) → Nat → Nat → Nat
  | [], _, base => base
  | (extent, stride) :: rest, remainder, base =>
    outerBase rest (remainder / extent) (base + remainder % extent * stride)

/-- The order in which byte intervals are sorted. -/
def intervalLe (left right : Nat × Nat) : Bool :=
  left.1 < right.1 || (left.1 = right.1 && left.2 ≤ right.2)

/--
`_region_byte_intervals`: the byte intervals of a region, one for each outer index, sorted and
merged; `none` when a stride is zero or the region is too large to expand.
-/
def regionByteIntervals (region : BufferRegion) : Except RegionError (Option (List (Nat × Nat))) :=
  if region.shape.any (· = 0) then
    .ok (some [])
  else if region.strides.any (· = 0) then
    .ok none
  else if maxIntervalExpansion < region.shape.dropLast.prod then
    .ok none
  else
    match region.dims.getLast? with
    | none => .error .indexError
    | some (extent, stride) =>
      let innerSpan := (extent - 1) * stride + region.itemsize
      let intervals :=
        (List.range region.shape.dropLast.prod).map fun linear =>
          let base := outerBase region.dims.dropLast.reverse linear region.byteOffset
          (base, base + innerSpan)
      .ok (some (merge (intervals.mergeSort intervalLe)))

/-- `_region_is_contiguous`: whether the strides of a region are the contiguous ones. -/
def regionIsContiguous (region : BufferRegion) : Bool :=
  match region.stridesBytes with
  | none => true
  | some strides => strides = contiguousStridesBytes region.shape region.itemsize

/-- Byte intervals moved by the distance of two buffers. -/
def shiftIntervals (delta : Int) (intervals : List (Nat × Nat)) : List (Int × Int) :=
  intervals.map fun interval => ((interval.1 : Int) + delta, (interval.2 : Int) + delta)

/-- `_strided_regions_disjoint`: whether two regions provably share no byte, if expanded. -/
def stridedRegionsDisjoint (left right : BufferRegion) (leftBase rightBase : Nat) :
    Except RegionError (Option Bool) :=
  match regionByteIntervals left, regionByteIntervals right with
  | .error failure, _ => .error failure
  | .ok _, .error failure => .error failure
  | .ok none, .ok _ => .ok none
  | .ok (some _), .ok none => .ok none
  | .ok (some leftIntervals), .ok (some rightIntervals) =>
    if leftIntervals.isEmpty || rightIntervals.isEmpty then
      .ok (some true)
    else
      .ok (some (sweepDisjoint (shiftIntervals 0 leftIntervals)
        (shiftIntervals ((rightBase : Int) - leftBase) rightIntervals)))

/-- `_buffer_size_bytes`: the declared or computed size of a buffer, if it is concrete. -/
def bufferSizeBytes (spec : BufferSpec) : Option Nat :=
  match spec.sizeBytes with
  | some size => some size
  | none => spec.shape.foldl
      (fun size extent => match size, extent with
        | some size, some extent => some (size * extent)
        | _, _ => none)
      (some (dtypeSizeBytes spec.dtype))

/-- Base addresses in which two regions are compared; one buffer is compared with itself. -/
def comparedBases (buffers : String → BufferSpec) (left right : BufferRegion) :
    Option (Nat × Nat) :=
  if left.buffer = right.buffer then
    some (0, 0)
  else
    match (buffers left.buffer).address, (buffers right.buffer).address with
    | some leftBase, some rightBase => some (leftBase, rightBase)
    | _, _ => none

/-- `_regions_overlap_uncached`: whether two regions may share a byte. -/
def regionsOverlap (buffers : String → BufferSpec) (coreId : Nat)
    (left right : BufferRegion) : Except RegionError Bool :=
  if left.scope ≠ right.scope then
    .ok false
  else if !left.scope.isShared && left.owner coreId ≠ right.owner coreId then
    .ok false
  else
    match comparedBases buffers left right with
    | none => .ok false
    | some (leftBase, rightBase) =>
      let leftBounds := regionBounds left
      let rightBounds := regionBounds right
      if ¬ (leftBase + leftBounds.1 < rightBase + rightBounds.2 ∧
          rightBase + rightBounds.1 < leftBase + leftBounds.2) then
        .ok false
      else if regionIsContiguous left && regionIsContiguous right then
        .ok true
      else
        match stridedRegionsDisjoint left right leftBase rightBase with
        | .error failure => .error failure
        | .ok (some disjoint) => .ok (!disjoint)
        | .ok none => .ok true

/-! ## Bytes of a region -/

/-- Offsets of the elements of a view with the given extents and strides. -/
def elementOffsets : List (Nat × Nat) → List Nat
  | [] => [0]
  | (extent, stride) :: rest =>
    (List.range extent).flatMap fun index => (elementOffsets rest).map (index * stride + ·)

/-- The bytes of a buffer that a region names. -/
def BufferRegion.bytes (region : BufferRegion) : List Nat :=
  (elementOffsets region.dims).flatMap fun offset =>
    (List.range region.itemsize).map (region.byteOffset + offset + ·)

/-- One byte of memory: at its planned address, or inside a buffer without an address. -/
inductive MemoryCell where
  | planned (address : Nat)
  | unplanned (buffer : String) (byte : Nat)
  deriving Repr, DecidableEq

/-- A byte of a scope that a core owns. -/
structure MemoryLocation where
  scope : MemoryScope
  owner : Nat
  cell : MemoryCell
  deriving Repr, DecidableEq

/-- The memory locations that a region names when a core accesses it. -/
def BufferRegion.locations (buffers : String → BufferSpec) (coreId : Nat)
    (region : BufferRegion) : List MemoryLocation :=
  region.bytes.map fun byte =>
    { scope := region.scope
      owner := region.owner coreId
      cell :=
        match (buffers region.buffer).address with
        | some address => .planned (address + byte)
        | none => .unplanned region.buffer byte }

/-- A region of a buffer with an address lies inside the size of the buffer. -/
def BufferRegion.insideBuffer (buffers : String → BufferSpec) (region : BufferRegion) : Bool :=
  match (buffers region.buffer).address, bufferSizeBytes (buffers region.buffer) with
  | none, _ => true
  | some _, none => false
  | some _, some size => region.bytes.all (· < size)

variable {offset : Nat} {intervals : List (Nat × Nat)} {left right : BufferRegion}

theorem mem_elementOffsets_append {outer inner : List (Nat × Nat)} :
    offset ∈ elementOffsets (outer ++ inner) ↔
      ∃ outerOffset ∈ elementOffsets outer,
        ∃ innerOffset ∈ elementOffsets inner, offset = outerOffset + innerOffset := by
  induction outer generalizing offset with
  | nil => simp [elementOffsets]
  | cons dim rest ih =>
    obtain ⟨extent, stride⟩ := dim
    simp only [List.cons_append, elementOffsets, List.mem_flatMap, List.mem_range, List.mem_map]
    constructor
    · rintro ⟨index, below, restOffset, member, rfl⟩
      obtain ⟨outerOffset, outerMember, innerOffset, innerMember, rfl⟩ := ih.mp member
      exact ⟨_, ⟨index, below, outerOffset, outerMember, rfl⟩, innerOffset, innerMember, by omega⟩
    · rintro ⟨_, ⟨index, below, outerOffset, outerMember, rfl⟩, innerOffset, innerMember, rfl⟩
      exact ⟨index, below, outerOffset + innerOffset,
        ih.mpr ⟨outerOffset, outerMember, innerOffset, innerMember, rfl⟩,
        by omega⟩

theorem elementOffset_le {dims : List (Nat × Nat)} (member : offset ∈ elementOffsets dims) :
    offset ≤ (dims.map fun dim => (dim.1 - 1) * dim.2).sum := by
  induction dims generalizing offset with
  | nil => simpa [elementOffsets] using member
  | cons dim rest ih =>
    obtain ⟨extent, stride⟩ := dim
    simp only [elementOffsets, List.mem_flatMap, List.mem_range, List.mem_map] at member
    obtain ⟨index, below, restOffset, restMember, rfl⟩ := member
    have inRow : index * stride ≤ (extent - 1) * stride := Nat.mul_le_mul_right stride (by omega)
    have inRest := ih restMember
    simp only [List.map_cons, List.sum_cons]
    omega

theorem extent_pos_of_mem {dims : List (Nat × Nat)}
    (member : offset ∈ elementOffsets dims) : ∀ dim ∈ dims, 0 < dim.1 := by
  induction dims generalizing offset with
  | nil => simp
  | cons dim rest ih =>
    obtain ⟨extent, stride⟩ := dim
    simp only [elementOffsets, List.mem_flatMap, List.mem_range, List.mem_map] at member
    obtain ⟨index, below, restOffset, restMember, rfl⟩ := member
    intro other otherMember
    rcases List.mem_cons.mp otherMember with isFirst | inRest
    · rw [isFirst]
      exact Nat.zero_lt_of_lt below
    · exact ih restMember other inRest

theorem exists_outerBase {dims : List (Nat × Nat)} (member : offset ∈ elementOffsets dims) :
    ∃ linear < (dims.map Prod.fst).prod,
      ∀ base, outerBase dims.reverse linear base = base + offset := by
  induction dims using List.reverseRecOn generalizing offset with
  | nil =>
    simp only [elementOffsets, List.mem_singleton] at member
    exact ⟨0, by simp, fun base => by rw [member]; rfl⟩
  | append_singleton outer dim ih =>
    obtain ⟨extent, stride⟩ := dim
    obtain ⟨outerOffset, outerMember, innerOffset, innerMember, rfl⟩ :=
      mem_elementOffsets_append.mp member
    simp only [elementOffsets, List.map_cons, List.map_nil, List.mem_flatMap,
      List.mem_range, List.mem_singleton, Nat.add_zero] at innerMember
    obtain ⟨index, below, rfl⟩ := innerMember
    obtain ⟨linear, inRange, located⟩ := ih outerMember
    refine ⟨linear * extent + index, ?_, ?_⟩
    · simp only [List.map_append, List.map_cons, List.map_nil, List.prod_append,
        List.prod_singleton]
      calc linear * extent + index < linear * extent + extent := by omega
        _ = (linear + 1) * extent := by rw [Nat.succ_mul]
        _ ≤ (outer.map Prod.fst).prod * extent := Nat.mul_le_mul_right extent inRange
    · intro base
      have positive : 0 < extent := Nat.zero_lt_of_lt below
      have quotient : (linear * extent + index) / extent = linear := by
        rw [Nat.mul_comm, Nat.mul_add_div positive, Nat.div_eq_of_lt below, Nat.add_zero]
      have remainder : (linear * extent + index) % extent = index := by
        rw [Nat.mul_comm, Nat.mul_add_mod, Nat.mod_eq_of_lt below]
      simp only [List.reverse_append, List.reverse_cons, List.reverse_nil, List.nil_append,
        List.singleton_append, outerBase, quotient, remainder, located]
      omega

/-! ## The overlap test misses no byte -/

theorem contiguousStridesBytes_length (shape : List Nat) (itemsize : Nat) :
    (contiguousStridesBytes shape itemsize).length = shape.length := by
  unfold contiguousStridesBytes
  induction shape with
  | nil => rfl
  | cons extent rest ih => simp only [List.foldr_cons, List.length_cons, ih]

namespace BufferRegion

variable {buffers : String → BufferSpec} {coreId : Nat}

theorem strides_length (region : BufferRegion) : region.strides.length = region.shape.length := by
  unfold strides
  split
  · exact contiguousStridesBytes_length _ _
  · exact contiguousStridesBytes_length _ _
  · rename_i first rest given
    exact region.stridesRank _ given

theorem dims_fst (region : BufferRegion) : region.dims.map Prod.fst = region.shape :=
  List.map_fst_zip (le_of_eq region.strides_length.symm)

variable {region : BufferRegion} {byte : Nat}

theorem mem_bytes :
    byte ∈ region.bytes ↔
      ∃ offset ∈ elementOffsets region.dims,
        ∃ position < region.itemsize, byte = region.byteOffset + offset + position := by
  simp only [bytes, List.mem_flatMap, List.mem_map, List.mem_range, eq_comm]

theorem no_empty_extent (member : byte ∈ region.bytes) : region.shape.any (· = 0) = false := by
  obtain ⟨offset, inElements, _⟩ := mem_bytes.mp member
  have positive := extent_pos_of_mem inElements
  rw [List.any_eq_false]
  intro extent extentMember
  rw [← region.dims_fst] at extentMember
  obtain ⟨dim, dimMember, rfl⟩ := List.mem_map.mp extentMember
  have dimPositive := positive dim dimMember
  simp only [decide_eq_true_eq]
  omega

theorem bytes_bounded (member : byte ∈ region.bytes) :
    (regionBounds region).1 ≤ byte ∧ byte < (regionBounds region).2 := by
  obtain ⟨offset, inElements, position, below, rfl⟩ := mem_bytes.mp member
  have atMost := elementOffset_le inElements
  simp only [regionBounds, no_empty_extent member, Bool.false_eq_true, ↓reduceIte]
  omega

end BufferRegion

theorem sorted_mergeSort (intervals : List (Nat × Nat)) :
    Sorted (intervals.mergeSort intervalLe) := by
  have transitive :
      ∀ first second third : Nat × Nat, intervalLe first second = true →
        intervalLe second third = true →
        intervalLe first third = true := by
    intro first second third
    simp only [intervalLe, Bool.or_eq_true, Bool.and_eq_true, decide_eq_true_eq]
    omega
  have total :
      ∀ first second : Nat × Nat, (intervalLe first second || intervalLe second first) = true := by
    intro first second
    simp only [intervalLe, Bool.or_eq_true, Bool.and_eq_true, decide_eq_true_eq]
    omega
  refine (List.pairwise_mergeSort transitive total intervals).imp ?_
  intro first second ordered
  simp only [intervalLe, Bool.or_eq_true, Bool.and_eq_true, decide_eq_true_eq] at ordered
  omega

theorem regionByteIntervals_sound {region : BufferRegion}
    (expanded : regionByteIntervals region = .ok (some intervals)) :
    Sorted intervals ∧ ∀ byte ∈ region.bytes, Covers intervals byte := by
  unfold regionByteIntervals at expanded
  split at expanded
  · rename_i isEmpty
    simp only [Except.ok.injEq, Option.some.injEq] at expanded
    subst expanded
    refine ⟨List.Pairwise.nil, ?_⟩
    intro byte member
    rw [BufferRegion.no_empty_extent member] at isEmpty
    cases isEmpty
  · split at expanded
    · cases expanded
    · split at expanded
      · cases expanded
      · split at expanded
        · cases expanded
        · rename_i extent stride isLast
          simp only [Except.ok.injEq, Option.some.injEq] at expanded
          subst expanded
          refine ⟨merge_sorted (sorted_mergeSort _), ?_⟩
          intro byte member
          apply covers_merge (sorted_mergeSort _)
          obtain ⟨offset, inElements, position, below, rfl⟩ := BufferRegion.mem_bytes.mp member
          obtain ⟨outer, shape⟩ := List.getLast?_eq_some_iff.mp isLast
          rw [shape] at inElements
          obtain ⟨outerOffset, outerMember, innerOffset, innerMember, rfl⟩ :=
            mem_elementOffsets_append.mp inElements
          obtain ⟨linear, inRange, located⟩ := exists_outerBase outerMember
          have inRow := elementOffset_le innerMember
          simp only [List.map_cons, List.map_nil, List.sum_cons, List.sum_nil] at inRow
          have outerShape : outer.map Prod.fst = region.shape.dropLast := by
            rw [← region.dims_fst, shape, List.map_append, List.map_cons, List.map_nil,
              List.dropLast_concat]
          refine ⟨(region.byteOffset + outerOffset,
            region.byteOffset + outerOffset + ((extent - 1) * stride + region.itemsize)),
            ?_, by omega, by omega⟩
          rw [List.mem_mergeSort, List.mem_map]
          refine ⟨linear, List.mem_range.mpr (by rw [← outerShape]; exact inRange), ?_⟩
          rw [shape, List.dropLast_concat, located]

theorem shiftIntervals_sound (delta : Int) (sorted : Sorted intervals) :
    Sorted (shiftIntervals delta intervals) ∧
      ∀ point,
        Covers intervals point → Covers (shiftIntervals delta intervals) (point + delta) := by
  constructor
  · refine List.Pairwise.map _ ?_ sorted
    intro first second ordered
    simp only
    omega
  · rintro point ⟨interval, member, above, below⟩
    refine ⟨_, List.mem_map_of_mem member, ?_, ?_⟩
    · simp only
      omega
    · simp only
      omega

/-- Regions that are reported disjoint share no byte. -/
theorem stridedRegionsDisjoint_sound {leftBase rightBase leftByte rightByte : Nat}
    {disjoint : Bool}
    (compared : stridedRegionsDisjoint left right leftBase rightBase = .ok (some disjoint))
    (inLeft : leftByte ∈ left.bytes) (inRight : rightByte ∈ right.bytes)
    (same : leftBase + leftByte = rightBase + rightByte) : disjoint = false := by
  unfold stridedRegionsDisjoint at compared
  split at compared
  any_goals cases compared
  rename_i leftIntervals rightIntervals leftExpanded rightExpanded
  obtain ⟨leftSorted, leftCovers⟩ := regionByteIntervals_sound leftExpanded
  obtain ⟨rightSorted, rightCovers⟩ := regionByteIntervals_sound rightExpanded
  obtain ⟨leftInterval, leftMember, _⟩ := leftCovers leftByte inLeft
  obtain ⟨rightInterval, rightMember, _⟩ := rightCovers rightByte inRight
  have notEmpty : (leftIntervals.isEmpty || rightIntervals.isEmpty) = false := by
    rw [List.isEmpty_eq_false_iff.mpr (List.ne_nil_of_mem leftMember),
      List.isEmpty_eq_false_iff.mpr (List.ne_nil_of_mem rightMember)]
    rfl
  simp only [notEmpty, Bool.false_eq_true, ↓reduceIte, Except.ok.injEq,
    Option.some.injEq] at compared
  rw [← compared]
  obtain ⟨leftShifted, leftMoves⟩ := shiftIntervals_sound 0 leftSorted
  obtain ⟨rightShifted, rightMoves⟩ :=
    shiftIntervals_sound ((rightBase : Int) - leftBase) rightSorted
  have common : (leftByte : Int) + 0 = rightByte + ((rightBase : Int) - leftBase) := by
    omega
  refine not_sweepDisjoint leftShifted rightShifted (leftMoves _ (leftCovers _ inLeft)) ?_
  rw [common]
  exact rightMoves _ (rightCovers _ inRight)

namespace BufferRegion

variable {buffers : String → BufferSpec} {coreId : Nat} {left right : BufferRegion}
  {location : MemoryLocation} {region : BufferRegion}

theorem mem_locations :
    location ∈ region.locations buffers coreId ↔
      ∃ byte ∈ region.bytes,
        location =
          { scope := region.scope
            owner := region.owner coreId
            cell :=
              match (buffers region.buffer).address with
              | some address => .planned (address + byte)
              | none => .unplanned region.buffer byte } := by
  simp only [locations, List.mem_map, eq_comm]

theorem scope_owner_of_mem (member : location ∈ region.locations buffers coreId) :
    region.scope = location.scope ∧ region.owner coreId = location.owner := by
  obtain ⟨byte, _, rfl⟩ := mem_locations.mp member
  exact ⟨rfl, rfl⟩

/-- A common location is a common byte of two compared regions. -/
theorem common_byte (inLeft : location ∈ left.locations buffers coreId)
    (inRight : location ∈ right.locations buffers coreId) :
    ∃ leftBase rightBase,
      comparedBases buffers left right = some (leftBase, rightBase) ∧
        ∃ leftByte ∈ left.bytes,
          ∃ rightByte ∈ right.bytes, leftBase + leftByte = rightBase + rightByte := by
  obtain ⟨leftByte, leftMember, rfl⟩ := mem_locations.mp inLeft
  obtain ⟨rightByte, rightMember, sameLocation⟩ := mem_locations.mp inRight
  simp only [MemoryLocation.mk.injEq] at sameLocation
  obtain ⟨_, _, sameCell⟩ := sameLocation
  by_cases sameBuffer : left.buffer = right.buffer
  · refine ⟨0, 0, by simp [comparedBases, sameBuffer], leftByte, leftMember, rightByte,
      rightMember, ?_⟩
    rw [sameBuffer] at sameCell
    split at sameCell
    · simpa using sameCell
    · simpa using sameCell
  · cases leftAddress : (buffers left.buffer).address with
    | none =>
      cases rightAddress : (buffers right.buffer).address with
      | none =>
        simp only [leftAddress, rightAddress, MemoryCell.unplanned.injEq] at sameCell
        exact absurd sameCell.1 sameBuffer
      | some rightBase => simp [leftAddress, rightAddress] at sameCell
    | some leftBase =>
      cases rightAddress : (buffers right.buffer).address with
      | none => simp [leftAddress, rightAddress] at sameCell
      | some rightBase =>
        simp only [leftAddress, rightAddress, MemoryCell.planned.injEq] at sameCell
        exact ⟨leftBase, rightBase,
          by simp [comparedBases, sameBuffer, leftAddress, rightAddress],
          leftByte, leftMember, rightByte, rightMember, sameCell⟩

end BufferRegion

/-- Two regions with a common location are reported to overlap. -/
theorem regionsOverlap_sound {buffers : String → BufferSpec} {coreId : Nat}
    {location : MemoryLocation} {overlaps : Bool}
    (compared : regionsOverlap buffers coreId left right = .ok overlaps)
    (inLeft : location ∈ left.locations buffers coreId)
    (inRight : location ∈ right.locations buffers coreId) : overlaps = true := by
  obtain ⟨leftScope, leftOwner⟩ := BufferRegion.scope_owner_of_mem inLeft
  obtain ⟨rightScope, rightOwner⟩ := BufferRegion.scope_owner_of_mem inRight
  obtain ⟨leftBase, rightBase, bases, leftByte, leftMember, rightByte, rightMember, same⟩ :=
    BufferRegion.common_byte inLeft inRight
  have leftBounds := BufferRegion.bytes_bounded leftMember
  have rightBounds := BufferRegion.bytes_bounded rightMember
  have intersect :
      leftBase + (regionBounds left).1 < rightBase + (regionBounds right).2 ∧
        rightBase + (regionBounds right).1 < leftBase + (regionBounds left).2 := by
    omega
  simp only [regionsOverlap, leftScope, rightScope, leftOwner, rightOwner, ne_eq,
    not_true_eq_false, ↓reduceIte, decide_false, Bool.and_false, Bool.false_eq_true, bases,
    intersect, and_self] at compared
  split at compared
  · cases compared
    rfl
  · split at compared
    · cases compared
    · rename_i disjoint refined
      cases compared
      rw [stridedRegionsDisjoint_sound refined leftMember rightMember same]
      rfl
    · cases compared
      rfl

end TilelangAscend.Simulator
