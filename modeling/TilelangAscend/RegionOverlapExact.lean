import TilelangAscend.MemoryRegions

namespace TilelangAscend.Simulator

open IntervalCover

/-!
# When the overlap of regions is exact

The overlap test expands a strided region into the spans of its rows, from the first byte of the
first element of a row to the last byte of its last element.  Gaps between the elements of a row
are part of its span, so that rows which interleave without touching count as overlapping.  A
region of rank zero has no row at all and cannot be expanded.
-/

/-! ## Aliases -/

/-- The buffer that a name stands for in a scope of an owner. -/
abbrev AliasTable := List ((MemoryScope × Option Nat × String) × String)

/--
`_resolve_active_alias_name`: follow the aliases until a name has none, or has been seen.  Every
step uses another entry of the table, whose length therefore bounds the steps.
-/
def resolveActiveAliasName
    (aliases : AliasTable)
    (scope : MemoryScope)
    (aliasOwner : Option Nat) :
    Nat → List String → String → String
  | 0, _, current => current
  | fuel + 1, seen, current =>
    if current ∈ seen then
      current
    else
      match aliases.lookup (scope, aliasOwner, current) with
      | none => current
      | some target => resolveActiveAliasName aliases scope aliasOwner fuel (current :: seen) target

/-- `_resolve_active_alias`. -/
def resolveActiveAlias (aliases : AliasTable) (scope : MemoryScope) (owner : Nat)
    (buffer : String) : String :=
  resolveActiveAliasName aliases scope (if scope.isShared then none else some owner)
    (aliases.length + 1) [] buffer

/-- A region of the buffer that its name stands for. -/
def BufferRegion.aliased (aliases : AliasTable) (coreId : Nat) (region : BufferRegion) :
    BufferRegion :=
  { region with
    buffer := resolveActiveAlias aliases region.scope (region.owner coreId) region.buffer }

/-- `_regions_overlap_uncached` of concrete regions. -/
def regionsOverlapUncached (buffers : String → BufferSpec) (aliases : AliasTable)
    (coreId : Nat) (left right : BufferRegion) : Except RegionError Bool :=
  regionsOverlap buffers coreId (left.aliased aliases coreId) (right.aliased aliases coreId)

/-! ## Bytes and rows -/

/-- Two regions have a byte in common when their buffers are at the given addresses. -/
def BytesMeet (left right : BufferRegion) (leftBase rightBase : Nat) : Prop :=
  ∃ leftByte ∈ left.bytes, ∃ rightByte ∈ right.bytes, leftBase + leftByte = rightBase + rightByte

/-- Two regions share a byte of memory. -/
def ShareByte (buffers : String → BufferSpec) (aliases : AliasTable) (coreId : Nat)
    (left right : BufferRegion) : Prop :=
  left.scope = right.scope ∧
    (left.scope.isShared = true ∨ left.owner coreId = right.owner coreId) ∧
      ∃ bases,
        comparedBases buffers (left.aliased aliases coreId) (right.aliased aliases coreId) =
            some bases ∧
          BytesMeet left right bases.1 bases.2

/-- The spans of the rows of a region. -/
def rowSpans (region : BufferRegion) : List (Nat × Nat) :=
  if region.shape.any (· = 0) then
    []
  else
    match region.dims.getLast? with
    | none => []
    | some (extent, stride) =>
      (elementOffsets region.dims.dropLast).map fun offset =>
        (region.byteOffset + offset,
          region.byteOffset + offset + ((extent - 1) * stride + region.itemsize))

/-- Two regions have rows whose spans meet. -/
def RowsMeet (left right : BufferRegion) (leftBase rightBase : Nat) : Prop :=
  ∃ leftSpan ∈ rowSpans left, ∃ rightSpan ∈ rowSpans right,
    leftBase + leftSpan.1 < rightBase + rightSpan.2 ∧
      rightBase + rightSpan.1 < leftBase + leftSpan.2

/-- No stride is zero, and the rows are not too many to be expanded. -/
def Expandable (region : BufferRegion) : Prop :=
  region.shape.any (· = 0) = true ∨
    (region.strides.any (· = 0) = false ∧ region.shape.dropLast.prod ≤ maxIntervalExpansion)

/-- Rows of two regions interleave: some spans meet, and no elements do. -/
def Interleaved (left right : BufferRegion) (leftBase rightBase : Nat) : Prop :=
  Expandable left ∧ Expandable right ∧ RowsMeet left right leftBase rightBase ∧
    ¬ BytesMeet left right leftBase rightBase

/-- A region without dimensions is compared with one that is not contiguous. -/
def ScalarAgainstStrided (left right : BufferRegion) : Prop :=
  (left.shape = [] ∨ right.shape = []) ∧
    (regionIsContiguous left && regionIsContiguous right) = false

/-! ## Expansion -/

theorem exists_offset_of_outerBase {dims : List (Nat × Nat)} {linear : Nat}
    (inRange : linear < (dims.map Prod.fst).prod) :
    ∃ offset ∈ elementOffsets dims, ∀ base, outerBase dims.reverse linear base = base + offset := by
  induction dims using List.reverseRecOn generalizing linear with
  | nil => exact ⟨0, List.mem_singleton_self 0, fun base => rfl⟩
  | append_singleton outer dim ih =>
    obtain ⟨extent, stride⟩ := dim
    simp only [List.map_append, List.map_cons, List.map_nil, List.prod_append,
      List.prod_singleton] at inRange
    have positive : 0 < extent := by
      by_contra empty
      rw [Nat.eq_zero_of_not_pos empty, Nat.mul_zero] at inRange
      exact Nat.not_lt_zero _ inRange
    obtain ⟨offset, member, located⟩ := ih (Nat.div_lt_of_lt_mul (Nat.mul_comm _ extent ▸ inRange))
    refine ⟨offset + linear % extent * stride, ?_, fun base => ?_⟩
    · refine mem_elementOffsets_append.mpr ⟨offset, member, linear % extent * stride, ?_, rfl⟩
      simp only [elementOffsets, List.map_cons, List.map_nil, List.mem_flatMap,
        List.mem_range, List.mem_singleton, Nat.add_zero]
      exact ⟨linear % extent, Nat.mod_lt _ positive, rfl⟩
    · simp only [List.reverse_append, List.reverse_cons, List.reverse_nil, List.nil_append,
        List.singleton_append, outerBase, located]
      omega

theorem dropLast_dims_fst (region : BufferRegion) :
    region.dims.dropLast.map Prod.fst = region.shape.dropLast := by
  rw [← region.dims_fst, List.map_dropLast]

section Expansion

variable {region : BufferRegion}

theorem expandable_of_intervals {intervals : List (Nat × Nat)}
    (expanded : regionByteIntervals region = .ok (some intervals)) : Expandable region := by
  unfold regionByteIntervals at expanded
  split at expanded
  · rename_i isEmpty
    exact .inl isEmpty
  split at expanded
  · cases expanded
  rename_i someStride
  split at expanded
  · cases expanded
  rename_i fewRows
  exact .inr ⟨Bool.eq_false_iff.mpr someStride, Nat.le_of_not_lt fewRows⟩

theorem exists_regionByteIntervals (dimensions : region.shape ≠ []) :
    ∃ intervals, regionByteIntervals region = .ok intervals ∧
      (Expandable region → intervals.isSome = true) := by
  unfold regionByteIntervals
  split
  · exact ⟨_, rfl, fun _ => rfl⟩
  rename_i notEmpty
  split
  · rename_i zeroStride
    refine ⟨_, rfl, fun expandable => ?_⟩
    rw [(expandable.resolve_left notEmpty).1] at zeroStride
    cases zeroStride
  split
  · rename_i manyRows
    exact ⟨_, rfl, fun expandable =>
      absurd (expandable.resolve_left notEmpty).2 (Nat.not_le_of_lt manyRows)⟩
  split
  · rename_i noLast
    have lengths := congrArg List.length (List.getLast?_eq_none_iff.mp noLast)
    rw [← List.length_map (f := Prod.fst), region.dims_fst] at lengths
    exact absurd (List.eq_nil_of_length_eq_zero lengths) dimensions
  · exact ⟨_, rfl, fun _ => rfl⟩

theorem regionByteIntervals_scalar (scalar : region.shape = []) :
    regionByteIntervals region = .error .indexError := by
  have noStrides : region.strides = [] :=
    List.eq_nil_of_length_eq_zero (by rw [region.strides_length, scalar, List.length_nil])
  have noDims : region.dims = [] := by
    rw [BufferRegion.dims, scalar, List.zip_nil_left]
  simp only [regionByteIntervals, scalar, noStrides, noDims, List.any_nil, List.dropLast_nil,
    List.prod_nil, Bool.false_eq_true, if_false, List.getLast?_nil]
  exact if_neg (by decide)

theorem rowSpans_nonempty (elements : 0 < region.itemsize) :
    ∀ span ∈ rowSpans region, span.1 < span.2 := by
  intro span member
  unfold rowSpans at member
  split at member
  · cases member
  split at member
  · cases member
  obtain ⟨offset, _, rfl⟩ := List.mem_map.mp member
  simp only
  omega

theorem regionByteIntervals_exact {intervals : List (Nat × Nat)} (elements : 0 < region.itemsize)
    (expanded : regionByteIntervals region = .ok (some intervals)) :
    Sorted intervals ∧ (∀ interval ∈ intervals, interval.1 < interval.2) ∧
      ∀ point, Covers intervals point ↔ Covers (rowSpans region) point := by
  refine ⟨(regionByteIntervals_sound expanded).1, ?_⟩
  unfold regionByteIntervals at expanded
  split at expanded
  · rename_i isEmpty
    obtain rfl := Option.some.inj (Except.ok.inj expanded)
    refine ⟨fun interval member => absurd member List.not_mem_nil, fun point => ?_⟩
    rw [rowSpans, if_pos isEmpty]
  rename_i notEmpty
  split at expanded
  · cases expanded
  split at expanded
  · cases expanded
  split at expanded
  · cases expanded
  rename_i extent stride isLast
  obtain rfl := Option.some.inj (Except.ok.inj expanded)
  -- the listed intervals are the spans of the rows, in some order
  have listed : ∀ interval,
      interval ∈ ((List.range region.shape.dropLast.prod).map fun linear =>
          let base := outerBase region.dims.dropLast.reverse linear region.byteOffset
          (base, base + ((extent - 1) * stride + region.itemsize))) ↔
        interval ∈ rowSpans region := by
    intro interval
    rw [rowSpans, if_neg notEmpty, isLast]
    simp only [List.mem_map, List.mem_range]
    constructor
    · rintro ⟨linear, inRange, rfl⟩
      rw [← dropLast_dims_fst] at inRange
      obtain ⟨offset, member, located⟩ := exists_offset_of_outerBase inRange
      exact ⟨offset, member, by rw [located]⟩
    · rintro ⟨offset, member, rfl⟩
      obtain ⟨linear, inRange, located⟩ := exists_outerBase member
      rw [dropLast_dims_fst] at inRange
      exact ⟨linear, inRange, by rw [located]⟩
  constructor
  · apply merge_nonempty (sorted_mergeSort _)
    intro interval member
    exact rowSpans_nonempty elements interval ((listed interval).mp (List.mem_mergeSort.mp member))
  · intro point
    constructor
    · intro covered
      obtain ⟨interval, member, within⟩ := covers_of_merge covered
      exact ⟨interval, (listed interval).mp (List.mem_mergeSort.mp member), within⟩
    · rintro ⟨interval, member, within⟩
      exact covers_merge (sorted_mergeSort _)
        ⟨interval, List.mem_mergeSort.mpr ((listed interval).mpr member), within⟩

end Expansion

theorem covers_shiftIntervals {intervals : List (Nat × Nat)} {delta point : Int} :
    Covers (shiftIntervals delta intervals) point ↔
      ∃ interval ∈ intervals, (interval.1 : Int) + delta ≤ point ∧ point < interval.2 + delta := by
  constructor
  · rintro ⟨shifted, member, within⟩
    obtain ⟨interval, isInterval, rfl⟩ := List.mem_map.mp member
    exact ⟨interval, isInterval, within⟩
  · rintro ⟨interval, isInterval, within⟩
    exact ⟨_, List.mem_map_of_mem isInterval, within⟩

/-! ## The strided test -/

section Strided

variable {left right : BufferRegion} {leftBase rightBase : Nat}

theorem rowsMeet_iff (leftElements : 0 < left.itemsize) (rightElements : 0 < right.itemsize) :
    RowsMeet left right leftBase rightBase ↔
      ∃ point : Int,
        Covers (shiftIntervals 0 (rowSpans left)) point ∧
          Covers (shiftIntervals ((rightBase : Int) - leftBase) (rowSpans right)) point := by
  simp only [covers_shiftIntervals]
  constructor
  · rintro ⟨leftSpan, leftMember, rightSpan, rightMember, overlap⟩
    have leftSize := rowSpans_nonempty leftElements leftSpan leftMember
    have rightSize := rowSpans_nonempty rightElements rightSpan rightMember
    refine ⟨max (leftSpan.1 : Int) (rightSpan.1 + (rightBase - leftBase)),
      ⟨leftSpan, leftMember, ?_, ?_⟩, rightSpan, rightMember, ?_, ?_⟩
    · omega
    · omega
    · omega
    · omega
  · rintro ⟨point, ⟨leftSpan, leftMember, inLeft⟩, rightSpan, rightMember, inRight⟩
    exact ⟨leftSpan, leftMember, rightSpan, rightMember, by omega, by omega⟩

theorem stridedRegionsDisjoint_eq_false_iff {answer : Bool}
    (leftElements : 0 < left.itemsize) (rightElements : 0 < right.itemsize)
    (compared : stridedRegionsDisjoint left right leftBase rightBase = .ok (some answer)) :
    answer = false ↔ RowsMeet left right leftBase rightBase := by
  unfold stridedRegionsDisjoint at compared
  split at compared
  any_goals cases compared
  rename_i leftIntervals rightIntervals leftExpanded rightExpanded
  obtain ⟨leftSorted, leftNonempty, leftCovers⟩ :=
    regionByteIntervals_exact leftElements leftExpanded
  obtain ⟨rightSorted, rightNonempty, rightCovers⟩ :=
    regionByteIntervals_exact rightElements rightExpanded
  have shifted :
      (∃ point : Int, Covers (shiftIntervals 0 leftIntervals) point ∧
        Covers (shiftIntervals ((rightBase : Int) - leftBase) rightIntervals) point) ↔
      RowsMeet left right leftBase rightBase := by
    rw [rowsMeet_iff leftElements rightElements]
    have same : ∀ {intervals spans : List (Nat × Nat)} {delta point : Int},
        (∀ position, Covers intervals position ↔ Covers spans position) →
        Covers (shiftIntervals delta intervals) point →
        Covers (shiftIntervals delta spans) point := by
      intro intervals spans delta point agree covered
      obtain ⟨interval, member, above, below⟩ := covers_shiftIntervals.mp covered
      obtain ⟨span, spanMember, spanAbove, spanBelow⟩ :=
        (agree (point - delta).toNat).mp ⟨interval, member, by omega, by omega⟩
      exact covers_shiftIntervals.mpr ⟨span, spanMember, by omega, by omega⟩
    constructor
    · rintro ⟨point, inLeft, inRight⟩
      exact ⟨point, same leftCovers inLeft, same rightCovers inRight⟩
    · rintro ⟨point, inLeft, inRight⟩
      exact ⟨point, same (fun position => (leftCovers position).symm) inLeft,
        same (fun position => (rightCovers position).symm) inRight⟩
  rw [← shifted]
  split at compared
  · rename_i noRows
    obtain rfl := Option.some.inj (Except.ok.inj compared)
    refine ⟨nofun, ?_⟩
    rintro ⟨point, inLeft, inRight⟩
    obtain ⟨leftInterval, leftMember, _⟩ := covers_shiftIntervals.mp inLeft
    obtain ⟨rightInterval, rightMember, _⟩ := covers_shiftIntervals.mp inRight
    rw [Bool.or_eq_true, List.isEmpty_iff, List.isEmpty_iff] at noRows
    rcases noRows with rfl | rfl
    · cases leftMember
    · cases rightMember
  · obtain rfl := Option.some.inj (Except.ok.inj compared)
    refine sweepDisjoint_eq_false_iff (shiftIntervals_sound 0 leftSorted).1
      (shiftIntervals_sound _ rightSorted).1 ?_ ?_
    · intro interval member
      obtain ⟨original, isOriginal, rfl⟩ := List.mem_map.mp member
      have size := leftNonempty original isOriginal
      simp only
      omega
    · intro interval member
      obtain ⟨original, isOriginal, rfl⟩ := List.mem_map.mp member
      have size := rightNonempty original isOriginal
      simp only
      omega

theorem dimensions_of_rowSpans {region : BufferRegion} {span : Nat × Nat}
    (member : span ∈ rowSpans region) : region.shape ≠ [] := by
  intro scalar
  have noDims : region.dims = [] := by
    rw [BufferRegion.dims, scalar, List.zip_nil_left]
  unfold rowSpans at member
  rw [noDims, List.getLast?_nil] at member
  split at member
  · cases member
  · cases member

/-- The strided test of two regions is exact. -/
def StridedExact (left right : BufferRegion) (leftBase rightBase : Nat) : Prop :=
  ∀ answer, stridedRegionsDisjoint left right leftBase rightBase = .ok (some answer) →
    (answer = true ↔ ¬ BytesMeet left right leftBase rightBase)

theorem stridedExact_iff (leftElements : 0 < left.itemsize) (rightElements : 0 < right.itemsize) :
    StridedExact left right leftBase rightBase ↔ ¬ Interleaved left right leftBase rightBase := by
  constructor
  · rintro exact' ⟨leftExpandable, rightExpandable, meet, apart⟩
    obtain ⟨leftSpan, leftMember, rightSpan, rightMember, overlap⟩ := meet
    obtain ⟨leftResult, leftIs, leftSome⟩ :=
      exists_regionByteIntervals (dimensions_of_rowSpans leftMember)
    obtain ⟨rightResult, rightIs, rightSome⟩ :=
      exists_regionByteIntervals (dimensions_of_rowSpans rightMember)
    obtain ⟨leftIntervals, rfl⟩ := Option.isSome_iff_exists.mp (leftSome leftExpandable)
    obtain ⟨rightIntervals, rfl⟩ := Option.isSome_iff_exists.mp (rightSome rightExpandable)
    have definite : ∃ answer,
        stridedRegionsDisjoint left right leftBase rightBase = .ok (some answer) := by
      unfold stridedRegionsDisjoint
      rw [leftIs, rightIs]
      dsimp only
      split
      · exact ⟨_, rfl⟩
      · exact ⟨_, rfl⟩
    obtain ⟨answer, compared⟩ := definite
    have negative := (stridedRegionsDisjoint_eq_false_iff leftElements rightElements
      compared).mpr ⟨leftSpan, leftMember, rightSpan, rightMember, overlap⟩
    rw [(exact' answer compared).mpr apart] at negative
    cases negative
  · intro notInterleaved answer compared
    have expanded : Expandable left ∧ Expandable right := by
      unfold stridedRegionsDisjoint at compared
      split at compared
      any_goals cases compared
      rename_i leftExpanded rightExpanded
      exact ⟨expandable_of_intervals leftExpanded, expandable_of_intervals rightExpanded⟩
    constructor
    · rintro rfl ⟨leftByte, inLeft, rightByte, inRight, same⟩
      exact absurd (stridedRegionsDisjoint_sound compared inLeft inRight same) (by decide)
    · intro apart
      by_contra notDisjoint
      have meet := (stridedRegionsDisjoint_eq_false_iff leftElements rightElements
        compared).mp (Bool.eq_false_iff.mpr notDisjoint)
      exact notInterleaved ⟨expanded.1, expanded.2, meet, apart⟩

end Strided

/-- The elements of a row leave no gap. -/
def DenseRows (region : BufferRegion) : Prop :=
  ∀ dim ∈ region.dims.getLast?, dim.1 ≤ 1 ∨ dim.2 ≤ region.itemsize

theorem DenseRows.mem_bytes {region : BufferRegion} {span : Nat × Nat} {byte : Nat}
    (dense : DenseRows region) (member : span ∈ rowSpans region)
    (inside : span.1 ≤ byte ∧ byte < span.2) : byte ∈ region.bytes := by
  unfold rowSpans at member
  split at member
  · cases member
  rename_i notEmpty
  split at member
  · cases member
  rename_i extent stride isLast
  obtain ⟨outer, outerMember, rfl⟩ := List.mem_map.mp member
  simp only at inside
  have dims : region.dims = region.dims.dropLast ++ [(extent, stride)] :=
    (List.dropLast_append_getLast? _ isLast).symm
  have someExtent : 0 < extent := by
    apply Nat.pos_of_ne_zero
    rintro rfl
    have inShape := List.mem_map_of_mem (f := Prod.fst) (List.mem_of_getLast? isLast)
    rw [region.dims_fst] at inShape
    exact notEmpty (List.any_eq_true.mpr ⟨0, inShape, rfl⟩)
  -- the element of the row that the byte belongs to
  have element : ∃ index < extent,
      region.byteOffset + outer + index * stride ≤ byte ∧
        byte < region.byteOffset + outer + index * stride + region.itemsize := by
    by_cases single : extent = 1
    · subst single
      refine ⟨0, Nat.one_pos, ?_, ?_⟩
      · rw [Nat.zero_mul]
        omega
      · rw [Nat.zero_mul]
        rw [Nat.sub_self, Nat.zero_mul] at inside
        omega
    · have close : stride ≤ region.itemsize := by
        rcases dense _ isLast with few | close
        · simp only at few
          omega
        · exact close
      by_cases inLast : region.byteOffset + outer + (extent - 1) * stride ≤ byte
      · exact ⟨extent - 1, by omega, inLast, by omega⟩
      · have positive : 0 < stride := by
          apply Nat.pos_of_ne_zero
          rintro rfl
          rw [Nat.mul_zero] at inLast
          omega
        have division := Nat.div_add_mod (byte - (region.byteOffset + outer)) stride
        have remainder := Nat.mod_lt (byte - (region.byteOffset + outer)) positive
        rw [Nat.mul_comm] at division
        refine ⟨(byte - (region.byteOffset + outer)) / stride, ?_, by omega, by omega⟩
        have below : (byte - (region.byteOffset + outer)) / stride < extent - 1 :=
          (Nat.div_lt_iff_lt_mul positive).mpr (by omega)
        omega
  obtain ⟨index, inExtent, above, below⟩ := element
  refine BufferRegion.mem_bytes.mpr ⟨outer + index * stride, ?_,
    byte - (region.byteOffset + outer + index * stride), by omega, by omega⟩
  rw [dims]
  refine mem_elementOffsets_append.mpr ⟨outer, outerMember, index * stride, ?_, rfl⟩
  simp only [elementOffsets, List.map_cons, List.map_nil, List.mem_flatMap, List.mem_range,
    List.mem_singleton, Nat.add_zero]
  exact ⟨index, inExtent, rfl⟩

theorem not_interleaved_of_denseRows {left right : BufferRegion}
    {leftBase rightBase : Nat} (leftElements : 0 < left.itemsize)
    (rightElements : 0 < right.itemsize) (leftDense : DenseRows left)
    (rightDense : DenseRows right) : ¬ Interleaved left right leftBase rightBase := by
  rintro ⟨_, _, ⟨leftSpan, leftMember, rightSpan, rightMember, overlap⟩, apart⟩
  have leftSize := rowSpans_nonempty leftElements leftSpan leftMember
  have rightSize := rowSpans_nonempty rightElements rightSpan rightMember
  -- the later one of the two starts is a byte of both
  have common : ∃ leftByte rightByte, leftBase + leftByte = rightBase + rightByte ∧
      (leftSpan.1 ≤ leftByte ∧ leftByte < leftSpan.2) ∧
        rightSpan.1 ≤ rightByte ∧ rightByte < rightSpan.2 := by
    by_cases leftFirst : leftBase + leftSpan.1 ≤ rightBase + rightSpan.1
    · exact ⟨rightBase + rightSpan.1 - leftBase, rightSpan.1, by omega, by omega, by omega⟩
    · exact ⟨leftSpan.1, leftBase + leftSpan.1 - rightBase, by omega, by omega, by omega⟩
  obtain ⟨leftByte, rightByte, same, inLeft, inRight⟩ := common
  exact apart ⟨leftByte, leftDense.mem_bytes leftMember inLeft, rightByte,
    rightDense.mem_bytes rightMember inRight, same⟩

/-! ## The overlap test -/

section Overlap

variable {buffers : String → BufferSpec} {aliases : AliasTable} {coreId : Nat}
  {left right : BufferRegion}

theorem regionsOverlapUncached_of_shareByte
    (shared : ShareByte buffers aliases coreId left right) :
    regionsOverlapUncached buffers aliases coreId left right = .ok true ↔
      ¬ ScalarAgainstStrided left right := by
  obtain ⟨sameScope, access, bases, compared, leftByte, inLeft, rightByte, inRight, same⟩ := shared
  have leftBounds := BufferRegion.bytes_bounded inLeft
  have rightBounds := BufferRegion.bytes_bounded inRight
  have intersect :
      bases.1 + (regionBounds left).1 < bases.2 + (regionBounds right).2 ∧
        bases.2 + (regionBounds right).1 < bases.1 + (regionBounds left).2 := by
    omega
  have sameOwner :
      (!(left.aliased aliases coreId).scope.isShared &&
        decide ((left.aliased aliases coreId).owner coreId ≠
          (right.aliased aliases coreId).owner coreId)) = false := by
    rw [Bool.and_eq_false_iff]
    rcases access with isShared | owners
    · exact .inl (by rw [Bool.not_eq_false']; exact isShared)
    · exact .inr (decide_eq_false (not_not.mpr owners))
  have unfolded :
      regionsOverlapUncached buffers aliases coreId left right =
        if regionIsContiguous left && regionIsContiguous right then
          .ok true
        else
          (stridedRegionsDisjoint left right bases.1 bases.2).map fun disjoint =>
            (disjoint.map not).getD true := by
    have aliasedScope :
        (left.aliased aliases coreId).scope = (right.aliased aliases coreId).scope := sameScope
    unfold regionsOverlapUncached regionsOverlap
    rw [if_neg (not_not.mpr aliasedScope), if_neg (by rw [sameOwner]; decide), compared]
    refine (if_neg (not_not.mpr intersect)).trans (congrArg _ ?_)
    have sameTest : stridedRegionsDisjoint (left.aliased aliases coreId)
        (right.aliased aliases coreId) bases.1 bases.2 =
          stridedRegionsDisjoint left right bases.1 bases.2 := rfl
    rw [sameTest]
    cases stridedRegionsDisjoint left right bases.1 bases.2 with
    | error failure => rfl
    | ok disjoint => cases disjoint <;> rfl
  rw [unfolded]
  by_cases contiguous : (regionIsContiguous left && regionIsContiguous right) = true
  · rw [if_pos contiguous]
    exact iff_of_true rfl fun scalar => absurd contiguous (by rw [scalar.2]; decide)
  rw [if_neg contiguous]
  by_cases scalar : left.shape = [] ∨ right.shape = []
  · have fails : stridedRegionsDisjoint left right bases.1 bases.2 = .error .indexError := by
      unfold stridedRegionsDisjoint
      rcases scalar with leftScalar | rightScalar
      · rw [regionByteIntervals_scalar leftScalar]
      · rw [regionByteIntervals_scalar rightScalar]
        cases result : regionByteIntervals left with
        | error failure =>
          cases failure
          rfl
        | ok intervals => rfl
    rw [fails]
    exact iff_of_false (by simp [Except.map]) fun notScalar =>
      notScalar ⟨scalar, Bool.eq_false_iff.mpr contiguous⟩
  · obtain ⟨leftDimensions, rightDimensions⟩ := not_or.mp scalar
    obtain ⟨leftIntervals, leftIs, _⟩ := exists_regionByteIntervals leftDimensions
    obtain ⟨rightIntervals, rightIs, _⟩ := exists_regionByteIntervals rightDimensions
    refine iff_of_true ?_ fun both => scalar both.1
    cases result : stridedRegionsDisjoint left right bases.1 bases.2 with
    | error failure =>
      unfold stridedRegionsDisjoint at result
      rw [leftIs, rightIs] at result
      cases leftIntervals with
      | none => cases result
      | some _ =>
        cases rightIntervals with
        | none => cases result
        | some _ =>
          dsimp only at result
          split at result
          · cases result
          · cases result
    | ok answer =>
      cases answer with
      | none => rfl
      | some disjoint =>
        rw [stridedRegionsDisjoint_sound result inLeft inRight same]
        rfl

/--
The overlap test finds a shared byte and the strided test is exact for all base addresses,
exactly if no region without dimensions that shares a byte is compared with a strided one, and
the rows of the regions do not interleave.
-/
theorem regionsOverlap_exact_iff
    (leftElements : 0 < left.itemsize)
    (rightElements : 0 < right.itemsize) :
    ((ShareByte buffers aliases coreId left right →
          regionsOverlapUncached buffers aliases coreId left right = .ok true) ∧
        ∀ leftBase rightBase, StridedExact left right leftBase rightBase) ↔
      ¬ (ScalarAgainstStrided left right ∧ ShareByte buffers aliases coreId left right) ∧
        ∀ leftBase rightBase, ¬ Interleaved left right leftBase rightBase := by
  refine and_congr ⟨fun finds scalar => ?_, fun notScalar shared => ?_⟩ (forall₂_congr
    fun leftBase rightBase => stridedExact_iff leftElements rightElements)
  · exact (regionsOverlapUncached_of_shareByte scalar.2).mp (finds scalar.2) scalar.1
  · exact (regionsOverlapUncached_of_shareByte shared).mpr fun scalar => notScalar ⟨scalar, shared⟩

end Overlap

/-- Columns of a matrix in GM, with rows of 64 bytes and elements of 4. -/
def columnShard (firstColumn columns : Nat) : BufferRegion where
  buffer := "matrix"
  scope := .gm
  shape := [3, columns]
  dtype := .numeric 32 1 wholeBytes_32
  byteOffset := firstColumn * 4
  stridesBytes := some [64, 4]
  stridesRank := by
    intro strides given
    rw [← Option.some.inj given]
    rfl

/-- The test of two shards of columns is exact. -/
theorem regionsOverlap_exact_columnShards :
    (ShareByte (fun _ => ⟨[], .bool, none, none⟩) [] 0 (columnShard 0 8) (columnShard 8 8) →
        regionsOverlapUncached (fun _ => ⟨[], .bool, none, none⟩) [] 0 (columnShard 0 8)
          (columnShard 8 8) = .ok true) ∧
      ∀ leftBase rightBase, StridedExact (columnShard 0 8) (columnShard 8 8) leftBase rightBase :=
  (regionsOverlap_exact_iff (by decide) (by decide)).mpr
    ⟨fun scalar => absurd scalar.1.1 (by decide), fun _ _ =>
      not_interleaved_of_denseRows (by decide) (by decide)
        (by
          intro dim last
          obtain rfl := Option.some.inj last
          exact .inr (by decide))
        (by
          intro dim last
          obtain rfl := Option.some.inj last
          exact .inr (by decide))⟩

/-- Every other element of four, from one of them on. -/
def everyOther (first : Nat) : BufferRegion where
  buffer := "matrix"
  scope := .gm
  shape := [2]
  dtype := .numeric 32 1 wholeBytes_32
  byteOffset := first * 4
  stridesBytes := some [8]
  stridesRank := by
    intro strides given
    rw [← Option.some.inj given]
    rfl

/-- Elements that alternate share no byte, and are not found disjoint. -/
theorem strided_everyOther :
    stridedRegionsDisjoint (everyOther 0) (everyOther 1) 0 0 = .ok (some false) ∧
      ¬ BytesMeet (everyOther 0) (everyOther 1) 0 0 := by
  refine ⟨by decide +kernel, ?_⟩
  unfold BytesMeet
  decide

end TilelangAscend.Simulator
