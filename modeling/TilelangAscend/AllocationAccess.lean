import TilelangAscend.ViewRanges

namespace TilelangAscend.Simulator.Memory

open IndexRanges (indices indicesOf setRange readRanges writeRanges fillRanges)

/-!
# Reads and writes of an allocation

`MemoryAllocation.view`, `read` and `write`.  A view is checked against the bounds of its
allocation when it is made, a payload against the size of the view before a byte is written.
Every byte of the address space has a value and an initialization mark; the space always reaches
beyond its allocations.
-/

/-- Ways in which an access stops. -/
inductive MemoryError where
  | validation
  | bounds
  | uninitialized
  deriving Repr, DecidableEq

/-- What a `HazardReporter` does with a diagnostic. -/
inductive HazardMode where
  | off
  | warn
  | error
  deriving Repr, DecidableEq

/-- `_AddressSpace`: the bytes of a scope with their poison metadata. -/
structure AddressSpace where
  data : Nat → UInt8
  initialized : Nat → Bool

/-- `_concrete_shape`: extents that are not negative. -/
def concreteShape (shape : List Int) : Except MemoryError (List Nat) :=
  if shape.any (· < 0) then
    .error .validation
  else
    .ok (shape.map Int.toNat)

namespace MemoryAllocation

variable (allocation : MemoryAllocation)

/-- `view`: a view after validating rank and physical byte bounds. -/
def view (byteOffset : Int) (shape : Option (List Int)) (dtype : Option DType)
    (stridesBytes : Option (List Int)) : Except MemoryError MemoryView :=
  let viewDtype := dtype.getD allocation.dtype
  match concreteShape (shape.getD (allocation.shape.map Int.ofNat)) with
  | .error failure => .error failure
  | .ok viewShape =>
    let strides :=
      stridesBytes.getD
        ((contiguousStridesBytes viewShape (dtypeSizeBytes viewDtype)).map Int.ofNat)
    if rank : strides.length = viewShape.length then
      if byteOffset < 0 || strides.any (· < 0) then
        .error .bounds
      else
        let view : MemoryView :=
          { allocation := allocation
            byteOffset := byteOffset.toNat
            shape := viewShape
            dtype := viewDtype
            stridesBytes := strides.map Int.toNat
            stridesRank := by rw [List.length_map, rank] }
        if view.byteRange.2 > allocation.address + allocation.sizeBytes then
          .error .bounds
        else
          .ok view
    else
      .error .bounds

/-- `_resolve_ranges`: the exact ranges of a view, if none escapes the allocation. -/
def resolveRanges (view : MemoryView) : Except MemoryError (List (Nat × Nat)) :=
  if view.addressRanges.any fun absolute =>
      absolute.1 < allocation.address || absolute.2 > allocation.address + allocation.sizeBytes then
    .error .bounds
  else
    .ok view.addressRanges

/-- `_check_initialized_ranges`: report uninitialized bytes. -/
def checkInitializedRanges (mode : HazardMode) (space : AddressSpace)
    (ranges : List (Nat × Nat)) : Except MemoryError Unit :=
  if ranges.all (fun interval => (indices interval).all space.initialized) then
    .ok ()
  else
    match mode with
    | .error => .error .uninitialized
    | .off => .ok ()
    | .warn => .ok ()

/-- `read`: the payload of a view. -/
def read
    (mode : HazardMode)
    (space : AddressSpace)
    (view : MemoryView) :
    Except MemoryError (List UInt8) := do
  let ranges ← allocation.resolveRanges view
  checkInitializedRanges mode space ranges
  return readRanges space.data ranges

/-- `write`: spread a payload over a view and mark it initialized. -/
def write (space : AddressSpace) (view : MemoryView) (payload : List UInt8) :
    Except MemoryError Unit × AddressSpace :=
  match allocation.resolveRanges view with
  | .error failure => (.error failure, space)
  | .ok ranges =>
    if payload.length ≠ (ranges.map fun interval => interval.2 - interval.1).sum then
      (.error .bounds, space)
    else
      (.ok (),
        { data := writeRanges space.data ranges payload
          initialized := fillRanges space.initialized ranges true })

end MemoryAllocation

/-! ## Sizes and bounds of a view -/

theorem length_elementOffsets (dims : List (Nat × Nat)) :
    (elementOffsets dims).length = (dims.map Prod.fst).prod := by
  induction dims with
  | nil => rfl
  | cons dim rest ih =>
    obtain ⟨extent, stride⟩ := dim
    simp only [elementOffsets, List.length_flatMap, List.length_map, ih,
      List.map_const', List.sum_replicate_nat, List.length_range, List.map_cons,
      List.prod_cons]

variable {low high : Nat}

theorem joinInto_within {current : Nat × Nat} {rest : List (Nat × Nat)}
    (within : ∀ range ∈ current :: rest, low ≤ range.1 ∧ range.2 ≤ high) :
    ∀ range ∈ joinInto current rest, low ≤ range.1 ∧ range.2 ≤ high := by
  induction rest generalizing current with
  | nil => exact within
  | cons next rest ih =>
    have currentWithin := within current List.mem_cons_self
    have nextWithin := within next (List.mem_cons_of_mem _ List.mem_cons_self)
    have restWithin : ∀ range ∈ rest, low ≤ range.1 ∧ range.2 ≤ high := fun range member =>
      within range (List.mem_cons_of_mem _ (List.mem_cons_of_mem _ member))
    rw [joinInto]
    split
    · exact ih (List.forall_mem_cons.mpr ⟨⟨currentWithin.1, nextWithin.2⟩, restWithin⟩)
    · exact List.forall_mem_cons.mpr
        ⟨currentWithin, ih (List.forall_mem_cons.mpr ⟨nextWithin, restWithin⟩)⟩

theorem joinAdjacent_within {ranges : List (Nat × Nat)}
    (within : ∀ range ∈ ranges, low ≤ range.1 ∧ range.2 ≤ high) :
    ∀ range ∈ joinAdjacent ranges, low ≤ range.1 ∧ range.2 ≤ high := by
  cases ranges with
  | nil => exact within
  | cons first rest => exact joinInto_within within

namespace MemoryView

variable {view : MemoryView}

theorem length_bytes (view : MemoryView) : view.bytes.length = view.nbytes := by
  have extents : (view.shape.zip view.stridesBytes).map Prod.fst = view.shape :=
    List.map_fst_zip (le_of_eq view.stridesRank.symm)
  simp only [bytes, List.length_flatMap, IndexRanges.length_indices, Nat.add_sub_cancel_left,
    List.map_const', List.sum_replicate_nat, length_elementOffsets, extents, nbytes]

theorem sum_addressRanges (view : MemoryView) :
    (view.addressRanges.map fun interval => interval.2 - interval.1).sum = view.nbytes := by
  rw [← length_bytes, ← indicesOf_addressRanges, indicesOf, List.length_flatMap]
  simp only [IndexRanges.length_indices]

theorem addressRanges_within :
    ∀ range ∈ view.addressRanges, view.start ≤ range.1 ∧ range.2 ≤ view.byteRange.2 := by
  have elements : ¬ view.region.shape.any (· = 0) = true →
      ∀ range ∈ rangesOf view.region view.region.dims view.region.itemsize,
        view.start ≤ range.1 ∧ range.2 ≤ view.byteRange.2 := by
    intro extents range member
    obtain ⟨offset, inElements, rfl⟩ := List.mem_map.mp member
    have last := elementOffset_le inElements
    simp only [byteRange, regionBounds, if_neg extents]
    exact ⟨Nat.le_add_right _ _, by omega⟩
  rw [addressRanges, Simulator.addressRanges]
  split
  · intro range member
    cases member
  rename_i extents
  split
  · intro range member
    obtain rfl := List.mem_singleton.mp member
    simp only [byteRange, regionBounds, if_neg extents]
    exact ⟨le_rfl, le_rfl⟩
  split
  · rename_i extent stride isLast
    split
    · rename_i unitStride
      apply joinAdjacent_within
      intro range member
      obtain ⟨outer, inOuter, rfl⟩ := List.mem_map.mp member
      have dims : view.region.dims = view.region.dims.dropLast ++ [(extent, stride)] :=
        (List.dropLast_append_getLast? _ isLast).symm
      have someExtent : extent ≠ 0 :=
        dims_nonempty extents (extent, stride) (List.mem_of_getLast? isLast)
      have inRow : elementOffsets [(extent, stride)] = (List.range extent).map (· * stride) := by
        simp only [elementOffsets, List.map_cons, List.map_nil, Nat.add_zero]
        exact List.map_eq_flatMap.symm
      have lastElement : outer + (extent - 1) * stride ∈ elementOffsets view.region.dims := by
        rw [dims, mem_elementOffsets_append]
        refine ⟨outer, inOuter, (extent - 1) * stride, ?_, rfl⟩
        rw [inRow]
        exact List.mem_map_of_mem (List.mem_range.mpr (by omega))
      have bounded := elementOffset_le lastElement
      have row : (extent - 1) * stride + view.region.itemsize = extent * view.region.itemsize := by
        rw [unitStride, ← Nat.succ_mul]
        congr 1
        omega
      simp only [byteRange, regionBounds, if_neg extents]
      exact ⟨Nat.le_add_right _ _, by omega⟩
    · exact joinAdjacent_within (elements extents)
  · exact joinAdjacent_within (elements extents)

/-- No two elements of a view share a byte. -/
def ElementsApart (view : MemoryView) : Prop :=
  (elementOffsets (view.shape.zip view.stridesBytes)).Pairwise fun left right =>
    left + view.itemsize ≤ right ∨ right + view.itemsize ≤ left

theorem bytes_nodup (apart : view.ElementsApart) : view.bytes.Nodup := by
  rw [bytes, List.nodup_flatMap]
  refine ⟨fun offset _ => List.nodup_range', apart.imp fun separate => ?_⟩
  intro byte inLeft inRight
  rw [IndexRanges.mem_indices] at inLeft inRight
  simp only at inLeft inRight
  omega

end MemoryView

/-! ## Accesses of views made by an allocation -/

namespace MemoryAllocation

variable {allocation : MemoryAllocation} {byteOffset : Int} {shape : Option (List Int)}
  {dtype : Option DType} {stridesBytes : Option (List Int)} {view : MemoryView}

theorem view_checked (viewed : allocation.view byteOffset shape dtype stridesBytes = .ok view) :
    view.allocation = allocation ∧
      view.byteRange.2 ≤ allocation.address + allocation.sizeBytes := by
  rw [MemoryAllocation.view] at viewed
  split at viewed
  · cases viewed
  dsimp only at viewed
  split at viewed
  · split at viewed
    · cases viewed
    split at viewed
    · cases viewed
    · rename_i inside
      obtain rfl := Except.ok.inj viewed
      exact ⟨rfl, Nat.le_of_not_gt inside⟩
  · cases viewed

theorem resolveRanges_of_view
    (viewed : allocation.view byteOffset shape dtype stridesBytes = .ok view) :
    allocation.resolveRanges view = .ok view.addressRanges := by
  obtain ⟨sameAllocation, inside⟩ := view_checked viewed
  refine if_neg ?_
  rw [List.any_eq_true]
  rintro ⟨range, member, escapes⟩
  obtain ⟨fromStart, beforeEnd⟩ := MemoryView.addressRanges_within range member
  have afterAddress : allocation.address ≤ view.start := by
    rw [← sameAllocation]
    exact Nat.le_add_right _ _
  simp only [Bool.or_eq_true, decide_eq_true_eq] at escapes
  omega

variable {space : AddressSpace} {payload : List UInt8}

theorem write_eq_ok (viewed : allocation.view byteOffset shape dtype stridesBytes = .ok view)
    (size : payload.length = view.nbytes) :
    allocation.write space view payload =
      (.ok (),
        { data := writeRanges space.data view.addressRanges payload
          initialized := fillRanges space.initialized view.addressRanges true }) := by
  rw [write, resolveRanges_of_view viewed]
  exact if_neg (not_not.mpr (size.trans view.sum_addressRanges.symm))

theorem read_eq_ok (viewed : allocation.view byteOffset shape dtype stridesBytes = .ok view)
    {mode : HazardMode}
    (written : mode = .error → ∀ byte ∈ view.bytes, space.initialized byte = true) :
    allocation.read mode space view = .ok (view.bytes.map space.data) := by
  have checked : checkInitializedRanges mode space view.addressRanges = .ok () := by
    unfold checkInitializedRanges
    split
    · rfl
    · rename_i notInitialized
      cases mode with
      | off => rfl
      | warn => rfl
      | error =>
        refine absurd ?_ notInitialized
        refine List.all_eq_true.mpr fun interval member =>
          List.all_eq_true.mpr fun byte inRange => written rfl byte ?_
        rw [← MemoryView.indicesOf_addressRanges]
        exact List.mem_flatMap_of_mem member inRange
  rw [read, resolveRanges_of_view viewed]
  simp only [bind, Except.bind, checked, IndexRanges.readRanges_eq_map,
    MemoryView.indicesOf_addressRanges]
  rfl

theorem map_bytes_write (space : AddressSpace) (apart : view.ElementsApart)
    (size : payload.length = view.nbytes) :
    view.bytes.map (writeRanges space.data view.addressRanges payload) = payload := by
  rw [← MemoryView.indicesOf_addressRanges]
  apply IndexRanges.map_writeRanges
  · rw [MemoryView.indicesOf_addressRanges]
    exact MemoryView.bytes_nodup apart
  · rw [MemoryView.indicesOf_addressRanges, MemoryView.length_bytes, size]

theorem write_outside {byte : Nat} (space : AddressSpace) (payload : List UInt8)
    (outside : byte ∉ view.bytes) :
    writeRanges space.data view.addressRanges payload byte = space.data byte ∧
      fillRanges space.initialized view.addressRanges true byte = space.initialized byte := by
  constructor
  · apply IndexRanges.writeRanges_of_notMem
    rw [MemoryView.indicesOf_addressRanges]
    exact outside
  · rw [IndexRanges.fillRanges_apply, MemoryView.indicesOf_addressRanges, if_neg outside]

/--
A payload of the right length is stored in the bytes of the view, marks just them and can be read
back; any other payload is refused and changes nothing.
-/
theorem write_exact
    (mode : HazardMode)
    (space : AddressSpace)
    (payload : List UInt8)
    (viewed : allocation.view byteOffset shape dtype stridesBytes = .ok view)
    (apart : view.ElementsApart) :
    (payload.length = view.nbytes →
      (allocation.write space view payload).1 = .ok () ∧
        allocation.read mode (allocation.write space view payload).2 view = .ok payload ∧
        (∀ byte, byte ∉ view.bytes →
          (allocation.write space view payload).2.data byte = space.data byte) ∧
        ∀ byte, (allocation.write space view payload).2.initialized byte =
          (decide (byte ∈ view.bytes) || space.initialized byte)) ∧
      (payload.length ≠ view.nbytes →
        allocation.write space view payload = (.error .bounds, space)) := by
  constructor
  · intro size
    have marks : ∀ byte,
        fillRanges space.initialized view.addressRanges true byte =
          (decide (byte ∈ view.bytes) || space.initialized byte) := by
      intro byte
      rw [IndexRanges.fillRanges_apply, MemoryView.indicesOf_addressRanges]
      by_cases inView : byte ∈ view.bytes
      · rw [if_pos inView, decide_eq_true inView, Bool.true_or]
      · rw [if_neg inView, decide_eq_false inView, Bool.false_or]
    rw [write_eq_ok viewed size]
    refine ⟨rfl, ?_, ?_, marks⟩
    · have written : ∀ byte ∈ view.bytes,
          fillRanges space.initialized view.addressRanges true byte = true := by
        intro byte inView
        rw [marks, decide_eq_true inView, Bool.true_or]
      rw [read_eq_ok viewed fun _ => written, map_bytes_write space apart size]
    · intro byte outside
      exact (write_outside space payload outside).1
  · intro wrongSize
    rw [write, resolveRanges_of_view viewed]
    exact if_pos fun size => wrongSize (size.trans view.sum_addressRanges)

/-- A tile of 4-byte elements in a wider, poisoned buffer. -/
def tileAllocation : MemoryAllocation where
  name := "ub"
  scope := .ub
  shape := [2, 8]
  dtype := .numeric 32 1 wholeBytes_32
  sizeBytes := 64
  address := 32

/-- The columns 2 and 3 of the tile, listed by columns. -/
def columnView : MemoryView where
  allocation := tileAllocation
  byteOffset := 8
  shape := [2, 2]
  dtype := .numeric 32 1 wholeBytes_32
  stridesBytes := [4, 32]
  stridesRank := rfl

/-- A permuted view with gaps is written and read back. -/
theorem write_columnView :
    let poisoned : AddressSpace := ⟨fun _ => 255, fun _ => false⟩
    let payload := (List.range 16).map UInt8.ofNat
    (tileAllocation.write poisoned columnView payload).1 = .ok () ∧
      tileAllocation.read .error (tileAllocation.write poisoned columnView payload).2 columnView =
        .ok payload := by
  intro poisoned payload
  have viewed : tileAllocation.view 8 (some [2, 2]) none (some [4, 32]) = .ok columnView := by
    decide
  have apart : columnView.ElementsApart := by
    unfold MemoryView.ElementsApart
    decide
  obtain ⟨stored, read, _⟩ := (write_exact .error poisoned payload viewed apart).1 (by decide)
  exact ⟨stored, read⟩

end MemoryAllocation

end TilelangAscend.Simulator.Memory
