import TilelangAscend.MemoryRegions
import TilelangAscend.RuntimeInt

namespace TilelangAscend.Simulator.Bridge

/-!
# Regions behind access pointers

The bridge turns an access pointer of lowered TIR into a region of a declared buffer.  Offsets,
extents and strides may be runtime integers; once the symbols are bound, a region names concrete
bytes.  A region of two dimensions has a row stride, which a copy gives explicitly, or which is
taken from the physical tile or from the declared buffer.
-/

/-- How the bridge stops. -/
inductive BridgeError where
  /-- `ProgramValidationError` -/
  | validation
  /-- `UnsupportedSimOpError` -/
  | unsupported
  /-- an index outside a sequence -/
  | indexError
  /-- a division by zero -/
  | zeroDivision
  deriving Repr, DecidableEq

/-- The value of a runtime integer where it is not negative. -/
def evaluateNat (bindings : String → Option Int) (value : RuntimeInt) : Option Nat :=
  (value.evaluate bindings).bind fun result => if 0 ≤ result then some result.toNat else none

/-- An integer that is known to be negative when the program is built. -/
def isNegative : RuntimeInt → Bool
  | .int value => value < 0
  | _ => false

/-- The declaration of a buffer, whose extents may be runtime integers. -/
structure DeclaredBuffer where
  scope : MemoryScope
  shape : List RuntimeInt
  dtype : DType
  sizeBytes : Option Nat
  address : Option Nat
  plannedAddress : Bool
  deriving DecidableEq

/-- The concrete value of an extent. -/
def staticExtent : RuntimeInt → Option Nat
  | .int value => some value.toNat
  | _ => none

namespace DeclaredBuffer

/-- What the overlap tests read of a declaration. -/
def spec (buffer : DeclaredBuffer) : BufferSpec where
  shape := buffer.shape.map staticExtent
  dtype := buffer.dtype
  sizeBytes := buffer.sizeBytes
  address := buffer.address

/-- `_buffer_size_bytes`. -/
def size (buffer : DeclaredBuffer) : Option Nat :=
  bufferSizeBytes buffer.spec

/-- `_reserve_layout_capacity`: a planned buffer grows to the footprint of a layout. -/
def reserveLayoutCapacity (buffer : DeclaredBuffer) (requiredBytes : Nat) : DeclaredBuffer :=
  match buffer.size with
  | none => buffer
  | some current =>
    if requiredBytes ≤ current ∨ buffer.plannedAddress = false then
      buffer
    else
      { buffer with sizeBytes := some requiredBytes }

end DeclaredBuffer

/-- The buffers of a bridge and the names of their data variables. -/
structure BridgeBuffers where
  nameByDataVar : String → Option String
  buffers : String → DeclaredBuffer

/-- Change the declaration of a buffer. -/
def BridgeBuffers.reserve (bridge : BridgeBuffers) (name : String) (requiredBytes : Nat) :
    BridgeBuffers :=
  { bridge with
    buffers := fun other =>
      if other = name then
        (bridge.buffers name).reserveLayoutCapacity requiredBytes
      else
        bridge.buffers other }

/-- A pointer argument; an access pointer may be annotated with an element type. -/
inductive Pointer where
  | bare (dataVar : String)
  | access (annotated : Option DType) (dataVar : String) (offset : Option RuntimeInt)
  | malformed

/-- `_access_ptr_data_name`: the data variable of an access pointer. -/
def Pointer.dataName : Pointer → Option String
  | .access _ dataVar _ => some dataVar
  | .bare _ => none
  | .malformed => none

/-- `BufferRegion` with runtime integers. -/
structure RuntimeRegion where
  buffer : String
  scope : MemoryScope
  shape : List RuntimeInt
  dtype : DType
  byteOffset : RuntimeInt
  stridesBytes : Option (List RuntimeInt)
  coreId : Option Nat
  stridesRank : ∀ strides ∈ stridesBytes, strides.length = shape.length
  deriving DecidableEq

namespace RuntimeRegion

/-- The byte width of one element. -/
def itemsize (region : RuntimeRegion) : Nat :=
  dtypeSizeBytes region.dtype

/-- `__post_init__`: known extents, offsets and strides are not negative. -/
def Wellformed (region : RuntimeRegion) : Prop :=
  (region.shape.any isNegative || isNegative region.byteOffset ||
    (region.stridesBytes.getD []).any isNegative) = false

instance (region : RuntimeRegion) : Decidable region.Wellformed :=
  inferInstanceAs (Decidable (_ = _))

/-- A region that passes the checks of its constructor. -/
def check (region : RuntimeRegion) : Except BridgeError RuntimeRegion :=
  if region.Wellformed then
    .ok region
  else
    .error .validation

/-- The region with a value for each of its runtime integers. -/
def valued (region : RuntimeRegion) (value : RuntimeInt → Option Nat) : Option BufferRegion :=
  match region.shape.mapM value, value region.byteOffset,
      (region.stridesBytes.getD []).mapM value with
  | some shape, some byteOffset, some strides =>
    if rank : region.stridesBytes.isSome → strides.length = shape.length then
      some {
        buffer := region.buffer
        scope := region.scope
        shape := shape
        dtype := region.dtype
        byteOffset := byteOffset
        stridesBytes := if region.stridesBytes.isSome then some strides else none
        coreId := region.coreId
        stridesRank := by
          intro given member
          split at member
          · rename_i present
            rw [← Option.some.inj member]
            exact rank present
          · cases member }
    else
      none
  | _, _, _ => none

/-- The concrete region for bound symbols. -/
def resolve (region : RuntimeRegion) (bindings : String → Option Int) : Option BufferRegion :=
  region.valued (evaluateNat bindings)

/-- The region, if all its runtime integers are known when the program is built. -/
def concrete (region : RuntimeRegion) : Option BufferRegion :=
  region.valued staticExtent

/-- The core that owns a region. -/
def owner (region : RuntimeRegion) (coreId : Nat) : Nat :=
  region.coreId.getD coreId

end RuntimeRegion

/-- The buffer of a pointer, the element type of its annotation and its offset. -/
def BridgeBuffers.target
    (bridge : BridgeBuffers) :
    Pointer → Option (String × Option DType × RuntimeInt)
  | .bare dataVar => (bridge.nameByDataVar dataVar).map fun name => (name, none, .int 0)
  | .access annotated dataVar (some offset) =>
    (bridge.nameByDataVar dataVar).map fun name => (name, annotated, offset)
  | .access _ _ none => none
  | .malformed => none

/-- The row stride of a region of two dimensions, in elements. -/
def rowStrideElements (declared : DeclaredBuffer)
    (physicalCols rowStride : Option RuntimeInt) : Except BridgeError RuntimeInt :=
  match rowStride, physicalCols, declared.shape.getLast? with
  | some stride, _, _ => .ok stride
  | none, some cols, _ => .ok cols
  | none, none, some extent => .ok extent
  | none, none, none => .error .indexError

/-- The core that a region of a scope belongs to. -/
def ownerOf (scope : MemoryScope) (coreId : Nat) : Option Nat :=
  if scope.isShared then none else some coreId

/-- `_access_buffer_region` for a shape of one dimension. -/
def accessLinearRegion (bridge : BridgeBuffers) (coreId : Nat) (pointer : Pointer)
    (extent : RuntimeInt) : Except BridgeError (Option RuntimeRegion) :=
  match bridge.target pointer with
  | none => .ok none
  | some (name, annotated, offset) =>
    let declared := bridge.buffers name
    let dtype := annotated.getD declared.dtype
    (RuntimeRegion.check {
      buffer := name
      scope := declared.scope
      shape := [extent]
      dtype := dtype
      byteOffset := scaleRuntimeInt offset (dtypeSizeBytes dtype)
      stridesBytes := none
      coreId := ownerOf declared.scope coreId
      stridesRank := nofun }).map some

/-- `_access_buffer_region` for a shape of two dimensions. -/
def accessBufferRegion (bridge : BridgeBuffers) (coreId : Nat) (pointer : Pointer)
    (rows cols : RuntimeInt) (physicalCols rowStride : Option RuntimeInt) :
    Except BridgeError (Option RuntimeRegion) :=
  match bridge.target pointer with
  | none => .ok none
  | some (name, annotated, offset) =>
    let declared := bridge.buffers name
    let dtype := annotated.getD declared.dtype
    let itemsize := dtypeSizeBytes dtype
    match rowStrideElements declared physicalCols rowStride with
    | .error failure => .error failure
    | .ok stride =>
      (RuntimeRegion.check {
        buffer := name
        scope := declared.scope
        shape := [rows, cols]
        dtype := dtype
        byteOffset := scaleRuntimeInt offset itemsize
        stridesBytes := some [scaleRuntimeInt stride itemsize, .int itemsize]
        coreId := ownerOf declared.scope coreId
        stridesRank := by
          intro strides given
          rw [← Option.some.inj given]
          rfl }).map some

/-! ## Pointers and regions -/

theorem evaluateNat_ofNat (bindings : String → Option Int) (value : Nat) :
    evaluateNat bindings (.int value) = some value := by
  rw [evaluateNat, RuntimeInt.evaluate, Option.bind_some, if_pos (Int.natCast_nonneg _),
    Int.toNat_natCast]

/-- A pointer that is annotated with the element type of its buffer, or not at all. -/
def Pointer.MatchesBuffer (bridge : BridgeBuffers) (pointer : Pointer) : Prop :=
  ∀ name annotated offset, bridge.target pointer = some (name, some annotated, offset) →
    annotated = (bridge.buffers name).dtype

variable {bridge : BridgeBuffers} {pointer : Pointer} {region : RuntimeRegion} {coreId : Nat}
  {bindings : String → Option Int}

theorem name_of_target {name found : String} {annotated : Option DType}
    {offset : RuntimeInt} (named : pointer.dataName.bind bridge.nameByDataVar = some name)
    (targetIs : bridge.target pointer = some (found, annotated, offset)) : found = name := by
  cases pointer with
  | bare dataVar =>
    cases named
  | malformed =>
    cases named
  | access annotation dataVar given =>
    cases given with
    | none =>
      cases targetIs
    | some value =>
      change (bridge.nameByDataVar dataVar).map _ = _ at targetIs
      change bridge.nameByDataVar dataVar = some name at named
      rw [named] at targetIs
      exact (Prod.mk.inj (Option.some.inj targetIs)).1.symm

theorem reserve_dtype (bridge : BridgeBuffers) (name other : String) (requiredBytes : Nat) :
    ((bridge.reserve name requiredBytes).buffers other).dtype = (bridge.buffers other).dtype := by
  unfold BridgeBuffers.reserve
  dsimp only
  split
  · rename_i same
    rw [same]
    unfold DeclaredBuffer.reserveLayoutCapacity
    split
    · rfl
    · split
      · rfl
      · rfl
  · rfl

/-- A linear access that succeeds has the target of its pointer. -/
theorem accessLinear_eq_ok {extent : RuntimeInt} {byteOffset : Int}
    (accessed : accessLinearRegion bridge coreId pointer extent = .ok (some region))
    (offsetIs : region.byteOffset = .int byteOffset) :
    ∃ name annotated element,
      bridge.target pointer = some (name, annotated, .int element) ∧
        region.buffer = name ∧ region.shape = [extent] ∧ region.stridesBytes = none ∧
        region.dtype = annotated.getD (bridge.buffers name).dtype ∧
        byteOffset = element * dtypeSizeBytes region.dtype ∧ 0 ≤ byteOffset := by
  unfold accessLinearRegion at accessed
  split at accessed
  · cases accessed
  · rename_i name annotated offset targetIs
    dsimp only [RuntimeRegion.check] at accessed
    split at accessed
    · rename_i wellformed
      obtain rfl := Option.some.inj (Except.ok.inj accessed)
      cases offset with
      | int element =>
        obtain rfl := RuntimeInt.int.inj offsetIs
        refine ⟨name, annotated, element, targetIs, rfl, rfl, rfl, rfl, rfl, ?_⟩
        have notNegative := (Bool.or_eq_false_iff.mp (Bool.or_eq_false_iff.mp wellformed).1).2
        exact Int.not_lt.mp (of_decide_eq_false notNegative)
      | affine expression => cases offsetIs
      | binary operation left right => cases offsetIs
      | not argument => cases offsetIs
      | select condition left right => cases offsetIs
    · cases accessed

/-- A buffer access that succeeds has the shape of the call. -/
theorem accessBuffer_eq_ok {rows cols : RuntimeInt} {physicalCols rowStride : Option RuntimeInt}
    (accessed : accessBufferRegion bridge coreId pointer rows cols physicalCols rowStride =
      .ok (some region)) :
    region.shape = [rows, cols] := by
  unfold accessBufferRegion at accessed
  split at accessed
  · cases accessed
  · dsimp only at accessed
    split at accessed
    · cases accessed
    · dsimp only [RuntimeRegion.check] at accessed
      split at accessed
      · obtain rfl := Option.some.inj (Except.ok.inj accessed)
        rfl
      · cases accessed

theorem RuntimeRegion.exists_resolve {shape strides : List Nat} {byteOffset : Nat}
    (shapeIs : region.shape.mapM (evaluateNat bindings) = some shape)
    (offsetIs : evaluateNat bindings region.byteOffset = some byteOffset)
    (stridesAre : (region.stridesBytes.getD []).mapM (evaluateNat bindings) = some strides)
    (rank : region.stridesBytes.isSome → strides.length = shape.length) :
    ∃ concrete, region.resolve bindings = some concrete ∧ concrete.shape = shape ∧
      concrete.byteOffset = byteOffset ∧
      concrete.stridesBytes = (if region.stridesBytes.isSome then some strides else none) ∧
      concrete.dtype = region.dtype := by
  unfold RuntimeRegion.resolve RuntimeRegion.valued
  split
  · rename_i foundShape foundOffset foundStrides foundShapeIs foundOffsetIs foundStridesAre
    obtain rfl := Option.some.inj (foundShapeIs.symm.trans shapeIs)
    obtain rfl := Option.some.inj (foundOffsetIs.symm.trans offsetIs)
    obtain rfl := Option.some.inj (foundStridesAre.symm.trans stridesAre)
    exact ⟨_, dif_pos rank, rfl, rfl, rfl, rfl⟩
  · rename_i unresolved
    exact absurd stridesAre (unresolved _ _ _ shapeIs offsetIs)

/-- A resolved region has the evaluated shape and its element type. -/
theorem RuntimeRegion.resolve_eq_some {concrete : BufferRegion}
    (resolved : region.resolve bindings = some concrete) :
    region.shape.mapM (evaluateNat bindings) = some concrete.shape ∧
      concrete.dtype = region.dtype := by
  unfold RuntimeRegion.resolve RuntimeRegion.valued at resolved
  split at resolved
  · rename_i shapeIs _ _
    split at resolved
    · obtain rfl := Option.some.inj resolved
      exact ⟨shapeIs, rfl⟩
    · cases resolved
  · cases resolved

end TilelangAscend.Simulator.Bridge
