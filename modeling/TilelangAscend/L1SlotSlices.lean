import TilelangAscend.L1WindowReads

namespace TilelangAscend.Simulator.Bridge

open ExceptRules (exceptBind_eq_ok exceptGuard_eq_ok)
open Footprint (GemmCall)
open Memory (MemoryAllocation AddressSpace HazardMode)
open TileArrays (Axis)

/-!
# Slices of L1 slots

An accepted copy has taken its byte offset apart into a slot and a coordinate of the tile in it,
and a step of a `gemm_v0` reads windows inside its operands.  What both read is therefore the slice
of the unpacked slot at the origin.
-/

/-! ## The copy -/

/-- What an accepted copy has recorded. -/
structure L0Record
    (bridge reserved : BridgeBuffers)
    (coreId : Nat)
    (template : L1Template)
    (sourcePointer : Pointer)
    (dstM dstN : Argument)
    (copy : L0Copy)
    (name : String)
    (source : RuntimeRegion)
    (byteOffset : Int)
    (slotBase itemsize : Nat) :
    Prop where
  extents : l0Extents template dstM dstN = .ok (some copy.destinationShape)
  named : sourcePointer.dataName.bind bridge.nameByDataVar = some name
  inL1 : (bridge.buffers name).scope = .l1
  itemsizeIs : itemsize = dtypeSizeBytes (bridge.buffers name).dtype
  validItemsize : ValidItemsize itemsize
  reservedIs : reserved = bridge.reserve name
    (storageElements template.sourceLayout template.sourceShape itemsize * itemsize)
  accessed : accessLinearRegion reserved coreId sourcePointer
    (.int (storageElements template.sourceLayout template.sourceShape itemsize)) = .ok (some source)
  offsetIs : source.byteOffset = .int byteOffset
  aligned : byteOffset.toNat % 32 = 0
  found : slotOf template.sourceLayout template.sourceShape byteOffset.toNat itemsize =
    (slotBase, some copy.sourceOrigin)
  rowsInside :
    copy.sourceOrigin.1 + copy.destinationShape.rows ≤ template.sourceShape.rows
  colsInside :
    copy.sourceOrigin.2 + copy.destinationShape.cols ≤ template.sourceShape.cols
  sourceIs : copy.source = .of
    (windowSource template.transpose source template.sourceShape copy.sourceOrigin
      copy.destinationShape slotBase itemsize).1
  axisIs : copy.sourceRegionAxis =
    (windowSource template.transpose source template.sourceShape copy.sourceOrigin
      copy.destinationShape slotBase itemsize).2
  layoutIs : copy.sourceLayout = template.sourceLayout
  shapeIs : copy.sourceShape = template.sourceShape

variable {bridge reserved : BridgeBuffers} {coreId itemsize slotBase byteOffset : Nat}
  {template : L1Template} {dstM dstN : Argument} {sourcePointer pointer : Pointer}
  {copy : L0Copy} {shape : MatrixShape} {call : GemmCall} {bindings : String → Option Int}
  {region : RuntimeRegion}

theorem l1ToL0_eq_ok {target : L0Target} {destinationPointer : Pointer}
    (built :
      l1ToL0Metadata bridge coreId target template sourcePointer destinationPointer dstM dstN =
        .ok (some copy, reserved)) :
    ∃ name source byteOffset slotBase itemsize,
      L0Record bridge reserved coreId template sourcePointer dstM dstN copy name source
        byteOffset slotBase itemsize := by
  unfold l1ToL0Metadata at built
  obtain ⟨checked, extentsAre, built⟩ := exceptBind_eq_ok.mp built
  cases checked with
  | none =>
    cases built
  | some window =>
    dsimp only at built
    split at built
    · rename_i sourceName destinationName nameIs _
      obtain ⟨scopes, built⟩ := exceptGuard_eq_ok.mp built
      obtain ⟨_, built⟩ := exceptGuard_eq_ok.mp built
      obtain ⟨itemsize, built⟩ := exceptGuard_eq_ok.mp built
      obtain ⟨sourceFound, sourceIs, built⟩ := exceptBind_eq_ok.mp built
      obtain ⟨destinationFound, _, built⟩ := exceptBind_eq_ok.mp built
      cases sourceFound with
      | none =>
        cases built
      | some source =>
        cases destinationFound with
        | none =>
          cases built
        | some destination =>
          dsimp only at built
          split at built
          · rename_i byteOffset offsetIs
            obtain ⟨aligned, built⟩ := exceptGuard_eq_ok.mp built
            split at built
            · cases built
            · rename_i origin foundIs
              obtain ⟨inside, built⟩ := exceptGuard_eq_ok.mp built
              obtain ⟨_, _, built⟩ := exceptBind_eq_ok.mp built
              obtain ⟨recorded, rfl⟩ := Prod.mk.inj (Except.ok.inj built)
              obtain rfl := Option.some.inj recorded
              obtain ⟨rowsInside, colsInside⟩ := not_or.mp inside
              exact ⟨sourceName, source, byteOffset, _, _,
                { extents := extentsAre
                  named := nameIs
                  inL1 := not_not.mp (not_or.mp scopes).1
                  itemsizeIs := rfl
                  validItemsize := not_not.mp itemsize
                  reservedIs := rfl
                  accessed := sourceIs
                  offsetIs := offsetIs
                  aligned := not_not.mp aligned
                  found := Prod.ext rfl foundIs
                  rowsInside := Nat.not_lt.mp rowsInside
                  colsInside := Nat.not_lt.mp colsInside
                  sourceIs := rfl
                  axisIs := rfl
                  layoutIs := rfl
                  shapeIs := rfl }⟩
          · cases built
    · cases built

theorem l0Extents_pos {window : MatrixShape}
    (extents : l0Extents template dstM dstN = .ok (some window)) :
    0 < window.rows ∧ 0 < window.cols := by
  unfold l0Extents at extents
  split at extents
  · split at extents
    · rename_i rows cols _ _
      split at extents
      · cases extents
      · rename_i positive
        split at extents
        · cases extents
        · obtain rfl := Option.some.inj (Except.ok.inj extents)
          simp only [not_or, Int.not_le] at positive
          obtain ⟨_, _, rowsPositive, colsPositive⟩ := positive
          dsimp only
          omega
    · cases extents
  · cases extents

theorem slotOf_spec {layout : MatrixLayout} {element : Nat} {origin : Nat × Nat}
    (positive : 0 < itemsize)
    (found : slotOf layout shape (element * itemsize) itemsize = (slotBase, some origin)) :
    ∃ slot, slotBase = slot * storageElements layout shape itemsize ∧
      element = slotBase + elementOffset layout shape itemsize origin.1 origin.2 := by
  unfold slotOf at found
  rw [Nat.mul_div_cancel _ positive] at found
  obtain ⟨baseIs, originIs⟩ := Prod.mk.inj found
  have offsetIs := List.find?_some originIs
  rw [decide_eq_true_iff] at offsetIs
  split at baseIs
  · have below := Nat.div_mul_le_self element (storageElements layout shape itemsize)
    rw [if_pos ‹_›] at offsetIs
    exact ⟨_, baseIs.symm, by omega⟩
  · rw [if_neg ‹_›] at offsetIs
    exact ⟨0, by omega, by omega⟩

theorem L0Record.slicesSlot {name : String} {source : RuntimeRegion} {byteOffset : Int}
    (record : L0Record bridge reserved coreId template sourcePointer dstM dstN copy name source
      byteOffset slotBase itemsize)
    (matchesBuffer : sourcePointer.MatchesBuffer bridge) :
    ∃ annotated slot,
      bridge.target sourcePointer = some (name, annotated,
        .int (slot * storageElements copy.sourceLayout copy.sourceShape itemsize +
          elementOffset copy.sourceLayout copy.sourceShape itemsize copy.sourceOrigin.1
            copy.sourceOrigin.2 : Nat)) ∧
      ∀ bindings, SlicesSlot bindings copy.source copy.sourceRegionAxis copy.sourceLayout
        copy.sourceShape itemsize
        (slot * storageElements copy.sourceLayout copy.sourceShape itemsize * itemsize)
        copy.sourceOrigin copy.destinationShape := by
  have positive : 0 < itemsize := record.validItemsize.1
  obtain ⟨rowsPositive, colsPositive⟩ := l0Extents_pos record.extents
  obtain ⟨found, annotated, element, targetIs, _, _, _, dtypeIs, byteOffsetIs, notNegative⟩ :=
    accessLinear_eq_ok record.accessed record.offsetIs
  have sameTarget : bridge.target sourcePointer = some (found, annotated, .int element) := by
    rw [← targetIs, record.reservedIs]
    rfl
  obtain rfl := name_of_target record.named sameTarget
  have width : dtypeSizeBytes source.dtype = itemsize := by
    rw [dtypeIs, record.reservedIs, reserve_dtype, record.itemsizeIs]
    cases annotated with
    | none => rfl
    | some dtype => exact congrArg dtypeSizeBytes (matchesBuffer found dtype _ sameTarget)
  have elementPositive : 0 ≤ element := by
    rw [byteOffsetIs, width] at notNegative
    exact Int.nonneg_of_mul_nonneg_left notNegative (by omega)
  obtain ⟨index, rfl⟩ := Int.eq_ofNat_of_zero_le elementPositive
  have byteOffsetNat : byteOffset.toNat = index * itemsize := by
    rw [byteOffsetIs, width, ← Int.natCast_mul, Int.toNat_natCast]
  have slotIs := record.found
  rw [byteOffsetNat] at slotIs
  obtain ⟨slot, rfl, rfl⟩ := slotOf_spec positive slotIs
  rw [record.layoutIs, record.shapeIs, record.sourceIs, record.axisIs]
  exact ⟨annotated, slot, sameTarget, fun bindings =>
    windowSource_slicesSlot record.validItemsize width rowsPositive colsPositive record.rowsInside
      record.colsInside⟩

/-! ## The steps of `gemm_v0` -/

/-- The columns of a product have a value within those of its template. -/
def ColumnsInRange (call : GemmCall) (bindings : String → Option Int) : Prop :=
  ∃ count : Nat, call.actualCols.evaluate bindings = some (count : Int) ∧
    0 < count ∧ count ≤ call.cols

/-- What the checks of a `gemm_v0` establish for its windows. -/
structure AcceptedExtents (call : GemmCall) : Prop where
  someRows : 0 < call.rows
  someCols : 0 < call.cols
  someInner : 0 < call.inner
  someStep : 0 < call.kL0Size
  columns : call.checkColumns = .ok ()
  supported : call.Supported
  someTile : 0 < call.nTile

theorem acceptedExtents_of_metadata (accepted : call.metadata = .ok ()) :
    AcceptedExtents call := by
  obtain ⟨extents, accepted⟩ := exceptGuard_eq_ok.mp accepted
  obtain ⟨_, accepted⟩ := exceptGuard_eq_ok.mp accepted
  obtain ⟨_, columns, accepted⟩ := exceptBind_eq_ok.mp accepted
  obtain ⟨supported, accepted⟩ := exceptGuard_eq_ok.mp accepted
  obtain ⟨tiling, _⟩ := exceptGuard_eq_ok.mp accepted
  simp only [not_or] at extents tiling
  obtain ⟨rows, cols, inner, kL0Size⟩ := extents
  exact
    { someRows := Nat.pos_of_ne_zero rows
      someCols := Nat.pos_of_ne_zero cols
      someInner := Nat.pos_of_ne_zero inner
      someStep := Nat.pos_of_ne_zero kL0Size
      columns := columns
      supported := not_not.mp supported
      someTile := Nat.pos_of_ne_zero tiling.1 }

theorem AcceptedExtents.columnsInRange (accepted : AcceptedExtents call)
    (runtime : ¬ call.actualCols.IsStatic → ColumnsInRange call bindings) :
    ColumnsInRange call bindings := by
  by_cases static : call.actualCols.IsStatic
  · have columns := accepted.columns
    have someCols := accepted.someCols
    unfold GemmCall.checkColumns at columns
    unfold ColumnsInRange
    unfold GemmCall.actualCols at static ⊢
    cases given : call.nActual with
    | none => exact ⟨call.cols, rfl, someCols, le_rfl⟩
    | some actual =>
      rw [given] at columns static
      obtain ⟨_, checked, _⟩ := exceptBind_eq_ok.mp columns
      cases actual with
      | int value =>
        unfold Footprint.checkActual at checked
        dsimp only at checked
        split at checked
        · cases checked
        · rename_i inRange
          obtain ⟨positive, below⟩ := not_or.mp inRange
          obtain ⟨count, rfl⟩ := Int.eq_ofNat_of_zero_le (by omega : 0 ≤ value)
          exact ⟨count, rfl, by omega, by omega⟩
      | affine expression => exact static.elim
      | binary operation left right => exact static.elim
      | not argument => exact static.elim
      | select condition left right => exact static.elim
  · exact runtime static

/-- A window that lies in its matrix for some number of rows. -/
structure OperandWindow.Within
    (window : OperandWindow)
    (rows : Nat) :
    Prop where
  rowsPositive : 0 < rows
  colsPositive : 0 < window.cols
  rowsInside : window.origin.1 + rows ≤ window.shape.rows
  colsInside : window.origin.2 + window.cols ≤ window.shape.cols

theorem AcceptedExtents.kSize_within (accepted : AcceptedExtents call) (step : Nat) :
    0 < call.kSize step ∧ step % call.kSplit * call.kL0Size + call.kSize step ≤ call.inner := by
  have someStep := accepted.someStep
  have someInner := accepted.someInner
  have someSplit : 0 < call.kSplit := Nat.div_pos (by omega) someStep
  have below : (step % call.kSplit + 1) * call.kL0Size ≤ call.inner + call.kL0Size - 1 :=
    (Nat.le_div_iff_mul_le someStep).mp (Nat.mod_lt step someSplit)
  rw [Nat.succ_mul] at below
  unfold GemmCall.kSize
  omega

theorem AcceptedExtents.leftWindow_within (accepted : AcceptedExtents call)
    (bindings : String → Option Int) (step : Nat) :
    ∃ rows, evaluateNat bindings (leftWindow call step).rows = some rows ∧
      (leftWindow call step).Within rows := by
  have someRows := accepted.someRows
  obtain ⟨someSize, inInner⟩ := accepted.kSize_within step
  unfold leftWindow
  dsimp only
  split
  · exact ⟨_, evaluateNat_ofNat bindings _, someSize, someRows, inInner, by simp⟩
  · exact ⟨_, evaluateNat_ofNat bindings _, someRows, someSize, by simp, inInner⟩

theorem AcceptedExtents.rightWindow_within {step : Nat} (accepted : AcceptedExtents call)
    (columns : ColumnsInRange call bindings) (inSteps : step < call.stepCount) :
    ∃ rows, evaluateNat bindings (rightWindow call step).rows = some rows ∧
      (rightWindow call step).Within rows := by
  have someTile := accepted.someTile
  obtain ⟨someSize, inInner⟩ := accepted.kSize_within step
  have tileInside : step / call.kSplit < call.cols / call.nTile := Nat.div_lt_of_lt_mul inSteps
  unfold rightWindow
  dsimp only
  split
  · rename_i transposed
    obtain ⟨count, evaluates, somePositive, below⟩ := columns
    have oneTile : call.nTile = call.cols := if_pos (.inl transposed)
    rw [oneTile, Nat.div_self accepted.someCols, Nat.lt_one_iff] at tileInside
    refine ⟨count, ?_, somePositive, someSize, ?_, inInner⟩
    · rw [GemmCall.nSize, if_pos transposed, evaluateNat, evaluates, Option.bind_some,
        if_pos (Int.natCast_nonneg _), Int.toNat_natCast]
    · dsimp only
      rw [tileInside, Nat.zero_mul, Nat.zero_add]
      exact below
  · refine ⟨_, evaluateNat_ofNat bindings _, someSize, someTile, inInner, ?_⟩
    calc step / call.kSplit * call.nTile + call.nTile
        = (step / call.kSplit + 1) * call.nTile := (Nat.succ_mul _ _).symm
      _ ≤ call.cols / call.nTile * call.nTile := Nat.mul_le_mul_right _ tileInside
      _ ≤ call.cols := Nat.div_mul_le_self _ _

theorem gemmOperand_eq_ok
    (found : gemmOperand bridge coreId call pointer shape = .ok (some (region, byteOffset))) :
    dtypeSizeBytes region.dtype = call.input.sizeBytes ∧ region.byteOffset = .int byteOffset ∧
      ∃ slot, byteOffset =
        slot * storageElements .zN shape call.input.sizeBytes * call.input.sizeBytes := by
  obtain ⟨checked, accessed, found⟩ := exceptBind_eq_ok.mp found
  cases checked with
  | none =>
    cases found
  | some source =>
    obtain ⟨_, found⟩ := exceptGuard_eq_ok.mp found
    obtain ⟨dtypes, found⟩ := exceptGuard_eq_ok.mp found
    obtain ⟨_, aligned, found⟩ := exceptBind_eq_ok.mp found
    split at found
    · rename_i offset offsetIs
      obtain ⟨rfl, rfl⟩ := Prod.mk.inj (Option.some.inj (Except.ok.inj found))
      have width : dtypeSizeBytes source.dtype = call.input.sizeBytes := by
        rw [not_not.mp dtypes]
        cases call.input with
        | _ => rfl
      obtain ⟨_, _, _, _, _, _, _, _, _, notNegative⟩ := accessLinear_eq_ok accessed offsetIs
      unfold checkOperandTile at aligned
      rw [offsetIs, width] at aligned
      dsimp only at aligned
      split at aligned
      · cases aligned
      · rename_i whole
        obtain ⟨slot, slotIs⟩ := Nat.dvd_of_mod_eq_zero (not_not.mp whole)
        refine ⟨width, ?_, slot, ?_⟩
        · rw [offsetIs, Int.toNat_of_nonneg notNegative]
        · rw [slotIs, Nat.mul_comm, Nat.mul_assoc]
    · cases found

theorem AcceptedExtents.operandWindow_slicesSlot {rows : Nat} {window : OperandWindow}
    (accepted : AcceptedExtents call)
    (found : gemmOperand bridge coreId call pointer window.shape = .ok (some (region, byteOffset)))
    (evaluates : evaluateNat bindings window.rows = some rows)
    (within : window.Within rows) :
    SlicesSlot bindings
      (.of (sourceWindowRegions region byteOffset window call.input.sizeBytes))
      .cols .zN window.shape call.input.sizeBytes byteOffset window.origin ⟨rows, window.cols⟩ := by
  obtain ⟨width, _, _⟩ := gemmOperand_eq_ok found
  have valid : ValidItemsize call.input.sizeBytes := by
    rcases accepted.supported.width with is | is | is
    all_goals
      rw [is]
      decide
  exact zNWindow_slicesSlot ⟨rows, window.cols⟩ valid width evaluates
    within.rowsPositive within.colsPositive within.rowsInside within.colsInside

/-! ## Both -/

/-- Two slots of a half matrix and two of an int8 one in L1, and a tile in L0A. -/
def slottedBuffers : BridgeBuffers where
  nameByDataVar := some
  buffers := fun name =>
    if name = "halves" then
      ⟨.l1, [.int 2, .int 16, .int 32], elementType .float16, none, none, false⟩
    else if name = "bytes" then
      ⟨.l1, [.int 2, .int 16, .int 64], elementType .int8, none, none, false⟩
    else
      ⟨.l0a, [.int 16, .int 32], elementType .float16, none, none, false⟩

/-- The second row of the second half matrix. -/
def secondSlotRow : Pointer :=
  .access (some (elementType .float16)) "halves" (some (.int 528))

/-- The second int8 matrix. -/
def secondBytes : Pointer :=
  .access (some (elementType .int8)) "bytes" (some (.int 1024))

end TilelangAscend.Simulator.Bridge
