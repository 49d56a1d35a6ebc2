import TilelangAscend.GmCopies

namespace TilelangAscend.Simulator.Bridge

open ExceptRules (exceptBind_eq_ok exceptGuard_eq_ok)

/-!
# The row stride of the GM side

A tile in GM is a window of a wider tensor: its rows are as far apart as the stride argument of
the copy says.  The builders that pass the argument on honour it; where it is not passed, or
cannot be resolved, the last declared extent of the buffer takes its place.
-/

/-- The bytes of a tile whose rows are some elements apart. -/
def tileBytes (base rows cols stride itemsize : Nat) : List Nat :=
  (List.range rows).flatMap fun row =>
    (List.range cols).flatMap fun col =>
      (List.range itemsize).map fun part => base + (row * stride + col) * itemsize + part

/-- A region is a tile with the given extents and row stride. -/
def HonoursStride (region : RuntimeRegion) (bindings : String → Option Int)
    (rows cols stride : Nat) : Prop :=
  ∃ concrete, region.resolve bindings = some concrete ∧
    concrete.stridesBytes = some [stride * region.itemsize, region.itemsize] ∧
    concrete.bytes = tileBytes concrete.byteOffset rows cols stride region.itemsize

/-- The last declared extent of the buffer that a pointer names. -/
def BridgeBuffers.declaredWidth (bridge : BridgeBuffers) (pointer : Pointer) : Option RuntimeInt :=
  (bridge.target pointer).bind fun found => (bridge.buffers found.1).shape.getLast?

section Resolution

variable {bindings : String → Option Int}

theorem evaluateNat_eq_some {value : RuntimeInt} {result : Nat} :
    evaluateNat bindings value = some result ↔ value.evaluate bindings = some (result : Int) := by
  unfold evaluateNat
  cases evaluated : value.evaluate bindings with
  | none => simp
  | some number =>
    simp only [Option.bind_some, Option.some.injEq]
    split
    · rename_i nonneg
      rw [Option.some.injEq]
      omega
    · rename_i negative
      simp only [reduceCtorEq, false_iff]
      omega

end Resolution

theorem bytes_eq_tileBytes {region : BufferRegion} {rows cols stride : Nat}
    (shapeIs : region.shape = [rows, cols])
    (stridesAre : region.stridesBytes = some [stride * region.itemsize, region.itemsize]) :
    region.bytes = tileBytes region.byteOffset rows cols stride region.itemsize := by
  have dims : region.dims = [(rows, stride * region.itemsize), (cols, region.itemsize)] := by
    simp only [BufferRegion.dims, BufferRegion.strides, stridesAre, shapeIs, List.zip_cons_cons,
      List.zip_nil_right]
  simp only [BufferRegion.bytes, dims, elementOffsets, List.map_cons, List.map_nil,
    List.flatMap_assoc, List.flatMap_cons, List.flatMap_nil, List.append_nil,
    tileBytes, List.map_flatMap, Nat.add_mul, Nat.add_zero]
  simp only [Nat.mul_assoc, Nat.add_assoc]

/-- What a region of two dimensions is made of. -/
structure RowTile
    (bridge : BridgeBuffers)
    (pointer : Pointer)
    (rows cols stride : RuntimeInt)
    (region : RuntimeRegion) :
    Prop where
  target : ∃ found ∈ bridge.target pointer,
    region.byteOffset = scaleRuntimeInt found.2.2 region.itemsize
  shapeIs : region.shape = [rows, cols]
  stridesAre : region.stridesBytes =
    some [scaleRuntimeInt stride region.itemsize, .int region.itemsize]

variable {region : RuntimeRegion} {bridge : BridgeBuffers} {coreId : Nat} {pointer : Pointer}
  {physicalCols : Option RuntimeInt}

theorem rowTile_of_access {rows cols : RuntimeInt} {rowStride : Option RuntimeInt}
    (accessed :
      accessBufferRegion bridge coreId pointer rows cols physicalCols rowStride =
        .ok (some region)) :
    ∃ found ∈ bridge.target pointer, ∃ stride,
      rowStrideElements (bridge.buffers found.1) physicalCols rowStride = .ok stride ∧
        RowTile bridge pointer rows cols stride region := by
  unfold accessBufferRegion at accessed
  split at accessed
  · cases accessed
  rename_i name annotated offset found
  dsimp only at accessed
  split at accessed
  · cases accessed
  rename_i stride strideIs
  refine ⟨_, found, stride, strideIs, ?_⟩
  unfold RuntimeRegion.check at accessed
  split at accessed
  · obtain rfl := Option.some.inj (Except.ok.inj accessed)
    exact ⟨⟨_, found, rfl⟩, rfl, rfl⟩
  · cases accessed

section Tile

variable {bridge : BridgeBuffers} {pointer : Pointer} {rows cols stride : RuntimeInt}
  {region : RuntimeRegion} {bindings : String → Option Int}
  {rowCount colCount offset width : Nat}

theorem RowTile.resolve_eq_some (tile : RowTile bridge pointer rows cols stride region)
    (rowsAre : rows.evaluate bindings = some (rowCount : Int))
    (colsAre : cols.evaluate bindings = some (colCount : Int))
    (offsetIs : ∀ found ∈ bridge.target pointer, found.2.2.evaluate bindings = some (offset : Int))
    (widthIs : stride.evaluate bindings = some (width : Int)) :
    ∃ concrete, region.resolve bindings = some concrete ∧
      concrete.shape = [rowCount, colCount] ∧ concrete.itemsize = region.itemsize ∧
      concrete.stridesBytes = some [width * region.itemsize, region.itemsize] := by
  obtain ⟨⟨found, member, offsetField⟩, shapeField, stridesField⟩ := tile
  have shapeValue : region.shape.mapM (evaluateNat bindings) = some [rowCount, colCount] := by
    rw [shapeField]
    simp only [List.mapM_cons, List.mapM_nil, evaluateNat_eq_some.mpr rowsAre,
      evaluateNat_eq_some.mpr colsAre, Option.pure_def, Option.bind_eq_bind, Option.bind_some]
  have offsetValue : evaluateNat bindings region.byteOffset = some (offset * region.itemsize) := by
    rw [offsetField, evaluateNat_eq_some, evaluate_scaleRuntimeInt (offsetIs found member),
      Nat.cast_mul]
  have stridesValue :
      (region.stridesBytes.getD []).mapM (evaluateNat bindings) =
        some [width * region.itemsize, region.itemsize] := by
    have strideValue :
        evaluateNat bindings (scaleRuntimeInt stride region.itemsize) =
          some (width * region.itemsize) := by
      rw [evaluateNat_eq_some, evaluate_scaleRuntimeInt widthIs, Nat.cast_mul]
    have itemValue : evaluateNat bindings (.int region.itemsize) = some region.itemsize :=
      evaluateNat_eq_some.mpr rfl
    rw [stridesField]
    simp only [Option.getD_some, List.mapM_cons, List.mapM_nil, strideValue, itemValue,
      Option.pure_def, Option.bind_eq_bind, Option.bind_some]
  have given : region.stridesBytes.isSome = true := by
    rw [stridesField]
    rfl
  unfold RuntimeRegion.resolve RuntimeRegion.valued
  split
  · rename_i shape byteOffset strides shapeIs offsetIs stridesAre
    obtain rfl := Option.some.inj (shapeIs.symm.trans shapeValue)
    obtain rfl := Option.some.inj (stridesAre.symm.trans stridesValue)
    refine ⟨_, dif_pos fun _ => rfl, rfl, rfl, if_pos given⟩
  · rename_i unresolved
    exact absurd stridesValue (unresolved _ _ _ shapeValue offsetValue)

theorem RowTile.honoursStride_iff (tile : RowTile bridge pointer rows cols stride region)
    (rowsAre : rows.evaluate bindings = some (rowCount : Int))
    (colsAre : cols.evaluate bindings = some (colCount : Int))
    (offsetIs : ∀ found ∈ bridge.target pointer, found.2.2.evaluate bindings = some (offset : Int))
    (widthIs : stride.evaluate bindings = some (width : Int))
    (given : Nat) :
    HonoursStride region bindings rowCount colCount given ↔
      region.itemsize = 0 ∨ width = given := by
  obtain ⟨concrete, resolved, shapeIs, sameItem, stridesAre⟩ :=
    tile.resolve_eq_some rowsAre colsAre offsetIs widthIs
  have ownBytes := bytes_eq_tileBytes shapeIs (sameItem ▸ stridesAre)
  rw [sameItem] at ownBytes
  constructor
  · rintro ⟨other, resolvedOther, stridesOther, _⟩
    obtain rfl := Option.some.inj (resolved.symm.trans resolvedOther)
    have same := Option.some.inj (stridesAre.symm.trans stridesOther)
    have product : width * region.itemsize = given * region.itemsize := (List.cons.inj same).1
    rcases Nat.eq_zero_or_pos region.itemsize with empty | positive
    · exact .inl empty
    · exact .inr (Nat.eq_of_mul_eq_mul_right positive product)
  · intro agrees
    refine ⟨concrete, resolved, ?_, ?_⟩
    · rcases agrees with empty | same
      · rw [stridesAre, empty, Nat.mul_zero, Nat.mul_zero]
      · rw [stridesAre, same]
    · rcases agrees with empty | same
      · rw [ownBytes, empty]
        simp only [tileBytes, List.range_zero, List.map_nil]
      · rw [ownBytes, same]

end Tile

/-! ## The copies -/

/-- A two-dimensional copy that carries the row stride of its GM side. -/
inductive GmCopy where
  /-- `copy_gm_to_ub` and `copy_ub_to_gm` -/
  | ub (gmToUb : Bool) (source destination : Pointer) (strideN validRows validCols : Argument)
      (others : List Argument)
  /-- `copy_gm_to_l1_linear` -/
  | l1Linear (source destination : Pointer) (realSrcN validM validN dstM dstN : Argument)
  /-- `copy_gm_to_l1` -/
  | l1Zn (source destination : Pointer) (realSrcN validM validN dstM dstN : Argument)
  /-- `copy_l0c_to_gm` -/
  | l0c (template : FixTemplate) (source destination : Pointer)
      (dstStrideN validM validN srcM srcN : Argument) (enableRelu : Option Int)
      (unitFlag : Argument)

namespace GmCopy

/-- The GM side that a builder records. -/
def gmRegion
    (bridge : BridgeBuffers)
    (coreId : Nat) :
    GmCopy → Except BridgeError (Option RuntimeRegion)
  | .ub gmToUb source destination strideN validRows validCols others =>
    (copyMetadata bridge coreId gmToUb source destination strideN validRows validCols
      others).map (Option.map fun copy => if gmToUb then copy.src else copy.dst)
  | .l1Linear source destination realSrcN validM validN dstM dstN =>
    (gmToL1LinearMetadata bridge coreId source destination realSrcN validM validN dstM
      dstN).map (Option.map CopyOperands.src)
  | .l1Zn source destination realSrcN validM validN dstM dstN =>
    (gmToL1ZnMetadata bridge coreId source destination realSrcN validM validN dstM dstN).map
      fun result => result.1.map ZnCopy.src
  | .l0c template source destination dstStrideN validM validN srcM srcN enableRelu unitFlag =>
    (l0cToGmMetadata bridge coreId template source destination dstStrideN validM validN srcM
      srcN enableRelu unitFlag).map (Option.map FixCopy.dst)

/-- The pointer to GM. -/
def gmPointer : GmCopy → Pointer
  | .ub gmToUb source destination _ _ _ _ => if gmToUb then source else destination
  | .l1Linear source _ _ _ _ _ _ => source
  | .l1Zn source _ _ _ _ _ _ => source
  | .l0c _ _ destination _ _ _ _ _ _ _ => destination

/-- The valid rows. -/
def rows : GmCopy → Argument
  | .ub _ _ _ _ validRows _ _ => validRows
  | .l1Linear _ _ _ validM _ _ _ => validM
  | .l1Zn _ _ _ validM _ _ _ => validM
  | .l0c _ _ _ _ validM _ _ _ _ _ => validM

/-- The valid columns. -/
def cols : GmCopy → Argument
  | .ub _ _ _ _ _ validCols _ => validCols
  | .l1Linear _ _ _ _ validN _ _ => validN
  | .l1Zn _ _ _ _ validN _ _ => validN
  | .l0c _ _ _ _ _ validN _ _ _ _ => validN

/-- The GM row stride in elements. -/
def stride : GmCopy → Argument
  | .ub _ _ _ strideN _ _ _ => strideN
  | .l1Linear _ _ realSrcN _ _ _ _ => realSrcN
  | .l1Zn _ _ realSrcN _ _ _ _ => realSrcN
  | .l0c _ _ _ dstStrideN _ _ _ _ _ _ => dstStrideN

/-- The copy is not one from L0C, and its stride argument can be resolved. -/
def StrideTaken : GmCopy → Prop
  | .ub _ _ _ strideN _ _ _ => strideN.resolved.isSome
  | .l1Linear _ _ _ _ _ _ _ => True
  | .l1Zn _ _ _ _ _ _ _ => True
  | .l0c _ _ _ _ _ _ _ _ _ _ => False

/-- A resolved argument, and the tile whose row stride is it or the declared width. -/
def RecordsTile (copy : GmCopy) (bridge : BridgeBuffers) (region : RuntimeRegion) : Prop :=
  ∃ rows ∈ copy.rows.resolved, ∃ cols ∈ copy.cols.resolved, ∃ stride,
    RowTile bridge copy.gmPointer rows cols stride region ∧
      ((copy.StrideTaken ∧ stride ∈ copy.stride.resolved) ∨
        (¬ copy.StrideTaken ∧ stride ∈ bridge.declaredWidth copy.gmPointer))

end GmCopy

theorem rowTile_explicit {rows cols stride : RuntimeInt}
    (accessed :
      accessBufferRegion bridge coreId pointer rows cols physicalCols (some stride) =
        .ok (some region)) :
    RowTile bridge pointer rows cols stride region := by
  obtain ⟨found, _, used, strideIs, tile⟩ := rowTile_of_access accessed
  obtain rfl : stride = used := Except.ok.inj strideIs
  exact tile

theorem rowTile_declared {rows cols : RuntimeInt}
    (accessed : accessBufferRegion bridge coreId pointer rows cols none none = .ok (some region)) :
    ∃ stride ∈ bridge.declaredWidth pointer, RowTile bridge pointer rows cols stride region := by
  obtain ⟨found, isTarget, used, strideIs, tile⟩ := rowTile_of_access accessed
  refine ⟨used, ?_, tile⟩
  unfold BridgeBuffers.declaredWidth
  rw [Option.mem_def.mp isTarget, Option.bind_some]
  unfold rowStrideElements at strideIs
  split at strideIs
  · rename_i given
    cases given
  · rename_i given
    cases given
  · rename_i extent _ _ last
    obtain rfl := Except.ok.inj strideIs
    exact last
  · cases strideIs

theorem exists_of_map_eq_ok {α : Type} {result : Except BridgeError (Option α)}
    {convert : α → RuntimeRegion} (mapped : result.map (Option.map convert) = .ok (some region)) :
    ∃ value, result = .ok (some value) ∧ convert value = region := by
  match result, mapped with
  | .ok (some value), mapped => exact ⟨value, rfl, Option.some.inj (Except.ok.inj mapped)⟩

section Builders

variable {bridge : BridgeBuffers} {coreId : Nat} {source destination : Pointer}
  {copy : CopyOperands} {validM validN realSrcN dstM dstN dstStrideN srcM srcN : Argument}
  {template : FixTemplate}

theorem copyMetadata_gmSide {gmToUb : Bool} {strideN validRows validCols : Argument}
    {others : List Argument}
    (built :
      copyMetadata bridge coreId gmToUb source destination strideN validRows validCols others =
        .ok (some copy)) :
    ∃ rows ∈ validRows.resolved, ∃ cols ∈ validCols.resolved,
      accessBufferRegion bridge coreId (if gmToUb then source else destination) rows cols none
          strideN.resolved =
        .ok (some (if gmToUb then copy.src else copy.dst)) := by
  unfold copyMetadata at built
  split at built
  · rename_i rows cols rowsAre colsAre
    refine ⟨rows, rowsAre, cols, colsAre, ?_⟩
    split at built
    · cases built
    dsimp only at built
    split at built
    · cases built
    split at built
    · cases built
    obtain ⟨src, srcIs, built⟩ := exceptBind_eq_ok.mp built
    obtain ⟨dst, dstIs, built⟩ := exceptBind_eq_ok.mp built
    split at built
    · obtain rfl := Option.some.inj (Except.ok.inj built)
      cases gmToUb with
      | true => exact srcIs
      | false => exact dstIs
    · cases built
  · cases built

theorem gmToL1Linear_gmSide
    (built :
      gmToL1LinearMetadata bridge coreId source destination realSrcN validM validN dstM dstN =
        .ok (some copy)) :
    ∃ rows ∈ validM.resolved, ∃ cols ∈ validN.resolved, ∃ stride ∈ realSrcN.resolved,
      accessBufferRegion bridge coreId source rows cols none (some stride) =
        .ok (some copy.src) := by
  unfold gmToL1LinearMetadata at built
  split at built
  · rename_i stride rows cols physicalRows physicalCols strideIs rowsAre colsAre _ _
    refine ⟨rows, rowsAre, cols, colsAre, stride, strideIs, ?_⟩
    dsimp only at built
    split at built
    · cases built
    split at built
    · cases built
    obtain ⟨src, srcIs, built⟩ := exceptBind_eq_ok.mp built
    obtain ⟨dst, dstIs, built⟩ := exceptBind_eq_ok.mp built
    split at built
    · split at built
      · cases built
      split at built
      · cases built
      split at built
      · cases built
      obtain rfl := Option.some.inj (Except.ok.inj built)
      exact srcIs
    · cases built
  · cases built

theorem Argument.resolved_of_static {argument : Argument} {value : Int}
    (isStatic : argument.static = some value) : argument.resolved = some (.int value) := by
  unfold Argument.static at isStatic
  split at isStatic
  · rename_i literal found
    rw [found, Option.some.inj isStatic]
  · cases isStatic

theorem znExtents_eq_ok {extents : ZnExtents}
    (accepted : znExtents realSrcN validM validN dstM dstN = .ok (some extents)) :
    realSrcN.resolved = some (.int extents.sourceCols) ∧
      validM.resolved = some (.int extents.validRows) ∧
      validN.resolved = some (.int extents.validCols) ∧
      0 < extents.physicalRows ∧ 0 < extents.physicalCols ∧
      extents.validRows ≤ extents.physicalRows ∧ extents.validCols ≤ extents.physicalCols ∧
      extents.validCols ≤ extents.sourceCols := by
  unfold znExtents at accepted
  split at accepted
  · split at accepted
    · rename_i sourceCols validRows validCols physicalRows physicalCols sourceIs rowsAre colsAre
        _ _
      split at accepted
      · cases accepted
      rename_i nonneg
      split at accepted
      · cases accepted
      split at accepted
      · cases accepted
      split at accepted
      · cases accepted
      obtain rfl := Option.some.inj (Except.ok.inj accepted)
      push Not at nonneg
      rw [Argument.resolved_of_static sourceIs, Argument.resolved_of_static rowsAre,
        Argument.resolved_of_static colsAre]
      dsimp only
      rw [Int.toNat_of_nonneg nonneg.1, Int.toNat_of_nonneg nonneg.2.1,
        Int.toNat_of_nonneg nonneg.2.2.1]
      exact ⟨rfl, rfl, rfl, by omega, by omega, by omega, by omega, by omega⟩
    · cases accepted
  · cases accepted

theorem gmToL1Zn_gmSide {copy : ZnCopy} {reserved : BridgeBuffers}
    (built :
      gmToL1ZnMetadata bridge coreId source destination realSrcN validM validN dstM dstN =
        .ok (some copy, reserved)) :
    ∃ rows ∈ validM.resolved, ∃ cols ∈ validN.resolved, ∃ stride ∈ realSrcN.resolved,
      accessBufferRegion bridge coreId source rows cols none (some stride) =
        .ok (some copy.src) := by
  obtain ⟨extents, name, dst, byteOffset, extentsAre, recorded⟩ := gmToL1Zn_eq_ok built
  obtain ⟨strideIs, rowsAre, colsAre, _⟩ := znExtents_eq_ok extentsAre
  exact ⟨_, rowsAre, _, colsAre, _, strideIs, recorded.source⟩

theorem fixExtents_eq_ok {extents : FixExtents}
    (accepted : fixExtents template dstStrideN validM validN srcM srcN = .ok (some extents)) :
    validM.resolved = some (.int extents.validRows) ∧
      validN.resolved = some (.int extents.validCols) := by
  unfold fixExtents at accepted
  split at accepted
  · split at accepted
    · rename_i destinationCols validRows validCols physicalRows physicalCols _ rowsAre colsAre _ _
      split at accepted
      · cases accepted
      split at accepted
      · cases accepted
      rename_i nonneg
      split at accepted
      · cases accepted
      split at accepted
      · cases accepted
      split at accepted
      · cases accepted
      obtain rfl := Option.some.inj (Except.ok.inj accepted)
      push Not at nonneg
      rw [Argument.resolved_of_static rowsAre, Argument.resolved_of_static colsAre]
      dsimp only
      rw [Int.toNat_of_nonneg nonneg.1, Int.toNat_of_nonneg nonneg.2]
      exact ⟨rfl, rfl⟩
    · cases accepted
  · cases accepted

theorem l0cToGm_gmSide {unitFlag : Argument} {enableRelu : Option Int} {copy : FixCopy}
    (built :
      l0cToGmMetadata bridge coreId template source destination dstStrideN validM validN srcM
        srcN enableRelu unitFlag = .ok (some copy)) :
    ∃ rows ∈ validM.resolved, ∃ cols ∈ validN.resolved,
      accessBufferRegion bridge coreId destination rows cols none none = .ok (some copy.dst) := by
  unfold l0cToGmMetadata at built
  obtain ⟨_, built⟩ := exceptGuard_eq_ok.mp built
  obtain ⟨checked, extentsAre, built⟩ := exceptBind_eq_ok.mp built
  cases checked with
  | none =>
    cases built
  | some extents =>
    obtain ⟨rowsAre, colsAre⟩ := fixExtents_eq_ok extentsAre
    refine ⟨_, rowsAre, _, colsAre, ?_⟩
    obtain ⟨flag, _, built⟩ := exceptBind_eq_ok.mp built
    split at built
    · cases built
    obtain ⟨_, built⟩ := exceptGuard_eq_ok.mp built
    obtain ⟨src, srcIs, built⟩ := exceptBind_eq_ok.mp built
    obtain ⟨dst, dstIs, built⟩ := exceptBind_eq_ok.mp built
    split at built
    · obtain ⟨_, built⟩ := exceptGuard_eq_ok.mp built
      obtain ⟨_, built⟩ := exceptGuard_eq_ok.mp built
      obtain ⟨_, built⟩ := exceptGuard_eq_ok.mp built
      split at built
      · obtain ⟨_, built⟩ := exceptGuard_eq_ok.mp built
        obtain ⟨_, built⟩ := exceptGuard_eq_ok.mp built
        obtain rfl := Option.some.inj (Except.ok.inj built)
        exact dstIs
      · cases built
    · cases built

theorem GmCopy.recordsTile {copy : GmCopy} {region : RuntimeRegion}
    (accepted : copy.gmRegion bridge coreId = .ok (some region)) :
    copy.RecordsTile bridge region := by
  cases copy with
  | ub gmToUb source destination strideN validRows validCols others =>
    obtain ⟨operands, built, rfl⟩ := exists_of_map_eq_ok accepted
    obtain ⟨rows, rowsAre, cols, colsAre, accessed⟩ := copyMetadata_gmSide built
    refine ⟨rows, rowsAre, cols, colsAre, ?_⟩
    cases resolved : strideN.resolved with
    | some stride =>
      rw [resolved] at accessed
      refine ⟨stride, rowTile_explicit accessed, .inl ⟨?_, resolved⟩⟩
      exact Option.isSome_iff_exists.mpr ⟨stride, resolved⟩
    | none =>
      rw [resolved] at accessed
      obtain ⟨stride, declared, tile⟩ := rowTile_declared accessed
      refine ⟨stride, tile, .inr ⟨fun taken => ?_, declared⟩⟩
      rw [StrideTaken, resolved] at taken
      cases taken
  | l1Linear source destination realSrcN validM validN dstM dstN =>
    obtain ⟨operands, built, rfl⟩ := exists_of_map_eq_ok accepted
    obtain ⟨rows, rowsAre, cols, colsAre, stride, strideIs, accessed⟩ := gmToL1Linear_gmSide built
    exact ⟨rows, rowsAre, cols, colsAre, stride, rowTile_explicit accessed,
      .inl ⟨trivial, strideIs⟩⟩
  | l1Zn source destination realSrcN validM validN dstM dstN =>
    rw [gmRegion] at accepted
    cases result : gmToL1ZnMetadata bridge coreId source destination realSrcN validM validN
        dstM dstN with
    | error failure =>
      rw [result] at accepted
      cases accepted
    | ok built =>
      obtain ⟨recorded, reserved⟩ := built
      rw [result] at accepted
      cases recorded with
      | none =>
        cases accepted
      | some operands =>
        obtain rfl := Option.some.inj (Except.ok.inj accepted)
        obtain ⟨rows, rowsAre, cols, colsAre, stride, strideIs, accessed⟩ := gmToL1Zn_gmSide result
        exact ⟨rows, rowsAre, cols, colsAre, stride, rowTile_explicit accessed,
          .inl ⟨trivial, strideIs⟩⟩
  | l0c template source destination dstStrideN validM validN srcM srcN enableRelu unitFlag =>
    obtain ⟨operands, built, rfl⟩ := exists_of_map_eq_ok accepted
    obtain ⟨rows, rowsAre, cols, colsAre, accessed⟩ := l0cToGm_gmSide built
    obtain ⟨stride, declared, tile⟩ := rowTile_declared accessed
    exact ⟨rows, rowsAre, cols, colsAre, stride, tile, .inr ⟨id, declared⟩⟩

end Builders

/-- Elements of 32 bits. -/
def float32 : DType :=
  .numeric 32 1 wholeBytes_32

/-- An output with heads of 16 columns, and tiles in UB and L0C. -/
def headBuffers : BridgeBuffers where
  nameByDataVar := some
  buffers := fun name =>
    if name = "output" then
      ⟨.gm, [.int 4, .int 2, .int 16], float32, none, none, false⟩
    else if name = "ub" then
      ⟨.ub, [.int 4, .int 16], float32, none, none, false⟩
    else
      ⟨.l0c, [.int 16, .int 16], float32, none, none, false⟩

/-- The pointer to the first head. -/
def headPointer : Pointer :=
  .access (some float32) "output" (some (.int 0))

/-- A tile of one head from UB, with rows of 32 elements in between. -/
def headFromUb : GmCopy :=
  .ub false (.access (some float32) "ub" (some (.int 0))) headPointer (.literal 32) (.literal 4)
    (.literal 16) []

/-- The same tile from L0C. -/
def headFromL0c : GmCopy :=
  .l0c ⟨some float32, some float32, true, 16, 16, false⟩
    (.access (some float32) "l0c" (some (.int 0))) headPointer (.literal 32) (.literal 4)
    (.literal 16) (.literal 16) (.literal 16) (some 0) (.literal 0)

end TilelangAscend.Simulator.Bridge
