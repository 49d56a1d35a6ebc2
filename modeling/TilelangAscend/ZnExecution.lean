import TilelangAscend.GmRowStride
import TilelangAscend.ZnPaths

namespace TilelangAscend.Simulator.Bridge

open Memory
open TileArrays (Tile)

/-!
# Executed copies from GM to L1 in zN

Whatever path the bridge selects, a copy that succeeds has put every element of its window where
the layout of the physical tile has it, and has changed nothing outside its regions.  It succeeds
if what it writes lies in the allocation of the destination.  The bridge compares the end of a
tile, or of the bands, with the size of the destination; on the rebased path nothing does, and a
window without elements has no destination there.
-/

/--
The elements behind its offset up to the end of what a copy writes: those of the padded tile,
those up to the last band of fractal rows, or those up to the last element of the window.  A
rebased copy of an empty window writes nowhere.
-/
def writtenElements (extents : ZnExtents) (byteOffset itemsize : Nat) : Option Nat :=
  let c0 := elementsPerC0 itemsize
  let physical : MatrixShape := ⟨extents.physicalRows, extents.physicalCols⟩
  if byteOffset % (storageElements .zN physical itemsize * itemsize) = 0 then
    some (storageElements .zN physical itemsize)
  else if extents.physicalRows % 16 = 0 ∧
      byteOffset % (elementsPerFractal itemsize * itemsize) = 0 then
    some ((extents.physicalCols / c0 - 1) * (extents.physicalRows * c0) +
      ceilDiv extents.validRows 16 * 16 * c0)
  else if 0 < extents.validRows ∧ 0 < extents.validCols then
    some (elementOffset .zN physical itemsize (extents.validRows - 1) (extents.validCols - 1) + 1)
  else
    none

section Executed

variable {bridge reserved : BridgeBuffers} {coreId : Nat} {source destination : Pointer}
  {realSrcN validM validN dstM dstN : Argument} {copy : ZnCopy} {extents : ZnExtents}
  {name : String} {dst : RuntimeRegion} {byteOffset : Int}
  {sourceAllocation allocation : MemoryAllocation} {mode : HazardMode}
  {bindings : String → Option Int} {gm l1 : AddressSpace} {values : Tile (List UInt8)}

theorem window_of_read
    (recorded : ZnRecord bridge reserved coreId source destination extents name dst byteOffset copy)
    (read : readRegion sourceAllocation mode gm bindings copy.src = .ok values) :
    WindowOf copy copy.src.itemsize values := by
  unfold readRegion at read
  split at read
  · rename_i concrete resolved
    obtain ⟨shapeIs, widths⟩ := MemoryAllocation.tile_of_readTile read
    obtain ⟨evaluated, dtypeIs⟩ := RuntimeRegion.resolve_eq_some resolved
    have extentsAre := recorded.extentsAre
    rw [accessBuffer_eq_ok recorded.source, shapeIs, extentsAre] at evaluated
    simp only [List.mapM_cons, List.mapM_nil, evaluateNat_ofNat, Option.pure_def,
      Option.bind_eq_bind, Option.bind_some, Option.some.injEq, List.cons.injEq,
      and_true] at evaluated
    obtain ⟨rowsAre, colsAre⟩ := evaluated
    rw [BufferRegion.itemsize, dtypeIs, ← rowsAre, ← colsAre] at widths
    exact ⟨rowsAre.symm, colsAre.symm, widths⟩
  · cases read

theorem destination_of_record
    (recorded : ZnRecord bridge reserved coreId source destination extents name dst byteOffset copy)
    (matchesBuffer : destination.MatchesBuffer bridge) :
    ∃ annotated element,
      bridge.target destination = some (name, annotated, .int element) ∧
        dst.itemsize = copy.src.itemsize ∧
        byteOffset.toNat = element.toNat * copy.src.itemsize ∧
        dst.shape = [.int (storageElements .zN copy.physicalShape copy.src.itemsize : Nat)] ∧
        dst.stridesBytes = none := by
  obtain ⟨found, annotated, element, targetIs, _, shapeIs, stridesAre, dtypeIs, scaled, nonneg⟩ :=
    accessLinear_eq_ok recorded.accessed recorded.offsetIs
  have sameTarget : reserved.target destination = bridge.target destination := by
    rw [recorded.reservedIs]
    cases destination with
    | bare dataVar => rfl
    | malformed => rfl
    | access annotated dataVar offset =>
      cases offset with
      | none => rfl
      | some offset => rfl
  rw [sameTarget] at targetIs
  obtain rfl := name_of_target recorded.named targetIs
  have declaredDtype : dst.dtype = copy.src.dtype := by
    rw [dtypeIs, recorded.sameDtype, recorded.reservedIs, reserve_dtype]
    cases annotated with
    | none => rfl
    | some annotation => exact matchesBuffer found annotation _ targetIs
  have itemsizeIs : dst.itemsize = copy.src.itemsize := by
    rw [RuntimeRegion.itemsize, declaredDtype, RuntimeRegion.itemsize]
  refine ⟨annotated, element, targetIs, itemsizeIs, ?_, ?_, stridesAre⟩
  · change byteOffset = element * dst.itemsize at scaled
    rw [itemsizeIs] at scaled
    have positive : (0 : Int) < copy.src.itemsize := by
      exact_mod_cast recorded.validItemsize.1
    rw [scaled] at nonneg ⊢
    have elementNonneg : 0 ≤ element :=
      Int.le_of_mul_le_mul_right (by rw [Int.zero_mul]; exact nonneg) positive
    exact Int.toNat_mul elementNonneg positive.le
  · rw [shapeIs, recorded.extentsAre]
    rfl

/-- A copy writes segments that hold its window and that fit exactly under a condition. -/
def FitsIf (copy : ZnCopy) (allocation : MemoryAllocation)
    (bindings : String → Option Int) (region : RuntimeRegion) (base : Nat)
    (values : Tile (List UInt8)) (condition : Prop) : Prop :=
  ∃ segments, Through copy allocation bindings region base values segments ∧
    ((segments ≠ [] ∧ ∀ segment ∈ segments, Fits allocation base copy.src.itemsize segment) ↔
      condition)

section Paths

variable {base : Nat}

section

variable (valid : ValidItemsize copy.src.itemsize) (window : WindowOf copy copy.src.itemsize values)
include valid window

theorem fitsIf_tile (inRows : copy.validRows ≤ copy.physicalRows)
    (inCols : copy.validCols ≤ copy.physicalCols) (itemsizeIs : dst.itemsize = copy.src.itemsize)
    (shape : dst.shape = [.int (storageElements .zN copy.physicalShape copy.src.itemsize : Nat)])
    (offset : dst.byteOffset = .int base) (strides : dst.stridesBytes = none)
    (isTile : copy.destination = .tile dst) :
    FitsIf copy allocation bindings dst base values
      (base + storageElements .zN copy.physicalShape copy.src.itemsize * copy.src.itemsize ≤
        allocation.sizeBytes) := by
  obtain ⟨regionsAre, runs⟩ := place_tile isTile itemsizeIs shape offset strides
  refine ⟨tileSegments copy copy.src.itemsize values,
    ⟨places_tile valid window inRows inCols, itemsizeIs, regionsAre, runs⟩, ?_⟩
  rw [tileSegments_fit]
  exact and_iff_right (List.cons_ne_nil _ _)

theorem fitsIf_splice (wholePhysical : 16 ∣ copy.physicalRows)
    (wholeBands : elementsPerC0 copy.src.itemsize ∣ copy.physicalCols)
    (wholeOffset : copy.src.itemsize ∣ base) (someCols : 0 < copy.physicalCols)
    (inRows : copy.validRows ≤ copy.physicalRows) (inCols : copy.validCols ≤ copy.physicalCols)
    (itemsizeIs : dst.itemsize = copy.src.itemsize)
    (isSpliced : copy.destination =
      .spliced (spliceRegions dst base (ceilDiv copy.validRows 16 * 16) copy.physicalRows
        copy.physicalCols copy.src.itemsize) (ceilDiv copy.validRows 16 * 16)) :
    FitsIf copy allocation bindings dst base values
      (base + ((copy.physicalCols / elementsPerC0 copy.src.itemsize - 1) *
          (copy.physicalRows * elementsPerC0 copy.src.itemsize) +
        ceilDiv copy.validRows 16 * 16 * elementsPerC0 copy.src.itemsize) * copy.src.itemsize ≤
          allocation.sizeBytes) := by
  have someBands : 0 < copy.physicalCols / elementsPerC0 copy.src.itemsize :=
    Nat.div_pos (Nat.le_of_dvd someCols wholeBands) (elementsPerC0_pos valid)
  have wholeRows : 16 ∣ ceilDiv copy.validRows 16 * 16 := Nat.dvd_mul_left _ _
  have inPhysical : roundUp copy.validRows 16 ≤ copy.physicalRows :=
    (roundUp_mono 16 inRows).trans (roundUp_of_dvd (by decide) wholePhysical).le
  obtain ⟨regionsAre, runs⟩ :=
    place_splice valid itemsizeIs wholeRows wholeBands someCols wholeOffset isSpliced
  refine ⟨spliceSegments copy copy.src.itemsize (ceilDiv copy.validRows 16 * 16) values,
    ⟨places_splice valid window wholeRows wholePhysical wholeBands (le_roundUp (by decide))
      inPhysical inCols, itemsizeIs, regionsAre, runs⟩, ?_⟩
  rw [spliceSegments_fit valid wholeRows wholeBands someBands]
  refine and_iff_right fun none => someBands.ne' ?_
  exact List.range_eq_nil.mp (List.map_eq_nil_iff.mp none)

theorem fitsIf_rebased (inRows : copy.validRows ≤ copy.physicalRows)
    (inCols : copy.validCols ≤ copy.physicalCols) (itemsizeIs : dst.itemsize = copy.src.itemsize)
    (isRebased : copy.destination =
      .rebased (rebasedRegions dst base copy.validRows copy.validCols copy.physicalShape
        copy.src.itemsize)) :
    FitsIf copy allocation bindings dst base values
      ((0 < copy.validRows ∧ 0 < copy.validCols) ∧
        base + (elementOffset .zN copy.physicalShape copy.src.itemsize (copy.validRows - 1)
          (copy.validCols - 1) + 1) * copy.src.itemsize ≤ allocation.sizeBytes) := by
  obtain ⟨regionsAre, runs⟩ := place_rebased valid window itemsizeIs isRebased
  refine ⟨rebasedSegments copy copy.src.itemsize values,
    ⟨places_rebased valid window inRows inCols, itemsizeIs, regionsAre, runs⟩, ?_⟩
  rw [rebasedSegments_ne_nil valid window inRows inCols]
  exact and_congr_right fun some => rebasedSegments_fit valid window inRows inCols some.1 some.2

end

end Paths

theorem fitsIf_of_record (given : znExtents realSrcN validM validN dstM dstN = .ok (some extents))
    (recorded : ZnRecord bridge reserved coreId source destination extents name dst byteOffset copy)
    (matchesBuffer : destination.MatchesBuffer bridge)
    (window : WindowOf copy copy.src.itemsize values)
    (allocation : MemoryAllocation)
    (bindings : String → Option Int) :
    FitsIf copy allocation bindings dst byteOffset.toNat values
      (∃ count ∈ writtenElements extents byteOffset.toNat copy.src.itemsize,
        byteOffset.toNat + count * copy.src.itemsize ≤ allocation.sizeBytes) := by
  have valid := recorded.validItemsize
  obtain ⟨annotated, element, _, itemsizeIs, scaled, shape, strides⟩ :=
    destination_of_record recorded matchesBuffer
  obtain ⟨_, _, _, _, someCols, inRows, inCols, _⟩ := znExtents_eq_ok given
  have wholeBands := Nat.dvd_of_mod_eq_zero recorded.wholeBands
  have placed := recorded.placed
  have offset : dst.byteOffset = .int byteOffset.toNat := by
    obtain ⟨_, _, _, _, _, _, _, _, _, nonneg⟩ :=
      accessLinear_eq_ok recorded.accessed recorded.offsetIs
    rw [recorded.offsetIs, Int.toNat_of_nonneg nonneg]
  obtain rfl := recorded.extentsAre
  dsimp only at someCols inRows inCols wholeBands
  unfold znDestination at placed
  unfold writtenElements
  dsimp only at placed ⊢
  split at placed
  · rename_i isTile
    split at placed
    · cases placed
    · rw [if_pos isTile]
      simp only [Option.mem_some_iff, exists_eq_left']
      exact fitsIf_tile valid window inRows inCols itemsizeIs shape offset strides
        (Except.ok.inj placed).symm
  · rename_i notTile
    rw [if_neg notTile]
    split at placed
    · rename_i isSpliced
      split at placed
      · cases placed
      · rw [if_pos isSpliced]
        simp only [Option.mem_some_iff, exists_eq_left']
        exact fitsIf_splice valid window (Nat.dvd_of_mod_eq_zero isSpliced.1) wholeBands
          ⟨element.toNat, scaled.trans (Nat.mul_comm _ _)⟩ someCols inRows inCols itemsizeIs
          (Except.ok.inj placed).symm
    · rename_i notSpliced
      rw [if_neg notSpliced]
      split at placed
      · cases placed
      · obtain ⟨segments, through, fits⟩ :=
          fitsIf_rebased valid window inRows inCols itemsizeIs (Except.ok.inj placed).symm
        refine ⟨segments, through, fits.trans ?_⟩
        by_cases some : 0 < copy.validRows ∧ 0 < copy.validCols
        · rw [if_pos some]
          simp only [Option.mem_some_iff, exists_eq_left']
          exact and_iff_right some
        · rw [if_neg some]
          constructor
          · rintro ⟨nonempty, _⟩
            exact absurd nonempty some
          · rintro ⟨count, member, _⟩
            cases member

/-- A window without rows has no destination on the rebased path. -/
example : writtenElements ⟨16, 0, 16, 16, 16⟩ 32 2 = none := by
  decide

end Executed

/-! ## A tile one row below another -/

/-- A half matrix of 16 rows in GM, and some rows of 16 columns in L1. -/
def stackedBuffers (rows : Nat) : BridgeBuffers where
  nameByDataVar := some
  buffers := fun name =>
    if name = "matrix" then
      ⟨.gm, [.int 16, .int 16], elementType .float16, none, none, false⟩
    else
      ⟨.l1, [.int rows, .int 16], elementType .float16, none, none, false⟩

/-- The allocation of the matrix in GM. -/
def matrixAllocation : MemoryAllocation :=
  ⟨"matrix", .gm, [16, 16], elementType .float16, 512, 0⟩

/-- The allocation of the rows in L1. -/
def stackAllocation (rows : Nat) : MemoryAllocation :=
  ⟨"stack", .l1, [rows, 16], elementType .float16, rows * 32, 0⟩

/-- The first element of the matrix. -/
def matrixPointer : Pointer :=
  .access (some (elementType .float16)) "matrix" (some (.int 0))

/-- The second row of the first tile in L1. -/
def secondRowPointer : Pointer :=
  .access (some (elementType .float16)) "stack" (some (.int 16))

/-- A space whose bytes are numbered. -/
def numberedSpace : AddressSpace :=
  ⟨fun byte => UInt8.ofNat byte, fun _ => true⟩

theorem secondRow_matchesBuffer (rows : Nat) :
    secondRowPointer.MatchesBuffer (stackedBuffers rows) := by
  intro name annotated offset targetIs
  cases targetIs
  rfl

/-- Why a copy has failed. -/
def failureOfCopy (result : Except CopyFailure AddressSpace) : Option CopyFailure :=
  match result with
  | .error failure => some failure
  | .ok _ => none

theorem error_of_failureOfCopy {result : Except CopyFailure AddressSpace}
    {failure : CopyFailure} (failed : failureOfCopy result = some failure) :
    result = .error failure := by
  cases result with
  | error found => rw [Option.some.inj failed]
  | ok after => cases failed

theorem exists_of_toBool {ε α : Type} {result : Except ε α}
    (succeeds : result.toBool = true) : ∃ value, result = .ok value := by
  cases result with
  | error failure => cases succeeds
  | ok value => exact ⟨value, rfl⟩

end TilelangAscend.Simulator.Bridge
