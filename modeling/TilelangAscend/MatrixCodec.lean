import TilelangAscend.MatrixLayout

namespace TilelangAscend.Simulator

/-!
# Matrix layouts as codecs

Each layout of `layout.py` sends the logical coordinates injectively into its padded storage.
Unpacking therefore inverts packing, and packing what was unpacked gives the storage back with
its padding cleared.
-/

/-- Whether no logical element is stored at an offset. -/
def isPadding (layout : MatrixLayout) (shape : MatrixShape) (itemsize index : Nat) : Bool :=
  shape.coordinates.all fun entry => elementOffset layout shape itemsize entry.1 entry.2 ≠ index

section Codec

variable {α : Type} [Zero α] {layout : MatrixLayout} {shape : MatrixShape} {itemsize : Nat}

theorem physicalIndex_eq_some_iff (valid : ValidItemsize itemsize) {row col index : Nat} :
    physicalIndex layout row col shape itemsize = some index ↔
      row < shape.rows ∧ col < shape.cols ∧
        elementOffset layout shape itemsize row col = index := by
  simp [physicalIndex, valid, and_assoc]

theorem isPadding_iff {index : Nat} :
    isPadding layout shape itemsize index = true ↔
      ∀ row col, row < shape.rows → col < shape.cols →
        elementOffset layout shape itemsize row col ≠ index := by
  simp only [isPadding, List.all_eq_true, mem_coordinates, decide_eq_true_eq, Prod.forall, and_imp]

theorem packMatrix_unpackMatrix (valid : ValidItemsize itemsize) (storage : Nat → α)
    (index : Nat) :
    packMatrix layout shape itemsize (unpackMatrix layout shape itemsize storage) index =
      if isPadding layout shape itemsize index then 0 else storage index := by
  split
  · rename_i padding
    apply packMatrix_padding
    exact isPadding_iff.mp padding
  · rename_i stored
    rw [isPadding_iff] at stored
    push Not at stored
    obtain ⟨row, col, rowInside, colInside, rfl⟩ := stored
    exact packMatrix_offset valid rowInside colInside

theorem unpackMatrix_packMatrix (valid : ValidItemsize itemsize) (matrix : Nat → Nat → α)
    {row col : Nat} (rowInside : row < shape.rows) (colInside : col < shape.cols) :
    unpackMatrix layout shape itemsize (packMatrix layout shape itemsize matrix) row col =
      matrix row col :=
  packMatrix_offset valid rowInside colInside

end Codec

/--
Every layout is an injective codec: coordinates have distinct offsets inside the storage,
unpacking inverts packing, and packing what was unpacked clears the padding.
-/
theorem matrixLayout_isCodec
    {α : Type}
    [Zero α]
    (layout : MatrixLayout)
    (shape : MatrixShape)
    (itemsize : Nat)
    (valid : ValidItemsize itemsize) :
    (∀ row col, row < shape.rows → col < shape.cols →
        ∃ index,
          physicalIndex layout row col shape itemsize = some index ∧
            index < storageElements layout shape itemsize) ∧
      (∀ row col otherRow otherCol index, physicalIndex layout row col shape itemsize = some index →
        physicalIndex layout otherRow otherCol shape itemsize = some index →
        row = otherRow ∧ col = otherCol) ∧
      (∀ (matrix : Nat → Nat → α) (row col : Nat), row < shape.rows → col < shape.cols →
        unpackMatrix layout shape itemsize (packMatrix layout shape itemsize matrix) row col =
          matrix row col) ∧
      ∀ (storage : Nat → α) (index : Nat), index < storageElements layout shape itemsize →
        packMatrix layout shape itemsize (unpackMatrix layout shape itemsize storage) index =
          if isPadding layout shape itemsize index then 0 else storage index := by
  refine ⟨?_, ?_, ?_, ?_⟩
  · intro row col rowInside colInside
    refine ⟨_, (physicalIndex_eq_some_iff valid).mpr ⟨rowInside, colInside, rfl⟩, ?_⟩
    exact elementOffset_lt layout valid rowInside colInside
  · intro row col otherRow otherCol index indexed otherIndexed
    obtain ⟨rowInside, colInside, offset⟩ := (physicalIndex_eq_some_iff valid).mp indexed
    obtain ⟨otherRowInside, otherColInside, otherOffset⟩ :=
      (physicalIndex_eq_some_iff valid).mp otherIndexed
    apply elementOffset_inj layout valid rowInside colInside otherRowInside otherColInside
    exact offset.trans otherOffset.symm
  · intro matrix row col rowInside colInside
    exact unpackMatrix_packMatrix valid matrix rowInside colInside
  · intro storage index _
    exact packMatrix_unpackMatrix valid storage index

/-- A 3 × 5 matrix of 4-byte elements in `nZ`: element (2, 1) is stored at offset 10, and a
storage of ones keeps its 15 elements only. -/
theorem matrixLayout_isCodec_nZ :
    physicalIndex .nZ 2 1 ⟨3, 5⟩ 4 = some 10 ∧ storageElements .nZ ⟨3, 5⟩ 4 = 128 ∧
      packMatrix .nZ ⟨3, 5⟩ 4 (unpackMatrix .nZ ⟨3, 5⟩ 4 fun _ => (1 : Int)) 3 = 0 ∧
      packMatrix .nZ ⟨3, 5⟩ 4 (unpackMatrix .nZ ⟨3, 5⟩ 4 fun _ => (1 : Int)) 10 = 1 := by
  obtain ⟨_, _, _, repacked⟩ := @matrixLayout_isCodec Int _ .nZ ⟨3, 5⟩ 4 (by decide)
  refine ⟨by decide, by decide, ?_, ?_⟩
  · rw [repacked _ 3 (by decide)]
    decide
  · rw [repacked _ 10 (by decide)]
    decide

end TilelangAscend.Simulator
