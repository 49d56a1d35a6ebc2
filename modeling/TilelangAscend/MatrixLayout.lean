import Mathlib.Algebra.Order.Group.Nat
import Mathlib.Logic.Function.Basic
import Mathlib.Tactic.Ring

namespace TilelangAscend.Simulator

/-!
# Physical matrix layouts

The codecs of `layout.py`: a logical matrix is stored in fractals of 16 rows, or 16 columns,
and 32 bytes, padded to whole fractals.  Every layout splits an offset into a block and a
position within the block, and the split determines the logical coordinate.
-/

/-- The layouts; `l0a` is `zZ` and `l0b` is `nZ`. -/
inductive MatrixLayout where
  | rowMajor
  | l0c
  | zN
  | zZ
  | nZ
  deriving Repr, DecidableEq

/-- A logical matrix shape. -/
structure MatrixShape where
  rows : Nat
  cols : Nat
  deriving Repr, DecidableEq

/-- `_ceil_div`. -/
def ceilDiv (value divisor : Nat) : Nat :=
  (value + divisor - 1) / divisor

/-- `_round_up`. -/
def roundUp (value alignment : Nat) : Nat :=
  ceilDiv value alignment * alignment

/-- Elements of one C0 block of 32 bytes. -/
def elementsPerC0 (itemsize : Nat) : Nat :=
  32 / itemsize

/-- Elements of one fractal of 16 C0 blocks. -/
def elementsPerFractal (itemsize : Nat) : Nat :=
  512 / itemsize

/-- The item sizes that `_validate` accepts. -/
def ValidItemsize (itemsize : Nat) : Prop :=
  0 < itemsize ∧ 32 % itemsize = 0

instance (itemsize : Nat) : Decidable (ValidItemsize itemsize) :=
  inferInstanceAs (Decidable (_ ∧ _))

/-- `storage_elements`: the padded number of elements. -/
def storageElements (layout : MatrixLayout) (shape : MatrixShape) (itemsize : Nat) : Nat :=
  match layout with
  | .rowMajor => shape.rows * shape.cols
  | .l0c => roundUp shape.rows 16 * roundUp shape.cols 16
  | .zN => roundUp shape.rows 16 * roundUp shape.cols (elementsPerC0 itemsize)
  | .zZ => roundUp shape.rows 16 * roundUp shape.cols (elementsPerC0 itemsize)
  | .nZ => roundUp shape.rows (elementsPerC0 itemsize) * roundUp shape.cols 16

/-- The value of `physical_index` for a coordinate inside the shape. -/
def elementOffset (layout : MatrixLayout) (shape : MatrixShape) (itemsize row col : Nat) : Nat :=
  let c0 := elementsPerC0 itemsize
  let fractal := elementsPerFractal itemsize
  match layout with
  | .rowMajor => row * shape.cols + col
  | .l0c => row / 16 * 16 * 16 + col / 16 * roundUp shape.rows 16 * 16 + row % 16 * 16 + col % 16
  | .zN => row / 16 * fractal + col / c0 * roundUp shape.rows 16 * c0 + row % 16 * c0 + col % c0
  | .zZ => row / 16 * roundUp shape.cols c0 * 16 + col * 16 + row % 16
  | .nZ => row / c0 * roundUp shape.cols 16 * c0 + col / 16 * fractal + row % c0 + col % 16 * c0

/-- `physical_index`, which fails outside the shape and for a bad item size. -/
def physicalIndex (layout : MatrixLayout) (row col : Nat) (shape : MatrixShape)
    (itemsize : Nat) : Option Nat :=
  if ValidItemsize itemsize ∧ row < shape.rows ∧ col < shape.cols then
    some (elementOffset layout shape itemsize row col)
  else
    none

/-- The coordinates of a shape, row by row. -/
def MatrixShape.coordinates (shape : MatrixShape) : List (Nat × Nat) :=
  (List.range shape.rows).flatMap fun row => (List.range shape.cols).map fun col => (row, col)

section Codec

variable {α : Type} [Zero α]

/-- `pack_matrix`: the storage of a logical matrix, zero where it is padded. -/
def packMatrix (layout : MatrixLayout) (shape : MatrixShape) (itemsize : Nat)
    (matrix : Nat → Nat → α) : Nat → α :=
  shape.coordinates.foldl
    (fun storage entry =>
      Function.update storage (elementOffset layout shape itemsize entry.1 entry.2)
        (matrix entry.1 entry.2))
    fun _ => 0

/-- `unpack_matrix`: the logical matrix of a storage. -/
def unpackMatrix (layout : MatrixLayout) (shape : MatrixShape) (itemsize : Nat)
    (storage : Nat → α) : Nat → Nat → α :=
  fun row col => storage (elementOffset layout shape itemsize row col)

end Codec

/-! ## Rounding -/

variable {value alignment other block first second itemsize : Nat}

/-- Rounding up never makes a value smaller. -/
theorem le_roundUp (positive : 0 < alignment) : value ≤ roundUp value alignment := by
  have division := Nat.div_add_mod (value + alignment - 1) alignment
  have remainder := Nat.mod_lt (value + alignment - 1) positive
  unfold roundUp ceilDiv
  rw [Nat.mul_comm]
  omega

theorem roundUp_of_dvd (positive : 0 < alignment) (divides : alignment ∣ value) :
    roundUp value alignment = value := by
  obtain ⟨count, rfl⟩ := divides
  unfold roundUp ceilDiv
  have quotient : (alignment * count + alignment - 1) / alignment = count := by
    rw [Nat.add_sub_assoc positive, Nat.mul_add_div positive, Nat.div_eq_of_lt (by omega),
      Nat.add_zero]
  rw [quotient, Nat.mul_comm]

theorem roundUp_mono (alignment : Nat) (le : value ≤ other) :
    roundUp value alignment ≤ roundUp other alignment :=
  Nat.mul_le_mul_right _ (Nat.div_le_div_right (by omega))

/-! ## Blocks -/

/-- Position and number of a block determine each other. -/
theorem block_inj {outer inner otherInner : Nat} (inside : inner < block)
    (otherInside : otherInner < block)
    (same : block * outer + inner = block * other + otherInner) :
    outer = other ∧ inner = otherInner := by
  have positive : 0 < block := by omega
  have quotient := congrArg (· / block) same
  simp only [Nat.mul_add_div positive, Nat.div_eq_of_lt inside, Nat.div_eq_of_lt otherInside,
    Nat.add_zero] at quotient
  subst quotient
  exact ⟨rfl, by omega⟩

/-- An element inside one of the blocks lies inside their range. -/
theorem block_lt {block outer inner count : Nat} (inside : inner < block)
    (outerInside : outer < count) : block * outer + inner < count * block := by
  calc block * outer + inner
      < block * outer + block := by omega
    _ = (outer + 1) * block := by ring
    _ ≤ count * block := Nat.mul_le_mul_right _ outerInside

theorem div_lt_ceilDiv {position : Nat} (positive : 0 < alignment)
    (inside : position < value) : position / alignment < ceilDiv value alignment := by
  unfold ceilDiv
  rw [Nat.div_lt_iff_lt_mul positive]
  have division := Nat.div_add_mod (value + alignment - 1) alignment
  have remainder := Nat.mod_lt (value + alignment - 1) positive
  rw [Nat.mul_comm]
  omega

theorem eq_of_div_mod (quotients : first / block = second / block)
    (remainders : first % block = second % block) : first = second := by
  rw [← Nat.div_add_mod first block, ← Nat.div_add_mod second block, quotients, remainders]

/-- A band and the place inside it determine each other. -/
theorem band_inj {quotient width : Nat} (firstInside : first < width)
    (secondInside : second < width) (same : first + quotient * width = second + other * width) :
    quotient = other ∧ first = second := by
  refine block_inj firstInside secondInside ?_
  rw [Nat.mul_comm, Nat.mul_comm width]
  omega

theorem elementsPerC0_pos (valid : ValidItemsize itemsize) : 0 < elementsPerC0 itemsize := by
  have divides := Nat.dvd_of_mod_eq_zero valid.2
  exact Nat.div_pos (Nat.le_of_dvd (by decide) divides) valid.1

theorem elementsPerFractal_eq (valid : ValidItemsize itemsize) :
    elementsPerFractal itemsize = 16 * elementsPerC0 itemsize :=
  Nat.mul_div_assoc 16 (Nat.dvd_of_mod_eq_zero valid.2)

section Offsets

variable {shape : MatrixShape} {itemsize row col : Nat}

/-- The l0c layout as bands of sixteen columns. -/
theorem elementOffset_l0c :
    elementOffset .l0c shape itemsize row col =
      16 * (row + col / 16 * roundUp shape.rows 16) + col % 16 := by
  simp only [elementOffset]
  generalize col / 16 * roundUp shape.rows 16 = band
  omega

/-- The zN layout as bands of a C0 block of columns. -/
theorem elementOffset_zN (valid : ValidItemsize itemsize) :
    elementOffset .zN shape itemsize row col =
      elementsPerC0 itemsize *
          (row + col / elementsPerC0 itemsize * roundUp shape.rows 16) +
        col % elementsPerC0 itemsize := by
  simp only [elementOffset, elementsPerFractal_eq valid]
  conv_rhs => rw [← Nat.div_add_mod row 16]
  ring

variable {rows cols otherRow otherCol : Nat}

/-- Inside a band of zN, offsets add up. -/
theorem elementOffset_zN_shift (valid : ValidItemsize itemsize)
    (sameBand : col % elementsPerC0 itemsize + cols < elementsPerC0 itemsize) :
    elementOffset .zN shape itemsize (row + rows) (col + cols) =
      elementOffset .zN shape itemsize row col + rows * elementsPerC0 itemsize + cols := by
  have positive := elementsPerC0_pos valid
  have division := Nat.div_add_mod col (elementsPerC0 itemsize)
  have joined : col + cols =
      elementsPerC0 itemsize * (col / elementsPerC0 itemsize) +
        (col % elementsPerC0 itemsize + cols) := by
    omega
  have quotient : (col + cols) / elementsPerC0 itemsize = col / elementsPerC0 itemsize := by
    rw [joined, Nat.mul_add_div positive, Nat.div_eq_of_lt sameBand, Nat.add_zero]
  have remainder : (col + cols) % elementsPerC0 itemsize = col % elementsPerC0 itemsize + cols := by
    rw [joined, Nat.mul_add_mod, Nat.mod_eq_of_lt sameBand]
  rw [elementOffset_zN valid, elementOffset_zN valid, quotient, remainder]
  ring

/-- In zN, a larger row and column never lie before a smaller one. -/
theorem elementOffset_zN_mono (valid : ValidItemsize itemsize) (someRows : 0 < shape.rows)
    (rows : row ≤ otherRow) (cols : col ≤ otherCol) :
    elementOffset .zN shape itemsize row col ≤
      elementOffset .zN shape itemsize otherRow otherCol := by
  have positive := elementsPerC0_pos valid
  have padded : shape.rows ≤ roundUp shape.rows 16 := le_roundUp (by decide)
  rw [elementOffset_zN valid, elementOffset_zN valid]
  rcases Nat.eq_or_lt_of_le (Nat.div_le_div_right (c := elementsPerC0 itemsize) cols)
    with sameBand | earlierBand
  · have division := Nat.div_add_mod col (elementsPerC0 itemsize)
    have otherDivision := Nat.div_add_mod otherCol (elementsPerC0 itemsize)
    rw [sameBand] at division ⊢
    exact Nat.add_le_add (Nat.mul_le_mul_left _ (Nat.add_le_add_right rows _)) (by omega)
  · have remainder := Nat.mod_lt col positive
    have bands := Nat.mul_le_mul_right (roundUp shape.rows 16) earlierBand
    rw [Nat.succ_mul] at bands
    have blocks : row + col / elementsPerC0 itemsize * roundUp shape.rows 16 + 1 ≤
        otherRow + otherCol / elementsPerC0 itemsize * roundUp shape.rows 16 := by
      omega
    have scaled := Nat.mul_le_mul_left (elementsPerC0 itemsize) blocks
    rw [Nat.mul_succ] at scaled
    omega

/-- The zZ layout as bands of sixteen rows. -/
theorem elementOffset_zZ :
    elementOffset .zZ shape itemsize row col =
      16 * (row / 16 * roundUp shape.cols (elementsPerC0 itemsize) + col) + row % 16 := by
  simp only [elementOffset]
  ring

/-- The nZ layout as bands of a C0 block of rows. -/
theorem elementOffset_nZ (valid : ValidItemsize itemsize) :
    elementOffset .nZ shape itemsize row col =
      elementsPerC0 itemsize * (row / elementsPerC0 itemsize * roundUp shape.cols 16 + col) +
        row % elementsPerC0 itemsize := by
  simp only [elementOffset, elementsPerFractal_eq valid]
  conv_rhs => rw [← Nat.div_add_mod col 16]
  ring

/-- Inside a band of nZ, offsets add up. -/
theorem elementOffset_nZ_shift (valid : ValidItemsize itemsize)
    (sameBand : row % elementsPerC0 itemsize + rows < elementsPerC0 itemsize) :
    elementOffset .nZ shape itemsize (row + rows) (col + cols) =
      elementOffset .nZ shape itemsize row col + cols * elementsPerC0 itemsize + rows := by
  have positive := elementsPerC0_pos valid
  have division := Nat.div_add_mod row (elementsPerC0 itemsize)
  have joined : row + rows =
      elementsPerC0 itemsize * (row / elementsPerC0 itemsize) +
        (row % elementsPerC0 itemsize + rows) := by
    omega
  have quotient : (row + rows) / elementsPerC0 itemsize = row / elementsPerC0 itemsize := by
    rw [joined, Nat.mul_add_div positive, Nat.div_eq_of_lt sameBand, Nat.add_zero]
  have remainder : (row + rows) % elementsPerC0 itemsize = row % elementsPerC0 itemsize + rows := by
    rw [joined, Nat.mul_add_mod, Nat.mod_eq_of_lt sameBand]
  rw [elementOffset_nZ valid, elementOffset_nZ valid, quotient, remainder]
  ring

theorem band_lt {bands : Nat} (rowInside : row < shape.rows) (bandInside : col < bands) :
    row + col * roundUp shape.rows 16 < roundUp shape.rows 16 * bands := by
  have padded : shape.rows ≤ roundUp shape.rows 16 := le_roundUp (by decide)
  have bound := @block_lt (roundUp shape.rows 16) col row bands (by omega) bandInside
  rw [Nat.mul_comm col, Nat.add_comm, Nat.mul_comm _ bands]
  exact bound

/-- Every layout keeps the elements of a matrix inside its storage. -/
theorem elementOffset_lt (layout : MatrixLayout) (valid : ValidItemsize itemsize)
    (rowInside : row < shape.rows) (colInside : col < shape.cols) :
    elementOffset layout shape itemsize row col < storageElements layout shape itemsize := by
  have c0Positive := elementsPerC0_pos valid
  have paddedRows : shape.rows ≤ roundUp shape.rows 16 := le_roundUp (by decide)
  cases layout with
  | rowMajor =>
    simp only [elementOffset, storageElements]
    rw [Nat.mul_comm row]
    exact block_lt colInside rowInside
  | l0c =>
    rw [elementOffset_l0c]
    have inBand := band_lt rowInside (div_lt_ceilDiv (by decide : 0 < 16) colInside)
    have bound := block_lt (Nat.mod_lt col (by decide : 0 < 16)) inBand
    simpa only [storageElements, roundUp, Nat.mul_assoc] using bound
  | zN =>
    rw [elementOffset_zN valid]
    have inBand := band_lt rowInside (div_lt_ceilDiv c0Positive colInside)
    have bound := block_lt (Nat.mod_lt col c0Positive) inBand
    simpa only [storageElements, roundUp, Nat.mul_assoc] using bound
  | zZ =>
    rw [elementOffset_zZ]
    have padded : shape.cols ≤ roundUp shape.cols (elementsPerC0 itemsize) := le_roundUp c0Positive
    have inBand := @block_lt (roundUp shape.cols (elementsPerC0 itemsize)) (row / 16) col _
      (by omega) (div_lt_ceilDiv (by decide : 0 < 16) rowInside)
    rw [Nat.mul_comm _ (row / 16)] at inBand
    have bound := block_lt (Nat.mod_lt row (by decide : 0 < 16)) inBand
    calc _ < _ := bound
      _ = _ := by
        simp only [storageElements, roundUp]
        ring
  | nZ =>
    rw [elementOffset_nZ valid]
    have padded : shape.cols ≤ roundUp shape.cols 16 := le_roundUp (by decide)
    have inBand := @block_lt (roundUp shape.cols 16) (row / elementsPerC0 itemsize) col _
      (by omega) (div_lt_ceilDiv c0Positive rowInside)
    rw [Nat.mul_comm _ (row / elementsPerC0 itemsize)] at inBand
    have bound := block_lt (Nat.mod_lt row c0Positive) inBand
    calc _ < _ := bound
      _ = _ := by
        simp only [storageElements, roundUp]
        ring

/-- No layout puts two elements of a matrix at one place. -/
theorem elementOffset_inj (layout : MatrixLayout) (valid : ValidItemsize itemsize)
    (rowInside : row < shape.rows) (colInside : col < shape.cols)
    (otherRowInside : otherRow < shape.rows) (otherColInside : otherCol < shape.cols)
    (same : elementOffset layout shape itemsize row col =
      elementOffset layout shape itemsize otherRow otherCol) :
    row = otherRow ∧ col = otherCol := by
  have c0Positive := elementsPerC0_pos valid
  have paddedRows : shape.rows ≤ roundUp shape.rows 16 := le_roundUp (by decide)
  cases layout with
  | rowMajor =>
    simp only [elementOffset, Nat.mul_comm _ shape.cols] at same
    exact block_inj colInside otherColInside same
  | l0c =>
    rw [elementOffset_l0c, elementOffset_l0c] at same
    obtain ⟨outer, inner⟩ := block_inj (Nat.mod_lt _ (by decide)) (Nat.mod_lt _ (by decide)) same
    obtain ⟨bands, rows⟩ := band_inj (by omega) (by omega) outer
    exact ⟨rows, eq_of_div_mod bands inner⟩
  | zN =>
    rw [elementOffset_zN valid, elementOffset_zN valid] at same
    obtain ⟨outer, inner⟩ := block_inj (Nat.mod_lt _ c0Positive) (Nat.mod_lt _ c0Positive) same
    obtain ⟨bands, rows⟩ := band_inj (by omega) (by omega) outer
    exact ⟨rows, eq_of_div_mod bands inner⟩
  | zZ =>
    have padded : shape.cols ≤ roundUp shape.cols (elementsPerC0 itemsize) := le_roundUp c0Positive
    rw [elementOffset_zZ, elementOffset_zZ] at same
    obtain ⟨outer, inner⟩ := block_inj (Nat.mod_lt _ (by decide)) (Nat.mod_lt _ (by decide)) same
    rw [Nat.add_comm, Nat.add_comm (otherRow / 16 * _)] at outer
    obtain ⟨bands, cols⟩ := band_inj (by omega) (by omega) outer
    exact ⟨eq_of_div_mod bands inner, cols⟩
  | nZ =>
    have padded : shape.cols ≤ roundUp shape.cols 16 := le_roundUp (by decide)
    rw [elementOffset_nZ valid, elementOffset_nZ valid] at same
    obtain ⟨outer, inner⟩ := block_inj (Nat.mod_lt _ c0Positive) (Nat.mod_lt _ c0Positive) same
    rw [Nat.add_comm, Nat.add_comm (otherRow / elementsPerC0 itemsize * _)] at outer
    obtain ⟨bands, cols⟩ := band_inj (by omega) (by omega) outer
    exact ⟨eq_of_div_mod bands inner, cols⟩

end Offsets

/-! ## Packing and unpacking -/

section Updates

variable {Entry Index Value : Type} [DecidableEq Index] {position : Entry → Index}
  {value : Entry → Value}

/-- Updates at other places leave a place alone. -/
theorem foldl_update_of_ne {entries : List Entry} {index : Index}
    (others : ∀ entry ∈ entries, position entry ≠ index) (initial : Index → Value) :
    entries.foldl (fun storage entry => Function.update storage (position entry) (value entry))
        initial index =
      initial index := by
  induction entries generalizing initial with
  | nil => rfl
  | cons entry entries ih =>
    rw [List.foldl_cons, ih fun other member => others other (List.mem_cons_of_mem _ member)]
    exact Function.update_of_ne (others entry List.mem_cons_self).symm _ _

/-- A place holds what was written there if all writes to it agree. -/
theorem foldl_update_of_mem {entries : List Entry} {entry : Entry} (member : entry ∈ entries)
    (agree : ∀ other ∈ entries, position other = position entry → value other = value entry)
    (initial : Index → Value) :
    entries.foldl (fun storage other => Function.update storage (position other) (value other))
        initial (position entry) =
      value entry := by
  induction entries generalizing initial entry with
  | nil =>
    cases member
  | cons head entries ih =>
    rw [List.foldl_cons]
    have agreeLater : ∀ other ∈ entries, position other = position entry →
        value other = value entry :=
      fun other isLater => agree other (List.mem_cons_of_mem _ isLater)
    by_cases again : ∃ other ∈ entries, position other = position entry
    · obtain ⟨other, isLater, samePosition⟩ := again
      rw [← samePosition, ih isLater, agreeLater other isLater samePosition]
      intro another anotherLater same
      rw [agreeLater another anotherLater (same.trans samePosition),
        agreeLater other isLater samePosition]
    · rw [foldl_update_of_ne fun other isLater same => again ⟨other, isLater, same⟩]
      obtain rfl | isLater := List.mem_cons.mp member
      · exact Function.update_self _ _ _
      · exact absurd ⟨entry, isLater, rfl⟩ again

end Updates

section Packed

variable {α : Type} [Zero α] {layout : MatrixLayout} {shape : MatrixShape} {itemsize : Nat}
  {matrix : Nat → Nat → α}

theorem mem_coordinates {entry : Nat × Nat} :
    entry ∈ shape.coordinates ↔ entry.1 < shape.rows ∧ entry.2 < shape.cols := by
  obtain ⟨row, col⟩ := entry
  simp [MatrixShape.coordinates]

/-- A packed matrix holds each element at its offset. -/
theorem packMatrix_offset (valid : ValidItemsize itemsize) {row col : Nat}
    (rowInside : row < shape.rows) (colInside : col < shape.cols) :
    packMatrix layout shape itemsize matrix (elementOffset layout shape itemsize row col) =
      matrix row col := by
  refine @foldl_update_of_mem _ _ _ _
    (fun entry : Nat × Nat => elementOffset layout shape itemsize entry.1 entry.2)
    (fun entry => matrix entry.1 entry.2) _ (row, col)
    (mem_coordinates.mpr ⟨rowInside, colInside⟩) ?_ _
  rintro ⟨otherRow, otherCol⟩ member same
  obtain ⟨otherRowInside, otherColInside⟩ := mem_coordinates.mp member
  obtain ⟨rfl, rfl⟩ := elementOffset_inj layout valid otherRowInside otherColInside rowInside
    colInside same
  rfl

/-- A place that no element takes holds zero. -/
theorem packMatrix_padding {index : Nat}
    (padding : ∀ row col, row < shape.rows → col < shape.cols →
      elementOffset layout shape itemsize row col ≠ index) :
    packMatrix layout shape itemsize matrix index = 0 := by
  refine foldl_update_of_ne ?_ _
  intro entry member
  obtain ⟨rowInside, colInside⟩ := mem_coordinates.mp member
  exact padding entry.1 entry.2 rowInside colInside

/-- The row of an offset in L0C. -/
def l0cRow (shape : MatrixShape) (index : Nat) : Nat :=
  index / 16 % roundUp shape.rows 16

/-- The column of an offset in L0C. -/
def l0cCol (shape : MatrixShape) (index : Nat) : Nat :=
  index / 16 / roundUp shape.rows 16 * 16 + index % 16

/-- The row and column of an l0c place lead back to it. -/
theorem elementOffset_l0cRow_l0cCol (index : Nat) :
    elementOffset .l0c shape itemsize (l0cRow shape index) (l0cCol shape index) = index := by
  rw [elementOffset_l0c]
  have sameBand : l0cCol shape index / 16 = index / 16 / roundUp shape.rows 16 := by
    unfold l0cCol
    omega
  have sameInner : l0cCol shape index % 16 = index % 16 := by
    unfold l0cCol
    omega
  have rejoined : l0cRow shape index + index / 16 / roundUp shape.rows 16 * roundUp shape.rows 16 =
      index / 16 := by
    unfold l0cRow
    rw [Nat.mul_comm]
    exact Nat.mod_add_div _ _
  rw [sameBand, sameInner, rejoined]
  omega

/-- The place of an element gives back its row and column. -/
theorem l0cRow_l0cCol_elementOffset {row col : Nat} (rowInside : row < shape.rows) :
    l0cRow shape (elementOffset .l0c shape itemsize row col) = row ∧
      l0cCol shape (elementOffset .l0c shape itemsize row col) = col := by
  have padded : shape.rows ≤ roundUp shape.rows 16 := le_roundUp (by decide)
  have quotient : elementOffset .l0c shape itemsize row col / 16 =
      row + col / 16 * roundUp shape.rows 16 := by
    rw [elementOffset_l0c]
    omega
  have remainder : elementOffset .l0c shape itemsize row col % 16 = col % 16 := by
    rw [elementOffset_l0c]
    omega
  constructor
  · rw [l0cRow, quotient, Nat.add_mul_mod_self_right, Nat.mod_eq_of_lt (by omega)]
  · rw [l0cCol, quotient, remainder, Nat.add_mul_div_right _ _ (by omega),
      Nat.div_eq_of_lt (by omega)]
    omega

/-- Reading a packed l0c matrix place by place. -/
theorem packMatrix_l0c (valid : ValidItemsize itemsize) (index : Nat) :
    packMatrix .l0c shape itemsize matrix index =
      if l0cRow shape index < shape.rows ∧ l0cCol shape index < shape.cols then
        matrix (l0cRow shape index) (l0cCol shape index)
      else
        0 := by
  split
  · rename_i inside
    conv_lhs => rw [← @elementOffset_l0cRow_l0cCol shape itemsize index]
    exact packMatrix_offset valid inside.1 inside.2
  · rename_i outside
    refine packMatrix_padding ?_
    rintro row col rowInside colInside rfl
    obtain ⟨sameRow, sameCol⟩ := @l0cRow_l0cCol_elementOffset shape itemsize row col rowInside
    rw [sameRow, sameCol] at outside
    exact outside ⟨rowInside, colInside⟩

end Packed

/-! ## Column tiles of L0C -/

section ColumnTiles

variable {shape tile : MatrixShape} {itemsize first : Nat}

/-- A tile of columns of an l0c matrix is an l0c matrix of its own. -/
theorem elementOffset_l0c_tile (sameRows : tile.rows = shape.rows) (aligned : 16 ∣ first)
    (row col : Nat) :
    elementOffset .l0c shape itemsize row (first + col) =
      first * roundUp shape.rows 16 + elementOffset .l0c tile itemsize row col := by
  obtain ⟨blocks, rfl⟩ := aligned
  have quotient : (16 * blocks + col) / 16 = blocks + col / 16 := Nat.mul_add_div (by decide) _ _
  have remainder : (16 * blocks + col) % 16 = col % 16 := Nat.mul_add_mod _ _ _
  rw [elementOffset_l0c, elementOffset_l0c, quotient, remainder, sameRows]
  ring

theorem l0cRow_tile (sameRows : tile.rows = shape.rows) (aligned : 16 ∣ first) (index : Nat) :
    l0cRow shape (first * roundUp shape.rows 16 + index) = l0cRow tile index := by
  obtain ⟨blocks, rfl⟩ := aligned
  have quotient : (16 * blocks * roundUp shape.rows 16 + index) / 16 =
      index / 16 + blocks * roundUp shape.rows 16 := by
    rw [Nat.mul_assoc, Nat.mul_add_div (by decide), Nat.add_comm]
  rw [l0cRow, l0cRow, quotient, Nat.add_mul_mod_self_right, sameRows]

theorem l0cCol_tile (sameRows : tile.rows = shape.rows) (someRows : 0 < shape.rows)
    (aligned : 16 ∣ first) (index : Nat) :
    l0cCol shape (first * roundUp shape.rows 16 + index) = first + l0cCol tile index := by
  obtain ⟨blocks, rfl⟩ := aligned
  have padded : shape.rows ≤ roundUp shape.rows 16 := le_roundUp (by decide)
  have quotient : (16 * blocks * roundUp shape.rows 16 + index) / 16 =
      index / 16 + blocks * roundUp shape.rows 16 := by
    rw [Nat.mul_assoc, Nat.mul_add_div (by decide), Nat.add_comm]
  have remainder : (16 * blocks * roundUp shape.rows 16 + index) % 16 = index % 16 := by
    rw [Nat.mul_assoc, Nat.mul_add_mod]
  rw [l0cCol, l0cCol, quotient, remainder, Nat.add_mul_div_right _ _ (by omega), sameRows]
  ring

theorem lt_storageElements_l0c (someRows : 0 < shape.rows) (aligned : 16 ∣ shape.cols)
    (index : Nat) :
    index < storageElements .l0c shape itemsize ↔ l0cCol shape index < shape.cols := by
  have padded : shape.rows ≤ roundUp shape.rows 16 := le_roundUp (by decide)
  have storage : storageElements .l0c shape itemsize =
      shape.cols / 16 * roundUp shape.rows 16 * 16 := by
    rw [storageElements, roundUp_of_dvd (by decide) aligned]
    conv_lhs => rw [← Nat.div_mul_cancel aligned]
    ring
  have blocks := Nat.div_mul_cancel aligned
  calc index < storageElements .l0c shape itemsize
      ↔ index / 16 / roundUp shape.rows 16 < shape.cols / 16 := by
        rw [storage, ← Nat.div_lt_iff_lt_mul (by decide),
          ← Nat.div_lt_iff_lt_mul (show 0 < roundUp shape.rows 16 by omega)]
    _ ↔ l0cCol shape index < shape.cols := by
        unfold l0cCol
        omega

end ColumnTiles

end TilelangAscend.Simulator
