import TilelangAscend.ExceptRules
import TilelangAscend.GemmExpansion

namespace TilelangAscend.Simulator.Cube

open ExceptRules

/-!
# The expansion computes the product

Every window that the bridge cuts from L1 is a submatrix of the stored operand, so each step
multiplies a part of the inner dimension for one tile of columns.  After any number of steps
L0C holds, for every column, the accumulated part of its product; after the last step it holds
what the single task writes.
-/

theorem valid_inputBytes : ValidItemsize inputBytes := by
  decide

theorem valid_accumulatorBytes : ValidItemsize accumulatorBytes := by
  decide

/-! ## Regions -/

section Regions

variable {space : AddressSpace} {region : Region}

theorem readRegion_eq_ok {values : Nat → Nat → Int} (read : readRegion space region = .ok values) :
    region.InBounds ∧ region.Initialized space ∧
      values = fun row col => (space (region.cell row col)).getD 0 := by
  unfold readRegion at read
  split at read
  · cases read
  · rename_i inBounds
    split at read
    · rename_i initialized
      exact ⟨not_not.mp inBounds, initialized, (Except.ok.inj read).symm⟩
    · cases read

theorem readRegion_of_initialized (inBounds : region.InBounds)
    (initialized : region.Initialized space) :
    readRegion space region = .ok fun row col => (space (region.cell row col)).getD 0 := by
  unfold readRegion
  rw [if_neg (not_not.mpr inBounds), if_pos initialized]

variable {address size offset elements : Nat}

theorem inBounds_consecutive (fits : offset + elements ≤ size) :
    (Region.consecutive address size offset elements).InBounds := by
  unfold Region.InBounds Region.span Region.consecutive
  split
  · simp only
    omega
  · simpa using fits

theorem cell_consecutive (address size offset elements col : Nat) :
    (Region.consecutive address size offset elements).cell 0 col = address + offset + col := by
  simp [Region.cell, Region.consecutive]

/-- A space holds given values in consecutive cells. -/
def HoldsAt (space : AddressSpace) (start length : Nat) (values : Nat → Int) : Prop :=
  ∀ index < length, space (start + index) = some (values index)

theorem HoldsAt.readRegion {address size offset elements : Nat} {values : Nat → Int}
    (holds : HoldsAt space (address + offset) elements values) (fits : offset + elements ≤ size) :
    ∃ read,
      readRegion space (.consecutive address size offset elements) = .ok read ∧
        ∀ index < elements, read 0 index = values index := by
  have initialized : (Region.consecutive address size offset elements).Initialized space := by
    intro row rowInside col colInside
    have isFirst : row = 0 := Nat.lt_one_iff.mp rowInside
    subst isFirst
    rw [cell_consecutive, holds col colInside]
    rfl
  refine ⟨_, readRegion_of_initialized (inBounds_consecutive fits) initialized, ?_⟩
  intro index inside
  rw [cell_consecutive, holds index inside]
  rfl

/-- A space after consecutive cells were written. -/
def written (space : AddressSpace) (start length : Nat) (values : Nat → Int) : AddressSpace :=
  fun address =>
    if start ≤ address ∧ address < start + length then
      some (values (address - start))
    else
      space address

theorem writeRegion_consecutive (values : Nat → Int) (fits : offset + elements ≤ size) :
    writeRegion space (.consecutive address size offset elements) elements values =
      .ok (written space (address + offset) elements values) := by
  have width : (Region.consecutive address size offset elements).width = elements := rfl
  unfold writeRegion
  rw [if_neg (not_not.mpr (inBounds_consecutive fits)), if_neg (not_not.mpr width.symm), width,
    cell_consecutive]
  rfl

theorem written_holdsAt (start length : Nat) (values : Nat → Int) :
    HoldsAt (written space start length values) start length values := by
  intro index inside
  unfold written
  rw [if_pos ⟨Nat.le_add_right _ _, by omega⟩, Nat.add_sub_cancel_left]

theorem written_outside {start length cell : Nat} {values : Nat → Int}
    (outside : ¬ (start ≤ cell ∧ cell < start + length)) :
    written space start length values cell = space cell :=
  if_neg outside

end Regions

/-! ## Windows -/

section Windows

variable {space : AddressSpace} {source : Operand} {shape : MatrixShape}

/-- The whole storage of an operand has been written, inside its buffer. -/
structure Stored
    (space : AddressSpace)
    (source : Operand)
    (elements : Nat) :
    Prop where
  fits : source.offset + elements ≤ source.size
  initialized : ∀ index < elements, (space (source.address + source.offset + index)).isSome = true

/-- The element of a stored zN matrix at a coordinate. -/
def storedElement (space : AddressSpace) (source : Operand) (shape : MatrixShape)
    (row col : Nat) : Int :=
  (space (source.address + source.offset + elementOffset .zN shape inputBytes row col)).getD 0

/-- One band of a window. -/
def windowRegion
    (source : Operand)
    (shape : MatrixShape)
    (originRow cursor windowRows width : Nat) :
    Region where
  address := source.address
  size := source.size
  offset := source.offset + elementOffset .zN shape inputBytes originRow cursor
  rows := windowRows
  width := width
  rowStride := elementsPerC0 inputBytes

theorem readRegion_windowRegion {originRow cursor windowRows width : Nat}
    (stored : Stored space source (storageElements .zN shape inputBytes))
    (someRows : 0 < windowRows) (someCols : 0 < width)
    (inBand : cursor % elementsPerC0 inputBytes + width ≤ elementsPerC0 inputBytes)
    (rowsInside : originRow + windowRows ≤ shape.rows) (colsInside : cursor + width ≤ shape.cols) :
    ∃ values,
      readRegion space (windowRegion source shape originRow cursor windowRows width) = .ok values ∧
        ∀ row,
          ∀ col < width,
            values row col = storedElement space source shape (originRow + row) (cursor + col) := by
  have shifted : ∀ row, ∀ col < width,
      elementOffset .zN shape inputBytes (originRow + row) (cursor + col) =
        elementOffset .zN shape inputBytes originRow cursor +
          row * elementsPerC0 inputBytes + col :=
    fun row col colInside => elementOffset_zN_shift valid_inputBytes (by omega)
  have cellIs : ∀ row, ∀ col < width,
      (windowRegion source shape originRow cursor windowRows width).cell row col =
        source.address + source.offset +
          elementOffset .zN shape inputBytes (originRow + row) (cursor + col) := by
    intro row col colInside
    rw [shifted row col colInside]
    simp only [windowRegion, Region.cell]
    omega
  have cellInside : ∀ row < windowRows, ∀ col < width,
      elementOffset .zN shape inputBytes (originRow + row) (cursor + col) <
        storageElements .zN shape inputBytes :=
    fun row rowInside col colInside => elementOffset_lt .zN valid_inputBytes (by omega) (by omega)
  have inBounds : (windowRegion source shape originRow cursor windowRows width).InBounds := by
    have lastInside := cellInside (windowRows - 1) (by omega) (width - 1) (by omega)
    rw [shifted (windowRows - 1) (width - 1) (by omega)] at lastInside
    have fits := stored.fits
    have spanIs : (windowRegion source shape originRow cursor windowRows width).span =
        (windowRows - 1) * elementsPerC0 inputBytes + width :=
      if_neg (show ¬ (windowRows = 0 ∨ width = 0) by omega)
    unfold Region.InBounds
    rw [spanIs]
    simp only [windowRegion]
    omega
  have initialized :
      (windowRegion source shape originRow cursor windowRows width).Initialized space := by
    intro row rowInside col colInside
    rw [cellIs row col colInside]
    exact stored.initialized _ (cellInside row rowInside col colInside)
  refine ⟨_, readRegion_of_initialized inBounds initialized, ?_⟩
  intro row col colInside
  simp only [cellIs row col colInside]
  rfl

theorem sourceWindowRegions_read {originRow windowRows limit fuel cursor : Nat}
    (stored : Stored space source (storageElements .zN shape inputBytes))
    (someRows : 0 < windowRows) (rowsInside : originRow + windowRows ≤ shape.rows)
    (limitInside : limit ≤ shape.cols) (enough : limit - cursor ≤ fuel) :
    ∃ regions,
      sourceWindowRegions source shape originRow windowRows limit fuel cursor = .ok regions ∧
        ∃ values,
          readColumns space regions = .ok values ∧
            ∀ row,
              ∀ col < limit - cursor,
                values row col = storedElement space source shape (originRow + row)
                  (cursor + col) := by
  induction fuel generalizing cursor with
  | zero =>
    refine ⟨[], rfl, fun _ _ => 0, rfl, ?_⟩
    intro row col colInside
    omega
  | succ fuel ih =>
    by_cases more : cursor < limit
    · have bandRemainder : cursor % elementsPerC0 inputBytes < elementsPerC0 inputBytes :=
        Nat.mod_lt _ (elementsPerC0_pos valid_inputBytes)
      obtain ⟨width, widthIs⟩ : ∃ width, width =
          min (elementsPerC0 inputBytes - cursor % elementsPerC0 inputBytes) (limit - cursor) :=
        ⟨_, rfl⟩
      obtain ⟨first, firstRead, firstIs⟩ := @readRegion_windowRegion space source shape originRow
        cursor windowRows width stored someRows (by omega) (by omega) rowsInside (by omega)
      obtain ⟨later, emitted, laterValues, laterRead, laterIs⟩ := @ih (cursor + width) (by omega)
      have index : physicalIndex .zN originRow cursor shape inputBytes =
          some (elementOffset .zN shape inputBytes originRow cursor) :=
        if_pos ⟨valid_inputBytes, by omega, by omega⟩
      refine ⟨windowRegion source shape originRow cursor windowRows width :: later, ?_,
        fun row col => if col < width then first row col else laterValues row (col - width),
        ?_, ?_⟩
      · simp only [sourceWindowRegions, if_pos more, index, ← widthIs, emitted]
        rfl
      · simp only [readColumns, firstRead, laterRead]
        rfl
      · intro row col colInside
        simp only
        split
        · rename_i inFirst
          exact firstIs row col inFirst
        · rename_i inLater
          rw [laterIs row (col - width) (by omega)]
          congr 1
          omega
    · refine ⟨[], ?_, fun _ _ => 0, rfl, ?_⟩
      · rw [sourceWindowRegions, if_neg more]
      · intro row col colInside
        omega

end Windows

/-! ## Logical operands -/

namespace GemmDetails

/-- Element of the left factor. -/
def lhsValue (details : GemmDetails) (memory : CubeMemory) (row k : Nat) : Int :=
  if details.transposeA then
    storedElement memory.l1 details.lhs details.shapeA k row
  else
    storedElement memory.l1 details.lhs details.shapeA row k

/-- Element of the right factor. -/
def rhsValue (details : GemmDetails) (memory : CubeMemory) (k col : Nat) : Int :=
  if details.transposeB then
    storedElement memory.l1 details.rhs details.shapeB col k
  else
    storedElement memory.l1 details.rhs details.shapeB k col

/-- First cell of the accumulator. -/
def base (details : GemmDetails) : Nat :=
  details.dst.address + details.dst.offset

/-- Number of cells of the accumulator. -/
def accumulatorElements (details : GemmDetails) : Nat :=
  storageElements .l0c details.shapeC accumulatorBytes

/-- The accumulator as a matrix. -/
def accumulated (details : GemmDetails) (memory : CubeMemory) : Nat → Nat → Int :=
  unpackMatrix .l0c details.shapeC accumulatorBytes fun index =>
    (memory.l0c (details.base + index)).getD 0

/-- What the product is added to. -/
def startValue (details : GemmDetails) (memory : CubeMemory) (row col : Nat) : Int :=
  if details.init then 0 else details.accumulated memory row col

/-- The accumulator with the product of the first part of the inner dimension. -/
def productUpTo (details : GemmDetails) (memory : CubeMemory) (count row col : Nat) : Int :=
  details.startValue memory row col +
    sumBelow count fun k => details.lhsValue memory row k * details.rhsValue memory k col

end GemmDetails

/-- What a single task needs: its operands, and the accumulator if it continues one. -/
structure Ready
    (details : GemmDetails)
    (memory : CubeMemory) :
    Prop where
  lhs : Stored memory.l1 details.lhs (storageElements .zN details.shapeA inputBytes)
  rhs : Stored memory.l1 details.rhs (storageElements .zN details.shapeB inputBytes)
  dstFits : details.dst.offset + details.accumulatorElements ≤ details.dst.size
  accumulator :
    details.init = false →
      ∀ index < details.accumulatorElements, (memory.l0c (details.base + index)).isSome = true

section Single

variable {details : GemmDetails} {memory : CubeMemory}
  {address size offset elements : Nat} {space : AddressSpace} {shape : MatrixShape}

theorem fits_of_inBounds (some : 0 < elements)
    (inBounds : (Region.consecutive address size offset elements).InBounds) :
    offset + elements ≤ size := by
  have spanIs : (Region.consecutive address size offset elements).span = elements := by
    unfold Region.span Region.consecutive
    simp only [Nat.succ_ne_self, false_or, Nat.sub_self, Nat.zero_mul, Nat.zero_add]
    exact if_neg (by omega)
  unfold Region.InBounds at inBounds
  rw [spanIs] at inBounds
  exact inBounds

theorem readRegion_consecutive_eq_ok {values : Nat → Nat → Int} (some : 0 < elements)
    (read : readRegion space (.consecutive address size offset elements) = .ok values) :
    offset + elements ≤ size ∧
      (∀ index < elements, (space (address + offset + index)).isSome = true) ∧
      ∀ index, values 0 index = (space (address + offset + index)).getD 0 := by
  obtain ⟨inBounds, initialized, rfl⟩ := readRegion_eq_ok read
  refine ⟨fits_of_inBounds some inBounds, ?_, ?_⟩
  · intro index inside
    have isSome := initialized 0 Nat.one_pos index inside
    rwa [cell_consecutive] at isSome
  · intro index
    simp only [cell_consecutive]

theorem writeRegion_consecutive_eq_ok {result : AddressSpace} {values : Nat → Int}
    (some : 0 < elements)
    (write :
      writeRegion space (.consecutive address size offset elements) elements values = .ok result) :
    offset + elements ≤ size ∧ result = written space (address + offset) elements values := by
  have inBounds : (Region.consecutive address size offset elements).InBounds := by
    by_contra outside
    rw [writeRegion, if_pos outside] at write
    cases write
  have fits := fits_of_inBounds some inBounds
  rw [writeRegion_consecutive values fits] at write
  exact ⟨fits, (Except.ok.inj write).symm⟩

theorem storageElements_pos (layout : MatrixLayout) {itemsize : Nat}
    (valid : ValidItemsize itemsize) (someRows : 0 < shape.rows)
    (someCols : 0 < shape.cols) : 0 < storageElements layout shape itemsize :=
  Nat.zero_lt_of_lt (elementOffset_lt layout valid someRows someCols)

theorem previousValues_eq_ok {init : Bool} {previous : Nat → Nat → Int}
    (some : 0 < storageElements .l0c shape accumulatorBytes)
    (read :
      previousValues memory init
        (.consecutive address size offset (storageElements .l0c shape accumulatorBytes)) shape =
          .ok previous) :
    (init = false →
      ∀ index < storageElements .l0c shape accumulatorBytes,
        (memory.l0c (address + offset + index)).isSome = true) ∧
      previous = fun row col =>
        if init then
          0
        else
          unpackMatrix .l0c shape accumulatorBytes
            (fun index => (memory.l0c (address + offset + index)).getD 0) row col := by
  cases init with
  | true =>
    refine ⟨fun impossible => (by cases impossible), ?_⟩
    exact (Except.ok.inj read).symm
  | false =>
    obtain ⟨storage, isStorage, isPrevious⟩ := exceptBind_eq_ok.mp read
    obtain ⟨_, initialized, values⟩ := readRegion_consecutive_eq_ok some isStorage
    refine ⟨fun _ => initialized, ?_⟩
    rw [← Except.ok.inj isPrevious]
    funext row col
    exact values _

theorem gemmV0_eq_ok {direct : CubeMemory} (someRows : 0 < details.rows)
    (someCols : 0 < details.cols) (someInner : 0 < details.inner)
    (single : gemmV0 details memory = .ok direct) :
    Ready details memory ∧
      direct =
        { memory with
          l0c :=
            written memory.l0c details.base details.accumulatorElements
              (packMatrix .l0c details.shapeC accumulatorBytes
                (details.productUpTo memory details.inner)) } := by
  have someA : 0 < storageElements .zN details.shapeA inputBytes := by
    refine storageElements_pos .zN valid_inputBytes ?_ ?_ <;>
      simp only [GemmTemplate.shapeA] <;> split <;> assumption
  have someB : 0 < storageElements .zN details.shapeB inputBytes := by
    refine storageElements_pos .zN valid_inputBytes ?_ ?_ <;>
      simp only [GemmTemplate.shapeB] <;> split <;> assumption
  have someC : 0 < storageElements .l0c details.shapeC accumulatorBytes :=
    storageElements_pos .l0c valid_accumulatorBytes someRows someCols
  obtain ⟨left, leftRead, single⟩ := exceptBind_eq_ok.mp single
  obtain ⟨right, rightRead, single⟩ := exceptBind_eq_ok.mp single
  obtain ⟨previous, previousRead, single⟩ := exceptBind_eq_ok.mp single
  obtain ⟨l0c, isWritten, isDirect⟩ := exceptBind_eq_ok.mp single
  obtain ⟨leftFits, leftInitialized, leftIs⟩ := readRegion_consecutive_eq_ok someA leftRead
  obtain ⟨rightFits, rightInitialized, rightIs⟩ := readRegion_consecutive_eq_ok someB rightRead
  obtain ⟨accumulatorInitialized, rfl⟩ := previousValues_eq_ok someC previousRead
  obtain ⟨dstFits, rfl⟩ := writeRegion_consecutive_eq_ok someC isWritten
  refine ⟨⟨⟨leftFits, leftInitialized⟩, ⟨rightFits, rightInitialized⟩, dstFits,
    accumulatorInitialized⟩, ?_⟩
  rw [← Except.ok.inj isDirect]
  have isProduct : (fun row col =>
      (if details.init then
        0
      else
        unpackMatrix .l0c details.shapeC accumulatorBytes
          (fun index => (memory.l0c (details.dst.address + details.dst.offset + index)).getD 0)
          row col) +
        matmul details.inner
          (if details.transposeA then
            fun row col => unpackMatrix .zN details.shapeA inputBytes (left 0) col row
          else
            unpackMatrix .zN details.shapeA inputBytes (left 0))
          (if details.transposeB then
            fun row col => unpackMatrix .zN details.shapeB inputBytes (right 0) col row
          else
            unpackMatrix .zN details.shapeB inputBytes (right 0)) row col) =
      details.productUpTo memory details.inner := by
    funext row col
    have leftValue : ∀ k, (if details.transposeA then
          fun row col => unpackMatrix .zN details.shapeA inputBytes (left 0) col row
        else
          unpackMatrix .zN details.shapeA inputBytes (left 0)) row k =
        details.lhsValue memory row k := by
      intro k
      unfold GemmDetails.lhsValue
      split <;> exact leftIs _
    have rightValue : ∀ k, (if details.transposeB then
          fun row col => unpackMatrix .zN details.shapeB inputBytes (right 0) col row
        else
          unpackMatrix .zN details.shapeB inputBytes (right 0)) k col =
        details.rhsValue memory k col := by
      intro k
      unfold GemmDetails.rhsValue
      split <;> exact rightIs _
    simp only [matmul, leftValue, rightValue]
    rfl
  rw [← isProduct]
  rfl

end Single

/-! ## Loads -/

/-- Memory after a tile was written to a slot. -/
def CubeMemory.withTile (memory : CubeMemory) (target : LoadTarget) (start : Nat)
    (shape : MatrixShape) (tile : Nat → Nat → Int) : CubeMemory :=
  let length := storageElements target.layout shape inputBytes
  let packed := packMatrix target.layout shape inputBytes tile
  match target with
  | .l0a => { memory with l0a := written memory.l0a start length packed }
  | .l0b => { memory with l0b := written memory.l0b start length packed }

theorem executeLoad_window {now : CubeMemory} {source : Operand}
    {stored window destinationShape : MatrixShape} {originRow originCol start size : Nat}
    (target : LoadTarget) (transpose : Bool)
    (isStored : Stored now.l1 source (storageElements .zN stored inputBytes))
    (someRows : 0 < window.rows) (rowsInside : originRow + window.rows ≤ stored.rows)
    (colsInside : originCol + window.cols ≤ stored.cols)
    (destinationIs : destinationShape = if transpose then ⟨window.cols, window.rows⟩ else window)
    (fits : storageElements target.layout destinationShape inputBytes ≤ size) :
    ∃ sources,
      sourceWindowRegions source stored originRow window.rows (originCol + window.cols)
          window.cols originCol = .ok sources ∧
        ∃ tile,
          executeLoad now
              { target := target
                sources := sources
                destination :=
                  .consecutive start size 0
                    (storageElements target.layout destinationShape inputBytes)
                destinationShape := destinationShape
                transposeAfterSlice := transpose } =
            .ok (now.withTile target start destinationShape tile) ∧
          ∀ row < destinationShape.rows,
            ∀ col < destinationShape.cols,
              tile row col =
                if transpose then
                  storedElement now.l1 source stored (originRow + col) (originCol + row)
                else
                  storedElement now.l1 source stored (originRow + row) (originCol + col) := by
  obtain ⟨sources, emitted, values, read, valuesAre⟩ :=
    @sourceWindowRegions_read now.l1 source stored originRow window.rows
      (originCol + window.cols) window.cols originCol isStored someRows rowsInside colsInside
      (by omega)
  refine ⟨sources, emitted, if transpose then fun row col => values col row else values, ?_, ?_⟩
  · unfold executeLoad CubeMemory.withTile
    rw [read]
    cases target with
    | l0a =>
      simp only [writeRegion_consecutive _ (show 0 + _ ≤ size by simpa using fits), bind,
        Except.bind, pure, Except.pure, Nat.add_zero]
    | l0b =>
      simp only [writeRegion_consecutive _ (show 0 + _ ≤ size by simpa using fits), bind,
        Except.bind, pure, Except.pure, Nat.add_zero]
  · intro row rowInside col colInside
    cases transpose with
    | true =>
      simp only [if_true] at destinationIs rowInside colInside ⊢
      subst destinationIs
      exact valuesAre col row (by simp only at rowInside; omega)
    | false =>
      simp only [Bool.false_eq_true, if_false] at destinationIs ⊢
      subst destinationIs
      exact valuesAre row col (by omega)

/-! ## The plan -/

/-- What the bridge has checked of an accepted call. -/
structure Planned (details : GemmDetails) : Prop where
  someRows : 0 < details.rows
  someCols : 0 < details.cols
  someInner : 0 < details.inner
  someK : 0 < details.kL0Size
  someTile : 0 < details.nTile
  colsAre : details.cols = details.nTile * details.nL0Split
  stepsAre : details.stepCount = details.kSplit * details.nL0Split
  sizeIs : details.nSize = details.nTile

theorem planned_of_accepted {template : GemmTemplate} {lhs rhs dst : Operand}
    {details : GemmDetails}
    (accepted : gemmV0Metadata template lhs rhs dst = .ok details) : Planned details := by
  unfold gemmV0Metadata at accepted
  simp only [bind, Except.bind, throw, throwThe, MonadExceptOf.throw, pure, Except.pure] at accepted
  split at accepted
  · cases accepted
  rename_i extents
  split at accepted
  · cases accepted
  split at accepted
  · cases accepted
  rename_i tiling
  split at accepted
  · cases accepted
  split at accepted
  · cases accepted
  split at accepted
  · cases accepted
  split at accepted
  · cases accepted
  split at accepted
  · cases accepted
  obtain rfl := Except.ok.inj accepted
  have divides : template.cols % template.tileColumns = 0 := by omega
  exact
    { someRows := show 0 < template.rows by omega
      someCols := show 0 < template.cols by omega
      someInner := show 0 < template.inner by omega
      someK := show 0 < template.kL0Size by omega
      someTile := show 0 < template.tileColumns by omega
      colsAre := (Nat.mul_div_cancel' (Nat.dvd_of_mod_eq_zero divides)).symm
      stepsAre := rfl
      sizeIs := by
        simp only [GemmDetails.nSize]
        split
        · rename_i transposed
          simp only [GemmTemplate.tileColumns, transposed, true_or, if_true]
        · rfl }

section Steps

variable {details : GemmDetails} {memory now : CubeMemory} {nIndex kIndex slot : Nat}

section

variable (planned : Planned details)
include planned

theorem kSize_inside (inside : kIndex < details.kSplit) :
    0 < details.kSize kIndex ∧ kIndex * details.kL0Size + details.kSize kIndex ≤ details.inner ∧
      details.kSize kIndex ≤ details.maxK := by
  have someK := planned.someK
  have started : kIndex * details.kL0Size < details.inner := by
    have lastStep : (kIndex + 1) * details.kL0Size ≤ details.inner + details.kL0Size - 1 :=
      (Nat.mul_le_mul_right _ inside).trans (Nat.div_mul_le_self _ _)
    rw [Nat.add_mul, Nat.one_mul] at lastStep
    omega
  unfold GemmDetails.kSize GemmDetails.maxK
  omega

theorem kSize_next (inside : kIndex < details.kSplit) :
    min details.inner ((kIndex + 1) * details.kL0Size) =
      kIndex * details.kL0Size + details.kSize kIndex := by
  have bounds := kSize_inside planned inside
  unfold GemmDetails.kSize at bounds ⊢
  rw [Nat.add_mul, Nat.one_mul]
  omega

theorem inner_le_kSplit : details.inner ≤ details.kSplit * details.kL0Size :=
  le_roundUp planned.someK

theorem kSplit_pos : 0 < details.kSplit := by
  have covered := inner_le_kSplit planned
  have someInner := planned.someInner
  by_contra none
  rw [Nat.eq_zero_of_not_pos none, Nat.zero_mul] at covered
  omega

theorem step_split {step : Nat} (inside : step < details.stepCount) :
    step / details.kSplit < details.nL0Split ∧ step % details.kSplit < details.kSplit := by
  rw [planned.stepsAre] at inside
  exact ⟨Nat.div_lt_of_lt_mul inside, Nat.mod_lt _ (kSplit_pos planned)⟩

end

theorem loadA_executes (planned : Planned details) (ready : Ready details memory)
    (sameL1 : now.l1 = memory.l1) (inside : kIndex < details.kSplit) :
    ∃ task tile,
      details.loadA kIndex slot = .ok task ∧
        executeTask now task =
          .ok (now.withTile .l0a (slot * l0SlotBytes) ⟨details.rows, details.kSize kIndex⟩ tile) ∧
        ∀ row < details.rows,
          ∀ k < details.kSize kIndex,
            tile row k = details.lhsValue memory row (kIndex * details.kL0Size + k) := by
  obtain ⟨someK, innerInside, belowMax⟩ := kSize_inside planned inside
  have stored : Stored now.l1 details.lhs (storageElements .zN details.shapeA inputBytes) := by
    rw [sameL1]
    exact ready.lhs
  have fits : storageElements .zZ ⟨details.rows, details.kSize kIndex⟩ inputBytes ≤
      details.slotElementsA :=
    Nat.mul_le_mul_left _ (roundUp_mono _ belowMax)
  cases transposed : details.transposeA with
  | true =>
    have shapeIs : details.shapeA = ⟨details.inner, details.rows⟩ := by
      simp [GemmTemplate.shapeA, transposed]
    obtain ⟨sources, emitted, tile, executes, tileIs⟩ :=
      @executeLoad_window now details.lhs details.shapeA ⟨details.kSize kIndex, details.rows⟩
        ⟨details.rows, details.kSize kIndex⟩ (kIndex * details.kL0Size) 0 (slot * l0SlotBytes)
        details.slotElementsA .l0a true stored someK (by rw [shapeIs]; exact innerInside)
        (by rw [shapeIs]; simp) rfl fits
    refine ⟨.load _, tile, ?_, executes, ?_⟩
    · simp only [GemmDetails.loadA, transposed, if_true, emitted]
      rfl
    · intro row rowInside k kInside
      rw [tileIs row rowInside k kInside]
      simp [GemmDetails.lhsValue, transposed, sameL1]
  | false =>
    have shapeIs : details.shapeA = ⟨details.rows, details.inner⟩ := by
      simp [GemmTemplate.shapeA, transposed]
    obtain ⟨sources, emitted, tile, executes, tileIs⟩ :=
      @executeLoad_window now details.lhs details.shapeA ⟨details.rows, details.kSize kIndex⟩
        ⟨details.rows, details.kSize kIndex⟩ 0 (kIndex * details.kL0Size) (slot * l0SlotBytes)
        details.slotElementsA .l0a false stored planned.someRows (by rw [shapeIs]; simp)
        (by rw [shapeIs]; exact innerInside) rfl fits
    refine ⟨.load _, tile, ?_, executes, ?_⟩
    · simp only [GemmDetails.loadA, transposed, Bool.false_eq_true, if_false, emitted]
      rfl
    · intro row rowInside k kInside
      rw [tileIs row rowInside k kInside]
      simp [GemmDetails.lhsValue, transposed, sameL1]

theorem tile_inside (planned : Planned details) (inside : nIndex < details.nL0Split) :
    nIndex * details.nTile + details.nTile ≤ details.cols := by
  rw [planned.colsAre, ← Nat.succ_mul, Nat.mul_comm details.nTile]
  exact Nat.mul_le_mul_right _ inside

theorem loadB_executes (planned : Planned details) (ready : Ready details memory)
    (sameL1 : now.l1 = memory.l1) (nInside : nIndex < details.nL0Split)
    (inside : kIndex < details.kSplit) :
    ∃ task tile,
      details.loadB nIndex kIndex slot = .ok task ∧
        executeTask now task =
          .ok (now.withTile .l0b (slot * l0SlotBytes) ⟨details.kSize kIndex, details.nTile⟩ tile) ∧
        ∀ k < details.kSize kIndex,
          ∀ col < details.nTile,
            tile k col =
              details.rhsValue memory (kIndex * details.kL0Size + k)
                (nIndex * details.nTile + col) := by
  obtain ⟨someK, innerInside, belowMax⟩ := kSize_inside planned inside
  have colsInside := tile_inside planned nInside
  have stored : Stored now.l1 details.rhs (storageElements .zN details.shapeB inputBytes) := by
    rw [sameL1]
    exact ready.rhs
  have fits : storageElements .nZ ⟨details.kSize kIndex, details.nTile⟩ inputBytes ≤
      details.slotElementsB :=
    Nat.mul_le_mul_right _ (roundUp_mono _ belowMax)
  cases transposed : details.transposeB with
  | true =>
    have shapeIs : details.shapeB = ⟨details.cols, details.inner⟩ := by
      simp [GemmTemplate.shapeB, transposed]
    obtain ⟨sources, emitted, tile, executes, tileIs⟩ :=
      @executeLoad_window now details.rhs details.shapeB ⟨details.nTile, details.kSize kIndex⟩
        ⟨details.kSize kIndex, details.nTile⟩ (nIndex * details.nTile)
        (kIndex * details.kL0Size) (slot * l0SlotBytes) details.slotElementsB .l0b true stored
        planned.someTile (by rw [shapeIs]; exact colsInside)
        (by rw [shapeIs]; exact innerInside) rfl fits
    refine ⟨.load _, tile, ?_, executes, ?_⟩
    · simp only [GemmDetails.loadB, transposed, if_true, planned.sizeIs, emitted]
      rfl
    · intro k kInside col colInside
      rw [tileIs k kInside col colInside]
      simp [GemmDetails.rhsValue, transposed, sameL1]
  | false =>
    have shapeIs : details.shapeB = ⟨details.inner, details.cols⟩ := by
      simp [GemmTemplate.shapeB, transposed]
    obtain ⟨sources, emitted, tile, executes, tileIs⟩ :=
      @executeLoad_window now details.rhs details.shapeB ⟨details.kSize kIndex, details.nTile⟩
        ⟨details.kSize kIndex, details.nTile⟩ (kIndex * details.kL0Size)
        (nIndex * details.nTile) (slot * l0SlotBytes) details.slotElementsB .l0b false stored
        someK (by rw [shapeIs]; exact innerInside) (by rw [shapeIs]; exact colsInside) rfl fits
    refine ⟨.load _, tile, ?_, executes, ?_⟩
    · simp only [GemmDetails.loadB, transposed, Bool.false_eq_true, if_false, planned.sizeIs,
        emitted]
      rfl
    · intro k kInside col colInside
      rw [tileIs k kInside col colInside]
      simp [GemmDetails.rhsValue, transposed, sameL1]

end Steps

/-! ## Products -/

theorem sumBelow_add (first second : Nat) (term : Nat → Int) :
    sumBelow (first + second) term =
      sumBelow first term + sumBelow second fun index => term (first + index) := by
  simp only [sumBelow, List.range_add, List.map_append, List.sum_append, List.map_map]
  rfl

theorem sumBelow_congr {count : Nat} {term other : Nat → Int}
    (same : ∀ index < count, term index = other index) :
    sumBelow count term = sumBelow count other := by
  unfold sumBelow
  rw [List.map_congr_left fun index member => same index (List.mem_range.mp member)]

theorem packMatrix_l0c_congr {shape : MatrixShape} {itemsize : Nat}
    {matrix other : Nat → Nat → Int} (valid : ValidItemsize itemsize)
    (same : ∀ row < shape.rows, ∀ col < shape.cols, matrix row col = other row col) :
    packMatrix .l0c shape itemsize matrix = packMatrix .l0c shape itemsize other := by
  funext index
  rw [packMatrix_l0c valid, packMatrix_l0c valid]
  split
  · rename_i inside
    exact same _ inside.1 _ inside.2
  · rfl

theorem HoldsAt.readTile {space : AddressSpace} {layout : MatrixLayout}
    {shape : MatrixShape} {tile : Nat → Nat → Int} {start size : Nat}
    (holds :
      HoldsAt space start (storageElements layout shape inputBytes)
        (packMatrix layout shape inputBytes tile))
    (fits : storageElements layout shape inputBytes ≤ size) :
    ∃ read,
      Cube.readRegion space
          (.consecutive start size 0 (storageElements layout shape inputBytes)) = .ok read ∧
        ∀ row < shape.rows,
          ∀ col < shape.cols,
            unpackMatrix layout shape inputBytes (read 0) row col = tile row col := by
  obtain ⟨read, isRead, readIs⟩ := @HoldsAt.readRegion space start size 0 _ _ holds (by simpa)
  refine ⟨read, isRead, ?_⟩
  intro row rowInside col colInside
  rw [unpackMatrix, readIs _ (elementOffset_lt layout valid_inputBytes rowInside colInside),
    packMatrix_offset valid_inputBytes rowInside colInside]

section Multiply

variable {details : GemmDetails} {now : CubeMemory} {nIndex kIndex slot : Nat}
  {left right previous : Nat → Nat → Int}

/-- The shape of a tile of the accumulator. -/
def GemmDetails.tileShape (details : GemmDetails) : MatrixShape :=
  ⟨details.rows, details.nTile⟩

/-- Where a tile starts in the accumulator. -/
def GemmDetails.tileStart (details : GemmDetails) (nIndex : Nat) : Nat :=
  nIndex * details.nTile * roundUp details.rows 16

/-- The region of a tile of the accumulator. -/
def GemmDetails.tileRegion (details : GemmDetails) (nIndex : Nat) : Region :=
  .consecutive details.dst.address details.dst.size
    (details.dst.offset + details.tileStart nIndex)
    (storageElements .l0c details.tileShape accumulatorBytes)

theorem mma_executes (planned : Planned details) (inside : kIndex < details.kSplit)
    (tileFits :
      details.dst.offset + details.tileStart nIndex +
          storageElements .l0c details.tileShape accumulatorBytes ≤ details.dst.size)
    (leftHolds :
      HoldsAt now.l0a (slot * l0SlotBytes)
        (storageElements .zZ ⟨details.rows, details.kSize kIndex⟩ inputBytes)
        (packMatrix .zZ ⟨details.rows, details.kSize kIndex⟩ inputBytes left))
    (rightHolds :
      HoldsAt now.l0b (slot * l0SlotBytes)
        (storageElements .nZ ⟨details.kSize kIndex, details.nTile⟩ inputBytes)
        (packMatrix .nZ ⟨details.kSize kIndex, details.nTile⟩ inputBytes right))
    (previousRead :
      previousValues now (details.init && kIndex == 0) (details.tileRegion nIndex)
        details.tileShape = .ok previous) :
    executeTask now (details.mma nIndex kIndex slot) =
      .ok { now with
        l0c :=
          written now.l0c (details.base + details.tileStart nIndex)
            (storageElements .l0c details.tileShape accumulatorBytes)
            (packMatrix .l0c details.tileShape accumulatorBytes fun row col =>
              previous row col + matmul (details.kSize kIndex) left right row col) } := by
  obtain ⟨_, _, belowMax⟩ := kSize_inside planned inside
  obtain ⟨leftRead, isLeft, leftIs⟩ :=
    @HoldsAt.readTile _ _ _ _ _ details.slotElementsA leftHolds
      (Nat.mul_le_mul_left _ (roundUp_mono _ belowMax))
  obtain ⟨rightRead, isRight, rightIs⟩ :=
    @HoldsAt.readTile _ _ _ _ _ details.slotElementsB rightHolds
      (Nat.mul_le_mul_right _ (roundUp_mono _ belowMax))
  have sameProduct :
      packMatrix .l0c details.tileShape accumulatorBytes (fun row col =>
          previous row col +
            matmul (details.kSize kIndex)
              (unpackMatrix .zZ ⟨details.rows, details.kSize kIndex⟩ inputBytes (leftRead 0))
              (unpackMatrix .nZ ⟨details.kSize kIndex, details.nTile⟩ inputBytes (rightRead 0))
              row col) =
        packMatrix .l0c details.tileShape accumulatorBytes fun row col =>
          previous row col + matmul (details.kSize kIndex) left right row col := by
    refine packMatrix_l0c_congr valid_accumulatorBytes ?_
    intro row rowInside col colInside
    congr 1
    refine sumBelow_congr ?_
    intro k kInside
    rw [leftIs row rowInside k kInside, rightIs k kInside col colInside]
  have isWritten :
      writeRegion now.l0c (details.tileRegion nIndex)
          (storageElements .l0c details.tileShape accumulatorBytes)
          (packMatrix .l0c details.tileShape accumulatorBytes fun row col =>
            previous row col + matmul (details.kSize kIndex) left right row col) =
        .ok (written now.l0c (details.base + details.tileStart nIndex)
          (storageElements .l0c details.tileShape accumulatorBytes)
          (packMatrix .l0c details.tileShape accumulatorBytes fun row col =>
            previous row col + matmul (details.kSize kIndex) left right row col)) := by
    rw [GemmDetails.tileRegion, writeRegion_consecutive _ tileFits, ← Nat.add_assoc]
    rfl
  have isMma : details.mma nIndex kIndex slot = .mma {
      lhs :=
        .consecutive (slot * l0SlotBytes) details.slotElementsA 0
          (storageElements .zZ ⟨details.rows, details.kSize kIndex⟩ inputBytes)
      rhs :=
        .consecutive (slot * l0SlotBytes) details.slotElementsB 0
          (storageElements .nZ ⟨details.kSize kIndex, details.nTile⟩ inputBytes)
      dst := details.tileRegion nIndex
      rows := details.rows
      cols := details.nTile
      inner := details.kSize kIndex
      init := details.init && kIndex == 0
      nActual := details.nTile } := by
    simp only [GemmDetails.mma, planned.sizeIs]
    rfl
  rw [isMma]
  simp only [executeTask, executeMma, isLeft, isRight, bind, Except.bind]
  rw [show (⟨details.rows, details.nTile⟩ : MatrixShape) = details.tileShape from rfl, previousRead]
  simp only [sameProduct, isWritten]
  rfl

end Multiply

/-! ## The accumulator between steps -/

namespace GemmDetails

/-- First step of the tile of a column. -/
def firstStep (details : GemmDetails) (col : Nat) : Nat :=
  col / details.nTile * details.kSplit

/-- Inner elements that the steps so far have accumulated in a column. -/
def accumulatedInner (details : GemmDetails) (step col : Nat) : Nat :=
  min details.inner ((step - details.firstStep col) * details.kL0Size)

/-- A cell of the accumulator before a step: untouched, or the product so far with zero padding. -/
def contents (details : GemmDetails) (memory : CubeMemory) (step index : Nat) : Option Int :=
  let row := l0cRow details.shapeC index
  let col := l0cCol details.shapeC index
  if step ≤ details.firstStep col then
    memory.l0c (details.base + index)
  else if row < details.rows then
    some (details.productUpTo memory (details.accumulatedInner step col) row col)
  else
    some 0

end GemmDetails

/-- The memory before a step. -/
structure Partial
    (details : GemmDetails)
    (memory : CubeMemory)
    (step : Nat)
    (now : CubeMemory) :
    Prop where
  l1 : now.l1 = memory.l1
  inside :
    ∀ index < details.accumulatorElements,
      now.l0c (details.base + index) = details.contents memory step index
  outside :
    ∀ cell,
      ¬ (details.base ≤ cell ∧ cell < details.base + details.accumulatorElements) →
        now.l0c cell = memory.l0c cell

section Accumulation

variable {details : GemmDetails} {memory now : CubeMemory} {step nIndex kIndex : Nat}
  {index col : Nat}

theorem contents_of_waiting (waiting : step ≤ details.firstStep (l0cCol details.shapeC index)) :
    details.contents memory step index = memory.l0c (details.base + index) :=
  if_pos waiting

theorem contents_of_started (started : details.firstStep (l0cCol details.shapeC index) < step) :
    details.contents memory step index =
      if l0cRow details.shapeC index < details.rows then
        some (details.productUpTo memory
          (details.accumulatedInner step (l0cCol details.shapeC index))
          (l0cRow details.shapeC index) (l0cCol details.shapeC index))
      else
        some 0 :=
  if_neg (Nat.not_le.mpr started)

theorem partial_zero :
    Partial details memory 0 memory where
  l1 := rfl
  inside := fun _ _ => (contents_of_waiting (Nat.zero_le _)).symm
  outside := fun _ _ => rfl

theorem accumulatedInner_complete (planned : Planned details)
    (complete : details.firstStep col + details.kSplit ≤ step) :
    details.accumulatedInner step col = details.inner := by
  have covered : details.kSplit * details.kL0Size ≤
      (step - details.firstStep col) * details.kL0Size :=
    Nat.mul_le_mul_right _ (by omega)
  exact Nat.min_eq_left ((inner_le_kSplit planned).trans covered)

theorem contents_of_other_tile (planned : Planned details) (kInside : kIndex < details.kSplit)
    (otherTile : l0cCol details.shapeC index / details.nTile ≠ nIndex) :
    details.contents memory (nIndex * details.kSplit + kIndex + 1) index =
      details.contents memory (nIndex * details.kSplit + kIndex) index := by
  have firstIs : details.firstStep (l0cCol details.shapeC index) =
      l0cCol details.shapeC index / details.nTile * details.kSplit := rfl
  obtain earlier | later := Nat.lt_or_gt_of_ne otherTile
  · have complete :
        (l0cCol details.shapeC index / details.nTile + 1) * details.kSplit ≤
          nIndex * details.kSplit :=
      Nat.mul_le_mul_right _ earlier
    rw [Nat.add_mul, Nat.one_mul, ← firstIs] at complete
    rw [contents_of_started (by omega), contents_of_started (by omega),
      accumulatedInner_complete planned (by omega), accumulatedInner_complete planned (by omega)]
  · have notStarted :
        (nIndex + 1) * details.kSplit ≤
          l0cCol details.shapeC index / details.nTile * details.kSplit :=
      Nat.mul_le_mul_right _ later
    rw [Nat.add_mul, Nat.one_mul, ← firstIs] at notStarted
    rw [contents_of_waiting (by omega), contents_of_waiting (by omega)]

theorem tileFirst_aligned (aligned : details.nTile % 16 = 0) : 16 ∣ nIndex * details.nTile :=
  Dvd.dvd.mul_left (Nat.dvd_of_mod_eq_zero aligned) _

theorem cols_aligned (planned : Planned details) (aligned : details.nTile % 16 = 0) :
    16 ∣ details.cols := by
  rw [planned.colsAre]
  exact Dvd.dvd.mul_right (Nat.dvd_of_mod_eq_zero aligned) _

theorem l0cRow_tileStart (aligned : details.nTile % 16 = 0) (index : Nat) :
    l0cRow details.shapeC (details.tileStart nIndex + index) = l0cRow details.tileShape index :=
  l0cRow_tile rfl (tileFirst_aligned aligned) index

theorem l0cCol_tileStart (planned : Planned details) (aligned : details.nTile % 16 = 0)
    (index : Nat) :
    l0cCol details.shapeC (details.tileStart nIndex + index) =
      nIndex * details.nTile + l0cCol details.tileShape index :=
  l0cCol_tile rfl planned.someRows (tileFirst_aligned aligned) index

theorem lt_tileElements (planned : Planned details) (aligned : details.nTile % 16 = 0)
    (index : Nat) :
    index < storageElements .l0c details.tileShape accumulatorBytes ↔
      l0cCol details.tileShape index < details.nTile :=
  lt_storageElements_l0c planned.someRows (Nat.dvd_of_mod_eq_zero aligned) index

theorem lt_accumulatorElements (planned : Planned details)
    (aligned : details.nTile % 16 = 0) (index : Nat) :
    index < details.accumulatorElements ↔ l0cCol details.shapeC index < details.cols :=
  lt_storageElements_l0c planned.someRows (cols_aligned planned aligned) index

theorem tile_of_col (inTile : col < details.nTile) :
    (nIndex * details.nTile + col) / details.nTile = nIndex := by
  rw [Nat.mul_comm, Nat.mul_add_div (by omega), Nat.div_eq_of_lt inTile, Nat.add_zero]

theorem tileStart_inside (planned : Planned details) (aligned : details.nTile % 16 = 0)
    (nInside : nIndex < details.nL0Split) {index : Nat}
    (inTile : index < storageElements .l0c details.tileShape accumulatorBytes) :
    details.tileStart nIndex + index < details.accumulatorElements := by
  rw [lt_accumulatorElements planned aligned, l0cCol_tileStart planned aligned]
  have inColumns := (lt_tileElements planned aligned index).mp inTile
  have colsInside := tile_inside planned nInside
  omega

theorem exists_of_tile (planned : Planned details) (aligned : details.nTile % 16 = 0)
    (index : Nat) :
    ∃ inner,
      inner < storageElements .l0c details.tileShape accumulatorBytes ∧
        index = details.tileStart (l0cCol details.shapeC index / details.nTile) + inner := by
  have division := Nat.div_add_mod (l0cCol details.shapeC index) details.nTile
  rw [Nat.mul_comm] at division
  have split := @elementOffset_l0c_tile details.shapeC details.tileShape accumulatorBytes _ rfl
    (@tileFirst_aligned details (l0cCol details.shapeC index / details.nTile) aligned)
    (l0cRow details.shapeC index) (l0cCol details.shapeC index % details.nTile)
  rw [division, elementOffset_l0cRow_l0cCol] at split
  refine ⟨_, ?_, split⟩
  rw [lt_tileElements planned aligned]
  have sameCol := congrArg (l0cCol details.shapeC) split
  have shifted := @l0cCol_tileStart details (l0cCol details.shapeC index / details.nTile) planned
    aligned (elementOffset .l0c details.tileShape accumulatorBytes (l0cRow details.shapeC index)
      (l0cCol details.shapeC index % details.nTile))
  rw [GemmDetails.tileStart] at shifted
  have inTile := Nat.mod_lt (l0cCol details.shapeC index) planned.someTile
  have rowsAre : details.shapeC.rows = details.rows := rfl
  rw [rowsAre] at sameCol
  omega

theorem productUpTo_add (first second row col : Nat) :
    details.productUpTo memory (first + second) row col =
      details.productUpTo memory first row col +
        sumBelow second fun k =>
          details.lhsValue memory row (first + k) * details.rhsValue memory (first + k) col := by
  unfold GemmDetails.productUpTo
  rw [sumBelow_add, Int.add_assoc]

theorem firstStep_of_tile {col : Nat} (inTile : col < details.nTile) :
    details.firstStep (nIndex * details.nTile + col) = nIndex * details.kSplit := by
  rw [GemmDetails.firstStep, tile_of_col inTile]

theorem accumulatedInner_of_tile (inTile : col < details.nTile) :
    details.accumulatedInner (nIndex * details.kSplit + kIndex) (nIndex * details.nTile + col) =
      min details.inner (kIndex * details.kL0Size) := by
  rw [GemmDetails.accumulatedInner, firstStep_of_tile inTile, Nat.add_sub_cancel_left]

section

variable (planned : Planned details)
include planned

theorem contents_isSome (ready : Ready details memory) (aligned : details.nTile % 16 = 0)
    (nInside : nIndex < details.nL0Split) (continues : (details.init && kIndex == 0) = false)
    (inTile : index < storageElements .l0c details.tileShape accumulatorBytes) :
    (details.contents memory (nIndex * details.kSplit + kIndex)
      (details.tileStart nIndex + index)).isSome = true := by
  have inColumns := (lt_tileElements planned aligned index).mp inTile
  have firstIs : details.firstStep
      (l0cCol details.shapeC (details.tileStart nIndex + index)) = nIndex * details.kSplit := by
    rw [l0cCol_tileStart planned aligned, firstStep_of_tile inColumns]
  by_cases isFirst : kIndex = 0
  · subst isFirst
    rw [contents_of_waiting (by omega)]
    exact ready.accumulator (by simpa using continues) _
      (tileStart_inside planned aligned nInside inTile)
  · rw [contents_of_started (by omega)]
    split <;> rfl

theorem contents_unpacked (aligned : details.nTile % 16 = 0) (kInside : kIndex < details.kSplit)
    (continues : (details.init && kIndex == 0) = false) {row : Nat}
    (rowInside : row < details.rows) (colInside : col < details.nTile) :
    (details.contents memory (nIndex * details.kSplit + kIndex)
        (details.tileStart nIndex +
          elementOffset .l0c details.tileShape accumulatorBytes row col)).getD 0 =
      details.productUpTo memory (kIndex * details.kL0Size) row (nIndex * details.nTile + col) := by
  have indexIs : details.tileStart nIndex +
      elementOffset .l0c details.tileShape accumulatorBytes row col =
        elementOffset .l0c details.shapeC accumulatorBytes row (nIndex * details.nTile + col) :=
    (@elementOffset_l0c_tile details.shapeC details.tileShape accumulatorBytes _ rfl
      (tileFirst_aligned aligned) row col).symm
  obtain ⟨rowIs, colIs⟩ := @l0cRow_l0cCol_elementOffset details.shapeC accumulatorBytes row
    (nIndex * details.nTile + col) rowInside
  have firstIs := @firstStep_of_tile details nIndex col colInside
  rw [indexIs]
  by_cases isFirst : kIndex = 0
  · subst isFirst
    have continued : details.init = false := by simpa using continues
    rw [contents_of_waiting (by rw [colIs]; omega), GemmDetails.productUpTo,
      GemmDetails.startValue, continued, Nat.zero_mul]
    exact (Int.add_zero _).symm
  · obtain ⟨_, innerInside, _⟩ := kSize_inside planned kInside
    rw [contents_of_started (by rw [colIs]; omega), rowIs, colIs, if_pos rowInside,
      accumulatedInner_of_tile colInside, Nat.min_eq_right (by omega)]
    rfl

theorem previousValues_of_partial (ready : Ready details memory)
    (aligned : details.nTile % 16 = 0) (nInside : nIndex < details.nL0Split)
    (kInside : kIndex < details.kSplit)
    (tileFits :
      details.dst.offset + details.tileStart nIndex +
          storageElements .l0c details.tileShape accumulatorBytes ≤ details.dst.size)
    (sofar : Partial details memory (nIndex * details.kSplit + kIndex) now) :
    ∃ previous,
      previousValues now (details.init && kIndex == 0) (details.tileRegion nIndex)
          details.tileShape = .ok previous ∧
        ∀ row < details.rows,
          ∀ col < details.nTile,
            previous row col =
              details.productUpTo memory (kIndex * details.kL0Size) row
                (nIndex * details.nTile + col) := by
  cases starts : details.init && kIndex == 0 with
  | true =>
    refine ⟨fun _ _ => 0, rfl, ?_⟩
    intro row _ col _
    rw [Bool.and_eq_true, beq_iff_eq] at starts
    simp [GemmDetails.productUpTo, GemmDetails.startValue, starts.1, starts.2, sumBelow]
  | false =>
    have holds : HoldsAt now.l0c
        (details.dst.address + (details.dst.offset + details.tileStart nIndex))
        (storageElements .l0c details.tileShape accumulatorBytes)
        fun index =>
          (details.contents memory (nIndex * details.kSplit + kIndex)
            (details.tileStart nIndex + index)).getD 0 := by
      intro index inTile
      have isSome := contents_isSome planned ready aligned nInside starts inTile
      rw [← Nat.add_assoc, Nat.add_assoc _ (details.tileStart nIndex),
        show details.dst.address + details.dst.offset = details.base from rfl,
        sofar.inside _ (tileStart_inside planned aligned nInside inTile)]
      obtain ⟨value, isValue⟩ := Option.isSome_iff_exists.mp isSome
      simp only [isValue, Option.getD_some]
    obtain ⟨read, isRead, readIs⟩ := holds.readRegion tileFits
    refine ⟨unpackMatrix .l0c details.tileShape accumulatorBytes (read 0), ?_, ?_⟩
    · simp only [previousValues, Bool.false_eq_true, if_false, GemmDetails.tileRegion, isRead]
      rfl
    · intro row rowInside col colInside
      rw [unpackMatrix, readIs _ (elementOffset_lt .l0c valid_accumulatorBytes rowInside colInside)]
      exact contents_unpacked planned aligned kInside starts rowInside colInside

theorem partial_of_written (aligned : details.nTile % 16 = 0)
    (nInside : nIndex < details.nL0Split) (kInside : kIndex < details.kSplit)
    (sofar : Partial details memory (nIndex * details.kSplit + kIndex) now)
    {result : Nat → Nat → Int}
    (resultIs :
      ∀ row < details.rows,
        ∀ col < details.nTile,
          result row col =
            details.productUpTo memory (kIndex * details.kL0Size + details.kSize kIndex) row
              (nIndex * details.nTile + col)) :
    ∀ next : CubeMemory, next.l1 = now.l1 →
      next.l0c =
        written now.l0c (details.base + details.tileStart nIndex)
          (storageElements .l0c details.tileShape accumulatorBytes)
          (packMatrix .l0c details.tileShape accumulatorBytes result) →
      Partial details memory (nIndex * details.kSplit + kIndex + 1) next := by
  intro next sameL1 l0cIs
  refine ⟨sameL1.trans sofar.l1, ?_, ?_⟩
  · intro index indexInside
    rw [l0cIs]
    by_cases sameTile : l0cCol details.shapeC index / details.nTile = nIndex
    · obtain ⟨inner, inTile, indexIs⟩ := exists_of_tile planned aligned index
      rw [sameTile] at indexIs
      have inColumns := (lt_tileElements planned aligned inner).mp inTile
      have colIs := @l0cCol_tileStart details nIndex planned aligned inner
      have rowIs := @l0cRow_tileStart details nIndex aligned inner
      have firstIs := @firstStep_of_tile details nIndex _ inColumns
      rw [indexIs, ← Nat.add_assoc, written_holdsAt _ _ _ inner inTile,
        packMatrix_l0c valid_accumulatorBytes, contents_of_started (by rw [colIs]; omega), rowIs,
        colIs, Nat.add_assoc (nIndex * details.kSplit), accumulatedInner_of_tile inColumns,
        kSize_next planned kInside]
      by_cases rowInside : l0cRow details.tileShape inner < details.rows
      · rw [if_pos ⟨rowInside, inColumns⟩, if_pos rowInside, resultIs _ rowInside _ inColumns]
      · rw [if_neg (fun both => rowInside both.1), if_neg rowInside]
    · rw [contents_of_other_tile planned kInside sameTile, ← sofar.inside index indexInside]
      refine written_outside ?_
      rintro ⟨above, below⟩
      obtain ⟨inner, rfl⟩ : ∃ inner, index = details.tileStart nIndex + inner :=
        ⟨index - details.tileStart nIndex, by omega⟩
      have inColumns := (lt_tileElements planned aligned inner).mp (by omega)
      rw [l0cCol_tileStart planned aligned, tile_of_col inColumns] at sameTile
      exact sameTile rfl
  · intro cell isOutside
    rw [l0cIs, ← sofar.outside cell isOutside]
    refine written_outside ?_
    rintro ⟨above, below⟩
    have cellInside := @tileStart_inside details nIndex planned aligned nInside
      (cell - (details.base + details.tileStart nIndex)) (by omega)
    omega

theorem tile_fits (ready : Ready details memory) (aligned : details.nTile % 16 = 0)
    (nInside : nIndex < details.nL0Split) :
    details.dst.offset + details.tileStart nIndex +
        storageElements .l0c details.tileShape accumulatorBytes ≤ details.dst.size := by
  have someElements : 0 < storageElements .l0c details.tileShape accumulatorBytes :=
    storageElements_pos .l0c valid_accumulatorBytes planned.someRows planned.someTile
  have lastInside := @tileStart_inside details nIndex planned aligned nInside
    (storageElements .l0c details.tileShape accumulatorBytes - 1) (by omega)
  have dstFits := ready.dstFits
  omega

end

theorem foldlM_three {first second third : GemmTask} {one two three : CubeMemory}
    (executesFirst : executeTask now first = .ok one)
    (executesSecond : executeTask one second = .ok two)
    (executesThird : executeTask two third = .ok three) :
    [first, second, third].foldlM executeTask now = .ok three := by
  simp only [List.foldlM_cons, List.foldlM_nil, executesFirst, executesSecond, executesThird,
    bind, Except.bind]
  rfl

/-- The tasks of a step add its product to the accumulator. -/
theorem stepTasks_run (planned : Planned details) (ready : Ready details memory)
    (aligned : details.nTile % 16 = 0) (inside : step < details.stepCount)
    (sofar : Partial details memory step now) :
    ∃ tasks,
      details.stepTasks step = .ok tasks ∧
        ∃ next,
          tasks.foldlM executeTask now = .ok next ∧ Partial details memory (step + 1) next := by
  obtain ⟨nIndex, nIs⟩ : ∃ nIndex, nIndex = step / details.kSplit := ⟨_, rfl⟩
  obtain ⟨kIndex, kIs⟩ : ∃ kIndex, kIndex = step % details.kSplit := ⟨_, rfl⟩
  obtain ⟨nInside, kInside⟩ := step_split planned inside
  rw [← nIs] at nInside
  rw [← kIs] at kInside
  have stepIs : step = nIndex * details.kSplit + kIndex := by
    rw [nIs, kIs, Nat.mul_comm]
    exact (Nat.div_add_mod _ _).symm
  obtain ⟨loadA, left, emittedA, executesA, leftIs⟩ :=
    @loadA_executes details memory now kIndex (step % 2) planned ready sofar.l1 kInside
  obtain ⟨loadB, right, emittedB, executesB, rightIs⟩ :=
    @loadB_executes details memory
      (now.withTile .l0a (step % 2 * l0SlotBytes) ⟨details.rows, details.kSize kIndex⟩ left)
      nIndex kIndex (step % 2) planned ready sofar.l1 nInside kInside
  refine ⟨[loadA, loadB, details.mma nIndex kIndex (step % 2)], ?_, ?_⟩
  · simp only [GemmDetails.stepTasks, ← nIs, ← kIs, emittedA, emittedB]
    rfl
  rw [stepIs] at sofar
  have tileFits := tile_fits planned ready aligned nInside
  obtain ⟨previous, previousRead, previousIs⟩ := previousValues_of_partial planned ready aligned
    nInside kInside tileFits sofar
  have executesMma := @mma_executes details
    ((now.withTile .l0a (step % 2 * l0SlotBytes) ⟨details.rows, details.kSize kIndex⟩
      left).withTile .l0b (step % 2 * l0SlotBytes) ⟨details.kSize kIndex, details.nTile⟩ right)
    nIndex kIndex (step % 2) left right previous planned kInside tileFits
    (written_holdsAt _ _ _) (written_holdsAt _ _ _) previousRead
  refine ⟨_, foldlM_three executesA executesB executesMma, ?_⟩
  rw [stepIs]
  refine partial_of_written planned aligned nInside kInside sofar ?_ _ rfl rfl
  intro row rowInside col colInside
  rw [productUpTo_add, previousIs row rowInside col colInside]
  congr 1
  refine sumBelow_congr ?_
  intro k inStep
  rw [leftIs row rowInside k inStep, rightIs k inStep col colInside]

/-- After any number of steps the accumulator holds the partial product. -/
theorem tasksBefore_run (planned : Planned details) (ready : Ready details memory)
    (aligned : details.nTile % 16 = 0) (inside : step ≤ details.stepCount) :
    ∃ tasks,
      details.tasksBefore step = .ok tasks ∧
        ∃ now, tasks.foldlM executeTask memory = .ok now ∧ Partial details memory step now := by
  induction step with
  | zero => exact ⟨[], rfl, memory, rfl, partial_zero⟩
  | succ step ih =>
    obtain ⟨earlier, emitted, now, executed, sofar⟩ := ih (by omega)
    obtain ⟨current, emittedNow, next, executedNow, after⟩ :=
      stepTasks_run planned ready aligned (by omega) sofar
    refine ⟨earlier ++ current, ?_, next, ?_, after⟩
    · simp only [GemmDetails.tasksBefore, emitted, emittedNow]
      rfl
    · rw [List.foldlM_append, executed]
      exact executedNow

theorem contents_last (planned : Planned details) (aligned : details.nTile % 16 = 0)
    (indexInside : index < details.accumulatorElements) :
    details.contents memory details.stepCount index =
      some (packMatrix .l0c details.shapeC accumulatorBytes
        (details.productUpTo memory details.inner) index) := by
  have colInside := (lt_accumulatorElements planned aligned index).mp indexInside
  have tileInside : l0cCol details.shapeC index / details.nTile < details.nL0Split := by
    refine Nat.div_lt_of_lt_mul ?_
    rw [← planned.colsAre]
    exact colInside
  have complete : details.firstStep (l0cCol details.shapeC index) + details.kSplit ≤
      details.stepCount := by
    rw [planned.stepsAre, GemmDetails.firstStep, ← Nat.succ_mul, Nat.mul_comm details.kSplit]
    exact Nat.mul_le_mul_right _ tileInside
  have someSteps := kSplit_pos planned
  rw [contents_of_started (by omega), accumulatedInner_complete planned complete,
    packMatrix_l0c valid_accumulatorBytes]
  by_cases rowInside : l0cRow details.shapeC index < details.rows
  · rw [if_pos rowInside, if_pos ⟨rowInside, colInside⟩]
  · rw [if_neg rowInside, if_neg fun both => rowInside both.1]

/-- After all steps the accumulator holds the packed product. -/
theorem l0c_of_partial (planned : Planned details) (aligned : details.nTile % 16 = 0)
    (final : Partial details memory details.stepCount now) :
    now.l0c =
      written memory.l0c details.base details.accumulatorElements
        (packMatrix .l0c details.shapeC accumulatorBytes
          (details.productUpTo memory details.inner)) := by
  funext cell
  by_cases isInside :
      details.base ≤ cell ∧ cell < details.base + details.accumulatorElements
  · obtain ⟨index, rfl⟩ : ∃ index, cell = details.base + index := ⟨cell - details.base, by omega⟩
    rw [final.inside index (by omega), contents_last planned aligned (by omega),
      written_holdsAt _ _ _ index (by omega)]
  · rw [final.outside cell isInside, written_outside isInside]

end Accumulation

/-! ## The whole expansion -/

section Expansion

variable {details : GemmDetails} {memory : CubeMemory} {step : Nat} {tasks : List GemmTask}

theorem validateRuntimeContracts_stepTasks (planned : Planned details)
    (emitted : details.stepTasks step = .ok tasks) :
    validateRuntimeContracts tasks = decide (details.nTile % 16 = 0) := by
  have someTile := planned.someTile
  obtain ⟨loadA, emittedA, emitted⟩ := exceptBind_eq_ok.mp emitted
  obtain ⟨loadB, emittedB, emitted⟩ := exceptBind_eq_ok.mp emitted
  obtain ⟨_, _, isLoadA⟩ := exceptBind_eq_ok.mp emittedA
  obtain ⟨_, _, isLoadB⟩ := exceptBind_eq_ok.mp emittedB
  rw [← Except.ok.inj emitted, ← Except.ok.inj isLoadA, ← Except.ok.inj isLoadB]
  simp [validateRuntimeContracts, GemmDetails.mma, planned.sizeIs, someTile]

theorem validateRuntimeContracts_tasksBefore (planned : Planned details)
    (someStep : 0 < step) (emitted : details.tasksBefore step = .ok tasks) :
    validateRuntimeContracts tasks = decide (details.nTile % 16 = 0) := by
  induction step generalizing tasks with
  | zero => omega
  | succ step ih =>
    obtain ⟨earlier, emittedEarlier, emitted⟩ := exceptBind_eq_ok.mp emitted
    obtain ⟨current, emittedCurrent, emitted⟩ := exceptBind_eq_ok.mp emitted
    have currentValid := validateRuntimeContracts_stepTasks planned emittedCurrent
    rw [← Except.ok.inj emitted]
    unfold validateRuntimeContracts at currentValid ih ⊢
    rw [List.all_append, currentValid]
    by_cases isFirst : step = 0
    · subst isFirst
      rw [← Except.ok.inj emittedEarlier]
      rfl
    · rw [ih (by omega) emittedEarlier, Bool.and_self]

theorem tasksBefore_emitted (planned : Planned details) (ready : Ready details memory)
    (inside : step ≤ details.stepCount) : ∃ tasks, details.tasksBefore step = .ok tasks := by
  induction step with
  | zero => exact ⟨[], rfl⟩
  | succ step ih =>
    obtain ⟨earlier, emitted⟩ := ih (by omega)
    have split := step_split planned inside
    obtain ⟨loadA, _, emittedA, _⟩ :=
      @loadA_executes details memory memory _ (step % 2) planned ready rfl split.2
    obtain ⟨loadB, _, emittedB, _⟩ :=
      @loadB_executes details memory memory _ _ (step % 2) planned ready rfl split.1 split.2
    refine ⟨earlier ++ [loadA, loadB, details.mma (step / details.kSplit)
      (step % details.kSplit) (step % 2)], ?_⟩
    simp only [GemmDetails.tasksBefore, GemmDetails.stepTasks, emitted, emittedA, emittedB]
    rfl

theorem stepCount_pos (planned : Planned details) : 0 < details.stepCount := by
  rw [planned.stepsAre]
  refine Nat.mul_pos (kSplit_pos planned) ?_
  have someCols := planned.someCols
  rw [planned.colsAre] at someCols
  exact Nat.pos_of_mul_pos_left someCols

theorem accumulated_of_written {now : CubeMemory}
    (l0cIs :
      now.l0c =
        written memory.l0c details.base details.accumulatorElements
          (packMatrix .l0c details.shapeC accumulatorBytes
            (details.productUpTo memory details.inner)))
    {row col : Nat}
    (rowInside : row < details.rows)
    (colInside : col < details.cols) :
    details.accumulated now row col = details.productUpTo memory details.inner row col := by
  have inStorage : elementOffset .l0c details.shapeC accumulatorBytes row col <
      details.accumulatorElements :=
    elementOffset_lt .l0c valid_accumulatorBytes rowInside colInside
  rw [GemmDetails.accumulated, unpackMatrix, l0cIs, written_holdsAt _ _ _ _ inStorage,
    packMatrix_offset valid_accumulatorBytes rowInside colInside]
  rfl

section

variable (planned : Planned details) (ready : Ready details memory)
include planned ready

/-- A width that is no multiple of sixteen is refused. -/
theorem executeExpansion_misaligned (misaligned : details.nTile % 16 ≠ 0) :
    executeExpansion details memory = .error .badActualColumns := by
  obtain ⟨tasks, emitted⟩ := tasksBefore_emitted planned ready (Nat.le_refl _)
  have validated := validateRuntimeContracts_tasksBefore planned (stepCount_pos planned) emitted
  rw [decide_eq_false misaligned] at validated
  simp only [executeExpansion, GemmDetails.emitGemmV0TraceTasks, emitted, bind, Except.bind,
    validated]
  rfl

/-- Slots that do not fit are refused. -/
theorem executeExpansion_tooLarge (aligned : details.nTile % 16 = 0)
    (tooLarge : details.slotsFit = false) :
    executeExpansion details memory = .error .capacityExceeded := by
  obtain ⟨tasks, emitted⟩ := tasksBefore_emitted planned ready (Nat.le_refl _)
  have validated := validateRuntimeContracts_tasksBefore planned (stepCount_pos planned) emitted
  rw [decide_eq_true aligned] at validated
  simp only [executeExpansion, GemmDetails.emitGemmV0TraceTasks, emitted, bind, Except.bind,
    validated, tooLarge]
  rfl

/-- Otherwise the expansion runs to its end. -/
theorem executeExpansion_aligned (aligned : details.nTile % 16 = 0)
    (fits : details.slotsFit = true) :
    ∃ final,
      executeExpansion details memory = .ok final ∧
        Partial details memory details.stepCount final := by
  obtain ⟨tasks, emitted, final, executed, finished⟩ :=
    tasksBefore_run planned ready aligned (Nat.le_refl _)
  have validated := validateRuntimeContracts_tasksBefore planned (stepCount_pos planned) emitted
  rw [decide_eq_true aligned] at validated
  refine ⟨final, ?_, finished⟩
  simp only [executeExpansion, GemmDetails.emitGemmV0TraceTasks, emitted, bind, Except.bind,
    validated, fits]
  exact executed

end

/--
The expansion of an accepted call runs exactly if its column tiles are whole blocks of 16 and its
padded slots fit, and then it leaves the L0C of the single task: the product, added to the
previous accumulator unless the call starts afresh.
-/
theorem executeExpansion_of_gemmV0
    {template : GemmTemplate}
    {lhs rhs dst : Operand}
    {direct : CubeMemory}
    (accepted : gemmV0Metadata template lhs rhs dst = .ok details)
    (single : gemmV0 details memory = .ok direct) :
    (details.nTile % 16 ≠ 0 → executeExpansion details memory = .error .badActualColumns) ∧
      (details.nTile % 16 = 0 →
        details.slotsFit = false → executeExpansion details memory = .error .capacityExceeded) ∧
      (details.nTile % 16 = 0 →
        details.slotsFit = true →
          ∃ final,
            executeExpansion details memory = .ok final ∧ final.l0c = direct.l0c ∧
              ∀ row < details.rows,
                ∀ col < details.cols,
                  details.accumulated final row col =
                    (if details.init then 0 else details.accumulated memory row col) +
                      sumBelow details.inner fun k =>
                        details.lhsValue memory row k * details.rhsValue memory k col) := by
  have planned := planned_of_accepted accepted
  obtain ⟨ready, directIs⟩ :=
    gemmV0_eq_ok planned.someRows planned.someCols planned.someInner single
  refine ⟨executeExpansion_misaligned planned ready, executeExpansion_tooLarge planned ready, ?_⟩
  intro aligned fits
  obtain ⟨final, executed, finished⟩ := executeExpansion_aligned planned ready aligned fits
  have l0cIs := l0c_of_partial planned aligned finished
  refine ⟨final, executed, ?_, ?_⟩
  · rw [l0cIs, directIs]
  · intro row rowInside col colInside
    exact accumulated_of_written l0cIs rowInside colInside

/-- A memory whose cells all hold one. -/
def onesMemory : CubeMemory where
  l1 := fun _ => some 1
  l0a := fun _ => none
  l0b := fun _ => none
  l0c := fun _ => some 1

/-- A call with a given number of columns whose inner dimension ends in a partial step. -/
def tailTemplate (cols : Nat) : GemmTemplate where
  rows := 2
  cols := cols
  inner := 20
  kL0Size := 16
  transposeA := false
  transposeB := true
  init := false

/-- A buffer at the start of its memory. -/
def wholeBuffer : Operand where
  address := 0
  size := 4096
  offset := 0

/-- The accepted call. -/
def tailDetails (cols : Nat) : GemmDetails :=
  { tailTemplate cols with
    nTile := cols
    nL0Split := 1
    stepCount := 2
    lhs := wholeBuffer
    rhs := wholeBuffer
    dst := wholeBuffer }

theorem exists_of_isOk {result : Except CubeError CubeMemory}
    (isOk : result.isOk = true) : ∃ value, result = .ok value := by
  cases result with
  | error _ =>
    cases isOk
  | ok value => exact ⟨value, rfl⟩

/-- With 16 columns two steps add the product of twenty ones to the accumulator. -/
theorem tailDetails_sixteen :
    ∃ direct,
      gemmV0Metadata (tailTemplate 16) wholeBuffer wholeBuffer wholeBuffer = .ok (tailDetails 16) ∧
        gemmV0 (tailDetails 16) onesMemory = .ok direct ∧
        ∃ final,
          executeExpansion (tailDetails 16) onesMemory = .ok final ∧ final.l0c = direct.l0c ∧
            (tailDetails 16).accumulated final 1 3 = 21 := by
  have accepted : gemmV0Metadata (tailTemplate 16) wholeBuffer wholeBuffer wholeBuffer =
      .ok (tailDetails 16) := by
    decide +kernel
  obtain ⟨direct, single⟩ :=
    @exists_of_isOk (gemmV0 (tailDetails 16) onesMemory) (by decide +kernel)
  obtain ⟨final, executed, same, values⟩ :=
    (executeExpansion_of_gemmV0 accepted single).2.2 (by decide) (by decide +kernel)
  refine ⟨direct, accepted, single, final, executed, same, ?_⟩
  rw [values 1 (by decide) 3 (by decide)]
  decide +kernel

/-- With 20 columns the single task runs and the expansion is refused. -/
theorem tailDetails_twenty :
    ∃ direct,
      gemmV0Metadata (tailTemplate 20) wholeBuffer wholeBuffer wholeBuffer = .ok (tailDetails 20) ∧
        gemmV0 (tailDetails 20) onesMemory = .ok direct ∧
        executeExpansion (tailDetails 20) onesMemory = .error .badActualColumns := by
  have accepted : gemmV0Metadata (tailTemplate 20) wholeBuffer wholeBuffer wholeBuffer =
      .ok (tailDetails 20) := by
    decide +kernel
  have planned := planned_of_accepted accepted
  obtain ⟨direct, single⟩ :=
    @exists_of_isOk (gemmV0 (tailDetails 20) onesMemory) (by decide +kernel)
  obtain ⟨ready, _⟩ := gemmV0_eq_ok planned.someRows planned.someCols planned.someInner single
  exact ⟨direct, accepted, single, executeExpansion_misaligned planned ready (by decide)⟩

end Expansion

end TilelangAscend.Simulator.Cube
