import TilelangAscend.ExceptRules
import TilelangAscend.MatrixLayout
import TilelangAscend.RuntimeInt

namespace TilelangAscend.Simulator.Footprint

open ExceptRules (exceptBind_eq_ok exceptGuard_eq_ok)

/-!
# Footprints of matrix products

The operands of `mma` and of the steps of `gemm_v0` lie in L0B and L0C as padded layouts.  When
the number of columns is known only at run time, the bridge scales it by the other extent rounded
up to 16, where the layout of L0B rounds that extent up to the elements of 32 bytes.  The two
agree for two-byte elements, and otherwise for inner extents that both roundings pad alike.
-/

/-- The types of `_ascend_template_dtype`. -/
inductive TemplateDtype where
  | float16
  | float32
  | bfloat16
  | int8
  | int16
  | int32
  | int64
  | uint8
  | uint16
  | uint32
  | uint64
  deriving Repr, DecidableEq

/-- `dtype_size_bytes`. -/
def TemplateDtype.sizeBytes : TemplateDtype → Nat
  | .int8 | .uint8 => 1
  | .float16 | .bfloat16 | .int16 | .uint16 => 2
  | .float32 | .int32 | .uint32 => 4
  | .int64 | .uint64 => 8

/-- Why the bridge refuses a product. -/
inductive FootprintError where
  /-- M/N/K extents must be positive -/
  | emptyExtent
  /-- kL0Size must be a multiple of 16 and at most 4095 -/
  | badKL0Size
  /-- n_actual must be in [1, N] -/
  | actualOutOfRange
  /-- n_actual must be a multiple of 16 -/
  | actualUnaligned
  /-- partial n_actual only with transpose_B -/
  | partialWithoutTranspose
  /-- unitFlag 0, 0b10, or 0b11 -/
  | badUnitFlag
  /-- unsupported operand types -/
  | unsupportedDtypes
  /-- gemm_v0 N tiling does not evenly divide the output columns -/
  | unevenTiling
  /-- gemm_v0 B tile exceeds its L0B slot -/
  | rhsTileTooLarge
  /-- gemm_v0 A tile exceeds its L0A slot -/
  | lhsTileTooLarge
  deriving Repr, DecidableEq

/-- The check of a column count that is known when the program is built. -/
def checkActual (actualCols : RuntimeInt) (cols : Nat) : Except FootprintError Unit :=
  match actualCols with
  | .int actual =>
    if actual ≤ 0 ∨ cols < actual then
      .error .actualOutOfRange
    else if actual % 16 ≠ 0 then
      .error .actualUnaligned
    else
      .ok ()
  | _ => .ok ()

/-- The elements for a number of columns: stored as given, or scaled at run time. -/
def elementsFor
    (stored : Nat → Nat)
    (padded : Nat) :
    RuntimeInt → RuntimeInt
  | .int count => .int (stored count.toNat)
  | runtime => scaleRuntimeInt runtime padded

/-- The L0B footprint of a right operand. -/
def rhsElements (inner : Nat) (cols : RuntimeInt) (itemsize : Nat) : RuntimeInt :=
  elementsFor (fun count => storageElements .nZ ⟨inner, count⟩ itemsize)
    ((inner + 15) / 16 * 16) cols

/-- The L0C footprint of a destination. -/
def dstElements (rows : Nat) (cols : RuntimeInt) (itemsize : Nat) : RuntimeInt :=
  elementsFor (fun count => storageElements .l0c ⟨rows, count⟩ itemsize)
    ((rows + 15) / 16 * 16) cols

/-! ## `mma` -/

/-- The template parameters and the inner extent of an `mma`. -/
structure MmaTemplate where
  input : TemplateDtype
  accumulator : TemplateDtype
  rows : Nat
  cols : Nat
  inner : Nat
  deriving Repr, DecidableEq

/-- The operand types of an `mma`. -/
def MmaTemplate.Supported (template : MmaTemplate) : Prop :=
  (template.input, template.accumulator) ∈
    [(TemplateDtype.float16, TemplateDtype.float32), (.bfloat16, .float32), (.float32, .float32),
      (.int8, .int32)]

instance (template : MmaTemplate) : Decidable template.Supported :=
  inferInstanceAs (Decidable (_ ∈ _))

/-- The extents of the operands of an `mma` in elements. -/
structure MmaFootprint where
  actualCols : RuntimeInt
  unitFlag : Int
  aElements : Nat
  bCapacityElements : Nat
  cCapacityElements : Nat
  bElements : RuntimeInt
  cElements : RuntimeInt

/-- The checks of the optional arguments `n_actual` and `unitFlag`. -/
def checkOptional (optional : Option (RuntimeInt × Int)) (cols : Nat) :
    Except FootprintError Unit :=
  match optional with
  | none => .ok ()
  | some (actualCols, unitFlag) => do
      checkActual actualCols cols
      if unitFlag ∉ [0, 2, 3] then
        throw .badUnitFlag

/-- `_mma_metadata` up to the look-up of the operands. -/
def mmaMetadata
    (template : MmaTemplate)
    (optional : Option (RuntimeInt × Int)) :
    Except FootprintError MmaFootprint := do
  if template.rows = 0 ∨ template.cols = 0 ∨ template.inner = 0 then
    throw .emptyExtent
  checkOptional optional template.cols
  if ¬ template.Supported then
    throw .unsupportedDtypes
  let actualCols := (optional.map Prod.fst).getD (.int template.cols)
  let inputBytes := template.input.sizeBytes
  let accumulatorBytes := template.accumulator.sizeBytes
  return {
    actualCols := actualCols
    unitFlag := (optional.map Prod.snd).getD 0
    aElements := storageElements .zZ ⟨template.rows, template.inner⟩ inputBytes
    bCapacityElements := storageElements .nZ ⟨template.inner, template.cols⟩ inputBytes
    cCapacityElements := storageElements .l0c ⟨template.rows, template.cols⟩ accumulatorBytes
    bElements := rhsElements template.inner actualCols inputBytes
    cElements := dstElements template.rows actualCols accumulatorBytes }

/-! ## `gemm_v0` -/

/-- The template parameters and the column count of a `gemm_v0`. -/
structure GemmCall where
  input : TemplateDtype
  accumulator : TemplateDtype
  rows : Nat
  cols : Nat
  inner : Nat
  transposeA : Bool
  transposeB : Bool
  kL0Size : Nat
  nActual : Option RuntimeInt

namespace GemmCall

/-- The operand types of a `gemm_v0`. -/
def Supported (call : GemmCall) : Prop :=
  (call.input, call.accumulator) ∈
    [(TemplateDtype.float16, TemplateDtype.float32), (.bfloat16, .float32), (.int8, .int32)]

instance (call : GemmCall) : Decidable call.Supported :=
  inferInstanceAs (Decidable (_ ∈ _))

/-- The columns that are computed. -/
def actualCols (call : GemmCall) : RuntimeInt :=
  call.nActual.getD (.int call.cols)

/-- The columns are all columns of the output. -/
def allColumns (call : GemmCall) : Bool :=
  match call.actualCols with
  | .int actual => actual == call.cols
  | _ => false

/-- The columns of one tile. -/
def nTile (call : GemmCall) : Nat :=
  let maxNByL0B := 32 * 1024 / (call.kL0Size * call.input.sizeBytes)
  if call.transposeB ∨ call.cols ≤ maxNByL0B then call.cols else maxNByL0B

/-- The steps along the inner dimension. -/
def kSplit (call : GemmCall) : Nat :=
  (call.inner + call.kL0Size - 1) / call.kL0Size

/-- All steps. -/
def stepCount (call : GemmCall) : Nat :=
  call.kSplit * (call.cols / call.nTile)

/-- The checks of `n_actual`. -/
def checkColumns (call : GemmCall) : Except FootprintError Unit :=
  match call.nActual with
  | none => .ok ()
  | some actualCols => do
      checkActual actualCols call.cols
      if call.transposeB = false ∧ call.allColumns = false then
        throw .partialWithoutTranspose

/-- `_gemm_v0_metadata`: the checks before the operands are looked up. -/
def metadata (call : GemmCall) : Except FootprintError Unit := do
  if call.rows = 0 ∨ call.cols = 0 ∨ call.inner = 0 ∨ call.kL0Size = 0 then
    throw .emptyExtent
  if call.kL0Size % 16 ≠ 0 ∨ 4095 < call.kL0Size then
    throw .badKL0Size
  call.checkColumns
  if ¬ call.Supported then
    throw .unsupportedDtypes
  if call.nTile = 0 ∨ call.cols % call.nTile ≠ 0 then
    throw .unevenTiling
  let slotBudget := 64 * 1024 / (if 1 < call.stepCount then 2 else 1)
  if slotBudget < call.nTile * call.kL0Size * call.input.sizeBytes then
    throw .rhsTileTooLarge
  if slotBudget < call.rows * call.kL0Size * call.input.sizeBytes then
    throw .lhsTileTooLarge

/-- The inner extent of a step. -/
def kSize (call : GemmCall) (step : Nat) : Nat :=
  min call.kL0Size (call.inner - step % call.kSplit * call.kL0Size)

/-- The columns of a step. -/
def nSize (call : GemmCall) : RuntimeInt :=
  if call.transposeB then call.actualCols else .int call.nTile

/-- The L0B region of a step of `_emit_gemm_v0_trace_tasks` in elements. -/
def l0bElements (call : GemmCall) (step : Nat) : RuntimeInt :=
  rhsElements (call.kSize step) call.nSize call.input.sizeBytes

/-- The L0C region of a step of `_emit_gemm_v0_trace_tasks` in elements. -/
def l0cElements (call : GemmCall) : RuntimeInt :=
  dstElements call.rows call.nSize call.accumulator.sizeBytes

end GemmCall

/-! ## Agreement -/

/-- The inner extent is padded alike by 16 and by the elements of 32 bytes. -/
def PaddedAlike (itemsize inner : Nat) : Prop :=
  (itemsize = 1 → inner % 32 = 0 ∨ 16 < inner % 32) ∧
    (itemsize = 4 → inner % 16 = 0 ∨ 8 < inner % 16)

instance (itemsize inner : Nat) : Decidable (PaddedAlike itemsize inner) :=
  inferInstanceAs (Decidable (_ ∧ _))

/-- Footprints in L0B and L0C evaluate to what the layouts store for a number of columns. -/
structure StoresColumns
    (bindings : String → Option Int)
    (count rows inner inputBytes accumulatorBytes : Nat)
    (bElements cElements : RuntimeInt) :
    Prop where
  inL0B : bElements.evaluate bindings = some (storageElements .nZ ⟨inner, count⟩ inputBytes : Int)
  inL0C : cElements.evaluate bindings =
    some (storageElements .l0c ⟨rows, count⟩ accumulatorBytes : Int)

theorem roundUp_eq_iff {itemsize : Nat}
    (width : itemsize = 1 ∨ itemsize = 2 ∨ itemsize = 4) (inner : Nat) :
    (inner + 15) / 16 * 16 = roundUp inner (elementsPerC0 itemsize) ↔
      PaddedAlike itemsize inner := by
  rcases width with rfl | rfl | rfl
  · simp only [roundUp, ceilDiv, elementsPerC0, PaddedAlike, Nat.div_one, true_implies,
      Nat.reduceEqDiff, false_implies, and_true]
    omega
  · refine ⟨fun _ => ⟨fun one => ?_, fun four => ?_⟩, fun _ => rfl⟩
    · cases one
    · cases four
  · simp only [roundUp, ceilDiv, elementsPerC0, PaddedAlike, Nat.reduceDiv, true_implies,
      Nat.reduceEqDiff, false_implies, true_and]
    omega

section Columns

variable {cols : RuntimeInt} {bindings : String → Option Int} {count : Nat}

section

variable (runtime : ¬ cols.IsStatic) (evaluates : cols.evaluate bindings = some (count : Int))
include runtime evaluates

theorem evaluate_elementsFor (stored : Nat → Nat) (padded : Nat) :
    (elementsFor stored padded cols).evaluate bindings = some ((count * padded : Nat) : Int) := by
  have scaled : elementsFor stored padded cols = scaleRuntimeInt cols padded := by
    cases cols with
    | int value => exact absurd trivial runtime
    | affine expression => rfl
    | binary operation left right => rfl
    | not argument => rfl
    | select condition left right => rfl
  rw [scaled, evaluate_scaleRuntimeInt evaluates, Nat.cast_mul]

theorem evaluate_dstElements (whole : 16 ∣ count) (rows itemsize : Nat) :
    (dstElements rows cols itemsize).evaluate bindings =
      some (storageElements .l0c ⟨rows, count⟩ itemsize : Int) := by
  rw [dstElements, evaluate_elementsFor runtime evaluates]
  simp only [storageElements, roundUp_of_dvd (by decide : 0 < 16) whole]
  rw [Nat.mul_comm]
  rfl

theorem storesColumns_iff {inputBytes : Nat} (whole : 16 ∣ count)
    (width : inputBytes = 1 ∨ inputBytes = 2 ∨ inputBytes = 4)
    (rows inner accumulatorBytes : Nat) :
    StoresColumns bindings count rows inner inputBytes accumulatorBytes
        (rhsElements inner cols inputBytes) (dstElements rows cols accumulatorBytes) ↔
      count = 0 ∨ PaddedAlike inputBytes inner := by
  have inL0C := evaluate_dstElements runtime evaluates whole rows accumulatorBytes
  have inL0B : (rhsElements inner cols inputBytes).evaluate bindings =
        some (storageElements .nZ ⟨inner, count⟩ inputBytes : Int) ↔
      count = 0 ∨ PaddedAlike inputBytes inner := by
    rw [rhsElements, evaluate_elementsFor runtime evaluates, Option.some.injEq, Nat.cast_inj,
      Nat.mul_comm, ← roundUp_eq_iff width]
    simp only [storageElements, roundUp_of_dvd (by decide : 0 < 16) whole]
    rw [mul_eq_mul_right_iff, or_comm]
  exact ⟨fun stores => inL0B.mp stores.inL0B, fun alike => ⟨inL0B.mpr alike, inL0C⟩⟩

end

end Columns

theorem MmaTemplate.Supported.width {template : MmaTemplate} (supported : template.Supported) :
    template.input.sizeBytes = 1 ∨ template.input.sizeBytes = 2 ∨ template.input.sizeBytes = 4 := by
  simp only [Supported, List.mem_cons, Prod.mk.injEq, List.not_mem_nil, or_false] at supported
  rcases supported with ⟨input, _⟩ | ⟨input, _⟩ | ⟨input, _⟩ | ⟨input, _⟩
  · exact .inr (.inl (by rw [input]; rfl))
  · exact .inr (.inl (by rw [input]; rfl))
  · exact .inr (.inr (by rw [input]; rfl))
  · exact .inl (by rw [input]; rfl)

theorem GemmCall.Supported.width {call : GemmCall} (supported : call.Supported) :
    call.input.sizeBytes = 1 ∨ call.input.sizeBytes = 2 ∨ call.input.sizeBytes = 4 := by
  simp only [Supported, List.mem_cons, Prod.mk.injEq, List.not_mem_nil, or_false] at supported
  rcases supported with ⟨input, _⟩ | ⟨input, _⟩ | ⟨input, _⟩
  · exact .inr (.inl (by rw [input]; rfl))
  · exact .inr (.inl (by rw [input]; rfl))
  · exact .inl (by rw [input]; rfl)

theorem mmaMetadata_eq_ok {template : MmaTemplate} {optional : Option (RuntimeInt × Int)}
    {footprint : MmaFootprint} (accepted : mmaMetadata template optional = .ok footprint) :
    template.Supported ∧
      footprint.bElements =
        rhsElements template.inner footprint.actualCols template.input.sizeBytes ∧
      footprint.cElements =
        dstElements template.rows footprint.actualCols template.accumulator.sizeBytes := by
  obtain ⟨_, passed⟩ := exceptGuard_eq_ok.mp accepted
  obtain ⟨_, _, columns⟩ := exceptBind_eq_ok.mp passed
  obtain ⟨supported, recorded⟩ := exceptGuard_eq_ok.mp columns
  obtain rfl := Except.ok.inj recorded
  exact ⟨not_not.mp supported, rfl, rfl⟩

theorem GemmCall.supported_of_metadata {call : GemmCall}
    (accepted : call.metadata = .ok ()) : call.Supported := by
  obtain ⟨_, passed⟩ := exceptGuard_eq_ok.mp accepted
  obtain ⟨_, sized⟩ := exceptGuard_eq_ok.mp passed
  obtain ⟨_, _, columns⟩ := exceptBind_eq_ok.mp sized
  exact not_not.mp (exceptGuard_eq_ok.mp columns).1

/--
For a whole number of fractals of columns that is known at run time only, the L0B and L0C
footprints evaluate to those of the layouts exactly if the inner extent is padded alike.
-/
theorem runtimeFootprint_iff
    {bindings : String → Option Int}
    {count : Nat}
    (whole : 16 ∣ count) :
    (∀ template optional footprint, mmaMetadata template optional = .ok footprint →
      ¬ footprint.actualCols.IsStatic →
      footprint.actualCols.evaluate bindings = some (count : Int) →
      (StoresColumns bindings count template.rows template.inner template.input.sizeBytes
          template.accumulator.sizeBytes footprint.bElements footprint.cElements ↔
        count = 0 ∨ PaddedAlike template.input.sizeBytes template.inner)) ∧
    ∀ call : GemmCall, call.metadata = .ok () → ¬ call.nSize.IsStatic →
      call.nSize.evaluate bindings = some (count : Int) →
      ∀ step < call.stepCount,
        (StoresColumns bindings count call.rows (call.kSize step) call.input.sizeBytes
            call.accumulator.sizeBytes (call.l0bElements step) call.l0cElements ↔
          count = 0 ∨ PaddedAlike call.input.sizeBytes (call.kSize step)) := by
  constructor
  · intro template optional footprint accepted runtime evaluates
    obtain ⟨supported, rhs, dst⟩ := mmaMetadata_eq_ok accepted
    rw [rhs, dst]
    exact storesColumns_iff runtime evaluates whole supported.width _ _ _
  · intro call accepted runtime evaluates step _
    have supported := call.supported_of_metadata accepted
    exact storesColumns_iff runtime evaluates whole supported.width _ _ _

/-- A number of columns that is bound at run time. -/
def runtimeCols : RuntimeInt :=
  .affine (.ofVariable "n" (by decide))

/-- The number of columns is 16. -/
def sixteenCols (name : String) : Option Int :=
  if name = "n" then some 16 else none

/-- An `mma` with 16 inner elements of a type. -/
def smallMma (input accumulator : TemplateDtype) : MmaTemplate where
  input := input
  accumulator := accumulator
  rows := 16
  cols := 16
  inner := 16

/-- A `gemm_v0` of int8 with a transposed right operand in steps of 32 and of 16. -/
def tailGemm : GemmCall where
  input := .int8
  accumulator := .int32
  rows := 16
  cols := 16
  inner := 48
  transposeA := false
  transposeB := true
  kL0Size := 32
  nActual := some runtimeCols

/-- A product of halves has the footprints of the layouts, and so has a whole step of int8. -/
theorem runtimeFootprint_halfMma :
    (∃ footprint,
      mmaMetadata (smallMma .float16 .float32) (some (runtimeCols, 0)) = .ok footprint ∧
        StoresColumns sixteenCols 16 16 16 2 4 footprint.bElements footprint.cElements) ∧
      StoresColumns sixteenCols 16 16 32 1 4 (tailGemm.l0bElements 0) tailGemm.l0cElements ∧
      ¬ StoresColumns sixteenCols 16 16 16 1 4 (tailGemm.l0bElements 1) tailGemm.l0cElements :=
  have agrees := @runtimeFootprint_iff sixteenCols 16 (by decide)
  ⟨⟨_, rfl, (agrees.1 (smallMma .float16 .float32) (some (runtimeCols, 0)) _ rfl id
      (by decide)).mpr (.inr (by decide))⟩,
    (agrees.2 tailGemm rfl id (by decide) 0 (by decide)).mpr (.inr (by decide)),
    fun stores => absurd
      ((agrees.2 tailGemm rfl id (by decide) 1 (by decide)).mp stores) (by decide)⟩

/-- In a product of int8 with 16 inner elements the L0B footprint is half of the layout's. -/
theorem runtimeFootprint_int8Mma :
    ∃ footprint,
      mmaMetadata (smallMma .int8 .int32) (some (runtimeCols, 0)) = .ok footprint ∧
        ¬ footprint.actualCols.IsStatic ∧
        footprint.actualCols.evaluate sixteenCols = some 16 ∧
        footprint.bElements.evaluate sixteenCols = some 256 ∧
        storageElements .nZ ⟨16, 16⟩ TemplateDtype.int8.sizeBytes = 512 :=
  ⟨_, rfl, id, by decide, by decide, by decide⟩

end TilelangAscend.Simulator.Footprint
