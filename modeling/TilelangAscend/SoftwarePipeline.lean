import Mathlib.Data.List.Basic
import Mathlib.Data.List.Perm.Basic

namespace TilelangAscend.SoftwarePipeline

/-!
# Injection of the software pipeline

This module models `InjectSoftwarePipeline`.  The statements of an annotated loop carry a stage and
an order; the pass checks the dependencies between them, computes how many versions every buffer
allocated in the loop needs, and emits a prologue, a steady loop and an epilogue, in which a
statement of stage `s` runs `s` iterations late.  Accesses to a buffer with several versions are
rewritten to the version of the iteration they run in.
-/

/-! ## Loops -/

/-- How a statement reaches a buffer: by a `BufferLoad` or `BufferStore`, by `tvm_access_ptr`, or
through its data variable in an opaque call. -/
inductive AccessForm where
  | direct
  | accessPtr
  | opaqueCall
  deriving DecidableEq, Repr

/-- One access of a statement, with the cells it touches in a given iteration. -/
structure Access where
  buffer : String
  form : AccessForm
  isWrite : Bool
  cells : Int → List Nat

/-- A buffer region of a block, with the cells it covers in a given iteration. -/
structure BufferRegion where
  buffer : String
  cells : Int → List Nat

/-- A statement of the pipeline: its annotation, its accesses in execution order, and the regions
that its block declares. -/
structure Block where
  stage : Int
  order : Nat
  accesses : List Access
  reads : List BufferRegion
  writes : List BufferRegion

namespace Block

variable (block : Block) (buffer : String)

/-- The region that a block declares to read of a buffer, the first one as in `std::find_if`. -/
def readRegion : Option BufferRegion :=
  block.reads.find? fun region => region.buffer == buffer

/-- The region that a block declares to write of a buffer, the first one as in `std::find_if`. -/
def writeRegion : Option BufferRegion :=
  block.writes.find? fun region => region.buffer == buffer

/-- The block declares to read the buffer. -/
def readsBuffer : Bool :=
  (block.readRegion buffer).isSome

/-- The block declares to write the buffer. -/
def writesBuffer : Bool :=
  (block.writeRegion buffer).isSome

end Block

/-- The annotated loop, with the buffers it allocates and its statements in original order. -/
structure PipelineLoop where
  loopMin : Int
  extent : Int
  allocs : List String
  body : List Block

namespace PipelineLoop

variable (loop : PipelineLoop)

/-- An iteration of the original loop: the predicate `inbound` of a bound-checked block. -/
def InRange (iteration : Int) : Prop :=
  loop.loopMin ≤ iteration ∧ iteration < loop.loopMin + loop.extent

instance (iteration : Int) : Decidable (loop.InRange iteration) :=
  inferInstanceAs (Decidable (_ ∧ _))

/-! ## Checks -/

/-- A statement may depend on an earlier one that runs in an earlier stage, or in the same stage
and before it. -/
def DependencyKept (src dst : Block) : Prop :=
  src.stage ≤ dst.stage ∧ (src.stage = dst.stage → src.order < dst.order)

/-- `ValidatePipelineBody`: orders are unique, and every read after a write keeps its order. -/
structure ValidatePipelineBody : Prop where
  orders_unique : (loop.body.map Block.order).Nodup
  dependencies :
    ∀ before dst after, loop.body = before ++ dst :: after →
      ∀ src ∈ before, ∀ buffer, src.writesBuffer buffer → dst.readsBuffer buffer →
        DependencyKept src dst

/-- `ordered_stmts_`. -/
def orderedStmts : List Block :=
  (List.range loop.body.length).filterMap fun order =>
    loop.body.find? fun block => block.order == order

/-- `max_stage_`. -/
def maxStage : Int :=
  loop.body.foldl (fun stage block => max stage block.stage) (-1)

end PipelineLoop

/-! ## The analyzer -/

/-- The answers of TVM's analyzer that the pass relies on; it proves only true facts. -/
structure Analyzer (loop : PipelineLoop) where
  /-- `CanProveEqual(extent, 1)` for the range from a start to a stop. -/
  isUnitLoop : Int → Int → Bool
  isUnitLoop_sound : ∀ start stop, isUnitLoop start stop → stop - start = 1
  /-- `CanProve(!inbound)` for a stage over the range from a start to a stop. -/
  provesOutside : Int → Int → Int → Bool
  provesOutside_sound :
    ∀ start stop stage, provesOutside start stop stage →
      ∀ position, start ≤ position → position < stop → ¬ loop.InRange (position - stage)
  /-- `MayConflict` of a written and a read region, compared in one iteration. -/
  mayConflict : BufferRegion → BufferRegion → Bool
  mayConflict_sound :
    ∀ written read, mayConflict written read = false →
      ∀ iteration, ∀ cell ∈ written.cells iteration, cell ∉ read.cells iteration

namespace PipelineLoop

variable (loop : PipelineLoop) (analyzer : Analyzer loop)

/-! ## Versions -/

/-- `BufferAccessInfo`: the first defining stage and the last using stage, `-1` for none. -/
structure BufferAccessInfo where
  defStage : Int
  useStage : Int
  deriving DecidableEq, Repr

/-- One statement in `GetBufferAccessInfo`, for one buffer. -/
def updateAccessInfo (buffer : String) (info : BufferAccessInfo) (block : Block) :
    BufferAccessInfo where
  defStage :=
    if block.writesBuffer buffer then
      if info.defStage = -1 then block.stage else min info.defStage block.stage
    else info.defStage
  useStage := if block.readsBuffer buffer then max info.useStage block.stage else info.useStage

/-- `GetBufferAccessInfo` for one buffer. -/
def bufferAccessInfo (buffer : String) : BufferAccessInfo :=
  loop.body.foldl (updateAccessInfo buffer) { defStage := -1, useStage := -1 }

/-- A reader follows a writer both in order and in stage, and their regions may overlap. -/
def conflictingPair (buffer : String) (writer reader : Block) : Bool :=
  match writer.writeRegion buffer, reader.readRegion buffer with
  | some written, some read =>
    decide (writer.order < reader.order) && decide (writer.stage < reader.stage) &&
      analyzer.mayConflict written read
  | _, _ => false

/-- `need_multi_version`. -/
def needMultiVersion (buffer : String) : Bool :=
  loop.body.any fun writer => loop.body.any fun reader =>
    loop.conflictingPair analyzer buffer writer reader

/-- `ComputeBufferVersions`. -/
def computeBufferVersions (buffer : String) : Int :=
  let info := loop.bufferAccessInfo buffer
  if info.defStage = -1 then 1
  else
    let numVersions := info.useStage - info.defStage + 1
    if 2 ≤ numVersions && !loop.needMultiVersion analyzer buffer then numVersions - 1
    else numVersions

/-- The version of a buffer that an access of an iteration reaches: `PipelineBodyRewriter` remaps
allocated buffers with several versions, and leaves an opaque call at the first one. -/
def version (access : Access) (iteration : Int) : Int :=
  let versions := loop.computeBufferVersions analyzer access.buffer
  if access.buffer ∈ loop.allocs ∧ 1 < versions then
    match access.form with
    | .direct => (iteration - loop.loopMin) % versions
    | .accessPtr => iteration % versions
    | .opaqueCall => 0
  else 0

/-! ## Emission -/

end PipelineLoop

/-- What `EmitImpl` emits: a loop whose body runs blocks at skewed iterations, each under its
bound check if there is one. -/
structure EmittedLoop where
  loopMin : Int
  extent : Int
  delta : Int
  boundChecked : Bool
  blocks : List Block

/-- A statement run in an iteration of the original loop. -/
structure Event where
  block : Block
  iteration : Int

namespace PipelineLoop

variable (loop : PipelineLoop) (analyzer : Analyzer loop)

/-- `EmitImpl`: a unit loop is replaced by its start, any other runs from the original minimum and
is shifted to its start. -/
def emitImpl (start stop : Int) (needBoundCheck : Bool) : EmittedLoop :=
  let blocks :=
    loop.orderedStmts.filter fun block =>
      !(needBoundCheck && analyzer.provesOutside start stop block.stage)
  if analyzer.isUnitLoop start stop then
    { loopMin := start, extent := 1, delta := 0, boundChecked := needBoundCheck, blocks := blocks }
  else
    { loopMin := loop.loopMin, extent := stop - start, delta := start - loop.loopMin,
      boundChecked := needBoundCheck, blocks := blocks }

/-- The statements that one position of an emitted loop runs. -/
def runPosition (boundChecked : Bool) (blocks : List Block) (position : Int) : List Event :=
  blocks.filterMap fun block =>
    if boundChecked → loop.InRange (position - block.stage) then
      some { block := block, iteration := position - block.stage }
    else none

/-- The statements that an emitted loop runs. -/
def runEmitted (emitted : EmittedLoop) : List Event :=
  (List.range emitted.extent.toNat).flatMap fun (index : Nat) =>
    loop.runPosition emitted.boundChecked emitted.blocks (emitted.loopMin + index + emitted.delta)

/-- `BuildPipeline`: the statements that the prologue, the steady loop and the epilogue run. -/
def pipelineTrace : List Event :=
  loop.runEmitted (loop.emitImpl analyzer loop.loopMin (loop.loopMin + loop.maxStage) true) ++
    loop.runEmitted
      (loop.emitImpl analyzer (loop.loopMin + loop.maxStage) (loop.loopMin + loop.extent) false) ++
    loop.runEmitted
      (loop.emitImpl analyzer (loop.loopMin + loop.extent)
        (loop.loopMin + loop.extent + loop.maxStage) true)

/-! ## What a pipeline must do -/

/-- How often a statement runs in an iteration. -/
def occurrences (trace : List Event) (order : Nat) (iteration : Int) : Nat :=
  trace.countP fun event => event.block.order == order && event.iteration == iteration

/-- Every statement runs exactly once in each iteration of the original loop, and never outside. -/
def RunsOnce : Prop :=
  ∀ block ∈ loop.body, ∀ iteration,
    occurrences (loop.pipelineTrace analyzer) block.order iteration =
      if loop.InRange iteration then 1 else 0

end PipelineLoop

/-- An access that a statement makes in an iteration. -/
structure Touch where
  event : Event
  access : Access

/-- The accesses of a statement in an iteration, in order. -/
def Event.touches (event : Event) : List Touch :=
  event.block.accesses.map fun access => { event := event, access := access }

namespace PipelineLoop

variable (loop : PipelineLoop) (analyzer : Analyzer loop)

/-- All accesses of the pipelined loop, in order. -/
def touchTrace : List Touch :=
  (loop.pipelineTrace analyzer).flatMap Event.touches

/-- The earlier access writes the given cell of the version that the later one reaches. -/
def overwrites (cell : Nat) (later earlier : Touch) : Bool :=
  earlier.access.isWrite && earlier.access.buffer == later.access.buffer &&
    loop.version analyzer earlier.access earlier.event.iteration ==
      loop.version analyzer later.access later.event.iteration &&
    (earlier.access.cells earlier.event.iteration).contains cell

/-- Every read of a buffer allocated in the loop finds, in each cell, what its own iteration wrote
and no other iteration overwrote. -/
def ReadsOwnVersion : Prop :=
  ∀ before read after, loop.touchTrace analyzer = before ++ read :: after →
    read.access.isWrite = false → read.access.buffer ∈ loop.allocs →
      ∀ cell ∈ read.access.cells read.event.iteration,
        ∃ write, before.reverse.find? (loop.overwrites analyzer cell read) = some write ∧
          write.event.iteration = read.event.iteration

/-! ## Loops in scope -/

/-- A statement declares every access that it makes. -/
structure Block.Declares (block : Block) : Prop where
  reads :
    ∀ access ∈ block.accesses, access.isWrite = false →
      ∃ region, block.readRegion access.buffer = some region ∧
        ∀ iteration, ∀ cell ∈ access.cells iteration, cell ∈ region.cells iteration
  writes :
    ∀ access ∈ block.accesses, access.isWrite →
      ∃ region, block.writeRegion access.buffer = some region ∧
        ∀ iteration, ∀ cell ∈ access.cells iteration, cell ∈ region.cells iteration

/-- The loops that the pass accepts and that write their own buffers before they read them. -/
structure InScope : Prop where
  extent_nonneg : 0 ≤ loop.extent
  valid : loop.ValidatePipelineBody
  orders_permuted : (loop.body.map Block.order).Perm (List.range loop.body.length)
  declares : ∀ block ∈ loop.body, Block.Declares block
  written_before_read :
    ∀ before block after, loop.body = before ++ block :: after →
      ∀ earlier read later, block.accesses = earlier ++ read :: later →
        read.isWrite = false → read.buffer ∈ loop.allocs →
          ∀ iteration, loop.InRange iteration → ∀ cell ∈ read.cells iteration,
            ∃ writer accesses,
              (writer = block ∧ accesses = earlier ∨ writer ∈ before ∧ accesses = writer.accesses) ∧
              ∃ write ∈ accesses,
                write.isWrite ∧ write.buffer = read.buffer ∧ cell ∈ write.cells iteration

end PipelineLoop

end TilelangAscend.SoftwarePipeline
