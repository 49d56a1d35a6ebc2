import TilelangAscend.ExceptRules
import TilelangAscend.PoisonExecution

namespace TilelangAscend.Simulator.Poison

open IntervalCover ExceptRules

/-!
# Agreement of sync-only and functional execution

Both modes reduce to one form: report uninitialized memory unless every region of a list of
reads is initialized, then initialize every region of a list of writes.  They agree on a task
whose metadata keys name exactly the regions that its operation accesses, and on every run of
such tasks.
-/

/-! ## Exact and merged ranges are interchangeable -/

section Ranges

variable {memory : MemoryRuntime} {task : TensorTask} {region : BufferRegion}
  {ranges : List (Nat × Nat)}

theorem initializedOn_iff {allocation : Allocation} :
    memory.initializedOn allocation ranges = true ↔
      ∀ byte, Covers ranges byte →
        memory.initialized allocation.space (allocation.address + byte) = true := by
  simp only [MemoryRuntime.initializedOn, List.all_eq_true, List.mem_range]
  constructor
  · rintro all byte ⟨range, member, fromStart, beforeEnd⟩
    have initialized := all range member (byte - range.1) (by omega)
    rwa [Nat.add_assoc, Nat.add_sub_cancel' fromStart] at initialized
  · intro covered range member position inside
    rw [Nat.add_assoc]
    exact covered (range.1 + position) ⟨range, member, by omega, by omega⟩

theorem initializedOn_physical (allocation : Allocation) :
    memory.initializedOn allocation (physicalAddressRanges region) =
      memory.initializedOn allocation (addressRanges region) := by
  rw [Bool.eq_iff_iff, initializedOn_iff, initializedOn_iff]
  simp only [covers_physicalAddressRanges, covers_addressRanges]

theorem any_range_iff {address byte : Nat} :
    (ranges.any fun range => address + range.1 ≤ byte && byte < address + range.2) = true ↔
      address ≤ byte ∧ Covers ranges (byte - address) := by
  simp only [List.any_eq_true, Bool.and_eq_true, decide_eq_true_eq]
  constructor
  · rintro ⟨range, member, fromStart, beforeEnd⟩
    exact ⟨by omega, range, member, by omega, by omega⟩
  · rintro ⟨inSpace, range, member, fromStart, beforeEnd⟩
    exact ⟨range, member, by omega, by omega⟩

theorem mark_physical (allocation : Allocation) :
    memory.mark allocation (physicalAddressRanges region) =
      memory.mark allocation (addressRanges region) := by
  have sameBytes : ∀ byte,
      ((physicalAddressRanges region).any fun range =>
          allocation.address + range.1 ≤ byte && byte < allocation.address + range.2) =
        (addressRanges region).any fun range =>
          allocation.address + range.1 ≤ byte && byte < allocation.address + range.2 := by
    intro byte
    rw [Bool.eq_iff_iff, any_range_iff, any_range_iff, covers_physicalAddressRanges,
      covers_addressRanges]
  simp only [MemoryRuntime.mark, sameBytes]

theorem checkInitialized_eq_read :
    memory.checkInitialized task region = memory.read task region := by
  simp only [MemoryRuntime.checkInitialized, MemoryRuntime.read, initializedOn_physical]

theorem markInitialized_eq_write :
    memory.markInitialized task region = memory.write task region := by
  simp only [MemoryRuntime.markInitialized, MemoryRuntime.write, mark_physical]

end Ranges

/-! ## Accesses of resolved regions -/

/-- A region lies inside an allocation of the program. -/
def Resolves (memory : MemoryRuntime) (task : TensorTask) (region : BufferRegion) : Prop :=
  ∃ allocation, memory.resolve task region = .ok allocation

/-- A region resolves to initialized bytes. -/
def readable (memory : MemoryRuntime) (task : TensorTask) (region : BufferRegion) : Bool :=
  match memory.resolve task region with
  | .ok allocation => memory.initializedOn allocation (addressRanges region)
  | .error _ => false

/-- A byte of an address space belongs to a region. -/
def touches (memory : MemoryRuntime) (task : TensorTask) (region : BufferRegion)
    (space : Space) (byte : Nat) : Bool :=
  match memory.resolve task region with
  | .ok allocation =>
    space = allocation.space &&
      (addressRanges region).any fun range =>
        allocation.address + range.1 ≤ byte && byte < allocation.address + range.2
  | .error _ => false

/-- Memory after every byte of some regions was initialized. -/
def marked (memory : MemoryRuntime) (task : TensorTask) (regions : List BufferRegion) :
    MemoryRuntime :=
  { memory with
    initialized := fun space byte =>
      regions.any (touches memory task · space byte) || memory.initialized space byte }

/-- Report uninitialized memory unless everything that is read is ready. -/
def report (ready : Bool) : Except Failure Unit :=
  match ready with
  | true => .ok ()
  | false => .error .uninitialized

theorem report_bind (first second : Bool) :
    (report first >>= fun _ => report second) = report (first && second) := by
  cases first <;> rfl

/-- The form of both modes: all reads are initialized, or the task is reported. -/
def access
    (memory : MemoryRuntime)
    (task : TensorTask)
    (reads writes : List BufferRegion) :
    Except Failure MemoryRuntime := do
  report (reads.all (readable memory task))
  return marked memory task writes

section Accesses

variable {checks : TensorTask → Nat → Bool} {memory : MemoryRuntime} {task : TensorTask}
  {regions others reads writes : List BufferRegion} {region : BufferRegion}

theorem read_of_resolves (resolves : Resolves memory task region) :
    memory.read task region = report (readable memory task region) := by
  obtain ⟨allocation, resolved⟩ := resolves
  simp only [MemoryRuntime.read, readable, resolved, bind, Except.bind]
  cases memory.initializedOn allocation (addressRanges region) <;> rfl

theorem check_of_passes (passes : ∀ stage, checks task stage = true) (stage : Nat) :
    check checks task stage = .ok () :=
  if_pos (passes stage)

theorem write_of_resolves (resolves : Resolves memory task region) :
    memory.write task region = .ok (marked memory task [region]) := by
  obtain ⟨allocation, resolved⟩ := resolves
  simp only [MemoryRuntime.write, marked, touches, resolved, List.any_cons, List.any_nil,
    Bool.or_false]
  rfl

theorem readAll_of_resolves (passes : ∀ stage, checks task stage = true)
    (resolves : ∀ region ∈ regions, Resolves memory task region) (stage : Nat) :
    readAll checks memory task stage regions = report (regions.all (readable memory task)) := by
  induction regions generalizing stage with
  | nil => rfl
  | cons region rest ih =>
    have restRead := ih
      (fun other member => resolves other (List.mem_cons_of_mem _ member)) (stage + 1)
    rw [readAll, read_of_resolves (resolves region List.mem_cons_self), check_of_passes passes,
      restRead, List.all_cons, ← report_bind]
    rfl

theorem checkAll_of_resolves (resolves : ∀ region ∈ regions, Resolves memory task region) :
    checkAll memory task regions = report (regions.all (readable memory task)) := by
  induction regions with
  | nil => rfl
  | cons region rest ih =>
    have restChecked := ih
      fun other member => resolves other (List.mem_cons_of_mem _ member)
    rw [checkAll, checkInitialized_eq_read,
      read_of_resolves (resolves region List.mem_cons_self), restChecked, List.all_cons,
      ← report_bind]

theorem marked_marked :
    marked (marked memory task regions) task others = marked memory task (regions ++ others) := by
  have sameInitialized : ∀ space byte,
      (others.any (touches memory task · space byte) ||
          (regions.any (touches memory task · space byte) || memory.initialized space byte)) =
        ((regions ++ others).any (touches memory task · space byte) ||
          memory.initialized space byte) := by
    intro space byte
    rw [List.any_append, ← Bool.or_assoc, Bool.or_comm (others.any _)]
  unfold marked
  congr 1
  funext space byte
  exact sameInitialized space byte

theorem writeAll_of_resolves (resolves : ∀ region ∈ regions, Resolves memory task region) :
    writeAll task memory regions = .ok (marked memory task regions) := by
  induction regions generalizing memory with
  | nil => simp only [writeAll, marked, List.any_nil, Bool.false_or]
  | cons region rest ih =>
    have written := write_of_resolves (resolves region List.mem_cons_self)
    have restWritten := @ih (marked memory task [region])
      fun other member => resolves other (List.mem_cons_of_mem _ member)
    simp only [writeAll, written, bind, Except.bind]
    rw [restWritten, marked_marked, List.singleton_append]

theorem markAll_of_resolves (resolves : ∀ region ∈ regions, Resolves memory task region) :
    markAll task memory regions = .ok (marked memory task regions) := by
  have sameLoop : ∀ regions memory, markAll task memory regions = writeAll task memory regions := by
    intro regions
    induction regions with
    | nil => exact fun _ => rfl
    | cons region rest ih =>
      intro memory
      simp only [markAll, writeAll, markInitialized_eq_write, ih]
  rw [sameLoop, writeAll_of_resolves resolves]

theorem marked_congr
    (sameBytes : ∀ space byte,
      regions.any (touches memory task · space byte) =
        others.any (touches memory task · space byte)) :
    marked memory task regions = marked memory task others := by
  simp only [marked, sameBytes]

theorem access_congr {otherReads otherWrites : List BufferRegion}
    (sameReads : ∀ region, region ∈ reads ↔ region ∈ otherReads)
    (sameWrites : ∀ region, region ∈ writes ↔ region ∈ otherWrites) :
    access memory task reads writes = access memory task otherReads otherWrites := by
  have allSame : reads.all (readable memory task) = otherReads.all (readable memory task) := by
    rw [Bool.eq_iff_iff, List.all_eq_true, List.all_eq_true]
    simp only [sameReads]
  have markedSame : marked memory task writes = marked memory task otherWrites := by
    refine marked_congr ?_
    intro space byte
    rw [Bool.eq_iff_iff, List.any_eq_true, List.any_eq_true]
    simp only [sameWrites]
  rw [access, access, allSame, markedSame]

theorem readThenWrite_of_resolves (passes : ∀ stage, checks task stage = true)
    (readsResolve : ∀ region ∈ reads, Resolves memory task region)
    (writesResolve : ∀ region ∈ writes, Resolves memory task region) :
    readThenWrite checks memory task reads writes = access memory task reads writes := by
  rw [readThenWrite, check_of_passes passes, readAll_of_resolves passes readsResolve,
    writeAll_of_resolves writesResolve, access]
  rfl

theorem readRightThenWrite_of_resolves {first rights : List BufferRegion}
    {destination : BufferRegion} (passes : ∀ stage, checks task stage = true)
    (readsResolve : ∀ region ∈ first ++ rights, Resolves memory task region)
    (writesResolve : Resolves memory task destination) :
    readRightThenWrite checks memory task first (.ok rights) destination =
      access memory task (first ++ rights) [destination] := by
  have firstRead := readAll_of_resolves passes
    (fun region member => readsResolve region (List.mem_append_left _ member)) 0
  have rightsRead := readAll_of_resolves passes
    (fun region member => readsResolve region (List.mem_append_right _ member)) first.length
  have written := @writeAll_of_resolves memory task [destination]
    (fun region member => (List.mem_singleton.mp member) ▸ writesResolve)
  simp only [readRightThenWrite, firstRead, bind, Except.bind, rightsRead, written, access,
    List.all_append, ← report_bind]
  cases first.all (readable memory task) <;> rfl

theorem accessMetadata_of_resolves
    (readsResolve : ∀ region ∈ syncOnlyReads task, Resolves memory task region)
    (writesResolve : ∀ region ∈ destinationRegions task, Resolves memory task region) :
    accessMetadata memory task =
      access memory task (syncOnlyReads task) (destinationRegions task) := by
  rw [accessMetadata, checkAll_of_resolves readsResolve, markAll_of_resolves writesResolve, access]
  rfl

theorem readable_marked
    (disjoint : ∀ early ∈ regions, ∀ space byte,
      ¬ (touches memory task early space byte = true ∧
        touches memory task region space byte = true)) :
    readable (marked memory task regions) task region = readable memory task region := by
  have sameResolve : (marked memory task regions).resolve task region =
      memory.resolve task region := rfl
  unfold readable
  rw [sameResolve]
  cases resolved : memory.resolve task region with
  | error failure => rfl
  | ok allocation =>
    simp only
    rw [Bool.eq_iff_iff, initializedOn_iff, initializedOn_iff]
    refine forall_congr' fun byte => forall_congr' fun covered => ?_
    have inRegion : touches memory task region allocation.space (allocation.address + byte) =
        true := by
      simp only [touches, resolved, decide_true, Bool.true_and, any_range_iff]
      exact ⟨Nat.le_add_right _ _, by rwa [Nat.add_sub_cancel_left]⟩
    have notEarly : regions.any
        (touches memory task · allocation.space (allocation.address + byte)) = false := by
      rw [List.any_eq_false]
      intro early member isTouched
      exact disjoint early member _ _ ⟨isTouched, inRegion⟩
    simp only [marked, notEarly, Bool.false_or]

end Accesses

/-! ## Tasks on which the modes agree -/

/-- Operations that read `src` and write `dst`. -/
def TensorOperation.readsSource : TensorOperation → Bool
  | .im2col => true
  | .unary => true
  | .bitwiseNot => true
  | .bitwiseShift => true
  | .cast => true
  | .reduceSumExperiment => true
  | .sumExperiment => true
  | .transpose => true
  | .topk => true
  | .sort => true
  | .clamp => true
  | .broadcast => true
  | _ => false

/-- Operations that read `src` and `offsets` and write `dst`. -/
def TensorOperation.gathers : TensorOperation → Bool
  | .gather => true
  | .gatherb => true
  | .sort32 => true
  | _ => false

/-- Reductions that read `src` and `dst` and write `dst`. -/
def TensorOperation.updates : TensorOperation → Bool
  | .blockReduce => true
  | .wholeReduce => true
  | _ => false

/-- Operations without operands in either mode. -/
def TensorOperation.idle : TensorOperation → Bool
  | .traceOnly => true
  | .synchronization => true
  | .unknown => true
  | _ => false

/-- At most one of two second operands, and one of them unless there is a scalar. -/
def RightOperand (hasScalar : Bool) (right scalar : Option BufferRegion) : Prop :=
  (right.isSome = true ∧ scalar = none) ∨ right = none ∧ (scalar.isSome = true ∨ hasScalar = true)

/-- A bias, or an accumulator unless the product starts afresh. -/
def Addend (init : Bool) (bias accumulator : Option BufferRegion) : Prop :=
  (bias.isSome = true ∧ accumulator = none) ∨ bias = none ∧ accumulator.isSome = !init

/-- The destinations that a copy writes are all destinations. -/
def CopyDestinations (form : CopyForm) (destinations : Option (List BufferRegion))
    (destination : Option BufferRegion) : Prop :=
  match destinations with
  | none => destination.isSome = true
  | some [] => False
  | some [_] => True
  | some _ => form = .banded

/--
The operands of an operation name the regions that its implementation accesses: no scratch but
that of a row expansion, no source of a reduction without elements, the destination of a partial
reduction also as its accumulator, no gap between the blocks of `brcb` and no rest of a block of
`init_sort_buf`, and no copied view of a planned buffer.
-/
inductive Regular : TensorOperation → Operands → Prop
  | bufferStore {loads : List BufferRegion} {operands : Operands} :
      (∀ load ∈ loads, load.scope = .localScope) →
      Regular (.bufferStore loads) operands
  | copy {form : CopyForm} {source : BufferRegion}
      {sources destinations : Option (List BufferRegion)}
      {destination pad : Option BufferRegion} :
      CopyDestinations form destinations destination →
      Regular (.copy form)
        { src := some source, srcRegions := sources, dst := destination,
          dstRegions := destinations, padDst := pad }
  | source {operation : TensorOperation} {source destination : BufferRegion} :
      operation.readsSource = true →
      Regular operation { src := some source, dst := some destination }
  | binary {hasScalar : Bool} {left destination : BufferRegion}
      {right scalar : Option BufferRegion} :
      RightOperand hasScalar right scalar →
      Regular (.binary hasScalar)
        { lhs := some left, rhs := right, scalarSrc := scalar, dst := some destination }
  | compare {hasScalar : Bool} {left destination : BufferRegion}
      {right scalar : Option BufferRegion} :
      RightOperand hasScalar right scalar →
      Regular (.compare hasScalar)
        { lhs := some left, rhs := right, scalarSrc := scalar, dst := some destination }
  | select {hasScalar : Bool} {mask left destination : BufferRegion}
      {right scalar : Option BufferRegion} :
      RightOperand hasScalar right scalar →
      Regular (.select hasScalar)
        { mask := some mask, lhs := some left, rhs := right, scalarSrc := scalar,
          dst := some destination }
  | tailCompare {hasScalar : Bool} {left destination : BufferRegion}
      {right : Option BufferRegion} :
      RightOperand hasScalar right none →
      Regular (.tailCompare hasScalar) { lhs := some left, rhs := right, dst := some destination }
  | tailSelect {hasScalar : Bool} {mask left destination : BufferRegion}
      {right : Option BufferRegion} :
      RightOperand hasScalar right none →
      Regular (.tailSelect hasScalar)
        { mask := some mask, lhs := some left, rhs := right, dst := some destination }
  | bitwiseBinary {left right destination : BufferRegion} :
      Regular .bitwiseBinary { lhs := some left, rhs := some right, dst := some destination }
  | axpy {source accumulator destination : BufferRegion} :
      Regular .axpy { lhs := some source, accumulator := some accumulator, dst := some destination }
  | mulAddDst {left right accumulator destination : BufferRegion} :
      Regular .mulAddDst
        { lhs := some left, rhs := some right, accumulator := some accumulator,
          dst := some destination }
  | mma {init : Bool} {left right destination : BufferRegion}
      {bias accumulator : Option BufferRegion} :
      Addend init bias accumulator →
      Regular (.mma init)
        { lhs := some left, rhs := some right, bias := bias, accumulator := accumulator,
          dst := some destination }
  | gemmV0 {init : Bool} {left right destination : BufferRegion}
      {accumulator : Option BufferRegion} :
      Addend init none accumulator →
      Regular (.gemmV0 init)
        { lhs := some left, rhs := some right, accumulator := accumulator, dst := some destination }
  | fill {destination : BufferRegion} :
      Regular .fill { dst := some destination }
  | sequence {destination : BufferRegion} :
      Regular .sequence { dst := some destination }
  | brcb {repeats blkStride repStride : Nat} {source destination : BufferRegion}
      {blocks : List BufferRegion} :
      repeats ≠ 0 →
      brcbBlocks destination repeats blkStride repStride = .ok blocks →
      (∀ byte, byte ∈ destination.bytes ↔ ∃ block ∈ blocks, byte ∈ block.bytes) →
      Regular (.brcb repeats blkStride repStride) { src := some source, dst := some destination }
  | rowExpand {source scalar destination : BufferRegion} {scratch : Option BufferRegion} :
      Regular .rowExpand
        { src := some source, scalarSrc := some scalar, scratch := scratch,
          dst := some destination }
  | gathers {operation : TensorOperation} {source offsets destination : BufferRegion} :
      operation.gathers = true →
      Regular operation { src := some source, offsets := some offsets, dst := some destination }
  | gatherMask {custom : Bool} {source destination : BufferRegion}
      {offsets : Option BufferRegion} :
      offsets.isSome = custom →
      Regular (.gatherMask custom)
        { src := some source, offsets := offsets, dst := some destination }
  | reinterpretcast {operands : Operands} :
      Regular (.reinterpretcast false) operands
  | initSortBuf {covered : Nat} {destination : BufferRegion} :
      covered ≠ 0 →
      destination.shape = [covered] →
      Regular (.initSortBuf covered) { dst := some destination }
  | mergeSort {source : Option BufferRegion} {sources : List BufferRegion}
      {destination : BufferRegion} :
      Regular .mergeSort { src := source, srcRegions := some sources, dst := some destination }
  | atomic {operation : TensorOperation} {source destination : BufferRegion}
      {accumulator : Option BufferRegion} :
      isAtomic operation = true →
      (∀ region ∈ accumulator, region = destination) →
      Regular operation { src := some source, accumulator := accumulator, dst := some destination }
  | updates {operation : TensorOperation} {source destination : BufferRegion} :
      operation.updates = true →
      Regular operation
        { src := some source, accumulator := some destination, dst := some destination }
  | reduce {clear : Bool} {source destination : BufferRegion}
      {accumulator : Option BufferRegion} :
      someExtents source = .ok true →
      accumulator.isSome = !clear →
      Regular (.reduce clear)
        { src := some source, accumulator := accumulator, dst := some destination }

/-- Every region that either mode may access. -/
def accessed (task : TensorTask) : List BufferRegion :=
  sourceRegions task ++ destinationRegions task ++
    match task.operation with
    | .bufferStore loads => loads
    | .brcb repeats blkStride repStride =>
      match task.dst with
      | some destination => (brcbBlocks destination repeats blkStride repStride).toOption.getD []
      | none => []
    | _ => []

/-- Regions that an operation writes before it reads its source. -/
def earlyWrites (task : TensorTask) : List BufferRegion :=
  task.padDst.toList ++ task.scratch.toList

/-- What has to hold before a task for both modes to agree on it. -/
structure Agreeing
    (checks : TensorTask → Nat → Bool)
    (memory : MemoryRuntime)
    (task : TensorTask) :
    Prop where
  regular : Regular task.operation task.toOperands
  passes : ∀ stage, checks task stage = true
  resolves : ∀ region ∈ accessed task, Resolves memory task region
  separate :
    ∀ early ∈ earlyWrites task,
      ∀ region ∈ sourceRegions task,
        ∀ space byte,
          ¬ (touches memory task early space byte = true ∧
            touches memory task region space byte = true)

section Tasks

variable {checks : TensorTask → Nat → Bool} {memory : MemoryRuntime} {task : TensorTask}

theorem Agreeing.source_resolves (agreeing : Agreeing checks memory task) :
    ∀ region ∈ sourceRegions task, Resolves memory task region :=
  fun region member =>
    agreeing.resolves region (List.mem_append_left _ (List.mem_append_left _ member))

theorem Agreeing.destination_resolves (agreeing : Agreeing checks memory task) :
    ∀ region ∈ destinationRegions task, Resolves memory task region :=
  fun region member =>
    agreeing.resolves region (List.mem_append_left _ (List.mem_append_right _ member))

theorem Agreeing.accessMetadata (agreeing : Agreeing checks memory task)
    (notAtomic : isAtomic task.operation = false) :
    accessMetadata memory task =
      access memory task (sourceRegions task) (destinationRegions task) := by
  have readsAre : syncOnlyReads task = sourceRegions task := by
    unfold syncOnlyReads
    rw [notAtomic]
    rfl
  have generic := @accessMetadata_of_resolves memory task
    (by rw [readsAre]; exact agreeing.source_resolves) agreeing.destination_resolves
  rwa [readsAre] at generic

variable {reads blocks : List BufferRegion} {destination region source : BufferRegion}
  {hasScalar : Bool} {allocation : Allocation} {repeats blkStride repStride : Nat}

theorem Agreeing.readThenWrite (agreeing : Agreeing checks memory task)
    (notAtomic : isAtomic task.operation = false) {writes : List BufferRegion}
    (sameReads : ∀ region, region ∈ reads ↔ region ∈ sourceRegions task)
    (sameWrites : ∀ region, region ∈ writes ↔ region ∈ destinationRegions task) :
    readThenWrite checks memory task reads writes = Poison.accessMetadata memory task := by
  rw [agreeing.accessMetadata notAtomic, readThenWrite_of_resolves agreeing.passes
    (fun region member => agreeing.source_resolves region ((sameReads region).mp member))
    (fun region member => agreeing.destination_resolves region ((sameWrites region).mp member))]
  exact access_congr sameReads sameWrites

theorem Agreeing.readRightThenWrite (agreeing : Agreeing checks memory task)
    (notAtomic : isAtomic task.operation = false) {first rights : List BufferRegion}
    {right : Except Failure (List BufferRegion)} (rightIs : right = .ok rights)
    (sameReads : ∀ region, region ∈ first ++ rights ↔ region ∈ sourceRegions task)
    (sameWrites : ∀ region, region ∈ [destination] ↔ region ∈ destinationRegions task) :
    readRightThenWrite checks memory task first right destination =
      Poison.accessMetadata memory task := by
  rw [agreeing.accessMetadata notAtomic, rightIs, readRightThenWrite_of_resolves agreeing.passes
    (fun region member => agreeing.source_resolves region ((sameReads region).mp member))
    (agreeing.destination_resolves _ ((sameWrites _).mp (List.mem_singleton.mpr rfl)))]
  exact access_congr sameReads sameWrites

/-- Operations on the generic path. -/
def TensorOperation.generic : TensorOperation → Bool
  | .bufferStore _ => false
  | .reinterpretcast _ => false
  | operation => !operation.idle

theorem generic_of_family {operation : TensorOperation}
    (family : operation.readsSource = true ∨ operation.gathers = true ∨ operation.updates = true) :
    operation.generic = true ∧ isAtomic operation = false := by
  rcases family with readsSource | gathers | updates
  · cases operation <;> first | exact ⟨rfl, rfl⟩ | cases readsSource
  · cases operation <;> first | exact ⟨rfl, rfl⟩ | cases gathers
  · cases operation <;> first | exact ⟨rfl, rfl⟩ | cases updates

theorem executeSyncOnly_generic (generic : task.operation.generic = true) :
    executeSyncOnly checks memory task = accessMetadata memory task := by
  unfold executeSyncOnly
  cases kind : task.operation <;> rw [kind] at generic <;> first | rfl | cases generic

theorem executeFunctional_readsSource (readsSource : task.operation.readsSource = true) :
    executeFunctional checks memory task = sourceToDestination checks memory task := by
  unfold executeFunctional
  cases kind : task.operation <;> rw [kind] at readsSource <;> first | rfl | cases readsSource

theorem executeFunctional_gathers (gathers : task.operation.gathers = true) :
    executeFunctional checks memory task = gatherToDestination checks memory task := by
  unfold executeFunctional
  cases kind : task.operation <;> rw [kind] at gathers <;> first | rfl | cases gathers

theorem executeFunctional_updates
    (updates : task.operation.updates = true ∨ isAtomic task.operation = true) :
    executeFunctional checks memory task = updateDestination checks memory task := by
  unfold executeFunctional
  cases kind : task.operation <;> rw [kind] at updates <;>
    first | rfl | (obtain impossible | impossible := updates <;> cases impossible)

theorem rightOperand_eq (named : RightOperand hasScalar task.rhs task.scalarSrc) :
    rightOperand task hasScalar = .ok (task.rhs.toList ++ task.scalarSrc.toList) := by
  unfold rightOperand
  obtain ⟨someRight, noScalar⟩ | ⟨noRight, someScalar⟩ := named
  · obtain ⟨right, isRight⟩ := Option.isSome_iff_exists.mp someRight
    rw [isRight, noScalar]
    rfl
  · rw [noRight]
    cases scalarIs : task.scalarSrc with
    | some scalar => rfl
    | none =>
      rw [scalarIs] at someScalar
      have isScalar : hasScalar = true := by simpa using someScalar
      rw [isScalar]
      rfl

theorem tailRightOperand_eq (named : RightOperand hasScalar task.rhs none) :
    tailRightOperand task hasScalar = .ok task.rhs.toList := by
  unfold tailRightOperand
  obtain ⟨someRight, _⟩ | ⟨noRight, someScalar⟩ := named
  · obtain ⟨right, isRight⟩ := Option.isSome_iff_exists.mp someRight
    rw [isRight]
    rfl
  · have isScalar : hasScalar = true := by simpa using someScalar
    rw [noRight, isScalar]
    rfl

theorem productAddend_eq {init : Bool} {bias : Option BufferRegion}
    (named : Addend init bias task.accumulator) :
    productAddend task bias init = .ok (bias.toList ++ task.accumulator.toList) := by
  unfold productAddend
  obtain ⟨someBias, noAccumulator⟩ | ⟨noBias, accumulates⟩ := named
  · obtain ⟨region, isBias⟩ := Option.isSome_iff_exists.mp someBias
    rw [isBias, noAccumulator]
    rfl
  · rw [noBias]
    cases init with
    | true =>
      have noAccumulator : task.accumulator = none := by simpa using accumulates
      rw [noAccumulator]
      rfl
    | false =>
      obtain ⟨region, isAccumulator⟩ := Option.isSome_iff_exists.mp accumulates
      rw [isAccumulator]
      rfl

theorem readScalars_eq {loads : List BufferRegion}
    (localLoads : ∀ load ∈ loads, load.scope = .localScope)
    (resolves : ∀ load ∈ loads, Resolves memory task load) (stage : Nat) :
    readScalars checks memory task stage loads = readAll checks memory task stage loads := by
  induction loads generalizing stage with
  | nil => rfl
  | cons load rest ih =>
    have isLocal := localLoads load List.mem_cons_self
    have restRead := ih
      (fun other member => localLoads other (List.mem_cons_of_mem _ member))
      (fun other member => resolves other (List.mem_cons_of_mem _ member)) (stage + 1)
    simp only [readScalars, readAll, isLocal, ne_eq, not_true_eq_false, if_false,
      checkInitialized_eq_read, read_of_resolves (resolves load List.mem_cons_self), restRead]
    cases readable memory task load <;> rfl

theorem reshaped_self {shape : List Nat} (sameShape : region.shape = shape) :
    reshaped region shape region.byteOffset = .ok region := by
  subst sameShape
  exact dif_pos region.stridesRank

theorem marked_of_bytes {regions : List BufferRegion}
    (resolved : memory.resolve task region = .ok allocation)
    (allResolved : ∀ part ∈ regions, memory.resolve task part = .ok allocation)
    (sameBytes : ∀ byte, byte ∈ region.bytes ↔ ∃ part ∈ regions, byte ∈ part.bytes) :
    marked memory task regions = marked memory task [region] := by
  refine marked_congr ?_
  intro space byte
  have touchesIff : ∀ part, memory.resolve task part = .ok allocation →
      (touches memory task part space byte = true ↔
        space = allocation.space ∧ allocation.address ≤ byte ∧
          byte - allocation.address ∈ part.bytes) := by
    intro part partResolved
    simp only [touches, partResolved, Bool.and_eq_true, decide_eq_true_eq, any_range_iff,
      covers_addressRanges]
  rw [Bool.eq_iff_iff, List.any_eq_true, List.any_cons, List.any_nil, Bool.or_false,
    touchesIff region resolved, sameBytes]
  constructor
  · rintro ⟨part, member, touched⟩
    obtain ⟨sameSpace, inSpace, inPart⟩ := (touchesIff part (allResolved part member)).mp touched
    exact ⟨sameSpace, inSpace, part, member, inPart⟩
  · rintro ⟨sameSpace, inSpace, part, member, inPart⟩
    exact ⟨part, member, (touchesIff part (allResolved part member)).mpr
      ⟨sameSpace, inSpace, inPart⟩⟩

theorem brcbBlocks_buffer {block : BufferRegion}
    (blocksAre : brcbBlocks destination repeats blkStride repStride = .ok blocks)
    (member : block ∈ blocks) :
    block.buffer = destination.buffer ∧ block.scope = destination.scope ∧
      block.coreId = destination.coreId := by
  obtain ⟨index, _, isBlock⟩ := exists_item_of_mem blocksAre member
  unfold reshaped at isBlock
  split at isBlock
  · rw [← Except.ok.inj isBlock]
    exact ⟨rfl, rfl, rfl⟩
  · cases isBlock

theorem resolve_of_buffer {other : BufferRegion}
    (sameBuffer : other.buffer = region.buffer ∧ other.scope = region.scope ∧
      other.coreId = region.coreId)
    (resolved : memory.resolve task region = .ok allocation)
    (otherResolves : Resolves memory task other) : memory.resolve task other = .ok allocation := by
  obtain ⟨otherAllocation, otherResolved⟩ := otherResolves
  rw [otherResolved]
  unfold MemoryRuntime.resolve MemoryRuntime.regionOwner BufferRegion.owner
    at resolved otherResolved
  rw [sameBuffer.1, sameBuffer.2.1, sameBuffer.2.2] at otherResolved
  obtain ⟨owner, isOwner, rest⟩ := exceptBind_eq_ok.mp resolved
  obtain ⟨found, isFound, rest⟩ := exceptBind_eq_ok.mp rest
  obtain ⟨otherOwner, isOtherOwner, otherRest⟩ := exceptBind_eq_ok.mp otherResolved
  obtain ⟨otherFound, isOtherFound, otherRest⟩ := exceptBind_eq_ok.mp otherRest
  obtain rfl := Except.ok.inj (isOwner.symm.trans isOtherOwner)
  obtain rfl := Except.ok.inj (isFound.symm.trans isOtherFound)
  split at rest
  · cases rest
  split at otherRest
  · cases otherRest
  exact otherRest.symm.trans rest

theorem writeThenRead_of_resolves {early reads late : List BufferRegion}
    (passes : ∀ stage, checks task stage = true)
    (earlyResolve : ∀ region ∈ early, Resolves memory task region)
    (readsResolve : ∀ region ∈ reads, Resolves memory task region)
    (lateResolve : ∀ region ∈ late, Resolves memory task region)
    (separate : ∀ written ∈ early, ∀ region ∈ reads, ∀ space byte,
      ¬ (touches memory task written space byte = true ∧
        touches memory task region space byte = true))
    (stage : Nat) :
    (do
        let memory ← writeAll task memory early
        readAll checks memory task stage reads
        writeAll task memory late) =
      access memory task reads (early ++ late) := by
  have stillResolve : ∀ region ∈ reads, Resolves (marked memory task early) task region :=
    readsResolve
  have lateStillResolve : ∀ region ∈ late, Resolves (marked memory task early) task region :=
    lateResolve
  have sameReadable : reads.all (readable (marked memory task early) task) =
      reads.all (readable memory task) := by
    rw [Bool.eq_iff_iff, List.all_eq_true, List.all_eq_true]
    refine forall_congr' fun region => forall_congr' fun member => ?_
    rw [readable_marked fun written inEarly => separate written inEarly region member]
  rw [writeAll_of_resolves earlyResolve]
  simp only [bind, Except.bind]
  rw [readAll_of_resolves passes stillResolve, sameReadable,
    writeAll_of_resolves lateStillResolve, marked_marked]
  rfl

theorem Agreeing.writeThenRead (agreeing : Agreeing checks memory task)
    (notAtomic : isAtomic task.operation = false) {early late : List BufferRegion}
    (areEarly : ∀ region ∈ early, region ∈ earlyWrites task)
    (sameReads : ∀ region, region ∈ reads ↔ region ∈ sourceRegions task)
    (sameWrites : ∀ region, region ∈ early ++ late ↔ region ∈ destinationRegions task)
    (stage : Nat) :
    (do
        let memory ← writeAll task memory early
        readAll checks memory task stage reads
        writeAll task memory late) =
      Poison.accessMetadata memory task := by
  have writesResolve : ∀ region ∈ early ++ late, Resolves memory task region :=
    fun region member => agreeing.destination_resolves region ((sameWrites region).mp member)
  rw [agreeing.accessMetadata notAtomic, writeThenRead_of_resolves agreeing.passes
    (fun region member => writesResolve region (List.mem_append_left _ member))
    (fun region member => agreeing.source_resolves region ((sameReads region).mp member))
    (fun region member => writesResolve region (List.mem_append_right _ member))
    (fun written inEarly region member =>
      agreeing.separate written (areEarly written inEarly) region ((sameReads region).mp member))]
  exact access_congr sameReads sameWrites

/-- A copy behaves the same in both modes. -/
theorem copy_eq {form : CopyForm} {source : BufferRegion} (isSource : task.src = some source)
    (named : CopyDestinations form task.dstRegions task.dst)
    (passes : ∀ stage, checks task stage = true) :
    copy checks memory task form = (do
      let memory ← writeAll task memory task.padDst.toList
      readAll checks memory task 1 (task.srcRegions.getD [source])
      writeAll task memory (task.dstRegions.getD task.dst.toList)) := by
  unfold copy
  rw [isSource, check_of_passes passes]
  cases destinationsAre : task.dstRegions with
  | none =>
    rw [destinationsAre] at named
    obtain ⟨destination, isDestination⟩ := Option.isSome_iff_exists.mp named
    rw [isDestination]
    cases form <;> rfl
  | some destinations =>
    rw [destinationsAre] at named
    match destinations, named with
    | [_], _ =>
      cases form <;> rfl
    | _ :: _ :: _, isBanded =>
      obtain rfl : form = .banded := isBanded
      rfl

section

variable (passes : ∀ stage, checks task stage = true)
include passes

theorem readAll_singleton (resolves : Resolves memory task region) (stage : Nat) :
    readAll checks memory task stage [region] = report (readable memory task region) := by
  rw [readAll_of_resolves passes (fun other member => (List.mem_singleton.mp member) ▸ resolves),
    List.all_cons, List.all_nil, Bool.and_true]

theorem brcb_eq (isSource : task.src = some source)
    (isDestination : task.dst = some destination) (someRepeat : repeats ≠ 0)
    (blocksAre : brcbBlocks destination repeats blkStride repStride = .ok blocks)
    (sourceResolves : Resolves memory task source)
    (blocksResolve : ∀ block ∈ blocks, Resolves memory task block) :
    brcb checks memory task repeats blkStride repStride = access memory task [source] blocks := by
  simp only [brcb, isSource, isDestination, operand, check_of_passes passes, bind, Except.bind,
    if_neg someRepeat, readAll_singleton passes sourceResolves, blocksAre,
    writeAll_of_resolves blocksResolve, access, List.all_cons, List.all_nil, Bool.and_true]
  cases readable memory task source <;> rfl

theorem rowExpandBinop_eq {scalar : BufferRegion} (isSource : task.src = some source)
    (isScalar : task.scalarSrc = some scalar) (isDestination : task.dst = some destination)
    (scalarResolves : Resolves memory task scalar)
    (rest :
      (do
          let memory ← writeAll task memory task.scratch.toList
          readAll checks memory task 2 [source]
          writeAll task memory [destination]) =
        access memory task [source] (task.scratch.toList ++ [destination])) :
    rowExpandBinop checks memory task =
      access memory task [scalar, source] (task.scratch.toList ++ [destination]) := by
  have unfolded : rowExpandBinop checks memory task = (do
      readAll checks memory task 1 [scalar]
      access memory task [source] (task.scratch.toList ++ [destination])) := by
    rw [← rest]
    simp only [rowExpandBinop, isSource, isScalar, isDestination, operand, check_of_passes passes]
    rfl
  rw [unfolded, readAll_singleton passes scalarResolves]
  simp only [access, List.all_cons, List.all_nil, Bool.and_true]
  cases readable memory task scalar <;> rfl

theorem initSortBuf_eq {covered : Nat} {result : Except Failure MemoryRuntime}
    (isDestination : task.dst = some destination) (someBlock : covered ≠ 0)
    (sameShape : destination.shape = [covered])
    (written : writeAll task memory [destination] = result) :
    initSortBuf checks memory task covered = result := by
  simp only [initSortBuf, isDestination, operand, check_of_passes passes, bind, Except.bind,
    if_neg someBlock, reshaped_self sameShape, written]

/-- A reduction is the access of what it reads and of its destination. -/
theorem reduce_eq {clear : Bool} (isSource : task.src = some source)
    (isDestination : task.dst = some destination) (nonempty : someExtents source = .ok true)
    (isAccumulator : task.accumulator.isSome = !clear)
    (readsResolve : ∀ region ∈ source :: task.accumulator.toList, Resolves memory task region)
    (destinationResolves : Resolves memory task destination) :
    reduce checks memory task clear =
      access memory task (source :: task.accumulator.toList) [destination] := by
  have written := @writeAll_of_resolves memory task [destination]
    (fun region member => (List.mem_singleton.mp member) ▸ destinationResolves)
  have accumulatorRead := readAll_of_resolves passes
    (fun region member => readsResolve region (List.mem_cons_of_mem _ member)) 2
  have unfolded : reduce checks memory task clear = (do
      report (readable memory task source)
      readAll checks memory task 2 task.accumulator.toList
      writeAll task memory [destination]) := by
    simp only [reduce, isSource, isDestination, operand, bind, Except.bind,
      readAll_singleton passes (readsResolve source List.mem_cons_self)]
    cases readable memory task source with
    | false => rfl
    | true =>
      simp only [report, nonempty, check_of_passes passes]
      cases clear with
      | true =>
        have noAccumulator : task.accumulator = none := by simpa using isAccumulator
        rw [noAccumulator]
        rfl
      | false =>
        obtain ⟨accumulator, accumulatorIs⟩ := Option.isSome_iff_exists.mp isAccumulator
        rw [accumulatorIs]
        rfl
  rw [unfolded, accumulatorRead, written]
  simp only [access, List.all_cons]
  cases readable memory task source <;> rfl

end

theorem accessMetadata_atomic (atomic : isAtomic task.operation = true)
    (sourcesAre : ∀ region, region ∈ sourceRegions task ↔
      region = source ∨ region ∈ task.accumulator)
    (destinationsAre : destinationRegions task = [destination])
    (noPad : task.padDst = none)
    (sameAccumulator : ∀ region ∈ task.accumulator, region = destination)
    (sourceResolves : Resolves memory task source)
    (destinationResolves : Resolves memory task destination) :
    accessMetadata memory task = access memory task [source, destination] [destination] := by
  have readsAre : ∀ region, region ∈ syncOnlyReads task ↔ region ∈ [source, destination] := by
    intro region
    unfold syncOnlyReads
    rw [if_pos atomic, destinationsAre, noPad]
    simp only [List.mem_append, List.mem_filter, List.mem_cons, List.not_mem_nil, or_false,
      decide_eq_true_eq]
    constructor
    · rintro (isSource | ⟨rfl, _⟩)
      · obtain rfl | isAccumulator := (sourcesAre region).mp isSource
        · exact .inl rfl
        · exact .inr (sameAccumulator region isAccumulator)
      · exact .inr rfl
    · rintro (rfl | rfl)
      · exact .inl ((sourcesAre _).mpr (.inl rfl))
      · by_cases already : region ∈ sourceRegions task
        · exact .inl already
        · exact .inr ⟨rfl, already, by simp⟩
  have bothResolve : ∀ region ∈ [source, destination], Resolves memory task region := by
    intro region member
    obtain rfl | rfl : region = source ∨ region = destination := by simpa using member
    · exact sourceResolves
    · exact destinationResolves
  rw [accessMetadata_of_resolves
    (fun region member => bothResolve region ((readsAre region).mp member))
    (fun region member => bothResolve region
      (by rw [destinationsAre] at member; exact List.mem_cons_of_mem _ member)), destinationsAre]
  exact access_congr readsAre (fun _ => Iff.rfl)

/-- An agreeing task has the same outcome and bitmaps in both modes. -/
theorem executeSyncOnly_eq_executeFunctional (agreeing : Agreeing checks memory task) :
    executeSyncOnly checks memory task = executeFunctional checks memory task := by
  obtain ⟨operands, coreId, lane, operation⟩ := task
  have regular := agreeing.regular
  cases regular with
  | @bufferStore loads _ localLoads =>
    have loadsResolve : ∀ load ∈ loads, Resolves memory _ load := fun load member =>
      agreeing.resolves load (List.mem_append_right _ member)
    simp only [executeSyncOnly, executeFunctional, bufferStore,
      readScalars_eq localLoads loadsResolve]
  | @copy form source sources destinations destination pad named =>
    rw [executeSyncOnly_generic rfl]
    refine Eq.trans ?_ (@copy_eq checks memory _ form source rfl named agreeing.passes).symm
    exact (agreeing.writeThenRead rfl (fun region member => List.mem_append_left _ member)
      (fun _ => by cases sources <;> simp [sourceRegions])
      (fun _ => by simp [destinationRegions]; tauto) 1).symm
  | @source _ source destination readsSource =>
    obtain ⟨generic, notAtomic⟩ := generic_of_family (.inl readsSource)
    rw [executeSyncOnly_generic generic, executeFunctional_readsSource readsSource]
    exact (agreeing.readThenWrite notAtomic (fun _ => by simp [sourceRegions])
      (fun _ => by simp [destinationRegions])).symm
  | binary named =>
    exact (agreeing.readRightThenWrite rfl (rightOperand_eq named)
      (fun _ => by simp [sourceRegions]) (fun _ => by simp [destinationRegions])).symm
  | compare named =>
    exact (agreeing.readRightThenWrite rfl (rightOperand_eq named)
      (fun _ => by simp [sourceRegions]) (fun _ => by simp [destinationRegions])).symm
  | select named =>
    exact (agreeing.readRightThenWrite rfl (rightOperand_eq named)
      (fun _ => by simp [sourceRegions]; tauto) (fun _ => by simp [destinationRegions])).symm
  | tailCompare named =>
    exact (agreeing.readRightThenWrite rfl (tailRightOperand_eq named)
      (fun _ => by simp [sourceRegions]) (fun _ => by simp [destinationRegions])).symm
  | tailSelect named =>
    exact (agreeing.readRightThenWrite rfl (tailRightOperand_eq named)
      (fun _ => by simp [sourceRegions]; tauto) (fun _ => by simp [destinationRegions])).symm
  | bitwiseBinary =>
    exact (agreeing.readThenWrite rfl (fun _ => by simp [sourceRegions])
      (fun _ => by simp [destinationRegions])).symm
  | axpy =>
    exact (agreeing.readThenWrite rfl (fun _ => by simp [sourceRegions])
      (fun _ => by simp [destinationRegions])).symm
  | mulAddDst =>
    exact (agreeing.readThenWrite rfl (fun _ => by simp [sourceRegions])
      (fun _ => by simp [destinationRegions])).symm
  | mma named =>
    exact (agreeing.readRightThenWrite rfl (productAddend_eq named)
      (fun _ => by simp [sourceRegions]; tauto) (fun _ => by simp [destinationRegions])).symm
  | gemmV0 named =>
    exact (agreeing.readRightThenWrite rfl (productAddend_eq named)
      (fun _ => by simp [sourceRegions]) (fun _ => by simp [destinationRegions])).symm
  | fill =>
    exact (agreeing.readThenWrite rfl (fun _ => by simp [sourceRegions])
      (fun _ => by simp [destinationRegions])).symm
  | sequence =>
    exact (agreeing.readThenWrite rfl (fun _ => by simp [sourceRegions])
      (fun _ => by simp [destinationRegions])).symm
  | gathers gathers =>
    obtain ⟨generic, notAtomic⟩ := generic_of_family (.inr (.inl gathers))
    rw [executeSyncOnly_generic generic, executeFunctional_gathers gathers]
    exact (agreeing.readThenWrite notAtomic (fun _ => by simp [sourceRegions])
      (fun _ => by simp [destinationRegions])).symm
  | @gatherMask custom source destination offsets isCustom =>
    have offsetsAre : (if custom then do return [← operand offsets] else .ok []) =
        (.ok offsets.toList : Except Failure (List BufferRegion)) := by
      subst isCustom
      cases offsets <;> rfl
    exact (agreeing.readRightThenWrite rfl offsetsAre (fun _ => by simp [sourceRegions])
      (fun _ => by simp [destinationRegions])).symm
  | reinterpretcast => rfl
  | mergeSort =>
    exact (agreeing.readThenWrite rfl (fun _ => by simp [sourceRegions])
      (fun _ => by simp [destinationRegions])).symm
  | updates updates =>
    obtain ⟨generic, notAtomic⟩ := generic_of_family (.inr (.inr updates))
    rw [executeSyncOnly_generic generic, executeFunctional_updates (.inl updates)]
    exact (agreeing.readThenWrite notAtomic (fun _ => by simp [sourceRegions])
      (fun _ => by simp [destinationRegions])).symm
  | @brcb repeats blkStride repStride source destination blocks someRepeat blocksAre sameBytes =>
    have sourceResolves := agreeing.source_resolves source (by simp [sourceRegions])
    obtain ⟨allocation, resolved⟩ :=
      agreeing.destination_resolves destination (by simp [destinationRegions])
    have blocksResolve : ∀ block ∈ blocks, Resolves memory _ block := fun block member =>
      agreeing.resolves block (List.mem_append_right _ (by
        simp only [blocksAre]
        exact member))
    have sameMarks := marked_of_bytes resolved
      (fun block member => resolve_of_buffer (brcbBlocks_buffer blocksAre member) resolved
        (blocksResolve block member)) sameBytes
    rw [executeSyncOnly_generic rfl, agreeing.accessMetadata rfl]
    refine Eq.trans ?_ (brcb_eq agreeing.passes rfl rfl someRepeat blocksAre sourceResolves
      blocksResolve).symm
    simp only [access, sameMarks]
    rfl
  | @rowExpand source scalar destination scratch =>
    have scalarResolves := agreeing.source_resolves scalar (by simp [sourceRegions])
    have rest := @writeThenRead_of_resolves checks memory _ scratch.toList [source] [destination]
      agreeing.passes
      (fun region member => agreeing.destination_resolves region (by
        rw [destinationRegions]
        exact List.mem_append_left _ (List.mem_append_right _ member)))
      (fun region member => agreeing.source_resolves region (by
        simp [sourceRegions, List.mem_singleton.mp member]))
      (fun region member => agreeing.destination_resolves region (by
        simp [destinationRegions, List.mem_singleton.mp member]))
      (fun written inEarly region member => agreeing.separate written
        (List.mem_append_right _ inEarly) region (by
          simp [sourceRegions, List.mem_singleton.mp member])) 2
    rw [executeSyncOnly_generic rfl, agreeing.accessMetadata rfl]
    refine Eq.trans (access_congr ?_ ?_)
      (rowExpandBinop_eq agreeing.passes rfl rfl rfl scalarResolves rest).symm
    · intro region
      simp [sourceRegions]
      tauto
    · intro region
      simp [destinationRegions]
      tauto
  | @initSortBuf covered destination someBlock sameShape =>
    have written := @writeAll_of_resolves memory _ [destination]
      (fun region member => agreeing.destination_resolves region
        (by simpa [destinationRegions] using member))
    rw [executeSyncOnly_generic rfl, agreeing.accessMetadata rfl]
    exact Eq.trans rfl (initSortBuf_eq agreeing.passes rfl someBlock sameShape written).symm
  | @atomic _ source destination accumulator atomic sameAccumulator =>
    have generic : operation.generic = true := by
      cases operation <;> first | rfl | cases atomic
    have sourceResolves := agreeing.source_resolves source (by simp [sourceRegions])
    have destinationResolves :=
      agreeing.destination_resolves destination (by simp [destinationRegions])
    rw [executeSyncOnly_generic generic, executeFunctional_updates (.inr atomic),
      accessMetadata_atomic atomic (fun region => by simp [sourceRegions, eq_comm])
        (by simp [destinationRegions]) rfl sameAccumulator sourceResolves destinationResolves]
    refine (readThenWrite_of_resolves agreeing.passes ?_ ?_).symm
    · intro region member
      obtain rfl | rfl : region = source ∨ region = destination := by simpa using member
      · exact sourceResolves
      · exact destinationResolves
    · intro region member
      exact (List.mem_singleton.mp member) ▸ destinationResolves
  | @reduce clear source destination accumulator nonempty isAccumulator =>
    rw [executeSyncOnly_generic rfl, agreeing.accessMetadata rfl]
    refine Eq.trans (access_congr ?_ ?_) (reduce_eq agreeing.passes rfl rfl nonempty
      isAccumulator ?_ (agreeing.destination_resolves _ (by simp [destinationRegions]))).symm
    · intro region
      simp [sourceRegions]
    · intro region
      simp [destinationRegions]
    · intro region member
      exact agreeing.source_resolves region (by simpa [sourceRegions] using member)

end Tasks

/-! ## Runs -/

/-- Every task of a run that accesses memory agrees in the state in which it is executed. -/
def AgreeingRun
    (checks : TensorTask → Nat → Bool)
    (memory : MemoryRuntime) :
    List TensorTask → Prop
  | [] => True
  | task :: rest =>
    (task.operation.idle = true ∨ Agreeing checks memory task) ∧
      ∀ next, executeFunctional checks memory task = .ok next → AgreeingRun checks next rest

/-- The initialized bytes of an allocation. -/
def MemoryRuntime.bitmap (memory : MemoryRuntime) (allocation : Allocation) : List Bool :=
  (List.range allocation.sizeBytes).map fun byte =>
    memory.initialized allocation.space (allocation.address + byte)

section Runs

variable {checks : TensorTask → Nat → Bool} {memory : MemoryRuntime}

theorem executeSyncOnly_of_idle {task : TensorTask} (idle : task.operation.idle = true) :
    executeSyncOnly checks memory task = executeFunctional checks memory task := by
  unfold executeSyncOnly executeFunctional
  cases kind : task.operation <;> rw [kind] at idle <;> first | rfl | cases idle

/-- So does a run of agreeing tasks. -/
theorem executeFrom_agrees {tasks : List TensorTask}
    (agreeing : AgreeingRun checks memory tasks) (position : Nat) :
    executeFrom .syncOnly checks position memory tasks =
      executeFrom .functional checks position memory tasks := by
  induction tasks generalizing memory position with
  | nil => rfl
  | cons task rest ih =>
    obtain ⟨first, later⟩ := agreeing
    have sameStep : executeSyncOnly checks memory task = executeFunctional checks memory task := by
      obtain idle | agrees := first
      · exact executeSyncOnly_of_idle idle
      · exact executeSyncOnly_eq_executeFunctional agrees
    simp only [executeFrom, execute, sameStep]
    cases executed : executeFunctional checks memory task with
    | error failure => rfl
    | ok next => exact ih (later next executed) (position + 1)

/--
In a run of agreeing tasks both modes report uninitialized memory at the same task, and if both
finish every allocation has the same initialized bytes.
-/
theorem syncOnly_agrees_functional
    {tasks : List TensorTask}
    (agreeing : AgreeingRun checks memory tasks) :
    (∀ position,
        executeFrom .syncOnly checks 0 memory tasks = .error (position, .uninitialized) ↔
          executeFrom .functional checks 0 memory tasks = .error (position, .uninitialized)) ∧
      ∀ syncOnly functional,
        executeFrom .syncOnly checks 0 memory tasks = .ok syncOnly →
          executeFrom .functional checks 0 memory tasks = .ok functional →
            ∀ scope owner name,
              (syncOnly.allocations scope owner name).map syncOnly.bitmap =
                (functional.allocations scope owner name).map functional.bitmap := by
  have same := executeFrom_agrees agreeing 0
  refine ⟨fun position => by rw [same], ?_⟩
  intro syncOnly functional syncOnlyIs functionalIs scope owner name
  rw [same, functionalIs] at syncOnlyIs
  rw [Except.ok.inj syncOnlyIs]

/-- Two buffers of 32 and 8 bytes in the local memory of one core, the first initialized. -/
def twoBuffers : MemoryRuntime where
  coreIds := [0]
  allocations := fun scope owner name =>
    if scope = .ub ∧ owner = some 0 ∧ name = "source" then
      some ⟨(.ub, some 0), 0, 32⟩
    else if scope = .ub ∧ owner = some 0 ∧ name = "destination" then
      some ⟨(.ub, some 0), 32, 8⟩
    else
      none
  initialized := fun space byte => space = (.ub, some 0) && decide (byte < 32)

/-- A region of the first buffer. -/
def sourceRegion (shape : List Nat) : BufferRegion where
  buffer := "source"
  scope := .ub
  shape := shape
  dtype := .numeric 16 1 wholeBytes_16
  stridesRank := by simp

/-- A region of the second buffer. -/
def destinationRegion (shape : List Nat) : BufferRegion where
  buffer := "destination"
  scope := .ub
  shape := shape
  dtype := .numeric 16 1 wholeBytes_16
  stridesRank := by simp

/-- A task from the first to the second buffer. -/
def bufferTask
    (operation : TensorOperation)
    (sourceShape destinationShape : List Nat) :
    TensorTask where
  src := some (sourceRegion sourceShape)
  dst := some (destinationRegion destinationShape)
  coreId := 0
  lane := .vector0
  operation := operation

/-- An element-wise task into the second buffer, and one that reads what it wrote. -/
def writeThenRead : List TensorTask :=
  [bufferTask .unary [4] [4],
    { bufferTask .unary [4] [4] with
      src := some (destinationRegion [4])
      dst := some (sourceRegion [2]) }]

/-- Both modes agree on a task that reads what another one wrote. -/
theorem writeThenRead_agrees :
    (∀ position,
        executeFrom .syncOnly (fun _ _ => true) 0 twoBuffers writeThenRead =
            .error (position, .uninitialized) ↔
          executeFrom .functional (fun _ _ => true) 0 twoBuffers writeThenRead =
            .error (position, .uninitialized)) ∧
      ∀ syncOnly functional,
        executeFrom .syncOnly (fun _ _ => true) 0 twoBuffers writeThenRead = .ok syncOnly →
          executeFrom .functional (fun _ _ => true) 0 twoBuffers writeThenRead = .ok functional →
            ∀ scope owner name,
              (syncOnly.allocations scope owner name).map syncOnly.bitmap =
                (functional.allocations scope owner name).map functional.bitmap := by
  refine syncOnly_agrees_functional ⟨.inr ⟨.source rfl, fun _ => rfl, ?_, ?_⟩, ?_⟩
  · intro region member
    obtain rfl | rfl : region = sourceRegion [4] ∨ region = destinationRegion [4] := by
      simpa [accessed, sourceRegions, destinationRegions, bufferTask] using member
    · exact ⟨⟨(.ub, some 0), 0, 32⟩, by decide +kernel⟩
    · exact ⟨⟨(.ub, some 0), 32, 8⟩, by decide +kernel⟩
  · intro early member
    simp [earlyWrites, bufferTask] at member
  · intro next executed
    have resolvable :
        (executeFunctional (fun _ _ => true) twoBuffers (bufferTask .unary [4] [4])).map
            (fun next =>
              (next.resolve (bufferTask .unary [4] [4]) (destinationRegion [4]),
                next.resolve (bufferTask .unary [4] [4]) (sourceRegion [2]))) =
          .ok (.ok ⟨(.ub, some 0), 32, 8⟩, .ok ⟨(.ub, some 0), 0, 32⟩) := by
      decide +kernel
    rw [executed] at resolvable
    obtain ⟨sourceIs, destinationIs⟩ := Prod.mk.inj (Except.ok.inj resolvable)
    refine ⟨.inr ⟨.source rfl, fun _ => rfl, ?_, ?_⟩, fun _ _ => trivial⟩
    · intro region member
      obtain rfl | rfl : region = destinationRegion [4] ∨ region = sourceRegion [2] := by
        simpa [accessed, sourceRegions, destinationRegions, bufferTask] using member
      · exact ⟨_, sourceIs⟩
      · exact ⟨_, destinationIs⟩
    · intro early member
      simp [earlyWrites, bufferTask] at member

theorem executeSyncOnly_bufferTask {operation : TensorOperation}
    {sourceShape destinationShape : List Nat} (generic : operation.generic = true)
    (notAtomic : isAtomic operation = false)
    (sourceResolves :
      Resolves twoBuffers (bufferTask operation sourceShape destinationShape)
        (sourceRegion sourceShape))
    (destinationResolves :
      Resolves twoBuffers (bufferTask operation sourceShape destinationShape)
        (destinationRegion destinationShape)) :
    executeSyncOnly checks twoBuffers (bufferTask operation sourceShape destinationShape) =
      access twoBuffers (bufferTask operation sourceShape destinationShape)
        [sourceRegion sourceShape] [destinationRegion destinationShape] := by
  have readsAre : syncOnlyReads (bufferTask operation sourceShape destinationShape) =
      [sourceRegion sourceShape] := by
    unfold syncOnlyReads
    rw [show isAtomic (bufferTask operation sourceShape destinationShape).operation = false from
      notAtomic]
    rfl
  rw [executeSyncOnly_generic generic, accessMetadata_of_resolves, readsAre]
  · rfl
  · intro region member
    rw [readsAre] at member
    exact (List.mem_singleton.mp member) ▸ sourceResolves
  · intro region member
    exact (List.mem_singleton.mp member) ▸ destinationResolves

/--
A partial reduction into a fresh destination is reported in functional mode only, and a reduction
of no rows initializes its destination in sync-only mode only.
-/
theorem partialReduction_disagrees :
    ((executeFrom .syncOnly (fun _ _ => true) 0 twoBuffers
          [bufferTask .blockReduce [1, 1, 16] [1, 1]]).isOk = true ∧
        (executeFrom .functional (fun _ _ => true) 0 twoBuffers
          [bufferTask .blockReduce [1, 1, 16] [1, 1]]).map (fun _ => ()) =
            .error (0, .uninitialized)) ∧
      (executeFrom .syncOnly (fun _ _ => true) 0 twoBuffers
          [bufferTask (.reduce true) [0, 4] [4]]).toOption.map
            (fun final => final.bitmap ⟨(.ub, some 0), 32, 8⟩) = some (List.replicate 8 true) ∧
        (executeFrom .functional (fun _ _ => true) 0 twoBuffers
          [bufferTask (.reduce true) [0, 4] [4]]).toOption.map
            (fun final => final.bitmap ⟨(.ub, some 0), 32, 8⟩) = some (List.replicate 8 false) := by
  have blockSync := @executeSyncOnly_bufferTask (fun _ _ => true) .blockReduce [1, 1, 16] [1, 1]
    rfl rfl ⟨⟨(.ub, some 0), 0, 32⟩, by decide +kernel⟩ ⟨⟨(.ub, some 0), 32, 8⟩, by decide +kernel⟩
  have reduceSync := @executeSyncOnly_bufferTask (fun _ _ => true) (.reduce true) [0, 4] [4]
    rfl rfl ⟨⟨(.ub, some 0), 0, 32⟩, by decide +kernel⟩ ⟨⟨(.ub, some 0), 32, 8⟩, by decide +kernel⟩
  simp only [executeFrom, execute, blockSync, reduceSync]
  decide +kernel

end Runs

end TilelangAscend.Simulator.Poison
