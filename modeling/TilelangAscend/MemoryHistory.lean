import Mathlib.Data.List.Dedup
import Mathlib.Logic.Relation
import TilelangAscend.MemoryRegions
import TilelangAscend.Program

namespace TilelangAscend.Simulator

/-!
# Inferred memory dependencies

The TIR bridge keeps the recent reads and writes of every lane and makes an emitted task depend
on those that it conflicts with.  A write drops the entries that overlap it.  Conflicting tasks
of one core and lane stay connected as long as a write covers every byte of the entries that it
drops: the dropped bytes are then held by the entry of the write, which depends on the dropped
ones.  The buckets of a history are the entries with one lane, scope, owner and buffer, so a
history is kept as the list of its entries.
-/

/-! ## Lists and fallible tests -/

/-- Keep the items that pass a fallible test. -/
def filterExcept
    {ε α : Type}
    (test : α → Except ε Bool) :
    List α → Except ε (List α)
  | [] => .ok []
  | item :: rest =>
    match test item, filterExcept test rest with
    | .error failure, _ => .error failure
    | .ok _, .error failure => .error failure
    | .ok true, .ok kept => .ok (item :: kept)
    | .ok false, .ok kept => .ok kept

/-- Concatenate the results of a fallible function. -/
def flatMapExcept
    {ε α β : Type}
    (expand : α → Except ε (List β)) :
    List α → Except ε (List β)
  | [] => .ok []
  | item :: rest =>
    match expand item, flatMapExcept expand rest with
    | .error failure, _ => .error failure
    | .ok _, .error failure => .error failure
    | .ok first, .ok others => .ok (first ++ others)

variable {ε α : Type} {items : List α}

theorem filterExcept_ok {test : α → Except ε Bool} {kept : List α}
    (filtered : filterExcept test items = .ok kept) :
    (∀ item ∈ items, ∃ outcome, test item = .ok outcome) ∧
      ∀ item, item ∈ kept ↔ item ∈ items ∧ test item = .ok true := by
  induction items generalizing kept with
  | nil =>
    cases filtered
    simp
  | cons first rest ih =>
    simp only [filterExcept] at filtered
    split at filtered
    · cases filtered
    · cases filtered
    · rename_i restKept passes restFiltered
      obtain ⟨tested, members⟩ := ih restFiltered
      cases filtered
      refine ⟨?_, ?_⟩
      · intro item member
        rcases List.mem_cons.mp member with isFirst | inRest
        · exact ⟨true, isFirst ▸ passes⟩
        · exact tested item inRest
      · intro item
        rw [List.mem_cons, List.mem_cons, members]
        constructor
        · rintro (isFirst | ⟨inRest, itemPasses⟩)
          · exact ⟨Or.inl isFirst, isFirst ▸ passes⟩
          · exact ⟨Or.inr inRest, itemPasses⟩
        · rintro ⟨isFirst | inRest, itemPasses⟩
          · exact Or.inl isFirst
          · exact Or.inr ⟨inRest, itemPasses⟩
    · rename_i restKept fails restFiltered
      obtain ⟨tested, members⟩ := ih restFiltered
      cases filtered
      refine ⟨?_, ?_⟩
      · intro item member
        rcases List.mem_cons.mp member with isFirst | inRest
        · exact ⟨false, isFirst ▸ fails⟩
        · exact tested item inRest
      · intro item
        rw [List.mem_cons, members]
        constructor
        · rintro ⟨inRest, itemPasses⟩
          exact ⟨Or.inr inRest, itemPasses⟩
        · rintro ⟨isFirst | inRest, itemPasses⟩
          · rw [isFirst, fails] at itemPasses
            cases itemPasses
          · exact ⟨inRest, itemPasses⟩

theorem flatMapExcept_ok {β : Type} {expand : α → Except ε (List β)} {results : List β}
    (expanded : flatMapExcept expand items = .ok results) {item : α}
    (member : item ∈ items) : ∃ part, expand item = .ok part ∧ part ⊆ results := by
  induction items generalizing results with
  | nil =>
    cases member
  | cons first rest ih =>
    simp only [flatMapExcept] at expanded
    split at expanded
    · cases expanded
    · cases expanded
    · rename_i firstPart others firstExpanded restExpanded
      cases expanded
      rcases List.mem_cons.mp member with isFirst | inRest
      · exact ⟨firstPart, isFirst ▸ firstExpanded, List.subset_append_left _ _⟩
      · obtain ⟨part, partExpanded, within⟩ := ih restExpanded inRest
        exact ⟨part, partExpanded, List.subset_append_of_subset_right _ within⟩

/-! ## Operands -/

/-- Metadata names that hold operand regions. -/
inductive OperandName where
  | srcRegions
  | src
  | lhs
  | rhs
  | mask
  | accumulator
  | scalarSrc
  | offsets
  | bias
  | dst
  | dstRegions
  | padDst
  | scratch
  | outputScratch
  deriving Repr, DecidableEq

/-- What a metadata name holds: nothing of interest, a region or a sequence of regions. -/
inductive OperandValue where
  | absent
  | region (region : BufferRegion)
  | regions (regions : List BufferRegion)
  deriving DecidableEq

namespace OperandValue

/-- The regions of a metadata value. -/
def toRegions : OperandValue → List BufferRegion
  | .absent => []
  | .region operand => [operand]
  | .regions sequence => sequence

/-- Whether a metadata value is a sequence. -/
def isSequence : OperandValue → Bool
  | .regions _ => true
  | _ => false

end OperandValue

/-- `_operand_regions`: the regions under some names; a source sequence replaces `src`. -/
def operandRegions (operands : OperandName → OperandValue) (names : List OperandName) :
    List BufferRegion :=
  names.flatMap fun name =>
    if name = .src && (operands .srcRegions).isSequence then
      []
    else
      (operands name).toRegions

/-- Names of the operands that a task reads. -/
def readOperandNames : List OperandName :=
  [.srcRegions, .src, .lhs, .rhs, .mask, .accumulator, .scalarSrc, .offsets, .bias]

/-- Names of the operands that a task writes. -/
def writeOperandNames : List OperandName :=
  [.dst, .dstRegions, .padDst, .scratch, .outputScratch]

/-! ## Histories -/

/-- A recorded access. -/
structure HistoryEntry where
  region : BufferRegion
  taskId : TaskId
  lane : Lane
  coreId : Nat
  deriving DecidableEq

/-- The owner in the bucket key of an entry. -/
def HistoryEntry.owner (entry : HistoryEntry) : Nat :=
  entry.region.owner entry.coreId

/-- The most recent accesses. -/
structure MemoryHistory where
  lastWrites : List HistoryEntry := []
  lastReads : List HistoryEntry := []
  deriving DecidableEq

section Bridge

variable (buffers : String → BufferSpec) (coreId : Nat) (lane : Lane)

/-- `_memory_history_key_may_overlap`: whether the allocations of two buffers can share bytes. -/
def memoryHistoryKeyMayOverlap (region : BufferRegion) (entry : HistoryEntry) : Bool :=
  if !entry.region.scope.isShared && region.owner coreId ≠ entry.owner then
    false
  else if region.buffer = entry.region.buffer then
    true
  else
    let left := buffers region.buffer
    let right := buffers entry.region.buffer
    match left.address, right.address, bufferSizeBytes left, bufferSizeBytes right with
    | some leftAddress, some rightAddress, some leftSize, some rightSize =>
      leftAddress < rightAddress + rightSize && rightAddress < leftAddress + leftSize
    | _, _, _, _ => false

/-- Whether the bucket of an entry is a candidate for a region. -/
def isCandidate (includeCrossCore : Bool) (region : BufferRegion) (entry : HistoryEntry) : Bool :=
  entry.lane = lane && entry.region.scope = region.scope &&
    (includeCrossCore && region.scope.isShared || entry.owner = region.owner coreId) &&
    memoryHistoryKeyMayOverlap buffers coreId region entry

/-- `_memory_history_candidates`: the entries of the candidate buckets. -/
def memoryHistoryCandidates (includeCrossCore : Bool) (history : List HistoryEntry)
    (region : BufferRegion) : List HistoryEntry :=
  history.filter (isCandidate buffers coreId lane includeCrossCore region)

/-- `_same_on_chip_owner`: accesses of shared scopes are ordered inside one core only. -/
def sameOnChipOwner (region : BufferRegion) (previousCore : Nat) : Bool :=
  if region.scope.isShared then coreId = previousCore else true

/-- Tasks of a history whose entries overlap a region. -/
def overlappingTasks (keepCrossCore : Bool) (history : List HistoryEntry)
    (region : BufferRegion) : Except RegionError (List TaskId) :=
  (filterExcept (fun entry => regionsOverlap buffers coreId region entry.region)
      (memoryHistoryCandidates buffers coreId lane keepCrossCore history region)).map
    fun entries =>
      (entries.filter fun entry =>
        keepCrossCore || sameOnChipOwner coreId region entry.coreId).map HistoryEntry.taskId

/-- Whether an operation stays serialized across cores. -/
def keepsCrossCore (operation : String) : Bool :=
  decide ("atomic_add".toList <:+: operation.toList)

/-- `tuple(sorted(...))` of a set of task identifiers. -/
def sortedTaskIds (taskIds : List TaskId) : List TaskId :=
  taskIds.dedup.mergeSort fun left right => decide (left ≤ right)

/-- `_memory_dependencies`: reads follow writes, writes follow reads and writes. -/
def memoryDependencies (history : MemoryHistory) (operation : String)
    (operands : OperandName → OperandValue) : Except RegionError (List TaskId) :=
  let keepCrossCore := keepsCrossCore operation
  match
    flatMapExcept (overlappingTasks buffers coreId lane keepCrossCore history.lastWrites)
      (operandRegions operands readOperandNames),
    flatMapExcept
      (fun region =>
        flatMapExcept
          (fun entries => overlappingTasks buffers coreId lane keepCrossCore entries region)
          [history.lastWrites, history.lastReads])
      (operandRegions operands writeOperandNames) with
  | .error failure, _ => .error failure
  | .ok _, .error failure => .error failure
  | .ok readAfter, .ok writeAfter => .ok (sortedTaskIds (readAfter ++ writeAfter))

/-- Whether recording a write of a region drops an entry. -/
def drops (region : BufferRegion) (entry : HistoryEntry) : Except RegionError Bool :=
  if isCandidate buffers coreId lane true region entry then
    regionsOverlap buffers coreId region entry.region
  else
    .ok false

/-- The entries of a history that a write does not drop. -/
def pruneHistory (region : BufferRegion) (entries : List HistoryEntry) :
    Except RegionError (List HistoryEntry) :=
  filterExcept (fun entry => (drops buffers coreId lane region entry).map not) entries

/-- The entry of an access. -/
def entryOf (taskId : TaskId) (region : BufferRegion) : HistoryEntry :=
  { region := region, taskId := taskId, lane := lane, coreId := coreId }

/-- Record one written region: drop what overlaps it, then append it. -/
def recordWrite (taskId : TaskId) (history : MemoryHistory) (region : BufferRegion) :
    Except RegionError MemoryHistory :=
  match pruneHistory buffers coreId lane region history.lastWrites,
      pruneHistory buffers coreId lane region history.lastReads with
  | .error failure, _ => .error failure
  | .ok _, .error failure => .error failure
  | .ok writes, .ok reads =>
    .ok { lastWrites := writes ++ [entryOf coreId lane taskId region], lastReads := reads }

/-- Record the written regions of a task in order. -/
def recordWrites
    (taskId : TaskId) :
    MemoryHistory → List BufferRegion → Except RegionError MemoryHistory
  | history, [] => .ok history
  | history, region :: rest =>
    match recordWrite buffers coreId lane taskId history region with
    | .error failure => .error failure
    | .ok next => recordWrites taskId next rest

/-- `_record_memory_accesses`: record the writes of a task, then its reads. -/
def recordMemoryAccesses (taskId : TaskId) (operands : OperandName → OperandValue)
    (history : MemoryHistory) : Except RegionError MemoryHistory :=
  (recordWrites buffers coreId lane taskId history
      (operandRegions operands writeOperandNames)).map fun recorded =>
    { recorded with
      lastReads :=
        recorded.lastReads ++
          (operandRegions operands readOperandNames).map (entryOf coreId lane taskId) }

/-! ## Emission -/

/-- A request to emit a task: its normalized operation, the lane it runs on and its operands. -/
structure EmitRequest where
  operation : String
  lane : Lane
  operands : OperandName → OperandValue

/-- An emitted task as far as its memory accesses are concerned. -/
structure EmittedTask where
  taskId : TaskId
  reads : List BufferRegion
  writes : List BufferRegion
  memoryDependencies : List TaskId
  deriving DecidableEq

/-- The state of the bridge that emission reads and updates. -/
structure BridgeState where
  history : MemoryHistory := {}
  taskCounter : Nat := 0
  deriving DecidableEq

/-- The spelling of a lane in a task identifier. -/
def Lane.value : Lane → String
  | .cube => "cube"
  | .vector0 => "vector0"
  | .vector1 => "vector1"
  | .control => "control"

/-- The identifier of the next task. -/
def nextTaskId (taskLane : Lane) (taskCounter : Nat) : TaskId :=
  "c" ++ toString coreId ++ "-" ++ taskLane.value ++ "-" ++ toString taskCounter

/-- `_emit_task`: infer the memory dependencies of a task, then record its accesses. -/
def emitTask (state : BridgeState) (request : EmitRequest) :
    Except RegionError (EmittedTask × BridgeState) :=
  let taskId := nextTaskId coreId request.lane state.taskCounter
  match memoryDependencies buffers coreId lane state.history request.operation
      request.operands,
    recordMemoryAccesses buffers coreId lane taskId request.operands state.history with
  | .error failure, _ => .error failure
  | .ok _, .error failure => .error failure
  | .ok dependencies, .ok history =>
    .ok
      ({ taskId := taskId
         reads := operandRegions request.operands readOperandNames
         writes := operandRegions request.operands writeOperandNames
         memoryDependencies := dependencies },
        { history := history, taskCounter := state.taskCounter + 1 })

/-- Emit a sequence of tasks on one core and lane. -/
def emitAll :
    BridgeState → List EmitRequest → Except RegionError (List EmittedTask × BridgeState)
  | state, [] => .ok ([], state)
  | state, request :: rest =>
    match emitTask buffers coreId lane state request with
    | .error failure => .error failure
    | .ok (task, next) =>
      match emitAll next rest with
      | .error failure => .error failure
      | .ok (tasks, final) => .ok (task :: tasks, final)

/-! ## Conflicts and connection -/

/-- An emitted task conflicts with a later one: they share a location that one of them writes. -/
def Conflicts (earlier later : EmittedTask) : Prop :=
  ∃ location,
    ((∃ region ∈ earlier.writes, location ∈ region.locations buffers coreId) ∧
        ∃ region ∈ later.reads ++ later.writes, location ∈ region.locations buffers coreId) ∨
      ((∃ region ∈ earlier.reads, location ∈ region.locations buffers coreId) ∧
        ∃ region ∈ later.writes, location ∈ region.locations buffers coreId)

/-- A direct memory dependency between emitted tasks. -/
def DependsOn (tasks : List EmittedTask) (later earlier : TaskId) : Prop :=
  ∃ task ∈ tasks, task.taskId = later ∧ earlier ∈ task.memoryDependencies

/-- Whether a written region covers every location of an entry. -/
def coversEntry (region : BufferRegion) (entry : HistoryEntry) : Bool :=
  (entry.region.locations buffers coreId).all fun location =>
    location ∈ region.locations buffers coreId

/-- Whether each write of a list drops only entries of the core that it covers. -/
def writesCoverDropped
    (taskId : TaskId) :
    MemoryHistory → List BufferRegion → Bool
  | _, [] => true
  | history, region :: rest =>
    ((history.lastWrites ++ history.lastReads).all fun entry =>
        entry.coreId ≠ coreId ||
          (drops buffers coreId lane region entry).toOption ≠ some true ||
          coversEntry buffers coreId region entry) &&
      match recordWrite buffers coreId lane taskId history region with
      | .error _ => true
      | .ok next => writesCoverDropped taskId next rest

/-- Whether every step of an emission covers what it drops. -/
def stepsCoverDropped : BridgeState → List EmitRequest → Bool
  | _, [] => true
  | state, request :: rest =>
    writesCoverDropped buffers coreId lane
        (nextTaskId coreId request.lane state.taskCounter) state.history
        (operandRegions request.operands writeOperandNames) &&
      match emitTask buffers coreId lane state request with
      | .error _ => true
      | .ok (_, next) => stepsCoverDropped next rest

/-- Whether every operand of a request lies inside its buffer. -/
def EmitRequest.insideBuffers (request : EmitRequest) : Bool :=
  (operandRegions request.operands readOperandNames ++
      operandRegions request.operands writeOperandNames).all
    (BufferRegion.insideBuffer buffers)

end Bridge

/-! ## Dependencies are complete for the entries of a history -/

section Complete

variable {buffers : String → BufferSpec} {coreId : Nat} {lane : Lane}

/-- An entry of the emitting core and lane whose region lies inside its buffer. -/
structure OwnEntry
    (buffers : String → BufferSpec)
    (coreId : Nat)
    (lane : Lane)
    (entry : HistoryEntry) :
    Prop where
  lane : entry.lane = lane
  core : entry.coreId = coreId
  inside : entry.region.insideBuffer buffers = true

variable {region : BufferRegion} {entry : HistoryEntry} {location : MemoryLocation}
  {history : MemoryHistory} {operation : String} {operands : OperandName → OperandValue}
  {dependencies : List TaskId}

theorem byte_lt_size {address byte : Nat} (inside : region.insideBuffer buffers = true)
    (planned : (buffers region.buffer).address = some address) (member : byte ∈ region.bytes) :
    ∃ size, bufferSizeBytes (buffers region.buffer) = some size ∧ byte < size := by
  simp only [BufferRegion.insideBuffer, planned] at inside
  cases sized : bufferSizeBytes (buffers region.buffer) with
  | none => simp [sized] at inside
  | some size =>
    simp only [sized, List.all_eq_true, decide_eq_true_eq] at inside
    exact ⟨size, rfl, inside byte member⟩

theorem isCandidate_of_shared (includeCrossCore : Bool) (own : OwnEntry buffers coreId lane entry)
    (inside : region.insideBuffer buffers = true)
    (inRegion : location ∈ region.locations buffers coreId)
    (inEntry : location ∈ entry.region.locations buffers coreId) :
    isCandidate buffers coreId lane includeCrossCore region entry = true := by
  obtain ⟨regionScope, regionOwner⟩ := BufferRegion.scope_owner_of_mem inRegion
  obtain ⟨entryScope, entryOwner⟩ := BufferRegion.scope_owner_of_mem inEntry
  have sameOwner : entry.owner = region.owner coreId := by
    rw [HistoryEntry.owner, own.core, entryOwner, regionOwner]
  have mayOverlap : memoryHistoryKeyMayOverlap buffers coreId region entry = true := by
    obtain ⟨regionBase, entryBase, bases, regionByte, regionMember, entryByte, entryMember,
      sameByte⟩ := BufferRegion.common_byte inRegion inEntry
    unfold memoryHistoryKeyMayOverlap
    simp only [sameOwner, ne_eq, not_true_eq_false, decide_false, Bool.and_false,
      Bool.false_eq_true, ↓reduceIte]
    split
    · rfl
    · rename_i apart
      simp only [comparedBases, apart, ↓reduceIte] at bases
      split at bases
      · rename_i regionPlanned entryPlanned
        cases bases
        obtain ⟨regionSize, regionSized, regionBelow⟩ :=
          byte_lt_size inside regionPlanned regionMember
        obtain ⟨entrySize, entrySized, entryBelow⟩ :=
          byte_lt_size own.inside entryPlanned entryMember
        simp only [regionPlanned, entryPlanned, regionSized, entrySized, Bool.and_eq_true,
          decide_eq_true_eq]
        omega
      · cases bases
  simp [isCandidate, own.lane, entryScope, regionScope, sameOwner, mayOverlap]

theorem mem_overlappingTasks {keepCrossCore : Bool} {history : List HistoryEntry}
    {found : List TaskId}
    (searched : overlappingTasks buffers coreId lane keepCrossCore history region = .ok found)
    (member : entry ∈ history)
    (own : OwnEntry buffers coreId lane entry)
    (inside : region.insideBuffer buffers = true)
    (inRegion : location ∈ region.locations buffers coreId)
    (inEntry : location ∈ entry.region.locations buffers coreId) : entry.taskId ∈ found := by
  unfold overlappingTasks at searched
  cases filtered :
      filterExcept (fun entry => regionsOverlap buffers coreId region entry.region)
        (memoryHistoryCandidates buffers coreId lane keepCrossCore history region) with
  | error failure =>
    rw [filtered] at searched
    cases searched
  | ok entries =>
    rw [filtered] at searched
    cases searched
    obtain ⟨tested, kept⟩ := filterExcept_ok filtered
    have candidate :
        entry ∈ memoryHistoryCandidates buffers coreId lane keepCrossCore history region :=
      List.mem_filter.mpr ⟨member, isCandidate_of_shared keepCrossCore own inside inRegion inEntry⟩
    obtain ⟨overlaps, compared⟩ := tested entry candidate
    rw [regionsOverlap_sound compared inRegion inEntry] at compared
    refine List.mem_map_of_mem (List.mem_filter.mpr ⟨?_, ?_⟩)
    · exact (kept entry).mpr ⟨candidate, compared⟩
    · simp [sameOnChipOwner, own.core]

theorem mem_sortedTaskIds {taskIds : List TaskId} {taskId : TaskId} :
    taskId ∈ sortedTaskIds taskIds ↔ taskId ∈ taskIds := by
  simp [sortedTaskIds]

theorem read_mem_dependencies
    (inferred :
      memoryDependencies buffers coreId lane history operation operands = .ok dependencies)
    (isRead : region ∈ operandRegions operands readOperandNames)
    (member : entry ∈ history.lastWrites)
    (own : OwnEntry buffers coreId lane entry)
    (inside : region.insideBuffer buffers = true)
    (inRegion : location ∈ region.locations buffers coreId)
    (inEntry : location ∈ entry.region.locations buffers coreId) :
    entry.taskId ∈ dependencies := by
  simp only [memoryDependencies] at inferred
  split at inferred
  · cases inferred
  · cases inferred
  · rename_i readAfter writeAfter readsFollow _
    cases inferred
    obtain ⟨found, searched, within⟩ := flatMapExcept_ok readsFollow isRead
    have isFound := mem_overlappingTasks searched member own inside inRegion inEntry
    exact mem_sortedTaskIds.mpr (List.mem_append_left _ (within isFound))

theorem write_mem_dependencies
    (inferred :
      memoryDependencies buffers coreId lane history operation operands = .ok dependencies)
    (isWrite : region ∈ operandRegions operands writeOperandNames)
    (member : entry ∈ history.lastWrites ++ history.lastReads)
    (own : OwnEntry buffers coreId lane entry)
    (inside : region.insideBuffer buffers = true)
    (inRegion : location ∈ region.locations buffers coreId)
    (inEntry : location ∈ entry.region.locations buffers coreId) :
    entry.taskId ∈ dependencies := by
  simp only [memoryDependencies] at inferred
  split at inferred
  · cases inferred
  · cases inferred
  · rename_i readAfter writeAfter _ writesFollow
    cases inferred
    obtain ⟨found, searched, within⟩ := flatMapExcept_ok writesFollow isWrite
    have inHistory : ∃ entries ∈ [history.lastWrites, history.lastReads], entry ∈ entries := by
      rcases List.mem_append.mp member with inWrites | inReads
      · exact ⟨history.lastWrites, List.mem_cons_self, inWrites⟩
      · exact ⟨history.lastReads, List.mem_cons_of_mem _ List.mem_cons_self, inReads⟩
    obtain ⟨entries, isHistory, inEntries⟩ := inHistory
    obtain ⟨part, partSearched, partWithin⟩ := flatMapExcept_ok searched isHistory
    have isFound := mem_overlappingTasks partSearched inEntries own inside inRegion inEntry
    exact mem_sortedTaskIds.mpr (List.mem_append_right _ (within (partWithin isFound)))

end Complete

/-! ## Recording keeps what was accessed -/

section Held

variable {buffers : String → BufferSpec} {coreId : Nat} {lane : Lane}
  {edge : TaskId → TaskId → Prop}

/-- Some own entry holds a location, and its task is or depends on an earlier task. -/
def HeldBy (buffers : String → BufferSpec) (coreId : Nat) (lane : Lane)
    (edge : TaskId → TaskId → Prop) (entries : List HistoryEntry) (earlier : TaskId)
    (location : MemoryLocation) : Prop :=
  ∃ entry ∈ entries,
    OwnEntry buffers coreId lane entry ∧ location ∈ entry.region.locations buffers coreId ∧
      Relation.ReflTransGen edge entry.taskId earlier

variable {region : BufferRegion} {entries kept : List HistoryEntry} {taskId : TaskId}
  {history next : MemoryHistory}

theorem mem_pruneHistory {entry : HistoryEntry}
    (pruned : pruneHistory buffers coreId lane region entries = .ok kept)
    (member : entry ∈ entries) :
    entry ∈ kept ∨ drops buffers coreId lane region entry = .ok true := by
  obtain ⟨tested, members⟩ := filterExcept_ok pruned
  obtain ⟨outcome, evaluated⟩ := tested entry member
  cases dropped : drops buffers coreId lane region entry with
  | error failure =>
    rw [dropped] at evaluated
    cases evaluated
  | ok isDropped =>
    cases isDropped with
    | true => exact Or.inr rfl
    | false => exact Or.inl ((members entry).mpr ⟨member, by rw [dropped]; rfl⟩)

theorem pruneHistory_subset (pruned : pruneHistory buffers coreId lane region entries = .ok kept) :
    kept ⊆ entries :=
  fun _ member => (((filterExcept_ok pruned).2 _).mp member).1

theorem recordWrite_ok
    (recorded : recordWrite buffers coreId lane taskId history region = .ok next) :
    ∃ writes,
      pruneHistory buffers coreId lane region history.lastWrites = .ok writes ∧
        pruneHistory buffers coreId lane region history.lastReads = .ok next.lastReads ∧
        next.lastWrites = writes ++ [entryOf coreId lane taskId region] := by
  unfold recordWrite at recorded
  split at recorded
  · cases recorded
  · cases recorded
  · rename_i writes reads prunedWrites prunedReads
    cases recorded
    exact ⟨writes, prunedWrites, prunedReads, rfl⟩

theorem recordWrite_holds {location : MemoryLocation}
    (recorded : recordWrite buffers coreId lane taskId history region = .ok next)
    (inside : region.insideBuffer buffers = true)
    (member : location ∈ region.locations buffers coreId) :
    HeldBy buffers coreId lane edge next.lastWrites taskId location := by
  obtain ⟨writes, _, _, nextWrites⟩ := recordWrite_ok recorded
  refine ⟨entryOf coreId lane taskId region, ?_, ⟨rfl, rfl, inside⟩, member,
    Relation.ReflTransGen.refl⟩
  rw [nextWrites]
  exact List.mem_append_right _ List.mem_cons_self

/--
Recording a write keeps every location held: an entry that is dropped is covered by the write,
whose task depends on the dropped one.
-/
theorem recordWrite_keeps (earlier : TaskId) (location : MemoryLocation)
    (recorded : recordWrite buffers coreId lane taskId history region = .ok next)
    (inside : region.insideBuffer buffers = true)
    (covers :
      ∀ entry ∈ history.lastWrites ++ history.lastReads, entry.coreId = coreId →
        drops buffers coreId lane region entry = .ok true →
        coversEntry buffers coreId region entry = true)
    (reaches :
      ∀ entry ∈ history.lastWrites ++ history.lastReads, OwnEntry buffers coreId lane entry →
        location ∈ entry.region.locations buffers coreId →
        location ∈ region.locations buffers coreId →
        Relation.ReflTransGen edge taskId entry.taskId) :
    (HeldBy buffers coreId lane edge history.lastWrites earlier location →
        HeldBy buffers coreId lane edge next.lastWrites earlier location) ∧
      (HeldBy buffers coreId lane edge (history.lastWrites ++ history.lastReads) earlier
          location →
        HeldBy buffers coreId lane edge (next.lastWrites ++ next.lastReads) earlier location) := by
  obtain ⟨writes, prunedWrites, prunedReads, nextWrites⟩ := recordWrite_ok recorded
  -- A dropped entry hands its locations over to the new entry.
  have handedOver :
      ∀ entry ∈ history.lastWrites ++ history.lastReads, OwnEntry buffers coreId lane entry →
        location ∈ entry.region.locations buffers coreId →
        Relation.ReflTransGen edge entry.taskId earlier →
        drops buffers coreId lane region entry = .ok true →
        HeldBy buffers coreId lane edge next.lastWrites earlier location := by
    intro entry member own holds leads dropped
    have covered := List.all_eq_true.mp (covers entry member own.core dropped) _ holds
    have inRegion : location ∈ region.locations buffers coreId := of_decide_eq_true covered
    refine ⟨entryOf coreId lane taskId region, ?_, ⟨rfl, rfl, inside⟩, inRegion,
      (reaches entry member own holds inRegion).trans leads⟩
    rw [nextWrites]
    exact List.mem_append_right _ List.mem_cons_self
  constructor
  · rintro ⟨entry, member, own, holds, leads⟩
    rcases mem_pruneHistory prunedWrites member with kept | dropped
    · refine ⟨entry, ?_, own, holds, leads⟩
      rw [nextWrites]
      exact List.mem_append_left _ kept
    · exact handedOver entry (List.mem_append_left _ member) own holds leads dropped
  · rintro ⟨entry, member, own, holds, leads⟩
    rcases List.mem_append.mp member with inWrites | inReads
    · rcases mem_pruneHistory prunedWrites inWrites with kept | dropped
      · refine ⟨entry, List.mem_append_left _ ?_, own, holds, leads⟩
        rw [nextWrites]
        exact List.mem_append_left _ kept
      · obtain ⟨newEntry, newMember, rest⟩ := handedOver entry member own holds leads dropped
        exact ⟨newEntry, List.mem_append_left _ newMember, rest⟩
    · rcases mem_pruneHistory prunedReads inReads with kept | dropped
      · exact ⟨entry, List.mem_append_right _ kept, own, holds, leads⟩
      · obtain ⟨newEntry, newMember, rest⟩ := handedOver entry member own holds leads dropped
        exact ⟨newEntry, List.mem_append_left _ newMember, rest⟩

theorem recordWrites_keeps {writes : List BufferRegion}
    (recorded : recordWrites buffers coreId lane taskId history writes = .ok next)
    (covered : writesCoverDropped buffers coreId lane taskId history writes = true)
    (inside : ∀ region ∈ writes, region.insideBuffer buffers = true)
    (reaches :
      ∀ region ∈ writes,
        ∀ entry ∈ history.lastWrites ++ history.lastReads, OwnEntry buffers coreId lane entry →
          ∀ location, location ∈ entry.region.locations buffers coreId →
            location ∈ region.locations buffers coreId →
            Relation.ReflTransGen edge taskId entry.taskId) :
    (∀ earlier location, HeldBy buffers coreId lane edge history.lastWrites earlier location →
        HeldBy buffers coreId lane edge next.lastWrites earlier location) ∧
      (∀ earlier location,
        HeldBy buffers coreId lane edge (history.lastWrites ++ history.lastReads) earlier location →
        HeldBy buffers coreId lane edge (next.lastWrites ++ next.lastReads) earlier location) ∧
      ∀ region ∈ writes,
        ∀ location ∈ region.locations buffers coreId,
          HeldBy buffers coreId lane edge next.lastWrites taskId location := by
  induction writes generalizing history with
  | nil =>
    cases recorded
    exact ⟨fun _ _ held => held, fun _ _ held => held, by simp⟩
  | cons region rest ih =>
    simp only [recordWrites] at recorded
    simp only [writesCoverDropped] at covered
    cases step : recordWrite buffers coreId lane taskId history region with
    | error failure => simp [step] at recorded
    | ok middle =>
      simp only [step] at recorded covered
      obtain ⟨stepCovered, restCovered⟩ := (Bool.and_eq_true _ _).mp covered
      have regionInside := inside region List.mem_cons_self
      have covers :
          ∀ entry ∈ history.lastWrites ++ history.lastReads, entry.coreId = coreId →
            drops buffers coreId lane region entry = .ok true →
            coversEntry buffers coreId region entry = true := by
        intro entry member core dropped
        have tested := List.all_eq_true.mp stepCovered entry member
        simpa [core, dropped, Except.toOption] using tested
      obtain ⟨writes, prunedWrites, prunedReads, middleWrites⟩ := recordWrite_ok step
      -- The entries after the first write are old ones or the entry of that write.
      have middleReaches :
          ∀ other ∈ rest,
            ∀ entry ∈ middle.lastWrites ++ middle.lastReads, OwnEntry buffers coreId lane entry →
              ∀ location, location ∈ entry.region.locations buffers coreId →
                location ∈ other.locations buffers coreId →
                Relation.ReflTransGen edge taskId entry.taskId := by
        intro other otherMember entry member own location inEntry inOther
        have known : entry ∈ history.lastWrites ++ history.lastReads ∨ entry.taskId = taskId := by
          rcases List.mem_append.mp member with inWrites | inReads
          · rw [middleWrites] at inWrites
            rcases List.mem_append.mp inWrites with old | new
            · exact Or.inl (List.mem_append_left _ (pruneHistory_subset prunedWrites old))
            · rw [List.mem_singleton.mp new]
              exact Or.inr rfl
          · exact Or.inl (List.mem_append_right _ (pruneHistory_subset prunedReads inReads))
        rcases known with old | new
        · exact reaches other (List.mem_cons_of_mem _ otherMember) entry old own location
            inEntry inOther
        · rw [new]
      obtain ⟨keepsWrites, keepsAll, holdsRest⟩ :=
        ih recorded restCovered
          (fun other member => inside other (List.mem_cons_of_mem _ member)) middleReaches
      have stepKeeps := fun earlier location =>
        recordWrite_keeps earlier location step regionInside covers
          (fun entry member own => reaches region List.mem_cons_self entry member own location)
      refine ⟨?_, ?_, ?_⟩
      · intro earlier location held
        exact keepsWrites earlier location ((stepKeeps earlier location).1 held)
      · intro earlier location held
        exact keepsAll earlier location ((stepKeeps earlier location).2 held)
      · intro other member location inOther
        rcases List.mem_cons.mp member with isRegion | inRest
        · rw [isRegion] at inOther
          exact keepsWrites taskId location (recordWrite_holds step regionInside inOther)
        · exact holdsRest other inRest location inOther

end Held

/-! ## Conflicting tasks are connected -/

section Emission

variable {buffers : String → BufferSpec} {coreId : Nat} {lane : Lane}

theorem dependsOn_le_append (tasks : List EmittedTask) (task : EmittedTask) :
    DependsOn tasks ≤ DependsOn (tasks ++ [task]) := by
  rintro later earlier ⟨other, member, isLater, isEarlier⟩
  exact ⟨other, List.mem_append_left _ member, isLater, isEarlier⟩

theorem HeldBy.mono {edge wider : TaskId → TaskId → Prop} (within : edge ≤ wider)
    {entries : List HistoryEntry} {earlier : TaskId} {location : MemoryLocation}
    (held : HeldBy buffers coreId lane edge entries earlier location) :
    HeldBy buffers coreId lane wider entries earlier location := by
  obtain ⟨entry, member, own, holds, leads⟩ := held
  exact ⟨entry, member, own, holds, Relation.ReflTransGen.mono within _ _ leads⟩

/-- The history holds every access of the emitted tasks: writes in the last writes. -/
structure HistoryHolds
    (buffers : String → BufferSpec)
    (coreId : Nat)
    (lane : Lane)
    (tasks : List EmittedTask)
    (history : MemoryHistory) :
    Prop where
  writes :
    ∀ task ∈ tasks, ∀ region ∈ task.writes, ∀ location ∈ region.locations buffers coreId,
      HeldBy buffers coreId lane (DependsOn tasks) history.lastWrites task.taskId location
  reads :
    ∀ task ∈ tasks, ∀ region ∈ task.reads, ∀ location ∈ region.locations buffers coreId,
      HeldBy buffers coreId lane (DependsOn tasks) (history.lastWrites ++ history.lastReads)
        task.taskId location

/-- Conflicting tasks are connected by memory dependencies. -/
def Connected (buffers : String → BufferSpec) (coreId : Nat) (tasks : List EmittedTask) : Prop :=
  tasks.Pairwise fun earlier later =>
    Conflicts buffers coreId earlier later →
      Relation.TransGen (DependsOn tasks) later.taskId earlier.taskId

variable {state next : BridgeState} {request : EmitRequest} {task : EmittedTask}
  {tasks : List EmittedTask}

theorem emitTask_ok (emitted : emitTask buffers coreId lane state request = .ok (task, next)) :
    ∃ recorded,
      task.taskId = nextTaskId coreId request.lane state.taskCounter ∧
        task.reads = operandRegions request.operands readOperandNames ∧
        task.writes = operandRegions request.operands writeOperandNames ∧
        memoryDependencies buffers coreId lane state.history request.operation
          request.operands = .ok task.memoryDependencies ∧
        recordWrites buffers coreId lane task.taskId state.history task.writes = .ok recorded ∧
        next.history.lastWrites = recorded.lastWrites ∧
        next.history.lastReads =
          recorded.lastReads ++ task.reads.map (entryOf coreId lane task.taskId) := by
  simp only [emitTask, recordMemoryAccesses] at emitted
  split at emitted
  · cases emitted
  · cases emitted
  · rename_i dependencies history inferred recorded
    cases emitted
    cases stored :
        recordWrites buffers coreId lane (nextTaskId coreId request.lane state.taskCounter)
          state.history (operandRegions request.operands writeOperandNames) with
    | error failure =>
      rw [stored] at recorded
      cases recorded
    | ok written =>
      rw [stored] at recorded
      cases recorded
      exact ⟨written, rfl, rfl, rfl, inferred, rfl, rfl, rfl⟩

section

variable (holds : HistoryHolds buffers coreId lane tasks state.history)
include holds

theorem HistoryHolds.connects
    (emitted : emitTask buffers coreId lane state request = .ok (task, next))
    (inside : ∀ region ∈ task.reads ++ task.writes, region.insideBuffer buffers = true)
    {earlier : EmittedTask} (member : earlier ∈ tasks)
    (conflicts : Conflicts buffers coreId earlier task) :
    Relation.TransGen (DependsOn (tasks ++ [task])) task.taskId earlier.taskId := by
  obtain ⟨recorded, _, isReads, isWrites, inferred, _⟩ := emitTask_ok emitted
  have wider := dependsOn_le_append tasks task
  have direct :
      ∀ first, first ∈ task.memoryDependencies → DependsOn (tasks ++ [task]) task.taskId first :=
    fun first found => ⟨task, List.mem_append_right _ List.mem_cons_self, rfl, found⟩
  rw [isReads, isWrites] at inside
  obtain ⟨location, ⟨⟨region, isWrite, inEarlier⟩, other, isAccess, inLater⟩ |
    ⟨⟨region, isRead, inEarlier⟩, other, isWrite, inLater⟩⟩ := conflicts
  · obtain ⟨entry, entryMember, own, inEntry, leads⟩ :=
      holds.writes earlier member region isWrite location inEarlier
    rw [isReads, isWrites] at isAccess
    have otherInside := inside other isAccess
    have found : entry.taskId ∈ task.memoryDependencies := by
      rcases List.mem_append.mp isAccess with reads | writes
      · exact read_mem_dependencies inferred reads entryMember own otherInside inLater inEntry
      · exact write_mem_dependencies inferred writes (List.mem_append_left _ entryMember) own
          otherInside inLater inEntry
    exact Relation.TransGen.head' (direct _ found) (Relation.ReflTransGen.mono wider _ _ leads)
  · obtain ⟨entry, entryMember, own, inEntry, leads⟩ :=
      holds.reads earlier member region isRead location inEarlier
    rw [isWrites] at isWrite
    have found :=
      write_mem_dependencies inferred isWrite entryMember own
        (inside other (List.mem_append_right _ isWrite)) inLater inEntry
    exact Relation.TransGen.head' (direct _ found) (Relation.ReflTransGen.mono wider _ _ leads)

theorem HistoryHolds.emit (emitted : emitTask buffers coreId lane state request = .ok (task, next))
    (inside : ∀ region ∈ task.reads ++ task.writes, region.insideBuffer buffers = true)
    (covered :
      writesCoverDropped buffers coreId lane task.taskId state.history task.writes = true) :
    HistoryHolds buffers coreId lane (tasks ++ [task]) next.history := by
  obtain ⟨recorded, _, isReads, isWrites, inferred, written, nextWrites, nextReads⟩ :=
    emitTask_ok emitted
  have wider := dependsOn_le_append tasks task
  have reaches :
      ∀ region ∈ task.writes,
        ∀ entry ∈ state.history.lastWrites ++ state.history.lastReads,
          OwnEntry buffers coreId lane entry →
          ∀ location, location ∈ entry.region.locations buffers coreId →
            location ∈ region.locations buffers coreId →
            Relation.ReflTransGen (DependsOn (tasks ++ [task])) task.taskId entry.taskId := by
    intro region isWrite entry member own location inEntry inRegion
    have regionInside := inside region (List.mem_append_right _ isWrite)
    rw [isWrites] at isWrite
    have found := write_mem_dependencies inferred isWrite member own regionInside inRegion inEntry
    exact Relation.ReflTransGen.single
      ⟨task, List.mem_append_right _ List.mem_cons_self, rfl, found⟩
  obtain ⟨keepsWrites, keepsAll, holdsWrites⟩ :=
    recordWrites_keeps written covered
      (fun region member => inside region (List.mem_append_right _ member)) reaches
  constructor
  · intro other member region isWrite location inRegion
    rw [nextWrites]
    rcases List.mem_append.mp member with old | new
    · exact keepsWrites _ _ ((holds.writes other old region isWrite location inRegion).mono wider)
    · rw [List.mem_singleton.mp new] at isWrite ⊢
      exact holdsWrites region isWrite location inRegion
  · intro other member region isRead location inRegion
    rw [nextWrites, nextReads, ← List.append_assoc]
    rcases List.mem_append.mp member with old | new
    · obtain ⟨entry, entryMember, rest⟩ :=
        keepsAll _ _ ((holds.reads other old region isRead location inRegion).mono wider)
      exact ⟨entry, List.mem_append_left _ entryMember, rest⟩
    · rw [List.mem_singleton.mp new] at isRead ⊢
      have regionInside := inside region (List.mem_append_left _ isRead)
      exact ⟨entryOf coreId lane task.taskId region,
        List.mem_append_right _ (List.mem_map_of_mem isRead), ⟨rfl, rfl, regionInside⟩,
        inRegion, Relation.ReflTransGen.refl⟩

theorem HistoryHolds.connected_emit (connected : Connected buffers coreId tasks)
    (emitted : emitTask buffers coreId lane state request = .ok (task, next))
    (inside : ∀ region ∈ task.reads ++ task.writes, region.insideBuffer buffers = true) :
    Connected buffers coreId (tasks ++ [task]) := by
  refine List.pairwise_append.mpr ⟨?_, List.pairwise_singleton _ _, ?_⟩
  · refine connected.imp ?_
    intro earlier later path conflicts
    exact Relation.TransGen.mono (dependsOn_le_append tasks task) _ _ (path conflicts)
  · intro earlier member later isTask conflicts
    rw [List.mem_singleton.mp isTask] at conflicts ⊢
    exact holds.connects emitted inside member conflicts

end

theorem HistoryHolds.connected_emitAll {done : List EmittedTask} {final : BridgeState}
    {requests : List EmitRequest} (holds : HistoryHolds buffers coreId lane done state.history)
    (connected : Connected buffers coreId done)
    (emitted : emitAll buffers coreId lane state requests = .ok (tasks, final))
    (inside : ∀ request ∈ requests, request.insideBuffers buffers = true)
    (covered : stepsCoverDropped buffers coreId lane state requests = true) :
    Connected buffers coreId (done ++ tasks) := by
  induction requests generalizing done tasks state with
  | nil =>
    cases emitted
    rw [List.append_nil]
    exact connected
  | cons request rest ih =>
    simp only [emitAll] at emitted
    simp only [stepsCoverDropped] at covered
    cases step : emitTask buffers coreId lane state request with
    | error failure => simp [step] at emitted
    | ok outcome =>
      obtain ⟨task, next⟩ := outcome
      simp only [step] at emitted covered
      obtain ⟨stepCovered, restCovered⟩ := (Bool.and_eq_true _ _).mp covered
      cases others : emitAll buffers coreId lane next rest with
      | error failure => simp [others] at emitted
      | ok remaining =>
        obtain ⟨later, last⟩ := remaining
        simp only [others, Except.ok.injEq, Prod.mk.injEq] at emitted
        obtain ⟨rfl, rfl⟩ := emitted
        obtain ⟨_, isId, isReads, isWrites, _⟩ := emitTask_ok step
        have taskInside :
            ∀ region ∈ task.reads ++ task.writes, region.insideBuffer buffers = true := by
          rw [isReads, isWrites]
          exact List.all_eq_true.mp (inside request List.mem_cons_self)
        rw [← isId, ← isWrites] at stepCovered
        have extended :=
          ih (holds.emit step taskInside stepCovered)
            (holds.connected_emit connected step taskInside) others
            (fun other member => inside other (List.mem_cons_of_mem _ member))
            restCovered
        rwa [List.append_assoc, List.singleton_append] at extended

end Emission

/--
For every sequence of tasks emitted on one core and lane, from every state of the bridge:
when each write covers the entries that it drops and operands lie inside their buffers, every
pair of conflicting tasks is connected by memory dependencies.
-/
theorem memory_hazards_connected
    (buffers : String → BufferSpec)
    (coreId : Nat)
    (lane : Lane)
    (start final : BridgeState)
    (requests : List EmitRequest)
    (tasks : List EmittedTask)
    (emitted : emitAll buffers coreId lane start requests = .ok (tasks, final))
    (inside : ∀ request ∈ requests, request.insideBuffers buffers = true)
    (covered : stepsCoverDropped buffers coreId lane start requests = true) :
    tasks.Pairwise fun earlier later =>
      Conflicts buffers coreId earlier later →
        Relation.TransGen (DependsOn tasks) later.taskId earlier.taskId := by
  have holds : HistoryHolds buffers coreId lane [] start.history := by
    constructor <;> simp
  exact holds.connected_emitAll List.Pairwise.nil emitted inside covered

/-- A unified buffer of 16 bytes and an output in global memory. -/
def exampleBuffers (name : String) : BufferSpec :=
  if name = "ub" then
    { shape := [some 16], dtype := .numeric 8 1 wholeBytes_8, address := some 0 }
  else
    { shape := [some 16], dtype := .numeric 8 1 wholeBytes_8 }

/-- Some bytes of a buffer. -/
def byteRange (buffer : String) (scope : MemoryScope) (offset length : Nat) : BufferRegion :=
  { buffer := buffer
    scope := scope
    shape := [length]
    dtype := .numeric 8 1 wholeBytes_8
    byteOffset := offset
    stridesRank := noStrides_rank length }

/-- Fill some bytes of the unified buffer. -/
def fillBytes (offset length : Nat) : EmitRequest where
  operation := "fill"
  lane := .vector0
  operands
    | .dst => .region (byteRange "ub" .ub offset length)
    | _ => .absent

/-- Copy some bytes of the unified buffer to the output. -/
def copyOut (offset length : Nat) : EmitRequest where
  operation := "copy_ub_to_gm"
  lane := .vector0
  operands
    | .src => .region (byteRange "ub" .ub offset length)
    | .dst => .region (byteRange "out" .gm 0 length)
    | _ => .absent

/-- The second fill overwrites a part of the first one; the copy reads another part. -/
def partialOverwrite : List EmitRequest :=
  [fillBytes 0 12, fillBytes 0 4, copyOut 6 2]

/-- The partial overwrite drops the whole first fill, and the copy depends on nothing. -/
theorem partialOverwrite_disconnected :
    (∀ request ∈ partialOverwrite, request.insideBuffers exampleBuffers = true) ∧
      ¬ ∀ (buffers : String → BufferSpec) (coreId : Nat) (lane : Lane)
          (start final : BridgeState) (requests : List EmitRequest)
          (tasks : List EmittedTask),
          emitAll buffers coreId lane start requests = .ok (tasks, final) →
          tasks.Pairwise fun earlier later =>
            Conflicts buffers coreId earlier later →
              Relation.TransGen (DependsOn tasks) later.taskId earlier.taskId := by
  refine ⟨by decide +kernel, ?_⟩
  intro connects
  have observed :
      (emitAll exampleBuffers 0 .vector0 {} partialOverwrite).toOption.map Prod.fst =
        some
          [{ taskId := "c0-vector0-0", reads := []
             writes := [byteRange "ub" .ub 0 12], memoryDependencies := [] },
           { taskId := "c0-vector0-1", reads := []
             writes := [byteRange "ub" .ub 0 4]
             memoryDependencies := ["c0-vector0-0"] },
           { taskId := "c0-vector0-2", reads := [byteRange "ub" .ub 6 2]
             writes := [byteRange "out" .gm 0 2], memoryDependencies := [] }] := by
    decide +kernel
  cases emitted : emitAll exampleBuffers 0 .vector0 {} partialOverwrite with
  | error failure => simp [emitted, Except.toOption] at observed
  | ok outcome =>
    obtain ⟨tasks, final⟩ := outcome
    simp only [emitted, Except.toOption, Option.map_some, Option.some.injEq] at observed
    subst observed
    have pairs := connects exampleBuffers 0 .vector0 {} final partialOverwrite _ emitted
    have firstPairs := (List.pairwise_cons.mp pairs).1
    have path :=
      firstPairs
        { taskId := "c0-vector0-2", reads := [byteRange "ub" .ub 6 2]
          writes := [byteRange "out" .gm 0 2], memoryDependencies := [] }
        (by simp)
        ⟨{ scope := .ub, owner := 0, cell := .planned 6 },
          Or.inl ⟨⟨byteRange "ub" .ub 0 12, by simp, by decide +kernel⟩,
            byteRange "ub" .ub 6 2, by simp, by decide +kernel⟩⟩
    obtain ⟨middle, ⟨task, member, isLater, depends⟩, _⟩ := Relation.TransGen.head'_iff.mp path
    simp only [List.mem_cons, List.not_mem_nil, or_false] at member
    rcases member with rfl | rfl | rfl
    · simp at isLater
    · simp at isLater
    · simp at depends

/-- The second fill overwrites the first one; the copy reads a part of both. -/
def fullOverwrite : List EmitRequest :=
  [fillBytes 0 12, fillBytes 0 16, copyOut 6 2]

/-- A full overwrite covers what it drops, and the copy is connected to both fills. -/
theorem fullOverwrite_connected :
    ∃ tasks final,
      emitAll exampleBuffers 0 .vector0 {} fullOverwrite = .ok (tasks, final) ∧ tasks.length = 3 ∧
        tasks.Pairwise fun earlier later =>
          Conflicts exampleBuffers 0 earlier later →
            Relation.TransGen (DependsOn tasks) later.taskId earlier.taskId := by
  have observed :
      (emitAll exampleBuffers 0 .vector0 {} fullOverwrite).toOption.map
        (fun outcome => outcome.1.length) = some 3 := by
    decide +kernel
  cases emitted : emitAll exampleBuffers 0 .vector0 {} fullOverwrite with
  | error failure => simp [emitted, Except.toOption] at observed
  | ok outcome =>
    obtain ⟨tasks, final⟩ := outcome
    simp only [emitted, Except.toOption, Option.map_some, Option.some.injEq] at observed
    refine ⟨tasks, final, rfl, observed, ?_⟩
    exact memory_hazards_connected exampleBuffers 0 .vector0 {} final fullOverwrite tasks
      emitted (by decide +kernel) (by decide +kernel)

end TilelangAscend.Simulator
