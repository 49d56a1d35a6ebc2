import TilelangAscend.ExceptRules
import TilelangAscend.IntervalLength
import TilelangAscend.LifetimeSweep
import TilelangAscend.ListHistory
import TilelangAscend.MemoryRegions
import TilelangAscend.SyncModel

namespace TilelangAscend.Simulator.Memory

open IntervalCover (points unionLength unionLength_eq_card)
open LifetimeSweep (Lifetime)

/-!
# Live bytes of local memory

`MemoryRuntime.local_memory_live_bytes` reports how many bytes of each local scope are live
whenever an allocation starts or stops being used.  An allocation is an object, which
several names may be bound to, so its lifetime is that of all its names.
-/

/-- An allocation of a local scope: its owner and its place in the memory of the owner. -/
structure LocalAllocation where
  scope : MemoryScope
  coreId : Nat
  start : Nat
  stop : Nat
  ordered : start ≤ stop := by decide
  deriving Repr, DecidableEq

/--
The allocations of a runtime: objects, and the names of each scope and owner that are bound
to them.  The table is arbitrary, so it stands for any sequence of allocations and aliases.
-/
structure AllocationTable where
  coreIds : List Nat
  bindings : MemoryScope → Nat → String → Option Nat
  objects : Nat → LocalAllocation

/-- Ways in which a buffer name cannot be resolved. -/
inductive LookupError where
  | unknownCore (coreId : Nat)
  | unknownAllocation (name : String) (scope : MemoryScope) (owner : Nat)
  deriving Repr, DecidableEq

namespace AllocationTable

variable (table : AllocationTable)

/-- `_vector1_owner_offset`. -/
def vector1OwnerOffset : Nat :=
  match table.coreIds.max? with
  | none => 1
  | some last => last + 1

/-- `_local_owner_ids`. -/
def localOwnerIds : List Nat :=
  table.coreIds ++ table.coreIds.map (table.vector1OwnerOffset + ·)

/-- `vector1_owner`: the owner of the memory of a core's second vector lane. -/
def vector1Owner (coreId : Nat) : Except LookupError Nat :=
  if coreId ∈ table.coreIds then
    .ok (table.vector1OwnerOffset + coreId)
  else
    .error (.unknownCore coreId)

/-- `get` for a local scope: the object that a name is bound to. -/
def get (name : String) (scope : MemoryScope) (owner : Nat) : Except LookupError Nat :=
  if owner ∈ table.localOwnerIds then
    match table.bindings scope owner name with
    | some object => .ok object
    | none => .error (.unknownAllocation name scope owner)
  else
    .error (.unknownCore owner)

end AllocationTable

/-- A metadata value: a region, a container of values or anything else. -/
inductive MetadataValue where
  | region (buffer : String) (scope : MemoryScope)
  | items (values : List MetadataValue)
  | other

mutual

/-- `_buffer_regions`: the regions in a metadata value, as buffer names and scopes. -/
def bufferRegions : MetadataValue → List (String × MemoryScope)
  | .region buffer scope => [(buffer, scope)]
  | .items values => bufferRegionsOfAll values
  | .other => []

/-- The regions in a list of metadata values. -/
def bufferRegionsOfAll : List MetadataValue → List (String × MemoryScope)
  | [] => []
  | value :: rest => bufferRegions value ++ bufferRegionsOfAll rest

end

/-- What the timeline reads of an execution record. -/
structure UseRecord where
  category : RecordCategory := .operation
  coreId : Nat
  lane : Lane
  startCycle : Nat
  endCycle : Nat
  metadata : MetadataValue
  ordered : startCycle ≤ endCycle := by decide

/-- One use of an allocation by an operation. -/
structure MemoryUse where
  object : Nat
  startCycle : Nat
  endCycle : Nat
  deriving Repr, DecidableEq

/-- The owner whose local memory an operation accesses. -/
def UseRecord.owner (record : UseRecord) (table : AllocationTable) : Except LookupError Nat :=
  match record.lane with
  | .vector1 => table.vector1Owner record.coreId
  | _ => .ok record.coreId

/-- The uses of local allocations by one record. -/
def UseRecord.uses (record : UseRecord) (table : AllocationTable) :
    Except LookupError (List MemoryUse) :=
  match record.category with
  | .wait => .ok []
  | .operation => do
      let owner ← record.owner table
      let regions := (bufferRegions record.metadata).filter fun region => !region.2.isShared
      regions.mapM fun region => do
        let object ← table.get region.1 region.2 owner
        pure { object := object, startCycle := record.startCycle, endCycle := record.endCycle }

/-- The uses of local allocations by a list of records. -/
def memoryUses
    (table : AllocationTable)
    (records : List UseRecord) :
    Except LookupError (List MemoryUse) := do
  let uses ← records.mapM fun record => record.uses table
  pure uses.flatten

/-- The table `lifetimes`: the earliest start and the latest end of the uses of each object. -/
def lifetimes (uses : List MemoryUse) : List (Lifetime Nat) :=
  ((uses.map MemoryUse.object).dedup).map fun object =>
    let own := uses.filter fun use => use.object = object
    { key := object
      start := ((own.map MemoryUse.startCycle).min?).getD 0
      stop := ((own.map MemoryUse.endCycle).max?).getD 0 }

/-- `address_range` of an object. -/
def AllocationTable.addressRange (table : AllocationTable) (object : Nat) : Nat × Nat :=
  ((table.objects object).start, (table.objects object).stop)

/-- The entry `ranges[(scope, owner)]` for the active objects. -/
def activeRanges (table : AllocationTable) (active : List Nat) (scope : MemoryScope)
    (owner : Nat) : List (Nat × Nat) :=
  (active.filter fun object =>
    (table.objects object).scope = scope ∧ (table.objects object).coreId = owner).map
      table.addressRange

/-- The owners of active objects of a scope. -/
def activeOwners (table : AllocationTable) (active : List Nat) (scope : MemoryScope) : List Nat :=
  ((active.filter fun object => (table.objects object).scope = scope).map fun object =>
    (table.objects object).coreId).dedup

/-- `by_scope`: for each scope the most bytes that one owner occupies. -/
def bytesByScope (table : AllocationTable) (active : List Nat) : List (MemoryScope × Nat) :=
  ((active.map fun object => (table.objects object).scope).dedup).map fun scope =>
    (scope,
      ((activeOwners table active scope).map fun owner =>
        unionLength (activeRanges table active scope owner)).foldr max 0)

/-- The timeline of the uses of allocations. -/
def timelineOf (table : AllocationTable) (uses : List MemoryUse) :
    List (Nat × List (MemoryScope × Nat)) :=
  (LifetimeSweep.sweep (lifetimes uses)).map fun entry => (entry.1, bytesByScope table entry.2)

/-- `local_memory_live_bytes`: cycles with the live bytes of each scope from there on. -/
def localMemoryLiveBytes
    (table : AllocationTable)
    (records : List UseRecord) :
    Except LookupError (List (Nat × List (MemoryScope × Nat))) := do
  let uses ← memoryUses table records
  pure (timelineOf table uses)

/-! ## What the timeline promises -/

/-- An object whose first use starts at or before a cycle and whose last use ends after it. -/
def LiveAt (uses : List MemoryUse) (cycle object : Nat) : Prop :=
  (∃ first ∈ uses, first.object = object ∧ first.startCycle ≤ cycle) ∧
    ∃ last ∈ uses, last.object = object ∧ cycle < last.endCycle

instance
    (uses : List MemoryUse)
    (cycle object : Nat) :
    Decidable (LiveAt uses cycle object) :=
  inferInstanceAs (Decidable (_ ∧ _))

/-- The bytes of an owner that the live objects of a scope cover. -/
def liveBytes (table : AllocationTable) (uses : List MemoryUse) (scope : MemoryScope)
    (owner cycle : Nat) : Finset Nat :=
  points (activeRanges table
    (((uses.map MemoryUse.object).dedup).filter fun object => LiveAt uses cycle object)
    scope owner)

/-- The value that an entry reports for a scope, 0 without one. -/
def reportedBytes (byScope : List (MemoryScope × Nat)) (scope : MemoryScope) : Nat :=
  (byScope.lookup scope).getD 0

/-- A timeline that reports exactly the live bytes and ends with nothing live. -/
structure TimelineExact
    (table : AllocationTable)
    (uses : List MemoryUse)
    (timeline : List (Nat × List (MemoryScope × Nat))) :
    Prop where
  /-- No owner has more live bytes of a scope than an entry reports. -/
  atLeast :
    ∀ entry ∈ timeline, ∀ scope owner,
      (liveBytes table uses scope owner entry.1).card ≤ reportedBytes entry.2 scope
  /-- Some owner has the reported number of live bytes, unless that is 0. -/
  attained :
    ∀ entry ∈ timeline, ∀ scope,
      reportedBytes entry.2 scope = 0 ∨
        ∃ owner, (liveBytes table uses scope owner entry.1).card = reportedBytes entry.2 scope
  /-- The last entry is empty. -/
  lastEmpty :
    ∀ last, timeline.getLast? = some last → last.2 = []

/-- Every used object is used for at least one cycle. -/
def UsesLast (uses : List MemoryUse) : Prop :=
  ∀ use ∈ uses,
    ∃ first ∈ uses, first.object = use.object ∧
      ∃ last ∈ uses, last.object = use.object ∧ first.startCycle < last.endCycle

instance
    (uses : List MemoryUse) :
    Decidable (UsesLast uses) :=
  inferInstanceAs
    (Decidable
      (∀ use ∈ uses,
        ∃ first ∈ uses, first.object = use.object ∧
          ∃ last ∈ uses, last.object = use.object ∧ first.startCycle < last.endCycle))

end TilelangAscend.Simulator.Memory
