import TilelangAscend.MemoTables
import TilelangAscend.MemoryHistory
import TilelangAscend.RegionOverlapExact
import TilelangAscend.RuntimeRegions

namespace TilelangAscend.Simulator.Bridge

open MemoTables (memoized Valid Transparent transparent_iff)

/-!
# The caches of the hazard construction

The bridge remembers which history buckets can share bytes with a buffer, and whether two regions
overlap.  New buckets empty the first table and new aliases both, but a buffer that grows to the
capacity of a layout empties neither: an answer that rests on the size of the buffer may then be
out of date.
-/

/-! ## State -/

/-- The two histories of a bridge. -/
inductive HistoryKind where
  | lastWrites
  | lastReads
  deriving Repr, DecidableEq

/-- The key of a history bucket. -/
structure BucketKey where
  lane : Lane
  scope : MemoryScope
  owner : Nat
  buffer : String
  deriving Repr, DecidableEq

/-- A recorded access. -/
structure BucketEntry where
  region : RuntimeRegion
  taskId : String
  lane : Lane
  coreId : Nat
  deriving DecidableEq

/-- The buckets of a history in the order of their creation. -/
abbrev Buckets := List (BucketKey × List BucketEntry)

/-- What a candidate selection depends on: a history, and the lane and allocation of a region. -/
structure CandidateKey where
  history : HistoryKind
  lane : Lane
  scope : MemoryScope
  owner : Nat
  buffer : String
  crossCore : Bool
  deriving Repr, DecidableEq

/-- Two regions that are compared for a core. -/
structure OverlapKey where
  left : RuntimeRegion
  right : RuntimeRegion
  coreId : Nat
  deriving DecidableEq

/-- How a look-up fails. -/
inductive HazardError where
  | keyError
  | indexError
  deriving Repr, DecidableEq

/-- The part of a bridge that the hazard construction reads and writes. -/
structure HazardState where
  buffers : String → Option DeclaredBuffer
  aliases : AliasTable
  lastWrites : Buckets
  lastReads : Buckets
  overlapCache : List (OverlapKey × Bool)
  candidateCache : List (CandidateKey × List BucketKey)

namespace HazardState

/-- The buckets of a history. -/
def history (state : HazardState) : HistoryKind → Buckets
  | .lastWrites => state.lastWrites
  | .lastReads => state.lastReads

/-- Replace the buckets of a history. -/
def setHistory (state : HazardState) (kind : HistoryKind) (buckets : Buckets) : HazardState :=
  match kind with
  | .lastWrites => { state with lastWrites := buckets }
  | .lastReads => { state with lastReads := buckets }

/-- The declarations as the overlap test of concrete regions reads them. -/
def specOf (state : HazardState) (name : String) : BufferSpec :=
  match state.buffers name with
  | some declared => declared.spec
  | none => ⟨[], .bool, none, none⟩

/-- The buffer that a name stands for. -/
def resolved (state : HazardState) (scope : MemoryScope) (owner : Nat) (buffer : String) :
    String :=
  resolveActiveAlias state.aliases scope owner buffer

end HazardState

/-! ## Uncached answers -/

/-- The address ranges of two planned buffers meet. -/
def plannedMeet (left right : DeclaredBuffer) : Bool :=
  match left.address, right.address, left.size, right.size with
  | some leftAddress, some rightAddress, some leftSize, some rightSize =>
    leftAddress < rightAddress + rightSize && rightAddress < leftAddress + leftSize
  | _, _, _, _ => false

/-- The ranges of two buffers at base addresses meet, or are not known. -/
def declaredMeet (bases : Nat × Nat) (left right : DeclaredBuffer) : Bool :=
  match left.size, right.size with
  | some leftSize, some rightSize => bases.1 < bases.2 + rightSize && bases.2 < bases.1 + leftSize
  | _, _ => true

/-- A declaration after a buffer has reserved the capacity of a layout. -/
def growIf (name : String) (requiredBytes : Nat) (other : String)
    (declared : DeclaredBuffer) : DeclaredBuffer :=
  if other = name then declared.reserveLayoutCapacity requiredBytes else declared

namespace HazardState

/-- `_memory_history_key_may_overlap` for a region of a scope, an owner and a buffer. -/
def keyMayOverlap (state : HazardState) (scope : MemoryScope) (owner : Nat)
    (buffer : String) (key : BucketKey) : Except HazardError Bool :=
  if !key.scope.isShared && owner ≠ key.owner then
    .ok false
  else
    let leftBuffer := state.resolved scope owner buffer
    let rightBuffer := state.resolved key.scope key.owner key.buffer
    if leftBuffer = rightBuffer then
      .ok true
    else
      match state.buffers leftBuffer, state.buffers rightBuffer with
      | some left, some right => .ok (plannedMeet left right)
      | _, _ => .error .keyError

/-- A bucket is of the lane and the scope of a selection, and of its owner unless it crosses. -/
def selects (asked : CandidateKey) (key : BucketKey) : Bool :=
  key.lane = asked.lane && key.scope = asked.scope && (asked.crossCore || key.owner = asked.owner)

/-- The candidate keys, computed from the buckets of the history. -/
def candidateKeys (state : HazardState) (asked : CandidateKey) :
    Except HazardError (List BucketKey) :=
  filterExcept
    (fun key =>
      if selects asked key then
        state.keyMayOverlap asked.scope asked.owner asked.buffer key
      else
        .ok false)
    ((state.history asked.history).map Prod.fst)

/-- Base addresses of two buffers; a buffer is compared with itself at address zero. -/
def bases (leftBuffer rightBuffer : String) (left right : DeclaredBuffer) : Option (Nat × Nat) :=
  if leftBuffer = rightBuffer then
    some (0, 0)
  else
    match left.address, right.address with
    | some leftBase, some rightBase => some (leftBase, rightBase)
    | _, _ => none

/-- `_regions_overlap_uncached`. -/
def regionsOverlap (state : HazardState) (asked : OverlapKey) : Except HazardError Bool :=
  let leftOwner := asked.left.owner asked.coreId
  let rightOwner := asked.right.owner asked.coreId
  if asked.left.scope ≠ asked.right.scope then
    .ok false
  else if !asked.left.scope.isShared && leftOwner ≠ rightOwner then
    .ok false
  else
    let leftBuffer := state.resolved asked.left.scope leftOwner asked.left.buffer
    let rightBuffer := state.resolved asked.right.scope rightOwner asked.right.buffer
    match state.buffers leftBuffer, state.buffers rightBuffer with
    | some left, some right =>
      match asked.left.concrete, asked.right.concrete with
      | some leftRegion, some rightRegion =>
        (regionsOverlapUncached state.specOf state.aliases asked.coreId leftRegion
          rightRegion).mapError fun _ => .indexError
      | _, _ =>
        match bases leftBuffer rightBuffer left right with
        | none => .ok false
        | some compared => .ok (declaredMeet compared left right)
    | _, _ => .error .keyError

/-! ## Cached answers -/

/-- The entries of the overlap table before it is emptied. -/
def overlapLimit : Nat := 131072

/-- `_regions_overlap`. -/
def askOverlap (state : HazardState) (asked : OverlapKey) :
    Except HazardError (Bool × HazardState) :=
  (memoized state.regionsOverlap (some overlapLimit) state.overlapCache asked).map fun result =>
    (result.1, { state with overlapCache := result.2 })

/-- `_memory_history_candidate_keys`. -/
def askCandidates (state : HazardState) (asked : CandidateKey) :
    Except HazardError (List BucketKey × HazardState) :=
  (memoized state.candidateKeys none state.candidateCache asked).map fun result =>
    (result.1, { state with candidateCache := result.2 })

/-- Neither table can be noticed. -/
def CachesTransparent (state : HazardState) : Prop :=
  Transparent state.regionsOverlap (some overlapLimit) state.overlapCache ∧
    Transparent state.candidateKeys none state.candidateCache

/-! ## Changes -/

/-- Put an entry into the bucket of a key, which is created if need be. -/
def appendEntry
    (key : BucketKey)
    (entry : BucketEntry) :
    Buckets → Buckets
  | [] => [(key, [entry])]
  | (other, entries) :: rest =>
    if other = key then
      (other, entries ++ [entry]) :: rest
    else
      (other, entries) :: appendEntry key entry rest

/-- `_append_memory_history`. -/
def appendHistory (state : HazardState) (kind : HistoryKind) (key : BucketKey)
    (entry : BucketEntry) : HazardState :=
  let known := key ∈ (state.history kind).map Prod.fst
  { state.setHistory kind (appendEntry key entry (state.history kind)) with
    candidateCache := if known then state.candidateCache else [] }

/-- The entries that a region does not overlap. -/
def pruneEntries
    (region : RuntimeRegion)
    (coreId : Nat) :
    List BucketEntry → HazardState → Except HazardError (List BucketEntry × HazardState)
  | [], state => .ok ([], state)
  | entry :: rest, state => do
      let (overlaps, asked) ← state.askOverlap ⟨region, entry.region, coreId⟩
      let (kept, last) ← pruneEntries region coreId rest asked
      return (if overlaps then kept else entry :: kept, last)

/-- Replace the entries of a bucket. -/
def setEntries (key : BucketKey) (entries : List BucketEntry) (buckets : Buckets) : Buckets :=
  buckets.map fun bucket => if bucket.1 = key then (bucket.1, entries) else bucket

/-- A written region removes the overlapped entries of a bucket. -/
def pruneHistory
    (state : HazardState)
    (kind : HistoryKind)
    (key : BucketKey)
    (region : RuntimeRegion)
    (coreId : Nat) :
    Except HazardError HazardState := do
  match (state.history kind).lookup key with
  | none => return state
  | some entries =>
    let (kept, asked) ← pruneEntries region coreId entries state
    return asked.setHistory kind (setEntries key kept (asked.history kind))

/-- `_reserve_layout_capacity` of a declared buffer. -/
def reserve (state : HazardState) (name : String) (requiredBytes : Nat) :
    Except HazardError HazardState :=
  match state.buffers name with
  | none => .error .keyError
  | some _ =>
    .ok { state with
      buffers := fun other => (state.buffers other).map (growIf name requiredBytes other) }

/-- Declare a buffer, if its name is new. -/
def declare (state : HazardState) (name : String) (declared : DeclaredBuffer) : HazardState :=
  { state with
    buffers := fun other =>
      match state.buffers other with
      | some known => some known
      | none => if other = name then some declared else none }

/-- A `reinterpretcast` makes a name stand for another buffer. -/
def addAlias (state : HazardState) (scope : MemoryScope) (owner : Option Nat)
    (destination source : String) : HazardState :=
  { state with
    aliases := ((scope, owner, destination), source) :: state.aliases
    overlapCache := []
    candidateCache := [] }

end HazardState

/-- What a build does to the part of the bridge. -/
inductive HazardAction where
  | askOverlap (asked : OverlapKey)
  | askCandidates (asked : CandidateKey)
  | append (kind : HistoryKind) (key : BucketKey) (entry : BucketEntry)
  | prune (kind : HistoryKind) (key : BucketKey) (region : RuntimeRegion) (coreId : Nat)
  | reserve (name : String) (requiredBytes : Nat)
  | declare (name : String) (declared : DeclaredBuffer)
  | addAlias (scope : MemoryScope) (owner : Option Nat) (destination source : String)

/-- One step of a build. -/
def HazardState.step
    (state : HazardState) :
    HazardAction → Except HazardError HazardState
  | .askOverlap asked => (state.askOverlap asked).map Prod.snd
  | .askCandidates asked => (state.askCandidates asked).map Prod.snd
  | .append kind key entry => .ok (state.appendHistory kind key entry)
  | .prune kind key region coreId => state.pruneHistory kind key region coreId
  | .reserve name requiredBytes => state.reserve name requiredBytes
  | .declare name declared => .ok (state.declare name declared)
  | .addAlias scope owner destination source => .ok (state.addAlias scope owner destination source)

end TilelangAscend.Simulator.Bridge
