import TilelangAscend.ScalarVectorRuns
import TilelangAscend.SyncInsertSound

namespace TilelangAscend.SyncInsertVS

open SyncInsert

/-!
# Histories of the scalar and vector pass

What the visitor adds to a program and what the entries of its two histories mean: everything
noted on an entry has been executed since its access, and an access that has what it requires
is synchronized with the entry.
-/

/-! ## Sequences with more synchronization -/

/-- A sequence with the same statements and at least the synchronization of another one. -/
inductive Includes : Block → Block → Prop where
  | stop {larger syncs : List SyncUnit} :
      syncs ⊆ larger → Includes (.stop larger) (.stop syncs)
  | operation {larger syncs : List SyncUnit} {op : Operation} {largerRest rest : Block} :
      syncs ⊆ larger →
      Includes largerRest rest →
      Includes (.operation larger op largerRest) (.operation syncs op rest)
  | letStmt {larger syncs : List SyncUnit} {value : Expr}
      {largerBody body largerRest rest : Block} :
      syncs ⊆ larger →
      Includes largerBody body →
      Includes largerRest rest →
      Includes (.letStmt larger value largerBody largerRest) (.letStmt syncs value body rest)
  | ifThenElse {larger syncs : List SyncUnit} {condition : Expr}
      {largerThen thenCase largerElse elseCase largerRest rest : Block} :
      syncs ⊆ larger →
      Includes largerThen thenCase →
      Includes largerElse elseCase →
      Includes largerRest rest →
      Includes (.ifThenElse larger condition largerThen largerElse largerRest)
        (.ifThenElse syncs condition thenCase elseCase rest)
  | forLoop {larger syncs : List SyncUnit} {extent : Expr}
      {largerBody body largerRest rest : Block} :
      syncs ⊆ larger →
      Includes largerBody body →
      Includes largerRest rest →
      Includes (.forLoop larger extent largerBody largerRest) (.forLoop syncs extent body rest)
  | unrolledLoop {larger syncs : List SyncUnit} {extent : Expr}
      {largerFirst first largerSecond second largerRest rest : Block} :
      syncs ⊆ larger →
      Includes largerFirst first →
      Includes largerSecond second →
      Includes largerRest rest →
      Includes (.unrolledLoop larger extent largerFirst largerSecond largerRest)
        (.unrolledLoop syncs extent first second rest)

namespace Includes

theorem refl (block : Block) : Includes block block := by
  induction block with
  | stop syncs => exact .stop (List.Subset.refl syncs)
  | operation syncs op rest restIncludes => exact .operation (List.Subset.refl syncs) restIncludes
  | letStmt syncs value body rest bodyIncludes restIncludes =>
    exact .letStmt (List.Subset.refl syncs) bodyIncludes restIncludes
  | ifThenElse syncs condition thenCase elseCase rest thenIncludes elseIncludes restIncludes =>
    exact .ifThenElse (List.Subset.refl syncs) thenIncludes elseIncludes restIncludes
  | forLoop syncs extent body rest bodyIncludes restIncludes =>
    exact .forLoop (List.Subset.refl syncs) bodyIncludes restIncludes
  | unrolledLoop syncs extent first second rest firstIncludes secondIncludes restIncludes =>
    exact .unrolledLoop (List.Subset.refl syncs) firstIncludes secondIncludes restIncludes

theorem trans {first second third : Block} (includes : Includes first second)
    (next : Includes second third) : Includes first third := by
  induction includes generalizing third with
  | stop subset =>
    cases next with
    | stop nextSubset => exact .stop (List.Subset.trans nextSubset subset)
  | operation subset _ restIncludes =>
    cases next with
    | operation nextSubset restNext =>
      exact .operation (List.Subset.trans nextSubset subset) (restIncludes restNext)
  | letStmt subset _ _ bodyIncludes restIncludes =>
    cases next with
    | letStmt nextSubset bodyNext restNext =>
      exact .letStmt (List.Subset.trans nextSubset subset) (bodyIncludes bodyNext)
        (restIncludes restNext)
  | ifThenElse subset _ _ _ thenIncludes elseIncludes restIncludes =>
    cases next with
    | ifThenElse nextSubset thenNext elseNext restNext =>
      exact .ifThenElse (List.Subset.trans nextSubset subset) (thenIncludes thenNext)
        (elseIncludes elseNext) (restIncludes restNext)
  | forLoop subset _ _ bodyIncludes restIncludes =>
    cases next with
    | forLoop nextSubset bodyNext restNext =>
      exact .forLoop (List.Subset.trans nextSubset subset) (bodyIncludes bodyNext)
        (restIncludes restNext)
  | unrolledLoop subset _ _ _ firstIncludes secondIncludes restIncludes =>
    cases next with
    | unrolledLoop nextSubset firstNext secondNext restNext =>
      exact .unrolledLoop (List.Subset.trans nextSubset subset) (firstIncludes firstNext)
        (secondIncludes secondNext) (restIncludes restNext)

theorem isInert {context : PassContext} {larger smaller : Block}
    (includes : Includes larger smaller) (inert : isInert context larger = true) :
    isInert context smaller = true := by
  induction includes with
  | stop subset =>
    simp only [SyncInsertVS.isInert, List.isEmpty_iff] at inert ⊢
    exact List.subset_nil.mp (inert ▸ subset)
  | operation subset _ restInert =>
    simp only [SyncInsertVS.isInert, Bool.and_eq_true, List.isEmpty_iff] at inert ⊢
    exact ⟨⟨List.subset_nil.mp (inert.1.1 ▸ subset), inert.1.2⟩, restInert inert.2⟩
  | letStmt subset _ _ bodyInert restInert =>
    simp only [SyncInsertVS.isInert, Bool.and_eq_true, List.isEmpty_iff] at inert ⊢
    exact ⟨⟨⟨List.subset_nil.mp (inert.1.1.1 ▸ subset), inert.1.1.2⟩, bodyInert inert.1.2⟩,
      restInert inert.2⟩
  | ifThenElse subset _ _ _ thenInert elseInert restInert =>
    simp only [SyncInsertVS.isInert, Bool.and_eq_true, List.isEmpty_iff] at inert ⊢
    exact ⟨⟨⟨List.subset_nil.mp (inert.1.1.1 ▸ subset), thenInert inert.1.1.2⟩,
      elseInert inert.1.2⟩, restInert inert.2⟩
  | forLoop subset _ _ bodyInert restInert =>
    simp only [SyncInsertVS.isInert, Bool.and_eq_true, List.isEmpty_iff] at inert ⊢
    exact ⟨⟨List.subset_nil.mp (inert.1.1 ▸ subset), bodyInert inert.1.2⟩, restInert inert.2⟩
  | unrolledLoop subset _ _ _ firstInert secondInert restInert =>
    simp only [SyncInsertVS.isInert, Bool.and_eq_true, List.isEmpty_iff] at inert ⊢
    exact ⟨⟨⟨List.subset_nil.mp (inert.1.1.1 ▸ subset), firstInert inert.1.1.2⟩,
      secondInert inert.1.2⟩, restInert inert.2⟩

end Includes

/-- Visiting a block only adds synchronization to it. -/
theorem visitBy_includes (context : PassContext) (isRevisitPass : Bool)
    (state : PassState) (block : Block) :
    Includes (visitBy context isRevisitPass state block).1 block := by
  -- outside a revisit, the body of a loop is revisited as the first visit leaves it
  have either (isRevisitPass : Bool)
      (revisits : isRevisitPass = false → ∀ state block,
        Includes (visitBy context true state block).1 block)
      (state : PassState) (block : Block) :
      Includes (visitBy context isRevisitPass state block).1 block := by
    induction block generalizing state with
    | stop syncs => cases isRevisitPass <;> exact .refl _
    | operation syncs op rest restIncludes =>
      rw [visitBy_operation]
      exact .operation (List.subset_append_left _ _) (restIncludes _)
    | letStmt syncs value body rest bodyIncludes restIncludes =>
      rw [visitBy_letStmt]
      exact .letStmt (List.subset_append_left _ _) (bodyIncludes _) (restIncludes _)
    | ifThenElse syncs condition thenCase elseCase rest thenIncludes elseIncludes restIncludes =>
      rw [visitBy_ifThenElse]
      exact .ifThenElse (List.Subset.refl syncs) (thenIncludes _) (elseIncludes _) (restIncludes _)
    | forLoop syncs extent body rest bodyIncludes restIncludes =>
      cases isRevisitPass with
      | true => exact .forLoop (List.Subset.refl syncs) (bodyIncludes _) (restIncludes _)
      | false =>
        exact .forLoop (List.Subset.refl syncs) ((revisits rfl _ _).trans (bodyIncludes _))
          (restIncludes _)
    | unrolledLoop syncs extent first second rest firstIncludes secondIncludes restIncludes =>
      rw [visitBy_unrolledLoop]
      exact .unrolledLoop (List.Subset.refl syncs) (firstIncludes _) (secondIncludes _)
        (restIncludes _)
  exact either isRevisitPass (fun _ => either true Bool.noConfusion) state block

/-! ## One recorded access for a buffer name -/

/-- Accesses to one buffer are one access. -/
def OnePerBuffer (accesses : List Access) : Prop :=
  ∀ access ∈ accesses, ∀ other ∈ accesses, access.bufferName = other.bufferName → access = other

namespace OnePerBuffer

variable {accesses : List Access} {access : Access}

theorem append (one : OnePerBuffer accesses)
    (missing : ¬ (accesses.any fun other => other.bufferName = access.bufferName) = true) :
    OnePerBuffer (accesses ++ [access]) := by
  have differs : ∀ other ∈ accesses, other.bufferName ≠ access.bufferName := by
    intro other member same
    exact missing (List.any_eq_true.mpr ⟨other, member, by simpa using same⟩)
  intro first firstMember second secondMember same
  simp only [List.mem_append, List.mem_singleton] at firstMember secondMember
  rcases firstMember with firstOld | rfl <;> rcases secondMember with secondOld | rfl
  · exact one first firstOld second secondOld same
  · exact absurd same (differs first firstOld)
  · exact absurd same.symm (differs second secondOld)
  · rfl

/-- Merging an access keeps one entry for each buffer. -/
theorem mergeAccess (one : OnePerBuffer accesses) (access : Access) :
    OnePerBuffer (mergeAccess accesses access) := by
  unfold SyncInsertVS.mergeAccess
  split
  · have sameName : ∀ other : Access,
        (if other.bufferName = access.bufferName then
          { other with isWrite := other.isWrite || access.isWrite }
        else
          other).bufferName = other.bufferName := by
      intro other
      split <;> rfl
    intro first firstMember second secondMember same
    obtain ⟨firstOld, firstIn, rfl⟩ := List.mem_map.mp firstMember
    obtain ⟨secondOld, secondIn, rfl⟩ := List.mem_map.mp secondMember
    rw [sameName, sameName] at same
    rw [one firstOld firstIn secondOld secondIn same]
  · rename_i missing
    exact one.append missing

theorem addScalarReads (one : OnePerBuffer accesses) (reads : List Access) :
    OnePerBuffer (reads.foldl addScalarRead accesses) := by
  induction reads generalizing accesses with
  | nil => exact one
  | cons read reads ih =>
    rw [List.foldl_cons]
    apply ih
    unfold addScalarRead
    split
    · exact one
    · rename_i missing
      exact one.append missing

/-- What is read off a statement has one entry for each buffer. -/
theorem analyzeStmtAccesses (context : PassContext) (callee : Callee) (args : List Expr) :
    OnePerBuffer (analyzeStmtAccesses context callee args) := by
  have folded : ∀ (more accesses : List Access),
      OnePerBuffer accesses → OnePerBuffer (more.foldl SyncInsertVS.mergeAccess accesses) := by
    intro more
    induction more with
    | nil => exact fun accesses one => one
    | cons access more ih => exact fun accesses one => ih _ (one.mergeAccess access)
  unfold SyncInsertVS.analyzeStmtAccesses
  split
  · intro access member
    cases member
  · exact folded _ [] fun access member => (by cases member)

theorem recorded (context : PassContext) (event : Event) :
    OnePerBuffer (event.recorded context) := by
  have statement : ∀ op, OnePerBuffer (statementAccesses context op) := by
    intro op
    cases op with
    | call callee args => exact (analyzeStmtAccesses context callee args).addScalarReads _
    | store buffer index value =>
      refine addScalarReads ?_ _
      intro access member other otherMember _
      split at member
      · cases member
      · rw [if_neg (by assumption)] at otherMember
        rw [List.mem_singleton.mp member, List.mem_singleton.mp otherMember]
  cases event with
  | operation op =>
    intro access member other otherMember same
    exact statement op access (List.mem_of_mem_filter member) other
      (List.mem_of_mem_filter otherMember) same
  | letValue value =>
    intro access member other otherMember same
    obtain ⟨buffer, _, rfl⟩ := List.mem_map.mp member
    obtain ⟨otherBuffer, _, rfl⟩ := List.mem_map.mp otherMember
    exact congrArg scalarRead same
  | evaluate expr =>
    intro access member
    cases member
  | sync unit =>
    intro access member
    cases member
  | bypass =>
    intro access member
    cases member

/-- The entry of a buffer is the last one that names it. -/
theorem exists_last (one : OnePerBuffer accesses) (member : access ∈ accesses) :
    ∃ before after,
      accesses = before ++ access :: after ∧
        ∀ other ∈ after, other.bufferName ≠ access.bufferName := by
  induction accesses with
  | nil =>
    cases member
  | cons head rest ih =>
    have oneInRest : OnePerBuffer rest := fun first firstIn second secondIn =>
      one first (List.mem_cons_of_mem _ firstIn) second (List.mem_cons_of_mem _ secondIn)
    by_cases again : access ∈ rest
    · obtain ⟨before, after, rfl, others⟩ := ih oneInRest again
      exact ⟨head :: before, after, rfl, others⟩
    · obtain rfl | inRest := List.mem_cons.mp member
      · refine ⟨[], rest, rfl, ?_⟩
        intro other otherIn sameName
        have same := one other (List.mem_cons_of_mem _ otherIn) access member sameName
        exact again (same ▸ otherIn)
      · exact absurd inRest again

end OnePerBuffer

/-! ## Entries and the synchronization after them -/

/-- Some events contain a synchronization from one pipeline to another. -/
def Synced (events : List Event) (source target : Pipeline) : Prop :=
  ∃ unit, .sync unit ∈ events ∧ Orders source target unit

variable {events more : List Event}

/-- Later events keep two pipelines synchronized. -/
theorem Synced.mono {source target : Pipeline} (synced : Synced events source target)
    (subset : events ⊆ more) : Synced more source target := by
  obtain ⟨unit, member, orders⟩ := synced
  exact ⟨unit, subset member, orders⟩

/--
An entry of a history represents an access: everything noted on it has been executed since.
Entries that a revisit looks at are carried by the back edge.
-/
structure Represents
    (context : PassContext)
    (isRevisitPass : Bool)
    (entry : BufferAccess)
    (access : Access)
    (after : List Event) :
    Prop where
  sameAccess : entry.toAccess = access
  address : entry.physicalAddress = context.plan.getPhysicalAddress access.bufferName
  barriers : ∀ pipe ∈ entry.pipeBarriers, Synced after pipe pipe
  events : ∀ pair ∈ entry.eventPairs, Synced after pair.1 pair.2
  backEdge : isRevisitPass = true → entry.isBackEdge = true

/-- What an emitted synchronization achieves. -/
def Achieved (events : List Event) : SyncType → Prop
  | .barrierAll => True
  | .pipeBarrier pipe => Synced events pipe pipe
  | .eventPair source target => Synced events source target

theorem Achieved.mono {syncType : SyncType} (achieved : Achieved events syncType)
    (subset : events ⊆ more) : Achieved more syncType := by
  cases syncType with
  | barrierAll => trivial
  | pipeBarrier pipe => exact Synced.mono achieved subset
  | eventPair source target => exact Synced.mono achieved subset

section Entries

variable {context : PassContext} {isRevisitPass : Bool} {entry : BufferAccess} {access : Access}
  {after : List Event}

namespace Represents

section

variable (represents : Represents context isRevisitPass entry access after)
include represents

theorem mono
    {more : List Event}
    (subset : after ⊆ more) :
    Represents context isRevisitPass entry access more where
  sameAccess := represents.sameAccess
  address := represents.address
  barriers := fun pipe member => (represents.barriers pipe member).mono subset
  events := fun pair member => (represents.events pair member).mono subset
  backEdge := represents.backEdge

theorem noteBarrier {pipe : Pipeline} (synced : Synced after pipe pipe) :
    Represents context isRevisitPass (entry.noteBarrier pipe) access after := by
  unfold BufferAccess.noteBarrier
  split
  · refine { represents with barriers := ?_ }
    intro other member
    rcases List.mem_insert_iff.mp member with rfl | old
    · exact synced
    · exact represents.barriers other old
  · exact represents

/-- Noting an executed event keeps what an entry represents. -/
theorem noteEvent {source target : Pipeline} (synced : Synced after source target) :
    Represents context isRevisitPass (entry.noteEvent source target) access after := by
  unfold BufferAccess.noteEvent
  split
  · refine { represents with events := ?_ }
    intro pair member
    rcases List.mem_insert_iff.mp member with rfl | old
    · exact synced
    · exact represents.events pair old
  · exact represents

theorem noteUnits {syncs : List SyncUnit} (executed : ∀ unit ∈ syncs, .sync unit ∈ after) :
    Represents context isRevisitPass (syncs.foldl BufferAccess.noteUnit entry) access after := by
  induction syncs generalizing entry with
  | nil => exact represents
  | cons unit syncs ih =>
    have isExecuted := executed unit List.mem_cons_self
    refine ih ?_ fun other member => executed other (List.mem_cons_of_mem _ member)
    cases unit with
    | barrierAll => exact represents
    | barrier pipe => exact represents.noteBarrier ⟨_, isExecuted, rfl, rfl⟩
    | eventPair source target eventId => exact represents.noteEvent ⟨_, isExecuted, rfl, rfl⟩

/-- Noting achieved requirements keeps what an entry represents. -/
theorem noteSyncs {syncTypes : List SyncType}
    (achieved : ∀ syncType ∈ syncTypes, Achieved after syncType) :
    Represents context isRevisitPass (syncTypes.foldl BufferAccess.noteSync entry) access
      after := by
  induction syncTypes generalizing entry with
  | nil => exact represents
  | cons syncType syncTypes ih =>
    have isAchieved := achieved syncType List.mem_cons_self
    refine ih ?_ fun other member => achieved other (List.mem_cons_of_mem _ member)
    cases syncType with
    | barrierAll => exact represents
    | pipeBarrier pipe => exact represents.noteBarrier isAchieved
    | eventPair source target => exact represents.noteEvent isAchieved

end

theorem fresh
    (access : Access) :
    Represents context false (freshAccess context access) access [] where
  sameAccess := rfl
  address := rfl
  barriers := fun _ member => (by cases member)
  events := fun _ member => (by cases member)
  backEdge := fun isTrue => (by cases isTrue)

end Represents

variable {syncType : SyncType}

/-- Inserted synchronization achieves every requirement it was inserted for. -/
theorem insertAll_achieves {counter : Nat} {syncTypes : List SyncType}
    {syncs : List SyncUnit} (emitted : (insertAll context counter syncTypes).1 ⊆ syncs)
    (member : syncType ∈ syncTypes) : Achieved (syncEvents syncs) syncType := by
  induction syncTypes generalizing counter with
  | nil =>
    cases member
  | cons head rest ih =>
    rw [insertAll] at emitted
    rcases List.mem_cons.mp member with rfl | inRest
    · have isEmitted : ∀ unit ∈ (insertSynchronization context counter syncType).1,
          Event.sync unit ∈ syncEvents syncs :=
        fun unit isUnit => List.mem_map_of_mem (emitted (List.mem_append_left _ isUnit))
      cases syncType with
      | barrierAll => trivial
      | pipeBarrier pipe =>
        simp only [insertSynchronization] at isEmitted
        split at isEmitted
        · rename_i onA5
          exact ⟨_, isEmitted _ List.mem_cons_self, onA5.1.symm, onA5.1.symm⟩
        · exact ⟨_, isEmitted _ List.mem_cons_self, rfl, rfl⟩
      | eventPair source target => exact ⟨_, isEmitted _ List.mem_cons_self, rfl, rfl⟩
    · exact ih (List.Subset.trans (List.subset_append_right _ _) emitted) inRest

/-! ## Requirements -/

/-- Pipelines that must synchronize have an event pair. -/
theorem getEventType_of_shouldSync {source target : Pipeline}
    (syncs : shouldSync source target = true) (differ : source ≠ target) :
    getEventType source target = some (.eventPair source target) := by
  revert syncs differ
  cases source <;> cases target <;> decide

/-- A conflict leads to a requirement unless the pipelines are synchronized already. -/
theorem synced_of_requirement {current : Access} (known : context.plan.Known)
    (represents : Represents context isRevisitPass entry access after)
    (syncs : shouldSync access.pipeline current.pipeline = true)
    (overlaps : context.plan.Overlaps access.bufferName current.bufferName)
    (writes : access.isWrite = true ∨ current.isWrite = true)
    (achieved : ∀ syncType ∈ requirement context isRevisitPass entry (freshAccess context current),
      Achieved after syncType) :
    Synced after access.pipeline current.pipeline := by
  obtain ⟨rfl, address, barriers, events, backEdge⟩ := represents
  have depends : hasDataDependency context.plan entry (freshAccess context current) = true :=
    BufferPlan.Overlaps.hasDataDependency overlaps known address rfl writes
  have notSkipped : ¬ (isRevisitPass = true ∧ entry.isBackEdge = false) := by
    rintro ⟨isRevisit, isFresh⟩
    rw [backEdge isRevisit] at isFresh
    cases isFresh
  have currentPipe : (freshAccess context current).pipeline = current.pipeline := rfl
  simp only [requirement, depends, if_true, getRequiredSyncType, currentPipe, syncs,
    Bool.true_eq_false, if_false, notSkipped] at achieved
  by_cases samePipe : entry.pipeline = current.pipeline
  · rw [if_pos samePipe] at achieved
    rw [← samePipe]
    by_cases noted : entry.pipeline ∈ entry.pipeBarriers
    · exact barriers _ noted
    · rw [if_neg noted] at achieved
      exact achieved _ List.mem_cons_self
  · rw [if_neg samePipe] at achieved
    by_cases noted : (entry.pipeline, current.pipeline) ∈ entry.eventPairs
    · exact events _ noted
    · rw [if_neg noted, getEventType_of_shouldSync syncs samePipe] at achieved
      exact achieved _ List.mem_cons_self

/-- Buffers with overlapping ranges are found as related. -/
theorem mem_findRelatedBuffers {plan : BufferPlan} {first second : BufferName}
    (known : plan.Known) (overlaps : plan.Overlaps first second) :
    first ∈ findRelatedBuffers plan second := by
  have related := overlaps.related known
  unfold BufferPlan.findRelatedBuffers at related
  unfold findRelatedBuffers
  split
  · rename_i unknown
    rwa [if_pos unknown] at related
  · rename_i hasAddress
    rw [if_neg hasAddress] at related
    obtain ⟨member, inMap, rfl⟩ := List.mem_map.mp related
    obtain ⟨inMap, isRelated⟩ := List.mem_filter.mp inMap
    refine List.mem_map_of_mem (List.mem_filter.mpr ⟨inMap, ?_⟩)
    unfold BufferPlan.isRelated at isRelated
    unfold SyncInsertVS.isRelated
    cases hasAddress : member.address with
    | none =>
      rw [hasAddress] at isRelated
      cases isRelated
    | some other =>
      simp only [hasAddress, Bool.and_eq_true, decide_eq_true_eq] at isRelated ⊢
      refine ⟨isRelated.1, ?_⟩
      have sameAddress := isRelated.2
      split
      · rename_i targetUnknown
        rw [if_pos (Or.inl targetUnknown), decide_eq_true_eq] at sameAddress
        split
        · rw [decide_eq_true_eq]
          omega
        · exact decide_eq_true sameAddress
      · rename_i targetKnown
        split
        · rename_i otherUnknown
          rwa [if_pos (Or.inr otherUnknown)] at sameAddress
        · rename_i otherKnown
          rwa [if_neg (by omega)] at sameAddress

/-- Removing duplicates keeps the set of requirements. -/
theorem mem_dedupSyncRequirements {requirements : List SyncType} :
    syncType ∈ dedupSyncRequirements requirements ↔ syncType ∈ requirements := by
  unfold dedupSyncRequirements
  rw [List.mem_dedup, List.mem_insertionSort]

end Entries

/-! ## Consistent histories -/

/-- A latest access that is a write is the latest write. -/
structure Consistent (state : PassState) : Prop where
  latestWrite :
    ∀ name entry, state.accessHistory name = some entry → entry.isWrite = true →
      state.writeHistory name = some entry
  accessKnown :
    ∀ name entry,
      state.writeHistory name = some entry → ∃ latest, state.accessHistory name = some latest

namespace Consistent

/-- The empty history is consistent. -/
theorem initial :
    Consistent .initial where
  latestWrite := fun _ _ found => (by cases found)
  accessKnown := fun _ _ found => (by cases found)

theorem mapAccesses
    {state : PassState}
    (consistent : Consistent state)
    {update : BufferAccess → BufferAccess}
    (sameKind : ∀ entry, (update entry).isWrite = entry.isWrite) :
    Consistent (state.mapAccesses update) where
  latestWrite := by
    intro name entry found isWrite
    obtain ⟨old, foundOld, rfl⟩ := Option.map_eq_some_iff.mp found
    rw [sameKind] at isWrite
    exact congrArg (Option.map update) (consistent.latestWrite name old foundOld isWrite)
  accessKnown := by
    intro name entry found
    obtain ⟨old, foundOld, rfl⟩ := Option.map_eq_some_iff.mp found
    obtain ⟨latest, foundLatest⟩ := consistent.accessKnown name old foundOld
    exact ⟨update latest, congrArg (Option.map update) foundLatest⟩

variable {state saved : PassState}

theorem withCounter
    (consistent : Consistent state)
    (counter : Nat) :
    Consistent (state.withCounter counter) where
  latestWrite := consistent.latestWrite
  accessKnown := consistent.accessKnown

theorem overwrittenBy
    {later : PassState}
    (consistent : Consistent saved)
    (laterConsistent : Consistent later) :
    Consistent (saved.overwrittenBy later) where
  latestWrite := by
    intro name entry found isWrite
    simp only [PassState.overwrittenBy, overwrite] at found ⊢
    cases laterFound : later.accessHistory name with
    | some latest =>
      rw [laterFound, Option.some_or, Option.some.injEq] at found
      subst found
      rw [laterConsistent.latestWrite name latest laterFound isWrite, Option.some_or]
    | none =>
      rw [laterFound, Option.none_or] at found
      have noWrite : later.writeHistory name = none := by
        refine Option.eq_none_iff_forall_ne_some.mpr ?_
        intro write foundWrite
        obtain ⟨latest, foundLatest⟩ := laterConsistent.accessKnown name write foundWrite
        rw [laterFound] at foundLatest
        cases foundLatest
      rw [noWrite, Option.none_or]
      exact consistent.latestWrite name entry found isWrite
  accessKnown := by
    intro name entry found
    simp only [PassState.overwrittenBy, overwrite] at found ⊢
    cases laterFound : later.accessHistory name with
    | some latest => exact ⟨latest, rfl⟩
    | none =>
      cases laterWrite : later.writeHistory name with
      | some write =>
        obtain ⟨latest, foundLatest⟩ := laterConsistent.accessKnown name write laterWrite
        rw [laterFound] at foundLatest
        cases foundLatest
      | none =>
        rw [laterWrite, Option.none_or] at found
        exact consistent.accessKnown name entry found

/-- A loop's back edge keeps the history consistent. -/
theorem backEdge {finish : PassState} (consistent : Consistent saved)
    (finishConsistent : Consistent finish) : Consistent (saved.backEdge finish) :=
  consistent.overwrittenBy
    (@mapAccesses _ finishConsistent (fun entry => { entry with isBackEdge := true })
      fun _ => rfl)

/-- Recording an access keeps the history consistent. -/
theorem recordAccess (consistent : Consistent state) (isRevisitPass : Bool)
    (access : BufferAccess) : Consistent (recordAccess isRevisitPass state access) := by
  unfold SyncInsertVS.recordAccess
  split
  · exact consistent
  · constructor
    · intro name entry found isWrite
      by_cases sameName : name = access.bufferName
      · subst sameName
        simp only [Function.update_self, Option.some.injEq] at found
        subst found
        simp [isWrite]
      · simp only [Function.update_of_ne sameName] at found
        have old := consistent.latestWrite name entry found isWrite
        split
        · exact (Function.update_of_ne sameName _ _).trans old
        · exact old
    · intro name entry found
      by_cases sameName : name = access.bufferName
      · subst sameName
        exact ⟨access, Function.update_self _ _ _⟩
      · simp only [Function.update_of_ne sameName]
        split at found
        · exact consistent.accessKnown name entry
            ((Function.update_of_ne sameName _ _).symm.trans found)
        · exact consistent.accessKnown name entry found

end Consistent

/-! ## Recording the accesses of a statement -/

section Recording

variable {isRevisitPass : Bool} {state : PassState}
  {accesses : List BufferAccess} {name : BufferName} {access : Access}

/-- Accesses to other buffers leave a buffer's history alone. -/
theorem accessHistory_of_other (others : ∀ access ∈ accesses, access.bufferName ≠ name) :
    (updateLatestAccessHistory isRevisitPass state accesses).accessHistory name =
      state.accessHistory name := by
  unfold updateLatestAccessHistory
  induction accesses generalizing state with
  | nil => rfl
  | cons access accesses ih =>
    rw [List.foldl_cons, ih fun other member => others other (List.mem_cons_of_mem _ member)]
    unfold recordAccess
    split
    · rfl
    · exact Function.update_of_ne (others access List.mem_cons_self).symm _ _

theorem writeHistory_of_other
    (others : ∀ access ∈ accesses, access.isWrite = true → access.bufferName ≠ name) :
    (updateLatestAccessHistory isRevisitPass state accesses).writeHistory name =
      state.writeHistory name := by
  unfold updateLatestAccessHistory
  induction accesses generalizing state with
  | nil => rfl
  | cons access accesses ih =>
    rw [List.foldl_cons, ih fun other member => others other (List.mem_cons_of_mem _ member)]
    unfold recordAccess
    split
    · rfl
    · cases isWrite : access.isWrite with
      | true => exact Function.update_of_ne (others access List.mem_cons_self isWrite).symm _ _
      | false => rfl

variable {context : PassContext}

/-- A recorded access is the latest one of its buffer. -/
theorem accessHistory_of_mem {accesses : List Access} (one : OnePerBuffer accesses)
    (member : access ∈ accesses) :
    (updateLatestAccessHistory false state (accesses.map (freshAccess context))).accessHistory
        access.bufferName =
      some (freshAccess context access) := by
  obtain ⟨before, after, rfl, others⟩ := one.exists_last member
  have freshOthers : ∀ other ∈ after.map (freshAccess context),
      other.bufferName ≠ access.bufferName := by
    intro other otherIn
    obtain ⟨original, originalIn, rfl⟩ := List.mem_map.mp otherIn
    exact others original originalIn
  rw [List.map_append, updateLatestAccessHistory, List.foldl_append]
  exact (accessHistory_of_other freshOthers).trans (Function.update_self _ _ _)

/-- A recorded write is the latest one of its buffer. -/
theorem writeHistory_of_mem {accesses : List Access} (one : OnePerBuffer accesses)
    (member : access ∈ accesses) (isWrite : access.isWrite = true) :
    (updateLatestAccessHistory false state (accesses.map (freshAccess context))).writeHistory
        access.bufferName =
      some (freshAccess context access) := by
  obtain ⟨before, after, rfl, others⟩ := one.exists_last member
  have freshOthers : ∀ other ∈ after.map (freshAccess context),
      other.isWrite = true → other.bufferName ≠ access.bufferName := by
    intro other otherIn _
    obtain ⟨original, originalIn, rfl⟩ := List.mem_map.mp otherIn
    exact others original originalIn
  rw [List.map_append, updateLatestAccessHistory, List.foldl_append]
  refine (writeHistory_of_other freshOthers).trans ?_
  have freshWrite : (freshAccess context access).isWrite = true := isWrite
  simp only [recordAccess, keepsBackEdge, Bool.false_and, Bool.false_eq_true, if_false,
    freshWrite, if_true]
  exact Function.update_self _ _ _

end Recording

end TilelangAscend.SyncInsertVS
