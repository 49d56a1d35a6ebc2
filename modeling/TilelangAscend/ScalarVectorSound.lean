import TilelangAscend.LatestRecords
import TilelangAscend.ScalarVectorHistory

namespace TilelangAscend.SyncInsertVS

open LatestRecords
open SyncInsert

/-!
# What the scalar and vector pass covers

The two histories track the run: the latest access and the latest write of a buffer name have
entries that represent them.  The first visit of a loop body covers what one iteration does to
itself, and the revisit covers what enters an iteration from outside, so that together they
cover every iteration.
-/

/-! ## Tracking states -/

/-- Events record the accesses that the visitor looks at. -/
def accessRecorder (context : PassContext) : Recorder Event Access BufferName where
  records := Event.recorded context
  key := Access.bufferName
  breaks event := event = .bypass

/-- Events record the writes that the visitor looks at. -/
def writeRecorder (context : PassContext) : Recorder Event Access BufferName where
  records event := (event.recorded context).filter Access.isWrite
  key := Access.bufferName
  breaks event := event = .bypass

/-- Both histories track a window of the run. -/
structure StateTracks
    (context : PassContext)
    (isRevisitPass : Bool)
    (window : Nat → Prop)
    (state : PassState)
    (run : List Event) :
    Prop where
  accesses :
    (accessRecorder context).Tracks (Represents context isRevisitPass) window
      state.accessHistory run
  writes :
    (writeRecorder context).Tracks (Represents context isRevisitPass) window state.writeHistory
      run
  consistent : Consistent state

/-- An access is synchronized with every hazard of the window that is still known. -/
def CoveredAt (context : PassContext) (window : Nat → Prop) (run : List Event)
    (current : Access) : Prop :=
  ∀ position access after, window position →
    (accessRecorder context).LastRecord run position access after ∨
      (writeRecorder context).LastRecord run position access after →
    shouldSync access.pipeline current.pipeline = true →
    context.plan.Overlaps access.bufferName current.bufferName →
    access.isWrite = true ∨ current.isWrite = true →
    Synced after access.pipeline current.pipeline

/-- Every recorded access of a continued run is covered. -/
def Covers (context : PassContext) (window : Nat → Prop) (run next : List Event) : Prop :=
  ∀ before event rest, next = before ++ event :: rest →
    ∀ current ∈ event.recorded context, CoveredAt context window (run ++ before) current

/-- A visited sequence has run: its accesses are covered, and the state tracks the run. -/
structure Passed
    (context : PassContext)
    (isRevisitPass : Bool)
    (window : Nat → Prop)
    (state : PassState)
    (run next : List Event) :
    Prop where
  covers : Covers context window run next
  tracks : StateTracks context isRevisitPass window state (run ++ next)

section Rules

variable {context : PassContext} {isRevisitPass : Bool} {window : Nat → Prop}
  {state : PassState} {run next later : List Event}

theorem reached_append (reached : ∀ position, window position → position < run.length)
    (next : List Event) : ∀ position, window position → position < (run ++ next).length := by
  intro position inWindow
  have isReached := reached position inWindow
  rw [List.length_append]
  omega

variable {event : Event} {larger : List SyncUnit} {block body : Block}
  {saved finish : PassState} {rounds : List (List Event)}

theorem writeRecorder_records_of_quiet (quiet : event.recorded context = []) :
    (writeRecorder context).records event = [] := by
  simp [writeRecorder, quiet]

namespace Covers

theorem quiet (silent : ∀ event ∈ next, event.recorded context = []) :
    Covers context window run next := by
  rintro before event rest rfl current member
  rw [silent event (by simp)] at member
  cases member

theorem append (covers : Covers context window run next)
    (laterCovers : Covers context window (run ++ next) later) :
    Covers context window run (next ++ later) := by
  intro before event rest split current member
  rcases List.append_eq_append_iff.mp split with
    ⟨between, rfl, laterSplit⟩ | ⟨between, nextSplit, restSplit⟩
  · rw [← List.append_assoc]
    exact laterCovers between event rest laterSplit current member
  · cases between with
    | nil =>
      rw [List.append_nil] at nextSplit
      subst nextSplit
      rw [List.nil_append] at restSplit
      have covered := laterCovers [] event rest restSplit.symm current member
      rwa [List.append_nil] at covered
    | cons head between =>
      obtain ⟨rfl, _⟩ := List.cons.inj restSplit
      exact covers before event between nextSplit current member

theorem single {event : Event}
    (covered : ∀ current ∈ event.recorded context, CoveredAt context window run current) :
    Covers context window run [event] := by
  intro before other rest split current member
  cases before with
  | nil =>
    obtain ⟨rfl, _⟩ := List.cons.inj split
    rw [List.append_nil]
    exact covered current member
  | cons head before => simp at split

theorem join {bound : Nat} (below : Covers context (fun i => window i ∧ i < bound) run next)
    (above : Covers context (fun i => bound ≤ i) run next) : Covers context window run next := by
  intro before event rest split current member position access after inWindow last
  rcases Nat.lt_or_ge position bound with isBelow | isAbove
  · exact below before event rest split current member position access after
      ⟨inWindow, isBelow⟩ last
  · exact above before event rest split current member position access after isAbove last

end Covers

namespace StateTracks

theorem withCounter
    (tracks : StateTracks context isRevisitPass window state run)
    (counter : Nat) :
    StateTracks context isRevisitPass window (state.withCounter counter) run where
  accesses := tracks.accesses
  writes := tracks.writes
  consistent := tracks.consistent.withCounter counter

theorem grow
    (tracks : StateTracks context isRevisitPass window state run)
    (reached : ∀ position, window position → position < run.length) :
    StateTracks context isRevisitPass window state (run ++ next) where
  accesses :=
    tracks.accesses.grow
      (fun _ _ _ _ represents => represents.mono (List.subset_append_left _ _)) reached
  writes :=
    tracks.writes.grow
      (fun _ _ _ _ represents => represents.mono (List.subset_append_left _ _)) reached
  consistent := tracks.consistent

theorem quiet
    {update : BufferAccess → BufferAccess}
    (silent : ∀ event ∈ next, event.recorded context = [])
    (sameKind : ∀ entry, (update entry).isWrite = entry.isWrite)
    (updated : ∀ entry access after, Represents context isRevisitPass entry access after →
      Represents context isRevisitPass (update entry) access (after ++ next))
    (tracks : StateTracks context isRevisitPass window state run) :
    StateTracks context isRevisitPass window (state.mapAccesses update) (run ++ next) where
  accesses := tracks.accesses.quiet silent updated
  writes :=
    tracks.writes.quiet (fun event member => writeRecorder_records_of_quiet (silent event member))
      updated
  consistent := tracks.consistent.mapAccesses sameKind

theorem silent (tracks : StateTracks context isRevisitPass window state run)
    (silent : ∀ event ∈ next, event.recorded context = []) :
    StateTracks context isRevisitPass window state (run ++ next) := by
  have updated := @quiet _ _ _ _ _ _ id silent (fun _ => rfl)
    (fun _ _ _ represents => represents.mono (List.subset_append_left _ _)) tracks
  have unchanged : state.mapAccesses id = state := by
    simp [PassState.mapAccesses]
  rwa [unchanged] at updated

theorem broken
    (consistent : Consistent state) :
    StateTracks context isRevisitPass window state (run ++ [.bypass]) where
  accesses := .broken rfl rfl
  writes := .broken rfl rfl
  consistent := consistent

variable {saved : PassState}

theorem overwrittenBy
    (tracks : StateTracks context isRevisitPass window state run)
    (consistent : Consistent saved) :
    StateTracks context isRevisitPass window (saved.overwrittenBy state) run where
  accesses := by
    intro position access after inWindow last
    obtain ⟨entry, found, represents⟩ := tracks.accesses position access after inWindow last
    exact ⟨entry, by simp [PassState.overwrittenBy, overwrite, found], represents⟩
  writes := by
    intro position access after inWindow last
    obtain ⟨entry, found, represents⟩ := tracks.writes position access after inWindow last
    exact ⟨entry, by simp [PassState.overwrittenBy, overwrite, found], represents⟩
  consistent := consistent.overwrittenBy tracks.consistent

theorem backEdge
    (tracks : StateTracks context false window state run)
    (consistent : Consistent saved) :
    StateTracks context true window (saved.backEdge state) run where
  accesses := by
    intro position access after inWindow last
    obtain ⟨entry, found, represents⟩ := tracks.accesses position access after inWindow last
    exact ⟨{ entry with isBackEdge := true },
      by simp [PassState.backEdge, overwrite, carried, found],
      { represents with backEdge := fun _ => rfl }⟩
  writes := by
    intro position access after inWindow last
    obtain ⟨entry, found, represents⟩ := tracks.writes position access after inWindow last
    exact ⟨{ entry with isBackEdge := true },
      by simp [PassState.backEdge, overwrite, carried, found],
      { represents with backEdge := fun _ => rfl }⟩
  consistent := consistent.backEdge tracks.consistent

end StateTracks

/-! ## One statement -/

theorem foldl_noteUnit_isWrite (syncs : List SyncUnit) (entry : BufferAccess) :
    (syncs.foldl BufferAccess.noteUnit entry).isWrite = entry.isWrite := by
  induction syncs generalizing entry with
  | nil => rfl
  | cons unit syncs ih =>
    rw [List.foldl_cons, ih]
    cases unit <;> simp only [BufferAccess.noteUnit, BufferAccess.noteBarrier,
      BufferAccess.noteEvent] <;> split <;> rfl

theorem foldl_noteSync_isWrite (syncTypes : List SyncType) (entry : BufferAccess) :
    (syncTypes.foldl BufferAccess.noteSync entry).isWrite = entry.isWrite := by
  induction syncTypes generalizing entry with
  | nil => rfl
  | cons syncType syncTypes ih =>
    rw [List.foldl_cons, ih]
    cases syncType <;> simp only [BufferAccess.noteSync, BufferAccess.noteBarrier,
      BufferAccess.noteEvent] <;> split <;> rfl

theorem recorded_syncEvents (syncs : List SyncUnit) :
    ∀ event ∈ syncEvents syncs, event.recorded context = [] := by
  intro event member
  obtain ⟨unit, _, rfl⟩ := List.mem_map.mp member
  rfl

theorem StateTracks.noteUnits {syncs : List SyncUnit}
    (tracks : StateTracks context isRevisitPass window state run) (subset : syncs ⊆ larger) :
    StateTracks context isRevisitPass window (state.noteUnits syncs)
      (run ++ syncEvents larger) := by
  refine tracks.quiet (recorded_syncEvents larger) (foldl_noteUnit_isWrite syncs) ?_
  intro entry access after represents
  refine (represents.mono (List.subset_append_left _ _)).noteUnits ?_
  exact fun unit member => List.mem_append_right _ (List.mem_map_of_mem (subset member))

theorem coveredAt_of_required {accesses : List Access} (known : context.plan.Known)
    (tracks : StateTracks context isRevisitPass window state (run ++ syncEvents larger))
    (emitted : (processStatement context isRevisitPass state accesses).1 ⊆ larger)
    {current : Access} (member : current ∈ accesses) :
    CoveredAt context window (run ++ syncEvents larger) current := by
  intro position access after inWindow last syncs overlaps writes
  -- everything required is among the synchronization at the end of the run
  have achieved : ∀ syncType ∈ checkBufferDependency context isRevisitPass state
      (freshAccess context current) access.bufferName, Achieved (syncEvents larger) syncType := by
    intro syncType required
    refine insertAll_achieves emitted (mem_dedupSyncRequirements.mpr ?_)
    refine List.mem_flatMap.mpr ⟨_, List.mem_map_of_mem member, ?_⟩
    exact List.mem_flatMap.mpr ⟨_, mem_findRelatedBuffers known overlaps, required⟩
  have isLast : ∃ between, after = between ++ syncEvents larger := by
    rcases last with last | last
    · obtain ⟨between, isAfter, _⟩ := last.of_append_quiet (recorded_syncEvents larger)
      exact ⟨between, isAfter⟩
    · obtain ⟨between, isAfter, _⟩ := last.of_append_quiet fun event isSync =>
        writeRecorder_records_of_quiet (recorded_syncEvents larger event isSync)
      exact ⟨between, isAfter⟩
  obtain ⟨between, rfl⟩ := isLast
  have achievedAfter : ∀ syncType ∈ checkBufferDependency context isRevisitPass state
      (freshAccess context current) access.bufferName,
      Achieved (between ++ syncEvents larger) syncType :=
    fun syncType required => (achieved syncType required).mono (List.subset_append_right _ _)
  rcases last with last | last
  · obtain ⟨entry, found, represents⟩ := tracks.accesses position access _ inWindow last
    have foundName : state.accessHistory access.bufferName = some entry := found
    refine synced_of_requirement known represents syncs overlaps writes ?_
    intro syncType required
    refine achievedAfter syncType ?_
    simp only [checkBufferDependency, foundName]
    exact List.mem_append_left _ required
  · obtain ⟨entry, found, represents⟩ := tracks.writes position access _ inWindow last
    have foundName : state.writeHistory access.bufferName = some entry := found
    refine synced_of_requirement known represents syncs overlaps writes ?_
    intro syncType required
    refine achievedAfter syncType ?_
    obtain ⟨latest, foundLatest⟩ := tracks.consistent.accessKnown _ entry foundName
    simp only [checkBufferDependency, foundName, foundLatest]
    cases isWrite : latest.isWrite with
    | true =>
      -- the latest access is the write itself
      have same := tracks.consistent.latestWrite _ latest foundLatest isWrite
      rw [foundName] at same
      cases same
      exact List.mem_append_left _ required
    | false => exact List.mem_append_right _ required

theorem Consistent.updateLatestAccessHistory (consistent : Consistent state)
    (accesses : List BufferAccess) :
    Consistent (updateLatestAccessHistory isRevisitPass state accesses) := by
  unfold SyncInsertVS.updateLatestAccessHistory
  induction accesses generalizing state with
  | nil => exact consistent
  | cons access accesses ih =>
    exact ih (consistent.recordAccess isRevisitPass access)

theorem StateTracks.recordEvent
    (tracks : StateTracks context isRevisitPass window state run)
    (reached : isRevisitPass = true → ∀ position, window position → position < run.length) :
    StateTracks context isRevisitPass window
      (updateLatestAccessHistory isRevisitPass state
        ((event.recorded context).map (freshAccess context)))
      (run ++ [event]) where
  accesses := by
    refine tracks.accesses.event
      (fun _ _ _ _ represents => represents.mono (List.subset_append_left _ _)) ?_ ?_
    · intro item entry keeps found
      refine (accessHistory_of_other ?_).trans found
      intro other otherIn
      obtain ⟨original, originalIn, rfl⟩ := List.mem_map.mp otherIn
      exact keeps.2 original originalIn
    · intro item member inWindow
      cases isRevisitPass with
      | true => exact absurd (reached rfl _ inWindow) (Nat.lt_irrefl _)
      | false =>
        exact ⟨_, accessHistory_of_mem (OnePerBuffer.recorded context event) member, .fresh item⟩
  writes := by
    refine tracks.writes.event
      (fun _ _ _ _ represents => represents.mono (List.subset_append_left _ _)) ?_ ?_
    · intro item entry keeps found
      refine (writeHistory_of_other ?_).trans found
      intro other otherIn isWrite
      obtain ⟨original, originalIn, rfl⟩ := List.mem_map.mp otherIn
      exact keeps.2 original (List.mem_filter.mpr ⟨originalIn, isWrite⟩)
    · intro item member inWindow
      obtain ⟨isRecorded, isWrite⟩ := List.mem_filter.mp member
      cases isRevisitPass with
      | true => exact absurd (reached rfl _ inWindow) (Nat.lt_irrefl _)
      | false =>
        exact ⟨_, writeHistory_of_mem (OnePerBuffer.recorded context event) isRecorded isWrite,
          .fresh item⟩
  consistent := tracks.consistent.updateLatestAccessHistory _

theorem Passed.statement {event : Event} {syncs larger : List SyncUnit}
    (known : context.plan.Known) (tracks : StateTracks context isRevisitPass window state run)
    (reached : isRevisitPass = true → ∀ position, window position → position < run.length)
    (subset :
      syncs ++
        (processStatement context isRevisitPass (state.noteUnits syncs)
          (event.recorded context)).1 ⊆ larger) :
    Passed context isRevisitPass window
      (processStatement context isRevisitPass (state.noteUnits syncs) (event.recorded context)).2
      run (syncEvents larger ++ [event]) := by
  obtain ⟨syncsIn, emitted⟩ := List.append_subset.mp subset
  refine ⟨?_, ?_⟩
  · refine (Covers.quiet (recorded_syncEvents larger)).append (Covers.single ?_)
    exact fun current member =>
      coveredAt_of_required known (tracks.noteUnits syncsIn) emitted member
  · let optimized := requiredSyncs context isRevisitPass (state.noteUnits syncs)
      ((event.recorded context).map (freshAccess context))
    have updated : StateTracks context isRevisitPass window
        (state.mapAccesses fun entry =>
          optimized.foldl BufferAccess.noteSync (syncs.foldl BufferAccess.noteUnit entry))
        (run ++ syncEvents larger) := by
      refine tracks.quiet (recorded_syncEvents larger) ?_ ?_
      · intro entry
        rw [foldl_noteSync_isWrite, foldl_noteUnit_isWrite]
      · intro entry access after represents
        have grown := represents.mono (List.subset_append_left after (syncEvents larger))
        have noted := grown.noteUnits fun unit member =>
          List.mem_append_right _ (List.mem_map_of_mem (syncsIn member))
        refine noted.noteSyncs ?_
        intro syncType required
        exact (insertAll_achieves emitted required).mono (List.subset_append_right _ _)
    have sameState : ((state.noteUnits syncs).updateSyncStatesAfterSync optimized) =
        state.mapAccesses fun entry =>
          optimized.foldl BufferAccess.noteSync (syncs.foldl BufferAccess.noteUnit entry) := by
      simp [PassState.noteUnits, PassState.updateSyncStatesAfterSync, PassState.mapAccesses,
        Option.map_map, Function.comp_def]
    rw [← sameState] at updated
    rw [← List.append_assoc]
    exact (updated.withCounter _).recordEvent fun isRevisit => reached_append (reached isRevisit) _

/-! ## Composed runs -/

namespace Passed

theorem append
    {middle : PassState}
    (passed : Passed context isRevisitPass window middle run next)
    (laterPassed : Passed context isRevisitPass window state (run ++ next) later) :
    Passed context isRevisitPass window state run (next ++ later) where
  covers := passed.covers.append laterPassed.covers
  tracks := by
    rw [← List.append_assoc]
    exact laterPassed.tracks

theorem silent
    (tracks : StateTracks context isRevisitPass window state run)
    (silent : ∀ event ∈ next, event.recorded context = []) :
    Passed context isRevisitPass window state run next where
  covers := .quiet silent
  tracks := tracks.silent silent

variable {larger : List SyncUnit}

theorem syncs
    {syncs : List SyncUnit}
    (tracks : StateTracks context isRevisitPass window state run)
    (subset : syncs ⊆ larger) :
    Passed context isRevisitPass window (state.noteUnits syncs) run (syncEvents larger) where
  covers := .quiet (recorded_syncEvents larger)
  tracks := tracks.noteUnits subset

theorem evaluate {syncs : List SyncUnit}
    (tracks : StateTracks context isRevisitPass window state run)
    (subset : syncs ⊆ larger) (expr : Expr) :
    Passed context isRevisitPass window (state.noteUnits syncs) run
      (syncEvents larger ++ [.evaluate expr]) := by
  refine (Passed.syncs tracks subset).append (.silent (tracks.noteUnits subset) ?_)
  intro event member
  rw [List.mem_singleton.mp member]
  rfl

end Passed

theorem exists_executes (context : PassContext) (block : Block) :
    ∃ run, Executes context block run := by
  induction block with
  | stop syncs => exact ⟨_, rfl⟩
  | operation syncs op rest restRuns =>
    obtain ⟨later, laterRuns⟩ := restRuns
    exact ⟨_, later, laterRuns, rfl⟩
  | letStmt syncs value body rest bodyRuns restRuns =>
    obtain ⟨inner, innerRuns⟩ := bodyRuns
    obtain ⟨later, laterRuns⟩ := restRuns
    exact ⟨_, inner, later, innerRuns, laterRuns, rfl⟩
  | ifThenElse syncs condition thenCase elseCase rest thenRuns elseRuns restRuns =>
    obtain ⟨inner, innerRuns⟩ := thenRuns
    obtain ⟨later, laterRuns⟩ := restRuns
    exact ⟨_, inner, later, Or.inl innerRuns, laterRuns, rfl⟩
  | forLoop syncs extent body rest bodyRuns restRuns =>
    obtain ⟨later, laterRuns⟩ := restRuns
    exact ⟨_, [], later, fun _ member => (by cases member), laterRuns, rfl⟩
  | unrolledLoop syncs extent first second rest firstRuns secondRuns restRuns =>
    obtain ⟨firstRound, runsFirst⟩ := firstRuns
    obtain ⟨secondRound, runsSecond⟩ := secondRuns
    obtain ⟨later, laterRuns⟩ := restRuns
    exact ⟨_, firstRound, secondRound, later, runsFirst, runsSecond, laterRuns, rfl⟩

theorem recorded_passedBy (sequences : List Block) :
    ∀ event ∈ passedBy context sequences, event.recorded context = [] := by
  intro event member
  unfold passedBy at member
  split at member
  · cases member
  · rw [List.mem_singleton.mp member]
    rfl

theorem recorded_of_inert (inert : isInert context block = true)
    (executes : Executes context block run) : ∀ event ∈ run, event.recorded context = [] := by
  induction block generalizing run with
  | stop syncs =>
    rw [Executes] at executes
    subst executes
    exact recorded_syncEvents syncs
  | operation syncs op rest restSilent =>
    simp only [isInert, Bool.and_eq_true, List.isEmpty_iff] at inert
    obtain ⟨later, laterRuns, rfl⟩ := executes
    intro event member
    rcases List.mem_append.mp member with isSync | isOther
    · exact recorded_syncEvents syncs event isSync
    · rcases List.mem_cons.mp isOther with rfl | isLater
      · exact inert.1.2
      · exact restSilent inert.2 laterRuns event isLater
  | letStmt syncs value body rest bodySilent restSilent =>
    simp only [isInert, Bool.and_eq_true, List.isEmpty_iff] at inert
    obtain ⟨inner, later, innerRuns, laterRuns, rfl⟩ := executes
    intro event member
    simp only [List.mem_append, List.mem_cons] at member
    rcases member with isSync | rfl | isInner | isLater
    · exact recorded_syncEvents syncs event isSync
    · exact inert.1.1.2
    · exact bodySilent inert.1.2 innerRuns event isInner
    · exact restSilent inert.2 laterRuns event isLater
  | ifThenElse syncs condition thenCase elseCase rest thenSilent elseSilent restSilent =>
    simp only [isInert, Bool.and_eq_true, List.isEmpty_iff] at inert
    obtain ⟨inner, later, innerRuns, laterRuns, rfl⟩ := executes
    intro event member
    simp only [List.mem_append, List.mem_cons] at member
    rcases member with isSync | rfl | isInner | isLater
    · exact recorded_syncEvents syncs event isSync
    · rfl
    · rcases innerRuns with thenRuns | ⟨taken, elseRuns, rfl⟩
      · exact thenSilent inert.1.1.2 thenRuns event isInner
      · rcases List.mem_append.mp isInner with isTaken | isPassed
        · exact elseSilent inert.1.2 elseRuns event isTaken
        · exact recorded_passedBy _ event isPassed
    · exact restSilent inert.2 laterRuns event isLater
  | forLoop syncs extent body rest bodySilent restSilent =>
    simp only [isInert, Bool.and_eq_true, List.isEmpty_iff] at inert
    obtain ⟨rounds, later, roundsRun, laterRuns, rfl⟩ := executes
    intro event member
    simp only [List.mem_append, List.mem_cons] at member
    rcases member with isSync | rfl | isInner | isLater
    · exact recorded_syncEvents syncs event isSync
    · rfl
    · split at isInner
      · exact recorded_passedBy _ event isInner
      · obtain ⟨round, isRound, inRound⟩ := List.mem_flatten.mp isInner
        exact bodySilent inert.1.2 (roundsRun round isRound) event inRound
    · exact restSilent inert.2 laterRuns event isLater
  | unrolledLoop syncs extent first second rest firstSilent secondSilent restSilent =>
    simp only [isInert, Bool.and_eq_true, List.isEmpty_iff] at inert
    obtain ⟨firstRound, secondRound, later, firstRuns, secondRuns, laterRuns, rfl⟩ := executes
    intro event member
    simp only [List.mem_append] at member
    rcases member with isSync | isFirst | isSecond | isLater
    · exact recorded_syncEvents syncs event isSync
    · exact firstSilent inert.1.1.2 firstRuns event isFirst
    · exact secondSilent inert.1.2 secondRuns event isSecond
    · exact restSilent inert.2 laterRuns event isLater

/-! ## Inert sequences -/

/-- Two states with the same histories. -/
structure SameHistories (first second : PassState) : Prop where
  accesses : first.accessHistory = second.accessHistory
  writes : first.writeHistory = second.writeHistory

namespace SameHistories

theorem trans
    {first second third : PassState}
    (same : SameHistories first second)
    (next : SameHistories second third) :
    SameHistories first third where
  accesses := same.accesses.trans next.accesses
  writes := same.writes.trans next.writes

theorem noteUnits_nil :
    SameHistories (state.noteUnits []) state where
  accesses := by simp [PassState.noteUnits, PassState.mapAccesses]
  writes := by simp [PassState.noteUnits, PassState.mapAccesses]

theorem processStatement_nil :
    SameHistories (processStatement context isRevisitPass (state.noteUnits []) []).2 state where
  accesses := by
    simp [processStatement, requiredSyncs, dedupSyncRequirements, updateLatestAccessHistory,
      PassState.updateSyncStatesAfterSync, PassState.withCounter, PassState.noteUnits,
      PassState.mapAccesses]
  writes := by
    simp [processStatement, requiredSyncs, dedupSyncRequirements, updateLatestAccessHistory,
      PassState.updateSyncStatesAfterSync, PassState.withCounter, PassState.noteUnits,
      PassState.mapAccesses]

theorem overwrittenBy
    {saved : PassState}
    (same : SameHistories state saved)
    (counter : Nat) :
    SameHistories ((saved.overwrittenBy state).withCounter counter) saved where
  accesses := by
    funext name
    simp [PassState.withCounter, PassState.overwrittenBy, overwrite, same.accesses]
  writes := by
    funext name
    simp [PassState.withCounter, PassState.overwrittenBy, overwrite, same.writes]

end SameHistories

theorem StateTracks.of_same
    {other : PassState}
    (tracks : StateTracks context isRevisitPass window state run)
    (same : SameHistories other state) :
    StateTracks context isRevisitPass window other run where
  accesses := by
    rw [same.accesses]
    exact tracks.accesses
  writes := by
    rw [same.writes]
    exact tracks.writes
  consistent :=
    { latestWrite := by
        rw [same.accesses, same.writes]
        exact tracks.consistent.latestWrite
      accessKnown := by
        rw [same.accesses, same.writes]
        exact tracks.consistent.accessKnown }

theorem visitBy_of_inert (inert : isInert context block = true) :
    SameHistories (visitBy context isRevisitPass state block).2 state := by
  induction block generalizing state with
  | stop syncs =>
    simp only [isInert, List.isEmpty_iff] at inert
    subst inert
    cases isRevisitPass <;> exact .noteUnits_nil
  | operation syncs op rest restSame =>
    simp only [isInert, Bool.and_eq_true, List.isEmpty_iff] at inert
    obtain ⟨⟨rfl, quiet⟩, restInert⟩ := inert
    simp only [visitBy_operation, quiet]
    exact (restSame restInert).trans .processStatement_nil
  | letStmt syncs value body rest bodySame restSame =>
    simp only [isInert, Bool.and_eq_true, List.isEmpty_iff] at inert
    obtain ⟨⟨⟨rfl, quiet⟩, bodyInert⟩, restInert⟩ := inert
    simp only [visitBy_letStmt, quiet]
    exact ((restSame restInert).trans (bodySame bodyInert)).trans .processStatement_nil
  | ifThenElse syncs condition thenCase elseCase rest thenSame elseSame restSame =>
    simp only [isInert, Bool.and_eq_true, List.isEmpty_iff] at inert
    obtain ⟨⟨⟨rfl, thenInert⟩, _⟩, restInert⟩ := inert
    rw [visitBy_ifThenElse]
    exact ((restSame restInert).trans ((thenSame thenInert).overwrittenBy _)).trans .noteUnits_nil
  | forLoop syncs extent body rest bodySame restSame =>
    simp only [isInert, Bool.and_eq_true, List.isEmpty_iff] at inert
    obtain ⟨⟨rfl, bodyInert⟩, restInert⟩ := inert
    have bodyKeeps := (@bodySame (state.noteUnits []) bodyInert).trans .noteUnits_nil
    cases isRevisitPass with
    | true => exact (restSame restInert).trans bodyKeeps
    | false => exact (restSame restInert).trans ⟨bodyKeeps.accesses, bodyKeeps.writes⟩
  | unrolledLoop syncs extent first second rest firstSame secondSame restSame =>
    simp only [isInert, Bool.and_eq_true, List.isEmpty_iff] at inert
    obtain ⟨⟨⟨rfl, firstInert⟩, secondInert⟩, restInert⟩ := inert
    rw [visitBy_unrolledLoop]
    exact (((restSame restInert).trans (secondSame secondInert)).trans
      (firstSame firstInert)).trans .noteUnits_nil

/-! ## Branches and loops -/

theorem Passed.branch {saved first : PassState} {thenCase elseCase : Block}
    (tracks : StateTracks context isRevisitPass window saved run)
    (thenPassed : ∀ inner,
      Executes context thenCase inner → Passed context isRevisitPass window first run inner)
    (elseCovers : ∀ inner, Executes context elseCase inner → Covers context window run inner)
    (thenSame : isInert context thenCase = true → SameHistories first saved)
    (executes :
      Executes context thenCase next ∨
        ∃ taken,
          Executes context elseCase taken ∧ next = taken ++ passedBy context [thenCase, elseCase]) :
    Passed context isRevisitPass window (saved.overwrittenBy first) run next := by
  rcases executes with thenRuns | ⟨taken, elseRuns, rfl⟩
  · have passed := thenPassed next thenRuns
    exact ⟨passed.covers, passed.tracks.overwrittenBy tracks.consistent⟩
  · refine ⟨(elseCovers taken elseRuns).append (.quiet (recorded_passedBy _)), ?_⟩
    unfold passedBy
    split
    · rename_i bothInert
      simp only [List.all_cons, List.all_nil, Bool.and_true, Bool.and_eq_true] at bothInert
      rw [List.append_nil]
      have unchanged := tracks.silent (recorded_of_inert bothInert.2 elseRuns)
      exact (unchanged.of_same (thenSame bothInert.1)).overwrittenBy tracks.consistent
    · obtain ⟨inner, thenRuns⟩ := exists_executes context thenCase
      have consistent := (thenPassed inner thenRuns).tracks.consistent
      rw [← List.append_assoc]
      exact .broken (tracks.consistent.overwrittenBy consistent)

theorem StateTracks.noRounds (tracks : StateTracks context isRevisitPass window saved run)
    (consistent : Consistent finish)
    (bodySame : isInert context body = true → SameHistories finish saved) :
    StateTracks context isRevisitPass window finish (run ++ passedBy context [body]) := by
  unfold passedBy
  split
  · rename_i inert
    simp only [List.all_cons, List.all_nil, Bool.and_true] at inert
    rw [List.append_nil]
    exact tracks.of_same (bodySame inert)
  · exact .broken consistent

theorem Passed.revisitedRounds (tracks : StateTracks context isRevisitPass window saved run)
    (reached : ∀ position, window position → position < run.length)
    (each : ∀ round ∈ rounds, ∀ past, (∀ position, window position → position < past.length) →
      StateTracks context isRevisitPass window saved past →
      Passed context isRevisitPass window finish past round)
    (nonempty : rounds ≠ []) : Passed context isRevisitPass window finish run rounds.flatten := by
  induction rounds generalizing run with
  | nil => exact absurd rfl nonempty
  | cons round rest ih =>
    have passed := each round List.mem_cons_self run reached tracks
    rw [List.flatten_cons]
    by_cases last : rest = []
    · subst last
      rw [List.flatten_nil, List.append_nil]
      exact passed
    · exact passed.append
        (ih (tracks.grow reached) (reached_append reached round)
          (fun other member => each other (List.mem_cons_of_mem _ member)) last)

theorem StateTracks.beyond
    (consistent : Consistent state) :
    StateTracks context isRevisitPass (fun i => run.length ≤ i) state run where
  accesses := .beyond
  writes := .beyond
  consistent := consistent

theorem StateTracks.narrow
    {smaller : Nat → Prop}
    (tracks : StateTracks context isRevisitPass window state run)
    (inside : ∀ position, smaller position → window position) :
    StateTracks context isRevisitPass smaller state run where
  accesses := tracks.accesses.narrow inside
  writes := tracks.writes.narrow inside
  consistent := tracks.consistent

/--
Iterations after the first one.  The first visit covers what an iteration does to itself, the
revisit what it finds from before, and the end of the first visit tracks every iteration.
-/
theorem Passed.laterRounds (consistent : Consistent saved)
    (visited : ∀ round ∈ rounds, ∀ window past, StateTracks context false window saved past →
      Passed context false window finish past round)
    (revisited : ∀ round ∈ rounds, ∀ window past,
      (∀ position, window position → position < past.length) →
      StateTracks context true window (saved.backEdge finish) past →
      Covers context window past round)
    (tracks : StateTracks context false window finish run) :
    Passed context false window finish run rounds.flatten := by
  induction rounds generalizing run with
  | nil => exact .silent tracks fun _ member => (by cases member)
  | cons round rest ih =>
    rw [List.flatten_cons]
    let entered : Nat → Prop := fun i => window i ∧ i < run.length
    have tracksEntered : StateTracks context false entered finish run :=
      tracks.narrow fun _ isEntered => isEntered.1
    have own := visited round List.mem_cons_self _ run (.beyond consistent)
    have fromBefore := revisited round List.mem_cons_self entered run
      (fun _ isEntered => isEntered.2) (tracksEntered.backEdge consistent)
    have grown : StateTracks context false entered finish (run ++ round) :=
      tracksEntered.grow fun _ isEntered => isEntered.2
    have passed : Passed context false window finish run round :=
      { covers := .join fromBefore own.covers
        tracks :=
          { accesses := .join grown.accesses own.tracks.accesses
            writes := .join grown.writes own.tracks.writes
            consistent := tracks.consistent } }
    exact passed.append
      (ih
        (fun other member => visited other (List.mem_cons_of_mem _ member))
        (fun other member => revisited other (List.mem_cons_of_mem _ member)) passed.tracks)

theorem Passed.visitedRounds
    (visited : ∀ round ∈ rounds, ∀ window past, StateTracks context false window saved past →
      Passed context false window finish past round)
    (revisited : ∀ round ∈ rounds, ∀ window past,
      (∀ position, window position → position < past.length) →
      StateTracks context true window (saved.backEdge finish) past →
      Covers context window past round)
    (tracks : StateTracks context false window saved run)
    (nonempty : rounds ≠ []) : Passed context false window finish run rounds.flatten := by
  cases rounds with
  | nil => exact absurd rfl nonempty
  | cons round rest =>
    have passed := visited round List.mem_cons_self window run tracks
    rw [List.flatten_cons]
    exact passed.append
      (.laterRounds tracks.consistent
        (fun other member => visited other (List.mem_cons_of_mem _ member))
        (fun other member => revisited other (List.mem_cons_of_mem _ member)) passed.tracks)

/-- A loop passes if its rounds do. -/
theorem Passed.loop {body : Block} (tracks : StateTracks context isRevisitPass window saved run)
    (consistent : ∀ inner, Executes context body inner → Consistent finish)
    (bodySame : isInert context body = true → SameHistories finish saved)
    (roundsPassed : rounds ≠ [] → Passed context isRevisitPass window finish run rounds.flatten) :
    Passed context isRevisitPass window finish run
      (if rounds = [] then passedBy context [body] else rounds.flatten) := by
  split
  · obtain ⟨inner, innerRuns⟩ := exists_executes context body
    exact ⟨.quiet (recorded_passedBy _), tracks.noRounds (consistent inner innerRuns) bodySame⟩
  · rename_i nonempty
    exact roundsPassed nonempty

/-! ## Visits -/

theorem grown
    (reached : isRevisitPass = true → ∀ position, window position → position < run.length)
    (added : List Event) :
    isRevisitPass = true → ∀ position, window position → position < (run ++ added).length :=
  fun isRevisit => reached_append (reached isRevisit) added

/-- A visited block passes if revisited blocks do. -/
theorem visitBy_passed_of_revisit {larger : Block} (known : context.plan.Known)
    (revisits : isRevisitPass = false → ∀ {window state block larger run next},
      Includes larger (visitBy context true state block).1 →
      Executes context larger next →
      (∀ position, window position → position < run.length) →
      StateTracks context true window state run →
      Covers context window run next)
    (includes : Includes larger (visitBy context isRevisitPass state block).1)
    (executes : Executes context larger next)
    (reached : isRevisitPass = true → ∀ position, window position → position < run.length)
    (tracks : StateTracks context isRevisitPass window state run) :
    Passed context isRevisitPass window (visitBy context isRevisitPass state block).2 run next := by
  induction block generalizing state larger window run next with
  | stop syncs =>
    have includes : Includes larger (.stop syncs) := by cases isRevisitPass <;> exact includes
    cases includes with
    | stop subset =>
      rw [Executes] at executes
      subst executes
      cases isRevisitPass <;> exact .syncs tracks subset
  | operation syncs op rest restPassed =>
    rw [visitBy_operation] at includes ⊢
    cases includes with
    | operation subset restIncludes =>
      obtain ⟨later, laterRuns, rfl⟩ := executes
      have passed := @Passed.statement _ _ _ _ _ (.operation op) _ _ known tracks reached subset
      rw [List.append_cons]
      exact passed.append (restPassed restIncludes laterRuns (grown reached _) passed.tracks)
  | letStmt syncs value body rest bodyPassed restPassed =>
    rw [visitBy_letStmt] at includes ⊢
    cases includes with
    | letStmt subset bodyIncludes restIncludes =>
      obtain ⟨inner, later, innerRuns, laterRuns, rfl⟩ := executes
      have passed := @Passed.statement _ _ _ _ _ (.letValue value) _ _ known tracks reached subset
      have innerPassed := bodyPassed bodyIncludes innerRuns (grown reached _) passed.tracks
      rw [List.append_cons]
      exact passed.append
        (innerPassed.append
          (restPassed restIncludes laterRuns (grown (grown reached _) _) innerPassed.tracks))
  | ifThenElse syncs condition thenCase elseCase rest thenPassed elsePassed restPassed =>
    rw [visitBy_ifThenElse] at includes ⊢
    cases includes with
    | @ifThenElse largerSyncs _ _ largerThen _ largerElse _ _ _ subset thenIncludes elseIncludes
        restIncludes =>
      obtain ⟨inner, later, innerRuns, laterRuns, rfl⟩ := executes
      have passed := Passed.evaluate tracks subset condition
      have isReached := grown reached (syncEvents largerSyncs ++ [.evaluate condition])
      have branchPassed := Passed.branch passed.tracks
        (fun taken takenRuns => thenPassed thenIncludes takenRuns isReached passed.tracks)
        (fun taken takenRuns =>
          (elsePassed elseIncludes takenRuns isReached (passed.tracks.withCounter _)).covers)
        (fun inert => visitBy_of_inert
          ((visitBy_includes context _ _ _).isInert (thenIncludes.isInert inert)))
        innerRuns
      rw [List.append_cons]
      refine passed.append (branchPassed.append ?_)
      exact restPassed restIncludes laterRuns (grown isReached _)
        (branchPassed.tracks.withCounter _)
  | forLoop syncs extent body rest bodyPassed restPassed =>
    cases isRevisitPass with
    | true =>
      cases includes with
      | @forLoop largerSyncs _ _ largerBody _ _ _ subset bodyIncludes restIncludes =>
        obtain ⟨rounds, later, roundsRun, laterRuns, rfl⟩ := executes
        have passed := Passed.evaluate tracks subset extent
        have isReached := grown reached (syncEvents largerSyncs ++ [.evaluate extent])
        have loopPassed := Passed.loop passed.tracks
          (fun _ innerRuns =>
            (bodyPassed bodyIncludes innerRuns isReached passed.tracks).tracks.consistent)
          (fun inert => visitBy_of_inert
            ((visitBy_includes context true _ _).isInert (bodyIncludes.isInert inert)))
          (fun nonempty => .revisitedRounds passed.tracks (isReached rfl)
            (fun round isRound past pastReached pastTracks =>
              bodyPassed bodyIncludes (roundsRun round isRound) (fun _ => pastReached) pastTracks)
            nonempty)
        rw [List.append_cons]
        refine passed.append (loopPassed.append ?_)
        exact restPassed restIncludes laterRuns (grown isReached _) loopPassed.tracks
    | false =>
      cases includes with
      | @forLoop largerSyncs _ _ largerBody _ _ _ subset bodyIncludes restIncludes =>
        obtain ⟨rounds, later, roundsRun, laterRuns, rfl⟩ := executes
        have passed := Passed.evaluate tracks subset extent
        have includesFirst : Includes largerBody
            (visitBy context false (state.noteUnits syncs) body).1 :=
          bodyIncludes.trans (visitBy_includes context true _ _)
        have loopPassed := Passed.loop passed.tracks
          (fun _ innerRuns =>
            (bodyPassed includesFirst innerRuns Bool.noConfusion passed.tracks).tracks.consistent)
          (fun inert => visitBy_of_inert
            ((visitBy_includes context false _ _).isInert (includesFirst.isInert inert)))
          (fun nonempty => .visitedRounds
            (fun round isRound _ past pastTracks =>
              bodyPassed includesFirst (roundsRun round isRound) Bool.noConfusion pastTracks)
            (fun round isRound _ past pastReached pastTracks =>
              revisits rfl bodyIncludes (roundsRun round isRound) pastReached pastTracks)
            passed.tracks nonempty)
        rw [List.append_cons]
        refine passed.append (loopPassed.append ?_)
        exact restPassed restIncludes laterRuns Bool.noConfusion (loopPassed.tracks.withCounter _)
  | unrolledLoop syncs extent first second rest firstPassed secondPassed restPassed =>
    rw [visitBy_unrolledLoop] at includes ⊢
    cases includes with
    | unrolledLoop subset firstIncludes secondIncludes restIncludes =>
      obtain ⟨firstRound, secondRound, later, firstRuns, secondRuns, laterRuns, rfl⟩ := executes
      have passed := Passed.syncs tracks subset
      have passedFirst := firstPassed firstIncludes firstRuns (grown reached _) passed.tracks
      have passedSecond := secondPassed secondIncludes secondRuns (grown (grown reached _) _)
        passedFirst.tracks
      have passedRest := restPassed restIncludes laterRuns (grown (grown (grown reached _) _) _)
        passedSecond.tracks
      exact passed.append (passedFirst.append (passedSecond.append passedRest))

theorem visitStmt_passed {larger : Block} (known : context.plan.Known)
    (includes : Includes larger (visitStmt context state block).1)
    (executes : Executes context larger next)
    (tracks : StateTracks context false window state run) :
    Passed context false window (visitStmt context state block).2 run next :=
  visitBy_passed_of_revisit known
    (fun _ _ _ _ _ _ _ revisited runs reached entered =>
      (visitBy_passed_of_revisit known Bool.noConfusion revisited runs (fun _ => reached)
        entered).covers)
    includes executes Bool.noConfusion tracks

/-- Every run of the output covers what the pass tracks. -/
theorem substitute_covers (known : context.plan.Known)
    (executes : Executes context (substitute context body) run) :
    Covers context (fun _ => True) [] run := by
  have nothing : StateTracks context false (fun _ => True) .initial [] :=
    (StateTracks.beyond .initial).narrow fun _ _ => Nat.zero_le _
  exact (visitStmt_passed known (.refl _) executes nothing).covers

end Rules

/-! ## Tracked hazards -/

section Hazards

variable {context : PassContext} {run : List Event} {first second : Occurrence}

theorem exists_position {event : Event} {start finish : Nat}
    (member : event ∈ (run.take finish).drop (start + 1)) :
    ∃ position, start < position ∧ position < finish ∧ run[position]? = some event := by
  obtain ⟨index, found⟩ := List.mem_iff_getElem?.mp member
  rw [List.getElem?_drop, List.getElem?_take] at found
  split at found
  · exact ⟨start + 1 + index, by omega, by assumption, found⟩
  · cases found

theorem StillKnown.lastRecord (known : StillKnown context run first second)
    (before : first.position < second.position) :
    (accessRecorder context).LastRecord (run.take second.position) first.position first.access
        ((run.take second.position).drop (first.position + 1)) ∨
      (writeRecorder context).LastRecord (run.take second.position) first.position first.access
        ((run.take second.position).drop (first.position + 1)) := by
  obtain ⟨event, found, recorded⟩ := known.firstRecorded
  have foundTake : (run.take second.position)[first.position]? = some event := by
    rw [List.getElem?_take, if_pos before]
    exact found
  obtain ⟨inside, isEvent⟩ := List.getElem?_eq_some_iff.mp foundTake
  have split : run.take second.position =
      (run.take second.position).take first.position ++
        event :: (run.take second.position).drop (first.position + 1) := by
    rw [← isEvent, List.getElem_cons_drop, List.take_append_drop]
  have atPosition : ((run.take second.position).take first.position).length = first.position :=
    List.length_take_of_le inside.le
  have unbroken : ∀ next ∈ (run.take second.position).drop (first.position + 1),
      next ≠ .bypass := by
    rintro next member rfl
    obtain ⟨position, above, below, isBypass⟩ := exists_position member
    exact known.followed position above below isBypass
  rcases known.latest with noAccess | ⟨isWrite, noWrite⟩
  · refine Or.inl ⟨_, event, split, atPosition, recorded, ?_⟩
    intro next member
    refine ⟨unbroken next member, ?_⟩
    intro other otherRecorded
    obtain ⟨position, above, below, isNext⟩ := exists_position member
    exact noAccess ⟨position, other⟩ above below ⟨next, isNext, otherRecorded⟩
  · refine Or.inr ⟨_, event, split, atPosition, List.mem_filter.mpr ⟨recorded, isWrite⟩, ?_⟩
    intro next member
    refine ⟨unbroken next member, ?_⟩
    intro other otherRecorded
    obtain ⟨otherIn, otherWrites⟩ := List.mem_filter.mp otherRecorded
    obtain ⟨position, above, below, isNext⟩ := exists_position member
    exact noWrite ⟨position, other⟩ above below ⟨next, isNext, otherIn⟩ otherWrites

theorem StillKnown.syncedStep (covers : Covers context (fun _ => True) [] run)
    (known : StillKnown context run first second)
    (hazard : Hazard context run first second) : SyncedStep context run first second := by
  obtain ⟨event, found, recorded⟩ := known.secondRecorded
  obtain ⟨inside, isEvent⟩ := List.getElem?_eq_some_iff.mp found
  have split : run = run.take second.position ++ event :: run.drop (second.position + 1) := by
    rw [← isEvent, List.getElem_cons_drop, List.take_append_drop]
  have covered := covers _ event _ split second.access recorded first.position first.access _
    trivial (known.lastRecord hazard.before) hazard.shouldSync hazard.overlaps hazard.writes
  obtain ⟨unit, member, orders⟩ := covered
  obtain ⟨position, above, below, isSync⟩ := exists_position member
  exact ⟨hazard.firstOccurs, hazard.secondOccurs, hazard.overlaps,
    position, unit, above, below, isSync, orders⟩

variable {other : Occurrence}

theorem Separated.earlierProducer (separated : Separated context run other second)
    (occurs : Occurs context run first) (earlier : first.position ≤ other.position)
    (sameBuffer : other.access.bufferName = first.access.bufferName)
    (samePipe : other.access.pipeline = first.access.pipeline) :
    Separated context run first second := by
  obtain ⟨middle, step, rest⟩ := Relation.TransGen.head'_iff.mp separated
  obtain ⟨_, middleOccurs, overlaps, position, unit, above, below, isSync, orders⟩ := step
  refine Relation.TransGen.head'_iff.mpr ⟨middle, ?_, rest⟩
  rw [sameBuffer] at overlaps
  rw [samePipe] at orders
  exact ⟨occurs, middleOccurs, overlaps, position, unit, by omega, below, isSync, orders⟩

theorem Separated.laterConsumer (separated : Separated context run first other)
    (occurs : Occurs context run second) (later : other.position ≤ second.position)
    (sameBuffer : other.access.bufferName = second.access.bufferName)
    (samePipe : other.access.pipeline = second.access.pipeline) :
    Separated context run first second := by
  obtain ⟨middle, rest, step⟩ := Relation.TransGen.tail'_iff.mp separated
  obtain ⟨middleOccurs, _, overlaps, position, unit, above, below, isSync, orders⟩ := step
  refine Relation.TransGen.tail'_iff.mpr ⟨middle, rest, ?_⟩
  rw [sameBuffer] at overlaps
  rw [samePipe] at orders
  exact ⟨middleOccurs, occurs, overlaps, position, unit, above, by omega, isSync, orders⟩

/-- A tracked hazard is separated by emitted synchronization. -/
theorem Tracked.separated (covers : Covers context (fun _ => True) [] run)
    (tracked : Tracked context run first second)
    (hazard : Hazard context run first second) : Separated context run first second := by
  induction tracked with
  | known stillKnown => exact .single (stillKnown.syncedStep covers hazard)
  | producer other earlier sameBuffer samePipe otherHazard _ otherSeparated =>
    exact (otherSeparated otherHazard).earlierProducer hazard.firstOccurs earlier sameBuffer
      samePipe
  | consumer other later sameBuffer samePipe otherHazard _ otherSeparated =>
    exact (otherSeparated otherHazard).laterConsumer hazard.secondOccurs later sameBuffer samePipe
  | chain other firstHazard secondHazard _ _ firstSeparated secondSeparated =>
    exact (firstSeparated firstHazard).trans (secondSeparated secondHazard)

/--
The output has the statements of the program, and in every run of it every hazard that one
latest access and one latest write of each buffer name can find is separated by emitted
synchronization.
-/
theorem substitute_separates_tracked
    {body : Block}
    (known : context.plan.Known)
    (executes : Executes context (substitute context body) run) :
    Includes (substitute context body) body ∧
      ∀ first second, Hazard context run first second → Tracked context run first second →
        Separated context run first second :=
  ⟨visitBy_includes context false .initial body, fun _ _ hazard tracked =>
    tracked.separated (substitute_covers known executes) hazard⟩

end Hazards

/-! ## Two programs -/

/-- A vector operation and the copy of a tile to global memory, as the table configures them. -/
def tileTable : OperationTable where
  operationConfig name :=
    match name with
    | "tl.ascend_exp" => some ⟨[(0, .write), (1, .read)], .v⟩
    | "copy_ub_to_gm" => some ⟨[(0, .read), (1, .write)], .mte3⟩
    | _ => none
  usesWorkspace _ := false

/-- The pass on A2 over two planned tiles. -/
def tileContext : PassContext where
  platform := .a2
  plan := vectorPlan
  table := tileTable
  isScalarVariable _ := false

/-- Copy the tile `a_ub` to global memory. -/
def storeTile : Operation :=
  .call (.external "copy_ub_to_gm")
    [.accessPtr "a_ub" (.literal 0) .read, .accessPtr "B" (.literal 0) .write]

/-- Set an element of the tile `a_ub`. -/
def setElement : Operation :=
  .store "a_ub" (.literal 0) (.literal 1)

/-- A loop that computes from a tile and then changes an element of the tile. -/
def expSetLoop : Block :=
  .forLoop [] (.var "n") (.operation [] expTile (.operation [] setElement (.stop []))) (.stop [])

/-- One iteration of the synchronized loop. -/
def expSetRound : List Event :=
  [.sync (.eventPair .s .v 2), .sync (.barrier .v), .operation expTile,
   .sync (.eventPair .v .s 1), .operation setElement]

/-- Two iterations: the changed element is separated from the next computation. -/
theorem expSetLoop_separated :
    vectorPlan.Known ∧
      Executes tileContext (substitute tileContext expSetLoop)
        (.evaluate (.var "n") :: (expSetRound ++ expSetRound)) ∧
      Separated tileContext (.evaluate (.var "n") :: (expSetRound ++ expSetRound))
        ⟨5, ⟨"a_ub", true, .s⟩⟩ ⟨8, ⟨"a_ub", false, .v⟩⟩ := by
  have output : substitute tileContext expSetLoop =
      .forLoop [] (.var "n")
        (.operation [.eventPair .s .v 2, .barrier .v] expTile
          (.operation [.eventPair .v .s 1] setElement (.stop []))) (.stop []) := by
    decide +kernel
  have executes : Executes tileContext (substitute tileContext expSetLoop)
      (.evaluate (.var "n") :: (expSetRound ++ expSetRound)) := by
    rw [output]
    refine ⟨[expSetRound, expSetRound], [], ?_, rfl, rfl⟩
    intro round member
    have isRound : round = expSetRound := by simpa using member
    rw [isRound]
    exact ⟨_, ⟨_, rfl, rfl⟩, rfl⟩
  have hazard : Hazard tileContext (.evaluate (.var "n") :: (expSetRound ++ expSetRound))
      ⟨5, ⟨"a_ub", true, .s⟩⟩ ⟨8, ⟨"a_ub", false, .v⟩⟩ :=
    { before := by decide
      firstOccurs := ⟨_, rfl, by decide⟩
      secondOccurs := ⟨_, rfl, by decide⟩
      shouldSync := by decide
      overlaps := Or.inl rfl
      writes := Or.inl rfl }
  have onlySyncs : ∀ position, 5 < position → position < 8 →
      ∃ unit, (Event.evaluate (.var "n") :: (expSetRound ++ expSetRound))[position]? =
        some (.sync unit) := by
    intro position above below
    obtain rfl | rfl : position = 6 ∨ position = 7 := by omega
    · exact ⟨_, rfl⟩
    · exact ⟨_, rfl⟩
  have tracked : Tracked tileContext (.evaluate (.var "n") :: (expSetRound ++ expSetRound))
      ⟨5, ⟨"a_ub", true, .s⟩⟩ ⟨8, ⟨"a_ub", false, .v⟩⟩ := by
    refine .known ⟨⟨_, rfl, by decide⟩, ⟨_, rfl, by decide⟩, ?_, Or.inl ?_⟩
    · intro position above below
      obtain ⟨unit, isSync⟩ := onlySyncs position above below
      rw [isSync]
      exact fun isBypass => Event.noConfusion (Option.some.inj isBypass)
    · rintro ⟨position, access⟩ above below ⟨event, isEvent, recorded⟩
      obtain ⟨unit, isSync⟩ := onlySyncs position above below
      rw [isSync, Option.some.injEq] at isEvent
      subst isEvent
      cases recorded
  exact ⟨vectorPlan_known, executes,
    (substitute_separates_tracked vectorPlan_known executes).2 _ _ hazard tracked⟩

/-- Two readers of a tile on different pipelines before an element of it is set. -/
def twoReaders : Block :=
  .operation [] expTile (.operation [] storeTile (.operation [] setElement (.stop [])))

/-- The second reader replaces the first one, and nothing orders the vector read and the store. -/
theorem twoReaders_unseparated :
    twoReaders.isSource = true ∧ vectorPlan.Known ∧
      ∃ run,
        Executes tileContext (substitute tileContext twoReaders) run ∧
          ¬ HazardsSeparated tileContext run := by
  have output : substitute tileContext twoReaders =
      .operation [] expTile
        (.operation [] storeTile (.operation [.eventPair .mte3 .s 1] setElement (.stop []))) := by
    decide +kernel
  refine ⟨by decide, vectorPlan_known,
    [.operation expTile, .operation storeTile, .sync (.eventPair .mte3 .s 1),
      .operation setElement], ?_, ?_⟩
  · rw [output]
    exact ⟨_, ⟨_, ⟨_, rfl, rfl⟩, rfl⟩, rfl⟩
  · intro separated
    have chain := separated ⟨0, ⟨"a_ub", false, .v⟩⟩ ⟨3, ⟨"a_ub", true, .s⟩⟩
      { before := by decide
        firstOccurs := ⟨_, rfl, by decide⟩
        secondOccurs := ⟨_, rfl, by decide⟩
        shouldSync := by decide
        overlaps := Or.inl rfl
        writes := Or.inr rfl }
    obtain ⟨middle, step, _⟩ := Relation.TransGen.head'_iff.mp chain
    obtain ⟨position, unit, above, _, isSync, orders⟩ := step.synced
    -- the only synchronization starts at the copying pipeline
    have onlyCopy : unit = .eventPair .mte3 .s 1 := by
      have inRun := List.mem_of_getElem? isSync
      simpa using inRun
    subst onlyCopy
    exact absurd orders.1 (by decide)

end TilelangAscend.SyncInsertVS
