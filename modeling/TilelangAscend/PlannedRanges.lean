import TilelangAscend.ScanInvariant

namespace TilelangAscend.MemoryPlanning

/-!
# Planned ranges of live buffers

When the linear scan finishes, buffers that are live at a common statement hold disjoint ranges
inside the memory and annotated buffers stay at their addresses, as long as the annotated
ranges fit the memory, `CheckConflict` finds the interval of every annotated buffer, and no
buffer meets an annotated one in an end point only.
-/

/-! ## What a plan promises -/

/-- Live intervals of the buffers of one scope. -/
structure LiveBuffers (intervals : List LiveInterval) : Prop where
  distinct : (intervals.map LiveInterval.buffer).Nodup
  inOrder : ∀ interval ∈ intervals, interval.start ≤ interval.finish
  sizes : ∀ interval ∈ intervals, 32 ∣ interval.size.toNat

/-- `std::sort` by the start of an interval; it says nothing about equal starts. -/
structure SortsByStart (sort : List LiveInterval → List LiveInterval) : Prop where
  perm : ∀ intervals, (sort intervals).Perm intervals
  sorted :
    ∀ intervals,
      (sort intervals).Pairwise fun (first second : LiveInterval) => first.start ≤ second.start

/-- The plan of a scope is safe: ranges fit, annotations are kept and live buffers are apart. -/
structure SafePlan
    (memoryLimit : UInt64)
    (preAllocated : List (Buffer × Int))
    (intervals : List LiveInterval)
    (allocations : List Allocation) :
    Prop where
  planned :
    ∀ interval ∈ intervals,
      ∃ allocation ∈ allocations,
        allocation.buffer = interval.buffer ∧ allocation.size = interval.size
  inside :
    ∀ allocation ∈ allocations,
      32 ∣ allocation.offset.toNat ∧
        allocation.offset.toNat + allocation.size.toNat ≤ memoryLimit.toNat
  annotated :
    ∀ allocation ∈ allocations,
      ∀ address, preAllocated.lookup allocation.buffer = some address →
        (allocation.offset.toNat : Int) = address
  apart :
    ∀ first ∈ intervals,
      ∀ second ∈ intervals, first.buffer ≠ second.buffer → first.Meets second →
        ∀ firstRange ∈ allocations,
          ∀ secondRange ∈ allocations, firstRange.buffer = first.buffer →
            secondRange.buffer = second.buffer →
            DisjointRanges firstRange secondRange

/-! ## When a plan is safe -/

/-- No offset of a buffer that may fit the memory wraps around. -/
def Representable (memoryLimit : UInt64) (intervals : List LiveInterval) : Prop :=
  ∀ interval ∈ intervals, memoryLimit.toNat + 31 + interval.size.toNat < sizeRange

/-- Annotated buffers lie inside the memory at aligned addresses. -/
def AnnotatedInside (memoryLimit : UInt64) (preAllocated : List (Buffer × Int))
    (intervals : List LiveInterval) : Prop :=
  ∀ interval ∈ intervals,
    ∀ address, preAllocated.lookup interval.buffer = some address →
      0 ≤ address ∧ 32 ∣ address ∧ address + interval.size.toNat ≤ memoryLimit.toNat

/--
A buffer without an annotation that becomes live while an annotated one is live is live
together with it for more than an end point of one of the intervals.
-/
def NoEndpointTouch (preAllocated : List (Buffer × Int)) (intervals : List LiveInterval) : Prop :=
  ∀ annotated ∈ intervals, (preAllocated.lookup annotated.buffer).isSome →
    ∀ current ∈ intervals, preAllocated.lookup current.buffer = none →
      annotated.start ≤ current.start →
      annotated.Meets current →
      current.start < annotated.finish ∧ annotated.start < current.finish

/--
The second sort leaves the annotated buffers where the first one put them, if any buffer of the
scope has no annotation: only such a buffer makes the scan look the annotated ones up.
-/
def KeepsAnnotated (sort : List LiveInterval → List LiveInterval)
    (preAllocated : List (Buffer × Int)) (intervals : List LiveInterval) : Prop :=
  ∀ current ∈ intervals, preAllocated.lookup current.buffer = none →
    ∀ (position : Nat) (interval : LiveInterval), (sort intervals)[position]? = some interval →
      (preAllocated.lookup interval.buffer).isSome →
      (sort (sort intervals))[position]? = some interval

/-! ## The scan of a scope -/

/-- What the scan relies on for the intervals of a scope. -/
structure ScopeReady
    (scope : Scope)
    (intervals : List LiveInterval) :
    Prop where
  representable :
    ∀ interval ∈ intervals, scope.memoryLimit.toNat + 31 + interval.size.toNat < sizeRange
  sizes : ∀ interval ∈ intervals, 32 ∣ interval.size.toNat
  inOrder : ∀ interval ∈ intervals, interval.start ≤ interval.finish
  inside : AnnotatedInside scope.memoryLimit scope.preAllocated intervals
  noTouch : NoEndpointTouch scope.preAllocated intervals
  found :
    ∀ current ∈ intervals, scope.addressOf? current.buffer = none →
      ∀ interval ∈ intervals, (scope.addressOf? interval.buffer).isSome →
        scope.bufferMap interval.buffer = some interval

section Scope

variable {scope : Scope} {intervals : List LiveInterval}
  {entries : List (LiveInterval × Allocation)} {state : ScanState}

theorem Scanned.step {interval : LiveInterval} {time : Int} {next : ScanState}
    (scanned : Scanned scope entries time state) (ready : ScopeReady scope intervals)
    (areIntervals : ∀ entry ∈ entries, entry.1 ∈ intervals)
    (isInterval : interval ∈ intervals) (later : time ≤ interval.start)
    (steps : state.step scope interval = .ok next) :
    ∃ allocation, Scanned scope (entries ++ [(interval, allocation)]) interval.start next := by
  have representable := ready.representable interval isInterval
  have sizeAligned := ready.sizes interval isInterval
  obtain ⟨released, separated⟩ := scanned.expire (by omega) later
  simp only [ScanState.step] at steps
  cases recorded : scope.addressOf? interval.buffer with
  | some address =>
    simp only [recorded] at steps
    obtain ⟨nonnegative, aligned, inside⟩ := ready.inside interval isInterval address recorded
    exact released.placePreAllocated representable sizeAligned recorded nonnegative aligned
      inside steps
  | none =>
    simp only [recorded] at steps
    refine released.placeNormal separated representable sizeAligned recorded ?_ steps
    intro entry member isAnnotated
    have entryInterval := areIntervals entry (released.isActive entry member)
    have started := released.started entry (released.isActive entry member)
    have stillLive : interval.start ≤ entry.1.finish := by
      obtain ⟨_, notExpired⟩ := List.mem_filter.mp member
      simpa [ScanState.expiresBefore] using notExpired
    have meets : entry.1.Meets interval :=
      ⟨interval.start, ⟨started, stillLive⟩, le_refl _, ready.inOrder interval isInterval⟩
    obtain ⟨startsBefore, endsAfter⟩ :=
      ready.noTouch entry.1 entryInterval isAnnotated interval isInterval recorded started meets
    have found := ready.found interval isInterval recorded entry.1 entryInterval isAnnotated
    exact ⟨found, startsBefore, endsAfter⟩

variable {final : ScanState}

theorem Scanned.loop {remaining : List LiveInterval} {time : Int}
    (scanned : Scanned scope entries time state) (ready : ScopeReady scope intervals)
    (areIntervals : ∀ entry ∈ entries, entry.1 ∈ intervals)
    (remainingIntervals : ∀ interval ∈ remaining, interval ∈ intervals)
    (sorted : remaining.Pairwise fun first second => first.start ≤ second.start)
    (later : ∀ interval ∈ remaining, time ≤ interval.start)
    (loops : remaining.foldlM (ScanState.step scope) state = .ok final) :
    ∃ added lastTime,
      added.map Prod.fst = remaining ∧ Scanned scope (entries ++ added) lastTime final := by
  induction remaining generalizing entries time state with
  | nil =>
    cases loops
    exact ⟨[], time, rfl, by rwa [List.append_nil]⟩
  | cons interval rest ih =>
    obtain ⟨firstEarliest, restSorted⟩ := List.pairwise_cons.mp sorted
    rw [List.foldlM_cons] at loops
    cases steps : state.step scope interval with
    | error failure =>
      rw [steps] at loops
      cases loops
    | ok next =>
      rw [steps] at loops
      have isInterval := remainingIntervals interval List.mem_cons_self
      obtain ⟨allocation, extended⟩ :=
        scanned.step ready areIntervals isInterval (later interval List.mem_cons_self) steps
      have extendedIntervals :
          ∀ entry ∈ entries ++ [(interval, allocation)], entry.1 ∈ intervals := by
        intro entry member
        rcases List.mem_append.mp member with isOld | isNew
        · exact areIntervals entry isOld
        · rw [List.mem_singleton.mp isNew]
          exact isInterval
      obtain ⟨added, lastTime, addedAre, finished⟩ :=
        ih extended extendedIntervals
          (fun other member => remainingIntervals other (List.mem_cons_of_mem _ member))
          restSorted firstEarliest loops
      refine ⟨(interval, allocation) :: added, lastTime, by simp [addedAre], ?_⟩
      simpa using finished

theorem scan_finishes {sorted : List LiveInterval} (ready : ScopeReady scope sorted)
    (inOrder : sorted.Pairwise fun first second => first.start ≤ second.start)
    (loops : sorted.foldlM (ScanState.step scope) {} = .ok final) :
    ∃ entries lastTime, entries.map Prod.fst = sorted ∧ Scanned scope entries lastTime final := by
  have earliest : ∃ time : Int, ∀ interval ∈ sorted, time ≤ interval.start := by
    cases sorted with
    | nil => exact ⟨0, by simp⟩
    | cons first rest =>
      refine ⟨first.start, ?_⟩
      intro interval member
      rcases List.mem_cons.mp member with isFirst | inRest
      · rw [isFirst]
      · exact (List.pairwise_cons.mp inOrder).1 interval inRest
  obtain ⟨time, isEarliest⟩ := earliest
  obtain ⟨added, lastTime, addedAre, finished⟩ :=
    (Scanned.initial scope time).loop ready (by simp) (fun _ member => member) inOrder isEarliest
      loops
  exact ⟨added, lastTime, addedAre, by simpa using finished⟩

end Scope

/-! ## Looking up annotated buffers -/

variable {preAllocated : List (Buffer × Int)} {intervals : List LiveInterval}

theorem bufferMap_annotated {given sorted : List LiveInterval}
    (distinct : (given.map LiveInterval.buffer).Nodup)
    (keeps :
      ∀ (position : Nat) (interval : LiveInterval), given[position]? = some interval →
        (preAllocated.lookup interval.buffer).isSome →
        sorted[position]? = some interval)
    {interval : LiveInterval}
    (member : interval ∈ given)
    (isAnnotated : (preAllocated.lookup interval.buffer).isSome) :
    bufferMap given sorted interval.buffer = some interval := by
  unfold bufferMap
  cases found : given.findIdx? (fun other => decide (other.buffer = interval.buffer)) with
  | none =>
    have absent := List.findIdx?_eq_none_iff.mp found interval member
    simp at absent
  | some position =>
    obtain ⟨inside, passes, _⟩ := List.findIdx?_eq_some_iff_getElem.mp found
    have same : given[position] = interval :=
      List.inj_on_of_nodup_map distinct (List.getElem_mem inside) member (by simpa using passes)
    rw [Option.bind_some]
    exact keeps position interval (by rw [List.getElem?_eq_getElem inside, same]) isAnnotated

/-! ## Safe plans -/

theorem Scanned.safePlan {scope : Scope} {entries : List (LiveInterval × Allocation)}
    {time : Int} {state : ScanState} (scanned : Scanned scope entries time state)
    (distinct : (intervals.map LiveInterval.buffer).Nodup)
    (covers : (entries.map Prod.fst).Perm intervals) :
    SafePlan scope.memoryLimit scope.preAllocated intervals state.allocations := by
  have ofAllocation :
      ∀ allocation ∈ state.allocations, ∃ interval, (interval, allocation) ∈ entries := by
    intro allocation member
    rw [scanned.recorded] at member
    obtain ⟨entry, isEntry, rfl⟩ := List.mem_map.mp member
    exact ⟨entry.1, isEntry⟩
  have distinctEntries : (entries.map fun entry => entry.1.buffer).Nodup := by
    have permuted := (covers.map LiveInterval.buffer).nodup_iff.mpr distinct
    rwa [List.map_map] at permuted
  have entryOf : ∀ interval ∈ intervals, ∀ allocation ∈ state.allocations,
      allocation.buffer = interval.buffer → (interval, allocation) ∈ entries := by
    intro interval isInterval allocation member sameBuffer
    obtain ⟨owner, isEntry⟩ := ofAllocation allocation member
    have ownerInterval : owner ∈ intervals := covers.mem_iff.mp (List.mem_map_of_mem isEntry)
    have isOwner : owner = interval :=
      List.inj_on_of_nodup_map distinct ownerInterval isInterval
        ((scanned.placed _ isEntry).buffer.symm.trans sameBuffer)
    rwa [← isOwner]
  refine {
    planned := ?_
    inside := ?_
    annotated := ?_
    apart := ?_ }
  · intro interval isInterval
    obtain ⟨entry, isEntry, rfl⟩ := List.mem_map.mp (covers.mem_iff.mpr isInterval)
    have placed := scanned.placed entry isEntry
    refine ⟨entry.2, ?_, placed.buffer, placed.size⟩
    rw [scanned.recorded]
    exact List.mem_map_of_mem isEntry
  · intro allocation member
    obtain ⟨interval, isEntry⟩ := ofAllocation allocation member
    exact ⟨(scanned.placed _ isEntry).aligned, (scanned.placed _ isEntry).inside⟩
  · intro allocation member address isAnnotated
    obtain ⟨interval, isEntry⟩ := ofAllocation allocation member
    have placed := scanned.placed _ isEntry
    refine placed.annotated address ?_
    rw [← placed.buffer]
    exact isAnnotated
  · intro first isFirst second isSecond differs meets firstRange firstPlanned secondRange
      secondPlanned firstSame secondSame
    have firstEntry := entryOf first isFirst firstRange firstPlanned firstSame
    have secondEntry := entryOf second isSecond secondRange secondPlanned secondSame
    have symmetric :
        Std.Symm fun first second : LiveInterval × Allocation =>
          first.1.Meets second.1 → DisjointRanges first.2 second.2 := by
      constructor
      intro left right disjoint meets
      obtain ⟨shared, within, alsoWithin⟩ := meets
      exact (disjoint ⟨shared, alsoWithin, within⟩).symm
    have differsEntry : (first, firstRange) ≠ (second, secondRange) := by
      intro same
      exact differs (congrArg (fun entry => entry.1.buffer) same)
    exact scanned.apart.forall firstEntry secondEntry differsEntry meets

theorem planIntervals_scanned {sort : List LiveInterval → List LiveInterval}
    (sorts : SortsByStart sort) {memoryLimit : UInt64} (live : LiveBuffers intervals)
    (representable : Representable memoryLimit intervals)
    (noTouch : NoEndpointTouch preAllocated intervals)
    (keeps : KeepsAnnotated sort preAllocated intervals)
    (inside : AnnotatedInside memoryLimit preAllocated intervals) {allocations : List Allocation}
    (finishes : planIntervals sort memoryLimit preAllocated intervals = .ok allocations) :
    ∃ entries time state,
      (entries.map Prod.fst).Perm intervals ∧
        Scanned
          ⟨memoryLimit, preAllocated, bufferMap (sort intervals) (sort (sort intervals))⟩
          entries time state ∧
        state.allocations = allocations := by
  have covers : (sort (sort intervals)).Perm intervals := (sorts.perm _).trans (sorts.perm _)
  have areIntervals : ∀ interval ∈ sort (sort intervals), interval ∈ intervals :=
    fun interval member => covers.mem_iff.mp member
  have distinct : ((sort intervals).map LiveInterval.buffer).Nodup :=
    ((sorts.perm intervals).map _).nodup_iff.mpr live.distinct
  unfold planIntervals allocate at finishes
  simp only at finishes
  cases loops : (sort (sort intervals)).foldlM
      (ScanState.step
        ⟨memoryLimit, preAllocated, bufferMap (sort intervals) (sort (sort intervals))⟩) {} with
  | error failure =>
    rw [loops] at finishes
    cases finishes
  | ok final =>
    rw [loops] at finishes
    cases finishes
    have ready :
        ScopeReady
          ⟨memoryLimit, preAllocated, bufferMap (sort intervals) (sort (sort intervals))⟩
          (sort (sort intervals)) :=
      { representable := fun interval member =>
          representable interval (areIntervals interval member)
        sizes := fun interval member => live.sizes interval (areIntervals interval member)
        inOrder := fun interval member => live.inOrder interval (areIntervals interval member)
        inside := fun interval member => inside interval (areIntervals interval member)
        noTouch := fun annotated isAnnotated hasAddress current isCurrent =>
          noTouch annotated (areIntervals annotated isAnnotated) hasAddress current
            (areIntervals current isCurrent)
        found := fun current isCurrent normal interval member hasAddress =>
          bufferMap_annotated distinct (keeps current (areIntervals current isCurrent) normal)
            ((sorts.perm (sort intervals)).mem_iff.mp member) hasAddress }
    obtain ⟨entries, time, entriesAre, scanned⟩ := scan_finishes ready (sorts.sorted _) loops
    exact ⟨entries, time, final, entriesAre ▸ covers, scanned, rfl⟩

/--
A finished plan of a scope, in which no buffer touches an annotated one in an end point only
and the second sort moves no annotated buffer that is looked up, is safe exactly if the
annotated ranges are aligned and fit the memory.
-/
theorem plan_safe_iff_annotated_inside
    (sort : List LiveInterval → List LiveInterval)
    (sorts : SortsByStart sort)
    (memoryLimit : UInt64)
    (preAllocated : List (Buffer × Int))
    (intervals : List LiveInterval)
    (live : LiveBuffers intervals)
    (representable : Representable memoryLimit intervals)
    (noTouch : NoEndpointTouch preAllocated intervals)
    (keeps : KeepsAnnotated sort preAllocated intervals)
    (allocations : List Allocation)
    (finishes : planIntervals sort memoryLimit preAllocated intervals = .ok allocations) :
    SafePlan memoryLimit preAllocated intervals allocations ↔
      AnnotatedInside memoryLimit preAllocated intervals := by
  constructor
  · intro safe interval isInterval address isAnnotated
    obtain ⟨allocation, isAllocation, sameBuffer, sameSize⟩ := safe.planned interval isInterval
    obtain ⟨aligned, inside⟩ := safe.inside allocation isAllocation
    have atAddress := safe.annotated allocation isAllocation address (sameBuffer ▸ isAnnotated)
    rw [sameSize] at inside
    omega
  · intro inside
    obtain ⟨entries, time, state, covers, scanned, rfl⟩ :=
      planIntervals_scanned sorts live representable noTouch keeps inside finishes
    exact scanned.safePlan live.distinct covers

/-- Sorting by start as `std::sort` does it for short vectors. -/
def insertionSortByStart (intervals : List LiveInterval) : List LiveInterval :=
  intervals.insertionSort fun first second => first.start ≤ second.start

theorem insertionSortByStart_sorts : SortsByStart insertionSortByStart where
  perm intervals := List.perm_insertionSort _ intervals
  sorted intervals := by
    have isTotal : Std.Total fun first second : LiveInterval => first.start ≤ second.start :=
      ⟨fun first second => le_total first.start second.start⟩
    have isTransitive : IsTrans LiveInterval fun first second => first.start ≤ second.start :=
      ⟨fun _ _ _ firstSecond secondThird => firstSecond.trans secondThird⟩
    exact List.pairwise_insertionSort _ intervals

/-- A buffer that fills the memory, an annotated one and one that starts where that one ends. -/
def touchingBuffers : List LiveInterval :=
  [⟨"tile", 0, 1, 196352⟩, ⟨"index", 2, 5, 256⟩, ⟨"merged", 5, 7, 256⟩]

/-- The last buffer is put over the annotated one, although both are live at statement 5. -/
theorem touchingBuffers_overlap :
    planIntervals insertionSortByStart 196352 [("index", 0)] touchingBuffers =
        .ok [⟨"tile", 0, 196352, false⟩, ⟨"index", 0, 256, false⟩, ⟨"merged", 0, 256, true⟩] ∧
      ¬ ∀ (sort : List LiveInterval → List LiveInterval) (memoryLimit : UInt64)
          (preAllocated : List (Buffer × Int)) (intervals : List LiveInterval)
          (allocations : List Allocation),
          SortsByStart sort →
          LiveBuffers intervals →
          planIntervals sort memoryLimit preAllocated intervals = .ok allocations →
          SafePlan memoryLimit preAllocated intervals allocations := by
  have plan :
      planIntervals insertionSortByStart 196352 [("index", 0)] touchingBuffers =
        .ok [⟨"tile", 0, 196352, false⟩, ⟨"index", 0, 256, false⟩, ⟨"merged", 0, 256, true⟩] := by
    decide +kernel
  refine ⟨plan, ?_⟩
  intro safe
  have live : LiveBuffers touchingBuffers :=
    { distinct := by decide
      inOrder := by decide
      sizes := by decide }
  have isSafe :=
    safe insertionSortByStart 196352 [("index", 0)] touchingBuffers _
      insertionSortByStart_sorts live plan
  exact isSafe.apart ⟨"index", 2, 5, 256⟩ (by decide) ⟨"merged", 5, 7, 256⟩ (by decide)
    (by decide) ⟨5, by decide⟩ ⟨"index", 0, 256, false⟩ (by decide) ⟨"merged", 0, 256, true⟩
    (by decide) rfl rfl 0 ⟨by decide, by decide⟩

/-- The same buffers with the last one live together with the annotated one. -/
def overlappingBuffers : List LiveInterval :=
  [⟨"tile", 0, 1, 196352⟩, ⟨"index", 2, 5, 256⟩, ⟨"merged", 4, 7, 256⟩]

/-- The last buffer takes the memory of the first one that the annotated one leaves. -/
theorem overlappingBuffers_safe :
    planIntervals insertionSortByStart 196352 [("index", 1024)] overlappingBuffers =
        .ok [⟨"tile", 0, 196352, false⟩, ⟨"index", 1024, 256, false⟩, ⟨"merged", 0, 256, true⟩] ∧
      SafePlan 196352 [("index", 1024)] overlappingBuffers
        [⟨"tile", 0, 196352, false⟩, ⟨"index", 1024, 256, false⟩, ⟨"merged", 0, 256, true⟩] := by
  have plan :
      planIntervals insertionSortByStart 196352 [("index", 1024)] overlappingBuffers =
        .ok [⟨"tile", 0, 196352, false⟩, ⟨"index", 1024, 256, false⟩,
          ⟨"merged", 0, 256, true⟩] := by
    decide +kernel
  refine ⟨plan, ?_⟩
  refine (plan_safe_iff_annotated_inside insertionSortByStart insertionSortByStart_sorts 196352
    [("index", 1024)] overlappingBuffers ⟨by decide, by decide, by decide⟩ ?_ ?_ ?_ _ plan).mpr ?_
  · unfold Representable sizeRange
    decide
  · intro annotated isAnnotated hasAddress current isCurrent normal started meets
    simp only [overlappingBuffers, List.mem_cons, List.not_mem_nil, or_false]
      at isAnnotated isCurrent
    rcases isAnnotated with rfl | rfl | rfl
    · exact absurd hasAddress (by decide)
    · rcases isCurrent with rfl | rfl | rfl
      · exact absurd started (by decide)
      · exact absurd normal (by decide)
      · decide
    · exact absurd hasAddress (by decide)
  · intro _ _ _ position interval atPosition _
    have stable :
        insertionSortByStart (insertionSortByStart overlappingBuffers) =
          insertionSortByStart overlappingBuffers := by
      decide
    rw [stable]
    exact atPosition
  · intro interval isInterval address isAnnotated
    simp only [overlappingBuffers, List.mem_cons, List.not_mem_nil, or_false] at isInterval
    rcases isInterval with rfl | rfl | rfl
    · simp [List.lookup] at isAnnotated
    · cases isAnnotated
      decide
    · simp [List.lookup] at isAnnotated

end TilelangAscend.MemoryPlanning
