import TilelangAscend.CriticalChainGaps
import TilelangAscend.IntervalLength
import TilelangAscend.StepCounter

namespace TilelangAscend.Simulator

open IntervalCover

/-!
# Busy cycles in statistics and trace

`SimulationStats.from_records` and the active-core counter of the trace fold the same
records.  The counter takes operation records only; the statistics merge the intervals of
all records of a resource, so that a recorded stall counts as busy time.
-/

/-- The interval of a record. -/
def ExecutionRecord.interval (record : ExecutionRecord) : Nat × Nat :=
  (record.startCycle, record.endCycle)

/-! ## Statistics -/

/-- The entry `intervals[resource]` of `from_records`. -/
def resourceIntervals (records : List ExecutionRecord) (resource : ResourceKey) :
    List (Nat × Nat) :=
  (records.filter fun record => record.resource = resource).map ExecutionRecord.interval

/-- The keys of `intervals`, in the order of their first records. -/
def recordedResources (records : List ExecutionRecord) : List ResourceKey :=
  (records.map ExecutionRecord.resource).eraseDups

/-- The latest end on each core, in the order of the first records. -/
def completionCycles (records : List ExecutionRecord) : List (Nat × Nat) :=
  ((records.map ExecutionRecord.coreId).eraseDups).map fun coreId =>
    (coreId, makespan (records.filter fun record => record.coreId = coreId))

/--
The part of `SimulationStats` that `from_records` computes from intervals and resources;
utilization is the busy time divided by the makespan.
-/
structure SimulationStats where
  makespanCycles : Nat
  taskCount : Nat
  busyCyclesByResource : List (ResourceKey × Nat)
  completionCycleByCore : List (Nat × Nat)
  loadImbalanceCycles : Nat
  deriving Repr, DecidableEq

/-- `SimulationStats.from_records`. -/
def simulationStats (records : List ExecutionRecord) : SimulationStats where
  makespanCycles := makespan records
  taskCount := records.length
  busyCyclesByResource :=
    (recordedResources records).map fun resource =>
      (resource, unionLength (resourceIntervals records resource))
  completionCycleByCore := completionCycles records
  loadImbalanceCycles :=
    let cycles := (completionCycles records).map Prod.snd
    (cycles.max?.getD 0) - (cycles.min?.getD 0)

/-- The busy time that the statistics report for a resource, 0 without an entry. -/
def SimulationStats.busyCycles (stats : SimulationStats) (resource : ResourceKey) : Nat :=
  (stats.busyCyclesByResource.lookup resource).getD 0

/-! ## Trace -/

/-- The entry `intervals_by_core[core]` of `_active_core_events`. -/
def coreIntervals (records : List ExecutionRecord) (coreId : Nat) : List (Nat × Nat) :=
  (records.filter fun record =>
    record.category = .operation ∧ record.durationCycles ≠ 0 ∧
      record.coreId = coreId).map ExecutionRecord.interval

/-- The keys of `intervals_by_core`. -/
def tracedCores (records : List ExecutionRecord) : List Nat :=
  ((records.filter fun record =>
    record.category = .operation ∧ record.durationCycles ≠ 0).map ExecutionRecord.coreId).dedup

/-- The list `merged` of a core. -/
def mergedCoreIntervals (records : List ExecutionRecord) (coreId : Nat) : List (Nat × Nat) :=
  merge (sortByStart (coreIntervals records coreId))

/-- `_active_core_events`: cycles with the value of the counter from there on. -/
def activeCoreEvents (records : List ExecutionRecord) : List (Nat × Int) :=
  StepCounter.samples
    ((tracedCores records).flatMap fun coreId =>
      StepCounter.intervalDeltas (mergedCoreIntervals records coreId))

/-! ## Agreement -/

/-- A cycle in which a record runs. -/
def ExecutionRecord.RunsAt (record : ExecutionRecord) (cycle : Nat) : Prop :=
  record.startCycle ≤ cycle ∧ cycle < record.endCycle

instance
    (record : ExecutionRecord)
    (cycle : Nat) :
    Decidable (record.RunsAt cycle) :=
  inferInstanceAs (Decidable (_ ∧ _))

/-- The cycles in which an operation runs on a resource. -/
def operationCycles (records : List ExecutionRecord) (resource : ResourceKey) : Finset Nat :=
  (Finset.range (makespan records)).filter fun cycle =>
    ∃ record ∈ records,
      record.category = .operation ∧ record.resource = resource ∧ record.RunsAt cycle

/-- A cycle that the statistics count as busy time of a resource. -/
def CountedBusy (records : List ExecutionRecord) (resource : ResourceKey) (cycle : Nat) : Prop :=
  Covers (resourceIntervals records resource) cycle

/-- A cycle at which the trace counts a core as active. -/
def CountedActive (records : List ExecutionRecord) (coreId cycle : Nat) : Prop :=
  Covers (mergedCoreIntervals records coreId) cycle

/-- What statistics and trace promise about busy time. -/
structure BusyAgrees (records : List ExecutionRecord) : Prop where
  /-- The busy time of a resource is the number of cycles in which an operation runs. -/
  busyCycles :
    ∀ resource,
      (simulationStats records).busyCycles resource = (operationCycles records resource).card
  /-- A core is counted active exactly when a resource of it is counted busy. -/
  activeCores :
    ∀ coreId cycle,
      CountedActive records coreId cycle ↔
        ∃ resource, resource.coreId = coreId ∧ CountedBusy records resource cycle
  /-- The counter of the trace shows how many cores are counted active. -/
  counter :
    ∀ cycle (active : Finset Nat),
      (∀ coreId, coreId ∈ active ↔ CountedActive records coreId cycle) →
      StepCounter.valueFrom 0 (activeCoreEvents records) cycle = active.card

/-- Every cycle of a stall is a cycle of an operation on the same resource. -/
def WaitsCovered (records : List ExecutionRecord) : Prop :=
  ∀ wait ∈ records, wait.category = .wait →
    ∀ cycle, wait.RunsAt cycle →
      ∃ record ∈ records,
        record.category = .operation ∧ record.resource = wait.resource ∧ record.RunsAt cycle

variable {records : List ExecutionRecord} {resource : ResourceKey} {coreId cycle : Nat}

theorem countedBusy_iff :
    CountedBusy records resource cycle ↔
      ∃ record ∈ records, record.resource = resource ∧ record.RunsAt cycle := by
  constructor
  · rintro ⟨interval, member, within⟩
    obtain ⟨record, isRecord, rfl⟩ := List.mem_map.mp member
    obtain ⟨listed, onResource⟩ := List.mem_filter.mp isRecord
    exact ⟨record, listed, of_decide_eq_true onResource, within⟩
  · rintro ⟨record, listed, onResource, within⟩
    exact ⟨record.interval,
      List.mem_map_of_mem (List.mem_filter.mpr ⟨listed, decide_eq_true onResource⟩), within⟩

variable {record : ExecutionRecord} {σ : Type} {model : SynchronizationModel σ}
  {config : SimulatorConfig} {program : KernelProgram}

theorem durationCycles_ne_zero (runs : record.RunsAt cycle) : record.durationCycles ≠ 0 := by
  obtain ⟨above, below⟩ := runs
  unfold ExecutionRecord.durationCycles
  omega

theorem countedActive_iff :
    CountedActive records coreId cycle ↔
      ∃ record ∈ records,
        record.category = .operation ∧ record.coreId = coreId ∧ record.RunsAt cycle := by
  have unmerged :
      CountedActive records coreId cycle ↔ Covers (coreIntervals records coreId) cycle := by
    rw [← @covers_sortByStart (coreIntervals records coreId)]
    exact ⟨covers_of_merge, covers_merge (sortByStart_sorted _)⟩
  rw [unmerged]
  constructor
  · rintro ⟨interval, member, within⟩
    obtain ⟨record, isRecord, rfl⟩ := List.mem_map.mp member
    obtain ⟨listed, passes⟩ := List.mem_filter.mp isRecord
    obtain ⟨isOperation, _, onCore⟩ := of_decide_eq_true passes
    exact ⟨record, listed, isOperation, onCore, within⟩
  · rintro ⟨record, listed, isOperation, onCore, within⟩
    have lasts := durationCycles_ne_zero within
    exact ⟨record.interval,
      List.mem_map_of_mem
        (List.mem_filter.mpr ⟨listed, decide_eq_true ⟨isOperation, lasts, onCore⟩⟩), within⟩

theorem endCycle_le_makespan (member : record ∈ records) : record.endCycle ≤ makespan records :=
  List.le_max_of_le' 0 (List.mem_map_of_mem member) le_rfl

theorem mem_operationCycles :
    cycle ∈ operationCycles records resource ↔
      ∃ record ∈ records,
        record.category = .operation ∧ record.resource = resource ∧ record.RunsAt cycle := by
  unfold operationCycles
  rw [Finset.mem_filter, Finset.mem_range]
  constructor
  · rintro ⟨_, runs⟩
    exact runs
  · rintro ⟨record, member, isOperation, onResource, within⟩
    have bounded := endCycle_le_makespan member
    exact ⟨lt_of_lt_of_le within.2 bounded, record, member, isOperation, onResource, within⟩

theorem busyCycles_eq :
    (simulationStats records).busyCycles resource =
      (points (resourceIntervals records resource)).card := by
  unfold SimulationStats.busyCycles simulationStats
  rw [ListHistory.lookup_keyed]
  split
  · rw [Option.getD_some, unionLength_eq_card]
  · rename_i absent
    have none : records.filter (fun record => record.resource = resource) = [] := by
      rw [List.filter_eq_nil_iff]
      intro record member onResource
      refine absent (List.mem_eraseDups.mpr ?_)
      rw [← of_decide_eq_true onResource]
      exact List.mem_map_of_mem member
    simp [resourceIntervals, none, points]

theorem mergedCoreIntervals_ordered (records : List ExecutionRecord) (coreId : Nat) :
    ∀ interval ∈ mergedCoreIntervals records coreId, interval.1 ≤ interval.2 := by
  intro interval member
  refine le_of_lt (merge_nonempty (sortByStart_sorted _) ?_ interval member)
  intro listed isListed
  rw [mem_sortByStart] at isListed
  obtain ⟨record, isRecord, rfl⟩ := List.mem_map.mp isListed
  obtain ⟨_, lasts, _⟩ := of_decide_eq_true (List.mem_filter.mp isRecord).2
  unfold ExecutionRecord.durationCycles at lasts
  unfold ExecutionRecord.interval
  omega

theorem activeCoreEvents_value {active : Finset Nat}
    (listed : ∀ coreId, coreId ∈ active ↔ CountedActive records coreId cycle) :
    StepCounter.valueFrom 0 (activeCoreEvents records) cycle = active.card := by
  have counts :
      ∀ coreId ∈ tracedCores records,
        StepCounter.total
            (StepCounter.intervalDeltas (mergedCoreIntervals records coreId)) cycle =
          if coreId ∈ active then 1 else 0 := by
    intro coreId _
    have counted :=
      StepCounter.total_intervalDeltas (mergedCoreIntervals_ordered records coreId)
        (merge_separated (sortByStart_sorted (coreIntervals records coreId))) cycle
    split
    · rename_i isActive
      exact counted.1 ((listed coreId).mp isActive)
    · rename_i inactive
      exact counted.2 fun covers => inactive ((listed coreId).mpr covers)
  have allTraced : active ⊆ (tracedCores records).toFinset := by
    intro coreId isActive
    rw [List.mem_toFinset]
    obtain ⟨record, member, isOperation, onCore, within⟩ :=
      countedActive_iff.mp ((listed coreId).mp isActive)
    have lasts : record.durationCycles ≠ 0 := durationCycles_ne_zero within
    refine List.mem_dedup.mpr ?_
    rw [← onCore]
    exact List.mem_map_of_mem (List.mem_filter.mpr ⟨member, decide_eq_true ⟨isOperation, lasts⟩⟩)
  have distinct : ((tracedCores records).filter fun coreId => coreId ∈ active).Nodup :=
    List.Nodup.filter _ (List.nodup_dedup _)
  have sameCores :
      ((tracedCores records).filter fun coreId => coreId ∈ active).toFinset = active := by
    ext coreId
    rw [List.mem_toFinset, List.mem_filter, decide_eq_true_eq]
    exact ⟨fun both => both.2,
      fun isActive => ⟨List.mem_toFinset.mp (allTraced isActive), isActive⟩⟩
  rw [activeCoreEvents, StepCounter.valueFrom_samples, StepCounter.total_flatMap counts,
    ← List.toFinset_card_of_nodup distinct, sameCores]

/-- The cores on which an operation runs at a cycle. -/
def runningCores (records : List ExecutionRecord) (cycle : Nat) : Finset Nat :=
  ((records.filter fun record =>
    record.category = .operation ∧ record.RunsAt cycle).map ExecutionRecord.coreId).toFinset

theorem mem_runningCores {coreId : Nat} :
    coreId ∈ runningCores records cycle ↔ CountedActive records coreId cycle := by
  rw [countedActive_iff, runningCores, List.mem_toFinset, List.mem_map]
  constructor
  · rintro ⟨record, isRecord, onCore⟩
    obtain ⟨listed, passes⟩ := List.mem_filter.mp isRecord
    obtain ⟨isOperation, runs⟩ := of_decide_eq_true passes
    exact ⟨record, listed, isOperation, onCore, runs⟩
  · rintro ⟨record, listed, isOperation, onCore, runs⟩
    exact ⟨record, List.mem_filter.mpr ⟨listed, decide_eq_true ⟨isOperation, runs⟩⟩, onCore⟩

/--
The report's intersection of merged intervals counts the cycles in both unions.  At every cycle,
and so in every event of the trace, the active-core counter is the number of cores on which an
operation runs.
-/
theorem intervalArithmetic_exact :
    (∀ lefts rights : List (Nat × Nat),
      intersectionLength (mergeIntervals lefts) (mergeIntervals rights) =
        (points lefts ∩ points rights).card) ∧
      ∀ (records : List ExecutionRecord),
        (∀ cycle,
          StepCounter.valueFrom 0 (activeCoreEvents records) cycle =
            (runningCores records cycle).card) ∧
          ∀ event ∈ activeCoreEvents records,
            event.2 = (runningCores records event.1).card := by
  constructor
  · intro lefts rights
    rw [intersectionLength_eq_card (mergeIntervals_separated lefts)
      (mergeIntervals_separated rights), points_mergeIntervals, points_mergeIntervals]
  · intro records
    have counts (cycle : Nat) :
        StepCounter.valueFrom 0 (activeCoreEvents records) cycle =
          (runningCores records cycle).card :=
      activeCoreEvents_value fun _ => mem_runningCores
    refine ⟨counts, ?_⟩
    intro event member
    rw [StepCounter.sample_value member]
    exact counts event.1

/--
Statistics and trace agree on busy time exactly when operations cover every cycle of every
stall on the same resource.
-/
theorem busyAgrees_iff
    (records : List ExecutionRecord) :
    BusyAgrees records ↔ WaitsCovered records := by
  have operationsCounted :
      ∀ resource,
        operationCycles records resource ⊆ points (resourceIntervals records resource) := by
    intro resource cycle member
    obtain ⟨record, isRecord, _, onResource, within⟩ := mem_operationCycles.mp member
    exact mem_points.mpr (countedBusy_iff.mpr ⟨record, isRecord, onResource, within⟩)
  constructor
  · intro agrees wait isWait _ cycle within
    have counted : cycle ∈ points (resourceIntervals records wait.resource) :=
      mem_points.mpr (countedBusy_iff.mpr ⟨wait, isWait, rfl, within⟩)
    have sameCard := agrees.busyCycles wait.resource
    rw [busyCycles_eq] at sameCard
    rw [← Finset.eq_of_subset_of_card_le (operationsCounted wait.resource)
      (le_of_eq sameCard)] at counted
    exact mem_operationCycles.mp counted
  · intro covered
    have runsOperation :
        ∀ record ∈ records, ∀ cycle, record.RunsAt cycle →
          ∃ operation ∈ records,
            operation.category = .operation ∧ operation.resource = record.resource ∧
              operation.RunsAt cycle := by
      intro record member cycle within
      cases category : record.category with
      | operation => exact ⟨record, member, category, rfl, within⟩
      | wait => exact covered record member category cycle within
    refine {
      busyCycles := ?_
      activeCores := ?_
      counter := fun cycle active listed => activeCoreEvents_value listed }
    · intro resource
      rw [busyCycles_eq]
      refine congrArg Finset.card (Finset.Subset.antisymm ?_ (operationsCounted resource))
      intro cycle member
      obtain ⟨record, isRecord, onResource, within⟩ := countedBusy_iff.mp (mem_points.mp member)
      obtain ⟨operation, isOperation, category, sameResource, runs⟩ :=
        runsOperation record isRecord cycle within
      exact mem_operationCycles.mpr
        ⟨operation, isOperation, category, sameResource.trans onResource, runs⟩
    · intro coreId cycle
      rw [countedActive_iff]
      constructor
      · rintro ⟨record, member, _, onCore, within⟩
        exact ⟨record.resource, onCore, countedBusy_iff.mpr ⟨record, member, rfl, within⟩⟩
      · rintro ⟨resource, onCore, counted⟩
        obtain ⟨record, member, onResource, within⟩ := countedBusy_iff.mp counted
        obtain ⟨operation, isOperation, category, sameResource, runs⟩ :=
          runsOperation record member cycle within
        refine ⟨operation, isOperation, category, ?_, runs⟩
        rw [← onCore, ← onResource, ← sameResource]
        rfl

/-! ## Completed runs -/

theorem Fires.stall_lasts {log : List Task} {state : RunState σ}
    (fired : Fires model config program log state) (member : record ∈ state.records)
    (isWait : record.category = .wait) : record.startCycle < record.endCycle := by
  induction fired with
  | initial =>
    cases member
  | @place earlierLog earlierState next task earlier isTask placed ih =>
    obtain ⟨step⟩ := attempt_placed placed
    have recordsShape :
        next.records =
          earlierState.records ++
            (waitRecords task step.decision step.placement ++ [step.record]) :=
      step.recordsShape
    rw [recordsShape] at member
    rcases List.mem_append.mp member with old | new
    · exact ih old
    · rcases List.mem_append.mp new with stall | operation
      · unfold waitRecords at stall
        split at stall
        · rename_i delayed
          rw [List.mem_singleton.mp stall]
          exact delayed
        · cases stall
      · rw [List.mem_singleton.mp operation] at isWait
        cases isWait

/-- In a completed run, statistics and trace agree exactly when no task stalls. -/
theorem busyAgrees_of_run_iff {result : ScheduleResult}
    (completes : run model config program = .ok result) :
    BusyAgrees result.records ↔ ∀ record ∈ result.records, record.category = .operation := by
  obtain ⟨log, state, fired, complete, rfl⟩ := run_fires completes
  rw [busyAgrees_iff]
  constructor
  · intro covered record member
    cases category : record.category with
    | operation => rfl
    | wait =>
      exfalso
      have lasts := fired.stall_lasts (mem_result_records.mp member) category
      obtain ⟨operation, isOperation, operationCategory, sameResource, within⟩ :=
        covered record member category record.startCycle ⟨le_rfl, lasts⟩
      have differs : operation ≠ record := by
        rintro rfl
        rw [category] at operationCategory
        cases operationCategory
      have symmetric :
          Std.Symm fun first second : ExecutionRecord =>
            first.resource = second.resource →
              first.endCycle ≤ second.startCycle ∨ second.endCycle ≤ first.startCycle :=
        ⟨fun first second apart same => (apart same.symm).symm⟩
      have apart :=
        (fired.validSchedule complete).disjoint.forall isOperation member differs sameResource
      unfold ExecutionRecord.RunsAt at within
      omega
  · intro operations record member isWait
    rw [operations record member] at isWait
    cases isWait

/-- Two loads and an mma, without a stall. -/
theorem loadsThenMma_busyAgrees :
    ∃ result, run noOpSynchronizationModel {} loadsThenMma = .ok result ∧
      BusyAgrees result.records := by
  have observed :
      (run noOpSynchronizationModel {} loadsThenMma).toOption.map
          (·.records.all (·.category = .operation)) = some true := by
    decide +kernel
  obtain ⟨result, completes, operations⟩ := ok_of_observed observed
  refine ⟨result, completes, (busyAgrees_of_run_iff completes).mpr fun record member => ?_⟩
  simpa using List.all_eq_true.mp operations record member

/-- A matrix task waits 5 cycles for the flag of a load; its pipe counts as busy meanwhile. -/
theorem flaggedLoad_busyDisagrees :
    ¬ ∀ (syncConfig : SyncConfig) (config : SimulatorConfig) (program : KernelProgram)
        (result : ScheduleResult),
        run (flagBarrierSynchronizationModel syncConfig) config program = .ok result →
        BusyAgrees result.records := by
  intro agrees
  let pipe : ResourceKey := { coreId := 0, lane := .cube, pipe := .m }
  have counted :
      (run (flagBarrierSynchronizationModel {}) {} flaggedLoad).toOption.map
          (fun result =>
            ((simulationStats result.records).busyCycles pipe,
              (operationCycles result.records pipe).card)) =
        some (16, 11) := by
    decide +kernel
  obtain ⟨result, completes, values⟩ := ok_of_observed counted
  have same := (agrees {} {} flaggedLoad result completes).busyCycles pipe
  simp only [Prod.mk.injEq] at values
  omega

end TilelangAscend.Simulator
