import Mathlib.Data.List.MinMax
import TilelangAscend.LiveMemory

namespace TilelangAscend.Simulator.Memory

open ExceptRules (exceptBind_eq_ok exists_of_mem_results)
open ListHistory (lookup_keyed)
open IntervalCover (Covers points points_congr unionLength unionLength_eq_card)
open LifetimeSweep (Lifetime Proper sweep mem_sweep le_last)

/-!
# The live bytes are exact unless a lifetime is empty

The sweep counts an object exactly while it is live, provided that its last use ends after
its first one starts.  An object that is used for no cycle is entered after it was dropped
and stays in every later entry.
-/

section Lifetimes

variable {table : AllocationTable} {uses : List MemoryUse} {object cycle : Nat}
  {values active : List Nat} {lifetime : Lifetime Nat}

private theorem min_le_iff (nonempty : values ≠ []) (bound : Nat) :
    values.min?.getD 0 ≤ bound ↔ ∃ value ∈ values, value ≤ bound := by
  cases least : values.min? with
  | none => exact absurd (List.min?_eq_none_iff.mp least) nonempty
  | some value =>
    obtain ⟨member, below⟩ := List.min?_eq_some_iff.mp least
    constructor
    · intro bounded
      exact ⟨value, member, bounded⟩
    · rintro ⟨other, isOther, bounded⟩
      exact le_trans (below other isOther) bounded

private theorem lt_max_iff (nonempty : values ≠ []) (bound : Nat) :
    bound < values.max?.getD 0 ↔ ∃ value ∈ values, bound < value := by
  cases greatest : values.max? with
  | none => exact absurd (List.max?_eq_none_iff.mp greatest) nonempty
  | some value =>
    obtain ⟨member, above⟩ := List.max?_eq_some_iff.mp greatest
    constructor
    · intro bounded
      exact ⟨value, member, bounded⟩
    · rintro ⟨other, isOther, bounded⟩
      exact lt_of_lt_of_le bounded (above other isOther)

private theorem foldr_max_attained (values : List Nat) :
    values.foldr max 0 = 0 ∨ values.foldr max 0 ∈ values := by
  induction values with
  | nil => exact Or.inl rfl
  | cons first rest ih =>
    rw [List.foldr_cons]
    rcases max_choice first (rest.foldr max 0) with isFirst | isRest
    · exact Or.inr (by rw [isFirst]; exact List.mem_cons_self)
    · rw [isRest]
      exact ih.imp_right (List.mem_cons_of_mem _)

/-- What a lifetime says about the uses of its object. -/
structure DescribesUses
    (uses : List MemoryUse)
    (lifetime : Lifetime Nat) :
    Prop where
  used : ∃ use ∈ uses, use.object = lifetime.key
  start_le_iff :
    ∀ cycle,
      lifetime.start ≤ cycle ↔
        ∃ first ∈ uses, first.object = lifetime.key ∧ first.startCycle ≤ cycle
  lt_stop_iff :
    ∀ cycle,
      cycle < lifetime.stop ↔ ∃ last ∈ uses, last.object = lifetime.key ∧ cycle < last.endCycle

theorem describes_of_mem (member : lifetime ∈ lifetimes uses) : DescribesUses uses lifetime := by
  obtain ⟨object, isUsed, rfl⟩ := List.mem_map.mp member
  obtain ⟨use, isUse, sameObject⟩ := List.mem_map.mp (List.mem_dedup.mp isUsed)
  have ownUse : use ∈ uses.filter fun other => other.object = object :=
    List.mem_filter.mpr ⟨isUse, decide_eq_true sameObject⟩
  refine {
    used := ⟨use, isUse, sameObject⟩
    start_le_iff := ?_
    lt_stop_iff := ?_ }
  · intro cycle
    have nonempty :
        (uses.filter fun other => other.object = object).map MemoryUse.startCycle ≠ [] :=
      List.ne_nil_of_mem (List.mem_map_of_mem ownUse)
    refine (min_le_iff nonempty cycle).trans ?_
    simp [and_assoc]
  · intro cycle
    have nonempty : (uses.filter fun other => other.object = object).map MemoryUse.endCycle ≠ [] :=
      List.ne_nil_of_mem (List.mem_map_of_mem ownUse)
    refine (lt_max_iff nonempty cycle).trans ?_
    simp [and_assoc]

theorem exists_lifetime {use : MemoryUse} (member : use ∈ uses) :
    ∃ lifetime ∈ lifetimes uses, lifetime.key = use.object :=
  ⟨_, List.mem_map_of_mem (List.mem_dedup.mpr (List.mem_map_of_mem member)), rfl⟩

theorem lifetimes_proper
    (ordered : ∀ use ∈ uses, use.startCycle ≤ use.endCycle) :
    Proper (lifetimes uses) where
  distinct := by
    have keys : (lifetimes uses).map Lifetime.key = (uses.map MemoryUse.object).dedup := by
      simp [lifetimes, Function.comp_def]
    rw [keys]
    exact List.nodup_dedup _
  ordered := by
    intro lifetime member
    have describes := describes_of_mem member
    obtain ⟨use, isUse, same⟩ := describes.used
    have starts := (describes.start_le_iff use.startCycle).mpr ⟨use, isUse, same, le_rfl⟩
    have within := ordered use isUse
    rcases Nat.eq_zero_or_pos use.endCycle with zero | positive
    · omega
    · have stops := (describes.lt_stop_iff (use.endCycle - 1)).mpr
        ⟨use, isUse, same, by omega⟩
      omega

theorem countedAt_iff_liveAt (describes : DescribesUses uses lifetime)
    (lasts : lifetime.start < lifetime.stop) :
    lifetime.CountedAt cycle ↔ LiveAt uses cycle lifetime.key := by
  unfold Lifetime.CountedAt LiveAt
  rw [← describes.start_le_iff, ← describes.lt_stop_iff]
  omega

theorem usesLast_iff :
    UsesLast uses ↔ ∀ lifetime ∈ lifetimes uses, lifetime.start < lifetime.stop := by
  constructor
  · intro last lifetime member
    have describes := describes_of_mem member
    obtain ⟨use, isUse, same⟩ := describes.used
    obtain ⟨first, isFirst, firstSame, final, isFinal, finalSame, spans⟩ := last use isUse
    have starts := (describes.start_le_iff first.startCycle).mpr
      ⟨first, isFirst, firstSame.trans same, le_rfl⟩
    exact lt_of_le_of_lt starts
      ((describes.lt_stop_iff first.startCycle).mpr ⟨final, isFinal, finalSame.trans same, spans⟩)
  · intro lasts use isUse
    obtain ⟨lifetime, member, same⟩ := exists_lifetime isUse
    have describes := describes_of_mem member
    obtain ⟨first, isFirst, firstSame, starts⟩ := (describes.start_le_iff lifetime.start).mp le_rfl
    obtain ⟨final, isFinal, finalSame, stops⟩ :=
      (describes.lt_stop_iff lifetime.start).mp (lasts lifetime member)
    exact ⟨first, isFirst, firstSame.trans same, final, isFinal, finalSame.trans same, by omega⟩

theorem memoryUses_ordered {records : List UseRecord}
    (resolved : memoryUses table records = .ok uses) :
    ∀ use ∈ uses, use.startCycle ≤ use.endCycle := by
  obtain ⟨lists, areUses, flat⟩ := exceptBind_eq_ok.mp resolved
  cases flat
  intro use member
  obtain ⟨list, isList, inList⟩ := List.mem_flatten.mp member
  obtain ⟨record, _, recordUses⟩ := exists_of_mem_results areUses isList
  unfold UseRecord.uses at recordUses
  split at recordUses
  · cases recordUses
    cases inList
  · obtain ⟨owner, _, regionUses⟩ := exceptBind_eq_ok.mp recordUses
    obtain ⟨region, _, regionUse⟩ := exists_of_mem_results regionUses inList
    obtain ⟨object, _, isUse⟩ := exceptBind_eq_ok.mp regionUse
    cases isUse
    exact record.ordered

/-! ## The bytes of an entry -/

private theorem activeRanges_eq_nil {scope : MemoryScope} {owner : Nat}
    (absent :
      ∀ object ∈ active,
        (table.objects object).scope = scope → (table.objects object).coreId ≠ owner) :
    activeRanges table active scope owner = [] := by
  have none :
      active.filter (fun object =>
        (table.objects object).scope = scope ∧ (table.objects object).coreId = owner) = [] := by
    rw [List.filter_eq_nil_iff]
    intro object member both
    obtain ⟨ofScope, ofOwner⟩ := of_decide_eq_true both
    exact absent object member ofScope ofOwner
  rw [activeRanges, none, List.map_nil]

theorem reportedBytes_bytesByScope (active : List Nat) (scope : MemoryScope) :
    (∀ owner,
        unionLength (activeRanges table active scope owner) ≤
          reportedBytes (bytesByScope table active) scope) ∧
      (reportedBytes (bytesByScope table active) scope = 0 ∨
        ∃ owner,
          unionLength (activeRanges table active scope owner) =
            reportedBytes (bytesByScope table active) scope) := by
  have reported :
      reportedBytes (bytesByScope table active) scope =
        if scope ∈ (active.map fun object => (table.objects object).scope).dedup then
          ((activeOwners table active scope).map fun owner =>
            unionLength (activeRanges table active scope owner)).foldr max 0
        else
          0 := by
    unfold reportedBytes bytesByScope
    rw [lookup_keyed]
    split <;> rfl
  rw [reported]
  split
  · rename_i listed
    constructor
    · intro owner
      by_cases occupies : owner ∈ activeOwners table active scope
      · exact List.le_max_of_le' 0 (List.mem_map_of_mem occupies) le_rfl
      · rw [activeRanges_eq_nil fun object member ofScope ofOwner => occupies ?_]
        · exact Nat.zero_le _
        · refine List.mem_dedup.mpr (List.mem_map.mpr ⟨object, ?_, ofOwner⟩)
          exact List.mem_filter.mpr ⟨member, decide_eq_true ofScope⟩
    · rcases foldr_max_attained
          ((activeOwners table active scope).map fun owner =>
            unionLength (activeRanges table active scope owner)) with zero | attained
      · exact Or.inl zero
      · obtain ⟨owner, _, same⟩ := List.mem_map.mp attained
        exact Or.inr ⟨owner, same⟩
  · rename_i notListed
    refine ⟨fun owner => ?_, Or.inl rfl⟩
    rw [activeRanges_eq_nil fun object member ofScope _ => notListed ?_]
    · exact le_rfl
    · rw [List.mem_dedup, ← ofScope]
      exact List.mem_map_of_mem member

theorem points_activeRanges_congr {first second : List Nat}
    (same : ∀ object, object ∈ first ↔ object ∈ second) (scope : MemoryScope) (owner : Nat) :
    points (activeRanges table first scope owner) =
      points (activeRanges table second scope owner) := by
  refine points_congr fun point => ?_
  simp [Covers, activeRanges, same]

theorem bytesByScope_eq_nil : bytesByScope table active = [] ↔ active = [] := by
  simp [bytesByScope]

end Lifetimes

variable {uses : List MemoryUse}

private theorem exists_last {lifetime : Lifetime Nat} (member : lifetime ∈ lifetimes uses) :
    ∃ entry, (sweep (lifetimes uses)).getLast? = some entry := by
  cases last : (sweep (lifetimes uses)).getLast? with
  | some entry => exact ⟨entry, rfl⟩
  | none =>
    have noCycles := LifetimeSweep.sweep_cycles (lifetimes uses)
    rw [List.getLast?_eq_none_iff.mp last, List.map_nil] at noCycles
    have isCycle := LifetimeSweep.mem_cycles.mpr ⟨lifetime, member, Or.inl (Eq.refl lifetime.start)⟩
    rw [← noCycles] at isCycle
    cases isCycle

theorem timelineExact_iff {table : AllocationTable}
    (ordered : ∀ use ∈ uses, use.startCycle ≤ use.endCycle) :
    TimelineExact table uses (timelineOf table uses) ↔ UsesLast uses := by
  have proper := lifetimes_proper ordered
  rw [usesLast_iff]
  constructor
  · intro agrees lifetime member
    by_contra empty
    have zero : lifetime.start = lifetime.stop := by
      have within := proper.ordered lifetime member
      omega
    -- the sweep has a last entry, at which the empty lifetime is still counted
    obtain ⟨⟨cycle, live⟩, isLast⟩ := exists_last member
    have bounded := le_last isLast member
    have counted : lifetime.key ∈ live :=
      (mem_sweep proper (List.mem_of_getLast? isLast)).mpr
        ⟨lifetime, member, rfl, bounded.1, Or.inr zero⟩
    have nothing : bytesByScope table live = [] :=
      agrees.lastEmpty (cycle, bytesByScope table live) (by
        rw [timelineOf, List.getLast?_map, isLast]
        rfl)
    rw [bytesByScope_eq_nil.mp nothing] at counted
    cases counted
  · intro lasts
    have counts :
        ∀ {cycle live}, (cycle, live) ∈ sweep (lifetimes uses) →
          ∀ object, object ∈ live ↔
            object ∈ ((uses.map MemoryUse.object).dedup).filter fun other =>
              LiveAt uses cycle other := by
      intro cycle live swept object
      rw [mem_sweep proper swept, List.mem_filter, List.mem_dedup, decide_eq_true_eq]
      constructor
      · rintro ⟨lifetime, member, rfl, counted⟩
        have describes := describes_of_mem member
        obtain ⟨use, isUse, same⟩ := describes.used
        exact ⟨List.mem_map.mpr ⟨use, isUse, same⟩,
          (countedAt_iff_liveAt describes (lasts lifetime member)).mp counted⟩
      · rintro ⟨isUsed, isLive⟩
        obtain ⟨use, isUse, rfl⟩ := List.mem_map.mp isUsed
        obtain ⟨lifetime, member, same⟩ := exists_lifetime isUse
        refine ⟨lifetime, member, same, ?_⟩
        rw [countedAt_iff_liveAt (describes_of_mem member) (lasts lifetime member), same]
        exact isLive
    have occupied :
        ∀ {cycle live}, (cycle, live) ∈ sweep (lifetimes uses) →
          ∀ scope owner,
            (liveBytes table uses scope owner cycle).card =
              unionLength (activeRanges table live scope owner) := by
      intro cycle live swept scope owner
      rw [liveBytes, unionLength_eq_card, points_activeRanges_congr (counts swept) scope owner]
    refine {
      atLeast := ?_
      attained := ?_
      lastEmpty := ?_ }
    · intro entry member scope owner
      obtain ⟨⟨cycle, live⟩, swept, rfl⟩ := List.mem_map.mp member
      rw [occupied swept]
      exact (reportedBytes_bytesByScope live scope).1 owner
    · intro entry member scope
      obtain ⟨⟨cycle, live⟩, swept, rfl⟩ := List.mem_map.mp member
      have exactly := @reportedBytes_bytesByScope table live scope
      refine exactly.2.imp_right ?_
      rintro ⟨owner, attained⟩
      exact ⟨owner, (occupied swept scope owner).trans attained⟩
    · intro entry isLast
      rw [timelineOf, List.getLast?_map, Option.map_eq_some_iff] at isLast
      obtain ⟨⟨cycle, live⟩, last, rfl⟩ := isLast
      refine bytesByScope_eq_nil.mpr (List.eq_nil_iff_forall_not_mem.mpr ?_)
      intro object isLive
      obtain ⟨lifetime, member, _, counted⟩ :=
        (mem_sweep proper (List.mem_of_getLast? last)).mp isLive
      have bounded := le_last last member
      have spans := lasts lifetime member
      unfold Lifetime.CountedAt at counted
      omega

/--
The timeline that `local_memory_live_bytes` reports is exact exactly when every allocation
that the operations use is used for at least one cycle.
-/
theorem localMemoryLiveBytes_exact_iff
    (table : AllocationTable)
    (records : List UseRecord)
    (timeline : List (Nat × List (MemoryScope × Nat)))
    (reported : localMemoryLiveBytes table records = .ok timeline) :
    ∃ uses,
      memoryUses table records = .ok uses ∧
        (TimelineExact table uses timeline ↔ UsesLast uses) := by
  obtain ⟨uses, resolved, isTimeline⟩ := exceptBind_eq_ok.mp reported
  cases isTimeline
  exact ⟨uses, resolved, timelineExact_iff (memoryUses_ordered resolved)⟩

/-- A core with three unified-buffer names, two of which are bound to one allocation. -/
def aliasedTable : AllocationTable where
  coreIds := [0]
  bindings := fun scope owner name =>
    if scope = .ub ∧ owner = 0 then
      match name with
      | "first" => some 0
      | "alias" => some 0
      | "second" => some 1
      | _ => none
    else
      none
  objects := fun object =>
    if object = 0 then
      { scope := .ub, coreId := 0, start := 0, stop := 16 }
    else
      { scope := .ub, coreId := 0, start := 8, stop := 32 }

/-- The timeline of two overlapping allocations, one of them used through an alias. -/
theorem aliasedTable_exact :
    ∃ uses,
      memoryUses aliasedTable
          [{ coreId := 0, lane := .vector0, startCycle := 0, endCycle := 3
             metadata := .items [.region "first" .ub] },
           { coreId := 0, lane := .vector0, startCycle := 2, endCycle := 8
             metadata := .items [.other, .region "second" .ub] },
           { coreId := 0, lane := .vector0, startCycle := 4, endCycle := 5
             metadata := .items [.region "alias" .ub, .region "output" .gm] }] = .ok uses ∧
        TimelineExact aliasedTable uses
          [(0, [(.ub, 16)]), (2, [(.ub, 32)]), (5, [(.ub, 24)]), (8, [])] := by
  obtain ⟨uses, resolved, exact⟩ :=
    localMemoryLiveBytes_exact_iff aliasedTable
      [{ coreId := 0, lane := .vector0, startCycle := 0, endCycle := 3
         metadata := .items [.region "first" .ub] },
       { coreId := 0, lane := .vector0, startCycle := 2, endCycle := 8
         metadata := .items [.other, .region "second" .ub] },
       { coreId := 0, lane := .vector0, startCycle := 4, endCycle := 5
         metadata := .items [.region "alias" .ub, .region "output" .gm] }]
      [(0, [(.ub, 16)]), (2, [(.ub, 32)]), (5, [(.ub, 24)]), (8, [])] (by rfl)
  refine ⟨uses, resolved, exact.mpr ?_⟩
  have isUses :
      uses =
        [{ object := 0, startCycle := 0, endCycle := 3 },
         { object := 1, startCycle := 2, endCycle := 8 },
         { object := 0, startCycle := 4, endCycle := 5 }] := by
    have computed := resolved.symm
    cases computed
    rfl
  rw [isUses]
  decide

/-- An allocation that is used for no cycle stays in the last entry. -/
theorem emptyUse_staysLive :
    ¬ ∀ (table : AllocationTable) (records : List UseRecord)
        (timeline : List (Nat × List (MemoryScope × Nat))) (uses : List MemoryUse),
        localMemoryLiveBytes table records = .ok timeline →
        memoryUses table records = .ok uses →
        TimelineExact table uses timeline := by
  intro agrees
  have reported :=
    agrees aliasedTable
      [{ coreId := 0, lane := .vector0, startCycle := 5, endCycle := 5
         metadata := .items [.region "first" .ub] }]
      [(5, [(.ub, 16)])] [{ object := 0, startCycle := 5, endCycle := 5 }] (by rfl) (by rfl)
  have empty := reported.lastEmpty (5, [(.ub, 16)]) rfl
  cases empty

end TilelangAscend.Simulator.Memory
