import Mathlib
import TilelangAscend.IntervalCover

namespace TilelangAscend.StepCounter

open IntervalCover

/-!
# Counters that are updated by deltas

A counter starts at 0 and changes by deltas that are attached to cycles.  Its samples are
the running totals at the cycles that have deltas.  The value at a cycle is the sum of the
deltas up to it, whatever the order in which the deltas were collected.
-/

/-- The sum of the deltas of one cycle. -/
def deltaAt (deltas : List (Nat × Int)) (cycle : Nat) : Int :=
  ((deltas.filter fun delta => delta.1 = cycle).map Prod.snd).sum

/-- The cycles that have deltas, in order. -/
def cycles (deltas : List (Nat × Int)) : List Nat :=
  ((deltas.map Prod.fst).dedup).insertionSort (· ≤ ·)

/-- Running totals of a list of deltas. -/
def runningTotals : Int → List (Nat × Int) → List (Nat × Int)
  | _, [] => []
  | total, delta :: rest => (delta.1, total + delta.2) :: runningTotals (total + delta.2) rest

/-- The counter at every cycle that has deltas. -/
def samples (deltas : List (Nat × Int)) : List (Nat × Int) :=
  runningTotals 0 ((cycles deltas).map fun cycle => (cycle, deltaAt deltas cycle))

/-- The value that samples show at a cycle, given the value before the first one. -/
def valueFrom (before : Int) (sampled : List (Nat × Int)) (cycle : Nat) : Int :=
  ((sampled.filter fun sample => sample.1 ≤ cycle).getLast?.map Prod.snd).getD before

/-- The sum of the deltas up to a cycle. -/
def total (deltas : List (Nat × Int)) (cycle : Nat) : Int :=
  ((deltas.filter fun delta => delta.1 ≤ cycle).map Prod.snd).sum

@[simp] theorem total_nil (cycle : Nat) : total [] cycle = 0 :=
  rfl

theorem total_cons (delta : Nat × Int) (rest : List (Nat × Int)) (cycle : Nat) :
    total (delta :: rest) cycle = (if delta.1 ≤ cycle then delta.2 else 0) + total rest cycle := by
  by_cases come : delta.1 ≤ cycle
  · simp [total, come]
  · simp [total, come]

theorem total_append (first second : List (Nat × Int)) (cycle : Nat) :
    total (first ++ second) cycle = total first cycle + total second cycle := by
  simp [total]

variable {deltas : List (Nat × Int)} {cycle : Nat}

theorem total_eq_zero (later : ∀ delta ∈ deltas, cycle < delta.1) : total deltas cycle = 0 := by
  have none : deltas.filter (fun delta => delta.1 ≤ cycle) = [] := by
    rw [List.filter_eq_nil_iff]
    intro delta member
    have after := later delta member
    simpa using after
  simp [total, none]

theorem runningTotals_fst (before : Int) (deltas : List (Nat × Int)) :
    (runningTotals before deltas).map Prod.fst = deltas.map Prod.fst := by
  induction deltas generalizing before with
  | nil => rfl
  | cons delta rest ih => simp [runningTotals, ih]

theorem valueFrom_runningTotals
    (sorted : deltas.Pairwise fun first second => first.1 < second.1) (before : Int)
    (cycle : Nat) :
    valueFrom before (runningTotals before deltas) cycle = before + total deltas cycle := by
  induction deltas generalizing before with
  | nil => simp [valueFrom, runningTotals]
  | cons delta rest ih =>
    obtain ⟨first, restSorted⟩ := List.pairwise_cons.mp sorted
    by_cases come : delta.1 ≤ cycle
    · have shown :
          valueFrom before
              ((delta.1, before + delta.2) :: runningTotals (before + delta.2) rest) cycle =
            valueFrom (before + delta.2) (runningTotals (before + delta.2) rest) cycle := by
        unfold valueFrom
        rw [List.filter_cons_of_pos (by simpa using come), List.getLast?_cons]
        cases (List.filter (fun sample : Nat × Int => decide (sample.1 ≤ cycle))
          (runningTotals (before + delta.2) rest)).getLast? <;> rfl
      rw [runningTotals, shown, ih restSorted, total_cons, if_pos come]
      omega
    · have later : ∀ other ∈ delta :: rest, cycle < other.1 := by
        intro other member
        rcases List.mem_cons.mp member with rfl | inRest
        · omega
        · have after := first other inRest
          omega
      have none :
          (runningTotals before (delta :: rest)).filter (fun sample => sample.1 ≤ cycle) = [] := by
        rw [List.filter_eq_nil_iff]
        intro sample member
        have isCycle : sample.1 ∈ (delta :: rest).map Prod.fst := by
          rw [← runningTotals_fst before]
          exact List.mem_map_of_mem member
        obtain ⟨other, isOther, same⟩ := List.mem_map.mp isCycle
        have after := later other isOther
        rw [same] at after
        simpa using after
      rw [total_eq_zero later, valueFrom, none]
      simp

theorem sum_deltaAt {listed : Finset Nat} (isListed : ∀ delta ∈ deltas, delta.1 ∈ listed)
    (cycle : Nat) :
    ∑ other ∈ listed.filter (· ≤ cycle), deltaAt deltas other = total deltas cycle := by
  induction deltas with
  | nil => simp [deltaAt]
  | cons delta rest ih =>
    have split :
        ∀ other,
          deltaAt (delta :: rest) other =
            (if delta.1 = other then delta.2 else 0) + deltaAt rest other := by
      intro other
      by_cases same : delta.1 = other
      · simp [deltaAt, same]
      · simp [deltaAt, same]
    have first : delta.1 ∈ listed := isListed delta List.mem_cons_self
    simp only [split, Finset.sum_add_distrib, Finset.sum_ite_eq, Finset.mem_filter, first, true_and]
    rw [ih fun other member => isListed other (List.mem_cons_of_mem _ member), total_cons]

theorem runningTotals_value {sample : Nat × Int}
    (sorted : deltas.Pairwise fun first second => first.1 < second.1) {before : Int}
    (member : sample ∈ runningTotals before deltas) :
    sample.2 = before + total deltas sample.1 := by
  induction deltas generalizing before with
  | nil => cases member
  | cons delta rest ih =>
    obtain ⟨first, restSorted⟩ := List.pairwise_cons.mp sorted
    rw [total_cons]
    rcases List.mem_cons.mp member with rfl | inRest
    · rw [if_pos le_rfl, total_eq_zero first, add_zero]
    · have isCycle : sample.1 ∈ rest.map Prod.fst := by
        rw [← runningTotals_fst (before + delta.2)]
        exact List.mem_map_of_mem inRest
      obtain ⟨other, isOther, same⟩ := List.mem_map.mp isCycle
      have after := first other isOther
      rw [ih restSorted inRest, if_pos (by omega), add_assoc]

theorem cycles_increasing (deltas : List (Nat × Int)) : (cycles deltas).Pairwise (· < ·) := by
  have distinct : (cycles deltas).Nodup :=
    (List.perm_insertionSort _ _).nodup_iff.mpr (List.nodup_dedup _)
  have ordered : (cycles deltas).Pairwise (· ≤ ·) := List.pairwise_insertionSort _ _
  exact (ordered.and distinct).imp fun both => lt_of_le_of_ne both.1 both.2

theorem perCycle_sorted (deltas : List (Nat × Int)) :
    ((cycles deltas).map fun cycle => (cycle, deltaAt deltas cycle)).Pairwise
      fun first second => first.1 < second.1 :=
  List.pairwise_map.mpr (cycles_increasing deltas)

theorem total_perCycle (deltas : List (Nat × Int)) (cycle : Nat) :
    total ((cycles deltas).map fun cycle => (cycle, deltaAt deltas cycle)) cycle =
      total deltas cycle := by
  have asSum :
      total ((cycles deltas).map fun cycle => (cycle, deltaAt deltas cycle)) cycle =
        ∑ other ∈ (cycles deltas).toFinset.filter (· ≤ cycle), deltaAt deltas other := by
    have filtered :
        (cycles deltas).toFinset.filter (· ≤ cycle) =
          ((cycles deltas).filter fun other => other ≤ cycle).toFinset := by
      ext other
      simp
    rw [filtered, List.sum_toFinset _ ((cycles_increasing deltas).imp ne_of_lt |>.filter _)]
    simp [total, List.filter_map, Function.comp_def]
  rw [asSum]
  refine sum_deltaAt ?_ cycle
  intro delta member
  rw [List.mem_toFinset, cycles, List.mem_insertionSort, List.mem_dedup]
  exact List.mem_map_of_mem member

/-- The samples give the running total at every cycle. -/
theorem valueFrom_samples (deltas : List (Nat × Int)) (cycle : Nat) :
    valueFrom 0 (samples deltas) cycle = total deltas cycle := by
  rw [samples, valueFrom_runningTotals (perCycle_sorted deltas), zero_add, total_perCycle]

theorem sample_value {sample : Nat × Int} (member : sample ∈ samples deltas) :
    sample.2 = valueFrom 0 (samples deltas) sample.1 := by
  rw [valueFrom_samples, runningTotals_value (perCycle_sorted deltas) member, zero_add,
    total_perCycle]

/-- The total over sources counts the active ones. -/
theorem total_flatMap {α : Type} [DecidableEq α] {sources : List α}
    {deltas : α → List (Nat × Int)} {active : Finset α}
    (counts : ∀ source ∈ sources, total (deltas source) cycle = if source ∈ active then 1 else 0) :
    total (sources.flatMap deltas) cycle =
      ((sources.filter fun source => source ∈ active).length : Int) := by
  induction sources with
  | nil => rfl
  | cons source rest ih =>
    have restCounts := ih fun other member => counts other (List.mem_cons_of_mem _ member)
    rw [List.flatMap_cons, total_append, counts source List.mem_cons_self, restCounts]
    by_cases isActive : source ∈ active
    · rw [if_pos isActive, List.filter_cons_of_pos (by simpa using isActive),
        List.length_cons]
      omega
    · rw [if_neg isActive, List.filter_cons_of_neg (by simpa using isActive), zero_add]

/-! ## Counters of intervals -/

/-- The deltas with which intervals enter and leave a counter. -/
def intervalDeltas (intervals : List (Nat × Nat)) : List (Nat × Int) :=
  intervals.flatMap fun interval => [(interval.1, 1), (interval.2, -1)]

theorem total_intervalDeltas_cons {interval : Nat × Nat}
    (ordered : interval.1 ≤ interval.2) (rest : List (Nat × Nat)) (cycle : Nat) :
    total (intervalDeltas (interval :: rest)) cycle =
      (if interval.1 ≤ cycle ∧ cycle < interval.2 then 1 else 0) +
        total (intervalDeltas rest) cycle := by
  have shape :
      intervalDeltas (interval :: rest) =
        (interval.1, 1) :: (interval.2, -1) :: intervalDeltas rest :=
    rfl
  rw [shape, total_cons, total_cons]
  split_ifs <;> omega

/-- The total over separated intervals is one inside and zero outside. -/
theorem total_intervalDeltas {intervals : List (Nat × Nat)}
    (ordered : ∀ interval ∈ intervals, interval.1 ≤ interval.2)
    (separated : Separated intervals) (cycle : Nat) :
    (Covers intervals cycle → total (intervalDeltas intervals) cycle = 1) ∧
      (¬ Covers intervals cycle → total (intervalDeltas intervals) cycle = 0) := by
  induction intervals with
  | nil =>
    refine ⟨?_, fun _ => rfl⟩
    rintro ⟨_, member, _⟩
    cases member
  | cons first rest ih =>
    obtain ⟨firstApart, restSeparated⟩ := List.pairwise_cons.mp separated
    have restOrdered : ∀ interval ∈ rest, interval.1 ≤ interval.2 :=
      fun interval member => ordered interval (List.mem_cons_of_mem _ member)
    obtain ⟨counted, uncounted⟩ := ih restOrdered restSeparated
    rw [total_intervalDeltas_cons (ordered first List.mem_cons_self)]
    by_cases inFirst : first.1 ≤ cycle ∧ cycle < first.2
    · have notInRest : ¬ Covers rest cycle := by
        rintro ⟨other, member, above, _⟩
        have apart := firstApart other member
        omega
      rw [if_pos inFirst, uncounted notInRest]
      exact ⟨fun _ => rfl, fun missed =>
        absurd ⟨first, List.mem_cons_self, inFirst.1, inFirst.2⟩ missed⟩
    · rw [if_neg inFirst, zero_add]
      have sameCover : Covers (first :: rest) cycle ↔ Covers rest cycle := by
        constructor
        · rintro ⟨other, member, above, below⟩
          rcases List.mem_cons.mp member with rfl | inRest
          · exact absurd ⟨above, below⟩ inFirst
          · exact ⟨other, inRest, above, below⟩
        · rintro ⟨other, member, within⟩
          exact ⟨other, List.mem_cons_of_mem _ member, within⟩
      rw [sameCover]
      exact ⟨counted, uncounted⟩

end TilelangAscend.StepCounter
