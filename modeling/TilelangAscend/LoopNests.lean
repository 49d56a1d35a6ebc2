import Mathlib.Algebra.BigOperators.Group.List.Basic
import Mathlib.Algebra.Order.BigOperators.Group.List
import Mathlib.Data.Nat.Find
import Mathlib.Tactic.Ring

namespace TilelangAscend.LoopNests

/-!
# Loop nests

A nest is the list of its extents, from the outermost loop to the innermost one.  This module
counts the iterations of a nest that pass a test on the loop indices, and compares two nests by
the products of the extents of their outer loops.
-/

/-! ## Counting iterations -/

/-- Number of iterations of a nest, entered with the given outer indices, that pass a test. -/
def iterations (test : List Nat → Bool) : List Nat → List Nat → Nat
  | [], indices => if test indices then 1 else 0
  | extent :: inner, indices =>
    ((List.range extent).map fun index => iterations test inner (indices ++ [index])).sum

theorem sum_map_const (extent term : Nat) :
    ((List.range extent).map fun _ => term).sum = extent * term := by
  simp

theorem iterations_constant {test : List Nat → Bool} {outcome : Bool}
    (extents indices : List Nat) (constant : ∀ more, test (indices ++ more) = outcome) :
    iterations test extents indices = if outcome then extents.prod else 0 := by
  induction extents generalizing indices with
  | nil =>
    have here : test indices = outcome := by simpa using constant []
    simp [iterations, here]
  | cons extent inner ih =>
    have each :
        ∀ index, iterations test inner (indices ++ [index]) =
          if outcome then inner.prod else 0 := by
      intro index
      apply ih
      intro more
      simpa using constant (index :: more)
    simp only [iterations, each, sum_map_const, List.prod_cons]
    cases outcome <;> simp

/-- Number of indices of one loop that pass a test. -/
def passing (test : Nat → Bool) (extent : Nat) : Nat :=
  (List.range extent).countP test

theorem passing_succ (test : Nat → Bool) (extent : Nat) :
    passing test (extent + 1) = passing test extent + if test extent then 1 else 0 := by
  simp [passing, List.range_succ, List.countP_append, List.countP_cons]

theorem sum_map_ite (test : Nat → Bool) (indices : List Nat) (term : Nat) :
    (indices.map fun index => if test index then term else 0).sum = indices.countP test * term := by
  induction indices with
  | nil => simp
  | cons index rest ih =>
    cases passes : test index with
    | true =>
      simp only [List.map_cons, passes, ↓reduceIte, List.sum_cons, ih, List.countP_cons]
      ring
    | false => simp [passes, ih]

theorem iterations_at (test : Nat → Bool) (outer : List Nat) (extent : Nat)
    (inner indices : List Nat) :
    iterations (fun all => (all[indices.length + outer.length]?).any test)
        (outer ++ extent :: inner) indices =
      outer.prod * passing test extent * inner.prod := by
  induction outer generalizing indices with
  | nil =>
    have each :
        ∀ index, iterations (fun all => (all[indices.length]?).any test) inner
            (indices ++ [index]) =
          if test index then inner.prod else 0 := by
      intro index
      apply iterations_constant
      intro more
      simp
    simp [iterations, each, sum_map_ite, passing]
  | cons first rest ih =>
    have each :
        ∀ index, iterations (fun all => (all[indices.length + (rest.length + 1)]?).any test)
            (rest ++ extent :: inner) (indices ++ [index]) =
          rest.prod * passing test extent * inner.prod := by
      intro index
      have step := ih (indices ++ [index])
      have level :
          (indices ++ [index]).length + rest.length = indices.length + (rest.length + 1) := by
        simp only [List.length_append, List.length_singleton]
        omega
      rw [level] at step
      exact step
    simp only [List.cons_append, List.length_cons, iterations, each, sum_map_const, List.prod_cons]
    ring

/-! ## Rounded counts -/

/-- Number of intervals that a loop is cut into, the last one possibly shorter. -/
def intervals (extent interval : Nat) : Nat :=
  (extent + interval - 1) / interval

variable {interval extent lower upper : Nat} {nest : List Nat}

theorem passing_first (positive : 0 < interval) (extent : Nat) :
    passing (fun index => index % interval == 0) extent = intervals extent interval := by
  induction extent with
  | zero =>
    have small : interval - 1 < interval := by omega
    simp [passing, intervals, Nat.div_eq_of_lt small]
  | succ extent ih =>
    have grow :
        intervals (extent + 1) interval =
          intervals extent interval + if extent % interval = 0 then 1 else 0 := by
      have shift : extent + 1 + interval - 1 = (extent + interval - 1) + 1 := by omega
      rw [intervals, shift, Nat.succ_div, intervals]
      have same : (interval ∣ extent + interval - 1 + 1) ↔ extent % interval = 0 := by
        have back : extent + interval - 1 + 1 = extent + interval := by omega
        rw [back, Nat.dvd_add_self_right]
        exact Nat.dvd_iff_mod_eq_zero
      simp only [same]
    rw [passing_succ, grow, ih]
    simp only [beq_iff_eq]

theorem passing_last (positive : 0 < interval) (extent : Nat) :
    passing (fun index => index % interval == interval - 1) extent = extent / interval := by
  induction extent with
  | zero => simp [passing]
  | succ extent ih =>
    have same : (interval ∣ extent + 1) ↔ extent % interval = interval - 1 := by
      have bound := Nat.mod_lt extent positive
      constructor
      · intro divides
        obtain ⟨quotient, product⟩ := divides
        have parts := Nat.div_add_mod extent interval
        by_contra other
        have below : extent % interval + 1 < interval := by omega
        have remainder : (extent + 1) % interval = extent % interval + 1 := by
          rw [Nat.add_mod, Nat.mod_eq_of_lt (by omega : 1 < interval), Nat.mod_eq_of_lt below]
        rw [product, Nat.mul_mod_right] at remainder
        omega
      · intro last
        have parts := Nat.div_add_mod extent interval
        refine ⟨extent / interval + 1, ?_⟩
        rw [Nat.mul_add]
        omega
    rw [passing_succ, Nat.succ_div, ih]
    simp only [same, beq_iff_eq]

theorem passing_lastOrFinal (positive : 0 < interval) (extent : Nat) :
    passing (fun index => index % interval == interval - 1 || index == extent - 1) extent =
      intervals extent interval := by
  cases extent with
  | zero =>
    have small : interval - 1 < interval := by omega
    simp [passing, intervals, Nat.div_eq_of_lt small]
  | succ extent =>
    have below :
        passing (fun index => index % interval == interval - 1 || index == extent) extent =
          passing (fun index => index % interval == interval - 1) extent := by
      apply List.countP_congr
      intro index inside
      have smaller := List.mem_range.mp inside
      have different : index ≠ extent := by omega
      simp [different]
    have shift : extent + 1 + interval - 1 = extent + interval := by omega
    rw [Nat.add_sub_cancel, passing_succ, below, passing_last positive, intervals, shift,
      Nat.add_div_right extent positive]
    simp

/-! ## Depths at which two nests meet -/

/-- Iterations of the outer loops of a nest, down to a depth. -/
def outerTimes (nest : List Nat) (depth : Nat) : Nat :=
  (nest.take depth).prod

@[simp] theorem outerTimes_zero (nest : List Nat) : outerTimes nest 0 = 1 := by
  simp [outerTimes]

theorem outerTimes_succ {depth : Nat} (present : nest[depth]? = some extent) :
    outerTimes nest (depth + 1) = outerTimes nest depth * extent := by
  simp [outerTimes, List.take_add_one, present]

theorem outerTimes_dvd (nest : List Nat) (below : lower ≤ upper) :
    outerTimes nest lower ∣ outerTimes nest upper := by
  obtain ⟨extra, rfl⟩ := Nat.exists_eq_add_of_le below
  rw [outerTimes, outerTimes, List.take_add, List.prod_append]
  exact Dvd.intro _ rfl

theorem outerTimes_pos (below : lower ≤ upper) (runs : 0 < outerTimes nest upper) :
    0 < outerTimes nest lower :=
  Nat.pos_of_dvd_of_pos (outerTimes_dvd nest below) runs

theorem outerTimes_le (below : lower ≤ upper) (runs : 0 < outerTimes nest upper) :
    outerTimes nest lower ≤ outerTimes nest upper :=
  Nat.le_of_dvd runs (outerTimes_dvd nest below)

theorem extent_eq_one_of_between (below : lower < upper) (present : nest[lower]? = some extent)
    (same : outerTimes nest lower = outerTimes nest upper)
    (runs : 0 < outerTimes nest upper) : extent = 1 := by
  have next : outerTimes nest (lower + 1) ≤ outerTimes nest upper := outerTimes_le below runs
  have positive : 0 < outerTimes nest (lower + 1) := outerTimes_pos below runs
  rw [outerTimes_succ present] at next positive
  rw [← same] at next runs
  have atLeast : 1 ≤ extent := Nat.pos_of_mul_pos_left positive
  have atMost : extent ≤ 1 := by
    apply Nat.le_of_mul_le_mul_left _ runs
    rw [Nat.mul_one]
    exact next
  exact Nat.le_antisymm atMost atLeast

/-- Two nests meet at a pair of depths when their outer loops run equally often there. -/
structure Meets (first second : List Nat) (firstDepth secondDepth : Nat) : Prop where
  inFirst : firstDepth ≤ first.length
  inSecond : secondDepth ≤ second.length
  same : outerTimes first firstDepth = outerTimes second secondDepth
  runs : 0 < outerTimes first firstDepth

/-- The deepest pair of depths at which two nests meet. -/
structure DeepestMeeting
    (first second : List Nat)
    (firstDepth secondDepth : Nat) : Prop where
  meets : Meets first second firstDepth secondDepth
  deepest :
    ∀ {otherFirst otherSecond},
      Meets first second otherFirst otherSecond →
        otherFirst ≤ firstDepth ∧ otherSecond ≤ secondDepth

theorem Meets.outermost (first second : List Nat) : Meets first second 0 0 where
  inFirst := Nat.zero_le _
  inSecond := Nat.zero_le _
  same := by simp
  runs := by simp

/-- Two meeting points have a common deeper one. -/
theorem Meets.join {first second : List Nat} {firstDepth secondDepth otherFirst otherSecond : Nat}
    (meets : Meets first second firstDepth secondDepth)
    (other : Meets first second otherFirst otherSecond) :
    Meets first second (max firstDepth otherFirst) (max secondDepth otherSecond) := by
  have positive := meets.runs
  have otherPositive := other.runs
  have secondPositive : 0 < outerTimes second secondDepth := meets.same ▸ positive
  have otherSecondPositive : 0 < outerTimes second otherSecond := other.same ▸ otherPositive
  have agree :
      outerTimes first (max firstDepth otherFirst) =
        outerTimes second (max secondDepth otherSecond) := by
    have larger :
        ∀ {nest : List Nat} {lower upper : Nat}, 0 < outerTimes nest lower →
          0 < outerTimes nest upper →
            outerTimes nest (max lower upper) =
              max (outerTimes nest lower) (outerTimes nest upper) := by
      intro nest lower upper lowerRuns upperRuns
      cases Nat.le_total lower upper with
      | inl below => rw [Nat.max_eq_right below, Nat.max_eq_right (outerTimes_le below upperRuns)]
      | inr above => rw [Nat.max_eq_left above, Nat.max_eq_left (outerTimes_le above lowerRuns)]
    rw [larger positive otherPositive, larger secondPositive otherSecondPositive,
      meets.same, other.same]
  refine ⟨max_le meets.inFirst other.inFirst, max_le meets.inSecond other.inSecond, agree, ?_⟩
  cases Nat.le_total firstDepth otherFirst with
  | inl below => rw [Nat.max_eq_right below]; exact otherPositive
  | inr above => rw [Nat.max_eq_left above]; exact positive

/-- Two nests have a deepest meeting point. -/
theorem exists_deepestMeeting (first second : List Nat) :
    ∃ firstDepth secondDepth, DeepestMeeting first second firstDepth secondDepth := by
  classical
  let meetsAt (depth : Nat) : Prop := ∃ secondDepth, Meets first second depth secondDepth
  let firstDepth := Nat.findGreatest meetsAt first.length
  have firstMeets : meetsAt firstDepth :=
    Nat.findGreatest_spec (Nat.zero_le _) ⟨0, Meets.outermost first second⟩
  obtain ⟨someDepth, someMeets⟩ := firstMeets
  let secondDepth := Nat.findGreatest (Meets first second firstDepth) second.length
  have bothMeet : Meets first second firstDepth secondDepth :=
    Nat.findGreatest_spec someMeets.inSecond someMeets
  refine ⟨firstDepth, secondDepth, bothMeet, ?_⟩
  intro otherFirst otherSecond other
  have firstLe : otherFirst ≤ firstDepth := Nat.le_findGreatest other.inFirst ⟨otherSecond, other⟩
  have joined := bothMeet.join other
  rw [Nat.max_eq_left firstLe] at joined
  have secondLe : max secondDepth otherSecond ≤ secondDepth :=
    Nat.le_findGreatest joined.inSecond joined
  exact ⟨firstLe, le_trans (le_max_right _ _) secondLe⟩

end TilelangAscend.LoopNests
