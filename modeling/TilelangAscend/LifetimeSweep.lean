import Mathlib.Data.List.Dedup
import Mathlib.Data.List.Nodup
import Mathlib.Data.List.Sort

namespace TilelangAscend.LifetimeSweep

/-!
# Sweeping over lifetimes

Lifetimes are cycles from which and up to which a key is live.  The sweep visits the cycles
at which lifetimes start or stop in order; at each of them it first drops the keys that
stop there and then adds the keys that start there.  A lifetime that stops where it starts
is therefore added and never dropped.
-/

/-- A key with the cycles at which it becomes live and stops being live. -/
structure Lifetime (α : Type) where
  key : α
  start : Nat
  stop : Nat
  deriving Repr, DecidableEq

section Lifetimes

variable {α : Type}

/-- Keys that stop at a cycle. -/
def leaving (lifetimes : List (Lifetime α)) (cycle : Nat) : List α :=
  (lifetimes.filter fun lifetime => lifetime.stop = cycle).map Lifetime.key

/-- Keys that start at a cycle. -/
def entering (lifetimes : List (Lifetime α)) (cycle : Nat) : List α :=
  (lifetimes.filter fun lifetime => lifetime.start = cycle).map Lifetime.key

/-- Cycles at which lifetimes start or stop, in order. -/
def cycles (lifetimes : List (Lifetime α)) : List Nat :=
  ((lifetimes.flatMap fun lifetime => [lifetime.start, lifetime.stop]).dedup).insertionSort (· ≤ ·)

/-- A lifetime that the sweep counts at a cycle: a live one, or an empty one that started. -/
def Lifetime.CountedAt (lifetime : Lifetime α) (cycle : Nat) : Prop :=
  lifetime.start ≤ cycle ∧ (cycle < lifetime.stop ∨ lifetime.start = lifetime.stop)

/-- Lifetimes of different keys that do not stop before they start. -/
structure Proper (lifetimes : List (Lifetime α)) : Prop where
  distinct : (lifetimes.map Lifetime.key).Nodup
  ordered : ∀ lifetime ∈ lifetimes, lifetime.start ≤ lifetime.stop

variable {lifetimes : List (Lifetime α)} {cycle : Nat}

theorem Proper.eq_of_key (proper : Proper lifetimes) {first second : Lifetime α}
    (firstMember : first ∈ lifetimes) (secondMember : second ∈ lifetimes)
    (same : first.key = second.key) : first = second :=
  List.inj_on_of_nodup_map proper.distinct firstMember secondMember same

theorem mem_cycles :
    cycle ∈ cycles lifetimes ↔
      ∃ lifetime ∈ lifetimes, cycle = lifetime.start ∨ cycle = lifetime.stop := by
  rw [cycles, List.mem_insertionSort, List.mem_dedup, List.mem_flatMap]
  simp

theorem cycles_increasing (lifetimes : List (Lifetime α)) :
    (cycles lifetimes).Pairwise (· < ·) := by
  have ordered : (cycles lifetimes).Pairwise (· ≤ ·) := List.pairwise_insertionSort _ _
  have distinct : (cycles lifetimes).Nodup :=
    (List.perm_insertionSort _ _).nodup_iff.mpr (List.nodup_dedup _)
  exact (ordered.and distinct).imp fun both => lt_of_le_of_ne both.1 both.2

end Lifetimes

section Sweep

variable {α : Type} [DecidableEq α]

/-- The live keys after the changes of one cycle: first those that stop, then the new ones. -/
def step (lifetimes : List (Lifetime α)) (active : List α) (cycle : Nat) : List α :=
  let remaining := active.filter fun key => key ∉ leaving lifetimes cycle
  remaining ++ (entering lifetimes cycle).filter fun key => key ∉ remaining

/-- The live keys after each of a list of cycles. -/
def sweepFrom
    (lifetimes : List (Lifetime α)) :
    List α → List Nat → List (Nat × List α)
  | _, [] => []
  | active, cycle :: rest =>
    (cycle, step lifetimes active cycle) ::
      sweepFrom lifetimes (step lifetimes active cycle) rest

/-- The live keys after each cycle at which something changes. -/
def sweep (lifetimes : List (Lifetime α)) : List (Nat × List α) :=
  sweepFrom lifetimes [] (cycles lifetimes)

variable {lifetimes : List (Lifetime α)} {active : List α} {cycle : Nat} {key : α}

theorem mem_step :
    key ∈ step lifetimes active cycle ↔
      (key ∈ active ∧ ∀ lifetime ∈ lifetimes, lifetime.key = key → lifetime.stop ≠ cycle) ∨
        ∃ lifetime ∈ lifetimes, lifetime.key = key ∧ lifetime.start = cycle := by
  have leaves :
      key ∉ leaving lifetimes cycle ↔
        ∀ lifetime ∈ lifetimes, lifetime.key = key → lifetime.stop ≠ cycle := by
    simp only [leaving, List.mem_map, List.mem_filter, decide_eq_true_eq]
    constructor
    · intro stays lifetime member same stops
      exact stays ⟨lifetime, ⟨member, stops⟩, same⟩
    · rintro stays ⟨lifetime, ⟨member, stops⟩, same⟩
      exact stays lifetime member same stops
  have enters :
      key ∈ entering lifetimes cycle ↔
        ∃ lifetime ∈ lifetimes, lifetime.key = key ∧ lifetime.start = cycle := by
    simp only [entering, List.mem_map, List.mem_filter, decide_eq_true_eq]
    constructor
    · rintro ⟨lifetime, ⟨member, starts⟩, same⟩
      exact ⟨lifetime, member, same, starts⟩
    · rintro ⟨lifetime, member, same, starts⟩
      exact ⟨lifetime, ⟨member, starts⟩, same⟩
  rw [← leaves, ← enters]
  simp only [step, List.mem_append, List.mem_filter, decide_eq_true_eq]
  tauto

/-- Before a cycle the sweep has counted what the changes of the earlier cycles left. -/
def CountedBefore (lifetimes : List (Lifetime α)) (active : List α) (bound : Nat) : Prop :=
  ∀ key,
    key ∈ active ↔
      ∃ lifetime ∈ lifetimes,
        lifetime.key = key ∧ lifetime.start < bound ∧
          (bound ≤ lifetime.stop ∨ lifetime.start = lifetime.stop)

/-- A cycle without starts and stops keeps what is counted. -/
theorem CountedBefore.step (proper : Proper lifetimes) {bound : Nat}
    (counted : CountedBefore lifetimes active bound) (later : bound ≤ cycle)
    (quiet :
      ∀ lifetime ∈ lifetimes,
        (lifetime.start < bound ∨ cycle ≤ lifetime.start) ∧
          (lifetime.stop < bound ∨ cycle ≤ lifetime.stop)) :
    CountedBefore lifetimes (step lifetimes active cycle) (cycle + 1) := by
  intro key
  rw [mem_step, counted key]
  constructor
  · rintro (⟨⟨lifetime, member, same, started, lasts⟩, stays⟩ | ⟨lifetime, member, same, starts⟩)
    · refine ⟨lifetime, member, same, by omega, ?_⟩
      have notNow := stays lifetime member same
      have quietHere := quiet lifetime member
      omega
    · have ordered := proper.ordered lifetime member
      exact ⟨lifetime, member, same, by omega, by omega⟩
  · rintro ⟨lifetime, member, same, started, lasts⟩
    have quietHere := quiet lifetime member
    have ordered := proper.ordered lifetime member
    by_cases startsNow : lifetime.start = cycle
    · exact Or.inr ⟨lifetime, member, same, startsNow⟩
    · refine Or.inl ⟨⟨lifetime, member, same, by omega, by omega⟩, ?_⟩
      intro other otherMember otherSame
      rw [proper.eq_of_key otherMember member (otherSame.trans same.symm)]
      omega

theorem mem_sweepFrom (proper : Proper lifetimes) {bound : Nat} {pending : List Nat}
    (counted : CountedBefore lifetimes active bound) (increasing : pending.Pairwise (· < ·))
    (pendingLater : ∀ other ∈ pending, bound ≤ other)
    (complete :
      ∀ lifetime ∈ lifetimes,
        (lifetime.start < bound ∨ lifetime.start ∈ pending) ∧
          (lifetime.stop < bound ∨ lifetime.stop ∈ pending))
    {live : List α}
    (swept : (cycle, live) ∈ sweepFrom lifetimes active pending) :
    CountedBefore lifetimes live (cycle + 1) := by
  induction pending generalizing active bound with
  | nil =>
    cases swept
  | cons first rest ih =>
    obtain ⟨firstEarlier, restIncreasing⟩ := List.pairwise_cons.mp increasing
    have atLeast : ∀ other ∈ first :: rest, first ≤ other := by
      intro other member
      rcases List.mem_cons.mp member with rfl | inRest
      · exact le_rfl
      · exact le_of_lt (firstEarlier other inRest)
    have stepCounted : CountedBefore lifetimes (step lifetimes active first) (first + 1) := by
      refine counted.step proper (pendingLater first List.mem_cons_self) ?_
      intro lifetime member
      exact ⟨(complete lifetime member).1.imp_right (atLeast _),
        (complete lifetime member).2.imp_right (atLeast _)⟩
    rw [sweepFrom] at swept
    rcases List.mem_cons.mp swept with isFirst | inRest
    · cases isFirst
      exact stepCounted
    · refine ih stepCounted restIncreasing
        (fun other member => firstEarlier other member) ?_ inRest
      intro lifetime member
      have passed := pendingLater first List.mem_cons_self
      refine ⟨?_, ?_⟩
      · rcases (complete lifetime member).1 with before | listed
        · exact Or.inl (by omega)
        · rcases List.mem_cons.mp listed with isFirst | inRest
          · exact Or.inl (by omega)
          · exact Or.inr inRest
      · rcases (complete lifetime member).2 with before | listed
        · exact Or.inl (by omega)
        · rcases List.mem_cons.mp listed with isFirst | inRest
          · exact Or.inl (by omega)
          · exact Or.inr inRest

/-- At each cycle of the sweep the counted lifetimes are live. -/
theorem mem_sweep (proper : Proper lifetimes) {live : List α}
    (swept : (cycle, live) ∈ sweep lifetimes) :
    key ∈ live ↔ ∃ lifetime ∈ lifetimes, lifetime.key = key ∧ lifetime.CountedAt cycle := by
  have nothing : CountedBefore lifetimes [] 0 := by
    intro other
    simp
  have counted :=
    mem_sweepFrom proper nothing (cycles_increasing lifetimes) (fun _ _ => Nat.zero_le _)
      (fun lifetime member =>
        ⟨Or.inr (mem_cycles.mpr ⟨lifetime, member, Or.inl rfl⟩),
          Or.inr (mem_cycles.mpr ⟨lifetime, member, Or.inr rfl⟩)⟩) swept key
  rw [counted]
  constructor
  · rintro ⟨lifetime, member, same, started, lasts⟩
    exact ⟨lifetime, member, same, by omega, by omega⟩
  · rintro ⟨lifetime, member, same, started, lasts⟩
    exact ⟨lifetime, member, same, by omega, by omega⟩

theorem sweep_cycles (lifetimes : List (Lifetime α)) :
    (sweep lifetimes).map Prod.fst = cycles lifetimes := by
  have reports :
      ∀ (pending : List Nat) (active : List α),
        (sweepFrom lifetimes active pending).map Prod.fst = pending := by
    intro pending
    induction pending with
    | nil =>
      intro _
      rfl
    | cons first rest ih =>
      intro active
      rw [sweepFrom, List.map_cons, ih]
  exact reports _ _

/-- The sweep ends behind all lifetimes. -/
theorem le_last {live : List α} (last : (sweep lifetimes).getLast? = some (cycle, live))
    {lifetime : Lifetime α} (member : lifetime ∈ lifetimes) :
    lifetime.start ≤ cycle ∧ lifetime.stop ≤ cycle := by
  have lastCycle : (cycles lifetimes).getLast? = some cycle := by
    rw [← sweep_cycles, List.getLast?_map, last]
    rfl
  obtain ⟨before, shape⟩ := List.getLast?_eq_some_iff.mp lastCycle
  have increasing := cycles_increasing lifetimes
  have bounded : ∀ other ∈ cycles lifetimes, other ≤ cycle := by
    intro other isCycle
    rw [shape] at isCycle increasing
    rcases List.mem_append.mp isCycle with earlier | isLast
    · exact le_of_lt ((List.pairwise_append.mp increasing).2.2 other earlier cycle (by simp))
    · exact le_of_eq (List.mem_singleton.mp isLast)
  exact ⟨bounded _ (mem_cycles.mpr ⟨lifetime, member, Or.inl rfl⟩),
    bounded _ (mem_cycles.mpr ⟨lifetime, member, Or.inr rfl⟩)⟩

end Sweep

end TilelangAscend.LifetimeSweep
