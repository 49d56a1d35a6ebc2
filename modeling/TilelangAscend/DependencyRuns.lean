import Mathlib.Data.List.Basic
import Mathlib.Logic.Function.Basic

namespace TilelangAscend.DependencyRuns

/-!
# Runs over a fixed dependency graph

Items are placed one at a time, in any order that respects their inputs, and an item ends a
fixed duration after its last input.  The order then decides nothing: two runs agree on every
item that both place, and a run that cannot go on has placed whatever another run places.
-/

variable {α : Type}

/-- The cycle at which all inputs are available; `none` while an input is missing. -/
def readyCycle
    (ends : α → Option Nat) :
    Option (List α) → Option Nat
  | none => none
  | some inputs =>
    if inputs.any fun input => (ends input).isNone then
      none
    else
      some ((inputs.filterMap ends).foldr max 0)

/-- End cycles that placing items after their inputs can produce. -/
inductive Runs
    [DecidableEq α]
    (needs : α → Option (List α))
    (duration : α → Nat) :
    (α → Option Nat) → Prop where
  | start : Runs needs duration fun _ => none
  | place {ends : α → Option Nat} {item : α} {cycle : Nat} :
      Runs needs duration ends →
      ends item = none →
      readyCycle ends (needs item) = some cycle →
      Runs needs duration (Function.update ends item (some (cycle + duration item)))

/-- Every item that ended in one run has the same end in another. -/
def Extends (larger smaller : α → Option Nat) : Prop :=
  ∀ item cycle, smaller item = some cycle → larger item = some cycle

theorem readyCycle_extends {larger smaller : α → Option Nat}
    (extended : Extends larger smaller) {needs : Option (List α)} {cycle : Nat}
    (ready : readyCycle smaller needs = some cycle) : readyCycle larger needs = some cycle := by
  cases needs with
  | none =>
    cases ready
  | some inputs =>
    simp only [readyCycle] at ready ⊢
    split at ready
    · cases ready
    · rename_i available
      have same : ∀ input ∈ inputs, larger input = smaller input := by
        intro input member
        cases ended : smaller input with
        | none => exact absurd (List.any_eq_true.mpr ⟨input, member, by simp [ended]⟩) available
        | some inputCycle => exact extended input inputCycle ended
      have anySame :
          (inputs.any fun input => (larger input).isNone) =
            inputs.any fun input => (smaller input).isNone := by
        rw [Bool.eq_iff_iff, List.any_eq_true, List.any_eq_true]
        constructor
        · rintro ⟨input, member, missing⟩
          exact ⟨input, member, by rwa [same input member] at missing⟩
        · rintro ⟨input, member, missing⟩
          exact ⟨input, member, by rwa [same input member]⟩
      rw [if_neg (by rwa [anySame]), List.filterMap_congr same]
      exact ready

section Runs

variable [DecidableEq α] {needs : α → Option (List α)} {duration : α → Nat}
  {ends first second : α → Option Nat}

theorem extends_place {item : α} (fresh : ends item = none) (value : Option Nat) :
    Extends (Function.update ends item value) ends := by
  intro other cycle ended
  have differs : other ≠ item := by
    intro same
    rw [same, fresh] at ended
    cases ended
  rw [Function.update_of_ne differs]
  exact ended

theorem Runs.ready_of_end (runs : Runs needs duration ends) {item : α} {cycle : Nat}
    (ended : ends item = some cycle) :
    ∃ ready, readyCycle ends (needs item) = some ready ∧ cycle = ready + duration item := by
  induction runs with
  | start =>
    cases ended
  | @place earlier placed ready earlierRuns fresh available ih =>
    have keeps := extends_place fresh (some (ready + duration placed))
    by_cases isPlaced : item = placed
    · subst isPlaced
      rw [Function.update_self, Option.some.injEq] at ended
      exact ⟨ready, readyCycle_extends keeps available, ended.symm⟩
    · rw [Function.update_of_ne isPlaced] at ended
      obtain ⟨itemReady, itemAvailable, isSum⟩ := ih ended
      exact ⟨itemReady, readyCycle_extends keeps itemAvailable, isSum⟩

theorem Runs.extends_of_stuck (firstRuns : Runs needs duration first)
    (secondRuns : Runs needs duration second)
    (stuck :
      ∀ item, (needs item).isSome → second item = none → readyCycle second (needs item) = none) :
    Extends second first := by
  induction firstRuns with
  | start =>
    intro item cycle ended
    cases ended
  | @place earlier placed ready earlierRuns fresh available ih =>
    intro item cycle ended
    by_cases isPlaced : item = placed
    · subst isPlaced
      rw [Function.update_self, Option.some.injEq] at ended
      have availableThere := readyCycle_extends ih available
      have hasNeeds : (needs item).isSome := by
        cases inputs : needs item with
        | none =>
          rw [inputs] at available
          cases available
        | some _ => rfl
      cases endedThere : second item with
      | none =>
        rw [stuck item hasNeeds endedThere] at availableThere
        cases availableThere
      | some otherCycle =>
        obtain ⟨otherReady, otherAvailable, isSum⟩ := secondRuns.ready_of_end endedThere
        rw [availableThere, Option.some.injEq] at otherAvailable
        rw [isSum, ← otherAvailable, ended]
    · rw [Function.update_of_ne isPlaced] at ended
      exact ih item cycle ended

/-- Two runs that cannot go on have the same end cycles. -/
theorem Runs.eq_of_stuck (firstRuns : Runs needs duration first)
    (secondRuns : Runs needs duration second)
    (firstStuck :
      ∀ item, (needs item).isSome → first item = none → readyCycle first (needs item) = none)
    (secondStuck :
      ∀ item, (needs item).isSome → second item = none → readyCycle second (needs item) = none) :
    first = second := by
  have forward := firstRuns.extends_of_stuck secondRuns secondStuck
  have backward := secondRuns.extends_of_stuck firstRuns firstStuck
  funext item
  cases ended : first item with
  | some cycle => exact (forward item cycle ended).symm
  | none =>
    cases endedThere : second item with
    | none => rfl
    | some cycle =>
      rw [backward item cycle endedThere] at ended
      cases ended

/-- Nothing in a blocked set is ever placed. -/
theorem Runs.none_of_blocked {blocked : Set α} (runs : Runs needs duration ends)
    (waits :
      ∀ item ∈ blocked, ∀ inputs, needs item = some inputs → ∃ input ∈ inputs, input ∈ blocked)
    {item : α} (member : item ∈ blocked) : ends item = none := by
  induction runs generalizing item with
  | start => rfl
  | @place earlier placed cycle earlierRuns fresh ready ih =>
    refine (Function.update_of_ne ?_ _ _).trans (ih member)
    rintro rfl
    cases needed : needs item with
    | none => simp [needed, readyCycle] at ready
    | some inputs =>
      obtain ⟨input, isInput, inputBlocked⟩ := waits item member inputs needed
      have missing : (inputs.any fun other => (earlier other).isNone) = true :=
        List.any_eq_true.mpr ⟨input, isInput, by rw [ih inputBlocked]; rfl⟩
      rw [needed, readyCycle, if_pos missing] at ready
      cases ready

end Runs

/-! ## Inputs found one by one -/

theorem readyCycle_mapM {β : Type} {ends : α → Option Nat} {items : List β}
    {need : β → Option α} {found : β → Option Nat}
    (same : ∀ item ∈ items, found item = (need item).bind ends) :
    readyCycle ends (items.mapM need) =
      if items.any fun item => (found item).isNone then
        none
      else
        some ((items.filterMap found).foldr max 0) := by
  induction items with
  | nil => rfl
  | cons item rest ih =>
    have itemSame := same item List.mem_cons_self
    have restSame := ih fun other member => same other (List.mem_cons_of_mem _ member)
    cases needed : need item with
    | none =>
      rw [needed] at itemSame
      simp [List.mapM_cons, needed, itemSame, readyCycle]
    | some input =>
      rw [needed, Option.bind_some] at itemSame
      cases restNeeded : rest.mapM need with
      | none =>
        rw [restNeeded] at restSame
        simp only [readyCycle] at restSame
        have missing : (rest.any fun other => (found other).isNone) = true := by
          by_contra available
          rw [if_neg available] at restSame
          cases restSame
        simp [List.mapM_cons, needed, restNeeded, readyCycle, missing]
      | some inputs =>
        rw [restNeeded] at restSame
        simp only [readyCycle] at restSame
        cases ended : ends input with
        | none =>
          rw [ended] at itemSame
          simp [List.mapM_cons, needed, restNeeded, readyCycle, ended, itemSame]
        | some cycle =>
          rw [ended] at itemSame
          simp only [List.mapM_cons, needed, restNeeded, Option.pure_def,
            Option.bind_eq_bind, Option.bind_some, readyCycle, List.any_cons, ended,
            itemSame, Option.isNone_some, Bool.false_or]
          split at restSame
          · split at restSame
            · rename_i missing restMissing
              rw [if_pos missing, if_pos restMissing]
            · cases restSame
          · split at restSame
            · cases restSame
            · rename_i missing restMissing
              rw [if_neg missing, if_neg restMissing,
                List.filterMap_cons_some ended, List.filterMap_cons_some itemSame,
                List.foldr_cons, List.foldr_cons]
              rw [Option.some.injEq] at restSame
              rw [restSame]

/-- More needs move the ready cycle to the later one. -/
theorem readyCycle_append {ends : α → Option Nat} {first : List α} {second : Option (List α)} :
    readyCycle ends (second.map (first ++ ·)) =
      (readyCycle ends (some first)).bind fun firstCycle =>
        (readyCycle ends second).map (max firstCycle ·) := by
  cases second with
  | none => simp [readyCycle]
  | some inputs =>
    simp only [Option.map_some, readyCycle, List.any_append, List.filterMap_append]
    by_cases firstMissing : first.any fun input => (ends input).isNone
    · simp [firstMissing]
    · by_cases secondMissing : inputs.any fun input => (ends input).isNone
      · simp [firstMissing, secondMissing]
      · have joined :
            ∀ left right : List Nat,
              (left ++ right).foldr max 0 = max (left.foldr max 0) (right.foldr max 0) := by
          intro left right
          induction left with
          | nil => simp
          | cons head tail ih =>
            rw [List.cons_append, List.foldr_cons, List.foldr_cons, ih, Nat.max_assoc]
        simp [firstMissing, secondMissing, joined]

end TilelangAscend.DependencyRuns
