import Mathlib.Data.List.Basic

namespace TilelangAscend.EventIndex

/-!
# Indexed events of a list

A scan that needs only some elements of a long list can store those elements with
their positions and answer an interval query by bisecting the positions.  This module
defines the index and the bisection, and proves that a query returns the elements of
the interval.
-/

variable {α : Type}

/-- The elements that pass a test, with their positions counted from an offset. -/
def events
    (test : α → Bool) :
    Nat → List α → List (Nat × α)
  | _, [] => []
  | offset, item :: rest =>
    if test item then
      (offset, item) :: events test (offset + 1) rest
    else
      events test (offset + 1) rest

/-- `bisect_left` on a sorted list: the number of leading entries below a bound. -/
def bisectLeft (indices : List Nat) (bound : Nat) : Nat :=
  (indices.takeWhile (· < bound)).length

variable (test : α → Bool)

theorem events_items (offset : Nat) (items : List α) :
    (events test offset items).map Prod.snd = items.filter test := by
  induction items generalizing offset with
  | nil => rfl
  | cons item rest ih =>
    by_cases passes : test item
    · simp [events, passes, ih]
    · simp [events, passes, ih]

theorem events_append (offset : Nat) (first second : List α) :
    events test offset (first ++ second) =
      events test offset first ++ events test (offset + first.length) second := by
  induction first generalizing offset with
  | nil => simp [events]
  | cons item rest ih =>
    have shifted : offset + 1 + rest.length = offset + (rest.length + 1) := by omega
    by_cases passes : test item
    · simp [events, passes, ih, shifted]
    · simp [events, passes, ih, shifted]

theorem events_bounds {test : α → Bool} {offset : Nat} {items : List α} {index : Nat}
    (member : index ∈ (events test offset items).map Prod.fst) :
    offset ≤ index ∧ index < offset + items.length := by
  induction items generalizing offset with
  | nil => simp [events] at member
  | cons item rest ih =>
    have later :
        index ∈ (events test (offset + 1) rest).map Prod.fst →
        offset ≤ index ∧ index < offset + (item :: rest).length := by
      intro inRest
      have bounds := ih inRest
      simp only [List.length_cons]
      omega
    by_cases passes : test item
    · simp only [events, passes, ↓reduceIte, List.map_cons, List.mem_cons] at member
      rcases member with isFirst | inRest
      · simp only [List.length_cons]
        omega
      · exact later inRest
    · simp only [events, passes, Bool.false_eq_true, ↓reduceIte] at member
      exact later member

theorem bisectLeft_append {first second : List Nat} {bound : Nat}
    (below : ∀ index ∈ first, index < bound) (above : ∀ index ∈ second, bound ≤ index) :
    bisectLeft (first ++ second) bound = first.length := by
  have stops : second.takeWhile (· < bound) = [] := by
    cases second with
    | nil => rfl
    | cons head rest =>
      have headAbove := above head List.mem_cons_self
      simp [headAbove]
  unfold bisectLeft
  rw [List.takeWhile_append_of_pos (by simpa using below), stops, List.append_nil]

/-- Bisecting the index finds the events before a position. -/
theorem bisectLeft_events (first second : List α) :
    bisectLeft ((events test 0 (first ++ second)).map Prod.fst) first.length =
      (events test 0 first).length := by
  rw [events_append, List.map_append, bisectLeft_append]
  · rw [List.length_map]
  · intro index member
    have bounds := events_bounds member
    omega
  · intro index member
    have bounds := events_bounds member
    omega

/-- The bisect window is the list of events in between. -/
theorem events_window (before between after : List α) :
    (((events test 0 (before ++ (between ++ after))).take
          (bisectLeft ((events test 0 (before ++ (between ++ after))).map Prod.fst)
            (before.length + between.length))).drop
        (bisectLeft ((events test 0 (before ++ (between ++ after))).map Prod.fst)
          before.length)).map Prod.snd =
      between.filter test := by
  have stopAt :
      bisectLeft ((events test 0 (before ++ (between ++ after))).map Prod.fst)
          (before.length + between.length) =
        (events test 0 before).length + (events test before.length between).length := by
    have found := bisectLeft_events test (before ++ between) after
    rw [List.append_assoc, List.length_append] at found
    rw [found, events_append, List.length_append, Nat.zero_add]
  rw [stopAt, bisectLeft_events test before (between ++ after), events_append test 0 before,
    events_append, Nat.zero_add, ← List.append_assoc,
    List.take_append_of_le_length (by simp), List.take_of_length_le (by simp),
    List.drop_left, events_items]

/-- The bisect query asks whether an event lies in between. -/
theorem events_query (before between after : List α) :
    (∃ index,
      ((events test 0 (before ++ (between ++ after))).map Prod.fst)[
          bisectLeft ((events test 0 (before ++ (between ++ after))).map Prod.fst)
            before.length]? = some index ∧
        index < before.length + between.length) ↔
      ∃ item ∈ between, test item = true := by
  have atStart :
      ((events test 0 (before ++ (between ++ after))).map Prod.fst)[
          bisectLeft ((events test 0 (before ++ (between ++ after))).map Prod.fst) before.length]? =
        ((events test before.length (between ++ after)).map Prod.fst).head? := by
    rw [bisectLeft_events test before (between ++ after), events_append, List.map_append,
      Nat.zero_add, List.getElem?_append_right (by simp)]
    simp [List.head?_eq_getElem?]
  rw [atStart, events_append, List.map_append]
  constructor
  · rintro ⟨index, isFirst, below⟩
    cases found : events test before.length between with
    | nil =>
      rw [found] at isFirst
      have member : index ∈ (events test (before.length + between.length) after).map
          Prod.fst := List.mem_of_head? (by simpa using isFirst)
      have bounds := events_bounds member
      omega
    | cons event rest =>
      have items := events_items test before.length between
      rw [found] at items
      have kept : event.2 ∈ between.filter test := by
        rw [← items]
        simp
      exact ⟨event.2, List.mem_of_mem_filter kept, (List.mem_filter.mp kept).2⟩
  · rintro ⟨item, member, passes⟩
    cases found : events test before.length between with
    | nil =>
      have items := events_items test before.length between
      rw [found] at items
      have kept : item ∈ between.filter test := List.mem_filter.mpr ⟨member, passes⟩
      rw [← items] at kept
      simp at kept
    | cons event rest =>
      have listed : event.1 ∈ (events test before.length between).map Prod.fst := by
        rw [found]
        simp
      exact ⟨event.1, by simp, (events_bounds listed).2⟩

end TilelangAscend.EventIndex
