import Mathlib.Tactic.Tauto

namespace TilelangAscend.ListReach

/-!
# Reaching an item of a list

An item with a property is reached when all items in front of it may be passed.  Over
concatenations the reached item is in the first part, or in the second part behind a first
part that may be passed as a whole.
-/

variable {α : Type} {goal passable : α → Prop}

/-- Some item with the goal stands behind passable items only. -/
def Reaches
    (goal passable : α → Prop) :
    List α → Prop
  | [] => False
  | item :: rest => goal item ∨ (passable item ∧ Reaches goal passable rest)

@[simp] theorem not_reaches_nil : ¬ Reaches goal passable [] :=
  id

@[simp] theorem reaches_cons {item : α} {rest : List α} :
    Reaches goal passable (item :: rest) ↔
      goal item ∨ (passable item ∧ Reaches goal passable rest) :=
  Iff.rfl

/-- Reaching over two lists: in the first, or past it in the second. -/
theorem reaches_append {first second : List α} :
    Reaches goal passable (first ++ second) ↔
      Reaches goal passable first ∨
        ((∀ item ∈ first, passable item) ∧ Reaches goal passable second) := by
  induction first with
  | nil => simp
  | cons item rest ih =>
    simp only [List.cons_append, reaches_cons, ih, List.forall_mem_cons]
    tauto

theorem exists_reaches_of_flatten {lists : List (List α)}
    (reaches : Reaches goal passable lists.flatten) :
    ∃ list ∈ lists, Reaches goal passable list := by
  induction lists with
  | nil =>
    cases reaches
  | cons first rest ih =>
    rw [List.flatten_cons, reaches_append] at reaches
    rcases reaches with inFirst | ⟨_, inRest⟩
    · exact ⟨first, List.mem_cons_self, inFirst⟩
    · obtain ⟨list, member, found⟩ := ih inRest
      exact ⟨list, List.mem_cons_of_mem _ member, found⟩

theorem reaches_iff_exists {items : List α} (allPassable : ∀ item ∈ items, passable item) :
    Reaches goal passable items ↔ ∃ item ∈ items, goal item := by
  induction items with
  | nil => simp
  | cons item rest ih =>
    obtain ⟨headPassable, restPassable⟩ := List.forall_mem_cons.mp allPassable
    simp [ih restPassable, headPassable]

/-- Reaching means a goal behind passable items only. -/
theorem reaches_iff_split {items : List α} :
    Reaches goal passable items ↔
      ∃ before item after,
        items = before ++ item :: after ∧ goal item ∧ ∀ other ∈ before, passable other := by
  constructor
  · intro reaches
    induction items with
    | nil =>
      cases reaches
    | cons first rest ih =>
      rcases reaches with isGoal | ⟨isPassable, inRest⟩
      · exact ⟨[], first, rest, rfl, isGoal, by simp⟩
      · obtain ⟨before, item, after, rfl, isGoal, passing⟩ := ih inRest
        exact ⟨first :: before, item, after, rfl, isGoal,
          List.forall_mem_cons.mpr ⟨isPassable, passing⟩⟩
  · rintro ⟨before, item, after, rfl, isGoal, passing⟩
    rw [reaches_append]
    exact Or.inr ⟨passing, Or.inl isGoal⟩

end TilelangAscend.ListReach
