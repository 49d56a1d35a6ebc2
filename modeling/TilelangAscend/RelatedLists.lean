import Mathlib.Data.List.Forall2

namespace TilelangAscend.RelatedLists

/-!
# Lists related item by item

Items of one list have partners in the other, related lists can be built from a choice for
every item, and a split of one list splits the other.
-/

variable {α β : Type} {related : α → β → Prop} {left : List α} {right : List β}

theorem exists_of_mem_left (pairs : List.Forall₂ related left right) {item : α}
    (member : item ∈ left) : ∃ image ∈ right, related item image := by
  induction pairs with
  | nil =>
    cases member
  | cons isRelated _ ih =>
    rcases List.mem_cons.mp member with rfl | inRest
    · exact ⟨_, List.mem_cons_self, isRelated⟩
    · obtain ⟨image, present, restRelated⟩ := ih inRest
      exact ⟨image, List.mem_cons_of_mem _ present, restRelated⟩

theorem exists_of_mem_right (pairs : List.Forall₂ related left right) {image : β}
    (member : image ∈ right) : ∃ item ∈ left, related item image := by
  obtain ⟨item, present, isRelated⟩ := exists_of_mem_left pairs.flip member
  exact ⟨item, present, isRelated⟩

/-- A choice for each item gives a related list of images. -/
theorem exists_forall₂ {keeps : β → Prop}
    (choices : ∀ item ∈ left, ∃ image, related item image ∧ keeps image) :
    ∃ images, List.Forall₂ related left images ∧ ∀ image ∈ images, keeps image := by
  induction left with
  | nil => exact ⟨[], List.Forall₂.nil, by simp⟩
  | cons item rest ih =>
    obtain ⟨headChoice, restChoices⟩ := List.forall_mem_cons.mp choices
    obtain ⟨image, isRelated, isKept⟩ := headChoice
    obtain ⟨images, areRelated, areKept⟩ := ih restChoices
    exact ⟨image :: images, List.Forall₂.cons isRelated areRelated,
      List.forall_mem_cons.mpr ⟨isKept, areKept⟩⟩

/-- A split of the images is a split of the items. -/
theorem exists_split {before after : List β} {image : β}
    (pairs : List.Forall₂ related left (before ++ image :: after)) :
    ∃ first item rest,
      left = first ++ item :: rest ∧ List.Forall₂ related first before ∧
        related item image ∧
        List.Forall₂ related rest after := by
  induction before generalizing left with
  | nil =>
    cases pairs with
    | cons isRelated restRelated => exact ⟨[], _, _, rfl, List.Forall₂.nil, isRelated, restRelated⟩
  | cons head tail ih =>
    cases pairs with
    | cons isRelated restRelated =>
      obtain ⟨first, item, rest, rfl, firstRelated, here, later⟩ := ih restRelated
      exact ⟨_ :: first, item, rest, rfl, List.Forall₂.cons isRelated firstRelated, here, later⟩

end TilelangAscend.RelatedLists
