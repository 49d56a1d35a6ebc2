import Mathlib.Algebra.Order.BigOperators.Group.List
import Mathlib.Algebra.Order.Ring.Int
import Mathlib.Tactic.Linarith

namespace TilelangAscend.BumpPlacement

/-!
# Placing items one behind another

Each item starts where the one before it ends, rounded up.  As long as nothing passes the range in
which the rounding is exact, every item lies behind the ones before it.
-/

section

variable {ι : Type}

/-- The items with their offsets. -/
def place
    (size : ι → Int)
    (next : Int → Int) :
    Int → List ι → List (ι × Int)
  | _, [] => []
  | offset, item :: rest => (item, offset) :: place size next (next (offset + size item)) rest

/-- The offset behind the last item. -/
def finish
    (size : ι → Int)
    (next : Int → Int) :
    Int → List ι → Int
  | offset, [] => offset
  | offset, item :: rest => finish size next (next (offset + size item)) rest

/-- The most that a list of items takes, if rounding adds at most a slack to each. -/
def demand (size : ι → Int) (slack : Int) (items : List ι) : Int :=
  (items.map fun item => size item + slack).sum

/-- Below a limit an offset is rounded up by at most a slack. -/
def Rounds (next : Int → Int) (slack limit : Int) : Prop :=
  ∀ offset, 0 ≤ offset → offset + slack ≤ limit →
    offset ≤ next offset ∧ next offset ≤ offset + slack

variable {size : ι → Int} {next : Int → Int} {slack limit offset : Int} {items : List ι}

theorem demand_cons (item : ι) :
    demand size slack (item :: items) = size item + slack + demand size slack items := by
  rw [demand, List.map_cons, List.sum_cons]
  rfl

theorem demand_nonneg (sizes : ∀ item ∈ items, 0 ≤ size item) (slackNonneg : 0 ≤ slack) :
    0 ≤ demand size slack items := by
  refine List.sum_nonneg fun taken member => ?_
  obtain ⟨item, isItem, rfl⟩ := List.mem_map.mp member
  exact add_nonneg (sizes item isItem) slackNonneg

theorem demand_sublist {fewer : List ι} (sizes : ∀ item ∈ items, 0 ≤ size item)
    (slackNonneg : 0 ≤ slack) (sublist : fewer.Sublist items) :
    demand size slack fewer ≤ demand size slack items := by
  induction sublist with
  | slnil => exact le_rfl
  | cons item _ ih =>
    have others := ih fun other member => sizes other (List.mem_cons_of_mem _ member)
    rw [demand_cons]
    linarith [sizes item List.mem_cons_self]
  | cons_cons item _ ih =>
    have others := ih fun other member => sizes other (List.mem_cons_of_mem _ member)
    rw [demand_cons, demand_cons]
    linarith

theorem map_fst_place : (place size next offset items).map Prod.fst = items := by
  induction items generalizing offset with
  | nil => rfl
  | cons item rest ih => rw [place, List.map_cons, ih]

theorem place_append (others : List ι) :
    place size next offset (items ++ others) =
      place size next offset items ++ place size next (finish size next offset items) others := by
  induction items generalizing offset with
  | nil => rfl
  | cons item rest ih =>
    rw [List.cons_append, place, place, ih, finish, List.cons_append]

theorem Rounds.head {item : ι} (rounds : Rounds next slack limit)
    (sizes : ∀ other ∈ item :: items, 0 ≤ size other) (slackNonneg : 0 ≤ slack)
    (start : 0 ≤ offset) (fits : offset + demand size slack (item :: items) ≤ limit) :
    offset + size item ≤ next (offset + size item) ∧
      next (offset + size item) + demand size slack items ≤ limit := by
  have others : 0 ≤ demand size slack items :=
    demand_nonneg (fun other member => sizes other (List.mem_cons_of_mem _ member)) slackNonneg
  have itemNonneg := sizes item List.mem_cons_self
  rw [demand_cons] at fits
  obtain ⟨behind, close⟩ := rounds (offset + size item) (by omega) (by omega)
  exact ⟨behind, by omega⟩

/-- Bump placement keeps every item between its start and its end. -/
theorem place_between (rounds : Rounds next slack limit)
    (sizes : ∀ item ∈ items, 0 ≤ size item) (slackNonneg : 0 ≤ slack) (start : 0 ≤ offset)
    (fits : offset + demand size slack items ≤ limit) :
    offset ≤ finish size next offset items ∧
      ∀ placed ∈ place size next offset items,
        offset ≤ placed.2 ∧ placed.2 + size placed.1 ≤ finish size next offset items := by
  induction items generalizing offset with
  | nil => exact ⟨le_rfl, nofun⟩
  | cons item rest ih =>
    obtain ⟨behind, restFits⟩ := rounds.head sizes slackNonneg start fits
    have itemNonneg := sizes item List.mem_cons_self
    obtain ⟨finishBehind, between⟩ := ih
      (fun other member => sizes other (List.mem_cons_of_mem _ member)) (by omega) restFits
    rw [finish, place]
    refine ⟨by omega, fun placed member => ?_⟩
    rcases List.mem_cons.mp member with rfl | inRest
    · exact ⟨le_rfl, behind.trans finishBehind⟩
    · obtain ⟨after, before⟩ := between placed inRest
      exact ⟨by omega, before⟩

/-- No two items of a bump placement overlap. -/
theorem place_apart (rounds : Rounds next slack limit)
    (sizes : ∀ item ∈ items, 0 ≤ size item) (slackNonneg : 0 ≤ slack) (start : 0 ≤ offset)
    (fits : offset + demand size slack items ≤ limit) {left right : ι × Int}
    (isLeft : left ∈ place size next offset items)
    (isRight : right ∈ place size next offset items) (differ : left.1 ≠ right.1) :
    left.2 + size left.1 ≤ right.2 ∨ right.2 + size right.1 ≤ left.2 := by
  induction items generalizing offset with
  | nil =>
    cases isLeft
  | cons item rest ih =>
    obtain ⟨behind, restFits⟩ := rounds.head sizes slackNonneg start fits
    have itemNonneg := sizes item List.mem_cons_self
    have restSizes : ∀ other ∈ rest, 0 ≤ size other :=
      fun other member => sizes other (List.mem_cons_of_mem _ member)
    have nextNonneg : 0 ≤ next (offset + size item) := by omega
    obtain ⟨_, between⟩ := place_between rounds restSizes slackNonneg nextNonneg restFits
    rw [place] at isLeft isRight
    rcases List.mem_cons.mp isLeft with rfl | leftLater
    · rcases List.mem_cons.mp isRight with rfl | rightLater
      · exact absurd rfl differ
      · exact .inl (behind.trans (between right rightLater).1)
    · rcases List.mem_cons.mp isRight with rfl | rightLater
      · exact .inr (behind.trans (between left leftLater).1)
      · exact ih restSizes nextNonneg restFits leftLater rightLater

theorem exists_placed {item : ι} (member : item ∈ items) :
    ∃ address, (item, address) ∈ place size next offset items := by
  have isFirst : item ∈ (place size next offset items).map Prod.fst := by
    rw [map_fst_place]
    exact member
  obtain ⟨⟨other, address⟩, placed, rfl⟩ := List.mem_map.mp isFirst
  exact ⟨address, placed⟩

end

end TilelangAscend.BumpPlacement
