import TilelangAscend.RelatedLists

namespace TilelangAscend.ExceptRules

/-!
# Computations that may fail

When a sequence of computations, or one computation for each element of a list, succeeds.
-/

variable {ε α β : Type} {result : β} {compute : α → Except ε β} {items : List α}
  {results : List β}

theorem exceptBind_eq_ok {first : Except ε α} {rest : α → Except ε β} :
    first >>= rest = .ok result ↔ ∃ value, first = .ok value ∧ rest value = .ok result := by
  cases first with
  | error failure =>
    exact ⟨fun impossible => (nomatch impossible), fun ⟨_, impossible, _⟩ => (nomatch impossible)⟩
  | ok value =>
    exact ⟨fun succeeds => ⟨value, rfl, succeeds⟩, fun ⟨_, isValue, succeeds⟩ => by
      cases isValue
      exact succeeds⟩

theorem exceptGuard_eq_ok {bad : Prop} [Decidable bad] {failure : ε}
    {never : α → Except ε β} {rest : Except ε β} :
    (if bad then throw failure >>= never else rest) = .ok result ↔ ¬ bad ∧ rest = .ok result := by
  by_cases refused : bad
  · rw [if_pos refused]
    exact ⟨fun impossible => (nomatch impossible), fun passes => absurd refused passes.1⟩
  · rw [if_neg refused]
    exact ⟨fun succeeds => ⟨refused, succeeds⟩, And.right⟩

theorem exceptMapM_eq_ok :
    items.mapM compute = .ok results ↔
      List.Forall₂ (fun item result => compute item = .ok result) items results := by
  induction items generalizing results with
  | nil =>
    rw [List.mapM_nil, List.forall₂_nil_left_iff]
    exact ⟨fun isNil => by cases isNil; rfl, fun isNil => by rw [isNil]; rfl⟩
  | cons head rest ih =>
    rw [List.mapM_cons, List.forall₂_cons_left_iff]
    constructor
    · intro succeeds
      obtain ⟨first, isFirst, more⟩ := exceptBind_eq_ok.mp succeeds
      obtain ⟨others, areOthers, isResult⟩ := exceptBind_eq_ok.mp more
      cases isResult
      exact ⟨first, others, isFirst, ih.mp areOthers, rfl⟩
    · rintro ⟨first, others, isFirst, areOthers, rfl⟩
      exact exceptBind_eq_ok.mpr ⟨first, isFirst,
        exceptBind_eq_ok.mpr ⟨others, ih.mpr areOthers, rfl⟩⟩

theorem exists_result_of_mem (succeeds : items.mapM compute = .ok results) {item : α}
    (member : item ∈ items) : ∃ result ∈ results, compute item = .ok result := by
  have related := exceptMapM_eq_ok.mp succeeds
  induction related with
  | nil =>
    cases member
  | cons isHead areRest ih =>
    rcases List.mem_cons.mp member with rfl | inRest
    · exact ⟨_, List.mem_cons_self, isHead⟩
    · obtain ⟨result, isResult, isOk⟩ :=
        ih (exceptMapM_eq_ok.mpr areRest) inRest
      exact ⟨result, List.mem_cons_of_mem _ isResult, isOk⟩

theorem exists_item_of_mem (succeeds : items.mapM compute = .ok results)
    (member : result ∈ results) : ∃ item ∈ items, compute item = .ok result := by
  have related := exceptMapM_eq_ok.mp succeeds
  induction related with
  | nil =>
    cases member
  | @cons head first items results computed related ih =>
    obtain rfl | later := List.mem_cons.mp member
    · exact ⟨head, List.mem_cons_self, computed⟩
    · obtain ⟨item, isItem, isResult⟩ :=
        ih (exceptMapM_eq_ok.mpr related) later
      exact ⟨item, List.mem_cons_of_mem _ isItem, isResult⟩

/-- A map over a list succeeds if it does for each item. -/
theorem exists_exceptMapM_eq_ok :
    (∃ results, items.mapM compute = .ok results) ↔
      ∀ item ∈ items, ∃ result, compute item = .ok result := by
  simp only [exceptMapM_eq_ok]
  induction items with
  | nil => exact ⟨fun _ _ member => absurd member List.not_mem_nil, fun _ => ⟨[], .nil⟩⟩
  | cons head rest ih =>
    rw [List.forall_mem_cons, ← ih]
    constructor
    · rintro ⟨_, related⟩
      obtain ⟨first, others, isFirst, areOthers, _⟩ := List.forall₂_cons_left_iff.mp related
      exact ⟨⟨first, isFirst⟩, others, areOthers⟩
    · rintro ⟨⟨first, isFirst⟩, others, areOthers⟩
      exact ⟨first :: others, .cons isFirst areOthers⟩

/-- A map that succeeds with a property of each result has related results. -/
theorem exceptMapM_exists {holds : α → β → Prop}
    (each : ∀ item ∈ items, ∃ result, compute item = .ok result ∧ holds item result) :
    ∃ results, items.mapM compute = .ok results ∧ List.Forall₂ holds items results := by
  induction items with
  | nil => exact ⟨[], rfl, .nil⟩
  | cons head rest ih =>
    obtain ⟨first, isFirst, holdsFirst⟩ := each head List.mem_cons_self
    obtain ⟨others, areOthers, holdOthers⟩ := ih fun item member =>
      each item (List.mem_cons_of_mem _ member)
    exact ⟨first :: others,
      exceptMapM_eq_ok.mpr (.cons isFirst (exceptMapM_eq_ok.mp areOthers)),
      .cons holdsFirst holdOthers⟩

theorem exists_of_mem_results (succeeds : items.mapM compute = .ok results)
    (member : result ∈ results) : ∃ item ∈ items, compute item = .ok result :=
  RelatedLists.exists_of_mem_right (exceptMapM_eq_ok.mp succeeds) member

end TilelangAscend.ExceptRules
