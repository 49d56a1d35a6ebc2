import Mathlib.Data.List.Basic
import Mathlib.Data.List.Induction
import Mathlib.Data.List.Nodup
import Mathlib.Data.List.Perm.Subperm
import Mathlib.Logic.Function.Basic

namespace TilelangAscend.ListHistory

/-!
# Histories as lists

A scan over a list often keeps, for one class of elements, only the latest element
it has seen.  This module describes that element by the part of the list scanned so
far, and proves the rule by which an order that links every element to the latest
one of a class extends to all earlier elements of the class.  It also collects the
facts about splitting a duplicate-free list at one of its elements.
-/

variable {α β κ : Type}

/-- The last element of a list that satisfies a test. -/
def lastWhere (test : α → Bool) (items : List α) : Option α :=
  (items.filter test).getLast?

@[simp] theorem lastWhere_nil (test : α → Bool) : lastWhere test [] = none :=
  rfl

theorem lastWhere_snoc (test : α → Bool) (items : List α) (item : α) :
    lastWhere test (items ++ [item]) = if test item then some item else lastWhere test items := by
  by_cases passes : test item
  · simp [lastWhere, passes]
  · simp [lastWhere, passes]

variable {items before start : List α} {item : α} {key : α → κ}
  {property : List α → α → List α → Prop}

theorem lastWhere_eq_some {test : α → Bool} (latest : lastWhere test items = some item) :
    ∃ before after,
      items = before ++ item :: after ∧ test item = true ∧
        ∀ later ∈ after, test later = false := by
  induction items using List.reverseRecOn with
  | nil => simp at latest
  | append_singleton rest last ih =>
    rw [lastWhere_snoc] at latest
    by_cases passes : test last
    · simp only [passes, ↓reduceIte, Option.some.injEq] at latest
      subst latest
      exact ⟨rest, [], rfl, passes, by simp⟩
    · simp only [passes, Bool.false_eq_true, ↓reduceIte] at latest
      obtain ⟨before, after, shape, itemPasses, afterFails⟩ := ih latest
      refine ⟨before, after ++ [last], by simp [shape], itemPasses, ?_⟩
      intro later member
      rcases List.mem_append.mp member with inAfter | isLast
      · exact afterFails later inAfter
      · simpa [List.mem_singleton.mp isLast] using passes

theorem lastWhere_isSome (test : α → Bool) (member : item ∈ items)
    (passes : test item = true) : ∃ latest, lastWhere test items = some latest := by
  have kept : item ∈ items.filter test := List.mem_filter.mpr ⟨member, passes⟩
  have nonempty : items.filter test ≠ [] := List.ne_nil_of_mem kept
  exact ⟨_, List.getLast?_eq_some_getLast nonempty⟩

theorem lastWhere_update [DecidableEq κ] (key : α → κ) (value : α → β) (items : List α)
    (item : α) :
    (fun wanted => (lastWhere (fun other => key other = wanted) (items ++ [item])).map value) =
      Function.update
        (fun wanted => (lastWhere (fun other => key other = wanted) items).map value)
        (key item)
        (some (value item)) := by
  funext wanted
  rw [lastWhere_snoc, Function.update_apply]
  by_cases same : wanted = key item
  · subst wanted
    simp
  · have keysDiffer : ¬ key item = wanted := fun equal => same equal.symm
    simp [same, keysDiffer]

/--
If every element of a domain is related to the latest earlier element of a class, and
the class lies inside the domain, then it is related to all earlier elements of it.
-/
theorem related_of_latest (test : α → Bool) (domain : α → Prop) (related : α → α → Prop)
    (transitive :
      ∀ first second third, related first second → related second third → related first third)
    (inDomain : ∀ item, test item = true → domain item)
    (link :
      ∀ before item after latest, items = before ++ item :: after → domain item →
        lastWhere test before = some latest →
        related latest item) :
    ∀ before item after earlier, items = before ++ item :: after → domain item →
      earlier ∈ before →
      test earlier = true →
      related earlier item := by
  intro before
  induction sizeShape : before.length using Nat.strongRecOn generalizing before with
  | _ size ih =>
    intro item after earlier shape itemDomain member passes
    obtain ⟨latest, isLatest⟩ := lastWhere_isSome test member passes
    have latestRelated := link before item after latest shape itemDomain isLatest
    obtain ⟨older, newer, beforeShape, latestPasses, newerFail⟩ := lastWhere_eq_some isLatest
    rw [beforeShape] at member
    rcases List.mem_append.mp member with inOlder | inRest
    · have smaller : older.length < size := by
        rw [← sizeShape, beforeShape]
        simp
      have olderRelated :=
        ih older.length smaller older rfl latest
          (newer ++ item :: after) earlier
          (by rw [shape, beforeShape]; simp)
          (inDomain latest latestPasses) inOlder passes
      exact transitive _ _ _ olderRelated latestRelated
    · rcases List.mem_cons.mp inRest with isLatestItem | inNewer
      · rw [isLatestItem]
        exact latestRelated
      · have fails := newerFail earlier inNewer
        rw [passes] at fails
        cases fails

theorem split_unique {first second : List α} {firstRest secondRest : List α}
    (noDuplicates : (items.map key).Nodup) (firstShape : items = first ++ item :: firstRest)
    (secondShape : items = second ++ item :: secondRest) :
    first = second ∧ firstRest = secondRest := by
  induction first generalizing items second with
  | nil =>
    cases second with
    | nil =>
      rw [firstShape] at secondShape
      simpa using secondShape
    | cons head rest =>
      rw [firstShape] at secondShape
      simp only [List.nil_append, List.cons_append, List.cons.injEq] at secondShape
      obtain ⟨_, restShape⟩ := secondShape
      rw [firstShape, restShape] at noDuplicates
      simp at noDuplicates
  | cons head rest ih =>
    cases second with
    | nil =>
      rw [secondShape] at firstShape
      simp only [List.nil_append, List.cons_append, List.cons.injEq] at firstShape
      obtain ⟨_, restShape⟩ := firstShape
      rw [secondShape, restShape] at noDuplicates
      simp at noDuplicates
    | cons otherHead otherRest =>
      subst firstShape
      simp only [List.cons_append, List.cons.injEq] at secondShape
      obtain ⟨headSame, restShape⟩ := secondShape
      have restNodup :
          ((rest ++ item :: firstRest).map key).Nodup := by
        simp only [List.cons_append, List.map_cons, List.nodup_cons] at noDuplicates
        exact noDuplicates.2
      obtain ⟨sameRest, sameAfter⟩ := ih restNodup rfl restShape
      exact ⟨by rw [headSame, sameRest], sameAfter⟩

theorem eq_of_key_eq {first second : α} (noDuplicates : (items.map key).Nodup)
    (firstMember : first ∈ items) (secondMember : second ∈ items)
    (sameKey : key first = key second) : first = second :=
  List.inj_on_of_nodup_map noDuplicates firstMember secondMember sameKey

theorem filter_key_eq_singleton [DecidableEq κ] (noDuplicates : (items.map key).Nodup)
    (member : item ∈ items) : items.filter (fun other => key other = key item) = [item] := by
  induction items with
  | nil => simp at member
  | cons head rest ih =>
    simp only [List.map_cons, List.nodup_cons] at noDuplicates
    rcases List.mem_cons.mp member with isHead | inRest
    · subst isHead
      have othersDiffer :
          rest.filter (fun other => key other = key item) = [] := by
        rw [List.filter_eq_nil_iff]
        intro other inRest sameKey
        have same : key other = key item := by simpa using sameKey
        exact noDuplicates.1 (same ▸ List.mem_map_of_mem inRest)
      simp [othersDiffer]
    · have headDiffers : key head ≠ key item := by
        intro same
        exact noDuplicates.1 (same ▸ List.mem_map_of_mem inRest)
      simp [headDiffers, ih noDuplicates.2 inRest]

theorem before_or_after {after : List α} {other : α}
    (shape : items = before ++ item :: after) (member : other ∈ items)
    (differs : other ≠ item) : other ∈ before ∨ other ∈ after := by
  rw [shape] at member
  rcases List.mem_append.mp member with inBefore | inRest
  · exact Or.inl inBefore
  · exact Or.inr ((List.mem_cons.mp inRest).resolve_left differs)

/--
A prefix of a duplicate-free list that contains everything before one element, but
not that element, is the part before it.
-/
theorem prefix_eq_before (item : α) (after : List α) (noDuplicates : before.Nodup)
    (isPrefix : start <+: before ++ item :: after)
    (covers : ∀ earlier ∈ before, earlier ∈ start) (absent : item ∉ start) : start = before := by
  rcases List.prefix_or_prefix_of_prefix isPrefix (List.prefix_append before (item :: after))
    with startShorter | beforeShorter
  · have lengths : before.length ≤ start.length := (noDuplicates.subperm covers).length_le
    exact startShorter.eq_of_length_le lengths
  · obtain ⟨rest, restShape⟩ := beforeShorter
    cases rest with
    | nil => rw [← restShape, List.append_nil]
    | cons head tail =>
      rw [← restShape] at isPrefix
      have tails := (List.prefix_append_right_inj before).mp isPrefix
      have sameHead : head = item := (List.cons_prefix_cons.mp tails).1
      exact (absent (by rw [← restShape, sameHead]; simp)).elim

theorem getElem?_of_prefix [DecidableEq α] (noDuplicates : items.Nodup)
    (isPrefix : start <+: items) (index : Nat) :
    start[index]? = (items[index]?).filter fun item => item ∈ start := by
  obtain ⟨rest, rfl⟩ := isPrefix
  by_cases inside : index < start.length
  · rw [List.getElem?_append_left inside, List.getElem?_eq_getElem inside,
      Option.filter_some_pos (by simp)]
  · rw [List.getElem?_eq_none (Nat.le_of_not_lt inside),
      List.getElem?_append_right (Nat.le_of_not_lt inside)]
    cases found : rest[index - start.length]? with
    | none => rfl
    | some item =>
      have inRest : item ∈ rest := List.mem_of_getElem? found
      have absent : item ∉ start := fun inStart =>
        (List.nodup_append.mp noDuplicates).2.2 item inStart item inRest rfl
      simp [Option.filter_some, absent]

theorem exists_split_iff :
    (∃ before item after, items = before ++ item :: after ∧ property before item after) ↔
      ∃ index : Fin items.length,
        property (items.take index) items[index] (items.drop (index + 1)) := by
  constructor
  · rintro ⟨before, item, after, shape, holds⟩
    subst shape
    refine ⟨⟨before.length, by simp⟩, ?_⟩
    simpa using holds
  · rintro ⟨index, holds⟩
    refine ⟨_, _, _, ?_, holds⟩
    simp

theorem forall_split_iff :
    (∀ before item after, items = before ++ item :: after → property before item after) ↔
      ∀ index : Fin items.length,
        property (items.take index) items[index] (items.drop (index + 1)) := by
  constructor
  · intro holds index
    refine holds _ _ _ ?_
    simp
  · intro holds before item after shape
    subst shape
    have atItem := holds ⟨before.length, by simp⟩
    simpa using atItem

/-- Whether all splits of a list have a property, decided position by position. -/
def decidableForallSplit [∀ before item after, Decidable (property before item after)] :
    Decidable (∀ before item after, items = before ++ item :: after → property before item after) :=
  decidable_of_iff _ forall_split_iff.symm

theorem lookup_keyed [DecidableEq α] {keys : List α} {value : α → β} {key : α} :
    (keys.map fun other => (other, value other)).lookup key =
      if key ∈ keys then some (value key) else none := by
  induction keys with
  | nil => rfl
  | cons first rest ih =>
    by_cases same : key = first
    · subst same
      simp
    · have differs : (key == first) = false := by
        simpa using same
      simp only [List.map_cons, List.lookup_cons, differs, ih, List.mem_cons, same, false_or]

end TilelangAscend.ListHistory
