import Mathlib

namespace TilelangAscend.GraphContraction

/-!
# Contracting dropped nodes of a graph

Where nodes of a graph are dropped, a node that needs a dropped one needs instead what that one
leads to.  A work list follows the needs of dropped nodes and collects the kept nodes that it
meets.  It pops a node once for every path on which it is met, so its length is bounded by the
number of paths.
-/

section Contraction

variable {α : Type}

/-- A node leads to a kept one: itself, or one that a dropped node needs in its place. -/
inductive LeadsTo
    (needs : α → List α)
    (dropped : α → Bool) :
    α → α → Prop where
  | here {node : α} :
      dropped node = false → LeadsTo needs dropped node node
  | through {node need target : α} :
      dropped node = true →
      need ∈ needs node →
      LeadsTo needs dropped need target →
      LeadsTo needs dropped node target

/-- How often nodes are popped from the work list on behalf of a node, up to a path length. -/
def popCount
    (needs : α → List α)
    (dropped : α → Bool) :
    Nat → α → Nat
  | 0, _ => 1
  | bound + 1, node =>
    if dropped node then
      1 + ((needs node).map (popCount needs dropped bound)).sum
    else
      1

variable {target node : α} {bound fuel : Nat} {result pending resolved nodes : List α}

theorem LeadsTo.kept {needs : α → List α} {dropped : α → Bool}
    (leads : LeadsTo needs dropped node target) : dropped target = false := by
  induction leads with
  | here isKept => exact isKept
  | through _ _ _ ih => exact ih

theorem popCount_eq {needs : α → List α} {dropped : α → Bool} {depth : α → Nat}
    (measured : ∀ node, ∀ need ∈ needs node, depth need < depth node) {other : Nat}
    (within : depth node < bound) (otherWithin : depth node < other) :
    popCount needs dropped bound node = popCount needs dropped other node := by
  induction bound generalizing other node with
  | zero => omega
  | succ bound ih =>
    obtain ⟨other, rfl⟩ : ∃ smaller, other = smaller + 1 := ⟨other - 1, by omega⟩
    unfold popCount
    split
    · congr 2
      refine List.map_congr_left ?_
      intro need isNeed
      have deeper := measured node need isNeed
      exact ih (by omega) (by omega)
    · rfl

variable [LinearOrder α]

/--
The work list: pop a node, go on with its needs if it is dropped, else collect it.  Popping an
unknown node fails; the fuel bounds the number of pops.
-/
def contractLoop
    (needs : α → List α)
    (known dropped : α → Bool) :
    Nat → List α → List α → Option (List α)
  | _, [], resolved => some resolved
  | 0, _ :: _, _ => none
  | fuel + 1, node :: pending, resolved =>
    if known node then
      if dropped node then
        contractLoop needs known dropped fuel ((needs node).reverse ++ pending) resolved
      else
        contractLoop needs known dropped fuel pending (resolved.insert node)
    else
      none

/-- The kept nodes that a list of nodes leads to, sorted. -/
def contract (needs : α → List α) (known dropped : α → Bool) (bound : Nat)
    (nodes : List α) : Option (List α) :=
  (contractLoop needs known dropped (nodes.map (popCount needs dropped bound)).sum nodes.reverse
    []).map fun resolved => resolved.insertionSort (· ≤ ·)

variable {needs : α → List α} {known dropped : α → Bool}

theorem mem_contractLoop
    (contracted : contractLoop needs known dropped fuel pending resolved = some result) :
    target ∈ result ↔ target ∈ resolved ∨ ∃ node ∈ pending, LeadsTo needs dropped node target := by
  induction fuel generalizing pending resolved with
  | zero =>
    cases pending with
    | nil =>
      cases contracted
      simp
    | cons node pending =>
      cases contracted
  | succ fuel ih =>
    cases pending with
    | nil =>
      cases contracted
      simp
    | cons node pending =>
      unfold contractLoop at contracted
      split at contracted
      · split at contracted
        · rename_i isDropped
          rw [ih contracted]
          simp only [List.mem_append, List.mem_reverse, List.mem_cons, or_and_right,
            exists_or, exists_eq_left]
          refine or_congr_right (or_congr_left ?_)
          constructor
          · rintro ⟨need, isNeed, leads⟩
            exact .through isDropped isNeed leads
          · intro leads
            cases leads with
            | here isKept =>
              rw [isDropped] at isKept
              cases isKept
            | through _ isNeed leads => exact ⟨_, isNeed, leads⟩
        · rename_i notDropped
          have isKept : dropped node = false := by simpa using notDropped
          rw [ih contracted]
          simp only [List.mem_insert_iff, List.mem_cons, or_and_right, exists_or, exists_eq_left]
          rw [or_comm (a := target = node), or_assoc]
          refine or_congr_right (or_congr_left ?_)
          constructor
          · rintro rfl
            exact .here isKept
          · intro leads
            cases leads with
            | here => rfl
            | through isDropped =>
              rw [isKept] at isDropped
              cases isDropped
      · cases contracted

theorem nodup_contractLoop
    (contracted : contractLoop needs known dropped fuel pending resolved = some result)
    (distinct : resolved.Nodup) : result.Nodup := by
  induction fuel generalizing pending resolved with
  | zero =>
    cases pending with
    | nil =>
      cases contracted
      exact distinct
    | cons node pending =>
      cases contracted
  | succ fuel ih =>
    cases pending with
    | nil =>
      cases contracted
      exact distinct
    | cons node pending =>
      unfold contractLoop at contracted
      split at contracted
      · split at contracted
        · exact ih contracted distinct
        · exact ih contracted distinct.insert
      · cases contracted

/-! ## The work list ends -/

section Depth

variable {depth : α → Nat} {bound : Nat}

/-- With a depth for every node the contraction ends. -/
theorem contractLoop_total (measured : ∀ node, ∀ need ∈ needs node, depth need < depth node)
    (closed : ∀ node, known node = true → ∀ need ∈ needs node, known need = true)
    {fuel : Nat} {pending resolved : List α} (allKnown : ∀ node ∈ pending, known node = true)
    (within : ∀ node ∈ pending, depth node < bound)
    (enough : (pending.map (popCount needs dropped bound)).sum ≤ fuel) :
    ∃ result, contractLoop needs known dropped fuel pending resolved = some result := by
  induction fuel generalizing pending resolved with
  | zero =>
    cases pending with
    | nil => exact ⟨resolved, rfl⟩
    | cons node pending =>
      have positive : 0 < popCount needs dropped bound node := by
        cases bound <;> unfold popCount
        · exact Nat.one_pos
        · split <;> omega
      rw [List.map_cons, List.sum_cons] at enough
      omega
  | succ fuel ih =>
    cases pending with
    | nil => exact ⟨resolved, rfl⟩
    | cons node pending =>
      obtain ⟨nodeKnown, restKnown⟩ := List.forall_mem_cons.mp allKnown
      obtain ⟨nodeWithin, restWithin⟩ := List.forall_mem_cons.mp within
      rw [List.map_cons, List.sum_cons] at enough
      unfold contractLoop
      rw [if_pos nodeKnown]
      obtain ⟨bound, rfl⟩ : ∃ smaller, bound = smaller + 1 := ⟨bound - 1, by omega⟩
      split
      · rename_i isDropped
        have needsWithin : ∀ need ∈ needs node, depth need < bound := by
          intro need isNeed
          have deeper := measured node need isNeed
          omega
        refine ih ?_ ?_ ?_
        · intro other member
          rcases List.mem_append.mp member with isNeed | inRest
          · exact closed node nodeKnown other (List.mem_reverse.mp isNeed)
          · exact restKnown other inRest
        · intro other member
          rcases List.mem_append.mp member with isNeed | inRest
          · exact (needsWithin other (List.mem_reverse.mp isNeed)).trans (Nat.lt_succ_self _)
          · exact restWithin other inRest
        · have sameCounts :
              ((needs node).map (popCount needs dropped (bound + 1))).sum =
                ((needs node).map (popCount needs dropped bound)).sum := by
            congr 1
            refine List.map_congr_left ?_
            intro need isNeed
            have deeper := needsWithin need isNeed
            exact popCount_eq measured (by omega) deeper
          have nodeCount : popCount needs dropped (bound + 1) node =
              1 + ((needs node).map (popCount needs dropped bound)).sum := by
            rw [popCount, if_pos isDropped]
          rw [List.map_append, List.sum_append, List.map_reverse, List.sum_reverse, sameCounts]
          omega
      · rename_i notDropped
        have nodeCount : popCount needs dropped (bound + 1) node = 1 := by
          rw [popCount, if_neg notDropped]
        exact ih restKnown restWithin (by omega)

/-- The contraction of a well-founded graph always has a result. -/
theorem exists_contract (measured : ∀ node, ∀ need ∈ needs node, depth need < depth node)
    (closed : ∀ node, known node = true → ∀ need ∈ needs node, known need = true)
    {nodes : List α} (allKnown : ∀ node ∈ nodes, known node = true)
    (within : ∀ node ∈ nodes, depth node < bound) :
    ∃ result, contract needs known dropped bound nodes = some result := by
  have enough : (nodes.reverse.map (popCount needs dropped bound)).sum ≤
      (nodes.map (popCount needs dropped bound)).sum := by
    rw [List.map_reverse, List.sum_reverse]
  obtain ⟨resolved, contracted⟩ :=
    contractLoop_total measured closed
      (fun node member => allKnown node (List.mem_reverse.mp member))
      (fun node member => within node (List.mem_reverse.mp member)) enough
  exact ⟨_, by rw [contract, contracted, Option.map_some]⟩

end Depth

/-- A result is a node that kept paths lead to. -/
theorem mem_contract (contracted : contract needs known dropped bound nodes = some result) :
    target ∈ result ↔ ∃ node ∈ nodes, LeadsTo needs dropped node target := by
  obtain ⟨resolved, loops, rfl⟩ := Option.map_eq_some_iff.mp contracted
  rw [List.mem_insertionSort, mem_contractLoop loops]
  simp

/-- The contraction names nothing twice. -/
theorem nodup_contract (contracted : contract needs known dropped bound nodes = some result) :
    result.Nodup := by
  obtain ⟨resolved, loops, rfl⟩ := Option.map_eq_some_iff.mp contracted
  exact (List.perm_insertionSort _ _).nodup_iff.mpr (nodup_contractLoop loops List.nodup_nil)

end Contraction

end TilelangAscend.GraphContraction
