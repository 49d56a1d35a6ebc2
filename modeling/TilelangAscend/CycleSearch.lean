import Mathlib.Data.List.Chain
import Mathlib.Data.List.Perm.Subperm
import Mathlib.Order.WellFoundedSet
import TilelangAscend.DependencyOrder

namespace TilelangAscend.CycleSearch

open DependencyOrder

/-!
# Depth-first search for a cycle

A search marks the nodes on its current path and the nodes that it has left.  It stops at the
first node that is met again on the path; otherwise it leaves every node after its successors.
On a graph of which only listed nodes have successors, the path is never longer than that list.
-/

variable {α : Type}

/-- Some node leads back to itself. -/
def HasCycle (edges : α → List α) : Prop :=
  ∃ node, Relation.TransGen (fun first second => second ∈ edges first) node node

/-- A path along edges that ends where it starts. -/
structure IsCycle
    (edges : α → List α)
    (path : List α) :
    Prop where
  follows : path.IsChain fun first second => second ∈ edges first
  closed : path.head? = path.getLast?
  moves : 2 ≤ path.length

/-- What a search reports: the nodes it has left, a cycle, or that its fuel ran out. -/
inductive Outcome (α : Type) where
  | visited (nodes : List α)
  | cycle (path : List α)
  | exhausted
  deriving Repr, DecidableEq

/-- The nodes that a search has left, unless it stopped. -/
def Outcome.visited? : Outcome α → Option (List α)
  | .visited nodes => some nodes
  | _ => none

/-- Search from one node after the other until a search stops. -/
def searchAll (step : List α → α → Outcome α) : List α → List α → Outcome α
  | visited, [] => .visited visited
  | visited, node :: rest =>
    match step visited node with
    | .visited next => searchAll step next rest
    | stopped => stopped

/-- Search from one node, given the path to it and the nodes already left. -/
def search
    [DecidableEq α]
    (edges : α → List α) :
    Nat → List α → List α → α → Outcome α
  | 0, _, _, _ => .exhausted
  | fuel + 1, visiting, visited, node =>
    if node ∈ visiting then
      .cycle (visiting.drop (visiting.idxOf node) ++ [node])
    else if node ∈ visited then
      .visited visited
    else
      match searchAll (search edges fuel (visiting ++ [node])) visited (edges node) with
      | .visited nodes => .visited (node :: nodes)
      | stopped => stopped

/-- What an outcome promises about a search for targets. -/
def Outcome.Correct
    (edges : α → List α)
    (before targets : List α) :
    Outcome α → Prop
  | .visited after =>
    (∀ node ∈ before ++ targets, node ∈ after) ∧
      (NeedsFirst edges before.reverse → NeedsFirst edges after.reverse)
  | .cycle path => IsCycle edges path
  | .exhausted => False

variable {edges : α → List α} {before targets visiting nodes path order roots : List α} {node : α}

theorem searchAll_correct {step : List α → α → Outcome α}
    (correct : ∀ node ∈ targets, ∀ visited, (step visited node).Correct edges visited [node]) :
    (searchAll step before targets).Correct edges before targets := by
  induction targets generalizing before with
  | nil => exact ⟨fun _ member => by simpa using member, id⟩
  | cons node rest ih =>
    have first := correct node List.mem_cons_self before
    have others := fun next => @ih next fun other member =>
      correct other (List.mem_cons_of_mem _ member)
    unfold searchAll
    cases found : step before node with
    | exhausted => rwa [found] at first
    | cycle path => rwa [found] at first
    | visited next =>
      rw [found] at first
      have later := others next
      dsimp only
      cases outcome : searchAll step next rest with
      | exhausted => rwa [outcome] at later
      | cycle path => rwa [outcome] at later
      | visited after =>
        rw [outcome] at later
        obtain ⟨kept, ordered⟩ := later
        refine ⟨fun other member => kept other ?_, ordered ∘ first.2⟩
        rcases List.mem_append.mp member with old | new
        · exact List.mem_append_left _ (first.1 other (List.mem_append_left _ old))
        · rcases List.mem_cons.mp new with rfl | inRest
          · exact List.mem_append_left _ (first.1 other (by simp))
          · exact List.mem_append_right _ inRest

theorem isCycle_of_revisit [DecidableEq α]
    (follows : (visiting ++ [node]).IsChain fun first second => second ∈ edges first)
    (member : node ∈ visiting) :
    IsCycle edges (visiting.drop (visiting.idxOf node) ++ [node]) := by
  have within := List.idxOf_lt_length_iff.mpr member
  have shape : visiting.drop (visiting.idxOf node) =
      node :: visiting.drop (visiting.idxOf node + 1) := by
    rw [List.drop_eq_getElem_cons within, List.getElem_idxOf]
  refine ⟨?_, ?_, ?_⟩
  · have suffix := follows.drop (visiting.idxOf node)
    rwa [List.drop_append_of_le_length within.le] at suffix
  · rw [shape, List.getLast?_concat]
    rfl
  · rw [shape]
    simp

theorem search_correct [DecidableEq α] {fuel : Nat}
    (expandable : ∀ node, edges node ≠ [] → node ∈ nodes)
    (follows : (visiting ++ [node]).IsChain fun first second => second ∈ edges first)
    (distinct : visiting.Nodup) (known : visiting ⊆ nodes)
    (enough : nodes.length < fuel + visiting.length) :
    (search edges fuel visiting before node).Correct edges before [node] := by
  induction fuel generalizing visiting before node with
  | zero =>
    have bounded := (List.subperm_of_subset distinct known).length_le
    omega
  | succ fuel ih =>
    unfold search
    split
    · rename_i onPath
      exact isCycle_of_revisit follows onPath
    · rename_i fresh
      split
      · rename_i left
        refine ⟨fun other member => ?_, id⟩
        rcases List.mem_append.mp member with old | isNode
        · exact old
        · rwa [List.mem_singleton.mp isNode]
      · have successors :
            (searchAll (search edges fuel (visiting ++ [node])) before (edges node)).Correct
              edges before (edges node) := by
          refine searchAll_correct fun next isNext visited => ih ?_ ?_ ?_ ?_
          · refine List.isChain_append.mpr ⟨follows, List.isChain_singleton _, ?_⟩
            intro last isLast first isFirst
            rw [List.getLast?_concat, Option.mem_some_iff] at isLast
            rw [List.head?_singleton, Option.mem_some_iff] at isFirst
            rwa [← isLast, ← isFirst]
          · rw [List.nodup_append]
            refine ⟨distinct, List.nodup_singleton _, ?_⟩
            rintro other member _ isNode rfl
            rw [List.mem_singleton.mp isNode] at member
            exact fresh member
          · intro other member
            rcases List.mem_append.mp member with old | isNode
            · exact known old
            · rw [List.mem_singleton.mp isNode]
              exact expandable node (List.ne_nil_of_mem isNext)
          · rw [List.length_append, List.length_singleton]
            omega
        revert successors
        cases searchAll (search edges fuel (visiting ++ [node])) before (edges node) with
        | exhausted => exact id
        | cycle path => exact id
        | visited after =>
          rintro ⟨kept, ordered⟩
          refine ⟨fun other member => ?_, fun needsFirst => ?_⟩
          · rcases List.mem_append.mp member with old | isNode
            · exact List.mem_cons_of_mem _ (kept other (List.mem_append_left _ old))
            · rw [List.mem_singleton.mp isNode]
              exact List.mem_cons_self
          · rw [List.reverse_cons]
            exact (ordered needsFirst).snoc fun need isNeed =>
              List.mem_reverse.mpr (kept need (List.mem_append_right _ isNeed))

theorem searchRoots_correct [DecidableEq α] {fuel : Nat}
    (expandable : ∀ node, edges node ≠ [] → node ∈ roots) (enough : roots.length < fuel) :
    (searchAll (search edges fuel []) [] roots).Correct edges [] roots :=
  searchAll_correct fun _ _ _ =>
    search_correct expandable (List.isChain_singleton _) List.nodup_nil (List.nil_subset _) enough

theorem IsCycle.hasCycle (isCycle : IsCycle edges path) : HasCycle edges := by
  obtain ⟨follows, closed, moves⟩ := isCycle
  match path with
  | [] => simp at moves
  | [_] => simp at moves
  | first :: next :: rest =>
    obtain ⟨isNext, restFollows⟩ := List.isChain_cons_cons.mp follows
    have leads := List.relationReflTransGen_of_exists_isChain_cons rest restFollows rfl
    rw [List.head?_cons, List.getLast?_cons_cons,
      List.getLast?_eq_some_getLast (List.cons_ne_nil _ _), Option.some.injEq] at closed
    rw [← closed] at leads
    exact ⟨first, .head' isNext leads⟩

theorem not_hasCycle_of_needsFirst (needsFirst : NeedsFirst edges order)
    (complete : ∀ node, edges node ≠ [] → node ∈ order) : ¬ HasCycle edges := by
  classical
  rintro ⟨node, reaches⟩
  have lower : ∀ last, Relation.TransGen (fun first second => second ∈ edges first) node last →
      order.idxOf last < order.idxOf node := by
    intro last leads
    induction leads with
    | single isNext => exact needsFirst.idxOf_lt (complete _ (List.ne_nil_of_mem isNext)) isNext
    | tail _ isNext ih =>
      exact (needsFirst.idxOf_lt (complete _ (List.ne_nil_of_mem isNext)) isNext).trans ih
  exact lt_irrefl _ (lower node reaches)

theorem searchRoots_exact [DecidableEq α] {fuel : Nat}
    (expandable : ∀ node, edges node ≠ [] → node ∈ roots) (enough : roots.length < fuel) :
    (∃ nodes, searchAll (search edges fuel []) [] roots = .visited nodes ∧ ¬ HasCycle edges) ∨
      ∃ path, searchAll (search edges fuel []) [] roots = .cycle path ∧ IsCycle edges path := by
  have correct := searchRoots_correct expandable enough
  revert correct
  cases searchAll (search edges fuel []) [] roots with
  | exhausted => exact False.elim
  | cycle path => exact fun isCycle => .inr ⟨path, rfl, isCycle⟩
  | visited nodes =>
    rintro ⟨complete, ordered⟩
    refine .inl ⟨nodes, rfl, not_hasCycle_of_needsFirst (ordered .nil) ?_⟩
    intro node expands
    exact List.mem_reverse.mpr (complete node (expandable node expands))

/-- Without a cycle, some node of a nonempty finite set has no edge into the set. -/
theorem exists_sink (acyclic : ¬ HasCycle edges) {nodes : Finset α} (nonempty : nodes.Nonempty) :
    ∃ node ∈ nodes, ∀ next ∈ edges node, next ∉ nodes := by
  let after next node := Relation.TransGen (fun first second => second ∈ edges first) node next
  have : IsStrictOrder α after := {
    irrefl := fun node cyclic => acyclic ⟨node, cyclic⟩
    trans := fun _ _ _ first second => second.trans first }
  obtain ⟨⟨node, member⟩, _, least⟩ :=
    (nodes.finite_toSet.wellFoundedOn (r := after)).has_min .univ
      ⟨⟨_, nonempty.choose_spec⟩, trivial⟩
  exact ⟨node, member, fun next isNext inNodes => least ⟨next, inNodes⟩ trivial (.single isNext)⟩

end TilelangAscend.CycleSearch
