import Mathlib.Data.List.Dedup
import Mathlib.Data.List.Nodup
import Mathlib.Data.List.Perm.Subperm
import Mathlib.Logic.Relation

namespace TilelangAscend.GraphSearch

/-!
# Reachability by a worklist

A graph is a list of edges.  `hasPath` searches it with a stack and a list of visited nodes,
and finds a target exactly if a path of edges leads to it.
-/

variable {α : Type} [DecidableEq α]

/-- Targets of the edges that leave a node. -/
def neighbors (edges : List (α × α)) (node : α) : List α :=
  (edges.filter (·.1 = node)).map Prod.snd

/-- Neighbors of a node that were not visited yet, each once. -/
def freshNeighbors (edges : List (α × α)) (visited : List α) (node : α) : List α :=
  ((neighbors edges node).filter (· ∉ visited)).dedup

/--
The search loop: take a node from the stack, stop if the target is one of its neighbors, and
push those that are new.  The fuel bounds the number of nodes taken.
-/
def search
    (edges : List (α × α))
    (target : α) :
    Nat → List α → List α → Bool
  | 0, _, _ => false
  | _ + 1, [], _ => false
  | fuel + 1, current :: stack, visited =>
    if target ∈ neighbors edges current then
      true
    else
      search edges target fuel
        (freshNeighbors edges visited current ++ stack)
        (freshNeighbors edges visited current ++ visited)

/-- Whether a path leads from one node to another. -/
def hasPath (edges : List (α × α)) (source target : α) : Bool :=
  source = target || search edges target (edges.length + 2) [source] [source]

/-- An edge between two nodes. -/
def Edge (edges : List (α × α)) (source target : α) : Prop :=
  (source, target) ∈ edges

variable {edges : List (α × α)} {source target : α} {visited stack : List α} {fuel : Nat}

theorem mem_neighbors : target ∈ neighbors edges source ↔ Edge edges source target := by
  simp only [neighbors, Edge, List.mem_map, List.mem_filter, decide_eq_true_eq]
  constructor
  · rintro ⟨edge, ⟨member, rfl⟩, rfl⟩
    exact member
  · intro member
    exact ⟨(source, target), ⟨member, rfl⟩, rfl⟩

theorem mem_freshNeighbors :
    target ∈ freshNeighbors edges visited source ↔ Edge edges source target ∧ target ∉ visited := by
  simp [freshNeighbors, mem_neighbors]

/-- What the search finds is reachable. -/
theorem reachable_of_search
    (reached : ∀ node ∈ stack, Relation.ReflTransGen (Edge edges) source node)
    (found : search edges target fuel stack visited = true) :
    Relation.ReflTransGen (Edge edges) source target := by
  induction fuel generalizing stack visited with
  | zero =>
    cases found
  | succ fuel ih =>
    cases stack with
    | nil =>
      cases found
    | cons current stack =>
      have currentReached := reached current List.mem_cons_self
      simp only [search] at found
      split at found
      · rename_i isNeighbor
        exact currentReached.tail (mem_neighbors.mp isNeighbor)
      · refine ih ?_ found
        intro node member
        rcases List.mem_append.mp member with isFresh | inStack
        · exact currentReached.tail (mem_freshNeighbors.mp isFresh).1
        · exact reached node (List.mem_cons_of_mem _ inStack)

/-- Nodes that some edge enters and that were not visited yet. -/
def unvisited (edges : List (α × α)) (visited : List α) : List α :=
  (edges.map Prod.snd).dedup.filter (· ∉ visited)

theorem unvisited_length (edges : List (α × α)) (visited : List α) (node : α) :
    (freshNeighbors edges visited node).length +
        (unvisited edges (freshNeighbors edges visited node ++ visited)).length ≤
      (unvisited edges visited).length := by
  have disjoint :
      (freshNeighbors edges visited node ++
        unvisited edges (freshNeighbors edges visited node ++ visited)).Nodup := by
    rw [List.nodup_append]
    refine ⟨List.nodup_dedup _, (List.nodup_dedup _).filter _, ?_⟩
    rintro fresh isFresh other isUnvisited rfl
    simp only [unvisited, List.mem_filter, List.mem_append, decide_eq_true_eq, not_or]
      at isUnvisited
    exact isUnvisited.2.1 isFresh
  rw [← List.length_append]
  refine (List.Nodup.subperm disjoint ?_).length_le
  intro other member
  rcases List.mem_append.mp member with isFresh | isUnvisited
  · obtain ⟨isEdge, notVisited⟩ := mem_freshNeighbors.mp isFresh
    have entered : other ∈ edges.map Prod.snd := List.mem_map.mpr ⟨_, isEdge, rfl⟩
    simp [unvisited, entered, notVisited, -List.mem_map]
  · simp only [unvisited, List.mem_filter, List.mem_append, decide_eq_true_eq, not_or]
      at isUnvisited ⊢
    exact ⟨isUnvisited.1, isUnvisited.2.2⟩

/-- What a search with enough fuel misses is not reachable. -/
theorem not_reachable_of_search (enough : stack.length + (unvisited edges visited).length < fuel)
    (started : source ∈ visited) (missed : target ∉ visited)
    (closed : ∀ node ∈ visited, node ∈ stack ∨ ∀ next, Edge edges node next → next ∈ visited)
    (failed : search edges target fuel stack visited = false) :
    ¬ Relation.ReflTransGen (Edge edges) source target := by
  induction fuel generalizing stack visited with
  | zero => omega
  | succ fuel ih =>
    cases stack with
    | nil =>
      -- the visited nodes are closed under edges, so no path leaves them
      have inside : ∀ node, Relation.ReflTransGen (Edge edges) source node → node ∈ visited := by
        intro node path
        induction path with
        | refl => exact started
        | tail _ edge stays => exact (closed _ stays).resolve_left List.not_mem_nil _ edge
      intro path
      exact missed (inside target path)
    | cons current stack =>
      simp only [search] at failed
      split at failed
      · cases failed
      · rename_i notNeighbor
        have decreases := unvisited_length edges visited current
        refine ih ?_ ?_ ?_ ?_ failed
        · rw [List.length_append]
          rw [List.length_cons] at enough
          omega
        · exact List.mem_append_right _ started
        · intro member
          rcases List.mem_append.mp member with isFresh | isVisited
          · exact notNeighbor (mem_neighbors.mpr (mem_freshNeighbors.mp isFresh).1)
          · exact missed isVisited
        · intro node member
          by_cases isFresh : node ∈ freshNeighbors edges visited current
          · exact Or.inl (List.mem_append_left _ isFresh)
          · have isVisited := (List.mem_append.mp member).resolve_left isFresh
            rcases closed node isVisited with inStack | expanded
            · rcases List.mem_cons.mp inStack with isCurrent | inRest
              · right
                intro next edge
                rw [isCurrent] at edge
                by_cases known : next ∈ visited
                · exact List.mem_append_right _ known
                · exact List.mem_append_left _ (mem_freshNeighbors.mpr ⟨edge, known⟩)
              · exact Or.inl (List.mem_append_right _ inRest)
            · right
              intro next edge
              exact List.mem_append_right _ (expanded next edge)

/-- The search decides reachability. -/
theorem hasPath_iff :
    hasPath edges source target = true ↔ Relation.ReflTransGen (Edge edges) source target := by
  unfold hasPath
  by_cases same : source = target
  · subst same
    simp [Relation.ReflTransGen.refl]
  · simp only [same, decide_false, Bool.false_or]
    constructor
    · refine reachable_of_search ?_
      intro node member
      rw [List.mem_singleton.mp member]
    · intro path
      by_contra failed
      have few : (unvisited edges [source]).length ≤ edges.length :=
        calc
          (unvisited edges [source]).length ≤ (edges.map Prod.snd).dedup.length :=
            List.length_filter_le _ _
          _ ≤ (edges.map Prod.snd).length := (List.dedup_sublist _).length_le
          _ = edges.length := List.length_map _
      refine not_reachable_of_search ?_ List.mem_cons_self ?_ ?_ (by simpa using failed) path
      · rw [List.length_singleton]
        omega
      · simpa using fun isSource => same isSource.symm
      · intro node member
        exact Or.inl member

end TilelangAscend.GraphSearch
