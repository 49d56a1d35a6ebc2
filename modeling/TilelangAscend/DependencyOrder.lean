import Mathlib.Data.List.Induction
import Mathlib.Data.List.Sort
import Mathlib.Data.Prod.Lex
import Mathlib.Logic.Relation

namespace TilelangAscend.DependencyOrder

/-!
# Orders in which every node follows what it needs

A node becomes ready when everything it needs is placed, and the ready node of least rank is
placed next.  On a finite graph without cycles this places every node, each after its needs;
if the ranks already respect the needs, the result is the order of the ranks.
-/

section Order

variable {α : Type}

/-- A list in which every element comes after what it needs. -/
inductive NeedsFirst (needs : α → List α) : List α → Prop where
  | nil :
      NeedsFirst needs []
  | snoc {order : List α} {node : α} :
      NeedsFirst needs order →
      (∀ need ∈ needs node, need ∈ order) →
      NeedsFirst needs (order ++ [node])

variable {needs : α → List α} {node need : α} {order nodes : List α}

theorem NeedsFirst.need_mem (needsFirst : NeedsFirst needs order) (member : node ∈ order)
    (isNeed : need ∈ needs node) : need ∈ order := by
  induction needsFirst with
  | nil =>
    cases member
  | snoc _ needsPlaced ih =>
    refine List.mem_append_left _ ?_
    rcases List.mem_append.mp member with inOrder | isLast
    · exact ih inOrder
    · rw [List.mem_singleton.mp isLast] at isNeed
      exact needsPlaced need isNeed

theorem NeedsFirst.needs_before {before after : List α}
    (needsFirst : NeedsFirst needs (before ++ node :: after))
    (isNeed : need ∈ needs node) : need ∈ before := by
  induction after using List.reverseRecOn with
  | nil =>
    generalize isOrder : before ++ [node] = order at needsFirst
    cases needsFirst with
    | nil => simp at isOrder
    | snoc _ needsPlaced =>
      obtain ⟨rfl, isNode⟩ := List.append_inj' isOrder rfl
      cases isNode
      exact needsPlaced need isNeed
  | append_singleton after last ih =>
    rw [← List.cons_append, ← List.append_assoc] at needsFirst
    generalize isOrder : before ++ node :: after ++ [last] = order at needsFirst
    cases needsFirst with
    | nil => simp at isOrder
    | snoc shorter _ =>
      obtain ⟨rfl, _⟩ := List.append_inj' isOrder rfl
      exact ih shorter

theorem NeedsFirst.idxOf_lt [DecidableEq α] (needsFirst : NeedsFirst needs order)
    (member : node ∈ order) (isNeed : need ∈ needs node) :
    order.idxOf need < order.idxOf node := by
  obtain ⟨before, after, rfl, first⟩ := List.eq_append_cons_of_mem member
  have inBefore := needsFirst.needs_before isNeed
  rw [List.idxOf_append_of_mem inBefore, List.idxOf_append_of_notMem first, List.idxOf_cons_self]
  have within := List.idxOf_lt_length_iff.mpr inBefore
  omega

theorem NeedsFirst.exists_ready (needsFirst : NeedsFirst needs order) {placed : α → Prop}
    (member : node ∈ order) (notPlaced : ¬ placed node) :
    ∃ ready ∈ order,
      ¬ placed ready ∧ (∀ need ∈ needs ready, placed need) ∧
        Relation.ReflTransGen (fun need user => need ∈ needs user) ready node := by
  induction needsFirst generalizing node with
  | nil =>
    cases member
  | @snoc order last _ needsPlaced ih =>
    rcases List.mem_append.mp member with inOrder | isLast
    · obtain ⟨ready, inRest, isReady⟩ := ih inOrder notPlaced
      exact ⟨ready, List.mem_append_left _ inRest, isReady⟩
    · rw [List.mem_singleton.mp isLast] at notPlaced ⊢
      by_cases allPlaced : ∀ need ∈ needs last, placed need
      · exact ⟨last, List.mem_append_right _ (List.mem_singleton_self last), notPlaced,
          allPlaced, .refl⟩
      · simp only [not_forall] at allPlaced
        obtain ⟨need, isNeed, needNotPlaced⟩ := allPlaced
        obtain ⟨ready, inRest, readyNotPlaced, readyNeeds, leads⟩ :=
          ih (needsPlaced need isNeed) needNotPlaced
        exact ⟨ready, List.mem_append_left _ inRest, readyNotPlaced, readyNeeds, leads.tail isNeed⟩

theorem exists_ready {enumeration : List α} (enumerates : NeedsFirst needs enumeration)
    (complete : ∀ node ∈ nodes, node ∈ enumeration)
    (closed : ∀ node ∈ nodes, ∀ need ∈ needs node, need ∈ nodes) {ordered : List α}
    (member : node ∈ nodes) (notPlaced : node ∉ ordered) :
    ∃ ready ∈ nodes,
      ready ∉ ordered ∧ (∀ need ∈ needs ready, need ∈ ordered) ∧
        Relation.ReflTransGen (fun need user => need ∈ needs user) ready node := by
  obtain ⟨ready, _, isReady⟩ := enumerates.exists_ready (complete node member) notPlaced
  refine ⟨ready, ?_, isReady⟩
  refine Relation.ReflTransGen.head_induction_on isReady.2.2 member ?_
  intro need user isNeed _ userNode
  exact closed user userNode need isNeed

theorem rank_le_of_leads {κ : Type} [LinearOrder κ] {rankOf : α → κ}
    (closed : ∀ node ∈ nodes, ∀ need ∈ needs node, need ∈ nodes)
    (respected : ∀ node ∈ nodes, ∀ need ∈ needs node, rankOf need < rankOf node)
    {first last : α} (member : last ∈ nodes)
    (leads : Relation.ReflTransGen (fun need user => need ∈ needs user) first last) :
    rankOf first ≤ rankOf last := by
  have both : first ∈ nodes ∧ rankOf first ≤ rankOf last := by
    refine Relation.ReflTransGen.head_induction_on leads ⟨member, le_rfl⟩ ?_
    intro need user isNeed _ ⟨userNode, userBelow⟩
    exact ⟨closed user userNode need isNeed,
      (respected user userNode need isNeed).le.trans userBelow⟩
  exact both.2

end Order

/-! ## Placing ready nodes by rank -/

section Priority

variable {α κ : Type} [LinearOrder α] [LinearOrder κ]

/-- Order of a heap of ranked nodes. -/
def heapOrder (first second : κ × α) : Prop :=
  toLex first ≤ toLex second

instance : DecidableRel (heapOrder (α := α) (κ := κ)) :=
  fun first second => inferInstanceAs (Decidable (toLex first ≤ toLex second))

instance : Std.Total (heapOrder (α := α) (κ := κ)) :=
  ⟨fun first second => le_total (toLex first) (toLex second)⟩

instance : IsTrans (κ × α) heapOrder :=
  ⟨fun _ _ _ first second => le_trans first second⟩

/-- Placed nodes, the heap of ready ones, and how many needs each node still misses. -/
structure Progress (α κ : Type) where
  remaining : α → Nat
  ready : List (κ × α)
  ordered : List α

/-- Account for one placed need of each node of a list; fails without a rank for a ready node. -/
def release
    (rank : α → Option κ) :
    Progress α κ → List α → Option (Progress α κ)
  | progress, [] => some progress
  | progress, node :: rest =>
    let remaining := Function.update progress.remaining node (progress.remaining node - 1)
    if remaining node = 0 then
      (rank node).bind fun value =>
        release rank
          { progress with
            remaining := remaining
            ready := progress.ready.orderedInsert heapOrder (value, node) }
          rest
    else
      release rank { progress with remaining := remaining } rest

/-- Nodes of a list that need a given one. -/
def dependents (nodes : List α) (needs : α → List α) (node : α) : List α :=
  nodes.filter fun user => node ∈ needs user

/-- Place the least ready node until none is ready; the fuel bounds the number of steps. -/
def placeLoop
    (nodes : List α)
    (needs : α → List α)
    (rank : α → Option κ) :
    Nat → Progress α κ → Option (Progress α κ)
  | 0, progress => some progress
  | fuel + 1, progress =>
    match progress.ready with
    | [] => some progress
    | (_, node) :: rest =>
      (release rank
          { progress with ready := rest, ordered := progress.ordered ++ [node] }
          (dependents nodes needs node)).bind
        (placeLoop nodes needs rank fuel)

/-- The state before the first step: nodes without needs are ready. -/
def initialProgress (nodes : List α) (needs : α → List α) (rank : α → Option κ) :
    Option (Progress α κ) :=
  ((nodes.filter fun node => (needs node).length = 0).mapM fun node =>
      (rank node).map fun value => (value, node)).map fun ready =>
    { remaining := fun node => (needs node).length
      ready := ready.insertionSort heapOrder
      ordered := [] }

/-- Nodes in the order in which they are placed; fails if a ready node has no rank. -/
def priorityOrder (nodes : List α) (needs : α → List α) (rank : α → Option κ) : Option (List α) :=
  ((initialProgress nodes needs rank).bind (placeLoop nodes needs rank nodes.length)).map
    Progress.ordered

/-! ### One step -/

section Steps

variable {nodes : List α} {needs : α → List α} {rank : α → Option κ} {rankOf : α → κ}

theorem release_spec {targets : List α}
    (ranked : ∀ node ∈ targets, rank node = some (rankOf node)) (distinct : targets.Nodup)
    (progress : Progress α κ) :
    ∃ next,
      release rank progress targets = some next ∧ next.ordered = progress.ordered ∧
        (∀ node,
          next.remaining node =
            if node ∈ targets then progress.remaining node - 1 else progress.remaining node) ∧
        (progress.ready.Pairwise heapOrder → next.ready.Pairwise heapOrder) ∧
        next.ready.Perm
          (progress.ready ++
            (targets.filter fun node => progress.remaining node - 1 = 0).map
              fun node => (rankOf node, node)) := by
  induction targets generalizing progress with
  | nil => exact ⟨progress, rfl, rfl, by simp, id, by simp⟩
  | cons target rest ih =>
    obtain ⟨notInRest, restDistinct⟩ := List.nodup_cons.mp distinct
    have restRanked : ∀ node ∈ rest, rank node = some (rankOf node) :=
      fun node member => ranked node (List.mem_cons_of_mem _ member)
    -- the counts of the rest are those before the first node was released
    have lowered : ∀ node ∈ rest,
        Function.update progress.remaining target (progress.remaining target - 1) node =
          progress.remaining node := by
      intro node member
      rw [Function.update_of_ne]
      rintro rfl
      exact notInRest member
    have sameFilter :
        (rest.filter fun node =>
          Function.update progress.remaining target (progress.remaining target - 1) node - 1 = 0) =
        rest.filter fun node => progress.remaining node - 1 = 0 := by
      refine List.filter_congr ?_
      intro node member
      rw [lowered node member]
    have counts : ∀ node,
        (if node ∈ rest then
          Function.update progress.remaining target (progress.remaining target - 1) node - 1
        else
          Function.update progress.remaining target (progress.remaining target - 1) node) =
        if node ∈ target :: rest then progress.remaining node - 1
        else progress.remaining node := by
      intro node
      by_cases isTarget : node = target
      · subst isTarget
        simp [notInRest]
      · simp [isTarget]
    unfold release
    simp only [Function.update_self]
    split
    · rename_i isReady
      rw [ranked target List.mem_cons_self, Option.bind_some]
      obtain ⟨next, released, sameOrder, nextCounts, sorted, nextReady⟩ :=
        ih restRanked restDistinct
          { progress with
            remaining := Function.update progress.remaining target (progress.remaining target - 1)
            ready := progress.ready.orderedInsert heapOrder (rankOf target, target) }
      refine ⟨next, released, sameOrder, ?_, ?_, ?_⟩
      · intro node
        rw [nextCounts, counts]
      · intro isSorted
        exact sorted (isSorted.orderedInsert _ _)
      · refine nextReady.trans ?_
        simp only [sameFilter]
        refine ((List.perm_orderedInsert _ _ _).append_right _).trans ?_
        rw [List.filter_cons, if_pos (decide_eq_true isReady), List.map_cons, List.cons_append]
        exact List.perm_middle.symm
    · rename_i notReady
      obtain ⟨next, released, sameOrder, nextCounts, sorted, nextReady⟩ :=
        ih restRanked restDistinct
          { progress with
            remaining := Function.update progress.remaining target (progress.remaining target - 1) }
      refine ⟨next, released, sameOrder, ?_, sorted, ?_⟩
      · intro node
        rw [nextCounts, counts]
      · refine nextReady.trans ?_
        simp only [sameFilter, List.filter_cons, notReady, decide_false]
        exact List.Perm.refl _

/-- Whether a node waits for nothing but is not placed yet. -/
def IsReady (nodes : List α) (needs : α → List α) (ordered : List α) (node : α) : Prop :=
  node ∈ nodes ∧ node ∉ ordered ∧ ∀ need ∈ needs node, need ∈ ordered

/-- What holds before every step. -/
structure Consistent
    (nodes : List α)
    (needs : α → List α)
    (rankOf : α → κ)
    (progress : Progress α κ) :
    Prop where
  distinct : progress.ordered.Nodup
  known : ∀ node ∈ progress.ordered, node ∈ nodes
  needsFirst : NeedsFirst needs progress.ordered
  remaining :
    ∀ node ∈ nodes,
      progress.remaining node = (needs node).countP fun need => need ∉ progress.ordered
  sorted : progress.ready.Pairwise heapOrder
  readyDistinct : progress.ready.Nodup
  ready :
    ∀ entry,
      entry ∈ progress.ready ↔
        entry.1 = rankOf entry.2 ∧ IsReady nodes needs progress.ordered entry.2

variable {ordered needed : List α} {placed : α} {progress : Progress α κ}

theorem countP_snoc (distinct : needed.Nodup) (notPlaced : placed ∉ ordered) :
    (needed.countP fun need => need ∉ ordered ++ [placed]) =
      if placed ∈ needed then (needed.countP fun need => need ∉ ordered) - 1
      else needed.countP fun need => need ∉ ordered := by
  induction needed with
  | nil => rfl
  | cons need rest ih =>
    obtain ⟨notInRest, restDistinct⟩ := List.nodup_cons.mp distinct
    have restCount := ih restDistinct
    rw [List.countP_cons, List.countP_cons, restCount]
    by_cases isPlaced : need = placed
    · subst isPlaced
      simp [notInRest, notPlaced]
    · have sameMissing : need ∉ ordered ++ [placed] ↔ need ∉ ordered := by
        simp [isPlaced]
      simp only [sameMissing, List.mem_cons, Ne.symm isPlaced, false_or]
      by_cases inRest : placed ∈ rest
      · have positive : 0 < rest.countP fun need => need ∉ ordered :=
          List.countP_pos_iff.mpr ⟨placed, inRest, by simpa using notPlaced⟩
        rw [if_pos inRest, if_pos inRest]
        omega
      · rw [if_neg inRest, if_neg inRest]

theorem countP_eq_zero_iff :
    (needed.countP fun need => need ∉ ordered) = 0 ↔ ∀ need ∈ needed, need ∈ ordered := by
  simp [List.countP_eq_zero]

theorem isReady_snoc {node : α} (needsFirst : NeedsFirst needs ordered)
    (notOrdered : placed ∉ ordered) (needsOrdered : ∀ need ∈ needs placed, need ∈ ordered) :
    IsReady nodes needs (ordered ++ [placed]) node ↔
      (IsReady nodes needs ordered node ∧ node ≠ placed) ∨
        (node ∈ nodes ∧ placed ∈ needs node ∧ ∀ need ∈ needs node, need ∈ ordered ++ [placed]) := by
  constructor
  · rintro ⟨member, notPlaced, nodeNeeds⟩
    by_cases isNeed : placed ∈ needs node
    · exact Or.inr ⟨member, isNeed, nodeNeeds⟩
    · rw [List.mem_append, List.mem_singleton, not_or] at notPlaced
      refine Or.inl ⟨⟨member, notPlaced.1, fun need needed => ?_⟩, notPlaced.2⟩
      rcases List.mem_append.mp (nodeNeeds need needed) with inOrder | isPlaced
      · exact inOrder
      · rw [List.mem_singleton.mp isPlaced] at needed
        exact absurd needed isNeed
  · rintro (⟨⟨member, notPlaced, nodeNeeds⟩, differs⟩ | ⟨member, isNeed, nodeNeeds⟩)
    · refine ⟨member, ?_, fun need isNeed => List.mem_append_left _ (nodeNeeds need isNeed)⟩
      rw [List.mem_append, List.mem_singleton, not_or]
      exact ⟨notPlaced, differs⟩
    · refine ⟨member, ?_, nodeNeeds⟩
      rw [List.mem_append, List.mem_singleton]
      rintro (inOrder | rfl)
      · exact notOrdered (needsFirst.need_mem inOrder isNeed)
      · exact notOrdered (needsOrdered node isNeed)

theorem Consistent.step (nodesDistinct : nodes.Nodup)
    (needsDistinct : ∀ node ∈ nodes, (needs node).Nodup)
    (ranked : ∀ node ∈ nodes, rank node = some (rankOf node)) {progress : Progress α κ}
    (consistent : Consistent nodes needs rankOf progress) {value : κ} {placed : α}
    {rest : List (κ × α)} (pops : progress.ready = (value, placed) :: rest) :
    ∃ next,
      release rank
          { progress with ready := rest, ordered := progress.ordered ++ [placed] }
          (dependents nodes needs placed) = some next ∧
        next.ordered = progress.ordered ++ [placed] ∧
        Consistent nodes needs rankOf next := by
  have popped := (consistent.ready (value, placed)).mp (by rw [pops]; exact List.mem_cons_self)
  obtain ⟨isValue, isNode, notOrdered, needsOrdered⟩ := popped
  have restSorted := consistent.sorted
  have restDistinct := consistent.readyDistinct
  rw [pops] at restSorted restDistinct
  obtain ⟨notInRest, restNodup⟩ := List.nodup_cons.mp restDistinct
  have isDependent : ∀ node, node ∈ dependents nodes needs placed ↔
      node ∈ nodes ∧ placed ∈ needs node := by
    intro node
    simp [dependents]
  have targetsRanked : ∀ node ∈ dependents nodes needs placed, rank node = some (rankOf node) :=
    fun node member => ranked node ((isDependent node).mp member).1
  obtain ⟨next, released, sameOrder, counts, sorted, nextReady⟩ :=
    release_spec targetsRanked (nodesDistinct.filter _)
      { progress with ready := rest, ordered := progress.ordered ++ [placed] }
  simp only at sameOrder counts sorted nextReady
  have nextRemaining : ∀ node ∈ nodes,
      next.remaining node =
        (needs node).countP fun need => need ∉ progress.ordered ++ [placed] := by
    intro node member
    rw [counts, countP_snoc (needsDistinct node member) notOrdered,
      consistent.remaining node member]
    simp only [isDependent, member, true_and]
  -- a node released by this step was not ready before it
  have released_ready : ∀ node, node ∈ (dependents nodes needs placed).filter
        (fun node => progress.remaining node - 1 = 0) ↔
      node ∈ nodes ∧ placed ∈ needs node ∧
        ∀ need ∈ needs node, need ∈ progress.ordered ++ [placed] := by
    intro node
    simp only [List.mem_filter, isDependent, decide_eq_true_eq, and_assoc]
    refine and_congr_right fun member => and_congr_right fun isNeed => ?_
    rw [← countP_eq_zero_iff, ← nextRemaining node member, counts,
      if_pos ((isDependent node).mpr ⟨member, isNeed⟩)]
  refine ⟨next, released, sameOrder, ?_⟩
  refine ⟨?_, ?_, ?_, ?_, ?_, ?_, ?_⟩
  · rw [sameOrder]
    exact consistent.distinct.append (List.nodup_singleton placed) (by simpa using notOrdered)
  · rw [sameOrder]
    intro node member
    rcases List.mem_append.mp member with inOrder | isLast
    · exact consistent.known node inOrder
    · rwa [List.mem_singleton.mp isLast]
  · rw [sameOrder]
    exact consistent.needsFirst.snoc needsOrdered
  · intro node member
    rw [sameOrder]
    exact nextRemaining node member
  · exact sorted (List.pairwise_cons.mp restSorted).2
  · rw [nextReady.nodup_iff]
    refine restNodup.append ?_ ?_
    · exact ((nodesDistinct.filter _).filter _).map fun _ _ same => (Prod.mk.inj same).2
    · intro entry inRest inReleased
      obtain ⟨node, isReleased, rfl⟩ := List.mem_map.mp inReleased
      have wasReady := (consistent.ready (rankOf node, node)).mp
        (by rw [pops]; exact List.mem_cons_of_mem _ inRest)
      exact notOrdered (wasReady.2.2.2 placed ((released_ready node).mp isReleased).2.1)
  · rintro ⟨entryValue, node⟩
    rw [nextReady.mem_iff, List.mem_append, sameOrder,
      isReady_snoc consistent.needsFirst notOrdered needsOrdered]
    constructor
    · rintro (inRest | inReleased)
      · obtain ⟨entryRank, wasReady⟩ := (consistent.ready (entryValue, node)).mp
          (by rw [pops]; exact List.mem_cons_of_mem _ inRest)
        refine ⟨entryRank, Or.inl ⟨wasReady, fun isPlaced => ?_⟩⟩
        have same : (entryValue, node) = (value, placed) :=
          Prod.ext (entryRank.trans ((congrArg rankOf isPlaced).trans isValue.symm)) isPlaced
        rw [same] at inRest
        exact notInRest inRest
      · obtain ⟨_, isReleased, same⟩ := List.mem_map.mp inReleased
        cases same
        exact ⟨rfl, Or.inr ((released_ready node).mp isReleased)⟩
    · rintro ⟨entryRank, ⟨wasReady, differs⟩ | waited⟩
      · have inReady := (consistent.ready (entryValue, node)).mpr ⟨entryRank, wasReady⟩
        rw [pops] at inReady
        rcases List.mem_cons.mp inReady with same | inRest
        · exact absurd (Prod.mk.inj same).2 differs
        · exact Or.inl inRest
      · exact Or.inr (List.mem_map.mpr
          ⟨node, (released_ready node).mpr waited, by rw [← entryRank]⟩)

/-! ### Whole runs -/

theorem initialProgress_consistent (nodesDistinct : nodes.Nodup) (needs : α → List α)
    (ranked : ∀ node ∈ nodes, rank node = some (rankOf node)) :
    ∃ initial,
      initialProgress nodes needs rank = some initial ∧ initial.ordered = [] ∧
        Consistent nodes needs rankOf initial := by
  have ready : ∀ starts : List α, (∀ node ∈ starts, node ∈ nodes) →
      (starts.mapM fun node => (rank node).map fun value => (value, node)) =
        some (starts.map fun node => (rankOf node, node)) := by
    intro starts known
    induction starts with
    | nil => rfl
    | cons node rest ih =>
      have restReady := ih fun other member => known other (List.mem_cons_of_mem _ member)
      simp [List.mapM_cons, ranked node (known node List.mem_cons_self), restReady]
  have starts := ready (nodes.filter fun node => (needs node).length = 0)
    fun node member => List.mem_of_mem_filter member
  refine ⟨_, by rw [initialProgress, starts]; rfl, rfl, ?_⟩
  refine ⟨List.nodup_nil, (fun _ member => nomatch member), .nil, ?_,
    List.pairwise_insertionSort _ _, ?_, ?_⟩
  · intro node _
    simp
  · rw [(List.perm_insertionSort _ _).nodup_iff]
    exact (nodesDistinct.filter _).map fun _ _ same => (Prod.mk.inj same).2
  · rintro ⟨value, node⟩
    simp only [List.mem_insertionSort, List.mem_map, List.mem_filter, decide_eq_true_eq,
      List.length_eq_zero_iff, IsReady, List.not_mem_nil, not_false_eq_true, imp_false, true_and]
    constructor
    · rintro ⟨_, ⟨member, noNeeds⟩, same⟩
      cases same
      exact ⟨rfl, member, by simp [noNeeds]⟩
    · rintro ⟨rfl, member, noNeeds⟩
      exact ⟨node, ⟨member, List.eq_nil_iff_forall_not_mem.mpr noNeeds⟩, rfl⟩

theorem Consistent.placeLoop (nodesDistinct : nodes.Nodup)
    (needsDistinct : ∀ node ∈ nodes, (needs node).Nodup)
    (ranked : ∀ node ∈ nodes, rank node = some (rankOf node)) {property : Progress α κ → Prop}
    (keeps :
      ∀ {progress next : Progress α κ} {value : κ} {placed : α} {rest : List (κ × α)},
        Consistent nodes needs rankOf progress →
        property progress →
        progress.ready = (value, placed) :: rest →
        next.ordered = progress.ordered ++ [placed] →
        property next)
    (consistent : Consistent nodes needs rankOf progress)
    (holds : property progress)
    {fuel : Nat}
    (enough : nodes.length ≤ progress.ordered.length + fuel) :
    ∃ final,
      placeLoop nodes needs rank fuel progress = some final ∧ Consistent nodes needs rankOf final ∧
        final.ready = [] ∧
        property final := by
  induction fuel generalizing progress with
  | zero =>
    refine ⟨progress, rfl, consistent, ?_, holds⟩
    -- all nodes are placed, so none can be ready
    have subset := List.subperm_of_subset consistent.distinct consistent.known
    have allPlaced := subset.perm_of_length_le enough
    refine List.eq_nil_iff_forall_not_mem.mpr ?_
    rintro ⟨value, node⟩ isReady
    obtain ⟨_, member, notPlaced, _⟩ := (consistent.ready _).mp isReady
    exact notPlaced (allPlaced.mem_iff.mpr member)
  | succ fuel ih =>
    unfold DependencyOrder.placeLoop
    split
    · rename_i nothing
      exact ⟨progress, rfl, consistent, nothing, holds⟩
    · rename_i value placed rest pops
      obtain ⟨next, released, nextOrder, nextConsistent⟩ :=
        consistent.step nodesDistinct needsDistinct ranked pops
      rw [released, Option.bind_some]
      refine ih nextConsistent (keeps consistent holds pops nextOrder) ?_
      rw [nextOrder, List.length_append, List.length_singleton]
      omega

/-- When nothing is ready any more, all nodes are placed. -/
theorem Consistent.perm_of_ready_nil {enumeration : List α}
    (enumerates : NeedsFirst needs enumeration) (complete : ∀ node ∈ nodes, node ∈ enumeration)
    (closed : ∀ node ∈ nodes, ∀ need ∈ needs node, need ∈ nodes)
    (nodesDistinct : nodes.Nodup) (consistent : Consistent nodes needs rankOf progress)
    (nothing : progress.ready = []) : progress.ordered.Perm nodes := by
  refine (List.perm_ext_iff_of_nodup consistent.distinct nodesDistinct).mpr ?_
  intro node
  refine ⟨consistent.known node, ?_⟩
  intro member
  by_contra notPlaced
  obtain ⟨ready, readyNode, readyNotPlaced, readyNeeds, _⟩ :=
    exists_ready enumerates complete closed member notPlaced
  have isReady : (rankOf ready, ready) ∈ progress.ready :=
    (consistent.ready _).mpr ⟨rfl, readyNode, readyNotPlaced, readyNeeds⟩
  rw [nothing] at isReady
  cases isReady

/-- Placed nodes are in the order of their ranks and rank below all others. -/
structure RankSorted
    (nodes : List α)
    (rankOf : α → κ)
    (ordered : List α) :
    Prop where
  sorted : ordered.Pairwise fun first second => rankOf first < rankOf second
  leading : ∀ node ∈ ordered, ∀ other ∈ nodes, other ∉ ordered → rankOf node < rankOf other

/-- A step keeps the order sorted by rank. -/
theorem RankSorted.step {enumeration : List α} (enumerates : NeedsFirst needs enumeration)
    (complete : ∀ node ∈ nodes, node ∈ enumeration)
    (closed : ∀ node ∈ nodes, ∀ need ∈ needs node, need ∈ nodes)
    (respected : ∀ node ∈ nodes, ∀ need ∈ needs node, rankOf need < rankOf node)
    (rankInjective : ∀ node ∈ nodes, ∀ other ∈ nodes, rankOf node = rankOf other → node = other)
    {progress : Progress α κ} (consistent : Consistent nodes needs rankOf progress)
    (rankSorted : RankSorted nodes rankOf progress.ordered) {value : κ} {placed : α}
    {rest : List (κ × α)} (pops : progress.ready = (value, placed) :: rest) :
    RankSorted nodes rankOf (progress.ordered ++ [placed]) := by
  have popped := (consistent.ready (value, placed)).mp (by rw [pops]; exact List.mem_cons_self)
  obtain ⟨isValue, isNode, notOrdered, _⟩ := popped
  -- the least ready node has the least rank of all nodes that are not placed
  have least : ∀ other ∈ nodes, other ∉ progress.ordered → rankOf placed ≤ rankOf other := by
    intro other member notPlaced
    obtain ⟨ready, readyNode, readyNotPlaced, readyNeeds, leads⟩ :=
      exists_ready enumerates complete closed member notPlaced
    have isReady : (rankOf ready, ready) ∈ progress.ready :=
      (consistent.ready _).mpr ⟨rfl, readyNode, readyNotPlaced, readyNeeds⟩
    have sorted := consistent.sorted
    rw [pops] at isReady sorted
    have placedFirst : rankOf placed ≤ rankOf ready := by
      rcases List.mem_cons.mp isReady with same | inRest
      · rw [(Prod.mk.inj same).2]
      · have order := (List.pairwise_cons.mp sorted).1 _ inRest
        rw [show value = rankOf placed from isValue] at order
        rcases Prod.Lex.toLex_le_toLex.mp order with less | ⟨same, _⟩
        · exact less.le
        · exact same.le
    exact placedFirst.trans (rank_le_of_leads closed respected member leads)
  refine ⟨?_, ?_⟩
  · refine List.pairwise_append.mpr ⟨rankSorted.sorted, List.pairwise_singleton _ _, ?_⟩
    intro node inOrder last isLast
    rw [List.mem_singleton.mp isLast]
    exact rankSorted.leading node inOrder placed isNode notOrdered
  · intro node member other otherNode notPlaced
    rw [List.mem_append, List.mem_singleton, not_or] at notPlaced
    rcases List.mem_append.mp member with inOrder | isLast
    · exact rankSorted.leading node inOrder other otherNode notPlaced.1
    · rw [List.mem_singleton.mp isLast]
      refine lt_of_le_of_ne (least other otherNode notPlaced.1) ?_
      intro same
      exact notPlaced.2 (rankInjective placed isNode other otherNode same).symm

end Steps

/-! ### The result -/

variable {rank larger : α → Option κ} {nodes : List α} {needs : α → List α}
  {progress : Progress α κ}

/--
On a finite graph without cycles, all of whose nodes have a rank, every node is placed after its
needs; if the ranks respect the needs, in the order of the ranks.
-/
theorem priorityOrder_spec {enumeration : List α} {rankOf : α → κ}
    (enumerates : NeedsFirst needs enumeration) (complete : ∀ node ∈ nodes, node ∈ enumeration)
    (closed : ∀ node ∈ nodes, ∀ need ∈ needs node, need ∈ nodes)
    (nodesDistinct : nodes.Nodup) (needsDistinct : ∀ node ∈ nodes, (needs node).Nodup)
    (ranked : ∀ node ∈ nodes, rank node = some (rankOf node)) :
    ∃ order,
      priorityOrder nodes needs rank = some order ∧ order.Perm nodes ∧
        NeedsFirst needs order ∧
        ((∀ node ∈ nodes, ∀ other ∈ nodes, rankOf node = rankOf other → node = other) →
          (∀ node ∈ nodes, ∀ need ∈ needs node, rankOf need < rankOf node) →
          order.Pairwise fun first second => rankOf first < rankOf second) := by
  obtain ⟨initial, starts, nothingPlaced, consistent⟩ :=
    initialProgress_consistent nodesDistinct needs ranked
  have enough : nodes.length ≤ initial.ordered.length + nodes.length := Nat.le_add_left _ _
  let sorts (progress : Progress α κ) : Prop :=
    (∀ node ∈ nodes, ∀ other ∈ nodes, rankOf node = rankOf other → node = other) →
      (∀ node ∈ nodes, ∀ need ∈ needs node, rankOf need < rankOf node) →
      RankSorted nodes rankOf progress.ordered
  have initialSorts : sorts initial := by
    intro _ _
    rw [nothingPlaced]
    exact ⟨List.Pairwise.nil, fun _ member => nomatch member⟩
  have keeps :
      ∀ {progress next : Progress α κ} {value : κ} {placed : α} {rest : List (κ × α)},
        Consistent nodes needs rankOf progress →
        sorts progress →
        progress.ready = (value, placed) :: rest →
        next.ordered = progress.ordered ++ [placed] →
        sorts next := by
    intro progress next value placed rest isConsistent isSorted pops nextOrder rankInjective
      respected
    rw [nextOrder]
    exact (isSorted rankInjective respected).step enumerates complete closed respected
      rankInjective isConsistent pops
  obtain ⟨final, placed, finalConsistent, nothingReady, finalSorts⟩ :=
    consistent.placeLoop nodesDistinct needsDistinct ranked keeps initialSorts enough
  refine ⟨final.ordered, ?_, ?_, finalConsistent.needsFirst, ?_⟩
  · rw [priorityOrder, starts, Option.bind_some, placed, Option.map_some]
  · exact finalConsistent.perm_of_ready_nil enumerates complete closed nodesDistinct nothingReady
  · intro rankInjective respected
    exact (finalSorts rankInjective respected).sorted

theorem release_mono (extended : ∀ {node value}, rank node = some value → larger node = some value)
    {targets : List α} {next : Progress α κ}
    (released : release rank progress targets = some next) :
    release larger progress targets = some next := by
  induction targets generalizing progress with
  | nil => exact released
  | cons target rest ih =>
    unfold release at released ⊢
    simp only at released ⊢
    split at released
    · rename_i isReady
      obtain ⟨value, isRank, later⟩ := Option.bind_eq_some_iff.mp released
      rw [if_pos isReady, extended isRank, Option.bind_some]
      exact ih later
    · rename_i notReady
      rw [if_neg notReady]
      exact ih released

theorem placeLoop_mono
    (extended : ∀ {node value}, rank node = some value → larger node = some value)
    {fuel : Nat} {final : Progress α κ}
    (placed : placeLoop nodes needs rank fuel progress = some final) :
    placeLoop nodes needs larger fuel progress = some final := by
  induction fuel generalizing progress with
  | zero => exact placed
  | succ fuel ih =>
    unfold placeLoop at placed ⊢
    split at placed
    · exact placed
    · obtain ⟨next, released, later⟩ := Option.bind_eq_some_iff.mp placed
      rw [release_mono extended released, Option.bind_some]
      exact ih later

theorem mapM_mono {β γ : Type} {function larger : β → Option γ}
    (extended : ∀ {element value}, function element = some value → larger element = some value)
    {elements : List β} {values : List γ} (mapped : elements.mapM function = some values) :
    elements.mapM larger = some values := by
  induction elements generalizing values with
  | nil => exact mapped
  | cons element rest ih =>
    rw [List.mapM_cons] at mapped ⊢
    obtain ⟨value, isValue, later⟩ := Option.bind_eq_some_iff.mp mapped
    obtain ⟨restValues, restMapped, isCons⟩ := Option.bind_eq_some_iff.mp later
    rw [extended isValue, ih restMapped]
    exact isCons

/-- More known ranks keep an order that was found. -/
theorem priorityOrder_mono
    (extended : ∀ {node value}, rank node = some value → larger node = some value)
    {order : List α} (ordered : priorityOrder nodes needs rank = some order) :
    priorityOrder nodes needs larger = some order := by
  obtain ⟨final, runs, rfl⟩ := Option.map_eq_some_iff.mp ordered
  obtain ⟨initial, starts, placed⟩ := Option.bind_eq_some_iff.mp runs
  obtain ⟨ready, ranked, rfl⟩ := Option.map_eq_some_iff.mp starts
  have rankedLarger : ((nodes.filter fun node => (needs node).length = 0).mapM fun node =>
      (larger node).map fun value => (value, node)) = some ready := by
    refine mapM_mono ?_ ranked
    intro node entry isEntry
    obtain ⟨value, isRank, rfl⟩ := Option.map_eq_some_iff.mp isEntry
    rw [extended isRank]
    rfl
  rw [priorityOrder, initialProgress, rankedLarger, Option.map_some, Option.bind_some,
    placeLoop_mono extended placed, Option.map_some]

end Priority

end TilelangAscend.DependencyOrder
