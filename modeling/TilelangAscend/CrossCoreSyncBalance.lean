import Mathlib.Data.List.Dedup
import TilelangAscend.CrossCoreSyncDepth
import TilelangAscend.CrossCoreSyncPlacement
import TilelangAscend.RelatedLists

namespace TilelangAscend.CrossCoreSync

open LoopNests
open RelatedLists

/-!
# Balance of the inserted flags

How often the flags of a matched pair execute, and exactly when the set and the wait of every
pair execute equally often and under conditions that are in scope.
-/

/-! ## Matched pairs -/

theorem collectSyncPoints_orders (body : Body) :
    ((collectSyncPoints body).map SyncPoint.order).Nodup := by
  rw [List.Nodup, List.pairwise_map]
  exact (newPoints_ordered [] body Collector.start).imp fun before => Nat.ne_of_lt before

variable {pairs : List (SyncPoint × SyncPoint)}
  {cubePoints vecPoints points placed : List SyncPoint} {pair : SyncPoint × SyncPoint}
  {flag depth index lower upper cubeDepth vecDepth : Nat} {point found : SyncPoint}
  {body cubeCode vecCode : Body} {parents cubeParents vecParents : List ForNode}
  {guard : Condition} {extent : String} {synced : SyncedBody × SyncedBody}

theorem matchWorkspace_eq_some {workspace : String}
    (matched : matchWorkspace cubePoints vecPoints workspace = some pairs) :
    pairs.map Prod.fst = pointsOf workspace cubePoints ∧
      pairs.map Prod.snd = pointsOf workspace vecPoints ∧
      ∀ pair ∈ pairs, pair.1.isWrite ≠ pair.2.isWrite := by
  dsimp only [matchWorkspace] at matched
  split at matched
  case isTrue accepted =>
      obtain rfl := Option.some.inj matched
      refine ⟨?_, ?_, accepted.2⟩
      · exact List.map_fst_zip (Nat.le_of_eq accepted.1)
      · exact List.map_snd_zip (Nat.le_of_eq accepted.1.symm)
  case isFalse => cases matched

/-- One side of the matched pairs: its points are collected points, each of them once. -/
structure SideOfPairs
    (points : List SyncPoint)
    (workspaces : List String)
    (side : List SyncPoint) : Prop where
  collected : ∀ point ∈ side, point ∈ points ∧ point.workspaceName ∈ workspaces
  orders : (side.map SyncPoint.order).Nodup

theorem SideOfPairs.cons
    {points : List SyncPoint}
    {workspaces : List String}
    {side : List SyncPoint}
    {workspace : String}
    (distinct : (points.map SyncPoint.order).Nodup)
    (fresh : workspace ∉ workspaces)
    (others : SideOfPairs points workspaces side) :
    SideOfPairs points (workspace :: workspaces) (pointsOf workspace points ++ side) where
  collected := by
    intro point member
    rcases List.mem_append.mp member with here | later
    · obtain ⟨inPoints, named⟩ := List.mem_filter.mp here
      exact ⟨inPoints, by simp [beq_iff_eq.mp named]⟩
    · obtain ⟨inPoints, named⟩ := others.collected point later
      exact ⟨inPoints, List.mem_cons_of_mem _ named⟩
  orders := by
    rw [List.map_append, List.nodup_append]
    refine ⟨distinct.sublist (List.filter_sublist.map _), others.orders, ?_⟩
    intro order inHere otherOrder inSide same
    obtain ⟨point, here, rfl⟩ := List.mem_map.mp inHere
    obtain ⟨other, later, rfl⟩ := List.mem_map.mp inSide
    obtain ⟨inPoints, named⟩ := List.mem_filter.mp here
    obtain ⟨otherInPoints, otherNamed⟩ := others.collected other later
    have equal : point = other := eq_of_order_eq distinct otherInPoints inPoints same
    apply fresh
    rw [← beq_iff_eq.mp named, equal]
    exact otherNamed

theorem matchWorkspaces_sides (cubeDistinct : (cubePoints.map SyncPoint.order).Nodup)
    (vecDistinct : (vecPoints.map SyncPoint.order).Nodup) (workspaces : List String)
    (different : workspaces.Nodup)
    (matched : matchWorkspaces cubePoints vecPoints workspaces = some pairs) :
    SideOfPairs cubePoints workspaces (pairs.map Prod.fst) ∧
      SideOfPairs vecPoints workspaces (pairs.map Prod.snd) := by
  induction workspaces generalizing pairs with
  | nil =>
    obtain rfl := Option.some.inj matched
    exact ⟨⟨by simp, by simp⟩, ⟨by simp, by simp⟩⟩
  | cons workspace rest ih =>
    simp only [matchWorkspaces, Option.bind_eq_bind, Option.pure_def,
      Option.bind_eq_some_iff, Option.some.injEq] at matched
    obtain ⟨here, hereMatched, later, laterMatched, rfl⟩ := matched
    obtain ⟨fresh, restDifferent⟩ := List.nodup_cons.mp different
    obtain ⟨cubeHere, vecHere, -⟩ := matchWorkspace_eq_some hereMatched
    obtain ⟨cubeLater, vecLater⟩ := ih restDifferent laterMatched
    rw [List.map_append, List.map_append, cubeHere, vecHere]
    exact ⟨cubeLater.cons cubeDistinct fresh, vecLater.cons vecDistinct fresh⟩

theorem workspaces_nodup (points : List SyncPoint) : (workspaces points).Nodup :=
  (List.perm_insertionSort _ _).nodup_iff.mpr (List.nodup_dedup _)

/-! ## Placed points -/

/-- A collected point with a flag, placed at a depth. -/
def PlacedAt (found : SyncPoint) (depth : Nat) (point : SyncPoint) : Prop :=
  depth ≤ found.parentForNodes.length ∧
    ∃ flag, point =
      { found with
        syncFlagId := flag
        targetForNode := found.parentForNodes[depth]? }

theorem placePair_eq_some {placed : SyncPoint × SyncPoint}
    (accepted : placePair flag pair = some placed) :
    ∃ cubeDepth vecDepth,
      findTargetLoopDepth pair.1.parentForNodes pair.2.parentForNodes = some (cubeDepth, vecDepth) ∧
      placed =
        ({ pair.1 with
            syncFlagId := flag
            targetForNode := pair.1.parentForNodes[cubeDepth]? },
          { pair.2 with
            syncFlagId := flag
            targetForNode := pair.2.parentForNodes[vecDepth]? }) := by
  simp only [placePair, Option.bind_eq_bind, Option.pure_def, Option.bind_eq_some_iff,
    Option.some.injEq] at accepted
  obtain ⟨⟨cubeDepth, vecDepth⟩, depths, rfl⟩ := accepted
  exact ⟨cubeDepth, vecDepth, depths, rfl⟩

theorem placePairs_forall₂ (flag : Nat) (pairs : List (SyncPoint × SyncPoint))
    {placed : List (SyncPoint × SyncPoint)} (accepted : placePairs flag pairs = some placed) :
    List.Forall₂ (fun pair after => ∃ flag, placePair flag pair = some after) pairs placed := by
  induction pairs generalizing flag placed with
  | nil =>
    obtain rfl := Option.some.inj accepted
    exact List.Forall₂.nil
  | cons pair rest ih =>
    simp only [placePairs, Option.bind_eq_bind, Option.pure_def, Option.bind_eq_some_iff,
      Option.some.injEq] at accepted
    obtain ⟨here, hereAccepted, later, laterAccepted, rfl⟩ := accepted
    exact List.Forall₂.cons ⟨flag, hereAccepted⟩ (ih _ laterAccepted)

theorem placePairs_orders {placed : List (SyncPoint × SyncPoint)}
    (pairwise :
      List.Forall₂ (fun pair after => ∃ flag, placePair flag pair = some after) pairs placed) :
    (placed.map Prod.fst).map SyncPoint.order = (pairs.map Prod.fst).map SyncPoint.order ∧
      (placed.map Prod.snd).map SyncPoint.order = (pairs.map Prod.snd).map SyncPoint.order := by
  induction pairwise with
  | nil => exact ⟨rfl, rfl⟩
  | cons holds rest ih =>
    obtain ⟨flag, accepted⟩ := holds
    obtain ⟨cubeDepth, vecDepth, -, rfl⟩ := placePair_eq_some accepted
    simp only [List.map_cons, ih, and_self]

/-! ## Resolved points -/

theorem resolve_order (placed : List SyncPoint) (point : SyncPoint) :
    ((placed.find? (·.order == point.order)).getD point).order = point.order := by
  cases found : placed.find? (·.order == point.order) with
  | none => rfl
  | some other => simpa using List.find?_some found

theorem resolvePoints_orders (placed points : List SyncPoint) :
    (resolvePoints placed points).map SyncPoint.order = points.map SyncPoint.order := by
  rw [resolvePoints, List.map_map]
  apply List.map_congr_left
  intro point _
  exact resolve_order placed point

theorem mem_resolvePoints (distinct : (placed.map SyncPoint.order).Nodup)
    (member : point ∈ placed) (collected : found ∈ points)
    (sameOrder : point.order = found.order) : point ∈ resolvePoints placed points := by
  apply List.mem_map.mpr
  refine ⟨found, collected, ?_⟩
  cases search : placed.find? (·.order == found.order) with
  | none =>
    have unmatched := List.find?_eq_none.mp search point member
    simp [sameOrder] at unmatched
  | some other =>
    have otherOrder : other.order = found.order := by simpa using List.find?_some search
    have otherMember := List.mem_of_find?_eq_some search
    exact eq_of_order_eq distinct member otherMember (otherOrder.trans sameOrder.symm)

theorem mem_resolvePoints_cases (member : point ∈ resolvePoints placed points) :
    point ∈ placed ∨ point ∈ points := by
  obtain ⟨found, collected, rfl⟩ := List.mem_map.mp member
  cases search : placed.find? (·.order == found.order) with
  | none => exact Or.inr collected
  | some other => exact Or.inl (List.mem_of_find?_eq_some search)

/-! ## One side -/

/-- Whether the condition of a point reads a loop above a depth, or there is no condition. -/
def SyncPoint.ConditionAbove (point : SyncPoint) (depth : Nat) : Prop :=
  ∀ guard ∈ point.condition?, guard.stageVar < depth

theorem PlacedAt.isFlagOf (placed : PlacedAt found depth point) :
    point.isFlagOf = found.isFlagOf := by
  obtain ⟨-, flag, rfl⟩ := placed
  rfl

theorem PlacedAt.condition? (placed : PlacedAt found depth point) :
    point.condition? = found.condition? := by
  obtain ⟨-, flag, rfl⟩ := placed
  rfl

theorem PlacedAt.flagSites (distinct : (points.map SyncPoint.order).Nodup)
    (free : body.branchesWithoutCopies) (placed : PlacedAt found depth point)
    (member : point ∈ points) (collected : found ∈ collectSyncPoints body) :
    flagSites point [] (insertSyncs points 0 0 body) =
      [point.siteIn ((found.parentForNodes.take depth).map ForNode.loop)] := by
  obtain ⟨inside, flag, equal⟩ := placed
  have sites :=
    flagSites_insertSyncs distinct member (by rw [equal]) (by rw [equal]) inside []
      body Collector.start collected (by simp) free
  simpa [Collector.start] using sites

theorem sum_runs_filter (sizes : String → Nat) (counted : SyncCall → Bool)
    (indices : List Nat) (sites : List Site) :
    (sites.map (Site.runs sizes counted indices)).sum =
      ((sites.filter fun site => counted site.sync.call).map
        (Site.runs sizes counted indices)).sum := by
  induction sites with
  | nil => rfl
  | cons site rest ih =>
    cases isCounted : counted site.sync.call with
    | true => simp [isCounted, ih]
    | false => simp [isCounted, ih, Site.runs]

section

variable (distinct : (points.map SyncPoint.order).Nodup) (free : body.branchesWithoutCopies)
include distinct free

theorem PlacedAt.executions (placed : PlacedAt found depth point)
    (member : point ∈ points) (collected : found ∈ collectSyncPoints body)
    (sizes : String → Nat) (choice : Nat → List Nat → Bool) :
    (insertSyncs points 0 0 body).executions sizes choice found.isFlagOf [] =
      iterations (fun all => found.condition?.all (Condition.holds all))
        ((found.parentForNodes.take depth).map fun node => node.loop.times sizes) [] := by
  have sites := placed.flagSites distinct free member collected
  have condition := placed.condition?
  rw [CrossCoreSync.flagSites] at sites
  rw [← placed.isFlagOf]
  rw [executions_eq_sum sizes choice point.isFlagOf _ [] [] rfl]
  · rw [sum_runs_filter, sites]
    simp [Site.runs, SyncPoint.siteIn, isFlagOf_self, condition, Function.comp_def]
  · intro site present isCounted
    have here : site ∈ ((insertSyncs points 0 0 body).sites []).filter
        fun site => point.isFlagOf site.sync.call :=
      List.mem_filter.mpr ⟨present, isCounted⟩
    rw [sites, List.mem_singleton] at here
    rw [here]
    rfl

theorem PlacedAt.conditionAbove (placed : PlacedAt found depth point)
    (member : point ∈ points) (collected : found ∈ collectSyncPoints body)
    (inScope : (insertSyncs points 0 0 body).ConditionsInScope 0) :
    found.ConditionAbove depth := by
  intro guard isGuard
  have sites := placed.flagSites distinct free member collected
  have present :
      point.siteIn ((found.parentForNodes.take depth).map ForNode.loop) ∈
        CrossCoreSync.flagSites point [] (insertSyncs points 0 0 body) := by
    rw [sites]
    exact List.mem_singleton.mpr rfl
  have pointGuard : guard ∈ point.condition? := by
    rw [placed.condition?]
    exact isGuard
  have bound :=
    (conditionsInScope_iff (insertSyncs points 0 0 body) []).mp inScope _
      (List.mem_of_mem_filter present) guard pointGuard
  simpa [SyncPoint.siteIn, placed.1] using bound

theorem conditionsInScope_insertSyncs
    (above : ∀ point ∈ points, ∃ found ∈ collectSyncPoints body, ∃ depth,
      PlacedAt found depth point ∧ found.ConditionAbove depth) :
    (insertSyncs points 0 0 body).ConditionsInScope 0 := by
  apply (conditionsInScope_iff (insertSyncs points 0 0 body) []).mpr
  intro site present guard isGuard
  obtain ⟨point, member, sync⟩ := belongsTo_of_mem points body [] 0 0 site present
  obtain ⟨found, collected, depth, placed, conditionAbove⟩ := above point member
  have sites := placed.flagSites distinct free member collected
  have here : site ∈ flagSites point [] (insertSyncs points 0 0 body) := by
    apply List.mem_filter.mpr
    exact ⟨present, by rw [sync]; exact isFlagOf_self point⟩
  rw [sites, List.mem_singleton] at here
  rw [here] at isGuard ⊢
  have bound := conditionAbove guard (placed.condition? ▸ isGuard)
  simpa [SyncPoint.siteIn, placed.1] using bound

end

/-! ## Counting the executions -/

/--
What a loop around a copy contributes to the executions of its flag, apart from dynamic
extents: the extent, or for the stage loop of a condition the number of its intervals.
-/
def SyncPoint.fixedFactor (point : SyncPoint) (index : Nat) : Nat :=
  match point.parentForNodes[index]? with
  | some ⟨_, _, .fixed extent⟩ => extent
  | some ⟨_, _, .stage extent _⟩ =>
    if point.stageLoop = some index ∧ 1 < point.crossInterval then
      intervals extent point.crossInterval
    else
      extent
  | _ => 1

/-- The extent of the loop at an index, if that loop is dynamic. -/
def dynamicExtent? (parents : List ForNode) (index : Nat) : Option String :=
  match parents[index]? with
  | some ⟨_, _, .dynamic extent⟩ => some extent
  | _ => none

/-- What a dynamic loop around a copy contributes to the executions of its flag. -/
def dynamicFactor (sizes : String → Nat) (parents : List ForNode) (index : Nat) : Nat :=
  (dynamicExtent? parents index).elim 1 sizes

/-- Executions of a flag that come from loops with constant extents above a depth. -/
def SyncPoint.fixedTimes (point : SyncPoint) (depth : Nat) : Nat :=
  ((List.range depth).map point.fixedFactor).prod

/-- Executions of a flag that come from dynamic loops above a depth. -/
def dynamicTimes (sizes : String → Nat) (parents : List ForNode) (depth : Nat) : Nat :=
  ((List.range depth).map (dynamicFactor sizes parents)).prod

/-- Times of the loop at an index. -/
def timesAt (sizes : String → Nat) (parents : List ForNode) (index : Nat) : Nat :=
  (parents[index]?.map fun node => node.loop.times sizes).getD 1

theorem times_take (sizes : String → Nat) (inside : depth ≤ parents.length) :
    ((parents.take depth).map fun node => node.loop.times sizes) =
      (List.range depth).map (timesAt sizes parents) := by
  apply List.ext_getElem?
  intro index
  rcases Nat.lt_or_ge index depth with below | beyond
  · have present : index < parents.length := Nat.lt_of_lt_of_le below inside
    simp [below, timesAt, List.getElem?_eq_getElem present]
  · rw [List.getElem?_eq_none, List.getElem?_eq_none]
    · simpa using beyond
    · simp only [List.length_map, List.length_take]
      omega

theorem timesAt_eq (sizes : String → Nat)
    (unconditioned : ¬ (point.stageLoop = some index ∧ 1 < point.crossInterval)) :
    timesAt sizes point.parentForNodes index =
      point.fixedFactor index * dynamicFactor sizes point.parentForNodes index := by
  unfold timesAt SyncPoint.fixedFactor dynamicFactor dynamicExtent?
  cases point.parentForNodes[index]? with
  | none => rfl
  | some node =>
    obtain ⟨-, -, kind⟩ := node
    cases kind with
    | fixed extent => simp [Loop.times]
    | dynamic extent => simp [Loop.times]
    | stage extent interval => simp [Loop.times, unconditioned]

theorem condition?_eq_some (isGuard : point.condition? = some guard) :
    point.stageLoop = some guard.stageVar ∧ 1 < point.crossInterval ∧
      (guard = .lastOfInterval guard.stageVar point.crossInterval point.stageExtent ∨
        guard = .firstOfInterval guard.stageVar point.crossInterval) := by
  unfold SyncPoint.condition? at isGuard
  split at isGuard
  case h_1 => cases isGuard
  case h_2 stageVar isStage =>
      split at isGuard
      case isTrue larger =>
          cases writes : point.isWrite with
          | true =>
            obtain rfl : Condition.lastOfInterval stageVar point.crossInterval
                point.stageExtent = guard := by simpa [writes] using isGuard
            exact ⟨isStage, larger, Or.inl rfl⟩
          | false =>
            obtain rfl : Condition.firstOfInterval stageVar point.crossInterval = guard := by
              simpa [writes] using isGuard
            exact ⟨isStage, larger, Or.inr rfl⟩
      case isFalse => cases isGuard

theorem passing_condition (isGuard : point.condition? = some guard) :
    passing guard.passes point.stageExtent = intervals point.stageExtent point.crossInterval := by
  obtain ⟨-, larger, isLast | isFirst⟩ := condition?_eq_some isGuard
  · rw [isLast]
    exact passing_lastOrFinal (Nat.zero_lt_of_lt larger) point.stageExtent
  · rw [isFirst]
    exact passing_first (Nat.zero_lt_of_lt larger) point.stageExtent

theorem not_conditioned_of_none (unguarded : point.condition? = none) (index : Nat) :
    ¬ (point.stageLoop = some index ∧ 1 < point.crossInterval) := by
  rintro ⟨isStage, larger⟩
  simp only [SyncPoint.condition?, isStage, larger, ↓reduceIte] at unguarded
  split at unguarded <;> cases unguarded

theorem iterations_eq (sizes : String → Nat) (stage : StageIn point.parentForNodes point.stageLoop)
    (inside : depth ≤ point.parentForNodes.length) (above : point.ConditionAbove depth) :
    iterations (fun all => point.condition?.all (Condition.holds all))
        ((point.parentForNodes.take depth).map fun node => node.loop.times sizes) [] =
      point.fixedTimes depth * dynamicTimes sizes point.parentForNodes depth := by
  rw [times_take sizes inside, SyncPoint.fixedTimes, dynamicTimes, ← List.prod_map_mul]
  cases guarded : point.condition? with
  | none =>
    rw [@iterations_constant _ true _ _ fun more => rfl]
    rw [if_pos rfl]
    apply congrArg
    apply List.map_congr_left
    intro index _
    exact timesAt_eq sizes (not_conditioned_of_none guarded index)
  | some guard =>
    obtain ⟨isStage, larger, -⟩ := condition?_eq_some guarded
    have below : guard.stageVar < depth := above guard (by simp [guarded])
    obtain ⟨number, name, extent, interval, present⟩ := stage guard.stageVar isStage
    have stageExtent : point.stageExtent = extent := by
      simp [SyncPoint.stageExtent, isStage, present, Loop.iterTimesAsConst]
    have passes := passing_condition guarded
    rw [stageExtent] at passes
    -- The nest is cut at the stage loop, whose indices the condition tests.
    obtain ⟨more, rfl⟩ := Nat.exists_eq_add_of_le (Nat.succ_le_of_lt below)
    have cut :
        List.range (guard.stageVar + 1 + more) =
          List.range guard.stageVar ++
            guard.stageVar :: (List.range more).map (guard.stageVar + 1 + ·) := by
      rw [List.range_add, List.range_succ, List.append_assoc]
      rfl
    have others :
        ∀ index, index ≠ guard.stageVar →
          timesAt sizes point.parentForNodes index =
            point.fixedFactor index * dynamicFactor sizes point.parentForNodes index := by
      intro index different
      apply timesAt_eq
      rintro ⟨same, -⟩
      rw [isStage, Option.some.injEq] at same
      exact different same.symm
    have here : timesAt sizes point.parentForNodes guard.stageVar = extent := by
      simp [timesAt, present, Loop.times]
    have factor :
        point.fixedFactor guard.stageVar *
            dynamicFactor sizes point.parentForNodes guard.stageVar =
          intervals extent point.crossInterval := by
      simp [SyncPoint.fixedFactor, dynamicFactor, dynamicExtent?, present, isStage, larger]
    have count :=
      iterations_at guard.passes
        ((List.range guard.stageVar).map (timesAt sizes point.parentForNodes)) extent
        (((List.range more).map (guard.stageVar + 1 + ·)).map
          (timesAt sizes point.parentForNodes)) []
    have outer :
        (List.range guard.stageVar).map (timesAt sizes point.parentForNodes) =
          (List.range guard.stageVar).map fun index =>
            point.fixedFactor index * dynamicFactor sizes point.parentForNodes index := by
      apply List.map_congr_left
      intro index member
      have smaller := List.mem_range.mp member
      exact others index (by omega)
    have inner :
        ((List.range more).map (guard.stageVar + 1 + ·)).map
            (timesAt sizes point.parentForNodes) =
          ((List.range more).map (guard.stageVar + 1 + ·)).map fun index =>
            point.fixedFactor index * dynamicFactor sizes point.parentForNodes index := by
      apply List.map_congr_left
      intro index member
      obtain ⟨offset, -, rfl⟩ := List.mem_map.mp member
      exact others _ (by omega)
    rw [passes, List.length_nil, List.length_map, List.length_range, Nat.zero_add] at count
    rw [cut, List.map_append, List.map_cons, here]
    refine Eq.trans count ?_
    rw [List.map_append, List.map_cons, List.prod_append, List.prod_cons, factor, outer,
      inner, Nat.mul_assoc]

/-! ## Comparing the two sides -/

/-- Whether the loop at an index is dynamic. -/
def dynamicAt (parents : List ForNode) (index : Nat) : Bool :=
  (dynamicExtent? parents index).isSome

theorem dynamicExtent?_eq_some_iff :
    dynamicExtent? parents index = some extent ↔
      ∃ name, (parents[index]?).map ForNode.loop = some (Loop.mk name (.dynamic extent)) := by
  unfold dynamicExtent?
  cases parents[index]? with
  | none => simp
  | some node =>
    obtain ⟨number, name, kind⟩ := node
    cases kind <;> simp

theorem dynamicExtent?_eq (shared : SharesDynamicLoops cubeParents vecParents) (index : Nat) :
    dynamicExtent? cubeParents index = dynamicExtent? vecParents index := by
  apply Option.ext
  intro extent
  rw [dynamicExtent?_eq_some_iff, dynamicExtent?_eq_some_iff]
  exact exists_congr fun name => shared index name extent

theorem dynamicTimes_const (size : Nat) (parents : List ForNode) (depth : Nat) :
    dynamicTimes (fun _ => size) parents depth =
      size ^ (List.range depth).countP (dynamicAt parents) := by
  induction depth with
  | zero => rfl
  | succ depth ih =>
    rw [dynamicTimes, List.range_succ, List.map_append, List.prod_append, ← dynamicTimes,
      ih, List.countP_append, pow_add]
    apply congrArg
    cases present : dynamicExtent? parents depth with
    | none => simp [dynamicFactor, dynamicAt, present]
    | some extent => simp [dynamicFactor, dynamicAt, present]

theorem dynamicTimes_eq_of_le (sizes : String → Nat) (below : lower ≤ upper)
    (between : ∀ index, dynamicAt parents index → (index < lower ↔ index < upper)) :
    dynamicTimes sizes parents upper = dynamicTimes sizes parents lower := by
  obtain ⟨more, rfl⟩ := Nat.exists_eq_add_of_le below
  have units :
      (((List.range more).map (lower + ·)).map (dynamicFactor sizes parents)).prod = 1 := by
    apply List.prod_eq_one
    intro value member
    obtain ⟨index, inRange, rfl⟩ := List.mem_map.mp member
    obtain ⟨offset, small, rfl⟩ := List.mem_map.mp inRange
    have bound := List.mem_range.mp small
    have static : ¬ dynamicAt parents (lower + offset) := by
      intro isDynamic
      have same := between _ isDynamic
      omega
    have noExtent : dynamicExtent? parents (lower + offset) = none := by
      simpa [dynamicAt] using static
    simp [dynamicFactor, noExtent]
  rw [dynamicTimes, List.range_add, List.map_append, List.prod_append, units, Nat.mul_one,
    ← dynamicTimes]

theorem not_dynamic_between (below : lower ≤ upper)
    (sameCount : (List.range lower).countP (dynamicAt parents) =
      (List.range upper).countP (dynamicAt parents)) :
    ∀ index, dynamicAt parents index → (index < lower ↔ index < upper) := by
  obtain ⟨more, rfl⟩ := Nat.exists_eq_add_of_le below
  rw [List.range_add, List.countP_append] at sameCount
  have none : ((List.range more).map (lower + ·)).countP (dynamicAt parents) = 0 := by omega
  rw [List.countP_eq_zero] at none
  intro index isDynamic
  constructor
  · intro smaller
    omega
  · intro smaller
    by_contra beyond
    apply none index _ isDynamic
    exact List.mem_map.mpr ⟨index - lower, List.mem_range.mpr (by omega), by omega⟩

/--
Two sides run equally often for all sizes exactly when their constant loops do, and either the
flags never run or the same shared dynamic loops are around both.
-/
theorem times_eq_iff (shared : SharesDynamicLoops cubeParents vecParents)
    (cubeFixed vecFixed cubeDepth vecDepth : Nat) :
    (∀ sizes, cubeFixed * dynamicTimes sizes cubeParents cubeDepth =
        vecFixed * dynamicTimes sizes vecParents vecDepth) ↔
      cubeFixed = vecFixed ∧
        (cubeFixed = 0 ∨
          ∀ index, dynamicAt cubeParents index → (index < cubeDepth ↔ index < vecDepth)) := by
  have sameTimes :
      ∀ sizes depth, dynamicTimes sizes vecParents depth =
        dynamicTimes sizes cubeParents depth := by
    intro sizes depth
    have sameFactor : dynamicFactor sizes vecParents = dynamicFactor sizes cubeParents := by
      funext index
      rw [dynamicFactor, dynamicFactor, dynamicExtent?_eq shared]
    rw [dynamicTimes, dynamicTimes, sameFactor]
  simp only [sameTimes]
  constructor
  · intro balanced
    have fixedSame : cubeFixed = vecFixed := by
      simpa [dynamicTimes_const] using balanced fun _ => 1
    refine ⟨fixedSame, ?_⟩
    by_cases zero : cubeFixed = 0
    · exact Or.inl zero
    · right
      have powers := balanced fun _ => 2
      rw [← fixedSame, dynamicTimes_const, dynamicTimes_const] at powers
      have samePower := Nat.eq_of_mul_eq_mul_left (Nat.pos_of_ne_zero zero) powers
      have sameCount := Nat.pow_right_injective le_rfl samePower
      cases Nat.le_total cubeDepth vecDepth with
      | inl below => exact not_dynamic_between below sameCount
      | inr above =>
        intro index isDynamic
        exact (not_dynamic_between above sameCount.symm index isDynamic).symm
  · rintro ⟨rfl, zero | sameLoops⟩ sizes
    · rw [zero, Nat.zero_mul, Nat.zero_mul]
    · cases Nat.le_total cubeDepth vecDepth with
      | inl below => rw [dynamicTimes_eq_of_le sizes below sameLoops]
      | inr above =>
        rw [dynamicTimes_eq_of_le sizes above fun index isDynamic =>
          (sameLoops index isDynamic).symm]

/-! ## The whole insertion -/

theorem autoInsert_eq_some (accepted : autoInsert cubeCode vecCode = some synced) :
    ∃ pairs placed,
      matchSyncPoints (collectSyncPoints cubeCode) (collectSyncPoints vecCode) = some pairs ∧
      placePairs 0 pairs = some placed ∧
      synced =
        (insertSyncs (resolvePoints (placed.map Prod.fst) (collectSyncPoints cubeCode)) 0 0
            cubeCode,
          insertSyncs (resolvePoints (placed.map Prod.snd) (collectSyncPoints vecCode)) 0 0
            vecCode) := by
  simp only [autoInsert, Option.bind_eq_bind, Option.pure_def, Option.bind_eq_some_iff,
    Option.some.injEq] at accepted
  obtain ⟨pairs, matched, placed, placedAll, rfl⟩ := accepted
  exact ⟨pairs, placed, matched, placedAll, rfl⟩

theorem placedAt_copy (collected : point ∈ collectSyncPoints body) :
    PlacedAt point point.parentForNodes.length point ∧
      point.ConditionAbove point.parentForNodes.length := by
  have fresh : point ∈ newPoints [] body Collector.start := collected
  refine ⟨⟨le_rfl, point.syncFlagId, ?_⟩, ?_⟩
  · have unplaced := (foundIn_of_mem fresh).unplaced
    rw [List.getElem?_eq_none le_rfl, ← unplaced]
  · intro guard isGuard
    obtain ⟨isStage, -⟩ := condition?_eq_some isGuard
    have stage : StageIn [] Collector.start.currentStageLoop := by
      intro level none
      cases none
    obtain ⟨index, name, extent, interval, present⟩ :=
      (stageIn_of_mem stage fresh).1 guard.stageVar isStage
    exact (List.getElem?_eq_some_iff.mp present).1

/-- Loops counted once because a shared dynamic loop has their name. -/
abbrev skippedLoops (pair : SyncPoint × SyncPoint) : List String :=
  collectNonConstSharedLoopIds pair.1.parentForNodes pair.2.parentForNodes

/-- The deepest depths at which the loops around two copies have run equally often. -/
def PairMeeting (pair : SyncPoint × SyncPoint) (cubeDepth vecDepth : Nat) : Prop :=
  DeepestMeeting (countedTimes (skippedLoops pair) pair.1.parentForNodes)
    (countedTimes (skippedLoops pair) pair.2.parentForNodes) cubeDepth vecDepth

theorem mem_collectNonConstSharedLoopIds
    (shared : SharesDynamicLoops cubeParents vecParents) {name : String}
    (present : (cubeParents[index]?).map ForNode.loop = some (Loop.mk name (.dynamic extent))) :
    name ∈ collectNonConstSharedLoopIds cubeParents vecParents := by
  obtain ⟨cube, cubeLoop, isCube⟩ := Option.map_eq_some_iff.mp present
  obtain ⟨vec, vecLoop, isVec⟩ := Option.map_eq_some_iff.mp ((shared index name extent).mp present)
  apply List.mem_filterMap.mpr
  refine ⟨(cube, index), ?_, ?_⟩
  · exact List.mk_mem_zipIdx_iff_getElem?.mpr cubeLoop
  · simp [Loop.iterTimesAsConst, isSharedLoop, cubeLoop, vecLoop, isCube, isVec]

theorem counted_isSome (shared : SharesDynamicLoops cubeParents vecParents)
    (isSide : parents = cubeParents ∨ parents = vecParents) :
    ∀ node ∈ parents,
      (getLoopIterTimesWithSkip (collectNonConstSharedLoopIds cubeParents vecParents)
        node).isSome := by
  intro node member
  obtain ⟨index, present⟩ := List.mem_iff_getElem?.mp member
  unfold getLoopIterTimesWithSkip
  split
  case isTrue => rfl
  case isFalse unskipped =>
      obtain ⟨number, name, kind⟩ := node
      cases kind with
      | fixed extent => rfl
      | stage extent interval => rfl
      | dynamic extent =>
        exfalso
        apply unskipped
        have isLoop :
            (parents[index]?).map ForNode.loop = some (Loop.mk name (.dynamic extent)) := by
          rw [present]
          rfl
        rcases isSide with rfl | rfl
        · exact mem_collectNonConstSharedLoopIds shared isLoop
        · exact mem_collectNonConstSharedLoopIds shared ((shared index name extent).mpr isLoop)

theorem findTargetLoopDepth_of_meeting
    (shared : SharesDynamicLoops pair.1.parentForNodes pair.2.parentForNodes)
    (meeting : PairMeeting pair cubeDepth vecDepth) :
    findTargetLoopDepth pair.1.parentForNodes pair.2.parentForNodes = some (cubeDepth, vecDepth) :=
  findTargetLoopDepth_eq (counted_isSome shared (Or.inl rfl))
    (counted_isSome shared (Or.inr rfl)) meeting

theorem placedAt_of_meeting {placed : SyncPoint × SyncPoint}
    (accepted : placePair flag pair = some placed)
    (shared : SharesDynamicLoops pair.1.parentForNodes pair.2.parentForNodes)
    (meeting : PairMeeting pair cubeDepth vecDepth) :
    PlacedAt pair.1 cubeDepth placed.1 ∧ PlacedAt pair.2 vecDepth placed.2 := by
  obtain ⟨foundCube, foundVec, depths, rfl⟩ := placePair_eq_some accepted
  rw [findTargetLoopDepth_of_meeting shared meeting] at depths
  simp only [Option.some.injEq, Prod.mk.injEq] at depths
  obtain ⟨rfl, rfl⟩ := depths
  have cubeInside := meeting.meets.inFirst
  have vecInside := meeting.meets.inSecond
  simp only [countedTimes, List.length_map] at cubeInside vecInside
  exact ⟨⟨cubeInside, flag, rfl⟩, ⟨vecInside, flag, rfl⟩⟩

theorem stageIn_collected (collected : point ∈ collectSyncPoints body) :
    StageIn point.parentForNodes point.stageLoop := by
  have stage : StageIn [] Collector.start.currentStageLoop := by
    intro level none
    cases none
  exact (@stageIn_of_mem [] body Collector.start point stage collected).1

/--
What has to hold of the loops around two matched copies whose nests meet at the given depths:
each condition reads a loop above its depth, the constant loops above the depths run equally
often, and the same shared dynamic loops are above both depths unless the flags never run.
-/
structure FlagsAgree (pair : SyncPoint × SyncPoint) (cubeDepth vecDepth : Nat) : Prop where
  cubeCondition : pair.1.ConditionAbove cubeDepth
  vecCondition : pair.2.ConditionAbove vecDepth
  sameFixed : pair.1.fixedTimes cubeDepth = pair.2.fixedTimes vecDepth
  sameDynamic :
    pair.1.fixedTimes cubeDepth = 0 ∨
      ∀ index, dynamicAt pair.1.parentForNodes index → (index < cubeDepth ↔ index < vecDepth)

/-- The set and the wait of a pair execute equally often in every run. -/
def Balanced (synced : SyncedBody × SyncedBody) (pair : SyncPoint × SyncPoint) : Prop :=
  ∀ sizes choice,
    synced.1.executions sizes choice pair.1.isFlagOf [] =
      synced.2.executions sizes choice pair.2.isFlagOf []

theorem resolved_conditions (free : body.branchesWithoutCopies)
    (placedAbove : ∀ point ∈ placed, ∃ found ∈ collectSyncPoints body, ∃ depth,
      PlacedAt found depth point ∧ found.ConditionAbove depth) :
    (insertSyncs (resolvePoints placed (collectSyncPoints body)) 0 0
      body).ConditionsInScope 0 := by
  apply conditionsInScope_insertSyncs
  · rw [resolvePoints_orders]
    exact collectSyncPoints_orders body
  · exact free
  · intro point member
    rcases mem_resolvePoints_cases member with isPlaced | isCollected
    · exact placedAbove point isPlaced
    · obtain ⟨atCopy, above⟩ := placedAt_copy isCollected
      exact ⟨point, isCollected, _, atCopy, above⟩

/-- The matched pairs of an insertion and the same pairs after placing. -/
structure Placement
    (cubeCode vecCode : Body)
    (pairs placed : List (SyncPoint × SyncPoint)) : Prop where
  pairwise : List.Forall₂ (fun pair after => ∃ flag, placePair flag pair = some after) pairs placed
  cubeCollected : ∀ pair ∈ pairs, pair.1 ∈ collectSyncPoints cubeCode
  vecCollected : ∀ pair ∈ pairs, pair.2 ∈ collectSyncPoints vecCode
  cubeOrders : ((placed.map Prod.fst).map SyncPoint.order).Nodup
  vecOrders : ((placed.map Prod.snd).map SyncPoint.order).Nodup

/-- The points of the cube core after matching. -/
abbrev cubeResolved (cubeCode : Body) (placed : List (SyncPoint × SyncPoint)) :
    List SyncPoint :=
  resolvePoints (placed.map Prod.fst) (collectSyncPoints cubeCode)

/-- The points of the vector core after matching. -/
abbrev vecResolved (vecCode : Body) (placed : List (SyncPoint × SyncPoint)) :
    List SyncPoint :=
  resolvePoints (placed.map Prod.snd) (collectSyncPoints vecCode)

theorem placement_of_accepted (accepted : autoInsert cubeCode vecCode = some synced)
    (matched :
      matchSyncPoints (collectSyncPoints cubeCode) (collectSyncPoints vecCode) = some pairs) :
    ∃ placed, Placement cubeCode vecCode pairs placed ∧
      synced =
        (insertSyncs (cubeResolved cubeCode placed) 0 0 cubeCode,
          insertSyncs (vecResolved vecCode placed) 0 0 vecCode) := by
  obtain ⟨samePairs, placed, matchedAgain, placedAll, rfl⟩ := autoInsert_eq_some accepted
  obtain rfl : pairs = samePairs := Option.some.inj (matched.symm.trans matchedAgain)
  have pairwise := placePairs_forall₂ 0 pairs placedAll
  obtain ⟨cubeOrders, vecOrders⟩ := placePairs_orders pairwise
  obtain ⟨cubeSide, vecSide⟩ :=
    matchWorkspaces_sides (collectSyncPoints_orders cubeCode) (collectSyncPoints_orders vecCode)
      _ (workspaces_nodup _) matched
  refine ⟨placed, ⟨pairwise, ?_, ?_, ?_, ?_⟩, rfl⟩
  · intro pair member
    exact (cubeSide.collected pair.1 (List.mem_map_of_mem member)).1
  · intro pair member
    exact (vecSide.collected pair.2 (List.mem_map_of_mem member)).1
  · rw [cubeOrders]
    exact cubeSide.orders
  · rw [vecOrders]
    exact vecSide.orders

theorem resolvedOrders (body : Body) (placed : List SyncPoint) :
    ((resolvePoints placed (collectSyncPoints body)).map SyncPoint.order).Nodup := by
  rw [resolvePoints_orders]
  exact collectSyncPoints_orders body

section

variable {cubeCode vecCode : Body} {pairs placed : List (SyncPoint × SyncPoint)}
  {pair : SyncPoint × SyncPoint} {cubeDepth vecDepth : Nat}

theorem Placement.resolved (placement : Placement cubeCode vecCode pairs placed)
    (member : pair ∈ pairs)
    (shared : SharesDynamicLoops pair.1.parentForNodes pair.2.parentForNodes)
    (meeting : PairMeeting pair cubeDepth vecDepth) :
    (∃ point ∈ cubeResolved cubeCode placed, PlacedAt pair.1 cubeDepth point) ∧
      ∃ point ∈ vecResolved vecCode placed, PlacedAt pair.2 vecDepth point := by
  obtain ⟨after, isPlaced, flag, placedPair⟩ := exists_of_mem_left placement.pairwise member
  obtain ⟨cubePlaced, vecPlaced⟩ := placedAt_of_meeting placedPair shared meeting
  refine ⟨⟨after.1, ?_, cubePlaced⟩, ⟨after.2, ?_, vecPlaced⟩⟩
  · apply mem_resolvePoints placement.cubeOrders (List.mem_map_of_mem isPlaced)
      (placement.cubeCollected pair member)
    obtain ⟨-, _, equal⟩ := cubePlaced
    rw [equal]
  · apply mem_resolvePoints placement.vecOrders (List.mem_map_of_mem isPlaced)
      (placement.vecCollected pair member)
    obtain ⟨-, _, equal⟩ := vecPlaced
    rw [equal]

theorem Placement.balanced_iff (placement : Placement cubeCode vecCode pairs placed)
    (cubeFree : cubeCode.branchesWithoutCopies) (vecFree : vecCode.branchesWithoutCopies)
    (member : pair ∈ pairs)
    (shared : SharesDynamicLoops pair.1.parentForNodes pair.2.parentForNodes)
    (meeting : PairMeeting pair cubeDepth vecDepth) (cubeAbove : pair.1.ConditionAbove cubeDepth)
    (vecAbove : pair.2.ConditionAbove vecDepth) :
    Balanced
        (insertSyncs (cubeResolved cubeCode placed) 0 0 cubeCode,
          insertSyncs (vecResolved vecCode placed) 0 0 vecCode) pair ↔
      FlagsAgree pair cubeDepth vecDepth := by
  obtain ⟨⟨cubePoint, cubeMember, cubePlaced⟩, ⟨vecPoint, vecMember, vecPlaced⟩⟩ :=
    placement.resolved member shared meeting
  have cubeCollected := placement.cubeCollected pair member
  have vecCollected := placement.vecCollected pair member
  have cubeRuns := fun sizes choice =>
    (cubePlaced.executions (resolvedOrders _ _) cubeFree cubeMember cubeCollected sizes
      choice).trans (iterations_eq sizes (stageIn_collected cubeCollected) cubePlaced.1 cubeAbove)
  have vecRuns := fun sizes choice =>
    (vecPlaced.executions (resolvedOrders _ _) vecFree vecMember vecCollected sizes
      choice).trans (iterations_eq sizes (stageIn_collected vecCollected) vecPlaced.1 vecAbove)
  have products :=
    times_eq_iff shared (pair.1.fixedTimes cubeDepth) (pair.2.fixedTimes vecDepth) cubeDepth
      vecDepth
  simp only [Balanced, cubeRuns, vecRuns]
  constructor
  · intro balanced
    obtain ⟨sameFixed, sameDynamic⟩ := products.mp fun sizes => balanced sizes fun _ _ => true
    exact ⟨cubeAbove, vecAbove, sameFixed, sameDynamic⟩
  · intro agree sizes _
    exact products.mpr ⟨agree.sameFixed, agree.sameDynamic⟩ sizes

theorem Placement.inScope (placement : Placement cubeCode vecCode pairs placed)
    (cubeFree : cubeCode.branchesWithoutCopies) (vecFree : vecCode.branchesWithoutCopies)
    (shared : ∀ pair ∈ pairs, SharesDynamicLoops pair.1.parentForNodes pair.2.parentForNodes)
    (agree : ∀ pair ∈ pairs, ∃ cubeDepth vecDepth,
      PairMeeting pair cubeDepth vecDepth ∧ FlagsAgree pair cubeDepth vecDepth) :
    (insertSyncs (cubeResolved cubeCode placed) 0 0 cubeCode).ConditionsInScope 0 ∧
      (insertSyncs (vecResolved vecCode placed) 0 0 vecCode).ConditionsInScope 0 := by
  have each :
      ∀ after ∈ placed, ∃ pair ∈ pairs, ∃ cubeDepth vecDepth,
        PlacedAt pair.1 cubeDepth after.1 ∧ PlacedAt pair.2 vecDepth after.2 ∧
          FlagsAgree pair cubeDepth vecDepth := by
    intro after inPlaced
    obtain ⟨pair, member, flag, placedPair⟩ := exists_of_mem_right placement.pairwise inPlaced
    obtain ⟨cubeDepth, vecDepth, meeting, flags⟩ := agree pair member
    obtain ⟨cubePlaced, vecPlaced⟩ := placedAt_of_meeting placedPair (shared pair member) meeting
    exact ⟨pair, member, cubeDepth, vecDepth, cubePlaced, vecPlaced, flags⟩
  constructor
  · apply resolved_conditions cubeFree
    intro point isPlaced
    obtain ⟨after, inPlaced, rfl⟩ := List.mem_map.mp isPlaced
    obtain ⟨pair, member, cubeDepth, vecDepth, cubePlaced, -, flags⟩ := each after inPlaced
    exact ⟨pair.1, placement.cubeCollected pair member, cubeDepth, cubePlaced, flags.cubeCondition⟩
  · apply resolved_conditions vecFree
    intro point isPlaced
    obtain ⟨after, inPlaced, rfl⟩ := List.mem_map.mp isPlaced
    obtain ⟨pair, member, cubeDepth, vecDepth, -, vecPlaced, flags⟩ := each after inPlaced
    exact ⟨pair.2, placement.vecCollected pair member, vecDepth, vecPlaced, flags.vecCondition⟩

end

/--
Every set executes as often as its wait, and every inserted condition reads enclosing loops only,
exactly when the loops around every matched pair agree at its deepest meeting.
-/
theorem flags_balanced_iff
    {cubeCode vecCode : Body}
    {synced : SyncedBody × SyncedBody}
    {pairs : List (SyncPoint × SyncPoint)}
    (accepted : autoInsert cubeCode vecCode = some synced)
    (matched :
      matchSyncPoints (collectSyncPoints cubeCode) (collectSyncPoints vecCode) = some pairs)
    (cubeFree : cubeCode.branchesWithoutCopies)
    (vecFree : vecCode.branchesWithoutCopies)
    (shared : ∀ pair ∈ pairs, SharesDynamicLoops pair.1.parentForNodes pair.2.parentForNodes) :
    (synced.1.ConditionsInScope 0 ∧ synced.2.ConditionsInScope 0 ∧
        ∀ pair ∈ pairs, Balanced synced pair) ↔
      ∀ pair ∈ pairs, ∃ cubeDepth vecDepth,
        PairMeeting pair cubeDepth vecDepth ∧ FlagsAgree pair cubeDepth vecDepth := by
  obtain ⟨placed, placement, rfl⟩ := placement_of_accepted accepted matched
  constructor
  · rintro ⟨cubeScope, vecScope, balanced⟩ pair member
    obtain ⟨cubeDepth, vecDepth, meeting⟩ := exists_deepestMeeting
      (countedTimes (skippedLoops pair) pair.1.parentForNodes)
      (countedTimes (skippedLoops pair) pair.2.parentForNodes)
    obtain ⟨⟨cubePoint, cubeMember, cubePlaced⟩, ⟨vecPoint, vecMember, vecPlaced⟩⟩ :=
      placement.resolved member (shared pair member) meeting
    have cubeAbove :=
      cubePlaced.conditionAbove (resolvedOrders _ _) cubeFree cubeMember
        (placement.cubeCollected pair member) cubeScope
    have vecAbove :=
      vecPlaced.conditionAbove (resolvedOrders _ _) vecFree vecMember
        (placement.vecCollected pair member) vecScope
    exact ⟨cubeDepth, vecDepth, meeting,
      (placement.balanced_iff cubeFree vecFree member (shared pair member) meeting cubeAbove
        vecAbove).mp (balanced pair member)⟩
  · intro agree
    obtain ⟨cubeScope, vecScope⟩ := placement.inScope cubeFree vecFree shared agree
    refine ⟨cubeScope, vecScope, ?_⟩
    intro pair member
    obtain ⟨cubeDepth, vecDepth, meeting, flags⟩ := agree pair member
    exact (placement.balanced_iff cubeFree vecFree member (shared pair member) meeting
      flags.cubeCondition flags.vecCondition).mpr flags

/-! ## Two nests -/

/-- A statement in a nest of loops. -/
def inLoops (loops : List Loop) (body : Body) : Body :=
  loops.foldr Stmt.forLoop body

/-- The cube core writes a tile to a workspace. -/
def workspaceWrite : Body :=
  .evaluate ⟨some "tl::ascend::copy_l0c_to_gm<half>", [some "acc_l0c", some "workspace_1"]⟩

/-- The vector core reads a tile from the workspace. -/
def workspaceRead : Body :=
  .evaluate ⟨some "tl::ascend::copy_gm_to_ub<half>", [some "workspace_1", some "acc_ub"]⟩

/-- A dynamic loop over blocks around a stage loop, as the cross-core pipeline makes it. -/
def pipelineLoops : List Loop :=
  [⟨"by", .dynamic "blocks"⟩, ⟨"i", .stage 5 (some 2)⟩]

/-- The point of a copy in the pipeline loops. -/
def pipelinePoint (isWrite : Bool) (pipe : String) : SyncPoint :=
  { order := 1
    syncFlagId := 0
    isWrite := isWrite
    workspaceName := "workspace_1"
    pipe := pipe
    targetForNode := none
    parentForNodes := [⟨0, "by", .dynamic "blocks"⟩, ⟨1, "i", .stage 5 (some 2)⟩]
    crossInterval := 2
    stageLoop := some 1 }

/-- In the pipeline loops the set and the wait execute equally often. -/
theorem flags_balanced_pipeline :
    ∃ synced,
      autoInsert (inLoops pipelineLoops workspaceWrite)
          (inLoops pipelineLoops workspaceRead) = some synced ∧
        synced.1.ConditionsInScope 0 ∧ synced.2.ConditionsInScope 0 ∧
        Balanced synced (pipelinePoint true "FIX", pipelinePoint false "MTE2") := by
  have accepted :
      (autoInsert (inLoops pipelineLoops workspaceWrite)
        (inLoops pipelineLoops workspaceRead)).isSome := by decide +kernel
  obtain ⟨synced, isSynced⟩ := Option.isSome_iff_exists.mp accepted
  have matched :
      matchSyncPoints (collectSyncPoints (inLoops pipelineLoops workspaceWrite))
          (collectSyncPoints (inLoops pipelineLoops workspaceRead)) =
        some [(pipelinePoint true "FIX", pipelinePoint false "MTE2")] := by decide +kernel
  have meeting :
      PairMeeting (pipelinePoint true "FIX", pipelinePoint false "MTE2") 2 2 := by
    refine ⟨⟨by decide, by decide, by decide, by decide⟩, ?_⟩
    intro otherFirst otherSecond meets
    exact ⟨meets.inFirst, meets.inSecond⟩
  have agree : FlagsAgree (pipelinePoint true "FIX", pipelinePoint false "MTE2") 2 2 := by
    refine ⟨?_, ?_, by decide, Or.inr fun _ _ => Iff.rfl⟩
    · intro guard isGuard
      obtain rfl : Condition.lastOfInterval 1 2 5 = guard := by
        simpa [pipelinePoint, SyncPoint.condition?, SyncPoint.stageExtent,
          Loop.iterTimesAsConst] using isGuard
      decide
    · intro guard isGuard
      obtain rfl : Condition.firstOfInterval 1 2 = guard := by
        simpa [pipelinePoint, SyncPoint.condition?] using isGuard
      decide
  have balanced :=
    (flags_balanced_iff isSynced matched (by decide +kernel) (by decide +kernel) (by
      intro pair member
      obtain rfl := List.mem_singleton.mp member
      exact fun _ _ _ => Iff.rfl)).mpr (by
      intro pair member
      obtain rfl := List.mem_singleton.mp member
      exact ⟨2, 2, meeting, agree⟩)
  exact ⟨synced, isSynced, balanced.1, balanced.2.1, balanced.2.2 _ (List.mem_singleton.mpr rfl)⟩

/-- A shared dynamic loop in two loops of different lengths. -/
def splitLoops (name : String) (extent : Nat) : List Loop :=
  [⟨name, .fixed extent⟩, ⟨"by", .dynamic "blocks"⟩]

/-- The point of a copy in the split loops. -/
def splitPoint (isWrite : Bool) (pipe name : String) (extent : Nat) : SyncPoint :=
  { order := 1
    syncFlagId := 0
    isWrite := isWrite
    workspaceName := "workspace_1"
    pipe := pipe
    targetForNode := none
    parentForNodes := [⟨0, name, .fixed extent⟩, ⟨1, "by", .dynamic "blocks"⟩]
    crossInterval := 1
    stageLoop := none }

/--
With a loop of two iterations on the cube side and a unit loop on the vector side, both around
the shared dynamic loop, the set executes once and the wait once for every block.
-/
theorem flags_unbalanced_split :
    ∃ synced pairs,
      autoInsert (inLoops (splitLoops "half" 2) workspaceWrite)
          (inLoops (splitLoops "whole" 1) workspaceRead) = some synced ∧
      matchSyncPoints
          (collectSyncPoints (inLoops (splitLoops "half" 2) workspaceWrite))
          (collectSyncPoints (inLoops (splitLoops "whole" 1) workspaceRead)) = some pairs ∧
      (inLoops (splitLoops "half" 2) workspaceWrite).branchesWithoutCopies ∧
      (inLoops (splitLoops "whole" 1) workspaceRead).branchesWithoutCopies ∧
      (∀ pair ∈ pairs, SharesDynamicLoops pair.1.parentForNodes pair.2.parentForNodes) ∧
      ∃ pair ∈ pairs, synced.1.executions (fun _ => 3) (fun _ _ => true) pair.1.isFlagOf [] = 1 ∧
        synced.2.executions (fun _ => 3) (fun _ _ => true) pair.2.isFlagOf [] = 3 ∧
        ¬ Balanced synced pair := by
  have accepted :
      (autoInsert (inLoops (splitLoops "half" 2) workspaceWrite)
        (inLoops (splitLoops "whole" 1) workspaceRead)).map (fun synced =>
          (synced.1.executions (fun _ => 3) (fun _ _ => true)
              (splitPoint true "FIX" "half" 2).isFlagOf [],
            synced.2.executions (fun _ => 3) (fun _ _ => true)
              (splitPoint false "MTE2" "whole" 1).isFlagOf [])) = some (1, 3) := by
    decide +kernel
  obtain ⟨synced, isSynced, counts⟩ := Option.map_eq_some_iff.mp accepted
  simp only [Prod.mk.injEq] at counts
  refine ⟨synced, [(splitPoint true "FIX" "half" 2, splitPoint false "MTE2" "whole" 1)],
    isSynced, by decide +kernel, by decide +kernel, by decide +kernel, ?_,
    _, List.mem_singleton.mpr rfl, counts.1, counts.2, ?_⟩
  · intro pair member index name extent
    obtain rfl := List.mem_singleton.mp member
    match index with
    | 0 => simp [splitPoint]
    | 1 => simp [splitPoint]
    | _ + 2 => simp [splitPoint]
  · intro balanced
    have same := balanced (fun _ => 3) fun _ _ => true
    rw [counts.1, counts.2] at same
    cases same

end TilelangAscend.CrossCoreSync
