import TilelangAscend.CrossCoreSync

namespace TilelangAscend.CrossCoreSync

open LoopNests

/-!
# Where the flags are placed

The places of the flag operations in a body with flags, the loops around each of them, and how
often a run executes it.  The inserter places the flag of a point exactly once, inside the outer
loops of its copy down to the chosen depth.
-/

/-! ## Places of the flags -/

/-- A flag operation in a body, with the loops around it and whether a branch encloses it. -/
structure Site where
  sync : GuardedSync
  loops : List Loop
  branched : Bool
  deriving Repr, DecidableEq

/-- The flag operations of a body that stands in the given loops. -/
def Stmt.sites : List Loop → SyncedBody → List Site
  | _, .skip => []
  | _, .evaluate _ => []
  | loops, .added sync => [⟨sync, loops, false⟩]
  | loops, .seq first rest => first.sites loops ++ rest.sites loops
  | loops, .forLoop loop body => body.sites (loops ++ [loop])
  | loops, .ifThenElse _ thenCase elseCase =>
    (thenCase.sites loops ++ elseCase.sites loops).map fun site =>
      { site with branched := true }
  | loops, .scope body => body.sites loops

theorem sites_loops {body : SyncedBody} {loops : List Loop} {site : Site}
    (member : site ∈ body.sites loops) : ∃ inner, site.loops = loops ++ inner := by
  induction body generalizing loops site with
  | skip => simp [Stmt.sites] at member
  | evaluate call => simp [Stmt.sites] at member
  | added sync =>
    obtain rfl := List.mem_singleton.mp member
    exact ⟨[], by simp⟩
  | seq first rest firstIh restIh =>
    rcases List.mem_append.mp member with inFirst | inRest
    · exact firstIh inFirst
    · exact restIh inRest
  | forLoop loop body ih =>
    obtain ⟨inner, equal⟩ := ih member
    exact ⟨loop :: inner, by simp [equal]⟩
  | ifThenElse condition thenCase elseCase thenIh elseIh =>
    obtain ⟨original, present, rfl⟩ := List.mem_map.mp member
    rcases List.mem_append.mp present with inThen | inElse
    · exact @thenIh loops original inThen
    · exact @elseIh loops original inElse
  | scope body ih => exact ih member

theorem conditionsInScope_iff (body : SyncedBody) (loops : List Loop) :
    body.ConditionsInScope loops.length ↔
      ∀ site ∈ body.sites loops, ∀ guard ∈ site.sync.condition,
        guard.stageVar < site.loops.length := by
  induction body generalizing loops with
  | skip => simp [Stmt.ConditionsInScope, Stmt.sites]
  | evaluate call => simp [Stmt.ConditionsInScope, Stmt.sites]
  | added sync => simp [Stmt.ConditionsInScope, Stmt.sites]
  | seq first rest firstIh restIh =>
    simp only [Stmt.ConditionsInScope, Stmt.sites, List.forall_mem_append, firstIh, restIh]
  | forLoop loop body ih =>
    have inner := ih (loops ++ [loop])
    rw [List.length_append, List.length_singleton] at inner
    exact inner
  | ifThenElse condition thenCase elseCase thenIh elseIh =>
    simp only [Stmt.ConditionsInScope, Stmt.sites, List.forall_mem_map,
      List.forall_mem_append, thenIh, elseIh]
  | scope body ih => exact ih loops

/-! ## Executions of the flags -/

/-- How often a site is executed, from the indices of the loops around the body. -/
def Site.runs (sizes : String → Nat) (counted : SyncCall → Bool) (indices : List Nat)
    (site : Site) : Nat :=
  if counted site.sync.call then
    iterations (fun all => site.sync.condition.all (Condition.holds all))
      ((site.loops.drop indices.length).map (Loop.times sizes)) indices
  else
    0

theorem sum_sum_comm (sites : List Site) (indices : List Nat) (runs : Nat → Site → Nat) :
    (indices.map fun index => (sites.map (runs index)).sum).sum =
      (sites.map fun site => (indices.map fun index => runs index site).sum).sum := by
  induction sites with
  | nil => simp
  | cons site rest ih =>
    simp only [List.map_cons, List.sum_cons, List.sum_map_add, ih]

variable {loop : Loop} {site : Site} {body rest : Body} {point other found : SyncPoint}
  {loops : List ForNode} {collector : Collector} {points : List SyncPoint} {node : ForNode}
  {depth : Nat}

theorem runs_forLoop {sizes : String → Nat} {counted : SyncCall → Bool}
    {loops : List Loop} {indices : List Nat} (sameDepth : indices.length = loops.length)
    (inside : ∃ inner, site.loops = (loops ++ [loop]) ++ inner) :
    ((List.range (loop.times sizes)).map fun index =>
        site.runs sizes counted (indices ++ [index])).sum =
      site.runs sizes counted indices := by
  obtain ⟨inner, equal⟩ := inside
  have outer : site.loops.drop indices.length = loop :: inner := by
    simp [equal, sameDepth]
  have deeper : site.loops.drop (indices.length + 1) = inner := by
    simp [equal, sameDepth]
  cases isCounted : counted site.sync.call with
  | true => simp [Site.runs, isCounted, outer, deeper, iterations]
  | false => simp [Site.runs, isCounted]

theorem executions_eq_sum (sizes : String → Nat) (choice : Nat → List Nat → Bool)
    (counted : SyncCall → Bool) (body : SyncedBody) (loops : List Loop)
    (indices : List Nat) (sameDepth : indices.length = loops.length)
    (free : ∀ site ∈ body.sites loops, counted site.sync.call → site.branched = false) :
    body.executions sizes choice counted indices =
      ((body.sites loops).map (Site.runs sizes counted indices)).sum := by
  induction body generalizing loops indices with
  | skip => simp [Stmt.executions, Stmt.sites]
  | evaluate call => simp [Stmt.executions, Stmt.sites]
  | added sync =>
    have here : loops.drop indices.length = [] := by simp [sameDepth]
    cases isCounted : counted sync.call with
    | true => simp [Stmt.executions, Stmt.sites, Site.runs, isCounted, here, iterations]
    | false => simp [Stmt.executions, Stmt.sites, Site.runs, isCounted]
  | seq first rest firstIh restIh =>
    simp only [Stmt.sites, List.forall_mem_append] at free
    simp only [Stmt.executions, Stmt.sites, List.map_append, List.sum_append]
    rw [firstIh loops indices sameDepth free.1, restIh loops indices sameDepth free.2]
  | forLoop loop body ih =>
    have each :
        ∀ index, body.executions sizes choice counted (indices ++ [index]) =
          ((body.sites (loops ++ [loop])).map
            (Site.runs sizes counted (indices ++ [index]))).sum := by
      intro index
      apply ih
      · simp [sameDepth]
      · exact free
    simp only [Stmt.executions, Stmt.sites, each]
    rw [sum_sum_comm _ _ fun index => Site.runs sizes counted (indices ++ [index])]
    apply congrArg
    apply List.map_congr_left
    intro site member
    exact runs_forLoop sameDepth (sites_loops member)
  | ifThenElse condition thenCase elseCase thenIh elseIh =>
    simp only [Stmt.sites, List.forall_mem_map, List.forall_mem_append] at free
    have uncounted :
        ∀ site ∈ thenCase.sites loops ++ elseCase.sites loops, counted site.sync.call = false := by
      intro site member
      rw [← Bool.not_eq_true]
      intro isCounted
      rcases List.mem_append.mp member with inThen | inElse
      · exact absurd (free.1 site inThen isCounted) (by simp)
      · exact absurd (free.2 site inElse isCounted) (by simp)
    have noRuns :
        ∀ sites : List Site, (∀ site ∈ sites, counted site.sync.call = false) →
          (sites.map (Site.runs sizes counted indices)).sum = 0 := by
      intro sites silent
      apply List.sum_eq_zero
      intro value member
      obtain ⟨site, present, rfl⟩ := List.mem_map.mp member
      simp [Site.runs, silent site present]
    rw [List.forall_mem_append] at uncounted
    have thenZero :=
      thenIh loops indices sameDepth
        (fun site member isCounted => by simp [uncounted.1 site member] at isCounted)
    have elseZero :=
      elseIh loops indices sameDepth
        (fun site member isCounted => by simp [uncounted.2 site member] at isCounted)
    rw [noRuns _ uncounted.1] at thenZero
    rw [noRuns _ uncounted.2] at elseZero
    have sitesZero :
        (((Stmt.ifThenElse condition thenCase elseCase).sites loops).map
          (Site.runs sizes counted indices)).sum = 0 := by
      apply noRuns
      simp only [Stmt.sites, List.forall_mem_map, List.forall_mem_append]
      exact uncounted
    rw [sitesZero, Stmt.executions, thenZero, elseZero, ite_self]
  | scope body ih => exact ih loops indices sameDepth free

/-! ## Collected points -/

/-- The points that a statement adds to the collector. -/
def newPoints (loops : List ForNode) (body : Body) (collector : Collector) : List SyncPoint :=
  (collect loops body { collector with syncPoints := [] }).syncPoints

theorem collect_eq (loops : List ForNode) (body : Body) (collector : Collector) :
    (collect loops body collector).order = collector.order + body.calls ∧
      (collect loops body collector).nextFor = collector.nextFor + body.fors ∧
      collect loops body collector =
        { collect loops body { collector with syncPoints := [] } with
          syncPoints := collector.syncPoints ++ newPoints loops body collector } := by
  induction body generalizing loops collector with
  | skip => simp [collect, Stmt.calls, Stmt.fors, newPoints]
  | evaluate call =>
    cases copies : workspaceCopy call with
    | none => simp [collect, Collector.visitCall, copies, Stmt.calls, Stmt.fors, newPoints]
    | some copy => simp [collect, Collector.visitCall, copies, Stmt.calls, Stmt.fors, newPoints]
  | added stmt => cases stmt
  | seq first rest firstIh restIh =>
    obtain ⟨firstOrder, firstFor, firstWhole⟩ := firstIh loops collector
    obtain ⟨restOrder, restFor, restWhole⟩ := restIh loops (collect loops first collector)
    refine ⟨?_, ?_, ?_⟩
    · simp only [collect, Stmt.calls, restOrder, firstOrder]
      omega
    · simp only [collect, Stmt.fors, restFor, firstFor]
      omega
    · have blankRest :=
        (restIh loops (collect loops first { collector with syncPoints := [] })).2.2
      simp only [collect, newPoints]
      rw [restWhole, blankRest, firstWhole]
      simp [newPoints, List.append_assoc]
  | forLoop loop body ih =>
    obtain ⟨bodyOrder, bodyFor, bodyWhole⟩ :=
      ih (loops ++ [⟨collector.nextFor, loop⟩]) (collector.enterLoop loops loop)
    refine ⟨?_, ?_, ?_⟩
    · exact bodyOrder
    · apply bodyFor.trans
      simp only [Collector.enterLoop, Stmt.fors]
      omega
    · simp only [collect, newPoints, Collector.leaveLoop]
      rw [bodyWhole]
      rfl
  | ifThenElse condition thenCase elseCase thenIh elseIh =>
    obtain ⟨thenOrder, thenFor, thenWhole⟩ := thenIh loops collector
    obtain ⟨elseOrder, elseFor, elseWhole⟩ :=
      elseIh loops (collect loops thenCase collector)
    refine ⟨?_, ?_, ?_⟩
    · simp only [collect, Stmt.calls, elseOrder, thenOrder]
      omega
    · simp only [collect, Stmt.fors, elseFor, thenFor]
      omega
    · have blankElse :=
        (elseIh loops (collect loops thenCase { collector with syncPoints := [] })).2.2
      simp only [collect, newPoints]
      rw [elseWhole, blankElse, thenWhole]
      simp [newPoints, List.append_assoc]
  | scope body ih => exact ih loops collector

theorem collect_syncPoints (loops : List ForNode) (body : Body) (collector : Collector) :
    (collect loops body collector).syncPoints =
      collector.syncPoints ++ newPoints loops body collector := by
  rw [(collect_eq loops body collector).2.2]

theorem newPoints_collect (loops : List ForNode) (body rest : Body) (collector : Collector) :
    newPoints loops rest (collect loops body { collector with syncPoints := [] }) =
      newPoints loops rest (collect loops body collector) := by
  rw [(collect_eq loops body collector).2.2]
  rfl

theorem newPoints_seq (loops : List ForNode) (first rest : Body) (collector : Collector) :
    newPoints loops (.seq first rest) collector =
      newPoints loops first collector ++ newPoints loops rest (collect loops first collector) := by
  rw [newPoints, collect, collect_syncPoints, newPoints_collect]
  rfl

theorem newPoints_ifThenElse (loops : List ForNode) (condition : Nat)
    (thenCase elseCase : Body) (collector : Collector) :
    newPoints loops (.ifThenElse condition thenCase elseCase) collector =
      newPoints loops thenCase collector ++
        newPoints loops elseCase (collect loops thenCase collector) :=
  newPoints_seq loops thenCase elseCase collector

theorem newPoints_forLoop (loops : List ForNode) (loop : Loop) (body : Body)
    (collector : Collector) :
    newPoints loops (.forLoop loop body) collector =
      newPoints (loops ++ [⟨collector.nextFor, loop⟩]) body (collector.enterLoop loops loop) :=
  rfl

theorem newPoints_eq_nil (noCopy : body.containsCopy = false) (loops : List ForNode)
    (collector : Collector) : newPoints loops body collector = [] := by
  induction body generalizing loops collector with
  | skip => rfl
  | evaluate call =>
    have none : workspaceCopy call = none := by simpa [Stmt.containsCopy] using noCopy
    simp [newPoints, collect, Collector.visitCall, none]
  | added stmt => cases stmt
  | seq first rest firstIh restIh =>
    simp only [Stmt.containsCopy, Bool.or_eq_false_iff] at noCopy
    rw [newPoints_seq, firstIh noCopy.1, restIh noCopy.2]
    rfl
  | forLoop loop body ih =>
    rw [newPoints_forLoop]
    exact ih noCopy _ _
  | ifThenElse condition thenCase elseCase thenIh elseIh =>
    simp only [Stmt.containsCopy, Bool.or_eq_false_iff] at noCopy
    rw [newPoints_ifThenElse, thenIh noCopy.1, elseIh noCopy.2]
    rfl
  | scope body ih => exact ih noCopy loops collector

/-- Where a point of a statement was found. -/
structure FoundIn
    (loops : List ForNode)
    (body : Body)
    (collector : Collector)
    (point : SyncPoint) : Prop where
  orderAbove : collector.order < point.order
  orderBelow : point.order ≤ collector.order + body.calls
  parents : ∃ inner, point.parentForNodes = loops ++ inner ∧
    ∀ node ∈ inner, collector.nextFor ≤ node.index ∧ node.index < collector.nextFor + body.fors
  unplaced : point.targetForNode = none

/-- A point of the second of two statements. -/
theorem FoundIn.second {first : Body}
    (found : FoundIn loops rest (collect loops first collector) point) :
    FoundIn loops (.seq first rest) collector point := by
  obtain ⟨firstOrder, firstFor, -⟩ := collect_eq loops first collector
  obtain ⟨inner, equal, bounds⟩ := found.parents
  have above := found.orderAbove
  have below := found.orderBelow
  rw [firstOrder] at above below
  refine ⟨by omega, ?_, ⟨inner, equal, ?_⟩, found.unplaced⟩
  · simp only [Stmt.calls]
    omega
  · intro node member
    have bound := bounds node member
    rw [firstFor] at bound
    simp only [Stmt.fors]
    omega

/-- A point of the first of two statements. -/
theorem FoundIn.first {first : Body} (found : FoundIn loops first collector point) :
    FoundIn loops (.seq first rest) collector point := by
  obtain ⟨inner, equal, bounds⟩ := found.parents
  have below := found.orderBelow
  refine ⟨found.orderAbove, ?_, ⟨inner, equal, ?_⟩, found.unplaced⟩
  · simp only [Stmt.calls]
    omega
  · intro node member
    have bound := bounds node member
    simp only [Stmt.fors]
    omega

theorem foundIn_of_mem (member : point ∈ newPoints loops body collector) :
    FoundIn loops body collector point := by
  induction body generalizing loops collector with
  | skip => simp [newPoints, collect] at member
  | evaluate call =>
    cases copies : workspaceCopy call with
    | none => simp [newPoints, collect, Collector.visitCall, copies] at member
    | some copy =>
      simp only [newPoints, collect, Collector.visitCall, copies, List.nil_append,
        List.mem_singleton] at member
      subst member
      exact ⟨Nat.lt_succ_self _, le_rfl, ⟨[], by simp, by simp⟩, rfl⟩
  | added stmt => cases stmt
  | seq first rest firstIh restIh =>
    rw [newPoints_seq, List.mem_append] at member
    rcases member with inFirst | inRest
    · exact (firstIh inFirst).first
    · exact (restIh inRest).second
  | forLoop loop body ih =>
    rw [newPoints_forLoop] at member
    have found := ih member
    obtain ⟨inner, equal, bounds⟩ := found.parents
    refine ⟨found.orderAbove, found.orderBelow, ?_, found.unplaced⟩
    refine ⟨⟨collector.nextFor, loop⟩ :: inner, by simp [equal], ?_⟩
    intro node present
    simp only [Stmt.fors]
    rcases List.mem_cons.mp present with rfl | inInner
    · exact ⟨le_rfl, Nat.lt_add_of_pos_right (Nat.succ_pos _)⟩
    · have bound := bounds node inInner
      simp only [Collector.enterLoop] at bound
      omega
  | ifThenElse condition thenCase elseCase thenIh elseIh =>
    rw [newPoints_ifThenElse, List.mem_append] at member
    have asSequence : FoundIn loops (.seq thenCase elseCase) collector point := by
      rcases member with inThen | inElse
      · exact (thenIh inThen).first
      · exact (elseIh inElse).second
    exact ⟨asSequence.orderAbove, asSequence.orderBelow, asSequence.parents, asSequence.unplaced⟩
  | scope body ih =>
    have found := ih member
    exact ⟨found.orderAbove, found.orderBelow, found.parents, found.unplaced⟩

theorem newPoints_ordered (loops : List ForNode) (body : Body) (collector : Collector) :
    (newPoints loops body collector).Pairwise (fun first second =>
      first.order < second.order) := by
  induction body generalizing loops collector with
  | skip => exact List.Pairwise.nil
  | evaluate call =>
    cases copies : workspaceCopy call with
    | none => simp [newPoints, collect, Collector.visitCall, copies]
    | some copy => simp [newPoints, collect, Collector.visitCall, copies]
  | added stmt => cases stmt
  | seq first rest firstIh restIh =>
    rw [newPoints_seq, List.pairwise_append]
    refine ⟨firstIh loops collector, restIh loops _, ?_⟩
    intro earlier inFirst later inRest
    have before := (foundIn_of_mem inFirst).orderBelow
    have after := (foundIn_of_mem inRest).orderAbove
    rw [(collect_eq loops first collector).1] at after
    omega
  | forLoop loop body ih =>
    rw [newPoints_forLoop]
    exact ih _ _
  | ifThenElse condition thenCase elseCase thenIh elseIh =>
    rw [newPoints_ifThenElse, List.pairwise_append]
    refine ⟨thenIh loops collector, elseIh loops _, ?_⟩
    intro earlier inThen later inElse
    have before := (foundIn_of_mem inThen).orderBelow
    have after := (foundIn_of_mem inElse).orderAbove
    rw [(collect_eq loops thenCase collector).1] at after
    omega
  | scope body ih => exact ih loops collector

/-! ## Inserted flags -/

/-- The places of the flag of a point. -/
def flagSites (point : SyncPoint) (loops : List Loop) (body : SyncedBody) : List Site :=
  (body.sites loops).filter fun site => point.isFlagOf site.sync.call

/-- The flag of a point in the given loops. -/
def SyncPoint.siteIn (point : SyncPoint) (loops : List Loop) : Site :=
  ⟨⟨point.condition?, genSyncCall point⟩, loops, false⟩

theorem isFlagOf_self (point : SyncPoint) : point.isFlagOf (genSyncCall point) = true := by
  cases writes : point.isWrite <;> simp [genSyncCall, SyncPoint.isFlagOf, writes]

theorem isFlagOf_other (different : other.order ≠ point.order) :
    point.isFlagOf (genSyncCall other) = false := by
  cases writes : other.isWrite <;> simp [genSyncCall, SyncPoint.isFlagOf, writes, different]

theorem flagSites_attach_other (different : other.order ≠ point.order) (loops : List Loop)
    (body : SyncedBody) :
    flagSites point loops (attachSyncStmt other body) = flagSites point loops body := by
  cases writes : other.isWrite <;>
    simp [flagSites, attachSyncStmt, writes, Stmt.sites, guardedSync, isFlagOf_other different]

theorem flagSites_attach_self {loops : List Loop} {body : SyncedBody}
    (fresh : flagSites point loops body = []) :
    flagSites point loops (attachSyncStmt point body) = [point.siteIn loops] := by
  unfold flagSites at fresh ⊢
  cases writes : point.isWrite <;>
    simp [attachSyncStmt, writes, Stmt.sites, guardedSync, isFlagOf_self, fresh, SyncPoint.siteIn]

theorem flagSites_fold_other (loops : List Loop) (others : List SyncPoint)
    (body : SyncedBody) (different : ∀ other ∈ others, other.order ≠ point.order) :
    flagSites point loops
        (others.foldl (fun attached other => attachSyncStmt other attached) body) =
      flagSites point loops body := by
  induction others generalizing body with
  | nil => rfl
  | cons other rest ih =>
    rw [List.forall_mem_cons] at different
    rw [List.foldl_cons, ih _ different.2, flagSites_attach_other different.1]

theorem eq_of_order_eq (distinct : (points.map SyncPoint.order).Nodup)
    (member : point ∈ points) (otherMember : other ∈ points)
    (same : other.order = point.order) : other = point :=
  List.inj_on_of_nodup_map distinct otherMember member same

theorem flagSites_insertAtLoop_other (distinct : (points.map SyncPoint.order).Nodup)
    (member : point ∈ points) {index : Nat}
    (elsewhere : ∀ node, point.targetForNode = some node → node.index ≠ index)
    (loops : List Loop) (body : SyncedBody) :
    flagSites point loops (insertAtLoop points index body) = flagSites point loops body := by
  apply flagSites_fold_other
  intro other present same
  obtain ⟨inPoints, targeted⟩ := List.mem_filter.mp present
  obtain rfl := eq_of_order_eq distinct member inPoints same
  cases target : other.targetForNode with
  | none => simp [target] at targeted
  | some node => exact elsewhere node target (by simpa [target] using targeted)

theorem flagSites_insertAtLoop_target (distinct : (points.map SyncPoint.order).Nodup)
    (member : point ∈ points) (target : point.targetForNode = some node)
    {loops : List Loop} {body : SyncedBody} (fresh : flagSites point loops body = []) :
    flagSites point loops (insertAtLoop points node.index body) = [point.siteIn loops] := by
  have chosen :
      point ∈ points.filter fun other => other.targetForNode.any (·.index == node.index) := by
    simp [member, target]
  have filtered :
      ((points.filter fun other =>
        other.targetForNode.any (·.index == node.index)).map SyncPoint.order).Nodup :=
    distinct.sublist (List.filter_sublist.map _)
  obtain ⟨before, after, split⟩ := List.append_of_mem chosen
  rw [split] at filtered
  simp only [List.map_append, List.map_cons, List.nodup_append, List.nodup_cons,
    List.mem_map, List.mem_cons] at filtered
  obtain ⟨-, ⟨notAfter, -⟩, notBefore⟩ := filtered
  rw [insertAtLoop, split, List.foldl_append, List.foldl_cons, flagSites_fold_other]
  · apply flagSites_attach_self
    rw [flagSites_fold_other, fresh]
    intro other inBefore same
    exact notBefore other.order ⟨other, inBefore, rfl⟩ point.order (Or.inl rfl) same
  · intro other inAfter same
    exact notAfter ⟨other, inAfter, same⟩

theorem flagSites_insertAtCall_other (distinct : (points.map SyncPoint.order).Nodup)
    (member : point ∈ points) {curOrder : Nat}
    (elsewhere : point.targetForNode = none → point.order ≠ curOrder) (loops : List Loop)
    (call : Call) :
    flagSites point loops (insertAtCall points curOrder (.evaluate call)) = [] := by
  unfold insertAtCall
  split
  case h_1 other found =>
      obtain ⟨inPoints, matched⟩ := And.intro (List.mem_of_find?_eq_some found)
        (List.find?_some found)
      simp only [Bool.and_eq_true, beq_iff_eq, Option.isNone_iff_eq_none] at matched
      rw [flagSites_attach_other]
      · rfl
      · intro same
        obtain rfl := eq_of_order_eq distinct member inPoints same
        exact elsewhere matched.2 matched.1
  case h_2 => rfl

theorem flagSites_insertAtCall_target (distinct : (points.map SyncPoint.order).Nodup)
    (member : point ∈ points) (unplaced : point.targetForNode = none) (loops : List Loop)
    (call : Call) :
    flagSites point loops (insertAtCall points point.order (.evaluate call)) =
      [point.siteIn loops] := by
  unfold insertAtCall
  split
  case h_1 other found =>
      have inPoints := List.mem_of_find?_eq_some found
      have matched := List.find?_some found
      simp only [Bool.and_eq_true, beq_iff_eq] at matched
      obtain rfl := eq_of_order_eq distinct member inPoints matched.1
      exact flagSites_attach_self rfl
  case h_2 missing =>
      have unmatched := List.find?_eq_none.mp missing point member
      simp [unplaced] at unmatched

theorem flagSites_ifThenElse (point : SyncPoint) (loops : List Loop) (condition : Nat)
    (thenCase elseCase : SyncedBody) :
    flagSites point loops (.ifThenElse condition thenCase elseCase) =
      (flagSites point loops thenCase ++ flagSites point loops elseCase).map fun site =>
        { site with branched := true } := by
  simp only [flagSites, Stmt.sites, List.filter_map, ← List.filter_append]
  rfl

theorem flagSites_seq (point : SyncPoint) (loops : List Loop) (first rest : SyncedBody) :
    flagSites point loops (.seq first rest) =
      flagSites point loops first ++ flagSites point loops rest := by
  simp [flagSites, Stmt.sites]

theorem flagSites_insertSyncs_other (distinct : (points.map SyncPoint.order).Nodup)
    (member : point ∈ points) (loops : List Loop) (body : Body) (curOrder nextFor : Nat)
    (noCall : point.targetForNode = none →
      ¬ (curOrder < point.order ∧ point.order ≤ curOrder + body.calls))
    (noLoop : ∀ node, point.targetForNode = some node →
      ¬ (nextFor ≤ node.index ∧ node.index < nextFor + body.fors)) :
    flagSites point loops (insertSyncs points curOrder nextFor body) = [] := by
  induction body generalizing loops curOrder nextFor with
  | skip => rfl
  | evaluate call =>
    apply flagSites_insertAtCall_other distinct member
    intro unplaced same
    apply noCall unplaced
    simp only [Stmt.calls]
    omega
  | added stmt => cases stmt
  | seq first rest firstIh restIh =>
    simp only [Stmt.calls, Stmt.fors] at noCall noLoop
    rw [insertSyncs, flagSites_seq, firstIh, restIh]
    · rfl
    · intro unplaced inside
      exact noCall unplaced (by omega)
    · intro node target inside
      exact noLoop node target (by omega)
    · intro unplaced inside
      exact noCall unplaced (by omega)
    · intro node target inside
      exact noLoop node target (by omega)
  | forLoop loop body ih =>
    simp only [Stmt.calls, Stmt.fors] at noCall noLoop
    rw [insertSyncs, flagSites_insertAtLoop_other distinct member]
    · apply ih
      · exact noCall
      · intro node target inside
        exact noLoop node target (by omega)
    · intro node target same
      exact noLoop node target (by omega)
  | ifThenElse condition thenCase elseCase thenIh elseIh =>
    simp only [Stmt.calls, Stmt.fors] at noCall noLoop
    rw [insertSyncs, flagSites_ifThenElse, thenIh, elseIh]
    · rfl
    · intro unplaced inside
      exact noCall unplaced (by omega)
    · intro node target inside
      exact noLoop node target (by omega)
    · intro unplaced inside
      exact noCall unplaced (by omega)
    · intro node target inside
      exact noLoop node target (by omega)
  | scope body ih => exact ih loops curOrder nextFor noCall noLoop

theorem FoundIn.target_cases (facts : FoundIn loops body collector found)
    (earlier : ∀ node ∈ loops, node.index < collector.nextFor)
    (target : found.parentForNodes[depth]? = some node) :
    (depth < loops.length ∧ node.index < collector.nextFor) ∨
      (loops.length ≤ depth ∧ collector.nextFor ≤ node.index ∧
        node.index < collector.nextFor + body.fors) := by
  obtain ⟨inner, equal, bounds⟩ := facts.parents
  rw [equal] at target
  rcases Nat.lt_or_ge depth loops.length with outer | within
  · rw [List.getElem?_append_left outer] at target
    exact Or.inl ⟨outer, earlier node (List.mem_of_getElem? target)⟩
  · rw [List.getElem?_append_right within] at target
    exact Or.inr ⟨within, bounds node (List.mem_of_getElem? target)⟩

theorem FoundIn.mem_of_outer (facts : FoundIn loops body collector found)
    (outer : depth < loops.length) (target : found.parentForNodes[depth]? = some node) :
    node ∈ loops := by
  obtain ⟨inner, equal, -⟩ := facts.parents
  rw [equal, List.getElem?_append_left outer] at target
  exact List.mem_of_getElem? target

theorem FoundIn.flagSites_insertAtLoop (distinct : (points.map SyncPoint.order).Nodup)
    (member : point ∈ points) (target : point.targetForNode = found.parentForNodes[depth]?)
    (facts :
      FoundIn (loops ++ [⟨collector.nextFor, loop⟩]) body (collector.enterLoop loops loop) found)
    (earlier : ∀ node ∈ loops, node.index < collector.nextFor)
    {stmt : SyncedBody}
    (whole : flagSites point (loops.map ForNode.loop) stmt =
      if loops.length + 1 ≤ depth then
        [point.siteIn ((found.parentForNodes.take depth).map ForNode.loop)]
      else
        []) :
    flagSites point (loops.map ForNode.loop) (insertAtLoop points collector.nextFor stmt) =
      if loops.length ≤ depth then
        [point.siteIn ((found.parentForNodes.take depth).map ForNode.loop)]
      else
        [] := by
  have deeper : ∀ node ∈ loops ++ [⟨collector.nextFor, loop⟩],
      node.index < (collector.enterLoop loops loop).nextFor := by
    intro node present
    rcases List.mem_append.mp present with outer | here
    · exact Nat.lt_succ_of_lt (earlier node outer)
    · rw [List.mem_singleton.mp here]
      exact Nat.lt_succ_self _
  obtain ⟨inner, equal, -⟩ := facts.parents
  have isHere : found.parentForNodes[loops.length]? = some ⟨collector.nextFor, loop⟩ := by
    rw [equal]
    simp
  rcases Nat.lt_trichotomy depth loops.length with outer | atLoop | within
  · -- The target lies around this loop.
    rw [flagSites_insertAtLoop_other distinct member, whole, if_neg (by omega), if_neg (by omega)]
    intro node isTarget same
    have isOuter := target.symm.trans isTarget
    rw [equal, List.append_assoc, List.getElem?_append_left outer] at isOuter
    have earlierNode := earlier node (List.mem_of_getElem? isOuter)
    omega
  · -- The target is this loop.
    rw [atLoop, isHere] at target
    rw [if_neg (by omega)] at whole
    rw [flagSites_insertAtLoop_target distinct member target whole, if_pos (by omega),
      atLoop, equal, List.append_assoc, List.take_left']
    rfl
  · -- The target lies in the loop.
    rw [flagSites_insertAtLoop_other distinct member, whole, if_pos (by omega), if_pos (by omega)]
    intro node isTarget same
    rcases facts.target_cases deeper (target.symm.trans isTarget) with
      ⟨bound, -⟩ | ⟨-, bound, -⟩
    · simp only [List.length_append, List.length_singleton] at bound
      omega
    · simp only [Collector.enterLoop] at bound
      omega

/--
The flag of a point is placed once, in the outer loops of its copy down to the chosen depth; a
statement inside a loop that is not reached has no place for it.
-/
theorem flagSites_insertSyncs (distinct : (points.map SyncPoint.order).Nodup)
    (member : point ∈ points) (sameOrder : point.order = found.order)
    (target : point.targetForNode = found.parentForNodes[depth]?)
    (inside : depth ≤ found.parentForNodes.length) (loops : List ForNode) (body : Body)
    (collector : Collector) (collected : found ∈ newPoints loops body collector)
    (earlier : ∀ node ∈ loops, node.index < collector.nextFor)
    (free : body.branchesWithoutCopies) :
    flagSites point (loops.map ForNode.loop)
        (insertSyncs points collector.order collector.nextFor body) =
      if loops.length ≤ depth then
        [point.siteIn ((found.parentForNodes.take depth).map ForNode.loop)]
      else
        [] := by
  induction body generalizing loops collector with
  | skip => simp [newPoints, collect] at collected
  | evaluate call =>
    cases copies : workspaceCopy call with
    | none => simp [newPoints, collect, Collector.visitCall, copies] at collected
    | some copy =>
      simp only [newPoints, collect, Collector.visitCall, copies, List.nil_append,
        List.mem_singleton] at collected
      have parents : found.parentForNodes = loops := by rw [collected]
      have order : point.order = collector.order + 1 := by rw [sameOrder, collected]
      rw [parents] at target inside ⊢
      rw [insertSyncs, ← order]
      rcases Nat.lt_or_eq_of_le inside with outer | atCopy
      · rw [if_neg (Nat.not_le_of_lt outer)]
        apply flagSites_insertAtCall_other distinct member
        rw [List.getElem?_eq_getElem outer] at target
        simp [target]
      · rw [if_pos (Nat.le_of_eq atCopy.symm), atCopy, List.take_length]
        apply flagSites_insertAtCall_target distinct member
        rw [target, atCopy]
        exact List.getElem?_eq_none le_rfl
  | added stmt => cases stmt
  | seq first rest firstIh restIh =>
    simp only [Stmt.branchesWithoutCopies, Bool.and_eq_true] at free
    obtain ⟨firstOrder, firstFor, -⟩ := collect_eq loops first collector
    rw [newPoints_seq, List.mem_append] at collected
    rw [insertSyncs, flagSites_seq]
    rcases collected with inFirst | inRest
    · have facts := foundIn_of_mem inFirst
      have below := facts.orderBelow
      have elsewhere :
          flagSites point (loops.map ForNode.loop)
            (insertSyncs points (collector.order + first.calls)
              (collector.nextFor + first.fors) rest) = [] := by
        apply flagSites_insertSyncs_other distinct member
        · intro _ within
          omega
        · intro node isTarget within
          have place := facts.target_cases earlier (target.symm.trans isTarget)
          omega
      rw [elsewhere, List.append_nil]
      exact firstIh loops collector inFirst earlier free.1
    · have facts := foundIn_of_mem inRest
      have above := facts.orderAbove
      have later : ∀ node ∈ loops, node.index < (collect loops first collector).nextFor := by
        intro node present
        have bound := earlier node present
        omega
      have elsewhere :
          flagSites point (loops.map ForNode.loop)
            (insertSyncs points collector.order collector.nextFor first) = [] := by
        apply flagSites_insertSyncs_other distinct member
        · intro _ within
          omega
        · intro node isTarget within
          rcases facts.target_cases later (target.symm.trans isTarget) with outer | inner
          · have bound :=
              earlier node (facts.mem_of_outer outer.1 (target.symm.trans isTarget))
            omega
          · omega
      rw [elsewhere, List.nil_append, ← firstOrder, ← firstFor]
      exact restIh loops _ inRest later free.2
  | forLoop loop body ih =>
    rw [newPoints_forLoop] at collected
    have facts := foundIn_of_mem collected
    have deeper :
        ∀ node ∈ loops ++ [⟨collector.nextFor, loop⟩],
          node.index < (collector.enterLoop loops loop).nextFor := by
      intro node present
      rcases List.mem_append.mp present with outer | here
      · exact Nat.lt_succ_of_lt (earlier node outer)
      · rw [List.mem_singleton.mp here]
        exact Nat.lt_succ_self _
    have bodySites := ih _ (collector.enterLoop loops loop) collected deeper free
    rw [List.map_append, List.length_append, List.length_singleton] at bodySites
    rw [insertSyncs]
    exact facts.flagSites_insertAtLoop distinct member target earlier bodySites
  | ifThenElse condition thenCase elseCase thenIh elseIh =>
    simp only [Stmt.branchesWithoutCopies, Bool.and_eq_true, Bool.not_eq_true'] at free
    rw [newPoints_ifThenElse, newPoints_eq_nil free.1, newPoints_eq_nil free.2] at collected
    simp at collected
  | scope body ih => exact ih loops collector collected earlier free

theorem mem_sites_attach {loops : List Loop} {body : SyncedBody}
    (member : site ∈ (attachSyncStmt point body).sites loops) :
    site ∈ body.sites loops ∨ site = point.siteIn loops := by
  cases writes : point.isWrite with
  | true => simpa [attachSyncStmt, writes, Stmt.sites, guardedSync, SyncPoint.siteIn] using member
  | false =>
    have inside : site = point.siteIn loops ∨ site ∈ body.sites loops := by
      simpa [attachSyncStmt, writes, Stmt.sites, guardedSync, SyncPoint.siteIn] using member
    exact inside.symm

/-- Whether the flag at a site is that of one of the points. -/
def BelongsTo (points : List SyncPoint) (site : Site) : Prop :=
  ∃ point ∈ points, site.sync = ⟨point.condition?, genSyncCall point⟩

theorem belongsTo_of_mem_fold {loops : List Loop} (chosen : List SyncPoint)
    (fromPoints : ∀ point ∈ chosen, point ∈ points) (body : SyncedBody)
    (inner : ∀ site ∈ body.sites loops, BelongsTo points site) :
    ∀ site ∈ (chosen.foldl (fun attached point => attachSyncStmt point attached) body).sites
        loops,
      BelongsTo points site := by
  induction chosen generalizing body with
  | nil => exact inner
  | cons point rest ih =>
    rw [List.forall_mem_cons] at fromPoints
    apply ih fromPoints.2
    intro site member
    rcases mem_sites_attach member with inBody | isFlag
    · exact inner site inBody
    · exact ⟨point, fromPoints.1, by rw [isFlag]; rfl⟩

/-- Every inserted sync belongs to a sync point. -/
theorem belongsTo_of_mem (points : List SyncPoint) (body : Body) (loops : List Loop)
    (curOrder nextFor : Nat) :
    ∀ site ∈ (insertSyncs points curOrder nextFor body).sites loops, BelongsTo points site := by
  induction body generalizing loops curOrder nextFor with
  | skip => simp [insertSyncs, Stmt.sites]
  | evaluate call =>
    intro site member
    simp only [insertSyncs, insertAtCall] at member
    split at member
    case h_1 point chosen =>
        rcases mem_sites_attach member with inBody | isFlag
        · simp [Stmt.sites] at inBody
        · exact ⟨point, List.mem_of_find?_eq_some chosen, by rw [isFlag]; rfl⟩
    case h_2 => simp [Stmt.sites] at member
  | added stmt => cases stmt
  | seq first rest firstIh restIh =>
    intro site member
    rcases List.mem_append.mp member with inFirst | inRest
    · exact firstIh loops _ _ site inFirst
    · exact restIh loops _ _ site inRest
  | forLoop loop body ih =>
    apply belongsTo_of_mem_fold
    · intro point chosen
      exact List.mem_of_mem_filter chosen
    · exact ih (loops ++ [loop]) curOrder (nextFor + 1)
  | ifThenElse condition thenCase elseCase thenIh elseIh =>
    intro site member
    obtain ⟨original, present, rfl⟩ := List.mem_map.mp member
    rcases List.mem_append.mp present with inThen | inElse
    · exact thenIh loops _ _ original inThen
    · exact elseIh loops _ _ original inElse
  | scope body ih => exact ih loops curOrder nextFor

/-! ## Stage loops of the points -/

/-- The stage loop is one of the loops, and is a stage loop. -/
def StageIn (loops : List ForNode) (stageLoop : Option Nat) : Prop :=
  ∀ level, stageLoop = some level →
    ∃ index name extent interval, loops[level]? = some ⟨index, name, .stage extent interval⟩

theorem StageIn.append {stageLoop : Option Nat} (stage : StageIn loops stageLoop)
    (node : ForNode) : StageIn (loops ++ [node]) stageLoop := by
  intro level isStage
  obtain ⟨index, name, extent, interval, present⟩ := stage level isStage
  have bound := (List.getElem?_eq_some_iff.mp present).1
  exact ⟨index, name, extent, interval, by rw [List.getElem?_append_left bound, present]⟩

theorem StageIn.enter (stage : StageIn loops collector.currentStageLoop) (loop : Loop) :
    StageIn (loops ++ [⟨collector.nextFor, loop⟩])
      (collector.enterLoop loops loop).currentStageLoop := by
  obtain ⟨name, kind⟩ := loop
  cases kind with
  | fixed extent => exact stage.append _
  | dynamic extent => exact stage.append _
  | stage extent interval =>
    intro level isStage
    have here : loops.length = level := by
      simpa [Collector.enterLoop, Loop.isStageLoop] using isStage
    exact ⟨collector.nextFor, name, extent, interval, by simp [← here]⟩

theorem currentStageLoop_collect (loops : List ForNode) (body : Body) (collector : Collector) :
    (collect loops body collector).currentStageLoop = collector.currentStageLoop ∨
      (collect loops body collector).currentStageLoop = none := by
  induction body generalizing loops collector with
  | skip => exact Or.inl rfl
  | evaluate call =>
    cases copies : workspaceCopy call with
    | none => exact Or.inl (by simp [collect, Collector.visitCall, copies])
    | some copy => exact Or.inl (by simp [collect, Collector.visitCall, copies])
  | added stmt => cases stmt
  | seq first rest firstIh restIh =>
    rcases restIh loops (collect loops first collector) with same | left
    · rw [collect, same]
      exact firstIh loops collector
    · exact Or.inr left
  | forLoop loop body ih =>
    cases isStage : loop.isStageLoop with
    | true => exact Or.inr (by simp [collect, Collector.leaveLoop, isStage])
    | false =>
      have visited :=
        ih (loops ++ [⟨collector.nextFor, loop⟩]) (collector.enterLoop loops loop)
      simpa [collect, Collector.leaveLoop, Collector.enterLoop, isStage] using visited
  | ifThenElse condition thenCase elseCase thenIh elseIh =>
    rcases elseIh loops (collect loops thenCase collector) with same | left
    · rw [collect, same]
      exact thenIh loops collector
    · exact Or.inr left
  | scope body ih => exact ih loops collector

theorem StageIn.collect (stage : StageIn loops collector.currentStageLoop) (body : Body) :
    StageIn loops (collect loops body collector).currentStageLoop := by
  rcases currentStageLoop_collect loops body collector with same | left
  · rw [same]
    exact stage
  · intro level isStage
    rw [left] at isStage
    cases isStage

/-- A new sync point has the stage loop that it lies in, and its interval. -/
theorem stageIn_of_mem {loops : List ForNode} {body : Body} {collector : Collector}
    {point : SyncPoint} (stage : StageIn loops collector.currentStageLoop)
    (member : point ∈ newPoints loops body collector) :
    StageIn point.parentForNodes point.stageLoop ∧
      point.crossInterval = getCrossInterval point.parentForNodes point.stageLoop := by
  induction body generalizing loops collector with
  | skip => simp [newPoints, CrossCoreSync.collect] at member
  | evaluate call =>
    cases copies : workspaceCopy call with
    | none => simp [newPoints, CrossCoreSync.collect, Collector.visitCall, copies] at member
    | some copy =>
      simp only [newPoints, CrossCoreSync.collect, Collector.visitCall, copies,
        List.nil_append, List.mem_singleton] at member
      subst member
      exact ⟨stage, rfl⟩
  | added stmt => cases stmt
  | seq first rest firstIh restIh =>
    rw [newPoints_seq, List.mem_append] at member
    rcases member with inFirst | inRest
    · exact firstIh stage inFirst
    · exact restIh (stage.collect first) inRest
  | forLoop loop body ih =>
    rw [newPoints_forLoop] at member
    exact ih (stage.enter loop) member
  | ifThenElse condition thenCase elseCase thenIh elseIh =>
    rw [newPoints_ifThenElse, List.mem_append] at member
    rcases member with inThen | inElse
    · exact thenIh stage inThen
    · exact elseIh (stage.collect thenCase) inElse
  | scope body ih => exact ih stage member

end TilelangAscend.CrossCoreSync
