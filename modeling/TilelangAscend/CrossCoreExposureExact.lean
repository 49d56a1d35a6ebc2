import TilelangAscend.CrossCoreExposedReads
import TilelangAscend.RelatedLists

namespace TilelangAscend.CrossCore

open ListReach
open RelatedLists

/-!
# When the exposed-read analysis keeps its promise

A read of the range may come before the write of an element exactly when a recursion over the
statement finds it.  Where the analysis reports nothing, it has overlooked every such read.
-/

variable {surroundings : Surroundings} {target : Target} {element : Int}

/-! ## Early reads -/

section Definition

variable (surroundings : Surroundings) (target : Target) (element : Int)

/-- A read of the range in front of which an element need not be written. -/
def EarlyRead : Stmt → Prop
  | .skip => False
  | .operation op => ∃ access ∈ op.readAccesses, MayRead surroundings target access
  | .seq first rest =>
    EarlyRead first ∨ (¬ AlwaysWrites surroundings target element first ∧ EarlyRead rest)
  | .letStmt _ value body => MayReadIn surroundings target value ∨ EarlyRead body
  | .forLoop _ min extent body =>
    (MayReadIn surroundings target min ∨ MayReadIn surroundings target extent) ∨
      ((∃ count, surroundings.takes extent count ∧ 0 < count) ∧ EarlyRead body)
  | .ifThenElse condition thenCase elseCase =>
    MayReadIn surroundings target condition ∨
      ((∃ value, surroundings.takes condition value ∧ value ≠ 0) ∧ EarlyRead thenCase) ∨
        (surroundings.takes condition 0 ∧ EarlyRead elseCase)

/-- A way comes to a read of the range before an element must have been written. -/
def ReadsEarly (way : List Access) : Prop :=
  Reaches (MayRead surroundings target)
    (fun access => ¬ MustWrite surroundings target element access) way

end Definition

variable {stmt : Stmt} {way : List Access} {access : Access}

theorem overlooked_iff {counted : Prop} (silent : counted ∨ ¬ target.Reported stmt) :
    Overlooked surroundings target element stmt counted ↔
      EarlyRead surroundings target element stmt := by
  induction stmt generalizing counted with
  | skip => exact Iff.rfl
  | operation op =>
    have overlooked : target.seenRead op = false ∨ counted := by
      rcases silent with isCounted | unreported
      · exact Or.inr isCounted
      · left
        by_contra seen
        refine unreported ⟨[op], List.mem_singleton_self _, Or.inl ?_⟩
        simpa using seen
    exact and_iff_right overlooked
  | seq first rest firstIh restIh =>
    rw [reported_seq] at silent
    have firstSilent : counted ∨ ¬ target.Reported first := by tauto
    have restSilent : (counted ∨ target.Counted first) ∨ ¬ target.Reported rest := by tauto
    simp only [Overlooked, EarlyRead, firstIh firstSilent, restIh restSilent]
  | letStmt name value body ih =>
    have bodySilent : counted ∨ ¬ target.Reported body := silent
    simp only [Overlooked, EarlyRead, ih bodySilent]
  | forLoop name min extent body ih =>
    have bodySilent : counted ∨ ¬ target.Reported body := silent
    simp only [Overlooked, EarlyRead, ih bodySilent]
  | ifThenElse condition thenCase elseCase thenIh elseIh =>
    rw [reported_ifThenElse] at silent
    have thenSilent : counted ∨ ¬ target.Reported thenCase := by tauto
    have elseSilent : counted ∨ ¬ target.Reported elseCase := by tauto
    simp only [Overlooked, EarlyRead, thenIh thenSilent, elseIh elseSilent]

theorem readsEarly_expr {expr : PrimExpr} :
    ReadsEarly surroundings target element (expr.readAccesses ++ way) ↔
      MayReadIn surroundings target expr ∨ ReadsEarly surroundings target element way := by
  have passes : ∀ access ∈ expr.readAccesses, ¬ MustWrite surroundings target element access :=
    fun access member => not_mustWrite_of_read (readAccesses_isRead member)
  rw [ReadsEarly, reaches_append, reaches_iff_exists passes]
  exact or_congr Iff.rfl (and_iff_right passes)

theorem readsEarly_operation {op : Operation} :
    ReadsEarly surroundings target element (op.readAccesses ++ op.writeAccesses) ↔
      ∃ access ∈ op.readAccesses, MayRead surroundings target access := by
  have passes : ∀ access ∈ op.readAccesses, ¬ MustWrite surroundings target element access :=
    fun access member => not_mustWrite_of_read (operationReads_isRead member)
  rw [ReadsEarly, reaches_append, reaches_iff_exists passes]
  refine or_iff_left ?_
  rintro ⟨_, reaches⟩
  obtain ⟨before, access, after, isWrites, mayRead, _⟩ := reaches_iff_split.mp reaches
  have member : access ∈ op.writeAccesses := by
    rw [isWrites]
    simp
  exact not_mayRead_of_write (operationWrites_isWrite member) mayRead

theorem earlyRead_of_way (isWay : surroundings.Way stmt way)
    (early : ReadsEarly surroundings target element way) :
    EarlyRead surroundings target element stmt := by
  induction stmt generalizing way with
  | skip =>
    rw [isWay] at early
    cases early
  | operation op =>
    rw [isWay] at early
    exact readsEarly_operation.mp early
  | seq first rest firstIh restIh =>
    obtain ⟨firstWay, restWay, rfl, isFirst, isRest⟩ := isWay
    rcases reaches_append.mp early with inFirst | ⟨passes, inRest⟩
    · exact Or.inl (firstIh isFirst inFirst)
    · refine Or.inr ⟨fun always => ?_, restIh isRest inRest⟩
      obtain ⟨access, member, must⟩ := alwaysWrites_way always isFirst
      exact passes access member must
  | letStmt name value body ih =>
    obtain ⟨bodyWay, rfl, isBody⟩ := isWay
    exact (readsEarly_expr.mp early).imp_right (ih isBody)
  | forLoop name min extent body ih =>
    obtain ⟨count, trips, taken, length, areTrips, rfl⟩ := isWay
    rw [List.append_assoc, readsEarly_expr, readsEarly_expr] at early
    rcases early with inMin | inExtent | inTrips
    · exact Or.inl (Or.inl inMin)
    · exact Or.inl (Or.inr inExtent)
    · obtain ⟨trip, isTrip, inTrip⟩ := exists_reaches_of_flatten inTrips
      have some := List.length_pos_of_mem isTrip
      exact Or.inr ⟨⟨count, taken, by omega⟩, ih (areTrips trip isTrip) inTrip⟩
  | ifThenElse condition thenCase elseCase thenIh elseIh =>
    obtain ⟨value, caseWay, taken, rfl, ⟨nonzero, isThen⟩ | ⟨rfl, isElse⟩⟩ := isWay
    · refine (readsEarly_expr.mp early).imp_right fun inCase => Or.inl ?_
      exact ⟨⟨value, taken, nonzero⟩, thenIh isThen inCase⟩
    · refine (readsEarly_expr.mp early).imp_right fun inCase => Or.inr ?_
      exact ⟨taken, elseIh isElse inCase⟩

theorem exists_way_of_earlyRead (early : EarlyRead surroundings target element stmt) :
    ∃ way, surroundings.Way stmt way ∧ ReadsEarly surroundings target element way := by
  induction stmt with
  | skip => cases early
  | operation op => exact ⟨_, rfl, readsEarly_operation.mpr early⟩
  | seq first rest firstIh restIh =>
    rcases early with inFirst | ⟨notAlways, inRest⟩
    · obtain ⟨firstWay, isFirst, reaches⟩ := firstIh inFirst
      obtain ⟨restWay, isRest⟩ := @exists_way surroundings rest
      exact ⟨_, ⟨firstWay, restWay, rfl, isFirst, isRest⟩, reaches_append.mpr (Or.inl reaches)⟩
    · obtain ⟨firstWay, isFirst, avoids⟩ := exists_way_of_not_alwaysWrites notAlways
      obtain ⟨restWay, isRest, reaches⟩ := restIh inRest
      exact ⟨_, ⟨firstWay, restWay, rfl, isFirst, isRest⟩,
        reaches_append.mpr (Or.inr ⟨avoids, reaches⟩)⟩
  | letStmt name value body ih =>
    rcases early with inValue | inBody
    · obtain ⟨bodyWay, isBody⟩ := @exists_way surroundings body
      exact ⟨_, ⟨bodyWay, rfl, isBody⟩, readsEarly_expr.mpr (Or.inl inValue)⟩
    · obtain ⟨bodyWay, isBody, reaches⟩ := ih inBody
      exact ⟨_, ⟨bodyWay, rfl, isBody⟩, readsEarly_expr.mpr (Or.inr reaches)⟩
  | forLoop name min extent body ih =>
    rcases early with inHeader | ⟨⟨count, taken, positive⟩, inBody⟩
    · obtain ⟨bodyWay, isBody⟩ := @exists_way surroundings body
      obtain ⟨count, taken⟩ := surroundings.inhabited extent
      refine ⟨_, ⟨count, List.replicate count.toNat bodyWay, taken, List.length_replicate,
        fun trip member => (List.eq_of_mem_replicate member) ▸ isBody, rfl⟩, ?_⟩
      rw [List.append_assoc, readsEarly_expr, readsEarly_expr]
      exact inHeader.elim Or.inl fun inExtent => Or.inr (Or.inl inExtent)
    · obtain ⟨bodyWay, isBody, reaches⟩ := ih inBody
      -- the first trip reads early
      obtain ⟨others, isCount⟩ : ∃ others, count.toNat = others + 1 := ⟨count.toNat - 1, by omega⟩
      refine ⟨_, ⟨count, List.replicate count.toNat bodyWay, taken, List.length_replicate,
        fun trip member => (List.eq_of_mem_replicate member) ▸ isBody, rfl⟩, ?_⟩
      rw [List.append_assoc, readsEarly_expr, readsEarly_expr, isCount, List.replicate_succ,
        List.flatten_cons]
      exact Or.inr (Or.inr (reaches_append.mpr (Or.inl reaches)))
  | ifThenElse condition thenCase elseCase thenIh elseIh =>
    rcases early with inCondition | ⟨⟨value, taken, nonzero⟩, inThen⟩ | ⟨taken, inElse⟩
    · obtain ⟨way, isWay⟩ := @exists_way surroundings (.ifThenElse condition thenCase elseCase)
      obtain ⟨value, caseWay, taken, rfl, isCase⟩ := isWay
      exact ⟨_, ⟨value, caseWay, taken, rfl, isCase⟩, readsEarly_expr.mpr (Or.inl inCondition)⟩
    · obtain ⟨way, isWay, reaches⟩ := thenIh inThen
      exact ⟨_, ⟨value, way, taken, rfl, Or.inl ⟨nonzero, isWay⟩⟩,
        readsEarly_expr.mpr (Or.inr reaches)⟩
    · obtain ⟨way, isWay, reaches⟩ := elseIh inElse
      exact ⟨_, ⟨0, way, taken, rfl, Or.inr ⟨rfl, isWay⟩⟩, readsEarly_expr.mpr (Or.inr reaches)⟩

/-! ## Events -/

theorem exists_takesAll (indices : PrimExpr) : ∃ values, surroundings.takesAll indices values := by
  induction indices with
  | next head rest _ ih =>
    obtain ⟨value, taken⟩ := surroundings.inhabited head
    obtain ⟨others, areTaken⟩ := ih
    exact ⟨value :: others, value, others, rfl, taken, areTaken⟩
  | intImm _ => exact ⟨[], rfl⟩
  | var _ => exact ⟨[], rfl⟩
  | binary _ _ _ => exact ⟨[], rfl⟩
  | cast _ => exact ⟨[], rfl⟩
  | select _ _ _ => exact ⟨[], rfl⟩
  | bufferLoad _ _ => exact ⟨[], rfl⟩
  | call _ _ => exact ⟨[], rfl⟩
  | done => exact ⟨[], rfl⟩

theorem exists_spans (access : Access) : ∃ start stop, surroundings.Spans access start stop := by
  unfold Surroundings.Spans
  cases access.place with
  | element indices =>
    obtain ⟨values, taken⟩ := @exists_takesAll surroundings indices
    exact ⟨_, _, values, taken, rfl, rfl⟩
  | range offset extent =>
    obtain ⟨start, startTaken⟩ := surroundings.inhabited offset
    obtain ⟨length, lengthTaken⟩ := surroundings.inhabited extent
    exact ⟨start, _, startTaken, length, lengthTaken, rfl⟩

/-- The event of an access over a span. -/
def Access.eventAt
    (access : Access)
    (start stop : Int) :
    AccessEvent where
  isWrite := access.isWrite
  buffer := access.buffer
  start := start
  stop := stop

theorem happens_eventAt {start stop : Int} (spans : surroundings.Spans access start stop) :
    surroundings.Happens access (access.eventAt start stop) :=
  ⟨rfl, rfl, spans⟩

/-- An event writes an element of the target's buffer. -/
def WritesElement (target : Target) (element : Int) (event : AccessEvent) : Prop :=
  event.isWrite = true ∧ event.Touches target.buffer element

theorem MustWrite.writesElement (must : MustWrite surroundings target element access)
    {event : AccessEvent} (happens : surroundings.Happens access event) :
    WritesElement target element event := by
  obtain ⟨isWrite, isBuffer, covers⟩ := must
  exact ⟨happens.isWrite.trans isWrite, happens.buffer.trans isBuffer, covers _ _ happens.spans⟩

theorem exists_event_of_not_mustWrite (notMust : ¬ MustWrite surroundings target element access) :
    ∃ event, surroundings.Happens access event ∧ ¬ WritesElement target element event := by
  by_cases mayMiss :
      ∃ start stop, surroundings.Spans access start stop ∧ ¬ (start ≤ element ∧ element < stop)
  · obtain ⟨start, stop, spans, misses⟩ := mayMiss
    exact ⟨_, happens_eventAt spans, fun writes => misses writes.2.2⟩
  · push Not at mayMiss
    obtain ⟨start, stop, spans⟩ := @exists_spans surroundings access
    refine ⟨_, happens_eventAt spans, fun writes => notMust ?_⟩
    refine ⟨writes.1, writes.2.1, ?_⟩
    intro otherStart otherStop otherSpans
    exact mayMiss otherStart otherStop otherSpans

theorem exists_events (accesses : List Access) :
    ∃ events, List.Forall₂ surroundings.Happens accesses events := by
  obtain ⟨events, happen, _⟩ :
      ∃ events, List.Forall₂ surroundings.Happens accesses events ∧ ∀ event ∈ events, True :=
    exists_forall₂ fun access _ => by
      obtain ⟨start, stop, spans⟩ := @exists_spans surroundings access
      exact ⟨_, happens_eventAt spans, trivial⟩
  exact ⟨events, happen⟩

theorem exists_events_of_avoids {accesses : List Access}
    (avoids : ∀ access ∈ accesses, ¬ MustWrite surroundings target element access) :
    ∃ events,
      List.Forall₂ surroundings.Happens accesses events ∧
        ∀ event ∈ events, ¬ WritesElement target element event :=
  exists_forall₂ fun access member => exists_event_of_not_mustWrite (avoids access member)

theorem executions_write_iff :
    (∀ events, surroundings.Executes stmt events →
        ∃ write ∈ events, WritesElement target element write) ↔
      AlwaysWrites surroundings target element stmt := by
  constructor
  · intro written
    by_contra notAlways
    obtain ⟨way, isWay, avoids⟩ := exists_way_of_not_alwaysWrites notAlways
    obtain ⟨events, happen, missed⟩ := exists_events_of_avoids avoids
    obtain ⟨write, member, writes⟩ := written events ⟨way, isWay, happen⟩
    exact missed write member writes
  · rintro always events ⟨way, isWay, happen⟩
    obtain ⟨access, member, must⟩ := alwaysWrites_way always isWay
    obtain ⟨event, isEvent, happens⟩ := exists_of_mem_left happen member
    exact ⟨event, isEvent, must.writesElement happens⟩

theorem executions_covered_iff :
    (∀ before event after, surroundings.Executes stmt (before ++ event :: after) →
        event.isWrite = false →
        (∃ touched, target.Contains touched ∧ event.Touches target.buffer touched) →
        ∃ write ∈ before, WritesElement target element write) ↔
      ¬ EarlyRead surroundings target element stmt := by
  constructor
  · intro covered early
    obtain ⟨way, isWay, reaches⟩ := exists_way_of_earlyRead early
    obtain ⟨before, access, after, rfl, mayRead, avoids⟩ := reaches_iff_split.mp reaches
    obtain ⟨isRead, isBuffer, start, stop, spans, touched, inside, withinSpan⟩ := mayRead
    obtain ⟨beforeEvents, beforeHappen, missed⟩ := exists_events_of_avoids avoids
    obtain ⟨afterEvents, afterHappen⟩ := @exists_events surroundings after
    have executes : surroundings.Executes stmt
        (beforeEvents ++ access.eventAt start stop :: afterEvents) :=
      ⟨_, isWay, List.rel_append beforeHappen
        (List.Forall₂.cons (happens_eventAt spans) afterHappen)⟩
    obtain ⟨write, member, writes⟩ :=
      covered _ _ _ executes isRead ⟨touched, inside, isBuffer, withinSpan⟩
    exact missed write member writes
  · rintro notEarly before event after ⟨way, isWay, happen⟩ isRead ⟨touched, inside, touches⟩
    obtain ⟨first, access, rest, rfl, firstHappen, happens, _⟩ := exists_split happen
    by_contra unwritten
    push Not at unwritten
    refine notEarly (earlyRead_of_way isWay (reaches_iff_split.mpr
      ⟨first, access, rest, rfl, ?_, ?_⟩))
    · exact ⟨happens.isWrite.symm.trans isRead, happens.buffer.symm.trans touches.1,
        _, _, happens.spans, touched, inside, touches.2⟩
    · intro other member must
      obtain ⟨write, isWrite, writeHappens⟩ := exists_of_mem_left firstHappen member
      exact unwritten write isWrite (must.writesElement writeHappens)

/-! ## The promise -/

/--
`CheckExposedRead` keeps its promise on a statement exactly when it overlooks no read, or has
another read to report, and counts no write of the range that need not happen.
-/
theorem exposureSound_iff
    (surroundings : Surroundings)
    (target : Target)
    (stmt : Stmt) :
    ExposureSound surroundings target stmt ↔ NothingOverlooked surroundings target stmt := by
  constructor
  · intro sound
    refine ⟨?_, ?_⟩
    · by_cases reported : target.Reported stmt
      · exact Or.inl reported
      · right
        intro element inside overlooked
        refine executions_covered_iff.mp ?_ ((overlooked_iff (Or.inr reported)).mp overlooked)
        intro before event after executes isRead overlaps
        exact sound.reads ((check_exposed target stmt).mpr reported) before event after executes
          isRead overlaps element inside
    · intro counted element inside
      refine executions_write_iff.mp fun events executes => ?_
      exact sound.kills ((checkExposedRead_kill target stmt false).mpr counted) events executes
        element inside
  · intro nothing
    refine ⟨?_, ?_⟩
    · intro silent before event after executes isRead overlaps element inside
      have unreported := (check_exposed target stmt).mp silent
      have notOverlooked := nothing.reads.resolve_left unreported element inside
      rw [overlooked_iff (Or.inr unreported)] at notOverlooked
      exact executions_covered_iff.mpr notOverlooked before event after executes isRead overlaps
    · intro kills events executes element inside
      have counted := (checkExposedRead_kill target stmt false).mp kills
      exact executions_write_iff.mpr (nothing.kills counted element inside) events executes

/-! ## A load in an index -/

/-- Surroundings in which every expression but a constant may take every value. -/
def unknownValues (shape : BufferName → List Int) : Surroundings where
  shape := shape
  takes
    | .intImm number, value => value = number
    | _, _ => True
  constant := fun _ _ => Iff.rfl
  inhabited := fun expr => by
    cases expr with
    | intImm number => exact ⟨number, rfl⟩
    | _ => exact ⟨0, trivial⟩

/-- A store at a position that is loaded: `histogram[bins[0]] = 1`. -/
def scatterStore : Stmt :=
  .operation (.bufferStore "histogram"
    (.next (.bufferLoad "bins" (.next (.intImm 0) .done)) .done) (.intImm 1))

/-- The load in the index is not reported although nothing was written before it. -/
theorem scatterStore_unsound :
    ¬ ∀ (surroundings : Surroundings) (target : Target) (stmt : Stmt),
        ExposureSound surroundings target stmt := by
  intro sound
  have covered :=
    (sound (unknownValues fun _ => [16]) ⟨"bins", 0, 1⟩ scatterStore).reads (by decide)
      [] ⟨false, "bins", 0, 1⟩ [⟨true, "histogram", 3, 4⟩]
      ⟨_, rfl, List.Forall₂.cons ⟨rfl, rfl, [0], ⟨0, [], rfl, rfl, rfl⟩, rfl, rfl⟩
        (List.Forall₂.cons ⟨rfl, rfl, [3], ⟨3, [], rfl, trivial, rfl⟩, rfl, rfl⟩ List.Forall₂.nil)⟩
      rfl ⟨0, by decide, rfl, by decide, by decide⟩ 0 (by decide)
  obtain ⟨write, member, _⟩ := covered
  cases member

end TilelangAscend.CrossCore
