import TilelangAscend.CrossCoreExecutions

namespace TilelangAscend.CrossCore

open ListReach

/-!
# Soundness of the exposed-read analysis

The analysis reports what the ways with single trips show.  The executions in which an
element is read early or left unwritten are described by one recursion over the statement
each; comparing both tells when the analysis keeps its promise.
-/

variable {surroundings : Surroundings} {target : Target} {element : Int}

/-! ## What the analysis reports -/

theorem singleTrips_ne_nil (stmt : Stmt) : ∃ operations, operations ∈ stmt.singleTrips := by
  induction stmt with
  | skip => exact ⟨[], by simp [Stmt.singleTrips]⟩
  | operation op => exact ⟨[op], by simp [Stmt.singleTrips]⟩
  | seq first rest firstIh restIh =>
    obtain ⟨before, isBefore⟩ := firstIh
    obtain ⟨after, isAfter⟩ := restIh
    exact ⟨before ++ after, by
      simp only [Stmt.singleTrips, List.mem_flatMap, List.mem_map]
      exact ⟨before, isBefore, after, isAfter, rfl⟩⟩
  | letStmt name value body ih => exact ih
  | forLoop name min extent body ih => exact ih
  | ifThenElse condition thenCase elseCase thenIh elseIh =>
    obtain ⟨operations, member⟩ := thenIh
    exact ⟨operations, List.mem_append_left _ member⟩

variable {first rest thenCase elseCase stmt : Stmt} {condition : PrimExpr} {access : Access}
  {op : Operation}

theorem mem_singleTrips_seq {operations : List Operation} :
    operations ∈ (Stmt.seq first rest).singleTrips ↔
      ∃ before ∈ first.singleTrips, ∃ after ∈ rest.singleTrips, before ++ after = operations := by
  simp [Stmt.singleTrips]

theorem counted_seq :
    target.Counted (.seq first rest) ↔ target.Counted first ∨ target.Counted rest := by
  constructor
  · intro counted
    by_contra neither
    push Not at neither
    obtain ⟨notFirst, notRest⟩ := neither
    simp only [Target.Counted] at notFirst notRest
    push Not at notFirst notRest
    obtain ⟨before, isBefore, beforeFails⟩ := notFirst
    obtain ⟨after, isAfter, afterFails⟩ := notRest
    obtain ⟨op, member, isCounted⟩ :=
      counted _ (mem_singleTrips_seq.mpr ⟨before, isBefore, after, isAfter, rfl⟩)
    rcases List.mem_append.mp member with inBefore | inAfter
    · exact beforeFails op inBefore isCounted
    · exact afterFails op inAfter isCounted
  · rintro (counted | counted) operations member
    · obtain ⟨before, isBefore, after, isAfter, rfl⟩ := mem_singleTrips_seq.mp member
      obtain ⟨op, inBefore, isCounted⟩ := counted before isBefore
      exact ⟨op, List.mem_append_left _ inBefore, isCounted⟩
    · obtain ⟨before, isBefore, after, isAfter, rfl⟩ := mem_singleTrips_seq.mp member
      obtain ⟨op, inAfter, isCounted⟩ := counted after isAfter
      exact ⟨op, List.mem_append_right _ inAfter, isCounted⟩

theorem counted_ifThenElse :
    target.Counted (.ifThenElse condition thenCase elseCase) ↔
      target.Counted thenCase ∧ target.Counted elseCase := by
  simp only [Target.Counted, Stmt.singleTrips, List.forall_mem_append]

theorem reported_seq :
    target.Reported (.seq first rest) ↔
      target.Reported first ∨ (¬ target.Counted first ∧ target.Reported rest) := by
  constructor
  · rintro ⟨operations, member, reaches⟩
    obtain ⟨before, isBefore, after, isAfter, rfl⟩ := mem_singleTrips_seq.mp member
    rcases reaches_append.mp reaches with inFirst | ⟨passes, inRest⟩
    · exact Or.inl ⟨before, isBefore, inFirst⟩
    · refine Or.inr ⟨fun counted => ?_, after, isAfter, inRest⟩
      obtain ⟨op, inBefore, isCounted⟩ := counted before isBefore
      rw [passes op inBefore] at isCounted
      cases isCounted
  · rintro (⟨before, isBefore, reaches⟩ | ⟨notCounted, after, isAfter, reaches⟩)
    · obtain ⟨after, isAfter⟩ := singleTrips_ne_nil rest
      exact ⟨before ++ after, mem_singleTrips_seq.mpr ⟨before, isBefore, after, isAfter, rfl⟩,
        reaches_append.mpr (Or.inl reaches)⟩
    · simp only [Target.Counted] at notCounted
      push Not at notCounted
      obtain ⟨before, isBefore, passes⟩ := notCounted
      refine ⟨before ++ after, mem_singleTrips_seq.mpr ⟨before, isBefore, after, isAfter, rfl⟩,
        reaches_append.mpr (Or.inr ⟨?_, reaches⟩)⟩
      intro op inBefore
      simpa using passes op inBefore

theorem reported_ifThenElse :
    target.Reported (.ifThenElse condition thenCase elseCase) ↔
      target.Reported thenCase ∨ target.Reported elseCase := by
  simp only [Target.Reported, Stmt.singleTrips, List.mem_append]
  constructor
  · rintro ⟨operations, inThen | inElse, reaches⟩
    · exact Or.inl ⟨operations, inThen, reaches⟩
    · exact Or.inr ⟨operations, inElse, reaches⟩
  · rintro (⟨operations, inThen, reaches⟩ | ⟨operations, inElse, reaches⟩)
    · exact ⟨operations, Or.inl inThen, reaches⟩
    · exact ⟨operations, Or.inr inElse, reaches⟩

theorem checkExposedRead_kill (target : Target) (stmt : Stmt) (covered : Bool) :
    (checkExposedRead target.buffer (.intImm target.offset) (.intImm target.extent) stmt
      covered).2 = true ↔ target.Counted stmt := by
  induction stmt generalizing covered with
  | skip => simp [checkExposedRead, Target.Counted, Stmt.singleTrips]
  | operation op => simp [checkExposedRead, Target.Counted, Stmt.singleTrips, Target.countedWrite]
  | seq first rest firstIh restIh =>
    simp only [checkExposedRead, Bool.or_eq_true, firstIh, restIh, counted_seq]
  | letStmt name value body ih => exact ih covered
  | forLoop name min extent body ih => exact ih covered
  | ifThenElse condition thenCase elseCase thenIh elseIh =>
    rw [counted_ifThenElse, ← thenIh covered, ← elseIh covered]
    simp only [checkExposedRead, Bool.and_eq_true]

theorem checkExposedRead_exposed (target : Target) (stmt : Stmt) (covered : Bool) :
    (checkExposedRead target.buffer (.intImm target.offset) (.intImm target.extent) stmt
      covered).1 = true ↔ covered = false ∧ target.Reported stmt := by
  induction stmt generalizing covered with
  | skip => simp [checkExposedRead, Target.Reported, Stmt.singleTrips]
  | operation op =>
    simp [checkExposedRead, Target.Reported, Stmt.singleTrips, Target.seenRead, and_comm]
  | seq first rest firstIh restIh =>
    have counts := checkExposedRead_kill target first covered
    rw [reported_seq, ← counts]
    simp only [checkExposedRead, Bool.or_eq_true, firstIh, restIh, Bool.or_eq_false_iff]
    simp only [Bool.not_eq_true]
    tauto
  | letStmt name value body ih => exact ih covered
  | forLoop name min extent body ih => exact ih covered
  | ifThenElse condition thenCase elseCase thenIh elseIh =>
    rw [reported_ifThenElse]
    simp only [checkExposedRead, Bool.or_eq_true, thenIh, elseIh]
    tauto

theorem check_exposed (target : Target) (stmt : Stmt) :
    (target.check stmt).1 = false ↔ ¬ target.Reported stmt := by
  have reports := checkExposedRead_exposed target stmt false
  rw [← Bool.not_eq_true, Target.check, reports]
  simp

/-! ## Ways -/

theorem readAccesses_isRead {expr : PrimExpr} (member : access ∈ expr.readAccesses) :
    access.isWrite = false := by
  obtain ⟨load, _, rfl⟩ := List.mem_map.mp member
  rfl

theorem operationReads_isRead (member : access ∈ op.readAccesses) : access.isWrite = false := by
  cases op with
  | evaluate call =>
    obtain ⟨arg, _, inArg⟩ := List.mem_flatMap.mp member
    cases arg with
    | accessPtr buffer offset extent rwMask =>
      rcases List.mem_append.mp inArg with inExprs | inRange
      · rcases List.mem_append.mp inExprs with inOffset | inExtent
        · exact readAccesses_isRead inOffset
        · exact readAccesses_isRead inExtent
      · split at inRange
        · rw [List.mem_singleton.mp inRange]
        · cases inRange
    | handle buffer => cases inArg
    | value expr => exact readAccesses_isRead inArg
  | bufferStore buffer indices value =>
    rcases List.mem_append.mp member with inValue | inIndices
    · exact readAccesses_isRead inValue
    · exact readAccesses_isRead inIndices

theorem operationWrites_isWrite (member : access ∈ op.writeAccesses) : access.isWrite = true := by
  cases op with
  | evaluate call =>
    obtain ⟨arg, _, inArg⟩ := List.mem_flatMap.mp member
    cases arg with
    | accessPtr buffer offset extent rwMask =>
      simp only [Arg.writeAccesses] at inArg
      split at inArg
      · rw [List.mem_singleton.mp inArg]
      · cases inArg
    | handle buffer => cases inArg
    | value expr => cases inArg
  | bufferStore buffer indices value => rw [List.mem_singleton.mp member]

theorem not_mustWrite_of_read (isRead : access.isWrite = false) :
    ¬ MustWrite surroundings target element access := by
  rintro ⟨isWrite, _⟩
  rw [isRead] at isWrite
  cases isWrite

theorem not_mayRead_of_write (isWrite : access.isWrite = true) :
    ¬ MayRead surroundings target access := by
  rintro ⟨isRead, _⟩
  rw [isWrite] at isRead
  cases isRead

/-- Every statement can be executed. -/
theorem exists_way (stmt : Stmt) : ∃ way, surroundings.Way stmt way := by
  induction stmt with
  | skip => exact ⟨_, rfl⟩
  | operation op => exact ⟨_, rfl⟩
  | seq first rest firstIh restIh =>
    obtain ⟨firstWay, isFirst⟩ := firstIh
    obtain ⟨restWay, isRest⟩ := restIh
    exact ⟨_, firstWay, restWay, rfl, isFirst, isRest⟩
  | letStmt name value body ih =>
    obtain ⟨bodyWay, isBody⟩ := ih
    exact ⟨_, bodyWay, rfl, isBody⟩
  | forLoop name min extent body ih =>
    obtain ⟨bodyWay, isBody⟩ := ih
    obtain ⟨count, taken⟩ := surroundings.inhabited extent
    exact ⟨_, count, List.replicate count.toNat bodyWay, taken, List.length_replicate,
      fun trip member => (List.eq_of_mem_replicate member) ▸ isBody, rfl⟩
  | ifThenElse condition thenCase elseCase thenIh elseIh =>
    obtain ⟨value, taken⟩ := surroundings.inhabited condition
    by_cases isZero : value = 0
    · obtain ⟨way, isWay⟩ := elseIh
      exact ⟨_, value, way, taken, rfl, Or.inr ⟨isZero, isWay⟩⟩
    · obtain ⟨way, isWay⟩ := thenIh
      exact ⟨_, value, way, taken, rfl, Or.inl ⟨isZero, isWay⟩⟩

/-- What is always written is written on every way. -/
theorem alwaysWrites_way (always : AlwaysWrites surroundings target element stmt)
    {way : List Access} (isWay : surroundings.Way stmt way) :
    ∃ access ∈ way, MustWrite surroundings target element access := by
  induction stmt generalizing way with
  | skip => cases always
  | operation op =>
    obtain ⟨access, member, must⟩ := always
    rw [isWay]
    exact ⟨access, List.mem_append_right _ member, must⟩
  | seq first rest firstIh restIh =>
    obtain ⟨firstWay, restWay, rfl, isFirst, isRest⟩ := isWay
    rcases always with inFirst | inRest
    · obtain ⟨access, member, must⟩ := firstIh inFirst isFirst
      exact ⟨access, List.mem_append_left _ member, must⟩
    · obtain ⟨access, member, must⟩ := restIh inRest isRest
      exact ⟨access, List.mem_append_right _ member, must⟩
  | letStmt name value body ih =>
    obtain ⟨bodyWay, rfl, isBody⟩ := isWay
    obtain ⟨access, member, must⟩ := ih always isBody
    exact ⟨access, List.mem_append_right _ member, must⟩
  | forLoop name min extent body ih =>
    obtain ⟨count, trips, taken, length, areTrips, rfl⟩ := isWay
    obtain ⟨runs, inBody⟩ := always
    have positive := runs count taken
    obtain ⟨trip, isTrip⟩ : ∃ trip, trip ∈ trips := List.exists_mem_of_length_pos (by omega)
    obtain ⟨access, member, must⟩ := ih inBody (areTrips trip isTrip)
    exact ⟨access, List.mem_append_right _ (List.mem_flatten.mpr ⟨trip, isTrip, member⟩), must⟩
  | ifThenElse condition thenCase elseCase thenIh elseIh =>
    obtain ⟨value, caseWay, taken, rfl, ⟨nonzero, isThen⟩ | ⟨rfl, isElse⟩⟩ := isWay
    · obtain ⟨access, member, must⟩ := thenIh (always.1 ⟨value, taken, nonzero⟩) isThen
      exact ⟨access, List.mem_append_right _ member, must⟩
    · obtain ⟨access, member, must⟩ := elseIh (always.2 taken) isElse
      exact ⟨access, List.mem_append_right _ member, must⟩

/-- What is not always written is left out on some way. -/
theorem exists_way_of_not_alwaysWrites
    (notAlways : ¬ AlwaysWrites surroundings target element stmt) :
    ∃ way,
      surroundings.Way stmt way ∧
        ∀ access ∈ way, ¬ MustWrite surroundings target element access := by
  have readsFirst {expr : PrimExpr} {way : List Access}
      (avoids : ∀ access ∈ way, ¬ MustWrite surroundings target element access) :
      ∀ access ∈ expr.readAccesses ++ way, ¬ MustWrite surroundings target element access := by
    refine List.forall_mem_append.mpr ⟨?_, avoids⟩
    exact fun access member => not_mustWrite_of_read (readAccesses_isRead member)
  induction stmt with
  | skip => exact ⟨[], rfl, by simp⟩
  | operation op =>
    refine ⟨_, rfl, List.forall_mem_append.mpr ⟨?_, ?_⟩⟩
    · exact fun access member => not_mustWrite_of_read (operationReads_isRead member)
    · exact fun access member must => notAlways ⟨access, member, must⟩
  | seq first rest firstIh restIh =>
    rw [AlwaysWrites, not_or] at notAlways
    obtain ⟨firstWay, isFirst, firstAvoids⟩ := firstIh notAlways.1
    obtain ⟨restWay, isRest, restAvoids⟩ := restIh notAlways.2
    exact ⟨_, ⟨firstWay, restWay, rfl, isFirst, isRest⟩,
      List.forall_mem_append.mpr ⟨firstAvoids, restAvoids⟩⟩
  | letStmt name value body ih =>
    obtain ⟨bodyWay, isBody, avoids⟩ := ih notAlways
    exact ⟨_, ⟨bodyWay, rfl, isBody⟩, readsFirst avoids⟩
  | forLoop name min extent body ih =>
    by_cases runs : ∀ count, surroundings.takes extent count → 0 < count
    · have bodyNot : ¬ AlwaysWrites surroundings target element body :=
        fun always => notAlways ⟨runs, always⟩
      obtain ⟨bodyWay, isBody, avoids⟩ := ih bodyNot
      obtain ⟨count, taken⟩ := surroundings.inhabited extent
      refine ⟨_, ⟨count, List.replicate count.toNat bodyWay, taken, List.length_replicate,
        fun trip member => (List.eq_of_mem_replicate member) ▸ isBody, rfl⟩, ?_⟩
      rw [List.append_assoc]
      refine readsFirst (readsFirst ?_)
      intro access member
      obtain ⟨trip, isTrip, inTrip⟩ := List.mem_flatten.mp member
      exact avoids access ((List.eq_of_mem_replicate isTrip) ▸ inTrip)
    · push Not at runs
      obtain ⟨count, taken, empty⟩ := runs
      refine ⟨_, ⟨count, [], taken, by simp; omega, by simp, rfl⟩, ?_⟩
      rw [List.append_assoc]
      exact readsFirst (readsFirst (by simp))
  | ifThenElse condition thenCase elseCase thenIh elseIh =>
    rw [AlwaysWrites, not_and_or] at notAlways
    rcases notAlways with notThen | notElse
    · push Not at notThen
      obtain ⟨⟨value, taken, nonzero⟩, thenNot⟩ := notThen
      obtain ⟨way, isWay, avoids⟩ := thenIh thenNot
      exact ⟨_, ⟨value, way, taken, rfl, Or.inl ⟨nonzero, isWay⟩⟩, readsFirst avoids⟩
    · push Not at notElse
      obtain ⟨taken, elseNot⟩ := notElse
      obtain ⟨way, isWay, avoids⟩ := elseIh elseNot
      exact ⟨_, ⟨0, way, taken, rfl, Or.inr ⟨rfl, isWay⟩⟩, readsFirst avoids⟩

end TilelangAscend.CrossCore
