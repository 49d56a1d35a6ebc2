import TilelangAscend.OutstandingAccesses

namespace TilelangAscend.SyncInsert

open AbsorbingTransfer
open Outstanding

/-!
# Safe sequences order their hazards

The set of outstanding accesses describes the past of an execution: every access is retired by
a full barrier, or an ordered chain of conflicting operations leads from it to an access of the
set.  Synchronization and operations keep this, so in a safe sequence every hazard is ordered.
-/

/-- What is really known of an access of an execution. -/
def actualAccess
    (context : PassContext)
    (execution : List Event)
    (position : Nat)
    (op : Operation)
    (touch : Touch) :
    Outstanding where
  bufferName := touch.bufferName
  pipeline := op.pipeline context.table
  isWrite := touch.isWrite
  reached := {pipe | Handoff (op.pipeline context.table) (execution.drop (position + 1)) pipe}
  drained := .barrier (op.pipeline context.table) ∈ execution.drop (position + 1)

/--
A set of outstanding accesses accounts for a touched buffer: a later operation, reached over
ordered conflicts, stands for it, writing the buffer or touching it in the same way.
-/
structure Represented
    (context : PassContext)
    (exempt : Pipeline → Prop)
    (execution : List Event)
    (state : OutstandingSet)
    (position : Nat)
    (touch : Touch) where
  last : Nat
  op : Operation
  lastTouch : Touch
  chain : Relation.ReflTransGen (OrderedStep context exempt execution) position last
  isLast : execution[last]? = some (.operation op)
  touched : lastTouch ∈ op.touches context.table
  sameBuffer : lastTouch.bufferName = touch.bufferName
  standsFor : lastTouch.isWrite = true ∨ lastTouch.isWrite = touch.isWrite
  member : actualAccess context execution last op lastTouch ∈ state

/-- A set of outstanding accesses accounts for everything an execution touched. -/
def Covers (context : PassContext) (exempt : Pipeline → Prop) (state : OutstandingSet)
    (execution : List Event) : Prop :=
  ∀ position op, execution[position]? = some (.operation op) →
    ∀ touch ∈ op.touches context.table,
      .barrierAll ∈ execution.drop (position + 1) ∨
        Nonempty (Represented context exempt execution state position touch)

section Soundness

variable {context : PassContext} {exempt : Pipeline → Prop} {state : OutstandingSet}
  {execution : List Event} {larger : OutstandingSet} {position : Nat} {touch : Touch}
  {op next : Operation} {pipeline : Pipeline} {touches : List Touch} {block : Block}

theorem Covers.mono (covers : Covers context exempt state execution)
    (included : state ≤ larger) : Covers context exempt larger execution := by
  intro position op isOperation touch touched
  rcases covers position op isOperation touch touched with retired | found
  · exact Or.inl retired
  · obtain ⟨represented⟩ := found
    exact Or.inr (Nonempty.intro { represented with member := included represented.member })

theorem lt_length_of_getElem? {event : Event}
    (found : execution[position]? = some event) : position < execution.length :=
  (List.getElem?_eq_some_iff.mp found).1

theorem actualAccess_append_le (inside : position < execution.length) (later : List Event) :
    actualAccess context (execution ++ later) position op touch ≤
      actualAccess context execution position op touch := by
  have suffix : (execution ++ later).drop (position + 1) = execution.drop (position + 1) ++ later :=
    List.drop_append_of_le_length inside
  refine ⟨rfl, rfl, rfl, ?_, ?_⟩
  · intro pipe reached
    simp only [actualAccess, Set.mem_ofPred_eq, suffix] at reached ⊢
    exact reached.append later
  · intro drained
    simp only [actualAccess, suffix] at drained ⊢
    exact List.mem_append_left _ drained

/-- A representative stays one when the execution grows. -/
def Represented.append
    {position : Nat}
    {touch : Touch}
    (represented : Represented context exempt execution state position touch)
    (later : List Event) :
    Represented context exempt (execution ++ later) state position touch where
  last := represented.last
  op := represented.op
  lastTouch := represented.lastTouch
  chain :=
    Relation.ReflTransGen.mono (fun _ _ step => OrderedStep.append step later) _ _ represented.chain
  isLast := by
    rw [List.getElem?_append_left (lt_length_of_getElem? represented.isLast)]
    exact represented.isLast
  touched := represented.touched
  sameBuffer := represented.sameBuffer
  standsFor := represented.standsFor
  member :=
    state.lower (actualAccess_append_le (lt_length_of_getElem? represented.isLast) later)
      represented.member

theorem covers_nil : Covers context exempt ⊥ [] := by
  intro position op isOperation
  simp at isOperation

/-! ## Synchronization -/

theorem actualAccess_advance {unit : SyncUnit} {after : Outstanding}
    (inside : position < execution.length)
    (advanced : advance unit (actualAccess context execution position op touch) = some after) :
    actualAccess context (execution ++ unit.events) position op touch ≤ after := by
  have suffix :
      (execution ++ unit.events).drop (position + 1) =
        execution.drop (position + 1) ++ unit.events :=
    List.drop_append_of_le_length inside
  cases unit with
  | barrierAll =>
    cases advanced
  | barrier pipe =>
    cases advanced
    refine ⟨rfl, rfl, rfl, ?_, ?_⟩
    · intro other reached
      simp only [actualAccess, Set.mem_ofPred_eq, suffix] at reached ⊢
      exact reached.append _
    · simp only [actualAccess, suffix]
      rintro (drained | samePipe)
      · exact List.mem_append_left _ drained
      · refine List.mem_append_right _ ?_
        rw [samePipe]
        exact List.mem_singleton_self _
  | eventPair source target eventId =>
    cases advanced
    refine ⟨rfl, rfl, rfl, ?_, ?_⟩
    · rintro other (reached | ⟨sourceReached, rfl⟩)
      · simp only [actualAccess, Set.mem_ofPred_eq, suffix] at reached ⊢
        exact reached.append _
      · simp only [actualAccess, Set.mem_ofPred_eq, suffix] at sourceReached ⊢
        exact .pair other eventId sourceReached
    · simp only [actualAccess, suffix]
      exact fun drained => List.mem_append_left _ drained

theorem Covers.unit (covers : Covers context exempt state execution) (unit : SyncUnit) :
    Covers context exempt (transferUnit unit state) (execution ++ unit.events) := by
  intro position op isOperation touch touched
  have inside : position < execution.length := by
    by_contra outside
    rw [List.getElem?_append_right (by omega)] at isOperation
    have member := List.mem_of_getElem? isOperation
    cases unit <;> simp [SyncUnit.events] at member
  rw [List.getElem?_append_left inside] at isOperation
  have suffix :
      (execution ++ unit.events).drop (position + 1) =
        execution.drop (position + 1) ++ unit.events :=
    List.drop_append_of_le_length inside
  rcases covers position op isOperation touch touched with retired | found
  · rw [suffix]
    exact Or.inl (List.mem_append_left _ retired)
  · obtain ⟨represented⟩ := found
    cases advanced :
        advance unit
          (actualAccess context execution represented.last represented.op
            represented.lastTouch) with
    | none =>
      -- only a full barrier retires an access
      cases unit with
      | barrierAll =>
        rw [suffix]
        exact Or.inl (List.mem_append_right _ (List.mem_singleton_self _))
      | barrier pipe =>
        cases advanced
      | eventPair source target eventId =>
        cases advanced
    | some after =>
      have lastInside := lt_length_of_getElem? represented.isLast
      refine Or.inr (Nonempty.intro { represented.append unit.events with member := ?_ })
      exact mem_rewrite represented.member advanced (actualAccess_advance lastInside advanced)

theorem Covers.syncs (covers : Covers context exempt state execution) (syncs : List SyncUnit) :
    Covers context exempt (transferSyncs syncs state) (execution ++ syncEvents syncs) := by
  induction syncs generalizing state execution with
  | nil => simpa [syncEvents, transferSyncs] using covers
  | cons unit rest ih =>
    have later := ih (covers.unit unit)
    simpa [syncEvents, transferSyncs] using later

theorem HazardsOrdered.syncs (ordered : HazardsOrdered context exempt execution)
    (syncs : List SyncUnit) : HazardsOrdered context exempt (execution ++ syncEvents syncs) := by
  intro first second firstOp secondOp before firstAt secondAt conflict
  have inside : second < execution.length := by
    by_contra outside
    rw [List.getElem?_append_right (by omega)] at secondAt
    have member := List.mem_of_getElem? secondAt
    simp only [syncEvents, List.mem_flatMap] at member
    obtain ⟨unit, _, isEvent⟩ := member
    cases unit <;> simp [SyncUnit.events] at isEvent
  rw [List.getElem?_append_left inside] at secondAt
  rw [List.getElem?_append_left (before.trans inside)] at firstAt
  exact Relation.TransGen.mono (fun _ _ step => OrderedStep.append step _) _ _
    (ordered first second firstOp secondOp before firstAt secondAt conflict)

/-! ## Operations -/

theorem mem_recordTouches {access : Outstanding} (member : access ∈ state)
    (ownReached : access.pipeline ∈ access.reached)
    (kept : ∀ touch ∈ touches, touch.isWrite = true → touch.bufferName ≠ access.bufferName) :
    access ∈ recordTouches pipeline touches state := by
  induction touches generalizing state with
  | nil => exact member
  | cons touch rest ih =>
    refine ih ?_ fun other inRest => kept other (List.mem_cons_of_mem _ inRest)
    by_cases superseded : Superseded pipeline touch access
    · -- only a read on the same pipeline replaces it, and knows less
      obtain ⟨sameName, reason⟩ := superseded
      have notWrite : touch.isWrite ≠ true := fun isWrite =>
        kept touch List.mem_cons_self isWrite sameName.symm
      obtain ⟨isRead, samePipe⟩ := reason.resolve_left notWrite
      refine mem_rewrite_added (Set.mem_singleton _) ⟨sameName, samePipe, ?_, ?_, ?_⟩
      · rw [isRead]
        simpa [fresh] using notWrite
      · simpa [fresh, ← samePipe] using ownReached
      · exact False.elim
    · exact mem_rewrite member (if_neg superseded) le_rfl

theorem fresh_mem_recordTouches (touched : fresh pipeline touch ∈ state ∨ touch ∈ touches)
    (lasting :
      touch.isWrite = true ∨
        ∀ other ∈ touches, other.isWrite = true → other.bufferName ≠ touch.bufferName) :
    fresh pipeline touch ∈ recordTouches pipeline touches state := by
  induction touches generalizing state with
  | nil => exact touched.resolve_right List.not_mem_nil
  | cons head rest ih =>
    have restLasting :
        touch.isWrite = true ∨
          ∀ other ∈ rest, other.isWrite = true → other.bufferName ≠ touch.bufferName :=
      lasting.imp_right fun kept other inRest => kept other (List.mem_cons_of_mem _ inRest)
    refine ih ?_ restLasting
    by_cases inRest : touch ∈ rest
    · exact Or.inr inRest
    · left
      by_cases isHead : touch = head
      · subst isHead
        exact mem_rewrite_added (Set.mem_singleton _) le_rfl
      · have recorded : fresh pipeline touch ∈ state :=
          touched.resolve_right fun member => (List.mem_cons.mp member).elim isHead inRest
        by_cases superseded : Superseded pipeline head (fresh pipeline touch)
        · have sameName : touch.bufferName = head.bufferName := superseded.1
          have sameKind : touch.isWrite = head.isWrite := by
            rcases lasting with isWrite | kept
            · rcases superseded.2 with headWrites | ⟨isRead, _⟩
              · rw [isWrite, headWrites]
              · rw [show touch.isWrite = false from isRead] at isWrite
                cases isWrite
            · have headReads : head.isWrite ≠ true := fun headWrites =>
                kept head List.mem_cons_self headWrites sameName.symm
              obtain ⟨isRead, _⟩ := superseded.2.resolve_left headReads
              rw [show touch.isWrite = false from isRead]
              simpa using headReads
          refine mem_rewrite_added (Set.mem_singleton _) ?_
          exact ⟨sameName, rfl, sameKind, subset_rfl, id⟩
        · exact mem_rewrite recorded (if_neg superseded) le_rfl

theorem directlyOrdered_of_satisfied
    (satisfied :
      Satisfied exempt (actualAccess context execution position op touch)
        (next.pipeline context.table)) :
    DirectlyOrdered exempt (execution.drop (position + 1)) (op.pipeline context.table)
      (next.pipeline context.table) := by
  unfold Satisfied at satisfied
  split at satisfied
  · rename_i samePipe
    rw [← samePipe] at satisfied ⊢
    rcases satisfied with isExempt | drained
    · exact .exempt isExempt
    · exact .barrier drained
  · rename_i otherPipe
    exact .handoff otherPipe satisfied

theorem Covers.orders (covers : Covers context exempt state execution)
    (safe : SafeAt context exempt next state)
    (isOperation : execution[position]? = some (.operation op)) {other : Touch}
    (touched : touch ∈ op.touches context.table)
    (otherTouched : other ∈ next.touches context.table)
    (conflict : TouchesConflict context.plan touch other) :
    Relation.TransGen (OrderedStep context exempt (execution ++ [.operation next])) position
      execution.length := by
  have isNext : (execution ++ [.operation next])[execution.length]? = some (.operation next) := by
    simp
  rcases covers position op isOperation touch touched with retired | found
  · have inside := lt_length_of_getElem? isOperation
    refine .single ⟨inside, op, next, ?_, isNext, ⟨touch, touched, other, otherTouched, conflict⟩,
      ?_⟩
    · rwa [List.getElem?_append_left inside]
    · rw [between_length]
      exact .barrierAll retired
  · obtain ⟨represented⟩ := found
    have inside := lt_length_of_getElem? represented.isLast
    have overlaps : context.plan.Overlaps represented.lastTouch.bufferName other.bufferName := by
      rw [represented.sameBuffer]
      exact conflict.1
    have oneWrites : represented.lastTouch.isWrite = true ∨ other.isWrite = true := by
      rcases represented.standsFor with isWrite | sameKind
      · exact Or.inl isWrite
      · rw [sameKind]
        exact conflict.2
    have satisfied := safe _ represented.member other otherTouched overlaps oneWrites
    refine Relation.TransGen.tail'
      (Relation.ReflTransGen.mono (fun _ _ step => OrderedStep.append step _) _ _
        represented.chain) ?_
    refine ⟨inside, represented.op, next, ?_, isNext,
      ⟨represented.lastTouch, represented.touched, other, otherTouched, overlaps, oneWrites⟩, ?_⟩
    · rw [List.getElem?_append_left inside]
      exact represented.isLast
    · rw [between_length]
      exact directlyOrdered_of_satisfied satisfied

theorem HazardsOrdered.operation (ordered : HazardsOrdered context exempt execution)
    (covers : Covers context exempt state execution) {next : Operation}
    (safe : SafeAt context exempt next state) :
    HazardsOrdered context exempt (execution ++ [.operation next]) := by
  intro first second firstOp secondOp before firstAt secondAt conflict
  by_cases inside : second < execution.length
  · rw [List.getElem?_append_left inside] at secondAt
    rw [List.getElem?_append_left (before.trans inside)] at firstAt
    exact Relation.TransGen.mono (fun _ _ step => OrderedStep.append step _) _ _
      (ordered first second firstOp secondOp before firstAt secondAt conflict)
  · have isLast : second = execution.length := by
      have bounded := lt_length_of_getElem? secondAt
      rw [List.length_append, List.length_singleton] at bounded
      omega
    subst isLast
    rw [List.getElem?_append_left before] at firstAt
    have isNext : next = secondOp := by
      simpa using secondAt
    subst isNext
    obtain ⟨touch, touched, other, otherTouched, touchesConflict⟩ := conflict
    exact covers.orders safe firstAt touched otherTouched touchesConflict

/-- The operation just made stands for what it is ordered after. -/
def representedByNext
    {next : Operation}
    {position : Nat}
    {touch own : Touch}
    (chain :
      Relation.ReflTransGen (OrderedStep context exempt (execution ++ [.operation next]))
        position execution.length)
    (touched : own ∈ next.touches context.table)
    (sameBuffer : own.bufferName = touch.bufferName)
    (standsFor : own.isWrite = true ∨ own.isWrite = touch.isWrite)
    (lasting :
      own.isWrite = true ∨
        ∀ other ∈ next.touches context.table,
          other.isWrite = true → other.bufferName ≠ own.bufferName) :
    Represented context exempt (execution ++ [.operation next])
      (recordOperation context next state) position touch where
  last := execution.length
  op := next
  lastTouch := own
  chain := chain
  isLast := by simp
  touched := touched
  sameBuffer := sameBuffer
  standsFor := standsFor
  member := by
    refine (recordOperation context next state).lower ?_
      (fresh_mem_recordTouches (Or.inr touched) lasting)
    refine ⟨rfl, rfl, rfl, ?_, False.elim⟩
    rintro pipe rfl
    simpa [actualAccess] using Handoff.start

theorem Covers.operation (covers : Covers context exempt state execution)
    {next : Operation} (safe : SafeAt context exempt next state) :
    Covers context exempt (recordOperation context next state)
      (execution ++ [.operation next]) := by
  intro position op isOperation touch touched
  by_cases overwritten :
      ∃ own ∈ next.touches context.table, own.bufferName = touch.bufferName ∧ own.isWrite = true
  · -- the operation writes the buffer and stands for every access to it
    obtain ⟨own, ownTouched, sameBuffer, isWrite⟩ := overwritten
    have chain :
        Relation.ReflTransGen (OrderedStep context exempt (execution ++ [.operation next]))
          position execution.length := by
      by_cases inside : position < execution.length
      · rw [List.getElem?_append_left inside] at isOperation
        exact (covers.orders safe isOperation touched ownTouched
          ⟨Or.inl sameBuffer.symm, Or.inr isWrite⟩).to_reflTransGen
      · have isLast : position = execution.length := by
          have bounded := lt_length_of_getElem? isOperation
          rw [List.length_append, List.length_singleton] at bounded
          omega
        rw [isLast]
    exact Or.inr (Nonempty.intro
      (representedByNext chain ownTouched sameBuffer (Or.inl isWrite) (Or.inl isWrite)))
  · have kept :
        ∀ own ∈ next.touches context.table,
          own.isWrite = true → own.bufferName ≠ touch.bufferName :=
      fun own ownTouched isWrite sameBuffer => overwritten ⟨own, ownTouched, sameBuffer, isWrite⟩
    by_cases inside : position < execution.length
    · rw [List.getElem?_append_left inside] at isOperation
      rcases covers position op isOperation touch touched with retired | found
      · rw [List.drop_append_of_le_length inside]
        exact Or.inl (List.mem_append_left _ retired)
      · obtain ⟨represented⟩ := found
        have later := represented.append [.operation next]
        refine Or.inr (Nonempty.intro { later with member := ?_ })
        refine mem_recordTouches later.member ?_ ?_
        · exact Handoff.start.append _
        · intro own ownTouched isWrite sameBuffer
          exact kept own ownTouched isWrite (sameBuffer.trans later.sameBuffer)
    · have isLast : position = execution.length := by
        have bounded := lt_length_of_getElem? isOperation
        rw [List.length_append, List.length_singleton] at bounded
        omega
      subst isLast
      have isNext : next = op := by
        simpa using isOperation
      subst isNext
      exact Or.inr (Nonempty.intro (representedByNext .refl touched rfl (Or.inr rfl) (Or.inr kept)))

/-! ## Sequences -/

/-- An execution whose hazards are ordered and whose accesses are accounted for. -/
structure Accounted
    (context : PassContext)
    (exempt : Pipeline → Prop)
    (state : OutstandingSet)
    (execution : List Event) :
    Prop where
  ordered : HazardsOrdered context exempt execution
  covers : Covers context exempt state execution

theorem Accounted.mono (accounted : Accounted context exempt state execution)
    (included : state ≤ larger) : Accounted context exempt larger execution :=
  ⟨accounted.ordered, accounted.covers.mono included⟩

/-- Inserted syncs advance what is accounted for. -/
theorem Accounted.syncs (accounted : Accounted context exempt state execution)
    (syncs : List SyncUnit) :
    Accounted context exempt (transferSyncs syncs state) (execution ++ syncEvents syncs) :=
  ⟨accounted.ordered.syncs syncs, accounted.covers.syncs syncs⟩

/-- The rounds of a loop keep what is accounted for. -/
theorem Accounted.rounds {body : Block}
    (bodyKeeps :
      ∀ {state execution} {round : List Event}, Safe context exempt body state →
        Accounted context exempt state execution →
        Executes context.analyzer body round →
        Accounted context exempt (transfer context body state) (execution ++ round))
    (accounted : Accounted context exempt (transfer context body state) execution)
    (safe : Safe context exempt body (transfer context body state))
    {rounds : List (List Event)}
    (execute : ∀ round ∈ rounds, Executes context.analyzer body round) :
    Accounted context exempt (transfer context body state) (execution ++ rounds.flatten) := by
  induction rounds generalizing execution with
  | nil => simpa using accounted
  | cons round rest ih =>
    have once := bodyKeeps safe accounted (execute round List.mem_cons_self)
    have again := once.mono ((transfer_absorbing context body).twice_le state)
    have later := ih again fun other inRest => execute other (List.mem_cons_of_mem _ inRest)
    simpa [List.append_assoc] using later

/-- An execution of a safe block keeps what is accounted for. -/
theorem Safe.accounted {events : List Event} (safe : Safe context exempt block state)
    (accounted : Accounted context exempt state execution)
    (executes : Executes context.analyzer block events) :
    Accounted context exempt (transfer context block state) (execution ++ events) := by
  induction block generalizing state execution events with
  | stop syncs =>
    rw [show events = syncEvents syncs from executes]
    exact accounted.syncs syncs
  | operation syncs op rest restKeeps =>
    obtain ⟨later, restExecutes, rfl⟩ := executes
    have before := accounted.syncs syncs
    have after :
        Accounted context exempt (recordOperation context op (transferSyncs syncs state))
          (execution ++ syncEvents syncs ++ [.operation op]) :=
      ⟨before.ordered.operation before.covers safe.1, before.covers.operation safe.1⟩
    simpa [transfer, List.append_assoc] using restKeeps safe.2 after restExecutes
  | letStmt syncs value body rest bodyKeeps restKeeps =>
    obtain ⟨inner, later, bodyExecutes, restExecutes, rfl⟩ := executes
    have inside := bodyKeeps safe.1 (accounted.syncs syncs) bodyExecutes
    simpa [transfer, List.append_assoc] using restKeeps safe.2 inside restExecutes
  | ifThenElse syncs condition thenCase elseCase rest thenKeeps elseKeeps restKeeps =>
    obtain ⟨inner, later, branchExecutes, restExecutes, rfl⟩ := executes
    have before := accounted.syncs syncs
    have inside :
        Accounted context exempt
          (transfer context thenCase (transferSyncs syncs state) ⊔
            transfer context elseCase (transferSyncs syncs state))
          (execution ++ syncEvents syncs ++ inner) := by
      rcases branchExecutes with thenExecutes | elseExecutes
      · exact (thenKeeps safe.1 before thenExecutes).mono le_sup_left
      · exact (elseKeeps safe.2.1 before elseExecutes).mono le_sup_right
    simpa [transfer, List.append_assoc] using restKeeps safe.2.2 inside restExecutes
  | forLoop syncs extent body rest bodyKeeps restKeeps =>
    obtain ⟨rounds, later, atLeastOnce, roundsExecute, restExecutes, rfl⟩ := executes
    have before := accounted.syncs syncs
    have inside :
        Accounted context exempt
          (loopExit context extent (transferSyncs syncs state)
            (transfer context body (transferSyncs syncs state)))
          (execution ++ syncEvents syncs ++ rounds.flatten) := by
      cases rounds with
      | nil =>
        have mayBeEmpty : context.analyzer.provesPositive extent ≠ true :=
          fun positive => atLeastOnce positive rfl
        rw [loopExit, if_neg mayBeEmpty]
        simpa using before.mono le_sup_left
      | cons round others =>
        have once := bodyKeeps safe.1 before (roundsExecute round List.mem_cons_self)
        have all :=
          once.rounds bodyKeeps safe.2.1 fun other inOthers =>
            roundsExecute other (List.mem_cons_of_mem _ inOthers)
        have bounded :
            transfer context body (transferSyncs syncs state) ≤
              loopExit context extent (transferSyncs syncs state)
                (transfer context body (transferSyncs syncs state)) := by
          unfold loopExit
          split
          · exact le_rfl
          · exact le_sup_right
        simpa [List.append_assoc] using all.mono bounded
    simpa [transfer, List.append_assoc] using restKeeps safe.2.2 inside restExecutes
  | unrolledLoop syncs extent first second rest firstKeeps secondKeeps restKeeps =>
    obtain ⟨firstRound, secondRound, later, firstExecutes, secondExecutes, restExecutes, rfl⟩ :=
      executes
    have afterFirst := firstKeeps safe.1 (accounted.syncs syncs) firstExecutes
    have afterSecond := secondKeeps safe.2.1 afterFirst secondExecutes
    simpa [transfer, List.append_assoc] using restKeeps safe.2.2 afterSecond restExecutes

/-- Every execution of a safe block has its hazards ordered. -/
theorem Safe.hazardsOrdered (safe : Safe context exempt block ⊥)
    (executes : Executes context.analyzer block execution) :
    HazardsOrdered context exempt execution := by
  have initial : Accounted context exempt ⊥ [] := by
    refine ⟨?_, covers_nil⟩
    intro first second firstOp secondOp _ firstAt
    simp at firstAt
  exact (safe.accounted initial executes).ordered

end Soundness

end TilelangAscend.SyncInsert
