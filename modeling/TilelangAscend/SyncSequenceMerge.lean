import Mathlib.Data.List.Chain
import Mathlib.Data.List.Infix
import TilelangAscend.CommonSupersequence
import TilelangAscend.LoopRebuild

namespace TilelangAscend.SyncSequence

open CommonSupersequence

/-!
# Merging synchronization sequences

`MergeSyncSequences` of `LoopRebuilder` on the statements themselves.  Each sequence is cut into
units, a set with its wait or a single statement, and the unit sequences are merged into a
shortest common supersequence.  Cutting the merged statements again gives the same units unless
an unpaired set of one sequence comes to stand before a matching wait of the other.
-/

variable {α : Type} [DecidableEq α]

/-! ## Statements -/

/-- An argument of a call: a string immediate or another expression. -/
inductive Argument (α : Type) where
  | text (value : String)
  | expr (value : α)
  deriving Repr, DecidableEq

/-- The operator of a call, as far as the merge looks at it. -/
inductive Operator where
  | callExtern
  | ascendAutoBarrier
  | ascendAutoSetFlag
  | ascendAutoWaitFlag
  | other (name : String)
  deriving Repr, DecidableEq

/-- `Evaluate` of a call. -/
structure CallStatement (α : Type) where
  op : Operator
  args : List (Argument α)
  deriving Repr, DecidableEq

namespace CallStatement

/-- The name of the called external function. -/
def functionName (stmt : CallStatement α) : Option String :=
  match stmt.args with
  | .text name :: _ => some name
  | _ => none

/-- Two argument lists agree at a position. -/
def sameArgument (first second : CallStatement α) (position : Nat) : Bool :=
  first.args[position]? = second.args[position]?

/-- Two argument lists have one string at a position; an expression there matches nothing. -/
def sameText (first second : CallStatement α) (position : Nat) : Bool :=
  match first.args[position]?, second.args[position]? with
  | some (.text value), some (.text other) => value = other
  | _, _ => false

end CallStatement

open CallStatement

/-- `find` of `std::string` succeeds. -/
def contains (name part : String) : Bool :=
  part.toList <:+: name.toList

/-- The arguments of a set and a wait agree, past `offset` arguments before them. -/
def sameEvent (set wait : CallStatement α) (offset : Nat) : Bool :=
  set.args.length = offset + 2 ∧ wait.args.length = offset + 2 ∧
    sameArgument set wait offset ∧ sameArgument set wait (offset + 1)

/-- `IsMatchingEventPair`: a set flag and the wait for it. -/
def isMatchingEventPair (set wait : CallStatement α) : Bool :=
  match set.op, wait.op with
  | .callExtern, .callExtern =>
    match set.functionName, wait.functionName with
    | some setName, some waitName =>
      contains setName "AutoSetFlag" ∧ contains waitName "AutoWaitFlag" ∧ sameEvent set wait 1
    | _, _ => false
  | .ascendAutoSetFlag, .ascendAutoWaitFlag => sameEvent set wait 0
  | _, _ => false

/-- `IsSyncStatement`: the pass inserted the statement. -/
def isSyncStatement (stmt : CallStatement α) : Bool :=
  match stmt.op with
  | .callExtern =>
    match stmt.functionName with
    | some name =>
      contains name "AutoBarrier" ∨ contains name "AutoSetFlag" ∨ contains name "AutoWaitFlag"
    | none => false
  | .ascendAutoBarrier | .ascendAutoSetFlag | .ascendAutoWaitFlag => true
  | .other _ => false

/-- Two statements have as many arguments, and one string at a position. -/
def sameTextWithin (first second : CallStatement α) (size position : Nat) : Bool :=
  size ≤ first.args.length ∧ size ≤ second.args.length ∧ sameText first second position

/-- `IsSameSyncOperation`: the same barrier, or a flag of the same event type. -/
def isSameSyncOperation (first second : CallStatement α) : Bool :=
  if isSyncStatement first ∧ isSyncStatement second then
    match first.op, second.op with
    | .callExtern, .callExtern =>
      match first.functionName, second.functionName with
      | some name, some otherName =>
        if name ≠ otherName then
          false
        else if contains name "AutoBarrier" then
          sameTextWithin first second 2 1
        else if contains name "AutoSetFlag" ∨ contains name "AutoWaitFlag" then
          sameTextWithin first second 3 1
        else
          first = second
      | _, _ => false
    | .ascendAutoBarrier, .ascendAutoBarrier => sameTextWithin first second 1 0
    | .ascendAutoSetFlag, .ascendAutoSetFlag => sameTextWithin first second 2 0
    | .ascendAutoWaitFlag, .ascendAutoWaitFlag => sameTextWithin first second 2 0
    | firstOp, secondOp => if firstOp = secondOp then first = second else false
  else
    false

/-! ## Units -/

/-- What the merge keeps together: a set with its wait, or a single statement. -/
inductive SyncUnit (α : Type) where
  | single (stmt : CallStatement α)
  | pair (set wait : CallStatement α)
  deriving Repr, DecidableEq

namespace SyncUnit

/-- The first statement of a unit. -/
def head : SyncUnit α → CallStatement α
  | .single stmt => stmt
  | .pair set _ => set

/-- The statements of a unit. -/
def stmts : SyncUnit α → List (CallStatement α)
  | .single stmt => [stmt]
  | .pair set wait => [set, wait]

/-- A pair is a set with its wait. -/
def Formed : SyncUnit α → Prop
  | .single _ => True
  | .pair set wait => isMatchingEventPair set wait = true

end SyncUnit

/-- Cut a sequence into units, from its start. -/
def group : List (CallStatement α) → List (SyncUnit α)
  | [] => []
  | [stmt] => [.single stmt]
  | stmt :: next :: rest =>
    if isMatchingEventPair stmt next then
      .pair stmt next :: group rest
    else
      .single stmt :: group (next :: rest)

/-- Units that the merge takes for one: renumbered pairs, and equal single statements. -/
def sameUnit : SyncUnit α → SyncUnit α → Bool
  | .single stmt, .single other => stmt = other
  | .pair set wait, .pair otherSet otherWait =>
    isSameSyncOperation set otherSet ∧ isSameSyncOperation wait otherWait
  | _, _ => false

/-- The statements of a sequence of units. -/
def ungroup (units : List (SyncUnit α)) : List (CallStatement α) :=
  units.flatMap SyncUnit.stmts

/-- `MergeSyncSequences`. -/
def mergeSyncSequences (first second : List (CallStatement α)) : List (CallStatement α) :=
  ungroup (merge sameUnit (group first) (group second))

/-! ## Cutting -/

section Equations

variable (unit : SyncUnit α) (stmt next : CallStatement α) (units : List (SyncUnit α))
  (rest : List (CallStatement α))

theorem group_of_pair (isPair : isMatchingEventPair stmt next = true) :
    group (stmt :: next :: rest) = .pair stmt next :: group rest :=
  if_pos isPair

theorem group_of_parted (parted : isMatchingEventPair stmt next = false) :
    group (stmt :: next :: rest) = .single stmt :: group (next :: rest) :=
  if_neg (Bool.eq_false_iff.mp parted)

omit [DecidableEq α] in
theorem ungroup_cons : ungroup (unit :: units) = unit.stmts ++ ungroup units :=
  rfl

omit [DecidableEq α] in
theorem SyncUnit.stmts_eq_cons : unit.stmts = unit.head :: unit.stmts.tail := by
  cases unit <;> rfl

end Equations

variable {unit : SyncUnit α} {stmt : CallStatement α} {units left right merged : List (SyncUnit α)}

theorem formed_of_mem_group {stmts : List (CallStatement α)}
    (member : unit ∈ group stmts) : unit.Formed := by
  fun_induction group with
  | case1 => cases member
  | case2 stmt =>
    rw [List.mem_singleton.mp member]
    trivial
  | case3 stmt next rest isPair ih =>
    rcases List.mem_cons.mp member with rfl | later
    · exact isPair
    · exact ih later
  | case4 stmt next rest isPair ih =>
    rcases List.mem_cons.mp member with rfl | later
    · trivial
    · exact ih later

/-- A unit does not end in a set for which the next unit starts with the wait. -/
def Parted (unit next : SyncUnit α) : Prop :=
  ∀ stmt, unit = .single stmt → isMatchingEventPair stmt next.head = false

/-- No two neighbours in a sequence of units would be cut as one pair. -/
def Separate (units : List (SyncUnit α)) : Prop :=
  List.IsChain Parted units

theorem head_of_mem_head_group {rest : List (CallStatement α)}
    (first : unit ∈ (group (stmt :: rest)).head?) : unit.head = stmt := by
  cases rest with
  | nil =>
    rw [← Option.some.inj first]
    rfl
  | cons next rest =>
    unfold group at first
    split at first
    all_goals
      rw [← Option.some.inj first]
      rfl

theorem separate_group (stmts : List (CallStatement α)) : Separate (group stmts) := by
  fun_induction group with
  | case1 => exact List.isChain_nil
  | case2 stmt => exact List.isChain_singleton _
  | case3 stmt next rest isPair ih =>
    apply List.IsChain.cons ih
    intro _ _ _ isSingle
    cases isSingle
  | case4 stmt next rest isPair ih =>
    apply List.IsChain.cons ih
    intro unit first _ isSingle
    cases isSingle
    rw [head_of_mem_head_group first]
    exact Bool.eq_false_iff.mpr isPair

theorem group_ungroup (formed : ∀ unit ∈ units, unit.Formed) (separate : Separate units) :
    group (ungroup units) = units := by
  induction units with
  | nil => rfl
  | cons unit rest ih =>
    have restCut := ih (fun other member =>
      formed other (List.mem_cons_of_mem _ member)) separate.tail
    cases unit with
    | pair set wait =>
      have isPair : isMatchingEventPair set wait = true := formed _ List.mem_cons_self
      change group (set :: wait :: ungroup rest) = _
      rw [group_of_pair _ _ _ isPair, restCut]
    | single stmt =>
      cases rest with
      | nil => rfl
      | cons next others =>
        have parted : isMatchingEventPair stmt next.head = false :=
          (List.isChain_cons_cons.mp separate).1 stmt rfl
        change group (stmt :: ungroup (next :: others)) = _
        rw [ungroup_cons, next.stmts_eq_cons, List.cons_append, group_of_parted _ _ _ parted,
          ← List.cons_append, ← next.stmts_eq_cons, ← ungroup_cons, restCut]

/-! ## The merged sequence -/

/-- A shortest sequence of units that holds two others in order, and nothing else. -/
structure IsShortestMerge (left right merged : List (SyncUnit α)) : Prop where
  keepsLeft : List.Sublist left merged
  keepsRight :
    List.SublistForall₂ (fun other unit => unit = other ∨ sameUnit unit other = true) right merged
  nothingElse : ∀ unit ∈ merged, unit ∈ left ∨ unit ∈ right
  pairs : ∀ set wait, .pair set wait ∈ merged →
    isMatchingEventPair set wait = true ∧ [set, wait] <:+: ungroup merged
  size : ∃ common, IsLongestCommon sameUnit left right common ∧
    merged.length + common = left.length + right.length

/-- No single statement of one sequence is a set for which a unit of the other is the wait. -/
def Apart (left right : List (SyncUnit α)) : Prop :=
  ∀ stmt, .single stmt ∈ left → ∀ unit ∈ right, isMatchingEventPair stmt unit.head = false

omit [DecidableEq α] in
theorem infix_of_mem (member : unit ∈ units) : unit.stmts <:+: ungroup units := by
  obtain ⟨before, after, rfl⟩ := List.append_of_mem member
  refine ⟨ungroup before, ungroup after, ?_⟩
  simp [ungroup, List.append_assoc]

theorem head_of_interleaves (interleaves : Interleaves sameUnit left right merged)
    (first : unit ∈ merged.head?) : unit ∈ left.head? ∨ unit ∈ right.head? := by
  cases interleaves with
  | nil => cases first
  | both _ _ => exact Or.inl first
  | left _ => exact Or.inl first
  | right _ => exact Or.inr first

theorem eq_single_of_sameUnit {other : SyncUnit α}
    (isSame : sameUnit (.single stmt) other = true) : other = .single stmt := by
  cases other with
  | single otherStmt => exact congrArg SyncUnit.single (of_decide_eq_true isSame).symm
  | pair _ _ => cases isSame

theorem separate_of_interleaves (interleaves : Interleaves sameUnit left right merged)
    (leftSeparate : Separate left) (rightSeparate : Separate right)
    (leftApart : Apart left right) (rightApart : Apart right left) : Separate merged := by
  induction interleaves with
  | nil => exact leftSeparate
  | @both unit other left right merged isSame rest ih =>
    have restSeparate := ih leftSeparate.tail rightSeparate.tail
      (fun stmt member next later => leftApart stmt (List.mem_cons_of_mem _ member) next
        (List.mem_cons_of_mem _ later))
      (fun stmt member next later => rightApart stmt (List.mem_cons_of_mem _ member) next
        (List.mem_cons_of_mem _ later))
    apply List.IsChain.cons restSeparate
    rintro next first stmt rfl
    rcases head_of_interleaves rest first with fromLeft | fromRight
    · exact (List.isChain_cons.mp leftSeparate).1 next fromLeft stmt rfl
    · exact (List.isChain_cons.mp rightSeparate).1 next fromRight stmt
        (eq_single_of_sameUnit isSame)
  | @left unit left right merged rest ih =>
    have restSeparate := ih leftSeparate.tail rightSeparate
      (fun stmt member => leftApart stmt (List.mem_cons_of_mem _ member))
      (fun stmt member next later => rightApart stmt member next (List.mem_cons_of_mem _ later))
    apply List.IsChain.cons restSeparate
    rintro next first stmt rfl
    rcases head_of_interleaves rest first with fromLeft | fromRight
    · exact (List.isChain_cons.mp leftSeparate).1 next fromLeft stmt rfl
    · exact leftApart stmt List.mem_cons_self next (List.mem_of_mem_head? fromRight)
  | @right other left right merged rest ih =>
    have restSeparate := ih leftSeparate rightSeparate.tail
      (fun stmt member next later => leftApart stmt member next (List.mem_cons_of_mem _ later))
      (fun stmt member => rightApart stmt (List.mem_cons_of_mem _ member))
    apply List.IsChain.cons restSeparate
    rintro next first stmt rfl
    rcases head_of_interleaves rest first with fromLeft | fromRight
    · exact rightApart stmt List.mem_cons_self next (List.mem_of_mem_head? fromLeft)
    · exact (List.isChain_cons.mp rightSeparate).1 next fromRight stmt rfl

theorem isShortestMerge_merge (first second : List (CallStatement α)) :
    IsShortestMerge (group first) (group second) (merge sameUnit (group first) (group second)) := by
  have interleaves := merge_interleaves sameUnit (group first) (group second)
  refine ⟨interleaves.sublist_left, interleaves.sublist_right, fun _ => interleaves.mem_or_mem,
    ?_, _, isLongestCommon_commonLength sameUnit (group first) (group second),
    length_merge sameUnit (group first) (group second)⟩
  intro set wait member
  have formed : (SyncUnit.pair set wait).Formed := by
    rcases interleaves.mem_or_mem member with fromFirst | fromSecond
    · exact formed_of_mem_group fromFirst
    · exact formed_of_mem_group fromSecond
  exact ⟨formed, infix_of_mem member⟩

/--
The merged statements are a shortest merge of the two unit sequences.  They are cut into just
these units if no unpaired set of one sequence matches the wait that starts a unit of the other.
-/
theorem mergeSyncSequences_isShortestMerge
    (first second : List (CallStatement α)) :
    ∃ units,
      ungroup units = mergeSyncSequences first second ∧
        IsShortestMerge (group first) (group second) units ∧
        (Apart (group first) (group second) → Apart (group second) (group first) →
          group (mergeSyncSequences first second) = units) := by
  refine ⟨_, rfl, isShortestMerge_merge first second, ?_⟩
  intro firstApart secondApart
  have interleaves := merge_interleaves sameUnit (group first) (group second)
  apply group_ungroup
  · intro unit member
    rcases interleaves.mem_or_mem member with fromFirst | fromSecond
    · exact formed_of_mem_group fromFirst
    · exact formed_of_mem_group fromSecond
  · exact separate_of_interleaves interleaves (separate_group first) (separate_group second)
      firstApart secondApart

/-- A set of one sequence and the wait for it in the other are cut as one unit. -/
theorem splitPair_notShortestMerge :
    let set : CallStatement Nat := ⟨.ascendAutoSetFlag, [.text "MTE2_V", .expr 0]⟩
    let wait : CallStatement Nat := ⟨.ascendAutoWaitFlag, [.text "MTE2_V", .expr 0]⟩
    ¬ IsShortestMerge (group [set]) (group [wait]) (group (mergeSyncSequences [set] [wait])) := by
  intro set wait shortest
  exact absurd shortest.keepsLeft (by decide)

/-! ## Units of the pass -/

/-- The type of an event between two pipelines. -/
def eventType (source target : SyncInsert.Pipeline) : String :=
  source.name ++ "_" ++ target.name

/-- `CreatePipeBarrier`. -/
def createPipeBarrier (pipeline : String) : CallStatement Nat :=
  ⟨.ascendAutoBarrier, [.text pipeline]⟩

/-- `CreateSetFlag`. -/
def createSetFlag (event : String) (eventId : Nat) : CallStatement Nat :=
  ⟨.ascendAutoSetFlag, [.text event, .expr eventId]⟩

/-- `CreateWaitFlag`. -/
def createWaitFlag (event : String) (eventId : Nat) : CallStatement Nat :=
  ⟨.ascendAutoWaitFlag, [.text event, .expr eventId]⟩

/-- What `InsertSynchronization` emits for a unit. -/
def emit : SyncInsert.SyncUnit → SyncUnit Nat
  | .barrierAll => .single (createPipeBarrier "PIPE_ALL")
  | .barrier pipe => .single (createPipeBarrier ("PIPE_" ++ pipe.name))
  | .eventPair source target eventId =>
    .pair (createSetFlag (eventType source target) eventId)
      (createWaitFlag (eventType source target) eventId)

theorem name_inj {first second : SyncInsert.Pipeline}
    (sameName : first.name = second.name) : first = second := by
  cases first <;> cases second <;> first | rfl | exact absurd sameName (by decide)

theorem name_ne_all (pipe : SyncInsert.Pipeline) : "PIPE_" ++ pipe.name ≠ "PIPE_ALL" := by
  cases pipe <;> decide

theorem eventType_inj {source target otherSource otherTarget : SyncInsert.Pipeline}
    (sameType : eventType source target = eventType otherSource otherTarget) :
    source = otherSource ∧ target = otherTarget := by
  have noSeparator (pipe : SyncInsert.Pipeline) : '_' ∉ pipe.name.toList := by
    cases pipe <;> decide
  have characters : source.name.toList ++ '_' :: target.name.toList =
      otherSource.name.toList ++ '_' :: otherTarget.name.toList := by
    simpa [eventType] using congrArg String.toList sameType
  have parts := (List.append_cons_inj_of_notMem (noSeparator source) (noSeparator target)).mp
    characters
  exact ⟨name_inj (String.toList_inj.mp parts.1), name_inj (String.toList_inj.mp parts.2.2)⟩

theorem sameUnit_emit (unit other : SyncInsert.SyncUnit) :
    sameUnit (emit unit) (emit other) = SyncInsert.sameSync unit other := by
  rw [Bool.eq_iff_iff]
  cases unit with
  | barrierAll =>
    cases other with
    | barrierAll => simp [emit, sameUnit, SyncInsert.sameSync]
    | barrier pipe =>
      simp [emit, sameUnit, SyncInsert.sameSync, createPipeBarrier, (name_ne_all pipe).symm]
    | eventPair _ _ _ => simp [emit, sameUnit, SyncInsert.sameSync]
  | barrier pipe =>
    cases other with
    | barrierAll => simp [emit, sameUnit, SyncInsert.sameSync, createPipeBarrier, name_ne_all pipe]
    | barrier otherPipe =>
      simp only [emit, sameUnit, SyncInsert.sameSync, createPipeBarrier, decide_eq_true_eq]
      constructor
      · intro isSame
        apply name_inj
        simpa using isSame
      · rintro rfl
        rfl
    | eventPair _ _ _ => simp [emit, sameUnit, SyncInsert.sameSync]
  | eventPair source target eventId =>
    cases other with
    | barrierAll => simp [emit, sameUnit, SyncInsert.sameSync]
    | barrier _ => simp [emit, sameUnit, SyncInsert.sameSync]
    | eventPair otherSource otherTarget otherId =>
      have sameType : sameUnit (emit (.eventPair source target eventId))
          (emit (.eventPair otherSource otherTarget otherId)) = true ↔
            eventType source target = eventType otherSource otherTarget := by
        simp [emit, sameUnit, isSameSyncOperation, isSyncStatement, createSetFlag,
          createWaitFlag, sameTextWithin, sameText]
      rw [sameType]
      simp only [SyncInsert.sameSync, decide_eq_true_eq]
      constructor
      · exact eventType_inj
      · rintro ⟨rfl, rfl⟩
        rfl

/-- The sequence of statements emitted for units. -/
def emitAll (units : List SyncInsert.SyncUnit) : List (CallStatement Nat) :=
  ungroup (units.map emit)

theorem group_emitAll (units : List SyncInsert.SyncUnit) :
    group (emitAll units) = units.map emit := by
  apply group_ungroup
  · intro unit member
    obtain ⟨source, _, rfl⟩ := List.mem_map.mp member
    cases source with
    | barrierAll => trivial
    | barrier _ => trivial
    | eventPair source target eventId =>
      simp [emit, SyncUnit.Formed, isMatchingEventPair, sameEvent, sameArgument, createSetFlag,
        createWaitFlag]
  · -- a single emitted statement is a barrier
    have parted (unit : SyncInsert.SyncUnit) (next : SyncUnit Nat) : Parted (emit unit) next := by
      intro stmt isSingle
      cases unit with
      | barrierAll =>
        cases isSingle
        rfl
      | barrier _ =>
        cases isSingle
        rfl
      | eventPair _ _ _ => cases isSingle
    induction units with
    | nil => exact List.isChain_nil
    | cons unit rest ih => exact ih.cons fun next _ => parted unit next

theorem merge_sameSync (first second : List SyncInsert.SyncUnit) :
    SyncInsert.mergeSyncSequences first second = merge SyncInsert.sameSync first second := by
  have rows (unit : SyncInsert.SyncUnit) (below : List SyncInsert.SyncUnit → Nat)
      (right : List SyncInsert.SyncUnit) :
      SyncInsert.commonRow unit below right = commonRow SyncInsert.sameSync unit below right := by
    induction right with
    | nil => rfl
    | cons other right ih => rw [SyncInsert.commonRow, commonRow, ih]
  have tables (left right : List SyncInsert.SyncUnit) :
      SyncInsert.common left right = commonLength SyncInsert.sameSync left right := by
    induction left generalizing right with
    | nil => rfl
    | cons unit left ih => rw [SyncInsert.common, commonLength, rows, funext ih]
  induction first generalizing second with
  | nil => rfl
  | cons unit left leftIh =>
    change SyncInsert.mergeRow unit left (SyncInsert.mergeSyncSequences left) second =
      mergeRow SyncInsert.sameSync unit left (merge SyncInsert.sameSync left) second
    rw [funext leftIh]
    induction second with
    | nil => rfl
    | cons other right rightIh =>
      rw [SyncInsert.mergeRow, mergeRow, rightIh, tables, tables]

theorem mergeSyncSequences_emitAll (first second : List SyncInsert.SyncUnit) :
    mergeSyncSequences (emitAll first) (emitAll second) =
      emitAll (SyncInsert.mergeSyncSequences first second) := by
  rw [mergeSyncSequences, group_emitAll, group_emitAll, merge_map emit sameUnit_emit,
    merge_sameSync, emitAll]

end TilelangAscend.SyncSequence
