import TilelangAscend.AllocatorLookups

namespace TilelangAscend.MemoryPlanning

/-!
# When the allocator finds every annotated buffer

A look-up is made only for an annotated buffer, and the first buffer without an annotation that
fits somewhere looks the annotated ones up in the order of their map.  As this order is not fixed,
all of them must be found.
-/

/-! ## One check for conflicts -/

section Conflicts

variable {bufferMap : Buffer → Option LiveInterval} {offset : UInt64} {current : LiveInterval}
  {preAllocated : List (Buffer × Int)}

theorem annotated_of_mem_conflictLookups {buffer : Buffer}
    (lookedUp : buffer ∈ conflictLookups bufferMap offset current preAllocated) :
    buffer ∈ preAllocated.map Prod.fst := by
  induction preAllocated with
  | nil =>
    cases lookedUp
  | cons annotated rest ih =>
    obtain ⟨other, address⟩ := annotated
    rw [conflictLookups] at lookedUp
    rcases List.mem_cons.mp lookedUp with same | later
    · exact List.mem_cons.mpr (.inl same)
    · right
      split at later
      · cases later
      · split at later
        · cases later
        · exact ih later

theorem first_mem_conflictLookups (first : Buffer × Int) :
    first.1 ∈ conflictLookups bufferMap offset current (first :: preAllocated) :=
  List.mem_cons_self

theorem checkConflictFrom_eq_error {failure : PlanError}
    (failed : Scope.checkConflictFrom bufferMap offset current preAllocated = .error failure) :
    ∃ buffer, failure = .missingBuffer buffer ∧ bufferMap buffer = none ∧
      buffer ∈ conflictLookups bufferMap offset current preAllocated := by
  induction preAllocated with
  | nil =>
    cases failed
  | cons annotated rest ih =>
    obtain ⟨buffer, address⟩ := annotated
    rw [Scope.checkConflictFrom] at failed
    rw [conflictLookups]
    cases found : bufferMap buffer with
    | none =>
      rw [found] at failed
      exact ⟨buffer, (Except.error.inj failed).symm, found, List.mem_cons_self⟩
    | some preInterval =>
      simp only [found] at failed ⊢
      by_cases conflicts : Scope.conflictsWith offset current preInterval address = true
      · rw [if_pos conflicts] at failed
        cases failed
      · rw [if_neg conflicts] at failed ⊢
        obtain ⟨missing, isMissing, noEntry, lookedUp⟩ := ih failed
        exact ⟨missing, isMissing, noEntry, List.mem_cons_of_mem _ lookedUp⟩

end Conflicts

/-! ## Free blocks -/

section Blocks

variable {scope : Scope} {current : LiveInterval} {block : FreeBlock} {buffer : Buffer}
  {failure : PlanError} {blocks : List FreeBlock}

theorem annotated_of_mem_offsetLookups (lookedUp : buffer ∈ scope.offsetLookups current block) :
    buffer ∈ scope.preAllocated.map Prod.fst := by
  unfold Scope.offsetLookups at lookedUp
  split at lookedUp
  · exact annotated_of_mem_conflictLookups lookedUp
  · cases lookedUp

theorem offsetIn_of_not_hasRoom {block : FreeBlock} (noRoom : ¬ block.hasRoom current) :
    scope.offsetIn current block = .ok none ∧ scope.offsetLookups current block = [] :=
  ⟨if_neg noRoom, if_neg noRoom⟩

theorem offsetIn_eq_error (failed : scope.offsetIn current block = .error failure) :
    ∃ buffer, failure = .missingBuffer buffer ∧ scope.bufferMap buffer = none ∧
      buffer ∈ scope.offsetLookups current block := by
  by_cases room : block.hasRoom current
  · unfold Scope.offsetIn at failed
    rw [Scope.offsetLookups, if_pos room]
    dsimp only at failed
    rw [if_pos (show _ ∧ _ from room)] at failed
    cases checked : scope.checkConflict (alignUp block.first 32) current with
    | error other =>
      rw [checked] at failed
      obtain rfl := Except.error.inj failed
      exact checkConflictFrom_eq_error checked
    | ok conflicts =>
      rw [checked] at failed
      cases conflicts with
      | true => cases failed
      | false => cases failed
  · rw [(offsetIn_of_not_hasRoom room).1] at failed
    cases failed

theorem annotated_of_mem_firstFitLookups
    (lookedUp : buffer ∈ scope.firstFitLookups current blocks) :
    buffer ∈ scope.preAllocated.map Prod.fst := by
  induction blocks with
  | nil =>
    cases lookedUp
  | cons block rest ih =>
    rw [Scope.firstFitLookups] at lookedUp
    rcases List.mem_append.mp lookedUp with here | later
    · exact annotated_of_mem_offsetLookups here
    · split at later
      · exact ih later
      · cases later

theorem firstFit_of_noRoom (scope : Scope) (noRoom : ∀ block ∈ blocks, ¬ block.hasRoom current) :
    scope.firstFit current blocks = .ok none ∧ scope.firstFitLookups current blocks = [] := by
  induction blocks with
  | nil => exact ⟨rfl, rfl⟩
  | cons block rest ih =>
    obtain ⟨passed, noLookups⟩ := @offsetIn_of_not_hasRoom scope current block
      (noRoom block List.mem_cons_self)
    obtain ⟨restPassed, restLookups⟩ := ih fun other member =>
      noRoom other (List.mem_cons_of_mem _ member)
    rw [Scope.firstFit, Scope.firstFitLookups, passed, noLookups]
    exact ⟨restPassed, restLookups⟩

theorem first_mem_firstFitLookups {first : Buffer × Int} {rest : List (Buffer × Int)}
    (order : scope.preAllocated = first :: rest) (room : ∃ block ∈ blocks, block.hasRoom current) :
    first.1 ∈ scope.firstFitLookups current blocks := by
  induction blocks with
  | nil =>
    obtain ⟨_, member, _⟩ := room
    cases member
  | cons block others ih =>
    rw [Scope.firstFitLookups]
    by_cases here : block.hasRoom current
    · refine List.mem_append_left _ ?_
      rw [Scope.offsetLookups, if_pos here, order]
      exact first_mem_conflictLookups first
    · refine List.mem_append_right _ ?_
      rw [(offsetIn_of_not_hasRoom here).1]
      obtain ⟨other, member, otherRoom⟩ := room
      rcases List.mem_cons.mp member with rfl | inOthers
      · exact absurd otherRoom here
      · exact ih ⟨other, inOthers, otherRoom⟩

theorem firstFit_eq_error (failed : scope.firstFit current blocks = .error failure) :
    ∃ buffer, failure = .missingBuffer buffer ∧ scope.bufferMap buffer = none ∧
      buffer ∈ scope.firstFitLookups current blocks := by
  induction blocks with
  | nil =>
    cases failed
  | cons block rest ih =>
    rw [Scope.firstFit] at failed
    rw [Scope.firstFitLookups]
    cases tried : scope.offsetIn current block with
    | error other =>
      rw [tried] at failed
      obtain rfl := Except.error.inj failed
      obtain ⟨buffer, isMissing, noEntry, lookedUp⟩ := offsetIn_eq_error tried
      exact ⟨buffer, isMissing, noEntry, List.mem_append_left _ lookedUp⟩
    | ok outcome =>
      rw [tried] at failed
      cases outcome with
      | some offset =>
        cases failed
      | none =>
        obtain ⟨buffer, isMissing, noEntry, lookedUp⟩ := ih failed
        exact ⟨buffer, isMissing, noEntry, List.mem_append_right _ lookedUp⟩

end Blocks

/-! ## Reused blocks -/

section Reuse

variable {scope : Scope} {current : LiveInterval} {freeBlocks : List FreeBlock}
  {nextNewOffset : UInt64}

theorem findReusableBlock_of_firstFit_none
    (passed : scope.firstFit current (sortBlocks freeBlocks) = .ok none) :
    scope.findReusableBlock current freeBlocks nextNewOffset =
      match Scope.extendedBlock scope.memoryLimit (sortBlocks freeBlocks) nextNewOffset with
      | none => .ok none
      | some extended =>
        match scope.offsetIn current extended with
        | .error failure => .error failure
        | .ok none => .ok none
        | .ok (some offset) =>
          .ok (some ⟨offset, (sortBlocks freeBlocks).dropLast ++ [extended],
            scope.memoryLimit⟩) := by
  unfold Scope.findReusableBlock Scope.extendedBlock
  simp only [passed]
  cases (sortBlocks freeBlocks).getLast? with
  | none => rfl
  | some lastBlock =>
    dsimp only [Option.bind_some]
    by_cases adjacent : lastBlock.first + lastBlock.second = nextNewOffset
    · cases found : scope.offsetIn current
          ⟨lastBlock.first, scope.memoryLimit - lastBlock.first⟩ with
      | error failure => simp only [if_pos adjacent, found]
      | ok offered => cases offered <;> simp only [if_pos adjacent, found]
    · simp only [if_neg adjacent]

theorem annotated_of_mem_reuseLookups {buffer : Buffer}
    (lookedUp : buffer ∈ scope.reuseLookups current freeBlocks nextNewOffset) :
    buffer ∈ scope.preAllocated.map Prod.fst := by
  rcases List.mem_append.mp lookedUp with inBlocks | inLast
  · exact annotated_of_mem_firstFitLookups inBlocks
  · split at inLast
    · split at inLast
      · exact annotated_of_mem_offsetLookups inLast
      · cases inLast
    · cases inLast

theorem findReusableBlock_eq_error {failure : PlanError}
    (failed : scope.findReusableBlock current freeBlocks nextNewOffset = .error failure) :
    ∃ buffer, failure = .missingBuffer buffer ∧ scope.bufferMap buffer = none ∧
      buffer ∈ scope.reuseLookups current freeBlocks nextNewOffset := by
  cases tried : scope.firstFit current (sortBlocks freeBlocks) with
  | error other =>
    unfold Scope.findReusableBlock at failed
    simp only [tried] at failed
    obtain rfl := Except.error.inj failed
    obtain ⟨buffer, isMissing, noEntry, lookedUp⟩ := firstFit_eq_error tried
    exact ⟨buffer, isMissing, noEntry, List.mem_append_left _ lookedUp⟩
  | ok outcome =>
    cases outcome with
    | some offset =>
      unfold Scope.findReusableBlock at failed
      simp only [tried] at failed
      cases failed
    | none =>
      rw [findReusableBlock_of_firstFit_none tried] at failed
      split at failed
      · cases failed
      · rename_i extended isExtended
        split at failed
        · rename_i other threw
          obtain rfl := Except.error.inj failed
          obtain ⟨buffer, isMissing, noEntry, lookedUp⟩ := offsetIn_eq_error threw
          refine ⟨buffer, isMissing, noEntry, List.mem_append_right _ ?_⟩
          simp only [tried, isExtended]
          exact lookedUp
        · cases failed
        · cases failed

theorem reuse_of_noRoom (noBlock : ∀ block ∈ sortBlocks freeBlocks, ¬ block.hasRoom current)
    (noExtended :
      ∀ extended ∈ Scope.extendedBlock scope.memoryLimit (sortBlocks freeBlocks) nextNewOffset,
        ¬ extended.hasRoom current) :
    scope.findReusableBlock current freeBlocks nextNewOffset = .ok none ∧
      scope.reuseLookups current freeBlocks nextNewOffset = [] := by
  obtain ⟨passed, noLookups⟩ := firstFit_of_noRoom scope noBlock
  rw [findReusableBlock_of_firstFit_none passed]
  unfold Scope.reuseLookups
  simp only [passed, noLookups, List.nil_append]
  cases isExtended :
      Scope.extendedBlock scope.memoryLimit (sortBlocks freeBlocks) nextNewOffset with
  | none => exact ⟨rfl, rfl⟩
  | some extended =>
    obtain ⟨notIn, noLookup⟩ := @offsetIn_of_not_hasRoom scope current extended
      (noExtended extended isExtended)
    simp only [notIn, noLookup, and_self]

theorem first_mem_reuseLookups {first : Buffer × Int} {rest : List (Buffer × Int)}
    (order : scope.preAllocated = first :: rest)
    (room :
      (∃ block ∈ sortBlocks freeBlocks, block.hasRoom current) ∨
        ∃ extended ∈
            Scope.extendedBlock scope.memoryLimit (sortBlocks freeBlocks) nextNewOffset,
          extended.hasRoom current) :
    first.1 ∈ scope.reuseLookups current freeBlocks nextNewOffset := by
  by_cases inBlock : ∃ block ∈ sortBlocks freeBlocks, block.hasRoom current
  · exact List.mem_append_left _ (first_mem_firstFitLookups order inBlock)
  · obtain ⟨extended, isExtended, extendedRoom⟩ := room.resolve_left inBlock
    have noBlock : ∀ block ∈ sortBlocks freeBlocks, ¬ block.hasRoom current :=
      fun block member has => inBlock ⟨block, member, has⟩
    refine List.mem_append_right _ ?_
    simp only [(firstFit_of_noRoom scope noBlock).1]
    rw [Option.mem_def.mp isExtended]
    dsimp only
    rw [Scope.offsetLookups, if_pos extendedRoom, order]
    exact first_mem_conflictLookups first

end Reuse

/-! ## One round of the loop -/

section Rounds

variable {scope : Scope} {state : ScanState} {interval : LiveInterval}

theorem round_of_annotated {address : Int}
    (annotated : scope.preAllocated.lookup interval.buffer = some address) :
    state.step scope interval = (state.expire interval.start).placePreAllocated interval address ∧
      state.stepLookups scope interval = [] := by
  unfold ScanState.step ScanState.stepLookups Scope.addressOf?
  rw [annotated]
  exact ⟨rfl, rfl⟩

theorem round_of_normal (notAnnotated : scope.preAllocated.lookup interval.buffer = none) :
    state.step scope interval = (state.expire interval.start).placeNormal scope interval ∧
      state.stepLookups scope interval =
        (state.expire interval.start).normalLookups scope interval := by
  unfold ScanState.step ScanState.stepLookups Scope.addressOf?
  rw [notAnnotated]
  exact ⟨rfl, rfl⟩

theorem annotated_of_mem_stepLookups {buffer : Buffer}
    (lookedUp : buffer ∈ state.stepLookups scope interval) :
    buffer ∈ scope.preAllocated.map Prod.fst := by
  unfold ScanState.stepLookups at lookedUp
  split at lookedUp
  · cases lookedUp
  · unfold ScanState.normalLookups at lookedUp
    dsimp only at lookedUp
    split at lookedUp
    · rcases List.mem_append.mp lookedUp with first | reused
      · exact annotated_of_mem_conflictLookups first
      · split at reused
        · exact annotated_of_mem_reuseLookups reused
        · cases reused
    · exact annotated_of_mem_reuseLookups lookedUp

theorem first_mem_normalLookups {first : Buffer × Int} {rest : List (Buffer × Int)}
    (order : scope.preAllocated = first :: rest)
    (room : state.FindsRoom scope.memoryLimit interval) :
    first.1 ∈ state.normalLookups scope interval := by
  unfold ScanState.normalLookups
  dsimp only
  split
  · refine List.mem_append_left _ ?_
    rw [order]
    exact first_mem_conflictLookups first
  · rename_i tooLarge
    exact first_mem_reuseLookups order (room.resolve_left tooLarge)

theorem normal_of_noRoom (noRoom : ¬ state.FindsRoom scope.memoryLimit interval) :
    state.normalLookups scope interval = [] ∧
      state.placeNormal scope interval = .error (.outOfMemory interval.buffer) := by
  obtain ⟨tooLarge, noBlocks⟩ := not_or.mp noRoom
  obtain ⟨noBlock, noExtended⟩ := not_or.mp noBlocks
  obtain ⟨notFound, noLookups⟩ :
      scope.findReusableBlock interval state.freeBlocks state.nextNewOffset = .ok none ∧
        scope.reuseLookups interval state.freeBlocks state.nextNewOffset = [] :=
    reuse_of_noRoom (fun block member has => noBlock ⟨block, member, has⟩)
      fun extended member has => noExtended ⟨extended, member, has⟩
  unfold ScanState.normalLookups ScanState.placeNormal ScanState.placeReused
  dsimp only
  rw [if_neg tooLarge, if_neg tooLarge, notFound]
  exact ⟨noLookups, rfl⟩

variable {missing : Buffer}

theorem placeReused_missing
    (failed : state.placeReused scope interval = .error (.missingBuffer missing)) :
    scope.bufferMap missing = none ∧
      missing ∈ scope.reuseLookups interval state.freeBlocks state.nextNewOffset := by
  unfold ScanState.placeReused at failed
  split at failed
  · rename_i failure threw
    obtain ⟨buffer, isMissing, noEntry, lookedUp⟩ := findReusableBlock_eq_error threw
    obtain rfl := PlanError.missingBuffer.inj ((Except.error.inj failed).symm.trans isMissing)
    exact ⟨noEntry, lookedUp⟩
  · cases failed
  · cases failed

theorem placeNormal_missing
    (failed : state.placeNormal scope interval = .error (.missingBuffer missing)) :
    scope.bufferMap missing = none ∧ missing ∈ state.normalLookups scope interval := by
  unfold ScanState.placeNormal at failed
  unfold ScanState.normalLookups
  dsimp only at failed ⊢
  split at failed
  · rename_i fits
    rw [if_pos fits]
    split at failed
    · rename_i failure threw
      obtain ⟨buffer, isMissing, noEntry, lookedUp⟩ := checkConflictFrom_eq_error threw
      obtain rfl := PlanError.missingBuffer.inj ((Except.error.inj failed).symm.trans isMissing)
      exact ⟨noEntry, List.mem_append_left _ lookedUp⟩
    · rename_i conflicts
      obtain ⟨noEntry, lookedUp⟩ := placeReused_missing failed
      refine ⟨noEntry, List.mem_append_right _ ?_⟩
      rw [conflicts]
      exact lookedUp
    · cases failed
  · rename_i tooLarge
    rw [if_neg tooLarge]
    exact placeReused_missing failed

theorem step_missing (failed : state.step scope interval = .error (.missingBuffer missing)) :
    scope.bufferMap missing = none ∧ missing ∈ state.stepLookups scope interval := by
  cases annotated : scope.preAllocated.lookup interval.buffer with
  | some address =>
    rw [(round_of_annotated annotated).1] at failed
    unfold ScanState.placePreAllocated at failed
    dsimp only at failed
    split at failed
    · cases failed
    · cases failed
  | none =>
    obtain ⟨stepIs, lookupsAre⟩ := @round_of_normal scope state interval annotated
    rw [stepIs] at failed
    rw [lookupsAre]
    exact placeNormal_missing failed

end Rounds

/-! ## The scan -/

section Scan

variable {scope : Scope} {state : ScanState} {intervals : List LiveInterval}

theorem annotated_of_mem_scanLookups {buffer : Buffer}
    (lookedUp : buffer ∈ state.scanLookups scope intervals) :
    buffer ∈ scope.preAllocated.map Prod.fst := by
  induction intervals generalizing state with
  | nil =>
    cases lookedUp
  | cons interval rest ih =>
    rw [ScanState.scanLookups] at lookedUp
    rcases List.mem_append.mp lookedUp with here | later
    · exact annotated_of_mem_stepLookups here
    · split at later
      · exact ih later
      · cases later

theorem scan_missing {missing : Buffer}
    (failed : intervals.foldlM (ScanState.step scope) state = .error (.missingBuffer missing)) :
    scope.bufferMap missing = none ∧ missing ∈ state.scanLookups scope intervals := by
  induction intervals generalizing state with
  | nil =>
    cases failed
  | cons interval rest ih =>
    rw [List.foldlM_cons] at failed
    rw [ScanState.scanLookups]
    cases stepped : ScanState.step scope state interval with
    | error failure =>
      rw [stepped] at failed
      obtain rfl := Except.error.inj failed
      obtain ⟨noEntry, lookedUp⟩ := step_missing stepped
      exact ⟨noEntry, List.mem_append_left _ lookedUp⟩
    | ok next =>
      rw [stepped] at failed
      obtain ⟨noEntry, lookedUp⟩ := ih failed
      exact ⟨noEntry, List.mem_append_right _ lookedUp⟩

theorem first_mem_scanLookups (scope : Scope) {released : ScanState}
    {current : LiveInterval} {first : Buffer × Int} {rest : List (Buffer × Int)}
    (order : scope.preAllocated = first :: rest)
    (isFirst : state.firstNormal scope.preAllocated intervals = some (released, current))
    (room : released.FindsRoom scope.memoryLimit current) :
    first.1 ∈ state.scanLookups scope intervals := by
  induction intervals generalizing state with
  | nil =>
    cases isFirst
  | cons interval others ih =>
    rw [ScanState.firstNormal] at isFirst
    rw [ScanState.scanLookups]
    cases annotated : scope.preAllocated.lookup interval.buffer with
    | none =>
      simp only [annotated] at isFirst
      obtain ⟨rfl, rfl⟩ := Prod.mk.inj (Option.some.inj isFirst)
      refine List.mem_append_left _ ?_
      rw [(round_of_normal annotated).2]
      exact first_mem_normalLookups order room
    | some address =>
      simp only [annotated] at isFirst
      refine List.mem_append_right _ ?_
      rw [(round_of_annotated annotated).1]
      split at isFirst
      · exact ih isFirst
      · cases isFirst

theorem scanLookups_eq_nil
    (noRoom :
      ∀ released current,
        state.firstNormal scope.preAllocated intervals = some (released, current) →
        ¬ released.FindsRoom scope.memoryLimit current) :
    state.scanLookups scope intervals = [] := by
  induction intervals generalizing state with
  | nil => rfl
  | cons interval others ih =>
    rw [ScanState.scanLookups]
    cases annotated : scope.preAllocated.lookup interval.buffer with
    | none =>
      have noRoomHere : ¬ (state.expire interval.start).FindsRoom scope.memoryLimit interval := by
        apply noRoom
        simp only [ScanState.firstNormal, annotated]
      obtain ⟨noLookups, notPlaced⟩ := normal_of_noRoom noRoomHere
      obtain ⟨stepIs, lookupsAre⟩ := @round_of_normal scope state interval annotated
      rw [lookupsAre, noLookups, stepIs, notPlaced]
      rfl
    | some address =>
      obtain ⟨stepIs, noLookups⟩ := @round_of_annotated scope state interval _ annotated
      rw [noLookups, List.nil_append, stepIs]
      split
      · rename_i next placed
        apply ih
        intro released current isFirst
        apply noRoom released current
        simp only [ScanState.firstNormal, annotated, placed]
        exact isFirst
      · rfl

end Scan

/-! ## Annotations in any order -/

variable {entries others : List (Buffer × Int)} {intervals : List LiveInterval}
  {buffers : List Buffer} {lifetimes : Buffer → Option (Int × Int)} {sizes : Buffer → UInt64}

theorem lookup_eq_some_iff_mem {buffer : Buffer} {address : Int}
    (distinct : (entries.map Prod.fst).Nodup) :
    entries.lookup buffer = some address ↔ (buffer, address) ∈ entries := by
  induction entries with
  | nil => exact ⟨nofun, nofun⟩
  | cons entry rest ih =>
    obtain ⟨key, value⟩ := entry
    obtain ⟨fresh, restDistinct⟩ := List.nodup_cons.mp distinct
    rw [List.lookup_cons, List.mem_cons, Prod.mk.injEq]
    by_cases same : buffer = key
    · subst same
      rw [beq_self_eq_true]
      constructor
      · intro isFirst
        exact .inl ⟨rfl, (Option.some.inj isFirst).symm⟩
      · rintro (⟨_, rfl⟩ | inRest)
        · rfl
        · exact absurd (List.mem_map_of_mem inRest) fresh
    · rw [beq_false_of_ne same]
      simp only [same, false_and, false_or]
      exact ih restDistinct

theorem lookup_eq_of_perm (perm : others.Perm entries)
    (distinct : (entries.map Prod.fst).Nodup) (buffer : Buffer) :
    others.lookup buffer = entries.lookup buffer := by
  have othersDistinct : (others.map Prod.fst).Nodup := (perm.map Prod.fst).nodup_iff.mpr distinct
  ext address
  rw [lookup_eq_some_iff_mem othersDistinct, lookup_eq_some_iff_mem distinct, perm.mem_iff]

theorem firstNormal_of_perm {state : ScanState} (perm : others.Perm entries)
    (distinct : (entries.map Prod.fst).Nodup) :
    state.firstNormal others intervals = state.firstNormal entries intervals := by
  induction intervals generalizing state with
  | nil => rfl
  | cons interval rest ih =>
    rw [ScanState.firstNormal, ScanState.firstNormal, lookup_eq_of_perm perm distinct]
    simp only [ih]

theorem mem_preAllocScopeBuffer {annotations : Buffer → Option Int} {entry : Buffer × Int} :
    entry ∈ preAllocScopeBuffer annotations buffers ↔
      entry.1 ∈ buffers ∧ annotations entry.1 = some entry.2 := by
  unfold preAllocScopeBuffer
  rw [List.mem_filterMap]
  constructor
  · rintro ⟨buffer, member, isEntry⟩
    obtain ⟨address, isAddress, rfl⟩ := Option.map_eq_some_iff.mp isEntry
    exact ⟨member, isAddress⟩
  · rintro ⟨member, isAddress⟩
    exact ⟨entry.1, member, by rw [isAddress, Option.map_some]⟩

theorem preAllocScopeBuffer_distinct (annotations : Buffer → Option Int)
    (distinct : buffers.Nodup) :
    ((preAllocScopeBuffer annotations buffers).map Prod.fst).Nodup := by
  refine List.pairwise_map.mpr (List.pairwise_filterMap.mpr (distinct.imp ?_))
  intro buffer other differs entry isEntry otherEntry isOther same
  obtain ⟨_, _, rfl⟩ := Option.map_eq_some_iff.mp isEntry
  obtain ⟨_, _, rfl⟩ := Option.map_eq_some_iff.mp isOther
  exact differs same

theorem mem_scopeIntervals {interval : LiveInterval} :
    interval ∈ scopeIntervals lifetimes sizes buffers ↔
      interval.buffer ∈ buffers ∧
        lifetimes interval.buffer = some (interval.start, interval.finish) ∧
        interval.size = sizes interval.buffer := by
  unfold scopeIntervals
  rw [List.mem_filterMap]
  constructor
  · rintro ⟨buffer, member, isInterval⟩
    obtain ⟨⟨start, finish⟩, isLifetime, rfl⟩ := Option.map_eq_some_iff.mp isInterval
    exact ⟨member, isLifetime, rfl⟩
  · rintro ⟨member, isLifetime, isSize⟩
    refine ⟨interval.buffer, member, ?_⟩
    rw [isLifetime, Option.map_some, ← isSize]

theorem scopeIntervals_distinct (distinct : buffers.Nodup) :
    ((scopeIntervals lifetimes sizes buffers).map LiveInterval.buffer).Nodup := by
  refine List.pairwise_map.mpr (List.pairwise_filterMap.mpr (distinct.imp ?_))
  intro buffer other differs interval isInterval otherInterval isOther same
  obtain ⟨_, _, rfl⟩ := Option.map_eq_some_iff.mp isInterval
  obtain ⟨_, _, rfl⟩ := Option.map_eq_some_iff.mp isOther
  exact differs same

/-! ## Places in the sorted vector -/

section Places

variable {first second : List LiveInterval} {buffer : Buffer}

/-- A look-up finds its interval if the second sort left it in place. -/
theorem bufferMap_finds_iff (perm : second.Perm first)
    (distinct : (first.map LiveInterval.buffer).Nodup) :
    (∃ interval, bufferMap first second buffer = some interval ∧ interval.buffer = buffer) ↔
      (∃ interval ∈ first, interval.buffer = buffer) ∧
        second.findIdx? (fun interval => interval.buffer = buffer) =
          first.findIdx? fun interval => interval.buffer = buffer := by
  unfold bufferMap
  have secondDistinct : (second.map LiveInterval.buffer).Nodup :=
    (perm.map LiveInterval.buffer).nodup_iff.mpr distinct
  constructor
  · rintro ⟨interval, found, rfl⟩
    obtain ⟨position, isPosition, atPosition⟩ := Option.bind_eq_some_iff.mp found
    obtain ⟨inside, isThere⟩ := List.getElem?_eq_some_iff.mp atPosition
    refine ⟨⟨interval, perm.mem_iff.mp (List.mem_of_getElem? atPosition), rfl⟩, ?_⟩
    rw [isPosition]
    refine List.findIdx?_eq_some_iff_getElem.mpr ⟨inside, by simp only [isThere, decide_true],
      fun earlier before => ?_⟩
    have earlierInside : earlier < second.length := before.trans inside
    simp only [decide_eq_true_eq]
    intro same
    have sameInterval : second[earlier] = interval :=
      List.inj_on_of_nodup_map secondDistinct (List.getElem_mem earlierInside)
        (List.mem_of_getElem? atPosition) same
    have samePlace : earlier = position :=
      (List.Nodup.getElem_inj_iff (List.Nodup.of_map _ secondDistinct)).mp
        (sameInterval.trans isThere.symm)
    omega
  · rintro ⟨⟨interval, member, rfl⟩, samePlace⟩
    cases found : first.findIdx? (fun other => decide (other.buffer = interval.buffer)) with
    | none =>
      have absent := List.findIdx?_eq_none_iff.mp found interval member
      simp at absent
    | some position =>
      rw [found] at samePlace
      obtain ⟨inside, passes, _⟩ := List.findIdx?_eq_some_iff_getElem.mp samePlace
      refine ⟨second[position], ?_, by simpa using passes⟩
      rw [Option.bind_some, List.getElem?_eq_getElem inside]

end Places

/-! ## Exactness -/

/-- The look-ups of a plan find what the map holds. -/
theorem lookupsFind_of_found
    {sort : List LiveInterval → List LiveInterval}
    {memoryLimit : UInt64}
    {preAllocated : List (Buffer × Int)}
    (found :
      ∀ buffer ∈ planLookups sort memoryLimit preAllocated intervals,
        ∃ interval, bufferMap (sort intervals) (sort (sort intervals)) buffer = some interval ∧
          interval.buffer = buffer) :
    LookupsFind sort memoryLimit preAllocated intervals where
  found := found
  noThrow := by
    intro buffer threw
    unfold planIntervals allocate at threw
    dsimp only at threw
    cases scanned : (sort (sort intervals)).foldlM
        (ScanState.step (plannedScope sort memoryLimit preAllocated intervals)) {} with
    | ok state =>
      rw [plannedScope] at scanned
      rw [scanned] at threw
      cases threw
    | error failure =>
      have failed : failure = .missingBuffer buffer := by
        rw [plannedScope] at scanned
        rw [scanned] at threw
        exact Except.error.inj threw
      obtain ⟨noEntry, lookedUp⟩ := scan_missing (failed ▸ scanned)
      obtain ⟨interval, isFound, _⟩ := found buffer lookedUp
      exact nomatch noEntry.symm.trans isFound

/--
Whatever the order of the annotations in their map, every look-up finds its buffer if and only
if no buffer without an annotation is ever checked for conflicts, or every annotated buffer of the
scope is touched and the second sort leaves it in its place.
-/
theorem lookupsFind_iff
    (sort : List LiveInterval → List LiveInterval)
    (sorts : SortsByStart sort)
    (memoryLimit : UInt64)
    (annotations : Buffer → Option Int)
    (lifetimes : Buffer → Option (Int × Int))
    (sizes : Buffer → UInt64)
    (buffers : List Buffer)
    (distinct : buffers.Nodup) :
    (∀ preAllocated : List (Buffer × Int),
      preAllocated.Perm (preAllocScopeBuffer annotations buffers) →
      LookupsFind sort memoryLimit preAllocated (scopeIntervals lifetimes sizes buffers)) ↔
      (ChecksConflicts memoryLimit (preAllocScopeBuffer annotations buffers)
          (sort (sort (scopeIntervals lifetimes sizes buffers))) →
        ∀ buffer ∈ buffers, (annotations buffer).isSome = true →
          (lifetimes buffer).isSome = true ∧
            KeepsPlace sort (scopeIntervals lifetimes sizes buffers) buffer) := by
  have keysDistinct := preAllocScopeBuffer_distinct annotations distinct
  have finds : ∀ buffer ∈ buffers,
      (∃ interval, bufferMap (sort (scopeIntervals lifetimes sizes buffers))
          (sort (sort (scopeIntervals lifetimes sizes buffers))) buffer = some interval ∧
            interval.buffer = buffer) ↔
        (lifetimes buffer).isSome = true ∧
          KeepsPlace sort (scopeIntervals lifetimes sizes buffers) buffer := by
    intro buffer member
    rw [bufferMap_finds_iff (sorts.perm _)
      (((sorts.perm _).map LiveInterval.buffer).nodup_iff.mpr (scopeIntervals_distinct distinct))]
    refine and_congr ?_ Iff.rfl
    constructor
    · rintro ⟨interval, isInterval, rfl⟩
      rw [(mem_scopeIntervals.mp ((sorts.perm _).mem_iff.mp isInterval)).2.1]
      rfl
    · intro isLive
      obtain ⟨⟨start, finish⟩, isLifetime⟩ := Option.isSome_iff_exists.mp isLive
      exact ⟨⟨buffer, start, finish, sizes buffer⟩,
        (sorts.perm _).mem_iff.mpr (mem_scopeIntervals.mpr ⟨member, isLifetime, rfl⟩), rfl⟩
  constructor
  · rintro find ⟨state, current, isFirst, room⟩ buffer member isAnnotated
    obtain ⟨address, isAddress⟩ := Option.isSome_iff_exists.mp isAnnotated
    have inScope : (buffer, address) ∈ preAllocScopeBuffer annotations buffers :=
      mem_preAllocScopeBuffer.mpr ⟨member, isAddress⟩
    -- the map may be iterated with this buffer first
    have perm := (List.perm_cons_erase inScope).symm
    refine (finds buffer member).mp ((find _ perm).found buffer ?_)
    have sameFirst := (firstNormal_of_perm perm keysDistinct).trans isFirst
    exact first_mem_scanLookups (plannedScope sort memoryLimit _ _) rfl sameFirst room
  · intro condition preAllocated perm
    refine lookupsFind_of_found fun buffer lookedUp => ?_
    by_cases checks : ChecksConflicts memoryLimit (preAllocScopeBuffer annotations buffers)
        (sort (sort (scopeIntervals lifetimes sizes buffers)))
    · have isKey : buffer ∈ (preAllocScopeBuffer annotations buffers).map Prod.fst :=
        (perm.map Prod.fst).mem_iff.mp (annotated_of_mem_scanLookups lookedUp)
      obtain ⟨entry, inScope, rfl⟩ := List.mem_map.mp isKey
      obtain ⟨member, isAddress⟩ := mem_preAllocScopeBuffer.mp inScope
      exact (finds _ member).mpr (condition checks _ member (by rw [isAddress]; rfl))
    · have noLookups : planLookups sort memoryLimit preAllocated
          (scopeIntervals lifetimes sizes buffers) = [] := by
        refine scanLookups_eq_nil fun released current isFirst room => checks ?_
        exact ⟨released, current, (firstNormal_of_perm perm keysDistinct).symm.trans isFirst, room⟩
      rw [noLookups] at lookedUp
      cases lookedUp

/-- A program that fills one buffer and then another one. -/
def fillTiles : Program :=
  .touch ⟨[], ["tile"], by simp⟩ <|
    .touch ⟨[], ["other"], LoopPrograms.Touch.write_nonempty _⟩ .done

/-- With a touched buffer annotated every look-up finds its buffer. -/
theorem lookupsFind_fillTiles :
    LookupsFind insertionSortByStart 196352
      (preAllocScopeBuffer (fun buffer => if buffer = "tile" then some 0 else none)
        ["tile", "other", "spare"])
      (liveIntervals fillTiles (fun _ => 256) ["tile", "other", "spare"]) := by
  rw [liveIntervals_eq_scopeIntervals]
  refine (lookupsFind_iff insertionSortByStart insertionSortByStart_sorts 196352 _
    (lifetime fillTiles) (fun _ => 256) ["tile", "other", "spare"] (by decide)).mpr
      (fun _ => ?_) _ (List.Perm.refl _)
  unfold KeepsPlace
  decide

/-- An annotated buffer that is never touched makes the placement of another one throw. -/
theorem not_lookupsFind_spare :
    planMemoryForScope insertionSortByStart 196352 [("spare", 0)] fillTiles (fun _ => 256)
        ["tile", "other", "spare"] = .error (.missingBuffer "spare") ∧
      ¬ LookupsFind insertionSortByStart 196352
        (preAllocScopeBuffer (fun buffer => if buffer = "spare" then some 0 else none)
          ["tile", "other", "spare"])
        (liveIntervals fillTiles (fun _ => 256) ["tile", "other", "spare"]) :=
  ⟨by decide, fun find => find.noThrow "spare" (by decide)⟩

end TilelangAscend.MemoryPlanning
