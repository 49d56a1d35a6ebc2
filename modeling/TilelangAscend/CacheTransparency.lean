import TilelangAscend.ExceptRules
import TilelangAscend.HazardCaches

namespace TilelangAscend.Simulator.Bridge

open ExceptRules (exceptBind_eq_ok)
open MemoTables (memoized Valid Transparent transparent_iff valid_nil)

/-!
# When the hazard caches are transparent

Every step of a build but one keeps the remembered answers right.  A reservation that enlarges a
buffer does so exactly if the range of the buffer does not newly meet that of another one, where
a remembered answer has compared the two by their sizes.
-/

namespace HazardState

/-- Every remembered answer is the current one. -/
def CachesValid (state : HazardState) : Prop :=
  Valid state.regionsOverlap state.overlapCache ∧ Valid state.candidateKeys state.candidateCache

variable {state : HazardState}

theorem cachesTransparent_iff : state.CachesTransparent ↔ state.CachesValid :=
  and_congr transparent_iff transparent_iff

/-! ## What the answers depend on -/

/-- The names of two regions whose overlap is decided by the sizes of their buffers. -/
structure SizedPair
    (state : HazardState)
    (asked : OverlapKey)
    (leftBuffer rightBuffer : String) :
    Prop where
  sameScope : asked.left.scope = asked.right.scope
  access : asked.left.scope.isShared = true ∨
    asked.left.owner asked.coreId = asked.right.owner asked.coreId
  runtimeBounds : asked.left.concrete = none ∨ asked.right.concrete = none
  leftIs : leftBuffer =
    state.resolved asked.left.scope (asked.left.owner asked.coreId) asked.left.buffer
  rightIs : rightBuffer =
    state.resolved asked.right.scope (asked.right.owner asked.coreId) asked.right.buffer

/-- The names of two different buffers that a candidate selection compares. -/
structure PlannedPair
    (state : HazardState)
    (asked : CandidateKey)
    (key : BucketKey)
    (leftBuffer rightBuffer : String) :
    Prop where
  selected : selects asked key = true
  access : key.scope.isShared = true ∨ asked.owner = key.owner
  leftIs : leftBuffer = state.resolved asked.scope asked.owner asked.buffer
  rightIs : rightBuffer = state.resolved key.scope key.owner key.buffer
  different : leftBuffer ≠ rightBuffer

/-- The declared buffers of a state are still declared at the same addresses. -/
structure Readdressed (state next : HazardState) : Prop where
  sameAliases : next.aliases = state.aliases
  declared : ∀ name declared, state.buffers name = some declared →
    ∃ changed, next.buffers name = some changed ∧ changed.address = declared.address

section Readdressed

variable {state next : HazardState}

theorem Readdressed.resolved (same : Readdressed state next) (scope : MemoryScope)
    (owner : Nat) (buffer : String) :
    next.resolved scope owner buffer = state.resolved scope owner buffer := by
  rw [HazardState.resolved, HazardState.resolved, same.sameAliases]

theorem granted_iff {scope : MemoryScope} {owner other : Nat} :
    ¬ (!scope.isShared && decide (owner ≠ other)) = true ↔
      scope.isShared = true ∨ owner = other := by
  simp only [Bool.and_eq_true, Bool.not_eq_true', decide_eq_true_eq, not_and_or,
    Bool.not_eq_false, not_not]

variable {region : RuntimeRegion} {concrete left right : BufferRegion} {coreId : Nat}
  {answer : Bool}

theorem concrete_fields (isConcrete : region.concrete = some concrete) :
    concrete.buffer = region.buffer ∧ concrete.scope = region.scope ∧
      concrete.coreId = region.coreId := by
  unfold RuntimeRegion.concrete RuntimeRegion.valued at isConcrete
  split at isConcrete
  · split at isConcrete
    · obtain rfl := Option.some.inj isConcrete
      exact ⟨rfl, rfl, rfl⟩
    · cases isConcrete
  · cases isConcrete

theorem regionsOverlap_congr {specs others : String → BufferSpec}
    (leftSame : (specs left.buffer).address = (others left.buffer).address)
    (rightSame : (specs right.buffer).address = (others right.buffer).address) :
    Simulator.regionsOverlap specs coreId left right =
      Simulator.regionsOverlap others coreId left right := by
  have bases : comparedBases specs left right = comparedBases others left right := by
    rw [comparedBases, comparedBases, leftSame, rightSame]
  rw [Simulator.regionsOverlap, Simulator.regionsOverlap, bases]

theorem specOf_address {name : String} {declared : DeclaredBuffer}
    (isDeclared : state.buffers name = some declared) :
    (state.specOf name).address = declared.address := by
  rw [specOf, isDeclared]
  rfl

theorem buffer_aliased (isConcrete : region.concrete = some concrete) (coreId : Nat) :
    (concrete.aliased state.aliases coreId).buffer =
      state.resolved region.scope (region.owner coreId) region.buffer := by
  obtain ⟨name, scope, core⟩ := concrete_fields isConcrete
  simp only [BufferRegion.aliased, name, scope, BufferRegion.owner, core]
  rfl

theorem Readdressed.regionsOverlapUncached {leftRegion rightRegion : RuntimeRegion}
    {leftDeclared rightDeclared : DeclaredBuffer} (same : Readdressed state next)
    (leftConcrete : leftRegion.concrete = some left)
    (rightConcrete : rightRegion.concrete = some right)
    (leftIs : state.buffers
      (state.resolved leftRegion.scope (leftRegion.owner coreId) leftRegion.buffer) =
        some leftDeclared)
    (rightIs : state.buffers
      (state.resolved rightRegion.scope (rightRegion.owner coreId) rightRegion.buffer) =
        some rightDeclared) :
    Simulator.regionsOverlapUncached next.specOf next.aliases coreId left right =
      Simulator.regionsOverlapUncached state.specOf state.aliases coreId left right := by
  obtain ⟨_, newLeft, leftAddress⟩ := same.declared _ _ leftIs
  obtain ⟨_, newRight, rightAddress⟩ := same.declared _ _ rightIs
  rw [same.sameAliases]
  apply regionsOverlap_congr
  · rw [buffer_aliased leftConcrete, specOf_address newLeft, specOf_address leftIs, leftAddress]
  · rw [buffer_aliased rightConcrete, specOf_address newRight, specOf_address rightIs, rightAddress]

theorem bases_congr {leftBuffer rightBuffer : String}
    {left right changedLeft changedRight : DeclaredBuffer}
    (leftSame : changedLeft.address = left.address)
    (rightSame : changedRight.address = right.address) :
    bases leftBuffer rightBuffer changedLeft changedRight =
      bases leftBuffer rightBuffer left right := by
  rw [bases, bases, leftSame, rightSame]

theorem regionsOverlap_readdressed {asked : OverlapKey} (same : Readdressed state next)
    (answered : state.regionsOverlap asked = .ok answer) :
    next.regionsOverlap asked = .ok answer ∨
      ∃ leftBuffer rightBuffer left right changedLeft changedRight compared,
        SizedPair state asked leftBuffer rightBuffer ∧
          state.buffers leftBuffer = some left ∧ state.buffers rightBuffer = some right ∧
          next.buffers leftBuffer = some changedLeft ∧
          next.buffers rightBuffer = some changedRight ∧
          bases leftBuffer rightBuffer left right = some compared ∧
          answer = declaredMeet compared left right ∧
          next.regionsOverlap asked = .ok (declaredMeet compared changedLeft changedRight) := by
  unfold HazardState.regionsOverlap at answered ⊢
  simp only [same.resolved] at answered ⊢
  by_cases sameScope : asked.left.scope = asked.right.scope
  · rw [if_neg (not_not.mpr sameScope)] at answered ⊢
    by_cases denied :
        (!asked.left.scope.isShared &&
          decide (asked.left.owner asked.coreId ≠ asked.right.owner asked.coreId)) = true
    · rw [if_pos denied] at answered ⊢
      exact .inl answered
    rw [if_neg denied] at answered ⊢
    split at answered
    · rename_i left right leftIs rightIs
      obtain ⟨changedLeft, newLeft, leftAddress⟩ := same.declared _ _ leftIs
      obtain ⟨changedRight, newRight, rightAddress⟩ := same.declared _ _ rightIs
      simp only [newLeft, newRight]
      split at answered
      · rename_i leftConcrete rightConcrete
        left
        rw [same.regionsOverlapUncached leftConcrete rightConcrete leftIs rightIs]
        exact answered
      · rename_i notConcrete
        have runtimeBounds : asked.left.concrete = none ∨ asked.right.concrete = none := by
          cases leftConcrete : asked.left.concrete with
          | none => exact .inl rfl
          | some leftRegion =>
            cases rightConcrete : asked.right.concrete with
            | none => exact .inr rfl
            | some rightRegion => exact (notConcrete _ _ leftConcrete rightConcrete).elim
        rw [bases_congr leftAddress rightAddress]
        split at answered
        · rename_i noBases
          exact .inl answered
        · rename_i compared basesAre
          right
          exact ⟨_, _, left, right, changedLeft, changedRight, compared,
            ⟨sameScope, granted_iff.mp denied, runtimeBounds, rfl, rfl⟩, leftIs, rightIs,
            newLeft, newRight, basesAre, (Except.ok.inj answered).symm, rfl⟩
    · cases answered
  · rw [if_pos sameScope] at answered ⊢
    exact .inl answered

theorem keyMayOverlap_readdressed {asked : CandidateKey} {key : BucketKey}
    (same : Readdressed state next) (selected : selects asked key = true)
    (answered : state.keyMayOverlap asked.scope asked.owner asked.buffer key = .ok answer) :
    next.keyMayOverlap asked.scope asked.owner asked.buffer key = .ok answer ∨
      ∃ leftBuffer rightBuffer left right changedLeft changedRight,
        PlannedPair state asked key leftBuffer rightBuffer ∧
          state.buffers leftBuffer = some left ∧ state.buffers rightBuffer = some right ∧
          next.buffers leftBuffer = some changedLeft ∧
          next.buffers rightBuffer = some changedRight ∧
          answer = plannedMeet left right ∧
          next.keyMayOverlap asked.scope asked.owner asked.buffer key =
            .ok (plannedMeet changedLeft changedRight) := by
  unfold keyMayOverlap at answered ⊢
  simp only [same.resolved] at answered ⊢
  by_cases denied : (!key.scope.isShared && decide (asked.owner ≠ key.owner)) = true
  · rw [if_pos denied] at answered ⊢
    exact .inl answered
  rw [if_neg denied] at answered ⊢
  by_cases sameBuffer : state.resolved asked.scope asked.owner asked.buffer =
      state.resolved key.scope key.owner key.buffer
  · rw [if_pos sameBuffer] at answered ⊢
    exact .inl answered
  rw [if_neg sameBuffer] at answered ⊢
  split at answered
  · rename_i left right leftIs rightIs
    obtain ⟨changedLeft, newLeft, _⟩ := same.declared _ _ leftIs
    obtain ⟨changedRight, newRight, _⟩ := same.declared _ _ rightIs
    right
    refine ⟨_, _, left, right, changedLeft, changedRight,
      ⟨selected, granted_iff.mp denied, rfl, rfl, sameBuffer⟩, leftIs, rightIs, newLeft, newRight,
      (Except.ok.inj answered).symm, ?_⟩
    simp only [newLeft, newRight]
  · cases answered

end Readdressed

/-! ## Selections of candidates -/

/-- The test of one bucket by a selection. -/
def testBucket (state : HazardState) (asked : CandidateKey) (key : BucketKey) :
    Except HazardError Bool :=
  if selects asked key then
    state.keyMayOverlap asked.scope asked.owner asked.buffer key
  else
    .ok false

theorem filterExcept_congr {ε α : Type} {test other : α → Except ε Bool} {items : List α}
    (agree : ∀ item ∈ items, test item = other item) :
    filterExcept test items = filterExcept other items := by
  induction items with
  | nil => rfl
  | cons first rest ih =>
    rw [filterExcept, filterExcept, agree first List.mem_cons_self,
      ih fun item member => agree item (List.mem_cons_of_mem _ member)]

theorem candidateKeys_eq_iff {next : HazardState} {asked : CandidateKey} {keys : List BucketKey}
    (sameBuckets :
      (next.history asked.history).map Prod.fst = (state.history asked.history).map Prod.fst)
    (answered : state.candidateKeys asked = .ok keys)
    (tested : ∀ key ∈ (state.history asked.history).map Prod.fst,
      ∃ outcome, next.testBucket asked key = .ok outcome) :
    next.candidateKeys asked = state.candidateKeys asked ↔
      ∀ key ∈ (state.history asked.history).map Prod.fst,
        next.testBucket asked key = state.testBucket asked key := by
  have nextIs : next.candidateKeys asked =
      filterExcept (next.testBucket asked) ((state.history asked.history).map Prod.fst) := by
    rw [← sameBuckets]
    rfl
  constructor
  · intro same key member
    obtain ⟨oldOutcomes, oldMembers⟩ := filterExcept_ok answered
    rw [answered, nextIs] at same
    obtain ⟨_, newMembers⟩ := filterExcept_ok same
    obtain ⟨old, oldIs⟩ := oldOutcomes key member
    obtain ⟨new, newIs⟩ := tested key member
    have agree : next.testBucket asked key = .ok true ↔ state.testBucket asked key = .ok true := by
      have oldKept := oldMembers key
      have newKept := newMembers key
      exact ⟨fun isTrue => (oldKept.mp (newKept.mpr ⟨member, isTrue⟩)).2,
        fun isTrue => (newKept.mp (oldKept.mpr ⟨member, isTrue⟩)).2⟩
    have oldIs' : state.testBucket asked key = .ok old := oldIs
    rw [oldIs', newIs, Except.ok.injEq, Except.ok.injEq] at agree
    rw [oldIs', newIs]
    exact congrArg Except.ok (Bool.eq_iff_iff.mpr agree)
  · intro same
    rw [nextIs]
    exact filterExcept_congr same

/-! ## Growth -/

end HazardState

theorem growIf_address (name : String) (requiredBytes : Nat) (other : String)
    (declared : DeclaredBuffer) :
    (growIf name requiredBytes other declared).address = declared.address := by
  unfold growIf DeclaredBuffer.reserveLayoutCapacity
  split
  · split
    · rfl
    · split
      · rfl
      · rfl
  · rfl

theorem growIf_size (name : String) (requiredBytes : Nat) (other : String)
    (declared : DeclaredBuffer) :
    (declared.size = none ∧ (growIf name requiredBytes other declared).size = none) ∨
      ∃ size larger, declared.size = some size ∧
        (growIf name requiredBytes other declared).size = some larger ∧ size ≤ larger := by
  unfold growIf DeclaredBuffer.reserveLayoutCapacity
  cases sized : declared.size with
  | none =>
    left
    split
    · exact ⟨rfl, sized⟩
    · exact ⟨rfl, sized⟩
  | some size =>
    right
    split
    · dsimp only
      split
      · exact ⟨size, size, rfl, sized, le_rfl⟩
      · rename_i grows
        exact ⟨size, requiredBytes, rfl, rfl, by omega⟩
    · exact ⟨size, size, rfl, sized, le_rfl⟩

section Growth

variable {name : String} {requiredBytes : Nat} {leftBuffer rightBuffer : String}
  {left right : DeclaredBuffer}

theorem plannedMeet_growIf (meet : plannedMeet left right = true) :
    plannedMeet (growIf name requiredBytes leftBuffer left)
      (growIf name requiredBytes rightBuffer right) = true := by
  unfold plannedMeet at meet ⊢
  rw [growIf_address, growIf_address]
  rcases growIf_size name requiredBytes leftBuffer left with
    ⟨leftNone, _⟩ | ⟨leftSize, leftLarger, leftIs, leftNew, leftLe⟩
  · rw [leftNone] at meet
    split at meet
    · rename_i impossible _
      cases impossible
    · cases meet
  rcases growIf_size name requiredBytes rightBuffer right with
    ⟨rightNone, _⟩ | ⟨rightSize, rightLarger, rightIs, rightNew, rightLe⟩
  · rw [rightNone] at meet
    split at meet
    · rename_i impossible
      cases impossible
    · cases meet
  rw [leftIs, rightIs] at meet
  rw [leftNew, rightNew]
  split at meet
  · rename_i _ _ _ _ leftAddress rightAddress sameLeft sameRight
    obtain rfl := Option.some.inj sameLeft
    obtain rfl := Option.some.inj sameRight
    simp only [leftAddress, rightAddress, Bool.and_eq_true, decide_eq_true_eq] at meet ⊢
    omega
  · cases meet

theorem declaredMeet_growIf {compared : Nat × Nat}
    (meet : declaredMeet compared left right = true) :
    declaredMeet compared (growIf name requiredBytes leftBuffer left)
      (growIf name requiredBytes rightBuffer right) = true := by
  unfold declaredMeet at meet ⊢
  rcases growIf_size name requiredBytes leftBuffer left with
    ⟨_, leftNone⟩ | ⟨leftSize, leftLarger, leftIs, leftNew, leftLe⟩
  · rw [leftNone]
  rcases growIf_size name requiredBytes rightBuffer right with
    ⟨_, rightNone⟩ | ⟨rightSize, rightLarger, rightIs, rightNew, rightLe⟩
  · rw [rightNone]
    split
    · rename_i impossible
      cases impossible
    · rfl
  rw [leftIs, rightIs] at meet
  rw [leftNew, rightNew]
  simp only [Bool.and_eq_true, decide_eq_true_eq] at meet ⊢
  omega

end Growth

namespace HazardState

/--
A reservation gives no buffer a range that newly meets the range of another one with which a
remembered answer has compared it.
-/
structure GrowthMeetsNothingNew
    (state : HazardState)
    (name : String)
    (requiredBytes : Nat) :
    Prop where
  overlaps : ∀ asked leftBuffer rightBuffer left right compared,
    (state.overlapCache.lookup asked).isSome = true →
    SizedPair state asked leftBuffer rightBuffer →
    state.buffers leftBuffer = some left →
    state.buffers rightBuffer = some right →
    bases leftBuffer rightBuffer left right = some compared →
    declaredMeet compared (growIf name requiredBytes leftBuffer left)
      (growIf name requiredBytes rightBuffer right) = true →
    declaredMeet compared left right = true
  candidates : ∀ asked key leftBuffer rightBuffer left right,
    (state.candidateCache.lookup asked).isSome = true →
    key ∈ (state.history asked.history).map Prod.fst →
    PlannedPair state asked key leftBuffer rightBuffer →
    state.buffers leftBuffer = some left →
    state.buffers rightBuffer = some right →
    plannedMeet (growIf name requiredBytes leftBuffer left)
      (growIf name requiredBytes rightBuffer right) = true →
    plannedMeet left right = true

section Sized

variable {state : HazardState} {leftBuffer rightBuffer : String} {left right : DeclaredBuffer}

theorem regionsOverlap_sized {asked : OverlapKey} {compared : Nat × Nat}
    (pair : SizedPair state asked leftBuffer rightBuffer)
    (leftIs : state.buffers leftBuffer = some left)
    (rightIs : state.buffers rightBuffer = some right)
    (basesAre : bases leftBuffer rightBuffer left right = some compared) :
    state.regionsOverlap asked = .ok (declaredMeet compared left right) := by
  obtain ⟨sameScope, access, runtimeBounds, rfl, rfl⟩ := pair
  unfold HazardState.regionsOverlap
  simp only [if_neg (not_not.mpr sameScope), if_neg (granted_iff.mpr access), leftIs, rightIs,
    basesAre]
  split
  · rename_i leftConcrete rightConcrete
    rcases runtimeBounds with none | none
    · rw [none] at leftConcrete
      cases leftConcrete
    · rw [none] at rightConcrete
      cases rightConcrete
  · rfl

theorem testBucket_planned {asked : CandidateKey} {key : BucketKey}
    (pair : PlannedPair state asked key leftBuffer rightBuffer)
    (leftIs : state.buffers leftBuffer = some left)
    (rightIs : state.buffers rightBuffer = some right) :
    state.testBucket asked key = .ok (plannedMeet left right) := by
  obtain ⟨selected, access, rfl, rfl, different⟩ := pair
  unfold testBucket keyMayOverlap
  simp only [if_pos selected, if_neg (granted_iff.mpr access), if_neg different, leftIs, rightIs]

end Sized

/-! ## Steps -/

section Steps

variable {state next : HazardState} {key : BucketKey} {asked : CandidateKey}
  {keys : List BucketKey} {overlaps : Bool} {region : RuntimeRegion} {coreId : Nat}

theorem testBucket_of_candidateKeys (answered : state.candidateKeys asked = .ok keys)
    (member : key ∈ (state.history asked.history).map Prod.fst) :
    ∃ outcome, state.testBucket asked key = .ok outcome :=
  (filterExcept_ok answered).1 key member

theorem testBucket_readdressed {answer : Bool} (same : Readdressed state next)
    (answered : state.testBucket asked key = .ok answer) :
    next.testBucket asked key = .ok answer ∨
      ∃ leftBuffer rightBuffer left right changedLeft changedRight,
        PlannedPair state asked key leftBuffer rightBuffer ∧
          state.buffers leftBuffer = some left ∧ state.buffers rightBuffer = some right ∧
          next.buffers leftBuffer = some changedLeft ∧
          next.buffers rightBuffer = some changedRight ∧
          answer = plannedMeet left right ∧
          next.testBucket asked key = .ok (plannedMeet changedLeft changedRight) := by
  unfold testBucket at answered ⊢
  by_cases selected : selects asked key = true
  · rw [if_pos selected] at answered ⊢
    exact keyMayOverlap_readdressed same selected answered
  · rw [if_neg selected] at answered ⊢
    exact .inl answered

theorem askOverlap_eq_ok {asked : OverlapKey}
    (answered : state.askOverlap asked = .ok (overlaps, next)) :
    ∃ memo, memoized state.regionsOverlap (some overlapLimit) state.overlapCache asked =
      .ok (overlaps, memo) ∧ next = { state with overlapCache := memo } := by
  unfold askOverlap at answered
  match found : memoized state.regionsOverlap (some overlapLimit) state.overlapCache asked,
      answered with
  | .ok (value, memo), answered =>
    obtain ⟨rfl, rfl⟩ := Prod.mk.inj (Except.ok.inj answered)
    exact ⟨memo, rfl, rfl⟩

theorem CachesValid.askOverlap {asked : OverlapKey} (valid : state.CachesValid)
    (answered : state.askOverlap asked = .ok (overlaps, next)) : next.CachesValid := by
  obtain ⟨memo, recalled, rfl⟩ := askOverlap_eq_ok answered
  exact ⟨valid.1.memoized recalled, valid.2⟩

theorem CachesValid.askCandidates (valid : state.CachesValid)
    (answered : state.askCandidates asked = .ok (keys, next)) : next.CachesValid := by
  unfold HazardState.askCandidates at answered
  match found : memoized state.candidateKeys none state.candidateCache asked, answered with
  | .ok (value, memo), answered =>
    obtain ⟨_, rfl⟩ := Prod.mk.inj (Except.ok.inj answered)
    exact ⟨valid.1, valid.2.memoized found⟩

theorem candidateKeys_congr (sameBuffers : next.buffers = state.buffers)
    (sameAliases : next.aliases = state.aliases)
    (sameBuckets : ∀ kind, (next.history kind).map Prod.fst = (state.history kind).map Prod.fst) :
    next.candidateKeys = state.candidateKeys := by
  funext asked
  unfold candidateKeys keyMayOverlap resolved
  rw [sameBuffers, sameAliases, sameBuckets]

theorem regionsOverlap_eq (sameBuffers : next.buffers = state.buffers)
    (sameAliases : next.aliases = state.aliases) : next.regionsOverlap = state.regionsOverlap := by
  have specs : next.specOf = state.specOf := by
    funext name
    rw [specOf, specOf, sameBuffers]
  funext asked
  unfold HazardState.regionsOverlap resolved
  rw [sameBuffers, sameAliases, specs]

theorem history_setHistory (kind other : HistoryKind) (buckets : Buckets) :
    (state.setHistory kind buckets).history other =
      if other = kind then buckets else state.history other := by
  cases kind with
  | lastWrites =>
    cases other with
    | lastWrites => rfl
    | lastReads => rfl
  | lastReads =>
    cases other with
    | lastWrites => rfl
    | lastReads => rfl

theorem setHistory_fields (kind : HistoryKind) (buckets : Buckets) :
    (state.setHistory kind buckets).buffers = state.buffers ∧
      (state.setHistory kind buckets).aliases = state.aliases ∧
      (state.setHistory kind buckets).overlapCache = state.overlapCache ∧
      (state.setHistory kind buckets).candidateCache = state.candidateCache := by
  cases kind with
  | lastWrites => exact ⟨rfl, rfl, rfl, rfl⟩
  | lastReads => exact ⟨rfl, rfl, rfl, rfl⟩

theorem appendEntry_keys {entry : BucketEntry} {buckets : Buckets}
    (known : key ∈ buckets.map Prod.fst) :
    (appendEntry key entry buckets).map Prod.fst = buckets.map Prod.fst := by
  induction buckets with
  | nil =>
    cases known
  | cons bucket rest ih =>
    obtain ⟨other, entries⟩ := bucket
    unfold appendEntry
    split
    · rfl
    · rename_i different
      rcases List.mem_cons.mp known with same | inRest
      · exact absurd same.symm different
      · rw [List.map_cons, List.map_cons, ih inRest]

theorem appendHistory_fields (kind : HistoryKind) (key : BucketKey) (entry : BucketEntry) :
    (state.appendHistory kind key entry).buffers = state.buffers ∧
      (state.appendHistory kind key entry).aliases = state.aliases ∧
      (state.appendHistory kind key entry).overlapCache = state.overlapCache ∧
      (state.appendHistory kind key entry).candidateCache =
        if key ∈ (state.history kind).map Prod.fst then state.candidateCache else [] := by
  cases kind with
  | lastWrites => exact ⟨rfl, rfl, rfl, rfl⟩
  | lastReads => exact ⟨rfl, rfl, rfl, rfl⟩

theorem history_appendHistory (kind other : HistoryKind) (key : BucketKey) (entry : BucketEntry) :
    (state.appendHistory kind key entry).history other =
      if other = kind then appendEntry key entry (state.history kind)
      else state.history other := by
  cases kind with
  | lastWrites =>
    cases other with
    | lastWrites => rfl
    | lastReads => rfl
  | lastReads =>
    cases other with
    | lastWrites => rfl
    | lastReads => rfl

theorem CachesValid.appendHistory (valid : state.CachesValid) (kind : HistoryKind)
    (key : BucketKey) (entry : BucketEntry) :
    (state.appendHistory kind key entry).CachesValid := by
  obtain ⟨buffers, aliases, overlapCache, candidateCache⟩ :=
    @appendHistory_fields state kind key entry
  constructor
  · rw [regionsOverlap_eq buffers aliases, overlapCache]
    exact valid.1
  · rw [candidateCache]
    split
    · rename_i known
      rw [candidateKeys_congr buffers aliases]
      · exact valid.2
      · intro other
        rw [history_appendHistory]
        split
        · rename_i same
          rw [appendEntry_keys known, same]
        · rfl
    · exact valid_nil

theorem pruneEntries_eq_ok {entries kept : List BucketEntry} (valid : state.CachesValid)
    (pruned : pruneEntries region coreId entries state = .ok (kept, next)) : next.CachesValid := by
  induction entries generalizing state kept with
  | nil =>
    obtain ⟨_, rfl⟩ := Prod.mk.inj (Except.ok.inj pruned)
    exact valid
  | cons entry rest ih =>
    unfold pruneEntries at pruned
    obtain ⟨⟨overlaps, asked⟩, answered, pruned⟩ := exceptBind_eq_ok.mp pruned
    obtain ⟨⟨others, last⟩, restPruned, pruned⟩ := exceptBind_eq_ok.mp pruned
    obtain ⟨_, rfl⟩ := Prod.mk.inj (Except.ok.inj pruned)
    exact ih (valid.askOverlap answered) restPruned

theorem setEntries_keys (key : BucketKey) (entries : List BucketEntry) (buckets : Buckets) :
    (setEntries key entries buckets).map Prod.fst = buckets.map Prod.fst := by
  unfold setEntries
  rw [List.map_map]
  apply List.map_congr_left
  intro bucket _
  simp only [Function.comp_apply]
  split
  · rfl
  · rfl

theorem CachesValid.pruneHistory {kind : HistoryKind} (valid : state.CachesValid)
    (pruned : state.pruneHistory kind key region coreId = .ok next) : next.CachesValid := by
  unfold HazardState.pruneHistory at pruned
  split at pruned
  · obtain rfl := Except.ok.inj pruned
    exact valid
  · obtain ⟨⟨kept, asked⟩, entriesPruned, pruned⟩ := exceptBind_eq_ok.mp pruned
    obtain rfl := Except.ok.inj pruned
    have askedValid := pruneEntries_eq_ok valid entriesPruned
    obtain ⟨buffers, aliases, overlapCache, candidateCache⟩ := @setHistory_fields asked kind
      (setEntries key kept (asked.history kind))
    constructor
    · rw [regionsOverlap_eq buffers aliases, overlapCache]
      exact askedValid.1
    · rw [candidateKeys_congr buffers aliases, candidateCache]
      · exact askedValid.2
      · intro other
        rw [history_setHistory]
        split
        · rename_i same
          rw [setEntries_keys, same]
        · rfl

theorem cachesValid_addAlias (scope : MemoryScope) (owner : Option Nat)
    (destination source : String) : (state.addAlias scope owner destination source).CachesValid :=
  ⟨valid_nil, valid_nil⟩

theorem valid_candidates_of_tests (valid : Valid state.candidateKeys state.candidateCache)
    (sameBuckets : ∀ kind, (next.history kind).map Prod.fst = (state.history kind).map Prod.fst)
    (sameTests : ∀ asked key outcome, (state.candidateCache.lookup asked).isSome = true →
      key ∈ (state.history asked.history).map Prod.fst →
      state.testBucket asked key = .ok outcome →
      next.testBucket asked key = .ok outcome) :
    Valid next.candidateKeys state.candidateCache := by
  refine valid.change_iff.mpr fun asked remembered => ?_
  obtain ⟨keys, found⟩ := Option.isSome_iff_exists.mp remembered
  have answered := valid asked keys found
  have unchanged : ∀ key ∈ (state.history asked.history).map Prod.fst,
      next.testBucket asked key = state.testBucket asked key := by
    intro key member
    obtain ⟨outcome, outcomeIs⟩ := testBucket_of_candidateKeys answered member
    rw [outcomeIs, sameTests asked key outcome remembered member outcomeIs]
  refine (candidateKeys_eq_iff (sameBuckets asked.history) answered ?_).mpr unchanged
  intro key member
  rw [unchanged key member]
  exact testBucket_of_candidateKeys answered member

theorem CachesValid.declare (valid : state.CachesValid) (name : String)
    (declared : DeclaredBuffer) : (state.declare name declared).CachesValid := by
  have kept : ∀ other known, state.buffers other = some known →
      (state.declare name declared).buffers other = some known := by
    intro other known isKnown
    simp only [HazardState.declare, isKnown]
  have same : Readdressed state (state.declare name declared) :=
    ⟨rfl, fun other known isKnown => ⟨known, kept other known isKnown, rfl⟩⟩
  constructor
  · refine valid.1.change_iff.mpr fun asked remembered => ?_
    obtain ⟨answer, found⟩ := Option.isSome_iff_exists.mp remembered
    have answered := valid.1 asked answer found
    rw [answered]
    rcases regionsOverlap_readdressed same answered with
      unchanged | ⟨_, _, left, right, _, _, _, _, leftIs, rightIs, newLeft, newRight, _, old, new⟩
    · exact unchanged
    · obtain rfl := Option.some.inj ((kept _ _ leftIs).symm.trans newLeft)
      obtain rfl := Option.some.inj ((kept _ _ rightIs).symm.trans newRight)
      rw [new, old]
  · change Valid (state.declare name declared).candidateKeys state.candidateCache
    refine valid_candidates_of_tests valid.2 ?_ ?_
    · intro kind
      cases kind with
      | lastWrites => rfl
      | lastReads => rfl
    · intro asked key outcome _ _ tested
      rcases testBucket_readdressed same tested with
        unchanged | ⟨_, _, left, right, _, _, _, leftIs, rightIs, newLeft, newRight, old, new⟩
      · exact unchanged
      · obtain rfl := Option.some.inj ((kept _ _ leftIs).symm.trans newLeft)
        obtain rfl := Option.some.inj ((kept _ _ rightIs).symm.trans newRight)
        rw [new, old]

end Steps

/-! ## Reservations -/

section Reservations

variable {state next : HazardState} {name : String} {requiredBytes : Nat}

section

variable (reserved : state.reserve name requiredBytes = .ok next)
include reserved

theorem reserve_eq_ok :
    next = { state with
      buffers := fun other => (state.buffers other).map (growIf name requiredBytes other) } := by
  unfold HazardState.reserve at reserved
  split at reserved
  · cases reserved
  · exact (Except.ok.inj reserved).symm

theorem buffers_reserve {other : String} {declared : DeclaredBuffer}
    (isDeclared : state.buffers other = some declared) :
    next.buffers other = some (growIf name requiredBytes other declared) := by
  rw [reserve_eq_ok reserved]
  simp only [isDeclared, Option.map_some]

theorem readdressed_reserve :
    Readdressed state next where
  sameAliases := by rw [reserve_eq_ok reserved]
  declared other declared isDeclared :=
    ⟨_, buffers_reserve reserved isDeclared, growIf_address name requiredBytes other declared⟩

end

theorem bases_growIf (leftBuffer rightBuffer : String) (left right : DeclaredBuffer) :
    bases leftBuffer rightBuffer (growIf name requiredBytes leftBuffer left)
        (growIf name requiredBytes rightBuffer right) =
      bases leftBuffer rightBuffer left right := by
  rw [bases, bases, growIf_address, growIf_address]

variable {leftBuffer rightBuffer : String} {asked : OverlapKey} {key : BucketKey}
  {left right : DeclaredBuffer}

theorem SizedPair.readdressed
    (same : Readdressed state next)
    (pair : SizedPair state asked leftBuffer rightBuffer) :
    SizedPair next asked leftBuffer rightBuffer where
  sameScope := pair.sameScope
  access := pair.access
  runtimeBounds := pair.runtimeBounds
  leftIs := by rw [same.resolved, ← pair.leftIs]
  rightIs := by rw [same.resolved, ← pair.rightIs]

theorem PlannedPair.readdressed
    {asked : CandidateKey}
    (same : Readdressed state next)
    (pair : PlannedPair state asked key leftBuffer rightBuffer) :
    PlannedPair next asked key leftBuffer rightBuffer where
  selected := pair.selected
  access := pair.access
  leftIs := by rw [same.resolved, ← pair.leftIs]
  rightIs := by rw [same.resolved, ← pair.rightIs]
  different := pair.different

/-- Growth that meets nothing new keeps the overlap cache. -/
theorem valid_overlaps_reserve (valid : Valid state.regionsOverlap state.overlapCache)
    (reserved : state.reserve name requiredBytes = .ok next)
    (clear : GrowthMeetsNothingNew state name requiredBytes) :
    Valid next.regionsOverlap state.overlapCache := by
  refine valid.change_iff.mpr fun asked remembered => ?_
  obtain ⟨answer, found⟩ := Option.isSome_iff_exists.mp remembered
  have answered := valid asked answer found
  rw [answered]
  rcases regionsOverlap_readdressed (readdressed_reserve reserved) answered with
    unchanged | ⟨leftBuffer, rightBuffer, left, right, _, _, compared, pair, leftIs, rightIs,
      newLeft, newRight, basesAre, old, new⟩
  · exact unchanged
  · obtain rfl := Option.some.inj ((buffers_reserve reserved leftIs).symm.trans newLeft)
    obtain rfl := Option.some.inj ((buffers_reserve reserved rightIs).symm.trans newRight)
    have sameMeet : declaredMeet compared (growIf name requiredBytes leftBuffer left)
        (growIf name requiredBytes rightBuffer right) = declaredMeet compared left right :=
      Bool.eq_iff_iff.mpr ⟨clear.overlaps asked leftBuffer rightBuffer left right compared
        remembered pair leftIs rightIs basesAre, declaredMeet_growIf⟩
    rw [new, old, sameMeet]

/-- Growth that meets nothing new keeps the candidate cache. -/
theorem valid_candidates_reserve (valid : Valid state.candidateKeys state.candidateCache)
    (reserved : state.reserve name requiredBytes = .ok next)
    (clear : GrowthMeetsNothingNew state name requiredBytes) :
    Valid next.candidateKeys state.candidateCache := by
  refine valid_candidates_of_tests valid ?_ ?_
  · intro kind
    rw [reserve_eq_ok reserved]
    cases kind with
    | lastWrites => rfl
    | lastReads => rfl
  · intro asked key outcome remembered member tested
    rcases testBucket_readdressed (readdressed_reserve reserved) tested with
      unchanged | ⟨leftBuffer, rightBuffer, left, right, _, _, pair, leftIs, rightIs, newLeft,
        newRight, old, new⟩
    · exact unchanged
    · obtain rfl := Option.some.inj ((buffers_reserve reserved leftIs).symm.trans newLeft)
      obtain rfl := Option.some.inj ((buffers_reserve reserved rightIs).symm.trans newRight)
      have sameMeet : plannedMeet (growIf name requiredBytes leftBuffer left)
          (growIf name requiredBytes rightBuffer right) = plannedMeet left right :=
        Bool.eq_iff_iff.mpr ⟨clear.candidates asked key leftBuffer rightBuffer left right
          remembered member pair leftIs rightIs, plannedMeet_growIf⟩
      rw [new, old, sameMeet]

theorem meets_of_valid_overlaps {compared : Nat × Nat}
    (valid : Valid state.regionsOverlap state.overlapCache)
    (reserved : state.reserve name requiredBytes = .ok next)
    (validNext : Valid next.regionsOverlap state.overlapCache)
    (remembered : (state.overlapCache.lookup asked).isSome = true)
    (pair : SizedPair state asked leftBuffer rightBuffer)
    (leftIs : state.buffers leftBuffer = some left)
    (rightIs : state.buffers rightBuffer = some right)
    (basesAre : bases leftBuffer rightBuffer left right = some compared)
    (meet : declaredMeet compared (growIf name requiredBytes leftBuffer left)
      (growIf name requiredBytes rightBuffer right) = true) :
    declaredMeet compared left right = true := by
  have unchanged := valid.change_iff.mp validNext asked remembered
  rw [regionsOverlap_sized pair leftIs rightIs basesAre,
    regionsOverlap_sized (pair.readdressed (readdressed_reserve reserved))
      (buffers_reserve reserved leftIs) (buffers_reserve reserved rightIs)
      ((bases_growIf leftBuffer rightBuffer left right).trans basesAre), meet] at unchanged
  exact (Except.ok.inj unchanged).symm

theorem meets_of_valid_candidates {asked : CandidateKey}
    (valid : Valid state.candidateKeys state.candidateCache)
    (reserved : state.reserve name requiredBytes = .ok next)
    (validNext : Valid next.candidateKeys state.candidateCache)
    (remembered : (state.candidateCache.lookup asked).isSome = true)
    (member : key ∈ (state.history asked.history).map Prod.fst)
    (pair : PlannedPair state asked key leftBuffer rightBuffer)
    (leftIs : state.buffers leftBuffer = some left)
    (rightIs : state.buffers rightBuffer = some right)
    (meet : plannedMeet (growIf name requiredBytes leftBuffer left)
      (growIf name requiredBytes rightBuffer right) = true) :
    plannedMeet left right = true := by
  obtain ⟨keys, found⟩ := Option.isSome_iff_exists.mp remembered
  have answered := valid asked keys found
  have unchanged := valid.change_iff.mp validNext asked remembered
  have sameBuckets :
      (next.history asked.history).map Prod.fst = (state.history asked.history).map Prod.fst := by
    rw [reserve_eq_ok reserved]
    cases asked.history with
    | lastWrites => rfl
    | lastReads => rfl
  have tested : ∀ other ∈ (state.history asked.history).map Prod.fst,
      ∃ outcome, next.testBucket asked other = .ok outcome := by
    intro other isBucket
    obtain ⟨outcome, outcomeIs⟩ := testBucket_of_candidateKeys answered isBucket
    rcases testBucket_readdressed (readdressed_reserve reserved) outcomeIs with
      same | ⟨_, _, _, _, _, _, _, _, _, _, _, _, new⟩
    · exact ⟨outcome, same⟩
    · exact ⟨_, new⟩
  have sameTest := (candidateKeys_eq_iff sameBuckets answered tested).mp unchanged key member
  rw [testBucket_planned pair leftIs rightIs,
    testBucket_planned (pair.readdressed (readdressed_reserve reserved))
      (buffers_reserve reserved leftIs) (buffers_reserve reserved rightIs), meet] at sameTest
  exact (Except.ok.inj sameTest).symm

/-- Growth keeps the caches exactly if it meets nothing new. -/
theorem CachesValid.reserve_iff (valid : state.CachesValid)
    (reserved : state.reserve name requiredBytes = .ok next) :
    next.CachesValid ↔ GrowthMeetsNothingNew state name requiredBytes := by
  have sameOverlaps : next.overlapCache = state.overlapCache := by rw [reserve_eq_ok reserved]
  have sameCandidates : next.candidateCache = state.candidateCache := by
    rw [reserve_eq_ok reserved]
  unfold CachesValid
  rw [sameOverlaps, sameCandidates]
  constructor
  · rintro ⟨overlapsValid, candidatesValid⟩
    constructor
    · intro asked leftBuffer rightBuffer left right compared remembered pair leftIs rightIs
        basesAre meet
      exact meets_of_valid_overlaps valid.1 reserved overlapsValid remembered pair leftIs
        rightIs basesAre meet
    · intro asked key leftBuffer rightBuffer left right remembered member pair leftIs rightIs
        meet
      exact meets_of_valid_candidates valid.2 reserved candidatesValid remembered member pair
        leftIs rightIs meet
  · intro clear
    exact ⟨valid_overlaps_reserve valid.1 reserved clear,
      valid_candidates_reserve valid.2 reserved clear⟩

end Reservations

/-! ## Runs -/

/-- A build starts with empty histories and tables. -/
def initial (buffers : String → Option DeclaredBuffer) : HazardState :=
  ⟨buffers, [], [], [], [], []⟩

/-- The condition of a step that keeps the answers right. -/
def StepClear
    (state : HazardState) :
    HazardAction → Prop
  | .reserve name requiredBytes => GrowthMeetsNothingNew state name requiredBytes
  | _ => True

/-- The tables cannot be noticed at any point of a build. -/
def TransparentThroughout : HazardState → List HazardAction → Prop
  | state, [] => state.CachesTransparent
  | state, action :: rest =>
    state.CachesTransparent ∧ ∀ next, state.step action = .ok next → TransparentThroughout next rest

/-- Every step of a build that succeeds meets the condition. -/
def ClearThroughout : HazardState → List HazardAction → Prop
  | _, [] => True
  | state, action :: rest =>
    ∀ next, state.step action = .ok next → StepClear state action ∧ ClearThroughout next rest

variable {state : HazardState} {actions : List HazardAction}

/-- A step keeps the caches exactly if it is clear. -/
theorem CachesValid.step_iff {next : HazardState} {action : HazardAction}
    (valid : state.CachesValid) (stepped : state.step action = .ok next) :
    next.CachesValid ↔ StepClear state action := by
  cases action with
  | askOverlap asked =>
    refine iff_of_true ?_ trivial
    match answered : state.askOverlap asked, stepped with
    | .ok (_, _), stepped =>
      simp only [HazardState.step, answered, Except.map] at stepped
      obtain rfl := Except.ok.inj stepped
      exact valid.askOverlap answered
    | .error _, stepped =>
      simp only [HazardState.step, answered, Except.map] at stepped
      cases stepped
  | askCandidates asked =>
    refine iff_of_true ?_ trivial
    match answered : state.askCandidates asked, stepped with
    | .ok (_, _), stepped =>
      simp only [HazardState.step, answered, Except.map] at stepped
      obtain rfl := Except.ok.inj stepped
      exact valid.askCandidates answered
    | .error _, stepped =>
      simp only [HazardState.step, answered, Except.map] at stepped
      cases stepped
  | append kind key entry =>
    obtain rfl := Except.ok.inj stepped
    exact iff_of_true (valid.appendHistory kind key entry) trivial
  | prune kind key region coreId => exact iff_of_true (valid.pruneHistory stepped) trivial
  | reserve name requiredBytes => exact valid.reserve_iff stepped
  | declare name declared =>
    obtain rfl := Except.ok.inj stepped
    exact iff_of_true (valid.declare name declared) trivial
  | addAlias scope owner destination source =>
    obtain rfl := Except.ok.inj stepped
    exact iff_of_true (cachesValid_addAlias scope owner destination source) trivial

/-- The caches are never seen exactly if all steps are clear. -/
theorem CachesValid.transparentThroughout_iff (valid : state.CachesValid) :
    TransparentThroughout state actions ↔ ClearThroughout state actions := by
  induction actions generalizing state with
  | nil => exact iff_of_true (cachesTransparent_iff.mpr valid) trivial
  | cons action rest ih =>
    unfold TransparentThroughout ClearThroughout
    constructor
    · rintro ⟨_, later⟩ next stepped
      have throughout := later next stepped
      have transparent : next.CachesTransparent := by
        cases rest with
        | nil => exact throughout
        | cons _ _ => exact throughout.1
      have validNext := cachesTransparent_iff.mp transparent
      exact ⟨(valid.step_iff stepped).mp validNext, (ih validNext).mp throughout⟩
    · intro clear
      refine ⟨cachesTransparent_iff.mpr valid, fun next stepped => ?_⟩
      obtain ⟨stepClear, later⟩ := clear next stepped
      exact (ih ((valid.step_iff stepped).mpr stepClear)).mpr later

theorem TransparentThroughout.last {last : HazardState}
    (throughout : TransparentThroughout state actions)
    (run : actions.foldlM HazardState.step state = .ok last) : last.CachesTransparent := by
  induction actions generalizing state with
  | nil =>
    obtain rfl := Except.ok.inj run
    exact throughout
  | cons action rest ih =>
    rw [List.foldlM_cons] at run
    obtain ⟨next, stepped, run⟩ := exceptBind_eq_ok.mp run
    exact ih (throughout.2 next stepped) run

/--
In a build the tables cannot be noticed at any point, if and only if every reservation gives no
buffer a range that newly meets that of one with which a remembered answer has compared it.
-/
theorem cachesTransparent_throughout_iff
    (buffers : String → Option DeclaredBuffer)
    (actions : List HazardAction) :
    TransparentThroughout (initial buffers) actions ↔ ClearThroughout (initial buffers) actions :=
  CachesValid.transparentThroughout_iff ⟨valid_nil, valid_nil⟩


/-- The elements of the tiles. -/
def tileElement : DType :=
  .numeric 32 1 wholeBytes_32

/-- Two planned tiles of `float32[16, 12]`, one behind the other. -/
def adjacentTiles (name : String) : Option DeclaredBuffer :=
  if name = "A_L1" then
    some ⟨.l1, [.int 16, .int 12], tileElement, some 768, some 0, true⟩
  else if name = "B_L1" then
    some ⟨.l1, [.int 16, .int 12], tileElement, some 768, some 768, true⟩
  else
    none

/-- The bucket of the writes of a copy to a tile. -/
def tileBucket (name : String) : BucketKey :=
  ⟨.cube, .l1, 0, name⟩

/-- The selection of earlier writes for a tile. -/
def tileWrites (name : String) : CandidateKey :=
  ⟨.lastWrites, .cube, .l1, 0, name, false⟩

/-- The access of a task that fills a tile. -/
def tileEntry (name : String) (taskId : String) : BucketEntry :=
  ⟨⟨name, .l1, [.int 16, .int 12], tileElement, .int 0, none, some 0, nofun⟩, taskId, .cube, 0⟩

/--
Linear copies fill both tiles and the second is filled again; then a `zN` copy reserves four bands
of `float32[16, 8]` of the first, which reach into the second.
-/
def refillThenReserve : List HazardAction :=
  [.append .lastWrites (tileBucket "A_L1") (tileEntry "A_L1" "0"),
    .append .lastWrites (tileBucket "B_L1") (tileEntry "B_L1" "1"),
    .askCandidates (tileWrites "B_L1"),
    .reserve "A_L1" 1024]

theorem candidateKeys_afterRefill {last : HazardState}
    (run : refillThenReserve.foldlM step (initial adjacentTiles) = .ok last) :
    (memoized last.candidateKeys none last.candidateCache (tileWrites "B_L1")).map Prod.fst =
        .ok [tileBucket "B_L1"] ∧
      last.candidateKeys (tileWrites "B_L1") = .ok [tileBucket "A_L1", tileBucket "B_L1"] := by
  obtain rfl := Except.ok.inj run
  exact ⟨by decide, by decide⟩

/-- The tables can be noticed: the writes of the first tile are missing for the second. -/
theorem not_transparentThroughout_refillThenReserve :
    ¬ TransparentThroughout (initial adjacentTiles) refillThenReserve := by
  intro throughout
  obtain ⟨remembered, computed⟩ := candidateKeys_afterRefill rfl
  have transparent := (throughout.last rfl).2 (tileWrites "B_L1")
  rw [remembered, computed] at transparent
  exact absurd transparent (by decide)

end HazardState

end TilelangAscend.Simulator.Bridge
