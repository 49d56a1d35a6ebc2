import TilelangAscend.BufferLiveness
import TilelangAscend.PlannedRanges

namespace TilelangAscend.MemoryPlanning

open ListHistory
open LoopPrograms

/-!
# Values in reused memory

The live interval of a buffer contains all its touches and all loops that begin after its first
touch and touch it.  Where no value of a buffer is carried from one iteration to the next of a
loop that contains the first touch, this is enough: a written value is read before another
buffer with the same memory is written.
-/

/-! ## Entries of a program -/

theorem length_linearEntries (program : Program) (index level : Nat) :
    (linearEntries program index level).length = program.length := by
  induction program generalizing index level with
  | done => rfl
  | touch statement rest ih =>
    simp only [linearEntries, List.length_cons, ih, Body.length]
    omega
  | loop kind body rest bodyIh restIh =>
    simp only [linearEntries, List.length_cons, List.length_append, bodyIh, restIh, Body.length]
    omega

theorem zipIdx_linearEntries_loop (kind : LoopKind) (body rest : Program) (index level : Nat) :
    (linearEntries (.loop kind body rest) index level).zipIdx index =
      ({ stmt := .loop index
         level := kind.innerLevel level
         scopePairOffset := body.length + 1 }, index) ::
        ((linearEntries body (index + 1) (kind.innerLevel level)).zipIdx (index + 1) ++
          ({ stmt := .loop index
             level := kind.innerLevel level
             scopePairOffset := -(body.length + 1) }, index + 1 + body.length) ::
            (linearEntries rest (index + 2 + body.length) level).zipIdx
              (index + 2 + body.length)) := by
  rw [linearEntries, List.zipIdx_cons, List.zipIdx_append, List.zipIdx_cons, length_linearEntries]
  have next : index + 1 + body.length + 1 = index + 2 + body.length := by omega
  rw [next]

variable {program : Program} {index level first last : Nat} {buffer : Buffer}
  {seq : List (StmtEntry × Nat)} {sizes : Buffer → UInt64} {interval : LiveInterval}
  {buffers : List Buffer}

theorem linearEntries_shape {item : StmtEntry × Nat}
    (member : item ∈ (linearEntries program index level).zipIdx index) :
    item.1.stmt = .statement item.2 ∨
      (∃ start, item.1.stmt = .loop start) ∧ item.1.touched = [] := by
  induction program generalizing index level with
  | done => simp [linearEntries] at member
  | touch statement rest ih =>
    rw [linearEntries, List.zipIdx_cons] at member
    rcases List.mem_cons.mp member with isHead | inRest
    · rw [isHead]
      exact Or.inl rfl
    · exact ih inRest
  | loop kind body rest bodyIh restIh =>
    rw [zipIdx_linearEntries_loop] at member
    rcases List.mem_cons.mp member with isOpening | inTail
    · rw [isOpening]
      exact Or.inr ⟨⟨index, rfl⟩, rfl⟩
    · rcases List.mem_append.mp inTail with inBody | inEnd
      · exact bodyIh inBody
      · rcases List.mem_cons.mp inEnd with isClosing | inRest
        · rw [isClosing]
          exact Or.inr ⟨⟨index, rfl⟩, rfl⟩
        · exact restIh inRest

theorem exists_touching_entry (touches : program.Touches buffer) :
    ∃ item ∈ (linearEntries program index level).zipIdx index, buffer ∈ item.1.touched := by
  induction program generalizing index level with
  | done => exact touches.elim
  | touch statement rest ih =>
    rw [linearEntries, List.zipIdx_cons]
    rcases touches with inStatement | inRest
    · exact ⟨_, List.mem_cons_self, List.mem_append.mpr inStatement⟩
    · obtain ⟨item, member, touched⟩ := ih inRest
      exact ⟨item, List.mem_cons_of_mem _ member, touched⟩
  | loop kind body rest bodyIh restIh =>
    rw [zipIdx_linearEntries_loop]
    rcases touches with inBody | inRest
    · obtain ⟨item, member, touched⟩ := bodyIh inBody
      exact ⟨item, List.mem_cons_of_mem _ (List.mem_append_left _ member), touched⟩
    · obtain ⟨item, member, touched⟩ := restIh inRest
      exact ⟨item,
        List.mem_cons_of_mem _ (List.mem_append_right _ (List.mem_cons_of_mem _ member)),
        touched⟩

/-! ## Intervals that cover a buffer -/

/--
A range of indices contains the touches of a buffer among some entries, and the loops of these
entries that begin after the start of the range and touch the buffer.
-/
structure CoversEntries
    (buffer : Buffer)
    (first last : Nat)
    (seq : List (StmtEntry × Nat)) :
    Prop where
  touches :
    ∀ item ∈ seq, buffer ∈ item.1.touched → first ≤ item.2 ∧ item.2 ≤ last
  loops :
    ∀ item ∈ seq,
      ∀ start, item.1.stmt = .loop start → 0 < item.1.scopePairOffset →
        first ≤ item.2 →
        (∃ inner ∈ seq,
          buffer ∈ inner.1.touched ∧ item.2 < inner.2 ∧
            inner.2 < item.2 + item.1.scopePairOffset.toNat) →
        item.2 + item.1.scopePairOffset.toNat ≤ last

theorem CoversEntries.subset
    {part : List (StmtEntry × Nat)}
    (covers : CoversEntries buffer first last seq)
    (isPart : part ⊆ seq) :
    CoversEntries buffer first last part where
  touches item member := covers.touches item (isPart member)
  loops item member start isLoop opens begun inner :=
    covers.loops item (isPart member) start isLoop opens begun
      ⟨inner.choose, isPart inner.choose_spec.1, inner.choose_spec.2⟩

theorem CoversEntries.covered {touched after : Prop}
    (covers : CoversEntries buffer first last ((linearEntries program index level).zipIdx index))
    (started : touched → first ≤ index)
    (carries : CarriesNothing buffer program touched after) :
    Covered buffer first last program index after := by
  induction program generalizing index level touched after with
  | done => trivial
  | touch statement rest ih =>
    rw [linearEntries, List.zipIdx_cons] at covers
    have inRange :
        buffer ∈ statement.reads ∨ buffer ∈ statement.writes →
        first ≤ index ∧ index ≤ last := by
      intro inStatement
      exact covers.touches _ List.mem_cons_self (List.mem_append.mpr inStatement)
    refine ⟨inRange, ih (covers.subset (List.subset_cons_self _ _)) ?_ carries⟩
    rintro (before | here)
    · have := started before
      omega
    · have := inRange here
      omega
  | loop kind body rest bodyIh restIh =>
    rw [zipIdx_linearEntries_loop] at covers
    obtain ⟨dead, bodyCarries, restCarries⟩ := carries
    have bodyCovers :=
      covers.subset fun item member => List.mem_cons_of_mem _ (List.mem_append_left _ member)
    have restCovers :=
      covers.subset fun item member =>
        List.mem_cons_of_mem _ (List.mem_append_right _ (List.mem_cons_of_mem _ member))
    have touchIn :
        body.Touches buffer →
        ∃ item ∈ (linearEntries body (index + 1) (kind.innerLevel level)).zipIdx (index + 1),
          buffer ∈ item.1.touched ∧ index < item.2 ∧ item.2 < index + 1 + body.length := by
      intro touches
      obtain ⟨item, member, isTouched⟩ := exists_touching_entry touches
      obtain ⟨above, below, _⟩ := List.mem_zipIdx member
      rw [length_linearEntries] at below
      exact ⟨item, member, isTouched, by omega, by omega⟩
    refine ⟨?_, ?_, bodyIh bodyCovers ?_ bodyCarries, restIh restCovers ?_ restCarries⟩
    · intro touches begun
      obtain ⟨item, member, isTouched, above, below⟩ := touchIn touches
      have reaches :=
        covers.loops _ List.mem_cons_self index rfl (by simp only; omega) begun
          ⟨item, List.mem_cons_of_mem _ (List.mem_append_left _ member), isTouched, above,
            by simp only; omega⟩
      simp only at reaches
      omega
    · intro writes outside
      exact dead writes fun before => absurd (started before) (by omega)
    · intro before
      have := started before
      omega
    · rintro (before | inBody)
      · have := started before
        omega
      · obtain ⟨item, member, isTouched, _, below⟩ := touchIn inBody
        have := bodyCovers.touches item member isTouched
        omega

/-! ## Live intervals cover their buffers -/

/-- Indexed entries: indices increase, statements stand at their index, loops touch nothing. -/
structure IndexedEntries (seq : List (StmtEntry × Nat)) : Prop where
  increasing : seq.Pairwise fun first second => first.2 < second.2
  shape :
    ∀ item ∈ seq,
      item.1.stmt = .statement item.2 ∨ (∃ start, item.1.stmt = .loop start) ∧ item.1.touched = []

theorem linearSeq_indexed (program : Program) : IndexedEntries (linearSeq program) where
  increasing := by
    have increasing : ((linearSeq program).map Prod.snd).Pairwise (· < ·) := by
      unfold linearSeq
      rw [List.zipIdx_map_snd]
      exact List.pairwise_lt_range'
    exact List.pairwise_map.mp increasing
  shape _ member := linearEntries_shape member

theorem exists_kept_of_mem_dropWhile {α : Type} {related : α → α → Prop} {test : α → Bool}
    {items : List α} {item : α} (sorted : items.Pairwise related)
    (member : item ∈ items.dropWhile test) :
    ∃ first ∈ items, test first = false ∧ (item = first ∨ related first item) := by
  induction items with
  | nil => simp at member
  | cons head rest ih =>
    obtain ⟨headFirst, restSorted⟩ := List.pairwise_cons.mp sorted
    cases passes : test head with
    | true =>
      rw [List.dropWhile_cons_of_pos passes] at member
      obtain ⟨first, isFirst, kept⟩ := ih restSorted member
      exact ⟨first, List.mem_cons_of_mem _ isFirst, kept⟩
    | false =>
      rw [List.dropWhile_cons_of_neg (by simp [passes])] at member
      refine ⟨head, List.mem_cons_self, passes, ?_⟩
      rcases List.mem_cons.mp member with isHead | inRest
      · exact Or.inl isHead
      · exact Or.inr (headFirst item inRest)

theorem lastStmtAtLevel_mem {genLevel : Nat} {entries : List StmtEntry}
    {entry : StmtEntry} (found : lastStmtAtLevel genLevel entries = some entry) :
    entry ∈ entries := by
  induction entries with
  | nil =>
    cases found
  | cons head rest ih =>
    cases rest with
    | nil =>
      cases found
      exact List.mem_cons_self
    | cons next others =>
      rw [lastStmtAtLevel] at found
      split at found
      · cases found
        exact List.mem_cons_self
      · exact List.mem_cons_of_mem _ (ih found)

section Entries

variable {seq : List (StmtEntry × Nat)} {buffer : Buffer}

theorem IndexedEntries.eq_of_index (indexed : IndexedEntries seq)
    {first second : StmtEntry × Nat} (firstMember : first ∈ seq)
    (secondMember : second ∈ seq) (sameIndex : first.2 = second.2) : first = second := by
  have distinct : (seq.map Prod.snd).Nodup :=
    (List.pairwise_map.mpr indexed.increasing).imp fun below => Nat.ne_of_lt below
  exact List.inj_on_of_nodup_map distinct firstMember secondMember sameIndex

variable {item : StmtEntry × Nat} {kill : StmtEntry}

section

variable (indexed : IndexedEntries seq)
include indexed

theorem IndexedEntries.statement_of_touched (member : item ∈ seq)
    (touched : buffer ∈ item.1.touched) : item.1.stmt = .statement item.2 := by
  rcases indexed.shape item member with isStatement | ⟨_, untouched⟩
  · exact isStatement
  · rw [untouched] at touched
    cases touched

theorem IndexedEntries.index_of_statement {index : Nat} (member : item ∈ seq)
    (isStatement : item.1.stmt = .statement index) : item.2 = index := by
  rcases indexed.shape item member with ownIndex | ⟨⟨start, isLoop⟩, _⟩
  · rw [isStatement] at ownIndex
    injection ownIndex with same
    exact same.symm
  · rw [isStatement] at isLoop
    cases isLoop

theorem IndexedEntries.genEvent_first {gen : StmtEntry} (born : genEvent seq buffer = some gen) :
    ∃ index,
      (gen, index) ∈ seq ∧ buffer ∈ gen.touched ∧ gen.stmt = .statement index ∧
        ∀ item ∈ seq, buffer ∈ item.1.touched → index ≤ item.2 := by
  obtain ⟨⟨entry, index⟩, found, rfl⟩ := Option.map_eq_some_iff.mp born
  obtain ⟨passes, before, after, shape, untouched⟩ := List.find?_eq_some_iff_append.mp found
  have member : (entry, index) ∈ seq := by
    rw [shape]
    simp
  have touched : buffer ∈ entry.touched := by
    simpa [touchesBuffer] using passes
  refine ⟨index, member, touched, indexed.statement_of_touched member touched, ?_⟩
  intro item isItem itemTouched
  have increasing := indexed.increasing
  rw [shape] at isItem increasing
  rcases List.mem_append.mp isItem with inBefore | inRest
  · have fails := untouched item inBefore
    simp [touchesBuffer, itemTouched] at fails
  · rcases List.mem_cons.mp inRest with isFirst | inAfter
    · rw [isFirst]
    · exact Nat.le_of_lt
        ((List.pairwise_cons.mp (List.pairwise_append.mp increasing).2.1).1 item inAfter)

theorem IndexedEntries.killEvent_last (dies : killEvent seq buffer = some kill) :
    ∃ index,
      (kill, index) ∈ seq ∧ kill.stmt = .statement index ∧
        ∀ item ∈ seq, buffer ∈ item.1.touched → item.2 ≤ index := by
  obtain ⟨⟨entry, index⟩, found, rfl⟩ := Option.map_eq_some_iff.mp dies
  obtain ⟨before, after, shape, touched, untouched⟩ := lastWhere_eq_some found
  have member : (entry, index) ∈ seq := by
    rw [shape]
    simp
  refine ⟨index, member,
    indexed.statement_of_touched member (by simpa [touchesBuffer] using touched), ?_⟩
  intro item isItem itemTouched
  have increasing := indexed.increasing
  rw [shape] at isItem increasing
  rcases List.mem_append.mp isItem with inBefore | inRest
  · exact Nat.le_of_lt ((List.pairwise_append.mp increasing).2.2 item inBefore _ List.mem_cons_self)
  · rcases List.mem_cons.mp inRest with isLast | inAfter
    · rw [isLast]
    · have fails := untouched item inAfter
      simp [touchesBuffer, itemTouched] at fails

theorem IndexedEntries.statement_of_event {stmt : StmtRef} (event : hasEvent seq stmt) :
    ∃ index, stmt = .statement index := by
  obtain ⟨other, _, isEvent⟩ := List.any_eq_true.mp event
  rcases (Bool.or_eq_true _ _).mp isEvent with isGen | isKill
  · cases born : genEvent seq other with
    | none => simp [born] at isGen
    | some gen =>
      obtain ⟨index, _, _, isStatement, _⟩ := indexed.genEvent_first born
      exact ⟨index, by simpa [born, isStatement, eq_comm] using isGen⟩
  · cases dies : killEvent seq other with
    | none => simp [dies] at isKill
    | some kill =>
      obtain ⟨index, _, isStatement, _⟩ := indexed.killEvent_last dies
      exact ⟨index, by simpa [dies, isStatement, eq_comm] using isKill⟩

theorem IndexedEntries.reorderedKill_last (dies : reorderedKill seq buffer = some kill) :
    ∃ index,
      kill.stmt = .statement index ∧ ∀ item ∈ seq, buffer ∈ item.1.touched → item.2 ≤ index := by
  have unmoved : killEvent seq buffer = some kill →
      ∃ index,
        kill.stmt = .statement index ∧ ∀ item ∈ seq, buffer ∈ item.1.touched → item.2 ≤ index := by
    intro isKill
    obtain ⟨index, _, isStatement, isLast⟩ := indexed.killEvent_last isKill
    exact ⟨index, isStatement, isLast⟩
  unfold reorderedKill at dies
  split at dies
  · rename_i gen lastTouch _ isKill
    split at dies
    · have kept := lastStmtAtLevel_mem dies
      rw [genKillSeq, List.dropWhile_map] at kept
      obtain ⟨item, inSuffix, rfl⟩ := List.mem_map.mp kept
      obtain ⟨member, event⟩ := List.mem_filter.mp ((List.dropWhile_suffix _).subset inSuffix)
      obtain ⟨index, isStatement⟩ := indexed.statement_of_event event
      have ownIndex := indexed.index_of_statement member isStatement
      obtain ⟨first, isFirst, stops, behind⟩ :=
        exists_kept_of_mem_dropWhile (indexed.increasing.filter _) inSuffix
      obtain ⟨lastIndex, _, lastStatement, isLast⟩ := indexed.killEvent_last isKill
      have firstIndex : first.2 = lastIndex := by
        refine indexed.index_of_statement (List.mem_filter.mp isFirst).1 ?_
        rw [← lastStatement]
        simpa using stops
      refine ⟨index, isStatement, ?_⟩
      intro other isOther touched
      have notAfter := isLast other isOther touched
      rcases behind with same | later
      · rw [same] at ownIndex
        omega
      · omega
    · exact unmoved (isKill.trans dies)
  · exact unmoved dies

theorem IndexedEntries.genIndex_first {first : Nat} (starts : genIndex seq buffer = some first) :
    ∃ gen : StmtEntry,
      (gen, first) ∈ seq ∧ buffer ∈ gen.touched ∧ gen.stmt = .statement first ∧
        ∀ item ∈ seq, buffer ∈ item.1.touched → first ≤ item.2 := by
  obtain ⟨gen, born, found⟩ := Option.bind_eq_some_iff.mp starts
  obtain ⟨index, member, touched, isStatement, isFirst⟩ := indexed.genEvent_first born
  obtain ⟨item, isItem, rfl⟩ := Option.map_eq_some_iff.mp found
  have sameStmt : item.1.stmt = gen.stmt := by
    simpa using List.find?_some isItem
  have atIndex : item.2 = index :=
    indexed.index_of_statement (List.mem_of_find?_eq_some isItem) (sameStmt.trans isStatement)
  rw [atIndex]
  exact ⟨gen, member, touched, isStatement, isFirst⟩

theorem IndexedEntries.killIndex_last {last : Nat} (dies : killIndex seq buffer = some last) :
    ∀ item ∈ seq, buffer ∈ item.1.touched → item.2 ≤ last := by
  obtain ⟨kill, isKill, found⟩ := Option.bind_eq_some_iff.mp dies
  obtain ⟨index, isStatement, isLast⟩ := indexed.reorderedKill_last isKill
  obtain ⟨item, isItem, rfl⟩ := Option.map_eq_some_iff.mp found
  obtain ⟨before, after, shape, sameStmt, _⟩ := lastWhere_eq_some isItem
  have atIndex : item.2 = index := by
    refine indexed.index_of_statement (by rw [shape]; simp) ?_
    rw [← isStatement]
    simpa using sameStmt
  rw [atIndex]
  exact isLast

end

theorem foldl_extends {loops : List (Nat × Nat)} {outlives : Nat × Nat → Bool} (kill : Nat) :
    kill ≤ loops.foldl
        (fun extended interval => if outlives interval then max extended interval.2 else extended)
        kill ∧
      ∀ interval ∈ loops, outlives interval = true →
        interval.2 ≤ loops.foldl
          (fun extended interval => if outlives interval then max extended interval.2 else extended)
          kill := by
  induction loops generalizing kill with
  | nil => simp
  | cons head rest ih =>
    rw [List.foldl_cons]
    obtain ⟨grows, reaches⟩ := ih (if outlives head then max kill head.2 else kill)
    refine ⟨le_trans ?_ grows, ?_⟩
    · split
      · exact le_max_left _ _
      · exact le_refl _
    · intro interval member isOutlived
      rcases List.mem_cons.mp member with isHead | inRest
      · rw [isHead] at isOutlived ⊢
        refine le_trans ?_ grows
        rw [if_pos isOutlived]
        exact le_max_right _ _
      · exact reaches interval inRest isOutlived

theorem IndexedEntries.touches_in_loop (indexed : IndexedEntries seq) {begins ends : Nat}
    (member : item ∈ seq) (touched : buffer ∈ item.1.touched) (above : begins < item.2)
    (below : item.2 < ends) :
    (((touchIndices seq buffer).find? fun index => index > begins).any
      fun index => index < ends) = true := by
  have isTouch : item.2 ∈ touchIndices seq buffer :=
    List.mem_map_of_mem (List.mem_filter.mpr ⟨member, by simpa [touchesBuffer] using touched⟩)
  have increasing : (touchIndices seq buffer).Pairwise (· < ·) :=
    List.pairwise_map.mpr (indexed.increasing.filter _)
  cases found : (touchIndices seq buffer).find? fun index => index > begins with
  | none =>
    have fails := List.find?_eq_none.mp found item.2 isTouch
    simp [above] at fails
  | some index =>
    obtain ⟨_, before, after, shape, notBehind⟩ := List.find?_eq_some_iff_append.mp found
    rw [shape] at isTouch increasing
    have noLater : index ≤ item.2 := by
      rcases List.mem_append.mp isTouch with inBefore | inRest
      · have fails := notBehind item.2 inBefore
        simp [above] at fails
      · rcases List.mem_cons.mp inRest with isFirst | inAfter
        · exact Nat.le_of_eq isFirst.symm
        · exact Nat.le_of_lt
            ((List.pairwise_cons.mp (List.pairwise_append.mp increasing).2.1).1 _ inAfter)
    simp only [Option.any_some, decide_eq_true_eq]
    omega

theorem IndexedEntries.liveInterval_covers (indexed : IndexedEntries seq)
    {sizes : Buffer → UInt64} {interval : LiveInterval}
    (isLive : liveInterval? seq sizes buffer = some interval) :
    ∃ first last : Nat,
      interval.start = first ∧ interval.finish = last ∧ first ≤ last ∧
        CoversEntries buffer first last seq := by
  unfold liveInterval? at isLive
  split at isLive
  · rename_i first kill starts dies
    cases isLive
    obtain ⟨gen, genMember, genTouched, genStatement, isFirst⟩ := indexed.genIndex_first starts
    have isLast := indexed.killIndex_last dies
    obtain ⟨grows, reaches⟩ :=
      @foldl_extends (loopIntervals seq) (extendsOver (touchIndices seq buffer) first kill) kill
    refine ⟨first, extendKillIndex seq buffer first kill, rfl, rfl, ?_, ?_⟩
    · exact (isLast _ genMember genTouched).trans grows
    · refine ⟨?_, ?_⟩
      · intro item member touched
        exact ⟨isFirst item member touched, (isLast item member touched).trans grows⟩
      · rintro item member start isLoop opens begun ⟨inner, isInner, touched, above, below⟩
        have dead := isLast inner isInner touched
        have notFirst : first ≠ item.2 := by
          intro same
          have isGen := indexed.eq_of_index genMember member same
          rw [← isGen, genStatement] at isLoop
          cases isLoop
        by_cases outlived : item.2 + item.1.scopePairOffset.toNat ≤ kill
        · exact outlived.trans grows
        · refine reaches (item.2, item.2 + item.1.scopePairOffset.toNat) ?_ ?_
          · refine List.mem_filterMap.mpr ⟨item, member, ?_⟩
            simp [isLoop, opens]
          · simp only [extendsOver, decide_eq_true_eq]
            exact ⟨⟨by omega, by omega, by omega⟩,
              indexed.touches_in_loop isInner touched above below⟩
  · cases isLive

end Entries

/-! ## Values of planned buffers -/

/-- Buffers of a plan whose ranges share an address. -/
def SharesMemory (allocations : List Allocation) (first second : Buffer) : Prop :=
  ∃ firstRange ∈ allocations,
    ∃ secondRange ∈ allocations,
      firstRange.buffer = first ∧ secondRange.buffer = second ∧
        ¬ DisjointRanges firstRange secondRange

/--
In every execution of a program, a value that is written to a buffer and read later, before the
next write of the buffer, is not overwritten through another buffer that shares its memory.
-/
def PreservesValues (program : Program) (allocations : List Allocation) : Prop :=
  ∀ (steps earlier between later : List (Step Buffer))
    (step reader : Step Buffer)
    (buffer other : Buffer),
    Executes program 0 steps →
    steps = earlier ++ step :: (between ++ reader :: later) →
    buffer ∈ step.writes →
    buffer ∈ reader.reads →
    Unwritten buffer between →
    other ≠ buffer →
    SharesMemory allocations buffer other →
    Unwritten other between

theorem liveInterval_buffer (isLive : liveInterval? seq sizes buffer = some interval) :
    interval.buffer = buffer ∧ interval.size = sizes buffer := by
  unfold liveInterval? at isLive
  split at isLive
  · cases isLive
    exact ⟨rfl, rfl⟩
  · cases isLive

theorem liveIntervals_live
    (distinct : buffers.Nodup)
    (aligned : ∀ buffer ∈ buffers, 32 ∣ (sizes buffer).toNat) :
    LiveBuffers (liveIntervals program sizes buffers) where
  distinct := by
    refine List.pairwise_map.mpr (List.pairwise_filterMap.mpr (distinct.imp ?_))
    intro buffer other differs interval isLive otherInterval otherLive same
    rw [(liveInterval_buffer isLive).1, (liveInterval_buffer otherLive).1] at same
    exact differs same
  inOrder := by
    intro interval member
    obtain ⟨buffer, _, isLive⟩ := List.mem_filterMap.mp member
    obtain ⟨first, last, starts, ends, inOrder, _⟩ :=
      (linearSeq_indexed program).liveInterval_covers isLive
    omega
  sizes := by
    intro interval member
    obtain ⟨buffer, isBuffer, isLive⟩ := List.mem_filterMap.mp member
    rw [(liveInterval_buffer isLive).2]
    exact aligned buffer isBuffer

theorem covered_of_liveIntervals
    (carriesNothing : ∀ buffer ∈ buffers, CarriesNothing buffer program False False)
    (member : interval ∈ liveIntervals program sizes buffers) :
    ∃ first last : Nat,
      interval.start = first ∧ interval.finish = last ∧
        Covered interval.buffer first last program 0 False := by
  obtain ⟨buffer, isBuffer, isLive⟩ := List.mem_filterMap.mp member
  obtain ⟨first, last, starts, ends, _, covers⟩ :=
    (linearSeq_indexed program).liveInterval_covers isLive
  rw [(liveInterval_buffer isLive).1]
  exact ⟨first, last, starts, ends,
    covers.covered (fun touched => touched.elim) (carriesNothing buffer isBuffer)⟩

/--
A finished plan preserves values if no value of a buffer is carried around a loop in which the
buffer is touched for the first time, and the annotated buffers meet the conditions under which
live buffers are apart.
-/
theorem plan_preserves_values
    (sort : List LiveInterval → List LiveInterval)
    (sorts : SortsByStart sort)
    (memoryLimit : UInt64)
    (preAllocated : List (Buffer × Int))
    (program : Program)
    (sizes : Buffer → UInt64)
    (buffers : List Buffer)
    (distinct : buffers.Nodup)
    (aligned : ∀ buffer ∈ buffers, 32 ∣ (sizes buffer).toNat)
    (representable : Representable memoryLimit (liveIntervals program sizes buffers))
    (noTouch : NoEndpointTouch preAllocated (liveIntervals program sizes buffers))
    (keeps : KeepsAnnotated sort preAllocated (liveIntervals program sizes buffers))
    (inside : AnnotatedInside memoryLimit preAllocated (liveIntervals program sizes buffers))
    (carriesNothing : ∀ buffer ∈ buffers, CarriesNothing buffer program False False)
    (allocations : List Allocation)
    (finishes :
      planMemoryForScope sort memoryLimit preAllocated program sizes buffers = .ok allocations) :
    PreservesValues program allocations := by
  have live : LiveBuffers (liveIntervals program sizes buffers) :=
    liveIntervals_live distinct aligned
  obtain ⟨entries, time, state, covers, scanned, rfl⟩ :=
    planIntervals_scanned sorts live representable noTouch keeps inside finishes
  have safe := scanned.safePlan live.distinct covers
  have intervalOf :
      ∀ allocation ∈ state.allocations,
        ∃ interval ∈ liveIntervals program sizes buffers, allocation.buffer = interval.buffer := by
    intro allocation member
    rw [scanned.recorded] at member
    obtain ⟨entry, isEntry, rfl⟩ := List.mem_map.mp member
    exact ⟨entry.1, covers.mem_iff.mp (List.mem_map_of_mem isEntry),
      (scanned.placed entry isEntry).buffer⟩
  intro steps earlier between later step reader buffer other executes shape written isRead
    unwritten differs shares passed isPassed otherWritten
  obtain ⟨range, isRange, otherRange, isOtherRange, rfl, rfl, overlap⟩ := shares
  obtain ⟨interval, isInterval, ofRange⟩ := intervalOf range isRange
  obtain ⟨otherInterval, isOther, ofOther⟩ := intervalOf otherRange isOtherRange
  obtain ⟨first, last, starts, ends, covered⟩ := covered_of_liveIntervals carriesNothing isInterval
  obtain ⟨otherFirst, otherLast, otherStarts, otherEnds, otherCovered⟩ :=
    covered_of_liveIntervals carriesNothing isOther
  rw [ofRange] at written isRead unwritten
  rw [ofOther] at otherWritten
  have isStep : passed ∈ steps := by
    rw [shape]
    simp [isPassed]
  have inInterval := executes.value_in_range covered shape written isRead unwritten passed isPassed
  have inOther := executes.touch_in_range otherCovered isStep (Or.inr otherWritten)
  refine overlap (safe.apart interval isInterval otherInterval isOther ?_ ?_ range isRange
    otherRange isOtherRange ofRange ofOther)
  · intro same
    exact differs (ofOther.trans (same.symm.trans ofRange.symm))
  · exact ⟨passed.index, ⟨by omega, by omega⟩, by omega, by omega⟩

/-- The value of `carried` that one iteration writes is read by the next one. -/
def carriedValueBody : Program :=
  .touch ⟨[], ["other"], Touch.write_nonempty _⟩ <|
    .touch ⟨["other"], [], by simp⟩ <|
      .touch ⟨["carried"], [], by simp⟩ <| .touch ⟨[], ["carried"], by simp⟩ .done

/-- A loop in which both buffers are touched for the first time. -/
def carriedValue : Program :=
  .loop .forLoop carriedValueBody .done

/-- One iteration of the program. -/
def carriedValueIteration : List (Step Buffer) :=
  [⟨1, [], ["other"]⟩, ⟨2, ["other"], []⟩, ⟨3, ["carried"], []⟩, ⟨4, [], ["carried"]⟩]

theorem carriedValue_executes_twice :
    Executes carriedValue 0 (carriedValueIteration ++ carriedValueIteration) := by
  have iteration : Executes carriedValueBody 1 carriedValueIteration :=
    .touch (.touch (.touch (.touch .done)))
  have once : Executes carriedValue 0 (carriedValueIteration ++ []) :=
    .iterate iteration (.exit .done)
  have twice : Executes carriedValue 0 (carriedValueIteration ++ (carriedValueIteration ++ [])) :=
    .iterate iteration once
  rwa [List.append_nil] at twice

/-- The second iteration overwrites the value of the first one before it reads it. -/
theorem carriedValue_overwritten :
    planMemoryForScope insertionSortByStart 196352 [] carriedValue (fun _ => 131072)
        ["other", "carried"] =
        .ok [⟨"other", 0, 131072, false⟩, ⟨"carried", 0, 131072, true⟩] ∧
      ¬ ∀ (sort : List LiveInterval → List LiveInterval) (memoryLimit : UInt64)
          (preAllocated : List (Buffer × Int)) (program : Program) (sizes : Buffer → UInt64)
          (buffers : List Buffer) (allocations : List Allocation),
          SortsByStart sort →
          buffers.Nodup →
          (∀ buffer ∈ buffers, 32 ∣ (sizes buffer).toNat) →
          planMemoryForScope sort memoryLimit preAllocated program sizes buffers = .ok allocations →
          PreservesValues program allocations := by
  have plan :
      planMemoryForScope insertionSortByStart 196352 [] carriedValue (fun _ => 131072)
        ["other", "carried"] =
        .ok [⟨"other", 0, 131072, false⟩, ⟨"carried", 0, 131072, true⟩] := by
    decide +kernel
  refine ⟨plan, ?_⟩
  intro preserves
  have preserved :=
    preserves insertionSortByStart 196352 [] carriedValue (fun _ => 131072) ["other", "carried"]
      _ insertionSortByStart_sorts (by decide) (by decide) plan
  have shares :
      SharesMemory [⟨"other", 0, 131072, false⟩, ⟨"carried", 0, 131072, true⟩] "carried"
        "other" := by
    refine ⟨⟨"carried", 0, 131072, true⟩, by simp, ⟨"other", 0, 131072, false⟩, by simp, rfl,
      rfl, ?_⟩
    intro disjoint
    exact disjoint 0 ⟨by decide, by decide⟩
  have unwritten :=
    preserved _ [⟨1, [], ["other"]⟩, ⟨2, ["other"], []⟩, ⟨3, ["carried"], []⟩]
      [⟨1, [], ["other"]⟩, ⟨2, ["other"], []⟩] [⟨4, [], ["carried"]⟩] ⟨4, [], ["carried"]⟩
      ⟨3, ["carried"], []⟩ "carried" "other" carriedValue_executes_twice rfl (by simp) (by simp)
      (by simp [Unwritten]) (by decide) shares
  exact unwritten ⟨1, [], ["other"]⟩ (by simp) (by simp)

/-- The value gets its first value before the loop. -/
def initializedValue : Program :=
  .touch ⟨[], ["before"], by simp⟩ <|
    .touch ⟨["before"], ["carried"], by simp⟩ <|
      .loop .forLoop
        (.touch ⟨[], ["other"], Touch.write_nonempty _⟩ <|
          .touch ⟨["other", "carried"], ["carried"], by simp⟩ .done)
        .done

/-- The buffer used in the loop only takes the memory of the one that is dead by then. -/
theorem initializedValue_preserved :
    planMemoryForScope insertionSortByStart 196352 [] initializedValue (fun _ => 65536)
        ["before", "other", "carried"] =
        .ok [⟨"before", 0, 65536, false⟩, ⟨"carried", 65536, 65536, false⟩,
          ⟨"other", 0, 65536, true⟩] ∧
      PreservesValues initializedValue
        [⟨"before", 0, 65536, false⟩, ⟨"carried", 65536, 65536, false⟩,
          ⟨"other", 0, 65536, true⟩] := by
  have plan :
      planMemoryForScope insertionSortByStart 196352 [] initializedValue (fun _ => 65536)
        ["before", "other", "carried"] =
        .ok [⟨"before", 0, 65536, false⟩, ⟨"carried", 65536, 65536, false⟩,
          ⟨"other", 0, 65536, true⟩] := by
    decide +kernel
  refine ⟨plan, plan_preserves_values insertionSortByStart insertionSortByStart_sorts 196352 []
    initializedValue (fun _ => 65536) ["before", "other", "carried"] (by decide) (by decide) ?_
    ?_ ?_ ?_ (by decide) _ plan⟩
  · unfold Representable sizeRange
    decide +kernel
  · intro annotated _ isAnnotated
    simp at isAnnotated
  · intro _ _ _ position interval _ isAnnotated
    simp at isAnnotated
  · intro interval _ address isAnnotated
    simp at isAnnotated

end TilelangAscend.MemoryPlanning
