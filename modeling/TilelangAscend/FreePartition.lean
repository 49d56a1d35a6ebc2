import TilelangAscend.PlannedRanges

namespace TilelangAscend.MemoryPlanning

open IntervalCover

/-!
# The partition of the used memory

Without annotated addresses every address below the end of the used memory is free or belongs to
exactly one active buffer.  Buffer sizes and the capacity are multiples of 32, so that aligning an
offset skips nothing, and a free block that is too short, together with the memory behind it, is
all that a failing search leaves.
-/

/-! ## Model -/

/-- Two blocks neither overlap nor touch. -/
def FreeBlock.Apart (first second : FreeBlock) : Prop :=
  first.span.2 < second.span.1 ∨ second.span.2 < first.span.1

/-- Active buffers and free blocks split the used memory, and no two free blocks touch. -/
structure Partitioned (state : ScanState) : Prop where
  activeApart :
    state.active.Pairwise fun first second => DisjointRanges first.2 second.2
  freeApart : state.freeBlocks.Pairwise FreeBlock.Apart
  taken :
    ∀ entry ∈ state.active, ∀ address, entry.2.Holds address → ¬ Free state.freeBlocks address
  covers :
    ∀ address,
      address < state.nextNewOffset.toNat ↔
        Free state.freeBlocks address ∨ ∃ entry ∈ state.active, entry.2.Holds address

/-- A range of a given length below a bound that meets no active buffer. -/
def HasGap (bound length : Nat) (state : ScanState) : Prop :=
  ∃ start,
    start + length ≤ bound ∧
      ∀ address, start ≤ address → address < start + length →
        ∀ entry ∈ state.active, ¬ entry.2.Holds address

/-- What the rounds of a scan keep, and what a round that fails shows. -/
structure SoundScan
    (scope : Scope)
    (intervals : List LiveInterval) :
    Prop where
  placed :
    ∀ before after state, intervals = before ++ after →
      before.foldlM (ScanState.step scope) {} = .ok state →
      Partitioned state
  released :
    ∀ before interval after state, intervals = before ++ interval :: after →
      before.foldlM (ScanState.step scope) {} = .ok state →
      Partitioned (state.expire interval.start)
  complete :
    ∀ before interval after state failure, intervals = before ++ interval :: after →
      before.foldlM (ScanState.step scope) {} = .ok state →
      state.step scope interval = .error failure →
      ¬ HasGap scope.memoryLimit.toNat interval.size.toNat (state.expire interval.start)

/-! ## Taking a range from the start of a block -/

section Blocks

variable
  {bound address : Nat}
  {freeBlocks : List FreeBlock}
  {offset size : UInt64}
  (representable : bound < sizeRange)
  (ends : EndBy bound freeBlocks)
  (fits : offset.toNat + size.toNat ≤ bound)
  (atStart :
    ∀ block ∈ freeBlocks,
      block.span.1 ≤ offset.toNat → offset.toNat < block.span.2 → block.span.1 = offset.toNat)
include representable ends fits atStart

theorem removeFromFreeBlocks_apart (apart : freeBlocks.Pairwise FreeBlock.Apart) :
    (removeFromFreeBlocks offset size freeBlocks).Pairwise FreeBlock.Apart := by
  induction freeBlocks with
  | nil => exact .nil
  | cons head rest ih =>
    obtain ⟨headApart, restApart⟩ := List.pairwise_cons.mp apart
    have headEnds := ends head List.mem_cons_self
    have headEnd := FreeBlock.toNat_end representable headEnds
    have restEnds : EndBy bound rest := fun block member =>
      ends block (List.mem_cons_of_mem _ member)
    simp only [removeFromFreeBlocks]
    split
    · rename_i contains
      rw [ge_iff_le, UInt64.le_iff_toNat_le, UInt64.lt_iff_toNat_lt, headEnd] at contains
      have isStart := atStart head List.mem_cons_self contains.1 contains.2
      have onlyBack : ¬ offset > head.first := by
        rw [gt_iff_lt, UInt64.lt_iff_toNat_lt]
        exact isStart.ge.not_gt
      refine List.pairwise_append.mpr ⟨restApart, ?_, fun block member part isPart => ?_⟩
      · rw [FreeBlock.remainder, if_neg onlyBack, List.nil_append]
        split <;> simp
      · have headOrder := headApart block member
        unfold FreeBlock.Apart at headOrder ⊢
        rcases span_of_mem_remainder representable headEnds fits isPart with front | back
        · rw [front]
          omega
        · rw [back]
          omega
    · refine List.pairwise_cons.mpr ⟨fun block member => ?_, ih restEnds
        (fun block member => atStart block (List.mem_cons_of_mem _ member)) restApart⟩
      rcases mem_removeFromFreeBlocks representable restEnds member with
        isGiven | ⟨whole, isWhole, starts, inside, isPart⟩
      · exact headApart block isGiven
      · have wholeOrder := headApart whole isWhole
        unfold FreeBlock.Apart at wholeOrder ⊢
        rcases span_of_mem_remainder representable (restEnds whole isWhole) fits isPart with
          front | back
        · rw [front]
          omega
        · rw [back]
          omega

theorem free_or_taken (free : Free freeBlocks address) :
    Free (removeFromFreeBlocks offset size freeBlocks) address ∨
      (offset.toNat ≤ address ∧ address < offset.toNat + size.toNat) := by
  induction freeBlocks with
  | nil => simp [free_iff] at free
  | cons head rest ih =>
    have headEnd := FreeBlock.toNat_end representable (ends head List.mem_cons_self)
    have split : head.span.1 ≤ address ∧ address < head.span.2 ∨ Free rest address := by
      obtain ⟨block, member, within⟩ := free_iff.mp free
      rcases List.mem_cons.mp member with rfl | inRest
      · exact .inl within
      · exact .inr (free_iff.mpr ⟨block, inRest, within⟩)
    simp only [removeFromFreeBlocks]
    split
    · rename_i contains
      rw [ge_iff_le, UInt64.le_iff_toNat_le, UInt64.lt_iff_toNat_lt, headEnd] at contains
      have isStart := atStart head List.mem_cons_self contains.1 contains.2
      rcases split with inHead | inRest
      · by_cases isTaken : address < offset.toNat + size.toNat
        · exact .inr ⟨by omega, isTaken⟩
        · left
          have rangeEnd : (offset + size).toNat = offset.toNat + size.toNat :=
            toNat_add_of_lt (lt_of_le_of_lt fits representable)
          have leaves : offset + size < head.first + head.second := by
            rw [UInt64.lt_iff_toNat_lt, headEnd, rangeEnd]
            omega
          have difference := UInt64.toNat_sub_of_le _ _ (UInt64.le_of_lt leaves)
          refine free_append.mpr (.inr (free_iff.mpr
            ⟨⟨offset + size, head.first + head.second - (offset + size)⟩,
              List.mem_append_right _ ?_, ?_⟩))
          · rw [if_pos leaves]
            exact List.mem_singleton_self _
          · simp only [FreeBlock.span, difference, headEnd, rangeEnd] at inHead ⊢
            omega
      · exact .inl (free_append.mpr (.inl inRest))
    · have keeps : ∀ block ∈ head :: removeFromFreeBlocks offset size rest,
          block.span.1 ≤ address ∧ address < block.span.2 →
          Free (head :: removeFromFreeBlocks offset size rest) address :=
        fun block member within => free_iff.mpr ⟨block, member, within⟩
      rcases split with inHead | inRest
      · exact .inl (keeps head List.mem_cons_self inHead)
      · rcases ih (fun block member => ends block (List.mem_cons_of_mem _ member))
          (fun block member => atStart block (List.mem_cons_of_mem _ member)) inRest with
          remains | isTaken
        · obtain ⟨block, member, within⟩ := free_iff.mp remains
          exact .inl (keeps block (List.mem_cons_of_mem _ member) within)
        · exact .inr isTaken

end Blocks

/-! ## Without annotated addresses -/

section Scan

variable {scope : Scope} {entries : List (LiveInterval × Allocation)} {time : Int}
  {state next : ScanState} {interval : LiveInterval} {block : FreeBlock}
  (unannotated : scope.preAllocated = [])
include unannotated

theorem addressOf?_none (buffer : Buffer) : scope.addressOf? buffer = none := by
  rw [Scope.addressOf?, unannotated]
  rfl

theorem checkConflict_false (offset : UInt64) :
    scope.checkConflict offset interval = .ok false := by
  rw [Scope.checkConflict, unannotated]
  rfl

theorem offsetIn_eq (representable : block.first.toNat + 31 < sizeRange)
    (aligned : 32 ∣ block.first.toNat) :
    scope.offsetIn interval block =
      .ok (if block.second ≥ interval.size then some block.first else none) := by
  have alignedFirst : alignUp block.first 32 = block.first := by
    refine UInt64.toNat_inj.mp ?_
    rw [toNat_alignUp representable]
    omega
  simp only [Scope.offsetIn, alignedFirst, UInt64.sub_self, UInt64.sub_zero, and_self,
    checkConflict_false unannotated]
  split <;> rfl

theorem firstFit_eq_none {freeBlocks : List FreeBlock}
    (representable : ∀ block ∈ freeBlocks, block.first.toNat + 31 < sizeRange)
    (aligned : ∀ block ∈ freeBlocks, 32 ∣ block.first.toNat)
    (missing : scope.firstFit interval freeBlocks = .ok none) :
    ∀ block ∈ freeBlocks, block.second.toNat < interval.size.toNat := by
  induction freeBlocks with
  | nil => simp
  | cons block rest ih =>
    obtain ⟨blockRepresentable, restRepresentable⟩ := List.forall_mem_cons.mp representable
    obtain ⟨blockAligned, restAligned⟩ := List.forall_mem_cons.mp aligned
    simp only [Scope.firstFit, offsetIn_eq unannotated blockRepresentable blockAligned] at missing
    split at missing
    · cases missing
    · cases missing
    · rename_i tooShort
      rw [Except.ok.injEq, ite_eq_right_iff] at tooShort
      refine List.forall_mem_cons.mpr ⟨?_, ih restRepresentable restAligned missing⟩
      by_contra fits
      cases tooShort (UInt64.le_iff_toNat_le.mpr (not_lt.mp fits))

theorem firstFit_isOk (freeBlocks : List FreeBlock) :
    ∃ found, scope.firstFit interval freeBlocks = .ok found := by
  induction freeBlocks with
  | nil => exact ⟨none, rfl⟩
  | cons block rest ih =>
    simp only [Scope.firstFit, Scope.offsetIn, checkConflict_false unannotated]
    split
    · rename_i failed
      split at failed <;> cases failed
    · exact ⟨_, rfl⟩
    · exact ih

theorem Partitioned.expire (partitioned : Partitioned state)
    (scanned : Scanned scope entries time state)
    (representable : scope.memoryLimit.toNat < sizeRange) {start : Int} (later : time ≤ start) :
    Partitioned (state.expire start) := by
  obtain ⟨released, separated⟩ := scanned.expire representable later
  refine {
    activeApart := released.activeApart
    freeApart := (List.pairwise_map.mp separated).imp Or.inl
    taken := fun entry member => released.freeApart entry member (addressOf?_none unannotated _)
    covers := fun address => ?_ }
  have merged := @free_mergeFreeBlocks _ address _
    (lt_of_le_of_lt scanned.nextInside representable) (scanned.released_endBy start)
  change address < state.nextNewOffset.toNat ↔ Free (mergeFreeBlocks _) address ∨ _
  rw [partitioned.covers, merged, free_append, or_assoc]
  refine or_congr Iff.rfl ⟨?_, ?_⟩
  · rintro ⟨entry, isActive, holds⟩
    by_cases expires : ScanState.expiresBefore start entry = true
    · exact .inl (free_iff.mpr ⟨⟨entry.2.offset, entry.2.size⟩,
        List.mem_map_of_mem (List.mem_filter.mpr ⟨isActive, expires⟩), holds⟩)
    · exact .inr ⟨entry, List.mem_filter.mpr ⟨isActive, by simpa using expires⟩, holds⟩
  · rintro (free | ⟨entry, isActive, holds⟩)
    · obtain ⟨block, isReleased, within⟩ := free_iff.mp free
      obtain ⟨entry, expired, rfl⟩ := List.mem_map.mp isReleased
      exact ⟨entry, List.mem_of_mem_filter expired, within⟩
    · exact ⟨entry, List.mem_of_mem_filter isActive, holds⟩

theorem Scanned.partitioned (scanned : Scanned scope entries time state)
    (freeApart : state.freeBlocks.Pairwise FreeBlock.Apart)
    (covers :
      ∀ address, address < state.nextNewOffset.toNat →
        Free state.freeBlocks address ∨ ∃ entry ∈ state.active, entry.2.Holds address) :
    Partitioned state where
  activeApart := scanned.activeApart
  freeApart := freeApart
  taken := fun entry member => scanned.freeApart entry member (addressOf?_none unannotated _)
  covers := by
    refine fun address => ⟨covers address, ?_⟩
    rintro (free | ⟨entry, isActive, holds⟩)
    · obtain ⟨block, member, within⟩ := free_iff.mp free
      exact within.2.trans_le (scanned.freeEnds block member)
    · exact holds.2.trans_le (scanned.activeEnds entry isActive)

omit unannotated in
theorem covers_of_findReusableBlock {reuse : Scope.Reuse} (partitioned : Partitioned state)
    (scanned : Scanned scope entries time state)
    (separated : Separated (state.freeBlocks.map FreeBlock.span))
    (found :
      scope.findReusableBlock interval state.freeBlocks state.nextNewOffset = .ok (some reuse))
    {address : Nat} (used : address < reuse.nextNewOffset.toNat) :
    Free reuse.freeBlocks address ∨ ∃ entry ∈ state.active, entry.2.Holds address := by
  simp only [Scope.findReusableBlock, sortBlocks_of_separated separated] at found
  split at found
  · cases found
  · cases found
    exact (partitioned.covers address).mp used
  · split at found
    · cases found
    · rename_i last isLast
      have shape := List.dropLast_append_getLast? last isLast
      split at found
      · split at found
        · cases found
        · cases found
        · cases found
          change address < scope.memoryLimit.toNat at used
          -- the last block reaches from its start to the end of the memory
          have inExtended : last.first.toNat ≤ address →
              Free (state.freeBlocks.dropLast ++ [⟨last.first, scope.memoryLimit - last.first⟩])
                address := by
            intro above
            have difference := UInt64.toNat_sub_of_le scope.memoryLimit last.first
              (UInt64.le_iff_toNat_le.mpr (above.trans used.le))
            refine free_append.mpr (.inr (free_iff.mpr ⟨_, List.mem_singleton_self _, above, ?_⟩))
            simp only [FreeBlock.span, difference]
            omega
          by_cases isUsed : address < state.nextNewOffset.toNat
          · rcases (partitioned.covers address).mp isUsed with free | held
            · left
              rw [← shape] at free
              rcases free_append.mp free with inFront | inLast
              · exact free_append.mpr (.inl inFront)
              · obtain ⟨block, member, within⟩ := free_iff.mp inLast
                rw [List.mem_singleton.mp member] at within
                exact inExtended within.1
            · exact .inr held
          · left
            apply inExtended
            have isMember : last ∈ state.freeBlocks := List.mem_of_getLast? isLast
            have lastEnds := scanned.freeEnds last isMember
            simp only [FreeBlock.span] at lastEnds
            omega
      · cases found

theorem Partitioned.placeReused (partitioned : Partitioned state)
    (scanned : Scanned scope entries time state)
    (separated : Separated (state.freeBlocks.map FreeBlock.span))
    (representable : scope.memoryLimit.toNat + 31 + interval.size.toNat < sizeRange)
    (places : state.placeReused scope interval = .ok next)
    {nextEntries : List (LiveInterval × Allocation)} {nextTime : Int}
    (nextScanned : Scanned scope nextEntries nextTime next) : Partitioned next := by
  simp only [ScanState.placeReused] at places
  split at places
  · cases places
  · cases places
  · rename_i reuse isFound
    cases places
    have found := scanned.findReusableBlock (by omega) separated isFound
    have nextInside := found.nextInside
    have bounded : reuse.nextNewOffset.toNat < sizeRange := by omega
    obtain ⟨whole, isWhole, atFirst, fits⟩ := found.whole
    have wholeEnds := found.ends whole isWhole
    have wholeStart : whole.span.1 = reuse.offset.toNat := by
      rw [← atFirst]
      rfl
    have inside : reuse.offset.toNat + interval.size.toNat ≤ reuse.nextNewOffset.toNat := by
      simp only [FreeBlock.span] at wholeEnds wholeStart
      omega
    have apart : reuse.freeBlocks.Pairwise FreeBlock.Apart :=
      (List.pairwise_map.mp found.separated).imp Or.inl
    have symmetric : Std.Symm FreeBlock.Apart := ⟨fun _ _ => Or.symm⟩
    have atStart : ∀ block ∈ reuse.freeBlocks, block.span.1 ≤ reuse.offset.toNat →
        reuse.offset.toNat < block.span.2 → block.span.1 = reuse.offset.toNat := by
      intro block member starts ends
      by_cases same : block = whole
      · rw [same, wholeStart]
      · have order := apart.forall member isWhole same
        have wholeOrder : whole.span.1 ≤ whole.span.2 := Nat.le_add_right _ _
        unfold FreeBlock.Apart at order
        omega
    refine nextScanned.partitioned unannotated
      (removeFromFreeBlocks_apart bounded found.ends inside atStart apart) fun address used => ?_
    rcases covers_of_findReusableBlock partitioned scanned separated isFound used
      with free | ⟨entry, isActive, holds⟩
    · rcases free_or_taken bounded found.ends inside atStart free with remains | isTaken
      · exact .inl remains
      · exact .inr ⟨_, List.mem_append_right _ (List.mem_singleton_self _), isTaken⟩
    · exact .inr ⟨entry, List.mem_append_left _ isActive, holds⟩

omit unannotated in
theorem Scanned.alignUp_next (scanned : Scanned scope entries time state)
    (representable : scope.memoryLimit.toNat + 31 < sizeRange)
    (limitAligned : 32 ∣ scope.memoryLimit.toNat) :
    alignUp state.nextNewOffset 32 = state.nextNewOffset := by
  have nextInside := scanned.nextInside
  have aligned : 32 ∣ state.nextNewOffset.toNat := by
    rcases scanned.nextAligned with isAligned | isLimit
    · exact isAligned
    · rwa [isLimit]
  refine UInt64.toNat_inj.mp ?_
  rw [toNat_alignUp (by omega)]
  omega

theorem Partitioned.placeNormal (partitioned : Partitioned state)
    (scanned : Scanned scope entries time state)
    (separated : Separated (state.freeBlocks.map FreeBlock.span))
    (representable : scope.memoryLimit.toNat + 31 + interval.size.toNat < sizeRange)
    (limitAligned : 32 ∣ scope.memoryLimit.toNat)
    (places : state.placeNormal scope interval = .ok next)
    {nextEntries : List (LiveInterval × Allocation)} {nextTime : Int}
    (nextScanned : Scanned scope nextEntries nextTime next) : Partitioned next := by
  have nextInside := scanned.nextInside
  have endIs : (state.nextNewOffset + interval.size).toNat =
      state.nextNewOffset.toNat + interval.size.toNat :=
    toNat_add_of_lt (by omega)
  simp only [ScanState.placeNormal, scanned.alignUp_next (by omega) limitAligned,
    checkConflict_false unannotated] at places
  split at places
  · cases places
    refine nextScanned.partitioned unannotated partitioned.freeApart fun address used => ?_
    by_cases isUsed : address < state.nextNewOffset.toNat
    · rcases (partitioned.covers address).mp isUsed with free | ⟨entry, isActive, holds⟩
      · exact .inl free
      · exact .inr ⟨entry, List.mem_append_left _ isActive, holds⟩
    · refine .inr ⟨_, List.mem_append_right _ (List.mem_singleton_self _), not_lt.mp isUsed, ?_⟩
      change address < (state.nextNewOffset + interval.size).toNat at used
      rwa [endIs] at used
  · exact partitioned.placeReused unannotated scanned separated representable places nextScanned

theorem Partitioned.not_hasGap (partitioned : Partitioned state)
    (scanned : Scanned scope entries time state)
    (separated : Separated (state.freeBlocks.map FreeBlock.span))
    (representable : scope.memoryLimit.toNat + 31 + interval.size.toNat < sizeRange)
    (limitAligned : 32 ∣ scope.memoryLimit.toNat) {failure : PlanError}
    (fails : state.placeNormal scope interval = .error failure) :
    ¬ HasGap scope.memoryLimit.toNat interval.size.toNat state := by
  have nextInside := scanned.nextInside
  have blockRepresentable : ∀ block ∈ state.freeBlocks, block.first.toNat + 31 < sizeRange := by
    intro block member
    have ends := scanned.freeEnds block member
    simp only [FreeBlock.span] at ends
    omega
  simp only [ScanState.placeNormal, scanned.alignUp_next (by omega) limitAligned,
    checkConflict_false unannotated] at fails
  split at fails
  · cases fails
  · rename_i tooFar
    rw [UInt64.le_iff_toNat_le, toNat_add_of_lt (by omega)] at tooFar
    simp only [ScanState.placeReused, Scope.findReusableBlock,
      sortBlocks_of_separated separated] at fails
    obtain ⟨found, isFound⟩ := @firstFit_isOk scope interval unannotated state.freeBlocks
    rw [isFound] at fails
    cases found with
    | some offset => cases fails
    | none =>
      have tooShort := firstFit_eq_none unannotated blockRepresentable scanned.freeAligned isFound
      rintro ⟨start, inside, clear⟩
      have freeIn : ∀ address, start ≤ address → address < start + interval.size.toNat →
          address < state.nextNewOffset.toNat →
          ∃ block ∈ state.freeBlocks, block.span.1 ≤ address ∧ address < block.span.2 := by
        intro address above below used
        rcases (partitioned.covers address).mp used with free | ⟨entry, isActive, holds⟩
        · exact free_iff.mp free
        · exact absurd holds (clear address above below entry isActive)
      obtain ⟨block, member, starts, reaches⟩ := freeIn start le_rfl (by omega) (by omega)
      have short := tooShort block member
      have ends := scanned.freeEnds block member
      -- the block that the range starts in ends with the used memory
      have atEnd : block.span.2 = state.nextNewOffset.toNat := by
        by_contra before
        simp only [FreeBlock.span] at starts reaches ends before
        obtain ⟨other, otherMember, otherStarts, otherReaches⟩ :=
          freeIn block.span.2 (by simp only [FreeBlock.span]; omega)
            (by simp only [FreeBlock.span]; omega) (by simp only [FreeBlock.span]; omega)
        have symmetric : Std.Symm FreeBlock.Apart := ⟨fun _ _ => Or.symm⟩
        by_cases same : block = other
        · rw [same] at otherReaches
          exact lt_irrefl _ otherReaches
        · have order := partitioned.freeApart.forall member otherMember same
          simp only [FreeBlock.Apart, FreeBlock.span] at order otherStarts otherReaches
          omega
      have isLast : state.freeBlocks.getLast? = some block := by
        obtain ⟨last, isLast⟩ := Option.isSome_iff_exists.mp
          (List.getLast?_isSome.mpr (List.ne_nil_of_mem member))
        have shape := List.dropLast_append_getLast? last isLast
        rw [← shape, List.map_append] at separated
        rw [← shape] at member
        rcases List.mem_append.mp member with inFront | atLast
        · have before := (List.pairwise_append.mp separated).2.2 block.span
            (List.mem_map_of_mem inFront) last.span (by simp)
          have lastEnds := scanned.freeEnds last (List.mem_of_getLast? isLast)
          simp only [FreeBlock.span] at before lastEnds atEnd
          omega
        · rw [isLast, List.mem_singleton.mp atLast]
      have endsThere : block.first + block.second = state.nextNewOffset :=
        UInt64.toNat_inj.mp
          ((FreeBlock.toNat_end (show scope.memoryLimit.toNat < sizeRange by omega)
            (ends.trans nextInside)).trans atEnd)
      simp only [FreeBlock.span] at starts atEnd
      have room : scope.memoryLimit - block.first ≥ interval.size := by
        rw [ge_iff_le, UInt64.le_iff_toNat_le, UInt64.toNat_sub_of_le _ _
          (UInt64.le_iff_toNat_le.mpr (by omega))]
        omega
      simp only [isLast, endsThere, ↓reduceIte] at fails
      have fitted :
          scope.offsetIn interval ⟨block.first, scope.memoryLimit - block.first⟩ =
            .ok (some block.first) := by
        rw [@offsetIn_eq scope interval ⟨block.first, scope.memoryLimit - block.first⟩ unannotated
          (blockRepresentable block member) (scanned.freeAligned block member), if_pos room]
      rw [fitted] at fails
      cases fails

end Scan

/-! ## Whole scans -/

/-- What the allocator relies on for a buffer without an annotated address. -/
structure Placeable
    (scope : Scope)
    (interval : LiveInterval) :
    Prop where
  sizeAligned : 32 ∣ interval.size.toNat
  representable : scope.memoryLimit.toNat + 31 + interval.size.toNat < sizeRange

section Runs

variable {scope : Scope} {entries : List (LiveInterval × Allocation)} {time : Int}
  {state : ScanState} (unannotated : scope.preAllocated = [])
  (limitAligned : 32 ∣ scope.memoryLimit.toNat)
include unannotated limitAligned

theorem Partitioned.step {interval : LiveInterval} {next : ScanState}
    (partitioned : Partitioned state) (scanned : Scanned scope entries time state)
    (placeable : Placeable scope interval) (later : time ≤ interval.start)
    (steps : state.step scope interval = .ok next) :
    Partitioned next ∧ ∃ nextEntries, Scanned scope nextEntries interval.start next := by
  have representable := placeable.representable
  obtain ⟨released, separated⟩ := scanned.expire (by omega) later
  simp only [ScanState.step, addressOf?_none unannotated] at steps
  obtain ⟨allocation, nextScanned⟩ :=
    released.placeNormal separated representable placeable.sizeAligned
      (addressOf?_none unannotated _)
      (fun _ _ isAnnotated => by simp [addressOf?_none unannotated] at isAnnotated) steps
  exact ⟨(partitioned.expire unannotated scanned (by omega) later).placeNormal unannotated released
    separated representable limitAligned steps nextScanned, _, nextScanned⟩

theorem Partitioned.run {before after : List LiveInterval} {final : ScanState}
    (partitioned : Partitioned state) (scanned : Scanned scope entries time state)
    (placeable : ∀ interval ∈ before ++ after, Placeable scope interval)
    (inOrder : (before ++ after).Pairwise fun first second => first.start ≤ second.start)
    (later : ∀ interval ∈ before ++ after, time ≤ interval.start)
    (runs : before.foldlM (ScanState.step scope) state = .ok final) :
    Partitioned final ∧
      ∃ finalEntries finalTime,
        Scanned scope finalEntries finalTime final ∧
          ∀ interval ∈ after, finalTime ≤ interval.start := by
  induction before generalizing entries time state with
  | nil =>
    cases runs
    exact ⟨partitioned, entries, time, scanned, later⟩
  | cons interval rest ih =>
    obtain ⟨firstEarliest, restInOrder⟩ := List.pairwise_cons.mp inOrder
    obtain ⟨firstPlaceable, restPlaceable⟩ := List.forall_mem_cons.mp placeable
    rw [List.foldlM_cons] at runs
    cases steps : state.step scope interval with
    | error failure =>
      rw [steps] at runs
      cases runs
    | ok next =>
      rw [steps] at runs
      obtain ⟨nextPartitioned, nextEntries, nextScanned⟩ :=
        partitioned.step unannotated limitAligned scanned firstPlaceable
          (later interval List.mem_cons_self) steps
      exact ih nextPartitioned nextScanned restPlaceable restInOrder firstEarliest runs

omit unannotated limitAligned in
theorem Partitioned.initial : Partitioned {} where
  activeApart := .nil
  freeApart := .nil
  taken := fun _ member => nomatch member
  covers := by simp [free_iff]

theorem soundScan_of_placeable {intervals : List LiveInterval}
    (placeable : ∀ interval ∈ intervals, Placeable scope interval)
    (inOrder : intervals.Pairwise fun first second => first.start ≤ second.start) :
    SoundScan scope intervals := by
  have earliest : ∃ time : Int, ∀ interval ∈ intervals, time ≤ interval.start := by
    cases intervals with
    | nil => exact ⟨0, by simp⟩
    | cons first rest =>
      exact ⟨first.start, List.forall_mem_cons.mpr ⟨le_rfl, (List.pairwise_cons.mp inOrder).1⟩⟩
  obtain ⟨time, isEarliest⟩ := earliest
  have reached : ∀ before after state, intervals = before ++ after →
      before.foldlM (ScanState.step scope) {} = .ok state →
      Partitioned state ∧
        ∃ entries time,
          Scanned scope entries time state ∧ ∀ interval ∈ after, time ≤ interval.start := by
    rintro before after state rfl runs
    exact Partitioned.initial.run unannotated limitAligned (Scanned.initial scope time) placeable
      inOrder isEarliest runs
  refine {
    placed := fun before after state shape runs => (reached before after state shape runs).1
    released := ?_
    complete := ?_ }
  · intro before interval after state shape runs
    obtain ⟨partitioned, entries, time, scanned, later⟩ := reached before _ state shape runs
    have representable := (placeable interval (by simp [shape])).representable
    exact partitioned.expire unannotated scanned (by omega) (later interval List.mem_cons_self)
  · intro before interval after state failure shape runs fails
    obtain ⟨partitioned, entries, time, scanned, later⟩ := reached before _ state shape runs
    have representable := (placeable interval (by simp [shape])).representable
    have notEarlier := later interval List.mem_cons_self
    obtain ⟨released, separated⟩ := scanned.expire (by omega) notEarlier
    simp only [ScanState.step, addressOf?_none unannotated] at fails
    exact (partitioned.expire unannotated scanned (by omega) notEarlier).not_hasGap unannotated
      released separated representable limitAligned fails

end Runs

/--
Without annotated addresses `allocate` keeps the used memory split into active buffers and free
blocks that never touch, and fails only when no range of the requested size is free.  Buffer
sizes come out of `AlignUp(size_bytes, 32)`, and the memory limits are multiples of 32.
-/
theorem allocate_keepsPartition (sort : List LiveInterval → List LiveInterval)
    (memoryLimit : UInt64) (intervals : List LiveInterval) (sorts : SortsByStart sort)
    (limitAligned : 32 ∣ memoryLimit.toNat)
    (sizes : ∀ interval ∈ intervals, 32 ∣ interval.size.toNat)
    (representable : Representable memoryLimit intervals) :
    SoundScan ⟨memoryLimit, [], bufferMap intervals (sort intervals)⟩ (sort intervals) := by
  refine soundScan_of_placeable rfl limitAligned ?_ (sorts.sorted intervals)
  intro interval member
  have isGiven := (sorts.perm intervals).mem_iff.mp member
  exact ⟨sizes interval isGiven, representable interval isGiven⟩

/-- Two buffers that touch at one statement. -/
theorem allocate_keepsPartition_touching :
    SoundScan
      ⟨196352, [], bufferMap touchingBuffers (insertionSortByStart touchingBuffers)⟩
      (insertionSortByStart touchingBuffers) :=
  allocate_keepsPartition insertionSortByStart 196352 touchingBuffers insertionSortByStart_sorts
    (by decide) (by decide) (by unfold Representable sizeRange; decide)

end TilelangAscend.MemoryPlanning
