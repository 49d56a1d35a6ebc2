import Mathlib.Data.List.Pairwise
import TilelangAscend.FreeBlocks

namespace TilelangAscend.MemoryPlanning

open IntervalCover

/-!
# The invariant of the linear scan

Active buffers hold disjoint ranges below the end of the used
memory, and no free block overlaps an active buffer without an annotated address.  An annotated
buffer may lie inside a free block, so only `CheckConflict` keeps others away from it, and
`CheckConflict` does not see two intervals that have only an end point in common.
-/

/-! ## Ranges and live intervals -/

/-- An address belongs to a planned range. -/
def Allocation.Holds (allocation : Allocation) (address : Nat) : Prop :=
  allocation.offset.toNat ≤ address ∧ address < allocation.offset.toNat + allocation.size.toNat

instance
    (allocation : Allocation)
    (address : Nat) :
    Decidable (allocation.Holds address) :=
  inferInstanceAs (Decidable (_ ∧ _))

/-- Two ranges without a common address. -/
def DisjointRanges (first second : Allocation) : Prop :=
  ∀ address, ¬ (first.Holds address ∧ second.Holds address)

/-- Two closed live intervals have a statement in common. -/
def LiveInterval.Meets (first second : LiveInterval) : Prop :=
  ∃ time, (first.start ≤ time ∧ time ≤ first.finish) ∧ second.start ≤ time ∧ time ≤ second.finish

/-! ## The invariant of the scan -/

/-- A buffer is placed in the memory, an annotated one at its address. -/
structure PlacedIn
    (scope : Scope)
    (entry : LiveInterval × Allocation) :
    Prop where
  buffer : entry.2.buffer = entry.1.buffer
  size : entry.2.size = entry.1.size
  sizeAligned : 32 ∣ entry.1.size.toNat
  aligned : 32 ∣ entry.2.offset.toNat
  inside : entry.2.offset.toNat + entry.2.size.toNat ≤ scope.memoryLimit.toNat
  annotated :
    ∀ address, scope.addressOf? entry.1.buffer = some address →
      (entry.2.offset.toNat : Int) = address

/-- What holds after the buffers of a list were placed, the last of them at a time. -/
structure Scanned
    (scope : Scope)
    (entries : List (LiveInterval × Allocation))
    (time : Int)
    (state : ScanState) :
    Prop where
  recorded : state.allocations = entries.map Prod.snd
  placed : ∀ entry ∈ entries, PlacedIn scope entry
  started : ∀ entry ∈ entries, entry.1.start ≤ time
  apart :
    entries.Pairwise fun first second => first.1.Meets second.1 → DisjointRanges first.2 second.2
  isActive : ∀ entry ∈ state.active, entry ∈ entries
  live : ∀ entry ∈ entries, time ≤ entry.1.finish → entry ∈ state.active
  activeEnds :
    ∀ entry ∈ state.active, entry.2.offset.toNat + entry.2.size.toNat ≤ state.nextNewOffset.toNat
  activeApart :
    state.active.Pairwise fun first second => DisjointRanges first.2 second.2
  nextInside : state.nextNewOffset.toNat ≤ scope.memoryLimit.toNat
  nextAligned : 32 ∣ state.nextNewOffset.toNat ∨ state.nextNewOffset = scope.memoryLimit
  freeEnds : EndBy state.nextNewOffset.toNat state.freeBlocks
  freeAligned : ∀ block ∈ state.freeBlocks, 32 ∣ block.first.toNat
  freeApart :
    ∀ entry ∈ state.active, scope.addressOf? entry.1.buffer = none →
      ∀ address, entry.2.Holds address → ¬ Free state.freeBlocks address

section Scan

variable {scope : Scope} {entries : List (LiveInterval × Allocation)} {time : Int}
  {state : ScanState} {first second : Allocation} {offset : UInt64}
  {interval current : LiveInterval} {isReused : Bool} {freeBlocks : List FreeBlock}
  {address : Int} {next : ScanState}

theorem DisjointRanges.symm (disjoint : DisjointRanges first second) :
    DisjointRanges second first := by
  intro address both
  exact disjoint address ⟨both.2, both.1⟩

/-- Of two active buffers, each is disjoint from the other. -/
instance :
    Std.Symm fun first second : LiveInterval × Allocation => DisjointRanges first.2 second.2 :=
  ⟨fun _ _ disjoint => disjoint.symm⟩

theorem Scanned.initial
    (scope : Scope)
    (time : Int) :
    Scanned scope [] time {} where
  recorded := rfl
  placed := by simp
  started := by simp
  apart := List.Pairwise.nil
  isActive := by simp
  live := by simp
  activeEnds := by simp
  activeApart := List.Pairwise.nil
  nextInside := Nat.zero_le _
  nextAligned := Or.inl (by decide)
  freeEnds := by simp [EndBy]
  freeAligned := by simp
  freeApart := by simp

theorem Scanned.released_endBy (scanned : Scanned scope entries time state) (start : Int) :
    EndBy state.nextNewOffset.toNat
      (state.freeBlocks ++
        (state.active.filter (ScanState.expiresBefore start)).map fun entry =>
          ⟨entry.2.offset, entry.2.size⟩) := by
  intro block member
  rcases List.mem_append.mp member with isFree | isReleased
  · exact scanned.freeEnds block isFree
  · obtain ⟨entry, expired, rfl⟩ := List.mem_map.mp isReleased
    exact scanned.activeEnds entry (List.mem_of_mem_filter expired)

theorem Scanned.expire (scanned : Scanned scope entries time state)
    (representable : scope.memoryLimit.toNat < sizeRange) {start : Int} (later : time ≤ start) :
    Scanned scope entries start (state.expire start) ∧
      Separated ((state.expire start).freeBlocks.map FreeBlock.span) := by
  have bounded := lt_of_le_of_lt scanned.nextInside representable
  have ends := scanned.released_endBy start
  refine ⟨?_, mergeFreeBlocks_separated bounded ends⟩
  have kept : ∀ entry ∈ (state.expire start).active,
      entry ∈ state.active ∧ start ≤ entry.1.finish := by
    intro entry member
    obtain ⟨wasActive, notExpired⟩ := List.mem_filter.mp member
    simp only [ScanState.expiresBefore, Bool.not_eq_eq_eq_not, Bool.not_true,
      decide_eq_false_iff_not, not_lt] at notExpired
    exact ⟨wasActive, notExpired⟩
  refine {
    recorded := scanned.recorded
    placed := scanned.placed
    started := fun entry member => (scanned.started entry member).trans later
    apart := scanned.apart
    isActive := fun entry member => scanned.isActive entry (kept entry member).1
    live := ?_
    activeEnds := fun entry member => scanned.activeEnds entry (kept entry member).1
    activeApart := scanned.activeApart.sublist List.filter_sublist
    nextInside := scanned.nextInside
    nextAligned := scanned.nextAligned
    freeEnds := ?_
    freeAligned := ?_
    freeApart := ?_ }
  · intro entry member stillLive
    refine List.mem_filter.mpr ⟨scanned.live entry member (later.trans stillLive), ?_⟩
    simp [ScanState.expiresBefore, stillLive]
  · intro block member
    obtain ⟨_, right, isRight, same⟩ := mem_mergeFreeBlocks bounded ends member
    rw [same]
    exact ends right isRight
  · intro block member
    obtain ⟨⟨left, isLeft, same⟩, _⟩ := mem_mergeFreeBlocks bounded ends member
    have sameFirst : block.first.toNat = left.first.toNat := same
    rw [sameFirst]
    rcases List.mem_append.mp isLeft with isFree | isReleased
    · exact scanned.freeAligned left isFree
    · obtain ⟨entry, expired, rfl⟩ := List.mem_map.mp isReleased
      exact (scanned.placed entry (scanned.isActive entry (List.mem_of_mem_filter expired))).aligned
  · intro entry member normal address holds free
    obtain ⟨wasActive, stillLive⟩ := kept entry member
    rcases free_append.mp ((free_mergeFreeBlocks bounded ends).mp free) with wasFree | released
    · exact scanned.freeApart entry wasActive normal address holds wasFree
    · obtain ⟨block, isReleased, within⟩ := free_iff.mp released
      obtain ⟨other, expired, rfl⟩ := List.mem_map.mp isReleased
      obtain ⟨otherActive, isExpired⟩ := List.mem_filter.mp expired
      have differs : entry ≠ other := by
        intro same
        rw [← same] at isExpired
        simp only [ScanState.expiresBefore, decide_eq_true_eq] at isExpired
        omega
      exact scanned.activeApart.forall wasActive otherActive differs address ⟨holds, within⟩

/-- An allocation that an operation of the scan adds. -/
structure NewRange
    (scope : Scope)
    (state : ScanState)
    (interval : LiveInterval)
    (allocation : Allocation)
    (freeBlocks : List FreeBlock)
    (nextNewOffset : UInt64) :
    Prop where
  placed : PlacedIn scope (interval, allocation)
  disjoint : ∀ entry ∈ state.active, DisjointRanges entry.2 allocation
  grows : state.nextNewOffset.toNat ≤ nextNewOffset.toNat
  nextInside : nextNewOffset.toNat ≤ scope.memoryLimit.toNat
  nextAligned : 32 ∣ nextNewOffset.toNat ∨ nextNewOffset = scope.memoryLimit
  ends : allocation.offset.toNat + allocation.size.toNat ≤ nextNewOffset.toNat
  freeEnds : EndBy nextNewOffset.toNat freeBlocks
  freeAligned : ∀ block ∈ freeBlocks, 32 ∣ block.first.toNat
  noneFreed :
    ∀ address, Free freeBlocks address →
      Free state.freeBlocks address ∨ state.nextNewOffset.toNat ≤ address
  taken :
    scope.addressOf? interval.buffer = none →
    ∀ address, allocation.Holds address → ¬ Free freeBlocks address

theorem Scanned.record {nextNewOffset : UInt64}
    (scanned : Scanned scope entries interval.start state)
    (range :
      NewRange scope state interval ⟨interval.buffer, offset, interval.size, isReused⟩
        freeBlocks nextNewOffset) :
    Scanned scope
      (entries ++ [(interval, ⟨interval.buffer, offset, interval.size, isReused⟩)])
      interval.start
      (ScanState.record
        { state with freeBlocks := freeBlocks, nextNewOffset := nextNewOffset }
        interval offset isReused) := by
  refine {
    recorded := ?_
    placed := ?_
    started := ?_
    apart := ?_
    isActive := ?_
    live := ?_
    activeEnds := ?_
    activeApart := ?_
    nextInside := range.nextInside
    nextAligned := range.nextAligned
    freeEnds := range.freeEnds
    freeAligned := range.freeAligned
    freeApart := ?_ }
  · simp [ScanState.record, scanned.recorded]
  · intro entry member
    rcases List.mem_append.mp member with isOld | isNew
    · exact scanned.placed entry isOld
    · rw [List.mem_singleton.mp isNew]
      exact range.placed
  · intro entry member
    rcases List.mem_append.mp member with isOld | isNew
    · exact scanned.started entry isOld
    · rw [List.mem_singleton.mp isNew]
  · refine List.pairwise_append.mpr ⟨scanned.apart, List.pairwise_singleton _ _, ?_⟩
    intro entry isOld second isNew meets
    rw [List.mem_singleton.mp isNew] at meets ⊢
    -- an earlier buffer that meets the new one is still active
    obtain ⟨shared, within, above, _⟩ := meets
    exact range.disjoint entry (scanned.live entry isOld (above.trans within.2))
  · intro entry member
    rcases List.mem_append.mp member with isOld | isNew
    · exact List.mem_append_left _ (scanned.isActive entry isOld)
    · exact List.mem_append_right _ isNew
  · intro entry member stillLive
    rcases List.mem_append.mp member with isOld | isNew
    · exact List.mem_append_left _ (scanned.live entry isOld stillLive)
    · exact List.mem_append_right _ isNew
  · intro entry member
    rcases List.mem_append.mp member with isOld | isNew
    · exact (scanned.activeEnds entry isOld).trans range.grows
    · rw [List.mem_singleton.mp isNew]
      exact range.ends
  · refine List.pairwise_append.mpr
      ⟨scanned.activeApart, List.pairwise_singleton _ _, ?_⟩
    intro entry isOld second isNew
    rw [List.mem_singleton.mp isNew]
    exact range.disjoint entry isOld
  · intro entry member normal address holds free
    rcases List.mem_append.mp member with isOld | isNew
    · rcases range.noneFreed address free with wasFree | isNewMemory
      · exact scanned.freeApart entry isOld normal address holds wasFree
      · have ends := scanned.activeEnds entry isOld
        have below := holds.2
        omega
    · rw [List.mem_singleton.mp isNew] at normal holds
      exact range.taken normal address holds free

/-! ## Annotated buffers -/

theorem toNat_ofInt (nonnegative : 0 ≤ address) (fits : address < sizeRange) :
    ((UInt64.ofInt address).toNat : Int) = address := by
  unfold sizeRange at fits
  unfold UInt64.ofInt
  rw [UInt64.toNat_ofNat']
  omega

theorem toNat_alignUp_address {bound : Nat} (representable : bound + 31 < sizeRange)
    (nonnegative : 0 ≤ address) (aligned : 32 ∣ address) (inside : address ≤ bound) :
    ((alignUp (UInt64.ofInt address) 32).toNat : Int) = address := by
  have cast := toNat_ofInt nonnegative (by omega)
  rw [toNat_alignUp (by omega)]
  omega

theorem disjointRanges_of_test (firstFits : first.offset.toNat + first.size.toNat < sizeRange)
    (secondFits : second.offset.toNat + second.size.toNat < sizeRange)
    (passes :
      ¬ (second.offset < first.offset + first.size ∧ first.offset < second.offset + second.size)) :
    DisjointRanges first second := by
  rw [UInt64.lt_iff_toNat_lt, UInt64.lt_iff_toNat_lt, toNat_add_of_lt firstFits,
    toNat_add_of_lt secondFits] at passes
  intro address both
  obtain ⟨⟨firstStarts, firstEnds⟩, secondStarts, secondEnds⟩ := both
  omega

theorem mem_freeBelow {block : FreeBlock} (member : block ∈ state.freeBelow offset) :
    block ∈ state.freeBlocks ∨
      (state.nextNewOffset.toNat < offset.toNat ∧
        block.span = (state.nextNewOffset.toNat, offset.toNat)) := by
  unfold ScanState.freeBelow at member
  split at member
  · rename_i beyond
    rcases List.mem_append.mp member with isFree | isSkipped
    · exact Or.inl isFree
    · right
      have inOrder := UInt64.lt_iff_toNat_lt.mp beyond
      have difference := UInt64.toNat_sub_of_le _ _ (UInt64.le_of_lt beyond)
      rw [List.mem_singleton.mp isSkipped]
      simp only [FreeBlock.span, difference, Prod.mk.injEq, true_and]
      omega
  · exact Or.inl member

theorem toNat_usedUpTo (state : ScanState) (allocatedEnd : UInt64) :
    (state.usedUpTo allocatedEnd).toNat = max state.nextNewOffset.toNat allocatedEnd.toNat := by
  unfold ScanState.usedUpTo
  split
  · rename_i beyond
    rw [max_eq_right (le_of_lt (UInt64.lt_iff_toNat_lt.mp beyond))]
  · rename_i within
    rw [gt_iff_lt, UInt64.lt_iff_toNat_lt] at within
    rw [max_eq_left (Nat.le_of_not_lt within)]

theorem Scanned.placePreAllocated (scanned : Scanned scope entries interval.start state)
    (representable : scope.memoryLimit.toNat + 31 + interval.size.toNat < sizeRange)
    (sizeAligned : 32 ∣ interval.size.toNat)
    (isAnnotated : scope.addressOf? interval.buffer = some address)
    (nonnegative : 0 ≤ address) (aligned : 32 ∣ address)
    (inside : address + interval.size.toNat ≤ scope.memoryLimit.toNat)
    (places : state.placePreAllocated interval address = .ok next) :
    ∃ allocation, Scanned scope (entries ++ [(interval, allocation)]) interval.start next := by
  have offsetIs : ((alignUp (UInt64.ofInt address) 32).toNat : Int) = address :=
    toNat_alignUp_address
      (show scope.memoryLimit.toNat + 31 < sizeRange by omega) nonnegative aligned (by omega)
  simp only [ScanState.placePreAllocated] at places
  generalize alignUp (UInt64.ofInt address) 32 = offset at places offsetIs
  have endIs : (offset + interval.size).toNat = offset.toNat + interval.size.toNat :=
    toNat_add_of_lt (by omega)
  have used := toNat_usedUpTo state (offset + interval.size)
  have nextInside := scanned.nextInside
  rw [endIs] at used
  split at places
  · cases places
  · rename_i clear
    cases places
    refine ⟨_, scanned.record ?_⟩
    refine {
      placed := {
        buffer := rfl
        size := rfl
        sizeAligned := sizeAligned
        aligned := by simp only; omega
        inside := by simp only; omega
        annotated := ?_ }
      disjoint := ?_
      grows := by omega
      nextInside := by omega
      nextAligned := ?_
      ends := by simp only; omega
      freeEnds := ?_
      freeAligned := ?_
      noneFreed := ?_
      taken := ?_ }
    · intro other isOther
      rw [isAnnotated] at isOther
      rw [← Option.some.inj isOther]
      exact offsetIs
    · intro entry member
      have entryInside := (scanned.placed entry (scanned.isActive entry member)).inside
      refine disjointRanges_of_test (by omega) (by simp only; omega) ?_
      intro overlaps
      exact clear (List.any_eq_true.mpr ⟨entry, member, by simpa using overlaps⟩)
    · unfold ScanState.usedUpTo
      split
      · left
        rw [endIs]
        omega
      · exact scanned.nextAligned
    · intro block member
      rcases mem_freeBelow member with isFree | ⟨_, spans⟩
      · have ends := scanned.freeEnds block isFree
        omega
      · rw [spans]
        simp only
        omega
    · intro block member
      rcases mem_freeBelow member with isFree | ⟨beyond, spans⟩
      · exact scanned.freeAligned block isFree
      · have starts : block.first.toNat = state.nextNewOffset.toNat := congrArg Prod.fst spans
        rcases scanned.nextAligned with isAligned | isLimit
        · rwa [starts]
        · rw [isLimit] at beyond
          omega
    · intro other free
      obtain ⟨block, member, within⟩ := free_iff.mp free
      rcases mem_freeBelow member with isFree | ⟨_, spans⟩
      · exact Or.inl (free_iff.mpr ⟨block, isFree, within⟩)
      · rw [spans] at within
        exact Or.inr within.1
    · intro unannotated
      rw [isAnnotated] at unannotated
      cases unannotated

/-! ## Buffers without an annotation -/

theorem conflictsWith_of_checkConflict {annotated : LiveInterval}
    (clear : scope.checkConflict offset current = .ok false)
    (isAnnotated : scope.addressOf? annotated.buffer = some address)
    (found : scope.bufferMap annotated.buffer = some annotated) :
    Scope.conflictsWith offset current annotated address = false := by
  have listed : (annotated.buffer, address) ∈ scope.preAllocated := by
    obtain ⟨before, after, shape, _⟩ := List.lookup_eq_some_iff.mp isAnnotated
    rw [shape]
    simp
  unfold Scope.checkConflict at clear
  generalize scope.preAllocated = remaining at clear listed
  induction remaining with
  | nil => simp at listed
  | cons head rest ih =>
    obtain ⟨buffer, headAddress⟩ := head
    simp only [Scope.checkConflictFrom] at clear
    split at clear
    · cases clear
    · rename_i headInterval headFound
      split at clear
      · cases clear
      · rename_i passes
        rcases List.mem_cons.mp listed with isHead | inRest
        · cases isHead
          rw [found] at headFound
          cases headFound
          simpa using passes
        · exact ih clear inRest

/-- An active buffer that `CheckConflict` sees when it looks for room for another one. -/
structure Visible
    (scope : Scope)
    (current : LiveInterval)
    (entry : LiveInterval × Allocation) :
    Prop where
  found : scope.bufferMap entry.1.buffer = some entry.1
  startsBefore : current.start < entry.1.finish
  endsAfter : entry.1.start < current.finish

theorem disjoint_of_visible {entry : LiveInterval × Allocation}
    (representable : scope.memoryLimit.toNat < sizeRange)
    (normal : scope.addressOf? current.buffer = none)
    (isAnnotated : scope.addressOf? entry.1.buffer = some address)
    (placed : PlacedIn scope entry) (seen : Visible scope current entry)
    (fits : offset.toNat + current.size.toNat ≤ scope.memoryLimit.toNat)
    (clear : scope.checkConflict offset current = .ok false) :
    DisjointRanges entry.2 ⟨current.buffer, offset, current.size, isReused⟩ := by
  have passes := conflictsWith_of_checkConflict clear isAnnotated seen.found
  have differs : entry.1.buffer ≠ current.buffer := by
    intro same
    rw [same, normal] at isAnnotated
    cases isAnnotated
  have inside := placed.inside
  have atAddress := placed.annotated address isAnnotated
  have offsetIs : UInt64.ofInt address = entry.2.offset := by
    refine UInt64.toNat_inj.mp ?_
    have cast := toNat_ofInt (show 0 ≤ address by omega) (by omega)
    omega
  refine disjointRanges_of_test (by omega) (by simp only; omega) ?_
  intro overlaps
  rw [placed.size] at overlaps
  simp [Scope.conflictsWith, differs, seen.startsBefore, seen.endsAfter, offsetIs,
    overlaps.1, overlaps.2] at passes

theorem offsetIn_found {current : LiveInterval} {block : FreeBlock} {offset : UInt64}
    (representable : block.first.toNat + 31 < sizeRange) (aligned : 32 ∣ block.first.toNat)
    (found : scope.offsetIn current block = .ok (some offset)) :
    offset = block.first ∧ current.size.toNat ≤ block.second.toNat ∧
      scope.checkConflict offset current = .ok false := by
  have alignedFirst : alignUp block.first 32 = block.first := by
    refine UInt64.toNat_inj.mp ?_
    rw [toNat_alignUp representable]
    omega
  simp only [Scope.offsetIn, alignedFirst] at found
  split at found
  · rename_i room
    cases checked : scope.checkConflict block.first current with
    | error failure => simp [checked] at found
    | ok conflicts =>
      cases conflicts with
      | true => simp [checked] at found
      | false =>
        simp only [checked, Except.ok.injEq, Option.some.injEq] at found
        subst found
        exact ⟨rfl, UInt64.le_iff_toNat_le.mp room.1, checked⟩
  · simp at found

/-- First fit finds an offset inside a free block. -/
theorem firstFit_found (found : scope.firstFit current freeBlocks = .ok (some offset)) :
    ∃ block ∈ freeBlocks, scope.offsetIn current block = .ok (some offset) := by
  induction freeBlocks with
  | nil => simp [Scope.firstFit] at found
  | cons block rest ih =>
    simp only [Scope.firstFit] at found
    split at found
    · cases found
    · rename_i fitted
      cases found
      exact ⟨block, List.mem_cons_self, fitted⟩
    · obtain ⟨other, member, fitted⟩ := ih found
      exact ⟨other, List.mem_cons_of_mem _ member, fitted⟩

/-- What a found block guarantees. -/
structure ReuseFound
    (scope : Scope)
    (state : ScanState)
    (current : LiveInterval)
    (reuse : Scope.Reuse) :
    Prop where
  whole :
    ∃ block ∈ reuse.freeBlocks, block.first = reuse.offset ∧ current.size.toNat ≤ block.second.toNat
  clear : scope.checkConflict reuse.offset current = .ok false
  separated : Separated (reuse.freeBlocks.map FreeBlock.span)
  ends : EndBy reuse.nextNewOffset.toNat reuse.freeBlocks
  aligned : ∀ block ∈ reuse.freeBlocks, 32 ∣ block.first.toNat
  grows : state.nextNewOffset.toNat ≤ reuse.nextNewOffset.toNat
  nextInside : reuse.nextNewOffset.toNat ≤ scope.memoryLimit.toNat
  nextAligned : 32 ∣ reuse.nextNewOffset.toNat ∨ reuse.nextNewOffset = scope.memoryLimit
  noneFreed :
    ∀ address, Free reuse.freeBlocks address →
      Free state.freeBlocks address ∨ state.nextNewOffset.toNat ≤ address

theorem Scanned.extended_found {inner : List FreeBlock} {last : FreeBlock}
    (scanned : Scanned scope entries time state)
    (representable : scope.memoryLimit.toNat + 31 < sizeRange)
    (separated : Separated (state.freeBlocks.map FreeBlock.span))
    (shape : state.freeBlocks = inner ++ [last])
    (atEnd : last.first + last.second = state.nextNewOffset)
    (found :
      scope.offsetIn current ⟨last.first, scope.memoryLimit - last.first⟩ = .ok (some offset)) :
    ReuseFound scope state current
      ⟨offset, inner ++ [⟨last.first, scope.memoryLimit - last.first⟩], scope.memoryLimit⟩ := by
  have isLast : last ∈ state.freeBlocks := by
    rw [shape]
    simp
  have lastAligned := scanned.freeAligned last isLast
  have lastEnds := scanned.freeEnds last isLast
  have nextInside := scanned.nextInside
  have lastEnd : last.span.2 = state.nextNewOffset.toNat := by
    rw [← atEnd]
    exact (FreeBlock.toNat_end (show scope.memoryLimit.toNat < sizeRange by omega) (by omega)).symm
  have firstInside : last.first.toNat ≤ scope.memoryLimit.toNat := by
    simp only [FreeBlock.span] at lastEnd
    omega
  have room : (scope.memoryLimit - last.first).toNat = scope.memoryLimit.toNat - last.first.toNat :=
    UInt64.toNat_sub_of_le _ _ (UInt64.le_iff_toNat_le.mpr firstInside)
  obtain ⟨isFirst, fits, clear⟩ :=
    @offsetIn_found scope current ⟨last.first, scope.memoryLimit - last.first⟩ offset
      (by simp only; omega) lastAligned found
  refine {
    whole := ⟨_, by simp, isFirst.symm, fits⟩
    clear := clear
    separated := ?_
    ends := ?_
    aligned := ?_
    grows := nextInside
    nextInside := le_refl _
    nextAligned := Or.inr rfl
    noneFreed := ?_ }
  · rw [shape, List.map_append] at separated
    obtain ⟨innerSeparated, _, innerApart⟩ := List.pairwise_append.mp separated
    rw [List.map_append]
    refine List.pairwise_append.mpr ⟨innerSeparated, List.pairwise_singleton _ _, ?_⟩
    intro left isLeft right isRight
    rw [List.map_singleton, List.mem_singleton] at isRight
    rw [isRight]
    exact innerApart left isLeft last.span (by simp)
  · intro block member
    rcases List.mem_append.mp member with isInner | isExtended
    · exact (scanned.freeEnds block (by rw [shape]; simp [isInner])).trans nextInside
    · rw [List.mem_singleton.mp isExtended]
      simp only [FreeBlock.span, room]
      omega
  · intro block member
    rcases List.mem_append.mp member with isInner | isExtended
    · exact scanned.freeAligned block (by rw [shape]; simp [isInner])
    · rw [List.mem_singleton.mp isExtended]
      exact lastAligned
  · intro address free
    rcases free_append.mp free with inInner | inExtended
    · left
      rw [shape]
      exact free_append.mpr (Or.inl inInner)
    · obtain ⟨block, member, within⟩ := free_iff.mp inExtended
      rw [List.mem_singleton.mp member] at within
      by_cases inLast : address < last.span.2
      · exact Or.inl (free_iff.mpr ⟨last, isLast, within.1, inLast⟩)
      · right
        omega

/-- What is reused is free, or extends the used memory. -/
theorem Scanned.findReusableBlock {reuse : Scope.Reuse}
    (scanned : Scanned scope entries time state)
    (representable : scope.memoryLimit.toNat + 31 < sizeRange)
    (separated : Separated (state.freeBlocks.map FreeBlock.span))
    (found :
      scope.findReusableBlock current state.freeBlocks state.nextNewOffset = .ok (some reuse)) :
    ReuseFound scope state current reuse := by
  have nextInside := scanned.nextInside
  simp only [Scope.findReusableBlock, sortBlocks_of_separated separated] at found
  split at found
  · cases found
  · rename_i offset fitted
    cases found
    obtain ⟨block, member, inBlock⟩ := firstFit_found fitted
    have ends := scanned.freeEnds block member
    obtain ⟨isFirst, fits, clear⟩ :=
      offsetIn_found (by simp only [FreeBlock.span] at ends; omega)
        (scanned.freeAligned block member) inBlock
    exact {
      whole := ⟨block, member, isFirst.symm, fits⟩
      clear := clear
      separated := separated
      ends := scanned.freeEnds
      aligned := scanned.freeAligned
      grows := le_refl _
      nextInside := nextInside
      nextAligned := scanned.nextAligned
      noneFreed := fun address free => Or.inl free }
  · split at found
    · cases found
    · rename_i last isLast
      have shape : state.freeBlocks = state.freeBlocks.dropLast ++ [last] :=
        (List.dropLast_append_getLast? last isLast).symm
      split at found
      · rename_i atEnd
        split at found
        · cases found
        · cases found
        · rename_i offset fitted
          cases found
          exact scanned.extended_found representable separated shape atEnd fitted
      · cases found

/-- Placing a buffer in a free block keeps the invariant. -/
theorem Scanned.placeReused (scanned : Scanned scope entries interval.start state)
    (separated : Separated (state.freeBlocks.map FreeBlock.span))
    (representable : scope.memoryLimit.toNat + 31 + interval.size.toNat < sizeRange)
    (sizeAligned : 32 ∣ interval.size.toNat) (normal : scope.addressOf? interval.buffer = none)
    (visible :
      ∀ entry ∈ state.active,
        (scope.addressOf? entry.1.buffer).isSome → Visible scope interval entry)
    (places : state.placeReused scope interval = .ok next) :
    ∃ allocation, Scanned scope (entries ++ [(interval, allocation)]) interval.start next := by
  simp only [ScanState.placeReused] at places
  split at places
  · cases places
  · cases places
  · rename_i reuse isFound
    cases places
    have found := scanned.findReusableBlock (by omega) separated isFound
    have nextInside := found.nextInside
    have bounded : reuse.nextNewOffset.toNat < sizeRange := by omega
    obtain ⟨whole, isWhole, atFirst, fits⟩ := found.whole
    have wholeEnds := found.ends whole isWhole
    have wholeSpan :
        whole.span = (reuse.offset.toNat, reuse.offset.toNat + whole.second.toNat) := by
      rw [FreeBlock.span, atFirst]
    have inWhole : reuse.offset.toNat + interval.size.toNat ≤ whole.span.2 := by
      rw [wholeSpan]
      simp only
      omega
    have offsetAligned : 32 ∣ reuse.offset.toNat := by
      rw [← atFirst]
      exact found.aligned whole isWhole
    refine ⟨_, scanned.record ?_⟩
    refine {
      placed := {
        buffer := rfl
        size := rfl
        sizeAligned := sizeAligned
        aligned := offsetAligned
        inside := by simp only; omega
        annotated := ?_ }
      disjoint := ?_
      grows := found.grows
      nextInside := nextInside
      nextAligned := found.nextAligned
      ends := by simp only; omega
      freeEnds := ?_
      freeAligned := ?_
      noneFreed := ?_
      taken := ?_ }
    · intro address isAnnotated
      rw [normal] at isAnnotated
      cases isAnnotated
    · intro entry member
      have entryPlaced := scanned.placed entry (scanned.isActive entry member)
      cases recorded : scope.addressOf? entry.1.buffer with
      | some address =>
        exact disjoint_of_visible (by omega) normal recorded entryPlaced
          (visible entry member (by simp [recorded])) (by omega) found.clear
      | none =>
        -- the range was free or is new, and the entry is neither
        intro address both
        have inRange : whole.span.1 ≤ address ∧ address < whole.span.2 := by
          have rangeBounds := both.2
          simp only [Allocation.Holds] at rangeBounds
          rw [wholeSpan] at inWhole ⊢
          simp only at inWhole ⊢
          omega
        rcases found.noneFreed address (free_iff.mpr ⟨whole, isWhole, inRange⟩) with
          wasFree | isNewMemory
        · exact scanned.freeApart entry member recorded address both.1 wasFree
        · have ends := scanned.activeEnds entry member
          have below := both.1.2
          omega
    · intro block member
      rcases mem_removeFromFreeBlocks bounded found.ends member with
        isGiven | ⟨given, isGiven, starts, inside, isPart⟩
      · exact found.ends block isGiven
      · have givenEnds := found.ends given isGiven
        rcases span_of_mem_remainder bounded givenEnds (by omega) isPart with front | back
        · rw [front]
          simp only
          omega
        · rw [back]
          exact givenEnds
    · intro block member
      rcases mem_removeFromFreeBlocks bounded found.ends member with
        isGiven | ⟨given, isGiven, starts, inside, isPart⟩
      · exact found.aligned block isGiven
      · have givenAligned := found.aligned given isGiven
        rcases span_of_mem_remainder bounded (found.ends given isGiven) (by omega) isPart with
          front | back
        · have sameFirst : block.first.toNat = given.first.toNat := congrArg Prod.fst front
          rwa [sameFirst]
        · have atEnd : block.first.toNat = reuse.offset.toNat + interval.size.toNat :=
            congrArg Prod.fst back
          omega
    · intro address free
      exact found.noneFreed address
        (free_of_removeFromFreeBlocks bounded found.ends (by omega) free)
    · intro _ address holds free
      have rangeBounds := holds
      simp only [Allocation.Holds] at rangeBounds
      exact free_removeFromFreeBlocks bounded found.ends found.separated isWhole
        (by rw [wholeSpan]) inWhole (by omega) free rangeBounds

/-- Placing a buffer behind the used memory keeps the invariant. -/
theorem Scanned.placeNormal (scanned : Scanned scope entries interval.start state)
    (separated : Separated (state.freeBlocks.map FreeBlock.span))
    (representable : scope.memoryLimit.toNat + 31 + interval.size.toNat < sizeRange)
    (sizeAligned : 32 ∣ interval.size.toNat) (normal : scope.addressOf? interval.buffer = none)
    (visible :
      ∀ entry ∈ state.active,
        (scope.addressOf? entry.1.buffer).isSome → Visible scope interval entry)
    (places : state.placeNormal scope interval = .ok next) :
    ∃ allocation, Scanned scope (entries ++ [(interval, allocation)]) interval.start next := by
  have nextInside := scanned.nextInside
  have offsetIs := toNat_alignUp (show state.nextNewOffset.toNat + 31 < sizeRange by omega)
  simp only [ScanState.placeNormal] at places
  generalize alignUp state.nextNewOffset 32 = offset at places offsetIs
  have endIs : (offset + interval.size).toNat = offset.toNat + interval.size.toNat :=
    toNat_add_of_lt (by omega)
  split at places
  · rename_i fits
    rw [UInt64.le_iff_toNat_le, endIs] at fits
    split at places
    · cases places
    · exact scanned.placeReused separated representable sizeAligned normal visible places
    · cases places
      refine ⟨_, scanned.record ?_⟩
      refine {
        placed := {
          buffer := rfl
          size := rfl
          sizeAligned := sizeAligned
          aligned := by simp only; omega
          inside := fits
          annotated := ?_ }
        disjoint := ?_
        grows := by omega
        nextInside := by omega
        nextAligned := Or.inl (by omega)
        ends := by simp only; omega
        freeEnds := ?_
        freeAligned := scanned.freeAligned
        noneFreed := fun address free => Or.inl free
        taken := ?_ }
      · intro address isAnnotated
        rw [normal] at isAnnotated
        cases isAnnotated
      · intro entry member address both
        have ends := scanned.activeEnds entry member
        have below := both.1.2
        have above := both.2.1
        simp only at above
        omega
      · intro block member
        have ends := scanned.freeEnds block member
        omega
      · intro _ address holds free
        obtain ⟨block, member, within⟩ := free_iff.mp free
        have ends := scanned.freeEnds block member
        have above := holds.1
        simp only at above
        omega
  · exact scanned.placeReused separated representable sizeAligned normal visible places

end Scan

end TilelangAscend.MemoryPlanning
