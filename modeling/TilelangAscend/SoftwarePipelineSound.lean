import TilelangAscend.SoftwarePipelineVersions

namespace TilelangAscend.SoftwarePipeline

/-!
# Reads of a software pipeline

Every read of a pipelined buffer finds what its own iteration wrote: the write that its iteration
makes runs before it, and whatever else writes the same version in between belongs to the same
iteration.  This module shows that over the accesses of the whole pipelined loop.
-/

/-! ## Accesses in order -/

theorem flatMap_eq_append_cons {Outer Inner : Type*} {image : Outer → List Inner}
    {outer : List Outer} {before after : List Inner} {element : Inner}
    (split : outer.flatMap image = before ++ element :: after) :
    ∃ first source second earlier later,
      outer = first ++ source :: second ∧ image source = earlier ++ element :: later ∧
        before = first.flatMap image ++ earlier := by
  induction outer generalizing before with
  | nil => simp at split
  | cons head rest ih =>
    rw [List.flatMap_cons, List.append_eq_append_iff] at split
    rcases split with ⟨middle, isBefore, isRest⟩ | ⟨middle, isHead, isRest⟩
    · obtain ⟨first, source, second, earlier, later, isOuter, isImage, isMiddle⟩ := ih isRest
      refine ⟨head :: first, source, second, earlier, later, ?_, isImage, ?_⟩
      · rw [isOuter, List.cons_append]
      · rw [isBefore, isMiddle, List.flatMap_cons, List.append_assoc]
    · cases middle with
      | nil =>
        obtain ⟨first, source, second, earlier, later, isOuter, isImage, isNil⟩ :=
          @ih [] isRest.symm
        refine ⟨head :: first, source, second, earlier, later, ?_, isImage, ?_⟩
        · rw [isOuter, List.cons_append]
        · rw [List.flatMap_cons, List.append_assoc, ← isNil, isHead, List.append_nil,
            List.append_nil]
      | cons inner others =>
        rw [List.cons_append, List.cons.injEq] at isRest
        obtain ⟨rfl, -⟩ := isRest
        exact ⟨[], head, rest, before, others, rfl, isHead, rfl⟩

theorem mem_touches {event : Event} {touch : Touch} :
    touch ∈ event.touches ↔ touch.event = event ∧ touch.access ∈ event.block.accesses := by
  simp only [Event.touches, List.mem_map]
  constructor
  · rintro ⟨access, member, rfl⟩
    exact ⟨rfl, member⟩
  · rintro ⟨rfl, member⟩
    exact ⟨touch.access, member, rfl⟩

theorem touches_sorted {trace : List Event} (sorted : trace.Pairwise Event.Before) :
    (trace.flatMap Event.touches).Pairwise fun first second =>
      first.event = second.event ∨ first.event.Before second.event := by
  rw [List.pairwise_flatMap]
  constructor
  · intro event _
    apply List.pairwise_of_forall_mem_list
    intro first firstIn second secondIn
    left
    rw [(mem_touches.mp firstIn).1, (mem_touches.mp secondIn).1]
  · apply sorted.imp
    intro first second before firstTouch firstIn secondTouch secondIn
    right
    rw [(mem_touches.mp firstIn).1, (mem_touches.mp secondIn).1]
    exact before

namespace PipelineLoop

variable {loop : PipelineLoop} {analyzer : Analyzer loop}

theorem pipelineTrace_sorted (inScope : loop.InScope) (regions : loop.RegionsApart) :
    (loop.pipelineTrace analyzer).Pairwise Event.Before := by
  rw [pipelineTrace_eq_schedule inScope.orders_permuted inScope.extent_nonneg regions]
  exact schedule_sorted _ _

theorem mem_pipelineTrace (inScope : loop.InScope) (regions : loop.RegionsApart) {event : Event} :
    event ∈ loop.pipelineTrace analyzer ↔
      event.block ∈ loop.body ∧ loop.InRange event.iteration := by
  have permuted := inScope.orders_permuted
  constructor
  · rw [pipelineTrace_eq_schedule permuted inScope.extent_nonneg regions]
    intro member
    have facts := (mem_schedule permuted).mp member
    exact ⟨facts.1, facts.2.1⟩
  · rintro ⟨inBody, inRange⟩
    have runsOnce : loop.RunsOnce analyzer := regions.runsOnce permuted inScope.extent_nonneg
    have once := runsOnce event.block inBody event.iteration
    rw [if_pos inRange] at once
    obtain ⟨found, foundIn, sameOrder, sameIteration⟩ :=
      occurrences_pos_iff.mp (Nat.lt_of_lt_of_eq Nat.one_pos once.symm)
    have foundInBody : found.block ∈ loop.body := by
      rw [pipelineTrace_eq_schedule permuted inScope.extent_nonneg regions] at foundIn
      exact ((mem_schedule permuted).mp foundIn).1
    have sameBlock := block_eq_of_order permuted foundInBody inBody sameOrder
    have same : found = event := by
      cases found
      cases event
      simp_all
    rwa [← same]

/-! ## The write of the own iteration -/

theorem exists_own_write (inScope : loop.InScope) (regions : loop.RegionsApart)
    {first second : List Event} {event : Event}
    (isTrace : loop.pipelineTrace analyzer = first ++ event :: second)
    {earlier later : List Access} {read : Access}
    (isAccesses : event.block.accesses = earlier ++ read :: later)
    (isRead : read.isWrite = false) (allocated : read.buffer ∈ loop.allocs) {cell : Nat}
    (readCell : cell ∈ read.cells event.iteration) :
    ∃ own : Touch,
      own.access ∈ own.event.block.accesses ∧ own.event.iteration = event.iteration ∧
        own.access.isWrite ∧ own.access.buffer = read.buffer ∧
        cell ∈ own.access.cells event.iteration ∧
        own ∈ first.flatMap Event.touches ++ earlier.map (fun access => ⟨event, access⟩) ∧
        (own.event = event ∨
          ∃ before after, loop.body = before ++ event.block :: after ∧
            own.event.block ∈ before) := by
  have eventIn : event ∈ loop.pipelineTrace analyzer := by simp [isTrace]
  obtain ⟨inBody, inRange⟩ := (mem_pipelineTrace inScope regions).mp eventIn
  obtain ⟨before, after, isBody⟩ := List.append_of_mem inBody
  obtain ⟨writer, accesses, position, write, writeIn, isWrite, sameBuffer, writeCell⟩ :=
    inScope.written_before_read before event.block after isBody earlier read later isAccesses
      isRead allocated event.iteration inRange cell readCell
  rcases position with ⟨rfl, rfl⟩ | ⟨writerIn, rfl⟩
  · refine ⟨⟨event, write⟩, ?_, rfl, isWrite, sameBuffer, writeCell, ?_, Or.inl rfl⟩
    · rw [isAccesses]
      exact List.mem_append_left _ writeIn
    · exact List.mem_append_right _ (List.mem_map_of_mem writeIn)
  · have writerInBody : writer ∈ loop.body := by
      rw [isBody]
      exact List.mem_append_left _ writerIn
    have writesBuffer : writer.writesBuffer read.buffer := by
      obtain ⟨region, isRegion, -⟩ :=
        (inScope.declares writer writerInBody).writes write writeIn isWrite
      rw [sameBuffer] at isRegion
      simp [Block.writesBuffer, isRegion]
    have readsBuffer : event.block.readsBuffer read.buffer := by
      obtain ⟨region, isRegion, -⟩ :=
        (inScope.declares event.block inBody).reads read (by simp [isAccesses]) isRead
      simp [Block.readsBuffer, isRegion]
    have dependency :=
      inScope.valid.dependencies before event.block after isBody writer writerIn read.buffer
        writesBuffer readsBuffer
    have runsBefore : (⟨writer, event.iteration⟩ : Event).Before event := by
      simp only [Event.Before, Event.position, DependencyKept] at *
      omega
    have ownIn : (⟨writer, event.iteration⟩ : Event) ∈ loop.pipelineTrace analyzer :=
      (mem_pipelineTrace inScope regions).mpr ⟨writerInBody, inRange⟩
    have sorted := @pipelineTrace_sorted loop analyzer inScope regions
    rw [isTrace] at ownIn sorted
    have inFirst : (⟨writer, event.iteration⟩ : Event) ∈ first := by
      rcases List.mem_append.mp ownIn with inFirst | inRest
      · exact inFirst
      · have afterEvent := (List.pairwise_cons.mp (List.pairwise_append.mp sorted).2.1).1
        rcases List.mem_cons.mp inRest with isEvent | inSecond
        · rw [isEvent] at runsBefore
          exact absurd runsBefore runsBefore.asymm
        · exact absurd (afterEvent _ inSecond) runsBefore.asymm
    refine ⟨⟨⟨writer, event.iteration⟩, write⟩, writeIn, rfl, isWrite, sameBuffer, writeCell, ?_,
      Or.inr ⟨before, after, isBody, writerIn⟩⟩
    apply List.mem_append_left
    apply List.mem_flatMap.mpr
    exact ⟨_, inFirst, mem_touches.mpr ⟨rfl, writeIn⟩⟩

/-! ## Main result -/

/-- Conditions under which every read finds the version of its own iteration. -/
structure VersionsKept (loop : PipelineLoop) (analyzer : Analyzer loop) : Prop where
  addressed : loop.AddressedAlike analyzer
  stayApart : loop.RegionsStayApart analyzer
  lateOutside : loop.LateWritesOutside analyzer

/-- A pipeline whose regions do not overlap and whose versions are kept lets every read find what
its own iteration wrote. -/
theorem readsOwnVersion (inScope : loop.InScope) (regions : loop.RegionsApart)
    (kept : loop.VersionsKept analyzer) : loop.ReadsOwnVersion analyzer := by
  intro before read after isTouches isRead allocated cell readCell
  have sorted := @pipelineTrace_sorted loop analyzer inScope regions
  obtain ⟨first, event, second, earlierTouches, laterTouches, isTrace, isEvent, isBefore⟩ :=
    flatMap_eq_append_cons isTouches
  obtain ⟨earlier, rest, isAccesses, isEarlier, isRest⟩ := List.map_eq_append_iff.mp isEvent
  obtain ⟨access, later, rfl, rfl, -⟩ := List.map_eq_cons_iff.mp isRest
  have eventIn : event ∈ loop.pipelineTrace analyzer := by simp [isTrace]
  obtain ⟨inBody, inRange⟩ := (mem_pipelineTrace inScope regions).mp eventIn
  obtain ⟨own, ownAccess, ownIteration, ownWrites, ownBuffer, ownCell, ownBefore, ownPlace⟩ :=
    exists_own_write inScope regions isTrace isAccesses isRead allocated readCell
  rw [isEarlier, ← isBefore] at ownBefore
  have touchFacts :
      ∀ touch ∈ before, touch.access ∈ touch.event.block.accesses ∧
        touch.event.block ∈ loop.body ∧ loop.InRange touch.event.iteration ∧
        (touch.event = event ∨ touch.event.Before event) := by
    intro touch member
    have inTouches : touch ∈ loop.touchTrace analyzer := by
      rw [isTouches]
      exact List.mem_append_left _ member
    obtain ⟨source, sourceIn, isSource⟩ := List.mem_flatMap.mp inTouches
    obtain ⟨rfl, accessIn⟩ := mem_touches.mp isSource
    have facts := (mem_pipelineTrace inScope regions).mp sourceIn
    have order := touches_sorted sorted
    rw [touchTrace] at isTouches
    rw [isTouches, List.pairwise_append] at order
    exact ⟨accessIn, facts.1, facts.2, order.2.2 touch member _ List.mem_cons_self⟩
  have ownFacts := touchFacts own ownBefore
  have ownMatches :
      loop.overwrites analyzer cell { event := event, access := access } own = true := by
    have sameVersion :=
      kept.addressed.same_version ownFacts.2.1 inBody ownAccess
        (show access ∈ event.block.accesses by simp [isAccesses]) ownBuffer event.iteration
    simp [overwrites, ownWrites, ownBuffer, ownIteration, sameVersion, ownCell]
  have found :
      (before.reverse.find?
        (loop.overwrites analyzer cell { event := event, access := access })).isSome := by
    rw [List.find?_isSome]
    exact ⟨own, List.mem_reverse.mpr ownBefore, ownMatches⟩
  obtain ⟨write, isWrite⟩ := Option.isSome_iff_exists.mp found
  refine ⟨write, isWrite, ?_⟩
  by_contra foreign
  obtain ⟨writeMatches, skipped, reached, isReversed, noneSkipped⟩ :=
    List.find?_eq_some_iff_append.mp isWrite
  have isSplit : before = reached.reverse ++ write :: skipped.reverse := by
    rw [← List.reverse_reverse before, isReversed]
    simp
  have writeBefore : write ∈ before := by simp [isSplit]
  obtain ⟨writeAccess, writeInBody, writeInRange, writeOrder⟩ := touchFacts write writeBefore
  have writeRunsBefore : write.event.Before event := by
    rcases writeOrder with isSame | runsBefore
    · exact absurd (by rw [isSame]) foreign
    · exact runsBefore
  -- The own write is not among the accesses after the write that was found.
  have ownReached : own ∈ reached.reverse := by
    rw [isSplit, List.mem_append, List.mem_cons] at ownBefore
    rcases ownBefore with inReached | isWriteItself | inSkipped
    · exact inReached
    · rw [isWriteItself] at ownIteration
      exact absurd ownIteration foreign
    · have notMatched := noneSkipped own (List.mem_reverse.mp inSkipped)
      simp [ownMatches] at notMatched
  have ownRunsBefore : own.event.Before write.event := by
    have order := touches_sorted sorted
    rw [touchTrace] at isTouches
    rw [isTouches, isSplit, List.append_assoc, List.pairwise_append] at order
    rcases order.2.2 own ownReached write (by simp) with isSame | runsBefore
    · rw [isSame] at ownIteration
      exact absurd ownIteration foreign
    · exact runsBefore
  simp only [overwrites, Bool.and_eq_true, beq_iff_eq, List.contains_iff_mem] at writeMatches
  obtain ⟨⟨⟨writeIsWrite, writeBuffer⟩, writeVersion⟩, writeCell⟩ := writeMatches
  rcases ownPlace with isEventItself | ⟨bodyBefore, bodyAfter, isBody, ownIn⟩
  · rw [isEventItself] at ownRunsBefore
    exact ownRunsBefore.asymm writeRunsBefore
  · obtain ⟨read, isReadRegion, readCovers⟩ :=
      (inScope.declares event.block inBody).reads access (by simp [isAccesses]) isRead
    obtain ⟨owned, isOwned, ownedCovers⟩ :=
      (inScope.declares own.event.block ownFacts.2.1).writes own.access ownAccess ownWrites
    obtain ⟨written, isWritten, writtenCovers⟩ :=
      (inScope.declares write.event.block writeInBody).writes write.access writeAccess writeIsWrite
    rw [ownBuffer] at isOwned
    rw [writeBuffer] at isWritten
    have stages : ∀ block ∈ loop.body, 0 ≤ block.stage := by
      rcases regions with ⟨-, empty⟩ | ⟨stages, -⟩
      · simp only [InRange] at inRange
        omega
      · exact stages
    have positive : 1 ≤ loop.computeBufferVersions analyzer access.buffer :=
      one_le_computeBufferVersions inScope.valid stages isBody ownIn
        (by simp [Block.writesBuffer, isOwned]) (by simp [Block.readsBuffer, isReadRegion])
    have divides :=
      kept.addressed.dvd_of_same_version writeInBody inBody writeAccess
        (show access ∈ event.block.accesses by simp [isAccesses]) writeBuffer allocated positive
        writeVersion
    have sameVersion :
        loop.computeBufferVersions analyzer access.buffer ∣
          event.iteration - write.event.iteration := by
      rw [← Int.neg_sub]
      exact Int.dvd_neg.mpr divides
    have afterOwner :
        (⟨own.event.block, event.iteration⟩ : Event).Before
          ⟨write.event.block, write.event.iteration⟩ := by
      rw [← ownIteration]
      exact ownRunsBefore
    exact foreign
      (iteration_eq_of_between inScope.valid stages kept.stayApart kept.lateOutside isBody
        allocated ownIn writeInBody isOwned isWritten isReadRegion
        (ownedCovers _ cell ownCell) (writtenCovers _ cell writeCell)
        (readCovers _ cell readCell) inRange writeInRange sameVersion afterOwner
        writeRunsBefore)

end PipelineLoop

/-! ## A copy loop -/

/-- The statement that stores to the buffer in the first stage. -/
def storeBlock : Block where
  stage := 0
  order := 0
  accesses := [{ buffer := "b", form := .direct, isWrite := true, cells := fun _ => [0] }]
  reads := []
  writes := [{ buffer := "b", cells := fun _ => [0] }]

/-- The statement that reads the buffer in the second stage. -/
def useBlock (form : AccessForm) : Block where
  stage := 1
  order := 1
  accesses := [{ buffer := "b", form := form, isWrite := false, cells := fun _ => [0] }]
  reads := [{ buffer := "b", cells := fun _ => [0] }]
  writes := []

/-- A loop over the iterations one and two that stores to a buffer and reads it one stage later. -/
def copyLoop (form : AccessForm) : PipelineLoop where
  loopMin := 1
  extent := 2
  allocs := ["b"]
  body := [storeBlock, useBlock form]

/-- An analyzer that proves nothing. -/
def modestAnalyzer (loop : PipelineLoop) : Analyzer loop where
  isUnitLoop _ _ := false
  isUnitLoop_sound := by simp
  provesOutside _ _ _ := false
  provesOutside_sound := by simp
  mayConflict _ _ := true
  mayConflict_sound := by simp

theorem copyLoop_split {form : AccessForm} {before after : List Block} {block : Block}
    (isBody : (copyLoop form).body = before ++ block :: after) :
    before = [] ∧ block = storeBlock ∧ after = [useBlock form] ∨
      before = [storeBlock] ∧ block = useBlock form ∧ after = [] := by
  simp only [copyLoop] at isBody
  cases before with
  | nil =>
    simp only [List.nil_append, List.cons.injEq] at isBody
    exact Or.inl ⟨rfl, isBody.1.symm, isBody.2.symm⟩
  | cons first rest =>
    cases rest with
    | nil =>
      simp only [List.cons_append, List.nil_append, List.cons.injEq] at isBody
      obtain ⟨rfl, rfl, rfl⟩ := isBody
      exact Or.inr ⟨rfl, rfl, rfl⟩
    | cons second others => simp at isBody

theorem copyLoop_inScope (form : AccessForm) : (copyLoop form).InScope where
  extent_nonneg := by simp [copyLoop]
  valid := by
    constructor
    · simp [copyLoop, storeBlock, useBlock]
    · intro before dst after isBody src srcIn buffer writes reads
      rcases copyLoop_split isBody with ⟨rfl, -, -⟩ | ⟨rfl, rfl, -⟩
      · cases srcIn
      · rw [List.mem_singleton.mp srcIn]
        simp [PipelineLoop.DependencyKept, storeBlock, useBlock]
  orders_permuted := List.Perm.refl [0, 1]
  declares := by
    intro block member
    simp only [copyLoop, List.mem_cons, List.not_mem_nil, or_false] at member
    rcases member with rfl | rfl
    · constructor <;> simp [storeBlock, Block.writeRegion]
    · constructor <;> simp [useBlock, Block.readRegion]
  written_before_read := by
    intro before block after isBody earlier read later isAccesses isRead _ iteration _ cell readCell
    rcases copyLoop_split isBody with ⟨-, rfl, -⟩ | ⟨rfl, rfl, -⟩
    · cases earlier <;> simp [storeBlock] at isAccesses
      rw [← isAccesses.1] at isRead
      cases isRead
    · cases earlier <;> simp [useBlock] at isAccesses
      obtain ⟨rfl, -⟩ := isAccesses
      refine ⟨storeBlock, storeBlock.accesses, Or.inr ⟨by simp, rfl⟩, _, List.mem_singleton_self _,
        rfl, rfl, readCell⟩

end TilelangAscend.SoftwarePipeline
