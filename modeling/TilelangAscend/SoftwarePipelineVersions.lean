import TilelangAscend.SoftwarePipelineSchedule

namespace TilelangAscend.SoftwarePipeline

/-!
# Versions of pipelined buffers

A buffer gets one version more than the distance between the stage that first defines it and the
stage that last uses it, or exactly that distance when no reader follows a writer both in order
and in stage.  This module shows that these versions keep the writes of other iterations away from
every read, and states the three properties of a loop that this rests on.
-/

namespace PipelineLoop

variable {loop : PipelineLoop} {analyzer : Analyzer loop}

/-! ## Conditions -/

/-- All accesses to a buffer with several versions pick the version in the same way, and none is an
opaque call. -/
def AddressedAlike (loop : PipelineLoop) (analyzer : Analyzer loop) : Prop :=
  ∀ buffer ∈ loop.allocs, 1 < loop.computeBufferVersions analyzer buffer →
    (∀ block ∈ loop.body, ∀ access ∈ block.accesses, access.buffer = buffer →
      access.form ≠ .opaqueCall) ∧
      ((loop.loopMin % loop.computeBufferVersions analyzer buffer = 0) ∨
        (∀ block ∈ loop.body, ∀ access ∈ block.accesses, access.buffer = buffer →
          access.form = .direct) ∨
        ∀ block ∈ loop.body, ∀ access ∈ block.accesses, access.buffer = buffer →
          access.form = .accessPtr)

/-- Regions that the analyzer separates within one iteration stay apart across iterations. -/
def RegionsStayApart (loop : PipelineLoop) (analyzer : Analyzer loop) : Prop :=
  ∀ buffer ∈ loop.allocs, ∀ writer ∈ loop.body, ∀ reader ∈ loop.body, ∀ written read,
    writer.writeRegion buffer = some written → reader.readRegion buffer = some read →
      analyzer.mayConflict written read = false →
        ∀ first second, loop.InRange first → loop.InRange second →
          ∀ cell ∈ written.cells first, cell ∉ read.cells second

/-- A statement that writes a buffer after it was read does not slip, in an earlier iteration of
the same version, between a write and the read that follows it. -/
def LateWritesOutside (loop : PipelineLoop) (analyzer : Analyzer loop) : Prop :=
  ∀ before reader after, loop.body = before ++ reader :: after →
    ∀ buffer ∈ loop.allocs, ∀ writer ∈ before, writer.writesBuffer buffer →
      ∀ late ∈ after, ∀ written read,
        late.writeRegion buffer = some written → reader.readRegion buffer = some read →
          ∀ iteration earlier, loop.InRange iteration → loop.InRange earlier →
            earlier < iteration →
              loop.computeBufferVersions analyzer buffer ∣ iteration - earlier →
                ∀ cell ∈ written.cells earlier, cell ∈ read.cells iteration →
                  ¬ ((⟨writer, iteration⟩ : Event).Before ⟨late, earlier⟩ ∧
                    (⟨late, earlier⟩ : Event).Before ⟨reader, iteration⟩)

/-! ## Stages of definition and use -/

theorem foldl_updateAccessInfo (buffer : String) (blocks : List Block)
    (stages : ∀ block ∈ blocks, 0 ≤ block.stage) (info : BufferAccessInfo)
    (start : -1 ≤ info.defStage) :
    -1 ≤ (blocks.foldl (updateAccessInfo buffer) info).defStage ∧
      info.useStage ≤ (blocks.foldl (updateAccessInfo buffer) info).useStage ∧
      (0 ≤ info.defStage →
        0 ≤ (blocks.foldl (updateAccessInfo buffer) info).defStage ∧
          (blocks.foldl (updateAccessInfo buffer) info).defStage ≤ info.defStage) ∧
      (∀ block ∈ blocks, block.writesBuffer buffer →
        0 ≤ (blocks.foldl (updateAccessInfo buffer) info).defStage ∧
          (blocks.foldl (updateAccessInfo buffer) info).defStage ≤ block.stage) ∧
      ∀ block ∈ blocks, block.readsBuffer buffer →
        block.stage ≤ (blocks.foldl (updateAccessInfo buffer) info).useStage := by
  induction blocks generalizing info with
  | nil => simp [start]
  | cons first rest ih =>
    have firstStage := stages first List.mem_cons_self
    have restStages : ∀ block ∈ rest, 0 ≤ block.stage := by
      intro block member
      exact stages block (List.mem_cons_of_mem _ member)
    have nextDef :
        -1 ≤ (updateAccessInfo buffer info first).defStage ∧
          (0 ≤ info.defStage →
            0 ≤ (updateAccessInfo buffer info first).defStage ∧
              (updateAccessInfo buffer info first).defStage ≤ info.defStage) ∧
          (first.writesBuffer buffer →
            0 ≤ (updateAccessInfo buffer info first).defStage ∧
              (updateAccessInfo buffer info first).defStage ≤ first.stage) := by
      simp only [updateAccessInfo]
      split_ifs <;> simp_all <;> omega
    have nextUse :
        info.useStage ≤ (updateAccessInfo buffer info first).useStage ∧
          (first.readsBuffer buffer →
            first.stage ≤ (updateAccessInfo buffer info first).useStage) := by
      simp only [updateAccessInfo]
      split_ifs <;> simp_all
    obtain ⟨lower, useUp, defDown, writers, readers⟩ :=
      ih restStages (updateAccessInfo buffer info first) nextDef.1
    rw [List.foldl_cons]
    refine ⟨lower, nextUse.1.trans useUp, ?_, ?_, ?_⟩
    · intro defined
      have stepped := nextDef.2.1 defined
      have later := defDown stepped.1
      exact ⟨later.1, later.2.trans stepped.2⟩
    · intro block member writes
      rcases List.mem_cons.mp member with isFirst | inRest
      · subst isFirst
        have stepped := nextDef.2.2 writes
        have later := defDown stepped.1
        exact ⟨later.1, later.2.trans stepped.2⟩
      · exact writers block inRest writes
    · intro block member reads
      rcases List.mem_cons.mp member with isFirst | inRest
      · subst isFirst
        exact (nextUse.2 reads).trans useUp
      · exact readers block inRest reads

variable {buffer : String} {writer reader first second : Block} {written read : BufferRegion}
  {before after : List Block} {firstAccess secondAccess : Access} {iteration other : Int}

theorem defStage_le (stages : ∀ block ∈ loop.body, 0 ≤ block.stage)
    (member : writer ∈ loop.body) (writes : writer.writesBuffer buffer) :
    0 ≤ (loop.bufferAccessInfo buffer).defStage ∧
      (loop.bufferAccessInfo buffer).defStage ≤ writer.stage :=
  (foldl_updateAccessInfo buffer loop.body stages _ (Int.le_refl _)).2.2.2.1 writer member writes

theorem le_useStage (stages : ∀ block ∈ loop.body, 0 ≤ block.stage)
    (member : reader ∈ loop.body) (reads : reader.readsBuffer buffer) :
    reader.stage ≤ (loop.bufferAccessInfo buffer).useStage :=
  (foldl_updateAccessInfo buffer loop.body stages _ (Int.le_refl _)).2.2.2.2 reader member reads

/-- A reader after a writer in order and in stage asks for all versions, unless their regions are
apart. -/
theorem needMultiVersion_of_pair (writerIn : writer ∈ loop.body)
    (readerIn : reader ∈ loop.body) (isWritten : writer.writeRegion buffer = some written)
    (isRead : reader.readRegion buffer = some read) (order : writer.order < reader.order)
    (stage : writer.stage < reader.stage) (conflict : analyzer.mayConflict written read) :
    loop.needMultiVersion analyzer buffer := by
  rw [needMultiVersion, List.any_eq_true]
  refine ⟨writer, writerIn, ?_⟩
  rw [List.any_eq_true]
  refine ⟨reader, readerIn, ?_⟩
  simp [conflictingPair, isWritten, isRead, order, stage, conflict]

/-- The versions of a buffer that is defined: the whole distance of its stages and one more, or one
less when no pair of statements asks for all of them. -/
theorem computeBufferVersions_cases {buffer : String}
    (defined : 0 ≤ (loop.bufferAccessInfo buffer).defStage) :
    loop.computeBufferVersions analyzer buffer =
        (loop.bufferAccessInfo buffer).useStage - (loop.bufferAccessInfo buffer).defStage + 1 ∨
      (loop.computeBufferVersions analyzer buffer =
          (loop.bufferAccessInfo buffer).useStage - (loop.bufferAccessInfo buffer).defStage ∧
        1 ≤ loop.computeBufferVersions analyzer buffer ∧
        loop.needMultiVersion analyzer buffer = false) := by
  have notUndefined : (loop.bufferAccessInfo buffer).defStage ≠ -1 := by omega
  simp only [computeBufferVersions, notUndefined, ↓reduceIte]
  by_cases reduced :
      (decide (2 ≤ (loop.bufferAccessInfo buffer).useStage -
          (loop.bufferAccessInfo buffer).defStage + 1) &&
        !loop.needMultiVersion analyzer buffer) = true
  · rw [if_pos reduced]
    simp only [Bool.and_eq_true, decide_eq_true_eq, Bool.not_eq_true'] at reduced
    right
    exact ⟨by omega, by omega, reduced.2⟩
  · rw [if_neg reduced]
    exact Or.inl rfl

theorem one_le_computeBufferVersions (valid : loop.ValidatePipelineBody)
    (stages : ∀ block ∈ loop.body, 0 ≤ block.stage)
    (isBody : loop.body = before ++ reader :: after) (writerIn : writer ∈ before)
    (writes : writer.writesBuffer buffer) (reads : reader.readsBuffer buffer) :
    1 ≤ loop.computeBufferVersions analyzer buffer := by
  have writerInBody : writer ∈ loop.body := by
    rw [isBody]
    exact List.mem_append_left _ writerIn
  have readerIn : reader ∈ loop.body := by simp [isBody]
  have definition := defStage_le stages writerInBody writes
  have use := le_useStage stages readerIn reads
  have dependency :=
    (valid.dependencies before reader after isBody writer writerIn buffer writes reads).1
  rcases @computeBufferVersions_cases loop analyzer buffer definition.1 with
    whole | ⟨-, positive, -⟩
  · omega
  · exact positive

/-! ## Versions of accesses -/

theorem AddressedAlike.version_eq (alike : loop.AddressedAlike analyzer)
    (allocated : buffer ∈ loop.allocs) (several : 1 < loop.computeBufferVersions analyzer buffer) :
    ∃ shift, ∀ block ∈ loop.body, ∀ access ∈ block.accesses, access.buffer = buffer →
      ∀ iteration,
        loop.version analyzer access iteration =
          (iteration - shift) % loop.computeBufferVersions analyzer buffer := by
  obtain ⟨notOpaque, aligned | direct | pointer⟩ := alike buffer allocated several
  · refine ⟨0, ?_⟩
    intro block blockIn access accessIn isBuffer iteration
    have sameVersion :
        (iteration - loop.loopMin) % loop.computeBufferVersions analyzer buffer =
          iteration % loop.computeBufferVersions analyzer buffer := by
      rw [Int.sub_emod, aligned, Int.sub_zero, Int.emod_emod]
    have form := notOpaque block blockIn access accessIn isBuffer
    cases isForm : access.form with
    | direct => simp [version, isBuffer, allocated, several, isForm, sameVersion]
    | accessPtr => simp [version, isBuffer, allocated, several, isForm]
    | opaqueCall => exact absurd isForm form
  · refine ⟨loop.loopMin, ?_⟩
    intro block blockIn access accessIn isBuffer iteration
    simp [version, isBuffer, allocated, several, direct block blockIn access accessIn isBuffer]
  · refine ⟨0, ?_⟩
    intro block blockIn access accessIn isBuffer iteration
    simp [version, isBuffer, allocated, several, pointer block blockIn access accessIn isBuffer]

theorem AddressedAlike.same_version (alike : loop.AddressedAlike analyzer)
    (firstIn : first ∈ loop.body) (secondIn : second ∈ loop.body)
    (firstAccessIn : firstAccess ∈ first.accesses)
    (secondAccessIn : secondAccess ∈ second.accesses)
    (sameBuffer : firstAccess.buffer = secondAccess.buffer) (iteration : Int) :
    loop.version analyzer firstAccess iteration = loop.version analyzer secondAccess iteration := by
  by_cases remapped :
      secondAccess.buffer ∈ loop.allocs ∧
        1 < loop.computeBufferVersions analyzer secondAccess.buffer
  · obtain ⟨shift, isVersion⟩ := alike.version_eq remapped.1 remapped.2
    rw [isVersion first firstIn firstAccess firstAccessIn sameBuffer,
      isVersion second secondIn secondAccess secondAccessIn rfl]
  · simp only [version, sameBuffer, remapped, ↓reduceIte]

theorem AddressedAlike.dvd_of_same_version (alike : loop.AddressedAlike analyzer)
    (firstIn : first ∈ loop.body) (secondIn : second ∈ loop.body)
    (firstAccessIn : firstAccess ∈ first.accesses)
    (secondAccessIn : secondAccess ∈ second.accesses)
    (sameBuffer : firstAccess.buffer = secondAccess.buffer)
    (allocated : secondAccess.buffer ∈ loop.allocs)
    (positive : 1 ≤ loop.computeBufferVersions analyzer secondAccess.buffer)
    (same :
      loop.version analyzer firstAccess iteration = loop.version analyzer secondAccess other) :
    loop.computeBufferVersions analyzer secondAccess.buffer ∣ iteration - other := by
  by_cases several : 1 < loop.computeBufferVersions analyzer secondAccess.buffer
  · obtain ⟨shift, isVersion⟩ := alike.version_eq allocated several
    rw [isVersion first firstIn firstAccess firstAccessIn sameBuffer,
      isVersion second secondIn secondAccess secondAccessIn rfl] at same
    have difference := Int.emod_eq_emod_iff_emod_sub_eq_zero.mp same
    have divided := Int.dvd_of_emod_eq_zero difference
    have shifted : iteration - shift - (other - shift) = iteration - other := by omega
    rwa [shifted] at divided
  · have one : loop.computeBufferVersions analyzer secondAccess.buffer = 1 := by omega
    rw [one]
    exact Int.one_dvd _

/-! ## No foreign write before a read -/

/-- A write of a buffer that lies, in the pipeline, between a write of an iteration and the read
that depends on it, to the same version and cell, is of the same iteration. -/
theorem iteration_eq_of_between (valid : loop.ValidatePipelineBody)
    (stages : ∀ block ∈ loop.body, 0 ≤ block.stage) (apart : loop.RegionsStayApart analyzer)
    (lateOutside : loop.LateWritesOutside analyzer) {owner : Block}
    (isBody : loop.body = before ++ reader :: after) (allocated : buffer ∈ loop.allocs)
    (ownerIn : owner ∈ before) (writerIn : writer ∈ loop.body) {owned : BufferRegion}
    (isOwned : owner.writeRegion buffer = some owned)
    (isWritten : writer.writeRegion buffer = some written)
    (isRead : reader.readRegion buffer = some read) {cell : Nat}
    (ownedCell : cell ∈ owned.cells iteration) (writtenCell : cell ∈ written.cells other)
    (readCell : cell ∈ read.cells iteration) (iterationIn : loop.InRange iteration)
    (otherIn : loop.InRange other)
    (sameVersion : loop.computeBufferVersions analyzer buffer ∣ iteration - other)
    (afterOwner : (⟨owner, iteration⟩ : Event).Before ⟨writer, other⟩)
    (beforeReader : (⟨writer, other⟩ : Event).Before ⟨reader, iteration⟩) : other = iteration := by
  have ownerInBody : owner ∈ loop.body := by
    rw [isBody]
    exact List.mem_append_left _ ownerIn
  have readerIn : reader ∈ loop.body := by simp [isBody]
  have ownerWrites : owner.writesBuffer buffer := by simp [Block.writesBuffer, isOwned]
  have writerWrites : writer.writesBuffer buffer := by simp [Block.writesBuffer, isWritten]
  have readerReads : reader.readsBuffer buffer := by simp [Block.readsBuffer, isRead]
  obtain ⟨defined, ownerStage⟩ := defStage_le stages ownerInBody ownerWrites
  have writerStage := (defStage_le stages writerIn writerWrites).2
  have readerStage := le_useStage stages readerIn readerReads
  have ownerDependency :=
    valid.dependencies before reader after isBody owner ownerIn buffer ownerWrites readerReads
  have ownerConflict : analyzer.mayConflict owned read := by
    by_contra separate
    have separated : analyzer.mayConflict owned read = false := by simpa using separate
    exact analyzer.mayConflict_sound owned read separated iteration cell ownedCell readCell
  have beforeReader' := beforeReader
  have afterOwner' := afterOwner
  simp only [Event.Before, Event.position] at beforeReader' afterOwner'
  have versions := @computeBufferVersions_cases loop analyzer buffer defined
  rcases lt_trichotomy iteration other with later | same | earlier
  · -- A later iteration: it would overtake by all the stages from the definition to the use.
    have distance : loop.computeBufferVersions analyzer buffer ≤ other - iteration := by
      apply Int.le_of_dvd (by omega)
      rw [← Int.neg_sub]
      exact Int.dvd_neg.mpr sameVersion
    rcases versions with whole | ⟨reduced, positive, notNeeded⟩
    · omega
    · have separated : analyzer.mayConflict written read = false := by
        by_contra conflict
        have needed :=
          needMultiVersion_of_pair writerIn readerIn isWritten isRead (by omega) (by omega)
            (by simpa using conflict)
        rw [notNeeded] at needed
        cases needed
      exact absurd readCell
        (apart buffer allocated writer writerIn reader readerIn written read isWritten isRead
          separated other iteration otherIn iterationIn cell writtenCell)
  · exact same.symm
  · have distance : loop.computeBufferVersions analyzer buffer ≤ iteration - other :=
      Int.le_of_dvd (by omega) sameVersion
    have position := writerIn
    rw [isBody, List.mem_append, List.mem_cons] at position
    -- A writer up to the reader would need the owner and the reader to be a full distance apart,
    -- and then their pair asks for all versions.
    have upToReader :
        writer.stage ≤ reader.stage →
          (writer.stage = reader.stage → writer.order ≤ reader.order) → False := by
      intro stageLe orderLe
      rcases versions with whole | ⟨reduced, positive, notNeeded⟩
      · omega
      · have needed :=
          needMultiVersion_of_pair ownerInBody readerIn isOwned isRead (by omega) (by omega)
            ownerConflict
        rw [notNeeded] at needed
        cases needed
    rcases position with beforeIn | isReader | afterIn
    · have dependency :=
        valid.dependencies before reader after isBody writer beforeIn buffer writerWrites
          readerReads
      exact (upToReader dependency.1 fun sameStage => Nat.le_of_lt (dependency.2 sameStage)).elim
    · subst isReader
      exact (upToReader (Int.le_refl _) fun _ => Nat.le_refl _).elim
    · exact absurd ⟨afterOwner, beforeReader⟩
        (lateOutside before reader after isBody buffer allocated owner ownerIn ownerWrites writer
          afterIn written read isWritten isRead iteration other iterationIn otherIn earlier
          sameVersion cell writtenCell readCell)

end PipelineLoop

end TilelangAscend.SoftwarePipeline
