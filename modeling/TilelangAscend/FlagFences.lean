import TilelangAscend.Credits
import TilelangAscend.MemorySync

namespace TilelangAscend.Simulator

open ListHistory
open FlagBarrierModel

/-!
# Local flag fences against the schedule

The validator pairs a wait with the latest set of the same pipes and flag id between
producer and consumer; the scheduler hands it the credit that FIFO order selects over the
whole program.  `Reached` describes the pipes that the validator's pairs connect with the
producer.  Where every such pair is also consistent with FIFO order, a reached pipe runs
its later tasks after the producer.
-/

/-- Local sets and waits sit on the pipes that the bridge gives them. -/
structure LocalFlagPlacement (program : KernelProgram) : Prop where
  sets :
    ∀ task ∈ program.tasks,
      task.operation = .setFlag → task.metadata.srcPipe = some (.pipe task.pipe)
  waits :
    ∀ task ∈ program.tasks,
      task.operation = .waitFlag → task.metadata.dstPipe = some (.pipe task.pipe)

/-! ## Operands of accepted flags -/

variable {α : Type} {check : α → Except SimError Unit} {items : List α} {task : Task}
  {model : FlagBarrierModel} {coreId : Nat} {lane : Lane} {src dst : PipeName} {flagId : Int}
  {start : Pipe} {scanned : List Task}

theorem forM_ok (passed : items.forM check = .ok ()) {item : α} (member : item ∈ items) :
    check item = .ok () := by
  induction items with
  | nil => simp at member
  | cons first rest ih =>
    simp only [List.forM] at passed
    cases checked : check first with
    | error failure => simp [checked, bind, Except.bind] at passed
    | ok _ =>
      simp only [checked, bind, Except.bind] at passed
      rcases List.mem_cons.mp member with isFirst | inRest
      · rw [isFirst, checked]
      · exact ih passed inRest

theorem forM_of_ok (passes : ∀ item ∈ items, check item = .ok ()) : items.forM check = .ok () := by
  induction items with
  | nil => rfl
  | cons first rest ih =>
    simp only [List.forM, passes first List.mem_cons_self, bind, Except.bind]
    exact ih fun item member => passes item (List.mem_cons_of_mem _ member)

theorem AcceptedModel.task_validated {syncConfig : SyncConfig} {program : KernelProgram}
    (accepted : AcceptedModel syncConfig program model) (isTask : task ∈ program.tasks) :
    validateSyncTask task = .ok () := by
  have validated := accepted.validated
  unfold validateProgram at validated
  cases checked : program.tasks.forM validateSyncTask with
  | error failure => simp [checked, bind, Except.bind] at validated
  | ok _ => exact forM_ok checked isTask

theorem localFlag_operands (validated : validateSyncTask task = .ok ())
    (isFlag : isLocalFlagEvent task = true) :
    ∃ src dst flagId,
      task.metadata.srcPipe = some (.pipe src) ∧ task.metadata.dstPipe = some (.pipe dst) ∧
        task.metadata.flagId = .value flagId ∧
        localFlagKey task =
          .ok (.localFlag task.coreId task.lane (.pipe src) (.pipe dst) flagId) := by
  have checks :
      (do
        validateLocalFlagId task
        let src ← sourcePipeOf task
        let dst ← destinationPipeOf task
        validateLanePipe task src
        validateLanePipe task dst) = Except.ok () := by
    unfold isLocalFlagEvent at isFlag
    unfold validateSyncTask at validated
    split at isFlag
    all_goals simp_all
  cases identified : validateLocalFlagId task with
  | error failure => simp [identified, bind, Except.bind] at checks
  | ok _ =>
    cases sourced : sourcePipeOf task with
    | error failure => simp [identified, sourced, bind, Except.bind] at checks
    | ok src =>
      cases targeted : destinationPipeOf task with
      | error failure => simp [identified, sourced, targeted, bind, Except.bind] at checks
      | ok dst =>
        have srcIs : task.metadata.srcPipe = some (.pipe src) := by
          unfold sourcePipeOf at sourced
          split at sourced <;> simp_all [reject]
        have dstIs : task.metadata.dstPipe = some (.pipe dst) := by
          unfold destinationPipeOf at targeted
          split at targeted <;> simp_all [reject]
        unfold validateLocalFlagId at identified
        split at identified
        · rename_i flagId flagged
          split at identified
          · rename_i inRange
            refine ⟨src, dst, flagId, srcIs, dstIs, flagged, ?_⟩
            simp [localFlagKey, flagIdOf, flagged, inRange.1, srcIs, dstIs]
          · cases identified
        · cases identified

theorem localFlagKey_eq {first second : Task} (sameLane : first.participant = second.participant)
    (sameSignature : flagSignature first = flagSignature second)
    (firstValidated : validateSyncTask first = .ok ())
    (secondValidated : validateSyncTask second = .ok ())
    (firstIsFlag : isLocalFlagEvent first = true) (secondIsFlag : isLocalFlagEvent second = true) :
    localFlagKey first = localFlagKey second := by
  obtain ⟨src, dst, flagId, srcIs, dstIs, flagged, firstKey⟩ :=
    localFlag_operands firstValidated firstIsFlag
  obtain ⟨otherSrc, otherDst, otherId, otherSrcIs, otherDstIs, otherFlagged, secondKey⟩ :=
    localFlag_operands secondValidated secondIsFlag
  have coreSame : first.coreId = second.coreId := congrArg Participant.coreId sameLane
  have laneSame : first.lane = second.lane := congrArg Participant.lane sameLane
  simp only [flagSignature, FlagSignature.mk.injEq, srcIs, otherSrcIs, dstIs, otherDstIs,
    flagged, otherFlagged, Option.some.injEq, PipeName.pipe.injEq, MetadataInt.value.injEq]
    at sameSignature
  obtain ⟨srcSame, dstSame, idSame⟩ := sameSignature
  rw [firstKey, secondKey, coreSame, laneSame, srcSame, dstSame, idSame]

theorem localSet_of_feeds (fed : feeds (.localFlag coreId lane src dst flagId) task = true) :
    task.operation = .setFlag ∧
      localFlagKey task = .ok (.localFlag coreId lane src dst flagId) := by
  replace fed : FlagKey.localFlag coreId lane src dst flagId ∈ setKeys task := by
    simpa [feeds] using fed
  unfold setKeys at fed
  split at fed
  · rename_i isSet
    refine ⟨isSet, ?_⟩
    cases keyed : localFlagKey task with
    | error failure => simp [keyed, Except.toOption] at fed
    | ok key =>
      simp only [keyed, Except.toOption, Option.toList_some, List.mem_singleton] at fed
      rw [fed]
  · split at fed
    · rename_i keys keyed
      unfold crossSetKeysMode2 at keyed
      split at keyed
      all_goals cases keyed
      all_goals simp [Lane.vectorLanes] at fed
    · simp at fed
  · simp at fed

theorem localWait_of_drains
    (drained : model.drainsQueue (.localFlag coreId lane src dst flagId) task = true) :
    task.operation = .waitFlag ∧
      localFlagKey task = .ok (.localFlag coreId lane src dst flagId) := by
  replace drained : FlagKey.localFlag coreId lane src dst flagId ∈ model.waitKeys task := by
    simpa [drainsQueue] using drained
  unfold waitKeys at drained
  split at drained
  · rename_i isWaitFlag
    refine ⟨isWaitFlag, ?_⟩
    cases keyed : localFlagKey task with
    | error failure => simp [keyed, Except.toOption] at drained
    | ok key =>
      simp only [keyed, Except.toOption, Option.toList_some, List.mem_singleton] at drained
      rw [drained]
  · unfold auditedCrossKeys at drained
    split at drained
    · rename_i keys _ _ keyed
      unfold crossWaitKeysMode2 at keyed
      split at keyed
      all_goals cases keyed
      all_goals simp [Lane.vectorLanes] at drained
    · simp at drained

theorem localFlagKey_ok (keyed : localFlagKey task = .ok (.localFlag coreId lane src dst flagId)) :
    task.coreId = coreId ∧ task.lane = lane ∧
      task.metadata.srcPipe = some src ∧
      task.metadata.dstPipe = some dst := by
  unfold localFlagKey at keyed
  split at keyed
  all_goals simp_all [reject]

/-! ## FIFO pairing -/

section Pairing

variable {syncConfig : SyncConfig} {config : SimulatorConfig} {program : KernelProgram}
  {log : List Task} {state : RunState FlagBarrierModel} {coreId : Nat} {lane : Lane}
  {src dst : PipeName} {flagId : Int}

theorem LocalFlagPlacement.feeds_resource (placement : LocalFlagPlacement program)
    {set : Task} (setIsTask : set ∈ program.tasks)
    (setFeeds : feeds (.localFlag coreId lane src dst flagId) set = true) :
    ∀ task ∈ program.tasks, feeds (.localFlag coreId lane src dst flagId) task = true →
      task.resource = set.resource := by
  intro task isTask fed
  obtain ⟨isSet, keyed⟩ := localSet_of_feeds fed
  obtain ⟨setIsSet, setKeyed⟩ := localSet_of_feeds setFeeds
  obtain ⟨coreIs, laneIs, srcIs, _⟩ := localFlagKey_ok keyed
  obtain ⟨setCoreIs, setLaneIs, setSrcIs, _⟩ := localFlagKey_ok setKeyed
  have onPipe := placement.sets task isTask isSet
  have setOnPipe := placement.sets set setIsTask setIsSet
  rw [srcIs] at onPipe
  rw [setSrcIs, onPipe] at setOnPipe
  simp only [Option.some.injEq, PipeName.pipe.injEq] at setOnPipe
  simp [Task.resource, coreIs, laneIs, setCoreIs, setLaneIs, setOnPipe]

theorem LocalFlagPlacement.drains_resource (placement : LocalFlagPlacement program)
    {model : FlagBarrierModel} {wait : Task} (waitIsTask : wait ∈ program.tasks)
    (waitDrains : model.drainsQueue (.localFlag coreId lane src dst flagId) wait = true) :
    ∀ task ∈ program.tasks, model.drainsQueue (.localFlag coreId lane src dst flagId) task = true →
      task.resource = wait.resource := by
  intro task isTask drained
  obtain ⟨isWaitFlag, keyed⟩ := localWait_of_drains drained
  obtain ⟨waitIsWait, waitKeyed⟩ := localWait_of_drains waitDrains
  obtain ⟨coreIs, laneIs, _, dstIs⟩ := localFlagKey_ok keyed
  obtain ⟨waitCoreIs, waitLaneIs, _, waitDstIs⟩ := localFlagKey_ok waitKeyed
  have onPipe := placement.waits task isTask isWaitFlag
  have waitOnPipe := placement.waits wait waitIsTask waitIsWait
  rw [dstIs] at onPipe
  rw [waitDstIs, onPipe] at waitOnPipe
  simp only [Option.some.injEq, PipeName.pipe.injEq] at waitOnPipe
  simp [Task.resource, coreIs, laneIs, waitCoreIs, waitLaneIs, waitOnPipe]

theorem Fires.head_origin
    (fired : Fires (flagBarrierSynchronizationModel syncConfig) config program log state)
    {key : FlagKey} {credit : Credit} {rest : List Credit}
    (queue : state.sync.state.tokens key = credit :: rest) :
    ∃ origin record,
      (log.filter (feeds key))[log.countP (state.sync.drainsQueue key)]? = some origin ∧
        state.completed origin.taskId = some record ∧
        credit.cycle = record.endCycle := by
  obtain ⟨shape, _⟩ := fired.tokens_eq key
  rw [queue] at shape
  have first := congrArg List.head? shape
  rw [List.head?_cons, List.head?_drop, List.getElem?_map] at first
  obtain ⟨origin, isOrigin, creditIs⟩ := Option.map_eq_some_iff.mp first.symm
  have inLog : origin ∈ log := List.mem_of_mem_filter (List.mem_of_getElem? isOrigin)
  obtain ⟨record, done⟩ := (fired.completed_iff origin.taskId).mpr ⟨origin, inLog, rfl⟩
  refine ⟨origin, record, isOrigin, done, ?_⟩
  rw [← creditIs]
  simp [creditOf, done]

/--
A wait that no rendezvous releases starts after a set of its queue, when at least as many
waits of the queue precede the wait as sets precede the set.
-/
theorem Fires.set_endsBefore_wait
    (fired : Fires (flagBarrierSynchronizationModel syncConfig) config program log state)
    (placement : LocalFlagPlacement program)
    {beforeSet afterSet beforeWait afterWait : List Task} {set wait : Task}
    (setShape : program.tasks = beforeSet ++ set :: afterSet)
    (waitShape : program.tasks = beforeWait ++ wait :: afterWait)
    (setFeeds : feeds (.localFlag coreId lane src dst flagId) set = true)
    (waitDrains : state.sync.drainsQueue (.localFlag coreId lane src dst flagId) wait = true)
    (unreleased : ∀ other ∈ beforeWait, isSyncAllOn wait.participant other = false)
    (counts :
      beforeSet.countP (feeds (.localFlag coreId lane src dst flagId)) ≤
        beforeWait.countP (state.sync.drainsQueue (.localFlag coreId lane src dst flagId))) :
    EndsBefore state.completed set.taskId wait.taskId := by
  have setIsTask : set ∈ program.tasks := by
    rw [setShape]
    simp
  have waitIsTask : wait ∈ program.tasks := by
    rw [waitShape]
    simp
  have onSetResource := placement.feeds_resource setIsTask setFeeds
  have onWaitResource := placement.drains_resource waitIsTask waitDrains
  refine fired.endsBefore_of_step waitIsTask ?_
  intro earlierLog earlierState next reached step
  have sameDrains : earlierState.sync.drainsQueue = state.sync.drainsQueue :=
    reached.accepted.drainsQueue_eq fired.accepted
  have waits : isWait wait = true := by
    simp [isWait, (localWait_of_drains waitDrains).1]
  have waited :
      FlagKey.localFlag coreId lane src dst flagId ∈ earlierState.sync.waitKeys wait := by
    rw [← sameDrains] at waitDrains
    simpa [drainsQueue] using waitDrains
  obtain ⟨credit, rest, queue, bounded⟩ :=
    reached.wait_credits waitShape unreleased waits step _ waited
  obtain ⟨origin, record, isOrigin, done, ends⟩ := reached.head_origin queue
  have consumed :
      earlierLog.countP
          (earlierState.sync.drainsQueue (.localFlag coreId lane src dst flagId)) =
        beforeWait.countP (state.sync.drainsQueue (.localFlag coreId lane src dst flagId)) := by
    rw [sameDrains, List.countP_eq_length_filter, List.countP_eq_length_filter,
      reached.class_log waitShape step.queueHead onWaitResource]
  have inProgram :
      (program.tasks.filter (feeds (.localFlag coreId lane src dst flagId)))[
        beforeWait.countP (state.sync.drainsQueue (.localFlag coreId lane src dst flagId))]? =
        some origin := by
    rw [consumed] at isOrigin
    obtain ⟨later, laterShape⟩ := reached.class_prefix onSetResource
    rw [← laterShape]
    exact List.getElem?_append_left (List.getElem?_eq_some_iff.mp isOrigin).1 ▸ isOrigin
  have atOrLater : origin = set ∨ origin ∈ afterSet := by
    rw [setShape, List.filter_append, List.filter_cons_of_pos setFeeds,
      List.getElem?_append_right
        (by rw [← List.countP_eq_length_filter]; exact counts)] at inProgram
    rcases List.mem_cons.mp (List.mem_of_getElem? inProgram) with isSet | inLater
    · exact Or.inl isSet
    · exact Or.inr (List.mem_of_mem_filter inLater)
  rcases atOrLater with isSet | inAfter
  · subst isSet
    exact ⟨record, done, by omega⟩
  · obtain ⟨between, rest, afterShape⟩ := List.mem_iff_append.mp inAfter
    have originShape :
        program.tasks = (beforeSet ++ set :: between) ++ origin :: rest := by
      rw [setShape, afterShape]
      simp
    have originFeeds : feeds (.localFlag coreId lane src dst flagId) origin = true :=
      (List.mem_filter.mp (List.mem_of_getElem? isOrigin)).2
    have sameResource : set.resource = origin.resource :=
      (onSetResource origin (by rw [originShape]; simp) originFeeds).symm
    obtain ⟨setRecord, setDone, setEnds⟩ :=
      reached.resource_endsBefore originShape (by simp) sameResource record done
    have originRuns := reached.start_le_end done
    exact ⟨setRecord, setDone, by omega⟩

end Pairing

/-! ## Pipes that the validator reaches -/

/-- A set and the wait that the validator pairs with it in a scanned interval. -/
structure FlagPair
    (lane : Participant)
    (set : Task)
    (inner : List Task)
    (wait : Task) :
    Prop where
  isSet : set.operation = .setFlag
  isWait : wait.operation = .waitFlag
  setLane : set.participant = lane
  waitLane : wait.participant = lane
  sameSignature : flagSignature set = flagSignature wait
  innerFree :
    ∀ other ∈ inner, isLocalFlagEvent other = true → other.participant = lane →
      flagSignature other ≠ flagSignature wait

/-- Pipes that pairs in a scanned interval connect with the pipe of the producer. -/
inductive Reached
    (lane : Participant)
    (start : Pipe) :
    List Task → Option PipeName → Prop where
  | producer
      (scanned : List Task) :
      Reached lane start scanned (some (.pipe start))
  | pair
      {older inner newer : List Task}
      {set wait : Task} :
      FlagPair lane set inner wait →
      Reached lane start older set.metadata.srcPipe →
      Reached lane start (older ++ set :: (inner ++ wait :: newer)) wait.metadata.dstPipe

theorem Reached.extend {lane : Participant} {start : Pipe} {scanned : List Task}
    {pipe : Option PipeName} (reached : Reached lane start scanned pipe)
    (more : List Task) : Reached lane start (scanned ++ more) pipe := by
  cases reached with
  | producer => exact .producer _
  | @pair older inner newer set wait paired sourceReached =>
    have extended :
        Reached lane start (older ++ set :: (inner ++ wait :: (newer ++ more)))
          wait.metadata.dstPipe := .pair paired sourceReached
    simpa using extended

/-- The set that a pending signature of the scan stands for. -/
structure PendingSet
    (lane : Participant)
    (start : Pipe)
    (scanned : List Task)
    (signature : FlagSignature)
    (sourceWasReachable : Bool) where
  older : List Task
  set : Task
  inner : List Task
  shape : scanned = older ++ set :: inner
  isSet : set.operation = .setFlag
  setLane : set.participant = lane
  hasSignature : flagSignature set = signature
  innerFree :
    ∀ other ∈ inner, isLocalFlagEvent other = true → other.participant = lane →
      flagSignature other ≠ signature
  reached : sourceWasReachable = true → Reached lane start older set.metadata.srcPipe

theorem PendingSet.skip {lane : Participant} {signature : FlagSignature}
    {sourceWasReachable : Bool}
    (pending : PendingSet lane start scanned signature sourceWasReachable)
    (other :
      isLocalFlagEvent task = true →
      task.participant = lane →
      flagSignature task ≠ signature) :
    Nonempty (PendingSet lane start (scanned ++ [task]) signature sourceWasReachable) := by
  have extendedShape :
      scanned ++ [task] = pending.older ++ pending.set :: (pending.inner ++ [task]) := by
    have extended := congrArg (· ++ [task]) pending.shape
    simpa using extended
  refine ⟨{ pending with
    inner := pending.inner ++ [task]
    shape := extendedShape
    innerFree := ?_ }⟩
  intro later member
  rcases List.mem_append.mp member with inInner | isTask
  · exact pending.innerFree later inInner
  · rw [List.mem_singleton.mp isTask]
    exact other

/-- Every pending signature of the scan stands for a set. -/
def PendingSets (lane : Participant) (start : Pipe) (scanned : List Task)
    (pending : FlagSignature → Option Bool) : Prop :=
  ∀ signature sourceWasReachable, pending signature = some sourceWasReachable →
    Nonempty (PendingSet lane start scanned signature sourceWasReachable)

section PendingSets

variable {lane : Participant} {start : Pipe} {scanned : List Task}
  {pending : FlagSignature → Option Bool} {task : Task}

theorem PendingSets.skip (sets : PendingSets lane start scanned pending)
    (other :
      isLocalFlagEvent task = true →
      task.participant = lane →
      pending (flagSignature task) = none) :
    PendingSets lane start (scanned ++ [task]) pending := by
  intro signature flag isPending
  obtain ⟨pendingSet⟩ := sets signature flag isPending
  refine pendingSet.skip fun isFlag onLane equal => ?_
  rw [← equal, other isFlag onLane] at isPending
  cases isPending

theorem PendingSets.set (sets : PendingSets lane start scanned pending)
    (isSet : task.operation = .setFlag) (onLane : task.participant = lane)
    {sourceIsReachable : Bool}
    (reached : sourceIsReachable = true → Reached lane start scanned task.metadata.srcPipe) :
    PendingSets lane start (scanned ++ [task])
      (Function.update pending (flagSignature task) (some sourceIsReachable)) := by
  intro signature flag isPending
  by_cases same : signature = flagSignature task
  · subst same
    simp only [Function.update_self, Option.some.injEq] at isPending
    rw [isPending] at reached
    exact ⟨{
      older := scanned
      set := task
      inner := []
      shape := rfl
      isSet := isSet
      setLane := onLane
      hasSignature := rfl
      innerFree := by simp
      reached := reached }⟩
  · rw [Function.update_of_ne same] at isPending
    obtain ⟨pendingSet⟩ := sets signature flag isPending
    exact pendingSet.skip fun _ _ equal => same equal.symm

theorem PendingSets.wait (sets : PendingSets lane start scanned pending) :
    PendingSets lane start (scanned ++ [task])
      (Function.update pending (flagSignature task) none) := by
  intro signature flag isPending
  by_cases same : signature = flagSignature task
  · subst same
    simp at isPending
  · rw [Function.update_of_ne same] at isPending
    obtain ⟨pendingSet⟩ := sets signature flag isPending
    exact pendingSet.skip fun _ _ equal => same equal.symm

theorem PendingSet.reached_wait
    (pendingSet : PendingSet lane start scanned (flagSignature task) true)
    (isWait : task.operation = .waitFlag) (onLane : task.participant = lane) :
    Reached lane start (scanned ++ [task]) task.metadata.dstPipe := by
  have paired : FlagPair lane pendingSet.set pendingSet.inner task := {
    isSet := pendingSet.isSet
    isWait := isWait
    setLane := pendingSet.setLane
    waitLane := onLane
    sameSignature := pendingSet.hasSignature
    innerFree := pendingSet.innerFree }
  have connected :
      Reached lane start
        (pendingSet.older ++ pendingSet.set :: (pendingSet.inner ++ task :: []))
        task.metadata.dstPipe :=
    .pair paired (pendingSet.reached rfl)
  have extended := congrArg (· ++ [task]) pendingSet.shape
  simp only [List.append_assoc, List.cons_append] at extended
  rw [extended]
  exact connected

end PendingSets

theorem fenceScan_reached {consumer : Task} {rest : List Task}
    {reachable : List (Option PipeName)} {pending : FlagSignature → Option Bool}
    (reached : ∀ pipe ∈ reachable, Reached consumer.participant start scanned pipe)
    (pendingSets : PendingSets consumer.participant start scanned pending)
    (found : fenceScan consumer reachable pending rest = true) :
    Reached consumer.participant start (scanned ++ rest) (some (.pipe consumer.pipe)) := by
  induction rest generalizing scanned reachable pending with
  | nil => simp [fenceScan] at found
  | cons task rest ih =>
    have stillReached :
        ∀ pipe ∈ reachable, Reached consumer.participant start (scanned ++ [task]) pipe :=
      fun pipe member => (reached pipe member).extend [task]
    have shifted : scanned ++ task :: rest = (scanned ++ [task]) ++ rest := by simp
    rw [shifted]
    unfold fenceScan at found
    by_cases onLane : task.participant = consumer.participant
    · simp only [onLane, ↓reduceIte] at found
      cases operation : task.operation with
      | setFlag =>
        simp only [operation] at found
        refine ih stillReached
          (pendingSets.set operation onLane fun isReachable => ?_) found
        exact reached _ (of_decide_eq_true isReachable)
      | waitFlag =>
        simp only [operation] at found
        cases isPending : pending (flagSignature task) with
        | none =>
          simp only [isPending] at found
          exact ih stillReached (pendingSets.skip fun _ _ => isPending) found
        | some sourceWasReachable =>
          simp only [isPending] at found
          obtain ⟨pendingSet⟩ := pendingSets _ _ isPending
          have extendedReached :
              ∀ pipe ∈
                  (if sourceWasReachable then
                    task.metadata.dstPipe :: reachable
                  else
                    reachable),
                Reached consumer.participant start (scanned ++ [task]) pipe := by
            intro pipe member
            split at member
            · rename_i isReachable
              subst isReachable
              rcases List.mem_cons.mp member with rfl | inReachable
              · exact pendingSet.reached_wait operation onLane
              · exact stillReached pipe inReachable
            · exact stillReached pipe member
          generalize (if sourceWasReachable then
              task.metadata.dstPipe :: reachable
            else
              reachable) = extended at found extendedReached
          split at found
          · rename_i isConsumer
            exact (extendedReached _ isConsumer).extend rest
          · exact ih extendedReached pendingSets.wait found
      | _ =>
        simp only [operation] at found
        refine ih stillReached (pendingSets.skip ?_) found
        simp [isLocalFlagEvent, operation]
    · simp only [onLane, ↓reduceIte] at found
      exact ih stillReached
        (pendingSets.skip fun _ sameLane => absurd sameLane onLane) found

theorem fenceScan_filter (consumer : Task) (reachable : List (Option PipeName))
    (pending : FlagSignature → Option Bool) (tasks : List Task) :
    fenceScan consumer reachable pending (tasks.filter isLocalFlagEvent) =
      fenceScan consumer reachable pending tasks := by
  induction tasks generalizing reachable pending with
  | nil => rfl
  | cons task rest ih =>
    by_cases isFlag : isLocalFlagEvent task
    · rw [List.filter_cons_of_pos isFlag]
      simp only [fenceScan, ih]
    · rw [List.filter_cons_of_neg isFlag, ih]
      conv => rhs; unfold fenceScan
      unfold isLocalFlagEvent at isFlag
      split
      · split
        all_goals simp_all
      · rfl

/--
Between two positions of a core the indexed scans of the validator give the same answers as the
scans of the slice: for chains of local flags and for full barriers.
-/
theorem indexedScan_eq_sliceScan
    (tasks : List Task)
    (producer consumer : Nat)
    (before : producer < consumer)
    (inside : consumer < tasks.length) :
    hasLocalFlagFenceBetween (EventIndex.events isLocalFlagEvent 0 tasks) (producer + 1) consumer
          tasks[producer] tasks[consumer] =
        hasLocalFlagFence ((tasks.take consumer).drop (producer + 1))
          tasks[producer] tasks[consumer] ∧
      hasFullBarrierBetween ((EventIndex.events isFullBarrier 0 tasks).map Prod.fst)
          (producer + 1) consumer =
        hasFullBarrier ((tasks.take consumer).drop (producer + 1)) := by
  let between := (tasks.take consumer).drop (producer + 1)
  have shape : tasks.take (producer + 1) ++ (between ++ tasks.drop consumer) = tasks := by
    have first : tasks.take (producer + 1) = (tasks.take consumer).take (producer + 1) := by
      rw [List.take_take, min_eq_left before]
    rw [← List.append_assoc, first, List.take_append_drop, List.take_append_drop]
  have start : (tasks.take (producer + 1)).length = producer + 1 := by
    rw [List.length_take]
    omega
  have stop : producer + 1 + between.length = consumer := by
    rw [List.length_drop, List.length_take]
    omega
  constructor
  · have window := EventIndex.events_window isLocalFlagEvent (tasks.take (producer + 1)) between
      (tasks.drop consumer)
    rw [shape, start, stop] at window
    rw [hasLocalFlagFenceBetween, window]
    exact fenceScan_filter _ _ _ _
  · have query := EventIndex.events_query isFullBarrier (tasks.take (producer + 1)) between
      (tasks.drop consumer)
    rw [shape, start, stop] at query
    rw [Bool.eq_iff_iff, hasFullBarrier, List.any_eq_true, ← query, hasFullBarrierBetween]
    split
    · rename_i index found
      simp [found]
    · rename_i missing
      simp [missing]

/-- The indexed scan and the slice scan agree around a barrier. -/
theorem indexedScan_eq_sliceScan_barrier :
    hasLocalFlagFenceBetween (EventIndex.events isLocalFlagEvent 0 cubeBarrierCore.tasks) 1 2
          cubeBarrierCore.tasks[0] cubeBarrierCore.tasks[2] =
        hasLocalFlagFence ((cubeBarrierCore.tasks.take 2).drop 1)
          cubeBarrierCore.tasks[0] cubeBarrierCore.tasks[2] ∧
      hasFullBarrierBetween ((EventIndex.events isFullBarrier 0 cubeBarrierCore.tasks).map Prod.fst)
          1 2 =
        hasFullBarrier ((cubeBarrierCore.tasks.take 2).drop 1) :=
  indexedScan_eq_sliceScan cubeBarrierCore.tasks 0 2 (by decide) (by decide)

/-- Among the prefixes of a list that pass a check there is one without a shorter one. -/
theorem exists_shortest_prefix (check : List α → Bool) (items : List α)
    (passes : check items = true) :
    ∃ shortest, shortest <+: items ∧ check shortest = true ∧
      ∀ shorter, shorter <+: shortest → shorter.length < shortest.length →
        check shorter = false := by
  by_cases shorterPasses :
      ∃ shorter, shorter <+: items ∧ shorter.length < items.length ∧ check shorter = true
  · obtain ⟨shorter, isPrefix, less, shorterPasses⟩ := shorterPasses
    obtain ⟨shortest, within, result⟩ := exists_shortest_prefix check shorter shorterPasses
    exact ⟨shortest, within.trans isPrefix, result⟩
  · refine ⟨items, List.prefix_rfl, passes, fun shorter isPrefix less => ?_⟩
    cases checked : check shorter with
    | false => rfl
    | true => exact absurd ⟨shorter, isPrefix, less, checked⟩ shorterPasses
termination_by items.length

/--
An accepted edge is accepted at some first point of its interval, and the pairs before it reach
the pipe of the consumer.
-/
theorem MemoryEdge.reached_of_accepts {core : CoreProgram} (edge : MemoryEdge core)
    (accepted : edge.localFlagAccepts = true) :
    ∃ scanned, scanned <+: edge.between ∧
      Reached edge.consumer.participant edge.producer.pipe scanned
        (some (.pipe edge.consumer.pipe)) ∧
      ∀ shorter, shorter <+: scanned → shorter.length < scanned.length →
        hasLocalFlagFence shorter edge.producer edge.consumer = false := by
  rw [edge.localFlagAccepts_eq, hasLocalFlagFence, fenceScan_filter] at accepted
  obtain ⟨scanned, isPrefix, accepts, earlier⟩ := exists_shortest_prefix
    (fun tasks => hasLocalFlagFence tasks edge.producer edge.consumer) edge.between accepted
  refine ⟨scanned, isPrefix, ?_, earlier⟩
  have reached :
      Reached edge.consumer.participant edge.producer.pipe ([] ++ scanned)
        (some (.pipe edge.consumer.pipe)) := by
    refine fenceScan_reached ?_ ?_ accepts
    · intro pipe member
      rw [List.mem_singleton.mp member]
      exact .producer _
    · intro signature flag isPending
      simp at isPending
  simpa using reached

/-! ## Reached pipes follow the producer -/

/-- Whether a task is a local wait on a queue. -/
def waitsLocally (key : FlagKey) (task : Task) : Bool :=
  task.operation = .waitFlag ∧ localFlagKey task = .ok key

theorem drainsQueue_of_waitsLocally {key : FlagKey}
    (waits : waitsLocally key task = true) : model.drainsQueue key task = true := by
  simp only [waitsLocally, Bool.decide_and, Bool.and_eq_true, decide_eq_true_eq] at waits
  obtain ⟨isWaitFlag, keyed⟩ := waits
  simp [drainsQueue, waitKeys, isWaitFlag, keyed, Except.toOption]

/--
Until the validator accepts, every pair by which it reaches a further pipe agrees with FIFO
order: no `sync_all` of the lane precedes the wait, and at least as many waits of the queue
precede the wait as sets precede the set, so that the wait receives the credit of this set or
of a later one.
-/
def MemoryEdge.FifoConsistent {core : CoreProgram} (edge : MemoryEdge core) : Prop :=
  ∀ older set inner wait newer, edge.between = older ++ set :: (inner ++ wait :: newer) →
    FlagPair edge.consumer.participant set inner wait →
    Reached edge.consumer.participant edge.producer.pipe older set.metadata.srcPipe →
    ¬ Reached edge.consumer.participant edge.producer.pipe (older ++ set :: inner)
        wait.metadata.dstPipe →
    hasLocalFlagFence (older ++ set :: inner) edge.producer edge.consumer = false →
    (∀ other ∈ edge.before ++ edge.producer :: (older ++ set :: inner),
      isSyncAllOn edge.consumer.participant other = false) ∧
    ∀ key, localFlagKey set = .ok key →
      (edge.before ++ edge.producer :: older).countP (feeds key) ≤
        (edge.before ++ edge.producer :: (older ++ set :: inner)).countP (waitsLocally key)

section ReachedPipes

variable {syncConfig : SyncConfig} {config : SimulatorConfig} {program : KernelProgram}
  {log : List Task} {state : RunState FlagBarrierModel} {core : CoreProgram}

theorem MemoryEdge.pair_endsBefore (edge : MemoryEdge core) (member : core ∈ program.cores)
    (fired : Fires (flagBarrierSynchronizationModel syncConfig) config program log state)
    (placement : LocalFlagPlacement program) (consistent : edge.FifoConsistent)
    {older inner newer : List Task} {set wait : Task}
    (shape : edge.between = older ++ set :: (inner ++ wait :: newer))
    (paired : FlagPair edge.consumer.participant set inner wait)
    (sourceReached :
      Reached edge.consumer.participant edge.producer.pipe older set.metadata.srcPipe)
    (further :
      ¬ Reached edge.consumer.participant edge.producer.pipe (older ++ set :: inner)
        wait.metadata.dstPipe)
    (undecided :
      hasLocalFlagFence (older ++ set :: inner) edge.producer edge.consumer = false) :
    EndsBefore state.completed set.taskId wait.taskId := by
  obtain ⟨left, right, programShape, leftOther⟩ := edge.program_shape member
  rw [← edge.participant_eq] at leftOther
  obtain ⟨unreleased, counts⟩ := consistent older set inner wait newer shape paired sourceReached
    further undecided
  have setShape :
      program.tasks =
        (left ++ (edge.before ++ edge.producer :: older)) ++
          set :: (inner ++ wait :: (newer ++ edge.consumer :: (edge.after ++ right))) := by
    rw [programShape, shape]
    simp
  have waitShape :
      program.tasks =
        (left ++ (edge.before ++ edge.producer :: (older ++ set :: inner))) ++
          wait :: (newer ++ edge.consumer :: (edge.after ++ right)) := by
    rw [programShape, shape]
    simp
  have setIsFlag : isLocalFlagEvent set = true := by
    simp [isLocalFlagEvent, paired.isSet]
  have waitIsFlag : isLocalFlagEvent wait = true := by
    simp [isLocalFlagEvent, paired.isWait]
  have setValidated : validateSyncTask set = .ok () :=
    fired.accepted.task_validated (by rw [setShape]; simp)
  have waitValidated : validateSyncTask wait = .ok () :=
    fired.accepted.task_validated (by rw [waitShape]; simp)
  obtain ⟨src, dst, flagId, _, _, _, keyed⟩ := localFlag_operands setValidated setIsFlag
  have waitKeyed :
      localFlagKey wait = .ok (.localFlag set.coreId set.lane (.pipe src) (.pipe dst) flagId) := by
    rw [← keyed]
    exact localFlagKey_eq (paired.waitLane.trans paired.setLane.symm)
      paired.sameSignature.symm waitValidated setValidated waitIsFlag setIsFlag
  have onLeft :
      left.countP (feeds (.localFlag set.coreId set.lane (.pipe src) (.pipe dst) flagId)) = 0 := by
    rw [List.countP_eq_zero]
    intro other inLeft fed
    obtain ⟨coreIs, laneIs, _⟩ := localFlagKey_ok (localSet_of_feeds fed).2
    refine leftOther other inLeft ?_
    rw [← paired.setLane]
    simp [Task.participant, coreIs, laneIs]
  have setFeeds :
      feeds (.localFlag set.coreId set.lane (.pipe src) (.pipe dst) flagId) set = true := by
    simp [feeds, setKeys, paired.isSet, keyed, Except.toOption]
  have waits :
      waitsLocally (.localFlag set.coreId set.lane (.pipe src) (.pipe dst) flagId) wait = true := by
    simp [waitsLocally, paired.isWait, waitKeyed]
  refine fired.set_endsBefore_wait placement setShape waitShape setFeeds
    (drainsQueue_of_waitsLocally waits) ?_ ?_
  · intro other inBefore
    rw [paired.waitLane]
    rcases List.mem_append.mp inBefore with inLeft | inCore
    · simp [isSyncAllOn, leftOther other inLeft]
    · exact unreleased other inCore
  · have counted := counts _ keyed
    have waitsCounted :
        (left ++ (edge.before ++ edge.producer :: (older ++ set :: inner))).countP
            (waitsLocally (.localFlag set.coreId set.lane (.pipe src) (.pipe dst) flagId)) ≤
          (left ++ (edge.before ++ edge.producer :: (older ++ set :: inner))).countP
            (state.sync.drainsQueue
              (.localFlag set.coreId set.lane (.pipe src) (.pipe dst) flagId)) :=
      List.countP_mono_left fun _ _ waits => drainsQueue_of_waitsLocally waits
    rw [List.countP_append, onLeft]
    rw [List.countP_append] at waitsCounted
    omega

theorem MemoryEdge.reached_endsBefore (edge : MemoryEdge core) (member : core ∈ program.cores)
    (fired : Fires (flagBarrierSynchronizationModel syncConfig) config program log state)
    (placement : LocalFlagPlacement program) (consistent : edge.FifoConsistent)
    {scanned : List Task} {pipe : Option PipeName}
    (reached : Reached edge.consumer.participant edge.producer.pipe scanned pipe)
    (undecided : ∀ shorter, shorter <+: scanned → shorter.length < scanned.length →
      hasLocalFlagFence shorter edge.producer edge.consumer = false) :
    ∀ between task rest,
      edge.between ++ edge.consumer :: edge.after = scanned ++ (between ++ task :: rest) →
      scanned <+: edge.between →
      task.participant = edge.consumer.participant →
      pipe = some (.pipe task.pipe) →
      EndsBefore state.completed edge.producer.taskId task.taskId := by
  obtain ⟨left, right, programShape, _⟩ := edge.program_shape member
  -- A pipe reached by a shorter prefix has a pair of that prefix behind it.
  induction length : scanned.length using Nat.strong_induction_on generalizing scanned pipe with
  | _ size ih =>
    subst length
    cases reached with
    | producer =>
      intro between task rest shape _ onLane samePipe
      have taskShape :
          program.tasks =
            (left ++ edge.before ++ edge.producer :: (scanned ++ between)) ++
              task :: (rest ++ right) := by
        have extended := congrArg (· ++ right) shape
        simp only [List.append_assoc, List.cons_append] at extended
        rw [programShape, extended]
        simp
      refine fired.resource_endsBefore taskShape (by simp) ?_
      refine resource_eq_of_participant (edge.participant_eq.symm.trans onLane.symm) ?_
      simpa using samePipe
    | @pair older inner newer set wait paired sourceReached =>
      intro between task rest shape isPrefix onLane samePipe
      have innerPrefix :
          older ++ set :: inner <+: older ++ set :: (inner ++ wait :: newer) :=
        ⟨wait :: newer, by simp⟩
      have innerShorter :
          (older ++ set :: inner).length < (older ++ set :: (inner ++ wait :: newer)).length := by
        simp
      have undecidedInner := undecided _ innerPrefix innerShorter
      have olderPrefix : older <+: older ++ set :: inner := List.prefix_append _ _
      have undecidedBefore {prior : List Task} (within : prior <+: older ++ set :: inner) :
          ∀ shorter, shorter <+: prior → shorter.length < prior.length →
            hasLocalFlagFence shorter edge.producer edge.consumer = false := by
        intro shorter isShorter less
        exact undecided shorter (isShorter.trans (within.trans innerPrefix))
          (less.trans_le (within.length_le.trans innerShorter.le))
      by_cases already :
          Reached edge.consumer.participant edge.producer.pipe (older ++ set :: inner)
            wait.metadata.dstPipe
      · refine ih _ innerShorter already (undecidedBefore List.prefix_rfl) rfl
          (wait :: newer ++ between) task rest ?_ (innerPrefix.trans isPrefix) onLane samePipe
        rw [shape]
        simp
      obtain ⟨remaining, betweenShape⟩ := isPrefix
      have pairShape :
          edge.between = older ++ set :: (inner ++ wait :: (newer ++ remaining)) := by
        rw [← betweenShape]
        simp
      have setIsTask : set ∈ program.tasks := by
        rw [programShape, pairShape]
        simp
      have waitIsTask : wait ∈ program.tasks := by
        rw [programShape, pairShape]
        simp
      have producerSet :
          EndsBefore state.completed edge.producer.taskId set.taskId := by
        refine ih _ (olderPrefix.length_le.trans_lt innerShorter) sourceReached
          (undecidedBefore olderPrefix) rfl [] set
          (inner ++ wait :: (newer ++ remaining) ++ edge.consumer :: edge.after) ?_ ?_
          paired.setLane (placement.sets set setIsTask paired.isSet)
        · rw [pairShape]
          simp
        · rw [pairShape]
          exact List.prefix_append _ _
      have setWait :=
        edge.pair_endsBefore member fired placement consistent pairShape paired sourceReached
          already undecidedInner
      have waitTask : EndsBefore state.completed wait.taskId task.taskId := by
        have taskShape :
            program.tasks =
              (left ++ edge.before ++
                edge.producer :: (older ++ set :: (inner ++ wait :: (newer ++ between)))) ++
                task :: (rest ++ right) := by
          have extended := congrArg (· ++ right) shape
          simp only [List.append_assoc, List.cons_append] at extended
          rw [programShape, extended]
          simp
        refine fired.resource_endsBefore taskShape (by simp) ?_
        refine resource_eq_of_participant (paired.waitLane.trans onLane.symm) ?_
        have onPipe := placement.waits wait waitIsTask paired.isWait
        rw [onPipe] at samePipe
        simpa using samePipe
      exact fired.endsBefore_trans producerSet (fired.endsBefore_trans setWait waitTask)

end ReachedPipes

/--
A memory edge that the validator accepts for local flags is ordered in every completed
schedule, when the pairs it uses until then agree with FIFO order or a fence of the edge's lane
that waits for the producer lies before the consumer.
-/
theorem local_flag_fence_orders_edge
    (config : SimulatorConfig)
    (program : KernelProgram)
    (placement : LocalFlagPlacement program)
    (result : ScheduleResult)
    (completes : run (flagBarrierSynchronizationModel {}) config program = .ok result)
    (core : CoreProgram)
    (member : core ∈ program.cores)
    (edge : MemoryEdge core)
    (accepted : edge.localFlagAccepts = true)
    (holdsWhen : edge.FifoConsistent ∨ edge.FencedOnLane) :
    edge.Ordered result := by
  obtain ⟨log, state, fired, complete, rfl⟩ := run_fires completes
  refine fired.result_endsBefore complete (edge.consumer_isTask member) ?_
  rcases holdsWhen with consistent | fenced
  · obtain ⟨scanned, ⟨remaining, between⟩, reached, undecided⟩ :=
      edge.reached_of_accepts accepted
    exact edge.reached_endsBefore member fired placement consistent reached undecided
      remaining edge.consumer edge.after (by simp [← between]) ⟨remaining, between⟩ rfl rfl
  · exact edge.fenced_endsBefore member fired fenced

/-- A load of a hundred cycles on the cube lane. -/
def slowLoad : Task where
  taskId := "load"
  operation := .other "copy"
  coreId := 0
  lane := .cube
  pipe := .mte2
  durationCycles := 100

theorem mma_notMem_load : "mma" ∉ ["load"] := by decide

/-- A matrix task that reads the load. -/
def readingMma : Task where
  taskId := "mma"
  operation := .other "mma"
  coreId := 0
  lane := .cube
  pipe := .m
  durationCycles := 10
  dependencies := ["load"]
  metadata := { memoryDependencies := ["load"] }
  notSelfDependent := mma_notMem_load
  dependenciesUnique := List.nodup_singleton "load"

/-- The credit set before the load is still queued when the wait after it comes. -/
def staleCreditCore : CoreProgram where
  coreId := 0
  tasks :=
    [cubeFlag "set-0" .setFlag .mte2, slowLoad, cubeFlag "set-1" .setFlag .mte2,
      cubeFlag "wait-0" .waitFlag .m, readingMma, cubeFlag "wait-1" .waitFlag .m]

/-- The edge from the load to the matrix task, with a set and a wait between them. -/
def staleCreditEdge : MemoryEdge staleCreditCore where
  before := [cubeFlag "set-0" .setFlag .mte2]
  producer := slowLoad
  between := [cubeFlag "set-1" .setFlag .mte2, cubeFlag "wait-0" .waitFlag .m]
  consumer := readingMma
  after := [cubeFlag "wait-1" .waitFlag .m]
  shape := rfl
  listed := by decide
  sameLane := rfl
  pipesDiffer := by decide

/-- The validator pairs the wait with the second set, the scheduler with the first one. -/
theorem stale_credit_leaves_edge_unordered :
    ¬ ∀ (config : SimulatorConfig) (program : KernelProgram), LocalFlagPlacement program →
        ∀ result : ScheduleResult,
          run (flagBarrierSynchronizationModel {}) config program = .ok result →
          ∀ core ∈ program.cores,
            ∀ edge : MemoryEdge core, edge.localFlagAccepts = true → edge.Ordered result := by
  intro sound
  have cycles :
      (run (flagBarrierSynchronizationModel {}) {}
          { cores := [staleCreditCore] }).toOption.map
        (fun result => (result.interval? "load", result.interval? "mma")) =
      some (some (1, 101), some (2, 12)) := by
    decide +kernel
  obtain ⟨result, completes, intervals⟩ := ok_of_observed cycles
  obtain ⟨loadRecord, mmaRecord, loadDone, mmaDone, ordered⟩ :=
    sound {} _ ⟨by decide, by decide⟩ result completes staleCreditCore (by simp)
      staleCreditEdge (by decide +kernel)
  have loadIs : result.operation? "load" = some loadRecord := loadDone
  have mmaIs : result.operation? "mma" = some mmaRecord := mmaDone
  simp only [ScheduleResult.interval?, loadIs, mmaIs, Option.map_some, Prod.mk.injEq,
    Option.some.injEq] at intervals
  omega

/-- A load whose only credit is set after it. -/
def freshCreditCore : CoreProgram where
  coreId := 0
  tasks :=
    [slowLoad, cubeFlag "set" .setFlag .mte2, cubeFlag "wait" .waitFlag .m, readingMma]

/-- The edge from the load to the matrix task, with the only set and wait between them. -/
def freshCreditEdge : MemoryEdge freshCreditCore where
  before := []
  producer := slowLoad
  between := [cubeFlag "set" .setFlag .mte2, cubeFlag "wait" .waitFlag .m]
  consumer := readingMma
  after := []
  shape := rfl
  listed := by decide
  sameLane := rfl
  pipesDiffer := by decide

theorem freshCreditEdge_fifoConsistent : freshCreditEdge.FifoConsistent := by
  have checked :
      ∀ older set rest, freshCreditEdge.between = older ++ set :: rest →
        ∀ inner wait newer, rest = inner ++ wait :: newer →
          (∀ other ∈
              freshCreditEdge.before ++ freshCreditEdge.producer :: (older ++ set :: inner),
            isSyncAllOn freshCreditEdge.consumer.participant other = false) ∧
          ∀ key ∈ (localFlagKey set).toOption,
            (freshCreditEdge.before ++ freshCreditEdge.producer :: older).countP
                (feeds key) ≤
              (freshCreditEdge.before ++
                freshCreditEdge.producer :: (older ++ set :: inner)).countP
                (waitsLocally key) := by
    simp only [forall_split_iff]
    decide +kernel
  intro older set inner wait newer shape _ _ _ _
  obtain ⟨unreleased, counts⟩ := checked older set _ shape inner wait newer rfl
  refine ⟨unreleased, ?_⟩
  intro key keyed
  exact counts key (by simp [keyed, Except.toOption])

/-- The matrix task waits for the flag that is set after the load. -/
theorem fresh_credit_orders_edge :
    ∃ result,
      run (flagBarrierSynchronizationModel {}) {} { cores := [freshCreditCore] } = .ok result ∧
        result.interval? "mma" = some (102, 112) ∧
        freshCreditEdge.localFlagAccepts = true ∧
        freshCreditEdge.Ordered result := by
  have cycles :
      (run (flagBarrierSynchronizationModel {}) {}
          { cores := [freshCreditCore] }).toOption.map
        (fun result => result.interval? "mma") =
      some (some (102, 112)) := by
    decide +kernel
  obtain ⟨result, completes, interval⟩ := ok_of_observed cycles
  have accepted : freshCreditEdge.localFlagAccepts = true := by
    decide +kernel
  refine ⟨result, completes, interval, accepted, ?_⟩
  exact local_flag_fence_orders_edge {} _ ⟨by decide, by decide⟩ result completes
    freshCreditCore (by simp) freshCreditEdge accepted
    (Or.inl freshCreditEdge_fifoConsistent)

end TilelangAscend.Simulator
