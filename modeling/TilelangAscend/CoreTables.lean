import TilelangAscend.OrderFreeRuns

namespace TilelangAscend.Simulator

open ListHistory
open FlagBarrierModel

/-!
# Programs with their cores in another order

The table-building scan treats each core on its own: what it records for a task, and whether
it accepts a `sync_all`, depends on the earlier tasks of the same core only.  Reordering the
cores of an accepted program therefore gives an accepted program with the same tables.
-/

/-- The cores of a program in another order. -/
structure Reordered (program permuted : KernelProgram) : Prop where
  cores : permuted.cores.Perm program.cores
  platform : permuted.platform = program.platform

/-- Whether a task runs on a core. -/
def isOnCore (coreId : Nat) (task : Task) : Bool :=
  task.coreId = coreId

/-- The tasks of a core are those of its core programs. -/
theorem programTasks_onCore (cores : List CoreProgram) (coreId : Nat) :
    (programTasks cores).filter (isOnCore coreId) =
      programTasks (cores.filter (·.coreId = coreId)) := by
  induction cores with
  | nil => rfl
  | cons core rest ih =>
    unfold programTasks at ih ⊢
    rw [List.flatMap_cons, List.filter_append, ih]
    by_cases sameCore : core.coreId = coreId
    · have kept : core.tasks.filter (isOnCore coreId) = core.tasks := by
        rw [List.filter_eq_self]
        intro task member
        simp [isOnCore, core.tasksOwned task member, sameCore]
      simp [kept, sameCore]
    · have dropped : core.tasks.filter (isOnCore coreId) = [] := by
        rw [List.filter_eq_nil_iff]
        intro task member
        simp [isOnCore, core.tasksOwned task member, sameCore]
      simp [dropped, sameCore]

/-- A test that only tasks of one core pass needs only that core. -/
theorem filter_onCore {test : Task → Bool} {coreId : Nat}
    (onCore : ∀ task, test task = true → task.coreId = coreId) (tasks : List Task) :
    tasks.filter test = (tasks.filter (isOnCore coreId)).filter test := by
  rw [List.filter_filter]
  refine List.filter_congr ?_
  intro task _
  by_cases passes : test task = true
  · simp [passes, isOnCore, onCore task passes]
  · simp [passes]

namespace Reordered

variable {program permuted : KernelProgram}

/-- A reordered program has the same tasks. -/
theorem tasks_perm (reordered : Reordered program permuted) : permuted.tasks.Perm program.tasks :=
  reordered.cores.flatMap_right _

/-- Reordering cores keeps the task list of every core. -/
theorem onCore_eq (reordered : Reordered program permuted) (coreId : Nat) :
    permuted.tasks.filter (isOnCore coreId) = program.tasks.filter (isOnCore coreId) := by
  simp only [KernelProgram.tasks, programTasks_onCore]
  congr 1
  have samePerm := reordered.cores.filter (·.coreId = coreId)
  by_cases present : ∃ core ∈ program.cores, core.coreId = coreId
  · obtain ⟨core, member, rfl⟩ := present
    rw [filter_key_eq_singleton program.coresUnique member] at samePerm ⊢
    exact List.perm_singleton.mp samePerm
  · have absent : program.cores.filter (·.coreId = coreId) = [] := by
      rw [List.filter_eq_nil_iff]
      intro core member same
      exact present ⟨core, member, of_decide_eq_true same⟩
    rw [absent] at samePerm ⊢
    exact List.perm_nil.mp samePerm

variable {test : Task → Bool}

/-- Reordering cores keeps every selection within one core. -/
theorem filter_eq (reordered : Reordered program permuted) (coreId : Nat)
    (onCore : ∀ task, test task = true → task.coreId = coreId) :
    permuted.tasks.filter test = program.tasks.filter test := by
  rw [filter_onCore onCore permuted.tasks, filter_onCore onCore program.tasks, reordered.onCore_eq]

/-- Reordering cores keeps what precedes a task within its core. -/
theorem earlier_filter_eq (reordered : Reordered program permuted) {task : Task}
    (isTask : task ∈ program.tasks)
    (onCore : ∀ other, test other = true → other.coreId = task.coreId) :
    (permuted.earlierTasks task).filter test = (program.earlierTasks task).filter test := by
  obtain ⟨before, after, shape⟩ := List.mem_iff_append.mp isTask
  obtain ⟨otherBefore, otherAfter, otherShape⟩ :=
    List.mem_iff_append.mp (reordered.tasks_perm.mem_iff.mpr isTask)
  have onOwnCore : isOnCore task.coreId task = true := by simp [isOnCore]
  have sameTasks := reordered.onCore_eq task.coreId
  rw [shape, otherShape, List.filter_append, List.filter_append,
    List.filter_cons_of_pos onOwnCore, List.filter_cons_of_pos onOwnCore] at sameTasks
  have unique :
      ((before.filter (isOnCore task.coreId) ++
        task :: after.filter (isOnCore task.coreId)).map Task.taskId).Nodup := by
    have filtered :
        before.filter (isOnCore task.coreId) ++ task :: after.filter (isOnCore task.coreId) =
          program.tasks.filter (isOnCore task.coreId) := by
      rw [shape, List.filter_append, List.filter_cons_of_pos onOwnCore]
    rw [filtered]
    exact program.taskIds_nodup.sublist (List.filter_sublist.map _)
  obtain ⟨sameBefore, _⟩ := split_unique unique rfl sameTasks.symm
  rw [KernelProgram.earlierTasks_eq shape, KernelProgram.earlierTasks_eq otherShape]
  rw [filter_onCore onCore otherBefore, filter_onCore onCore before, sameBefore]

end Reordered

/-! ## The scan of one core -/

/-- Two scan states agree on a core and on the entries of a class of tasks. -/
structure AgreesOn
    (coreId : Nat)
    (owned : TaskId → Prop)
    (first second : SyncTables) :
    Prop where
  lastByResource :
    ∀ resource : ResourceKey, resource.coreId = coreId →
      first.lastByResource resource = second.lastByResource resource
  lastFence :
    ∀ lane : Participant, lane.coreId = coreId → first.lastFence lane = second.lastFence lane
  lastPipeFence :
    ∀ (lane : Participant) (pipe : PipeName), lane.coreId = coreId →
      first.lastPipeFence (lane, pipe) = second.lastPipeFence (lane, pipe)
  syncAllPhase :
    ∀ lane : Participant, lane.coreId = coreId → first.syncAllPhase lane = second.syncAllPhase lane
  pendingSyncAll :
    ∀ lane : Participant,
      lane.coreId = coreId → first.pendingSyncAll lane = second.pendingSyncAll lane
  entries :
    ∀ taskId, owned taskId →
      first.orderingDependencies taskId = second.orderingDependencies taskId ∧
        first.barrierDependencies taskId = second.barrierDependencies taskId ∧
        first.syncAllTaskPhase taskId = second.syncAllTaskPhase taskId ∧
        first.syncAllReleaseDependencies taskId = second.syncAllReleaseDependencies taskId

/-- A sync_all joins participants of its own core only. -/
theorem syncAllTaskParticipants_onCore {task : Task} {scope : SyncScope}
    {participant : Participant} (joins : participant ∈ syncAllTaskParticipants task scope) :
    participant.coreId = task.coreId := by
  unfold syncAllTaskParticipants at joins
  split at joins
  · obtain ⟨lane, _, rfl⟩ := List.mem_map.mp joins
    rfl
  · rw [List.mem_singleton.mp joins]
    rfl

namespace AgreesOn

variable {coreId : Nat} {owned : TaskId → Prop} {first second third : SyncTables}

/-- Agreement on a core is reflexive. -/
theorem refl
    (tables : SyncTables) :
    AgreesOn coreId owned tables tables where
  lastByResource _ _ := rfl
  lastFence _ _ := rfl
  lastPipeFence _ _ _ := rfl
  syncAllPhase _ _ := rfl
  pendingSyncAll _ _ := rfl
  entries _ _ := ⟨rfl, rfl, rfl, rfl⟩

/-- Agreement on a core is symmetric. -/
theorem symm
    (agrees : AgreesOn coreId owned first second) :
    AgreesOn coreId owned second first where
  lastByResource resource onCore := (agrees.lastByResource resource onCore).symm
  lastFence lane onCore := (agrees.lastFence lane onCore).symm
  lastPipeFence lane pipe onCore := (agrees.lastPipeFence lane pipe onCore).symm
  syncAllPhase lane onCore := (agrees.syncAllPhase lane onCore).symm
  pendingSyncAll lane onCore := (agrees.pendingSyncAll lane onCore).symm
  entries taskId isOwned := by
    obtain ⟨ordering, barrier, phase, release⟩ := agrees.entries taskId isOwned
    exact ⟨ordering.symm, barrier.symm, phase.symm, release.symm⟩

/-- Agreement on a core is transitive. -/
theorem trans
    (agrees : AgreesOn coreId owned first second)
    (agreesNext : AgreesOn coreId owned second third) :
    AgreesOn coreId owned first third where
  lastByResource resource onCore :=
    (agrees.lastByResource resource onCore).trans (agreesNext.lastByResource resource onCore)
  lastFence lane onCore := (agrees.lastFence lane onCore).trans (agreesNext.lastFence lane onCore)
  lastPipeFence lane pipe onCore :=
    (agrees.lastPipeFence lane pipe onCore).trans (agreesNext.lastPipeFence lane pipe onCore)
  syncAllPhase lane onCore :=
    (agrees.syncAllPhase lane onCore).trans (agreesNext.syncAllPhase lane onCore)
  pendingSyncAll lane onCore :=
    (agrees.pendingSyncAll lane onCore).trans (agreesNext.pendingSyncAll lane onCore)
  entries taskId isOwned := by
    obtain ⟨ordering, barrier, phase, release⟩ := agrees.entries taskId isOwned
    obtain ⟨orderingNext, barrierNext, phaseNext, releaseNext⟩ := agreesNext.entries taskId isOwned
    exact ⟨ordering.trans orderingNext, barrier.trans barrierNext, phase.trans phaseNext,
      release.trans releaseNext⟩

/-- Tables that agree on a core have the same resources on its lanes. -/
theorem resourcesByLane (agrees : AgreesOn coreId owned first second) {lane : Participant}
    (onCore : lane.coreId = coreId) :
    first.resourcesByLane lane = second.resourcesByLane lane := by
  unfold SyncTables.resourcesByLane
  refine List.filterMap_congr ?_
  intro pipe _
  exact agrees.lastByResource _ onCore

variable {task : Task}

section

variable (agrees : AgreesOn coreId owned first second) (onCore : task.coreId = coreId)
include agrees onCore

/-- The fences a task is ordered behind depend on its core only. -/
theorem orderingOf_eq : orderingOf first task = orderingOf second task := by
  unfold orderingOf
  rw [agrees.lastFence task.participant onCore, agrees.lastPipeFence task.participant _ onCore]
  split
  · rw [agrees.lastByResource _ onCore]
  · rfl

/-- What a barrier drains depends on its core only. -/
theorem barrierOf_eq : barrierOf first task = barrierOf second task := by
  have drainsLane :
      first.resourcesByLane task.participant = second.resourcesByLane task.participant :=
    agrees.resourcesByLane onCore
  have drainsCore : first.resourcesByCore task.coreId = second.resourcesByCore task.coreId := by
    unfold SyncTables.resourcesByCore
    congr 1
    funext lane
    exact agrees.resourcesByLane onCore
  have drainsAll : fullBarrierDependencies first task = fullBarrierDependencies second task := by
    unfold fullBarrierDependencies
    rw [drainsLane, drainsCore]
  unfold barrierOf
  rw [drainsAll, drainsLane]
  split
  · rfl
  · split
    · rfl
    · rw [agrees.lastByResource _ onCore]
    · rfl
  · rfl
  · rfl

/-- The phase of a sync_all depends on its core only. -/
theorem syncAllKeyOf_eq : syncAllKeyOf first task = syncAllKeyOf second task := by
  unfold syncAllKeyOf
  cases scopeFound : syncAllScope task with
  | error failure => rfl
  | ok scope =>
    have samePhases :
        (syncAllTaskParticipants task scope).map first.syncAllPhase =
          (syncAllTaskParticipants task scope).map second.syncAllPhase := by
      refine List.map_congr_left ?_
      intro participant joins
      exact agrees.syncAllPhase participant ((syncAllTaskParticipants_onCore joins).trans onCore)
    simp only [samePhases]

/-- Recording a task on both sides keeps the agreement. -/
theorem recordTask :
    AgreesOn coreId owned (recordTask first task) (recordTask second task) where
  lastByResource resource resourceOnCore := by
    simp only [Simulator.recordTask, Function.update_apply]
    rw [agrees.lastByResource resource resourceOnCore]
  lastFence lane laneOnCore := by
    simp only [Simulator.recordTask]
    split
    · simp only [Function.update_apply]
      rw [agrees.lastFence lane laneOnCore]
    · exact agrees.lastFence lane laneOnCore
  lastPipeFence lane pipe laneOnCore := by
    simp only [Simulator.recordTask]
    cases fencedPipe task with
    | none => exact agrees.lastPipeFence lane pipe laneOnCore
    | some fenced =>
      simp only [Function.update_apply]
      rw [agrees.lastPipeFence lane pipe laneOnCore]
  syncAllPhase := agrees.syncAllPhase
  pendingSyncAll := agrees.pendingSyncAll
  entries taskId isOwned := by
    obtain ⟨ordering, barrier, phase, release⟩ := agrees.entries taskId isOwned
    simp only [Simulator.recordTask, Function.update_apply, agrees.orderingOf_eq onCore,
      agrees.barrierOf_eq onCore, agrees.pendingSyncAll task.participant onCore, ordering,
      barrier, phase, release, and_self]

end

/-- Recording a sync_all on both sides keeps the agreement. -/
theorem recordSyncAll
    (agrees : AgreesOn coreId owned first second)
    (task : Task)
    (key : SyncAllKey) :
    AgreesOn coreId owned (recordSyncAll first task key) (recordSyncAll second task key) where
  lastByResource := agrees.lastByResource
  lastFence := agrees.lastFence
  lastPipeFence := agrees.lastPipeFence
  syncAllPhase lane laneOnCore := by
    simp only [Simulator.recordSyncAll]
    rw [agrees.syncAllPhase lane laneOnCore]
  pendingSyncAll lane laneOnCore := by
    simp only [Simulator.recordSyncAll, Function.update_apply]
    rw [agrees.pendingSyncAll lane laneOnCore]
  entries taskId isOwned := by
    obtain ⟨ordering, barrier, phase, release⟩ := agrees.entries taskId isOwned
    simp only [Simulator.recordSyncAll, Function.update_apply, ordering, barrier, phase,
      release, and_self]

/-- A step of reset on both sides keeps the agreement on the task's core. -/
theorem step (agrees : AgreesOn coreId owned first second) {task : Task}
    (onCore : task.coreId = coreId) {next : SyncTables}
    (accepted : resetStep first task = .ok next) :
    ∃ other, resetStep second task = .ok other ∧ AgreesOn coreId owned next other := by
  rcases resetStep_cases accepted with ⟨isOther, rfl⟩ | ⟨key, isSyncAll, keyed, rfl⟩
  · exact ⟨Simulator.recordTask second task, by simp [resetStep, isOther], agrees.recordTask onCore⟩
  · rw [agrees.syncAllKeyOf_eq onCore] at keyed
    exact ⟨_, by simp [resetStep, isSyncAll, keyed],
      (agrees.recordTask onCore).recordSyncAll task key⟩

/-- A step of reset for another core leaves the tables of this one alone. -/
theorem step_elsewhere (elsewhere : task.coreId ≠ coreId) (foreign : ¬ owned task.taskId)
    {next : SyncTables} (accepted : resetStep first task = .ok next) :
    AgreesOn coreId owned next first := by
  have otherLane : ∀ lane : Participant, lane.coreId = coreId → lane ≠ task.participant := by
    rintro lane onCore rfl
    exact elsewhere onCore
  have recorded : AgreesOn coreId owned (Simulator.recordTask first task) first := {
    lastByResource := by
      intro resource onCore
      have differs : resource ≠ task.resource := by
        rintro rfl
        exact elsewhere onCore
      simp [Simulator.recordTask, differs]
    lastFence := by
      intro lane onCore
      simp only [Simulator.recordTask]
      split
      · rw [Function.update_of_ne (otherLane lane onCore)]
      · rfl
    lastPipeFence := by
      intro lane pipe onCore
      simp only [Simulator.recordTask]
      cases fencedPipe task with
      | none => rfl
      | some fenced =>
        refine Function.update_of_ne ?_ _ _
        intro same
        exact otherLane lane onCore (congrArg Prod.fst same)
    syncAllPhase := fun _ _ => rfl
    pendingSyncAll := fun _ _ => rfl
    entries := by
      intro taskId isOwned
      have differs : taskId ≠ task.taskId := by
        rintro rfl
        exact foreign isOwned
      simp [Simulator.recordTask, differs] }
  rcases resetStep_cases accepted with ⟨_, rfl⟩ | ⟨key, _, _, rfl⟩
  · exact recorded
  · refine AgreesOn.trans ?_ recorded
    exact {
      lastByResource := fun _ _ => rfl
      lastFence := fun _ _ => rfl
      lastPipeFence := fun _ _ _ => rfl
      syncAllPhase := by
        intro lane onCore
        have absent : lane ∉ syncAllTaskParticipants task key.scope := by
          intro joins
          exact elsewhere ((syncAllTaskParticipants_onCore joins).symm.trans onCore)
        simp [Simulator.recordSyncAll, absent]
      pendingSyncAll := by
        intro lane onCore
        simp [Simulator.recordSyncAll, Function.update_of_ne (otherLane lane onCore)]
      entries := by
        intro taskId isOwned
        have differs : taskId ≠ task.taskId := by
          rintro rfl
          exact foreign isOwned
        simp [Simulator.recordSyncAll, differs] }

end AgreesOn

variable {tasks : List Task} {first second : SyncTables}

/-- The tables of a core are built from the tasks of that core. -/
theorem buildTables_onCore (coreId : Nat) (owned : TaskId → Prop)
    (foreign : ∀ task ∈ tasks, task.coreId ≠ coreId → ¬ owned task.taskId)
    {final : SyncTables} (agrees : AgreesOn coreId owned first second)
    (accepted : buildTables first tasks = .ok final) :
    ∃ coreFinal,
      buildTables second (tasks.filter (isOnCore coreId)) = .ok coreFinal ∧
        AgreesOn coreId owned final coreFinal := by
  induction tasks generalizing first second with
  | nil =>
    simp only [buildTables, Except.ok.injEq] at accepted
    subst accepted
    exact ⟨second, rfl, agrees⟩
  | cons task rest ih =>
    have restForeign := fun other member => foreign other (List.mem_cons_of_mem _ member)
    simp only [buildTables] at accepted
    cases stepped : resetStep first task with
    | error failure => simp [stepped] at accepted
    | ok next =>
      simp only [stepped] at accepted
      by_cases onCore : task.coreId = coreId
      · obtain ⟨other, otherStepped, agreesNext⟩ := agrees.step onCore stepped
        rw [List.filter_cons_of_pos (by simp [isOnCore, onCore])]
        simp only [buildTables, otherStepped]
        exact ih restForeign agreesNext accepted
      · have unchanged :=
          AgreesOn.step_elsewhere onCore (foreign task List.mem_cons_self onCore) stepped
        rw [List.filter_cons_of_neg (by simp [isOnCore, onCore])]
        exact ih restForeign (unchanged.trans agrees) accepted

/-- The tables are built if those of every core are. -/
theorem buildTables_accepted {tables : SyncTables}
    (accepted :
      ∀ coreId,
        ∃ coreTables coreFinal,
          AgreesOn coreId (fun _ => False) coreTables tables ∧
            buildTables coreTables (tasks.filter (isOnCore coreId)) = .ok coreFinal) :
    ∃ final, buildTables tables tasks = .ok final := by
  induction tasks generalizing tables with
  | nil => exact ⟨tables, rfl⟩
  | cons task rest ih =>
    obtain ⟨coreTables, coreFinal, agrees, built⟩ := accepted task.coreId
    rw [List.filter_cons_of_pos (by simp [isOnCore])] at built
    simp only [buildTables] at built
    cases coreStepped : resetStep coreTables task with
    | error failure => simp [coreStepped] at built
    | ok coreNext =>
      simp only [coreStepped] at built
      obtain ⟨next, stepped, agreesNext⟩ := agrees.step rfl coreStepped
      simp only [buildTables, stepped]
      refine ih ?_
      intro coreId
      by_cases sameCore : task.coreId = coreId
      · subst sameCore
        exact ⟨coreNext, coreFinal, agreesNext, built⟩
      · obtain ⟨otherTables, otherFinal, otherAgrees, otherBuilt⟩ := accepted coreId
        rw [List.filter_cons_of_neg (by simp [isOnCore, sameCore])] at otherBuilt
        refine ⟨otherTables, otherFinal, ?_, otherBuilt⟩
        exact otherAgrees.trans (AgreesOn.step_elsewhere sameCore id stepped).symm

/-! ## The model of a reordered program -/

/-- Whether an identifier is that of a task of a core. -/
def KernelProgram.OwnsOn (program : KernelProgram) (coreId : Nat) (taskId : TaskId) : Prop :=
  ∃ task ∈ program.tasks, task.coreId = coreId ∧ task.taskId = taskId

/-- Tables that agree on every core, and on all entries, are equal. -/
theorem SyncTables.eq_of_agrees
    (agrees : ∀ coreId, ∃ owned : TaskId → Prop, AgreesOn coreId owned first second)
    (entries :
      ∀ taskId,
        first.orderingDependencies taskId = second.orderingDependencies taskId ∧
          first.barrierDependencies taskId = second.barrierDependencies taskId ∧
          first.syncAllTaskPhase taskId = second.syncAllTaskPhase taskId ∧
          first.syncAllReleaseDependencies taskId = second.syncAllReleaseDependencies taskId) :
    first = second := by
  have onResource : first.lastByResource = second.lastByResource := by
    funext resource
    obtain ⟨owned, agreesThere⟩ := agrees resource.coreId
    exact agreesThere.lastByResource resource rfl
  have fences : first.lastFence = second.lastFence := by
    funext lane
    obtain ⟨owned, agreesThere⟩ := agrees lane.coreId
    exact agreesThere.lastFence lane rfl
  have pipeFences : first.lastPipeFence = second.lastPipeFence := by
    funext ⟨lane, pipe⟩
    obtain ⟨owned, agreesThere⟩ := agrees lane.coreId
    exact agreesThere.lastPipeFence lane pipe rfl
  have phases : first.syncAllPhase = second.syncAllPhase := by
    funext lane
    obtain ⟨owned, agreesThere⟩ := agrees lane.coreId
    exact agreesThere.syncAllPhase lane rfl
  have pending : first.pendingSyncAll = second.pendingSyncAll := by
    funext lane
    obtain ⟨owned, agreesThere⟩ := agrees lane.coreId
    exact agreesThere.pendingSyncAll lane rfl
  have ordering : first.orderingDependencies = second.orderingDependencies :=
    funext fun taskId => (entries taskId).1
  have barrier : first.barrierDependencies = second.barrierDependencies :=
    funext fun taskId => (entries taskId).2.1
  have taskPhase : first.syncAllTaskPhase = second.syncAllTaskPhase :=
    funext fun taskId => (entries taskId).2.2.1
  have release : first.syncAllReleaseDependencies = second.syncAllReleaseDependencies :=
    funext fun taskId => (entries taskId).2.2.2
  cases first
  cases second
  simp_all

namespace Reordered

variable {program permuted : KernelProgram}

/-- Reordering cores does not change the tables. -/
theorem buildTables_eq (reordered : Reordered program permuted) {tables : SyncTables}
    (built : buildTables {} program.tasks = .ok tables) :
    buildTables {} permuted.tasks = .ok tables := by
  have accepted : ∃ final, buildTables {} permuted.tasks = .ok final := by
    refine buildTables_accepted ?_
    intro coreId
    obtain ⟨coreFinal, coreBuilt, _⟩ :=
      buildTables_onCore coreId (fun _ => False) (fun _ _ _ => id) (AgreesOn.refl {}) built
    exact ⟨{}, coreFinal, AgreesOn.refl {}, by rwa [reordered.onCore_eq]⟩
  obtain ⟨final, finalBuilt⟩ := accepted
  have agrees : ∀ coreId, AgreesOn coreId (program.OwnsOn coreId) final tables := by
    intro coreId
    have foreign :
        ∀ task ∈ program.tasks, task.coreId ≠ coreId → ¬ program.OwnsOn coreId task.taskId := by
      rintro task isTask elsewhere ⟨other, otherIsTask, onCore, sameId⟩
      rw [eq_of_key_eq program.taskIds_nodup otherIsTask isTask sameId] at onCore
      exact elsewhere onCore
    obtain ⟨coreFinal, coreBuilt, agreesHere⟩ :=
      buildTables_onCore coreId _ foreign (AgreesOn.refl {}) built
    obtain ⟨otherFinal, otherBuilt, agreesThere⟩ :=
      buildTables_onCore coreId (program.OwnsOn coreId)
        (fun task member => foreign task (reordered.tasks_perm.mem_iff.mp member))
        (AgreesOn.refl {}) finalBuilt
    rw [reordered.onCore_eq, coreBuilt, Except.ok.injEq] at otherBuilt
    subst otherBuilt
    exact agreesThere.trans agreesHere.symm
  have same : final = tables := by
    refine SyncTables.eq_of_agrees (fun coreId => ⟨_, agrees coreId⟩) ?_
    intro taskId
    by_cases present : ∃ task ∈ program.tasks, task.taskId = taskId
    · obtain ⟨task, isTask, identified⟩ := present
      exact (agrees task.coreId).entries taskId ⟨task, isTask, rfl, identified⟩
    · have absent : taskId ∉ program.tasks.map Task.taskId := by
        simpa using present
      have absentThere : taskId ∉ permuted.tasks.map Task.taskId := by
        rwa [(reordered.tasks_perm.map Task.taskId).mem_iff]
      obtain ⟨ordering, barrier, phase, release⟩ := buildTables_other finalBuilt absentThere
      obtain ⟨orderingHere, barrierHere, phaseHere, releaseHere⟩ := buildTables_other built absent
      exact ⟨ordering.trans orderingHere.symm, barrier.trans barrierHere.symm,
        phase.trans phaseHere.symm, release.trans releaseHere.symm⟩
  rw [finalBuilt, same]

/-- Reordering cores keeps the modes declared for a flag. -/
theorem mem_waitModes_iff (reordered : Reordered program permuted) (key : WaitModeKey)
    (mode : CrossMode) :
    mode ∈ waitModes permuted.tasks key ↔ mode ∈ waitModes program.tasks key := by
  simp only [mem_waitModes, reordered.tasks_perm.mem_iff]

variable {syncConfig : SyncConfig} {model : FlagBarrierModel}

section

variable (reordered : Reordered program permuted)
include reordered

/-- A reordered program passes the same validation. -/
theorem validated (accepted : AcceptedModel syncConfig program model) :
    validateProgram permuted.tasks = .ok () := by
  have checked : permuted.tasks.forM validateSyncTask = .ok () := by
    refine forM_of_ok ?_
    intro task isTask
    exact accepted.task_validated (reordered.tasks_perm.mem_iff.mp isTask)
  have clear : permuted.tasks.find? (ambiguousModes permuted.tasks) = none := by
    rw [List.find?_eq_none]
    intro task isTask
    have clearHere := accepted.unambiguous (reordered.tasks_perm.mem_iff.mp isTask)
    unfold ambiguousModes at clearHere ⊢
    cases declares : declaredWaitMode task with
    | none => simp
    | some declared =>
      rw [declares] at clearHere
      simp only [Bool.or_eq_false_iff, Bool.and_eq_false_iff, List.any_eq_false,
        ← reordered.mem_waitModes_iff] at clearHere
      simpa only [Bool.not_eq_true, Bool.or_eq_false_iff, Bool.and_eq_false_iff,
        List.any_eq_false] using clearHere
  simp [validateProgram, checked, clear, bind, Except.bind]

/-- Reordering cores keeps the mode of every cross wait. -/
theorem crossWaitModes_eq (accepted : AcceptedModel syncConfig program model) :
    (fun key => (waitModes permuted.tasks key).head?) = model.crossWaitModes := by
  rw [accepted.crossWaitModes]
  funext key
  cases found : (waitModes program.tasks key).head? with
  | none =>
    rw [List.head?_eq_none_iff] at found ⊢
    rw [List.eq_nil_iff_forall_not_mem] at found ⊢
    intro mode
    rw [reordered.mem_waitModes_iff]
    exact found mode
  | some mode =>
    have declared := List.mem_of_head? found
    cases foundThere : (waitModes permuted.tasks key).head? with
    | none =>
      rw [List.head?_eq_none_iff] at foundThere
      rw [← reordered.mem_waitModes_iff, foundThere] at declared
      cases declared
    | some other =>
      have otherDeclared :=
        (reordered.mem_waitModes_iff key other).mp (List.mem_of_head? foundThere)
      rw [accepted.modes_agree declared otherDeclared (Or.inl rfl)]

/-- Reordering cores keeps the sorted list of cores. -/
theorem coreIds_eq :
    (permuted.cores.map CoreProgram.coreId).insertionSort (· ≤ ·) =
      (program.cores.map CoreProgram.coreId).insertionSort (· ≤ ·) := by
  have samePerm := reordered.cores.map CoreProgram.coreId
  have sortedPerm :
      ((permuted.cores.map CoreProgram.coreId).insertionSort (· ≤ ·)).Perm
        ((program.cores.map CoreProgram.coreId).insertionSort (· ≤ ·)) :=
    ((List.perm_insertionSort _ _).trans samePerm).trans (List.perm_insertionSort _ _).symm
  exact sortedPerm.eq_of_pairwise' (List.pairwise_insertionSort _ _)
    (List.pairwise_insertionSort _ _)

/-- Reset of a reordered program gives the same model with the tasks reordered. -/
theorem reset_eq (accepted : reset syncConfig program = .ok model) :
    reset syncConfig permuted = .ok { model with tasks := permuted.tasks } := by
  obtain ⟨acceptedModel, fresh⟩ := reset_accepted accepted
  unfold reset
  rw [reordered.validated acceptedModel, reordered.buildTables_eq acceptedModel.built,
    reordered.crossWaitModes_eq acceptedModel, reordered.coreIds_eq, ← acceptedModel.coreIds,
    ← acceptedModel.config, ← fresh]

end

end Reordered

end TilelangAscend.Simulator
