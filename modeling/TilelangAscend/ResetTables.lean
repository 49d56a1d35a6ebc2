import TilelangAscend.SchedulerRun

namespace TilelangAscend.Simulator

open ListHistory

/-!
# The tables of an accepted program

`reset` fills its tables in one scan.  This module says what the scan state contains
after a part of the program (`TablesDescribe`) and reads off the entries that a task
finally has: the latest fence of its lane, the tails that a barrier drains, the
rendezvous that releases it and the phase of a `sync_all`.
-/

/-- Participants that a `sync_all` joins. -/
def syncAllJoins (task : Task) : List Participant :=
  match syncAllScope task with
  | .ok scope => syncAllTaskParticipants task scope
  | .error _ => []

/-- Whether a task is a `sync_all` issued on a lane. -/
def isSyncAllOn (lane : Participant) (task : Task) : Bool :=
  task.operation = .syncAll ∧ task.participant = lane

/-- Whether a task is a `sync_all` that a participant joins. -/
def isSyncAllJoining (participant : Participant) (task : Task) : Bool :=
  task.operation = .syncAll ∧ participant ∈ syncAllJoins task

/-- Whether a task fences a lane. -/
def isFenceOn (lane : Participant) (task : Task) : Bool :=
  isLaneFence task ∧ task.participant = lane

/-- The scan state after a list of tasks. -/
structure TablesDescribe
    (scanned : List Task)
    (tables : SyncTables) :
    Prop where
  lastByResource : tables.lastByResource = lastOnResource scanned
  lastFence :
    ∀ lane, tables.lastFence lane = (lastWhere (isFenceOn lane) scanned).map Task.taskId
  pendingSyncAll :
    ∀ lane,
      tables.pendingSyncAll lane =
        (lastWhere (isSyncAllOn lane) scanned).bind fun task => tables.syncAllTaskPhase task.taskId
  syncAllPhase :
    ∀ participant, tables.syncAllPhase participant = scanned.countP (isSyncAllJoining participant)

/-! ## One iteration of the scan -/

variable {tables next final : SyncTables} {task : Task} {taskId : TaskId}
  {before after : List Task}

theorem resetStep_cases (accepted : resetStep tables task = .ok next) :
    (task.operation ≠ .syncAll ∧ next = recordTask tables task) ∨
      ∃ key,
        task.operation = .syncAll ∧ syncAllKeyOf tables task = .ok key ∧
          next = recordSyncAll (recordTask tables task) task key := by
  unfold resetStep at accepted
  by_cases isSyncAll : task.operation = .syncAll
  · simp only [isSyncAll, ↓reduceIte] at accepted
    cases keyed : syncAllKeyOf tables task with
    | error failure => simp [keyed] at accepted
    | ok key =>
      simp only [keyed, Except.ok.injEq] at accepted
      exact Or.inr ⟨key, isSyncAll, rfl, accepted.symm⟩
  · simp only [isSyncAll, ↓reduceIte, Except.ok.injEq] at accepted
    exact Or.inl ⟨isSyncAll, accepted.symm⟩

theorem syncAllKeyOf_ok {key : SyncAllKey} (keyed : syncAllKeyOf tables task = .ok key) :
    syncAllScope task = .ok key.scope ∧
      ∀ participant ∈ syncAllJoins task, tables.syncAllPhase participant = key.phase := by
  unfold syncAllKeyOf at keyed
  cases scopeFound : syncAllScope task with
  | error failure => simp [scopeFound] at keyed
  | ok scope =>
    simp only [scopeFound] at keyed
    cases phases : (syncAllTaskParticipants task scope).map tables.syncAllPhase with
    | nil => simp [phases, reject] at keyed
    | cons phase others =>
      simp only [phases] at keyed
      by_cases agree : others.all (· = phase)
      · simp only [agree, ↓reduceIte, Except.ok.injEq] at keyed
        subst keyed
        refine ⟨rfl, ?_⟩
        intro participant member
        simp only [syncAllJoins, scopeFound] at member
        have inPhases : tables.syncAllPhase participant ∈ phase :: others := by
          rw [← phases]
          exact List.mem_map_of_mem member
        rcases List.mem_cons.mp inPhases with isFirst | inOthers
        · exact isFirst
        · have same := List.all_eq_true.mp agree _ inOthers
          simpa using same
      · simp [agree, reject] at keyed

theorem resetStep_other (accepted : resetStep tables task = .ok next)
    (differs : taskId ≠ task.taskId) :
    next.orderingDependencies taskId = tables.orderingDependencies taskId ∧
      next.barrierDependencies taskId = tables.barrierDependencies taskId ∧
      next.syncAllTaskPhase taskId = tables.syncAllTaskPhase taskId ∧
      next.syncAllReleaseDependencies taskId = tables.syncAllReleaseDependencies taskId := by
  rcases resetStep_cases accepted with ⟨_, rfl⟩ | ⟨key, _, _, rfl⟩
  · simp [recordTask, Function.update_of_ne differs]
  · simp [recordSyncAll, recordTask, Function.update_of_ne differs]

theorem resetStep_self (accepted : resetStep tables task = .ok next) :
    next.orderingDependencies task.taskId = orderingOf tables task ∧
      next.barrierDependencies task.taskId = barrierOf tables task ∧
      next.syncAllReleaseDependencies task.taskId = tables.pendingSyncAll task.participant := by
  rcases resetStep_cases accepted with ⟨_, rfl⟩ | ⟨key, _, _, rfl⟩
  · simp [recordTask]
  · simp [recordSyncAll, recordTask]

theorem resetStep_syncAll (accepted : resetStep tables task = .ok next)
    (isSyncAll : task.operation = .syncAll) :
    ∃ key,
      syncAllKeyOf tables task = .ok key ∧ next.syncAllTaskPhase task.taskId = some key := by
  rcases resetStep_cases accepted with ⟨isOther, _⟩ | ⟨key, _, keyed, rfl⟩
  · exact (isOther isSyncAll).elim
  · exact ⟨key, keyed, by simp [recordSyncAll]⟩

/-- A step of reset keeps the description of its tables. -/
theorem TablesDescribe.step {scanned : List Task} {tables next : SyncTables} {task : Task}
    (describes : TablesDescribe scanned tables) (unique : task.taskId ∉ scanned.map Task.taskId)
    (accepted : resetStep tables task = .ok next) : TablesDescribe (scanned ++ [task]) next := by
  have shared :
      next.lastByResource = (recordTask tables task).lastByResource ∧
        next.lastFence = (recordTask tables task).lastFence := by
    rcases resetStep_cases accepted with ⟨_, rfl⟩ | ⟨key, _, _, rfl⟩
    · exact ⟨rfl, rfl⟩
    · exact ⟨rfl, rfl⟩
  refine {
    lastByResource := ?_
    lastFence := ?_
    pendingSyncAll := ?_
    syncAllPhase := ?_ }
  · rw [shared.1]
    simp only [recordTask, describes.lastByResource]
    exact (lastWhere_update Task.resource Task.taskId scanned task).symm
  · intro lane
    rw [shared.2, lastWhere_snoc]
    by_cases fences : isLaneFence task
    · by_cases sameLane : task.participant = lane
      · subst sameLane
        simp [recordTask, fences, isFenceOn]
      · have laneDiffers : lane ≠ task.participant := fun same => sameLane same.symm
        simp [recordTask, fences, isFenceOn, sameLane, Function.update_of_ne laneDiffers,
          describes.lastFence]
    · simp [recordTask, fences, isFenceOn, describes.lastFence]
  · intro lane
    have earlierPhases :
        ∀ earlier, lastWhere (isSyncAllOn lane) scanned = some earlier →
          next.syncAllTaskPhase earlier.taskId = tables.syncAllTaskPhase earlier.taskId := by
      intro earlier isLatest
      obtain ⟨before, after, shape, _⟩ := lastWhere_eq_some isLatest
      have differs : earlier.taskId ≠ task.taskId := by
        intro same
        refine unique ?_
        rw [← same, shape]
        simp
      exact (resetStep_other accepted differs).2.2.1
    have keepsEarlier :
        (lastWhere (isSyncAllOn lane) scanned).bind
            (fun earlier => next.syncAllTaskPhase earlier.taskId) =
          tables.pendingSyncAll lane := by
      rw [describes.pendingSyncAll lane]
      cases latest : lastWhere (isSyncAllOn lane) scanned with
      | none => rfl
      | some earlier => exact earlierPhases earlier latest
    rw [lastWhere_snoc]
    rcases resetStep_cases accepted with ⟨isOther, nextShape⟩ | ⟨key, isSyncAll, _, nextShape⟩
    · have notLatest : isSyncAllOn lane task = false := by
        simp [isSyncAllOn, isOther]
      rw [notLatest]
      simp only [Bool.false_eq_true, ↓reduceIte]
      rw [keepsEarlier, nextShape]
      rfl
    · by_cases sameLane : task.participant = lane
      · have isLatest : isSyncAllOn lane task = true := by
          simp [isSyncAllOn, isSyncAll, sameLane]
        rw [isLatest, nextShape]
        simp [recordSyncAll, sameLane]
      · have notLatest : isSyncAllOn lane task = false := by
          simp [isSyncAllOn, sameLane]
        have laneDiffers : lane ≠ task.participant := fun same => sameLane same.symm
        rw [notLatest]
        simp only [Bool.false_eq_true, ↓reduceIte]
        rw [keepsEarlier, nextShape]
        simp [recordSyncAll, recordTask, Function.update_of_ne laneDiffers]
  · intro participant
    rw [List.countP_append, List.countP_singleton, ← describes.syncAllPhase participant]
    rcases resetStep_cases accepted with ⟨isOther, nextShape⟩ | ⟨key, isSyncAll, keyed, nextShape⟩
    · rw [nextShape]
      simp [recordTask, isSyncAllJoining, isOther]
    · have scopeFound := (syncAllKeyOf_ok keyed).1
      rw [nextShape]
      by_cases joins : participant ∈ syncAllTaskParticipants task key.scope
      · simp [recordSyncAll, recordTask, isSyncAllJoining, syncAllJoins, isSyncAll, scopeFound,
          joins]
      · simp [recordSyncAll, recordTask, isSyncAllJoining, syncAllJoins, isSyncAll, scopeFound,
          joins]

/-! ## The whole scan -/

theorem buildTables_append (accepted : buildTables tables (before ++ after) = .ok final) :
    ∃ middle, buildTables tables before = .ok middle ∧ buildTables middle after = .ok final := by
  induction before generalizing tables with
  | nil => exact ⟨tables, rfl, accepted⟩
  | cons task rest ih =>
    simp only [List.cons_append, buildTables] at accepted ⊢
    cases stepped : resetStep tables task with
    | error failure => simp [stepped] at accepted
    | ok next =>
      simp only [stepped] at accepted ⊢
      exact ih accepted

/-- The tables of a task are not changed by later tasks. -/
theorem buildTables_other {rest : List Task} (accepted : buildTables tables rest = .ok final)
    (absent : taskId ∉ rest.map Task.taskId) :
    final.orderingDependencies taskId = tables.orderingDependencies taskId ∧
      final.barrierDependencies taskId = tables.barrierDependencies taskId ∧
      final.syncAllTaskPhase taskId = tables.syncAllTaskPhase taskId ∧
      final.syncAllReleaseDependencies taskId = tables.syncAllReleaseDependencies taskId := by
  induction rest generalizing tables with
  | nil =>
    simp only [buildTables, Except.ok.injEq] at accepted
    simp [accepted]
  | cons task rest ih =>
    simp only [List.map_cons, List.mem_cons, not_or] at absent
    simp only [buildTables] at accepted
    cases stepped : resetStep tables task with
    | error failure => simp [stepped] at accepted
    | ok next =>
      simp only [stepped] at accepted
      obtain ⟨ordering, barrier, phase, release⟩ := ih accepted absent.2
      obtain ⟨orderingStep, barrierStep, phaseStep, releaseStep⟩ := resetStep_other stepped absent.1
      exact ⟨ordering.trans orderingStep, barrier.trans barrierStep,
        phase.trans phaseStep, release.trans releaseStep⟩

/-- The tables describe the tasks that were scanned. -/
theorem buildTables_describes {scanned : List Task} (unique : (scanned.map Task.taskId).Nodup)
    (accepted : buildTables {} scanned = .ok tables) : TablesDescribe scanned tables := by
  induction scanned using List.reverseRecOn generalizing tables with
  | nil =>
    simp only [buildTables, Except.ok.injEq] at accepted
    subst accepted
    exact {
      lastByResource := rfl
      lastFence := fun _ => rfl
      pendingSyncAll := fun _ => rfl
      syncAllPhase := fun _ => rfl }
  | append_singleton rest task ih =>
    obtain ⟨middle, built, lastBuilt⟩ := buildTables_append accepted
    rw [List.map_append, List.nodup_append] at unique
    have describes := ih unique.1 built
    have absent : task.taskId ∉ rest.map Task.taskId := by
      intro member
      exact unique.2.2 _ member task.taskId (by simp) rfl
    simp only [buildTables] at lastBuilt
    cases stepped : resetStep middle task with
    | error failure => simp [stepped] at lastBuilt
    | ok next =>
      simp only [stepped, Except.ok.injEq] at lastBuilt
      rw [← lastBuilt]
      exact describes.step absent stepped

/-- The final entries of a task, computed from the scan state before it. -/
structure TaskEntries
    (final : SyncTables)
    (before : List Task)
    (task : Task) where
  tables : SyncTables
  describes : TablesDescribe before tables
  ordering : final.orderingDependencies task.taskId = orderingOf tables task
  barrier : final.barrierDependencies task.taskId = barrierOf tables task
  release :
    final.syncAllReleaseDependencies task.taskId =
      (lastWhere (isSyncAllOn task.participant) before).bind fun earlier =>
        final.syncAllTaskPhase earlier.taskId
  phase :
    task.operation = .syncAll →
    ∃ key, syncAllKeyOf tables task = .ok key ∧ final.syncAllTaskPhase task.taskId = some key

/-- Each task has the entries that the tasks before it give. -/
theorem buildTables_entries {tasks : List Task} (unique : (tasks.map Task.taskId).Nodup)
    (accepted : buildTables {} tasks = .ok final) (shape : tasks = before ++ task :: after) :
    Nonempty (TaskEntries final before task) := by
  subst shape
  obtain ⟨middle, built, restBuilt⟩ := buildTables_append accepted
  simp only [buildTables] at restBuilt
  cases stepped : resetStep middle task with
  | error failure => simp [stepped] at restBuilt
  | ok next =>
    simp only [stepped] at restBuilt
    rw [List.map_append, List.map_cons, List.nodup_append] at unique
    have describes := buildTables_describes unique.1 built
    have absentAfter : task.taskId ∉ after.map Task.taskId := (List.nodup_cons.mp unique.2.1).1
    obtain ⟨ordering, barrier, phase, release⟩ := buildTables_other restBuilt absentAfter
    obtain ⟨orderingStep, barrierStep, releaseStep⟩ := resetStep_self stepped
    refine ⟨{
      tables := middle
      describes := describes
      ordering := ordering.trans orderingStep
      barrier := barrier.trans barrierStep
      release := ?_
      phase := ?_ }⟩
    · rw [release, releaseStep, describes.pendingSyncAll]
      cases latest : lastWhere (isSyncAllOn task.participant) before with
      | none => rfl
      | some earlier =>
        obtain ⟨older, newer, beforeShape, _⟩ := lastWhere_eq_some latest
        have inBefore : earlier.taskId ∈ before.map Task.taskId := by
          rw [beforeShape]
          simp
        have notTask : earlier.taskId ≠ task.taskId := by
          intro same
          exact unique.2.2 _ inBefore task.taskId (by simp) same
        have notAfter : earlier.taskId ∉ after.map Task.taskId := by
          intro inAfter
          exact unique.2.2 _ inBefore earlier.taskId (List.mem_cons_of_mem _ inAfter) rfl
        simp only [Option.bind_some]
        rw [(buildTables_other restBuilt notAfter).2.2.1, (resetStep_other stepped notTask).2.2.1]
    · intro isSyncAll
      obtain ⟨key, keyed, phaseStep⟩ := resetStep_syncAll stepped isSyncAll
      exact ⟨key, keyed, phase.trans phaseStep⟩

end TilelangAscend.Simulator
