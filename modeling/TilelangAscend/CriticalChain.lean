import Mathlib
import TilelangAscend.ScheduleValidity

namespace TilelangAscend.Simulator

/-!
# The critical chain of a report

`_critical_chain` starts at the operation that ends last and walks back along the
critical predecessors that the scheduler recorded, always to the one that ends latest.
The names of operations, which it only copies into its steps, are left out.
-/

/-- Kinds of scheduling edges, in the order of their names. -/
inductive EdgeKind where
  | explicit
  | fifo
  | synchronization
  deriving Repr, DecidableEq

/-- Position of the name of a kind among the names. -/
def EdgeKind.rank : EdgeKind → Nat
  | .explicit => 0
  | .fifo => 1
  | .synchronization => 2

/-- The edges of a record with their kinds. -/
def PredecessorEdges.items (edges : PredecessorEdges) : List (EdgeKind × TaskId) :=
  edges.explicit.map (fun taskId => (EdgeKind.explicit, taskId)) ++
    edges.fifo.map (fun taskId => (EdgeKind.fifo, taskId)) ++
    edges.synchronization.map fun taskId => (EdgeKind.synchronization, taskId)

/-- `duration_cycles` of a record. -/
def ExecutionRecord.durationCycles (record : ExecutionRecord) : Nat :=
  record.endCycle - record.startCycle

/-- The table `operations`: the last operation record of each identifier. -/
def operationTable (records : List ExecutionRecord) : Completed :=
  fun taskId => (records.filter (isOperationOf taskId)).getLast?

/-- Keys of the table `operations`, in the order of their first records. -/
def operationIds (records : List ExecutionRecord) : List TaskId :=
  ((records.filter (·.category = .operation)).map ExecutionRecord.taskId).eraseDups

/-- Sort key with which the last operation is chosen. -/
def terminalKey (record : ExecutionRecord) : Nat ×ₗ (Nat ×ₗ String) :=
  toLex (record.endCycle, toLex (record.startCycle, record.taskId))

/-- The operation that ends last. -/
def terminalOperation (records : List ExecutionRecord) : Option ExecutionRecord :=
  ((operationIds records).filterMap (operationTable records)).argmax terminalKey

/-- An entry of the reversed chain: a record and its edge to the record after it. -/
structure ChainEntry where
  record : ExecutionRecord
  toSuccessor : EdgeKind
  deriving Repr, DecidableEq

/-- Sort key with which a predecessor is chosen. -/
def candidateKey (entry : ChainEntry) : Nat ×ₗ (Nat ×ₗ String) :=
  toLex (entry.record.endCycle, toLex (entry.toSuccessor.rank, entry.record.taskId))

/-- The list `candidates` of one round. -/
def chainCandidates (operations : Completed) (visited : List TaskId)
    (current : ExecutionRecord) : List ChainEntry :=
  current.metadata.criticalPredecessors.items.filterMap fun item =>
    match operations item.2 with
    | none => none
    | some predecessor =>
      if predecessor.taskId ∉ visited ∧ predecessor.endCycle ≤ current.startCycle then
        some { record := predecessor, toSuccessor := item.1 }
      else
        none

/-- The predecessor that one round chooses. -/
def chooseCandidate (operations : Completed) (visited : List TaskId)
    (current : ExecutionRecord) : Option ChainEntry :=
  (chainCandidates operations visited current).argmax candidateKey

/--
The loop of `_critical_chain`, from the last operation backwards.  Every round visits a
new operation, so as many rounds as there are operations suffice.
-/
def walkBack
    (operations : Completed) :
    Nat → List TaskId → ExecutionRecord → List ChainEntry
  | 0, _, _ => []
  | fuel + 1, visited, current =>
    match chooseCandidate operations visited current with
    | none => []
    | some entry =>
      entry ::
        walkBack operations fuel (entry.record.taskId :: visited) entry.record

/-- A step of the reported chain. -/
structure ChainStep where
  taskId : TaskId
  resource : ResourceKey
  startCycle : Nat
  endCycle : Nat
  durationCycles : Nat
  toSuccessor : Option EdgeKind
  deriving Repr, DecidableEq

/-- The step that describes a record. -/
def chainStep
    (record : ExecutionRecord)
    (toSuccessor : Option EdgeKind) :
    ChainStep where
  taskId := record.taskId
  resource := record.resource
  startCycle := record.startCycle
  endCycle := record.endCycle
  durationCycles := record.durationCycles
  toSuccessor := toSuccessor

/-- A schedule-derived critical chain. -/
structure CriticalChain where
  terminalTaskId : TaskId
  spanCycles : Nat
  operationCycles : Nat
  steps : List ChainStep
  deriving Repr, DecidableEq

/-- Entries of the reversed chain as steps, first operation first. -/
def chainSteps (terminal : ExecutionRecord) (entries : List ChainEntry) : List ChainStep :=
  (entries.map fun entry => chainStep entry.record (some entry.toSuccessor)).reverse ++
    [chainStep terminal none]

/-- The operation at which the chain starts. -/
def firstOperation (terminal : ExecutionRecord) (entries : List ChainEntry) : ExecutionRecord :=
  (entries.getLast?.map ChainEntry.record).getD terminal

/-- `_critical_chain`; `none` is the status `unavailable`. -/
def criticalChain (records : List ExecutionRecord) : Option CriticalChain :=
  match terminalOperation records with
  | none => none
  | some terminal =>
    let entries :=
      walkBack (operationTable records) (operationIds records).length [terminal.taskId] terminal
    some
      { terminalTaskId := terminal.taskId
        spanCycles := terminal.endCycle - (firstOperation terminal entries).startCycle
        operationCycles :=
          ((terminal :: entries.map ChainEntry.record).map ExecutionRecord.durationCycles).sum
        steps := chainSteps terminal entries }

/-- What a report promises of the chain of a schedule. -/
structure GapFree
    (result : ScheduleResult)
    (chain : CriticalChain) :
    Prop where
  /-- Every step is the operation of a task. -/
  operations :
    ∀ step ∈ chain.steps,
      ∃ record,
        result.operation? step.taskId = some record ∧ step = chainStep record step.toSuccessor
  /-- The chain starts at cycle 0. -/
  startsAtZero :
    ∃ first, chain.steps.head? = some first ∧ first.startCycle = 0
  /-- The chain ends at the latest end. -/
  endsLatest :
    ∃ last,
      chain.steps.getLast? = some last ∧ last.endCycle = result.makespanCycles ∧
        ∀ record ∈ result.records, record.endCycle ≤ last.endCycle
  /-- Each step ends where the next one starts. -/
  adjacent :
    chain.steps.IsChain fun step next => step.endCycle = next.startCycle
  spanIsMakespan : chain.spanCycles = result.makespanCycles
  workIsMakespan : chain.operationCycles = result.makespanCycles

/-! ## The walk -/

/-- A walk that ends where no predecessor is left. -/
inductive Walk
    (operations : Completed) :
    List TaskId → ExecutionRecord → List ChainEntry → Prop where
  | stop
      {visited : List TaskId}
      {current : ExecutionRecord} :
      chooseCandidate operations visited current = none →
      Walk operations visited current []
  | step
      {visited : List TaskId}
      {current : ExecutionRecord}
      {entry : ChainEntry}
      {rest : List ChainEntry} :
      chooseCandidate operations visited current = some entry →
      Walk operations (entry.record.taskId :: visited) entry.record rest →
      Walk operations visited current (entry :: rest)

section Walk

variable {operations : Completed} {visited : List TaskId} {current : ExecutionRecord}
  {entry : ChainEntry} {entries : List ChainEntry}

theorem mem_chainCandidates :
    entry ∈ chainCandidates operations visited current ↔
      ∃ taskId,
        (entry.toSuccessor, taskId) ∈ current.metadata.criticalPredecessors.items ∧
          operations taskId = some entry.record ∧
          entry.record.taskId ∉ visited ∧
          entry.record.endCycle ≤ current.startCycle := by
  unfold chainCandidates
  rw [List.mem_filterMap]
  constructor
  · rintro ⟨⟨kind, taskId⟩, member, chosen⟩
    cases found : operations taskId with
    | none => simp [found] at chosen
    | some predecessor =>
      simp only [found, Option.ite_none_right_eq_some, Option.some.injEq] at chosen
      obtain ⟨⟨fresh, ends⟩, rfl⟩ := chosen
      exact ⟨taskId, member, found, fresh, ends⟩
  · rintro ⟨taskId, member, found, fresh, ends⟩
    refine ⟨(entry.toSuccessor, taskId), member, ?_⟩
    simp [found, fresh, ends]

theorem chooseCandidate_mem (chosen : chooseCandidate operations visited current = some entry) :
    entry ∈ chainCandidates operations visited current :=
  List.argmax_mem (Option.mem_def.mpr chosen)

theorem endCycle_le_chosen {candidate : ChainEntry}
    (chosen : chooseCandidate operations visited current = some entry)
    (member : candidate ∈ chainCandidates operations visited current) :
    candidate.record.endCycle ≤ entry.record.endCycle := by
  have ordered : candidateKey candidate ≤ candidateKey entry :=
    List.le_of_mem_argmax member (Option.mem_def.mpr chosen)
  rcases (Prod.Lex.le_iff (x := candidateKey candidate) (y := candidateKey entry)).mp ordered with
      earlier | ⟨same, _⟩
  · exact le_of_lt earlier
  · exact le_of_eq same

theorem walkBack_walk {keys : List TaskId}
    (keyed :
      ∀ taskId record, operations taskId = some record → record.taskId = taskId ∧ taskId ∈ keys)
    {fuel : Nat}
    (distinct : visited.Nodup)
    (areKeys : ∀ taskId ∈ visited, taskId ∈ keys)
    (enough : keys.length < fuel + visited.length) :
    Walk operations visited current (walkBack operations fuel visited current) := by
  induction fuel generalizing visited current with
  | zero =>
    have bounded : visited.length ≤ keys.length :=
      (List.subperm_of_subset distinct areKeys).length_le
    omega
  | succ fuel ih =>
    unfold walkBack
    cases chosen : chooseCandidate operations visited current with
    | none => exact .stop chosen
    | some entry =>
      obtain ⟨taskId, _, found, fresh, _⟩ := mem_chainCandidates.mp (chooseCandidate_mem chosen)
      have isKey : entry.record.taskId ∈ keys := by
        obtain ⟨same, member⟩ := keyed taskId entry.record found
        rw [same]
        exact member
      refine .step chosen (ih ?_ ?_ ?_)
      · exact List.nodup_cons.mpr ⟨fresh, distinct⟩
      · intro other member
        rcases List.mem_cons.mp member with rfl | earlier
        · exact isKey
        · exact areKeys other earlier
      · rw [List.length_cons]
        omega

/-- A walk without a gap: each record ends where the one before it starts, down to 0. -/
def Tight : ExecutionRecord → List ChainEntry → Prop
  | current, [] => current.startCycle = 0
  | current, entry :: rest => entry.record.endCycle = current.startCycle ∧ Tight entry.record rest

/-- What makes the start of a record the end of a recorded predecessor, unless it is 0. -/
def Explained (operations : Completed) (record : ExecutionRecord) : Prop :=
  record.startCycle = 0 ∨
    ∃ item ∈ record.metadata.criticalPredecessors.items,
      ∃ predecessor, operations item.2 = some predecessor ∧ predecessor.endCycle = record.startCycle

theorem Walk.tight (walk : Walk operations visited current entries)
    (keyed :
      ∀ taskId record, operations taskId = some record →
        record.taskId = taskId ∧ record.startCycle < record.endCycle)
    (isOperation : operations current.taskId = some current)
    (later :
      ∀ taskId ∈ visited, ∀ record, operations taskId = some record →
        current.startCycle < record.endCycle)
    (explained : ∀ taskId record, operations taskId = some record → Explained operations record) :
    Tight current entries := by
  induction walk with
  | @stop visited current stopped =>
    rcases explained _ current isOperation with zero | ⟨item, member, predecessor, found, ends⟩
    · exact zero
    · exfalso
      have noCandidates : chainCandidates operations visited current = [] :=
        List.argmax_eq_none.mp stopped
      have fresh : predecessor.taskId ∉ visited := by
        intro wasVisited
        have follows := later predecessor.taskId wasVisited predecessor
          (by rw [(keyed _ _ found).1]; exact found)
        omega
      have candidate : { record := predecessor, toSuccessor := item.1 } ∈
            chainCandidates operations visited current :=
        mem_chainCandidates.mpr ⟨item.2, member, found, fresh, le_of_eq ends⟩
      rw [noCandidates] at candidate
      simp at candidate
  | @step visited current entry rest chosen walk ih =>
    obtain ⟨taskId, _, found, _, ends⟩ := mem_chainCandidates.mp (chooseCandidate_mem chosen)
    obtain ⟨identifier, positive⟩ := keyed taskId entry.record found
    have adjacent : entry.record.endCycle = current.startCycle := by
      rcases explained _ current isOperation with
          zero | ⟨item, member, predecessor, isPredecessor, attained⟩
      · omega
      · refine le_antisymm ends ?_
        rw [← attained]
        have fresh : predecessor.taskId ∉ visited := by
          intro wasVisited
          have follows := later predecessor.taskId wasVisited predecessor
            (by rw [(keyed _ _ isPredecessor).1]; exact isPredecessor)
          omega
        have isCandidate : (⟨predecessor, item.1⟩ : ChainEntry) ∈
            chainCandidates operations visited current :=
          mem_chainCandidates.mpr ⟨item.2, member, isPredecessor, fresh, le_of_eq attained⟩
        exact endCycle_le_chosen chosen isCandidate
    have entryFound : operations entry.record.taskId = some entry.record := by
      rw [identifier]
      exact found
    refine ⟨adjacent, ih entryFound ?_⟩
    intro other member record isRecord
    rcases List.mem_cons.mp member with rfl | earlier
    · rw [entryFound] at isRecord
      cases isRecord
      exact positive
    · have follows := later other earlier record isRecord
      omega

theorem Walk.explained (walk : Walk operations visited current entries)
    (tight : Tight current entries) :
    ∀ record ∈ current :: entries.map ChainEntry.record, Explained operations record := by
  induction walk with
  | stop =>
    intro record member
    simp only [List.map_nil, List.mem_singleton] at member
    subst member
    exact Or.inl tight
  | @step visited current entry rest chosen walk ih =>
    obtain ⟨adjacent, tightRest⟩ := tight
    intro record member
    rcases List.mem_cons.mp member with rfl | inRest
    · obtain ⟨taskId, isPredecessor, found, _, _⟩ :=
        mem_chainCandidates.mp (chooseCandidate_mem chosen)
      exact Or.inr ⟨(entry.toSuccessor, taskId), isPredecessor, entry.record, found, adjacent⟩
    · exact ih tightRest record inRest

theorem Walk.operations_found (walk : Walk operations visited current entries)
    (keyed : ∀ taskId record, operations taskId = some record → record.taskId = taskId) :
    ∀ entry ∈ entries, operations entry.record.taskId = some entry.record := by
  induction walk with
  | stop => simp
  | @step visited current entry rest chosen walk ih =>
    intro other member
    rcases List.mem_cons.mp member with rfl | inRest
    · obtain ⟨taskId, _, found, _, _⟩ := mem_chainCandidates.mp (chooseCandidate_mem chosen)
      rw [keyed taskId other.record found]
      exact found
    · exact ih other inRest

end Walk

/-! ## The steps of a walk -/

section Steps

/-- The step that describes an entry. -/
private def entryStep (entry : ChainEntry) : ChainStep :=
  chainStep entry.record (some entry.toSuccessor)

private theorem chainSteps_reverse (terminal : ExecutionRecord) (entries : List ChainEntry) :
    chainSteps terminal entries = (chainStep terminal none :: entries.map entryStep).reverse := by
  rw [List.reverse_cons]
  rfl

private theorem firstOperation_cons (terminal : ExecutionRecord) (entry : ChainEntry)
    (rest : List ChainEntry) :
    firstOperation terminal (entry :: rest) = firstOperation entry.record rest := by
  unfold firstOperation
  cases rest with
  | nil => rfl
  | cons next others =>
    rw [List.getLast?_cons_cons]
    cases last : (next :: others).getLast? with
    | none => simp at last
    | some final => rfl

theorem chainSteps_head (terminal : ExecutionRecord) (entries : List ChainEntry) :
    ∃ toSuccessor,
      (chainSteps terminal entries).head? =
        some (chainStep (firstOperation terminal entries) toSuccessor) := by
  rw [chainSteps_reverse, List.head?_reverse]
  cases last : entries.getLast? with
  | none =>
    rw [List.getLast?_eq_none_iff.mp last]
    exact ⟨none, rfl⟩
  | some entry =>
    refine ⟨some entry.toSuccessor, ?_⟩
    have shape : firstOperation terminal entries = entry.record := by
      simp [firstOperation, last]
    rw [shape]
    have mapped : (entries.map entryStep).getLast? = some (entryStep entry) := by
      rw [List.getLast?_map, last]
      rfl
    rw [List.getLast?_cons, mapped]
    rfl

theorem chainSteps_getLast (terminal : ExecutionRecord) (entries : List ChainEntry) :
    (chainSteps terminal entries).getLast? = some (chainStep terminal none) := by
  simp [chainSteps]

variable {terminal : ExecutionRecord} {entries : List ChainEntry}

/-- Each step of the chain is one of its records. -/
theorem record_of_mem_chainSteps {step : ChainStep} (member : step ∈ chainSteps terminal entries) :
    ∃ record ∈ terminal :: entries.map ChainEntry.record,
      step = chainStep record step.toSuccessor := by
  rcases List.mem_append.mp member with inRest | isLast
  · obtain ⟨entry, isEntry, rfl⟩ := List.mem_map.mp (List.mem_reverse.mp inRest)
    exact ⟨entry.record, List.mem_cons_of_mem _ (List.mem_map_of_mem isEntry), rfl⟩
  · rw [List.mem_singleton.mp isLast]
    exact ⟨terminal, List.mem_cons_self, rfl⟩

private theorem tight_iff_walkOrder (terminal : ExecutionRecord)
    (toSuccessor : Option EdgeKind) (entries : List ChainEntry) :
    Tight terminal entries ↔
      (chainStep terminal toSuccessor :: entries.map entryStep).IsChain
          (fun next step => step.endCycle = next.startCycle) ∧
        (firstOperation terminal entries).startCycle = 0 := by
  induction entries generalizing terminal toSuccessor with
  | nil => simp [Tight, firstOperation]
  | cons entry rest ih =>
    rw [Tight, ih entry.record (some entry.toSuccessor),
      firstOperation_cons, List.map_cons, List.isChain_cons_cons, and_assoc]
    exact Iff.rfl

/-- A chain is tight if it starts at cycle 0 and each step ends where the next one starts. -/
theorem tight_iff (terminal : ExecutionRecord) (entries : List ChainEntry) :
    Tight terminal entries ↔
      (chainSteps terminal entries).IsChain
          (fun step next => step.endCycle = next.startCycle) ∧
        (firstOperation terminal entries).startCycle = 0 := by
  rw [tight_iff_walkOrder terminal none, chainSteps_reverse, List.isChain_reverse]

/-- The durations of a tight chain add up to its length. -/
theorem Tight.durations (tight : Tight terminal entries)
    (ordered :
      ∀ record ∈ terminal :: entries.map ChainEntry.record, record.startCycle ≤ record.endCycle) :
    ((terminal :: entries.map ChainEntry.record).map
        ExecutionRecord.durationCycles).sum = terminal.endCycle := by
  induction entries generalizing terminal with
  | nil =>
    have startsAtZero : terminal.startCycle = 0 := tight
    simp [ExecutionRecord.durationCycles, startsAtZero]
  | cons entry rest ih =>
    obtain ⟨adjacent, tightRest⟩ := tight
    have earlier := ih tightRest fun record member => ordered record (List.mem_cons_of_mem _ member)
    have within := ordered terminal List.mem_cons_self
    rw [List.map_cons, List.map_cons, List.sum_cons, earlier, adjacent]
    unfold ExecutionRecord.durationCycles
    omega

end Steps

end TilelangAscend.Simulator
