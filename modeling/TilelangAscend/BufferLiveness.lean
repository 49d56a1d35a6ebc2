import TilelangAscend.LinearScan
import TilelangAscend.ListHistory
import TilelangAscend.LoopPrograms

namespace TilelangAscend.MemoryPlanning

open ListHistory
open LoopPrograms

/-!
# Live intervals of buffers

The part of the memory planning pass before the linear scan: a function body of statements that
touch buffers, in loops, is flattened into `linear_seq_`; a buffer is born at its first touch
and dies at its last one, which `ReorderKillPoints` moves out of deeper loops and
`ExtendKillIndex` to the end of the loops that begin after the birth.
-/

/-- Loops; only `For` raises the level of the statements in it. -/
inductive LoopKind where
  | forLoop
  | whileLoop
  deriving Repr, DecidableEq

/-- A function body; loop bounds and conditions touch no planned buffer. -/
abbrev Program := Body LoopKind Buffer

/-- Identity of a statement of the function body, by the index of its first entry. -/
inductive StmtRef where
  | statement (index : Nat)
  | loop (index : Nat)
  deriving Repr, DecidableEq

/-- An entry of `linear_seq_` with the level of its statement; a loop has two entries. -/
structure StmtEntry where
  stmt : StmtRef
  level : Nat
  scopePairOffset : Int := 0
  touched : List Buffer := []
  deriving Repr, DecidableEq

/-- Level of the statements in a loop, and of the loop itself. -/
def LoopKind.innerLevel (kind : LoopKind) (level : Nat) : Nat :=
  match kind with
  | .forLoop => level + 1
  | .whileLoop => level

/-- Entries of a body whose first one has a given index. -/
def linearEntries : Program → Nat → Nat → List StmtEntry
  | .done, _, _ => []
  | .touch statement rest, index, level =>
    { stmt := .statement index
      level := level
      touched := statement.reads ++ statement.writes } ::
      linearEntries rest (index + 1) level
  | .loop kind body rest, index, level =>
    { stmt := .loop index
      level := kind.innerLevel level
      scopePairOffset := body.length + 1 } ::
      (linearEntries body (index + 1) (kind.innerLevel level) ++
        { stmt := .loop index
          level := kind.innerLevel level
          scopePairOffset := -(body.length + 1) } ::
          linearEntries rest (index + 2 + body.length) level)

/-- `linear_seq_` of a function body, with the index of every entry. -/
def linearSeq (program : Program) : List (StmtEntry × Nat) :=
  (linearEntries program 0 0).zipIdx

/-! ## Birth and death -/

/-- An entry touches a buffer. -/
def touchesBuffer (buffer : Buffer) (item : StmtEntry × Nat) : Bool :=
  buffer ∈ item.1.touched

/-- The statement that has a buffer in its `gen` list: the one of its first use. -/
def genEvent (seq : List (StmtEntry × Nat)) (buffer : Buffer) : Option StmtEntry :=
  (seq.find? (touchesBuffer buffer)).map Prod.fst

/-- The statement that has a buffer in its `kill` list: the one of its last use. -/
def killEvent (seq : List (StmtEntry × Nat)) (buffer : Buffer) : Option StmtEntry :=
  (lastWhere (touchesBuffer buffer) seq).map Prod.fst

/-- A statement has a nonempty `gen` or `kill` list. -/
def hasEvent (seq : List (StmtEntry × Nat)) (stmt : StmtRef) : Bool :=
  (seq.flatMap fun item => item.1.touched).any fun buffer =>
    (genEvent seq buffer).any (·.stmt = stmt) || (killEvent seq buffer).any (·.stmt = stmt)

/-- `gen_kill_seq`: the entries of statements with events. -/
def genKillSeq (seq : List (StmtEntry × Nat)) : List StmtEntry :=
  (seq.filter fun item => hasEvent seq item.1.stmt).map Prod.fst

/-- The last entry before one that is a level above the birth of a buffer. -/
def lastStmtAtLevel
    (genLevel : Nat) :
    List StmtEntry → Option StmtEntry
  | [] => none
  | [entry] => some entry
  | entry :: next :: rest =>
    if (next.level : Int) = genLevel - 1 then
      some entry
    else
      lastStmtAtLevel genLevel (next :: rest)

/--
`ReorderKillPoints` for one buffer: a death that is deeper than the birth moves to a later
entry.  The source moves deaths while it iterates over a map in an unspecified order, but the
place to which a death moves does not depend on other deaths, and moving it again keeps it.
-/
def reorderedKill (seq : List (StmtEntry × Nat)) (buffer : Buffer) : Option StmtEntry :=
  match genEvent seq buffer, killEvent seq buffer with
  | some gen, some kill =>
    if kill.level > gen.level then
      lastStmtAtLevel gen.level ((genKillSeq seq).dropWhile fun entry => entry.stmt ≠ kill.stmt)
    else
      some kill
  | _, kill => kill

/-- `FindEventIndex` of a birth: the first index of the statement. -/
def genIndex (seq : List (StmtEntry × Nat)) (buffer : Buffer) : Option Nat :=
  (genEvent seq buffer).bind fun gen => (seq.find? fun item => item.1.stmt = gen.stmt).map Prod.snd

/-- `FindEventIndex` of a death: the last index of the statement. -/
def killIndex (seq : List (StmtEntry × Nat)) (buffer : Buffer) : Option Nat :=
  (reorderedKill seq buffer).bind fun kill =>
    (lastWhere (fun item => item.1.stmt = kill.stmt) seq).map Prod.snd

/-! ## Loops -/

/-- `loop_intervals_`: the indices of the two entries of every loop. -/
def loopIntervals (seq : List (StmtEntry × Nat)) : List (Nat × Nat) :=
  seq.filterMap fun item =>
    match item.1.stmt with
    | .loop _ =>
      if item.1.scopePairOffset > 0 then
        some (item.2, item.2 + item.1.scopePairOffset.toNat)
      else
        none
    | .statement _ => none

/-- `buffer_touch_indices_`: the indices at which a buffer is touched. -/
def touchIndices (seq : List (StmtEntry × Nat)) (buffer : Buffer) : List Nat :=
  (seq.filter (touchesBuffer buffer)).map Prod.snd

/-- A loop that begins after the birth of a buffer and in which the buffer is touched and dies. -/
def extendsOver (touches : List Nat) (gen kill : Nat) (interval : Nat × Nat) : Bool :=
  (gen < interval.1 ∧ kill ≥ interval.1 ∧ kill < interval.2) ∧
    ((touches.find? fun index => index > interval.1).any fun index => index < interval.2) = true

/-- `ExtendKillIndex`: the latest end of the loops over which a buffer has to live. -/
def extendKillIndex (seq : List (StmtEntry × Nat)) (buffer : Buffer) (gen kill : Nat) : Nat :=
  (loopIntervals seq).foldl
    (fun extended interval =>
      if extendsOver (touchIndices seq buffer) gen kill interval then
        max extended interval.2
      else
        extended)
    kill

/-- The live interval of a buffer that has a birth and a death. -/
def liveInterval? (seq : List (StmtEntry × Nat)) (sizes : Buffer → UInt64)
    (buffer : Buffer) : Option LiveInterval :=
  match genIndex seq buffer, killIndex seq buffer with
  | some gen, some kill =>
    some
      { buffer := buffer
        start := gen
        finish := extendKillIndex seq buffer gen kill
        size := sizes buffer }
  | _, _ => none

/-- Live intervals of the buffers of a scope. -/
def liveIntervals (program : Program) (sizes : Buffer → UInt64) (buffers : List Buffer) :
    List LiveInterval :=
  buffers.filterMap (liveInterval? (linearSeq program) sizes)

/-- `PlanMemoryForScope`: the address map of the buffers of a scope. -/
def planMemoryForScope (sort : List LiveInterval → List LiveInterval)
    (memoryLimit : UInt64) (preAllocated : List (Buffer × Int)) (program : Program)
    (sizes : Buffer → UInt64) (buffers : List Buffer) : Except PlanError (List Allocation) :=
  planIntervals sort memoryLimit preAllocated (liveIntervals program sizes buffers)

end TilelangAscend.MemoryPlanning
