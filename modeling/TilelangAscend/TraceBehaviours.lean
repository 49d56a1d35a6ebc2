import Mathlib.Data.Set.Basic

namespace TilelangAscend.TraceBehaviours

/-!
# Behaviours with early exits

A behaviour is a set of traces, each with the way in which it ends: normally, or by breaking out
of the innermost loop.  Sequences, choices and loops are operations on behaviours, and a triple
says what holds of a history after a behaviour, separately for the two ways of ending.
-/

variable {ε : Type}

/-- How a trace ends. -/
inductive Exit where
  | normal
  | broken
  deriving Repr, DecidableEq

/-- A set of traces with their exits. -/
abbrev Behaviour (ε : Type) := Set (List ε × Exit)

/-- Do one trace and go on. -/
def emit (trace : List ε) : Behaviour ε :=
  {(trace, .normal)}

/-- Do one trace and break out. -/
def leave (trace : List ε) : Behaviour ε :=
  {(trace, .broken)}

/-- One behaviour after another, unless the first one breaks out. -/
def andThen (first second : Behaviour ε) : Behaviour ε :=
  {run | run ∈ first ∧ run.2 = .broken ∨
    ∃ trace later, (trace, .normal) ∈ first ∧ (later, run.2) ∈ second ∧ run.1 = trace ++ later}

/-- One or more rounds of a body, with a trace between them; only the last one may break out. -/
inductive Repeats (between : List ε) (body : Behaviour ε) : List ε → Exit → Prop where
  | last {trace : List ε} {exit : Exit} :
      (trace, exit) ∈ body → Repeats between body trace exit
  | again {trace later : List ε} {exit : Exit} :
      (trace, .normal) ∈ body →
      Repeats between body later exit →
      Repeats between body (trace ++ between ++ later) exit

/-- One or more rounds of a body. -/
def repeated (between : List ε) (body : Behaviour ε) : Behaviour ε :=
  {run | Repeats between body run.1 run.2}

/-- A behaviour whose breaks end here, with a trace that marks them. -/
def catching (mark : List ε) (body : Behaviour ε) : Behaviour ε :=
  {run | run.2 = .normal ∧ (run ∈ body ∨ ∃ trace, (trace, .broken) ∈ body ∧ run.1 = trace ++ mark)}

variable {second first : Behaviour ε} {trace later : List ε} {exit : Exit}

theorem mem_andThen (inFirst : (trace, .normal) ∈ first)
    (inSecond : (later, exit) ∈ second) : (trace ++ later, exit) ∈ andThen first second :=
  Or.inr ⟨trace, later, inFirst, inSecond, rfl⟩

theorem mem_andThen_broken (inFirst : (trace, .broken) ∈ first) :
    (trace, .broken) ∈ andThen first second :=
  Or.inl ⟨inFirst, rfl⟩

theorem mem_emit (trace : List ε) : (trace, .normal) ∈ emit trace :=
  rfl

theorem mem_emit_andThen (trace : List ε) (inSecond : (later, exit) ∈ second) :
    (trace ++ later, exit) ∈ andThen (emit trace) second :=
  mem_andThen (mem_emit trace) inSecond

/-! ## Triples -/

/-- What holds of a history. -/
abbrev Assertion (ε : Type) := List ε → Prop

/-- The assertion for the way in which a trace ends. -/
def atExit (post broken : Assertion ε) : Exit → Assertion ε
  | .normal => post
  | .broken => broken

/--
After a history with `pre`, every trace of a behaviour leads to a history with `post`, or with
`broken` if it breaks out.
-/
def Triple (pre : Assertion ε) (behaviour : Behaviour ε) (post broken : Assertion ε) : Prop :=
  ∀ history, pre history →
    ∀ trace exit, (trace, exit) ∈ behaviour → atExit post broken exit (history ++ trace)

namespace Triple

variable {pre middle post broken : Assertion ε} {behaviour first second body : Behaviour ε}

theorem consequence {strongerPre weakerPost weakerBroken : Assertion ε}
    (triple : Triple pre behaviour post broken)
    (before : ∀ history, strongerPre history → pre history)
    (after : ∀ history, post history → weakerPost history)
    (afterBreak : ∀ history, broken history → weakerBroken history) :
    Triple strongerPre behaviour weakerPost weakerBroken := by
  intro history holds trace exit member
  have reached := triple history (before history holds) trace exit member
  cases exit with
  | normal => exact after _ reached
  | broken => exact afterBreak _ reached

variable {trace : List ε}

theorem emit (keeps : ∀ history, pre history → post (history ++ trace)) :
    Triple pre (emit trace) post broken := by
  intro history holds _ _ member
  cases member
  exact keeps history holds

theorem leave (keeps : ∀ history, pre history → broken (history ++ trace)) :
    Triple pre (leave trace) post broken := by
  intro history holds _ _ member
  cases member
  exact keeps history holds

theorem andThen (firstTriple : Triple pre first middle broken)
    (secondTriple : Triple middle second post broken) :
    Triple pre (andThen first second) post broken := by
  intro history holds trace exit member
  rcases member with ⟨inFirst, isBroken⟩ | ⟨before, later, inFirst, inSecond, isTrace⟩
  · cases isBroken
    exact firstTriple history holds trace .broken inFirst
  · obtain rfl : trace = before ++ later := isTrace
    have reached := firstTriple history holds before .normal inFirst
    rw [← List.append_assoc]
    exact secondTriple (history ++ before) reached later exit inSecond

/-- A triple of a choice is one of each branch. -/
theorem union (firstTriple : Triple pre first post broken)
    (secondTriple : Triple pre second post broken) : Triple pre (first ∪ second) post broken := by
  rintro history holds trace exit (inFirst | inSecond)
  · exact firstTriple history holds trace exit inFirst
  · exact secondTriple history holds trace exit inSecond

theorem repeated {between : List ε} {again : Assertion ε} (entered : Triple pre body post broken)
    (separated : ∀ history, post history → again (history ++ between))
    (later : Triple again body post broken) : Triple pre (repeated between body) post broken := by
  intro history holds trace exit member
  change Repeats between body trace exit at member
  induction member generalizing history pre with
  | last inBody => exact entered history holds _ _ inBody
  | again inBody _ ih =>
    have reached := entered history holds _ .normal inBody
    rw [← List.append_assoc, ← List.append_assoc]
    exact ih later _ (separated _ reached)

theorem catching {mark : List ε} {caught : Assertion ε} (triple : Triple pre body post caught)
    (marked : ∀ history, caught history → post (history ++ mark)) :
    Triple pre (catching mark body) post broken := by
  rintro history holds trace exit ⟨isNormal, inBody | ⟨before, inBody, isTrace⟩⟩
  · cases isNormal
    exact triple history holds trace .normal inBody
  · cases isNormal
    obtain rfl : trace = before ++ mark := isTrace
    rw [← List.append_assoc]
    exact marked _ (triple history holds before .broken inBody)

end Triple

end TilelangAscend.TraceBehaviours
