import Mathlib.Data.List.Basic
import Mathlib.Tactic.Common

namespace TilelangAscend.LoopPrograms

/-!
# Values in structured programs with loops

Programs of statements that read and write variables, in sequence and in loops that run any
number of times.  Statements are numbered along the text, with a number for the start and the
end of every loop.  `liveIn` is the usual liveness of a variable, and `Covered` says when a
range of numbers contains every statement that runs between a write of a variable and a read of
the written value, in every execution.
-/

variable {κ β : Type}

/-- A statement with the variables that it reads and then writes; it touches at least one. -/
structure Touch (β : Type) where
  reads : List β
  writes : List β
  nonempty : reads ++ writes ≠ [] := by simp

theorem Touch.write_nonempty (name : β) : [] ++ [name] ≠ [] := by
  simp

/-- Statements and loops in sequence; loops carry a label. -/
inductive Body (κ β : Type) where
  | done
  | touch (statement : Touch β) (rest : Body κ β)
  | loop (label : κ) (body rest : Body κ β)

/-- A statement in an execution, with its number in the text. -/
structure Step (β : Type) where
  index : Nat
  reads : List β
  writes : List β

/-- A step reads or writes a variable. -/
def Step.Touches (step : Step β) (name : β) : Prop :=
  name ∈ step.reads ∨ name ∈ step.writes

namespace Body

/-- How many numbers a program takes. -/
def length : Body κ β → Nat
  | done => 0
  | touch _ rest => 1 + rest.length
  | loop _ body rest => 2 + body.length + rest.length

/-- A statement of the program reads or writes a variable. -/
def Touches
    (name : β) :
    Body κ β → Prop
  | done => False
  | touch statement rest => (name ∈ statement.reads ∨ name ∈ statement.writes) ∨ rest.Touches name
  | loop _ body rest => body.Touches name ∨ rest.Touches name

/-- A statement of the program writes a variable. -/
def Writes
    (name : β) :
    Body κ β → Prop
  | done => False
  | touch statement rest => name ∈ statement.writes ∨ rest.Writes name
  | loop _ body rest => body.Writes name ∨ rest.Writes name

/--
Whether the value that a variable has before the program can be read, in the program or, if
`after` tells so, behind it.
-/
def LiveIn
    (name : β) :
    Body κ β → Prop → Prop
  | done, after => after
  | touch statement rest, after =>
    name ∈ statement.reads ∨ name ∉ statement.writes ∧ rest.LiveIn name after
  | loop _ body rest, after => body.LiveIn name False ∨ rest.LiveIn name after

/-- Liveness at the end of an iteration: the next one or what follows the loop reads the value. -/
def LiveAround (name : β) (body rest : Body κ β) (after : Prop) : Prop :=
  body.LiveIn name False ∨ rest.LiveIn name after

variable [DecidableEq β]

instance decidableTouches (name : β) :
    (program : Body κ β) → Decidable (program.Touches name)
  | done => isFalse id
  | touch _ rest =>
    have := decidableTouches name rest
    inferInstanceAs (Decidable (_ ∨ _))
  | loop _ body rest =>
    have := decidableTouches name body
    have := decidableTouches name rest
    inferInstanceAs (Decidable (_ ∨ _))

instance decidableWrites (name : β) :
    (program : Body κ β) → Decidable (program.Writes name)
  | done => isFalse id
  | touch _ rest =>
    have := decidableWrites name rest
    inferInstanceAs (Decidable (_ ∨ _))
  | loop _ body rest =>
    have := decidableWrites name body
    have := decidableWrites name rest
    inferInstanceAs (Decidable (_ ∨ _))

instance decidableLiveIn (name : β) :
    (program : Body κ β) → (after : Prop) → [Decidable after] →
      Decidable (program.LiveIn name after)
  | done, _, isDecidable => isDecidable
  | touch _ rest, after, _ =>
    have := decidableLiveIn name rest after
    inferInstanceAs (Decidable (_ ∨ _ ∧ _))
  | loop _ body rest, after, _ =>
    have := decidableLiveIn name body False
    have := decidableLiveIn name rest after
    inferInstanceAs (Decidable (_ ∨ _))

instance
    (name : β)
    (body rest : Body κ β)
    (after : Prop)
    [Decidable after] :
    Decidable (body.LiveAround name rest after) :=
  inferInstanceAs (Decidable (_ ∨ _))

end Body

/-! ## Executions -/

/-- Steps of an execution, with any number of iterations at every entry of a loop. -/
inductive Executes : Body κ β → Nat → List (Step β) → Prop where
  | done
      {base : Nat} :
      Executes .done base []
  | touch
      {base : Nat}
      {statement : Touch β}
      {rest : Body κ β}
      {steps : List (Step β)} :
      Executes rest (base + 1) steps →
      Executes (.touch statement rest) base (⟨base, statement.reads, statement.writes⟩ :: steps)
  | exit
      {base : Nat}
      {label : κ}
      {body rest : Body κ β}
      {steps : List (Step β)} :
      Executes rest (base + 2 + body.length) steps →
      Executes (.loop label body rest) base steps
  | iterate
      {base : Nat}
      {label : κ}
      {body rest : Body κ β}
      {iteration steps : List (Step β)} :
      Executes body (base + 1) iteration →
      Executes (.loop label body rest) base steps →
      Executes (.loop label body rest) base (iteration ++ steps)

/-- No step of a list writes a variable. -/
def Unwritten (name : β) (steps : List (Step β)) : Prop :=
  ∀ step ∈ steps, name ∉ step.writes

variable {program : Body κ β} {base : Nat} {steps earlier later : List (Step β)} {step : Step β}
  {name : β} {after : Prop}

section

variable (executes : Executes program base steps) (member : step ∈ steps)
include executes member

theorem Executes.index_bounds : base ≤ step.index ∧ step.index < base + program.length := by
  induction executes with
  | done => simp at member
  | touch _ ih =>
    simp only [Body.length]
    rcases List.mem_cons.mp member with isHead | inRest
    · rw [isHead]
      simp only
      omega
    · have bounds := ih inRest
      omega
  | exit _ ih =>
    have bounds := ih member
    simp only [Body.length]
    omega
  | iterate _ _ bodyIh loopIh =>
    rcases List.mem_append.mp member with inIteration | inSteps
    · have bounds := bodyIh inIteration
      simp only [Body.length]
      omega
    · exact loopIh inSteps

theorem Executes.touches (touched : step.Touches name) : program.Touches name := by
  induction executes with
  | done => simp at member
  | touch _ ih =>
    rcases List.mem_cons.mp member with isHead | inRest
    · rw [isHead] at touched
      exact Or.inl touched
    · exact Or.inr (ih inRest)
  | exit _ ih => exact Or.inr (ih member)
  | iterate _ _ bodyIh loopIh =>
    rcases List.mem_append.mp member with inIteration | inSteps
    · exact Or.inl (bodyIh inIteration)
    · exact loopIh inSteps

theorem Executes.writes (written : name ∈ step.writes) : program.Writes name := by
  induction executes with
  | done => simp at member
  | touch _ ih =>
    rcases List.mem_cons.mp member with isHead | inRest
    · rw [isHead] at written
      exact Or.inl written
    · exact Or.inr (ih inRest)
  | exit _ ih => exact Or.inr (ih member)
  | iterate _ _ bodyIh loopIh =>
    rcases List.mem_append.mp member with inIteration | inSteps
    · exact Or.inl (bodyIh inIteration)
    · exact loopIh inSteps

end

/-! ## Liveness is sound -/

theorem append_split {first second : List (Step β)}
    (shape : first ++ second = earlier ++ step :: later) :
    (∃ middle, first = earlier ++ step :: middle ∧ later = middle ++ second) ∨
      ∃ middle, earlier = first ++ middle ∧ second = middle ++ step :: later := by
  rcases List.append_eq_append_iff.mp shape with
    ⟨middle, earlierIs, secondIs⟩ | ⟨middle, firstIs, restIs⟩
  · exact Or.inr ⟨middle, earlierIs, secondIs⟩
  · cases middle with
    | nil => exact Or.inr ⟨[], by simpa using firstIs.symm, by simpa using restIs.symm⟩
    | cons head tail =>
      obtain ⟨isHead, laterIs⟩ := List.cons.inj restIs
      exact Or.inl ⟨tail, by rw [firstIs, isHead], laterIs⟩

theorem Executes.liveIn_of_read (executes : Executes program base steps)
    (shape : steps = earlier ++ step :: later) (unwritten : Unwritten name earlier)
    (isRead : name ∈ step.reads) (after : Prop) : program.LiveIn name after := by
  induction executes generalizing earlier later after with
  | done => simp at shape
  | touch _ ih =>
    cases earlier with
    | nil =>
      obtain ⟨isHead, _⟩ := List.cons.inj shape
      rw [← isHead] at isRead
      exact Or.inl isRead
    | cons head rest =>
      obtain ⟨isHead, restShape⟩ := List.cons.inj shape
      have headUnwritten := unwritten head List.mem_cons_self
      rw [← isHead] at headUnwritten
      exact Or.inr ⟨headUnwritten,
        ih restShape
          (fun other member => unwritten other (List.mem_cons_of_mem _ member)) after⟩
  | exit _ ih => exact Or.inr (ih shape unwritten after)
  | iterate _ _ bodyIh loopIh =>
    rcases append_split shape with ⟨middle, inIteration, _⟩ | ⟨middle, earlierIs, inSteps⟩
    · exact Or.inl (bodyIh inIteration unwritten False)
    · exact loopIh inSteps
        (fun other member => unwritten other (by rw [earlierIs]; simp [member])) after

theorem Executes.liveIn_of_unwritten (executes : Executes program base steps)
    (unwritten : Unwritten name steps) (live : after) : program.LiveIn name after := by
  induction executes with
  | done => exact live
  | touch _ ih =>
    exact Or.inr ⟨unwritten _ List.mem_cons_self,
      ih fun other member => unwritten other (List.mem_cons_of_mem _ member)⟩
  | exit _ ih => exact Or.inr (ih unwritten)
  | iterate _ _ _ loopIh =>
    exact loopIh fun other member => unwritten other (by simp [member])

/-! ## Ranges that contain the life of a value -/

/--
The range from `first` to `last` covers a variable in a program: it contains every touch of
it; a loop behind the first touch is contained up to its end; and in a loop around the first
touch that writes the variable, the value of one iteration is dead when the next one begins.
-/
def Covered
    (name : β)
    (first last : Nat) :
    Body κ β → Nat → Prop → Prop
  | .done, _, _ => True
  | .touch statement rest, base, after =>
    (name ∈ statement.reads ∨ name ∈ statement.writes → first ≤ base ∧ base ≤ last) ∧
      Covered name first last rest (base + 1) after
  | .loop _ body rest, base, after =>
    (body.Touches name → first ≤ base → base + 1 + body.length ≤ last) ∧
      (body.Writes name → base < first → ¬ body.LiveIn name (body.LiveAround name rest after)) ∧
      Covered name first last body (base + 1) (body.LiveAround name rest after) ∧
      Covered name first last rest (base + 2 + body.length) after

/--
In every loop around the first touch of a variable that writes it, the value of one iteration
is dead when the next one begins.  `touched` tells whether the variable was touched before the
program, `after` whether its value is read behind it.
-/
def CarriesNothing
    (name : β) :
    Body κ β → Prop → Prop → Prop
  | .done, _, _ => True
  | .touch statement rest, touched, after =>
    CarriesNothing name rest (touched ∨ name ∈ statement.reads ∨ name ∈ statement.writes) after
  | .loop _ body rest, touched, after =>
    (body.Writes name → ¬ touched → ¬ body.LiveIn name (body.LiveAround name rest after)) ∧
      CarriesNothing name body touched (body.LiveAround name rest after) ∧
      CarriesNothing name rest (touched ∨ body.Touches name) after

instance decidableCarriesNothing
    [DecidableEq β]
    (name : β) :
    (program : Body κ β) → (touched after : Prop) → [Decidable touched] → [Decidable after] →
      Decidable (CarriesNothing name program touched after)
  | .done, _, _, _, _ => isTrue trivial
  | .touch statement rest, touched, after, _, _ =>
    decidableCarriesNothing name rest
      (touched ∨ name ∈ statement.reads ∨ name ∈ statement.writes) after
  | .loop _ body rest, touched, after, _, _ =>
    have := decidableCarriesNothing name body touched (body.LiveAround name rest after)
    have := decidableCarriesNothing name rest (touched ∨ body.Touches name) after
    inferInstanceAs (Decidable (_ ∧ _ ∧ _))

section Ranges

variable {name : β} {first last : Nat} {base : Nat} {steps earlier later : List (Step β)}
  {step reader : Step β} {after : Prop} {program body rest : Body κ β} {label : κ}

theorem Executes.touch_in_range (executes : Executes program base steps)
    (covered : Covered name first last program base after) (member : step ∈ steps)
    (touched : step.Touches name) : first ≤ step.index ∧ step.index ≤ last := by
  induction executes generalizing after with
  | done => simp at member
  | touch _ ih =>
    rcases List.mem_cons.mp member with isHead | inRest
    · rw [isHead] at touched ⊢
      exact covered.1 touched
    · exact ih covered.2 inRest
  | exit _ ih => exact ih covered.2.2.2 member
  | iterate _ _ bodyIh loopIh =>
    rcases List.mem_append.mp member with inIteration | inSteps
    · exact bodyIh covered.2.2.1 inIteration
    · exact loopIh covered inSteps

theorem Executes.loop_step (executes : Executes (.loop label body rest) base steps)
    (name : β) (member : step ∈ steps) :
    (base < step.index ∧ step.index < base + 1 + body.length ∧
        (step.Touches name → body.Touches name)) ∨
      base + 2 + body.length ≤ step.index := by
  generalize isLoop : Body.loop label body rest = program at executes
  induction executes with
  | done =>
    cases isLoop
  | touch =>
    cases isLoop
  | exit after _ =>
    cases isLoop
    exact Or.inr (after.index_bounds member).1
  | iterate inner _ _ loopIh =>
    cases isLoop
    rcases List.mem_append.mp member with inIteration | inSteps
    · have bounds := inner.index_bounds inIteration
      exact Or.inl ⟨by omega, by omega, inner.touches inIteration⟩
    · exact loopIh inSteps rfl

/--
A value that enters a program and is read there was needed no later than the end of the range,
if the range starts no later than the program.
-/
theorem Executes.entering_in_range (executes : Executes program base steps)
    (covered : Covered name first last program base after) (started : first ≤ base)
    (shape : steps = earlier ++ step :: later) (isRead : name ∈ step.reads) :
    ∀ passed ∈ earlier, passed.index ≤ last := by
  induction executes generalizing earlier after with
  | done => simp at shape
  | @touch base statement rest steps tail ih =>
    cases earlier with
    | nil => simp
    | cons head others =>
      obtain ⟨isHead, restShape⟩ := List.cons.inj shape
      intro passed member
      rcases List.mem_cons.mp member with isPassed | inOthers
      · have isStep : step ∈ steps := by
          rw [restShape]
          simp
        have inRange := tail.touch_in_range covered.2 isStep (Or.inl isRead)
        have bounds := tail.index_bounds isStep
        rw [isPassed, ← isHead]
        simp only
        omega
      · exact ih covered.2 (by omega) restShape passed inOthers
  | exit _ ih => exact ih covered.2.2.2 (by omega) shape
  | @iterate base label body rest iteration steps inner loops bodyIh loopIh =>
    rcases append_split shape with ⟨middle, inIteration, _⟩ | ⟨middle, earlierIs, inSteps⟩
    · -- the loop touches the variable, so it is contained
      have isStep : step ∈ iteration := by
        rw [inIteration]
        simp
      have contained := covered.1 (inner.touches isStep (Or.inl isRead)) started
      intro passed member
      have bounds := inner.index_bounds (show passed ∈ iteration by
        rw [inIteration]
        simp [member])
      omega
    · have isStep : step ∈ steps := by
        rw [inSteps]
        simp
      intro passed member
      rw [earlierIs] at member
      rcases List.mem_append.mp member with inIteration | inMiddle
      · have bounds := inner.index_bounds inIteration
        have inRange := loops.touch_in_range covered isStep (Or.inl isRead)
        rcases loops.loop_step name isStep with ⟨_, _, touches⟩ | behind
        · have contained := covered.1 (touches (Or.inl isRead)) started
          omega
        · omega
      · exact loopIh covered started inSteps passed inMiddle

/--
A value that a program leaves behind for a later read was written inside the range, and the
execution does not go back before the range afterwards.
-/
theorem Executes.leaving_in_range (executes : Executes program base steps)
    (covered : Covered name first last program base after) (live : after)
    (shape : steps = earlier ++ step :: later) (written : name ∈ step.writes)
    (unwritten : Unwritten name later) : ∀ passed ∈ later, first ≤ passed.index := by
  induction executes generalizing earlier later after with
  | done => simp at shape
  | @touch base statement rest steps tail ih =>
    cases earlier with
    | nil =>
      obtain ⟨isHead, isTail⟩ := List.cons.inj shape
      intro passed member
      rw [← isTail] at member
      rw [← isHead] at written
      have inRange := covered.1 (Or.inr written)
      have bounds := tail.index_bounds member
      omega
    | cons head others =>
      obtain ⟨_, restShape⟩ := List.cons.inj shape
      exact ih covered.2 live restShape unwritten
  | exit _ ih => exact ih covered.2.2.2 live shape unwritten
  | @iterate base label body rest iteration steps inner loops bodyIh loopIh =>
    rcases append_split shape with ⟨middle, inIteration, laterIs⟩ | ⟨middle, _, inSteps⟩
    · have isStep : step ∈ iteration := by
        rw [inIteration]
        simp
      intro passed member
      rw [laterIs] at member unwritten
      by_cases started : first ≤ base
      · rcases List.mem_append.mp member with inMiddle | inSteps
        · have bounds := inner.index_bounds (show passed ∈ iteration by
            rw [inIteration]
            simp [inMiddle])
          omega
        · have bounds := loops.index_bounds inSteps
          omega
      · -- the value would be live at the start of a further iteration
        have dead := covered.2.1 (inner.writes isStep written) (by omega)
        have stepsUnwritten : Unwritten name steps := fun other isOther =>
          unwritten other (List.mem_append_right _ isOther)
        have liveAround : body.LiveAround name rest after :=
          loops.liveIn_of_unwritten stepsUnwritten live
        have inRange := inner.touch_in_range covered.2.2.1 isStep (Or.inr written)
        have stepBounds := inner.index_bounds isStep
        cases loops with
        | exit tail =>
          rcases List.mem_append.mp member with inMiddle | inSteps
          · exact bodyIh covered.2.2.1 liveAround inIteration
              (fun other isOther => unwritten other (List.mem_append_left _ isOther))
              passed inMiddle
          · have bounds := tail.index_bounds inSteps
            omega
        | iterate again _ =>
          refine (dead (again.liveIn_of_unwritten ?_ liveAround)).elim
          exact fun other isOther => stepsUnwritten other (List.mem_append_left _ isOther)
    · exact loopIh covered live inSteps unwritten

theorem Executes.leaving_value_in_range {iteration middle tail : List (Step β)}
    (inner : Executes body (base + 1) iteration)
    (covered : Covered name first last (.loop label body rest) base after)
    (loops : Executes (.loop label body rest) base steps)
    (inIteration : iteration = earlier ++ step :: middle)
    (inSteps : steps = tail ++ reader :: later) (written : name ∈ step.writes)
    (isRead : name ∈ reader.reads) (middleUnwritten : Unwritten name middle)
    (tailUnwritten : Unwritten name tail) :
    ∀ passed ∈ middle ++ tail, first ≤ passed.index ∧ passed.index ≤ last := by
  have isStep : step ∈ iteration := by
    rw [inIteration]
    simp
  have isReader : reader ∈ steps := by
    rw [inSteps]
    simp
  have middleBounds : ∀ passed ∈ middle,
      base + 1 ≤ passed.index ∧ passed.index < base + 1 + body.length := by
    intro passed member
    refine inner.index_bounds ?_
    rw [inIteration]
    simp [member]
  have tailSteps : ∀ passed ∈ tail, passed ∈ steps := by
    intro passed member
    rw [inSteps]
    simp [member]
  by_cases started : first ≤ base
  · have contained := covered.1 (inner.touches isStep (Or.inr written)) started
    intro passed member
    rcases List.mem_append.mp member with inMiddle | inTail
    · have bounds := middleBounds passed inMiddle
      omega
    · have bounds := loops.index_bounds (tailSteps passed inTail)
      exact ⟨by omega, loops.entering_in_range covered started inSteps isRead passed inTail⟩
  · have dead := covered.2.1 (inner.writes isStep written) (by omega)
    have liveAround : body.LiveAround name rest after :=
      loops.liveIn_of_read inSteps tailUnwritten isRead after
    cases loops with
    | exit behind =>
      have writtenInRange := inner.touch_in_range covered.2.2.1 isStep (Or.inr written)
      have stepBounds := inner.index_bounds isStep
      have readerInRange := behind.touch_in_range covered.2.2.2 isReader (Or.inl isRead)
      have readerBounds := behind.index_bounds isReader
      intro passed member
      rcases List.mem_append.mp member with inMiddle | inTail
      · have bounds := middleBounds passed inMiddle
        exact ⟨inner.leaving_in_range covered.2.2.1 liveAround inIteration written
          middleUnwritten passed inMiddle, by omega⟩
      · have bounds := behind.index_bounds (tailSteps passed inTail)
        exact ⟨by omega,
          behind.entering_in_range covered.2.2.2 (by omega) inSteps isRead passed inTail⟩
    | @iterate _ _ _ _ further _ again _ =>
      -- the next iteration reads the value, or leaves it for a read after it
      rcases append_split inSteps with ⟨_, inFurther, _⟩ | ⟨_, tailIs, _⟩
      · exact (dead (again.liveIn_of_read inFurther tailUnwritten isRead _)).elim
      · refine (dead (again.liveIn_of_unwritten ?_ liveAround)).elim
        exact fun other member => tailUnwritten other (by rw [tailIs]; simp [member])

/--
Every step between a write of a covered variable and a read of the written value is in the
range.
-/
theorem Executes.value_in_range {between : List (Step β)} (executes : Executes program base steps)
    (covered : Covered name first last program base after)
    (shape : steps = earlier ++ step :: (between ++ reader :: later))
    (written : name ∈ step.writes) (isRead : name ∈ reader.reads)
    (unwritten : Unwritten name between) :
    ∀ passed ∈ between, first ≤ passed.index ∧ passed.index ≤ last := by
  induction executes generalizing earlier later after with
  | done => simp at shape
  | @touch base statement rest steps tail ih =>
    cases earlier with
    | nil =>
      obtain ⟨isHead, isTail⟩ := List.cons.inj shape
      rw [← isHead] at written
      have inRange := covered.1 (Or.inr written)
      intro passed member
      have bounds := tail.index_bounds (show passed ∈ steps by
        rw [isTail]
        simp [member])
      exact ⟨by omega, tail.entering_in_range covered.2 (by omega) isTail isRead passed member⟩
    | cons head others =>
      obtain ⟨_, restShape⟩ := List.cons.inj shape
      exact ih covered.2 restShape
  | exit _ ih => exact ih covered.2.2.2 shape
  | @iterate base label body rest iteration steps inner loops bodyIh loopIh =>
    rcases append_split shape with ⟨middle, inIteration, laterIs⟩ | ⟨middle, _, inSteps⟩
    · rcases append_split laterIs.symm with
        ⟨tail, middleIs, _⟩ | ⟨tail, betweenIs, inSteps⟩
      · rw [middleIs] at inIteration
        exact bodyIh covered.2.2.1 inIteration
      · rw [betweenIs] at unwritten ⊢
        exact inner.leaving_value_in_range covered loops inIteration inSteps written isRead
          (fun other member => unwritten other (List.mem_append_left _ member))
          (fun other member => unwritten other (List.mem_append_right _ member))
    · exact loopIh covered inSteps

end Ranges

end TilelangAscend.LoopPrograms
