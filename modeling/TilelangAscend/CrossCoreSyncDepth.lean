import TilelangAscend.CrossCoreSync

namespace TilelangAscend.CrossCoreSync

open LoopNests

/-!
# The depth at which two nests synchronize

`FindTargetLoopDepth` walks down the two loop nests at once.  It stops at the deepest pair of
depths at which the two nests have run equally often, where a loop in the skip list counts once.
The walk is in one of three phases: the deepest meeting is still ahead on both sides, or the cube
side has just left it and the vector side is passing the remaining unit loops, or both sides are
beyond it and the depths no longer change.
-/

/-! ## What the walk knows -/

/-- The counters of the walk agree with its position in the two nests. -/
structure WalkAt (cube vec : List Nat) (walk : Walk) : Prop where
  cubeTimes : walk.cubeTimes = outerTimes cube walk.cubeIdx
  vecTimes : walk.vecTimes = outerTimes vec walk.vecIdx
  cubeIdx : walk.cubeIdx ≤ cube.length
  vecIdx : walk.vecIdx ≤ vec.length
  notBothZero : ¬ (walk.cubeTimes = 0 ∧ walk.vecTimes = 0)

/-- Phases of the walk with respect to the deepest meeting. -/
inductive Phase (cube vec : List Nat) (cubeDepth vecDepth : Nat) (walk : Walk) : Prop where
  | ahead
      (inCube : walk.cubeIdx ≤ cubeDepth)
      (inVec : walk.vecIdx ≤ vecDepth)
  | trailing
      (pastCube : cubeDepth < walk.cubeIdx)
      (inVec : walk.vecIdx ≤ vecDepth)
      (sameTimes : outerTimes vec walk.vecIdx = outerTimes vec vecDepth)
      (cubeKept : walk.cubeDepth = cubeDepth)
      (vecKept : walk.vecDepth = walk.vecIdx)
      (timesKept : walk.lastPairTimes = outerTimes vec vecDepth)
  | passed
      (past : cubeDepth < walk.cubeIdx ∨ vecDepth < walk.vecIdx)
      (pastVec : vecDepth ≤ walk.vecIdx)
      (cubeKept : walk.cubeDepth = cubeDepth)
      (vecKept : walk.vecDepth = vecDepth)
      (timesKept : walk.lastPairTimes = outerTimes vec vecDepth)

theorem walkAt_start (cube vec : List Nat) : WalkAt cube vec Walk.start where
  cubeTimes := by simp [Walk.start]
  vecTimes := by simp [Walk.start]
  cubeIdx := Nat.zero_le _
  vecIdx := Nat.zero_le _
  notBothZero := by simp [Walk.start]

@[simp] theorem recordPair_cubeIdx (walk : Walk) : walk.recordPair.cubeIdx = walk.cubeIdx := by
  unfold Walk.recordPair
  split <;> rfl

@[simp] theorem recordPair_vecIdx (walk : Walk) : walk.recordPair.vecIdx = walk.vecIdx := by
  unfold Walk.recordPair
  split <;> rfl

@[simp] theorem recordPair_cubeTimes (walk : Walk) :
    walk.recordPair.cubeTimes = walk.cubeTimes := by
  unfold Walk.recordPair
  split <;> rfl

@[simp] theorem recordPair_vecTimes (walk : Walk) : walk.recordPair.vecTimes = walk.vecTimes := by
  unfold Walk.recordPair
  split <;> rfl

variable {walk : Walk}

theorem recordPair_of_ne (differ : walk.cubeTimes ≠ walk.vecTimes) : walk.recordPair = walk := by
  simp [Walk.recordPair, differ]

theorem recordPair_of_eq (same : walk.cubeTimes = walk.vecTimes) :
    walk.recordPair =
      { walk with
        cubeDepth := walk.cubeIdx
        vecDepth := walk.vecIdx
        lastPairTimes := walk.cubeTimes } := by
  simp [Walk.recordPair, same]

section

variable {cube vec : List Nat} {cubeDepth vecDepth : Nat} {walk : Walk} {depth times : Nat}

section

variable (deepest : DeepestMeeting cube vec cubeDepth vecDepth)
include deepest

theorem times_ne_of_past (here : WalkAt cube vec walk)
    (past : cubeDepth < walk.cubeIdx ∨ vecDepth < walk.vecIdx) :
    walk.cubeTimes ≠ walk.vecTimes := by
  intro same
  have runs : 0 < walk.cubeTimes := by
    apply Nat.pos_of_ne_zero
    intro zero
    exact here.notBothZero ⟨zero, same ▸ zero⟩
  have meets : Meets cube vec walk.cubeIdx walk.vecIdx := by
    refine ⟨here.cubeIdx, here.vecIdx, ?_, ?_⟩
    · rw [← here.cubeTimes, ← here.vecTimes, same]
    · rw [← here.cubeTimes]
      exact runs
  have bounds := deepest.deepest meets
  omega

theorem vecTimes_ne_of_past (inside : depth ≤ vec.length) (past : vecDepth < depth) :
    outerTimes vec depth ≠ outerTimes vec vecDepth := by
  intro same
  have meets : Meets cube vec cubeDepth depth :=
    ⟨deepest.meets.inFirst, inside, deepest.meets.same.trans same.symm, deepest.meets.runs⟩
  have bounds := deepest.deepest meets
  omega

theorem cubeTimes_ne_of_past (inside : depth ≤ cube.length) (past : cubeDepth < depth) :
    outerTimes cube depth ≠ outerTimes cube cubeDepth := by
  intro same
  have meets : Meets cube vec depth vecDepth := by
    refine ⟨inside, deepest.meets.inSecond, same.trans deepest.meets.same, ?_⟩
    rw [same]
    exact deepest.meets.runs
  have bounds := deepest.deepest meets
  omega

theorem vecRuns : 0 < outerTimes vec vecDepth := by
  rw [← deepest.meets.same]
  exact deepest.meets.runs

end

/-! ## One step -/

theorem walkAt_stepCube
    (here : WalkAt cube vec walk)
    (next : cube[walk.cubeIdx]? = some times)
    (enters : walk.cubeTimes ≤ walk.vecTimes ∨ times = 1) :
    WalkAt cube vec (walk.recordPair.stepCube times) where
  cubeTimes := by
    simp only [Walk.stepCube, recordPair_cubeTimes, recordPair_cubeIdx]
    rw [outerTimes_succ next, here.cubeTimes]
  vecTimes := by simpa [Walk.stepCube] using here.vecTimes
  cubeIdx := by
    have bound := (List.getElem?_eq_some_iff.mp next).1
    simp only [Walk.stepCube, recordPair_cubeIdx]
    exact bound
  vecIdx := by simpa [Walk.stepCube] using here.vecIdx
  notBothZero := by
    simp only [Walk.stepCube, recordPair_cubeTimes, recordPair_vecTimes]
    rintro ⟨cubeZero, vecZero⟩
    apply here.notBothZero
    rcases enters with behind | unit
    · exact ⟨by omega, vecZero⟩
    · rw [unit, Nat.mul_one] at cubeZero
      exact ⟨cubeZero, vecZero⟩

theorem walkAt_stepVec
    (here : WalkAt cube vec walk)
    (next : vec[walk.vecIdx]? = some times)
    (enters : walk.vecTimes ≤ walk.cubeTimes ∨ times = 1) :
    WalkAt cube vec (walk.recordPair.stepVec times) where
  cubeTimes := by simpa [Walk.stepVec] using here.cubeTimes
  vecTimes := by
    simp only [Walk.stepVec, recordPair_vecTimes, recordPair_vecIdx]
    rw [outerTimes_succ next, here.vecTimes]
  cubeIdx := by simpa [Walk.stepVec] using here.cubeIdx
  vecIdx := by
    have bound := (List.getElem?_eq_some_iff.mp next).1
    simp only [Walk.stepVec, recordPair_vecIdx]
    exact bound
  notBothZero := by
    simp only [Walk.stepVec, recordPair_cubeTimes, recordPair_vecTimes]
    rintro ⟨cubeZero, vecZero⟩
    apply here.notBothZero
    rcases enters with behind | unit
    · exact ⟨cubeZero, by omega⟩
    · rw [unit, Nat.mul_one] at vecZero
      exact ⟨cubeZero, vecZero⟩

theorem times_eq_of_leavingCube (deepest : DeepestMeeting cube vec cubeDepth vecDepth)
    (here : WalkAt cube vec walk) (next : cube[walk.cubeIdx]? = some times)
    (enters : walk.cubeTimes ≤ walk.vecTimes ∨ times = 1)
    (atDepth : walk.cubeIdx = cubeDepth) (inVec : walk.vecIdx ≤ vecDepth) :
    walk.cubeTimes = walk.vecTimes ∧ outerTimes vec walk.vecIdx = outerTimes vec vecDepth := by
  have notUnit : times ≠ 1 := by
    intro unit
    have inside : cubeDepth + 1 ≤ cube.length := by
      rw [← atDepth]
      exact (List.getElem?_eq_some_iff.mp next).1
    apply cubeTimes_ne_of_past deepest inside (Nat.lt_succ_self _)
    rw [← atDepth, outerTimes_succ next, unit, Nat.mul_one]
  have behind : walk.cubeTimes ≤ walk.vecTimes := enters.resolve_right notUnit
  have bound : outerTimes vec walk.vecIdx ≤ outerTimes vec vecDepth :=
    outerTimes_le inVec (vecRuns deepest)
  have same := deepest.meets.same
  rw [here.cubeTimes, here.vecTimes, atDepth] at behind
  rw [here.cubeTimes, here.vecTimes, atDepth]
  exact ⟨by omega, by omega⟩

theorem phase_stepCube (deepest : DeepestMeeting cube vec cubeDepth vecDepth)
    (here : WalkAt cube vec walk) (phase : Phase cube vec cubeDepth vecDepth walk)
    (next : cube[walk.cubeIdx]? = some times)
    (enters : walk.cubeTimes ≤ walk.vecTimes ∨ times = 1) :
    Phase cube vec cubeDepth vecDepth (walk.recordPair.stepCube times) := by
  cases phase with
  | ahead inCube inVec =>
    rcases Nat.lt_or_eq_of_le inCube with before | atDepth
    · apply Phase.ahead
      · simp only [Walk.stepCube, recordPair_cubeIdx]
        exact before
      · simpa [Walk.stepCube] using inVec
    · obtain ⟨same, sameTimes⟩ := times_eq_of_leavingCube deepest here next enters atDepth inVec
      rw [recordPair_of_eq same]
      apply Phase.trailing
      · simp [Walk.stepCube, atDepth]
      · exact inVec
      · exact sameTimes
      · exact atDepth
      · rfl
      · rw [Walk.stepCube, ← sameTimes, ← here.vecTimes]
        exact same
  | trailing pastCube inVec sameTimes cubeKept vecKept timesKept =>
    rw [recordPair_of_ne (times_ne_of_past deepest here (Or.inl pastCube))]
    apply Phase.trailing
    · exact Nat.lt_succ_of_lt pastCube
    · exact inVec
    · exact sameTimes
    · exact cubeKept
    · exact vecKept
    · exact timesKept
  | passed past pastVec cubeKept vecKept timesKept =>
    rw [recordPair_of_ne (times_ne_of_past deepest here past)]
    apply Phase.passed
    · exact past.imp_left Nat.lt_succ_of_lt
    · exact pastVec
    · exact cubeKept
    · exact vecKept
    · exact timesKept

/-- The cube side waits at a loop that is no unit loop, or has no loop left. -/
def CubeWaits (cube : List Nat) (walk : Walk) : Prop :=
  ∀ times, cube[walk.cubeIdx]? = some times → times ≠ 1

theorem cubeIdx_eq_of_leavingVec (deepest : DeepestMeeting cube vec cubeDepth vecDepth)
    (here : WalkAt cube vec walk) (waits : CubeWaits cube walk)
    (next : vec[walk.vecIdx]? = some times) (enters : walk.vecTimes ≤ walk.cubeTimes ∨ times = 1)
    (inCube : walk.cubeIdx ≤ cubeDepth) (atDepth : walk.vecIdx = vecDepth) :
    walk.cubeTimes = walk.vecTimes ∧ walk.cubeIdx = cubeDepth := by
  have notUnit : times ≠ 1 := by
    intro unit
    have inside : vecDepth + 1 ≤ vec.length := by
      rw [← atDepth]
      exact (List.getElem?_eq_some_iff.mp next).1
    apply vecTimes_ne_of_past deepest inside (Nat.lt_succ_self _)
    rw [← atDepth, outerTimes_succ next, unit, Nat.mul_one]
  have behind : walk.vecTimes ≤ walk.cubeTimes := enters.resolve_right notUnit
  have bound : outerTimes cube walk.cubeIdx ≤ outerTimes cube cubeDepth :=
    outerTimes_le inCube deepest.meets.runs
  have meeting := deepest.meets.same
  rw [here.cubeTimes, here.vecTimes, atDepth] at behind
  have cubeSame : outerTimes cube walk.cubeIdx = outerTimes cube cubeDepth := by omega
  refine ⟨?_, ?_⟩
  · rw [here.cubeTimes, here.vecTimes, atDepth, cubeSame, meeting]
  · rcases Nat.lt_or_eq_of_le inCube with before | reached
    · exfalso
      have inside : walk.cubeIdx < cube.length := by
        have bound := deepest.meets.inFirst
        omega
      have present : cube[walk.cubeIdx]? = some cube[walk.cubeIdx] :=
        List.getElem?_eq_getElem inside
      exact waits _ present (extent_eq_one_of_between before present cubeSame deepest.meets.runs)
    · exact reached

theorem phase_stepVec (deepest : DeepestMeeting cube vec cubeDepth vecDepth)
    (here : WalkAt cube vec walk) (waits : CubeWaits cube walk)
    (phase : Phase cube vec cubeDepth vecDepth walk) (next : vec[walk.vecIdx]? = some times)
    (enters : walk.vecTimes ≤ walk.cubeTimes ∨ times = 1) :
    Phase cube vec cubeDepth vecDepth (walk.recordPair.stepVec times) := by
  have inside : walk.vecIdx + 1 ≤ vec.length := (List.getElem?_eq_some_iff.mp next).1
  have product : walk.vecTimes * times = outerTimes vec (walk.vecIdx + 1) := by
    rw [outerTimes_succ next, here.vecTimes]
  -- Below the deepest meeting the vector side never runs as often as at it.
  have leaves : vecDepth ≤ walk.vecIdx → walk.vecTimes * times ≠ outerTimes vec vecDepth := by
    intro reached
    rw [product]
    exact vecTimes_ne_of_past deepest inside (Nat.lt_succ_of_le reached)
  cases phase with
  | ahead inCube inVec =>
    rcases Nat.lt_or_eq_of_le inVec with before | atDepth
    · apply Phase.ahead
      · simpa [Walk.stepVec] using inCube
      · simp only [Walk.stepVec, recordPair_vecIdx]
        exact before
    · obtain ⟨same, reached⟩ :=
        cubeIdx_eq_of_leavingVec deepest here waits next enters inCube atDepth
      have kept : walk.cubeTimes = outerTimes vec vecDepth := by
        rw [same, here.vecTimes, atDepth]
      have moved : walk.vecTimes * times ≠ walk.cubeTimes := by
        rw [kept]
        exact leaves (Nat.le_of_eq atDepth.symm)
      rw [recordPair_of_eq same]
      apply Phase.passed
      · exact Or.inr (by simp [Walk.stepVec, atDepth])
      · simp [Walk.stepVec, atDepth]
      · exact reached
      · simp [Walk.stepVec, moved, atDepth]
      · exact kept
  | trailing pastCube inVec sameTimes cubeKept vecKept timesKept =>
    rw [recordPair_of_ne (times_ne_of_past deepest here (Or.inl pastCube))]
    rcases Nat.lt_or_eq_of_le inVec with before | atDepth
    · have unit : times = 1 := extent_eq_one_of_between before next sameTimes (vecRuns deepest)
      have still : walk.vecTimes * times = walk.lastPairTimes := by
        rw [unit, Nat.mul_one, timesKept, here.vecTimes, sameTimes]
      apply Phase.trailing
      · exact pastCube
      · exact before
      · rw [Walk.stepVec, ← product, still, timesKept]
      · exact cubeKept
      · simp [Walk.stepVec, still]
      · exact timesKept
    · have moved : walk.vecTimes * times ≠ walk.lastPairTimes := by
        rw [timesKept]
        exact leaves (Nat.le_of_eq atDepth.symm)
      apply Phase.passed
      · exact Or.inl pastCube
      · simp [Walk.stepVec, atDepth]
      · exact cubeKept
      · simp [Walk.stepVec, moved, vecKept, atDepth]
      · exact timesKept
  | passed past pastVec cubeKept vecKept timesKept =>
    have moved : walk.vecTimes * times ≠ walk.lastPairTimes := by
      rw [timesKept]
      exact leaves pastVec
    rw [recordPair_of_ne (times_ne_of_past deepest here past)]
    apply Phase.passed
    · exact past.imp_right Nat.lt_succ_of_lt
    · exact Nat.le_succ_of_le pastVec
    · exact cubeKept
    · simp [Walk.stepVec, moved, vecKept]
    · exact timesKept

/-! ## The inner loops -/

/-- What the inner loop over the cube loops leaves. -/
structure CubeAdvanced
    (cube vec : List Nat)
    (cubeDepth vecDepth : Nat)
    (before after : Walk) : Prop where
  here : WalkAt cube vec after
  phase : Phase cube vec cubeDepth vecDepth after
  further : before.cubeIdx ≤ after.cubeIdx
  sameVec : after.vecIdx = before.vecIdx
  stopped : ∀ times, cube[after.cubeIdx]? = some times →
    after.vecTimes < after.cubeTimes ∧ times ≠ 1
  unmoved : after.cubeIdx = before.cubeIdx → after = before

/-- Advancing the cube walk keeps its invariant. -/
theorem advanceCube_spec (deepest : DeepestMeeting cube vec cubeDepth vecDepth)
    (rest : List Nat) (walk : Walk) (remaining : cube.drop walk.cubeIdx = rest)
    (here : WalkAt cube vec walk) (phase : Phase cube vec cubeDepth vecDepth walk) :
    ∃ after, advanceCube (rest.map some) walk = some ((cube.drop after.cubeIdx).map some, after) ∧
      CubeAdvanced cube vec cubeDepth vecDepth walk after := by
  induction rest generalizing walk with
  | nil =>
    refine ⟨walk, ?_, here, phase, le_rfl, rfl, ?_, fun _ => rfl⟩
    · simp [advanceCube, remaining]
    · intro times next
      have finished : cube.length ≤ walk.cubeIdx := List.drop_eq_nil_iff.mp remaining
      simp [List.getElem?_eq_none finished] at next
  | cons times rest ih =>
    have next : cube[walk.cubeIdx]? = some times := by
      have head := congrArg (·[0]?) remaining
      simpa [List.getElem?_drop] using head
    by_cases enters : walk.cubeTimes ≤ walk.vecTimes ∨ times = 1
    · have behind :
          cube.drop (walk.recordPair.stepCube times).cubeIdx = rest := by
        have tail := congrArg List.tail remaining
        simpa [Walk.stepCube, List.tail_drop] using tail
      obtain ⟨after, advanced, facts⟩ :=
        ih _ behind (walkAt_stepCube here next enters)
          (phase_stepCube deepest here phase next enters)
      have moved : walk.cubeIdx + 1 ≤ after.cubeIdx := by
        simpa [Walk.stepCube] using facts.further
      refine ⟨after, ?_, facts.here, facts.phase, by omega, ?_, facts.stopped, ?_⟩
      · simp [advanceCube, enters, advanced]
      · simpa [Walk.stepCube] using facts.sameVec
      · intro same
        omega
    · refine ⟨walk, ?_, here, phase, le_rfl, rfl, ?_, fun _ => rfl⟩
      · simp [advanceCube, enters, remaining]
      · intro other present
        rw [next, Option.some.injEq] at present
        subst present
        push Not at enters
        exact enters

/-- What the inner loop over the vector loops leaves. -/
structure VecAdvanced
    (cube vec : List Nat)
    (cubeDepth vecDepth : Nat)
    (before after : Walk) : Prop where
  here : WalkAt cube vec after
  phase : Phase cube vec cubeDepth vecDepth after
  further : before.vecIdx ≤ after.vecIdx
  sameCube : after.cubeIdx = before.cubeIdx
  stopped : ∀ times, vec[after.vecIdx]? = some times → after.cubeTimes < after.vecTimes ∧ times ≠ 1
  unmoved : after.vecIdx = before.vecIdx → after = before

/-- Advancing the vector walk keeps its invariant. -/
theorem advanceVec_spec (deepest : DeepestMeeting cube vec cubeDepth vecDepth)
    (rest : List Nat) (walk : Walk) (remaining : vec.drop walk.vecIdx = rest)
    (here : WalkAt cube vec walk) (waits : CubeWaits cube walk)
    (phase : Phase cube vec cubeDepth vecDepth walk) :
    ∃ after, advanceVec (rest.map some) walk = some ((vec.drop after.vecIdx).map some, after) ∧
      VecAdvanced cube vec cubeDepth vecDepth walk after := by
  induction rest generalizing walk with
  | nil =>
    refine ⟨walk, ?_, here, phase, le_rfl, rfl, ?_, fun _ => rfl⟩
    · simp [advanceVec, remaining]
    · intro times next
      have finished : vec.length ≤ walk.vecIdx := List.drop_eq_nil_iff.mp remaining
      simp [List.getElem?_eq_none finished] at next
  | cons times rest ih =>
    have next : vec[walk.vecIdx]? = some times := by
      have head := congrArg (·[0]?) remaining
      simpa [List.getElem?_drop] using head
    by_cases enters : walk.vecTimes ≤ walk.cubeTimes ∨ times = 1
    · have behind :
          vec.drop (walk.recordPair.stepVec times).vecIdx = rest := by
        have tail := congrArg List.tail remaining
        simpa [Walk.stepVec, List.tail_drop] using tail
      have stillWaits : CubeWaits cube (walk.recordPair.stepVec times) := by
        simpa [CubeWaits, Walk.stepVec] using waits
      obtain ⟨after, advanced, facts⟩ :=
        ih _ behind (walkAt_stepVec here next enters) stillWaits
          (phase_stepVec deepest here waits phase next enters)
      have moved : walk.vecIdx + 1 ≤ after.vecIdx := by
        simpa [Walk.stepVec] using facts.further
      refine ⟨after, ?_, facts.here, facts.phase, by omega, ?_, facts.stopped, ?_⟩
      · simp [advanceVec, enters, advanced]
      · simpa [Walk.stepVec] using facts.sameCube
      · intro same
        omega
    · refine ⟨walk, ?_, here, phase, le_rfl, rfl, ?_, fun _ => rfl⟩
      · simp [advanceVec, enters, remaining]
      · intro other present
        rw [next, Option.some.injEq] at present
        subst present
        push Not at enters
        exact enters

/-! ## The whole walk -/

/-- The walk is ahead of the deepest meeting or has kept its depths. -/
structure Settled (cube vec : List Nat) (cubeDepth vecDepth : Nat) (walk : Walk) : Prop where
  phase : Phase cube vec cubeDepth vecDepth walk
  outcome :
    (walk.cubeIdx ≤ cubeDepth ∧ walk.vecIdx ≤ vecDepth) ∨
      ((cubeDepth < walk.cubeIdx ∨ vecDepth < walk.vecIdx) ∧
        walk.cubeDepth = cubeDepth ∧ walk.vecDepth = vecDepth)

section

variable (deepest : DeepestMeeting cube vec cubeDepth vecDepth)
include deepest

theorem settled_of_stopped (phase : Phase cube vec cubeDepth vecDepth walk)
    (stopped : ∀ times, vec[walk.vecIdx]? = some times → times ≠ 1) :
    Settled cube vec cubeDepth vecDepth walk := by
  cases phase with
  | ahead inCube inVec => exact ⟨Phase.ahead inCube inVec, Or.inl ⟨inCube, inVec⟩⟩
  | trailing pastCube inVec sameTimes cubeKept vecKept timesKept =>
    have reached : walk.vecIdx = vecDepth := by
      rcases Nat.lt_or_eq_of_le inVec with before | reached
      · exfalso
        have inside : walk.vecIdx < vec.length := by
          have bound := deepest.meets.inSecond
          omega
        have present : vec[walk.vecIdx]? = some vec[walk.vecIdx] := List.getElem?_eq_getElem inside
        exact stopped _ present
          (extent_eq_one_of_between before present sameTimes (vecRuns deepest))
      · exact reached
    have passed : Phase cube vec cubeDepth vecDepth walk :=
      Phase.passed (Or.inl pastCube) (Nat.le_of_eq reached.symm) cubeKept
        (vecKept.trans reached) timesKept
    exact ⟨passed, Or.inr ⟨Or.inl pastCube, cubeKept, vecKept.trans reached⟩⟩
  | passed past pastVec cubeKept vecKept timesKept =>
    have passed : Phase cube vec cubeDepth vecDepth walk :=
      Phase.passed past pastVec cubeKept vecKept timesKept
    exact ⟨passed, Or.inr ⟨past, cubeKept, vecKept⟩⟩

/-- Where the walk is stuck it has found the deepest meeting point. -/
theorem depths_of_stuck (here : WalkAt cube vec walk)
    (settled : Settled cube vec cubeDepth vecDepth walk)
    (cubeStuck : walk.cubeIdx < cube.length → walk.vecTimes < walk.cubeTimes)
    (vecStuck : walk.vecIdx < vec.length → walk.cubeTimes < walk.vecTimes) :
    walk.depths = (cubeDepth, vecDepth) := by
  rcases settled.outcome with ⟨inCube, inVec⟩ | ⟨past, cubeKept, vecKept⟩
  · have cubeBound : walk.cubeTimes ≤ outerTimes cube cubeDepth := by
      rw [here.cubeTimes]
      exact outerTimes_le inCube deepest.meets.runs
    have vecBound : walk.vecTimes ≤ outerTimes vec vecDepth := by
      rw [here.vecTimes]
      exact outerTimes_le inVec (vecRuns deepest)
    have meeting := deepest.meets.same
    have cubeInside := deepest.meets.inFirst
    have vecInside := deepest.meets.inSecond
    -- A side that is left could only wait for the other one, which has no loop left and has
    -- then run as often as at the meeting.
    have cubeFinished : walk.cubeIdx = cube.length := by
      by_contra unfinished
      have ahead := cubeStuck (Nat.lt_of_le_of_ne here.cubeIdx unfinished)
      have vecFinished : walk.vecIdx = vec.length := by
        by_contra alsoUnfinished
        have behind := vecStuck (Nat.lt_of_le_of_ne here.vecIdx alsoUnfinished)
        omega
      have atMeeting : walk.vecIdx = vecDepth := by omega
      rw [here.vecTimes, atMeeting] at ahead
      omega
    have vecFinished : walk.vecIdx = vec.length := by
      by_contra unfinished
      have ahead := vecStuck (Nat.lt_of_le_of_ne here.vecIdx unfinished)
      have atMeeting : walk.cubeIdx = cubeDepth := by omega
      rw [here.cubeTimes, atMeeting] at ahead
      omega
    have cubeReached : walk.cubeIdx = cubeDepth := by omega
    have vecReached : walk.vecIdx = vecDepth := by omega
    have same : walk.cubeTimes = walk.vecTimes := by
      rw [here.cubeTimes, here.vecTimes, cubeReached, vecReached, meeting]
    simp [Walk.depths, same, cubeReached, vecReached]
  · have differ := times_ne_of_past deepest here past
    simp [Walk.depths, differ, cubeKept, vecKept]

/-- With enough fuel the walk finds the deepest meeting point. -/
theorem run_depths (fuel : Nat) (walk : Walk)
    (enough : (cube.length - walk.cubeIdx) + (vec.length - walk.vecIdx) < fuel)
    (here : WalkAt cube vec walk) (settled : Settled cube vec cubeDepth vecDepth walk) :
    (Walk.run fuel ((cube.drop walk.cubeIdx).map some) ((vec.drop walk.vecIdx).map some)
      walk).map Walk.depths = some (cubeDepth, vecDepth) := by
  induction fuel generalizing walk with
  | zero => omega
  | succ fuel ih =>
    by_cases finished : cube.length ≤ walk.cubeIdx ∧ vec.length ≤ walk.vecIdx
    · have found :=
        depths_of_stuck deepest here settled (fun unfinished => by omega)
          (fun unfinished => by omega)
      simp [Walk.run, finished, found]
    · obtain ⟨cubeWalk, cubeAdvanced, cubeFacts⟩ :=
        advanceCube_spec deepest _ walk rfl here settled.phase
      have waits : CubeWaits cube cubeWalk := fun times next => (cubeFacts.stopped times next).2
      have cubeVec : (vec.drop walk.vecIdx) = vec.drop cubeWalk.vecIdx := by
        rw [cubeFacts.sameVec]
      obtain ⟨vecWalk, vecAdvanced, vecFacts⟩ :=
        advanceVec_spec deepest _ cubeWalk rfl cubeFacts.here waits cubeFacts.phase
      have nextSettled : Settled cube vec cubeDepth vecDepth vecWalk :=
        settled_of_stopped deepest vecFacts.phase
          (fun times next => (vecFacts.stopped times next).2)
      have cubeLength := vecFacts.here.cubeIdx
      have vecLength := vecFacts.here.vecIdx
      have oldCubeLength := here.cubeIdx
      have oldVecLength := here.vecIdx
      have cubeFurther := cubeFacts.further
      have vecFurther := vecFacts.further
      rw [cubeFacts.sameVec] at vecFurther
      have sameCube := vecFacts.sameCube
      have unfold :
          Walk.run (fuel + 1) ((cube.drop walk.cubeIdx).map some)
              ((vec.drop walk.vecIdx).map some) walk =
            if (cube.drop cubeWalk.cubeIdx).length = (cube.drop walk.cubeIdx).length ∧
                (vec.drop vecWalk.vecIdx).length = (vec.drop walk.vecIdx).length then
              some vecWalk
            else
              Walk.run fuel ((cube.drop cubeWalk.cubeIdx).map some)
                ((vec.drop vecWalk.vecIdx).map some) vecWalk := by
        have notEmpty :
            (((cube.drop walk.cubeIdx).map some).isEmpty &&
              ((vec.drop walk.vecIdx).map some).isEmpty) = false := by
          simpa using finished
        rw [cubeVec] at notEmpty ⊢
        simp only [Walk.run, notEmpty, cubeAdvanced, vecAdvanced, Option.bind_eq_bind,
          Option.bind_some, List.length_map, Bool.false_eq_true, ↓reduceIte]
      rw [unfold]
      simp only [List.length_drop]
      split
      case isTrue unmoved =>
          have cubeSame : cubeWalk.cubeIdx = walk.cubeIdx := by omega
          have vecSame : vecWalk.vecIdx = cubeWalk.vecIdx := by
            rw [cubeFacts.sameVec]
            omega
          have whole : vecWalk = cubeWalk := vecFacts.unmoved vecSame
          have found : vecWalk.depths = (cubeDepth, vecDepth) := by
            apply depths_of_stuck deepest vecFacts.here nextSettled
            · intro unfinished
              rw [whole] at unfinished ⊢
              exact (cubeFacts.stopped _ (List.getElem?_eq_getElem unfinished)).1
            · intro unfinished
              exact (vecFacts.stopped _ (List.getElem?_eq_getElem unfinished)).1
          simp [found]
      case isFalse moved =>
          rw [← sameCube]
          apply ih
          · rw [sameCube] at cubeLength ⊢
            omega
          · exact vecFacts.here
          · exact nextSettled

end

end

/-- The times of a nest in which the loops of the skip list count once. -/
def countedTimes (skipLoopIds : List String) (parents : List ForNode) : List Nat :=
  parents.map fun node => (getLoopIterTimesWithSkip skipLoopIds node).getD 0

/--
The depths that `findTargetLoopDepth` chooses are the deepest at which the two nests have run
equally often, when every dynamic loop is in the skip list.
-/
theorem findTargetLoopDepth_eq {cubeParents vecParents : List ForNode} {cubeDepth vecDepth : Nat}
    (cubeCounted : ∀ node ∈ cubeParents,
      (getLoopIterTimesWithSkip (collectNonConstSharedLoopIds cubeParents vecParents) node).isSome)
    (vecCounted : ∀ node ∈ vecParents,
      (getLoopIterTimesWithSkip (collectNonConstSharedLoopIds cubeParents vecParents) node).isSome)
    (deepest : DeepestMeeting
      (countedTimes (collectNonConstSharedLoopIds cubeParents vecParents) cubeParents)
      (countedTimes (collectNonConstSharedLoopIds cubeParents vecParents) vecParents)
      cubeDepth vecDepth) :
    findTargetLoopDepth cubeParents vecParents = some (cubeDepth, vecDepth) := by
  have rendered :
      ∀ parents : List ForNode,
        (∀ node ∈ parents,
          (getLoopIterTimesWithSkip (collectNonConstSharedLoopIds cubeParents vecParents)
            node).isSome) →
          parents.map (getLoopIterTimesWithSkip
              (collectNonConstSharedLoopIds cubeParents vecParents)) =
            (countedTimes (collectNonConstSharedLoopIds cubeParents vecParents)
              parents).map some := by
    intro parents counted
    rw [countedTimes, List.map_map]
    apply List.map_congr_left
    intro node member
    obtain ⟨times, found⟩ := Option.isSome_iff_exists.mp (counted node member)
    simp [found]
  have start : Phase
      (countedTimes (collectNonConstSharedLoopIds cubeParents vecParents) cubeParents)
      (countedTimes (collectNonConstSharedLoopIds cubeParents vecParents) vecParents)
      cubeDepth vecDepth Walk.start :=
    Phase.ahead (Nat.zero_le _) (Nat.zero_le _)
  have found :=
    run_depths deepest (cubeParents.length + vecParents.length + 1) Walk.start
      (by simp [countedTimes, Walk.start]) (walkAt_start _ _)
      ⟨start, Or.inl ⟨Nat.zero_le _, Nat.zero_le _⟩⟩
  by_cases empty : cubeParents.isEmpty && vecParents.isEmpty
  · have noCube : cubeParents = [] := by simp_all
    have noVec : vecParents = [] := by simp_all
    subst noCube noVec
    have cubeZero := deepest.meets.inFirst
    have vecZero := deepest.meets.inSecond
    simp only [countedTimes, List.map_nil, List.length_nil, Nat.le_zero_eq] at cubeZero vecZero
    simp [findTargetLoopDepth, cubeZero, vecZero]
  · rw [findTargetLoopDepth, if_neg empty]
    dsimp only
    rw [rendered cubeParents cubeCounted, rendered vecParents vecCounted]
    exact found

end TilelangAscend.CrossCoreSync
