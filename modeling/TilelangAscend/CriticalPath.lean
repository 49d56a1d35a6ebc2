import Mathlib.Order.Basic
import Mathlib.Order.Nat

namespace TilelangAscend.CriticalPath

/-!
# Critical paths

Jobs of positive duration with precedence edges.  A timetable that respects the edges
finishes every job no earlier than any path that leads to it takes; a timetable that
starts every job as soon as its predecessors allow attains that bound.
-/

variable {α : Type}

/-- A path that ends in a job, with the total duration of its jobs. -/
inductive PathTo
    (edge : α → α → Prop)
    (duration : α → Nat) :
    α → Nat → Prop where
  | single
      (job : α) :
      PathTo edge duration job (duration job)
  | extend
      {earlier job : α}
      {total : Nat} :
      PathTo edge duration earlier total →
      edge earlier job →
      PathTo edge duration job (total + duration job)

variable {edge : α → α → Prop} {duration start finish : α → Nat}

theorem path_le_finish (durations : ∀ job, finish job = start job + duration job)
    (respects : ∀ earlier job, edge earlier job → finish earlier ≤ start job) {job : α}
    {total : Nat} (path : PathTo edge duration job total) : total ≤ finish job := by
  induction path with
  | single job =>
    rw [durations]
    exact Nat.le_add_left _ _
  | @extend earlier job total earlierPath link ih =>
    rw [durations job]
    have ordered := respects earlier job link
    exact Nat.add_le_add_right (le_trans ih ordered) _

/--
A timetable in which every job starts at 0 or when a predecessor finishes is attained
by a path.
-/
theorem exists_path_finish (positive : ∀ job, 0 < duration job)
    (durations : ∀ job, finish job = start job + duration job)
    (earliest : ∀ job, start job = 0 ∨ ∃ earlier, edge earlier job ∧ start job = finish earlier)
    (job : α) : PathTo edge duration job (finish job) := by
  induction finishShape : finish job using Nat.strongRecOn generalizing job with
  | _ bound ih =>
    rcases earliest job with startsAtZero | ⟨earlier, link, startsAfter⟩
    · have whole : bound = duration job := by
        rw [← finishShape, durations, startsAtZero, Nat.zero_add]
      rw [whole]
      exact .single job
    · have finishes : bound = finish earlier + duration job := by
        rw [← finishShape, durations, startsAfter]
      have smaller : finish earlier < bound := by
        have := positive job
        omega
      rw [finishes]
      exact .extend (ih (finish earlier) smaller earlier rfl) link

end TilelangAscend.CriticalPath
