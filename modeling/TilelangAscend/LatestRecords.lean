import Mathlib.Data.List.Basic

namespace TilelangAscend.LatestRecords

/-!
# Tables of latest records

Events of a trace record keyed items, and a table keeps one entry for each key.  The table
tracks a trace if the last item of every key has an entry that represents it, where an entry
may rely on the events after its item.  Some events break the trace: nothing is said about
what was recorded before them.  A window selects the positions of the trace that are tracked.
-/

/-- How events record keyed items, and which events break a trace. -/
structure Recorder (Event Item Key : Type) where
  records : Event → List Item
  key : Item → Key
  breaks : Event → Prop

section Tracking

variable {Event Item Key Entry : Type} {recorder : Recorder Event Item Key}
  {represents : Entry → Item → List Event → Prop} {window : Nat → Prop}
  {table : Key → Option Entry} {trace later : List Event}

/-- An event neither breaks the trace nor records the key of an item. -/
def Recorder.Keeps (recorder : Recorder Event Item Key) (item : Item) (event : Event) : Prop :=
  ¬ recorder.breaks event ∧ ∀ other ∈ recorder.records event, recorder.key other ≠ recorder.key item

/-- An item is the last one of its key; it stands at a position, with some events after it. -/
def Recorder.LastRecord (recorder : Recorder Event Item Key) (trace : List Event)
    (position : Nat) (item : Item) (after : List Event) : Prop :=
  ∃ before event,
    trace = before ++ event :: after ∧ before.length = position ∧
      item ∈ recorder.records event ∧
      ∀ next ∈ after, recorder.Keeps item next

/-- The last item of every key in the window has an entry that represents it. -/
def Recorder.Tracks (recorder : Recorder Event Item Key)
    (represents : Entry → Item → List Event → Prop) (window : Nat → Prop)
    (table : Key → Option Entry) (trace : List Event) : Prop :=
  ∀ position item after, window position → recorder.LastRecord trace position item after →
    ∃ entry, table (recorder.key item) = some entry ∧ represents entry item after

/-! ## Last records of longer traces -/

variable {position : Nat} {item : Item} {after : List Event}

theorem Recorder.LastRecord.of_append
    (last : recorder.LastRecord (trace ++ later) position item after) :
    (∃ between,
      after = between ++ later ∧ position < trace.length ∧
        recorder.LastRecord trace position item between ∧
        ∀ next ∈ later, recorder.Keeps item next) ∨
      trace.length ≤ position ∧ ∃ event ∈ later, item ∈ recorder.records event := by
  obtain ⟨before, event, split, rfl, member, keeps⟩ := last
  rcases List.append_eq_append_iff.mp split with
    ⟨between, beforeSplit, laterSplit⟩ | ⟨between, traceSplit, restSplit⟩
  · right
    refine ⟨by simp [beforeSplit], event, ?_, member⟩
    rw [laterSplit]
    exact List.mem_append_right _ List.mem_cons_self
  · cases between with
    | nil =>
      right
      refine ⟨by simp [traceSplit], event, ?_, member⟩
      rw [List.nil_append] at restSplit
      rw [← restSplit]
      exact List.mem_cons_self
    | cons head between =>
      left
      obtain ⟨rfl, rfl⟩ := List.cons.inj restSplit
      refine ⟨between, rfl, by simp [traceSplit], ?_, ?_⟩
      · exact ⟨before, event, traceSplit, rfl, member,
          fun next isNext => keeps next (List.mem_append_left _ isNext)⟩
      · exact fun next isNext => keeps next (List.mem_append_right _ isNext)

theorem Recorder.LastRecord.of_append_quiet
    (last : recorder.LastRecord (trace ++ later) position item after)
    (quiet : ∀ next ∈ later, recorder.records next = []) :
    ∃ between, after = between ++ later ∧ recorder.LastRecord trace position item between := by
  rcases last.of_append with ⟨between, split, _, earlier, _⟩ | ⟨_, event, isLater, member⟩
  · exact ⟨between, split, earlier⟩
  · rw [quiet event isLater] at member
    cases member

theorem Recorder.LastRecord.of_append_event {event : Event}
    (last : recorder.LastRecord (trace ++ [event]) position item after) :
    (∃ between,
      after = between ++ [event] ∧ recorder.LastRecord trace position item between ∧
        recorder.Keeps item event) ∨
      position = trace.length ∧ item ∈ recorder.records event ∧ after = [] := by
  have split := last.of_append
  rcases split with ⟨between, isAfter, _, earlier, keeps⟩ | ⟨beyond, _⟩
  · exact Or.inl ⟨between, isAfter, earlier, keeps event List.mem_cons_self⟩
  · obtain ⟨before, other, isTrace, rfl, member, _⟩ := last
    have lengths := congrArg List.length isTrace
    simp only [List.length_append, List.length_cons, List.length_nil] at lengths
    have noneAfter : after = [] := List.length_eq_zero_iff.mp (by omega)
    subst noneAfter
    obtain ⟨rfl, same⟩ := List.append_inj' isTrace rfl
    cases same
    exact Or.inr ⟨rfl, member, rfl⟩

/-! ## Rules for tables -/

namespace Recorder.Tracks

theorem narrow {smaller : Nat → Prop} (tracks : recorder.Tracks represents window table trace)
    (inside : ∀ position, smaller position → window position) :
    recorder.Tracks represents smaller table trace :=
  fun position item after inSmaller last =>
    tracks position item after (inside position inSmaller) last

theorem join {bound : Nat}
    (below : recorder.Tracks represents (fun i => window i ∧ i < bound) table trace)
    (above : recorder.Tracks represents (fun i => bound ≤ i) table trace) :
    recorder.Tracks represents window table trace := by
  intro position item after inWindow last
  rcases Nat.lt_or_ge position bound with isBelow | isAbove
  · exact below position item after ⟨inWindow, isBelow⟩ last
  · exact above position item after isAbove last

theorem beyond : recorder.Tracks represents (fun i => trace.length ≤ i) table trace := by
  rintro position item after isBeyond ⟨before, event, rfl, rfl, _⟩
  simp only [List.length_append, List.length_cons] at isBeyond
  omega

/-- More events keep what the table tracks. -/
theorem grow
    (monotone : ∀ entry item after next,
      represents entry item after → represents entry item (after ++ next))
    (reached : ∀ position, window position → position < trace.length)
    (tracks : recorder.Tracks represents window table trace) :
    recorder.Tracks represents window table (trace ++ later) := by
  intro position item after inWindow last
  rcases last.of_append with ⟨between, rfl, _, earlier, _⟩ | ⟨isBeyond, _⟩
  · obtain ⟨entry, found, represented⟩ := tracks position item between inWindow earlier
    exact ⟨entry, found, monotone entry item between later represented⟩
  · exact absurd (reached position inWindow) (by omega)

/-- Events without records keep what the table tracks. -/
theorem quiet {update : Entry → Entry} (silent : ∀ next ∈ later, recorder.records next = [])
    (updated : ∀ entry item after,
      represents entry item after → represents (update entry) item (after ++ later))
    (tracks : recorder.Tracks represents window table trace) :
    recorder.Tracks represents window (fun name => (table name).map update) (trace ++ later) := by
  intro position item after inWindow last
  obtain ⟨between, rfl, earlier⟩ := last.of_append_quiet silent
  obtain ⟨entry, found, represented⟩ := tracks position item between inWindow earlier
  exact ⟨update entry, by simp [found], updated entry item between represented⟩

theorem broken {event : Event} (breaks : recorder.breaks event)
    (silent : recorder.records event = []) :
    recorder.Tracks represents window table (trace ++ [event]) := by
  intro position item after _ last
  rcases last.of_append_event with ⟨_, _, _, keeps⟩ | ⟨_, member, _⟩
  · exact absurd breaks keeps.1
  · rw [silent] at member
    cases member

/-- Recording the latest event keeps what the table tracks. -/
theorem event {next : Event} {updated : Key → Option Entry}
    (monotone : ∀ entry item after next,
      represents entry item after → represents entry item (after ++ next))
    (tracks : recorder.Tracks represents window table trace)
    (kept : ∀ item entry, recorder.Keeps item next → table (recorder.key item) = some entry →
      updated (recorder.key item) = some entry)
    (fresh : ∀ item ∈ recorder.records next, window trace.length →
      ∃ entry, updated (recorder.key item) = some entry ∧ represents entry item []) :
    recorder.Tracks represents window updated (trace ++ [next]) := by
  intro position item after inWindow last
  rcases last.of_append_event with ⟨between, rfl, earlier, keeps⟩ | ⟨rfl, member, rfl⟩
  · obtain ⟨entry, found, represented⟩ := tracks position item between inWindow earlier
    exact ⟨entry, kept item entry keeps found, monotone entry item between [next] represented⟩
  · exact fresh item member inWindow

end Recorder.Tracks

end Tracking

end TilelangAscend.LatestRecords
