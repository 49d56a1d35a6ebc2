import Mathlib.Data.List.Nodup
import Mathlib.Data.List.Range
import Mathlib.Logic.Function.Basic

namespace TilelangAscend.IndexRanges

/-!
# Reads and writes of lists of index ranges

Half-open ranges of a memory, listed in the order in which a payload is spread over them.  A
payload that is written to ranges without a common index can be read back, and a write leaves
every index outside its ranges alone.
-/

variable {α : Type}

/-- The indices of a half-open range, in order. -/
def indices (range : Nat × Nat) : List Nat :=
  List.range' range.1 (range.2 - range.1)

/-- The indices of a list of ranges, in the order of the list. -/
def indicesOf (ranges : List (Nat × Nat)) : List Nat :=
  ranges.flatMap indices

/-- Replace the contents of one range. -/
def setRange (memory : Nat → α) (range : Nat × Nat) (chunk : List α) : Nat → α :=
  fun index =>
    if range.1 ≤ index ∧ index < range.2 then
      chunk.getD (index - range.1) (memory index)
    else
      memory index

/-- The contents of a list of ranges, one after another. -/
def readRanges (memory : Nat → α) (ranges : List (Nat × Nat)) : List α :=
  ranges.flatMap fun range => (indices range).map memory

/-- Spread a payload over a list of ranges. -/
def writeRanges
    (memory : Nat → α) :
    List (Nat × Nat) → List α → Nat → α
  | [], _ => memory
  | range :: rest, payload =>
    writeRanges (setRange memory range (payload.take (range.2 - range.1))) rest
      (payload.drop (range.2 - range.1))

/-- Set every index of a list of ranges to one value. -/
def fillRanges (memory : Nat → α) (ranges : List (Nat × Nat)) (value : α) : Nat → α :=
  ranges.foldl
    (fun current range => setRange current range (List.replicate (range.2 - range.1) value)) memory

/-! ## Indices -/

variable {range : Nat × Nat} {index : Nat} {memory : Nat → α} {chunk payload : List α}
  {ranges : List (Nat × Nat)}

@[simp]
theorem mem_indices : index ∈ indices range ↔ range.1 ≤ index ∧ index < range.2 := by
  rw [indices, List.mem_range'_1]
  omega

@[simp]
theorem length_indices (range : Nat × Nat) : (indices range).length = range.2 - range.1 :=
  List.length_range'

theorem indicesOf_cons (range : Nat × Nat) (rest : List (Nat × Nat)) :
    indicesOf (range :: rest) = indices range ++ indicesOf rest :=
  List.flatMap_cons

theorem indices_append {first middle last : Nat} (ordered : first ≤ middle ∧ middle ≤ last) :
    indices (first, middle) ++ indices (middle, last) = indices (first, last) := by
  have ends : middle = first + 1 * (middle - first) := by omega
  have total : middle - first + (last - middle) = last - first := by omega
  calc indices (first, middle) ++ indices (middle, last)
      = List.range' first (middle - first) ++
          List.range' (first + 1 * (middle - first)) (last - middle) := by
        rw [← ends]
        rfl
    _ = List.range' first (last - first) := by rw [List.range'_append, total]
    _ = indices (first, last) := rfl

theorem flatMap_indices_blocks (start block count : Nat) :
    ((List.range count).flatMap fun position =>
        indices (start + position * block, start + position * block + block)) =
      indices (start, start + count * block) := by
  induction count with
  | zero => simp [indices]
  | succ count ih =>
    have next : start + count * block + block = start + (count + 1) * block := by
      rw [Nat.succ_mul, Nat.add_assoc]
    rw [List.range_succ, List.flatMap_append, ih, List.flatMap_singleton, next]
    exact indices_append ⟨Nat.le_add_right _ _, by omega⟩

/-! ## Reads and writes -/

theorem readRanges_eq_map (memory : Nat → α) (ranges : List (Nat × Nat)) :
    readRanges memory ranges = (indicesOf ranges).map memory := by
  rw [readRanges, indicesOf, List.map_flatMap]

/-- A range holds the chunk that was written. -/
theorem map_setRange (size : chunk.length = range.2 - range.1) :
    (indices range).map (setRange memory range chunk) = chunk := by
  apply List.ext_getElem
  · rw [List.length_map, length_indices, size]
  intro position inIndices inChunk
  have inside : range.1 ≤ range.1 + position ∧ range.1 + position < range.2 := by omega
  simp only [List.getElem_map, indices, List.getElem_range', Nat.one_mul, setRange, if_pos inside,
    Nat.add_sub_cancel_left]
  rw [List.getD_eq_getElem?_getD, List.getElem?_eq_getElem inChunk, Option.getD_some]

theorem setRange_of_notMem (outside : index ∉ indices range) :
    setRange memory range chunk index = memory index := by
  rw [mem_indices] at outside
  exact if_neg outside

/-- Writing ranges leaves other indices alone. -/
theorem writeRanges_of_notMem (outside : index ∉ indicesOf ranges) :
    writeRanges memory ranges payload index = memory index := by
  induction ranges generalizing memory payload with
  | nil => rfl
  | cons range rest ih =>
    rw [indicesOf_cons, List.mem_append, not_or] at outside
    rw [writeRanges, ih outside.2, setRange_of_notMem outside.1]

/-- Ranges that are apart hold the payload that was written. -/
theorem map_writeRanges (apart : (indicesOf ranges).Nodup)
    (size : payload.length = (indicesOf ranges).length) :
    (indicesOf ranges).map (writeRanges memory ranges payload) = payload := by
  induction ranges generalizing memory payload with
  | nil => exact (List.eq_nil_of_length_eq_zero size).symm
  | cons range rest ih =>
    rw [indicesOf_cons] at apart size ⊢
    obtain ⟨_, restApart, disjoint⟩ := List.nodup_append.mp apart
    have sizes : payload.length = range.2 - range.1 + (indicesOf rest).length := by
      rw [size, List.length_append, length_indices]
    have first : (indices range).map (writeRanges memory (range :: rest) payload) =
        payload.take (range.2 - range.1) := by
      have stored : (indices range).map
          (setRange memory range (payload.take (range.2 - range.1))) =
            payload.take (range.2 - range.1) :=
        map_setRange (by rw [List.length_take]; omega)
      rw [← stored]
      refine List.map_congr_left fun index member => ?_
      exact writeRanges_of_notMem fun inRest => disjoint index member index inRest rfl
    have later : (indicesOf rest).map (writeRanges memory (range :: rest) payload) =
        payload.drop (range.2 - range.1) :=
      ih restApart (by rw [List.length_drop]; omega)
    rw [List.map_append, first, later, List.take_append_drop]

theorem fillRanges_apply (memory : Nat → α) (ranges : List (Nat × Nat)) (value : α) (index : Nat) :
    fillRanges memory ranges value index =
      if index ∈ indicesOf ranges then value else memory index := by
  induction ranges generalizing memory with
  | nil => rfl
  | cons range rest ih =>
    have member : index ∈ indicesOf (range :: rest) ↔
        index ∈ indices range ∨ index ∈ indicesOf rest := by
      rw [indicesOf_cons, List.mem_append]
    rw [fillRanges, List.foldl_cons, ← fillRanges, ih]
    by_cases inRest : index ∈ indicesOf rest
    · rw [if_pos inRest, if_pos (member.mpr (Or.inr inRest))]
    rw [if_neg inRest]
    by_cases inFirst : index ∈ indices range
    · have inside := mem_indices.mp inFirst
      have below : index - range.1 < range.2 - range.1 := by omega
      rw [if_pos (member.mpr (Or.inl inFirst)), setRange, if_pos inside,
        List.getD_eq_getElem?_getD, List.getElem?_replicate_of_lt below, Option.getD_some]
    · rw [if_neg fun either => (member.mp either).elim inFirst inRest, setRange_of_notMem inFirst]

end TilelangAscend.IndexRanges
