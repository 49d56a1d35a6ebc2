import Mathlib.Data.List.Basic
import Mathlib.Data.List.Forall2
import Mathlib.Algebra.Order.Ring.Nat
import Mathlib.Tactic.Ring

namespace TilelangAscend.TileArrays

/-!
# Tiles, payloads and concatenation

A payload lists the elements of an array row by row, each in a block of one size.  A window of a
matrix that is cut along an axis at the boundaries of blocks is put together again by a
concatenation along that axis.
-/

/-! ## Blocks of a payload -/

section Blocks

variable {α β : Type}

/-- The block of a payload at an index. -/
def block (size : Nat) (payload : List α) (index : Nat) : List α :=
  (payload.drop (index * size)).take size

theorem block_flatMap {size : Nat} {items : List β} {encode : β → List α}
    (sizes : ∀ item ∈ items, (encode item).length = size) {index : Nat}
    (inside : index < items.length) :
    block size (items.flatMap encode) index = encode (items[index]) := by
  induction items generalizing index with
  | nil =>
    cases inside
  | cons first rest ih =>
    have firstSize : (encode first).length = size := sizes first List.mem_cons_self
    cases index with
    | zero =>
      rw [block, Nat.zero_mul, List.drop_zero, List.flatMap_cons, ← firstSize]
      exact List.take_left
    | succ index =>
      have dropped : ((first :: rest).flatMap encode).drop ((index + 1) * size) =
          (rest.flatMap encode).drop (index * size) := by
        rw [List.flatMap_cons, Nat.succ_mul, Nat.add_comm, ← firstSize, List.drop_append,
          Nat.add_comm, Nat.add_sub_cancel, List.drop_eq_nil_of_le (Nat.le_add_left _ _),
          List.nil_append]
      rw [block, dropped]
      exact ih (fun item member => sizes item (List.mem_cons_of_mem _ member))
        (Nat.lt_of_succ_lt_succ inside)

theorem getElem?_flatMap_rows {rows cols : Nat} {row : Nat → List α}
    (widths : ∀ index < rows, (row index).length = cols) {rowIndex colIndex : Nat}
    (rowInside : rowIndex < rows) (colInside : colIndex < cols) :
    ((List.range rows).flatMap row)[rowIndex * cols + colIndex]? = (row rowIndex)[colIndex]? := by
  have taken : block cols ((List.range rows).flatMap row) rowIndex = row rowIndex := by
    rw [block_flatMap (fun index member => widths index (List.mem_range.mp member))
      (by rw [List.length_range]; exact rowInside), List.getElem_range]
  rw [← taken, block, List.getElem?_take_of_lt colInside, List.getElem?_drop]

theorem flatMap_range_blocks (count size limit : Nat) (value : Nat → α) :
    ((List.range count).flatMap fun index =>
        (List.range (min size (limit - index * size))).map fun position =>
          value (index * size + position)) =
      (List.range (min (count * size) limit)).map value := by
  induction count with
  | zero =>
    rw [Nat.zero_mul, Nat.zero_min]
    rfl
  | succ count ih =>
    rw [List.range_succ, List.flatMap_append, ih, List.flatMap_singleton, Nat.succ_mul]
    by_cases reached : limit ≤ count * size
    · rw [Nat.sub_eq_zero_of_le reached, Nat.min_zero, Nat.min_eq_right reached,
        Nat.min_eq_right (by omega)]
      exact List.append_nil _
    · have more : min (count * size + size) limit =
          count * size + min size (limit - count * size) := by
        omega
      rw [more, List.range_add, List.map_append, Nat.min_eq_left (by omega), List.map_map]
      rfl

end Blocks

/-! ## Tiles -/

/-- An array of two dimensions. -/
structure Tile (α : Type) where
  rows : Nat
  cols : Nat
  value : Nat → Nat → α

/-- The axes of a tile; the first one counts the rows. -/
inductive Axis where
  | rows
  | cols
  deriving Repr, DecidableEq

section Tiles

variable {α : Type}

/-- The array of a payload, each element a block of one size. -/
def ofPayload (rows cols size : Nat) (payload : List α) : Tile (List α) :=
  ⟨rows, cols, fun row col => block size payload (row * cols + col)⟩

namespace Tile

/-- The extent along an axis. -/
def along (tile : Tile α) : Axis → Nat
  | .rows => tile.rows
  | .cols => tile.cols

/-- The extent across an axis. -/
def across (tile : Tile α) : Axis → Nat
  | .rows => tile.cols
  | .cols => tile.rows

/-- The value at an index along an axis and one across it. -/
def entry (tile : Tile α) (axis : Axis) (index other : Nat) : α :=
  match axis with
  | .rows => tile.value index other
  | .cols => tile.value other index

/-- A tile from its extents and values along and across an axis. -/
def make (axis : Axis) (along across : Nat) (value : Nat → Nat → α) : Tile α :=
  match axis with
  | .rows => ⟨along, across, value⟩
  | .cols => ⟨across, along, fun row col => value col row⟩

variable (axis : Axis) (extent other : Nat) (value : Nat → Nat → α)

@[simp]
theorem along_make : (make axis extent other value).along axis = extent := by
  cases axis with
  | rows => rfl
  | cols => rfl

@[simp]
theorem across_make : (make axis extent other value).across axis = other := by
  cases axis with
  | rows => rfl
  | cols => rfl

@[simp]
theorem entry_make : (make axis extent other value).entry axis = value := by
  cases axis with
  | rows => rfl
  | cols => rfl

/-- Two tiles one behind the other along an axis. -/
def join (axis : Axis) (first second : Tile α) : Option (Tile α) :=
  if first.across axis = second.across axis then
    some
      (make axis (first.along axis + second.along axis) (first.across axis)
        fun index other =>
          if index < first.along axis then
            first.entry axis index other
          else
            second.entry axis (index - first.along axis) other)
  else
    none

/-- `np.concatenate`: some tiles one behind the other along an axis. -/
def concatenate (axis : Axis) : List (Tile α) → Option (Tile α)
  | [] => none
  | first :: rest => rest.foldlM (join axis) first

/-- A tile is the part of a matrix from an index along an axis on. -/
structure Covers
    (tile : Tile α)
    (axis : Axis)
    (matrix : Nat → Nat → α)
    (start width height : Nat) :
    Prop where
  along : tile.along axis = width
  across : tile.across axis = height
  values : ∀ index < width, ∀ other < height,
    tile.entry axis index other = matrix (start + index) other

variable {axis}

/-- Two neighbouring tiles join to the tile of both. -/
theorem Covers.join {first second : Tile α} {matrix : Nat → Nat → α}
    {start width otherWidth height : Nat} (left : first.Covers axis matrix start width height)
    (right : second.Covers axis matrix (start + width) otherWidth height) :
    ∃ joined, first.join axis second = some joined ∧
      joined.Covers axis matrix start (width + otherWidth) height := by
  unfold Tile.join
  rw [if_pos (left.across.trans right.across.symm)]
  refine ⟨_, rfl, ?_, ?_, ?_⟩
  · rw [along_make, left.along, right.along]
  · rw [across_make, left.across]
  · intro index inside other otherInside
    rw [entry_make, left.along]
    by_cases inFirst : index < width
    · rw [if_pos inFirst]
      exact left.values index inFirst other otherInside
    · rw [if_neg inFirst, right.values (index - width) (by omega) other otherInside]
      congr 1
      omega

end Tile

end Tiles

/-! ## Cuts at block boundaries -/

/--
A range cut at the multiples of a block size, as starts and widths.  Each cut is at least one
wide, so that the length of the range bounds their number.
-/
def cuts (blockSize limit : Nat) : Nat → Nat → List (Nat × Nat)
  | 0, _ => []
  | fuel + 1, cursor =>
    if cursor < limit then
      let width := min (blockSize - cursor % blockSize) (limit - cursor)
      (cursor, width) :: cuts blockSize limit fuel (cursor + width)
    else
      []

section Cuts

variable {α : Type} {blockSize limit fuel cursor : Nat}

theorem cuts_cons (positive : 0 < blockSize) (inside : cursor < limit)
    (enough : limit ≤ cursor + fuel) :
    ∃ width rest, cuts blockSize limit fuel cursor = (cursor, width) :: rest ∧
      0 < width ∧ cursor % blockSize + width ≤ blockSize ∧ cursor + width ≤ limit ∧
      rest = cuts blockSize limit (fuel - 1) (cursor + width) := by
  cases fuel with
  | zero => omega
  | succ fuel =>
    have remainder := Nat.mod_lt cursor positive
    refine ⟨min (blockSize - cursor % blockSize) (limit - cursor), _, ?_, ?_, ?_, ?_, rfl⟩
    · rw [cuts, if_pos inside]
      rfl
    · omega
    · omega
    · omega

/-- A cut lies inside the range and in one block. -/
theorem mem_cuts (positive : 0 < blockSize) {cut : Nat × Nat}
    (member : cut ∈ cuts blockSize limit fuel cursor) :
    cursor ≤ cut.1 ∧ 0 < cut.2 ∧ cut.1 + cut.2 ≤ limit ∧ cut.1 % blockSize + cut.2 ≤ blockSize := by
  induction fuel generalizing cursor with
  | zero =>
    cases member
  | succ fuel ih =>
    rw [cuts] at member
    split at member
    · rename_i inside
      have remainder := Nat.mod_lt cursor positive
      rcases List.mem_cons.mp member with rfl | later
      · dsimp only
        omega
      · obtain ⟨after, nonempty, before, inBlock⟩ := ih later
        exact ⟨by omega, nonempty, before, inBlock⟩
    · cases member

variable {axis : Axis} {matrix : Nat → Nat → α} {height : Nat} {tiles : List (Tile α)}

theorem foldlM_join_cuts {start width : Nat} {tile : Tile α} (positive : 0 < blockSize)
    (enough : limit ≤ cursor + fuel) (reached : start + width = cursor)
    (notBehind : cursor ≤ limit) (covers : tile.Covers axis matrix start width height)
    (parts : List.Forall₂ (fun cut (part : Tile α) => part.Covers axis matrix cut.1 cut.2 height)
      (cuts blockSize limit fuel cursor) tiles) :
    ∃ joined, tiles.foldlM (Tile.join axis) tile = some joined ∧
      joined.Covers axis matrix start (limit - start) height := by
  induction fuel generalizing cursor width tile tiles with
  | zero =>
    have finished : limit - start = width := by omega
    obtain rfl := List.forall₂_nil_left_iff.mp parts
    exact ⟨tile, rfl, finished ▸ covers⟩
  | succ fuel ih =>
    by_cases inside : cursor < limit
    · obtain ⟨cutWidth, rest, cutsAre, nonempty, _, before, restIs⟩ :=
        cuts_cons positive inside enough
      subst reached
      rw [cutsAre] at parts
      obtain ⟨first, others, firstCovers, otherParts, rfl⟩ := List.forall₂_cons_left_iff.mp parts
      obtain ⟨joined, joinedIs, joinedCovers⟩ := covers.join firstCovers
      rw [Nat.add_sub_cancel] at restIs
      rw [List.foldlM_cons, joinedIs, Option.bind_eq_bind, Option.bind_some]
      exact ih (by omega) (Nat.add_assoc _ _ _).symm before joinedCovers (restIs ▸ otherParts)
    · have finished : limit - start = width := by omega
      rw [cuts, if_neg inside] at parts
      obtain rfl := List.forall₂_nil_left_iff.mp parts
      exact ⟨tile, rfl, finished ▸ covers⟩

/-- The tiles of the cuts join to the tile of the range. -/
theorem concatenate_cuts (positive : 0 < blockSize) (inside : cursor < limit)
    (enough : limit ≤ cursor + fuel)
    (parts : List.Forall₂ (fun cut (part : Tile α) => part.Covers axis matrix cut.1 cut.2 height)
      (cuts blockSize limit fuel cursor) tiles) :
    ∃ joined, Tile.concatenate axis tiles = some joined ∧
      joined.Covers axis matrix cursor (limit - cursor) height := by
  obtain ⟨width, rest, cutsAre, nonempty, _, before, restIs⟩ := cuts_cons positive inside enough
  rw [cutsAre] at parts
  obtain ⟨first, others, firstCovers, otherParts, rfl⟩ := List.forall₂_cons_left_iff.mp parts
  exact foldlM_join_cuts positive (by omega) rfl before firstCovers (restIs ▸ otherParts)

end Cuts

end TilelangAscend.TileArrays
