import Mathlib.Data.List.Basic

namespace TilelangAscend.MemoTables

/-!
# Remembered answers

A table of remembered answers in front of a computation that may fail.  The table cannot be
noticed as long as every remembered answer is what the computation would give now, and a change of
the computation is harmless exactly if it changes none of the remembered answers.
-/

section

variable {ε κ ν : Type} [DecidableEq κ]

/-- Look an answer up, or compute and remember it; a full table is emptied first. -/
def memoized (answer : κ → Except ε ν) (limit : Option Nat) (memo : List (κ × ν))
    (key : κ) : Except ε (ν × List (κ × ν)) :=
  match memo.lookup key with
  | some value => .ok (value, memo)
  | none =>
    match answer key with
    | .error failure => .error failure
    | .ok value => .ok (value, (key, value) :: if limit.any (· ≤ memo.length) then [] else memo)

/-- Every remembered answer is the computed one. -/
def Valid (answer : κ → Except ε ν) (memo : List (κ × ν)) : Prop :=
  ∀ key value, memo.lookup key = some value → answer key = .ok value

/-- The table cannot be noticed. -/
def Transparent (answer : κ → Except ε ν) (limit : Option Nat) (memo : List (κ × ν)) : Prop :=
  ∀ key, (memoized answer limit memo key).map Prod.fst = answer key

variable {answer other : κ → Except ε ν} {limit : Option Nat} {memo : List (κ × ν)}

theorem valid_nil : Valid answer [] :=
  fun _ _ found => nomatch found

theorem transparent_iff : Transparent answer limit memo ↔ Valid answer memo := by
  constructor
  · intro transparent key value found
    have same := transparent key
    rw [memoized, found] at same
    exact same.symm
  · intro valid key
    unfold memoized
    cases found : memo.lookup key with
    | some value =>
      rw [valid key value found]
      rfl
    | none =>
      cases computed : answer key with
      | error failure => rfl
      | ok value => rfl

/-- Asking a valid table keeps it valid. -/
theorem Valid.memoized {key : κ} {result : ν × List (κ × ν)} (valid : Valid answer memo)
    (recalled : memoized answer limit memo key = .ok result) : Valid answer result.2 := by
  unfold MemoTables.memoized at recalled
  split at recalled
  · obtain rfl := Except.ok.inj recalled
    exact valid
  split at recalled
  · cases recalled
  rename_i value computed
  obtain rfl := Except.ok.inj recalled
  intro asked found known
  rw [List.lookup_cons] at known
  split at known
  · rename_i same
    rw [eq_of_beq same, computed, Option.some.inj known]
  · split at known
    · cases known
    · exact valid asked found known

/-- A table stays valid if the remembered answers do not change. -/
theorem Valid.change_iff (valid : Valid answer memo) :
    Valid other memo ↔ ∀ key, (memo.lookup key).isSome = true → other key = answer key := by
  constructor
  · intro validOther key remembered
    obtain ⟨value, found⟩ := Option.isSome_iff_exists.mp remembered
    rw [valid key value found, validOther key value found]
  · intro unchanged key value found
    rw [unchanged key (by rw [found]; rfl), valid key value found]

end

end TilelangAscend.MemoTables
