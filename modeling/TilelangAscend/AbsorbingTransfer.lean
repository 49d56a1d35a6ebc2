import Mathlib

namespace TilelangAscend.AbsorbingTransfer

/-!
# Transfer functions whose first iterate is an invariant

A transfer function of a forward analysis is absorbing if what holds before it either passes
through or is replaced: the part of a state that is set aside can be added back afterwards.
One application of such a function then already bounds every later one, so a loop needs no
fixpoint iteration.
-/

section Lattice

variable {α : Type} [SemilatticeSup α]

/-- A monotone function that lets a part of its argument be added back afterwards. -/
structure Absorbing (transfer : α → α) : Prop where
  monotone : Monotone transfer
  absorb : ∀ first second, transfer (first ⊔ second) ≤ first ⊔ transfer second

namespace Absorbing

variable {first second : α → α}

theorem id :
    Absorbing (fun state : α => state) where
  monotone := monotone_id
  absorb _ _ := le_rfl

theorem forget
    [OrderBot α] :
    Absorbing (fun _ : α => ⊥) where
  monotone := monotone_const
  absorb _ _ := bot_le

theorem comp
    (secondAbsorbs : Absorbing second)
    (firstAbsorbs : Absorbing first) :
    Absorbing fun state => second (first state) where
  monotone := secondAbsorbs.monotone.comp firstAbsorbs.monotone
  absorb part rest :=
    (secondAbsorbs.monotone (firstAbsorbs.absorb part rest)).trans
      (secondAbsorbs.absorb part (first rest))

theorem sup
    (firstAbsorbs : Absorbing first)
    (secondAbsorbs : Absorbing second) :
    Absorbing fun state => first state ⊔ second state where
  monotone := firstAbsorbs.monotone.sup secondAbsorbs.monotone
  absorb part rest := by
    refine sup_le ?_ ?_
    · exact (firstAbsorbs.absorb part rest).trans (sup_le_sup_left le_sup_left part)
    · exact (secondAbsorbs.absorb part rest).trans (sup_le_sup_left le_sup_right part)

/-- A second application of an absorbing function adds nothing. -/
theorem twice_le [OrderBot α] (absorbs : Absorbing first) (state : α) :
    first (first state) ≤ first state :=
  calc
    first (first state) = first (first state ⊔ ⊥) := by rw [sup_bot_eq]
    _ ≤ first state ⊔ first ⊥ := absorbs.absorb (first state) ⊥
    _ ≤ first state := sup_le le_rfl (absorbs.monotone bot_le)

end Absorbing

end Lattice

/-! ## Rewriting the elements of a lower set -/

section Rewriting

variable {α : Type} [Preorder α]

/-- Rewrite or drop every element of a lower set, and add new ones. -/
def rewrite (change : α → Option α) (added : Set α) (state : LowerSet α) : LowerSet α :=
  lowerClosure ({after | ∃ before ∈ state, change before = some after} ∪ added)

variable {change : α → Option α} {added : Set α} {state : LowerSet α}

theorem mem_rewrite {before after element : α} (member : before ∈ state)
    (changed : change before = some after) (below : element ≤ after) :
    element ∈ rewrite change added state :=
  mem_lowerClosure.mpr ⟨after, Or.inl ⟨before, member, changed⟩, below⟩

theorem mem_rewrite_added {after element : α} (isAdded : after ∈ added)
    (below : element ≤ after) : element ∈ rewrite change added state :=
  mem_lowerClosure.mpr ⟨after, Or.inr isAdded, below⟩

theorem rewrite_le {bound : LowerSet α}
    (changedBelow : ∀ before ∈ state, ∀ after, change before = some after → after ∈ bound)
    (addedBelow : ∀ after ∈ added, after ∈ bound) : rewrite change added state ≤ bound := by
  refine lowerClosure_le.mpr ?_
  rintro after (⟨before, member, changed⟩ | isAdded)
  · exact changedBelow before member after changed
  · exact addedBelow after isAdded

/-- Rewriting downwards is absorbing. -/
theorem rewrite_absorbing
    (downwards : ∀ before after, change before = some after → after ≤ before) :
    Absorbing (rewrite change added) where
  monotone := by
    intro smaller larger included
    refine rewrite_le ?_ ?_
    · intro before member after changed
      exact mem_rewrite (included member) changed le_rfl
    · intro after isAdded
      exact mem_rewrite_added isAdded le_rfl
  absorb := by
    intro part rest
    refine rewrite_le ?_ ?_
    · intro before member after changed
      rcases LowerSet.mem_sup_iff.mp member with inPart | inRest
      · exact LowerSet.mem_sup_iff.mpr (Or.inl (part.lower (downwards before after changed) inPart))
      · exact LowerSet.mem_sup_iff.mpr (Or.inr (mem_rewrite inRest changed le_rfl))
    · intro after isAdded
      exact LowerSet.mem_sup_iff.mpr (Or.inr (mem_rewrite_added isAdded le_rfl))

end Rewriting

end TilelangAscend.AbsorbingTransfer
