import TilelangAscend.LinearPlanning

namespace TilelangAscend.MemoryPlanning

open BumpPlacement
open ExceptRules (exceptBind_eq_ok)

/-!
# Ranges of linear planning

Annotated buffers keep their addresses.  The other buffers that get an address hold ranges apart
from each other, and in the unified buffer behind all annotated ones.  Planning never fails.
-/

/-! ## What a plan promises -/

/-- A buffer of a scope without an annotated address. -/
structure PlannerInput.Unannotated
    (input : PlannerInput)
    (scope : OnChipScope)
    (buffer : Buffer) :
    Prop where
  allocated : buffer ∈ input.originBuffer
  inScope : input.scopeOf buffer = scope
  free : input.preAllocBuffer buffer = none

/-- The addresses of the buffers of a scope. -/
structure LinearPlan
    (input : PlannerInput)
    (scope : OnChipScope)
    (addressMap : Buffer → Option Int) :
    Prop where
  annotated :
    ∀ buffer ∈ input.originBuffer, input.scopeOf buffer = scope →
      ∀ address, input.preAllocBuffer buffer = some address → addressMap buffer = some address
  placed :
    ∀ buffer, input.Unannotated scope buffer → (scope = .sharedUb → buffer ∈ input.externalShapes) →
      ∃ address, addressMap buffer = some address ∧ 0 ≤ address
  apart :
    ∀ left right, input.Unannotated scope left → input.Unannotated scope right → left ≠ right →
      ∀ leftAddress rightAddress, addressMap left = some leftAddress →
        addressMap right = some rightAddress →
        leftAddress + (input.sizes left).toNat ≤ rightAddress ∨
          rightAddress + (input.sizes right).toNat ≤ leftAddress
  behindAnnotated :
    scope = .sharedUb → ∀ buffer, input.Unannotated scope buffer →
      ∀ other ∈ input.originBuffer, input.scopeOf other = scope →
      ∀ otherAddress, input.preAllocBuffer other = some otherAddress →
      ∀ address, addressMap buffer = some address →
        otherAddress + (input.sizes other).toNat ≤ address

/-- All ranges of a plan end below `2 ^ 63`, also those of the alignment behind them. -/
structure PlannerInput.Representable (input : PlannerInput) : Prop where
  fromZero :
    demand (fun buffer => ((input.sizes buffer).toNat : Int)) 31 input.originBuffer < 2 ^ 63
  fromAnnotated :
    ∀ buffer ∈ input.originBuffer, ∀ address, input.preAllocBuffer buffer = some address →
      -2 ^ 63 ≤ address + (input.sizes buffer).toNat ∧
        address + (input.sizes buffer).toNat +
          demand (fun other => ((input.sizes other).toNat : Int)) 31 input.originBuffer < 2 ^ 63

/-! ## Words -/

theorem asInt64_of_range {value : Int} (atLeast : -2 ^ 63 ≤ value)
    (below : value < 2 ^ 63) : asInt64 value = value := by
  unfold asInt64 wordRange Int.bmod
  dsimp only
  split
  · omega
  · omega

theorem alignOffset_rounds : Rounds alignOffset 31 (2 ^ 63 - 1) := by
  intro offset start fits
  have inner : asSizeT (asSizeT offset + 31) = offset + 31 := by
    unfold asSizeT wordRange
    omega
  unfold alignOffset
  rw [inner, asInt64_of_range (by omega) (by omega)]
  omega

namespace PlannerInput

variable {input : PlannerInput} {buffer head : Buffer} {buffers : List Buffer}
  {addressMap : Buffer → Option Int} {address : Int} {scope : OnChipScope}
  {state first : LinearState}

theorem Representable.bufSize (representable : input.Representable)
    (member : buffer ∈ input.originBuffer) :
    input.bufSize buffer = (input.sizes buffer).toNat := by
  have single : demand (fun other => ((input.sizes other).toNat : Int)) 31 [buffer] ≤
      demand (fun other => ((input.sizes other).toNat : Int)) 31 input.originBuffer :=
    demand_sublist (fun other _ => Int.natCast_nonneg _) (by decide)
      (List.singleton_sublist.mpr member)
  have bound := representable.fromZero
  rw [demand_cons] at single
  have sizeNonneg : (0 : Int) ≤ (input.sizes buffer).toNat := Int.natCast_nonneg _
  have nothing : demand (fun other => ((input.sizes other).toNat : Int)) 31 [] = 0 := rfl
  rw [PlannerInput.bufSize, asInt64_of_range (by omega) (by omega)]

theorem Representable.demand_le (representable : input.Representable)
    (sublist : buffers.Sublist input.originBuffer) :
    demand input.bufSize 31 buffers ≤
      demand (fun other => ((input.sizes other).toNat : Int)) 31 input.originBuffer := by
  have same : demand input.bufSize 31 buffers =
      demand (fun other => ((input.sizes other).toNat : Int)) 31 buffers := by
    refine congrArg List.sum (List.map_congr_left fun buffer member => ?_)
    rw [representable.bufSize (sublist.subset member)]
  rw [same]
  exact demand_sublist (fun other _ => Int.natCast_nonneg _) (by decide) sublist

/-! ## The loops -/

theorem setAddress_of_ne {other : Buffer} (differs : other ≠ buffer) :
    setAddress addressMap buffer address other = addressMap other :=
  if_neg differs

theorem allocBuffer_eq_ok (scope : OnChipScope) (addressMap : Buffer → Option Int)
    (buffer : Buffer) (offset : Int) :
    input.allocBuffer scope addressMap buffer offset =
      .ok (setAddress addressMap buffer offset, alignOffset (offset + input.bufSize buffer)) := by
  unfold allocBuffer checkOverflow
  rw [if_neg (fun ⟨_, isOn⟩ => Bool.noConfusion isOn)]

/-- The buffers that the first loop puts behind one another. -/
def bumped (input : PlannerInput) (scope : OnChipScope) (buffers : List Buffer) : List Buffer :=
  if scope = .sharedUb then
    []
  else
    buffers.filter fun buffer =>
      input.scopeOf buffer = scope && (input.preAllocBuffer buffer).isNone

/-- What the first loop does with a list of buffers. -/
structure FirstLoop
    (input : PlannerInput)
    (scope : OnChipScope)
    (buffers : List Buffer)
    (state last : LinearState) :
    Prop where
  frame :
    ∀ buffer, (buffer ∉ buffers ∨ input.scopeOf buffer ≠ scope ∨
      scope = .sharedUb ∧ input.preAllocBuffer buffer = none) →
      last.addressMap buffer = state.addressMap buffer
  annotated :
    ∀ buffer ∈ buffers, input.scopeOf buffer = scope →
      ∀ address, input.preAllocBuffer buffer = some address → last.addressMap buffer = some address
  placed :
    ∀ entry ∈ place input.bufSize alignOffset state.currentOffset (input.bumped scope buffers),
      last.addressMap entry.1 = some entry.2
  maxGrows : state.maxOffset ≤ last.maxOffset
  maxCovers :
    ∀ buffer ∈ buffers, input.scopeOf buffer = scope →
      ∀ address, input.preAllocBuffer buffer = some address →
        asInt64 (address + (input.sizes buffer).toNat) ≤ last.maxOffset
  maxReached :
    scope = .sharedUb → last.maxOffset = state.maxOffset ∨
      ∃ buffer ∈ buffers, ∃ address, input.preAllocBuffer buffer = some address ∧
        last.maxOffset = asInt64 (address + (input.sizes buffer).toNat)

theorem bumped_cons (scope : OnChipScope) (head : Buffer) (rest : List Buffer) :
    input.bumped scope (head :: rest) = input.bumped scope [head] ++ input.bumped scope rest := by
  unfold bumped
  split
  · rfl
  · rw [← List.filter_append, List.singleton_append]

theorem FirstLoop.unchanged (noneBumped : input.bumped scope [head] = [])
    (notAnnotated : input.scopeOf head = scope → input.preAllocBuffer head = none)
    (state : LinearState) : input.FirstLoop scope [head] state state := by
  have contradicts : ∀ buffer ∈ [head], input.scopeOf buffer = scope →
      ∀ address, input.preAllocBuffer buffer ≠ some address := by
    intro buffer member inScope address isAddress
    obtain rfl := List.mem_singleton.mp member
    exact nomatch (notAnnotated inScope).symm.trans isAddress
  refine ⟨fun _ _ => rfl, ?_, ?_, le_rfl, ?_, fun _ => .inl rfl⟩
  · intro buffer member inScope address isAddress
    exact absurd isAddress (contradicts buffer member inScope address)
  · rw [noneBumped]
    exact nofun
  · intro buffer member inScope address isAddress
    exact absurd isAddress (contradicts buffer member inScope address)

theorem FirstLoop.annotatedRound (noneBumped : input.bumped scope [head] = [])
    (inScope : input.scopeOf head = scope)
    (annotated : input.preAllocBuffer head = some address) (state : LinearState) :
    input.FirstLoop scope [head] state
      { state with
        addressMap := setAddress state.addressMap head address
        maxOffset := max state.maxOffset (asInt64 (address + (input.sizes head).toNat)) } := by
  refine ⟨?_, ?_, ?_, le_max_left _ _, ?_, ?_⟩
  · intro buffer unaffected
    refine setAddress_of_ne fun same => ?_
    subst same
    rcases unaffected with absent | otherScope | ⟨_, free⟩
    · exact absent (List.mem_singleton_self _)
    · exact otherScope inScope
    · exact nomatch annotated.symm.trans free
  · intro buffer member _ other isOther
    obtain rfl := List.mem_singleton.mp member
    rw [annotated] at isOther
    rw [← isOther]
    exact if_pos rfl
  · rw [noneBumped]
    exact nofun
  · intro buffer member _ other isOther
    obtain rfl := List.mem_singleton.mp member
    obtain rfl := Option.some.inj (annotated.symm.trans isOther)
    exact le_max_right _ _
  · intro _
    rcases max_choice state.maxOffset
        (asInt64 (address + (input.sizes head).toNat)) with kept | reached
    · exact .inl kept
    · exact .inr ⟨head, List.mem_singleton_self _, address, annotated, reached⟩

theorem FirstLoop.bumpedRound {maxOffset currentOffset : Int}
    (isBumped : input.bumped scope [head] = [head]) (notUb : scope ≠ .sharedUb)
    (inScope : input.scopeOf head = scope)
    (notAnnotated : input.preAllocBuffer head = none) (state : LinearState)
    (grows : state.maxOffset ≤ maxOffset) :
    input.FirstLoop scope [head] state
      ⟨setAddress state.addressMap head state.currentOffset, currentOffset, maxOffset⟩ := by
  refine ⟨?_, ?_, ?_, grows, ?_, fun same => absurd same notUb⟩
  · intro buffer unaffected
    refine setAddress_of_ne fun same => ?_
    subst same
    rcases unaffected with absent | otherScope | ⟨same, _⟩
    · exact absent (List.mem_singleton_self _)
    · exact otherScope inScope
    · exact notUb same
  · intro buffer member _ address isAddress
    obtain rfl := List.mem_singleton.mp member
    exact nomatch notAnnotated.symm.trans isAddress
  · rw [isBumped]
    intro entry member
    obtain rfl := List.mem_singleton.mp member
    exact if_pos rfl
  · intro buffer member _ address isAddress
    obtain rfl := List.mem_singleton.mp member
    exact nomatch notAnnotated.symm.trans isAddress

theorem firstLoop_round (input : PlannerInput) (scope : OnChipScope) (head : Buffer)
    (state : LinearState) :
    ∃ next, input.placeOrigin scope state head = .ok next ∧
      next.currentOffset =
        finish input.bufSize alignOffset state.currentOffset (input.bumped scope [head]) ∧
      input.FirstLoop scope [head] state next := by
  unfold placeOrigin
  by_cases elsewhere : input.scopeOf head ≠ scope
  · have noneBumped : input.bumped scope [head] = [] := by
      simp only [bumped, List.filter_cons, elsewhere, decide_false, Bool.false_and,
        Bool.false_eq_true, if_false, List.filter_nil, ite_self]
    rw [if_pos elsewhere]
    exact ⟨state, rfl, by rw [noneBumped]; rfl,
      .unchanged noneBumped (fun inScope => absurd inScope elsewhere) state⟩
  rw [if_neg elsewhere]
  have inScope : input.scopeOf head = scope := not_not.mp elsewhere
  cases annotated : input.preAllocBuffer head with
  | some address =>
    have noneBumped : input.bumped scope [head] = [] := by
      simp only [bumped, List.filter_cons, annotated, Option.isNone_some, Bool.and_false,
        Bool.false_eq_true, if_false, List.filter_nil, ite_self]
    exact ⟨_, rfl, by rw [noneBumped]; rfl, .annotatedRound noneBumped inScope annotated state⟩
  | none =>
    dsimp only
    by_cases isUb : scope = .sharedUb
    · have noneBumped : input.bumped scope [head] = [] := if_pos isUb
      rw [if_neg (not_not.mpr isUb)]
      exact ⟨state, rfl, by rw [noneBumped]; rfl, .unchanged noneBumped (fun _ => annotated) state⟩
    · have isBumped : input.bumped scope [head] = [head] := by
        simp only [bumped, isUb, if_false, List.filter_cons, inScope, decide_true, annotated,
          Option.isNone_none, Bool.and_self, if_true, List.filter_nil]
      rw [if_pos isUb, allocBuffer_eq_ok]
      exact ⟨_, rfl, by rw [isBumped]; rfl,
        .bumpedRound isBumped isUb inScope annotated state (le_max_left _ _)⟩

theorem mem_bumped :
    buffer ∈ input.bumped scope buffers ↔
      scope ≠ .sharedUb ∧ buffer ∈ buffers ∧ input.scopeOf buffer = scope ∧
        input.preAllocBuffer buffer = none := by
  unfold bumped
  split
  · rename_i isUb
    exact ⟨nofun, fun ⟨notUb, _⟩ => absurd isUb notUb⟩
  · rename_i notUb
    simp only [List.mem_filter, Bool.and_eq_true, decide_eq_true_eq, Option.isNone_iff_eq_none,
      ne_eq, notUb, not_false_eq_true, true_and]

theorem FirstLoop.cons
    {scope : OnChipScope}
    {head : Buffer}
    {rest : List Buffer}
    {state next last : LinearState}
    (fresh : head ∉ rest)
    (current : next.currentOffset =
      finish input.bufSize alignOffset state.currentOffset (input.bumped scope [head]))
    (first : input.FirstLoop scope [head] state next)
    (later : input.FirstLoop scope rest next last) :
    input.FirstLoop scope (head :: rest) state last where
  frame := by
    intro buffer unaffected
    rw [later.frame buffer, first.frame buffer]
    · exact unaffected.imp_left fun absent inHead =>
        absent (List.mem_cons.mpr (.inl (List.mem_singleton.mp inHead)))
    · exact unaffected.imp_left fun absent inRest => absent (List.mem_cons_of_mem _ inRest)
  annotated := by
    intro buffer member inScope address isAddress
    rcases List.mem_cons.mp member with rfl | inRest
    · rw [later.frame buffer (.inl fresh)]
      exact first.annotated buffer (List.mem_singleton_self _) inScope address isAddress
    · exact later.annotated buffer inRest inScope address isAddress
  placed := by
    intro entry member
    rw [bumped_cons, place_append, ← current] at member
    rcases List.mem_append.mp member with inFirst | inLater
    · have isHead : entry.1 ∈ input.bumped scope [head] := by
        have mapped := List.mem_map_of_mem (f := Prod.fst) inFirst
        rwa [map_fst_place] at mapped
      have same : entry.1 = head := List.mem_singleton.mp (mem_bumped.mp isHead).2.1
      rw [later.frame entry.1 (.inl (same ▸ fresh))]
      exact first.placed entry inFirst
    · exact later.placed entry inLater
  maxGrows := first.maxGrows.trans later.maxGrows
  maxCovers := by
    intro buffer member inScope address isAddress
    rcases List.mem_cons.mp member with rfl | inRest
    · exact (first.maxCovers buffer (List.mem_singleton_self _) inScope address isAddress).trans
        later.maxGrows
    · exact later.maxCovers buffer inRest inScope address isAddress
  maxReached := by
    intro isUb
    rcases later.maxReached isUb with kept | ⟨buffer, member, reached⟩
    · rw [kept]
      rcases first.maxReached isUb with before | ⟨buffer, member, reached⟩
      · exact .inl before
      · exact .inr ⟨buffer, List.mem_cons.mpr (.inl (List.mem_singleton.mp member)), reached⟩
    · exact .inr ⟨buffer, List.mem_cons_of_mem _ member, reached⟩

theorem firstLoop (input : PlannerInput) (scope : OnChipScope) (distinct : buffers.Nodup)
    (state : LinearState) :
    ∃ last, buffers.foldlM (input.placeOrigin scope) state = .ok last ∧
      input.FirstLoop scope buffers state last := by
  induction buffers generalizing state with
  | nil =>
    refine ⟨state, rfl, fun _ _ => rfl, nofun, ?_, le_rfl, nofun, fun _ => .inl rfl⟩
    have noneBumped : input.bumped scope [] = [] := ite_self _
    rw [noneBumped]
    exact nofun
  | cons head rest ih =>
    obtain ⟨fresh, restDistinct⟩ := List.nodup_cons.mp distinct
    obtain ⟨next, stepped, current, first⟩ := firstLoop_round input scope head state
    obtain ⟨last, run, later⟩ := ih restDistinct next
    rw [List.foldlM_cons, stepped]
    exact ⟨last, run, .cons fresh current first later⟩

/-- The buffers of a list that wait for an address in the unified buffer. -/
def waiting (input : PlannerInput) (state : LinearState) (buffers : List Buffer) : List Buffer :=
  buffers.filter fun buffer => buffer ∈ input.tmpBuffers && (state.addressMap buffer).isNone

/-- What the second loop does with a list of buffers. -/
structure SecondLoop
    (input : PlannerInput)
    (buffers : List Buffer)
    (state last : LinearState) :
    Prop where
  frame :
    ∀ buffer, buffer ∉ input.waiting state buffers →
      last.addressMap buffer = state.addressMap buffer
  placed :
    ∀ entry ∈ place input.bufSize alignOffset state.maxOffset (input.waiting state buffers),
      last.addressMap entry.1 = some entry.2

theorem secondLoop (input : PlannerInput) (distinct : buffers.Nodup) (state : LinearState) :
    ∃ last, buffers.foldlM input.placeTmp state = .ok last ∧
      input.SecondLoop buffers state last := by
  induction buffers generalizing state with
  | nil => exact ⟨state, rfl, fun _ _ => rfl, nofun⟩
  | cons head rest ih =>
    obtain ⟨fresh, restDistinct⟩ := List.nodup_cons.mp distinct
    rw [List.foldlM_cons]
    unfold placeTmp
    by_cases waits : head ∈ input.tmpBuffers ∧ state.addressMap head = none
    · obtain ⟨last, run, later⟩ := ih restDistinct
        { state with
          addressMap := setAddress state.addressMap head state.maxOffset
          maxOffset := alignOffset (state.maxOffset + input.bufSize head) }
      have sameWaiting :
          input.waiting
              { state with
                addressMap := setAddress state.addressMap head state.maxOffset
                maxOffset := alignOffset (state.maxOffset + input.bufSize head) } rest =
            input.waiting state rest := by
        refine List.filter_congr fun buffer member => ?_
        have differs : buffer ≠ head := fun same => fresh (same ▸ member)
        simp only [setAddress_of_ne differs]
      have isWaiting : input.waiting state (head :: rest) = head :: input.waiting state rest := by
        refine List.filter_cons_of_pos ?_
        rw [waits.2, decide_eq_true waits.1]
        rfl
      rw [if_pos waits, allocBuffer_eq_ok]
      refine ⟨last, run, ?_, ?_⟩
      · intro buffer absent
        rw [isWaiting] at absent
        obtain ⟨differs, notLater⟩ := not_or.mp (mt List.mem_cons.mpr absent)
        rw [later.frame buffer (by rw [sameWaiting]; exact notLater)]
        exact setAddress_of_ne differs
      · intro entry member
        rw [isWaiting] at member
        rcases List.mem_cons.mp member with rfl | inRest
        · have notLater : head ∉ input.waiting state rest :=
            fun inRest => fresh (List.mem_of_mem_filter inRest)
          rw [later.frame head (by rw [sameWaiting]; exact notLater)]
          exact if_pos rfl
        · have placed := later.placed entry
          rw [sameWaiting] at placed
          exact placed inRest
    · obtain ⟨last, run, later⟩ := ih restDistinct state
      have notWaiting : input.waiting state (head :: rest) = input.waiting state rest := by
        refine List.filter_cons_of_neg ?_
        simpa only [Bool.and_eq_true, decide_eq_true_eq, Option.isNone_iff_eq_none] using waits
      rw [if_neg waits]
      refine ⟨last, run, ?_, ?_⟩
      · rw [notWaiting]
        exact later.frame
      · rw [notWaiting]
        exact later.placed

/-! ## One scope -/

theorem Representable.placed (representable : input.Representable) {items : List Buffer}
    {offset : Int} (sublist : items.Sublist input.originBuffer) (start : 0 ≤ offset)
    (fits : offset +
      demand (fun other => ((input.sizes other).toNat : Int)) 31 input.originBuffer < 2 ^ 63) :
    (∀ entry ∈ place input.bufSize alignOffset offset items, offset ≤ entry.2) ∧
      ∀ left ∈ place input.bufSize alignOffset offset items,
        ∀ right ∈ place input.bufSize alignOffset offset items, left.1 ≠ right.1 →
          left.2 + (input.sizes left.1).toNat ≤ right.2 ∨
            right.2 + (input.sizes right.1).toNat ≤ left.2 := by
  have sizes : ∀ item ∈ items, 0 ≤ input.bufSize item := by
    intro item member
    rw [representable.bufSize (sublist.subset member)]
    exact Int.natCast_nonneg _
  have itemsFit : offset + demand input.bufSize 31 items ≤ 2 ^ 63 - 1 := by
    have less := representable.demand_le sublist
    omega
  have bufSizeOf : ∀ entry ∈ place input.bufSize alignOffset offset items,
      input.bufSize entry.1 = (input.sizes entry.1).toNat := by
    intro entry member
    have isItem := List.mem_map_of_mem (f := Prod.fst) member
    rw [map_fst_place] at isItem
    exact representable.bufSize (sublist.subset isItem)
  refine ⟨fun entry member =>
    ((place_between alignOffset_rounds sizes (by decide) start itemsFit).2 entry member).1, ?_⟩
  intro left isLeft right isRight differ
  rw [← bufSizeOf left isLeft, ← bufSizeOf right isRight]
  exact place_apart alignOffset_rounds sizes (by decide) start itemsFit isLeft isRight differ

theorem Representable.linearPlan (representable : input.Representable)
    {items : List Buffer} {offset : Int} {planned : Buffer → Option Int}
    (sublist : items.Sublist input.originBuffer) (start : 0 ≤ offset)
    (fits : offset +
      demand (fun other => ((input.sizes other).toNat : Int)) 31 input.originBuffer < 2 ^ 63)
    (annotated :
      ∀ buffer ∈ input.originBuffer, input.scopeOf buffer = scope →
        ∀ address, input.preAllocBuffer buffer = some address → planned buffer = some address)
    (placedAre :
      ∀ entry ∈ place input.bufSize alignOffset offset items, planned entry.1 = some entry.2)
    (others : ∀ buffer, input.Unannotated scope buffer → buffer ∉ items → planned buffer = none)
    (complete :
      ∀ buffer, input.Unannotated scope buffer →
        (scope = .sharedUb → buffer ∈ input.externalShapes) → buffer ∈ items)
    (behind :
      scope = .sharedUb → ∀ other ∈ input.originBuffer, input.scopeOf other = scope →
        ∀ address, input.preAllocBuffer other = some address →
          address + (input.sizes other).toNat ≤ offset) :
    LinearPlan input scope planned := by
  obtain ⟨after, apart⟩ := representable.placed sublist start fits
  have entryOf : ∀ buffer address, input.Unannotated scope buffer → planned buffer = some address →
      (buffer, address) ∈ place input.bufSize alignOffset offset items := by
    intro buffer address unannotated isPlanned
    have isItem : buffer ∈ items := by
      by_contra absent
      exact nomatch (others buffer unannotated absent).symm.trans isPlanned
    obtain ⟨other, member⟩ :
        ∃ other, (buffer, other) ∈ place input.bufSize alignOffset offset items :=
      exists_placed isItem
    obtain rfl := Option.some.inj ((placedAre _ member).symm.trans isPlanned)
    exact member
  constructor
  · exact annotated
  · intro buffer unannotated hasShape
    obtain ⟨address, member⟩ :
        ∃ address, (buffer, address) ∈ place input.bufSize alignOffset offset items :=
      exists_placed (complete buffer unannotated hasShape)
    exact ⟨address, placedAre _ member, start.trans (after _ member)⟩
  · intro left right leftFree rightFree differ leftAddress rightAddress isLeft isRight
    exact apart _ (entryOf left leftAddress leftFree isLeft) _
      (entryOf right rightAddress rightFree isRight) differ
  · intro isUb buffer unannotated other member inScope otherAddress isAnnotated address isPlanned
    exact (behind isUb other member inScope otherAddress isAnnotated).trans
      (after _ (entryOf buffer address unannotated isPlanned))

theorem Representable.asInt64_end (representable : input.Representable)
    (member : buffer ∈ input.originBuffer)
    (isAddress : input.preAllocBuffer buffer = some address) :
    asInt64 (address + (input.sizes buffer).toNat) = address + (input.sizes buffer).toNat := by
  obtain ⟨atLeast, below⟩ := representable.fromAnnotated buffer member address isAddress
  have nonneg : 0 ≤
      demand (fun other => ((input.sizes other).toNat : Int)) 31 input.originBuffer :=
    demand_nonneg (fun _ _ => Int.natCast_nonneg _) (by decide)
  exact asInt64_of_range atLeast (by omega)

theorem scope_of_mem_waiting (member : buffer ∈ input.waiting state buffers) :
    input.scopeOf buffer = .sharedUb ∧ input.preAllocBuffer buffer = none := by
  obtain ⟨_, waits⟩ := List.mem_filter.mp member
  have isTmpBuffer := of_decide_eq_true (Bool.and_eq_true_iff.mp waits).1
  obtain ⟨_, kept⟩ := List.mem_filter.mp isTmpBuffer
  obtain ⟨free, inUb⟩ := Bool.and_eq_true_iff.mp kept
  exact ⟨of_decide_eq_true inUb, Option.isNone_iff_eq_none.mp free⟩

section

variable (representable : input.Representable)
include representable

theorem Representable.fromMax (fromZero : state.maxOffset = 0) (isUb : scope = .sharedUb)
    (facts : input.FirstLoop scope input.originBuffer state first) :
    first.maxOffset +
      demand (fun other => ((input.sizes other).toNat : Int)) 31 input.originBuffer < 2 ^ 63 := by
  rcases facts.maxReached isUb with kept | ⟨buffer, member, address, isAddress, reached⟩
  · rw [kept, fromZero, zero_add]
    exact representable.fromZero
  · rw [reached, representable.asInt64_end member isAddress]
    exact (representable.fromAnnotated buffer member address isAddress).2

theorem Representable.linearPlan_unified
    (unplanned : ∀ buffer, input.scopeOf buffer = .sharedUb → addressMap buffer = none)
    {last : LinearState}
    (firstFacts : input.FirstLoop .sharedUb input.originBuffer ⟨addressMap, 0, 0⟩ first)
    (lastFacts : input.SecondLoop input.originBuffer first last) :
    LinearPlan input .sharedUb last.addressMap := by
  have freeOnes : ∀ buffer, input.Unannotated .sharedUb buffer →
      first.addressMap buffer = none := by
    intro buffer unannotated
    rw [firstFacts.frame buffer (.inr (.inr ⟨rfl, unannotated.free⟩))]
    exact unplanned buffer unannotated.inScope
  refine representable.linearPlan List.filter_sublist firstFacts.maxGrows
    (representable.fromMax rfl rfl firstFacts) ?_ lastFacts.placed ?_ ?_ ?_
  · intro buffer member inScope address isAddress
    rw [lastFacts.frame buffer fun waits =>
      nomatch isAddress.symm.trans (scope_of_mem_waiting waits).2]
    exact firstFacts.annotated buffer member inScope address isAddress
  · intro buffer unannotated absent
    rw [lastFacts.frame buffer absent]
    exact freeOnes buffer unannotated
  · intro buffer unannotated hasShape
    refine List.mem_filter.mpr ⟨unannotated.allocated, ?_⟩
    rw [freeOnes buffer unannotated, Bool.and_eq_true, decide_eq_true_eq]
    refine ⟨List.mem_filter.mpr ⟨hasShape rfl, ?_⟩, rfl⟩
    rw [unannotated.free, unannotated.inScope]
    rfl
  · intro _ other member inScope address isAddress
    have covers := firstFacts.maxCovers other member inScope address isAddress
    rwa [representable.asInt64_end member isAddress] at covers

theorem Representable.linearPlan_bumped (notUb : scope ≠ .sharedUb)
    (firstFacts : input.FirstLoop scope input.originBuffer ⟨addressMap, 0, 0⟩ first) :
    LinearPlan input scope first.addressMap := by
  have sublist : (input.bumped scope input.originBuffer).Sublist input.originBuffer := by
    unfold bumped
    rw [if_neg notUb]
    exact List.filter_sublist
  refine representable.linearPlan sublist le_rfl ?_ firstFacts.annotated
    firstFacts.placed ?_ ?_ fun same => absurd same notUb
  · simpa only [zero_add] using representable.fromZero
  · intro buffer unannotated absent
    exact absurd (mem_bumped.mpr ⟨notUb, unannotated.allocated, unannotated.inScope,
      unannotated.free⟩) absent
  · intro buffer unannotated _
    exact mem_bumped.mpr ⟨notUb, unannotated.allocated, unannotated.inScope, unannotated.free⟩

theorem Representable.planMemoryForScopeLinear
    (unplanned : ∀ buffer, input.scopeOf buffer = scope → addressMap buffer = none) :
    ∃ planned, input.planMemoryForScopeLinear scope addressMap = .ok planned ∧
      (∀ buffer, input.scopeOf buffer ≠ scope → planned buffer = addressMap buffer) ∧
      LinearPlan input scope planned := by
  obtain ⟨first, firstRun, firstFacts⟩ := firstLoop input scope input.uniqueNames ⟨addressMap, 0, 0⟩
  have elsewhere : ∀ buffer, input.scopeOf buffer ≠ scope →
      first.addressMap buffer = addressMap buffer :=
    fun buffer otherScope => firstFacts.frame buffer (.inr (.inl otherScope))
  by_cases isUb : scope = .sharedUb
  · obtain ⟨last, lastRun, lastFacts⟩ := secondLoop input input.uniqueNames first
    subst isUb
    refine ⟨last.addressMap,
      exceptBind_eq_ok.mpr ⟨first, firstRun, exceptBind_eq_ok.mpr ⟨last, lastRun, rfl⟩⟩, ?_,
      representable.linearPlan_unified unplanned firstFacts lastFacts⟩
    intro buffer otherScope
    rw [lastFacts.frame buffer fun member => otherScope (scope_of_mem_waiting member).1]
    exact elsewhere buffer otherScope
  · exact ⟨first.addressMap, exceptBind_eq_ok.mpr ⟨first, firstRun, if_neg isUb⟩, elsewhere,
      representable.linearPlan_bumped isUb firstFacts⟩

end

end PlannerInput

/-! ## All scopes -/

variable {input : PlannerInput} {addressMap : Buffer → Option Int}

theorem LinearPlan.congr
    {scope : OnChipScope}
    {other : Buffer → Option Int}
    (plan : LinearPlan input scope addressMap)
    (same : ∀ buffer, input.scopeOf buffer = scope → other buffer = addressMap buffer) :
    LinearPlan input scope other where
  annotated buffer member inScope address isAddress :=
    (same buffer inScope).trans (plan.annotated buffer member inScope address isAddress)
  placed buffer unannotated hasShape := by
    rw [same buffer unannotated.inScope]
    exact plan.placed buffer unannotated hasShape
  apart left right leftFree rightFree differ leftAddress rightAddress isLeft isRight := by
    rw [same left leftFree.inScope] at isLeft
    rw [same right rightFree.inScope] at isRight
    exact plan.apart left right leftFree rightFree differ leftAddress rightAddress isLeft isRight
  behindAnnotated isUb buffer unannotated member allocated inScope otherAddress isAnnotated
      address isPlanned := by
    rw [same buffer unannotated.inScope] at isPlanned
    exact plan.behindAnnotated isUb buffer unannotated member allocated inScope otherAddress
      isAnnotated address isPlanned

theorem planScopes (representable : input.Representable) {scopes : List OnChipScope}
    (distinct : scopes.Nodup)
    (unplanned : ∀ buffer, input.scopeOf buffer ∈ scopes → addressMap buffer = none) :
    ∃ planned,
      scopes.foldlM (fun addressMap scope => input.planMemoryForScopeLinear scope addressMap)
          addressMap = .ok planned ∧
        (∀ buffer, input.scopeOf buffer ∉ scopes → planned buffer = addressMap buffer) ∧
        ∀ scope ∈ scopes, LinearPlan input scope planned := by
  induction scopes generalizing addressMap with
  | nil => exact ⟨addressMap, rfl, fun _ _ => rfl, nofun⟩
  | cons scope rest ih =>
    obtain ⟨fresh, restDistinct⟩ := List.nodup_cons.mp distinct
    have firstUnplanned : ∀ buffer, input.scopeOf buffer = scope → addressMap buffer = none :=
      fun buffer inScope => unplanned buffer (List.mem_cons.mpr (.inl inScope))
    obtain ⟨next, stepped, frame, plan⟩ := representable.planMemoryForScopeLinear firstUnplanned
    have restUnplanned : ∀ buffer, input.scopeOf buffer ∈ rest → next buffer = none := by
      intro buffer inRest
      rw [frame buffer fun same => fresh (same ▸ inRest)]
      exact unplanned buffer (List.mem_cons_of_mem _ inRest)
    obtain ⟨planned, run, restFrame, restPlans⟩ := ih restDistinct restUnplanned
    rw [List.foldlM_cons, stepped]
    refine ⟨planned, run, ?_, ?_⟩
    · intro buffer outside
      obtain ⟨otherScope, notInRest⟩ := not_or.mp (mt List.mem_cons.mpr outside)
      rw [restFrame buffer notInRest, frame buffer otherScope]
    · intro other member
      rcases List.mem_cons.mp member with rfl | inRest
      · exact plan.congr fun buffer inScope => restFrame buffer (inScope ▸ fresh)
      · exact restPlans other inRest

/--
Planning without reuse always finishes: annotated buffers keep their addresses, the other ones
that it places are apart from each other, and in the unified buffer from the annotated ones.
-/
theorem planMemoryLinear_apart
    (input : PlannerInput)
    (representable : input.Representable)
    (scopes : List OnChipScope)
    (distinct : scopes.Nodup) :
    ∃ addressMap, input.planMemoryLinear scopes = .ok addressMap ∧
      ∀ scope ∈ scopes, LinearPlan input scope addressMap := by
  have unplanned : ∀ buffer, input.scopeOf buffer ∈ scopes →
      (fun _ => none : Buffer → Option Int) buffer = none :=
    fun _ _ => rfl
  obtain ⟨planned, run, _, plans⟩ := planScopes representable distinct unplanned
  exact ⟨planned, run, plans⟩

/-- An annotated and two other buffers of the unified buffer, and one of the L1 buffer. -/
def mixedBuffers : PlannerInput where
  originBuffer := ["tile", "index", "acc", "left"]
  scopeOf buffer := if buffer = "left" then .sharedL1 else .sharedUb
  sizes _ := 256
  preAllocBuffer buffer := if buffer = "index" then some 1024 else none
  externalShapes := ["tile", "index", "acc"]
  uniqueNames := by decide

/-- The plan of both scopes. -/
theorem planMemoryLinear_mixedBuffers :
    ∃ addressMap, mixedBuffers.planMemoryLinear [.sharedUb, .sharedL1] = .ok addressMap ∧
      ∀ scope ∈ [OnChipScope.sharedUb, .sharedL1], LinearPlan mixedBuffers scope addressMap := by
  refine planMemoryLinear_apart mixedBuffers ⟨by decide, ?_⟩ [.sharedUb, .sharedL1] (by decide)
  intro buffer member address isAddress
  have isIndex : address = 1024 := by
    unfold mixedBuffers at isAddress
    dsimp only at isAddress
    split at isAddress
    · exact (Option.some.inj isAddress).symm
    · cases isAddress
  subst isIndex
  have size : (mixedBuffers.sizes buffer).toNat = 256 := rfl
  have total : demand (fun other => ((mixedBuffers.sizes other).toNat : Int)) 31
      mixedBuffers.originBuffer = 1148 := by decide
  rw [size, total]
  decide

/-- A buffer of the L1 buffer that is larger than it. -/
def oversizedTile : PlannerInput where
  originBuffer := ["tile"]
  scopeOf _ := .sharedL1
  sizes _ := 600064
  preAllocBuffer _ := none
  externalShapes := []
  uniqueNames := by decide

/-- The oversized buffer gets an address without an error. -/
theorem oversizedTile_exceeds_capacity :
    (oversizedTile.planMemoryForScopeLinear .sharedL1 fun _ => none).map (fun planned =>
        planned "tile") = .ok (some 0) ∧
      OnChipScope.memoryLimit .sharedL1 < 0 + (oversizedTile.sizes "tile").toNat := by
  decide

end TilelangAscend.MemoryPlanning
