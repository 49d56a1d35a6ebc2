import TilelangAscend.ScopedSafety

namespace TilelangAscend.ScopedSync

open SyncInsert

/-!
# Sequences with more synchronization

Merging two copies of a loop body only adds synchronization to each of them.  What the visitor
emits for one copy therefore stays, in order, in every program that the rebuilder makes of it.
-/

/-- A sequence with the statements and at least the synchronization of another one. -/
inductive Extends : RebuiltBody SyncUnit → RebuiltBody SyncUnit → Prop where
  | stop {larger syncs : List SyncUnit} :
      Survives syncs larger → Extends (.stop larger) (.stop syncs)
  | operation {larger syncs : List SyncUnit} {op : Operation}
      {largerRest rest : RebuiltBody SyncUnit} :
      Survives syncs larger →
      Extends largerRest rest →
      Extends (.operation larger op largerRest) (.operation syncs op rest)
  /-- The larger sequence has no no-ops. -/
  | noOp {syncs : List SyncUnit} {larger rest : RebuiltBody SyncUnit} :
      Extends larger (rest.prepend syncs) → Extends larger (.noOp syncs rest)
  | wrap {larger syncs : List SyncUnit} {wrapper : Wrapper}
      {largerBody body largerRest rest : RebuiltBody SyncUnit} :
      Survives syncs larger →
      Extends largerBody body →
      Extends largerRest rest →
      Extends (.wrap larger wrapper largerBody largerRest) (.wrap syncs wrapper body rest)
  | branch {larger syncs : List SyncUnit} {kind : Branch}
      {largerFirst first largerSecond second largerRest rest : RebuiltBody SyncUnit} :
      Survives syncs larger →
      Extends largerFirst first →
      Extends largerSecond second →
      Extends largerRest rest →
      Extends (.branch larger kind largerFirst largerSecond largerRest)
        (.branch syncs kind first second rest)
  | forLoop {larger syncs : List SyncUnit} {header : LoopHeader}
      {largerBody body largerRest rest : RebuiltBody SyncUnit} :
      Survives syncs larger →
      Extends largerBody body →
      Extends largerRest rest →
      Extends (.forLoop larger header largerBody largerRest) (.forLoop syncs header body rest)

namespace Body

variable {Sync Loop Marker : Type}

/-- The synchronization in front of a sequence. -/
def leading : Body Sync Loop Marker → List Sync
  | .stop syncs => syncs
  | .operation syncs _ _ => syncs
  | .noOp syncs _ => syncs
  | .wrap syncs _ _ _ => syncs
  | .branch syncs _ _ _ _ => syncs
  | .forLoop syncs _ _ _ => syncs
  | .unrolledLoop syncs _ _ _ _ => syncs

theorem prepend_prepend (first second : List Sync) (body : Body Sync Loop Marker) :
    (body.prepend second).prepend first = body.prepend (first ++ second) := by
  cases body <;> simp only [prepend, List.append_assoc]

@[simp] theorem prepend_nil (body : Body Sync Loop Marker) : body.prepend [] = body := by
  cases body <;> rfl

end Body

theorem survives_append_left {syncs larger : List SyncUnit} (emitted : List SyncUnit)
    (survives : Survives syncs larger) : Survives (emitted ++ syncs) (emitted ++ larger) := by
  induction emitted with
  | nil => exact survives
  | cons unit _ ih => exact .cons (sameSync_refl unit) ih

namespace Extends

variable {first second third larger block : RebuiltBody SyncUnit}

theorem trans (extended : Extends first second) (extendedNext : Extends second third) :
    Extends first third := by
  induction extendedNext generalizing first with
  | stop survives =>
    cases extended with
    | stop survivesFirst => exact .stop (survives.trans survivesFirst)
  | operation survives _ restExtends =>
    cases extended with
    | operation survivesFirst rest =>
      exact .operation (survives.trans survivesFirst) (restExtends rest)
  | noOp _ ih => exact .noOp (ih extended)
  | wrap survives _ _ bodyExtends restExtends =>
    cases extended with
    | wrap survivesFirst body rest =>
      exact .wrap (survives.trans survivesFirst) (bodyExtends body) (restExtends rest)
  | branch survives _ _ _ firstExtends secondExtends restExtends =>
    cases extended with
    | branch survivesFirst left right rest =>
      exact .branch (survives.trans survivesFirst) (firstExtends left) (secondExtends right)
        (restExtends rest)
  | forLoop survives _ _ bodyExtends restExtends =>
    cases extended with
    | forLoop survivesFirst body rest =>
      exact .forLoop (survives.trans survivesFirst) (bodyExtends body) (restExtends rest)

theorem prepend (extended : Extends larger block) (emitted : List SyncUnit) :
    Extends (larger.prepend emitted) (block.prepend emitted) := by
  induction extended with
  | stop survives => exact .stop (survives_append_left emitted survives)
  | operation survives rest => exact .operation (survives_append_left emitted survives) rest
  | noOp _ ih =>
    apply Extends.noOp
    rwa [Body.prepend_prepend] at ih
  | wrap survives body rest => exact .wrap (survives_append_left emitted survives) body rest
  | branch survives left right rest =>
    exact .branch (survives_append_left emitted survives) left right rest
  | forLoop survives body rest => exact .forLoop (survives_append_left emitted survives) body rest

theorem survives_leading {emitted : List SyncUnit}
    (extended : Extends larger (block.prepend emitted)) : Survives emitted larger.leading := by
  have front {syncs others : List SyncUnit} (survives : Survives (emitted ++ syncs) others) :
      Survives emitted others :=
    (Survives.of_sublist (List.sublist_append_left emitted syncs)).trans survives
  induction block generalizing emitted with
  | stop =>
    cases extended with
    | stop survives => exact front survives
  | operation =>
    cases extended with
    | operation survives => exact front survives
  | noOp syncs rest ih =>
    cases extended with
    | noOp inner =>
      apply front
      apply ih inner
      intro others extra survives
      exact (Survives.of_sublist (List.sublist_append_left _ others)).trans survives
  | wrap =>
    cases extended with
    | wrap survives => exact front survives
  | branch =>
    cases extended with
    | branch survives => exact front survives
  | forLoop =>
    cases extended with
    | forLoop survives => exact front survives
  | unrolledLoop _ marker => exact marker.elim

theorem of_prepend {emitted syncs : List SyncUnit}
    (extended : Extends larger (block.prepend (emitted ++ syncs))) :
    Extends larger (block.prepend syncs) := by
  have drops {others own : List SyncUnit} (survives : Survives (emitted ++ syncs ++ own) others) :
      Survives (syncs ++ own) others := by
    rw [List.append_assoc] at survives
    exact (Survives.of_sublist (List.sublist_append_right emitted _)).trans survives
  induction block generalizing syncs with
  | stop =>
    cases extended with
    | stop survives => exact .stop (drops survives)
  | operation =>
    cases extended with
    | operation survives rest => exact .operation (drops survives) rest
  | noOp own rest ih =>
    cases extended with
    | noOp inner =>
      apply Extends.noOp
      rw [List.append_assoc] at inner
      apply ih inner
      intro others extra survives
      simp only [List.append_assoc] at survives ⊢
      exact (Survives.of_sublist (List.sublist_append_right emitted _)).trans survives
  | wrap =>
    cases extended with
    | wrap survives body rest => exact .wrap (drops survives) body rest
  | branch =>
    cases extended with
    | branch survives left right rest => exact .branch (drops survives) left right rest
  | forLoop =>
    cases extended with
    | forLoop survives body rest => exact .forLoop (drops survives) body rest
  | unrolledLoop _ marker => exact marker.elim

theorem of_prepend_all {emitted : List SyncUnit}
    (extended : Extends larger (block.prepend emitted)) : Extends larger block := by
  rw [← List.append_nil emitted] at extended
  have dropped := extended.of_prepend
  rwa [Body.prepend_nil] at dropped

end Extends

/-! ## Flattening and merging -/

theorem extends_dropNoOps {fence : Operation → List SyncUnit → List SyncUnit}
    (keeps : ∀ op syncs, Survives syncs (fence op syncs)) (body : RebuiltBody SyncUnit) :
    Extends (dropNoOps fence body) body := by
  induction body with
  | stop syncs => exact .stop (Survives.refl syncs)
  | operation syncs op _ restExtends => exact .operation (keeps op syncs) restExtends
  | noOp syncs _ restExtends => exact .noOp (restExtends.prepend syncs)
  | wrap syncs _ _ _ bodyExtends restExtends =>
    exact .wrap (Survives.refl syncs) bodyExtends restExtends
  | branch syncs _ _ _ _ firstExtends secondExtends restExtends =>
    exact .branch (Survives.refl syncs) firstExtends secondExtends restExtends
  | forLoop syncs _ _ _ bodyExtends restExtends =>
    exact .forLoop (Survives.refl syncs) bodyExtends restExtends
  | unrolledLoop _ marker => exact marker.elim

theorem survives_flattenSyncs (op : Operation) (syncs : List SyncUnit) :
    Survives syncs (flattenSyncs unitMerge op syncs) := by
  cases op with
  | call => exact Survives.refl syncs
  | store =>
    simp only [flattenSyncs]
    split
    · exact Survives.refl syncs
    · exact Survives.of_sublist (List.sublist_append_left syncs _)

theorem extends_flattenStmts (body : RebuiltBody SyncUnit) :
    Extends (flattenStmts unitMerge body) body :=
  extends_dropNoOps survives_flattenSyncs body

theorem extends_merged {first second merged : RebuiltBody SyncUnit}
    (merges : mergeStatementSequences unitMerge first second = some merged) :
    Extends merged first ∧ Extends merged second := by
  induction first generalizing second merged with
  | stop syncs =>
    cases second with
    | stop others =>
      cases merges
      obtain ⟨left, right⟩ := survives_mergeSyncSequences syncs others
      exact ⟨.stop left, .stop right⟩
    | _ => cases merges
  | noOp => cases second <;> cases merges
  | operation syncs op _ restExtends =>
    cases second with
    | operation others =>
      simp only [mergeStatementSequences] at merges
      split at merges
      · rename_i sameOp
        cases sameOp
        obtain ⟨rest, restMerges, isMerged⟩ := Option.bind_eq_some_iff.mp merges
        cases isMerged
        obtain ⟨left, right⟩ := survives_mergeSyncSequences syncs others
        obtain ⟨restLeft, restRight⟩ := restExtends restMerges
        exact ⟨.operation left restLeft, .operation right restRight⟩
      · cases merges
    | _ => cases merges
  | wrap syncs wrapper _ _ bodyExtends restExtends =>
    cases second with
    | wrap others =>
      simp only [mergeStatementSequences] at merges
      split at merges
      · rename_i sameWrapper
        cases sameWrapper
        obtain ⟨body, bodyMerges, merges⟩ := Option.bind_eq_some_iff.mp merges
        obtain ⟨rest, restMerges, isMerged⟩ := Option.bind_eq_some_iff.mp merges
        cases isMerged
        obtain ⟨left, right⟩ := survives_mergeSyncSequences syncs others
        obtain ⟨bodyLeft, bodyRight⟩ := bodyExtends bodyMerges
        obtain ⟨restLeft, restRight⟩ := restExtends restMerges
        exact ⟨.wrap left bodyLeft restLeft, .wrap right bodyRight restRight⟩
      · cases merges
    | _ => cases merges
  | branch syncs kind _ _ _ firstExtends secondExtends restExtends =>
    cases second with
    | branch others =>
      simp only [mergeStatementSequences] at merges
      split at merges
      · rename_i sameKind
        cases sameKind
        obtain ⟨left, leftMerges, merges⟩ := Option.bind_eq_some_iff.mp merges
        obtain ⟨right, rightMerges, merges⟩ := Option.bind_eq_some_iff.mp merges
        obtain ⟨rest, restMerges, isMerged⟩ := Option.bind_eq_some_iff.mp merges
        cases isMerged
        obtain ⟨survivesLeft, survivesRight⟩ := survives_mergeSyncSequences syncs others
        obtain ⟨firstLeft, firstRight⟩ := firstExtends leftMerges
        obtain ⟨secondLeft, secondRight⟩ := secondExtends rightMerges
        obtain ⟨restLeft, restRight⟩ := restExtends restMerges
        exact ⟨.branch survivesLeft firstLeft secondLeft restLeft,
          .branch survivesRight firstRight secondRight restRight⟩
      · cases merges
    | _ => cases merges
  | forLoop syncs header _ _ bodyExtends restExtends =>
    cases second with
    | forLoop others =>
      simp only [mergeStatementSequences] at merges
      split at merges
      · rename_i sameHeader
        cases sameHeader
        obtain ⟨body, bodyMerges, merges⟩ := Option.bind_eq_some_iff.mp merges
        obtain ⟨rest, restMerges, isMerged⟩ := Option.bind_eq_some_iff.mp merges
        cases isMerged
        obtain ⟨left, right⟩ := survives_mergeSyncSequences syncs others
        obtain ⟨bodyLeft, bodyRight⟩ := bodyExtends bodyMerges
        obtain ⟨restLeft, restRight⟩ := restExtends restMerges
        exact ⟨.forLoop left bodyLeft restLeft, .forLoop right bodyRight restRight⟩
      · cases merges
    | _ => cases merges
  | unrolledLoop _ marker => exact marker.elim

theorem loopRebuilder_prepend (loopInfos : List LoopInfo) (emitted : List SyncUnit)
    (visited : VisitedBody SyncUnit) :
    loopRebuilder unitMerge loopInfos (visited.prepend emitted) =
      (loopRebuilder unitMerge loopInfos visited).map (Body.prepend emitted) := by
  cases visited with
  | stop => rfl
  | operation _ _ rest =>
    simp only [Body.prepend, loopRebuilder]
    cases loopRebuilder unitMerge loopInfos rest <;> rfl
  | noOp _ rest =>
    simp only [Body.prepend, loopRebuilder]
    cases loopRebuilder unitMerge loopInfos rest <;> rfl
  | wrap _ _ body rest =>
    simp only [Body.prepend, loopRebuilder]
    cases loopRebuilder unitMerge loopInfos body <;>
      cases loopRebuilder unitMerge loopInfos rest <;> rfl
  | branch _ _ first second rest =>
    simp only [Body.prepend, loopRebuilder]
    cases loopRebuilder unitMerge loopInfos first <;>
      cases loopRebuilder unitMerge loopInfos second <;>
        cases loopRebuilder unitMerge loopInfos rest <;> rfl
  | forLoop _ header => exact header.elim
  | unrolledLoop _ marker first second rest =>
    simp only [Body.prepend, loopRebuilder, Option.bind_eq_bind, Option.map_bind,
      Function.comp_def, Option.map_some]

/-! ## Safety behind synchronization -/

section Safety

variable {context : PassContext} {exempt : Pipeline → Prop} {unit : ExecutionUnit}
  {inside : Bool} {state other : OutstandingSet}

theorem follows_of_leading {body : RebuiltBody SyncUnit}
    (same : transferSyncs body.leading state = transferSyncs body.leading other) :
    transfer context unit inside body state = transfer context unit inside body other ∧
      (Safe context exempt unit inside body state ↔
        Safe context exempt unit inside body other) := by
  cases body with
  | unrolledLoop _ marker => exact marker.elim
  | _ => constructor <;> simp only [Body.leading] at same <;> simp only [transfer, Safe, same]

/-- Syncs in front of a body come before all of its runs. -/
theorem follows_prepend (syncs : List SyncUnit) (body : RebuiltBody SyncUnit) :
    transfer context unit inside (body.prepend syncs) state =
        transfer context unit inside body (transferSyncs syncs state) ∧
      (Safe context exempt unit inside (body.prepend syncs) state ↔
        Safe context exempt unit inside body (transferSyncs syncs state)) := by
  cases body with
  | unrolledLoop _ marker => exact marker.elim
  | _ => constructor <;> simp only [Body.prepend, transfer, Safe, transferSyncs_append]

/-- An extended body forgets what a full barrier makes it forget. -/
theorem Extends.forgets {larger block : RebuiltBody SyncUnit}
    (extended : Extends larger (block.prepend [.barrierAll])) (exempt : Pipeline → Prop)
    (state : OutstandingSet) :
    transfer context unit inside larger state = transfer context unit inside larger ⊥ ∧
      (Safe context exempt unit inside larger ⊥ →
        Safe context exempt unit inside larger state) := by
  have survives := extended.survives_leading
  have same : transferSyncs larger.leading state = transferSyncs larger.leading ⊥ := by
    rw [transferSyncs_barrierAll survives state, transferSyncs_barrierAll survives ⊥]
  have follows : transfer context unit inside larger state =
      transfer context unit inside larger ⊥ ∧
        (Safe context exempt unit inside larger state ↔
          Safe context exempt unit inside larger ⊥) := follows_of_leading same
  exact ⟨follows.1, follows.2.mpr⟩

theorem follows_dropNoOps (body : RebuiltBody SyncUnit) (inside : Bool) (state : OutstandingSet) :
    transfer context unit inside (dropNoOps (fun _ syncs => syncs) body) state =
        transfer context unit inside body state ∧
      (Safe context exempt unit inside (dropNoOps (fun _ syncs => syncs) body) state ↔
        Safe context exempt unit inside body state) := by
  induction body generalizing inside state with
  | stop => exact ⟨rfl, Iff.rfl⟩
  | operation syncs op rest restFollows =>
    simp only [dropNoOps, transfer, Safe, (restFollows _ _).1, (restFollows _ _).2, and_self]
  | noOp syncs rest restFollows =>
    have prepended :=
      @follows_prepend context exempt unit inside state syncs
        (dropNoOps (fun _ syncs => syncs) rest)
    have later := restFollows inside (transferSyncs syncs state)
    exact ⟨prepended.1.trans later.1, prepended.2.trans later.2⟩
  | wrap syncs wrapper body rest bodyFollows restFollows =>
    have sameTransfer : (fun isInside => transfer context unit isInside
        (dropNoOps (fun _ syncs => syncs) body)) =
        fun isInside => transfer context unit isInside body :=
      funext fun isInside => funext fun before => (bodyFollows isInside before).1
    have sameSafe : (fun isInside => Safe context exempt unit isInside
        (dropNoOps (fun _ syncs => syncs) body)) =
        fun isInside => Safe context exempt unit isInside body :=
      funext fun isInside => funext fun before => propext (bodyFollows isInside before).2
    simp only [dropNoOps, transfer, Safe, sameTransfer, sameSafe, (restFollows _ _).1,
      (restFollows _ _).2, and_self]
  | branch syncs kind first second rest firstFollows secondFollows restFollows =>
    have sameFirst : transfer context unit inside (dropNoOps (fun _ syncs => syncs) first) =
        transfer context unit inside first :=
      funext fun before => (firstFollows inside before).1
    have sameSecond : transfer context unit inside (dropNoOps (fun _ syncs => syncs) second) =
        transfer context unit inside second :=
      funext fun before => (secondFollows inside before).1
    have firstSafe : Safe context exempt unit inside (dropNoOps (fun _ syncs => syncs) first) =
        Safe context exempt unit inside first :=
      funext fun before => propext (firstFollows inside before).2
    have secondSafe : Safe context exempt unit inside (dropNoOps (fun _ syncs => syncs) second) =
        Safe context exempt unit inside second :=
      funext fun before => propext (secondFollows inside before).2
    simp only [dropNoOps, transfer, Safe, sameFirst, sameSecond, firstSafe, secondSafe,
      (restFollows _ _).1, (restFollows _ _).2, and_self]
  | forLoop syncs header body rest bodyFollows restFollows =>
    simp only [dropNoOps, transfer, Safe, (bodyFollows _ _).1, (bodyFollows _ _).2,
      (restFollows _ _).1, (restFollows _ _).2, and_self]
  | unrolledLoop _ marker => exact marker.elim

end Safety

end TilelangAscend.ScopedSync
