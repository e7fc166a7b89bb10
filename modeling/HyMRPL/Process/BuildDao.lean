import HyMRPL.Process.DaoMessage

/-!
# Building a DAO

`dagBuildDao` follows `dag_build_dao` with the `switch` of `dag.c.patch`. The part
before that `switch` is not in the repository; as the patch says, it appends the
node's own target and a transit option with the address of the parent. The bytes
that it chooses freely are the parameter `DaoFields`.
-/

namespace HyMRPL

open Tlv

/-- The header of a DAO besides the DODAG, and the bytes of its options besides the
addresses. -/
structure DaoFields where
  instanceid : UInt8
  flags : UInt8
  resv : UInt8
  daoseq : UInt8
  targetFlags : UInt8
  transitFlags : UInt8
  pathCtrl : UInt8
  pathSeq : UInt8
  lifetime : UInt8

/-- `append_target`. -/
def appendTarget (fields : DaoFields) (pfx : In6Prefix) : Opt :=
  ⟨rplDaoRplTarget, [fields.targetFlags, pfx.len] ++ pfx.addr.toList, by simp⟩

/-- The transit option with the address of the parent. -/
def appendTransit (fields : DaoFields) (parent : In6Addr) : Opt :=
  ⟨rplDaoTransitInfo,
    [fields.transitFlags, fields.pathCtrl, fields.pathSeq, fields.lifetime] ++ parent.toList,
    by simp⟩

/-- The children whose targets the `switch` on the mode of operation appends. -/
def daoChilds (dag : Dag) : List Child :=
  if dag.mop = Mop.storingNoMulticast ∨ dag.mop = Mop.storingMulticast then dag.childs
  else if dag.mop = Mop.nonstoring then []
  else if dag.mop = Mop.hybrid then
    match dag.nodeClass with
    | .classS => dag.childs
    | .classN => []
  else []

theorem daoChilds_of_hybrid_classS {dag : Dag} (hmop : dag.mop = Mop.hybrid)
    (hclass : dag.nodeClass = .classS) : daoChilds dag = dag.childs := by
  simp [daoChilds, hmop, hclass, Mop.hybrid, Mop.nonstoring, Mop.storingNoMulticast,
    Mop.storingMulticast]

theorem daoOptFits_appendTarget (fields : DaoFields) (pfx : In6Prefix) :
    DaoOptFits (appendTarget fields pfx) :=
  ⟨fun _ => by simp [appendTarget],
    fun h => absurd h transitInfo_ne_rplTarget.symm⟩

theorem daoOptFits_appendTransit (fields : DaoFields) (parent : In6Addr) :
    DaoOptFits (appendTransit fields parent) :=
  ⟨fun _ => by simp [appendTransit], fun _ => by simp [appendTransit]⟩

/-- `dag_build_dao`, for a node with the given parent. -/
def dagBuildDao (fields : DaoFields) (dag : Dag) (parent : In6Addr) : DaoMessage where
  header := ⟨fields.instanceid, fields.flags, fields.resv, fields.daoseq, dag.dodagid⟩
  opts := appendTarget fields ⟨128, dag.self⟩ :: appendTransit fields parent ::
    (daoChilds dag).map fun child => appendTarget fields ⟨128, child.addr⟩
  fits o ho := by
    simp only [List.mem_cons, List.mem_map] at ho
    rcases ho with rfl | rfl | ⟨child, -, rfl⟩
    · exact daoOptFits_appendTarget fields _
    · exact daoOptFits_appendTransit fields parent
    · exact daoOptFits_appendTarget fields _

theorem target?_appendTarget (fields : DaoFields) (pfx : In6Prefix) :
    target? (appendTarget fields pfx) = some pfx.addr :=
  congrArg some (field_append_toList [fields.targetFlags, pfx.len] pfx.addr)

theorem target?_appendTransit (fields : DaoFields) (parent : In6Addr) :
    target? (appendTransit fields parent) = none :=
  if_neg transitInfo_ne_rplTarget

theorem transitParent?_appendTarget (fields : DaoFields) (pfx : In6Prefix) :
    transitParent? (appendTarget fields pfx) = none :=
  if_neg transitInfo_ne_rplTarget.symm

theorem transitParent?_appendTransit (fields : DaoFields) (parent : In6Addr) :
    transitParent? (appendTransit fields parent) = some parent :=
  congrArg some (field_append_toList
    [fields.transitFlags, fields.pathCtrl, fields.pathSeq, fields.lifetime] parent)

/-- The targets are the node itself and the children that are appended. -/
theorem targets_dagBuildDao (fields : DaoFields) (dag : Dag) (parent : In6Addr) :
    (dagBuildDao fields dag parent).targets = dag.self :: (daoChilds dag).map Child.addr := by
  have hchilds : ∀ childs : List Child, (childs.map fun child =>
      appendTarget fields ⟨128, child.addr⟩).filterMap target? = childs.map Child.addr := by
    intro childs
    rw [List.filterMap_map, ← List.filterMap_eq_map]
    exact List.filterMap_congr fun child _ => target?_appendTarget fields ⟨128, child.addr⟩
  simp [DaoMessage.targets, dagBuildDao, target?_appendTarget, target?_appendTransit, hchilds]

theorem parents_dagBuildDao (fields : DaoFields) (dag : Dag) (parent : In6Addr) :
    (dagBuildDao fields dag parent).parents = [parent] := by
  have hchilds : ∀ childs : List Child, (childs.map fun child =>
      appendTarget fields ⟨128, child.addr⟩).filterMap transitParent? = [] := by
    intro childs
    rw [List.filterMap_map, List.filterMap_eq_nil_iff]
    exact fun child _ => transitParent?_appendTarget fields ⟨128, child.addr⟩
  simp [DaoMessage.parents, dagBuildDao, transitParent?_appendTarget,
    transitParent?_appendTransit, hchilds]

/-- The calls of `t_insert` for the DAO of a node. -/
theorem inserts_dagBuildDao (fields : DaoFields) (dag : Dag) (parent src : In6Addr) :
    (dagBuildDao fields dag parent).inserts src =
      insertCalls src parent ((dag.self :: (daoChilds dag).map Child.addr).take maxDaoTargets) := by
  simp [DaoMessage.inserts, parents_dagBuildDao, targets_dagBuildDao]

end HyMRPL
