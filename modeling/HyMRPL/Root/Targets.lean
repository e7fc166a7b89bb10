import HyMRPL.Network.Basic
import HyMRPL.Process.BuildDao

/-!
# Targets that the root drops

`process_dao` keeps sixteen targets of a DAO, drops the others without notice and
acknowledges the DAO all the same, while `dag_build_dao` appends a target for every
child. No target is lost exactly when those past the sixteenth repeat one of the
first sixteen.
-/

namespace HyMRPL

/-- If the DAO is acknowledged, each of its targets was handed to `t_insert` with the
parent. -/
def NoTargetLost (src parent : In6Addr) (dao : DaoMessage) (acts : List Action) : Prop :=
  .sendDaoAck src ∈ acts → ∀ target ∈ dao.targets, ⟨parent, src, target⟩ ∈ tInserts acts

/-- Every target past the sixteenth repeats one of the first sixteen. -/
def RestRepeats (targets : List In6Addr) : Prop :=
  ∀ target ∈ targets.drop maxDaoTargets, target ∈ targets.take maxDaoTargets

instance (targets : List In6Addr) : Decidable (RestRepeats targets) :=
  List.decidableBAll _ _

theorem mem_insertCalls {src parent target : In6Addr} {targets : List In6Addr} :
    ⟨parent, src, target⟩ ∈ insertCalls src parent targets ↔ target ∈ targets := by
  simp [insertCalls]

theorem forall_mem_take_iff (targets : List In6Addr) :
    (∀ target ∈ targets, target ∈ targets.take maxDaoTargets) ↔ RestRepeats targets := by
  constructor
  · intro h target ht
    exact h target (List.mem_of_mem_drop ht)
  · intro h target ht
    rw [← List.take_append_drop maxDaoTargets targets, List.mem_append] at ht
    exact ht.elim id (h target)

/-- What the root does with a well-formed DAO that has one transit option. -/
theorem noTargetLost_processDao (calls : DaoCalls)
    {dagLookup : UInt8 → In6Addr → Option Dag} {dao : DaoMessage} {dag : Dag}
    (hlookup : dagLookup dao.header.instanceid dao.header.dagid = some dag)
    (hbuilds : dag.BuildsSourceRoutes) {parent : In6Addr} (hparent : dao.parents = [parent])
    (beyond : ℕ → UInt8) (src : In6Addr) :
    ∃ res, processDao calls dagLookup (dao.packet beyond) src = some res ∧
      (NoTargetLost src parent dao res.2 ↔ RestRepeats dao.targets) := by
  obtain ⟨childs, acts, hres, hacts, hack⟩ :=
    processDao_wellFormed calls dagLookup dao hlookup hbuilds beyond src
  refine ⟨_, hres, ?_⟩
  have hinserts : tInserts acts =
      insertCalls src parent (dao.targets.take maxDaoTargets) := by
    simp [hacts, DaoMessage.inserts, hparent]
  simp only [NoTargetLost, hack, hinserts, mem_insertCalls, true_imp_iff]
  exact forall_mem_take_iff dao.targets

/-- No target of an acknowledged DAO is lost exactly when every target past the
sixteenth repeats an earlier one: for all well-formed DAOs with one transit option,
and for those that a Class S node in hybrid mode builds. -/
theorem noTargetLost_iff (calls : DaoCalls) (dagLookup : UInt8 → In6Addr → Option Dag)
    (dag : Dag) (hbuilds : dag.BuildsSourceRoutes) (beyond : ℕ → UInt8)
    (src parent : In6Addr) :
    (∀ dao : DaoMessage, dao.parents = [parent] →
      dagLookup dao.header.instanceid dao.header.dagid = some dag →
        ∃ res, processDao calls dagLookup (dao.packet beyond) src = some res ∧
          (NoTargetLost src parent dao res.2 ↔ RestRepeats dao.targets)) ∧
    (∀ fields (s : Dag), s.mop = Mop.hybrid → s.nodeClass = .classS →
      dagLookup fields.instanceid s.dodagid = some dag →
        ∃ res, processDao calls dagLookup ((dagBuildDao fields s parent).packet beyond) src =
            some res ∧
          (NoTargetLost src parent (dagBuildDao fields s parent) res.2 ↔
            RestRepeats (s.self :: s.childs.map Child.addr))) := by
  constructor
  · intro dao hparent hlookup
    exact noTargetLost_processDao calls hlookup hbuilds hparent beyond src
  · intro fields s hmop hclass hlookup
    have htargets : (dagBuildDao fields s parent).targets = s.self :: s.childs.map Child.addr := by
      rw [targets_dagBuildDao, daoChilds_of_hybrid_classS hmop hclass]
    rw [← htargets]
    exact noTargetLost_processDao calls hlookup hbuilds (parents_dagBuildDao fields s parent)
      beyond src

/-- The bytes that the nodes put into their DAOs. -/
def sampleFields : DaoFields := ⟨1, 0, 0, 0, 0, 0, 0, 0, 0⟩

/-- Children are appended, and every insertion succeeds. -/
def sampleCalls : DaoCalls :=
  ⟨fun childs addr source => childs ++ [⟨addr, source⟩], fun _ _ => true⟩

/-- A Class S node `fe80::2` below the root with children `fe80::10`, `fe80::11`
and so on. -/
def classSNode (children : ℕ) : Dag :=
  { (sampleDagOps 5 (linkLocal 2)).dagCreate 1 0 (linkLocal 1) 2 1 Mop.hybrid ⟨64, linkLocal 0⟩ with
    childs := (List.range children).map fun i => ⟨linkLocal (16 + i.toUInt8), linkLocal 2⟩ }

/-- Fifteen children are within the limit. -/
theorem fifteenChildren_kept :
    ∃ res, processDao sampleCalls (fun _ _ => some hybridNet.rootDag)
        ((dagBuildDao sampleFields (classSNode 15) (linkLocal 1)).packet fun _ => 0)
        (linkLocal 2) = some res ∧
      NoTargetLost (linkLocal 2) (linkLocal 1)
        (dagBuildDao sampleFields (classSNode 15) (linkLocal 1)) res.2 := by
  obtain ⟨res, hres, hiff⟩ := (noTargetLost_iff sampleCalls (fun _ _ => some hybridNet.rootDag)
    hybridNet.rootDag (by decide) (fun _ => 0) (linkLocal 2) (linkLocal 1)).2 sampleFields
    (classSNode 15) rfl rfl rfl
  exact ⟨res, hres, hiff.mpr (by decide +kernel)⟩

/-- The sixteenth child is dropped from an acknowledged DAO. -/
theorem sixteenthChild_lost :
    ∃ res, processDao sampleCalls (fun _ _ => some hybridNet.rootDag)
        ((dagBuildDao sampleFields (classSNode 16) (linkLocal 1)).packet fun _ => 0)
        (linkLocal 2) = some res ∧
      .sendDaoAck (linkLocal 2) ∈ res.2 ∧
      linkLocal 31 ∈ (dagBuildDao sampleFields (classSNode 16) (linkLocal 1)).targets ∧
      ¬ NoTargetLost (linkLocal 2) (linkLocal 1)
        (dagBuildDao sampleFields (classSNode 16) (linkLocal 1)) res.2 := by
  obtain ⟨childs, acts, hres, hacts, hack⟩ := processDao_wellFormed sampleCalls
    (fun _ _ => some hybridNet.rootDag) (dagBuildDao sampleFields (classSNode 16) (linkLocal 1))
    rfl (by decide) (fun _ => 0) (linkLocal 2)
  have htarget : linkLocal 31 ∈
      (dagBuildDao sampleFields (classSNode 16) (linkLocal 1)).targets := by
    rw [targets_dagBuildDao]
    decide +kernel
  refine ⟨_, hres, hack, htarget, fun h => ?_⟩
  have hmem := h hack (linkLocal 31) htarget
  rw [hacts, inserts_dagBuildDao, mem_insertCalls] at hmem
  exact absurd hmem (by decide +kernel)

end HyMRPL
