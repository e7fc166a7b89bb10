import HyMRPL.Root.Targets

/-!
# Aggregated targets

A Class S node appends the targets of its children to its own DAO, behind the one
transit option that names its parent. The root inserts all targets of a DAO with the
same transit parent. So a child `c` of `s` is inserted below the parent of `s` by the
DAO of `s`, and below `s` by its own DAO.
-/

namespace HyMRPL

/-- The parent in the last call for a target. -/
def lastParent (calls : List TInsert) (target : In6Addr) : Option In6Addr :=
  (calls.filter fun call => call.target = target).getLast?.map TInsert.parent

/-- The root after a DAO. -/
def rootAfter (calls : DaoCalls) (root : Dag) (msg : Tlv.Packet) (src : In6Addr) : Dag :=
  match processDao calls (fun _ _ => some root) msg src with
  | some (dag, _) => dag
  | none => root

/-- The calls of `t_insert` that the root makes for a DAO. -/
def rootInserts (calls : DaoCalls) (root : Dag) (msg : Tlv.Packet) (src : In6Addr) :
    List TInsert :=
  match processDao calls (fun _ _ => some root) msg src with
  | some (_, acts) => tInserts acts
  | none => []

/-- The aggregated DAO of `s` and the own DAO of its child `c` agree: either one inserts
`c` below `s`, and the order in which the root hears them does not matter. -/
def AgreesWithOwn (calls : DaoCalls) (root : Dag) (aggregated own : Tlv.Packet)
    (srcS srcC s c : In6Addr) : Prop :=
  lastParent (rootInserts calls root aggregated srcS) c = some s ∧
    lastParent (rootInserts calls root own srcC) c = some s ∧
    lastParent (rootAfter calls (rootAfter calls root aggregated srcS) own srcC).root c =
      lastParent (rootAfter calls (rootAfter calls root own srcC) aggregated srcS).root c

theorem root_wellFormed (calls : DaoCalls) {root : Dag} (h : root.BuildsSourceRoutes)
    (dao : DaoMessage) (beyond : ℕ → UInt8) (src : In6Addr) :
    (rootAfter calls root (dao.packet beyond) src).BuildsSourceRoutes ∧
      (rootAfter calls root (dao.packet beyond) src).root = root.root ++ dao.inserts src ∧
      rootInserts calls root (dao.packet beyond) src = dao.inserts src := by
  obtain ⟨childs, acts, hres, hacts, -⟩ :=
    processDao_wellFormed calls (fun _ _ => some root) dao rfl h beyond src
  constructor
  · rw [rootAfter, hres]
    exact h
  · constructor
    · rw [rootAfter, hres]
    · rw [rootInserts, hres]
      exact hacts

theorem lastParent_insertCalls {src parent target p : In6Addr} {targets : List In6Addr}
    (h : lastParent (insertCalls src parent targets) target = some p) : p = parent := by
  obtain ⟨call, hcall, rfl⟩ := Option.map_eq_some_iff.mp h
  have hmem := List.mem_of_mem_filter (List.mem_of_getLast? hcall)
  obtain ⟨target', -, rfl⟩ := List.mem_map.mp hmem
  rfl

/-- A DAO with the target decides its parent. -/
theorem lastParent_append {src parent target : In6Addr} {targets : List In6Addr}
    (h : target ∈ targets) (calls : List TInsert) :
    lastParent (calls ++ insertCalls src parent targets) target = some parent := by
  have hne : (insertCalls src parent targets).filter (fun call => call.target = target) ≠ [] := by
    rw [Ne, List.filter_eq_nil_iff]
    intro hnone
    exact hnone ⟨parent, src, target⟩ (mem_insertCalls.mpr h) (by simp)
  obtain ⟨call, hcall⟩ := Option.ne_none_iff_exists'.mp (mt List.getLast?_eq_none_iff.mp hne)
  have hparent : lastParent (insertCalls src parent targets) target = some call.parent := by
    simp [lastParent, hcall]
  have hlast : lastParent (calls ++ insertCalls src parent targets) target =
      lastParent (insertCalls src parent targets) target := by
    simp only [lastParent, List.filter_append]
    rw [List.getLast?_append_of_ne_nil _ hne]
  rw [hlast, hparent, lastParent_insertCalls hparent]

/-- For no Class S node and none of its children do the two DAOs agree: the aggregated
one never inserts the child below the node. If the child is among the first fifteen,
its parent in the tree is that of the DAO heard last. -/
theorem aggregated_disagrees (calls : DaoCalls) (root : Dag) (hbuilds : root.BuildsSourceRoutes)
    (fieldsS fieldsC : DaoFields) (beyondS beyondC : ℕ → UInt8) (srcS srcC : In6Addr)
    (dagS dagC : Dag) {s p : In6Addr} (hp : p ≠ s) :
    let aggregated := (dagBuildDao fieldsS dagS p).packet beyondS
    let own := (dagBuildDao fieldsC dagC s).packet beyondC
    ¬ AgreesWithOwn calls root aggregated own srcS srcC s dagC.self ∧
      (dagS.mop = Mop.hybrid → dagS.nodeClass = .classS →
        dagC.self ∈ (dagS.childs.map Child.addr).take 15 →
          lastParent (rootAfter calls (rootAfter calls root aggregated srcS) own srcC).root
            dagC.self = some s ∧
          lastParent (rootAfter calls (rootAfter calls root own srcC) aggregated srcS).root
            dagC.self = some p) := by
  intro aggregated own
  obtain ⟨hbuildsS, hrootS, hinsertsS⟩ :=
    root_wellFormed calls hbuilds (dagBuildDao fieldsS dagS p) beyondS srcS
  obtain ⟨hbuildsC, hrootC, -⟩ :=
    root_wellFormed calls hbuilds (dagBuildDao fieldsC dagC s) beyondC srcC
  refine ⟨?_, fun hmop hclass hchild => ⟨?_, ?_⟩⟩
  · rintro ⟨haggregated, -, -⟩
    rw [hinsertsS, inserts_dagBuildDao] at haggregated
    exact hp (lastParent_insertCalls haggregated).symm
  · obtain ⟨-, hroot, -⟩ :=
      root_wellFormed calls hbuildsS (dagBuildDao fieldsC dagC s) beyondC srcC
    rw [hroot, inserts_dagBuildDao]
    exact lastParent_append (by simp [maxDaoTargets]) _
  · obtain ⟨-, hroot, -⟩ :=
      root_wellFormed calls hbuildsC (dagBuildDao fieldsS dagS p) beyondS srcS
    rw [hroot, inserts_dagBuildDao, daoChilds_of_hybrid_classS hmop hclass]
    exact lastParent_append (List.mem_cons_of_mem _ hchild) _

/-- A Class N child `fe80::10` of `fe80::2`. -/
def classNChild : Dag :=
  { (sampleDagOps 5 (linkLocal 16)).dagCreate 1 0 (linkLocal 1) 3 1 Mop.hybrid
      ⟨64, linkLocal 0⟩ with
    nodeClass := .classN }

/-- The DAO of `fe80::2`, whose parent is `fe80::1`, and the one of its child. -/
def aggregatedDao : Tlv.Packet :=
  (dagBuildDao sampleFields (classSNode 1) (linkLocal 1)).packet fun _ => 0

def ownDao : Tlv.Packet := (dagBuildDao sampleFields classNChild (linkLocal 2)).packet fun _ => 0

theorem childParent_depends_on_order :
    lastParent (rootAfter sampleCalls (rootAfter sampleCalls hybridNet.rootDag aggregatedDao
      (linkLocal 2)) ownDao (linkLocal 16)).root (linkLocal 16) = some (linkLocal 2) ∧
    lastParent (rootAfter sampleCalls (rootAfter sampleCalls hybridNet.rootDag ownDao
      (linkLocal 16)) aggregatedDao (linkLocal 2)).root (linkLocal 16) = some (linkLocal 1) :=
  (aggregated_disagrees sampleCalls hybridNet.rootDag (by decide) sampleFields
    sampleFields (fun _ => 0) (fun _ => 0) (linkLocal 2) (linkLocal 16) (classSNode 1)
    classNChild (s := linkLocal 2) (p := linkLocal 1) (by decide)).2 rfl rfl (by decide)

/-- The aggregated DAO inserts `fe80::10` below `fe80::1`, its own below `fe80::2`. -/
theorem aggregatedDao_inserts_below_root :
    lastParent (rootInserts sampleCalls hybridNet.rootDag aggregatedDao (linkLocal 2))
        (linkLocal 16) = some (linkLocal 1) ∧
      ¬ AgreesWithOwn sampleCalls hybridNet.rootDag aggregatedDao ownDao (linkLocal 2)
        (linkLocal 16) (linkLocal 2) (linkLocal 16) := by
  have hparent : lastParent (rootInserts sampleCalls hybridNet.rootDag aggregatedDao
      (linkLocal 2)) (linkLocal 16) = some (linkLocal 1) := by
    decide +kernel
  refine ⟨hparent, fun h => ?_⟩
  have hagree := h.1
  rw [hparent] at hagree
  exact absurd hagree (by decide)

end HyMRPL
