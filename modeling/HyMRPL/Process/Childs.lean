import HyMRPL.Daemon.LocalRoutes
import HyMRPL.Foundation.FindOrCreate
import HyMRPL.Process.DaoWalk

/-!
# What a well-formed DAO adds

A well-formed DAO that `process_dao` takes up adds a child for each of its targets that
is not yet known, all sixteen and more, and the routes to all children where the mode of
operation and the class ask for them. `dag_lookup_child_or_create` is not in the
repository: as its name says, it looks for the child by its address and creates one that
it does not find.
-/

namespace HyMRPL

open Tlv FindOrCreate

/-- `dag_lookup_child_or_create` finds a child by its address, or creates it. -/
def LooksUpChild (calls : DaoCalls) : Prop :=
  FindOrCreate.Spec Child.addr Child.mk calls.dagLookupChildOrCreate

theorem recordChilds_eq_all (calls : DaoCalls) (src : In6Addr) (childs : List Child)
    (targets : List In6Addr) :
    recordChilds calls src childs targets =
      FindOrCreate.all calls.dagLookupChildOrCreate childs targets src := rfl

/-- A storing mode of operation. -/
def Mop.Storing (mop : UInt8) : Prop := mop = Mop.storingNoMulticast ∨ mop = Mop.storingMulticast

/-- `process_dao` installs routes to the children. -/
def Dag.InstallsRoutes (dag : Dag) : Prop :=
  Mop.Storing dag.mop ∨ (dag.mop = Mop.hybrid ∧ dag.myRank ≠ 1 ∧ dag.nodeClass = .classS)

/-- The route to a child. -/
def Child.route (ifindex : UInt32) (child : Child) : ViaRoute :=
  ⟨ifindex, ⟨128, child.addr⟩, child.source⟩

/-- No call removes a route. -/
def RemovesNone (acts : List Action) : Prop :=
  ∀ ifindex dest, .nlDelRouteVia ifindex dest ∉ acts

theorem removesNone_append {as bs : List Action} :
    RemovesNone (as ++ bs) ↔ RemovesNone as ∧ RemovesNone bs := by
  simp only [RemovesNone, List.mem_append, not_or, forall_and]

/-- Calls that remove no route add theirs to those that are there. -/
theorem Netlink.mem_foldl_apply (nl : Netlink) {acts : List Action} (h : RemovesNone acts)
    (routes : List ViaRoute) (route : ViaRoute) :
    route ∈ acts.foldl nl.apply routes ↔ route ∈ routes ∨ route ∈ addedRoutes acts := by
  induction acts generalizing routes with
  | nil => simp [addedRoutes]
  | cons act acts ih =>
      have hrest : RemovesNone acts := fun ifindex dest hmem =>
        h ifindex dest (List.mem_cons_of_mem _ hmem)
      rw [List.foldl_cons, ih hrest]
      cases act with
      | nlAddRouteVia ifindex dest via =>
          rw [Netlink.apply, nl.mem_nlAddRouteVia, or_assoc]
          simp [addedRoutes]
      | nlDelRouteVia ifindex dest => exact absurd (List.mem_cons_self ..) (h ifindex dest)
      | _ => exact Iff.rfl

theorem removesNone_daoInsertTargets (calls : DaoCalls) (src parent : In6Addr) (dag : Dag)
    (targets : List In6Addr) :
    RemovesNone (daoInsertTargets calls src parent dag targets).2 := by
  induction targets generalizing dag with
  | nil => simp [RemovesNone, daoInsertTargets]
  | cons target targets ih =>
      have hrest := ih { dag with root := dag.root ++ [⟨parent, src, target⟩] }
      intro ifindex dest hmem
      apply hrest ifindex dest
      cases hok : calls.tInsertOk dag.root ⟨parent, src, target⟩ <;>
        simpa [daoInsertTargets, hok] using hmem

theorem daoSourceRoutes_calls (calls : DaoCalls) (msg : Packet) (src : In6Addr) (w : DaoWalk)
    (dag : Dag) :
    RemovesNone (daoSourceRoutes calls msg src w dag).2 ∧
      addedRoutes (daoSourceRoutes calls msg src w dag).2 = [] := by
  cases htransit : w.transit with
  | none => simp [daoSourceRoutes, htransit, RemovesNone, addedRoutes]
  | some transit =>
      simp only [daoSourceRoutes, htransit]
      exact ⟨removesNone_daoInsertTargets calls src _ dag _,
        addedRoutes_daoInsertTargets calls src _ dag _⟩

theorem daoViaRoutes_calls (dag : Dag) :
    RemovesNone (daoViaRoutes dag) ∧
      addedRoutes (daoViaRoutes dag) = dag.childs.map (Child.route dag.ifindex) := by
  constructor
  · simp [RemovesNone, daoViaRoutes]
  · rw [addedRoutes, daoViaRoutes, List.filterMap_map, ← List.filterMap_eq_map]
    rfl

instance (dag : Dag) : Decidable dag.InstallsRoutes :=
  inferInstanceAs (Decidable ((_ ∨ _) ∨ (_ ∧ _ ∧ _)))

/-- The hybrid branch of the `switch` on the mode of operation. -/
theorem daoRoutes_calls_of_hybrid (calls : DaoCalls) (msg : Packet) (src : In6Addr) (w : DaoWalk)
    {dag : Dag} (hmop : dag.mop = Mop.hybrid) :
    RemovesNone (daoRoutes calls msg src w dag).2 ∧
      addedRoutes (daoRoutes calls msg src w dag).2 =
        if dag.InstallsRoutes then dag.childs.map (Child.route dag.ifindex) else [] := by
  have hnot : Mop.hybrid ≠ Mop.storingNoMulticast ∧ Mop.hybrid ≠ Mop.storingMulticast ∧
      Mop.hybrid ≠ Mop.nonstoring := by decide
  by_cases hroot : dag.myRank = 1
  · simpa [daoRoutes, Dag.InstallsRoutes, Mop.Storing, hmop, hnot, hroot]
      using daoSourceRoutes_calls calls msg src w dag
  · cases hclass : dag.nodeClass with
    | classS =>
        simpa [daoRoutes, Dag.InstallsRoutes, Mop.Storing, hmop, hnot, hroot, hclass]
          using daoViaRoutes_calls dag
    | classN =>
        simp [daoRoutes, Dag.InstallsRoutes, Mop.Storing, hmop, hnot, hroot, hclass, RemovesNone,
          addedRoutes]

/-- The `switch` on the mode of operation, by the routes that it installs. -/
theorem daoRoutes_calls (calls : DaoCalls) (msg : Packet) (src : In6Addr) (w : DaoWalk)
    (dag : Dag) :
    RemovesNone (daoRoutes calls msg src w dag).2 ∧
      addedRoutes (daoRoutes calls msg src w dag).2 =
        if dag.InstallsRoutes then dag.childs.map (Child.route dag.ifindex) else [] := by
  by_cases hhybrid : dag.mop = Mop.hybrid
  · exact daoRoutes_calls_of_hybrid calls msg src w hhybrid
  · by_cases hstoring : dag.mop = Mop.storingNoMulticast ∨ dag.mop = Mop.storingMulticast
    · simpa [daoRoutes, Dag.InstallsRoutes, Mop.Storing, hstoring] using daoViaRoutes_calls dag
    · by_cases hnonstoring : dag.mop = Mop.nonstoring
      · rw [hnonstoring] at hstoring hhybrid
        simpa [daoRoutes, Dag.InstallsRoutes, Mop.Storing, hstoring, hnonstoring, hhybrid]
          using daoSourceRoutes_calls calls msg src w dag
      · simp [daoRoutes, Dag.InstallsRoutes, Mop.Storing, hstoring, hnonstoring, hhybrid,
          RemovesNone, addedRoutes]

/-- What is left of a well-formed DAO for a DODAG that is there. -/
theorem processDao_packet (calls : DaoCalls) (dagLookup : UInt8 → In6Addr → Option Dag)
    (dao : DaoMessage) {dag : Dag}
    (hlookup : dagLookup dao.header.instanceid dao.header.dagid = some dag)
    (beyond : ℕ → UInt8) (src : In6Addr) :
    ∃ root acts, processDao calls dagLookup (dao.packet beyond) src =
        some ({ dag with
          childs := recordChilds calls src dag.childs dao.targets
          root := root }, acts) ∧
      RemovesNone acts ∧
      addedRoutes acts = if dag.InstallsRoutes then
        (recordChilds calls src dag.childs dao.targets).map (Child.route dag.ifindex) else [] := by
  obtain ⟨hprefixes, -, hends⟩ := daoSeen_packet dao beyond
  have hlen : 20 ≤ (dao.packet beyond).bytes.length := by
    simp [DaoMessage.packet, length_encode_header]
  have hlookup' : dagLookup ((dao.packet beyond).byte 0) ((dao.packet beyond).field 16 4) =
      some dag := by
    rwa [packet_instanceid, packet_dagid]
  have hrecord : dag.record calls (dao.packet beyond) src =
      { dag with childs := recordChilds calls src dag.childs dao.targets } := by
    rw [Dag.record, hprefixes]
  rw [processDao_of_endsWell hlen hlookup' hends, hrecord]
  obtain ⟨root, hroot⟩ := daoRoutes_fst calls (dao.packet beyond) src
    (daoCollected calls (dao.packet beyond) src dag.childs)
    { dag with childs := recordChilds calls src dag.childs dao.targets }
  obtain ⟨hremoves, hadded⟩ := daoRoutes_calls calls (dao.packet beyond) src
    (daoCollected calls (dao.packet beyond) src dag.childs)
    { dag with childs := recordChilds calls src dag.childs dao.targets }
  refine ⟨root, _, by rw [hroot], ?_, ?_⟩
  · rw [removesNone_append]
    exact ⟨hremoves, by simp [RemovesNone]⟩
  · rw [addedRoutes_append, hadded]
    exact List.append_nil _

/-- A list of children in which a new one is the last. -/
def sampleDaoCalls : DaoCalls where
  dagLookupChildOrCreate childs addr source :=
    if childs.any (·.addr == addr) then childs else childs ++ [⟨addr, source⟩]
  tInsertOk _ _ := true

theorem looksUpChild_sampleDaoCalls : LooksUpChild sampleDaoCalls where
  key_mk _ _ := rfl
  found _ _ _ hfound := if_pos (by simpa using hfound)
  created childs _ _ hnot :=
    Or.inr ⟨childs, [], (List.append_nil _).symm, if_neg (by simpa using hnot)⟩

theorem creates_sampleDaoCalls : Creates Child.addr sampleDaoCalls.dagLookupChildOrCreate := by
  intro childs addr source
  by_cases hmem : addr ∈ childs.map Child.addr
  · rw [looksUpChild_sampleDaoCalls.found childs addr source hmem]
    exact hmem
  · have hnew : sampleDaoCalls.dagLookupChildOrCreate childs addr source =
        childs ++ [⟨addr, source⟩] := if_neg (by simpa using hmem)
    rw [hnew]
    simp

end HyMRPL
