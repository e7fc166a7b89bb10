import HyMRPL.Daemon.Callbacks
import HyMRPL.Foundation.Pointwise

/-!
# What the callbacks leave alone

Whatever a callback other than the periodic one does, the interfaces keep their class,
every DODAG stays where it is, with the same identifiers, the same mode of operation and
the same class, and at most one DODAG is added to one interface, in the class of that
interface. `handle_kept` says so for every callback.
-/

namespace HyMRPL

open Transition Tlv Pointwise

/-- The new contents of a DODAG that is still the same and of the same class. -/
structure Dag.Kept (old new : Dag) : Prop where
  ifindex : new.ifindex = old.ifindex
  dodagid : new.dodagid = old.dodagid
  mop : new.mop = old.mop
  nodeClass : new.nodeClass = old.nodeClass

/-- The same DODAG in the same instance. -/
def DagKept (old new : UInt8 × Dag) : Prop := new.1 = old.1 ∧ old.2.Kept new.2

/-- An instance that keeps its DODAGs. -/
def Rpl.Kept (old new : Rpl) : Prop :=
  new.instanceId = old.instanceId ∧ List.Forall₂ Dag.Kept old.dags new.dags

/-- An interface that keeps its class and its DODAGs, up to one that is added in its
class. -/
structure Iface.Kept (old new : Iface) : Prop where
  ifindex : new.ifindex = old.ifindex
  dodagRoot : new.dodagRoot = old.dodagRoot
  nodeClass : new.nodeClass = old.nodeClass
  dags : Extends DagKept (fun p => p.2.nodeClass = old.nodeClass) (instances old.rpls)
    (instances new.rpls)

namespace Dag.Kept

theorem refl (dag : Dag) : dag.Kept dag := ⟨rfl, rfl, rfl, rfl⟩

theorem dioUpdate (ops : DagOps) (dag : Dag) (now : ℚ) (peerOk : Bool) (src : In6Addr)
    (rank : UInt16) :
    dag.Kept (dioUpdate ops now peerOk dag src rank).1 := by
  rcases dioUpdate_cases dag peerOk with ⟨hp, hpeer⟩ | hadopts | ⟨p, hp, hmax⟩
  · rw [hpeer, dioUpdate_of_no_peer hp]
    exact refl dag
  · rw [dioUpdate_of_adopts hadopts]
    exact ⟨rfl, rfl, rfl, rfl⟩
  · rw [dioUpdate_of_valid hp hmax]
    by_cases hrank : p.rank < rank <;> simp only [Dag.refresh, hrank, if_true, if_false] <;>
      exact ⟨rfl, rfl, rfl, rfl⟩

theorem parentCheckCb (dag : Dag) (now : ℚ) (adaptiveEnabled : Bool) :
    dag.Kept (parentCheckCb now adaptiveEnabled dag).1 := by
  by_cases h : dag.TimedOut now
  · rw [parentCheckCb_of_timedOut h]
    exact ⟨rfl, rfl, rfl, rfl⟩
  · rw [parentCheckCb_of_not_timedOut h]
    exact refl dag

end Dag.Kept

theorem DagKept.refl (p : UInt8 × Dag) : DagKept p p := ⟨rfl, Dag.Kept.refl p.2⟩

theorem Rpl.Kept.refl (rpl : Rpl) : rpl.Kept rpl :=
  ⟨rfl, List.forall₂_same.mpr fun dag _ => Dag.Kept.refl dag⟩

theorem forall₂_instances {old new : List Rpl} (h : List.Forall₂ Rpl.Kept old new) :
    List.Forall₂ DagKept (instances old) (instances new) := by
  apply List.rel_flatMap h
  intro a b hab
  rw [List.forall₂_map_left_iff, List.forall₂_map_right_iff]
  apply hab.2.imp
  intro dag dag' hdag
  exact ⟨hab.1, hdag⟩

/-- No DODAG is added. -/
theorem Iface.Kept.of_rpls {iface : Iface} {rpls : List Rpl}
    (h : List.Forall₂ Rpl.Kept iface.rpls rpls) : iface.Kept { iface with rpls := rpls } :=
  ⟨rfl, rfl, rfl, Extends.of_forall₂ (forall₂_instances h)⟩

theorem Iface.Kept.refl (iface : Iface) : iface.Kept iface :=
  ⟨rfl, rfl, rfl, Extends.of_forall₂ (List.forall₂_same.mpr fun p _ => DagKept.refl p)⟩

/-- What `process_dio` returns is an update of the DODAG found, or of a new one in the
class of the interface. -/
theorem processDio_eq_some {now : ℚ} {alloc : Alloc} {config : NodeConfig}
    {dagLookup : UInt8 → In6Addr → Option Dag} {dio : Dio} {src : In6Addr} {new : Dag}
    {acts : List Action} (h : processDio now alloc config dagLookup dio src = some (new, acts)) :
    ∃ dag, dioUpdate config.dagOps now alloc.peer dag src dio.dagrank = (new, acts) ∧
      match dagLookup dio.instanceid dio.dagid with
      | some old => dag = old
      | none => dag.nodeClass = config.nodeClass := by
  cases hfind : dagLookup dio.instanceid dio.dagid with
  | some old =>
      by_cases hroot : old.myRank = 1
      · simp [processDio, hfind, hroot] at h
      · simp only [processDio, hfind, hroot, if_false, Option.some.injEq] at h
        exact ⟨old, h, rfl⟩
  | none =>
      cases hdest : dio.dest with
      | none => simp [processDio, hfind, hdest] at h
      | some pfx =>
          cases halloc : alloc.dag with
          | false => simp [processDio, hfind, hdest, halloc] at h
          | true =>
              simp only [processDio, hfind, hdest, halloc, if_true, Option.some.injEq] at h
              exact ⟨_, h, rfl⟩

/-- The DODAG that `process_dio` returns is the one found, or a new one in the class of
the interface. -/
theorem processDio_kept {now : ℚ} {alloc : Alloc} {config : NodeConfig}
    {dagLookup : UInt8 → In6Addr → Option Dag} {dio : Dio} {src : In6Addr} {new : Dag}
    {acts : List Action} (h : processDio now alloc config dagLookup dio src = some (new, acts)) :
    match dagLookup dio.instanceid dio.dagid with
    | some old => old.Kept new
    | none => new.nodeClass = config.nodeClass := by
  have ⟨dag, hupdate, hdag⟩ := processDio_eq_some h
  have hkept := Dag.Kept.dioUpdate config.dagOps dag now alloc.peer src dio.dagrank
  rw [hupdate] at hkept
  cases hfind : dagLookup dio.instanceid dio.dagid with
  | some old =>
      rw [hfind] at hdag
      exact hdag ▸ hkept
  | none =>
      rw [hfind] at hdag
      exact hkept.nodeClass.trans hdag

/-- The source routing branch changes nothing of the DODAG but the tree. -/
theorem daoRoutes_fst (calls : DaoCalls) (msg : Packet) (src : In6Addr) (w : DaoWalk)
    (dag : Dag) : ∃ root, (daoRoutes calls msg src w dag).1 = { dag with root := root } := by
  have hsource : ∃ root, (daoSourceRoutes calls msg src w dag).1 = { dag with root := root } := by
    cases htransit : w.transit with
    | none => exact ⟨dag.root, by simp [daoSourceRoutes, htransit]⟩
    | some transit =>
        simp only [daoSourceRoutes, htransit]
        exact ⟨_, (daoInsertTargets_spec calls src _ dag _).1⟩
  simp only [daoRoutes]
  split_ifs
  · exact ⟨dag.root, rfl⟩
  · exact hsource
  · exact hsource
  · split <;> exact ⟨dag.root, rfl⟩
  · exact ⟨dag.root, rfl⟩

/-- What `process_dao` returns: the DODAG that was found, with new children, after the
options were read; and routes for it, if they were complete. -/
theorem processDao_eq_some {calls : DaoCalls} {dagLookup : UInt8 → In6Addr → Option Dag}
    {msg : Packet} {src : In6Addr} {new : Dag} {acts : List Action}
    (h : processDao calls dagLookup msg src = some (new, acts)) :
    ∃ (old : Dag) (w : DaoWalk), dagLookup (msg.byte 0) (msg.field 16 4) = some old ∧
      ((new = { old with childs := w.childs } ∧ acts = []) ∨
        new = (daoRoutes calls msg src w { old with childs := w.childs }).1 ∧
          acts = (daoRoutes calls msg src w { old with childs := w.childs }).2 ++
            [.sendDaoAck src]) := by
  by_cases hlength : msg.bytes.length < 20
  · simp [processDao, hlength] at h
  · cases hfind : dagLookup (msg.byte 0) (msg.field 16 4) with
    | none => simp [processDao, hlength, hfind] at h
    | some old =>
        simp only [processDao, hlength, hfind, if_false] at h
        split_ifs at h with hcomplete
        · obtain ⟨rfl, rfl⟩ := Prod.mk.inj (Option.some.inj h)
          exact ⟨old, _, rfl, Or.inl ⟨rfl, rfl⟩⟩
        · obtain ⟨rfl, rfl⟩ := Prod.mk.inj (Option.some.inj h)
          exact ⟨old, _, rfl, Or.inr ⟨rfl, rfl⟩⟩

/-- The DODAG that `process_dao` returns is the one found. -/
theorem processDao_kept {calls : DaoCalls} {dagLookup : UInt8 → In6Addr → Option Dag}
    {msg : Packet} {src : In6Addr} {new : Dag} {acts : List Action}
    (h : processDao calls dagLookup msg src = some (new, acts)) :
    ∃ old, dagLookup (msg.byte 0) (msg.field 16 4) = some old ∧ old.Kept new := by
  have ⟨old, w, hfind, hnew⟩ := processDao_eq_some h
  refine ⟨old, hfind, ?_⟩
  rcases hnew with ⟨rfl, -⟩ | ⟨rfl, -⟩
  · exact ⟨rfl, rfl, rfl, rfl⟩
  · have ⟨root, hroot⟩ := daoRoutes_fst calls msg src w { old with childs := w.childs }
    rw [hroot]
    exact ⟨rfl, rfl, rfl, rfl⟩

/-- `process_daoack` returns the DODAG that it finds, and makes no call. -/
theorem processDaoack_eq_some {dagLookup : UInt8 → In6Addr → Option Dag} {msg : Packet}
    {new : Dag} {acts : List Action} (h : processDaoack dagLookup msg = some (new, acts)) :
    dagLookup (msg.byte 0) (msg.field 16 4) = some new ∧ acts = [] := by
  by_cases hlength : msg.bytes.length < 20
  · simp [processDaoack, hlength] at h
  · cases hfind : dagLookup (msg.byte 0) (msg.field 16 4) with
    | none => simp [processDaoack, hlength, hfind] at h
    | some old =>
        obtain ⟨rfl, rfl⟩ : old = new ∧ acts = [] := by
          simpa [processDaoack, hlength, hfind, eq_comm] using h
        exact ⟨rfl, rfl⟩

theorem find_eq_some {code : DagCode} {iface : Iface} {instanceId : UInt8} {dodagid : In6Addr}
    {place : ℕ × ℕ} {dag : Dag} (h : code.find iface instanceId dodagid = some (place, dag)) :
    dagAt iface.rpls place = some dag := by
  have ⟨place', _, hfind⟩ := Option.bind_eq_some_iff.mp h
  have ⟨dag', hdag, heq⟩ := Option.map_eq_some_iff.mp hfind
  obtain ⟨rfl, rfl⟩ := Prod.mk.inj heq
  exact hdag

section Interface

variable {iface : Iface}

theorem Iface.setDag_kept {place : ℕ × ℕ} {old new : Dag} (hold : dagAt iface.rpls place = some old)
    (h : old.Kept new) : iface.Kept (iface.setDag place new) := by
  apply Iface.Kept.of_rpls
  apply forall₂_modify Rpl.Kept.refl
  intro rpl hrpl
  have hdag : rpl.dags[place.2]? = some old := by simpa [dagAt, hrpl] using hold
  exact ⟨rfl, forall₂_set_right Dag.Kept.refl hdag h⟩

/-- A handler that keeps the DODAG it finds, or creates one in the class of the
interface, keeps the interface. -/
theorem Iface.update_kept {code : DagCode} {instanceId : UInt8} {dodagid : In6Addr}
    {result : Option (Dag × List Action)}
    (h : ∀ new acts, result = some (new, acts) →
      match (code.find iface instanceId dodagid).map Prod.snd with
      | some old => old.Kept new
      | none => new.nodeClass = iface.nodeClass) :
    iface.Kept (iface.update code instanceId dodagid result).1 := by
  cases result with
  | none => exact Iface.Kept.refl iface
  | some result =>
      have hnew := h result.1 result.2 rfl
      cases hfind : code.find iface instanceId dodagid with
      | some found =>
          rw [hfind] at hnew
          simp only [Iface.update, hfind]
          exact Iface.setDag_kept (find_eq_some hfind) hnew
      | none =>
          rw [hfind] at hnew
          simp only [Iface.update, hfind]
          have ⟨before, after, hold, hinsert⟩ :=
            code.insert_spec iface.rpls instanceId result.1
          refine ⟨rfl, rfl, rfl, ?_⟩
          rw [hold, hinsert]
          exact Extends.of_insert DagKept.refl hnew

theorem process_kept (code : DagCode) (now : ℚ) (iface : Iface) (msg : Message) :
    iface.Kept (process code now iface msg).1 := by
  cases msg with
  | dis => exact Iface.Kept.refl iface
  | dio alloc dio src =>
      apply Iface.update_kept
      intro new acts h
      exact processDio_kept h
  | dao msg src =>
      apply Iface.update_kept
      intro new acts h
      have ⟨old, hfind, hkept⟩ := processDao_kept h
      rw [hfind]
      exact hkept
  | daoAck msg =>
      apply Iface.update_kept
      intro new acts h
      rw [(processDaoack_eq_some h).1]
      exact Dag.Kept.refl new

theorem Iface.parentCheck_kept (now : ℚ) (adaptiveEnabled : Bool) (place : ℕ × ℕ)
    (iface : Iface) : iface.Kept (iface.parentCheck now adaptiveEnabled place).1 := by
  cases hdag : dagAt iface.rpls place with
  | none => simpa [Iface.parentCheck, hdag] using Iface.Kept.refl iface
  | some dag =>
      simp only [Iface.parentCheck, hdag]
      exact Iface.setDag_kept hdag (Dag.Kept.parentCheckCb dag now adaptiveEnabled)

end Interface

theorem onIface_kept {ifaces : List Iface} {i : ℕ} {f : Iface → Iface × List Action}
    (h : ∀ iface : Iface, iface.Kept (f iface).1) :
    List.Forall₂ Iface.Kept ifaces (onIface ifaces i f).1 := by
  cases hiface : ifaces[i]? with
  | none =>
      simp only [onIface, hiface]
      exact List.forall₂_same.mpr fun iface _ => Iface.Kept.refl iface
  | some iface =>
      simp only [onIface, hiface]
      exact forall₂_set_right Iface.Kept.refl hiface (h iface)

theorem reloadCb_kept (newTrickleT : CDouble) (ifaces : List Iface) :
    List.Forall₂ Iface.Kept ifaces (reloadCb newTrickleT ifaces) := by
  by_cases hvalue : newTrickleT ≤ 0
  · simp only [reloadCb, hvalue, if_true]
    exact List.forall₂_same.mpr fun iface _ => Iface.Kept.refl iface
  · simp only [reloadCb, hvalue, if_false]
    rw [List.forall₂_map_right_iff, List.forall₂_same]
    intro iface _
    apply Iface.Kept.of_rpls
    rw [List.forall₂_map_right_iff, List.forall₂_same]
    intro rpl _
    refine ⟨rfl, ?_⟩
    rw [List.forall₂_map_right_iff, List.forall₂_same]
    intro dag _
    exact ⟨rfl, rfl, rfl, rfl⟩

/-- No callback but the periodic one changes a class. -/
theorem handle_kept (code : DagCode) (adaptiveEnabled : Bool) (ifaces : List Iface)
    (e : RpldEvent) :
    List.Forall₂ Iface.Kept ifaces (handle code adaptiveEnabled ifaces e).1 := by
  have hsame : List.Forall₂ Iface.Kept ifaces ifaces :=
    List.forall₂_same.mpr fun iface _ => Iface.Kept.refl iface
  cases e with
  | periodic now buf => exact hsame
  | eval now energy => exact hsame
  | recv now failures i msg => exact onIface_kept fun iface => process_kept code now iface msg
  | parentCheck now i place =>
      exact onIface_kept fun iface => Iface.parentCheck_kept now adaptiveEnabled place iface
  | reload newTrickleT => exact reloadCb_kept newTrickleT ifaces
  | send => exact hsame

end HyMRPL
