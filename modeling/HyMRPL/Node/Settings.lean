import HyMRPL.Node.Frame
import HyMRPL.Process.DaoWalk

/-!
# The settings of a DODAG

The class and the trickle period of a DODAG are set from outside the protocol. A DIO is
processed without a look at either, a DAO without a look at the period, which only decides
when a silent parent is given up.
-/

namespace HyMRPL

open Tlv

/-- The DODAG with other settings. -/
def Dag.setup (trickleT : CDouble) (nodeClass : NodeClass) (dag : Dag) : Dag :=
  { dag with trickleT := trickleT, nodeClass := nodeClass }

/-- The DODAG in another class. -/
def Dag.reclass (nodeClass : NodeClass) (dag : Dag) : Dag := { dag with nodeClass := nodeClass }

/-- The DODAG with another trickle period. -/
def Dag.retime (trickleT : CDouble) (dag : Dag) : Dag := { dag with trickleT := trickleT }

@[simp] theorem Dag.retime_mop (t : CDouble) (dag : Dag) : (dag.retime t).mop = dag.mop := rfl

@[simp] theorem Dag.retime_nodeClass (t : CDouble) (dag : Dag) :
    (dag.retime t).nodeClass = dag.nodeClass := rfl

@[simp] theorem Dag.retime_myRank (t : CDouble) (dag : Dag) :
    (dag.retime t).myRank = dag.myRank := rfl

@[simp] theorem Dag.retime_childs (t : CDouble) (dag : Dag) :
    (dag.retime t).childs = dag.childs := rfl

/-- The second DODAG is the first one, up to the trickle period, and its period is a number. -/
def Dag.Retimed (dag dag' : Dag) : Prop := ∃ t : ℚ, dag' = dag.retime t

theorem Dag.Retimed.refl {dag : Dag} {t : ℚ} (h : dag.trickleT = t) : dag.Retimed dag := by
  refine ⟨t, ?_⟩
  rw [← h]
  rfl

section Dio

variable {dag : Dag} {iface iface' : NodeConfig} {adaptiveEnabled adaptiveEnabled' : Bool}

theorem dioUpdate_setup (ops : DagOps) (t : CDouble) (c : NodeClass) (dag : Dag) (now : ℚ)
    (peerOk : Bool) (src : In6Addr) (rank : UInt16) :
    dioUpdate ops now peerOk (dag.setup t c) src rank =
      ((dioUpdate ops now peerOk dag src rank).1.setup t c,
        (dioUpdate ops now peerOk dag src rank).2) := by
  rcases dioUpdate_cases dag peerOk with ⟨hp, hpeer⟩ | hadopts | ⟨p, hp, hmax⟩
  · have hp' : (dag.setup t c).parent = none := hp
    rw [hpeer, dioUpdate_of_no_peer hp, dioUpdate_of_no_peer hp']
  · have hadopts' : (dag.setup t c).Adopts peerOk := hadopts
    rw [dioUpdate_of_adopts hadopts, dioUpdate_of_adopts hadopts']
    rfl
  · have hp' : (dag.setup t c).parent = some p := hp
    rw [dioUpdate_of_valid hp hmax, dioUpdate_of_valid hp' hmax]
    by_cases hrank : p.rank < rank
    · simp [Dag.refresh, hrank, Dag.setup]
    · simp only [Dag.refresh, hrank, if_false]
      rfl

/-- A node that has joined processes a DIO in the same way, whatever its settings and the
configuration of the interface. -/
theorem nodeStep_dio_setup (hops : iface'.dagOps = iface.dagOps) (t : CDouble) (c : NodeClass)
    (dag : Dag) (now : ℚ) (alloc : Alloc) (dio : Dio) (src : In6Addr) :
    nodeStep iface' adaptiveEnabled' (some (dag.setup t c)) (.dio now alloc dio src) =
      ((nodeStep iface adaptiveEnabled (some dag) (.dio now alloc dio src)).1.map
          (Dag.setup t c),
        (nodeStep iface adaptiveEnabled (some dag) (.dio now alloc dio src)).2) := by
  by_cases hroot : dag.myRank = 1
  · have ht : dioTarget now alloc iface (some dag) dio = none := if_pos hroot
    have ht' : dioTarget now alloc iface' (some (dag.setup t c)) dio = none := if_pos hroot
    rw [nodeStep_of_no_target ht, nodeStep_of_no_target ht']
    rfl
  · have ht : dioTarget now alloc iface (some dag) dio = some dag := if_neg hroot
    have ht' : dioTarget now alloc iface' (some (dag.setup t c)) dio = some (dag.setup t c) :=
      if_neg hroot
    rw [nodeStep_of_target ht, nodeStep_of_target ht', hops, dioUpdate_setup]
    rfl

theorem dioTarget_join (c : NodeClass) (now : ℚ) (alloc : Alloc) (iface : NodeConfig) (dio : Dio) :
    dioTarget now alloc { iface with nodeClass := c } none dio =
      (dioTarget now alloc iface none dio).map (Dag.reclass c) := by
  cases hdest : dio.dest with
  | none => simp [dioTarget, hdest]
  | some pfx => cases halloc : alloc.dag <;> simp [dioTarget, hdest, halloc, Dag.reclass]

/-- Who joins does so in the class of the interface, and in the same way in either class. -/
theorem nodeStep_join_setup (c : NodeClass) (iface : NodeConfig) (adaptiveEnabled : Bool)
    (now : ℚ) (alloc : Alloc) (dio : Dio) (src : In6Addr) :
    nodeStep { iface with nodeClass := c } adaptiveEnabled none (.dio now alloc dio src) =
      ((nodeStep iface adaptiveEnabled none (.dio now alloc dio src)).1.map
          (Dag.reclass c),
        (nodeStep iface adaptiveEnabled none (.dio now alloc dio src)).2) := by
  have htarget := dioTarget_join c now alloc iface dio
  cases ht : dioTarget now alloc iface none dio with
  | none =>
      rw [ht, Option.map_none] at htarget
      rw [nodeStep_of_no_target ht, nodeStep_of_no_target htarget]
      rfl
  | some dag =>
      rw [ht, Option.map_some] at htarget
      obtain ⟨parent, myRank, seen, htrack⟩ :=
        dioUpdate_track iface.dagOps now alloc.peer dag src dio.dagrank
      have hsetup := dioUpdate_setup iface.dagOps dag.trickleT c dag now alloc.peer src dio.dagrank
      rw [nodeStep_of_target ht, nodeStep_of_target htarget]
      have hclass : dag.reclass c = dag.setup dag.trickleT c := rfl
      rw [hclass, hsetup, htrack]
      rfl

end Dio

section Check

/-- A check of the parent at the time at which it is as late for another trickle period. -/
theorem parentCheckCb_retime {dag : Dag} {now : ℚ} (h : dag.TimedOut now) (t : ℚ)
    (adaptiveEnabled adaptiveEnabled' : Bool) :
    (parentCheckCb (dag.parentLastSeen + parentTimeoutFactor * t) adaptiveEnabled'
      (dag.retime t)).1 = (parentCheckCb now adaptiveEnabled dag).1.retime t := by
  have h' : (dag.retime t).TimedOut (dag.parentLastSeen + parentTimeoutFactor * t) := by
    refine ⟨h.1, h.2.1, CDouble.not_num_lt_iff.mpr (Or.inr ?_)⟩
    change CDouble.num (parentTimeoutFactor * t) ≤
      CDouble.num (dag.parentLastSeen + parentTimeoutFactor * t - dag.parentLastSeen)
    rw [add_sub_cancel_left]
    exact CDouble.num_le_num.mpr le_rfl
  rw [parentCheckCb_of_timedOut h, parentCheckCb_of_timedOut h']
  rfl

end Check

section Dao

variable (calls : DaoCalls) (msg : Packet) (src : In6Addr)

theorem daoInsertTargets_retime (t : CDouble) (parent : In6Addr) (dag : Dag)
    (targets : List In6Addr) :
    daoInsertTargets calls src parent (dag.retime t) targets =
      ((daoInsertTargets calls src parent dag targets).1.retime t,
        (daoInsertTargets calls src parent dag targets).2) := by
  induction targets generalizing dag with
  | nil => rfl
  | cons target targets ih =>
      have hrest := ih { dag with root := dag.root ++ [⟨parent, src, target⟩] }
      obtain ⟨hdag, hacts⟩ := Prod.ext_iff.mp hrest
      exact Prod.ext hdag (congrArg (_ ++ ·) hacts)

theorem daoSourceRoutes_retime (t : CDouble) (w : DaoWalk) (dag : Dag) :
    daoSourceRoutes calls msg src w (dag.retime t) =
      ((daoSourceRoutes calls msg src w dag).1.retime t,
        (daoSourceRoutes calls msg src w dag).2) := by
  cases htransit : w.transit with
  | none => simp only [daoSourceRoutes, htransit]
  | some transit =>
      simp only [daoSourceRoutes, htransit]
      exact daoInsertTargets_retime calls src t _ dag _

theorem daoRoutes_retime (t : CDouble) (w : DaoWalk) (dag : Dag) :
    daoRoutes calls msg src w (dag.retime t) =
      ((daoRoutes calls msg src w dag).1.retime t, (daoRoutes calls msg src w dag).2) := by
  have hsource := daoSourceRoutes_retime calls msg src t w dag
  have hvia : daoViaRoutes (dag.retime t) = daoViaRoutes dag := rfl
  rw [daoRoutes, daoRoutes, hsource, hvia]
  cases hclass : dag.nodeClass with
  | classS =>
      simp only [Dag.retime_mop, Dag.retime_myRank, Dag.retime_nodeClass, hclass]
      split_ifs <;> rfl
  | classN =>
      simp only [Dag.retime_mop, Dag.retime_myRank, Dag.retime_nodeClass, hclass]
      split_ifs <;> rfl

theorem processDao_retime (t : CDouble) (dag : Dag) :
    processDao calls (fun _ _ => some (dag.retime t)) msg src =
      (processDao calls (fun _ _ => some dag) msg src).map fun r => (r.1.retime t, r.2) := by
  by_cases hlen : msg.bytes.length < 20
  · rw [processDao_eq_none_iff.mpr (Or.inl hlen), processDao_eq_none_iff.mpr (Or.inl hlen)]
    rfl
  · have hlen' : 20 ≤ msg.bytes.length := Nat.not_lt.mp hlen
    cases hends : daoEndsWell msg with
    | false =>
        rw [processDao_of_stray hlen' rfl hends, processDao_of_stray hlen' rfl hends]
        rfl
    | true =>
        have hrecord : (dag.retime t).record calls msg src = (dag.record calls msg src).retime t :=
          rfl
        rw [processDao_of_endsWell hlen' rfl hends, processDao_of_endsWell hlen' rfl hends, hrecord,
          Dag.retime_childs, daoRoutes_retime]
        rfl

end Dao

end HyMRPL
