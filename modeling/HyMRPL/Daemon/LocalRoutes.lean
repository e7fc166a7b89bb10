import HyMRPL.Daemon.Switches
import HyMRPL.Root.Aggregation

/-!
# The local routes of Class N

A node of Class N in a hybrid DODAG installs no route to a child. But nothing removes
the routes that it installed before it became one. So a node whose DODAGs are all of
Class N has no routes to children exactly in the runs where no switch to Class N is
applied while such routes are there.
-/

namespace HyMRPL

open Transition Tlv

/-- Every DODAG is hybrid and of Class N. -/
def HybridClassN (ifaces : List Iface) : Prop :=
  ∀ dag ∈ dagsOf ifaces, dag.mop = Mop.hybrid ∧ dag.nodeClass = .classN

instance (ifaces : List Iface) : Decidable (HybridClassN ifaces) := List.decidableBAll _ _

/-- If every DODAG is hybrid and of Class N, there is no route to a child. -/
def NoLocalRoutes (r : Rpld) : Prop := HybridClassN r.ifaces → r.routes = []

instance (r : Rpld) : Decidable (NoLocalRoutes r) :=
  inferInstanceAs (Decidable (_ → _))

/-- A switch to Class N is applied only without routes to children, in a node whose
DODAGs are all hybrid. -/
def LeavesNoRoutes (hmac : Hmac) (r : Rpld) : RpldEvent → Prop
  | .periodic now buf => (tickRecord hmac now buf r.toDaemon).applied = some .classN →
      (∀ dag ∈ dagsOf r.ifaces, dag.mop = Mop.hybrid) → r.routes = []
  | _ => True

/-- The routes that some calls install. -/
def addedRoutes (acts : List Action) : List ViaRoute :=
  acts.filterMap fun
    | .nlAddRouteVia ifindex dest via => some ⟨ifindex, ⟨128, dest⟩, via⟩
    | _ => none

@[simp] theorem addedRoutes_append (as bs : List Action) :
    addedRoutes (as ++ bs) = addedRoutes as ++ addedRoutes bs :=
  List.filterMap_append

/-- Calls that install no routes leave none. -/
theorem Netlink.foldl_apply_nil (nl : Netlink) {acts : List Action} (h : addedRoutes acts = []) :
    acts.foldl nl.apply [] = [] := by
  induction acts with
  | nil => rfl
  | cons act acts ih =>
      have hsplit := addedRoutes_append [act] acts
      rw [List.singleton_append, h] at hsplit
      have ⟨hact, hacts⟩ := List.append_eq_nil_iff.mp hsplit.symm
      have hnil : nl.apply [] act = [] := by
        cases act with
        | nlAddRouteVia ifindex dest via => simp [addedRoutes] at hact
        | nlDelRouteVia ifindex dest =>
            rw [List.eq_nil_iff_forall_not_mem]
            intro route hmem
            exact nomatch ((nl.mem_nlDelRouteVia ifindex dest [] route).mp hmem).1
        | _ => rfl
      rw [List.foldl_cons, hnil]
      exact ih hacts

theorem mem_dagsOf {ifaces : List Iface} {dag : Dag} :
    dag ∈ dagsOf ifaces ↔ ∃ iface ∈ ifaces, ∃ p ∈ instances iface.rpls, p.2 = dag := by
  simp only [dagsOf, List.mem_flatMap]
  apply exists_congr
  intro iface
  apply and_congr_right
  intro _
  constructor
  · rintro ⟨rpl, hrpl, hdag⟩
    exact ⟨(rpl.instanceId, dag), mem_instances.mpr ⟨rpl, hrpl, rfl, hdag⟩, rfl⟩
  · rintro ⟨p, hp, rfl⟩
    obtain ⟨rpl, hrpl, -, hdag⟩ := mem_instances.mp hp
    exact ⟨rpl, hrpl, hdag⟩

theorem dagAt_mem {rpls : List Rpl} {place : ℕ × ℕ} {dag : Dag}
    (h : dagAt rpls place = some dag) : ∃ p ∈ instances rpls, p.2 = dag := by
  cases hrpl : rpls[place.1]? with
  | none => simp [dagAt, hrpl] at h
  | some rpl =>
      have hdag : rpl.dags[place.2]? = some dag := by simpa [dagAt, hrpl] using h
      exact ⟨(rpl.instanceId, dag), mem_instances.mpr ⟨rpl, List.mem_of_getElem? hrpl, rfl,
        List.mem_of_getElem? hdag⟩, rfl⟩

/-- If every DODAG is hybrid and of Class N after a callback that keeps them, then so
before. -/
theorem HybridClassN.of_kept {old new : List Iface} (h : HybridClassN new)
    (hkept : List.Forall₂ Iface.Kept old new) : HybridClassN old := by
  intro dag hdag
  have ⟨iface, hiface, p, hp, hpdag⟩ := mem_dagsOf.mp hdag
  have ⟨iface', hiface', hk⟩ := Pointwise.exists_of_mem_left hkept hiface
  have ⟨p', hp', hsame⟩ := hk.dags.mem_old hp
  have ⟨hmop, hclass⟩ := h p'.2 (mem_dagsOf.mpr ⟨iface', hiface', p', hp', rfl⟩)
  subst hpdag
  exact ⟨hsame.2.mop.symm.trans hmop, hsame.2.nodeClass.symm.trans hclass⟩

section Calls

theorem addedRoutes_dioUpdate (ops : DagOps) (now : ℚ) (peerOk : Bool) (dag : Dag) (src : In6Addr)
    (rank : UInt16) : addedRoutes (dioUpdate ops now peerOk dag src rank).2 = [] := by
  have hsend : ∀ (dag : Dag) (parent : Peer), addedRoutes (dioSendDao dag parent) = [] := by
    intro dag parent
    simp only [dioSendDao]
    split_ifs <;> rfl
  have hnotice : addedRoutes (dag.adoptNotice src) = [] := by
    cases hp : dag.parent with
    | none => simp [Dag.adoptNotice, hp, addedRoutes]
    | some p => by_cases haddr : p.addr = src <;> simp [Dag.adoptNotice, hp, haddr, addedRoutes]
  have hdefault : addedRoutes [.nlAddRouteDefault dag.ifindex src, .dagProcessDio] = [] := rfl
  rcases dioUpdate_cases dag peerOk with ⟨hp, hpeer⟩ | hadopts | ⟨p, hp, hmax⟩
  · rw [hpeer, dioUpdate_of_no_peer hp]
    rfl
  · rw [dioUpdate_of_adopts hadopts]
    simp only [addedRoutes_append, hsend, hnotice, hdefault, List.append_nil]
  · rw [dioUpdate_of_valid hp hmax]
    by_cases hrank : p.rank < rank
    · simp [hrank, addedRoutes]
    · simp only [hrank, if_false, addedRoutes_append, hsend]
      rfl

theorem addedRoutes_parentCheckCb (now : ℚ) (adaptiveEnabled : Bool) (dag : Dag) :
    addedRoutes (parentCheckCb now adaptiveEnabled dag).2 = [] := by
  by_cases h : dag.TimedOut now
  · cases adaptiveEnabled <;> simp [parentCheckCb_of_timedOut h, addedRoutes]
  · simp [parentCheckCb_of_not_timedOut h, addedRoutes]

theorem addedRoutes_daoInsertTargets (calls : DaoCalls) (src parent : In6Addr) (dag : Dag)
    (targets : List In6Addr) :
    addedRoutes (daoInsertTargets calls src parent dag targets).2 = [] := by
  induction targets generalizing dag with
  | nil => rfl
  | cons target targets ih =>
      have htail := ih { dag with root := dag.root ++ [⟨parent, src, target⟩] }
      cases hok : calls.tInsertOk dag.root ⟨parent, src, target⟩ <;>
        simpa [daoInsertTargets, hok, addedRoutes] using htail

/-- A hybrid DODAG of Class N gets no routes to children, of a root or not. -/
theorem addedRoutes_daoRoutes {dag : Dag} (hmop : dag.mop = Mop.hybrid)
    (hclass : dag.nodeClass = .classN) (calls : DaoCalls) (msg : Packet) (src : In6Addr)
    (w : DaoWalk) : addedRoutes (daoRoutes calls msg src w dag).2 = [] := by
  have hsource : addedRoutes (daoSourceRoutes calls msg src w dag).2 = [] := by
    cases htransit : w.transit with
    | none => simp [daoSourceRoutes, htransit, addedRoutes]
    | some transit =>
        simpa [daoSourceRoutes, htransit] using addedRoutes_daoInsertTargets calls src _ dag _
  by_cases hroot : dag.myRank = 1
  · simpa [daoRoutes, hmop, hroot, Mop.hybrid, Mop.nonstoring, Mop.storingNoMulticast,
      Mop.storingMulticast] using hsource
  · simp [daoRoutes, hmop, hclass, hroot, addedRoutes, Mop.hybrid, Mop.nonstoring,
      Mop.storingNoMulticast, Mop.storingMulticast]

theorem addedRoutes_update {code : DagCode} {iface : Iface} {instanceId : UInt8}
    {dodagid : In6Addr} {result : Option (Dag × List Action)}
    (h : ∀ new acts, result = some (new, acts) → addedRoutes acts = []) :
    addedRoutes (iface.update code instanceId dodagid result).2 = [] := by
  cases result with
  | none => rfl
  | some result =>
      have hacts := h result.1 result.2 rfl
      cases hfind : code.find iface instanceId dodagid <;> simpa [Iface.update, hfind] using hacts

theorem addedRoutes_process {code : DagCode} {iface : Iface}
    (h : ∀ p ∈ instances iface.rpls, p.2.mop = Mop.hybrid ∧ p.2.nodeClass = .classN) (now : ℚ)
    (msg : Message) : addedRoutes (process code now iface msg).2 = [] := by
  cases msg with
  | dis => rfl
  | dio alloc dio src =>
      apply addedRoutes_update
      intro new acts hresult
      have ⟨dag, hupdate, _⟩ := processDio_eq_some hresult
      have hadded := addedRoutes_dioUpdate (code.dagOps iface) now alloc.peer dag src dio.dagrank
      rwa [hupdate] at hadded
  | dao msg src =>
      apply addedRoutes_update
      intro new acts hresult
      have ⟨old, w, hfind, hnew⟩ := processDao_eq_some hresult
      have ⟨found, hplace, hold⟩ := Option.map_eq_some_iff.mp hfind
      have ⟨p, hp, hdag⟩ := dagAt_mem (find_eq_some hplace)
      have ⟨hmop, hclass⟩ := h p hp
      rw [hdag, hold] at hmop hclass
      rcases hnew with ⟨-, rfl⟩ | ⟨-, rfl⟩
      · rfl
      · rw [addedRoutes_append, addedRoutes_daoRoutes (by exact hmop) (by exact hclass)]
        rfl
  | daoAck msg =>
      apply addedRoutes_update
      intro new acts hresult
      rw [(processDaoack_eq_some hresult).2]
      rfl

/-- If every DODAG is hybrid and of Class N, no callback installs a route to a child. -/
theorem addedRoutes_handle (code : DagCode) (adaptiveEnabled : Bool) {ifaces : List Iface}
    (h : HybridClassN ifaces) (e : RpldEvent) :
    addedRoutes (handle code adaptiveEnabled ifaces e).2 = [] := by
  have honIface : ∀ (i : ℕ) (f : Iface → Iface × List Action),
      (∀ iface ∈ ifaces, addedRoutes (f iface).2 = []) →
        addedRoutes (onIface ifaces i f).2 = [] := by
    intro i f hf
    cases hiface : ifaces[i]? with
    | none => simp [onIface, hiface, addedRoutes]
    | some iface => simpa [onIface, hiface] using hf iface (List.mem_of_getElem? hiface)
  cases e with
  | recv now failures i msg =>
      apply honIface
      intro iface hiface
      apply addedRoutes_process
      intro p hp
      exact h p.2 (mem_dagsOf.mpr ⟨iface, hiface, p, hp, rfl⟩)
  | parentCheck now i place =>
      apply honIface
      intro iface _
      cases hdag : dagAt iface.rpls place with
      | none => rfl
      | some dag =>
          simpa [Iface.parentCheck, hdag] using addedRoutes_parentCheckCb now adaptiveEnabled dag
  | _ => rfl

end Calls

variable {code : DagCode} {hmac : Hmac}

/-- The other callbacks leave no route where there must be none. -/
theorem noLocalRoutes_of_other {r : Rpld} {e : RpldEvent} (h : NoLocalRoutes r)
    (hother : ((rpld code hmac).out r e).tick = none) :
    NoLocalRoutes ((rpld code hmac).next r e) := by
  intro hnew
  have hold := hnew.of_kept (rpld_kept_of_other hother)
  rw [(rpld_next_of_other hother).2.2, h hold]
  exact code.netlink.foldl_apply_nil (addedRoutes_handle code r.adaptiveEnabled hold e)

/-- A tick that leaves no routes behind. -/
theorem noLocalRoutes_of_tick {r : Rpld} {now : ℚ} {buf : List UInt8} (h : NoLocalRoutes r)
    (hleaves : LeavesNoRoutes hmac r (.periodic now buf)) :
    NoLocalRoutes ((rpld code hmac).next r (.periodic now buf)) := by
  intro hnew
  rcases tick_applied hmac now buf r.toDaemon with
    ⟨-, hifaces, -⟩ | ⟨newClass, hsome, hifaces, -, -⟩
  · have hold : HybridClassN r.ifaces := by
      rw [← hifaces]
      exact hnew
    exact h hold
  · have hnew' : HybridClassN (setNodeClass newClass r.ifaces) := by
      rw [← hifaces]
      exact hnew
    have hset : ∀ dag ∈ dagsOf r.ifaces, dag.mop = Mop.hybrid ∧ newClass = .classN := by
      intro dag hdag
      apply hnew' { dag with nodeClass := newClass }
      rw [dagsOf_setNodeClass]
      exact List.mem_map_of_mem hdag
    cases newClass with
    | classN => exact hleaves hsome fun dag hdag => (hset dag hdag).1
    | classS =>
        -- After a switch to Class S the premise holds only without DODAGs.
        apply h
        intro dag hdag
        exact absurd (hset dag hdag).2 (by decide)

/-- A tick that leaves some. -/
theorem not_noLocalRoutes_of_tick {r : Rpld} {now : ℚ} {buf : List UInt8}
    (hleaves : ¬ LeavesNoRoutes hmac r (.periodic now buf)) :
    ¬ NoLocalRoutes ((rpld code hmac).next r (.periodic now buf)) := by
  simp only [LeavesNoRoutes, Classical.not_imp] at hleaves
  obtain ⟨happlied, hhybrid, hroutes⟩ := hleaves
  intro hnone
  apply hroutes
  apply hnone
  rcases tick_applied hmac now buf r.toDaemon with ⟨hnot, -, -⟩ | ⟨newClass, hsome, hifaces, -, -⟩
  · simp [happlied] at hnot
  · obtain rfl := Option.some.inj (happlied.symm.trans hsome)
    have hall : HybridClassN (setNodeClass .classN r.ifaces) := by
      intro dag hdag
      rw [dagsOf_setNodeClass] at hdag
      have ⟨old, hold, hnew⟩ := List.mem_map.mp hdag
      subst hnew
      exact ⟨hhybrid old hold, rfl⟩
    rw [← hifaces] at hall
    exact hall

/-- No local routes in Class N: exactly in the runs where no switch to Class N is applied
while there are routes to children. -/
theorem noLocalRoutes_iff (code : DagCode) (hmac : Hmac) (start : ℚ)
    (tokenFile : Option (List UInt8)) (ifaces : List Iface) (es : List RpldEvent) :
    (rpld code hmac).Always NoLocalRoutes (Rpld.start start tokenFile ifaces) es ↔
      (rpld code hmac).Steps (LeavesNoRoutes hmac) (Rpld.start start tokenFile ifaces) es := by
  apply Machine.always_iff_steps_of_enabled (I := NoLocalRoutes) (fun _ _ => trivial) (fun _ h => h)
  · intro r e h hleaves
    cases e with
    | periodic now buf => exact noLocalRoutes_of_tick h hleaves
    | _ => exact noLocalRoutes_of_other h rfl
  · intro r e h hleaves
    cases e with
    | periodic now buf => exact not_noLocalRoutes_of_tick hleaves
    | _ => exact absurd trivial hleaves
  · exact fun _ => rfl

/-- A node joins a DODAG in Class S, gets the DAO of a child, and is told to be of
Class N. -/
def routeThenSwitch : List RpldEvent :=
  [.recv 10 0 0 (.dio ⟨true, true⟩ (hybridDio 256) (linkLocal 2)),
    .recv 12 0 0 (.dao ownDao (linkLocal 16)), .periodic 20 (hymrplCmd sampleHmac none .classN 0)]

/-- It is of Class N then, and keeps the route to the child. -/
theorem routeThenSwitch_leaves_route :
    let start := Rpld.start 0 none [⟨1, false, .classS, []⟩]
    let r := (rpld sampleDagCode sampleHmac).run start routeThenSwitch
    (dagsOf r.ifaces).map (fun dag => (dag.mop, dag.nodeClass)) = [(Mop.hybrid, .classN)] ∧
      r.routes = [⟨1, ⟨128, linkLocal 16⟩, linkLocal 16⟩] ∧
      ¬ (rpld sampleDagCode sampleHmac).Always NoLocalRoutes start routeThenSwitch := by
  decide +kernel

end HyMRPL
