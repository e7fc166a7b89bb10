import HyMRPL.Network.Agreement
import HyMRPL.Process.BuildDao
import HyMRPL.Process.Childs

/-!
# A network that exchanges DAOs

The network of `NetConfig`, in which the DAOs that `process_dio` sends are built by
`dag_build_dao` and, once sent, can be delivered as received packets at any later time,
more than once, or never. A DAO is delivered to the node with the address that it was
sent to, where the identifier of the DODAG is an address of the root. The nodes keep the
routes to children that they have installed, and may be switched between the classes at any
time.

All DIOs and DAOs are about one DODAG. `next_dag_cases` says what a step makes of the
DODAG of a node, and `next_daos_cases` which DAOs it sends.
-/

namespace HyMRPL

open Transition

/-- A network with the functions that `process_dao` asks for. No other node is heard under
the root's address in the DODAG. -/
structure DaoNetConfig extends NetConfig where
  calls : DaoCalls
  netlink : Netlink
  rootDag_childs : rootDag.childs = []
  dodagid_owner : ∀ v, neighbour rootDag.dodagid v → rootDag.dodagid = root

instance : DecidableEq DaoMessage := fun dao dao' =>
  decidable_of_iff (dao.header = dao'.header ∧ dao.opts = dao'.opts) (by
    cases dao
    cases dao'
    simp)

/-- A DAO that was sent. -/
structure DaoPacket where
  src : In6Addr
  dest : In6Addr
  dao : DaoMessage
  deriving DecidableEq

structure DaoNet extends Net where
  daos : List DaoPacket
  routes : In6Addr → List ViaRoute

/-- A step of the network: `fields` are the free bytes of the DAOs that it sends. -/
inductive DaoNetEvent
  | trickle (v : In6Addr)
  | node (v : In6Addr) (e : NodeEvent) (fields : ℕ → DaoFields)
  | dao (v : In6Addr) (p : DaoPacket) (beyond : ℕ → UInt8)
  | setClass (v : In6Addr) (newClass : NodeClass)

/-- The DAOs that some calls send, built from the DODAG as it is then. -/
def sentDaos (fields : ℕ → DaoFields) (v : In6Addr) (node : Option Dag) (acts : List Action) :
    List DaoPacket :=
  match node with
  | none => []
  | some dag =>
    match dag.parent with
    | none => []
    | some p =>
      (daoDests acts).mapIdx fun i dest => ⟨v, dest, dagBuildDao (fields i) dag p.addr⟩

namespace DaoNetConfig

variable (cfg : DaoNetConfig)

def init : DaoNet where
  toNet := cfg.toNetConfig.init
  daos := []
  routes _ := []

/-- The node with an address. -/
def owner (addr : In6Addr) : In6Addr := if addr = cfg.rootDag.dodagid then cfg.root else addr

def Enabled (net : DaoNet) : DaoNetEvent → Prop
  | .trickle v => cfg.toNetConfig.Enabled net.toNet (.trickle v)
  | .node v e _ => cfg.toNetConfig.Enabled net.toNet (.node v e)
  | .dao v p _ => p ∈ net.daos ∧ cfg.owner p.dest = v
  | .setClass _ _ => True

/-- A node takes up the result of a handler. -/
def store (net : DaoNet) (v : In6Addr) (node : Option Dag) (acts : List Action) : DaoNet :=
  { net with
    dag := Function.update net.dag v node
    routes := Function.update net.routes v (acts.foldl cfg.netlink.apply (net.routes v)) }

def next (net : DaoNet) : DaoNetEvent → DaoNet
  | .trickle v => { net with toNet := cfg.toNetConfig.next net.toNet (.trickle v) }
  | .node v e fields =>
    let (node, acts) := nodeStep (cfg.iface v) (cfg.adaptiveEnabled v) (net.dag v) e
    { cfg.store net v node acts with daos := sentDaos fields v node acts ++ net.daos }
  | .dao v p beyond =>
    match processDao cfg.calls (fun _ _ => net.dag v) (p.dao.packet beyond) p.src with
    | some (dag, acts) => cfg.store net v (some dag) acts
    | none => net
  | .setClass v newClass =>
    { net with
      dag := Function.update net.dag v
        ((net.dag v).map fun dag => { dag with nodeClass := newClass }) }

def network : Machine DaoNet DaoNetEvent Unit where
  enabled := cfg.Enabled
  next := cfg.next
  out _ _ := ()

end DaoNetConfig

variable {cfg : DaoNetConfig}

instance [DecidableRel cfg.neighbour] (net : DaoNet) (e : DaoNetEvent) :
    Decidable (cfg.network.enabled net e) :=
  match e with
  | .trickle v => inferInstanceAs (Decidable (cfg.toNetConfig.Enabled net.toNet (.trickle v)))
  | .node v e _ => inferInstanceAs (Decidable (cfg.toNetConfig.Enabled net.toNet (.node v e)))
  | .dao v p _ => inferInstanceAs (Decidable
      (p ∈ net.daos ∧ cfg.owner p.dest = v))
  | .setClass _ _ => inferInstanceAs (Decidable True)

variable {net : DaoNet} {v w : In6Addr}

/-- The node of the network after an event of its own. -/
def DaoNetConfig.stepNode (cfg : DaoNetConfig) (net : DaoNet) (v : In6Addr) (e : NodeEvent) :
    Option Dag × List Action :=
  nodeStep (cfg.iface v) (cfg.adaptiveEnabled v) (net.dag v) e

theorem next_node (v : In6Addr) (e : NodeEvent) (fields : ℕ → DaoFields) :
    cfg.next net (.node v e fields) =
      { cfg.store net v (cfg.stepNode net v e).1 (cfg.stepNode net v e).2 with
        daos := sentDaos fields v (cfg.stepNode net v e).1 (cfg.stepNode net v e).2 ++
          net.daos } := rfl

theorem next_trickle_daoDag (v : In6Addr) : (cfg.next net (.trickle v)).dag = net.dag :=
  next_trickle_dag

/-- A DAO is taken up by a node that has joined. -/
theorem next_dao (cfg : DaoNetConfig) {dag : Dag} (hdag : net.dag v = some dag) (p : DaoPacket)
    (beyond : ℕ → UInt8) :
    ∃ root acts, cfg.next net (.dao v p beyond) =
        cfg.store net v (some { dag with
          childs := recordChilds cfg.calls p.src dag.childs p.dao.targets
          root := root }) acts ∧
      RemovesNone acts ∧
      addedRoutes acts = if dag.InstallsRoutes then
        (recordChilds cfg.calls p.src dag.childs p.dao.targets).map (Child.route dag.ifindex)
      else [] := by
  obtain ⟨root, acts, hprocess, hcalls⟩ :=
    processDao_packet cfg.calls (fun _ _ => net.dag v) p.dao hdag beyond p.src
  exact ⟨root, acts, by simp [DaoNetConfig.next, hprocess], hcalls⟩

theorem next_dao_of_none (hdag : net.dag v = none) (p : DaoPacket) (beyond : ℕ → UInt8) :
    cfg.next net (.dao v p beyond) = net := by
  have hnone : processDao cfg.calls (fun _ _ => net.dag v) (p.dao.packet beyond) p.src = none :=
    processDao_eq_none_iff.mpr (Or.inr hdag)
  simp [DaoNetConfig.next, hnone]

/-- What a step makes of the DODAG of a node that has joined: an event of its own tracks the
parent, a DAO in flight adds children, and a switch changes the class. -/
inductive DagStep (cfg : DaoNetConfig) (net : DaoNet) (v : In6Addr) (dag : Dag) :
    DaoNetEvent → Dag → Prop
  | kept (e : DaoNetEvent) : DagStep cfg net v dag e dag
  | track (e : NodeEvent) (fields : ℕ → DaoFields) (parent : Option Peer) (myRank : UInt16)
      (seen : ℚ) :
      (cfg.stepNode net v e).1 = some (dag.track parent myRank seen) →
      DagStep cfg net v dag (.node v e fields) (dag.track parent myRank seen)
  | record (p : DaoPacket) (beyond : ℕ → UInt8) (root : List TInsert) :
      DagStep cfg net v dag (.dao v p beyond)
        { dag with
          childs := recordChilds cfg.calls p.src dag.childs p.dao.targets
          root := root }
  | setClass (newClass : NodeClass) :
      DagStep cfg net v dag (.setClass v newClass) { dag with nodeClass := newClass }

/-- A node that has joined takes a `DagStep`. -/
theorem next_dag_of_some (cfg : DaoNetConfig) {dag : Dag} (hdag : net.dag w = some dag)
    (e : DaoNetEvent) :
    ∃ new, (cfg.next net e).dag w = some new ∧ DagStep cfg net w dag e new := by
  cases e with
  | trickle v => exact ⟨dag, by rw [next_trickle_daoDag, hdag], .kept _⟩
  | node v e fields =>
      by_cases hw : w = v
      · subst hw
        obtain ⟨parent, myRank, seen, htrack⟩ := nodeStep_track (cfg.iface w)
          (cfg.adaptiveEnabled w) dag e
        have hstep : (cfg.stepNode net w e).1 = some (dag.track parent myRank seen) := by
          rw [DaoNetConfig.stepNode, hdag, htrack]
        exact ⟨_, by simp [next_node, DaoNetConfig.store, hstep],
          .track e fields parent myRank seen hstep⟩
      · exact ⟨dag, by simpa [next_node, DaoNetConfig.store, hw] using hdag, .kept _⟩
  | dao v p beyond =>
      by_cases hw : w = v
      · subst hw
        obtain ⟨root, acts, hnext, -⟩ := next_dao cfg hdag p beyond
        exact ⟨_, by simp [hnext, DaoNetConfig.store], .record p beyond root⟩
      · refine ⟨dag, ?_, .kept _⟩
        cases hv : net.dag v with
        | none => rwa [next_dao_of_none hv]
        | some dagV =>
            obtain ⟨root, acts, hnext, -⟩ := next_dao cfg hv p beyond
            simpa [hnext, DaoNetConfig.store, hw] using hdag
  | setClass v newClass =>
      by_cases hw : w = v
      · subst hw
        exact ⟨_, by simp [DaoNetConfig.next, hdag], .setClass newClass⟩
      · exact ⟨dag, by simpa [DaoNetConfig.next, hw] using hdag, .kept _⟩

/-- A node joins by an event of its own. -/
theorem next_dag_of_none (hdag : net.dag w = none) {e : DaoNetEvent} {new : Dag}
    (hnew : (cfg.next net e).dag w = some new) :
    ∃ ev fields, e = .node w ev fields ∧ (cfg.stepNode net w ev).1 = some new := by
  cases e with
  | trickle v =>
      rw [next_trickle_daoDag, hdag] at hnew
      exact nomatch hnew
  | node v ev fields =>
      by_cases hw : w = v
      · subst hw
        exact ⟨ev, fields, rfl, by simpa [next_node, DaoNetConfig.store] using hnew⟩
      · simp [next_node, DaoNetConfig.store, hw, hdag] at hnew
  | dao v p beyond =>
      cases hv : net.dag v with
      | none =>
          rw [next_dao_of_none hv, hdag] at hnew
          exact nomatch hnew
      | some dagV =>
          have hw : w ≠ v := by
            rintro rfl
            exact nomatch hdag.symm.trans hv
          obtain ⟨root, acts, hnext, -⟩ := next_dao cfg hv p beyond
          simp [hnext, DaoNetConfig.store, hw, hdag] at hnew
  | setClass v newClass =>
      by_cases hw : w = v
      · subst hw
        simp [DaoNetConfig.next, hdag] at hnew
      · simp [DaoNetConfig.next, hw, hdag] at hnew

/-- The DODAG of a node after a step, from the one before. -/
theorem next_dag_cases {e : DaoNetEvent} {new : Dag} (hnew : (cfg.next net e).dag w = some new) :
    (∃ dag, net.dag w = some dag ∧ DagStep cfg net w dag e new) ∨
      (net.dag w = none ∧
        ∃ ev fields, e = .node w ev fields ∧ (cfg.stepNode net w ev).1 = some new) := by
  cases hdag : net.dag w with
  | none => exact Or.inr ⟨rfl, next_dag_of_none hdag hnew⟩
  | some dag =>
      obtain ⟨new', hnew', hstep⟩ := next_dag_of_some cfg hdag e
      obtain rfl := Option.some.inj (hnew'.symm.trans hnew)
      exact Or.inl ⟨dag, rfl, hstep⟩

/-- A DAO that was sent is built from the new DODAG of its sender, which has a parent. -/
theorem mem_sentDaos {fields : ℕ → DaoFields} {node : Option Dag} {acts : List Action}
    {p : DaoPacket} (h : p ∈ sentDaos fields v node acts) :
    ∃ dag parent i, node = some dag ∧ dag.parent = some parent ∧ p.src = v ∧
      p.dest ∈ daoDests acts ∧ p.dao = dagBuildDao (fields i) dag parent.addr := by
  cases node with
  | none => exact nomatch h
  | some dag =>
      cases hp : dag.parent with
      | none => simp [sentDaos, hp] at h
      | some parent =>
          simp only [sentDaos, hp, List.mem_mapIdx] at h
          obtain ⟨i, hi, rfl⟩ := h
          exact ⟨dag, parent, i, rfl, hp, rfl, List.getElem_mem hi, rfl⟩

/-- The DAOs in flight after a step are those before, and those that a node has sent. -/
theorem next_daos_cases {e : DaoNetEvent} {p : DaoPacket} (hp : p ∈ (cfg.next net e).daos) :
    p ∈ net.daos ∨ ∃ ev fields, e = .node p.src ev fields ∧
      p ∈ sentDaos fields p.src (cfg.stepNode net p.src ev).1 (cfg.stepNode net p.src ev).2 := by
  cases e with
  | trickle v => exact Or.inl hp
  | node v ev fields =>
      rw [next_node, List.mem_append] at hp
      rcases hp with hp | hp
      · obtain ⟨dag, parent, i, -, -, rfl, -⟩ := mem_sentDaos hp
        exact Or.inr ⟨ev, fields, rfl, hp⟩
      · exact Or.inl hp
  | dao v q beyond =>
      cases hv : net.dag v with
      | none =>
          rw [next_dao_of_none hv] at hp
          exact Or.inl hp
      | some dag =>
          obtain ⟨root, acts, hnext, -⟩ := next_dao cfg hv q beyond
          rw [hnext] at hp
          exact Or.inl hp
  | setClass v newClass => exact Or.inl hp

/-- The hybrid network whose DIOs copy the DODAG. -/
def copyingDaoNet : DaoNetConfig where
  toNetConfig := copyingNet
  calls := sampleDaoCalls
  netlink := sampleNetlink
  rootDag_childs := rfl
  dodagid_owner _ _ := rfl

instance : DecidableRel copyingDaoNet.neighbour :=
  inferInstanceAs (DecidableRel copyingNet.neighbour)

/-- The free bytes of the DAOs. -/
def zeroFields : ℕ → DaoFields := fun _ => ⟨1, 0, 0, 0, 0, 0, 0, 0, 0⟩

/-- `fe80::2` joins below the root and `fe80::3` below `fe80::2`, which gets the DAO of
`fe80::3`, and sends its own to the root at the next DIO. -/
def aggregateInTurn : List DaoNetEvent :=
  let rootDio := copyingNet.buildDio copyingNet.rootDag
  let dag2 : Dag := { joinedDag (copyingNet.iface (linkLocal 2)) 1 rootDio ⟨64, linkLocal 0⟩ with
    childs := [⟨linkLocal 3, linkLocal 3⟩] }
  let dag3 := joinedDag (copyingNet.iface (linkLocal 3)) 2 rootDio ⟨64, linkLocal 0⟩
  [.trickle (linkLocal 1),
    .node (linkLocal 2) (.dio 1 ⟨true, true⟩ rootDio (linkLocal 1)) zeroFields,
    .trickle (linkLocal 2),
    .node (linkLocal 3) (.dio 2 ⟨true, true⟩ { rootDio with dagrank := 2 } (linkLocal 2))
      zeroFields,
    .dao (linkLocal 2)
      ⟨linkLocal 3, linkLocal 2, dagBuildDao (zeroFields 0) dag3 (linkLocal 2)⟩ (fun _ => 0),
    .node (linkLocal 2) (.dio 3 ⟨true, true⟩ rootDio (linkLocal 1)) zeroFields,
    .dao (linkLocal 1)
      ⟨linkLocal 2, linkLocal 1, dagBuildDao (zeroFields 0) dag2 (linkLocal 1)⟩ (fun _ => 0)]

end HyMRPL
