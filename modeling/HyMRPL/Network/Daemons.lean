import HyMRPL.Cmd.Sender
import HyMRPL.Daemon.Projection
import HyMRPL.Network.Children
import HyMRPL.Node.Settings

/-!
# A network of daemons

In `DaoNetConfig.network` a node is one DODAG. Here the nodes are daemons, with any number of
interfaces and DODAGs, the FIFO, the engine and all callbacks, and one DODAG is followed, on
one interface of each. Its DIOs and DAOs come from the network. What else a daemon
receives is arbitrary.

For the DODAG that is followed, a run of the daemons is a run of `DaoNetConfig.network`. There
the trickle period is never reloaded, so the DODAGs agree up to the period, and a check of the
parent is matched by one at another time. Who joins does so in the class of the interface,
which the node then switches to.
-/

namespace HyMRPL

open Transition Tlv NextHop

/-- What the DODAG is surrounded by at a node. -/
def DaoNetConfig.config (cfg : DaoNetConfig) (v : In6Addr) : DodagConfig :=
  ⟨(cfg.iface v).ifindex, (cfg.iface v).dagOps, cfg.adaptiveEnabled v, cfg.calls⟩

/-- A network with a daemon at each node. The configured root has the root's DODAG on its
interface, with a number as the trickle period; the others do not have the DODAG yet. A DIO
does not carry the period. -/
structure RpldNetConfig extends DaoNetConfig where
  hmac : Hmac
  key : DodagKey
  code : In6Addr → DagCode
  port : In6Addr → ℕ
  daemon : In6Addr → Rpld
  looksUp : ∀ v, (code v).LooksUp
  rootDag_trickleT : ∃ t : ℚ, rootDag.trickleT = t
  buildDio_retime : ∀ dag t, buildDio (dag.retime t) = buildDio dag
  shows : ∀ v, ∃ nodeClass, Shows (code v) (toDaoNetConfig.config v) (port v) key (daemon v)
    ⟨nodeClass, toDaoNetConfig.init.dag v⟩

/-- The daemons, and the DIOs and DAOs of the DODAG that were sent. -/
structure RpldNet where
  node : In6Addr → Rpld
  sent : List (In6Addr × Dio)
  daos : List DaoPacket

/-- The trickle timer of the DODAG, or a callback of a daemon; `fields` are the free bytes of
the DAOs that it sends. -/
inductive RpldNetEvent
  | trickle (v : In6Addr)
  | daemon (v : In6Addr) (e : RpldEvent) (fields : ℕ → DaoFields)

/-- A DIO that the DODAG gets must have been sent by a neighbour, and a DAO to the node. -/
def DaoNetConfig.Heard (cfg : DaoNetConfig) (sent : List (In6Addr × Dio)) (daos : List DaoPacket)
    (v : In6Addr) : DodagEvent → Prop
  | .node (.dio _ _ dio src) => (src, dio) ∈ sent ∧ cfg.neighbour src v
  | .dao msg src => ∃ p ∈ daos, cfg.owner p.dest = v ∧ src = p.src ∧
      msg.bytes = (p.dao.packet msg.beyond).bytes
  | _ => True

instance (cfg : DaoNetConfig) [DecidableRel cfg.neighbour] (sent : List (In6Addr × Dio))
    (daos : List DaoPacket) (v : In6Addr) : ∀ ev, Decidable (cfg.Heard sent daos v ev)
  | .node (.dio _ _ _ _) => inferInstanceAs (Decidable (_ ∧ _))
  | .dao msg src => inferInstanceAs (Decidable (∃ p ∈ daos, cfg.owner p.dest = v ∧ src = p.src ∧
      msg.bytes = (p.dao.packet msg.beyond).bytes))
  | .node (.parentCheck _) => .isTrue trivial
  | .setClass _ => .isTrue trivial
  | .reload _ => .isTrue trivial

namespace RpldNetConfig

variable (cfg : RpldNetConfig)

/-- The DODAG that is followed, in the daemon of a node. -/
def dagOf (v : In6Addr) (r : Rpld) : Option Dag :=
  r.ifaces[cfg.port v]?.bind fun iface => iface.dagOf cfg.key

def dag (n : RpldNet) (v : In6Addr) : Option Dag := cfg.dagOf v (n.node v)

/-- What it gets of an event of the daemon. -/
def events (n : RpldNet) (v : In6Addr) (e : RpldEvent) : List DodagEvent :=
  dodagEvents cfg.hmac (cfg.port v) cfg.key (n.node v) e

def init : RpldNet := ⟨cfg.daemon, [], []⟩

def Enabled (n : RpldNet) : RpldNetEvent → Prop
  | .trickle v => (cfg.dag n v).isSome
  | .daemon v e _ => ∀ ev ∈ cfg.events n v e, cfg.Heard n.sent n.daos v ev

instance [DecidableRel cfg.neighbour] (n : RpldNet) : ∀ e, Decidable (cfg.Enabled n e)
  | .trickle v => inferInstanceAs (Decidable ((cfg.dag n v).isSome = true))
  | .daemon v e _ =>
    inferInstanceAs (Decidable (∀ ev ∈ cfg.events n v e, cfg.Heard n.sent n.daos v ev))

def next (n : RpldNet) : RpldNetEvent → RpldNet
  | .trickle v =>
    match cfg.dag n v with
    | some dag => { n with sent := (v, cfg.buildDio dag) :: n.sent }
    | none => n
  | .daemon v e fields =>
    let r := (rpld (cfg.code v) cfg.hmac).next (n.node v) e
    let acts := (handle (cfg.code v) (n.node v).adaptiveEnabled (n.node v).ifaces e).2
    let sent := if (cfg.events n v e).isEmpty then [] else sentDaos fields v (cfg.dagOf v r) acts
    { n with node := Function.update n.node v r, daos := sent ++ n.daos }

def network : Machine RpldNet RpldNetEvent Unit where
  enabled := cfg.Enabled
  next := cfg.next
  out _ _ := ()

instance [DecidableRel cfg.neighbour] (n : RpldNet) (e : RpldNetEvent) :
    Decidable (cfg.network.enabled n e) :=
  inferInstanceAs (Decidable (cfg.Enabled n e))

end RpldNetConfig

section Sent

variable {fields : ℕ → DaoFields} {v : In6Addr} {acts : List Action} {node node' : Option Dag}

theorem sentDaos_of_retimed (h : Option.Rel Dag.Retimed node node') :
    sentDaos fields v node' acts = sentDaos fields v node acts := by
  cases h with
  | none => rfl
  | some h =>
      obtain ⟨t, rfl⟩ := h
      rfl

theorem sentDaos_of_no_dests (h : daoDests acts = []) : sentDaos fields v node acts = [] := by
  cases node with
  | none => rfl
  | some dag => cases hp : dag.parent <;> simp [sentDaos, hp, h]

theorem daoChilds_of_no_childs {dag : Dag} (h : dag.childs = []) : daoChilds dag = [] := by
  cases hclass : dag.nodeClass <;> simp [daoChilds, h, hclass]

/-- Without children the DAO is the same in either class. -/
theorem sentDaos_of_no_childs {dag : Dag} (h : dag.childs = []) (c : NodeClass) :
    sentDaos fields v (some (dag.reclass c)) acts = sentDaos fields v (some dag) acts := by
  have hchilds : (dag.reclass c).childs = [] := h
  have hsame : daoChilds (dag.reclass c) = daoChilds dag := by
    rw [daoChilds_of_no_childs h, daoChilds_of_no_childs hchilds]
  have hdao (f : DaoFields) (parent : In6Addr) :
      dagBuildDao f (dag.reclass c) parent = dagBuildDao f dag parent := by
    simp only [dagBuildDao, hsame]
    rfl
  have hparent : (dag.reclass c).parent = dag.parent := rfl
  cases hp : dag.parent with
  | none => simp [sentDaos, hparent, hp]
  | some parent => simp [sentDaos, hparent, hp, hdao]

theorem daoDests_daoInsertTargets (calls : DaoCalls) (src parent : In6Addr) (dag : Dag)
    (targets : List In6Addr) : daoDests (daoInsertTargets calls src parent dag targets).2 = [] := by
  induction targets generalizing dag with
  | nil => rfl
  | cons target targets ih =>
      have hrest := ih { dag with root := dag.root ++ [⟨parent, src, target⟩] }
      simp only [daoInsertTargets, daoDests_append, hrest, List.append_nil]
      split_ifs <;> rfl

theorem daoDests_daoRoutes (calls : DaoCalls) (msg : Packet) (src : In6Addr) (w : DaoWalk)
    (dag : Dag) : daoDests (daoRoutes calls msg src w dag).2 = [] := by
  have hvia : daoDests (daoViaRoutes dag) = [] := by simp [daoDests, daoViaRoutes]
  have hsource : daoDests (daoSourceRoutes calls msg src w dag).2 = [] := by
    cases htransit : w.transit with
    | none => simp [daoSourceRoutes, htransit, daoDests]
    | some transit =>
        simp only [daoSourceRoutes, htransit]
        exact daoDests_daoInsertTargets calls src _ dag _
  cases hclass : dag.nodeClass <;> simp only [daoRoutes, hclass] <;> split_ifs <;>
    first | exact hvia | exact hsource | rfl

/-- `process_dao` sends no DAO. -/
theorem daoDests_processDao {calls : DaoCalls} {dagLookup : UInt8 → In6Addr → Option Dag}
    {msg : Packet} {src : In6Addr} {dag : Dag}
    (h : processDao calls dagLookup msg src = some (dag, acts)) : daoDests acts = [] := by
  obtain ⟨old, w, -, ⟨-, rfl⟩ | ⟨-, rfl⟩⟩ := processDao_eq_some h
  · rfl
  · rw [daoDests_append, daoDests_daoRoutes]
    rfl

end Sent

/-- What a run of the network has done at `v`, if the DODAG there has become `node` and has sent
some DAOs. -/
structure DaoNet.Answers (net : DaoNet) (v : In6Addr) (node : Option Dag) (daos : List DaoPacket)
    (net' : DaoNet) : Prop where
  sent : net'.sent = net.sent
  daos : net'.daos = daos ++ net.daos
  others : ∀ w, w ≠ v → net'.dag w = net.dag w
  dag : Option.Rel Dag.Retimed node (net'.dag v)

section Event

variable {cfg : DaoNetConfig} {net : DaoNet} {v : In6Addr} {s : Slot} {now : ℚ}
  {fields : ℕ → DaoFields}

theorem DaoNet.Answers.refl (h : Option.Rel Dag.Retimed s.dag (net.dag v)) :
    net.Answers v s.dag [] net :=
  ⟨rfl, rfl, fun _ _ => rfl, h⟩

/-- A step of a node answers with what it makes of the DODAG. -/
theorem answers_node (e : NodeEvent) {node : Option Dag} {daos : List DaoPacket}
    (hnode : Option.Rel Dag.Retimed node (cfg.stepNode net v e).1)
    (hdaos : sentDaos fields v (cfg.stepNode net v e).1 (cfg.stepNode net v e).2 = daos) :
    net.Answers v node daos (cfg.network.run net [.node v e fields]) := by
  change net.Answers v node daos (cfg.next net (.node v e fields))
  rw [next_node, hdaos]
  exact ⟨rfl, rfl, fun w hw => by simp [DaoNetConfig.store, hw],
    by simpa [DaoNetConfig.store] using hnode⟩

theorem retimed_reclass {node node' : Option Dag} (h : Option.Rel Dag.Retimed node node')
    (c : NodeClass) :
    Option.Rel Dag.Retimed (node.map (Dag.reclass c)) (node'.map (Dag.reclass c)) := by
  cases h with
  | none => exact .none
  | some h =>
      obtain ⟨t, rfl⟩ := h
      exact .some ⟨t, rfl⟩

/-- A switch sends nothing. -/
theorem DaoNet.Answers.setClass {net' : DaoNet} {node : Option Dag} {daos : List DaoPacket}
    (h : net.Answers v node daos net') (cfg : DaoNetConfig) (c : NodeClass) :
    net.Answers v (node.map (Dag.reclass c)) daos (cfg.next net' (.setClass v c)) := by
  refine ⟨h.sent, h.daos, fun w hw => ?_, ?_⟩
  · rw [← h.others w hw]
    simp [DaoNetConfig.next, hw]
  · have hdag : (cfg.next net' (.setClass v c)).dag v = (net'.dag v).map (Dag.reclass c) := by
      simp only [DaoNetConfig.next, Function.update_self]
      rfl
    rw [hdag]
    exact retimed_reclass h.dag c

theorem retimed_refl {node : Option Dag}
    (h : ∀ dag, node = some dag → ∃ t : ℚ, dag.trickleT = t) :
    Option.Rel Dag.Retimed node node := by
  cases node with
  | none => exact .none
  | some dag =>
      obtain ⟨t, ht⟩ := h dag rfl
      exact .some (Dag.Retimed.refl ht)

theorem exists_retime {dag : Dag} {node : Option Dag} (h : Option.Rel Dag.Retimed (some dag) node) :
    ∃ t : ℚ, node = some (dag.retime t) := by
  cases h with
  | some h =>
      obtain ⟨t, rfl⟩ := h
      exact ⟨t, rfl⟩

theorem eq_none_of_retimed {node : Option Dag} (h : Option.Rel Dag.Retimed none node) :
    node = none := by
  cases h
  rfl

theorem retimed_of_retime {node node' : Option Dag} (h : Option.Rel Dag.Retimed node node')
    (newTrickleT : CDouble) : Option.Rel Dag.Retimed (node.map (Dag.retime newTrickleT)) node' := by
  cases h with
  | none => exact .none
  | some h =>
      obtain ⟨t, rfl⟩ := h
      exact .some ⟨t, rfl⟩

/-- A check of the parent is matched by one that is as late. -/
theorem exists_answer_parentCheck (now : ℚ) (h : Option.Rel Dag.Retimed s.dag (net.dag v)) :
    ∃ fs, cfg.network.Legal net fs ∧
      net.Answers v (dodagStep (cfg.config v) s (.node (.parentCheck now))).1.dag
        (sentDaos fields v (dodagStep (cfg.config v) s (.node (.parentCheck now))).1.dag
          (dodagStep (cfg.config v) s (.node (.parentCheck now))).2)
        (cfg.network.run net fs) := by
  obtain ⟨nodeClass, node⟩ := s
  cases node with
  | none => exact ⟨[], trivial, DaoNet.Answers.refl h⟩
  | some dag =>
      have hstep : dodagStep (cfg.config v) ⟨nodeClass, some dag⟩ (.node (.parentCheck now)) =
          (⟨nodeClass, some (parentCheckCb now (cfg.adaptiveEnabled v) dag).1⟩,
            (parentCheckCb now (cfg.adaptiveEnabled v) dag).2) := rfl
      rw [hstep, sentDaos_of_no_dests (daoDests_parentCheckCb now (cfg.adaptiveEnabled v) dag)]
      by_cases htime : dag.TimedOut now
      · obtain ⟨t, hdag⟩ := exists_retime h
        have hnode (e : ℚ) : cfg.stepNode net v (.parentCheck e) =
            (some (parentCheckCb e (cfg.adaptiveEnabled v) (dag.retime t)).1,
              (parentCheckCb e (cfg.adaptiveEnabled v) (dag.retime t)).2) := by
          rw [DaoNetConfig.stepNode, hdag]
          rfl
        refine ⟨[.node v (.parentCheck (dag.parentLastSeen + parentTimeoutFactor * t)) fields],
          ⟨?_, trivial⟩, answers_node _ ?_ ?_⟩
        · change (net.dag v).isSome
          rw [hdag]
          rfl
        · rw [hnode, parentCheckCb_retime htime]
          exact .some ⟨t, rfl⟩
        · rw [hnode]
          exact sentDaos_of_no_dests (daoDests_parentCheckCb _ _ _)
      · rw [parentCheckCb_of_not_timedOut htime]
        exact ⟨[], trivial, DaoNet.Answers.refl h⟩

/-- A DIO for a DODAG that is there. -/
theorem answers_dio {alloc : Alloc} {dio : Dio} {src : In6Addr} {dag : Dag} (nodeClass : NodeClass)
    (h : Option.Rel Dag.Retimed (some dag) (net.dag v)) :
    net.Answers v (dodagStep (cfg.config v) ⟨nodeClass, some dag⟩
        (.node (.dio now alloc dio src))).1.dag
      (sentDaos fields v (dodagStep (cfg.config v) ⟨nodeClass, some dag⟩
          (.node (.dio now alloc dio src))).1.dag
        (dodagStep (cfg.config v) ⟨nodeClass, some dag⟩ (.node (.dio now alloc dio src))).2)
      (cfg.network.run net [.node v (.dio now alloc dio src) fields]) := by
  obtain ⟨t, hdag⟩ := exists_retime h
  obtain ⟨parent, myRank, seen, htrack⟩ := nodeStep_track
    { cfg.iface v with nodeClass := nodeClass } (cfg.adaptiveEnabled v) dag
    (.dio now alloc dio src)
  have hops : (cfg.iface v).dagOps = { cfg.iface v with nodeClass := nodeClass }.dagOps := rfl
  have hnode : cfg.stepNode net v (.dio now alloc dio src) =
      (some ((dag.track parent myRank seen).retime t),
        (dodagStep (cfg.config v) ⟨nodeClass, some dag⟩ (.node (.dio now alloc dio src))).2) := by
    have hsetup : dag.retime t = dag.setup t dag.nodeClass := rfl
    rw [DaoNetConfig.stepNode, hdag, hsetup, nodeStep_dio_setup hops, htrack]
    rfl
  have hdag' : (dodagStep (cfg.config v) ⟨nodeClass, some dag⟩
      (.node (.dio now alloc dio src))).1.dag = some (dag.track parent myRank seen) := htrack
  have hrel : Option.Rel Dag.Retimed (some (dag.track parent myRank seen))
      (some ((dag.track parent myRank seen).retime t)) := .some ⟨t, rfl⟩
  rw [hdag']
  refine answers_node _ ?_ ?_
  · rw [hnode]
    exact hrel
  · rw [hnode]
    exact sentDaos_of_retimed hrel

/-- Who joins has no children yet, and a number as the trickle period. -/
theorem stepNode_join {alloc : Alloc} {dio : Dio} {src : In6Addr} {new : Dag}
    (hdag : net.dag v = none)
    (hnew : (cfg.stepNode net v (.dio now alloc dio src)).1 = some new) :
    new.childs = [] ∧ ∃ t : ℚ, new.trickleT = t := by
  rw [DaoNetConfig.stepNode, hdag] at hnew
  obtain ⟨now', alloc', dio', src', pfx, parent, myRank, seen, -, -, -, rfl⟩ := nodeStep_join hnew
  exact ⟨rfl, (cfg.iface v).dagOps.trickleT, rfl⟩

/-- A DIO for a DODAG that is not there. Who joins by it then switches to the class of the
interface. -/
theorem answers_join {alloc : Alloc} {dio : Dio} {src : In6Addr} (nodeClass : NodeClass)
    (hdag : net.dag v = none) :
    net.Answers v (dodagStep (cfg.config v) ⟨nodeClass, none⟩
        (.node (.dio now alloc dio src))).1.dag
      (sentDaos fields v (dodagStep (cfg.config v) ⟨nodeClass, none⟩
          (.node (.dio now alloc dio src))).1.dag
        (dodagStep (cfg.config v) ⟨nodeClass, none⟩ (.node (.dio now alloc dio src))).2)
      (cfg.network.run net [.node v (.dio now alloc dio src) fields, .setClass v nodeClass]) := by
  have hstep : dodagStep (cfg.config v) ⟨nodeClass, none⟩ (.node (.dio now alloc dio src)) =
      (⟨nodeClass, (cfg.stepNode net v (.dio now alloc dio src)).1.map (Dag.reclass nodeClass)⟩,
        (cfg.stepNode net v (.dio now alloc dio src)).2) := by
    have hjoin := nodeStep_join_setup nodeClass (cfg.iface v) (cfg.adaptiveEnabled v) now alloc
      dio src
    rw [DaoNetConfig.stepNode, hdag]
    simp only [dodagStep]
    exact congrArg (fun r => ((⟨nodeClass, r.1⟩ : Slot), r.2)) hjoin
  have hdaos : sentDaos fields v ((cfg.stepNode net v (.dio now alloc dio src)).1.map
        (Dag.reclass nodeClass)) (cfg.stepNode net v (.dio now alloc dio src)).2 =
      sentDaos fields v (cfg.stepNode net v (.dio now alloc dio src)).1
        (cfg.stepNode net v (.dio now alloc dio src)).2 := by
    cases hnew : (cfg.stepNode net v (.dio now alloc dio src)).1 with
    | none => rfl
    | some new => exact sentDaos_of_no_childs (stepNode_join hdag hnew).1 nodeClass
  have hsame : Option.Rel Dag.Retimed (cfg.stepNode net v (.dio now alloc dio src)).1
      (cfg.stepNode net v (.dio now alloc dio src)).1 :=
    retimed_refl fun _ hnew => (stepNode_join hdag hnew).2
  rw [hstep, hdaos]
  exact (answers_node (.dio now alloc dio src) hsame rfl).setClass cfg nodeClass

/-- A DAO. -/
theorem exists_answer_dao {msg : Packet} {src : In6Addr}
    (h : Option.Rel Dag.Retimed s.dag (net.dag v))
    (hheard : cfg.Heard net.sent net.daos v (.dao msg src)) :
    ∃ fs, cfg.network.Legal net fs ∧
      net.Answers v (dodagStep (cfg.config v) s (.dao msg src)).1.dag
        (sentDaos fields v (dodagStep (cfg.config v) s (.dao msg src)).1.dag
          (dodagStep (cfg.config v) s (.dao msg src)).2)
        (cfg.network.run net fs) := by
  obtain ⟨p, hp, howner, rfl, hbytes⟩ := hheard
  have hmsg : p.dao.packet msg.beyond = msg := by
    obtain ⟨bytes, beyond⟩ := msg
    exact congrArg (Packet.mk · beyond) hbytes.symm
  obtain ⟨nodeClass, node⟩ := s
  rw [dodagStep_dao_eq]
  cases hresult : processDao (cfg.config v).daoCalls (fun _ _ => node) msg p.src with
  | none =>
      refine ⟨[], trivial, ?_⟩
      rw [sentDaos_of_no_dests rfl]
      exact DaoNet.Answers.refl h
  | some result =>
      obtain ⟨new, acts⟩ := result
      rw [Option.map_some, Option.map_some, Option.getD_some,
        sentDaos_of_no_dests (daoDests_processDao hresult)]
      obtain ⟨dag, -, rfl, -⟩ := processDao_eq_some hresult
      obtain ⟨t, hdag⟩ := exists_retime h
      have hnext : cfg.next net (.dao v p msg.beyond) =
          cfg.store net v (some (new.retime t)) acts := by
        have hprocess : processDao cfg.calls (fun _ _ => some dag) msg p.src = some (new, acts) :=
          hresult
        simp only [DaoNetConfig.next, hmsg, hdag, processDao_retime, hprocess, Option.map_some]
      refine ⟨[.dao v p msg.beyond], ⟨⟨hp, howner⟩, trivial⟩, ?_⟩
      change net.Answers v (some new) [] (cfg.next net (.dao v p msg.beyond))
      rw [hnext]
      exact ⟨rfl, rfl, fun w hw => by simp [DaoNetConfig.store, hw],
        by simpa [DaoNetConfig.store] using ⟨t, rfl⟩⟩

/-- Whatever happens to the DODAG of a daemon is matched by a run of the network. -/
theorem exists_answer (fields : ℕ → DaoFields) (h : Option.Rel Dag.Retimed s.dag (net.dag v))
    (ev : DodagEvent) (hheard : cfg.Heard net.sent net.daos v ev) :
    ∃ fs, cfg.network.Legal net fs ∧
      net.Answers v (dodagStep (cfg.config v) s ev).1.dag
        (sentDaos fields v (dodagStep (cfg.config v) s ev).1.dag
          (dodagStep (cfg.config v) s ev).2)
        (cfg.network.run net fs) := by
  cases ev with
  | node e =>
      cases e with
      | dio now alloc dio src =>
          obtain ⟨nodeClass, node⟩ := s
          cases node with
          | none =>
              have hdag := eq_none_of_retimed h
              refine ⟨[.node v (.dio now alloc dio src) fields, .setClass v nodeClass],
                ⟨hheard, trivial, trivial⟩, answers_join nodeClass hdag⟩
          | some dag =>
              exact ⟨[.node v (.dio now alloc dio src) fields], ⟨hheard, trivial⟩,
                answers_dio nodeClass h⟩
      | parentCheck now => exact exists_answer_parentCheck now h
  | dao msg src => exact exists_answer_dao h hheard
  | setClass newClass =>
      refine ⟨[.setClass v newClass], ⟨trivial, trivial⟩, ?_⟩
      have hsent := (DaoNet.Answers.refl h).setClass cfg newClass
      rw [sentDaos_of_no_dests rfl]
      exact hsent
  | reload newTrickleT =>
      have hnone : (dodagStep (cfg.config v) s (.reload newTrickleT)).2 = [] := by
        simp only [dodagStep]
        split_ifs <;> rfl
      rw [hnone, sentDaos_of_no_dests rfl]
      have hdag : Option.Rel Dag.Retimed (dodagStep (cfg.config v) s (.reload newTrickleT)).1.dag
          (net.dag v) := by
        by_cases ht : newTrickleT ≤ 0
        · simpa only [dodagStep, if_pos ht] using h
        · simp only [dodagStep, if_neg ht]
          exact retimed_of_retime h newTrickleT
      exact ⟨[], trivial, rfl, rfl, fun _ _ => rfl, hdag⟩

end Event

/-- The daemons show the state of a network: each has its DODAG up to the trickle period, and
as it was configured. -/
structure Portrays (cfg : RpldNetConfig) (n : RpldNet) (net : DaoNet) : Prop where
  shows : ∀ v, ∃ s, Shows (cfg.code v) (cfg.config v) (cfg.port v) cfg.key (n.node v) s ∧
    Option.Rel Dag.Retimed s.dag (net.dag v)
  sent : n.sent = net.sent
  daos : n.daos = net.daos

section Step

variable {cfg : RpldNetConfig} {n : RpldNet} {net : DaoNet} {v : In6Addr}

theorem dagOf_of_shows {r : Rpld} {config : DodagConfig} {s : Slot}
    (h : Shows (cfg.code v) config (cfg.port v) cfg.key r s) : cfg.dagOf v r = s.dag := by
  obtain ⟨iface, hiface, -, -, rfl⟩ := h
  rw [RpldNetConfig.dagOf, hiface]
  rfl

theorem Portrays.dag (h : Portrays cfg n net) (v : In6Addr) :
    Option.Rel Dag.Retimed (cfg.dag n v) (net.dag v) := by
  obtain ⟨s, hshows, hdag⟩ := h.shows v
  rwa [RpldNetConfig.dag, dagOf_of_shows hshows]

theorem portrays_init (cfg : RpldNetConfig) : Portrays cfg cfg.init cfg.toDaoNetConfig.init where
  shows v := by
    obtain ⟨nodeClass, h⟩ := cfg.shows v
    refine ⟨_, h, retimed_refl fun dag hdag => ?_⟩
    obtain rfl : dag = cfg.rootDag := by
      by_cases hv : v = cfg.root
      · subst hv
        simpa [DaoNetConfig.init, NetConfig.init, eq_comm] using hdag
      · simp [DaoNetConfig.init, NetConfig.init, hv] at hdag
    exact cfg.rootDag_trickleT
  sent := rfl
  daos := rfl

theorem Portrays.next_trickle (h : Portrays cfg n net) (he : cfg.Enabled n (.trickle v)) :
    cfg.toDaoNetConfig.network.Legal net [.trickle v] ∧
      Portrays cfg (cfg.next n (.trickle v)) (cfg.toDaoNetConfig.next net (.trickle v)) := by
  obtain ⟨dag, hdag⟩ := Option.isSome_iff_exists.mp he
  obtain ⟨t, hnet⟩ := exists_retime (hdag ▸ h.dag v)
  have hnext : cfg.next n (.trickle v) = { n with sent := (v, cfg.buildDio dag) :: n.sent } := by
    simp only [RpldNetConfig.next, hdag]
  have hnext' : (cfg.toDaoNetConfig.next net (.trickle v)).sent =
      (v, cfg.buildDio dag) :: net.sent := by
    simp [DaoNetConfig.next, NetConfig.next, hnet, cfg.buildDio_retime]
  refine ⟨⟨?_, trivial⟩, ?_⟩
  · change (net.dag v).isSome
    rw [hnet]
    rfl
  · rw [hnext]
    refine ⟨fun w => ?_, ?_, h.daos⟩
    · rw [next_trickle_daoDag]
      exact h.shows w
    · rw [hnext', ← h.sent]

/-- A DODAG gets at most one thing out of an event. -/
theorem dodagEvents_cases (hmac : Hmac) (i : ℕ) (key : DodagKey) (r : Rpld) (e : RpldEvent) :
    dodagEvents hmac i key r e = [] ∨ ∃ ev, dodagEvents hmac i key r e = [ev] := by
  cases e with
  | periodic now buf =>
      cases h : (tickRecord hmac now buf r.toDaemon).applied <;> simp [dodagEvents, h]
  | eval now energy => exact Or.inl rfl
  | recv now failures j msg =>
      simp only [dodagEvents]
      cases msg <;> simp only [messageEvents] <;> split_ifs <;> simp
  | parentCheck now j place =>
      simp only [dodagEvents]
      split_ifs <;> simp
  | reload newTrickleT => exact Or.inr ⟨_, rfl⟩
  | send => exact Or.inl rfl

/-- One daemon has changed, and the network has answered. -/
theorem Portrays.update (h : Portrays cfg n net) {r : Rpld} {s : Slot} {daos : List DaoPacket}
    {net' : DaoNet}
    (hshows : Shows (cfg.code v) (cfg.config v) (cfg.port v) cfg.key r s)
    (hanswers : net.Answers v s.dag daos net') :
    Portrays cfg { n with node := Function.update n.node v r, daos := daos ++ n.daos } net' where
  shows w := by
    by_cases hw : w = v
    · subst hw
      refine ⟨s, ?_, hanswers.dag⟩
      change Shows _ _ _ _ (Function.update n.node w r w) s
      rwa [Function.update_self]
    · change ∃ s, Shows _ _ _ _ (Function.update n.node v r w) s ∧ _
      rw [Function.update_of_ne hw, hanswers.others w hw]
      exact h.shows w
  sent := h.sent.trans hanswers.sent.symm
  daos := by rw [hanswers.daos, h.daos]

theorem Portrays.next_daemon (h : Portrays cfg n net) {e : RpldEvent} {fields : ℕ → DaoFields}
    (he : cfg.Enabled n (.daemon v e fields)) :
    ∃ fs, cfg.toDaoNetConfig.network.Legal net fs ∧
      Portrays cfg (cfg.next n (.daemon v e fields)) (cfg.toDaoNetConfig.network.run net fs) := by
  obtain ⟨s, hshows, hdag⟩ := h.shows v
  have hrefines := rpld_refinesBy_dodag (cfg.looksUp v) cfg.hmac (cfg.config v) (cfg.port v) cfg.key
  have hnext := hrefines.next _ _ e hshows
  have hcalls := hrefines.outputs _ _ e hshows
  rcases dodagEvents_cases cfg.hmac (cfg.port v) cfg.key (n.node v) e with hevents | ⟨ev, hevents⟩
  · rw [hevents] at hnext
    refine ⟨[], trivial, ?_⟩
    simp only [RpldNetConfig.next, RpldNetConfig.events, hevents, List.isEmpty_nil, if_true]
    exact h.update hnext (DaoNet.Answers.refl hdag)
  · rw [hevents] at hnext
    rw [dodagCalls, hevents] at hcalls
    have hacts : (dodagStep (cfg.config v) s ev).2 =
        (handle (cfg.code v) (n.node v).adaptiveEnabled (n.node v).ifaces e).2 :=
      (List.cons.inj hcalls).1
    have hheard : cfg.Heard n.sent n.daos v ev := by
      apply he
      rw [RpldNetConfig.events, hevents]
      exact List.mem_singleton_self ev
    rw [h.sent, h.daos] at hheard
    obtain ⟨fs, hlegal, hanswers⟩ := exists_answer fields hdag ev hheard
    refine ⟨fs, hlegal, ?_⟩
    have hafter := h.update hnext hanswers
    have hdagOf : cfg.dagOf v ((rpld (cfg.code v) cfg.hmac).next (n.node v) e) =
        (dodagStep (cfg.config v) s ev).1.dag := dagOf_of_shows hnext
    rw [← hdagOf, hacts] at hafter
    simp only [RpldNetConfig.next, RpldNetConfig.events, hevents, List.isEmpty_cons]
    exact hafter

/-- The step lemma. -/
theorem Portrays.next (h : Portrays cfg n net) {e : RpldNetEvent} (he : cfg.network.enabled n e) :
    ∃ fs, cfg.toDaoNetConfig.network.Legal net fs ∧
      Portrays cfg (cfg.network.next n e) (cfg.toDaoNetConfig.network.run net fs) := by
  cases e with
  | trickle v =>
      obtain ⟨hlegal, hnext⟩ := h.next_trickle he
      exact ⟨[.trickle v], hlegal, hnext⟩
  | daemon v e fields => exact h.next_daemon he

end Step

/-- Every run of the daemons is matched by a run of a network in which a node is one DODAG:
the same DIOs and DAOs are sent, and every daemon ends with the DODAG of the node, up to the
trickle period. -/
theorem daemons_refine (cfg : RpldNetConfig) (es : List RpldNetEvent)
    (hl : cfg.network.Legal cfg.init es) :
    let n := cfg.network.run cfg.init es
    ∃ fs, cfg.toDaoNetConfig.network.Legal cfg.toDaoNetConfig.init fs ∧
      let net := cfg.toDaoNetConfig.network.run cfg.toDaoNetConfig.init fs
      n.sent = net.sent ∧ n.daos = net.daos ∧
        ∀ v, Option.Rel Dag.Retimed (cfg.dag n v) (net.dag v) := by
  obtain ⟨fs, hlegal, hportrays⟩ := Machine.exists_legal_run (fun _ _ _ h he => h.next he)
    (portrays_init cfg) hl
  exact ⟨fs, hlegal, hportrays.sent, hportrays.daos, hportrays.dag⟩

/-- The hybrid network of daemons, with one interface each and no token. -/
def daemonNet : RpldNetConfig where
  toDaoNetConfig := copyingDaoNet
  hmac := sampleHmac
  key := ⟨1, linkLocal 1⟩
  code v := { searchDagCode with dagOps := fun _ => sampleDagOps 5 v }
  port _ := 0
  daemon v :=
    if v = linkLocal 1 then
      Rpld.start 0 none [⟨1, true, .classS, [⟨1, [copyingDaoNet.rootDag]⟩]⟩]
    else Rpld.start 0 none [⟨1, false, .classS, []⟩]
  looksUp _ := { looksUp_searchDagCode with dagOps := fun _ _ _ => rfl }
  rootDag_trickleT := ⟨5, rfl⟩
  buildDio_retime _ _ := rfl
  shows v := by
    refine ⟨.classS, ?_⟩
    by_cases hv : v = linkLocal 1
    · subst hv
      refine ⟨⟨1, true, .classS, [⟨1, [copyingDaoNet.rootDag]⟩]⟩, rfl, ⟨by simp, ?_⟩, rfl, rfl⟩
      simp [instances]
    · have hroot : v ≠ copyingDaoNet.root := hv
      have hnone : copyingDaoNet.init.dag v = none := by
        simp [DaoNetConfig.init, NetConfig.init, hroot]
      have henabled : copyingDaoNet.adaptiveEnabled v = true := decide_eq_true hv
      rw [if_neg hv, hnone, DaoNetConfig.config, henabled]
      exact ⟨⟨1, false, .classS, []⟩, rfl, ⟨List.nodup_nil, List.nodup_nil⟩, rfl, rfl⟩

instance : DecidableRel daemonNet.neighbour :=
  inferInstanceAs (DecidableRel copyingDaoNet.neighbour)

/-- `fe80::2` joins below the root and `fe80::3` below `fe80::2`, which reads a command and
reloads a longer period. So it still has its parent when it gets the DAO of `fe80::3`. -/
def daemonsInTurn : List RpldNetEvent :=
  let rootDio := copyingNet.buildDio copyingNet.rootDag
  let dag3 := joinedDag (copyingNet.iface (linkLocal 3)) 2 rootDio ⟨64, linkLocal 0⟩
  let dao := dagBuildDao (zeroFields 0) dag3 (linkLocal 2)
  [.trickle (linkLocal 1),
    .daemon (linkLocal 2) (.recv 1 0 0 (.dio ⟨true, true⟩ rootDio (linkLocal 1))) zeroFields,
    .trickle (linkLocal 2),
    .daemon (linkLocal 3)
      (.recv 2 0 0 (.dio ⟨true, true⟩ { rootDio with dagrank := 2 } (linkLocal 2))) zeroFields,
    .daemon (linkLocal 2) (.periodic 20 (hymrplCmd sampleHmac none .classN 0)) zeroFields,
    .daemon (linkLocal 2) (.reload 9) zeroFields,
    .daemon (linkLocal 2) (.parentCheck 60 0 (0, 0)) zeroFields,
    .daemon (linkLocal 2) (.recv 61 0 0 (.dao (dao.packet fun _ => 0) (linkLocal 3))) zeroFields]

theorem daemonsInTurn_legal : daemonNet.network.Legal daemonNet.init daemonsInTurn := by
  decide +kernel

/-- The network that matches has the same DIOs and DAOs, and its node `fe80::2` the same class
and children. -/
theorem daemonsInTurn_refines :
    let n := daemonNet.network.run daemonNet.init daemonsInTurn
    ((daemonNet.dag n (linkLocal 2)).map fun dag => (dag.trickleT, dag.parent, dag.nodeClass,
        dag.childs)) =
      some (9, some ⟨linkLocal 1, 1⟩, .classN, [⟨linkLocal 3, linkLocal 3⟩]) ∧
    ∃ fs, copyingDaoNet.network.Legal copyingDaoNet.init fs ∧
      let net := copyingDaoNet.network.run copyingDaoNet.init fs
      n.sent = net.sent ∧ n.daos = net.daos ∧
        ∀ v, Option.Rel Dag.Retimed (daemonNet.dag n v) (net.dag v) :=
  ⟨by decide +kernel, daemons_refine daemonNet daemonsInTurn daemonsInTurn_legal⟩

/-- The nodes as they appear in the network. -/
def RpldNetConfig.view (cfg : RpldNetConfig) (n : RpldNet) : Net := ⟨cfg.dag n, n.sent⟩

section View

variable {cfg : RpldNetConfig} {n : RpldNet} {net : DaoNet}

/-- What does not depend on the trickle period is the same at a daemon and at its node. -/
theorem Portrays.exists_iff (h : Portrays cfg n net) {P : Dag → Prop}
    (hP : ∀ dag t, P (dag.retime t) ↔ P dag) (v : In6Addr) :
    (∃ dag, cfg.dag n v = some dag ∧ P dag) ↔ ∃ dag, net.dag v = some dag ∧ P dag := by
  cases hdag : cfg.dag n v with
  | none => simp [eq_none_of_retimed (hdag ▸ h.dag v)]
  | some dag =>
      obtain ⟨t, hnet⟩ := exists_retime (hdag ▸ h.dag v)
      simp [hnet, hP]

theorem Portrays.childHop_eq (h : Portrays cfg n net) (target : In6Addr) :
    (cfg.view n).ChildHop target = net.ChildHop target := by
  funext a b
  exact propext (h.exists_iff (fun _ _ => Iff.rfl) a)

theorem Portrays.owns_eq (h : Portrays cfg n net) (target : In6Addr) :
    (cfg.view n).Owns target = net.Owns target := by
  funext a
  exact propext (h.exists_iff (fun _ _ => Iff.rfl) a)

end View

/-- In every state of a network of daemons, whatever else the daemons do, a daemon has at most
one next hop recorded for a target, and the next hops lead to one that owns the target. -/
theorem daemons_childs_lead (cfg : RpldNetConfig) (hlooks : LooksUpChild cfg.calls)
    (es : List RpldNetEvent) (hl : cfg.network.Legal cfg.init es) :
    cfg.network.Always (fun n => ∀ target a b, (cfg.view n).ChildHop target a b →
      (∀ b', (cfg.view n).ChildHop target a b' → b' = b) ∧
        ∃ path, IsPath ((cfg.view n).ChildHop target) ((cfg.view n).Owns target) a path)
      cfg.init es := by
  have hkeep : ∀ net e, ChildsLead net → cfg.toDaoNetConfig.network.enabled net e →
      ChildsLead (cfg.toDaoNetConfig.network.next net e) := fun net e h he => h.next hlooks he
  have hmatched := Machine.always_of_matched (fun _ _ _ h he => h.next he) hkeep
    (portrays_init cfg) (childsLead_init cfg.toDaoNetConfig) hl
  apply hmatched.mono
  rintro n ⟨net, hportrays, hlead⟩ target a b hhop
  rw [hportrays.childHop_eq] at hhop ⊢
  rw [hportrays.owns_eq]
  exact hlead.exists_path hhop

/-- `fe80::2` has `fe80::3` recorded behind itself. -/
theorem daemonsInTurn_lead :
    (daemonNet.view (daemonNet.network.run daemonNet.init daemonsInTurn)).ChildHop
        (linkLocal 3) (linkLocal 2) (linkLocal 3) ∧
      daemonNet.network.Always (fun n => ∀ target a b, (daemonNet.view n).ChildHop target a b →
        (∀ b', (daemonNet.view n).ChildHop target a b' → b' = b) ∧
          ∃ path, IsPath ((daemonNet.view n).ChildHop target) ((daemonNet.view n).Owns target) a
            path)
        daemonNet.init daemonsInTurn := by
  have hchilds : (daemonNet.dag (daemonNet.network.run daemonNet.init daemonsInTurn)
      (linkLocal 2)).map Dag.childs = some [⟨linkLocal 3, linkLocal 3⟩] := by
    decide +kernel
  obtain ⟨dag, hdag, hdagchilds⟩ := Option.map_eq_some_iff.mp hchilds
  exact ⟨⟨dag, hdag, by simp [hdagchilds]⟩,
    daemons_childs_lead daemonNet looksUpChild_sampleDaoCalls daemonsInTurn daemonsInTurn_legal⟩

end HyMRPL
