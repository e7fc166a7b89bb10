import HyMRPL.Network.Routes

/-!
# The source routing tree

In the mode without storing, and in the hybrid mode where all nodes are in Class N, a node
tells the root only of itself and its parent, and the root inserts that into the tree from
which it takes the source routes. A DAO may be lost, delayed, repeated, or overtaken by
another one.

While no parent is lost, a node keeps its first parent. So whatever the root has inserted, at
any time, is what the sender still has as its parent; and when a DAO of each node on the way
has arrived, the insertions lead from the node to the root.
-/

namespace HyMRPL

open Transition NextHop Relation

/-- There is memory for the peer, the DIO is of a node with a parent, and a check does not find
the parent silent. -/
def NodeEvent.Undisturbed (node : Option Dag) : NodeEvent → Prop
  | .dio _ alloc heard _ => alloc.peer = true ∧ heard.dagrank ≠ uint16Max
  | .parentCheck now => ∀ dag ∈ node, ¬ dag.TimedOut now

section Node

variable {iface : NodeConfig} {adaptiveEnabled : Bool} {dag new : Dag} {p : Peer} {e : NodeEvent}

/-- A node that has a parent keeps it. -/
theorem nodeStep_undisturbed (hp : dag.parent = some p) (hmax : p.rank ≠ uint16Max)
    (he : e.Undisturbed (some dag))
    (hnew : (nodeStep iface adaptiveEnabled (some dag) e).1 = some new) :
    ∃ q, new.parent = some q ∧ q.rank ≠ uint16Max ∧ q.addr = p.addr := by
  have hsame : some dag = some new → ∃ q, new.parent = some q ∧ q.rank ≠ uint16Max ∧
      q.addr = p.addr := by
    intro heq
    obtain rfl := Option.some.inj heq
    exact ⟨p, hp, hmax, rfl⟩
  cases e with
  | parentCheck now =>
      rw [nodeStep_of_not_timedOut he] at hnew
      exact hsame hnew
  | dio now alloc dio src =>
      cases ht : dioTarget now alloc iface (some dag) dio with
      | none =>
          rw [nodeStep_of_no_target ht] at hnew
          exact hsame hnew
      | some target =>
          obtain rfl : dag = target := by
            rcases dioTarget_cases ht with ⟨heq, -⟩ | ⟨hnone, -⟩
            · exact Option.some.inj heq
            · simp at hnone
          rw [nodeStep_of_target ht, dioUpdate_of_valid hp hmax] at hnew
          obtain rfl := Option.some.inj hnew
          exact ⟨_, Dag.refresh_parent hp now src dio.dagrank,
            Dag.refresh_rank_ne hmax dio.dagrank, rfl⟩

/-- A node that joins takes the sender of the DIO as its parent. -/
theorem nodeStep_undisturbed_join (he : e.Undisturbed none)
    (hnew : (nodeStep iface adaptiveEnabled none e).1 = some new) :
    ∃ now alloc dio src pfx, e = .dio now alloc dio src ∧ dio.dagrank ≠ uint16Max ∧
      new = (joinedDag iface now dio pfx).adopt now src dio.dagrank := by
  obtain ⟨now, alloc, dio, src, pfx, parent, myRank, seen, rfl, hpfx, ht, -⟩ := nodeStep_join hnew
  obtain ⟨hpeer, hmax⟩ := he
  have hadopts : (joinedDag iface now dio pfx).Adopts alloc.peer := ⟨rfl, fun _ => hpeer⟩
  rw [nodeStep_of_target ht, dioUpdate_of_adopts hadopts] at hnew
  exact ⟨now, alloc, dio, src, pfx, rfl, hmax, (Option.some.inj hnew).symm⟩

end Node

/-- The parent of `a` is `b`. -/
def Net.ParentHop (net : Net) (a b : In6Addr) : Prop :=
  ∃ dag, net.dag a = some dag ∧ dag.parent.map Peer.addr = some b

/-- An insertion is right: the target is the sender, and the parent is its parent. -/
structure Net.Confirms (net : Net) (call : TInsert) : Prop where
  parent : net.ParentHop call.source call.parent
  target : net.Owns call.target call.source

/-- The root has inserted `a` below `b`. -/
def Net.TreeHop (net : Net) (root a b : In6Addr) : Prop :=
  ∃ dag, net.dag root = some dag ∧ ∃ call ∈ dag.root, call.source = a ∧ call.parent = b

/-- A DODAG in which nodes send no targets but their own. -/
def DaoNetConfig.SourceRouted (cfg : DaoNetConfig) : Prop :=
  cfg.rootDag.mop = Mop.nonstoring ∨
    cfg.rootDag.mop = Mop.hybrid ∧ ∀ v, (cfg.iface v).nodeClass = .classN

/-- No parent is lost, and in the hybrid mode nobody is switched to Class S. -/
def DaoNetConfig.Undisturbed (cfg : DaoNetConfig) (net : DaoNet) : DaoNetEvent → Prop
  | .trickle _ => True
  | .node v e _ => e.Undisturbed (net.dag v)
  | .dao _ _ _ => True
  | .setClass _ newClass => cfg.rootDag.mop = Mop.hybrid → newClass = .classN

/-- Where a node stands: the root is one, and the others have parents, and are in Class N in the
hybrid mode. -/
structure DaoNetConfig.Settled (cfg : DaoNetConfig) (v : In6Addr) (dag : Dag) : Prop where
  root : v = cfg.root → dag.myRank = 1
  parent : v ≠ cfg.root → ∃ p, dag.parent = some p ∧ p.rank ≠ uint16Max
  classN : v ≠ cfg.root → cfg.rootDag.mop = Mop.hybrid → dag.nodeClass = .classN

/-- Nodes keep their addresses and their parents. -/
def Net.KeepsParents (old new : Net) : Prop :=
  ∀ v dag, old.dag v = some dag → ∃ dag', new.dag v = some dag' ∧ dag'.self = dag.self ∧
    dag'.parent.map Peer.addr = dag.parent.map Peer.addr

/-- The root has made an insertion for `v`. -/
def Net.Inserted (net : Net) (root v : In6Addr) : Prop :=
  ∃ dag, net.dag root = some dag ∧ ∃ call ∈ dag.root, call.source = v

/-- A DAO of `v` has arrived at the root. -/
def DaoNetConfig.Delivered (cfg : DaoNetConfig) (es : List DaoNetEvent) (v : In6Addr) : Prop :=
  ∃ p beyond, .dao cfg.root p beyond ∈ es ∧ p.src = v

/-- What the network keeps: the insertions that were made are right, and so are those that the
DAOs in flight will lead to. -/
structure Mirrors (cfg : DaoNetConfig) (net : DaoNet) : Prop where
  agrees : net.Agrees cfg.toNetConfig
  rootJoined : (net.dag cfg.root).isSome
  settled : ∀ v dag, net.dag v = some dag → cfg.Settled v dag
  sent : ∀ p ∈ net.daos, ∃ call, p.dao.inserts p.src = [call] ∧ call.source = p.src ∧
    net.Confirms call
  tree : ∀ dag, net.dag cfg.root = some dag → ∀ call ∈ dag.root, net.Confirms call
  arrives : ∀ v, (net.dag v).isSome → Arrives net.ParentHop (· = cfg.root) v

theorem Net.KeepsParents.parentHop {old new : Net} (h : old.KeepsParents new) {a b : In6Addr}
    (hab : old.ParentHop a b) : new.ParentHop a b := by
  obtain ⟨dag, hdag, hb⟩ := hab
  obtain ⟨dag', hdag', -, hsame⟩ := h a dag hdag
  exact ⟨dag', hdag', hsame.trans hb⟩

theorem Net.KeepsParents.confirms {old new : Net} (h : old.KeepsParents new) {call : TInsert}
    (hcall : old.Confirms call) : new.Confirms call := by
  refine ⟨h.parentHop hcall.parent, ?_⟩
  obtain ⟨dag, hdag, hself⟩ := hcall.target
  obtain ⟨dag', hdag', hsame, -⟩ := h _ dag hdag
  exact ⟨dag', hdag', hsame.trans hself⟩

section Step

variable {cfg : DaoNetConfig} {net : DaoNet} {v : In6Addr} {dag new : Dag} {e : DaoNetEvent}

/-- A node that has joined stays settled. -/
theorem DaoNetConfig.Settled.step (h : cfg.Settled v dag) (hdag : net.dag v = some dag)
    (hstep : DagStep cfg net v dag e new) (he : cfg.Undisturbed net e) : cfg.Settled v new := by
  cases hstep with
  | kept => exact h
  | record => exact ⟨h.root, h.parent, h.classN⟩
  | setClass newClass => exact ⟨h.root, h.parent, fun _ => he⟩
  | track ev fields parent myRank seen hnode =>
      rw [DaoNetConfig.stepNode, hdag] at hnode
      constructor
      case root =>
        intro hv
        rw [nodeStep_of_myRank (h.root hv)] at hnode
        rw [← Option.some.inj hnode]
        exact h.root hv
      case parent =>
        intro hv
        obtain ⟨p, hp, hmax⟩ := h.parent hv
        obtain ⟨q, hq, hqmax, -⟩ := nodeStep_undisturbed hp hmax (hdag ▸ he) hnode
        exact ⟨q, hq, hqmax⟩
      case classN => exact h.classN

/-- So does its parent. -/
theorem DaoNetConfig.Settled.parent_step (h : cfg.Settled v dag) (hdag : net.dag v = some dag)
    (hstep : DagStep cfg net v dag e new) (he : cfg.Undisturbed net e) :
    new.parent.map Peer.addr = dag.parent.map Peer.addr := by
  cases hstep with
  | kept => rfl
  | record => rfl
  | setClass newClass => rfl
  | track ev fields parent myRank seen hnode =>
      rw [DaoNetConfig.stepNode, hdag] at hnode
      by_cases hv : v = cfg.root
      · rw [nodeStep_of_myRank (h.root hv)] at hnode
        rw [← Option.some.inj hnode]
      · obtain ⟨p, hp, hmax⟩ := h.parent hv
        obtain ⟨q, hq, -, haddr⟩ := nodeStep_undisturbed hp hmax (hdag ▸ he) hnode
        rw [hq, hp, Option.map_some, Option.map_some, haddr]

theorem Mirrors.keepsParents (h : Mirrors cfg net) (he : cfg.Undisturbed net e) :
    net.toNet.KeepsParents (cfg.next net e).toNet := by
  intro v dag hdag
  obtain ⟨new, hnew, hstep⟩ := next_dag_of_some cfg hdag e
  exact ⟨new, hnew, hstep.self_eq, (h.settled v dag hdag).parent_step hdag hstep he⟩

/-- What a node has after a step is settled, and its parent, if it has just got one, has joined. -/
theorem Mirrors.next_dag (h : Mirrors cfg net) (hmode : cfg.SourceRouted)
    (hl : cfg.Enabled net e) (he : cfg.Undisturbed net e)
    (hnew : (cfg.next net e).dag v = some new) :
    cfg.Settled v new ∧ (net.dag v = none →
      ∃ src, new.parent.map Peer.addr = some src ∧ (net.dag src).isSome) := by
  rcases next_dag_cases hnew with ⟨dag, hdag, hstep⟩ | ⟨hdag, ev, fields, rfl, hjoin⟩
  · exact ⟨(h.settled v dag hdag).step hdag hstep he, fun hnone => by simp [hdag] at hnone⟩
  · have hne : v ≠ cfg.root := by
      rintro rfl
      have hroot := h.rootJoined
      simp [hdag] at hroot
    rw [DaoNetConfig.stepNode, hdag] at hjoin
    obtain ⟨now, alloc, dio, src, pfx, rfl, hmax, rfl⟩ :=
      nodeStep_undisturbed_join (by rw [← hdag]; exact he) hjoin
    have hsrc : (net.dag src).isSome := (h.agrees.sent _ hl.1).2
    refine ⟨⟨fun hv => absurd hv hne, fun _ => ⟨_, rfl, hmax⟩, fun _ hhybrid => ?_⟩,
      fun _ => ⟨src, rfl, hsrc⟩⟩
    rcases hmode with hmop | ⟨-, hclass⟩
    · rw [hhybrid] at hmop
      exact absurd hmop (by decide)
    · exact hclass v

/-- A node that is settled sends its own target only. -/
theorem daoChilds_of_settled (hmode : cfg.SourceRouted) (hmop : dag.mop = cfg.rootDag.mop)
    (h : cfg.Settled v dag) (hv : v ≠ cfg.root) : daoChilds dag = [] := by
  rcases hmode with hnonstoring | ⟨hhybrid, -⟩
  · rw [hnonstoring] at hmop
    simp [daoChilds, hmop, Mop.nonstoring, Mop.storingNoMulticast, Mop.storingMulticast]
  · have hclass := h.classN hv hhybrid
    rw [hhybrid] at hmop
    simp [daoChilds, hmop, hclass, Mop.hybrid, Mop.nonstoring, Mop.storingNoMulticast,
      Mop.storingMulticast]

/-- A DAO that was just sent says what the sender has. -/
theorem Mirrors.confirms_sent (h : Mirrors cfg net)
    (hagrees : (cfg.next net e).Agrees cfg.toNetConfig) (hmode : cfg.SourceRouted)
    (hl : cfg.Enabled net e) (he : cfg.Undisturbed net e) {p : DaoPacket} {ev : NodeEvent}
    {fields : ℕ → DaoFields} (hev : e = .node p.src ev fields)
    (hsent : p ∈ sentDaos fields p.src (cfg.stepNode net p.src ev).1
      (cfg.stepNode net p.src ev).2) :
    ∃ call, p.dao.inserts p.src = [call] ∧ call.source = p.src ∧
      (cfg.next net e).Confirms call := by
  subst hev
  obtain ⟨new, q, i, hnode, hq, -, hdest, hdao⟩ := mem_sentDaos hsent
  have hnew : (cfg.next net (.node p.src ev fields)).dag p.src = some new := by
    simp [next_node, DaoNetConfig.store, hnode]
  have hne : p.src ≠ cfg.root := by
    intro hroot
    obtain ⟨dag, hdag⟩ := Option.isSome_iff_exists.mp h.rootJoined
    rw [← hroot] at hdag
    exact (mem_daoDests_nodeStep hdest hnode).1 dag hdag ((h.settled _ dag hdag).root hroot)
  have hchilds : daoChilds new = [] :=
    daoChilds_of_settled hmode (hagrees.dags _ new hnew).mop (h.next_dag hmode hl he hnew).1 hne
  refine ⟨⟨q.addr, p.src, new.self⟩, ?_, rfl, ⟨new, hnew, by rw [hq]; rfl⟩, ⟨new, hnew, rfl⟩⟩
  rw [hdao, inserts_dagBuildDao, hchilds]
  rfl

theorem Mirrors.buildsSourceRoutes (h : Mirrors cfg net) (hmode : cfg.SourceRouted)
    (hdag : net.dag cfg.root = some dag) : dag.BuildsSourceRoutes := by
  have hmop := (h.agrees.dags _ dag hdag).mop
  rcases hmode with hnonstoring | ⟨hhybrid, -⟩
  · exact Or.inl (hmop.trans hnonstoring)
  · exact Or.inr ⟨hmop.trans hhybrid, (h.settled _ dag hdag).root rfl⟩

/-- The root inserts what a DAO says. -/
theorem next_dao_root (hdag : net.dag v = some dag) (hbuilds : dag.BuildsSourceRoutes)
    (p : DaoPacket) (beyond : ℕ → UInt8)
    (hnew : (cfg.next net (.dao v p beyond)).dag v = some new) :
    new.root = dag.root ++ p.dao.inserts p.src := by
  obtain ⟨childs, acts, hprocess, -⟩ := processDao_wellFormed cfg.calls (fun _ _ => net.dag v)
    p.dao hdag hbuilds beyond p.src
  simp only [DaoNetConfig.next, hprocess, DaoNetConfig.store, Function.update_self,
    Option.some.injEq] at hnew
  rw [← hnew]

/-- Only DAOs to the root add to its tree. -/
theorem Mirrors.next_tree (h : Mirrors cfg net) (hmode : cfg.SourceRouted)
    (hdag : net.dag cfg.root = some dag) (hnew : (cfg.next net e).dag cfg.root = some new) :
    new.root = dag.root ∨ ∃ p beyond, e = .dao cfg.root p beyond ∧
      new.root = dag.root ++ p.dao.inserts p.src := by
  obtain ⟨new', hnew', hstep⟩ := next_dag_of_some cfg hdag e
  obtain rfl := Option.some.inj (hnew'.symm.trans hnew)
  cases hstep with
  | kept => exact Or.inl rfl
  | track => exact Or.inl rfl
  | setClass newClass => exact Or.inl rfl
  | record p beyond root =>
      exact Or.inr ⟨p, beyond, rfl,
        next_dao_root hdag (h.buildsSourceRoutes hmode hdag) p beyond hnew⟩

/-- The step lemma. -/
theorem Mirrors.next (h : Mirrors cfg net) (hcopies : cfg.CopiesDodag)
    (hmode : cfg.SourceRouted) (hl : cfg.Enabled net e) (he : cfg.Undisturbed net e) :
    Mirrors cfg (cfg.next net e) := by
  have hkeeps := h.keepsParents he
  have hagrees := agrees_next h.agrees hcopies hl
  have hjoined : ∀ v, (net.dag v).isSome → ((cfg.next net e).dag v).isSome := by
    intro v hv
    obtain ⟨dag, hdag⟩ := Option.isSome_iff_exists.mp hv
    obtain ⟨new, hnew, -⟩ := hkeeps v dag hdag
    rw [hnew]
    rfl
  constructor
  case agrees => exact hagrees
  case rootJoined => exact hjoined _ h.rootJoined
  case settled => exact fun v new hnew => (h.next_dag hmode hl he hnew).1
  case sent =>
    intro p hp
    rcases next_daos_cases hp with hold | ⟨ev, fields, hev, hsent⟩
    · obtain ⟨call, hinserts, hsource, hcall⟩ := h.sent p hold
      exact ⟨call, hinserts, hsource, hkeeps.confirms hcall⟩
    · exact h.confirms_sent hagrees hmode hl he hev hsent
  case tree =>
    intro new hnew call hcall
    obtain ⟨dag, hdag⟩ := Option.isSome_iff_exists.mp h.rootJoined
    rcases h.next_tree hmode hdag hnew with hsame | ⟨p, beyond, rfl, happend⟩
    · exact hkeeps.confirms (h.tree dag hdag call (hsame ▸ hcall))
    · rw [happend, List.mem_append] at hcall
      rcases hcall with hcall | hcall
      · exact hkeeps.confirms (h.tree dag hdag call hcall)
      · obtain ⟨call', hinserts, -, hcall'⟩ := h.sent p hl.1
        rw [hinserts, List.mem_singleton] at hcall
        exact hkeeps.confirms (hcall ▸ hcall')
  case arrives =>
    intro v hv
    obtain ⟨new, hnew⟩ := Option.isSome_iff_exists.mp hv
    have hmono : ∀ w, (net.dag w).isSome →
        Arrives (cfg.next net e).ParentHop (· = cfg.root) w :=
      fun w hw => (h.arrives w hw).mono (fun _ _ => hkeeps.parentHop) fun _ hroot => hroot
    cases hdag : net.dag v with
    | some dag => exact hmono v (by rw [hdag]; rfl)
    | none =>
        obtain ⟨src, hparent, hsrc⟩ := (h.next_dag hmode hl he hnew).2 hdag
        exact (hmono src hsrc).cons ⟨new, hnew, hparent⟩

theorem mirrors_init (cfg : DaoNetConfig) (hroot : cfg.rootDag.root = []) :
    Mirrors cfg cfg.init := by
  have hinit : ∀ v dag, cfg.init.dag v = some dag → v = cfg.root ∧ dag = cfg.rootDag := by
    intro v dag hdag
    by_cases hv : v = cfg.root
    · subst hv
      exact ⟨rfl, by simpa [DaoNetConfig.init, NetConfig.init, eq_comm] using hdag⟩
    · simp [DaoNetConfig.init, NetConfig.init, hv] at hdag
  constructor
  case agrees => exact Net.agrees_init cfg.toNetConfig
  case rootJoined => simp [DaoNetConfig.init, NetConfig.init]
  case settled =>
    intro v dag hdag
    obtain ⟨rfl, rfl⟩ := hinit v dag hdag
    exact ⟨fun _ => cfg.rootDag_myRank, fun hne => absurd rfl hne, fun hne => absurd rfl hne⟩
  case sent =>
    intro p hp
    simp [DaoNetConfig.init] at hp
  case tree =>
    intro dag hdag call hcall
    rw [(hinit _ dag hdag).2, hroot] at hcall
    exact absurd hcall List.not_mem_nil
  case arrives =>
    intro v hv
    obtain ⟨dag, hdag⟩ := Option.isSome_iff_exists.mp hv
    exact Arrives.here (hinit v dag hdag).1

/-- What was inserted stays, and a DAO that arrives at the root is inserted. -/
theorem Mirrors.next_inserted (h : Mirrors cfg net) (hmode : cfg.SourceRouted)
    (hl : cfg.Enabled net e) (hv : net.Inserted cfg.root v ∨ cfg.Delivered [e] v) :
    (cfg.next net e).Inserted cfg.root v := by
  obtain ⟨dag, hdag⟩ := Option.isSome_iff_exists.mp h.rootJoined
  obtain ⟨new, hnew, -⟩ := next_dag_of_some cfg hdag e
  refine ⟨new, hnew, ?_⟩
  rcases hv with ⟨dag', hdag', call, hcall, hsource⟩ | ⟨p, beyond, hmem, rfl⟩
  · obtain rfl := Option.some.inj (hdag.symm.trans hdag')
    refine ⟨call, ?_, hsource⟩
    rcases h.next_tree hmode hdag hnew with hsame | ⟨p, beyond, -, happend⟩
    · exact hsame ▸ hcall
    · rw [happend]
      exact List.mem_append_left _ hcall
  · obtain rfl := List.mem_singleton.mp hmem
    obtain ⟨call, hinserts, hsource, -⟩ := h.sent p hl.1
    refine ⟨call, ?_, hsource⟩
    rw [next_dao_root hdag (h.buildsSourceRoutes hmode hdag) p beyond hnew, hinserts]
    exact List.mem_append_right _ (List.mem_singleton_self _)

/-- The run lemma. -/
theorem Mirrors.run (h : Mirrors cfg net) (hcopies : cfg.CopiesDodag)
    (hmode : cfg.SourceRouted) {es : List DaoNetEvent} (hl : cfg.network.Legal net es)
    (hes : cfg.network.Steps cfg.Undisturbed net es) :
    Mirrors cfg (cfg.network.run net es) ∧
      (net.Inserted cfg.root v ∨ cfg.Delivered es v →
        (cfg.network.run net es).Inserted cfg.root v) := by
  induction es generalizing net with
  | nil =>
      refine ⟨h, fun hv => hv.resolve_right ?_⟩
      rintro ⟨p, beyond, hmem, -⟩
      exact absurd hmem List.not_mem_nil
  | cons e es ih =>
      obtain ⟨hmirrors, hinserted⟩ := ih (h.next hcopies hmode hl.1 hes.1) hl.2 hes.2
      refine ⟨hmirrors, fun hv => hinserted ?_⟩
      rcases hv with hv | ⟨p, beyond, hmem, hsrc⟩
      · exact Or.inl (h.next_inserted hmode hl.1 (Or.inl hv))
      · rcases List.mem_cons.mp hmem with heq | hmem
        · left
          exact h.next_inserted hmode hl.1
            (Or.inr ⟨p, beyond, heq ▸ List.mem_singleton_self _, hsrc⟩)
        · exact Or.inr ⟨p, beyond, hmem, hsrc⟩

theorem Net.ParentHop.unique {net : Net} {a b c : In6Addr} (hb : net.ParentHop a b)
    (hc : net.ParentHop a c) : b = c := by
  obtain ⟨dag, hdag, hparent⟩ := hb
  obtain ⟨dag', hdag', hparent'⟩ := hc
  obtain rfl := Option.some.inj (hdag.symm.trans hdag')
  exact Option.some.inj (hparent.symm.trans hparent')

/-- The insertion for a node is below its parent. -/
theorem Mirrors.treeHop (h : Mirrors cfg net) {a b : In6Addr} (hab : net.ParentHop a b)
    (ha : net.Inserted cfg.root a) : net.TreeHop cfg.root a b := by
  obtain ⟨dag, hdag, call, hcall, rfl⟩ := ha
  exact ⟨dag, hdag, call, hcall, rfl, (h.tree dag hdag call hcall).parent.unique hab⟩

/-- The insertions for the nodes above a node lead to the root as its parents do. -/
theorem Mirrors.arrives_tree (h : Mirrors cfg net) (hv : (net.dag v).isSome)
    (hinserted : ∀ w, ReflTransGen net.ParentHop v w → w ≠ cfg.root →
      net.Inserted cfg.root w) :
    Arrives (net.TreeHop cfg.root) (· = cfg.root) v := by
  obtain ⟨u, hu, hlead⟩ := h.arrives v hv
  clear hv
  induction hlead using ReflTransGen.head_induction_on with
  | refl => exact Arrives.here hu
  | @head a b hab _ ih =>
      by_cases ha : a = cfg.root
      · exact Arrives.here ha
      · have htail := ih fun w hw => hinserted w (hw.head hab)
        exact htail.cons (h.treeHop hab (hinserted a ReflTransGen.refl ha))

end Step

/-- Without lost parents, every insertion of the root is right at all times: the target is the
sender's own, and the parent is the one that the sender has, a neighbour. If the DAOs of a node
and of all nodes above it have arrived, the insertions lead from it to the root, along a path
without a loop. -/
theorem source_routes (cfg : DaoNetConfig) (hcopies : cfg.CopiesDodag)
    (hmode : cfg.SourceRouted) (hroot : cfg.rootDag.root = []) (es : List DaoNetEvent)
    (hl : cfg.network.Legal cfg.init es)
    (hes : cfg.network.Steps cfg.Undisturbed cfg.init es) :
    let net := (cfg.network.run cfg.init es).toNet
    (∀ dag, net.dag cfg.root = some dag → ∀ call ∈ dag.root, net.Confirms call ∧
      cfg.neighbour call.parent call.source) ∧
    ∀ v, (net.dag v).isSome →
      (∀ w, ReflTransGen net.ParentHop v w → w ≠ cfg.root → cfg.Delivered es w) →
        ∃ path, IsPath (net.TreeHop cfg.root) (· = cfg.root) v path := by
  intro net
  have hrun := fun v => (mirrors_init cfg hroot).run (v := v) hcopies hmode hl hes
  have hend : Mirrors cfg (cfg.network.run cfg.init es) := (hrun cfg.root).1
  constructor
  · intro dag hdag call hcall
    have hconfirms := hend.tree dag hdag call hcall
    refine ⟨hconfirms, ?_⟩
    obtain ⟨sender, hsender, hparent⟩ := hconfirms.parent
    obtain ⟨p, hp, haddr⟩ := Option.map_eq_some_iff.mp hparent
    exact haddr ▸ (hend.agrees.parent _ sender p hsender hp).1
  · intro v hv hdelivered
    have hinserted := fun w hw hne => (hrun w).2 (Or.inr (hdelivered w hw hne))
    exact (hend.arrives_tree hv hinserted).exists_path

/-- The hybrid network with all nodes in Class N. -/
def classNNet : DaoNetConfig where
  __ := copyingDaoNet
  iface v := ⟨1, .classN, sampleDagOps 5 v⟩

instance : DecidableRel classNNet.neighbour :=
  inferInstanceAs (DecidableRel copyingNet.neighbour)

/-- What a node of `classNNet` has when it joins. -/
def classNDag (v : In6Addr) (now : ℚ) : Dag :=
  joinedDag (classNNet.iface v) now (copyingNet.buildDio copyingNet.rootDag) ⟨64, linkLocal 0⟩

/-- `fe80::2` joins below the root and `fe80::3` below `fe80::2`; the DAO of `fe80::3` is the
first to arrive, and arrives twice. -/
def childFirst : List DaoNetEvent :=
  let rootDio := copyingNet.buildDio copyingNet.rootDag
  let dao := dagBuildDao (zeroFields 0) (classNDag (linkLocal 2) 1) (linkLocal 1)
  let childDao := dagBuildDao (zeroFields 1) (classNDag (linkLocal 3) 2) (linkLocal 2)
  [.trickle (linkLocal 1),
    .node (linkLocal 2) (.dio 1 ⟨true, true⟩ rootDio (linkLocal 1)) zeroFields,
    .trickle (linkLocal 2),
    .node (linkLocal 3) (.dio 2 ⟨true, true⟩ { rootDio with dagrank := 2 } (linkLocal 2))
      zeroFields,
    .dao (linkLocal 1) ⟨linkLocal 3, linkLocal 1, childDao⟩ (fun _ => 0),
    .setClass (linkLocal 3) .classN,
    .dao (linkLocal 1) ⟨linkLocal 2, linkLocal 1, dao⟩ (fun _ => 0),
    .dao (linkLocal 1) ⟨linkLocal 3, linkLocal 1, childDao⟩ (fun _ => 0)]

theorem Net.parentHop_iff {net : Net} {a b : In6Addr} : net.ParentHop a b ↔
    ((net.dag a).bind fun dag => dag.parent.map Peer.addr) = some b :=
  Option.bind_eq_some_iff.symm

/-- The insertions lead from `fe80::3` to the root. -/
theorem childFirst_routes :
    classNNet.network.Legal classNNet.init childFirst ∧
      let net := (classNNet.network.run classNNet.init childFirst).toNet
      ∃ path, IsPath (net.TreeHop classNNet.root) (· = classNNet.root) (linkLocal 3) path := by
  have hlegal : classNNet.network.Legal classNNet.init childFirst := by decide +kernel
  have hsteps : classNNet.network.Steps classNNet.Undisturbed classNNet.init childFirst :=
    ⟨trivial, ⟨rfl, by decide⟩, trivial, ⟨rfl, by decide⟩, trivial, fun _ => rfl, trivial, trivial,
      trivial⟩
  refine ⟨hlegal, (source_routes classNNet copiesDodag_copyingNet (Or.inr ⟨rfl, fun _ => rfl⟩) rfl
    childFirst hlegal hsteps).2 (linkLocal 3) (by decide +kernel) fun w hw hne => ?_⟩
  have hparents : w = linkLocal 3 ∨ w = linkLocal 2 ∨ w = linkLocal 1 := by
    clear hne
    induction hw with
    | refl => exact Or.inl rfl
    | @tail b c _ hbc ih =>
        rw [Net.parentHop_iff] at hbc
        rcases ih with rfl | rfl | rfl
        · exact Or.inr (Or.inl (Option.some.inj (hbc.symm.trans (by decide +kernel))))
        · exact Or.inr (Or.inr (Option.some.inj (hbc.symm.trans (by decide +kernel))))
        · exact absurd (hbc.symm.trans (by decide +kernel)) (Option.some_ne_none c)
  rcases hparents with rfl | rfl | rfl
  · exact ⟨_, _, List.mem_of_getElem? (i := 4) rfl, rfl⟩
  · exact ⟨_, _, List.mem_of_getElem? (i := 6) rfl, rfl⟩
  · exact absurd rfl hne

end HyMRPL
