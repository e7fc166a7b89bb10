import HyMRPL.Network.Children
import HyMRPL.Node.RootVisibility

/-!
# What a step does to the routes to children

`next_routes_cases` says where a new route comes from, `mem_next_routes` which routes stay,
and `mem_daoDests_nodeStep` which DAOs a node sends. A root sends none: its DODAG stays as
it is at every event of its own.
-/

namespace HyMRPL

open Transition FindOrCreate

section Calls

variable {iface : NodeConfig} {adaptiveEnabled : Bool} {node : Option Dag} {dag new : Dag}
  {e : NodeEvent} {dest : In6Addr}

theorem mem_daoDests_dioSendDao (parent : Peer) (h : dest ∈ daoDests (dioSendDao dag parent)) :
    dest = parent.addr ∨ (dest = dag.dodagid ∧ ¬ Mop.Storing dag.mop) := by
  by_cases hstoring : Mop.Storing dag.mop
  · left
    have hmop : dag.mop = Mop.storingNoMulticast ∨ dag.mop = Mop.storingMulticast := hstoring
    simpa [dioSendDao, hmop, daoDests] using h
  · simp only [dioSendDao] at h
    split_ifs at h with h1 h2 h3 h4
    · exact absurd h1 hstoring
    · exact Or.inr ⟨by simpa [daoDests] using h, hstoring⟩
    · rcases (by simpa [daoDests] using h : dest = parent.addr ∨ dest = dag.dodagid) with h | h
      · exact Or.inl h
      · exact Or.inr ⟨h, hstoring⟩
    · exact Or.inl (by simpa [daoDests] using h)
    · exact absurd h List.not_mem_nil

/-- A root leaves its DODAG alone, and makes no call. -/
theorem nodeStep_of_myRank (h : dag.myRank = 1) (e : NodeEvent) :
    nodeStep iface adaptiveEnabled (some dag) e = (some dag, []) := by
  cases e with
  | dio now alloc dio src => exact nodeStep_of_no_target (by simp [dioTarget, h])
  | parentCheck now => simp [nodeStep, parentCheckCb, h]

/-- A DIO is answered by DAOs of a node that is no root, to its parent or, where the mode is
not storing, to the DODAG's address. -/
theorem mem_daoDests_nodeStep (h : dest ∈ daoDests (nodeStep iface adaptiveEnabled node e).2)
    (hnew : (nodeStep iface adaptiveEnabled node e).1 = some new) :
    (∀ dag, node = some dag → dag.myRank ≠ 1) ∧ ∃ p, new.parent = some p ∧
      (dest = p.addr ∨ (dest = new.dodagid ∧ ¬ Mop.Storing new.mop)) := by
  constructor
  · rintro dag rfl hroot
    rw [nodeStep_of_myRank hroot] at h
    exact nomatch h
  · cases e with
    | parentCheck now =>
        cases node with
        | none => exact nomatch h
        | some dag =>
            have hnone := daoDests_parentCheckCb now adaptiveEnabled dag
            exact absurd (hnone ▸ h : dest ∈ []) List.not_mem_nil
    | dio now alloc dio src =>
        cases ht : dioTarget now alloc iface node dio with
        | none =>
            rw [nodeStep_of_no_target ht] at h
            exact nomatch h
        | some dag =>
            rw [nodeStep_of_target ht] at h hnew
            obtain rfl := Option.some.inj hnew
            rcases dioUpdate_cases dag alloc.peer with ⟨hp, hpeer⟩ | hadopts | ⟨p, hp, hmax⟩
            · rw [hpeer, dioUpdate_of_no_peer hp] at h
              exact nomatch h
            · rw [dioUpdate_of_adopts hadopts] at h ⊢
              refine ⟨⟨src, dio.dagrank⟩, rfl, mem_daoDests_dioSendDao ⟨src, _⟩ ?_⟩
              rw [daoDests_append, daoDests_append, daoDests_adoptNotice] at h
              exact h
            · have hkept := Dag.refresh_parent hp now src dio.dagrank
              rw [dioUpdate_of_valid hp hmax] at h ⊢
              by_cases hrank : p.rank < dio.dagrank
              · simp [hrank, daoDests] at h
              · refine ⟨_, hkept, mem_daoDests_dioSendDao ⟨p.addr, dio.dagrank⟩ ?_⟩
                simpa [hrank, daoDests] using h

theorem removesNone_dioUpdate (ops : DagOps) (now : ℚ) (peerOk : Bool) (dag : Dag) (src : In6Addr)
    (rank : UInt16) : RemovesNone (dioUpdate ops now peerOk dag src rank).2 := by
  have hsend : ∀ (dag : Dag) (parent : Peer), RemovesNone (dioSendDao dag parent) := by
    intro dag parent
    simp only [dioSendDao]
    split_ifs <;> simp [RemovesNone]
  have hnotice : RemovesNone (dag.adoptNotice src) := by
    cases hp : dag.parent with
    | none => simp [Dag.adoptNotice, hp, RemovesNone]
    | some p => by_cases haddr : p.addr = src <;> simp [Dag.adoptNotice, hp, haddr, RemovesNone]
  have hdefault (via : In6Addr) :
      RemovesNone [.nlAddRouteDefault dag.ifindex via, .dagProcessDio] := by
    simp [RemovesNone]
  rcases dioUpdate_cases dag peerOk with ⟨hp, hpeer⟩ | hadopts | ⟨p, hp, hmax⟩
  · rw [hpeer, dioUpdate_of_no_peer hp]
    simp [RemovesNone]
  · rw [dioUpdate_of_adopts hadopts]
    simp only [removesNone_append]
    exact ⟨⟨hnotice, hdefault src⟩, hsend _ _⟩
  · rw [dioUpdate_of_valid hp hmax]
    by_cases hrank : p.rank < rank
    · simp [hrank, RemovesNone]
    · simp only [hrank, if_false, removesNone_append]
      exact ⟨hdefault p.addr, hsend _ _⟩

/-- An event of a node installs no route to a child, and removes at most those to the prefix
of its DODAG. -/
theorem Netlink.mem_foldl_apply_nodeStep (nl : Netlink) (routes : List ViaRoute)
    (route : ViaRoute) :
    (route ∈ (nodeStep iface adaptiveEnabled node e).2.foldl nl.apply routes →
        route ∈ routes) ∧
      (route ∈ routes → (∀ dag, node = some dag → route.dest ≠ dag.dest) →
        route ∈ (nodeStep iface adaptiveEnabled node e).2.foldl nl.apply routes) := by
  cases e with
  | dio now alloc dio src =>
      cases ht : dioTarget now alloc iface node dio with
      | none =>
          rw [nodeStep_of_no_target ht]
          exact ⟨id, fun h _ => h⟩
      | some dag =>
          have hremoves :=
            removesNone_dioUpdate iface.dagOps now alloc.peer dag src dio.dagrank
          rw [nodeStep_of_target ht, nl.mem_foldl_apply hremoves, addedRoutes_dioUpdate]
          simp +contextual
  | parentCheck now =>
      cases node with
      | none => exact ⟨id, fun h _ => h⟩
      | some dag =>
          by_cases ht : dag.TimedOut now
          · rw [nodeStep_of_timedOut ht, parentCheckCb_of_timedOut ht]
            cases adaptiveEnabled <;> simp +contextual [Netlink.apply, nl.mem_nlDelRouteVia]
          · have hkept : nodeStep iface adaptiveEnabled (some dag) (.parentCheck now) =
                (some dag, []) := by
              simp [nodeStep, parentCheckCb_of_not_timedOut ht]
            rw [hkept]
            exact ⟨id, fun h _ => h⟩

end Calls

section Step

variable {cfg : DaoNetConfig} {net : DaoNet} {v w : In6Addr} {e : DaoNetEvent} {dag new : Dag}
  {route : ViaRoute}

theorem Dag.SameDodag.trans {a b c : Dag} (h : a.SameDodag b) (h' : b.SameDodag c) :
    a.SameDodag c :=
  ⟨h.version.trans h'.version, h.mop.trans h'.mop, h.dodagid.trans h'.dodagid,
    h.prefixLen.trans h'.prefixLen⟩

theorem DagStep.sameDodag (h : DagStep cfg net v dag e new) : new.SameDodag dag := by
  cases h <;> exact ⟨rfl, rfl, rfl, rfl⟩

theorem DagStep.ifindex_eq (h : DagStep cfg net v dag e new) : new.ifindex = dag.ifindex := by
  cases h <;> rfl

/-- Only an event of the node itself changes the rank of a node, and never that of a root. -/
theorem DagStep.myRank_eq (h : DagStep cfg net v dag e new) (hdag : net.dag v = some dag)
    (hroot : dag.myRank = 1) : new.myRank = 1 := by
  cases h with
  | track ev fields parent myRank seen hstep =>
      rw [DaoNetConfig.stepNode, hdag, nodeStep_of_myRank hroot] at hstep
      exact (congrArg Dag.myRank (Option.some.inj hstep)).symm.trans hroot
  | _ => exact hroot

/-- DAOs and switches leave the DODAG and the parent of a node alone. -/
theorem DagStep.parent_eq (h : DagStep cfg net v dag e new)
    (he : ∀ w ev fields, e ≠ .node w ev fields) : new.parent = dag.parent := by
  cases h with
  | track ev fields => exact absurd rfl (he v ev fields)
  | _ => rfl

/-- A step that is no node's own leaves the DIOs and the parents alone. -/
theorem agrees_next_of_frame (h : net.Agrees cfg.toNetConfig)
    (hsent : (cfg.next net e).sent = net.sent) (he : ∀ w ev fields, e ≠ .node w ev fields) :
    (cfg.next net e).toNet.Agrees cfg.toNetConfig := by
  have hold : ∀ w new, (cfg.next net e).dag w = some new → ∃ dag, net.dag w = some dag ∧
      new.SameDodag dag ∧ new.parent = dag.parent := by
    intro w new hnew
    rcases next_dag_cases hnew with ⟨dag, hdag, hstep⟩ | ⟨-, ev, fields, hev, -⟩
    · exact ⟨dag, hdag, hstep.sameDodag, hstep.parent_eq he⟩
    · exact absurd hev (he w ev fields)
  have hjoined : ∀ w, (net.dag w).isSome → ((cfg.next net e).dag w).isSome := by
    intro w hw
    obtain ⟨dag, hdag⟩ := Option.isSome_iff_exists.mp hw
    obtain ⟨new, hnew, -⟩ := next_dag_of_some cfg hdag e
    simp [hnew]
  constructor
  case dags =>
    intro w new hnew
    obtain ⟨dag, hdag, hsame, -⟩ := hold w new hnew
    exact hsame.trans (h.dags w dag hdag)
  case linked =>
    intro w new hnew
    obtain ⟨dag, hdag, -⟩ := hold w new hnew
    exact h.linked w dag hdag
  case parent =>
    intro w new p hnew hp
    obtain ⟨dag, hdag, -, hparent⟩ := hold w new hnew
    obtain ⟨hneighbour, hsome⟩ := h.parent w dag p hdag (hparent ▸ hp)
    exact ⟨hneighbour, hjoined _ hsome⟩
  case sent =>
    intro p hp
    rw [hsent] at hp
    exact ⟨(h.sent p hp).1, hjoined _ (h.sent p hp).2⟩

/-- The nodes of a network that exchanges DAOs agree on the DODAG too. -/
theorem agrees_next (h : net.Agrees cfg.toNetConfig) (hcopies : cfg.CopiesDodag)
    (he : cfg.Enabled net e) : (cfg.next net e).toNet.Agrees cfg.toNetConfig := by
  cases e with
  | trickle v => exact h.next_trickle hcopies
  | node v ev fields =>
      have henabled : cfg.toNetConfig.Enabled net.toNet (.node v ev) := he
      exact h.next hcopies henabled
  | dao v p beyond =>
      refine agrees_next_of_frame h ?_ (fun _ _ _ heq => nomatch heq)
      cases hv : net.dag v with
      | none => rw [next_dao_of_none hv]
      | some dag =>
          obtain ⟨root, acts, hnext, -⟩ := next_dao cfg hv p beyond
          rw [hnext]
          rfl
  | setClass v newClass => exact agrees_next_of_frame h rfl (fun _ _ _ heq => nomatch heq)

/-- A new route is one of those that a node installs for a DAO. -/
theorem next_routes_cases (h : route ∈ (cfg.next net e).routes w) :
    route ∈ net.routes w ∨ ∃ p beyond dag, e = .dao w p beyond ∧ net.dag w = some dag ∧
      dag.InstallsRoutes ∧
        ∃ child ∈ recordChilds cfg.calls p.src dag.childs p.dao.targets,
          route = child.route dag.ifindex := by
  cases e with
  | trickle v => exact Or.inl h
  | setClass v newClass => exact Or.inl h
  | node v ev fields =>
      by_cases hw : w = v
      · subst hw
        have hroutes : route ∈ (cfg.stepNode net w ev).2.foldl cfg.netlink.apply
            (net.routes w) := by
          simpa [next_node, DaoNetConfig.store] using h
        exact Or.inl ((cfg.netlink.mem_foldl_apply_nodeStep _ _).1 hroutes)
      · exact Or.inl (by simpa [next_node, DaoNetConfig.store, hw] using h)
  | dao v p beyond =>
      cases hv : net.dag v with
      | none =>
          rw [next_dao_of_none hv] at h
          exact Or.inl h
      | some dag =>
          obtain ⟨root, acts, hnext, hremoves, hadded⟩ := next_dao cfg hv p beyond
          rw [hnext] at h
          by_cases hw : w = v
          · subst hw
            simp only [DaoNetConfig.store, Function.update_self,
              cfg.netlink.mem_foldl_apply hremoves, hadded] at h
            split_ifs at h with hinstalls
            · refine h.imp id fun hnew => ?_
              obtain ⟨child, hchild, rfl⟩ := List.mem_map.mp hnew
              exact ⟨p, beyond, dag, rfl, hv, hinstalls, child, hchild, rfl⟩
            · exact h.imp id fun hnew => absurd hnew List.not_mem_nil
          · exact Or.inl (by simpa [DaoNetConfig.store, hw] using h)

/-- The routes to children are removed only with the prefix of the DODAG. -/
theorem mem_next_routes (h : route ∈ net.routes w)
    (hdest : ∀ dag, net.dag w = some dag → route.dest ≠ dag.dest) :
    route ∈ (cfg.next net e).routes w := by
  cases e with
  | trickle v => exact h
  | setClass v newClass => exact h
  | node v ev fields =>
      by_cases hw : w = v
      · subst hw
        have hroutes : route ∈ (cfg.stepNode net w ev).2.foldl cfg.netlink.apply (net.routes w) :=
          (cfg.netlink.mem_foldl_apply_nodeStep _ _).2 h hdest
        simpa [next_node, DaoNetConfig.store] using hroutes
      · simpa [next_node, DaoNetConfig.store, hw] using h
  | dao v p beyond =>
      cases hv : net.dag v with
      | none => rwa [next_dao_of_none hv]
      | some dag =>
          obtain ⟨root, acts, hnext, hremoves, hadded⟩ := next_dao cfg hv p beyond
          rw [hnext]
          by_cases hw : w = v
          · subst hw
            simp only [DaoNetConfig.store, Function.update_self,
              cfg.netlink.mem_foldl_apply hremoves]
            exact Or.inl h
          · simpa [DaoNetConfig.store, hw] using h

/-- A DAO that is taken up brings the routes to all children. -/
theorem route_mem_next_dao (hdag : net.dag w = some dag) (hinstalls : dag.InstallsRoutes)
    {p : DaoPacket} {child : Child}
    (hchild : child ∈ recordChilds cfg.calls p.src dag.childs p.dao.targets)
    (beyond : ℕ → UInt8) :
    child.route dag.ifindex ∈ (cfg.next net (.dao w p beyond)).routes w := by
  obtain ⟨root, acts, hnext, hremoves, hadded⟩ := next_dao cfg hdag p beyond
  simp only [hnext, DaoNetConfig.store, Function.update_self,
    cfg.netlink.mem_foldl_apply hremoves, hadded, hinstalls, if_true]
  exact Or.inr (List.mem_map_of_mem hchild)

end Step

end HyMRPL
