import HyMRPL.Network.Routes

/-!
# Where the installed routes lead

A storing node installs a route to every child that it records, and so does a Class S node
of a hybrid DODAG. Who sends the target of a child has a route to it, then, and the
installed routes lead hop by hop, from neighbour to neighbour, to the owner of the target.
Only a switch can break this: a node that was of Class N has recorded children without
routes to them, and advertises them as soon as it is of Class S.
-/

namespace HyMRPL

open Transition FindOrCreate NextHop

/-- A node has a route for a target. -/
def DaoNet.RouteVia (net : DaoNet) (target a b : In6Addr) : Prop :=
  ∃ ifindex, ⟨ifindex, ⟨128, target⟩, b⟩ ∈ net.routes a

/-- A node has a route for a target, and the next hop is a neighbour. -/
def DaoNetConfig.RouteHop (cfg : DaoNetConfig) (net : DaoNet) (target a b : In6Addr) : Prop :=
  net.RouteVia target a b ∧ cfg.neighbour a b

/-- A switch to a class in which the node installs routes finds the routes to its children
installed. -/
def SwitchesRouted (net : DaoNet) : DaoNetEvent → Prop
  | .setClass v newClass => ∀ dag, net.dag v = some dag →
      Dag.InstallsRoutes { dag with nodeClass := newClass } →
        ∀ child ∈ dag.childs, child.route dag.ifindex ∈ net.routes v
  | _ => True

instance (net : DaoNet) (e : DaoNetEvent) : Decidable (SwitchesRouted net e) :=
  match e with
  | .setClass v newClass => inferInstanceAs (Decidable (∀ dag ∈ net.dag v,
      Dag.InstallsRoutes { dag with nodeClass := newClass } →
        ∀ child ∈ dag.childs, child.route dag.ifindex ∈ net.routes v))
  | .trickle _ => inferInstanceAs (Decidable True)
  | .node _ _ _ => inferInstanceAs (Decidable True)
  | .dao _ _ _ => inferInstanceAs (Decidable True)

/-- The DAOs in flight and the children are from neighbours, apart from those of a root that
is not storing, and the routes to children are there where targets are sent on. -/
structure Routed (cfg : DaoNetConfig) (net : DaoNet) : Prop where
  agrees : net.Agrees cfg.toNetConfig
  lead : ChildsLead net
  rootJoined : (net.dag cfg.root).isSome
  rootRank : ∀ dag, net.dag cfg.root = some dag → dag.myRank = 1
  near : ∀ v dag, net.dag v = some dag → (Mop.Storing cfg.rootDag.mop ∨ v ≠ cfg.root) →
    ∀ child ∈ dag.childs, cfg.neighbour v child.source
  installed : ∀ v dag, net.dag v = some dag → dag.InstallsRoutes →
    ∀ child ∈ dag.childs, child.route dag.ifindex ∈ net.routes v
  recorded : ∀ v, ∀ route ∈ net.routes v, (Mop.Storing cfg.rootDag.mop ∨ v ≠ cfg.root) ∧
    ∃ dag, net.dag v = some dag ∧ ∃ child ∈ dag.childs, route = child.route dag.ifindex
  routes : ∀ v target via, net.RouteVia target v via →
    Arrives (cfg.RouteHop net target) (net.Owns target) via
  daos : ∀ p ∈ net.daos, ∀ target ∈ p.dao.targets,
    Arrives (cfg.RouteHop net target) (net.Owns target) p.src
  dests : ∀ p ∈ net.daos, cfg.neighbour p.dest p.src ∨
    (p.dest = cfg.rootDag.dodagid ∧ ¬ Mop.Storing cfg.rootDag.mop)

section Step

variable {cfg : DaoNetConfig} {net : DaoNet} {v : In6Addr} {e : DaoNetEvent} {dag new : Dag}

/-- Only a root that is not storing installs no routes and gets DAOs from afar. -/
theorem Routed.storing_or_ne_root (h : Routed cfg net) (hdag : net.dag v = some dag)
    (hrank : Mop.Storing dag.mop ∨ dag.myRank ≠ 1) :
    Mop.Storing cfg.rootDag.mop ∨ v ≠ cfg.root := by
  rcases hrank with hstoring | hrank
  · exact Or.inl ((h.agrees.dags v dag hdag).mop ▸ hstoring)
  · refine Or.inr ?_
    rintro rfl
    exact hrank (h.rootRank dag hdag)

theorem Dag.InstallsRoutes.storing_or_rank (h : dag.InstallsRoutes) :
    Mop.Storing dag.mop ∨ dag.myRank ≠ 1 := by
  rcases h with hstoring | ⟨-, hrank, -⟩
  · exact Or.inl hstoring
  · exact Or.inr hrank

/-- A DAO comes from a neighbour of its receiver. -/
theorem Routed.neighbour_of_dao (h : Routed cfg net) {p : DaoPacket} (hp : p ∈ net.daos)
    (howner : cfg.owner p.dest = v) (hv : Mop.Storing cfg.rootDag.mop ∨ v ≠ cfg.root) :
    cfg.neighbour v p.src := by
  by_cases hroot : p.dest = cfg.rootDag.dodagid
  · obtain rfl : cfg.root = v := by
      rwa [DaoNetConfig.owner, if_pos hroot] at howner
    rcases h.dests p hp with hnear | ⟨-, hnot⟩
    · rw [hroot] at hnear
      rwa [← cfg.dodagid_owner p.src hnear]
    · exact absurd hv (not_or.mpr ⟨hnot, not_ne_iff.mpr rfl⟩)
  · obtain rfl : p.dest = v := by
      rwa [DaoNetConfig.owner, if_neg hroot] at howner
    exact (h.dests p hp).resolve_right fun hafar => hroot hafar.1

/-- The route to a child is not that to the prefix of the DODAG. -/
theorem Routed.dest_ne (h : Routed cfg net) (hlen : cfg.rootDag.dest.len ≠ 128)
    (target : In6Addr) :
    ∀ dag, net.dag v = some dag → (⟨128, target⟩ : In6Prefix) ≠ dag.dest := by
  intro dag hdag heq
  have hdest : (128 : UInt8) = dag.dest.len := congrArg In6Prefix.len heq
  exact hlen (hdest.trans (h.agrees.dags v dag hdag).prefixLen).symm

/-- What leads somewhere still does after a step. -/
theorem Routed.arrives_next (h : Routed cfg net) (hlooks : LooksUpChild cfg.calls)
    (hlen : cfg.rootDag.dest.len ≠ 128) (e : DaoNetEvent) {target : In6Addr}
    (harrives : Arrives (cfg.RouteHop net target) (net.Owns target) v) :
    Arrives (cfg.RouteHop (cfg.next net e) target) ((cfg.next net e).Owns target) v := by
  apply harrives.mono
  · rintro a b ⟨⟨ifindex, hmem⟩, hnear⟩
    exact ⟨⟨ifindex, mem_next_routes hmem (h.dest_ne hlen target)⟩, hnear⟩
  · rintro a ⟨dag, hdag, hself⟩
    obtain ⟨dag', hdag', hself', -⟩ := next_extends hlooks net e a dag hdag
    exact ⟨dag', hdag', hself'.trans hself⟩

theorem Routed.next_rootRank (h : Routed cfg net) (hroot : (net.dag cfg.root).isSome)
    (hnew : (cfg.next net e).dag cfg.root = some new) : new.myRank = 1 := by
  rcases next_dag_cases hnew with ⟨dag, hdag, hstep⟩ | ⟨hnone, -⟩
  · exact hstep.myRank_eq hdag (h.rootRank dag hdag)
  · simp [hnone] at hroot

/-- The children of a node after a step are neighbours. -/
theorem Routed.next_near (h : Routed cfg net) (hlooks : LooksUpChild cfg.calls)
    (he : cfg.Enabled net e) (hnew : (cfg.next net e).dag v = some new)
    (hv : Mop.Storing cfg.rootDag.mop ∨ v ≠ cfg.root) :
    ∀ child ∈ new.childs, cfg.neighbour v child.source := by
  intro child hchild
  rcases next_dag_cases hnew with ⟨dag, hdag, hstep⟩ | ⟨hdag, ev, fields, -, hjoin⟩
  · rcases hstep.childs_cases with hsame | ⟨p, beyond, rfl, hrecord⟩
    · exact h.near v dag hdag hv child (hsame ▸ hchild)
    · rw [hrecord, recordChilds_eq_all] at hchild
      rcases hlooks.mem_all_or_eq hchild with hold | ⟨target, -, rfl⟩
      · exact h.near v dag hdag hv child hold
      · exact h.neighbour_of_dao he.1 he.2 hv
  · rw [childs_of_join hdag hjoin] at hchild
    exact nomatch hchild

/-- A node that installs routes has those to its children after a step. -/
theorem Routed.next_installed (h : Routed cfg net) (hlen : cfg.rootDag.dest.len ≠ 128)
    (hswitch : SwitchesRouted net e) (hnew : (cfg.next net e).dag v = some new)
    (hinstalls : new.InstallsRoutes) :
    ∀ child ∈ new.childs, child.route new.ifindex ∈ (cfg.next net e).routes v := by
  intro child hchild
  rcases next_dag_cases hnew with ⟨dag, hdag, hstep⟩ | ⟨hdag, ev, fields, -, hjoin⟩
  · have hkept : child.route dag.ifindex ∈ net.routes v →
        child.route dag.ifindex ∈ (cfg.next net e).routes v :=
      fun hmem => mem_next_routes hmem (h.dest_ne hlen child.addr)
    cases hstep with
    | kept => exact hkept (h.installed v _ hdag hinstalls child hchild)
    | track ev fields parent myRank seen hstep =>
        have hrank : dag.myRank = 1 → myRank = 1 :=
          (DagStep.track ev fields parent myRank seen hstep).myRank_eq hdag
        have hbefore : dag.InstallsRoutes :=
          hinstalls.imp id fun ⟨hmop, hne, hclass⟩ => ⟨hmop, fun hone => hne (hrank hone), hclass⟩
        exact hkept (h.installed v dag hdag hbefore child hchild)
    | record p beyond root => exact route_mem_next_dao hdag hinstalls hchild beyond
    | setClass newClass => exact hkept (hswitch dag hdag hinstalls child hchild)
  · rw [childs_of_join hdag hjoin] at hchild
    exact nomatch hchild

/-- The routes of a node after a step are to its children. -/
theorem Routed.next_recorded (h : Routed cfg net) (hlooks : LooksUpChild cfg.calls)
    {route : ViaRoute} (hroute : route ∈ (cfg.next net e).routes v) :
    (Mop.Storing cfg.rootDag.mop ∨ v ≠ cfg.root) ∧
      ∃ new, (cfg.next net e).dag v = some new ∧
        ∃ child ∈ new.childs, route = child.route new.ifindex := by
  rcases next_routes_cases hroute with
    hold | ⟨p, beyond, dag, rfl, hdag, hinstalls, child, hchild, rfl⟩
  · obtain ⟨hv, dag, hdag, child, hchild, rfl⟩ := h.recorded v route hold
    obtain ⟨new, hnew, hstep⟩ := next_dag_of_some cfg hdag e
    exact ⟨hv, new, hnew, child, hstep.childs_subset hlooks hchild, by rw [hstep.ifindex_eq]⟩
  · obtain ⟨root, acts, hnext, -⟩ := next_dao cfg hdag p beyond
    refine ⟨h.storing_or_ne_root hdag hinstalls.storing_or_rank,
      { dag with
        childs := recordChilds cfg.calls p.src dag.childs p.dao.targets
        root := root }, ?_, child, hchild, rfl⟩
    simp [hnext, DaoNetConfig.store]

/-- The routes of a node after a step lead where they should. -/
theorem Routed.next_routes (h : Routed cfg net) (hlooks : LooksUpChild cfg.calls)
    (he : cfg.Enabled net e) {target via : In6Addr}
    (hroute : (cfg.next net e).RouteVia target v via) :
    Arrives (cfg.RouteHop net target) (net.Owns target) via := by
  obtain ⟨ifindex, hmem⟩ := hroute
  rcases next_routes_cases hmem with
    hold | ⟨p, beyond, dag, rfl, hdag, hinstalls, child, hchild, heq⟩
  · exact h.routes v target via ⟨ifindex, hold⟩
  · obtain ⟨rfl, rfl⟩ : target = child.addr ∧ via = child.source :=
      ⟨congrArg (fun route => route.dest.addr) heq, congrArg ViaRoute.via heq⟩
    rw [recordChilds_eq_all] at hchild
    rcases hlooks.mem_all_or_eq hchild with hold | ⟨target, htarget, rfl⟩
    · exact h.routes v child.addr child.source
        ⟨dag.ifindex, h.installed v dag hdag hinstalls child hold⟩
    · exact h.daos p he.1 target htarget

/-- Who sends the target of a child on has had a route to it. -/
theorem Routed.arrives_of_sent (h : Routed cfg net) (hlooks : LooksUpChild cfg.calls)
    (hlen : cfg.rootDag.dest.len ≠ 128) {ev : NodeEvent} {fields : ℕ → DaoFields}
    (hnew : (cfg.next net (.node v ev fields)).dag v = some new)
    (hrank : ∀ dag, net.dag v = some dag → dag.myRank ≠ 1) {child : Child}
    (hchild : child ∈ daoChilds new) :
    Arrives (cfg.RouteHop (cfg.next net (.node v ev fields)) child.addr)
      ((cfg.next net (.node v ev fields)).Owns child.addr) v := by
  obtain ⟨hmem, hsends⟩ := mem_daoChilds hchild
  rcases next_dag_cases hnew with ⟨dag, hdag, hstep⟩ | ⟨hdag, ev, fields, -, hjoin⟩
  · have hbefore : child ∈ dag.childs ∧ dag.InstallsRoutes := by
      have hranks := hrank dag hdag
      cases hstep with
      | kept => exact ⟨hmem, hsends.imp id fun ⟨hmop, hclass⟩ => ⟨hmop, hranks, hclass⟩⟩
      | track => exact ⟨hmem, hsends.imp id fun ⟨hmop, hclass⟩ => ⟨hmop, hranks, hclass⟩⟩
    obtain ⟨hold, hinstalls⟩ := hbefore
    have hroute : child.route dag.ifindex ∈ net.routes v :=
      h.installed v dag hdag hinstalls child hold
    have hnear : cfg.neighbour v child.source :=
      h.near v dag hdag (h.storing_or_ne_root hdag hinstalls.storing_or_rank) child hold
    have harrives := h.routes v child.addr child.source ⟨dag.ifindex, hroute⟩
    exact h.arrives_next hlooks hlen _ (harrives.cons ⟨⟨dag.ifindex, hroute⟩, hnear⟩)
  · rw [childs_of_join hdag hjoin] at hmem
    exact nomatch hmem

/-- The step lemma. -/
theorem Routed.next (h : Routed cfg net) (hcopies : cfg.CopiesDodag)
    (hlooks : LooksUpChild cfg.calls) (hlen : cfg.rootDag.dest.len ≠ 128)
    (he : cfg.Enabled net e) (hswitch : SwitchesRouted net e) : Routed cfg (cfg.next net e) := by
  have hagrees := agrees_next h.agrees hcopies he
  constructor
  case agrees => exact hagrees
  case lead => exact h.lead.next hlooks he
  case rootJoined =>
    obtain ⟨dag, hdag⟩ := Option.isSome_iff_exists.mp h.rootJoined
    obtain ⟨new, hnew, -⟩ := next_dag_of_some cfg hdag e
    simp [hnew]
  case rootRank => exact fun new hnew => h.next_rootRank h.rootJoined hnew
  case near => exact fun v new hnew hv => h.next_near hlooks he hnew hv
  case installed => exact fun v new hnew => h.next_installed hlen hswitch hnew
  case recorded => exact fun v route hroute => h.next_recorded hlooks hroute
  case routes =>
    exact fun v target via hroute =>
      h.arrives_next hlooks hlen e (h.next_routes hlooks he hroute)
  case daos =>
    intro p hp target htarget
    rcases next_daos_cases hp with hold | ⟨ev, fields, rfl, hsent⟩
    · exact h.arrives_next hlooks hlen e (h.daos p hold target htarget)
    · obtain ⟨new, parent, i, hnode, -, -, hdest, hdao⟩ := mem_sentDaos hsent
      have hnew : (cfg.next net (.node p.src ev fields)).dag p.src = some new := by
        simp [next_node, DaoNetConfig.store, hnode]
      obtain ⟨hrank, -⟩ := mem_daoDests_nodeStep hdest hnode
      rw [hdao] at htarget
      rcases targets_subset_of_sent (fields i) new parent.addr target htarget with
        rfl | ⟨child, hchild, rfl⟩
      · exact Arrives.here ⟨new, hnew, rfl⟩
      · exact h.arrives_of_sent hlooks hlen hnew hrank hchild
  case dests =>
    intro p hp
    rcases next_daos_cases hp with hold | ⟨ev, fields, rfl, hsent⟩
    · exact h.dests p hold
    · obtain ⟨new, parent, i, hnode, -, -, hdest, -⟩ := mem_sentDaos hsent
      have hnew : (cfg.next net (.node p.src ev fields)).dag p.src = some new := by
        simp [next_node, DaoNetConfig.store, hnode]
      obtain ⟨-, q, hq, hto⟩ := mem_daoDests_nodeStep hdest hnode
      have hsame := hagrees.dags p.src new hnew
      rcases hto with hto | ⟨hto, hnot⟩
      · rw [hto]
        exact Or.inl (hagrees.parent p.src new q hnew hq).1
      · exact Or.inr ⟨hto.trans hsame.dodagid, hsame.mop ▸ hnot⟩

theorem routed_init (cfg : DaoNetConfig) : Routed cfg cfg.init where
  agrees := Net.agrees_init cfg.toNetConfig
  lead := childsLead_init cfg
  rootJoined := by simp [DaoNetConfig.init, NetConfig.init]
  rootRank dag hdag := by
    obtain rfl : cfg.rootDag = dag := by
      simpa [DaoNetConfig.init, NetConfig.init] using hdag
    exact cfg.rootDag_myRank
  near v dag hdag _ := by
    rw [childs_init hdag]
    exact List.forall_mem_nil _
  installed v dag hdag _ := by
    rw [childs_init hdag]
    exact List.forall_mem_nil _
  recorded v route hroute := nomatch hroute
  routes v target via hroute := nomatch hroute.choose_spec
  daos p hp := nomatch hp
  dests p hp := nomatch hp

end Step

/-- In every state of a network whose switches to Class S find the routes to the children
installed, the next hop of a route to a child is a neighbour, there is only one, and from
every node with a route the next hops lead to the node that owns the target, along a path
without a loop. -/
theorem routes_lead (cfg : DaoNetConfig) (hcopies : cfg.CopiesDodag)
    (hlooks : LooksUpChild cfg.calls) (hlen : cfg.rootDag.dest.len ≠ 128)
    (es : List DaoNetEvent) (hl : cfg.network.Legal cfg.init es)
    (hswitches : cfg.network.Steps SwitchesRouted cfg.init es) :
    cfg.network.Always (fun net => ∀ target a b, net.RouteVia target a b →
      cfg.neighbour a b ∧ (∀ b', net.RouteVia target a b' → b' = b) ∧
        ∃ path, IsPath (cfg.RouteHop net target) (net.Owns target) a path) cfg.init es := by
  have hrouted : cfg.network.Always (Routed cfg) cfg.init es :=
    Machine.always_of_steps (fun net e h he hswitch => h.next hcopies hlooks hlen he hswitch)
      (routed_init cfg) hl hswitches
  apply hrouted.mono
  rintro net h target a b ⟨ifindex, hmem⟩
  obtain ⟨ha, dag, hdag, child, hchild, heq⟩ := h.recorded a _ hmem
  obtain ⟨rfl, rfl⟩ : target = child.addr ∧ b = child.source :=
    ⟨congrArg (fun route => route.dest.addr) heq, congrArg ViaRoute.via heq⟩
  have hnear : cfg.neighbour a child.source := h.near a dag hdag ha child hchild
  refine ⟨hnear, ?_, ?_⟩
  · rintro b' ⟨ifindex', hmem'⟩
    obtain ⟨-, dag', hdag', child', hchild', heq'⟩ := h.recorded a _ hmem'
    obtain rfl := Option.some.inj (hdag.symm.trans hdag')
    have haddr : child.addr = child'.addr := congrArg (fun route => route.dest.addr) heq'
    have hsame : child = child' :=
      List.inj_on_of_nodup_map (h.lead.nodup a dag hdag) hchild hchild' haddr
    exact hsame ▸ congrArg ViaRoute.via heq'
  · have harrives := h.routes a child.addr child.source ⟨ifindex, hmem⟩
    exact (harrives.cons ⟨⟨ifindex, hmem⟩, hnear⟩).exists_path

/-- `fe80::2` goes to Class N and back with its route to `fe80::3` installed. -/
def switchInTurn : List DaoNetEvent :=
  aggregateInTurn ++ [.setClass (linkLocal 2) .classN, .setClass (linkLocal 2) .classS]

/-- The route of `fe80::2` leads to `fe80::3`. -/
theorem switchInTurn_leads :
    copyingDaoNet.network.Legal copyingDaoNet.init switchInTurn ∧
      (copyingDaoNet.network.run copyingDaoNet.init switchInTurn).RouteVia
        (linkLocal 3) (linkLocal 2) (linkLocal 3) ∧
      copyingDaoNet.network.Always (fun net => ∀ target a b, net.RouteVia target a b →
        copyingDaoNet.neighbour a b ∧ (∀ b', net.RouteVia target a b' → b' = b) ∧
          ∃ path, IsPath (copyingDaoNet.RouteHop net target) (net.Owns target) a path)
        copyingDaoNet.init switchInTurn := by
  have hlegal : copyingDaoNet.network.Legal copyingDaoNet.init switchInTurn := by
    decide +kernel
  have hswitches : copyingDaoNet.network.Steps SwitchesRouted copyingDaoNet.init switchInTurn := by
    decide +kernel
  have hroute : (⟨(copyingNet.iface (linkLocal 2)).ifindex, ⟨128, linkLocal 3⟩, linkLocal 3⟩ :
      ViaRoute) ∈
        (copyingDaoNet.network.run copyingDaoNet.init switchInTurn).routes (linkLocal 2) := by
    decide +kernel
  exact ⟨hlegal, ⟨_, hroute⟩, routes_lead copyingDaoNet copiesDodag_copyingNet
    looksUpChild_sampleDaoCalls (by decide) switchInTurn hlegal hswitches⟩

/-- `fe80::3` records `fe80::4` as a node of Class N and advertises it as one of Class S. -/
def switchWithoutRoutes : List DaoNetEvent :=
  let rootDio := copyingNet.buildDio copyingNet.rootDag
  let dag3 : Dag := { joinedDag (copyingNet.iface (linkLocal 3)) 2 rootDio ⟨64, linkLocal 0⟩ with
    childs := [⟨linkLocal 4, linkLocal 4⟩] }
  let dag4 := joinedDag (copyingNet.iface (linkLocal 4)) 3 rootDio ⟨64, linkLocal 0⟩
  [.trickle (linkLocal 1),
    .node (linkLocal 2) (.dio 1 ⟨true, true⟩ rootDio (linkLocal 1)) zeroFields,
    .trickle (linkLocal 2),
    .node (linkLocal 3) (.dio 2 ⟨true, true⟩ { rootDio with dagrank := 2 } (linkLocal 2))
      zeroFields,
    .setClass (linkLocal 3) .classN,
    .trickle (linkLocal 3),
    .node (linkLocal 4) (.dio 3 ⟨true, true⟩ { rootDio with dagrank := 3 } (linkLocal 3))
      zeroFields,
    .dao (linkLocal 3)
      ⟨linkLocal 4, linkLocal 3, dagBuildDao (zeroFields 0) dag4 (linkLocal 3)⟩ (fun _ => 0),
    .setClass (linkLocal 3) .classS,
    .node (linkLocal 3) (.dio 4 ⟨true, true⟩ { rootDio with dagrank := 2 } (linkLocal 2))
      zeroFields,
    .dao (linkLocal 2)
      ⟨linkLocal 3, linkLocal 2, dagBuildDao (zeroFields 0) dag3 (linkLocal 2)⟩ (fun _ => 0)]

/-- Then `fe80::2` has a route to `fe80::4` over `fe80::3`, which has none. -/
example :
    copyingDaoNet.network.Legal copyingDaoNet.init switchWithoutRoutes ∧
      (⟨(copyingNet.iface (linkLocal 2)).ifindex, ⟨128, linkLocal 4⟩, linkLocal 3⟩ :
        ViaRoute) ∈
          (copyingDaoNet.network.run copyingDaoNet.init switchWithoutRoutes).routes
            (linkLocal 2) ∧
      (copyingDaoNet.network.run copyingDaoNet.init switchWithoutRoutes).routes
        (linkLocal 3) = [] := by
  decide +kernel

end HyMRPL
