import HyMRPL.Node.Silence

/-!
# The default route through a dead parent

When a check invalidates the parent it means to flush the stale routes, and asks for the
removal of the route to the prefix of the DODAG. The route that `process_dio` installs is a
default route, so it stays. From the first check that invalidates a parent on, the routes are
never flushed while the parent is lost; before it there is nothing to flush.

The netlink code is outside the repository. `RouteCode` holds the two functions that are
called, with what is known of them.
-/

namespace HyMRPL

open Transition

/-- There is a default route with a given next hop. -/
def DefaultVia (routes : List ViaRoute) (via : In6Addr) : Prop :=
  ∃ route ∈ routes, route.dest.len = 0 ∧ route.via = via

instance (routes : List ViaRoute) (via : In6Addr) : Decidable (DefaultVia routes via) :=
  inferInstanceAs (Decidable (∃ route ∈ routes, _ ∧ _))

/-- `nl_add_route_default` adds a default route via the address, and `nl_del_route_via`
removes only routes to the prefix. -/
structure RouteCode where
  nlAddRouteVia : UInt32 → In6Addr → In6Addr → List ViaRoute → List ViaRoute
  nlAddRouteDefault : UInt32 → In6Addr → List ViaRoute → List ViaRoute
  nlDelRouteVia : UInt32 → In6Prefix → List ViaRoute → List ViaRoute
  defaultVia_nlAddRouteDefault : ∀ ifindex via routes,
    DefaultVia (nlAddRouteDefault ifindex via routes) via
  mem_nlDelRouteVia : ∀ ifindex dest routes, ∀ route ∈ routes, route.dest ≠ dest →
    route ∈ nlDelRouteVia ifindex dest routes

namespace RouteCode

variable (code : RouteCode)

/-- What a call does to the routes. -/
def apply (routes : List ViaRoute) : Action → List ViaRoute
  | .nlAddRouteDefault ifindex via => code.nlAddRouteDefault ifindex via routes
  | .nlDelRouteVia ifindex dest => code.nlDelRouteVia ifindex dest routes
  | .nlAddRouteVia ifindex dest via => code.nlAddRouteVia ifindex dest via routes
  | _ => routes

@[simp] theorem foldl_apply_dioSendDao (routes : List ViaRoute) (dag : Dag) (parent : Peer) :
    (dioSendDao dag parent).foldl code.apply routes = routes := by
  simp only [dioSendDao]
  split_ifs <;> rfl

@[simp] theorem foldl_apply_adoptNotice (routes : List ViaRoute) (dag : Dag) (src : In6Addr) :
    (dag.adoptNotice src).foldl code.apply routes = routes := by
  cases hp : dag.parent with
  | none => simp [Dag.adoptNotice, hp]
  | some p =>
      by_cases haddr : p.addr = src
      · simp [Dag.adoptNotice, hp, haddr]
      · simp [Dag.adoptNotice, hp, haddr, apply]

/-- A check that fires removes the route to the prefix, and nothing else. -/
theorem foldl_apply_parentCheckCb {dag : Dag} {now : ℚ} (h : dag.TimedOut now)
    (adaptiveEnabled : Bool) (routes : List ViaRoute) :
    (parentCheckCb now adaptiveEnabled dag).2.foldl code.apply routes =
      code.nlDelRouteVia dag.ifindex dag.dest routes := by
  rw [parentCheckCb_of_timedOut h]
  cases adaptiveEnabled <;> rfl

/-- A DIO that stores a rank installs a default route via the parent. -/
theorem foldl_apply_dioUpdate (ops : DagOps) (now : ℚ) (peerOk : Bool) (dag : Dag) (src : In6Addr)
    (rank : UInt16) (routes : List ViaRoute) :
    ((dioUpdate ops now peerOk dag src rank).1.parent = dag.parent ∧
        (dioUpdate ops now peerOk dag src rank).2.foldl code.apply routes = routes) ∨
      ∃ p, (dioUpdate ops now peerOk dag src rank).1.parent = some p ∧
        (dioUpdate ops now peerOk dag src rank).2.foldl code.apply routes =
          code.nlAddRouteDefault dag.ifindex p.addr routes := by
  rcases dioUpdate_cases dag peerOk with ⟨hnone, hpeer⟩ | hadopts | ⟨p, hp, hmax⟩
  · left
    rw [hpeer, dioUpdate_of_no_peer hnone]
    exact ⟨rfl, rfl⟩
  · right
    rw [dioUpdate_of_adopts hadopts]
    refine ⟨⟨src, rank⟩, rfl, ?_⟩
    simp [apply]
  · have hkept := Dag.refresh_parent hp now src rank
    rw [dioUpdate_of_valid hp hmax]
    by_cases hrank : p.rank < rank
    · left
      simpa [hrank, hp] using hkept
    · right
      refine ⟨_, hkept, ?_⟩
      simp [hrank, apply]

/-- A default route survives the removal of the routes to another prefix. -/
theorem defaultVia_nlDelRouteVia {routes : List ViaRoute} {via : In6Addr}
    (h : DefaultVia routes via) {dest : In6Prefix} (hdest : dest.len ≠ 0) (ifindex : UInt32) :
    DefaultVia (code.nlDelRouteVia ifindex dest routes) via := by
  obtain ⟨route, hmem, hlen, hvia⟩ := h
  have hne : route.dest ≠ dest := by
    rintro rfl
    exact hdest hlen
  exact ⟨route, code.mem_nlDelRouteVia ifindex dest routes route hmem hne, hlen, hvia⟩

end RouteCode

/-- The prefix of the target is that of the node's DODAG, or that of the DIO. -/
theorem dioTarget_dest {now : ℚ} {alloc : Alloc} {iface : NodeConfig} {node : Option Dag}
    {dio : Dio} {dag : Dag} (h : dioTarget now alloc iface node dio = some dag) :
    node = some dag ∨ dio.dest = some dag.dest := by
  rcases dioTarget_cases h with ⟨hnode, -⟩ | ⟨rfl, -, -⟩
  · exact Or.inl hnode
  · right
    cases hdest : dio.dest with
    | none => simp [dioTarget, hdest] at h
    | some pfx =>
        cases halloc : alloc.dag with
        | false => simp [dioTarget, hdest, halloc] at h
        | true =>
            simp only [dioTarget, hdest, halloc, if_true, Option.some.injEq] at h
            subst h
            rfl

theorem dioUpdate_dest (ops : DagOps) (now : ℚ) (peerOk : Bool) (dag : Dag) (src : In6Addr)
    (rank : UInt16) :
    (dioUpdate ops now peerOk dag src rank).1.dest = dag.dest := by
  rcases dioUpdate_cases dag peerOk with ⟨hnone, hpeer⟩ | hadopts | ⟨p, hp, hmax⟩
  · rw [hpeer, dioUpdate_of_no_peer hnone]
  · rw [dioUpdate_of_adopts hadopts]
    rfl
  · rw [dioUpdate_of_valid hp hmax]
    by_cases hrank : p.rank < rank <;> simp [Dag.refresh, hrank]

/-- A watched node with its routes. -/
structure RoutedNode extends WatchedNode where
  routes : List ViaRoute

namespace RoutedNode

def start : RoutedNode := ⟨WatchedNode.start, []⟩

/-- The prefix of a DODAG is not the default prefix. -/
def PrefixGiven : WatchEvent → Prop
  | .node (.dio _ _ dio _) => ∀ pfx ∈ dio.dest, pfx.len ≠ 0
  | _ => True

def machine (code : RouteCode) (iface : NodeConfig) (adaptiveEnabled : Bool) :
    Machine RoutedNode WatchEvent (List Action) where
  enabled _ := PrefixGiven
  next node e :=
    { toWatchedNode := node.toWatchedNode.next iface adaptiveEnabled e
      routes := (node.toWatchedNode.out iface adaptiveEnabled e).foldl code.apply node.routes }
  out node := node.toWatchedNode.out iface adaptiveEnabled

/-- While the parent is lost, no default route goes through it. -/
def Flushed (node : RoutedNode) : Prop :=
  node.lost = true → ∀ dag p, node.dag = some dag → dag.parent = some p →
    ¬ DefaultVia node.routes p.addr

/-- No check fires. -/
def NoTimeout (node : RoutedNode) : WatchEvent → Prop
  | .node (.parentCheck now) => ∀ dag, node.dag = some dag → ¬ dag.TimedOut now
  | _ => True

/-- There is a default route through the parent, valid or not. -/
structure Routed (node : RoutedNode) : Prop where
  watched : node.toWatchedNode.Watched
  dest : ∀ dag, node.dag = some dag → dag.dest.len ≠ 0
  route : ∀ dag p, node.dag = some dag → dag.parent = some p → DefaultVia node.routes p.addr

variable {code : RouteCode} {iface : NodeConfig} {adaptiveEnabled : Bool} {node : RoutedNode}

theorem routed_start : Routed start where
  watched := WatchedNode.watched_start
  dest _ hdag := nomatch hdag
  route _ _ hdag := nomatch hdag

/-- A lost parent is still recorded, and so is its route. -/
theorem Routed.not_flushed (h : Routed node) (hlost : node.lost = true) : ¬ Flushed node := by
  obtain ⟨dag, p, hdag, hp, -, -⟩ := h.watched.lost hlost
  intro hflushed
  exact hflushed hlost dag p hdag hp (h.route dag p hdag hp)

/-- A step, by what it makes of the watched node and by the calls that it makes. -/
theorem next_eq {e : WatchEvent} {watched : WatchedNode} {acts : List Action}
    (hnext : node.toWatchedNode.next iface adaptiveEnabled e = watched)
    (hout : node.toWatchedNode.out iface adaptiveEnabled e = acts) :
    (machine code iface adaptiveEnabled).next node e =
      ⟨watched, acts.foldl code.apply node.routes⟩ := by
  rw [← hnext, ← hout]
  rfl

theorem next_dio_of_target {now : ℚ} {alloc : Alloc} {dio : Dio} {dag : Dag}
    (ht : dioTarget now alloc iface node.dag dio = some dag) (src : In6Addr) :
    (machine code iface adaptiveEnabled).next node (.node (.dio now alloc dio src)) =
      ⟨⟨some (dioUpdate iface.dagOps now alloc.peer dag src dio.dagrank).1,
          Function.update node.heardAt src (some now), false⟩,
        (dioUpdate iface.dagOps now alloc.peer dag src dio.dagrank).2.foldl code.apply
          node.routes⟩ := by
  apply next_eq
  · exact WatchedNode.next_dio_of_target ht
  · simp [WatchedNode.out, nodeStep_of_target ht]

theorem next_dio_of_no_target {now : ℚ} {alloc : Alloc} {dio : Dio}
    (ht : dioTarget now alloc iface node.dag dio = none) (src : In6Addr) :
    (machine code iface adaptiveEnabled).next node (.node (.dio now alloc dio src)) = node := by
  have hout : node.toWatchedNode.out iface adaptiveEnabled (.node (.dio now alloc dio src)) =
      [] := by
    simp [WatchedNode.out, nodeStep_of_no_target ht]
  rw [next_eq (WatchedNode.next_dio_of_no_target ht) hout]
  rfl

theorem next_parentCheck_of_timedOut {dag : Dag} {now : ℚ} (hdag : node.dag = some dag)
    (h : dag.TimedOut now) :
    (machine code iface adaptiveEnabled).next node (.node (.parentCheck now)) =
      ⟨{ node.toWatchedNode with dag := some dag.invalidate, lost := true },
        code.nlDelRouteVia dag.ifindex dag.dest node.routes⟩ := by
  rw [next_eq (WatchedNode.next_parentCheck_of_timedOut hdag h) rfl]
  rw [WatchedNode.out, hdag, nodeStep_of_timedOut h, code.foldl_apply_parentCheckCb h]

theorem next_parentCheck_of_not_timedOut {now : ℚ}
    (h : ∀ dag, node.dag = some dag → ¬ dag.TimedOut now) :
    (machine code iface adaptiveEnabled).next node (.node (.parentCheck now)) = node := by
  have hkept := WatchedNode.next_parentCheck_of_not_timedOut h iface adaptiveEnabled
  rw [next_eq hkept.1 hkept.2]
  rfl

/-- A DIO that stores a rank leaves a default route via the parent, and any other one the
parent and the routes that were there. -/
theorem Routed.route_dioUpdate (h : Routed node) {now : ℚ} {alloc : Alloc} {dio : Dio}
    {dag : Dag} (ht : dioTarget now alloc iface node.dag dio = some dag) (src : In6Addr) {p : Peer}
    (hp : (dioUpdate iface.dagOps now alloc.peer dag src dio.dagrank).1.parent = some p) :
    DefaultVia ((dioUpdate iface.dagOps now alloc.peer dag src dio.dagrank).2.foldl code.apply
      node.routes) p.addr := by
  rcases code.foldl_apply_dioUpdate iface.dagOps now alloc.peer dag src dio.dagrank node.routes with
    ⟨hparent, hroutes⟩ | ⟨q, hq, hroutes⟩
  · rw [hroutes]
    rw [hparent] at hp
    rcases dioTarget_cases ht with ⟨hdag, -⟩ | ⟨-, hnone, -⟩
    · exact h.route dag p hdag hp
    · simp [hp] at hnone
  · obtain rfl := Option.some.inj (hq.symm.trans hp)
    rw [hroutes]
    exact code.defaultVia_nlAddRouteDefault dag.ifindex q.addr node.routes

theorem Routed.next_dio (h : Routed node) {dio : Dio} (hpfx : ∀ pfx ∈ dio.dest, pfx.len ≠ 0)
    (now : ℚ) (alloc : Alloc) (src : In6Addr) :
    Routed ((machine code iface adaptiveEnabled).next node (.node (.dio now alloc dio src))) := by
  cases ht : dioTarget now alloc iface node.dag dio with
  | none => rwa [next_dio_of_no_target ht]
  | some dag =>
      have hwatched : (node.toWatchedNode.next iface adaptiveEnabled
          (.node (.dio now alloc dio src))).Watched := h.watched.next _
      rw [WatchedNode.next_dio_of_target ht] at hwatched
      rw [next_dio_of_target ht]
      refine ⟨hwatched, ?_, ?_⟩
      · rintro new ⟨⟩
        rw [dioUpdate_dest]
        rcases dioTarget_dest ht with hdag | hdest
        · exact h.dest dag hdag
        · exact hpfx dag.dest hdest
      · rintro new p ⟨⟩ hp
        exact h.route_dioUpdate ht src hp

theorem Routed.next_parentCheck (h : Routed node) (now : ℚ) :
    Routed ((machine code iface adaptiveEnabled).next node (.node (.parentCheck now))) := by
  by_cases htimeout : ∃ dag, node.dag = some dag ∧ dag.TimedOut now
  · obtain ⟨dag, hdag, htimeout⟩ := htimeout
    have hwatched : (node.toWatchedNode.next iface adaptiveEnabled
        (.node (.parentCheck now))).Watched := h.watched.next _
    rw [WatchedNode.next_parentCheck_of_timedOut hdag htimeout] at hwatched
    rw [next_parentCheck_of_timedOut hdag htimeout]
    refine ⟨hwatched, ?_, ?_⟩
    · rintro new ⟨⟩
      exact h.dest dag hdag
    · rintro new q ⟨⟩ hq
      obtain ⟨p, hp, rfl⟩ := Option.map_eq_some_iff.mp hq
      exact code.defaultVia_nlDelRouteVia (h.route dag p hdag hp) (h.dest dag hdag) dag.ifindex
  · have hnone : ∀ dag, node.dag = some dag → ¬ dag.TimedOut now :=
      fun dag hdag ht => htimeout ⟨dag, hdag, ht⟩
    rwa [next_parentCheck_of_not_timedOut hnone]

theorem Routed.next_reload (h : Routed node) (newTrickleT : CDouble) :
    Routed ((machine code iface adaptiveEnabled).next node (.reload newTrickleT)) := by
  have hwatched : (node.toWatchedNode.next iface adaptiveEnabled (.reload newTrickleT)).Watched :=
    h.watched.next _
  refine ⟨hwatched, ?_, ?_⟩
  · intro new hnew
    obtain ⟨dag, hdag, rfl⟩ := Option.map_eq_some_iff.mp hnew
    simpa using h.dest dag hdag
  · intro new p hnew hp
    obtain ⟨dag, hdag, rfl⟩ := Option.map_eq_some_iff.mp hnew
    rw [Dag.reload_parent] at hp
    exact h.route dag p hdag hp

/-- The step lemma. -/
theorem Routed.next (h : Routed node) {e : WatchEvent} (he : PrefixGiven e) :
    Routed ((machine code iface adaptiveEnabled).next node e) := by
  cases e with
  | reload newTrickleT => exact h.next_reload newTrickleT
  | node e =>
      cases e with
      | dio now alloc dio src => exact h.next_dio he now alloc src
      | parentCheck now => exact h.next_parentCheck now

/-- Only a check that fires loses the parent. -/
theorem next_lost_of_noTimeout (hlost : node.lost = false) {e : WatchEvent}
    (he : NoTimeout node e) : ((machine code iface adaptiveEnabled).next node e).lost = false := by
  cases e with
  | reload newTrickleT => exact hlost
  | node e =>
      cases e with
      | dio now alloc dio src =>
          cases ht : dioTarget now alloc iface node.dag dio with
          | none => rwa [next_dio_of_no_target ht]
          | some dag => rw [next_dio_of_target ht]
      | parentCheck now => rwa [next_parentCheck_of_not_timedOut he]

theorem next_lost_of_timeout {e : WatchEvent} (he : ¬ NoTimeout node e) :
    ((machine code iface adaptiveEnabled).next node e).lost = true := by
  cases e with
  | reload newTrickleT => exact absurd trivial he
  | node e =>
      cases e with
      | dio now alloc dio src => exact absurd trivial he
      | parentCheck now =>
          simp only [NoTimeout, not_forall, not_not] at he
          obtain ⟨dag, hdag, htimeout⟩ := he
          rw [next_parentCheck_of_timedOut hdag htimeout]

/-- The default route through a lost parent is gone in every state of a run exactly when no
check of the run invalidates a parent: it is never gone while the parent is lost. -/
theorem flushed_iff_noTimeout (code : RouteCode) (iface : NodeConfig) (adaptiveEnabled : Bool)
    (es : List WatchEvent) (hl : (machine code iface adaptiveEnabled).Legal start es) :
    ((machine code iface adaptiveEnabled).Always Flushed start es ↔
        (machine code iface adaptiveEnabled).Steps NoTimeout start es) ∧
      (machine code iface adaptiveEnabled).Always (fun node => node.lost = true → ¬ Flushed node)
        start es := by
  constructor
  · apply Machine.always_iff_steps (I := fun node => Routed node ∧ node.lost = false)
    · rintro node ⟨-, hlost⟩ htrue
      simp [hlost] at htrue
    · rintro node e ⟨h, hlost⟩ he hquiet
      exact ⟨h.next he, next_lost_of_noTimeout hlost hquiet⟩
    · rintro node e ⟨h, -⟩ he htimeout
      exact (h.next he).not_flushed (next_lost_of_timeout htimeout)
    · exact ⟨routed_start, rfl⟩
    · exact hl
  · have hrouted : (machine code iface adaptiveEnabled).Always Routed start es :=
      Machine.always_of_invariant (fun node e h he => h.next he) routed_start hl
    exact hrouted.mono fun node h => h.not_flushed

/-- Routes in a list, without further effects. -/
def sampleRoutes : RouteCode where
  nlAddRouteDefault ifindex via routes := ⟨ifindex, ⟨0, Vector.replicate 16 0⟩, via⟩ :: routes
  nlAddRouteVia ifindex dest via routes := routes ++ [⟨ifindex, ⟨128, dest⟩, via⟩]
  nlDelRouteVia ifindex dest routes :=
    routes.filter fun route => ¬ (route.ifindex = ifindex ∧ route.dest = dest)
  defaultVia_nlAddRouteDefault ifindex via routes :=
    ⟨_, List.mem_cons_self .., rfl, rfl⟩
  mem_nlDelRouteVia ifindex dest routes route hmem hne := by simp [hmem, hne]

/-- A parent is heard twice and checked in between. -/
def heardParent : List WatchEvent :=
  [.node (.dio 1 ⟨true, true⟩ (hybridDio 5) (linkLocal 2)), .node (.parentCheck 2),
    .node (.dio 3 ⟨true, true⟩ (hybridDio 5) (linkLocal 2))]

theorem heardParent_flushed :
    let M := machine sampleRoutes (hybridNet.iface (linkLocal 9)) true
    M.Legal start heardParent ∧ M.Always Flushed start heardParent := by
  have hlegal : (machine sampleRoutes (hybridNet.iface (linkLocal 9)) true).Legal start
      heardParent := by
    refine ⟨?_, trivial, ?_, trivial⟩ <;>
    · intro pfx hpfx
      obtain rfl := Option.some.inj hpfx
      decide
  refine ⟨hlegal, (flushed_iff_noTimeout _ _ _ heardParent hlegal).1.mpr ?_⟩
  refine ⟨trivial, ?_, trivial, trivial⟩
  rintro dag ⟨⟩ ⟨-, -, htime⟩
  revert htime
  decide +kernel

/-- A parent is not heard again before a later check. -/
def silentParent : List WatchEvent :=
  [.node (.dio 1 ⟨true, true⟩ (hybridDio 5) (linkLocal 2)), .node (.parentCheck 100)]

/-- The check invalidates the parent `fe80::2`, and the default route still goes through it. -/
theorem silentParent_keeps_route :
    let M := machine sampleRoutes (hybridNet.iface (linkLocal 9)) true
    let node := M.run start silentParent
    M.Legal start silentParent ∧ node.lost = true ∧ parentAddr node.dag = some (linkLocal 2) ∧
      nodeParent node.dag = none ∧ DefaultVia node.routes (linkLocal 2) ∧ ¬ Flushed node := by
  intro M node
  have hlegal : M.Legal start silentParent := by
    refine ⟨?_, trivial, trivial⟩
    intro pfx hpfx
    obtain rfl := Option.some.inj hpfx
    decide
  have hlost : node.lost = true := by decide +kernel
  have haddr : parentAddr node.dag = some (linkLocal 2) := by decide +kernel
  have hroute : DefaultVia node.routes (linkLocal 2) := by decide +kernel
  refine ⟨hlegal, hlost, haddr, by decide +kernel, hroute, fun hflushed => ?_⟩
  obtain ⟨dag, hdag, hp⟩ := Option.bind_eq_some_iff.mp haddr
  obtain ⟨p, hp, hpaddr⟩ := Option.map_eq_some_iff.mp hp
  exact hflushed hlost dag p hdag hp (hpaddr ▸ hroute)

end RoutedNode

end HyMRPL
