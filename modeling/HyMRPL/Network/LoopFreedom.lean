import HyMRPL.Foundation.Pointer
import HyMRPL.Network.Basic

/-!
# Routing loops

A node that lost its parent takes the sender of the next DIO, whoever it is. The
valid parents form a graph without cycles exactly as long as no node that had a
parent before takes one from which valid parents lead back to the node itself. The
first parent of a node is always safe: until then the node has advertised nothing
but `UINT16_MAX`, so no other node has it as a valid parent.
-/

namespace HyMRPL

open Transition Pointer

variable {cfg : NetConfig} {net : Net} {v : In6Addr} {e : NodeEvent}

theorem Dag.refresh_validParent {dag : Dag} {p : Peer} (hp : dag.parent = some p)
    (hmax : p.rank ≠ uint16Max) (now : ℚ) (src : In6Addr) (rank : UInt16) :
    (dag.refresh now p src rank).validParent = some p.addr := by
  simp [Dag.validParent, Dag.refresh_parent hp, Dag.refresh_rank_ne hmax]

/-- A step that takes no parent keeps the link of the node or erases it. -/
theorem nodeParent_of_no_adoption {iface : NodeConfig} {node : Option Dag}
    (h : adoption iface node e = none) (adaptiveEnabled : Bool) :
    nodeParent (nodeStep iface adaptiveEnabled node e).1 = nodeParent node ∨
      nodeParent (nodeStep iface adaptiveEnabled node e).1 = none := by
  rcases nodeStep_of_no_adoption h adaptiveEnabled with
    hsame | ⟨-, dag, hp, -, hjoin⟩ | ⟨dag, p, now, alloc, dio, src, -, rfl, -, hp, hmax, href⟩ |
    ⟨dag, now, -, -, hinv⟩
  · exact Or.inl (by rw [hsame])
  · exact Or.inr (by simp [hjoin, nodeParent, Dag.validParent, hp])
  · left
    have hold : dag.validParent = some p.addr := by simp [Dag.validParent, hp, hmax]
    simp [href, nodeParent, Dag.refresh_validParent hp hmax, hold]
  · exact Or.inr (by simp [hinv, nodeParent])

/-- An adoption links the node to the sender, unless the rank says that the
sender itself has no parent. -/
theorem nodeParent_of_adoption {iface : NodeConfig} {node : Option Dag} {src : In6Addr}
    {rank : UInt16} (h : adoption iface node e = some (src, rank)) (adaptiveEnabled : Bool) :
    nodeParent node = none ∧
      nodeParent (nodeStep iface adaptiveEnabled node e).1 =
        if rank = uint16Max then none else some src := by
  obtain ⟨hnone, now, alloc, dio, dag, -, -, -, hstep⟩ := nodeStep_of_adoption h adaptiveEnabled
  refine ⟨hnone, ?_⟩
  simp [hstep, nodeParent, Dag.validParent, Dag.adopt]

/-- The node has, or had, a parent. -/
def HadParent (node : Option Dag) : Prop := ∃ dag p, node = some dag ∧ dag.parent = some p

/-- A node that had a parent before takes no parent that is below itself. -/
def ReadoptsNotBelow (net : Net) (v src : In6Addr) (rank : UInt16) : Prop :=
  HadParent (net.dag v) → rank ≠ uint16Max → ¬ Leads net.parentOf src v

theorem hadParent_of_parentOf {w : In6Addr} (h : net.parentOf v = some w) :
    HadParent (net.dag v) := by
  cases hnode : net.dag v with
  | none => simp [Net.parentOf, nodeParent, hnode] at h
  | some dag =>
      have hvalid : dag.validParent = some w := by
        simpa [Net.parentOf, nodeParent, hnode] using h
      obtain ⟨p, hp, -, -⟩ := (dag.validParent_eq_some_iff w).mp hvalid
      exact ⟨dag, p, rfl, hp⟩

/-- The record of a parent is never removed. A step that leaves a node without one
leaves it as it was, or with a new DODAG of rank `UINT16_MAX`. -/
theorem nodeStep_of_not_hadParent {iface : NodeConfig} {adaptiveEnabled : Bool}
    {node : Option Dag} (h : ¬ HadParent (nodeStep iface adaptiveEnabled node e).1) :
    (nodeStep iface adaptiveEnabled node e).1 = node ∨
      ∃ dag, dag.myRank = uint16Max ∧ node = none ∧
        (nodeStep iface adaptiveEnabled node e).1 = some dag := by
  cases hadopt : adoption iface node e with
  | some link =>
      obtain ⟨src, rank⟩ := link
      obtain ⟨-, now, -, -, dag, -, -, -, hstep⟩ := nodeStep_of_adoption hadopt adaptiveEnabled
      exact absurd ⟨_, _, hstep, rfl⟩ h
  | none =>
      rcases nodeStep_of_no_adoption hadopt adaptiveEnabled with
        hsame | ⟨hnone, dag, -, hrank, hjoin⟩ |
        ⟨dag, p, now, -, dio, src, -, -, -, hp, -, href⟩ | ⟨dag, now, rfl, htime, hinv⟩
      · exact Or.inl hsame
      · exact Or.inr ⟨dag, hrank, hnone, hjoin⟩
      · exact absurd ⟨_, _, href, Dag.refresh_parent hp now src dio.dagrank⟩ h
      · obtain ⟨p, hp⟩ : ∃ p, dag.parent = some p := by
          obtain ⟨w, hw⟩ := Option.ne_none_iff_exists'.mp htime.2.1
          obtain ⟨p, hp, -, -⟩ := (dag.validParent_eq_some_iff w).mp hw
          exact ⟨p, hp⟩
        exact absurd ⟨_, { p with rank := uint16Max }, hinv, by simp [Dag.invalidate, hp]⟩ h

theorem acyclic_next_of_no_adoption (hnet : Acyclic net.parentOf)
    (h : adoption (cfg.iface v) (net.dag v) e = none) :
    Acyclic (cfg.next net (.node v e)).parentOf := by
  rw [next_node_parentOf]
  rcases nodeParent_of_no_adoption h (cfg.adaptiveEnabled v) with hsame | herase
  · rw [hsame]
    change Acyclic (Function.update net.parentOf v (net.parentOf v))
    rwa [Function.update_eq_self]
  · rw [herase]
    exact acyclic_update_none hnet v

theorem acyclic_next_of_adoption_iff (hnet : Acyclic net.parentOf) {src : In6Addr}
    {rank : UInt16} (h : adoption (cfg.iface v) (net.dag v) e = some (src, rank)) :
    Acyclic (cfg.next net (.node v e)).parentOf ↔
      (rank ≠ uint16Max → ¬ Leads net.parentOf src v) := by
  obtain ⟨hnone, hlink⟩ := nodeParent_of_adoption h (cfg.adaptiveEnabled v)
  rw [next_node_parentOf, hlink]
  by_cases hrank : rank = uint16Max
  · simp only [hrank, if_true, ne_eq, not_true_eq_false, false_implies, iff_true]
    exact acyclic_update_none hnet v
  · simp only [hrank, if_false, ne_eq, not_false_eq_true, true_implies]
    exact acyclic_update_some_iff hnet hnone

/-- A node without any parent so far: it has rank `UINT16_MAX`, advertised nothing
else, and is no node's valid parent. -/
structure Unlinked (net : Net) (v : In6Addr) : Prop where
  rank : ∀ dag, net.dag v = some dag → dag.myRank = uint16Max
  sent : ∀ dio, (v, dio) ∈ net.sent → dio.dagrank = uint16Max
  linked : ∀ w, net.parentOf w ≠ some v

/-- What a whole run keeps. -/
structure LoopInvariant (cfg : NetConfig) (net : Net) : Prop where
  root : net.dag cfg.root = some cfg.rootDag
  unlinked : ∀ v, v ≠ cfg.root → ¬ HadParent (net.dag v) → Unlinked net v
  acyclic : Acyclic net.parentOf

theorem acyclic_init (cfg : NetConfig) : Acyclic cfg.init.parentOf := by
  apply acyclic_of_links (f := fun _ => none)
  · intro a hcycle
    cases hcycle with
    | single hlink => simp [Link] at hlink
    | tail _ hlink => simp [Link] at hlink
  · intro a b hab
    by_cases ha : a = cfg.root
    · subst ha
      simp [Net.parentOf, NetConfig.init, nodeParent, Dag.validParent,
        cfg.rootDag_parent] at hab
    · simp [Net.parentOf, NetConfig.init, nodeParent, ha] at hab

theorem loopInvariant_init (cfg : NetConfig) : LoopInvariant cfg cfg.init where
  root := by simp [NetConfig.init]
  unlinked v hv _ := by
    refine ⟨fun dag hdag => ?_, fun dio hdio => ?_, fun w hw => ?_⟩
    · simp [NetConfig.init, hv] at hdag
    · simp [NetConfig.init] at hdio
    · obtain ⟨dag, p, hdag, hp⟩ := hadParent_of_parentOf hw
      by_cases hroot : w = cfg.root
      · subst hroot
        obtain rfl : cfg.rootDag = dag := by simpa [NetConfig.init] using hdag
        simp [cfg.rootDag_parent] at hp
      · simp [NetConfig.init, hroot] at hdag
  acyclic := acyclic_init cfg

/-- A DIO of a rank below `UINT16_MAX` comes from the root or from a node that had
a parent. -/
theorem LoopInvariant.sender (h : LoopInvariant cfg net) {src : In6Addr} {dio : Dio}
    (hsent : (src, dio) ∈ net.sent) (hrank : dio.dagrank ≠ uint16Max) :
    src = cfg.root ∨ HadParent (net.dag src) := by
  by_contra hneither
  rw [not_or] at hneither
  exact hrank ((h.unlinked src hneither.1 hneither.2).sent dio hsent)

/-- Nothing leads to a node that takes its first parent, so the new link closes no
cycle. -/
theorem LoopInvariant.first_parent (h : LoopInvariant cfg net) {src : In6Addr}
    {rank : UInt16} (henabled : cfg.Enabled net (.node v e))
    (hadopt : adoption (cfg.iface v) (net.dag v) e = some (src, rank))
    (hfirst : ¬ HadParent (net.dag v)) (hrank : rank ≠ uint16Max) :
    ¬ Leads net.parentOf src v := by
  have hv : v ≠ cfg.root := by
    rintro rfl
    simp [adoption_root h.root] at hadopt
  obtain ⟨-, now, alloc, dio, -, rfl, rfl, -⟩ :=
    nodeStep_of_adoption hadopt (cfg.adaptiveEnabled v)
  intro hleads
  rcases Relation.ReflTransGen.cases_tail hleads with rfl | ⟨w, -, hlink⟩
  · exact (h.sender (sent_of_enabled henabled) hrank).elim hv hfirst
  · exact (h.unlinked v hv hfirst).linked w hlink

theorem LoopInvariant.acyclic_next_iff (h : LoopInvariant cfg net) {ev : NetEvent}
    (henabled : cfg.Enabled net ev) :
    Acyclic (cfg.next net ev).parentOf ↔ cfg.OnAdoption ReadoptsNotBelow net ev := by
  cases ev with
  | trickle v =>
      have hsame : (cfg.next net (.trickle v)).parentOf = net.parentOf := by
        funext w
        simp [Net.parentOf]
      simpa [hsame, NetConfig.OnAdoption] using h.acyclic
  | node v e =>
      cases hadopt : adoption (cfg.iface v) (net.dag v) e with
      | none =>
          simp only [NetConfig.OnAdoption, hadopt]
          exact ⟨fun _ _ _ hn => by simp at hn,
            fun _ => acyclic_next_of_no_adoption h.acyclic hadopt⟩
      | some link =>
          obtain ⟨src, rank⟩ := link
          have hfirst := h.first_parent henabled hadopt
          rw [acyclic_next_of_adoption_iff h.acyclic hadopt]
          simp only [NetConfig.OnAdoption, hadopt, Option.some.injEq, Prod.mk.injEq,
            and_imp, ReadoptsNotBelow]
          by_cases hhad : HadParent (net.dag v)
          · simp [hhad]
          · simpa [hhad] using hfirst hhad

/-- The valid parent after a step is the old one, or the sender of a DIO whose rank
is below `UINT16_MAX`. -/
theorem parentOf_next_cases (henabled : cfg.Enabled net (.node v e)) {w u : In6Addr}
    (h : (cfg.next net (.node v e)).parentOf w = some u) :
    net.parentOf w = some u ∨
      ∃ dio : Dio, (u, dio) ∈ net.sent ∧ dio.dagrank ≠ uint16Max := by
  rw [next_node_parentOf] at h
  by_cases hw : w = v
  · subst hw
    rw [Function.update_self] at h
    cases hadopt : adoption (cfg.iface w) (net.dag w) e with
    | none =>
        rcases nodeParent_of_no_adoption hadopt (cfg.adaptiveEnabled w) with hsame | herase
        · exact Or.inl (hsame.symm.trans h)
        · simp [herase] at h
    | some link =>
        obtain ⟨src, rank⟩ := link
        obtain ⟨-, now, alloc, dio, -, rfl, rfl, -⟩ :=
          nodeStep_of_adoption hadopt (cfg.adaptiveEnabled w)
        obtain ⟨-, hlink⟩ := nodeParent_of_adoption hadopt (cfg.adaptiveEnabled w)
        obtain ⟨hrank, rfl⟩ : dio.dagrank ≠ uint16Max ∧ src = u := by
          simpa [hlink] using h
        exact Or.inr ⟨dio, sent_of_enabled henabled, hrank⟩
  · exact Or.inl (by simpa [hw] using h)

/-- A step keeps what is said of the nodes without any parent so far. -/
theorem LoopInvariant.unlinked_next (h : LoopInvariant cfg net) {ev : NetEvent}
    (henabled : cfg.Enabled net ev) {u : In6Addr} (hu : u ≠ cfg.root)
    (hnew : ¬ HadParent ((cfg.next net ev).dag u)) : Unlinked (cfg.next net ev) u := by
  cases ev with
  | trickle v =>
      have hold := h.unlinked u hu (by simpa using hnew)
      refine ⟨by simpa using hold.rank, fun dio hdio => ?_,
        by simpa [Net.parentOf] using hold.linked⟩
      cases hv : net.dag v with
      | none => exact hold.sent dio (by simpa [NetConfig.next, hv] using hdio)
      | some dag =>
          have hsent : (u = v ∧ dio = cfg.buildDio dag) ∨ (u, dio) ∈ net.sent := by
            simpa [NetConfig.next, hv] using hdio
          rcases hsent with ⟨rfl, rfl⟩ | hsent
          · rw [cfg.buildDio_dagrank]
            exact hold.rank dag hv
          · exact hold.sent dio hsent
  | node v e =>
      have hrank : ¬ HadParent (net.dag u) ∧
          ∀ dag, (cfg.next net (.node v e)).dag u = some dag → dag.myRank = uint16Max := by
        by_cases huv : u = v
        · subst huv
          rw [next_node_dag, Function.update_self] at hnew ⊢
          rcases nodeStep_of_not_hadParent hnew with hsame | ⟨new, hmax, hnone, hjoin⟩
          · rw [hsame] at hnew ⊢
            exact ⟨hnew, (h.unlinked u hu hnew).rank⟩
          · rw [hnone] at hjoin ⊢
            constructor
            · rintro ⟨dag, p, hdag, -⟩
              simp at hdag
            · intro dag hdag
              obtain rfl : new = dag := by simpa [hjoin] using hdag
              exact hmax
        · rw [next_node_dag, Function.update_of_ne huv] at hnew ⊢
          exact ⟨hnew, (h.unlinked u hu hnew).rank⟩
      have hold := h.unlinked u hu hrank.1
      refine ⟨hrank.2, hold.sent, fun w hw => ?_⟩
      rcases parentOf_next_cases henabled hw with hlink | ⟨dio, hsent, hmax⟩
      · exact hold.linked w hlink
      · exact hmax (hold.sent dio hsent)

/-- The step lemma for the steps that take no parent from below. -/
theorem loopInvariant_next (h : LoopInvariant cfg net) {ev : NetEvent}
    (henabled : cfg.Enabled net ev) (hC : cfg.OnAdoption ReadoptsNotBelow net ev) :
    LoopInvariant cfg (cfg.next net ev) where
  root := next_dag_root h.root
  unlinked _ hu hnew := h.unlinked_next henabled hu hnew
  acyclic := (h.acyclic_next_iff henabled).mpr hC

/-- A run is free of routing loops in every state exactly when no step of a node that
had a parent before takes one from which valid parents lead back to the node. -/
theorem loop_free_iff (cfg : NetConfig) (es : List NetEvent)
    (hlegal : cfg.network.Legal cfg.init es) :
    cfg.network.Always (fun net => Acyclic net.parentOf) cfg.init es ↔
      cfg.network.Steps (cfg.OnAdoption ReadoptsNotBelow) cfg.init es :=
  Machine.always_iff_steps (fun _ h => h.acyclic)
    (fun _ _ h henabled hC => loopInvariant_next h henabled hC)
    (fun _ _ h henabled hC hnew => hC ((h.acyclic_next_iff henabled).mp hnew))
    (loopInvariant_init cfg) hlegal

/-- The child of a node that lost its parent: `fe80::2` joins under the root and
`fe80::3` under `fe80::2`, whose parent then times out; the next DIO it hears is
the one its own child sent before. -/
def childAdopted : List NetEvent :=
  [.trickle (linkLocal 1),
    .node (linkLocal 2) (.dio 1 ⟨true, true⟩ (hybridDio 1) (linkLocal 1)),
    .trickle (linkLocal 2),
    .node (linkLocal 3) (.dio 2 ⟨true, true⟩ (hybridDio 2) (linkLocal 2)),
    .trickle (linkLocal 3),
    .node (linkLocal 2) (.parentCheck 41),
    .node (linkLocal 2) (.dio 42 ⟨true, true⟩ (hybridDio 3) (linkLocal 3))]

/-- The run ends in a loop of two nodes. -/
theorem childAdopted_loops :
    hybridNet.network.Legal hybridNet.init childAdopted ∧
      ¬ Acyclic (hybridNet.network.run hybridNet.init childAdopted).parentOf := by
  refine ⟨by decide +kernel, fun hacyclic => ?_⟩
  have h23 : (hybridNet.network.run hybridNet.init childAdopted).parentOf (linkLocal 2) =
      some (linkLocal 3) := by decide +kernel
  have h32 : (hybridNet.network.run hybridNet.init childAdopted).parentOf (linkLocal 3) =
      some (linkLocal 2) := by decide +kernel
  exact hacyclic (linkLocal 2) (.tail (.single h23) h32)

/-- The network that lives up to the moment of the adoption has no loop. -/
theorem loop_free_before_adoption :
    hybridNet.network.Legal hybridNet.init (childAdopted.take 6) ∧
      (hybridNet.network.Always (fun net => Acyclic net.parentOf) hybridNet.init
          (childAdopted.take 6) ↔
        hybridNet.network.Steps (hybridNet.OnAdoption ReadoptsNotBelow) hybridNet.init
          (childAdopted.take 6)) :=
  ⟨by decide +kernel, loop_free_iff hybridNet _ (by decide +kernel)⟩

end HyMRPL
