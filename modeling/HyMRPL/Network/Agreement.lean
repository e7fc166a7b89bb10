import HyMRPL.Network.Basic
import HyMRPL.Node.Frame
import Mathlib.Logic.Relation

/-!
# One DODAG in the whole network

A node takes the version, the mode of operation, the identifier and the prefix length
of its DODAG from the DIO by which it joins, and never changes them. If DIOs copy what
their sender has, the whole network agrees with the configured root, whatever the order
in which DIOs arrive. A parent is a neighbour that has joined before, and only nodes with
a path of neighbours to the root join.
-/

namespace HyMRPL

open Transition Relation

/-- Two records of one DODAG. -/
structure Dag.SameDodag (dag dag' : Dag) : Prop where
  version : dag.version = dag'.version
  mop : dag.mop = dag'.mop
  dodagid : dag.dodagid = dag'.dodagid
  prefixLen : dag.dest.len = dag'.dest.len

/-- The DIO is about the DODAG, and advertises its prefix. -/
structure Dio.Describes (dio : Dio) (dag : Dag) : Prop where
  version : dio.version = dag.version
  mop : dio.mop = dag.mop
  dagid : dio.dagid = dag.dodagid
  dest : ∃ addr, dio.dest = some ⟨dag.dest.len, addr⟩

/-- `dag_build_dio` writes a DIO about the DODAG that it is called with. -/
def NetConfig.CopiesDodag (cfg : NetConfig) : Prop := ∀ dag, (cfg.buildDio dag).Describes dag

theorem Dag.SameDodag.refl (dag : Dag) : dag.SameDodag dag := ⟨rfl, rfl, rfl, rfl⟩

theorem Dag.SameDodag.track {dag dag' : Dag} (h : dag.SameDodag dag') (parent : Option Peer)
    (myRank : UInt16) (seen : ℚ) : (dag.track parent myRank seen).SameDodag dag' :=
  ⟨h.version, h.mop, h.dodagid, h.prefixLen⟩

theorem Dio.Describes.of_sameDodag {dio : Dio} {dag dag' : Dag} (h : dio.Describes dag)
    (hsame : dag.SameDodag dag') : dio.Describes dag' where
  version := h.version.trans hsame.version
  mop := h.mop.trans hsame.mop
  dagid := h.dagid.trans hsame.dodagid
  dest := hsame.prefixLen ▸ h.dest

/-- Who joins by a DIO joins the DODAG that the DIO is about. -/
theorem Dio.Describes.joinedDag {dio : Dio} {dag : Dag} (h : dio.Describes dag)
    {pfx : In6Prefix} (hpfx : dio.dest = some pfx) (iface : NodeConfig) (now : ℚ) :
    (joinedDag iface now dio pfx).SameDodag dag := by
  obtain ⟨addr, hdest⟩ := h.dest
  obtain rfl := Option.some.inj (hdest.symm.trans hpfx)
  exact ⟨h.version, h.mop, h.dagid, rfl⟩

/-- Where the nodes stand: they agree with the root, and their parents are neighbours that
have joined. -/
structure Net.Agrees (cfg : NetConfig) (net : Net) : Prop where
  dags : ∀ v dag, net.dag v = some dag → dag.SameDodag cfg.rootDag
  linked : ∀ v dag, net.dag v = some dag → ReflTransGen cfg.neighbour cfg.root v
  parent : ∀ v dag p, net.dag v = some dag → dag.parent = some p →
    cfg.neighbour p.addr v ∧ (net.dag p.addr).isSome
  sent : ∀ p ∈ net.sent, p.2.Describes cfg.rootDag ∧ (net.dag p.1).isSome

variable {cfg : NetConfig} {net : Net} {v w : In6Addr}

/-- A node that has joined does not leave. -/
theorem isSome_next (e : NetEvent) (h : (net.dag w).isSome) :
    ((cfg.next net e).dag w).isSome := by
  cases e with
  | trickle v => simpa using h
  | node v e =>
      by_cases hw : w = v
      · subst hw
        obtain ⟨dag, hdag⟩ := Option.isSome_iff_exists.mp h
        obtain ⟨parent, myRank, seen, htrack⟩ :=
          nodeStep_track (cfg.iface w) (cfg.adaptiveEnabled w) dag e
        simp [hdag, htrack]
      · simpa [hw] using h

theorem Net.agrees_init (cfg : NetConfig) : cfg.init.Agrees cfg := by
  have hinit : ∀ v dag, cfg.init.dag v = some dag → v = cfg.root ∧ dag = cfg.rootDag := by
    intro v dag hdag
    by_cases hv : v = cfg.root
    · subst hv
      exact ⟨rfl, by simpa [NetConfig.init, eq_comm] using hdag⟩
    · simp [NetConfig.init, hv] at hdag
  constructor
  case dags =>
    intro v dag hdag
    rw [(hinit v dag hdag).2]
    exact Dag.SameDodag.refl _
  case linked =>
    intro v dag hdag
    rw [(hinit v dag hdag).1]
  case parent =>
    intro v dag p hdag hp
    rw [(hinit v dag hdag).2, cfg.rootDag_parent] at hp
    exact nomatch hp
  case sent => simp [NetConfig.init]

/-- The DIO that a node sends is about the DODAG of the root. -/
theorem Net.Agrees.next_trickle (h : net.Agrees cfg) (hcopies : cfg.CopiesDodag) :
    (cfg.next net (.trickle v)).Agrees cfg := by
  cases hdag : net.dag v with
  | none => simpa [NetConfig.next, hdag] using h
  | some dag =>
      have hnext : cfg.next net (.trickle v) =
          { net with sent := (v, cfg.buildDio dag) :: net.sent } := by
        simp [NetConfig.next, hdag]
      rw [hnext]
      refine ⟨h.dags, h.linked, h.parent, ?_⟩
      rw [List.forall_mem_cons]
      exact ⟨⟨(hcopies dag).of_sameDodag (h.dags v dag hdag), by simp [hdag]⟩, h.sent⟩

/-- What a node has after one of its events is what it had, or what the DIO of a neighbour
says. -/
theorem Net.Agrees.nodeStep (h : net.Agrees cfg) {e : NodeEvent}
    (he : cfg.Enabled net (.node v e)) {new : Dag}
    (hnew : (nodeStep (cfg.iface v) (cfg.adaptiveEnabled v) (net.dag v) e).1 = some new) :
    new.SameDodag cfg.rootDag ∧ ReflTransGen cfg.neighbour cfg.root v ∧
      ∀ p, new.parent = some p → cfg.neighbour p.addr v ∧ (net.dag p.addr).isSome := by
  have hparent : ∀ p, new.parent = some p →
      cfg.neighbour p.addr v ∧ (net.dag p.addr).isSome := by
    intro p hp
    rcases nodeStep_parent_addr hnew hp with ⟨now, alloc, dio, rfl⟩ | ⟨dag, q, hdag, hq, haddr⟩
    · exact ⟨he.2, (h.sent _ he.1).2⟩
    · exact haddr ▸ h.parent v dag q hdag hq
  cases hdag : net.dag v with
  | some dag =>
      obtain ⟨parent, myRank, seen, htrack⟩ := nodeStep_track (cfg.iface v)
        (cfg.adaptiveEnabled v) dag e
      rw [hdag, htrack] at hnew
      obtain rfl := Option.some.inj hnew
      exact ⟨(h.dags v dag hdag).track parent myRank seen, h.linked v dag hdag, hparent⟩
  | none =>
      rw [hdag] at hnew
      obtain ⟨now, alloc, dio, src, pfx, parent, myRank, seen, rfl, hpfx, -, rfl⟩ :=
        nodeStep_join hnew
      obtain ⟨hdescribes, hjoined⟩ := h.sent _ he.1
      obtain ⟨dag, hsrc⟩ := Option.isSome_iff_exists.mp hjoined
      exact ⟨(hdescribes.joinedDag hpfx _ _).track parent myRank seen,
        (h.linked src dag hsrc).tail he.2, hparent⟩

/-- The step lemma. -/
theorem Net.Agrees.next (h : net.Agrees cfg) (hcopies : cfg.CopiesDodag) {e : NetEvent}
    (he : cfg.Enabled net e) : (cfg.next net e).Agrees cfg := by
  cases e with
  | trickle v => exact h.next_trickle hcopies
  | node v e =>
      have hstep : ∀ w new, (cfg.next net (.node v e)).dag w = some new →
          new.SameDodag cfg.rootDag ∧ ReflTransGen cfg.neighbour cfg.root w ∧
            ∀ p, new.parent = some p → cfg.neighbour p.addr w ∧ (net.dag p.addr).isSome := by
        intro w new hnew
        by_cases hw : w = v
        · subst hw
          exact h.nodeStep he (by simpa using hnew)
        · have hold : net.dag w = some new := by simpa [hw] using hnew
          exact ⟨h.dags w new hold, h.linked w new hold, fun p => h.parent w new p hold⟩
      constructor
      case dags => exact fun w new hnew => (hstep w new hnew).1
      case linked => exact fun w new hnew => (hstep w new hnew).2.1
      case parent =>
        intro w new p hnew hp
        obtain ⟨hneighbour, hjoined⟩ := (hstep w new hnew).2.2 p hp
        exact ⟨hneighbour, isSome_next _ hjoined⟩
      case sent => exact fun p hp => ⟨(h.sent p hp).1, isSome_next _ (h.sent p hp).2⟩

/-- In every state of a network, all nodes that have joined are in the DODAG of the root,
with its mode of operation and its prefix length; they are linked to the root through
neighbours, and their parents are neighbours that have joined too. -/
theorem network_agrees (cfg : NetConfig) (hcopies : cfg.CopiesDodag) (es : List NetEvent)
    (hl : cfg.network.Legal cfg.init es) :
    cfg.network.Always (fun net => ∀ v dag, net.dag v = some dag →
      dag.SameDodag cfg.rootDag ∧ ReflTransGen cfg.neighbour cfg.root v ∧
        ∀ p, dag.parent = some p → cfg.neighbour p.addr v ∧ (net.dag p.addr).isSome)
      cfg.init es := by
  have hagrees : cfg.network.Always (Net.Agrees cfg) cfg.init es :=
    Machine.always_of_invariant (fun net e h he => h.next hcopies he) (Net.agrees_init cfg) hl
  apply hagrees.mono
  intro net h v dag hdag
  exact ⟨h.dags v dag hdag, h.linked v dag hdag, fun p hp => h.parent v dag p hdag hp⟩

/-- The hybrid network with DIOs that copy the sender's DODAG. -/
def copyingNet : NetConfig where
  __ := hybridNet
  buildDio dag := ⟨1, dag.version, dag.myRank, dag.mop, dag.dodagid, some dag.dest⟩
  buildDio_dagrank _ := rfl

theorem copiesDodag_copyingNet : copyingNet.CopiesDodag :=
  fun dag => ⟨rfl, rfl, rfl, ⟨dag.dest.addr, rfl⟩⟩

instance : DecidableRel copyingNet.neighbour :=
  inferInstanceAs (DecidableRel hybridNet.neighbour)

/-- `fe80::2` joins by a DIO of the root, and `fe80::3` by one of `fe80::2`. -/
def joinInTurn : List NetEvent :=
  let rootDio := copyingNet.buildDio copyingNet.rootDag
  [.trickle (linkLocal 1), .node (linkLocal 2) (.dio 1 ⟨true, true⟩ rootDio (linkLocal 1)),
    .trickle (linkLocal 2),
    .node (linkLocal 3) (.dio 2 ⟨true, true⟩ { rootDio with dagrank := 2 } (linkLocal 2))]

/-- Both nodes join, and agree with the root. -/
theorem joinInTurn_agrees :
    copyingNet.network.Legal copyingNet.init joinInTurn ∧
      ((copyingNet.network.run copyingNet.init joinInTurn).dag (linkLocal 2)).isSome ∧
      ((copyingNet.network.run copyingNet.init joinInTurn).dag (linkLocal 3)).isSome ∧
      copyingNet.network.Always (fun net => ∀ v dag, net.dag v = some dag →
        dag.SameDodag copyingNet.rootDag ∧
          ReflTransGen copyingNet.neighbour copyingNet.root v ∧
            ∀ p, dag.parent = some p →
              copyingNet.neighbour p.addr v ∧ (net.dag p.addr).isSome)
        copyingNet.init joinInTurn := by
  have hlegal : copyingNet.network.Legal copyingNet.init joinInTurn := by decide +kernel
  exact ⟨hlegal, by decide +kernel, by decide +kernel,
    network_agrees copyingNet copiesDodag_copyingNet joinInTurn hlegal⟩

end HyMRPL
