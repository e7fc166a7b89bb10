import HyMRPL.Foundation.Machine
import HyMRPL.Node.Step
import Mathlib.Logic.Function.Basic

/-!
# A network of nodes

Any number of nodes run `process_dio` and `parent_check_cb` for one DODAG. One
of them is the configured root; every other node starts without a DODAG. A DIO
that was sent stays in `sent`, so it can be delivered to any neighbour of its
sender, at any later time, or never. `trickle_cb` sends a DIO, and so does the
answer to a DIS.

`send_dio` and `dag_build_dio` are outside the repository: `buildDio` is a
parameter, of which only the rank it writes is known.
-/

namespace HyMRPL

open Transition

/-- The setting of a network. -/
structure NetConfig where
  root : In6Addr
  rootDag : Dag
  rootDag_myRank : rootDag.myRank = 1
  rootDag_parent : rootDag.parent = none
  neighbour : In6Addr → In6Addr → Prop
  iface : In6Addr → NodeConfig
  adaptiveEnabled : In6Addr → Bool
  buildDio : Dag → Dio
  buildDio_dagrank : ∀ dag, (buildDio dag).dagrank = dag.myRank

/-- The nodes, and the DIOs sent so far with their senders. -/
structure Net where
  dag : In6Addr → Option Dag
  sent : List (In6Addr × Dio)

inductive NetEvent
  | trickle (v : In6Addr)
  | node (v : In6Addr) (e : NodeEvent)

namespace NetConfig

variable (cfg : NetConfig)

def init : Net where
  dag := Function.update (fun _ => none) cfg.root (some cfg.rootDag)
  sent := []

/-- A DIO must have been sent by a neighbour. -/
def Enabled (net : Net) : NetEvent → Prop
  | .trickle v => (net.dag v).isSome
  | .node v (.dio _ _ dio src) => (src, dio) ∈ net.sent ∧ cfg.neighbour src v
  | .node v (.parentCheck _) => (net.dag v).isSome

instance [DecidableRel cfg.neighbour] (net : Net) (e : NetEvent) :
    Decidable (cfg.Enabled net e) :=
  match e with
  | .trickle v => inferInstanceAs (Decidable ((net.dag v).isSome = true))
  | .node v (.dio _ _ dio src) =>
    inferInstanceAs (Decidable ((src, dio) ∈ net.sent ∧ cfg.neighbour src v))
  | .node v (.parentCheck _) => inferInstanceAs (Decidable ((net.dag v).isSome = true))

def next (net : Net) : NetEvent → Net
  | .trickle v =>
    match net.dag v with
    | some dag => { net with sent := (v, cfg.buildDio dag) :: net.sent }
    | none => net
  | .node v e =>
    let node := (nodeStep (cfg.iface v) (cfg.adaptiveEnabled v) (net.dag v) e).1
    { net with dag := Function.update net.dag v node }

def network : Machine Net NetEvent (List Action) where
  enabled := cfg.Enabled
  next := cfg.next
  out net
    | .trickle _ => []
    | .node v e => (nodeStep (cfg.iface v) (cfg.adaptiveEnabled v) (net.dag v) e).2

instance [DecidableRel cfg.neighbour] (net : Net) (e : NetEvent) :
    Decidable (cfg.network.enabled net e) :=
  inferInstanceAs (Decidable (cfg.Enabled net e))

/-- A condition on the adoptions of parents: `C` relates the network before the
step, the node, the sender of the DIO and its rank. -/
def OnAdoption (C : Net → In6Addr → In6Addr → UInt16 → Prop) (net : Net) : NetEvent → Prop
  | .trickle _ => True
  | .node v e => ∀ src rank,
      adoption (cfg.iface v) (net.dag v) e = some (src, rank) → C net v src rank

end NetConfig

/-- The graph that links each node to its valid parent. -/
def Net.parentOf (net : Net) (v : In6Addr) : Option In6Addr := nodeParent (net.dag v)

variable {cfg : NetConfig} {net : Net} {v : In6Addr} {e : NodeEvent}

theorem sent_of_enabled {now : ℚ} {alloc : Alloc} {dio : Dio} {src : In6Addr}
    (h : cfg.Enabled net (.node v (.dio now alloc dio src))) : (src, dio) ∈ net.sent :=
  h.1

@[simp] theorem next_trickle_dag :
    (cfg.next net (.trickle v)).dag = net.dag := by
  cases h : net.dag v <;> simp [NetConfig.next, h]

@[simp] theorem next_node_sent : (cfg.next net (.node v e)).sent = net.sent := rfl

@[simp] theorem next_node_dag :
    (cfg.next net (.node v e)).dag = Function.update net.dag v
      (nodeStep (cfg.iface v) (cfg.adaptiveEnabled v) (net.dag v) e).1 := rfl

theorem next_node_parentOf :
    (cfg.next net (.node v e)).parentOf = Function.update net.parentOf v
      (nodeParent (nodeStep (cfg.iface v) (cfg.adaptiveEnabled v) (net.dag v) e).1) := by
  funext w
  by_cases hw : w = v
  · subst hw
    simp [Net.parentOf]
  · simp [Net.parentOf, hw]

/-- The configured root takes no parent. -/
theorem adoption_root (hroot : net.dag cfg.root = some cfg.rootDag) :
    adoption (cfg.iface cfg.root) (net.dag cfg.root) e = none := by
  cases e with
  | parentCheck now => rfl
  | dio now alloc dio src => simp [adoption, dioTarget, hroot, cfg.rootDag_myRank]

/-- No event changes the configured root. -/
theorem nodeStep_root (hroot : net.dag cfg.root = some cfg.rootDag) :
    (nodeStep (cfg.iface cfg.root) (cfg.adaptiveEnabled cfg.root) (net.dag cfg.root) e).1 =
      some cfg.rootDag := by
  cases e with
  | parentCheck now => simp [nodeStep, parentCheckCb, hroot, cfg.rootDag_myRank]
  | dio now alloc dio src =>
      simp [nodeStep, processDio_eq, dioTarget, hroot, cfg.rootDag_myRank]

theorem next_dag_root {ev : NetEvent} (hroot : net.dag cfg.root = some cfg.rootDag) :
    (cfg.next net ev).dag cfg.root = some cfg.rootDag := by
  cases ev with
  | trickle v => simpa using hroot
  | node v e =>
      by_cases hv : cfg.root = v
      · subst hv
        simp [nodeStep_root hroot]
      · simpa [hv] using hroot

/-- The link-local address `fe80::n`. -/
def linkLocal (n : UInt8) : In6Addr :=
  #v[0xfe, 0x80, 0, 0, 0, 0, 0, 0, 0, 0, 0, 0, 0, 0, 0, n]

/-- The DIO of a hybrid DODAG whose sender has the given rank. -/
def hybridDio (rank : UInt16) : Dio where
  instanceid := 1
  version := 1
  dagrank := rank
  mop := Mop.hybrid
  dagid := linkLocal 1
  dest := some ⟨64, linkLocal 0⟩

/-- A hybrid network in which every node hears every other node; the root is
`fe80::1`. -/
def hybridNet : NetConfig where
  root := linkLocal 1
  rootDag := (sampleDagOps 5 (linkLocal 1)).dagCreate 1 0 (linkLocal 1) 1 1 Mop.hybrid
    ⟨64, linkLocal 0⟩
  rootDag_myRank := rfl
  rootDag_parent := rfl
  neighbour := (· ≠ ·)
  iface v := ⟨1, .classS, sampleDagOps 5 v⟩
  adaptiveEnabled v := v ≠ linkLocal 1
  buildDio dag := hybridDio dag.myRank
  buildDio_dagrank _ := rfl

instance : DecidableRel hybridNet.neighbour :=
  inferInstanceAs (DecidableRel fun a b : In6Addr => a ≠ b)

end HyMRPL
