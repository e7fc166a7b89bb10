import HyMRPL.Network.Basic

/-!
# Counting the switches of the parent

The stability index of the engine is meant to count the replacements of the parent. The
adoption branch of `process_dio` reports each of them once. The liveness check reports the
loss of a parent as well, which replaces nothing. So the engine is told as often as the
parent is replaced exactly in the runs where no check fires.

`CountedNode` adds both counts to a node. `hymrpl_adaptive_notify_parent_change` forwards
to `hymrpl_adaptive_parent_changed`.
-/

namespace HyMRPL

open Transition

/-- A call that reaches `hymrpl_adaptive_parent_changed`. -/
def Action.tellsParentChange : Action → Bool
  | .adaptiveNotifyParentChange _ => true
  | .adaptiveParentChanged => true
  | _ => false

/-- How many of some calls reach `hymrpl_adaptive_parent_changed`. -/
def parentChangedCalls (acts : List Action) : ℕ := acts.countP Action.tellsParentChange

@[simp] theorem parentChangedCalls_nil : parentChangedCalls [] = 0 := rfl

@[simp] theorem parentChangedCalls_notify (addr : In6Addr) :
    parentChangedCalls [.adaptiveNotifyParentChange addr] = 1 := rfl

@[simp] theorem parentChangedCalls_append (as bs : List Action) :
    parentChangedCalls (as ++ bs) = parentChangedCalls as + parentChangedCalls bs :=
  List.countP_append

/-- `dag.parent.addr`, of a node that has a DODAG and a parent record in it. -/
def parentAddr (node : Option Dag) : Option In6Addr :=
  node.bind fun dag => dag.parent.map Peer.addr

/-- Whether a step replaces the address of the parent by another one, as a number. -/
def parentReplaced (old new : Option Dag) : ℕ :=
  match parentAddr old, parentAddr new with
  | some a, some b => if a = b then 0 else 1
  | _, _ => 0

/-- A node with the number of parent changes that the engine was told of, and the number
of replacements of the parent. -/
structure CountedNode where
  dag : Option Dag
  delivered : ℕ
  replaced : ℕ

namespace CountedNode

/-- A node with the adaptive engine enabled. -/
def machine (iface : NodeConfig) : Machine CountedNode NodeEvent (List Action) where
  enabled _ _ := True
  next node e :=
    let (dag, acts) := nodeStep iface true node.dag e
    { dag := dag
      delivered := node.delivered + parentChangedCalls acts
      replaced := node.replaced + parentReplaced node.dag dag }
  out node e := (nodeStep iface true node.dag e).2

/-- The engine was told of every replacement once, and of nothing else. -/
def CountedOnce (node : CountedNode) : Prop := node.delivered = node.replaced

/-- The liveness check does not fire. -/
def NoTimeout (node : CountedNode) : NodeEvent → Prop
  | .dio _ _ _ _ => True
  | .parentCheck now => ∀ dag, node.dag = some dag → ¬ dag.TimedOut now

section Dio

theorem parentChangedCalls_dioSendDao (dag : Dag) (parent : Peer) :
    parentChangedCalls (dioSendDao dag parent) = 0 := by
  simp only [dioSendDao]
  split_ifs <;> rfl

/-- A DIO reports a change of the parent exactly when it replaces it. -/
theorem parentChangedCalls_dioUpdate (ops : DagOps) (now : ℚ) (peerOk : Bool) (dag : Dag)
    (src : In6Addr) (rank : UInt16) :
    parentChangedCalls (dioUpdate ops now peerOk dag src rank).2 =
      parentReplaced (some dag) (some (dioUpdate ops now peerOk dag src rank).1) := by
  rcases dioUpdate_cases dag peerOk with ⟨hp, hpeer⟩ | hadopts | ⟨p, hp, hmax⟩
  · simp [hpeer, dioUpdate_of_no_peer hp, parentReplaced, parentAddr, hp]
  · rw [dioUpdate_of_adopts hadopts]
    have hroute : parentChangedCalls [.nlAddRouteDefault dag.ifindex src, .dagProcessDio] = 0 :=
      rfl
    simp only [parentChangedCalls_append, parentChangedCalls_dioSendDao, hroute]
    cases hp : dag.parent with
    | none => simp [Dag.adoptNotice, hp, parentReplaced, parentAddr]
    | some p =>
        by_cases haddr : p.addr = src <;>
          simp [Dag.adoptNotice, Dag.adopt, hp, haddr, parentReplaced, parentAddr]
  · have hkept := Dag.refresh_parent hp now src rank
    have hzero : parentReplaced (some dag) (some (dag.refresh now p src rank)) = 0 := by
      simp [parentReplaced, parentAddr, hp, hkept]
    rw [dioUpdate_of_valid hp hmax, hzero]
    by_cases hrank : p.rank < rank
    · simp [hrank]
    · simp only [hrank, if_false, parentChangedCalls_append, parentChangedCalls_dioSendDao]
      rfl

end Dio

variable {iface : NodeConfig} {node : CountedNode}

/-- A new DODAG has no parent yet, as the node had none. -/
theorem parentAddr_dioTarget {now : ℚ} {alloc : Alloc} {dag : Option Dag} {dio : Dio} {target : Dag}
    (h : dioTarget now alloc iface dag dio = some target) : parentAddr dag = parentAddr target := by
  rcases dioTarget_cases h with ⟨hdag, _⟩ | ⟨hdag, hparent, _⟩
  · rw [hdag]
  · simp [parentAddr, hdag, hparent]

theorem parentReplaced_self (dag : Option Dag) : parentReplaced dag dag = 0 := by
  cases h : parentAddr dag <;> simp [parentReplaced, h]

/-- A DIO reports what it replaces. -/
theorem parentChangedCalls_dio (dag : Option Dag) (now : ℚ) (alloc : Alloc) (dio : Dio)
    (src : In6Addr) :
    parentChangedCalls (nodeStep iface true dag (.dio now alloc dio src)).2 =
      parentReplaced dag (nodeStep iface true dag (.dio now alloc dio src)).1 := by
  cases ht : dioTarget now alloc iface dag dio with
  | none => simp [nodeStep_of_no_target ht, parentReplaced_self]
  | some target =>
      have haddr := parentAddr_dioTarget ht
      rw [nodeStep_of_target ht, parentChangedCalls_dioUpdate]
      simp only [parentReplaced, haddr]

/-- A check that fires reports a change and replaces nothing. -/
theorem parentCheck_of_timedOut (iface : NodeConfig) {dag : Dag} {now : ℚ}
    (h : dag.TimedOut now) :
    parentChangedCalls (nodeStep iface true (some dag) (.parentCheck now)).2 = 1 ∧
      parentReplaced (some dag) (nodeStep iface true (some dag) (.parentCheck now)).1 = 0 := by
  rw [nodeStep_of_timedOut h, parentCheckCb_of_timedOut h]
  constructor
  · rfl
  · cases hp : dag.parent <;> simp [parentReplaced, parentAddr, Dag.invalidate, hp]

theorem CountedOnce.next (h : CountedOnce node) {e : NodeEvent} (he : NoTimeout node e) :
    CountedOnce ((machine iface).next node e) := by
  apply congrArg₂ (· + ·) h
  cases e with
  | dio now alloc dio src => exact parentChangedCalls_dio node.dag now alloc dio src
  | parentCheck now =>
      change parentChangedCalls (nodeStep iface true node.dag (.parentCheck now)).2 =
        parentReplaced node.dag (nodeStep iface true node.dag (.parentCheck now)).1
      rw [nodeStep_of_not_timedOut he, parentReplaced_self, parentChangedCalls_nil]

/-- After a check that fires the engine is one change ahead. -/
theorem CountedOnce.not_next (h : CountedOnce node) {e : NodeEvent} (he : ¬ NoTimeout node e) :
    ¬ CountedOnce ((machine iface).next node e) := by
  cases e with
  | dio now alloc dio src => exact absurd trivial he
  | parentCheck now =>
      simp only [NoTimeout, not_forall, not_not] at he
      have ⟨dag, hdag, htimeout⟩ := he
      have ⟨hcalls, hreplaced⟩ := parentCheck_of_timedOut iface htimeout
      have hcount : node.delivered = node.replaced := h
      simp only [CountedOnce, machine, hdag, hcalls, hreplaced]
      omega

/-- Each switch of the parent is counted once exactly in the runs where the liveness check
never fires. -/
theorem countedOnce_iff (iface : NodeConfig) (dag : Option Dag) (es : List NodeEvent) :
    (machine iface).Always CountedOnce ⟨dag, 0, 0⟩ es ↔
      (machine iface).Steps NoTimeout ⟨dag, 0, 0⟩ es := by
  apply Machine.always_iff_steps_of_enabled (I := CountedOnce)
  · exact fun _ _ => trivial
  · exact fun node h => h
  · exact fun node e h he => h.next he
  · exact fun node e h he => h.not_next he
  · rfl

/-- A parent is timed out and heard again. -/
def lossAndReturn : List NodeEvent :=
  [.dio 1 ⟨true, true⟩ (hybridDio 2) (linkLocal 2), .parentCheck 100,
    .dio 101 ⟨true, true⟩ (hybridDio 2) (linkLocal 2)]

/-- Then it is timed out a second time, and the node adopts another neighbour. -/
def lossAndAdoption : List NodeEvent :=
  lossAndReturn ++ [.parentCheck 200, .dio 201 ⟨true, true⟩ (hybridDio 2) (linkLocal 3)]

/-- The return of the parent counts one instead of none, and the adoption two instead of
one. -/
theorem lossAndAdoption_counted_twice :
    let M := machine (hybridNet.iface (linkLocal 9))
    let back := M.run ⟨none, 0, 0⟩ lossAndReturn
    let moved := M.run ⟨none, 0, 0⟩ lossAndAdoption
    parentAddr back.dag = some (linkLocal 2) ∧ (back.delivered, back.replaced) = (1, 0) ∧
      parentAddr moved.dag = some (linkLocal 3) ∧
      (moved.delivered, moved.replaced) = (3, 1) ∧ ¬ CountedOnce back ∧ ¬ CountedOnce moved := by
  simp only [CountedOnce]
  decide +kernel

end CountedNode

end HyMRPL
