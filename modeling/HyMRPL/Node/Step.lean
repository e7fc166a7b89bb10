import HyMRPL.Process.Dio
import HyMRPL.Process.ParentCheck

/-!
# One node of a DODAG

A node is the DODAG it has joined, or `none`. It reads two events: a DIO is
processed, or its liveness timer fires. All DIOs are about the same DODAG, so the
lookup finds what the node has.

`adoption` tells from the state before a step whether the step takes the sender
of a DIO as the parent. `nodeStep_of_adoption` and `nodeStep_of_no_adoption`
together say all that a step can do.
-/

namespace HyMRPL

/-- What happens to a node. -/
inductive NodeEvent
  | dio (now : ℚ) (alloc : Alloc) (dio : Dio) (src : In6Addr)
  | parentCheck (now : ℚ)

/-- One step of a node, with the calls it makes. -/
def nodeStep (iface : NodeConfig) (adaptiveEnabled : Bool) (node : Option Dag) :
    NodeEvent → Option Dag × List Action
  | .dio now alloc dio src =>
    match processDio now alloc iface (fun _ _ => node) dio src with
    | some (dag, acts) => (some dag, acts)
    | none => (node, [])
  | .parentCheck now =>
    match node with
    | some dag =>
      let (dag, acts) := parentCheckCb now adaptiveEnabled dag
      (some dag, acts)
    | none => (none, [])

/-- The DODAG that `process_dio` works on: the one found, unless the node is a
root, or a new one. -/
def dioTarget (now : ℚ) (alloc : Alloc) (iface : NodeConfig) (node : Option Dag)
    (dio : Dio) : Option Dag :=
  match node with
  | some dag => if dag.myRank = 1 then none else some dag
  | none =>
    match dio.dest with
    | none => none
    | some pfx =>
      if alloc.dag then
        some { newDag iface.dagOps.trickleT iface.dagOps.self iface.ifindex now dio.dagid
          uint16Max dio.version dio.mop pfx with nodeClass := iface.nodeClass }
      else none

theorem processDio_eq (now : ℚ) (alloc : Alloc) (iface : NodeConfig)
    (node : Option Dag) (dio : Dio) (src : In6Addr) :
    processDio now alloc iface (fun _ _ => node) dio src =
      (dioTarget now alloc iface node dio).map fun dag =>
        dioUpdate iface.dagOps now alloc.peer dag src dio.dagrank := by
  cases node with
  | some dag =>
      by_cases hroot : dag.myRank = 1 <;> simp [processDio, dioTarget, hroot]
  | none =>
      cases hdest : dio.dest with
      | none => simp [processDio, dioTarget, hdest]
      | some pfx =>
          cases halloc : alloc.dag <;>
            simp [processDio, dioTarget, hdest, halloc, iface.dagOps.dagCreate_eq]

section NodeStep

variable {iface : NodeConfig} {adaptiveEnabled : Bool} {node : Option Dag} {now : ℚ}
  {alloc : Alloc} {dio : Dio} {src : In6Addr} {dag : Dag}

/-- A DIO updates its target. -/
theorem nodeStep_of_target (ht : dioTarget now alloc iface node dio = some dag) :
    nodeStep iface adaptiveEnabled node (.dio now alloc dio src) =
      (some (dioUpdate iface.dagOps now alloc.peer dag src dio.dagrank).1,
        (dioUpdate iface.dagOps now alloc.peer dag src dio.dagrank).2) := by
  simp [nodeStep, processDio_eq, ht]

theorem nodeStep_of_no_target (ht : dioTarget now alloc iface node dio = none) :
    nodeStep iface adaptiveEnabled node (.dio now alloc dio src) = (node, []) := by
  simp [nodeStep, processDio_eq, ht]

/-- A check that fires invalidates the parent. -/
theorem nodeStep_of_timedOut (h : dag.TimedOut now) :
    nodeStep iface adaptiveEnabled (some dag) (.parentCheck now) =
      (some dag.invalidate, (parentCheckCb now adaptiveEnabled dag).2) := by
  simp [nodeStep, parentCheckCb_of_timedOut h]

theorem nodeStep_of_not_timedOut (h : ∀ dag, node = some dag → ¬ dag.TimedOut now) :
    nodeStep iface adaptiveEnabled node (.parentCheck now) = (node, []) := by
  cases node with
  | none => rfl
  | some dag => simp [nodeStep, parentCheckCb_of_not_timedOut (h dag rfl)]

end NodeStep

/-- The target is the node's own DODAG, or the node has none and the target is
a new one, of rank `UINT16_MAX` and without a parent. -/
theorem dioTarget_cases {now : ℚ} {alloc : Alloc} {iface : NodeConfig}
    {node : Option Dag} {dio : Dio} {dag : Dag}
    (h : dioTarget now alloc iface node dio = some dag) :
    (node = some dag ∧ dag.myRank ≠ 1) ∨
      (node = none ∧ dag.parent = none ∧ dag.myRank = uint16Max) := by
  cases node with
  | some d =>
      by_cases hroot : d.myRank = 1
      · simp [dioTarget, hroot] at h
      · obtain rfl : d = dag := by simpa [dioTarget, hroot] using h
        exact Or.inl ⟨rfl, hroot⟩
  | none =>
      refine Or.inr ⟨rfl, ?_⟩
      cases hdest : dio.dest with
      | none => simp [dioTarget, hdest] at h
      | some pfx =>
          cases halloc : alloc.dag with
          | false => simp [dioTarget, hdest, halloc] at h
          | true =>
              simp only [dioTarget, hdest, halloc, if_true, Option.some.injEq] at h
              subst h
              exact ⟨rfl, rfl⟩

/-- The parent of a node, when it is set and not invalidated. -/
def nodeParent (node : Option Dag) : Option In6Addr := node.bind Dag.validParent

/-- The sender and the rank of the DIO by which this step takes a parent. -/
def adoption (iface : NodeConfig) (node : Option Dag) : NodeEvent → Option (In6Addr × UInt16)
  | .dio now alloc dio src =>
    match dioTarget now alloc iface node dio with
    | some dag => if dag.Adopts alloc.peer then some (src, dio.dagrank) else none
    | none => none
  | .parentCheck _ => none

theorem nodeStep_of_adoption {iface : NodeConfig} {node : Option Dag} {e : NodeEvent}
    {src : In6Addr} {rank : UInt16} (h : adoption iface node e = some (src, rank))
    (adaptiveEnabled : Bool) :
    nodeParent node = none ∧ ∃ (now : ℚ) (alloc : Alloc) (dio : Dio) (dag : Dag),
      e = .dio now alloc dio src ∧ dio.dagrank = rank ∧
        dioTarget now alloc iface node dio = some dag ∧
        (nodeStep iface adaptiveEnabled node e).1 = some (dag.adopt now src rank) := by
  cases e with
  | parentCheck now => simp [adoption] at h
  | dio now alloc dio src' =>
      cases ht : dioTarget now alloc iface node dio with
      | none => simp [adoption, ht] at h
      | some dag =>
          by_cases hadopts : dag.Adopts alloc.peer
          · obtain ⟨rfl, rfl⟩ : src' = src ∧ dio.dagrank = rank := by
              simpa [adoption, ht, hadopts] using h
            refine ⟨?_, now, alloc, dio, dag, rfl, rfl, ht, ?_⟩
            · rcases dioTarget_cases ht with ⟨rfl, -⟩ | ⟨rfl, -, -⟩
              · exact hadopts.1
              · rfl
            · rw [nodeStep_of_target ht, dioUpdate_of_adopts hadopts]
          · simp [adoption, ht, hadopts] at h

/-- A step that takes no parent changes nothing, joins without a parent for want
of memory, stores a rank that is not worse, or invalidates the parent. -/
theorem nodeStep_of_no_adoption {iface : NodeConfig} {node : Option Dag} {e : NodeEvent}
    (h : adoption iface node e = none) (adaptiveEnabled : Bool) :
    (nodeStep iface adaptiveEnabled node e).1 = node ∨
      (node = none ∧ ∃ dag, dag.parent = none ∧ dag.myRank = uint16Max ∧
        (nodeStep iface adaptiveEnabled node e).1 = some dag) ∨
      (∃ dag p now alloc dio src, e = .dio now alloc dio src ∧ node = some dag ∧
        dag.myRank ≠ 1 ∧ dag.parent = some p ∧ p.rank ≠ uint16Max ∧
        (nodeStep iface adaptiveEnabled node e).1 =
          some (dag.refresh now p src dio.dagrank)) ∨
      (∃ dag now, node = some dag ∧ dag.TimedOut now ∧
        (nodeStep iface adaptiveEnabled node e).1 = some dag.invalidate) := by
  cases e with
  | parentCheck now =>
      cases node with
      | none => exact Or.inl rfl
      | some dag =>
          by_cases ht : dag.TimedOut now
          · refine Or.inr (Or.inr (Or.inr ⟨dag, now, rfl, ht, ?_⟩))
            rw [nodeStep_of_timedOut ht]
          · left
            simp [nodeStep, parentCheckCb_of_not_timedOut ht]
  | dio now alloc dio src =>
      cases ht : dioTarget now alloc iface node dio with
      | none => exact Or.inl (by rw [nodeStep_of_no_target ht])
      | some dag =>
          have hstep : (nodeStep iface adaptiveEnabled node (.dio now alloc dio src)).1 =
              some (dioUpdate iface.dagOps now alloc.peer dag src dio.dagrank).1 := by
            rw [nodeStep_of_target ht]
          rcases dioUpdate_cases dag alloc.peer with ⟨hp, hpeer⟩ | hadopts | ⟨p, hp, hmax⟩
          · rw [hpeer, dioUpdate_of_no_peer hp] at hstep
            rcases dioTarget_cases ht with ⟨rfl, -⟩ | ⟨rfl, -, hrank⟩
            · exact Or.inl hstep
            · exact Or.inr (Or.inl ⟨rfl, dag, hp, hrank, hstep⟩)
          · simp [adoption, ht, hadopts] at h
          · rw [dioUpdate_of_valid hp hmax] at hstep
            rcases dioTarget_cases ht with ⟨rfl, hroot⟩ | ⟨-, hnone, -⟩
            · exact Or.inr (Or.inr (Or.inl
                ⟨dag, p, now, alloc, dio, src, rfl, rfl, hroot, hp, hmax, hstep⟩))
            · simp [hp] at hnone

end HyMRPL
