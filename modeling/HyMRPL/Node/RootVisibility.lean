import HyMRPL.Network.Basic

/-!
# Whether the root sees a hybrid node

In hybrid mode a node sends its DAO to the parent, and a second one to the
DODAG's own address unless the stored parent rank is at most 1. The second DAO is
thus skipped on the evidence of the stored rank. The root gets a DAO exactly when
a DIO that is accepted with rank 0 or 1 finds, or makes, the root the parent.
-/

namespace HyMRPL

open Transition

/-- A node in a DODAG whose root, and nobody else, advertises rank 1. -/
def hybridNode (root : In6Addr) (iface : NodeConfig) (adaptiveEnabled : Bool) :
    Machine (Option Dag) NodeEvent (List Action) where
  enabled _
    | .dio _ _ dio src => dio.dagrank = 1 → src = root
    | .parentCheck _ => True
  next node e := (nodeStep iface adaptiveEnabled node e).1
  out node e := (nodeStep iface adaptiveEnabled node e).2

/-- If the step sends DAOs in hybrid mode, one of them goes to the root: to the
DODAG's address, or to a parent that is the root. -/
def RootGetsDao (root : In6Addr) (iface : NodeConfig) (adaptiveEnabled : Bool)
    (node : Option Dag) (e : NodeEvent) : Prop :=
  ∀ dag, (nodeStep iface adaptiveEnabled node e).1 = some dag → dag.mop = Mop.hybrid →
    daoDests (nodeStep iface adaptiveEnabled node e).2 ≠ [] →
      dag.dodagid ∈ daoDests (nodeStep iface adaptiveEnabled node e).2 ∨
        ∃ p, dag.parent = some p ∧ p.addr = root

/-- `addr` is the root, or the address under which the DODAG knows it. -/
def IsRoot (root : In6Addr) (dag : Dag) (addr : In6Addr) : Prop :=
  addr = root ∨ addr = dag.dodagid

/-- A DIO accepted in hybrid mode has a rank of at least 2, or the parent is the
root: the sender that is adopted, or the valid parent that is kept. -/
def LowRankFromRoot (root : In6Addr) (iface : NodeConfig) (node : Option Dag) :
    NodeEvent → Prop
  | .dio now alloc dio src => ∀ dag, dioTarget now alloc iface node dio = some dag →
      dag.mop = Mop.hybrid → dio.dagrank ≤ 1 →
        (dag.Adopts alloc.peer → IsRoot root dag src) ∧
          ∀ p, dag.parent = some p → p.rank ≠ uint16Max → dio.dagrank ≤ p.rank →
            IsRoot root dag p.addr
  | .parentCheck _ => True

theorem daoDests_dioSendDao_hybrid {dag : Dag} (h : dag.mop = Mop.hybrid) (p : Peer) :
    daoDests (dioSendDao dag p) =
      p.addr :: if 1 < p.rank then [dag.dodagid] else [] := by
  by_cases hrank : 1 < p.rank <;> simp [dioSendDao, h, Mop.hybrid, Mop.nonstoring,
    Mop.storingNoMulticast, Mop.storingMulticast, hrank, daoDests]

theorem daoDests_adoptNotice (dag : Dag) (src : In6Addr) : daoDests (dag.adoptNotice src) = [] := by
  cases hp : dag.parent with
  | none => simp [Dag.adoptNotice, hp, daoDests]
  | some p => by_cases haddr : p.addr = src <;> simp [Dag.adoptNotice, hp, haddr, daoDests]

/-- After an accepted DIO the DAOs go to the parent and, for a rank above 1, to
the DODAG's address; so the root is among them exactly for such a rank or such a
parent. -/
theorem rootGetsDao_iff_of_sent {root : In6Addr} {dag : Dag} {p : Peer}
    (hmop : dag.mop = Mop.hybrid) (hp : dag.parent = some p) :
    (dag.dodagid ∈ daoDests (dioSendDao dag p) ∨ ∃ q, dag.parent = some q ∧ q.addr = root) ↔
      (p.rank ≤ 1 → IsRoot root dag p.addr) := by
  rw [daoDests_dioSendDao_hybrid hmop]
  by_cases hrank : 1 < p.rank
  · simp [hrank, UInt16.not_le.mpr hrank]
  · simp [hrank, UInt16.not_lt.mp hrank, hp, IsRoot, or_comm, eq_comm]

variable {root : In6Addr} {iface : NodeConfig} {adaptiveEnabled : Bool}
  {node : Option Dag} {now : ℚ} {alloc : Alloc} {dio : Dio} {src : In6Addr} {dag : Dag}

/-- A DIO that is accepted leaves the DODAG `new` with the parent `p` and sends
the DAOs of `dioSendDao`. -/
theorem rootGetsDao_iff_of_accepted (ht : dioTarget now alloc iface node dio = some dag)
    {new : Dag} {p : Peer} {before : List Action}
    (hstep : dioUpdate iface.dagOps now alloc.peer dag src dio.dagrank =
      (new, before ++ dioSendDao new p))
    (hbefore : daoDests before = []) (hmop : new.mop = dag.mop)
    (hdodagid : new.dodagid = dag.dodagid) (hp : new.parent = some p) :
    RootGetsDao root iface adaptiveEnabled node (.dio now alloc dio src) ↔
      (dag.mop = Mop.hybrid → p.rank ≤ 1 → IsRoot root dag p.addr) := by
  unfold RootGetsDao
  rw [nodeStep_of_target ht, hstep]
  simp only [daoDests_append, hbefore, List.nil_append, Option.some.injEq, forall_eq', hmop]
  refine forall_congr' fun hhybrid => ?_
  have hnew : new.mop = Mop.hybrid := hmop.trans hhybrid
  have hsent : daoDests (dioSendDao new p) ≠ [] := by
    simp [daoDests_dioSendDao_hybrid hnew]
  have hroot : IsRoot root new p.addr ↔ IsRoot root dag p.addr := by simp [IsRoot, hdodagid]
  rw [forall_prop_of_true hsent, rootGetsDao_iff_of_sent hnew hp, hroot]

theorem rootGetsDao_of_silent (ht : dioTarget now alloc iface node dio = some dag)
    (hsilent : (dioUpdate iface.dagOps now alloc.peer dag src dio.dagrank).2 = []) :
    RootGetsDao root iface adaptiveEnabled node (.dio now alloc dio src) := by
  intro new hnew _ hsent
  rw [nodeStep_of_target ht, hsilent] at hsent
  exact absurd rfl hsent

/-- An adopted sender is the parent the DAOs go to. -/
theorem rootGetsDao_iff_of_adopts (ht : dioTarget now alloc iface node dio = some dag)
    (hadopts : dag.Adopts alloc.peer) :
    RootGetsDao root iface adaptiveEnabled node (.dio now alloc dio src) ↔
      (dag.mop = Mop.hybrid → dio.dagrank ≤ 1 → IsRoot root dag src) :=
  rootGetsDao_iff_of_accepted (p := ⟨src, dio.dagrank⟩) ht
    (dioUpdate_of_adopts hadopts iface.dagOps now src dio.dagrank)
    (by rw [daoDests_append, daoDests_adoptNotice]; rfl) rfl rfl rfl

/-- A valid parent stays the one the DAOs go to, if the rank is accepted. -/
theorem rootGetsDao_iff_of_valid (ht : dioTarget now alloc iface node dio = some dag)
    {p : Peer} (hp : dag.parent = some p) (hmax : p.rank ≠ uint16Max) :
    RootGetsDao root iface adaptiveEnabled node (.dio now alloc dio src) ↔
      (dag.mop = Mop.hybrid → dio.dagrank ≤ 1 → dio.dagrank ≤ p.rank →
        IsRoot root dag p.addr) := by
  have hupdate := dioUpdate_of_valid hp hmax iface.dagOps now alloc.peer src dio.dagrank
  by_cases hrank : p.rank < dio.dagrank
  · have hsilent : (dioUpdate iface.dagOps now alloc.peer dag src dio.dagrank).2 = [] := by
      simp [hupdate, hrank]
    simp [rootGetsDao_of_silent ht hsilent, UInt16.not_le.mpr hrank]
  · rw [if_neg hrank] at hupdate
    rw [rootGetsDao_iff_of_accepted (p := ⟨p.addr, dio.dagrank⟩) ht hupdate
      rfl (by simp [Dag.refresh, hrank]) (by simp [Dag.refresh, hrank])
      (by simp [Dag.refresh, hrank])]
    simp [UInt16.not_lt.mp hrank]

/-- The step lemma. -/
theorem rootGetsDao_iff_lowRank (e : NodeEvent) :
    RootGetsDao root iface adaptiveEnabled node e ↔ LowRankFromRoot root iface node e := by
  cases e with
  | parentCheck now =>
      refine ⟨fun _ => trivial, fun _ => ?_⟩
      intro new _ _ hsent
      cases node with
      | none => exact absurd rfl hsent
      | some dag => exact absurd (daoDests_parentCheckCb now adaptiveEnabled dag) hsent
  | dio now alloc dio src =>
      cases ht : dioTarget now alloc iface node dio with
      | none =>
          refine ⟨fun _ => by simp [LowRankFromRoot, ht], fun _ => ?_⟩
          intro new _ _ hsent
          simp [nodeStep_of_no_target ht, daoDests] at hsent
      | some dag =>
          simp only [LowRankFromRoot, ht, Option.some.injEq, forall_eq']
          rcases dioUpdate_cases dag alloc.peer with ⟨hp, hpeer⟩ | hadopts | ⟨p, hp, hmax⟩
          · have hsilent : (dioUpdate iface.dagOps now alloc.peer dag src dio.dagrank).2 = [] := by
              rw [hpeer, dioUpdate_of_no_peer hp]
            simp [rootGetsDao_of_silent ht hsilent, hp, hpeer, Dag.Adopts]
          · rw [rootGetsDao_iff_of_adopts ht hadopts]
            have hinvalid := dag.validParent_eq_none_iff.mp hadopts.1
            have hkept : ∀ p, dag.parent = some p → p.rank ≠ uint16Max →
                dio.dagrank ≤ p.rank → IsRoot root dag p.addr :=
              fun p hp hmax _ => absurd (hinvalid p hp) hmax
            constructor
            · intro h hmop hlow
              exact ⟨fun _ => h hmop hlow, hkept⟩
            · intro h hmop hlow
              exact (h hmop hlow).1 hadopts
          · rw [rootGetsDao_iff_of_valid ht hp hmax]
            have hnot : ¬ dag.Adopts alloc.peer := by
              simp [Dag.Adopts, Dag.validParent, hp, hmax]
            simp [hnot, hp, hmax]

/-- In a run of a hybrid node, every step that sends DAOs sends one to the root
exactly when every DIO meets `LowRankFromRoot`. -/
theorem rootGetsDao_iff (root : In6Addr) (iface : NodeConfig) (adaptiveEnabled : Bool)
    (es : List NodeEvent) :
    (hybridNode root iface adaptiveEnabled).Steps (RootGetsDao root iface adaptiveEnabled)
        none es ↔
      (hybridNode root iface adaptiveEnabled).Steps (LowRankFromRoot root iface) none es :=
  Machine.steps_congr (fun _ e => rootGetsDao_iff_lowRank e) none es

/-- A node joins under `fe80::2`, which has rank 2, and then hears the root. -/
def rootHeardLater : List NodeEvent :=
  [.dio 1 ⟨true, true⟩ (hybridDio 2) (linkLocal 2),
    .dio 2 ⟨true, true⟩ (hybridDio 1) (linkLocal 1)]

/-- The rank of the root is stored for `fe80::2`, and only `fe80::2` gets a DAO. -/
theorem rootHeardLater_hides :
    let M := hybridNode (linkLocal 1) (hybridNet.iface (linkLocal 9)) true
    M.Legal none rootHeardLater ∧
      (M.outputs none rootHeardLater).map daoDests =
        [[linkLocal 2, linkLocal 1], [linkLocal 2]] ∧
      ¬ M.Steps (RootGetsDao (linkLocal 1) (hybridNet.iface (linkLocal 9)) true) none
        rootHeardLater := by
  intro M
  have hdests : (M.outputs none rootHeardLater).map daoDests =
      [[linkLocal 2, linkLocal 1], [linkLocal 2]] := by decide +kernel
  refine ⟨⟨fun h => absurd h (by decide), fun _ => rfl, trivial⟩, hdests, ?_⟩
  rintro ⟨-, hsecond, -⟩
  have hsent : daoDests (nodeStep (hybridNet.iface (linkLocal 9)) true
      (M.next none (.dio 1 ⟨true, true⟩ (hybridDio 2) (linkLocal 2)))
      (.dio 2 ⟨true, true⟩ (hybridDio 1) (linkLocal 1))).2 =
        [linkLocal 2] := by decide +kernel
  obtain ⟨dag, hdag, hmop, hid, hparent⟩ : ∃ dag, M.run none rootHeardLater = some dag ∧
      dag.mop = Mop.hybrid ∧ dag.dodagid = linkLocal 1 ∧
        dag.parent = some ⟨linkLocal 2, 1⟩ := by
    refine ⟨(M.run none rootHeardLater).get (by decide +kernel), by simp, ?_, ?_, ?_⟩ <;>
      decide +kernel
  rcases hsecond dag hdag hmop (by simp [hsent]) with hroot | ⟨p, hp, haddr⟩
  · rw [hsent, hid] at hroot
    exact absurd hroot (by decide)
  · rw [hparent, Option.some.injEq] at hp
    subst hp
    exact absurd haddr (by decide)

end HyMRPL
