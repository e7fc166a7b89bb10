import HyMRPL.Network.Basic

/-!
# Whose rank is stored for the parent

The rank test of `process_dio` looks at the stored rank and not at the sender. So
a better rank of any neighbour is stored under the address of the parent, and a
worse rank of the parent itself is dropped. The stored rank is the last one heard
from the parent exactly in the runs where neither happens.

`HeardNode` adds to a node the rank last processed from each address.
-/

namespace HyMRPL

open Transition

/-- A node with the rank of the last DIO it processed from each address. -/
structure HeardNode where
  dag : Option Dag
  heard : In6Addr → Option UInt16

namespace HeardNode

/-- A DIO is processed when `process_dio` has a DODAG to work on. -/
def hear (iface : NodeConfig) (node : HeardNode) : NodeEvent → In6Addr → Option UInt16
  | .dio now alloc dio src =>
    match dioTarget now alloc iface node.dag dio with
    | some _ => Function.update node.heard src (some dio.dagrank)
    | none => node.heard
  | .parentCheck _ => node.heard

/-- A node that hears DIOs and checks its parent, from a start without a DODAG. -/
def machine (iface : NodeConfig) (adaptiveEnabled : Bool) :
    Machine HeardNode NodeEvent (List Action) where
  enabled _ _ := True
  next node e := ⟨(nodeStep iface adaptiveEnabled node.dag e).1, node.hear iface e⟩
  out node e := (nodeStep iface adaptiveEnabled node.dag e).2

def start : HeardNode := ⟨none, fun _ => none⟩

/-- The rank stored for a valid parent is the one last heard from it. -/
def RankOfParent (node : HeardNode) : Prop :=
  ∀ dag p, node.dag = some dag → dag.parent = some p → p.rank ≠ uint16Max →
    node.heard p.addr = some p.rank

/-- A DIO processed while the parent is valid does not come with a better rank
from another neighbour, nor with a worse rank from the parent. -/
def RankMatches (node : HeardNode) : NodeEvent → Prop
  | .dio _ _ dio src => ∀ dag p, node.dag = some dag → dag.myRank ≠ 1 →
      dag.parent = some p → p.rank ≠ uint16Max →
        (p.addr = src → dio.dagrank ≤ p.rank) ∧ (p.addr ≠ src → p.rank ≤ dio.dagrank)
  | .parentCheck _ => True

variable {iface : NodeConfig} {adaptiveEnabled : Bool} {node : HeardNode}

theorem rankOfParent_start : RankOfParent start := by
  intro dag p hdag
  simp [start] at hdag

theorem rankOfParent_iff_of_parent {dag : Dag} {p : Peer} (hdag : node.dag = some dag)
    (hp : dag.parent = some p) (hmax : p.rank ≠ uint16Max) :
    RankOfParent node ↔ node.heard p.addr = some p.rank := by
  constructor
  · intro h
    exact h dag p hdag hp hmax
  · intro h dag' p' hdag' hp' _
    obtain rfl := Option.some.inj (hdag.symm.trans hdag')
    obtain rfl := Option.some.inj (hp.symm.trans hp')
    exact h

theorem rankOfParent_parentCheck (h : RankOfParent node) (now : ℚ) :
    RankOfParent ((machine iface adaptiveEnabled).next node (.parentCheck now)) := by
  intro new p hdag hp hmax
  by_cases ht : ∃ dag, node.dag = some dag ∧ dag.TimedOut now
  · obtain ⟨dag, hnode, ht⟩ := ht
    obtain rfl : dag.invalidate = new := by
      simpa [machine, hnode, nodeStep_of_timedOut ht] using hdag
    exact absurd ((Dag.validParent_eq_none_iff _).mp dag.invalidate_validParent p hp) hmax
  · have hkept : node.dag = some new := by
      have hnone : ∀ dag, node.dag = some dag → ¬ dag.TimedOut now :=
        fun dag hnode htimeout => ht ⟨dag, hnode, htimeout⟩
      simpa [machine, nodeStep_of_not_timedOut hnone] using hdag
    exact h new p hkept hp hmax

section Dio

variable {now : ℚ} {alloc : Alloc} {dio : Dio} {src : In6Addr} {dag : Dag}

theorem next_dag_of_target (ht : dioTarget now alloc iface node.dag dio = some dag)
    (adaptiveEnabled : Bool) (src : In6Addr) :
    ((machine iface adaptiveEnabled).next node (.dio now alloc dio src)).dag =
      some (dioUpdate iface.dagOps now alloc.peer dag src dio.dagrank).1 := by
  simp [machine, nodeStep_of_target ht]

theorem next_heard_of_target (ht : dioTarget now alloc iface node.dag dio = some dag) :
    ((machine iface adaptiveEnabled).next node (.dio now alloc dio src)).heard =
      Function.update node.heard src (some dio.dagrank) := by
  simp [machine, hear, ht]

theorem next_of_no_target (ht : dioTarget now alloc iface node.dag dio = none) :
    (machine iface adaptiveEnabled).next node (.dio now alloc dio src) = node := by
  simp [machine, nodeStep_of_no_target ht, hear, ht]

/-- While the parent is valid, the step keeps the stored rank equal to the one
last heard exactly when it meets `RankMatches`. -/
theorem rankOfParent_refresh_iff (h : RankOfParent node) (hdag : node.dag = some dag)
    (hroot : dag.myRank ≠ 1) {p : Peer} (hp : dag.parent = some p)
    (hmax : p.rank ≠ uint16Max) :
    RankOfParent ((machine iface adaptiveEnabled).next node (.dio now alloc dio src)) ↔
      (p.addr = src → dio.dagrank ≤ p.rank) ∧ (p.addr ≠ src → p.rank ≤ dio.dagrank) := by
  have ht : dioTarget now alloc iface node.dag dio = some dag := by
    simp [dioTarget, hdag, hroot]
  have hold : node.heard p.addr = some p.rank := h dag p hdag hp hmax
  have hnext := next_dag_of_target ht adaptiveEnabled src
  rw [dioUpdate_of_valid hp hmax] at hnext
  rw [rankOfParent_iff_of_parent hnext (Dag.refresh_parent hp now src dio.dagrank)
    (Dag.refresh_rank_ne hmax dio.dagrank), next_heard_of_target ht]
  by_cases haddr : p.addr = src
  · -- The parent itself: its rank is stored unless it is worse.
    subst haddr
    by_cases hrank : p.rank < dio.dagrank
    · have hne : dio.dagrank ≠ p.rank := fun heq => UInt16.lt_irrefl _ (heq ▸ hrank)
      simp [hrank, hne, UInt16.not_le.mpr hrank]
    · simp [hrank, UInt16.not_lt.mp hrank]
  · -- Another neighbour: its rank is stored unless it is worse.
    by_cases hrank : p.rank < dio.dagrank
    · simp [haddr, hrank, hold, UInt16.le_of_lt hrank]
    · have hle : dio.dagrank ≤ p.rank := UInt16.not_lt.mp hrank
      have heq : p.rank ≤ dio.dagrank ↔ p.rank = dio.dagrank :=
        ⟨fun hge => UInt16.le_antisymm hge hle, fun heq => heq ▸ UInt16.le_refl _⟩
      simp [haddr, hrank, hold, heq]

/-- Without a valid parent, the step leaves no parent, or the sender with the rank
just heard from it. -/
theorem rankOfParent_dio_of_invalid
    (hinvalid : ∀ dag p, node.dag = some dag → dag.myRank ≠ 1 → dag.parent = some p →
      p.rank = uint16Max) (h : RankOfParent node) :
    RankOfParent ((machine iface adaptiveEnabled).next node (.dio now alloc dio src)) := by
  cases ht : dioTarget now alloc iface node.dag dio with
  | none => rwa [next_of_no_target ht]
  | some dag =>
      have hnext := next_dag_of_target ht adaptiveEnabled src
      have hnew : dag.validParent = none := by
        rw [Dag.validParent_eq_none_iff]
        intro p hp
        rcases dioTarget_cases ht with ⟨hdag, hroot⟩ | ⟨-, hnone, -⟩
        · exact hinvalid dag p hdag hroot hp
        · simp [hp] at hnone
      intro new q hdag hq hqmax
      rw [next_heard_of_target ht]
      rw [hnext] at hdag
      obtain rfl := Option.some.inj hdag
      rcases dioUpdate_cases dag alloc.peer with ⟨hp, hpeer⟩ | hadopts | ⟨p, hp, hmax⟩
      · simp [hpeer, dioUpdate_of_no_peer hp, hp] at hq
      · obtain rfl : ⟨src, dio.dagrank⟩ = q := by
          simpa [dioUpdate_of_adopts hadopts, Dag.adopt] using hq
        simp
      · exact absurd (dag.validParent_eq_none_iff.mp hnew p hp) hmax

end Dio

/-- The step lemma. -/
theorem rankOfParent_next_iff (h : RankOfParent node) (e : NodeEvent) :
    RankOfParent ((machine iface adaptiveEnabled).next node e) ↔ RankMatches node e := by
  cases e with
  | parentCheck now => exact ⟨fun _ => trivial, fun _ => rankOfParent_parentCheck h now⟩
  | dio now alloc dio src =>
      by_cases hvalid : ∃ dag p, node.dag = some dag ∧ dag.myRank ≠ 1 ∧
          dag.parent = some p ∧ p.rank ≠ uint16Max
      · obtain ⟨dag, p, hdag, hroot, hp, hmax⟩ := hvalid
        rw [rankOfParent_refresh_iff h hdag hroot hp hmax]
        constructor
        · intro hmatch dag' p' hdag' _ hp' _
          obtain rfl := Option.some.inj (hdag.symm.trans hdag')
          obtain rfl := Option.some.inj (hp.symm.trans hp')
          exact hmatch
        · intro hmatch
          exact hmatch dag p hdag hroot hp hmax
      · have hinvalid : ∀ dag p, node.dag = some dag → dag.myRank ≠ 1 →
            dag.parent = some p → p.rank = uint16Max := by
          intro dag p hdag hroot hp
          by_contra hmax
          exact hvalid ⟨dag, p, hdag, hroot, hp, hmax⟩
        refine ⟨fun _ => ?_, fun _ => rankOfParent_dio_of_invalid hinvalid h⟩
        intro dag p hdag hroot hp hmax
        exact absurd (hinvalid dag p hdag hroot hp) hmax

/-- In a run, the stored parent rank is always the one last heard from the parent
exactly when every DIO meets `RankMatches`. -/
theorem rankOfParent_iff (iface : NodeConfig) (adaptiveEnabled : Bool)
    (es : List NodeEvent) :
    (machine iface adaptiveEnabled).Always RankOfParent start es ↔
      (machine iface adaptiveEnabled).Steps RankMatches start es := by
  apply Machine.always_iff_steps_of_enabled (I := RankOfParent)
  · exact fun _ _ => trivial
  · exact fun _ h => h
  · exact fun _ e h hC => (rankOfParent_next_iff h e).mpr hC
  · exact fun _ e h hC hnew => hC ((rankOfParent_next_iff h e).mp hnew)
  · exact rankOfParent_start

/-- A parent of rank 5, and a neighbour of rank 2 that is heard afterwards. -/
def betterNeighbour : List NodeEvent :=
  [.dio 1 ⟨true, true⟩ (hybridDio 5) (linkLocal 2),
    .dio 2 ⟨true, true⟩ (hybridDio 2) (linkLocal 3)]

/-- The parent stays `fe80::2`, which advertised rank 5, and is stored with rank 2. -/
theorem betterNeighbour_overwrites :
    let node := (machine (hybridNet.iface (linkLocal 9)) true).run start betterNeighbour
    node.dag.bind Dag.parent = some ⟨linkLocal 2, 2⟩ ∧
      node.heard (linkLocal 2) = some 5 ∧ ¬ RankOfParent node := by
  intro node
  have hparent : node.dag.bind Dag.parent = some ⟨linkLocal 2, 2⟩ := by decide +kernel
  have hheard : node.heard (linkLocal 2) = some 5 := by decide +kernel
  refine ⟨hparent, hheard, fun h => ?_⟩
  obtain ⟨dag, hdag, hp⟩ := Option.bind_eq_some_iff.mp hparent
  have hlast := h dag ⟨linkLocal 2, 2⟩ hdag hp (by decide)
  simp [hheard] at hlast

end HeardNode

end HyMRPL
