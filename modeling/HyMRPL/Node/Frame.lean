import HyMRPL.Node.Step

/-!
# What a node's events leave alone

DIOs and checks of the parent write three fields of a DODAG: the parent, the rank and
the timestamp. A node without a DODAG joins with what the DIO says and what its
interface is configured with. The address of a parent comes from the sender of a DIO.
-/

namespace HyMRPL

/-- The DODAG with other values in the fields that DIOs and checks write. -/
def Dag.track (dag : Dag) (parent : Option Peer) (rank : UInt16) (seen : ℚ) : Dag :=
  { dag with parent := parent, myRank := rank, parentLastSeen := seen }

/-- The DODAG that a node creates for a DIO. -/
def joinedDag (iface : NodeConfig) (now : ℚ) (dio : Dio) (pfx : In6Prefix) : Dag :=
  { newDag iface.dagOps.trickleT iface.dagOps.self iface.ifindex now dio.dagid uint16Max
      dio.version dio.mop pfx with
    nodeClass := iface.nodeClass }

theorem Dag.eq_track (dag : Dag) : dag = dag.track dag.parent dag.myRank dag.parentLastSeen := rfl

theorem dioUpdate_track (ops : DagOps) (now : ℚ) (peerOk : Bool) (dag : Dag) (src : In6Addr)
    (rank : UInt16) :
    ∃ parent myRank seen,
      (dioUpdate ops now peerOk dag src rank).1 = dag.track parent myRank seen := by
  rcases dioUpdate_cases dag peerOk with ⟨hp, hpeer⟩ | hadopts | ⟨p, hp, hmax⟩
  · rw [hpeer, dioUpdate_of_no_peer hp]
    exact ⟨_, _, _, dag.eq_track⟩
  · rw [dioUpdate_of_adopts hadopts]
    exact ⟨_, _, _, rfl⟩
  · rw [dioUpdate_of_valid hp hmax]
    by_cases hrank : p.rank < rank
    · exact ⟨dag.parent, dag.myRank, if p.addr = src then now else dag.parentLastSeen,
        by simp [Dag.refresh, hrank, Dag.track]⟩
    · exact ⟨some ⟨p.addr, rank⟩, rank + 1, if p.addr = src then now else dag.parentLastSeen,
        by simp [Dag.refresh, hrank, Dag.track]⟩

theorem parentCheckCb_track (now : ℚ) (adaptiveEnabled : Bool) (dag : Dag) :
    ∃ parent myRank seen,
      (parentCheckCb now adaptiveEnabled dag).1 = dag.track parent myRank seen := by
  by_cases h : dag.TimedOut now
  · rw [parentCheckCb_of_timedOut h]
    exact ⟨_, _, _, rfl⟩
  · rw [parentCheckCb_of_not_timedOut h]
    exact ⟨_, _, _, dag.eq_track⟩

section NodeStep

variable {iface : NodeConfig} {adaptiveEnabled : Bool} {dag : Dag}

/-- A node that has joined stays in its DODAG. -/
theorem nodeStep_track (iface : NodeConfig) (adaptiveEnabled : Bool) (dag : Dag) (e : NodeEvent) :
    ∃ parent myRank seen,
      (nodeStep iface adaptiveEnabled (some dag) e).1 = some (dag.track parent myRank seen) := by
  cases e with
  | parentCheck now =>
      obtain ⟨parent, myRank, seen, htrack⟩ := parentCheckCb_track now adaptiveEnabled dag
      exact ⟨parent, myRank, seen, by simp [nodeStep, htrack]⟩
  | dio now alloc dio src =>
      cases ht : dioTarget now alloc iface (some dag) dio with
      | none =>
          rw [nodeStep_of_no_target ht]
          exact ⟨_, _, _, congrArg some dag.eq_track⟩
      | some target =>
          obtain rfl : dag = target := by
            rcases dioTarget_cases ht with ⟨hdag, -⟩ | ⟨hnone, -⟩
            · exact Option.some.inj hdag
            · simp at hnone
          obtain ⟨parent, myRank, seen, htrack⟩ :=
            dioUpdate_track iface.dagOps now alloc.peer dag src dio.dagrank
          rw [nodeStep_of_target ht, htrack]
          exact ⟨_, _, _, rfl⟩

/-- A node joins by a DIO with a prefix. -/
theorem nodeStep_join {e : NodeEvent} {new : Dag}
    (h : (nodeStep iface adaptiveEnabled none e).1 = some new) :
    ∃ now alloc dio src pfx parent myRank seen, e = .dio now alloc dio src ∧
      dio.dest = some pfx ∧
        dioTarget now alloc iface none dio = some (joinedDag iface now dio pfx) ∧
        new = (joinedDag iface now dio pfx).track parent myRank seen := by
  cases e with
  | parentCheck now => exact nomatch h
  | dio now alloc dio src =>
      cases hdest : dio.dest with
      | none => simp [nodeStep, processDio, hdest] at h
      | some pfx =>
          cases halloc : alloc.dag with
          | false => simp [nodeStep, processDio, hdest, halloc] at h
          | true =>
              have ht : dioTarget now alloc iface none dio =
                  some (joinedDag iface now dio pfx) := by
                simp [dioTarget, hdest, halloc, joinedDag]
              obtain ⟨parent, myRank, seen, htrack⟩ :=
                dioUpdate_track iface.dagOps now alloc.peer (joinedDag iface now dio pfx) src
                  dio.dagrank
              rw [nodeStep_of_target ht, htrack, Option.some.injEq] at h
              exact ⟨now, alloc, dio, src, pfx, parent, myRank, seen, rfl, hdest, ht, h.symm⟩

/-- The address of a parent was there before, or it is that of the sender. -/
theorem dioUpdate_parent_addr {ops : DagOps} {now : ℚ} {peerOk : Bool} {src : In6Addr}
    {rank : UInt16} {p : Peer}
    (h : (dioUpdate ops now peerOk dag src rank).1.parent = some p) :
    p.addr = src ∨ ∃ q, dag.parent = some q ∧ q.addr = p.addr := by
  rcases dioUpdate_cases dag peerOk with ⟨hp, hpeer⟩ | hadopts | ⟨q, hq, hmax⟩
  · rw [hpeer, dioUpdate_of_no_peer hp] at h
    exact Or.inr ⟨p, h, rfl⟩
  · rw [dioUpdate_of_adopts hadopts] at h
    obtain rfl : ⟨src, rank⟩ = p := Option.some.inj h
    exact Or.inl rfl
  · rw [dioUpdate_of_valid hq hmax, Dag.refresh_parent hq] at h
    obtain rfl := Option.some.inj h
    exact Or.inr ⟨q, hq, rfl⟩

theorem parentCheckCb_parent_addr {now : ℚ} {p : Peer}
    (h : (parentCheckCb now adaptiveEnabled dag).1.parent = some p) :
    ∃ q, dag.parent = some q ∧ q.addr = p.addr := by
  by_cases ht : dag.TimedOut now
  · rw [parentCheckCb_of_timedOut ht] at h
    obtain ⟨q, hq, rfl⟩ := Option.map_eq_some_iff.mp h
    exact ⟨q, hq, rfl⟩
  · rw [parentCheckCb_of_not_timedOut ht] at h
    exact ⟨p, h, rfl⟩

/-- A node has the parent that it had, or the sender of a DIO. -/
theorem nodeStep_parent_addr {node : Option Dag} {e : NodeEvent} {new : Dag} {p : Peer}
    (h : (nodeStep iface adaptiveEnabled node e).1 = some new) (hp : new.parent = some p) :
    (∃ now alloc dio, e = .dio now alloc dio p.addr) ∨
      ∃ dag q, node = some dag ∧ dag.parent = some q ∧ q.addr = p.addr := by
  cases e with
  | parentCheck now =>
      cases node with
      | none => exact nomatch h
      | some dag =>
          obtain rfl := Option.some.inj h
          obtain ⟨q, hq, haddr⟩ := parentCheckCb_parent_addr hp
          exact Or.inr ⟨dag, q, rfl, hq, haddr⟩
  | dio now alloc dio src =>
      cases ht : dioTarget now alloc iface node dio with
      | none =>
          rw [nodeStep_of_no_target ht] at h
          exact Or.inr ⟨new, p, h, hp, rfl⟩
      | some dag =>
          rw [nodeStep_of_target ht] at h
          obtain rfl := Option.some.inj h
          rcases dioUpdate_parent_addr hp with rfl | ⟨q, hq, haddr⟩
          · exact Or.inl ⟨now, alloc, dio, rfl⟩
          · rcases dioTarget_cases ht with ⟨hnode, -⟩ | ⟨-, hnone, -⟩
            · exact Or.inr ⟨dag, q, hnode, hq, haddr⟩
            · simp [hq] at hnone

end NodeStep

end HyMRPL
