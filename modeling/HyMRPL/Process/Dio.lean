import HyMRPL.Process.Action

/-!
# Processing a DIO

`processDio` follows `process_dio` from the lookup of the DODAG on. `Dio` holds
the fields that the function reads; the prefix option of a malformed message is
`none`. The lookup `dag_lookup` is a parameter. The result is `none` where the
function returns without a DODAG to work on, and otherwise the new contents of
the DODAG with the calls made.

`dioUpdate` is the part after the DODAG is found or created. `dioUpdate_cases`
lists all it can do; later modules use that list and never unfold it.
-/

namespace HyMRPL

/-- The fields of `struct nd_rpl_dio` and of the prefix option that follows it. -/
structure Dio where
  instanceid : UInt8
  version : UInt8
  dagrank : UInt16
  mop : UInt8
  dagid : In6Addr
  dest : Option In6Prefix
  deriving DecidableEq

/-- Whether the allocations in `dag_create` and `dag_peer_create` succeed. -/
structure Alloc where
  dag : Bool
  peer : Bool

/-- What `process_dio` and `dag_create` take from the interface. -/
structure NodeConfig where
  ifindex : UInt32
  nodeClass : NodeClass
  dagOps : DagOps

/-- The DAOs sent at the end of `process_dio`, by mode of operation. -/
def dioSendDao (dag : Dag) (parent : Peer) : List Action :=
  if dag.mop = Mop.storingNoMulticast ∨ dag.mop = Mop.storingMulticast then
    [.sendDao parent.addr, .adaptiveNotifyDaoSent]
  else if dag.mop = Mop.nonstoring then
    [.sendDao dag.dodagid, .adaptiveNotifyDaoSent]
  else if dag.mop = Mop.hybrid then
    .sendDao parent.addr ::
      (if 1 < parent.rank then [.sendDao dag.dodagid] else []) ++
        [.adaptiveNotifyDaoSent]
  else []

/-- The liveness part: refresh the timestamp when the sender is the parent, adopt
the sender when the parent is invalidated. Returns the parent, the timestamp and
the calls. -/
def dioTrackParent (ops : DagOps) (now : ℚ) (src : In6Addr) (seen : ℚ) (parent : Peer) :
    Peer × ℚ × List Action :=
  if ops.dagIsPeer parent src then (parent, now, [])
  else if parent.rank = uint16Max then
    (⟨src, uint16Max⟩, now, [.adaptiveNotifyParentChange src])
  else (parent, seen, [])

/-- `process_dio` once the DODAG is known: create the parent if there is none,
track it, drop a worse rank, else store the rank and answer with DAOs. -/
def dioUpdate (ops : DagOps) (now : ℚ) (peerOk : Bool) (dag : Dag) (src : In6Addr)
    (rank : UInt16) : Dag × List Action :=
  let parent? :=
    match dag.parent with
    | some p => some p
    | none => if peerOk then some (ops.dagPeerCreate src) else none
  match parent? with
  | none => (dag, [])
  | some p =>
    let (p, seen, acts) := dioTrackParent ops now src dag.parentLastSeen p
    let dag := { dag with parent := some p, parentLastSeen := seen }
    if p.rank < rank then (dag, acts)
    else
      -- `my_rank` is a `uint16_t`, so the sum wraps.
      let dag := { dag with parent := some { p with rank := rank }, myRank := rank + 1 }
      (dag, acts ++ [.nlAddRouteDefault dag.ifindex p.addr, .dagProcessDio] ++
        dioSendDao dag { p with rank := rank })

/-- `process_dio`. -/
def processDio (now : ℚ) (alloc : Alloc) (iface : NodeConfig)
    (dagLookup : UInt8 → In6Addr → Option Dag) (dio : Dio) (src : In6Addr) :
    Option (Dag × List Action) :=
  match dagLookup dio.instanceid dio.dagid with
  | some dag =>
    if dag.myRank = 1 then none
    else some (dioUpdate iface.dagOps now alloc.peer dag src dio.dagrank)
  | none =>
    match dio.dest with
    | none => none
    | some pfx =>
      if alloc.dag then
        let dag := iface.dagOps.dagCreate iface.ifindex now dio.dagid uint16Max
          dio.version dio.mop pfx
        some (dioUpdate iface.dagOps now alloc.peer { dag with nodeClass := iface.nodeClass } src
          dio.dagrank)
      else none

/-- A node without a valid parent is about to take the sender of a DIO as its
parent: a peer record exists or can be allocated. -/
def Dag.Adopts (dag : Dag) (peerOk : Bool) : Prop :=
  dag.validParent = none ∧ (dag.parent = none → peerOk = true)

instance (dag : Dag) (peerOk : Bool) : Decidable (dag.Adopts peerOk) :=
  inferInstanceAs (Decidable (_ ∧ _))

/-- What an adoption leaves behind: the sender with its rank. -/
def Dag.adopt (dag : Dag) (now : ℚ) (src : In6Addr) (rank : UInt16) : Dag :=
  { dag with parent := some ⟨src, rank⟩, myRank := rank + 1, parentLastSeen := now }

/-- What a DIO does to a node whose parent `p` is valid: the rank is stored if it
is not worse, whoever sent it, and the address stays. -/
def Dag.refresh (dag : Dag) (now : ℚ) (p : Peer) (src : In6Addr) (rank : UInt16) : Dag :=
  let seen := if p.addr = src then now else dag.parentLastSeen
  if p.rank < rank then { dag with parentLastSeen := seen }
  else { dag with parent := some ⟨p.addr, rank⟩, myRank := rank + 1, parentLastSeen := seen }

/-- The adaptive engine is told of an adoption that replaces another address. -/
def Dag.adoptNotice (dag : Dag) (src : In6Addr) : List Action :=
  match dag.parent with
  | some p => if p.addr = src then [] else [.adaptiveNotifyParentChange src]
  | none => []

/-- Nothing is above `UINT16_MAX`. -/
theorem not_uint16Max_lt (rank : UInt16) : ¬ uint16Max < rank := by
  simpa [uint16Max, UInt16.lt_iff_toNat_lt] using Nat.le_of_lt_succ rank.toNat_lt

theorem ne_uint16Max_of_not_lt {a b : UInt16} (h : ¬ a < b) (ha : a ≠ uint16Max) :
    b ≠ uint16Max := by
  rintro rfl
  exact ha (UInt16.le_antisymm (UInt16.not_lt.mp (not_uint16Max_lt a)) (UInt16.not_lt.mp h))

/-- A refreshed parent keeps its address; its rank never gets larger. -/
theorem Dag.refresh_parent {dag : Dag} {p : Peer} (hp : dag.parent = some p) (now : ℚ)
    (src : In6Addr) (rank : UInt16) :
    (dag.refresh now p src rank).parent =
      some ⟨p.addr, if p.rank < rank then p.rank else rank⟩ := by
  by_cases hrank : p.rank < rank <;> simp [refresh, hrank, hp]

theorem Dag.refresh_rank_ne {p : Peer} (hmax : p.rank ≠ uint16Max) (rank : UInt16) :
    (if p.rank < rank then p.rank else rank) ≠ uint16Max := by
  by_cases hrank : p.rank < rank
  · simpa [hrank] using hmax
  · simpa [hrank] using ne_uint16Max_of_not_lt hrank hmax

theorem dioUpdate_of_no_peer {dag : Dag} (hp : dag.parent = none) (ops : DagOps) (now : ℚ)
    (src : In6Addr) (rank : UInt16) :
    dioUpdate ops now false dag src rank = (dag, []) := by
  simp [dioUpdate, hp]

/-- Without a valid parent any rank passes the test, since it is compared with
`UINT16_MAX`. -/
theorem dioUpdate_of_adopts {dag : Dag} {peerOk : Bool} (h : dag.Adopts peerOk)
    (ops : DagOps) (now : ℚ) (src : In6Addr) (rank : UInt16) :
    dioUpdate ops now peerOk dag src rank =
      (dag.adopt now src rank,
        dag.adoptNotice src ++ [.nlAddRouteDefault dag.ifindex src, .dagProcessDio] ++
          dioSendDao (dag.adopt now src rank) ⟨src, rank⟩) := by
  obtain ⟨hinvalid, hpeer⟩ := h
  have hrank := not_uint16Max_lt rank
  cases hp : dag.parent with
  | none =>
      simp [dioUpdate, hp, hpeer hp, dioTrackParent, ops.dagIsPeer_iff, ops.dagPeerCreate_eq, hrank,
        Dag.adopt, Dag.adoptNotice]
  | some p =>
      have hmax : p.rank = uint16Max := (dag.validParent_eq_none_iff.mp hinvalid) p hp
      by_cases haddr : p.addr = src
      · simp [dioUpdate, hp, dioTrackParent, ops.dagIsPeer_iff, haddr, hmax, hrank, Dag.adopt,
          Dag.adoptNotice]
      · simp [dioUpdate, hp, dioTrackParent, ops.dagIsPeer_iff, haddr, hmax, hrank, Dag.adopt,
          Dag.adoptNotice]

theorem dioUpdate_of_valid {dag : Dag} {p : Peer} (hp : dag.parent = some p)
    (hmax : p.rank ≠ uint16Max) (ops : DagOps) (now : ℚ) (peerOk : Bool) (src : In6Addr)
    (rank : UInt16) :
    dioUpdate ops now peerOk dag src rank =
      (dag.refresh now p src rank,
        if p.rank < rank then []
        else [.nlAddRouteDefault dag.ifindex p.addr, .dagProcessDio] ++
          dioSendDao (dag.refresh now p src rank) ⟨p.addr, rank⟩) := by
  by_cases haddr : p.addr = src <;> by_cases hrank : p.rank < rank <;>
    simp [dioUpdate, hp, dioTrackParent, ops.dagIsPeer_iff, haddr, hmax, hrank, Dag.refresh]

/-- All that `dioUpdate` can do: nothing for want of memory, adopt the sender, or
refresh a valid parent. -/
theorem dioUpdate_cases (dag : Dag) (peerOk : Bool) :
    (dag.parent = none ∧ peerOk = false) ∨ dag.Adopts peerOk ∨
      ∃ p, dag.parent = some p ∧ p.rank ≠ uint16Max := by
  cases hp : dag.parent with
  | none =>
      cases peerOk with
      | false => exact Or.inl ⟨rfl, rfl⟩
      | true => exact Or.inr (Or.inl ⟨by simp [Dag.validParent, hp], fun _ => rfl⟩)
  | some p =>
      by_cases hmax : p.rank = uint16Max
      · exact Or.inr (Or.inl ⟨by simp [Dag.validParent, hp, hmax], by simp [hp]⟩)
      · exact Or.inr (Or.inr ⟨p, rfl, hmax⟩)

end HyMRPL
