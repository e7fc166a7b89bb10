import HyMRPL.Foundation.CDouble

/-!
# The data model of the daemon

The structures of `dag.h` and `config.h`, with the fields that the modelled
functions read or write. Timestamps (`ev_tstamp`) are rationals, but `trickle_t` may be
read from a file, and is any `double`. A node of the network is named by its address.

`dag.c` is not part of the repository. The functions of it that `process_dio` calls are
the parameter `DagOps`: a peer starts with the address it was heard from and the rank
`UINT16_MAX`, and is recognised by its address.
-/

namespace HyMRPL

/-- `struct in6_addr`. -/
abbrev In6Addr := Vector UInt8 16

/-- `struct in6_prefix`. -/
structure In6Prefix where
  len : UInt8
  addr : In6Addr
  deriving DecidableEq

/-- `HYMRPL_CLASS_S` and `HYMRPL_CLASS_N`. -/
inductive NodeClass
  | classS
  | classN
  deriving DecidableEq

/-- `UINT16_MAX`, the rank of an invalidated parent and of a node without one. -/
def uint16Max : UInt16 := 65535

namespace Mop

/-- `RPL_DIO_NONSTORING` -/
def nonstoring : UInt8 := 0x1

/-- `RPL_DIO_STORING_NO_MULTICAST` -/
def storingNoMulticast : UInt8 := 0x2

/-- `RPL_DIO_STORING_MULTICAST` -/
def storingMulticast : UInt8 := 0x3

/-- `RPL_DIO_HYBRID` -/
def hybrid : UInt8 := 0x6

end Mop

/-- `struct peer`. -/
structure Peer where
  addr : In6Addr
  rank : UInt16
  deriving DecidableEq

/-- `struct child`: a target and the neighbour its DAO came from. -/
structure Child where
  addr : In6Addr
  source : In6Addr
  deriving DecidableEq

/-- One call `t_insert(&dag->root, parent, from, target)`. `tree.c` is outside
the repository, so the source routing tree is the list of the calls made. -/
structure TInsert where
  parent : In6Addr
  source : In6Addr
  target : In6Addr
  deriving DecidableEq

/-- `struct dag`. -/
structure Dag where
  ifindex : UInt32
  version : UInt8
  dodagid : In6Addr
  mop : UInt8
  nodeClass : NodeClass
  root : List TInsert
  dest : In6Prefix
  myRank : UInt16
  parent : Option Peer
  self : In6Addr
  childs : List Child
  trickleT : CDouble
  parentLastSeen : ℚ
  deriving DecidableEq

/-- `struct rpl`: the DODAGs of one RPL instance. -/
structure Rpl where
  instanceId : UInt8
  dags : List Dag
  deriving DecidableEq

/-- `struct iface`. -/
structure Iface where
  ifindex : UInt32
  dodagRoot : Bool
  nodeClass : NodeClass
  rpls : List Rpl
  deriving DecidableEq

/-- A new DODAG: what `dag_init` sets, with the class and the timestamp that `dag.c.patch`
adds to it, and without a parent, children and routes. -/
def newDag (trickleT : ℚ) (self : In6Addr) (ifindex : UInt32) (now : ℚ) (dodagid : In6Addr)
    (myRank : UInt16) (version mop : UInt8) (dest : In6Prefix) : Dag where
  ifindex := ifindex
  version := version
  dodagid := dodagid
  mop := mop
  nodeClass := .classS
  root := []
  dest := dest
  myRank := myRank
  parent := none
  self := self
  childs := []
  trickleT := trickleT
  parentLastSeen := now

/-- The functions of `dag.c` that `process_dio` calls, with what it relies on. The trickle
period and the node's own address are put in by `dag_create` itself. -/
structure DagOps where
  trickleT : ℚ
  self : In6Addr
  dagCreate : UInt32 → ℚ → In6Addr → UInt16 → UInt8 → UInt8 → In6Prefix → Dag
  dagPeerCreate : In6Addr → Peer
  dagIsPeer : Peer → In6Addr → Bool
  dagCreate_eq : dagCreate = newDag trickleT self
  dagPeerCreate_eq : ∀ addr, dagPeerCreate addr = ⟨addr, uint16Max⟩
  dagIsPeer_iff : ∀ peer addr, dagIsPeer peer addr = true ↔ peer.addr = addr

/-- Functions that behave in this way. -/
def sampleDagOps (trickleT : ℚ) (self : In6Addr) : DagOps where
  trickleT := trickleT
  self := self
  dagCreate := newDag trickleT self
  dagPeerCreate addr := ⟨addr, uint16Max⟩
  dagIsPeer peer addr := peer.addr = addr
  dagCreate_eq := rfl
  dagPeerCreate_eq _ := rfl
  dagIsPeer_iff _ _ := decide_eq_true_iff

/-- The address of the parent, when it is set and not invalidated. -/
def Dag.validParent (dag : Dag) : Option In6Addr :=
  match dag.parent with
  | some p => if p.rank = uint16Max then none else some p.addr
  | none => none

theorem Dag.validParent_eq_some_iff (dag : Dag) (a : In6Addr) :
    dag.validParent = some a ↔
      ∃ p, dag.parent = some p ∧ p.rank ≠ uint16Max ∧ p.addr = a := by
  cases h : dag.parent with
  | none => simp [validParent, h]
  | some p => simp [validParent, h]

theorem Dag.validParent_eq_none_iff (dag : Dag) :
    dag.validParent = none ↔ ∀ p, dag.parent = some p → p.rank = uint16Max := by
  cases h : dag.parent with
  | none => simp [validParent, h]
  | some p => simp [validParent, h]

end HyMRPL
