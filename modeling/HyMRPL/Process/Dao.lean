import HyMRPL.Foundation.Tlv
import HyMRPL.Process.Action

/-!
# Processing a DAO

`processDao` follows `process_dao`. The message is a received packet, and the walk
keeps the offsets of the transit option and of the targets where the source keeps
pointers. The lookup of the DODAG is a parameter, and so are the functions of
`DaoCalls`. The result is `none` where the function returns before it has a DODAG,
and otherwise the new contents of the DODAG with the calls made.
-/

namespace HyMRPL

open Tlv

/-- `MAX_DAO_TARGETS` -/
def maxDaoTargets : ℕ := 16

/-- `RPL_DAO_RPLTARGET` -/
def rplDaoRplTarget : UInt8 := 5

/-- `RPL_DAO_TRANSITINFO` -/
def rplDaoTransitInfo : UInt8 := 6

theorem transitInfo_ne_rplTarget : rplDaoTransitInfo ≠ rplDaoRplTarget := by decide

/-- What a DAO asks of `dag.c` and `tree.c`: the children after
`dag_lookup_child_or_create`, and whether `t_insert` returns a node. -/
structure DaoCalls where
  dagLookupChildOrCreate : List Child → In6Addr → In6Addr → List Child
  tInsertOk : List TInsert → TInsert → Bool

/-- The variables of the option walk. -/
structure DaoWalk where
  childs : List Child
  transit : Option ℕ
  targets : List ℕ

/-- `&target->rpl_dao_prefix` of the target option at an offset. -/
def daoPrefixAt (msg : Packet) (target : ℕ) : In6Addr := msg.field 16 (target + 4)

/-- `&transit->parent` of the transit option at an offset. -/
def daoParentAt (msg : Packet) (transit : ℕ) : In6Addr := msg.field 16 (transit + 6)

/-- The `switch` of the option walk, for the option at the offset `p`. -/
def daoOption (calls : DaoCalls) (msg : Packet) (src : In6Addr) (p : ℕ) (w : DaoWalk) :
    DaoWalk :=
  if msg.byte p = rplDaoTransitInfo then { w with transit := some p }
  else if msg.byte p = rplDaoRplTarget then
    { w with
      childs := calls.dagLookupChildOrCreate w.childs (daoPrefixAt msg p) src
      targets := if w.targets.length < maxDaoTargets then w.targets ++ [p] else w.targets }
  else w

/-- The loop that inserts the collected targets into the source routing tree. -/
def daoInsertTargets (calls : DaoCalls) (src parent : In6Addr) (dag : Dag) :
    List In6Addr → Dag × List Action
  | [] => (dag, [])
  | target :: targets =>
    let call : TInsert := ⟨parent, src, target⟩
    let routes :=
      if calls.tInsertOk dag.root call then [.dagInsertSourceRoutes dag.ifindex target] else []
    let (dag, acts) :=
      daoInsertTargets calls src parent { dag with root := dag.root ++ [call] } targets
    (dag, .tInsert call :: routes ++ acts)

/-- The source routing branch: all collected targets, if there was a transit option. -/
def daoSourceRoutes (calls : DaoCalls) (msg : Packet) (src : In6Addr) (w : DaoWalk) (dag : Dag) :
    Dag × List Action :=
  match w.transit with
  | some transit =>
    daoInsertTargets calls src (daoParentAt msg transit) dag (w.targets.map (daoPrefixAt msg))
  | none => (dag, [])

/-- The storing branch: a route to each child. -/
def daoViaRoutes (dag : Dag) : List Action :=
  dag.childs.map fun child => .nlAddRouteVia dag.ifindex child.addr child.source

/-- The `switch` on the mode of operation. -/
def daoRoutes (calls : DaoCalls) (msg : Packet) (src : In6Addr) (w : DaoWalk) (dag : Dag) :
    Dag × List Action :=
  if dag.mop = Mop.storingNoMulticast ∨ dag.mop = Mop.storingMulticast then
    (dag, daoViaRoutes dag)
  else if dag.mop = Mop.nonstoring then daoSourceRoutes calls msg src w dag
  else if dag.mop = Mop.hybrid then
    if dag.myRank = 1 then daoSourceRoutes calls msg src w dag
    else
      match dag.nodeClass with
      | .classS => (dag, daoViaRoutes dag)
      | .classN => (dag, [])
  else (dag, [])

/-- `process_dao`. -/
def processDao (calls : DaoCalls) (dagLookup : UInt8 → In6Addr → Option Dag) (msg : Packet)
    (src : In6Addr) : Option (Dag × List Action) :=
  -- `sizeof(struct nd_rpl_dao)` is 20.
  if msg.bytes.length < 20 then none
  else
    match dagLookup (msg.byte 0) (msg.field 16 4) with
    | none => none
    | some dag =>
      let (w, complete) := walk msg (daoOption calls msg src) 20 (msg.bytes.length - 20)
        { childs := dag.childs, transit := none, targets := [] }
      let dag := { dag with childs := w.childs }
      if complete = false then some (dag, [])
      else
        let (dag, acts) := daoRoutes calls msg src w dag
        some (dag, acts ++ [.sendDaoAck src])

/-- `process_daoack`: the DODAG is looked up, and no call is made. -/
def processDaoack (dagLookup : UInt8 → In6Addr → Option Dag) (msg : Packet) :
    Option (Dag × List Action) :=
  -- `sizeof(struct nd_rpl_daoack)` is 20.
  if msg.bytes.length < 20 then none
  else
    match dagLookup (msg.byte 0) (msg.field 16 4) with
    | none => none
    | some dag => some (dag, [])

/-- The calls of `t_insert` for some targets. -/
def insertCalls (src parent : In6Addr) (targets : List In6Addr) : List TInsert :=
  targets.map fun target => ⟨parent, src, target⟩

/-- The insertion loop calls `t_insert` for each target, in order, and changes nothing
but the tree. -/
theorem daoInsertTargets_spec (calls : DaoCalls) (src parent : In6Addr) (dag : Dag)
    (targets : List In6Addr) :
    (daoInsertTargets calls src parent dag targets).1 =
        { dag with root := dag.root ++ insertCalls src parent targets } ∧
      tInserts (daoInsertTargets calls src parent dag targets).2 =
        insertCalls src parent targets := by
  induction targets generalizing dag with
  | nil => simp [daoInsertTargets, insertCalls, tInserts]
  | cons target targets ih =>
      obtain ⟨hdag, hacts⟩ := ih { dag with root := dag.root ++ [⟨parent, src, target⟩] }
      constructor
      · simp [daoInsertTargets, hdag, insertCalls]
      · have hcalls : tInserts (daoInsertTargets calls src parent dag (target :: targets)).2 =
            ⟨parent, src, target⟩ :: tInserts (daoInsertTargets calls src parent
              { dag with root := dag.root ++ [⟨parent, src, target⟩] } targets).2 := by
          cases hok : calls.tInsertOk dag.root ⟨parent, src, target⟩ <;>
            simp [daoInsertTargets, hok, tInserts]
        rw [hcalls, hacts]
        rfl

end HyMRPL
