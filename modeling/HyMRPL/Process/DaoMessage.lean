import HyMRPL.Process.Dao

/-!
# Well-formed DAOs

A well-formed DAO is a header and a sequence of options, in which every target and
every transit option has room for its fields. `processDao_wellFormed` says what a
node that builds source routes does with one: it inserts the first sixteen targets
with the parent of the last transit option, and acknowledges the DAO.
-/

namespace HyMRPL

open Tlv

/-- `struct nd_rpl_dao`. -/
structure DaoHeader where
  instanceid : UInt8
  flags : UInt8
  resv : UInt8
  daoseq : UInt8
  dagid : In6Addr
  deriving DecidableEq

def DaoHeader.encode (h : DaoHeader) : List UInt8 :=
  [h.instanceid, h.flags, h.resv, h.daoseq] ++ h.dagid.toList

/-- The option has room for the fields of `struct rpl_dao_target`, or those of
`struct rpl_dao_transit`, if it has that type. -/
def DaoOptFits (o : Opt) : Prop :=
  (o.type = rplDaoRplTarget → 18 ≤ o.data.length) ∧
    (o.type = rplDaoTransitInfo → 20 ≤ o.data.length)

/-- A well-formed DAO. -/
structure DaoMessage where
  header : DaoHeader
  opts : List Opt
  fits : ∀ o ∈ opts, DaoOptFits o

/-- The message as received, with anything behind its end. -/
def DaoMessage.packet (dao : DaoMessage) (beyond : ℕ → UInt8) : Packet :=
  ⟨dao.header.encode ++ encode dao.opts, beyond⟩

/-- The prefix of a target option. -/
def target? (o : Opt) : Option In6Addr :=
  if o.type = rplDaoRplTarget then some (field o.data 16 2) else none

/-- The parent of a transit option. -/
def transitParent? (o : Opt) : Option In6Addr :=
  if o.type = rplDaoTransitInfo then some (field o.data 16 4) else none

/-- The targets of a DAO. -/
def DaoMessage.targets (dao : DaoMessage) : List In6Addr := dao.opts.filterMap target?

/-- The parents of the transit options of a DAO. -/
def DaoMessage.parents (dao : DaoMessage) : List In6Addr := dao.opts.filterMap transitParent?

theorem length_encode_header (h : DaoHeader) : h.encode.length = 20 := by
  simp [DaoHeader.encode]

theorem packet_instanceid (dao : DaoMessage) (beyond : ℕ → UInt8) :
    (dao.packet beyond).byte 0 = dao.header.instanceid := rfl

theorem packet_dagid (dao : DaoMessage) (beyond : ℕ → UInt8) :
    (dao.packet beyond).field 16 4 = dao.header.dagid := by
  have hbytes : (dao.packet beyond).bytes = [dao.header.instanceid, dao.header.flags,
      dao.header.resv, dao.header.daoseq] ++ (dao.header.dagid.toList ++ encode dao.opts) := by
    simp [DaoMessage.packet, DaoHeader.encode]
  have hfield : (dao.packet beyond).field 16 (4 + 0) = field dao.header.dagid.toList 16 0 :=
    Packet.field_of_append hbytes (by simp)
  rw [hfield]
  exact field_append_toList [] dao.header.dagid

theorem daoPrefixAt_of_holdsAt {msg : Packet} {p : ℕ} {o : Opt} (h : msg.HoldsAt p o)
    (hlen : 18 ≤ o.data.length) : daoPrefixAt msg p = field o.data 16 2 := by
  have hfield : msg.field 16 (p + 2 + 2) = field o.data 16 2 := h.field_data (by omega)
  rwa [Nat.add_assoc] at hfield

theorem daoParentAt_of_holdsAt {msg : Packet} {p : ℕ} {o : Opt} (h : msg.HoldsAt p o)
    (hlen : 20 ≤ o.data.length) : daoParentAt msg p = field o.data 16 4 := by
  have hfield : msg.field 16 (p + 2 + 4) = field o.data 16 4 := h.field_data (by omega)
  rwa [Nat.add_assoc] at hfield

/-- What the walk has collected, as addresses: the first sixteen targets and the last
transit parent of the options seen. -/
def Collected (msg : Packet) (seen : List Opt) (w : DaoWalk) : Prop :=
  w.targets.map (daoPrefixAt msg) = (seen.filterMap target?).take maxDaoTargets ∧
    w.transit.map (daoParentAt msg) = (seen.filterMap transitParent?).getLast?

theorem collected_step {calls : DaoCalls} {msg : Packet} {src : In6Addr} {seen : List Opt}
    {o : Opt} {p : ℕ} {w : DaoWalk} (hholds : msg.HoldsAt p o) (hfits : DaoOptFits o)
    (h : Collected msg seen w) : Collected msg (seen ++ [o]) (daoOption calls msg src p w) := by
  obtain ⟨htargets, htransit⟩ := id h
  by_cases hti : o.type = rplDaoTransitInfo
  · have hparent := daoParentAt_of_holdsAt hholds (hfits.2 hti)
    have hnot : ¬ rplDaoTransitInfo = rplDaoRplTarget := by decide
    have hopt : daoOption calls msg src p w = { w with transit := some p } := by
      simp [daoOption, hholds.byte_type, hti]
    rw [hopt]
    simp [Collected, hti, hparent, target?, transitParent?, hnot, htargets]
  · by_cases htg : o.type = rplDaoRplTarget
    · -- The target is kept exactly while fewer than sixteen are.
      have haddr := daoPrefixAt_of_holdsAt hholds (hfits.1 htg)
      have hlen : w.targets.length = min maxDaoTargets (seen.filterMap target?).length := by
        simpa using congrArg List.length htargets
      have hopt : (daoOption calls msg src p w).targets =
          (if w.targets.length < maxDaoTargets then w.targets ++ [p] else w.targets) ∧
          (daoOption calls msg src p w).transit = w.transit := by
        simp [daoOption, hholds.byte_type, htg, transitInfo_ne_rplTarget.symm]
      have hseen : (seen ++ [o]).filterMap target? =
          seen.filterMap target? ++ [field o.data 16 2] := by
        simp [target?, htg]
      have hparents : (seen ++ [o]).filterMap transitParent? = seen.filterMap transitParent? := by
        simp [transitParent?, hti]
      refine ⟨?_, by rw [hopt.2, htransit, hparents]⟩
      rw [hopt.1, hseen, List.take_append]
      by_cases hroom : (seen.filterMap target?).length < maxDaoTargets
      · rw [if_pos (by omega), List.map_append, htargets, List.map_singleton, haddr,
          List.take_of_length_le (l := [field o.data 16 2]) (by simp; omega)]
      · rw [if_neg (by omega), htargets, Nat.sub_eq_zero_of_le (Nat.not_lt.mp hroom),
          List.take_zero, List.append_nil]
    · have hopt : daoOption calls msg src p w = w := by
        simp [daoOption, hholds.byte_type, hti, htg]
      rw [hopt]
      simpa [Collected, hti, htg, target?, transitParent?] using h

/-- The node builds source routes from a DAO: in non-storing mode, and as the root in
hybrid mode. -/
def Dag.BuildsSourceRoutes (dag : Dag) : Prop :=
  dag.mop = Mop.nonstoring ∨ dag.mop = Mop.hybrid ∧ dag.myRank = 1

instance (dag : Dag) : Decidable dag.BuildsSourceRoutes :=
  inferInstanceAs (Decidable (_ ∨ _))

theorem daoRoutes_of_buildsSourceRoutes {dag : Dag} (h : dag.BuildsSourceRoutes)
    (calls : DaoCalls) (msg : Packet) (src : In6Addr) (w : DaoWalk) :
    daoRoutes calls msg src w dag = daoSourceRoutes calls msg src w dag := by
  rcases h with hmop | ⟨hmop, hroot⟩
  · simp [daoRoutes, hmop, Mop.nonstoring, Mop.storingNoMulticast, Mop.storingMulticast]
  · simp [daoRoutes, hmop, hroot, Mop.hybrid, Mop.nonstoring, Mop.storingNoMulticast,
      Mop.storingMulticast]

/-- The calls of `t_insert` that a well-formed DAO leads to. -/
def DaoMessage.inserts (dao : DaoMessage) (src : In6Addr) : List TInsert :=
  match dao.parents.getLast? with
  | some parent => insertCalls src parent (dao.targets.take maxDaoTargets)
  | none => []

theorem daoSourceRoutes_of_collected {msg : Packet} {dao : DaoMessage} {w : DaoWalk}
    (h : Collected msg dao.opts w) (calls : DaoCalls) (src : In6Addr) (dag : Dag) :
    (daoSourceRoutes calls msg src w dag).1 = { dag with root := dag.root ++ dao.inserts src } ∧
      tInserts (daoSourceRoutes calls msg src w dag).2 = dao.inserts src := by
  obtain ⟨htargets, htransit⟩ := h
  cases hw : w.transit with
  | none =>
      have hnone : dao.parents.getLast? = none := by
        simpa [hw, DaoMessage.parents] using htransit.symm
      simp [daoSourceRoutes, hw, DaoMessage.inserts, hnone, tInserts]
  | some transit =>
      have hsome : dao.parents.getLast? = some (daoParentAt msg transit) := by
        simpa [hw, DaoMessage.parents] using htransit.symm
      have hinserts : dao.inserts src =
          insertCalls src (daoParentAt msg transit) (w.targets.map (daoPrefixAt msg)) := by
        simp [DaoMessage.inserts, hsome, htargets, DaoMessage.targets]
      rw [hinserts]
      simpa [daoSourceRoutes, hw] using
        daoInsertTargets_spec calls src (daoParentAt msg transit) dag
          (w.targets.map (daoPrefixAt msg))

/-- A well-formed DAO is acknowledged after its first sixteen targets are inserted;
besides the tree only the children change. -/
theorem processDao_wellFormed (calls : DaoCalls) (dagLookup : UInt8 → In6Addr → Option Dag)
    (dao : DaoMessage) {dag : Dag}
    (hlookup : dagLookup dao.header.instanceid dao.header.dagid = some dag)
    (hbuilds : dag.BuildsSourceRoutes) (beyond : ℕ → UInt8) (src : In6Addr) :
    ∃ childs acts, processDao calls dagLookup (dao.packet beyond) src =
        some ({ dag with childs := childs, root := dag.root ++ dao.inserts src }, acts) ∧
      tInserts acts = dao.inserts src ∧ .sendDaoAck src ∈ acts := by
  have hlength : (dao.packet beyond).bytes.length = 20 + (encode dao.opts).length := by
    simp [DaoMessage.packet, length_encode_header]
  have hbytes : (dao.packet beyond).bytes = dao.header.encode ++ encode dao.opts := rfl
  have hstart : Collected (dao.packet beyond) []
      { childs := dag.childs, transit := none, targets := [] } := ⟨rfl, rfl⟩
  have hstep : ∀ seen o p w, (dao.packet beyond).HoldsAt p o → o ∈ dao.opts →
      Collected (dao.packet beyond) seen w → Collected (dao.packet beyond) (seen ++ [o])
        (daoOption calls (dao.packet beyond) src p w) :=
    fun seen o p w hholds hmem h => collected_step hholds (dao.fits o hmem) h
  obtain ⟨w, hwalk, hcollected⟩ := walk_invariant hbytes hstep hstart
  rw [length_encode_header] at hwalk
  have hbuilds' : ({ dag with childs := w.childs } : Dag).BuildsSourceRoutes := hbuilds
  obtain ⟨hdag, hacts⟩ := daoSourceRoutes_of_collected hcollected calls src
    { dag with childs := w.childs }
  refine ⟨w.childs, (daoSourceRoutes calls (dao.packet beyond) src w
    { dag with childs := w.childs }).2 ++ [.sendDaoAck src], ?_, ?_, by simp⟩
  · simp [processDao, hlength, packet_instanceid, packet_dagid, hlookup, hwalk,
      daoRoutes_of_buildsSourceRoutes hbuilds', hdag]
  · rw [tInserts_append, hacts]
    exact List.append_nil _

end HyMRPL
