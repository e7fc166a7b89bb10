import HyMRPL.Foundation.TlvOffsets
import HyMRPL.Process.DaoMessage

/-!
# What a DAO leaves behind, for any message

The option walk of `process_dao` in closed form: which options it meets is a matter of
the message alone, and what it collects are the prefixes of the targets among them and
the parent of the last transit option. `processDao_of_stray` and `processDao_of_endsWell`
give the whole function in these terms, for well-formed and for damaged messages alike.
-/

namespace HyMRPL

open Tlv

/-- The targets that the option walk meets. -/
def daoTargetOffsets (msg : Packet) : List ℕ :=
  (offsets msg 20 (msg.bytes.length - 20)).filter fun p => msg.byte p = rplDaoRplTarget

/-- The transit options that the option walk meets. -/
def daoTransitOffsets (msg : Packet) : List ℕ :=
  (offsets msg 20 (msg.bytes.length - 20)).filter fun p => msg.byte p = rplDaoTransitInfo

/-- The option walk does not end at a single byte. -/
def daoEndsWell (msg : Packet) : Bool := endsWell msg 20 (msg.bytes.length - 20)

/-- The prefixes of the targets met. -/
def daoPrefixes (msg : Packet) : List In6Addr := (daoTargetOffsets msg).map (daoPrefixAt msg)

/-- The parent of the last transit option met. -/
def daoParent? (msg : Packet) : Option In6Addr :=
  (daoTransitOffsets msg).getLast?.map (daoParentAt msg)

/-- `dag_lookup_child_or_create` for each of some targets. -/
def recordChilds (calls : DaoCalls) (src : In6Addr) (childs : List Child)
    (targets : List In6Addr) : List Child :=
  targets.foldl (fun childs target => calls.dagLookupChildOrCreate childs target src) childs

/-- The DODAG with the children that a message leaves. -/
def Dag.record (dag : Dag) (calls : DaoCalls) (msg : Packet) (src : In6Addr) : Dag :=
  { dag with childs := recordChilds calls src dag.childs (daoPrefixes msg) }

/-- What the walk has collected at its end. -/
def daoCollected (calls : DaoCalls) (msg : Packet) (src : In6Addr) (childs : List Child) :
    DaoWalk where
  childs := recordChilds calls src childs (daoPrefixes msg)
  transit := (daoTransitOffsets msg).getLast?
  targets := (daoTargetOffsets msg).take maxDaoTargets

variable {calls : DaoCalls} {msg : Packet} {src : In6Addr}

theorem take_append_take {α : Type*} (n : ℕ) (l l' : List α) :
    (l.take n ++ l').take n = (l ++ l').take n := by
  simp only [List.take_append, List.take_take, List.length_take, Nat.min_self]
  by_cases h : l.length ≤ n
  · rw [Nat.min_eq_right h]
  · rw [Nat.min_eq_left (Nat.le_of_not_le h), Nat.sub_self,
      Nat.sub_eq_zero_of_le (Nat.le_of_not_le h)]

/-- The step of the walk, folded over any offsets. -/
theorem foldl_daoOption (ps : List ℕ) (w : DaoWalk) (hw : w.targets.length ≤ maxDaoTargets) :
    ps.foldl (fun w p => daoOption calls msg src p w) w =
      { childs := recordChilds calls src w.childs
          ((ps.filter fun p => msg.byte p = rplDaoRplTarget).map (daoPrefixAt msg))
        transit := (ps.filter fun p => msg.byte p = rplDaoTransitInfo).getLast?.or w.transit
        targets := (w.targets ++ ps.filter fun p => msg.byte p = rplDaoRplTarget).take
          maxDaoTargets } := by
  induction ps generalizing w with
  | nil => simp [recordChilds, List.take_of_length_le hw]
  | cons p ps ih =>
      by_cases hti : msg.byte p = rplDaoTransitInfo
      · have hopt : daoOption calls msg src p w = { w with transit := some p } := by
          simp [daoOption, hti]
        rw [List.foldl_cons, hopt, ih { w with transit := some p } hw]
        simp [hti, transitInfo_ne_rplTarget, List.getLast?_cons]
      · by_cases htg : msg.byte p = rplDaoRplTarget
        · -- The target is kept exactly while fewer than sixteen are.
          have hopt : daoOption calls msg src p w =
              { w with
                childs := calls.dagLookupChildOrCreate w.childs (daoPrefixAt msg p) src
                targets := (w.targets ++ [p]).take maxDaoTargets } := by
            by_cases hroom : w.targets.length < maxDaoTargets
            · have hall : (w.targets ++ [p]).length ≤ maxDaoTargets := by
                simpa using Nat.succ_le_of_lt hroom
              simp [daoOption, htg, transitInfo_ne_rplTarget.symm, hroom,
                List.take_of_length_le hall]
            · have hfull : w.targets.length = maxDaoTargets := by omega
              simp [daoOption, htg, transitInfo_ne_rplTarget.symm, ← hfull]
          rw [List.foldl_cons, hopt, ih _ (by simp)]
          simp [htg, transitInfo_ne_rplTarget.symm, recordChilds, take_append_take]
        · have hopt : daoOption calls msg src p w = w := by simp [daoOption, hti, htg]
          rw [List.foldl_cons, hopt, ih w hw]
          simp [hti, htg]

/-- The option walk of `process_dao`. -/
theorem walk_daoOption (calls : DaoCalls) (msg : Packet) (src : In6Addr) (childs : List Child) :
    walk msg (daoOption calls msg src) 20 (msg.bytes.length - 20)
        { childs := childs, transit := none, targets := [] } =
      (daoCollected calls msg src childs, daoEndsWell msg) := by
  rw [walk_eq, foldl_daoOption _ _ (Nat.zero_le _)]
  simp [daoCollected, daoEndsWell, daoPrefixes, daoTargetOffsets, daoTransitOffsets]

/-- A message without a header, or for a DODAG that is not there, is dropped. -/
theorem processDao_eq_none_iff {dagLookup : UInt8 → In6Addr → Option Dag} :
    processDao calls dagLookup msg src = none ↔
      msg.bytes.length < 20 ∨ dagLookup (msg.byte 0) (msg.field 16 4) = none := by
  by_cases hlen : msg.bytes.length < 20
  · simp [processDao, hlen]
  · cases hlookup : dagLookup (msg.byte 0) (msg.field 16 4) with
    | none => simp [processDao, hlookup]
    | some dag => by_cases hends : daoEndsWell msg = true <;>
        simp [processDao, hlen, hlookup, walk_daoOption, hends]

section Found

variable {dagLookup : UInt8 → In6Addr → Option Dag} {dag : Dag}

/-- A message that ends at a single byte leaves the children it has recorded. -/
theorem processDao_of_stray (hlen : 20 ≤ msg.bytes.length)
    (hlookup : dagLookup (msg.byte 0) (msg.field 16 4) = some dag)
    (hends : daoEndsWell msg = false) :
    processDao calls dagLookup msg src = some (dag.record calls msg src, []) := by
  simp [processDao, Nat.not_lt.mpr hlen, hlookup, walk_daoOption, hends, Dag.record, daoCollected]

/-- Any other message also has its routes installed and is acknowledged. -/
theorem processDao_of_endsWell (hlen : 20 ≤ msg.bytes.length)
    (hlookup : dagLookup (msg.byte 0) (msg.field 16 4) = some dag)
    (hends : daoEndsWell msg = true) :
    processDao calls dagLookup msg src =
      some ((daoRoutes calls msg src (daoCollected calls msg src dag.childs)
          (dag.record calls msg src)).1,
        (daoRoutes calls msg src (daoCollected calls msg src dag.childs)
          (dag.record calls msg src)).2 ++ [.sendDaoAck src]) := by
  simp [processDao, Nat.not_lt.mpr hlen, hlookup, walk_daoOption, hends, Dag.record, daoCollected]

end Found

/-- The routes depend on what was collected through the addresses alone. -/
theorem daoRoutes_congr {msg' : Packet} {w w' : DaoWalk}
    (htransit : w.transit.map (daoParentAt msg) = w'.transit.map (daoParentAt msg'))
    (htargets : w.targets.map (daoPrefixAt msg) = w'.targets.map (daoPrefixAt msg')) (dag : Dag) :
    daoRoutes calls msg src w dag = daoRoutes calls msg' src w' dag := by
  have hsource : daoSourceRoutes calls msg src w dag = daoSourceRoutes calls msg' src w' dag := by
    cases hw : w.transit with
    | none =>
        have hw' : w'.transit = none := by simpa [hw, eq_comm] using htransit
        simp [daoSourceRoutes, hw, hw']
    | some transit =>
        obtain ⟨transit', hw', hparent⟩ : ∃ transit', w'.transit = some transit' ∧
            daoParentAt msg' transit' = daoParentAt msg transit := by
          simpa [hw, eq_comm] using htransit
        simp [daoSourceRoutes, hw, hw', hparent, htargets]
  simp only [daoRoutes, hsource]

/-- What a message is to `process_dao`: a sequence of targets and the parent that goes
with them, and whether it ends well. Messages that are the same in this have the same
effect, for every DODAG. -/
theorem processDao_congr {msg' : Packet} (hlen : 20 ≤ msg.bytes.length)
    (hlen' : 20 ≤ msg'.bytes.length) (hid : msg.byte 0 = msg'.byte 0)
    (hdagid : msg.field 16 4 = msg'.field 16 4) (hprefixes : daoPrefixes msg = daoPrefixes msg')
    (hparent : daoParent? msg = daoParent? msg') (hends : daoEndsWell msg = daoEndsWell msg')
    (calls : DaoCalls) (dagLookup : UInt8 → In6Addr → Option Dag) (src : In6Addr) :
    processDao calls dagLookup msg src = processDao calls dagLookup msg' src := by
  cases hlookup : dagLookup (msg.byte 0) (msg.field 16 4) with
  | none =>
      have hlookup' : dagLookup (msg'.byte 0) (msg'.field 16 4) = none := by
        rw [← hid, ← hdagid, hlookup]
      rw [processDao_eq_none_iff.mpr (Or.inr hlookup), processDao_eq_none_iff.mpr (Or.inr hlookup')]
  | some dag =>
      have hlookup' : dagLookup (msg'.byte 0) (msg'.field 16 4) = some dag := by
        rw [← hid, ← hdagid, hlookup]
      have hrecord : dag.record calls msg src = dag.record calls msg' src := by
        rw [Dag.record, Dag.record, hprefixes]
      cases hmsg : daoEndsWell msg with
      | false => rw [processDao_of_stray hlen hlookup hmsg,
          processDao_of_stray hlen' hlookup' (hends ▸ hmsg), hrecord]
      | true =>
          have htargets : (daoCollected calls msg src dag.childs).targets.map (daoPrefixAt msg) =
              (daoCollected calls msg' src dag.childs).targets.map (daoPrefixAt msg') := by
            simpa [daoCollected, daoPrefixes] using congrArg (List.take maxDaoTargets) hprefixes
          have htransit : (daoCollected calls msg src dag.childs).transit.map (daoParentAt msg) =
              (daoCollected calls msg' src dag.childs).transit.map (daoParentAt msg') := hparent
          have hroutes (dag' : Dag) :
              daoRoutes calls msg src (daoCollected calls msg src dag.childs) dag' =
                daoRoutes calls msg' src (daoCollected calls msg' src dag.childs) dag' :=
            daoRoutes_congr htransit htargets dag'
          rw [processDao_of_endsWell hlen hlookup hmsg,
            processDao_of_endsWell hlen' hlookup' (hends ▸ hmsg), hrecord, hroutes]

/-- Options that have room for their fields are read as the walk finds them. -/
theorem map_of_holdsAt {ps : List ℕ} {opts : List Opt} (hholds : List.Forall₂ msg.HoldsAt ps opts)
    (hfits : ∀ o ∈ opts, DaoOptFits o) :
    (ps.filter fun p => msg.byte p = rplDaoRplTarget).map (daoPrefixAt msg) =
        opts.filterMap target? ∧
      (ps.filter fun p => msg.byte p = rplDaoTransitInfo).map (daoParentAt msg) =
        opts.filterMap transitParent? := by
  induction hholds with
  | nil => exact ⟨rfl, rfl⟩
  | @cons p o ps opts hp _ ih =>
      rw [List.forall_mem_cons] at hfits
      obtain ⟨htargets, hparents⟩ := ih hfits.2
      by_cases hti : o.type = rplDaoTransitInfo
      · simp [hp.byte_type, hti, transitInfo_ne_rplTarget, htargets, hparents, target?,
          transitParent?, daoParentAt_of_holdsAt hp (hfits.1.2 hti)]
      · by_cases htg : o.type = rplDaoRplTarget
        · simp [hp.byte_type, htg, transitInfo_ne_rplTarget.symm, htargets, hparents, target?,
            transitParent?, daoPrefixAt_of_holdsAt hp (hfits.1.1 htg)]
        · simp [hp.byte_type, hti, htg, htargets, hparents, target?, transitParent?]

theorem countP_of_holdsAt {ps : List ℕ} {opts : List Opt}
    (hholds : List.Forall₂ msg.HoldsAt ps opts) (type : UInt8) :
    ps.countP (fun p => msg.byte p = type) = opts.countP fun o => o.type = type := by
  induction hholds with
  | nil => rfl
  | cons hp _ ih => rw [List.countP_cons, List.countP_cons, ih, hp.byte_type]

/-- `process_dao` passes over options of this type. -/
def PassedOver (t : UInt8) : Prop := t ≠ rplDaoRplTarget ∧ t ≠ rplDaoTransitInfo

instance (t : UInt8) : Decidable (PassedOver t) := inferInstanceAs (Decidable (_ ∧ _))

/-- Behind a header, the walk finds the options, and goes on behind them. -/
theorem exists_daoOffsets {header : DaoHeader} {opts : List Opt} {tail : List UInt8}
    (hbytes : msg.bytes = header.encode ++ (encode opts ++ tail)) :
    ∃ ps, List.Forall₂ msg.HoldsAt ps opts ∧
      offsets msg 20 (msg.bytes.length - 20) =
        ps ++ offsets msg (20 + (encode opts).length) tail.length ∧
      daoEndsWell msg = endsWell msg (20 + (encode opts).length) tail.length := by
  have hlen : msg.bytes.length - 20 = (encode opts ++ tail).length := by
    simp [hbytes, length_encode_header]
  have hread := exists_offsets_append hbytes
  rwa [length_encode_header, ← hlen] at hread

/-- What a header and options with something behind them that is passed over are to
`process_dao`. -/
theorem daoSeen_of_passedOver {header : DaoHeader} {opts : List Opt} {tail : List UInt8}
    (hbytes : msg.bytes = header.encode ++ (encode opts ++ tail))
    (hfits : ∀ o ∈ opts, DaoOptFits o)
    (htail : ∀ q ∈ offsets msg (20 + (encode opts).length) tail.length, PassedOver (msg.byte q)) :
    daoPrefixes msg = opts.filterMap target? ∧
      daoParent? msg = (opts.filterMap transitParent?).getLast? := by
  obtain ⟨ps, hholds, hoffsets, -⟩ := exists_daoOffsets hbytes
  obtain ⟨htargets, hparents⟩ := map_of_holdsAt hholds hfits
  have htailtargets := List.filter_eq_nil_iff.mpr fun q hq =>
    mt of_decide_eq_true (htail q hq).1
  have htailtransits := List.filter_eq_nil_iff.mpr fun q hq =>
    mt of_decide_eq_true (htail q hq).2
  constructor
  · rw [daoPrefixes, daoTargetOffsets, hoffsets, List.filter_append, htailtargets,
      List.append_nil, htargets]
  · rw [daoParent?, daoTransitOffsets, hoffsets, List.filter_append, htailtransits,
      List.append_nil, ← List.getLast?_map, hparents]

/-- What a header and options with less than a header behind them are to `process_dao`. -/
theorem daoSeen_of_bytes {header : DaoHeader} {opts : List Opt} {tail : List UInt8}
    (hbytes : msg.bytes = header.encode ++ (encode opts ++ tail)) (htail : tail.length < 2) :
    (daoPrefixes msg).length = opts.countP (fun o => o.type = rplDaoRplTarget) ∧
      daoEndsWell msg = decide (tail.length = 0) ∧
      ((∀ o ∈ opts, DaoOptFits o) → daoPrefixes msg = opts.filterMap target? ∧
        daoParent? msg = (opts.filterMap transitParent?).getLast?) := by
  obtain ⟨ps, hholds, hoffsets, hends⟩ := exists_daoOffsets hbytes
  have hnone : offsets msg (20 + (encode opts).length) tail.length = [] := offsets_of_lt htail _
  rw [hnone, List.append_nil] at hoffsets
  refine ⟨?_, hends.trans (endsWell_of_lt htail _), fun hfits => ?_⟩
  · rw [daoPrefixes, List.length_map, daoTargetOffsets, hoffsets, ← List.countP_eq_length_filter,
      countP_of_holdsAt hholds]
  · exact daoSeen_of_passedOver hbytes hfits (by simp [hnone])

/-- What a well-formed DAO is to `process_dao`. -/
theorem daoSeen_packet (dao : DaoMessage) (beyond : ℕ → UInt8) :
    daoPrefixes (dao.packet beyond) = dao.targets ∧
      daoParent? (dao.packet beyond) = dao.parents.getLast? ∧
      daoEndsWell (dao.packet beyond) = true := by
  have hbytes : (dao.packet beyond).bytes = dao.header.encode ++ (encode dao.opts ++ []) := by
    rw [List.append_nil]
    rfl
  obtain ⟨-, hends, hseen⟩ := daoSeen_of_bytes hbytes Nat.two_pos
  exact ⟨(hseen dao.fits).1, (hseen dao.fits).2, hends⟩

end HyMRPL
