import HyMRPL.Process.DaoWalk
import HyMRPL.Root.Targets

/-!
# How padding in a DAO is read

`process_dao` takes every option for a header of two bytes and its data, also the single
byte of a Pad1 option. So padding changes nothing exactly when the walk over the padded
options still meets the same targets and the same last parent, and does not end at a
single byte. Padding that itself reads as whole options that are passed over is harmless in
every DAO. Behind the last option the padding may also announce more data than follow.
-/

namespace HyMRPL

open Tlv

/-- `RPL_OPT_PAD0` -/
def rplOptPad0 : UInt8 := 0

/-- `RPL_OPT_PADN` -/
def rplOptPadN : UInt8 := 1

/-- A padding option. -/
inductive Pad
  | pad1
  | padN (data : List UInt8) (length_lt : data.length < 256)

def Pad.encode : Pad → List UInt8
  | .pad1 => [rplOptPad0]
  | .padN data length_lt => (⟨rplOptPadN, data, length_lt⟩ : Opt).encode

/-- The data of a PadN option is zero. -/
def Pad.ZeroFilled : Pad → Prop
  | .pad1 => True
  | .padN data _ => data = List.replicate data.length 0

def padBytes (ps : List Pad) : List UInt8 := ps.flatMap Pad.encode

/-- Some options, with `padding i` before the option `i` and the next padding behind the
last one. -/
def padArea (padding : ℕ → List Pad) : List Opt → List UInt8
  | [] => padBytes (padding 0)
  | o :: opts => padBytes (padding 0) ++ (o.encode ++ padArea (fun i => padding (i + 1)) opts)

/-- A well-formed DAO with padding. -/
def DaoMessage.padded (dao : DaoMessage) (padding : ℕ → List Pad) (beyond : ℕ → UInt8) :
    Packet :=
  ⟨dao.header.encode ++ padArea padding dao.opts, beyond⟩

/-- The children recorded, the targets collected and the transit parent. -/
def daoCollectedAddresses (calls : DaoCalls) (msg : Packet) (src : In6Addr)
    (childs : List Child) : List Child × List In6Addr × Option In6Addr :=
  let (w, _) := walk msg (daoOption calls msg src) 20 (msg.bytes.length - 20)
    { childs := childs, transit := none, targets := [] }
  (w.childs, w.targets.map (daoPrefixAt msg), w.transit.map (daoParentAt msg))

/-- Two messages have the same outcome, whatever the DODAG and the code of `dag.c` and
`tree.c` are: they collect the same, and lead to the same DODAG with the same calls. -/
def SameDaoOutcome (msg msg' : Packet) : Prop :=
  ∀ calls src,
    (∀ childs, daoCollectedAddresses calls msg src childs =
      daoCollectedAddresses calls msg' src childs) ∧
    ∀ dagLookup, processDao calls dagLookup msg src = processDao calls dagLookup msg' src

variable {msg msg' : Packet}

theorem daoCollectedAddresses_eq (calls : DaoCalls) (msg : Packet) (src : In6Addr)
    (childs : List Child) :
    daoCollectedAddresses calls msg src childs =
      (recordChilds calls src childs (daoPrefixes msg), (daoPrefixes msg).take maxDaoTargets,
        daoParent? msg) := by
  simp [daoCollectedAddresses, walk_daoOption, daoCollected, daoPrefixes, daoParent?]

/-- With children that are appended, the children are the targets met. -/
theorem recordChilds_sampleCalls (src : In6Addr) (childs : List Child) (targets : List In6Addr) :
    recordChilds sampleCalls src childs targets =
      childs ++ targets.map fun target => ⟨target, src⟩ := by
  induction targets generalizing childs with
  | nil => simp [recordChilds]
  | cons target targets ih =>
      have hcons : recordChilds sampleCalls src childs (target :: targets) =
          recordChilds sampleCalls src (childs ++ [⟨target, src⟩]) targets := rfl
      rw [hcons, ih, List.map_cons, List.append_assoc, List.singleton_append]

/-- Messages with one header have the same outcome exactly when they are the same to
`process_dao`. -/
theorem sameDaoOutcome_iff (hlen : 20 ≤ msg.bytes.length) (hlen' : 20 ≤ msg'.bytes.length)
    (hid : msg.byte 0 = msg'.byte 0) (hdagid : msg.field 16 4 = msg'.field 16 4) :
    SameDaoOutcome msg msg' ↔
      daoPrefixes msg = daoPrefixes msg' ∧ daoParent? msg = daoParent? msg' ∧
        daoEndsWell msg = daoEndsWell msg' := by
  constructor
  · intro h
    obtain ⟨hcollected, hresult⟩ := h sampleCalls (linkLocal 2)
    have hsame := hcollected []
    simp only [daoCollectedAddresses_eq, recordChilds_sampleCalls, Prod.mk.injEq] at hsame
    have hprefixes : daoPrefixes msg = daoPrefixes msg' := by
      apply List.map_injective_iff.mpr _ hsame.1
      intro a b hab
      exact (Child.mk.inj hab).1
    refine ⟨hprefixes, hsame.2.2, ?_⟩
    have hdao := hresult fun _ _ => some (classSNode 0)
    cases hends : daoEndsWell msg <;> cases hends' : daoEndsWell msg'
    · rfl
    · rw [processDao_of_stray hlen rfl hends, processDao_of_endsWell hlen' rfl hends'] at hdao
      simp at hdao
    · rw [processDao_of_endsWell hlen rfl hends, processDao_of_stray hlen' rfl hends'] at hdao
      simp at hdao
    · rfl
  · rintro ⟨hprefixes, hparent, hends⟩ calls src
    refine ⟨fun childs => ?_, fun dagLookup => ?_⟩
    · rw [daoCollectedAddresses_eq, daoCollectedAddresses_eq, hprefixes, hparent]
    · exact processDao_congr hlen hlen' hid hdagid hprefixes hparent hends calls dagLookup src

section Padded

variable (dao : DaoMessage) (padding : ℕ → List Pad) (beyond : ℕ → UInt8)

theorem le_length_padded : 20 ≤ (dao.padded padding beyond).bytes.length := by
  simp [DaoMessage.padded, length_encode_header]

theorem le_length_packet : 20 ≤ (dao.packet beyond).bytes.length := by
  simp [DaoMessage.packet, length_encode_header]

/-- The header is in front of the padding. -/
theorem padded_dagid : (dao.padded padding beyond).field 16 4 = (dao.packet beyond).field 16 4 := by
  rw [packet_dagid]
  have hbytes : (dao.padded padding beyond).bytes = [dao.header.instanceid, dao.header.flags,
      dao.header.resv, dao.header.daoseq] ++
        (dao.header.dagid.toList ++ padArea padding dao.opts) := by
    simp [DaoMessage.padded, DaoHeader.encode]
  have hfield : (dao.padded padding beyond).field 16 (4 + 0) =
      field dao.header.dagid.toList 16 0 :=
    Packet.field_of_append hbytes (by simp)
  rw [hfield]
  exact field_append_toList [] dao.header.dagid

/-- Padding leaves the outcome of a well-formed DAO as it is exactly when the walk over
the padded options meets the targets and the last parent of the DAO, and does not end at
a single byte. -/
theorem samePaddedOutcome_iff :
    SameDaoOutcome (dao.padded padding beyond) (dao.packet beyond) ↔
      daoPrefixes (dao.padded padding beyond) = dao.targets ∧
        daoParent? (dao.padded padding beyond) = dao.parents.getLast? ∧
        daoEndsWell (dao.padded padding beyond) = true := by
  obtain ⟨hprefixes, hparent, hends⟩ := daoSeen_packet dao beyond
  rw [← hprefixes, ← hparent, ← hends]
  exact sameDaoOutcome_iff (le_length_padded dao padding beyond) (le_length_packet dao beyond) rfl
    (padded_dagid dao padding beyond)

end Padded

/-- Read as options from its first byte, padding is a sequence of options that are passed
over. -/
def ReadsAsPadding (bytes : List UInt8) : Prop :=
  ∃ opts, bytes = encode opts ∧ ∀ o ∈ opts, PassedOver o.type

/-- At the end of a message the last of these options may announce more data than follow. -/
def ReadsAsLastPadding (bytes : List UInt8) : Prop :=
  ReadsAsPadding bytes ∨ ∃ opts t len rest, bytes = encode opts ++ t :: len :: rest ∧
    rest.length < len.toNat ∧ PassedOver t ∧ ∀ o ∈ opts, PassedOver o.type

theorem passedOver_pads : PassedOver rplOptPad0 ∧ PassedOver rplOptPadN := by decide

section PassedOver

variable {o : Opt} {opts : List Opt}

theorem daoOptFits_of_passedOver (h : PassedOver o.type) : DaoOptFits o :=
  ⟨fun htg => absurd htg h.1, fun hti => absurd hti h.2⟩

theorem filterMap_of_passedOver (h : ∀ o ∈ opts, PassedOver o.type) :
    opts.filterMap target? = [] ∧ opts.filterMap transitParent? = [] := by
  rw [List.filterMap_eq_nil_iff, List.filterMap_eq_nil_iff]
  exact ⟨fun o ho => if_neg (h o ho).1, fun o ho => if_neg (h o ho).2⟩

end PassedOver

/-- What the last padding is to the walk. -/
theorem ReadsAsLastPadding.exists_tail {bytes : List UInt8} (h : ReadsAsLastPadding bytes) :
    ∃ opts tail, bytes = encode opts ++ tail ∧ (∀ o ∈ opts, PassedOver o.type) ∧
      ∀ (msg : Packet) (before : List UInt8), msg.bytes = before ++ tail →
        (∀ q ∈ offsets msg before.length tail.length, PassedOver (msg.byte q)) ∧
          endsWell msg before.length tail.length = true := by
  rcases h with ⟨opts, hbytes, hpassed⟩ | ⟨opts, t, len, rest, hbytes, hlen, ht, hpassed⟩
  · refine ⟨opts, [], by rw [hbytes, List.append_nil], hpassed, fun msg before _ => ?_⟩
    rw [List.length_nil, offsets_of_lt Nat.two_pos, endsWell_of_lt Nat.two_pos]
    exact ⟨by simp, rfl⟩
  · refine ⟨opts, t :: len :: rest, hbytes, hpassed, fun msg before hmsg => ?_⟩
    obtain ⟨hoffsets, hends⟩ := offsets_of_overrun hmsg hlen
    have hheader : msg.byte before.length = t :=
      Packet.byte_of_eq_append hmsg (i := 0) (by simp)
    rw [hoffsets, List.forall_mem_singleton, hheader]
    exact ⟨ht, hends⟩

/-- With harmless padding in front of its options, an area starts with the options and
padding. -/
theorem exists_opts_of_padding (padding : ℕ → List Pad) (opts : List Opt)
    (h : ∀ i < opts.length, ReadsAsPadding (padBytes (padding i))) :
    ∃ opts', (∀ rest, padArea padding (opts ++ rest) =
        encode opts' ++ padArea (fun i => padding (opts.length + i)) rest) ∧
      opts'.filterMap target? = opts.filterMap target? ∧
      opts'.filterMap transitParent? = opts.filterMap transitParent? ∧
      ∀ P : Opt → Prop, (∀ o, PassedOver o.type → P o) → (∀ o ∈ opts, P o) →
        ∀ o ∈ opts', P o := by
  induction opts generalizing padding with
  | nil => exact ⟨[], by simp, rfl, rfl, by simp⟩
  | cons o opts ih =>
      obtain ⟨pads, hread, hpassed⟩ := h 0 (Nat.succ_pos _)
      obtain ⟨htargets, hparents⟩ := filterMap_of_passedOver hpassed
      obtain ⟨opts', harea, hresttargets, hrestparents, hrestall⟩ :=
        ih (fun i => padding (i + 1)) fun i hi => h (i + 1) (Nat.succ_lt_succ hi)
      refine ⟨pads ++ o :: opts', fun rest => ?_, ?_, ?_, fun P hP hall => ?_⟩
      · have hshift : (fun i => padding (opts.length + i + 1)) =
            fun i => padding ((o :: opts).length + i) := by
          funext i
          rw [List.length_cons, Nat.add_right_comm]
        rw [List.cons_append, padArea, hread, harea, hshift, encode_append, encode_cons,
          List.append_assoc, List.append_assoc]
      · rw [List.filterMap_append, htargets, List.nil_append, List.filterMap_cons,
          List.filterMap_cons, hresttargets]
      · rw [List.filterMap_append, hparents, List.nil_append, List.filterMap_cons,
          List.filterMap_cons, hrestparents]
      · rw [List.forall_mem_cons] at hall
        rw [List.forall_mem_append, List.forall_mem_cons]
        exact ⟨fun o ho => hP o (hpassed o ho), hall.1, hrestall P hP hall.2⟩

/-- Such padding is harmless. -/
theorem sameDaoOutcome_of_padding {padding : ℕ → List Pad} (dao : DaoMessage)
    (h : ∀ i < dao.opts.length, ReadsAsPadding (padBytes (padding i)))
    (hlast : ReadsAsLastPadding (padBytes (padding dao.opts.length))) (beyond : ℕ → UInt8) :
    SameDaoOutcome (dao.padded padding beyond) (dao.packet beyond) := by
  obtain ⟨opts', harea, htargets, hparents, hall⟩ := exists_opts_of_padding padding dao.opts h
  obtain ⟨pads, tail, hread, hpassed, htail⟩ := hlast.exists_tail
  obtain ⟨hpadtargets, hpadparents⟩ := filterMap_of_passedOver hpassed
  have hbytes : (dao.padded padding beyond).bytes =
      dao.header.encode ++ (encode (opts' ++ pads) ++ tail) := by
    have hend := harea []
    rw [List.append_nil, padArea, Nat.add_zero, hread, ← List.append_assoc, ← encode_append]
      at hend
    exact congrArg (dao.header.encode ++ ·) hend
  have hfits : ∀ o ∈ opts' ++ pads, DaoOptFits o := by
    rw [List.forall_mem_append]
    exact ⟨hall _ (fun o => daoOptFits_of_passedOver) dao.fits,
      fun o ho => daoOptFits_of_passedOver (hpassed o ho)⟩
  obtain ⟨hseen, hends⟩ := htail _ (dao.header.encode ++ encode (opts' ++ pads))
    (by rw [hbytes, List.append_assoc])
  rw [List.length_append, length_encode_header] at hseen hends
  obtain ⟨hprefixes, hparent⟩ := daoSeen_of_passedOver hbytes hfits hseen
  rw [List.filterMap_append, hpadtargets, List.append_nil, htargets] at hprefixes
  rw [List.filterMap_append, hpadparents, List.append_nil, hparents] at hparent
  obtain ⟨-, -, -, hwell⟩ := exists_daoOffsets hbytes
  exact (samePaddedOutcome_iff _ _ _).mpr ⟨hprefixes, hparent, hwell.trans hends⟩

end HyMRPL
