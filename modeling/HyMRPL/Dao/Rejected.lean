import HyMRPL.Process.Childs
import HyMRPL.Root.Targets

/-!
# What a malformed DAO does

`process_dao` records children while it walks the options, and gives up only where less
than a header is left. So a malformed DAO has no effect exactly when it ends at a single
byte, and all the targets before that byte are recorded already.
-/

namespace HyMRPL

open Tlv

/-- The option area is not a sequence of complete options with room for their fields. -/
def DaoMalformed (msg : Packet) : Prop :=
  20 ≤ msg.bytes.length ∧
    ∀ opts, msg.bytes.drop 20 = encode opts → ∃ o ∈ opts, ¬ DaoOptFits o

/-- `process_dao` leaves the DODAG that it finds as it is, and makes no call: it inserts
nothing into the source routing tree, installs no route and sends no DAO-ACK. -/
def DaoNoEffect (calls : DaoCalls) (dagLookup : UInt8 → In6Addr → Option Dag) (msg : Packet)
    (src : In6Addr) : Prop :=
  ∀ dag acts, processDao calls dagLookup msg src = some (dag, acts) →
    dagLookup (msg.byte 0) (msg.field 16 4) = some dag ∧ acts = []

/-- `dag_lookup_child_or_create` finds a child or adds one. -/
def DaoCalls.LookupOrCreate (calls : DaoCalls) : Prop :=
  ∀ childs addr src, calls.dagLookupChildOrCreate childs addr src = childs ∨
    childs.length < (calls.dagLookupChildOrCreate childs addr src).length

/-- The options fill the option area up to a single byte. -/
def DaoEndsAtByte (msg : Packet) : Prop :=
  ∃ opts b, msg.bytes.drop 20 = encode opts ++ [b]

variable {calls : DaoCalls} {dagLookup : UInt8 → In6Addr → Option Dag} {msg : Packet}
  {src : In6Addr}

theorem daoEndsWell_eq_false_iff (hlen : 20 ≤ msg.bytes.length) :
    daoEndsWell msg = false ↔ DaoEndsAtByte msg := by
  have hbytes : msg.bytes = msg.bytes.take 20 ++ msg.bytes.drop 20 :=
    (List.take_append_drop 20 _).symm
  have hiff := endsWell_eq_false_iff hbytes
  rwa [List.length_take_of_le hlen, List.length_drop] at hiff

theorem length_le_recordChilds (hcalls : calls.LookupOrCreate) (src : In6Addr)
    (childs : List Child) (targets : List In6Addr) :
    childs.length ≤ (recordChilds calls src childs targets).length := by
  induction targets generalizing childs with
  | nil => exact Nat.le_refl _
  | cons target targets ih =>
      refine Nat.le_trans ?_ (ih (calls.dagLookupChildOrCreate childs target src))
      rcases hcalls childs target src with hsame | hmore
      · rw [hsame]
      · exact hmore.le

/-- The children stay as they are exactly when each target is found among them. -/
theorem recordChilds_eq_self_iff (hcalls : calls.LookupOrCreate) (childs : List Child)
    (targets : List In6Addr) :
    recordChilds calls src childs targets = childs ↔
      ∀ target ∈ targets, calls.dagLookupChildOrCreate childs target src = childs := by
  induction targets with
  | nil => simp [recordChilds]
  | cons target targets ih =>
      have hcons : recordChilds calls src childs (target :: targets) =
          recordChilds calls src (calls.dagLookupChildOrCreate childs target src) targets := rfl
      rw [List.forall_mem_cons, hcons]
      rcases hcalls childs target src with hsame | hmore
      · rw [hsame, ih, and_iff_right rfl]
      · -- A child that was added is not taken away again.
        have hle := length_le_recordChilds hcalls src
          (calls.dagLookupChildOrCreate childs target src) targets
        constructor
        · intro h
          rw [h] at hle
          exact absurd hmore (Nat.not_lt.mpr hle)
        · rintro ⟨hsame, -⟩
          rw [hsame] at hmore
          exact absurd hmore (Nat.lt_irrefl _)

/-- A DAO that ends at a byte has no effect exactly when it records no child. -/
theorem daoNoEffect_iff_of_stray (hlen : 20 ≤ msg.bytes.length) {dag : Dag}
    (hlookup : dagLookup (msg.byte 0) (msg.field 16 4) = some dag)
    (hends : daoEndsWell msg = false) :
    DaoNoEffect calls dagLookup msg src ↔
      recordChilds calls src dag.childs (daoPrefixes msg) = dag.childs := by
  have hdao : processDao calls dagLookup msg src = some (dag.record calls msg src, []) :=
    processDao_of_stray hlen hlookup hends
  constructor
  · intro h
    have hsame : dag = dag.record calls msg src :=
      Option.some.inj (hlookup.symm.trans (h _ _ hdao).1)
    exact (congrArg Dag.childs hsame).symm
  · intro h dag' acts hres
    obtain ⟨rfl, rfl⟩ : dag.record calls msg src = dag' ∧ [] = acts := by
      simpa [hdao] using hres
    refine ⟨?_, rfl⟩
    rw [hlookup, Dag.record, h]

/-- A DAO that does not end at a byte is acknowledged. -/
theorem not_daoNoEffect_of_endsWell (hlen : 20 ≤ msg.bytes.length) {dag : Dag}
    (hlookup : dagLookup (msg.byte 0) (msg.field 16 4) = some dag)
    (hends : daoEndsWell msg = true) : ¬ DaoNoEffect calls dagLookup msg src := by
  intro h
  have hacts := (h _ _ (processDao_of_endsWell hlen hlookup hends)).2
  simp at hacts

/-- A malformed DAO has no effect exactly when its DODAG is unknown, or its options fill
it up to a single byte and each target among them is recorded already. -/
theorem daoNoEffect_iff (hcalls : calls.LookupOrCreate)
    (dagLookup : UInt8 → In6Addr → Option Dag) (src : In6Addr) (hmalformed : DaoMalformed msg) :
    DaoNoEffect calls dagLookup msg src ↔
      ∀ dag, dagLookup (msg.byte 0) (msg.field 16 4) = some dag →
        DaoEndsAtByte msg ∧ ∀ target ∈ daoPrefixes msg,
          calls.dagLookupChildOrCreate dag.childs target src = dag.childs := by
  have hlen := hmalformed.1
  cases hlookup : dagLookup (msg.byte 0) (msg.field 16 4) with
  | none =>
      have hnone : processDao calls dagLookup msg src = none :=
        processDao_eq_none_iff.mpr (Or.inr hlookup)
      simp [DaoNoEffect, hnone]
  | some dag =>
      rw [← daoEndsWell_eq_false_iff hlen]
      simp only [Option.some.injEq, forall_eq', ← recordChilds_eq_self_iff hcalls]
      cases hends : daoEndsWell msg with
      | false => rw [daoNoEffect_iff_of_stray hlen hlookup hends, and_iff_right rfl]
      | true => simp [not_daoNoEffect_of_endsWell hlen hlookup hends]

/-- Options that end at a byte are malformed. -/
theorem daoMalformed_of_endsAtByte (hlen : 20 ≤ msg.bytes.length) (h : DaoEndsAtByte msg) :
    DaoMalformed msg := by
  refine ⟨hlen, fun opts hopts => ?_⟩
  have hbytes : msg.bytes = msg.bytes.take 20 ++ (encode opts ++ []) := by
    rw [← hopts, List.append_nil, List.take_append_drop]
  obtain ⟨-, hends⟩ := forall₂_offsets hbytes Nat.two_pos
  rw [List.length_take_of_le hlen, List.append_nil, ← hopts, List.length_drop] at hends
  have hstray := (daoEndsWell_eq_false_iff hlen).mpr h
  exact absurd (hends.symm.trans hstray) (by decide)

/-- A DAO with the given bytes as its option area. -/
def daoWith (area : List UInt8) : Packet :=
  ⟨(⟨1, 0, 0, 0, linkLocal 1⟩ : DaoHeader).encode ++ area, fun _ => 0⟩

/-- A target option for `fe80::3`. -/
def targetOption : Opt := ⟨rplDaoRplTarget, [0, 128] ++ (linkLocal 3).toList, by decide⟩

/-- What `dag_lookup_child_or_create` is assumed to be elsewhere is more than is needed here. -/
theorem LooksUpChild.lookupOrCreate (h : LooksUpChild calls) : calls.LookupOrCreate := by
  intro childs addr src
  by_cases hfound : addr ∈ childs.map Child.addr
  · exact Or.inl (h.found childs addr src hfound)
  · rcases h.created childs addr src hfound with hsame | ⟨before, after, rfl, hnew⟩
    · exact Or.inl hsame
    · right
      rw [hnew]
      simp

theorem drop_daoWith (area : List UInt8) : (daoWith area).bytes.drop 20 = area :=
  List.drop_left' (length_encode_header _)

/-- An option whose length byte runs past the end is malformed. -/
theorem daoMalformed_of_overrun (t len : UInt8) {rest : List UInt8}
    (h : rest.length < len.toNat) : DaoMalformed (daoWith (t :: len :: rest)) := by
  refine ⟨by simp [daoWith, length_encode_header], fun opts hopts => ?_⟩
  rw [drop_daoWith] at hopts
  cases opts with
  | nil => simp at hopts
  | cons o opts =>
      obtain ⟨-, rfl, rfl⟩ : t = o.type ∧ len = UInt8.ofNat o.data.length ∧
          rest = o.data ++ encode opts := by
        simpa [encode_cons, Opt.encode] using hopts
      rw [UInt8.toNat_ofNat_of_lt' o.length_lt, List.length_append] at h
      omega

/-- A target and a single byte. -/
def strayTarget : Packet := daoWith (targetOption.encode ++ [0])

theorem strayTarget_endsAtByte : DaoEndsAtByte strayTarget :=
  ⟨[targetOption], 0, by rw [strayTarget, drop_daoWith]; rfl⟩

theorem daoPrefixes_strayTarget : daoPrefixes strayTarget = [linkLocal 3] := by
  have hheader : strayTarget.byte 21 = 18 := by decide
  have hoffsets : offsets strayTarget 20 21 = [20] := by
    rw [offsets_of_le (by decide), hheader, offsets_of_lt (by decide)]
  have hlen : strayTarget.bytes.length - 20 = 21 := by decide
  rw [daoPrefixes, daoTargetOffsets, hlen, hoffsets]
  decide

/-- The DODAG of the root after `fe80::2` has announced `fe80::3`. -/
def recordedDag : Dag := { hybridNet.rootDag with childs := [⟨linkLocal 3, linkLocal 2⟩] }

/-- A target that is recorded already and a single byte have no effect. -/
theorem strayByte_noEffect :
    DaoMalformed strayTarget ∧ daoPrefixes strayTarget = [linkLocal 3] ∧
      DaoNoEffect sampleDaoCalls (fun _ _ => some recordedDag) strayTarget (linkLocal 2) := by
  have hmalformed := daoMalformed_of_endsAtByte (by decide) strayTarget_endsAtByte
  refine ⟨hmalformed, daoPrefixes_strayTarget,
    (daoNoEffect_iff looksUpChild_sampleDaoCalls.lookupOrCreate (fun _ _ => some recordedDag)
      (linkLocal 2) hmalformed).mpr fun dag hdag => ⟨strayTarget_endsAtByte, ?_⟩⟩
  obtain rfl := Option.some.inj hdag
  rw [daoPrefixes_strayTarget, List.forall_mem_singleton]
  rfl

/-- A target before a single byte is recorded, and a length byte that runs past the end
is acknowledged. -/
theorem malformedDao_effects :
    (DaoMalformed (daoWith (targetOption.encode ++ [0])) ∧
      ¬ DaoNoEffect sampleCalls (fun _ _ => some hybridNet.rootDag)
        (daoWith (targetOption.encode ++ [0])) (linkLocal 2)) ∧
    (DaoMalformed (daoWith [1, 5]) ∧
      ¬ DaoNoEffect sampleCalls (fun _ _ => some hybridNet.rootDag) (daoWith [1, 5])
        (linkLocal 2)) := by
  refine ⟨?_, ?_⟩
  · refine ⟨daoMalformed_of_endsAtByte (by decide) strayTarget_endsAtByte, ?_⟩
    have hends : daoEndsWell strayTarget = false :=
      (daoEndsWell_eq_false_iff (by decide)).mpr strayTarget_endsAtByte
    change ¬ DaoNoEffect sampleCalls (fun _ _ => some hybridNet.rootDag) strayTarget (linkLocal 2)
    rw [daoNoEffect_iff_of_stray (by decide) rfl hends, daoPrefixes_strayTarget]
    decide
  · refine ⟨daoMalformed_of_overrun 1 5 (by decide), ?_⟩
    have hends : daoEndsWell (daoWith [1, 5]) = true := by
      have hheader : (daoWith [1, 5]).byte 21 = 5 := by decide
      have hlen : (daoWith [1, 5]).bytes.length - 20 = 2 := by decide
      rw [daoEndsWell, hlen, endsWell_of_le (Nat.le_refl 2), hheader, endsWell_of_lt (by decide)]
      decide
    exact not_daoNoEffect_of_endsWell (by decide) rfl hends

end HyMRPL
