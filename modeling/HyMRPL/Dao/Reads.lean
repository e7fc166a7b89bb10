import HyMRPL.Process.DaoWalk
import HyMRPL.Root.Targets

/-!
# What is read of a DAO

`processDaoReads` lists what `process_dao` reads of the message, in the order of the
source. `processDao_eq_of_agreeOn` says that nothing is missing from it: two messages
that agree there have the same effect.

The source compares the bytes that are left with the header of an option where it casts
to a target or a transit option. So the reads stay inside the message, and inside the
option, exactly when every target and every transit option that the walk meets has room
for its fields.
-/

namespace HyMRPL

open Tlv

/-- The fields of an option that are used: `transit->parent`, `target->rpl_dao_prefix`. -/
def daoOptionFields (msg : Packet) (p : ℕ) : List Span :=
  if msg.byte p = rplDaoTransitInfo then [⟨p + 6, 16⟩]
  else if msg.byte p = rplDaoRplTarget then [⟨p + 4, 16⟩]
  else []

/-- The reads of the option walk at an option: `opt->type`, the fields, `opt->len`. -/
def daoOptionReads (msg : Packet) (p : ℕ) : List Span :=
  ⟨p, 1⟩ :: daoOptionFields msg p ++ [⟨p + 1, 1⟩]

/-- The step of the option walk together with its reads. -/
def daoOptionTraced (calls : DaoCalls) (msg : Packet) (src : In6Addr) (p : ℕ)
    (w : DaoWalk × List Span) : DaoWalk × List Span :=
  (daoOption calls msg src p w.1, w.2 ++ daoOptionReads msg p)

/-- The reads of the loop that inserts the collected targets. -/
def daoInsertReads (w : DaoWalk) : List Span :=
  match w.transit with
  | some transit => w.targets.flatMap fun target => [⟨transit + 6, 16⟩, ⟨target + 4, 16⟩]
  | none => []

/-- What `process_dao` reads of the message. -/
def processDaoReads (calls : DaoCalls) (dagLookup : UInt8 → In6Addr → Option Dag)
    (msg : Packet) (src : In6Addr) : List Span :=
  if msg.bytes.length < 20 then []
  else
    -- The identifiers are read by `dag_lookup`, and the second one again for the log.
    ⟨0, 1⟩ :: ⟨4, 16⟩ ::
    match dagLookup (msg.byte 0) (msg.field 16 4) with
    | none => [⟨4, 16⟩]
    | some dag =>
      let ((w, reads), complete) := walk msg (daoOptionTraced calls msg src) 20
        (msg.bytes.length - 20) ({ childs := dag.childs, transit := none, targets := [] }, [])
      if complete = false then reads
      else if dag.BuildsSourceRoutes then reads ++ daoInsertReads w
      else reads

/-- The options that `process_dao` meets: none when the message is dropped at once. -/
def daoOptionsMet (dagLookup : UInt8 → In6Addr → Option Dag) (msg : Packet) : List ℕ :=
  if msg.bytes.length < 20 ∨ dagLookup (msg.byte 0) (msg.field 16 4) = none then []
  else offsets msg 20 (msg.bytes.length - 20)

/-- Every read lies inside the message, and the fields of every option that is met lie
inside the extent that its length byte declares. -/
def DaoReadsInside (calls : DaoCalls) (dagLookup : UInt8 → In6Addr → Option Dag)
    (msg : Packet) (src : In6Addr) : Prop :=
  (∀ s ∈ processDaoReads calls dagLookup msg src, s.Within 0 msg.bytes.length) ∧
    ∀ p ∈ daoOptionsMet dagLookup msg, ∀ s ∈ daoOptionFields msg p,
      s.Within p (p + 2 + (msg.byte (p + 1)).toNat)

/-- The checks that fit the casts: `sizeof(struct rpl_dao_target)` is 20 and
`sizeof(struct rpl_dao_transit)` is 22, of which the first two bytes are the header. -/
def DaoOptionHasRoom (msg : Packet) (p : ℕ) : Prop :=
  (msg.byte p = rplDaoRplTarget →
    p + 20 ≤ msg.bytes.length ∧ 18 ≤ (msg.byte (p + 1)).toNat) ∧
  (msg.byte p = rplDaoTransitInfo →
    p + 22 ≤ msg.bytes.length ∧ 20 ≤ (msg.byte (p + 1)).toNat)

variable {calls : DaoCalls} {dagLookup : UInt8 → In6Addr → Option Dag} {msg : Packet}
  {src : In6Addr}

/-- An option has room exactly when its fields lie inside the message and the option. -/
theorem daoOptionHasRoom_iff (p : ℕ) :
    DaoOptionHasRoom msg p ↔ ∀ s ∈ daoOptionFields msg p,
      s.Within 0 msg.bytes.length ∧ s.Within p (p + 2 + (msg.byte (p + 1)).toNat) := by
  by_cases hti : msg.byte p = rplDaoTransitInfo
  · simp only [DaoOptionHasRoom, daoOptionFields, hti, transitInfo_ne_rplTarget, if_true,
      List.forall_mem_singleton, Span.Within, false_imp_iff, true_imp_iff, true_and]
    omega
  · by_cases htg : msg.byte p = rplDaoRplTarget
    · simp only [DaoOptionHasRoom, daoOptionFields, htg, transitInfo_ne_rplTarget.symm, if_true,
        if_false, List.forall_mem_singleton, Span.Within, false_imp_iff, true_imp_iff, and_true]
      omega
    · simp [DaoOptionHasRoom, daoOptionFields, hti, htg]

theorem foldl_daoOptionTraced (ps : List ℕ) (w : DaoWalk) (reads : List Span) :
    ps.foldl (fun w p => daoOptionTraced calls msg src p w) (w, reads) =
      (ps.foldl (fun w p => daoOption calls msg src p w) w,
        reads ++ ps.flatMap (daoOptionReads msg)) := by
  induction ps generalizing w reads with
  | nil => simp
  | cons p ps ih =>
      rw [List.foldl_cons, daoOptionTraced, ih, List.flatMap_cons, List.append_assoc]
      rfl

/-- The walk reads at every option that it meets. -/
theorem walk_daoOptionTraced (calls : DaoCalls) (msg : Packet) (src : In6Addr)
    (childs : List Child) :
    walk msg (daoOptionTraced calls msg src) 20 (msg.bytes.length - 20)
        ({ childs := childs, transit := none, targets := [] }, []) =
      ((daoCollected calls msg src childs,
        (offsets msg 20 (msg.bytes.length - 20)).flatMap (daoOptionReads msg)),
        daoEndsWell msg) := by
  rw [walk_eq, foldl_daoOptionTraced]
  have hwalk := walk_daoOption calls msg src childs
  rw [walk_eq] at hwalk
  rw [(Prod.mk.inj hwalk).1, (Prod.mk.inj hwalk).2, List.nil_append]

/-- The insertion loop reads fields of options that the walk has met. -/
theorem mem_of_mem_daoInsertReads {childs : List Child} {s : Span}
    (h : s ∈ daoInsertReads (daoCollected calls msg src childs)) :
    ∃ p ∈ offsets msg 20 (msg.bytes.length - 20), s ∈ daoOptionFields msg p := by
  cases htransit : (daoTransitOffsets msg).getLast? with
  | none => simp [daoInsertReads, daoCollected, htransit] at h
  | some transit =>
      simp only [daoInsertReads, daoCollected, htransit, List.mem_flatMap, List.mem_cons,
        List.not_mem_nil, or_false] at h
      obtain ⟨target, htarget, rfl | rfl⟩ := h
      · obtain ⟨hmem, hti⟩ := List.mem_filter.mp (List.mem_of_getLast? htransit)
        refine ⟨transit, hmem, ?_⟩
        simp [daoOptionFields, of_decide_eq_true hti]
      · obtain ⟨hmem, htg⟩ := List.mem_filter.mp (List.mem_of_mem_take htarget)
        refine ⟨target, hmem, ?_⟩
        simp [daoOptionFields, of_decide_eq_true htg, transitInfo_ne_rplTarget.symm]

/-- Everything that is read lies in the header or belongs to an option that is met. -/
theorem mem_processDaoReads {s : Span} (h : s ∈ processDaoReads calls dagLookup msg src) :
    20 ≤ msg.bytes.length ∧ (s.Within 0 20 ∨
      ∃ p ∈ daoOptionsMet dagLookup msg, s ∈ daoOptionReads msg p) := by
  by_cases hlen : msg.bytes.length < 20
  · simp [processDaoReads, hlen] at h
  · refine ⟨Nat.not_lt.mp hlen, ?_⟩
    cases hlookup : dagLookup (msg.byte 0) (msg.field 16 4) with
    | none =>
        left
        have hs : s = ⟨0, 1⟩ ∨ s = ⟨4, 16⟩ := by
          simpa [processDaoReads, hlen, hlookup, or_assoc] using h
        rcases hs with rfl | rfl <;> decide
    | some dag =>
        have hmet : daoOptionsMet dagLookup msg = offsets msg 20 (msg.bytes.length - 20) := by
          simp [daoOptionsMet, hlen, hlookup]
        have hs : s = ⟨0, 1⟩ ∨ s = ⟨4, 16⟩ ∨
            s ∈ (offsets msg 20 (msg.bytes.length - 20)).flatMap (daoOptionReads msg) ∨
            s ∈ daoInsertReads (daoCollected calls msg src dag.childs) := by
          simp only [processDaoReads, hlen, hlookup, walk_daoOptionTraced, if_false] at h
          split_ifs at h <;> simp only [List.mem_cons, List.mem_append] at h <;> tauto
        rw [hmet]
        rcases hs with rfl | rfl | hs | hs
        · exact Or.inl (by decide)
        · exact Or.inl (by decide)
        · exact Or.inr (List.mem_flatMap.mp hs)
        · obtain ⟨p, hp, hfields⟩ := mem_of_mem_daoInsertReads hs
          exact Or.inr ⟨p, hp, by simp [daoOptionReads, hfields]⟩

/-- Every option that is met is read. -/
theorem daoOptionReads_subset {p : ℕ} (hp : p ∈ daoOptionsMet dagLookup msg) (calls : DaoCalls)
    (src : In6Addr) :
    20 ≤ msg.bytes.length ∧ p ∈ offsets msg 20 (msg.bytes.length - 20) ∧
      ∀ s ∈ daoOptionReads msg p, s ∈ processDaoReads calls dagLookup msg src := by
  by_cases hlen : msg.bytes.length < 20
  · simp [daoOptionsMet, hlen] at hp
  · cases hlookup : dagLookup (msg.byte 0) (msg.field 16 4) with
    | none => simp [daoOptionsMet, hlookup] at hp
    | some dag =>
        rw [daoOptionsMet, if_neg (by simp [hlen, hlookup])] at hp
        refine ⟨Nat.not_lt.mp hlen, hp, fun s hs => ?_⟩
        have hwalk : s ∈ (offsets msg 20 (msg.bytes.length - 20)).flatMap (daoOptionReads msg) :=
          List.mem_flatMap.mpr ⟨p, hp, hs⟩
        simp only [processDaoReads, hlen, hlookup, walk_daoOptionTraced, if_false]
        split_ifs <;> simp [hwalk]

/-- The reads of DAO parsing lie inside the message, and the fields of every option
inside the option, exactly when every target and every transit option that is met has
room for its fields. -/
theorem daoReadsInside_iff (calls : DaoCalls) (dagLookup : UInt8 → In6Addr → Option Dag)
    (msg : Packet) (src : In6Addr) :
    DaoReadsInside calls dagLookup msg src ↔
      ∀ p ∈ daoOptionsMet dagLookup msg, DaoOptionHasRoom msg p := by
  constructor
  · rintro ⟨hinside, hextent⟩ p hp
    obtain ⟨-, -, hreads⟩ := daoOptionReads_subset hp calls src
    rw [daoOptionHasRoom_iff]
    intro s hs
    exact ⟨hinside s (hreads s (by simp [daoOptionReads, hs])), hextent p hp s hs⟩
  · intro hroom
    constructor
    · intro s hs
      obtain ⟨hlen, hheader | ⟨p, hp, hread⟩⟩ := mem_processDaoReads hs
      · exact ⟨hheader.1, hheader.2.trans hlen⟩
      · obtain ⟨-, hoffset, -⟩ := daoOptionReads_subset hp calls src
        obtain ⟨-, hend⟩ := le_of_mem_offsets hoffset
        simp only [daoOptionReads, List.mem_append, List.mem_cons, List.not_mem_nil,
          or_false] at hread
        rcases hread with (rfl | hfield) | rfl
        · exact ⟨Nat.zero_le _, by simp only; omega⟩
        · exact ((daoOptionHasRoom_iff p).mp (hroom p hp) s hfield).1
        · exact ⟨Nat.zero_le _, by simp only; omega⟩
    · intro p hp s hs
      exact ((daoOptionHasRoom_iff p).mp (hroom p hp) s hs).2

/-- The header of a DAO and a target option that breaks off after its own header. -/
def cutTarget : Packet :=
  ⟨(⟨1, 0, 0, 0, linkLocal 1⟩ : DaoHeader).encode ++ [rplDaoRplTarget, 18], fun _ => 0⟩

/-- The prefix of the target is read from behind the end of the message. -/
theorem cutTarget_read_outside :
    ⟨24, 16⟩ ∈ processDaoReads sampleCalls (fun _ _ => some hybridNet.rootDag) cutTarget
        (linkLocal 2) ∧
      cutTarget.bytes.length = 22 ∧
      ¬ DaoReadsInside sampleCalls (fun _ _ => some hybridNet.rootDag) cutTarget
        (linkLocal 2) := by
  have hlen : cutTarget.bytes.length = 22 := rfl
  have hmet : 20 ∈ daoOptionsMet (fun _ _ => some hybridNet.rootDag) cutTarget := by
    simp [daoOptionsMet, hlen, offsets_of_le]
  have hread : (⟨24, 16⟩ : Span) ∈ processDaoReads sampleCalls
      (fun _ _ => some hybridNet.rootDag) cutTarget (linkLocal 2) :=
    (daoOptionReads_subset hmet _ _).2.2 _ (by decide)
  exact ⟨hread, hlen, fun h => absurd (h.1 _ hread) (by decide)⟩

/-- Messages of one length that agree on what is read of the options are the same to
`process_dao` up to their headers. -/
theorem seen_eq_of_agreeOn {msg' : Packet} (hlen : msg.bytes.length = msg'.bytes.length)
    (h : ∀ p ∈ offsets msg 20 (msg.bytes.length - 20), ∀ s ∈ daoOptionReads msg p,
      msg.AgreeOn msg' s) :
    daoPrefixes msg = daoPrefixes msg' ∧ daoParent? msg = daoParent? msg' ∧
      daoEndsWell msg = daoEndsWell msg' := by
  have htype : ∀ p ∈ offsets msg 20 (msg.bytes.length - 20), msg.byte p = msg'.byte p :=
    fun p hp => (h p hp ⟨p, 1⟩ (by simp [daoOptionReads])).byte_eq
  have hlength : ∀ p ∈ offsets msg 20 (msg.bytes.length - 20),
      msg.byte (p + 1) = msg'.byte (p + 1) :=
    fun p hp => (h p hp ⟨p + 1, 1⟩ (by simp [daoOptionReads])).byte_eq
  obtain ⟨hoffsets, hends⟩ := offsets_congr hlength
  have htargets : daoTargetOffsets msg' = daoTargetOffsets msg := by
    rw [daoTargetOffsets, ← hlen, hoffsets]
    exact List.filter_congr fun p hp => by rw [htype p hp]
  have htransits : daoTransitOffsets msg' = daoTransitOffsets msg := by
    rw [daoTransitOffsets, ← hlen, hoffsets]
    exact List.filter_congr fun p hp => by rw [htype p hp]
  refine ⟨?_, ?_, by rw [daoEndsWell, daoEndsWell, ← hlen, hends]⟩
  · rw [daoPrefixes, daoPrefixes, htargets]
    apply List.map_congr_left
    intro p hp
    obtain ⟨hmem, htg⟩ := List.mem_filter.mp hp
    have hread : (⟨p + 4, 16⟩ : Span) ∈ daoOptionReads msg p := by
      simp [daoOptionReads, daoOptionFields, of_decide_eq_true htg, transitInfo_ne_rplTarget.symm]
    exact (h p hmem _ hread).field_eq
  · rw [daoParent?, daoParent?, htransits]
    apply Option.map_congr
    intro p hp
    obtain ⟨hmem, hti⟩ := List.mem_filter.mp (List.mem_of_getLast? hp)
    have hread : (⟨p + 6, 16⟩ : Span) ∈ daoOptionReads msg p := by
      simp [daoOptionReads, daoOptionFields, of_decide_eq_true hti]
    exact (h p hmem _ hread).field_eq

/-- Messages of one length that agree on what is read of the first have the same
effect: `processDaoReads` misses nothing. -/
theorem processDao_eq_of_agreeOn {msg' : Packet} (hlen : msg.bytes.length = msg'.bytes.length)
    (h : ∀ s ∈ processDaoReads calls dagLookup msg src, msg.AgreeOn msg' s) :
    processDao calls dagLookup msg src = processDao calls dagLookup msg' src := by
  by_cases hshort : msg.bytes.length < 20
  · rw [processDao_eq_none_iff.mpr (Or.inl hshort),
      processDao_eq_none_iff.mpr (Or.inl (hlen ▸ hshort))]
  · have hid : msg.byte 0 = msg'.byte 0 :=
      (h ⟨0, 1⟩ (by simp [processDaoReads, hshort])).byte_eq
    have hdagid : msg.field 16 4 = msg'.field 16 4 :=
      (h ⟨4, 16⟩ (by simp [processDaoReads, hshort])).field_eq
    cases hlookup : dagLookup (msg.byte 0) (msg.field 16 4) with
    | none =>
        have hlookup' : dagLookup (msg'.byte 0) (msg'.field 16 4) = none := by
          rw [← hid, ← hdagid, hlookup]
        rw [processDao_eq_none_iff.mpr (Or.inr hlookup),
          processDao_eq_none_iff.mpr (Or.inr hlookup')]
    | some dag =>
        have hmet : daoOptionsMet dagLookup msg = offsets msg 20 (msg.bytes.length - 20) := by
          rw [daoOptionsMet, if_neg (by simp [hshort, hlookup])]
        obtain ⟨hprefixes, hparent, hends⟩ := seen_eq_of_agreeOn hlen fun p hp s hs =>
          h s ((daoOptionReads_subset (hmet ▸ hp) calls src).2.2 s hs)
        exact processDao_congr (Nat.not_lt.mp hshort) (hlen ▸ Nat.not_lt.mp hshort) hid hdagid
          hprefixes hparent hends calls dagLookup src

end HyMRPL
