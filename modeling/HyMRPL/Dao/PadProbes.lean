import HyMRPL.Dao.PadReading

/-!
# Padding that is harmful

Padding that does not read as whole options that are passed over changes the outcome of some
DAO. Targets and transit options that are read from its bytes show in a DAO whose options are
all empty. If the reading does not end with the padding, it goes on inside the option behind
it. Let this be a target: then a byte of its address can be changed that is not read, so that
two DAOs are told apart by their targets but not by the walk.
-/

namespace HyMRPL

open Tlv

section Reading

variable {msg : Packet} {opts : List Opt}

theorem passedOver_of_holdsAt {ps : List ℕ} (hholds : List.Forall₂ msg.HoldsAt ps opts) :
    (∀ q ∈ ps, PassedOver (msg.byte q)) ↔ ∀ o ∈ opts, PassedOver o.type := by
  induction hholds with
  | nil => simp
  | cons hp _ ih => rw [List.forall_mem_cons, List.forall_mem_cons, ih, hp.byte_type]

/-- The first byte behind some options. -/
theorem byte_behind {header : DaoHeader} {t : UInt8} {rest : List UInt8}
    (hbytes : msg.bytes = header.encode ++ (encode opts ++ t :: rest)) :
    msg.byte (20 + (encode opts).length) = t := by
  rw [← List.append_assoc] at hbytes
  have hbyte := Packet.byte_of_eq_append hbytes (i := 0) (Nat.succ_pos _)
  rwa [List.length_append, length_encode_header] at hbyte

/-- The prefixes of the targets that the walk meets from an offset on. -/
def targetsFrom (msg : Packet) (p optlen : ℕ) : List In6Addr :=
  ((offsets msg p optlen).filter fun q => msg.byte q = rplDaoRplTarget).map (daoPrefixAt msg)

/-- What lies in front of the offset is not read. -/
theorem targetsFrom_congr {before before' rest : List UInt8} {beyond : ℕ → UInt8} {p : ℕ}
    (hlen : before.length = before'.length) (hp : before.length ≤ p) (optlen : ℕ) :
    targetsFrom ⟨before ++ rest, beyond⟩ p optlen =
      targetsFrom ⟨before' ++ rest, beyond⟩ p optlen := by
  have hbyte : ∀ x, before.length ≤ x →
      (Packet.mk (before ++ rest) beyond).byte x = (Packet.mk (before' ++ rest) beyond).byte x := by
    intro x hx
    rw [Packet.byte, Packet.byte, List.getElem?_append_right hx,
      List.getElem?_append_right (hlen ▸ hx), hlen]
  have hle : ∀ q ∈ offsets ⟨before ++ rest, beyond⟩ p optlen, before.length ≤ q :=
    fun q hq => hp.trans (le_of_mem_offsets hq).1
  have hlength : ∀ q ∈ offsets ⟨before ++ rest, beyond⟩ p optlen,
      (Packet.mk (before ++ rest) beyond).byte (q + 1) =
        (Packet.mk (before' ++ rest) beyond).byte (q + 1) :=
    fun q hq => hbyte (q + 1) ((hle q hq).trans (Nat.le_succ q))
  obtain ⟨hoffsets, -⟩ := offsets_congr hlength
  rw [targetsFrom, targetsFrom, hoffsets]
  have hfilter := List.filter_congr fun q hq =>
    congrArg (fun b => decide (b = rplDaoRplTarget)) (hbyte q (hle q hq))
  rw [← hfilter]
  refine List.map_congr_left fun q hq => ?_
  have hq := hle q (List.mem_of_mem_filter hq)
  apply Vector.ext
  intro i hi
  simpa [daoPrefixAt, Packet.field] using hbyte (q + 4 + i) (by omega)

end Reading

/-- An empty option. -/
def emptyOpt : Opt := ⟨rplOptPad0, [], by decide⟩

/-- The header of the probes. -/
def probeHeader : DaoHeader := ⟨1, 0, 0, 0, linkLocal 1⟩

/-- A DAO of empty options. -/
def emptyDao (n : ℕ) : DaoMessage where
  header := probeHeader
  opts := List.replicate n emptyOpt
  fits o ho := by
    obtain rfl := List.eq_of_mem_replicate ho
    exact daoOptFits_of_passedOver (by decide)

theorem addresses_emptyDao (n : ℕ) : (emptyDao n).targets = [] ∧ (emptyDao n).parents = [] := by
  apply filterMap_of_passedOver
  intro o ho
  obtain rfl := List.eq_of_mem_replicate ho
  decide

/-- If padding leaves the outcome of a DAO of empty options as it is, everything that the walk
meets in it is passed over, and it ends well. -/
theorem passedOver_of_emptyDao {padding : ℕ → List Pad} {n : ℕ} {beyond : ℕ → UInt8}
    (h : SameDaoOutcome ((emptyDao n).padded padding beyond) ((emptyDao n).packet beyond)) :
    let msg := (emptyDao n).padded padding beyond
    (∀ q ∈ offsets msg 20 (msg.bytes.length - 20), PassedOver (msg.byte q)) ∧
      daoEndsWell msg = true := by
  intro msg
  obtain ⟨hprefixes, hparent, hends⟩ := (samePaddedOutcome_iff _ _ _).mp h
  obtain ⟨htargets, hparents⟩ := addresses_emptyDao n
  rw [htargets, daoPrefixes, List.map_eq_nil_iff, daoTargetOffsets,
    List.filter_eq_nil_iff] at hprefixes
  rw [hparents, List.getLast?_nil, daoParent?, Option.map_eq_none_iff, List.getLast?_eq_none_iff,
    daoTransitOffsets, List.filter_eq_nil_iff] at hparent
  refine ⟨fun q hq => ⟨fun htg => ?_, fun hti => ?_⟩, hends⟩
  · exact hprefixes q hq (decide_eq_true htg)
  · exact hparent q hq (decide_eq_true hti)

/-- What stands behind the first padding. -/
theorem exists_padArea_eq (padding : ℕ → List Pad) (opts : List Opt) :
    ∃ after, padArea padding opts = padBytes (padding 0) ++ after ∧
      (opts = [] ↔ after = []) := by
  cases opts with
  | nil => exact ⟨[], by rw [padArea, List.append_nil], by simp⟩
  | cons o opts => exact ⟨_, rfl, by simp [Opt.encode]⟩

/-- Empty options and harmless padding in front of them are passed over. -/
theorem exists_opts_of_emptyOpts {padding : ℕ → List Pad} {i : ℕ}
    (hbefore : ∀ j < i, ReadsAsPadding (padBytes (padding j))) :
    ∃ opts, (∀ o ∈ opts, PassedOver o.type) ∧ ∀ rest,
      padArea padding (List.replicate i emptyOpt ++ rest) =
        encode opts ++ padArea (fun j => padding (i + j)) rest := by
  obtain ⟨opts, harea, -, -, hall⟩ := exists_opts_of_padding padding
    (List.replicate i emptyOpt) (by simpa using hbefore)
  rw [List.length_replicate] at harea
  refine ⟨opts, hall (fun o => PassedOver o.type) (fun _ ho => ho) fun o ho => ?_, harea⟩
  obtain rfl := List.eq_of_mem_replicate ho
  decide

/-- How the padding at a place is read, if that in front of it is harmless and the padding
leaves the outcome of a DAO of empty options as it is. -/
theorem exists_reading_of_emptyDao {padding : ℕ → List Pad} {n i : ℕ} {beyond : ℕ → UInt8}
    (h : SameDaoOutcome ((emptyDao n).padded padding beyond) ((emptyDao n).packet beyond))
    (hbefore : ∀ j < i, ReadsAsPadding (padBytes (padding j))) (hi : i ≤ n) :
    ∃ opts tail, padBytes (padding i) = encode opts ++ tail ∧ Incomplete tail ∧
      (∀ o ∈ opts, PassedOver o.type) ∧
      (∀ t rest, tail = t :: rest → i < n ∨ rest ≠ [] → PassedOver t) ∧
      (i = n → tail.length ≠ 1) := by
  obtain ⟨hpassed, hends⟩ := passedOver_of_emptyDao h
  obtain ⟨opts, tail, hread, htail⟩ := exists_reading (padBytes (padding i))
  obtain ⟨opts', -, harea⟩ := exists_opts_of_emptyOpts hbefore
  obtain ⟨after, hafter, hempty⟩ := exists_padArea_eq (fun j => padding (i + j))
    (List.replicate (n - i) emptyOpt)
  have hbytes : ((emptyDao n).padded padding beyond).bytes =
      probeHeader.encode ++ (encode (opts' ++ opts) ++ (tail ++ after)) := by
    have hsplit : (emptyDao n).opts =
        List.replicate i emptyOpt ++ List.replicate (n - i) emptyOpt := by
      rw [← List.replicate_add, Nat.add_sub_cancel' hi]
      rfl
    rw [DaoMessage.padded, hsplit, harea, hafter, Nat.add_zero, hread, encode_append,
      List.append_assoc, List.append_assoc]
    rfl
  obtain ⟨ps, hholds, hoffsets, hwell⟩ := exists_daoOffsets hbytes
  rw [hoffsets, List.forall_mem_append, passedOver_of_holdsAt hholds, List.forall_mem_append]
    at hpassed
  refine ⟨opts, tail, hread, htail, hpassed.1.2, fun t rest ht hmore => ?_, fun hn hone => ?_⟩
  · have hlong : 2 ≤ (tail ++ after).length := by
      have hrest : rest ++ after ≠ [] := by
        rcases hmore with hlt | hne
        · have hne := mt hempty.mpr (by simpa using Nat.sub_ne_zero_of_lt hlt)
          simp [hne]
        · simp [hne]
      rw [ht, List.cons_append, List.length_cons]
      exact Nat.succ_le_succ (List.length_pos_iff.mpr hrest)
    have hfirst := hpassed.2 _ (by rw [offsets_of_le hlong]; exact List.mem_cons_self ..)
    rw [ht, List.cons_append] at hbytes
    rwa [byte_behind hbytes] at hfirst
  · have hnil : after = [] := hempty.mp (by rw [hn, Nat.sub_self]; rfl)
    rw [hends, hnil, List.append_nil, hone, endsWell_of_lt Nat.one_lt_two] at hwell
    exact absurd hwell (by decide)

/-- A long target option. -/
def longTarget (address : In6Addr) : Opt where
  type := rplDaoRplTarget
  data := [48, 48] ++ (address.toList ++ List.replicate 237 0)
  length_lt := by
    rw [List.length_append, List.length_append, Vector.length_toList, List.length_replicate]
    decide

theorem length_data_longTarget (address : In6Addr) : (longTarget address).data.length = 255 := by
  rw [longTarget, List.length_append, List.length_append, Vector.length_toList,
    List.length_replicate]
  rfl

theorem encode_longTarget (address : In6Addr) :
    (longTarget address).encode =
      [rplDaoRplTarget, 255, 48, 48] ++ (address.toList ++ List.replicate 237 0) := by
  rw [Opt.encode, length_data_longTarget]
  rfl

theorem target?_longTarget (address : In6Addr) : target? (longTarget address) = some address :=
  congrArg some (field_append [48, 48] address (List.replicate 237 0))

/-- An address of which the last byte is given. -/
def lateAddress (c : UInt8) : In6Addr := (Vector.replicate 15 48).push c

/-- An address of which the first byte is given. -/
def earlyAddress (c : UInt8) : In6Addr := (Vector.replicate 16 48).set 0 c

/-- The long target up to the last byte of its address. -/
def lateFront (c : UInt8) : List UInt8 := [rplDaoRplTarget, 255] ++ List.replicate 17 48 ++ [c]

/-- The long target up to the first byte of its address. -/
def earlyFront (c : UInt8) : List UInt8 := [rplDaoRplTarget, 255, 48, 48, c]

theorem encode_lateAddress (c : UInt8) :
    (longTarget (lateAddress c)).encode = lateFront c ++ List.replicate 237 0 := by
  rw [encode_longTarget, lateAddress, Vector.toList_push, Vector.toList_replicate]
  rfl

theorem encode_earlyAddress (c : UInt8) :
    (longTarget (earlyAddress c)).encode =
      earlyFront c ++ (List.replicate 15 48 ++ List.replicate 237 0) := by
  rw [encode_longTarget, earlyAddress, Vector.toList_set, Vector.toList_replicate]
  rfl

theorem lateFront_header : ∀ c ∈ [48, 49], ∀ k < 18, 1 ≤ k →
    (lateFront c).getD k 0 ≠ rplDaoRplTarget ∧ (lateFront c).getD (k + 1) 0 = 48 := by
  decide +kernel

/-- A header is read in front of the last byte of the address, and its data contain the byte. -/
theorem targetsFrom_lateFront {c : UInt8} (hc : c ∈ [48, 49]) {k : ℕ} (hpos : 1 ≤ k)
    (hk : k < 18) (before rest : List UInt8) (beyond : ℕ → UInt8) {optlen : ℕ} (hlen : 2 ≤ optlen) :
    targetsFrom ⟨before ++ (lateFront c ++ rest), beyond⟩ (before.length + k) optlen =
      targetsFrom ⟨(before ++ lateFront c) ++ rest, beyond⟩ (before.length + k + 50)
        (optlen - 50) := by
  obtain ⟨htype, hlength⟩ := lateFront_header c hc k hk hpos
  have hfront : (lateFront c).length = 20 := rfl
  have hbyte : ∀ j < 20, (Packet.mk (before ++ (lateFront c ++ rest)) beyond).byte
      (before.length + j) = (lateFront c).getD j 0 :=
    fun j hj => Packet.byte_of_append rfl (hj.trans_eq hfront.symm)
  have hnext := hbyte (k + 1) (by omega)
  rw [hlength, ← Nat.add_assoc] at hnext
  have hskip : 2 + (48 : UInt8).toNat = 50 := rfl
  rw [List.append_assoc, targetsFrom, offsets_of_le hlen, hnext, hskip, List.filter_cons_of_neg]
  · rfl
  · rw [hbyte k (by omega)]
    simpa using htype

/-- A reading that starts inside the target does not tell two of its addresses apart. -/
theorem exists_hidden_address {k : ℕ} (hpos : 1 ≤ k) :
    ∃ a b : In6Addr, a ≠ b ∧ ∀ before after beyond optlen,
      targetsFrom ⟨before ++ ((longTarget a).encode ++ after), beyond⟩ (before.length + k) optlen =
        targetsFrom ⟨before ++ ((longTarget b).encode ++ after), beyond⟩ (before.length + k)
          optlen := by
  by_cases hk : k < 18
  · refine ⟨lateAddress 48, lateAddress 49, by decide, fun before after beyond optlen => ?_⟩
    rw [encode_lateAddress, encode_lateAddress, List.append_assoc, List.append_assoc]
    by_cases hlen : optlen < 2
    · rw [targetsFrom, targetsFrom, offsets_of_lt hlen, offsets_of_lt hlen]
      simp only [List.filter_nil, List.map_nil]
    · rw [targetsFrom_lateFront (by decide) hpos hk _ _ _ (Nat.not_lt.mp hlen),
        targetsFrom_lateFront (by decide) hpos hk _ _ _ (Nat.not_lt.mp hlen)]
      apply targetsFrom_congr
      · rw [List.length_append, List.length_append]
        rfl
      · have hfront : (lateFront 48).length = 20 := rfl
        rw [List.length_append, hfront]
        omega
  · -- The first byte of the address lies in front of the reading.
    refine ⟨earlyAddress 48, earlyAddress 49, by decide, fun before after beyond optlen => ?_⟩
    have hsplit (c : UInt8) : before ++ ((longTarget (earlyAddress c)).encode ++ after) =
        (before ++ earlyFront c) ++
          (List.replicate 15 48 ++ (List.replicate 237 0 ++ after)) := by
      rw [encode_earlyAddress, List.append_assoc, List.append_assoc, List.append_assoc]
    rw [hsplit, hsplit]
    apply targetsFrom_congr
    · rw [List.length_append, List.length_append]
      rfl
    · have hfront : (earlyFront 48).length = 5 := rfl
      rw [List.length_append, hfront]
      omega

/-- What is left of a padding takes a part of the target behind it for its own. -/
theorem exists_overhang {tail : List UInt8} (htail : Incomplete tail) (hne : tail ≠ []) :
    ∃ k, 1 ≤ k ∧ ∀ (msg : Packet) (before next : List UInt8),
      msg.bytes = before ++ (tail ++ rplDaoRplTarget :: next) → ∀ optlen, 2 ≤ optlen →
        offsets msg before.length optlen =
          before.length :: offsets msg (before.length + tail.length + k)
            (optlen - (tail.length + k)) := by
  cases htail with
  | empty => exact absurd rfl hne
  | stray b =>
      refine ⟨6, by decide, fun msg before next hmsg optlen hlen => ?_⟩
      have hheader : msg.byte (before.length + 1) = rplDaoRplTarget :=
        Packet.byte_of_eq_append hmsg (i := 1) (by simp)
      rw [offsets_of_le hlen, hheader]
      rfl
  | overrun t len rest h =>
      refine ⟨len.toNat - rest.length, Nat.sub_pos_of_lt h, fun msg before next hmsg optlen hlen =>
        ?_⟩
      have hheader : msg.byte (before.length + 1) = len :=
        Packet.byte_of_append hmsg (i := 1) (by simp)
      have hskip : 2 + len.toNat = (t :: len :: rest).length + (len.toNat - rest.length) := by
        simp only [List.length_cons]
        omega
      rw [offsets_of_le hlen, hheader, hskip, Nat.add_assoc]

/-- All targets of such a message are met behind the padding. -/
theorem exists_daoPrefixes_eq {tail : List UInt8} (htail : Incomplete tail) (hne : tail ≠ [])
    (hhead : ∀ t rest, tail = t :: rest → PassedOver t) :
    ∃ k, 1 ≤ k ∧ ∀ (msg : Packet) (header : DaoHeader) (opts : List Opt) (next : List UInt8),
      msg.bytes = (header.encode ++ encode opts) ++ (tail ++ rplDaoRplTarget :: next) →
        (∀ o ∈ opts, PassedOver o.type) → daoPrefixes msg =
          targetsFrom msg ((header.encode ++ encode opts).length + tail.length + k)
            ((tail ++ rplDaoRplTarget :: next).length - (tail.length + k)) := by
  obtain ⟨k, hpos, hoverhang⟩ := exists_overhang htail hne
  refine ⟨k, hpos, fun msg header opts next hmsg hpassed => ?_⟩
  obtain ⟨ps, hholds, hoffsets, -⟩ := exists_daoOffsets (by rw [hmsg, List.append_assoc])
  obtain ⟨t, rest, rfl⟩ := List.exists_cons_of_ne_nil hne
  have hlong : 2 ≤ (t :: rest ++ rplDaoRplTarget :: next).length := by
    rw [List.length_append, List.length_cons, List.length_cons]
    omega
  have hfirst : msg.byte (header.encode ++ encode opts).length = t :=
    Packet.byte_of_append hmsg (i := 0) (by simp)
  have hseen := (passedOver_of_holdsAt hholds).mpr hpassed
  have hnone := List.filter_eq_nil_iff.mpr fun q hq => mt of_decide_eq_true (hseen q hq).1
  have hlength : 20 + (encode opts).length = (header.encode ++ encode opts).length := by
    rw [List.length_append, length_encode_header]
  rw [hlength, hoverhang msg _ next hmsg _ hlong] at hoffsets
  rw [daoPrefixes, daoTargetOffsets, hoffsets, List.filter_append, hnone, List.nil_append,
    List.filter_cons_of_neg]
  · rfl
  · rw [hfirst, decide_eq_true_iff]
    exact (hhead t rest rfl).1

/-- A DAO with one target among empty options. -/
def targetDao (i m : ℕ) (address : In6Addr) : DaoMessage where
  header := probeHeader
  opts := List.replicate i emptyOpt ++ longTarget address :: List.replicate m emptyOpt
  fits := by
    have hempty : ∀ o ∈ List.replicate i emptyOpt ++ List.replicate m emptyOpt, DaoOptFits o := by
      rw [← List.replicate_add]
      exact (emptyDao (i + m)).fits
    rw [List.forall_mem_append] at hempty
    rw [List.forall_mem_append, List.forall_mem_cons]
    refine ⟨hempty.1, ⟨fun _ => ?_, fun hti => absurd hti transitInfo_ne_rplTarget.symm⟩, hempty.2⟩
    rw [length_data_longTarget]
    decide

theorem targets_targetDao (i m : ℕ) (address : In6Addr) :
    (targetDao i m address).targets = [address] := by
  have hbefore := (addresses_emptyDao i).1
  have hafter := (addresses_emptyDao m).1
  rw [DaoMessage.targets, emptyDao] at hbefore hafter
  rw [DaoMessage.targets, targetDao, List.filterMap_append, List.filterMap_cons,
    target?_longTarget, hbefore, hafter]
  rfl

/-- Padding whose reading goes on inside a target behind it changes the outcome of some DAO. -/
theorem tail_eq_nil_of_targetDao {padding : ℕ → List Pad} {i m : ℕ} {beyond : ℕ → UInt8}
    (h : ∀ address, SameDaoOutcome ((targetDao i m address).padded padding beyond)
      ((targetDao i m address).packet beyond))
    (hbefore : ∀ j < i, ReadsAsPadding (padBytes (padding j))) {opts : List Opt}
    {tail : List UInt8} (hread : padBytes (padding i) = encode opts ++ tail)
    (htail : Incomplete tail) (hpassed : ∀ o ∈ opts, PassedOver o.type)
    (hhead : ∀ t rest, tail = t :: rest → PassedOver t) : tail = [] := by
  by_contra hne
  obtain ⟨k, hpos, hprefixes⟩ := exists_daoPrefixes_eq htail hne hhead
  obtain ⟨a, b, hab, hhidden⟩ := exists_hidden_address hpos
  obtain ⟨opts', hpassedBefore, harea⟩ := exists_opts_of_emptyOpts hbefore
  have hpassed' : ∀ o ∈ opts' ++ opts, PassedOver o.type :=
    List.forall_mem_append.mpr ⟨hpassedBefore, hpassed⟩
  obtain ⟨after, hafter⟩ : ∃ after, ∀ address, padArea padding (List.replicate i emptyOpt ++
      longTarget address :: List.replicate m emptyOpt) =
        encode (opts' ++ opts) ++ (tail ++ ((longTarget address).encode ++ after)) := by
    refine ⟨padArea (fun j => padding (i + (j + 1))) (List.replicate m emptyOpt), fun address => ?_⟩
    rw [harea, padArea, Nat.add_zero, hread, encode_append, List.append_assoc, List.append_assoc]
  let front := probeHeader.encode ++ encode (opts' ++ opts)
  have hmsg (address : In6Addr) : (targetDao i m address).padded padding beyond =
      ⟨(front ++ tail) ++ ((longTarget address).encode ++ after), beyond⟩ := by
    rw [DaoMessage.padded, targetDao, hafter, List.append_assoc, List.append_assoc]
  have hseen (address : In6Addr) : daoPrefixes ((targetDao i m address).padded padding beyond) =
      targetsFrom ((targetDao i m address).padded padding beyond) ((front ++ tail).length + k)
        (257 + after.length - k) := by
    have hleft : (tail ++ ((longTarget address).encode ++ after)).length - (tail.length + k) =
        257 + after.length - k := by
      rw [List.length_append, List.length_append, length_encode_opt,
        length_data_longTarget, Nat.add_sub_add_left]
    rw [List.length_append, ← hleft]
    exact hprefixes _ _ _ _ (by rw [hmsg, List.append_assoc]; rfl) hpassed'
  have hsame := hhidden (front ++ tail) after beyond (257 + after.length - k)
  rw [← hmsg, ← hmsg, ← hseen, ← hseen, ((samePaddedOutcome_iff _ _ _).mp (h a)).1,
    ((samePaddedOutcome_iff _ _ _).mp (h b)).1, targets_targetDao, targets_targetDao] at hsame
  exact hab (List.head_eq_of_cons_eq hsame)

/-- Padding that leaves the outcome of every DAO as it is, is harmless at each place. -/
theorem readsAsPadding_of_sameDaoOutcome {padding : ℕ → List Pad} {n : ℕ}
    (h : ∀ dao : DaoMessage, dao.opts.length = n → ∀ beyond,
      SameDaoOutcome (dao.padded padding beyond) (dao.packet beyond)) :
    (∀ i < n, ReadsAsPadding (padBytes (padding i))) ∧
      ReadsAsLastPadding (padBytes (padding n)) := by
  have hempty := h (emptyDao n) (by simp [emptyDao]) fun _ => 0
  have hbefore : ∀ i < n, ReadsAsPadding (padBytes (padding i)) := by
    intro i
    induction i using Nat.strongRecOn with
    | ind i ih =>
      intro hi
      have hbefore : ∀ j < i, ReadsAsPadding (padBytes (padding j)) :=
        fun j hj => ih j hj (hj.trans hi)
      obtain ⟨opts, tail, hread, htail, hpassed, hhead, -⟩ :=
        exists_reading_of_emptyDao hempty hbefore hi.le
      have htargets : ∀ address, SameDaoOutcome
          ((targetDao i (n - i - 1) address).padded padding fun _ => 0)
          ((targetDao i (n - i - 1) address).packet fun _ => 0) := by
        intro address
        apply h
        simp only [targetDao, List.length_append, List.length_cons, List.length_replicate]
        omega
      have hnil := tail_eq_nil_of_targetDao htargets hbefore hread htail hpassed
        fun t rest ht => hhead t rest ht (Or.inl hi)
      exact ⟨opts, by rw [hread, hnil, List.append_nil], hpassed⟩
  refine ⟨hbefore, ?_⟩
  obtain ⟨opts, tail, hread, htail, hpassed, hhead, hone⟩ :=
    exists_reading_of_emptyDao hempty hbefore le_rfl
  cases htail with
  | empty => exact Or.inl ⟨opts, by rw [hread, List.append_nil], hpassed⟩
  | stray b => exact absurd rfl (hone rfl)
  | overrun t len rest hlen =>
      have ht := hhead t (len :: rest) rfl (Or.inr (List.cons_ne_nil _ _))
      exact Or.inr ⟨opts, t, len, rest, hread, hlen, ht, hpassed⟩

end HyMRPL
