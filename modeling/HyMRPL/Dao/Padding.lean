import HyMRPL.Dao.PadProbes

/-!
# Padding in a DAO

Which paddings leave the outcome of every DAO as it is can be told from their own bytes. For
zero-filled padding `padOdd` computes it: read as headers of two bytes and their data, no byte
is left over.
-/

namespace HyMRPL

open Tlv

/-- The byte of a header that is left over, if any. -/
def leftOver (odd : Bool) : List UInt8 := if odd then [rplOptPad0] else []

/-- Whether a byte is left over when zero-filled padding is read as headers of two bytes
with their data, and whether one was left over before. -/
def padOdd : Bool → List Pad → Bool
  | odd, [] => odd
  | odd, .pad1 :: ps => padOdd (!odd) ps
  | odd, .padN data _ :: ps => padOdd (odd && data.length % 2 = 1) ps

/-- A run of zeros is read as empty options. -/
theorem exists_opts_of_zeros (k : ℕ) :
    ∃ opts, List.replicate k rplOptPad0 = encode opts ++ leftOver (k % 2 = 1) ∧
      ∀ o ∈ opts, PassedOver o.type := by
  induction k using Nat.twoStepInduction with
  | zero => exact ⟨[], by simp [leftOver], by simp⟩
  | one => exact ⟨[], by simp [leftOver], by simp⟩
  | more k ih _ =>
      obtain ⟨opts, hzeros, hpassed⟩ := ih
      refine ⟨⟨rplOptPad0, [], by decide⟩ :: opts, ?_, ?_⟩
      · rw [List.replicate_succ, List.replicate_succ, hzeros, encode_cons, Nat.add_mod_right]
        rfl
      · exact List.forall_mem_cons.mpr ⟨passedOver_pads.1, hpassed⟩

/-- A zero that is left over takes the type of a PadN option for its length. Its data are
read as empty options, and one of them may be left over again. -/
theorem exists_opts_of_padN {data : List UInt8} (hdata : data.length < 256)
    (hzero : data = List.replicate data.length 0) {opts : List Opt} {rest tail : List UInt8}
    (hread : leftOver (data.length % 2 = 1) ++ rest = encode opts ++ tail)
    (hpassed : ∀ o ∈ opts, PassedOver o.type) :
    ∃ opts', leftOver true ++ ((Pad.padN data hdata).encode ++ rest) = encode opts' ++ tail ∧
      ∀ o ∈ opts', PassedOver o.type := by
  obtain ⟨zeros, hzeros, hzeroPassed⟩ := exists_opts_of_zeros data.length
  have hsplit : data = encode zeros ++ leftOver (data.length % 2 = 1) := hzero.trans hzeros
  refine ⟨⟨rplOptPad0, [UInt8.ofNat data.length], by simp⟩ :: (zeros ++ opts), ?_, ?_⟩
  · have hrest : data ++ rest = encode (zeros ++ opts) ++ tail := by
      rw [encode_append, List.append_assoc, ← hread, ← List.append_assoc, ← hsplit]
    rw [encode_cons, List.append_assoc, ← hrest]
    rfl
  · refine List.forall_mem_cons.mpr ⟨passedOver_pads.1, fun o ho => ?_⟩
    exact (List.mem_append.mp ho).elim (hzeroPassed o) (hpassed o)

/-- How zero-filled padding is read. -/
theorem exists_opts_of_pads (odd : Bool) {ps : List Pad} (hzero : ∀ p ∈ ps, p.ZeroFilled) :
    ∃ opts, leftOver odd ++ padBytes ps = encode opts ++ leftOver (padOdd odd ps) ∧
      ∀ o ∈ opts, PassedOver o.type := by
  induction ps generalizing odd with
  | nil => exact ⟨[], by simp [padBytes, padOdd], by simp⟩
  | cons p ps ih =>
      rw [List.forall_mem_cons] at hzero
      have hbytes : padBytes (p :: ps) = p.encode ++ padBytes ps := rfl
      cases p with
      | pad1 =>
          obtain ⟨opts, hread, hpassed⟩ := ih (!odd) hzero.2
          cases odd with
          | false => exact ⟨opts, by rw [padOdd, ← hread]; rfl, hpassed⟩
          | true =>
              refine ⟨⟨rplOptPad0, [], by decide⟩ :: opts, ?_, ?_⟩
              · rw [padOdd, encode_cons, List.append_assoc, ← hread]
                rfl
              · exact List.forall_mem_cons.mpr ⟨passedOver_pads.1, hpassed⟩
      | padN data hdata =>
          obtain ⟨opts, hread, hpassed⟩ := ih (odd && data.length % 2 = 1) hzero.2
          cases odd with
          | false =>
              refine ⟨⟨rplOptPadN, data, hdata⟩ :: opts, ?_, ?_⟩
              · rw [padOdd, encode_cons, List.append_assoc, ← hread]
                rfl
              · exact List.forall_mem_cons.mpr ⟨passedOver_pads.2, hpassed⟩
          | true =>
              rw [Bool.true_and] at hread
              simpa [hbytes, padOdd] using exists_opts_of_padN hdata hzero.1 hread hpassed

theorem endsWell_of_readsAsLastPadding (msg : Packet) (h : ReadsAsLastPadding msg.bytes) :
    endsWell msg 0 msg.bytes.length = true := by
  obtain ⟨opts, tail, hbytes, -, htail⟩ := h.exists_tail
  have hnil : msg.bytes = [] ++ (encode opts ++ tail) := hbytes
  obtain ⟨ps, -, -, hends⟩ := exists_offsets_append hnil
  have hwell := (htail msg (encode opts) hbytes).2
  rw [List.length_nil, Nat.zero_add, hwell] at hends
  rwa [hbytes]

/-- Zero-filled padding is harmless exactly when nothing is left over. -/
theorem padOdd_eq_false_iff {ps : List Pad} (hzero : ∀ p ∈ ps, p.ZeroFilled) :
    (ReadsAsPadding (padBytes ps) ↔ padOdd false ps = false) ∧
      (ReadsAsLastPadding (padBytes ps) ↔ padOdd false ps = false) := by
  obtain ⟨opts, hread, hpassed⟩ := exists_opts_of_pads false hzero
  have hlast : ReadsAsLastPadding (padBytes ps) → padOdd false ps = false := by
    intro h
    have hwell := endsWell_of_readsAsLastPadding ⟨padBytes ps, fun _ => 0⟩ h
    cases hodd : padOdd false ps with
    | false => rfl
    | true =>
        rw [hodd] at hread
        have hnil : (Packet.mk (padBytes ps) fun _ => 0).bytes = [] ++ padBytes ps := rfl
        have hstray := (endsWell_eq_false_iff hnil).mpr ⟨opts, rplOptPad0, hread⟩
        exact absurd (hstray.symm.trans hwell) (by decide)
  have hpadding : padOdd false ps = false → ReadsAsPadding (padBytes ps) := by
    intro heven
    rw [heven] at hread
    exact ⟨opts, by simpa [leftOver] using hread, hpassed⟩
  exact ⟨⟨fun h => hlast (Or.inl h), hpadding⟩, ⟨hlast, fun h => Or.inl (hpadding h)⟩⟩

/-- A target option that a zero byte in front of it hides completely. -/
def hiddenTarget : Opt :=
  ⟨rplDaoRplTarget, [0, 128, 0xfe, 0x80, 0, 12] ++ List.replicate 11 0 ++ [3], by decide⟩

/-- What the zero byte and the target are read as. -/
def hiddenAs : List Opt :=
  [⟨rplOptPad0, [18, 0, 128, 0xfe, 0x80], by decide⟩,
    ⟨rplOptPad0, List.replicate 11 0 ++ [3], by decide⟩]

/-- A DAO of hidden targets. -/
def hiddenDao (n : ℕ) : DaoMessage where
  header := ⟨1, 0, 0, 0, linkLocal 1⟩
  opts := List.replicate n hiddenTarget
  fits o ho := by
    obtain rfl := List.eq_of_mem_replicate ho
    exact ⟨fun _ => by decide, fun hti => absurd hti (by decide)⟩

/-- When padding leaves the outcome of a DAO as it is: for one DAO, exactly when the walk
over the padded options meets the targets and the last parent of the DAO and does not end
at a single byte; zero-filled padding for every DAO with `n` options, exactly when at
each place no byte of it is left over; and any padding for every DAO with `n` options, exactly
when at each place it reads as whole options that are passed over, or behind the last option
as such options and one that announces more data than follow. -/
theorem padding_transparent_iff (padding : ℕ → List Pad) :
    (∀ (dao : DaoMessage) (beyond : ℕ → UInt8),
      SameDaoOutcome (dao.padded padding beyond) (dao.packet beyond) ↔
        daoPrefixes (dao.padded padding beyond) = dao.targets ∧
          daoParent? (dao.padded padding beyond) = dao.parents.getLast? ∧
          daoEndsWell (dao.padded padding beyond) = true) ∧
    ((∀ i, ∀ p ∈ padding i, p.ZeroFilled) → ∀ n,
      (∀ dao : DaoMessage, dao.opts.length = n → ∀ beyond,
        SameDaoOutcome (dao.padded padding beyond) (dao.packet beyond)) ↔
          ∀ i ≤ n, padOdd false (padding i) = false) ∧
    ∀ n,
      (∀ dao : DaoMessage, dao.opts.length = n → ∀ beyond,
        SameDaoOutcome (dao.padded padding beyond) (dao.packet beyond)) ↔
          (∀ i < n, ReadsAsPadding (padBytes (padding i))) ∧
            ReadsAsLastPadding (padBytes (padding n)) := by
  have hall : ∀ n,
      (∀ dao : DaoMessage, dao.opts.length = n → ∀ beyond,
        SameDaoOutcome (dao.padded padding beyond) (dao.packet beyond)) ↔
          (∀ i < n, ReadsAsPadding (padBytes (padding i))) ∧
            ReadsAsLastPadding (padBytes (padding n)) := by
    intro n
    constructor
    · exact readsAsPadding_of_sameDaoOutcome
    · rintro ⟨h, hlast⟩ dao rfl beyond
      exact sameDaoOutcome_of_padding dao h hlast beyond
  refine ⟨fun dao beyond => samePaddedOutcome_iff dao padding beyond, fun hzero n => ?_, hall⟩
  rw [hall, (padOdd_eq_false_iff (hzero n)).2]
  constructor
  · rintro ⟨h, hlast⟩ i hi
    rcases Nat.lt_or_eq_of_le hi with hlt | rfl
    · exact (padOdd_eq_false_iff (hzero i)).1.mp (h i hlt)
    · exact hlast
  · intro h
    exact ⟨fun i hi => (padOdd_eq_false_iff (hzero i)).1.mpr (h i hi.le), h n le_rfl⟩

/-- Two Pad1 options and a PadN option with three bytes. -/
def evenPads : List Pad := [.pad1, .pad1, .padN [0, 0, 0] (by decide)]

/-- A PadN option with any data, and behind the last option one whose data announce more than
follow. -/
def filledPads : ℕ → List Pad
  | 0 => [.padN [5, 18, 6] (by decide)]
  | _ => [.pad1, .padN [0, 200] (by decide)]

theorem evenPads_transparent :
    SameDaoOutcome ((hiddenDao 1).padded (fun _ => evenPads) fun _ => 0)
        ((hiddenDao 1).packet fun _ => 0) ∧
      SameDaoOutcome ((hiddenDao 1).padded filledPads fun _ => 0)
        ((hiddenDao 1).packet fun _ => 0) := by
  refine ⟨((padding_transparent_iff fun _ => evenPads).2.1 (by simp [evenPads, Pad.ZeroFilled])
    1).mpr (fun _ _ => rfl) (hiddenDao 1) rfl fun _ => 0, ?_⟩
  have hpadding : ∀ i < 1, ReadsAsPadding (padBytes (filledPads i)) := by
    intro i hi
    obtain rfl := Nat.lt_one_iff.mp hi
    exact ⟨[⟨rplOptPadN, [5, 18, 6], by decide⟩], rfl, by decide⟩
  have hlast : ReadsAsLastPadding (padBytes (filledPads 1)) :=
    Or.inr ⟨[⟨rplOptPad0, [2], by decide⟩], 0, 200, [], rfl, by decide, by decide, by decide⟩
  exact ((padding_transparent_iff filledPads).2.2 1).mpr ⟨hpadding, hlast⟩ (hiddenDao 1) rfl
    fun _ => 0

/-- A Pad1 option in front of the only target hides it, and one behind it makes
`process_dao` return without a DAO-ACK. -/
theorem onePad1_changes_outcome :
    ((hiddenDao 1).targets ≠ [] ∧
      daoPrefixes ((hiddenDao 1).padded (fun i => if i = 0 then [.pad1] else []) fun _ => 0) = [] ∧
      ¬ SameDaoOutcome ((hiddenDao 1).padded (fun i => if i = 0 then [.pad1] else []) fun _ => 0)
        ((hiddenDao 1).packet fun _ => 0)) ∧
    (daoEndsWell ((hiddenDao 1).padded (fun i => if i = 1 then [.pad1] else []) fun _ => 0) =
        false ∧
      ¬ SameDaoOutcome ((hiddenDao 1).padded (fun i => if i = 1 then [.pad1] else []) fun _ => 0)
        ((hiddenDao 1).packet fun _ => 0)) := by
  have hhidden : daoPrefixes
      ((hiddenDao 1).padded (fun i => if i = 0 then [.pad1] else []) fun _ => 0) = [] := by
    have hbytes : ((hiddenDao 1).padded (fun i => if i = 0 then [.pad1] else []) fun _ => 0).bytes =
        (hiddenDao 1).header.encode ++ (encode hiddenAs ++ []) := by decide
    have hpassed : ∀ o ∈ hiddenAs, PassedOver o.type := by decide
    obtain ⟨-, -, hseen⟩ := daoSeen_of_bytes hbytes Nat.two_pos
    exact (hseen fun o ho => daoOptFits_of_passedOver (hpassed o ho)).1.trans
      (filterMap_of_passedOver hpassed).1
  have hstray : daoEndsWell
      ((hiddenDao 1).padded (fun i => if i = 1 then [.pad1] else []) fun _ => 0) = false := by
    have hbytes : ((hiddenDao 1).padded (fun i => if i = 1 then [.pad1] else []) fun _ => 0).bytes =
        (hiddenDao 1).header.encode ++ (encode [hiddenTarget] ++ [rplOptPad0]) := by decide
    exact (daoSeen_of_bytes hbytes Nat.one_lt_two).2.1
  refine ⟨⟨by decide, hhidden, fun h => ?_⟩, hstray, fun h => ?_⟩
  · have hprefixes := ((samePaddedOutcome_iff _ _ _).mp h).1
    rw [hhidden] at hprefixes
    exact absurd hprefixes (by decide)
  · have hends := ((samePaddedOutcome_iff _ _ _).mp h).2.2
    rw [hstray] at hends
    exact absurd hends (by decide)

end HyMRPL
