import HyMRPL.Foundation.Tlv

/-!
# Where the option walk stops, and what it reads

The offsets at which `walk` finds an option depend on the length bytes of the message
alone. So the walk is a fold over them, `walk_eq`, and what the step does with the
options can be studied apart from where they are found. A walk that ends with less than
a header left has met options that fill the message up to a single byte.

A `Span` is a run of bytes that is read. Messages that agree on what is read cannot be
told apart.
-/

namespace Tlv

/-- A run of bytes of a message. -/
structure Span where
  start : ℕ
  size : ℕ
  deriving DecidableEq

/-- The span lies between two offsets. -/
def Span.Within (s : Span) (first stop : ℕ) : Prop := first ≤ s.start ∧ s.start + s.size ≤ stop

instance (s : Span) (first stop : ℕ) : Decidable (s.Within first stop) :=
  inferInstanceAs (Decidable (_ ∧ _))

/-- Two messages have the same bytes in a span. -/
def Packet.AgreeOn (msg msg' : Packet) (s : Span) : Prop :=
  ∀ i < s.size, msg.byte (s.start + i) = msg'.byte (s.start + i)

theorem Packet.AgreeOn.byte_eq {msg msg' : Packet} {p : ℕ} (h : msg.AgreeOn msg' ⟨p, 1⟩) :
    msg.byte p = msg'.byte p :=
  h 0 Nat.one_pos

theorem Packet.AgreeOn.field_eq {msg msg' : Packet} {n off : ℕ}
    (h : msg.AgreeOn msg' ⟨off, n⟩) : msg.field n off = msg'.field n off := by
  apply Vector.ext
  intro i hi
  simpa [Packet.field] using h i hi

/-- The offsets at which the option walk finds a header. -/
def offsets (msg : Packet) (p optlen : ℕ) : List ℕ :=
  if optlen < 2 then []
  else
    let skip := 2 + (msg.byte (p + 1)).toNat
    p :: offsets msg (p + skip) (optlen - skip)
termination_by optlen
decreasing_by omega

/-- The option walk does not end with less than a header left. -/
def endsWell (msg : Packet) (p optlen : ℕ) : Bool :=
  if optlen < 2 then optlen = 0
  else
    let skip := 2 + (msg.byte (p + 1)).toNat
    endsWell msg (p + skip) (optlen - skip)
termination_by optlen
decreasing_by omega

section Offsets

variable {msg : Packet}

theorem offsets_of_lt {optlen : ℕ} (h : optlen < 2) (p : ℕ) : offsets msg p optlen = [] := by
  rw [offsets, if_pos h]

theorem offsets_of_le {optlen : ℕ} (h : 2 ≤ optlen) (p : ℕ) :
    offsets msg p optlen = p :: offsets msg (p + (2 + (msg.byte (p + 1)).toNat))
      (optlen - (2 + (msg.byte (p + 1)).toNat)) := by
  rw [offsets, if_neg (Nat.not_lt.mpr h)]

theorem endsWell_of_lt {optlen : ℕ} (h : optlen < 2) (p : ℕ) :
    endsWell msg p optlen = decide (optlen = 0) := by
  rw [endsWell, if_pos h]

theorem endsWell_of_le {optlen : ℕ} (h : 2 ≤ optlen) (p : ℕ) :
    endsWell msg p optlen = endsWell msg (p + (2 + (msg.byte (p + 1)).toNat))
      (optlen - (2 + (msg.byte (p + 1)).toNat)) := by
  rw [endsWell, if_neg (Nat.not_lt.mpr h)]

/-- The option walk folds its step over the offsets. -/
theorem walk_eq {W : Type*} (msg : Packet) (step : ℕ → W → W) (p optlen : ℕ) (w : W) :
    walk msg step p optlen w =
      ((offsets msg p optlen).foldl (fun w p => step p w) w, endsWell msg p optlen) := by
  induction p, optlen, w using walk.induct msg step with
  | case1 p w => rw [walk_zero, offsets_of_lt Nat.two_pos, endsWell_of_lt Nat.two_pos]; rfl
  | case2 p optlen w hzero hlt =>
      rw [walk, if_neg hzero, if_pos hlt, offsets_of_lt hlt, endsWell_of_lt hlt]
      simp [hzero]
  | case3 p optlen w hzero hle skip ih =>
      rw [walk, if_neg hzero, if_neg hle, offsets_of_le (Nat.not_lt.mp hle),
        endsWell_of_le (Nat.not_lt.mp hle)]
      exact ih

/-- A header that is found lies inside the message. -/
theorem le_of_mem_offsets {p optlen q : ℕ} (h : q ∈ offsets msg p optlen) :
    p ≤ q ∧ q + 2 ≤ p + optlen := by
  induction p, optlen using offsets.induct msg with
  | case1 p optlen hlt => simp [offsets_of_lt hlt] at h
  | case2 p optlen hle skip ih =>
      rw [offsets_of_le (Nat.not_lt.mp hle), List.mem_cons] at h
      rcases h with rfl | h
      · omega
      · have hq := ih h
        omega

/-- Messages that agree on the headers that are found have the same headers. -/
theorem offsets_congr {msg' : Packet} {p optlen : ℕ}
    (h : ∀ q ∈ offsets msg p optlen, msg.byte (q + 1) = msg'.byte (q + 1)) :
    offsets msg' p optlen = offsets msg p optlen ∧
      endsWell msg' p optlen = endsWell msg p optlen := by
  induction p, optlen using offsets.induct msg with
  | case1 p optlen hlt =>
      rw [offsets_of_lt hlt, offsets_of_lt hlt, endsWell_of_lt hlt, endsWell_of_lt hlt]
      exact ⟨rfl, rfl⟩
  | case2 p optlen hle skip ih =>
      rw [offsets_of_le (Nat.not_lt.mp hle), List.forall_mem_cons] at h
      obtain ⟨hoffsets, hends⟩ := ih h.2
      rw [offsets_of_le (Nat.not_lt.mp hle), offsets_of_le (Nat.not_lt.mp hle),
        endsWell_of_le (Nat.not_lt.mp hle), endsWell_of_le (Nat.not_lt.mp hle), ← h.1]
      exact ⟨congrArg (p :: ·) hoffsets, hends⟩

theorem offsets_of_holdsAt {p : ℕ} {o : Opt} (h : msg.HoldsAt p o) (left : ℕ) :
    offsets msg p (o.encode.length + left) = p :: offsets msg (p + o.encode.length) left := by
  rw [offsets_of_le (by simp; omega), h.byte_length, ← length_encode_opt, Nat.add_sub_cancel_left]

theorem endsWell_of_holdsAt {p : ℕ} {o : Opt} (h : msg.HoldsAt p o) (left : ℕ) :
    endsWell msg p (o.encode.length + left) = endsWell msg (p + o.encode.length) left := by
  rw [endsWell_of_le (by simp; omega), h.byte_length, ← length_encode_opt, Nat.add_sub_cancel_left]

/-- On a sequence of options the walk finds each of them, and goes on behind them. -/
theorem exists_offsets_append {before tail : List UInt8} {opts : List Opt}
    (hbytes : msg.bytes = before ++ (encode opts ++ tail)) :
    ∃ ps, List.Forall₂ msg.HoldsAt ps opts ∧
      offsets msg before.length (encode opts ++ tail).length =
        ps ++ offsets msg (before.length + (encode opts).length) tail.length ∧
      endsWell msg before.length (encode opts ++ tail).length =
        endsWell msg (before.length + (encode opts).length) tail.length := by
  induction opts generalizing before with
  | nil => exact ⟨[], List.Forall₂.nil, rfl, rfl⟩
  | cons o opts ih =>
      rw [encode_cons, List.append_assoc] at hbytes ⊢
      have hholds : msg.HoldsAt before.length o := ⟨before, encode opts ++ tail, hbytes, rfl⟩
      have hbytes' : msg.bytes = (before ++ o.encode) ++ (encode opts ++ tail) := by
        rw [hbytes, List.append_assoc]
      obtain ⟨ps, hrest, hoffsets, hends⟩ := ih hbytes'
      rw [@List.length_append _ before] at hoffsets hends
      refine ⟨before.length :: ps, List.Forall₂.cons hholds hrest, ?_, ?_⟩
      · rw [List.length_append, offsets_of_holdsAt hholds, hoffsets, List.length_append,
          Nat.add_assoc, List.cons_append]
      · rw [List.length_append, endsWell_of_holdsAt hholds, hends, List.length_append,
          Nat.add_assoc]

/-- On a sequence of options with less than a header behind it, the walk finds each of
the options. -/
theorem forall₂_offsets {before tail : List UInt8} {opts : List Opt}
    (hbytes : msg.bytes = before ++ (encode opts ++ tail)) (htail : tail.length < 2) :
    List.Forall₂ msg.HoldsAt (offsets msg before.length (encode opts ++ tail).length) opts ∧
      endsWell msg before.length (encode opts ++ tail).length = decide (tail.length = 0) := by
  obtain ⟨ps, hholds, hoffsets, hends⟩ := exists_offsets_append hbytes
  rw [offsets_of_lt htail, List.append_nil] at hoffsets
  rw [hoffsets, hends, endsWell_of_lt htail]
  exact ⟨hholds, rfl⟩

end Offsets

/-- An area with room for the header and the data that it announces starts with an
option. -/
theorem exists_opt (t len : UInt8) {rest : List UInt8} (h : len.toNat ≤ rest.length) :
    ∃ (o : Opt) (rest' : List UInt8), t :: len :: rest = o.encode ++ rest' := by
  have hlen : (rest.take len.toNat).length = len.toNat := by
    rw [List.length_take_of_le h]
  refine ⟨⟨t, rest.take len.toNat, by rw [hlen]; exact len.toNat_lt⟩, rest.drop len.toNat, ?_⟩
  simp [Opt.encode, hlen]

/-- What does not start with an option: nothing, a single byte, or a header that announces
more data than follow. -/
inductive Incomplete : List UInt8 → Prop
  | empty : Incomplete []
  | stray (b : UInt8) : Incomplete [b]
  | overrun (t len : UInt8) (rest : List UInt8) (h : rest.length < len.toNat) :
      Incomplete (t :: len :: rest)

/-- An area is a sequence of options and something incomplete. -/
theorem exists_reading (area : List UInt8) :
    ∃ opts tail, area = encode opts ++ tail ∧ Incomplete tail := by
  induction hn : area.length using Nat.strongRecOn generalizing area with
  | ind n ih =>
      match area with
      | [] => exact ⟨[], [], rfl, .empty⟩
      | [b] => exact ⟨[], [b], rfl, .stray b⟩
      | t :: len :: rest =>
        by_cases hfits : len.toNat ≤ rest.length
        · obtain ⟨o, rest', harea⟩ := exists_opt t len hfits
          rw [harea, List.length_append, length_encode_opt] at hn
          obtain ⟨opts, tail, hrest, htail⟩ := ih rest'.length (by omega) rest' rfl
          exact ⟨o :: opts, tail, by rw [harea, hrest, encode_cons, List.append_assoc], htail⟩
        · exact ⟨[], t :: len :: rest, rfl, .overrun t len rest (Nat.lt_of_not_le hfits)⟩

/-- A header that announces more data than follow is found, and ends the walk well. -/
theorem offsets_of_overrun {msg : Packet} {before rest : List UInt8} {t len : UInt8}
    (hbytes : msg.bytes = before ++ (t :: len :: rest)) (h : rest.length < len.toNat) :
    offsets msg before.length (t :: len :: rest).length = [before.length] ∧
      endsWell msg before.length (t :: len :: rest).length = true := by
  have hheader : msg.byte (before.length + 1) = len :=
    Packet.byte_of_eq_append hbytes (i := 1) (by simp)
  have hleft : (t :: len :: rest).length - (2 + len.toNat) = 0 := by
    simp only [List.length_cons]
    omega
  rw [offsets_of_le (by simp), endsWell_of_le (by simp), hheader, hleft,
    offsets_of_lt Nat.two_pos, endsWell_of_lt Nat.two_pos]
  exact ⟨rfl, rfl⟩

/-- The option walk ends with less than a header left exactly when the options fill the
message up to one byte. -/
theorem endsWell_eq_false_iff {msg : Packet} {before area : List UInt8}
    (hbytes : msg.bytes = before ++ area) :
    endsWell msg before.length area.length = false ↔ ∃ opts b, area = encode opts ++ [b] := by
  constructor
  · intro h
    obtain ⟨opts, tail, rfl, htail⟩ := exists_reading area
    obtain ⟨ps, -, -, hends⟩ := exists_offsets_append hbytes
    cases htail with
    | empty =>
        rw [hends, List.length_nil, endsWell_of_lt Nat.two_pos] at h
        exact absurd h (by decide)
    | stray b => exact ⟨opts, b, rfl⟩
    | overrun t len rest hlen =>
        rw [← List.append_assoc] at hbytes
        have hoverrun := (offsets_of_overrun hbytes hlen).2
        rw [List.length_append] at hoverrun
        rw [hends, hoverrun] at h
        exact absurd h (by decide)
  · rintro ⟨opts, b, rfl⟩
    exact (forall₂_offsets hbytes Nat.one_lt_two).2

end Tlv
