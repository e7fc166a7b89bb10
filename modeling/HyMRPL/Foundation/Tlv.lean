import Mathlib.Data.List.Basic

/-!
# Messages of type-length-value options

A received message is the bytes received and whatever lies behind them in the
buffer; reading a byte never fails. An option is a type, a length byte and as many
bytes of data. `walk` is the loop that steps from option to option by their length
bytes. On a message that is a sequence of options it visits each of them, which
`walk_invariant` makes a rule for proofs about the loop.
-/

namespace Tlv

/-- A received message. -/
structure Packet where
  bytes : List UInt8
  beyond : ℕ → UInt8

/-- The byte at an offset, also behind the end of the message. -/
def Packet.byte (msg : Packet) (i : ℕ) : UInt8 := (msg.bytes[i]?).getD (msg.beyond i)

/-- The `n` bytes at an offset. -/
def Packet.field (msg : Packet) (n off : ℕ) : Vector UInt8 n :=
  Vector.ofFn fun i => msg.byte (off + i)

/-- The `n` bytes at an offset in some data. -/
def field (data : List UInt8) (n off : ℕ) : Vector UInt8 n :=
  Vector.ofFn fun i => data.getD (off + i) 0

theorem field_append {n : ℕ} (before : List UInt8) (v : Vector UInt8 n) (after : List UInt8) :
    field (before ++ (v.toList ++ after)) n before.length = v := by
  apply Vector.ext
  intro i hi
  have hlt : i < v.toList.length := by rwa [Vector.length_toList]
  simp [field, List.getElem?_append_right, List.getElem?_append_left hlt, hi]

theorem field_append_toList {n : ℕ} (before : List UInt8) (v : Vector UInt8 n) :
    field (before ++ v.toList) n before.length = v := by
  simpa using field_append before v []

/-- An option whose data fits its length byte. -/
structure Opt where
  type : UInt8
  data : List UInt8
  length_lt : data.length < 256
  deriving DecidableEq

def Opt.encode (o : Opt) : List UInt8 := o.type :: UInt8.ofNat o.data.length :: o.data

/-- The bytes of a sequence of options. -/
def encode (opts : List Opt) : List UInt8 := opts.flatMap Opt.encode

/-- The option walk: `optlen` bytes are left at the offset `p`. The result is
`false` when less than a header is left. -/
def walk {W : Type*} (msg : Packet) (step : ℕ → W → W) (p optlen : ℕ) (w : W) : W × Bool :=
  if optlen = 0 then (w, true)
  else if optlen < 2 then (w, false)
  else
    let skip := 2 + (msg.byte (p + 1)).toNat
    walk msg step (p + skip) (optlen - skip) (step p w)
termination_by optlen
decreasing_by omega

@[simp] theorem length_encode_opt (o : Opt) : o.encode.length = 2 + o.data.length := by
  simp [Opt.encode]
  omega

@[simp] theorem encode_nil : encode [] = [] := rfl

theorem encode_cons (o : Opt) (opts : List Opt) : encode (o :: opts) = o.encode ++ encode opts :=
  rfl

theorem encode_append (opts opts' : List Opt) :
    encode (opts ++ opts') = encode opts ++ encode opts' :=
  List.flatMap_append

/-- The option stands at the offset `p` of the message. -/
def Packet.HoldsAt (msg : Packet) (p : ℕ) (o : Opt) : Prop :=
  ∃ before after, msg.bytes = before ++ (o.encode ++ after) ∧ before.length = p

theorem Packet.byte_of_append {msg : Packet} {before data after : List UInt8}
    (h : msg.bytes = before ++ (data ++ after)) {i : ℕ} (hi : i < data.length) :
    msg.byte (before.length + i) = data.getD i 0 := by
  rw [byte, h, List.getElem?_append_right (Nat.le_add_right _ _), Nat.add_sub_cancel_left,
    List.getElem?_append_left hi]
  simp [List.getElem?_eq_getElem hi]

theorem Packet.byte_of_eq_append {msg : Packet} {before data : List UInt8}
    (h : msg.bytes = before ++ data) {i : ℕ} (hi : i < data.length) :
    msg.byte (before.length + i) = data.getD i 0 := by
  have hbytes : msg.bytes = before ++ (data ++ []) := by rw [h, List.append_nil]
  exact byte_of_append hbytes hi

theorem Packet.field_of_append {msg : Packet} {before data after : List UInt8}
    (h : msg.bytes = before ++ (data ++ after)) {n off : ℕ} (hoff : off + n ≤ data.length) :
    msg.field n (before.length + off) = Tlv.field data n off := by
  apply Vector.ext
  intro i hi
  have hbyte := byte_of_append h (i := off + i) (by omega)
  simpa [Packet.field, Tlv.field, Nat.add_assoc] using hbyte

namespace Packet.HoldsAt

variable {msg : Packet} {p : ℕ} {o : Opt}

theorem byte_type (h : msg.HoldsAt p o) : msg.byte p = o.type := by
  obtain ⟨before, after, hbytes, rfl⟩ := h
  exact byte_of_append hbytes (i := 0) (by simp [Opt.encode])

theorem byte_length (h : msg.HoldsAt p o) : (msg.byte (p + 1)).toNat = o.data.length := by
  obtain ⟨before, after, hbytes, rfl⟩ := h
  rw [byte_of_append hbytes (i := 1) (by rw [length_encode_opt]; omega)]
  simp [Opt.encode, Nat.mod_eq_of_lt o.length_lt]

theorem field_data (h : msg.HoldsAt p o) {n off : ℕ} (hoff : off + n ≤ o.data.length) :
    msg.field n (p + 2 + off) = Tlv.field o.data n off := by
  obtain ⟨before, after, hbytes, rfl⟩ := h
  have hbytes' : msg.bytes =
      (before ++ [o.type, UInt8.ofNat o.data.length]) ++ (o.data ++ after) := by
    simp [hbytes, Opt.encode]
  simpa using field_of_append hbytes' hoff

end Packet.HoldsAt

variable {W : Type*} {msg : Packet} {step : ℕ → W → W}

theorem walk_zero (p : ℕ) (w : W) : walk msg step p 0 w = (w, true) := by
  rw [walk, if_pos rfl]

theorem walk_of_holdsAt {p : ℕ} {o : Opt} (h : msg.HoldsAt p o) (left : ℕ) (w : W) :
    walk msg step p (o.encode.length + left) w =
      walk msg step (p + o.encode.length) left (step p w) := by
  rw [walk, if_neg (by simp), if_neg (by simp; omega)]
  simp only [h.byte_length, length_encode_opt, Nat.add_sub_cancel_left]

/-- The rule for the option walk: what holds before the first option and is kept by
the step at each option holds at the end, and the walk ends well. -/
theorem walk_invariant {R : List Opt → W → Prop} {before : List UInt8} {opts : List Opt} {w : W}
    (hbytes : msg.bytes = before ++ encode opts)
    (hstep : ∀ seen o p w, msg.HoldsAt p o → o ∈ opts → R seen w → R (seen ++ [o]) (step p w))
    (h : R [] w) :
    ∃ w', walk msg step before.length (encode opts).length w = (w', true) ∧ R opts w' := by
  suffices hrest : ∀ (rest seen : List Opt) (w : W), opts = seen ++ rest → R seen w →
      ∃ w', walk msg step (before.length + (encode seen).length) (encode rest).length w =
        (w', true) ∧ R opts w' by
    simpa using hrest opts [] w rfl h
  intro rest
  induction rest with
  | nil =>
      intro seen w hopts hR
      refine ⟨w, walk_zero _ _, ?_⟩
      rwa [hopts, List.append_nil]
  | cons o rest ih =>
      intro seen w hopts hR
      have hholds : msg.HoldsAt (before.length + (encode seen).length) o :=
        ⟨before ++ encode seen, encode rest,
          by simp [hbytes, hopts, encode, List.flatMap_append], by simp⟩
      obtain ⟨w', hwalk, hR'⟩ := ih (seen ++ [o]) (step (before.length + (encode seen).length) w)
        (by simp [hopts]) (hstep seen o _ w hholds (by simp [hopts]) hR)
      refine ⟨w', ?_, hR'⟩
      rw [encode_cons, List.length_append, walk_of_holdsAt hholds]
      simpa [encode, List.flatMap_append, Nat.add_assoc] using hwalk

end Tlv
