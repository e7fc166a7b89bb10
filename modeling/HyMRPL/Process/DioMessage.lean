import HyMRPL.Foundation.TlvOffsets
import HyMRPL.Network.Basic

/-!
# The bytes of a DIO

`processDioMessage` follows `process_dio` from the received bytes on. `dioPrefix` is the
part that parses the prefix option of a DIO for a DODAG that is not known: the prefix
length with the bytes that `memcpy` copies into the local prefix, or `none` where the
message is dropped. `dioReads` lists what is read of the message up to `dag_create`.

`bits_to_bytes` is not in the repository. The local prefix is not initialised, so the
bytes behind a short prefix are whatever the stack holds.
-/

namespace HyMRPL

open Tlv

/-- The prefix option that follows `struct nd_rpl_dio`, which has 24 bytes. Without its
prefix, `struct rpl_dio_destprefix` has 8. -/
def dioPrefix (bitsToBytes : UInt8 → ℕ) (msg : Packet) : Option (UInt8 × List UInt8) :=
  let len := msg.bytes.length
  if len < 24 then none
  else
    let len := len - 24
    if len < 8 then none
    else
      let len := len - 8
      if msg.byte 24 ≠ 0x3 then none
      else if len < bitsToBytes (msg.byte 26) then none
      else some (msg.byte 26,
        (List.range (bitsToBytes (msg.byte 26))).map fun i => msg.byte (32 + i))

/-- The local prefix after some bytes were copied to its start. -/
def fillPrefix (stack : In6Addr) (copied : List UInt8) : In6Addr :=
  Vector.ofFn fun i => copied.getD i stack[i]

/-- The fields of a DIO, as `process_dio` reads them. -/
def dioFields (bitsToBytes : UInt8 → ℕ) (stack : In6Addr) (msg : Packet) : Dio where
  instanceid := msg.byte 0
  version := msg.byte 1
  -- `ntohs`
  dagrank := (msg.byte 2).toUInt16 <<< 8 ||| (msg.byte 3).toUInt16
  -- `RPL_DIO_MOP`
  mop := (msg.byte 4 &&& 0x38) >>> 3
  dagid := msg.field 16 8
  dest := (dioPrefix bitsToBytes msg).map fun p => ⟨p.1, fillPrefix stack p.2⟩

/-- `process_dio`, from the received bytes on. -/
def processDioMessage (bitsToBytes : UInt8 → ℕ) (stack : In6Addr) (now : ℚ) (alloc : Alloc)
    (iface : NodeConfig) (dagLookup : UInt8 → In6Addr → Option Dag) (msg : Packet)
    (src : In6Addr) : Option (Dag × List Action) :=
  if msg.bytes.length < 24 then none
  else processDio now alloc iface dagLookup (dioFields bitsToBytes stack msg) src

/-- What is read of a DIO for a DODAG that is not known, up to the call of
`dag_create`. -/
def dioReads (bitsToBytes : UInt8 → ℕ) (msg : Packet) : List Span :=
  let len := msg.bytes.length
  if len < 24 then []
  else
    -- `dag_lookup` reads the identifiers.
    [⟨0, 1⟩, ⟨8, 16⟩] ++
    let len := len - 24
    if len < 8 then []
    else
      let len := len - 8
      ⟨24, 1⟩ ::
      if msg.byte 24 ≠ 0x3 then []
      else if len < bitsToBytes (msg.byte 26) then [⟨26, 1⟩]
      else
        -- The copy, and the arguments of `dag_create`.
        [⟨26, 1⟩, ⟨32, bitsToBytes (msg.byte 26)⟩, ⟨0, 1⟩, ⟨8, 16⟩, ⟨1, 1⟩, ⟨4, 1⟩]

/-- The message passes the checks that `process_dio` makes. -/
def DioChecksPass (bitsToBytes : UInt8 → ℕ) (msg : Packet) : Prop :=
  32 ≤ msg.bytes.length ∧ msg.byte 24 = 0x3 ∧
    32 + bitsToBytes (msg.byte 26) ≤ msg.bytes.length

/-- A DIO with which `process_dio` goes on to `dag_create` is read inside the message,
advertises a prefix of at most 128 bits, and has at most the 16 bytes of the local prefix
copied. Any other DIO is dropped. -/
def DioPrefixBounded (bitsToBytes : UInt8 → ℕ) (dagLookup : UInt8 → In6Addr → Option Dag)
    (msg : Packet) : Prop :=
  (∀ prefixlen copied, dioPrefix bitsToBytes msg = some (prefixlen, copied) →
    (∀ s ∈ dioReads bitsToBytes msg, s.Within 0 msg.bytes.length) ∧
      prefixlen.toNat ≤ 128 ∧ copied.length ≤ 16) ∧
  (dioPrefix bitsToBytes msg = none → ∀ stack now alloc iface src,
    processDioMessage bitsToBytes stack now alloc iface dagLookup msg src = none)

variable {bitsToBytes : UInt8 → ℕ} {dagLookup : UInt8 → In6Addr → Option Dag} {msg : Packet}

theorem dioPrefix_of_checksPass (h : DioChecksPass bitsToBytes msg) :
    dioPrefix bitsToBytes msg = some (msg.byte 26,
      (List.range (bitsToBytes (msg.byte 26))).map fun i => msg.byte (32 + i)) := by
  obtain ⟨hlen, htype, hcopy⟩ := h
  simp only [dioPrefix]
  rw [if_neg (by omega), if_neg (by omega), if_neg (not_not.mpr htype), if_neg (by omega)]

theorem dioPrefix_eq_none (h : ¬ DioChecksPass bitsToBytes msg) :
    dioPrefix bitsToBytes msg = none := by
  simp only [dioPrefix]
  split_ifs with h1 h2 h3 h4
  · rfl
  · rfl
  · rfl
  · rfl
  · exact absurd ⟨by omega, not_not.mp h3, by omega⟩ h

/-- Whatever the lengths are, nothing is read behind the end of the message. -/
theorem dioReads_inside (bitsToBytes : UInt8 → ℕ) (msg : Packet) :
    ∀ s ∈ dioReads bitsToBytes msg, s.Within 0 msg.bytes.length := by
  simp only [dioReads]
  split_ifs with h1 h2 h3 h4
  · simp
  · simp [Span.Within]
    omega
  · simp [Span.Within]
    omega
  · simp [Span.Within]
    omega
  · simp [Span.Within]
    omega

/-- Messages of one length that agree on what is read have the same prefix option. -/
theorem dioPrefix_eq_of_agreeOn {msg' : Packet} (hlen : msg.bytes.length = msg'.bytes.length)
    (h : ∀ s ∈ dioReads bitsToBytes msg, msg.AgreeOn msg' s) :
    dioPrefix bitsToBytes msg = dioPrefix bitsToBytes msg' := by
  by_cases h1 : msg.bytes.length < 24
  · simp [dioPrefix, ← hlen, h1]
  · by_cases h2 : msg.bytes.length - 24 < 8
    · simp [dioPrefix, ← hlen, h1, h2]
    · have htype : msg.byte 24 = msg'.byte 24 :=
        (h ⟨24, 1⟩ (by simp [dioReads, h1, h2])).byte_eq
      by_cases h3 : msg.byte 24 = 0x3
      · have hprefixlen : msg.byte 26 = msg'.byte 26 :=
          (h ⟨26, 1⟩ (by simp [dioReads, h1, h2, h3]; split_ifs <;> simp)).byte_eq
        by_cases h4 : msg.bytes.length - 24 - 8 < bitsToBytes (msg.byte 26)
        · simp [dioPrefix, ← hlen, h1, h2, ← htype, ← hprefixlen, h4]
        · have hcopy : (List.range (bitsToBytes (msg.byte 26))).map (fun i => msg.byte (32 + i)) =
              (List.range (bitsToBytes (msg.byte 26))).map fun i => msg'.byte (32 + i) := by
            apply List.map_congr_left
            intro i hi
            have hread : (⟨32, bitsToBytes (msg.byte 26)⟩ : Span) ∈ dioReads bitsToBytes msg := by
              simp [dioReads, h1, h2, h3, h4]
            exact h _ hread i (List.mem_range.mp hi)
          simp only [dioPrefix, ← hlen, ← htype, ← hprefixlen, hcopy]
      · simp [dioPrefix, ← hlen, h1, h2, ← htype, h3]

/-- A DIO without a prefix option to go on with is dropped. -/
theorem processDioMessage_eq_none (hunknown : dagLookup (msg.byte 0) (msg.field 16 8) = none)
    (h : dioPrefix bitsToBytes msg = none) (stack : In6Addr) (now : ℚ) (alloc : Alloc)
    (iface : NodeConfig) (src : In6Addr) :
    processDioMessage bitsToBytes stack now alloc iface dagLookup msg src = none := by
  simp [processDioMessage, processDio, dioFields, hunknown, h]

/-- The parsing of a DIO for an unknown DODAG is bounded exactly when the message fails a
check or its prefix length is at most 128. -/
theorem dioPrefixBounded_iff (hbits : ∀ n, bitsToBytes n = (n.toNat + 7) / 8)
    (hunknown : dagLookup (msg.byte 0) (msg.field 16 8) = none) :
    DioPrefixBounded bitsToBytes dagLookup msg ↔
      (DioChecksPass bitsToBytes msg → (msg.byte 26).toNat ≤ 128) := by
  constructor
  · intro h hpass
    exact (h.1 _ _ (dioPrefix_of_checksPass hpass)).2.1
  · intro h
    refine ⟨fun prefixlen copied hpfx => ?_, fun hnone => ?_⟩
    · by_cases hpass : DioChecksPass bitsToBytes msg
      · obtain ⟨rfl, rfl⟩ : msg.byte 26 = prefixlen ∧
            (List.range (bitsToBytes (msg.byte 26))).map (fun i => msg.byte (32 + i)) = copied := by
          simpa [dioPrefix_of_checksPass hpass] using hpfx
        have hle := h hpass
        refine ⟨dioReads_inside bitsToBytes msg, hle, ?_⟩
        rw [List.length_map, List.length_range, hbits]
        omega
      · simp [dioPrefix_eq_none hpass] at hpfx
    · exact processDioMessage_eq_none hunknown hnone

/-- A DIO with the prefix option `type`, `prefixlen` and `n` bytes of prefix. -/
def dioWith (type prefixlen : UInt8) (n : ℕ) : Packet :=
  ⟨[1, 1, 0, 1, 0x30, 0, 0, 0] ++ (linkLocal 1).toList ++
    [type, 30, prefixlen, 0, 0, 0, 0, 0] ++ List.replicate n 0xfd, fun _ => 0⟩

theorem bounded_of_64 :
    DioPrefixBounded (fun n => (n.toNat + 7) / 8) (fun _ _ => none) (dioWith 3 64 8) :=
  (dioPrefixBounded_iff (fun _ => rfl) rfl).mpr fun _ => by decide

/-- A prefix length of 255 passes the checks and has 32 bytes copied. -/
theorem prefixlen_255_overflows :
    (∃ copied, dioPrefix (fun n => (n.toNat + 7) / 8) (dioWith 3 255 32) = some (255, copied) ∧
      copied.length = 32) ∧
    ¬ DioPrefixBounded (fun n => (n.toNat + 7) / 8) (fun _ _ => none) (dioWith 3 255 32) := by
  have hpfx : dioPrefix (fun n => (n.toNat + 7) / 8) (dioWith 3 255 32) =
      some (255, List.replicate 32 0xfd) := by decide
  refine ⟨⟨_, hpfx, rfl⟩, fun h => ?_⟩
  exact absurd (h.1 _ _ hpfx).2.2 (by decide)

end HyMRPL
