import HyMRPL.Daemon.Projection
import HyMRPL.Process.DioMessage

/-!
# Received packets

`process` finds the interface by its index, checks the ICMPv6 type, and passes what follows the
first four bytes on by the code. `iface_find_by_ifindex` of `config.c` is the parameter
`IfaceLookup`. A DODAG sees of all packets only the DIOs and DAOs that
name it in their headers and come in on its interface: its state after any packets is that
after those alone. Short packets, packets of another type or code, on unknown interfaces, and
DISes and DAO-ACKs change nothing.
-/

namespace HyMRPL

open Transition Tlv

/-- `ND_RPL_MESSAGE` -/
def ndRplMessage : UInt8 := 155

/-- What `recvmsg` returns, with the memory that is available and what the stack holds. -/
structure Received where
  now : ℚ
  failures : ℕ
  ifindex : UInt32
  packet : Packet
  src : In6Addr
  alloc : Alloc
  stack : In6Addr

/-- What follows the first four bytes of a packet. -/
def payload (packet : Packet) : Packet :=
  ⟨packet.bytes.drop 4, fun i => packet.beyond (i + 4)⟩

/-- The `switch` on the code. The lengths are those that the handlers ask for first. -/
def Received.dispatch (bitsToBytes : UInt8 → ℕ) (p : Received) : UInt8 → Option Message
  | 0 => some .dis
  | 1 =>
    if (payload p.packet).bytes.length < 24 then none
    else some (.dio p.alloc (dioFields bitsToBytes p.stack (payload p.packet)) p.src)
  | 2 =>
    if (payload p.packet).bytes.length < 20 then none else some (.dao (payload p.packet) p.src)
  | 3 => if (payload p.packet).bytes.length < 20 then none else some (.daoAck (payload p.packet))
  | _ => none

/-- The message that a packet carries. -/
def Received.message? (bitsToBytes : UInt8 → ℕ) (p : Received) : Option Message :=
  if p.packet.bytes.length < 4 then none
  else if p.packet.byte 0 ≠ ndRplMessage then none
  else p.dispatch bitsToBytes (p.packet.byte 1)

/-- `iface_find_by_ifindex`, as the position of what it finds: an interface with the index, if
there is one. -/
structure IfaceLookup where
  ifaceFindByIfindex : List Iface → UInt32 → Option ℕ
  ifindex_of_eq_some : ∀ {ifaces ifindex i}, ifaceFindByIfindex ifaces ifindex = some i →
    ∃ iface, ifaces[i]? = some iface ∧ iface.ifindex = ifindex
  ifindex_ne_of_eq_none : ∀ {ifaces ifindex}, ifaceFindByIfindex ifaces ifindex = none →
    ∀ iface ∈ ifaces, iface.ifindex ≠ ifindex

/-- `process`, as an event of the daemon. A packet that is dropped does as little as a timer
that only sends. -/
def Received.event (lookup : IfaceLookup) (bitsToBytes : UInt8 → ℕ) (ifaces : List Iface)
    (p : Received) : RpldEvent :=
  match lookup.ifaceFindByIfindex ifaces p.ifindex, p.message? bitsToBytes with
  | some i, some msg => .recv p.now p.failures i msg
  | _, _ => .send

/-- The daemon, as long as it only receives packets. -/
def receiver (lookup : IfaceLookup) (code : DagCode) (hmac : Hmac) (bitsToBytes : UInt8 → ℕ) :
    Machine Rpld Received RpldRecord where
  enabled _ _ := True
  next r p := (rpld code hmac).next r (p.event lookup bitsToBytes r.ifaces)
  out r p := (rpld code hmac).out r (p.event lookup bitsToBytes r.ifaces)

/-- The packet names the DODAG: it is a DIO or a DAO with a complete header, and comes in on
the interface. -/
def Received.Names (p : Received) (ifindex : UInt32) (key : DodagKey) : Prop :=
  p.ifindex = ifindex ∧ p.packet.byte 0 = ndRplMessage ∧
    ((p.packet.byte 1 = 1 ∧ 28 ≤ p.packet.bytes.length ∧
        key = ⟨p.packet.byte 4, p.packet.field 16 12⟩) ∨
      (p.packet.byte 1 = 2 ∧ 24 ≤ p.packet.bytes.length ∧
        key = ⟨p.packet.byte 4, p.packet.field 16 8⟩))

instance (p : Received) (ifindex : UInt32) (key : DodagKey) : Decidable (p.Names ifindex key) :=
  inferInstanceAs (Decidable (_ ∧ _ ∧ ((_ ∧ _ ∧ _) ∨ (_ ∧ _ ∧ _))))

/-- What a DODAG gets of a packet. -/
def Received.dodagEvents (bitsToBytes : UInt8 → ℕ) (ifindex : UInt32) (key : DodagKey)
    (p : Received) : List DodagEvent :=
  if p.ifindex = ifindex then
    match p.message? bitsToBytes with
    | some msg => messageEvents p.now key msg
    | none => []
  else []

theorem byte_payload (packet : Packet) (i : ℕ) : (payload packet).byte i = packet.byte (i + 4) := by
  simp [payload, Packet.byte, List.getElem?_drop, Nat.add_comm]

theorem field_payload (packet : Packet) (n off : ℕ) :
    (payload packet).field n off = packet.field n (off + 4) := by
  simp [Packet.field, byte_payload, Nat.add_right_comm]

section Receive

variable {lookup : IfaceLookup} {code : DagCode} {bitsToBytes : UInt8 → ℕ} {r : Rpld} {i : ℕ}
  {iface : Iface} {ifindex : UInt32} {key : DodagKey} {p : Received}

/-- A packet whose message a DODAG gets names it. -/
theorem names_of_message {msg : Message} (hmsg : p.message? bitsToBytes = some msg)
    (hevents : messageEvents p.now key msg ≠ []) : p.Names p.ifindex key := by
  simp only [Received.message?] at hmsg
  split_ifs at hmsg with hlen htype
  refine ⟨rfl, not_not.mp htype, ?_⟩
  simp only [Received.dispatch] at hmsg
  split at hmsg
  case h_1 =>
    obtain rfl := Option.some.inj hmsg
    exact absurd rfl hevents
  case h_2 hcode =>
    split_ifs at hmsg with hdio
    obtain rfl := Option.some.inj hmsg
    have hkey : key = ⟨p.packet.byte 4, p.packet.field 16 12⟩ := by
      by_contra hne
      simp [messageEvents, dioFields, byte_payload, field_payload, hne] at hevents
    have hlong : 28 ≤ p.packet.bytes.length := by
      rw [payload, List.length_drop] at hdio
      omega
    exact Or.inl ⟨hcode, hlong, hkey⟩
  case h_3 hcode =>
    split_ifs at hmsg with hdao
    obtain rfl := Option.some.inj hmsg
    have hkey : key = ⟨p.packet.byte 4, p.packet.field 16 8⟩ := by
      by_contra hne
      simp [messageEvents, byte_payload, field_payload, hne] at hevents
    have hlong : 24 ≤ p.packet.bytes.length := by
      rw [payload, List.length_drop] at hdao
      omega
    exact Or.inr ⟨hcode, hlong, hkey⟩
  case h_4 =>
    split_ifs at hmsg with hack
    obtain rfl := Option.some.inj hmsg
    exact absurd rfl hevents
  case h_5 => simp at hmsg

theorem dodagEvents_of_not_names (h : ¬ p.Names ifindex key) :
    p.dodagEvents bitsToBytes ifindex key = [] := by
  by_cases hif : p.ifindex = ifindex
  · subst hif
    cases hmsg : p.message? bitsToBytes with
    | none => simp [Received.dodagEvents, hmsg]
    | some msg =>
        have hevents := not_imp_not.mpr (names_of_message hmsg) h
        simpa [Received.dodagEvents, hmsg] using hevents
  · rw [Received.dodagEvents, if_neg hif]

/-- The interface that a packet came in on is found by its index. -/
theorem ifaceFindByIfindex_eq_some_iff (lookup : IfaceLookup) (hi : r.ifaces[i]? = some iface)
    (hids : (r.ifaces.map Iface.ifindex).Nodup) (ifindex : UInt32) :
    lookup.ifaceFindByIfindex r.ifaces ifindex = some i ↔ ifindex = iface.ifindex := by
  constructor
  · intro hfind
    obtain ⟨iface', hi', rfl⟩ := lookup.ifindex_of_eq_some hfind
    rw [hi] at hi'
    rw [Option.some.inj hi']
  · rintro rfl
    cases hfind : lookup.ifaceFindByIfindex r.ifaces iface.ifindex with
    | none => exact absurd rfl (lookup.ifindex_ne_of_eq_none hfind iface (List.mem_of_getElem? hi))
    | some j =>
        obtain ⟨iface', hj, hsame⟩ := lookup.ifindex_of_eq_some hfind
        have hmap : (r.ifaces.map Iface.ifindex)[i]? = (r.ifaces.map Iface.ifindex)[j]? := by
          rw [List.getElem?_map, List.getElem?_map, hi, hj, Option.map_some, Option.map_some, hsame]
        have hlt : i < (r.ifaces.map Iface.ifindex).length := by
          rw [List.length_map]
          exact (List.getElem?_eq_some_iff.mp hi).1
        rw [(List.getElem?_inj hlt hids).mp hmap]

/-- What a DODAG gets of a packet depends on the packet alone. -/
theorem dodagEvents_event (lookup : IfaceLookup) (hmac : Hmac) (bitsToBytes : UInt8 → ℕ)
    (key : DodagKey) (hi : r.ifaces[i]? = some iface)
    (hids : (r.ifaces.map Iface.ifindex).Nodup) (p : Received) :
    dodagEvents hmac i key r (p.event lookup bitsToBytes r.ifaces) =
      p.dodagEvents bitsToBytes iface.ifindex key := by
  have hfind := ifaceFindByIfindex_eq_some_iff lookup hi hids p.ifindex
  cases hmsg : p.message? bitsToBytes with
  | none =>
      cases hj : lookup.ifaceFindByIfindex r.ifaces p.ifindex <;>
        simp [Received.event, Received.dodagEvents, hmsg, hj, dodagEvents]
  | some msg =>
      cases hj : lookup.ifaceFindByIfindex r.ifaces p.ifindex with
      | none =>
          have hother : p.ifindex ≠ iface.ifindex := by
            rw [Ne, ← hfind, hj]
            simp
          simp [Received.event, Received.dodagEvents, hmsg, hj, dodagEvents, hother]
      | some j =>
          have hji : j = i ↔ p.ifindex = iface.ifindex := by
            rw [← hfind, hj, Option.some.injEq]
          simp [Received.event, Received.dodagEvents, hmsg, hj, dodagEvents, hji]

theorem ifindex_receiver (lookup : IfaceLookup) (code : DagCode) (hmac : Hmac)
    (bitsToBytes : UInt8 → ℕ) (r : Rpld) (p : Received) :
    ((receiver lookup code hmac bitsToBytes).next r p).ifaces.map Iface.ifindex =
      r.ifaces.map Iface.ifindex := by
  have hkept : ∀ e, ((rpld code hmac).next r e).ifaces =
      (handle code r.adaptiveEnabled r.ifaces e).1 →
        ((rpld code hmac).next r e).ifaces.map Iface.ifindex = r.ifaces.map Iface.ifindex := by
    intro e he
    rw [he, ← List.forall₂_eq_eq_eq, List.forall₂_map_left_iff, List.forall₂_map_right_iff]
    exact (handle_kept code r.adaptiveEnabled r.ifaces e).flip.imp fun _ _ h => h.ifindex
  have hevent : (∃ now failures i msg,
        p.event lookup bitsToBytes r.ifaces = .recv now failures i msg) ∨
      p.event lookup bitsToBytes r.ifaces = .send := by
    cases hi : lookup.ifaceFindByIfindex r.ifaces p.ifindex <;>
      cases hmsg : p.message? bitsToBytes <;> simp [Received.event, hi, hmsg]
  rcases hevent with ⟨now, failures, i, msg, hevent⟩ | hevent
  · exact hkept _ (by rw [hevent]; rfl)
  · exact hkept _ (by rw [hevent]; rfl)

/-- The step lemma. -/
theorem receiver_refinesBy_dodag (lookup : IfaceLookup) (hcode : code.LooksUp) (hmac : Hmac)
    (bitsToBytes : UInt8 → ℕ) (cfg : DodagConfig) (i : ℕ) (key : DodagKey) :
    Machine.RefinesBy (receiver lookup code hmac bitsToBytes) (dodag cfg)
      (fun r s => Shows code cfg i key r s ∧ (r.ifaces.map Iface.ifindex).Nodup)
      (fun _ p => p.dodagEvents bitsToBytes cfg.ifindex key)
      (fun r p => dodagCalls code hmac i key r (p.event lookup bitsToBytes r.ifaces)) := by
  have hrefines := rpld_refinesBy_dodag hcode hmac cfg i key
  constructor
  case next =>
    rintro r s p ⟨hshows, hids⟩
    obtain ⟨iface, hi, hd, rfl, -⟩ := id hshows
    have hevents := dodagEvents_event lookup hmac bitsToBytes key hi hids p
    refine ⟨?_, by rwa [ifindex_receiver]⟩
    have hnext := hrefines.next r s (p.event lookup bitsToBytes r.ifaces) hshows
    rwa [hevents] at hnext
  case outputs =>
    rintro r s p ⟨hshows, hids⟩
    obtain ⟨iface, hi, hd, rfl, -⟩ := id hshows
    have hevents := dodagEvents_event lookup hmac bitsToBytes key hi hids p
    have houts := hrefines.outputs r s (p.event lookup bitsToBytes r.ifaces) hshows
    rwa [hevents] at houts

end Receive

/-- The first interface with an index. -/
def firstLookup : IfaceLookup where
  ifaceFindByIfindex ifaces ifindex := ifaces.findIdx? fun iface => iface.ifindex = ifindex
  ifindex_of_eq_some h := by
    obtain ⟨hlt, hid, -⟩ := List.findIdx?_eq_some_iff_getElem.mp h
    exact ⟨_, List.getElem?_eq_getElem hlt, of_decide_eq_true hid⟩
  ifindex_ne_of_eq_none h iface hmem := by
    simpa using List.findIdx?_eq_none_iff.mp h iface hmem

/-- A packet with a DIO of a root, and the prefix `fe80::/64`. -/
def dioPacket (dagid : In6Addr) : List UInt8 :=
  [ndRplMessage, 1, 0, 0] ++ [1, 1, 0, 1, 0x30, 0, 0, 0] ++ dagid.toList ++
    [3, 14, 64, 0, 0, 0, 0, 0] ++ [0xfe, 0x80, 0, 0, 0, 0, 0, 0]

/-- Bytes that come in from the root on the interface 1. -/
def receivedBytes (bytes : List UInt8) : Received :=
  ⟨1, 0, 1, ⟨bytes, fun _ => 0⟩, linkLocal 1, ⟨true, true⟩, Vector.replicate 16 0⟩

/-- DIOs of two DODAGs, and a packet that is too short. -/
def threePackets : List Received :=
  [receivedBytes (dioPacket (linkLocal 9)), receivedBytes [ndRplMessage],
    receivedBytes (dioPacket (linkLocal 1))]

end HyMRPL
