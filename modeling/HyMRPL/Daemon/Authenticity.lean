import HyMRPL.Cmd.Sender
import HyMRPL.Daemon.Periodic

/-!
# Authenticity and replay protection

From a start with a loaded token, whatever is read from the FIFO: a command that
is applied carries the HMAC of its own first 24 bytes, in which stand the class that
is applied and the nonce, and the nonces of the commands that pass rise strictly.

`tick_of_loaded` is the step lemma, about one tick of a daemon with a token.
-/

namespace HyMRPL

open Transition

/-- The first 24 bytes of the message are the class, a separator and the nonce, and
the message carries their HMAC. -/
def Authentic (hmac : Hmac) (token : Token) (buf : List UInt8) (newClass : NodeClass)
    (nonce : UInt64) : Prop :=
  buf.take 8 = classText newClass ++ [pipeChar] ∧
    parseNonce ((buf.drop 8).take 16) 0 16 = some nonce ∧
    decodeHex ((buf.drop 25).take 64) 32 = (hmac token (buf.take 24)).toList

/-- Every interface and every DODAG has the class. -/
def AllOfClass (newClass : NodeClass) (ifaces : List Iface) : Prop :=
  ∀ iface ∈ ifaces, iface.nodeClass = newClass ∧
    ∀ rpl ∈ iface.rpls, ∀ dag ∈ rpl.dags, dag.nodeClass = newClass

theorem allOfClass_setNodeClass (newClass : NodeClass) (ifaces : List Iface) :
    AllOfClass newClass (setNodeClass newClass ifaces) := by
  simp [AllOfClass, setNodeClass]

/-- The commands that passed authentication: the bytes, the class and the nonce. -/
def passes (records : List TickRecord) : List (List UInt8 × NodeClass × UInt64) :=
  records.filterMap fun r => r.passed.map fun p => (r.buf, p)

/-- What a tick with a loaded token can do: no command passes, or one passes that
was verified, with a nonce above the last one, which may be applied. -/
theorem tick_of_loaded (hmac : Hmac) {d : Daemon} (hloaded : d.fifoSec.tokenLoaded = true)
    (now : ℚ) (buf : List UInt8) :
    (hymrplPeriodicCb hmac now buf d).1.fifoSec.tokenLoaded = true ∧
      (hymrplPeriodicCb hmac now buf d).1.fifoSec.token = d.fifoSec.token ∧
      (((tickRecord hmac now buf d).passed = none ∧ (tickRecord hmac now buf d).fifo = none ∧
          (hymrplPeriodicCb hmac now buf d).1.fifoSec.lastNonce = d.fifoSec.lastNonce) ∨
        ∃ newClass nonce, (tickRecord hmac now buf d).passed = some (newClass, nonce) ∧
          verifyHmac hmac d.fifoSec.token buf = some (newClass, nonce) ∧
          d.fifoSec.lastNonce < nonce ∧
          (hymrplPeriodicCb hmac now buf d).1.fifoSec.lastNonce = nonce ∧
          ((tickRecord hmac now buf d).fifo = none ∨
            (tickRecord hmac now buf d).fifo = some newClass ∧
              AllOfClass newClass (tickRecord hmac now buf d).ifaces)) := by
  obtain ⟨htoken, hkept⟩ := token_hymrplPeriodicCb hmac now buf d
  refine ⟨hkept.trans hloaded, htoken, ?_⟩
  obtain ⟨⟨time, hsec⟩, hfifo⟩ := hymrplPeriodicCb_fifo hmac now buf d
  have hrecord : (tickRecord hmac now buf d).fifo =
      (hymrplFifoSecCheck hmac now d.fifoSec d.ifaces buf).2.2 := hfifo
  rw [hrecord, hsec]
  rcases hymrplFifoSecCheck_cases hmac now d.fifoSec d.ifaces buf with
    ⟨hnone, hcheck⟩ | ⟨newClass, passed, hbuf, hauth, hcheck⟩
  · have hpassed : (tickRecord hmac now buf d).passed = none := by
      rcases hnone with hbuf | hauth
      · simp [tickRecord, hbuf]
      · simp [tickRecord, hauth]
    simp [hcheck, hpassed]
  · obtain ⟨hverify, hnonce⟩ := (fifoAuthenticate_eq_some hauth).2 hloaded
    have hpassed : (tickRecord hmac now buf d).passed = some (newClass, passed.lastNonce) := by
      simp [tickRecord, hbuf, hauth]
    rcases hcheck with ⟨hcheck, -⟩ | ⟨hcheck, -⟩
    · simp [hcheck, hpassed, hverify, hnonce]
    · have hifaces : (tickRecord hmac now buf d).ifaces = setNodeClass newClass d.ifaces := by
        simp [tickRecord, hymrplPeriodicCb_of_fifo hcheck]
      have hall := allOfClass_setNodeClass newClass d.ifaces
      simp [hcheck, hpassed, hverify, hnonce, hifaces, hall]

/-- What the records of a run with a loaded token satisfy, when the last nonce is
`lastNonce`. -/
structure SoundRecords (hmac : Hmac) (token : Token) (lastNonce : UInt64)
    (records : List TickRecord) : Prop where
  applied : ∀ r ∈ records, ∀ newClass, r.fifo = some newClass →
    (∃ nonce, r.passed = some (newClass, nonce)) ∧ AllOfClass newClass r.ifaces
  verified : ∀ p ∈ passes records, verifyHmac hmac token p.1 = some p.2
  rising : (passes records).Pairwise fun p q => p.2.2 < q.2.2
  bounded : ∀ p ∈ passes records, p.2.2 ≤ lastNonce

theorem SoundRecords.authentic {hmac : Hmac} {token : Token} {lastNonce : UInt64}
    {records : List TickRecord} (h : SoundRecords hmac token lastNonce records)
    {p : List UInt8 × NodeClass × UInt64} (hp : p ∈ passes records) :
    Authentic hmac token p.1 p.2.1 p.2.2 :=
  verifyHmac_eq_some (h.verified p hp)

/-- What the FIFO applies has passed. -/
theorem SoundRecords.passed {hmac : Hmac} {token : Token} {lastNonce : UInt64}
    {records : List TickRecord} (h : SoundRecords hmac token lastNonce records)
    {r : TickRecord} (hr : r ∈ records) {newClass : NodeClass} (hfifo : r.fifo = some newClass) :
    ∃ nonce, (r.buf, newClass, nonce) ∈ passes records := by
  obtain ⟨⟨nonce, hpassed⟩, -⟩ := h.applied r hr newClass hfifo
  exact ⟨nonce, List.mem_filterMap.mpr ⟨r, hr, by simp [hpassed]⟩⟩

theorem passes_append_of_none {records : List TickRecord} {r : TickRecord}
    (h : r.passed = none) : passes (records ++ [r]) = passes records := by
  simp [passes, h]

theorem passes_append_of_some {records : List TickRecord} {r : TickRecord}
    {p : NodeClass × UInt64} (h : r.passed = some p) :
    passes (records ++ [r]) = passes records ++ [(r.buf, p)] := by
  simp [passes, h]

/-- A record of a tick in which no command passes keeps the records sound. -/
theorem SoundRecords.append_of_none {hmac : Hmac} {token : Token} {lastNonce : UInt64}
    {records : List TickRecord} (h : SoundRecords hmac token lastNonce records)
    {r : TickRecord} (hpassed : r.passed = none) (hfifo : r.fifo = none) :
    SoundRecords hmac token lastNonce (records ++ [r]) := by
  constructor
  case applied =>
    intro r' hr' c hc
    rcases List.mem_append.mp hr' with hr' | hr'
    · exact h.applied r' hr' c hc
    · obtain rfl := List.mem_singleton.mp hr'
      simp [hfifo] at hc
  case verified =>
    rw [passes_append_of_none hpassed]
    exact h.verified
  case rising =>
    rw [passes_append_of_none hpassed]
    exact h.rising
  case bounded =>
    rw [passes_append_of_none hpassed]
    exact h.bounded

/-- So does the record of a verified command, whose nonce is then the last one. -/
theorem SoundRecords.append_of_some {hmac : Hmac} {token : Token} {lastNonce nonce : UInt64}
    {records : List TickRecord} (h : SoundRecords hmac token lastNonce records)
    {r : TickRecord} {newClass : NodeClass} (hpassed : r.passed = some (newClass, nonce))
    (hverify : verifyHmac hmac token r.buf = some (newClass, nonce)) (hnonce : lastNonce < nonce)
    (happly : r.fifo = none ∨ r.fifo = some newClass ∧ AllOfClass newClass r.ifaces) :
    SoundRecords hmac token nonce (records ++ [r]) := by
  constructor
  case applied =>
    intro r' hr' c hc
    rcases List.mem_append.mp hr' with hr' | hr'
    · exact h.applied r' hr' c hc
    · obtain rfl := List.mem_singleton.mp hr'
      rcases happly with hnone | ⟨hsome, hall⟩
      · simp [hnone] at hc
      · obtain rfl : newClass = c := by simpa [hsome] using hc
        exact ⟨⟨nonce, hpassed⟩, hall⟩
  case verified =>
    rw [passes_append_of_some hpassed]
    intro p hp
    rcases List.mem_append.mp hp with hp | hp
    · exact h.verified p hp
    · obtain rfl := List.mem_singleton.mp hp
      exact hverify
  case rising =>
    rw [passes_append_of_some hpassed, List.pairwise_append]
    refine ⟨h.rising, List.pairwise_singleton _ _, fun p hp q hq => ?_⟩
    obtain rfl := List.mem_singleton.mp hq
    exact UInt64.lt_of_le_of_lt (h.bounded p hp) hnonce
  case bounded =>
    rw [passes_append_of_some hpassed]
    intro p hp
    rcases List.mem_append.mp hp with hp | hp
    · exact UInt64.le_of_lt (UInt64.lt_of_le_of_lt (h.bounded p hp) hnonce)
    · obtain rfl := List.mem_singleton.mp hp
      exact UInt64.le_refl nonce

/-- A tick keeps the records sound. -/
theorem SoundRecords.tick {hmac : Hmac} {d : Daemon} {records : List TickRecord}
    (h : SoundRecords hmac d.fifoSec.token d.fifoSec.lastNonce records)
    (hloaded : d.fifoSec.tokenLoaded = true) (now : ℚ) (buf : List UInt8) :
    SoundRecords hmac d.fifoSec.token (hymrplPeriodicCb hmac now buf d).1.fifoSec.lastNonce
      (records ++ [tickRecord hmac now buf d]) := by
  obtain ⟨-, -, hstep⟩ := tick_of_loaded hmac hloaded now buf
  rcases hstep with ⟨hpassed, hfifo, hlast⟩ |
    ⟨newClass, nonce, hpassed, hverify, hnonce, hlast, happly⟩
  · rw [hlast]
    exact h.append_of_none hpassed hfifo
  · rw [hlast]
    exact h.append_of_some hpassed hverify hnonce happly

/-- A run from a daemon with a loaded token keeps the token, and its records are
sound. -/
theorem soundRecords_run (hmac : Hmac) {d : Daemon} {token : Token}
    (hloaded : d.fifoSec.tokenLoaded = true) (htoken : d.fifoSec.token = token)
    (es : List DaemonEvent) :
    ((daemon hmac).run d es).fifoSec.tokenLoaded = true ∧
      ((daemon hmac).run d es).fifoSec.token = token ∧
      SoundRecords hmac token ((daemon hmac).run d es).fifoSec.lastNonce
        (tickRecords hmac d es) := by
  have hstart : SoundRecords hmac token d.fifoSec.lastNonce [] :=
    ⟨by simp, by simp [passes], by simp [passes], by simp [passes]⟩
  refine tickRecords_invariant (C := fun _ _ => True)
    (R := fun records d => d.fifoSec.tokenLoaded = true ∧ d.fifoSec.token = token ∧
      SoundRecords hmac token d.fifoSec.lastNonce records)
    (fun records d now buf hR _ => ?_) (fun _ _ _ _ hR => hR) ⟨hloaded, htoken, hstart⟩
    (Machine.steps_true d es)
  obtain ⟨hl, rfl, hsound⟩ := hR
  obtain ⟨hl', ht', -⟩ := tick_of_loaded hmac hl now buf
  exact ⟨hl', ht', hsound.tick hl now buf⟩

/-- Authenticity and replay protection within one lifetime. A command that the FIFO
applies has passed and is applied to everything; the commands that pass are
authentic; their nonces rise strictly; and no byte string passes twice. -/
theorem fifo_authentic (hmac : Hmac) (start : ℚ) (tokenFile : Option (List UInt8))
    (ifaces : List Iface) (es : List DaemonEvent)
    (hloaded : (hymrplFifoSecInit start tokenFile).1.tokenLoaded = true) :
    let token := (hymrplFifoSecInit start tokenFile).1.token
    let records := tickRecords hmac (Daemon.start start tokenFile ifaces) es
    (∀ r ∈ records, ∀ newClass, r.fifo = some newClass →
      (∃ nonce, (r.buf, newClass, nonce) ∈ passes records) ∧ AllOfClass newClass r.ifaces) ∧
    (∀ p ∈ passes records, Authentic hmac token p.1 p.2.1 p.2.2) ∧
    ((passes records).map fun p => p.2.2).Pairwise (· < ·) ∧
    ((passes records).map fun p => p.1).Nodup := by
  intro token records
  have hsound : SoundRecords hmac token _ records :=
    (soundRecords_run hmac (d := Daemon.start start tokenFile ifaces) hloaded rfl es).2.2
  refine ⟨fun r hr c hc => ⟨hsound.passed hr hc, (hsound.applied r hr c hc).2⟩,
    fun p hp => hsound.authentic hp, ?_, ?_⟩
  · exact List.pairwise_map.mpr hsound.rising
  · -- The nonce is read off the bytes, so equal bytes would have equal nonces.
    rw [List.Nodup, List.pairwise_map]
    refine hsound.rising.imp_of_mem fun {p q} hp hq hlt heq => ?_
    have hsame := (hsound.verified p hp).symm.trans (heq ▸ hsound.verified q hq)
    rw [Option.some.inj hsame] at hlt
    exact UInt64.lt_irrefl _ hlt

/-- A command is sent and then replayed: it is applied once, and passes once. -/
theorem fifo_authentic_replayed :
    let command := hymrplCmd sampleHmac (some sampleToken) .classN 1
    let records := tickRecords sampleHmac
      (Daemon.start 0 (some (List.replicate 64 0x30)) []) [.tick 20 command, .tick 40 command]
    records.map (fun r => r.fifo) = [some .classN, none] ∧
      ((passes records).map fun p => p.1).Nodup := by
  intro command records
  have hfifo : records.map (fun r => r.fifo) = [some .classN, none] := by decide +kernel
  exact ⟨hfifo, (fifo_authentic sampleHmac 0 (some (List.replicate 64 0x30)) []
    [.tick 20 command, .tick 40 command] (by decide +kernel)).2.2.2⟩

end HyMRPL
