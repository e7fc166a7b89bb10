import HyMRPL.Cmd.RoundTrip
import HyMRPL.Daemon.Spacing
import HyMRPL.Fifo.CommandFraming

/-!
# Delivery of commands

A run of the daemon in which `hymrpl_cmd` is called again and again with the token of the
daemon, and others write to the FIFO who do not have the token. The FIFO is a byte queue of
which each read takes up to 127 bytes, so a command is safe only if it is read alone. What is
read besides is refused by the verification, or is a copy of a message that was read before.
`getNonce` follows `get_nonce`, so each message carries the time in microseconds at which it
was sent.

The commands that pass authentication are then exactly those sent, in order. When they are
spaced and the engine is not set up, each of them is applied.
-/

namespace HyMRPL

open Transition CString

/-- `struct timeval`, up to the time that no longer fits into 64 bits of microseconds. -/
structure Timeval where
  sec : ℕ
  usec : ℕ
  usec_lt : usec < 1000000
  micros_lt : sec * 1000000 + usec < 2 ^ 64

/-- The order of time. -/
def Timeval.Before (s t : Timeval) : Prop := s.sec < t.sec ∨ s.sec = t.sec ∧ s.usec < t.usec

instance (s t : Timeval) : Decidable (s.Before t) := inferInstanceAs (Decidable (_ ∨ _))

/-- `get_nonce` -/
def getNonce (tv : Timeval) : UInt64 := UInt64.ofNat tv.sec * 1000000 + UInt64.ofNat tv.usec

theorem toNat_getNonce (tv : Timeval) : (getNonce tv).toNat = tv.sec * 1000000 + tv.usec := by
  have hlt := tv.micros_lt
  have hsec : tv.sec < 2 ^ 64 := by omega
  have husec : tv.usec < 2 ^ 64 := by omega
  have hmillion : (1000000 : UInt64).toNat = 1000000 := rfl
  rw [getNonce, UInt64.toNat_add, UInt64.toNat_mul, UInt64.toNat_ofNat', UInt64.toNat_ofNat',
    Nat.mod_eq_of_lt hsec, Nat.mod_eq_of_lt husec, hmillion, Nat.mod_add_mod,
    Nat.mod_eq_of_lt hlt]

/-- A later call has a larger nonce. -/
theorem getNonce_lt {s t : Timeval} (h : s.Before t) : getNonce s < getNonce t := by
  have hs := s.usec_lt
  rw [UInt64.lt_iff_toNat_lt, toNat_getNonce, toNat_getNonce]
  rcases h with h | ⟨h, h'⟩ <;> omega

/-- The bytes in the FIFO and the daemon. The commands of `hymrpl_cmd` that wait in the FIFO,
those that have been read, with the time of the read, and the records of the ticks are kept
beside them. -/
structure Channel where
  opened : Bool
  queue : List UInt8
  waiting : List (NodeClass × Timeval)
  read : List (ℚ × NodeClass × Timeval)
  records : List TickRecord
  daemon : Daemon

/-- `hymrpl_cmd` writes a command, or another process writes anything; the daemon runs its
periodic callback, or another one. -/
inductive ChannelEvent
  | send (command : NodeClass) (tv : Timeval)
  | write (bytes : List UInt8)
  | poll (now : ℚ)
  | other (adaptive : HymrplAdaptive) (ifaces : List Iface)

namespace Channel

/-- What the periodic callback reads. -/
def line (c : Channel) : List UInt8 := c.queue.take (hymrplFifoMsgMax - 1)

/-- The FIFO between those that write to it and the daemon. A process cannot open it before
the daemon has done so in its first check. -/
def machine (hmac : Hmac) (token : Token) : Machine Channel ChannelEvent Unit where
  enabled c
    | .send _ _ => c.opened = true
    | .write _ => c.opened = true
    | .poll _ => True
    | .other _ _ => True
  next c
    | .send command tv =>
      { c with
        queue := c.queue ++ hymrplCmd hmac (some token) command (getNonce tv)
        waiting := c.waiting ++ [(command, tv)] }
    | .write bytes => { c with queue := c.queue ++ bytes }
    | .poll now =>
      { opened := true
        queue := c.queue.drop (hymrplFifoMsgMax - 1)
        waiting := []
        read := c.read ++ c.waiting.map fun command => (now, command)
        records := c.records ++ [tickRecord hmac now c.line c.daemon]
        daemon := (hymrplPeriodicCb hmac now c.line c.daemon).1 }
    | .other adaptive ifaces =>
      { c with daemon := { c.daemon with adaptive := adaptive, ifaces := ifaces } }
  out _ _ := ()

/-- A daemon that has been started with this token file, and an empty FIFO. -/
def start (now : ℚ) (content : List UInt8) (ifaces : List Iface) : Channel where
  opened := false
  queue := []
  waiting := []
  read := []
  records := []
  daemon := Daemon.start now (some content) ifaces

/-- A command is sent later than those that were read before it, and into an empty FIFO;
nothing else is written while it waits; and what is read besides does not verify, or has the
nonce of a command read before. -/
def ReadAlone (hmac : Hmac) (token : Token) (c : Channel) : ChannelEvent → Prop
  | .send _ tv => c.queue = [] ∧ 0 < getNonce tv ∧ ∀ r ∈ c.read, r.2.2.Before tv
  | .write _ => c.waiting = []
  | .poll _ => c.waiting = [] →
      ∀ p ∈ verifyHmac hmac token c.line, p.2 ∈ c.read.map fun r => getNonce r.2.2
  | .other _ _ => True

instance (hmac : Hmac) (token : Token) (c : Channel) : ∀ e, Decidable (ReadAlone hmac token c e)
  | .send _ _ => inferInstanceAs (Decidable (_ ∧ _))
  | .write _ => inferInstanceAs (Decidable (_ = _))
  | .poll _ => inferInstanceAs (Decidable (_ → _))
  | .other _ _ => .isTrue trivial

/-- What holds in a run in which every command is read alone. -/
structure Inv (hmac : Hmac) (token : Token) (c : Channel) : Prop where
  loaded : c.daemon.fifoSec.tokenLoaded = true
  token_eq : c.daemon.fifoSec.token = token
  last : c.daemon.fifoSec.lastNonce ∈ 0 :: c.read.map fun r => getNonce r.2.2
  seen : ∀ r ∈ c.read, getNonce r.2.2 ≤ c.daemon.fifoSec.lastNonce
  waiting : c.waiting = [] ∨ ∃ command tv, c.waiting = [(command, tv)] ∧
    c.queue = hymrplCmd hmac (some token) command (getNonce tv) ∧
    c.daemon.fifoSec.lastNonce < getNonce tv
  passed : passings c.records = c.read.map fun r => (r.1, r.2.1, getNonce r.2.2)

end Channel

/-- The commands that `hymrpl_cmd` has written. -/
def sends (es : List ChannelEvent) : List (NodeClass × Timeval) :=
  es.filterMap fun
    | .send command tv => some (command, tv)
    | _ => none

section Step

variable {token : Token} {d : Daemon}

/-- A message with a new nonce passes. -/
theorem passed_of_sent (hmac : Hmac) (now : ℚ) (hloaded : d.fifoSec.tokenLoaded = true)
    (htoken : d.fifoSec.token = token) (command : NodeClass) {nonce : UInt64}
    (hnonce : d.fifoSec.lastNonce < nonce) :
    (tickRecord hmac now (hymrplCmd hmac (some token) command nonce) d).passed =
        some (command, nonce) ∧
      (hymrplPeriodicCb hmac now (hymrplCmd hmac (some token) command nonce)
        d).1.fifoSec.lastNonce = nonce := by
  have hne : hymrplCmd hmac (some token) command nonce ≠ [] := by
    apply List.ne_nil_of_length_pos
    simp [length_hymrplCmd, hymrplCmdLength]
  have hpassed : (tickRecord hmac now (hymrplCmd hmac (some token) command nonce) d).passed =
      some (command, nonce) := by
    simp [tickRecord, hne, fifoAuthenticate, hloaded, htoken, verifyHmac_hymrplCmd,
      UInt64.not_le.mpr hnonce]
  refine ⟨hpassed, ?_⟩
  rcases (tick_of_loaded hmac hloaded now _).2.2 with
    ⟨hnone, -⟩ | ⟨command', nonce', hpassed', -, -, hlast, -⟩
  · exact absurd (hpassed.symm.trans hnone) (by simp)
  · obtain ⟨-, rfl⟩ : command = command' ∧ nonce = nonce' := by
      simpa using hpassed.symm.trans hpassed'
    exact hlast

/-- Bytes that do not verify, or only with an old nonce, do not pass. -/
theorem passed_of_foreign {hmac : Hmac} (now : ℚ) (hloaded : d.fifoSec.tokenLoaded = true)
    (htoken : d.fifoSec.token = token) {buf : List UInt8}
    (hold : ∀ p ∈ verifyHmac hmac token buf, p.2 ≤ d.fifoSec.lastNonce) :
    (tickRecord hmac now buf d).passed = none ∧
      (hymrplPeriodicCb hmac now buf d).1.fifoSec.lastNonce = d.fifoSec.lastNonce := by
  rcases (tick_of_loaded hmac hloaded now buf).2.2 with
    ⟨hnone, -, hlast⟩ | ⟨command, nonce, -, hverify, hnonce, -⟩
  · exact ⟨hnone, hlast⟩
  · rw [htoken] at hverify
    exact absurd hnonce (UInt64.not_lt.mpr (hold _ hverify))

end Step

namespace Channel

variable {hmac : Hmac} {token : Token} {c : Channel} {now : ℚ}

/-- A command that is sent into an empty FIFO waits there alone. -/
theorem Inv.send (h : Inv hmac token c) {command : NodeClass} {tv : Timeval}
    (halone : ReadAlone hmac token c (.send command tv)) :
    Inv hmac token ((machine hmac token).next c (.send command tv)) := by
  obtain ⟨hempty, hpos, hlater⟩ := halone
  have hnone : c.waiting = [] := by
    rcases h.waiting with hnone | ⟨command', tv', -, hqueue, -⟩
    · exact hnone
    · have hlength := length_hymrplCmd hmac (some token) command' (getNonce tv')
      rw [← hqueue, hempty] at hlength
      simp [hymrplCmdLength] at hlength
  have hlast : c.daemon.fifoSec.lastNonce < getNonce tv := by
    rcases List.mem_cons.mp h.last with hzero | hread
    · rwa [hzero]
    · obtain ⟨r, hr, heq⟩ := List.mem_map.mp hread
      rw [← heq]
      exact getNonce_lt (hlater r hr)
  refine ⟨h.loaded, h.token_eq, h.last, h.seen, Or.inr ⟨command, tv, ?_, ?_, hlast⟩, h.passed⟩
  · simp [machine, hnone]
  · simp [machine, hempty]

/-- Others write while no command waits. -/
theorem Inv.write (h : Inv hmac token c) {bytes : List UInt8}
    (halone : ReadAlone hmac token c (.write bytes)) :
    Inv hmac token ((machine hmac token).next c (.write bytes)) :=
  ⟨h.loaded, h.token_eq, h.last, h.seen, Or.inl halone, h.passed⟩

/-- A command that waits is read alone, and passes. -/
theorem Inv.poll_of_waiting (h : Inv hmac token c) {command : NodeClass} {tv : Timeval}
    (hwaiting : c.waiting = [(command, tv)])
    (hqueue : c.queue = hymrplCmd hmac (some token) command (getNonce tv))
    (hlast : c.daemon.fifoSec.lastNonce < getNonce tv) :
    Inv hmac token ((machine hmac token).next c (.poll now)) := by
  have hline : c.line = hymrplCmd hmac (some token) command (getNonce tv) := by
    rw [line, hqueue, List.take_of_length_le]
    simp [length_hymrplCmd, hymrplCmdLength, hymrplFifoMsgMax]
  obtain ⟨hpassed, hnonce⟩ := passed_of_sent hmac now h.loaded h.token_eq command hlast
  obtain ⟨htoken, hloaded⟩ := token_hymrplPeriodicCb hmac now c.line c.daemon
  rw [← hline] at hpassed hnonce
  refine ⟨hloaded.trans h.loaded, htoken.trans h.token_eq, ?_, fun r hr => ?_, Or.inl rfl, ?_⟩
  · simp [machine, hnonce, hwaiting]
  · simp only [machine, hwaiting, List.map_singleton, List.mem_append, List.mem_singleton] at hr ⊢
    rw [hnonce]
    rcases hr with hr | rfl
    · exact UInt64.le_of_lt (UInt64.lt_of_le_of_lt (h.seen r hr) hlast)
    · exact UInt64.le_refl _
  · simp only [machine, hwaiting, List.map_append, ← h.passed]
    exact passings_append_of_some hpassed

/-- What is read while no command waits does not pass. -/
theorem Inv.poll_of_empty (h : Inv hmac token c) (hwaiting : c.waiting = [])
    (halone : ReadAlone hmac token c (.poll now)) :
    Inv hmac token ((machine hmac token).next c (.poll now)) := by
  have hold : ∀ p ∈ verifyHmac hmac token c.line, p.2 ≤ c.daemon.fifoSec.lastNonce := by
    intro p hp
    obtain ⟨r, hr, heq⟩ := List.mem_map.mp (halone hwaiting p hp)
    exact heq ▸ h.seen r hr
  obtain ⟨hpassed, hnonce⟩ := passed_of_foreign now h.loaded h.token_eq hold
  obtain ⟨htoken, hloaded⟩ := token_hymrplPeriodicCb hmac now c.line c.daemon
  have hread : ((machine hmac token).next c (.poll now)).read = c.read := by
    simp [machine, hwaiting]
  refine ⟨hloaded.trans h.loaded, htoken.trans h.token_eq, ?_, ?_, Or.inl rfl, ?_⟩
  · rw [hread]
    exact hnonce.symm ▸ h.last
  · rw [hread]
    exact hnonce.symm ▸ h.seen
  · rw [hread, ← h.passed]
    exact passings_append_of_none hpassed

/-- The step lemma. -/
theorem Inv.next (h : Inv hmac token c) {e : ChannelEvent} (halone : ReadAlone hmac token c e) :
    Inv hmac token ((machine hmac token).next c e) := by
  cases e with
  | send command tv => exact h.send halone
  | write bytes => exact h.write halone
  | poll now =>
      rcases h.waiting with hwaiting | ⟨command, tv, hwaiting, hqueue, hlast⟩
      · exact h.poll_of_empty hwaiting halone
      · exact h.poll_of_waiting hwaiting hqueue hlast
  | other adaptive ifaces => exact ⟨h.loaded, h.token_eq, h.last, h.seen, h.waiting, h.passed⟩

/-- Every command that has been written was read or waits. -/
theorem read_append_waiting (hmac : Hmac) (token : Token) (c : Channel) (es : List ChannelEvent) :
    ((machine hmac token).run c es).read.map Prod.snd ++
        ((machine hmac token).run c es).waiting =
      c.read.map Prod.snd ++ c.waiting ++ sends es := by
  induction es generalizing c with
  | nil => simp [Machine.run, sends]
  | cons e es ih =>
      rw [Machine.run, ih]
      cases e with
      | send command tv => simp [machine, sends]
      | write bytes => rfl
      | poll now =>
          have hsends : sends (.poll now :: es) = sends es := rfl
          simp [machine, hsends, Function.comp_def]
      | other adaptive ifaces => rfl

/-- What a run of the daemon has made of the channel's daemon and its records. -/
def Follows (hmac : Hmac) (d : Daemon) (c : Channel) : Prop :=
  ∃ es, c.daemon = (HyMRPL.daemon hmac).run d es ∧ c.records = tickRecords hmac d es

theorem Follows.next {d : Daemon} (h : Follows hmac d c) (token : Token) (e : ChannelEvent) :
    Follows hmac d ((machine hmac token).next c e) := by
  obtain ⟨es, hdaemon, hrecords⟩ := h
  cases e with
  | send command tv => exact ⟨es, hdaemon, hrecords⟩
  | write bytes => exact ⟨es, hdaemon, hrecords⟩
  | poll now =>
      refine ⟨es ++ [.tick now c.line], ?_, ?_⟩
      · rw [Machine.run_append, ← hdaemon]
        rfl
      · rw [tickRecords, Machine.outputs_append, List.reduceOption_append, ← tickRecords,
          ← hrecords, ← hdaemon]
        rfl
  | other adaptive ifaces =>
      refine ⟨es ++ [.other adaptive ifaces], ?_, ?_⟩
      · rw [Machine.run_append, ← hdaemon]
        rfl
      · rw [tickRecords, Machine.outputs_append, List.reduceOption_append, ← tickRecords,
          ← hrecords]
        exact (List.append_nil _).symm

end Channel

/-- The engine of a daemon on a root is not set up, and switches nothing. -/
theorem engine_eq_none_of_disabled (hmac : Hmac) {d : Daemon} (h : d.adaptiveEnabled = false)
    (es : List DaemonEvent) : ∀ r ∈ tickRecords hmac d es, r.engine = none := by
  refine (tickRecords_invariant (C := fun _ _ => True)
    (R := fun records d => d.adaptiveEnabled = false ∧ ∀ r ∈ records, r.engine = none)
    (fun records d now buf hR _ => ?_) (fun _ _ _ _ hR => hR) ⟨h, by simp⟩
    (Machine.steps_true d es)).2
  obtain ⟨hdisabled, hnone⟩ := hR
  have hkept : (hymrplPeriodicCb hmac now buf d).1.adaptiveEnabled = false := by
    rw [adaptiveEnabled_hymrplPeriodicCb, hdisabled]
  have hswitch := not_engineSwitches_of_disabled hdisabled hmac now buf
  rw [List.forall_mem_append, List.forall_mem_singleton]
  exact ⟨hkept, hnone, engine_eq_none_of_not_switches hswitch⟩

section Root

variable {start : ℚ} {content : List UInt8} {token : Token} {ifaces : List Iface}

/-- The daemon loads the token of the sender. -/
theorem token_of_loadToken (start : ℚ) (hload : loadToken content = some token) :
    (hymrplFifoSecInit start (some content)).1.tokenLoaded = true ∧
      (hymrplFifoSecInit start (some content)).1.token = token := by
  have hkey := key_hymrplFifoSecInit start content
  rw [hload, HymrplFifoSec.key] at hkey
  split_ifs at hkey with hloaded
  exact ⟨hloaded, Option.some.inj hkey⟩

/-- Without an engine, every command that passes late enough is applied. -/
theorem fifo_eq_passed (hmac : Hmac) (hload : loadToken content = some token)
    (hdisabled : (Daemon.start start (some content) ifaces).adaptiveEnabled = false)
    (hten : hymrplMinSwitchInterval ≤ start) {es : List DaemonEvent}
    (hspaced : Spaced start
      ((passings (tickRecords hmac (Daemon.start start (some content) ifaces) es)).map Prod.fst)) :
    ∀ r ∈ tickRecords hmac (Daemon.start start (some content) ifaces) es,
      r.fifo = r.passed.map Prod.fst := by
  intro r hr
  obtain ⟨hloaded, htoken⟩ := token_of_loadToken start hload
  have hsound := (soundRecords_run hmac (d := Daemon.start start (some content) ifaces) hloaded
    htoken es).2.2
  cases hpassed : r.passed with
  | none =>
      rw [Option.map_none, Option.eq_none_iff_forall_ne_some]
      intro newClass hsome
      obtain ⟨⟨nonce, hpassed'⟩, -⟩ := hsound.applied r hr newClass hsome
      simp [hpassed] at hpassed'
  | some p =>
      obtain ⟨before, after, hsplit⟩ := List.append_of_mem hr
      have hjudged := judged_run hmac hten (some content) ifaces es hspaced before r
        ⟨after, by simp [hsplit]⟩
      have hengine := engine_eq_none_of_disabled hmac hdisabled es
      rw [hsplit, List.forall_mem_append] at hengine
      exact hjudged.applied hengine.1 hpassed

end Root

/-- Delivery. The daemon has loaded the token of the sender, the commands are sent one after
the other, each is read alone, and whoever else writes to the FIFO cannot forge a message. Then
the commands read are those sent, up to one that still waits, and the commands that pass are
exactly those read. On a root, where the engine is not set up, commands read more than 20
seconds after each other are all applied, in order, and nothing else is. -/
theorem commands_delivered (hmac : Hmac) (now : ℚ) (content : List UInt8) (token : Token)
    (ifaces : List Iface) (es : List ChannelEvent) (hload : loadToken content = some token)
    (halone : (Channel.machine hmac token).Steps (Channel.ReadAlone hmac token)
      (Channel.start now content ifaces) es)
    (hlegal : (Channel.machine hmac token).Legal (Channel.start now content ifaces) es) :
    let c := (Channel.machine hmac token).run (Channel.start now content ifaces) es
    sends es = c.read.map Prod.snd ++ c.waiting ∧ c.waiting.length ≤ 1 ∧
      (passings c.records = c.read.map fun r => (r.1, r.2.1, getNonce r.2.2)) ∧
      ((∀ iface ∈ ifaces, iface.dodagRoot = true) → hymrplMinSwitchInterval ≤ now →
        Spaced now (c.read.map Prod.fst) →
        (c.records.filterMap fun r => r.fifo) = c.read.map fun r => r.2.1) := by
  intro c
  obtain ⟨hloaded, htoken⟩ := token_of_loadToken now hload
  have hnonce : (Daemon.start now (some content) ifaces).fifoSec.lastNonce = 0 :=
    (token_hymrplFifoSecInit now (some content)).2.2
  have hstart : Channel.Inv hmac token (Channel.start now content ifaces) :=
    ⟨hloaded, htoken, List.mem_cons.mpr (Or.inl hnonce), by simp [Channel.start], Or.inl rfl, rfl⟩
  have hinv : Channel.Inv hmac token c :=
    (Machine.always_of_steps (fun c e h _ he => h.next he) hstart hlegal halone).run
  have hsends := Channel.read_append_waiting hmac token (Channel.start now content ifaces) es
  have hwaiting : c.waiting.length ≤ 1 := by
    rcases hinv.waiting with hnone | ⟨command, tv, hone, -⟩
    · simp [hnone]
    · simp [hone]
  refine ⟨hsends.symm, hwaiting, hinv.passed, fun hroot hten hspaced => ?_⟩
  have hdisabled : (Daemon.start now (some content) ifaces).adaptiveEnabled = false := by
    simpa [Daemon.start] using hroot
  obtain ⟨ticks, -, hrecords⟩ : Channel.Follows hmac (Daemon.start now (some content) ifaces) c :=
    (Machine.always_of_kept (fun c e h => h.next token e) ⟨[], rfl, rfl⟩ es).run
  have hpassed := hinv.passed
  rw [hrecords] at hpassed ⊢
  have htimes : Spaced now ((passings (tickRecords hmac
      (Daemon.start now (some content) ifaces) ticks)).map Prod.fst) := by
    rw [hpassed, List.map_map]
    exact hspaced
  have hfifo := fifo_eq_passed hmac hload hdisabled hten htimes
  calc ((tickRecords hmac (Daemon.start now (some content) ifaces) ticks).filterMap
        fun r => r.fifo)
      = (tickRecords hmac (Daemon.start now (some content) ifaces) ticks).filterMap
          fun r => r.passed.map Prod.fst := List.filterMap_congr hfifo
    _ = (passings (tickRecords hmac (Daemon.start now (some content) ifaces) ticks)).map
          fun p => p.2.1 := by
        simp only [passings, List.map_filterMap, Option.map_map]
        rfl
    _ = c.read.map fun r => r.2.1 := by
        rw [hpassed, List.map_map]
        rfl

/-- What HMAC-SHA256 yields with the zero token for `CLASS_S` with the nonce 20000005, and for
`CLASS_N` with the nonce 1. -/
def twoMessageHmac : Hmac := fun token data =>
  if data = classText .classS ++ pipeChar :: hexUInt64 20000005 then
    #v[0x46, 0xb9, 0x3e, 0x42, 0xe8, 0x4b, 0x72, 0x4e, 0xb0, 0xec, 0x9d, 0x33, 0x80, 0x32,
      0x1d, 0x8c, 0xc3, 0x4a, 0x9e, 0x67, 0xdf, 0x2d, 0xce, 0x8e, 0x5d, 0xc0, 0x28, 0xf1,
      0xce, 0x39, 0x50, 0x98]
  else sampleHmac token data

/-- A message is sent and read, written again by another process, and followed by junk. A second
one is read 21 seconds after the first. -/
def replayedChannel : List ChannelEvent :=
  [.poll 19, .send .classN ⟨0, 1, by decide, by decide⟩, .poll 20,
    .write (hymrplCmd twoMessageHmac (some sampleToken) .classN 1), .write [0x3f], .poll 21,
    .poll 22, .send .classS ⟨20, 5, by decide, by decide⟩, .poll 41]

theorem replayedChannel_delivered :
    let c := (Channel.machine twoMessageHmac sampleToken).run
      (Channel.start 10 (List.replicate 64 0x30) [⟨1, true, .classS, []⟩]) replayedChannel
    passings c.records = [(20, .classN, 1), (41, .classS, 20000005)] ∧
      (c.records.filterMap fun r => r.fifo) = [.classN, .classS] := by
  intro c
  have hlegal : (Channel.machine twoMessageHmac sampleToken).Legal
      (Channel.start 10 (List.replicate 64 0x30) [⟨1, true, .classS, []⟩]) replayedChannel :=
    ⟨trivial, rfl, trivial, rfl, rfl, trivial, trivial, rfl, trivial, trivial⟩
  obtain ⟨-, -, hpassings, hfifo⟩ := commands_delivered twoMessageHmac 10 (List.replicate 64 0x30)
    sampleToken [⟨1, true, .classS, []⟩] replayedChannel (by decide +kernel) (by decide +kernel)
    hlegal
  exact ⟨hpassings.trans (by decide +kernel),
    (hfifo (by decide) (by decide +kernel) (by decide +kernel)).trans (by decide +kernel)⟩

end HyMRPL
