import HyMRPL.Daemon.Authenticity

/-!
# Replays across restarts

Every start of the daemon takes up the token file again and counts nonces from zero. A
message that passed in an earlier lifetime is stopped as long as the current lifetime has
passed a command with a nonce that is at least as high, and otherwise it passes again.

`Lifetimes` adds to the daemon the messages that passed, with their nonces, in the earlier
lifetimes and in the current one. Without a token there are no checks to pass.
-/

namespace HyMRPL

open Transition

/-- The daemon with the messages that passed in its earlier lifetimes and in this one. -/
structure Lifetimes where
  d : Daemon
  earlier : List (List UInt8 × UInt64)
  current : List (List UInt8 × UInt64)

/-- The daemon reads an event, or it ends and is started again. -/
inductive LifetimeEvent
  | event (e : DaemonEvent)
  | restart (now : ℚ) (ifaces : List Iface)

/-- The message that passes authentication and the nonce check in an event, with its
nonce. -/
def passedMessage (hmac : Hmac) (d : Daemon) : DaemonEvent → Option (List UInt8 × UInt64)
  | .tick now buf =>
    if d.fifoSec.tokenLoaded then (tickRecord hmac now buf d).passed.map fun p => (buf, p.2)
    else none
  | .other _ _ => none

namespace Lifetimes

/-- All lifetimes use one token file. -/
def machine (hmac : Hmac) (tokenFile : Option (List UInt8)) :
    Machine Lifetimes LifetimeEvent (Option (List UInt8 × UInt64)) where
  enabled _ _ := True
  next l
    | .event e =>
      { l with
        d := (daemon hmac).next l.d e
        current := l.current ++ (passedMessage hmac l.d e).toList }
    | .restart now ifaces => ⟨Daemon.start now tokenFile ifaces, l.earlier ++ l.current, []⟩
  out l
    | .event e => passedMessage hmac l.d e
    | .restart _ _ => none

/-- The first lifetime. -/
def start (now : ℚ) (tokenFile : Option (List UInt8)) (ifaces : List Iface) : Lifetimes :=
  ⟨Daemon.start now tokenFile ifaces, [], []⟩

/-- No message passed in this lifetime that passed in an earlier one. -/
def NoReplay (l : Lifetimes) : Prop := ∀ p ∈ l.current, ∀ q ∈ l.earlier, q.1 ≠ p.1

/-- A message that passed in an earlier lifetime is read only when a command with a nonce
that is at least as high has passed in this one. -/
def Superseded (l : Lifetimes) : LifetimeEvent → Prop
  | .event (.tick _ buf) => ∀ q ∈ l.earlier, q.1 = buf → ∃ p ∈ l.current, q.2 ≤ p.2
  | _ => True

instance (l : Lifetimes) : Decidable (NoReplay l) :=
  inferInstanceAs (Decidable (∀ p ∈ l.current, ∀ q ∈ l.earlier, q.1 ≠ p.1))

/-- What the messages that passed have to do with the daemon's state: they verify with the
token, and the last nonce is the highest nonce of this lifetime. -/
structure Sound (hmac : Hmac) (tokenFile : Option (List UInt8)) (l : Lifetimes) : Prop where
  token : l.d.fifoSec.token = (hymrplFifoSecInit 0 tokenFile).1.token
  loaded : l.d.fifoSec.tokenLoaded = (hymrplFifoSecInit 0 tokenFile).1.tokenLoaded
  verified : ∀ p ∈ l.earlier ++ l.current,
    (hymrplFifoSecInit 0 tokenFile).1.tokenLoaded = true ∧ p.2 ≠ 0 ∧
      ∃ newClass, verifyHmac hmac (hymrplFifoSecInit 0 tokenFile).1.token p.1 =
        some (newClass, p.2)
  last : l.d.fifoSec.tokenLoaded = true →
    l.d.fifoSec.lastNonce = 0 ∨ ∃ p ∈ l.current, p.2 = l.d.fifoSec.lastNonce
  bounded : ∀ p ∈ l.current, p.2 ≤ l.d.fifoSec.lastNonce

variable {hmac : Hmac} {tokenFile : Option (List UInt8)} {l : Lifetimes} {d : Daemon}

/-- With a token, a message passes if it verifies with a nonce above the last one. -/
theorem passedMessage_of_verified (hloaded : d.fifoSec.tokenLoaded = true) {buf : List UInt8}
    {newClass : NodeClass} {nonce : UInt64}
    (hverify : verifyHmac hmac d.fifoSec.token buf = some (newClass, nonce))
    (hnonce : d.fifoSec.lastNonce < nonce) (now : ℚ) :
    passedMessage hmac d (.tick now buf) = some (buf, nonce) := by
  have hbuf : buf ≠ [] := by
    rintro rfl
    have hempty := (verifyHmac_eq_some hverify).1
    cases newClass <;> simp [classText] at hempty
  have hnew : ¬ nonce ≤ d.fifoSec.lastNonce := UInt64.not_le.mpr hnonce
  simp [passedMessage, tickRecord, fifoAuthenticate, hloaded, hbuf, hverify, hnew]

/-- What a message that passes has, and what the last nonce becomes. -/
theorem passedMessage_cases (hmac : Hmac) (hloaded : d.fifoSec.tokenLoaded = true) (now : ℚ)
    (buf : List UInt8) :
    (passedMessage hmac d (.tick now buf) = none ∧
        (hymrplPeriodicCb hmac now buf d).1.fifoSec.lastNonce = d.fifoSec.lastNonce) ∨
      ∃ newClass nonce, passedMessage hmac d (.tick now buf) = some (buf, nonce) ∧
        verifyHmac hmac d.fifoSec.token buf = some (newClass, nonce) ∧
        d.fifoSec.lastNonce < nonce ∧
        (hymrplPeriodicCb hmac now buf d).1.fifoSec.lastNonce = nonce := by
  rcases (tick_of_loaded hmac hloaded now buf).2.2 with
    ⟨hpassed, _, hlast⟩ | ⟨newClass, nonce, hpassed, hverify, hnonce, hlast, _⟩
  · left
    exact ⟨by simp [passedMessage, hpassed], hlast⟩
  · right
    exact ⟨newClass, nonce, by simp [passedMessage, hloaded, hpassed], hverify, hnonce, hlast⟩

/-- Without a token no message has passed any check. -/
theorem passedMessage_of_not_loaded (hmac : Hmac) (hloaded : d.fifoSec.tokenLoaded = false)
    (e : DaemonEvent) :
    passedMessage hmac d e = none := by
  cases e with
  | tick now buf => simp [passedMessage, hloaded]
  | other adaptive ifaces => rfl

theorem sound_start (hmac : Hmac) (now : ℚ) (tokenFile : Option (List UInt8))
    (ifaces : List Iface) : Sound hmac tokenFile (start now tokenFile ifaces) := by
  have ⟨htoken, hloaded, hnonce⟩ := token_hymrplFifoSecInit now tokenFile
  constructor
  case token => exact htoken
  case loaded => exact hloaded
  case verified => simp [start]
  case last => exact fun _ => Or.inl hnonce
  case bounded => simp [start]

theorem Sound.restart (h : Sound hmac tokenFile l) (now : ℚ) (ifaces : List Iface) :
    Sound hmac tokenFile ((machine hmac tokenFile).next l (.restart now ifaces)) := by
  have hstart := sound_start hmac now tokenFile ifaces
  constructor
  case token => exact hstart.token
  case loaded => exact hstart.loaded
  case verified =>
    intro p hp
    exact h.verified p (by simpa [machine] using hp)
  case last => exact hstart.last
  case bounded => simp [machine]

/-- A tick that passes no message keeps the lists. -/
theorem Sound.tick_of_none (h : Sound hmac tokenFile l) {now : ℚ} {buf : List UInt8}
    (hnone : passedMessage hmac l.d (.tick now buf) = none)
    (hlast : l.d.fifoSec.tokenLoaded = true →
      (hymrplPeriodicCb hmac now buf l.d).1.fifoSec.lastNonce = l.d.fifoSec.lastNonce) :
    Sound hmac tokenFile ((machine hmac tokenFile).next l (.event (.tick now buf))) := by
  have ⟨htoken, hloaded⟩ := token_hymrplPeriodicCb hmac now buf l.d
  constructor
  case token => exact htoken.trans h.token
  case loaded => exact hloaded.trans h.loaded
  case verified =>
    intro p hp
    exact h.verified p (by simpa [machine, hnone] using hp)
  case last =>
    intro hl
    have hl' := hloaded.symm.trans hl
    simpa [machine, daemon, hnone, hlast hl'] using h.last hl'
  case bounded =>
    intro p hp
    have hp' : p ∈ l.current := by simpa [machine, hnone] using hp
    have hl := h.loaded.trans (h.verified p (List.mem_append_right _ hp')).1
    simpa [machine, daemon, hlast hl] using h.bounded p hp'

/-- A message that passes has the highest nonce of its lifetime. -/
theorem Sound.tick_of_some (h : Sound hmac tokenFile l) {now : ℚ} {buf : List UInt8}
    {newClass : NodeClass} {nonce : UInt64} (hl : l.d.fifoSec.tokenLoaded = true)
    (hsome : passedMessage hmac l.d (.tick now buf) = some (buf, nonce))
    (hverify : verifyHmac hmac l.d.fifoSec.token buf = some (newClass, nonce))
    (hnonce : l.d.fifoSec.lastNonce < nonce)
    (hlast : (hymrplPeriodicCb hmac now buf l.d).1.fifoSec.lastNonce = nonce) :
    Sound hmac tokenFile ((machine hmac tokenFile).next l (.event (.tick now buf))) := by
  have ⟨htoken, hloaded⟩ := token_hymrplPeriodicCb hmac now buf l.d
  constructor
  case token => exact htoken.trans h.token
  case loaded => exact hloaded.trans h.loaded
  case verified =>
    intro p hp
    have hp' : p ∈ l.earlier ++ l.current ∨ p = (buf, nonce) := by
      simpa [machine, hsome, or_assoc] using hp
    rcases hp' with hp' | rfl
    · exact h.verified p hp'
    · refine ⟨h.loaded.symm.trans hl, ?_, newClass, h.token ▸ hverify⟩
      rintro rfl
      exact absurd hnonce (UInt64.not_lt.mpr (UInt64.zero_le ..))
  case last => exact fun _ => Or.inr ⟨(buf, nonce), by simp [machine, hsome], hlast.symm⟩
  case bounded =>
    intro p hp
    have hp' : p ∈ l.current ∨ p = (buf, nonce) := by simpa [machine, hsome] using hp
    have hle : p.2 ≤ nonce := by
      rcases hp' with hp' | rfl
      · exact UInt64.le_of_lt (UInt64.lt_of_le_of_lt (h.bounded p hp') hnonce)
      · exact UInt64.le_refl nonce
    simpa [machine, daemon, hlast] using hle

theorem Sound.next (h : Sound hmac tokenFile l) (e : LifetimeEvent) :
    Sound hmac tokenFile ((machine hmac tokenFile).next l e) := by
  cases e with
  | restart now ifaces => exact h.restart now ifaces
  | event e =>
      cases e with
      | other adaptive ifaces =>
          constructor
          case token => exact h.token
          case loaded => exact h.loaded
          case verified => simpa [machine, daemon, passedMessage] using h.verified
          case last => simpa [machine, daemon, passedMessage] using h.last
          case bounded => simpa [machine, daemon, passedMessage] using h.bounded
      | tick now buf =>
          cases hl : l.d.fifoSec.tokenLoaded with
          | false =>
              apply h.tick_of_none (passedMessage_of_not_loaded hmac hl _)
              intro hl'
              simp [hl] at hl'
          | true =>
              rcases passedMessage_cases hmac hl now buf with
                ⟨hnone, hlast⟩ | ⟨newClass, nonce, hsome, hverify, hnonce, hlast⟩
              · exact h.tick_of_none hnone fun _ => hlast
              · exact h.tick_of_some hl hsome hverify hnonce hlast

/-- A message of an earlier lifetime that is superseded does not pass. -/
theorem NoReplay.next (hnoReplay : NoReplay l) (h : Sound hmac tokenFile l) {e : LifetimeEvent}
    (he : Superseded l e) : NoReplay ((machine hmac tokenFile).next l e) := by
  cases e with
  | restart now ifaces => simp [NoReplay, machine]
  | event e =>
      cases e with
      | other adaptive ifaces => simpa [NoReplay, machine, passedMessage] using hnoReplay
      | tick now buf =>
          cases hl : l.d.fifoSec.tokenLoaded with
          | false =>
              simpa [NoReplay, machine, passedMessage_of_not_loaded hmac hl] using hnoReplay
          | true =>
              rcases passedMessage_cases hmac hl now buf with
                ⟨hnone, _⟩ | ⟨newClass, nonce, hsome, hverify, hnonce, _⟩
              · simpa [NoReplay, machine, hnone] using hnoReplay
              · intro p hp q hq
                have hp' : p ∈ l.current ∨ p = (buf, nonce) := by
                  simpa [machine, hsome] using hp
                rcases hp' with hp' | rfl
                · exact hnoReplay p hp' q hq
                · -- Equal bytes have equal nonces, and this one is too high.
                  intro hbuf
                  have ⟨p, hp, hle⟩ := he q hq hbuf
                  have ⟨_, _, _, hverified⟩ := h.verified q (List.mem_append_left _ hq)
                  rw [hbuf, ← h.token, hverify] at hverified
                  have hsame : nonce = q.2 := (Prod.ext_iff.mp (Option.some.inj hverified)).2
                  have hlow := UInt64.le_trans hle (h.bounded p hp)
                  rw [← hsame] at hlow
                  exact absurd hnonce (UInt64.not_lt.mpr hlow)

/-- A message of an earlier lifetime that is not superseded passes again. -/
theorem Sound.not_noReplay (h : Sound hmac tokenFile l) {e : LifetimeEvent}
    (he : ¬ Superseded l e) : ¬ NoReplay ((machine hmac tokenFile).next l e) := by
  cases e with
  | restart now ifaces => exact absurd trivial he
  | event e =>
      cases e with
      | other adaptive ifaces => exact absurd trivial he
      | tick now buf =>
          simp only [Superseded, not_forall, not_exists, not_and] at he
          have ⟨q, hq, hbuf, hnew⟩ := he
          have ⟨hinit, hpos, newClass, hverify⟩ := h.verified q (List.mem_append_left _ hq)
          have hl := h.loaded.trans hinit
          have hnonce : l.d.fifoSec.lastNonce < q.2 := by
            rcases h.last hl with hzero | ⟨p, hp, hlast⟩
            · rw [hzero]
              exact UInt64.pos_iff_ne_zero.mpr hpos
            · rw [← hlast]
              exact UInt64.not_le.mp (hnew p hp)
          have hsome : passedMessage hmac l.d (.tick now buf) = some (buf, q.2) :=
            passedMessage_of_verified hl (hbuf ▸ h.token ▸ hverify) hnonce now
          intro hnoReplay
          exact hnoReplay (buf, q.2) (by simp [machine, hsome]) q (by simpa [machine] using hq) hbuf

/-- Over any number of lifetimes with one token file, no message passes again after a
restart exactly when each one that is read again is superseded. -/
theorem noReplay_iff (hmac : Hmac) (now : ℚ) (tokenFile : Option (List UInt8))
    (ifaces : List Iface) (es : List LifetimeEvent) :
    (machine hmac tokenFile).Always NoReplay (start now tokenFile ifaces) es ↔
      (machine hmac tokenFile).Steps Superseded (start now tokenFile ifaces) es := by
  apply Machine.always_iff_steps_of_enabled (I := fun l => Sound hmac tokenFile l ∧ NoReplay l)
  · exact fun _ _ => trivial
  · exact fun l h => h.2
  · exact fun l e h he => ⟨h.1.next e, h.2.next h.1 he⟩
  · exact fun l e h he => h.1.not_noReplay he
  · exact ⟨sound_start hmac now tokenFile ifaces, by simp [NoReplay, start]⟩

/-- A command passes, the daemon is started again, and the same bytes are read again. -/
def replayAfterRestart : List LifetimeEvent :=
  let command := hymrplCmd sampleHmac (some sampleToken) .classN 1
  [.event (.tick 20 command), .restart 30 [], .event (.tick 40 command)]

/-- The command passes in both lifetimes. -/
theorem replayAfterRestart_passes :
    let tokenFile := some (List.replicate 64 0x30)
    let l := (machine sampleHmac tokenFile).run (start 0 tokenFile []) replayAfterRestart
    let command := hymrplCmd sampleHmac (some sampleToken) .classN 1
    l.earlier = [(command, 1)] ∧ l.current = [(command, 1)] ∧
      ¬ (machine sampleHmac tokenFile).Always NoReplay (start 0 tokenFile [])
        replayAfterRestart := by
  decide +kernel

end Lifetimes

end HyMRPL
