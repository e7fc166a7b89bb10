import HyMRPL.Cmd.Sender
import HyMRPL.Fifo.Check

/-!
# What a rejected command leaves behind

`hymrpl_fifo_sec_check` looks at the command first and at the limiter afterwards. A
command that is rejected before the limiter is asked leaves the whole state as it was. The
limiter refuses a command after its nonce was stored and the minute was looked at, so a
refusal may advance the nonce and start a new minute, and nothing else.
-/

namespace HyMRPL

/-- The rejections before the limiter is asked: nothing was read, the format or the HMAC
is wrong, the nonce is not above the last one, or there is no command in it. -/
inductive RejectedEarly (hmac : Hmac) (sec : HymrplFifoSec) (buf : List UInt8) : Prop
  | missing (h : buf = [])
  | unverified (hloaded : sec.tokenLoaded = true) (h : verifyHmac hmac sec.token buf = none)
  | replayed (hloaded : sec.tokenLoaded = true) (newClass : NodeClass) (nonce : UInt64)
      (h : verifyHmac hmac sec.token buf = some (newClass, nonce)) (hle : nonce ≤ sec.lastNonce)
  | unknown (hloaded : sec.tokenLoaded = false) (h : parseClass buf = none)

/-- The limiter refuses a switch: the minute is used up, or the last switch too recent. -/
def LimiterRefuses (sec : HymrplFifoSec) (now : ℚ) : Prop :=
  hymrplMaxSwitchesPerMin ≤ (sec.resetMinute now).switchesThisMinute ∨
    now - sec.lastSwitchTime < hymrplMinSwitchInterval

variable {hmac : Hmac} {now : ℚ} {sec : HymrplFifoSec} {ifaces : List Iface} {buf : List UInt8}

theorem rejectedEarly_iff :
    RejectedEarly hmac sec buf ↔ buf = [] ∨ fifoAuthenticate hmac sec buf = none := by
  constructor
  · intro h
    cases h with
    | missing h => exact Or.inl h
    | unverified hloaded h => exact Or.inr (by simp [fifoAuthenticate, hloaded, h])
    | replayed hloaded newClass nonce h hle =>
        exact Or.inr (by simp [fifoAuthenticate, hloaded, h, hle])
    | unknown hloaded h => exact Or.inr (by simp [fifoAuthenticate, hloaded, h])
  · rintro (h | h)
    · exact .missing h
    · cases hloaded : sec.tokenLoaded with
      | false =>
          refine .unknown hloaded ?_
          cases hc : parseClass buf with
          | none => rfl
          | some c => simp [fifoAuthenticate, hloaded, hc] at h
      | true =>
          cases hv : verifyHmac hmac sec.token buf with
          | none => exact .unverified hloaded hv
          | some p =>
              by_cases hle : p.2 ≤ sec.lastNonce
              · exact .replayed hloaded p.1 p.2 hv hle
              · simp [fifoAuthenticate, hloaded, hv, hle] at h

/-- The minute does not make more switches out of what there were. -/
theorem HymrplFifoSec.resetMinute_switches_le (sec : HymrplFifoSec) (now : ℚ) :
    (sec.resetMinute now).switchesThisMinute ≤ sec.switchesThisMinute := by
  by_cases hover : 60 < now - sec.minuteStart <;> simp [resetMinute, hover]

/-- A minute that is looked at after a command has passed is the minute from before. -/
theorem resetMinute_switches_of_passed {newClass : NodeClass} {passed : HymrplFifoSec}
    (hauth : fifoAuthenticate hmac sec buf = some (newClass, passed)) (now : ℚ) :
    (passed.resetMinute now).switchesThisMinute = (sec.resetMinute now).switchesThisMinute := by
  rw [(resetMinute_of_passed hauth now).2.1]
  by_cases hover : 60 < now - sec.minuteStart <;> simp [HymrplFifoSec.resetMinute, hover]

/-- In plain mode a command passes without a trace. -/
theorem eq_of_passed_plain {newClass : NodeClass} {passed : HymrplFifoSec}
    (hauth : fifoAuthenticate hmac sec buf = some (newClass, passed))
    (hloaded : sec.tokenLoaded = false) : passed = sec := by
  cases hc : parseClass buf with
  | none => simp [fifoAuthenticate, hloaded, hc] at hauth
  | some c =>
      have hboth : c = newClass ∧ sec = passed := by
        simpa [fifoAuthenticate, hloaded, hc] using hauth
      exact hboth.2.symm

/-- A check that returns -1 changes no class, does not touch the time of the last switch,
and does not add to the switches of the minute. If the command is rejected before the
limiter is asked, the whole state stays. Otherwise the nonce is advanced only by a
verified message with a larger nonce, which the limiter refuses. -/
theorem rejected_leaves_no_trace
    (h : (hymrplFifoSecCheck hmac now sec ifaces buf).2.2 = none) :
    (hymrplFifoSecCheck hmac now sec ifaces buf).2.1 = ifaces ∧
    (hymrplFifoSecCheck hmac now sec ifaces buf).1.lastSwitchTime = sec.lastSwitchTime ∧
    (hymrplFifoSecCheck hmac now sec ifaces buf).1.switchesThisMinute ≤
      sec.switchesThisMinute ∧
    (RejectedEarly hmac sec buf → (hymrplFifoSecCheck hmac now sec ifaces buf).1 = sec) ∧
    ((hymrplFifoSecCheck hmac now sec ifaces buf).1.lastNonce ≠ sec.lastNonce →
      ∃ newClass nonce, sec.tokenLoaded = true ∧
        verifyHmac hmac sec.token buf = some (newClass, nonce) ∧ sec.lastNonce < nonce ∧
        (hymrplFifoSecCheck hmac now sec ifaces buf).1.lastNonce = nonce ∧
        LimiterRefuses sec now) := by
  rw [rejectedEarly_iff]
  rcases hymrplFifoSecCheck_cases hmac now sec ifaces buf with
    ⟨-, hcheck⟩ | ⟨newClass, passed, hbuf, hauth, ⟨hcheck, hrefused⟩ | ⟨hcheck, -⟩⟩
  · simp [hcheck]
  · have hminute := resetMinute_switches_of_passed hauth now
    obtain ⟨-, hverified⟩ := fifoAuthenticate_eq_some hauth
    rw [hcheck]
    refine ⟨rfl, (resetMinute_of_passed hauth now).1, ?_, ?_, ?_⟩
    · rw [hminute]
      exact sec.resetMinute_switches_le now
    · simp [hbuf, hauth]
    · intro hnonce
      rw [HymrplFifoSec.resetMinute_lastNonce] at hnonce ⊢
      cases hloaded : sec.tokenLoaded with
      | false =>
          have hpassed := eq_of_passed_plain hauth hloaded
          exact absurd (congrArg HymrplFifoSec.lastNonce hpassed) hnonce
      | true =>
          obtain ⟨hverify, hlt⟩ := hverified hloaded
          rw [hminute] at hrefused
          exact ⟨newClass, passed.lastNonce, rfl, hverify, hlt, rfl, hrefused⟩
  · simp [hcheck] at h

/-- A daemon that has used up its minute. -/
def usedUp : HymrplFifoSec where
  token := sampleToken
  tokenLoaded := true
  lastNonce := 0
  lastSwitchTime := 90
  switchesThisMinute := 3
  minuteStart := 60

/-- An interface with a DODAG of Class S. -/
def joinedIface : Iface :=
  ⟨1, false, .classS, [⟨1, [newDag 5 (Vector.replicate 16 2) 1 0 (Vector.replicate 16 1) 2 1
    Mop.hybrid ⟨64, Vector.replicate 16 0⟩]⟩]⟩

/-- The limiter refuses the sample command for Class N. Its nonce is stored, and the class of
the interface and of its DODAG is the old one. -/
theorem refused_advances_nonce :
    let r := hymrplFifoSecCheck sampleHmac 110 usedUp [joinedIface]
      (hymrplCmd sampleHmac (some sampleToken) .classN 1)
    r.2.2 = none ∧ r.2.1 = [joinedIface] ∧ r.1.lastNonce = 1 ∧ r.1.lastSwitchTime = 90 ∧
      LimiterRefuses usedUp 110 := by
  intro r
  have hnone : r.2.2 = none := by decide +kernel
  have hnonce : r.1.lastNonce = 1 := by decide +kernel
  obtain ⟨hifaces, hlast, -, -, hadvanced⟩ := rejected_leaves_no_trace hnone
  have hne : r.1.lastNonce ≠ usedUp.lastNonce := by
    rw [hnonce]
    decide
  obtain ⟨-, -, -, -, -, -, hrefuses⟩ := hadvanced hne
  exact ⟨hnone, hifaces, hnonce, hlast, hrefuses⟩

end HyMRPL
