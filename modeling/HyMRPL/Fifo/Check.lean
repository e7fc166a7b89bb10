import HyMRPL.Fifo.Verify

/-!
# Checking the FIFO for a command

`hymrplFifoSecCheck` follows `hymrpl_fifo_sec_check` from the `read` on: `buf` is
what was read, empty when nothing was. It returns the limiter's state, the
interfaces and the class applied, `none` for -1.

`fifoAuthenticate` is the part before rate limiting, which decides whether a
command passes; `hymrplFifoSecCheck_cases` lists all that a check can do.
-/

namespace HyMRPL

open CString

/-- `HYMRPL_MIN_SWITCH_INTERVAL` -/
def hymrplMinSwitchInterval : ℚ := 10

/-- `HYMRPL_MAX_SWITCHES_PER_MIN` -/
def hymrplMaxSwitchesPerMin : ℕ := 3

/-- The authentication part: the class named and the state with the new nonce. -/
def fifoAuthenticate (hmac : Hmac) (sec : HymrplFifoSec) (buf : List UInt8) :
    Option (NodeClass × HymrplFifoSec) :=
  if sec.tokenLoaded then
    match verifyHmac hmac sec.token buf with
    | none => none
    | some (newClass, nonce) =>
      if nonce ≤ sec.lastNonce then none
      else some (newClass, { sec with lastNonce := nonce })
  else
    match parseClass buf with
    | none => none
    | some newClass => some (newClass, sec)

/-- The minute counter starts again when its window is over. -/
def HymrplFifoSec.resetMinute (sec : HymrplFifoSec) (now : ℚ) : HymrplFifoSec :=
  if 60 < now - sec.minuteStart then
    { sec with switchesThisMinute := 0, minuteStart := now }
  else sec

/-- The loops that write `node_class` of every interface and of every DODAG. -/
def setNodeClass (newClass : NodeClass) (ifaces : List Iface) : List Iface :=
  ifaces.map fun iface =>
    { iface with
      nodeClass := newClass
      rpls := iface.rpls.map fun rpl =>
        { rpl with dags := rpl.dags.map fun dag => { dag with nodeClass := newClass } } }

/-- `hymrpl_fifo_sec_check`. -/
def hymrplFifoSecCheck (hmac : Hmac) (now : ℚ) (sec : HymrplFifoSec)
    (ifaces : List Iface) (buf : List UInt8) :
    HymrplFifoSec × List Iface × Option NodeClass :=
  if buf = [] then (sec, ifaces, none)
  else
    match fifoAuthenticate hmac sec buf with
    | none => (sec, ifaces, none)
    | some (newClass, sec) =>
      let sec := sec.resetMinute now
      if hymrplMaxSwitchesPerMin ≤ sec.switchesThisMinute then (sec, ifaces, none)
      else if now - sec.lastSwitchTime < hymrplMinSwitchInterval then (sec, ifaces, none)
      else
        ({ sec with
            lastSwitchTime := now
            switchesThisMinute := sec.switchesThisMinute + 1 },
          setNodeClass newClass ifaces, some newClass)

section Fields

variable (sec : HymrplFifoSec) (now : ℚ)

@[simp] theorem HymrplFifoSec.resetMinute_token : (sec.resetMinute now).token = sec.token := by
  unfold resetMinute; split_ifs <;> rfl

@[simp] theorem HymrplFifoSec.resetMinute_tokenLoaded :
    (sec.resetMinute now).tokenLoaded = sec.tokenLoaded := by
  unfold resetMinute; split_ifs <;> rfl

@[simp] theorem HymrplFifoSec.resetMinute_lastNonce :
    (sec.resetMinute now).lastNonce = sec.lastNonce := by
  unfold resetMinute; split_ifs <;> rfl

@[simp] theorem HymrplFifoSec.resetMinute_lastSwitchTime :
    (sec.resetMinute now).lastSwitchTime = sec.lastSwitchTime := by
  unfold resetMinute; split_ifs <;> rfl

end Fields

variable {hmac : Hmac} {now : ℚ} {sec passed : HymrplFifoSec} {ifaces : List Iface}
  {buf : List UInt8} {newClass : NodeClass}

/-- A command that passes only raises the nonce, and with a token not even that
unless its HMAC was verified. -/
theorem fifoAuthenticate_eq_some (h : fifoAuthenticate hmac sec buf = some (newClass, passed)) :
    passed = { sec with lastNonce := passed.lastNonce } ∧
      (sec.tokenLoaded = true →
        verifyHmac hmac sec.token buf = some (newClass, passed.lastNonce) ∧
          sec.lastNonce < passed.lastNonce) := by
  unfold fifoAuthenticate at h
  split_ifs at h with htoken
  · cases hv : verifyHmac hmac sec.token buf with
    | none => simp [hv] at h
    | some verified =>
        obtain ⟨c, nonce⟩ := verified
        by_cases hreplay : nonce ≤ sec.lastNonce
        · simp [hv, hreplay] at h
        · simp only [hv, hreplay, if_false, Option.some.injEq, Prod.mk.injEq] at h
          obtain ⟨rfl, rfl⟩ := h
          exact ⟨rfl, fun _ => ⟨rfl, UInt64.not_le.mp hreplay⟩⟩
  · cases hc : parseClass buf with
    | none => simp [hc] at h
    | some c =>
        obtain ⟨rfl, rfl⟩ : c = newClass ∧ sec = passed := by simpa [hc] using h
        exact ⟨rfl, fun hloaded => absurd hloaded htoken⟩

/-- The limiter's fields of a command that passed, once the minute counter is looked
at. -/
theorem resetMinute_of_passed (h : fifoAuthenticate hmac sec buf = some (newClass, passed))
    (now : ℚ) :
    (passed.resetMinute now).lastSwitchTime = sec.lastSwitchTime ∧
      (passed.resetMinute now).switchesThisMinute =
        (if 60 < now - sec.minuteStart then 0 else sec.switchesThisMinute) ∧
      (passed.resetMinute now).minuteStart =
        (if 60 < now - sec.minuteStart then now else sec.minuteStart) := by
  rw [(fifoAuthenticate_eq_some h).1]
  by_cases hover : 60 < now - sec.minuteStart <;> simp [HymrplFifoSec.resetMinute, hover]

/-- All that a check can do: nothing, when there is no command that passes;
refuse a command that passes; apply it. -/
theorem hymrplFifoSecCheck_cases (hmac : Hmac) (now : ℚ) (sec : HymrplFifoSec)
    (ifaces : List Iface) (buf : List UInt8) :
    ((buf = [] ∨ fifoAuthenticate hmac sec buf = none) ∧
      hymrplFifoSecCheck hmac now sec ifaces buf = (sec, ifaces, none)) ∨
    ∃ newClass passed, buf ≠ [] ∧ fifoAuthenticate hmac sec buf = some (newClass, passed) ∧
      ((hymrplFifoSecCheck hmac now sec ifaces buf =
          (passed.resetMinute now, ifaces, none) ∧
        (hymrplMaxSwitchesPerMin ≤ (passed.resetMinute now).switchesThisMinute ∨
          now - sec.lastSwitchTime < hymrplMinSwitchInterval)) ∨
      (hymrplFifoSecCheck hmac now sec ifaces buf =
          ({ passed.resetMinute now with
              lastSwitchTime := now
              switchesThisMinute := (passed.resetMinute now).switchesThisMinute + 1 },
            setNodeClass newClass ifaces, some newClass) ∧
        (passed.resetMinute now).switchesThisMinute < hymrplMaxSwitchesPerMin ∧
          hymrplMinSwitchInterval ≤ now - sec.lastSwitchTime)) := by
  by_cases hbuf : buf = []
  · exact Or.inl ⟨Or.inl hbuf, by simp [hymrplFifoSecCheck, hbuf]⟩
  · cases hauth : fifoAuthenticate hmac sec buf with
    | none => exact Or.inl ⟨Or.inr rfl, by simp [hymrplFifoSecCheck, hbuf, hauth]⟩
    | some result =>
        obtain ⟨newClass, passed⟩ := result
        have hlast : passed.lastSwitchTime = sec.lastSwitchTime := by
          rw [(fifoAuthenticate_eq_some hauth).1]
        refine Or.inr ⟨newClass, passed, hbuf, rfl, ?_⟩
        by_cases hmax : hymrplMaxSwitchesPerMin ≤ (passed.resetMinute now).switchesThisMinute
        · exact Or.inl ⟨by simp [hymrplFifoSecCheck, hbuf, hauth, hmax], Or.inl hmax⟩
        · by_cases hfast : now - sec.lastSwitchTime < hymrplMinSwitchInterval
          · exact Or.inl
              ⟨by simp [hymrplFifoSecCheck, hbuf, hauth, hmax, hlast, hfast], Or.inr hfast⟩
          · exact Or.inr
              ⟨by simp [hymrplFifoSecCheck, hbuf, hauth, hmax, hlast, hfast],
                Nat.not_le.mp hmax, not_lt.mp hfast⟩

/-- A check that applies nothing leaves the interfaces and the time of the last
switch alone. -/
theorem hymrplFifoSecCheck_of_none
    (h : (hymrplFifoSecCheck hmac now sec ifaces buf).2.2 = none) :
    (hymrplFifoSecCheck hmac now sec ifaces buf).2.1 = ifaces ∧
      (hymrplFifoSecCheck hmac now sec ifaces buf).1.lastSwitchTime = sec.lastSwitchTime := by
  rcases hymrplFifoSecCheck_cases hmac now sec ifaces buf with
    ⟨-, hcheck⟩ | ⟨newClass, passed, -, hauth, ⟨hcheck, -⟩ | ⟨hcheck, -⟩⟩
  · simp [hcheck]
  · have hlast : passed.lastSwitchTime = sec.lastSwitchTime := by
      rw [(fifoAuthenticate_eq_some hauth).1]
    simp [hcheck, hlast]
  · simp [hcheck] at h

end HyMRPL
