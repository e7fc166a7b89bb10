import HyMRPL.Cmd.Sender
import HyMRPL.Daemon.Periodic
import HyMRPL.Foundation.Window
import Mathlib.Tactic.Linarith

/-!
# The quota of class switches

The limiter counts the switches of the FIFO in a window that starts with some
command and is dropped, with its count, by the first command that passes more than
a minute later. It does not count the switches of the engine. Three switches in
every 60 seconds are the limit in the runs where the engine switches only after the
window is over, and where the end of a window, by a command or by the engine, comes
at least 60 seconds after the last switch.
-/

namespace HyMRPL

open Transition Window

/-- The times at which class switches were applied, by either path. -/
def switchTimes (records : List TickRecord) : List ℚ :=
  (records.filter fun r => r.fifo.isSome || r.engine.isSome).map fun r => r.now

/-- No switch was applied yet, or the last one lies at least 60 seconds back. -/
def HymrplFifoSec.QuietMinute (sec : HymrplFifoSec) (now : ℚ) : Prop :=
  sec.lastSwitchTime = 0 ∨ 60 ≤ now - sec.lastSwitchTime

instance (sec : HymrplFifoSec) (now : ℚ) : Decidable (sec.QuietMinute now) :=
  inferInstanceAs (Decidable (_ ∨ _))

/-- The engine applies a switch only after the minute window is over, and if it does, or
if a command passes then, the last minute was quiet. -/
def WindowKept (hmac : Hmac) (d : Daemon) : DaemonEvent → Prop
  | .tick now buf =>
      (EngineSwitches hmac d (.tick now buf) →
        60 < now - d.fifoSec.minuteStart ∧ d.fifoSec.QuietMinute now) ∧
      (buf ≠ [] → (fifoAuthenticate hmac d.fifoSec buf).isSome →
        60 < now - d.fifoSec.minuteStart → d.fifoSec.QuietMinute now)
  | .other _ _ => True

instance (hmac : Hmac) (d : Daemon) : ∀ e, Decidable (WindowKept hmac d e)
  | .tick _ _ => inferInstanceAs (Decidable (_ ∧ _))
  | .other _ _ => .isTrue trivial

/-- The switches of the current window, `cur`, are the ones that the limiter counts,
unless the window was over at the last of them; and they follow the older ones after
60 seconds or more. -/
structure Counted (old cur : List ℚ) (last minuteStart : ℚ) (count : ℕ) : Prop where
  length_eq : cur.length = count ∨ 60 < last - minuteStart
  length_le : cur.length ≤ hymrplMaxSwitchesPerMin
  within_old : Within hymrplMaxSwitchesPerMin 60 old
  old_eq_nil : cur = [] → old = []
  gap : ∀ a ∈ old, ∀ b ∈ cur, a + 60 ≤ b
  rising : (old ++ cur).Pairwise (· < ·)
  le_last : ∀ a ∈ old ++ cur, a ≤ last
  last_nonneg : 0 ≤ last
  cur_eq_nil : last = 0 → cur = []

/-- The switch times of some records, as the limiter's state knows them. -/
def CountedBy (sec : HymrplFifoSec) (times : List ℚ) : Prop :=
  ∃ old cur, times = old ++ cur ∧
    Counted old cur sec.lastSwitchTime sec.minuteStart sec.switchesThisMinute

namespace Counted

variable {old cur : List ℚ} {last minuteStart now : ℚ} {count : ℕ}

theorem start (minuteStart : ℚ) : Counted [] [] 0 minuteStart 0 :=
  ⟨Or.inl rfl, by decide, within_nil _ _, fun _ => rfl, by simp, by simp, by simp, le_refl 0,
    fun _ => rfl⟩

theorem within (h : Counted old cur last minuteStart count) :
    Within hymrplMaxSwitchesPerMin 60 (old ++ cur) :=
  within_append (by decide) h.rising h.within_old h.length_le h.gap

/-- A count that is dropped before the first switch is the one of no switch. -/
theorem drop_count (h : Counted old cur last minuteStart count) (hlast : last = 0) :
    Counted old cur last now 0 := by
  obtain rfl := h.cur_eq_nil hlast
  exact { h with length_eq := Or.inl rfl }

theorem rising_push (h : Counted old cur last minuteStart count)
    (hnow : hymrplMinSwitchInterval ≤ now - last) :
    last < now ∧ ((old ++ cur) ++ [now]).Pairwise (· < ·) ∧
      ∀ a ∈ (old ++ cur) ++ [now], a ≤ now := by
  have hlt : last < now := by
    have hpos : (0 : ℚ) < hymrplMinSwitchInterval := by norm_num [hymrplMinSwitchInterval]
    linarith
  refine ⟨hlt, ?_, ?_⟩
  · rw [List.pairwise_append]
    refine ⟨h.rising, List.pairwise_singleton _ _, fun a ha b hb => ?_⟩
    obtain rfl := List.mem_singleton.mp hb
    exact (h.le_last a ha).trans_lt hlt
  · intro a ha
    rcases List.mem_append.mp ha with ha | ha
    · exact (h.le_last a ha).trans hlt.le
    · exact (List.mem_singleton.mp ha).le

/-- A switch that is counted in the window that goes on. -/
theorem push (h : Counted old cur last minuteStart count)
    (hcount : count < hymrplMaxSwitchesPerMin)
    (hnow : hymrplMinSwitchInterval ≤ now - last) (hwindow : ¬ 60 < now - minuteStart) :
    Counted old (cur ++ [now]) now minuteStart (count + 1) := by
  obtain ⟨hlt, hrising, hle⟩ := h.rising_push hnow
  have hlength : cur.length = count := by
    apply h.length_eq.resolve_right
    intro hover
    exact hwindow (by linarith)
  constructor
  case length_eq => exact Or.inl (by simp [hlength])
  case length_le =>
    rw [List.length_append, hlength]
    exact hcount
  case within_old => exact h.within_old
  case old_eq_nil => simp
  case gap =>
    intro a ha b hb
    rcases List.mem_append.mp hb with hb | hb
    · exact h.gap a ha b hb
    · obtain rfl := List.mem_singleton.mp hb
      -- The older switches lie 60 seconds before the first one of the window.
      cases hcur : cur with
      | nil => simp [h.old_eq_nil hcur] at ha
      | cons c cs =>
          have hc : c ∈ cur := by simp [hcur]
          have hfirst := h.gap a ha c hc
          have hlast := h.le_last c (List.mem_append_right old hc)
          linarith
  case rising => simpa using hrising
  case le_last => simpa using hle
  case last_nonneg => exact h.last_nonneg.trans hlt.le
  case cur_eq_nil => exact fun hzero => absurd (hzero ▸ hlt) (not_lt.mpr h.last_nonneg)

/-- A switch after a quiet minute is the first one of a new window, whose count is
right or will not be used. -/
theorem restart (h : Counted old cur last minuteStart count)
    (hnow : hymrplMinSwitchInterval ≤ now - last) (hquiet : last = 0 ∨ 60 ≤ now - last)
    {newStart : ℚ} {newCount : ℕ} (hcount : 1 = newCount ∨ 60 < now - newStart) :
    Counted (old ++ cur) [now] now newStart newCount := by
  obtain ⟨hlt, hrising, hle⟩ := h.rising_push hnow
  constructor
  case length_eq => exact hcount
  case length_le => exact (by decide : 1 ≤ hymrplMaxSwitchesPerMin)
  case within_old => exact h.within
  case old_eq_nil => simp
  case gap =>
    intro a ha b hb
    obtain rfl := List.mem_singleton.mp hb
    rcases hquiet with hlast | hquiet
    · have hcur := h.cur_eq_nil hlast
      simp [hcur, h.old_eq_nil hcur] at ha
    · have hlast := h.le_last a ha
      linarith
  case rising => exact hrising
  case le_last => exact hle
  case last_nonneg => exact h.last_nonneg.trans hlt.le
  case cur_eq_nil => exact fun hzero => absurd (hzero ▸ hlt) (not_lt.mpr h.last_nonneg)

end Counted

theorem switchTimes_append_of_none {records : List TickRecord} {r : TickRecord}
    (hfifo : r.fifo = none) (hengine : r.engine = none) :
    switchTimes (records ++ [r]) = switchTimes records := by
  simp [switchTimes, hfifo, hengine]

theorem switchTimes_append_of_fifo {records : List TickRecord} {r : TickRecord}
    (hfifo : r.fifo ≠ none) :
    switchTimes (records ++ [r]) = switchTimes records ++ [r.now] := by
  simp [switchTimes, Option.isSome_iff_ne_none.mpr hfifo]

theorem switchTimes_append_of_engine {records : List TickRecord} {r : TickRecord}
    (hengine : r.engine ≠ none) :
    switchTimes (records ++ [r]) = switchTimes records ++ [r.now] := by
  simp [switchTimes, Option.isSome_iff_ne_none.mpr hengine]

section Tick

variable {hmac : Hmac} {d : Daemon} {now : ℚ} {buf : List UInt8} {records : List TickRecord}

/-- A tick without a switch that leaves the limiter's state as the check of the FIFO
does. -/
theorem countedBy_of_idle
    (hfifo : (hymrplFifoSecCheck hmac now d.fifoSec d.ifaces buf).2.2 = none)
    (hengine : ¬ EngineSwitches hmac d (.tick now buf))
    (h : CountedBy (hymrplFifoSecCheck hmac now d.fifoSec d.ifaces buf).1 (switchTimes records)) :
    CountedBy (hymrplPeriodicCb hmac now buf d).1.fifoSec
      (switchTimes (records ++ [tickRecord hmac now buf d])) := by
  obtain ⟨hsec, hresult⟩ := hymrplPeriodicCb_of_idle hfifo hengine
  rw [hsec, switchTimes_append_of_none (by simp [tickRecord, hresult])
    (by simp [tickRecord, hresult])]
  exact h

/-- A tick in which the engine switches, with the window over and after a quiet minute.
No command passed, since it would have been applied. -/
theorem countedBy_of_engine (h : CountedBy d.fifoSec (switchTimes records))
    (hengine : EngineSwitches hmac d (.tick now buf))
    (hover : 60 < now - d.fifoSec.minuteStart) (hquiet : d.fifoSec.QuietMinute now) :
    CountedBy (hymrplPeriodicCb hmac now buf d).1.fifoSec
      (switchTimes (records ++ [tickRecord hmac now buf d])) := by
  obtain ⟨old, cur, hsplit, hcounted⟩ := h
  obtain ⟨hsec, newClass, hresult⟩ := hymrplPeriodicCb_of_engine hengine
  obtain ⟨hnone, -, -, hnow⟩ := hengine
  have hcheck : (hymrplFifoSecCheck hmac now d.fifoSec d.ifaces buf).1 = d.fifoSec := by
    rcases hymrplFifoSecCheck_cases hmac now d.fifoSec d.ifaces buf with
      ⟨-, hcheck⟩ | ⟨newClass, passed, -, hauth, ⟨-, hrefused⟩ | ⟨hcheck, -⟩⟩
    · rw [hcheck]
    · rw [(resetMinute_of_passed hauth now).2.1, if_pos hover] at hrefused
      exact absurd (hrefused.resolve_left (by decide)) (not_lt.mpr hnow)
    · simp [hcheck] at hnone
  have htimes : switchTimes (records ++ [tickRecord hmac now buf d]) =
      switchTimes records ++ [now] :=
    switchTimes_append_of_engine (by simp [tickRecord, hresult])
  rw [hsec, hcheck, htimes, hsplit]
  exact ⟨old ++ cur, [now], rfl, hcounted.restart hnow hquiet (Or.inr hover)⟩

variable {newClass : NodeClass} {passed : HymrplFifoSec}

/-- A tick that refuses a command that passes. If the window ends here, then before any
switch: after a quiet minute the command would have been applied. -/
theorem countedBy_of_refused (h : CountedBy d.fifoSec (switchTimes records))
    (hengine : ¬ EngineSwitches hmac d (.tick now buf))
    (hauth : fifoAuthenticate hmac d.fifoSec buf = some (newClass, passed))
    (hquiet : 60 < now - d.fifoSec.minuteStart → d.fifoSec.QuietMinute now)
    (hcheck : hymrplFifoSecCheck hmac now d.fifoSec d.ifaces buf =
      (passed.resetMinute now, d.ifaces, none))
    (hrefused : hymrplMaxSwitchesPerMin ≤ (passed.resetMinute now).switchesThisMinute ∨
      now - d.fifoSec.lastSwitchTime < hymrplMinSwitchInterval) :
    CountedBy (hymrplPeriodicCb hmac now buf d).1.fifoSec
      (switchTimes (records ++ [tickRecord hmac now buf d])) := by
  obtain ⟨old, cur, hsplit, hcounted⟩ := h
  obtain ⟨hlast, hcount, hminute⟩ := resetMinute_of_passed hauth now
  refine countedBy_of_idle (by rw [hcheck]) hengine ⟨old, cur, hsplit, ?_⟩
  rw [hcheck, hlast, hcount, hminute]
  rw [hcount] at hrefused
  by_cases hover : 60 < now - d.fifoSec.minuteStart
  · rw [if_pos hover] at hrefused
    rw [if_pos hover, if_pos hover]
    have hfast : now - d.fifoSec.lastSwitchTime < hymrplMinSwitchInterval :=
      hrefused.resolve_left (by decide)
    apply hcounted.drop_count
    apply (hquiet hover).resolve_right
    intro hgap
    have hten : hymrplMinSwitchInterval ≤ 60 := by norm_num [hymrplMinSwitchInterval]
    linarith
  · rw [if_neg hover, if_neg hover]
    exact hcounted

/-- A tick that applies a command, in the window that goes on or as the first of a new
one. -/
theorem countedBy_of_applied (h : CountedBy d.fifoSec (switchTimes records))
    (hauth : fifoAuthenticate hmac d.fifoSec buf = some (newClass, passed))
    (hquiet : 60 < now - d.fifoSec.minuteStart → d.fifoSec.QuietMinute now)
    (hcheck : hymrplFifoSecCheck hmac now d.fifoSec d.ifaces buf =
      ({ passed.resetMinute now with
          lastSwitchTime := now
          switchesThisMinute := (passed.resetMinute now).switchesThisMinute + 1 },
        setNodeClass newClass d.ifaces, some newClass))
    (hroom : (passed.resetMinute now).switchesThisMinute < hymrplMaxSwitchesPerMin)
    (hnow : hymrplMinSwitchInterval ≤ now - d.fifoSec.lastSwitchTime) :
    CountedBy (hymrplPeriodicCb hmac now buf d).1.fifoSec
      (switchTimes (records ++ [tickRecord hmac now buf d])) := by
  obtain ⟨old, cur, hsplit, hcounted⟩ := h
  obtain ⟨-, hcount, hminute⟩ := resetMinute_of_passed hauth now
  have htimes : switchTimes (records ++ [tickRecord hmac now buf d]) =
      switchTimes records ++ [now] :=
    switchTimes_append_of_fifo
      (by simp [tickRecord, hymrplPeriodicCb_of_fifo hcheck])
  rw [hymrplPeriodicCb_of_fifo hcheck, htimes, hsplit]
  simp only [CountedBy, hminute, hcount] at hroom ⊢
  by_cases hover : 60 < now - d.fifoSec.minuteStart
  · rw [if_pos hover, if_pos hover]
    exact ⟨old ++ cur, [now], rfl, hcounted.restart hnow (hquiet hover) (Or.inl rfl)⟩
  · rw [if_neg hover] at hroom
    rw [if_neg hover, if_neg hover]
    exact ⟨old, cur ++ [now], List.append_assoc _ _ _, hcounted.push hroom hnow hover⟩

/-- The step lemma: a tick that keeps the window keeps the count. -/
theorem countedBy_tick (h : CountedBy d.fifoSec (switchTimes records))
    (hkept : WindowKept hmac d (.tick now buf)) :
    CountedBy (hymrplPeriodicCb hmac now buf d).1.fifoSec
      (switchTimes (records ++ [tickRecord hmac now buf d])) := by
  obtain ⟨hswitch, hpass⟩ := hkept
  by_cases hengine : EngineSwitches hmac d (.tick now buf)
  · obtain ⟨hover, hquiet⟩ := hswitch hengine
    exact countedBy_of_engine h hengine hover hquiet
  · rcases hymrplFifoSecCheck_cases hmac now d.fifoSec d.ifaces buf with
      ⟨-, hcheck⟩ | ⟨newClass, passed, hbuf, hauth, hcheck⟩
    · exact countedBy_of_idle (by rw [hcheck]) hengine (by rw [hcheck]; exact h)
    · have hquiet := hpass hbuf (by simp [hauth])
      rcases hcheck with ⟨hcheck, hrefused⟩ | ⟨hcheck, hroom, hnow⟩
      · exact countedBy_of_refused h hengine hauth hquiet hcheck hrefused
      · exact countedBy_of_applied h hauth hquiet hcheck hroom hnow

end Tick

/-- In a run whose steps keep the window, at most three switches, of the FIFO and of the
engine together, are applied in any 60 seconds. -/
theorem switches_within_quota (hmac : Hmac) (start : ℚ) (tokenFile : Option (List UInt8))
    (ifaces : List Iface) (es : List DaemonEvent)
    (hkept : (daemon hmac).Steps (WindowKept hmac) (Daemon.start start tokenFile ifaces) es) :
    Within hymrplMaxSwitchesPerMin 60
      (switchTimes (tickRecords hmac (Daemon.start start tokenFile ifaces) es)) := by
  have hstart : CountedBy (Daemon.start start tokenFile ifaces).fifoSec (switchTimes []) := by
    obtain ⟨hlast, hcount, -⟩ := limiter_hymrplFifoSecInit start tokenFile
    refine ⟨[], [], rfl, ?_⟩
    simp only [Daemon.start, hlast, hcount]
    exact Counted.start _
  obtain ⟨old, cur, hsplit, h⟩ := tickRecords_invariant (C := WindowKept hmac)
    (R := fun records d => CountedBy d.fifoSec (switchTimes records))
    (fun records d now buf h hC => countedBy_tick h hC)
    (fun records d adaptive ifaces h => h) hstart hkept
  rw [hsplit]
  exact h.within

/-- The daemon of a root without a token file, started at time zero. -/
def rootDaemon : Daemon := Daemon.start 0 none [⟨1, true, .classS, []⟩]

/-- A tick that reads a plain line. -/
def plainTick (now : ℚ) (newClass : NodeClass) : DaemonEvent :=
  .tick now (hymrplCmd sampleHmac none newClass 0)

/-- An engine without deliveries and energy, which recommends Class N. -/
def drainedEngine : HymrplAdaptive := { hymrplAdaptiveInit with pdr := 0, energyEma := 0 }

/-- The engine switches in its third tick, and a command follows 70 seconds later. -/
def engineThenCommand : List DaemonEvent :=
  [.other drainedEngine [⟨1, false, .classS, []⟩], .tick 98 [], .tick 99 [], .tick 100 [],
    plainTick 170 .classS]

/-- The limit holds for a switch of the engine and one of the FIFO. -/
theorem switches_within_quota_slow :
    switchTimes (tickRecords sampleHmac (Daemon.start 0 none [⟨1, false, .classS, []⟩])
      engineThenCommand) = [100, 170] ∧
    Within hymrplMaxSwitchesPerMin 60 (switchTimes (tickRecords sampleHmac
      (Daemon.start 0 none [⟨1, false, .classS, []⟩]) engineThenCommand)) :=
  ⟨by decide +kernel, switches_within_quota sampleHmac 0 none [⟨1, false, .classS, []⟩]
    engineThenCommand (by decide +kernel)⟩

/-- Three commands in a window, and a switch of the engine that is not counted. -/
def commandsThenEngine : List DaemonEvent :=
  [.other drainedEngine [⟨1, false, .classN, []⟩], plainTick 10 .classS, plainTick 20 .classN,
    plainTick 30 .classS, .tick 38 [], .tick 39 [], .tick 40 []]

/-- Three commands at the end of a window, and one at the start of the next. -/
def commandsAroundEnd : List DaemonEvent :=
  [plainTick 40 .classN, plainTick 50 .classS, plainTick 60 .classN, plainTick 70 .classS]

/-- Both are four switches in thirty seconds. -/
theorem fourSwitches_exceed_quota :
    switchTimes (tickRecords sampleHmac (Daemon.start 0 none [⟨1, false, .classN, []⟩])
      commandsThenEngine) = [10, 20, 30, 40] ∧
    ¬ Within hymrplMaxSwitchesPerMin 60 (switchTimes (tickRecords sampleHmac
      (Daemon.start 0 none [⟨1, false, .classN, []⟩]) commandsThenEngine)) ∧
    switchTimes (tickRecords sampleHmac rootDaemon commandsAroundEnd) = [40, 50, 60, 70] ∧
    ¬ Within hymrplMaxSwitchesPerMin 60
      (switchTimes (tickRecords sampleHmac rootDaemon commandsAroundEnd)) := by
  have hengine : switchTimes (tickRecords sampleHmac
      (Daemon.start 0 none [⟨1, false, .classN, []⟩]) commandsThenEngine) = [10, 20, 30, 40] := by
    decide +kernel
  have hend : switchTimes (tickRecords sampleHmac rootDaemon commandsAroundEnd) =
      [40, 50, 60, 70] := by
    decide +kernel
  refine ⟨hengine, fun h => ?_, hend, fun h => ?_⟩
  · rw [hengine] at h
    exact absurd (h 10) (by decide +kernel)
  · rw [hend] at h
    exact absurd (h 40) (by decide +kernel)

end HyMRPL
