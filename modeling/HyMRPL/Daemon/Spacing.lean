import HyMRPL.Daemon.Switches

/-!
# Spaced commands

The limiter counts a command against the quota of its window only when the command is
applied, and bytes that do not pass authentication are not counted at all. So commands that
pass more than 20 seconds after each other never meet the quota, whatever else is read in
between: one of them is refused exactly when the engine has switched in the ten seconds
before it.

`Paced` is the invariant: a command that comes late enough after those that have passed
finds room in the window that it meets.
-/

namespace HyMRPL

open Transition

/-- A third of the window in which three switches are allowed. -/
def commandSpacing : ℚ := 20

/-- The times and the contents of the commands that passed authentication. -/
def passings (records : List TickRecord) : List (ℚ × NodeClass × UInt64) :=
  records.filterMap fun r => r.passed.map fun p => (r.now, p)

/-- The times lie after the start, and each more than the spacing after those before it. -/
def Spaced (start : ℚ) (times : List ℚ) : Prop :=
  (∀ t ∈ times, start ≤ t) ∧ times.Pairwise fun s t => s + commandSpacing < t

instance (start : ℚ) (times : List ℚ) : Decidable (Spaced start times) :=
  inferInstanceAs (Decidable (_ ∧ _))

/-- The engine has switched less than the minimum interval before. -/
def EngineRecently (before : List TickRecord) (now : ℚ) : Prop :=
  ∃ s ∈ before, s.engine ≠ none ∧ now - s.now < hymrplMinSwitchInterval

instance (before : List TickRecord) (now : ℚ) : Decidable (EngineRecently before now) :=
  inferInstanceAs (Decidable (∃ s ∈ before, _))

/-- The clock has not been set back between the ticks. -/
def ClockRises (records : List TickRecord) : Prop :=
  records.Pairwise fun r s => r.now ≤ s.now

instance (records : List TickRecord) : Decidable (ClockRises records) :=
  inferInstanceAs (Decidable (List.Pairwise _ _))

theorem passings_append_of_none {records : List TickRecord} {r : TickRecord}
    (h : r.passed = none) : passings (records ++ [r]) = passings records := by
  simp [passings, h]

theorem passings_append_of_some {records : List TickRecord} {r : TickRecord}
    {p : NodeClass × UInt64} (h : r.passed = some p) :
    passings (records ++ [r]) = passings records ++ [(r.now, p)] := by
  simp [passings, h]

theorem spaced_append {start now : ℚ} {times : List ℚ} :
    Spaced start (times ++ [now]) ↔
      Spaced start times ∧ start ≤ now ∧ ∀ t ∈ times, t + commandSpacing < now := by
  simp only [Spaced, List.forall_mem_append, List.forall_mem_singleton, List.pairwise_append,
    List.pairwise_singleton, true_and]
  tauto

theorem Spaced.left {start : ℚ} {before after : List ℚ} (h : Spaced start (before ++ after)) :
    Spaced start before :=
  ⟨fun t ht => h.1 t (List.mem_append_left _ ht), (List.pairwise_append.mp h.2).1⟩

/-- The engine applies nothing in a tick in which it does not switch. -/
theorem engine_eq_none_of_not_switches {hmac : Hmac} {d : Daemon} {now : ℚ} {buf : List UInt8}
    (h : ¬ EngineSwitches hmac d (.tick now buf)) : (tickRecord hmac now buf d).engine = none := by
  rcases hymrplPeriodicCb_cases hmac now buf d with
    ⟨newClass, -, hcb⟩ | ⟨-, -, hcb⟩ | ⟨-, -, -, hcb⟩ |
    ⟨newClass, hfifo, henabled, hpoll, hinterval, -⟩
  · simp [tickRecord, hcb]
  · simp [tickRecord, hcb]
  · simp [tickRecord, hcb]
  · exact absurd ⟨hfifo, henabled, by simp [hpoll], hinterval⟩ h

theorem not_engineSwitches_of_disabled {d : Daemon} (h : d.adaptiveEnabled = false) (hmac : Hmac)
    (now : ℚ) (buf : List UInt8) : ¬ EngineSwitches hmac d (.tick now buf) := by
  rintro ⟨-, henabled, -⟩
  simp [h] at henabled

/-- Without a token the commands that name a class pass. -/
theorem passed_of_unloaded {d : Daemon} (h : d.fifoSec.tokenLoaded = false) (hmac : Hmac)
    (now : ℚ) (buf : List UInt8) :
    (tickRecord hmac now buf d).passed =
      if buf = [] then none
      else (parseClass buf).map fun newClass => (newClass, d.fifoSec.lastNonce) := by
  by_cases hbuf : buf = []
  · simp [tickRecord, hbuf]
  · cases hparse : parseClass buf <;> simp [tickRecord, hbuf, fifoAuthenticate, h, hparse]

/-- The window of the limiter is the same. -/
def HymrplFifoSec.SameWindow (new old : HymrplFifoSec) : Prop :=
  new.minuteStart = old.minuteStart ∧ new.switchesThisMinute = old.switchesThisMinute

theorem HymrplFifoSec.resetMinute_sameWindow {hmac : Hmac} {sec passed : HymrplFifoSec}
    {buf : List UInt8} {newClass : NodeClass}
    (h : fifoAuthenticate hmac sec buf = some (newClass, passed)) (now : ℚ) :
    (passed.resetMinute now).SameWindow (sec.resetMinute now) := by
  obtain ⟨-, hcount, hminute⟩ := resetMinute_of_passed h now
  rw [SameWindow, hcount, hminute]
  by_cases hover : 60 < now - sec.minuteStart <;> simp [resetMinute, hover]

/-- What a tick does to the window: nothing, when no command passes; look whether it is
over, when one passes; and count the command, if it is applied. -/
theorem tick_window (hmac : Hmac) (now : ℚ) (buf : List UInt8) (d : Daemon) :
    ((tickRecord hmac now buf d).passed = none ∧ (tickRecord hmac now buf d).fifo = none ∧
        (hymrplPeriodicCb hmac now buf d).1.fifoSec.SameWindow d.fifoSec) ∨
      ∃ newClass nonce, (tickRecord hmac now buf d).passed = some (newClass, nonce) ∧
        (((tickRecord hmac now buf d).fifo = none ∧
            (hymrplPeriodicCb hmac now buf d).1.fifoSec.SameWindow (d.fifoSec.resetMinute now) ∧
            (hymrplMaxSwitchesPerMin ≤ (d.fifoSec.resetMinute now).switchesThisMinute ∨
              now - d.fifoSec.lastSwitchTime < hymrplMinSwitchInterval)) ∨
          ((tickRecord hmac now buf d).fifo = some newClass ∧
            (hymrplPeriodicCb hmac now buf d).1.fifoSec.minuteStart =
              (d.fifoSec.resetMinute now).minuteStart ∧
            (hymrplPeriodicCb hmac now buf d).1.fifoSec.switchesThisMinute =
              (d.fifoSec.resetMinute now).switchesThisMinute + 1 ∧
            hymrplMinSwitchInterval ≤ now - d.fifoSec.lastSwitchTime)) := by
  obtain ⟨⟨time, hsec⟩, hresult⟩ := hymrplPeriodicCb_fifo hmac now buf d
  have hfifo : (tickRecord hmac now buf d).fifo =
      (hymrplFifoSecCheck hmac now d.fifoSec d.ifaces buf).2.2 := hresult
  rw [hfifo, hsec]
  rcases hymrplFifoSecCheck_cases hmac now d.fifoSec d.ifaces buf with
    ⟨hnone, hcheck⟩ | ⟨newClass, passed, hbuf, hauth, hcheck⟩
  · left
    rw [hcheck]
    refine ⟨?_, rfl, rfl, rfl⟩
    rcases hnone with hbuf | hauth
    · simp [tickRecord, hbuf]
    · simp [tickRecord, hauth]
  · right
    have hpassed : (tickRecord hmac now buf d).passed = some (newClass, passed.lastNonce) := by
      simp [tickRecord, hbuf, hauth]
    obtain ⟨hminute, hcount⟩ := HymrplFifoSec.resetMinute_sameWindow hauth now
    refine ⟨newClass, passed.lastNonce, hpassed, ?_⟩
    rcases hcheck with ⟨hcheck, hrefused⟩ | ⟨hcheck, -, hinterval⟩
    · left
      rw [hcheck]
      rw [hcount] at hrefused
      exact ⟨rfl, ⟨hminute, hcount⟩, hrefused⟩
    · right
      rw [hcheck]
      exact ⟨rfl, hminute, by rw [hcount], hinterval⟩

/-- A tick in which no command passes, and the engine does not switch, changes no class. -/
theorem ifaces_of_no_command {hmac : Hmac} {d : Daemon} {now : ℚ} {buf : List UInt8}
    (hpassed : (tickRecord hmac now buf d).passed = none)
    (hengine : (tickRecord hmac now buf d).engine = none) :
    (hymrplPeriodicCb hmac now buf d).1.ifaces = d.ifaces := by
  have hfifo : (tickRecord hmac now buf d).fifo = none := by
    rcases tick_window hmac now buf d with ⟨-, hfifo, -⟩ | ⟨_, _, hsome, -⟩
    · exact hfifo
    · simp [hpassed] at hsome
  rcases tick_applied hmac now buf d with ⟨-, hifaces, -⟩ | ⟨newClass, happlied, -⟩
  · exact hifaces
  · simp [TickRecord.applied, hfifo, hengine] at happlied

theorem ifaces_of_fifo {hmac : Hmac} {d : Daemon} {now : ℚ} {buf : List UInt8}
    {newClass : NodeClass} (hfifo : (tickRecord hmac now buf d).fifo = some newClass) :
    (hymrplPeriodicCb hmac now buf d).1.ifaces = setNodeClass newClass d.ifaces := by
  rcases tick_applied hmac now buf d with ⟨hnone, -⟩ | ⟨newClass', happlied, hifaces, -⟩
  · simp [TickRecord.applied, hfifo] at hnone
  · obtain rfl : newClass = newClass' := by simpa [TickRecord.applied, hfifo] using happlied
    exact hifaces

/-- A time more than the spacing after the commands that have passed finds room: the
window has begun, and with `n` counted switches more than `n` spacings ago. The last switch
was one of these commands or one of the engine, and if the clock rises no switch of the
engine is later. -/
structure Paced (start : ℚ) (sec : HymrplFifoSec) (records : List TickRecord) : Prop where
  room : ∀ b, start ≤ b → (∀ t ∈ (passings records).map Prod.fst, t + commandSpacing < b) →
    sec.minuteStart ≤ b ∧ (sec.switchesThisMinute ≠ 0 →
      sec.minuteStart + commandSpacing * sec.switchesThisMinute < b)
  last : sec.lastSwitchTime = 0 ∨ sec.lastSwitchTime ∈ (passings records).map Prod.fst ∨
    ∃ s ∈ records, s.engine ≠ none ∧ s.now = sec.lastSwitchTime
  late : ClockRises records → ∀ s ∈ records, s.engine ≠ none → s.now ≤ sec.lastSwitchTime

/-- A window that gets no more switches than it had keeps room. -/
theorem Paced.fits {start b : ℚ} {sec : HymrplFifoSec} {records : List TickRecord}
    (h : Paced start sec records) (hstart : start ≤ b)
    (hb : ∀ t ∈ (passings records).map Prod.fst, t + commandSpacing < b) :
    (sec.resetMinute b).switchesThisMinute < hymrplMaxSwitchesPerMin ∧
      (sec.resetMinute b).minuteStart +
        commandSpacing * (sec.resetMinute b).switchesThisMinute ≤ b := by
  obtain ⟨hbegun, hcounted⟩ := h.room b hstart hb
  by_cases hover : 60 < b - sec.minuteStart
  · simp [HymrplFifoSec.resetMinute, hover, hymrplMaxSwitchesPerMin]
  · simp only [HymrplFifoSec.resetMinute, hover, if_false]
    by_cases hzero : sec.switchesThisMinute = 0
    · simp [hzero, hbegun, hymrplMaxSwitchesPerMin]
    · have hlt := hcounted hzero
      refine ⟨?_, hlt.le⟩
      by_contra hfull
      have hthree : ((3 : ℕ) : ℚ) ≤ sec.switchesThisMinute := by
        exact_mod_cast Nat.not_lt.mp hfull
      rw [commandSpacing] at hlt
      push_cast at hthree
      linarith

section Tick

variable {hmac : Hmac} {d : Daemon} {now : ℚ} {buf : List UInt8} {records : List TickRecord}
  {start : ℚ}

/-- In a tick in which a command passes, the window meets it with room, and counts it at
most once. -/
theorem Paced.room_of_passed {sec : HymrplFifoSec} (h : Paced start d.fifoSec records)
    (hstart : start ≤ now)
    (hnow : ∀ t ∈ (passings records).map Prod.fst, t + commandSpacing < now)
    (hminute : sec.minuteStart = (d.fifoSec.resetMinute now).minuteStart)
    (hcount : sec.switchesThisMinute ≤ (d.fifoSec.resetMinute now).switchesThisMinute + 1)
    {b : ℚ} (hb : now + commandSpacing < b) :
    sec.minuteStart ≤ b ∧ (sec.switchesThisMinute ≠ 0 →
      sec.minuteStart + commandSpacing * sec.switchesThisMinute < b) := by
  obtain ⟨-, hfit⟩ := h.fits hstart hnow
  have hcast : (sec.switchesThisMinute : ℚ) ≤
      (d.fifoSec.resetMinute now).switchesThisMinute + 1 := by exact_mod_cast hcount
  have hnonneg : (0 : ℚ) ≤ (d.fifoSec.resetMinute now).switchesThisMinute := Nat.cast_nonneg _
  simp only [commandSpacing] at hb hfit ⊢
  rw [hminute]
  constructor
  · linarith
  · intro
    linarith

/-- The step lemma: a tick keeps the pace, if the command that passes in it comes late
enough. -/
theorem Paced.tick (h : Paced start d.fifoSec records)
    (hspaced : (tickRecord hmac now buf d).passed ≠ none →
      start ≤ now ∧ ∀ t ∈ (passings records).map Prod.fst, t + commandSpacing < now) :
    Paced start (hymrplPeriodicCb hmac now buf d).1.fifoSec
      (records ++ [tickRecord hmac now buf d]) := by
  constructor
  case room =>
    rcases tick_window hmac now buf d with
      ⟨hpassed, -, hminute, hcount⟩ | ⟨newClass, nonce, hpassed, hcase⟩
    · rw [passings_append_of_none hpassed, hminute, hcount]
      exact h.room
    · obtain ⟨hstart, hnow⟩ := hspaced (by simp [hpassed])
      rw [passings_append_of_some hpassed]
      intro b _ hb
      have hlate : now + commandSpacing < b := hb now (by simp [tickRecord])
      rcases hcase with ⟨-, ⟨hminute, hcount⟩, -⟩ | ⟨-, hminute, hcount, -⟩
      · exact h.room_of_passed hstart hnow hminute (by omega) hlate
      · exact h.room_of_passed hstart hnow hminute (by omega) hlate
  case last =>
    rcases tick_applied hmac now buf d with ⟨-, -, hlast⟩ | ⟨newClass, happlied, -, hlast, -⟩
    · rw [hlast]
      rcases h.last with hzero | hmem | ⟨s, hs, hengine⟩
      · exact Or.inl hzero
      · right
        left
        simp only [passings, List.filterMap_append, List.map_append]
        exact List.mem_append_left _ hmem
      · exact Or.inr (Or.inr ⟨s, List.mem_append_left _ hs, hengine⟩)
    · rw [hlast]
      right
      rcases tick_window hmac now buf d with
        ⟨-, hfifo, -⟩ | ⟨newClass', nonce, hpassed, -⟩
      · right
        have hengine : (tickRecord hmac now buf d).engine ≠ none := by
          simpa [TickRecord.applied, hfifo] using Option.ne_none_iff_exists'.mpr ⟨_, happlied⟩
        exact ⟨tickRecord hmac now buf d, by simp, hengine, rfl⟩
      · left
        rw [passings_append_of_some hpassed]
        simp [tickRecord]
  case late =>
    intro hclock s hs hengine
    obtain ⟨hbefore, -, hnow⟩ := List.pairwise_append.mp hclock
    have hle : s.now ≤ now := by
      rcases List.mem_append.mp hs with hs | hs
      · exact hnow s hs _ (List.mem_singleton_self _)
      · rw [List.mem_singleton.mp hs]
        exact le_rfl
    rcases tick_applied hmac now buf d with ⟨hnone, -, hlast⟩ | ⟨newClass, -, -, hlast, -⟩
    · rw [hlast]
      rcases List.mem_append.mp hs with hs | hs
      · exact h.late hbefore s hs hengine
      · obtain rfl := List.mem_singleton.mp hs
        exact absurd (Option.or_eq_none_iff.mp hnone).2 hengine
    · rw [hlast]
      exact hle

/-- What the FIFO does with a command that passes at pace, after the records before it. -/
def Judged (before : List TickRecord) (r : TickRecord) : Prop :=
  ∀ newClass nonce, r.passed = some (newClass, nonce) →
    r.fifo = some newClass ∧ (ClockRises (before ++ [r]) → ¬ EngineRecently before r.now) ∨
      r.fifo = none ∧ EngineRecently before r.now

/-- Without a switch of the engine before it, the command is applied. -/
theorem Judged.applied {before : List TickRecord} {r : TickRecord} (h : Judged before r)
    (hengine : ∀ s ∈ before, s.engine = none) {newClass : NodeClass} {nonce : UInt64}
    (hpassed : r.passed = some (newClass, nonce)) : r.fifo = some newClass := by
  rcases h newClass nonce hpassed with ⟨hfifo, -⟩ | ⟨-, s, hs, hswitch, -⟩
  · exact hfifo
  · exact absurd (hengine s hs) hswitch

theorem Paced.judged (h : Paced start d.fifoSec records)
    (hten : hymrplMinSwitchInterval ≤ start)
    (hspaced : (tickRecord hmac now buf d).passed ≠ none →
      start ≤ now ∧ ∀ t ∈ (passings records).map Prod.fst, t + commandSpacing < now) :
    Judged records (tickRecord hmac now buf d) := by
  intro newClass nonce hpassed
  obtain ⟨hstart, hnow⟩ := hspaced (by simp [hpassed])
  rcases tick_window hmac now buf d with ⟨hnone, -⟩ |
    ⟨newClass', nonce', hpassed', ⟨hfifo, -, hfull | hfast⟩ | ⟨hfifo, -, -, hinterval⟩⟩
  · simp [hpassed] at hnone
  · exact absurd hfull (Nat.not_le.mpr (h.fits hstart hnow).1)
  · right
    refine ⟨hfifo, ?_⟩
    rcases h.last with hzero | hmem | ⟨s, hs, hengine, hlast⟩
    · rw [hzero] at hfast
      linarith
    · have hfar := hnow _ hmem
      simp only [commandSpacing, hymrplMinSwitchInterval] at hfar hfast
      linarith
    · exact ⟨s, hs, hengine, hlast ▸ hfast⟩
  · left
    obtain ⟨rfl, -⟩ : newClass = newClass' ∧ nonce = nonce' := by
      simpa [hpassed] using hpassed'
    refine ⟨hfifo, fun hclock hrecent => ?_⟩
    obtain ⟨s, hs, hengine, hfast⟩ := hrecent
    have hle := h.late (List.pairwise_append.mp hclock).1 s hs hengine
    simp only [tickRecord] at hfast
    linarith

end Tick

theorem Paced.init (start : ℚ) (tokenFile : Option (List UInt8)) (ifaces : List Iface) :
    Paced start (Daemon.start start tokenFile ifaces).fifoSec [] := by
  obtain ⟨hlast, hcount, hminute⟩ := limiter_hymrplFifoSecInit start tokenFile
  refine ⟨fun b hb _ => ?_, Or.inl hlast, by simp⟩
  simp only [Daemon.start, hcount, hminute]
  exact ⟨hb, fun h => absurd rfl h⟩

/-- In a run with spaced commands every record is judged so. -/
theorem judged_run (hmac : Hmac) {start : ℚ} (hten : hymrplMinSwitchInterval ≤ start)
    (tokenFile : Option (List UInt8)) (ifaces : List Iface) (es : List DaemonEvent)
    (hspaced : Spaced start ((passings
      (tickRecords hmac (Daemon.start start tokenFile ifaces) es)).map Prod.fst)) :
    ∀ before r, before ++ [r] <+: tickRecords hmac (Daemon.start start tokenFile ifaces) es →
      Judged before r := by
  refine (tickRecords_invariant (C := fun _ _ => True)
    (R := fun records d => Spaced start ((passings records).map Prod.fst) →
      Paced start d.fifoSec records ∧
        ∀ before r, before ++ [r] <+: records → Judged before r)
    (fun records d now buf hR _ hspaced => ?_) (fun records d adaptive ifaces hR => hR)
    (fun _ => ⟨Paced.init start tokenFile ifaces, by simp⟩) (Machine.steps_true _ es) hspaced).2
  have hbefore : Spaced start ((passings records).map Prod.fst) ∧
      ((tickRecord hmac now buf d).passed ≠ none →
        start ≤ now ∧ ∀ t ∈ (passings records).map Prod.fst, t + commandSpacing < now) := by
    cases hpassed : (tickRecord hmac now buf d).passed with
    | none =>
        rw [passings_append_of_none hpassed] at hspaced
        exact ⟨hspaced, fun h => absurd rfl h⟩
    | some p =>
        rw [passings_append_of_some hpassed, List.map_append, List.map_singleton,
          spaced_append] at hspaced
        exact ⟨hspaced.1, fun _ => hspaced.2⟩
  obtain ⟨hpaced, hjudged⟩ := hR hbefore.1
  refine ⟨hpaced.tick hbefore.2, fun before r hprefix => ?_⟩
  rcases List.prefix_concat_iff.mp hprefix with hlast | hprefix
  · obtain ⟨rfl, hr⟩ := List.append_inj' hlast rfl
    obtain rfl := List.singleton_injective hr
    exact hpaced.judged hten hbefore.2
  · exact hjudged before r hprefix

/-- In a run in which the commands that pass are spaced and the clock rises, a command is
refused exactly when the engine has switched less than ten seconds before, whatever else
was read from the FIFO and whatever the other callbacks did. -/
theorem refused_iff_engineRecently (hmac : Hmac) (start : ℚ) (tokenFile : Option (List UInt8))
    (ifaces : List Iface) (es : List DaemonEvent) (hten : hymrplMinSwitchInterval ≤ start)
    (hclock : ClockRises (tickRecords hmac (Daemon.start start tokenFile ifaces) es))
    (hspaced : Spaced start ((passings
      (tickRecords hmac (Daemon.start start tokenFile ifaces) es)).map Prod.fst)) :
    ∀ before r, before ++ [r] <+: tickRecords hmac (Daemon.start start tokenFile ifaces) es →
      ∀ newClass nonce, r.passed = some (newClass, nonce) →
        r.fifo = if EngineRecently before r.now then none else some newClass := by
  intro before r hprefix newClass nonce hpassed
  rcases judged_run hmac hten tokenFile ifaces es hspaced before r hprefix newClass nonce
    hpassed with ⟨hfifo, hnot⟩ | ⟨hfifo, hrecent⟩
  · have hrises : ClockRises (before ++ [r]) := hclock.sublist hprefix.sublist
    rw [hfifo, if_neg (hnot hrises)]
  · rw [hfifo, if_pos hrecent]

/-- The engine switches at 100. The command at 105 is refused, the one at 126 is applied,
and the junk between them changes nothing. -/
def commandsAfterEngine : List DaemonEvent :=
  [.other drainedEngine [⟨1, false, .classS, []⟩], .tick 98 [], .tick 99 [], .tick 100 [],
    plainTick 105 .classS, .tick 110 [0x3f], plainTick 126 .classS]

theorem commandsAfterEngine_refused :
    let records := tickRecords sampleHmac (Daemon.start 10 none [⟨1, false, .classS, []⟩])
      commandsAfterEngine
    records.map (fun r => (r.fifo, r.engine)) =
        [(none, none), (none, none), (none, some .classN), (none, none), (none, none),
          (some .classS, none)] ∧
      ∀ before r, before ++ [r] <+: records → ∀ newClass nonce,
        r.passed = some (newClass, nonce) →
          r.fifo = if EngineRecently before r.now then none else some newClass :=
  ⟨by decide +kernel, refused_iff_engineRecently sampleHmac 10 none [⟨1, false, .classS, []⟩]
    commandsAfterEngine (by decide +kernel) (by decide +kernel) (by decide +kernel)⟩

/-- The spacing cannot be smaller: of four commands exactly 20 seconds after each other the
last one meets the quota. -/
example : (tickRecords sampleHmac (Daemon.start 20 none [⟨1, true, .classS, []⟩])
    [plainTick 20 .classN, plainTick 40 .classS, plainTick 60 .classN,
      plainTick 80 .classS]).map (fun r => r.fifo) =
    [some .classN, some .classS, some .classN, none] := by
  decide +kernel

end HyMRPL
