import HyMRPL.Daemon.Spacing
import HyMRPL.Fifo.CommandFraming
import HyMRPL.Monitor.Hysteresis

/-!
# The monitor and the daemon

The monitor keeps its own idea of the class, and writes a line to the FIFO when it changes
it. It never learns whether the daemon has applied the line. In a run where each line is
read alone, at most `lag` seconds after it was written, and where the engine does not switch
by itself, the two agree if three cycles of the monitor take more than 20 seconds and the
lag. With the default of five seconds a cycle they may part: the limiter of the daemon
refuses the fourth line in a minute, and the monitor goes on as if it were applied.
-/

namespace HyMRPL

open Transition Monitor

/-- The monitor, the bytes in the FIFO, and the daemon, with the time of the last cycle of
the monitor and the records of the ticks. What is written before the daemon has opened the
FIFO is lost. -/
structure Coupled where
  monitor : Monitor.State
  lastCycle : ℚ
  opened : Bool
  queue : List UInt8
  node : Rpld
  records : List TickRecord

namespace Coupled

/-- A cycle of the monitor, the periodic callback of the daemon, or another callback. -/
inductive Event
  | cycle (now : ℚ) (r : Reading)
  | tick (now : ℚ)
  | other (e : RpldEvent)

/-- What the periodic callback reads. -/
def line (s : Coupled) : List UInt8 := s.queue.take (hymrplFifoMsgMax - 1)

/-- The loop of the monitor and the event loop of the daemon. -/
def machine (code : DagCode) (hmac : Hmac) : Machine Coupled Event Unit where
  enabled s
    | .cycle _ _ => True
    | .tick _ => True
    | .other e => ((rpld code hmac).out s.node e).tick = none
  next s
    | .cycle now r =>
      { s with
        monitor := Monitor.machine.next s.monitor r
        lastCycle := now
        queue :=
          if s.opened then s.queue ++ (Monitor.machine.out s.monitor r).getD [] else s.queue }
    | .tick now =>
      { s with
        opened := true
        queue := s.queue.drop (hymrplFifoMsgMax - 1)
        node := (rpld code hmac).next s.node (.periodic now s.line)
        records := s.records ++ [tickRecord hmac now s.line s.node.toDaemon] }
    | .other e => { s with node := (rpld code hmac).next s.node e }
  out _ _ := ()

/-- A monitor with this interval whose first cycle is at the time given, and a daemon. -/
def start (now firstCycle interval : ℚ) (initialClass : NodeClass)
    (tokenFile : Option (List UInt8)) (ifaces : List Iface) : Coupled where
  monitor := Monitor.start initialClass
  lastCycle := firstCycle - interval
  opened := false
  queue := []
  node := Rpld.start now tokenFile ifaces
  records := []

/-- The cycles keep their interval, and begin after the daemon has opened the FIFO; a line is
read within the lag and before the next cycle; and the engine does not switch. -/
def Timely (hmac : Hmac) (interval lag : ℚ) (s : Coupled) : Event → Prop
  | .cycle now _ => s.opened = true ∧ s.queue = [] ∧ s.lastCycle + interval ≤ now
  | .tick now => (s.queue ≠ [] → s.lastCycle ≤ now ∧ now ≤ s.lastCycle + lag) ∧
      ¬ EngineSwitches hmac s.node.toDaemon (.tick now s.line)
  | .other _ => True

instance (hmac : Hmac) (interval lag : ℚ) (s : Coupled) :
    ∀ e, Decidable (Timely hmac interval lag s e)
  | .cycle _ _ => inferInstanceAs (Decidable (_ ∧ _))
  | .tick _ => inferInstanceAs (Decidable ((_ → _) ∧ _))
  | .other _ => .isTrue trivial

/-- When every line is read, the node is in the class that the monitor believes in. -/
def Agrees (s : Coupled) : Prop :=
  s.queue = [] → AllOfClass s.monitor.currentClass s.node.ifaces

/-- The times at which lines were read and passed. -/
def times (s : Coupled) : List ℚ := (passings s.records).map Prod.fst

/-- What holds in a timely run. Since a line was read, the monitor has made as many cycles
as its counter says, and when the next line waits it has made three. -/
structure Inv (now interval lag : ℚ) (s : Coupled) : Prop where
  unloaded : s.node.fifoSec.tokenLoaded = false
  paced : Paced now s.node.fifoSec s.records
  engine : ∀ r ∈ s.records, r.engine = none
  line : s.queue = [] ∨ s.queue = classText s.monitor.currentClass ++ [0x0a]
  agrees : s.Agrees
  since : ∀ t ∈ s.times, t + interval * s.monitor.counter ≤ s.lastCycle + lag
  waiting : s.queue ≠ [] → now ≤ s.lastCycle ∧ s.monitor.counter = 0 ∧
    ∀ t ∈ s.times, t + interval * hysteresisCycles ≤ s.lastCycle + lag
  started : now ≤ s.lastCycle + interval

end Coupled

namespace Monitor

/-- A cycle keeps the class and counts up at most by one, or changes it at the third count. -/
theorem next_cases (s : State) (r : Reading) :
    (machine.next s r).currentClass = s.currentClass ∧
        (machine.next s r).counter ≤ s.counter + 1 ∨
      (machine.next s r).currentClass ≠ s.currentClass ∧ (machine.next s r).counter = 0 ∧
        hysteresisCycles ≤ s.counter + 1 := by
  by_cases hfavours : r.FavoursChange s.currentClass
  · rw [next_of_favoursChange hfavours]
    split_ifs with hcount
    · exact Or.inr ⟨NodeClass.other_ne _, rfl, hcount⟩
    · exact Or.inl ⟨rfl, le_rfl⟩
  · rw [next_of_not_favoursChange hfavours]
    refine Or.inl ⟨rfl, ?_⟩
    dsimp only
    split_ifs <;> omega

/-- The monitor writes a line exactly when it changes the class. -/
theorem out_eq (s : State) (r : Reading) :
    machine.out s r = if (machine.next s r).currentClass ≠ s.currentClass then
      some (classText (machine.next s r).currentClass ++ [0x0a]) else none := rfl

end Monitor

/-- Without a token a line of the monitor passes. -/
theorem passed_of_line {d : Daemon} (hunloaded : d.fifoSec.tokenLoaded = false) (hmac : Hmac)
    (now : ℚ) (newClass : NodeClass) :
    (tickRecord hmac now (classText newClass ++ [0x0a]) d).passed =
      some (newClass, d.fifoSec.lastNonce) := by
  have hparse : parseClass (classText newClass ++ [0x0a]) = some newClass := by
    cases newClass <;> decide
  simp [passed_of_unloaded hunloaded, hparse]

namespace Coupled

variable {code : DagCode} {hmac : Hmac} {begun interval lag now : ℚ} {s : Coupled}

/-- A cycle keeps the invariant. -/
theorem Inv.cycle (h : Inv begun interval lag s) (hinterval : 0 ≤ interval) {r : Reading}
    (ht : Timely hmac interval lag s (.cycle now r)) :
    Inv begun interval lag ((machine code hmac).next s (.cycle now r)) := by
  obtain ⟨hopened, hread, hnow⟩ := ht
  have hstart : begun ≤ now := h.started.trans hnow
  rcases Monitor.next_cases s.monitor r with ⟨hclass, hcounter⟩ | ⟨hclass, hcounter, hthird⟩
  · -- The class stays, so nothing is written.
    have hqueue : ((machine code hmac).next s (.cycle now r)).queue = [] := by
      simp [machine, hopened, hread, Monitor.out_eq, hclass]
    have hagrees : AllOfClass s.monitor.currentClass s.node.ifaces := h.agrees hread
    refine ⟨h.unloaded, h.paced, h.engine, Or.inl hqueue, fun _ => ?_, fun t ht => ?_,
      fun hne => absurd hqueue hne, ?_⟩
    · rw [← hclass] at hagrees
      exact hagrees
    · have hsince := h.since t ht
      have hcast : ((Monitor.machine.next s.monitor r).counter : ℚ) ≤ s.monitor.counter + 1 := by
        exact_mod_cast hcounter
      have hmul := mul_le_mul_of_nonneg_left hcast hinterval
      change t + interval * (Monitor.machine.next s.monitor r).counter ≤ now + lag
      linarith
    · change begun ≤ now + interval
      linarith
  · have hqueue : ((machine code hmac).next s (.cycle now r)).queue =
        classText (Monitor.machine.next s.monitor r).currentClass ++ [0x0a] := by
      simp [machine, hopened, hread, Monitor.out_eq, hclass]
    have hwaiting : ∀ t ∈ s.times, t + interval * hysteresisCycles ≤ now + lag := by
      intro t ht
      have hsince := h.since t ht
      have hcast : (hysteresisCycles : ℚ) ≤ s.monitor.counter + 1 := by exact_mod_cast hthird
      have hmul := mul_le_mul_of_nonneg_left hcast hinterval
      linarith
    refine ⟨h.unloaded, h.paced, h.engine, Or.inr hqueue, fun hempty => ?_, fun t ht => ?_,
      fun _ => ⟨hstart, hcounter, hwaiting⟩, ?_⟩
    · rw [hqueue] at hempty
      simp at hempty
    · have hlate := hwaiting t ht
      have hnonneg : 0 ≤ interval * hysteresisCycles :=
        mul_nonneg hinterval (Nat.cast_nonneg _)
      change t + interval * (Monitor.machine.next s.monitor r).counter ≤ now + lag
      rw [hcounter, Nat.cast_zero, mul_zero]
      linarith
    · change begun ≤ now + interval
      linarith

/-- A tick reads all that waits. -/
theorem Inv.line_eq (h : Inv begun interval lag s) (code : DagCode) (hmac : Hmac) (now : ℚ) :
    s.line = s.queue ∧ ((machine code hmac).next s (.tick now)).queue = [] := by
  have hshort : s.queue.length ≤ hymrplFifoMsgMax - 1 := by
    rcases h.line with hq | hq
    · simp [hq]
    · simp [hq, length_classText, hymrplFifoMsgMax]
  exact ⟨List.take_of_length_le hshort, List.drop_of_length_le hshort⟩

/-- What a tick keeps, whatever it reads. -/
theorem Inv.tick_node (h : Inv begun interval lag s) (code : DagCode)
    (hengine : (tickRecord hmac now s.line s.node.toDaemon).engine = none) :
    ((machine code hmac).next s (.tick now)).node.fifoSec.tokenLoaded = false ∧
      ∀ r ∈ ((machine code hmac).next s (.tick now)).records, r.engine = none := by
  refine ⟨(token_hymrplPeriodicCb hmac now s.line s.node.toDaemon).2.trans h.unloaded, ?_⟩
  change ∀ r ∈ s.records ++ [_], r.engine = none
  rw [List.forall_mem_append, List.forall_mem_singleton]
  exact ⟨h.engine, hengine⟩

/-- A tick that finds nothing keeps the invariant. -/
theorem Inv.tick_of_empty (h : Inv begun interval lag s) (hq : s.queue = [])
    (hengine : (tickRecord hmac now s.line s.node.toDaemon).engine = none) :
    Inv begun interval lag ((machine code hmac).next s (.tick now)) := by
  obtain ⟨hline, hempty⟩ := h.line_eq code hmac now
  obtain ⟨hunloaded, hengines⟩ := h.tick_node code hengine
  have hpassed : (tickRecord hmac now s.line s.node.toDaemon).passed = none := by
    simp [tickRecord, hline, hq]
  have htimes : ((machine code hmac).next s (.tick now)).times = s.times :=
    congrArg (List.map Prod.fst) (passings_append_of_none hpassed)
  have hifaces := ifaces_of_no_command hpassed hengine
  refine ⟨hunloaded, h.paced.tick (fun hne => absurd hpassed hne), hengines, Or.inl hempty,
    fun _ => ?_, ?_, fun hne => absurd hempty hne, h.started⟩
  · have hagrees := h.agrees hq
    rw [← hifaces] at hagrees
    exact hagrees
  · rw [htimes]
    exact h.since

/-- A tick that finds a line in time applies it, and keeps the invariant. -/
theorem Inv.tick_of_line (h : Inv begun interval lag s) (hten : hymrplMinSwitchInterval ≤ begun)
    (hspacing : commandSpacing + lag < interval * hysteresisCycles)
    (hq : s.queue = classText s.monitor.currentClass ++ [0x0a])
    (hafter : s.lastCycle ≤ now) (hbefore : now ≤ s.lastCycle + lag)
    (hengine : (tickRecord hmac now s.line s.node.toDaemon).engine = none) :
    Inv begun interval lag ((machine code hmac).next s (.tick now)) := by
  obtain ⟨hline, hempty⟩ := h.line_eq code hmac now
  obtain ⟨hunloaded, hengines⟩ := h.tick_node code hengine
  obtain ⟨hstart, hcounter, hthree⟩ := h.waiting (by simp [hq])
  have hpassed := passed_of_line h.unloaded hmac now s.monitor.currentClass
  rw [← hq, ← hline] at hpassed
  have htimes : ((machine code hmac).next s (.tick now)).times = s.times ++ [now] := by
    change (passings (s.records ++ [_])).map Prod.fst = _
    rw [passings_append_of_some hpassed, List.map_append]
    rfl
  have hlate : begun ≤ now ∧ ∀ t ∈ s.times, t + commandSpacing < now := by
    refine ⟨hstart.trans hafter, fun t ht => ?_⟩
    have hgap := hthree t ht
    linarith
  have hfifo := (h.paced.judged hten fun _ => hlate).applied h.engine hpassed
  refine ⟨hunloaded, h.paced.tick (fun _ => hlate), hengines, Or.inl hempty, fun _ => ?_, ?_,
    fun hne => absurd hempty hne, h.started⟩
  · have hall := allOfClass_setNodeClass s.monitor.currentClass s.node.ifaces
    rw [← ifaces_of_fifo hfifo] at hall
    exact hall
  · rw [htimes, List.forall_mem_append, List.forall_mem_singleton]
    refine ⟨h.since, ?_⟩
    change now + interval * s.monitor.counter ≤ s.lastCycle + lag
    rw [hcounter, Nat.cast_zero, mul_zero, add_zero]
    exact hbefore

/-- A timely tick keeps the invariant. -/
theorem Inv.tick (h : Inv begun interval lag s) (hten : hymrplMinSwitchInterval ≤ begun)
    (hspacing : commandSpacing + lag < interval * hysteresisCycles)
    (ht : Timely hmac interval lag s (.tick now)) :
    Inv begun interval lag ((machine code hmac).next s (.tick now)) := by
  obtain ⟨hread, hswitch⟩ := ht
  have hengine := engine_eq_none_of_not_switches hswitch
  rcases h.line with hq | hq
  · exact h.tick_of_empty hq hengine
  · obtain ⟨hafter, hbefore⟩ := hread (by simp [hq])
    exact h.tick_of_line hten hspacing hq hafter hbefore hengine

/-- Another callback leaves the FIFO and the limiter alone, and the classes as they are. -/
theorem Inv.other (h : Inv begun interval lag s) {e : RpldEvent}
    (he : ((rpld code hmac).out s.node e).tick = none) :
    Inv begun interval lag ((machine code hmac).next s (.other e)) := by
  have hsec : ((rpld code hmac).next s.node e).fifoSec = s.node.fifoSec :=
    (rpld_next_of_other he).1
  refine ⟨?_, ?_, h.engine, h.line, fun hq => (h.agrees hq).kept (rpld_kept_of_other he), h.since,
    h.waiting, h.started⟩
  · change ((rpld code hmac).next s.node e).fifoSec.tokenLoaded = false
    rw [hsec]
    exact h.unloaded
  · change Paced begun ((rpld code hmac).next s.node e).fifoSec s.records
    rw [hsec]
    exact h.paced

/-- Without a token, in a timely run with three cycles longer than 20 seconds and the lag, the
node is in the class that the monitor believes in whenever no line waits in the FIFO. -/
theorem monitor_agrees (code : DagCode) (hmac : Hmac) (now firstCycle interval lag : ℚ)
    (initialClass : NodeClass) (tokenFile : Option (List UInt8)) (ifaces : List Iface)
    (es : List Event) (hunloaded : (hymrplFifoSecInit now tokenFile).1.tokenLoaded = false)
    (hclass : AllOfClass initialClass ifaces) (hten : hymrplMinSwitchInterval ≤ now)
    (hfirst : now ≤ firstCycle) (hlag : 0 ≤ lag)
    (hspacing : commandSpacing + lag < interval * hysteresisCycles)
    (hlegal : (machine code hmac).Legal
      (start now firstCycle interval initialClass tokenFile ifaces) es)
    (htimely : (machine code hmac).Steps (Timely hmac interval lag)
      (start now firstCycle interval initialClass tokenFile ifaces) es) :
    (machine code hmac).Always Agrees
      (start now firstCycle interval initialClass tokenFile ifaces) es := by
  have hinterval : 0 ≤ interval := by
    simp only [commandSpacing, hysteresisCycles] at hspacing
    push_cast at hspacing
    linarith
  have hstart : Inv now interval lag
      (start now firstCycle interval initialClass tokenFile ifaces) := by
    refine ⟨hunloaded, Paced.init now tokenFile ifaces, by simp [start], Or.inl rfl,
      fun _ => hclass, by simp [start, times, passings], fun hne => absurd rfl hne, ?_⟩
    simpa [start] using hfirst
  have hinv : (machine code hmac).Always (Inv now interval lag)
      (start now firstCycle interval initialClass tokenFile ifaces) es := by
    refine Machine.always_of_steps (fun s e h he ht => ?_) hstart hlegal htimely
    cases e with
    | cycle now r => exact h.cycle hinterval ht
    | tick now => exact h.tick hten hspacing ht
    | other e => exact h.other he
  exact hinv.mono fun s h => h.agrees

/-- A reading of a busy node, and one of an idle node. -/
def busy : Reading := ⟨90, 100, 90⟩

def idle : Reading := ⟨10, 100, 90⟩

/-- The daemon opens the FIFO, and the class is changed twice, eight seconds a cycle. -/
def twoChanges : List Event :=
  [.tick 11, .cycle 12 busy, .cycle 20 busy, .cycle 28 busy, .tick 29, .cycle 36 idle,
    .cycle 44 idle, .cycle 52 idle, .tick 53]

theorem twoChanges_agree :
    let s := start 10 12 8 .classS none [⟨1, true, .classS, []⟩]
    (passings ((machine sampleDagCode sampleHmac).run s twoChanges).records).map
        (fun p => p.2.1) = [.classN, .classS] ∧
      (machine sampleDagCode sampleHmac).Always Agrees s twoChanges := by
  intro s
  refine ⟨by decide +kernel, monitor_agrees sampleDagCode sampleHmac 10 12 8 1 .classS none
    [⟨1, true, .classS, []⟩] twoChanges rfl ?_ (by decide +kernel) (by decide) (by decide) ?_
    ⟨trivial, trivial, trivial, trivial, trivial, trivial, trivial, trivial, trivial, trivial⟩
    (by decide +kernel)⟩
  · simp [AllOfClass]
  · norm_num [commandSpacing, hysteresisCycles]

/-- Five seconds a cycle are too short: the fourth change within a minute is refused, and
the monitor believes in Class S while the node is in Class N. -/
example :
    let s := (machine sampleDagCode sampleHmac).run
      (start 100 102 5 .classS none [⟨1, true, .classS, []⟩])
      [.tick 101, .cycle 102 busy, .cycle 107 busy, .cycle 112 busy, .tick 113, .cycle 117 idle,
        .cycle 122 idle, .cycle 127 idle, .tick 128, .cycle 132 busy, .cycle 137 busy,
        .cycle 142 busy, .tick 143, .cycle 147 idle, .cycle 152 idle, .cycle 157 idle, .tick 158]
    (s.queue, s.monitor.currentClass, s.node.ifaces.map fun iface => iface.nodeClass) =
      ([], .classS, [.classN]) := by
  decide +kernel

end Coupled

end HyMRPL
