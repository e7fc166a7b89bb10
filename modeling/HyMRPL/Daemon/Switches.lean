import HyMRPL.Daemon.Authenticity
import HyMRPL.Daemon.Kept
import HyMRPL.Daemon.Quota
import HyMRPL.Network.Basic
import Mathlib.Data.List.Chain

/-!
# Applied class switches

Both paths apply a switch in the same way: they write the class to every interface and
every DODAG, at least ten seconds after the last switch, and note the time. No other
callback changes a class, and a DODAG is created in the class of its interface. So
switches are spaced, whichever path applies them, and after a switch everything is in its
class until the next one.

`tick_applied` is what one tick does, and `rpldTicks_invariant` the rule for runs.
-/

namespace HyMRPL

open Transition

/-- The class that a tick applied, by either path. -/
def TickRecord.applied (record : TickRecord) : Option NodeClass :=
  record.fifo.or record.engine

/-- The classes that were applied, in order. -/
def appliedClasses (records : List TickRecord) : List NodeClass :=
  records.filterMap TickRecord.applied

/-- A tick applies no switch, and leaves the classes and the time of the last switch
alone; or it applies one to everything, after the minimum interval, and notes the time. -/
theorem tick_applied (hmac : Hmac) (now : ℚ) (buf : List UInt8) (d : Daemon) :
    ((tickRecord hmac now buf d).applied = none ∧
        (hymrplPeriodicCb hmac now buf d).1.ifaces = d.ifaces ∧
        (hymrplPeriodicCb hmac now buf d).1.fifoSec.lastSwitchTime = d.fifoSec.lastSwitchTime) ∨
      ∃ newClass, (tickRecord hmac now buf d).applied = some newClass ∧
        (hymrplPeriodicCb hmac now buf d).1.ifaces = setNodeClass newClass d.ifaces ∧
        (hymrplPeriodicCb hmac now buf d).1.fifoSec.lastSwitchTime = now ∧
        hymrplMinSwitchInterval ≤ now - d.fifoSec.lastSwitchTime := by
  rcases hymrplPeriodicCb_cases hmac now buf d with
    ⟨newClass, hfifo, h⟩ | ⟨hfifo, henabled, h⟩ | ⟨hfifo, henabled, -, h⟩ |
    ⟨newClass, hfifo, henabled, -, hinterval, h⟩
  · right
    rcases hymrplFifoSecCheck_cases hmac now d.fifoSec d.ifaces buf with
      ⟨-, hcheck⟩ | ⟨newClass', passed, -, -, ⟨hcheck, -⟩ | ⟨hcheck, -, hinterval⟩⟩
    · simp [hcheck] at hfifo
    · simp [hcheck] at hfifo
    · obtain rfl : newClass' = newClass := by simpa [hcheck] using hfifo
      refine ⟨newClass', ?_, ?_, ?_, hinterval⟩
      · simp [tickRecord, TickRecord.applied, h]
      · simp [h, hcheck]
      · simp [h, hcheck]
  · left
    obtain ⟨hifaces, hlast⟩ := hymrplFifoSecCheck_of_none hfifo
    exact ⟨by simp [tickRecord, TickRecord.applied, h], by simp [h], by simp [h, hlast]⟩
  · left
    obtain ⟨hifaces, hlast⟩ := hymrplFifoSecCheck_of_none hfifo
    exact ⟨by simp [tickRecord, TickRecord.applied, h], by simp [h], by simp [h, hlast]⟩
  · right
    refine ⟨newClass, ?_, ?_, ?_, hinterval⟩
    · simp [tickRecord, TickRecord.applied, h]
    · simp [h]
    · simp [h]

variable {code : DagCode} {hmac : Hmac}

/-- The rule for runs: what ticks that meet `C` and all other callbacks keep holds of the
records and the state at the end. -/
theorem rpldTicks_invariant {R : List TickRecord → Rpld → Prop} {C : Rpld → RpldEvent → Prop}
    (htick : ∀ records r now buf, R records r → C r (.periodic now buf) →
      R (records ++ [tickRecord hmac now buf r.toDaemon])
        ((rpld code hmac).next r (.periodic now buf)))
    (hother : ∀ records r e, R records r → ((rpld code hmac).out r e).tick = none →
      R records ((rpld code hmac).next r e))
    {r : Rpld} {es : List RpldEvent} (h : R [] r) (hC : (rpld code hmac).Steps C r es) :
    R (rpldTicks code hmac r es) ((rpld code hmac).run r es) := by
  refine Machine.outputs_invariant (l := [])
    (R := fun l r => R (l.map RpldRecord.tick).reduceOption r) (fun l r e hR he => ?_) h hC
  rw [List.map_append, List.reduceOption_append]
  cases htick' : ((rpld code hmac).out r e).tick with
  | none => simpa [htick'] using hother _ r e hR htick'
  | some record =>
      cases e with
      | periodic now buf => exact htick _ r now buf hR he
      | _ => simp [rpld] at htick'

/-- The other callbacks leave the state of the FIFO alone, and act on the interfaces and
the routes through `handle`. -/
theorem rpld_next_of_other {r : Rpld} {e : RpldEvent}
    (h : ((rpld code hmac).out r e).tick = none) :
    ((rpld code hmac).next r e).fifoSec = r.fifoSec ∧
      ((rpld code hmac).next r e).ifaces = (handle code r.adaptiveEnabled r.ifaces e).1 ∧
      ((rpld code hmac).next r e).routes =
        (handle code r.adaptiveEnabled r.ifaces e).2.foldl code.netlink.apply r.routes := by
  cases e with
  | periodic now buf => simp [rpld] at h
  | _ => exact ⟨rfl, rfl, rfl⟩

theorem rpld_kept_of_other {r : Rpld} {e : RpldEvent}
    (h : ((rpld code hmac).out r e).tick = none) :
    List.Forall₂ Iface.Kept r.ifaces ((rpld code hmac).next r e).ifaces := by
  rw [(rpld_next_of_other h).2.1]
  exact handle_kept code r.adaptiveEnabled r.ifaces e

theorem mem_instances {rpls : List Rpl} {p : UInt8 × Dag} :
    p ∈ instances rpls ↔ ∃ rpl ∈ rpls, rpl.instanceId = p.1 ∧ p.2 ∈ rpl.dags := by
  simp only [instances, List.mem_flatMap, List.mem_map, Prod.ext_iff]
  constructor
  · rintro ⟨rpl, hrpl, dag, hdag, hid, rfl⟩
    exact ⟨rpl, hrpl, hid, hdag⟩
  · rintro ⟨rpl, hrpl, hid, hdag⟩
    exact ⟨rpl, hrpl, p.2, hdag, hid, rfl⟩

/-- Callbacks that keep the interfaces keep everything in one class. -/
theorem AllOfClass.kept {newClass : NodeClass} {old new : List Iface}
    (h : AllOfClass newClass old) (hkept : List.Forall₂ Iface.Kept old new) :
    AllOfClass newClass new := by
  intro iface hiface
  have ⟨iface', hold, hk⟩ := Pointwise.exists_of_mem_right hkept hiface
  have ⟨hclass, hdags⟩ := h iface' hold
  constructor
  · rw [hk.nodeClass, hclass]
  · intro rpl hrpl dag hdag
    have hmem : (rpl.instanceId, dag) ∈ instances iface.rpls :=
      mem_instances.mpr ⟨rpl, hrpl, rfl, hdag⟩
    rcases hk.dags.mem_new hmem with hnew | ⟨p, hp, -, hsame⟩
    · exact hnew.trans hclass
    · have ⟨rpl', hrpl', _, hdag'⟩ := mem_instances.mp hp
      exact hsame.nodeClass.trans (hdags rpl' hrpl' p.2 hdag')

theorem appliedClasses_append_of_none {records : List TickRecord} {record : TickRecord}
    (h : record.applied = none) :
    appliedClasses (records ++ [record]) = appliedClasses records := by
  simp [appliedClasses, h]

theorem appliedClasses_append_of_some {records : List TickRecord} {record : TickRecord}
    {newClass : NodeClass} (h : record.applied = some newClass) :
    appliedClasses (records ++ [record]) = appliedClasses records ++ [newClass] := by
  simp [appliedClasses, h]

/-- After a switch, every interface and every DODAG is in the class of the latest one. -/
theorem class_coherent (code : DagCode) (hmac : Hmac) (start : ℚ)
    (tokenFile : Option (List UInt8)) (ifaces : List Iface) (es : List RpldEvent)
    {newClass : NodeClass}
    (hlast : (appliedClasses
      (rpldTicks code hmac (Rpld.start start tokenFile ifaces) es)).getLast? = some newClass) :
    AllOfClass newClass
      ((rpld code hmac).run (Rpld.start start tokenFile ifaces) es).ifaces := by
  refine rpldTicks_invariant (C := fun _ _ => True)
    (R := fun records r => ∀ newClass, (appliedClasses records).getLast? = some newClass →
      AllOfClass newClass r.ifaces) ?_ ?_ (by simp [appliedClasses])
    (Machine.steps_true _ es) newClass hlast
  · intro records r now buf hR _ c hc
    rcases tick_applied hmac now buf r.toDaemon with
      ⟨hnone, hifaces, -⟩ | ⟨newClass, hsome, hifaces, -, -⟩
    · rw [appliedClasses_append_of_none hnone] at hc
      have hsame := hR c hc
      rw [← hifaces] at hsame
      exact hsame
    · rw [appliedClasses_append_of_some hsome, List.getLast?_concat] at hc
      obtain rfl := Option.some.inj hc
      have hall := allOfClass_setNodeClass newClass r.ifaces
      rw [← hifaces] at hall
      exact hall
  · intro records r e hR hnone c hc
    exact (hR c hc).kept (rpld_kept_of_other hnone)

/-- A node that is told to be of Class N, and then joins a DODAG. -/
def switchThenJoin : List RpldEvent :=
  [.periodic 20 (hymrplCmd sampleHmac none .classN 0),
    .recv 30 0 0 (.dio ⟨true, true⟩ (hybridDio 256) (linkLocal 1))]

/-- The DODAG that is created after the switch is of Class N. -/
theorem class_coherent_joined :
    let r := (rpld sampleDagCode sampleHmac).run (Rpld.start 0 none [⟨1, false, .classS, []⟩])
      switchThenJoin
    (r.ifaces.map fun iface => (instances iface.rpls).map fun p => p.2.nodeClass) = [[.classN]] ∧
      AllOfClass .classN r.ifaces :=
  ⟨by decide +kernel, class_coherent sampleDagCode sampleHmac 0 none [⟨1, false, .classS, []⟩]
    switchThenJoin (by decide +kernel)⟩

/-- An event that applies no switch keeps the class of every interface and of every
DODAG that exists. -/
def KeepsClasses (code : DagCode) (hmac : Hmac) (r : Rpld) (e : RpldEvent) : Prop :=
  ((rpld code hmac).out r e).tick.bind TickRecord.applied = none →
    List.Forall₂ Iface.Kept r.ifaces ((rpld code hmac).next r e).ifaces

theorem keepsClasses (r : Rpld) (e : RpldEvent) : KeepsClasses code hmac r e := by
  intro h
  cases htick : ((rpld code hmac).out r e).tick with
  | none => exact rpld_kept_of_other htick
  | some record =>
      cases e with
      | periodic now buf =>
          rcases tick_applied hmac now buf r.toDaemon with ⟨-, hifaces, -⟩ | ⟨newClass, hsome, -⟩
          · have hsame : ((rpld code hmac).next r (.periodic now buf)).ifaces = r.ifaces := hifaces
            rw [hsame]
            exact List.forall₂_same.mpr fun iface _ => Iface.Kept.refl iface
          · have hnone : (tickRecord hmac now buf r.toDaemon).applied = none := h
            simp [hsome] at hnone
      | _ => simp [rpld] at htick

theorem switchTimes_append_of_applied {records : List TickRecord} {record : TickRecord}
    {newClass : NodeClass} (h : record.applied = some newClass) :
    switchTimes (records ++ [record]) = switchTimes records ++ [record.now] := by
  cases hfifo : record.fifo with
  | some _ => exact switchTimes_append_of_fifo (by simp [hfifo])
  | none =>
      have hengine : record.engine = some newClass := by simpa [TickRecord.applied, hfifo] using h
      exact switchTimes_append_of_engine (by simp [hengine])

/-- The switches are spaced, and the limiter knows the time of the last one. -/
structure SpacedSwitches (records : List TickRecord) (lastSwitchTime : ℚ) : Prop where
  spaced : (switchTimes records).IsChain fun a b => a + hymrplMinSwitchInterval ≤ b
  last : ∀ time ∈ (switchTimes records).getLast?, time = lastSwitchTime

/-- A tick keeps the switches spaced. -/
theorem SpacedSwitches.tick {records : List TickRecord} {d : Daemon}
    (h : SpacedSwitches records d.fifoSec.lastSwitchTime) (hmac : Hmac) (now : ℚ)
    (buf : List UInt8) :
    SpacedSwitches (records ++ [tickRecord hmac now buf d])
      (hymrplPeriodicCb hmac now buf d).1.fifoSec.lastSwitchTime := by
  rcases tick_applied hmac now buf d with ⟨hnone, -, hlast⟩ | ⟨newClass, hsome, -, hlast, hinterval⟩
  · have ⟨hfifo, hengine⟩ := Option.or_eq_none_iff.mp hnone
    rw [hlast]
    constructor
    case spaced => simpa [switchTimes_append_of_none hfifo hengine] using h.spaced
    case last => simpa [switchTimes_append_of_none hfifo hengine] using h.last
  · rw [hlast]
    constructor
    case spaced =>
      rw [switchTimes_append_of_applied hsome]
      apply h.spaced.append (List.isChain_singleton _)
      intro a ha b hb
      have htime := h.last a ha
      obtain rfl : now = b := Option.some.inj hb
      linarith
    case last =>
      rw [switchTimes_append_of_applied hsome, List.getLast?_concat]
      intro time htime
      exact (Option.some.inj htime).symm

/-- Two switches in a row are at least ten seconds apart, whichever paths apply them, and
nothing else changes the class of an interface or of a DODAG. -/
theorem switches_spaced (code : DagCode) (hmac : Hmac) (start : ℚ)
    (tokenFile : Option (List UInt8)) (ifaces : List Iface) (es : List RpldEvent) :
    (switchTimes (rpldTicks code hmac (Rpld.start start tokenFile ifaces) es)).IsChain
        (fun a b => a + hymrplMinSwitchInterval ≤ b) ∧
      (rpld code hmac).Steps (KeepsClasses code hmac) (Rpld.start start tokenFile ifaces) es := by
  have htrue := Machine.steps_true (M := rpld code hmac) (Rpld.start start tokenFile ifaces) es
  constructor
  · have hspaced : SpacedSwitches
        (rpldTicks code hmac (Rpld.start start tokenFile ifaces) es)
        ((rpld code hmac).run (Rpld.start start tokenFile ifaces) es).fifoSec.lastSwitchTime :=
      rpldTicks_invariant (C := fun _ _ => True)
        (R := fun records r => SpacedSwitches records r.fifoSec.lastSwitchTime)
        (fun records r now buf h _ => h.tick hmac now buf)
        (fun records r e h hnone => by rwa [(rpld_next_of_other hnone).1])
        ⟨List.IsChain.nil, by simp [switchTimes]⟩ htrue
    exact hspaced.spaced
  · exact Machine.steps_of_forall (fun r e _ => keepsClasses r e) _

end HyMRPL
