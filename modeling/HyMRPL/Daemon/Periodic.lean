import HyMRPL.Adaptive.Engine
import HyMRPL.Fifo.Check
import HyMRPL.Foundation.Machine
import Mathlib.Data.List.ReduceOption

/-!
# The daemon and its periodic callback

`hymrplPeriodicCb` follows `hymrpl_periodic_cb`: the FIFO is checked first, and
without a command the adaptive engine is asked. `main` starts from
`hymrplFifoSecInit`, whose result it does not look at.

The daemon is a machine with two events. A tick is one run of the callback, with
the bytes read from the FIFO. All other callbacks leave the limiter's state alone,
so they are one event, which may change the engine and the interfaces in any way.
-/

namespace HyMRPL

open Transition

/-- The globals `g_fifo_sec`, `g_adaptive`, `g_adaptive_enabled` and `ifaces`. -/
structure Daemon where
  fifoSec : HymrplFifoSec
  adaptive : HymrplAdaptive
  adaptiveEnabled : Bool
  ifaces : List Iface

/-- The class of the first DODAG, Class S without one. -/
def currentClass (ifaces : List Iface) : NodeClass :=
  match ifaces.flatMap (fun iface => iface.rpls.flatMap Rpl.dags) with
  | dag :: _ => dag.nodeClass
  | [] => .classS

/-- `hymrpl_periodic_cb`, with the class applied by the FIFO and the one applied by
the engine. -/
def hymrplPeriodicCb (hmac : Hmac) (now : ℚ) (buf : List UInt8) (d : Daemon) :
    Daemon × Option NodeClass × Option NodeClass :=
  let (sec, ifaces, fifoResult) := hymrplFifoSecCheck hmac now d.fifoSec d.ifaces buf
  let d := { d with fifoSec := sec, ifaces := ifaces }
  match fifoResult with
  | some newClass => (d, some newClass, none)
  | none =>
    if d.adaptiveEnabled = false then (d, none, none)
    else
      let (adp, recommended) :=
        hymrplAdaptiveGetRecommendation d.adaptive (currentClass d.ifaces)
      let d := { d with adaptive := adp }
      match recommended with
      | none => (d, none, none)
      | some newClass =>
        if now - d.fifoSec.lastSwitchTime < hymrplMinSwitchInterval then (d, none, none)
        else
          ({ d with
              ifaces := setNodeClass newClass d.ifaces
              fifoSec := { d.fifoSec with lastSwitchTime := now } },
            none, some newClass)

/-- What `main` sets up: the engine is enabled when some interface is not a root. -/
def Daemon.start (now : ℚ) (tokenFile : Option (List UInt8)) (ifaces : List Iface) : Daemon where
  fifoSec := (hymrplFifoSecInit now tokenFile).1
  adaptive := hymrplAdaptiveInit
  adaptiveEnabled := ifaces.any fun iface => !iface.dodagRoot
  ifaces := ifaces

/-- What happens to a daemon. -/
inductive DaemonEvent
  | tick (now : ℚ) (buf : List UInt8)
  | other (adaptive : HymrplAdaptive) (ifaces : List Iface)

/-- The record of a tick: the bytes read, the command that passed authentication
with its nonce, the class that the FIFO or the engine applied, and the interfaces
afterwards. -/
structure TickRecord where
  now : ℚ
  buf : List UInt8
  passed : Option (NodeClass × UInt64)
  fifo : Option NodeClass
  engine : Option NodeClass
  ifaces : List Iface

def tickRecord (hmac : Hmac) (now : ℚ) (buf : List UInt8) (d : Daemon) : TickRecord :=
  let (after, fifo, engine) := hymrplPeriodicCb hmac now buf d
  { now := now
    buf := buf
    passed :=
      if buf = [] then none
      else (fifoAuthenticate hmac d.fifoSec buf).map fun p => (p.1, p.2.lastNonce)
    fifo := fifo
    engine := engine
    ifaces := after.ifaces }

/-- The daemon, with the records of its ticks as the outputs. -/
def daemon (hmac : Hmac) : Machine Daemon DaemonEvent (Option TickRecord) where
  enabled _ _ := True
  next d
    | .tick now buf => (hymrplPeriodicCb hmac now buf d).1
    | .other adaptive ifaces => { d with adaptive := adaptive, ifaces := ifaces }
  out d
    | .tick now buf => some (tickRecord hmac now buf d)
    | .other _ _ => none

/-- The records of the ticks of a run. -/
def tickRecords (hmac : Hmac) (d : Daemon) (es : List DaemonEvent) : List TickRecord :=
  ((daemon hmac).outputs d es).reduceOption

/-- The engine applies a switch in this step: the FIFO gave no command, and the
class it recommends is not held back by the minimum interval. -/
def EngineSwitches (hmac : Hmac) (d : Daemon) : DaemonEvent → Prop
  | .tick now buf => (hymrplFifoSecCheck hmac now d.fifoSec d.ifaces buf).2.2 = none ∧
      d.adaptiveEnabled = true ∧
      (hymrplAdaptiveGetRecommendation d.adaptive (currentClass d.ifaces)).2 ≠ none ∧
      hymrplMinSwitchInterval ≤ now - d.fifoSec.lastSwitchTime
  | .other _ _ => False

instance (hmac : Hmac) (d : Daemon) : ∀ e, Decidable (EngineSwitches hmac d e)
  | .tick _ _ => inferInstanceAs (Decidable (_ ∧ _))
  | .other _ _ => .isFalse id

theorem hymrplPeriodicCb_of_fifo {hmac : Hmac} {now : ℚ} {buf : List UInt8} {d : Daemon}
    {sec : HymrplFifoSec} {ifaces : List Iface} {newClass : NodeClass}
    (h : hymrplFifoSecCheck hmac now d.fifoSec d.ifaces buf = (sec, ifaces, some newClass)) :
    hymrplPeriodicCb hmac now buf d =
      ({ d with fifoSec := sec, ifaces := ifaces }, some newClass, none) := by
  simp [hymrplPeriodicCb, h]

/-- All that a tick can do: apply a command; without a command, nothing more when the
engine is disabled; otherwise ask the engine, and apply what it recommends unless it
recommends nothing or the last switch is too recent. -/
theorem hymrplPeriodicCb_cases (hmac : Hmac) (now : ℚ) (buf : List UInt8) (d : Daemon) :
    let check := hymrplFifoSecCheck hmac now d.fifoSec d.ifaces buf
    let poll := hymrplAdaptiveGetRecommendation d.adaptive (currentClass d.ifaces)
    (∃ newClass, check.2.2 = some newClass ∧ hymrplPeriodicCb hmac now buf d =
        ({ d with fifoSec := check.1, ifaces := check.2.1 }, some newClass, none)) ∨
      (check.2.2 = none ∧ d.adaptiveEnabled = false ∧
        hymrplPeriodicCb hmac now buf d = ({ d with fifoSec := check.1 }, none, none)) ∨
      (check.2.2 = none ∧ d.adaptiveEnabled = true ∧
        (poll.2 = none ∨ now - d.fifoSec.lastSwitchTime < hymrplMinSwitchInterval) ∧
        hymrplPeriodicCb hmac now buf d =
          ({ d with fifoSec := check.1, adaptive := poll.1 }, none, none)) ∨
      ∃ newClass, check.2.2 = none ∧ d.adaptiveEnabled = true ∧ poll.2 = some newClass ∧
        hymrplMinSwitchInterval ≤ now - d.fifoSec.lastSwitchTime ∧
        hymrplPeriodicCb hmac now buf d =
          ({ d with
              fifoSec := { check.1 with lastSwitchTime := now }
              adaptive := poll.1
              ifaces := setNodeClass newClass d.ifaces },
            none, some newClass) := by
  intro check poll
  cases hfifo : check.2.2 with
  | some newClass =>
      left
      exact ⟨newClass, rfl, hymrplPeriodicCb_of_fifo (Prod.ext rfl (Prod.ext rfl hfifo))⟩
  | none =>
      right
      have ⟨hifaces, hlast⟩ := hymrplFifoSecCheck_of_none hfifo
      cases henabled : d.adaptiveEnabled with
      | false =>
          left
          refine ⟨rfl, rfl, ?_⟩
          simp [hymrplPeriodicCb, check, hfifo, henabled, hifaces]
      | true =>
          right
          cases hpoll : poll.2 with
          | none =>
              left
              refine ⟨rfl, rfl, Or.inl rfl, ?_⟩
              simp [hymrplPeriodicCb, check, hfifo, henabled, hifaces, poll, hpoll]
          | some newClass =>
              by_cases hfast : now - d.fifoSec.lastSwitchTime < hymrplMinSwitchInterval
              · left
                refine ⟨rfl, rfl, Or.inr hfast, ?_⟩
                simp [hymrplPeriodicCb, check, hfifo, henabled, hifaces, hlast, poll, hpoll, hfast]
              · right
                refine ⟨newClass, rfl, rfl, rfl, not_lt.mp hfast, ?_⟩
                simp [hymrplPeriodicCb, check, hfifo, henabled, hifaces, hlast, poll, hpoll, hfast]

theorem hymrplPeriodicCb_of_engine {hmac : Hmac} {now : ℚ} {buf : List UInt8} {d : Daemon}
    (h : EngineSwitches hmac d (.tick now buf)) :
    (hymrplPeriodicCb hmac now buf d).1.fifoSec =
        { (hymrplFifoSecCheck hmac now d.fifoSec d.ifaces buf).1 with lastSwitchTime := now } ∧
      ∃ newClass, (hymrplPeriodicCb hmac now buf d).2 = (none, some newClass) := by
  obtain ⟨hfifo, henabled, hrec, hinterval⟩ := h
  rcases hymrplPeriodicCb_cases hmac now buf d with
    ⟨newClass, hsome, -⟩ | ⟨-, hdisabled, -⟩ | ⟨-, -, hnone | hfast, -⟩ |
    ⟨newClass, -, -, -, -, hcb⟩
  · simp [hfifo] at hsome
  · simp [henabled] at hdisabled
  · exact absurd hnone hrec
  · exact absurd hfast (not_lt.mpr hinterval)
  · rw [hcb]
    exact ⟨rfl, newClass, rfl⟩

theorem hymrplPeriodicCb_of_idle {hmac : Hmac} {now : ℚ} {buf : List UInt8} {d : Daemon}
    (hfifo : (hymrplFifoSecCheck hmac now d.fifoSec d.ifaces buf).2.2 = none)
    (h : ¬ EngineSwitches hmac d (.tick now buf)) :
    (hymrplPeriodicCb hmac now buf d).1.fifoSec =
        (hymrplFifoSecCheck hmac now d.fifoSec d.ifaces buf).1 ∧
      (hymrplPeriodicCb hmac now buf d).2 = (none, none) := by
  rcases hymrplPeriodicCb_cases hmac now buf d with
    ⟨newClass, hsome, -⟩ | ⟨-, -, hcb⟩ | ⟨-, -, -, hcb⟩ |
    ⟨newClass, -, henabled, hrec, hinterval, -⟩
  · simp [hfifo] at hsome
  · rw [hcb]
    exact ⟨rfl, rfl⟩
  · rw [hcb]
    exact ⟨rfl, rfl⟩
  · exact absurd ⟨hfifo, henabled, by simp [hrec], hinterval⟩ h

/-- No tick sets the engine up, or stops it. -/
theorem adaptiveEnabled_hymrplPeriodicCb (hmac : Hmac) (now : ℚ) (buf : List UInt8)
    (d : Daemon) : (hymrplPeriodicCb hmac now buf d).1.adaptiveEnabled = d.adaptiveEnabled := by
  rcases hymrplPeriodicCb_cases hmac now buf d with
    ⟨newClass, -, hcb⟩ | ⟨-, -, hcb⟩ | ⟨-, -, -, hcb⟩ | ⟨newClass, -, -, -, -, hcb⟩ <;> rw [hcb]

/-- Up to the time of the last switch, a tick leaves the limiter's state as the
check of the FIFO does, and it returns the class that the check applied. -/
theorem hymrplPeriodicCb_fifo (hmac : Hmac) (now : ℚ) (buf : List UInt8) (d : Daemon) :
    (∃ time, (hymrplPeriodicCb hmac now buf d).1.fifoSec =
      { (hymrplFifoSecCheck hmac now d.fifoSec d.ifaces buf).1 with lastSwitchTime := time }) ∧
      (hymrplPeriodicCb hmac now buf d).2.1 =
        (hymrplFifoSecCheck hmac now d.fifoSec d.ifaces buf).2.2 := by
  rcases hymrplPeriodicCb_cases hmac now buf d with
    ⟨newClass, hfifo, hcb⟩ | ⟨hfifo, -, hcb⟩ | ⟨hfifo, -, -, hcb⟩ | ⟨newClass, hfifo, -, -, -, hcb⟩
  · rw [hcb, hfifo]
    exact ⟨⟨_, rfl⟩, rfl⟩
  · rw [hcb, hfifo]
    exact ⟨⟨_, rfl⟩, rfl⟩
  · rw [hcb, hfifo]
    exact ⟨⟨_, rfl⟩, rfl⟩
  · rw [hcb, hfifo]
    exact ⟨⟨now, rfl⟩, rfl⟩

/-- A tick keeps the token. -/
theorem token_hymrplPeriodicCb (hmac : Hmac) (now : ℚ) (buf : List UInt8) (d : Daemon) :
    (hymrplPeriodicCb hmac now buf d).1.fifoSec.token = d.fifoSec.token ∧
      (hymrplPeriodicCb hmac now buf d).1.fifoSec.tokenLoaded = d.fifoSec.tokenLoaded := by
  have ⟨⟨time, hsec⟩, _⟩ := hymrplPeriodicCb_fifo hmac now buf d
  rw [hsec]
  rcases hymrplFifoSecCheck_cases hmac now d.fifoSec d.ifaces buf with
    ⟨_, hcheck⟩ | ⟨newClass, passed, _, hauth, hcheck⟩
  · rw [hcheck]
    exact ⟨rfl, rfl⟩
  · have hfields := (fifoAuthenticate_eq_some hauth).1
    have hpassed : passed.token = d.fifoSec.token ∧ passed.tokenLoaded = d.fifoSec.tokenLoaded := by
      rw [hfields]
      exact ⟨rfl, rfl⟩
    rcases hcheck with ⟨hcheck, _⟩ | ⟨hcheck, _⟩
    · simp [hcheck, hpassed]
    · simp [hcheck, hpassed]

/-- The rule for runs of the daemon: what ticks that meet `C` and all other
callbacks keep holds of the records and the state at the end. -/
theorem tickRecords_invariant {hmac : Hmac} {R : List TickRecord → Daemon → Prop}
    {C : Daemon → DaemonEvent → Prop}
    (htick : ∀ records d now buf, R records d → C d (.tick now buf) →
      R (records ++ [tickRecord hmac now buf d]) (hymrplPeriodicCb hmac now buf d).1)
    (hother : ∀ records d adaptive ifaces, R records d →
      R records { d with adaptive := adaptive, ifaces := ifaces })
    {d : Daemon} {es : List DaemonEvent} (h : R [] d) (hC : (daemon hmac).Steps C d es) :
    R (tickRecords hmac d es) ((daemon hmac).run d es) := by
  refine Machine.outputs_invariant (l := []) (R := fun l d => R l.reduceOption d)
    (fun l d e hR he => ?_) h hC
  rw [List.reduceOption_append]
  cases e with
  | tick now buf => exact htick l.reduceOption d now buf hR he
  | other adaptive ifaces =>
      simpa [daemon] using hother l.reduceOption d adaptive ifaces hR

end HyMRPL
