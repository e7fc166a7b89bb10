import HyMRPL.Daemon.Switches

/-!
# Switches of the engine that change nothing

The engine recommends nothing when the class is right. But the class that it is asked about
is that of the first DODAG, and Class S as long as there is none. So with a DODAG a switch
changes at least this one. Without a DODAG the switch is to Class N, and changes nothing if
the interfaces are of Class N already. It still uses up the minimum interval that the engine
shares with the FIFO.
-/

namespace HyMRPL

open Transition

/-- Some interface or some DODAG is not of the class. -/
def SomeOtherClass (newClass : NodeClass) (ifaces : List Iface) : Prop :=
  (∃ iface ∈ ifaces, iface.nodeClass ≠ newClass) ∨ ∃ dag ∈ dagsOf ifaces, dag.nodeClass ≠ newClass

/-- There is no DODAG yet, and every interface is of Class N. -/
def UnjoinedClassN (ifaces : List Iface) : Prop :=
  dagsOf ifaces = [] ∧ ∀ iface ∈ ifaces, iface.nodeClass = .classN

instance (newClass : NodeClass) (ifaces : List Iface) :
    Decidable (SomeOtherClass newClass ifaces) :=
  inferInstanceAs (Decidable ((∃ iface ∈ ifaces, _) ∨ ∃ dag ∈ dagsOf ifaces, _))

instance (ifaces : List Iface) : Decidable (UnjoinedClassN ifaces) :=
  inferInstanceAs (Decidable (_ ∧ _))

/-- When the engine commits a switch, something was of another class just before. -/
def ChangesSomething (hmac : Hmac) (r : Rpld) : RpldEvent → Prop
  | .periodic now buf => ∀ newClass, (tickRecord hmac now buf r.toDaemon).engine = some newClass →
      SomeOtherClass newClass r.ifaces
  | _ => True

/-- The engine commits no switch without a DODAG and with all interfaces of Class N. -/
def CommitsUnlessIdle (hmac : Hmac) (r : Rpld) : RpldEvent → Prop
  | .periodic now buf => EngineSwitches hmac r.toDaemon (.tick now buf) → ¬ UnjoinedClassN r.ifaces
  | _ => True

theorem currentClass_of_no_dag {ifaces : List Iface} (h : dagsOf ifaces = []) :
    currentClass ifaces = .classS := by
  rw [dagsOf] at h
  rw [currentClass, h]

theorem exists_dag_of_currentClass {ifaces : List Iface} (h : dagsOf ifaces ≠ []) :
    ∃ dag ∈ dagsOf ifaces, dag.nodeClass = currentClass ifaces := by
  have ⟨dag, dags, hcons⟩ := List.exists_cons_of_ne_nil h
  refine ⟨dag, ?_, ?_⟩
  · rw [hcons]
    exact List.mem_cons_self ..
  · rw [dagsOf] at hcons
    rw [currentClass, hcons]

/-- Without a DODAG the only class that is not the current one is Class N. -/
theorem eq_classN_of_no_dag {newClass : NodeClass} {ifaces : List Iface}
    (hdag : dagsOf ifaces = []) (h : newClass ≠ currentClass ifaces) : newClass = .classN := by
  rw [currentClass_of_no_dag hdag] at h
  cases newClass with
  | classS => exact absurd rfl h
  | classN => rfl

/-- A class other than the current one changes something, unless there is no DODAG and every
interface has it already. -/
theorem someOtherClass_iff {newClass : NodeClass} {ifaces : List Iface}
    (h : newClass ≠ currentClass ifaces) :
    SomeOtherClass newClass ifaces ↔ ¬ UnjoinedClassN ifaces := by
  by_cases hdag : dagsOf ifaces = []
  · obtain rfl := eq_classN_of_no_dag hdag h
    simp [SomeOtherClass, UnjoinedClassN, hdag]
  · have ⟨dag, hmem, hclass⟩ := exists_dag_of_currentClass hdag
    have hother : SomeOtherClass newClass ifaces :=
      Or.inr ⟨dag, hmem, fun heq => h (heq.symm.trans hclass)⟩
    exact iff_of_true hother fun hidle => hdag hidle.1

/-- What the engine commits in a tick is not the class it was asked about, and is written
everywhere. -/
theorem tickRecord_engine_eq_some {hmac : Hmac} {now : ℚ} {buf : List UInt8} {d : Daemon}
    {newClass : NodeClass} (h : (tickRecord hmac now buf d).engine = some newClass) :
    EngineSwitches hmac d (.tick now buf) ∧ newClass ≠ currentClass d.ifaces ∧
      (hymrplPeriodicCb hmac now buf d).1.ifaces = setNodeClass newClass d.ifaces := by
  rcases hymrplPeriodicCb_cases hmac now buf d with
    ⟨c, -, hcb⟩ | ⟨-, -, hcb⟩ | ⟨-, -, -, hcb⟩ | ⟨c, hfifo, henabled, hpoll, hinterval, hcb⟩
  · simp [tickRecord, hcb] at h
  · simp [tickRecord, hcb] at h
  · simp [tickRecord, hcb] at h
  · obtain rfl : c = newClass := by simpa [tickRecord, hcb] using h
    have hsome : (hymrplAdaptiveGetRecommendation d.adaptive (currentClass d.ifaces)).2 ≠ none := by
      rw [hpoll]
      exact Option.some_ne_none c
    refine ⟨⟨hfifo, henabled, hsome, hinterval⟩, ?_, by rw [hcb]⟩
    exact (hymrplAdaptiveGetRecommendation_eq_some hpoll).2.1

theorem exists_tickRecord_engine {hmac : Hmac} {now : ℚ} {buf : List UInt8} {d : Daemon}
    (h : EngineSwitches hmac d (.tick now buf)) :
    ∃ newClass, (tickRecord hmac now buf d).engine = some newClass := by
  have ⟨_, newClass, hcb⟩ := hymrplPeriodicCb_of_engine h
  exact ⟨newClass, congrArg Prod.snd hcb⟩

theorem changesSomething_iff (hmac : Hmac) (r : Rpld) (e : RpldEvent) :
    ChangesSomething hmac r e ↔ CommitsUnlessIdle hmac r e := by
  cases e with
  | periodic now buf =>
      constructor
      · intro h hswitch
        have ⟨newClass, hengine⟩ := exists_tickRecord_engine hswitch
        have ⟨_, hne, _⟩ := tickRecord_engine_eq_some hengine
        exact (someOtherClass_iff hne).mp (h newClass hengine)
      · intro h newClass hengine
        have ⟨hswitch, hne, _⟩ := tickRecord_engine_eq_some hengine
        exact (someOtherClass_iff hne).mpr (h hswitch)
  | _ => exact Iff.rfl

/-- A switch without a DODAG makes every interface Class N, so the next one changes nothing
if there is still no DODAG. -/
theorem unjoinedClassN_of_switch {hmac : Hmac} {now : ℚ} {buf : List UInt8} {r : Rpld}
    (h : EngineSwitches hmac r.toDaemon (.tick now buf)) (hdag : dagsOf r.ifaces = [])
    (code : DagCode) : UnjoinedClassN ((rpld code hmac).next r (.periodic now buf)).ifaces := by
  have ⟨newClass, hengine⟩ := exists_tickRecord_engine h
  have ⟨_, hne, hifaces⟩ := tickRecord_engine_eq_some hengine
  have hclass : newClass = .classN := eq_classN_of_no_dag hdag hne
  have hnext : ((rpld code hmac).next r (.periodic now buf)).ifaces =
      setNodeClass .classN r.ifaces := hclass ▸ hifaces
  rw [hnext]
  constructor
  · rw [dagsOf_setNodeClass, hdag, List.map_nil]
  · intro iface hiface
    exact (allOfClass_setNodeClass .classN r.ifaces iface hiface).1

/-- Every switch that the engine commits in a run changes something exactly when none is
committed without a DODAG and with all interfaces of Class N. -/
theorem engine_changes_iff (code : DagCode) (hmac : Hmac) (start : ℚ)
    (tokenFile : Option (List UInt8)) (ifaces : List Iface) (es : List RpldEvent) :
    (rpld code hmac).Steps (ChangesSomething hmac) (Rpld.start start tokenFile ifaces) es ↔
      (rpld code hmac).Steps (CommitsUnlessIdle hmac) (Rpld.start start tokenFile ifaces) es :=
  Machine.steps_congr (changesSomething_iff hmac) _ es

/-- A node of Class S that joins no DODAG while its battery runs empty. -/
def unjoinedBattery : List RpldEvent :=
  [25, 30, 35, 40, 45, 50].map (fun now => .eval now 0) ++
    [51, 52, 53, 61, 62].map fun now => .periodic now []

/-- At 53 the engine switches the interface to Class N. At 63 it does the same again, and
two seconds later a command is rejected for that. -/
theorem unjoinedBattery_switches_for_nothing :
    let r := (rpld sampleDagCode sampleHmac).run (Rpld.start 0 none [⟨1, false, .classS, []⟩])
      unjoinedBattery
    let r' := (rpld sampleDagCode sampleHmac).next r (.periodic 63 [])
    UnjoinedClassN r.ifaces ∧ r.fifoSec.lastSwitchTime = 53 ∧
      (tickRecord sampleHmac 63 [] r.toDaemon).engine = some .classN ∧
      r'.ifaces = r.ifaces ∧ r'.fifoSec.lastSwitchTime = 63 ∧
      (tickRecord sampleHmac 65 (hymrplCmd sampleHmac none .classS 0) r'.toDaemon).fifo = none ∧
      (tickRecord sampleHmac 65 (hymrplCmd sampleHmac none .classS 0) r.toDaemon).fifo =
        some .classS ∧
      ¬ ChangesSomething sampleHmac r (.periodic 63 []) := by
  intro r r'
  have hidle : UnjoinedClassN r.ifaces := by decide +kernel
  have hengine : (tickRecord sampleHmac 63 [] r.toDaemon).engine = some .classN := by
    decide +kernel
  have hsame : ¬ SomeOtherClass .classN r.ifaces := by decide +kernel
  refine ⟨hidle, by decide +kernel, hengine, by decide +kernel, by decide +kernel,
    by decide +kernel, by decide +kernel, fun h => hsame (h .classN hengine)⟩

end HyMRPL
