import HyMRPL.Daemon.Callbacks
import HyMRPL.Daemon.Authenticity
import HyMRPL.Network.Basic

/-!
# No flapping under constant conditions

With a constant energy reading, and with no outcomes and no changes of the parent
recorded, the score depends on the average of the energy alone, which moves from 1 towards
the reading and never past it. So once the recommended class is N it stays N, and the
class of a node can only go from N to S, from S to N, or from N to S and back.

`Steady` is the invariant of the engine, `ClassHistory` that of the class.
-/

namespace HyMRPL

open Transition

/-- An evaluation with this energy reading, or a tick without a command. -/
def QuietEvent (energy : ℚ) : RpldEvent → Prop
  | .eval _ reading => reading = energy
  | .periodic _ buf => buf = []
  | _ => False

/-- The engine under constant conditions: only the average of the energy moves, and it has
not moved past the reading. -/
structure Steady (energy : ℚ) (adp : HymrplAdaptive) : Prop where
  pdr : adp.pdr = 100
  noChange : adp.parentChangeCount = 0
  sStab : adp.sStab = 1
  ema : energy / 100 ≤ adp.energyEma ∨ 1 ≤ adp.energyEma

section Engine

variable {energy : ℚ} {adp : HymrplAdaptive}

theorem steady_init (energy : ℚ) : Steady energy hymrplAdaptiveInit :=
  ⟨rfl, rfl, rfl, Or.inr (le_refl 1)⟩

/-- Class N is recommended while the average is below a sixth. -/
theorem Steady.classOfScore_eq_classN (h : Steady energy adp) :
    classOfScore adp.score = .classN ↔ adp.energyEma < 1 / 6 := by
  have hscore : adp.score = 7 / 10 + 3 / 10 * adp.energyEma := by
    rw [HymrplAdaptive.score, h.pdr, h.sStab, hymrplWPdr, hymrplWEnergy, hymrplWStability]
    linarith
  rw [classOfScore, hscore, hymrplThreshold]
  by_cases hlow : adp.energyEma < 1 / 6
  · have hbelow : ¬ (3 / 4 : ℚ) ≤ 7 / 10 + 3 / 10 * adp.energyEma := by linarith
    rw [if_neg hbelow]
    exact iff_of_true rfl hlow
  · have habove : (3 / 4 : ℚ) ≤ 7 / 10 + 3 / 10 * adp.energyEma := by linarith
    rw [if_pos habove]
    exact iff_of_false (by decide) hlow

/-- The average moves by three tenths of its distance to the reading. -/
theorem adaptiveEvalCb_energyEma (now energy : ℚ) (adp : HymrplAdaptive) :
    (adaptiveEvalCb now energy adp).energyEma =
      3 / 10 * (energy / 100) + (1 - 3 / 10) * adp.energyEma := rfl

theorem Steady.eval (h : Steady energy adp) (now : ℚ) :
    Steady energy (adaptiveEvalCb now energy adp) := by
  constructor
  case pdr => exact h.pdr
  case noChange => exact h.noChange
  case sStab =>
    rw [adaptiveEvalCb_eq, adaptiveDecide_eq]
    simp [adaptiveRefresh, computeStability, h.noChange]
  case ema =>
    rw [adaptiveEvalCb_energyEma]
    rcases h.ema with hle | hle
    · left
      linarith
    · rcases le_total (energy / 100) 1 with hone | hone
      · left
        linarith
      · right
        linarith

/-- An evaluation only goes further down once Class N is recommended. -/
theorem Steady.eval_classN (h : Steady energy adp) (now : ℚ)
    (hclass : classOfScore adp.score = .classN) :
    classOfScore (adaptiveEvalCb now energy adp).score = .classN := by
  rw [h.classOfScore_eq_classN] at hclass
  rw [(h.eval now).classOfScore_eq_classN]
  rw [adaptiveEvalCb_energyEma]
  rcases h.ema with hle | hle
  · linarith
  · linarith

/-- A poll keeps the metrics, and thus the recommended class. -/
theorem Steady.poll (h : Steady energy adp) (currentClass : NodeClass) :
    Steady energy (hymrplAdaptiveGetRecommendation adp currentClass).1 ∧
      (hymrplAdaptiveGetRecommendation adp currentClass).1.score = adp.score := by
  have ⟨counter, pending, hpoll⟩ := hymrplAdaptiveGetRecommendation_metrics adp currentClass
  rw [hpoll]
  exact ⟨⟨h.pdr, h.noChange, h.sStab, h.ema⟩, rfl⟩

end Engine

/-- The changes of the class so far and the class they led to, when the class that the
engine recommends is `recommended`. -/
inductive ClassHistory (recommended : NodeClass) :
    List (NodeClass × NodeClass) → NodeClass → Prop
  | unchanged (c : NodeClass) : ClassHistory recommended [] c
  | toS : ClassHistory recommended [(.classN, .classS)] .classS
  | toN : recommended = .classN → ClassHistory recommended [(.classS, .classN)] .classN
  | toSToN : recommended = .classN →
      ClassHistory recommended [(.classN, .classS), (.classS, .classN)] .classN

section History

variable {recommended c : NodeClass} {changes : List (NodeClass × NodeClass)}

/-- The recommended class may change as long as it was not N. -/
theorem ClassHistory.recommend (h : ClassHistory recommended changes c) {newClass : NodeClass}
    (hnew : recommended = .classN → newClass = .classN) : ClassHistory newClass changes c := by
  cases h with
  | unchanged => exact .unchanged c
  | toS => exact .toS
  | toN hN => exact .toN (hnew hN)
  | toSToN hN => exact .toSToN (hnew hN)

/-- A switch to the recommended class. -/
theorem ClassHistory.switch (h : ClassHistory recommended changes c) (hne : recommended ≠ c) :
    ClassHistory recommended (changes ++ [(c, recommended)]) recommended := by
  cases h with
  | unchanged =>
      cases recommended with
      | classS =>
          cases c with
          | classS => exact absurd rfl hne
          | classN => exact .toS
      | classN =>
          cases c with
          | classS => exact .toN rfl
          | classN => exact absurd rfl hne
  | toS =>
      cases recommended with
      | classS => exact absurd rfl hne
      | classN => exact .toSToN rfl
  | toN hN => exact absurd hN hne
  | toSToN hN => exact absurd hN hne

theorem ClassHistory.length_le (h : ClassHistory recommended changes c) : changes.length ≤ 2 := by
  cases h <;> decide

/-- Nothing follows a change from S to N. -/
theorem ClassHistory.eq_nil (h : ClassHistory recommended changes c)
    {before after : List (NodeClass × NodeClass)}
    (hsplit : changes = before ++ (.classS, .classN) :: after) : after = [] := by
  cases h with
  | unchanged => simp at hsplit
  | toS => simp [List.singleton_eq_append_iff] at hsplit
  | toN =>
      rw [List.singleton_eq_append_iff] at hsplit
      simp at hsplit
      exact hsplit.2
  | toSToN =>
      cases before with
      | nil => simp at hsplit
      | cons change before =>
          rw [List.cons_append, List.cons.injEq, List.singleton_eq_append_iff] at hsplit
          simp at hsplit
          exact hsplit.2.2

end History

theorem currentClass_of_allOfClass {c : NodeClass} {ifaces : List Iface}
    (hclass : AllOfClass c ifaces) (hdag : dagsOf ifaces ≠ []) : currentClass ifaces = c := by
  have ⟨dag, dags, hcons⟩ := List.exists_cons_of_ne_nil hdag
  have hmem : dag ∈ dagsOf ifaces := by
    rw [hcons]
    exact List.mem_cons_self ..
  have ⟨iface, hiface, hrpls⟩ := List.mem_flatMap.mp hmem
  have ⟨rpl, hrpl, hdag⟩ := List.mem_flatMap.mp hrpls
  have hcurrent : currentClass ifaces = dag.nodeClass := by
    rw [dagsOf] at hcons
    rw [currentClass, hcons]
  rw [hcurrent]
  exact (hclass iface hiface).2 rpl hrpl dag hdag

/-- The change of the class in a step, as `hymrpl_periodic_cb` sees it. -/
def classChange (r r' : Rpld) : Option (NodeClass × NodeClass) :=
  if currentClass r.ifaces = currentClass r'.ifaces then none
  else some (currentClass r.ifaces, currentClass r'.ifaces)

/-- The changes of the class in a run. -/
def classChanges (code : DagCode) (hmac : Hmac) (r : Rpld) (es : List RpldEvent) :
    List (NodeClass × NodeClass) :=
  (((rpld code hmac).observe classChange).outputs r es).reduceOption

/-- What holds after a quiet run with these changes. -/
def QuietState (energy : ℚ) (changes : List (NodeClass × NodeClass)) (r : Rpld) : Prop :=
  ∃ c, AllOfClass c r.ifaces ∧ dagsOf r.ifaces ≠ [] ∧ Steady energy r.adaptive ∧
    ClassHistory (classOfScore r.adaptive.score) changes c

variable {code : DagCode} {hmac : Hmac} {energy : ℚ} {r : Rpld}
  {changes : List (NodeClass × NodeClass)}

/-- A step of the engine that keeps the interfaces. -/
theorem QuietState.of_engine (h : QuietState energy changes r) {r' : Rpld}
    (hifaces : r'.ifaces = r.ifaces) (hsteady : Steady energy r'.adaptive)
    (hclass : classOfScore r.adaptive.score = .classN →
      classOfScore r'.adaptive.score = .classN) :
    QuietState energy (changes ++ (classChange r r').toList) r' := by
  have ⟨c, hall, hdag, _, hhistory⟩ := h
  have hnone : classChange r r' = none := by simp [classChange, hifaces]
  rw [hnone, Option.toList_none, List.append_nil]
  refine ⟨c, ?_, ?_, hsteady, hhistory.recommend hclass⟩
  · rwa [hifaces]
  · rwa [hifaces]

/-- A switch to the class that the engine recommends. -/
theorem QuietState.of_switch (h : QuietState energy changes r) {r' : Rpld}
    (hne : classOfScore r.adaptive.score ≠ currentClass r.ifaces)
    (hifaces : r'.ifaces = setNodeClass (classOfScore r.adaptive.score) r.ifaces)
    (hsteady : Steady energy r'.adaptive) (hscore : r'.adaptive.score = r.adaptive.score) :
    QuietState energy (changes ++ (classChange r r').toList) r' := by
  have ⟨c, hall, hdag, _, hhistory⟩ := h
  have hclass := currentClass_of_allOfClass hall hdag
  have hdag' : dagsOf r'.ifaces ≠ [] := by
    rw [hifaces, dagsOf_setNodeClass]
    simpa using hdag
  have hall' : AllOfClass (classOfScore r.adaptive.score) r'.ifaces := by
    rw [hifaces]
    exact allOfClass_setNodeClass _ _
  have hclass' := currentClass_of_allOfClass hall' hdag'
  rw [hclass] at hne
  have hsome : classChange r r' = some (c, classOfScore r.adaptive.score) := by
    rw [classChange, hclass, hclass', if_neg (Ne.symm hne)]
  rw [hsome, Option.toList_some]
  refine ⟨_, hall', hdag', hsteady, ?_⟩
  rw [hscore]
  exact hhistory.switch hne

theorem QuietState.eval (h : QuietState energy changes r) (now : ℚ) :
    let r' := (rpld code hmac).next r (.eval now energy)
    QuietState energy (changes ++ (classChange r r').toList) r' := by
  intro r'
  have ⟨c, _, _, hsteady, _⟩ := h
  have hadaptive : r'.adaptive = r.adaptive ∨
      r'.adaptive = adaptiveEvalCb now energy r.adaptive := by
    have hcalls : r'.adaptive =
        engine.run r.adaptive (engineCalls code hmac r (.eval now energy)) := rfl
    cases henabled : r.adaptiveEnabled with
    | false =>
        left
        rw [hcalls, engineCalls, if_pos henabled, Machine.run]
    | true =>
        right
        simp [hcalls, engineCalls, henabled, Machine.run, engine, engineStep]
  rcases hadaptive with hsame | hnew
  · apply h.of_engine
    · rfl
    · rwa [hsame]
    · rw [hsame]
      exact id
  · apply h.of_engine
    · rfl
    · rw [hnew]
      exact hsteady.eval now
    · rw [hnew]
      exact hsteady.eval_classN now

theorem QuietState.periodic (h : QuietState energy changes r) (now : ℚ) :
    let r' := (rpld code hmac).next r (.periodic now [])
    QuietState energy (changes ++ (classChange r r').toList) r' := by
  intro r'
  have ⟨c, _, _, hsteady, _⟩ := h
  have ⟨hpoll, hscore⟩ := hsteady.poll (currentClass r.ifaces)
  have hempty : hymrplFifoSecCheck hmac now r.fifoSec r.ifaces [] = (r.fifoSec, r.ifaces, none) :=
    rfl
  have hnext : r'.toDaemon = (hymrplPeriodicCb hmac now [] r.toDaemon).1 := rfl
  rcases hymrplPeriodicCb_cases hmac now [] r.toDaemon with
    ⟨newClass, hfifo, _⟩ | ⟨_, _, hcb⟩ | ⟨_, _, _, hcb⟩ | ⟨newClass, _, _, hrec, _, hcb⟩
  · simp [hempty] at hfifo
  · have hadaptive : r'.adaptive = r.adaptive := by rw [hnext, hcb]
    apply h.of_engine
    · rw [hnext, hcb]
    · rwa [hadaptive]
    · rw [hadaptive]
      exact id
  · have hadaptive : r'.adaptive =
        (hymrplAdaptiveGetRecommendation r.adaptive (currentClass r.ifaces)).1 := by
      rw [hnext, hcb]
    apply h.of_engine
    · rw [hnext, hcb]
    · rwa [hadaptive]
    · rw [hadaptive, hscore]
      exact id
  · have ⟨hclass, hne, _⟩ := hymrplAdaptiveGetRecommendation_eq_some hrec
    have hadaptive : r'.adaptive =
        (hymrplAdaptiveGetRecommendation r.adaptive (currentClass r.ifaces)).1 := by
      rw [hnext, hcb]
    apply h.of_switch
    · rwa [hclass]
    · rw [hclass, hnext, hcb]
    · rwa [hadaptive]
    · rw [hadaptive, hscore]

/-- The step lemma. -/
theorem QuietState.next (h : QuietState energy changes r) {e : RpldEvent}
    (he : QuietEvent energy e) :
    QuietState energy (changes ++ (classChange r ((rpld code hmac).next r e)).toList)
      ((rpld code hmac).next r e) := by
  cases e with
  | eval now reading =>
      obtain rfl : reading = energy := he
      exact h.eval now
  | periodic now buf =>
      obtain rfl : buf = [] := he
      exact h.periodic now
  | recv now failures i msg => exact absurd he id
  | parentCheck now i place => exact absurd he id
  | reload newTrickleT => exact absurd he id
  | send => exact absurd he id

/-- The run lemma. -/
theorem QuietState.run (h : QuietState energy [] r) {es : List RpldEvent}
    (hes : ((rpld code hmac).observe classChange).Steps (fun _ => QuietEvent energy) r es) :
    QuietState energy (classChanges code hmac r es) ((rpld code hmac).run r es) := by
  have hrun := Machine.outputs_invariant (M := (rpld code hmac).observe classChange)
    (R := fun l r => QuietState energy l.reduceOption r) (l := []) (fun l r e hR he => ?_) h hes
  · simpa [classChanges] using hrun
  · rw [List.reduceOption_append]
    exact hR.next he

/-- Under constant conditions the class changes at most twice, and not any more once it has
changed from S to N. All interfaces and all DODAGs stay of one class. -/
theorem no_flapping (code : DagCode) (hmac : Hmac) (energy : ℚ) {r : Rpld} {c : NodeClass}
    (hengine : r.adaptive = hymrplAdaptiveInit) (hclass : AllOfClass c r.ifaces)
    (hdag : dagsOf r.ifaces ≠ []) {es : List RpldEvent} (hes : ∀ e ∈ es, QuietEvent energy e) :
    (∃ c', AllOfClass c' ((rpld code hmac).run r es).ifaces) ∧
      (classChanges code hmac r es).length ≤ 2 ∧
      ∀ before after, classChanges code hmac r es = before ++ (.classS, .classN) :: after →
        after = [] := by
  have hstart : QuietState energy [] r := by
    refine ⟨c, hclass, hdag, ?_, .unchanged c⟩
    rw [hengine]
    exact steady_init energy
  have hsteps := Machine.steps_of_forall (M := (rpld code hmac).observe classChange)
    (fun _ e he => hes e he) r
  have hquiet := hstart.run hsteps
  have ⟨c', hall, _, _, hhistory⟩ := hquiet
  exact ⟨⟨c', hall⟩, hhistory.length_le, fun before after hsplit => hhistory.eq_nil hsplit⟩

/-- A node of Class N with a full battery that is empty from then on. -/
def emptyBattery : List RpldEvent :=
  [20, 21, 22].map (fun now => .periodic now []) ++
    [25, 30, 35, 40, 45, 50].map (fun now => .eval now 0) ++
      [51, 52, 53].map fun now => .periodic now []

/-- The class goes from N to S and back. -/
theorem emptyBattery_changes :
    let r := Rpld.start 0 none
      [⟨1, false, .classN, [⟨1, [{ hybridNet.rootDag with nodeClass := .classN }]⟩]⟩]
    classChanges sampleDagCode sampleHmac r emptyBattery =
        [(.classN, .classS), (.classS, .classN)] ∧
      ∀ before after, classChanges sampleDagCode sampleHmac r emptyBattery =
        before ++ (.classS, .classN) :: after → after = [] := by
  intro r
  constructor
  · decide +kernel
  · apply (no_flapping sampleDagCode sampleHmac 0 (r := r) (c := .classN) rfl _ _ _).2.2
    · simp [AllOfClass, r, Rpld.start, Daemon.start]
    · simp [dagsOf, r, Rpld.start, Daemon.start]
    · simp [emptyBattery, QuietEvent]

end HyMRPL
