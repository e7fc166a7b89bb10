import HyMRPL.Adaptive.Engine
import HyMRPL.Foundation.Machine
import HyMRPL.Foundation.Recent
import Mathlib.Data.List.ReduceOption
import Mathlib.Data.List.Forall2
import Mathlib.Tactic.Linarith
import Mathlib.Tactic.FieldSimp

/-!
# The engine as a machine

The engine reads four events: its timer evaluates the metrics, an outcome of a DAO
is recorded, a change of the parent is recorded, and the periodic callback asks for a
recommendation. The output of an event is the decision that it makes, if it makes
one: the score that is stored afterwards, and the class that `adaptive_decide` returns.

The lemmas say what each event does to the metrics. The times of the parent changes
are the latest four of the history (`Changes`).
-/

namespace HyMRPL

open Transition

/-- What the engine is called for. -/
inductive EngineEvent
  | eval (now energy : ℚ)
  | recordDao (success : Bool)
  | parentChanged (now : ℚ) (newParent : Option In6Addr)
  | recommend (currentClass : NodeClass)
  deriving DecidableEq

/-- The part of `adaptive_eval_cb` before its decision. -/
def adaptiveRefresh (now energy : ℚ) (adp : HymrplAdaptive) : HymrplAdaptive :=
  computeStability now
    { adp with
      energyPct := energy / 100 * 100
      energyEma := hymrplEnergyEmaAlpha * (energy / 100) +
        (1 - hymrplEnergyEmaAlpha) * adp.energyEma }

theorem adaptiveEvalCb_eq (now energy : ℚ) (adp : HymrplAdaptive) :
    adaptiveEvalCb now energy adp = (adaptiveDecide (adaptiveRefresh now energy adp)).1 := rfl

/-- What an event does to the engine. -/
def engineStep (adp : HymrplAdaptive) : EngineEvent → HymrplAdaptive
  | .eval now energy => adaptiveEvalCb now energy adp
  | .recordDao success => hymrplAdaptiveRecordDao adp success
  | .parentChanged now newParent => hymrplAdaptiveParentChanged now adp newParent
  | .recommend currentClass => (hymrplAdaptiveGetRecommendation adp currentClass).1

/-- The score that is stored after an event with a call of `adaptive_decide`, and the class
that the call returns. -/
def engineDecision (adp : HymrplAdaptive) : EngineEvent → Option (ℚ × NodeClass)
  | .eval now energy =>
    some ((adaptiveEvalCb now energy adp).lastScore,
      (adaptiveDecide (adaptiveRefresh now energy adp)).2)
  | .recommend currentClass =>
    some ((hymrplAdaptiveGetRecommendation adp currentClass).1.lastScore, (adaptiveDecide adp).2)
  | .recordDao _ => none
  | .parentChanged _ _ => none

/-- The engine, with its decisions as the outputs. -/
def engine : Machine HymrplAdaptive EngineEvent (Option (ℚ × NodeClass)) where
  enabled _ _ := True
  next := engineStep
  out := engineDecision

/-- The decisions of a run. -/
def decisions (adp : HymrplAdaptive) (es : List EngineEvent) : List (ℚ × NodeClass) :=
  (engine.outputs adp es).reduceOption

theorem decisions_cons_of_some {adp : HymrplAdaptive} {e : EngineEvent} {decision : ℚ × NodeClass}
    (h : engineDecision adp e = some decision) (es : List EngineEvent) :
    decisions adp (e :: es) = decision :: decisions (engineStep adp e) es := by
  simp only [decisions, Machine.outputs, engine, h, List.reduceOption_cons_of_some]

theorem decisions_cons_of_none {adp : HymrplAdaptive} {e : EngineEvent}
    (h : engineDecision adp e = none) (es : List EngineEvent) :
    decisions adp (e :: es) = decisions (engineStep adp e) es := by
  simp only [decisions, Machine.outputs, engine, h, List.reduceOption_cons_of_none]

/-- The score of the metrics as they stand. -/
def HymrplAdaptive.score (adp : HymrplAdaptive) : ℚ :=
  hymrplWPdr * (adp.pdr / 100) + hymrplWEnergy * adp.energyEma + hymrplWStability * adp.sStab

/-- The class that `adaptive_decide` returns for a score. -/
def classOfScore (score : ℚ) : NodeClass :=
  if hymrplThreshold ≤ score then .classS else .classN

theorem adaptiveDecide_eq (adp : HymrplAdaptive) :
    adaptiveDecide adp = ({ adp with lastScore := adp.score }, classOfScore adp.score) := rfl

theorem classOfScore_mono {a b : ℚ} (h : b ≤ a) (hb : classOfScore b = .classS) :
    classOfScore a = .classS := by
  have hb' : hymrplThreshold ≤ b := by
    by_contra hlow
    simp [classOfScore, hlow] at hb
  exact if_pos (hb'.trans h)

/-- What the hysteresis counter becomes in a poll that recommends a change. -/
def HymrplAdaptive.countedPolls (adp : HymrplAdaptive) : ℕ :=
  if adp.pendingClass = classOfScore adp.score then adp.hysteresisCounter + 1 else 1

section Poll

variable {adp : HymrplAdaptive} {currentClass : NodeClass}

/-- A poll that finds the current class right. -/
theorem hymrplAdaptiveGetRecommendation_of_eq (h : classOfScore adp.score = currentClass) :
    hymrplAdaptiveGetRecommendation adp currentClass =
      ({ adp with lastScore := adp.score, hysteresisCounter := 0 }, none) := by
  simp [hymrplAdaptiveGetRecommendation, adaptiveDecide_eq, h]

/-- A poll that recommends a change, which is returned when it is the third one. -/
theorem hymrplAdaptiveGetRecommendation_of_ne (h : classOfScore adp.score ≠ currentClass) :
    hymrplAdaptiveGetRecommendation adp currentClass =
      ({ adp with
          lastScore := adp.score
          pendingClass := classOfScore adp.score
          hysteresisCounter :=
            if hymrplHysteresisCycles ≤ adp.countedPolls then 0 else adp.countedPolls },
        if hymrplHysteresisCycles ≤ adp.countedPolls then some (classOfScore adp.score)
        else none) := by
  by_cases hpending : adp.pendingClass = classOfScore adp.score
  · by_cases hcount : hymrplHysteresisCycles ≤ adp.hysteresisCounter + 1 <;>
      simp [hymrplAdaptiveGetRecommendation, adaptiveDecide_eq, h, hpending, hcount,
        HymrplAdaptive.countedPolls]
  · simp [hymrplAdaptiveGetRecommendation, adaptiveDecide_eq, h, hpending,
      HymrplAdaptive.countedPolls, hymrplHysteresisCycles]

/-- A poll leaves the metrics alone. -/
theorem hymrplAdaptiveGetRecommendation_metrics (adp : HymrplAdaptive)
    (currentClass : NodeClass) :
    ∃ counter pending, (hymrplAdaptiveGetRecommendation adp currentClass).1 =
      { adp with
        lastScore := adp.score
        hysteresisCounter := counter
        pendingClass := pending } := by
  by_cases h : classOfScore adp.score = currentClass
  · rw [hymrplAdaptiveGetRecommendation_of_eq h]
    exact ⟨_, _, rfl⟩
  · rw [hymrplAdaptiveGetRecommendation_of_ne h]
    exact ⟨_, _, rfl⟩

/-- A poll stores the score of the metrics. -/
theorem engineDecision_recommend (adp : HymrplAdaptive) (currentClass : NodeClass) :
    engineDecision adp (.recommend currentClass) = some (adp.score, classOfScore adp.score) := by
  have ⟨_, _, hpoll⟩ := hymrplAdaptiveGetRecommendation_metrics adp currentClass
  rw [engineDecision, hpoll, adaptiveDecide_eq]

/-- What a poll returns is what it decides, and a change. -/
theorem hymrplAdaptiveGetRecommendation_eq_some {newClass : NodeClass}
    (h : (hymrplAdaptiveGetRecommendation adp currentClass).2 = some newClass) :
    classOfScore adp.score = newClass ∧ newClass ≠ currentClass ∧
      hymrplHysteresisCycles ≤ adp.countedPolls := by
  by_cases hclass : classOfScore adp.score = currentClass
  · simp [hymrplAdaptiveGetRecommendation_of_eq hclass] at h
  · rw [hymrplAdaptiveGetRecommendation_of_ne hclass] at h
    by_cases hcount : hymrplHysteresisCycles ≤ adp.countedPolls
    · obtain rfl : classOfScore adp.score = newClass := by simpa [hcount] using h
      exact ⟨rfl, hclass, hcount⟩
    · simp [hcount] at h

end Poll

/-- A change of the parent is noted in the fields that track the changes. -/
theorem hymrplAdaptiveParentChanged_tracked (now : ℚ) (adp : HymrplAdaptive)
    (newParent : Option In6Addr) :
    ∃ times count addr, hymrplAdaptiveParentChanged now adp newParent =
      { adp with
        parentChangeTimes := times
        parentChangeCount := count
        lastParentChange := now
        lastParentAddr := addr } := by
  by_cases hroom : adp.parentChangeCount < hymrplStabilityNmax + 1
  · simp only [hymrplAdaptiveParentChanged, hroom, if_true]
    exact ⟨_, _, _, rfl⟩
  · simp only [hymrplAdaptiveParentChanged, hroom, if_false]
    exact ⟨_, _, _, rfl⟩

section Samples

variable (adp : HymrplAdaptive)

/-- The outcomes in the window of the delivery ratio. -/
def HymrplAdaptive.samples : List Bool := adp.pdrWindow.toList.take adp.pdrCount

/-- `compute_pdr` in terms of the outcomes in the window. -/
theorem computePdr_eq :
    computePdr adp =
      { adp with
        pdr := if adp.pdrCount = 0 then 100
          else (adp.samples.countP id : ℚ) / (min adp.pdrCount hymrplPdrWindow : ℕ) * 100 } := by
  by_cases hzero : adp.pdrCount = 0
  · simp [computePdr, hzero]
  · by_cases hroom : adp.pdrCount < hymrplPdrWindow
    · simp [computePdr, hzero, hroom, HymrplAdaptive.samples, min_eq_left hroom.le]
    · -- Beyond the window there is nothing to count.
      have hfull : hymrplPdrWindow ≤ adp.pdrCount := not_lt.mp hroom
      have htake : ∀ n, hymrplPdrWindow ≤ n →
          adp.pdrWindow.toList.take n = adp.pdrWindow.toList := by
        intro n hn
        exact List.take_of_length_le (by simpa using hn)
      simp [computePdr, hzero, hroom, HymrplAdaptive.samples, min_eq_right hfull,
        htake _ hfull, htake _ le_rfl]

/-- An outcome is noted in the window and in the ratio. -/
theorem hymrplAdaptiveRecordDao_tracked (success : Bool) :
    ∃ pdr window idx count, hymrplAdaptiveRecordDao adp success =
      { adp with pdr := pdr, pdrWindow := window, pdrIdx := idx, pdrCount := count } := by
  rw [hymrplAdaptiveRecordDao, computePdr_eq]
  exact ⟨_, _, _, _, rfl⟩

/-- The engine keeps the latest twenty outcomes of the history. -/
def Outcomes (history : List Bool) : Prop :=
  Recent.Ring hymrplPdrWindow adp.pdrWindow.toList adp.pdrIdx adp.pdrCount history

variable {adp} {history : List Bool}

theorem outcomes_init : Outcomes hymrplAdaptiveInit [] := by
  constructor
  case length_eq => rfl
  case count_le => decide
  case filling => exact fun _ => ⟨rfl, rfl⟩
  case full => exact fun hfull => absurd hfull (by decide)

/-- The successes in the window are those among the latest outcomes. -/
theorem Outcomes.countP_samples (h : Outcomes adp history) :
    adp.samples.countP id = (history.rtake hymrplPdrWindow).countP id :=
  Recent.Ring.countP_eq h id

/-- The outcomes that some events record. -/
def outcomeEvents (es : List EngineEvent) : List Bool :=
  es.filterMap fun
    | .recordDao success => some success
    | _ => none

@[simp] theorem outcomeEvents_append (es fs : List EngineEvent) :
    outcomeEvents (es ++ fs) = outcomeEvents es ++ outcomeEvents fs :=
  List.filterMap_append

/-- An event adds its outcome, if it has one, to the history. -/
theorem Outcomes.step (h : Outcomes adp history) (e : EngineEvent) :
    Outcomes (engineStep adp e) (history ++ outcomeEvents [e]) := by
  cases e with
  | eval now energy =>
      have hkept : Outcomes (adaptiveEvalCb now energy adp) history := h
      simpa [outcomeEvents, engineStep] using hkept
  | recordDao success =>
      have hpush := Recent.Ring.push h success
      simpa [Outcomes, outcomeEvents, engineStep, hymrplAdaptiveRecordDao, computePdr_eq]
        using hpush
  | parentChanged now newParent =>
      have hkept : Outcomes (hymrplAdaptiveParentChanged now adp newParent) history := by
        obtain ⟨_, _, _, htracked⟩ := hymrplAdaptiveParentChanged_tracked now adp newParent
        rw [htracked]
        exact h
      simpa [outcomeEvents, engineStep] using hkept
  | recommend currentClass =>
      have hkept : Outcomes (hymrplAdaptiveGetRecommendation adp currentClass).1 history := by
        have ⟨_, _, hpoll⟩ := hymrplAdaptiveGetRecommendation_metrics adp currentClass
        rw [hpoll]
        exact h
      simpa [outcomeEvents, engineStep] using hkept

theorem Outcomes.run (h : Outcomes adp history) (es : List EngineEvent) :
    Outcomes (engine.run adp es) (history ++ outcomeEvents es) := by
  induction es generalizing adp history with
  | nil => simpa [outcomeEvents, Machine.run] using h
  | cons e es ih =>
      have hrun := ih (h.step e)
      rwa [List.append_assoc, ← outcomeEvents_append] at hrun

end Samples

/-- Only polls touch the hysteresis counter. -/
theorem hysteresis_engineStep (adp : HymrplAdaptive) {e : EngineEvent}
    (h : ∀ currentClass, e ≠ .recommend currentClass) :
    (engineStep adp e).hysteresisCounter = adp.hysteresisCounter ∧
      (engineStep adp e).pendingClass = adp.pendingClass := by
  cases e with
  | eval now energy => exact ⟨rfl, rfl⟩
  | recordDao success =>
      obtain ⟨_, _, _, _, htracked⟩ := hymrplAdaptiveRecordDao_tracked adp success
      rw [engineStep, htracked]
      exact ⟨rfl, rfl⟩
  | parentChanged now newParent =>
      obtain ⟨_, _, _, htracked⟩ := hymrplAdaptiveParentChanged_tracked now adp newParent
      rw [engineStep, htracked]
      exact ⟨rfl, rfl⟩
  | recommend currentClass => exact absurd rfl (h currentClass)

section Changes

/-- The times of the parent changes that the engine keeps. -/
def HymrplAdaptive.changeTimes (adp : HymrplAdaptive) : List ℚ :=
  adp.parentChangeTimes.toList.take adp.parentChangeCount

/-- The engine keeps the latest four times of the history. -/
def Changes (adp : HymrplAdaptive) (history : List ℚ) : Prop :=
  adp.parentChangeCount ≤ hymrplStabilityNmax + 1 ∧
    adp.changeTimes = history.rtake (hymrplStabilityNmax + 1)

theorem changes_init : Changes hymrplAdaptiveInit [] := by
  constructor
  · decide
  · simp [HymrplAdaptive.changeTimes, hymrplAdaptiveInit]

variable {adp : HymrplAdaptive} {history : List ℚ}

theorem toList_drop_one {α : Type*} (v : Vector α 4) :
    v.toList.drop 1 = [v[1], v[2], v[3]] := by
  apply List.ext_getElem
  · simp
  · intro i hi hi'
    match i, hi' with
    | 0, _ => simp
    | 1, _ => simp
    | 2, _ => simp

theorem Changes.length (h : Changes adp history) :
    (history.rtake (hymrplStabilityNmax + 1)).length = adp.parentChangeCount := by
  have hcount := h.1
  rw [← h.2, HymrplAdaptive.changeTimes, List.length_take, Vector.length_toList]
  omega

theorem Changes.parentChanged (h : Changes adp history) (now : ℚ)
    (newParent : Option In6Addr) :
    Changes (hymrplAdaptiveParentChanged now adp newParent) (history ++ [now]) := by
  have hlength := h.length
  have hhistory := h.2
  by_cases hroom : adp.parentChangeCount < hymrplStabilityNmax + 1
  · -- There is room, so the history has no more than three times.
    have hshort : history.length = adp.parentChangeCount := by
      rw [List.rtake, List.length_drop] at hlength
      omega
    rw [Recent.rtake_of_length_le (by omega)] at hhistory
    constructor
    · simp only [hymrplAdaptiveParentChanged, hroom, if_true]
      omega
    · rw [Recent.rtake_of_length_le (by simp; omega), ← hhistory]
      simp [hymrplAdaptiveParentChanged, hroom, HymrplAdaptive.changeTimes,
        List.take_add_one, List.take_set_of_le]
  · have hfull : adp.parentChangeCount = hymrplStabilityNmax + 1 := by
      have := h.1
      omega
    constructor
    · simp [hymrplAdaptiveParentChanged, hfull]
    · -- The oldest of the four times goes out.
      have hlong : hymrplStabilityNmax + 1 ≤ history.length := by
        rw [hfull, List.rtake, List.length_drop] at hlength
        omega
      rw [List.rtake_concat_succ, Recent.rtake_eq_drop_one hlong, ← hhistory]
      simp only [HymrplAdaptive.changeTimes, hymrplAdaptiveParentChanged, hfull, lt_irrefl,
        if_false]
      rw [List.take_of_length_le (by simp), List.take_of_length_le (by simp), toList_drop_one]
      rfl

/-- The times of the parent changes among some events. -/
def parentChangeEvents (es : List EngineEvent) : List ℚ :=
  es.filterMap fun
    | .parentChanged now _ => some now
    | _ => none

theorem parentChangeEvents_cons (e : EngineEvent) (es : List EngineEvent) :
    parentChangeEvents (e :: es) = parentChangeEvents [e] ++ parentChangeEvents es :=
  List.filterMap_append (l := [e])

/-- An event adds its parent change, if it is one, to the history. -/
theorem Changes.step (h : Changes adp history) (e : EngineEvent) :
    Changes (engineStep adp e) (history ++ parentChangeEvents [e]) := by
  cases e with
  | eval now energy =>
      have hkept : Changes (adaptiveEvalCb now energy adp) history := h
      simpa [parentChangeEvents, engineStep] using hkept
  | recordDao success =>
      have hkept : Changes (hymrplAdaptiveRecordDao adp success) history := by
        obtain ⟨_, _, _, _, htracked⟩ := hymrplAdaptiveRecordDao_tracked adp success
        rw [htracked]
        exact h
      simpa [parentChangeEvents, engineStep] using hkept
  | parentChanged now newParent => exact h.parentChanged now newParent
  | recommend currentClass =>
      have hkept : Changes (hymrplAdaptiveGetRecommendation adp currentClass).1 history := by
        have ⟨_, _, hpoll⟩ := hymrplAdaptiveGetRecommendation_metrics adp currentClass
        rw [hpoll]
        exact h
      simpa [parentChangeEvents, engineStep] using hkept

/-- The history of a run is its parent changes. -/
theorem Changes.run (h : Changes adp history) (es : List EngineEvent) :
    Changes (engine.run adp es) (history ++ parentChangeEvents es) := by
  induction es generalizing adp history with
  | nil => simpa [parentChangeEvents, Machine.run] using h
  | cons e es ih =>
      rw [parentChangeEvents_cons, ← List.append_assoc]
      exact ih (h.step e)

/-- How many of the times lie in the stability window. -/
def changesInWindow (now : ℚ) (times : List ℚ) : ℕ :=
  times.countP fun time => decide (now - hymrplStabilityWindow ≤ time)

theorem sStab_computeStability (now : ℚ) (adp : HymrplAdaptive) :
    (computeStability now adp).sStab =
      1 - min (1 : ℚ) (changesInWindow now adp.changeTimes / hymrplStabilityNmax) := by
  have hclip : ∀ x : ℚ, (if 1 < x then 1 else x) = min 1 x := by
    intro x
    split_ifs with hx
    · exact (min_eq_left hx.le).symm
    · exact (min_eq_right (not_lt.mp hx)).symm
  simp only [computeStability, hclip]
  rfl

/-- `compute_stability` in terms of the whole history. The four times are enough,
since three changes in the window already use up the stability. -/
theorem Changes.sStab (h : Changes adp history) (hrise : history.Pairwise (· ≤ ·)) (now : ℚ) :
    (computeStability now adp).sStab =
      1 - min (1 : ℚ) (changesInWindow now history / hymrplStabilityNmax) := by
  have hcount : changesInWindow now adp.changeTimes =
      min (hymrplStabilityNmax + 1) (changesInWindow now history) := by
    rw [h.2]
    exact Recent.countP_le_rtake _ hrise _
  rw [sStab_computeStability, hcount]
  rcases le_total (changesInWindow now history) (hymrplStabilityNmax + 1) with hn | hn
  · rw [min_eq_right hn]
  · have hn' : (4 : ℚ) ≤ changesInWindow now history := by exact_mod_cast hn
    rw [min_eq_left hn, min_eq_left, min_eq_left]
    · rw [le_div_iff₀ (by norm_num)]
      push_cast
      linarith
    · norm_num

end Changes

end HyMRPL
