import HyMRPL.Fifo.Verify
import HyMRPL.Foundation.Machine
import Mathlib.Tactic.Linarith

/-!
# The monitor

`decide_profile` of `hymrpl_monitor.py`, with rationals for its floats, and the loop of
`main` that calls it. The reason that it returns is the data of its text.
-/

namespace HyMRPL

open Transition

/-- The other class. -/
def NodeClass.other : NodeClass → NodeClass
  | .classS => .classN
  | .classN => .classS

theorem NodeClass.other_ne (nodeClass : NodeClass) : nodeClass.other ≠ nodeClass := by
  cases nodeClass <;> decide

namespace Monitor

/-- `CPU_THRESHOLD_HIGH` -/
def cpuThresholdHigh : ℚ := 70

/-- `CPU_THRESHOLD_LOW` -/
def cpuThresholdLow : ℚ := 40

/-- `MEM_THRESHOLD_LOW` -/
def memThresholdLow : ℚ := 20

/-- `BATTERY_THRESHOLD_LOW` -/
def batteryThresholdLow : ℚ := 20

/-- `BATTERY_THRESHOLD_HIGH` -/
def batteryThresholdHigh : ℚ := 50

/-- `HYSTERESIS_CYCLES` -/
def hysteresisCycles : ℕ := 3

/-- The metrics that `main` collects in one cycle. -/
structure Reading where
  cpuPct : ℚ
  memMb : ℚ
  batteryPct : ℚ
  deriving DecidableEq

/-- The reason that `decide_profile` returns for the log. -/
inductive Reason
  | stable
  | cpuHigh (cpuPct : ℚ)
  | memLow (memMb : ℚ)
  | batteryLow (batteryPct : ℚ)
  | pendingN (counter : ℕ)
  | pendingS (counter : ℕ)
  | resourcesRecovered
  deriving DecidableEq

/-- Whether a reading suggests Class N, and why. -/
def suggestion (r : Reading) : Bool × Reason :=
  if cpuThresholdHigh < r.cpuPct then (true, .cpuHigh r.cpuPct)
  else if r.memMb < memThresholdLow then (true, .memLow r.memMb)
  else if r.batteryPct < batteryThresholdLow then (true, .batteryLow r.batteryPct)
  else (false, .stable)

/-- `decide_profile`. -/
def decideProfile (r : Reading) (currentClass : NodeClass) (counter : ℕ) :
    NodeClass × ℕ × Reason :=
  let (suggestN, reason) := suggestion r
  if suggestN ∧ currentClass = .classS then
    let counter := counter + 1
    if hysteresisCycles ≤ counter then (.classN, 0, reason)
    else (.classS, counter, .pendingN counter)
  else if ¬ suggestN ∧ currentClass = .classN ∧ r.cpuPct < cpuThresholdLow ∧
      memThresholdLow * 2 < r.memMb ∧ batteryThresholdHigh < r.batteryPct then
    let counter := counter + 1
    if hysteresisCycles ≤ counter then (.classS, 0, .resourcesRecovered)
    else (.classN, counter, .pendingS counter)
  else
    -- No change; a reading that suggests Class N leaves the counter alone.
    (currentClass, if ¬ suggestN then 0 else counter, reason)

namespace Reading

/-- The overload condition, which suggests Class N. -/
def Overloaded (r : Reading) : Prop :=
  cpuThresholdHigh < r.cpuPct ∨ r.memMb < memThresholdLow ∨ r.batteryPct < batteryThresholdLow

/-- The comfortable condition, which suggests Class S. -/
def Comfortable (r : Reading) : Prop :=
  r.cpuPct < cpuThresholdLow ∧ memThresholdLow * 2 < r.memMb ∧ batteryThresholdHigh < r.batteryPct

instance (r : Reading) : Decidable r.Overloaded := inferInstanceAs (Decidable (_ ∨ _ ∨ _))

instance (r : Reading) : Decidable r.Comfortable := inferInstanceAs (Decidable (_ ∧ _ ∧ _))

/-- A reading favours the other class by the condition for the switch from `currentClass`. -/
def FavoursChange (r : Reading) : NodeClass → Prop
  | .classS => r.Overloaded
  | .classN => r.Comfortable

instance (r : Reading) : ∀ currentClass, Decidable (r.FavoursChange currentClass)
  | .classS => inferInstanceAs (Decidable r.Overloaded)
  | .classN => inferInstanceAs (Decidable r.Comfortable)

theorem Comfortable.not_overloaded {r : Reading} (h : r.Comfortable) : ¬ r.Overloaded := by
  obtain ⟨hcpu, hmem, hbattery⟩ := h
  simp only [Overloaded, cpuThresholdLow, cpuThresholdHigh, memThresholdLow,
    batteryThresholdLow, batteryThresholdHigh] at *
  rintro (hhigh | hlow | hlow) <;> linarith

end Reading

section Decision

variable {r : Reading} {currentClass : NodeClass}

theorem suggestion_fst (r : Reading) : (suggestion r).1 = decide r.Overloaded := by
  simp only [suggestion, Reading.Overloaded]
  split_ifs with hcpu hmem hbattery <;> simp [*]

/-- A reading that favours the change is counted, and the third one makes it. -/
theorem decideProfile_of_favoursChange (h : r.FavoursChange currentClass) (counter : ℕ) :
    ∃ reason, decideProfile r currentClass counter =
      if hysteresisCycles ≤ counter + 1 then (currentClass.other, 0, reason)
      else (currentClass, counter + 1, reason) := by
  cases currentClass with
  | classS =>
      have hover : r.Overloaded := h
      refine ⟨if hysteresisCycles ≤ counter + 1 then (suggestion r).2
        else .pendingN (counter + 1), ?_⟩
      simp only [decideProfile, suggestion_fst, hover, decide_true, and_self, if_true,
        NodeClass.other]
      split_ifs <;> rfl
  | classN =>
      have hcalm := Reading.Comfortable.not_overloaded h
      obtain ⟨hcpu, hmem, hbattery⟩ := h
      refine ⟨if hysteresisCycles ≤ counter + 1 then .resourcesRecovered
        else .pendingS (counter + 1), ?_⟩
      simp only [decideProfile, suggestion_fst, hcalm, hcpu, hmem, hbattery, decide_false,
        Bool.false_eq_true, false_and, not_false_eq_true, and_self, if_true, if_false,
        NodeClass.other]
      split_ifs <;> rfl

/-- Another reading changes nothing, and an overloaded one does not reset the counter. -/
theorem decideProfile_of_not_favoursChange (h : ¬ r.FavoursChange currentClass) (counter : ℕ) :
    ∃ reason, decideProfile r currentClass counter =
      (currentClass, if r.Overloaded then counter else 0, reason) := by
  refine ⟨(suggestion r).2, ?_⟩
  cases currentClass with
  | classS =>
      have hcalm : ¬ r.Overloaded := h
      simp [decideProfile, suggestion_fst, hcalm]
  | classN =>
      have hcomfort : ¬ (r.cpuPct < cpuThresholdLow ∧ memThresholdLow * 2 < r.memMb ∧
          batteryThresholdHigh < r.batteryPct) := h
      simp only [decideProfile, suggestion_fst, hcomfort]
      simp

end Decision

/-- The variables of `main`, and the readings so far with the class in which each was
made, the latest first. -/
structure State where
  currentClass : NodeClass
  counter : ℕ
  history : List (NodeClass × Reading)

/-- `main` before its first cycle. -/
def start (initialClass : NodeClass) : State := ⟨initialClass, 0, []⟩

/-- The cycles of `main`, with what `write_fifo` writes in each. -/
def machine : Machine State Reading (Option (List UInt8)) where
  enabled _ _ := True
  next s r :=
    let (newClass, counter, _) := decideProfile r s.currentClass s.counter
    ⟨newClass, counter, (s.currentClass, r) :: s.history⟩
  out s r :=
    let (newClass, _, _) := decideProfile r s.currentClass s.counter
    if newClass ≠ s.currentClass then some (classText newClass ++ [0x0a]) else none

end Monitor

end HyMRPL
