import HyMRPL.Adaptive.DeliveryWindow

/-!
# Normalised scores

The header promises that all the metrics are normalised to [0, 1]. The delivery ratio and
the stability always are. The energy is as long as the numbers that `read_energy` returns
are percentages; nothing in the code makes them so, and the average takes a larger or a
smaller number as far as the state leaves room for it.
-/

namespace HyMRPL

open Transition

/-- The three components and the score lie in [0, 1]. -/
structure Normalised (adp : HymrplAdaptive) : Prop where
  pdr_mem : adp.pdr / 100 ∈ Set.Icc 0 1
  ema_mem : adp.energyEma ∈ Set.Icc 0 1
  sStab_mem : adp.sStab ∈ Set.Icc 0 1
  score_mem : adp.lastScore ∈ Set.Icc 0 1

/-- An evaluation leaves everything normalised. -/
def NormalisedAfter (adp : HymrplAdaptive) : EngineEvent → Prop
  | .eval now energy => Normalised (adaptiveEvalCb now energy adp)
  | _ => True

/-- By how many percent a reading may leave the percentages where the average leaves room
for one whole unit. -/
def emaRoom : ℚ := (1 - hymrplEnergyEmaAlpha) / hymrplEnergyEmaAlpha * 100

/-- The reading of an evaluation exceeds 100 by no more than the average has room for up to
1, and falls below 0 by no more than it has room for down to 0. -/
def ReadingInRange (adp : HymrplAdaptive) : EngineEvent → Prop
  | .eval _ energy =>
    energy ∈ Set.Icc (-(emaRoom * adp.energyEma)) (100 + emaRoom * (1 - adp.energyEma))
  | _ => True

/-- The energy of every evaluation is a percentage. -/
def PercentReading (_ : HymrplAdaptive) : EngineEvent → Prop
  | .eval _ energy => energy ∈ Set.Icc 0 100
  | _ => True

variable {adp : HymrplAdaptive}

theorem normalised_init : Normalised hymrplAdaptiveInit := by
  constructor <;> norm_num [hymrplAdaptiveInit]

/-- The average stays in [0, 1] if and only if the reading is in range. -/
theorem ema_mem_iff (ema energy : ℚ) :
    hymrplEnergyEmaAlpha * (energy / 100) + (1 - hymrplEnergyEmaAlpha) * ema ∈ Set.Icc 0 1 ↔
      energy ∈ Set.Icc (-(emaRoom * ema)) (100 + emaRoom * (1 - ema)) := by
  simp only [Set.mem_Icc, emaRoom, hymrplEnergyEmaAlpha]
  constructor <;> rintro ⟨hlow, hhigh⟩ <;> constructor <;> linarith

theorem HymrplAdaptive.score_mem (hpdr : adp.pdr / 100 ∈ Set.Icc 0 1)
    (hema : adp.energyEma ∈ Set.Icc 0 1) (hstab : adp.sStab ∈ Set.Icc 0 1) :
    adp.score ∈ Set.Icc 0 1 := by
  obtain ⟨hpdr0, hpdr1⟩ := hpdr
  obtain ⟨hema0, hema1⟩ := hema
  obtain ⟨hstab0, hstab1⟩ := hstab
  simp only [HymrplAdaptive.score, hymrplWPdr, hymrplWEnergy, hymrplWStability, Set.mem_Icc]
  constructor <;> linarith

/-- The window has no more successes than outcomes. -/
theorem deliveryRatio_mem (adp : HymrplAdaptive) : adp.deliveryRatio / 100 ∈ Set.Icc 0 1 := by
  by_cases hzero : adp.pdrCount = 0
  · simp [HymrplAdaptive.deliveryRatio, hzero]
  · have hlength : adp.samples.length = min adp.pdrCount hymrplPdrWindow := by
      rw [HymrplAdaptive.samples, List.length_take, Vector.length_toList]
    have hsuccesses : adp.samples.countP id ≤ min adp.pdrCount hymrplPdrWindow :=
      hlength ▸ List.countP_le_length
    rw [HymrplAdaptive.deliveryRatio, if_neg hzero, mul_div_cancel_right₀ _ (by norm_num)]
    constructor
    · exact div_nonneg (Nat.cast_nonneg _) (Nat.cast_nonneg _)
    · exact div_le_one_of_le₀ (Nat.cast_le.mpr hsuccesses) (Nat.cast_nonneg _)

theorem computeStability_sStab_mem (now : ℚ) (adp : HymrplAdaptive) :
    (computeStability now adp).sStab ∈ Set.Icc 0 1 := by
  have hnonneg : (0 : ℚ) ≤ changesInWindow now adp.changeTimes / hymrplStabilityNmax :=
    div_nonneg (Nat.cast_nonneg _) (Nat.cast_nonneg _)
  rw [sStab_computeStability, Set.mem_Icc, sub_nonneg, sub_le_self_iff]
  exact ⟨min_le_left _ _, le_min zero_le_one hnonneg⟩

/-- An evaluation keeps everything normalised if and only if its reading is in range. -/
theorem Normalised.eval_iff (h : Normalised adp) (now energy : ℚ) :
    Normalised (adaptiveEvalCb now energy adp) ↔
      energy ∈ Set.Icc (-(emaRoom * adp.energyEma)) (100 + emaRoom * (1 - adp.energyEma)) := by
  rw [← ema_mem_iff]
  constructor
  · intro hnext
    exact hnext.ema_mem
  · intro hema
    let refreshed := adaptiveRefresh now energy adp
    have hstab : refreshed.sStab ∈ Set.Icc 0 1 := computeStability_sStab_mem now _
    have hscore : refreshed.score ∈ Set.Icc 0 1 := HymrplAdaptive.score_mem h.pdr_mem hema hstab
    exact ⟨h.pdr_mem, hema, hstab, hscore⟩

theorem Normalised.recordDao (h : Normalised adp) (success : Bool) :
    Normalised (hymrplAdaptiveRecordDao adp success) := by
  rw [hymrplAdaptiveRecordDao, computePdr_eq]
  exact ⟨deliveryRatio_mem _, h.ema_mem, h.sStab_mem, h.score_mem⟩

theorem Normalised.parentChanged (h : Normalised adp) (now : ℚ)
    (newParent : Option In6Addr) : Normalised (hymrplAdaptiveParentChanged now adp newParent) := by
  obtain ⟨_, _, _, htracked⟩ := hymrplAdaptiveParentChanged_tracked now adp newParent
  rw [htracked]
  exact ⟨h.pdr_mem, h.ema_mem, h.sStab_mem, h.score_mem⟩

/-- A poll stores the score of the components as they are. -/
theorem Normalised.recommend (h : Normalised adp) (currentClass : NodeClass) :
    Normalised (hymrplAdaptiveGetRecommendation adp currentClass).1 := by
  have hscore := HymrplAdaptive.score_mem h.pdr_mem h.ema_mem h.sStab_mem
  have ⟨_, _, hpoll⟩ := hymrplAdaptiveGetRecommendation_metrics adp currentClass
  rw [hpoll]
  exact ⟨h.pdr_mem, h.ema_mem, h.sStab_mem, hscore⟩

/-- The step lemma: readings in range keep everything normalised. -/
theorem Normalised.next (h : Normalised adp) {e : EngineEvent} (hrange : ReadingInRange adp e) :
    Normalised (engine.next adp e) := by
  cases e with
  | eval now energy => exact (h.eval_iff now energy).mpr hrange
  | recordDao success => exact h.recordDao success
  | parentChanged now newParent => exact h.parentChanged now newParent
  | recommend currentClass => exact h.recommend currentClass

theorem Normalised.after_iff (h : Normalised adp) (e : EngineEvent) :
    NormalisedAfter adp e ↔ ReadingInRange adp e := by
  cases e with
  | eval now energy => exact h.eval_iff now energy
  | recordDao success => exact Iff.rfl
  | parentChanged now newParent => exact Iff.rfl
  | recommend currentClass => exact Iff.rfl

/-- Percentages are in range. -/
theorem Normalised.inRange_of_percent (h : Normalised adp) {e : EngineEvent}
    (hpercent : PercentReading adp e) : ReadingInRange adp e := by
  cases e with
  | eval now energy =>
      have ⟨hlow, hhigh⟩ := hpercent
      have ⟨hema0, hema1⟩ := h.ema_mem
      simp only [ReadingInRange, emaRoom, hymrplEnergyEmaAlpha, Set.mem_Icc]
      constructor <;> linarith
  | recordDao success => trivial
  | parentChanged now newParent => trivial
  | recommend currentClass => trivial

/-- Every evaluation of a run leaves the scores normalised if and only if every reading is
in the range that the average leaves for it. -/
theorem normalised_iff_inRange (es : List EngineEvent) :
    engine.Steps NormalisedAfter hymrplAdaptiveInit es ↔
      engine.Steps ReadingInRange hymrplAdaptiveInit es :=
  Machine.steps_iff_of_invariant (fun _ e h => h.after_iff e) (fun _ _ h hrange => h.next hrange)
    normalised_init es

/-- In particular they stay normalised while the readings are percentages. -/
theorem normalised_of_percent {es : List EngineEvent}
    (h : engine.Steps PercentReading hymrplAdaptiveInit es) :
    engine.Steps NormalisedAfter hymrplAdaptiveInit es := by
  apply Machine.steps_of_invariant (I := Normalised) _ normalised_init h
  intro adp e hnormal hpercent
  have hrange := hnormal.inRange_of_percent hpercent
  exact ⟨(hnormal.after_iff e).mpr hrange, hnormal.next hrange⟩

/-- A battery file that says 400 takes the average above 1 at once. -/
theorem battery400_not_normalised :
    (adaptiveEvalCb 5 (readEnergy (some (some 400)) none) hymrplAdaptiveInit).energyEma = 19 / 10 ∧
      ¬ ∀ es, engine.Steps NormalisedAfter hymrplAdaptiveInit es := by
  constructor
  · decide +kernel
  · intro h
    have hnormal := (h [.eval 5 (readEnergy (some (some 400)) none)]).1
    exact absurd hnormal.ema_mem (by decide +kernel)

end HyMRPL
