import HyMRPL.Adaptive.Run
import HyMRPL.Foundation.Pointwise

/-!
# Healthier histories

Two runs of the engine over one schedule are compared: in the healthier one every DAO
outcome that was a success is a success, the energy readings are at least as high, and
the changes of the parent are some of those of the other run. Then every decision has
at least the score of the other run.

Each filter is monotone by itself: the window of the outcomes slot by slot, the
average of the energy reading by reading, and the times of the parent changes because
the latest four of a history tell how many changes it has in the stability window, as
far as that matters.
-/

namespace HyMRPL

/-- The events of two runs over one schedule, of which the first is the healthier. -/
inductive Healthier : List EngineEvent → List EngineEvent → Prop
  | nil : Healthier [] []
  | eval {as bs : List EngineEvent} (now : ℚ) {energyA energyB : ℚ} :
      energyB ≤ energyA → Healthier as bs →
        Healthier (.eval now energyA :: as) (.eval now energyB :: bs)
  | recordDao {as bs : List EngineEvent} {successA successB : Bool} :
      (successB = true → successA = true) → Healthier as bs →
        Healthier (.recordDao successA :: as) (.recordDao successB :: bs)
  | parentChanged {as bs : List EngineEvent} (now : ℚ) (newParentA newParentB : Option In6Addr) :
      Healthier as bs →
        Healthier (.parentChanged now newParentA :: as) (.parentChanged now newParentB :: bs)
  | parentKept {as bs : List EngineEvent} (now : ℚ) (newParent : Option In6Addr) :
      Healthier as bs → Healthier as (.parentChanged now newParent :: bs)
  | recommend {as bs : List EngineEvent} (currentClassA currentClassB : NodeClass) :
      Healthier as bs →
        Healthier (.recommend currentClassA :: as) (.recommend currentClassB :: bs)

/-- The metrics of the first engine are at least those of the second. -/
structure HealthierState (a b : HymrplAdaptive) : Prop where
  pdr_le : b.pdr ≤ a.pdr
  ema_le : b.energyEma ≤ a.energyEma
  sStab_le : b.sStab ≤ a.sStab
  idx_eq : a.pdrIdx = b.pdrIdx
  count_eq : a.pdrCount = b.pdrCount
  window : List.Forall₂ (fun x y => y = true → x = true) a.pdrWindow.toList b.pdrWindow.toList

/-- The histories of the parent changes of two engines, the second of which has them
all. -/
structure HealthierChanges (a b : HymrplAdaptive) (changesA changesB : List ℚ) : Prop where
  keptA : Changes a changesA
  keptB : Changes b changesB
  sublist : changesA.Sublist changesB

/-- An event of either run, where the second run changes its parent if the first does. -/
theorem HealthierChanges.step {a b : HymrplAdaptive} {changesA changesB : List ℚ}
    (h : HealthierChanges a b changesA changesB) (eA eB : EngineEvent)
    (hsub : (parentChangeEvents [eA]).Sublist (parentChangeEvents [eB])) :
    HealthierChanges (engineStep a eA) (engineStep b eB) (changesA ++ parentChangeEvents [eA])
      (changesB ++ parentChangeEvents [eB]) :=
  ⟨h.keptA.step eA, h.keptB.step eB, h.sublist.append hsub⟩

theorem countP_le_of_forall₂ {l l' : List Bool}
    (h : List.Forall₂ (fun x y => y = true → x = true) l l') :
    l'.countP id ≤ l.countP id := by
  induction h with
  | nil => exact le_refl 0
  | @cons x y l l' hhead _ ih =>
      cases y with
      | false =>
          rw [List.countP_cons_of_neg (by simp), List.countP_cons]
          exact ih.trans (Nat.le_add_right _ _)
      | true =>
          obtain rfl : x = true := hhead rfl
          simpa using ih

variable {a b : HymrplAdaptive} {changesA changesB : List ℚ}

namespace HealthierState

theorem init : HealthierState hymrplAdaptiveInit hymrplAdaptiveInit :=
  ⟨le_refl _, le_refl _, le_refl _, rfl, rfl, List.forall₂_same.mpr fun _ _ h => h⟩

theorem score_le (h : HealthierState a b) : b.score ≤ a.score := by
  have hpdr := h.pdr_le
  have hema := h.ema_le
  have hstab := h.sStab_le
  simp only [HymrplAdaptive.score, hymrplWPdr, hymrplWEnergy, hymrplWStability]
  linarith

theorem pdr_computePdr_le (hcount : a.pdrCount = b.pdrCount)
    (hwindow : List.Forall₂ (fun x y => y = true → x = true) a.pdrWindow.toList
      b.pdrWindow.toList) :
    (computePdr b).pdr ≤ (computePdr a).pdr := by
  have hsamples : b.samples.countP id ≤ a.samples.countP id := by
    rw [HymrplAdaptive.samples, HymrplAdaptive.samples, hcount]
    exact countP_le_of_forall₂ (List.forall₂_take _ hwindow)
  rw [computePdr_eq, computePdr_eq, hcount]
  by_cases hzero : b.pdrCount = 0
  · simp [hzero]
  · simp only [hzero, if_false]
    gcongr

/-- An evaluation at the same time. -/
theorem refresh (h : HealthierState a b) (hchanges : HealthierChanges a b changesA changesB)
    (hrise : changesB.Pairwise (· ≤ ·)) (now : ℚ) {energyA energyB : ℚ}
    (henergy : energyB ≤ energyA) :
    HealthierState (adaptiveRefresh now energyA a) (adaptiveRefresh now energyB b) := by
  constructor
  case pdr_le => exact h.pdr_le
  case ema_le =>
    have hema := h.ema_le
    simp only [adaptiveRefresh, computeStability, hymrplEnergyEmaAlpha]
    linarith
  case sStab_le =>
    have hcount : changesInWindow now changesA ≤ changesInWindow now changesB :=
      hchanges.sublist.countP_le
    calc (computeStability now b).sStab
        = 1 - min (1 : ℚ) (changesInWindow now changesB / hymrplStabilityNmax) :=
          hchanges.keptB.sStab hrise now
      _ ≤ 1 - min (1 : ℚ) (changesInWindow now changesA / hymrplStabilityNmax) := by gcongr
      _ = (computeStability now a).sStab :=
          (hchanges.keptA.sStab (hrise.sublist hchanges.sublist) now).symm
  case idx_eq => exact h.idx_eq
  case count_eq => exact h.count_eq
  case window => exact h.window

/-- An outcome that is a success in the first run if it is one in the second. -/
theorem recordDao (h : HealthierState a b) {successA successB : Bool}
    (hsuccess : successB = true → successA = true) :
    HealthierState (hymrplAdaptiveRecordDao a successA) (hymrplAdaptiveRecordDao b successB) := by
  have hwindow := Pointwise.forall₂_set h.window hsuccess b.pdrIdx
  simp only [hymrplAdaptiveRecordDao, h.idx_eq, h.count_eq]
  constructor
  case pdr_le =>
    apply pdr_computePdr_le
    · rfl
    · simpa using hwindow
  case ema_le => simpa [computePdr_eq] using h.ema_le
  case sStab_le => simpa [computePdr_eq] using h.sStab_le
  case idx_eq => simp [computePdr_eq]
  case count_eq => simp [computePdr_eq]
  case window => simpa [computePdr_eq] using hwindow

/-- The score is not a metric. -/
theorem decide (h : HealthierState a b) :
    HealthierState (adaptiveDecide a).1 (adaptiveDecide b).1 :=
  ⟨h.pdr_le, h.ema_le, h.sStab_le, h.idx_eq, h.count_eq, h.window⟩

/-- Changes of the parent do not touch the metrics. -/
theorem parentChanged_left (h : HealthierState a b) (now : ℚ) (newParent : Option In6Addr) :
    HealthierState (hymrplAdaptiveParentChanged now a newParent) b := by
  obtain ⟨_, _, _, htracked⟩ := hymrplAdaptiveParentChanged_tracked now a newParent
  rw [htracked]
  exact ⟨h.pdr_le, h.ema_le, h.sStab_le, h.idx_eq, h.count_eq, h.window⟩

theorem parentChanged_right (h : HealthierState a b) (now : ℚ) (newParent : Option In6Addr) :
    HealthierState a (hymrplAdaptiveParentChanged now b newParent) := by
  obtain ⟨_, _, _, htracked⟩ := hymrplAdaptiveParentChanged_tracked now b newParent
  rw [htracked]
  exact ⟨h.pdr_le, h.ema_le, h.sStab_le, h.idx_eq, h.count_eq, h.window⟩

/-- Nor do polls, whatever the current classes are. -/
theorem recommend (h : HealthierState a b) (currentClassA currentClassB : NodeClass) :
    HealthierState (hymrplAdaptiveGetRecommendation a currentClassA).1
      (hymrplAdaptiveGetRecommendation b currentClassB).1 := by
  have ⟨_, _, hA⟩ := hymrplAdaptiveGetRecommendation_metrics a currentClassA
  have ⟨_, _, hB⟩ := hymrplAdaptiveGetRecommendation_metrics b currentClassB
  rw [hA, hB]
  exact ⟨h.pdr_le, h.ema_le, h.sStab_le, h.idx_eq, h.count_eq, h.window⟩

end HealthierState

/-- The first decision has at least the score of the second, so it is Class S where the
second one is. -/
def Above (decisionA decisionB : ℚ × NodeClass) : Prop :=
  decisionB.1 ≤ decisionA.1 ∧ (decisionB.2 = .classS → decisionA.2 = .classS)

theorem HealthierState.above (h : HealthierState a b) :
    Above (a.score, classOfScore a.score) (b.score, classOfScore b.score) :=
  ⟨h.score_le, classOfScore_mono h.score_le⟩

/-- The induction over the schedule. The parent changes of the second run that were
recorded and those to come are in the order of the clock. -/
theorem Healthier.above {as bs : List EngineEvent} (h : Healthier as bs)
    (hstate : HealthierState a b) (hchanges : HealthierChanges a b changesA changesB)
    (hrise : (changesB ++ parentChangeEvents bs).Pairwise (· ≤ ·)) :
    List.Forall₂ Above (decisions a as) (decisions b bs) := by
  induction h generalizing a b changesA changesB with
  | nil => exact List.Forall₂.nil
  | eval now henergy _ ih =>
      have hrefresh :=
        hstate.refresh hchanges (List.pairwise_append.mp hrise).1 now henergy
      rw [parentChangeEvents_cons, ← List.append_assoc] at hrise
      rw [decisions_cons_of_some rfl, decisions_cons_of_some rfl]
      apply List.Forall₂.cons hrefresh.above
      exact ih hrefresh.decide (hchanges.step _ _ (List.Sublist.refl _)) hrise
  | recordDao hsuccess _ ih =>
      rw [parentChangeEvents_cons, ← List.append_assoc] at hrise
      rw [decisions_cons_of_none rfl, decisions_cons_of_none rfl]
      exact ih (hstate.recordDao hsuccess) (hchanges.step _ _ (List.Sublist.refl _)) hrise
  | parentChanged now newParentA newParentB _ ih =>
      rw [parentChangeEvents_cons, ← List.append_assoc] at hrise
      rw [decisions_cons_of_none rfl, decisions_cons_of_none rfl]
      exact ih ((hstate.parentChanged_left now newParentA).parentChanged_right now newParentB)
        (hchanges.step _ _ (List.Sublist.refl _)) hrise
  | parentKept now newParent _ ih =>
      rw [parentChangeEvents_cons, ← List.append_assoc] at hrise
      rw [decisions_cons_of_none rfl]
      have hsub : changesA.Sublist
          (changesB ++ parentChangeEvents [.parentChanged now newParent]) :=
        hchanges.sublist.trans (List.sublist_append_left _ _)
      exact ih (hstate.parentChanged_right now newParent)
        ⟨hchanges.keptA, hchanges.keptB.step _, hsub⟩ hrise
  | recommend currentClassA currentClassB _ ih =>
      rw [parentChangeEvents_cons, ← List.append_assoc] at hrise
      rw [decisions_cons_of_some (engineDecision_recommend _ _),
        decisions_cons_of_some (engineDecision_recommend _ _)]
      apply List.Forall₂.cons hstate.above
      exact ih (hstate.recommend currentClassA currentClassB)
        (hchanges.step _ _ (List.Sublist.refl _)) hrise

/-- Healthier histories never score lower. It is enough that the clock of the parent
changes does not run backwards. -/
theorem healthier_scores {as bs : List EngineEvent} (h : Healthier as bs)
    (hclock : (parentChangeEvents bs).Pairwise (· ≤ ·)) :
    List.Forall₂ Above (decisions hymrplAdaptiveInit as) (decisions hymrplAdaptiveInit bs) := by
  apply h.above HealthierState.init ⟨changes_init, changes_init, List.Sublist.refl []⟩
  simpa using hclock

/-- A node that keeps its parent and is acknowledged. -/
def goodHistory : List EngineEvent :=
  [.recordDao true, .eval 5 100, .recommend .classS]

/-- The same schedule with two changes of the parent, a failure and less energy. -/
def poorHistory : List EngineEvent :=
  [.recordDao false, .parentChanged 1 none, .parentChanged 2 none, .eval 5 50,
    .recommend .classN]

/-- The first node is of Class S in both decisions, and the second of Class N. -/
theorem goodHistory_scores :
    (decisions hymrplAdaptiveInit goodHistory).map Prod.snd = [.classS, .classS] ∧
      (decisions hymrplAdaptiveInit poorHistory).map Prod.snd = [.classN, .classN] ∧
      List.Forall₂ Above (decisions hymrplAdaptiveInit goodHistory)
        (decisions hymrplAdaptiveInit poorHistory) := by
  have hhealthier : Healthier goodHistory poorHistory := by
    apply Healthier.recordDao (by decide)
    apply Healthier.parentKept
    apply Healthier.parentKept
    apply Healthier.eval 5 (by norm_num)
    exact Healthier.recommend _ _ Healthier.nil
  exact ⟨by decide +kernel, by decide +kernel,
    healthier_scores hhealthier (by simp [parentChangeEvents, poorHistory])⟩

end HyMRPL
