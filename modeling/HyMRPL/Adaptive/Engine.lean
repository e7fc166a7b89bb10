import HyMRPL.Dag.Basic

/-!
# The adaptive engine

The state and the functions of the engine in `hymrpl_adaptive.c`, with rationals
for its `float`s and timestamps. What `read_energy` returns is an argument of
`adaptiveEvalCb`, and the clock an argument of the functions that read it.
-/

namespace HyMRPL

/-- `HYMRPL_W_PDR` -/
def hymrplWPdr : ℚ := 2 / 5

/-- `HYMRPL_W_ENERGY` -/
def hymrplWEnergy : ℚ := 3 / 10

/-- `HYMRPL_W_STABILITY` -/
def hymrplWStability : ℚ := 3 / 10

/-- `HYMRPL_THRESHOLD` -/
def hymrplThreshold : ℚ := 3 / 4

/-- `HYMRPL_HYSTERESIS_CYCLES` -/
def hymrplHysteresisCycles : ℕ := 3

/-- `HYMRPL_PDR_WINDOW` -/
abbrev hymrplPdrWindow : ℕ := 20

/-- `HYMRPL_STABILITY_WINDOW` -/
def hymrplStabilityWindow : ℚ := 60

/-- `HYMRPL_STABILITY_NMAX` -/
abbrev hymrplStabilityNmax : ℕ := 3

/-- `HYMRPL_ENERGY_EMA_ALPHA` -/
def hymrplEnergyEmaAlpha : ℚ := 3 / 10

/-- `struct hymrpl_adaptive`. -/
structure HymrplAdaptive where
  pdr : ℚ
  energyPct : ℚ
  energyEma : ℚ
  pdrWindow : Vector Bool hymrplPdrWindow
  pdrIdx : ℕ
  pdrCount : ℕ
  parentChangeTimes : Vector ℚ (hymrplStabilityNmax + 1)
  parentChangeCount : ℕ
  sStab : ℚ
  lastScore : ℚ
  hysteresisCounter : ℕ
  pendingClass : NodeClass
  lastParentChange : ℚ
  lastParentAddr : In6Addr
  deriving DecidableEq

/-- `hymrpl_adaptive_init`. -/
def hymrplAdaptiveInit : HymrplAdaptive where
  pdr := 100
  energyPct := 100
  energyEma := 1
  pdrWindow := Vector.replicate hymrplPdrWindow true
  pdrIdx := 0
  pdrCount := 0
  parentChangeTimes := Vector.replicate (hymrplStabilityNmax + 1) 0
  parentChangeCount := 0
  sStab := 1
  lastScore := 1
  hysteresisCounter := 0
  pendingClass := .classS
  lastParentChange := 0
  lastParentAddr := Vector.replicate 16 0

/-- `compute_pdr`. -/
def computePdr (adp : HymrplAdaptive) : HymrplAdaptive :=
  if adp.pdrCount = 0 then { adp with pdr := 100 }
  else
    let count := if adp.pdrCount < hymrplPdrWindow then adp.pdrCount else hymrplPdrWindow
    let successes := (adp.pdrWindow.toList.take count).countP id
    { adp with pdr := successes / count * 100 }

/-- `hymrpl_adaptive_record_dao`. -/
def hymrplAdaptiveRecordDao (adp : HymrplAdaptive) (success : Bool) : HymrplAdaptive :=
  computePdr
    { adp with
      pdrWindow := adp.pdrWindow.setIfInBounds adp.pdrIdx success
      pdrIdx := (adp.pdrIdx + 1) % hymrplPdrWindow
      pdrCount :=
        if adp.pdrCount < hymrplPdrWindow then adp.pdrCount + 1 else adp.pdrCount }

/-- `hymrpl_adaptive_parent_changed`: the four latest changes are kept. -/
def hymrplAdaptiveParentChanged (now : ℚ) (adp : HymrplAdaptive)
    (newParent : Option In6Addr) : HymrplAdaptive :=
  let adp :=
    if adp.parentChangeCount < hymrplStabilityNmax + 1 then
      { adp with
        parentChangeTimes := adp.parentChangeTimes.setIfInBounds adp.parentChangeCount now
        parentChangeCount := adp.parentChangeCount + 1 }
    else
      { adp with
        parentChangeTimes := #v[adp.parentChangeTimes[1], adp.parentChangeTimes[2],
          adp.parentChangeTimes[3], now] }
  { adp with
    lastParentChange := now
    lastParentAddr := newParent.getD adp.lastParentAddr }

/-- `read_energy`. A file is `none` if it cannot be opened, and holds `none` if `fscanf`
finds no number in it. -/
def readEnergy (batteryFile capacityFile : Option (Option ℚ)) : ℚ :=
  match batteryFile with
  | some (some val) => val
  | _ =>
    match capacityFile with
    | some (some val) => val
    | _ => 100

/-- `compute_stability`. -/
def computeStability (now : ℚ) (adp : HymrplAdaptive) : HymrplAdaptive :=
  let changesInWindow := (adp.parentChangeTimes.toList.take adp.parentChangeCount).countP
    fun time => decide (now - hymrplStabilityWindow ≤ time)
  let ratio : ℚ := changesInWindow / hymrplStabilityNmax
  { adp with sStab := 1 - (if 1 < ratio then 1 else ratio) }

/-- `adaptive_decide`. -/
def adaptiveDecide (adp : HymrplAdaptive) : HymrplAdaptive × NodeClass :=
  let score := hymrplWPdr * (adp.pdr / 100) + hymrplWEnergy * adp.energyEma +
    hymrplWStability * adp.sStab
  ({ adp with lastScore := score }, if hymrplThreshold ≤ score then .classS else .classN)

/-- `adaptive_eval_cb`, when `read_energy` returns `energy`. -/
def adaptiveEvalCb (now energy : ℚ) (adp : HymrplAdaptive) : HymrplAdaptive :=
  let rawEnergy := energy / 100
  let adp :=
    { adp with
      energyPct := rawEnergy * 100
      energyEma := hymrplEnergyEmaAlpha * rawEnergy +
        (1 - hymrplEnergyEmaAlpha) * adp.energyEma }
  (adaptiveDecide (computeStability now adp)).1

/-- `hymrpl_adaptive_get_recommendation`, with `none` for -1. -/
def hymrplAdaptiveGetRecommendation (adp : HymrplAdaptive) (currentClass : NodeClass) :
    HymrplAdaptive × Option NodeClass :=
  let (adp, recommended) := adaptiveDecide adp
  if recommended = currentClass then ({ adp with hysteresisCounter := 0 }, none)
  else
    let adp :=
      if adp.pendingClass ≠ recommended then
        { adp with pendingClass := recommended, hysteresisCounter := 1 }
      else { adp with hysteresisCounter := adp.hysteresisCounter + 1 }
    if hymrplHysteresisCycles ≤ adp.hysteresisCounter then
      ({ adp with hysteresisCounter := 0 }, some recommended)
    else (adp, none)

end HyMRPL
