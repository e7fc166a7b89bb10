import HyMRPL.Process.Action

/-!
# The parent liveness check

`parentCheckCb` follows `parent_check_cb` of `rpld_new.c`. It returns the new
contents of the DODAG and the calls made.
-/

namespace HyMRPL

/-- `PARENT_TIMEOUT_FACTOR` -/
def parentTimeoutFactor : ℚ := 8

/-- `PARENT_TIMEOUT_FACTOR * dag->trickle_t` -/
def Dag.timeout (dag : Dag) : CDouble := (parentTimeoutFactor : CDouble) * dag.trickleT

def parentCheckCb (now : ℚ) (adaptiveEnabled : Bool) (dag : Dag) : Dag × List Action :=
  if dag.myRank = 1 then (dag, [])
  else
    match dag.parent with
    | none => (dag, [])
    | some p =>
      if p.rank = uint16Max then (dag, [])
      else if ((now - dag.parentLastSeen : ℚ) : CDouble) < dag.timeout then (dag, [])
      else
        ({ dag with parent := some { p with rank := uint16Max }, myRank := uint16Max },
          [.nlDelRouteVia dag.ifindex dag.dest, .restartTrickle 1 dag.trickleT] ++
            if adaptiveEnabled then [.adaptiveParentChanged] else [])

/-- The check fires: the node is not a root, its parent is valid, and the time since it was
seen is not below the timeout. -/
def Dag.TimedOut (dag : Dag) (now : ℚ) : Prop :=
  dag.myRank ≠ 1 ∧ dag.validParent ≠ none ∧
    ¬ ((now - dag.parentLastSeen : ℚ) : CDouble) < dag.timeout

/-- What a check that fires leaves behind. -/
def Dag.invalidate (dag : Dag) : Dag :=
  { dag with
    parent := dag.parent.map fun p => { p with rank := uint16Max }
    myRank := uint16Max }

@[simp] theorem Dag.invalidate_validParent (dag : Dag) : dag.invalidate.validParent = none := by
  cases h : dag.parent <;> simp [invalidate, validParent, h]

theorem parentCheckCb_of_timedOut {dag : Dag} {now : ℚ} (h : dag.TimedOut now)
    (adaptiveEnabled : Bool) :
    parentCheckCb now adaptiveEnabled dag =
      (dag.invalidate,
        [.nlDelRouteVia dag.ifindex dag.dest, .restartTrickle 1 dag.trickleT] ++
          if adaptiveEnabled then [.adaptiveParentChanged] else []) := by
  obtain ⟨hroot, hvalid, htime⟩ := h
  cases hp : dag.parent with
  | none => simp [Dag.validParent, hp] at hvalid
  | some p =>
      have hmax : p.rank ≠ uint16Max := by
        intro hmax
        simp [Dag.validParent, hp, hmax] at hvalid
      simp [parentCheckCb, hroot, hp, hmax, htime, Dag.invalidate]

theorem parentCheckCb_of_not_timedOut {dag : Dag} {now : ℚ} (h : ¬ dag.TimedOut now)
    (adaptiveEnabled : Bool) :
    parentCheckCb now adaptiveEnabled dag = (dag, []) := by
  by_cases hroot : dag.myRank = 1
  · simp [parentCheckCb, hroot]
  · cases hp : dag.parent with
    | none => simp [parentCheckCb, hroot, hp]
    | some p =>
        by_cases hmax : p.rank = uint16Max
        · simp [parentCheckCb, hroot, hp, hmax]
        · have hvalid : dag.validParent ≠ none := by simp [Dag.validParent, hp, hmax]
          have htime : ((now - dag.parentLastSeen : ℚ) : CDouble) < dag.timeout := by
            by_contra hlate
            exact h ⟨hroot, hvalid, hlate⟩
          simp [parentCheckCb, hroot, hp, hmax, htime]

theorem daoDests_parentCheckCb (now : ℚ) (adaptiveEnabled : Bool) (dag : Dag) :
    daoDests (parentCheckCb now adaptiveEnabled dag).2 = [] := by
  by_cases h : dag.TimedOut now
  · cases adaptiveEnabled <;> simp [parentCheckCb_of_timedOut h, daoDests]
  · simp [parentCheckCb_of_not_timedOut h, daoDests]

end HyMRPL
