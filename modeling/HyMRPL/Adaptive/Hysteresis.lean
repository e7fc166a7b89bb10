import HyMRPL.Adaptive.Run

/-!
# What the hysteresis counts

The counter of `hymrpl_adaptive_get_recommendation` counts polls. It counts evaluations
in the runs where every poll that recommends a change comes after a new evaluation, and
after none that computed another class: then the class that is returned was computed by
the last three evaluations.
-/

namespace HyMRPL

open Transition

/-- The engine with the classes that its evaluations computed, the latest first, and the
number of those since the last poll. -/
structure PolledEngine where
  adp : HymrplAdaptive
  evals : List NodeClass
  fresh : ℕ

namespace PolledEngine

/-- An engine that is evaluated and polled, with what the polls return. -/
def machine : Machine PolledEngine EngineEvent (Option NodeClass) where
  enabled _ _ := True
  next n
    | .eval now energy =>
      { adp := adaptiveEvalCb now energy n.adp
        evals := (adaptiveDecide (adaptiveRefresh now energy n.adp)).2 :: n.evals
        fresh := n.fresh + 1 }
    | .recommend currentClass =>
      { n with adp := (hymrplAdaptiveGetRecommendation n.adp currentClass).1, fresh := 0 }
    | e => { n with adp := engineStep n.adp e }
  out n
    | .recommend currentClass => (hymrplAdaptiveGetRecommendation n.adp currentClass).2
    | _ => none

def start : PolledEngine := ⟨hymrplAdaptiveInit, [], 0⟩

/-- A class that a poll returns was computed by the latest three evaluations. -/
def ReturnsEvaluated (n : PolledEngine) (e : EngineEvent) : Prop :=
  ∀ newClass, machine.out n e = some newClass →
    n.evals.take hymrplHysteresisCycles = List.replicate hymrplHysteresisCycles newClass

/-- A poll that recommends a change comes after an evaluation that no poll has seen yet,
and all such evaluations computed that class. A class is returned at the third such poll in a
row, so with an evaluation every five seconds and a poll every second no run in which a class
is returned meets this. -/
def FreshPoll (n : PolledEngine) : EngineEvent → Prop
  | .recommend currentClass => classOfScore n.adp.score ≠ currentClass →
      n.fresh ≠ 0 ∧ n.evals.take n.fresh = List.replicate n.fresh (classOfScore n.adp.score)
  | _ => True

instance (n : PolledEngine) (e : EngineEvent) : Decidable (ReturnsEvaluated n e) :=
  match h : machine.out n e with
  | none => .isTrue (by simp [ReturnsEvaluated, h])
  | some newClass =>
    decidable_of_iff (n.evals.take hymrplHysteresisCycles =
      List.replicate hymrplHysteresisCycles newClass) (by simp [ReturnsEvaluated, h])

instance (n : PolledEngine) : ∀ e, Decidable (FreshPoll n e)
  | .recommend _ => inferInstanceAs (Decidable (_ → _))
  | .eval _ _ => .isTrue trivial
  | .recordDao _ => .isTrue trivial
  | .parentChanged _ _ => .isTrue trivial

/-- Of the evaluations that the last poll has seen, as many as the counter says computed
the pending class. -/
def Counted (n : PolledEngine) : Prop :=
  (n.evals.drop n.fresh).take n.adp.hysteresisCounter =
    List.replicate n.adp.hysteresisCounter n.adp.pendingClass

/-- The engine inside runs as `engine` does. -/
theorem machine_adp (n : PolledEngine) (e : EngineEvent) :
    (machine.next n e).adp = engineStep n.adp e := by
  cases e <;> rfl

theorem run_adp (n : PolledEngine) (es : List EngineEvent) :
    (machine.run n es).adp = engine.run n.adp es := by
  induction es generalizing n with
  | nil => rfl
  | cons e es ih =>
      rw [Machine.run, ih, machine_adp]
      rfl

theorem take_eq_replicate {l : List NodeClass} {newClass : NodeClass} {m k : ℕ}
    (h : l.take m = List.replicate m newClass) (hk : k ≤ m) :
    l.take k = List.replicate k newClass := by
  calc l.take k = (l.take m).take k := by rw [List.take_take, min_eq_left hk]
    _ = List.replicate k newClass := by rw [h, List.take_replicate, min_eq_left hk]

variable {n : PolledEngine} {currentClass : NodeClass}

/-- A fresh poll is preceded by as many evaluations of its class as it counts. -/
theorem Counted.take_countedPolls (h : Counted n) (hfresh : FreshPoll n (.recommend currentClass))
    (hclass : classOfScore n.adp.score ≠ currentClass) :
    n.evals.take n.adp.countedPolls =
      List.replicate n.adp.countedPolls (classOfScore n.adp.score) := by
  have ⟨hpos, hnew⟩ := hfresh hclass
  by_cases hpending : n.adp.pendingClass = classOfScore n.adp.score
  · have hall : n.evals.take (n.fresh + n.adp.hysteresisCounter) =
        List.replicate (n.fresh + n.adp.hysteresisCounter) (classOfScore n.adp.score) := by
      rw [List.take_add, hnew, h, hpending, List.replicate_add]
    apply take_eq_replicate hall
    rw [HymrplAdaptive.countedPolls, if_pos hpending]
    omega
  · apply take_eq_replicate hnew
    rw [HymrplAdaptive.countedPolls, if_neg hpending]
    omega

theorem counted_start : Counted start := rfl

/-- A poll starts over with the evaluations that it has seen. -/
theorem Counted.poll (h : Counted n) (hfresh : FreshPoll n (.recommend currentClass)) :
    Counted (machine.next n (.recommend currentClass)) := by
  by_cases hclass : classOfScore n.adp.score = currentClass
  · simp [Counted, machine, hymrplAdaptiveGetRecommendation_of_eq hclass]
  · by_cases hcount : hymrplHysteresisCycles ≤ n.adp.countedPolls
    · simp [Counted, machine, hymrplAdaptiveGetRecommendation_of_ne hclass, hcount]
    · have htake := h.take_countedPolls hfresh hclass
      simpa [Counted, machine, hymrplAdaptiveGetRecommendation_of_ne hclass, hcount] using htake

/-- The step lemma: fresh polls keep the count and return what was evaluated. -/
theorem Counted.step (h : Counted n) {e : EngineEvent} (hfresh : FreshPoll n e) :
    ReturnsEvaluated n e ∧ Counted (machine.next n e) := by
  cases e with
  | recommend currentClass =>
      constructor
      · intro newClass hreturn
        have ⟨hclass, hchange, hcount⟩ := hymrplAdaptiveGetRecommendation_eq_some hreturn
        have htake := h.take_countedPolls hfresh (hclass.trans_ne hchange)
        exact take_eq_replicate (hclass ▸ htake) hcount
      · exact h.poll hfresh
  | eval now energy =>
      constructor
      · intro newClass hreturn
        cases hreturn
      · exact h
  | recordDao success =>
      have ⟨hcounter, hpending⟩ :=
        hysteresis_engineStep n.adp (e := .recordDao success) fun _ => nofun
      constructor
      · intro newClass hreturn
        cases hreturn
      · simpa [Counted, machine, hcounter, hpending] using h
  | parentChanged now newParent =>
      have ⟨hcounter, hpending⟩ :=
        hysteresis_engineStep n.adp (e := .parentChanged now newParent) fun _ => nofun
      constructor
      · intro newClass hreturn
        cases hreturn
      · simpa [Counted, machine, hcounter, hpending] using h

/-- In a run of fresh polls, every class returned was computed by the latest three
evaluations. -/
theorem returnsEvaluated_run {es : List EngineEvent} (h : machine.Steps FreshPoll start es) :
    machine.Steps ReturnsEvaluated start es :=
  Machine.steps_of_invariant (fun _ _ hcounted hfresh => hcounted.step hfresh) counted_start h

/-- Three changes of the parent, and then one poll for each evaluation. -/
def pollEachEvaluation : List EngineEvent :=
  [.parentChanged 1 none, .parentChanged 2 none, .parentChanged 3 none] ++
    [5, 10, 15].flatMap fun now => [.eval now 100, .recommend .classS]

/-- The third poll returns Class N. -/
theorem pollEachEvaluation_returns :
    (machine.outputs start pollEachEvaluation).getLast? = some (some .classN) ∧
      machine.Steps ReturnsEvaluated start pollEachEvaluation :=
  ⟨by decide +kernel, returnsEvaluated_run (by decide +kernel)⟩

/-- A node of Class S with an empty battery: an evaluation each five seconds, and a poll
each second. -/
def pollEachSecond : List EngineEvent :=
  ([5, 10, 15, 20, 25].flatMap fun now =>
    .eval now 0 :: List.replicate 5 (.recommend .classS)) ++
      .eval 30 0 :: List.replicate 3 (.recommend .classS)

/-- Class N is returned three polls after the first evaluation that computed it. -/
theorem pollEachSecond_returns :
    (machine.outputs start pollEachSecond).getLast? = some (some .classN) ∧
      (machine.run start pollEachSecond).evals.take hymrplHysteresisCycles =
        [.classN, .classS, .classS] ∧
      ¬ machine.Steps ReturnsEvaluated start pollEachSecond := by
  decide +kernel

end PolledEngine

end HyMRPL
