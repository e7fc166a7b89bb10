import HyMRPL.Adaptive.Hysteresis
import HyMRPL.Foundation.Streak

/-!
# What a recommendation takes

A call of `hymrpl_adaptive_get_recommendation` returns a class exactly when it is the
third one in a row that recommends this class against another one, counted since the
last call that returned a class. The metrics and the current class of each call are
arbitrary. The counter and the pending class tell the length of every such row.
-/

namespace HyMRPL

open Transition Streak

/-- A call, with the metrics that it finds. -/
structure Poll where
  pdr : ℚ
  energyEma : ℚ
  sStab : ℚ
  currentClass : NodeClass
  deriving DecidableEq

/-- The engine with the metrics that a call finds. -/
def HymrplAdaptive.withMetrics (adp : HymrplAdaptive) (p : Poll) : HymrplAdaptive :=
  { adp with pdr := p.pdr, energyEma := p.energyEma, sStab := p.sStab }

/-- A call as it was answered. -/
structure Answer where
  recommended : NodeClass
  currentClass : NodeClass
  returned : Option NodeClass
  deriving DecidableEq

/-- The call recommended `newClass` against another class. -/
def Answer.Recommends (newClass : NodeClass) (a : Answer) : Prop :=
  a.recommended = newClass ∧ a.currentClass ≠ newClass

/-- The call recommended `newClass` against another class, and returned nothing. -/
def Answer.pending (newClass : NodeClass) (a : Answer) : Bool :=
  decide (a.recommended = newClass ∧ a.currentClass ≠ newClass ∧ a.returned = none)

instance (newClass : NodeClass) (a : Answer) : Decidable (a.Recommends newClass) :=
  inferInstanceAs (Decidable (_ ∧ _))

/-- The engine with the answers to the calls so far, the latest first. -/
structure Recommender where
  adp : HymrplAdaptive
  answers : List Answer

namespace Recommender

/-- The answer to a call. -/
def answer (n : Recommender) (p : Poll) : Answer where
  recommended := (adaptiveDecide (n.adp.withMetrics p)).2
  currentClass := p.currentClass
  returned := (hymrplAdaptiveGetRecommendation (n.adp.withMetrics p) p.currentClass).2

/-- The calls, with what they return. -/
def machine : Machine Recommender Poll (Option NodeClass) where
  enabled _ _ := True
  next n p :=
    { adp := (hymrplAdaptiveGetRecommendation (n.adp.withMetrics p) p.currentClass).1
      answers := n.answer p :: n.answers }
  out n p := (n.answer p).returned

def start : Recommender := ⟨hymrplAdaptiveInit, []⟩

/-- How many calls in a row, this one included, recommended `newClass` against another
class, counted since the last call that returned a class. -/
def callsInRow (n : Recommender) (p : Poll) (newClass : NodeClass) : ℕ :=
  if (n.answer p).Recommends newClass then streak (Answer.pending newClass) n.answers + 1 else 0

/-- A call returns a class if and only if the class is a change and this is the third call
in a row that recommends it. -/
def ReturnsAtThird (n : Recommender) (p : Poll) : Prop :=
  ∀ newClass, machine.out n p = some newClass ↔
    newClass ≠ p.currentClass ∧ n.callsInRow p newClass = hymrplHysteresisCycles

/-- How many calls in a row, up to the latest one, recommended its class against another one
and returned nothing. -/
def latestRow : List Answer → ℕ
  | [] => 0
  | a :: answers => streak (Answer.pending a.recommended) (a :: answers)

/-- The counter is the length of the latest row. -/
def CountsRow (n : Recommender) : Prop :=
  n.adp.hysteresisCounter = latestRow n.answers ∧
    n.adp.hysteresisCounter < hymrplHysteresisCycles

/-- What the counter and the pending class tell of every row. -/
structure Rows (n : Recommender) : Prop where
  countsRow : n.CountsRow
  streak_eq : ∀ newClass, streak (Answer.pending newClass) n.answers =
    if n.adp.pendingClass = newClass then n.adp.hysteresisCounter else 0

variable {n : Recommender} {p : Poll}

/-- There are no rows after a call that agreed or returned a class. -/
theorem rows_of_zero (hcounter : n.adp.hysteresisCounter = 0)
    (hstreak : ∀ newClass, streak (Answer.pending newClass) n.answers = 0) : Rows n := by
  have hrow : latestRow n.answers = 0 := by
    cases hanswers : n.answers with
    | nil => rfl
    | cons a answers =>
        have hzero := hstreak a.recommended
        rwa [hanswers] at hzero
  constructor
  case countsRow =>
    rw [CountsRow, hcounter, hrow]
    exact ⟨rfl, by decide⟩
  case streak_eq =>
    intro newClass
    rw [hstreak, hcounter, ite_self]

theorem returned_of_eq (h : (n.answer p).recommended = p.currentClass) :
    (n.answer p).returned = none := by
  rw [answer, hymrplAdaptiveGetRecommendation_of_eq h]

theorem returned_of_ne (h : (n.answer p).recommended ≠ p.currentClass) :
    (n.answer p).returned =
      if hymrplHysteresisCycles ≤ (n.adp.withMetrics p).countedPolls then
        some (n.answer p).recommended
      else none := by
  rw [answer, hymrplAdaptiveGetRecommendation_of_ne h]
  rfl

/-- A call returns the class that it recommends against another, once the counter is up. -/
theorem out_eq_some_iff (newClass : NodeClass) :
    machine.out n p = some newClass ↔ (n.answer p).Recommends newClass ∧
      hymrplHysteresisCycles ≤ (n.adp.withMetrics p).countedPolls := by
  by_cases hagree : (n.answer p).recommended = p.currentClass
  · have hnone : ¬ (n.answer p).Recommends newClass := by
      rintro ⟨hclass, hne⟩
      exact hne (hagree.symm.trans hclass)
    simp [machine, returned_of_eq hagree, hnone]
  · have hrecommends : (n.answer p).Recommends newClass ↔
        (n.answer p).recommended = newClass :=
      ⟨fun h => h.1, fun h => ⟨h, h ▸ Ne.symm hagree⟩⟩
    simp only [machine, returned_of_ne hagree, Option.ite_none_right_eq_some,
      Option.some.injEq, hrecommends]
    exact and_comm

/-- What a call counts is the row that it continues. -/
theorem Rows.countedPolls_eq (h : Rows n) (p : Poll) :
    (n.adp.withMetrics p).countedPolls =
      streak (Answer.pending (n.answer p).recommended) n.answers + 1 := by
  have hpending : (n.adp.withMetrics p).countedPolls =
      if n.adp.pendingClass = (n.answer p).recommended then n.adp.hysteresisCounter + 1
      else 1 := rfl
  rw [hpending, h.streak_eq]
  split_ifs <;> rfl

theorem Rows.countedPolls_le (h : Rows n) (p : Poll) :
    (n.adp.withMetrics p).countedPolls ≤ hymrplHysteresisCycles := by
  have hlt := h.countsRow.2
  rw [h.countedPolls_eq, h.streak_eq]
  split_ifs
  · exact hlt
  · decide

theorem Rows.returnsAtThird (h : Rows n) (p : Poll) : ReturnsAtThird n p := by
  intro newClass
  rw [out_eq_some_iff]
  by_cases hrecommends : (n.answer p).Recommends newClass
  · have hrow : n.callsInRow p newClass = (n.adp.withMetrics p).countedPolls := by
      rw [callsInRow, if_pos hrecommends, h.countedPolls_eq, hrecommends.1]
    have hle := h.countedPolls_le p
    rw [hrow]
    constructor
    · rintro ⟨-, hcount⟩
      exact ⟨Ne.symm hrecommends.2, le_antisymm hle hcount⟩
    · rintro ⟨-, hcount⟩
      exact ⟨hrecommends, hcount.ge⟩
  · have hrow : n.callsInRow p newClass = 0 := if_neg hrecommends
    simp [hrecommends, hrow, hymrplHysteresisCycles]

/-- A call that agrees ends every row. -/
theorem rows_next_of_eq (h : (n.answer p).recommended = p.currentClass) :
    Rows (machine.next n p) := by
  apply rows_of_zero
  · simp only [machine, hymrplAdaptiveGetRecommendation_of_eq h]
  · intro newClass
    apply streak_cons_of_neg
    apply decide_eq_false
    rintro ⟨hclass, hne, -⟩
    exact hne (h.symm.trans hclass)

/-- So does a call that returns a class. -/
theorem rows_next_of_returns (h : (n.answer p).recommended ≠ p.currentClass)
    (hcount : hymrplHysteresisCycles ≤ (n.adp.withMetrics p).countedPolls) :
    Rows (machine.next n p) := by
  apply rows_of_zero
  · simp only [machine, hymrplAdaptiveGetRecommendation_of_ne h, hcount, if_true]
  · intro newClass
    apply streak_cons_of_neg
    apply decide_eq_false
    rintro ⟨-, -, hnone⟩
    simp [returned_of_ne h, hcount] at hnone

/-- Another call continues the row of the class that it recommends. -/
theorem Rows.next_of_pending (hrows : Rows n) (h : (n.answer p).recommended ≠ p.currentClass)
    (hcount : ¬ hymrplHysteresisCycles ≤ (n.adp.withMetrics p).countedPolls) :
    Rows (machine.next n p) := by
  have hstreak : ∀ newClass, streak (Answer.pending newClass) (n.answer p :: n.answers) =
      if (n.answer p).recommended = newClass then (n.adp.withMetrics p).countedPolls else 0 := by
    intro newClass
    split_ifs with hclass
    · have hpending : (n.answer p).pending newClass = true :=
        decide_eq_true ⟨hclass, hclass ▸ Ne.symm h, by rw [returned_of_ne h, if_neg hcount]⟩
      rw [streak_cons_of_pos hpending, hrows.countedPolls_eq, hclass]
    · exact streak_cons_of_neg (decide_eq_false fun hpending => hclass hpending.1)
  have hcounter : (machine.next n p).adp.hysteresisCounter =
      (n.adp.withMetrics p).countedPolls := by
    simp only [machine, hymrplAdaptiveGetRecommendation_of_ne h, hcount, if_false]
  have hclass : (machine.next n p).adp.pendingClass = (n.answer p).recommended := by
    simp only [machine, hymrplAdaptiveGetRecommendation_of_ne h]
    rfl
  constructor
  case countsRow =>
    rw [CountsRow, hcounter]
    exact ⟨((hstreak _).trans (if_pos rfl)).symm, not_le.mp hcount⟩
  case streak_eq =>
    intro newClass
    rw [hcounter, hclass]
    exact hstreak newClass

/-- The step lemma: every call leaves the rows as they are told. -/
theorem Rows.next (h : Rows n) (p : Poll) : Rows (machine.next n p) := by
  by_cases hagree : (n.answer p).recommended = p.currentClass
  · exact rows_next_of_eq hagree
  · by_cases hcount : hymrplHysteresisCycles ≤ (n.adp.withMetrics p).countedPolls
    · exact rows_next_of_returns hagree hcount
    · exact h.next_of_pending hagree hcount

/-- In every run of calls, each call returns a class exactly at the third in a row, and
between the calls the counter is the length of the latest row. -/
theorem hysteresis_exact (ps : List Poll) :
    machine.Steps ReturnsAtThird start ps ∧ machine.Always CountsRow start ps := by
  have hstart : Rows start := rows_of_zero rfl fun _ => rfl
  constructor
  · exact Machine.steps_of_kept (fun _ p h => h.next p) (fun _ p h => h.returnsAtThird p) hstart ps
  · have hrows : machine.Always Rows start ps :=
      Machine.always_of_kept (fun _ p h => h.next p) hstart ps
    exact hrows.mono fun _ h => h.countsRow

/-- The call that polls an engine as it stands. -/
def pollOf (adp : HymrplAdaptive) (currentClass : NodeClass) : Poll :=
  ⟨adp.pdr, adp.energyEma, adp.sStab, currentClass⟩

/-- The calls among the events of a run of the engine. -/
def polls (adp : HymrplAdaptive) : List EngineEvent → List Poll
  | [] => []
  | .recommend currentClass :: es =>
    pollOf adp currentClass :: polls (engineStep adp (.recommend currentClass)) es
  | e :: es => polls (engineStep adp e) es

/-- Two engines have counted the same. -/
def SameCount (a b : HymrplAdaptive) : Prop :=
  a.hysteresisCounter = b.hysteresisCounter ∧ a.pendingClass = b.pendingClass

/-- The other fields do not matter to a poll. -/
theorem SameCount.poll {a b : HymrplAdaptive} (h : SameCount a b) (hscore : a.score = b.score)
    (currentClass : NodeClass) :
    SameCount (hymrplAdaptiveGetRecommendation a currentClass).1
        (hymrplAdaptiveGetRecommendation b currentClass).1 ∧
      (hymrplAdaptiveGetRecommendation a currentClass).2 =
        (hymrplAdaptiveGetRecommendation b currentClass).2 := by
  obtain ⟨hcounter, hpending⟩ := h
  have hcount : a.countedPolls = b.countedPolls := by
    rw [HymrplAdaptive.countedPolls, HymrplAdaptive.countedPolls, hcounter, hpending, hscore]
  by_cases hagree : classOfScore b.score = currentClass
  · rw [hymrplAdaptiveGetRecommendation_of_eq (hscore ▸ hagree),
      hymrplAdaptiveGetRecommendation_of_eq hagree]
    exact ⟨⟨rfl, hpending⟩, rfl⟩
  · rw [hymrplAdaptiveGetRecommendation_of_ne (hscore ▸ hagree),
      hymrplAdaptiveGetRecommendation_of_ne hagree, hcount, hscore]
    exact ⟨⟨rfl, rfl⟩, rfl⟩

/-- The calls of a run leave the count that the run leaves. -/
theorem sameCount_run {adp : HymrplAdaptive} (h : SameCount adp n.adp) (es : List EngineEvent) :
    SameCount (engine.run adp es) (machine.run n (polls adp es)).adp := by
  induction es generalizing adp n with
  | nil => exact h
  | cons e es ih =>
      cases e with
      | recommend currentClass =>
          have hpoll := SameCount.poll (b := n.adp.withMetrics (pollOf adp currentClass)) h rfl
            currentClass
          exact ih hpoll.1
      | eval now energy => exact ih h
      | recordDao success =>
          have hkept := hysteresis_engineStep adp (e := .recordDao success) fun _ => nofun
          exact ih ⟨hkept.1.trans h.1, hkept.2.trans h.2⟩
      | parentChanged now newParent =>
          have hkept := hysteresis_engineStep adp (e := .parentChanged now newParent) fun _ => nofun
          exact ih ⟨hkept.1.trans h.1, hkept.2.trans h.2⟩

/-- What the engine recommends after a run is the answer to its calls. -/
theorem recommendation_run (es : List EngineEvent) (currentClass : NodeClass) :
    (hymrplAdaptiveGetRecommendation (engine.run hymrplAdaptiveInit es) currentClass).2 =
      machine.out (machine.run start (polls hymrplAdaptiveInit es))
        (pollOf (engine.run hymrplAdaptiveInit es) currentClass) := by
  have hsame : SameCount (engine.run hymrplAdaptiveInit es)
      (machine.run start (polls hymrplAdaptiveInit es)).adp :=
    sameCount_run (n := start) ⟨rfl, rfl⟩ es
  let p := pollOf (engine.run hymrplAdaptiveInit es) currentClass
  exact (SameCount.poll (b := HymrplAdaptive.withMetrics _ p) hsame rfl currentClass).2

end Recommender

end HyMRPL
