import Mathlib.Data.List.Basic

/-!
# Machines, runs and what runs preserve

A machine reads events: an event may be enabled in a state or not, leads to a
next state and emits an output. A run is a list of events. `Steps C s es` says
that every step of the run from `s` along `es` meets `C`, a condition on the
state before the step and on the event; `Legal` is the case where the condition
is that the event is enabled. `Always P s es` says that every state of the run
satisfies `P`, the first one included.

Each induction over runs is done once here. `always_iff_steps` is the exactness
rule: it turns a condition on single steps into an equivalence about runs.
`outputs_invariant` relates the outputs emitted so far to the current state. A `Hom`
carries runs of one machine to runs of another, and so does `Simulates`, where the
event that matches a step may depend on the state. `observe` replaces the outputs by
what a step changes.
-/

namespace Transition

/-- A machine with state `σ`, events `ε` and outputs `ω`. -/
structure Machine (σ ε ω : Type*) where
  enabled : σ → ε → Prop
  next : σ → ε → σ
  out : σ → ε → ω

namespace Machine

variable {σ ε ω : Type*} (M : Machine σ ε ω)

/-- The state after a run. -/
def run : σ → List ε → σ
  | s, [] => s
  | s, e :: es => run (M.next s e) es

/-- The outputs of a run, in the order in which they are emitted. -/
def outputs : σ → List ε → List ω
  | _, [] => []
  | s, e :: es => M.out s e :: outputs (M.next s e) es

/-- Every step of the run meets `C`. -/
def Steps (C : σ → ε → Prop) : σ → List ε → Prop
  | _, [] => True
  | s, e :: es => C s e ∧ Steps C (M.next s e) es

/-- Every event of the run is enabled where it happens. -/
def Legal : σ → List ε → Prop := M.Steps M.enabled

/-- Every state of the run satisfies `P`. -/
def Always (P : σ → Prop) : σ → List ε → Prop
  | s, [] => P s
  | s, e :: es => P s ∧ Always P (M.next s e) es

/-- Parts of a run, one after the other, each of which is a round. -/
def Rounds (R : σ → List ε → Prop) : σ → List (List ε) → Prop
  | _, [] => True
  | s, es :: rounds => R s es ∧ Rounds R (M.run s es) rounds

variable {M}

instance Steps.decidable (C : σ → ε → Prop) [∀ s e, Decidable (C s e)] :
    ∀ (s : σ) (es : List ε), Decidable (M.Steps C s es)
  | _, [] => .isTrue trivial
  | s, e :: es =>
    have := Steps.decidable C (M.next s e) es
    inferInstanceAs (Decidable (C s e ∧ M.Steps C (M.next s e) es))

instance Always.decidable (P : σ → Prop) [∀ s, Decidable (P s)] :
    ∀ (s : σ) (es : List ε), Decidable (M.Always P s es)
  | s, [] => inferInstanceAs (Decidable (P s))
  | s, e :: es =>
    have := Always.decidable P (M.next s e) es
    inferInstanceAs (Decidable (P s ∧ M.Always P (M.next s e) es))

instance (s : σ) (es : List ε) [∀ s e, Decidable (M.enabled s e)] :
    Decidable (M.Legal s es) :=
  Steps.decidable M.enabled s es

theorem Always.head {P : σ → Prop} {s : σ} {es : List ε}
    (h : M.Always P s es) : P s := by
  cases es with
  | nil => exact h
  | cons e es => exact h.1

theorem Always.run {P : σ → Prop} {s : σ} {es : List ε} (h : M.Always P s es) :
    P (M.run s es) := by
  induction es generalizing s with
  | nil => exact h
  | cons e es ih => exact ih h.2

theorem Always.mono {P Q : σ → Prop} {s : σ} {es : List ε} (h : M.Always P s es)
    (hPQ : ∀ s, P s → Q s) : M.Always Q s es := by
  induction es generalizing s with
  | nil => exact hPQ s h
  | cons e es ih => exact ⟨hPQ s h.1, ih h.2⟩

@[simp] theorem run_append (s : σ) (es fs : List ε) :
    M.run s (es ++ fs) = M.run (M.run s es) fs := by
  induction es generalizing s with
  | nil => rfl
  | cons e es ih => exact ih (M.next s e)

/-- What every round brings one step further is as far as there are rounds. -/
theorem Rounds.run {R : σ → List ε → Prop} {P : ℕ → σ → Prop}
    (hround : ∀ n s es, P n s → R s es → P (n + 1) (M.run s es)) {s : σ}
    {rounds : List (List ε)} {n : ℕ} (h : M.Rounds R s rounds) (hs : P n s) :
    P (n + rounds.length) (M.run s rounds.flatten) := by
  induction rounds generalizing s n with
  | nil => exact hs
  | cons es rounds ih =>
      have htail := ih h.2 (hround n s es hs h.1)
      rw [List.flatten_cons, run_append, List.length_cons, Nat.add_comm rounds.length 1,
        ← Nat.add_assoc]
      exact htail

theorem steps_of_forall {C : σ → ε → Prop} {es : List ε} (h : ∀ s, ∀ e ∈ es, C s e) (s : σ) :
    M.Steps C s es := by
  induction es generalizing s with
  | nil => trivial
  | cons e es ih =>
      have htail := ih (fun s e he => h s e (List.mem_cons_of_mem _ he)) (M.next s e)
      exact ⟨h s e (List.mem_cons_self ..), htail⟩

theorem legal_of_forall (h : ∀ s e, M.enabled s e) (s : σ) (es : List ε) : M.Legal s es :=
  steps_of_forall (fun s e _ => h s e) s

theorem steps_true (s : σ) (es : List ε) : M.Steps (fun _ _ => True) s es :=
  steps_of_forall (fun _ _ _ => trivial) s

/-- The exactness rule. The invariant `I` implies `P` and survives the steps
that meet `C`; a step that does not meet `C` leaves `P` at once. Then a run stays
in `P` exactly when all its steps meet `C`. -/
theorem always_iff_steps {I P : σ → Prop} {C : σ → ε → Prop}
    (hP : ∀ s, I s → P s)
    (hkeep : ∀ s e, I s → M.enabled s e → C s e → I (M.next s e))
    (hbad : ∀ s e, I s → M.enabled s e → ¬ C s e → ¬ P (M.next s e))
    {s : σ} {es : List ε} (hs : I s) (hl : M.Legal s es) :
    M.Always P s es ↔ M.Steps C s es := by
  induction es generalizing s with
  | nil => exact ⟨fun _ => trivial, fun _ => hP s hs⟩
  | cons e es ih =>
      obtain ⟨he, hl⟩ := hl
      constructor
      · rintro ⟨-, htail⟩
        by_cases hC : C s e
        · exact ⟨hC, (ih (hkeep s e hs he hC) hl).mp htail⟩
        · exact absurd htail.head (hbad s e hs he hC)
      · rintro ⟨hC, htail⟩
        exact ⟨hP s hs, (ih (hkeep s e hs he hC) hl).mpr htail⟩

/-- The exactness rule for a machine all of whose events are always enabled. -/
theorem always_iff_steps_of_enabled {I P : σ → Prop} {C : σ → ε → Prop}
    (henabled : ∀ s e, M.enabled s e) (hP : ∀ s, I s → P s)
    (hkeep : ∀ s e, I s → C s e → I (M.next s e))
    (hbad : ∀ s e, I s → ¬ C s e → ¬ P (M.next s e)) {s : σ} (hs : I s) (es : List ε) :
    M.Always P s es ↔ M.Steps C s es :=
  always_iff_steps hP (fun s e h _ hC => hkeep s e h hC) (fun s e h _ hC => hbad s e h hC) hs
    (legal_of_forall henabled s es)

/-- What every enabled step keeps holds along every legal run. -/
theorem always_of_invariant {P : σ → Prop}
    (hkeep : ∀ s e, P s → M.enabled s e → P (M.next s e)) {s : σ} {es : List ε}
    (hs : P s) (hl : M.Legal s es) : M.Always P s es :=
  (always_iff_steps (fun _ h => h) (fun s e h he _ => hkeep s e h he)
    (fun _ _ _ he hC => absurd he hC) hs hl).mpr hl

/-- What every enabled step that meets `C` keeps holds along every legal run whose steps all
meet `C`. -/
theorem always_of_steps {P : σ → Prop} {C : σ → ε → Prop}
    (hkeep : ∀ s e, P s → M.enabled s e → C s e → P (M.next s e)) {s : σ} {es : List ε}
    (hs : P s) (hl : M.Legal s es) (hC : M.Steps C s es) : M.Always P s es := by
  induction es generalizing s with
  | nil => exact hs
  | cons e es ih => exact ⟨hs, ih (hkeep s e hs hl.1 hC.1) hl.2 hC.2⟩

/-- What every step keeps, enabled or not, holds along every run. -/
theorem always_of_kept {P : σ → Prop} (hkeep : ∀ s e, P s → P (M.next s e)) {s : σ} (hs : P s)
    (es : List ε) : M.Always P s es := by
  induction es generalizing s with
  | nil => exact hs
  | cons e es ih => exact ⟨hs, ih (hkeep s e hs)⟩

theorem steps_append {C : σ → ε → Prop} (s : σ) (es fs : List ε) :
    M.Steps C s (es ++ fs) ↔ M.Steps C s es ∧ M.Steps C (M.run s es) fs := by
  induction es generalizing s with
  | nil => exact ⟨fun h => ⟨trivial, h⟩, And.right⟩
  | cons e es ih => exact (and_congr_right fun _ => ih (M.next s e)).trans and_assoc.symm

/-- Step conditions that agree in every state agree on every run. -/
theorem steps_congr {C D : σ → ε → Prop} (hCD : ∀ s e, C s e ↔ D s e) (s : σ)
    (es : List ε) : M.Steps C s es ↔ M.Steps D s es := by
  induction es generalizing s with
  | nil => exact Iff.rfl
  | cons e es ih => exact and_congr (hCD s e) (ih (M.next s e))

/-- Under an invariant that the steps meeting `C` keep, what follows from `C` in one step
follows in every step of a run. -/
theorem steps_of_invariant {I : σ → Prop} {C D : σ → ε → Prop}
    (hstep : ∀ s e, I s → C s e → D s e ∧ I (M.next s e)) {s : σ} {es : List ε} (hs : I s)
    (hC : M.Steps C s es) : M.Steps D s es := by
  induction es generalizing s with
  | nil => trivial
  | cons e es ih =>
      have hnext := hstep s e hs hC.1
      exact ⟨hnext.1, ih hnext.2 hC.2⟩

/-- What follows from an invariant that all steps keep holds of every step. -/
theorem steps_of_kept {I : σ → Prop} {D : σ → ε → Prop} (hkeep : ∀ s e, I s → I (M.next s e))
    (hD : ∀ s e, I s → D s e) {s : σ} (hs : I s) (es : List ε) : M.Steps D s es :=
  steps_of_invariant (fun s e h _ => ⟨hD s e h, hkeep s e h⟩) hs (steps_true s es)

/-- Conditions on steps that agree under an invariant agree on every run that starts in
it, if the steps that meet them keep it. -/
theorem steps_iff_of_invariant {I : σ → Prop} {C D : σ → ε → Prop}
    (hiff : ∀ s e, I s → (D s e ↔ C s e)) (hkeep : ∀ s e, I s → C s e → I (M.next s e)) {s : σ}
    (hs : I s) (es : List ε) : M.Steps D s es ↔ M.Steps C s es := by
  constructor
  · apply steps_of_invariant (I := I) _ hs
    intro s e h hD
    have hC := (hiff s e h).mp hD
    exact ⟨hC, hkeep s e h hC⟩
  · apply steps_of_invariant (I := I) _ hs
    intro s e h hC
    exact ⟨(hiff s e h).mpr hC, hkeep s e h hC⟩

/-- What holds between the outputs emitted so far and the current state, and is
kept by every step that meets `C`, holds at the end of a run. -/
theorem outputs_invariant {R : List ω → σ → Prop} {C : σ → ε → Prop}
    (hstep : ∀ l s e, R l s → C s e → R (l ++ [M.out s e]) (M.next s e))
    {l : List ω} {s : σ} {es : List ε} (h : R l s) (hC : M.Steps C s es) :
    R (l ++ M.outputs s es) (M.run s es) := by
  induction es generalizing l s with
  | nil => simpa [outputs, run] using h
  | cons e es ih =>
      have htail := ih (hstep l s e h hC.1) hC.2
      simpa [outputs, run, List.append_assoc] using htail

/-- What the outputs from states in `P` satisfy, all outputs of a run in `P` satisfy. -/
theorem Always.forall_outputs {P : σ → Prop} {Q : ω → Prop} {s : σ} {es : List ε}
    (h : M.Always P s es) (hQ : ∀ s e, P s → Q (M.out s e)) : ∀ o ∈ M.outputs s es, Q o := by
  induction es generalizing s with
  | nil => exact fun o ho => absurd ho List.not_mem_nil
  | cons e es ih =>
      rw [outputs, List.forall_mem_cons]
      exact ⟨hQ s e h.1, ih h.2⟩

/-- A map of machines: each step of `M` is a step of `N` on the images. -/
structure Hom {τ δ υ : Type*} (M : Machine σ ε ω) (N : Machine τ δ υ) where
  state : σ → τ
  event : ε → δ
  output : ω → υ
  next_eq : ∀ s e, state (M.next s e) = N.next (state s) (event e)
  out_eq : ∀ s e, output (M.out s e) = N.out (state s) (event e)

namespace Hom

variable {τ δ υ : Type*} {N : Machine τ δ υ} (f : Hom M N)

theorem run_map (s : σ) (es : List ε) :
    N.run (f.state s) (es.map f.event) = f.state (M.run s es) := by
  induction es generalizing s with
  | nil => rfl
  | cons e es ih => simp only [List.map_cons, run, ← f.next_eq, ih]

theorem outputs_map (s : σ) (es : List ε) :
    N.outputs (f.state s) (es.map f.event) = (M.outputs s es).map f.output := by
  induction es generalizing s with
  | nil => rfl
  | cons e es ih => simp only [List.map_cons, outputs, ← f.next_eq, ← f.out_eq, ih]

theorem steps_map {C : τ → δ → Prop} (s : σ) (es : List ε) :
    N.Steps C (f.state s) (es.map f.event) ↔
      M.Steps (fun s e => C (f.state s) (f.event e)) s es := by
  induction es generalizing s with
  | nil => exact Iff.rfl
  | cons e es ih => simp only [List.map_cons, Steps, ← f.next_eq, ih]

end Hom

/-- `N` simulates `M` through `f`: every step of `M` is matched, with the output `g`
of its output, by a step of `N` from the image of the state. -/
def Simulates {τ δ υ : Type*} (M : Machine σ ε ω) (N : Machine τ δ υ) (f : σ → τ)
    (g : ω → υ) : Prop :=
  ∀ s e, ∃ e', N.next (f s) e' = f (M.next s e) ∧ N.out (f s) e' = g (M.out s e)

theorem Simulates.exists_run {τ δ υ : Type*} {N : Machine τ δ υ} {f : σ → τ} {g : ω → υ}
    (h : Simulates M N f g) (s : σ) (es : List ε) :
    ∃ es', N.run (f s) es' = f (M.run s es) ∧
      N.outputs (f s) es' = (M.outputs s es).map g := by
  induction es generalizing s with
  | nil => exact ⟨[], rfl, rfl⟩
  | cons e es ih =>
      have ⟨e', hnext, hout⟩ := h s e
      have ⟨es', hrun, houts⟩ := ih (M.next s e)
      exists e' :: es'
      constructor
      · rw [run, hnext, hrun, run]
      · rw [outputs, hnext, hout, houts, outputs, List.map_cons]

@[simp] theorem outputs_append (s : σ) (es fs : List ε) :
    M.outputs s (es ++ fs) = M.outputs s es ++ M.outputs (M.run s es) fs := by
  induction es generalizing s with
  | nil => rfl
  | cons e es ih => exact congrArg (M.out s e :: ·) (ih (M.next s e))

/-- What the steps of a run contribute, one after the other. -/
def trace {δ : Type*} (M : Machine σ ε ω) (g : σ → ε → List δ) : σ → List ε → List δ
  | _, [] => []
  | s, e :: es => g s e ++ trace M g (M.next s e) es

/-- `R` relates the states of `M` to states of `N`, for which a step of `M` is a run over
the events `g` with the outputs `h`. -/
structure RefinesBy {τ δ υ : Type*} (M : Machine σ ε ω) (N : Machine τ δ υ) (R : σ → τ → Prop)
    (g : σ → ε → List δ) (h : σ → ε → List υ) : Prop where
  next : ∀ s t e, R s t → R (M.next s e) (N.run t (g s e))
  outputs : ∀ s t e, R s t → N.outputs t (g s e) = h s e

/-- A run of `M` is then a run of `N`. -/
theorem RefinesBy.run {τ δ υ : Type*} {N : Machine τ δ υ} {R : σ → τ → Prop}
    {g : σ → ε → List δ} {h : σ → ε → List υ} (hr : RefinesBy M N R g h) {s : σ} {t : τ}
    (hst : R s t) (es : List ε) :
    R (M.run s es) (N.run t (M.trace g s es)) ∧
      N.outputs t (M.trace g s es) = M.trace h s es := by
  induction es generalizing s t with
  | nil => exact ⟨hst, rfl⟩
  | cons e es ih =>
      obtain ⟨hrun, houts⟩ := ih (hr.next s t e hst)
      constructor
      · rwa [trace, run_append]
      · rw [trace, outputs_append, houts, hr.outputs s t e hst, trace]

theorem trace_const {δ : Type*} (g : ε → List δ) (s : σ) (es : List ε) :
    M.trace (fun _ e => g e) s es = es.flatMap g := by
  induction es generalizing s with
  | nil => rfl
  | cons e es ih => rw [trace, ih, List.flatMap_cons]

theorem trace_append {δ : Type*} (g : σ → ε → List δ) (s : σ) (es fs : List ε) :
    M.trace g s (es ++ fs) = M.trace g s es ++ M.trace g (M.run s es) fs := by
  induction es generalizing s with
  | nil => rfl
  | cons e es ih => rw [List.cons_append, trace, trace, ih, List.append_assoc, run]

/-- A legal run of `M` whose steps all meet `C` is a legal run of `N`, if each such step is one
over the events `g`. -/
theorem legal_trace {τ δ υ : Type*} {N : Machine τ δ υ} {R : σ → τ → Prop} {C : σ → ε → Prop}
    {g : σ → ε → List δ}
    (hnext : ∀ s t e, R s t → M.enabled s e → C s e →
      N.Legal t (g s e) ∧ R (M.next s e) (N.run t (g s e)))
    {s : σ} {t : τ} {es : List ε} (h : R s t) (hl : M.Legal s es) (hC : M.Steps C s es) :
    N.Legal t (M.trace g s es) ∧ R (M.run s es) (N.run t (M.trace g s es)) := by
  induction es generalizing s t with
  | nil => exact ⟨trivial, h⟩
  | cons e es ih =>
      obtain ⟨hlegal, hstep⟩ := hnext s t e h hl.1 hC.1
      obtain ⟨htail, hrun⟩ := ih hstep hl.2 hC.2
      constructor
      · exact (steps_append t _ _).mpr ⟨hlegal, htail⟩
      · rwa [trace, run_append]

/-- A legal run of `M` is matched by a legal run of `N`, if each step is matched by one. -/
theorem exists_legal_run {τ δ υ : Type*} {N : Machine τ δ υ} {R : σ → τ → Prop}
    (hnext : ∀ s t e, R s t → M.enabled s e →
      ∃ fs, N.Legal t fs ∧ R (M.next s e) (N.run t fs))
    {s : σ} {t : τ} {es : List ε} (h : R s t) (hl : M.Legal s es) :
    ∃ fs, N.Legal t fs ∧ R (M.run s es) (N.run t fs) := by
  induction es generalizing s t with
  | nil => exact ⟨[], trivial, h⟩
  | cons e es ih =>
      obtain ⟨fs, hlegal, hstep⟩ := hnext s t e h hl.1
      obtain ⟨gs, htail, hrun⟩ := ih hstep hl.2
      refine ⟨fs ++ gs, (steps_append t _ _).mpr ⟨hlegal, htail⟩, ?_⟩
      rwa [run_append]

/-- What the steps of `N` keep, the states of `M` that it matches show. -/
theorem always_of_matched {τ δ υ : Type*} {N : Machine τ δ υ} {R : σ → τ → Prop} {Q : τ → Prop}
    (hnext : ∀ s t e, R s t → M.enabled s e →
      ∃ fs, N.Legal t fs ∧ R (M.next s e) (N.run t fs))
    (hkeep : ∀ t e, Q t → N.enabled t e → Q (N.next t e))
    {s : σ} {t : τ} {es : List ε} (h : R s t) (ht : Q t) (hl : M.Legal s es) :
    M.Always (fun s => ∃ t, R s t ∧ Q t) s es := by
  apply always_of_invariant _ ⟨t, h, ht⟩ hl
  rintro s e ⟨t, h, ht⟩ he
  obtain ⟨fs, hlegal, hstep⟩ := hnext s t e h he
  exact ⟨N.run t fs, hstep, (always_of_invariant hkeep ht hlegal).run⟩

/-- Events of which the refined machine gets nothing can be left out of a run. -/
theorem RefinesBy.run_filter {τ δ υ : Type*} {N : Machine τ δ υ} {R : σ → τ → Prop}
    {g : ε → List δ} {h : σ → ε → List υ} (hr : RefinesBy M N R (fun _ e => g e) h) {s : σ}
    {t : τ} (hst : R s t) {keep : ε → Prop} [DecidablePred keep]
    (hdrop : ∀ e, ¬ keep e → g e = []) (es : List ε) :
    ∃ t', R (M.run s es) t' ∧ R (M.run s (es.filter keep)) t' := by
  have hsame : (es.filter keep).flatMap g = es.flatMap g := by
    induction es with
    | nil => rfl
    | cons e es ih => by_cases he : keep e <;> simp [he, hdrop, ih]
  have hfull := (hr.run hst es).1
  have hpart := (hr.run hst (es.filter keep)).1
  rw [trace_const] at hfull hpart
  exact ⟨N.run t (es.flatMap g), hfull, hsame ▸ hpart⟩

/-- The same machine, with what a step does to the state as its output. -/
def observe {υ : Type*} (M : Machine σ ε ω) (f : σ → σ → υ) : Machine σ ε υ where
  enabled := M.enabled
  next := M.next
  out s e := f s (M.next s e)

@[simp] theorem observe_run {υ : Type*} (f : σ → σ → υ) (s : σ) (es : List ε) :
    (M.observe f).run s es = M.run s es := by
  induction es generalizing s with
  | nil => rfl
  | cons e es ih => exact ih (M.next s e)

end Machine

end Transition
