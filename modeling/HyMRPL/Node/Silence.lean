import HyMRPL.Daemon.Callbacks
import HyMRPL.Node.ParentSwitches

/-!
# The silence of a parent

The liveness check compares the timestamp `parent_last_seen` with the clock. The timestamp is
written when the DODAG is created, when the parent is heard and when a neighbour is adopted.
In every run it is the time of the last DIO from the address that is the parent now. So a
check invalidates the parent exactly when that address was silent for the whole timeout, as
long as the timeout is a number. `reload_cb` also takes over a NaN, which is not `<= 0.0`; no
time is below a timeout that is NaN, and the next check invalidates any parent.

`WatchedNode` adds to a node what it heard when, and whether a check has invalidated the
parent since the last DIO. As the comments of the source have it, a parent is invalidated
when its rank is `UINT16_MAX`.
-/

namespace HyMRPL

open Transition

/-- `reload_cb`, for one DODAG. -/
def Dag.reload (newTrickleT : CDouble) (dag : Dag) : Dag :=
  if newTrickleT ≤ 0 then dag else { dag with trickleT := newTrickleT }

/-- What the daemon's `reload_cb` does to the DODAGs. -/
theorem dagsOf_reloadCb (newTrickleT : CDouble) (ifaces : List Iface) :
    dagsOf (reloadCb newTrickleT ifaces) = (dagsOf ifaces).map (Dag.reload newTrickleT) := by
  by_cases hvalue : newTrickleT ≤ 0
  · have hreload : Dag.reload newTrickleT = id := by
      funext dag
      simp [Dag.reload, hvalue]
    simp [reloadCb, hvalue, hreload]
  · have hreload : Dag.reload newTrickleT = fun dag => { dag with trickleT := newTrickleT } := by
      funext dag
      simp [Dag.reload, hvalue]
    simp [reloadCb, hvalue, hreload, dagsOf, List.flatMap_map, List.map_flatMap]

@[simp] theorem Dag.reload_parent (newTrickleT : CDouble) (dag : Dag) :
    (dag.reload newTrickleT).parent = dag.parent := by
  by_cases hvalue : newTrickleT ≤ 0 <;> simp [reload, hvalue]

@[simp] theorem Dag.reload_parentLastSeen (newTrickleT : CDouble) (dag : Dag) :
    (dag.reload newTrickleT).parentLastSeen = dag.parentLastSeen := by
  by_cases hvalue : newTrickleT ≤ 0 <;> simp [reload, hvalue]

@[simp] theorem Dag.reload_myRank (newTrickleT : CDouble) (dag : Dag) :
    (dag.reload newTrickleT).myRank = dag.myRank := by
  by_cases hvalue : newTrickleT ≤ 0 <;> simp [reload, hvalue]

@[simp] theorem Dag.reload_dest (newTrickleT : CDouble) (dag : Dag) :
    (dag.reload newTrickleT).dest = dag.dest := by
  by_cases hvalue : newTrickleT ≤ 0 <;> simp [reload, hvalue]

@[simp] theorem Dag.reload_validParent (newTrickleT : CDouble) (dag : Dag) :
    (dag.reload newTrickleT).validParent = dag.validParent := by
  simp [validParent]

/-- What happens to a node whose trickle period can be reloaded. -/
inductive WatchEvent
  | node (e : NodeEvent)
  | reload (newTrickleT : CDouble)

/-- A step invalidates the parent: it was valid, and is no more. -/
def Invalidates (old new : Option Dag) : Prop := nodeParent old ≠ none ∧ nodeParent new = none

instance (old new : Option Dag) : Decidable (Invalidates old new) :=
  inferInstanceAs (Decidable (_ ∧ _))

/-- A node with the time of the last DIO that it processed from each address. It has lost
its parent when a check has invalidated it and no DIO was processed since. -/
structure WatchedNode where
  dag : Option Dag
  heardAt : In6Addr → Option ℚ
  lost : Bool

namespace WatchedNode

def start : WatchedNode := ⟨none, fun _ => none, false⟩

/-- A DIO is processed when `process_dio` has a DODAG to work on. -/
def next (iface : NodeConfig) (adaptiveEnabled : Bool) (node : WatchedNode) :
    WatchEvent → WatchedNode
  | .node (.dio now alloc dio src) =>
    let dag := (nodeStep iface adaptiveEnabled node.dag (.dio now alloc dio src)).1
    match dioTarget now alloc iface node.dag dio with
    | some _ => ⟨dag, Function.update node.heardAt src (some now), false⟩
    | none => { node with dag := dag }
  | .node (.parentCheck now) =>
    let dag := (nodeStep iface adaptiveEnabled node.dag (.parentCheck now)).1
    { node with dag := dag, lost := node.lost || decide (Invalidates node.dag dag) }
  | .reload newTrickleT => { node with dag := node.dag.map (Dag.reload newTrickleT) }

/-- The calls that a step makes. -/
def out (iface : NodeConfig) (adaptiveEnabled : Bool) (node : WatchedNode) :
    WatchEvent → List Action
  | .node e => (nodeStep iface adaptiveEnabled node.dag e).2
  | .reload _ => []

def machine (iface : NodeConfig) (adaptiveEnabled : Bool) :
    Machine WatchedNode WatchEvent (List Action) where
  enabled _ _ := True
  next := next iface adaptiveEnabled
  out := out iface adaptiveEnabled

/-- The parent is valid, and the last DIO from its address is older than the timeout. -/
def Silent (node : WatchedNode) (dag : Dag) (now : ℚ) : Prop :=
  ∃ p heard, dag.parent = some p ∧ p.rank ≠ uint16Max ∧ node.heardAt p.addr = some heard ∧
    dag.timeout ≤ ((now - heard : ℚ) : CDouble)

variable (iface : NodeConfig) (adaptiveEnabled : Bool) in
/-- A check invalidates the parent exactly when it was silent, and else does nothing. -/
def ChecksSilence (node : WatchedNode) : WatchEvent → Prop
  | .node (.parentCheck now) => ∀ dag, node.dag = some dag → dag.myRank ≠ 1 →
      (Invalidates node.dag (node.next iface adaptiveEnabled (.node (.parentCheck now))).dag ↔
        node.Silent dag now) ∧
      (¬ node.Silent dag now →
        node.next iface adaptiveEnabled (.node (.parentCheck now)) = node ∧
          node.out iface adaptiveEnabled (.node (.parentCheck now)) = [])
  | _ => True

variable (iface : NodeConfig) (adaptiveEnabled : Bool) in
/-- A node that has lost its parent takes the sender of any DIO, and processes every DIO. -/
def AdoptsSender (node : WatchedNode) : WatchEvent → Prop
  | .node (.dio now alloc dio src) => node.lost = true →
      parentAddr (node.next iface adaptiveEnabled (.node (.dio now alloc dio src))).dag =
        some src ∧
      (node.next iface adaptiveEnabled (.node (.dio now alloc dio src))).lost = false
  | _ => True

/-- A check that finds a valid parent finds a trickle period that is a number. -/
def PeriodIsNumber (node : WatchedNode) : WatchEvent → Prop
  | .node (.parentCheck _) => ∀ dag, node.dag = some dag → dag.myRank ≠ 1 →
      dag.validParent ≠ none → dag.trickleT ≠ .nan
  | _ => True

/-- The timestamp is the time of the last DIO from the parent, and a lost parent is still
recorded, as invalid. -/
structure Watched (node : WatchedNode) : Prop where
  seen : ∀ dag p, node.dag = some dag → dag.parent = some p →
    node.heardAt p.addr = some dag.parentLastSeen
  lost : node.lost = true → ∃ dag p, node.dag = some dag ∧ dag.parent = some p ∧
    dag.validParent = none ∧ dag.myRank = uint16Max

variable {iface : NodeConfig} {adaptiveEnabled : Bool} {node : WatchedNode}

theorem watched_start : Watched start := by
  constructor
  · intro dag p hdag
    simp [start] at hdag
  · intro hlost
    simp [start] at hlost

section Check

variable {dag : Dag} {now : ℚ}

theorem next_parentCheck_of_timedOut (hdag : node.dag = some dag) (h : dag.TimedOut now) :
    node.next iface adaptiveEnabled (.node (.parentCheck now)) =
      { node with dag := some dag.invalidate, lost := true } := by
  have hinvalidates : Invalidates (some dag) (some dag.invalidate) := by
    simpa [Invalidates, nodeParent] using h.2.1
  simp [next, hdag, nodeStep_of_timedOut h, hinvalidates]

theorem next_parentCheck_of_not_timedOut (h : ∀ dag, node.dag = some dag → ¬ dag.TimedOut now)
    (iface : NodeConfig) (adaptiveEnabled : Bool) :
    node.next iface adaptiveEnabled (.node (.parentCheck now)) = node ∧
      node.out iface adaptiveEnabled (.node (.parentCheck now)) = [] := by
  have hself : ¬ Invalidates node.dag node.dag := fun hinv => hinv.1 hinv.2
  simp [next, out, nodeStep_of_not_timedOut h, hself]

theorem timeout_eq_nan_iff : dag.timeout = .nan ↔ dag.trickleT = .nan :=
  CDouble.num_mul_eq_nan_iff (by decide)

theorem not_silent_of_nan (h : dag.trickleT = .nan) : ¬ node.Silent dag now := by
  rintro ⟨p, heard, -, -, -, htime⟩
  rw [timeout_eq_nan_iff.mpr h] at htime
  exact CDouble.not_nan_le htime

/-- The check reads the timestamp, which is the time of the last DIO from the parent. -/
theorem Watched.timedOut_iff (h : Watched node) (hdag : node.dag = some dag)
    (hroot : dag.myRank ≠ 1) :
    dag.TimedOut now ↔ node.Silent dag now ∨ dag.validParent ≠ none ∧ dag.trickleT = .nan := by
  constructor
  · rintro ⟨-, hvalid, htime⟩
    rcases CDouble.not_num_lt_iff.mp htime with hnan | htime
    · exact Or.inr ⟨hvalid, timeout_eq_nan_iff.mp hnan⟩
    · obtain ⟨a, ha⟩ := Option.ne_none_iff_exists'.mp hvalid
      obtain ⟨p, hp, hmax, -⟩ := (dag.validParent_eq_some_iff a).mp ha
      exact Or.inl ⟨p, dag.parentLastSeen, hp, hmax, h.seen dag p hdag hp, htime⟩
  · rintro (⟨p, heard, hp, hmax, hheard, htime⟩ | ⟨hvalid, hnan⟩)
    · obtain rfl : dag.parentLastSeen = heard :=
        Option.some.inj ((h.seen dag p hdag hp).symm.trans hheard)
      refine ⟨hroot, ?_, CDouble.not_num_lt_iff.mpr (Or.inr htime)⟩
      rw [(dag.validParent_eq_some_iff p.addr).mpr ⟨p, hp, hmax, rfl⟩]
      exact Option.some_ne_none _
    · exact ⟨hroot, hvalid, CDouble.not_num_lt_iff.mpr (Or.inl (timeout_eq_nan_iff.mpr hnan))⟩

/-- With a number as the period, the check fires exactly when the parent was silent. -/
theorem Watched.timedOut_iff_silent (h : Watched node) (hdag : node.dag = some dag)
    (hroot : dag.myRank ≠ 1) (hperiod : dag.validParent ≠ none → dag.trickleT ≠ .nan) :
    dag.TimedOut now ↔ node.Silent dag now := by
  rw [h.timedOut_iff hdag hroot, or_iff_left]
  exact fun hnan => hperiod hnan.1 hnan.2

theorem Watched.checksSilence (h : Watched node)
    (hperiod : PeriodIsNumber node (.node (.parentCheck now))) :
    ChecksSilence iface adaptiveEnabled node (.node (.parentCheck now)) := by
  intro dag hdag hroot
  rw [← h.timedOut_iff_silent hdag hroot (hperiod dag hdag hroot)]
  by_cases htimeout : dag.TimedOut now
  · rw [next_parentCheck_of_timedOut hdag htimeout, hdag]
    simpa [Invalidates, nodeParent, htimeout] using htimeout.2.1
  · have hnone : ∀ dag, node.dag = some dag → ¬ dag.TimedOut now := by
      intro dag' hdag'
      obtain rfl := Option.some.inj (hdag.symm.trans hdag')
      exact htimeout
    have hkept := next_parentCheck_of_not_timedOut hnone iface adaptiveEnabled
    refine ⟨?_, fun _ => hkept⟩
    rw [hkept.1]
    exact iff_of_false (fun hinv => hinv.1 hinv.2) htimeout

/-- With NaN as the period, the check invalidates a parent that was not silent. -/
theorem Watched.periodIsNumber (h : Watched node)
    (hchecks : ChecksSilence iface adaptiveEnabled node (.node (.parentCheck now))) :
    PeriodIsNumber node (.node (.parentCheck now)) := by
  intro dag hdag hroot hvalid hnan
  have htimeout : dag.TimedOut now := (h.timedOut_iff hdag hroot).mpr (Or.inr ⟨hvalid, hnan⟩)
  apply not_silent_of_nan hnan
  rw [← (hchecks dag hdag hroot).1, next_parentCheck_of_timedOut hdag htimeout, hdag]
  simpa [Invalidates, nodeParent] using hvalid

theorem Watched.next_parentCheck (h : Watched node) (now : ℚ) :
    Watched (node.next iface adaptiveEnabled (.node (.parentCheck now))) := by
  by_cases htimeout : ∃ dag, node.dag = some dag ∧ dag.TimedOut now
  · obtain ⟨dag, hdag, htimeout⟩ := htimeout
    rw [next_parentCheck_of_timedOut hdag htimeout]
    obtain ⟨a, ha⟩ := Option.ne_none_iff_exists'.mp htimeout.2.1
    obtain ⟨p, hp, -, -⟩ := (dag.validParent_eq_some_iff a).mp ha
    have hparent : dag.invalidate.parent = some { p with rank := uint16Max } := by
      simp [Dag.invalidate, hp]
    constructor
    · rintro new q ⟨⟩ hq
      obtain rfl := Option.some.inj (hparent.symm.trans hq)
      exact h.seen dag p hdag hp
    · intro _
      exact ⟨dag.invalidate, _, rfl, hparent, dag.invalidate_validParent, rfl⟩
  · have hnone : ∀ dag, node.dag = some dag → ¬ dag.TimedOut now :=
      fun dag hdag ht => htimeout ⟨dag, hdag, ht⟩
    rwa [(next_parentCheck_of_not_timedOut hnone iface adaptiveEnabled).1]

end Check

section Dio

variable {now : ℚ} {alloc : Alloc} {dio : Dio} {src : In6Addr} {dag : Dag}

theorem next_dio_of_target (ht : dioTarget now alloc iface node.dag dio = some dag) :
    node.next iface adaptiveEnabled (.node (.dio now alloc dio src)) =
      ⟨some (dioUpdate iface.dagOps now alloc.peer dag src dio.dagrank).1,
        Function.update node.heardAt src (some now), false⟩ := by
  simp [next, nodeStep_of_target ht, ht]

theorem next_dio_of_no_target (ht : dioTarget now alloc iface node.dag dio = none) :
    node.next iface adaptiveEnabled (.node (.dio now alloc dio src)) = node := by
  simp [next, nodeStep_of_no_target ht, ht]

/-- After a DIO the timestamp is still the time of the last DIO from the parent: an adopted
parent and a parent that is heard are stamped, and another sender is not the parent. -/
theorem Watched.seen_dio (h : Watched node)
    (ht : dioTarget now alloc iface node.dag dio = some dag) {p : Peer}
    (hp : (dioUpdate iface.dagOps now alloc.peer dag src dio.dagrank).1.parent = some p) :
    Function.update node.heardAt src (some now) p.addr =
      some (dioUpdate iface.dagOps now alloc.peer dag src dio.dagrank).1.parentLastSeen := by
  rcases dioUpdate_cases dag alloc.peer with ⟨hnone, hpeer⟩ | hadopts | ⟨q, hq, hmax⟩
  · simp [hpeer, dioUpdate_of_no_peer hnone, hnone] at hp
  · rw [dioUpdate_of_adopts hadopts] at hp ⊢
    obtain rfl : ⟨src, dio.dagrank⟩ = p := by simpa [Dag.adopt] using hp
    simp [Dag.adopt]
  · have hdag : node.dag = some dag := by
      rcases dioTarget_cases ht with ⟨hdag, -⟩ | ⟨-, hnone, -⟩
      · exact hdag
      · simp [hq] at hnone
    have hold := h.seen dag q hdag hq
    rw [dioUpdate_of_valid hq hmax, Dag.refresh_parent hq] at hp
    obtain rfl := Option.some.inj hp
    rw [dioUpdate_of_valid hq hmax]
    by_cases hrank : q.rank < dio.dagrank <;> by_cases haddr : q.addr = src <;>
      simp [Dag.refresh, hrank, haddr, hold]

theorem Watched.next_dio (h : Watched node) :
    Watched (node.next iface adaptiveEnabled (.node (.dio now alloc dio src))) := by
  cases ht : dioTarget now alloc iface node.dag dio with
  | none => rwa [next_dio_of_no_target ht]
  | some dag =>
      rw [next_dio_of_target ht]
      constructor
      · rintro new p ⟨⟩ hp
        exact h.seen_dio ht hp
      · intro hlost
        simp at hlost

/-- A node that has lost its parent is no root, and its parent is invalid. -/
theorem Watched.adoptsSender (h : Watched node) :
    AdoptsSender iface adaptiveEnabled node (.node (.dio now alloc dio src)) := by
  intro hlost
  obtain ⟨dag, p, hdag, hp, hinvalid, hrank⟩ := h.lost hlost
  have hroot : dag.myRank ≠ 1 := by
    rw [hrank]
    decide
  have ht : dioTarget now alloc iface node.dag dio = some dag := by
    simp [dioTarget, hdag, hroot]
  have hadopts : dag.Adopts alloc.peer := ⟨hinvalid, by simp [hp]⟩
  rw [next_dio_of_target ht, dioUpdate_of_adopts hadopts]
  exact ⟨rfl, rfl⟩

end Dio

theorem Watched.next_reload (h : Watched node) (newTrickleT : CDouble) :
    Watched (node.next iface adaptiveEnabled (.reload newTrickleT)) := by
  constructor
  · intro new p hnew hp
    obtain ⟨dag, hdag, rfl⟩ := Option.map_eq_some_iff.mp hnew
    rw [Dag.reload_parent] at hp
    rw [Dag.reload_parentLastSeen]
    exact h.seen dag p hdag hp
  · intro hlost
    obtain ⟨dag, p, hdag, hp, hinvalid, hrank⟩ := h.lost hlost
    exact ⟨dag.reload newTrickleT, p, by simp [next, hdag], by simpa using hp,
      by simpa using hinvalid, by simpa using hrank⟩

/-- The step lemma. -/
theorem Watched.next (h : Watched node) (e : WatchEvent) :
    Watched (node.next iface adaptiveEnabled e) := by
  cases e with
  | reload newTrickleT => exact h.next_reload newTrickleT
  | node e =>
      cases e with
      | dio now alloc dio src => exact h.next_dio
      | parentCheck now => exact h.next_parentCheck now

/-- In every run, each check invalidates the parent exactly when its address was silent for
the timeout, and the next DIO after that makes its sender the parent, if and only if no check
of a valid parent finds NaN as the trickle period. -/
theorem invalidated_iff_silent (iface : NodeConfig) (adaptiveEnabled : Bool)
    (es : List WatchEvent) :
    (machine iface adaptiveEnabled).Steps
        (fun node e => ChecksSilence iface adaptiveEnabled node e ∧
          AdoptsSender iface adaptiveEnabled node e) start es ↔
      (machine iface adaptiveEnabled).Steps PeriodIsNumber start es := by
  apply Machine.steps_iff_of_invariant (I := Watched)
  · intro node e h
    cases e with
    | reload newTrickleT => exact iff_of_true ⟨trivial, trivial⟩ trivial
    | node e =>
        cases e with
        | dio now alloc dio src => exact iff_of_true ⟨trivial, h.adoptsSender⟩ trivial
        | parentCheck now =>
            exact ⟨fun hchecks => h.periodIsNumber hchecks.1,
              fun hperiod => ⟨h.checksSilence hperiod, trivial⟩⟩
  · exact fun _ e h _ => h.next e
  · exact watched_start

/-- `fe80::9` joins below `fe80::1`, and NaN is reloaded. -/
def nanPeriod : List WatchEvent :=
  [.node (.dio 1 ⟨true, true⟩ (hybridDio 1) (linkLocal 1)), .reload .nan]

/-- The next check invalidates the parent, which was heard a second ago. -/
theorem nanPeriod_invalidates :
    let M := machine (hybridNet.iface (linkLocal 9)) true
    let node := M.run start nanPeriod
    nodeParent node.dag = some (linkLocal 1) ∧ node.heardAt (linkLocal 1) = some 1 ∧
      Invalidates node.dag (M.next node (.node (.parentCheck 2))).dag ∧
      ¬ M.Steps (fun node e => ChecksSilence (hybridNet.iface (linkLocal 9)) true node e ∧
        AdoptsSender (hybridNet.iface (linkLocal 9)) true node e) start
          (nanPeriod ++ [.node (.parentCheck 2)]) := by
  intro M node
  have hinvalidates : Invalidates node.dag (M.next node (.node (.parentCheck 2))).dag := by
    decide +kernel
  refine ⟨by decide +kernel, by decide +kernel, hinvalidates, fun h => ?_⟩
  obtain ⟨dag, hdag, hroot, hnan⟩ : ∃ dag, node.dag = some dag ∧ dag.myRank ≠ 1 ∧
      dag.trickleT = .nan :=
    ⟨node.dag.get (by decide +kernel), by simp, by decide +kernel, by decide +kernel⟩
  have hchecks := ((Machine.steps_append start nanPeriod _).mp h).2.1.1 dag hdag hroot
  exact not_silent_of_nan hnan (hchecks.1.mp hinvalidates)

end WatchedNode

end HyMRPL
