import HyMRPL.Foundation.Machine
import Mathlib.Data.Finset.Card
import Mathlib.Logic.Function.Basic

/-!
# Counting hops by announcements

Vertices announce to their neighbours how many hops they are from a root, and a vertex that
hears a count takes the next number, if it has none or a larger one. An announcement may be
heard at any later time, any number of times, or never.

Every count is the length of a walk from the root (`Sound`), and counts never rise. If in
each of some rounds every vertex hears its neighbours, vertices up to that many hops away
have their distance (`count_le_of_rounds`). The counts stay below the number of vertices
(`Below`).
-/

namespace HopCount

open Transition

variable {α : Type*}

/-- A walk of `n` links leads from the root to the vertex. -/
def Walk (link : α → α → Prop) (root : α) : ℕ → α → Prop
  | 0, v => v = root
  | n + 1, v => ∃ u, Walk link root n u ∧ link u v

/-- The shortest walk from the root has `n` links. -/
structure Distance (link : α → α → Prop) (root : α) (n : ℕ) (v : α) : Prop where
  walk : Walk link root n v
  le : ∀ m, Walk link root m v → n ≤ m

/-- The counts of the vertices, and the announcements made so far. -/
structure Counts (α : Type*) where
  count : α → Option ℕ
  sent : List (α × ℕ)

/-- A vertex announces its count, or `v` hears the count `k` of `u`. -/
inductive Event (α : Type*)
  | announce (u : α)
  | hear (u v : α) (k : ℕ)

/-- The count of a vertex that hears the count `k`. -/
def relax (count : Option ℕ) (k : ℕ) : ℕ :=
  match count with
  | none => k + 1
  | some c => min c (k + 1)

variable [DecidableEq α]

/-- Only what was announced is heard, by the neighbours. -/
def counting (link : α → α → Prop) : Machine (Counts α) (Event α) Unit where
  enabled s
    | .announce u => (s.count u).isSome
    | .hear u v k => (u, k) ∈ s.sent ∧ link u v
  next s
    | .announce u =>
      match s.count u with
      | some k => { s with sent := (u, k) :: s.sent }
      | none => s
    | .hear _ v k => { s with count := Function.update s.count v (some (relax (s.count v) k)) }
  out _ _ := ()

/-- Only the root has a count. -/
def init (root : α) : Counts α := ⟨Function.update (fun _ => none) root (some 0), []⟩

variable {link : α → α → Prop} {root u v w : α} {s : Counts α} {k c n : ℕ}

@[simp] theorem announce_count (u : α) :
    ((counting link).next s (.announce u)).count = s.count := by
  cases h : s.count u <;> simp [counting, h]

theorem announce_sent (h : s.count u = some k) :
    ((counting link).next s (.announce u)).sent = (u, k) :: s.sent := by
  simp [counting, h]

@[simp] theorem hear_count (u v : α) (k : ℕ) :
    ((counting link).next s (.hear u v k)).count =
      Function.update s.count v (some (relax (s.count v) k)) := rfl

theorem relax_le_succ (count : Option ℕ) (k : ℕ) : relax count k ≤ k + 1 := by
  cases count with
  | none => exact le_rfl
  | some c => exact min_le_right _ _

/-- The root keeps its count, and all counts, in the vertices or announced, are lengths of
walks. -/
structure Sound (link : α → α → Prop) (root : α) (s : Counts α) : Prop where
  root_eq : s.count root = some 0
  count : ∀ v c, s.count v = some c → Walk link root c v
  sent : ∀ p ∈ s.sent, Walk link root p.2 p.1

theorem sound_init : Sound link root (init root) := by
  constructor
  case root_eq => simp [init]
  case count =>
    intro v c hc
    by_cases hv : v = root
    · obtain rfl : 0 = c := by simpa [init, hv] using hc
      exact hv
    · simp [init, hv] at hc
  case sent => simp [init]

/-- The step lemma. -/
theorem Sound.next (h : Sound link root s) {e : Event α} (he : (counting link).enabled s e) :
    Sound link root ((counting link).next s e) := by
  cases e with
  | announce u =>
      obtain ⟨k, hk⟩ := Option.isSome_iff_exists.mp he
      refine ⟨by rw [announce_count]; exact h.root_eq, by rw [announce_count]; exact h.count, ?_⟩
      rw [announce_sent hk, List.forall_mem_cons]
      exact ⟨h.count u k hk, h.sent⟩
  | hear u v k =>
      obtain ⟨hsent, hlink⟩ := he
      have hwalk : Walk link root (relax (s.count v) k) v := by
        cases hv : s.count v with
        | none => exact ⟨u, h.sent _ hsent, hlink⟩
        | some c =>
            rcases min_choice c (k + 1) with hmin | hmin
            · rw [relax, hmin]
              exact h.count v c hv
            · rw [relax, hmin]
              exact ⟨u, h.sent _ hsent, hlink⟩
      refine ⟨?_, ?_, h.sent⟩
      · rw [hear_count]
        by_cases hv : root = v
        · subst hv
          simp [h.root_eq, relax]
        · simpa [hv] using h.root_eq
      · intro w c hc
        rw [hear_count] at hc
        by_cases hw : w = v
        · subst hw
          obtain rfl : relax (s.count w) k = c := by simpa using hc
          exact hwalk
        · exact h.count w c (by simpa [hw] using hc)

/-- A vertex that has a count keeps one that is no larger. -/
def AtMost (s : Counts α) (v : α) (n : ℕ) : Prop := ∃ c, s.count v = some c ∧ c ≤ n

theorem AtMost.next (h : AtMost s v n) (e : Event α) :
    AtMost ((counting link).next s e) v n := by
  obtain ⟨c, hc, hle⟩ := h
  cases e with
  | announce u => exact ⟨c, by simpa using hc, hle⟩
  | hear u w k =>
      by_cases hv : v = w
      · subst hv
        refine ⟨relax (s.count v) k, by simp, ?_⟩
        rw [hc]
        exact (min_le_left c (k + 1)).trans hle
      · exact ⟨c, by simpa [hv] using hc, hle⟩

theorem AtMost.run (h : AtMost s v n) (es : List (Event α)) :
    AtMost ((counting link).run s es) v n := by
  induction es generalizing s with
  | nil => exact h
  | cons e es ih => exact ih (h.next e)

/-- In a round every vertex but the root hears from each neighbour that has a count one that
is no larger. -/
def Round (link : α → α → Prop) (root : α) (s : Counts α) (es : List (Event α)) : Prop :=
  ∀ u v c, link u v → v ≠ root → s.count u = some c →
    ∃ before after k, es = before ++ .hear u v k :: after ∧ k ≤ c

/-- After a round the counts are right one hop further. -/
theorem Round.atMost {es : List (Event α)} (h : Round link root s es)
    (hroot : s.count root = some 0) (hn : ∀ v, Walk link root n v → AtMost s v n)
    (hv : Walk link root (n + 1) v) :
    AtMost ((counting link).run s es) v (n + 1) := by
  obtain ⟨u, hu, hlink⟩ := hv
  by_cases hne : v = root
  · subst hne
    exact AtMost.run ⟨0, hroot, Nat.zero_le _⟩ es
  · obtain ⟨c, hc, hle⟩ := hn u hu
    obtain ⟨before, after, k, rfl, hk⟩ := h u v c hlink hne hc
    rw [Machine.run_append]
    refine AtMost.run (s := (counting link).next _ (.hear u v k)) ?_ after
    refine ⟨_, by simp; rfl, (relax_le_succ _ k).trans ?_⟩
    omega

/-- The counts after some rounds. -/
theorem count_le_of_rounds {rounds : List (List (Event α))}
    (h : (counting link).Rounds (Round link root) s rounds)
    (hn : ∀ m ≤ n, ∀ v, Walk link root m v → AtMost s v m) :
    ∀ m ≤ n + rounds.length, ∀ v, Walk link root m v →
      AtMost ((counting link).run s rounds.flatten) v m := by
  refine h.run (P := fun n s => ∀ m ≤ n, ∀ v, Walk link root m v → AtMost s v m) ?_ hn
  intro n s es hn hround m hm v hv
  obtain ⟨c, hc, hzero⟩ := hn 0 (Nat.zero_le n) root rfl
  obtain rfl := Nat.le_zero.mp hzero
  cases m with
  | zero => exact (hn 0 (Nat.zero_le n) v hv).run es
  | succ m => exact hround.atMost hc (hn m (by omega)) hv

/-- The vertices of the set that have a count. -/
def joined (vertices : Finset α) (s : Counts α) : Finset α :=
  vertices.filter fun v => (s.count v).isSome

omit [DecidableEq α] in
theorem mem_joined {vertices : Finset α} :
    v ∈ joined vertices s ↔ v ∈ vertices ∧ (s.count v).isSome := Finset.mem_filter

/-- The counts are below the number of vertices that have one. -/
structure Below (vertices : Finset α) (s : Counts α) : Prop where
  count : ∀ v c, s.count v = some c → v ∈ vertices ∧ c < (joined vertices s).card
  sent : ∀ p ∈ s.sent, p.1 ∈ vertices ∧ p.2 < (joined vertices s).card

theorem below_init {vertices : Finset α} (hroot : root ∈ vertices) :
    Below vertices (init root) := by
  constructor
  case count =>
    intro v c hc
    by_cases hv : v = root
    · subst hv
      obtain rfl : 0 = c := by simpa [init] using hc
      exact ⟨hroot, Finset.card_pos.mpr ⟨v, mem_joined.mpr ⟨hroot, by simp [init]⟩⟩⟩
    · simp [init, hv] at hc
  case sent => simp [init]

/-- A vertex that gets its first count is one more. -/
theorem joined_hear {vertices : Finset α} (hv : v ∈ vertices) (hnone : s.count v = none) :
    (joined vertices ((counting link).next s (.hear u v k))).card =
      (joined vertices s).card + 1 := by
  have hinsert : joined vertices ((counting link).next s (.hear u v k)) =
      insert v (joined vertices s) := by
    ext w
    by_cases hw : w = v
    · subst hw
      simp [mem_joined, hv]
    · simp [mem_joined, hw]
  rw [hinsert, Finset.card_insert_of_notMem (by simp [mem_joined, hnone])]

theorem joined_hear_of_isSome {vertices : Finset α} (hsome : (s.count v).isSome) :
    joined vertices ((counting link).next s (.hear u v k)) = joined vertices s := by
  ext w
  by_cases hw : w = v
  · subst hw
    simp [mem_joined, hsome]
  · simp [mem_joined, hw]

/-- The step lemma, for a set of vertices that the links do not leave. -/
theorem Below.next {vertices : Finset α} (h : Below vertices s)
    (hclosed : ∀ u ∈ vertices, ∀ v, link u v → v ∈ vertices) {e : Event α}
    (he : (counting link).enabled s e) : Below vertices ((counting link).next s e) := by
  cases e with
  | announce u =>
      obtain ⟨k, hk⟩ := Option.isSome_iff_exists.mp he
      have hjoined : joined vertices ((counting link).next s (.announce u)) =
          joined vertices s := by
        rw [joined, announce_count, joined]
      refine ⟨by rw [hjoined, announce_count]; exact h.count, ?_⟩
      rw [hjoined, announce_sent hk, List.forall_mem_cons]
      exact ⟨h.count u k hk, h.sent⟩
  | hear u v k =>
      obtain ⟨hsent, hlink⟩ := he
      obtain ⟨hu, hk⟩ := h.sent _ hsent
      have hv := hclosed u hu v hlink
      -- There are no fewer counts than before, and the new one is below their number.
      have hcard : (joined vertices s).card ≤
            (joined vertices ((counting link).next s (.hear u v k))).card ∧
          relax (s.count v) k <
            (joined vertices ((counting link).next s (.hear u v k))).card := by
        cases hc : s.count v with
        | none =>
            rw [joined_hear hv hc]
            exact ⟨Nat.le_succ _, Nat.succ_lt_succ hk⟩
        | some c =>
            rw [joined_hear_of_isSome (by rw [hc]; rfl)]
            exact ⟨le_rfl, (min_le_left _ _).trans_lt (h.count v c hc).2⟩
      constructor
      case count =>
        intro w c hc
        rw [hear_count] at hc
        by_cases hw : w = v
        · subst hw
          obtain rfl : relax (s.count w) k = c := by simpa using hc
          exact ⟨hv, hcard.2⟩
        · obtain ⟨hmem, hlt⟩ := h.count w c (by simpa [hw] using hc)
          exact ⟨hmem, hlt.trans_le hcard.1⟩
      case sent => exact fun p hp => ⟨(h.sent p hp).1, (h.sent p hp).2.trans_le hcard.1⟩

omit [DecidableEq α] in
theorem Below.sent_lt {vertices : Finset α} (h : Below vertices s) (hsent : (u, k) ∈ s.sent) :
    k < vertices.card :=
  (h.sent _ hsent).2.trans_le (Finset.card_filter_le _ _)

omit [DecidableEq α] in
theorem Below.count_lt {vertices : Finset α} (h : Below vertices s) (hc : s.count v = some c) :
    c < vertices.card :=
  (h.count v c hc).2.trans_le (Finset.card_filter_le _ _)

end HopCount
