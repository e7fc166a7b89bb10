import HyMRPL.Foundation.HopCount
import HyMRPL.Network.Agreement
import Mathlib.Data.Finset.Insert

/-!
# Ranks converge to distances

While no parent times out, a node stores the smallest rank that it has heard, whoever sent
it, and has the next one itself. So a network without timeouts counts hops: it is a run of
`HopCount.counting`, where a node with the count `c` has the rank `c + 1`. In fewer than
65535 nodes no rank wraps.

Every rank is then one more than the length of a path of neighbours from the root; and when
in each of some rounds every node hears a fresh DIO of each neighbour, the nodes up to that
many hops away have the rank of their distance, and keep it.
-/

namespace HyMRPL

open Transition HopCount

namespace NetConfig

variable (cfg : NetConfig)

/-- There is memory for the peer, and a check does not find the parent silent. -/
def Steady (net : Net) : NetEvent → Prop
  | .trickle _ => True
  | .node _ (.dio _ alloc _ _) => alloc.peer = true
  | .node v (.parentCheck now) => ∀ dag ∈ net.dag v, ¬ dag.TimedOut now

instance (dag : Dag) (now : ℚ) : Decidable (dag.TimedOut now) :=
  inferInstanceAs (Decidable (_ ∧ _ ∧ _))

instance (net : Net) (e : NetEvent) : Decidable (Steady net e) :=
  match e with
  | .trickle _ => .isTrue trivial
  | .node _ (.dio _ alloc _ _) => inferInstanceAs (Decidable (alloc.peer = true))
  | .node v (.parentCheck now) =>
    inferInstanceAs (Decidable (∀ dag ∈ net.dag v, ¬ dag.TimedOut now))

/-- A trickle timer announces the count, and a DIO that the node looks at is heard. -/
def hops (net : Net) : NetEvent → List (HopCount.Event In6Addr)
  | .trickle v => [.announce v]
  | .node v (.dio now alloc dio src) =>
    if (dioTarget now alloc (cfg.iface v) (net.dag v) dio).isSome then
      [.hear src v (dio.dagrank.toNat - 1)]
    else []
  | .node _ (.parentCheck _) => []

/-- In a round every node but the root hears from each neighbour a DIO with a rank that is no
larger than the neighbour's rank at the start of the round. -/
def Round (net : Net) (es : List NetEvent) : Prop :=
  ∀ u v dag, cfg.neighbour u v → v ≠ cfg.root → net.dag u = some dag →
    ∃ before now alloc dio after, es = before ++ .node v (.dio now alloc dio u) :: after ∧
      alloc.dag = true ∧ dio.dagrank ≤ dag.myRank

end NetConfig

/-- The nodes that have joined have the counts, and their parents the ranks before; the DIOs
sent announce counts and have a prefix. -/
structure Net.Counted (cfg : NetConfig) (nodes : Finset In6Addr) (net : Net)
    (s : Counts In6Addr) : Prop where
  root : net.dag cfg.root = some cfg.rootDag
  dag : ∀ v dag, net.dag v = some dag → ∃ c, s.count v = some c ∧ dag.myRank.toNat = c + 1 ∧
    (v ≠ cfg.root → ∃ p, dag.parent = some p ∧ p.rank.toNat = c)
  unjoined : ∀ v, net.dag v = none → s.count v = none
  sent : ∀ p ∈ net.sent, p.2.dest ≠ none ∧ ∃ k, p.2.dagrank.toNat = k + 1 ∧ (p.1, k) ∈ s.sent
  sound : Sound cfg.neighbour cfg.root s
  below : Below nodes s

/-- A finite set of nodes with the root, which no link leaves, and small enough for ranks of
16 bits. -/
structure NetConfig.Fits (cfg : NetConfig) (nodes : Finset In6Addr) : Prop where
  root : cfg.root ∈ nodes
  closed : ∀ u ∈ nodes, ∀ v, cfg.neighbour u v → v ∈ nodes
  card : nodes.card < 65535

variable {cfg : NetConfig} {nodes : Finset In6Addr} {net : Net} {s : Counts In6Addr}
  {v src : In6Addr} {c k : ℕ}

theorem Net.counted_init (hfits : cfg.Fits nodes) :
    cfg.init.Counted cfg nodes (HopCount.init cfg.root) := by
  constructor
  case root => simp [NetConfig.init]
  case dag =>
    intro v dag hdag
    by_cases hv : v = cfg.root
    · subst hv
      obtain rfl : cfg.rootDag = dag := by simpa [NetConfig.init] using hdag
      exact ⟨0, by simp [HopCount.init], by rw [cfg.rootDag_myRank]; rfl,
        fun hne => absurd rfl hne⟩
    · simp [NetConfig.init, hv] at hdag
  case unjoined =>
    intro v hnone
    by_cases hv : v = cfg.root
    · subst hv
      simp [NetConfig.init] at hnone
    · simp [HopCount.init, hv]
  case sent => simp [NetConfig.init]
  case sound => exact sound_init
  case below => exact below_init hfits.root

/-- Only the root has the count zero. -/
theorem Net.Counted.count_pos (h : net.Counted cfg nodes s) (hv : v ≠ cfg.root)
    (hc : s.count v = some c) : 0 < c := by
  have hwalk := h.sound.count v c hc
  rcases Nat.eq_zero_or_pos c with rfl | hpos
  · exact absurd hwalk hv
  · exact hpos

/-- A DIO that the node looks at sets the rank as the count is set. -/
theorem dioUpdate_counted (ops : DagOps) (now : ℚ) (src : In6Addr) {dag : Dag} {rank : UInt16}
    (hfits : cfg.Fits nodes) (hrank : rank.toNat = k + 1) (hk : k < nodes.card)
    (hdag : dag.parent = none ∧ s.count v = none ∨
      ∃ p c, dag.parent = some p ∧ s.count v = some c ∧ p.rank.toNat = c ∧
        dag.myRank.toNat = c + 1 ∧ c < nodes.card) :
    ∃ p, (dioUpdate ops now true dag src rank).1.parent = some p ∧
      p.rank.toNat = relax (s.count v) k ∧
      (dioUpdate ops now true dag src rank).1.myRank.toNat = relax (s.count v) k + 1 := by
  have hcard := hfits.card
  have hsucc : (rank + 1).toNat = k + 1 + 1 := by
    rw [UInt16.toNat_add, hrank]
    exact Nat.mod_eq_of_lt (by change k + 1 + 1 < 65536; omega)
  rcases hdag with ⟨hparent, hnone⟩ | ⟨p, c, hparent, hc, hp, hmy, hlt⟩
  · have hadopts : dag.Adopts true := ⟨by simp [Dag.validParent, hparent], fun _ => rfl⟩
    rw [dioUpdate_of_adopts hadopts, hnone]
    exact ⟨_, rfl, hrank, hsucc⟩
  · have hvalid : p.rank ≠ uint16Max := by
      intro hmax
      rw [hmax] at hp
      change 65535 = c at hp
      omega
    rw [dioUpdate_of_valid hparent hvalid, hc]
    by_cases hlow : p.rank < rank
    · have hle : c < k + 1 := by
        rw [UInt16.lt_iff_toNat_lt, hp, hrank] at hlow
        exact hlow
      refine ⟨p, by simp [Dag.refresh, hlow, hparent], ?_, ?_⟩
      · rw [hp, relax, min_eq_left hle.le]
      · simp only [Dag.refresh, hlow, if_true, relax, min_eq_left hle.le, hmy]
    · have hle : k + 1 ≤ c := by
        rw [UInt16.lt_iff_toNat_lt, hp, hrank, not_lt] at hlow
        exact hlow
      refine ⟨⟨p.addr, rank⟩, by simp [Dag.refresh, hlow], ?_, ?_⟩
      · rw [relax, min_eq_right hle]
        exact hrank
      · simp only [Dag.refresh, hlow, if_false, relax, min_eq_right hle, hsucc]

/-- An event that changes nothing at its node changes nothing. -/
theorem next_node_of_same {e : NodeEvent}
    (h : (nodeStep (cfg.iface v) (cfg.adaptiveEnabled v) (net.dag v) e).1 = net.dag v) :
    cfg.next net (.node v e) = net := by
  simp only [NetConfig.next, h, Function.update_eq_self]

theorem Net.Counted.next_trickle (h : net.Counted cfg nodes s) (hfits : cfg.Fits nodes)
    (hdest : ∀ dag, (cfg.buildDio dag).dest ≠ none) {dag : Dag} (hdag : net.dag v = some dag) :
    (counting cfg.neighbour).enabled s (.announce v) ∧
      (cfg.next net (.trickle v)).Counted cfg nodes
        ((counting cfg.neighbour).next s (.announce v)) := by
  obtain ⟨c, hc, hrank, -⟩ := h.dag v dag hdag
  have henabled : (counting cfg.neighbour).enabled s (.announce v) := by
    change (s.count v).isSome
    rw [hc]
    rfl
  refine ⟨henabled, ?_⟩
  constructor
  case root => simpa using h.root
  case dag => simpa using h.dag
  case unjoined => simpa using h.unjoined
  case sent =>
    have hnext : (cfg.next net (.trickle v)).sent = (v, cfg.buildDio dag) :: net.sent := by
      simp [NetConfig.next, hdag]
    rw [hnext, announce_sent hc, List.forall_mem_cons]
    constructor
    · exact ⟨hdest dag, c, by rw [cfg.buildDio_dagrank, hrank], List.mem_cons_self ..⟩
    · intro p hp
      obtain ⟨hne, k, hk, hmem⟩ := h.sent p hp
      exact ⟨hne, k, hk, List.mem_cons_of_mem _ hmem⟩
  case sound => exact h.sound.next henabled
  case below => exact h.below.next hfits.closed henabled

/-- What a node hears is a count that was announced. -/
theorem Net.Counted.next_dio (h : net.Counted cfg nodes s) (hfits : cfg.Fits nodes) {now : ℚ}
    {alloc : Alloc} {dio : Dio} (he : cfg.Enabled net (.node v (.dio now alloc dio src)))
    (hpeer : alloc.peer = true) {dag : Dag}
    (ht : dioTarget now alloc (cfg.iface v) (net.dag v) dio = some dag) :
    (counting cfg.neighbour).enabled s (.hear src v (dio.dagrank.toNat - 1)) ∧
      (cfg.next net (.node v (.dio now alloc dio src))).Counted cfg nodes
        ((counting cfg.neighbour).next s (.hear src v (dio.dagrank.toNat - 1))) := by
  obtain ⟨-, k, hrank, hsent⟩ := h.sent _ he.1
  have hk : dio.dagrank.toNat - 1 = k := by rw [hrank, Nat.add_sub_cancel]
  rw [hk]
  have henabled : (counting cfg.neighbour).enabled s (.hear src v k) := ⟨hsent, he.2⟩
  have hroot : v ≠ cfg.root := by
    rintro rfl
    rw [h.root] at ht
    simp [dioTarget, cfg.rootDag_myRank] at ht
  have hstate : dag.parent = none ∧ s.count v = none ∨
      ∃ p c, dag.parent = some p ∧ s.count v = some c ∧ p.rank.toNat = c ∧
        dag.myRank.toNat = c + 1 ∧ c < nodes.card := by
    rcases dioTarget_cases ht with ⟨hdag, -⟩ | ⟨hnone, hparent, -⟩
    · obtain ⟨c, hc, hmy, hp⟩ := h.dag v dag hdag
      obtain ⟨p, hparent, hprank⟩ := hp hroot
      exact Or.inr ⟨p, c, hparent, hc, hprank, hmy, h.below.count_lt hc⟩
    · exact Or.inl ⟨hparent, h.unjoined v hnone⟩
  obtain ⟨p, hparent, hprank, hmy⟩ :=
    dioUpdate_counted (cfg.iface v).dagOps now src hfits hrank (h.below.sent_lt hsent) hstate
  have hnode : (nodeStep (cfg.iface v) (cfg.adaptiveEnabled v) (net.dag v)
      (.dio now alloc dio src)).1 =
        some (dioUpdate (cfg.iface v).dagOps now true dag src dio.dagrank).1 := by
    rw [nodeStep_of_target ht, hpeer]
  refine ⟨henabled, ?_⟩
  constructor
  case root => exact next_dag_root h.root
  case dag =>
    intro w new hnew
    by_cases hw : w = v
    · subst hw
      rw [next_node_dag, Function.update_self, hnode] at hnew
      obtain rfl := Option.some.inj hnew
      exact ⟨_, by simp, hmy, fun _ => ⟨p, hparent, hprank⟩⟩
    · simpa [hw] using h.dag w new (by simpa [hw] using hnew)
  case unjoined =>
    intro w hnone
    by_cases hw : w = v
    · subst hw
      rw [next_node_dag, Function.update_self, hnode] at hnone
      simp at hnone
    · simpa [hw] using h.unjoined w (by simpa [hw] using hnone)
  case sent => exact h.sent
  case sound => exact h.sound.next henabled
  case below => exact h.below.next hfits.closed henabled

/-- The step lemma. -/
theorem Net.Counted.next (h : net.Counted cfg nodes s) (hfits : cfg.Fits nodes)
    (hdest : ∀ dag, (cfg.buildDio dag).dest ≠ none) {e : NetEvent} (he : cfg.Enabled net e)
    (hsteady : NetConfig.Steady net e) :
    (counting cfg.neighbour).Legal s (cfg.hops net e) ∧
      (cfg.next net e).Counted cfg nodes ((counting cfg.neighbour).run s (cfg.hops net e)) := by
  cases e with
  | trickle v =>
      obtain ⟨dag, hdag⟩ := Option.isSome_iff_exists.mp he
      obtain ⟨henabled, hnext⟩ := h.next_trickle hfits hdest hdag
      exact ⟨⟨henabled, trivial⟩, hnext⟩
  | node v e =>
      cases e with
      | parentCheck now =>
          rw [next_node_of_same (by rw [nodeStep_of_not_timedOut hsteady])]
          exact ⟨trivial, h⟩
      | dio now alloc dio src =>
          cases ht : dioTarget now alloc (cfg.iface v) (net.dag v) dio with
          | none =>
              rw [next_node_of_same (by rw [nodeStep_of_no_target ht]), NetConfig.hops, ht]
              exact ⟨trivial, h⟩
          | some dag =>
              obtain ⟨henabled, hnext⟩ := h.next_dio hfits he hsteady ht
              rw [NetConfig.hops, ht]
              exact ⟨⟨henabled, trivial⟩, hnext⟩

/-- The run lemma. -/
theorem Net.Counted.run (h : net.Counted cfg nodes s) (hfits : cfg.Fits nodes)
    (hdest : ∀ dag, (cfg.buildDio dag).dest ≠ none) {es : List NetEvent}
    (hl : cfg.network.Legal net es) (hsteady : cfg.network.Steps NetConfig.Steady net es) :
    (cfg.network.run net es).Counted cfg nodes
      ((counting cfg.neighbour).run s (cfg.network.trace cfg.hops net es)) :=
  (Machine.legal_trace (R := Net.Counted cfg nodes)
    (fun _ _ _ h he hC => h.next hfits hdest he hC) h hl hsteady).2

/-- A node other than the root looks at every DIO for which it can allocate a DODAG. -/
theorem Net.Counted.dioTarget_isSome (h : net.Counted cfg nodes s) {now : ℚ} {alloc : Alloc}
    {dio : Dio} (he : cfg.Enabled net (.node v (.dio now alloc dio src)))
    (halloc : alloc.dag = true) (hv : v ≠ cfg.root) :
    (dioTarget now alloc (cfg.iface v) (net.dag v) dio).isSome := by
  cases hdag : net.dag v with
  | none =>
      obtain ⟨pfx, hpfx⟩ : ∃ pfx, dio.dest = some pfx :=
        Option.ne_none_iff_exists'.mp (h.sent _ he.1).1
      simp [dioTarget, hpfx, halloc]
  | some dag =>
      obtain ⟨c, hc, hrank, -⟩ := h.dag v dag hdag
      have hne : dag.myRank ≠ 1 := by
        intro hone
        have hpos := h.count_pos hv hc
        rw [hone] at hrank
        change 1 = c + 1 at hrank
        omega
      simp [dioTarget, hne]

/-- A round of the network is a round of the counts. -/
theorem Net.Counted.round (h : net.Counted cfg nodes s) (hfits : cfg.Fits nodes)
    (hdest : ∀ dag, (cfg.buildDio dag).dest ≠ none) {es : List NetEvent}
    (hl : cfg.network.Legal net es) (hsteady : cfg.network.Steps NetConfig.Steady net es)
    (hround : cfg.Round net es) :
    HopCount.Round cfg.neighbour cfg.root s (cfg.network.trace cfg.hops net es) := by
  intro u v c hlink hv hc
  obtain ⟨dag, hdag⟩ : ∃ dag, net.dag u = some dag := by
    refine Option.ne_none_iff_exists'.mp fun hnone => ?_
    simp [h.unjoined u hnone] at hc
  obtain ⟨before, now, alloc, dio, after, rfl, halloc, hle⟩ := hround u v dag hlink hv hdag
  obtain ⟨hbefore, hdio, -⟩ := (Machine.steps_append net before _).mp hl
  have hnet := h.run hfits hdest hbefore ((Machine.steps_append net before _).mp hsteady).1
  have hhops : cfg.hops (cfg.network.run net before) (.node v (.dio now alloc dio u)) =
      [.hear u v (dio.dagrank.toNat - 1)] := by
    rw [NetConfig.hops, hnet.dioTarget_isSome hdio halloc hv]
    rfl
  refine ⟨_, _, dio.dagrank.toNat - 1,
    by rw [Machine.trace_append, Machine.trace, hhops, List.singleton_append], ?_⟩
  obtain ⟨c', hc', hrank, -⟩ := h.dag u dag hdag
  obtain rfl := Option.some.inj (hc.symm.trans hc')
  have hle' := UInt16.le_iff_toNat_le.mp hle
  omega

theorem Net.Counted.rounds (h : net.Counted cfg nodes s) (hfits : cfg.Fits nodes)
    (hdest : ∀ dag, (cfg.buildDio dag).dest ≠ none) {rounds : List (List NetEvent)}
    (hl : cfg.network.Legal net rounds.flatten)
    (hsteady : cfg.network.Steps NetConfig.Steady net rounds.flatten)
    (hrounds : cfg.network.Rounds cfg.Round net rounds) :
    ∃ counts, (counting cfg.neighbour).Rounds (HopCount.Round cfg.neighbour cfg.root) s counts ∧
      counts.length = rounds.length ∧
        counts.flatten = cfg.network.trace cfg.hops net rounds.flatten := by
  induction rounds generalizing net s with
  | nil => exact ⟨[], trivial, rfl, rfl⟩
  | cons es rounds ih =>
      rw [List.flatten_cons] at hl hsteady
      obtain ⟨hles, hl⟩ := (Machine.steps_append net es _).mp hl
      obtain ⟨hes, hsteady⟩ := (Machine.steps_append net es _).mp hsteady
      have hnet := h.run hfits hdest hles hes
      obtain ⟨counts, hcounts, hlength, hflatten⟩ := ih hnet hl hsteady hrounds.2
      refine ⟨cfg.network.trace cfg.hops net es :: counts,
        ⟨h.round hfits hdest hles hes hrounds.1, hcounts⟩, by simp [hlength], ?_⟩
      rw [List.flatten_cons, List.flatten_cons, Machine.trace_append, hflatten]

/-- Without timeouts a rank is one more than the number of links of a walk from the root; and
after some rounds all nodes up to that many links away have the rank of their distance. -/
theorem ranks_converge (cfg : NetConfig) (nodes : Finset In6Addr) (hfits : cfg.Fits nodes)
    (hdest : ∀ dag, (cfg.buildDio dag).dest ≠ none) (rounds : List (List NetEvent))
    (es : List NetEvent) (hl : cfg.network.Legal cfg.init (rounds.flatten ++ es))
    (hsteady : cfg.network.Steps NetConfig.Steady cfg.init (rounds.flatten ++ es))
    (hrounds : cfg.network.Rounds cfg.Round cfg.init rounds) :
    (∀ v dag, (cfg.network.run cfg.init (rounds.flatten ++ es)).dag v = some dag →
      ∃ n, Walk cfg.neighbour cfg.root n v ∧ dag.myRank.toNat = n + 1) ∧
    ∀ v n, Distance cfg.neighbour cfg.root n v → n ≤ rounds.length →
      ∃ dag, (cfg.network.run cfg.init (rounds.flatten ++ es)).dag v = some dag ∧
        dag.myRank.toNat = n + 1 := by
  have hinit := Net.counted_init hfits
  have hend := hinit.run hfits hdest hl hsteady
  constructor
  · intro v dag hdag
    obtain ⟨c, hc, hrank, -⟩ := hend.dag v dag hdag
    exact ⟨c, hend.sound.count v c hc, hrank⟩
  · intro v n hdist hn
    obtain ⟨counts, hcounts, hlength, hflatten⟩ := hinit.rounds hfits hdest
      ((Machine.steps_append cfg.init rounds.flatten es).mp hl).1
      ((Machine.steps_append cfg.init rounds.flatten es).mp hsteady).1 hrounds
    -- Only the root is no link away.
    have hzero : ∀ m ≤ 0, ∀ w, Walk cfg.neighbour cfg.root m w →
        AtMost (HopCount.init cfg.root) w m := by
      intro m hm w hw
      obtain rfl := Nat.le_zero.mp hm
      obtain rfl : w = cfg.root := hw
      exact ⟨0, by simp [HopCount.init], le_rfl⟩
    obtain ⟨c, hc, hle⟩ : AtMost ((counting cfg.neighbour).run (HopCount.init cfg.root)
        (cfg.network.trace cfg.hops cfg.init (rounds.flatten ++ es))) v n := by
      rw [Machine.trace_append, ← hflatten, Machine.run_append]
      exact (count_le_of_rounds hcounts hzero n (by omega) v hdist.walk).run _
    obtain rfl : n = c := le_antisymm (hdist.le c (hend.sound.count v c hc)) hle
    obtain ⟨dag, hdag⟩ : ∃ dag,
        (cfg.network.run cfg.init (rounds.flatten ++ es)).dag v = some dag := by
      refine Option.ne_none_iff_exists'.mp fun hnone => ?_
      simp [hend.unjoined v hnone] at hc
    obtain ⟨c, hc', hrank, -⟩ := hend.dag v dag hdag
    obtain rfl := Option.some.inj (hc.symm.trans hc')
    exact ⟨dag, hdag, hrank⟩

/-- Three nodes in a line, with the root at one end. -/
def lineNet : NetConfig where
  __ := copyingNet
  neighbour u v := (u = linkLocal 1 ∧ v = linkLocal 2) ∨ (u = linkLocal 2 ∧ v = linkLocal 1) ∨
    (u = linkLocal 2 ∧ v = linkLocal 3) ∨ (u = linkLocal 3 ∧ v = linkLocal 2)

instance : DecidableRel lineNet.neighbour := fun _ _ => inferInstanceAs (Decidable (_ ∨ _))

/-- In the first round only the root has a DIO to send. -/
def lineRounds : List (List NetEvent) :=
  let rootDio := lineNet.buildDio lineNet.rootDag
  [[.trickle (linkLocal 1), .node (linkLocal 2) (.dio 1 ⟨true, true⟩ rootDio (linkLocal 1))],
    [.trickle (linkLocal 2),
      .node (linkLocal 2) (.dio 2 ⟨true, true⟩ rootDio (linkLocal 1)),
      .node (linkLocal 3) (.dio 3 ⟨true, true⟩ { rootDio with dagrank := 2 } (linkLocal 2))]]

theorem fits_lineNet : lineNet.Fits {linkLocal 1, linkLocal 2, linkLocal 3} := by
  constructor
  case root => simp [lineNet, copyingNet, hybridNet]
  case closed =>
    rintro u - v (⟨-, rfl⟩ | ⟨-, rfl⟩ | ⟨-, rfl⟩ | ⟨-, rfl⟩) <;> simp
  case card => exact Finset.card_le_three.trans_lt (by decide)

theorem rounds_lineRounds : lineNet.network.Rounds lineNet.Round lineNet.init lineRounds := by
  have hle : ∀ {node : Option Dag} {rank : UInt16} {dag : Dag}, node.map Dag.myRank = some rank →
      node = some dag → rank ≤ dag.myRank := by
    rintro _ rank dag hrank rfl
    rw [← Option.some.inj hrank]
    exact UInt16.le_refl _
  have hnone : ∀ {node : Option Dag} {dag : Dag}, node = none → node = some dag → False := by
    rintro _ dag rfl hdag
    simp at hdag
  refine ⟨?_, ?_, trivial⟩
  · rintro u v dag (⟨rfl, rfl⟩ | ⟨rfl, rfl⟩ | ⟨rfl, rfl⟩ | ⟨rfl, rfl⟩) hv hdag
    · exact ⟨[_], _, _, _, [], rfl, rfl, hle (by decide +kernel) hdag⟩
    · exact absurd rfl hv
    · exact (hnone (by decide +kernel) hdag).elim
    · exact (hnone (by decide +kernel) hdag).elim
  · rintro u v dag (⟨rfl, rfl⟩ | ⟨rfl, rfl⟩ | ⟨rfl, rfl⟩ | ⟨rfl, rfl⟩) hv hdag
    · exact ⟨[_], _, _, _, [_], rfl, rfl, hle (by decide +kernel) hdag⟩
    · exact absurd rfl hv
    · exact ⟨[_, _], _, _, _, [], rfl, rfl, hle (by decide +kernel) hdag⟩
    · exact (hnone (by decide +kernel) hdag).elim

theorem distance_lineNet : Distance lineNet.neighbour lineNet.root 2 (linkLocal 3) := by
  constructor
  case walk =>
    exact ⟨linkLocal 2, ⟨linkLocal 1, rfl, Or.inl ⟨rfl, rfl⟩⟩, Or.inr (Or.inr (Or.inl ⟨rfl, rfl⟩))⟩
  case le =>
    have hfar : linkLocal 3 ≠ linkLocal 1 := by decide
    have hlink : ¬ lineNet.neighbour (linkLocal 1) (linkLocal 3) := by decide +kernel
    rintro (_ | _ | m) hwalk
    · exact absurd hwalk hfar
    · obtain ⟨_, rfl, h⟩ := hwalk
      exact absurd h hlink
    · omega

/-- The node at the end, two links from the root, has the rank 3; a check finds its parent
alive. -/
theorem lineRounds_converge :
    lineNet.network.Rounds lineNet.Round lineNet.init lineRounds ∧
      Distance lineNet.neighbour lineNet.root 2 (linkLocal 3) ∧
      ∃ dag, (lineNet.network.run lineNet.init
        (lineRounds.flatten ++ [.node (linkLocal 3) (.parentCheck 4)])).dag (linkLocal 3) =
          some dag ∧ dag.myRank.toNat = 3 := by
  have hlegal : lineNet.network.Legal lineNet.init
      (lineRounds.flatten ++ [.node (linkLocal 3) (.parentCheck 4)]) := by decide +kernel
  have hsteady : lineNet.network.Steps NetConfig.Steady lineNet.init
      (lineRounds.flatten ++ [.node (linkLocal 3) (.parentCheck 4)]) := by decide +kernel
  exact ⟨rounds_lineRounds, distance_lineNet,
    (ranks_converge lineNet _ fits_lineNet (fun _ => Option.some_ne_none _) lineRounds _ hlegal
      hsteady rounds_lineRounds).2 _ 2 distance_lineNet (by decide)⟩

end HyMRPL
