import HyMRPL.Network.Basic

/-!
# Who acts as the root

Rank 1 makes a node act as the root. A node stores `rank + 1` for the rank of the
DIO it accepts, in 16 bits, and a node that lost its parent advertises
`UINT16_MAX`. The ranks stay sound exactly as long as no node takes a parent with
that rank: the sum would wrap to 0, and the next node down would get rank 1.
-/

namespace HyMRPL

open Transition

variable {cfg : NetConfig} {net : Net} {v : In6Addr} {e : NodeEvent}

/-- The rank of a node that is not the root, and its relation to the rank stored
for a valid parent. The comparison is one of integers. -/
structure Dag.RankSound (dag : Dag) : Prop where
  notRoot : dag.myRank = uint16Max ∨ 2 ≤ dag.myRank.toNat
  aboveParent : ∀ p, dag.parent = some p → p.rank ≠ uint16Max →
    p.rank.toNat < dag.myRank.toNat

/-- Every node but the configured root has sound ranks. -/
def RanksSound (cfg : NetConfig) (net : Net) : Prop :=
  ∀ v, v ≠ cfg.root → ∀ dag, net.dag v = some dag → dag.RankSound

theorem toNat_add_one {rank : UInt16} (h : rank ≠ uint16Max) :
    (rank + 1).toNat = rank.toNat + 1 := by
  have hne : rank.toNat ≠ 65535 := by simpa [uint16Max, ← UInt16.toNat_inj] using h
  have hlt := rank.toNat_lt
  rw [UInt16.toNat_add]
  exact Nat.mod_eq_of_lt (by simp; omega)

theorem toNat_pos {rank : UInt16} (h : rank ≠ 0) : 0 < rank.toNat := by
  have hne : rank.toNat ≠ 0 := by simpa [← UInt16.toNat_inj] using h
  omega

/-- Storing a rank from 1 to 65534 together with its successor is sound. -/
theorem rankSound_store {dag : Dag} {addr : In6Addr} {rank : UInt16}
    (hp : dag.parent = some ⟨addr, rank⟩) (hrank : dag.myRank = rank + 1)
    (hpos : rank ≠ 0) (hmax : rank ≠ uint16Max) : dag.RankSound := by
  have hsucc : dag.myRank.toNat = rank.toNat + 1 := by rw [hrank, toNat_add_one hmax]
  have hlow := toNat_pos hpos
  refine ⟨Or.inr (by omega), ?_⟩
  intro p hp' _
  obtain rfl : ⟨addr, rank⟩ = p := by simpa [hp] using hp'
  change rank.toNat < dag.myRank.toNat
  omega

theorem rankSound_of_max {dag : Dag} (hrank : dag.myRank = uint16Max)
    (hinvalid : dag.validParent = none) : dag.RankSound where
  notRoot := Or.inl hrank
  aboveParent p hp hmax := absurd (dag.validParent_eq_none_iff.mp hinvalid p hp) hmax

theorem Dag.RankSound.myRank_ne_zero {dag : Dag} (h : dag.RankSound) : dag.myRank ≠ 0 := by
  intro hzero
  rcases h.notRoot with hmax | hlow
  · exact absurd (hzero.symm.trans hmax) (by decide)
  · simp [hzero] at hlow

theorem Dag.RankSound.myRank_ne_one {dag : Dag} (h : dag.RankSound) : dag.myRank ≠ 1 := by
  intro hone
  rcases h.notRoot with hmax | hlow
  · exact absurd (hone.symm.trans hmax) (by decide)
  · simp [hone] at hlow

/-- A DIO whose rank is not 0 leaves a valid parent's record sound. -/
theorem Dag.RankSound.refresh {dag : Dag} (h : dag.RankSound) {p : Peer}
    (hmax : p.rank ≠ uint16Max) {rank : UInt16}
    (hpos : rank ≠ 0) (now : ℚ) (src : In6Addr) :
    (dag.refresh now p src rank).RankSound := by
  by_cases hrank : p.rank < rank
  · have hsame : dag.refresh now p src rank =
        { dag with parentLastSeen := if p.addr = src then now else dag.parentLastSeen } := by
      simp [Dag.refresh, hrank]
    rw [hsame]
    exact ⟨h.notRoot, h.aboveParent⟩
  · have hnew := ne_uint16Max_of_not_lt hrank hmax
    have hparent : (dag.refresh now p src rank).parent = some ⟨p.addr, rank⟩ := by
      simp [Dag.refresh, hrank]
    exact rankSound_store hparent (by simp [Dag.refresh, hrank]) hpos hnew

/-- What a whole run keeps: the root keeps its DODAG, the other ranks are sound
and no DIO carries rank 0. -/
structure RankInvariant (cfg : NetConfig) (net : Net) : Prop where
  root : net.dag cfg.root = some cfg.rootDag
  sound : RanksSound cfg net
  sent : ∀ m ∈ net.sent, m.2.dagrank ≠ 0

/-- The rank of a parent that is taken is not `UINT16_MAX`. -/
def NoWrap (_ : Net) (_ _ : In6Addr) (rank : UInt16) : Prop := rank ≠ uint16Max

theorem rankInvariant_init (cfg : NetConfig) : RankInvariant cfg cfg.init where
  root := by simp [NetConfig.init]
  sound v hv dag hdag := by simp [NetConfig.init, hv] at hdag
  sent m hm := by simp [NetConfig.init] at hm

/-- What a step of a node that is not the root leaves behind is sound, if the DIO
it reads does not carry rank 0 and no rank wraps. -/
theorem rankSound_nodeStep {iface : NodeConfig} {adaptiveEnabled : Bool}
    {node : Option Dag} (hsound : ∀ dag, node = some dag → dag.RankSound)
    (hdio : ∀ now alloc dio src, e = .dio now alloc dio src → dio.dagrank ≠ 0)
    (hwrap : ∀ src rank, adoption iface node e = some (src, rank) → rank ≠ uint16Max)
    {dag : Dag} (hdag : (nodeStep iface adaptiveEnabled node e).1 = some dag) :
    dag.RankSound := by
  cases h : adoption iface node e with
  | some link =>
      obtain ⟨src, rank⟩ := link
      obtain ⟨-, now, alloc, dio, old, rfl, rfl, -, hstep⟩ :=
        nodeStep_of_adoption h adaptiveEnabled
      obtain rfl : old.adopt now src dio.dagrank = dag := by simpa [hstep] using hdag
      exact rankSound_store rfl rfl (hdio _ _ _ _ rfl) (hwrap src _ h)
  | none =>
      rcases nodeStep_of_no_adoption h adaptiveEnabled with
        hsame | ⟨-, new, hp, hrank, hjoin⟩ |
        ⟨old, p, now, alloc, dio, src, rfl, rfl, -, -, hmax, href⟩ | ⟨old, now, rfl, -, hinv⟩
      · exact hsound dag (hsame ▸ hdag)
      · obtain rfl : new = dag := by simpa [hjoin] using hdag
        exact rankSound_of_max hrank (by simp [Dag.validParent, hp])
      · obtain rfl : old.refresh now p src dio.dagrank = dag := by simpa [href] using hdag
        exact (hsound old rfl).refresh hmax (hdio _ _ _ _ rfl) now src
      · obtain rfl : old.invalidate = dag := by simpa [hinv] using hdag
        exact rankSound_of_max rfl old.invalidate_validParent

/-- The step lemma for the steps that wrap no rank. -/
theorem rankInvariant_next {ev : NetEvent} (h : RankInvariant cfg net)
    (henabled : cfg.Enabled net ev) (hwrap : cfg.OnAdoption NoWrap net ev) :
    RankInvariant cfg (cfg.next net ev) := by
  cases ev with
  | trickle v =>
      refine ⟨next_dag_root h.root, by simpa [RanksSound] using h.sound, ?_⟩
      cases hv : net.dag v with
      | none => simpa [NetConfig.next, hv] using h.sent
      | some dag =>
          have hrank : dag.myRank ≠ 0 := by
            by_cases hroot : v = cfg.root
            · subst hroot
              obtain rfl : cfg.rootDag = dag := by simpa [h.root] using hv
              rw [cfg.rootDag_myRank]
              decide
            · exact (h.sound v hroot dag hv).myRank_ne_zero
          simpa [NetConfig.next, hv, cfg.buildDio_dagrank, hrank] using h.sent
  | node v e =>
      refine ⟨next_dag_root h.root, ?_, h.sent⟩
      intro w hw dag hdag
      by_cases hwv : w = v
      · subst hwv
        have hdio : ∀ now alloc dio src, e = .dio now alloc dio src → dio.dagrank ≠ 0 := by
          rintro now alloc dio src rfl
          exact h.sent (src, dio) (sent_of_enabled henabled)
        exact rankSound_nodeStep (h.sound w hw) hdio hwrap (by simpa using hdag)
      · exact h.sound w hw dag (by simpa [hwv] using hdag)

/-- A step that takes a parent of rank `UINT16_MAX` leaves its node with rank 0. -/
theorem not_ranksSound_next {ev : NetEvent} (h : RankInvariant cfg net)
    (hwrap : ¬ cfg.OnAdoption NoWrap net ev) : ¬ RanksSound cfg (cfg.next net ev) := by
  intro hsound
  cases ev with
  | trickle v => exact hwrap trivial
  | node v e =>
      apply hwrap
      rintro src rank hadopt rfl
      have hv : v ≠ cfg.root := by
        rintro rfl
        simp [adoption_root h.root] at hadopt
      obtain ⟨-, now, alloc, dio, dag, -, -, -, hstep⟩ :=
        nodeStep_of_adoption hadopt (cfg.adaptiveEnabled v)
      have hzero := (hsound v hv _ (by simpa using hstep)).myRank_ne_zero
      exact hzero (show uint16Max + 1 = 0 by decide)

/-- In a run, every node but the configured root has sound ranks in every state
exactly when no step takes a parent whose rank is `UINT16_MAX`. -/
theorem ranksSound_iff (cfg : NetConfig) (es : List NetEvent)
    (hlegal : cfg.network.Legal cfg.init es) :
    cfg.network.Always (RanksSound cfg) cfg.init es ↔
      cfg.network.Steps (cfg.OnAdoption NoWrap) cfg.init es :=
  Machine.always_iff_steps (fun _ h => h.sound)
    (fun _ _ h henabled hwrap => rankInvariant_next h henabled hwrap)
    (fun _ _ h _ hwrap => not_ranksSound_next h hwrap) (rankInvariant_init cfg) hlegal

/-- `fe80::2` loses its parent and advertises `UINT16_MAX`; `fe80::3` joins on that
DIO and gets rank 0; `fe80::4` joins on the rank 0. -/
def secondRoot : List NetEvent :=
  [.trickle (linkLocal 1),
    .node (linkLocal 2) (.dio 1 ⟨true, true⟩ (hybridDio 1) (linkLocal 1)),
    .node (linkLocal 2) (.parentCheck 41),
    .trickle (linkLocal 2),
    .node (linkLocal 3) (.dio 42 ⟨true, true⟩ (hybridDio uint16Max) (linkLocal 2)),
    .trickle (linkLocal 3),
    .node (linkLocal 4) (.dio 43 ⟨true, true⟩ (hybridDio 0) (linkLocal 3))]

/-- The run gives rank 0 to one node and rank 1, that of the root, to another. -/
theorem secondRoot_acts_as_root :
    hybridNet.network.Legal hybridNet.init secondRoot ∧
      ((hybridNet.network.run hybridNet.init secondRoot).dag (linkLocal 3)).map Dag.myRank =
        some 0 ∧
      ((hybridNet.network.run hybridNet.init secondRoot).dag (linkLocal 4)).map Dag.myRank =
        some 1 ∧
      ¬ RanksSound hybridNet (hybridNet.network.run hybridNet.init secondRoot) := by
  have hrank : ((hybridNet.network.run hybridNet.init secondRoot).dag (linkLocal 4)).map
      Dag.myRank = some 1 := by decide +kernel
  refine ⟨by decide +kernel, by decide +kernel, hrank, fun hsound => ?_⟩
  obtain ⟨dag, hdag, hone⟩ := Option.map_eq_some_iff.mp hrank
  exact (hsound (linkLocal 4) (by decide) dag hdag).myRank_ne_one hone

theorem ranksSound_before_wrap :
    hybridNet.network.Legal hybridNet.init (secondRoot.take 4) ∧
      (hybridNet.network.Always (RanksSound hybridNet) hybridNet.init (secondRoot.take 4) ↔
        hybridNet.network.Steps (hybridNet.OnAdoption NoWrap) hybridNet.init
          (secondRoot.take 4)) :=
  ⟨by decide +kernel, ranksSound_iff hybridNet _ (by decide +kernel)⟩

end HyMRPL
