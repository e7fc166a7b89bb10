import HyMRPL.Foundation.NextHop
import HyMRPL.Network.DaoExchange

/-!
# Where the recorded children lead

A node records for a target the neighbour from which it first got it, and a DAO carries
the node's own address and, where children are aggregated, theirs. So whoever sends a
target owns it or has recorded it before, and the records for one target lead from node to
node to its owner, in any mode of operation, and whatever DAOs are lost, delayed, repeated
or reordered and however the parents and the classes change. Nothing is ever corrected
either: a record stays as it is when the target moves.
-/

namespace HyMRPL

open Transition FindOrCreate NextHop

/-- A node has recorded the next hop for a target. -/
def Net.ChildHop (net : Net) (target a b : In6Addr) : Prop :=
  ∃ dag, net.dag a = some dag ∧ ⟨target, b⟩ ∈ dag.childs

/-- The target is the address of the node in its DODAG. -/
def Net.Owns (net : Net) (target a : In6Addr) : Prop :=
  ∃ dag, net.dag a = some dag ∧ dag.self = target

/-- The records of `old` are still there in `new`. -/
def Net.Extends (old new : Net) : Prop :=
  ∀ v dag, old.dag v = some dag →
    ∃ dag', new.dag v = some dag' ∧ dag'.self = dag.self ∧ dag.childs ⊆ dag'.childs

/-- One record for each target, and all of them lead to the owners of their targets, as do
the targets of the DAOs in flight. -/
structure ChildsLead (net : DaoNet) : Prop where
  nodup : ∀ v dag, net.dag v = some dag → (dag.childs.map Child.addr).Nodup
  childs : ∀ v dag target source, net.dag v = some dag → ⟨target, source⟩ ∈ dag.childs →
    Arrives (net.ChildHop target) (net.Owns target) source
  sent : ∀ p ∈ net.daos, ∀ target ∈ p.dao.targets,
    Arrives (net.ChildHop target) (net.Owns target) p.src

theorem Net.Extends.arrives {old new : Net} (h : old.Extends new) {target v : In6Addr}
    (hold : Arrives (old.ChildHop target) (old.Owns target) v) :
    Arrives (new.ChildHop target) (new.Owns target) v := by
  apply hold.mono
  · rintro a b ⟨dag, hdag, hmem⟩
    obtain ⟨dag', hdag', -, hchilds⟩ := h a dag hdag
    exact ⟨dag', hdag', hchilds hmem⟩
  · rintro a ⟨dag, hdag, hself⟩
    obtain ⟨dag', hdag', hself', -⟩ := h a dag hdag
    exact ⟨dag', hdag', hself'.trans hself⟩

section Step

variable {cfg : DaoNetConfig} {net : DaoNet} {v : In6Addr} {dag new : Dag} {e : DaoNetEvent}

theorem DagStep.self_eq (h : DagStep cfg net v dag e new) : new.self = dag.self := by
  cases h <;> rfl

/-- The children after a step were there before, or were targets of a DAO in flight. -/
theorem DagStep.childs_cases (h : DagStep cfg net v dag e new) :
    new.childs = dag.childs ∨ ∃ p beyond, e = .dao v p beyond ∧
      new.childs = recordChilds cfg.calls p.src dag.childs p.dao.targets := by
  cases h with
  | kept => exact Or.inl rfl
  | track => exact Or.inl rfl
  | record p beyond root => exact Or.inr ⟨p, beyond, rfl, rfl⟩
  | setClass => exact Or.inl rfl

theorem DagStep.childs_subset (h : DagStep cfg net v dag e new) (hlooks : LooksUpChild cfg.calls) :
    dag.childs ⊆ new.childs := by
  rcases h.childs_cases with hsame | ⟨p, beyond, -, hrecord⟩
  · rw [hsame]
    exact List.Subset.refl _
  · rw [hrecord, recordChilds_eq_all]
    exact fun _ hmem => hlooks.mem_all hmem

/-- Records are only added. -/
theorem next_extends (hlooks : LooksUpChild cfg.calls) (net : DaoNet) (e : DaoNetEvent) :
    net.toNet.Extends (cfg.next net e).toNet := by
  intro v dag hdag
  obtain ⟨new, hnew, hstep⟩ := next_dag_of_some cfg hdag e
  exact ⟨new, hnew, hstep.self_eq, hstep.childs_subset hlooks⟩

/-- Who joins has no children yet. -/
theorem childs_of_join {ev : NodeEvent} (hdag : net.dag v = none)
    (hnew : (cfg.stepNode net v ev).1 = some new) : new.childs = [] := by
  rw [DaoNetConfig.stepNode, hdag] at hnew
  obtain ⟨now, alloc, dio, src, pfx, parent, myRank, seen, -, -, -, rfl⟩ := nodeStep_join hnew
  rfl

/-- Children are advertised in a storing mode, and by nodes of Class S in a hybrid DODAG. -/
theorem mem_daoChilds {child : Child} (h : child ∈ daoChilds dag) :
    child ∈ dag.childs ∧
      (Mop.Storing dag.mop ∨ (dag.mop = Mop.hybrid ∧ dag.nodeClass = .classS)) := by
  simp only [daoChilds] at h
  split_ifs at h with hstoring hnonstoring hhybrid
  · exact ⟨h, Or.inl hstoring⟩
  · exact absurd h List.not_mem_nil
  · cases hclass : dag.nodeClass with
    | classS => exact ⟨by simpa [hclass] using h, Or.inr ⟨hhybrid, rfl⟩⟩
    | classN => simp [hclass] at h
  · exact absurd h List.not_mem_nil

/-- The targets of a DAO are the sender's address and children of the sender. -/
theorem targets_subset_of_sent (fields : DaoFields) (dag : Dag) (parent : In6Addr) :
    ∀ target ∈ (dagBuildDao fields dag parent).targets,
      target = dag.self ∨ ∃ child ∈ daoChilds dag, child.addr = target := by
  intro target htarget
  rwa [targets_dagBuildDao, List.mem_cons, List.mem_map] at htarget

/-- The records of a node after a step lead where they should. -/
theorem ChildsLead.next_childs (h : ChildsLead net) (hlooks : LooksUpChild cfg.calls)
    (he : cfg.Enabled net e) {target source : In6Addr} (hnew : (cfg.next net e).dag v = some new)
    (hmem : ⟨target, source⟩ ∈ new.childs) :
    Arrives (net.ChildHop target) (net.Owns target) source := by
  rcases next_dag_cases hnew with ⟨dag, hdag, hstep⟩ | ⟨hdag, ev, fields, -, hjoin⟩
  · rcases hstep.childs_cases with hsame | ⟨p, beyond, rfl, hrecord⟩
    · exact h.childs v dag target source hdag (hsame ▸ hmem)
    · rw [hrecord, recordChilds_eq_all] at hmem
      rcases hlooks.mem_all_or_eq hmem with hold | ⟨target', htarget, heq⟩
      · exact h.childs v dag target source hdag hold
      · obtain ⟨rfl, rfl⟩ := Child.mk.inj heq
        exact h.sent p he.1 target htarget
  · rw [childs_of_join hdag hjoin] at hmem
    exact nomatch hmem

/-- What a node sends, it owns or has recorded. -/
theorem arrives_of_sent (hold : ∀ target source, ⟨target, source⟩ ∈ dag.childs →
      Arrives (net.ChildHop target) (net.Owns target) source) (hdag : net.dag v = some dag)
    (fields : DaoFields) (parent : In6Addr) :
    ∀ target ∈ (dagBuildDao fields dag parent).targets,
      Arrives (net.ChildHop target) (net.Owns target) v := by
  intro target htarget
  rcases targets_subset_of_sent fields dag parent target htarget with rfl | ⟨child, hchild, rfl⟩
  · exact Arrives.here ⟨dag, hdag, rfl⟩
  · have hmem := (mem_daoChilds hchild).1
    exact (hold child.addr child.source hmem).cons ⟨dag, hdag, hmem⟩

/-- The step lemma. -/
theorem ChildsLead.next (h : ChildsLead net) (hlooks : LooksUpChild cfg.calls)
    (he : cfg.Enabled net e) : ChildsLead (cfg.next net e) := by
  have hextends := next_extends hlooks net e
  have hchilds : ∀ v new target source, (cfg.next net e).dag v = some new →
      ⟨target, source⟩ ∈ new.childs →
        Arrives ((cfg.next net e).ChildHop target) ((cfg.next net e).Owns target) source :=
    fun v new target source hnew hmem =>
      hextends.arrives (h.next_childs hlooks he hnew hmem)
  constructor
  case nodup =>
    intro v new hnew
    rcases next_dag_cases hnew with ⟨dag, hdag, hstep⟩ | ⟨hdag, ev, fields, -, hjoin⟩
    · rcases hstep.childs_cases with hsame | ⟨p, beyond, -, hrecord⟩
      · exact hsame ▸ h.nodup v dag hdag
      · rw [hrecord, recordChilds_eq_all]
        exact hlooks.nodup_all (h.nodup v dag hdag)
    · rw [childs_of_join hdag hjoin]
      exact List.nodup_nil
  case childs => exact hchilds
  case sent =>
    intro p hp target htarget
    rcases next_daos_cases hp with hold | ⟨ev, fields, rfl, hsent⟩
    · exact hextends.arrives (h.sent p hold target htarget)
    · -- The DAO is built from the sender's new DODAG.
      obtain ⟨new, parent, i, hnode, -, -, -, hdao⟩ := mem_sentDaos hsent
      have hnew : (cfg.next net (.node p.src ev fields)).dag p.src = some new := by
        simp [next_node, DaoNetConfig.store, hnode]
      rw [hdao] at htarget
      exact arrives_of_sent (fun target source => hchilds p.src new target source hnew) hnew
        (fields i) parent.addr target htarget

/-- There are no children in the beginning. -/
theorem childs_init (hdag : cfg.init.dag v = some dag) : dag.childs = [] := by
  by_cases hv : v = cfg.root
  · subst hv
    obtain rfl : cfg.rootDag = dag := by
      simpa [DaoNetConfig.init, NetConfig.init] using hdag
    exact cfg.rootDag_childs
  · simp [DaoNetConfig.init, NetConfig.init, hv] at hdag

theorem childsLead_init (cfg : DaoNetConfig) : ChildsLead cfg.init where
  nodup v dag hdag := by
    rw [childs_init hdag]
    exact List.nodup_nil
  childs v dag target source hdag hmem := by
    rw [childs_init hdag] at hmem
    exact nomatch hmem
  sent p hp := nomatch hp

end Step

/-- A record has no other for its target, and its next hop starts a path to an owner. -/
theorem ChildsLead.exists_path {net : DaoNet} (h : ChildsLead net) {target a b : In6Addr}
    (hhop : net.ChildHop target a b) :
    (∀ b', net.ChildHop target a b' → b' = b) ∧
      ∃ path, IsPath (net.ChildHop target) (net.Owns target) a path := by
  obtain ⟨dag, hdag, hmem⟩ := hhop
  constructor
  · rintro b' ⟨dag', hdag', hmem'⟩
    obtain rfl := Option.some.inj (hdag.symm.trans hdag')
    have heq : (⟨target, b'⟩ : Child) = ⟨target, b⟩ :=
      List.inj_on_of_nodup_map (h.nodup a dag hdag) hmem' hmem rfl
    exact (Child.mk.inj heq).2
  · exact ((h.childs a dag target b hdag hmem).cons ⟨dag, hdag, hmem⟩).exists_path

/-- In every state of a network, a node has at most one next hop recorded for a target, and
from every node with a record the next hops lead to a node that owns the target, along a path
without a loop. -/
theorem childs_lead (cfg : DaoNetConfig) (hlooks : LooksUpChild cfg.calls)
    (es : List DaoNetEvent) (hl : cfg.network.Legal cfg.init es) :
    cfg.network.Always (fun net => ∀ target a b, net.ChildHop target a b →
      (∀ b', net.ChildHop target a b' → b' = b) ∧
        ∃ path, IsPath (net.ChildHop target) (net.Owns target) a path) cfg.init es := by
  have hlead : cfg.network.Always ChildsLead cfg.init es :=
    Machine.always_of_invariant (fun net e h he => h.next hlooks he) (childsLead_init cfg) hl
  exact hlead.mono fun net h target a b => h.exists_path

/-- The root has `fe80::3` recorded behind `fe80::2`. -/
theorem aggregateInTurn_leads :
    copyingDaoNet.network.Legal copyingDaoNet.init aggregateInTurn ∧
      (copyingDaoNet.network.run copyingDaoNet.init aggregateInTurn).ChildHop
        (linkLocal 3) (linkLocal 1) (linkLocal 2) ∧
      copyingDaoNet.network.Always (fun net => ∀ target a b, net.ChildHop target a b →
        (∀ b', net.ChildHop target a b' → b' = b) ∧
          ∃ path, IsPath (net.ChildHop target) (net.Owns target) a path)
        copyingDaoNet.init aggregateInTurn := by
  have hlegal : copyingDaoNet.network.Legal copyingDaoNet.init aggregateInTurn := by
    decide +kernel
  have hroot : ((copyingDaoNet.network.run copyingDaoNet.init aggregateInTurn).dag
      (linkLocal 1)).map Dag.childs =
        some [⟨linkLocal 2, linkLocal 2⟩, ⟨linkLocal 3, linkLocal 2⟩] := by
    decide +kernel
  obtain ⟨dag, hdag, hchilds⟩ := Option.map_eq_some_iff.mp hroot
  exact ⟨hlegal, ⟨dag, hdag, by simp [hchilds]⟩,
    childs_lead copyingDaoNet looksUpChild_sampleDaoCalls aggregateInTurn hlegal⟩

end HyMRPL
