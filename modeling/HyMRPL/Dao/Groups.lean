import HyMRPL.Root.Targets

/-!
# Targets and the transit option that follows them

A DAO may hold several groups, each of which is some targets and the transit option that
goes with them. `process_dao` keeps one transit option for the whole message, so it
pairs every target with the last of them. That is the parent of each target's own group
exactly when all groups name the same parent.
-/

namespace HyMRPL

open Tlv

/-- One or more targets and the transit option that follows them. -/
structure DaoGroup where
  targets : List Opt
  transit : Opt
  targets_ne : targets ≠ []
  target_fits : ∀ o ∈ targets, o.type = rplDaoRplTarget ∧ 18 ≤ o.data.length
  transit_fits : transit.type = rplDaoTransitInfo ∧ 20 ≤ transit.data.length

namespace DaoGroup

def opts (g : DaoGroup) : List Opt := g.targets ++ [g.transit]

/-- The addresses of the targets. -/
def prefixes (g : DaoGroup) : List In6Addr := g.targets.map fun o => field o.data 16 2

def parent (g : DaoGroup) : In6Addr := field g.transit.data 16 4

theorem opts_fit (g : DaoGroup) : ∀ o ∈ g.opts, DaoOptFits o := by
  intro o ho
  rcases List.mem_append.mp ho with ho | ho
  · obtain ⟨htype, hlen⟩ := g.target_fits o ho
    exact ⟨fun _ => hlen, fun hti => absurd (htype.symm.trans hti) transitInfo_ne_rplTarget.symm⟩
  · obtain rfl := List.mem_singleton.mp ho
    obtain ⟨htype, hlen⟩ := g.transit_fits
    exact ⟨fun htg => absurd (htg.symm.trans htype) transitInfo_ne_rplTarget.symm, fun _ => hlen⟩

theorem filterMap_target? (g : DaoGroup) : g.opts.filterMap target? = g.prefixes := by
  have htargets : g.targets.filterMap target? = g.prefixes := by
    rw [prefixes, ← List.filterMap_eq_map]
    exact List.filterMap_congr fun o ho => by simp [target?, (g.target_fits o ho).1]
  simp [opts, htargets, target?, g.transit_fits.1, transitInfo_ne_rplTarget]

theorem filterMap_transitParent? (g : DaoGroup) :
    g.opts.filterMap transitParent? = [g.parent] := by
  have htargets : g.targets.filterMap transitParent? = [] := by
    rw [List.filterMap_eq_nil_iff]
    intro o ho
    simp [transitParent?, (g.target_fits o ho).1, transitInfo_ne_rplTarget.symm]
  simp [opts, htargets, transitParent?, g.transit_fits.1, parent]

/-- The calls of `t_insert` that pair the targets of a group with its own parent. -/
def inserts (src : In6Addr) (g : DaoGroup) : List TInsert := insertCalls src g.parent g.prefixes

theorem insertCalls_eq_inserts_iff (src parent : In6Addr) (g : DaoGroup) :
    insertCalls src parent g.prefixes = g.inserts src ↔ g.parent = parent := by
  obtain ⟨o, targets, htargets⟩ := List.exists_cons_of_ne_nil g.targets_ne
  constructor
  · intro h
    have hhead := congrArg List.head? h
    simp only [inserts, insertCalls, prefixes, htargets, List.map_cons, List.head?_cons,
      Option.some.injEq, TInsert.mk.injEq] at hhead
    exact hhead.1.symm
  · rintro rfl
    rfl

end DaoGroup

/-- A DAO made of groups. -/
def daoOfGroups (header : DaoHeader) (groups : List DaoGroup) : DaoMessage where
  header := header
  opts := groups.flatMap DaoGroup.opts
  fits o ho := by
    obtain ⟨g, -, ho⟩ := List.mem_flatMap.mp ho
    exact g.opts_fit o ho

section Groups

variable (header : DaoHeader) (groups : List DaoGroup)

theorem targets_daoOfGroups :
    (daoOfGroups header groups).targets = groups.flatMap DaoGroup.prefixes := by
  simp [DaoMessage.targets, daoOfGroups, List.filterMap_flatMap, DaoGroup.filterMap_target?]

theorem parents_daoOfGroups : (daoOfGroups header groups).parents = groups.map DaoGroup.parent := by
  rw [List.map_eq_flatMap]
  simp [DaoMessage.parents, daoOfGroups, List.filterMap_flatMap, DaoGroup.filterMap_transitParent?]

end Groups

/-- Lists cut into pieces of the same lengths are equal piece by piece. -/
theorem flatMap_eq_flatMap_iff {α β : Type*} {f g : α → List β} {l : List α}
    (hlen : ∀ a ∈ l, (f a).length = (g a).length) :
    l.flatMap f = l.flatMap g ↔ ∀ a ∈ l, f a = g a := by
  induction l with
  | nil => simp
  | cons a l ih =>
      rw [List.forall_mem_cons] at hlen
      rw [List.forall_mem_cons, ← ih hlen.2, List.flatMap_cons, List.flatMap_cons]
      constructor
      · intro h
        exact List.append_inj h hlen.1
      · rintro ⟨hhead, htail⟩
        rw [hhead, htail]

theorem insertCalls_flatMap (src parent : In6Addr) (groups : List DaoGroup) :
    insertCalls src parent (groups.flatMap DaoGroup.prefixes) =
      groups.flatMap fun g => insertCalls src parent g.prefixes := by
  simp [insertCalls, List.map_flatMap]

/-- What a DAO of groups with up to sixteen targets inserts is paired with the own
parent of each group exactly when all groups name the same one. -/
theorem inserts_daoOfGroups_iff (header : DaoHeader) {groups : List DaoGroup}
    (hcount : (groups.flatMap DaoGroup.prefixes).length ≤ maxDaoTargets) (src : In6Addr) :
    (daoOfGroups header groups).inserts src = groups.flatMap (DaoGroup.inserts src) ↔
      ∀ g ∈ groups, ∀ g' ∈ groups, g.parent = g'.parent := by
  cases hlast : groups.getLast? with
  | none =>
      obtain rfl := List.getLast?_eq_none_iff.mp hlast
      simp [DaoMessage.inserts, parents_daoOfGroups]
  | some last =>
      have hmem : last ∈ groups := List.mem_of_getLast? hlast
      have hinserts : (daoOfGroups header groups).inserts src =
          groups.flatMap fun g => insertCalls src last.parent g.prefixes := by
        simp only [DaoMessage.inserts, parents_daoOfGroups, List.getLast?_map, hlast,
          Option.map_some, targets_daoOfGroups, List.take_of_length_le hcount,
          insertCalls_flatMap]
      rw [hinserts, flatMap_eq_flatMap_iff (by simp [insertCalls, DaoGroup.inserts])]
      simp only [DaoGroup.insertCalls_eq_inserts_iff]
      constructor
      · intro h g hg g' hg'
        rw [h g hg, h g' hg']
      · intro h g hg
        exact h g hg last hmem

/-- A node that builds source routes calls `t_insert` for each target of a DAO of groups
with the parent of the target's own group, in order, exactly when all groups name the
same parent. -/
theorem tInserts_groups_iff (calls : DaoCalls) (dagLookup : UInt8 → In6Addr → Option Dag)
    (header : DaoHeader) (groups : List DaoGroup) {dag : Dag}
    (hlookup : dagLookup header.instanceid header.dagid = some dag)
    (hbuilds : dag.BuildsSourceRoutes)
    (hcount : (groups.flatMap DaoGroup.prefixes).length ≤ maxDaoTargets) (beyond : ℕ → UInt8)
    (src : In6Addr) :
    ∃ dag' acts, processDao calls dagLookup ((daoOfGroups header groups).packet beyond) src =
        some (dag', acts) ∧
      (tInserts acts = groups.flatMap (DaoGroup.inserts src) ↔
        ∀ g ∈ groups, ∀ g' ∈ groups, g.parent = g'.parent) := by
  obtain ⟨childs, acts, hdao, hacts, -⟩ := processDao_wellFormed calls dagLookup
    (daoOfGroups header groups) hlookup hbuilds beyond src
  refine ⟨_, acts, hdao, ?_⟩
  rw [hacts]
  exact inserts_daoOfGroups_iff header hcount src

/-- A group of one target and a parent. -/
def oneTarget (target parent : In6Addr) : DaoGroup where
  targets := [⟨rplDaoRplTarget, [0, 128] ++ target.toList, by simp⟩]
  transit := ⟨rplDaoTransitInfo, [0, 0, 0, 0] ++ parent.toList, by simp⟩
  targets_ne := by simp
  target_fits := by simp
  transit_fits := by simp

/-- Two groups with the same parent. -/
theorem sameParent_paired :
    ∃ dag' acts, processDao sampleCalls (fun _ _ => some hybridNet.rootDag)
        ((daoOfGroups ⟨1, 0, 0, 0, linkLocal 1⟩ [oneTarget (linkLocal 3) (linkLocal 2),
          oneTarget (linkLocal 4) (linkLocal 2)]).packet fun _ => 0) (linkLocal 2) =
        some (dag', acts) ∧
      tInserts acts = [⟨linkLocal 2, linkLocal 2, linkLocal 3⟩,
        ⟨linkLocal 2, linkLocal 2, linkLocal 4⟩] := by
  obtain ⟨dag', acts, hdao, hiff⟩ := tInserts_groups_iff sampleCalls
    (fun _ _ => some hybridNet.rootDag) ⟨1, 0, 0, 0, linkLocal 1⟩
    [oneTarget (linkLocal 3) (linkLocal 2), oneTarget (linkLocal 4) (linkLocal 2)] rfl (by decide)
    (by decide) (fun _ => 0) (linkLocal 2)
  exact ⟨dag', acts, hdao, hiff.mpr (by decide)⟩

/-- Of two groups with different parents, the first target is inserted with the parent
of the second. -/
theorem twoParents_mispaired :
    ∃ dag' acts, processDao sampleCalls (fun _ _ => some hybridNet.rootDag)
        ((daoOfGroups ⟨1, 0, 0, 0, linkLocal 1⟩ [oneTarget (linkLocal 3) (linkLocal 2),
          oneTarget (linkLocal 5) (linkLocal 4)]).packet fun _ => 0) (linkLocal 2) =
        some (dag', acts) ∧
      tInserts acts = [⟨linkLocal 4, linkLocal 2, linkLocal 3⟩,
        ⟨linkLocal 4, linkLocal 2, linkLocal 5⟩] ∧
      tInserts acts ≠ [oneTarget (linkLocal 3) (linkLocal 2),
        oneTarget (linkLocal 5) (linkLocal 4)].flatMap (DaoGroup.inserts (linkLocal 2)) := by
  obtain ⟨childs, acts, hdao, hacts, -⟩ := processDao_wellFormed sampleCalls
    (fun _ _ => some hybridNet.rootDag) (daoOfGroups ⟨1, 0, 0, 0, linkLocal 1⟩
      [oneTarget (linkLocal 3) (linkLocal 2), oneTarget (linkLocal 5) (linkLocal 4)]) rfl
    (by decide) (fun _ => 0) (linkLocal 2)
  refine ⟨_, acts, hdao, ?_, ?_⟩
  · rw [hacts]
    decide
  · rw [hacts]
    decide

end HyMRPL
