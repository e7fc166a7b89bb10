import HyMRPL.Daemon.Projection
import HyMRPL.Process.BuildDao

/-!
# What a DODAG of the daemon keeps

A DODAG of the daemon is never lost, and never changes its version, its mode of operation, its
prefix or the node's own address in it, whatever arrives and whichever timers fire. Its
children are those that it had and the targets of the DAOs that it has got since, complete or
cut short, each with the source of the first DAO that carried it: no later DAO moves a child.
-/

namespace HyMRPL

open Transition Tlv FindOrCreate

/-- The same DODAG, as the same node sees it. -/
structure Dag.SameMember (old new : Dag) : Prop where
  ifindex : new.ifindex = old.ifindex
  version : new.version = old.version
  dodagid : new.dodagid = old.dodagid
  mop : new.mop = old.mop
  dest : new.dest = old.dest
  self : new.self = old.self

/-- The targets that `process_dao` takes from a DAO, with its source. -/
def daoGroup : DodagEvent → Option (List In6Addr × In6Addr)
  | .dao msg src => if msg.bytes.length < 20 then none else some (daoPrefixes msg, src)
  | _ => none

/-- A DODAG after some events: the same, with the children of the DAOs among them. -/
structure Dag.Became (calls : DaoCalls) (old : Dag) (evs : List DodagEvent) (new : Dag) :
    Prop where
  same : old.SameMember new
  childs : new.childs =
    FindOrCreate.run calls.dagLookupChildOrCreate old.childs (evs.filterMap daoGroup)

theorem Child.eq_mk_iff (child : Child) (source : In6Addr) :
    child = Child.mk child.addr source ↔ child.source = source := by
  constructor
  · intro h
    exact congrArg Child.source h
  · rintro rfl
    rfl

theorem Dag.SameMember.refl (dag : Dag) : dag.SameMember dag := ⟨rfl, rfl, rfl, rfl, rfl, rfl⟩

theorem Dag.SameMember.trans {a b c : Dag} (h : a.SameMember b) (h' : b.SameMember c) :
    a.SameMember c :=
  ⟨h'.ifindex.trans h.ifindex, h'.version.trans h.version, h'.dodagid.trans h.dodagid,
    h'.mop.trans h.mop, h'.dest.trans h.dest, h'.self.trans h.self⟩

/-- Whatever a DAO holds, it brings the targets that were read before it broke off. -/
theorem processDao_became (calls : DaoCalls) (dag : Dag) {msg : Packet} (src : In6Addr)
    (hlen : ¬ msg.bytes.length < 20) :
    ∃ new acts, processDao calls (fun _ _ => some dag) msg src = some (new, acts) ∧
      dag.SameMember new ∧ new.childs = recordChilds calls src dag.childs (daoPrefixes msg) := by
  cases hends : daoEndsWell msg with
  | false =>
      exact ⟨_, _, processDao_of_stray (not_lt.mp hlen) rfl hends,
        ⟨rfl, rfl, rfl, rfl, rfl, rfl⟩, rfl⟩
  | true =>
      obtain ⟨root, hroot⟩ := daoRoutes_fst calls msg src (daoCollected calls msg src dag.childs)
        (dag.record calls msg src)
      refine ⟨_, _, processDao_of_endsWell (not_lt.mp hlen) rfl hends, ?_, ?_⟩
      · rw [hroot]
        exact ⟨rfl, rfl, rfl, rfl, rfl, rfl⟩
      · rw [hroot]
        rfl

section Step

variable {s : Slot} {dag : Dag}

/-- The step lemma. -/
theorem dodagStep_became (cfg : DodagConfig) (hs : s.dag = some dag) (ev : DodagEvent) :
    ∃ new, (dodagStep cfg s ev).1.dag = some new ∧ dag.Became cfg.daoCalls [ev] new := by
  cases ev with
  | node e =>
      obtain ⟨parent, myRank, seen, htrack⟩ :=
        nodeStep_track ⟨cfg.ifindex, s.nodeClass, cfg.dagOps⟩ cfg.adaptiveEnabled dag e
      refine ⟨dag.track parent myRank seen, ?_, ⟨rfl, rfl, rfl, rfl, rfl, rfl⟩, rfl⟩
      simp only [dodagStep, hs, htrack]
  | dao msg src =>
      by_cases hlen : msg.bytes.length < 20
      · refine ⟨dag, ?_, Dag.SameMember.refl dag, ?_⟩
        · have hnone : processDao cfg.daoCalls (fun _ _ => some dag) msg src = none :=
            processDao_eq_none_iff.mpr (Or.inl hlen)
          simp only [dodagStep, hs, hnone]
        · simp [daoGroup, hlen, FindOrCreate.run]
      · obtain ⟨new, acts, hprocess, hsame, hchilds⟩ :=
          processDao_became cfg.daoCalls dag src hlen
        refine ⟨new, ?_, hsame, ?_⟩
        · simp only [dodagStep, hs, hprocess]
        · simp [daoGroup, hlen, FindOrCreate.run, hchilds, recordChilds_eq_all]
  | setClass newClass =>
      exact ⟨_, congrArg (Option.map _) hs, ⟨rfl, rfl, rfl, rfl, rfl, rfl⟩, rfl⟩
  | reload newTrickleT =>
      by_cases ht : newTrickleT ≤ 0
      · exact ⟨dag, by simp only [dodagStep, if_pos ht, hs], Dag.SameMember.refl dag, rfl⟩
      · refine ⟨{ dag with trickleT := newTrickleT }, ?_, ⟨rfl, rfl, rfl, rfl, rfl, rfl⟩, rfl⟩
        simp only [dodagStep, if_neg ht, hs, Option.map_some]

/-- The run lemma. -/
theorem dodag_run_became (cfg : DodagConfig) (hs : s.dag = some dag) (evs : List DodagEvent) :
    ∃ new, ((dodag cfg).run s evs).dag = some new ∧ dag.Became cfg.daoCalls evs new := by
  induction evs generalizing s dag with
  | nil => exact ⟨dag, hs, Dag.SameMember.refl dag, rfl⟩
  | cons ev evs ih =>
      obtain ⟨mid, hmid, hfirst⟩ := dodagStep_became cfg hs ev
      obtain ⟨new, hnew, hrest⟩ := ih hmid
      refine ⟨new, hnew, hfirst.same.trans hrest.same, ?_⟩
      rw [hrest.childs, hfirst.childs]
      cases hgroup : daoGroup ev <;> simp [hgroup, FindOrCreate.run]

end Step

/-- In every run of the daemon a DODAG stays, with its identity, and its children are those that
it had, and the targets of the DAOs that it has got, each from the first DAO with it. -/
theorem childs_exact (code : DagCode) (hcode : code.LooksUp)
    (hlooks : LooksUpChild code.daoCalls)
    (hcreates : Creates Child.addr code.daoCalls.dagLookupChildOrCreate) (hmac : Hmac) (r : Rpld)
    (es : List RpldEvent) (i : ℕ) (iface : Iface) (hi : r.ifaces[i]? = some iface)
    (hd : iface.Distinct) (key : DodagKey) (dag : Dag) (hdag : iface.dagOf key = some dag) :
    let groups := ((rpld code hmac).trace (dodagEvents hmac i key) r es).filterMap daoGroup
    ∃ new dag', ((rpld code hmac).run r es).ifaces[i]? = some new ∧ new.dagOf key = some dag' ∧
      dag.SameMember dag' ∧ ∀ child, child ∈ dag'.childs ↔
        child ∈ dag.childs ∨ (child.addr ∉ dag.childs.map Child.addr ∧
          ∃ group, groups.find? (fun group => child.addr ∈ group.1) = some group ∧
            child.source = group.2) := by
  have hshows : Shows code (code.config iface r.adaptiveEnabled) i key r (iface.slot key) :=
    ⟨iface, hi, hd, rfl, rfl⟩
  obtain ⟨⟨new, hnew, -, -, hslot⟩, -⟩ := (rpld_refinesBy_dodag hcode hmac _ i key).run hshows es
  have hslotDag : (iface.slot key).dag = some dag := hdag
  obtain ⟨dag', hdag', hsame, hchilds⟩ := dodag_run_became
    (code.config iface r.adaptiveEnabled) hslotDag
    ((rpld code hmac).trace (dodagEvents hmac i key) r es)
  refine ⟨new, dag', hnew, (congrArg Slot.dag hslot).trans hdag', hsame, fun child => ?_⟩
  rw [hchilds]
  refine (hlooks.mem_run_iff hcreates).trans ?_
  simp only [Child.eq_mk_iff]

/-- The DAO of a node of Class S with some children. -/
def daoOfNode (self : In6Addr) (childs : List Child) : Packet :=
  (dagBuildDao ⟨1, 0, 0, 0, 0, 0, 0, 0, 0⟩
    { hybridNet.rootDag with self := self, childs := childs } (linkLocal 1)).packet fun _ => 0

/-- `fe80::3` is a target of `fe80::2`, and then of `fe80::4`. -/
def movedChild : List RpldEvent :=
  [.recv 1 0 0 (.dao (daoOfNode (linkLocal 2) [⟨linkLocal 3, linkLocal 3⟩]) (linkLocal 2)),
    .recv 2 0 0 (.dao (daoOfNode (linkLocal 4) [⟨linkLocal 3, linkLocal 3⟩]) (linkLocal 4))]

/-- It stays behind `fe80::2`. -/
theorem movedChild_stays :
    let r := Rpld.start 0 none [⟨1, true, .classS, [⟨1, [hybridNet.rootDag]⟩]⟩]
    let key : DodagKey := ⟨1, linkLocal 1⟩
    let rpld := rpld searchDagCode sampleHmac
    let groups := (rpld.trace (dodagEvents sampleHmac 0 key) r movedChild).filterMap daoGroup
    ((rpld.run r movedChild).ifaces[0]?.bind fun iface => iface.dagOf key).map Dag.childs =
        some [⟨linkLocal 2, linkLocal 2⟩, ⟨linkLocal 3, linkLocal 2⟩, ⟨linkLocal 4, linkLocal 4⟩] ∧
      ∃ new dag', (rpld.run r movedChild).ifaces[0]? = some new ∧ new.dagOf key = some dag' ∧
        hybridNet.rootDag.SameMember dag' ∧ ∀ child, child ∈ dag'.childs ↔
          child ∈ hybridNet.rootDag.childs ∨
            (child.addr ∉ hybridNet.rootDag.childs.map Child.addr ∧
              ∃ group, groups.find? (fun group => child.addr ∈ group.1) = some group ∧
                child.source = group.2) :=
  ⟨by decide +kernel, childs_exact searchDagCode looksUp_searchDagCode
    looksUpChild_sampleDaoCalls creates_sampleDaoCalls sampleHmac _ movedChild 0
    ⟨1, true, .classS, [⟨1, [hybridNet.rootDag]⟩]⟩ rfl ⟨by decide, by decide⟩ ⟨1, linkLocal 1⟩
    hybridNet.rootDag (by decide +kernel)⟩

end HyMRPL
