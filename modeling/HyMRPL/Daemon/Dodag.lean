import HyMRPL.Daemon.Switches
import HyMRPL.Foundation.Keyed
import HyMRPL.Node.Step

/-!
# One DODAG of the daemon

A DODAG is identified by its interface, its instance and its own identifier. `dodag` is
the machine of a single DODAG: it gets the DIOs and DAOs that are about it, the checks of its
liveness timer, and the switches and reloads that go to all DODAGs. Before a DIO creates
it there is only the class of the interface. `dodagEvents` picks what a DODAG gets out
of the events of the daemon.

`dag_lookup` and `dag_create` are not in the repository: `DagCode.LooksUp` says that
the first goes by the identifiers and that the second adds no instance a second time.
-/

namespace HyMRPL

open Transition Tlv

/-- What identifies a DODAG at an interface. -/
structure DodagKey where
  instanceId : UInt8
  dodagid : In6Addr
  deriving DecidableEq

def keyOf (p : UInt8 × Dag) : DodagKey := ⟨p.1, p.2.dodagid⟩

/-- The DODAG of an interface with some identifiers. -/
def Iface.dagOf (iface : Iface) (key : DodagKey) : Option Dag :=
  (Keyed.lookup keyOf (instances iface.rpls) key).map Prod.snd

/-- The identifiers of the DODAG at a position. -/
def keyAt (rpls : List Rpl) (place : ℕ × ℕ) : Option DodagKey :=
  match rpls[place.1]? with
  | some rpl => rpl.dags[place.2]?.map fun dag => ⟨rpl.instanceId, dag.dodagid⟩
  | none => none

/-- No instance is there twice, and no DODAG. -/
structure Iface.Distinct (iface : Iface) : Prop where
  rpls : (iface.rpls.map Rpl.instanceId).Nodup
  dags : ((instances iface.rpls).map keyOf).Nodup

/-- `dag_lookup` finds the DODAG with the identifiers that it is given, and `dag_create`
makes no second instance with the same number. What it puts in by itself depends neither on
the class of the interface nor on the DODAGs that are there. -/
structure DagCode.LooksUp (code : DagCode) : Prop where
  found : ∀ iface instanceId dodagid place, code.dagLookup iface instanceId dodagid = some place →
    keyAt iface.rpls place = some ⟨instanceId, dodagid⟩
  missing : ∀ iface instanceId dodagid, (iface.rpls.map Rpl.instanceId).Nodup →
    code.dagLookup iface instanceId dodagid = none →
      ⟨instanceId, dodagid⟩ ∉ (instances iface.rpls).map keyOf
  insert : ∀ rpls instanceId dag, (rpls.map Rpl.instanceId).Nodup →
    ((code.insert rpls instanceId dag).map Rpl.instanceId).Nodup
  dagOps : ∀ iface nodeClass rpls,
    code.dagOps { iface with nodeClass := nodeClass, rpls := rpls } = code.dagOps iface

/-- The class of an interface, and one DODAG of it. -/
structure Slot where
  nodeClass : NodeClass
  dag : Option Dag

def Iface.slot (iface : Iface) (key : DodagKey) : Slot := ⟨iface.nodeClass, iface.dagOf key⟩

/-- What happens to a DODAG. -/
inductive DodagEvent
  | node (e : NodeEvent)
  | dao (msg : Packet) (src : In6Addr)
  | setClass (newClass : NodeClass)
  | reload (newTrickleT : CDouble)

/-- What a DODAG is surrounded by. -/
structure DodagConfig where
  ifindex : UInt32
  dagOps : DagOps
  adaptiveEnabled : Bool
  daoCalls : DaoCalls

/-- What an event does to a DODAG, with the calls that are made. -/
def dodagStep (cfg : DodagConfig) (s : Slot) : DodagEvent → Slot × List Action
  | .node e =>
    let (dag, acts) :=
      nodeStep ⟨cfg.ifindex, s.nodeClass, cfg.dagOps⟩ cfg.adaptiveEnabled s.dag e
    ({ s with dag := dag }, acts)
  | .dao msg src =>
    match processDao cfg.daoCalls (fun _ _ => s.dag) msg src with
    | some (dag, acts) => ({ s with dag := some dag }, acts)
    | none => (s, [])
  | .setClass newClass =>
    (⟨newClass, s.dag.map fun dag => { dag with nodeClass := newClass }⟩, [])
  | .reload newTrickleT =>
    if newTrickleT ≤ 0 then (s, [])
    else ({ s with dag := s.dag.map fun dag => { dag with trickleT := newTrickleT } }, [])

/-- The machine of one DODAG, with the calls as the outputs. -/
def dodag (cfg : DodagConfig) : Machine Slot DodagEvent (List Action) where
  enabled _ _ := True
  next s e := (dodagStep cfg s e).1
  out s e := (dodagStep cfg s e).2

/-- The event of the DODAG that a message is about. -/
def messageEvents (now : ℚ) (key : DodagKey) : Message → List DodagEvent
  | .dis => []
  | .dio alloc dio src =>
    if key = ⟨dio.instanceid, dio.dagid⟩ then [.node (.dio now alloc dio src)] else []
  | .dao msg src => if key = ⟨msg.byte 0, msg.field 16 4⟩ then [.dao msg src] else []
  | .daoAck _ => []

/-- What the DODAG `key` at interface `i` gets of an event of the daemon. -/
def dodagEvents (hmac : Hmac) (i : ℕ) (key : DodagKey) (r : Rpld) : RpldEvent → List DodagEvent
  | .periodic now buf =>
    match (tickRecord hmac now buf r.toDaemon).applied with
    | some newClass => [.setClass newClass]
    | none => []
  | .eval _ _ => []
  | .recv now _ j msg => if j = i then messageEvents now key msg else []
  | .parentCheck now j place =>
    if j = i ∧ r.ifaces[i]?.bind (fun iface => keyAt iface.rpls place) = some key then
      [.node (.parentCheck now)]
    else []
  | .reload newTrickleT => [.reload newTrickleT]
  | .send => []

/-- The calls that the daemon makes in an event, if the DODAG gets any of it. -/
def dodagCalls (code : DagCode) (hmac : Hmac) (i : ℕ) (key : DodagKey) (r : Rpld)
    (e : RpldEvent) : List (List Action) :=
  (dodagEvents hmac i key r e).map fun _ => (handle code r.adaptiveEnabled r.ifaces e).2

/-- The surroundings of the DODAGs of an interface. -/
def DagCode.config (code : DagCode) (iface : Iface) (adaptiveEnabled : Bool) : DodagConfig :=
  ⟨iface.ifindex, code.dagOps iface, adaptiveEnabled, code.daoCalls⟩

/-- The interface `i` is as it was configured, and shows this state of the DODAG. -/
def Shows (code : DagCode) (cfg : DodagConfig) (i : ℕ) (key : DodagKey) (r : Rpld)
    (s : Slot) : Prop :=
  ∃ iface, r.ifaces[i]? = some iface ∧ iface.Distinct ∧
    code.config iface r.adaptiveEnabled = cfg ∧ iface.slot key = s

section Places

variable {iface : Iface} {place : ℕ × ℕ} {dag : Dag}

theorem Iface.setDag_dagAt (h : dagAt iface.rpls place = some dag) :
    iface.setDag place dag = iface := by
  have hsame : iface.rpls.modify place.1
      (fun rpl => { rpl with dags := rpl.dags.set place.2 dag }) = iface.rpls := by
    apply List.ext_getElem?
    intro i
    rw [List.getElem?_modify]
    by_cases hi : place.1 = i
    · subst hi
      cases hrpl : iface.rpls[place.1]? with
      | none => simp
      | some rpl =>
          have hdag : rpl.dags[place.2]? = some dag := by simpa [dagAt, hrpl] using h
          obtain ⟨hn, rfl⟩ := List.getElem?_eq_some_iff.mp hdag
          simp [List.set_getElem_self]
    · simp [hi]
  rw [Iface.setDag, hsame]

/-- The DODAG at a position, among all of the interface. -/
theorem exists_instances_setDag (h : dagAt iface.rpls place = some dag) :
    ∃ before after instanceId, keyAt iface.rpls place = some ⟨instanceId, dag.dodagid⟩ ∧
      ∀ new, instances (iface.setDag place new).rpls =
        before ++ (instanceId, new) :: after := by
  cases hrpl : iface.rpls[place.1]? with
  | none => simp [dagAt, hrpl] at h
  | some rpl =>
      have hdag : rpl.dags[place.2]? = some dag := by simpa [dagAt, hrpl] using h
      obtain ⟨hm, rfl⟩ := List.getElem?_eq_some_iff.mp hrpl
      obtain ⟨hn, -⟩ := List.getElem?_eq_some_iff.mp hdag
      refine ⟨instances (iface.rpls.take place.1) ++
          (iface.rpls[place.1].dags.take place.2).map fun dag =>
            (iface.rpls[place.1].instanceId, dag),
        ((iface.rpls[place.1].dags.drop (place.2 + 1)).map fun dag =>
            (iface.rpls[place.1].instanceId, dag)) ++
          instances (iface.rpls.drop (place.1 + 1)),
        iface.rpls[place.1].instanceId, by simp [keyAt, hrpl, hdag], fun new => ?_⟩
      simp [Iface.setDag, List.modify_eq_take_cons_drop hm, List.set_eq_take_append_cons_drop,
        hn, instances]

theorem exists_dagAt {key : DodagKey} (h : keyAt iface.rpls place = some key) :
    ∃ dag, dagAt iface.rpls place = some dag ∧ dag.dodagid = key.dodagid := by
  cases hrpl : iface.rpls[place.1]? with
  | none => simp [keyAt, hrpl] at h
  | some rpl =>
      simp only [keyAt, hrpl] at h
      obtain ⟨dag, hdag, rfl⟩ := Option.map_eq_some_iff.mp h
      exact ⟨dag, by simp [dagAt, hrpl, hdag], rfl⟩

/-- The DODAG at a position is found by its identifiers, and so is one that takes its place. -/
theorem dagOf_setDag (hd : iface.Distinct) (h : dagAt iface.rpls place = some dag)
    {key : DodagKey} (hkey : keyAt iface.rpls place = some key) {new : Dag}
    (hnew : new.dodagid = dag.dodagid) (k : DodagKey) :
    (iface.setDag place new).dagOf k = if k = key then some new else iface.dagOf k := by
  obtain ⟨before, after, instanceId, hat, hset⟩ := exists_instances_setDag h
  obtain rfl := Option.some.inj (hat.symm.trans hkey)
  have hold : instances iface.rpls = before ++ (instanceId, dag) :: after := by
    rw [← hset dag, Iface.setDag_dagAt h]
  have hkeys : keyOf (instanceId, new) = keyOf (instanceId, dag) := by rw [keyOf, keyOf, hnew]
  rw [Iface.dagOf, hset, Keyed.lookup_replace (hold ▸ hd.dags) hkeys, ← hold]
  exact apply_ite (Option.map Prod.snd) _ _ _

theorem dagOf_of_dagAt (hd : iface.Distinct) (h : dagAt iface.rpls place = some dag)
    {key : DodagKey} (hkey : keyAt iface.rpls place = some key) : iface.dagOf key = some dag := by
  have hset := dagOf_setDag hd h hkey rfl key
  rwa [Iface.setDag_dagAt h, if_pos rfl] at hset

/-- A DODAG in the place of another one with its identifiers changes no identifiers. -/
theorem distinct_setDag (hd : iface.Distinct) (h : dagAt iface.rpls place = some dag) {new : Dag}
    (hnew : new.dodagid = dag.dodagid) : (iface.setDag place new).Distinct := by
  obtain ⟨before, after, instanceId, -, hset⟩ := exists_instances_setDag h
  constructor
  case rpls =>
    have hsame : (iface.setDag place new).rpls.map Rpl.instanceId =
        iface.rpls.map Rpl.instanceId := by
      apply List.ext_getElem?
      intro i
      by_cases hi : place.1 = i <;> simp [Iface.setDag, hi, Function.comp_def]
    rw [hsame]
    exact hd.rpls
  case dags =>
    have hold : instances iface.rpls = before ++ (instanceId, dag) :: after := by
      rw [← hset dag, Iface.setDag_dagAt h]
    have hdags := hd.dags
    rw [hold] at hdags
    rw [hset new]
    simpa [keyOf, hnew] using hdags

end Places

section Lookup

variable {code : DagCode} {iface : Iface} {dodagid : In6Addr}

/-- `dag_lookup` finds the DODAG with the identifiers. -/
theorem DagCode.LooksUp.find_eq (hcode : code.LooksUp) (hd : iface.Distinct)
    (instanceId : UInt8) (dodagid : In6Addr) :
    (code.find iface instanceId dodagid).map Prod.snd = iface.dagOf ⟨instanceId, dodagid⟩ := by
  cases hlookup : code.dagLookup iface instanceId dodagid with
  | none =>
      have hmissing := hcode.missing iface instanceId dodagid hd.rpls hlookup
      rw [Iface.dagOf, Keyed.lookup_eq_none hmissing]
      simp [DagCode.find, hlookup]
  | some place =>
      have hkey := hcode.found iface instanceId dodagid place hlookup
      obtain ⟨dag, hdag, -⟩ := exists_dagAt hkey
      rw [dagOf_of_dagAt hd hdag hkey]
      simp [DagCode.find, hlookup, hdag]

/-- What a handler returns for the DODAG that it has looked up is stored under the
identifiers, and nothing else changes. -/
theorem DagCode.LooksUp.update (hcode : code.LooksUp) (hd : iface.Distinct)
    (instanceId : UInt8) {result : Option (Dag × List Action)}
    (hresult : ∀ dag acts, result = some (dag, acts) → dag.dodagid = dodagid) :
    (iface.update code instanceId dodagid result).1.Distinct ∧
      (∃ rpls, (iface.update code instanceId dodagid result).1 = { iface with rpls := rpls }) ∧
      ∀ k, (iface.update code instanceId dodagid result).1.dagOf k =
        if k = ⟨instanceId, dodagid⟩ then (result.map Prod.fst).or (iface.dagOf k)
        else iface.dagOf k := by
  cases result with
  | none => exact ⟨hd, ⟨iface.rpls, rfl⟩, fun k => by simp [Iface.update]⟩
  | some result =>
      obtain ⟨dag, acts⟩ := result
      have hdodagid : dag.dodagid = dodagid := hresult dag acts rfl
      cases hlookup : code.dagLookup iface instanceId dodagid with
      | some place =>
          have hkey := hcode.found iface instanceId dodagid place hlookup
          obtain ⟨old, hold, hid⟩ := exists_dagAt hkey
          have hupdate : iface.update code instanceId dodagid (some (dag, acts)) =
              (iface.setDag place dag, acts) := by
            simp [Iface.update, DagCode.find, hlookup, hold]
          have hsame : dag.dodagid = old.dodagid := hdodagid.trans hid.symm
          rw [hupdate]
          refine ⟨distinct_setDag hd hold hsame, ⟨_, rfl⟩, fun k => ?_⟩
          rw [dagOf_setDag hd hold hkey hsame]
          rfl
      | none =>
          have hmissing := hcode.missing iface instanceId dodagid hd.rpls hlookup
          have hupdate : iface.update code instanceId dodagid (some (dag, acts)) =
              ({ iface with rpls := code.insert iface.rpls instanceId dag }, acts) := by
            simp [Iface.update, DagCode.find, hlookup]
          obtain ⟨before, after, hold, hinsert⟩ := code.insert_spec iface.rpls instanceId dag
          have hkey : keyOf (instanceId, dag) = ⟨instanceId, dodagid⟩ := by rw [keyOf, hdodagid]
          have hdags := hd.dags
          rw [hold] at hmissing hdags
          rw [hupdate]
          refine ⟨⟨hcode.insert iface.rpls instanceId dag hd.rpls, ?_⟩, ⟨_, rfl⟩, fun k => ?_⟩
          · rw [List.map_append] at hmissing hdags
            rw [hinsert, List.map_append, List.map_cons, List.nodup_middle, List.nodup_cons, hkey]
            exact ⟨hmissing, hdags⟩
          · rw [Iface.dagOf, Iface.dagOf, hinsert, Keyed.lookup_insert (hkey ▸ hmissing), hkey,
              hold]
            exact apply_ite (Option.map Prod.snd) _ _ _

end Lookup

end HyMRPL
