import HyMRPL.Daemon.Dodag
import HyMRPL.Node.Frame
import HyMRPL.Process.Childs

/-!
# The daemon as a collection of DODAGs

Every DODAG of the daemon goes through a run of the machine of one DODAG, over what it gets of
the events, and makes the calls of that run. So whatever is proved of one node holds of each
DODAG of a daemon with any number of interfaces and instances, and a DODAG that gets
nothing stays as it is.
-/

namespace HyMRPL

open Transition Tlv

section Message

variable {code : DagCode} {iface : Iface} {now : ℚ} {alloc : Alloc} {dio : Dio} {src : In6Addr}
  {msg : Packet} {config : NodeConfig} {adaptiveEnabled : Bool} {node : Option Dag}
  {dagLookup : UInt8 → In6Addr → Option Dag} {key : DodagKey}

theorem dodagid_of_dagOf {instanceId : UInt8} {dodagid : In6Addr} {dag : Dag}
    (h : iface.dagOf ⟨instanceId, dodagid⟩ = some dag) : dag.dodagid = dodagid := by
  obtain ⟨p, hp, rfl⟩ := Option.map_eq_some_iff.mp h
  exact congrArg DodagKey.dodagid (Keyed.mem_of_lookup hp).2

theorem nodeStep_dio_eq : nodeStep config adaptiveEnabled node (.dio now alloc dio src) =
    (((processDio now alloc config (fun _ _ => node) dio src).map Prod.fst).or node,
      ((processDio now alloc config (fun _ _ => node) dio src).map Prod.snd).getD []) := by
  cases h : processDio now alloc config (fun _ _ => node) dio src <;> simp [nodeStep, h]

theorem dodagStep_dao_eq (cfg : DodagConfig) (s : Slot) :
    dodagStep cfg s (.dao msg src) =
      (⟨s.nodeClass, ((processDao cfg.daoCalls (fun _ _ => s.dag) msg src).map Prod.fst).or s.dag⟩,
        ((processDao cfg.daoCalls (fun _ _ => s.dag) msg src).map Prod.snd).getD []) := by
  cases h : processDao cfg.daoCalls (fun _ _ => s.dag) msg src <;> simp [dodagStep, h]

/-- `process_dio` looks up nothing but the DODAG of the DIO. -/
theorem processDio_lookup : processDio now alloc config dagLookup dio src =
    processDio now alloc config (fun _ _ => dagLookup dio.instanceid dio.dagid) dio src := rfl

theorem processDao_lookup (calls : DaoCalls) : processDao calls dagLookup msg src =
    processDao calls (fun _ _ => dagLookup (msg.byte 0) (msg.field 16 4)) msg src := rfl

/-- A DIO leaves or creates a DODAG with its identifier. -/
theorem dodagid_processDio (hnode : ∀ dag, node = some dag → dag.dodagid = dio.dagid) {new : Dag}
    {acts : List Action}
    (h : processDio now alloc config (fun _ _ => node) dio src = some (new, acts)) :
    new.dodagid = dio.dagid := by
  have hstep : (nodeStep config true node (.dio now alloc dio src)).1 = some new := by
    rw [nodeStep_dio_eq, h]
    rfl
  cases node with
  | some dag =>
      obtain ⟨parent, myRank, seen, htrack⟩ :=
        nodeStep_track config true dag (.dio now alloc dio src)
      obtain rfl := Option.some.inj (htrack.symm.trans hstep)
      exact hnode dag rfl
  | none =>
      obtain ⟨now', alloc', dio', src', pfx, parent, myRank, seen, heq, -, -, rfl⟩ :=
        nodeStep_join hstep
      obtain ⟨-, -, rfl, -⟩ := NodeEvent.dio.inj heq
      rfl

theorem update_snd (code : DagCode) (iface : Iface) (instanceId : UInt8) (dodagid : In6Addr)
    (result : Option (Dag × List Action)) :
    (iface.update code instanceId dodagid result).2 = (result.map Prod.snd).getD [] := by
  cases result with
  | none => rfl
  | some result => cases h : code.find iface instanceId dodagid <;> simp [Iface.update, h]

end Message

/-- After a handler the DODAG `key` of an interface has gone through some events, with the
calls that the handler made. -/
structure Follows (cfg : DodagConfig) (key : DodagKey) (iface : Iface) (evs : List DodagEvent)
    (result : Iface × List Action) : Prop where
  distinct : result.1.Distinct
  rest : ∃ nodeClass rpls, result.1 = { iface with nodeClass := nodeClass, rpls := rpls }
  slot : result.1.slot key = (dodag cfg).run (iface.slot key) evs
  calls : (dodag cfg).outputs (iface.slot key) evs = evs.map fun _ => result.2

section Handlers

variable {code : DagCode} {cfg : DodagConfig} {iface : Iface} {key : DodagKey}

theorem Follows.nil (hd : iface.Distinct) (acts : List Action) :
    Follows cfg key iface [] (iface, acts) :=
  ⟨hd, ⟨iface.nodeClass, iface.rpls, rfl⟩, rfl, rfl⟩

/-- A handler that looks up a DODAG follows the one that it looks up. -/
theorem follows_update (hcode : code.LooksUp) (hd : iface.Distinct) {instanceId : UInt8}
    {dodagid : In6Addr} {result : Option (Dag × List Action)}
    (hresult : ∀ dag acts, result = some (dag, acts) → dag.dodagid = dodagid) {ev : DodagEvent}
    (hev : dodagStep cfg (iface.slot ⟨instanceId, dodagid⟩) ev =
      (⟨iface.nodeClass, (result.map Prod.fst).or (iface.dagOf ⟨instanceId, dodagid⟩)⟩,
        (result.map Prod.snd).getD [])) :
    Follows cfg key iface (if key = ⟨instanceId, dodagid⟩ then [ev] else [])
      (iface.update code instanceId dodagid result) := by
  obtain ⟨hdistinct, ⟨rpls, hrpls⟩, hdag⟩ :=
    hcode.update hd instanceId hresult
  have hslot : (iface.update code instanceId dodagid result).1.slot key =
      ⟨iface.nodeClass, if key = ⟨instanceId, dodagid⟩ then
        (result.map Prod.fst).or (iface.dagOf key) else iface.dagOf key⟩ := by
    rw [Iface.slot, hdag, hrpls]
  refine ⟨hdistinct, ⟨iface.nodeClass, rpls, hrpls⟩, ?_, ?_⟩
  · rw [hslot]
    by_cases hkey : key = ⟨instanceId, dodagid⟩
    · subst hkey
      rw [if_pos rfl, if_pos rfl]
      exact (congrArg Prod.fst hev).symm
    · rw [if_neg hkey, if_neg hkey]
      rfl
  · by_cases hkey : key = ⟨instanceId, dodagid⟩
    · subst hkey
      rw [if_pos rfl, List.map_singleton, update_snd]
      exact congrArg (fun acts => [acts]) (congrArg Prod.snd hev)
    · rw [if_neg hkey]
      rfl

theorem follows_process (hcode : code.LooksUp) (hd : iface.Distinct) (now : ℚ) (msg : Message)
    (adaptiveEnabled : Bool) :
    Follows (code.config iface adaptiveEnabled) key iface (messageEvents now key msg)
      (process code now iface msg) := by
  cases msg with
  | dis => exact Follows.nil hd []
  | dio alloc dio src =>
      simp only [process]
      rw [processDio_lookup, hcode.find_eq hd]
      refine follows_update hcode hd (fun dag acts => ?_) ?_
      · exact dodagid_processDio fun dag hdag => dodagid_of_dagOf hdag
      · simp only [dodagStep, nodeStep_dio_eq]
        rfl
  | dao msg src =>
      simp only [process]
      rw [processDao_lookup, hcode.find_eq hd]
      refine follows_update hcode hd (fun dag acts h => ?_) (dodagStep_dao_eq _ _)
      obtain ⟨old, hold, hkept⟩ := processDao_kept h
      exact hkept.dodagid.trans (dodagid_of_dagOf hold)
  | daoAck msg =>
      simp only [process, messageEvents]
      cases hresult : processDaoack
          (fun instanceId dodagid => (code.find iface instanceId dodagid).map Prod.snd) msg with
      | none => exact Follows.nil hd []
      | some result =>
          -- The DODAG that was found is written back as it is.
          obtain ⟨hfind, -⟩ := processDaoack_eq_some hresult
          rw [hcode.find_eq hd] at hfind
          have hid : ∀ dag acts, some result = some (dag, acts) → dag.dodagid = msg.field 16 4 := by
            intro dag acts h
            obtain rfl := Option.some.inj h
            exact dodagid_of_dagOf hfind
          obtain ⟨hdistinct, ⟨rpls, hrpls⟩, hdag⟩ := hcode.update hd (msg.byte 0) hid
          refine ⟨hdistinct, ⟨iface.nodeClass, rpls, hrpls⟩, ?_, rfl⟩
          have hsame : (iface.update code (msg.byte 0) (msg.field 16 4) (some result)).1.dagOf key =
              iface.dagOf key := by
            rw [hdag]
            split_ifs with hkey
            · rw [hkey, hfind]
              rfl
            · rfl
          rw [Iface.slot, hsame, hrpls]
          rfl

theorem follows_parentCheck (hd : iface.Distinct) (now : ℚ) (place : ℕ × ℕ) :
    Follows cfg key iface
      (if keyAt iface.rpls place = some key then [.node (.parentCheck now)] else [])
      (iface.parentCheck now cfg.adaptiveEnabled place) := by
  cases hdag : dagAt iface.rpls place with
  | none =>
      have hkey : keyAt iface.rpls place ≠ some key := by
        intro h
        obtain ⟨dag, hat, -⟩ := exists_dagAt h
        exact nomatch hdag.symm.trans hat
      rw [if_neg hkey, Iface.parentCheck, hdag]
      exact Follows.nil hd []
  | some dag =>
      obtain ⟨before, after, instanceId, hat, -⟩ := exists_instances_setDag hdag
      have hkept := Dag.Kept.parentCheckCb dag now cfg.adaptiveEnabled
      have hset := dagOf_setDag hd hdag hat hkept.dodagid key
      rw [Iface.parentCheck, hdag]
      by_cases hkey : key = ⟨instanceId, dag.dodagid⟩
      · subst hkey
        rw [if_pos rfl] at hset
        rw [hat, if_pos rfl]
        refine ⟨distinct_setDag hd hdag hkept.dodagid, ⟨iface.nodeClass, _, rfl⟩, ?_, ?_⟩
        · simp only [Iface.slot, hset, Machine.run, dodag, dodagStep, dagOf_of_dagAt hd hdag hat]
          rfl
        · simp only [Iface.slot, Machine.outputs, dodag, dodagStep, dagOf_of_dagAt hd hdag hat]
          rfl
      · rw [if_neg hkey] at hset
        rw [hat, if_neg fun h => hkey (Option.some.inj h).symm]
        refine ⟨distinct_setDag hd hdag hkept.dodagid, ⟨iface.nodeClass, _, rfl⟩, ?_, rfl⟩
        simp only [Iface.slot, hset, Machine.run]
        rfl

/-- An interface with all DODAGs updated in one way. -/
def Iface.mapDags (f : Dag → Dag) (iface : Iface) : Iface :=
  { iface with rpls := iface.rpls.map fun rpl => { rpl with dags := rpl.dags.map f } }

theorem instances_mapDags (f : Dag → Dag) (iface : Iface) :
    instances (iface.mapDags f).rpls = (instances iface.rpls).map fun p => (p.1, f p.2) := by
  simp [instances, Iface.mapDags, List.flatMap_map, List.map_flatMap, Function.comp_def]

section MapDags

variable {f : Dag → Dag}

theorem keyOf_map (hf : ∀ dag, (f dag).dodagid = dag.dodagid) (p : UInt8 × Dag) :
    keyOf (p.1, f p.2) = keyOf p :=
  congrArg (DodagKey.mk p.1) (hf p.2)

theorem dagOf_mapDags (hf : ∀ dag, (f dag).dodagid = dag.dodagid) (iface : Iface)
    (key : DodagKey) : (iface.mapDags f).dagOf key = (iface.dagOf key).map f := by
  rw [Iface.dagOf, instances_mapDags, Keyed.lookup_map (keyOf_map hf), Iface.dagOf,
    Option.map_map, Option.map_map]
  rfl

theorem distinct_mapDags (hf : ∀ dag, (f dag).dodagid = dag.dodagid) (hd : iface.Distinct) :
    (iface.mapDags f).Distinct := by
  constructor
  case rpls => simpa [Iface.mapDags, Function.comp_def] using hd.rpls
  case dags =>
    have hkeys : (fun p : UInt8 × Dag => keyOf (p.1, f p.2)) = keyOf := funext (keyOf_map hf)
    rw [instances_mapDags, List.map_map, Function.comp_def, hkeys]
    exact hd.dags

end MapDags

theorem follows_reload (hd : iface.Distinct) {newTrickleT : CDouble} (ht : ¬ newTrickleT ≤ 0) :
    Follows cfg key iface [.reload newTrickleT]
      (iface.mapDags fun dag => { dag with trickleT := newTrickleT }, []) := by
  have hf : ∀ dag : Dag, Dag.dodagid { dag with trickleT := newTrickleT } = dag.dodagid :=
    fun _ => rfl
  refine ⟨distinct_mapDags hf hd, ⟨iface.nodeClass, _, rfl⟩, ?_, ?_⟩
  · simp only [Machine.run, dodag, dodagStep, if_neg ht, Iface.slot, dagOf_mapDags hf]
    rfl
  · simp only [Machine.outputs, dodag, dodagStep, if_neg ht]
    rfl

theorem follows_setClass (hd : iface.Distinct) (newClass : NodeClass) :
    Follows cfg key iface [.setClass newClass]
      ({ iface.mapDags (fun dag => { dag with nodeClass := newClass }) with
        nodeClass := newClass }, []) := by
  have hf : ∀ dag : Dag, Dag.dodagid { dag with nodeClass := newClass } = dag.dodagid :=
    fun _ => rfl
  obtain ⟨hrpls, hdags⟩ := distinct_mapDags hf hd
  exact ⟨⟨hrpls, hdags⟩, ⟨newClass, _, rfl⟩,
    congrArg (Slot.mk newClass) (dagOf_mapDags hf iface key), rfl⟩

end Handlers

section Daemon

variable {code : DagCode} {hmac : Hmac} {r : Rpld} {i : ℕ} {iface : Iface} {key : DodagKey}

/-- A handler that is called with one interface leaves the others alone. -/
theorem follows_onIface {cfg : DodagConfig} (hi : r.ifaces[i]? = some iface) (hd : iface.Distinct)
    {j : ℕ} {f : Iface → Iface × List Action} {evs : List DodagEvent}
    (hf : j = i → Follows cfg key iface evs (f iface)) :
    ∃ new, (onIface r.ifaces j f).1[i]? = some new ∧
      Follows cfg key iface (if j = i then evs else []) (new, (onIface r.ifaces j f).2) := by
  by_cases hj : j = i
  · subst hj
    have hlt : j < r.ifaces.length := (List.getElem?_eq_some_iff.mp hi).1
    have hcalled : onIface r.ifaces j f = (r.ifaces.set j (f iface).1, (f iface).2) := by
      simp only [onIface, hi]
    rw [hcalled, if_pos rfl]
    exact ⟨(f iface).1, List.getElem?_set_self hlt, hf rfl⟩
  · refine ⟨iface, ?_, ?_⟩
    · cases hother : r.ifaces[j]? with
      | none => simpa [onIface, hother] using hi
      | some other => simpa [onIface, hother, List.getElem?_set_ne hj] using hi
    · rw [if_neg hj]
      exact Follows.nil hd _

/-- In every event of the daemon, each DODAG goes through what it gets of the event. -/
theorem follows_next (hcode : code.LooksUp) (hmac : Hmac) (hi : r.ifaces[i]? = some iface)
    (hd : iface.Distinct) (key : DodagKey) (e : RpldEvent) :
    ∃ new, ((rpld code hmac).next r e).ifaces[i]? = some new ∧
      Follows (code.config iface r.adaptiveEnabled) key iface (dodagEvents hmac i key r e)
        (new, (handle code r.adaptiveEnabled r.ifaces e).2) := by
  cases e with
  | periodic now buf =>
      rcases tick_applied hmac now buf r.toDaemon with
        ⟨hnone, hifaces, -⟩ | ⟨newClass, hsome, hifaces, -⟩
      · refine ⟨iface, (congrArg (·[i]?) hifaces).trans hi, ?_⟩
        simp only [dodagEvents, hnone]
        exact Follows.nil hd []
      · have hnew : (setNodeClass newClass r.ifaces)[i]? =
            some { iface.mapDags (fun dag => { dag with nodeClass := newClass }) with
              nodeClass := newClass } := by
          rw [setNodeClass, List.getElem?_map, hi]
          rfl
        refine ⟨_, (congrArg (·[i]?) hifaces).trans hnew, ?_⟩
        simp only [dodagEvents, hsome]
        exact follows_setClass hd newClass
  | eval now energy => exact ⟨iface, hi, Follows.nil hd []⟩
  | send => exact ⟨iface, hi, Follows.nil hd []⟩
  | recv now failures j msg =>
      exact follows_onIface hi hd fun _ => follows_process hcode hd now msg r.adaptiveEnabled
  | parentCheck now j place =>
      have hcheck : Follows (code.config iface r.adaptiveEnabled) key iface
          (if keyAt iface.rpls place = some key then [.node (.parentCheck now)] else [])
          (iface.parentCheck now r.adaptiveEnabled place) :=
        follows_parentCheck hd now place
      obtain ⟨new, hnew, hfollows⟩ := follows_onIface hi hd fun _ => hcheck
      refine ⟨new, hnew, ?_⟩
      simpa only [dodagEvents, handle, hi, Option.bind_some, ite_and] using hfollows
  | reload newTrickleT =>
      by_cases ht : newTrickleT ≤ 0
      · refine ⟨iface, ?_, hd, ⟨iface.nodeClass, iface.rpls, rfl⟩, ?_, ?_⟩
        · simpa only [rpld, handle, reloadCb, if_pos ht] using hi
        · simp only [dodagEvents, Machine.run, dodag, dodagStep, if_pos ht]
        · simp only [dodagEvents, Machine.outputs, dodag, dodagStep, if_pos ht, handle,
            List.map_singleton]
      · refine ⟨_, ?_, follows_reload hd ht⟩
        simp only [rpld, handle, reloadCb, if_neg ht, List.getElem?_map, hi]
        rfl

/-- The step lemma. -/
theorem rpld_refinesBy_dodag (hcode : code.LooksUp) (hmac : Hmac) (cfg : DodagConfig) (i : ℕ)
    (key : DodagKey) :
    Machine.RefinesBy (rpld code hmac) (dodag cfg) (Shows code cfg i key)
      (dodagEvents hmac i key) (dodagCalls code hmac i key) := by
  constructor
  case next =>
    rintro r s e ⟨iface, hi, hd, rfl, rfl⟩
    obtain ⟨new, hnew, hdistinct, ⟨nodeClass, rpls, rfl⟩, hslot, -⟩ :=
      follows_next hcode hmac hi hd key e
    refine ⟨_, hnew, hdistinct, ?_, hslot⟩
    rw [adaptiveEnabled_next, DagCode.config, hcode.dagOps]
    rfl
  case outputs =>
    rintro r s e ⟨iface, hi, hd, rfl, rfl⟩
    obtain ⟨new, -, hfollows⟩ := follows_next hcode hmac hi hd key e
    exact hfollows.calls

/-- In every run of the daemon, every DODAG of every interface goes through a run of its own
machine over the events that it gets, and the calls of that run are those that the daemon
makes in these events. -/
theorem rpld_projects (code : DagCode) (hcode : code.LooksUp) (hmac : Hmac) (r : Rpld)
    (es : List RpldEvent) (i : ℕ) (iface : Iface) (hi : r.ifaces[i]? = some iface)
    (hd : iface.Distinct) (key : DodagKey) :
    let dodag := dodag (code.config iface r.adaptiveEnabled)
    let evs := (rpld code hmac).trace (dodagEvents hmac i key) r es
    (∃ new, ((rpld code hmac).run r es).ifaces[i]? = some new ∧
        new.slot key = dodag.run (iface.slot key) evs) ∧
      dodag.outputs (iface.slot key) evs =
        (rpld code hmac).trace (dodagCalls code hmac i key) r es := by
  have hshows : Shows code (code.config iface r.adaptiveEnabled) i key r (iface.slot key) :=
    ⟨iface, hi, hd, rfl, rfl⟩
  obtain ⟨⟨new, hnew, -, -, hslot⟩, hcalls⟩ :=
    (rpld_refinesBy_dodag hcode hmac _ i key).run hshows es
  exact ⟨⟨new, hnew, hslot⟩, hcalls⟩

end Daemon

/-- A `dag.c` that searches the instances and then the DODAGs from the start, and puts new
ones last. -/
def searchDagCode : DagCode where
  dagLookup iface instanceId dodagid :=
    (iface.rpls.findIdx? (·.instanceId == instanceId)).bind fun m =>
      (iface.rpls[m]?.bind fun rpl => rpl.dags.findIdx? (·.dodagid == dodagid)).map (m, ·)
  insert rpls instanceId dag :=
    match rpls.findIdx? (·.instanceId == instanceId) with
    | some m => rpls.modify m fun rpl => { rpl with dags := rpl.dags ++ [dag] }
    | none => rpls ++ [⟨instanceId, [dag]⟩]
  dagOps _ := sampleDagOps 5 (Vector.replicate 16 0)
  daoCalls := sampleDaoCalls
  netlink := sampleNetlink
  insert_spec rpls instanceId dag := by
    cases hfind : rpls.findIdx? (·.instanceId == instanceId) with
    | none => exact ⟨instances rpls, [], by simp, by simp [instances]⟩
    | some m =>
        obtain ⟨hm, hid, -⟩ := List.findIdx?_eq_some_iff_getElem.mp hfind
        refine ⟨instances (rpls.take (m + 1)), instances (rpls.drop (m + 1)), ?_, ?_⟩
        · rw [instances, instances, instances, ← List.flatMap_append, List.take_append_drop]
        · have htake : rpls.take (m + 1) = rpls.take m ++ [rpls[m]] := by
            rw [List.take_append_getElem]
          simp only [instances, List.modify_eq_take_cons_drop hm, htake, eq_of_beq hid,
            List.flatMap_append, List.flatMap_cons, List.flatMap_nil, List.map_append,
            List.map_cons, List.map_nil, List.append_assoc, List.cons_append, List.nil_append,
            List.append_nil]

theorem looksUp_searchDagCode : searchDagCode.LooksUp where
  found iface instanceId dodagid place h := by
    obtain ⟨m, hm, h⟩ := Option.bind_eq_some_iff.mp h
    obtain ⟨n, hn, rfl⟩ := Option.map_eq_some_iff.mp h
    obtain ⟨rpl, hrpl, hn⟩ := Option.bind_eq_some_iff.mp hn
    obtain ⟨hlt, hid, -⟩ := List.findIdx?_eq_some_iff_getElem.mp hm
    obtain ⟨hlt', hid', -⟩ := List.findIdx?_eq_some_iff_getElem.mp hn
    have hsame : iface.rpls[m] = rpl := (List.getElem?_eq_some_iff.mp hrpl).2
    rw [hsame] at hid
    simp [keyAt, hrpl, hlt', eq_of_beq hid, eq_of_beq hid']
  missing iface instanceId dodagid hnodup h hmem := by
    obtain ⟨p, hp, hkey⟩ := List.mem_map.mp hmem
    obtain ⟨rpl, hrpl, hp⟩ := List.mem_flatMap.mp hp
    obtain ⟨dag, hdag, rfl⟩ := List.mem_map.mp hp
    obtain ⟨rfl, rfl⟩ := DodagKey.mk.inj hkey
    cases hfind : iface.rpls.findIdx? (·.instanceId == rpl.instanceId) with
    | none =>
        have hnone := List.findIdx?_eq_none_iff.mp hfind rpl hrpl
        simp at hnone
    | some m =>
        obtain ⟨hlt, hid, -⟩ := List.findIdx?_eq_some_iff_getElem.mp hfind
        have hsame : iface.rpls[m] = rpl :=
          List.inj_on_of_nodup_map hnodup (List.getElem_mem hlt) hrpl (eq_of_beq hid)
        have hnone : rpl.dags.findIdx? (·.dodagid == dag.dodagid) = none := by
          simpa [searchDagCode, hfind, hlt, hsame] using h
        have hne := List.findIdx?_eq_none_iff.mp hnone dag hdag
        simp at hne
  insert rpls instanceId dag hnodup := by
    cases hfind : rpls.findIdx? (·.instanceId == instanceId) with
    | none =>
        have hnone := List.findIdx?_eq_none_iff.mp hfind
        simp only [searchDagCode, hfind, List.map_append, List.map_cons, List.map_nil]
        rw [List.nodup_append]
        refine ⟨hnodup, List.nodup_singleton _, ?_⟩
        intro a ha b hb
        obtain ⟨rpl, hrpl, rfl⟩ := List.mem_map.mp ha
        obtain rfl := List.mem_singleton.mp hb
        simpa using hnone rpl hrpl
    | some m =>
        have hsame : (rpls.modify m fun rpl => { rpl with dags := rpl.dags ++ [dag] }).map
            Rpl.instanceId = rpls.map Rpl.instanceId := by
          apply List.ext_getElem?
          intro i
          by_cases hi : m = i <;> simp [hi, Function.comp_def]
        simpa only [searchDagCode, hfind, hsame] using hnodup
  dagOps _ _ _ := rfl
/-- Two DODAGs of one instance are joined, and the parent of the first is checked. -/
def twoDodags : List RpldEvent :=
  [.recv 1 0 0 (.dio ⟨true, true⟩ (hybridDio 1) (linkLocal 1)),
    .recv 2 0 0 (.dio ⟨true, true⟩ { hybridDio 1 with dagid := linkLocal 9 } (linkLocal 9)),
    .parentCheck 60 0 (0, 0), .reload 7]

/-- The first DODAG gets three of the four events. -/
theorem twoDodags_project :
    let r := Rpld.start 0 none [⟨1, false, .classS, []⟩]
    let key : DodagKey := ⟨1, linkLocal 1⟩
    let dodag := dodag (searchDagCode.config ⟨1, false, .classS, []⟩ true)
    let evs := (rpld searchDagCode sampleHmac).trace (dodagEvents sampleHmac 0 key) r twoDodags
    evs.length = 3 ∧
      (∃ new, ((rpld searchDagCode sampleHmac).run r twoDodags).ifaces[0]? = some new ∧
        new.slot key = dodag.run ⟨.classS, none⟩ evs) ∧
      dodag.outputs ⟨.classS, none⟩ evs =
        (rpld searchDagCode sampleHmac).trace
          (dodagCalls searchDagCode sampleHmac 0 key) r twoDodags :=
  ⟨by decide +kernel, rpld_projects searchDagCode looksUp_searchDagCode sampleHmac _ twoDodags 0
    ⟨1, false, .classS, []⟩ rfl ⟨List.nodup_nil, List.nodup_nil⟩ ⟨1, linkLocal 1⟩⟩

end HyMRPL
