import HyMRPL.Adaptive.Run
import HyMRPL.Daemon.Periodic
import HyMRPL.Process.Dao
import HyMRPL.Process.Dio
import HyMRPL.Process.ParentCheck

/-!
# The daemon with all its callbacks

`rpld` is the daemon with every callback that `main` and `rpld_setup` register: the
periodic callback, the evaluation timer of the engine, the messages that `process`
dispatches, the liveness timer of each DODAG, the reload of the trickle period, and the
timers that only send. The calls that a handler makes take effect on the engine and on
the routes that the daemon has installed through `nl_add_route_via`.

The functions of `dag.c` and `netlink.c` are the parameter `DagCode`, with what the handlers
rely on: `dag_create` adds one DODAG to the lists of an interface and leaves the others there,
and routes are added and removed as in `Netlink`. `hymrpl_adaptive_notify_dao_sent` and
`hymrpl_adaptive_notify_parent_change` are not in the repository either. The first may record
failures, whose number is part of the event, and the second forwards to
`hymrpl_adaptive_parent_changed`.
-/

namespace HyMRPL

open Transition Tlv

/-- The DODAGs of an interface with the instances that they belong to. -/
def instances (rpls : List Rpl) : List (UInt8 × Dag) :=
  rpls.flatMap fun rpl => rpl.dags.map fun dag => (rpl.instanceId, dag)

/-- The DODAGs of all interfaces. -/
def dagsOf (ifaces : List Iface) : List Dag :=
  ifaces.flatMap fun iface => iface.rpls.flatMap Rpl.dags

theorem dagsOf_setNodeClass (newClass : NodeClass) (ifaces : List Iface) :
    dagsOf (setNodeClass newClass ifaces) =
      (dagsOf ifaces).map fun dag => { dag with nodeClass := newClass } := by
  simp [dagsOf, setNodeClass, List.flatMap_map, List.map_flatMap]

/-- A route to a child. -/
structure ViaRoute where
  ifindex : UInt32
  dest : In6Prefix
  via : In6Addr
  deriving DecidableEq

/-- What `netlink.c` does to the routes to children: `nl_add_route_via` adds one, and
`nl_del_route_via` without a next hop removes those to a prefix at an interface. -/
structure Netlink where
  nlAddRouteVia : UInt32 → In6Addr → In6Addr → List ViaRoute → List ViaRoute
  nlDelRouteVia : UInt32 → In6Prefix → List ViaRoute → List ViaRoute
  mem_nlAddRouteVia : ∀ ifindex dest via routes route,
    route ∈ nlAddRouteVia ifindex dest via routes ↔
      route ∈ routes ∨ route = ⟨ifindex, ⟨128, dest⟩, via⟩
  mem_nlDelRouteVia : ∀ ifindex dest routes route,
    route ∈ nlDelRouteVia ifindex dest routes ↔
      route ∈ routes ∧ ¬ (route.ifindex = ifindex ∧ route.dest = dest)

/-- Routes in the order in which they were added. -/
def sampleNetlink : Netlink where
  nlAddRouteVia ifindex dest via routes := routes ++ [⟨ifindex, ⟨128, dest⟩, via⟩]
  nlDelRouteVia ifindex dest routes :=
    routes.filter fun route => ¬ (route.ifindex = ifindex ∧ route.dest = dest)
  mem_nlAddRouteVia _ _ _ _ _ := by simp
  mem_nlDelRouteVia _ _ _ _ := by rw [List.mem_filter, decide_eq_true_iff]

/-- What the handlers ask of `dag.c` and `netlink.c`: `dag_lookup`, as the positions of the
instance and of the DODAG in it, the insertion of a new DODAG by `dag_create`, and the routes. -/
structure DagCode where
  dagLookup : Iface → UInt8 → In6Addr → Option (ℕ × ℕ)
  insert : List Rpl → UInt8 → Dag → List Rpl
  dagOps : Iface → DagOps
  daoCalls : DaoCalls
  netlink : Netlink
  insert_spec : ∀ rpls instanceId dag, ∃ before after,
    instances rpls = before ++ after ∧
      instances (insert rpls instanceId dag) = before ++ (instanceId, dag) :: after

/-- The DODAG at a position. -/
def dagAt (rpls : List Rpl) (place : ℕ × ℕ) : Option Dag :=
  match rpls[place.1]? with
  | some rpl => rpl.dags[place.2]?
  | none => none

/-- The interface with another DODAG at a position. -/
def Iface.setDag (iface : Iface) (place : ℕ × ℕ) (dag : Dag) : Iface :=
  { iface with
    rpls := iface.rpls.modify place.1 fun rpl => { rpl with dags := rpl.dags.set place.2 dag } }

/-- `dag_lookup`, with the position of what it finds. -/
def DagCode.find (code : DagCode) (iface : Iface) (instanceId : UInt8) (dodagid : In6Addr) :
    Option ((ℕ × ℕ) × Dag) :=
  (code.dagLookup iface instanceId dodagid).bind fun place =>
    (dagAt iface.rpls place).map fun dag => (place, dag)

/-- The messages that `process` dispatches. -/
inductive Message
  | dis
  | dio (alloc : Alloc) (dio : Dio) (src : In6Addr)
  | dao (msg : Packet) (src : In6Addr)
  | daoAck (msg : Packet)

/-- The interface after a handler has looked up a DODAG by its identifiers and has
returned its new contents. One that was not found was created. -/
def Iface.update (code : DagCode) (iface : Iface) (instanceId : UInt8) (dodagid : In6Addr)
    (result : Option (Dag × List Action)) : Iface × List Action :=
  match result with
  | none => (iface, [])
  | some (dag, acts) =>
    match code.find iface instanceId dodagid with
    | some (place, _) => (iface.setDag place dag, acts)
    | none => ({ iface with rpls := code.insert iface.rpls instanceId dag }, acts)

/-- `process`, from the dispatch on. -/
def process (code : DagCode) (now : ℚ) (iface : Iface) : Message → Iface × List Action
  | .dis => (iface, [])
  | .dio alloc dio src =>
    iface.update code dio.instanceid dio.dagid
      (processDio now alloc ⟨iface.ifindex, iface.nodeClass, code.dagOps iface⟩
        (fun instanceId dodagid => (code.find iface instanceId dodagid).map Prod.snd) dio src)
  | .dao msg src =>
    iface.update code (msg.byte 0) (msg.field 16 4)
      (processDao code.daoCalls
        (fun instanceId dodagid => (code.find iface instanceId dodagid).map Prod.snd) msg src)
  | .daoAck msg =>
    iface.update code (msg.byte 0) (msg.field 16 4)
      (processDaoack
        (fun instanceId dodagid => (code.find iface instanceId dodagid).map Prod.snd) msg)

/-- The liveness timer of the DODAG at a position. -/
def Iface.parentCheck (now : ℚ) (adaptiveEnabled : Bool) (place : ℕ × ℕ) (iface : Iface) :
    Iface × List Action :=
  match dagAt iface.rpls place with
  | none => (iface, [])
  | some dag =>
    let (dag, acts) := parentCheckCb now adaptiveEnabled dag
    (iface.setDag place dag, acts)

/-- `reload_cb`, with the value that `read_trickle_config` returns. -/
def reloadCb (newTrickleT : CDouble) (ifaces : List Iface) : List Iface :=
  if newTrickleT ≤ 0 then ifaces
  else
    ifaces.map fun iface =>
      { iface with
        rpls := iface.rpls.map fun rpl =>
          { rpl with dags := rpl.dags.map fun dag => { dag with trickleT := newTrickleT } } }

/-- What the event loop calls: a message comes with the position of its interface and
the number of failures that are recorded if it makes the node send DAOs; `send` is any
of the timers that only send. -/
inductive RpldEvent
  | periodic (now : ℚ) (buf : List UInt8)
  | eval (now energy : ℚ)
  | recv (now : ℚ) (failures iface : ℕ) (msg : Message)
  | parentCheck (now : ℚ) (iface : ℕ) (place : ℕ × ℕ)
  | reload (newTrickleT : CDouble)
  | send

/-- The interfaces after a function is called with one of them. -/
def onIface (ifaces : List Iface) (i : ℕ) (f : Iface → Iface × List Action) :
    List Iface × List Action :=
  match ifaces[i]? with
  | none => (ifaces, [])
  | some iface =>
    let (iface, acts) := f iface
    (ifaces.set i iface, acts)

/-- What the callbacks other than the periodic one do to the interfaces, and the calls
that they make. -/
def handle (code : DagCode) (adaptiveEnabled : Bool) (ifaces : List Iface) :
    RpldEvent → List Iface × List Action
  | .periodic _ _ => (ifaces, [])
  | .eval _ _ => (ifaces, [])
  | .recv now _ i msg => onIface ifaces i fun iface => process code now iface msg
  | .parentCheck now i place => onIface ifaces i (Iface.parentCheck now adaptiveEnabled place)
  | .reload newTrickleT => (reloadCb newTrickleT ifaces, [])
  | .send => (ifaces, [])

/-- What a call does to the routes to children. -/
def Netlink.apply (nl : Netlink) (routes : List ViaRoute) : Action → List ViaRoute
  | .nlAddRouteVia ifindex dest via => nl.nlAddRouteVia ifindex dest via routes
  | .nlDelRouteVia ifindex dest => nl.nlDelRouteVia ifindex dest routes
  | _ => routes

/-- What a call asks of the engine. -/
def actionCalls (now : ℚ) (failures : ℕ) : Action → List EngineEvent
  | .adaptiveNotifyDaoSent => List.replicate failures (.recordDao false)
  | .adaptiveNotifyParentChange addr => [.parentChanged now (some addr)]
  | .adaptiveParentChanged => [.parentChanged now none]
  | _ => []

/-- The daemon and the routes to children that it has installed. -/
structure Rpld extends Daemon where
  routes : List ViaRoute

/-- The calls that the engine gets in an event. Without a non-root interface the engine
is not set up, and gets none. -/
def engineCalls (code : DagCode) (hmac : Hmac) (r : Rpld) (e : RpldEvent) : List EngineEvent :=
  if r.adaptiveEnabled = false then []
  else
    match e with
    | .periodic now buf =>
      if (hymrplFifoSecCheck hmac now r.fifoSec r.ifaces buf).2.2 = none then
        [.recommend (currentClass r.ifaces)]
      else []
    | .eval now energy => [.eval now energy]
    | .recv now failures _ _ =>
      (handle code r.adaptiveEnabled r.ifaces e).2.flatMap (actionCalls now failures)
    | .parentCheck now _ _ =>
      (handle code r.adaptiveEnabled r.ifaces e).2.flatMap (actionCalls now 0)
    | .reload _ => []
    | .send => []

/-- The record of an event: that of a tick, and the calls that the engine got. -/
structure RpldRecord where
  tick : Option TickRecord
  calls : List EngineEvent

/-- The daemon, with the records of its events as the outputs. -/
def rpld (code : DagCode) (hmac : Hmac) : Machine Rpld RpldEvent RpldRecord where
  enabled _ _ := True
  next r
    | .periodic now buf => { r with toDaemon := (hymrplPeriodicCb hmac now buf r.toDaemon).1 }
    | e =>
      let (ifaces, acts) := handle code r.adaptiveEnabled r.ifaces e
      { r with
        adaptive := engine.run r.adaptive (engineCalls code hmac r e)
        ifaces := ifaces
        routes := acts.foldl code.netlink.apply r.routes }
  out r e :=
    { tick :=
        match e with
        | .periodic now buf => some (tickRecord hmac now buf r.toDaemon)
        | _ => none
      calls := engineCalls code hmac r e }

/-- What `main` sets up, with no routes installed yet. -/
def Rpld.start (now : ℚ) (tokenFile : Option (List UInt8)) (ifaces : List Iface) : Rpld where
  toDaemon := Daemon.start now tokenFile ifaces
  routes := []

/-- The records of the ticks of a run. -/
def rpldTicks (code : DagCode) (hmac : Hmac) (r : Rpld) (es : List RpldEvent) :
    List TickRecord :=
  (((rpld code hmac).outputs r es).map RpldRecord.tick).reduceOption

/-- The calls that the engine gets in a run. -/
def rpldCalls (code : DagCode) (hmac : Hmac) (r : Rpld) (es : List RpldEvent) :
    List EngineEvent :=
  ((rpld code hmac).outputs r es).flatMap RpldRecord.calls

variable {code : DagCode} {hmac : Hmac}

/-- The engine after a tick. -/
theorem hymrplPeriodicCb_adaptive (now : ℚ) (buf : List UInt8) (r : Rpld) :
    (hymrplPeriodicCb hmac now buf r.toDaemon).1.adaptive =
      engine.run r.adaptive (engineCalls code hmac r (.periodic now buf)) := by
  rcases hymrplPeriodicCb_cases hmac now buf r.toDaemon with
    ⟨newClass, hfifo, h⟩ | ⟨hfifo, henabled, h⟩ | ⟨hfifo, henabled, -, h⟩ |
    ⟨newClass, hfifo, henabled, -, -, h⟩
  · simp [h, engineCalls, hfifo, Machine.run]
  · simp [h, engineCalls, henabled, Machine.run]
  · simp [h, engineCalls, hfifo, henabled, Machine.run, engine, engineStep]
  · simp [h, engineCalls, hfifo, henabled, Machine.run, engine, engineStep]

/-- In every event the engine does what its calls say. -/
theorem rpld_next_adaptive (r : Rpld) (e : RpldEvent) :
    ((rpld code hmac).next r e).adaptive = engine.run r.adaptive (engineCalls code hmac r e) := by
  cases e with
  | periodic now buf => exact hymrplPeriodicCb_adaptive now buf r
  | eval now energy => rfl
  | recv now failures i msg => rfl
  | parentCheck now i place => rfl
  | reload newTrickleT => rfl
  | send => rfl

theorem rpld_run_adaptive (r : Rpld) (es : List RpldEvent) :
    ((rpld code hmac).run r es).adaptive =
      engine.run r.adaptive (rpldCalls code hmac r es) := by
  induction es generalizing r with
  | nil => rfl
  | cons e es ih =>
      have hcalls : rpldCalls code hmac r (e :: es) =
          engineCalls code hmac r e ++ rpldCalls code hmac ((rpld code hmac).next r e) es := rfl
      rw [Machine.run, ih, hcalls, Machine.run_append, rpld_next_adaptive]

theorem adaptiveEnabled_next (r : Rpld) (e : RpldEvent) :
    ((rpld code hmac).next r e).adaptiveEnabled = r.adaptiveEnabled := by
  cases e with
  | periodic now buf => exact adaptiveEnabled_hymrplPeriodicCb hmac now buf r.toDaemon
  | _ => rfl

/-- What the other callbacks do is `other` for the machine `daemon`, which thus has the
same ticks. -/
theorem rpld_simulates (code : DagCode) (hmac : Hmac) :
    Machine.Simulates (rpld code hmac) (daemon hmac) Rpld.toDaemon RpldRecord.tick := by
  intro r e
  cases e with
  | periodic now buf => exact ⟨.tick now buf, rfl, rfl⟩
  | eval now energy => exact ⟨.other _ _, rfl, rfl⟩
  | recv now failures i msg => exact ⟨.other _ _, rfl, rfl⟩
  | parentCheck now i place => exact ⟨.other _ _, rfl, rfl⟩
  | reload newTrickleT => exact ⟨.other _ _, rfl, rfl⟩
  | send => exact ⟨.other _ _, rfl, rfl⟩

/-- The ticks of a run are those of a run of `daemon`. -/
theorem exists_daemon_run (code : DagCode) (hmac : Hmac) (r : Rpld) (es : List RpldEvent) :
    ∃ es', (daemon hmac).run r.toDaemon es' = ((rpld code hmac).run r es).toDaemon ∧
      tickRecords hmac r.toDaemon es' = rpldTicks code hmac r es := by
  have ⟨es', hrun, houts⟩ := (rpld_simulates code hmac).exists_run r es
  exact ⟨es', hrun, congrArg List.reduceOption houts⟩

/-- A `dag.c` with one DODAG for each instance, the newest instance last. -/
def sampleDagCode : DagCode where
  dagLookup iface instanceId dodagid :=
    (iface.rpls.findIdx? fun rpl =>
      rpl.instanceId = instanceId && (rpl.dags.map Dag.dodagid).contains dodagid).map (·, 0)
  insert rpls instanceId dag := rpls ++ [⟨instanceId, [dag]⟩]
  dagOps _ := sampleDagOps 5 (Vector.replicate 16 0)
  daoCalls := ⟨fun childs addr source => childs ++ [⟨addr, source⟩], fun _ _ => true⟩
  netlink := sampleNetlink
  insert_spec rpls instanceId dag := ⟨instances rpls, [], by simp, by simp [instances]⟩

end HyMRPL
