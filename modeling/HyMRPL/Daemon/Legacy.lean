import HyMRPL.Daemon.Spacing

/-!
# The daemon before the limiter

`legacyRpld` is the daemon of `rpld_fifo.c.patch`, whose `hymrpl_check_fifo` reads up to 31
bytes and applies every class that they name. Without a token the daemon is meant to serve
the same scripts. It does, on a root, as long as they leave more than 20 seconds between two
commands: then interfaces and routes are the same after every run.
-/

namespace HyMRPL

open Transition

/-- The length of what `hymrpl_check_fifo` reads. -/
def legacyRead : ℕ := 31

/-- `hymrpl_check_fifo`, with the bytes in the FIFO. -/
def hymrplCheckFifo (ifaces : List Iface) (content : List UInt8) : List Iface :=
  let buf := content.take legacyRead
  if buf = [] then ifaces
  else
    match parseClass buf with
    | none => ifaces
    | some newClass => setNodeClass newClass ifaces

/-- The interfaces of the old daemon, and the routes that it has installed. -/
structure LegacyRpld where
  ifaces : List Iface
  routes : List ViaRoute

/-- The old daemon: it has no limiter and no engine. -/
def legacyRpld (code : DagCode) : Machine LegacyRpld RpldEvent Unit where
  enabled _ _ := True
  next l
    | .periodic _ buf => { l with ifaces := hymrplCheckFifo l.ifaces buf }
    | e =>
      let (ifaces, acts) := handle code false l.ifaces e
      ⟨ifaces, acts.foldl code.netlink.apply l.routes⟩
  out _ _ := ()

/-- The time at which a command is read in an event. -/
def commandTime : RpldEvent → Option ℚ
  | .periodic now buf => if buf = [] then none else (parseClass buf).map fun _ => now
  | _ => none

/-- The old daemon reads no less than the new one. -/
def ShortRead : RpldEvent → Prop
  | .periodic _ buf => buf.length ≤ legacyRead
  | _ => True

instance : DecidablePred ShortRead
  | .periodic _ buf => inferInstanceAs (Decidable (buf.length ≤ legacyRead))
  | .eval _ _ => .isTrue trivial
  | .recv _ _ _ _ => .isTrue trivial
  | .parentCheck _ _ _ => .isTrue trivial
  | .reload _ => .isTrue trivial
  | .send => .isTrue trivial

/-- The daemons are alike, and the limiter of the new one is at pace. -/
structure Alike (start : ℚ) (l : LegacyRpld) (r : Rpld) (records : List TickRecord) : Prop where
  ifaces : l.ifaces = r.ifaces
  routes : l.routes = r.routes
  unloaded : r.fifoSec.tokenLoaded = false
  disabled : r.adaptiveEnabled = false
  engine : ∀ s ∈ records, s.engine = none
  paced : Paced start r.fifoSec records

variable {code : DagCode} {hmac : Hmac} {start now : ℚ} {l : LegacyRpld} {r : Rpld}
  {records : List TickRecord} {buf : List UInt8}

/-- In a tick the same command passes in both daemons. -/
theorem Alike.passed (h : Alike start l r records) (hmac : Hmac) (now : ℚ) (buf : List UInt8) :
    (tickRecord hmac now buf r.toDaemon).passed.map (fun _ => now) =
      commandTime (.periodic now buf) := by
  rw [passed_of_unloaded h.unloaded, commandTime]
  split_ifs
  · rfl
  · rw [Option.map_map]
    rfl

/-- A command that comes late enough is applied by both. -/
theorem Alike.tick (h : Alike start l r records) (hten : hymrplMinSwitchInterval ≤ start)
    (hshort : ShortRead (.periodic now buf))
    (hspaced : commandTime (.periodic now buf) ≠ none →
      start ≤ now ∧ ∀ t ∈ (passings records).map Prod.fst, t + commandSpacing < now) :
    Alike start ((legacyRpld code).next l (.periodic now buf))
      ((rpld code hmac).next r (.periodic now buf))
      (records ++ [tickRecord hmac now buf r.toDaemon]) := by
  have hlate : (tickRecord hmac now buf r.toDaemon).passed ≠ none →
      start ≤ now ∧ ∀ t ∈ (passings records).map Prod.fst, t + commandSpacing < now := by
    intro hne
    apply hspaced
    rw [← h.passed hmac]
    simpa using hne
  have hengine : (tickRecord hmac now buf r.toDaemon).engine = none :=
    engine_eq_none_of_not_switches (not_engineSwitches_of_disabled h.disabled hmac now buf)
  have hpassed := passed_of_unloaded h.unloaded hmac now buf
  constructor
  case ifaces =>
    change hymrplCheckFifo l.ifaces buf = (hymrplPeriodicCb hmac now buf r.toDaemon).1.ifaces
    rw [hymrplCheckFifo, List.take_of_length_le hshort, h.ifaces]
    split_ifs with hbuf
    · rw [if_pos hbuf] at hpassed
      exact (ifaces_of_no_command hpassed hengine).symm
    · rw [if_neg hbuf] at hpassed
      cases hparse : parseClass buf with
      | none =>
          rw [hparse] at hpassed
          exact (ifaces_of_no_command hpassed hengine).symm
      | some newClass =>
          rw [hparse] at hpassed
          have hfifo := (h.paced.judged hten hlate).applied h.engine hpassed
          exact (ifaces_of_fifo hfifo).symm
  case routes => exact h.routes
  case unloaded =>
    exact (token_hymrplPeriodicCb hmac now buf r.toDaemon).2.trans h.unloaded
  case disabled =>
    exact (adaptiveEnabled_hymrplPeriodicCb hmac now buf r.toDaemon).trans h.disabled
  case engine =>
    rw [List.forall_mem_append, List.forall_mem_singleton]
    exact ⟨h.engine, hengine⟩
  case paced => exact h.paced.tick hlate

/-- The other callbacks do the same in both. -/
theorem Alike.other (h : Alike start l r records) {e : RpldEvent}
    (he : ((rpld code hmac).out r e).tick = none) :
    Alike start ((legacyRpld code).next l e) ((rpld code hmac).next r e) records := by
  obtain ⟨hsec, hifaces, hroutes⟩ := rpld_next_of_other he
  have hdisabled : ((rpld code hmac).next r e).adaptiveEnabled = false :=
    (adaptiveEnabled_next r e).trans h.disabled
  have hold : (legacyRpld code).next l e =
      ⟨(handle code false l.ifaces e).1,
        (handle code false l.ifaces e).2.foldl code.netlink.apply l.routes⟩ := by
    cases e with
    | periodic now buf => simp [rpld] at he
    | _ => rfl
  rw [h.disabled] at hifaces hroutes
  refine ⟨?_, ?_, hsec ▸ h.unloaded, hdisabled, h.engine, hsec ▸ h.paced⟩
  · rw [hold, hifaces, h.ifaces]
  · rw [hold, hroutes, h.ifaces, h.routes]

/-- The daemons stay alike in a run with short reads and spaced commands. -/
theorem Alike.run (code : DagCode) (hmac : Hmac) (h : Alike start l r records)
    (hten : hymrplMinSwitchInterval ≤ start) {es : List RpldEvent} (hshort : ∀ e ∈ es, ShortRead e)
    (hspaced : Spaced start ((passings records).map Prod.fst ++ es.filterMap commandTime)) :
    ∃ records, Alike start ((legacyRpld code).run l es) ((rpld code hmac).run r es) records := by
  induction es generalizing l r records with
  | nil => exact ⟨records, h⟩
  | cons e es ih =>
      rw [List.forall_mem_cons] at hshort
      cases htick : ((rpld code hmac).out r e).tick with
      | none =>
          have hnone : commandTime e = none := by
            cases e with
            | periodic now buf => simp [rpld] at htick
            | _ => rfl
          rw [List.filterMap_cons_none hnone] at hspaced
          exact ih (h.other htick) hshort.2 hspaced
      | some record =>
          cases e with
          | periodic now buf =>
              have hsame := h.passed hmac now buf
              cases hpassed : (tickRecord hmac now buf r.toDaemon).passed with
              | none =>
                  rw [hpassed, Option.map_none] at hsame
                  rw [List.filterMap_cons_none hsame.symm] at hspaced
                  refine ih (h.tick hten hshort.1 fun hne => absurd hsame.symm hne) hshort.2 ?_
                  rwa [passings_append_of_none hpassed]
              | some p =>
                  rw [hpassed, Option.map_some] at hsame
                  rw [List.filterMap_cons_some hsame.symm, List.append_cons] at hspaced
                  refine ih (h.tick hten hshort.1 fun _ => ?_) hshort.2 ?_
                  · exact (spaced_append.mp hspaced.left).2
                  · rw [passings_append_of_some hpassed, List.map_append]
                    exact hspaced
          | _ => simp [rpld] at htick

/-- Two commands to a root, 21 seconds apart. -/
def spacedCommands : List RpldEvent :=
  [.periodic 20 (hymrplCmd sampleHmac none .classN 0), .periodic 21 [],
    .periodic 41 (hymrplCmd sampleHmac none .classS 0)]

/-- A second command after five seconds is applied only by the old daemon. -/
example :
    let es : List RpldEvent := [.periodic 20 (hymrplCmd sampleHmac none .classN 0),
      .periodic 25 (hymrplCmd sampleHmac none .classS 0)]
    (((legacyRpld sampleDagCode).run ⟨[⟨1, true, .classS, []⟩], []⟩ es).ifaces,
        ((rpld sampleDagCode sampleHmac).run (Rpld.start 10 none [⟨1, true, .classS, []⟩])
          es).ifaces) =
      ([⟨1, true, .classS, []⟩], [⟨1, true, .classN, []⟩]) := by
  decide +kernel

end HyMRPL
