import HyMRPL.Daemon.Switches

/-!
# The samples of the delivery ratio

A DAO-ACK is meant to be a success in the window of the delivery ratio. But
`process_daoack` makes no call, so no success is ever recorded. The successes in the
window are those of the accepted DAO-ACKs exactly in the runs where none is accepted.

`AckedDaemon` adds to the daemon the outcomes that are meant to be recorded.
-/

namespace HyMRPL

open Transition Tlv

/-- `process_daoack` accepts a DAO-ACK, for a DODAG that the node has. -/
def acceptsDaoAck (code : DagCode) (r : Rpld) : RpldEvent → Bool
  | .recv _ _ i (.daoAck msg) =>
    (r.ifaces[i]?.bind fun iface =>
      processDaoack (fun instanceId dodagid =>
        (code.find iface instanceId dodagid).map Prod.snd) msg).isSome
  | _ => false

/-- The outcomes that an event is meant to record: the failures that it does record, and
a success for an accepted DAO-ACK. -/
def expectedOutcomes (code : DagCode) (hmac : Hmac) (r : Rpld) (e : RpldEvent) : List Bool :=
  (outcomeEvents (engineCalls code hmac r e)).filter (fun success => !success) ++
    if acceptsDaoAck code r e then [true] else []

/-- The daemon with the outcomes that were meant to be recorded. -/
structure AckedDaemon where
  r : Rpld
  expected : List Bool

namespace AckedDaemon

def machine (code : DagCode) (hmac : Hmac) : Machine AckedDaemon RpldEvent RpldRecord where
  enabled _ _ := True
  next a e :=
    ⟨(rpld code hmac).next a.r e, a.expected ++ expectedOutcomes code hmac a.r e⟩
  out a e := (rpld code hmac).out a.r e

/-- An event records one success if it is an accepted DAO-ACK, and otherwise none. -/
def SampledOnce (code : DagCode) (hmac : Hmac) (a : AckedDaemon) (e : RpldEvent) : Prop :=
  (outcomeEvents (engineCalls code hmac a.r e)).countP id =
    if acceptsDaoAck code a.r e then 1 else 0

/-- The window has the successes that are among the latest outcomes. -/
def WindowReflects (a : AckedDaemon) : Prop :=
  a.r.adaptive.samples.countP id = (a.expected.rtake hymrplPdrWindow).countP id

/-- No DAO-ACK is accepted. -/
def NoDaoAck (code : DagCode) (a : AckedDaemon) (e : RpldEvent) : Prop :=
  acceptsDaoAck code a.r e = false

instance (a : AckedDaemon) : Decidable (WindowReflects a) :=
  inferInstanceAs (Decidable (_ = _))

variable {code : DagCode} {hmac : Hmac} {a : AckedDaemon}

/-- No call of a handler makes the engine record a success. -/
theorem true_notMem_actionCalls (now : ℚ) (failures : ℕ) (acts : List Action) :
    true ∉ outcomeEvents (acts.flatMap (actionCalls now failures)) := by
  induction acts with
  | nil => simp [outcomeEvents]
  | cons act acts ih =>
      have hact : true ∉ outcomeEvents (actionCalls now failures act) := by
        cases act with
        | adaptiveNotifyDaoSent =>
            change true ∉ outcomeEvents (List.replicate failures (.recordDao false))
            simp [outcomeEvents]
        | _ => exact List.not_mem_nil
      rw [List.flatMap_cons, outcomeEvents_append, List.mem_append, not_or]
      exact ⟨hact, ih⟩

/-- No event makes the engine record a success. -/
theorem true_notMem_engineCalls (code : DagCode) (hmac : Hmac) (r : Rpld) (e : RpldEvent) :
    true ∉ outcomeEvents (engineCalls code hmac r e) := by
  cases henabled : r.adaptiveEnabled with
  | false => simp [engineCalls, henabled, outcomeEvents]
  | true =>
      cases e with
      | periodic now buf =>
          simp only [engineCalls, henabled]
          split_ifs <;> simp [outcomeEvents]
      | recv now failures i msg =>
          simpa [engineCalls, henabled] using true_notMem_actionCalls now failures _
      | parentCheck now i place =>
          simpa [engineCalls, henabled] using true_notMem_actionCalls now 0 _
      | _ => simp [engineCalls, henabled, outcomeEvents]

theorem countP_eq_zero_of_notMem {l : List Bool} (h : true ∉ l) : l.countP id = 0 := by
  rw [List.countP_eq_zero]
  rintro b hb hid
  exact h (hid ▸ hb)

/-- The window comes from a history without successes. -/
def NoSuccess (adp : HymrplAdaptive) : Prop := ∃ history, Outcomes adp history ∧ true ∉ history

theorem NoSuccess.countP_samples {adp : HymrplAdaptive} (h : NoSuccess adp) :
    adp.samples.countP id = 0 := by
  have ⟨history, houtcomes, hnone⟩ := h
  rw [houtcomes.countP_samples]
  exact countP_eq_zero_of_notMem fun hmem => hnone (List.mem_of_mem_drop hmem)

theorem NoSuccess.next {r : Rpld} (h : NoSuccess r.adaptive) (e : RpldEvent) :
    NoSuccess ((rpld code hmac).next r e).adaptive := by
  have ⟨history, houtcomes, hnone⟩ := h
  rw [rpld_next_adaptive]
  refine ⟨_, houtcomes.run _, ?_⟩
  rw [List.mem_append, not_or]
  exact ⟨hnone, true_notMem_engineCalls code hmac r e⟩

theorem sampledOnce_iff (e : RpldEvent) : SampledOnce code hmac a e ↔ NoDaoAck code a e := by
  rw [SampledOnce, countP_eq_zero_of_notMem (true_notMem_engineCalls code hmac a.r e), NoDaoAck]
  cases acceptsDaoAck code a.r e <;> simp

/-- What holds as long as no DAO-ACK is accepted. -/
structure Unacked (a : AckedDaemon) : Prop where
  noSuccess : NoSuccess a.r.adaptive
  expected : true ∉ a.expected

theorem Unacked.windowReflects (h : Unacked a) : WindowReflects a := by
  rw [WindowReflects, h.noSuccess.countP_samples]
  exact (countP_eq_zero_of_notMem fun hmem => h.expected (List.mem_of_mem_drop hmem)).symm

theorem Unacked.next (h : Unacked a) {e : RpldEvent} (he : NoDaoAck code a e) :
    Unacked ((machine code hmac).next a e) := by
  have he' : acceptsDaoAck code a.r e = false := he
  constructor
  case noSuccess => exact h.noSuccess.next e
  case expected => simp [machine, expectedOutcomes, he', h.expected]

/-- An accepted DAO-ACK is missing in the window at once. -/
theorem Unacked.not_windowReflects (h : Unacked a) {e : RpldEvent} (he : ¬ NoDaoAck code a e) :
    ¬ WindowReflects ((machine code hmac).next a e) := by
  have haccepts : acceptsDaoAck code a.r e = true := by simpa [NoDaoAck] using he
  have hzero : ((machine code hmac).next a e).r.adaptive.samples.countP id = 0 :=
    (h.noSuccess.next e).countP_samples
  have hexpected : ((machine code hmac).next a e).expected =
      (a.expected ++ (outcomeEvents (engineCalls code hmac a.r e)).filter
        (fun success => !success)) ++ [true] := by
    simp [machine, expectedOutcomes, haccepts]
  rw [WindowReflects, hzero, hexpected, List.rtake_concat_succ, List.countP_append]
  simp

/-- The window reflects the protocol, by single events and as a whole, exactly in the runs
where no DAO-ACK is accepted. -/
theorem windowReflects_iff (code : DagCode) (hmac : Hmac) (start : ℚ)
    (tokenFile : Option (List UInt8)) (ifaces : List Iface) (es : List RpldEvent) :
    ((machine code hmac).Steps (SampledOnce code hmac)
        ⟨Rpld.start start tokenFile ifaces, []⟩ es ↔
      (machine code hmac).Steps (NoDaoAck code) ⟨Rpld.start start tokenFile ifaces, []⟩ es) ∧
    ((machine code hmac).Always WindowReflects ⟨Rpld.start start tokenFile ifaces, []⟩ es ↔
      (machine code hmac).Steps (NoDaoAck code) ⟨Rpld.start start tokenFile ifaces, []⟩ es) := by
  constructor
  · exact Machine.steps_congr (fun a e => sampledOnce_iff e) _ es
  · apply Machine.always_iff_steps_of_enabled (I := Unacked)
    · exact fun _ _ => trivial
    · exact fun a h => h.windowReflects
    · exact fun a e h he => h.next he
    · exact fun a e h he => h.not_windowReflects he
    · exact ⟨⟨[], outcomes_init, by simp⟩, by simp⟩

/-- A node joins a DODAG, sends its DAO, and gets the DAO-ACK. -/
def joinThenAck : List RpldEvent :=
  [.recv 10 0 0 (.dio ⟨true, true⟩ (hybridDio 256) (linkLocal 2)),
    .recv 11 0 0 (.daoAck ⟨[1, 0, 0, 0] ++ (linkLocal 1).toList, fun _ => 0⟩)]

/-- The engine is enabled, and its window stays empty. -/
theorem joinThenAck_not_sampled :
    let a : AckedDaemon := ⟨Rpld.start 0 none [⟨1, false, .classS, []⟩], []⟩
    let b := (machine sampleDagCode sampleHmac).run a joinThenAck
    b.r.adaptiveEnabled = true ∧ b.expected = [true] ∧ b.r.adaptive.samples = [] ∧
      ¬ (machine sampleDagCode sampleHmac).Always WindowReflects a joinThenAck := by
  decide +kernel

end AckedDaemon

end HyMRPL
