import HyMRPL.Adaptive.Normalised
import HyMRPL.Daemon.DeliverySamples

/-!
# After the first failure

Failures are recorded in the window of the delivery ratio, and successes never are. So the
first failure takes the ratio to zero for good, and what energy and stability can add to
the score is below the threshold: from then on the engine of the daemon decides for Class N,
whatever happens, and never switches to Class S.
-/

namespace HyMRPL

open Transition

/-- A failure is in the window, and no success. -/
structure Starved (adp : HymrplAdaptive) : Prop where
  failed : ∃ history, Outcomes adp history ∧ true ∉ history ∧ history ≠ []
  ratio : adp.pdr = adp.deliveryRatio
  normalised : Normalised adp

/-- What `read_energy` returns in an evaluation is a percentage. -/
def PercentEnergy : RpldEvent → Prop
  | .eval _ energy => energy ∈ Set.Icc 0 100
  | _ => True

instance : DecidablePred PercentEnergy
  | .eval _ energy => inferInstanceAs (Decidable (0 ≤ energy ∧ energy ≤ 100))
  | .periodic _ _ => .isTrue trivial
  | .recv _ _ _ _ => .isTrue trivial
  | .parentCheck _ _ _ => .isTrue trivial
  | .reload _ => .isTrue trivial
  | .send => .isTrue trivial

namespace Starved

variable {adp : HymrplAdaptive}

theorem pdr_eq_zero (h : Starved adp) : adp.pdr = 0 := by
  obtain ⟨history, houtcomes, hnone, hne⟩ := h.failed
  have hcount : adp.pdrCount ≠ 0 := by
    rw [houtcomes.count_eq]
    have hlength := List.length_pos_iff.mpr hne
    simp only [hymrplPdrWindow]
    omega
  have hzero : adp.samples.countP id = 0 :=
    AckedDaemon.NoSuccess.countP_samples ⟨history, houtcomes, hnone⟩
  rw [h.ratio, HymrplAdaptive.deliveryRatio, if_neg hcount, hzero]
  simp

/-- Energy and stability alone do not reach the threshold. -/
theorem classOfScore_eq (h : Starved adp) : classOfScore adp.score = .classN := by
  have hema := h.normalised.ema_mem.2
  have hstab := h.normalised.sStab_mem.2
  apply if_neg
  simp only [HymrplAdaptive.score, h.pdr_eq_zero, hymrplWPdr, hymrplWEnergy, hymrplWStability,
    hymrplThreshold]
  linarith

/-- A call that records no success keeps the engine starved. -/
theorem step (h : Starved adp) {e : EngineEvent} (hnone : true ∉ outcomeEvents [e])
    (hpercent : PercentReading adp e) : Starved (engineStep adp e) := by
  constructor
  case failed =>
    obtain ⟨history, houtcomes, hold, hne⟩ := h.failed
    refine ⟨history ++ outcomeEvents [e], houtcomes.step e, ?_,
      List.append_ne_nil_of_left_ne_nil hne _⟩
    rw [List.mem_append, not_or]
    exact ⟨hold, hnone⟩
  case ratio => exact pdr_engineStep h.ratio e
  case normalised => exact h.normalised.next (h.normalised.inRange_of_percent hpercent)

end Starved

variable {code : DagCode} {hmac : Hmac}

/-- The calls of the handlers read no energy. -/
theorem percentReading_actionCalls (now : ℚ) (failures : ℕ) (acts : List Action)
    (adp : HymrplAdaptive) :
    ∀ call ∈ acts.flatMap (actionCalls now failures), PercentReading adp call := by
  intro call hcall
  obtain ⟨act, -, hact⟩ := List.mem_flatMap.mp hcall
  cases act with
  | adaptiveNotifyDaoSent => rw [List.eq_of_mem_replicate hact]; trivial
  | adaptiveNotifyParentChange addr => rw [List.mem_singleton.mp hact]; trivial
  | adaptiveParentChanged => rw [List.mem_singleton.mp hact]; trivial
  | _ => exact absurd hact List.not_mem_nil

/-- The readings of the calls are percentages if that of the event is one. -/
theorem percentReading_engineCalls (code : DagCode) (hmac : Hmac) (r : Rpld) {e : RpldEvent}
    (h : PercentEnergy e) (adp : HymrplAdaptive) :
    ∀ call ∈ engineCalls code hmac r e, PercentReading adp call := by
  intro call hcall
  cases henabled : r.adaptiveEnabled with
  | false => simp [engineCalls, henabled] at hcall
  | true =>
      cases e with
      | periodic now buf =>
          simp only [engineCalls, henabled, Bool.true_eq_false, if_false] at hcall
          split_ifs at hcall
          · rw [List.mem_singleton.mp hcall]
            trivial
          · exact absurd hcall List.not_mem_nil
      | eval now energy =>
          simp only [engineCalls, henabled, Bool.true_eq_false, if_false] at hcall
          rw [List.mem_singleton.mp hcall]
          exact h
      | recv now failures i msg =>
          simp only [engineCalls, henabled, Bool.true_eq_false, if_false] at hcall
          exact percentReading_actionCalls now failures _ adp call hcall
      | parentCheck now i place =>
          simp only [engineCalls, henabled, Bool.true_eq_false, if_false] at hcall
          exact percentReading_actionCalls now 0 _ adp call hcall
      | reload newTrickleT => simp [engineCalls, henabled] at hcall
      | send => simp [engineCalls, henabled] at hcall

theorem true_notMem_rpldCalls (code : DagCode) (hmac : Hmac) (r : Rpld) (es : List RpldEvent) :
    true ∉ outcomeEvents (rpldCalls code hmac r es) := by
  induction es generalizing r with
  | nil => exact List.not_mem_nil
  | cons e es ih =>
      have hcalls : rpldCalls code hmac r (e :: es) =
          engineCalls code hmac r e ++ rpldCalls code hmac ((rpld code hmac).next r e) es := rfl
      rw [hcalls, outcomeEvents_append, List.mem_append, not_or]
      exact ⟨AckedDaemon.true_notMem_engineCalls code hmac r e, ih _⟩

theorem percentReading_rpldCalls (code : DagCode) (hmac : Hmac) {r : Rpld} {es : List RpldEvent}
    (h : ∀ e ∈ es, PercentEnergy e) (adp : HymrplAdaptive) :
    ∀ call ∈ rpldCalls code hmac r es, PercentReading adp call := by
  induction es generalizing r with
  | nil => exact fun call hcall => absurd hcall List.not_mem_nil
  | cons e es ih =>
      have hcalls : rpldCalls code hmac r (e :: es) =
          engineCalls code hmac r e ++ rpldCalls code hmac ((rpld code hmac).next r e) es := rfl
      rw [hcalls, List.forall_mem_append]
      exact ⟨percentReading_engineCalls code hmac r (h e (List.mem_cons_self ..)) adp,
        ih fun e he => h e (List.mem_cons_of_mem _ he)⟩

theorem Normalised.run {adp : HymrplAdaptive} (h : Normalised adp) {calls : List EngineEvent}
    (hpercent : ∀ adp, ∀ call ∈ calls, PercentReading adp call) :
    Normalised (engine.run adp calls) := by
  induction calls generalizing adp with
  | nil => exact h
  | cons call calls ih =>
      have hrange := h.inRange_of_percent (hpercent adp call (List.mem_cons_self ..))
      exact ih (h.next hrange) fun adp c hc => hpercent adp c (List.mem_cons_of_mem _ hc)

theorem Starved.run {adp : HymrplAdaptive} (h : Starved adp) {calls : List EngineEvent}
    (hnone : true ∉ outcomeEvents calls)
    (hpercent : ∀ adp, ∀ call ∈ calls, PercentReading adp call) :
    Starved (engine.run adp calls) := by
  induction calls generalizing adp with
  | nil => exact h
  | cons call calls ih =>
      have hsplit : outcomeEvents (call :: calls) = outcomeEvents [call] ++ outcomeEvents calls :=
        outcomeEvents_append [call] calls
      rw [hsplit, List.mem_append, not_or] at hnone
      exact ih (h.step hnone.1 (hpercent adp call (List.mem_cons_self ..))) hnone.2
        fun adp c hc => hpercent adp c (List.mem_cons_of_mem _ hc)

/-- The step lemma for the daemon. -/
theorem Starved.next {r : Rpld} (h : Starved r.adaptive) {e : RpldEvent} (he : PercentEnergy e) :
    Starved ((rpld code hmac).next r e).adaptive := by
  rw [rpld_next_adaptive]
  exact h.run (AckedDaemon.true_notMem_engineCalls code hmac r e)
    fun adp => percentReading_engineCalls code hmac r he adp

/-- A run in which a failure is recorded starves the engine. -/
theorem starved_of_failure {start : ℚ} {tokenFile : Option (List UInt8)} {ifaces : List Iface}
    {es : List RpldEvent} (hpercent : ∀ e ∈ es, PercentEnergy e)
    (hfailed : .recordDao false ∈ rpldCalls code hmac (Rpld.start start tokenFile ifaces) es) :
    Starved ((rpld code hmac).run (Rpld.start start tokenFile ifaces) es).adaptive := by
  rw [rpld_run_adaptive]
  constructor
  case failed =>
    refine ⟨_, outcomes_init.run _, true_notMem_rpldCalls code hmac _ es, ?_⟩
    apply List.ne_nil_of_mem (a := false)
    exact List.mem_filterMap.mpr ⟨_, hfailed, rfl⟩
  case ratio => exact pdr_run rfl _
  case normalised =>
    exact normalised_init.run fun adp => percentReading_rpldCalls code hmac hpercent adp

/-- From the first recorded failure on, as long as the energy readings are percentages, the
engine decides for Class N in every state, and no tick switches to Class S through it. -/
theorem classN_after_failure (code : DagCode) (hmac : Hmac) (start : ℚ)
    (tokenFile : Option (List UInt8)) (ifaces : List Iface) (es es' : List RpldEvent)
    (hpercent : ∀ e ∈ es ++ es', PercentEnergy e)
    (hfailed : .recordDao false ∈ rpldCalls code hmac (Rpld.start start tokenFile ifaces) es) :
    let r := (rpld code hmac).run (Rpld.start start tokenFile ifaces) es
    (rpld code hmac).Always (fun r => (adaptiveDecide r.adaptive).2 = .classN) r es' ∧
      ∀ record ∈ rpldTicks code hmac r es', record.engine ≠ some .classS := by
  intro r
  rw [List.forall_mem_append] at hpercent
  have hstarved : Starved r.adaptive := starved_of_failure hpercent.1 hfailed
  have halways : (rpld code hmac).Always (fun r => Starved r.adaptive) r es' :=
    Machine.always_of_steps (fun r e h _ he => h.next he) hstarved
      (Machine.legal_of_forall (fun _ _ => trivial) r es')
      (Machine.steps_of_forall (fun _ e he => hpercent.2 e he) r)
  refine ⟨halways.mono fun r h => h.classOfScore_eq, fun record hrecord => ?_⟩
  obtain ⟨o, ho, htick⟩ := List.mem_map.mp (List.reduceOption_mem_iff.mp hrecord)
  refine halways.forall_outputs (Q := fun o => ∀ record, o.tick = some record →
    record.engine ≠ some .classS) (fun r e h record htick hengine => ?_) o ho record htick
  cases e with
  | periodic now buf =>
      obtain rfl : tickRecord hmac now buf r.toDaemon = record := Option.some.inj htick
      rcases hymrplPeriodicCb_cases hmac now buf r.toDaemon with
        ⟨newClass, -, hcb⟩ | ⟨-, -, hcb⟩ | ⟨-, -, -, hcb⟩ | ⟨newClass, -, -, hpoll, -, hcb⟩
      · simp [tickRecord, hcb] at hengine
      · simp [tickRecord, hcb] at hengine
      · simp [tickRecord, hcb] at hengine
      · obtain rfl : newClass = .classS := by simpa [tickRecord, hcb] using hengine
        have hclass := (hymrplAdaptiveGetRecommendation_eq_some hpoll).1
        exact absurd (hclass.symm.trans h.classOfScore_eq) (by decide)
  | _ => simp [rpld] at htick

/-- A node joins, and the DAO that it sends fails. -/
def joinThenFail : List RpldEvent :=
  [.recv 10 1 0 (.dio ⟨true, true⟩ (hybridDio 256) (linkLocal 2))]

/-- The node goes to Class N in its third tick, and a full battery does not bring it back. -/
theorem joinThenFail_classN :
    let r := (rpld sampleDagCode sampleHmac).run (Rpld.start 0 none [⟨1, false, .classS, []⟩])
      joinThenFail
    let es := [.periodic 11 [], .periodic 12 [], .periodic 13 [], .eval 15 100, .periodic 30 [],
      .periodic 31 [], .periodic 32 []]
    (rpldTicks sampleDagCode sampleHmac r es).map (fun record => record.engine) =
        [none, none, some .classN, none, none, none] ∧
      ∀ record ∈ rpldTicks sampleDagCode sampleHmac r es, record.engine ≠ some .classS := by
  intro r es
  have hpercent : ∀ e ∈ joinThenFail ++ es, PercentEnergy e := by decide +kernel
  exact ⟨by decide +kernel, (classN_after_failure sampleDagCode sampleHmac 0 none
    [⟨1, false, .classS, []⟩] joinThenFail es hpercent (by decide +kernel)).2⟩

end HyMRPL
