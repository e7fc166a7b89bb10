import HyMRPL.Daemon.Switches
import HyMRPL.Network.Convergence

/-!
# Soliciting DIOs

`rpld_setup` starts a timer on every interface that asks the neighbours for DIOs. The timer
of `rpld_new.c` repeats the DIS until the interface has a DODAG and stops at the next call.
`rpld_dis_retry.patch` sends one more DIS in that call; without the patch the first call was
the last one. Who hears a DIS answers with a DIO of the DODAG that it has (`process_dis`).

A timer thus stops only where the node has joined. So if the DISes of a round are heard, and
the DIOs that answer them, the DODAG grows by one hop a round, without any trickle timer.
-/

namespace HyMRPL

open Transition HopCount

/-- What a call of `send_dis_cb` does: it leaves the timer on or stops it, and sends or not. -/
structure DisFire where
  keep : Bool
  send : Bool

/-- The loop of `send_dis_cb`. -/
def Iface.hasDag (iface : Iface) : Bool := iface.rpls.any fun rpl => !rpl.dags.isEmpty

section Daemon

variable {code : DagCode} {hmac : Hmac} {r : Rpld} {i : ℕ} {iface : Iface}

theorem Iface.hasDag_iff : iface.hasDag ↔ ∃ p, p ∈ instances iface.rpls := by
  simp only [hasDag, List.any_eq_true, Bool.not_eq_true', List.isEmpty_eq_false_iff_exists_mem,
    mem_instances, Prod.exists]
  constructor
  · rintro ⟨rpl, hrpl, dag, hdag⟩
    exact ⟨rpl.instanceId, dag, rpl, hrpl, rfl, hdag⟩
  · rintro ⟨-, dag, rpl, hrpl, -, hdag⟩
    exact ⟨rpl, hrpl, dag, hdag⟩

theorem Iface.Kept.hasDag {new : Iface} (h : iface.Kept new) (hdag : iface.hasDag) :
    new.hasDag := by
  obtain ⟨p, hp⟩ := Iface.hasDag_iff.mp hdag
  obtain ⟨q, hq, -⟩ := h.dags.mem_old hp
  exact Iface.hasDag_iff.mpr ⟨q, hq⟩

/-- No callback takes the last DODAG of an interface away. -/
theorem hasDag_next (code : DagCode) (hmac : Hmac) (r : Rpld) (e : RpldEvent) :
    List.Forall₂ (fun old new : Iface => old.hasDag → new.hasDag) r.ifaces
      ((rpld code hmac).next r e).ifaces := by
  cases htick : ((rpld code hmac).out r e).tick with
  | none => exact (rpld_kept_of_other htick).imp fun _ _ h => h.hasDag
  | some record =>
      cases e with
      | periodic now buf =>
          change List.Forall₂ _ _ (hymrplPeriodicCb hmac now buf r.toDaemon).1.ifaces
          rcases tick_applied hmac now buf r.toDaemon with ⟨-, hifaces, -⟩ | ⟨c, -, hifaces, -⟩
          · rw [hifaces]
            exact List.forall₂_same.mpr fun _ _ h => h
          · rw [hifaces, setNodeClass, List.forall₂_map_right_iff, List.forall₂_same]
            intro iface _ h
            simpa [Iface.hasDag, Function.comp_def] using h
      | _ => simp [rpld] at htick

/-- So `send_dis_cb`, which stops its timer where there is a DODAG, is right to do so for the rest
of the run. -/
theorem hasDag_run (hi : r.ifaces[i]? = some iface) (h : iface.hasDag) (es : List RpldEvent) :
    ∃ new, ((rpld code hmac).run r es).ifaces[i]? = some new ∧ new.hasDag := by
  induction es generalizing r iface with
  | nil => exact ⟨iface, hi, h⟩
  | cons e es ih =>
      obtain ⟨hlength, hget⟩ := List.forall₂_iff_get.mp (hasDag_next code hmac r e)
      obtain ⟨hlt, rfl⟩ := List.getElem?_eq_some_iff.mp hi
      exact ih (List.getElem?_eq_getElem (hlength ▸ hlt)) (hget i hlt (hlength ▸ hlt) h)

end Daemon

/-- `send_dis_cb` of `rpld_new.c`, after the loop. -/
def sendDisCb (hasDag : Bool) : DisFire := if hasDag then ⟨false, false⟩ else ⟨true, true⟩

/-- `send_dis_cb` with `rpld_dis_retry.patch`. -/
def sendDisCbRetry (hasDag : Bool) : DisFire := ⟨!hasDag, true⟩

/-- `send_dis_cb` before the patch. -/
def sendDisCbOnce (_hasDag : Bool) : DisFire := ⟨false, true⟩

/-- A network, the timers that are on, and how many DISes each node has sent. -/
structure SolicitNet extends Net where
  active : In6Addr → Bool
  dises : In6Addr → ℕ

/-- An event of the network, a call of `send_dis_cb` at `v`, or `v` hears a DIS of `src`. -/
inductive SolicitEvent
  | net (e : NetEvent)
  | disTimer (v : In6Addr)
  | dis (v src : In6Addr)

namespace NetConfig

variable (cfg : NetConfig)

/-- The answer to a DIS is the DIO that the trickle timer sends. -/
def solicitNext (cb : Bool → DisFire) (n : SolicitNet) : SolicitEvent → SolicitNet
  | .net e => { n with toNet := cfg.next n.toNet e }
  | .disTimer v =>
    let fire := cb (n.dag v).isSome
    { n with
      active := Function.update n.active v fire.keep
      dises := if fire.send then Function.update n.dises v (n.dises v + 1) else n.dises }
  | .dis v _ => { n with toNet := cfg.next n.toNet (.trickle v) }

/-- A DIS must have been sent by a neighbour. -/
def SolicitEnabled (n : SolicitNet) : SolicitEvent → Prop
  | .net e => cfg.Enabled n.toNet e
  | .disTimer v => n.active v = true
  | .dis v src => 0 < n.dises src ∧ cfg.neighbour src v

instance [DecidableRel cfg.neighbour] (n : SolicitNet) (e : SolicitEvent) :
    Decidable (cfg.SolicitEnabled n e) :=
  match e with
  | .net e => inferInstanceAs (Decidable (cfg.Enabled n.toNet e))
  | .disTimer v => inferInstanceAs (Decidable (n.active v = true))
  | .dis v src => inferInstanceAs (Decidable (0 < n.dises src ∧ cfg.neighbour src v))

/-- The network with the timers of `cb`. -/
def soliciting (cb : Bool → DisFire) : Machine SolicitNet SolicitEvent Unit where
  enabled := cfg.SolicitEnabled
  next := cfg.solicitNext cb
  out _ _ := ()

instance [DecidableRel cfg.neighbour] (cb : Bool → DisFire) (n : SolicitNet) (e : SolicitEvent) :
    Decidable ((cfg.soliciting cb).enabled n e) :=
  inferInstanceAs (Decidable (cfg.SolicitEnabled n e))

/-- What `rpld_setup` leaves behind. -/
def solicitInit : SolicitNet where
  toNet := cfg.init
  active _ := true
  dises _ := 0

/-- Every neighbour hears a DIS that is sent; and whoever sent it hears the answer of a node that
has joined, and can allocate a DODAG. -/
def Heeds (n : SolicitNet) (es : List SolicitEvent) : SolicitEvent → Prop
  | .net _ => True
  | .disTimer v => n.dag v = none → ∀ u, cfg.neighbour v u → .dis u v ∈ es
  | .dis u v => ∀ dag, n.dag u = some dag → cfg.neighbour u v →
      ∃ now alloc, alloc.dag = true ∧ .net (.node v (.dio now alloc (cfg.buildDio dag) u)) ∈ es

/-- All DISes of the run, and the answers, are heard in the rest of the run. -/
def Heeded (cb : Bool → DisFire) : SolicitNet → List SolicitEvent → Prop
  | _, [] => True
  | n, e :: es => cfg.Heeds n es e ∧ Heeded cb (cfg.solicitNext cb n e) es

/-- In a round the timers next to the nodes that have joined fire. -/
structure SolicitRound (cb : Bool → DisFire) (n : SolicitNet) (es : List SolicitEvent) :
    Prop where
  fires : ∀ u v, cfg.neighbour u v → (n.dag u).isSome → n.active v = true → .disTimer v ∈ es
  heeded : cfg.Heeded cb n es

end NetConfig

variable {cfg : NetConfig} {cb : Bool → DisFire} {n : SolicitNet} {u v : In6Addr}

@[simp] theorem solicitNext_net_active (e : NetEvent) :
    (cfg.solicitNext cb n (.net e)).active = n.active := rfl

@[simp] theorem solicitNext_dis_active :
    (cfg.solicitNext cb n (.dis u v)).active = n.active := rfl

/-- A node that has joined does not leave. -/
theorem joined_solicitNext (cfg : NetConfig) (cb : Bool → DisFire) (e : SolicitEvent)
    (h : (n.dag v).isSome) :
    ((cfg.solicitNext cb n e).dag v).isSome := by
  cases e with
  | net e => exact isSome_next e h
  | disTimer w => exact h
  | dis w src => exact isSome_next (.trickle w) h

theorem joined_run (cfg : NetConfig) (cb : Bool → DisFire) (es : List SolicitEvent)
    (h : (n.dag v).isSome) :
    (((cfg.soliciting cb).run n es).dag v).isSome := by
  induction es generalizing n with
  | nil => exact h
  | cons e es ih => exact ih (joined_solicitNext cfg cb e h)

/-- A node that hears a DIO with a prefix joins. -/
theorem joined_of_dio {net : Net} {now : ℚ} {alloc : Alloc} {dio : Dio} (halloc : alloc.dag = true)
    (hdest : dio.dest ≠ none) :
    ((cfg.next net (.node v (.dio now alloc dio u))).dag v).isSome := by
  cases hdag : net.dag v with
  | some dag => exact isSome_next _ (by rw [hdag]; rfl)
  | none =>
      obtain ⟨pfx, hpfx⟩ := Option.ne_none_iff_exists'.mp hdest
      have ht : (dioTarget now alloc (cfg.iface v) none dio).isSome := by
        simp [dioTarget, hpfx, halloc]
      obtain ⟨dag, ht⟩ := Option.isSome_iff_exists.mp ht
      rw [next_node_dag, Function.update_self, hdag, nodeStep_of_target ht]
      rfl

/-- Where a timer is off, the node has joined. -/
def SolicitNet.Sought (n : SolicitNet) : Prop := ∀ v, n.active v = false → (n.dag v).isSome

/-- The step lemma, for the timers that go on without a DODAG. -/
theorem SolicitNet.Sought.next (h : n.Sought) (hcb : (cb false).keep = true) (e : SolicitEvent) :
    (cfg.solicitNext cb n e).Sought := by
  intro v hv
  cases e with
  | net e => exact isSome_next e (h v hv)
  | dis w src => exact isSome_next (.trickle w) (h v hv)
  | disTimer w =>
      by_cases hw : v = w
      · subst hw
        cases hdag : (n.dag v).isSome with
        | true => exact hdag
        | false => simp [NetConfig.solicitNext, hdag, hcb] at hv
      · exact h v (by simpa [NetConfig.solicitNext, hw] using hv)

theorem NetConfig.Heeded.heeds {before after : List SolicitEvent} {e : SolicitEvent}
    (h : cfg.Heeded cb n (before ++ e :: after)) :
    cfg.Heeds ((cfg.soliciting cb).run n before) after e := by
  induction before generalizing n with
  | nil => exact h.1
  | cons e' before ih => exact ih h.2

/-- In a round the neighbours of the nodes that have joined join. -/
theorem NetConfig.SolicitRound.joined {es : List SolicitEvent} (h : cfg.SolicitRound cb n es)
    (hn : n.Sought) (hdest : ∀ dag, (cfg.buildDio dag).dest ≠ none)
    (hlink : cfg.neighbour u v) (hback : cfg.neighbour v u) (hu : (n.dag u).isSome) :
    (((cfg.soliciting cb).run n es).dag v).isSome := by
  cases hactive : n.active v with
  | false => exact joined_run cfg cb es (hn v hactive)
  | true =>
      obtain ⟨before, after, rfl⟩ := List.append_of_mem (h.fires u v hlink hu hactive)
      cases hv : ((cfg.soliciting cb).run n before).dag v with
      | some dag =>
          rw [Machine.run_append]
          exact joined_run cfg cb _ (by rw [hv]; rfl)
      | none =>
          -- The DIS that is sent here is heard and answered.
          have hdis : .dis u v ∈ after := h.heeded.heeds hv u hback
          obtain ⟨between, after, rfl⟩ := List.append_of_mem hdis
          have hsplit : before ++ .disTimer v :: (between ++ .dis u v :: after) =
              (before ++ .disTimer v :: between) ++ .dis u v :: after := by simp
          have hheeded := h.heeded
          rw [hsplit] at hheeded ⊢
          obtain ⟨dag, hdag⟩ := Option.isSome_iff_exists.mp
            (joined_run cfg cb (before ++ .disTimer v :: between) hu)
          obtain ⟨now, alloc, halloc, hdio⟩ := hheeded.heeds dag hdag hlink
          obtain ⟨before', after', rfl⟩ := List.append_of_mem hdio
          rw [Machine.run_append, Machine.run, Machine.run_append]
          exact joined_run cfg cb after' (joined_of_dio halloc (hdest dag))

theorem SolicitNet.Sought.run (h : n.Sought) (hcb : (cb false).keep = true)
    (es : List SolicitEvent) : ((cfg.soliciting cb).run n es).Sought := by
  induction es generalizing n with
  | nil => exact h
  | cons e es ih => exact ih (h.next hcb e)

/-- The nodes up to `k` hops away have joined. -/
structure SolicitNet.Reached (cfg : NetConfig) (k : ℕ) (n : SolicitNet) : Prop where
  sought : n.Sought
  joined : ∀ m ≤ k, ∀ v, Walk cfg.neighbour cfg.root m v → (n.dag v).isSome

theorem SolicitNet.reached_init (cfg : NetConfig) : cfg.solicitInit.Reached cfg 0 := by
  constructor
  case sought =>
    intro v hv
    simp [NetConfig.solicitInit] at hv
  case joined =>
    intro m hm v hv
    obtain rfl := Nat.le_zero.mp hm
    obtain rfl : v = cfg.root := hv
    simp [NetConfig.solicitInit, NetConfig.init]

/-- A round brings the DODAG one hop further. -/
theorem SolicitNet.Reached.round {k : ℕ} (h : n.Reached cfg k) (hcb : (cb false).keep = true)
    (hdest : ∀ dag, (cfg.buildDio dag).dest ≠ none)
    (hsymm : ∀ u v, cfg.neighbour u v → cfg.neighbour v u) {es : List SolicitEvent}
    (hround : cfg.SolicitRound cb n es) :
    ((cfg.soliciting cb).run n es).Reached cfg (k + 1) := by
  refine ⟨h.sought.run hcb es, fun m hm v hv => ?_⟩
  cases m with
  | zero => exact joined_run cfg cb es (h.joined 0 (Nat.zero_le k) v hv)
  | succ m =>
      obtain ⟨u, hu, hlink⟩ := hv
      exact hround.joined h.sought hdest hlink (hsymm u v hlink) (h.joined m (by omega) u hu)

/-- A node that has joined sends no DIS, and a call stops its timer. -/
theorem joined_quiet (cfg : NetConfig) (h : (n.dag v).isSome) (es : List SolicitEvent) :
    ((cfg.soliciting sendDisCb).run n es).dises v = n.dises v ∧
      (.disTimer v ∈ es ∨ n.active v = false →
        ((cfg.soliciting sendDisCb).run n es).active v = false) := by
  induction es generalizing n with
  | nil => exact ⟨rfl, fun hoff => hoff.resolve_left List.not_mem_nil⟩
  | cons e es ih =>
      obtain ⟨hdises, hactive⟩ := ih (joined_solicitNext cfg sendDisCb e h)
      cases e with
      | net e => exact ⟨hdises, fun hoff => hactive (by simpa using hoff)⟩
      | dis w src => exact ⟨hdises, fun hoff => hactive (by simpa using hoff)⟩
      | disTimer w =>
          by_cases hw : v = w
          · subst hw
            refine ⟨hdises.trans ?_, fun _ => hactive (Or.inr ?_)⟩
            · simp [NetConfig.solicitNext, sendDisCb, h]
            · simp [NetConfig.solicitNext, sendDisCb, h]
          · refine ⟨hdises.trans ?_, fun hoff => hactive ?_⟩
            · cases hdag : (n.dag w).isSome <;>
                simp [NetConfig.solicitNext, sendDisCb, hdag, hw]
            · simpa [NetConfig.solicitNext, hw] using hoff

/-- In every state a timer is off only where the node has joined. After some rounds all nodes up
to that many hops away have joined, send no DIS any more, and stop their timers at the next
call. -/
theorem solicitation_joins (cfg : NetConfig) (hdest : ∀ dag, (cfg.buildDio dag).dest ≠ none)
    (hsymm : ∀ u v, cfg.neighbour u v → cfg.neighbour v u) (rounds : List (List SolicitEvent))
    (hrounds : (cfg.soliciting sendDisCb).Rounds (cfg.SolicitRound sendDisCb) cfg.solicitInit
      rounds) (es : List SolicitEvent) :
    (cfg.soliciting sendDisCb).Always SolicitNet.Sought cfg.solicitInit
      (rounds.flatten ++ es) ∧
    ∀ v m, Walk cfg.neighbour cfg.root m v → m ≤ rounds.length →
      (((cfg.soliciting sendDisCb).run cfg.solicitInit rounds.flatten).dag v).isSome ∧
      ((cfg.soliciting sendDisCb).run cfg.solicitInit (rounds.flatten ++ es)).dises v =
        ((cfg.soliciting sendDisCb).run cfg.solicitInit rounds.flatten).dises v ∧
      (.disTimer v ∈ es →
        ((cfg.soliciting sendDisCb).run cfg.solicitInit (rounds.flatten ++ es)).active v =
          false) := by
  have hinit := SolicitNet.reached_init cfg
  constructor
  · exact Machine.always_of_kept (fun n e h => h.next rfl e) hinit.sought _
  · intro v m hv hm
    have hreached := hrounds.run (P := fun k n => n.Reached cfg k)
      (fun _ _ _ h hround => h.round rfl hdest hsymm hround) hinit
    have hjoined := hreached.joined m (by omega) v hv
    obtain ⟨hdises, hactive⟩ := joined_quiet cfg hjoined es
    rw [Machine.run_append]
    exact ⟨hjoined, hdises, fun hfire => hactive (Or.inl hfire)⟩

/-- The patched timer against that of `rpld_new.c`: one more DIS where the timer is off. -/
structure SolicitNet.OneMore (n n' : SolicitNet) : Prop where
  toNet : n'.toNet = n.toNet
  active : n'.active = n.active
  dises : ∀ v, n'.dises v = n.dises v + if n.active v then 0 else 1

theorem SolicitNet.OneMore.next {n' : SolicitNet} (h : n.OneMore n') {e : SolicitEvent}
    (he : cfg.SolicitEnabled n e) :
    cfg.SolicitEnabled n' e ∧
      (cfg.solicitNext sendDisCb n e).OneMore (cfg.solicitNext sendDisCbRetry n' e) := by
  obtain ⟨net, active, dises'⟩ := n'
  obtain ⟨rfl, rfl, hdises⟩ := h
  cases e with
  | net e => exact ⟨he, rfl, rfl, hdises⟩
  | dis w src =>
      refine ⟨⟨?_, he.2⟩, rfl, rfl, hdises⟩
      have hle : n.dises src ≤ dises' src := (Nat.le_add_right _ _).trans (hdises src).ge
      exact he.1.trans_le hle
  | disTimer w =>
      have hw : n.active w = true := he
      have hsame : dises' w = n.dises w := by simpa [hw] using hdises w
      refine ⟨he, rfl, ?_, fun v => ?_⟩
      · cases hdag : (n.dag w).isSome <;>
          simp [NetConfig.solicitNext, sendDisCb, sendDisCbRetry, hdag]
      · by_cases hv : v = w
        · subst hv
          cases hdag : (n.dag v).isSome <;>
            simp [NetConfig.solicitNext, sendDisCb, sendDisCbRetry, hdag, hsame]
        · cases hdag : (n.dag w).isSome <;>
            simpa [NetConfig.solicitNext, sendDisCb, sendDisCbRetry, hdag, hv] using hdises v

/-- With `rpld_dis_retry.patch` a network does the same, and each node has sent exactly one DIS
more once its timer has stopped. -/
theorem retry_sends_one_more (cfg : NetConfig) (es : List SolicitEvent)
    (hl : (cfg.soliciting sendDisCb).Legal cfg.solicitInit es) :
    (cfg.soliciting sendDisCbRetry).Legal cfg.solicitInit es ∧
      ((cfg.soliciting sendDisCb).run cfg.solicitInit es).OneMore
        ((cfg.soliciting sendDisCbRetry).run cfg.solicitInit es) := by
  have hinit : cfg.solicitInit.OneMore cfg.solicitInit := ⟨rfl, rfl, fun _ => rfl⟩
  have htrace := Machine.legal_trace (N := cfg.soliciting sendDisCbRetry) (g := fun _ e => [e])
    (C := fun _ _ => True) (fun _ _ _ h he _ => ⟨⟨(h.next he).1, trivial⟩, (h.next he).2⟩) hinit
    hl (Machine.steps_true _ es)
  rwa [Machine.trace_const, List.flatMap_singleton'] at htrace

/-- Two rounds on a line of three nodes; the last one gets its answer in the second. -/
def lineSolicited : List (List SolicitEvent) :=
  let rootDio := lineNet.buildDio lineNet.rootDag
  [[.disTimer (linkLocal 2), .dis (linkLocal 1) (linkLocal 2), .dis (linkLocal 3) (linkLocal 2),
      .net (.node (linkLocal 2) (.dio 1 ⟨true, true⟩ rootDio (linkLocal 1)))],
    [.disTimer (linkLocal 1), .disTimer (linkLocal 2), .disTimer (linkLocal 3),
      .dis (linkLocal 2) (linkLocal 3),
      .net (.node (linkLocal 3) (.dio 2 ⟨true, true⟩ { rootDio with dagrank := 2 }
        (linkLocal 2)))]]

theorem heeds_dis {es : List SolicitEvent} {now : ℚ} {alloc : Alloc} {dio : Dio}
    (hdio : (n.dag u).map cfg.buildDio = some dio) (halloc : alloc.dag = true)
    (hmem : .net (.node v (.dio now alloc dio u)) ∈ es) : cfg.Heeds n es (.dis u v) := by
  intro dag hdag _
  rw [hdag] at hdio
  exact ⟨now, alloc, halloc, Option.some.inj hdio ▸ hmem⟩

theorem heeds_dis_of_none {es : List SolicitEvent} (h : n.dag u = none) :
    cfg.Heeds n es (.dis u v) := by
  intro dag hdag
  simp [h] at hdag

theorem heeds_disTimer {es : List SolicitEvent} (h : (n.dag v).isSome) :
    cfg.Heeds n es (.disTimer v) := by
  intro hnone
  simp [hnone] at h

theorem symm_lineNet : ∀ u v, lineNet.neighbour u v → lineNet.neighbour v u := by
  rintro u v (⟨rfl, rfl⟩ | ⟨rfl, rfl⟩ | ⟨rfl, rfl⟩ | ⟨rfl, rfl⟩) <;> decide +kernel

theorem rounds_lineSolicited :
    (lineNet.soliciting sendDisCb).Rounds (lineNet.SolicitRound sendDisCb) lineNet.solicitInit
      lineSolicited := by
  have h12 : linkLocal 1 ≠ linkLocal 2 := by decide
  have h13 : linkLocal 1 ≠ linkLocal 3 := by decide
  have h23 : linkLocal 2 ≠ linkLocal 3 := by decide
  refine ⟨⟨?_, ?_, ?_, ?_, trivial, trivial⟩, ⟨?_, ?_, ?_, ?_, ?_, trivial, trivial⟩, trivial⟩
  · rintro u v (⟨rfl, rfl⟩ | ⟨rfl, rfl⟩ | ⟨rfl, rfl⟩ | ⟨rfl, rfl⟩) hu hv
    · simp
    · exact absurd hu (by decide +kernel)
    · exact absurd hu (by decide +kernel)
    · exact absurd hu (by decide +kernel)
  · rintro - u (⟨h, -⟩ | ⟨-, rfl⟩ | ⟨-, rfl⟩ | ⟨h, -⟩)
    · exact absurd h.symm h12
    · simp
    · simp
    · exact absurd h h23
  · exact heeds_dis (by decide +kernel) rfl (List.mem_cons_of_mem _ (List.mem_singleton_self _))
  · exact heeds_dis_of_none (by decide +kernel)
  · rintro u v (⟨rfl, rfl⟩ | ⟨rfl, rfl⟩ | ⟨rfl, rfl⟩ | ⟨rfl, rfl⟩) hu hv
    · simp
    · simp
    · simp
    · exact absurd hu (by decide +kernel)
  · exact heeds_disTimer (by decide +kernel)
  · exact heeds_disTimer (by decide +kernel)
  · rintro - u (⟨h, -⟩ | ⟨h, -⟩ | ⟨h, -⟩ | ⟨-, rfl⟩)
    · exact absurd h.symm h13
    · exact absurd h.symm h23
    · exact absurd h.symm h23
    · simp
  · exact heeds_dis (by decide +kernel) rfl (List.mem_singleton_self _)

/-- The run is legal; the node at the end joins, and its timer stops at the next call. -/
theorem lineSolicited_joins :
    (lineNet.soliciting sendDisCb).Legal lineNet.solicitInit
        (lineSolicited.flatten ++ [.disTimer (linkLocal 3)]) ∧
      (((lineNet.soliciting sendDisCb).run lineNet.solicitInit lineSolicited.flatten).dag
        (linkLocal 3)).isSome ∧
      ((lineNet.soliciting sendDisCb).run lineNet.solicitInit
        (lineSolicited.flatten ++ [.disTimer (linkLocal 3)])).active (linkLocal 3) = false := by
  have hjoins := (solicitation_joins lineNet (fun _ => Option.some_ne_none _) symm_lineNet
    lineSolicited rounds_lineSolicited [.disTimer (linkLocal 3)]).2 (linkLocal 3) 2
    distance_lineNet.walk (by decide)
  refine ⟨?_, hjoins.1, hjoins.2.2 (List.mem_singleton_self _)⟩
  decide +kernel

/-- A timer that fires only once may stop before any neighbour can answer. -/
example :
    (lineNet.soliciting sendDisCbOnce).Legal lineNet.solicitInit [.disTimer (linkLocal 3)] ∧
      ¬ ((lineNet.soliciting sendDisCbOnce).run lineNet.solicitInit
        [.disTimer (linkLocal 3)]).Sought := by
  refine ⟨by decide +kernel, fun h => ?_⟩
  exact absurd (h (linkLocal 3) (by decide +kernel)) (by decide +kernel)

end HyMRPL
