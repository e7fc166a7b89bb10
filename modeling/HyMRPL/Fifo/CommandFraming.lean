import HyMRPL.Cmd.Sender
import HyMRPL.Fifo.Check
import HyMRPL.Foundation.Framing

/-!
# Command framing

The FIFO is a byte queue without record boundaries. `hymrpl_cmd` writes whole
lines of one length, and each check of the daemon reads up to 127 bytes of whatever
is queued and takes them for one command. The commands examined are the commands
written exactly when no check finds more than one waiting.
-/

namespace HyMRPL

open Transition

/-- `HYMRPL_FIFO_MSG_MAX` -/
def hymrplFifoMsgMax : ℕ := 128

/-- The bytes in the FIFO, the state of the limiter and the interfaces. -/
structure FifoReader where
  queue : List UInt8
  sec : HymrplFifoSec
  ifaces : List Iface

/-- `hymrpl_cmd` writes a command, or the daemon checks the FIFO. -/
inductive FifoEvent
  | write (command : NodeClass) (nonce : UInt64)
  | poll (now : ℚ)

/-- The key that sender and daemon share: `none` in legacy mode. -/
def HymrplFifoSec.key (sec : HymrplFifoSec) : Option Token :=
  if sec.tokenLoaded then some sec.token else none

/-- The result of a check before rate limiting. -/
def examine (hmac : Hmac) (sec : HymrplFifoSec) (buf : List UInt8) : Option NodeClass :=
  (fifoAuthenticate hmac sec buf).map Prod.fst

/-- The FIFO between the sender and the daemon. A check that finds something has as
output the bytes it examines and the result before rate limiting. -/
def fifo (hmac : Hmac) (key : Option Token) :
    Machine FifoReader FifoEvent (Option (List UInt8 × Option NodeClass)) where
  enabled _ _ := True
  next s
    | .write command nonce => { s with queue := s.queue ++ hymrplCmd hmac key command nonce }
    | .poll now =>
      let buf := s.queue.take (hymrplFifoMsgMax - 1)
      let (sec, ifaces, _) := hymrplFifoSecCheck hmac now s.sec s.ifaces buf
      ⟨s.queue.drop (hymrplFifoMsgMax - 1), sec, ifaces⟩
  out s
    | .write _ _ => none
    | .poll _ =>
      let buf := s.queue.take (hymrplFifoMsgMax - 1)
      if s.queue.isEmpty then none else some (buf, examine hmac s.sec buf)

/-- The commands written in a run. -/
def written (hmac : Hmac) (key : Option Token) (es : List FifoEvent) : List (List UInt8) :=
  es.filterMap fun
    | .write command nonce => some (hymrplCmd hmac key command nonce)
    | .poll _ => none

/-- What the checks of a run examine, with their results before rate limiting. -/
def examined (hmac : Hmac) (key : Option Token) (s : FifoReader) (es : List FifoEvent) :
    List (List UInt8 × Option NodeClass) :=
  ((fifo hmac key).outputs s es).reduceOption

/-- The state after the authentication of a command. -/
def afterAuthenticate (hmac : Hmac) (sec : HymrplFifoSec) (buf : List UInt8) : HymrplFifoSec :=
  ((fifoAuthenticate hmac sec buf).map Prod.snd).getD sec

/-- The commands examined one by one, each alone in the FIFO. -/
def examineEach (hmac : Hmac) (sec : HymrplFifoSec) :
    List (List UInt8) → List (List UInt8 × Option NodeClass)
  | [] => []
  | m :: ms =>
    (m, examine hmac sec m) ::
      examineEach hmac (afterAuthenticate hmac sec m) ms

/-- The commands examined are the first of those written, each with the result that
it has alone, and the other ones still wait. -/
def CommandsFramed (hmac : Hmac) (sec : HymrplFifoSec) (ifaces : List Iface)
    (es : List FifoEvent) : Prop :=
  ∃ seen waiting, written hmac sec.key es = seen ++ waiting ∧
    examined hmac sec.key ⟨[], sec, ifaces⟩ es = examineEach hmac sec seen ∧
    ((fifo hmac sec.key).run ⟨[], sec, ifaces⟩ es).queue = waiting.flatten

/-- A check finds no more bytes than one command has. -/
def AtMostOneWaiting (key : Option Token) (s : FifoReader) : FifoEvent → Prop
  | .write _ _ => True
  | .poll _ => s.queue.length ≤ hymrplCmdLength key

/-- The states agree in what authentication depends on. -/
def SameAuth (s t : HymrplFifoSec) : Prop :=
  s.token = t.token ∧ s.tokenLoaded = t.tokenLoaded ∧ s.lastNonce = t.lastNonce

variable {hmac : Hmac} {key : Option Token} {sec other : HymrplFifoSec} {buf : List UInt8}

theorem examine_of_sameAuth (hmac : Hmac) (h : SameAuth sec other) (buf : List UInt8) :
    examine hmac sec buf = examine hmac other buf ∧
      SameAuth (afterAuthenticate hmac sec buf) (afterAuthenticate hmac other buf) := by
  obtain ⟨htoken, hloaded, hnonce⟩ := h
  unfold examine afterAuthenticate fifoAuthenticate
  rw [htoken, hloaded, hnonce]
  split_ifs with hl
  · cases verifyHmac hmac other.token buf with
    | none => exact ⟨rfl, htoken, hloaded, hnonce⟩
    | some verified =>
        by_cases hreplay : verified.2 ≤ other.lastNonce
        · simp [hreplay, SameAuth, htoken, hloaded, hnonce]
        · simp [hreplay, SameAuth]
  · cases parseClass buf with
    | none => exact ⟨rfl, htoken, hloaded, hnonce⟩
    | some newClass => exact ⟨rfl, htoken, hloaded, hnonce⟩

/-- Rate limiting does not touch what authentication depends on. -/
theorem sameAuth_hymrplFifoSecCheck (hmac : Hmac) (sec : HymrplFifoSec) (hbuf : buf ≠ [])
    (now : ℚ) (ifaces : List Iface) :
    SameAuth (hymrplFifoSecCheck hmac now sec ifaces buf).1 (afterAuthenticate hmac sec buf) := by
  rcases hymrplFifoSecCheck_cases hmac now sec ifaces buf with
    ⟨hnone, hcheck⟩ | ⟨newClass, passed, -, hauth, ⟨hcheck, -⟩ | ⟨hcheck, -⟩⟩
  · simp [afterAuthenticate, hnone.resolve_left hbuf, hcheck, SameAuth]
  · simp [afterAuthenticate, hauth, hcheck, SameAuth]
  · simp [afterAuthenticate, hauth, hcheck, SameAuth]

theorem fst_examineEach (hmac : Hmac) (sec : HymrplFifoSec) (ms : List (List UInt8)) :
    (examineEach hmac sec ms).map Prod.fst = ms := by
  induction ms generalizing sec with
  | nil => rfl
  | cons m ms ih => simp [examineEach, ih]

theorem examined_write (s : FifoReader) (command : NodeClass) (nonce : UInt64)
    (es : List FifoEvent) :
    examined hmac key s (.write command nonce :: es) =
      examined hmac key ((fifo hmac key).next s (.write command nonce)) es := by
  simp [examined, Machine.outputs, fifo]

theorem examined_poll_of_isEmpty {s : FifoReader} (h : s.queue = []) (now : ℚ)
    (es : List FifoEvent) :
    examined hmac key s (.poll now :: es) = examined hmac key s es := by
  have hnext : (fifo hmac key).next s (.poll now) = s := by
    cases s
    obtain rfl := h
    simp [fifo, hymrplFifoSecCheck]
  have hout : (fifo hmac key).out s (.poll now) = none := by simp [fifo, h]
  rw [examined, Machine.outputs, hnext, hout, List.reduceOption_cons_of_none]
  rfl

theorem examined_poll_of_ne_nil {s : FifoReader} (h : s.queue ≠ []) (now : ℚ)
    (es : List FifoEvent) :
    examined hmac key s (.poll now :: es) =
      (s.queue.take (hymrplFifoMsgMax - 1),
          examine hmac s.sec (s.queue.take (hymrplFifoMsgMax - 1))) ::
        examined hmac key ((fifo hmac key).next s (.poll now)) es := by
  simp [examined, Machine.outputs, fifo, h]

/-- The results of the checks are those of their buffers, taken one by one. -/
theorem examined_eq_examineEach (hmac : Hmac) (key : Option Token) {s : FifoReader}
    (h : SameAuth s.sec sec) (es : List FifoEvent) :
    examined hmac key s es =
      examineEach hmac sec ((examined hmac key s es).map Prod.fst) := by
  induction es generalizing s sec with
  | nil => rfl
  | cons e es ih =>
      cases e with
      | write command nonce =>
          rw [examined_write]
          exact ih h
      | poll now =>
          by_cases hq : s.queue = []
          · rw [examined_poll_of_isEmpty hq]
            exact ih h
          · rw [examined_poll_of_ne_nil hq]
            have hbuf : s.queue.take (hymrplFifoMsgMax - 1) ≠ [] := by
              simp [hq, hymrplFifoMsgMax]
            obtain ⟨hexamine, htoken, hloaded, hnonce⟩ :=
              examine_of_sameAuth hmac h (s.queue.take (hymrplFifoMsgMax - 1))
            obtain ⟨htoken', hloaded', hnonce'⟩ :=
              sameAuth_hymrplFifoSecCheck hmac s.sec hbuf now s.ifaces
            rw [List.map_cons, examineEach, ← hexamine,
              ← ih (s := (fifo hmac key).next s (.poll now))
                ⟨htoken'.trans htoken, hloaded'.trans hloaded, hnonce'.trans hnonce⟩]

/-- The FIFO is a byte queue. -/
def fifoQueue (hmac : Hmac) (key : Option Token) :
    Machine.Hom (fifo hmac key) (Framing.queue UInt8 (hymrplFifoMsgMax - 1)) where
  state s := s.queue
  event
    | .write command nonce => .put (hymrplCmd hmac key command nonce)
    | .poll _ => .get
  output o := o.map Prod.fst
  next_eq s e := by cases e <;> rfl
  out_eq s e := by
    cases e with
    | write command nonce => rfl
    | poll now => cases hq : s.queue <;> simp [fifo, Framing.queue, hq]

theorem chunks_fifoQueue (hmac : Hmac) (key : Option Token) (s : FifoReader) (es : List FifoEvent) :
    Framing.chunks (hymrplFifoMsgMax - 1) s.queue (es.map (fifoQueue hmac key).event) =
      (examined hmac key s es).map Prod.fst := by
  rw [Framing.chunks, examined, ← List.reduceOption_map]
  exact congrArg List.reduceOption ((fifoQueue hmac key).outputs_map s es)

theorem records_fifoQueue (es : List FifoEvent) :
    Framing.records (es.map (fifoQueue hmac key).event) = written hmac key es := by
  rw [Framing.records, written, List.filterMap_map]
  congr 1
  funext e
  cases e <;> rfl

theorem commandsFramed_iff_framed (hmac : Hmac) (sec : HymrplFifoSec) (ifaces : List Iface)
    (es : List FifoEvent) :
    CommandsFramed hmac sec ifaces es ↔
      Framing.Framed (hymrplFifoMsgMax - 1) [] (es.map (fifoQueue hmac sec.key).event) := by
  have hchunks := chunks_fifoQueue hmac sec.key ⟨[], sec, ifaces⟩ es
  have hrun := (fifoQueue hmac sec.key).run_map ⟨[], sec, ifaces⟩ es
  have hsame : SameAuth (FifoReader.mk [] sec ifaces).sec sec := ⟨rfl, rfl, rfl⟩
  have heach := examined_eq_examineEach hmac sec.key hsame es
  constructor
  · rintro ⟨seen, waiting, hwritten, hseen, hqueue⟩
    refine ⟨waiting, ?_, hrun.trans hqueue⟩
    rw [records_fifoQueue, hwritten, List.flatten_nil, hchunks, hseen, fst_examineEach]
    rfl
  · rintro ⟨waiting, hrecords, hqueue⟩
    rw [records_fifoQueue, List.flatten_nil, hchunks] at hrecords
    exact ⟨_, waiting, hrecords, heach, hrun.symm.trans hqueue⟩

/-- The commands that the checks examine are the commands written, each once, whole,
in order and with the result it has alone, exactly when no check finds more than one
command waiting. -/
theorem commandsFramed_iff (hmac : Hmac) (sec : HymrplFifoSec) (ifaces : List Iface)
    (es : List FifoEvent) :
    CommandsFramed hmac sec ifaces es ↔
      (fifo hmac sec.key).Steps (AtMostOneWaiting sec.key) ⟨[], sec, ifaces⟩ es := by
  have hpos : 0 < hymrplCmdLength sec.key := by unfold hymrplCmdLength; split_ifs <;> decide
  have hcap : hymrplCmdLength sec.key < hymrplFifoMsgMax - 1 := by
    unfold hymrplCmdLength; split_ifs <;> decide
  have hlength : ∀ r ∈ Framing.records (es.map (fifoQueue hmac sec.key).event),
      r.length = hymrplCmdLength sec.key := by
    rw [records_fifoQueue]
    intro r hr
    obtain ⟨e, -, he⟩ := List.mem_filterMap.mp hr
    cases e with
    | write command nonce => exact Option.some.inj he ▸ length_hymrplCmd hmac sec.key command nonce
    | poll now => simp at he
  rw [commandsFramed_iff_framed, Framing.framed_iff hpos hcap (by simp) hlength]
  exact ((fifoQueue hmac sec.key).steps_map ⟨[], sec, ifaces⟩ es).trans
    (Machine.steps_congr (fun s e => by cases e <;> rfl) _ es)

/-- The state after a start with the zero token. -/
def sampleSec : HymrplFifoSec := (hymrplFifoSecInit 0 (some (List.replicate 64 0x30))).1

/-- Two commands wait for one check. -/
def twoCommands : List FifoEvent := [.write .classN 1, .write .classN 1, .poll 20]

/-- The check reads one command and 37 bytes of the next one, and rejects what alone
would have passed. -/
theorem twoCommands_merged :
    (examined sampleHmac sampleSec.key ⟨[], sampleSec, []⟩ twoCommands).map
        (fun x => (x.1.length, x.2)) = [(127, none)] ∧
      (written sampleHmac sampleSec.key twoCommands).map (examine sampleHmac sampleSec) =
        [some .classN, some .classN] ∧
      ¬ CommandsFramed sampleHmac sampleSec [] twoCommands := by
  refine ⟨by decide +kernel, by decide +kernel, ?_⟩
  rintro ⟨seen, waiting, hwritten, hseen, -⟩
  have hlong : seen.map List.length = [127] := by
    rw [← fst_examineEach sampleHmac sampleSec seen, ← hseen]
    decide +kernel
  have hshort : (written sampleHmac sampleSec.key twoCommands).map List.length = [90, 90] := by
    decide +kernel
  rw [hwritten, List.map_append, hlong, List.singleton_append, List.cons.injEq] at hshort
  exact absurd hshort.1 (by decide)

end HyMRPL
