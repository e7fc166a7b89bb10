import HyMRPL.Foundation.Machine
import Mathlib.Data.List.ReduceOption

/-!
# Records in a byte queue

Writers put whole records into a queue that keeps no record boundaries; a reader
takes up to `cap` items at a time. When all records have one length below `cap`, the
chunks that are read are the records, in order, exactly when every read finds at
most one record in the queue.
-/

namespace Framing

open Transition

variable {α : Type*}

/-- A record is written, or the reader takes a chunk. -/
inductive QueueEvent (α : Type*)
  | put (record : List α)
  | get

/-- The queue, with the chunk that a read takes as its output, unless it is empty. -/
def queue (α : Type*) (cap : ℕ) : Machine (List α) (QueueEvent α) (Option (List α)) where
  enabled _ _ := True
  next q
    | .put record => q ++ record
    | .get => q.drop cap
  out q
    | .put _ => none
    | .get => if q.isEmpty then none else some (q.take cap)

/-- The records written in a run. -/
def records (es : List (QueueEvent α)) : List (List α) :=
  es.filterMap fun
    | .put record => some record
    | .get => none

/-- The chunks read in a run. -/
def chunks (cap : ℕ) (q : List α) (es : List (QueueEvent α)) : List (List α) :=
  ((queue α cap).outputs q es).reduceOption

/-- The chunks read are the first of the records written, and the other records are
still in the queue. `before` are the records that were in the queue at the start. -/
def Framed (cap : ℕ) (before : List (List α)) (es : List (QueueEvent α)) : Prop :=
  ∃ waiting, before ++ records es = chunks cap before.flatten es ++ waiting ∧
    (queue α cap).run before.flatten es = waiting.flatten

/-- A read finds no more than one record of length `len`. -/
def AtMostOne (len : ℕ) (q : List α) : QueueEvent α → Prop
  | .put _ => True
  | .get => q.length ≤ len

variable {cap len : ℕ} {before : List (List α)} {es : List (QueueEvent α)}

theorem framed_put (record : List α) :
    Framed cap before (.put record :: es) ↔ Framed cap (before ++ [record]) es := by
  simp [Framed, records, chunks, queue, Machine.outputs, Machine.run]

theorem framed_get_nil : Framed cap [] (.get :: es) ↔ Framed cap [] es := by
  simp [Framed, records, chunks, queue, Machine.outputs, Machine.run]

/-- A record that is alone in the queue is read as it was written. -/
theorem framed_get_singleton {record : List α} (hne : record ≠ [])
    (hcap : record.length ≤ cap) :
    Framed cap [record] (.get :: es) ↔ Framed cap [] es := by
  simp [Framed, records, chunks, queue, Machine.outputs, Machine.run, hne,
    List.take_of_length_le hcap, List.drop_of_length_le hcap]

/-- If more than the first record is in the queue, the chunk is longer than it. -/
theorem not_framed_get {first : List α} (hcap : first.length < cap)
    (hlen : first.length < (first :: before).flatten.length) :
    ¬ Framed cap (first :: before) (.get :: es) := by
  rintro ⟨waiting, hrecords, -⟩
  have hne : (first :: before).flatten.isEmpty = false := by
    rw [List.isEmpty_eq_false_iff]
    exact List.ne_nil_of_length_pos (Nat.zero_lt_of_lt hlen)
  have hhead := congrArg List.head? hrecords
  simp only [chunks, Machine.outputs, queue, hne, Bool.false_eq_true, if_false,
    List.reduceOption_cons_of_some, List.cons_append, List.head?_cons,
    Option.some.injEq] at hhead
  have hlength := congrArg List.length hhead
  rw [List.length_take] at hlength
  omega

/-- The framing rule. -/
theorem framed_iff (hpos : 0 < len) (hcap : len < cap)
    (hbefore : ∀ r ∈ before, r.length = len) (hrecords : ∀ r ∈ records es, r.length = len) :
    Framed cap before es ↔ (queue α cap).Steps (AtMostOne len) before.flatten es := by
  induction es generalizing before with
  | nil => simp [Framed, records, chunks, Machine.outputs, Machine.run, Machine.Steps]
  | cons e es ih =>
      cases e with
      | put record =>
          have hall : ∀ r ∈ before ++ [record], r.length = len := by
            intro r hr
            rcases List.mem_append.mp hr with hr | hr
            · exact hbefore r hr
            · obtain rfl := List.mem_singleton.mp hr
              exact hrecords r (by simp [records])
          rw [framed_put, ih hall fun r hr => hrecords r (by simpa [records] using Or.inr hr)]
          simp [Machine.Steps, AtMostOne, queue]
      | get =>
          have htail : ∀ r ∈ records es, r.length = len :=
            fun r hr => hrecords r (by simpa [records] using hr)
          cases before with
          | nil =>
              rw [framed_get_nil, ih (by simp) htail]
              simp [Machine.Steps, AtMostOne, queue]
          | cons first rest =>
              have hfirst := hbefore first (List.mem_cons_self ..)
              cases rest with
              | nil =>
                  have hne : first ≠ [] := List.ne_nil_of_length_pos (by omega)
                  rw [framed_get_singleton hne (by omega), ih (by simp) htail]
                  have hdrop : first.drop cap = [] := List.drop_of_length_le (by omega)
                  simp [Machine.Steps, AtMostOne, queue, hfirst, hdrop]
              | cons second rest =>
                  have hsecond := hbefore second (by simp)
                  have hlen : first.length < (first :: second :: rest).flatten.length := by
                    simp only [List.flatten_cons, List.length_append]
                    omega
                  have hmany : ¬ (first :: second :: rest).flatten.length ≤ len := by omega
                  simp only [not_framed_get (hfirst ▸ hcap) hlen, Machine.Steps, AtMostOne,
                    hmany, false_and]

end Framing
