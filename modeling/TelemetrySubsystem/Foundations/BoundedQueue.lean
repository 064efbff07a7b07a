import Mathlib.Data.List.Basic
import TelemetrySubsystem.Foundations.ActionSystem

/-! # A bounded queue of many producers and one consumer

What such a queue is, with every operation atomic: a producer puts an element in or is turned away
because the queue is full; the consumer takes the oldest element out or finds the queue empty.

* **`queueNext cap`** is the queue of capacity `cap` as a system; a history is a list of operations.
* **`exec_queue_fifo`**: what was there and what came in, in order, is what went out and what is
  left.
* **`exec_queue_length_le`** and **`full_of_refuse`** are about the capacity. -/

namespace BoundedQueue

open ActionSystem

variable {ι α : Type*}

/-- An operation, with the producer whose operation it is. -/
inductive QueueOp (ι α : Type*)
  | enqueue (i : ι) (x : α)
  /-- A producer finds the queue full. -/
  | refuse (i : ι)
  | dequeue (x : α)
  /-- The consumer finds the queue empty. -/
  | empty
  deriving DecidableEq, Repr

/-- What an operation puts in. -/
def QueueOp.entered : QueueOp ι α → Option (ι × α)
  | .enqueue i x => some (i, x)
  | _ => none

/-- What an operation takes out. -/
def QueueOp.taken : QueueOp ι α → Option α
  | .dequeue x => some x
  | _ => none

/-- **The bounded queue.** -/
def queueNext [DecidableEq α] (cap : ℕ) (q : List α) : QueueOp ι α → Option (List α)
  | .enqueue _ x => if q.length < cap then some (q ++ [x]) else none
  | .refuse _ => if q.length = cap then some q else none
  | .dequeue x => if q.head? = some x then some q.tail else none
  | .empty => if q = [] then some q else none

variable [DecidableEq α] {cap : ℕ} {q q' : List α} {ops : List (QueueOp ι α)}

/-- **What an operation does to the queue**: it puts its element behind, or takes it from the front,
and keeps to the capacity. -/
theorem queueNext_spec {op : QueueOp ι α} (h : queueNext cap q op = some q') :
    q ++ ([op].filterMap QueueOp.entered).map Prod.snd = [op].filterMap QueueOp.taken ++ q' ∧
      (q.length ≤ cap → q'.length ≤ cap) := by
  cases op with
  | enqueue i x =>
      simp only [queueNext, Option.ite_none_right_eq_some, Option.some.injEq] at h
      obtain ⟨hlt, rfl⟩ := h
      exact ⟨rfl, fun _ => by rw [List.length_append]; exact hlt⟩
  | dequeue x =>
      simp only [queueNext, Option.ite_none_right_eq_some, Option.some.injEq] at h
      obtain ⟨hhead, rfl⟩ := h
      obtain ⟨rest, rfl⟩ := List.head?_eq_some_iff.mp hhead
      exact ⟨List.append_nil _, Nat.le_of_succ_le⟩
  | refuse i | empty =>
      simp only [queueNext, Option.ite_none_right_eq_some, Option.some.injEq] at h
      exact ⟨h.2 ▸ List.append_nil _, h.2 ▸ id⟩

/-- **First in, first out.** -/
theorem exec_queue_fifo (h : exec (queueNext cap) q ops = some q') :
    q ++ (ops.filterMap QueueOp.entered).map Prod.snd = ops.filterMap QueueOp.taken ++ q' := by
  induction ops generalizing q with
  | nil =>
      rw [exec_nil, Option.some.injEq] at h
      exact h ▸ List.append_nil _
  | cons op ops ih =>
      rw [exec_cons] at h
      obtain ⟨t, ht, h⟩ := Option.bind_eq_some_iff.mp h
      rw [← List.singleton_append, List.filterMap_append, List.filterMap_append, List.map_append,
        ← List.append_assoc, (queueNext_spec ht).1, List.append_assoc, ih h, List.append_assoc]

/-- **The queue never holds more than its capacity.** -/
theorem exec_queue_length_le (hq : q.length ≤ cap) (h : exec (queueNext cap) q ops = some q') :
    q'.length ≤ cap := by
  have hreach := ReachableUnder.of_exec (p := fun _ => True) ops (fun _ _ => trivial) h .start
  exact hreach.invariant (I := fun q => q.length ≤ cap) hq fun _ _ _ hle _ hnext =>
    (queueNext_spec hnext).2 hle

/-- **Who is turned away finds the queue full** at that moment. -/
theorem full_of_refuse {i : ι} (hmem : .refuse i ∈ ops)
    (h : exec (queueNext cap) q ops = some q') :
    ∃ before after q₁, ops = before ++ .refuse i :: after ∧
      exec (queueNext cap) q before = some q₁ ∧ q₁.length = cap := by
  obtain ⟨before, after, rfl⟩ := List.append_of_mem hmem
  rw [exec_append] at h
  obtain ⟨q₁, hbefore, h⟩ := Option.bind_eq_some_iff.mp h
  rw [exec_cons] at h
  obtain ⟨q₂, hrefuse, -⟩ := Option.bind_eq_some_iff.mp h
  simp only [queueNext, Option.ite_none_right_eq_some] at hrefuse
  exact ⟨before, after, q₁, rfl, hbefore, hrefuse.1⟩

end BoundedQueue
