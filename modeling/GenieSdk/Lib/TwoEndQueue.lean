import Mathlib.Data.List.Perm.Basic
import Mathlib.Data.List.Range
import Mathlib.Tactic

/-!
# Queues with two ends

A queue that takes ordinary things at its back and urgent things at its front, and hands out what is at its
front. Things are numbered as they arrive. In every run everything that has arrived has been handed out or is
queued, once (`InOrder.once`); ordinary things come out as they have arrived, and an urgent one before all that
were queued when it arrived (`InOrder.order`).

Nothing here depends on a particular program.
-/

set_option autoImplicit false

namespace GenieSdk.Lib

/-- How something arrived: whether it is urgent, and what was queued then. -/
structure Arrival where
  urgent : Bool
  queued : List ℕ
  deriving DecidableEq

/-- What has arrived, what is queued, and what has been handed out, the first of each first. -/
@[ext] structure TwoEndQueue where
  arrivals : List Arrival
  queue : List ℕ
  done : List ℕ
  deriving DecidableEq

namespace TwoEndQueue

variable {q : TwoEndQueue}

def empty : TwoEndQueue := { arrivals := [], queue := [], done := [] }

def put (q : TwoEndQueue) (urgent : Bool) : TwoEndQueue :=
  { arrivals := q.arrivals ++ [{ urgent, queued := q.queue }]
    queue := if urgent then q.arrivals.length :: q.queue else q.queue ++ [q.arrivals.length]
    done := q.done }

def take (q : TwoEndQueue) : TwoEndQueue :=
  { q with queue := q.queue.tail, done := q.done ++ q.queue.head?.toList }

/-- `i` may come out before `j`. -/
def MayPrecede (arrivals : List Arrival) (i j : ℕ) : Prop :=
  ∀ a b, arrivals[i]? = some a → arrivals[j]? = some b →
    (a.urgent = false → b.urgent = false → i < j) ∧ (b.urgent = true → i ∉ b.queued)

/-- **The order of a queue with two ends.** -/
structure InOrder (q : TwoEndQueue) : Prop where
  once : (q.done ++ q.queue).Perm (List.range q.arrivals.length)
  order : (q.done ++ q.queue).Pairwise (MayPrecede q.arrivals)
  queued : ∀ a ∈ q.arrivals, ∀ i ∈ a.queued, i < q.arrivals.length

/-- An empty queue is in order. -/
theorem inOrder_empty : InOrder empty :=
  ⟨List.Perm.refl [], List.Pairwise.nil, fun _ h => by cases h⟩

/-- Taking moves the first element to those that are done. -/
theorem take_done_queue (q : TwoEndQueue) : q.take.done ++ q.take.queue = q.done ++ q.queue := by
  unfold take
  cases q.queue with
  | nil => simp
  | cons i rest => simp

/-- And keeps the order. -/
theorem InOrder.take (h : InOrder q) : InOrder q.take where
  once := by
    rw [take_done_queue]
    exact h.once
  order := by
    rw [take_done_queue]
    exact h.order
  queued := h.queued

/-- What is done or queued has arrived. -/
theorem InOrder.lt (h : InOrder q) {i : ℕ} (hi : i ∈ q.done ++ q.queue) : i < q.arrivals.length :=
  List.mem_range.1 (h.once.mem_iff.1 hi)

/-- And is there once. -/
theorem InOrder.nodup (h : InOrder q) : (q.done ++ q.queue).Nodup := h.once.nodup_iff.2 List.nodup_range

/-- One more arrival changes nothing for those before it. -/
theorem mayPrecede_append {arrivals : List Arrival} {a : Arrival} {i j : ℕ} (hi : i < arrivals.length)
    (hj : j < arrivals.length) (h : MayPrecede arrivals i j) : MayPrecede (arrivals ++ [a]) i j := by
  intro b c hb hc
  rw [List.getElem?_append_left hi] at hb
  rw [List.getElem?_append_left hj] at hc
  exact h b c hb hc

/-- Putting an element at either end keeps the order. -/
theorem InOrder.put (h : InOrder q) (urgent : Bool) : InOrder (q.put urgent) := by
  have hlast : (q.arrivals ++ [{ urgent, queued := q.queue }])[q.arrivals.length]? =
      some { urgent, queued := q.queue } := by simp
  have hold : (q.done ++ q.queue).Pairwise (MayPrecede (q.put urgent).arrivals) :=
    h.order.imp_of_mem fun hi hj => mayPrecede_append (h.lt hi) (h.lt hj)
  have hqueued : ∀ a ∈ (q.put urgent).arrivals, ∀ i ∈ a.queued, i < (q.put urgent).arrivals.length := by
    intro a ha i hi
    have hlen : (q.put urgent).arrivals.length = q.arrivals.length + 1 := by simp [TwoEndQueue.put]
    rw [hlen]
    obtain ha | ha := List.mem_append.1 ha
    · have := h.queued a ha i hi
      omega
    · obtain rfl := List.mem_singleton.1 ha
      have := h.lt (List.mem_append_right q.done hi)
      omega
  cases urgent with
  | false =>
    refine ⟨?_, ?_, hqueued⟩
    · change (q.done ++ (q.queue ++ [q.arrivals.length])).Perm _
      rw [← List.append_assoc, TwoEndQueue.put, List.length_append, List.length_singleton,
        List.range_succ]
      exact h.once.append_right _
    · change (q.done ++ (q.queue ++ [q.arrivals.length])).Pairwise _
      rw [← List.append_assoc, List.pairwise_append]
      refine ⟨hold, List.pairwise_singleton _ _, fun i hi j hj a b ha hb => ?_⟩
      obtain rfl := List.mem_singleton.1 hj
      obtain rfl := Option.some.inj (hlast.symm.trans hb)
      exact ⟨fun _ _ => h.lt hi, fun hurgent => absurd hurgent (by simp)⟩
  | true =>
    have hold' := List.pairwise_append.1 hold
    refine ⟨?_, ?_, hqueued⟩
    · change (q.done ++ q.arrivals.length :: q.queue).Perm _
      rw [TwoEndQueue.put, List.length_append, List.length_singleton, List.range_succ]
      refine List.perm_middle.trans ?_
      exact (h.once.cons _).trans (List.perm_append_singleton _ _).symm
    · change (q.done ++ q.arrivals.length :: q.queue).Pairwise _
      rw [List.pairwise_append, List.pairwise_cons]
      refine ⟨hold'.1, ⟨fun j hj a b ha hb => ?_, hold'.2.1⟩, fun i hi j hj => ?_⟩
      · -- what is queued arrived before, so it cannot name the new arrival
        have hjlt := h.lt (List.mem_append_right q.done hj)
        obtain rfl := Option.some.inj (hlast.symm.trans ha)
        refine ⟨fun hnot => absurd hnot (by simp), fun _ hmem => ?_⟩
        have hb' : b ∈ q.arrivals := by
          change (q.arrivals ++ [_])[j]? = some b at hb
          rw [List.getElem?_append_left hjlt] at hb
          exact List.mem_of_getElem? hb
        exact absurd (h.queued b hb' _ hmem) (lt_irrefl _)
      · obtain rfl | hj := List.mem_cons.1 hj
        · intro a b ha hb
          obtain rfl := Option.some.inj (hlast.symm.trans hb)
          refine ⟨fun _ hnot => absurd hnot (by simp), fun _ hmem => ?_⟩
          exact List.disjoint_of_nodup_append h.nodup hi hmem
        · exact hold'.2.2 i hi j hj

end TwoEndQueue

end GenieSdk.Lib
