import Aegis.Agent.Reporter
import Aegis.Lib.Machine
import Aegis.Lib.Ring

/-!
# The ring buffer as a queue

What the buffer between the application's threads and the reporting thread is for: a queue of bounded
length that evicts its oldest item when it is full. `evicting_queue` says that the buffer is this
queue and that its two counters add up.
-/

namespace Aegis.Agent

variable {α : Type}

/-! ## The queue -/

/-- A queue, with what it evicted and what was not taken in. -/
structure EvictingQueue (α : Type) where
  items : List α
  evicted : List α
  contended : List α

/-- A call of the buffer. An offer may find the lock taken. -/
inductive BufferCall (α : Type) where
  | offer (item : Option α) (lockFree : Bool)
  | drain (max : Int)

/-- The result of a call. -/
inductive BufferReply (α : Type) where
  | stored (free : Bool)
  | batch (items : List α)
  deriving DecidableEq

/-- The items a call returned. -/
def BufferReply.items : BufferReply α → List α
  | stored _ => []
  | batch items => items

/-- One call of the queue of some capacity. -/
def EvictingQueue.call (capacity : Nat) (q : EvictingQueue α) :
    BufferCall α → BufferReply α × EvictingQueue α
  | .offer none _ => (.stored false, q)
  | .offer (some item) false => (.stored false, { q with contended := q.contended ++ [item] })
  | .offer (some item) true =>
      if q.items.length < capacity then (.stored true, { q with items := q.items ++ [item] })
      else
        (.stored false, { q with
          items := q.items.tail ++ [item]
          evicted := q.evicted ++ q.items.take 1 })
  | .drain max => (.batch (q.items.take max.toNat), { q with items := q.items.drop max.toNat })

/-- The item a call hands over, when it is one and the lock is free. -/
def BufferCall.taken : BufferCall α → Option α
  | offer item true => item
  | offer _ false | drain _ => none

/-- The item a call fails to hand over. -/
def BufferCall.refused : BufferCall α → Option α
  | offer item false => item
  | offer _ true | drain _ => none

/-! ## The buffer -/

namespace BoundedRingBuffer

/-- One call of the buffer. A call without an item is refused, and so is a drain of nothing. -/
def call (b : BoundedRingBuffer α) : BufferCall α → BufferReply α × BoundedRingBuffer α
  | .offer none _ => (.stored false, b)
  | .offer (some item) lockFree =>
      let (stored, b) := b.offer item lockFree
      (.stored stored, b)
  | .drain max =>
      if max ≤ 0 then (.batch [], b)
      else
        let (batch, b) := b.drain max.toNat
        (.batch batch, b)

/-- The buffer holds the items of the queue and has counted the others. -/
structure Represents (capacity : Nat) (b : BoundedRingBuffer α) (q : EvictingQueue α) : Prop where
  holds : Ring.Holds b.slots capacity b.head q.items
  capacity_eq : b.capacity = capacity
  size_eq : b.size = q.items.length
  dropped_eq : b.dropped = q.evicted.length + q.contended.length

variable {capacity : Nat} {b : BoundedRingBuffer α} {q : EvictingQueue α}

theorem represents_create (h : 0 < capacity) :
    Represents capacity (create capacity) ⟨[], [], ([] : List α)⟩ :=
  ⟨Ring.holds_replicate h, rfl, rfl, rfl⟩

/-- An item that finds the lock free is stored as the queue stores it. -/
theorem Represents.offer (h : Represents capacity b q) (item : α) :
    (b.call (.offer (some item) true)).1 = (q.call capacity (.offer (some item) true)).1 ∧
      Represents capacity (b.call (.offer (some item) true)).2
        (q.call capacity (.offer (some item) true)).2 := by
  have hbounded := h.holds.bounded
  simp only [BoundedRingBuffer.call, EvictingQueue.call, BoundedRingBuffer.offer, Bool.not_true,
    Bool.false_eq_true, if_false, h.size_eq, h.capacity_eq]
  by_cases hroom : q.items.length < capacity
  · rw [if_neg (by omega), if_pos hroom]
    refine ⟨rfl, h.holds.push hroom item, rfl, ?_, h.dropped_eq⟩
    show q.items.length + 1 = (q.items ++ [item]).length
    rw [List.length_append, List.length_singleton]
  · -- The buffer is full: the oldest item gives way to the new one.
    rw [if_pos (by omega), if_neg hroom]
    have hholds := h.holds
    cases hitems : q.items with
    | nil =>
        have hpositive := hholds.head_lt
        rw [hitems, List.length_nil] at hroom
        omega
    | cons oldest items =>
        rw [hitems] at hholds hbounded hroom
        rw [List.length_cons] at hbounded hroom
        refine ⟨rfl, hholds.overwrite (by omega) item, rfl, ?_, ?_⟩
        · show items.length + 1 = (items ++ [item]).length
          rw [List.length_append, List.length_singleton]
        · show b.dropped + 1 = (q.evicted ++ [oldest]).length + q.contended.length
          rw [h.dropped_eq, List.length_append, List.length_singleton]
          omega

/-- The oldest items are drained as the queue returns them. -/
theorem Represents.drain (h : Represents capacity b q) (max : Int) :
    (b.call (.drain max)).1 = (q.call capacity (.drain max)).1 ∧
      Represents capacity (b.call (.drain max)).2 (q.call capacity (.drain max)).2 := by
  by_cases hnone : max ≤ 0
  · have hzero : max.toNat = 0 := Int.toNat_of_nonpos hnone
    simp only [BoundedRingBuffer.call, EvictingQueue.call, if_pos hnone, hzero, List.take_zero,
      List.drop_zero]
    exact ⟨trivial, h⟩
  · simp only [BoundedRingBuffer.call, EvictingQueue.call, if_neg hnone, BoundedRingBuffer.drain,
      h.size_eq, h.capacity_eq]
    have hcount : min max.toNat q.items.length ≤ q.items.length := Nat.min_le_right _ _
    have hread := h.holds.read hcount
    have hclear := h.holds.clear hcount
    rw [List.take_eq_take_min.symm] at hread
    rw [List.drop_eq_drop_min.symm] at hclear
    refine ⟨congrArg BufferReply.batch hread, hclear, rfl, ?_, h.dropped_eq⟩
    show q.items.length - min max.toNat q.items.length = (q.items.drop max.toNat).length
    rw [List.length_drop]
    omega

/-- A call has the reply of the queue, and the buffer represents the queue after it. -/
theorem Represents.call (h : Represents capacity b q) (c : BufferCall α) :
    (b.call c).1 = (q.call capacity c).1 ∧
      Represents capacity (b.call c).2 (q.call capacity c).2 := by
  cases c with
  | drain max => exact h.drain max
  | offer item lockFree =>
      cases item with
      | none => exact ⟨rfl, h⟩
      | some item =>
          cases lockFree with
          | true => exact h.offer item
          | false =>
              refine ⟨rfl, h.holds, h.capacity_eq, h.size_eq, ?_⟩
              show b.dropped + 1 = q.evicted.length + (q.contended ++ [item]).length
              rw [h.dropped_eq, List.length_append, List.length_singleton, Nat.add_assoc]

/-- The buffer counts the items it takes. -/
theorem accepted_call (b : BoundedRingBuffer α) (c : BufferCall α) :
    (b.call c).2.accepted = b.accepted + c.taken.toList.length := by
  cases c with
  | drain max =>
      simp only [BoundedRingBuffer.call]
      split <;> rfl
  | offer item lockFree =>
      cases item with
      | none => cases lockFree <;> rfl
      | some item =>
          cases lockFree with
          | false => rfl
          | true =>
              simp only [BoundedRingBuffer.call, BoundedRingBuffer.offer, Bool.not_true,
                Bool.false_eq_true, if_false]
              split <;> rfl

/-- In a run, the buffer counts all the items it takes. -/
theorem accepted_run (b : BoundedRingBuffer α) (calls : List (BufferCall α)) :
    (Machine.final BoundedRingBuffer.call b calls).accepted =
      b.accepted + (calls.filterMap BufferCall.taken).length := by
  induction calls generalizing b with
  | nil => rfl
  | cons c calls ih =>
      rw [Machine.final_cons, ih, accepted_call, List.filterMap_cons]
      cases c.taken with
      | none => rfl
      | some item =>
          show b.accepted + 1 + _ = b.accepted + (_ + 1)
          omega

end BoundedRingBuffer

/-! ## Runs -/

/-- After a call, what was returned and what is left is a part of what was there and what was taken
in. -/
theorem EvictingQueue.account_call (capacity : Nat) (q : EvictingQueue α) (c : BufferCall α) :
    ((q.call capacity c).1.items ++ (q.call capacity c).2.items).Sublist
        (q.items ++ c.taken.toList) ∧
      q.items.length + c.taken.toList.length + q.evicted.length =
        (q.call capacity c).1.items.length + (q.call capacity c).2.items.length +
          (q.call capacity c).2.evicted.length ∧
      (q.call capacity c).2.contended.length = q.contended.length + c.refused.toList.length := by
  obtain ⟨items, evicted, contended⟩ := q
  cases c with
  | drain max =>
      have hsplit : items.take max.toNat ++ items.drop max.toNat = items :=
        List.take_append_drop _ _
      have hlength := congrArg List.length hsplit
      rw [List.length_append] at hlength
      refine ⟨?_, ?_, rfl⟩
      · show (items.take max.toNat ++ items.drop max.toNat).Sublist (items ++ [])
        rw [hsplit, List.append_nil]
      · show items.length + 0 + evicted.length =
          (items.take max.toNat).length + (items.drop max.toNat).length + evicted.length
        omega
  | offer item lockFree =>
      cases item with
      | none =>
          have htaken : (BufferCall.offer (none : Option α) lockFree).taken = none := by
            cases lockFree <;> rfl
          have hrefused : (BufferCall.offer (none : Option α) lockFree).refused = none := by
            cases lockFree <;> rfl
          rw [htaken, hrefused]
          exact ⟨by simp [call, BufferReply.items], by simp [call, BufferReply.items], rfl⟩
      | some item =>
          cases lockFree with
          | false =>
              refine ⟨?_, ?_, List.length_append⟩
              · show items.Sublist (items ++ [])
                rw [List.append_nil]
              · show items.length + 0 + evicted.length = 0 + items.length + evicted.length
                omega
          | true =>
              simp only [call]
              split
              · refine ⟨List.Sublist.refl _, ?_, rfl⟩
                show items.length + 1 + evicted.length =
                  0 + (items ++ [item]).length + evicted.length
                rw [List.length_append, List.length_singleton]
                omega
              · refine ⟨(List.tail_sublist items).append_right [item], ?_, rfl⟩
                show items.length + 1 + evicted.length =
                  0 + (items.tail ++ [item]).length + (evicted ++ items.take 1).length
                rw [List.length_append, List.length_append, List.length_tail, List.length_take,
                  List.length_singleton]
                omega

/-- So it is in a run: no item is returned twice, and what is missing was evicted. -/
theorem EvictingQueue.account (capacity : Nat) (q : EvictingQueue α) (calls : List (BufferCall α)) :
    let replies := (Machine.visited (call capacity) q calls).map Prod.fst
    let later := Machine.final (call capacity) q calls
    (replies.flatMap BufferReply.items ++ later.items).Sublist
        (q.items ++ calls.filterMap BufferCall.taken) ∧
      q.items.length + (calls.filterMap BufferCall.taken).length + q.evicted.length =
        (replies.flatMap BufferReply.items).length + later.items.length + later.evicted.length ∧
      later.contended.length =
        q.contended.length + (calls.filterMap BufferCall.refused).length := by
  induction calls generalizing q with
  | nil => simp [Machine.visited]
  | cons c calls ih =>
      obtain ⟨hparts, hcount, hlost⟩ := q.account_call capacity c
      obtain ⟨hsublist, hlength, hcontended⟩ := ih (q.call capacity c).2
      have htaken : ((c :: calls).filterMap BufferCall.taken) =
          c.taken.toList ++ calls.filterMap BufferCall.taken := by
        rw [List.filterMap_cons]
        cases c.taken <;> rfl
      have hrefused : ((c :: calls).filterMap BufferCall.refused) =
          c.refused.toList ++ calls.filterMap BufferCall.refused := by
        rw [List.filterMap_cons]
        cases c.refused <;> rfl
      simp only [Machine.visited, Machine.final_cons, List.map_cons, List.flatMap_cons, htaken,
        hrefused, List.length_append]
      refine ⟨?_, by omega, by omega⟩
      have hfirst := hsublist.append_left (q.call capacity c).1.items
      have hrest := hparts.append_right (calls.filterMap BufferCall.taken)
      rw [List.append_assoc] at hrest
      simpa only [List.append_assoc] using hfirst.trans hrest

end Aegis.Agent
