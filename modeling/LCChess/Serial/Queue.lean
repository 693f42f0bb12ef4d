import LCChess.Library.RingBuffer
import Mathlib.Data.List.Basic

/-!
# The byte queues of the serial port

`queue.c` keeps a bounded queue of bytes in a circular array. The indices and the size are
8-bit, the capacity is a full `unsigned`. A queue of capacity at most 255 is a bounded FIFO
list: `Queue.toList` reads the elements off the array, and each operation is the list
operation.

## Main definitions

* `Queue`, `createQueue`, `addToQueue`, `removeFromQueue`: the queue of `queue.c`
* `queueFront`, `queueRear`: the bytes at its two ends
* `Queue.WellFormed`: the indices and the size describe a segment of the array
* `Queue.toList`: the queued bytes, first one first

## Main results

* `WellFormed.toList_addToQueue`, `removeFromQueue_of_nil`, `WellFormed.removeFromQueue_of_cons`:
  the operations on the queued bytes
-/

namespace LCChess

/-- `Queue` of `queue.h`: `front`, `rear` and `size` are 8-bit, `capacity` is an `unsigned`. -/
structure Queue where
  front : ℕ
  rear : ℕ
  size : ℕ
  capacity : ℕ
  array : ℕ → UInt8

/-- A fresh queue; `malloced` is what the allocated array holds before anything is written. -/
def createQueue (capacity : ℕ) (malloced : ℕ → UInt8) : Queue where
  front := 0
  rear := (capacity - 1) % 256
  size := 0
  capacity := capacity
  array := malloced

/-- `queueIsFull`. -/
def queueIsFull (q : Queue) : Bool := q.size == q.capacity

/-- `queueIsEmpty`. -/
def queueIsEmpty (q : Queue) : Bool := q.size == 0

/-- `addToQueue`: a full queue is left as it is. -/
def addToQueue (q : Queue) (item : UInt8) : Queue :=
  if queueIsFull q then q
  else
    let rear := (q.rear + 1) % q.capacity % 256
    { q with
      rear := rear
      array := Function.update q.array rear item
      size := (q.size + 1) % 256 }

/-- `removeFromQueue`: an empty queue answers `0` and is left as it is. -/
def removeFromQueue (q : Queue) : UInt8 × Queue :=
  if queueIsEmpty q then (0, q)
  else
    (q.array q.front,
      { q with
        front := (q.front + 1) % q.capacity % 256
        size := q.size - 1 })

/-- `queueFront`. -/
def queueFront (q : Queue) : ℕ := if queueIsEmpty q then 0 else (q.array q.front).toNat

/-- `queueRear`. -/
def queueRear (q : Queue) : ℕ := if queueIsEmpty q then 0 else (q.array q.rear).toNat

namespace Queue

/-- The representation invariant of a queue of capacity at most 255. -/
structure WellFormed (q : Queue) : Prop where
  capacity_pos : 0 < q.capacity
  capacity_le : q.capacity ≤ 255
  front_lt : q.front < q.capacity
  size_le : q.size ≤ q.capacity
  /-- The slot behind `rear` is the slot behind the last element. -/
  rear_succ : (q.rear + 1) % q.capacity = (q.front + q.size) % q.capacity

/-- The queued bytes, first one first. -/
def toList (q : Queue) : List UInt8 :=
  RingBuffer.contents q.array q.capacity q.front q.size

@[simp] theorem length_toList (q : Queue) : q.toList.length = q.size := by simp [toList]

theorem queueIsEmpty_iff (q : Queue) : queueIsEmpty q = true ↔ q.toList = [] := by
  rw [← List.length_eq_zero_iff, length_toList]
  simp [queueIsEmpty]

theorem queueIsFull_iff (q : Queue) : queueIsFull q = true ↔ q.toList.length = q.capacity := by
  simp [queueIsFull]

theorem wellFormed_create {capacity : ℕ} (h : 0 < capacity) (h' : capacity ≤ 255)
    (malloced : ℕ → UInt8) : (createQueue capacity malloced).WellFormed where
  capacity_pos := h
  capacity_le := h'
  front_lt := h
  size_le := Nat.zero_le _
  rear_succ := by
    have hmod : (capacity - 1) % 256 = capacity - 1 := Nat.mod_eq_of_lt (by omega)
    have hsucc : capacity - 1 + 1 = capacity := by omega
    simp [createQueue, hmod, hsucc]

@[simp] theorem toList_create (capacity : ℕ) (malloced : ℕ → UInt8) :
    (createQueue capacity malloced).toList = [] := rfl

@[simp] theorem capacity_create (capacity : ℕ) (malloced : ℕ → UInt8) :
    (createQueue capacity malloced).capacity = capacity := rfl

@[simp] theorem capacity_addToQueue (q : Queue) (item : UInt8) :
    (addToQueue q item).capacity = q.capacity := by
  unfold addToQueue; split <;> rfl

@[simp] theorem capacity_removeFromQueue (q : Queue) :
    (removeFromQueue q).2.capacity = q.capacity := by
  unfold removeFromQueue; split <;> rfl

/-- The fields after adding to a well-formed queue with room: no 8-bit wrap happens. -/
theorem WellFormed.addToQueue_eq {q : Queue} (h : q.WellFormed)
    (hroom : q.toList.length < q.capacity) (item : UInt8) :
    addToQueue q item =
      { q with
        rear := (q.front + q.size) % q.capacity
        array := Function.update q.array ((q.front + q.size) % q.capacity) item
        size := q.size + 1 } := by
  -- a capacity of at most 255 keeps the counters of one byte from wrapping
  have hcap := h.capacity_le
  have hlt := Nat.mod_lt (q.front + q.size) h.capacity_pos
  have hsize : q.size < q.capacity := by simpa using hroom
  have hfull : queueIsFull q = false := by simp [queueIsFull]; omega
  have hrear : (q.front + q.size) % q.capacity % 256 = (q.front + q.size) % q.capacity :=
    Nat.mod_eq_of_lt (by omega)
  have hsize' : (q.size + 1) % 256 = q.size + 1 := Nat.mod_eq_of_lt (by omega)
  simp [addToQueue, hfull, h.rear_succ, hrear, hsize']

theorem WellFormed.addToQueue {q : Queue} (h : q.WellFormed) (item : UInt8) :
    (addToQueue q item).WellFormed := by
  by_cases hroom : q.toList.length < q.capacity
  · rw [h.addToQueue_eq hroom]
    have hsize : q.size < q.capacity := by simpa using hroom
    exact ⟨h.capacity_pos, h.capacity_le, h.front_lt, hsize, by
      simp only [Nat.mod_add_mod, Nat.add_assoc]⟩
  -- a full queue is left as it is
  · have hfull : queueIsFull q = true := by
      have := h.size_le
      simp only [length_toList] at hroom
      simp [queueIsFull]
      omega
    simpa [LCChess.addToQueue, hfull] using h

/-- Adding to a queue with room appends the byte. -/
theorem WellFormed.toList_addToQueue {q : Queue} (h : q.WellFormed)
    (hroom : q.toList.length < q.capacity) (item : UInt8) :
    (LCChess.addToQueue q item).toList = q.toList ++ [item] := by
  rw [h.addToQueue_eq hroom]
  exact RingBuffer.contents_push q.array (by simpa using hroom) item

theorem removeFromQueue_of_nil {q : Queue} (h : q.toList = []) :
    LCChess.removeFromQueue q = (0, q) := by
  simp [LCChess.removeFromQueue, (queueIsEmpty_iff q).mpr h]

theorem WellFormed.removeFromQueue {q : Queue} (h : q.WellFormed) :
    (removeFromQueue q).2.WellFormed := by
  unfold LCChess.removeFromQueue
  split
  · exact h
  · rename_i hne
    have hsize : q.size ≠ 0 := by simpa [queueIsEmpty] using hne
    have hcap := h.capacity_le
    have hlt := Nat.mod_lt (q.front + 1) h.capacity_pos
    have hfront : (q.front + 1) % q.capacity % 256 = (q.front + 1) % q.capacity :=
      Nat.mod_eq_of_lt (by omega)
    have hsum : q.front + 1 + (q.size - 1) = q.front + q.size := by omega
    refine ⟨h.capacity_pos, h.capacity_le, by simpa [hfront] using hlt, ?_, ?_⟩
    · have := h.size_le
      simp only
      omega
    · simp only [hfront, Nat.mod_add_mod, hsum, h.rear_succ]

/-- Removing from a non-empty queue takes the first byte. -/
theorem WellFormed.removeFromQueue_of_cons {q : Queue} (h : q.WellFormed) {b : UInt8}
    {bs : List UInt8} (hq : q.toList = b :: bs) :
    (LCChess.removeFromQueue q).1 = b ∧ (LCChess.removeFromQueue q).2.toList = bs := by
  have hlen := congrArg List.length hq
  simp only [length_toList, List.length_cons] at hlen
  have hne : queueIsEmpty q = false := by simp [queueIsEmpty]; omega
  have hcap := h.capacity_le
  have hlt := Nat.mod_lt (q.front + 1) h.capacity_pos
  have hfront : (q.front + 1) % q.capacity % 256 = (q.front + 1) % q.capacity :=
    Nat.mod_eq_of_lt (by omega)
  -- the byte in front is the first one of the ring
  have hpop := RingBuffer.contents_pop q.array h.front_lt bs.length
  rw [toList, hlen, hpop] at hq
  obtain ⟨hb, hbs⟩ := List.cons.inj hq
  have hpred : q.size - 1 = bs.length := by omega
  exact ⟨by simp [LCChess.removeFromQueue, hne, hb], by
    simpa [LCChess.removeFromQueue, hne, toList, hfront, hpred] using hbs⟩

end Queue

end LCChess
