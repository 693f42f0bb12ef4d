import LCChess.Library.BoundedFifo
import LCChess.Library.Run
import LCChess.Serial.Queue

/-!
# The byte queue as a bounded FIFO

The calls of `queue.c` on one queue, their answers and the slots of the array they use. Up to a
capacity of 255 a queue answers every sequence of calls as the bounded FIFO of its capacity.
From 256 on the 8-bit size wraps around before the queue is full.

## Main definitions

* `QueueCall`, `Queue.call`, `Queue.slots`: the calls, what they answer and the slots they use
* `fifoCall`, `fifoAnswers`: the same calls on a bounded FIFO of bytes
* `Queue.Represents`: a queue holds the bytes of a bounded FIFO

## Main results

* `Queue.Represents.call`: a call keeps the representation and answers alike
* `Queue.size_adds`: the size after adding to a queue that is never full
* `queue_bounded_fifo`: the answers are those of the FIFO exactly up to capacity 255
-/

namespace LCChess

open Transition

/-- The calls on a queue. -/
inductive QueueCall
  | add (item : UInt8)
  | remove
  | front
  | rear
  | isEmpty
  | isFull
  deriving DecidableEq, Repr

namespace Queue

/-- One call: the queue after it and its answer, if it has one. -/
def call (q : Queue) : QueueCall → Queue × Option ℕ
  | .add item => (addToQueue q item, none)
  | .remove => ((LCChess.removeFromQueue q).2, some (LCChess.removeFromQueue q).1.toNat)
  | .front => (q, some (queueFront q))
  | .rear => (q, some (queueRear q))
  | .isEmpty => (q, some (queueIsEmpty q).toNat)
  | .isFull => (q, some (queueIsFull q).toNat)

/-- The slots of the array a call reads or writes. -/
def slots (q : Queue) : QueueCall → List ℕ
  | .add _ => if queueIsFull q then [] else [(q.rear + 1) % q.capacity % 256]
  | .remove => if queueIsEmpty q then [] else [q.front]
  | .front => if queueIsEmpty q then [] else [q.front]
  | .rear => if queueIsEmpty q then [] else [q.rear]
  | .isEmpty => []
  | .isFull => []

/-- The answers of a sequence of calls. -/
def answers (q : Queue) (calls : List QueueCall) : List (Option ℕ) :=
  outputs (fun q c => [(q.call c).2]) (fun q c => (q.call c).1) q calls

/-- The slots of the array a sequence of calls uses. -/
def slotsUsed (q : Queue) (calls : List QueueCall) : List ℕ :=
  outputs slots (fun q c => (q.call c).1) q calls

end Queue

section Fifo

variable {c : ℕ}

/-- One call on a bounded FIFO of bytes; an empty queue answers `0` for a byte. -/
def fifoCall (q : BoundedFifo UInt8 c) : QueueCall → BoundedFifo UInt8 c × Option ℕ
  | .add item => (q.push item, none)
  | .remove => (q.pop, some (q.toList.headD 0).toNat)
  | .front => (q, some (q.toList.headD 0).toNat)
  | .rear => (q, some (q.toList.getLastD 0).toNat)
  | .isEmpty => (q, some q.isEmpty.toNat)
  | .isFull => (q, some q.isFull.toNat)

/-- The answers of a bounded FIFO to a sequence of calls. -/
def fifoAnswers (q : BoundedFifo UInt8 c) (calls : List QueueCall) : List (Option ℕ) :=
  outputs (fun q c => [(fifoCall q c).2]) (fun q c => (fifoCall q c).1) q calls

end Fifo

namespace Queue

/-- A queue holds the bytes of a bounded FIFO of its capacity. -/
structure Represents {c : ℕ} (q : Queue) (fifo : BoundedFifo UInt8 c) : Prop where
  wellFormed : q.WellFormed
  rear_lt : q.rear < q.capacity
  capacity_eq : q.capacity = c
  toList_eq : q.toList = fifo.toList

namespace Represents

variable {c : ℕ} {q : Queue} {fifo : BoundedFifo UInt8 c}

theorem isEmpty_eq (h : q.Represents fifo) : queueIsEmpty q = fifo.isEmpty := by
  rw [Bool.eq_iff_iff, queueIsEmpty_iff, h.toList_eq, BoundedFifo.isEmpty, List.isEmpty_iff]

theorem isFull_eq (h : q.Represents fifo) : queueIsFull q = fifo.isFull := by
  rw [Bool.eq_iff_iff, queueIsFull_iff, h.toList_eq, h.capacity_eq, BoundedFifo.isFull,
    beq_iff_eq]

/-- A fresh queue represents the empty FIFO. -/
theorem create {c : ℕ} (hpos : 0 < c) (hle : c ≤ 255) (malloced : ℕ → UInt8) :
    (createQueue c malloced).Represents (BoundedFifo.empty UInt8 c) where
  wellFormed := wellFormed_create hpos hle malloced
  rear_lt := by
    have hmod : (c - 1) % 256 = c - 1 := Nat.mod_eq_of_lt (by omega)
    simp only [createQueue, hmod]
    omega
  capacity_eq := rfl
  toList_eq := rfl

/-- The first byte lies in the slot `front`. -/
theorem front_eq (h : q.Represents fifo) : queueFront q = (fifo.toList.headD 0).toNat := by
  unfold queueFront
  split_ifs with hempty
  · have hnil : fifo.toList = [] := by
      rw [← h.toList_eq]
      exact (queueIsEmpty_iff q).mp hempty
    simp [hnil]
  · have hpos : 0 < q.size := Nat.pos_of_ne_zero fun h0 => hempty (by simp [queueIsEmpty, h0])
    have hhead := RingBuffer.head_contents q.array h.wellFormed.front_lt
      hpos
    rw [← h.toList_eq, toList, List.headD_eq_head?_getD, hhead, Option.getD_some]

/-- The last byte lies in the slot `rear`. -/
theorem rear_eq (h : q.Represents fifo) : queueRear q = (fifo.toList.getLastD 0).toNat := by
  unfold queueRear
  split_ifs with hempty
  · have hnil : fifo.toList = [] := by
      rw [← h.toList_eq]
      exact (queueIsEmpty_iff q).mp hempty
    simp [hnil]
  · have hpos : 0 < q.size := Nat.pos_of_ne_zero fun h0 => hempty (by simp [queueIsEmpty, h0])
    have hslot := RingBuffer.eq_slot_of_succ h.rear_lt hpos h.wellFormed.rear_succ
    have hlast := RingBuffer.getLast_contents q.array q.capacity q.front hpos
    rw [← h.toList_eq, toList, List.getLastD_eq_getLast?, hlast, Option.getD_some, ← hslot]

theorem add (h : q.Represents fifo) (item : UInt8) :
    (addToQueue q item).Represents (fifo.push item) := by
  by_cases hroom : q.toList.length < q.capacity
  · refine ⟨h.wellFormed.addToQueue item, ?_, by simp [h.capacity_eq], ?_⟩
    · rw [h.wellFormed.addToQueue_eq hroom]
      exact Nat.mod_lt _ h.wellFormed.capacity_pos
    · rw [h.wellFormed.toList_addToQueue hroom, BoundedFifo.toList_push, ← h.toList_eq,
        ← h.capacity_eq, if_pos hroom]
  · have hfull : queueIsFull q = true := by
      have := h.wellFormed.size_le
      rw [length_toList] at hroom
      rw [queueIsFull, beq_iff_eq]
      omega
    rw [BoundedFifo.push_of_full (h.isFull_eq ▸ hfull)]
    simpa only [addToQueue, hfull, if_true] using h

theorem remove (h : q.Represents fifo) :
    (LCChess.removeFromQueue q).2.Represents fifo.pop ∧
      (LCChess.removeFromQueue q).1 = fifo.toList.headD 0 := by
  cases hq : fifo.toList with
  | nil =>
    have hpop : fifo.pop = fifo := BoundedFifo.ext (by simp [hq])
    rw [removeFromQueue_of_nil (h.toList_eq.trans hq), hpop]
    exact ⟨h, rfl⟩
  | cons b rest =>
    obtain ⟨hb, hrest⟩ := h.wellFormed.removeFromQueue_of_cons (h.toList_eq.trans hq)
    refine ⟨⟨h.wellFormed.removeFromQueue, ?_, by simp [h.capacity_eq], ?_⟩, hb⟩
    · unfold LCChess.removeFromQueue
      split_ifs <;> exact h.rear_lt
    · rw [hrest, BoundedFifo.toList_pop, hq, List.tail_cons]

/-- A call keeps the representation and answers what the FIFO answers. -/
theorem call (h : q.Represents fifo) (qc : QueueCall) :
    (q.call qc).1.Represents (fifoCall fifo qc).1 ∧ (q.call qc).2 = (fifoCall fifo qc).2 := by
  cases qc with
  | add item => exact ⟨h.add item, rfl⟩
  | remove => exact ⟨h.remove.1, congrArg (fun b : UInt8 => some b.toNat) h.remove.2⟩
  | front => exact ⟨h, congrArg some h.front_eq⟩
  | rear => exact ⟨h, congrArg some h.rear_eq⟩
  | isEmpty => exact ⟨h, congrArg (fun b : Bool => some b.toNat) h.isEmpty_eq⟩
  | isFull => exact ⟨h, congrArg (fun b : Bool => some b.toNat) h.isFull_eq⟩

/-- Every slot a call uses is a slot of the array. -/
theorem slots_lt (h : q.Represents fifo) (qc : QueueCall) : ∀ i ∈ q.slots qc, i < c := by
  have hcap := h.wellFormed.capacity_pos
  have hfront := h.wellFormed.front_lt
  have hrear := h.rear_lt
  rw [h.capacity_eq] at hcap hfront hrear
  intro i hi
  cases qc with
  | add item =>
    simp only [slots, h.capacity_eq] at hi
    split_ifs at hi with hfull
    · exact absurd hi List.not_mem_nil
    · rw [List.mem_singleton] at hi
      rw [hi]
      exact lt_of_le_of_lt (Nat.mod_le _ _) (Nat.mod_lt _ hcap)
  | isEmpty => exact absurd hi List.not_mem_nil
  | isFull => exact absurd hi List.not_mem_nil
  | _ =>
    simp only [slots] at hi
    split_ifs at hi with hempty
    · exact absurd hi List.not_mem_nil
    · rw [List.mem_singleton] at hi
      rwa [hi]

end Represents

/-- The representation invariant carries a whole sequence of calls. -/
theorem Represents.answers {c : ℕ} {q : Queue} {fifo : BoundedFifo UInt8 c}
    (h : q.Represents fifo) (calls : List QueueCall) : q.answers calls = fifoAnswers fifo calls :=
  outputs_simulation Represents
    (fun _ _ qc hq => ⟨(hq.call qc).1, congrArg (fun a => [a]) (hq.call qc).2⟩) h calls

theorem Represents.slotsUsed_lt {c : ℕ} {q : Queue} {fifo : BoundedFifo UInt8 c}
    (h : q.Represents fifo) (calls : List QueueCall) : ∀ i ∈ q.slotsUsed calls, i < c := by
  induction calls generalizing q fifo with
  | nil => exact fun i hi => absurd hi List.not_mem_nil
  | cons qc calls ih =>
    intro i hi
    rcases List.mem_append.mp hi with hi | hi
    · exact h.slots_lt qc i hi
    · exact ih (h.call qc).1 i hi

/-! ## Capacities from 256 on -/

/-- Adding to a queue whose capacity the 8-bit size cannot reach: it counts modulo 256. -/
theorem size_adds {q : Queue} (hcap : 256 ≤ q.capacity) (hsize : q.size = 0) (n : ℕ)
    (item : UInt8) :
    (run (fun q c => (q.call c).1) q (List.replicate n (.add item))).size = n % 256 ∧
      (run (fun q c => (q.call c).1) q (List.replicate n (.add item))).capacity =
        q.capacity := by
  induction n with
  | zero => exact ⟨hsize, rfl⟩
  | succ n ih =>
    obtain ⟨hn, hc⟩ := ih
    rw [List.replicate_succ', run_snoc]
    generalize run (fun q c => (Queue.call q c).1) q (List.replicate n (.add item)) = r at hn hc
    have hfull : queueIsFull r = false := by
      have := Nat.mod_lt n (show 256 > 0 by decide)
      rw [queueIsFull, beq_eq_false_iff_ne]
      omega
    constructor
    · simp only [call, addToQueue, hfull, Bool.false_eq_true, if_false, hn, Nat.mod_add_mod]
    · simp only [call, capacity_addToQueue, hc]

end Queue

/-- A bounded FIFO counts the elements it has room for. -/
theorem length_fifo_adds {c : ℕ} (n : ℕ) (item : UInt8) :
    (run (fun q c => (fifoCall q c).1) (BoundedFifo.empty UInt8 c)
      (List.replicate n (.add item))).toList.length = min n c := by
  induction n with
  | zero => simp
  | succ n ih =>
    rw [List.replicate_succ', run_snoc]
    refine (BoundedFifo.length_push _ item).trans ?_
    rw [ih]
    omega

/-- After 256 bytes a queue of a larger capacity calls itself empty, and the FIFO does not. -/
theorem answers_ne_of_capacity {c : ℕ} (hc : 256 ≤ c) (malloced : ℕ → UInt8) :
    (createQueue c malloced).answers (List.replicate 256 (.add 0) ++ [.isEmpty]) ≠
      fifoAnswers (BoundedFifo.empty UInt8 c) (List.replicate 256 (.add 0) ++ [.isEmpty]) := by
  intro heq
  have hsize := (Queue.size_adds (q := createQueue c malloced) hc rfl 256 0).1
  have hlen := length_fifo_adds (c := c) 256 0
  -- the adds stay folded: only their outcome matters
  generalize List.replicate 256 (QueueCall.add 0) = adds at *
  rw [Queue.answers, fifoAnswers, outputs_append, outputs_append] at heq
  have hlast := List.head_eq_of_cons_eq (List.append_inj_right' heq (by rfl))
  have hempty : queueIsEmpty (run (fun q c => (Queue.call q c).1) (createQueue c malloced)
      adds) = true := by
    rw [queueIsEmpty, hsize]
    rfl
  have hne : (run (fun q c => (fifoCall q c).1) (BoundedFifo.empty UInt8 c)
      adds).isEmpty = false := by
    rw [BoundedFifo.isEmpty, List.isEmpty_eq_false_iff, ← List.length_pos_iff, hlen]
    omega
  have hflags : (queueIsEmpty _).toNat = (BoundedFifo.isEmpty _).toNat := Option.some.inj hlast
  rw [hempty, hne] at hflags
  exact absurd hflags (by decide)

/-- **A queue is a bounded FIFO exactly up to capacity 255**: every sequence of calls on a
fresh queue has the answers of the FIFO and stays inside the array, and from 256 on some
sequence of calls has other answers. -/
theorem queue_bounded_fifo :
    (∀ c, 1 ≤ c → c ≤ 255 → ∀ (malloced : ℕ → UInt8) (calls : List QueueCall),
      (createQueue c malloced).answers calls = fifoAnswers (BoundedFifo.empty UInt8 c) calls ∧
        ∀ i ∈ (createQueue c malloced).slotsUsed calls, i < c) ∧
    ∀ c, 256 ≤ c → ∀ malloced : ℕ → UInt8, ∃ calls : List QueueCall,
      (createQueue c malloced).answers calls ≠
        fifoAnswers (BoundedFifo.empty UInt8 c) calls := by
  constructor
  · intro c hpos hle malloced calls
    have hfresh := Queue.Represents.create hpos hle malloced
    exact ⟨hfresh.answers calls, hfresh.slotsUsed_lt calls⟩
  · intro c hc malloced
    exact ⟨_, answers_ne_of_capacity hc malloced⟩

/-- A queue of two bytes: the third byte is refused, and the indices wrap around. -/
theorem queue_bounded_fifo_two :
    (createQueue 2 fun _ => 0).answers [.add 7, .add 8, .add 9, .remove, .add 9, .rear, .isFull] =
      [none, none, none, some 7, none, some 9, some 1] :=
  (queue_bounded_fifo.1 2 (by decide) (by decide) (fun _ => 0) _).1.trans (by decide)

end LCChess
