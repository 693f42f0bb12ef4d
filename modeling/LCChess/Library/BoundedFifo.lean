import Mathlib.Data.List.Basic
import Mathlib.Tactic.Common

/-!
# Bounded first-in, first-out queues

A queue of at most `c` elements, as the list of its elements, first one first. Pushing on a
full queue changes nothing, and so does popping an empty one.

## Main definitions

* `BoundedFifo α c`: at most `c` elements
* `push`, `pop`, `isEmpty`, `isFull`: its operations
-/

/-- A first-in, first-out queue of at most `c` elements. -/
@[ext] structure BoundedFifo (α : Type*) (c : ℕ) where
  /-- The elements, first one first. -/
  toList : List α
  length_le : toList.length ≤ c

namespace BoundedFifo

variable {α : Type*} {c : ℕ}

/-- The queue of no elements. -/
def empty (α : Type*) (c : ℕ) : BoundedFifo α c := ⟨[], Nat.zero_le c⟩

/-- The queue holds no element. -/
def isEmpty (q : BoundedFifo α c) : Bool := q.toList.isEmpty

/-- The queue holds `c` elements. -/
def isFull (q : BoundedFifo α c) : Bool := q.toList.length == c

/-- Append an element; a full queue is left as it is. -/
def push (q : BoundedFifo α c) (x : α) : BoundedFifo α c :=
  if h : q.toList.length < c then ⟨q.toList ++ [x], by simpa using Nat.succ_le_of_lt h⟩ else q

/-- Drop the first element. -/
def pop (q : BoundedFifo α c) : BoundedFifo α c :=
  ⟨q.toList.tail, Nat.le_trans (by simp) q.length_le⟩

@[simp] theorem toList_empty : (empty α c).toList = [] := rfl

@[simp] theorem toList_pop (q : BoundedFifo α c) : q.pop.toList = q.toList.tail := rfl

theorem toList_push (q : BoundedFifo α c) (x : α) :
    (q.push x).toList = if q.toList.length < c then q.toList ++ [x] else q.toList := by
  unfold push
  split_ifs <;> rfl

theorem length_push (q : BoundedFifo α c) (x : α) :
    (q.push x).toList.length = min (q.toList.length + 1) c := by
  have hle := q.length_le
  rw [toList_push]
  split_ifs with h
  · rw [List.length_append, List.length_singleton, Nat.min_eq_left (by omega)]
  · rw [Nat.min_eq_right (by omega)]
    omega

theorem push_of_full {q : BoundedFifo α c} (h : q.isFull = true) (x : α) : q.push x = q := by
  have hlen : ¬ q.toList.length < c := by
    simp only [isFull, beq_iff_eq] at h
    omega
  exact dif_neg hlen

end BoundedFifo
