import Mathlib.Data.List.Basic
import Mathlib.Data.List.Range
import Mathlib.Data.Nat.ModEq
import Mathlib.Tactic.Common

/-!
# Circular buffers

The `size` elements of a circular buffer of `capacity` slots lie in the slots
`front, front + 1, …` modulo `capacity`. Writing the slot behind the last element appends it,
and advancing `front` drops the first.

## Main definitions

* `slot capacity front k`: the slot of the `k`-th element
* `contents array capacity front size`: the elements, first one first

## Main results

* `contents_push`: writing the free slot appends
* `contents_pop`: the first element and the rest
* `head_contents`, `getLast_contents`: the slots of the first and of the last element
-/

namespace RingBuffer

variable {α : Type*}

/-- The slot of the `k`-th element. -/
def slot (capacity front k : ℕ) : ℕ := (front + k) % capacity

/-- Two elements of one buffer lie in different slots. -/
theorem slot_injective {capacity front j k : ℕ} (hj : j < capacity) (hk : k < capacity)
    (h : slot capacity front j = slot capacity front k) : j = k := by
  have hmod : j % capacity = k % capacity :=
    Nat.ModEq.add_left_cancel' front (show (front + j) ≡ (front + k) [MOD capacity] from h)
  rwa [Nat.mod_eq_of_lt hj, Nat.mod_eq_of_lt hk] at hmod

/-- Advancing the front moves every element one place forward. -/
theorem slot_succ (capacity front k : ℕ) :
    slot capacity ((front + 1) % capacity) k = slot capacity front (k + 1) := by
  simp only [slot, Nat.mod_add_mod]
  congr 1
  omega

/-- The elements of the buffer, first one first. -/
def contents (array : ℕ → α) (capacity front size : ℕ) : List α :=
  (List.range size).map fun k => array (slot capacity front k)

@[simp] theorem contents_zero (array : ℕ → α) (capacity front : ℕ) :
    contents array capacity front 0 = [] := rfl

@[simp] theorem length_contents (array : ℕ → α) (capacity front size : ℕ) :
    (contents array capacity front size).length = size := by simp [contents]

/-- Writing the slot behind the last element appends the value. -/
theorem contents_push (array : ℕ → α) {capacity front size : ℕ} (hsize : size < capacity)
    (x : α) :
    contents (Function.update array (slot capacity front size) x) capacity front (size + 1) =
      contents array capacity front size ++ [x] := by
  have hold : ∀ k ∈ List.range size,
      Function.update array (slot capacity front size) x (slot capacity front k) =
        array (slot capacity front k) := by
    intro k hk
    have hk : k < size := List.mem_range.mp hk
    refine Function.update_of_ne (fun he => ?_) _ _
    have := slot_injective (hk.trans hsize) hsize he
    omega
  simp only [contents, List.range_succ, List.map_append, List.map_singleton,
    Function.update_self]
  rw [List.map_congr_left hold]

/-- The first element, and the buffer behind it. -/
theorem contents_pop (array : ℕ → α) {capacity front : ℕ} (hfront : front < capacity)
    (size : ℕ) :
    contents array capacity front (size + 1) =
      array front :: contents array capacity ((front + 1) % capacity) size := by
  simp only [contents, List.range_succ_eq_map, List.map_cons, List.map_map]
  congr 1
  · simp [slot, Nat.mod_eq_of_lt hfront]
  · exact List.map_congr_left fun k _ => by simp [slot_succ]

/-- The first element lies in the slot `front`. -/
theorem head_contents (array : ℕ → α) {capacity front size : ℕ} (hfront : front < capacity)
    (hsize : 0 < size) : (contents array capacity front size).head? = some (array front) := by
  obtain ⟨n, rfl⟩ := Nat.exists_eq_succ_of_ne_zero hsize.ne'
  rw [contents_pop array hfront, List.head?_cons]

/-- The last element lies in the slot of its index. -/
theorem getLast_contents (array : ℕ → α) (capacity front : ℕ) {size : ℕ} (hsize : 0 < size) :
    (contents array capacity front size).getLast? =
      some (array (slot capacity front (size - 1))) := by
  obtain ⟨n, rfl⟩ := Nat.exists_eq_succ_of_ne_zero hsize.ne'
  simp [contents, List.range_succ]

/-- The slot before the free slot is the slot of the last element. -/
theorem eq_slot_of_succ {capacity front size rear : ℕ} (hrear : rear < capacity)
    (hsize : 0 < size) (h : (rear + 1) % capacity = (front + size) % capacity) :
    rear = slot capacity front (size - 1) := by
  have hsucc : front + size = front + (size - 1) + 1 := by omega
  have hmod : rear % capacity = (front + (size - 1)) % capacity :=
    Nat.ModEq.add_right_cancel' 1 (show rear + 1 ≡ _ [MOD capacity] from hsucc ▸ h)
  rwa [Nat.mod_eq_of_lt hrear] at hmod

end RingBuffer
