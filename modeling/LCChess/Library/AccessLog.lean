import LCChess.Library.Raster

/-!
# Memories with a log of their accesses

A program that copies blocks between two memories, with every block that it reads from the
source and every block that it writes to the target recorded. A memory access outside an object
shows in the log, where it would not show in the contents.

## Main definitions

* `Block`: an address and a length
* `AccessLog`: a target memory, with the blocks read and written so far
* `AccessLog.Within`: the recorded blocks lie in the source and in the target
* `AccessLog.Explains m`: the memory `m` changed in recorded blocks only

## Main results

* `AccessLog.Explains.outside`: a memory is unchanged outside the bounds of its log
-/

namespace Memory

/-- The `length` bytes from `addr` on. -/
structure Block where
  addr : ℕ
  length : ℕ

/-- The bytes of a block lie below `size`. -/
def Block.Below (size : ℕ) (b : Block) : Prop := b.addr + b.length ≤ size

/-- A target memory, with the blocks read from the source and written to the target so far. -/
structure AccessLog where
  mem : Memory
  reads : List Block
  writes : List Block

namespace AccessLog

/-- A memory that was not accessed yet. -/
def start (m : Memory) : AccessLog := ⟨m, [], []⟩

/-- Read a block of the source. -/
def read (s : AccessLog) (addr n : ℕ) : AccessLog := { s with reads := s.reads ++ [⟨addr, n⟩] }

/-- Write the first `n` bytes of `src` at `addr`. -/
def memcpy (s : AccessLog) (addr : ℕ) (src : Memory) (n : ℕ) : AccessLog :=
  { s with mem := Memory.memcpy s.mem addr src n, writes := s.writes ++ [⟨addr, n⟩] }

@[simp] theorem mem_read (s : AccessLog) (addr n : ℕ) : (s.read addr n).mem = s.mem := rfl

@[simp] theorem mem_memcpy (s : AccessLog) (addr : ℕ) (src : Memory) (n : ℕ) :
    (s.memcpy addr src n).mem = Memory.memcpy s.mem addr src n := rfl

/-- The recorded blocks lie in a source of `sourceSize` and a target of `targetSize` bytes. -/
structure Within (sourceSize targetSize : ℕ) (s : AccessLog) : Prop where
  reads : ∀ b ∈ s.reads, b.Below sourceSize
  writes : ∀ b ∈ s.writes, b.Below targetSize

section Within

variable {sourceSize targetSize : ℕ} {s : AccessLog}

theorem within_start (m : Memory) : (start m).Within sourceSize targetSize := by
  constructor <;> exact fun b hb => absurd hb List.not_mem_nil

theorem Within.read (h : s.Within sourceSize targetSize) {addr n : ℕ}
    (hb : addr + n ≤ sourceSize) : (s.read addr n).Within sourceSize targetSize := by
  refine ⟨fun b hmem => ?_, h.writes⟩
  rcases List.mem_append.mp hmem with hmem | hmem
  · exact h.reads b hmem
  · rw [List.mem_singleton.mp hmem]
    exact hb

theorem Within.memcpy (h : s.Within sourceSize targetSize) {addr n : ℕ} (src : Memory)
    (hb : addr + n ≤ targetSize) : (s.memcpy addr src n).Within sourceSize targetSize := by
  refine ⟨h.reads, fun b hmem => ?_⟩
  rcases List.mem_append.mp hmem with hmem | hmem
  · exact h.writes b hmem
  · rw [List.mem_singleton.mp hmem]
    exact hb

end Within

/-- The memory differs from `m` in the blocks written only. -/
def Explains (m : Memory) (s : AccessLog) : Prop :=
  ∀ a, (∀ b ∈ s.writes, ¬ (b.addr ≤ a ∧ a < b.addr + b.length)) → s.mem a = m a

section Explains

variable {m : Memory} {s : AccessLog}

theorem explains_start (m : Memory) : (start m).Explains m := fun _ _ => rfl

theorem Explains.read (h : s.Explains m) (addr n : ℕ) : (s.read addr n).Explains m := h

theorem Explains.memcpy (h : s.Explains m) (addr : ℕ) (src : Memory) (n : ℕ) :
    (s.memcpy addr src n).Explains m := by
  intro a ha
  have hlast := ha ⟨addr, n⟩ (List.mem_append_right _ (List.mem_singleton_self _))
  rw [mem_memcpy, memcpy_of_not_mem _ _ hlast]
  exact h a fun b hb => ha b (List.mem_append_left _ hb)

/-- A memory is unchanged outside the bounds of its log. -/
theorem Explains.outside (h : s.Explains m) {sourceSize targetSize : ℕ}
    (hwithin : s.Within sourceSize targetSize) {a : ℕ} (ha : targetSize ≤ a) :
    s.mem a = m a := by
  apply h a
  intro b hb hin
  have hbelow : b.addr + b.length ≤ targetSize := hwithin.writes b hb
  omega

end Explains

end AccessLog

end Memory
