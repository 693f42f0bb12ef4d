import Mathlib.Data.List.Basic
import Mathlib.Data.Nat.Init
import Mathlib.Tactic.Common

/-!
# Byte memories and row-major rasters

A byte memory is a function of the address. A raster stores the cells of a grid row by row,
`size` bytes each; the blocks of different cells are disjoint, so writing one cell changes
the bytes of that cell and no others.

## Main definitions

* `Memory`, `memcpy m addr src n`, `sameBytes m addr src n`: blocks of bytes
* `cellAddr width size x y`: the address of the cell in column `x` of row `y`

## Main results

* `cellAddr_add_le`: the cells lie in the raster
* `memcpy_cell`: the bytes of a raster after writing one cell
-/

/-- A byte memory: the content of every address. -/
abbrev Memory := ℕ → UInt8

namespace Memory

/-- Write the first `n` bytes of `src` at `addr`. -/
def memcpy (m : Memory) (addr : ℕ) (src : Memory) (n : ℕ) : Memory :=
  fun a => if addr ≤ a ∧ a < addr + n then src (a - addr) else m a

/-- `memcmp(m + addr, src, n) == 0`. -/
def sameBytes (m : Memory) (addr : ℕ) (src : Memory) (n : ℕ) : Bool :=
  (List.range n).all fun k => m (addr + k) == src k

theorem sameBytes_iff (m : Memory) (addr : ℕ) (src : Memory) (n : ℕ) :
    sameBytes m addr src n = true ↔ ∀ k < n, m (addr + k) = src k := by
  simp [sameBytes]

/-- A copy leaves the bytes outside its range alone. -/
theorem memcpy_of_not_mem (m : Memory) {addr : ℕ} (src : Memory) {n a : ℕ}
    (h : ¬ (addr ≤ a ∧ a < addr + n)) : memcpy m addr src n a = m a := if_neg h

/-- A copy reads no byte it does not write. -/
theorem memcpy_congr {m m' : Memory} (addr : ℕ) (src : Memory) (n : ℕ) {a : ℕ} (h : m a = m' a) :
    memcpy m addr src n a = memcpy m' addr src n a := by
  unfold memcpy
  rw [h]

/-- The address of the cell in column `x` of row `y`. -/
def cellAddr (width size x y : ℕ) : ℕ := (y * width + x) * size

/-- A raster of `width` by `height` cells holds the bytes of its cells. -/
theorem cellAddr_add_le {width height size x y : ℕ} (hx : x < width) (hy : y < height) :
    cellAddr width size x y + size ≤ width * height * size := by
  have hrow : y * width + x + 1 ≤ (y + 1) * width := by
    rw [Nat.succ_mul]
    omega
  have hlast := Nat.mul_le_mul_right width (show y + 1 ≤ height from hy)
  rw [Nat.mul_comm height] at hlast
  have hbytes := Nat.mul_le_mul_right size (Nat.le_trans hrow hlast)
  rwa [Nat.succ_mul] at hbytes

/-- The bytes of two cells of a row-major raster share an address only if the cells agree. -/
theorem cell_block_iff {width size x y px py k : ℕ} (hx : x < width) (hpx : px < width)
    (hk : k < size) :
    (cellAddr width size x y ≤ cellAddr width size px py + k ∧
        cellAddr width size px py + k < cellAddr width size x y + size) ↔
      px = x ∧ py = y := by
  have hsize : 0 < size := by omega
  constructor
  · rintro ⟨hle, hlt⟩
    have hdiv : (cellAddr width size px py + k) / size = py * width + px := by
      rw [cellAddr, Nat.mul_comm, Nat.mul_add_div hsize, Nat.div_eq_of_lt hk, Nat.add_zero]
    have hdiv' : (cellAddr width size px py + k) / size = y * width + x := by
      apply Nat.div_eq_of_lt_le hle
      rw [Nat.succ_mul]
      exact hlt
    have hlin : py * width + px = y * width + x := hdiv.symm.trans hdiv'
    have hmod : px = x := by
      have := congrArg (· % width) hlin
      simpa [Nat.mul_add_mod', Nat.mod_eq_of_lt hx, Nat.mod_eq_of_lt hpx] using this
    have hwidth : 0 < width := by omega
    refine ⟨hmod, Nat.eq_of_mul_eq_mul_right hwidth ?_⟩
    omega
  · rintro ⟨rfl, rfl⟩
    omega

/-- Writing one cell changes the bytes of that cell and no others. -/
theorem memcpy_cell (m src : Memory) {width size x y px py k : ℕ} (hx : x < width)
    (hpx : px < width) (hk : k < size) :
    memcpy m (cellAddr width size x y) src size (cellAddr width size px py + k) =
      if px = x ∧ py = y then src k else m (cellAddr width size px py + k) := by
  unfold memcpy
  rw [if_congr (cell_block_iff hx hpx hk) rfl rfl]
  split
  · rename_i h
    rw [h.1, h.2, Nat.add_sub_cancel_left]
  · rfl

end Memory
