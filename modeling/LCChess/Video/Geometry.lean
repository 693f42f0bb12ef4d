import Mathlib.Algebra.Order.Ring.Int
import Mathlib.Tactic.Common

/-!
# Board geometry

The screen geometry that `initBoard` and `map_vram` set up, and the conversions of `board.c`
between board squares and screen coordinates. The arithmetic is that of C: `int` arguments are
converted to 32-bit `unsigned`, and the results back to `int`.

## Main definitions

* `Geometry`, `mode115`: the geometry, and that of video mode `0x115`
* `getScreenX`, `getScreenY`, `getBoardX`, `getBoardY`: the conversions
* `screenOf`, `squareOf`: the two conversions along one axis
* `Inverse`: the conversions of one axis undo each other

## Main results

* `squareOf_eq_iff`, `squareOf_screenOf_onBoard_iff`: the pixels of a square, and the squares off
  the board
* `coordinates_inverse`: pixels and squares are inverse in every geometry
* `getScreenX_mode115`, `getBoardX_mode115_eq`: the conversions of mode `0x115`
-/

namespace LCChess

/-- Conversion to 32-bit `unsigned`. -/
def u32 (z : ℤ) : ℕ := (z % 4294967296).toNat

/-- Conversion to 32-bit `int`. -/
def i32 (z : ℤ) : ℤ := (z + 2147483648) % 4294967296 - 2147483648

/-- Conversion to `uint16_t`. -/
def u16 (z : ℤ) : ℕ := (z % 65536).toNat

/-- The resolution of `vmi_p`, and the globals of `board.c` that `initBoard` computes from it. -/
structure Geometry where
  xResolution : ℕ
  yResolution : ℕ
  bytesPerPixel : ℕ
  verticalMargin : ℕ
  rectangleWidth : ℕ
  rectangleHeight : ℕ
  leftRectangleWidth : ℕ

/-- Mode `0x115`: 800 by 600 pixels of 24 bits. The squares are `(600 - 128) / 8 = 59` pixels
wide and high, and a fifth of the `800 - 8 * 59` remaining columns, rounded down, lies on the
left of the board. -/
def mode115 : Geometry where
  xResolution := 800
  yResolution := 600
  bytesPerPixel := 3
  verticalMargin := 128
  rectangleWidth := 59
  rectangleHeight := 59
  leftRectangleWidth := 65

/-- `getScreenX`. -/
def getScreenX (g : Geometry) (col : ℤ) : ℤ :=
  i32 (col * g.rectangleWidth + g.leftRectangleWidth)

/-- `getScreenY`. -/
def getScreenY (g : Geometry) (row : ℤ) : ℤ :=
  i32 (((g.verticalMargin / 2 : ℕ) : ℤ) + row * g.rectangleHeight)

/-- `getBoardX`: an unsigned division, so that a pixel left of the board gives a huge column. -/
def getBoardX (g : Geometry) (absoluteX : ℤ) : ℤ :=
  if g.rectangleWidth ≠ 0 then
    i32 ((u32 (absoluteX - g.leftRectangleWidth) / g.rectangleWidth : ℕ) : ℤ)
  else -1

/-- `getBoardY`. -/
def getBoardY (g : Geometry) (absoluteY : ℤ) : ℤ :=
  if g.rectangleHeight ≠ 0 then
    i32 ((u32 (absoluteY - (g.verticalMargin / 2 : ℕ)) / g.rectangleHeight : ℕ) : ℤ)
  else -1

/-- The test `y>=0 && y<8 && x>=0 && x<8` of the mouse handler. -/
def OnBoard (x y : ℤ) : Prop := 0 ≤ y ∧ y < 8 ∧ 0 ≤ x ∧ x < 8

instance (x y : ℤ) : Decidable (OnBoard x y) := by unfold OnBoard; infer_instance

/-! ## The conversions to machine integers -/

theorem i32_of_small {z : ℤ} (h : 0 ≤ z) (h' : z < 2147483648) : i32 z = z := by
  unfold i32
  omega

theorem u32_of_nonneg {z : ℤ} (h : 0 ≤ z) (h' : z < 4294967296) : (u32 z : ℤ) = z := by
  unfold u32
  omega

theorem u32_of_neg {z : ℤ} (h : z < 0) (h' : -4294967296 ≤ z) :
    (u32 z : ℤ) = z + 4294967296 := by
  unfold u32
  omega

theorem u16_of_nonneg {z : ℤ} (h : 0 ≤ z) (h' : z < 65536) : (u16 z : ℤ) = z := by
  unfold u16
  omega

theorem u16_of_neg {z : ℤ} (h : z < 0) (h' : -65536 ≤ z) : (u16 z : ℤ) = z + 65536 := by
  unfold u16
  omega

/-! ## One axis -/

/-- The pixel at which square `c` of an axis begins. -/
def screenOf (margin size : ℕ) (c : ℤ) : ℤ := i32 (c * size + margin)

/-- The square of pixel `p` of an axis. -/
def squareOf (margin size : ℕ) (p : ℤ) : ℤ :=
  if size ≠ 0 then i32 ((u32 (p - margin) / size : ℕ) : ℤ) else -1

theorem getScreenX_eq (g : Geometry) :
    getScreenX g = screenOf g.leftRectangleWidth g.rectangleWidth := rfl

theorem getScreenY_eq (g : Geometry) :
    getScreenY g = screenOf (g.verticalMargin / 2) g.rectangleHeight := by
  funext row
  unfold getScreenY screenOf
  rw [add_comm]

theorem getBoardX_eq (g : Geometry) :
    getBoardX g = squareOf g.leftRectangleWidth g.rectangleWidth := rfl

theorem getBoardY_eq (g : Geometry) :
    getBoardY g = squareOf (g.verticalMargin / 2) g.rectangleHeight := rfl

section Axis

variable {margin size : ℕ} (hsize : 1 ≤ size) (hfit : margin + 15 * size ≤ 65536)
include hsize hfit

omit hsize in
/-- The squares from seven left of the board to seven right of it do not wrap around 32 bits. -/
theorem screenOf_eq {c : ℤ} (h : -7 ≤ c) (h' : c ≤ 14) :
    screenOf margin size c = c * size + margin := by
  have hlow : -7 * (size : ℤ) ≤ c * size := mul_le_mul_of_nonneg_right h (Int.natCast_nonneg _)
  have hhigh : c * size ≤ 14 * (size : ℤ) := mul_le_mul_of_nonneg_right h' (Int.natCast_nonneg _)
  unfold screenOf i32
  omega

/-- From the margin on, the square is the plain quotient. -/
theorem squareOf_of_ge {p : ℤ} (h : margin ≤ p) (h' : p < 65536) :
    squareOf margin size p = (p - margin) / size := by
  have hu : (u32 (p - margin) : ℤ) = p - margin := u32_of_nonneg (by omega) (by omega)
  have hle : (p - margin) / size ≤ p - margin := Int.ediv_le_self _ (by omega)
  have hnonneg : 0 ≤ (p - margin) / size := Int.ediv_nonneg (by omega) (by omega)
  rw [squareOf, if_pos (by omega), Int.natCast_ediv, hu, i32_of_small hnonneg (by omega)]

/-- A pixel in the margin wraps around 32 bits, and lands off the board. -/
theorem squareOf_of_lt {p : ℤ} (h : 0 ≤ p) (h' : p < margin) :
    ¬ (0 ≤ squareOf margin size p ∧ squareOf margin size p ≤ 7) := by
  have hu : (u32 (p - margin) : ℤ) = p - margin + 4294967296 :=
    u32_of_neg (by omega) (by omega)
  rw [squareOf, if_pos (by omega)]
  rcases Nat.lt_or_eq_of_le hsize with hlarge | rfl
  -- a quotient by two or more fits an `int`, and is huge
  · have hhalf : u32 (p - margin) / size ≤ u32 (p - margin) / 2 :=
      Nat.div_le_div_left hlarge (by omega)
    have hhuge : 8 ≤ u32 (p - margin) / size := by
      rw [Nat.le_div_iff_mul_le (by omega)]
      omega
    rw [i32_of_small (by omega) (by omega)]
    omega
  -- squares of one pixel: the conversion back to `int` undoes the wrap
  · rw [Nat.div_one, hu, i32]
    omega

/-- The board, in pixels. -/
theorem squareOf_onBoard_iff {p : ℤ} (h : 0 ≤ p) (h' : p < 65536) :
    (0 ≤ squareOf margin size p ∧ squareOf margin size p ≤ 7) ↔
      margin ≤ p ∧ p < margin + 8 * size := by
  rcases lt_or_ge p margin with hp | hp
  · exact iff_of_false (squareOf_of_lt hsize hfit h hp) (by omega)
  · have hnonneg : 0 ≤ (p - margin) / size := Int.ediv_nonneg (by omega) (by omega)
    have hlast : (p - margin) / size < 8 ↔ p - margin < 8 * size :=
      Int.ediv_lt_iff_lt_mul (by omega)
    rw [squareOf_of_ge hsize hfit hp h']
    omega

/-- The pixels of one square. -/
theorem squareOf_eq_iff {p : ℤ} (h : 0 ≤ p) (h' : p < 65536) {c : ℤ} (hc : 0 ≤ c) (hc' : c ≤ 7) :
    squareOf margin size p = c ↔ c * size + margin ≤ p ∧ p < c * size + margin + size := by
  have hnonneg : 0 ≤ c * (size : ℤ) := Int.mul_nonneg hc (Int.natCast_nonneg _)
  rcases lt_or_ge p margin with hp | hp
  · refine iff_of_false ?_ (by omega)
    rintro rfl
    exact squareOf_of_lt hsize hfit h hp ⟨hc, hc'⟩
  · rw [squareOf_of_ge hsize hfit hp h', Int.ediv_eq_iff_of_pos (by omega)]
    omega

/-- A square off the board, converted to `uint16_t` pixels and back, is still off the board. -/
theorem squareOf_screenOf_onBoard_iff {c : ℤ} (h : -7 ≤ c) (h' : c ≤ 14) :
    (0 ≤ squareOf margin size (u16 (screenOf margin size c)) ∧
      squareOf margin size (u16 (screenOf margin size c)) ≤ 7) ↔ 0 ≤ c ∧ c ≤ 7 := by
  have hlow : -7 * (size : ℤ) ≤ c * size := mul_le_mul_of_nonneg_right h (Int.natCast_nonneg _)
  have hhigh : c * size ≤ 14 * (size : ℤ) := mul_le_mul_of_nonneg_right h' (Int.natCast_nonneg _)
  rw [screenOf_eq hfit h h']
  have hrange : u16 (c * size + margin) < 65536 := by
    unfold u16
    omega
  rw [squareOf_onBoard_iff hsize hfit (Int.natCast_nonneg _) (by omega)]
  rcases lt_or_ge c 0 with hc | hc
  · have hneg : c * (size : ℤ) ≤ -1 * size :=
      mul_le_mul_of_nonneg_right (by omega) (Int.natCast_nonneg _)
    rcases lt_or_ge (c * (size : ℤ) + margin) 0 with hp | hp
    · rw [u16_of_neg hp (by omega)]
      omega
    · rw [u16_of_nonneg hp (by omega)]
      omega
  · have hnonneg : 0 ≤ c * (size : ℤ) := Int.mul_nonneg hc (Int.natCast_nonneg _)
    rw [u16_of_nonneg (by omega) (by omega)]
    have hiff : c ≤ 7 ↔ c * (size : ℤ) < 8 * size := by
      rw [mul_lt_mul_iff_left₀ (by omega)]
      omega
    omega

end Axis

/-- The conversions of one axis undo each other: each `uint16_t` pixel of the board lies in the
square it is converted to, each pixel of a square is converted to it, and a square up to seven
off the board is still off the board behind the conversion to `uint16_t` pixels and back. -/
structure Inverse (getScreen getBoard : ℤ → ℤ) (margin size : ℕ) : Prop where
  onBoard_iff : ∀ p : UInt16, (0 ≤ getBoard p.toNat ∧ getBoard p.toNat ≤ 7) ↔
    margin ≤ p.toNat ∧ p.toNat < margin + 8 * size
  inSquare : ∀ p : UInt16, 0 ≤ getBoard p.toNat → getBoard p.toNat ≤ 7 →
    getScreen (getBoard p.toNat) ≤ p.toNat ∧ p.toNat < getScreen (getBoard p.toNat) + size
  square : ∀ c d : ℤ, 0 ≤ c → c ≤ 7 → 0 ≤ d → d < size → getBoard (getScreen c + d) = c
  offBoard : ∀ c : ℤ, -7 ≤ c → c ≤ 14 → ¬ (0 ≤ c ∧ c ≤ 7) →
    ¬ (0 ≤ getBoard (u16 (getScreen c)) ∧ getBoard (u16 (getScreen c)) ≤ 7)

theorem inverse_axis {margin size : ℕ} (hsize : 1 ≤ size) (hfit : margin + 15 * size ≤ 65536) :
    Inverse (screenOf margin size) (squareOf margin size) margin size := by
  refine ⟨fun p => ?_, fun p h h' => ?_, fun c d hc hc' hd hd' => ?_, fun c h h' hoff hon => ?_⟩
  · have hp := p.toNat_lt
    rw [squareOf_onBoard_iff hsize hfit (by omega) (by omega)]
    omega
  · have hp := p.toNat_lt
    rw [screenOf_eq hfit (by omega) (by omega)]
    exact (squareOf_eq_iff hsize hfit (by omega) (by omega) h h').mp rfl
  · have hnonneg : 0 ≤ c * (size : ℤ) := Int.mul_nonneg hc (Int.natCast_nonneg _)
    have hlast : c * size ≤ 7 * (size : ℤ) :=
      mul_le_mul_of_nonneg_right hc' (Int.natCast_nonneg _)
    rw [screenOf_eq hfit (by omega) (by omega),
      squareOf_eq_iff hsize hfit (by omega) (by omega) hc hc']
    omega
  · exact hoff ((squareOf_screenOf_onBoard_iff hsize hfit h h').mp hon)

/-- **Pixels and squares are inverse**, in columns and in rows, for every geometry whose squares
are not empty and fit `uint16_t` pixels, with room for seven more squares. -/
theorem coordinates_inverse (g : Geometry) :
    (1 ≤ g.rectangleWidth → g.leftRectangleWidth + 15 * g.rectangleWidth ≤ 65536 →
      Inverse (getScreenX g) (getBoardX g) g.leftRectangleWidth g.rectangleWidth) ∧
    (1 ≤ g.rectangleHeight → g.verticalMargin / 2 + 15 * g.rectangleHeight ≤ 65536 →
      Inverse (getScreenY g) (getBoardY g) (g.verticalMargin / 2) g.rectangleHeight) := by
  rw [getScreenX_eq, getScreenY_eq, getBoardX_eq, getBoardY_eq]
  exact ⟨inverse_axis, inverse_axis⟩

/-- The squares of mode `0x115`. -/
theorem coordinates_inverse_mode115 :
    Inverse (getScreenX mode115) (getBoardX mode115) 65 59 ∧
      Inverse (getScreenY mode115) (getBoardY mode115) 64 59 :=
  ⟨(coordinates_inverse mode115).1 (by decide) (by decide),
    (coordinates_inverse mode115).2 (by decide) (by decide)⟩

/-! ## Mode `0x115` -/

theorem getScreenX_mode115 {col : ℤ} (h : -7 ≤ col) (h' : col ≤ 14) :
    getScreenX mode115 col = 59 * col + 65 := by
  have hscreen : getScreenX mode115 col = col * 59 + 65 := screenOf_eq (by decide) h h'
  omega

theorem getScreenY_mode115 {row : ℤ} (h : -7 ≤ row) (h' : row ≤ 14) :
    getScreenY mode115 row = 59 * row + 64 := by
  have hscreen : getScreenY mode115 row = row * 59 + 64 := by
    rw [getScreenY_eq]
    exact screenOf_eq (by decide) h h'
  omega

/-- An unsigned 32-bit number divided by the 59 pixels of a square fits an `int`. -/
theorem i32_div_59 (z : ℤ) : i32 ((u32 z / 59 : ℕ) : ℤ) = (u32 z : ℤ) / 59 := by
  have hlt : u32 z < 4294967296 := by unfold u32; omega
  rw [i32_of_small (by omega) (by omega)]
  omega

theorem getBoardX_mode115_eq (p : ℤ) :
    getBoardX mode115 p = (u32 (p - 65) : ℤ) / 59 := by
  simp only [getBoardX, mode115, ne_eq, OfNat.ofNat_ne_zero, not_false_eq_true, if_true,
    Nat.cast_ofNat, i32_div_59]

theorem getBoardY_mode115_eq (p : ℤ) :
    getBoardY mode115 p = (u32 (p - 64) : ℤ) / 59 := by
  simp only [getBoardY, mode115, ne_eq, OfNat.ofNat_ne_zero, not_false_eq_true, if_true,
    Nat.cast_ofNat, Nat.reduceDiv, i32_div_59]

/-- A column off the board, converted to the screen and back, is still off the board. -/
theorem getBoardX_getScreenX_mode115 {col : ℤ} (h : -7 ≤ col) (h' : col ≤ 14) :
    (0 ≤ getBoardX mode115 (u16 (getScreenX mode115 col)) ∧
      getBoardX mode115 (u16 (getScreenX mode115 col)) ≤ 7) ↔ 0 ≤ col ∧ col < 8 := by
  have hiff := squareOf_screenOf_onBoard_iff (show 1 ≤ 59 by decide)
    (show 65 + 15 * 59 ≤ 65536 by decide) h h'
  rw [getScreenX_eq, getBoardX_eq]
  exact hiff.trans (by omega)

theorem getBoardY_getScreenY_mode115 {row : ℤ} (h : -7 ≤ row) (h' : row ≤ 14) :
    (0 ≤ getBoardY mode115 (u16 (getScreenY mode115 row)) ∧
      getBoardY mode115 (u16 (getScreenY mode115 row)) ≤ 7) ↔ 0 ≤ row ∧ row < 8 := by
  have hiff := squareOf_screenOf_onBoard_iff (show 1 ≤ 59 by decide)
    (show 64 + 15 * 59 ≤ 65536 by decide) h h'
  rw [getScreenY_eq, getBoardY_eq]
  exact hiff.trans (by omega)

end LCChess
