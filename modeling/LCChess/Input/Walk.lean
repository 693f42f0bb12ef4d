import LCChess.Input.Cursor

/-!
# Leading the cursor

Where a user can lead the cursor. Packets of one count each, which the mouse can send, lead it to
every pixel of the screen that it reaches at all, with the button up or down.

## Main definitions

* `Packet.FromMouse`: the packet is one that the mouse sends
* `nudge`: the packet of one count towards a pixel
* `Cursor.distance`: how far the cursor is from a pixel

## Main results

* `fromMouse_nudge`: three bytes of the mouse decode to it
* `distance_nudge`: it brings the cursor closer
-/

namespace LCChess

/-- Three bytes of the mouse, the first one marked by `FIRST_BYTE`, decode to the packet. -/
def Packet.FromMouse (pp : Packet) : Prop :=
  ∃ b0 b1 b2 : UInt8, b0 &&& 0x08 ≠ 0 ∧ decodePacket b0 b1 b2 = pp

/-- One count from `z` towards `target`, or none. -/
def count (z target : ℤ) : Int16 := if z < target then 1 else if target < z then -1 else 0

/-- The packet of one count from the cursor towards the pixel `(x, y)`. -/
def nudge (lb : Bool) (cursor : Cursor) (x y : ℤ) : Packet where
  lb := lb
  mb := false
  rb := false
  xOv := false
  yOv := false
  deltaX := count cursor.x.toNat x
  -- the mouse counts up the screen
  deltaY := count y cursor.y.toNat

/-- How far the cursor is from the pixel `(x, y)`. -/
def Cursor.distance (cursor : Cursor) (x y : ℤ) : ℕ :=
  (cursor.x.toNat - x).natAbs + (cursor.y.toNat - y).natAbs

theorem Cursor.distance_eq_zero {cursor : Cursor} {x y : ℤ} :
    cursor.distance x y = 0 ↔ (cursor.x.toNat : ℤ) = x ∧ (cursor.y.toNat : ℤ) = y := by
  unfold distance
  omega

theorem count_cases (z target : ℤ) :
    count z target = -1 ∨ count z target = 0 ∨ count z target = 1 := by
  unfold count
  split_ifs <;> simp

/-- Every packet of one count comes from the mouse. -/
theorem fromMouse_nudge (lb : Bool) (cursor : Cursor) (x y : ℤ) :
    (nudge lb cursor x y).FromMouse := by
  have hbytes : ∀ dx dy : Int16, dx = -1 ∨ dx = 0 ∨ dx = 1 → dy = -1 ∨ dy = 0 ∨ dy = 1 →
      Packet.FromMouse ⟨lb, false, false, false, false, dx, dy⟩ := by
    rintro dx dy hdx hdy
    refine ⟨0x08 ||| (if lb then 0x01 else 0) ||| (if dx = -1 then 0x10 else 0) |||
      (if dy = -1 then 0x20 else 0), UInt8.ofInt dx.toInt, UInt8.ofInt dy.toInt, ?_, ?_⟩ <;>
    obtain rfl | rfl | rfl := hdx <;> obtain rfl | rfl | rfl := hdy <;> cases lb <;> decide
  exact hbytes _ _ (count_cases _ _) (count_cases _ _)

/-- Within the screen, one count brings a coordinate closer. -/
theorem natAbs_clampTo_count {hi z target : ℤ} (h : 0 ≤ target) (h' : target ≤ hi) :
    (clampTo hi (z + (count z target).toInt) - target).natAbs ≤ (z - target).natAbs - 1 ∧
      (clampTo hi (z - (count target z).toInt) - target).natAbs ≤ (z - target).natAbs - 1 := by
  have hcount : ∀ a b : ℤ,
      (count a b).toInt = if a < b then 1 else if b < a then -1 else 0 := by
    intro a b
    unfold count
    split_ifs <;> decide
  rw [hcount, hcount]
  unfold clampTo
  constructor <;> split_ifs <;> omega

/-- **A packet of one count brings the cursor closer** to a pixel that it can reach. -/
theorem distance_nudge {g : Geometry} (hx : 12 ≤ g.xResolution) (hx' : g.xResolution < 65536)
    (hy : 20 ≤ g.yResolution) (hy' : g.yResolution < 65536) (lb : Bool) (cursor : Cursor) {x y : ℤ}
    (h : 0 ≤ x ∧ x ≤ g.xResolution - 12) (h' : 0 ≤ y ∧ y ≤ g.yResolution - 20) :
    (updateCursor g (nudge lb cursor x y) cursor).distance x y ≤ cursor.distance x y - 1 := by
  have hcolumn := (natAbs_clampTo_count (z := cursor.x.toNat) h.1 h.2).1
  have hrow := (natAbs_clampTo_count (z := cursor.y.toNat) h'.1 h'.2).2
  unfold Cursor.distance
  rw [x_updateCursor _ _ hx hx', y_updateCursor _ _ hy hy']
  simp only [nudge]
  omega

/-! ## Squares -/

/-- The cursor on the first pixel of a square is in the square. -/
theorem inSquare_mode115 {cursor : Cursor} {x y : ℤ} (hon : OnBoard x y)
    (h : (cursor.x.toNat : ℤ) = 59 * x + 65 ∧ (cursor.y.toNat : ℤ) = 59 * y + 64) :
    getBoardX mode115 cursor.x.toNat = x ∧ getBoardY mode115 cursor.y.toNat = y := by
  obtain ⟨hy, hy', hx, hx'⟩ := hon
  rw [h.1, h.2, getBoardX_mode115_eq, getBoardY_mode115_eq, u32_of_nonneg (by omega) (by omega),
    u32_of_nonneg (by omega) (by omega)]
  omega

end LCChess
