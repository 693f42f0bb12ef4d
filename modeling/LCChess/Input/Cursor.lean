import LCChess.Input.Mouse
import LCChess.Video.Geometry
import Mathlib.Data.List.Induction

/-!
# The cursor

The mouse cursor of `cursor.c`: its position is clamped to the screen, and its button flags
follow the left button of the packets.

## Main definitions

* `Cursor`, `initCursor`, `updateCursor`
* `clampTo`: the clamp to an interval from zero on
* `Tracks`: what one packet does to the cursor

## Main results

* `x_updateCursor`, `y_updateCursor`: the position after a packet
* `pressed_updateCursor`, `released_updateCursor`: the flags after a packet
* `cursor_tracks`: the cursor along every sequence of packets
-/

namespace LCChess

/-- `Cursor`, without the image, which is always the arrow. -/
structure Cursor where
  x : UInt16
  y : UInt16
  pressed : Bool
  released : Bool
deriving DecidableEq

/-- `initCursor`. -/
def initCursor (cursor : Cursor) : Cursor := { cursor with x := 0, y := 0 }

/-- `updateCursor`. -/
def updateCursor (g : Geometry) (pp : Packet) (cursor : Cursor) : Cursor :=
  let x : ℤ := pp.deltaX.toInt
  let y : ℤ := pp.deltaY.toInt
  let cursor := { cursor with released := false }
  let cursor := { cursor with
    x :=
      if (cursor.x.toNat : ℤ) < -x then 0
      else if (cursor.x.toNat : ℤ) + x + 11 ≥ g.xResolution then
        UInt16.ofInt (g.xResolution - 12)
      else UInt16.ofInt (cursor.x.toNat + x)
    y :=
      if (cursor.y.toNat : ℤ) < y then 0
      else if (cursor.y.toNat : ℤ) - y + 19 ≥ g.yResolution then
        UInt16.ofInt (g.yResolution - 20)
      else UInt16.ofInt (cursor.y.toNat - y) }
  if pp.lb && !cursor.pressed then { cursor with pressed := true }
  else if !pp.lb && cursor.pressed then { cursor with pressed := false, released := true }
  else cursor

/-- `pressed` is the left button of the last packet. -/
@[simp] theorem pressed_updateCursor (g : Geometry) (pp : Packet) (cursor : Cursor) :
    (updateCursor g pp cursor).pressed = pp.lb := by
  cases hlb : pp.lb <;> cases hpressed : cursor.pressed <;> simp [updateCursor, hlb, hpressed]

/-- `released` marks the packet at which the button went up. -/
@[simp] theorem released_updateCursor (g : Geometry) (pp : Packet) (cursor : Cursor) :
    (updateCursor g pp cursor).released = (!pp.lb && cursor.pressed) := by
  cases hlb : pp.lb <;> cases hpressed : cursor.pressed <;> simp [updateCursor, hlb, hpressed]

/-! ## The position -/

/-- The value in `0 .. hi` that is closest to `z`. -/
def clampTo (hi z : ℤ) : ℤ := max 0 (min hi z)

theorem clampTo_mem {hi : ℤ} (h : 0 ≤ hi) (z : ℤ) : 0 ≤ clampTo hi z ∧ clampTo hi z ≤ hi := by
  unfold clampTo
  omega

theorem clampTo_of_mem {hi z : ℤ} (h : 0 ≤ z) (h' : z ≤ hi) : clampTo hi z = z := by
  unfold clampTo
  omega

/-- The three branches of a coordinate clamp it to `0 .. hi`. -/
theorem toNat_clamp {hi z : ℤ} (h : 0 ≤ hi) (h' : hi < 65536) {p q : Prop} [Decidable p]
    [Decidable q] (hp : p ↔ z < 0) (hq : q ↔ hi < z) :
    ((if p then (0 : UInt16) else if q then UInt16.ofInt hi else UInt16.ofInt z).toNat : ℤ) =
      clampTo hi z := by
  have hofInt : ∀ w : ℤ, 0 ≤ w → w < 65536 → ((UInt16.ofInt w).toNat : ℤ) = w := by
    intro w hw hw'
    simp only [UInt16.ofInt, UInt16.toNat_ofNat']
    omega
  unfold clampTo
  split_ifs with hpz hqz
  · rw [hp] at hpz
    simp only [UInt16.toNat_zero]
    omega
  · rw [hq] at hqz
    rw [hofInt hi h h']
    omega
  · rw [hp] at hpz
    rw [hq] at hqz
    rw [hofInt z (by omega) (by omega)]
    omega

section Position

variable {g : Geometry} (pp : Packet) (cursor : Cursor)

/-- The column moves by `delta_x`, within the screen less the width of the arrow. -/
theorem x_updateCursor (h : 12 ≤ g.xResolution) (h' : g.xResolution < 65536) :
    ((updateCursor g pp cursor).x.toNat : ℤ) =
      clampTo (g.xResolution - 12) (cursor.x.toNat + pp.deltaX.toInt) := by
  have hx : (updateCursor g pp cursor).x =
      if (cursor.x.toNat : ℤ) < -pp.deltaX.toInt then 0
      else if (cursor.x.toNat : ℤ) + pp.deltaX.toInt + 11 ≥ g.xResolution then
        UInt16.ofInt (g.xResolution - 12)
      else UInt16.ofInt (cursor.x.toNat + pp.deltaX.toInt) := by
    cases hlb : pp.lb <;> cases hpressed : cursor.pressed <;>
      simp [updateCursor, hlb, hpressed]
  rw [hx]
  apply toNat_clamp (by omega) (by omega)
  · omega
  · omega

/-- The row moves against `delta_y`, within the screen less the height of the arrow. -/
theorem y_updateCursor (h : 20 ≤ g.yResolution) (h' : g.yResolution < 65536) :
    ((updateCursor g pp cursor).y.toNat : ℤ) =
      clampTo (g.yResolution - 20) (cursor.y.toNat - pp.deltaY.toInt) := by
  have hy : (updateCursor g pp cursor).y =
      if (cursor.y.toNat : ℤ) < pp.deltaY.toInt then 0
      else if (cursor.y.toNat : ℤ) - pp.deltaY.toInt + 19 ≥ g.yResolution then
        UInt16.ofInt (g.yResolution - 20)
      else UInt16.ofInt (cursor.y.toNat - pp.deltaY.toInt) := by
    cases hlb : pp.lb <;> cases hpressed : cursor.pressed <;>
      simp [updateCursor, hlb, hpressed]
  rw [hy]
  apply toNat_clamp (by omega) (by omega)
  · omega
  · omega

end Position

/-! ## Sequences of packets -/

/-- What `updateCursor` does to the cursor `before` with the packet `pp`, when the left button
was `held` before: the cursor stays on the screen, each coordinate moves by its displacement as
far as the screen goes, and the flags follow the button. -/
structure Tracks (g : Geometry) (before after : Cursor) (held : Bool) (pp : Packet) : Prop where
  onScreen : (after.x.toNat : ℤ) ≤ g.xResolution - 12 ∧ (after.y.toNat : ℤ) ≤ g.yResolution - 20
  x : (after.x.toNat : ℤ) = clampTo (g.xResolution - 12) (before.x.toNat + pp.deltaX.toInt)
  y : (after.y.toNat : ℤ) = clampTo (g.yResolution - 20) (before.y.toNat - pp.deltaY.toInt)
  pressed : after.pressed = pp.lb
  released : after.released = true ↔ pp.lb = false ∧ held = true

/-- The cursor after the packets `pps`. -/
def cursorAfter (g : Geometry) (cursor : Cursor) (pps : List Packet) : Cursor :=
  Transition.run (fun cursor pp => updateCursor g pp cursor) cursor pps

/-- `pressed` is the left button of the last packet, if there was one. -/
theorem pressed_cursorAfter (g : Geometry) {cursor : Cursor} (h : cursor.pressed = false)
    (pps : List Packet) :
    (cursorAfter g cursor pps).pressed = (pps.getLast?.map Packet.lb).getD false := by
  induction pps using List.reverseRecOn with
  | nil => exact h
  | append_singleton pps pp _ =>
    rw [cursorAfter, Transition.run_snoc, pressed_updateCursor, List.getLast?_append]
    rfl

/-- **The cursor tracks the mouse**: for every resolution that has room for the arrow, along
every sequence of packets from `initCursor` on with no button pressed. -/
theorem cursor_tracks {g : Geometry} (hx : 12 ≤ g.xResolution) (hx' : g.xResolution < 65536)
    (hy : 20 ≤ g.yResolution) (hy' : g.yResolution < 65536) {cursor : Cursor}
    (hpressed : cursor.pressed = false) (pps : List Packet) (pp : Packet) :
    Tracks g (cursorAfter g (initCursor cursor) pps)
      (cursorAfter g (initCursor cursor) (pps ++ [pp]))
      ((pps.getLast?.map Packet.lb).getD false) pp := by
  have hheld := @pressed_cursorAfter g (initCursor cursor) hpressed pps
  have hstep : cursorAfter g (initCursor cursor) (pps ++ [pp]) =
      updateCursor g pp (cursorAfter g (initCursor cursor) pps) := Transition.run_snoc _ _ _ _
  rw [hstep]
  have hcolumn := x_updateCursor pp (cursorAfter g (initCursor cursor) pps) hx hx'
  have hrow := y_updateCursor pp (cursorAfter g (initCursor cursor) pps) hy hy'
  refine ⟨⟨?_, ?_⟩, hcolumn, hrow, pressed_updateCursor g pp _, ?_⟩
  · rw [hcolumn]
    exact (clampTo_mem (by omega) _).2
  · rw [hrow]
    exact (clampTo_mem (by omega) _).2
  · rw [released_updateCursor, hheld]
    simp

/-- Mode `0x115`: a packet far to the lower right, and one that lifts the button. -/
theorem cursor_tracks_mode115 :
    (12 ≤ mode115.xResolution ∧ mode115.xResolution < 65536) ∧
      (20 ≤ mode115.yResolution ∧ mode115.yResolution < 65536) ∧
      (⟨5, 5, false, true⟩ : Cursor).pressed = false ∧
      Tracks mode115
        (cursorAfter mode115 (initCursor ⟨5, 5, false, true⟩)
          [⟨true, false, false, false, false, 900, -900⟩])
        (cursorAfter mode115 (initCursor ⟨5, 5, false, true⟩)
          ([⟨true, false, false, false, false, 900, -900⟩] ++
            [⟨false, false, false, false, false, -3, 4⟩]))
        true ⟨false, false, false, false, false, -3, 4⟩ :=
  ⟨⟨by decide, by decide⟩, ⟨by decide, by decide⟩, rfl,
    cursor_tracks (by decide) (by decide) (by decide) (by decide) rfl _ _⟩

end LCChess
