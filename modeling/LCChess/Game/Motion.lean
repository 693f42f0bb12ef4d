import LCChess.Game.Board
import LCChess.Library.Countdown

/-!
# Animated moves

A piece in motion goes one pixel a call of `updatePiece`, in each coordinate until it has reached
the target in that coordinate. So it arrives after as many calls as the larger of the two
distances has pixels, and the call behind ends the motion, once.

## Main definitions

* `Nears`: what one call does to a coordinate
* `Piece.togo`: the calls up to the target
* `Piece.after`: the piece behind some calls
* `Converges`: the calls for one piece, from the first on

## Main results

* `counts_updatePiece`: every call takes one from the calls to go
* `updatePiece_converges`: a motion reaches its target, and ends once
-/

namespace LCChess

open Countdown (Counts)

/-! ## One coordinate -/

/-- A coordinate goes one pixel towards the target, without a wrap, or stays there. -/
structure Nears (target before after : UInt16) : Prop where
  up : before < target → after.toNat = before.toNat + 1
  down : target < before → after.toNat + 1 = before.toNat
  stays : before = target → after = before

/-- The pixels between a coordinate and its target. -/
def distance (absolute target : UInt16) : ℕ := ((target.toNat : ℤ) - absolute.toNat).natAbs

theorem distance_eq_zero_iff {absolute target : UInt16} :
    distance absolute target = 0 ↔ absolute = target := by
  rw [distance, ← UInt16.toNat_inj]
  omega

theorem nears_approach (absolute target : UInt16) :
    Nears target absolute (approach absolute target) := by
  have ht := target.toNat_lt
  refine ⟨fun hlt => ?_, fun hlt => ?_, fun heq => ?_⟩
  · rw [UInt16.lt_iff_toNat_lt] at hlt
    rw [approach, if_pos (by omega), UInt16.toNat_add, UInt16.toNat_one]
    omega
  · rw [UInt16.lt_iff_toNat_lt] at hlt
    have hle : (1 : UInt16) ≤ absolute := by
      rw [UInt16.le_iff_toNat_le, UInt16.toNat_one]
      omega
    rw [approach, if_neg (by omega), if_pos (by omega), UInt16.toNat_sub_of_le _ _ hle,
      UInt16.toNat_one]
    omega
  · subst heq
    rw [approach, if_neg (by omega), if_neg (by omega)]

/-- A pixel nearer, or there. -/
theorem Nears.distance {target before after : UInt16} (h : Nears target before after) :
    distance after target = distance before target - 1 := by
  obtain ⟨hup, hdown, hstays⟩ := h
  rw [UInt16.lt_iff_toNat_lt] at hup hdown
  rw [← UInt16.toNat_inj, ← UInt16.toNat_inj] at hstays
  unfold LCChess.distance
  rcases Nat.lt_trichotomy before.toNat target.toNat with hlt | heq | hgt
  · rw [hup hlt]
    omega
  · rw [hstays heq]
    omega
  · have := hdown hgt
    omega

/-! ## The calls for one piece -/

/-- The calls that bring the piece to its target: the larger of the two distances. -/
def Piece.togo (piece : Piece) : ℕ :=
  max (distance piece.absoluteX piece.targetX) (distance piece.absoluteY piece.targetY)

/-- The piece behind one more call. -/
def Piece.next (piece : Piece) : Piece := (updatePiece piece).2

/-- The piece behind `n` calls. -/
def Piece.after (piece : Piece) (n : ℕ) : Piece := Piece.next^[n] piece

namespace Piece

variable {piece : Piece}

theorem togo_eq_zero_iff : piece.togo = 0 ↔ piece.Arrived := by
  rw [togo, Nat.max_eq_zero_iff, distance_eq_zero_iff, distance_eq_zero_iff, Arrived]

/-- The target of a piece is the target of the piece behind a call. -/
theorem target_next (piece : Piece) :
    piece.next.targetX = piece.targetX ∧ piece.next.targetY = piece.targetY := by
  obtain ⟨-, -, heq⟩ | ⟨-, -, heq⟩ | ⟨-, heq⟩ := piece.updatePiece_cases
  all_goals
    rw [next, heq]
    exact ⟨rfl, rfl⟩

/-- Each coordinate goes one pixel towards the target, or stays there. -/
theorem nears_next (piece : Piece) :
    Nears piece.targetX piece.absoluteX piece.next.absoluteX ∧
      Nears piece.targetY piece.absoluteY piece.next.absoluteY := by
  have hstays : ∀ {x y : UInt16}, x = y → Nears y x x := fun heq =>
    ⟨fun hlt => absurd hlt (by simp [heq]), fun hlt => absurd hlt (by simp [heq]), fun _ => rfl⟩
  obtain ⟨⟨hx, hy⟩, -, heq⟩ | ⟨⟨hx, hy⟩, -, heq⟩ | ⟨-, heq⟩ := piece.updatePiece_cases
  · rw [next, heq]
    exact ⟨hstays hx, hstays hy⟩
  · rw [next, heq]
    exact ⟨hstays hx, hstays hy⟩
  · rw [next, heq]
    exact ⟨nears_approach _ _, nears_approach _ _⟩

end Piece

/-- **Every call takes one from the calls to go.** -/
theorem counts_updatePiece : Counts Piece.next Piece.togo := by
  -- the two distances are counted down side by side
  have hx : Counts Piece.next fun piece : Piece => distance piece.absoluteX piece.targetX := by
    intro piece
    dsimp only
    rw [piece.target_next.1]
    exact piece.nears_next.1.distance
  have hy : Counts Piece.next fun piece : Piece => distance piece.absoluteY piece.targetY := by
    intro piece
    dsimp only
    rw [piece.target_next.2]
    exact piece.nears_next.2.distance
  exact hx.max hy

section Calls

variable {piece : Piece}

theorem Piece.after_succ (piece : Piece) (n : ℕ) :
    piece.after (n + 1) = (updatePiece (piece.after n)).2 :=
  Function.iterate_succ_apply' Piece.next n piece

/-- The target stands. -/
theorem Piece.target_after (piece : Piece) (n : ℕ) :
    (piece.after n).targetX = piece.targetX ∧ (piece.after n).targetY = piece.targetY := by
  induction n with
  | zero => exact ⟨rfl, rfl⟩
  | succ n ih =>
    rw [after_succ]
    obtain ⟨hx, hy⟩ := (piece.after n).target_next
    exact ⟨hx.trans ih.1, hy.trans ih.2⟩

/-- The piece is at its target from call `togo` on, and not before. -/
theorem Piece.arrived_after_iff (piece : Piece) (n : ℕ) :
    ((piece.after n).absoluteX = piece.targetX ∧ (piece.after n).absoluteY = piece.targetY) ↔
      piece.togo ≤ n := by
  obtain ⟨hx, hy⟩ := piece.target_after n
  have harrived : (piece.after n).Arrived ↔ piece.togo ≤ n := by
    rw [← togo_eq_zero_iff]
    exact counts_updatePiece.iterate_eq_zero_iff
  rw [← harrived, Arrived, hx, hy]

/-- A piece in motion stays in motion up to its target. -/
theorem Piece.isMoving_after (h : piece.isMoving = true) {n : ℕ} (hn : n ≤ piece.togo) :
    (piece.after n).isMoving = true := by
  refine counts_updatePiece.keeps (fun piece => piece.isMoving = true)
    (fun piece hpos hmoving => ?_) h hn
  -- with a call to go the piece is not at its target
  obtain ⟨harrived, -⟩ | ⟨harrived, -⟩ | ⟨-, heq⟩ := piece.updatePiece_cases
  · exact absurd (togo_eq_zero_iff.mpr harrived) hpos.ne'
  · exact absurd (togo_eq_zero_iff.mpr harrived) hpos.ne'
  · rw [next, heq]
    exact hmoving

/-- The calls of `updatePiece` for a piece in motion: each of the first `togo` brings both
coordinates one pixel nearer and returns `false`, the next one ends the motion and returns
`true`, and the others return `false` and change nothing. -/
structure Converges (piece : Piece) : Prop where
  onWay : ∀ n < piece.togo, (updatePiece (piece.after n)).1 = false ∧
    Nears piece.targetX (piece.after n).absoluteX (piece.after (n + 1)).absoluteX ∧
    Nears piece.targetY (piece.after n).absoluteY (piece.after (n + 1)).absoluteY
  arrived_iff : ∀ n, ((piece.after n).absoluteX = piece.targetX ∧
    (piece.after n).absoluteY = piece.targetY) ↔ piece.togo ≤ n
  ends : updatePiece (piece.after piece.togo) = (true, { piece.after piece.togo with
    isMoving := false, priorityDraw := false, change := true })
  idle : ∀ n, piece.togo < n → updatePiece (piece.after n) = (false, piece.after n)

/-- **Animated moves converge without overshoot**: from every position to every target. -/
theorem updatePiece_converges (h : piece.isMoving = true) : Converges piece := by
  have harrived_iff : ∀ n, (piece.after n).Arrived ↔ piece.togo ≤ n := by
    intro n
    obtain ⟨hx, hy⟩ := piece.target_after n
    rw [Piece.Arrived, hx, hy, piece.arrived_after_iff]
  have hends : updatePiece (piece.after piece.togo) = (true, { piece.after piece.togo with
      isMoving := false, priorityDraw := false, change := true }) := by
    have hmoving := piece.isMoving_after h le_rfl
    obtain ⟨-, -, heq⟩ | ⟨-, hrest, -⟩ | ⟨hnot, -⟩ := (piece.after piece.togo).updatePiece_cases
    · exact heq
    · exact absurd (hmoving.symm.trans hrest) (by decide)
    · exact absurd ((harrived_iff _).mpr le_rfl) hnot
  refine ⟨fun n hn => ⟨?_, ?_⟩, piece.arrived_after_iff, hends, fun n hn => ?_⟩
  · obtain ⟨harrived, -⟩ | ⟨harrived, -⟩ | ⟨-, heq⟩ := (piece.after n).updatePiece_cases
    · exact absurd ((harrived_iff n).mp harrived) (by omega)
    · exact absurd ((harrived_iff n).mp harrived) (by omega)
    · rw [heq]
  · obtain ⟨hx, hy⟩ := piece.target_after n
    rw [piece.after_succ, ← hx, ← hy]
    exact (piece.after n).nears_next
  -- behind the end of the motion the piece is at rest, which a call does not change
  · induction n, hn using Nat.le_induction with
    | base =>
      rw [piece.after_succ, hends]
      have hplace := (harrived_iff piece.togo).mpr le_rfl
      rw [updatePiece, if_pos (by exact hplace), if_neg (by simp)]
    | succ n _ ih =>
      rw [piece.after_succ, ih]
      exact ih

end Calls

/-- A piece that crosses the screen and the whole range of a coordinate. -/
theorem updatePiece_converges_corner :
    Converges ⟨0, 65535, 65535, 3, .wQueen, true, true, true, false⟩ :=
  updatePiece_converges rfl

end LCChess
