import LCChess.Game.Piece

/-!
# The rules of chess

Pseudo-legal moves of the pieces, stated on squares: what a rook, a bishop, a queen, a knight, a
king or a pawn may do on a given position. Nothing here knows about cells, pixels or memory.

## Main definitions

* `Position`: what stands on each square
* `OnLine pos x y dx dy x' y'`: a line with no piece strictly between its ends
* `PieceMove`, `PawnMove`, `LegalMove`: the pseudo-legal moves

## Main results

* `pawnMove_mirror`: the two colors move by mirror-image rules
-/

namespace LCChess

/-- What stands on the square in column `x` of row `y`. -/
abbrev Position := ℤ → ℤ → Option PieceType

/-- The piece of the other color. -/
def PieceType.swap : PieceType → PieceType
  | .bPawn => .wPawn | .bKnight => .wKnight | .bBishop => .wBishop | .bRook => .wRook
  | .bQueen => .wQueen | .bKing => .wKing
  | .wPawn => .bPawn | .wKnight => .bKnight | .wBishop => .bBishop | .wRook => .bRook
  | .wQueen => .bQueen | .wKing => .bKing

@[simp] theorem PieceType.isWhite_swap (t : PieceType) : t.swap.isWhite = !t.isWhite := by
  cases t <;> rfl

section Rules

variable (pos : Position)

/-- A piece of type `t` may land on an empty square or on an enemy. -/
def Lands (t : PieceType) (x' y' : ℤ) : Prop :=
  ∀ q, pos x' y' = some q → q.isWhite ≠ t.isWhite

instance (t : PieceType) (x' y' : ℤ) : Decidable (Lands pos t x' y') :=
  match h : pos x' y' with
  | none => isTrue fun q hq => by simp [h] at hq
  | some q => decidable_of_iff (q.isWhite ≠ t.isWhite) (by simp [Lands, h])

/-- Square `(x', y')` lies on the line from `(x, y)` in direction `(dx, dy)`, and the squares
strictly between are empty. -/
def OnLine (x y dx dy x' y' : ℤ) : Prop :=
  ∃ k : ℕ, 1 ≤ k ∧ (x' = x + k * dx ∧ y' = y + k * dy) ∧
    ∀ i : ℕ, 1 ≤ i → i < k → pos (x + i * dx) (y + i * dy) = none

/-- On a rank or a file. -/
def OnRankOrFile (x y x' y' : ℤ) : Prop :=
  OnLine pos x y 1 0 x' y' ∨ OnLine pos x y (-1) 0 x' y' ∨
    OnLine pos x y 0 1 x' y' ∨ OnLine pos x y 0 (-1) x' y'

/-- On a diagonal. -/
def OnDiagonal (x y x' y' : ℤ) : Prop :=
  OnLine pos x y 1 1 x' y' ∨ OnLine pos x y 1 (-1) x' y' ∨
    OnLine pos x y (-1) (-1) x' y' ∨ OnLine pos x y (-1) 1 x' y'

/-- The jump of a knight. -/
def KnightJump (x y x' y' : ℤ) : Prop :=
  ((x' - x).natAbs = 1 ∧ (y' - y).natAbs = 2) ∨ ((x' - x).natAbs = 2 ∧ (y' - y).natAbs = 1)

instance (x y x' y' : ℤ) : Decidable (KnightJump x y x' y') := by
  unfold KnightJump
  infer_instance

/-- The step of a king. -/
def KingStep (x y x' y' : ℤ) : Prop :=
  (x' - x).natAbs ≤ 1 ∧ (y' - y).natAbs ≤ 1 ∧ ¬ (x' = x ∧ y' = y)

instance (x y x' y' : ℤ) : Decidable (KingStep x y x' y') := by
  unfold KingStep
  infer_instance

/-- The squares a piece other than a pawn reaches from `(x, y)`. -/
def Reaches (t : PieceType) (x y x' y' : ℤ) : Prop :=
  match t with
  | .bRook | .wRook => OnRankOrFile pos x y x' y'
  | .bBishop | .wBishop => OnDiagonal pos x y x' y'
  | .bQueen | .wQueen => OnRankOrFile pos x y x' y' ∨ OnDiagonal pos x y x' y'
  | .bKnight | .wKnight => KnightJump x y x' y'
  | .bKing | .wKing => KingStep x y x' y'
  | .bPawn | .wPawn => False

/-- The pseudo-legal moves of a piece other than a pawn. -/
def PieceMove (t : PieceType) (x y x' y' : ℤ) : Prop :=
  Reaches pos t x y x' y' ∧ Lands pos t x' y'

/-- White pawns move up the screen, black ones down. -/
def PieceType.forward (t : PieceType) : ℤ := if t.isWhite then -1 else 1

@[simp] theorem PieceType.forward_bPawn : PieceType.bPawn.forward = 1 := rfl

@[simp] theorem PieceType.forward_wPawn : PieceType.wPawn.forward = -1 := rfl

/-- An enemy of `t` stands on the square. -/
def EnemyAt (t : PieceType) (x' y' : ℤ) : Prop :=
  ∃ q, pos x' y' = some q ∧ q.isWhite ≠ t.isWhite

instance (t : PieceType) (x' y' : ℤ) : Decidable (EnemyAt pos t x' y') :=
  match h : pos x' y' with
  | none => isFalse fun ⟨q, hq, _⟩ => by simp [h] at hq
  | some q => decidable_of_iff (q.isWhite ≠ t.isWhite) (by simp [EnemyAt, h])

/-- The pseudo-legal moves of a pawn, which has `moved` before or not. -/
def PawnMove (t : PieceType) (moved : Prop) (x y x' y' : ℤ) : Prop :=
  (x' = x ∧ y' = y + t.forward ∧ pos x' y' = none) ∨
    (x' = x ∧ y' = y + 2 * t.forward ∧ pos x (y + t.forward) = none ∧ pos x' y' = none ∧
      ¬ moved) ∨
    ((x' = x + 1 ∨ x' = x - 1) ∧ y' = y + t.forward ∧ EnemyAt pos t x' y')

instance (t : PieceType) (moved : Prop) [Decidable moved] (x y x' y' : ℤ) :
    Decidable (PawnMove pos t moved x y x' y') := by
  unfold PawnMove
  infer_instance

/-- The pseudo-legal moves of a piece; `moved` matters to a pawn only. -/
def LegalMove (t : PieceType) (moved : Prop) (x y x' y' : ℤ) : Prop :=
  if t.isPawn then PawnMove pos t moved x y x' y' else PieceMove pos t x y x' y'

variable {pos}

/-- No move lands on a piece of the own color. -/
theorem LegalMove.lands {t : PieceType} {moved : Prop} {x y x' y' : ℤ}
    (h : LegalMove pos t moved x y x' y') : Lands pos t x' y' := by
  unfold LegalMove at h
  split at h
  · rintro q hq
    rcases h with ⟨-, -, hnone⟩ | ⟨-, -, -, hnone, -⟩ | ⟨-, -, q', hq', hne⟩
    · simp [hq] at hnone
    · simp [hq] at hnone
    · obtain rfl : q = q' := Option.some.inj (hq.symm.trans hq')
      exact hne
  · exact h.2

end Rules

/-- The position with the colors and the sides of the board exchanged. -/
def mirror (pos : Position) : Position := fun x y => (pos x (7 - y)).map PieceType.swap

/-- **Both colors move by mirror-image rules.** -/
theorem pawnMove_mirror (pos : Position) (t : PieceType) (moved : Prop) (x y x' y' : ℤ) :
    PawnMove (mirror pos) t.swap moved x (7 - y) x' (7 - y') ↔ PawnMove pos t moved x y x' y' := by
  have hforward : t.swap.forward = -t.forward := by
    unfold PieceType.forward
    rw [PieceType.isWhite_swap]
    cases t.isWhite <;> rfl
  have hempty : ∀ a b : ℤ, mirror pos a (7 - b) = none ↔ pos a b = none := by
    intro a b
    simp [mirror]
  have henemy : ∀ a b : ℤ, EnemyAt (mirror pos) t.swap a (7 - b) ↔ EnemyAt pos t a b := by
    intro a b
    unfold EnemyAt mirror
    simp only [Option.map_eq_some_iff, sub_sub_cancel, exists_exists_and_eq_and,
      PieceType.isWhite_swap, ne_eq]
    refine exists_congr fun q => and_congr_right fun _ => ?_
    cases q.isWhite <;> cases t.isWhite <;> decide
  have hone : (7 - y' = 7 - y + t.swap.forward) ↔ y' = y + t.forward := by omega
  have htwo : (7 - y' = 7 - y + 2 * t.swap.forward) ↔ y' = y + 2 * t.forward := by omega
  have hmid : 7 - y + t.swap.forward = 7 - (y + t.forward) := by omega
  unfold PawnMove
  rw [hone, htwo, hmid, hempty, hempty, henemy]

end LCChess
