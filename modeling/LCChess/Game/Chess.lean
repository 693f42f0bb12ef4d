import LCChess.Game.Rules

/-!
# Games of chess

What the two programs are for: two players move in turn from the initial position, white first,
by the pseudo-legal moves of the pieces, until a king is taken. There is no castling, no capture
en passant, no promotion and no check. Nothing here knows about ends, bytes or boards in memory.

## Main definitions

* `Ply`: a move from one square to another; `Position.after pos m`: the position behind it
* `Position.Allows pos strict white m`: one side may make the move
* `ChessGame strict ms pos`: the moves `ms` are a game that leads to the position `pos`
* `Position.afterAll pos ms`: the position behind several moves

## Main results

* `ChessGame.king_stands`: the side that moved last has its king
* `ChessGame.pawn_ahead`: no pawn is behind its home row
* `ChessGame.bishops_apart`: two bishops of one color stand on squares of different colors
* `ChessGame.king_taken`: a king that is taken is gone
-/

namespace LCChess

/-- A move from square `(x, y)` to square `(x', y')`. -/
structure Ply where
  x : ℤ
  y : ℤ
  x' : ℤ
  y' : ℤ

/-- The row in which a pawn begins. -/
def PieceType.homeRow (t : PieceType) : ℤ := if t.isWhite then 6 else 1

/-- The pieces of the last row of white, from the left. -/
def officers : List PieceType :=
  [.wRook, .wKnight, .wBishop, .wQueen, .wKing, .wBishop, .wKnight, .wRook]

/-- The initial position. -/
def startPosition : Position := fun x y =>
  if 0 ≤ x ∧ x < 8 then
    if y = 7 then officers[x.toNat]?
    else if y = 6 then some .wPawn
    else if y = 1 then some .bPawn
    else if y = 0 then officers[x.toNat]?.map PieceType.swap
    else none
  else none

namespace Position

/-- The position behind a move. -/
def after (pos : Position) (m : Ply) : Position := fun a b =>
  if a = m.x' ∧ b = m.y' then pos m.x m.y
  else if a = m.x ∧ b = m.y then none
  else pos a b

/-- The position behind the moves `ms`. -/
def afterAll (pos : Position) (ms : List Ply) : Position := ms.foldl after pos

/-- A piece of type `t` stands on the board. -/
def Has (pos : Position) (t : PieceType) : Prop := ∃ x y, pos x y = some t

/-- The side `white`, next to move, may make the move `m`. A pawn makes a double step from its
home row; a game that is not `strict` lets it make one from anywhere. -/
structure Allows (pos : Position) (strict : Prop) (white : Bool) (m : Ply) : Prop where
  onBoard : OnBoard m.x m.y ∧ OnBoard m.x' m.y'
  kings : pos.Has .wKing ∧ pos.Has .bKing
  legal : ∃ t, pos m.x m.y = some t ∧ t.isWhite = white ∧
    LegalMove pos t (strict ∧ m.y ≠ t.homeRow) m.x m.y m.x' m.y'

end Position

/-- The moves `ms` are a game, which leads to the position `pos`. -/
inductive ChessGame (strict : Prop) : List Ply → Position → Prop
  | start : ChessGame strict [] startPosition
  | move {ms : List Ply} {pos : Position} (m : Ply) : ChessGame strict ms pos →
      pos.Allows strict (ms.length % 2 == 0) m → ChessGame strict (ms ++ [m]) (pos.after m)

/-! ## The initial position -/

/-- What holds of the 64 squares one by one holds of every square of the board. -/
theorem forall_onBoard {p : ℤ → ℤ → Prop} (h : ∀ a b : Fin 8, p (a : ℕ) (b : ℕ)) {x y : ℤ}
    (hxy : OnBoard x y) : p x y := by
  obtain ⟨hy, hy', hx, hx'⟩ := hxy
  have := h ⟨x.toNat, by omega⟩ ⟨y.toNat, by omega⟩
  rwa [Int.toNat_of_nonneg hx, Int.toNat_of_nonneg hy] at this

theorem onBoard_of_startPosition {x y : ℤ} {t : PieceType} (h : startPosition x y = some t) :
    OnBoard x y := by
  unfold startPosition at h
  unfold OnBoard
  split_ifs at h <;> omega

/-- The pawns begin in their home row. -/
theorem startPosition_pawn {x y : ℤ} {t : PieceType} (h : startPosition x y = some t)
    (ht : t.isPawn = true) : y = t.homeRow := by
  have hall := forall_onBoard (p := fun x y => ∀ t ∈ startPosition x y, t.isPawn = true →
    y = t.homeRow) (by decide) (onBoard_of_startPosition h)
  exact hall t h ht

/-- The bishops begin in the third column from either side. -/
theorem startPosition_bishop {x y : ℤ} {t : PieceType} (h : startPosition x y = some t)
    (ht : t = .wBishop ∨ t = .bBishop) : (x = 2 ∨ x = 5) ∧ y = if t.isWhite then 7 else 0 := by
  have hall := forall_onBoard (p := fun x y => ∀ t ∈ startPosition x y,
    t = .wBishop ∨ t = .bBishop → (x = 2 ∨ x = 5) ∧ y = if t.isWhite then 7 else 0)
    (by decide) (onBoard_of_startPosition h)
  exact hall t h ht

/-- The kings begin in the fifth column. -/
theorem startPosition_king {x y : ℤ} {t : PieceType} (h : startPosition x y = some t)
    (ht : t.isKing = true) : x = 4 ∧ y = if t.isWhite then 7 else 0 := by
  have hall := forall_onBoard (p := fun x y => ∀ t ∈ startPosition x y, t.isKing = true →
    x = 4 ∧ y = if t.isWhite then 7 else 0) (by decide) (onBoard_of_startPosition h)
  exact hall t h ht

/-! ## One move -/

theorem PieceType.forward_eq (t : PieceType) : t.forward = 1 ∨ t.forward = -1 := by
  unfold forward
  split
  · exact .inr rfl
  · exact .inl rfl

/-- A move of a pawn goes forward. -/
theorem LegalMove.forward {pos : Position} {t : PieceType} {moved : Prop} {x y x' y' : ℤ}
    (h : LegalMove pos t moved x y x' y') (ht : t.isPawn = true) :
    y' = y + t.forward ∨ y' = y + 2 * t.forward := by
  rw [LegalMove, if_pos ht] at h
  rcases h with ⟨-, hrow, -⟩ | ⟨-, hrow, -⟩ | ⟨-, hrow, -⟩
  · exact .inl hrow
  · exact .inr hrow
  · exact .inl hrow

/-- A bishop keeps the color of its square. -/
theorem LegalMove.diagonal {pos : Position} {t : PieceType} {moved : Prop} {x y x' y' : ℤ}
    (h : LegalMove pos t moved x y x' y') (ht : t = .wBishop ∨ t = .bBishop) :
    (x' + y') % 2 = (x + y) % 2 := by
  have hdiag : OnDiagonal pos x y x' y' := by
    rcases ht with rfl | rfl
    · exact h.1
    · exact h.1
  rcases hdiag with ⟨k, -, ⟨rfl, rfl⟩, -⟩ | ⟨k, -, ⟨rfl, rfl⟩, -⟩ | ⟨k, -, ⟨rfl, rfl⟩, -⟩ |
    ⟨k, -, ⟨rfl, rfl⟩, -⟩ <;> omega

/-- A pawn that knows that it has moved makes no more moves than one that does not. -/
theorem LegalMove.mono {pos : Position} {t : PieceType} {moved moved' : Prop} {x y x' y' : ℤ}
    (h : LegalMove pos t moved x y x' y') (himp : moved' → moved) :
    LegalMove pos t moved' x y x' y' := by
  unfold LegalMove at h ⊢
  split
  · rename_i ht
    rw [if_pos ht] at h
    exact h.imp id (Or.imp (And.imp id (And.imp id (And.imp id (And.imp id (mt himp))))) id)
  · rename_i ht
    rwa [if_neg ht] at h

namespace Position

variable {pos : Position} {m : Ply}

/-- A square behind a move: the destination, or one that the move leaves alone. -/
theorem after_eq_some {a b : ℤ} {t : PieceType} (h : pos.after m a b = some t) :
    (a = m.x' ∧ b = m.y' ∧ pos m.x m.y = some t) ∨
      (¬ (a = m.x ∧ b = m.y) ∧ ¬ (a = m.x' ∧ b = m.y') ∧ pos a b = some t) := by
  unfold after at h
  split_ifs at h with hto hfrom
  · exact .inl ⟨hto.1, hto.2, h⟩
  · exact .inr ⟨hfrom, hto, h⟩

theorem afterAll_append (pos : Position) (ms ms' : List Ply) :
    pos.afterAll (ms ++ ms') = (pos.afterAll ms).afterAll ms' := List.foldl_append

theorem after_self : pos.after m m.x' m.y' = pos m.x m.y := if_pos ⟨rfl, rfl⟩

/-- A piece that is not taken is on the board behind the move as well. -/
theorem Has.after {t : PieceType} (h : pos.Has t) (hkept : pos m.x' m.y' ≠ some t) :
    (pos.after m).Has t := by
  obtain ⟨a, b, hab⟩ := h
  by_cases hfrom : a = m.x ∧ b = m.y
  · -- the piece itself moves
    obtain ⟨rfl, rfl⟩ := hfrom
    exact ⟨m.x', m.y', after_self.trans hab⟩
  · have hto : ¬ (a = m.x' ∧ b = m.y') := by
      rintro ⟨rfl, rfl⟩
      exact hkept hab
    exact ⟨a, b, by rw [Position.after, if_neg hto, if_neg hfrom, hab]⟩

end Position

/-! ## Games -/

/-- The king of a side. -/
def kingOf (white : Bool) : PieceType := if white then .wKing else .bKing

@[simp] theorem isWhite_kingOf (white : Bool) : (kingOf white).isWhite = white := by
  cases white <;> rfl

namespace ChessGame

variable {strict : Prop} {ms : List Ply} {pos : Position}

/-- The side that moved last has its king: a side that has lost it does not move again. -/
theorem king_stands (h : ChessGame strict ms pos) : pos.Has (kingOf (ms.length % 2 == 1)) := by
  cases h with
  | start => exact ⟨4, 0, rfl⟩
  | @move ms pos m hgame hallows =>
    obtain ⟨t, -, hside, hlegal⟩ := hallows.legal
    have hmover : ((ms ++ [m]).length % 2 == 1) = t.isWhite := by
      rw [hside, List.length_append, List.length_singleton, Bool.eq_iff_iff, beq_iff_eq, beq_iff_eq]
      omega
    rw [hmover]
    have hking : pos.Has (kingOf t.isWhite) := by
      cases t.isWhite
      · exact hallows.kings.2
      · exact hallows.kings.1
    -- no side takes its own king
    exact hking.after fun hown => hlegal.lands _ hown (isWhite_kingOf _)

/-- No pawn is behind its home row. -/
theorem pawn_ahead (h : ChessGame strict ms pos) {t : PieceType} (ht : t.isPawn = true) {x y : ℤ}
    (hat : pos x y = some t) : 0 ≤ (y - t.homeRow) * t.forward := by
  have hcolor := t.forward_eq
  induction h generalizing x y with
  | start =>
    rw [startPosition_pawn hat ht]
    omega
  | @move ms pos m hgame hallows ih =>
    rcases Position.after_eq_some hat with ⟨-, rfl, hfrom⟩ | ⟨-, -, hkept⟩
    · obtain ⟨t', hat', -, hlegal⟩ := hallows.legal
      obtain rfl : t = t' := Option.some.inj (hfrom.symm.trans hat')
      have hold := ih hfrom
      rcases hlegal.forward ht with hrow | hrow <;> rw [hrow] <;>
        rcases hcolor with hc | hc <;> rw [hc] at hold ⊢ <;> omega
    · exact ih hkept

/-- Two bishops of one color stand on squares of different colors. -/
theorem bishops_apart (h : ChessGame strict ms pos) {t : PieceType}
    (ht : t = .wBishop ∨ t = .bBishop) {x y x' y' : ℤ} (hat : pos x y = some t)
    (hat' : pos x' y' = some t) (hcolor : (x + y) % 2 = (x' + y') % 2) : x = x' ∧ y = y' := by
  induction h generalizing x y x' y' with
  | start =>
    obtain ⟨hx, hy⟩ := startPosition_bishop hat ht
    obtain ⟨hx', hy'⟩ := startPosition_bishop hat' ht
    omega
  | @move ms pos m hgame hallows ih =>
    obtain ⟨s, hs, -, hlegal⟩ := hallows.legal
    -- where the bishop that moves comes from, the squares have the same color
    have hmoved : pos m.x m.y = some t → (m.x' + m.y') % 2 = (m.x + m.y) % 2 := by
      intro hfrom
      obtain rfl : t = s := Option.some.inj (hfrom.symm.trans hs)
      exact hlegal.diagonal ht
    rcases Position.after_eq_some hat with ⟨rfl, rfl, hfrom⟩ | ⟨hne, -, hkept⟩
    · rcases Position.after_eq_some hat' with ⟨rfl, rfl, -⟩ | ⟨hne', -, hkept'⟩
      · exact ⟨rfl, rfl⟩
      · have hcol := (hmoved hfrom).symm.trans hcolor
        obtain ⟨rfl, rfl⟩ := ih hfrom hkept' hcol
        exact absurd ⟨rfl, rfl⟩ hne'
    · rcases Position.after_eq_some hat' with ⟨rfl, rfl, hfrom⟩ | ⟨-, -, hkept'⟩
      · have hcol := hcolor.trans (hmoved hfrom)
        obtain ⟨rfl, rfl⟩ := ih hkept hfrom hcol
        exact absurd ⟨rfl, rfl⟩ hne
      · exact ih hkept hkept' hcolor

/-- A game with a last move. -/
theorem of_snoc {m : Ply} (h : ChessGame strict (ms ++ [m]) pos) : ∃ old, ChessGame strict ms old ∧
    old.Allows strict (ms.length % 2 == 0) m ∧ pos = old.after m := by
  generalize hall : ms ++ [m] = all at h
  cases h with
  | start => simp at hall
  | @move init old last hgame hallows =>
    obtain ⟨rfl, rfl⟩ := List.append_inj' hall rfl |>.imp id List.singleton_inj.mp
    exact ⟨old, hgame, hallows, rfl⟩

/-- The moves of a game say where it stands. -/
theorem eq_afterAll (h : ChessGame strict ms pos) : pos = startPosition.afterAll ms := by
  induction h with
  | start => rfl
  | @move ms pos m _ _ ih =>
    rw [Position.afterAll_append, ← ih]
    rfl

/-- What the last move of a game does behind the moves before it. -/
theorem allows_last {m : Ply} {old : Position} (hold : ChessGame strict ms old)
    (h : ChessGame strict (ms ++ [m]) pos) :
    old.Allows strict (ms.length % 2 == 0) m ∧ pos = old.after m := by
  obtain ⟨before, hgame, hallows, rfl⟩ := h.of_snoc
  obtain rfl := hgame.eq_afterAll.trans hold.eq_afterAll.symm
  exact ⟨hallows, rfl⟩

/-- Neither side has two kings. -/
theorem king_unique (h : ChessGame strict ms pos) {t : PieceType} (ht : t.isKing = true)
    {x y x' y' : ℤ} (hat : pos x y = some t) (hat' : pos x' y' = some t) : x = x' ∧ y = y' := by
  induction h generalizing x y x' y' with
  | start =>
    obtain ⟨hx, hy⟩ := startPosition_king hat ht
    obtain ⟨hx', hy'⟩ := startPosition_king hat' ht
    exact ⟨hx.trans hx'.symm, hy.trans hy'.symm⟩
  | @move ms pos m _ _ ih =>
    rcases Position.after_eq_some hat with ⟨rfl, rfl, hfrom⟩ | ⟨hne, -, hkept⟩
    · rcases Position.after_eq_some hat' with ⟨rfl, rfl, -⟩ | ⟨hne', -, hkept'⟩
      · exact ⟨rfl, rfl⟩
      · obtain ⟨rfl, rfl⟩ := ih hfrom hkept'
        exact absurd ⟨rfl, rfl⟩ hne'
    · rcases Position.after_eq_some hat' with ⟨rfl, rfl, hfrom⟩ | ⟨-, -, hkept'⟩
      · obtain ⟨rfl, rfl⟩ := ih hkept hfrom
        exact absurd ⟨rfl, rfl⟩ hne
      · exact ih hkept hkept'

/-- A king that is taken is gone. -/
theorem king_taken (h : ChessGame strict ms pos) {strict' : Prop} {white : Bool} {m : Ply}
    (hallows : pos.Allows strict' white m) {t : PieceType} (ht : t.isKing = true)
    (hat : pos m.x' m.y' = some t) : ¬ (pos.after m).Has t := by
  rintro ⟨a, b, hab⟩
  rcases Position.after_eq_some hab with ⟨-, -, hfrom⟩ | ⟨-, hne, hkept⟩
  · -- no side takes its own king
    obtain ⟨t', hat', -, hlegal⟩ := hallows.legal
    obtain rfl : t = t' := Option.some.inj (hfrom.symm.trans hat')
    exact hlegal.lands t hat rfl
  · exact hne (h.king_unique ht hkept hat)

/-- No pawn moves to its home row. -/
theorem leaves_home (h : ChessGame strict ms pos) {strict' : Prop} {white : Bool} {m : Ply}
    (hallows : pos.Allows strict' white m) {t : PieceType} (ht : t.isPawn = true)
    (hat : pos m.x m.y = some t) : m.y' ≠ t.homeRow := by
  obtain ⟨t', hat', -, hlegal⟩ := hallows.legal
  obtain rfl : t = t' := Option.some.inj (hat.symm.trans hat')
  have hahead := h.pawn_ahead ht hat
  have hcolor := t.forward_eq
  rcases hlegal.forward ht with hrow | hrow <;> rw [hrow] <;>
    rcases hcolor with hc | hc <;> rw [hc] at hahead ⊢ <;> omega

end ChessGame

end LCChess
