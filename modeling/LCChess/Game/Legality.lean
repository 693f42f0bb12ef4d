import LCChess.Game.PossiblePosition
import LCChess.Game.Rules

/-!
# The highlights follow the rules

In mode `0x115` the squares that `possiblePosition` paints are those the rules of chess let the
piece reach, up to what stands on the destination, which the release handler looks at. Memory
outside the 64 cells is read, but never matters.

## Main definitions

* `squares board heap`: the position on the 64 cells
* `Clean m`: no square is orange

## Main results

* `isOrange_piece`: the highlights of a piece other than a pawn
* `isOrange_bPawn`, `isOrange_wPawn`: the highlights of a pawn; a white pawn does not see the
  black king
* `isOrange_iff_legalMove`: the highlights of any piece
-/

namespace LCChess

/-- The position on the 64 cells. -/
def squares (board : ℤ → Option PieceRef) (heap : Heap) : Position := fun x y =>
  if OnBoard x y then (board (y * 8 + x)).map fun p => (heap p).type else none

/-- No square is orange. -/
def Clean (m : Memory) : Prop := ∀ x y, OnBoard x y → isOrange mode115 m x y = false

theorem clean_drawBoard (m : Memory) : Clean (drawBoard mode115 m) :=
  fun _ _ h => isOrange_drawBoard m h

section Squares

variable (board : ℤ → Option PieceRef) (heap : Heap) {x y px py : ℤ}

theorem squares_of_onBoard (h : OnBoard x y) :
    squares board heap x y = (board (y * 8 + x)).map fun p => (heap p).type := if_pos h

theorem squares_eq_none (h : OnBoard x y) :
    squares board heap x y = none ↔ board (y * 8 + x) = none := by
  rw [squares_of_onBoard board heap h, Option.map_eq_none_iff]

/-- A line of the rules is what a loop over the cells finds: between two squares of the board the
line stays on the board. -/
theorem onLine_iff (h : OnBoard x y) (hp : OnBoard px py) {dx dy : ℤ}
    (hdx : dx = 1 ∨ dx = 0 ∨ dx = -1) (hdy : dy = 1 ∨ dy = 0 ∨ dy = -1)
    (hd : ¬ (dx = 0 ∧ dy = 0)) :
    OnLine (squares board heap) x y dx dy px py ↔ MarkedBefore board x y dx dy px py 8 := by
  obtain ⟨hy, hy', hx, hx'⟩ := h
  obtain ⟨hpy, hpy', hpx, hpx'⟩ := hp
  -- the board is convex: what lies between two of its squares is on it
  have hbetween : ∀ i j : ℕ, i < j → (px = x + j * dx ∧ py = y + j * dy) →
      OnBoard (x + i * dx) (y + i * dy) := by
    rintro i j hij ⟨rfl, rfl⟩
    unfold OnBoard
    obtain rfl | rfl | rfl := hdx <;> obtain rfl | rfl | rfl := hdy <;> omega
  -- no line of the board is longer than seven steps
  have hlt : ∀ j : ℕ, (px = x + j * dx ∧ py = y + j * dy) → j < 8 := by
    rintro j ⟨rfl, rfl⟩
    obtain rfl | rfl | rfl := hdx <;> obtain rfl | rfl | rfl := hdy <;> omega
  constructor
  · rintro ⟨j, hj, he, hfree⟩
    refine ⟨j, ⟨hj, hlt j he⟩, he, fun i hi hij => ?_⟩
    exact (squares_eq_none board heap (hbetween i j hij he)).mp (hfree i hi hij)
  · rintro ⟨j, ⟨hj, -⟩, he, hfree⟩
    refine ⟨j, hj, he, fun i hi hij => ?_⟩
    exact (squares_eq_none board heap (hbetween i j hij he)).mpr (hfree i hi hij)

end Squares

/-! ## The pieces that move on lines -/

section Lines

variable (board : ℤ → Option PieceRef) (heap : Heap) (m : Memory) {x y px py : ℤ}
  (h : OnBoard x y) (hp : OnBoard px py)
include h hp

/-- A rank or file loop to the edge of the board marks its line, and its own square. -/
theorem isOrange_slide_line {dx dy : ℤ} {n : ℕ} (hdx : dx = 1 ∨ dx = 0 ∨ dx = -1)
    (hdy : dy = 1 ∨ dy = 0 ∨ dy = -1) (hd : ¬ (dx = 0 ∧ dy = 0))
    (hn : ∀ j : ℕ, j < n ↔ OnBoard (x + j * dx) (y + j * dy)) :
    isOrange mode115 (slide mode115 board x y dx dy n 0 m) px py = true ↔
      isOrange mode115 m px py = true ∨ (px = x ∧ py = y) ∨
        OnLine (squares board heap) x y dx dy px py := by
  rw [isOrange_slide board m hp fun j _ hj => (hn j).mp (by omega),
    onLine_iff board heap h hp hdx hdy hd]
  refine or_congr Iff.rfl ⟨?_, ?_⟩
  · rintro ⟨j, hj, he, hfree⟩
    -- step 0 is the square of the piece itself, which the loops highlight too
    rcases Nat.eq_zero_or_pos j with rfl | hpos
    · left
      simpa using he
    · right
      have hlt : j < 8 := by
        obtain ⟨hy, hy', hx, hx'⟩ := h
        obtain ⟨hb, hb', hb'', hb'''⟩ := (hn j).mp (by omega)
        obtain rfl | rfl | rfl := hdx <;> obtain rfl | rfl | rfl := hdy <;> omega
      exact ⟨j, ⟨hpos, hlt⟩, he, fun i hi hij => hfree i (Nat.zero_le i) hij (by omega)⟩
  · have hlen : ∀ j : ℕ, (px = x + j * dx ∧ py = y + j * dy) → 0 ≤ j ∧ j < 0 + n := by
      rintro j ⟨rfl, rfl⟩
      exact ⟨Nat.zero_le j, by rw [Nat.zero_add]; exact (hn j).mpr hp⟩
    rintro (he | ⟨j, -, he, hfree⟩)
    · have he' : px = x + (0 : ℕ) * dx ∧ py = y + (0 : ℕ) * dy := by simpa using he
      exact ⟨0, hlen 0 he', he', fun i _ hi => by omega⟩
    · exact ⟨j, hlen j he, he, fun i _ hij hne => hfree i (by omega) hij⟩

theorem isOrange_rook :
    isOrange mode115 (rookPositions mode115 board x y m) px py = true ↔
      isOrange mode115 m px py = true ∨ (px = x ∧ py = y) ∨
        OnRankOrFile (squares board heap) x y px py := by
  obtain ⟨hy, hy', hx, hx'⟩ := id h
  unfold rookPositions
  rw [isOrange_slide_line board heap _ h hp (by decide) (by decide) (by decide) (fun j => by
      unfold OnBoard; omega),
    isOrange_slide_line board heap _ h hp (by decide) (by decide) (by decide) (fun j => by
      unfold OnBoard; omega),
    isOrange_slide_line board heap _ h hp (by decide) (by decide) (by decide) (fun j => by
      unfold OnBoard; omega),
    isOrange_slide_line board heap _ h hp (by decide) (by decide) (by decide) (fun j => by
      unfold OnBoard; omega)]
  unfold OnRankOrFile
  tauto

theorem isOrange_bishop :
    isOrange mode115 (diagonals mode115 board x y m) px py = true ↔
      isOrange mode115 m px py = true ∨ OnDiagonal (squares board heap) x y px py := by
  unfold OnDiagonal
  rw [isOrange_diagonals board m hp h,
    onLine_iff board heap h hp (.inl rfl) (.inl rfl) (by decide),
    onLine_iff board heap h hp (.inl rfl) (.inr (.inr rfl)) (by decide),
    onLine_iff board heap h hp (.inr (.inr rfl)) (.inr (.inr rfl)) (by decide),
    onLine_iff board heap h hp (.inr (.inr rfl)) (.inl rfl) (by decide)]

theorem isOrange_knight :
    isOrange mode115 (offsetPositions mode115 knightOffsets x y m) px py = true ↔
      isOrange mode115 m px py = true ∨ KnightJump x y px py := by
  rw [isOrange_offsetPositions m hp h (by decide)]
  apply or_congr Iff.rfl
  unfold KnightJump
  simp only [knightOffsets, List.mem_cons, List.not_mem_nil, or_false, exists_eq_or_imp,
    exists_eq_left]
  omega

theorem isOrange_king :
    isOrange mode115 (offsetPositions mode115 kingOffsets x y m) px py = true ↔
      isOrange mode115 m px py = true ∨ KingStep x y px py := by
  rw [isOrange_offsetPositions m hp h (by decide)]
  apply or_congr Iff.rfl
  unfold KingStep
  simp only [kingOffsets, List.mem_cons, List.not_mem_nil, or_false, exists_eq_or_imp,
    exists_eq_left]
  omega

end Lines

/-- **The highlights of a piece other than a pawn**: on the squares where the piece may land they
are the squares it reaches. -/
theorem isOrange_piece {board : ℤ → Option PieceRef} {heap : Heap} {m : Memory} (hclean : Clean m)
    {x y px py : ℤ} (h : OnBoard x y) (hp : OnBoard px py) {piece : Piece}
    (hpawn : piece.type.isPawn = false) (hown : squares board heap x y = some piece.type)
    (hlands : Lands (squares board heap) piece.type px py) :
    isOrange mode115 (possiblePosition mode115 board heap piece x y m) px py = true ↔
      Reaches (squares board heap) piece.type x y px py := by
  have hm := hclean px py hp
  have hne : ¬ (px = x ∧ py = y) := by
    -- the own square holds a piece of the own color, and so no piece lands there
    rintro ⟨rfl, rfl⟩
    exact hlands _ hown rfl
  unfold possiblePosition Reaches
  cases htype : piece.type with
  | bPawn => simp [htype, PieceType.isPawn] at hpawn
  | wPawn => simp [htype, PieceType.isPawn] at hpawn
  | bKnight => simp [isOrange_knight m h hp, hm]
  | wKnight => simp [isOrange_knight m h hp, hm]
  | bKing => simp [isOrange_king m h hp, hm]
  | wKing => simp [isOrange_king m h hp, hm]
  | bRook => simp [isOrange_rook board heap m h hp, hm, hne]
  | wRook => simp [isOrange_rook board heap m h hp, hm, hne]
  | bBishop => simp [isOrange_bishop board heap m h hp, hm]
  | wBishop => simp [isOrange_bishop board heap m h hp, hm]
  | bQueen =>
    simp only [isOrange_rook board heap _ h hp, isOrange_bishop board heap _ h hp, hm, hne]
    tauto
  | wQueen =>
    simp only [isOrange_rook board heap _ h hp, isOrange_bishop board heap _ h hp, hm, hne]
    tauto

/-! ## The pawns -/

section Pawns

variable {board : ℤ → Option PieceRef} {heap : Heap} {m : Memory} {x y px py : ℤ}
  (h : OnBoard x y) (hp : OnBoard px py)
include h hp

/-- The squares a pawn branch marks. -/
theorem isOrange_pawnPositions {dy : ℤ} (hdy : dy = 1 ∨ dy = -1) {inside : Bool}
    {enemy : PieceType → Bool} {pawnMoved : Bool} :
    isOrange mode115 (pawnPositions mode115 board heap dy inside enemy pawnMoved x y m) px py =
        true ↔
      isOrange mode115 m px py = true ∨
        ((inside && x < 7 && holds board heap enemy ((y + dy) * 8 + x + 1)) = true ∧
          px = x + 1 ∧ py = y + dy) ∨
        ((inside && 0 < x && holds board heap enemy ((y + dy) * 8 + x - 1)) = true ∧
          px = x - 1 ∧ py = y + dy) ∨
        (board ((y + dy) * 8 + x) = none ∧
          ((board ((y + 2 * dy) * 8 + x) = none ∧ pawnMoved = false ∧ px = x ∧ py = y + 2 * dy) ∨
            px = x ∧ py = y + dy)) := by
  obtain ⟨hy, hy', hx, hx'⟩ := h
  -- one guarded highlight
  have hmark : ∀ (m : Memory) (col row : ℤ) (c : Prop) [Decidable c], -7 ≤ col → col ≤ 14 →
      -7 ≤ row → row ≤ 14 →
      (isOrange mode115 (if c then highlight mode115 m col row else m) px py = true ↔
        isOrange mode115 m px py = true ∨ (c ∧ px = col ∧ py = row)) := by
    intro m col row c _ hcol hcol' hrow hrow'
    by_cases hc : c
    · rw [if_pos hc, isOrange_highlight m _ _ hp hcol hcol' hrow hrow']
      simp [hc]
    · simp [hc]
  have hrow : -7 ≤ y + dy ∧ y + dy ≤ 14 := by omega
  unfold pawnPositions
  dsimp only
  -- the steps straight ahead are offered only if the first of the two squares is empty
  by_cases hfree : board ((y + dy) * 8 + x) = none
  · rw [if_pos hfree, isOrange_highlight _ _ _ hp (by omega) (by omega) (by omega) (by omega),
      hmark _ _ _ _ (by omega) (by omega) (by omega) (by omega),
      hmark _ _ _ _ (by omega) (by omega) (by omega) (by omega),
      hmark _ _ _ _ (by omega) (by omega) (by omega) (by omega)]
    simp only [hfree, true_and, or_assoc, and_assoc]
  · rw [if_neg hfree, hmark _ _ _ _ (by omega) (by omega) (by omega) (by omega),
      hmark _ _ _ _ (by omega) (by omega) (by omega) (by omega)]
    simp only [hfree, false_and, or_false, or_assoc]

omit h in
/-- The piece test of a diagonal, on a square of the board. -/
theorem holds_iff {enemy : PieceType → Bool} :
    holds board heap enemy (py * 8 + px) = true ↔
      ∃ q, squares board heap px py = some q ∧ enemy q = true := by
  rw [squares_of_onBoard board heap hp, holds]
  cases board (py * 8 + px) <;> simp

/-- A pawn branch whose piece test finds the enemies of the pawn marks its moves. -/
theorem isOrange_pawn (hm : isOrange mode115 m px py = false) {t : PieceType} {inside : Bool}
    (hinside : inside = true ↔ 0 ≤ y + t.forward ∧ y + t.forward < 8) {enemy : PieceType → Bool}
    (henemy : ∀ q, squares board heap px py = some q → (enemy q = true ↔ q.isWhite ≠ t.isWhite))
    {pawnMoved : Bool} :
    isOrange mode115 (pawnPositions mode115 board heap t.forward inside enemy pawnMoved x y m) px
        py = true ↔
      PawnMove (squares board heap) t (pawnMoved = true) x y px py := by
  obtain ⟨hy, hy', hx, hx'⟩ := id h
  obtain ⟨hpy, hpy', hpx, hpx'⟩ := id hp
  have hdy : t.forward = 1 ∨ t.forward = -1 := by
    unfold PieceType.forward
    split <;> simp
  -- the test of a diagonal, where the diagonal is the square that is probed
  have hdiag : holds board heap enemy (py * 8 + px) = true ↔
      EnemyAt (squares board heap) t px py := by
    rw [holds_iff hp]
    exact exists_congr fun q => and_congr_right fun hq => henemy q hq
  have hempty : squares board heap px py = none ↔ board (py * 8 + px) = none :=
    squares_eq_none board heap hp
  rw [isOrange_pawnPositions h hp hdy, hm]
  unfold PawnMove
  simp only [Bool.and_eq_true, decide_eq_true_eq, Bool.false_eq_true, false_or]
  constructor
  -- the two diagonals, the double step and the single step, in the order of the source
  · rintro (⟨⟨-, hholds⟩, rfl, rfl⟩ | ⟨⟨-, hholds⟩, rfl, rfl⟩ |
      ⟨hfree, ⟨hfree', hmoved, rfl, rfl⟩ | ⟨rfl, rfl⟩⟩)
    · exact .inr (.inr ⟨.inl rfl, rfl, hdiag.mp (by rwa [← add_assoc])⟩)
    · exact .inr (.inr ⟨.inr rfl, rfl, hdiag.mp (by rwa [← add_sub_assoc])⟩)
    · refine .inr (.inl ⟨rfl, rfl, ?_, hempty.mpr hfree', by simp [hmoved]⟩)
      exact (squares_eq_none board heap ⟨by omega, by omega, hx, hx'⟩).mpr hfree
    · exact .inl ⟨rfl, rfl, hempty.mpr hfree⟩
  · rintro (⟨rfl, rfl, hfree⟩ | ⟨rfl, rfl, hmid, hfree, hmoved⟩ | ⟨rfl | rfl, rfl, henemy'⟩)
    · exact .inr (.inr ⟨hempty.mp hfree, .inr ⟨rfl, rfl⟩⟩)
    · refine .inr (.inr ⟨?_, .inl ⟨hempty.mp hfree, by simpa using hmoved, rfl, rfl⟩⟩)
      exact (squares_eq_none board heap ⟨by omega, by omega, hx, hx'⟩).mp hmid
    · refine .inl ⟨⟨⟨hinside.mpr ⟨hpy, hpy'⟩, by omega⟩, ?_⟩, rfl, rfl⟩
      rw [add_assoc]
      exact hdiag.mpr henemy'
    · refine .inr (.inl ⟨⟨⟨hinside.mpr ⟨hpy, hpy'⟩, by omega⟩, ?_⟩, rfl, rfl⟩)
      rw [add_sub_assoc]
      exact hdiag.mpr henemy'

/-- **The highlights of a black pawn**, on the squares where it may land. -/
theorem isOrange_bPawn (hm : isOrange mode115 m px py = false) {pawnMoved : Bool}
    (hlands : Lands (squares board heap) .bPawn px py) :
    isOrange mode115 (bPawnPositions mode115 board heap pawnMoved x y m) px py = true ↔
      PawnMove (squares board heap) .bPawn (pawnMoved = true) x y px py := by
  refine isOrange_pawn (t := .bPawn) h hp hm ?_ fun q hq => ?_
  · have hy := h.1
    rw [PieceType.forward_bPawn, decide_eq_true_eq]
    omega
  · have := hlands q hq
    cases q <;> simp_all [PieceType.isWhite, PieceType.toNat]

/-- **The highlights of a white pawn**, on the squares where it may land: it does not see the
black king. -/
theorem isOrange_wPawn (hm : isOrange mode115 m px py = false) {pawnMoved : Bool}
    (hlands : Lands (squares board heap) .wPawn px py) :
    isOrange mode115 (wPawnPositions mode115 board heap pawnMoved x y m) px py = true ↔
      PawnMove (squares board heap) .wPawn (pawnMoved = true) x y px py ∧
        squares board heap px py ≠ some .bKing := by
  have hinside : (decide (0 < y)) = true ↔
      0 ≤ y + PieceType.wPawn.forward ∧ y + PieceType.wPawn.forward < 8 := by
    have hy' := h.2.1
    rw [PieceType.forward_wPawn, decide_eq_true_eq]
    omega
  -- `type < 5` leaves out the black king, whose number is 5
  by_cases hking : squares board heap px py = some .bKing
  · simp only [hking, ne_eq, not_true_eq_false, and_false, iff_false]
    have hcell : board (py * 8 + px) ≠ none := fun hnone => by
      simp [(squares_eq_none board heap hp).mpr hnone] at hking
    have hholds : holds board heap (fun t => t.toNat < 5) (py * 8 + px) ≠ true := fun hq => by
      obtain ⟨q, hq, hlt⟩ := (holds_iff hp).mp hq
      obtain rfl : PieceType.bKing = q := Option.some.inj (hking.symm.trans hq)
      exact absurd hlt (by decide)
    rw [wPawnPositions, isOrange_pawnPositions h hp (.inr rfl), hm]
    simp only [Bool.and_eq_true, decide_eq_true_eq, Bool.false_eq_true, false_or]
    rintro (⟨⟨-, hdiag⟩, rfl, rfl⟩ | ⟨⟨-, hdiag⟩, rfl, rfl⟩ |
      ⟨hfree, ⟨hfree', -, rfl, rfl⟩ | ⟨rfl, rfl⟩⟩)
    · exact hholds (by rwa [← add_assoc])
    · exact hholds (by rwa [← add_sub_assoc])
    · exact hcell hfree'
    · exact hcell hfree
  · simp only [hking, ne_eq, not_false_eq_true, and_true]
    apply isOrange_pawn (t := .wPawn) h hp hm hinside
    intro q hq
    have := hlands q hq
    -- off the black king `type < 5` tells the colors apart
    have hne : q ≠ .bKing := fun he => hking (he ▸ hq)
    cases q <;> simp_all [PieceType.isWhite, PieceType.toNat]

end Pawns

/-- **The highlights and the rules**: on the squares where a piece may land, the highlights are
its moves, but for the black king, which a white pawn does not see. -/
theorem isOrange_iff_legalMove {board : ℤ → Option PieceRef} {heap : Heap} {m : Memory}
    (hclean : Clean m) {x y px py : ℤ} (h : OnBoard x y) (hp : OnBoard px py) {piece : Piece}
    (hown : squares board heap x y = some piece.type) :
    isOrange mode115 (possiblePosition mode115 board heap piece x y m) px py = true ∧
        Lands (squares board heap) piece.type px py ↔
      LegalMove (squares board heap) piece.type (piece.pawnMoved = true) x y px py ∧
        ¬ (piece.type = .wPawn ∧ squares board heap px py = some .bKing) := by
  have hm := hclean px py hp
  by_cases hlands : Lands (squares board heap) piece.type px py
  · rw [and_iff_left hlands]
    cases hpawn : piece.type.isPawn with
    | false =>
      have hne : piece.type ≠ .wPawn := fun he => by simp [he, PieceType.isPawn] at hpawn
      rw [isOrange_piece hclean h hp hpawn hown hlands]
      simp [LegalMove, hpawn, hne, PieceMove, hlands]
    | true =>
      obtain htype | htype : piece.type = .bPawn ∨ piece.type = .wPawn := by
        simpa [PieceType.isPawn] using hpawn
      · rw [htype] at hlands ⊢
        simp only [possiblePosition, htype, LegalMove, PieceType.isPawn]
        simpa using isOrange_bPawn h hp hm hlands
      · rw [htype] at hlands ⊢
        simp only [possiblePosition, htype, LegalMove, PieceType.isPawn]
        simpa using isOrange_wPawn h hp hm hlands
  · exact iff_of_false (fun hc => hlands hc.2) fun hc => hlands hc.1.lands

end LCChess
