import LCChess.Game.Board

/-!
# Highlighting the possible positions

`possiblePosition` paints the squares a pressed piece may move to orange, and the release
handler accepts a square when its top-left pixel is orange. The squares are found by loops
over the board; a square off the board is asked for as well, and the gate of `draw_rectangle`
drops it.

## Main definitions

* `highlight`, `isOrange`: painting a square, and the probe of the release handler
* `possiblePosition`: the highlights of a piece

## Main results

* `isOrange_highlight`, `isOrange_drawBoard`: the probe after a highlight, and after `drawBoard`
* `isOrange_slide`, `isOrange_diagonals`: the probe after the loops of rook, bishop and queen
-/

namespace LCChess

open Loop (forLoop forLoop_invariant)
open Memory (sameBytes sameBytes_iff)

/-- The color of a highlighted square. -/
def orange : ℕ := 0xed820e

/-- `draw_rectangle(board->mem_board, getScreenX(col), getScreenY(row), 59, 59, 0xed820e)`. -/
def highlight (g : Geometry) (memBoard : Memory) (col row : ℤ) : Memory :=
  drawRectangle g memBoard (u16 (getScreenX g col)) (u16 (getScreenY g row)) 59 59 orange

/-- The probe of the release handler: `memcmp` of the top-left pixel of a square and orange. -/
def isOrange (g : Geometry) (memBoard : Memory) (x y : ℤ) : Bool :=
  sameBytes memBoard (u32 (3 * (getScreenY g y * g.xResolution + getScreenX g x)))
    (colorBytes orange) 3

section Moves

variable (g : Geometry) (board : ℤ → Option PieceRef) (heap : Heap)

/-- The test `board->board[i] && enemy(board->board[i]->type)`. -/
def holds (enemy : PieceType → Bool) (i : ℤ) : Bool :=
  match board i with
  | some p => enemy (heap p).type
  | none => false

/-- The pawn branches: `dy` is the direction of the pawn, `inside` its edge guard, and `enemy`
the comparison of the numeric type of the piece on a diagonal. -/
def pawnPositions (dy : ℤ) (inside : Bool) (enemy : PieceType → Bool) (pawnMoved : Bool)
    (x y : ℤ) (m : Memory) : Memory :=
  let m := if inside && x < 7 && holds board heap enemy ((y + dy) * 8 + x + 1) then
    highlight g m (x + 1) (y + dy) else m
  let m := if inside && 0 < x && holds board heap enemy ((y + dy) * 8 + x - 1) then
    highlight g m (x - 1) (y + dy) else m
  if board ((y + dy) * 8 + x) = none then
    -- the second square has no edge guard: its cell may lie outside the array
    let m := if board ((y + 2 * dy) * 8 + x) = none ∧ pawnMoved = false then
      highlight g m x (y + 2 * dy) else m
    highlight g m x (y + dy)
  else m

/-- The branch `b_pawn`: the pieces from the black king on count as enemies. -/
def bPawnPositions (pawnMoved : Bool) (x y : ℤ) (m : Memory) : Memory :=
  pawnPositions g board heap 1 (y < 7) (fun t => 5 ≤ t.toNat) pawnMoved x y m

/-- The branch `w_pawn`: the pieces before the black king count as enemies. -/
def wPawnPositions (pawnMoved : Bool) (x y : ℤ) (m : Memory) : Memory :=
  pawnPositions g board heap (-1) (0 < y) (fun t => t.toNat < 5) pawnMoved x y m

/-- The offsets of the knight branch, in order. -/
def knightOffsets : List (ℤ × ℤ) :=
  [(2, -1), (2, 1), (-2, -1), (-2, 1), (1, 2), (1, -2), (-1, -2), (-1, 2)]

/-- The offsets of the king branch, in order. -/
def kingOffsets : List (ℤ × ℤ) :=
  [(1, 1), (1, 0), (1, -1), (0, 1), (0, -1), (-1, 1), (-1, 0), (-1, -1)]

/-- The branches of knight and king: every offset, whatever stands there. -/
def offsetPositions (offsets : List (ℤ × ℤ)) (x y : ℤ) (m : Memory) : Memory :=
  offsets.foldl (fun m d => highlight g m (x + d.1) (y + d.2)) m

/-- A rank or file loop: the squares from `k` steps on, `n` at most, up to the first piece
other than the one on the origin itself. -/
def slide (x y dx dy : ℤ) : ℕ → ℕ → Memory → Memory
  | 0, _, m => m
  | n + 1, k, m =>
    let m := highlight g m (x + k * dx) (y + k * dy)
    if k ≠ 0 ∧ board ((y + k * dy) * 8 + (x + k * dx)) ≠ none then m
    else slide x y dx dy n (k + 1) m

/-- The four loops of the rook branch: up, down, right, left, each to the edge. -/
def rookPositions (x y : ℤ) (m : Memory) : Memory :=
  let m := slide g board x y 0 (-1) (y + 1).toNat 0 m
  let m := slide g board x y 0 1 (8 - y).toNat 0 m
  let m := slide g board x y 1 0 (8 - x).toNat 0 m
  slide g board x y (-1) 0 (x + 1).toNat 0 m

/-- One direction of the diagonal loop at distance `i`: its flag and `mem_board`. -/
def diagonalStep (x y dx dy : ℤ) (i : ℕ) (s : Bool × Memory) : Bool × Memory :=
  -- a piece ends the direction, but is highlighted itself
  if board ((y + i * dy) * 8 + (x + i * dx)) ≠ none ∧ s.1 = true then
    (false, highlight g s.2 (x + i * dx) (y + i * dy))
  else if s.1 then (s.1, highlight g s.2 (x + i * dx) (y + i * dy))
  else s

/-- One iteration of the diagonal loop, with its flags `one` to `four`. -/
def diagonalsBody (x y : ℤ) (i : ℕ) (s : (Bool × Bool × Bool × Bool) × Memory) :
    (Bool × Bool × Bool × Bool) × Memory :=
  let one := diagonalStep g board x y 1 1 i (s.1.1, s.2)
  let two := diagonalStep g board x y 1 (-1) i (s.1.2.1, one.2)
  let three := diagonalStep g board x y (-1) (-1) i (s.1.2.2.1, two.2)
  let four := diagonalStep g board x y (-1) 1 i (s.1.2.2.2, three.2)
  ((one.1, two.1, three.1, four.1), four.2)

/-- The diagonal loop of bishop and queen. -/
def diagonals (x y : ℤ) (m : Memory) : Memory :=
  (forLoop 1 8 (diagonalsBody g board x y) ((true, true, true, true), m)).2

/-- `possiblePosition`: `mem_board` with the highlights of `piece` on `(x, y)`. It also copies
the buffer to `video_mem_buffer`. -/
def possiblePosition (piece : Piece) (x y : ℤ) (m : Memory) : Memory :=
  match piece.type with
  | .bPawn => bPawnPositions g board heap piece.pawnMoved x y m
  | .wPawn => wPawnPositions g board heap piece.pawnMoved x y m
  | .wKnight | .bKnight => offsetPositions g knightOffsets x y m
  | .wKing | .bKing => offsetPositions g kingOffsets x y m
  | .bRook | .wRook => rookPositions g board x y m
  | .bBishop | .wBishop => diagonals g board x y m
  -- the diagonals come first, so that a queen reads like a bishop and then like a rook
  | .wQueen | .bQueen => rookPositions g board x y (diagonals g board x y m)

end Moves

/-- The highlights depend on the types of the pieces, and on whether a pressed pawn has moved. -/
theorem possiblePosition_congr (g : Geometry) (board : ℤ → Option PieceRef) {heap heap' : Heap}
    (htype : ∀ q, (heap q).type = (heap' q).type) {piece piece' : Piece}
    (hpiece : piece.type = piece'.type) (hmoved : piece.pawnMoved = piece'.pawnMoved) (x y : ℤ)
    (m : Memory) :
    possiblePosition g board heap piece x y m = possiblePosition g board heap' piece' x y m := by
  have hholds : holds board heap = holds board heap' := by
    funext enemy i
    unfold holds
    split
    · rw [htype]
    · rfl
  unfold possiblePosition bPawnPositions wPawnPositions pawnPositions
  rw [hpiece, hmoved, hholds]

/-! ## What every highlight preserves -/

section Keeps

variable {g : Geometry} (keep : Memory → Prop)
  (h : ∀ m col row, keep m → keep (highlight g m col row)) (board : ℤ → Option PieceRef)
  (heap : Heap) (x y : ℤ) {m : Memory}
include h

theorem pawnPositions_keeps (dy : ℤ) (inside : Bool) (enemy : PieceType → Bool) (pawnMoved : Bool)
    (hm : keep m) : keep (pawnPositions g board heap dy inside enemy pawnMoved x y m) := by
  have hmark : ∀ (c : Prop) [Decidable c] (m : Memory) (col row : ℤ), keep m →
      keep (if c then highlight g m col row else m) := by
    intro c _ m col row hm
    split
    · exact h m col row hm
    · exact hm
  unfold pawnPositions
  dsimp only
  split
  · exact h _ _ _ (hmark _ _ _ _ (hmark _ _ _ _ (hmark _ _ _ _ hm)))
  · exact hmark _ _ _ _ (hmark _ _ _ _ hm)

theorem offsetPositions_keeps (offsets : List (ℤ × ℤ)) (hm : keep m) :
    keep (offsetPositions g offsets x y m) := by
  induction offsets generalizing m with
  | nil => exact hm
  | cons d offsets ih => exact ih (h m _ _ hm)

theorem slide_keeps (dx dy : ℤ) (n k : ℕ) (hm : keep m) :
    keep (slide g board x y dx dy n k m) := by
  induction n generalizing k m with
  | zero => exact hm
  | succ n ih =>
    unfold slide
    dsimp only
    split
    · exact h _ _ _ hm
    · exact ih (k + 1) (h _ _ _ hm)

theorem rookPositions_keeps (hm : keep m) : keep (rookPositions g board x y m) := by
  unfold rookPositions
  exact slide_keeps keep h board x y _ _ _ _ (slide_keeps keep h board x y _ _ _ _
    (slide_keeps keep h board x y _ _ _ _ (slide_keeps keep h board x y _ _ _ _ hm)))

theorem diagonals_keeps (hm : keep m) : keep (diagonals g board x y m) := by
  have hstep : ∀ (dx dy : ℤ) (i : ℕ) (s : Bool × Memory), keep s.2 →
      keep (diagonalStep g board x y dx dy i s).2 := by
    intro dx dy i s hs
    unfold diagonalStep
    split_ifs
    · exact h _ _ _ hs
    · exact h _ _ _ hs
    · exact hs
  refine forLoop_invariant (fun _ (s : (Bool × Bool × Bool × Bool) × Memory) => keep s.2)
    (by decide) (fun i s _ _ hs => ?_) hm
  exact hstep _ _ _ _ (hstep _ _ _ _ (hstep _ _ _ _ (hstep _ _ _ _ hs)))

/-- What every highlight preserves, `possiblePosition` preserves. -/
theorem possiblePosition_keeps (piece : Piece) (hm : keep m) :
    keep (possiblePosition g board heap piece x y m) := by
  unfold possiblePosition
  cases piece.type with
  | bPawn => exact pawnPositions_keeps keep h board heap x y _ _ _ _ hm
  | wPawn => exact pawnPositions_keeps keep h board heap x y _ _ _ _ hm
  | bKnight => exact offsetPositions_keeps keep h x y _ hm
  | wKnight => exact offsetPositions_keeps keep h x y _ hm
  | bKing => exact offsetPositions_keeps keep h x y _ hm
  | wKing => exact offsetPositions_keeps keep h x y _ hm
  | bRook => exact rookPositions_keeps keep h board x y hm
  | wRook => exact rookPositions_keeps keep h board x y hm
  | bBishop => exact diagonals_keeps keep h board x y hm
  | wBishop => exact diagonals_keeps keep h board x y hm
  | bQueen => exact rookPositions_keeps keep h board x y (diagonals_keeps keep h board x y hm)
  | wQueen => exact rookPositions_keeps keep h board x y (diagonals_keeps keep h board x y hm)

end Keeps

/-! ## The probe in mode `0x115` -/

section Probe

variable (m : Memory) {x y col row : ℤ}

theorem fits_mode115 : vramSize mode115 < 4294967296 := by decide

/-- The probe reads the top-left pixel of its square. -/
theorem isOrange_iff (h : OnBoard x y) :
    isOrange mode115 m x y = true ↔
      ∀ k < 3, m (pixelAddr mode115 (59 * x + 65).toNat (59 * y + 64).toNat + k) =
        colorBytes orange k := by
  obtain ⟨hy, hy', hx, hx'⟩ := h
  have haddr : u32 (3 * (getScreenY mode115 y * mode115.xResolution + getScreenX mode115 x)) =
      pixelAddr mode115 (59 * x + 65).toNat (59 * y + 64).toNat := by
    rw [getScreenX_mode115 (by omega) (by omega), getScreenY_mode115 (by omega) (by omega)]
    simp only [u32, mode115, pixelAddr, Memory.cellAddr]
    omega
  rw [isOrange, sameBytes_iff, haddr]

/-- Painting a square of the board changes the top-left pixel of that square alone. -/
theorem drawRectangle_probe (color : ℕ) (h : OnBoard x y) (hs : OnBoard col row) {k : ℕ}
    (hk : k < 3) :
    drawRectangle mode115 m (u16 (getScreenX mode115 col)) (u16 (getScreenY mode115 row)) 59 59
        color (pixelAddr mode115 (59 * x + 65).toNat (59 * y + 64).toNat + k) =
      if x = col ∧ y = row then colorBytes color k
      else m (pixelAddr mode115 (59 * x + 65).toNat (59 * y + 64).toNat + k) := by
  obtain ⟨hy, hy', hx, hx'⟩ := h
  obtain ⟨hrow, hrow', hcol, hcol'⟩ := hs
  have hgateX := (getBoardX_getScreenX_mode115 (show -7 ≤ col by omega) (by omega)).mpr
    ⟨hcol, hcol'⟩
  have hgateY := (getBoardY_getScreenY_mode115 (show -7 ≤ row by omega) (by omega)).mpr
    ⟨hrow, hrow'⟩
  -- inside its gate the rectangle covers exactly the 59 by 59 pixels of its square
  rw [drawRectangle_pixel fits_mode115 (by decide) m 59 59 color
    ⟨hgateX.1, hgateX.2, hgateY.1, hgateY.2⟩ (show _ < 800 by omega) (show _ < 600 by omega) hk]
  rw [getScreenX_mode115 (by omega) (by omega), getScreenY_mode115 (by omega) (by omega)]
  have hleft := u16_of_nonneg (show 0 ≤ 59 * col + 65 by omega) (by omega)
  have htop := u16_of_nonneg (show 0 ≤ 59 * row + 64 by omega) (by omega)
  exact if_congr (by omega) rfl rfl

/-- A rectangle at a square off the board draws nothing. -/
theorem drawRectangle_offBoard (color : ℕ) (hcol : -7 ≤ col) (hcol' : col ≤ 14)
    (hrow : -7 ≤ row) (hrow' : row ≤ 14) (h : ¬ OnBoard col row) :
    drawRectangle mode115 m (u16 (getScreenX mode115 col)) (u16 (getScreenY mode115 row)) 59 59
      color = m := by
  -- `draw_rectangle` tests the corner of the rectangle with `getBoardX` and `getBoardY`
  refine if_neg fun hgate => h ?_
  obtain ⟨hx, hx', hy, hy'⟩ := hgate
  have hc := (getBoardX_getScreenX_mode115 hcol hcol').mp ⟨hx, hx'⟩
  have hr := (getBoardY_getScreenY_mode115 hrow hrow').mp ⟨hy, hy'⟩
  exact ⟨hr.1, hr.2, hc.1, hc.2⟩

/-- A highlight marks its square, if that is on the board, and no other. -/
theorem isOrange_highlight (col row : ℤ) (h : OnBoard x y) (hcol : -7 ≤ col) (hcol' : col ≤ 14)
    (hrow : -7 ≤ row) (hrow' : row ≤ 14) :
    isOrange mode115 (highlight mode115 m col row) x y = true ↔
      isOrange mode115 m x y = true ∨ (x = col ∧ y = row) := by
  by_cases hs : OnBoard col row
  · rw [isOrange_iff _ h, isOrange_iff _ h]
    simp only [highlight]
    by_cases he : x = col ∧ y = row
    · refine iff_of_true (fun k hk => ?_) (Or.inr he)
      rw [drawRectangle_probe m orange h hs hk, if_pos he]
    · rw [or_iff_left he]
      refine forall₂_congr fun k hk => ?_
      rw [drawRectangle_probe m orange h hs hk, if_neg he]
  · rw [highlight, drawRectangle_offBoard m orange hcol hcol' hrow hrow' hs]
    refine (or_iff_left fun he => hs ?_).symm
    rw [← he.1, ← he.2]
    exact h

/-! ## `drawBoard` erases every highlight -/

/-- The first byte of the probe pixel of `(x, y)` is not the one of orange. -/
def Painted (x y : ℤ) (m : Memory) : Prop :=
  m (pixelAddr mode115 (59 * x + 65).toNat (59 * y + 64).toNat + 0) ≠ colorBytes orange 0

theorem otherColor_ne_orange (color : ℕ) :
    colorBytes (otherColor color) 0 ≠ colorBytes orange 0 := by
  unfold otherColor
  split <;> decide

/-- The rectangle `drawBoard` paints for a square is the one `highlight` paints. -/
theorem drawBoard_square (color : ℕ) {col row : ℕ} (hcol : col < 8) (hrow : row < 8) :
    drawRectangle mode115 m
        (u16 ((col : ℤ) * (mode115.rectangleWidth : ℤ) + (mode115.leftRectangleWidth : ℤ)))
        (u16 ((row : ℤ) * (mode115.rectangleHeight : ℤ) +
          ((mode115.verticalMargin / 2 : ℕ) : ℤ)))
        (u16 mode115.rectangleWidth) (u16 mode115.rectangleHeight) color =
      drawRectangle mode115 m (u16 (getScreenX mode115 col)) (u16 (getScreenY mode115 row)) 59 59
        color := by
  rw [getScreenX_mode115 (by omega) (by omega), getScreenY_mode115 (by omega) (by omega)]
  congr 2
  · simp only [mode115]
    omega
  · simp only [mode115]
    omega

theorem painted_square (h : OnBoard x y) {color : ℕ}
    (hcolor : colorBytes color 0 ≠ colorBytes orange 0) {col row : ℤ} (hs : OnBoard col row)
    (hm : (x = col ∧ y = row) ∨ Painted x y m) :
    Painted x y (drawRectangle mode115 m (u16 (getScreenX mode115 col))
      (u16 (getScreenY mode115 row)) 59 59 color) := by
  unfold Painted
  rw [drawRectangle_probe m color h hs (by decide)]
  split
  · exact hcolor
  · rename_i hne
    exact hm.resolve_left hne

/-- Painting a row paints its squares, and keeps the squares painted before. -/
theorem painted_drawRow (h : OnBoard x y) {row : ℕ} (hrow : row < 8) (s : ℕ × Memory)
    (hs : y < row → Painted x y s.2) (hle : y ≤ row) :
    Painted x y (drawRow mode115 row s).2 := by
  obtain ⟨hy, hy', hx, hx'⟩ := id h
  -- the invariant of the columns: the squares before are painted, the rows above too
  have hall : (y < row ∨ x < (8 : ℕ)) →
      Painted x y (forLoop 0 8 (drawSquare mode115 row) s).2 := by
    refine forLoop_invariant
      (fun col (s : ℕ × Memory) => (y < row ∨ x < col) → Painted x y s.2)
      (Nat.zero_le 8) (fun col s _ hcol ih hdone => ?_) (fun hdone => hs (by omega))
    simp only [drawSquare, drawBoard_square _ _ hcol hrow]
    have hsquare : OnBoard (col : ℤ) (row : ℤ) := ⟨by omega, by omega, by omega, by omega⟩
    apply painted_square _ h (otherColor_ne_orange _) hsquare
    by_cases he : x = col ∧ y = row
    · exact Or.inl he
    · exact Or.inr (ih (by omega))
  simp only [drawRow]
  exact hall (by omega)

/-- After `drawBoard` no square is orange: each is painted in one of the two square colors. -/
theorem isOrange_drawBoard (h : OnBoard x y) :
    isOrange mode115 (drawBoard mode115 m) x y = false := by
  obtain ⟨hy, hy', hx, hx'⟩ := id h
  -- the invariant of the rows
  have hall : y < (8 : ℕ) → Painted x y (forLoop 0 8 (drawRow mode115) (color1, m)).2 :=
    forLoop_invariant (fun row (s : ℕ × Memory) => y < row → Painted x y s.2)
      (Nat.zero_le 8) (fun row s _ hrow ih hdone => painted_drawRow h hrow s ih (by omega))
      (fun hdone => by omega)
  rw [← Bool.not_eq_true, isOrange_iff _ h]
  unfold drawBoard
  exact fun horange => hall (by omega) (horange 0 (by decide))

end Probe

/-- An image right of the board highlights no square. -/
theorem isOrange_drawImage (m : Memory) (img : XpmImage) {x y : ℤ} (h : OnBoard x y) {col row : ℕ}
    (hcol : 537 ≤ col) :
    isOrange mode115 (drawImage mode115 m img col row) x y = isOrange mode115 m x y := by
  obtain ⟨hy, hy', hx, hx'⟩ := id h
  rw [Bool.eq_iff_iff, isOrange_iff _ h, isOrange_iff _ h]
  refine forall₂_congr fun k hk => ?_
  rw [drawImage_left fits_mode115 m img (by omega) hk]

/-! ## The probe after the loops of `possiblePosition` -/

section Loops

variable (board : ℤ → Option PieceRef) (m : Memory) {x y px py : ℤ}

/-- The offset branches mark the squares at the offsets. -/
theorem isOrange_offsetPositions (hp : OnBoard px py) (h : OnBoard x y)
    {offsets : List (ℤ × ℤ)}
    (hoff : ∀ d ∈ offsets, (-2 ≤ d.1 ∧ d.1 ≤ 2) ∧ (-2 ≤ d.2 ∧ d.2 ≤ 2)) :
    isOrange mode115 (offsetPositions mode115 offsets x y m) px py = true ↔
      isOrange mode115 m px py = true ∨ ∃ d ∈ offsets, px = x + d.1 ∧ py = y + d.2 := by
  obtain ⟨hy, hy', hx, hx'⟩ := id h
  -- each offset adds its own mark to the memory that it finds
  induction offsets generalizing m with
  | nil => simp [offsetPositions]
  | cons d offsets ih =>
    obtain ⟨hd, hd'⟩ := hoff d (List.mem_cons_self ..)
    have hrest := ih (highlight mode115 m (x + d.1) (y + d.2))
      fun e he => hoff e (List.mem_cons_of_mem _ he)
    rw [isOrange_highlight m _ _ hp (by omega) (by omega) (by omega) (by omega)] at hrest
    simpa only [offsetPositions, List.foldl_cons, List.exists_mem_cons_iff, or_assoc] using hrest

/-- A rank or file loop marks the squares from step `k` on, up to the first piece. -/
theorem isOrange_slide (hp : OnBoard px py) {dx dy : ℤ} {n k : ℕ}
    (hin : ∀ j : ℕ, k ≤ j → j < k + n → OnBoard (x + j * dx) (y + j * dy)) :
    isOrange mode115 (slide mode115 board x y dx dy n k m) px py = true ↔
      isOrange mode115 m px py = true ∨
        ∃ j : ℕ, (k ≤ j ∧ j < k + n) ∧ (px = x + j * dx ∧ py = y + j * dy) ∧
          ∀ i : ℕ, k ≤ i → i < j → i ≠ 0 →
            board ((y + i * dy) * 8 + (x + i * dx)) = none := by
  -- on the squares left; `k` steps have been made
  induction n generalizing k m with
  | zero =>
    refine (or_iff_left ?_).symm
    rintro ⟨j, hj, -⟩
    omega
  | succ n ih =>
    obtain ⟨hy, hy', hx, hx'⟩ := hin k le_rfl (by omega)
    have hhead := isOrange_highlight m (x + k * dx) (y + k * dy) hp (by omega) (by omega)
      (by omega) (by omega)
    simp only [slide]
    split
    · -- the loop stops behind a piece
      rename_i hstop
      rw [hhead]
      refine or_congr Iff.rfl ⟨fun he => ⟨k, by omega, he, fun i hi hik => by omega⟩, ?_⟩
      rintro ⟨j, hj, he, hfree⟩
      obtain rfl | hlt : k = j ∨ k < j := by omega
      · exact he
      · exact absurd (hfree k le_rfl hlt hstop.1) hstop.2
    -- the square is marked, and the loop goes on behind it
    · rename_i hgo
      rw [ih _ fun j hj hj' => hin j (by omega) (by omega), hhead, or_assoc]
      refine or_congr Iff.rfl ⟨?_, ?_⟩
      · rintro (he | ⟨j, hj, he, hfree⟩)
        · exact ⟨k, by omega, he, fun i hi hik => by omega⟩
        · refine ⟨j, by omega, he, fun i hi hij hi0 => ?_⟩
          obtain rfl | hlt : k = i ∨ k < i := by omega
          · by_contra hne
            exact hgo ⟨hi0, hne⟩
          · exact hfree i hlt hij hi0
      · rintro ⟨j, hj, he, hfree⟩
        obtain rfl | hlt : k = j ∨ k < j := by omega
        · exact Or.inl he
        · exact Or.inr ⟨j, by omega, he, fun i hi hij hi0 => hfree i (by omega) hij hi0⟩

/-- No piece stands in the first `i - 1` cells read in a diagonal direction. -/
def FreeBefore (x y dx dy : ℤ) (i : ℕ) : Prop :=
  ∀ j : ℕ, 1 ≤ j → j < i → board ((y + j * dy) * 8 + (x + j * dx)) = none

/-- The squares a diagonal direction has marked before distance `i`. -/
def MarkedBefore (x y dx dy px py : ℤ) (i : ℕ) : Prop :=
  ∃ j : ℕ, (1 ≤ j ∧ j < i) ∧ (px = x + j * dx ∧ py = y + j * dy) ∧
    FreeBefore board x y dx dy j

theorem freeBefore_succ {dx dy : ℤ} {i : ℕ} (hi : 1 ≤ i) :
    FreeBefore board x y dx dy (i + 1) ↔
      FreeBefore board x y dx dy i ∧ board ((y + i * dy) * 8 + (x + i * dx)) = none := by
  constructor
  · exact fun h => ⟨fun j hj hji => h j hj (by omega), h i hi (by omega)⟩
  · rintro ⟨h, hlast⟩ j hj hji
    obtain rfl | hlt : j = i ∨ j < i := by omega
    · exact hlast
    · exact h j hj hlt

theorem markedBefore_succ {dx dy : ℤ} {i : ℕ} (hi : 1 ≤ i) :
    MarkedBefore board x y dx dy px py (i + 1) ↔
      MarkedBefore board x y dx dy px py i ∨
        (FreeBefore board x y dx dy i ∧ px = x + i * dx ∧ py = y + i * dy) := by
  constructor
  · rintro ⟨j, hj, he, hfree⟩
    obtain rfl | hlt : j = i ∨ j < i := by omega
    · exact Or.inr ⟨hfree, he⟩
    · exact Or.inl ⟨j, by omega, he, hfree⟩
  · rintro (⟨j, hj, he, hfree⟩ | ⟨hfree, he⟩)
    · exact ⟨j, by omega, he, hfree⟩
    · exact ⟨i, by omega, he, hfree⟩

/-- One step of a diagonal direction keeps its flag and marks its square. -/
theorem diagonalStep_spec (hp : OnBoard px py) (h : OnBoard x y) {dx dy : ℤ}
    (hd : dx = 1 ∨ dx = -1) (hd' : dy = 1 ∨ dy = -1) {i : ℕ} (hi : 1 ≤ i) (hi' : i < 8)
    {flag : Bool} (hflag : flag = true ↔ FreeBefore board x y dx dy i) :
    ((diagonalStep mode115 board x y dx dy i (flag, m)).1 = true ↔
        FreeBefore board x y dx dy (i + 1)) ∧
      (isOrange mode115 (diagonalStep mode115 board x y dx dy i (flag, m)).2 px py = true ↔
        isOrange mode115 m px py = true ∨
          (FreeBefore board x y dx dy i ∧ px = x + i * dx ∧ py = y + i * dy)) := by
  obtain ⟨hy, hy', hx, hx'⟩ := id h
  have hhead := isOrange_highlight m (x + i * dx) (y + i * dy) hp
    (by rcases hd with rfl | rfl <;> omega) (by rcases hd with rfl | rfl <;> omega)
    (by rcases hd' with rfl | rfl <;> omega) (by rcases hd' with rfl | rfl <;> omega)
  rw [freeBefore_succ board hi]
  unfold diagonalStep
  -- a flag that is down stays down, and marks nothing any more
  by_cases hf : flag = true
  · have hfree := hflag.mp hf
    by_cases hcell : board ((y + i * dy) * 8 + (x + i * dx)) = none
    · simp [hf, hcell, hfree, hhead]
    · simp [hf, hcell, hfree, hhead]
  · have hfree := mt hflag.mpr hf
    simp [hf, hfree]

/-- The invariant of the diagonal loop: the flags and the marks before distance `i`. -/
structure DiagonalInv (x y px py : ℤ) (i : ℕ) (s : (Bool × Bool × Bool × Bool) × Memory) :
    Prop where
  one : s.1.1 = true ↔ FreeBefore board x y 1 1 i
  two : s.1.2.1 = true ↔ FreeBefore board x y 1 (-1) i
  three : s.1.2.2.1 = true ↔ FreeBefore board x y (-1) (-1) i
  four : s.1.2.2.2 = true ↔ FreeBefore board x y (-1) 1 i
  marks : isOrange mode115 s.2 px py = true ↔
    isOrange mode115 m px py = true ∨
      MarkedBefore board x y 1 1 px py i ∨ MarkedBefore board x y 1 (-1) px py i ∨
      MarkedBefore board x y (-1) (-1) px py i ∨ MarkedBefore board x y (-1) 1 px py i

/-- The marks of one iteration, sorted by direction. -/
theorem or_by_direction {o m1 m2 m3 m4 n1 n2 n3 n4 : Prop} :
    ((((o ∨ m1 ∨ m2 ∨ m3 ∨ m4) ∨ n1) ∨ n2) ∨ n3) ∨ n4 ↔
      o ∨ (m1 ∨ n1) ∨ (m2 ∨ n2) ∨ (m3 ∨ n3) ∨ (m4 ∨ n4) := by
  tauto

theorem diagonalInv_body (hp : OnBoard px py) (h : OnBoard x y) {i : ℕ} (hi : 1 ≤ i)
    (hi' : i < 8) {s : (Bool × Bool × Bool × Bool) × Memory}
    (hs : DiagonalInv board m x y px py i s) :
    DiagonalInv board m x y px py (i + 1) (diagonalsBody mode115 board x y i s) := by
  -- the four directions are stepped one after the other; each starts from the marks of the last
  obtain ⟨f1, o1⟩ := diagonalStep_spec board s.2 hp h (.inl rfl) (.inl rfl) hi hi' hs.one
  obtain ⟨f2, o2⟩ := diagonalStep_spec board _ hp h (.inl rfl) (.inr rfl) hi hi' hs.two
  obtain ⟨f3, o3⟩ := diagonalStep_spec board _ hp h (.inr rfl) (.inr rfl) hi hi' hs.three
  obtain ⟨f4, o4⟩ := diagonalStep_spec board _ hp h (.inr rfl) (.inl rfl) hi hi' hs.four
  refine ⟨f1, f2, f3, f4, ?_⟩
  simp only [markedBefore_succ board hi]
  rw [← or_by_direction, ← hs.marks, ← o1, ← o2, ← o3, ← o4]
  rfl

/-- The diagonal loop marks the squares of its four directions up to the first piece. -/
theorem isOrange_diagonals (hp : OnBoard px py) (h : OnBoard x y) :
    isOrange mode115 (diagonals mode115 board x y m) px py = true ↔
      isOrange mode115 m px py = true ∨
        MarkedBefore board x y 1 1 px py 8 ∨ MarkedBefore board x y 1 (-1) px py 8 ∨
        MarkedBefore board x y (-1) (-1) px py 8 ∨ MarkedBefore board x y (-1) 1 px py 8 := by
  have hstart : DiagonalInv board m x y px py 1 ((true, true, true, true), m) := by
    have hfree : ∀ dx dy, FreeBefore board x y dx dy 1 := fun dx dy j hj hj' => by omega
    have hmark : ∀ dx dy, ¬ MarkedBefore board x y dx dy px py 1 := by
      rintro dx dy ⟨j, hj, -⟩
      omega
    constructor <;> simp [hfree, hmark]
  have hend : DiagonalInv board m x y px py 8
      (forLoop 1 8 (diagonalsBody mode115 board x y) ((true, true, true, true), m)) :=
    forLoop_invariant (DiagonalInv board m x y px py) (by decide)
      (fun i s hi hi' hs => diagonalInv_body board m hp h hi hi' hs) hstart
  unfold diagonals
  exact hend.marks

end Loops

end LCChess
