import LCChess.Game.Piece

/-!
# The board

The board of `board.c`: two frame buffers and the array of 64 piece pointers. The array is
modelled by what is read through `board->board[i]` for *every* index `i`: indices `0` to `63`
are the cells, and the other indices read whatever memory surrounds the array.

## Main definitions

* `Board`, `initBoard`: the board, and the initial position with its 32 pieces
* `drawBoard`: painting the 64 squares
* `updateBoard`, `drawBoardPieces`: the work of one frame
* `eachPiece`: the loops over the pieces of the board

## Main results

* `eachPiece_keeps`, `eachPiece_reaches`, `eachPiece_related`: the loops over the pieces
* `updateBoard_piece`, `updateBoard_redraw`: what a frame does to a piece, and when it redraws
* `type_updateBoard`: a frame changes the type of no piece
-/

namespace LCChess

open Loop (forLoop forLoop_invariant forLoop_keeps forLoop_reaches forLoop_related)

/-- `Board`. -/
structure Board where
  memBoard : Memory
  memPieces : Memory
  board : ℤ → Option PieceRef

/-- `get_position`. -/
def getPosition (x y : ℤ) : ℤ := x + y * 8

/-- The calls of `createPiece` in `initBoard`, in order: type, column and row. -/
def initialPieces : List (PieceType × ℤ × ℤ) :=
  [(.bRook, 0, 0), (.bKnight, 1, 0), (.bBishop, 2, 0), (.bQueen, 3, 0), (.bKing, 4, 0),
    (.bBishop, 5, 0), (.bKnight, 6, 0), (.bRook, 7, 0),
    (.bPawn, 0, 1), (.bPawn, 1, 1), (.bPawn, 2, 1), (.bPawn, 3, 1), (.bPawn, 4, 1),
    (.bPawn, 5, 1), (.bPawn, 6, 1), (.bPawn, 7, 1),
    (.wRook, 0, 7), (.wKnight, 1, 7), (.wBishop, 2, 7), (.wQueen, 3, 7), (.wKing, 4, 7),
    (.wBishop, 5, 7), (.wKnight, 6, 7), (.wRook, 7, 7),
    (.wPawn, 0, 6), (.wPawn, 1, 6), (.wPawn, 2, 6), (.wPawn, 3, 6), (.wPawn, 4, 6),
    (.wPawn, 5, 6), (.wPawn, 6, 6), (.wPawn, 7, 6)]

/-- `createPiece`, when `malloc` returns the reference `p`. -/
def createPiece (g : Geometry) (board : ℤ → Option PieceRef) (heap : Heap) (p : PieceRef)
    (type : PieceType) (x y : ℤ) : (ℤ → Option PieceRef) × Heap :=
  (Function.update board (getPosition x y) (some p),
    Function.update heap p
      (initPiece (heap p) type (i32 (x * g.rectangleWidth + g.leftRectangleWidth))
        (i32 (((g.verticalMargin / 2 : ℕ) : ℤ) + y * g.rectangleHeight))))

/-- The cells and the pieces `initBoard` creates; the `k`-th piece gets the reference `k`. -/
def initPieces (g : Geometry) (board : ℤ → Option PieceRef) (heap : Heap) :
    (ℤ → Option PieceRef) × Heap :=
  initialPieces.zipIdx.foldl
    (fun s c => createPiece g s.1 s.2 c.2 c.1.1 c.1.2.1 c.1.2.2)
    (fun i => if 0 ≤ i ∧ i < 64 then none else board i, heap)

/-- `initBoard`: the board and the pieces. It also sets `redrawPieces`. -/
def initBoard (g : Geometry) (b : Board) (heap : Heap) : Board × Heap :=
  let (board, heap) := initPieces g b.board heap
  ({ memBoard := vgClear g b.memBoard, memPieces := vgClear g b.memPieces, board := board }, heap)

/-- `color1`. -/
def color1 : ℕ := 0x3cb043

/-- `color2`. -/
def color2 : ℕ := 0xFFFDD0

/-- `atual_color==color1 ? color2 : color1`. -/
def otherColor (atualColor : ℕ) : ℕ := if atualColor = color1 then color2 else color1

/-- One square of `drawBoard`. -/
def drawSquare (g : Geometry) (row col : ℕ) (s : ℕ × Memory) : ℕ × Memory :=
  (otherColor s.1,
    drawRectangle g s.2 (u16 (col * g.rectangleWidth + g.leftRectangleWidth))
      (u16 (row * g.rectangleHeight + (g.verticalMargin / 2 : ℕ))) (u16 g.rectangleWidth)
      (u16 g.rectangleHeight) (otherColor s.1))

/-- One row of `drawBoard`: `atual_color` and `mem_board`. -/
def drawRow (g : Geometry) (row : ℕ) (s : ℕ × Memory) : ℕ × Memory :=
  let s := forLoop 0 8 (drawSquare g row) s
  -- the color is switched once more behind a row, so that the next one begins with the other
  (otherColor s.1, s.2)

/-- `drawBoard`: the 64 squares. It also sets `redrawPieces`. -/
def drawBoard (g : Geometry) (memBoard : Memory) : Memory :=
  (forLoop 0 8 (drawRow g) (color1, memBoard)).2

/-- The body of the loops of `updateBoard` for the piece `p` of a cell: the heap and
`redrawPieces`. -/
def updateCell (animation : Bool) (p : PieceRef) (s : Heap × Bool) : Heap × Bool :=
  let heap :=
    if (s.1 p).isMoving then
      Function.update s.1 p
        (if animation then (updatePiece (s.1 p)).2 else (updatePieceNoAnimation (s.1 p)).2)
    else s.1
  -- `change` of a piece asks for one redrawing of all pieces
  if (heap p).change then (Function.update heap p { heap p with change := false }, true)
  else (heap, s.2)

/-- `updateBoard`: the heap and `redrawPieces`. -/
def updateBoard (board : ℤ → Option PieceRef) (animation : Bool) (s : Heap × Bool) :
    Heap × Bool :=
  forLoop 0 8
    (fun row => forLoop 0 8
      (fun col s =>
        match board (getPosition col row) with
        | some p => updateCell animation p s
        | none => s))
    s

/-- The pieces of `board` whose priority is `priority`, drawn into `mem` in row-major order. -/
def drawPriority (d : Display) (board : ℤ → Option PieceRef) (heap : Heap) (priority : Bool)
    (mem : Memory) : Memory :=
  forLoop 0 8
    (fun row => forLoop 0 8
      (fun col mem =>
        match board (getPosition col row) with
        | some p => if (heap p).priorityDraw = priority then drawPieces d mem (heap p) else mem
        | none => mem))
    mem

/-- `drawBoardPieces`: `mem_pieces` and `video_mem_buffer`. It also clears `redrawPieces`. -/
def drawBoardPieces (d : Display) (b : Board) (heap : Heap) (redrawPieces : Bool)
    (videoMemBuffer : Memory) : Memory × Memory :=
  let memPieces :=
    if redrawPieces then
      -- the cache holds the pieces without priority; it is kept until something changes
      drawPriority d b.board heap false (copyBuffers d.toGeometry b.memPieces b.memBoard)
    else b.memPieces
  (memPieces,
    drawPriority d b.board heap true (copyBuffers d.toGeometry videoMemBuffer memPieces))

/-- What every rectangle preserves, `drawBoard` preserves. -/
theorem drawBoard_keeps {g : Geometry} (keep : Memory → Prop)
    (h : ∀ m x y width height color, keep m → keep (drawRectangle g m x y width height color))
    {memBoard : Memory} (hm : keep memBoard) : keep (drawBoard g memBoard) := by
  have hrow : ∀ (row : ℕ) (s : ℕ × Memory), keep s.2 → keep (drawRow g row s).2 := by
    intro row s hs
    have hloop : keep (forLoop 0 8 (drawSquare g row) s).2 :=
      forLoop_keeps (fun s : ℕ × Memory => keep s.2) (fun col s hs => h s.2 _ _ _ _ _ hs) hs
    simp only [drawRow]
    exact hloop
  have hloop : keep (forLoop 0 8 (drawRow g) (color1, memBoard)).2 :=
    forLoop_keeps (fun s : ℕ × Memory => keep s.2) hrow hm
  unfold drawBoard
  exact hloop

/-- `drawBoard` writes to the frame buffer only. -/
theorem drawBoard_outside {g : Geometry} (hfit : vramSize g < 4294967296)
    (hres : g.yResolution ≤ 65536) (memBoard : Memory) {a : ℕ} (ha : vramSize g ≤ a) :
    drawBoard g memBoard a = memBoard a :=
  drawBoard_keeps (fun m => m a = memBoard a)
    (fun _ _ _ _ _ _ hm => (drawRectangle_outside hfit hres _ _ _ _ _ _ ha).trans hm) rfl

/-! ## A frame and the pieces -/

section EachPiece

variable {S T : Type*} {board : ℤ → Option PieceRef}

/-- The two loops of a frame: `body` for the piece of every cell, in row-major order. -/
def eachPiece (board : ℤ → Option PieceRef) (body : PieceRef → S → S) (s : S) : S :=
  forLoop 0 8
    (fun row => forLoop 0 8
      (fun col s =>
        match board (getPosition col row) with
        | some p => body p s
        | none => s))
    s

/-- What every iteration preserves, the loops preserve. -/
theorem eachPiece_keeps (keep : S → Prop) {body : PieceRef → S → S}
    (hstep : ∀ i p s, 0 ≤ i → i < 64 → board i = some p → keep s → keep (body p s)) {s : S}
    (hs : keep s) : keep (eachPiece board body s) := by
  -- the rows, and in each of them the columns
  refine forLoop_invariant (fun _ => keep) (Nat.zero_le 8) (fun row s _ hrow hs => ?_) hs
  refine forLoop_invariant (fun _ => keep) (Nat.zero_le 8) (fun col s _ hcol hs => ?_) hs
  split
  · rename_i p hp
    unfold getPosition at hp
    exact hstep _ p s (by omega) (by omega) hp hs
  · exact hs

/-- Loops whose bodies keep a relation. -/
theorem eachPiece_related (rel : S → T → Prop) {body : PieceRef → S → S}
    {body' : PieceRef → T → T}
    (hstep : ∀ i p s t, 0 ≤ i → i < 64 → board i = some p → rel s t →
      rel (body p s) (body' p t)) {s : S} {t : T} (hs : rel s t) :
    rel (eachPiece board body s) (eachPiece board body' t) := by
  -- both loops visit the same cells, so that each iteration meets its counterpart
  refine forLoop_related rel (fun row s t _ hrow hs => ?_) hs
  refine forLoop_related rel (fun col s t _ hcol hs => ?_) hs
  cases hp : board (getPosition col row) with
  | none => exact hs
  | some p =>
    unfold getPosition at hp
    exact hstep _ p s t (by omega) (by omega) hp hs

/-- What the iteration for the piece in cell `i` establishes, the loops establish, if the
iterations before it keep what it rests on, and those behind it what it leads to. -/
theorem eachPiece_reaches (pre post : S → Prop) {body : PieceRef → S → S} {i : ℤ}
    (hi : 0 ≤ i ∧ i < 64) {p : PieceRef} (hp : board i = some p)
    (hpre : ∀ j q s, 0 ≤ j → j < i → board j = some q → pre s → pre (body q s))
    (hreach : ∀ s, pre s → post (body p s))
    (hpost : ∀ j q s, i < j → j < 64 → board j = some q → post s → post (body q s))
    {s : S} (hs : pre s) : post (eachPiece board body s) := by
  obtain ⟨row, col, hrow, hcol, rfl⟩ : ∃ row col : ℕ, row < 8 ∧ col < 8 ∧
      i = getPosition col row := by
    refine ⟨(i / 8).toNat, (i % 8).toNat, by omega, by omega, ?_⟩
    unfold getPosition
    omega
  -- the iteration for another cell
  have hcell : ∀ (keep : S → Prop) (col' row' : ℕ) (s : S),
      (∀ q, board (getPosition col' row') = some q → keep s → keep (body q s)) → keep s →
        keep (match board (getPosition col' row') with
          | some p => body p s
          | none => s) := by
    intro keep col' row' s hstep hs
    split
    · rename_i q hq
      exact hstep q hq hs
    · exact hs
  -- a row without the cell
  have hline : ∀ (keep : S → Prop) (row' : ℕ) (s : S),
      (∀ (col' : ℕ) q s, col' < 8 → board (getPosition col' row') = some q → keep s →
        keep (body q s)) → keep s →
        keep (forLoop 0 8 (fun col s => match board (getPosition col row') with
          | some p => body p s
          | none => s) s) := by
    intro keep row' s hstep hs
    refine forLoop_invariant (fun _ => keep) (Nat.zero_le 8) (fun col' s _ hcol' hs => ?_) hs
    exact hcell keep col' row' s (fun q => hstep col' q s hcol') hs
  -- the cells are visited in row-major order
  have hbefore : ∀ col' row' : ℕ, col' < 8 → row' < row ∨ (row' = row ∧ col' < col) →
      0 ≤ getPosition col' row' ∧ getPosition col' row' < getPosition col row := by
    intro col' row' hcol' hlt
    unfold getPosition
    omega
  have hbehind : ∀ col' row' : ℕ, col' < 8 → row' < 8 → row < row' ∨ (row' = row ∧ col < col') →
      getPosition col row < getPosition col' row' ∧ getPosition col' row' < 64 := by
    intro col' row' hcol' hrow' hlt
    unfold getPosition
    omega
  -- the row of the cell, and in it the column
  refine forLoop_reaches pre post (Nat.zero_le row) hrow (fun row' s hlt hs => ?_)
    (fun s hs => ?_) (fun row' s hlt hrow' hs => ?_) hs
  · refine hline pre row' s (fun col' q s hcol' hq => ?_) hs
    obtain ⟨hlow, hhigh⟩ := hbefore col' row' hcol' (.inl hlt)
    exact hpre _ q s hlow hhigh hq
  · refine forLoop_reaches pre post (Nat.zero_le col) hcol (fun col' s hlt hs => ?_)
      (fun s hs => ?_) (fun col' s hlt hcol' hs => ?_) hs
    · obtain ⟨hlow, hhigh⟩ := hbefore col' row (by omega) (.inr ⟨rfl, hlt⟩)
      exact hcell pre col' row s (fun q => hpre _ q s hlow hhigh) hs
    · rw [hp]
      exact hreach s hs
    · obtain ⟨hlow, hhigh⟩ := hbehind col' row hcol' hrow (.inr ⟨rfl, hlt⟩)
      exact hcell post col' row s (fun q => hpost _ q s hlow hhigh) hs
  · refine hline post row' s (fun col' q s hcol' hq => ?_) hs
    obtain ⟨hlow, hhigh⟩ := hbehind col' row' hcol' hrow' (.inl hlt)
    exact hpost _ q s hlow hhigh hq

end EachPiece

theorem updateBoard_eq (board : ℤ → Option PieceRef) (animation : Bool) (s : Heap × Bool) :
    updateBoard board animation s = eachPiece board (updateCell animation) s := rfl

theorem drawPriority_eq (d : Display) (board : ℤ → Option PieceRef) (heap : Heap)
    (priority : Bool) (mem : Memory) :
    drawPriority d board heap priority mem = eachPiece board
      (fun p mem => if (heap p).priorityDraw = priority then drawPieces d mem (heap p) else mem)
      mem := rfl

/-- Updating a piece leaves the others alone. -/
theorem updateCell_of_ne (animation : Bool) {p q : PieceRef} (h : q ≠ p) (s : Heap × Bool) :
    (updateCell animation p s).1 q = s.1 q := by
  unfold updateCell
  dsimp only
  split_ifs <;> simp [Function.update_of_ne h]

/-- A piece of the board behind a frame. -/
def Piece.updated (animation : Bool) (piece : Piece) : Piece :=
  let piece :=
    if piece.isMoving then
      (if animation then (updatePiece piece).2 else (updatePieceNoAnimation piece).2)
    else piece
  { piece with change := false }

/-- The update of the piece redraws the pieces: it has changed, or ends its motion. -/
def Piece.redraws (animation : Bool) (piece : Piece) : Bool :=
  (if piece.isMoving then
    (if animation then (updatePiece piece).2 else (updatePieceNoAnimation piece).2)
  else piece).change

/-- The piece has reached its target. -/
def Piece.Arrived (piece : Piece) : Prop :=
  piece.absoluteX = piece.targetX ∧ piece.absoluteY = piece.targetY

/-- What `updatePiece` does: it ends a motion at the target, leaves a piece at rest there alone,
and brings any other piece one pixel nearer. -/
theorem Piece.updatePiece_cases (piece : Piece) :
    (piece.Arrived ∧ piece.isMoving = true ∧ updatePiece piece =
      (true, { piece with isMoving := false, priorityDraw := false, change := true })) ∨
    (piece.Arrived ∧ piece.isMoving = false ∧ updatePiece piece = (false, piece)) ∨
    (¬ piece.Arrived ∧ updatePiece piece = (false, { piece with
      absoluteX := approach piece.absoluteX piece.targetX
      absoluteY := approach piece.absoluteY piece.targetY
      pawnMoved := piece.pawnMoved || piece.type.isPawn })) := by
  by_cases harrived : piece.Arrived
  · cases hmoving : piece.isMoving with
    | true =>
      refine .inl ⟨harrived, rfl, ?_⟩
      rw [updatePiece, if_pos (by exact harrived), if_pos hmoving]
    | false =>
      refine .inr (.inl ⟨harrived, rfl, ?_⟩)
      rw [updatePiece, if_pos (by exact harrived), hmoving, if_neg Bool.false_ne_true]
  · refine .inr (.inr ⟨harrived, ?_⟩)
    rw [updatePiece, if_neg (by exact harrived)]
    cases piece.type.isPawn <;> cases piece.pawnMoved <;> rfl

/-- A frame leaves a piece at rest alone, ends a motion, or goes on with it. -/
theorem Piece.updated_cases (piece : Piece) (animation : Bool) :
    (piece.isMoving = false ∧ piece.updated animation = { piece with change := false } ∧
      piece.redraws animation = piece.change) ∨
    (piece.isMoving = true ∧ (animation = true → piece.Arrived) ∧
      piece.updated animation = { piece with
        absoluteX := piece.targetX, absoluteY := piece.targetY
        isMoving := false, priorityDraw := false, change := false } ∧
      piece.redraws animation = true) ∨
    (piece.isMoving = true ∧ animation = true ∧ ¬ piece.Arrived ∧
      piece.updated animation = { piece with
        absoluteX := approach piece.absoluteX piece.targetX
        absoluteY := approach piece.absoluteY piece.targetY
        pawnMoved := piece.pawnMoved || piece.type.isPawn, change := false } ∧
      piece.redraws animation = piece.change) := by
  unfold updated redraws
  cases hmoving : piece.isMoving with
  | false => simp [hmoving]
  | true =>
    right
    -- without the animation the motion ends at once; with it, at the target only
    cases animation with
    | false => simp [updatePieceNoAnimation, hmoving]
    | true =>
      obtain ⟨harrived, -, heq⟩ | ⟨-, hrest, -⟩ | ⟨harrived, heq⟩ := piece.updatePiece_cases
      · left
        obtain ⟨hx, hy⟩ := id harrived
        simp only [heq, if_true, hx, hy, harrived, and_self, implies_true]
      · exact absurd (hmoving.symm.trans hrest) (by decide)
      · right
        simp only [heq, if_true, harrived, not_false_eq_true, hmoving, and_self]

/-- What the update of a piece does to it and to `redrawPieces`. -/
theorem updateCell_self (animation : Bool) (p : PieceRef) (s : Heap × Bool) :
    (updateCell animation p s).1 p = (s.1 p).updated animation ∧
      (updateCell animation p s).2 = (s.2 || (s.1 p).redraws animation) := by
  have hpiece : (if (s.1 p).isMoving then
      Function.update s.1 p
        (if animation then (updatePiece (s.1 p)).2 else (updatePieceNoAnimation (s.1 p)).2)
      else s.1) p =
      (if (s.1 p).isMoving then
        (if animation then (updatePiece (s.1 p)).2 else (updatePieceNoAnimation (s.1 p)).2)
      else s.1 p) := by
    split
    · exact Function.update_self ..
    · rfl
  unfold updateCell Piece.updated Piece.redraws
  dsimp only
  generalize (if (s.1 p).isMoving then
    (if animation then (updatePiece (s.1 p)).2 else (updatePieceNoAnimation (s.1 p)).2)
    else s.1 p) = piece at hpiece ⊢
  subst hpiece
  generalize (if (s.1 p).isMoving then
    Function.update s.1 p
      (if animation then (updatePiece (s.1 p)).2 else (updatePieceNoAnimation (s.1 p)).2)
    else s.1) = heap
  cases hchange : (heap p).change with
  | true => simp
  | false =>
    simp only [Bool.false_eq_true, if_false, Bool.or_false, and_true]
    rw [← hchange]

/-- A frame updates a piece that stands in one cell, once. -/
theorem updateBoard_piece {board : ℤ → Option PieceRef} (animation : Bool) {i : ℤ}
    (hi : 0 ≤ i ∧ i < 64) {p : PieceRef} (hp : board i = some p)
    (hone : ∀ j, 0 ≤ j → j < 64 → board j = some p → j = i) (s : Heap × Bool) :
    (updateBoard board animation s).1 p = (s.1 p).updated animation := by
  have hother : ∀ j q s', 0 ≤ j → j < 64 → j ≠ i → board j = some q →
      (updateCell animation q s').1 p = s'.1 p := by
    rintro j q s' hj hj' hne hq
    refine updateCell_of_ne animation ?_ s'
    rintro rfl
    exact hne (hone j hj hj' hq)
  rw [updateBoard_eq]
  -- every other cell holds another piece, so that the update happens exactly once
  refine eachPiece_reaches (fun s' : Heap × Bool => s'.1 p = s.1 p)
    (fun s' : Heap × Bool => s'.1 p = (s.1 p).updated animation) hi hp ?_ ?_ ?_ rfl
  · intro j q s' hj hj' hq hs
    exact (hother j q s' hj (by omega) hj'.ne hq).trans hs
  · intro s' hs
    rw [(updateCell_self animation p s').1, hs]
  · intro j q s' hj hj' hq hs
    exact (hother j q s' (by omega) hj' hj.ne' hq).trans hs

/-- A frame that redraws nothing finds no reason to. -/
theorem updateBoard_redraw {board : ℤ → Option PieceRef} {animation : Bool} {s : Heap × Bool}
    (h : (updateBoard board animation s).2 = false) :
    s.2 = false ∧ ∀ i p, 0 ≤ i → i < 64 → board i = some p →
      (∀ j, 0 ≤ j → j < 64 → board j = some p → j = i) →
      (s.1 p).redraws animation = false := by
  have hkeep : ∀ q (s' : Heap × Bool), s'.2 = true → (updateCell animation q s').2 = true := by
    intro q s' hs
    rw [(updateCell_self animation q s').2, hs, Bool.true_or]
  constructor
  · rw [Bool.eq_false_iff]
    intro hs
    -- once set, `redrawPieces` stays set for the rest of the frame
    have hredraw : (updateBoard board animation s).2 = true :=
      eachPiece_keeps (fun s' => s'.2 = true) (fun _ q s' _ _ _ => hkeep q s') hs
    exact Bool.false_ne_true (h.symm.trans hredraw)
  · intro i p hi hi' hp hone
    rw [Bool.eq_false_iff]
    intro hs
    have hredraw : (updateBoard board animation s).2 = true := by
      rw [updateBoard_eq]
      refine eachPiece_reaches (fun s' : Heap × Bool => s'.1 p = s.1 p)
        (fun s' : Heap × Bool => s'.2 = true) ⟨hi, hi'⟩ hp ?_ ?_ ?_ rfl
      · intro j q s' hj hj' hq hs'
        refine (updateCell_of_ne animation ?_ s').trans hs'
        rintro rfl
        exact hj'.ne (hone j hj (by omega) hq)
      · intro s' hs'
        rw [(updateCell_self animation p s').2, hs', hs, Bool.or_true]
      · exact fun j q s' _ _ _ hs' => hkeep q s' hs'
    exact Bool.false_ne_true (h.symm.trans hredraw)

theorem type_updateCell (animation : Bool) (p q : PieceRef) (s : Heap × Bool) :
    ((updateCell animation p s).1 q).type = (s.1 q).type := by
  rcases eq_or_ne q p with rfl | h
  · unfold updateCell
    dsimp only
    split_ifs <;> simp
  · rw [updateCell_of_ne animation h]

/-- A frame changes the type of no piece. -/
theorem type_updateBoard (board : ℤ → Option PieceRef) (animation : Bool) (s : Heap × Bool)
    (q : PieceRef) : ((updateBoard board animation s).1 q).type = (s.1 q).type :=
  eachPiece_keeps (fun s' => (s'.1 q).type = (s.1 q).type)
    (fun _ p s' _ _ _ hs => (type_updateCell animation p q s').trans hs) rfl

end LCChess
