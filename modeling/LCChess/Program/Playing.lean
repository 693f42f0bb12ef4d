import LCChess.Program.State

/-!
# Playing

`playing_ih` of `main.c`. The handler answers `none` where the program dereferences a null
piece.

## Main definitions

* `ensureBoard`: the lazy creation of the board
* `pressOrDrag`, `release`: the two halves of a `MOUSE` event
* `parseByte`, `receiveByte`: the message parser
* `playingIh`: the handler

## Main results

* `playingMouse_cases`: what a `MOUSE` event does
* `parseByte_cases`: what a received byte does
-/

namespace LCChess

/-- `COL_MASK`. -/
def colMask : UInt8 := 0x38

/-- `ROW_MASK`. -/
def rowMask : UInt8 := 0x07

/-- The column in a position byte, `(b & COL_MASK) >> 3`. -/
def positionCol (b : UInt8) : UInt8 := (b &&& colMask) >>> 3

/-- The row in a position byte, `b & ROW_MASK`. -/
def positionRow (b : UInt8) : UInt8 := b &&& rowMask

/-- A position byte, `(col << 3) | row` cut to eight bits. -/
def positionByte (col row : ℕ) : UInt8 := UInt8.ofNat (col <<< 3 ||| row)

/-- The first lines of `playing_ih`: create and draw the board, if it is `NULL`. -/
def ensureBoard (d : Display) (vm : Vm) : Vm :=
  if vm.boardCreated then vm
  else
    let (board, heap) := initBoard d.toGeometry vm.board vm.heap
    let memBoard := drawBoard d.toGeometry board.memBoard
    { vm with
      boardCreated := true
      board := { board with
        memBoard := drawImage d.toGeometry memBoard d.toggleAnimation 538 185 }
      heap := heap
      redrawPieces := true }

/-- The test of the press: white presses white pieces, black presses black ones. -/
def owns (player : Player) (type : PieceType) : Bool :=
  (type.isWhite && player == .white) || (!type.isWhite && player == .black)

/-- The test `sameTeam` of the release. -/
def sameTeam (s t : PieceType) : Bool := (s.isWhite && t.isWhite) || (!s.isWhite && !t.isWhite)

section Handler

variable (d : Display)

/-- The body of the press, for the piece `p` in square `(x, y)`. -/
def press (vm : Vm) (p : PieceRef) (x y : ℤ) : Vm :=
  let vm := { vm with draggingPiece := some p }
  let vm := vm.setPiece p (changePiecePriority (vm.heap p) true)
  -- the two are `unsigned`, and go back to `int` in the call of `possiblePosition`
  let vm := { vm with inicialPieceCol := u32 x, inicialPieceRow := u32 y }
  let memBoard := possiblePosition d.toGeometry vm.board.board vm.heap (vm.heap p)
    (i32 vm.inicialPieceCol) (i32 vm.inicialPieceRow) vm.board.memBoard
  let vm := { vm with board := { vm.board with memBoard := memBoard } }
  vm.showScreen d.toGeometry vm.board.memBoard

/-- `setPiecePosition` of the dragged piece to the cursor. -/
def follow (vm : Vm) (p : PieceRef) : Vm :=
  -- 29 is half a square, so that the cursor is in the middle of the image
  vm.setPiece p (setPiecePosition (vm.heap p) (vm.cursor.x.toNat - 29) (vm.cursor.y.toNat - 29))

/-- The first half of a `MOUSE` event: the dragged piece follows the cursor, or an own piece is
pressed. -/
def pressOrDrag (vm : Vm) : Vm :=
  match vm.draggingPiece with
  | some p => follow vm p
  | none =>
    if vm.cursor.pressed && vm.myTurn then
      -- off the board `getBoardX` and `getBoardY` wrap, and the range check below fails
      let y := getBoardY d.toGeometry vm.cursor.y.toNat
      let x := getBoardX d.toGeometry vm.cursor.x.toNat
      if OnBoard x y then
        match vm.board.board (y * 8 + x) with
        | some piece => if owns vm.player (vm.heap piece).type then press d vm piece x y else vm
        | none => vm
      else vm
    else vm

/-- `inicialPieceRow*8+inicialPieceCol`, an `unsigned`. -/
def inicialCell (vm : Vm) : ℤ :=
  ((vm.inicialPieceRow * 8 + vm.inicialPieceCol) % 4294967296 : ℕ)

/-- `setPiecePosition` of the dragged piece to the square it was pressed on. -/
def putBack (vm : Vm) (p : PieceRef) : Vm :=
  vm.setPiece p (setPiecePosition (vm.heap p) (getScreenX d.toGeometry vm.inicialPieceCol)
    (getScreenY d.toGeometry vm.inicialPieceRow))

/-- Apply the move of the dragged piece to square `(x, y)`, send it and pass the turn. -/
def applyMove (vm : Vm) (p : PieceRef) (x y : ℤ) : Vm :=
  let vm := putBack d vm p
  let vm := vm.setPiece p
    (movePiece (vm.heap p) (getScreenX d.toGeometry x) (getScreenY d.toGeometry y))
  -- the old cell is emptied first: a received move is written the other way round
  let cells := Function.update vm.board.board (inicialCell vm) none
  let cells := Function.update cells (y * 8 + x) (some p)
  let vm := { vm with board := { vm.board with board := cells } }
  let oldPos := positionByte vm.inicialPieceCol vm.inicialPieceRow
  let newPos := positionByte x.toNat y.toNat
  let vm := (((vm.send beginMessage).send oldPos).send newPos).send yourTurn
  { vm with myTurn := false }

/-- The release of the dragged piece `p`, up to the redrawing of the board. -/
def drop (vm : Vm) (p : PieceRef) : Vm :=
  let y := getBoardY d.toGeometry vm.cursor.y.toNat
  let x := getBoardX d.toGeometry vm.cursor.x.toNat
  if OnBoard x y ∧ isOrange d.toGeometry vm.board.memBoard x y = true then
    -- squares of own pieces are highlighted too, so the color is tested here
    match vm.board.board (y * 8 + x) with
    | some newPosition =>
      if !sameTeam (vm.heap p).type (vm.heap newPosition).type then
        let vm := if (vm.heap newPosition).type.isKing then { vm with endGame := true } else vm
        applyMove d vm p x y
      else putBack d vm p
    | none => applyMove d vm p x y
  else putBack d vm p

/-- The second half of a `MOUSE` event: the release of the dragged piece `p`. -/
def release (vm : Vm) (p : PieceRef) : Vm :=
  let vm := vm.setPiece p (changePiecePriority (vm.heap p) false)
  let vm := drop d vm p
  -- the board is painted again, which erases the highlights
  let memBoard := drawBoard d.toGeometry vm.board.memBoard
  { vm with
    draggingPiece := none
    board := { vm.board with memBoard := memBoard }
    redrawPieces := true }

/-- The `MOUSE` events of `playing_ih`. -/
def playingMouse (vm : Vm) : Vm :=
  let vm := pressOrDrag d vm
  match vm.draggingPiece with
  | some p => if vm.cursor.released then release d vm p else vm
  | none => vm

/-- Redrawing in `playing_ih`: the pieces and the name. -/
def playingFrame (vm : Vm) : Vm :=
  let (heap, redrawPieces) := updateBoard vm.board.board vm.animation (vm.heap, vm.redrawPieces)
  let (memPieces, videoMemBuffer) :=
    drawBoardPieces d vm.board heap redrawPieces vm.videoMemBuffer
  { vm with
    heap := heap
    redrawPieces := false
    board := { vm.board with memPieces := memPieces }
    videoMemBuffer :=
      drawName d videoMemBuffer vm.name 63 (if vm.player = .white then 560 else 23) 20 }

/-- The cell of a row and a column of `move`. -/
def moveCell (row col : UInt8) : ℤ := row.toNat * 8 + col.toNat

/-- The loser leaves: the test for a king in the cell a received move goes to. -/
def loseKing (vm : Vm) (newCell : ℤ) : Vm :=
  match vm.board.board newCell with
  | some q => if (vm.heap q).type.isKing then { vm with won := false, gameState := .exit } else vm
  | none => vm

/-- Apply the received move of the piece `p` from `oldCell` to `newCell`. -/
def moveReceived (vm : Vm) (p : PieceRef) (oldCell newCell : ℤ) : Vm :=
  let vm := vm.setPiece p (movePiece (vm.heap p) (getScreenX d.toGeometry vm.move.newCol.toNat)
    (getScreenY d.toGeometry vm.move.newRow.toNat))
  -- a message whose origin is its destination empties the cell
  let cells := Function.update vm.board.board newCell (some p)
  let cells := Function.update cells oldCell none
  { vm with board := { vm.board with board := cells } }

/-- The second position byte: the move is applied. -/
def receiveMove (vm : Vm) : Option Vm :=
  let newCell := moveCell vm.move.newRow vm.move.newCol
  let oldCell := moveCell vm.move.oldRow vm.move.oldCol
  let vm := loseKing vm newCell
  match vm.board.board oldCell with
  -- `movePiece(NULL)`: the program crashes
  | none => none
  | some p => some (moveReceived d vm p oldCell newCell)

/-- The message parser of `playing_ih`. -/
def parseByte (receivedByte : UInt8) (vm : Vm) : Option Vm :=
  if receivedByte = beginMessage then some { vm with byteOfMove := 0 }
  else if receivedByte = yourTurn then some { vm with myTurn := true }
  else if receivedByte ≠ 0 then
    -- a first position byte is the origin; all that follow it are destinations
    if vm.byteOfMove = 0 then
      some { vm with
        move := { vm.move with
          oldCol := positionCol receivedByte
          oldRow := positionRow receivedByte }
        byteOfMove := vm.byteOfMove + 1 }
    else
      receiveMove d { vm with
        move := { vm.move with
          newCol := positionCol receivedByte
          newRow := positionRow receivedByte } }
  -- an empty queue answers 0, and so does the position byte of column 0 of row 0
  else some vm

/-- The serial port communication of `playing_ih`: one byte is read and parsed. -/
def receiveByte (vm : Vm) : Option Vm :=
  let (receivedByte, receiveQueue) := readFromQueue vm.receiveQueue
  parseByte d receivedByte { vm with receiveQueue := receiveQueue }

/-- The winner leaves: the test of `endGame` at the top of `playing_ih`. -/
def leaveGame (vm : Vm) : Vm :=
  if vm.endGame then { vm with won := true, gameState := .exit } else vm

/-- The `KEYBOARD` events of `playing_ih`: the break code of `Z` toggles the animation. -/
def playingKeyboard (vm : Vm) (scanCode : UInt8) : Vm :=
  if scanCode &&& 0x80 ≠ 0 then
    if scanCode = 0xac then { vm with animation := !vm.animation } else vm
  else vm

/-- `playing_ih`. -/
def playingIh (event : Event) (vm : Vm) : Option Vm :=
  let vm := leaveGame (ensureBoard d vm)
  match event with
  | .newFrame => receiveByte d (playingFrame d vm)
  | .keyboard scanCode => some (playingKeyboard vm scanCode)
  | .mouse _ => some (playingMouse d vm)

end Handler

/-! ## The first lines of the handler -/

@[simp] theorem ensureBoard_of_created {d : Display} {vm : Vm} (h : vm.boardCreated = true) :
    ensureBoard d vm = vm := if_pos h

@[simp] theorem boardCreated_ensureBoard (d : Display) (vm : Vm) :
    (ensureBoard d vm).boardCreated = true := by
  unfold ensureBoard
  split
  · assumption
  · rfl

theorem ensureBoard_of_not_created {d : Display} {vm : Vm} (h : vm.boardCreated = false) :
    (ensureBoard d vm).board.board = (initPieces d.toGeometry vm.board.board vm.heap).1 ∧
      (ensureBoard d vm).heap = (initPieces d.toGeometry vm.board.board vm.heap).2 := by
  simp only [ensureBoard, h, Bool.false_eq_true, if_false]
  exact ⟨rfl, rfl⟩

theorem ensureBoard_cursor (d : Display) (vm : Vm) (cursor : Cursor) :
    ensureBoard d { vm with cursor := cursor } = { ensureBoard d vm with cursor := cursor } := by
  unfold ensureBoard
  dsimp only
  split <;> rfl

/-- The fields `ensureBoard` does not touch. -/
theorem ensureBoard_frame (d : Display) (vm : Vm) :
    ∃ board heap redraw, ensureBoard d vm =
      { vm with boardCreated := true, board := board, heap := heap, redrawPieces := redraw } := by
  unfold ensureBoard
  split
  · rename_i hc
    exact ⟨vm.board, vm.heap, vm.redrawPieces, by rw [← hc]⟩
  · exact ⟨_, _, _, rfl⟩

theorem inicialCell_ensureBoard (d : Display) (vm : Vm) :
    inicialCell (ensureBoard d vm) = inicialCell vm := by
  obtain ⟨board, heap, redraw, h⟩ := ensureBoard_frame d vm
  rw [h]
  rfl

section Leave

variable (vm : Vm)

@[simp] theorem leaveGame_of_endGame {vm : Vm} (h : vm.endGame = false) : leaveGame vm = vm := by
  simp [leaveGame, h]

/-- The fields `leaveGame` touches. -/
theorem leaveGame_frame :
    ∃ gameState won, leaveGame vm = { vm with gameState := gameState, won := won } := by
  unfold leaveGame
  split <;> exact ⟨_, _, rfl⟩

@[simp] theorem cursor_leaveGame : (leaveGame vm).cursor = vm.cursor := by
  obtain ⟨_, _, h⟩ := leaveGame_frame vm; rw [h]

@[simp] theorem gameState_leaveGame (h : vm.endGame = true) :
    (leaveGame vm).gameState = .exit := by simp [leaveGame, h]

end Leave

/-! ## The mouse events -/

section Mouse

variable {d : Display} {vm : Vm} {p : PieceRef}

/-- The cursor is in square `(x, y)`. -/
def Cursor.InSquare (g : Geometry) (cursor : Cursor) (x y : ℤ) : Prop :=
  getBoardX g cursor.x.toNat = x ∧ getBoardY g cursor.y.toNat = y

/-- The cursor points at one square. -/
theorem Cursor.InSquare.unique {g : Geometry} {cursor : Cursor} {x y x' y' : ℤ}
    (h : cursor.InSquare g x y) (h' : cursor.InSquare g x' y') : x = x' ∧ y = y' :=
  ⟨h.1.symm.trans h'.1, h.2.symm.trans h'.2⟩

/-- The condition under which a `MOUSE` event without a drag presses the piece `p`. -/
structure Presses (d : Display) (vm : Vm) (p : PieceRef) (x y : ℤ) : Prop where
  pressed : vm.cursor.pressed = true
  turn : vm.myTurn = true
  square : vm.cursor.InSquare d.toGeometry x y
  onBoard : OnBoard x y
  cell : vm.board.board (y * 8 + x) = some p
  owns : owns vm.player (vm.heap p).type = true

theorem playingMouse_press (hdrag : vm.draggingPiece = none)
    (hbuttons : vm.cursor.pressed = true → vm.cursor.released = false) {x y : ℤ}
    (h : Presses d vm p x y) : playingMouse d vm = press d vm p x y := by
  -- the cursor decides the square, so that the first half of the handler computes
  obtain ⟨hpressed, hturn, ⟨rfl, rfl⟩, hon, hcell, hown⟩ := h
  have hpress : pressOrDrag d vm = press d vm p (getBoardX d.toGeometry vm.cursor.x.toNat)
      (getBoardY d.toGeometry vm.cursor.y.toNat) := by
    simp only [pressOrDrag, hdrag, hpressed, hturn, hon, hcell, hown, Bool.and_self, if_true]
  have hd : ∀ x y, (press d vm p x y).draggingPiece = some p := fun _ _ => rfl
  have hr : ∀ x y, (press d vm p x y).cursor.released = false := fun _ _ => hbuttons hpressed
  simp only [playingMouse, hpress, hd, hr, Bool.false_eq_true, if_false]

/-- Without a drag and without a press, a `MOUSE` event does nothing. -/
theorem playingMouse_idle (hdrag : vm.draggingPiece = none)
    (h : ∀ p x y, ¬ Presses d vm p x y) : playingMouse d vm = vm := by
  have hpress : pressOrDrag d vm = vm := by
    simp only [pressOrDrag, hdrag]
    split_ifs with hbtn hon
    · split
      · rename_i p hp
        refine if_neg fun hown => h p _ _ ⟨?_, ?_, ⟨rfl, rfl⟩, hon, hp, hown⟩
        · exact (Bool.and_eq_true_iff.mp hbtn).1
        · exact (Bool.and_eq_true_iff.mp hbtn).2
      · rfl
    · rfl
    · rfl
  simp only [playingMouse, hpress, hdrag]

theorem playingMouse_follow (hdrag : vm.draggingPiece = some p)
    (hreleased : vm.cursor.released = false) : playingMouse d vm = follow vm p := by
  have hd : (follow vm p).draggingPiece = some p := hdrag
  have hr : (follow vm p).cursor.released = false := hreleased
  simp only [playingMouse, pressOrDrag, hdrag, hd, hr, Bool.false_eq_true, if_false]

theorem playingMouse_release (hdrag : vm.draggingPiece = some p)
    (hreleased : vm.cursor.released = true) :
    playingMouse d vm = release d (follow vm p) p := by
  have hd : (follow vm p).draggingPiece = some p := hdrag
  have hr : (follow vm p).cursor.released = true := hreleased
  simp only [playingMouse, pressOrDrag, hdrag, hd, hr, if_true]

/-- The pressed piece is drawn with priority. -/
theorem heap_press (d : Display) (vm : Vm) (p : PieceRef) (x y : ℤ) : (press d vm p x y).heap =
    Function.update vm.heap p (changePiecePriority (vm.heap p) true) := rfl

/-- A king stands in cell `i`. -/
def kingIn (vm : Vm) (i : ℤ) : Bool :=
  match vm.board.board i with
  | some q => (vm.heap q).type.isKing
  | none => false

/-- The condition under which the release of the piece `p` makes its move. -/
structure Drops (d : Display) (vm : Vm) (p : PieceRef) (x y : ℤ) : Prop where
  square : vm.cursor.InSquare d.toGeometry x y
  onBoard : OnBoard x y
  orange : isOrange d.toGeometry vm.board.memBoard x y = true
  enemy : ∀ q, vm.board.board (y * 8 + x) = some q →
    sameTeam (vm.heap p).type (vm.heap q).type = false

theorem drop_applyMove {x y : ℤ} (h : Drops d vm p x y) : drop d vm p =
    applyMove d { vm with endGame := vm.endGame || kingIn vm (y * 8 + x) } p x y := by
  obtain ⟨⟨hx, hy⟩, hon, horange, henemy⟩ := h
  simp only [drop, hx, hy, hon, horange, and_self, if_true]
  split
  · rename_i q hq
    have hking : kingIn vm (y * 8 + x) = (vm.heap q).type.isKing := by simp only [kingIn, hq]
    rw [henemy q hq, Bool.not_false, if_pos rfl, hking]
    cases hk : (vm.heap q).type.isKing with
    | true => rw [Bool.or_true, if_pos rfl]
    | false => rw [Bool.or_false, if_neg Bool.false_ne_true]
  · rename_i hq
    have hking : kingIn vm (y * 8 + x) = false := by simp only [kingIn, hq]
    rw [hking, Bool.or_false]

theorem drop_putBack (h : ∀ x y, ¬ Drops d vm p x y) : drop d vm p = putBack d vm p := by
  unfold drop
  dsimp only
  split
  · rename_i hgate
    split
    -- a piece of the other color on the square would be a drop, against `h`
    · rename_i q hq
      refine if_neg fun hteam => h _ _ ⟨⟨rfl, rfl⟩, hgate.1, hgate.2, fun r hr => ?_⟩
      obtain rfl : q = r := Option.some.inj (hq.symm.trans hr)
      simpa using hteam
    · rename_i hq
      refine absurd ⟨⟨rfl, rfl⟩, hgate.1, hgate.2, fun r hr => ?_⟩ (h _ _)
      rw [hq] at hr
      cases hr
  · rfl

/-- The bytes of a move, as the release sends them. -/
def sendMove (vm : Vm) (x y : ℤ) : Queue :=
  [beginMessage, positionByte vm.inicialPieceCol vm.inicialPieceRow, positionByte x.toNat y.toNat,
    yourTurn].foldl (fun q b => addToTransmitQueue b q) vm.transmitQueue

/-- The cells behind the move of the dragged piece `p` to square `(x, y)`. -/
def moveCells (vm : Vm) (p : PieceRef) (x y : ℤ) : ℤ → Option PieceRef :=
  Function.update (Function.update vm.board.board (inicialCell vm) none) (y * 8 + x) (some p)

/-- The dragged piece, put back. -/
def putBackPiece (d : Display) (vm : Vm) (p : PieceRef) : Piece :=
  setPiecePosition (changePiecePriority (vm.heap p) false)
    (getScreenX d.toGeometry vm.inicialPieceCol) (getScreenY d.toGeometry vm.inicialPieceRow)

theorem heap_setPriority (vm : Vm) (p q : PieceRef) (priority : Bool) :
    ((vm.setPiece p (changePiecePriority (vm.heap p) priority)).heap q).type =
      (vm.heap q).type := by
  rcases eq_or_ne q p with rfl | hne
  · simp [Vm.setPiece]
  · simp [Vm.setPiece, Function.update_of_ne hne]

theorem drops_setPriority {x y : ℤ} (priority : Bool) :
    Drops d (vm.setPiece p (changePiecePriority (vm.heap p) priority)) p x y ↔
      Drops d vm p x y := by
  constructor
  · rintro ⟨hsquare, hon, horange, henemy⟩
    simp only [heap_setPriority] at henemy
    exact ⟨hsquare, hon, horange, henemy⟩
  · rintro ⟨hsquare, hon, horange, henemy⟩
    refine ⟨hsquare, hon, horange, ?_⟩
    simp only [heap_setPriority]
    exact henemy

/-- A release that makes the move of the piece. -/
theorem release_move {x y : ℤ} (h : Drops d vm p x y) : release d vm p = { vm with
    heap := Function.update vm.heap p (movePiece (putBackPiece d vm p) (getScreenX d.toGeometry x)
      (getScreenY d.toGeometry y))
    board := { vm.board with
      board := moveCells vm p x y
      memBoard := drawBoard d.toGeometry vm.board.memBoard }
    transmitQueue := sendMove vm x y
    endGame := vm.endGame || kingIn vm (y * 8 + x)
    myTurn := false
    draggingPiece := none
    redrawPieces := true } := by
  have hking : kingIn (vm.setPiece p (changePiecePriority (vm.heap p) false)) (y * 8 + x) =
      kingIn vm (y * 8 + x) := by
    simp only [kingIn, heap_setPriority]
    rfl
  simp only [release, drop_applyMove ((drops_setPriority false).mpr h), hking]
  -- the three writes of the dragged piece are one
  simp only [applyMove, putBack, Vm.setPiece, Vm.send, Function.update_self, Function.update_idem,
    moveCells, sendMove, putBackPiece, inicialCell, List.foldl_cons, List.foldl_nil]

/-- A release that puts the piece back. -/
theorem release_putBack (h : ∀ x y, ¬ Drops d vm p x y) : release d vm p = { vm with
    heap := Function.update vm.heap p (putBackPiece d vm p)
    board := { vm.board with memBoard := drawBoard d.toGeometry vm.board.memBoard }
    draggingPiece := none
    redrawPieces := true } := by
  simp only [release, drop_putBack fun x y hxy => h x y ((drops_setPriority false).mp hxy)]
  simp only [putBack, Vm.setPiece, Function.update_self, Function.update_idem, putBackPiece]

/-- The fields a release touches. -/
theorem release_frame (d : Display) (vm : Vm) (p : PieceRef) :
    ∃ heap board transmitQueue endGame myTurn, release d vm p = { vm with
      heap := heap, board := board, transmitQueue := transmitQueue, endGame := endGame
      myTurn := myTurn, draggingPiece := none, redrawPieces := true } := by
  by_cases h : ∃ x y, Drops d vm p x y
  · obtain ⟨x, y, h⟩ := h
    exact ⟨_, _, _, _, _, release_move h⟩
  · exact ⟨_, _, _, _, _, release_putBack fun x y hxy => h ⟨x, y, hxy⟩⟩

/-- Every release ends the drag and repaints the board. -/
theorem release_repaints (d : Display) (vm : Vm) (p : PieceRef) :
    (release d vm p).draggingPiece = none ∧ (release d vm p).boardCreated = vm.boardCreated ∧
      (release d vm p).board.memBoard = drawBoard d.toGeometry vm.board.memBoard := by
  by_cases h : ∃ x y, Drops d vm p x y
  · obtain ⟨x, y, h⟩ := h
    simp only [release_move h, and_self]
  · simp only [release_putBack fun x y hxy => h ⟨x, y, hxy⟩, and_self]

/-- The fields the first half of a `MOUSE` event touches. -/
theorem pressOrDrag_frame (d : Display) (vm : Vm) :
    ∃ heap board draggingPiece inicialPieceRow inicialPieceCol videoMemBuffer,
      pressOrDrag d vm = { vm with
        heap := heap, board := board, draggingPiece := draggingPiece
        inicialPieceRow := inicialPieceRow, inicialPieceCol := inicialPieceCol
        videoMemBuffer := videoMemBuffer } := by
  unfold pressOrDrag
  split
  · exact ⟨_, _, _, _, _, _, rfl⟩
  · dsimp only
    split_ifs
    · split
      · split_ifs
        · exact ⟨_, _, _, _, _, _, rfl⟩
        · exact ⟨_, _, _, _, _, _, rfl⟩
      · exact ⟨_, _, _, _, _, _, rfl⟩
    · exact ⟨_, _, _, _, _, _, rfl⟩
    · exact ⟨_, _, _, _, _, _, rfl⟩

/-- A `MOUSE` event neither leaves the game nor moves the cursor. -/
theorem playingMouse_frame (d : Display) (vm : Vm) :
    (playingMouse d vm).gameState = vm.gameState ∧ (playingMouse d vm).cursor = vm.cursor := by
  obtain ⟨heap, board, draggingPiece, row, col, videoMemBuffer, hpress⟩ := pressOrDrag_frame d vm
  unfold playingMouse
  rw [hpress]
  dsimp only
  split
  · rename_i p
    split_ifs
    · obtain ⟨heap', board', transmitQueue, endGame, myTurn, h⟩ := release_frame d { vm with
        heap := heap, board := board, draggingPiece := some p, inicialPieceRow := row
        inicialPieceCol := col, videoMemBuffer := videoMemBuffer } p
      rw [h]
      exact ⟨rfl, rfl⟩
    · exact ⟨rfl, rfl⟩
  · exact ⟨rfl, rfl⟩

/-- What a `MOUSE` event does. -/
theorem playingMouse_cases (d : Display)
    (hbuttons : vm.cursor.pressed = true → vm.cursor.released = false) :
    (vm.draggingPiece = none ∧ playingMouse d vm = vm) ∨
      (vm.draggingPiece = none ∧ ∃ p x y, Presses d vm p x y ∧
        playingMouse d vm = press d vm p x y) ∨
      (∃ p, vm.draggingPiece = some p ∧ vm.cursor.released = false ∧
        playingMouse d vm = follow vm p) ∨
      ∃ p, vm.draggingPiece = some p ∧ vm.cursor.released = true ∧
        playingMouse d vm = release d (follow vm p) p := by
  cases hdrag : vm.draggingPiece with
  | none =>
    by_cases h : ∃ p x y, Presses d vm p x y
    · obtain ⟨p, x, y, h⟩ := h
      exact .inr (.inl ⟨rfl, p, x, y, h, playingMouse_press hdrag hbuttons h⟩)
    · exact .inl ⟨rfl, playingMouse_idle hdrag fun p x y hp => h ⟨p, x, y, hp⟩⟩
  | some p =>
    cases hr : vm.cursor.released with
    | false => exact .inr (.inr (.inl ⟨p, rfl, rfl, playingMouse_follow hdrag hr⟩))
    | true => exact .inr (.inr (.inr ⟨p, rfl, rfl, playingMouse_release hdrag hr⟩))

end Mouse

/-- The fields the redrawing touches. -/
theorem playingFrame_frame (d : Display) (vm : Vm) :
    ∃ memPieces videoMemBuffer, playingFrame d vm = { vm with
      heap := (updateBoard vm.board.board vm.animation (vm.heap, vm.redrawPieces)).1
      redrawPieces := false
      board := { vm.board with memPieces := memPieces }
      videoMemBuffer := videoMemBuffer } :=
  ⟨_, _, rfl⟩

/-! ## The received bytes -/

section Receive

variable {d : Display} {vm vm' : Vm}

/-- The loser leaves, or nothing changes. -/
theorem loseKing_frame (vm : Vm) (newCell : ℤ) :
    ∃ gameState won, (gameState = vm.gameState ∨ gameState = .exit) ∧
      loseKing vm newCell = { vm with gameState := gameState, won := won } := by
  unfold loseKing
  split
  · split
    · exact ⟨_, _, .inr rfl, rfl⟩
    · exact ⟨_, _, .inl rfl, rfl⟩
  · exact ⟨_, _, .inl rfl, rfl⟩

/-- A received move moves the piece in its origin. -/
theorem receiveMove_cases (h : receiveMove d vm = some vm') :
    ∃ p gameState won, vm.board.board (moveCell vm.move.oldRow vm.move.oldCol) = some p ∧
      (gameState = vm.gameState ∨ gameState = .exit) ∧
      vm' = moveReceived d { vm with gameState := gameState, won := won } p
        (moveCell vm.move.oldRow vm.move.oldCol) (moveCell vm.move.newRow vm.move.newCol) := by
  obtain ⟨gameState, won, hstate, hlose⟩ :=
    loseKing_frame vm (moveCell vm.move.newRow vm.move.newCol)
  simp only [receiveMove, hlose] at h
  split at h
  · cases h
  · rename_i p hp
    exact ⟨p, gameState, won, hp, hstate, (Option.some.inj h).symm⟩

/-- The move behind its second position byte `b`. -/
def ChessMove.arrive (move : ChessMove) (b : UInt8) : ChessMove :=
  { move with newCol := positionCol b, newRow := positionRow b }

/-- The byte `b` is the second position byte of a message. -/
def Vm.Completes (vm : Vm) (b : UInt8) : Prop :=
  b ≠ beginMessage ∧ b ≠ yourTurn ∧ b ≠ 0 ∧ vm.byteOfMove ≠ 0

/-- What a received byte does. -/
theorem parseByte_cases {b : UInt8} (h : parseByte d b vm = some vm') :
    vm' = { vm with byteOfMove := 0 } ∨ vm' = { vm with myTurn := true } ∨ vm' = vm ∨
      (∃ move byteOfMove, vm' = { vm with move := move, byteOfMove := byteOfMove }) ∨
      ∃ p gameState won, vm.Completes b ∧
        vm.board.board (moveCell vm.move.oldRow vm.move.oldCol) = some p ∧
        (gameState = vm.gameState ∨ gameState = .exit) ∧
        vm' = moveReceived d { vm with
          move := vm.move.arrive b, gameState := gameState, won := won } p
          (moveCell vm.move.oldRow vm.move.oldCol) (moveCell (positionRow b) (positionCol b)) := by
  unfold parseByte at h
  split_ifs at h with hbegin hturn hzero hfirst
  · exact .inl (Option.some.inj h).symm
  · exact .inr (.inl (Option.some.inj h).symm)
  · exact .inr (.inr (.inr (.inl ⟨_, _, (Option.some.inj h).symm⟩)))
  · obtain ⟨p, gameState, won, hp, hstate, rfl⟩ := receiveMove_cases h
    exact .inr (.inr (.inr (.inr
      ⟨p, gameState, won, ⟨hbegin, hturn, hzero, hfirst⟩, hp, hstate, rfl⟩)))
  · exact .inr (.inr (.inl (Option.some.inj h).symm))

/-- The fields a received byte leaves alone: the highlights, the drag and the end of the game. -/
theorem parseByte_frame {b : UInt8} (h : parseByte d b vm = some vm') :
    vm'.board.memBoard = vm.board.memBoard ∧ vm'.draggingPiece = vm.draggingPiece ∧
      vm'.endGame = vm.endGame ∧ vm'.boardCreated = vm.boardCreated ∧
      (vm'.gameState = vm.gameState ∨ vm'.gameState = .exit) := by
  obtain rfl | rfl | rfl | ⟨move, byteOfMove, rfl⟩ | ⟨p, gameState, won, -, -, hstate, rfl⟩ :=
    parseByte_cases h
  · exact ⟨rfl, rfl, rfl, rfl, .inl rfl⟩
  · exact ⟨rfl, rfl, rfl, rfl, .inl rfl⟩
  · exact ⟨rfl, rfl, rfl, rfl, .inl rfl⟩
  · exact ⟨rfl, rfl, rfl, rfl, .inl rfl⟩
  · exact ⟨rfl, rfl, rfl, rfl, hstate⟩

/-- An empty queue answers `0`, which the parser skips. -/
@[simp] theorem parseByte_zero (d : Display) (vm : Vm) : parseByte d 0 vm = some vm := by
  simp [parseByte, beginMessage, yourTurn]

end Receive

end LCChess
