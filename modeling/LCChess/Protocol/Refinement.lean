import LCChess.Protocol.Seat
import Mathlib.Tactic.IntervalCases

/-!
# The program is a seat

Every event of `playing_ih` is an event of the seat that the instance shows to the protocol.

## Main definitions

* `seat d vm`: the seat of an instance, with its board created
* `Vm.Sound`: the queues are well-formed, and the board holds pieces of `initBoard` only

## Main results

* `NewGame.sound`, `NewGame.seat_eq`: the initial position is sound
* `handleEvent_refines`: the events of a game
-/

namespace LCChess

/-- The 64 cells of the array of piece pointers. -/
def cellsOf (board : ℤ → Option PieceRef) : ℤ → Option PieceRef := fun i =>
  if IsCell i then board i else none

/-- The seat of an instance whose board is created. -/
def Vm.toSeat (vm : Vm) : Seat where
  gameState := vm.gameState
  player := vm.player
  myTurn := vm.myTurn
  endGame := vm.endGame
  won := vm.won
  byteOfMove := vm.byteOfMove
  origin := moveCell vm.move.oldRow vm.move.oldCol
  dragging := vm.draggingPiece
  inicial := inicialCell vm
  cells := cellsOf vm.board.board
  transmit := vm.transmitQueue.toList
  receive := vm.receiveQueue.toList
  line := vm.line

/-- The seat of an instance. -/
def seat (d : Display) (vm : Vm) : Seat := (ensureBoard d vm).toSeat

/-- The queues are well-formed, and the board holds pieces of `initBoard` only. -/
structure Vm.Sound (vm : Vm) : Prop where
  created : vm.boardCreated = true
  transmit : vm.transmitQueue.WellFormed ∧ vm.transmitQueue.capacity = 10
  receive : vm.receiveQueue.WellFormed ∧ vm.receiveQueue.capacity = 10
  piece_lt : ∀ i p, IsCell i → vm.board.board i = some p → p < 32
  type_eq : ∀ p < 32, (vm.heap p).type = kind p
  drag : ∀ p, vm.draggingPiece = some p →
    p < 32 ∧ vm.inicialPieceCol < 8 ∧ vm.inicialPieceRow < 8
  origin : IsCell (moveCell vm.move.oldRow vm.move.oldCol)

@[simp] theorem cellsOf_of_isCell {board : ℤ → Option PieceRef} {i : ℤ} (h : IsCell i) :
    cellsOf board i = board i := if_pos h

/-- Writing a cell writes that cell. -/
theorem cellsOf_update {board : ℤ → Option PieceRef} {i : ℤ} (h : IsCell i)
    (p : Option PieceRef) :
    cellsOf (Function.update board i p) = Function.update (cellsOf board) i p := by
  funext j
  rcases eq_or_ne j i with rfl | hne
  · simp [h]
  · simp [cellsOf, Function.update_of_ne hne]

/-- A square on the board is a cell. -/
theorem isCell_of_onBoard {x y : ℤ} (h : OnBoard x y) : IsCell (y * 8 + x) := by
  obtain ⟨hy, hy', hx, hx'⟩ := h
  exact ⟨by omega, by omega⟩

/-- The row and the column of a cell. -/
theorem cellByte_square {x y : ℤ} (h : OnBoard x y) :
    cellByte (y * 8 + x) = positionByte x.toNat y.toNat := by
  obtain ⟨hy, hy', hx, hx'⟩ := h
  unfold cellByte
  congr 1 <;> omega

namespace Vm.Sound

variable {vm : Vm} (h : vm.Sound)
include h

/-- The type of a piece on the board is the one it was created with. -/
theorem type_of_cell {i : ℤ} (hi : IsCell i) {p : PieceRef} (hp : vm.board.board i = some p) :
    (vm.heap p).type = kind p := h.type_eq p (h.piece_lt i p hi hp)

/-- Changing pieces keeps the types. -/
theorem setHeap {heap : Heap} (htype : ∀ q, (heap q).type = (vm.heap q).type) :
    ({ vm with heap := heap } : Vm).Sound :=
  ⟨h.created, h.transmit, h.receive, h.piece_lt,
    fun p hp => (htype p).trans (h.type_eq p hp), h.drag, h.origin⟩

theorem setPiece {p : PieceRef} {piece : Piece} (htype : piece.type = (vm.heap p).type) :
    (vm.setPiece p piece).Sound := by
  refine h.setHeap fun q => ?_
  rcases eq_or_ne q p with rfl | hne
  · simpa using htype
  · simp [Function.update_of_ne hne]

theorem send (data : UInt8) : (vm.send data).Sound :=
  ⟨h.created, ⟨wellFormed_addToTransmitQueue h.transmit.1 data, by
    simpa [Vm.send] using h.transmit.2⟩, h.receive, h.piece_lt, h.type_eq, h.drag, h.origin⟩

end Vm.Sound

@[simp] theorem toSeat_setPiece (vm : Vm) (p : PieceRef) (piece : Piece) :
    (vm.setPiece p piece).toSeat = vm.toSeat := rfl

/-- The queues have capacity ten. -/
theorem toList_addToQueue {q : Queue} (h : q.WellFormed ∧ q.capacity = 10) (b : UInt8) :
    (addToQueue q b).toList = enqueue q.toList b := by
  unfold enqueue
  split
  · rename_i hroom
    exact h.1.toList_addToQueue (by rw [h.2]; exact hroom) b
  · rename_i hroom
    have hle := h.1.size_le
    have hfull : queueIsFull q = true := by
      rw [Queue.queueIsFull_iff]
      simp only [Queue.length_toList] at hroom ⊢
      have := h.2
      omega
    simp [addToQueue, hfull]

theorem toSeat_send {vm : Vm} (h : vm.Sound) (data : UInt8) :
    (vm.send data).toSeat = { vm.toSeat with transmit := enqueue vm.toSeat.transmit data } := by
  simp only [Vm.toSeat, Vm.send, addToTransmitQueue_eq, toList_addToQueue h.transmit]
  rfl

/-! ## The parts of the handler -/

section Parts

variable {d : Display} {vm : Vm} (h : vm.Sound)
include h

theorem sound_leaveGame : (leaveGame vm).Sound ∧ (leaveGame vm).toSeat = vm.toSeat.leave := by
  unfold leaveGame Seat.leave
  by_cases he : vm.endGame = true
  · rw [if_pos he, if_pos (show vm.toSeat.endGame = true from he)]
    exact ⟨⟨h.1, h.2, h.3, h.4, h.5, h.6, h.7⟩, rfl⟩
  · rw [if_neg he, if_neg (show ¬ vm.toSeat.endGame = true from he)]
    exact ⟨h, rfl⟩

theorem sound_playingFrame :
    (playingFrame d vm).Sound ∧ (playingFrame d vm).toSeat = vm.toSeat :=
  ⟨⟨h.1, h.2, h.3, h.4,
    fun p hp => (type_updateBoard vm.board.board vm.animation (vm.heap, vm.redrawPieces) p).trans
      (h.5 p hp), h.6, h.7⟩, rfl⟩

theorem sound_presentFrame :
    (presentFrame d vm).Sound ∧ (presentFrame d vm).toSeat = vm.toSeat :=
  ⟨⟨h.1, h.2, h.3, h.4, h.5, h.6, h.7⟩, rfl⟩

theorem sound_playingKeyboard (scanCode : UInt8) :
    (playingKeyboard vm scanCode).Sound ∧ (playingKeyboard vm scanCode).toSeat = vm.toSeat := by
  unfold playingKeyboard
  split_ifs
  · exact ⟨⟨h.1, h.2, h.3, h.4, h.5, h.6, h.7⟩, rfl⟩
  · exact ⟨h, rfl⟩
  · exact ⟨h, rfl⟩

/-- A king stands in a cell. -/
theorem kingAt_toSeat {i : ℤ} (hi : IsCell i) :
    Seat.kingAt vm.toSeat.cells i = kingIn vm i := by
  unfold Seat.kingAt kingIn
  simp only [Vm.toSeat, cellsOf_of_isCell hi]
  -- the heap gives a piece the type that its reference stands for
  cases hq : vm.board.board i with
  | none => rfl
  | some q => simp only [h.type_of_cell hi hq]

/-- The press of an own piece. -/
theorem sound_press {p : PieceRef} {x y : ℤ} (hp : p < 32) (hxy : OnBoard x y) :
    (press d vm p x y).Sound ∧
      (press d vm p x y).toSeat = vm.toSeat.press p (y * 8 + x) := by
  obtain ⟨hy, hy', hx, hx'⟩ := hxy
  have hcol : u32 x < 8 := by have := u32_of_nonneg hx (by omega); omega
  have hrow : u32 y < 8 := by have := u32_of_nonneg hy (by omega); omega
  have hset := h.setPiece (type_changePiecePriority (vm.heap p) true)
  refine ⟨⟨h.1, h.2, h.3, h.4, hset.5, ?_, h.7⟩, ?_⟩
  · rintro q hq
    obtain rfl : p = q := Option.some.inj hq
    exact ⟨hp, hcol, hrow⟩
  · have hcell : inicialCell (press d vm p x y) = y * 8 + x := by
      have hx0 := u32_of_nonneg hx (by omega)
      have hy0 := u32_of_nonneg hy (by omega)
      show (((u32 y * 8 + u32 x) % 4294967296 : ℕ) : ℤ) = y * 8 + x
      omega
    unfold Seat.press
    rw [← hcell]
    rfl

theorem sound_putBack (p : PieceRef) :
    (putBack d vm p).Sound ∧ (putBack d vm p).toSeat = vm.toSeat :=
  ⟨h.setPiece (type_setPiecePosition _ _ _), rfl⟩

/-- The accepted move of the dragged piece. -/
theorem sound_applyMove {p : PieceRef} (hp : vm.draggingPiece = some p) {x y : ℤ}
    (hxy : OnBoard x y) :
    (applyMove d vm p x y).Sound ∧ (applyMove d vm p x y).toSeat =
      { vm.toSeat with
        cells := Seat.moveFrom vm.toSeat.cells vm.toSeat.inicial (y * 8 + x) p
        transmit := (message vm.toSeat.inicial (y * 8 + x)).foldl enqueue vm.toSeat.transmit
        myTurn := false } := by
  obtain ⟨hp32, hcol, hrow⟩ := h.drag p hp
  have hcell : inicialCell vm = (vm.inicialPieceRow : ℤ) * 8 + vm.inicialPieceCol := by
    unfold inicialCell
    omega
  -- the square of the press is on the board, so its cell fits into one byte
  have hon : OnBoard vm.inicialPieceCol vm.inicialPieceRow :=
    ⟨by omega, by omega, by omega, by omega⟩
  have hinit : IsCell (inicialCell vm) := hcell ▸ isCell_of_onBoard hon
  have hdest := isCell_of_onBoard hxy
  -- the pieces, then the cells, then the message
  set vm₁ := ((putBack d vm p).setPiece p (movePiece ((putBack d vm p).heap p)
    (getScreenX d.toGeometry x) (getScreenY d.toGeometry y))) with hvm₁
  have h₁ : vm₁.Sound := (sound_putBack h p).1.setPiece (type_movePiece _ _ _)
  set cells := Function.update (Function.update vm.board.board (inicialCell vm) none) (y * 8 + x)
    (some p) with hcells
  set vm₂ : Vm := { vm₁ with board := { vm₁.board with board := cells } } with hvm₂
  have h₂ : vm₂.Sound := by
    refine ⟨h₁.1, h₁.2, h₁.3, fun i q hi hq => ?_, h₁.5, h₁.6, h₁.7⟩
    simp only [hvm₂, hcells] at hq
    rcases eq_or_ne i (y * 8 + x) with rfl | hne
    · simp only [Function.update_self, Option.some.injEq] at hq
      exact hq ▸ hp32
    · rw [Function.update_of_ne hne] at hq
      rcases eq_or_ne i (inicialCell vm) with rfl | hne'
      · simp at hq
      · rw [Function.update_of_ne hne'] at hq
        exact h.piece_lt i q hi hq
  have h₃ := h₂.send beginMessage
  have h₄ := h₃.send (positionByte vm.inicialPieceCol vm.inicialPieceRow)
  have h₅ := h₄.send (positionByte x.toNat y.toNat)
  have h₆ := h₅.send yourTurn
  have hbyte : cellByte (inicialCell vm) = positionByte vm.inicialPieceCol vm.inicialPieceRow := by
    rw [hcell, cellByte_square hon, Int.toNat_natCast, Int.toNat_natCast]
  set vm₆ := (((vm₂.send beginMessage).send
    (positionByte vm.inicialPieceCol vm.inicialPieceRow)).send
    (positionByte x.toNat y.toNat)).send yourTurn with hvm₆
  have happly : applyMove d vm p x y = { vm₆ with myTurn := false } := rfl
  refine ⟨⟨h₆.1, h₆.2, h₆.3, h₆.4, h₆.5, h₆.6, h₆.7⟩, ?_⟩
  have hseat : ∀ w : Vm, ({ w with myTurn := false } : Vm).toSeat =
      { w.toSeat with myTurn := false } := fun _ => rfl
  have hseat₂ : vm₂.toSeat = { vm.toSeat with
      cells := Seat.moveFrom vm.toSeat.cells vm.toSeat.inicial (y * 8 + x) p } := by
    simp only [hvm₂, hcells, Vm.toSeat, Seat.moveFrom, cellsOf_update hinit,
      cellsOf_update hdest]
    rfl
  rw [happly, hseat, hvm₆, toSeat_send h₅, toSeat_send h₄, toSeat_send h₃, toSeat_send h₂, hseat₂]
  simp only [message, List.foldl_cons, List.foldl_nil, cellByte_square hxy]
  have hinicial : vm.toSeat.inicial = inicialCell vm := rfl
  rw [hinicial, hbyte]

/-- The drop of the dragged piece puts it back, or makes its move. -/
theorem sound_drop {p : PieceRef} (hp : vm.draggingPiece = some p) :
    (drop d vm p).Sound ∧ ((drop d vm p).toSeat = vm.toSeat ∨
      ∃ x y, (x = getBoardX d.toGeometry vm.cursor.x.toNat ∧
        y = getBoardY d.toGeometry vm.cursor.y.toNat) ∧ OnBoard x y ∧
        (∀ q, vm.toSeat.cells (y * 8 + x) = some q → sameTeam (kind p) (kind q) = false) ∧
        (drop d vm p).toSeat = { vm.toSeat with
          endGame := vm.toSeat.endGame || Seat.kingAt vm.toSeat.cells (y * 8 + x)
          cells := Seat.moveFrom vm.toSeat.cells vm.toSeat.inicial (y * 8 + x) p
          transmit := (message vm.toSeat.inicial (y * 8 + x)).foldl enqueue vm.toSeat.transmit
          myTurn := false }) := by
  obtain ⟨hp32, -, -⟩ := h.drag p hp
  by_cases hdrops : ∃ x y, Drops d vm p x y
  · obtain ⟨x, y, hdrops⟩ := hdrops
    have hcell := isCell_of_onBoard hdrops.onBoard
    set w : Vm := { vm with endGame := vm.endGame || kingIn vm (y * 8 + x) }
    have hw : w.Sound := ⟨h.1, h.2, h.3, h.4, h.5, h.6, h.7⟩
    obtain ⟨hsound, hseat⟩ := sound_applyMove (d := d) hw hp hdrops.onBoard
    rw [drop_applyMove hdrops]
    refine ⟨hsound, Or.inr ⟨x, y, ⟨hdrops.square.1.symm, hdrops.square.2.symm⟩, hdrops.onBoard,
      fun q hq => ?_, ?_⟩⟩
    · have hq' : vm.board.board (y * 8 + x) = some q := (cellsOf_of_isCell hcell).symm.trans hq
      rw [← h.type_of_cell hcell hq', ← h.type_eq p hp32]
      exact hdrops.enemy q hq'
    · rw [hseat, kingAt_toSeat h hcell]
      rfl
  · rw [drop_putBack fun x y hxy => hdrops ⟨x, y, hxy⟩]
    exact ⟨(sound_putBack h p).1, Or.inl (sound_putBack h p).2⟩

/-- The cell under the cursor. -/
def cursorCell (d : Display) (vm : Vm) : ℤ :=
  getBoardY d.toGeometry vm.cursor.y.toNat * 8 + getBoardX d.toGeometry vm.cursor.x.toNat

/-- The release of the dragged piece. -/
theorem sound_release {p : PieceRef} (hp : vm.draggingPiece = some p) :
    (release d vm p).Sound ∧ ((release d vm p).toSeat = vm.toSeat.cancel ∨
      IsCell (cursorCell d vm) ∧
        (∀ q, vm.toSeat.cells (cursorCell d vm) = some q →
          sameTeam (kind p) (kind q) = false) ∧
        (release d vm p).toSeat = vm.toSeat.accept p (cursorCell d vm)) := by
  have hset := h.setPiece (p := p) (type_changePiecePriority (vm.heap p) false)
  obtain ⟨hsound, hseat⟩ := sound_drop (d := d) hset hp
  rw [toSeat_setPiece] at hseat
  set w := drop d (vm.setPiece p (changePiecePriority (vm.heap p) false)) p with hw
  refine ⟨⟨hsound.1, hsound.2, hsound.3, hsound.4, hsound.5, nofun, hsound.7⟩, ?_⟩
  have hrelease : (release d vm p).toSeat = w.toSeat.cancel := rfl
  rw [hrelease]
  obtain hseat | ⟨x, y, ⟨rfl, rfl⟩, hon, hteam, hseat⟩ := hseat
  · exact Or.inl (by rw [hseat])
  · have hcursor : getBoardY d.toGeometry vm.cursor.y.toNat * 8 +
        getBoardX d.toGeometry vm.cursor.x.toNat = cursorCell d vm := rfl
    have hcell := isCell_of_onBoard hon
    rw [Vm.setPiece, hcursor] at hcell hteam hseat
    refine Or.inr ⟨hcell, hteam, ?_⟩
    rw [hseat, Seat.cancel, Seat.accept]

/-- A `MOUSE` event. Only one of press and release can happen at it. -/
theorem sound_playingMouse (hbuttons : vm.cursor.pressed = true → vm.cursor.released = false) :
    (playingMouse d vm).Sound ∧ ((playingMouse d vm).toSeat = vm.toSeat ∨
      (∃ p i, vm.toSeat.dragging = none ∧ vm.toSeat.myTurn = true ∧ IsCell i ∧
        vm.toSeat.cells i = some p ∧ owns vm.toSeat.player (kind p) = true ∧
        (playingMouse d vm).toSeat = vm.toSeat.press p i) ∨
      (∃ p, vm.toSeat.dragging = some p ∧ ((playingMouse d vm).toSeat = vm.toSeat.cancel ∨
        IsCell (cursorCell d vm) ∧
          (∀ q, vm.toSeat.cells (cursorCell d vm) = some q →
            sameTeam (kind p) (kind q) = false) ∧
          (playingMouse d vm).toSeat = vm.toSeat.accept p (cursorCell d vm)))) := by
  rcases playingMouse_cases d hbuttons with ⟨-, heq⟩ | ⟨hdrag, p, x, y, hpress, heq⟩ |
    ⟨p, -, -, heq⟩ | ⟨p, hdrag, -, heq⟩
  · rw [heq]
    exact ⟨h, Or.inl rfl⟩
  · have hcell := isCell_of_onBoard hpress.onBoard
    have hp := h.piece_lt _ p hcell hpress.cell
    obtain ⟨hsound, hseat⟩ := sound_press (d := d) h hp hpress.onBoard
    rw [heq]
    refine ⟨hsound, Or.inr (Or.inl ⟨p, y * 8 + x, hdrag, hpress.turn, hcell, ?_, ?_, hseat⟩)⟩
    · exact (cellsOf_of_isCell hcell).trans hpress.cell
    · rw [← h.type_of_cell hcell hpress.cell]
      exact hpress.owns
  · rw [heq]
    exact ⟨h.setPiece (type_setPiecePosition _ _ _), Or.inl rfl⟩
  · have hfollow : (follow vm p).Sound := h.setPiece (type_setPiecePosition _ _ _)
    obtain ⟨hsound, hseat⟩ := sound_release (d := d) hfollow hdrag
    rw [heq]
    exact ⟨hsound, Or.inr (Or.inr ⟨p, hdrag, hseat⟩)⟩

/-- The loser leaves. -/
theorem sound_loseKing {n : ℤ} (hn : IsCell n) :
    (loseKing vm n).Sound ∧ (loseKing vm n).board = vm.board ∧
      (loseKing vm n).toSeat = { vm.toSeat with
        gameState := if Seat.kingAt vm.toSeat.cells n then .exit else vm.gameState
        won := if Seat.kingAt vm.toSeat.cells n then false else vm.won } := by
  rw [kingAt_toSeat h hn]
  unfold loseKing kingIn
  cases vm.board.board n with
  | none => exact ⟨h, rfl, rfl⟩
  | some q =>
    dsimp only
    split_ifs
    · exact ⟨⟨h.1, h.2, h.3, h.4, h.5, h.6, h.7⟩, rfl, rfl⟩
    · exact ⟨h, rfl, rfl⟩

/-- The received move of the piece `p`. -/
theorem sound_moveReceived {p : PieceRef} {o n : ℤ} (ho : IsCell o) (hn : IsCell n)
    (hp : vm.board.board o = some p) :
    (moveReceived d vm p o n).Sound ∧ (moveReceived d vm p o n).toSeat =
      { vm.toSeat with cells := Seat.moveTo vm.toSeat.cells o n p } := by
  have hset := h.setPiece (p := p) (type_movePiece (vm.heap p)
    (getScreenX d.toGeometry vm.move.newCol.toNat) (getScreenY d.toGeometry vm.move.newRow.toNat))
  refine ⟨⟨hset.1, hset.2, hset.3, fun i q hi hq => ?_, hset.5, hset.6, hset.7⟩, ?_⟩
  · simp only [moveReceived, Vm.setPiece] at hq
    rcases eq_or_ne i o with rfl | hne
    · simp at hq
    · rw [Function.update_of_ne hne] at hq
      rcases eq_or_ne i n with rfl | hne'
      · simp only [Function.update_self, Option.some.injEq] at hq
        exact hq ▸ h.piece_lt o p ho hp
      · rw [Function.update_of_ne hne'] at hq
        exact h.piece_lt i q hi hq
  · simp only [moveReceived, Vm.toSeat, Seat.moveTo, Vm.setPiece, cellsOf_update ho,
      cellsOf_update hn]
    rfl

/-- A received move. -/
theorem sound_receiveMove {b : UInt8} (hnew : moveCell vm.move.newRow vm.move.newCol = byteCell b) :
    (receiveMove d vm).map Vm.toSeat = vm.toSeat.receiveMove (byteCell b) ∧
      ∀ vm', receiveMove d vm = some vm' → vm'.Sound := by
  have hcell := isCell_byteCell b
  obtain ⟨hsound, hboard, hseat⟩ := sound_loseKing h hcell
  -- the pointer that may be null is the piece in the origin
  have hcells : vm.toSeat.cells vm.toSeat.origin =
      vm.board.board (moveCell vm.move.oldRow vm.move.oldCol) := cellsOf_of_isCell h.origin
  unfold receiveMove Seat.receiveMove
  simp only [hnew, hcells, hboard]
  cases hp : vm.board.board (moveCell vm.move.oldRow vm.move.oldCol) with
  | none => exact ⟨rfl, fun _ hv => absurd hv (by simp)⟩
  | some p =>
    obtain ⟨hsound', hseat'⟩ := sound_moveReceived (d := d) hsound h.origin hcell
      (by rw [hboard]; exact hp)
    refine ⟨?_, ?_⟩
    · simp only [Option.map_some, hseat', hseat]
      rfl
    · rintro _ ⟨⟩
      exact hsound'

theorem sound_parseByte (b : UInt8) :
    (parseByte d b vm).map Vm.toSeat = vm.toSeat.parse b ∧
      ∀ vm', parseByte d b vm = some vm' → vm'.Sound := by
  unfold parseByte Seat.parse
  by_cases hbegin : b = beginMessage
  · simp only [hbegin, if_true]
    refine ⟨rfl, ?_⟩
    rintro _ ⟨⟩
    exact ⟨h.1, h.2, h.3, h.4, h.5, h.6, h.7⟩
  by_cases hturn : b = yourTurn
  · subst hturn
    simp only [hbegin, if_true, if_false]
    refine ⟨rfl, ?_⟩
    rintro _ ⟨⟩
    exact ⟨h.1, h.2, h.3, h.4, h.5, h.6, h.7⟩
  by_cases hzero : b = 0
  · subst hzero
    simp only [hbegin, hturn, ne_eq, not_true, if_true, if_false]
    refine ⟨rfl, ?_⟩
    rintro _ ⟨⟩
    exact h
  simp only [hbegin, hturn, hzero, ne_eq, not_false_eq_true, if_true, if_false]
  by_cases hbyte : vm.byteOfMove = 0
  · have hseat : vm.toSeat.byteOfMove = 0 := hbyte
    simp only [hbyte, hseat, if_true, Nat.zero_add]
    refine ⟨rfl, ?_⟩
    have horigin : IsCell (moveCell (positionRow b) (positionCol b)) := isCell_byteCell b
    rintro _ ⟨⟩
    exact ⟨h.1, h.2, h.3, h.4, h.5, h.6, horigin⟩
  · have hseat : vm.toSeat.byteOfMove ≠ 0 := hbyte
    have hnew : moveCell (positionRow b) (positionCol b) = byteCell b := rfl
    have hw : ({ vm with move := { vm.move with
        newCol := positionCol b, newRow := positionRow b } } : Vm).Sound :=
      ⟨h.1, h.2, h.3, h.4, h.5, h.6, h.7⟩
    simp only [hbyte, hseat, if_false]
    exact sound_receiveMove hw hnew

/-- One byte is polled and parsed. -/
theorem sound_receiveByte :
    (receiveByte d vm).map Vm.toSeat = vm.toSeat.poll ∧
      ∀ vm', receiveByte d vm = some vm' → vm'.Sound := by
  -- the byte leaves the queue before it is parsed
  have hw : ({ vm with receiveQueue := (readFromQueue vm.receiveQueue).2 } : Vm).Sound :=
    ⟨h.1, h.2, ⟨wellFormed_readFromQueue h.receive.1, by simpa using h.receive.2⟩, h.4, h.5, h.6,
      h.7⟩
  obtain ⟨hseat, hsound⟩ := sound_parseByte (d := d) hw (readFromQueue vm.receiveQueue).1
  refine ⟨hseat.trans ?_, hsound⟩
  unfold Seat.poll
  cases hq : vm.receiveQueue.toList with
  | nil =>
    have hreceive : vm.toSeat.receive = [] := hq
    simp only [readFromQueue_of_nil hq, hreceive]
    rfl
  | cons b bs =>
    have hreceive : vm.toSeat.receive = b :: bs := hq
    obtain ⟨hb, hbs⟩ := readFromQueue_of_cons h.receive.1 hq
    simp only [hreceive, hb]
    congr 1
    simp only [Vm.toSeat, hbs]
    rfl

end Parts

/-! ## The initial position -/

/-- The cells of the initial position. -/
def initialCells (i : ℤ) : Option PieceRef :=
  initialPieces.findIdx? fun c => getPosition c.2.1 c.2.2 == i

theorem cells_initPieces (g : Geometry) (board : ℤ → Option PieceRef) (heap : Heap) {i : ℤ}
    (hi : IsCell i) : (initPieces g board heap).1 i = initialCells i := by
  obtain ⟨h0, h64⟩ := hi
  interval_cases i <;> rfl

/-- The square of the `k`-th piece `initBoard` creates: its column and its row. -/
def home (p : PieceRef) : ℤ × ℤ := ((initialPieces.map Prod.snd)[p]?).getD (0, 0)

/-- The `k`-th piece is created on its square. -/
theorem heap_initPieces (g : Geometry) (board : ℤ → Option PieceRef) (heap : Heap) {p : PieceRef}
    (hp : p < 32) : (initPieces g board heap).2 p =
      initPiece (heap p) (kind p) (getScreenX g (home p).1) (getScreenY g (home p).2) := by
  interval_cases p <;> rfl

/-- A piece of the initial position stands in the cell of its square. -/
theorem home_of_initialCells {i : ℤ} {p : PieceRef} (hi : IsCell i)
    (h : initialCells i = some p) : (home p).1 = i % 8 ∧ (home p).2 = i / 8 := by
  refine forall_isCell (p := fun i => ∀ p ∈ initialCells i,
    (home p).1 = i % 8 ∧ (home p).2 = i / 8) ?_ hi p h
  decide

theorem lt_of_initialCells {i : ℤ} {p : PieceRef} (h : initialCells i = some p) : p < 32 :=
  (List.findIdx?_eq_some_iff_getElem.mp h).1

/-- An instance whose game has not begun: the statics of `playing_ih` at their initial values,
empty queues and the initial position, the board not created yet or just created. -/
structure Fresh (d : Display) (vm : Vm) : Prop where
  endGame : vm.endGame = false
  byteOfMove : vm.byteOfMove = 0
  move : vm.move = ⟨0, 0, 0, 0⟩
  dragging : vm.draggingPiece = none
  transmit : vm.transmitQueue.WellFormed ∧ vm.transmitQueue.capacity = 10
  receive : vm.receiveQueue.WellFormed ∧ vm.receiveQueue.capacity = 10
  transmit_nil : vm.transmitQueue.toList = []
  receive_nil : vm.receiveQueue.toList = []
  line_nil : vm.line = []
  board : vm.boardCreated = false ∨ ∃ vm₀ : Vm, vm₀.boardCreated = false ∧ vm = ensureBoard d vm₀

/-- A new game: an instance in `PLAYING` whose game has not begun. -/
structure NewGame (d : Display) (vm : Vm) : Prop extends Fresh d vm where
  playing : vm.gameState = .playing

theorem fresh_initial (d : Display) : Fresh d Vm.initial where
  endGame := rfl
  byteOfMove := rfl
  move := rfl
  dragging := rfl
  transmit := ⟨Queue.wellFormed_create (by decide) (by decide) _, rfl⟩
  receive := ⟨Queue.wellFormed_create (by decide) (by decide) _, rfl⟩
  transmit_nil := rfl
  receive_nil := rfl
  line_nil := rfl
  board := .inl rfl

theorem newGame_initialGame (d : Display) (player : Player) :
    NewGame d (Vm.initialGame player) where
  toFresh := { fresh_initial d with board := .inl rfl }
  playing := rfl

namespace Fresh

variable {d : Display} {vm : Vm} (h : Fresh d vm)
include h

/-- The cells and the pieces before the first move. -/
theorem pieces : (∀ i, IsCell i → (ensureBoard d vm).board.board i = initialCells i) ∧
    ∀ p < 32, ∃ piece, (ensureBoard d vm).heap p = initPiece piece (kind p)
      (getScreenX d.toGeometry (home p).1) (getScreenY d.toGeometry (home p).2) := by
  -- the creation of the board writes all cells and pieces, whatever they held
  have hfresh : ∀ vm₀ : Vm, vm₀.boardCreated = false →
      (∀ i, IsCell i → (ensureBoard d vm₀).board.board i = initialCells i) ∧
        ∀ p < 32, ∃ piece, (ensureBoard d vm₀).heap p = initPiece piece (kind p)
          (getScreenX d.toGeometry (home p).1) (getScreenY d.toGeometry (home p).2) := by
    intro vm₀ h₀
    obtain ⟨hboard, hheap⟩ := ensureBoard_of_not_created (d := d) h₀
    rw [hboard, hheap]
    exact ⟨fun i hi => cells_initPieces _ _ _ hi, fun p hp => ⟨_, heap_initPieces _ _ _ hp⟩⟩
  obtain h₀ | ⟨vm₀, h₀, rfl⟩ := h.board
  · exact hfresh vm h₀
  · rw [ensureBoard_of_created (boardCreated_ensureBoard d vm₀)]
    exact hfresh vm₀ h₀

/-- The board before the first move. -/
theorem position : (∀ i, IsCell i → (ensureBoard d vm).board.board i = initialCells i) ∧
    ∀ p < 32, ((ensureBoard d vm).heap p).type = kind p := by
  obtain ⟨hcells, hpieces⟩ := h.pieces
  refine ⟨hcells, fun p hp => ?_⟩
  obtain ⟨piece, hpiece⟩ := hpieces p hp
  rw [hpiece]
  rfl

theorem sound : (ensureBoard d vm).Sound := by
  obtain ⟨hcells, htypes⟩ := h.position
  obtain ⟨board, heap, redraw, heq⟩ := ensureBoard_frame d vm
  rw [heq] at hcells htypes ⊢
  refine ⟨rfl, h.transmit, h.receive, fun i p hi hp => ?_, htypes, fun p hp => ?_, ?_⟩
  · exact lt_of_initialCells ((hcells i hi).symm.trans hp)
  · exact absurd (h.dragging.symm.trans hp) (by simp)
  · simp only [h.move]
    decide

/-- The seat before the first move. -/
theorem seat_eq : seat d vm =
    { gameState := vm.gameState, player := vm.player, myTurn := vm.myTurn, endGame := false,
      won := vm.won, byteOfMove := 0, origin := 0, dragging := none, inicial := inicialCell vm,
      cells := fun i => if IsCell i then initialCells i else none, transmit := [],
      receive := [], line := [] } := by
  obtain ⟨hcells, -⟩ := h.position
  have hcells' : cellsOf (ensureBoard d vm).board.board =
      fun i => if IsCell i then initialCells i else none := by
    funext i
    by_cases hi : IsCell i
    · rw [cellsOf_of_isCell hi, if_pos hi, hcells i hi]
    · simp only [cellsOf, hi, if_false]
  rw [seat, Vm.toSeat, hcells']
  obtain ⟨board, heap, redraw, heq⟩ := ensureBoard_frame d vm
  rw [heq]
  simp only [h.endGame, h.byteOfMove, h.move, h.dragging, h.transmit_nil, h.receive_nil,
    h.line_nil]
  rfl

end Fresh

/-- The seat of a new game. -/
theorem NewGame.seat_eq {d : Display} {vm : Vm} (h : NewGame d vm) : seat d vm =
    { gameState := .playing, player := vm.player, myTurn := vm.myTurn, endGame := false,
      won := vm.won, byteOfMove := 0, origin := 0, dragging := none, inicial := inicialCell vm,
      cells := fun i => if IsCell i then initialCells i else none, transmit := [],
      receive := [], line := [] } := by
  rw [h.toFresh.seat_eq, h.playing]

/-! ## The events of a game -/

section Events

variable {d : Display} {vm : Vm} (hsound : (ensureBoard d vm).Sound)
  (hplay : vm.gameState = .playing)
include hsound hplay

/-- A frame redraws the board and polls one byte. -/
theorem handleEvent_newFrame (arrivals : ℕ) :
    (handleEvent d arrivals .newFrame vm).map (seat d) = (seat d vm).leave.poll ∧
      ∀ vm', handleEvent d arrivals .newFrame vm = some vm' → vm'.Sound := by
  obtain ⟨hleave, hleaveSeat⟩ := sound_leaveGame hsound
  obtain ⟨hframe, hframeSeat⟩ := sound_playingFrame (d := d) hleave
  obtain ⟨hpoll, hpollSound⟩ := sound_receiveByte (d := d) hframe
  rw [hframeSeat, hleaveSeat] at hpoll
  rw [handleEvent_frame hplay, Option.map_map, seat, ← hpoll]
  cases hbyte : receiveByte d (playingFrame d (leaveGame (ensureBoard d vm))) with
  | none => exact ⟨rfl, fun _ hv => absurd hv (by simp)⟩
  | some w =>
    obtain ⟨hpresent, hpresentSeat⟩ := sound_presentFrame (d := d) (hpollSound w hbyte)
    refine ⟨?_, ?_⟩
    · simp only [Option.map_some, Function.comp, seat,
        ensureBoard_of_created hpresent.created, hpresentSeat]
    · rintro _ ⟨⟩
      exact hpresent

/-- A packet or a key is an event of the seat that reads no byte: the parser stays as it is, and
so do the cells unless the event makes a move. -/
theorem handleEvent_unread {arrivals : ℕ} {event : Event} {vm' : Vm} (hunread : event ≠ .newFrame)
    (h : handleEvent d arrivals event vm = some vm') :
    vm'.Sound ∧ ∃ l, Seat.Event (seat d vm) l (seat d vm') ∧
      (∀ m, l = some m → ∃ packet, event = .mouse packet ∧ m = (inicialCell vm, cursorCell d
        { vm with cursor := updateCursor d.toGeometry packet vm.cursor })) ∧
      (seat d vm').byteOfMove = (seat d vm).byteOfMove ∧
      (seat d vm').origin = (seat d vm).origin ∧
      (l = none → (seat d vm').cells = (seat d vm).cells) := by
  cases event with
  | newFrame => exact absurd rfl hunread
  | keyboard scanCode =>
    obtain ⟨hleave, hleaveSeat⟩ := sound_leaveGame hsound
    obtain ⟨hkey, hkeySeat⟩ := sound_playingKeyboard hleave scanCode
    obtain rfl : playingKeyboard (leaveGame (ensureBoard d vm)) scanCode = vm' :=
      Option.some.inj ((handleEvent_keyboard hplay _).symm.trans h)
    have hidle : seat d (playingKeyboard (leaveGame (ensureBoard d vm)) scanCode) =
        (seat d vm).leave := by
      rw [seat, seat, ensureBoard_of_created hkey.created, hkeySeat, hleaveSeat]
    rw [hidle]
    exact ⟨hkey, none, .idle _, nofun, by simp, by simp, by simp⟩
  | mouse packet =>
    set w₀ : Vm := { vm with cursor := updateCursor d.toGeometry packet vm.cursor } with hw₀
    set w : Vm := { ensureBoard d vm with
      cursor := updateCursor d.toGeometry packet vm.cursor }
    have hwsound : w.Sound :=
      ⟨hsound.1, hsound.2, hsound.3, hsound.4, hsound.5, hsound.6, hsound.7⟩
    obtain ⟨hleave, hleaveSeat⟩ := sound_leaveGame hwsound
    obtain rfl : playingMouse d (leaveGame w) = vm' :=
      Option.some.inj ((handleEvent_mouse hplay _).symm.trans h)
    have hcursor : (leaveGame w).cursor = updateCursor d.toGeometry packet vm.cursor :=
      cursor_leaveGame w
    -- one packet cannot press and release
    have hbuttons : (leaveGame w).cursor.pressed = true →
        (leaveGame w).cursor.released = false := by
      rw [hcursor]
      simp +contextual
    obtain ⟨hmouse, hcases⟩ := sound_playingMouse (d := d) hleave hbuttons
    -- the move ends in the cell under the cursor of the packet
    have hcell : cursorCell d (leaveGame w) = cursorCell d w₀ := by
      simp only [cursorCell, hcursor, hw₀]
    have hseat : seat d vm = w.toSeat := rfl
    refine ⟨hmouse, ?_⟩
    have hseat' : seat d (playingMouse d (leaveGame w)) =
        (playingMouse d (leaveGame w)).toSeat := by
      rw [seat, ensureBoard_of_created hmouse.created]
    rw [hseat', hseat]
    rw [hleaveSeat, hcell] at hcases
    obtain heq | ⟨p, i, hdrag, hturn, hi, hp, hown, heq⟩ | ⟨p, hdrag, heq | ⟨hi, hteam, heq⟩⟩ :=
      hcases
    · rw [heq]
      exact ⟨none, .idle _, nofun, by simp, by simp, by simp⟩
    · simp only [Seat.dragging_leave, Seat.myTurn_leave, Seat.cells_leave,
        Seat.player_leave] at hdrag hturn hp hown
      rw [heq]
      exact ⟨none, .press _ p i hdrag hturn hi hp hown, nofun, by simp [Seat.press],
        by simp [Seat.press], by simp [Seat.press]⟩
    · rw [Seat.dragging_leave] at hdrag
      rw [heq]
      exact ⟨none, .cancel _ p hdrag, nofun, by simp [Seat.cancel], by simp [Seat.cancel],
        by simp [Seat.cancel]⟩
    · rw [Seat.dragging_leave] at hdrag
      rw [Seat.cells_leave] at hteam
      rw [heq]
      refine ⟨_, .accept _ p _ hdrag hi hteam, ?_, by simp [Seat.accept], by simp [Seat.accept],
        by simp⟩
      rintro _ ⟨⟩
      exact ⟨packet, rfl, Prod.ext (inicialCell_ensureBoard d vm) rfl⟩

/-- **An event of the program is an event of its seat**, and the move it makes is the one from
the pressed square to the square under the cursor. -/
theorem handleEvent_refines {arrivals : ℕ} {event : Event} {vm' : Vm}
    (h : handleEvent d arrivals event vm = some vm') :
    vm'.Sound ∧ ∃ l, Seat.Event (seat d vm) l (seat d vm') ∧
      ∀ m, l = some m → ∃ packet, event = .mouse packet ∧ m = (inicialCell vm, cursorCell d
        { vm with cursor := updateCursor d.toGeometry packet vm.cursor }) := by
  by_cases hframe : event = .newFrame
  · obtain ⟨hpoll, hsound'⟩ := handleEvent_newFrame hsound hplay arrivals
    rw [hframe] at h
    rw [h] at hpoll
    exact ⟨hsound' vm' h, none, .poll _ _ hpoll.symm, nofun⟩
  · obtain ⟨hsound', l, hevent, hlabel, -⟩ := handleEvent_unread hsound hplay hframe h
    exact ⟨hsound', l, hevent, hlabel⟩

end Events

end LCChess
