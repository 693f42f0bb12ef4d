import LCChess.Play.Highlights
import LCChess.Protocol.Refinement

/-!
# Drag and drop

One drag on an instance of the game: an own piece is pressed, other events and serial port calls
follow while the button is down, and the button goes up. Nothing but a received byte touches the
cells and the highlights during a drag, so that the release either makes one move and announces
it, or leaves everything as it was.

## Main definitions

* `Steady vm`: the turn ends with the game
* `Gesture`, `Gesture.Lifts`: a drag, and what makes it one of the piece `p`
* `Dragging d base vm p x y`: the piece `p` of `base` is being dragged in `vm`
* `Accepted`, `Rejected`: the two outcomes of a release

## Main results

* `steady_run`: a steady instance stays so, on arbitrary events and bytes
* `Gesture.Lifts.carrying`: a drag goes on until the release
* `drag_all_or_nothing`: a release is accepted or rejected, as a whole
-/

namespace LCChess

open Transition (run run_invariant Along run_invariant_along)

/-! ## The end of the game -/

/-- An instance in a game, or after it, whose turn ends with the game. -/
structure Steady (vm : Vm) : Prop where
  game : Begun vm
  ended : vm.gameState = .playing → vm.endGame = true → vm.myTurn = false

section Steady

variable {d : Display} {vm vm' : Vm}

theorem Steady.of_exit (h : vm.gameState = .exit) : Steady vm where
  game := .inr h
  ended hplay := absurd (h.symm.trans hplay) (by decide)

/-- The first lines of `playing_ih` leave a game that is over. -/
theorem endGame_entered (hgame : Begun vm) (cursor : Cursor) :
    (leaveGame { ensureBoard d vm with cursor := cursor }).gameState = .exit ∨
      (leaveGame { ensureBoard d vm with cursor := cursor }).gameState = .playing ∧
        (leaveGame { ensureBoard d vm with cursor := cursor }).endGame = false := by
  obtain ⟨board, heap, redraw, hframe⟩ := ensureBoard_frame d vm
  rw [hframe]
  cases hend : vm.endGame with
  | true => exact .inl (gameState_leaveGame _ rfl)
  | false =>
    rw [leaveGame_of_endGame rfl]
    exact hgame.symm.imp id fun hplay => ⟨hplay, rfl⟩

/-- What an event does to the end of a game that is not over. -/
theorem Steady.of_endGame (hgame : Begun vm') (hend : vm'.endGame = false) : Steady vm' where
  game := hgame
  ended _ hover := absurd (hend.symm.trans hover) (by decide)

/-- A `MOUSE` event ends a game only with its turn. -/
theorem steady_playingMouse (hgame : Begun vm) (hend : vm.endGame = false)
    (hbuttons : vm.cursor.pressed = true → vm.cursor.released = false) :
    Steady (playingMouse d vm) := by
  have hgame' : Begun (playingMouse d vm) := by rwa [Begun, (playingMouse_frame d _).1]
  refine ⟨hgame', fun _ hover => ?_⟩
  rcases playingMouse_cases d hbuttons with ⟨-, heq⟩ | ⟨-, p, x, y, -, heq⟩ | ⟨p, -, -, heq⟩ |
    ⟨p, -, -, heq⟩
  · rw [heq] at hover
    exact absurd (hend.symm.trans hover) (by decide)
  · rw [heq] at hover
    exact absurd (hend.symm.trans hover) (by decide)
  · rw [heq] at hover
    exact absurd (hend.symm.trans hover) (by decide)
  · rw [heq] at hover ⊢
    have hend' : (follow vm p).endGame = false := hend
    generalize follow vm p = w at hover hend' ⊢
    -- only a release that makes a move can take a king, and it ends the turn
    by_cases hdrops : ∃ x y, Drops d w p x y
    · obtain ⟨x, y, hdrops⟩ := hdrops
      rw [release_move hdrops]
    · rw [release_putBack fun x y hxy => hdrops ⟨x, y, hxy⟩] at hover
      exact absurd (hend'.symm.trans hover) (by decide)

/-- Every event keeps an instance steady. -/
theorem Steady.event (h : Steady vm) {arrivals : ℕ} {event : Event}
    (hev : handleEvent d arrivals event vm = some vm') : Steady vm' := by
  have hgame' := begun_event h.game hev
  rcases h.game with hplay | hexit
  · cases event with
    | newFrame =>
      rw [handleEvent_frame hplay] at hev
      obtain ⟨vm₁, hbyte, rfl⟩ := Option.map_eq_some_iff.mp hev
      obtain ⟨-, -, hend, -, hstate⟩ := parseByte_frame hbyte
      rcases endGame_entered (d := d) h.game (ensureBoard d vm).cursor with hexit | ⟨-, hend'⟩
      · exact .of_exit (hstate.elim (fun hs => hs.trans hexit) id)
      · exact .of_endGame hgame' (hend.trans hend')
    | keyboard scanCode =>
      obtain rfl := Option.some.inj ((handleEvent_keyboard hplay scanCode).symm.trans hev)
      rcases endGame_entered (d := d) h.game (ensureBoard d vm).cursor with hexit | ⟨-, hend'⟩
      · exact .of_exit (by unfold playingKeyboard; split_ifs <;> exact hexit)
      · exact .of_endGame hgame' (by unfold playingKeyboard; split_ifs <;> exact hend')
    | mouse packet =>
      obtain rfl := Option.some.inj ((handleEvent_mouse hplay packet).symm.trans hev)
      rcases endGame_entered (d := d) h.game (updateCursor d.toGeometry packet vm.cursor) with
        hexit | ⟨hplay', hend'⟩
      · exact .of_exit ((playingMouse_frame d _).1.trans hexit)
      · apply steady_playingMouse (.inl hplay') hend'
        rw [cursor_leaveGame]
        simp +contextual
  · refine .of_exit ?_
    rw [handleEvent_over hexit] at hev
    obtain rfl := Option.some.inj hev
    cases event <;> exact hexit

end Steady

/-- Every input keeps an instance steady. -/
theorem steady_stepInput {d : Display} {s : Instance} (h : Steady s.vm) (i : Action ⊕ UInt8) :
    Steady (s.stepInput d i).vm := by
  rcases s.stepInput_cases d i with ⟨arrivals, event, vm', -, -, hev, hstep⟩ |
    ⟨transmit, receive, line, hstep, -, -⟩
  · rw [hstep]
    exact h.event hev
  · rw [hstep]
    exact ⟨h.game, h.ended⟩

/-- **A steady instance stays so**, on arbitrary events and bytes. -/
theorem steady_run {d : Display} {s : Instance} (h : Steady s.vm)
    (inputs : List (Action ⊕ UInt8)) : Steady (run (Instance.stepInput d) s inputs).vm :=
  run_invariant (fun s : Instance => Steady s.vm) (fun _ i hs => steady_stepInput hs i) h inputs

/-! ## A drag -/

/-- A drag: the packet that presses a piece, what happens while the button is down, and the packet
that releases it. -/
structure Gesture where
  press : Packet
  held : List (Action ⊕ UInt8)
  release : Packet

/-- While the button is down, no packet releases it and no frame finds a byte; everything else is
free. -/
def Holding (s : Instance) (i : Action ⊕ UInt8) : Prop :=
  match i with
  | .inl (.event _ (.mouse packet)) => packet.lb = true
  | .inl (.event _ .newFrame) => (readFromQueue s.vm.receiveQueue).1 = 0
  | _ => True

namespace Gesture

variable (d : Display) (g : Gesture) (s : Instance)

/-- The instance behind the press. -/
def pressed : Instance := s.stepInput d (.inl (.event 0 (.mouse g.press)))

/-- The instance before the release. -/
def lifted : Instance := run (Instance.stepInput d) (g.pressed d s) g.held

/-- The instance behind the release. -/
def dropped : Instance := (g.lifted d s).stepInput d (.inl (.event 0 (.mouse g.release)))

/-- The cursor at the release. -/
def cursor : Cursor := updateCursor d.toGeometry g.release (g.lifted d s).vm.cursor

/-- The column of the square under the cursor at the release. -/
def col : ℤ := getBoardX d.toGeometry (g.cursor d s).x.toNat

/-- The row of the square under the cursor at the release. -/
def row : ℤ := getBoardY d.toGeometry (g.cursor d s).y.toNat

/-- The cursor at the release of a drag of two packets. -/
theorem cursor_of_held_nil (hheld : g.held = []) (halive : s.crashed = false)
    (hplay : s.vm.gameState = .playing) : g.cursor d s =
      updateCursor d.toGeometry g.release (updateCursor d.toGeometry g.press s.vm.cursor) := by
  rw [cursor, lifted, hheld]
  exact congrArg _ (Instance.cursor_step halive hplay 0 g.press)

/-- The drag of the piece `p` from square `(x, y)`, in a game and on the own turn. -/
structure Lifts (p : PieceRef) (x y : ℤ) : Prop where
  alive : s.crashed = false
  playing : s.vm.gameState = .playing
  idle : s.vm.draggingPiece = none
  presses : Presses d { ensureBoard d s.vm with
    cursor := updateCursor d.toGeometry g.press s.vm.cursor } p x y
  held : Along Holding (Instance.stepInput d) (g.pressed d s) g.held
  up : g.release.lb = false

end Gesture

/-- The piece `p`, pressed in square `(x, y)` of the instance `base`, is being dragged: the cells
are those of the press, and so are the highlights. -/
structure Dragging (d : Display) (base vm : Vm) (p : PieceRef) (x y : ℤ) : Prop where
  created : vm.boardCreated = true
  playing : vm.gameState = .playing
  endGame : vm.endGame = false
  turn : vm.myTurn = true
  dragging : vm.draggingPiece = some p
  inicial : vm.inicialPieceCol = u32 x ∧ vm.inicialPieceRow = u32 y
  cells : vm.board.board = base.board.board
  marks : vm.board.memBoard = possiblePosition d.toGeometry base.board.board base.heap
    (base.heap p) x y base.board.memBoard
  types : ∀ q, (vm.heap q).type = (base.heap q).type

namespace Dragging

variable {d : Display} {base vm vm' : Vm} {p : PieceRef} {x y : ℤ}

/-- The press of a piece begins its drag. -/
theorem of_press (hcreated : vm.boardCreated = true) (hplay : vm.gameState = .playing)
    (hend : vm.endGame = false) (h : Presses d vm p x y) :
    Dragging d vm (press d vm p x y) p x y := by
  exact ⟨hcreated, hplay, hend, h.turn, rfl, ⟨rfl, rfl⟩, rfl, memBoard_press h.onBoard,
    fun q => heap_setPriority vm p q true⟩

/-- The dragged piece follows the cursor. -/
theorem follow (h : Dragging d base vm p x y) : Dragging d base (follow vm p) p x y := by
  obtain ⟨hcreated, hplay, hend, hturn, hdrag, hinicial, hcells, hmarks, htypes⟩ := h
  refine ⟨hcreated, hplay, hend, hturn, hdrag, hinicial, hcells, hmarks, fun q => ?_⟩
  refine Eq.trans ?_ (htypes q)
  rcases eq_or_ne q p with rfl | hne
  · simp [LCChess.follow, Vm.setPiece]
  · simp [LCChess.follow, Vm.setPiece, Function.update_of_ne hne]

/-- The cursor does not matter to a drag. -/
theorem withCursor (h : Dragging d base vm p x y) (cursor : Cursor) :
    Dragging d base { vm with cursor := cursor } p x y :=
  ⟨h.created, h.playing, h.endGame, h.turn, h.dragging, h.inicial, h.cells, h.marks, h.types⟩

/-- A packet with the button down goes on with the drag. -/
theorem mouse (h : Dragging d base vm p x y) {arrivals : ℕ} {packet : Packet}
    (hdown : packet.lb = true)
    (hev : handleEvent d arrivals (.mouse packet) vm = some vm') :
    Dragging d base vm' p x y := by
  rw [handleEvent_follow h.playing h.created h.endGame h.dragging hdown] at hev
  obtain rfl := Option.some.inj hev
  exact follow (h.withCursor _)

/-- A frame without a byte goes on with the drag. -/
theorem frame (h : Dragging d base vm p x y) {arrivals : ℕ}
    (hempty : (readFromQueue vm.receiveQueue).1 = 0)
    (hev : handleEvent d arrivals .newFrame vm = some vm') :
    Dragging d base vm' p x y := by
  rw [handleEvent_frame h.playing, ensureBoard_of_created h.created,
    leaveGame_of_endGame h.endGame] at hev
  obtain ⟨vm₁, hbyte, rfl⟩ := Option.map_eq_some_iff.mp hev
  -- the empty queue answers `0`, so that no byte interferes with the drag
  have hzero : (readFromQueue (playingFrame d vm).receiveQueue).1 = 0 :=
    hempty
  simp only [receiveByte, hzero, parseByte_zero, Option.some.injEq] at hbyte
  subst hbyte
  exact ⟨h.created, h.playing, h.endGame, h.turn, h.dragging, h.inicial, h.cells,
    h.marks, fun q => (type_updateBoard _ _ (vm.heap, vm.redrawPieces) q).trans (h.types q)⟩

/-- A key goes on with the drag. -/
theorem keyboard (h : Dragging d base vm p x y) {arrivals : ℕ} {scanCode : UInt8}
    (hev : handleEvent d arrivals (.keyboard scanCode) vm = some vm') :
    Dragging d base vm' p x y := by
  rw [handleEvent_keyboard h.playing, ensureBoard_of_created h.created,
    leaveGame_of_endGame h.endGame] at hev
  obtain rfl := Option.some.inj hev
  unfold playingKeyboard
  split_ifs
  · exact ⟨h.created, h.playing, h.endGame, h.turn, h.dragging, h.inicial, h.cells,
      h.marks, h.types⟩
  · exact h
  · exact h

/-- The buffers do not matter to a drag. -/
theorem withBuffers (h : Dragging d base vm p x y) (q q' : Queue) (line : List UInt8) :
    Dragging d base { vm with transmitQueue := q, receiveQueue := q', line := line } p x y :=
  ⟨h.created, h.playing, h.endGame, h.turn, h.dragging, h.inicial, h.cells, h.marks, h.types⟩

end Dragging

/-- The piece `p` is being dragged with the button down. -/
structure Carrying (d : Display) (base : Vm) (s : Instance) (p : PieceRef) (x y : ℤ) : Prop where
  alive : s.crashed = false
  pressed : s.vm.cursor.pressed = true
  dragging : Dragging d base s.vm p x y

section Carrying

variable {d : Display} {base : Vm} {s : Instance} {p : PieceRef} {x y : ℤ}

/-- Every event while the button is down goes on with the drag. -/
theorem Carrying.event (h : Carrying d base s p x y) {arrivals : ℕ} {event : Event}
    (hevent : Holding s (.inl (.event arrivals event))) :
    ∃ vm', handleEvent d arrivals event s.vm = some vm' ∧ vm'.cursor.pressed = true ∧
      Dragging d base vm' p x y ∧ vm'.transmitQueue = s.vm.transmitQueue := by
  obtain ⟨halive, hpressed, hdrag⟩ := h
  cases event with
  | newFrame =>
    have hzero : (readFromQueue (playingFrame d s.vm).receiveQueue).1 = 0 := hevent
    have hbyte : ∃ vm₁, receiveByte d (playingFrame d (leaveGame (ensureBoard d s.vm))) = some vm₁ ∧
        vm₁.cursor.pressed = true ∧ vm₁.transmitQueue = s.vm.transmitQueue := by
      rw [ensureBoard_of_created hdrag.created, leaveGame_of_endGame hdrag.endGame]
      simp only [receiveByte, hzero, parseByte_zero]
      exact ⟨_, rfl, hpressed, rfl⟩
    obtain ⟨vm₁, hvm₁, hpressed', hqueue⟩ := hbyte
    have hev : handleEvent d arrivals .newFrame s.vm = some (presentFrame d vm₁) := by
      rw [handleEvent_frame hdrag.playing, hvm₁, Option.map_some]
    exact ⟨_, hev, hpressed', hdrag.frame hevent hev, hqueue⟩
  | keyboard scanCode =>
    have hev : handleEvent d arrivals (.keyboard scanCode) s.vm = some _ :=
      handleEvent_keyboard hdrag.playing scanCode
    refine ⟨_, hev, ?_, hdrag.keyboard hev, ?_⟩
    all_goals
      rw [ensureBoard_of_created hdrag.created, leaveGame_of_endGame hdrag.endGame]
      unfold playingKeyboard
      split_ifs <;> first | exact hpressed | rfl
  | mouse packet =>
    have hdown : packet.lb = true := hevent
    have hev : handleEvent d arrivals (.mouse packet) s.vm = some _ :=
      handleEvent_follow hdrag.playing hdrag.created hdrag.endGame hdrag.dragging hdown
    refine ⟨_, hev, ?_, hdrag.mouse hdown hev, rfl⟩
    exact (pressed_updateCursor _ _ _).trans hdown

/-- Every input while the button is down goes on with the drag. -/
theorem Carrying.stepInput (h : Carrying d base s p x y) {i : Action ⊕ UInt8} (hi : Holding s i) :
    Carrying d base (s.stepInput d i) p x y := by
  obtain ⟨halive, hpressed, hdrag⟩ := id h
  cases i with
  | inr b => exact ⟨halive, hpressed, hdrag.withBuffers _ _ _⟩
  | inl a =>
    simp only [Instance.stepInput]
    rw [Instance.step_of_alive halive]
    cases a with
    | event arrivals event =>
      obtain ⟨vm', hev, hpressed', hdrag', -⟩ := h.event hi
      simp only [hev]
      exact ⟨halive, hpressed', hdrag'⟩
    | spWrite lsr => exact ⟨halive, hpressed, hdrag.withBuffers _ _ _⟩
    | spRead arrived =>
      dsimp only
      split
      · exact h
      · exact ⟨halive, hpressed, hdrag.withBuffers _ _ _⟩

namespace Gesture.Lifts

variable {g : Gesture}

/-- A game that is over presses nothing. -/
theorem endGame (hs : Steady s.vm) (h : g.Lifts d s p x y) : s.vm.endGame = false := by
  obtain ⟨board, heap, redraw, hframe⟩ := ensureBoard_frame d s.vm
  have hturn : s.vm.myTurn = true := by
    have := h.presses.turn
    rw [hframe] at this
    exact this
  -- a game that is over has no turn left
  by_contra hne
  have := hs.ended h.playing (by simpa using hne)
  exact absurd (hturn.symm.trans this) (by decide)

/-- The instance behind the press. -/
theorem pressed_eq (hend : s.vm.endGame = false) (h : g.Lifts d s p x y) :
    g.pressed d s = { s with vm := LCChess.press d { ensureBoard d s.vm with
      cursor := updateCursor d.toGeometry g.press s.vm.cursor } p x y } := by
  obtain ⟨board, heap, redraw, hframe⟩ := ensureBoard_frame d s.vm
  set w : Vm := { ensureBoard d s.vm with
    cursor := updateCursor d.toGeometry g.press s.vm.cursor } with hw
  have hwend : w.endGame = false := by
    rw [hw, hframe]
    exact hend
  -- the creation of the board drags nothing
  have hidle : w.draggingPiece = none := by
    rw [hw, hframe]
    exact h.idle
  have hevent : handleEvent d 0 (.mouse g.press) s.vm = some (LCChess.press d w p x y) := by
    rw [handleEvent_mouse h.playing, leaveGame_of_endGame (by exact hwend),
      playingMouse_press hidle (by simp +contextual [hw]) h.presses]
  exact Instance.step_event h.alive hevent

/-- The press begins the drag, and sends nothing. -/
theorem pressed (hend : s.vm.endGame = false) (h : g.Lifts d s p x y) :
    Carrying d (ensureBoard d s.vm) (g.pressed d s) p x y ∧
      (g.pressed d s).vm.transmitQueue = s.vm.transmitQueue := by
  obtain ⟨board, heap, redraw, hframe⟩ := ensureBoard_frame d s.vm
  have hpresses := h.presses
  have hstep := h.pressed_eq hend
  set w : Vm := { ensureBoard d s.vm with
    cursor := updateCursor d.toGeometry g.press s.vm.cursor } with hw
  have hwend : w.endGame = false := by
    rw [hw, hframe]
    exact hend
  have hplay : w.gameState = .playing := by
    rw [hw, hframe]
    exact h.playing
  have hqueue : w.transmitQueue = s.vm.transmitQueue := by
    rw [hw, hframe]
  have hcreated : w.boardCreated = true := boardCreated_ensureBoard _ s.vm
  have hdrag := Dragging.of_press hcreated hplay hwend hpresses
  rw [hstep]
  exact ⟨⟨h.alive, hpresses.pressed, hdrag.created, hdrag.playing, hdrag.endGame, hdrag.turn,
    hdrag.dragging, hdrag.inicial, hdrag.cells, hdrag.marks, hdrag.types⟩, hqueue⟩

/-- **A drag goes on until the release.** -/
theorem carrying (hend : s.vm.endGame = false) (h : g.Lifts d s p x y) :
    Carrying d (ensureBoard d s.vm) (g.lifted d s) p x y :=
  run_invariant_along (fun s' : Instance => Carrying d (ensureBoard d s.vm) s' p x y) Holding
    (fun _ _ hs' hi => hs'.stepInput hi) (h.pressed hend).1 h.held

/-- Events send nothing during a drag. -/
theorem transmitQueue_lifted (hend : s.vm.endGame = false) (h : g.Lifts d s p x y)
    (hevents : ∀ i ∈ g.held, ∃ arrivals event, i = .inl (.event arrivals event)) :
    (g.lifted d s).vm.transmitQueue = s.vm.transmitQueue := by
  obtain ⟨hcarry, hqueue⟩ := h.pressed hend
  refine (run_invariant_along
    (fun s' : Instance => Carrying d (ensureBoard d s.vm) s' p x y ∧
      s'.vm.transmitQueue = s.vm.transmitQueue)
    (fun s' i => Holding s' i ∧ ∃ arrivals event, i = .inl (.event arrivals event))
    ?_ ⟨hcarry, hqueue⟩ (h.held.and_mem hevents)).2
  rintro s' i ⟨hcarry', hqueue'⟩ ⟨hi, arrivals, event, rfl⟩
  refine ⟨hcarry'.stepInput hi, ?_⟩
  obtain ⟨vm', hev, -, -, hsame⟩ := hcarry'.event hi
  rw [Instance.stepInput, Instance.step_event hcarry'.alive hev]
  exact hsame.trans hqueue'

end Gesture.Lifts

end Carrying

/-! ## The release -/

/-- The release made the move of the piece `p` from square `(x, y)` to square `(x', y')`: onto an
empty square or an enemy, and its four bytes were added to a queue with room for them. -/
structure Accepted (vm vm' : Vm) (p : PieceRef) (x y x' y' : ℤ) : Prop where
  onBoard : OnBoard x' y'
  enemy : ∀ q, vm.board.board (y' * 8 + x') = some q →
    (vm.heap q).type.isWhite ≠ (vm.heap p).type.isWhite
  cells : vm'.board.board =
    Function.update (Function.update vm.board.board (y * 8 + x) none) (y' * 8 + x') (some p)
  sent : vm.transmitQueue.WellFormed →
    vm.transmitQueue.toList.length + 4 ≤ vm.transmitQueue.capacity →
    vm'.transmitQueue.toList = vm.transmitQueue.toList ++
      [beginMessage, positionByte x.toNat y.toNat, positionByte x'.toNat y'.toNat, yourTurn]
  turn : vm'.myTurn = false
  endGame : vm'.endGame = true ↔
    ∃ q, vm.board.board (y' * 8 + x') = some q ∧ (vm.heap q).type.isKing = true

/-- The release put the piece `p` back on square `(x, y)`, and changed nothing else. -/
structure Rejected (g : Geometry) (vm vm' : Vm) (p : PieceRef) (x y : ℤ) : Prop where
  cells : vm'.board.board = vm.board.board
  sent : vm'.transmitQueue = vm.transmitQueue
  turn : vm'.myTurn = vm.myTurn
  endGame : vm'.endGame = vm.endGame
  position : (vm'.heap p).absoluteX = UInt16.ofInt (getScreenX g x) ∧
    (vm'.heap p).absoluteY = UInt16.ofInt (getScreenY g y)

/-- The test `sameTeam` compares colors. -/
theorem sameTeam_eq_false_iff (s t : PieceType) :
    sameTeam s t = false ↔ t.isWhite ≠ s.isWhite := by
  cases s <;> cases t <;> decide

theorem kingIn_iff (vm : Vm) (i : ℤ) :
    kingIn vm i = true ↔ ∃ q, vm.board.board i = some q ∧ (vm.heap q).type.isKing = true := by
  unfold kingIn
  split
  · rename_i q hq
    simp [hq]
  · rename_i hq
    simp [hq]

namespace Dragging

variable {d : Display} {base vm : Vm} {p : PieceRef} {x y x' y' : ℤ}

/-- The square of the press, as it was remembered. -/
theorem inicial_eq (h : Dragging d base vm p x y) (hon : OnBoard x y) :
    (vm.inicialPieceCol : ℤ) = x ∧ (vm.inicialPieceRow : ℤ) = y := by
  obtain ⟨hy, hy', hx, hx'⟩ := hon
  rw [h.inicial.1, h.inicial.2]
  exact ⟨u32_of_nonneg hx (by omega), u32_of_nonneg hy (by omega)⟩

/-- The cell of the press. -/
theorem inicialCell_eq (h : Dragging d base vm p x y) (hon : OnBoard x y) :
    inicialCell vm = y * 8 + x := by
  obtain ⟨hcol, hrow⟩ := h.inicial_eq hon
  obtain ⟨hy, hy', hx, hx'⟩ := hon
  unfold inicialCell
  omega

/-- The bytes of a move. -/
theorem sendMove_toList (h : Dragging d base vm p x y) (hon : OnBoard x y)
    (hwf : vm.transmitQueue.WellFormed)
    (hroom : vm.transmitQueue.toList.length + 4 ≤ vm.transmitQueue.capacity) :
    (sendMove vm x' y').toList = vm.transmitQueue.toList ++
      [beginMessage, positionByte x.toNat y.toNat, positionByte x'.toNat y'.toNat, yourTurn] := by
  obtain ⟨hcol, hrow⟩ := h.inicial_eq hon
  have hx : x.toNat = vm.inicialPieceCol := by omega
  have hy : y.toNat = vm.inicialPieceRow := by omega
  rw [hx, hy]
  exact toList_foldl_addToTransmitQueue hwf hroom

/-- A release of a dragged piece that makes a move. -/
theorem accepted (h : Dragging d base vm p x y) (hon : OnBoard x y) (hdrops : Drops d vm p x' y')
    (hqueue : vm.transmitQueue = base.transmitQueue) :
    Accepted base (release d vm p) p x y x' y' := by
  have hmove := release_move hdrops
  generalize release d vm p = r at hmove
  subst hmove
  refine ⟨hdrops.onBoard, fun q hq => ?_, ?_, fun hwf hroom => ?_, rfl, ?_⟩
  -- neither the cells nor the types have changed since the press
  · have henemy := hdrops.enemy q (h.cells.symm ▸ hq)
    rwa [sameTeam_eq_false_iff, h.types, h.types] at henemy
  · dsimp only
    rw [moveCells, h.inicialCell_eq hon, h.cells]
  · dsimp only
    rw [← hqueue] at hwf hroom ⊢
    exact h.sendMove_toList hon hwf hroom
  · dsimp only
    rw [h.endGame, Bool.false_or, kingIn_iff]
    simp only [h.cells, h.types]

/-- A release of a dragged piece that puts it back. -/
theorem rejected (h : Dragging d base vm p x y) (hon : OnBoard x y)
    (hdrops : ∀ x' y', ¬ Drops d vm p x' y') (hqueue : vm.transmitQueue = base.transmitQueue)
    (hturn : base.myTurn = true) (hend : base.endGame = false) :
    Rejected d.toGeometry base (release d vm p) p x y := by
  obtain ⟨hcol, hrow⟩ := h.inicial_eq hon
  have hback := release_putBack hdrops
  generalize release d vm p = r at hback
  subst hback
  refine ⟨h.cells, hqueue, h.turn.trans hturn.symm, h.endGame.trans hend.symm, ?_⟩
  simp only [Function.update_self, putBackPiece, setPiecePosition, hcol, hrow, and_self]

end Dragging

/-- The last packet of a drag is a release of the dragged piece. -/
theorem Gesture.Lifts.dropped_eq {d : Display} {g : Gesture} {s : Instance} {p : PieceRef}
    {x y : ℤ} (h : g.Lifts d s p x y) (hend : s.vm.endGame = false) :
    g.dropped d s = { g.lifted d s with
      vm := LCChess.release d (follow { (g.lifted d s).vm with cursor := g.cursor d s } p) p } := by
  obtain ⟨halive, hpressed, hdrag⟩ := h.carrying hend
  set w : Vm := { (g.lifted d s).vm with cursor := g.cursor d s } with hw
  -- the button was down before this packet, and is up now
  have hreleased : w.cursor.released = true := by
    simp only [hw, Gesture.cursor, released_updateCursor, h.up, Bool.not_false, Bool.true_and]
    exact hpressed
  have hevent : handleEvent d 0 (.mouse g.release) (g.lifted d s).vm =
      some (LCChess.release d (LCChess.follow w p) p) := by
    rw [handleEvent_mouse hdrag.playing, ensureBoard_of_created hdrag.created,
      leaveGame_of_endGame (by exact hdrag.endGame)]
    exact congrArg some (playingMouse_release (show w.draggingPiece = some p from hdrag.dragging)
      hreleased)
  exact Instance.step_event halive hevent

/-- The state of the drag at the release. -/
theorem Gesture.Lifts.dropped {d : Display} {g : Gesture} {s : Instance} {p : PieceRef} {x y : ℤ}
    (h : g.Lifts d s p x y) (hend : s.vm.endGame = false) :
    ∃ vm, (g.dropped d s).vm = LCChess.release d vm p ∧ (g.dropped d s).crashed = false ∧
      Dragging d (ensureBoard d s.vm) vm p x y ∧
      vm.cursor.InSquare d.toGeometry (g.col d s) (g.row d s) ∧
      vm.board = (g.lifted d s).vm.board ∧
      vm.transmitQueue = (g.lifted d s).vm.transmitQueue := by
  obtain ⟨halive, -, hdrag⟩ := h.carrying hend
  rw [h.dropped_eq hend]
  exact ⟨_, rfl, halive, (hdrag.withCursor _).follow, ⟨rfl, rfl⟩, rfl, rfl⟩

/-- The state of a drag of two packets at its release, with what the drag leaves alone. -/
theorem Gesture.Lifts.released {d : Display} {g : Gesture} {s : Instance} {p : PieceRef} {x y : ℤ}
    (h : g.Lifts d s p x y) (hheld : g.held = []) (hend : s.vm.endGame = false) :
    ∃ v, g.dropped d s = ⟨LCChess.release d v p, false⟩ ∧
      Dragging d (ensureBoard d s.vm) v p x y ∧ v.cursor = g.cursor d s ∧
      v.player = s.vm.player ∧ v.animation = s.vm.animation ∧
      v.receiveQueue = s.vm.receiveQueue ∧ v.line = s.vm.line ∧
      (v.heap p).pawnMoved = ((ensureBoard d s.vm).heap p).pawnMoved := by
  obtain ⟨halive, -, hdrag⟩ := h.carrying hend
  have hlifted : (g.lifted d s).vm = LCChess.press d { ensureBoard d s.vm with
      cursor := updateCursor d.toGeometry g.press s.vm.cursor } p x y := by
    rw [Gesture.lifted, hheld, Transition.run_nil, h.pressed_eq hend]
  have hdropped : g.dropped d s = ⟨LCChess.release d
      (LCChess.follow { (g.lifted d s).vm with cursor := g.cursor d s } p) p, false⟩ := by
    rw [h.dropped_eq hend]
    exact congrArg (Instance.mk _) halive
  obtain ⟨board, heap, redraw, hframe⟩ := ensureBoard_frame d s.vm
  refine ⟨_, hdropped, (hdrag.withCursor _).follow, rfl, ?_, ?_, ?_, ?_, ?_⟩
  all_goals rw [hlifted]
  · rw [hframe]
    rfl
  · rw [hframe]
    rfl
  · rw [hframe]
    rfl
  · rw [hframe]
    rfl
  · simp only [LCChess.follow, LCChess.press, Vm.setPiece, Vm.showScreen, Function.update_self,
      setPiecePosition, changePiecePriority]

/-- **A drag is all-or-nothing.** At any moment of a game, after a drag of a piece by events
alone, either its move was made and announced, or everything but its screen position is as before
the press; the piece has the color of the player, and it is not dragged any more on a repainted
board. -/
theorem drag_all_or_nothing {d : Display} {s₀ : Instance} (hplay : s₀.vm.gameState = .playing)
    (hgoing : s₀.vm.endGame = false) (before : List (Action ⊕ UInt8)) {g : Gesture} {p : PieceRef}
    {x y : ℤ} (h : g.Lifts d (run (Instance.stepInput d) s₀ before) p x y)
    (hevents : ∀ i ∈ g.held, ∃ arrivals event, i = .inl (.event arrivals event)) :
    let s := run (Instance.stepInput d) s₀ before
    let vm := ensureBoard d s.vm
    let vm' := (g.dropped d s).vm
    let accepted := Accepted vm vm' p x y (g.col d s) (g.row d s)
    let rejected := Rejected d.toGeometry vm vm' p x y
    (g.dropped d s).crashed = false ∧ ((accepted ∧ ¬ rejected) ∨ (rejected ∧ ¬ accepted)) ∧
      owns vm.player (vm.heap p).type = true ∧ vm'.draggingPiece = none ∧
      vm'.board.memBoard = drawBoard d.toGeometry (g.lifted d s).vm.board.memBoard := by
  intro s vm vm' accepted rejected
  have hend : s.vm.endGame = false :=
    h.endGame (steady_run (.of_endGame (.inl hplay) hgoing) before)
  obtain ⟨board, heap, redraw, hframe⟩ := ensureBoard_frame d s.vm
  obtain ⟨w, hreleased, halive, hdrag, hsquare, hboard, hqueue⟩ := h.dropped hend
  have hvm' : vm' = release d w p := hreleased
  have hturn : vm.myTurn = true := h.presses.turn
  have hend' : vm.endGame = false := by
    simp only [vm, hframe]
    exact hend
  have hsent : w.transmitQueue = vm.transmitQueue := by
    rw [hqueue, h.transmitQueue_lifted hend hevents]
    simp only [vm, hframe]
  -- a move gives the turn away, and a piece that is put back keeps it
  have hexclusive : accepted → rejected → False := fun ha hr =>
    absurd (ha.turn.symm.trans (hr.turn.trans hturn)) (by decide)
  obtain ⟨hnone, -, hmem⟩ := release_repaints d w p
  refine ⟨halive, ?_, h.presses.owns, ?_, ?_⟩
  · by_cases hdrops : ∃ x' y', Drops d w p x' y'
    · obtain ⟨x', y', hdrops⟩ := hdrops
      -- the square of the release is the one under the cursor
      obtain ⟨rfl, rfl⟩ := hdrops.square.unique hsquare
      have ha : accepted := by
        simp only [accepted, hvm']
        exact hdrag.accepted h.presses.onBoard hdrops hsent
      exact .inl ⟨ha, hexclusive ha⟩
    · have hr : rejected := by
        simp only [rejected, vm', hvm']
        exact hdrag.rejected h.presses.onBoard (fun x' y' hxy => hdrops ⟨x', y', hxy⟩) hsent hturn
          hend'
      exact .inr ⟨hr, fun ha => hexclusive ha hr⟩
  · rw [hvm', hnone]
  · rw [hvm', hmem, hboard]

/-- The knight is dragged from square `(1, 7)` to square `(2, 5)`. -/
def knightGesture : Gesture where
  press := ⟨true, false, false, false, false, 0, 0⟩
  held := []
  release := ⟨false, false, false, false, false, 60, 118⟩

/-- The drag of the knight is one of its piece. -/
theorem knightGesture_lifts (images : Images) :
    knightGesture.Lifts (Display.mode115 images) knightGame 17 1 7 := by
  have hfresh : Fresh (Display.mode115 images) knightGame.vm :=
    { newGame_initialGame (Display.mode115 images) .white with board := .inl rfl }
  obtain ⟨hcells, htypes⟩ := hfresh.position
  obtain ⟨board, heap, redraw, hframe⟩ := ensureBoard_frame (Display.mode115 images) knightGame.vm
  have hsquare : (updateCursor mode115 knightGesture.press knightGame.vm.cursor).InSquare
      mode115 1 7 := ⟨by decide, by decide⟩
  refine ⟨rfl, rfl, rfl, ⟨rfl, ?_, hsquare, by decide, ?_, ?_⟩, trivial, rfl⟩
  · rw [hframe]
    rfl
  · exact (hcells 57 (by decide)).trans (by decide)
  · rw [hframe] at htypes ⊢
    rw [show (heap 17).type = .wKnight from htypes 17 (by decide)]
    exact show owns .white .wKnight = true by decide

/-- The drag of the knight ends on its first move. -/
theorem drag_all_or_nothing_knight :
    (knightGesture.dropped (Display.mode115 .blank) knightGame).crashed = false ∧
      (knightGesture.dropped (Display.mode115 .blank) knightGame).vm.draggingPiece = none := by
  have hlifts : knightGesture.Lifts (Display.mode115 .blank)
      (run (Instance.stepInput (Display.mode115 .blank)) knightGame []) 17 1 7 :=
    knightGesture_lifts .blank
  obtain ⟨halive, -, -, hnone, -⟩ := drag_all_or_nothing rfl rfl [] hlifts
    (fun i hi => absurd hi List.not_mem_nil)
  exact ⟨halive, hnone⟩

end LCChess
