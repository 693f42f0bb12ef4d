import LCChess.Protocol.Match

/-!
# The screen follows the board

The cell of a piece, its position on the screen, its target and its motion are kept by different
functions. In a match they fit together: a piece in motion is on its way to the square of its
cell, and any other piece is there, unless it is being dragged.

## Main definitions

* `Piece.Fits g piece dragged i`: the piece is shown in cell `i`, or moves to it
* `Vm.Shown d vm`: every piece on the board fits its cell

## Main results

* `shown_event`: every event of a game keeps the screen
* `screen_follows_board`: the screen follows the board in every run of a match
-/

namespace LCChess

open Transition (run run_append run_outputs_invariant)

/-! ## Pieces that fit -/

/-- The point is the upper left corner of cell `i`. -/
def AtCell (g : Geometry) (i : ℤ) (x y : UInt16) : Prop :=
  x = UInt16.ofInt (getScreenX g (i % 8)) ∧ y = UInt16.ofInt (getScreenY g (i / 8))

/-- A piece in motion is on its way to cell `i`; at rest it is shown there, unless it is
`dragged`. -/
structure Piece.Fits (g : Geometry) (piece : Piece) (dragged : Prop) (i : ℤ) : Prop where
  moving : piece.isMoving = true → AtCell g i piece.targetX piece.targetY
  resting : piece.isMoving = false → ¬ dragged → AtCell g i piece.absoluteX piece.absoluteY

namespace Piece.Fits

variable {g : Geometry} {piece : Piece} {dragged dragged' : Prop} {i : ℤ}

theorem mono (h : piece.Fits g dragged i) (hd : dragged → dragged') : piece.Fits g dragged' i :=
  ⟨h.moving, fun hrest hnot => h.resting hrest fun hdragged => hnot (hd hdragged)⟩

/-- A frame leaves the piece on its cell, or on its way there. -/
theorem updated (h : piece.Fits g dragged i) (animation : Bool) :
    (piece.updated animation).Fits g dragged i := by
  rcases piece.updated_cases animation with ⟨-, heq, -⟩ | ⟨hmoving, -, heq, -⟩ |
    ⟨hmoving, -, -, heq, -⟩
  · rw [heq]
    exact ⟨h.moving, h.resting⟩
  -- at the end of its motion a piece stands on its target
  · rw [heq]
    exact ⟨fun hm => absurd hm (by simp), fun _ _ => h.moving hmoving⟩
  · rw [heq]
    exact ⟨h.moving, fun hrest => absurd (hmoving.symm.trans hrest) (by decide)⟩

/-- A piece that is sent to cell `i` fits. -/
theorem movePiece (piece : Piece) {x y : ℤ} (hx : x = i % 8) (hy : y = i / 8) :
    (movePiece piece (getScreenX g x) (getScreenY g y)).Fits g dragged i := by
  subst hx hy
  exact ⟨fun _ => ⟨rfl, rfl⟩, fun hrest => absurd hrest (by simp [LCChess.movePiece])⟩

/-- A piece that is put back on its square keeps its motion. -/
theorem setPiecePosition (h : piece.Fits g dragged i) {x y : ℤ}
    (hat : AtCell g i (UInt16.ofInt x) (UInt16.ofInt y)) :
    (setPiecePosition (changePiecePriority piece false) x y).Fits g dragged' i :=
  ⟨h.moving, fun _ _ => hat⟩

end Piece.Fits

/-- Every piece in a cell fits it. -/
def Shown (g : Geometry) (cells : ℤ → Option PieceRef) (heap : Heap)
    (dragging : Option PieceRef) : Prop :=
  ∀ i p, IsCell i → cells i = some p → (heap p).Fits g (dragging = some p) i

namespace Shown

variable {g : Geometry} {cells cells' : ℤ → Option PieceRef} {heap : Heap}
  {dragging dragging' : Option PieceRef} {p : PieceRef} {piece : Piece}

/-- One piece changes, its cell and its drag with it. -/
theorem update (h : Shown g cells heap dragging)
    (hother : ∀ i q, q ≠ p → cells' i = some q → cells i = some q)
    (hdragging : ∀ q, q ≠ p → dragging = some q → dragging' = some q)
    (hpiece : ∀ i, IsCell i → cells' i = some p → piece.Fits g (dragging' = some p) i) :
    Shown g cells' (Function.update heap p piece) dragging' := by
  intro i q hi hq
  rcases eq_or_ne q p with rfl | hne
  · rw [Function.update_self]
    exact hpiece i hi hq
  · rw [Function.update_of_ne hne]
    exact (h i q hi (hother i q hne hq)).mono (hdragging q hne)

/-- One piece moves from its only cell `o` to cell `n`. -/
theorem move (h : Shown g cells heap dragging) {o n : ℤ}
    (hunique : ∀ i, IsCell i → cells i = some p → i = o)
    (hcases : ∀ {i q}, cells' i = some q → (i = n ∧ q = p) ∨ (i ≠ o ∧ cells i = some q))
    (hdragging : ∀ q, q ≠ p → dragging = some q → dragging' = some q)
    (hpiece : piece.Fits g (dragging' = some p) n) :
    Shown g cells' (Function.update heap p piece) dragging' := by
  refine h.update (fun i q hne hq => ?_) hdragging fun i hi hp => ?_
  · rcases hcases hq with ⟨-, rfl⟩ | ⟨-, hq'⟩
    · exact absurd rfl hne
    · exact hq'
  · rcases hcases hp with ⟨rfl, -⟩ | ⟨hne, hp'⟩
    · exact hpiece
    · exact absurd (hunique i hi hp') hne

/-- A frame updates the pieces on the board. -/
theorem updateCell (h : Shown g cells heap dragging) (animation redraw : Bool) (p : PieceRef) :
    Shown g cells (updateCell animation p (heap, redraw)).1 dragging := by
  intro i q hi hq
  rcases eq_or_ne q p with rfl | hne
  · rw [(updateCell_self animation q (heap, redraw)).1]
    exact (h i q hi hq).updated animation
  · rw [updateCell_of_ne animation hne]
    exact h i q hi hq

theorem updateBoard (h : Shown g cells heap dragging) (animation redraw : Bool) :
    Shown g cells (updateBoard cells animation (heap, redraw)).1 dragging :=
  eachPiece_keeps (fun s : Heap × Bool => Shown g cells s.1 dragging)
    (fun _ p (s : Heap × Bool) _ _ _ hs => updateCell hs animation s.2 p) h

end Shown

/-! ## The events of a game -/

/-- Every piece on the board of an instance fits its cell. -/
def Vm.Shown (d : Display) (vm : Vm) : Prop :=
  LCChess.Shown d.toGeometry vm.board.board vm.heap vm.draggingPiece

section Events

variable {d : Display} {vm vm' : Vm} {p : PieceRef}

/-- No piece stands in two cells, and the dragged piece in none but the one it was pressed on. -/
structure Vm.Unique (vm : Vm) : Prop where
  cell_eq : ∀ {i j p}, IsCell i → IsCell j → vm.board.board i = some p →
    vm.board.board j = some p → i = j
  dragged : ∀ {i p}, vm.draggingPiece = some p → IsCell i → vm.board.board i = some p →
    i = inicialCell vm

theorem Tidy.unique_vm (h : Tidy vm.toSeat) : vm.Unique where
  cell_eq hi hj hip hjp :=
    h.unique _ _ _ ((cellsOf_of_isCell hi).trans hip) ((cellsOf_of_isCell hj).trans hjp)
  dragged {i p} hp hi hip := by
    obtain ⟨-, hpiece⟩ := h.drag p hp
    exact h.unique _ _ _ ((cellsOf_of_isCell hi).trans hip) hpiece

/-- The column and the row of the cell a piece was pressed on. -/
theorem Vm.Sound.inicial_eq (h : vm.Sound) (hp : vm.draggingPiece = some p) :
    (vm.inicialPieceCol : ℤ) = inicialCell vm % 8 ∧
      (vm.inicialPieceRow : ℤ) = inicialCell vm / 8 := by
  obtain ⟨-, hcol, hrow⟩ := h.drag p hp
  unfold inicialCell
  omega

/-- A press lifts a piece, in motion or not. -/
theorem Vm.Shown.press (h : vm.Shown d) (hidle : vm.draggingPiece = none) {x y : ℤ} :
    (press d vm p x y).Shown d := by
  refine Shown.update h (fun i q _ hq => hq) (fun q _ hq => ?_) fun i hi hp => ?_
  · exact absurd (hidle.symm.trans hq) (by simp)
  · exact ⟨(h i p hi hp).moving, fun _ hnot => absurd rfl hnot⟩

/-- The dragged piece follows the cursor. -/
theorem Vm.Shown.follow (h : vm.Shown d) (hdrag : vm.draggingPiece = some p) :
    (follow vm p).Shown d := by
  apply Shown.update h (fun i q _ hq => hq) (fun q _ hq => hq)
  intro i hi hp
  exact ⟨(h i p hi hp).moving, fun _ hnot => absurd hdrag hnot⟩

/-- A release puts the piece back on its square, or sends it to another one. -/
theorem Vm.Shown.release (h : vm.Shown d) (hs : vm.Sound) (hu : vm.Unique)
    (hdrag : vm.draggingPiece = some p) : (release d vm p).Shown d := by
  obtain ⟨hcol, hrow⟩ := hs.inicial_eq hdrag
  -- no other piece was dragged
  have hother : ∀ q, q ≠ p → vm.draggingPiece = some q → (none : Option PieceRef) = some q := by
    intro q hne hq
    exact absurd (Option.some.inj (hq.symm.trans hdrag)) hne
  by_cases hdrops : ∃ x y, Drops d vm p x y
  · obtain ⟨x, y, hdrops⟩ := hdrops
    obtain ⟨hy, hy', hx, hx'⟩ := hdrops.onBoard
    simp only [Vm.Shown, release_move hdrops]
    apply Shown.move h (fun i hi hip => hu.dragged hdrag hi hip) moveFrom_cases hother
    exact .movePiece _ (by omega) (by omega)
  · simp only [Vm.Shown, release_putBack fun x y hxy => hdrops ⟨x, y, hxy⟩]
    apply Shown.update h (fun i q _ hq => hq) hother
    intro i hi hip
    -- the piece is still in the cell that it was pressed on
    obtain rfl : i = inicialCell vm := hu.dragged hdrag hi hip
    refine (h _ p hi hip).setPiecePosition ?_
    rw [hcol, hrow]
    exact ⟨rfl, rfl⟩

/-- A `MOUSE` event. -/
theorem Vm.Shown.playingMouse (h : vm.Shown d) (hs : vm.Sound) (hu : vm.Unique)
    (hbuttons : vm.cursor.pressed = true → vm.cursor.released = false) :
    (playingMouse d vm).Shown d := by
  rcases playingMouse_cases d hbuttons with ⟨-, heq⟩ | ⟨hidle, p, x, y, -, heq⟩ |
    ⟨p, hdrag, -, heq⟩ | ⟨p, hdrag, -, heq⟩
  · rw [heq]
    exact h
  · rw [heq]
    exact h.press hidle
  · rw [heq]
    exact h.follow hdrag
  · rw [heq]
    exact (h.follow hdrag).release (hs.setPiece (type_setPiecePosition _ _ _))
      ⟨hu.cell_eq, hu.dragged⟩ hdrag

/-- A received byte, which may move a piece to the square of its new cell. -/
theorem Vm.Shown.parseByte (h : vm.Shown d) (hu : vm.Unique)
    (horigin : IsCell (moveCell vm.move.oldRow vm.move.oldCol)) {b : UInt8}
    (hbyte : parseByte d b vm = some vm') : vm'.Shown d := by
  obtain rfl | rfl | rfl | ⟨move, byteOfMove, rfl⟩ | ⟨p, gameState, won, -, hp, -, rfl⟩ :=
    parseByte_cases hbyte
  · exact h
  · exact h
  · exact h
  · exact h
  · have hcol := positionCol_le b
    refine Shown.move h (fun i hi hip => hu.cell_eq hi horigin hip hp) moveTo_cases
      (fun q _ hq => hq) (.movePiece _ ?_ ?_)
    · simp only [ChessMove.arrive, moveCell]
      omega
    · simp only [ChessMove.arrive, moveCell]
      omega

/-- A frame moves the pieces on, then a received byte may move one. -/
theorem Vm.Shown.frame (h : vm.Shown d) (hs : vm.Sound) (hu : vm.Unique)
    (hbyte : receiveByte d (playingFrame d vm) = some vm') : vm'.Shown d := by
  have hframe : (playingFrame d vm).Shown d := Shown.updateBoard h vm.animation vm.redrawPieces
  -- reading the queue shows nothing
  have hread : Vm.Shown d { playingFrame d vm with
      receiveQueue := (readFromQueue (playingFrame d vm).receiveQueue).2 } := hframe
  exact hread.parseByte ⟨hu.cell_eq, hu.dragged⟩ hs.origin hbyte

/-- The end of the game leaves the board alone. -/
theorem Vm.Unique.leaveGame (h : vm.Unique) : (leaveGame vm).Unique := by
  obtain ⟨gameState, won, hleave⟩ := leaveGame_frame vm
  rw [hleave]
  exact ⟨h.cell_eq, h.dragged⟩

theorem Vm.Shown.leaveGame (h : vm.Shown d) : (leaveGame vm).Shown d := by
  obtain ⟨gameState, won, hleave⟩ := leaveGame_frame vm
  rw [hleave]
  exact h

/-- **Every event of a game keeps the screen.** -/
theorem shown_event (hready : Ready d vm) (hunique : (ensureBoard d vm).Unique)
    (hplay : vm.gameState = .playing) (h : (ensureBoard d vm).Shown d) {arrivals : ℕ}
    {event : Event} (hev : handleEvent d arrivals event vm = some vm') : vm'.Shown d := by
  have hsound : (ensureBoard d vm).Sound := hready
  cases event with
  | newFrame =>
    rw [handleEvent_frame hplay] at hev
    obtain ⟨w, hbyte, rfl⟩ := Option.map_eq_some_iff.mp hev
    have hshown : w.Shown d :=
      h.leaveGame.frame (sound_leaveGame hsound).1 hunique.leaveGame hbyte
    exact hshown
  | keyboard scanCode =>
    obtain rfl := Option.some.inj ((handleEvent_keyboard hplay scanCode).symm.trans hev)
    unfold playingKeyboard
    split_ifs
    · exact h.leaveGame
    · exact h.leaveGame
    · exact h.leaveGame
  | mouse packet =>
    obtain rfl := Option.some.inj ((handleEvent_mouse hplay packet).symm.trans hev)
    set w : Vm := { ensureBoard d vm with
      cursor := updateCursor d.toGeometry packet vm.cursor } with hw
    have hwsound : w.Sound :=
      ⟨hsound.1, hsound.2, hsound.3, hsound.4, hsound.5, hsound.6, hsound.7⟩
    have hwshown : w.Shown d := h
    have hwunique : w.Unique := ⟨hunique.cell_eq, hunique.dragged⟩
    apply hwshown.leaveGame.playingMouse (sound_leaveGame hwsound).1 hwunique.leaveGame
    rw [cursor_leaveGame]
    simp +contextual [hw]

/-- What the screen shows of an instance depends on its game. -/
theorem Vm.Shown.congr (h : (ensureBoard d vm).Shown d) (hgame : SameGame vm vm') :
    (ensureBoard d vm').Shown d := by
  obtain ⟨hboard, hheap⟩ := hgame.ensureBoard (d := d)
  have hdragging : (ensureBoard d vm').draggingPiece = (ensureBoard d vm).draggingPiece := by
    obtain ⟨board, heap, redraw, hframe⟩ := ensureBoard_frame d vm
    obtain ⟨board', heap', redraw', hframe'⟩ := ensureBoard_frame d vm'
    rw [hframe, hframe']
    exact hgame.dragging
  rw [Vm.Shown, hboard, hheap, hdragging]
  exact h

end Events

/-! ## A match -/

/-- An action of an end keeps the screen. -/
theorem shown_step {d : Display} {s : Instance} (hgame : InGame d s.vm)
    (htidy : Tidy (seat d s.vm)) (h : (ensureBoard d s.vm).Shown d) (a : Action) :
    (ensureBoard d (s.step d a).vm).Shown d := by
  cases hcrash : s.crashed with
  | true => simpa only [Instance.step, hcrash, if_true] using h
  | false =>
    rw [Instance.step_of_alive hcrash]
    cases a with
    | event arrivals event =>
      cases hev : handleEvent d arrivals event s.vm with
      | none => simpa only [hev] using h
      | some vm' =>
        simp only [hev]
        rcases hgame.state with hplay | hexit
        · have hcreated := (handleEvent_refines hgame.sound hplay hev).1.created
          rw [ensureBoard_of_created hcreated]
          exact shown_event hgame.sound (Tidy.unique_vm htidy) hplay h hev
        · rw [handleEvent_over hexit] at hev
          obtain rfl := Option.some.inj hev
          apply h.congr
          cases event <;> exact ⟨rfl, rfl, rfl, rfl, rfl, rfl, rfl, rfl, rfl, rfl⟩
    | spWrite lsr =>
      dsimp only
      exact h.congr ⟨rfl, rfl, rfl, rfl, rfl, rfl, rfl, rfl, rfl, rfl⟩
    | spRead arrived =>
      dsimp only
      split
      · exact h
      · exact h.congr ⟨rfl, rfl, rfl, rfl, rfl, rfl, rfl, rfl, rfl, rfl⟩

/-- The initial position is shown. -/
theorem Fresh.shown {d : Display} {vm : Vm} (h : Fresh d vm) : (ensureBoard d vm).Shown d := by
  obtain ⟨hcells, hpieces⟩ := h.pieces
  intro i p hi hp
  have hinit : initialCells i = some p := (hcells i hi).symm.trans hp
  obtain ⟨hcol, hrow⟩ := home_of_initialCells hi hinit
  obtain ⟨piece, hpiece⟩ := hpieces p (lt_of_initialCells hinit)
  rw [hpiece, hcol, hrow]
  exact ⟨fun hmoving => absurd hmoving Bool.false_ne_true, fun _ _ => ⟨rfl, rfl⟩⟩

/-- **The screen follows the board.** In every state that two instances reach from the start of a
match, on the board of either end: a piece in motion is on its way to the square of its cell, and
any other piece that is not dragged is shown there. -/
theorem screen_follows_board {d : Display} {w : Side} {s : System} (h : NewMatch d w s)
    (acts : List (Side × Action)) (e : Side) {x y : ℤ} {p : PieceRef} (hxy : OnBoard x y) :
    let vm := ensureBoard d (Transition.run (System.step d) s acts e).vm
    vm.board.board (getPosition x y) = some p →
      ((vm.heap p).isMoving = true →
        (vm.heap p).targetX = UInt16.ofInt (getScreenX d.toGeometry x) ∧
        (vm.heap p).targetY = UInt16.ofInt (getScreenY d.toGeometry y)) ∧
      ((vm.heap p).isMoving = false → vm.draggingPiece ≠ some p →
        (vm.heap p).absoluteX = UInt16.ofInt (getScreenX d.toGeometry x) ∧
        (vm.heap p).absoluteY = UInt16.ofInt (getScreenY d.toGeometry y)) := by
  intro vm hp
  have hstart : InMatch d w s [] ∧ ∀ e, (ensureBoard d (s e).vm).Shown d :=
    ⟨h.inMatch, fun e => (h.game e).shown⟩
  -- the match gives that the pieces stand in one cell each, which the screen needs
  have hrun : InMatch d w (Transition.run (System.step d) s acts) (moves d s acts) ∧
      ∀ e, (ensureBoard d (Transition.run (System.step d) s acts e).vm).Shown d := by
    refine run_outputs_invariant
      (fun s ms => InMatch d w s ms ∧ ∀ e, (ensureBoard d (s e).vm).Shown d) ?_ hstart acts
    rintro s a ms ⟨hmatch, hshown⟩
    refine ⟨hmatch.step a, fun e => ?_⟩
    unfold System.step
    split
    · exact shown_step (hmatch.inGame e) (hmatch.tidy e) (hshown e) a.2
    · exact (hshown e).congr ⟨rfl, rfl, rfl, rfl, rfl, rfl, rfl, rfl, rfl, rfl⟩
  obtain ⟨hy, hy', hx, hx'⟩ := id hxy
  have hcell : IsCell (getPosition x y) := by
    unfold getPosition IsCell
    omega
  have hcol : getPosition x y % 8 = x := by
    unfold getPosition
    omega
  have hrow : getPosition x y / 8 = y := by
    unfold getPosition
    omega
  obtain ⟨hmoving, hresting⟩ := hrun.2 e (getPosition x y) p hcell hp
  rw [AtCell, hcol, hrow] at hmoving hresting
  exact ⟨hmoving, hresting⟩

/-- Behind a raid, while white drags its knight, the pawn that black has moved last is shown on its
square of white's screen, or is on its way there. -/
theorem screen_follows_board_raid :
    let vm := ensureBoard (Display.mode115 .blank) (run (System.step (Display.mode115 .blank))
      clickMatch raidPress .left).vm
    vm.board.board (getPosition 3 4) = some 11 ∧ vm.draggingPiece = some 17 ∧
      (((vm.heap 11).isMoving = true ∧ (vm.heap 11).targetX = 242 ∧ (vm.heap 11).targetY = 300) ∨
        ((vm.heap 11).isMoving = false ∧ (vm.heap 11).absoluteX = 242 ∧
          (vm.heap 11).absoluteY = 300)) := by
  have hcarry := (stands_raidClicks.1.pressed raidCapture_ok).1
  have hpress : run (System.step (Display.mode115 .blank)) clickMatch raidPress =
      System.step (Display.mode115 .blank) (run (System.step (Display.mode115 .blank)) clickMatch
        (clicks .left raidClicks)) (.left, .event 0 (.mouse raidCapture.press)) :=
    run_append _ _ _ _
  have hcell : (ensureBoard (Display.mode115 .blank) (run (System.step (Display.mode115 .blank))
      clickMatch raidPress .left).vm).board.board (getPosition 3 4) = some 11 := by
    have hpos : getPosition 3 4 = 35 := rfl
    have hon : IsCell 35 := by decide
    rw [hpos, hpress, ensureBoard_of_created hcarry.dragging.created, hcarry.dragging.cells,
      stands_raidClicks.1.board_eq hon]
    decide +kernel
  have hdrag : (ensureBoard (Display.mode115 .blank) (run (System.step (Display.mode115 .blank))
      clickMatch raidPress .left).vm).draggingPiece = some 17 := by
    rw [hpress, ensureBoard_of_created hcarry.dragging.created]
    exact hcarry.dragging.dragging
  have hcol : UInt16.ofInt (getScreenX (Display.mode115 .blank).toGeometry 3) = 242 := by decide
  have hrow : UInt16.ofInt (getScreenY (Display.mode115 .blank).toGeometry 4) = 300 := by decide
  obtain ⟨hmoving, hresting⟩ := screen_follows_board (newMatch_clickMatch (Display.mode115 .blank))
    raidPress .left (by decide) hcell
  rw [hcol, hrow] at hmoving hresting
  dsimp only
  generalize ensureBoard (Display.mode115 .blank) _ = vm at hcell hdrag hmoving hresting ⊢
  refine ⟨hcell, hdrag, ?_⟩
  cases hm : (vm.heap 11).isMoving with
  | true => exact .inl ⟨rfl, hmoving hm⟩
  | false => exact .inr ⟨rfl, hresting hm (by rw [hdrag]; decide)⟩

end LCChess
