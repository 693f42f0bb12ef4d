import LCChess.Play.Moves
import LCChess.Protocol.Parser

/-!
# The flag of a pawn

`possiblePosition` offers a pawn its double step as long as `pawn_moved` is not set. The flag is
set by `updatePiece`, at a step of the animation, and by nothing else: not where a move is
applied, and not in `updatePiece_no_animation`.

## Main definitions

* `Piece.Unrecorded`: a pawn in motion whose flag is not set
* `PawnGame`: a game in which the player to move is white
* `singleInputs`, `pawnInputs`: a pawn is dragged one square, and then two

## Main results

* `Piece.pawnMoved_updated`: when a frame sets the flag of a piece
* `PawnGame.advanced`, `PawnAdvanced.returned`: the first drag, and the frames behind it
* `PawnGame.myTurn_run`: the second drag is accepted exactly if the animation is off
-/

namespace LCChess

open Transition (run)

/-- A pawn in motion whose flag does not record it yet. -/
structure Piece.Unrecorded (piece : Piece) : Prop where
  pawn : piece.type.isPawn = true
  unflagged : piece.pawnMoved = false
  moving : piece.isMoving = true

namespace Piece

theorem type_updated (piece : Piece) (animation : Bool) :
    (piece.updated animation).type = piece.type := by
  rcases piece.updated_cases animation with ⟨-, heq, -⟩ | ⟨-, -, heq, -⟩ | ⟨-, -, -, heq, -⟩ <;>
    rw [heq]

/-- **A frame sets the flag of a pawn at a step of its animation only.** -/
theorem pawnMoved_updated (piece : Piece) (animation : Bool) :
    (piece.updated animation).pawnMoved = true ↔
      piece.pawnMoved = true ∨ (piece.Unrecorded ∧ animation = true ∧ ¬ piece.Arrived) := by
  rcases piece.updated_cases animation with ⟨hrest, heq, -⟩ | ⟨-, hend, heq, -⟩ |
    ⟨hmoving, hon, hfar, heq, -⟩
  · rw [heq]
    -- a piece at rest is not unrecorded
    refine (or_iff_left ?_).symm
    rintro ⟨hun, -⟩
    exact absurd (hrest.symm.trans hun.moving) Bool.false_ne_true
  · rw [heq]
    -- a piece whose motion ends is not short of its target
    refine (or_iff_left ?_).symm
    rintro ⟨-, hon, hfar⟩
    exact hfar (hend hon)
  -- the step of the animation sets `pawn_moved` of every pawn
  · rw [heq, Bool.or_eq_true]
    cases hflag : piece.pawnMoved with
    | true => simp
    | false =>
      refine or_congr Iff.rfl ⟨fun hpawn => ⟨⟨hpawn, hflag, hmoving⟩, hon, hfar⟩, ?_⟩
      exact fun hun => hun.1.pawn

/-- A pawn whose flag is still not set behind a frame was at rest, or has ended its motion. -/
theorem rest_or_end (piece : Piece) {animation : Bool} (hpawn : piece.type.isPawn = true)
    (h : (piece.updated animation).pawnMoved = false) :
    (piece.isMoving = false ∧ piece.updated animation = { piece with change := false }) ∨
      (piece.isMoving = true ∧ piece.updated animation = { piece with
        absoluteX := piece.targetX, absoluteY := piece.targetY
        isMoving := false, priorityDraw := false, change := false }) := by
  rcases piece.updated_cases animation with ⟨hrest, heq, -⟩ | ⟨hmoving, -, heq, -⟩ |
    ⟨-, -, -, heq, -⟩
  · exact .inl ⟨hrest, heq⟩
  · exact .inr ⟨hmoving, heq⟩
  · rw [heq] at h
    simp only [hpawn, Bool.or_true] at h
    exact absurd h.symm Bool.false_ne_true

/-- No pawn leaves a frame in motion without its flag. -/
theorem not_unrecorded_updated (piece : Piece) (animation : Bool) :
    ¬ (piece.updated animation).Unrecorded := by
  rintro ⟨hpawn, hunflagged, hmoving⟩
  rw [type_updated] at hpawn
  rcases piece.rest_or_end hpawn hunflagged with ⟨hrest, heq⟩ | ⟨-, heq⟩
  · rw [heq] at hmoving
    exact Bool.false_ne_true (hrest.symm.trans hmoving)
  · rw [heq] at hmoving
    exact Bool.false_ne_true hmoving

/-- A pawn that is put on its way to another row has no flag yet. -/
theorem unrecorded_movePiece {piece : Piece} (htype : piece.type = .wPawn)
    (hflag : piece.pawnMoved = false) (col x : ℤ) {row y : ℤ}
    (hrow : UInt16.ofInt row ≠ UInt16.ofInt y) :
    let piece' := movePiece (setPiecePosition (changePiecePriority piece false) col row) x y
    piece'.type = .wPawn ∧ piece'.Unrecorded ∧ ¬ piece'.Arrived :=
  ⟨htype, ⟨congrArg PieceType.isPawn htype, hflag, rfl⟩, fun harrived => hrow harrived.2⟩

end Piece

/-! ## Frames -/

section Frames

variable {cells : ℤ → Option PieceRef} {heap : Heap} {p : PieceRef}

/-- What the update of the piece `p` preserves of it, a frame preserves. -/
theorem updateBoard_keeps (keep : Piece → Prop) {animation : Bool}
    (hstep : ∀ piece, keep piece → keep (piece.updated animation)) (h : keep (heap p))
    (redraw : Bool) : keep ((updateBoard cells animation (heap, redraw)).1 p) := by
  rw [updateBoard_eq]
  -- the loop visits other pieces too, and leaves `p` alone there
  refine eachPiece_keeps (fun s : Heap × Bool => keep (s.1 p)) (fun i q s _ _ _ hs => ?_) h
  rcases eq_or_ne p q with rfl | hne
  · rw [(updateCell_self animation p s).1]
    exact hstep _ hs
  · rw [updateCell_of_ne animation hne]
    exact hs

/-- With the animation off, a frame sets no flag. -/
theorem pawnMoved_updateBoard_off (redraw : Bool) :
    ((updateBoard cells false (heap, redraw)).1 p).pawnMoved = (heap p).pawnMoved := by
  refine updateBoard_keeps (fun piece => piece.pawnMoved = (heap p).pawnMoved) ?_ rfl redraw
  intro piece hpiece
  rw [← hpiece, Bool.eq_iff_iff, Piece.pawnMoved_updated]
  simp

/-- A flag that is set stays so. -/
theorem pawnMoved_updateBoard (animation : Bool) (h : (heap p).pawnMoved = true) (redraw : Bool) :
    ((updateBoard cells animation (heap, redraw)).1 p).pawnMoved = true :=
  updateBoard_keeps (fun piece => piece.pawnMoved = true)
    (fun piece hpiece => (piece.pawnMoved_updated animation).mpr (.inl hpiece)) h redraw

/-- With the animation on, a frame sets the flag of a pawn on the board that is in motion and
short of its target. -/
theorem pawnMoved_updateBoard_on {i : ℤ} (hi : IsCell i) (hp : cells i = some p)
    (hun : (heap p).Unrecorded) (hfar : ¬ (heap p).Arrived) (redraw : Bool) :
    ((updateBoard cells true (heap, redraw)).1 p).pawnMoved = true := by
  have hset : ∀ piece : Piece, piece.pawnMoved = true ∨ (piece.Unrecorded ∧ ¬ piece.Arrived) →
      (piece.updated true).pawnMoved = true := by
    intro piece hpiece
    rw [Piece.pawnMoved_updated]
    exact hpiece.imp id fun h => ⟨h.1, rfl, h.2⟩
  rw [updateBoard_eq]
  -- the sweep meets `p` on cell `i`; before that the pawn may have been recorded already
  refine eachPiece_reaches
    (fun s : Heap × Bool => (s.1 p).pawnMoved = true ∨ ((s.1 p).Unrecorded ∧ ¬ (s.1 p).Arrived))
    (fun s : Heap × Bool => (s.1 p).pawnMoved = true) hi hp ?_ ?_ ?_ (.inr ⟨hun, hfar⟩)
  · intro j q s _ _ _ hs
    rcases eq_or_ne p q with rfl | hne
    · rw [(updateCell_self true p s).1]
      exact .inl (hset _ hs)
    · rw [updateCell_of_ne true hne]
      exact hs
  · intro s hs
    rw [(updateCell_self true p s).1]
    exact hset _ hs
  · intro j q s _ _ _ hs
    rcases eq_or_ne p q with rfl | hne
    · rw [(updateCell_self true p s).1]
      exact hset _ (.inl hs)
    · rw [updateCell_of_ne true hne]
      exact hs

end Frames

/-- The first lines of the handler keep what a frame looks at. -/
theorem leaveGame_ensureBoard_animation (d : Display) (vm : Vm) :
    (leaveGame (ensureBoard d vm)).animation = vm.animation ∧
      (leaveGame (ensureBoard d vm)).board.board = (ensureBoard d vm).board.board ∧
      (leaveGame (ensureBoard d vm)).heap = (ensureBoard d vm).heap ∧
      (leaveGame (ensureBoard d vm)).boardCreated = true := by
  obtain ⟨gameState, won, hleave⟩ := leaveGame_frame (ensureBoard d vm)
  obtain ⟨board, heap, redraw, hframe⟩ := ensureBoard_frame d vm
  rw [hleave, hframe]
  exact ⟨rfl, rfl, rfl, rfl⟩

/-! ## A pawn that moves twice -/

/-- A new game shows no highlight. -/
theorem Fresh.clean {images : Images} {vm : Vm} (h : Fresh (Display.mode115 images) vm) :
    Clean (ensureBoard (Display.mode115 images) vm).board.memBoard := by
  have hnew : ∀ vm₀ : Vm, vm₀.boardCreated = false →
      Clean (ensureBoard (Display.mode115 images) vm₀).board.memBoard :=
    fun vm₀ h₀ => clean_ensureBoard fun hc => absurd (h₀.symm.trans hc) (by decide)
  rcases h.board with h₀ | ⟨vm₀, h₀, heq⟩
  · exact hnew vm h₀
  · rw [heq, ensureBoard_of_created (boardCreated_ensureBoard _ vm₀)]
    exact hnew vm₀ h₀

/-- In a new game the pieces are at rest, and the pawns have no flag. -/
theorem Fresh.rest {d : Display} {vm : Vm} (h : Fresh d vm) (i : ℤ) (p : PieceRef)
    (hi : IsCell i) (hp : (ensureBoard d vm).board.board i = some p) :
    ((ensureBoard d vm).heap p).isMoving = false ∧
      (((ensureBoard d vm).heap p).type.isPawn = true →
        ((ensureBoard d vm).heap p).pawnMoved = false) := by
  obtain ⟨hcells, hpieces⟩ := h.pieces
  obtain ⟨piece, hpiece⟩ := hpieces p (lt_of_initialCells ((hcells i hi).symm.trans hp))
  rw [hpiece]
  exact ⟨rfl, fun hpawn => if_pos hpawn⟩

/-- A new game of white, with the cursor on the pawn in square `(4, 6)`. -/
structure PawnGame (d : Display) (animation : Bool) (s : Instance) : Prop
    extends NewGame d s.vm where
  alive : s.crashed = false
  white : s.vm.player = .white
  turn : s.vm.myTurn = true
  cursor : s.vm.cursor = ⟨330, 440, false, false⟩
  animated : s.vm.animation = animation

/-- The pawn is dragged from square `(4, 6)` to square `(4, 5)`. -/
def singleStep : Gesture where
  press := ⟨true, false, false, false, false, 0, 0⟩
  held := []
  release := ⟨false, false, false, false, false, 0, 59⟩

/-- The pawn is dragged from square `(4, 5)` to square `(4, 3)`. -/
def doubleStep : Gesture where
  press := ⟨true, false, false, false, false, 0, 0⟩
  held := []
  release := ⟨false, false, false, false, false, 0, 118⟩

/-- The pawn is on its way from square `(4, 6)` to square `(4, 5)`. -/
structure PawnAdvanced (animation : Bool) (s : Instance) : Prop where
  alive : s.crashed = false
  playing : s.vm.gameState = .playing
  created : s.vm.boardCreated = true
  going : s.vm.endGame = false
  idle : s.vm.draggingPiece = none
  white : s.vm.player = .white
  animated : s.vm.animation = animation
  receive : s.vm.receiveQueue.WellFormed ∧ s.vm.receiveQueue.capacity = 10
  receive_nil : s.vm.receiveQueue.toList = []
  line_nil : s.vm.line = []
  cursor : s.vm.cursor = ⟨330, 381, false, true⟩
  cells : s.vm.board.board 52 = none ∧ s.vm.board.board 44 = some 28 ∧
    s.vm.board.board 36 = none ∧ s.vm.board.board 28 = none
  type : (s.vm.heap 28).type = .wPawn
  unrecorded : (s.vm.heap 28).Unrecorded
  far : ¬ (s.vm.heap 28).Arrived

/-- The turn has come back; the frame has set the flag of the pawn if the animation is on. -/
structure PawnReturned (animation : Bool) (s : Instance) : Prop where
  alive : s.crashed = false
  playing : s.vm.gameState = .playing
  created : s.vm.boardCreated = true
  going : s.vm.endGame = false
  idle : s.vm.draggingPiece = none
  white : s.vm.player = .white
  turn : s.vm.myTurn = true
  cursor : s.vm.cursor = ⟨330, 381, false, true⟩
  cells : s.vm.board.board 52 = none ∧ s.vm.board.board 44 = some 28 ∧
    s.vm.board.board 36 = none ∧ s.vm.board.board 28 = none
  type : (s.vm.heap 28).type = .wPawn
  flag : (s.vm.heap 28).pawnMoved = animation

section PawnGame

variable {images : Images} {animation : Bool} {s : Instance}

/-- The first drag lifts the pawn. -/
theorem PawnGame.lifts (h : PawnGame (Display.mode115 images) animation s) :
    singleStep.Lifts (Display.mode115 images) s 28 4 6 := by
  obtain ⟨hcells, htypes⟩ := h.position
  obtain ⟨board, heap, redraw, hframe⟩ := ensureBoard_frame (Display.mode115 images) s.vm
  have hsquare : (updateCursor mode115 singleStep.press s.vm.cursor).InSquare mode115 4 6 := by
    rw [h.cursor]
    exact ⟨by decide, by decide⟩
  refine ⟨h.alive, h.playing, h.dragging, ⟨?_, ?_, hsquare, by decide, ?_, ?_⟩, trivial, rfl⟩
  · exact pressed_updateCursor _ _ _
  · rw [hframe]
    exact h.turn
  · exact (hcells 52 (by decide)).trans (by decide)
  · rw [hframe] at htypes ⊢
    rw [show (heap 28).type = .wPawn from htypes 28 (by decide)]
    dsimp only
    rw [h.white]
    decide

/-- The square under the cursor when the pawn is released. -/
theorem PawnGame.square (h : PawnGame (Display.mode115 images) animation s) :
    singleStep.cursor (Display.mode115 images) s = ⟨330, 381, false, true⟩ := by
  rw [singleStep.cursor_of_held_nil _ s rfl h.alive h.playing, h.cursor]
  rfl

/-- An empty cell on the board. -/
theorem squares_eq_none_of_cell {vm : Vm} {x y i : ℤ} (hon : OnBoard x y) (hi : i = y * 8 + x)
    (hcell : vm.board.board i = none) : squares vm.board.board vm.heap x y = none := by
  rw [squares_of_onBoard _ _ hon, ← hi, hcell]
  rfl

/-- **The pawn is on its way behind its first drag**, without its flag. -/
theorem PawnGame.advanced (h : PawnGame (Display.mode115 images) animation s) :
    PawnAdvanced animation (singleStep.dropped (Display.mode115 images) s) := by
  obtain ⟨hcells, hpieces⟩ := h.pieces
  have hlifts := h.lifts
  obtain ⟨v, hdropped, hdrag, hcursor, hplayer, hanimation, hreceive, hline, hflag⟩ :=
    hlifts.released rfl h.endGame
  rw [h.square] at hcursor
  obtain ⟨piece, hpiece⟩ := hpieces 28 (by decide)
  have hsquare : v.cursor.InSquare mode115 4 5 := by
    rw [hcursor]
    exact ⟨by decide, by decide⟩
  have hclean := h.clean
  have hcell : (ensureBoard (Display.mode115 images) s.vm).board.board (6 * 8 + 4) = some 28 :=
    hlifts.presses.cell
  -- the board that the drag starts from
  generalize ensureBoard (Display.mode115 images) s.vm = base
    at hcells hpiece hdrag hflag hclean hcell
  have hempty : base.board.board 44 = none := (hcells 44 (by decide)).trans (by decide)
  have htype : (base.heap 28).type = .wPawn := by
    rw [hpiece]
    rfl
  have hplayable : Playable base 28 4 6 4 5 := by
    have hnone := squares_eq_none_of_cell (x := 4) (y := 5) (by decide) rfl hempty
    refine ⟨by decide, ?_, ?_⟩
    · rw [htype]
      exact .inl ⟨rfl, rfl, hnone⟩
    · rw [hnone]
      rintro ⟨-, hking⟩
      cases hking
  have hdrops : Drops (Display.mode115 images) v 28 4 5 :=
    (hdrag.drops_iff (by decide) hcell hclean hsquare).mpr hplayable
  have hking : kingIn v (5 * 8 + 4) = false := by
    unfold kingIn
    rw [hdrag.cells, show (5 : ℤ) * 8 + 4 = 44 by decide, hempty]
  have hinicial : inicialCell v = 52 := hdrag.inicialCell_eq (by decide)
  -- the square `(4, 6)` is cell `52`, the square `(4, 5)` is cell `44`
  have hmoved : moveCells v 28 4 5 =
      Function.update (Function.update base.board.board 52 none) 44 (some 28) := by
    rw [moveCells, hinicial, hdrag.cells]
    rfl
  obtain ⟨hcol, hrow⟩ := hdrag.inicial_eq (by decide)
  have hvtype : (v.heap 28).type = .wPawn := (hdrag.types 28).trans htype
  have hvflag : (v.heap 28).pawnMoved = false := by
    rw [hflag, hpiece]
    rfl
  -- `movePiece` sets `is_moving`, and not `pawn_moved`
  have hpawn := Piece.unrecorded_movePiece hvtype hvflag (getScreenX mode115 4)
    (getScreenX mode115 4) (show UInt16.ofInt (getScreenY mode115 6) ≠
      UInt16.ofInt (getScreenY mode115 5) by decide)
  have hrelease := release_move hdrops
  rw [hking, hmoved, putBackPiece, hcol, hrow, Display.toGeometry_mode115] at hrelease
  generalize movePiece _ _ _ = piece' at hpawn hrelease
  rw [hdropped]
  generalize release (Display.mode115 images) v 28 = r at hrelease
  subst hrelease
  refine ⟨rfl, hdrag.playing, hdrag.created, ?_, rfl, hplayer.trans h.white,
    hanimation.trans h.animated, ?_, ?_, hline.trans h.line_nil, hcursor, ?_, ?_, ?_, ?_⟩
  all_goals dsimp only
  · rw [hdrag.endGame]
    rfl
  · rw [hreceive]
    exact h.receive
  · rw [hreceive]
    exact h.receive_nil
  · refine ⟨?_, Function.update_self .., ?_, ?_⟩
    · rw [Function.update_of_ne (by decide), Function.update_self]
    · rw [Function.update_of_ne (by decide), Function.update_of_ne (by decide)]
      exact (hcells 36 (by decide)).trans (by decide)
    · rw [Function.update_of_ne (by decide), Function.update_of_ne (by decide)]
      exact (hcells 28 (by decide)).trans (by decide)
  all_goals rw [Function.update_self]
  · exact hpawn.1
  · exact hpawn.2.1
  · exact hpawn.2.2

/-- The frame that brings the turn back decides about the flag. -/
theorem PawnAdvanced.returned {d : Display} (h : PawnAdvanced animation s) :
    PawnReturned animation (run (Instance.stepInput d) s (feed yourTurn)) := by
  obtain ⟨v, queue, hv, -, -, -, hrun⟩ := run_feed_yourTurn (d := d) h.alive h.playing h.created
    h.going h.receive h.receive_nil h.line_nil
  obtain ⟨memPieces, videoMemBuffer, hframe⟩ := playingFrame_frame d v
  have hcells : v.board.board = s.vm.board.board ∧ v.heap = s.vm.heap ∧
      v.animation = animation := by
    rw [hv]
    exact ⟨rfl, rfl, h.animated⟩
  obtain ⟨hboard, hheap, hanimation⟩ := hcells
  rw [hrun, hframe, hboard, hheap, hanimation]
  have htype := type_updateBoard s.vm.board.board animation (s.vm.heap, v.redrawPieces) 28
  -- without the animation, `updatePiece_no_animation` ends the motion and skips the flag
  have hflag : ((updateBoard s.vm.board.board animation
      (s.vm.heap, v.redrawPieces)).1 28).pawnMoved = animation := by
    cases animation with
    | true => exact pawnMoved_updateBoard_on (by decide) h.cells.2.1 h.unrecorded h.far _
    | false => exact (pawnMoved_updateBoard_off _).trans h.unrecorded.unflagged
  generalize updateBoard s.vm.board.board animation (s.vm.heap, v.redrawPieces) = r at htype hflag
  subst hv
  exact ⟨h.alive, h.playing, h.created, h.going, h.idle, h.white, rfl, h.cursor, h.cells,
    htype.trans h.type, hflag⟩

/-- The second drag lifts the pawn again. -/
theorem PawnReturned.lifts (h : PawnReturned animation s) :
    doubleStep.Lifts (Display.mode115 images) s 28 4 5 := by
  have hsquare : (updateCursor mode115 doubleStep.press s.vm.cursor).InSquare mode115 4 5 := by
    rw [h.cursor]
    exact ⟨by decide, by decide⟩
  refine ⟨h.alive, h.playing, h.idle, ?_, trivial, rfl⟩
  rw [ensureBoard_of_created h.created]
  refine ⟨pressed_updateCursor _ _ _, h.turn, hsquare, by decide, h.cells.2.1, ?_⟩
  dsimp only
  rw [h.type, h.white]
  decide

/-- The square under the cursor when the pawn is released again. -/
theorem PawnReturned.square (h : PawnReturned animation s) :
    doubleStep.col (Display.mode115 images) s = 4 ∧
      doubleStep.row (Display.mode115 images) s = 3 := by
  have hcursor := doubleStep.cursor_of_held_nil (Display.mode115 images) s rfl h.alive h.playing
  rw [h.cursor] at hcursor
  rw [Gesture.col, Gesture.row, hcursor]
  have hsquare : (updateCursor mode115 doubleStep.release (updateCursor mode115 doubleStep.press
      ⟨330, 381, false, true⟩)).InSquare mode115 4 3 := ⟨by decide, by decide⟩
  exact hsquare

/-- **The second drag, a double step, is accepted exactly with the animation off.** -/
theorem PawnReturned.doubled (h : PawnReturned animation s)
    (herased : Erased (Display.mode115 images) s.vm) :
    let s' := doubleStep.dropped (Display.mode115 images) s
    (animation = true → Kept s.vm s'.vm) ∧ (animation = false → Moved s.vm s'.vm 28 44 28) := by
  obtain ⟨hmoved, hkept⟩ := h.lifts.drop h.going herased
  obtain ⟨hcol, hrow⟩ := @PawnReturned.square images animation s h
  rw [hcol, hrow, ensureBoard_of_created h.created] at hmoved hkept
  have hplayable : Playable s.vm 28 4 5 4 3 ↔ animation = false := by
    have hmiddle := squares_eq_none_of_cell (x := 4) (y := 4) (by decide) rfl h.cells.2.2.1
    have hend := squares_eq_none_of_cell (x := 4) (y := 3) (by decide) rfl h.cells.2.2.2
    -- both squares ahead are empty, so the flag alone decides about the double step
    have hlegal : LegalMove (squares s.vm.board.board s.vm.heap) .wPawn
        (animation = true) 4 5 4 3 ↔ animation = false := by
      refine Iff.trans (b := animation ≠ true) ⟨?_, fun hunset => ?_⟩ Bool.eq_false_iff.symm
      · rintro (⟨-, hrow, -⟩ | ⟨-, -, -, -, hunset⟩ | ⟨-, hrow, -⟩)
        · exact absurd hrow (by decide)
        · exact hunset
        · exact absurd hrow (by decide)
      · exact .inr (.inl ⟨rfl, rfl, hmiddle, hend, hunset⟩)
    unfold Playable
    rw [h.type, h.flag, hlegal, hend]
    exact ⟨fun hp => hp.2.1, fun hoff => ⟨by decide, hoff, fun hking => by cases hking.2⟩⟩
  rw [hplayable] at hmoved hkept
  exact ⟨fun hon => hkept (by rw [hon]; decide), fun hoff => hmoved hoff⟩

/-- The single step, and the turn coming back. -/
def singleInputs : List (Action ⊕ UInt8) :=
  [.inl (.event 0 (.mouse singleStep.press)), .inl (.event 0 (.mouse singleStep.release))] ++
    feed yourTurn

/-- The single step, the turn coming back, and the double step. -/
def pawnInputs : List (Action ⊕ UInt8) :=
  singleInputs ++
    [.inl (.event 0 (.mouse doubleStep.press)), .inl (.event 0 (.mouse doubleStep.release))]

/-- The state behind the single step. -/
theorem PawnGame.returned (h : PawnGame (Display.mode115 images) animation s) :
    PawnReturned animation
      (run (Instance.stepInput (Display.mode115 images)) s singleInputs) := by
  rw [singleInputs, Transition.run_append]
  exact h.advanced.returned (d := Display.mode115 images)

theorem PawnGame.erased (h : PawnGame (Display.mode115 images) animation s) :
    Erased (Display.mode115 images)
      (run (Instance.stepInput (Display.mode115 images)) s singleInputs).vm :=
  erased_run (.inl h.playing) (fun _ => h.clean) singleInputs

/-- Whether the second drag is accepted depends on the animation. -/
theorem PawnGame.myTurn_run (h : PawnGame (Display.mode115 images) animation s) :
    (run (Instance.stepInput (Display.mode115 images)) s pawnInputs).vm.myTurn = animation := by
  obtain ⟨hkept, hmoved⟩ := h.returned.doubled h.erased
  rw [pawnInputs, Transition.run_append]
  cases animation with
  | true => exact (hkept rfl).turn
  | false => exact (hmoved rfl).turn

end PawnGame

/-- A new game of white in mode `0x115`, with the cursor on the pawn in square `(4, 6)`. -/
def pawnGame (animation : Bool) : Instance where
  vm := { Vm.initialGame .white with
    cursor := ⟨330, 440, false, false⟩
    animation := animation }
  crashed := false

theorem pawnGame_new (d : Display) (animation : Bool) :
    PawnGame d animation (pawnGame animation) where
  toNewGame := { newGame_initialGame d .white with board := .inl rfl }
  alive := rfl
  white := rfl
  turn := rfl
  cursor := rfl
  animated := rfl

end LCChess
