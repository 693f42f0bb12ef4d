import LCChess.Play.Drag

/-!
# The legal moves

What the release of a drag accepts in mode `0x115`. The highlights painted at the press are the
only ones on the board, the release accepts those that do not hold a piece of the own color, and
so the accepted squares are the pseudo-legal moves of the pressed piece.

## Main definitions

* `Playable vm p x y x' y'`: the squares on which the release makes the move of `p`

## Main results

* `Dragging.drops_iff`: a dragged piece drops exactly on its playable squares
* `Gesture.Lifts.drop`: the release makes the move exactly on a playable square
* `piece_moves`: the moves of rook, bishop, queen, knight and king
-/

namespace LCChess

open Transition (run)

/-- The squares on which a release makes the move of the piece `p`, pressed in square `(x, y)`: its
pseudo-legal moves, but for the capture of the black king by a white pawn. -/
def Playable (vm : Vm) (p : PieceRef) (x y x' y' : ℤ) : Prop :=
  OnBoard x' y' ∧
    LegalMove (squares vm.board.board vm.heap) (vm.heap p).type ((vm.heap p).pawnMoved = true) x y
      x' y' ∧
    ¬ ((vm.heap p).type = .wPawn ∧ squares vm.board.board vm.heap x' y' = some .bKing)

variable {images : Images} {p : PieceRef} {x y x' y' : ℤ}

/-- The condition of the release is a move of the dragged piece. -/
theorem Dragging.drops_iff {base vm : Vm} (h : Dragging (Display.mode115 images) base vm p x y)
    (hon : OnBoard x y) (hcell : base.board.board (y * 8 + x) = some p)
    (hclean : Clean base.board.memBoard) (hsquare : vm.cursor.InSquare mode115 x' y') :
    Drops (Display.mode115 images) vm p x' y' ↔ Playable base p x y x' y' := by
  by_cases hon' : OnBoard x' y'
  · have hown : squares base.board.board base.heap x y = some (base.heap p).type := by
      rw [squares_of_onBoard _ _ hon, hcell]
      rfl
    have hlands : Lands (squares base.board.board base.heap) (base.heap p).type x' y' ↔
        ∀ q, vm.board.board (y' * 8 + x') = some q →
          sameTeam (vm.heap p).type (vm.heap q).type = false := by
      unfold Lands
      simp only [squares_of_onBoard _ _ hon', h.cells, h.types, Option.map_eq_some_iff,
        sameTeam_eq_false_iff, forall_exists_index, and_imp, forall_apply_eq_imp_iff₂]
    have hiff := isOrange_iff_legalMove hclean hon hon' hown
    have hmarks : vm.board.memBoard = possiblePosition mode115 base.board.board base.heap
      (base.heap p) x y base.board.memBoard := h.marks
    rw [← hmarks, hlands] at hiff
    constructor
    · rintro ⟨-, -, horange, henemy⟩
      exact ⟨hon', hiff.mp ⟨horange, henemy⟩⟩
    · rintro ⟨-, hlegal⟩
      obtain ⟨horange, henemy⟩ := hiff.mpr hlegal
      exact ⟨hsquare, hon', horange, henemy⟩
  · exact iff_of_false (fun hd => hon' hd.onBoard) fun hp => hon' hp.1

/-- The release made the move of the piece `p` from cell `o` to cell `n`, and took the turn. -/
structure Moved (vm vm' : Vm) (p : PieceRef) (o n : ℤ) : Prop where
  cells : vm'.board.board =
    Function.update (Function.update vm.board.board o none) n (some p)
  turn : vm'.myTurn = false

/-- The release left the cells and the turn as they were. -/
structure Kept (vm vm' : Vm) : Prop where
  cells : vm'.board.board = vm.board.board
  turn : vm'.myTurn = true

theorem Moved.not_kept {vm vm' : Vm} {o n : ℤ} (h : Moved vm vm' p o n) : ¬ Kept vm vm' :=
  fun hkept => Bool.false_ne_true (h.turn.symm.trans hkept.turn)

/-- The two outcomes of a release exclude each other. -/
theorem moved_iff_and_kept_iff {vm vm' : Vm} {o n : ℤ} {move : Prop}
    (hmoved : move → Moved vm vm' p o n) (hkept : ¬ move → Kept vm vm') :
    (Moved vm vm' p o n ↔ move) ∧ (Kept vm vm' ↔ ¬ move) := by
  refine ⟨⟨fun hm => ?_, hmoved⟩, ⟨fun hk hmove => ?_, hkept⟩⟩
  · by_contra hnot
    exact hm.not_kept (hkept hnot)
  · exact (hmoved hmove).not_kept hk

/-- A release that makes a move. -/
theorem Dragging.moved {d : Display} {base vm : Vm} (h : Dragging d base vm p x y)
    (hon : OnBoard x y) (hdrops : Drops d vm p x' y') :
    Moved base (release d vm p) p (y * 8 + x) (y' * 8 + x') := by
  have hmove := release_move hdrops
  generalize release d vm p = r at hmove
  subst hmove
  refine ⟨?_, rfl⟩
  dsimp only
  rw [moveCells, h.inicialCell_eq hon, h.cells]

/-- A release that puts the piece back. -/
theorem Dragging.kept {d : Display} {base vm : Vm} (h : Dragging d base vm p x y)
    (hdrops : ∀ x' y', ¬ Drops d vm p x' y') : Kept base (release d vm p) := by
  have hback := release_putBack hdrops
  generalize release d vm p = r at hback
  subst hback
  exact ⟨h.cells, h.turn⟩

/-- **Drag and drop.** A drag of a piece makes its move exactly if the button goes up over a
playable square. -/
theorem Gesture.Lifts.drop {g : Gesture} {s : Instance}
    (h : g.Lifts (Display.mode115 images) s p x y) (hend : s.vm.endGame = false)
    (herased : Erased (Display.mode115 images) s.vm) :
    let d := Display.mode115 images
    let vm := ensureBoard d s.vm
    let vm' := (g.dropped d s).vm
    (Playable vm p x y (g.col d s) (g.row d s) →
      Moved vm vm' p (y * 8 + x) (g.row d s * 8 + g.col d s)) ∧
    (¬ Playable vm p x y (g.col d s) (g.row d s) → Kept vm vm') := by
  intro d vm vm'
  have hclean : Clean vm.board.memBoard := herased h.idle
  obtain ⟨w, hreleased, -, hdrag, hsquare, -⟩ := h.dropped hend
  have hvm' : vm' = LCChess.release d w p := hreleased
  have hiff := hdrag.drops_iff h.presses.onBoard h.presses.cell hclean hsquare
  rw [hvm']
  refine ⟨fun hplayable => ?_, fun hnot => ?_⟩
  · exact hdrag.moved h.presses.onBoard (hiff.mpr hplayable)
  · refine hdrag.kept fun x'' y'' hdrops => ?_
    -- the square of the release is the one under the cursor
    obtain ⟨hcol, hrow⟩ := hdrops.square.unique hsquare
    rw [hcol, hrow] at hdrops
    exact hnot (hiff.mp hdrops)

/-- A new board, or one that shows no highlight, in a game that goes on without a drag. -/
structure Laid (vm : Vm) : Prop where
  playing : vm.gameState = .playing
  going : vm.endGame = false
  idle : vm.draggingPiece = none
  clean : vm.boardCreated = true → Clean vm.board.memBoard

/-- What every drag of a game rests on. -/
theorem Laid.run {s₀ : Instance} (h : Laid s₀.vm) (before : List (Action ⊕ UInt8)) :
    Steady (Transition.run (Instance.stepInput (Display.mode115 images)) s₀ before).vm ∧
      Erased (Display.mode115 images)
        (Transition.run (Instance.stepInput (Display.mode115 images)) s₀ before).vm :=
  ⟨steady_run (.of_endGame (.inl h.playing) h.going) before,
    erased_run (.inl h.playing) (fun _ => clean_ensureBoard h.clean) before⟩

/-- **The moves of rook, bishop, queen, knight and king.** From any board, at any moment of a
game: a drag of an own piece of these types is accepted exactly on the squares of the board that
are its pseudo-legal destinations, and otherwise the piece is put back. Nothing outside the 64
cells matters to the position. -/
theorem piece_moves {s₀ : Instance} (hlaid : Laid s₀.vm) (before : List (Action ⊕ UInt8))
    {g : Gesture}
    (h : g.Lifts (Display.mode115 images)
      (run (Instance.stepInput (Display.mode115 images)) s₀ before) p x y) :
    let d := Display.mode115 images
    let s := run (Instance.stepInput d) s₀ before
    let vm := ensureBoard d s.vm
    let vm' := (g.dropped d s).vm
    let move := OnBoard (g.col d s) (g.row d s) ∧
      PieceMove (squares vm.board.board vm.heap) (vm.heap p).type x y (g.col d s) (g.row d s)
    (vm.heap p).type.isPawn = false →
      (Moved vm vm' p (y * 8 + x) (g.row d s * 8 + g.col d s) ↔ move) ∧
      (Kept vm vm' ↔ ¬ move) := by
  intro d s vm vm' move hpiece
  obtain ⟨hsteady, herased⟩ := @Laid.run images s₀ hlaid before
  obtain ⟨hmoved, hkept⟩ := h.drop (h.endGame hsteady) herased
  have hplayable : Playable vm p x y (g.col d s) (g.row d s) ↔ move := by
    have hne : (vm.heap p).type ≠ .wPawn := by
      intro hpawn
      rw [hpawn] at hpiece
      exact absurd hpiece (by decide)
    simp only [Playable, LegalMove, hpiece, Bool.false_eq_true, if_false, hne, false_and,
      not_false_eq_true, and_true, move]
  rw [hplayable] at hmoved hkept
  exact moved_iff_and_kept_iff hmoved hkept

/-- The square under the cursor when the knight is released. -/
theorem knightGesture_square (images : Images) :
    knightGesture.col (Display.mode115 images) knightGame = 2 ∧
      knightGesture.row (Display.mode115 images) knightGame = 5 := by
  have hcursor := knightGesture.cursor_of_held_nil (Display.mode115 images) knightGame rfl rfl rfl
  rw [Gesture.col, Gesture.row, hcursor]
  have hsquare : (updateCursor mode115 knightGesture.release
      (updateCursor mode115 knightGesture.press knightGame.vm.cursor)).InSquare mode115 2 5 :=
    ⟨by decide, by decide⟩
  exact hsquare

/-- The jump of the knight is a move of its own. -/
theorem knightGesture_move (images : Images) :
    let vm := ensureBoard (Display.mode115 images) knightGame.vm
    (vm.heap 17).type = .wKnight ∧
      PieceMove (squares vm.board.board vm.heap) (vm.heap 17).type 1 7 2 5 := by
  intro vm
  have hfresh : Fresh (Display.mode115 images) knightGame.vm :=
    { newGame_initialGame (Display.mode115 images) .white with board := .inl rfl }
  obtain ⟨hcells, htypes⟩ := hfresh.position
  have hknight : (vm.heap 17).type = .wKnight := htypes 17 (by decide)
  have hdest : squares vm.board.board vm.heap 2 5 = none := by
    have hempty : vm.board.board (5 * 8 + 2) = none := (hcells 42 (by decide)).trans (by decide)
    rw [squares_of_onBoard _ _ (by decide), hempty]
    rfl
  refine ⟨hknight, ?_⟩
  rw [hknight]
  refine ⟨?_, fun q hq => ?_⟩
  · exact show KnightJump 1 7 2 5 from .inl (by decide)
  · exact absurd (hdest.symm.trans hq) (by simp)

/-- The knight of a new game jumps to square `(2, 5)`. -/
theorem piece_moves_knight : Moved (ensureBoard (Display.mode115 .blank) knightGame.vm)
    (knightGesture.dropped (Display.mode115 .blank) knightGame).vm 17 57 42 := by
  have hlaid : Laid knightGame.vm := ⟨rfl, rfl, rfl, fun h => absurd h (by decide)⟩
  obtain ⟨hcol, hrow⟩ := knightGesture_square .blank
  obtain ⟨hknight, hmove⟩ := knightGesture_move .blank
  have hiff := (piece_moves hlaid [] (knightGesture_lifts .blank) (by
    dsimp only [Transition.run, List.foldl_nil]
    rw [hknight]
    rfl)).1
  dsimp only [Transition.run, List.foldl_nil] at hiff
  rw [hcol, hrow] at hiff
  exact hiff.mpr ⟨by decide, hmove⟩

end LCChess
