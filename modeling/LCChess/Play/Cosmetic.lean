import LCChess.Play.PawnFlag

/-!
# Two runs that differ in the animation

Two instances get the same events and bytes, but each has its own keys, which switch the
animation. The flag `pawn_moved` is set by the animated step alone, so the two stay alike as long
as no frame finds them on different sides of that: a pawn without its flag, in motion, short of
its target.

## Main definitions

* `Piece.Similar`, `Vm.Twin`: pieces and instances that differ in what the screen shows
* `SameButKeys`, `FlagsAgree`: the inputs of the two runs, and the condition on a step

## Main results

* `Piece.Similar.updated`: a frame keeps similar pieces similar
* `Twins.stepInput`: a step that meets the condition keeps the instances twins
* `animation_cosmetic`: two runs that meet the condition play the same game
* `animation_cosmetic_fails`: a pawn dragged twice, with the animation on and off
-/

namespace LCChess

open Transition (run run_invariant_along pairStep run_pairStep Along)

/-! ## Similar pieces -/

/-- Two pieces that are at one place and in one motion. -/
structure Piece.SameMotion (piece piece' : Piece) : Prop where
  absoluteX : piece.absoluteX = piece'.absoluteX
  absoluteY : piece.absoluteY = piece'.absoluteY
  isMoving : piece.isMoving = piece'.isMoving
  target : piece.isMoving = true →
    piece.targetX = piece'.targetX ∧ piece.targetY = piece'.targetY

/-- Two records of one piece that differ in what the screen shows, and not even there if it is a
pawn without its flag. -/
structure Piece.Similar (piece piece' : Piece) : Prop where
  type : piece.type = piece'.type
  pawnMoved : piece.pawnMoved = piece'.pawnMoved
  motion : piece.type.isPawn = true → piece.pawnMoved = false → piece.SameMotion piece'

namespace Piece.Similar

variable {piece piece' : Piece}

theorem refl (piece : Piece) : piece.Similar piece :=
  ⟨rfl, rfl, fun _ _ => ⟨rfl, rfl, rfl, fun _ => ⟨rfl, rfl⟩⟩⟩

theorem setPiecePosition (h : piece.Similar piece') (x y : ℤ) :
    (setPiecePosition piece x y).Similar (setPiecePosition piece' x y) := by
  refine ⟨h.type, h.pawnMoved, fun hpawn hflag => ?_⟩
  obtain ⟨-, -, hmoving, htarget⟩ := h.motion hpawn hflag
  exact ⟨rfl, rfl, hmoving, htarget⟩

theorem movePiece (h : piece.Similar piece') (x y : ℤ) :
    (movePiece piece x y).Similar (movePiece piece' x y) := by
  refine ⟨h.type, h.pawnMoved, fun hpawn hflag => ?_⟩
  obtain ⟨hx, hy, -, -⟩ := h.motion hpawn hflag
  exact ⟨hx, hy, rfl, fun _ => ⟨rfl, rfl⟩⟩

theorem changePiecePriority (h : piece.Similar piece') (priority : Bool) :
    (changePiecePriority piece priority).Similar (changePiecePriority piece' priority) := by
  refine ⟨h.type, h.pawnMoved, fun hpawn hflag => ?_⟩
  obtain ⟨hx, hy, hmoving, htarget⟩ := h.motion hpawn hflag
  exact ⟨hx, hy, hmoving, htarget⟩

theorem unrecorded_iff (h : piece.Similar piece') : piece.Unrecorded ↔ piece'.Unrecorded := by
  obtain ⟨htype, hflag, hmotion⟩ := h
  constructor
  · rintro ⟨hpawn, hunflagged, hmoving⟩
    have hsame := (hmotion hpawn hunflagged).isMoving
    exact ⟨htype ▸ hpawn, hflag ▸ hunflagged, hsame ▸ hmoving⟩
  · rintro ⟨hpawn, hunflagged, hmoving⟩
    have hpawn' : piece.type.isPawn = true := htype ▸ hpawn
    have hunflagged' : piece.pawnMoved = false := hflag ▸ hunflagged
    have hsame := (hmotion hpawn' hunflagged').isMoving
    exact ⟨hpawn', hunflagged', hsame ▸ hmoving⟩

theorem arrived_iff (h : piece.Similar piece') (hun : piece.Unrecorded) :
    piece.Arrived ↔ piece'.Arrived := by
  obtain ⟨hx, hy, -, htarget⟩ := h.motion hun.pawn hun.unflagged
  obtain ⟨htx, hty⟩ := htarget hun.moving
  unfold Piece.Arrived
  rw [hx, hy, htx, hty]

/-- The flag behind a frame. -/
theorem pawnMoved_eq (h : piece.Similar piece') {animation animation' : Bool}
    (hagree : piece.Unrecorded → ¬ piece.Arrived → animation = animation') :
    (piece.updated animation).pawnMoved = (piece'.updated animation').pawnMoved := by
  rw [Bool.eq_iff_iff, pawnMoved_updated, pawnMoved_updated, h.pawnMoved]
  apply or_congr Iff.rfl
  constructor
  · rintro ⟨hun, hon, hfar⟩
    exact ⟨h.unrecorded_iff.mp hun, hagree hun hfar ▸ hon,
      fun ha => hfar ((h.arrived_iff hun).mpr ha)⟩
  · rintro ⟨hun', hon, hfar'⟩
    have hun := h.unrecorded_iff.mpr hun'
    have hfar : ¬ piece.Arrived := fun ha => hfar' ((h.arrived_iff hun).mp ha)
    exact ⟨hun, (hagree hun hfar).symm ▸ hon, hfar⟩

/-- **A frame keeps similar pieces similar**, if the flags of the animation agree where they
decide about the flag of a pawn. -/
theorem updated (h : piece.Similar piece') {animation animation' : Bool}
    (hagree : piece.Unrecorded → ¬ piece.Arrived → animation = animation') :
    (piece.updated animation).Similar (piece'.updated animation') := by
  have hflag := h.pawnMoved_eq hagree
  refine ⟨by rw [type_updated, type_updated, h.type], hflag, fun hpawn hunflagged => ?_⟩
  -- the flag is still not set, so neither frame has made a step of the animation
  have hpiece : piece.pawnMoved = false := by
    rw [← Bool.not_eq_true] at hunflagged ⊢
    exact fun hset => hunflagged ((pawnMoved_updated piece animation).mpr (.inl hset))
  have hpawn' : piece.type.isPawn = true := type_updated piece animation ▸ hpawn
  obtain ⟨hx, hy, hmoving, htarget⟩ := h.motion hpawn' hpiece
  -- both were at rest, or both have ended their motion in the same place
  rcases piece.rest_or_end hpawn' hunflagged with ⟨hm, heq⟩ | ⟨hm, heq⟩ <;>
  rcases piece'.rest_or_end (h.type ▸ hpawn') (hflag ▸ hunflagged) with ⟨hm', heq'⟩ | ⟨hm', heq'⟩
  · rw [heq, heq']
    exact ⟨hx, hy, hmoving, htarget⟩
  · exact absurd (hm.symm.trans (hmoving.trans hm')) Bool.false_ne_true
  · exact absurd (hm'.symm.trans (hmoving.symm.trans hm)) Bool.false_ne_true
  · obtain ⟨htx, hty⟩ := htarget hm
    rw [heq, heq']
    exact ⟨htx, hty, rfl, fun hf => absurd hf Bool.false_ne_true⟩

end Piece.Similar

/-! ## Twin instances -/

/-- What two runs may differ in: the animation, the pieces and the buffers of the screen. -/
structure Screen where
  animation : Bool
  heap : Heap
  redrawPieces : Bool
  memPieces : Memory
  videoMemBuffer : Memory
  videoMem : Memory

/-- The screen of an instance. -/
def Vm.screen (vm : Vm) : Screen :=
  ⟨vm.animation, vm.heap, vm.redrawPieces, vm.board.memPieces, vm.videoMemBuffer, vm.videoMem⟩

/-- The instance `vm` with another screen. -/
def Vm.onScreen (vm : Vm) (s : Screen) : Vm :=
  { vm with
    animation := s.animation
    heap := s.heap
    redrawPieces := s.redrawPieces
    board := { vm.board with memPieces := s.memPieces }
    videoMemBuffer := s.videoMemBuffer
    videoMem := s.videoMem }

/-- Two instances that differ in their screens, and whose pieces are similar. Before the board is
created the pieces are the same. -/
structure Vm.Twin (vm vm' : Vm) : Prop where
  same : vm' = vm.onScreen vm'.screen
  heap : ∀ q, (vm.heap q).Similar (vm'.heap q)
  fresh : vm.boardCreated = false → vm'.heap = vm.heap

/-- Similar heaps stay so where one piece changes in a similar way. -/
theorem similar_update {heap heap' : Heap} (h : ∀ q, (heap q).Similar (heap' q)) {p : PieceRef}
    {piece piece' : Piece} (hpiece : piece.Similar piece') (q : PieceRef) :
    (Function.update heap p piece q).Similar (Function.update heap' p piece' q) := by
  rcases eq_or_ne q p with rfl | hne
  · rw [Function.update_self, Function.update_self]
    exact hpiece
  · rw [Function.update_of_ne hne, Function.update_of_ne hne]
    exact h q

/-- A frame keeps the pieces similar, if the flags of the animation agree where it finds a pawn on
the board without its flag, in motion and short of its target. -/
theorem similar_updateBoard {board : ℤ → Option PieceRef} {heap heap' : Heap}
    (h : ∀ q, (heap q).Similar (heap' q)) {animation animation' : Bool}
    (hagree : ∀ i p, IsCell i → board i = some p → (heap p).Unrecorded → ¬ (heap p).Arrived →
      animation = animation') (redraw redraw' : Bool) (q : PieceRef) :
    ((updateBoard board animation (heap, redraw)).1 q).Similar
      ((updateBoard board animation' (heap', redraw')).1 q) := by
  rw [updateBoard_eq, updateBoard_eq]
  -- the condition speaks of the heap before the frame; a cell that is done has no unrecorded pawn
  refine (eachPiece_related (fun s t : Heap × Bool => (∀ q, (s.1 q).Similar (t.1 q)) ∧
    ∀ i p, IsCell i → board i = some p → (s.1 p).Unrecorded → ¬ (s.1 p).Arrived →
      animation = animation') ?_ ⟨h, hagree⟩).1 q
  rintro i p s t hi hi' hp ⟨hsimilar, hok⟩
  have hself := (updateCell_self animation p s).1
  have hself' := (updateCell_self animation' p t).1
  refine ⟨fun q => ?_, fun j q hj hq hun hfar => ?_⟩
  · rcases eq_or_ne q p with rfl | hne
    · rw [hself, hself']
      exact (hsimilar q).updated (hok i q ⟨hi, hi'⟩ hp)
    · rw [updateCell_of_ne animation hne, updateCell_of_ne animation' hne]
      exact hsimilar q
  · rcases eq_or_ne q p with rfl | hne
    · rw [hself] at hun
      exact absurd hun (Piece.not_unrecorded_updated _ _)
    · rw [updateCell_of_ne animation hne] at hun hfar
      exact hok j q hj hq hun hfar

namespace Vm.Twin

variable {d : Display} {vm vm' : Vm} {p : PieceRef} {x y : ℤ}

/-- The second one of twins is the first one on a screen of its own. -/
theorem exists_screen (h : vm.Twin vm') : ∃ s, vm' = vm.onScreen s ∧
    (∀ q, (vm.heap q).Similar ((vm.onScreen s).heap q)) ∧
      (vm.boardCreated = false → s.heap = vm.heap) := by
  obtain ⟨same, hheap, hfresh⟩ := h
  generalize vm'.screen = s at same
  subst same
  exact ⟨s, rfl, hheap, hfresh⟩

theorem cells (h : vm.Twin vm') : vm'.board.board = vm.board.board := by
  rw [h.same]
  rfl

theorem type_eq (h : vm.Twin vm') (q : PieceRef) : (vm'.heap q).type = (vm.heap q).type :=
  (h.heap q).type.symm

/-- Behind the creation of the board, similar pieces are enough. -/
theorem of_created (same : vm' = vm.onScreen vm'.screen)
    (heap : ∀ q, (vm.heap q).Similar (vm'.heap q)) (hcreated : vm.boardCreated = true) :
    vm.Twin vm' :=
  ⟨same, heap, fun hf => absurd (hcreated.symm.trans hf) (by decide)⟩

/-- Twins create the same board. -/
theorem ensureBoard (h : vm.Twin vm') :
    (ensureBoard d vm).Twin (LCChess.ensureBoard d vm') := by
  obtain ⟨s, rfl, hheap, hfresh⟩ := h.exists_screen
  have hcreated' : (LCChess.ensureBoard d vm).boardCreated = true := boardCreated_ensureBoard d vm
  cases hcreated : vm.boardCreated with
  | true =>
    rw [ensureBoard_of_created hcreated, ensureBoard_of_created (by exact hcreated)]
    exact .of_created rfl hheap hcreated
  -- the pieces of a new board depend on nothing that the screens may differ in
  | false =>
    have hpieces : s.heap = vm.heap := hfresh hcreated
    refine .of_created ?_ (fun q => ?_) hcreated'
    · simp only [LCChess.ensureBoard, Vm.onScreen, hcreated, Bool.false_eq_true, if_false, hpieces]
      rfl
    · simp only [LCChess.ensureBoard, Vm.onScreen, hcreated, Bool.false_eq_true, if_false, hpieces]
      exact .refl _

theorem leaveGame (h : vm.Twin vm') : (leaveGame vm).Twin (LCChess.leaveGame vm') := by
  obtain ⟨s, rfl, hheap, hfresh⟩ := h.exists_screen
  cases hend : vm.endGame with
  | true =>
    have hleave : ∀ w : Vm, w.endGame = true →
        LCChess.leaveGame w = { w with won := true, gameState := .exit } := fun w hw => if_pos hw
    rw [hleave _ hend, hleave (vm.onScreen s) hend]
    exact ⟨rfl, hheap, hfresh⟩
  | false =>
    rw [leaveGame_of_endGame hend, @leaveGame_of_endGame (vm.onScreen s) hend]
    exact ⟨rfl, hheap, hfresh⟩

theorem withCursor (h : vm.Twin vm') (cursor : Cursor) :
    Vm.Twin { vm with cursor := cursor } { vm' with cursor := cursor } := by
  obtain ⟨s, rfl, hheap, hfresh⟩ := h.exists_screen
  exact ⟨rfl, hheap, hfresh⟩

/-! ### Mouse events -/

/-- Twins press the same pieces. -/
theorem presses_iff (h : vm.Twin vm') : Presses d vm' p x y ↔ Presses d vm p x y := by
  have htype := h.type_eq p
  obtain ⟨s, rfl, -, -⟩ := h.exists_screen
  constructor
  · rintro ⟨hpressed, hturn, hsquare, hon, hcell, howns⟩
    exact ⟨hpressed, hturn, hsquare, hon, hcell, htype ▸ howns⟩
  · rintro ⟨hpressed, hturn, hsquare, hon, hcell, howns⟩
    exact ⟨hpressed, hturn, hsquare, hon, hcell, htype ▸ howns⟩

/-- Twins drop a piece on the same squares. -/
theorem drops_iff (h : vm.Twin vm') : Drops d vm' p x y ↔ Drops d vm p x y := by
  have htype := h.type_eq
  obtain ⟨s, rfl, -, -⟩ := h.exists_screen
  constructor
  · rintro ⟨hsquare, hon, horange, henemy⟩
    exact ⟨hsquare, hon, horange, fun q hq => by rw [← htype, ← htype]; exact henemy q hq⟩
  · rintro ⟨hsquare, hon, horange, henemy⟩
    exact ⟨hsquare, hon, horange, fun q hq => by rw [htype, htype]; exact henemy q hq⟩

theorem kingIn_eq (h : vm.Twin vm') (i : ℤ) : kingIn vm' i = kingIn vm i := by
  unfold kingIn
  rw [h.cells]
  split
  · exact congrArg _ (h.type_eq _)
  · rfl

/-- Twins highlight the same squares at a press. -/
theorem press (h : vm.Twin vm') (hcreated : vm.boardCreated = true) :
    (press d vm p x y).Twin (LCChess.press d vm' p x y) := by
  have htypes := h.type_eq
  obtain ⟨s, rfl, hheap, -⟩ := h.exists_screen
  have hpiece := (hheap p).changePiecePriority true
  have hlifted : ∀ q, ((LCChess.press d vm p x y).heap q).Similar
      ((LCChess.press d (vm.onScreen s) p x y).heap q) := similar_update hheap hpiece
  -- the highlights depend on the types and on the flag of the pawn, not on the places
  have hmarks : (LCChess.press d (vm.onScreen s) p x y).board.memBoard =
      (LCChess.press d vm p x y).board.memBoard :=
    (possiblePosition_congr _ _ (fun q => (hlifted q).type) (hlifted p).type (hlifted p).pawnMoved
      _ _ _).symm
  have hform : ∀ (w : Vm) (m : Memory), (LCChess.press d w p x y).board.memBoard = m →
      LCChess.press d w p x y = { w with
        heap := Function.update w.heap p (LCChess.changePiecePriority (w.heap p) true)
        board := { w.board with memBoard := m }
        draggingPiece := some p
        inicialPieceRow := u32 y
        inicialPieceCol := u32 x
        videoMemBuffer := copyBuffers d.toGeometry w.videoMemBuffer m } := by
    rintro w _ rfl
    rfl
  rw [hform vm _ rfl, hform (vm.onScreen s) _ hmarks]
  generalize (LCChess.press d vm p x y).board.memBoard = m
  exact .of_created rfl (similar_update hheap hpiece) hcreated

theorem follow (h : vm.Twin vm') (hcreated : vm.boardCreated = true) :
    (follow vm p).Twin (LCChess.follow vm' p) := by
  obtain ⟨s, rfl, hheap, -⟩ := h.exists_screen
  exact .of_created rfl (similar_update hheap ((hheap p).setPiecePosition _ _)) hcreated

/-- Twins end a drag alike. -/
theorem release (h : vm.Twin vm') (hcreated : vm.boardCreated = true) :
    (release d vm p).Twin (LCChess.release d vm' p) := by
  have hback : (putBackPiece d vm p).Similar (putBackPiece d vm' p) := by
    obtain ⟨s, rfl, hheap, -⟩ := h.exists_screen
    exact ((hheap p).changePiecePriority false).setPiecePosition _ _
  by_cases hdrops : ∃ x y, Drops d vm p x y
  · obtain ⟨x, y, hdrops⟩ := hdrops
    have hking := h.kingIn_eq (y * 8 + x)
    have hmoved := hback.movePiece (getScreenX d.toGeometry x) (getScreenY d.toGeometry y)
    rw [release_move hdrops, release_move (h.drops_iff.mpr hdrops), hking]
    obtain ⟨s, rfl, hheap, -⟩ := h.exists_screen
    have hsend : sendMove (vm.onScreen s) x y = sendMove vm x y := rfl
    have hcells : moveCells (vm.onScreen s) p x y = moveCells vm p x y := rfl
    have hmarks : (vm.onScreen s).board.memBoard = vm.board.memBoard := rfl
    rw [hsend, hcells, hmarks]
    generalize sendMove vm x y = transmit
    generalize moveCells vm p x y = cells
    generalize drawBoard d.toGeometry vm.board.memBoard = m
    generalize kingIn vm (y * 8 + x) = king
    generalize movePiece (putBackPiece d vm p) _ _ = piece at hmoved ⊢
    generalize movePiece (putBackPiece d (vm.onScreen s) p) _ _ = piece' at hmoved ⊢
    exact .of_created rfl (similar_update hheap hmoved) hcreated
  · have hdrops' : ∀ x y, ¬ Drops d vm' p x y := fun x y hxy => hdrops ⟨x, y, h.drops_iff.mp hxy⟩
    -- neither of the two drops the piece
    rw [release_putBack fun x y hxy => hdrops ⟨x, y, hxy⟩, release_putBack hdrops']
    obtain ⟨s, rfl, hheap, -⟩ := h.exists_screen
    have hmarks : (vm.onScreen s).board.memBoard = vm.board.memBoard := rfl
    rw [hmarks]
    generalize drawBoard d.toGeometry vm.board.memBoard = m
    exact .of_created rfl (similar_update hheap hback) hcreated

/-- **Twins answer a `MOUSE` event alike.** -/
theorem playingMouse (h : vm.Twin vm') (hcreated : vm.boardCreated = true)
    (hbuttons : vm.cursor.pressed = true → vm.cursor.released = false) :
    (playingMouse d vm).Twin (LCChess.playingMouse d vm') := by
  have hdrag : vm'.draggingPiece = vm.draggingPiece ∧ vm'.cursor = vm.cursor := by
    rw [h.same]
    exact ⟨rfl, rfl⟩
  rcases hp : vm.draggingPiece with _ | p
  · by_cases hpress : ∃ p x y, Presses d vm p x y
    · obtain ⟨p, x, y, hpress⟩ := hpress
      rw [playingMouse_press hp hbuttons hpress, playingMouse_press (hdrag.1.trans hp)
        (by rw [hdrag.2]; exact hbuttons) (h.presses_iff.mpr hpress)]
      exact h.press hcreated
    · rw [playingMouse_idle hp fun p x y hxy => hpress ⟨p, x, y, hxy⟩,
        playingMouse_idle (hdrag.1.trans hp)
          fun p x y hxy => hpress ⟨p, x, y, h.presses_iff.mp hxy⟩]
      exact h
  · cases hr : vm.cursor.released with
    | false =>
      rw [playingMouse_follow hp hr, playingMouse_follow (hdrag.1.trans hp) (hdrag.2 ▸ hr)]
      exact h.follow hcreated
    | true =>
      rw [playingMouse_release hp hr, playingMouse_release (hdrag.1.trans hp) (hdrag.2 ▸ hr)]
      exact (h.follow hcreated).release hcreated

/-! ### Frames and keys -/

/-- Keys may differ. -/
theorem playingKeyboard (h : vm.Twin vm') (scanCode scanCode' : UInt8) :
    (playingKeyboard vm scanCode).Twin (LCChess.playingKeyboard vm' scanCode') := by
  -- a key changes nothing but the flag of the animation
  have hkey : ∀ (w : Vm) (code : UInt8), ∃ animation,
      LCChess.playingKeyboard w code = { w with animation := animation } := by
    intro w code
    unfold LCChess.playingKeyboard
    split_ifs
    · exact ⟨_, rfl⟩
    · exact ⟨_, rfl⟩
    · exact ⟨_, rfl⟩
  obtain ⟨animation, hvm⟩ := hkey vm scanCode
  obtain ⟨animation', hvm'⟩ := hkey vm' scanCode'
  rw [hvm, hvm']
  obtain ⟨s, rfl, hheap, hfresh⟩ := h.exists_screen
  exact ⟨rfl, hheap, hfresh⟩

/-- A frame redraws twins, and updates their pieces. -/
theorem playingFrame (h : vm.Twin vm') (hcreated : vm.boardCreated = true)
    (hagree : ∀ i p, IsCell i → vm.board.board i = some p → (vm.heap p).Unrecorded →
      ¬ (vm.heap p).Arrived → vm.animation = vm'.animation) :
    (playingFrame d vm).Twin (LCChess.playingFrame d vm') := by
  have hcells := h.cells
  have hheap := similar_updateBoard h.heap hagree vm.redrawPieces vm'.redrawPieces
  rw [← hcells] at hheap
  refine .of_created ?_ (fun q => ?_) hcreated
  · obtain ⟨memPieces, buffer, hframe⟩ := playingFrame_frame d vm
    obtain ⟨memPieces', buffer', hframe'⟩ := playingFrame_frame d vm'
    rw [hframe, hframe']
    generalize updateBoard vm.board.board vm.animation (vm.heap, vm.redrawPieces) = s
    generalize updateBoard vm'.board.board vm'.animation (vm'.heap, vm'.redrawPieces) = s'
    rw [h.same]
    rfl
  · have hsame := hheap q
    rw [hcells] at hsame
    have hq : (LCChess.playingFrame d vm').heap q = (updateBoard vm'.board.board vm'.animation
        (vm'.heap, vm'.redrawPieces)).1 q := rfl
    rw [hq, hcells]
    exact hsame

theorem loseKing (h : vm.Twin vm') (newCell : ℤ) :
    (loseKing vm newCell).Twin (LCChess.loseKing vm' newCell) := by
  have htypes := h.type_eq
  obtain ⟨s, rfl, hheap, hfresh⟩ := h.exists_screen
  have hcell : (vm.onScreen s).board.board newCell = vm.board.board newCell := rfl
  simp only [LCChess.loseKing, hcell, htypes]
  split
  · split
    · exact ⟨rfl, hheap, hfresh⟩
    · exact ⟨rfl, hheap, hfresh⟩
  · exact ⟨rfl, hheap, hfresh⟩

theorem moveReceived (h : vm.Twin vm') (hcreated : vm.boardCreated = true) (oldCell newCell : ℤ) :
    (moveReceived d vm p oldCell newCell).Twin (LCChess.moveReceived d vm' p oldCell newCell) := by
  obtain ⟨s, rfl, hheap, -⟩ := h.exists_screen
  exact .of_created rfl (similar_update hheap ((hheap p).movePiece _ _)) hcreated

theorem receiveMove (h : vm.Twin vm') (hcreated : vm.boardCreated = true) :
    Option.Rel Vm.Twin (receiveMove d vm) (LCChess.receiveMove d vm') := by
  have hmove : vm'.move = vm.move := by
    rw [h.same]
    rfl
  have hlost := h.loseKing (moveCell vm.move.newRow vm.move.newCol)
  have hcreated' : (LCChess.loseKing vm (moveCell vm.move.newRow vm.move.newCol)).boardCreated =
      true := by
    obtain ⟨_, _, -, heq⟩ := loseKing_frame vm (moveCell vm.move.newRow vm.move.newCol)
    rw [heq]
    exact hcreated
  simp only [LCChess.receiveMove, hmove, hlost.cells]
  split
  · exact .none
  · exact .some (hlost.moveReceived hcreated' _ _)

/-- **Twins take a received byte alike.** -/
theorem parseByte (h : vm.Twin vm') (hcreated : vm.boardCreated = true) (b : UInt8) :
    Option.Rel Vm.Twin (parseByte d b vm) (LCChess.parseByte d b vm') := by
  obtain ⟨s, rfl, hheap, hfresh⟩ := h.exists_screen
  have hbyte : (vm.onScreen s).byteOfMove = vm.byteOfMove := rfl
  unfold LCChess.parseByte
  rw [hbyte]
  split_ifs
  · exact .some ⟨rfl, hheap, hfresh⟩
  · exact .some ⟨rfl, hheap, hfresh⟩
  · exact .some ⟨rfl, hheap, hfresh⟩
  · exact receiveMove ⟨rfl, hheap, hfresh⟩ hcreated
  · exact .some ⟨rfl, hheap, hfresh⟩

/-- Twins read the same byte. -/
theorem receiveByte (h : vm.Twin vm') (hcreated : vm.boardCreated = true) :
    Option.Rel Vm.Twin (receiveByte d vm) (LCChess.receiveByte d vm') := by
  obtain ⟨s, rfl, hheap, hfresh⟩ := h.exists_screen
  -- the receive queue is none of what the screens may differ in
  have hread : readFromQueue (vm.onScreen s).receiveQueue = readFromQueue vm.receiveQueue := rfl
  unfold LCChess.receiveByte
  rw [hread]
  generalize readFromQueue vm.receiveQueue = r
  obtain ⟨b, queue⟩ := r
  exact @parseByte d { vm with receiveQueue := queue } { vm.onScreen s with receiveQueue := queue }
    ⟨rfl, hheap, hfresh⟩ hcreated b

theorem presentFrame (h : vm.Twin vm') :
    (presentFrame d vm).Twin (LCChess.presentFrame d vm') := by
  obtain ⟨s, rfl, hheap, hfresh⟩ := h.exists_screen
  exact ⟨rfl, hheap, hfresh⟩

end Vm.Twin

/-! ## Twin runs -/

/-- The inputs of two runs agree, except that their keys may differ. -/
def SameButKeys (i i' : Action ⊕ UInt8) : Prop :=
  i = i' ∨ ∃ arrivals code code', i = .inl (.event arrivals (.keyboard code)) ∧
    i' = .inl (.event arrivals (.keyboard code'))

/-- The condition on a step of two runs: where a frame finds a pawn on the board without its flag,
in motion and short of its target, the two flags of the animation agree. -/
def FlagsAgree (d : Display) (s : Instance × Instance)
    (i : (Action ⊕ UInt8) × (Action ⊕ UInt8)) : Prop :=
  s.1.crashed = false → s.1.vm.gameState = .playing →
    ∀ arrivals, i.1 = .inl (.event arrivals .newFrame) →
    ∀ j p, IsCell j → (ensureBoard d s.1.vm).board.board j = some p →
      ((ensureBoard d s.1.vm).heap p).Unrecorded → ¬ ((ensureBoard d s.1.vm).heap p).Arrived →
      s.1.vm.animation = s.2.vm.animation

/-- Equal flags of the animation agree at every step. -/
theorem flagsAgree_of_eq {d : Display} {s : Instance × Instance}
    {i : (Action ⊕ UInt8) × (Action ⊕ UInt8)} (h : s.1.vm.animation = s.2.vm.animation) :
    FlagsAgree d s i :=
  fun _ _ _ _ _ _ _ _ _ _ => h

section Runs

variable {d : Display} {vm vm' : Vm}

/-- Twins answer an event of the game alike. -/
theorem Vm.Twin.handleEvent (h : vm.Twin vm') (hplay : vm.gameState = .playing) {arrivals : ℕ}
    {event event' : Event} (hevents : event = event' ∨ ∃ code code', event = .keyboard code ∧
      event' = .keyboard code')
    (hagree : event = .newFrame → ∀ j p, IsCell j →
      (LCChess.ensureBoard d vm).board.board j = some p →
      ((LCChess.ensureBoard d vm).heap p).Unrecorded →
      ¬ ((LCChess.ensureBoard d vm).heap p).Arrived → vm.animation = vm'.animation) :
    Option.Rel Vm.Twin (LCChess.handleEvent d arrivals event vm)
      (LCChess.handleEvent d arrivals event' vm') := by
  obtain ⟨hplay', hcursor⟩ : vm'.gameState = .playing ∧ vm'.cursor = vm.cursor := by
    rw [h.same]
    exact ⟨hplay, rfl⟩
  have hentered := (h.ensureBoard (d := d)).leaveGame
  obtain ⟨hanimation, hboard, hheap, hcreated⟩ := leaveGame_ensureBoard_animation d vm
  obtain ⟨hanimation', -, -, -⟩ := leaveGame_ensureBoard_animation d vm'
  have hkeys : ∀ code code', Option.Rel Vm.Twin (LCChess.handleEvent d arrivals (.keyboard code) vm)
      (LCChess.handleEvent d arrivals (.keyboard code') vm') := by
    intro code code'
    rw [handleEvent_keyboard hplay, handleEvent_keyboard hplay']
    exact .some (hentered.playingKeyboard code code')
  rcases hevents with rfl | ⟨code, code', rfl, rfl⟩
  · cases event with
    | newFrame =>
      rw [handleEvent_frame hplay, handleEvent_frame hplay']
      have hframe := hentered.playingFrame (d := d) hcreated (by
        rw [hboard, hheap, hanimation, hanimation']
        exact hagree rfl)
      have hbyte := hframe.receiveByte (d := d) hcreated
      generalize LCChess.receiveByte d (LCChess.playingFrame d (LCChess.leaveGame
        (LCChess.ensureBoard d vm))) = r at hbyte ⊢
      generalize LCChess.receiveByte d (LCChess.playingFrame d (LCChess.leaveGame
        (LCChess.ensureBoard d vm'))) = r' at hbyte ⊢
      cases hbyte with
      | none => exact .none
      | some hrel => exact .some hrel.presentFrame
    | keyboard code => exact hkeys code code
    | mouse packet =>
      rw [handleEvent_mouse hplay, handleEvent_mouse hplay', hcursor]
      have hmoved := ((h.ensureBoard (d := d)).withCursor
        (updateCursor d.toGeometry packet vm.cursor)).leaveGame
      refine .some (hmoved.playingMouse ?_ ?_)
      · obtain ⟨gameState, won, hleave⟩ := leaveGame_frame { LCChess.ensureBoard d vm with
          cursor := updateCursor d.toGeometry packet vm.cursor }
        rw [hleave]
        exact boardCreated_ensureBoard d vm
      · rw [cursor_leaveGame]
        simp +contextual
  · exact hkeys code code'

/-- Two instances that are twins, in a game or after it. -/
structure Twins (s : Instance × Instance) : Prop where
  crashed : s.2.crashed = s.1.crashed
  twin : s.1.vm.Twin s.2.vm
  begun : Begun s.1.vm

/-- Behind the game twins answer every event alike. -/
theorem Vm.Twin.handleEvent_over (h : vm.Twin vm') (hexit : vm.gameState = .exit) {arrivals : ℕ}
    {event event' : Event} (hevents : event = event' ∨ ∃ code code', event = .keyboard code ∧
      event' = .keyboard code') :
    Option.Rel Vm.Twin (LCChess.handleEvent d arrivals event vm)
      (LCChess.handleEvent d arrivals event' vm') := by
  obtain ⟨hexit', hcursor⟩ : vm'.gameState = .exit ∧ vm'.cursor = vm.cursor := by
    rw [h.same]
    exact ⟨hexit, rfl⟩
  rw [LCChess.handleEvent_over hexit, LCChess.handleEvent_over hexit']
  rcases hevents with rfl | ⟨code, code', rfl, rfl⟩
  · cases event with
    | newFrame => exact .some h.presentFrame
    | keyboard code => exact .some h
    | mouse packet =>
      dsimp only
      rw [hcursor]
      exact .some (h.withCursor _)
  · exact .some h

/-- An event of two instances. -/
theorem Twins.event {s s' : Instance} (h : Twins (s, s')) {arrivals : ℕ} {event event' : Event}
    (hevents : event = event' ∨ ∃ code code', event = .keyboard code ∧
      event' = .keyboard code')
    (hagree : FlagsAgree d (s, s') (.inl (.event arrivals event), .inl (.event arrivals event'))) :
    Twins (s.step d (.event arrivals event), s'.step d (.event arrivals event')) := by
  obtain ⟨hcrashed, htwin, hbegun⟩ := id h
  have hbegun' : Begun (s.step d (.event arrivals event)).vm :=
    begun_stepInput hbegun (.inl (.event arrivals event))
  refine ⟨?_, ?_, hbegun'⟩
  all_goals
    cases hcrash : s.crashed with
    | true =>
      have hcrash' : s'.crashed = true := hcrashed.trans hcrash
      simp only [Instance.step, hcrash, hcrash', if_true]
      first | exact htwin | skip
    | false =>
      have hcrash' : s'.crashed = false := hcrashed.trans hcrash
      -- both crash, or none of the two
      have hrel : Option.Rel Vm.Twin (handleEvent d arrivals event s.vm)
          (handleEvent d arrivals event' s'.vm) := by
        rcases hbegun with hplay | hexit
        · exact htwin.handleEvent hplay hevents
            fun hframe => hagree hcrash hplay arrivals (by rw [hframe])
        · exact htwin.handleEvent_over hexit hevents
      rw [Instance.step_of_alive hcrash, Instance.step_of_alive hcrash']
      dsimp only
      generalize handleEvent d arrivals event s.vm = r at hrel ⊢
      generalize handleEvent d arrivals event' s'.vm = r' at hrel ⊢
      cases hrel with
      | none => first | exact htwin | rfl
      | some hsome => first | exact hsome | exact hcrashed

/-- The actions of the serial port, and the arrival of a byte. -/
theorem Twins.buffers {s s' : Instance} (h : Twins (s, s')) {i : Action ⊕ UInt8}
    (hi : ∀ arrivals event, i ≠ .inl (.event arrivals event)) :
    Twins (s.stepInput d i, s'.stepInput d i) := by
  have hbegun : Begun (s.stepInput d i).vm := begun_stepInput h.begun i
  obtain ⟨hcrashed, ⟨same, hheap, hfresh⟩, -⟩ := h
  obtain ⟨vm, crashed⟩ := s
  obtain ⟨vm', crashed'⟩ := s'
  obtain rfl : crashed' = crashed := hcrashed
  dsimp only at same hheap hfresh
  generalize vm'.screen = screen at same
  subst same
  have htwin : vm.Twin (vm.onScreen screen) := ⟨rfl, hheap, hfresh⟩
  rcases i with (⟨arrivals, event⟩ | lsr | arrived) | byte
  · exact absurd rfl (hi arrivals event)
  · cases crashed' with
    | true => exact ⟨rfl, htwin, hbegun⟩
    | false => exact ⟨rfl, ⟨rfl, hheap, hfresh⟩, hbegun⟩
  · cases crashed' with
    | true => exact ⟨rfl, htwin, hbegun⟩
    | false =>
      simp only [Instance.stepInput] at hbegun ⊢
      have hstate : (vm.onScreen screen).gameState = vm.gameState := rfl
      rw [Instance.step_of_alive rfl] at hbegun ⊢
      rw [Instance.step_of_alive rfl]
      dsimp only at hbegun ⊢
      rw [hstate]
      split_ifs at hbegun ⊢
      · exact ⟨rfl, htwin, hbegun⟩
      · exact ⟨rfl, ⟨rfl, hheap, hfresh⟩, hbegun⟩
  · exact ⟨rfl, ⟨rfl, hheap, hfresh⟩, hbegun⟩

/-- **A step that meets the condition keeps the instances twins.** -/
theorem Twins.stepInput {s : Instance × Instance} (h : Twins s)
    {i : (Action ⊕ UInt8) × (Action ⊕ UInt8)} (hkeys : SameButKeys i.1 i.2)
    (hagree : FlagsAgree d s i) :
    Twins (pairStep (Instance.stepInput d) (Instance.stepInput d) s i) := by
  obtain ⟨i, i'⟩ := i
  obtain ⟨s, s'⟩ := s
  rcases hkeys with heq | ⟨arrivals, code, code', heq, heq'⟩
  · obtain rfl : i = i' := heq
    by_cases hevent : ∃ arrivals event, i = .inl (.event arrivals event)
    · obtain ⟨arrivals, event, rfl⟩ := hevent
      exact h.event (.inl rfl) hagree
    · exact h.buffers fun arrivals event hi => hevent ⟨arrivals, event, hi⟩
  · obtain rfl : i = .inl (.event arrivals (.keyboard code)) := heq
    obtain rfl : i' = .inl (.event arrivals (.keyboard code')) := heq'
    exact h.event (.inr ⟨code, code', rfl, rfl⟩) hagree

/-- What the two runs have in common. -/
structure SamePlay (d : Display) (s s' : Instance) : Prop where
  crashed : s'.crashed = s.crashed
  cells : s'.vm.board.board = s.vm.board.board
  turn : s'.vm.myTurn = s.vm.myTurn
  gameState : s'.vm.gameState = s.vm.gameState
  endGame : s'.vm.endGame = s.vm.endGame
  won : s'.vm.won = s.vm.won
  dragging : s'.vm.draggingPiece = s.vm.draggingPiece
  transmit : s'.vm.transmitQueue = s.vm.transmitQueue
  presses : ∀ cursor p x y, Presses d { ensureBoard d s'.vm with cursor := cursor } p x y ↔
    Presses d { ensureBoard d s.vm with cursor := cursor } p x y
  drops : ∀ cursor p x y, Drops d { s'.vm with cursor := cursor } p x y ↔
    Drops d { s.vm with cursor := cursor } p x y

/-- Twins differ in nothing that a player decides about. -/
theorem Twins.samePlay {s : Instance × Instance} (h : Twins s) : SamePlay d s.1 s.2 := by
  obtain ⟨hcrashed, htwin, -⟩ := h
  have hpresses : ∀ cursor p x y, Presses d { ensureBoard d s.2.vm with cursor := cursor } p x y ↔
      Presses d { ensureBoard d s.1.vm with cursor := cursor } p x y :=
    fun cursor p x y => (htwin.ensureBoard.withCursor cursor).presses_iff
  have hdrops : ∀ cursor p x y, Drops d { s.2.vm with cursor := cursor } p x y ↔
      Drops d { s.1.vm with cursor := cursor } p x y :=
    fun cursor p x y => (htwin.withCursor cursor).drops_iff
  have hsame := htwin.same
  generalize s.2.vm.screen = screen at hsame
  refine ⟨hcrashed, ?_, ?_, ?_, ?_, ?_, ?_, ?_, hpresses, hdrops⟩
  all_goals
    rw [hsame]
    rfl

/-- An instance in a game is a twin of itself with another flag of the animation. -/
theorem Twins.start {s : Instance} (hplay : s.vm.gameState = .playing) (animation : Bool) :
    Twins (s, { s with vm := { s.vm with animation := animation } }) :=
  ⟨rfl, ⟨rfl, fun _ => .refl _, fun _ => rfl⟩, .inl hplay⟩

/-- **The animation is cosmetic** as long as no frame makes it decide about the flag of a pawn:
from any instance in a game, on the same events and bytes, with keys of its own for each of the
two runs. -/
theorem animation_cosmetic {s : Instance} (hplay : s.vm.gameState = .playing) (animation : Bool)
    {inputs : List ((Action ⊕ UInt8) × (Action ⊕ UInt8))}
    (hkeys : ∀ i ∈ inputs, SameButKeys i.1 i.2)
    (hok : Along (FlagsAgree d) (pairStep (Instance.stepInput d) (Instance.stepInput d))
      (s, { s with vm := { s.vm with animation := animation } }) inputs)
    {reached : List ((Action ⊕ UInt8) × (Action ⊕ UInt8))} (hreached : reached <+: inputs) :
    SamePlay d (run (Instance.stepInput d) s (reached.map Prod.fst))
      (run (Instance.stepInput d) { s with vm := { s.vm with animation := animation } }
        (reached.map Prod.snd)) := by
  obtain ⟨rest, rfl⟩ := hreached
  have hreached := (Transition.along_append.mp hok).1.and_mem
    fun i hi => hkeys i (List.mem_append_left rest hi)
  have htwins := run_invariant_along Twins _
    (fun _ _ h hi => h.stepInput hi.2 hi.1) (Twins.start hplay animation) hreached
  rw [run_pairStep] at htwins
  exact htwins.samePlay

end Runs

/-- What a key does to the flag of the animation while the pawn is on its way. -/
theorem PawnAdvanced.key {d : Display} {animation : Bool} {s : Instance}
    (h : PawnAdvanced animation s) (code : UInt8) (hcode : code &&& 0x80 ≠ 0) :
    (s.stepInput d (.inl (.event 0 (.keyboard code)))).vm.animation =
      if code = 0xac then !animation else animation := by
  have hstep : s.stepInput d (.inl (.event 0 (.keyboard code))) = _ :=
    Instance.step_key h.alive h.playing h.created h.going 0 hcode
  rw [hstep, ← h.animated]

/-- The pawn is dragged with the animation on and off; while it is on its way, the second player
switches the animation on, and a frame polls the turn. -/
def cosmeticInputs : List ((Action ⊕ UInt8) × (Action ⊕ UInt8)) :=
  [(.inl (.event 0 (.mouse singleStep.press)), .inl (.event 0 (.mouse singleStep.press))),
    (.inl (.event 0 (.mouse singleStep.release)), .inl (.event 0 (.mouse singleStep.release))),
    (.inl (.event 0 (.keyboard 0x9e)), .inl (.event 0 (.keyboard 0xac)))] ++
    (feed yourTurn).map fun i => (i, i)

/-- The flags of the two players agree when the frame comes. -/
theorem along_cosmeticInputs {d : Display} {s s' : Instance}
    (hon : PawnAdvanced true (singleStep.dropped d s))
    (hoff : PawnAdvanced false (singleStep.dropped d s')) :
    Along (FlagsAgree d) (pairStep (Instance.stepInput d) (Instance.stepInput d)) (s, s')
      cosmeticInputs := by
  have hkeep := hon.key (d := d) 0x9e (by decide)
  have hswitch := hoff.key (d := d) 0xac (by decide)
  -- a byte that arrives and is read leaves the flag
  have hport : ∀ t : Instance, ((t.stepInput d (.inr yourTurn)).stepInput d
      (.inl (.spRead true))).vm.animation = t.vm.animation := by
    intro t
    have hread := ((t.stepInput d (.inr yourTurn)).stepInput_cases d
      (.inl (.spRead true))).resolve_left (by rintro ⟨arrivals, event, vm, heq, -⟩; cases heq)
    obtain ⟨transmit, receive, line, heq, -⟩ := hread
    rw [heq]
    rfl
  refine ⟨?_, ?_, ?_, ?_, ?_, ?atFrame, trivial⟩
  case atFrame =>
    refine flagsAgree_of_eq ?_
    exact ((hport _).trans hkeep).trans ((hport _).trans hswitch).symm
  all_goals
    rintro - - arrivals heq
    cases heq

/-- The pawn glides to its square for both players, though their flags have differed. -/
theorem animation_cosmetic_glide : SamePlay (Display.mode115 .blank)
    (run (Instance.stepInput (Display.mode115 .blank)) (pawnGame true)
      (cosmeticInputs.map Prod.fst))
    (run (Instance.stepInput (Display.mode115 .blank)) (pawnGame false)
      (cosmeticInputs.map Prod.snd)) := by
  refine @animation_cosmetic (Display.mode115 .blank) (pawnGame true) rfl false cosmeticInputs ?_ ?_
    cosmeticInputs List.prefix_rfl
  · intro i hi
    rcases List.mem_append.mp hi with hi | hi
    · simp only [List.mem_cons, List.not_mem_nil, or_false] at hi
      rcases hi with rfl | rfl | rfl
      · exact .inl rfl
      · exact .inl rfl
      · exact .inr ⟨0, 0x9e, 0xac, rfl, rfl⟩
    · obtain ⟨j, -, rfl⟩ := List.mem_map.mp hi
      exact .inl rfl
  · exact along_cosmeticInputs (pawnGame_new (Display.mode115 .blank) true).advanced
      (pawnGame_new (Display.mode115 .blank) false).advanced

/-- The second drag of the pawn is put back with the animation on, and is accepted with the
animation off. -/
theorem animation_cosmetic_fails : ¬ ∀ (s : Instance) (animation : Bool)
    (inputs : List ((Action ⊕ UInt8) × (Action ⊕ UInt8))), s.vm.gameState = .playing →
    (∀ i ∈ inputs, SameButKeys i.1 i.2) →
    SamePlay (Display.mode115 .blank)
      (run (Instance.stepInput (Display.mode115 .blank)) s (inputs.map Prod.fst))
      (run (Instance.stepInput (Display.mode115 .blank))
        { s with vm := { s.vm with animation := animation } } (inputs.map Prod.snd)) := by
  intro h
  have hsame := h (pawnGame true) false (pawnInputs.map fun i => (i, i)) rfl fun i hi => by
    obtain ⟨i, -, rfl⟩ := List.mem_map.mp hi
    exact .inl rfl
  have hfst : (pawnInputs.map fun i => (i, i)).map Prod.fst = pawnInputs := rfl
  have hsnd : (pawnInputs.map fun i => (i, i)).map Prod.snd = pawnInputs := rfl
  -- the two runs get the same inputs, keys included
  have hother : { pawnGame true with vm := { (pawnGame true).vm with animation := false } } =
      pawnGame false := rfl
  rw [hfst, hsnd, hother] at hsame
  have hon := (pawnGame_new (Display.mode115 .blank) true).myTurn_run
  have hoff := (pawnGame_new (Display.mode115 .blank) false).myTurn_run
  have hturn := hsame.turn
  rw [hoff, hon] at hturn
  exact Bool.false_ne_true hturn

end LCChess
