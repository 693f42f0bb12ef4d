import LCChess.Protocol.Token
import LCChess.Play.PawnFlag

/-!
# The moves of a pawn

A pawn that has moved since `initBoard` must not make a double step. What the press looks at
instead is `pawn_moved`, and so the two have to be brought together: a pawn that has left its
first cell is in motion or has its flag, as long as every frame that finds it in motion sets the
flag.

## Main definitions

* `Stationed`: a pawn that stands on its first cell
* `HasMoved`: the pawn has been off that cell in the course of a run
* `Vm.Tracked`: what the instance knows about it

## Main results

* `tracked_run`: a run whose frames record the pawn keeps track of it
* `pawn_moves`: the moves of a pawn
-/

namespace LCChess

open Transition (run Along)

/-- The pawn `p` stands on cell `c` alone, at rest and without its flag. -/
structure Stationed (vm : Vm) (c : ℤ) (p : PieceRef) : Prop where
  origin : IsCell (originCell vm)
  cell : IsCell c
  pawn : (vm.heap p).type.isPawn = true
  unflagged : (vm.heap p).pawnMoved = false
  rest : (vm.heap p).isMoving = false
  stands : ∀ i, IsCell i → (vm.board.board i = some p ↔ i = c)

/-- The pawn `p` of cell `c` has been off its cell in the course of the run. -/
def HasMoved (d : Display) (s₀ : Instance) (c : ℤ) (p : PieceRef)
    (inputs : List (Action ⊕ UInt8)) : Prop :=
  ∃ reached, reached <+: inputs ∧
    (ensureBoard d (run (Instance.stepInput d) s₀ reached).vm).board.board c ≠ some p

/-- The condition on a step: a frame that finds the pawn `p` on the board in motion without its
flag sets the flag. -/
def Recorded (d : Display) (p : PieceRef) (s : Instance) (i : Action ⊕ UInt8) : Prop :=
  s.crashed = false → s.vm.gameState = .playing →
    ∀ arrivals, i = .inl (.event arrivals .newFrame) →
    ∀ j, IsCell j → (ensureBoard d s.vm).board.board j = some p →
      ((ensureBoard d s.vm).heap p).Unrecorded →
      s.vm.animation = true ∧ ¬ ((ensureBoard d s.vm).heap p).Arrived

/-! ## The pawn and its flag -/

/-- Two records of a piece that agree in its type, its flag and its motion. -/
structure Piece.SameFlags (piece piece' : Piece) : Prop where
  type : piece'.type = piece.type
  pawnMoved : piece'.pawnMoved = piece.pawnMoved
  isMoving : piece'.isMoving = piece.isMoving

theorem Piece.SameFlags.refl (piece : Piece) : piece.SameFlags piece := ⟨rfl, rfl, rfl⟩

/-- A piece whose flags stay is written. -/
theorem Piece.SameFlags.update {heap : Heap} {q : PieceRef} {piece : Piece}
    (h : (heap q).SameFlags piece) (p : PieceRef) :
    (heap p).SameFlags (Function.update heap q piece p) := by
  rcases eq_or_ne p q with rfl | hne
  · rw [Function.update_self]
    exact h
  · rw [Function.update_of_ne hne]
    exact .refl _

/-- The pawn `p` of cell `c` has `moved` before, or is off its cell now. -/
def Vm.Left (vm : Vm) (c : ℤ) (p : PieceRef) (moved : Prop) : Prop :=
  moved ∨ vm.board.board c ≠ some p

/-- What the instance knows about the pawn `p` of cell `c`, which has `moved` or not. -/
structure Vm.Tracked (vm : Vm) (c : ℤ) (p : PieceRef) (moved : Prop) : Prop where
  ready : vm.boardCreated = true ∧ IsCell (originCell vm)
  pawn : (vm.heap p).type.isPawn = true
  stands : ¬ moved → ∀ i, IsCell i → (vm.board.board i = some p ↔ i = c)
  pressed : ¬ moved → vm.draggingPiece = some p → inicialCell vm = c
  rest : ¬ moved → (vm.heap p).pawnMoved = false ∧ (vm.heap p).isMoving = false
  motion : moved → ∀ i, IsCell i → vm.board.board i = some p →
    (vm.heap p).pawnMoved = true ∨ (vm.heap p).isMoving = true

/-- A received byte leaves an origin on the board. -/
theorem isCell_originCell_parseByte {d : Display} {vm vm' : Vm} {b : UInt8}
    (h : IsCell (originCell vm)) (hbyte : parseByte d b vm = some vm') :
    IsCell (originCell vm') := by
  unfold parseByte at hbyte
  split_ifs at hbyte
  · obtain rfl := Option.some.inj hbyte
    exact h
  · obtain rfl := Option.some.inj hbyte
    exact h
  · obtain rfl := Option.some.inj hbyte
    exact isCell_byteCell b
  · obtain ⟨q, gameState, won, -, -, rfl⟩ := receiveMove_cases hbyte
    exact h
  · obtain rfl := Option.some.inj hbyte
    exact h

namespace Vm.Tracked

variable {d : Display} {vm vm' : Vm} {c : ℤ} {p q : PieceRef} {moved : Prop} {x y : ℤ}

/-- The pawn is left alone, or is captured. -/
theorem keep (h : vm.Tracked c p moved) (hc : IsCell c)
    (hready : vm'.boardCreated = true ∧ IsCell (originCell vm'))
    (hcells : ∀ i, vm'.board.board i = some p → vm.board.board i = some p)
    (hflags : (vm.heap p).SameFlags (vm'.heap p))
    (hpressed : ¬ moved → vm'.draggingPiece = some p → inicialCell vm' = c) :
    vm'.Tracked c p (vm'.Left c p moved) := by
  obtain ⟨htype, hflag, hmoving⟩ := hflags
  refine ⟨hready, htype ▸ h.pawn, fun hstay i hi => ?_, fun hstay hdrag => ?_, fun hstay => ?_,
    fun hleft i hi hp => ?_⟩
  · obtain ⟨hunmoved, hcell⟩ := not_or.mp hstay
    constructor
    · exact fun hp => (h.stands hunmoved i hi).mp (hcells i hp)
    · rintro rfl
      exact not_not.mp hcell
  · exact hpressed (not_or.mp hstay).1 hdrag
  · rw [hflag, hmoving]
    exact h.rest (not_or.mp hstay).1
  · rw [hflag, hmoving]
    by_cases hmoved : moved
    · exact h.motion hmoved i hi (hcells i hp)
    · -- a pawn that has not moved can only be on its cell
      obtain rfl := (h.stands hmoved i hi).mp (hcells i hp)
      exact absurd hp (hleft.resolve_left hmoved)

/-- The pawn itself is moved. -/
theorem move (h : vm.Tracked c p moved)
    (hready : vm'.boardCreated = true ∧ IsCell (originCell vm'))
    (htype : (vm'.heap p).type = (vm.heap p).type)
    (hmoving : (vm'.heap p).isMoving = true)
    (hcell : ¬ moved → vm'.board.board c ≠ some p) :
    vm'.Tracked c p (vm'.Left c p moved) := by
  have hleft : vm'.Left c p moved := or_iff_not_imp_left.mpr hcell
  exact ⟨hready, htype ▸ h.pawn, fun hstay => absurd hleft hstay, fun hstay => absurd hleft hstay,
    fun hstay => absurd hleft hstay, fun _ _ _ _ => .inr hmoving⟩

/-- The end of the game leaves the pawn alone. -/
theorem leaveGame (h : vm.Tracked c p moved) : (leaveGame vm).Tracked c p moved := by
  obtain ⟨gameState, won, hleave⟩ := leaveGame_frame vm
  rw [hleave]
  exact ⟨h.ready, h.pawn, h.stands, h.pressed, h.rest, h.motion⟩

theorem withCursor (h : vm.Tracked c p moved) (cursor : Cursor) :
    Vm.Tracked { vm with cursor := cursor } c p moved :=
  ⟨h.ready, h.pawn, h.stands, h.pressed, h.rest, h.motion⟩

/-- The pawn is where it was. -/
theorem settle (h : vm.Tracked c p moved) (hc : IsCell c) :
    vm.Tracked c p (vm.Left c p moved) :=
  h.keep hc h.ready (fun _ hp => hp) (.refl _) h.pressed

/-! ### Mouse events -/

/-- A press takes the pawn from its cell, if it has not moved. -/
theorem press (h : vm.Tracked c p moved) (hc : IsCell c) (hpress : Presses d vm q x y) :
    (press d vm q x y).Tracked c p ((LCChess.press d vm q x y).Left c p moved) := by
  have hflags : (vm.heap q).SameFlags (changePiecePriority (vm.heap q) true) := ⟨rfl, rfl, rfl⟩
  refine h.keep hc h.ready (fun _ hp => hp) (hflags.update p) fun hunmoved hdrag => ?_
  obtain rfl : q = p := Option.some.inj hdrag
  obtain ⟨hy, hy', hx, hx'⟩ := hpress.onBoard
  -- the press records the square that it found the pawn on
  have hcell := (h.stands hunmoved _ (isCell_of_onBoard hpress.onBoard)).mp hpress.cell
  change ((u32 y * 8 + u32 x) % 4294967296 : ℕ) = c
  have hrow := u32_of_nonneg hy (by omega)
  have hcol := u32_of_nonneg hx (by omega)
  omega

/-- The dragged piece follows the cursor. -/
theorem follow (h : vm.Tracked c p moved) : (follow vm q).Tracked c p moved := by
  have hflags : (vm.heap q).SameFlags (setPiecePosition (vm.heap q) (vm.cursor.x.toNat - 29)
      (vm.cursor.y.toNat - 29)) := ⟨rfl, rfl, rfl⟩
  obtain ⟨htype, hflag, hmoving⟩ := hflags.update p
  refine ⟨h.ready, (congrArg _ htype).trans h.pawn, h.stands, h.pressed, fun hunmoved => ?_,
    fun hmoved i hi hp => ?_⟩
  · exact ⟨hflag.trans (h.rest hunmoved).1, hmoving.trans (h.rest hunmoved).2⟩
  · exact (h.motion hmoved i hi hp).imp hflag.trans hmoving.trans

/-- A release moves the pawn, captures it, or leaves it alone. -/
theorem release (h : vm.Tracked c p moved) (hc : IsCell c) (hdrag : vm.draggingPiece = some q) :
    (release d vm q).Tracked c p ((LCChess.release d vm q).Left c p moved) := by
  -- a release drops the piece on a square or puts it back
  by_cases hdrops : ∃ x y, Drops d vm q x y
  · obtain ⟨x, y, hdrops⟩ := hdrops
    rw [release_move hdrops]
    generalize sendMove vm x y = transmit
    generalize kingIn vm (y * 8 + x) = king
    generalize drawBoard d.toGeometry vm.board.memBoard = marks
    rcases eq_or_ne p q with rfl | hne
    · refine h.move h.ready ?_ ?_ fun hunmoved hcell => ?_
      · dsimp only
        rw [Function.update_self, type_movePiece, putBackPiece, type_setPiecePosition,
          type_changePiecePriority]
      · dsimp only
        rw [Function.update_self]
        rfl
      · -- the pawn cannot drop on the cell that it stands on
        have horigin := h.pressed hunmoved hdrag
        have hstands := (h.stands hunmoved c hc).mpr rfl
        have hnew : y * 8 + x ≠ c := by
          rintro rfl
          have henemy := hdrops.enemy p hstands
          unfold sameTeam at henemy
          cases hwhite : (vm.heap p).type.isWhite <;> rw [hwhite] at henemy <;> cases henemy
        dsimp only at hcell
        rw [moveCells, horigin, Function.update_of_ne hnew.symm, Function.update_self] at hcell
        cases hcell
    -- another piece is moved: the pawn stands where it was, or is taken
    · refine h.keep hc h.ready (fun i hi => ?_) ?_ fun _ hnone => by cases hnone
      · dsimp only [moveCells] at hi
        rcases eq_or_ne i (y * 8 + x) with rfl | hn
        · rw [Function.update_self] at hi
          exact absurd (Option.some.inj hi).symm hne
        · rw [Function.update_of_ne hn] at hi
          rcases eq_or_ne i (inicialCell vm) with rfl | ho
          · rw [Function.update_self] at hi
            cases hi
          · rwa [Function.update_of_ne ho] at hi
      · dsimp only
        rw [Function.update_of_ne hne]
        exact .refl _
  · rw [release_putBack fun x y hxy => hdrops ⟨x, y, hxy⟩]
    have hback : ∀ (piece : Piece) (col row : ℤ),
        piece.SameFlags (setPiecePosition (changePiecePriority piece false) col row) :=
      fun _ _ _ => ⟨rfl, rfl, rfl⟩
    have hflags : (vm.heap q).SameFlags (putBackPiece d vm q) := hback _ _ _
    exact h.keep hc h.ready (fun _ hi => hi) (hflags.update p) fun _ hnone => by cases hnone

/-- A `MOUSE` event. -/
theorem playingMouse (h : vm.Tracked c p moved) (hc : IsCell c)
    (hbuttons : vm.cursor.pressed = true → vm.cursor.released = false) :
    (playingMouse d vm).Tracked c p ((LCChess.playingMouse d vm).Left c p moved) := by
  rcases playingMouse_cases d hbuttons with ⟨-, heq⟩ | ⟨-, q, x, y, hpress, heq⟩ |
    ⟨q, -, -, heq⟩ | ⟨q, hdrag, -, heq⟩
  · rw [heq]
    exact h.settle hc
  · rw [heq]
    exact h.press hc hpress
  · rw [heq]
    exact h.follow.settle hc
  · rw [heq]
    exact h.follow.release hc hdrag

/-! ### Frames -/

/-- A frame that records the pawn keeps track of it. -/
theorem playingFrame (h : vm.Tracked c p moved)
    (hrecorded : ∀ j, IsCell j → vm.board.board j = some p → (vm.heap p).Unrecorded →
      vm.animation = true ∧ ¬ (vm.heap p).Arrived) :
    (playingFrame d vm).Tracked c p moved := by
  obtain ⟨memPieces, videoMemBuffer, hframe⟩ := playingFrame_frame d vm
  rw [hframe]
  refine ⟨h.ready, ?_, h.stands, h.pressed, fun hunmoved => ?_, fun hmoved i hi hp => ?_⟩
  · dsimp only
    rw [type_updateBoard]
    exact h.pawn
  -- a piece at rest is not touched by a frame
  · refine updateBoard_keeps (fun piece => piece.pawnMoved = false ∧ piece.isMoving = false) ?_
      (h.rest hunmoved) _
    rintro piece ⟨hflag, hrest⟩
    rcases piece.updated_cases vm.animation with ⟨-, heq, -⟩ | ⟨hmoving, -⟩ | ⟨hmoving, -⟩
    · rw [heq]
      exact ⟨hflag, hrest⟩
    · exact absurd (hrest.symm.trans hmoving) Bool.false_ne_true
    · exact absurd (hrest.symm.trans hmoving) Bool.false_ne_true
  · left
    dsimp only
    cases hflag : (vm.heap p).pawnMoved with
    | true => exact pawnMoved_updateBoard _ hflag _
    | false =>
      -- a pawn that has moved and has no flag is still on its way: here the condition is used
      have hmoving := (h.motion hmoved i hi hp).resolve_left (by simp [hflag])
      have hun : (vm.heap p).Unrecorded := ⟨h.pawn, hflag, hmoving⟩
      obtain ⟨hon, hfar⟩ := hrecorded i hi hp hun
      rw [hon]
      exact pawnMoved_updateBoard_on hi hp hun hfar _

/-- A received byte moves the pawn, captures it, or leaves it alone. -/
theorem parseByte (h : vm.Tracked c p moved) (hc : IsCell c) {b : UInt8}
    (hbyte : parseByte d b vm = some vm') : vm'.Tracked c p (vm'.Left c p moved) := by
  -- bytes outside a message may come between, so the origin is kept along
  have hready : vm'.boardCreated = true ∧ IsCell (originCell vm') :=
    ⟨(parseByte_frame hbyte).2.2.2.1.trans h.ready.1, isCell_originCell_parseByte h.ready.2 hbyte⟩
  obtain rfl | rfl | rfl | ⟨move, byteOfMove, rfl⟩ | ⟨q, gameState, won, -, hq, -, rfl⟩ :=
    parseByte_cases hbyte
  · exact h.keep hc hready (fun _ hi => hi) (.refl _) h.pressed
  · exact h.keep hc hready (fun _ hi => hi) (.refl _) h.pressed
  · exact h.settle hc
  · exact h.keep hc hready (fun _ hi => hi) (.refl _) h.pressed
  · rcases eq_or_ne p q with rfl | hne
    · refine h.move hready ?_ ?_ fun hunmoved hcell => ?_
      · change (Function.update vm.heap p _ p).type = _
        rw [Function.update_self, type_movePiece]
      · change (Function.update vm.heap p _ p).isMoving = _
        rw [Function.update_self]
        rfl
      · -- a message that moves the pawn empties its cell
        obtain rfl := (h.stands hunmoved _ h.ready.2).mp hq
        change Function.update (Function.update vm.board.board _ (some p)) (originCell vm) none
          (originCell vm) = _ at hcell
        rw [Function.update_self] at hcell
        cases hcell
    · refine h.keep hc hready (fun i hi => ?_) ?_ h.pressed
      · obtain ⟨-, hpq⟩ | ⟨-, hi⟩ := moveTo_cases hi
        · exact absurd hpq hne
        · exact hi
      · change (vm.heap p).SameFlags (Function.update vm.heap q _ p)
        rw [Function.update_of_ne hne]
        exact .refl _

/-- **An event of the game** keeps track of the pawn, if it records it. -/
theorem event (h : (ensureBoard d vm).Tracked c p moved) (hc : IsCell c)
    (hplay : vm.gameState = .playing) {arrivals : ℕ} {event : Event}
    (hrecorded : event = .newFrame → ∀ j, IsCell j →
      (ensureBoard d vm).board.board j = some p → ((ensureBoard d vm).heap p).Unrecorded →
      vm.animation = true ∧ ¬ ((ensureBoard d vm).heap p).Arrived)
    (hev : handleEvent d arrivals event vm = some vm') :
    vm'.Tracked c p (vm'.Left c p moved) := by
  cases event with
  | newFrame =>
    rw [handleEvent_frame hplay] at hev
    obtain ⟨w, hbyte, rfl⟩ := Option.map_eq_some_iff.mp hev
    obtain ⟨hanimation, hboard, hheap, -⟩ := leaveGame_ensureBoard_animation d vm
    have hframe := h.leaveGame.playingFrame (d := d) (by
      rw [hboard, hheap, hanimation]
      exact hrecorded rfl)
    have hread : Vm.Tracked { LCChess.playingFrame d (LCChess.leaveGame (ensureBoard d vm)) with
        receiveQueue := (readFromQueue (LCChess.playingFrame d
          (LCChess.leaveGame (ensureBoard d vm))).receiveQueue).2 } c p moved :=
      ⟨hframe.ready, hframe.pawn, hframe.stands, hframe.pressed, hframe.rest, hframe.motion⟩
    obtain ⟨hready, hpawn, hstands, hpressed, hrest, hmotion⟩ := hread.parseByte hc hbyte
    exact ⟨hready, hpawn, hstands, hpressed, hrest, hmotion⟩
  | keyboard scanCode =>
    obtain rfl := Option.some.inj ((handleEvent_keyboard hplay scanCode).symm.trans hev)
    have hleave := h.leaveGame
    unfold playingKeyboard
    split_ifs
    · exact hleave.keep hc hleave.ready (fun _ hi => hi) (.refl _) hleave.pressed
    · exact hleave.settle hc
    · exact hleave.settle hc
  | mouse packet =>
    obtain rfl := Option.some.inj ((handleEvent_mouse hplay packet).symm.trans hev)
    refine (h.withCursor _).leaveGame.playingMouse hc ?_
    rw [cursor_leaveGame]
    simp +contextual

end Vm.Tracked

/-! ## Runs -/

section Runs

variable {d : Display} {s₀ s : Instance} {c : ℤ} {p : PieceRef}
  {inputs : List (Action ⊕ UInt8)}

/-- The pawn has moved if it had before the last input, or is off its cell behind it. -/
theorem hasMoved_snoc (i : Action ⊕ UInt8) : HasMoved d s₀ c p (inputs ++ [i]) ↔
    (ensureBoard d (run (Instance.stepInput d) s₀ (inputs ++ [i])).vm).Left c p
      (HasMoved d s₀ c p inputs) := by
  constructor
  · rintro ⟨reached, hreached, hcell⟩
    rcases List.prefix_concat_iff.mp hreached with rfl | hreached
    · exact .inr hcell
    · exact .inl ⟨reached, hreached, hcell⟩
  · rintro (⟨reached, hreached, hcell⟩ | hcell)
    · exact ⟨reached, hreached.trans (List.prefix_append _ _), hcell⟩
    · exact ⟨inputs ++ [i], List.prefix_rfl, hcell⟩

/-- A step that records the pawn keeps track of it. -/
theorem Vm.Tracked.stepInput {moved : Prop} (h : (ensureBoard d s.vm).Tracked c p moved)
    (hc : IsCell c) (hbegun : Begun s.vm) {i : Action ⊕ UInt8} (hrecorded : Recorded d p s i) :
    (ensureBoard d (s.stepInput d i).vm).Tracked c p
      ((ensureBoard d (s.stepInput d i).vm).Left c p moved) := by
  have hsame : ∀ vm', SameGame s.vm vm' →
      (ensureBoard d vm').Tracked c p ((ensureBoard d vm').Left c p moved) := by
    intro vm' hgame
    obtain ⟨hboard, hheap⟩ := hgame.ensureBoard (d := d)
    obtain ⟨board, heap, redraw, hframe⟩ := ensureBoard_frame d s.vm
    obtain ⟨board', heap', redraw', hframe'⟩ := ensureBoard_frame d vm'
    refine h.keep hc ⟨boardCreated_ensureBoard d vm', ?_⟩ (fun _ hi => ?_) ?_
      fun hunmoved hdrag => ?_
    · have horigin := h.ready.2
      rw [hframe] at horigin
      rw [hframe', originCell, hgame.move]
      exact horigin
    · rwa [hboard] at hi
    · rw [hheap]
      exact .refl _
    · have hpressed := h.pressed hunmoved
      rw [inicialCell_ensureBoard] at hpressed ⊢
      rw [hframe] at hpressed
      rw [hframe'] at hdrag
      rw [inicialCell, hgame.inicialRow, hgame.inicialCol]
      exact hpressed (hgame.dragging.symm.trans hdrag)
  rcases s.stepInput_cases d i with ⟨arrivals, event, vm', rfl, halive, hev, hstep⟩ |
    ⟨transmit, receive, line, hstep, -, -⟩
  · rw [hstep]
    rcases hbegun with hplay | hexit
    · have hevent := h.event hc hplay (fun hframe => hrecorded halive hplay arrivals (by
        rw [hframe])) hev
      rw [ensureBoard_of_created hevent.ready.1]
      exact hevent
    · rw [handleEvent_over hexit] at hev
      obtain rfl := Option.some.inj hev
      apply hsame _
      cases event <;> exact ⟨rfl, rfl, rfl, rfl, rfl, rfl, rfl, rfl, rfl, rfl⟩
  · rw [hstep]
    exact hsame _ ⟨rfl, rfl, rfl, rfl, rfl, rfl, rfl, rfl, rfl, rfl⟩

/-- **A run that records the pawn keeps track of it.** -/
theorem tracked_run (hbegun : Begun s₀.vm) (hidle : s₀.vm.draggingPiece = none)
    (hfirst : Stationed (ensureBoard d s₀.vm) c p)
    (hrecorded : Along (Recorded d p) (Instance.stepInput d) s₀ inputs) :
    (ensureBoard d (run (Instance.stepInput d) s₀ inputs).vm).Tracked c p
      (HasMoved d s₀ c p inputs) := by
  -- on the last input: whether the pawn has moved depends on the states before it
  induction inputs using List.reverseRecOn with
  | nil =>
    have hunmoved : ¬ HasMoved d s₀ c p [] := by
      rintro ⟨reached, hreached, hcell⟩
      obtain rfl := List.prefix_nil.mp hreached
      exact hcell ((hfirst.stands c hfirst.cell).mpr rfl)
    refine ⟨⟨boardCreated_ensureBoard d _, hfirst.origin⟩, hfirst.pawn, fun _ => hfirst.stands,
      fun _ hdrag => ?_, fun _ => ⟨hfirst.unflagged, hfirst.rest⟩,
      fun hmoved => absurd hmoved hunmoved⟩
    obtain ⟨board, heap, redraw, hframe⟩ := ensureBoard_frame d s₀.vm
    rw [Transition.run_nil, hframe] at hdrag
    exact absurd (hidle.symm.trans hdrag) (by simp)
  | append_singleton inputs i ih =>
    obtain ⟨hbefore, hlast, -⟩ := Transition.along_append.mp hrecorded
    have hstep := (ih hbefore).stepInput hfirst.cell (begun_run hbegun inputs) hlast
    rw [← Transition.run_snoc (Instance.stepInput d)] at hstep
    rw [propext (hasMoved_snoc i)]
    exact hstep

end Runs

/-! ## The moves -/

/-- A white pawn takes the black king: the one capture that `possiblePosition` does not offer. -/
def TakesBlackKing (pos : Position) (t : PieceType) (x y x' y' : ℤ) : Prop :=
  t = .wPawn ∧ (x' = x + 1 ∨ x' = x - 1) ∧ y' = y - 1 ∧ pos x' y' = some .bKing

/-- That capture is a move of the pawn. -/
theorem takesBlackKing_iff (pos : Position) (t : PieceType) (moved : Prop) (x y x' y' : ℤ) :
    TakesBlackKing pos t x y x' y' ↔
      PawnMove pos t moved x y x' y' ∧ t = .wPawn ∧ pos x' y' = some .bKing := by
  constructor
  · rintro ⟨rfl, hcol, hrow, hking⟩
    exact ⟨.inr (.inr ⟨hcol, hrow, .bKing, hking, by decide⟩), rfl, hking⟩
  · rintro ⟨hmove, rfl, hking⟩
    rcases hmove with ⟨-, -, hnone⟩ | ⟨-, -, -, hnone, -⟩ | ⟨hcol, hrow, -⟩
    · exact absurd (hking.symm.trans hnone) (by simp)
    · exact absurd (hking.symm.trans hnone) (by simp)
    · exact ⟨rfl, hcol, hrow, hking⟩

section Moves

variable {images : Images} {s₀ : Instance} {c : ℤ} {p : PieceRef} {x y : ℤ}

/-- The flag of a tracked pawn on the board says whether it has moved, unless it is on its way
without its flag. -/
theorem Vm.Tracked.pawnMoved_iff {vm : Vm} {moved : Prop} (h : vm.Tracked c p moved) {i : ℤ}
    (hi : IsCell i) (hp : vm.board.board i = some p) (hun : ¬ (vm.heap p).Unrecorded) :
    (vm.heap p).pawnMoved = true ↔ moved := by
  constructor
  · intro hflag
    by_contra hunmoved
    exact Bool.false_ne_true ((h.rest hunmoved).1.symm.trans hflag)
  · intro hmoved
    rcases h.motion hmoved i hi hp with hflag | hmoving
    · exact hflag
    · by_contra hflag
      exact hun ⟨h.pawn, by simpa using hflag, hmoving⟩

/-- **The moves of a pawn**, in a game in which it has stood on cell `c` at first. If every frame
that has found the pawn in motion has set its flag, a drag is accepted exactly on the squares that
are pseudo-legal, unless a white pawn takes the black king. Both colors move by mirror-image
rules. -/
theorem pawn_moves (hlaid : Laid s₀.vm)
    (hfirst : Stationed (ensureBoard (Display.mode115 images) s₀.vm) c p)
    (before : List (Action ⊕ UInt8))
    (hrecorded : Along (Recorded (Display.mode115 images) p)
      (Instance.stepInput (Display.mode115 images)) s₀ before)
    {g : Gesture}
    (h : g.Lifts (Display.mode115 images)
      (run (Instance.stepInput (Display.mode115 images)) s₀ before) p x y) :
    let d := Display.mode115 images
    let s := run (Instance.stepInput d) s₀ before
    let vm := ensureBoard d s.vm
    let vm' := (g.dropped d s).vm
    let pos := squares vm.board.board vm.heap
    let type := (vm.heap p).type
    let moved := HasMoved d s₀ c p before
    let move := OnBoard (g.col d s) (g.row d s) ∧
      PawnMove pos type moved x y (g.col d s) (g.row d s)
    ¬ (vm.heap p).Unrecorded →
      ((Moved vm vm' p (y * 8 + x) (g.row d s * 8 + g.col d s) ↔ move) ∧
        (Kept vm vm' ↔ ¬ move) ↔ ¬ TakesBlackKing pos type x y (g.col d s) (g.row d s)) ∧
      (PawnMove (mirror pos) type.swap moved x (7 - y) (g.col d s) (7 - g.row d s) ↔
        PawnMove pos type moved x y (g.col d s) (g.row d s)) := by
  intro d s vm vm' pos type moved move hun
  refine ⟨?_, pawnMove_mirror pos type moved x y _ _⟩
  obtain ⟨hsteady, herased⟩ := @Laid.run images s₀ hlaid before
  obtain ⟨hmoved, hkept⟩ := h.drop (h.endGame hsteady) herased
  have htracked : vm.Tracked c p moved :=
    tracked_run (.inl hlaid.playing) hlaid.idle hfirst hrecorded
  have hflag := htracked.pawnMoved_iff (isCell_of_onBoard h.presses.onBoard) h.presses.cell hun
  have htakes := takesBlackKing_iff pos type moved x y (g.col d s) (g.row d s)
  have hplayable : Playable vm p x y (g.col d s) (g.row d s) ↔
      move ∧ ¬ TakesBlackKing pos type x y (g.col d s) (g.row d s) := by
    -- what the press looks at is the flag, which says whether the pawn has moved
    have hlegal : LegalMove pos type ((vm.heap p).pawnMoved = true) x y (g.col d s) (g.row d s) ↔
        PawnMove pos type moved x y (g.col d s) (g.row d s) := by
      rw [LegalMove, if_pos htracked.pawn, propext hflag]
    rw [htakes, Playable, hlegal]
    constructor
    · rintro ⟨hon, hmove, hking⟩
      exact ⟨⟨hon, hmove⟩, fun htake => hking htake.2⟩
    · rintro ⟨⟨hon, hmove⟩, htake⟩
      exact ⟨hon, hmove, fun hking => htake ⟨hmove, hking⟩⟩
  rw [hplayable] at hmoved hkept
  constructor
  · rintro ⟨hiff, -⟩ htake
    -- the capture is a move, but the pawn is put back
    have hon : OnBoard (g.col d s) (g.row d s) := by
      by_contra hoff
      exact absurd (htake.2.2.2.symm.trans (if_neg hoff)) (by simp)
    have hmade := hiff.mpr ⟨hon, (htakes.mp htake).1⟩
    exact hmade.not_kept (hkept fun hplay => hplay.2 htake)
  · intro hnot
    exact moved_iff_and_kept_iff (fun hmove => hmoved ⟨hmove, hnot⟩)
      fun hmove => hkept fun hplay => hmove hplay.1

/-! ### A pawn that moves twice -/

/-- In a new game the pawn of square `(4, 6)` stands there. -/
theorem Fresh.stationed {d : Display} {vm : Vm} (h : Fresh d vm) :
    Stationed (ensureBoard d vm) 52 28 := by
  obtain ⟨hcells, hpieces⟩ := h.pieces
  obtain ⟨piece, hpiece⟩ := hpieces 28 (by decide)
  obtain ⟨board, heap, redraw, hframe⟩ := ensureBoard_frame d vm
  have hcell : (ensureBoard d vm).board.board 52 = some 28 := (hcells 52 (by decide)).trans rfl
  refine ⟨?_, by decide, ?_, ?_, ?_, fun i hi => ⟨fun hp => ?_, ?_⟩⟩
  · rw [hframe, originCell, h.move]
    decide
  · rw [hpiece]
    rfl
  · rw [hpiece]
    rfl
  · rw [hpiece]
    rfl
  · obtain ⟨hx, hy⟩ := home_of_initialCells hi ((hcells i hi).symm.trans hp)
    have hhome : home 28 = (4, 6) := rfl
    rw [hhome] at hx hy
    omega
  · rintro rfl
    exact hcell

/-- The creation of the board does not begin the game. -/
theorem Fresh.opened {d : Display} {vm : Vm} (h : Fresh d vm) : Fresh d (ensureBoard d vm) := by
  have hboard : (ensureBoard d vm).boardCreated = false ∨
      ∃ vm₀ : Vm, vm₀.boardCreated = false ∧ ensureBoard d vm = ensureBoard d vm₀ := by
    rcases h.board with h₀ | ⟨vm₀, h₀, heq⟩
    · exact .inr ⟨vm, h₀, rfl⟩
    · refine .inr ⟨vm₀, h₀, ?_⟩
      rw [heq, ensureBoard_of_created (boardCreated_ensureBoard d vm₀)]
  obtain ⟨board, heap, redraw, hframe⟩ := ensureBoard_frame d vm
  rw [hframe] at hboard ⊢
  exact ⟨h.endGame, h.byteOfMove, h.move, h.dragging, h.transmit, h.receive, h.transmit_nil,
    h.receive_nil, h.line_nil, hboard⟩

variable {animation : Bool}

/-- Behind its single step the pawn has moved. -/
theorem PawnGame.hasMoved (before : List (Action ⊕ UInt8))
    (h : PawnGame (Display.mode115 images) animation
      (run (Instance.stepInput (Display.mode115 images)) s₀ before)) :
    HasMoved (Display.mode115 images) s₀ 52 28 (before ++ singleInputs) := by
  refine ⟨before ++ [.inl (.event 0 (.mouse singleStep.press)),
    .inl (.event 0 (.mouse singleStep.release))], ?_, ?_⟩
  · exact List.prefix_append_right_inj before |>.mpr (List.prefix_append _ _)
  · have hadvanced := h.advanced
    rw [Transition.run_append]
    change (ensureBoard _ (singleStep.dropped (Display.mode115 images) _).vm).board.board 52 ≠ _
    rw [ensureBoard_of_created hadvanced.created, hadvanced.cells.1]
    exact fun hnone => by cases hnone

/-- A double step is no move of a pawn that has moved. -/
theorem not_doubleStep {pos : Position} {moved : Prop} (hmoved : moved) :
    ¬ PawnMove pos .wPawn moved 4 5 4 3 := by
  rintro (⟨-, hrow, -⟩ | ⟨-, -, -, -, hunmoved⟩ | ⟨-, hrow, -⟩)
  · exact absurd hrow (by decide)
  · exact hunmoved hmoved
  · exact absurd hrow (by decide)

/-- With the animation on, the frame of the single step records the pawn. -/
theorem PawnGame.recorded (h : PawnGame (Display.mode115 images) true s₀) :
    Along (Recorded (Display.mode115 images) 28) (Instance.stepInput (Display.mode115 images)) s₀
      singleInputs := by
  have hadvanced := h.advanced
  obtain ⟨w, queue, hw, hqueued, -⟩ := run_feed_yourTurn (d := Display.mode115 images)
    hadvanced.alive hadvanced.playing hadvanced.created hadvanced.going hadvanced.receive
    hadvanced.receive_nil hadvanced.line_nil
  refine ⟨?_, ?_, ?_, ?_, ?_, trivial⟩
  -- the mouse events and the received byte are no frames
  iterate 4
    rintro - - arrivals heq
    cases heq
  · change Recorded _ _ (((singleStep.dropped (Display.mode115 images) s₀).stepInput _ _).stepInput
      _ _) _
    rw [hqueued]
    have hcreated : w.boardCreated = true := by
      rw [hw]
      exact hadvanced.created
    have hheap : w.heap = (singleStep.dropped (Display.mode115 images) s₀).vm.heap := by rw [hw]
    rintro - - arrivals - j hj hp hun
    dsimp only
    rw [ensureBoard_of_created hcreated, hheap]
    refine ⟨?_, hadvanced.far⟩
    rw [hw]
    exact hadvanced.animated

/-- With the animation on, the pawn of a new game does not make a double step behind its single
step. -/
theorem pawn_moves_twice : Kept
    (ensureBoard (Display.mode115 .blank) (run (Instance.stepInput (Display.mode115 .blank))
      (pawnGame true) singleInputs).vm)
    (doubleStep.dropped (Display.mode115 .blank) (run (Instance.stepInput (Display.mode115 .blank))
      (pawnGame true) singleInputs)).vm := by
  have hgame := pawnGame_new (Display.mode115 .blank) true
  have hlaid : Laid (pawnGame true).vm := ⟨rfl, rfl, rfl, fun h => absurd h (by decide)⟩
  have hreturned := hgame.returned
  have hhas : HasMoved (Display.mode115 .blank) (pawnGame true) 52 28 singleInputs :=
    PawnGame.hasMoved [] hgame
  have hmoves := pawn_moves hlaid hgame.stationed singleInputs hgame.recorded hreturned.lifts
  dsimp only at hmoves
  generalize run (Instance.stepInput (Display.mode115 .blank)) (pawnGame true) singleInputs = s
    at hreturned hmoves ⊢
  obtain ⟨hcol, hrow⟩ := @PawnReturned.square .blank true s hreturned
  rw [hcol, hrow, ensureBoard_of_created hreturned.created, hreturned.type] at hmoves
  rw [ensureBoard_of_created hreturned.created]
  have hflag : ¬ (s.vm.heap 28).Unrecorded :=
    fun hun => Bool.false_ne_true (hun.unflagged.symm.trans hreturned.flag)
  refine ((hmoves hflag).1.mpr fun htake => ?_).2.mpr fun hmove => ?_
  · exact absurd htake.2.1 (by decide)
  · exact not_doubleStep hhas hmove.2

/-- The player has switched the animation off in a new game. -/
theorem pawnGame_switched (images : Images) :
    PawnGame (Display.mode115 images) false
      (run (Instance.stepInput (Display.mode115 images)) (pawnGame true)
        [.inl (.event 0 (.keyboard 0xac))]) := by
  have hend : (ensureBoard (Display.mode115 images) (pawnGame true).vm).endGame = false := by
    obtain ⟨board, heap, redraw, hframe⟩ :=
      ensureBoard_frame (Display.mode115 images) (pawnGame true).vm
    rw [hframe]
    rfl
  have hkey : ∀ w : Vm, playingKeyboard w 0xac = { w with animation := !w.animation } :=
    fun w => by rw [playingKeyboard, if_pos (by decide), if_pos rfl]
  have hevent := @handleEvent_keyboard (Display.mode115 images) 0 (pawnGame true).vm rfl 0xac
  rw [leaveGame_of_endGame hend, hkey] at hevent
  -- the board of the instance is the one that is created with the animation off
  have hboard : ({ ensureBoard (Display.mode115 images) (pawnGame true).vm with
      animation := !(ensureBoard (Display.mode115 images) (pawnGame true).vm).animation } : Vm) =
      ensureBoard (Display.mode115 images) (pawnGame false).vm := by
    have hcreated : ∀ animation, (pawnGame animation).vm.boardCreated = false := fun _ => rfl
    simp only [ensureBoard, hcreated, Bool.false_eq_true, if_false]
    rfl
  have hstep := Instance.step_event (s := pawnGame true) rfl hevent
  rw [hboard] at hstep
  have hrun : run (Instance.stepInput (Display.mode115 images)) (pawnGame true)
      [.inl (.event 0 (.keyboard 0xac))] =
      { pawnGame true with vm := ensureBoard (Display.mode115 images) (pawnGame false).vm } := hstep
  rw [hrun]
  have hgame := pawnGame_new (Display.mode115 images) false
  obtain ⟨board, heap, redraw, hframe⟩ :=
    ensureBoard_frame (Display.mode115 images) (pawnGame false).vm
  refine { toNewGame := { toFresh := hgame.toFresh.opened, playing := ?_ }, alive := rfl
           white := ?_, turn := ?_, cursor := ?_, animated := ?_ }
  all_goals
    dsimp only
    rw [hframe]
    rfl

/-- With the animation off the pawn makes a double step behind its single step. -/
theorem pawn_moves_fails : ¬ ∀ (s₀ : Instance) (c : ℤ) (p : PieceRef)
    (before : List (Action ⊕ UInt8)) (g : Gesture) (x y : ℤ),
    let d := Display.mode115 .blank
    let s := run (Instance.stepInput d) s₀ before
    let vm := ensureBoard d s.vm
    let vm' := (g.dropped d s).vm
    let move := OnBoard (g.col d s) (g.row d s) ∧
      PawnMove (squares vm.board.board vm.heap) (vm.heap p).type (HasMoved d s₀ c p before) x y
        (g.col d s) (g.row d s)
    Laid s₀.vm → Stationed (ensureBoard d s₀.vm) c p → g.Lifts d s p x y →
      (Moved vm vm' p (y * 8 + x) (g.row d s * 8 + g.col d s) ↔ move) ∧
        (Kept vm vm' ↔ ¬ move) := by
  intro h
  have hlaid : Laid (pawnGame true).vm := ⟨rfl, rfl, rfl, fun h => absurd h (by decide)⟩
  have hgame := pawnGame_switched .blank
  have hreturned := hgame.returned
  have hmoved := (hreturned.doubled hgame.erased).2 rfl
  have hhas := PawnGame.hasMoved _ hgame
  rw [← Transition.run_append] at hreturned hmoved
  have hiff := (h (pawnGame true) 52 28 _ doubleStep 4 5 hlaid
    (pawnGame_new (Display.mode115 .blank) true).stationed hreturned.lifts).1
  obtain ⟨hcol, hrow⟩ := @PawnReturned.square .blank false _ hreturned
  rw [hcol, hrow, ensureBoard_of_created hreturned.created, hreturned.type] at hiff
  exact not_doubleStep hhas (hiff.mp hmoved).2

end Moves

end LCChess
