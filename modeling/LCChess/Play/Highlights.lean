import LCChess.Game.Legality
import LCChess.Library.Run
import LCChess.Program.MainLoop

/-!
# The highlights of a drag

`mem_board` is written by three pieces of code: the creation of the board, `possiblePosition` at
a press, and `drawBoard` behind a release. So it shows no highlight outside a drag, and during
one it is what `possiblePosition` made of it at the press, whatever is received in between.

## Main definitions

* `Begun vm`: the game of an instance has begun, and may be over
* `entered d vm packet`: a `MOUSE` event behind the first lines of `playing_ih`
* `MarkStep d vm i vm'`: what an input does to the highlights
* `DragSince`: the press of the present drag

## Main results

* `markStep_stepInput`: every input is such a step
* `erased_run`: outside a drag no square is highlighted
* `highlights_of_drag`: the highlights during a drag are those of its press
-/

namespace LCChess

open Transition (run run_nil run_cons run_snoc run_invariant)

/-! ## What an input does to the highlights -/

/-- The game has begun: the instance is in `playing_ih`, or has left it. -/
def Begun (vm : Vm) : Prop := vm.gameState = .playing ∨ vm.gameState = .exit

/-- A `MOUSE` event behind the first lines of `playing_ih`. -/
def entered (d : Display) (vm : Vm) (packet : Packet) : Vm :=
  leaveGame { ensureBoard d vm with cursor := updateCursor d.toGeometry packet vm.cursor }

/-- What an input does to the highlights and to the drag: it keeps both, it presses a piece, or
it repaints the board behind a release. -/
inductive MarkStep (d : Display) (vm : Vm) : Action ⊕ UInt8 → Vm → Prop
  | keep (i : Action ⊕ UInt8) {vm' : Vm} : vm'.draggingPiece = vm.draggingPiece →
      (ensureBoard d vm').board.memBoard = (ensureBoard d vm).board.memBoard → MarkStep d vm i vm'
  | press (arrivals : ℕ) {packet : Packet} {p : PieceRef} {x y : ℤ} : vm.draggingPiece = none →
      Presses d (entered d vm packet) p x y →
      MarkStep d vm (.inl (.event arrivals (.mouse packet))) (press d (entered d vm packet) p x y)
  | repaint (i : Action ⊕ UInt8) {vm' : Vm} (m : Memory) : vm'.draggingPiece = none →
      vm'.boardCreated = true → vm'.board.memBoard = drawBoard d.toGeometry m → MarkStep d vm i vm'

section Entered

variable {d : Display} {vm vm' : Vm}

@[simp] theorem boardCreated_entered (packet : Packet) :
    (entered d vm packet).boardCreated = true := by
  obtain ⟨gameState, won, h⟩ := leaveGame_frame { ensureBoard d vm with
    cursor := updateCursor d.toGeometry packet vm.cursor }
  rw [entered, h]
  exact boardCreated_ensureBoard d vm

/-- The first lines of the handler keep the drag and create the board. -/
theorem leaveGame_ensureBoard_frame (d : Display) (vm : Vm) :
    (leaveGame (ensureBoard d vm)).draggingPiece = vm.draggingPiece ∧
      (leaveGame (ensureBoard d vm)).board = (ensureBoard d vm).board ∧
      (leaveGame (ensureBoard d vm)).boardCreated = true := by
  obtain ⟨gameState, won, h⟩ := leaveGame_frame (ensureBoard d vm)
  have hcreated := boardCreated_ensureBoard d vm
  obtain ⟨board, heap, redraw, h'⟩ := ensureBoard_frame d vm
  rw [h]
  refine ⟨?_, rfl, hcreated⟩
  rw [h']

/-- The first lines of the handler at a `MOUSE` event. -/
theorem entered_frame (d : Display) (vm : Vm) (packet : Packet) :
    (entered d vm packet).draggingPiece = vm.draggingPiece ∧
      (entered d vm packet).board = (ensureBoard d vm).board ∧
      (entered d vm packet).cursor = updateCursor d.toGeometry packet vm.cursor := by
  obtain ⟨gameState, won, h⟩ := leaveGame_frame { ensureBoard d vm with
    cursor := updateCursor d.toGeometry packet vm.cursor }
  obtain ⟨board, heap, redraw, h'⟩ := ensureBoard_frame d vm
  rw [entered, h]
  refine ⟨?_, rfl, rfl⟩
  rw [h']

/-- The buffers of the serial port are no part of the board. -/
theorem markStep_buffers (d : Display) (vm : Vm) (i : Action ⊕ UInt8) (q q' : Queue)
    (line : List UInt8) :
    MarkStep d vm i { vm with transmitQueue := q, receiveQueue := q', line := line } := by
  refine .keep i rfl ?_
  unfold ensureBoard
  dsimp only
  split <;> rfl

/-- An event in the game that keeps the drag and the board in memory. -/
theorem markStep_of_memBoard {i : Action ⊕ UInt8} (hdrag : vm'.draggingPiece = vm.draggingPiece)
    (hcreated : vm'.boardCreated = true)
    (hmem : vm'.board.memBoard = (ensureBoard d vm).board.memBoard) : MarkStep d vm i vm' :=
  .keep i hdrag (by rw [ensureBoard_of_created hcreated, hmem])

/-- A `MOUSE` event presses, drags, releases or does nothing. -/
theorem markStep_mouse (hplay : vm.gameState = .playing) {arrivals : ℕ} {packet : Packet}
    (hev : handleEvent d arrivals (.mouse packet) vm = some vm') :
    MarkStep d vm (.inl (.event arrivals (.mouse packet))) vm' := by
  obtain rfl : playingMouse d (entered d vm packet) = vm' :=
    Option.some.inj ((handleEvent_mouse hplay packet).symm.trans hev)
  obtain ⟨hdrag, hboard, hcursor⟩ := entered_frame d vm packet
  have hcreated : (entered d vm packet).boardCreated = true := boardCreated_entered packet
  have hbuttons : (entered d vm packet).cursor.pressed = true →
      (entered d vm packet).cursor.released = false := by
    rw [hcursor]
    simp +contextual
  rcases playingMouse_cases d hbuttons with ⟨-, heq⟩ | ⟨hnone, p, x, y, hpress, heq⟩ |
    ⟨p, hsome, -, heq⟩ | ⟨p, hsome, -, heq⟩
  · rw [heq]
    exact markStep_of_memBoard hdrag hcreated (by rw [hboard])
  · rw [heq]
    exact .press arrivals (hdrag.symm.trans hnone) hpress
  · rw [heq]
    exact markStep_of_memBoard hdrag hcreated (congrArg Board.memBoard hboard)
  · rw [heq]
    have hcreated' : (follow (entered d vm packet) p).boardCreated = true := hcreated
    -- a release repaints the board, whether it makes a move or not
    obtain ⟨hnone, hkept, hmem⟩ := release_repaints d (follow (entered d vm packet) p) p
    exact .repaint _ _ hnone (hkept.trans hcreated') hmem

/-- Every event of the game is a step of the highlights. -/
theorem markStep_event (h : Begun vm) {arrivals : ℕ} {event : Event}
    (hev : handleEvent d arrivals event vm = some vm') :
    MarkStep d vm (.inl (.event arrivals event)) vm' := by
  obtain ⟨hdrag, hboard, hcreated⟩ := leaveGame_ensureBoard_frame d vm
  rcases h with hplay | hexit
  · cases event with
    | newFrame =>
      rw [handleEvent_frame hplay] at hev
      obtain ⟨vm₁, hbyte, rfl⟩ := Option.map_eq_some_iff.mp hev
      generalize leaveGame (ensureBoard d vm) = w at hbyte hdrag hboard hcreated
      -- a frame copies `mem_board`, and draws into other buffers
      have hframe : (playingFrame d w).board.memBoard = w.board.memBoard := rfl
      obtain ⟨hmem, hdrag', -, hcreated', -⟩ := parseByte_frame hbyte
      refine markStep_of_memBoard (hdrag'.trans hdrag) (hcreated'.trans hcreated) ?_
      exact (hmem.trans hframe).trans (congrArg Board.memBoard hboard)
    | keyboard scanCode =>
      rw [handleEvent_keyboard hplay] at hev
      obtain rfl := Option.some.inj hev
      unfold playingKeyboard
      split_ifs
      · exact markStep_of_memBoard hdrag hcreated (congrArg Board.memBoard hboard)
      · exact markStep_of_memBoard hdrag hcreated (congrArg Board.memBoard hboard)
      · exact markStep_of_memBoard hdrag hcreated (congrArg Board.memBoard hboard)
    | mouse packet => exact markStep_mouse hplay hev
  · -- behind the game nothing is drawn into the board
    rw [handleEvent_over hexit] at hev
    obtain rfl := Option.some.inj hev
    refine .keep _ (by cases event <;> rfl) ?_
    cases event with
    | newFrame =>
      unfold ensureBoard presentFrame
      dsimp only
      split <;> rfl
    | keyboard scanCode => rfl
    | mouse packet => rw [ensureBoard_cursor]

end Entered

/-- **Every input** of a game is a step of the highlights. -/
theorem markStep_stepInput {d : Display} {s : Instance} (h : Begun s.vm) (i : Action ⊕ UInt8) :
    MarkStep d s.vm i (s.stepInput d i).vm := by
  rcases s.stepInput_cases d i with ⟨arrivals, event, vm', rfl, -, hev, hstep⟩ |
    ⟨transmit, receive, line, hstep, -, -⟩
  · rw [hstep]
    exact markStep_event h hev
  · rw [hstep]
    exact markStep_buffers d s.vm _ _ _ _

/-! ## Reachable states -/

section Reachable

variable {d : Display} {s : Instance}

theorem begun_entered {vm : Vm} (h : Begun vm) (cursor : Cursor) :
    Begun (leaveGame { ensureBoard d vm with cursor := cursor }) := by
  obtain ⟨board, heap, redraw, hframe⟩ := ensureBoard_frame d vm
  have hstate : ({ ensureBoard d vm with cursor := cursor } : Vm).gameState = vm.gameState := by
    rw [hframe]
  unfold leaveGame
  split_ifs
  · exact .inr rfl
  · rw [Begun, hstate]
    exact h

/-- An event of the game stays in the game, or leaves it. -/
theorem begun_event {vm vm' : Vm} (h : Begun vm) {arrivals : ℕ} {event : Event}
    (hev : handleEvent d arrivals event vm = some vm') : Begun vm' := by
  rcases h with hplay | hexit
  · have hentered := begun_entered (d := d) (.inl hplay) (ensureBoard d vm).cursor
    change Begun (leaveGame (ensureBoard d vm)) at hentered
    cases event with
    | newFrame =>
      rw [handleEvent_frame hplay] at hev
      obtain ⟨vm₁, hbyte, rfl⟩ := Option.map_eq_some_iff.mp hev
      obtain ⟨-, -, -, -, hstate | hstate⟩ := parseByte_frame hbyte
      · exact hentered.imp hstate.trans hstate.trans
      · exact .inr hstate
    | keyboard scanCode =>
      rw [handleEvent_keyboard hplay] at hev
      obtain rfl := Option.some.inj hev
      unfold playingKeyboard
      split_ifs <;> exact hentered
    | mouse packet =>
      rw [handleEvent_mouse hplay] at hev
      obtain rfl := Option.some.inj hev
      rw [Begun, (playingMouse_frame d _).1]
      exact begun_entered (.inl hplay) _
  · rw [handleEvent_over hexit] at hev
    obtain rfl := Option.some.inj hev
    exact .inr (by cases event <;> exact hexit)

theorem begun_stepInput (h : Begun s.vm) (i : Action ⊕ UInt8) :
    Begun (s.stepInput d i).vm := by
  rcases s.stepInput_cases d i with ⟨arrivals, event, vm', -, -, hev, hstep⟩ |
    ⟨transmit, receive, line, hstep, -, -⟩
  · rw [hstep]
    exact begun_event h hev
  · rw [hstep]
    exact h

theorem begun_run (h : Begun s.vm) (inputs : List (Action ⊕ UInt8)) :
    Begun (run (Instance.stepInput d) s inputs).vm :=
  run_invariant (fun s : Instance => Begun s.vm) (fun _ i hs => begun_stepInput hs i) h inputs

end Reachable

/-- Outside a drag no square is highlighted; a board that is still to be created shows none. -/
def Erased (d : Display) (vm : Vm) : Prop :=
  vm.draggingPiece = none → Clean (ensureBoard d vm).board.memBoard

section Erased

variable {images : Images} {vm vm' : Vm}

/-- A board that is being created shows no highlight. -/
theorem clean_ensureBoard (h : vm.boardCreated = true → Clean vm.board.memBoard) :
    Clean (ensureBoard (Display.mode115 images) vm).board.memBoard := by
  unfold ensureBoard
  split
  · rename_i hcreated
    exact h hcreated
  · intro x y hxy
    exact (isOrange_drawImage _ _ hxy (by decide)).trans (isOrange_drawBoard _ hxy)

/-- A step of the highlights erases them when it ends a drag. -/
theorem Erased.markStep {i : Action ⊕ UInt8} (h : Erased (Display.mode115 images) vm)
    (hstep : MarkStep (Display.mode115 images) vm i vm') :
    Erased (Display.mode115 images) vm' := by
  intro hnone
  cases hstep with
  | keep _ hdrag hmem =>
    rw [hmem]
    exact h (hdrag.symm.trans hnone)
  | press arrivals hidle hpress => exact absurd hnone (by simp [press, Vm.showScreen, Vm.setPiece])
  | repaint _ m hdrag hcreated hmem =>
    rw [ensureBoard_of_created hcreated, hmem]
    exact clean_drawBoard m

/-- **Outside a drag no square is highlighted**, on arbitrary events and bytes. -/
theorem erased_run {s : Instance} (hgame : Begun s.vm) (h : Erased (Display.mode115 images) s.vm)
    (inputs : List (Action ⊕ UInt8)) :
    Erased (Display.mode115 images)
      (run (Instance.stepInput (Display.mode115 images)) s inputs).vm :=
  (run_invariant (fun s : Instance => Begun s.vm ∧ Erased (Display.mode115 images) s.vm)
    (fun _ i hs => ⟨begun_stepInput hs.1 i, hs.2.markStep (markStep_stepInput hs.1 i)⟩)
    ⟨hgame, h⟩ inputs).2

end Erased

/-! ## The highlights of the present drag -/

/-- The piece `p` was pressed in the middle of the run and has been dragged since; `w` is the
instance it was pressed on, in square `(x, y)`. -/
structure DragSince (d : Display) (s : Instance) (inputs : List (Action ⊕ UInt8)) (p : PieceRef)
    (w : Vm) (x y : ℤ) : Prop where
  presses : Presses d w p x y
  since : ∃ before arrivals packet held,
    inputs = before ++ .inl (.event arrivals (.mouse packet)) :: held ∧
    w = entered d (run (Instance.stepInput d) s before).vm packet ∧
    (run (Instance.stepInput d) s before).vm.draggingPiece = none ∧
    ∀ held', held' <+: held →
      (run (Instance.stepInput d) s
        (before ++ .inl (.event arrivals (.mouse packet)) :: held')).vm.draggingPiece = some p

/-- A drag that goes on. -/
theorem DragSince.snoc {d : Display} {s : Instance} {inputs : List (Action ⊕ UInt8)}
    {p : PieceRef} {w : Vm} {x y : ℤ} (h : DragSince d s inputs p w x y) {i : Action ⊕ UInt8}
    (hdrag : (run (Instance.stepInput d) s (inputs ++ [i])).vm.draggingPiece = some p) :
    DragSince d s (inputs ++ [i]) p w x y := by
  obtain ⟨hpress, before, arrivals, packet, held, rfl, hw, hidle, hheld⟩ := h
  refine ⟨hpress, before, arrivals, packet, held ++ [i], by simp, hw, hidle, fun held' hpre => ?_⟩
  -- the drag goes on behind the last input, and did so before
  rcases List.prefix_concat_iff.mp hpre with rfl | hpre
  · simpa using hdrag
  · exact hheld held' hpre

/-- A drag that begins. -/
theorem DragSince.begin {d : Display} {s : Instance} {inputs : List (Action ⊕ UInt8)}
    {p : PieceRef} {x y : ℤ} {arrivals : ℕ} {packet : Packet}
    (hidle : (run (Instance.stepInput d) s inputs).vm.draggingPiece = none)
    (hpress : Presses d (entered d (run (Instance.stepInput d) s inputs).vm packet) p x y)
    (hdrag : (run (Instance.stepInput d) s
      (inputs ++ [.inl (.event arrivals (.mouse packet))])).vm.draggingPiece = some p) :
    DragSince d s (inputs ++ [.inl (.event arrivals (.mouse packet))]) p
      (entered d (run (Instance.stepInput d) s inputs).vm packet) x y := by
  refine ⟨hpress, inputs, arrivals, packet, [], rfl, rfl, hidle, fun held' hpre => ?_⟩
  rw [List.prefix_nil.mp hpre]
  exact hdrag

/-- The highlights a press paints are those of its own board. -/
theorem memBoard_press {d : Display} {vm : Vm} {p : PieceRef} {x y : ℤ} (hon : OnBoard x y) :
    (press d vm p x y).board.memBoard =
      possiblePosition d.toGeometry vm.board.board vm.heap (vm.heap p) x y vm.board.memBoard := by
  obtain ⟨hy, hy', hx, hx'⟩ := hon
  have hcol : i32 (u32 x) = x := by
    rw [u32_of_nonneg hx (by omega)]
    exact i32_of_small hx (by omega)
  have hrow : i32 (u32 y) = y := by
    rw [u32_of_nonneg hy (by omega)]
    exact i32_of_small hy (by omega)
  -- the press has changed a priority, which the highlights do not depend on
  have htypes := fun q => heap_setPriority vm p q true
  simp only [press, hcol, hrow]
  refine possiblePosition_congr d.toGeometry _ htypes (htypes p) ?_ x y _
  simp [Vm.setPiece, changePiecePriority]

/-- During a drag `mem_board` is what `possiblePosition` made of it at the press. -/
theorem marks_run {d : Display} {s : Instance} (hgame : Begun s.vm)
    (hidle : s.vm.draggingPiece = none) (inputs : List (Action ⊕ UInt8)) {p : PieceRef}
    (hdrag : (run (Instance.stepInput d) s inputs).vm.draggingPiece = some p) :
    ∃ w x y, DragSince d s inputs p w x y ∧
      (ensureBoard d (run (Instance.stepInput d) s inputs).vm).board.memBoard =
        possiblePosition d.toGeometry w.board.board w.heap (w.heap p) x y w.board.memBoard := by
  induction inputs using List.reverseRecOn with
  | nil => exact absurd (hidle.symm.trans hdrag) (by simp)
  | append_singleton inputs i ih =>
    have hstep := markStep_stepInput (d := d) (begun_run (d := d) hgame inputs) i
    rw [← run_snoc (Instance.stepInput d) s inputs i] at hstep
    generalize hvm : (run (Instance.stepInput d) s (inputs ++ [i])).vm = vm' at hstep ⊢
    have hdrag' : vm'.draggingPiece = some p := hvm ▸ hdrag
    cases hstep with
    -- the press was an earlier input
    | keep _ hkeep hmem =>
      obtain ⟨w, x, y, hsince, hmarks⟩ := ih (hkeep.symm.trans hdrag')
      exact ⟨w, x, y, hsince.snoc hdrag, hmem.trans hmarks⟩
    -- the press is the last input
    | @press arrivals packet q x y hnone hpress =>
      obtain rfl : q = p := Option.some.inj hdrag'
      refine ⟨_, x, y, .begin hnone hpress hdrag, ?_⟩
      have hcreated : (press d (entered d (run (Instance.stepInput d) s inputs).vm packet) q x
        y).boardCreated = true := boardCreated_entered packet
      rw [ensureBoard_of_created hcreated, memBoard_press hpress.onBoard]
    | repaint _ m hnone => exact absurd (hnone.symm.trans hdrag') (by simp)

section Theorem

variable {images : Images}

/-- **The highlights never leak between drags.** In a game that was entered without a board, on
arbitrary events and bytes: without a drag no square is orange, and during the drag of a piece
the orange squares are those `possiblePosition` painted at its press, on a board that showed
none. -/
theorem highlights_of_drag {s : Instance} (hplay : s.vm.gameState = .playing)
    (hnew : s.vm.boardCreated = false) (hidle : s.vm.draggingPiece = none)
    (inputs : List (Action ⊕ UInt8)) :
    let d := Display.mode115 images
    let vm := (run (Instance.stepInput d) s inputs).vm
    vm.boardCreated = true →
      (vm.draggingPiece = none → ∀ a b, OnBoard a b →
        isOrange mode115 vm.board.memBoard a b = false) ∧
      ∀ p, vm.draggingPiece = some p → ∃ w x y, DragSince d s inputs p w x y ∧
        (∀ a b, OnBoard a b → isOrange mode115 w.board.memBoard a b = false) ∧
        ∀ a b, OnBoard a b → (isOrange mode115 vm.board.memBoard a b = true ↔
          isOrange mode115 (possiblePosition mode115 w.board.board w.heap (w.heap p) x y
            w.board.memBoard) a b = true) := by
  intro d vm hcreated
  have hgame : Begun s.vm := .inl hplay
  have hfresh : Erased d s.vm := fun _ =>
    clean_ensureBoard fun hc => absurd (hnew.symm.trans hc) (by decide)
  constructor
  · intro hnone
    have hclean := erased_run hgame hfresh inputs hnone
    rwa [ensureBoard_of_created hcreated] at hclean
  · intro p hdrag
    obtain ⟨w, x, y, hsince, hmarks⟩ := marks_run (d := d) hgame hidle inputs hdrag
    rw [ensureBoard_of_created hcreated] at hmarks
    refine ⟨w, x, y, hsince, ?_, fun a b _ => by rw [hmarks]; rfl⟩
    -- the board of the press showed nothing, since nothing was being dragged
    obtain ⟨before, arrivals, packet, held, -, hw, hnone, -⟩ := hsince.since
    have hboard := (entered_frame d (run (Instance.stepInput d) s before).vm packet).2.1
    rw [hw, hboard]
    exact erased_run hgame hfresh before hnone

/-- A new game of white in mode `0x115`, with the cursor on the knight in square `(1, 7)`. -/
def knightGame : Instance where
  vm := { Vm.initialGame .white with cursor := ⟨150, 500, false, false⟩ }
  crashed := false

/-- The knight is pressed behind a frame, and dragged on behind another one. -/
def knightLift : List (Action ⊕ UInt8) :=
  [.inl (.event 0 .newFrame), .inl (.event 0 (.mouse ⟨true, false, false, false, false, 0, 0⟩)),
    .inl (.event 0 .newFrame), .inl (.event 0 (.mouse ⟨true, false, false, false, false, 60, 118⟩))]

/-- The first frame of the game shows no highlight, and the drag those of its press. -/
theorem highlights_of_drag_knight :
    let d := Display.mode115 .blank
    let idle := (run (Instance.stepInput d) knightGame (knightLift.take 1)).vm
    let vm := (run (Instance.stepInput d) knightGame knightLift).vm
    (∀ a b, OnBoard a b → isOrange mode115 idle.board.memBoard a b = false) ∧
      ∃ w x y, DragSince d knightGame knightLift 17 w x y ∧
        ∀ a b, OnBoard a b → (isOrange mode115 vm.board.memBoard a b = true ↔
          isOrange mode115 (possiblePosition mode115 w.board.board w.heap (w.heap 17) x y
            w.board.memBoard) a b = true) := by
  have hidle : (run (Instance.stepInput (Display.mode115 .blank)) knightGame
      (knightLift.take 1)).vm.boardCreated = true ∧
      (run (Instance.stepInput (Display.mode115 .blank)) knightGame
        (knightLift.take 1)).vm.draggingPiece = none := by decide +kernel
  have hdrag : (run (Instance.stepInput (Display.mode115 .blank)) knightGame
      knightLift).vm.boardCreated = true ∧ (run (Instance.stepInput (Display.mode115 .blank))
        knightGame knightLift).vm.draggingPiece = some 17 := by decide +kernel
  have hfirst := @highlights_of_drag .blank knightGame rfl rfl rfl (knightLift.take 1)
  have hlift := @highlights_of_drag .blank knightGame rfl rfl rfl knightLift
  dsimp only at hfirst hlift ⊢
  generalize run _ knightGame (knightLift.take 1) = idle at hidle hfirst ⊢
  generalize run _ knightGame knightLift = t at hdrag hlift ⊢
  obtain ⟨w, x, y, hsince, -, hmarks⟩ := (hlift hdrag.1).2 17 hdrag.2
  exact ⟨(hfirst hidle.1).1 hidle.2, w, x, y, hsince, hmarks⟩

end Theorem

end LCChess
