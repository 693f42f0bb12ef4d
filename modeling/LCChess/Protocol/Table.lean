import LCChess.Library.Run
import LCChess.Protocol.Refinement

/-!
# Two seats on one line

The game of two instances: two seats whose buffers are joined by the serial line. The two
instances of the program take the steps of this game.

## Main definitions

* `Table`, `Table.Step`: two seats, and their steps, labelled with the move that is made
* `incoming t e`: the bytes on their way to the seat `e`
* `InGame d s`: both instances are in a game, or have left it
* `System.accepted`, `moves d s acts`: the move accepted by a step, and the moves of a run
* `pass e`: a byte of the end `e` crosses the line and is polled

## Main results

* `System.step_refines`: a step of the two instances is a step of the two seats
-/

namespace LCChess

open Transition (run run_invariant)

/-! ## The game -/

/-- Two seats. -/
abbrev Table := Side → Seat

/-- The bytes on their way to the parser of `e`, next one first. -/
def incoming (t : Table) (e : Side) : List UInt8 :=
  (t e).receive ++ (t e).line ++ (t e.other).transmit

namespace Table

/-- The table after a byte `b` left the transmit queue of `e` for the line. -/
def transfer (t : Table) (e : Side) (b : UInt8) (rest : List UInt8) : Table := fun f =>
  if f = e then { t f with transmit := rest } else { t f with line := (t f).line ++ [b] }

/-- The steps of a game, labelled with the moves they make. -/
inductive Step : Table → Option (Side × ℤ × ℤ) → Table → Prop
  /-- A step that the game does not see. -/
  | idle (t : Table) : Step t none t
  | event (t : Table) (e : Side) (l : Option (ℤ × ℤ)) (s : Seat) :
      (t e).gameState = .playing → Seat.Event (t e) l s →
      Step t (l.map fun m => (e, m)) (Function.update t e s)
  | write (t : Table) (e : Side) (b : UInt8) (rest : List UInt8) :
      (t e).transmit = b :: rest → Step t none (transfer t e b rest)
  | read (t : Table) (e : Side) (b : UInt8) (rest : List UInt8) : (t e).line = b :: rest →
      Step t none (Function.update t e
        { t e with line := rest, receive := enqueue (t e).receive b })

end Table

/-! ## The two instances -/

/-- The seats of two instances. -/
def table (d : Display) (s : System) : Table := fun e => seat d (s e).vm

/-- The queues and the board of an instance are well-formed, whatever state it is in. -/
def Ready (d : Display) (vm : Vm) : Prop := (ensureBoard d vm).Sound

/-- An instance in a game, or after it. -/
structure InGame (d : Display) (vm : Vm) : Prop where
  sound : Ready d vm
  state : vm.gameState = .playing ∨ vm.gameState = .exit

/-- The move an event makes: `playing_ih` gives the turn away only where it makes one, from the
square the piece was pressed on to the square under the cursor. -/
def acceptedMove (d : Display) (arrivals : ℕ) (event : Event) (vm : Vm) : Option (ℤ × ℤ) :=
  match event, handleEvent d arrivals event vm with
  | .mouse packet, some vm' =>
    if vm.gameState = .playing ∧ vm.myTurn = true ∧ vm'.myTurn = false then
      some (inicialCell vm, cursorCell d
        { vm with cursor := updateCursor d.toGeometry packet vm.cursor })
    else none
  | _, _ => none

/-- Nobody makes a move outside the game. -/
theorem acceptedMove_menu {d : Display} {arrivals : ℕ} {event : Event} {vm : Vm}
    (h : vm.gameState ≠ .playing) : acceptedMove d arrivals event vm = none := by
  unfold acceptedMove
  split
  · exact if_neg fun hmove => h hmove.1
  · rfl

/-- A packet that gives the turn away makes the move to the square under the cursor. -/
theorem acceptedMove_of_turn {d : Display} {vm vm' : Vm} {k : ℕ} {packet : Packet}
    (hev : handleEvent d k (.mouse packet) vm = some vm') (hplay : vm.gameState = .playing)
    (hmine : vm.myTurn = true) (hlost : vm'.myTurn = false) {x y : ℤ}
    (hsquare : (updateCursor d.toGeometry packet vm.cursor).InSquare d.toGeometry x y) :
    acceptedMove d k (.mouse packet) vm = some (inicialCell vm, y * 8 + x) := by
  have hcell : cursorCell d { vm with cursor := updateCursor d.toGeometry packet vm.cursor } =
      y * 8 + x := congrArg₂ (fun row col => row * 8 + col) hsquare.2 hsquare.1
  unfold acceptedMove
  simp only [hev]
  rw [if_pos ⟨hplay, hmine, hlost⟩, hcell]

/-- An event that leaves the turn with the instance makes no move. -/
theorem Instance.acceptedMove_of_kept {d : Display} {s : Instance} (halive : s.crashed = false)
    {k : ℕ} {event : Event} (hkept : (s.step d (.event k event)).vm.myTurn = true) :
    acceptedMove d k event s.vm = none := by
  unfold acceptedMove
  split
  · rename_i hev
    rw [Instance.step_event halive hev] at hkept
    exact if_neg fun hmove => absurd (hkept.symm.trans hmove.2.2) (by decide)
  · rfl

/-- A packet that takes the turn of the instance makes the move to the square under the cursor. -/
theorem Instance.acceptedMove_of_lost {d : Display} {s : Instance} (halive : s.crashed = false)
    (hplay : s.vm.gameState = .playing) (hmine : s.vm.myTurn = true) {k : ℕ} {packet : Packet}
    (hlost : (s.step d (.event k (.mouse packet))).vm.myTurn = false) {x y : ℤ}
    (hsquare : (updateCursor d.toGeometry packet s.vm.cursor).InSquare d.toGeometry x y) :
    acceptedMove d k (.mouse packet) s.vm = some (inicialCell s.vm, y * 8 + x) := by
  have hevent : ∃ vm', handleEvent d k (.mouse packet) s.vm = some vm' := by
    rw [handleEvent_mouse hplay]
    exact ⟨_, rfl⟩
  obtain ⟨vm', hev⟩ := hevent
  rw [Instance.step_event halive hev] at hlost
  exact acceptedMove_of_turn hev hplay hmine hlost hsquare

/-- The move an action of one end makes. -/
def System.accepted (d : Display) (s : System) (a : Side × Action) : Option (Side × ℤ × ℤ) :=
  if (s a.1).crashed then none
  else
    match a.2 with
    | .event arrivals event => (acceptedMove d arrivals event (s a.1).vm).map fun m => (a.1, m)
    | _ => none

/-- The moves accepted during a run. -/
def moves (d : Display) (s : System) (acts : List (Side × Action)) : List (Side × ℤ × ℤ) :=
  Transition.outputs (fun s a => (System.accepted d s a).toList) (System.step d) s acts

/-- The end `e` writes a byte; the other end reads it, and polls it at a frame. -/
def pass (e : Side) : List (Side × Action) :=
  [(e, .spWrite (some 0x20)), (e.other, .spRead true), (e.other, .event 0 .newFrame)]

/-- The game of an instance has not changed: its board, its parser, its drag and its outcome. -/
structure SameGame (vm vm' : Vm) : Prop where
  created : vm'.boardCreated = vm.boardCreated
  board : vm'.board = vm.board
  heap : vm'.heap = vm.heap
  move : vm'.move = vm.move
  byteOfMove : vm'.byteOfMove = vm.byteOfMove
  dragging : vm'.draggingPiece = vm.draggingPiece
  inicialRow : vm'.inicialPieceRow = vm.inicialPieceRow
  inicialCol : vm'.inicialPieceCol = vm.inicialPieceCol
  endGame : vm'.endGame = vm.endGame
  won : vm'.won = vm.won

/-- The board that `ensureBoard` leaves depends on the old one alone. -/
theorem SameGame.ensureBoard {d : Display} {vm vm' : Vm} (h : SameGame vm vm') :
    (ensureBoard d vm').board = (ensureBoard d vm).board ∧
      (LCChess.ensureBoard d vm').heap = (LCChess.ensureBoard d vm).heap := by
  unfold LCChess.ensureBoard
  rw [h.created, h.board, h.heap]
  split
  · exact ⟨h.board, h.heap⟩
  · exact ⟨rfl, rfl⟩

/-- The buffers of the serial port are no part of the game. -/
theorem Vm.Buffered.sameGame {vm vm' : Vm} (h : vm.Buffered vm') : SameGame vm vm' := by
  obtain ⟨transmit, receive, line, rfl, -⟩ := h
  exact ⟨rfl, rfl, rfl, rfl, rfl, rfl, rfl, rfl, rfl, rfl⟩

namespace Ready

variable {d : Display} {vm : Vm} (h : Ready d vm)
include h

/-- Whatever else changes, a seat shows its game, its state and its buffers. -/
theorem frame (vm' : Vm) (hgame : SameGame vm vm')
    (ht : vm'.transmitQueue.WellFormed ∧ vm'.transmitQueue.capacity = 10)
    (hr : vm'.receiveQueue.WellFormed ∧ vm'.receiveQueue.capacity = 10) :
    Ready d vm' ∧ seat d vm' =
      { seat d vm with
        gameState := vm'.gameState
        player := vm'.player
        myTurn := vm'.myTurn
        transmit := vm'.transmitQueue.toList
        receive := vm'.receiveQueue.toList
        line := vm'.line } := by
  obtain ⟨hboard, hheap⟩ := hgame.ensureBoard (d := d)
  have hsound : (ensureBoard d vm).Sound := h
  obtain ⟨board, heap, redraw, hframe⟩ := ensureBoard_frame d vm
  obtain ⟨board', heap', redraw', hframe'⟩ := ensureBoard_frame d vm'
  rw [hframe] at hsound
  rw [hframe, hframe'] at hboard hheap
  simp only at hboard hheap
  subst hboard hheap
  refine ⟨?_, ?_⟩
  · rw [Ready, hframe']
    refine ⟨rfl, ht, hr, hsound.piece_lt, hsound.type_eq, fun p hp => ?_, ?_⟩
    · have := hsound.drag p (hgame.dragging ▸ hp)
      simp only [hgame.inicialRow, hgame.inicialCol]
      exact this
    · have := hsound.origin
      simp only [hgame.move]
      exact this
  · rw [seat, seat, hframe, hframe']
    simp only [Vm.toSeat, inicialCell, hgame.byteOfMove, hgame.move, hgame.dragging,
      hgame.inicialRow, hgame.inicialCol, hgame.endGame, hgame.won]

theorem transmit : vm.transmitQueue.WellFormed ∧ vm.transmitQueue.capacity = 10 := by
  have hsound : (ensureBoard d vm).Sound := h
  obtain ⟨board, heap, redraw, hframe⟩ := ensureBoard_frame d vm
  rw [hframe] at hsound
  exact hsound.transmit

theorem receive : vm.receiveQueue.WellFormed ∧ vm.receiveQueue.capacity = 10 := by
  have hsound : (ensureBoard d vm).Sound := h
  obtain ⟨board, heap, redraw, hframe⟩ := ensureBoard_frame d vm
  rw [hframe] at hsound
  exact hsound.receive

end Ready

section Fields

variable (d : Display) (vm : Vm)

/-- The fields of a seat that `ensureBoard` does not touch. -/
theorem seat_frame : ∃ cells, seat d vm = { vm.toSeat with cells := cells } := by
  obtain ⟨board, heap, redraw, hframe⟩ := ensureBoard_frame d vm
  rw [seat, hframe]
  exact ⟨_, rfl⟩

@[simp] theorem seat_gameState : (seat d vm).gameState = vm.gameState := by
  obtain ⟨_, h⟩ := seat_frame d vm; rw [h]; rfl

@[simp] theorem seat_player : (seat d vm).player = vm.player := by
  obtain ⟨_, h⟩ := seat_frame d vm; rw [h]; rfl

@[simp] theorem seat_myTurn : (seat d vm).myTurn = vm.myTurn := by
  obtain ⟨_, h⟩ := seat_frame d vm; rw [h]; rfl

@[simp] theorem seat_endGame : (seat d vm).endGame = vm.endGame := by
  obtain ⟨_, h⟩ := seat_frame d vm; rw [h]; rfl

@[simp] theorem seat_won : (seat d vm).won = vm.won := by
  obtain ⟨_, h⟩ := seat_frame d vm; rw [h]; rfl

@[simp] theorem seat_byteOfMove : (seat d vm).byteOfMove = vm.byteOfMove := by
  obtain ⟨_, h⟩ := seat_frame d vm; rw [h]; rfl

theorem seat_origin : (seat d vm).origin = moveCell vm.move.oldRow vm.move.oldCol := by
  obtain ⟨_, h⟩ := seat_frame d vm; rw [h]; rfl

@[simp] theorem seat_dragging : (seat d vm).dragging = vm.draggingPiece := by
  obtain ⟨_, h⟩ := seat_frame d vm; rw [h]; rfl

@[simp] theorem seat_inicial : (seat d vm).inicial = inicialCell vm := by
  obtain ⟨_, h⟩ := seat_frame d vm; rw [h]; rfl

@[simp] theorem seat_transmit : (seat d vm).transmit = vm.transmitQueue.toList := by
  obtain ⟨_, h⟩ := seat_frame d vm; rw [h]; rfl

@[simp] theorem seat_receive : (seat d vm).receive = vm.receiveQueue.toList := by
  obtain ⟨_, h⟩ := seat_frame d vm; rw [h]; rfl

@[simp] theorem seat_line : (seat d vm).line = vm.line := by
  obtain ⟨_, h⟩ := seat_frame d vm; rw [h]; rfl

end Fields

namespace Ready

variable {d : Display} {vm : Vm} (h : Ready d vm)
include h

theorem withTransmit {q : Queue} (hq : q.WellFormed ∧ q.capacity = 10) :
    Ready d { vm with transmitQueue := q } ∧
      seat d { vm with transmitQueue := q } = { seat d vm with transmit := q.toList } := by
  obtain ⟨hready, hseat⟩ := h.frame { vm with transmitQueue := q }
    ⟨rfl, rfl, rfl, rfl, rfl, rfl, rfl, rfl, rfl, rfl⟩ hq h.receive
  obtain ⟨cells, hframe⟩ := seat_frame d vm
  refine ⟨hready, hseat.trans ?_⟩
  rw [hframe]
  rfl

theorem withReceive {q : Queue} (hq : q.WellFormed ∧ q.capacity = 10) (line : List UInt8) :
    Ready d { vm with line := line, receiveQueue := q } ∧
      seat d { vm with line := line, receiveQueue := q } =
        { seat d vm with line := line, receive := q.toList } := by
  obtain ⟨hready, hseat⟩ := h.frame { vm with line := line, receiveQueue := q }
    ⟨rfl, rfl, rfl, rfl, rfl, rfl, rfl, rfl, rfl, rfl⟩ h.transmit hq
  obtain ⟨cells, hframe⟩ := seat_frame d vm
  refine ⟨hready, hseat.trans ?_⟩
  rw [hframe]
  rfl

theorem withLine (line : List UInt8) :
    Ready d { vm with line := line } ∧
      seat d { vm with line := line } = { seat d vm with line := line } := by
  obtain ⟨hready, hseat⟩ := h.frame { vm with line := line }
    ⟨rfl, rfl, rfl, rfl, rfl, rfl, rfl, rfl, rfl, rfl⟩ h.transmit h.receive
  obtain ⟨cells, hframe⟩ := seat_frame d vm
  refine ⟨hready, hseat.trans ?_⟩
  rw [hframe]
  rfl

/-- The buffers of the serial port are the buffers of the seat. -/
theorem buffered {vm' : Vm} (hvm : vm.Buffered vm') : Ready d vm' ∧
    ∃ transmit receive line, seat d vm' =
      { seat d vm with transmit := transmit, receive := receive, line := line } := by
  have hgame := hvm.sameGame
  obtain ⟨transmit, receive, line, rfl, htransmit, hreceive⟩ := hvm
  obtain ⟨hwf, hcap⟩ := htransmit h.transmit.1
  obtain ⟨hwf', hcap'⟩ := hreceive h.receive.1
  obtain ⟨hready, hseat⟩ := h.frame _ hgame ⟨hwf, hcap.trans h.transmit.2⟩
    ⟨hwf', hcap'.trans h.receive.2⟩
  obtain ⟨cells, hframe⟩ := seat_frame d vm
  refine ⟨hready, transmit.toList, receive.toList, line, hseat.trans ?_⟩
  rw [hframe]
  rfl

end Ready

/-! ## The steps of an instance -/

/-- Behind the game, events draw the cursor and nothing else. -/
theorem handleEvent_exit {d : Display} {arrivals : ℕ} {event : Event} {vm vm' : Vm}
    (hg : Ready d vm) (hexit : vm.gameState = .exit)
    (h : handleEvent d arrivals event vm = some vm') :
    Ready d vm' ∧ seat d vm' = seat d vm ∧ vm'.myTurn = vm.myTurn := by
  have hsound : (ensureBoard d vm).Sound := hg
  cases event with
  | newFrame =>
    obtain rfl : presentFrame d vm = vm' := Option.some.inj ((handleEvent_over hexit).symm.trans h)
    -- the board may still have to be created, and drawing does not create it
    have hensure : ensureBoard d (presentFrame d vm) = presentFrame d (ensureBoard d vm) := by
      unfold ensureBoard presentFrame
      dsimp only
      split <;> rfl
    obtain ⟨hpresent, hseat⟩ := sound_presentFrame (d := d) hsound
    refine ⟨by rwa [Ready, hensure], ?_, rfl⟩
    rw [seat, hensure, hseat, seat]
  | keyboard scanCode =>
    obtain rfl : vm = vm' := Option.some.inj ((handleEvent_over hexit).symm.trans h)
    exact ⟨hg, rfl, rfl⟩
  | mouse packet =>
    obtain rfl : { vm with cursor := updateCursor d.toGeometry packet vm.cursor } = vm' :=
      Option.some.inj ((handleEvent_over hexit).symm.trans h)
    refine ⟨?_, ?_, rfl⟩
    · rw [Ready, ensureBoard_cursor]
      exact ⟨hsound.1, hsound.2, hsound.3, hsound.4, hsound.5, hsound.6, hsound.7⟩
    · rw [seat, ensureBoard_cursor]
      rfl

/-- The label of an event is the move it makes. -/
theorem acceptedMove_eq {d : Display} {arrivals : ℕ} {event : Event} {vm vm' : Vm}
    (hplay : vm.gameState = .playing) (hturn : ∀ p, vm.draggingPiece = some p → vm.myTurn = true)
    (h : handleEvent d arrivals event vm = some vm') {l : Option (ℤ × ℤ)}
    (hevent : Seat.Event (seat d vm) l (seat d vm'))
    (hlabel : ∀ m, l = some m → ∃ packet, event = .mouse packet ∧ m = (inicialCell vm,
      cursorCell d { vm with cursor := updateCursor d.toGeometry packet vm.cursor })) :
    acceptedMove d arrivals event vm = l := by
  cases l with
  | some m =>
    obtain ⟨packet, rfl, rfl⟩ := hlabel m rfl
    obtain ⟨hend, p, hp⟩ := hevent.of_some
    simp only [seat_myTurn, seat_dragging] at hend hp
    simp only [acceptedMove, h, hplay, hturn p hp, hend, and_self, if_true]
  | none =>
    -- an event without a move keeps the turn, so its label is `none` as well
    have hkeep := hevent.myTurn_of_none
    simp only [seat_myTurn] at hkeep
    cases event with
    | newFrame => simp only [acceptedMove]
    | keyboard => simp only [acceptedMove]
    | mouse packet =>
      simp only [acceptedMove, h]
      refine if_neg fun hmove => ?_
      rw [hkeep hmove.2.1] at hmove
      exact absurd hmove.2.2 (by decide)

/-- A step that writes nothing changes the acting instance alone. -/
theorem System.step_local {d : Display} {s : System} {e : Side} {act : Action}
    (h : (s e).written act = []) :
    System.step d s (e, act) = Function.update s e ((s e).step d act) := by
  funext f
  rcases eq_or_ne f e with rfl | hne
  · simp [System.step]
  · simp [System.step, hne, h, Instance.receive]

theorem table_update (d : Display) (s : System) (e : Side) (i : Instance) :
    table d (Function.update s e i) = Function.update (table d s) e (seat d i.vm) := by
  funext f
  rcases eq_or_ne f e with rfl | hne
  · simp [table]
  · simp [table, Function.update_of_ne hne]

/-- Both instances are well-formed after one of them changed. -/
theorem ready_update {d : Display} {s : System} (h : ∀ e, Ready d (s e).vm) {e : Side}
    {i : Instance} (hi : Ready d i.vm) (f : Side) : Ready d (Function.update s e i f).vm := by
  rcases eq_or_ne f e with rfl | hne
  · simpa using hi
  · simpa [Function.update_of_ne hne] using h f

section Step

variable {d : Display} {s : System} (h : ∀ e, Ready d (s e).vm) {e : Side}
  (halive : (s e).crashed = false)
include h halive

/-- An event of a game. -/
theorem System.step_event (hstate : (s e).vm.gameState = .playing ∨ (s e).vm.gameState = .exit)
    (hturn : ∀ p, (s e).vm.draggingPiece = some p → (s e).vm.myTurn = true)
    (arrivals : ℕ) (event : Event) :
    (∀ f, Ready d (System.step d s (e, .event arrivals event) f).vm) ∧
      Table.Step (table d s) (System.accepted d s (e, .event arrivals event))
        (table d (System.step d s (e, .event arrivals event))) := by
  have hw : (s e).written (.event arrivals event) = [] := by simp [Instance.written]
  rw [System.step_local hw, table_update]
  cases hev : handleEvent d arrivals event (s e).vm with
  | none =>
    -- a crash leaves the state before the event
    have hi : (s e).step d (.event arrivals event) = { s e with crashed := true } := by
      simp [Instance.step, halive, hev]
    have hacc : System.accepted d s (e, .event arrivals event) = none := by
      simp only [System.accepted, halive, acceptedMove, hev, Bool.false_eq_true, if_false]
      cases event <;> rfl
    have hstay : Function.update (table d s) e (seat d (s e).vm) = table d s :=
      Function.update_eq_self e (table d s)
    rw [hi, hacc, hstay]
    exact ⟨ready_update h (h e), .idle _⟩
  | some vm' =>
    have hi : (s e).step d (.event arrivals event) = { s e with vm := vm' } := by
      simp [Instance.step, halive, hev]
    have hacc : System.accepted d s (e, .event arrivals event) =
        (acceptedMove d arrivals event (s e).vm).map fun m => (e, m) := by
      simp [System.accepted, halive]
    rw [hi, hacc]
    rcases hstate with hplay | hexit
    · obtain ⟨hsound, l, hevent, hlabel⟩ := handleEvent_refines (h e) hplay hev
      rw [acceptedMove_eq hplay hturn hev hevent hlabel]
      have hgame : Ready d vm' := by rwa [Ready, ensureBoard_of_created hsound.created]
      exact ⟨ready_update h hgame,
        .event (table d s) e l _ ((seat_gameState d _).trans hplay) hevent⟩
    · obtain ⟨hgame, hseat, -⟩ := handleEvent_exit (h e) hexit hev
      have hnone : acceptedMove d arrivals event (s e).vm = none :=
        acceptedMove_menu (by simp [hexit])
      have hstay : Function.update (table d s) e (seat d vm') = table d s := by
        rw [hseat]
        exact Function.update_eq_self e (table d s)
      rw [hnone, hstay]
      exact ⟨ready_update h hgame, .idle _⟩

/-- A call of `sp_read`. -/
theorem System.step_read (arrived : Bool) :
    (∀ f, Ready d (System.step d s (e, .spRead arrived) f).vm) ∧
      Table.Step (table d s) none (table d (System.step d s (e, .spRead arrived))) := by
  have hw : (s e).written (.spRead arrived) = [] := by simp [Instance.written]
  have hstay : Function.update (table d s) e (seat d (s e).vm) = table d s :=
    Function.update_eq_self e (table d s)
  have hg := h e
  rw [System.step_local hw, table_update]
  have hidle : (s e).step d (.spRead arrived) = s e →
      (∀ f, Ready d (Function.update s e ((s e).step d (.spRead arrived)) f).vm) ∧
        Table.Step (table d s) none (Function.update (table d s) e
          (seat d ((s e).step d (.spRead arrived)).vm)) := by
    intro hi
    rw [hi, hstay]
    exact ⟨ready_update h hg, .idle _⟩
  by_cases hexit : (s e).vm.gameState = .exit
  · exact hidle (by rw [Instance.step_of_alive halive]; exact if_pos hexit)
  · rcases readLine_cases arrived (s e).vm.line (s e).vm.receiveQueue with
      hread | ⟨b, rest, hline, hread⟩
    · exact hidle (by rw [Instance.step_of_alive halive]; simp only [hexit, hread, if_false])
    · have hi : (s e).step d (.spRead arrived) = { s e with vm := { (s e).vm with
          line := rest, receiveQueue := addToQueue (s e).vm.receiveQueue b } } := by
        rw [Instance.step_of_alive halive]
        simp only [hexit, hread, if_false]
      obtain ⟨hgame, hseat⟩ := hg.withReceive
        ⟨hg.receive.1.addToQueue b, by simpa using hg.receive.2⟩ rest
      rw [hi]
      refine ⟨ready_update h hgame, ?_⟩
      have hline' : (table d s e).line = b :: rest := (seat_line d _).trans hline
      have hnew : seat d { (s e).vm with
          line := rest, receiveQueue := addToQueue (s e).vm.receiveQueue b } =
          { table d s e with line := rest, receive := enqueue (table d s e).receive b } := by
        rw [hseat, toList_addToQueue hg.receive, ← seat_receive d]
        rfl
      rw [hnew]
      exact .read _ e b rest hline'

/-- A call of `sp_write`. -/
theorem System.step_write (lsr : Option UInt32) :
    (∀ f, Ready d (System.step d s (e, .spWrite lsr) f).vm) ∧
      Table.Step (table d s) none (table d (System.step d s (e, .spWrite lsr))) := by
  have hg := h e
  rcases spWrite_cases hg.transmit.1 lsr with hwrite | ⟨b, rest, hq, hwrite, hrest⟩
  · have hw : (s e).written (.spWrite lsr) = [] := by simp [Instance.written, halive, hwrite]
    have hi : (s e).step d (.spWrite lsr) = s e := by
      rw [Instance.step_of_alive halive]
      simp only [hwrite]
    rw [System.step_local hw, hi, Function.update_eq_self]
    exact ⟨h, .idle _⟩
  · have hw : (s e).written (.spWrite lsr) = [b] := by simp [Instance.written, halive, hwrite]
    have hi : (s e).step d (.spWrite lsr) = { s e with vm := { (s e).vm with
        transmitQueue := (removeFromQueue (s e).vm.transmitQueue).2 } } := by
      rw [Instance.step_of_alive halive]
      simp only [hwrite]
    obtain ⟨hgame, hseat⟩ := hg.withTransmit
      ⟨hg.transmit.1.removeFromQueue, by simpa using hg.transmit.2⟩
    rw [hrest] at hseat
    have hends : ∀ f, Ready d (System.step d s (e, .spWrite lsr) f).vm ∧
        seat d (System.step d s (e, .spWrite lsr) f).vm =
          Table.transfer (table d s) e b rest f := by
      intro f
      by_cases hf : f = e
      · subst hf
        simp only [System.step, hi, Table.transfer, if_true]
        exact ⟨hgame, hseat⟩
      · simp only [System.step, hw, Table.transfer, hf, if_false, Instance.receive, table,
          seat_line]
        exact (h f).withLine ((s f).vm.line ++ [b])
    have hstep : table d (System.step d s (e, .spWrite lsr)) =
        Table.transfer (table d s) e b rest := funext fun f => (hends f).2
    rw [hstep]
    exact ⟨fun f => (hends f).1, .write _ e b rest ((seat_transmit d _).trans hq)⟩

end Step

/-- An action of an instance in a game, of a crashed one, or of the serial port is a step of the
two seats, and the move it makes is the label of the step. -/
theorem System.step_table {d : Display} {s : System} (h : ∀ e, Ready d (s e).vm)
    (a : Side × Action)
    (hstate : (s a.1).crashed = false → ∀ arrivals event, a.2 = .event arrivals event →
      (s a.1).vm.gameState = .playing ∨ (s a.1).vm.gameState = .exit)
    (hturn : ∀ p, (s a.1).vm.draggingPiece = some p → (s a.1).vm.myTurn = true) :
    (∀ e, Ready d (System.step d s a e).vm) ∧
      Table.Step (table d s) (System.accepted d s a) (table d (System.step d s a)) := by
  obtain ⟨e, act⟩ := a
  cases hcrash : (s e).crashed with
  | true =>
    have hw : (s e).written act = [] := by simp [Instance.written, hcrash]
    have hi : (s e).step d act = s e := by simp [Instance.step, hcrash]
    rw [System.step_local hw, hi, Function.update_eq_self]
    simp only [System.accepted, hcrash, if_true]
    exact ⟨h, .idle _⟩
  | false =>
    cases act with
    | event arrivals event =>
      exact System.step_event h hcrash (hstate hcrash _ _ rfl) hturn arrivals event
    | spWrite lsr =>
      simpa only [System.accepted, hcrash, Bool.false_eq_true, if_false] using
        System.step_write h hcrash lsr
    | spRead arrived =>
      simpa only [System.accepted, hcrash, Bool.false_eq_true, if_false] using
        System.step_read h hcrash arrived

/-- A game goes on, or is left. -/
theorem Table.Step.gameState {t t' : Table} {l : Option (Side × ℤ × ℤ)} (hs : Table.Step t l t')
    {f : Side} (hf : (t f).gameState = .playing ∨ (t f).gameState = .exit) :
    (t' f).gameState = .playing ∨ (t' f).gameState = .exit := by
  cases hs with
  | idle => exact hf
  | write g b rest => unfold Table.transfer; split <;> exact hf
  | read g b rest => obtain rfl | rfl := g.eq_or_eq_other f <;> simpa using hf
  | event g l s _ hevent =>
    obtain rfl | rfl := g.eq_or_eq_other f
    · simpa using hevent.gameState hf
    · simpa using hf

/-- **The two instances play the game**: every step of an end is a step of the two seats, and
the move it makes is the label of the step. -/
theorem System.step_refines {d : Display} {s : System} (h : ∀ e, InGame d (s e).vm)
    (hturn : ∀ e p, (s e).vm.draggingPiece = some p → (s e).vm.myTurn = true)
    (a : Side × Action) :
    (∀ e, InGame d (System.step d s a e).vm) ∧
      Table.Step (table d s) (System.accepted d s a) (table d (System.step d s a)) := by
  obtain ⟨hready, hstep⟩ := System.step_table (fun e => (h e).sound) a
    (fun _ _ _ _ => (h a.1).state) (hturn a.1)
  refine ⟨fun e => ⟨hready e, ?_⟩, hstep⟩
  have := hstep.gameState (f := e) (by simpa [table] using (h e).state)
  simpa [table] using this

end LCChess
