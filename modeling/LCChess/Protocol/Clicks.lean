import LCChess.Play.Moves
import LCChess.Protocol.Parser

/-!
# Games played by clicks

How a move is made and passed on when nothing else happens: two packets drag a piece, and its
four bytes cross the line one by one, each of them polled at a frame of the other end. A list of
such drags is a game, and what it leaves on the two boards can be computed.

## Main definitions

* `Diagram`, `Stands images s v sent`: what an instance shows between two moves
* `Click`: a drag of two packets; `Click.Ok v c`: it makes a move on the diagram `v`
* `Diagram.moved`, `Diagram.heard`: the diagrams of the two ends behind a move
* `Click.acts c e`: the drag at the end `e`, and the way of its bytes
* `clicks e cs`: a game of drags, which the end `e` begins
* `raidClicks`, `raidGame`: six moves, and a seventh that takes the king

## Main results

* `Stands.moved`: a drag makes its move
* `Stands.heard`: a message that has arrived is decoded, unless it names the first cell
* `stands_clicks`: a game of clicks leaves the computed diagrams
* `moves_clicks`: the moves of a game of clicks
* `stands_game`: a game of clicks whose last `YOUR_TURN` has not been sent yet
-/

namespace LCChess

open Transition (run run_cons run_nil run_append)

/-! ## Instances at rest -/

/-- What an instance shows between two moves. -/
structure Diagram where
  player : Player
  turn : Bool
  ended : Bool
  cells : ℤ → Option PieceRef
  cursor : Cursor

/-- An instance in a game that shows the diagram `v`: nothing is dragged, nothing is left to be
read, and the bytes `sent` are still to be transmitted. -/
structure Stands (images : Images) (s : Instance) (v : Diagram) (sent : List UInt8) : Prop where
  inGame : InGame (Display.mode115 images) s.vm
  alive : s.crashed = false
  playing : s.vm.gameState = .playing
  player : s.vm.player = v.player
  turn : s.vm.myTurn = v.turn
  ended : s.vm.endGame = v.ended
  idle : s.vm.draggingPiece = none
  transmit : s.vm.transmitQueue.toList = sent
  receive_nil : s.vm.receiveQueue.toList = []
  line_nil : s.vm.line = []
  cells : (seat (Display.mode115 images) s.vm).cells = v.cells
  erased : Erased (Display.mode115 images) s.vm
  cursor : s.vm.cursor = v.cursor

/-- The position of a diagram. -/
def Diagram.position (v : Diagram) : Position := fun x y =>
  if OnBoard x y then (v.cells (y * 8 + x)).map kind else none

/-- A drag of two packets: the piece `p` is pressed in square `(x, y)` and released in square
`(x', y')`. -/
structure Click where
  press : Packet
  release : Packet
  p : PieceRef
  x : ℤ
  y : ℤ
  x' : ℤ
  y' : ℤ

namespace Click

/-- The cell of the press. -/
def origin (c : Click) : ℤ := c.y * 8 + c.x

/-- The cell of the release. -/
def target (c : Click) : ℤ := c.y' * 8 + c.x'

/-- The two packets as a gesture. -/
def gesture (c : Click) : Gesture := ⟨c.press, [], c.release⟩

/-- The cursor at the press. -/
def pressCursor (c : Click) (cursor : Cursor) : Cursor := updateCursor mode115 c.press cursor

/-- The cursor at the release. -/
def releaseCursor (c : Click) (cursor : Cursor) : Cursor :=
  updateCursor mode115 c.release (c.pressCursor cursor)

end Click

/-- The moves of the pieces that take no line: a knight, a king, and a pawn that has moved. -/
def ShortMove (pos : Position) (t : PieceType) (x y x' y' : ℤ) : Prop :=
  match t with
  | .bKnight | .wKnight => KnightJump x y x' y' ∧ Lands pos t x' y'
  | .bKing | .wKing => KingStep x y x' y' ∧ Lands pos t x' y'
  | .bPawn | .wPawn => PawnMove pos t True x y x' y'
  | _ => False

instance (pos : Position) (t : PieceType) (x y x' y' : ℤ) :
    Decidable (ShortMove pos t x y x' y') := by
  cases t <;> unfold ShortMove <;> infer_instance

/-- A short move is legal, whether a pawn has moved before or not. -/
theorem ShortMove.legal {pos : Position} {t : PieceType} {x y x' y' : ℤ}
    (h : ShortMove pos t x y x' y') (moved : Prop) : LegalMove pos t moved x y x' y' := by
  -- a pawn that has moved makes no double step
  have hpawn : PawnMove pos t True x y x' y' → PawnMove pos t moved x y x' y' := by
    rintro (hstep | ⟨-, -, -, -, hnot⟩ | htake)
    · exact .inl hstep
    · exact absurd trivial hnot
    · exact .inr (.inr htake)
  cases t with
  | wKnight | bKnight | wKing | bKing => exact h
  | wPawn | bPawn => exact hpawn h
  | wRook | bRook | wBishop | bBishop | wQueen | bQueen => exact absurd h id

/-- The drag makes a move on the diagram. -/
def Click.Ok (c : Click) (v : Diagram) : Prop :=
  (c.press.lb = true ∧ c.release.lb = false) ∧
    (v.turn = true ∧ v.ended = false) ∧
    (c.pressCursor v.cursor).InSquare mode115 c.x c.y ∧
    (c.releaseCursor v.cursor).InSquare mode115 c.x' c.y' ∧
    (OnBoard c.x c.y ∧ OnBoard c.x' c.y') ∧
    (v.cells c.origin = some c.p ∧ owns v.player (kind c.p) = true) ∧
    ShortMove v.position (kind c.p) c.x c.y c.x' c.y' ∧
    ¬ (kind c.p = .wPawn ∧ v.position c.x' c.y' = some .bKing)

instance (c : Click) (v : Diagram) : Decidable (c.Ok v) := by
  unfold Click.Ok Cursor.InSquare
  infer_instance

/-- The diagram behind an own move. -/
def Diagram.moved (v : Diagram) (c : Click) : Diagram :=
  { v with
    turn := false
    ended := Seat.kingAt v.cells c.target
    cells := Seat.moveFrom v.cells c.origin c.target c.p
    cursor := c.releaseCursor v.cursor }

/-- The diagram behind the message of a move: one that names the first cell is not decoded. -/
def Diagram.heard (v : Diagram) (o n : ℤ) : Diagram :=
  { v with
    turn := true
    cells :=
      if o = 0 ∨ n = 0 then v.cells
      else
        match v.cells o with
        | some p => Seat.moveTo v.cells o n p
        | none => v.cells }

/-! ## The drag -/

/-- The seat behind a press and a release that makes a move. -/
theorem release_seat {d : Display} {vm : Vm} (h : vm.Sound) {p : PieceRef} (hp : p < 32)
    {x y x' y' : ℤ} (hon : OnBoard x y) {cursor : Cursor}
    (hto : cursor.InSquare d.toGeometry x' y') (hturn : vm.toSeat.myTurn = true)
    (hmoved : (release d (follow { press d vm p x y with cursor := cursor } p) p).myTurn = false) :
    (release d (follow { press d vm p x y with cursor := cursor } p) p).Sound ∧
      (release d (follow { press d vm p x y with cursor := cursor } p) p).toSeat =
        (vm.toSeat.press p (y * 8 + x)).accept p (y' * 8 + x') := by
  obtain ⟨hpress, hpressSeat⟩ := sound_press (d := d) h hp hon
  have hpressed : (press d vm p x y).draggingPiece = some p := rfl
  generalize press d vm p x y = u at hmoved hpress hpressSeat hpressed ⊢
  have hu : ({ u with cursor := cursor } : Vm).Sound :=
    ⟨hpress.1, hpress.2, hpress.3, hpress.4, hpress.5, hpress.6, hpress.7⟩
  have hfollow : (follow { u with cursor := cursor } p).Sound :=
    hu.setPiece (type_setPiecePosition _ _ _)
  have hfollowSeat : (follow { u with cursor := cursor } p).toSeat = u.toSeat := rfl
  have hdrag : (follow { u with cursor := cursor } p).draggingPiece = some p := hpressed
  have hcell : cursorCell d (follow { u with cursor := cursor } p) = y' * 8 + x' := by
    obtain ⟨hx, hy⟩ := hto
    rw [← hx, ← hy]
    rfl
  generalize follow { u with cursor := cursor } p = t at hmoved hfollow hfollowSeat hdrag hcell ⊢
  obtain ⟨hsound, hcases⟩ := sound_release (d := d) hfollow hdrag
  rw [hfollowSeat, hpressSeat, hcell] at hcases
  refine ⟨hsound, ?_⟩
  rcases hcases with hcancel | ⟨-, -, haccept⟩
  · -- a piece that is put back leaves the turn
    have hkept := congrArg Seat.myTurn hcancel
    exact absurd (hmoved.symm.trans (hkept.trans hturn)) (by decide)
  · exact haccept

namespace Stands

variable {images : Images} {s : Instance} {v : Diagram} {sent : List UInt8}
  (h : Stands images s v sent)
include h

theorem board_eq {i : ℤ} (hi : IsCell i) :
    (ensureBoard (Display.mode115 images) s.vm).board.board i = v.cells i := by
  rw [← h.cells]
  exact (cellsOf_of_isCell hi).symm

theorem type_eq {i : ℤ} (hi : IsCell i) {p : PieceRef} (hp : v.cells i = some p) :
    ((ensureBoard (Display.mode115 images) s.vm).heap p).type = kind p :=
  h.inGame.sound.type_of_cell hi ((h.board_eq hi).trans hp)

/-- The squares of the instance are those of its diagram. -/
theorem position_eq : squares (ensureBoard (Display.mode115 images) s.vm).board.board
    (ensureBoard (Display.mode115 images) s.vm).heap = v.position := by
  funext x y
  unfold squares Diagram.position
  by_cases hon : OnBoard x y
  · have hcell := isCell_of_onBoard hon
    rw [if_pos hon, if_pos hon, h.board_eq hcell]
    cases hp : v.cells (y * 8 + x) with
    | none => rfl
    | some p => exact congrArg some (h.type_eq hcell hp)
  · rw [if_neg hon, if_neg hon]

variable {c : Click} (hok : c.Ok v)
include hok

/-- The click is a drag of its piece. -/
theorem lifts : c.gesture.Lifts (Display.mode115 images) s c.p c.x c.y := by
  obtain ⟨⟨hdown, hup⟩, ⟨hturn, -⟩, hfrom, -, ⟨hon, -⟩, ⟨hcell, hown⟩, -⟩ := hok
  have htype := h.type_eq (isCell_of_onBoard hon) hcell
  have hboard := h.board_eq (isCell_of_onBoard hon)
  refine ⟨h.alive, h.playing, h.idle, ⟨?_, ?_, ?_, hon, hboard.trans hcell, ?_⟩, trivial, hup⟩
  · exact (pressed_updateCursor _ _ _).trans hdown
  · obtain ⟨board, heap, redraw, hframe⟩ := ensureBoard_frame (Display.mode115 images) s.vm
    rw [hframe]
    exact h.turn.trans hturn
  · rw [h.cursor]
    exact hfrom
  · dsimp only
    obtain ⟨board, heap, redraw, hframe⟩ := ensureBoard_frame (Display.mode115 images) s.vm
    rw [htype, show (ensureBoard (Display.mode115 images) s.vm).player = s.vm.player by
      rw [hframe], h.player]
    exact hown

omit hok in
/-- The cursor at the release. -/
theorem cursor_eq (c : Click) :
    c.gesture.cursor (Display.mode115 images) s = c.releaseCursor v.cursor := by
  rw [c.gesture.cursor_of_held_nil (Display.mode115 images) s rfl h.alive h.playing, h.cursor]
  rfl

/-- The rules allow the move. -/
theorem playable : Playable (ensureBoard (Display.mode115 images) s.vm) c.p c.x c.y c.x' c.y' := by
  obtain ⟨-, -, -, -, ⟨hon, hon'⟩, ⟨hcell, -⟩, hshort, hking⟩ := id hok
  have htype := h.type_eq (isCell_of_onBoard hon) hcell
  refine ⟨hon', ?_, ?_⟩
  · rw [h.position_eq, htype]
    exact hshort.legal _
  · rw [h.position_eq, htype]
    exact hking

/-- The release makes the move. -/
theorem dropped_moved : Moved (ensureBoard (Display.mode115 images) s.vm)
    (c.gesture.dropped (Display.mode115 images) s).vm c.p c.origin c.target := by
  obtain ⟨-, ⟨-, hgoing⟩, -, hto, -⟩ := id hok
  have hsquare : c.gesture.col (Display.mode115 images) s = c.x' ∧
      c.gesture.row (Display.mode115 images) s = c.y' := by
    rw [Gesture.col, Gesture.row, h.cursor_eq c]
    exact hto
  obtain ⟨hmoved, -⟩ := (h.lifts hok).drop (h.ended.trans hgoing) h.erased
  rw [hsquare.1, hsquare.2] at hmoved
  exact hmoved (h.playable hok)

/-- The seat behind the release. -/
theorem dropped_seat : ((c.gesture.dropped (Display.mode115 images) s).crashed = false ∧
    (c.gesture.dropped (Display.mode115 images) s).vm.Sound) ∧
    (c.gesture.dropped (Display.mode115 images) s).vm.toSeat =
      ((seat (Display.mode115 images) s.vm).press c.p c.origin).accept c.p c.target := by
  obtain ⟨-, ⟨hturn, hgoing⟩, -, hto, ⟨hon, -⟩, ⟨hcell, -⟩, -⟩ := id hok
  have hlifts := h.lifts hok
  have hend : s.vm.endGame = false := h.ended.trans hgoing
  have hmoved := (h.dropped_moved hok).turn
  have hready : (ensureBoard (Display.mode115 images) s.vm).Sound := h.inGame.sound
  have hp : c.p < 32 := hready.piece_lt _ _ (isCell_of_onBoard hon)
    ((h.board_eq (isCell_of_onBoard hon)).trans hcell)
  have heq := hlifts.dropped_eq hend
  have halive : (c.gesture.dropped (Display.mode115 images) s).crashed = false := by
    rw [heq]
    exact (hlifts.carrying hend).alive
  obtain ⟨w, hw, hwsound, hwseat⟩ : ∃ w : Vm, { ensureBoard (Display.mode115 images) s.vm with
      cursor := updateCursor (Display.mode115 images).toGeometry c.gesture.press s.vm.cursor } = w ∧
      w.Sound ∧ w.toSeat = seat (Display.mode115 images) s.vm :=
    ⟨_, rfl, ⟨hready.1, hready.2, hready.3, hready.4, hready.5, hready.6, hready.7⟩, rfl⟩
  have hlifted : (c.gesture.lifted (Display.mode115 images) s).vm =
      press (Display.mode115 images) w c.p c.x c.y := by
    rw [← hw]
    exact congrArg Instance.vm (hlifts.pressed_eq hend)
  have hvm : (c.gesture.dropped (Display.mode115 images) s).vm =
      release (Display.mode115 images) (follow { press (Display.mode115 images) w c.p c.x c.y with
        cursor := c.releaseCursor v.cursor } c.p) c.p := by
    rw [heq, h.cursor_eq c, ← hlifted]
  rw [hvm] at hmoved ⊢
  -- the turn is lost with the move, which tells the two ends of a drag apart
  have hmine : w.toSeat.myTurn = true := by
    rw [hwseat, seat_myTurn]
    exact h.turn.trans hturn
  obtain ⟨hsound, hseat⟩ := release_seat (d := Display.mode115 images) hwsound hp hon hto hmine
    hmoved
  rw [hwseat] at hseat
  exact ⟨⟨halive, hsound⟩, hseat⟩

/-- **A drag makes its move**, and announces it. -/
theorem moved (hsent : sent = []) :
    Stands images (c.gesture.dropped (Display.mode115 images) s) (v.moved c)
      (message c.origin c.target) := by
  obtain ⟨-, ⟨-, hgoing⟩, -⟩ := id hok
  have hlifts := h.lifts hok
  obtain ⟨halive, -, hcarry⟩ := hlifts.carrying (h.ended.trans hgoing)
  have herased : Erased (Display.mode115 images)
      (c.gesture.dropped (Display.mode115 images) s).vm :=
    erased_run (.inl h.playing) h.erased
      [.inl (.event 0 (.mouse c.press)), .inl (.event 0 (.mouse c.release))]
  have hcursor : (c.gesture.dropped (Display.mode115 images) s).vm.cursor =
      c.releaseCursor v.cursor :=
    (Instance.cursor_step halive hcarry.playing 0 c.release).trans (h.cursor_eq c)
  obtain ⟨⟨halive', hsound⟩, hseat⟩ := h.dropped_seat hok
  generalize c.gesture.dropped (Display.mode115 images) s = t
    at herased hcursor halive' hsound hseat ⊢
  have hensure : ensureBoard (Display.mode115 images) t.vm = t.vm :=
    ensureBoard_of_created hsound.created
  have hstate : t.vm.gameState = .playing :=
    (congrArg Seat.gameState hseat).trans ((seat_gameState _ _).trans h.playing)
  refine ⟨⟨?_, .inl hstate⟩, halive', hstate, ?_, ?_, ?_, ?_, ?_, ?_, ?_, ?_, herased, hcursor⟩
  · rw [Ready, hensure]
    exact hsound
  · exact (congrArg Seat.player hseat).trans ((seat_player _ _).trans h.player)
  · exact congrArg Seat.myTurn hseat
  · have hend := congrArg Seat.endGame hseat
    simp only [Seat.accept, Seat.press, seat_endGame, h.ended, hgoing, Bool.false_or,
      h.cells] at hend
    exact hend
  · exact congrArg Seat.dragging hseat
  · have htransmit := congrArg Seat.transmit hseat
    simp only [Seat.accept, Seat.press, seat_transmit, h.transmit, hsent] at htransmit
    exact htransmit.trans (Seat.foldl_enqueue (by simp [message]))
  · exact (congrArg Seat.receive hseat).trans ((seat_receive _ _).trans h.receive_nil)
  · exact (congrArg Seat.line hseat).trans ((seat_line _ _).trans h.line_nil)
  · rw [seat, hensure, hseat]
    simp only [Seat.accept, Seat.press, h.cells]
    rfl

end Stands

/-! ## The bytes of a move -/

/-- A frame of a game does not move the cursor. -/
theorem cursor_frame {d : Display} {vm vm' : Vm} (hstate : vm.gameState = .playing ∨
    vm.gameState = .exit) {arrivals : ℕ} (h : handleEvent d arrivals .newFrame vm = some vm') :
    vm'.cursor = vm.cursor := by
  rcases hstate with hplay | hexit
  · rw [handleEvent_frame hplay] at h
    obtain ⟨w, hbyte, rfl⟩ := Option.map_eq_some_iff.mp h
    have hcursor : (leaveGame (ensureBoard d vm)).cursor = vm.cursor := by
      obtain ⟨board, heap, redraw, hframe⟩ := ensureBoard_frame d vm
      rw [cursor_leaveGame, hframe]
    obtain rfl | rfl | rfl | ⟨move, byteOfMove, rfl⟩ | ⟨p, gameState, won, -, -, -, rfl⟩ :=
      parseByte_cases hbyte
    · exact hcursor
    · exact hcursor
    · exact hcursor
    · exact hcursor
    · exact hcursor
  · rw [handleEvent_over hexit] at h
    obtain rfl := Option.some.inj h
    rfl

/-- A byte that arrives and is polled does not move the cursor. -/
theorem cursor_feed {d : Display} {s : Instance} (h : InGame d s.vm) (b : UInt8) :
    (run (Instance.stepInput d) s (feed b)).vm.cursor = s.vm.cursor := by
  have hstep : ∀ (t : Instance) (i : Action ⊕ UInt8), InGame d t.vm → i ∈ feed b →
      (t.stepInput d i).vm.cursor = t.vm.cursor := by
    intro t i ht hi
    rcases t.stepInput_cases d i with ⟨arrivals, event, vm', rfl, -, hev, heq⟩ |
      ⟨transmit, receive, line, heq, -, -⟩
    · obtain ⟨-, rfl⟩ : arrivals = 0 ∧ event = .newFrame := by simpa [feed] using hi
      rw [heq]
      exact cursor_frame ht.state hev
    · rw [heq]
  have hrun : ∀ (inputs : List (Action ⊕ UInt8)) (t : Instance), InGame d t.vm →
      (∀ i ∈ inputs, i ∈ feed b) →
        (run (Instance.stepInput d) t inputs).vm.cursor = t.vm.cursor := by
    intro inputs
    induction inputs with
    | nil => exact fun _ _ _ => rfl
    | cons i inputs ih =>
      intro t ht hall
      rw [run_cons, ih _ (inGame_stepInput ht i) fun j hj => hall j (List.mem_cons_of_mem _ hj)]
      exact hstep t i ht (hall i List.mem_cons_self)
  exact hrun (feed b) s h fun _ hi => hi

/-- An instance in a game stays in it, or leaves it. -/
theorem inGame_run {d : Display} {s : Instance} (h : InGame d s.vm)
    (inputs : List (Action ⊕ UInt8)) : InGame d (run (Instance.stepInput d) s inputs).vm :=
  Transition.run_invariant (fun s : Instance => InGame d s.vm)
    (fun _ i hs => inGame_stepInput hs i) h inputs

theorem cursor_feeds {d : Display} {s : Instance} (h : InGame d s.vm) (bytes : List UInt8) :
    (run (Instance.stepInput d) s (bytes.flatMap feed)).vm.cursor = s.vm.cursor := by
  induction bytes generalizing s with
  | nil => rfl
  | cons b bytes ih =>
    rw [List.flatMap_cons, run_append, ih (inGame_run h (feed b)), cursor_feed h b]

namespace Stands

variable {images : Images} {s : Instance} {v : Diagram} {sent : List UInt8}
  (h : Stands images s v sent)
include h

/-- An instance at rest listens. -/
theorem listening (hgoing : v.ended = false) :
    Listening (Display.mode115 images) s (seat (Display.mode115 images) s.vm) :=
  ⟨h.inGame, h.alive, rfl, (seat_gameState _ _).trans h.playing,
    (seat_receive _ _).trans h.receive_nil, (seat_line _ _).trans h.line_nil,
    (seat_endGame _ _).trans (h.ended.trans hgoing)⟩

/-- Bytes that have arrived are parsed. -/
theorem settled (hgoing : v.ended = false) {bytes : List UInt8} {r : Seat}
    (hsettle : settle (seat (Display.mode115 images) s.vm) bytes = some r)
    (hplay : r.gameState = .playing) :
    Stands images (run (Instance.stepInput (Display.mode115 images)) s (bytes.flatMap feed))
      { v with turn := r.myTurn, cells := r.cells } sent := by
  obtain ⟨hplayer, hend, hdrag, htransmit⟩ := settle_frame hsettle
  have hheard := (h.listening hgoing).run_feeds hsettle hplay
  have hcursor := cursor_feeds h.inGame bytes
  have herased : Erased (Display.mode115 images) (run (Instance.stepInput (Display.mode115 images))
      s (bytes.flatMap feed)).vm := erased_run (.inl h.playing) h.erased _
  generalize run _ s (bytes.flatMap feed) = t at hheard hcursor herased ⊢
  obtain ⟨hgame, halive, rfl, -, hreceive, hline, -⟩ := hheard
  simp only [seat_gameState, seat_player, seat_endGame, seat_dragging, seat_transmit,
    seat_receive, seat_line] at hplay hplayer hend hdrag htransmit hreceive hline
  exact ⟨hgame, halive, hplay, hplayer.trans h.player, (seat_myTurn _ _).symm, hend.trans h.ended,
    hdrag.trans h.idle, htransmit.trans h.transmit, hreceive, hline, rfl, herased,
    hcursor.trans h.cursor⟩

/-- The turn comes back. -/
theorem turned (hgoing : v.ended = false) :
    Stands images (run (Instance.stepInput (Display.mode115 images)) s (feed yourTurn))
      { v with turn := true } sent := by
  have hsettle : settle (seat (Display.mode115 images) s.vm) [yourTurn] =
      some { seat (Display.mode115 images) s.vm with myTurn := true } := by
    rw [settle, List.foldlM_cons, Seat.parse_yourTurn]
    rfl
  have hturned := h.settled hgoing hsettle (h.listening hgoing).playing
  rw [List.flatMap_cons, List.flatMap_nil, List.append_nil] at hturned
  rwa [h.cells] at hturned

/-- **A message that has arrived is decoded**, unless it names the first cell. -/
theorem heard (hgoing : v.ended = false) {o n : ℤ} (ho : IsCell o) (hn : IsCell n)
    (hmove : o = 0 ∨ n = 0 ∨ (v.cells o ≠ none ∧ Seat.kingAt v.cells n = false)) :
    Stands images (run (Instance.stepInput (Display.mode115 images)) s
      ((message o n).flatMap feed)) (v.heard o n) sent := by
  have hplaying := (h.listening hgoing).playing
  obtain ⟨r, hsettle, hplay, hturn, hcells⟩ : ∃ r,
      settle (seat (Display.mode115 images) s.vm) (message o n) = some r ∧
        r.gameState = .playing ∧ r.myTurn = true ∧ r.cells = (v.heard o n).cells := by
    -- the position byte of the first cell is `0`
    by_cases hfirst : o = 0 ∨ n = 0
    · obtain ⟨byteOfMove, origin, hsettle⟩ :=
        settle_message_first (s := seat (Display.mode115 images) s.vm) ho hn hfirst
      refine ⟨_, hsettle, hplaying, rfl, ?_⟩
      dsimp only [Diagram.heard]
      rw [if_pos hfirst, h.cells]
    · have ho0 : o ≠ 0 := fun h0 => hfirst (.inl h0)
      have hn0 : n ≠ 0 := fun h0 => hfirst (.inr h0)
      obtain ⟨hcell, hking⟩ := (hmove.resolve_left ho0).resolve_left hn0
      obtain ⟨p, hp⟩ := Option.ne_none_iff_exists'.mp hcell
      have hp' : (seat (Display.mode115 images) s.vm).cells o = some p := by rw [h.cells, hp]
      refine ⟨_, settle_message ho hn ho0 hn0 hp', ?_, rfl, ?_⟩
      · simp only [Seat.received, h.cells, hking, Bool.false_eq_true, if_false]
        exact hplaying
      · simp only [Seat.received, Diagram.heard, hfirst, if_false, hp, h.cells]
  have hheard := h.settled hgoing hsettle hplay
  rwa [hturn, hcells] at hheard

/-- A byte is written to THR. -/
theorem write {b : UInt8} {rest : List UInt8} (hsent : sent = b :: rest) :
    (s.written (.spWrite (some 0x20)) = [b]) ∧
      Stands images (s.step (Display.mode115 images) (.spWrite (some 0x20))) v rest := by
  have hready : Ready (Display.mode115 images) s.vm := h.inGame.sound
  have hlist : s.vm.transmitQueue.toList = b :: rest := h.transmit.trans hsent
  obtain ⟨hb, hrest⟩ := hready.transmit.1.removeFromQueue_of_cons hlist
  -- THR is empty, and there is a byte to write
  have hfull : queueIsEmpty s.vm.transmitQueue = false := by
    rw [← Bool.not_eq_true, Queue.queueIsEmpty_iff, hlist]
    exact List.cons_ne_nil _ _
  have hwrite : (spWrite (some 0x20) true s.vm.transmitQueue).2 =
      ((removeFromQueue s.vm.transmitQueue).2, some b) := by
    have hcheck : spCheckWrite (some 0x20) = true := by decide
    simp only [spWrite, hfull, hcheck, Bool.not_false, Bool.and_self, if_true, hb]
  have hgame := inGame_stepInput h.inGame (.inl (.spWrite (some 0x20)))
  have herased := erased_run (.inl h.playing) h.erased [.inl (.spWrite (some 0x20))]
  have hstep : s.step (Display.mode115 images) (.spWrite (some 0x20)) = { s with
      vm := { s.vm with transmitQueue := (removeFromQueue s.vm.transmitQueue).2 } } := by
    rw [Instance.step_of_alive h.alive]
    dsimp only
    rw [hwrite]
  rw [Transition.run_cons, Transition.run_nil] at herased
  simp only [Instance.stepInput, hstep] at hgame herased
  constructor
  · simp only [Instance.written, h.alive, Bool.false_eq_true, if_false, hwrite]
    rfl
  · rw [hstep]
    refine ⟨hgame, h.alive, h.playing, h.player, h.turn, h.ended, h.idle, hrest, h.receive_nil,
      h.line_nil, ?_, herased, h.cursor⟩
    have hseat := (hready.withTransmit ⟨(hready.transmit.1.removeFromQueue),
      (Queue.capacity_removeFromQueue _).trans hready.transmit.2⟩).2
    exact (congrArg Seat.cells hseat).trans h.cells

end Stands

/-! ## Games -/

/-- The steps of a byte, at the two ends. -/
theorem run_pass {d : Display} {s : System} {e : Side} {b : UInt8}
    (hw : (s e).written (.spWrite (some 0x20)) = [b]) :
    run (System.step d) s (pass e) e = (s e).step d (.spWrite (some 0x20)) ∧
      run (System.step d) s (pass e) e.other =
        run (Instance.stepInput d) (s e.other) (feed b) := by
  have hquiet : ∀ t : Instance, t.written (.spRead true) = [] ∧
      t.written (.event 0 .newFrame) = [] := by
    intro t
    constructor <;> simp [Instance.written]
  have hreceive : ∀ t : Instance, t.receive [] = t := fun t => by simp [Instance.receive]
  constructor
  · simp [pass, System.step, hquiet, hreceive]
  · simp [pass, feed, System.step, hw, Instance.stepInput]

/-- The bytes `bytes` of an end are passed on. -/
theorem Stands.passes {images : Images} {s : System} {e : Side} {v : Diagram}
    {bytes rest : List UInt8} (h : Stands images (s e) v (bytes ++ rest)) :
    Stands images (run (System.step (Display.mode115 images)) s
      (bytes.flatMap fun _ => pass e) e) v rest ∧
    run (System.step (Display.mode115 images)) s (bytes.flatMap fun _ => pass e) e.other =
      run (Instance.stepInput (Display.mode115 images)) (s e.other) (bytes.flatMap feed) := by
  -- byte by byte: written by `e`, then read and polled by the other end
  induction bytes generalizing s with
  | nil => exact ⟨h, rfl⟩
  | cons b bytes ih =>
    obtain ⟨hw, hwrite⟩ := h.write rfl
    obtain ⟨hself, hother⟩ := run_pass (d := Display.mode115 images) hw
    rw [← hself] at hwrite
    obtain ⟨hstands, hrun⟩ := ih hwrite
    rw [List.flatMap_cons, List.flatMap_cons, run_append, run_append, hrun, hother]
    exact ⟨hstands, rfl⟩

/-- The drag of a click at the end `e`. -/
def Click.drag (c : Click) (e : Side) : List (Side × Action) :=
  [(e, .event 0 (.mouse c.press)), (e, .event 0 (.mouse c.release))]

/-- The other end sees nothing of a drag. -/
theorem stands_drag {images : Images} {s : System} {e : Side} {v : Diagram}
    (h : Stands images (s e) v []) {c : Click} (hok : c.Ok v) :
    Stands images (run (System.step (Display.mode115 images)) s (c.drag e) e) (v.moved c)
        (message c.origin c.target) ∧
      run (System.step (Display.mode115 images)) s (c.drag e) e.other = s e.other := by
  have hquiet : ∀ (t : Instance) (packet : Packet),
      t.written (.event 0 (.mouse packet)) = [] := by
    intro t packet
    simp [Instance.written]
  have hreceive : ∀ t : Instance, t.receive [] = t := fun t => by simp [Instance.receive]
  have hdrag : run (System.step (Display.mode115 images)) s (c.drag e) e =
      c.gesture.dropped (Display.mode115 images) (s e) := by
    simp only [Click.drag, run_cons, run_nil, System.step, if_true]
    rfl
  refine ⟨?_, by simp [Click.drag, System.step, hquiet, hreceive]⟩
  rw [hdrag]
  exact h.moved hok rfl

/-- A click of the end `e`, and the way of its four bytes. -/
def Click.acts (c : Click) (e : Side) : List (Side × Action) :=
  c.drag e ++ (message c.origin c.target).flatMap fun _ => pass e

/-- The other end goes on when it hears of the move: it holds a piece where the move starts, and
does not lose its king; or it does not decode the move. -/
def Diagram.Hears (v : Diagram) (c : Click) : Prop :=
  v.ended = false ∧ (c.origin = 0 ∨ c.target = 0 ∨
    (v.cells c.origin ≠ none ∧ Seat.kingAt v.cells c.target = false))

instance (v : Diagram) (c : Click) : Decidable (v.Hears c) := by
  unfold Diagram.Hears
  infer_instance

/-- **A click, from end to end.** -/
theorem stands_click {images : Images} {s : System} {e : Side} {v v' : Diagram}
    (h : Stands images (s e) v []) (h' : Stands images (s e.other) v' []) {c : Click}
    (hok : c.Ok v) (hhears : v'.Hears c) :
    Stands images (run (System.step (Display.mode115 images)) s (c.acts e) e) (v.moved c) [] ∧
      Stands images (run (System.step (Display.mode115 images)) s (c.acts e) e.other)
        (v'.heard c.origin c.target) [] := by
  obtain ⟨-, -, -, -, ⟨hon, hon'⟩, -⟩ := id hok
  obtain ⟨hmoved, hstays⟩ := stands_drag h hok
  rw [Click.acts, run_append]
  rw [← List.append_nil (message _ _)] at hmoved
  obtain ⟨hstands, hrun⟩ := hmoved.passes
  refine ⟨hstands, ?_⟩
  rw [hrun, hstays]
  exact h'.heard hhears.1 (isCell_of_onBoard hon) (isCell_of_onBoard hon') hhears.2

/-- The two ends click in turns. -/
def clicks : Side → List Click → List (Side × Action)
  | _, [] => []
  | e, c :: cs => c.acts e ++ clicks e.other cs

/-- The diagrams behind the clicks: the one of the end to move, and the other one. -/
def Diagram.after : Diagram → Diagram → List Click → Diagram × Diagram
  | v, v', [] => (v, v')
  | v, v', c :: cs => Diagram.after (v'.heard c.origin c.target) (v.moved c) cs

/-- Every click makes a move, and the other end goes on. -/
def Diagram.Plays : Diagram → Diagram → List Click → Prop
  | _, _, [] => True
  | v, v', c :: cs => c.Ok v ∧ v'.Hears c ∧
      Diagram.Plays (v'.heard c.origin c.target) (v.moved c) cs

instance Diagram.decidablePlays : ∀ (v v' : Diagram) (cs : List Click), Decidable (v.Plays v' cs)
  | _, _, [] => isTrue trivial
  | v, v', c :: cs =>
    have : Decidable (Diagram.Plays (v'.heard c.origin c.target) (v.moved c) cs) :=
      Diagram.decidablePlays _ _ cs
    inferInstanceAs (Decidable (c.Ok v ∧ v'.Hears c ∧
      Diagram.Plays (v'.heard c.origin c.target) (v.moved c) cs))

/-- The end to move behind the clicks. -/
def sideAfter : Side → List Click → Side
  | e, [] => e
  | e, _ :: cs => sideAfter e.other cs

/-- **A game of clicks** leaves the computed diagrams at its two ends. -/
theorem stands_clicks {images : Images} {s : System} {e : Side} {v v' : Diagram}
    (h : Stands images (s e) v []) (h' : Stands images (s e.other) v' []) {cs : List Click}
    (hplays : v.Plays v' cs) :
    let s' := run (System.step (Display.mode115 images)) s (clicks e cs)
    Stands images (s' (sideAfter e cs)) (v.after v' cs).1 [] ∧
      Stands images (s' (sideAfter e cs).other) (v.after v' cs).2 [] := by
  -- on the clicks; the two ends change places behind each of them
  induction cs generalizing s e v v' with
  | nil => exact ⟨h, h'⟩
  | cons c cs ih =>
    obtain ⟨hok, hhears, hrest⟩ := hplays
    obtain ⟨hmoved, hheard⟩ := stands_click h h' hok hhears
    rw [clicks, run_append]
    exact ih hheard (by rwa [Side.other_other]) hrest

/-! ## The moves of a game of clicks -/

/-- The moves of the clicks. -/
def clickMoves : Side → List Click → List (Side × ℤ × ℤ)
  | _, [] => []
  | e, c :: cs => (e, c.origin, c.target) :: clickMoves e.other cs

/-- Only packets make moves. -/
theorem moves_of_no_mouse {d : Display} {s : System} {acts : List (Side × Action)}
    (h : ∀ a ∈ acts, ∀ k packet, a.2 ≠ .event k (.mouse packet)) : moves d s acts = [] := by
  induction acts generalizing s with
  | nil => rfl
  | cons a acts ih =>
    obtain ⟨ha, hacts⟩ := List.forall_mem_cons.mp h
    have hnone : System.accepted d s a = none := by
      obtain ⟨e, act⟩ := a
      unfold System.accepted
      split
      · rfl
      · rcases act with ⟨k, event⟩ | lsr | arrived
        · cases event with
          | mouse packet => exact absurd rfl (ha k packet)
          | newFrame => rfl
          | keyboard scanCode => rfl
        · rfl
        · rfl
    rw [moves, Transition.outputs_cons, hnone]
    exact ih hacts

/-- The bytes on their way make no move. -/
theorem moves_passes (d : Display) (s : System) (e : Side) (bytes : List UInt8) :
    moves d s (bytes.flatMap fun _ => pass e) = [] := by
  refine moves_of_no_mouse fun a ha k packet => ?_
  obtain ⟨b, -, ha⟩ := List.mem_flatMap.mp ha
  simp only [pass, List.mem_cons, List.not_mem_nil, or_false] at ha
  rcases ha with rfl | rfl | rfl <;> simp

/-- The press of a click begins its drag, and makes no move. -/
theorem Stands.pressed {images : Images} {s : System} {e : Side} {v : Diagram} {c : Click}
    (h : Stands images (s e) v []) (hok : c.Ok v) :
    Carrying (Display.mode115 images) (ensureBoard (Display.mode115 images) (s e).vm)
        (System.step (Display.mode115 images) s (e, .event 0 (.mouse c.press)) e) c.p c.x c.y ∧
      System.accepted (Display.mode115 images) s (e, .event 0 (.mouse c.press)) = none := by
  obtain ⟨-, ⟨-, hgoing⟩, -⟩ := id hok
  have hcarry := (h.lifts hok).carrying (h.ended.trans hgoing)
  have hpressed : System.step (Display.mode115 images) s (e, .event 0 (.mouse c.press)) e =
      c.gesture.lifted (Display.mode115 images) (s e) := by
    simp only [System.step, if_true]
    rfl
  have hkept : ((s e).step (Display.mode115 images) (.event 0 (.mouse c.press))).vm.myTurn =
      true := hcarry.dragging.turn
  rw [hpressed]
  exact ⟨hcarry, by
    simp [System.accepted, h.alive, Instance.acceptedMove_of_kept h.alive hkept]⟩

/-- The drag of a click makes its move. -/
theorem Stands.moves_drag {images : Images} {s : System} {e : Side} {v : Diagram} {c : Click}
    (h : Stands images (s e) v []) (hok : c.Ok v) :
    moves (Display.mode115 images) s (c.drag e) = [(e, c.origin, c.target)] := by
  obtain ⟨-, -, -, hto, ⟨hon, -⟩, -⟩ := id hok
  obtain ⟨⟨halive, -, hdrag⟩, hpress⟩ := h.pressed hok
  have hlost := (h.dropped_moved hok).turn
  have hsquare : (c.gesture.cursor (Display.mode115 images) (s e)).InSquare mode115 c.x' c.y' := by
    rw [h.cursor_eq c]
    exact hto
  have hpressed : System.step (Display.mode115 images) s (e, .event 0 (.mouse c.press)) e =
      c.gesture.lifted (Display.mode115 images) (s e) := by
    simp only [System.step, if_true]
    rfl
  have hrelease : System.accepted (Display.mode115 images)
      (System.step (Display.mode115 images) s (e, .event 0 (.mouse c.press)))
      (e, .event 0 (.mouse c.release)) = some (e, c.origin, c.target) := by
    rw [hpressed] at halive hdrag
    have hmove := Instance.acceptedMove_of_lost halive hdrag.playing hdrag.turn hlost hsquare
    rw [hdrag.inicialCell_eq hon] at hmove
    simp only [System.accepted, hpressed, halive, Bool.false_eq_true, if_false]
    exact congrArg (Option.map fun m => (e, m)) hmove
  simp only [moves, Click.drag, Transition.outputs_cons, Transition.outputs_nil, hpress, hrelease]
  rfl

/-- A listening instance reads a move up to its destination. -/
theorem Listening.read_move {d : Display} {s : Instance} {r : Seat} (h : Listening d s r)
    {o n : ℤ} (ho : IsCell o) (hn : IsCell n) (ho0 : o ≠ 0) (hn0 : n ≠ 0) {p : PieceRef}
    (hp : r.cells o = some p) :
    (run (Instance.stepInput d) s ([beginMessage, cellByte o, cellByte n].flatMap
        feed)).vm.receiveQueue.toList = [] ∧
      (run (Instance.stepInput d) s ([beginMessage, cellByte o, cellByte n].flatMap
        feed)).vm.line = [] := by
  have hsettle : settle r [beginMessage, cellByte o] =
      some { r with byteOfMove := 1, origin := o } := by
    have horigin : ({ r with byteOfMove := 0 } : Seat).parse (cellByte o) =
        some { r with byteOfMove := 1, origin := o } := by
      rw [Seat.parse_cellByte _ ho ho0]
      rfl
    rw [settle, List.foldlM_cons, Seat.parse_beginMessage]
    simp only [Option.bind_eq_bind, Option.bind_some, List.foldlM_cons, horigin, List.foldlM_nil]
    rfl
  have hlisten := h.run_feeds hsettle h.playing
  obtain ⟨r', hparse⟩ : ∃ r', ({ r with byteOfMove := 1, origin := o } : Seat).parse
      (cellByte n) = some r' := by
    rw [Seat.parse_cellByte _ hn hn0, if_neg Nat.one_ne_zero, Seat.receiveMove]
    simp only [hp]
    exact ⟨_, rfl⟩
  have hseat := hlisten.seat_feed hparse
  obtain ⟨-, -, -, -, -, hreceive, hline⟩ := Seat.parse_frame hparse
  have hrun : run (Instance.stepInput d) s ([beginMessage, cellByte o, cellByte n].flatMap feed) =
      run (Instance.stepInput d) (run (Instance.stepInput d) s
        ([beginMessage, cellByte o].flatMap feed)) (feed (cellByte n)) := run_append _ _ _ _
  rw [hrun, ← seat_receive d, ← seat_line d, hseat, hreceive, hline]
  exact ⟨h.receive, h.line⟩

/-- A click of the end `e`, and the way of its bytes but for the turn. -/
def Click.begun (c : Click) (e : Side) : List (Side × Action) :=
  c.drag e ++ [beginMessage, cellByte c.origin, cellByte c.target].flatMap fun _ => pass e

/-- **A click whose turn is not passed on yet**: the other end has read the move, whether it goes
on or leaves the game. -/
theorem stands_begun {images : Images} {s : System} {e : Side} {v v' : Diagram}
    (h : Stands images (s e) v []) (h' : Stands images (s e.other) v' []) {c : Click}
    (hok : c.Ok v) (hgoing : v'.ended = false) (ho0 : c.origin ≠ 0) (hn0 : c.target ≠ 0)
    {p : PieceRef} (hp : v'.cells c.origin = some p) :
    Stands images (run (System.step (Display.mode115 images)) s (c.begun e) e) (v.moved c)
        [yourTurn] ∧
      incoming (table (Display.mode115 images)
        (run (System.step (Display.mode115 images)) s (c.begun e))) e.other = [yourTurn] ∧
      moves (Display.mode115 images) s (c.begun e) = [(e, c.origin, c.target)] := by
  obtain ⟨-, -, -, -, ⟨hon, hon'⟩, -⟩ := id hok
  obtain ⟨hmoved, hstays⟩ := stands_drag h hok
  obtain ⟨hstands, hrun⟩ := @Stands.passes images _ e _
    [beginMessage, cellByte c.origin, cellByte c.target] [yourTurn] hmoved
  have hread := (h'.listening hgoing).read_move (o := c.origin) (n := c.target)
    (isCell_of_onBoard hon) (isCell_of_onBoard hon') ho0 hn0 ((congrFun h'.cells _).trans hp)
  have hmoves := h.moves_drag hok
  have hpasses := moves_passes (Display.mode115 images) (run (System.step (Display.mode115 images))
    s (c.drag e)) e [beginMessage, cellByte c.origin, cellByte c.target]
  rw [hstays] at hrun
  rw [Click.begun, run_append]
  refine ⟨hstands, ?_, ?_⟩
  · obtain ⟨hreceive, hline⟩ := hread
    simp only [incoming, table, seat_receive, seat_line, seat_transmit, hrun, Side.other_other,
      hreceive, hline, hstands.transmit, List.nil_append]
  · rw [moves] at hmoves hpasses ⊢
    rw [Transition.outputs_append, hmoves, hpasses, List.append_nil]

/-- **A game of clicks** makes the moves of its clicks. -/
theorem moves_clicks {images : Images} {s : System} {e : Side} {v v' : Diagram}
    (h : Stands images (s e) v []) (h' : Stands images (s e.other) v' []) {cs : List Click}
    (hplays : v.Plays v' cs) :
    moves (Display.mode115 images) s (clicks e cs) = clickMoves e cs := by
  induction cs generalizing s e v v' with
  | nil => rfl
  | cons c cs ih =>
    obtain ⟨hok, hhears, hrest⟩ := hplays
    obtain ⟨hmoved, hheard⟩ := stands_click h h' hok hhears
    have hclick : moves (Display.mode115 images) s (c.acts e) = [(e, c.origin, c.target)] := by
      rw [Click.acts, moves, Transition.outputs_append]
      exact congrArg₂ (· ++ ·) (h.moves_drag hok) (moves_passes _ _ e _)
    rw [clicks, clickMoves, moves, Transition.outputs_append]
    exact congrArg₂ (· ++ ·) hclick (ih hheard (by rwa [Side.other_other]) hrest)

/-- No key is pressed. -/
def Keyless (acts : List (Side × Action)) : Prop :=
  ∀ a ∈ acts, ∀ k code, a.2 ≠ .event k (.keyboard code)

theorem Keyless.append {acts bcts : List (Side × Action)} (h : Keyless acts) (h' : Keyless bcts) :
    Keyless (acts ++ bcts) := fun a ha => (List.mem_append.mp ha).elim (h a) (h' a)

theorem keyless_drag (c : Click) (e : Side) : Keyless (c.drag e) := by simp [Keyless, Click.drag]

theorem keyless_passes (e : Side) (bytes : List UInt8) :
    Keyless (bytes.flatMap fun _ => pass e) := by
  intro a ha
  obtain ⟨b, -, ha⟩ := List.mem_flatMap.mp ha
  simp only [pass, List.mem_cons, List.not_mem_nil, or_false] at ha
  rcases ha with rfl | rfl | rfl <;> simp

/-- A game of clicks needs no key. -/
theorem keyless_clicks (e : Side) (cs : List Click) : Keyless (clicks e cs) := by
  induction cs generalizing e with
  | nil => exact fun a ha => absurd ha List.not_mem_nil
  | cons c cs ih => exact ((keyless_drag c e).append (keyless_passes e _)).append (ih e.other)

/-- **A game of clicks whose last move ends it**, or leaves the turn on its way. -/
theorem stands_game {images : Images} {s : System} {e : Side} {v v' : Diagram}
    (h : Stands images (s e) v []) (h' : Stands images (s e.other) v' []) {cs : List Click}
    (hplays : v.Plays v' cs) {c : Click} (hok : c.Ok (v.after v' cs).1)
    (hgoing : (v.after v' cs).2.ended = false) (ho0 : c.origin ≠ 0) (hn0 : c.target ≠ 0)
    {p : PieceRef} (hp : (v.after v' cs).2.cells c.origin = some p) :
    Stands images (run (System.step (Display.mode115 images)) s
        (clicks e cs ++ c.begun (sideAfter e cs)) (sideAfter e cs)) ((v.after v' cs).1.moved c)
        [yourTurn] ∧
      incoming (table (Display.mode115 images) (run (System.step (Display.mode115 images)) s
        (clicks e cs ++ c.begun (sideAfter e cs)))) (sideAfter e cs).other = [yourTurn] ∧
      moves (Display.mode115 images) s (clicks e cs ++ c.begun (sideAfter e cs)) =
        clickMoves e cs ++ [(sideAfter e cs, c.origin, c.target)] := by
  obtain ⟨hself, hother⟩ := stands_clicks h h' hplays
  have hmoves := moves_clicks h h' hplays
  rw [moves] at hmoves ⊢
  rw [run_append, Transition.outputs_append, hmoves]
  generalize run _ s (clicks e cs) = t at hself hother ⊢
  obtain ⟨hstands, hincoming, hmove⟩ := stands_begun hself hother hok hgoing ho0 hn0 hp
  refine ⟨hstands, hincoming, ?_⟩
  rw [moves] at hmove
  rw [hmove]

/-- The diagram of a new game. -/
def Diagram.initial (player : Player) (cursor : Cursor) : Diagram where
  player := player
  turn := decide (player = .white)
  ended := false
  cells := fun i => if IsCell i then initialCells i else none
  cursor := cursor

/-- A new game stands at its diagram. -/
theorem stands_newGame {images : Images} {s : Instance} (h : NewGame (Display.mode115 images) s.vm)
    (halive : s.crashed = false) (hturn : s.vm.myTurn = decide (s.vm.player = .white)) :
    Stands images s (.initial s.vm.player s.vm.cursor) [] := by
  refine ⟨⟨h.sound, .inl h.playing⟩, halive, h.playing, rfl, hturn, h.endGame, h.dragging,
    h.transmit_nil, h.receive_nil, h.line_nil, ?_, ?_, rfl⟩
  · rw [h.seat_eq]
    rfl
  · rintro -
    rcases h.board with h₀ | ⟨vm₀, h₀, heq⟩
    · exact clean_ensureBoard fun hc => absurd (h₀.symm.trans hc) (by decide)
    · rw [heq, ensureBoard_of_created (boardCreated_ensureBoard _ vm₀)]
      exact clean_ensureBoard fun hc => absurd (h₀.symm.trans hc) (by decide)

/-! ## A raid -/

/-- Two new games in mode `0x115`: the cursor of white is on the knight in square `(1, 7)`, that of
black on the pawn in square `(3, 1)`. -/
def clickMatch : System := fun e =>
  match e with
  | .left =>
    { vm := { Vm.initialGame .white with cursor := ⟨150, 500, false, false⟩ }, crashed := false }
  | .right =>
    { vm := { Vm.initialGame .black with cursor := ⟨270, 150, false, false⟩ }, crashed := false }

/-- A packet with the left button down. -/
def buttonDown (deltaX deltaY : Int16) : Packet :=
  ⟨true, false, false, false, false, deltaX, deltaY⟩

/-- A packet with the left button up. -/
def buttonUp (deltaX deltaY : Int16) : Packet :=
  ⟨false, false, false, false, false, deltaX, deltaY⟩

/-- The diagrams of the two new games. -/
theorem stands_clickMatch :
    Stands Images.blank (clickMatch .left) (.initial .white ⟨150, 500, false, false⟩) [] ∧
      Stands Images.blank (clickMatch .right) (.initial .black ⟨270, 150, false, false⟩) [] := by
  refine ⟨stands_newGame ?_ rfl rfl, stands_newGame ?_ rfl rfl⟩
  · exact { newGame_initialGame (Display.mode115 Images.blank) .white with board := .inl rfl }
  · exact { newGame_initialGame (Display.mode115 Images.blank) .black with board := .inl rfl }

/-- White's knight takes the pawn in square `(2, 1)`, from where it attacks the king, while black
steps forward with a pawn. -/
def raidClicks : List Click :=
  [⟨buttonDown 0 0, buttonUp 59 118, 17, 1, 7, 2, 5⟩,
    ⟨buttonDown 0 0, buttonUp 0 (-59), 11, 3, 1, 3, 2⟩,
    ⟨buttonDown 0 0, buttonUp (-59) 118, 17, 2, 5, 1, 3⟩,
    ⟨buttonDown 0 0, buttonUp 0 (-59), 11, 3, 2, 3, 3⟩,
    ⟨buttonDown 0 0, buttonUp 59 118, 17, 1, 3, 2, 1⟩,
    ⟨buttonDown 0 0, buttonUp 0 (-59), 11, 3, 3, 3, 4⟩]

/-- The knight takes the king. -/
def raidCapture : Click := ⟨buttonDown 0 0, buttonUp 118 59, 17, 2, 1, 4, 0⟩

/-- The diagrams behind the raid. -/
def raidDiagrams : Diagram × Diagram :=
  (Diagram.initial .white ⟨150, 500, false, false⟩).after
    (.initial .black ⟨270, 150, false, false⟩) raidClicks

theorem plays_raidClicks : (Diagram.initial .white ⟨150, 500, false, false⟩).Plays
    (.initial .black ⟨270, 150, false, false⟩) raidClicks := by decide +kernel

/-- **The raid** leaves its diagrams, with white to move. -/
theorem stands_raidClicks :
    let s' := run (System.step (Display.mode115 Images.blank)) clickMatch (clicks .left raidClicks)
    Stands Images.blank (s' .left) raidDiagrams.1 [] ∧
      Stands Images.blank (s' .right) raidDiagrams.2 [] :=
  stands_clicks (e := .left) stands_clickMatch.1 stands_clickMatch.2 plays_raidClicks

/-- The moves of the raid. -/
theorem moves_raidClicks : moves (Display.mode115 Images.blank) clickMatch
    (clicks .left raidClicks) = clickMoves .left raidClicks :=
  moves_clicks (e := .left) stands_clickMatch.1 stands_clickMatch.2 plays_raidClicks

/-- The capture of the king is a move of white behind the raid. -/
theorem raidCapture_ok : raidCapture.Ok raidDiagrams.1 := by decide +kernel

/-- White presses the knight behind the raid. -/
def raidPress : List (Side × Action) :=
  clicks .left raidClicks ++ [(.left, .event 0 (.mouse raidCapture.press))]

/-- The knight is being dragged then, the pawn that it has taken is gone, and no further move has
been made. -/
theorem raidPress_spec :
    let s' := run (System.step (Display.mode115 Images.blank)) clickMatch raidPress
    ((s' .left).vm.draggingPiece = some 17 ∧ (s' .left).vm.inicialPieceCol = 2 ∧
        (s' .left).vm.inicialPieceRow = 1) ∧
      (∀ i, IsCell i → (ensureBoard (Display.mode115 Images.blank) (s' .left).vm).board.board i ≠
        some 10) ∧
      moves (Display.mode115 Images.blank) clickMatch raidPress = clickMoves .left raidClicks := by
  intro s'
  obtain ⟨hcarry, hnone⟩ := stands_raidClicks.1.pressed raidCapture_ok
  have hs' : s' = System.step (Display.mode115 Images.blank)
      (run (System.step (Display.mode115 Images.blank)) clickMatch (clicks .left raidClicks))
      (.left, .event 0 (.mouse raidCapture.press)) := run_append _ _ _ _
  refine ⟨?_, fun i hi => ?_, ?_⟩
  · rw [hs']
    obtain ⟨hcol, hrow⟩ := hcarry.dragging.inicial
    exact ⟨hcarry.dragging.dragging, hcol, hrow⟩
  · rw [hs', ensureBoard_of_created hcarry.dragging.created, hcarry.dragging.cells,
      stands_raidClicks.1.board_eq hi]
    exact forall_isCell (p := fun i => raidDiagrams.1.cells i ≠ some 10) (by decide +kernel) hi
  · have hmoves := moves_raidClicks
    rw [moves] at hmoves ⊢
    rw [raidPress, Transition.outputs_append, hmoves, Transition.outputs_cons, hnone]
    rfl

/-- White's knight takes the king behind the raid, and black has read where it went. -/
def raidGame : List (Side × Action) := clicks .left raidClicks ++ raidCapture.begun .left

/-- White has taken the king then, and `YOUR_TURN` is the only byte left. -/
theorem raidGame_spec :
    let s' := run (System.step (Display.mode115 Images.blank)) clickMatch raidGame
    (s' .left).vm.endGame = true ∧
      incoming (table (Display.mode115 Images.blank) s') .right = [yourTurn] ∧
      moves (Display.mode115 Images.blank) clickMatch raidGame =
        clickMoves .left (raidClicks ++ [raidCapture]) := by
  intro s'
  have hcell : raidDiagrams.2.cells raidCapture.origin = some 17 := by decide +kernel
  have hside : sideAfter .left raidClicks = .left := rfl
  have hgame := stands_game (e := .left) stands_clickMatch.1 stands_clickMatch.2 plays_raidClicks
    raidCapture_ok (by decide +kernel) (by decide) (by decide) hcell
  rw [hside, ← raidGame] at hgame
  obtain ⟨hstands, hincoming, hmoves⟩ := hgame
  exact ⟨hstands.ended.trans (by decide +kernel), hincoming, hmoves⟩

end LCChess
