import LCChess.Game.Chess
import LCChess.Play.PawnFlag
import LCChess.Protocol.Agreement

/-!
# A match is a game of chess

The moves that two instances accept are a game of chess. The highlights of a drag are painted at
its press and tested at its release: in between, the dragging end has the turn, no byte is on its
way to it, and its board stays as it was, so that a highlighted square is a move of the piece on
the board of the release as well.

## Main definitions

* `kinds cells`: the position the cells of a seat show; `ply m`: a move of a match
* `Guided strict s m`: what the board in memory shows fits the seat
* `Guides images strict vm`: an instance paints the moves of its piece
* `Unread t m`, `Behind t e ms`: a move that its receiver has not read, and a board that lacks it
* `TableMatch strict w t ms`: a table on which the game of chess `ms` has been played

## Main results

* `guides_event`: every event keeps the highlights right
* `legal_of_accepted`: an accepted move is one that the painted board allows
* `TableMatch.allowed`: an accepted move is one that chess allows
* `TableMatch.step`: the accepted moves stay a game of chess
-/

namespace LCChess

open Transition (run outputs run_outputs_invariant)

/-! ## Cells as a position -/

/-- The position that cells show. -/
def kinds (cells : ℤ → Option PieceRef) : Position := fun x y =>
  if OnBoard x y then (cells (y * 8 + x)).map kind else none

/-- A move of a match, from square to square. -/
def ply (m : Side × ℤ × ℤ) : Ply := ⟨m.2.1 % 8, m.2.1 / 8, m.2.2 % 8, m.2.2 / 8⟩

theorem kinds_of_onBoard (cells : ℤ → Option PieceRef) {x y : ℤ} (h : OnBoard x y) :
    kinds cells x y = (cells (y * 8 + x)).map kind := if_pos h

/-- The squares of an instance are those of its seat. -/
theorem Vm.Sound.squares_eq {vm : Vm} (h : vm.Sound) :
    squares vm.board.board vm.heap = kinds vm.toSeat.cells := by
  funext x y
  unfold squares kinds
  split
  · rename_i hon
    have hcell := isCell_of_onBoard hon
    rw [show vm.toSeat.cells (y * 8 + x) = vm.board.board (y * 8 + x) from cellsOf_of_isCell hcell]
    cases hp : vm.board.board (y * 8 + x) with
    | none => rfl
    | some p => exact congrArg some (h.type_of_cell hcell hp)
  · rfl

/-- The square of a cell. -/
theorem onBoard_of_isCell {i : ℤ} (h : IsCell i) : OnBoard (i % 8) (i / 8) := by
  unfold IsCell at h
  unfold OnBoard
  omega

/-- The cell of a square determines it. -/
theorem square_of_onBoard {x y : ℤ} (h : OnBoard x y) :
    (y * 8 + x) % 8 = x ∧ (y * 8 + x) / 8 = y := by
  obtain ⟨-, -, hx, hx'⟩ := h
  omega

theorem kinds_of_isCell (cells : ℤ → Option PieceRef) {i : ℤ} (h : IsCell i) :
    kinds cells (i % 8) (i / 8) = (cells i).map kind := by
  rw [kinds_of_onBoard _ (onBoard_of_isCell h), show i / 8 * 8 + i % 8 = i by omega]

/-- A move of the cells is a move of the position they show. -/
theorem kinds_moveFrom {cells : ℤ → Option PieceRef} {o n : ℤ} {p : PieceRef} (ho : IsCell o)
    (hn : IsCell n) (hp : cells o = some p) (e : Side) :
    kinds (Seat.moveFrom cells o n p) = (kinds cells).after (ply (e, o, n)) := by
  have hcell : ∀ {i a b : ℤ}, OnBoard a b → (a = i % 8 ∧ b = i / 8 ↔ b * 8 + a = i) := by
    rintro i a b ⟨-, -, ha, ha'⟩
    omega
  funext a b
  by_cases hon : OnBoard a b
  · simp only [Position.after, ply, hcell hon, kinds_of_isCell cells ho, kinds_of_onBoard _ hon]
    unfold Seat.moveFrom
    by_cases hto : b * 8 + a = n
    · rw [if_pos hto, hto, Function.update_self, hp]
    · rw [if_neg hto, Function.update_of_ne hto]
      by_cases hfrom : b * 8 + a = o
      · rw [if_pos hfrom, hfrom, Function.update_self]
        rfl
      · rw [if_neg hfrom, Function.update_of_ne hfrom]
  · -- both squares of the move are on the board
    have hne : ∀ {i : ℤ}, IsCell i → ¬ (a = i % 8 ∧ b = i / 8) := by
      rintro i hi ⟨rfl, rfl⟩
      exact hon (onBoard_of_isCell hi)
    simp only [Position.after, ply, hne hn, hne ho, if_false, kinds, hon]

/-! ## The highlights of a drag -/

/-- The board in memory `m` fits the seat: outside a drag no square is highlighted, and during
one every highlighted square where the piece may land is a move of it. -/
structure Guided (strict : Prop) (s : Seat) (m : Memory) : Prop where
  erased : s.dragging = none → Clean m
  own : ∀ p, s.dragging = some p → owns s.player (kind p) = true
  move : ∀ p, s.dragging = some p → ∀ a b, OnBoard a b → isOrange mode115 m a b = true →
    Lands (kinds s.cells) (kind p) a b →
    LegalMove (kinds s.cells) (kind p) (strict ∧ s.inicial / 8 ≠ (kind p).homeRow)
      (s.inicial % 8) (s.inicial / 8) a b

/-- The board in memory of an instance fits its seat. -/
def Guides (images : Images) (strict : Prop) (vm : Vm) : Prop :=
  Guided strict (seat (Display.mode115 images) vm)
    (ensureBoard (Display.mode115 images) vm).board.memBoard

/-- A pawn that is pressed off its home row knows that it has moved. -/
def PawnKnows (d : Display) (strict : Prop) (vm : Vm) : Prop :=
  strict → ∀ i p, IsCell i → (ensureBoard d vm).board.board i = some p →
    owns vm.player (kind p) = true → (kind p).isPawn = true → i / 8 ≠ (kind p).homeRow →
    vm.myTurn = true → ((ensureBoard d vm).heap p).pawnMoved = true

/-- A drag that goes on without a byte to read leaves the cells alone. -/
theorem Seat.Event.held {s s' : Seat} {l : Option (ℤ × ℤ)} (h : Seat.Event s l s') {p : PieceRef}
    (hp : s.dragging = some p) (hp' : s'.dragging = some p) (hreceive : s.receive = []) :
    s'.cells = s.cells ∧ s'.inicial = s.inicial ∧ s'.player = s.player := by
  cases h with
  | idle => exact ⟨Seat.cells_leave s, Seat.inicial_leave s, Seat.player_leave s⟩
  | press q i hnone => exact absurd (hnone.symm.trans hp) (by simp)
  | cancel => exact absurd hp' (by simp [Seat.cancel])
  | accept => exact absurd hp' (by simp [Seat.accept])
  | poll _ hpoll =>
    rcases Seat.poll_cases hpoll with ⟨-, rfl⟩ | ⟨b, rest, hb, -⟩
    · exact ⟨Seat.cells_leave s, Seat.inicial_leave s, Seat.player_leave s⟩
    · rw [Seat.receive_leave, hreceive] at hb
      cases hb

/-- What the first lines of the handler keep at a `MOUSE` event. -/
theorem entered_game (d : Display) (vm : Vm) (packet : Packet) :
    (entered d vm packet).heap = (ensureBoard d vm).heap ∧
      (entered d vm packet).myTurn = vm.myTurn ∧ (entered d vm packet).player = vm.player ∧
      (entered d vm packet).animation = vm.animation ∧
      inicialCell (entered d vm packet) = inicialCell vm := by
  obtain ⟨gameState, won, hleave⟩ := leaveGame_frame { ensureBoard d vm with
    cursor := updateCursor d.toGeometry packet vm.cursor }
  obtain ⟨board, heap, redraw, hframe⟩ := ensureBoard_frame d vm
  rw [entered, hleave, hframe]
  exact ⟨rfl, rfl, rfl, rfl, rfl⟩

theorem sound_entered {images : Images} {vm : Vm}
    (h : (ensureBoard (Display.mode115 images) vm).Sound) (packet : Packet) :
    (entered (Display.mode115 images) vm packet).Sound := by
  -- moving the cursor changes nothing the invariant speaks about
  have hcursor : Vm.Sound { ensureBoard (Display.mode115 images) vm with
      cursor := updateCursor (Display.mode115 images).toGeometry packet vm.cursor } :=
    ⟨h.1, h.2, h.3, h.4, h.5, h.6, h.7⟩
  exact (sound_leaveGame hcursor).1

/-- **An accepted move is a release** on a square where the dragged piece may be dropped. -/
theorem drops_of_acceptedMove {d : Display} {vm : Vm} {arrivals : ℕ} {event : Event} {o n : ℤ}
    (h : acceptedMove d arrivals event vm = some (o, n)) :
    ∃ packet p x y, vm.draggingPiece = some p ∧ o = inicialCell vm ∧ n = y * 8 + x ∧
      Drops d (follow (entered d vm packet) p) p x y ∧
      handleEvent d arrivals event vm = some (release d (follow (entered d vm packet) p) p) := by
  unfold acceptedMove at h
  split at h
  · rename_i packet vm' hev
    split_ifs at h with hmove
    obtain ⟨hplay, hturn, hturn'⟩ := hmove
    obtain ⟨rfl, rfl⟩ := Prod.mk.inj (Option.some.inj h)
    rw [handleEvent_mouse hplay] at hev ⊢
    obtain rfl := Option.some.inj hev
    change (playingMouse d (entered d vm packet)).myTurn = false at hturn'
    obtain ⟨hdrag, -, hcursor⟩ := entered_frame d vm packet
    have hmine := (entered_game d vm packet).2.1.trans hturn
    have hbuttons : (entered d vm packet).cursor.pressed = true →
        (entered d vm packet).cursor.released = false := by
      rw [hcursor]
      simp +contextual
    have hlost : ∀ v : Vm, playingMouse d (entered d vm packet) = v → v.myTurn ≠ true := by
      rintro v hv hmine'
      rw [hv, hmine'] at hturn'
      exact absurd hturn' (by decide)
    -- only a release that makes the move gives the turn away
    rcases playingMouse_cases d hbuttons with ⟨-, heq⟩ | ⟨-, p, x, y, -, heq⟩ | ⟨p, -, -, heq⟩ |
      ⟨p, hp, -, heq⟩
    · exact (hlost _ heq hmine).elim
    · exact (hlost _ heq hmine).elim
    · exact (hlost _ heq hmine).elim
    · by_cases hdrops : ∃ x y, Drops d (follow (entered d vm packet) p) p x y
      · obtain ⟨x, y, hdrops⟩ := hdrops
        obtain ⟨hx, hy⟩ := id hdrops.square
        refine ⟨packet, p, x, y, hdrag.symm.trans hp, rfl, ?_, hdrops, congrArg some heq⟩
        unfold cursorCell
        rw [← hx, ← hy, ← hcursor]
        rfl
      · rw [release_putBack fun x y hxy => hdrops ⟨x, y, hxy⟩] at heq
        exact (hlost _ heq hmine).elim
  · simp at h

/-- The square of a release is highlighted on the board from before the packet. -/
theorem orange_of_drops {d : Display} {vm : Vm} {packet : Packet} {p : PieceRef} {x y : ℤ}
    (h : Drops d (follow (entered d vm packet) p) p x y) :
    isOrange d.toGeometry (ensureBoard d vm).board.memBoard x y = true := by
  rw [← (entered_frame d vm packet).2.1]
  exact h.orange

section Guides

variable {images : Images} {strict : Prop} {vm vm' : Vm}

/-- A press on a board without highlights paints the moves of the piece, but for the capture of the
black king by a white pawn. -/
theorem marks_press {w : Vm} (hsound : w.Sound) (hclean : Clean w.board.memBoard) {p : PieceRef}
    {x y : ℤ} (hpress : Presses (Display.mode115 images) w p x y) {a b : ℤ} (hab : OnBoard a b) :
    isOrange mode115 (press (Display.mode115 images) w p x y).board.memBoard a b = true ∧
        Lands (kinds w.toSeat.cells) (kind p) a b ↔
      LegalMove (kinds w.toSeat.cells) (kind p) ((w.heap p).pawnMoved = true) x y a b ∧
        ¬ (kind p = .wPawn ∧ kinds w.toSeat.cells a b = some .bKing) := by
  obtain ⟨-, -, -, hon, hcell, -⟩ := hpress
  have htype := hsound.type_of_cell (isCell_of_onBoard hon) hcell
  have hmem : (press (Display.mode115 images) w p x y).board.memBoard = _ := memBoard_press hon
  have hat : squares w.board.board w.heap x y = some (w.heap p).type := by
    rw [squares_of_onBoard _ _ hon, hcell]
    rfl
  have hiff := isOrange_iff_legalMove hclean hon hab hat
  rw [hsound.squares_eq, htype] at hiff
  rwa [hmem]

/-- The press of a piece paints its moves. -/
theorem guides_press (h : Guides images strict vm) (hsound : Ready (Display.mode115 images) vm)
    (hknows : PawnKnows (Display.mode115 images) strict vm) (hidle : vm.draggingPiece = none)
    {packet : Packet} {p : PieceRef} {x y : ℤ}
    (hpress : Presses (Display.mode115 images) (entered (Display.mode115 images) vm packet) p x y) :
    Guides images strict (press (Display.mode115 images)
      (entered (Display.mode115 images) vm packet) p x y) := by
  have hready : (ensureBoard (Display.mode115 images) vm).Sound := hsound
  have hclean : Clean (ensureBoard (Display.mode115 images) vm).board.memBoard :=
    h.erased ((seat_dragging _ _).trans hidle)
  obtain ⟨-, hboard, -⟩ := entered_frame (Display.mode115 images) vm packet
  have hentered : (entered (Display.mode115 images) vm packet).Sound :=
    sound_entered hready packet
  obtain ⟨hheap, hturn, hplayer, -⟩ := entered_game (Display.mode115 images) vm packet
  rw [PawnKnows, ← hheap, ← hturn, ← hplayer, ← hboard] at hknows
  rw [← hboard] at hclean
  generalize entered (Display.mode115 images) vm packet = w at hpress hentered hclean hknows ⊢
  obtain ⟨-, hmine, -, hon, hcell, hown⟩ := id hpress
  have hi := isCell_of_onBoard hon
  have hp := hentered.piece_lt _ p hi hcell
  have htype := hentered.type_of_cell hi hcell
  obtain ⟨hsound', hseat⟩ := sound_press (d := Display.mode115 images) hentered hp hon
  have hsquare := square_of_onBoard hon
  rw [Guides, seat, ensureBoard_of_created hsound'.created, hseat]
  refine ⟨fun hnone => absurd hnone (by simp [Seat.press]), fun q hq => ?_,
    fun q hq a b hab horange hlands => ?_⟩
  · obtain rfl : p = q := Option.some.inj hq
    rwa [← htype]
  · obtain rfl : p = q := Option.some.inj hq
    simp only [Seat.press, hsquare.1, hsquare.2] at hlands ⊢
    obtain ⟨hlegal, -⟩ := (marks_press hentered hclean hpress hab).mp ⟨horange, hlands⟩
    cases hpawn : (kind p).isPawn with
    | true =>
      refine hlegal.mono fun hmoved => ?_
      exact hknows hmoved.1 _ p hi hcell (htype ▸ hown) hpawn (hsquare.2.symm ▸ hmoved.2) hmine
    | false =>
      -- only a pawn looks at the flag
      rw [LegalMove, if_neg (by simp [hpawn])] at hlegal ⊢
      exact hlegal

/-- A drag that goes on leaves the cells and the side alone. -/
theorem held_event (hgame : InGame (Display.mode115 images) vm)
    (hquiet : ∀ p, vm.draggingPiece = some p → vm.receiveQueue.toList = []) {arrivals : ℕ}
    {event : Event} (hev : handleEvent (Display.mode115 images) arrivals event vm = some vm')
    (hdrag : vm'.draggingPiece = vm.draggingPiece) {p : PieceRef}
    (hp : vm'.draggingPiece = some p) :
    (seat (Display.mode115 images) vm').cells = (seat (Display.mode115 images) vm).cells ∧
      (seat (Display.mode115 images) vm').inicial = (seat (Display.mode115 images) vm).inicial ∧
      (seat (Display.mode115 images) vm').player = (seat (Display.mode115 images) vm).player := by
  rcases hgame.state with hplay | hexit
  · obtain ⟨-, l, hseat, -⟩ := handleEvent_refines hgame.sound hplay hev
    refine hseat.held (p := p) ?_ ?_ ?_
    · rw [seat_dragging, ← hdrag, hp]
    · rw [seat_dragging, hp]
    · rw [seat_receive, hquiet p (hdrag ▸ hp)]
  · rw [(handleEvent_exit hgame.sound hexit hev).2.1]
    exact ⟨rfl, rfl, rfl⟩

/-- **Every event keeps the highlights right.** -/
theorem guides_event (h : Guides images strict vm) (hgame : InGame (Display.mode115 images) vm)
    (hknows : PawnKnows (Display.mode115 images) strict vm)
    (hquiet : ∀ p, vm.draggingPiece = some p → vm.receiveQueue.toList = []) {arrivals : ℕ}
    {event : Event} (hev : handleEvent (Display.mode115 images) arrivals event vm = some vm') :
    Guides images strict vm' := by
  cases markStep_event hgame.state hev with
  | keep _ hdrag hmem =>
    rw [Guides, hmem]
    refine ⟨fun hnone => ?_, fun p hp => ?_, fun p hp => ?_⟩
    · rw [seat_dragging, hdrag] at hnone
      exact h.erased ((seat_dragging _ _).trans hnone)
    · rw [seat_dragging] at hp
      rw [(held_event hgame hquiet hev hdrag hp).2.2]
      exact h.own p (by rw [seat_dragging, ← hdrag, hp])
    · rw [seat_dragging] at hp
      obtain ⟨hcells, hinicial, -⟩ := held_event hgame hquiet hev hdrag hp
      rw [hcells, hinicial]
      exact h.move p (by rw [seat_dragging, ← hdrag, hp])
  | press arrivals hidle hpress => exact guides_press h hgame.sound hknows hidle hpress
  | repaint _ m hnone hcreated hmem =>
    rw [Guides, ensureBoard_of_created hcreated, hmem]
    have hnone' : (seat (Display.mode115 images) vm').dragging = none :=
      (seat_dragging _ _).trans hnone
    refine ⟨fun _ => clean_drawBoard m, fun p hp => ?_, fun p hp => ?_⟩ <;>
      exact absurd (hnone'.symm.trans hp) (by simp)

/-- The buffers of the serial port are no part of the board. -/
theorem guides_buffered (h : Guides images strict vm) (hready : Ready (Display.mode115 images) vm)
    (hbuffered : vm.Buffered vm') : Guides images strict vm' := by
  obtain ⟨-, transmit, receive, line, hseat⟩ := hready.buffered hbuffered
  rw [Guides, hbuffered.sameGame.ensureBoard.1, hseat]
  exact ⟨h.erased, h.own, h.move⟩

end Guides

/-! ## The board of the end to move -/

/-- The destination of the move `m`, and the turn behind it, are still on their way to the opponent
of the end that made it. -/
def Unread (t : Table) (m : Side × ℤ × ℤ) : Prop :=
  [cellByte m.2.2, yourTurn] <:+ incoming t m.1.other

/-- The end `e`, next to move, shows the position of the game, with the turn on its way at most,
or the position before the last move, whose destination it has not read yet. -/
def Behind (t : Table) (e : Side) (ms : List (Side × ℤ × ℤ)) : Prop :=
  ((t e).cells = position ms ∧ (incoming t e = [] ∨ incoming t e = [yourTurn])) ∨
    ((t e).cells = position ms.dropLast ∧ ∃ o n k, k < 3 ∧ ms.getLast? = some (e.other, o, n) ∧
      incoming t e = (message o n).drop k ∧ (k = 1 → (t e).byteOfMove = 0))

/-- Changes that keep the cells, the parser and the bytes on their way. -/
theorem Behind.congr {t t' : Table} {e : Side} {ms : List (Side × ℤ × ℤ)} (h : Behind t e ms)
    (hcells : (t' e).cells = (t e).cells) (hbyte : (t' e).byteOfMove = (t e).byteOfMove)
    (hin : incoming t' e = incoming t e) : Behind t' e ms := by
  unfold Behind
  rw [hcells, hbyte, hin]
  exact h

/-- The end to move reads a byte. -/
theorem Behind.poll {t : Table} {e : Side} {ms : List (Side × ℤ × ℤ)} (h : Behind t e ms)
    (hmoved : (t e.other).cells = position ms) {b : UInt8} {rest : List UInt8}
    (hb : (t e).receive = b :: rest) {s : Seat}
    (hparse : ({ t e with receive := rest } : Seat).parse b = some s)
    (hagrees : Agrees (Function.update t e s) e) : Behind (Function.update t e s) e ms := by
  have hin : incoming t e = b :: (rest ++ (t e).line ++ (t e.other).transmit) := by
    simp [incoming, hb]
  obtain ⟨-, -, -, -, -, hreceive, hline⟩ := Seat.parse_frame hparse
  have hin' : incoming (Function.update t e s) e =
      rest ++ (t e).line ++ (t e.other).transmit := by
    rw [incoming_update_self, hreceive, hline]
  -- what is left to read leads to the board of the other end
  obtain ⟨s', hs', hboard, -⟩ := hagrees.settled
  rw [hin', Function.update_self] at hs'
  rw [Function.update_of_ne (Side.other_ne e), hmoved] at hboard
  rw [Behind, hin', Function.update_self]
  rcases h with ⟨hcells, hnil | hturn⟩ | ⟨hcells, o, n, k, hk, hlast, hbytes, hfirst⟩
  · rw [hnil] at hin
    cases hin
  · obtain ⟨rfl, hrest⟩ := List.cons.inj (hin.symm.trans hturn)
    rw [Seat.parse_yourTurn] at hparse
    obtain rfl := Option.some.inj hparse
    exact .inl ⟨hcells, .inl hrest⟩
  · rw [hin] at hbytes
    interval_cases k <;> obtain ⟨rfl, hrest⟩ := List.cons.inj hbytes
    · -- `BEGIN_MESSAGE` makes the next byte the origin
      rw [Seat.parse_beginMessage] at hparse
      obtain rfl := Option.some.inj hparse
      exact .inr ⟨hcells, o, n, 1, by decide, hlast, hrest, fun _ => rfl⟩
    · refine .inr ⟨?_, o, n, 2, by decide, hlast, hrest, fun h => absurd h (by decide)⟩
      obtain ⟨-, rfl⟩ | ⟨-, rfl⟩ | ⟨-, rfl⟩ | ⟨-, -, rfl⟩ | ⟨-, hbyte, -⟩ := Seat.parse_cases hparse
      · exact hcells
      · exact hcells
      · exact hcells
      · exact hcells
      · exact absurd (hfirst rfl) hbyte
    · -- behind the destination only the turn is left, which moves nothing
      have hturn : rest ++ (t e).line ++ (t e.other).transmit = [yourTurn] := hrest
      rw [hturn, settle, List.foldlM_cons, Seat.parse_yourTurn] at hs'
      obtain rfl := Option.some.inj hs'
      exact .inl ⟨hboard, .inr hturn⟩

/-- **A step that makes no move keeps the board of the end to move behind the game.** -/
theorem behind_step {t t' : Table} {e : Side} {ms : List (Side × ℤ × ℤ)} (h : Behind t e ms)
    (hmoved : (t e.other).cells = position ms) (hagrees : Agrees t e) (hagrees' : Agrees t' e)
    (htoken : Token t e) (hs : Table.Step t none t') : Behind t' e ms := by
  generalize hl : (none : Option (Side × ℤ × ℤ)) = l at hs
  cases hs with
  | idle => exact h
  | write f b rest hb =>
    refine h.congr ?_ ?_ (incoming_transfer t f hb e) <;> unfold Table.transfer <;> split <;> rfl
  | read f b rest hb =>
    have hroom : (t f).receive.length < 10 := by
      have := htoken.length_incoming f
      simp only [incoming, List.length_append] at this
      omega
    refine h.congr ?_ ?_ (incoming_read t f hb hroom e) <;>
      obtain rfl | rfl := f.eq_or_eq_other e <;> simp
  | event f l s hplay hevent =>
    -- the events that read and move nothing
    have hkeep : s.cells = (t f).cells → s.byteOfMove = (t f).byteOfMove →
        s.receive = (t f).receive → s.line = (t f).line → s.transmit = (t f).transmit →
        Behind (Function.update t f s) e ms := by
      intro hcells hbyte hreceive hline htransmit
      obtain rfl | rfl := f.eq_or_eq_other e
      · refine h.congr (by simpa using hcells) (by simpa using hbyte) ?_
        rw [incoming_update_self, hreceive, hline]
        rfl
      · refine h.congr (by simp) (by simp) ?_
        have hother := incoming_update_other t f s
        rw [hother, htransmit]
        simp [incoming]
    cases hevent with
    | idle => exact hkeep (by simp) (by simp) (by simp) (by simp) (by simp)
    | press p i =>
      exact hkeep (by simp [Seat.press]) (by simp [Seat.press]) (by simp [Seat.press])
        (by simp [Seat.press]) (by simp [Seat.press])
    | cancel p =>
      exact hkeep (by simp [Seat.cancel]) (by simp [Seat.cancel]) (by simp [Seat.cancel])
        (by simp [Seat.cancel]) (by simp [Seat.cancel])
    | accept => simp at hl
    | poll _ hpoll =>
      rcases Seat.poll_cases hpoll with ⟨-, rfl⟩ | ⟨b, rest, hb, hparse⟩
      · exact hkeep (by simp) (by simp) (by simp) (by simp) (by simp)
      · rw [Seat.receive_leave] at hb
        obtain ⟨rfl, -⟩ := htoken.inFlight_of_incoming (f := f) (by simp [incoming, hb])
        rw [Seat.leave_of_endGame hagrees.receiver] at hparse
        exact h.poll hmoved hb hparse hagrees'

/-- A move leaves the other end behind the game. -/
theorem behind_accept {t t' : Table} {e : Side} {o n : ℤ} {ms : List (Side × ℤ × ℤ)}
    (hh : Holds t e) (hmoved : (t e.other).cells = position ms)
    (hs : Table.Step t (some (e, o, n)) t') : Behind t' e.other (ms ++ [(e, o, n)]) := by
  obtain ⟨hquiet, htransmit⟩ := List.append_eq_nil_iff.mp hh.quiet_other
  simp only [Side.other_other] at htransmit
  generalize hl : some (e, o, n) = l at hs
  cases hs with
  | idle => simp at hl
  | write => simp at hl
  | read => simp at hl
  | event g l s _ hevent =>
    cases hevent with
    | idle => simp at hl
    | press => simp at hl
    | cancel => simp at hl
    | poll => simp at hl
    | accept p i =>
      simp only [Option.map_some, Option.some.injEq, Prod.mk.injEq] at hl
      obtain ⟨rfl, rfl, rfl⟩ := hl
      refine .inr ⟨?_, (t e).inicial, n, 0, by decide, by simp, ?_, fun h => absurd h (by decide)⟩
      · rw [List.dropLast_concat, Function.update_of_ne (Side.other_ne e), hmoved]
      · rw [incoming_update_other, hquiet]
        simp only [Seat.accept, Seat.transmit_leave, Seat.inicial_leave, htransmit,
          List.nil_append, List.drop_zero]
        exact Seat.foldl_enqueue (by simp [message])

/-! ## Moves -/

/-- An event that makes no move captures no king. -/
theorem endGame_step {t t' : Table} (hs : Table.Step t none t') (f : Side) :
    (t' f).endGame = (t f).endGame := by
  generalize hl : (none : Option (Side × ℤ × ℤ)) = l at hs
  cases hs with
  | idle => rfl
  | write g b rest => unfold Table.transfer; split <;> rfl
  | read g b rest => obtain rfl | rfl := g.eq_or_eq_other f <;> simp
  | event g l s _ hevent =>
    obtain rfl | rfl := g.eq_or_eq_other f
    · rw [Function.update_self]
      cases hevent with
      | idle => exact Seat.endGame_leave _
      | press => exact Seat.endGame_leave _
      | cancel => exact Seat.endGame_leave _
      | accept => simp at hl
      | poll _ hpoll =>
        obtain ⟨-, rfl⟩ | ⟨b, rest, -, hparse⟩ := Seat.poll_cases hpoll
        · exact Seat.endGame_leave _
        · exact (Seat.parse_frame hparse).2.1.trans (Seat.endGame_leave _)
    · rw [Function.update_of_ne (Side.other_ne g)]

/-- What a move of a table does. -/
theorem Table.Step.accepted {t t' : Table} {f : Side} {o n : ℤ}
    (hs : Table.Step t (some (f, o, n)) t') : ∃ p, (t f).dragging = some p ∧ (t f).inicial = o ∧
      IsCell n ∧ (∀ q, (t f).cells n = some q → sameTeam (kind p) (kind q) = false) ∧
      (t' f).endGame = ((t f).endGame || Seat.kingAt (t f).cells n) := by
  generalize hl : some (f, o, n) = l at hs
  cases hs with
  | idle => simp at hl
  | write => simp at hl
  | read => simp at hl
  | event g l s _ hevent =>
    cases hevent with
    | idle => simp at hl
    | press => simp at hl
    | cancel => simp at hl
    | poll => simp at hl
    | accept p i hp hi hteam =>
      simp only [Option.map_some, Option.some.injEq, Prod.mk.injEq] at hl
      obtain ⟨rfl, rfl, rfl⟩ := hl
      refine ⟨p, hp, rfl, hi, hteam, ?_⟩
      simp [Seat.accept]

/-- A king that is captured is seen by `kingAt`. -/
theorem Seat.kingAt_of_kinds {cells : ℤ → Option PieceRef} {n : ℤ} (hn : IsCell n)
    {t : PieceType} (h : kinds cells (n % 8) (n / 8) = some t) :
    Seat.kingAt cells n = t.isKing := by
  rw [kinds_of_isCell cells hn] at h
  obtain ⟨q, hq, rfl⟩ := Option.map_eq_some_iff.mp h
  simp only [Seat.kingAt, hq]

/-- The event behind an accepted move. -/
theorem System.accepted_eq_some {d : Display} {s : System} {a : Side × Action}
    {m : Side × ℤ × ℤ} (h : System.accepted d s a = some m) :
    (s m.1).crashed = false ∧ ∃ arrivals event, a = (m.1, .event arrivals event) ∧
      acceptedMove d arrivals event (s m.1).vm = some m.2 := by
  obtain ⟨e, act⟩ := a
  unfold System.accepted at h
  split_ifs at h with hcrash
  cases act with
  | event arrivals event =>
    obtain ⟨m', hm', rfl⟩ := Option.map_eq_some_iff.mp h
    exact ⟨by simpa using hcrash, arrivals, event, rfl, hm'⟩
  | spWrite lsr => cases h
  | spRead arrived => cases h

/-- The dragged piece of a seat may go from cell `o` to cell `n`. -/
def Seat.Legal (strict : Prop) (s : Seat) (o n : ℤ) : Prop :=
  ∀ p, s.dragging = some p → owns s.player (kind p) = true ∧
    (Lands (kinds s.cells) (kind p) (n % 8) (n / 8) →
      LegalMove (kinds s.cells) (kind p) (strict ∧ o / 8 ≠ (kind p).homeRow)
        (o % 8) (o / 8) (n % 8) (n / 8))

/-- An accepted move is one that the highlights show. -/
theorem legal_of_accepted {images : Images} {strict : Prop} {vm : Vm}
    (h : Guides images strict vm) {arrivals : ℕ} {event : Event} {o n : ℤ}
    (hacc : acceptedMove (Display.mode115 images) arrivals event vm = some (o, n)) :
    (seat (Display.mode115 images) vm).Legal strict o n := by
  obtain ⟨packet, q, x, y, -, hinicial, rfl, hdrops, -⟩ := drops_of_acceptedMove hacc
  have hon := hdrops.onBoard
  have horange : isOrange mode115 (ensureBoard (Display.mode115 images) vm).board.memBoard
      x y = true := orange_of_drops hdrops
  have hxy := square_of_onBoard hon
  have ho : (seat (Display.mode115 images) vm).inicial = o :=
    (seat_inicial _ _).trans hinicial.symm
  intro p hp
  refine ⟨h.own p hp, fun hlands => ?_⟩
  rw [hxy.1, hxy.2] at hlands ⊢
  exact ho ▸ h.move p hp x y hon horange hlands

/-- The invariant of a match of two seats in which the moves `ms` have been made. -/
structure TableMatch (strict : Prop) (w : Side) (t : Table) (ms : List (Side × ℤ × ℤ)) :
    Prop where
  state : ∀ e, (t e).gameState = .playing ∨ (t e).gameState = .exit
  tidy : ∀ e, Tidy (t e)
  token : Token t (turnOf w ms.length)
  alternate : ∀ (k : ℕ) m, ms[k]? = some m → m.1 = turnOf w k
  white : (t w).player = .white
  black : (t w.other).player = .black
  agrees : Agrees t (turnOf w ms.length)
  moved : (t (turnOf w ms.length).other).cells = position ms
  game : ∀ ms', ms' <+: ms → ChessGame strict (ms'.map ply) (kinds (position ms'))
  kings : (t (turnOf w ms.length).other).endGame = false →
    (kinds (position ms)).Has .wKing ∧ (kinds (position ms)).Has .bKing
  behind : Behind t (turnOf w ms.length) ms

/-- The initial cells show the initial position of chess. -/
theorem kinds_position_nil : kinds (position []) = startPosition := by
  funext x y
  by_cases hon : OnBoard x y
  · exact forall_onBoard (p := fun x y => kinds (position []) x y = startPosition x y)
      (by decide) hon
  · rw [kinds, if_neg hon]
    cases hstart : startPosition x y with
    | none => rfl
    | some t => exact absurd (onBoard_of_startPosition hstart) hon

/-- A seat whose game has not begun. -/
structure Seat.Unplayed (s : Seat) : Prop where
  cells : s.cells = position []
  dragging : s.dragging = none
  endGame : s.endGame = false

theorem Fresh.unplayed {d : Display} {vm : Vm} (h : Fresh d vm) : (seat d vm).Unplayed where
  cells := by
    rw [h.seat_eq]
    rfl
  dragging := (seat_dragging _ _).trans h.dragging
  endGame := (seat_endGame _ _).trans h.endGame

/-- Two seats at the start of a game. -/
theorem TableMatch.new {strict : Prop} {w : Side} {t : Table}
    (hplay : ∀ e, (t e).gameState = .playing) (hnew : ∀ e, (t e).Unplayed)
    (htidy : ∀ e, Tidy (t e)) (hwhite : (t w).player = .white ∧ (t w).myTurn = true)
    (hblack : (t w.other).player = .black ∧ (t w.other).myTurn = false)
    (hquiet : ∀ e, incoming t e = []) : TableMatch strict w t [] where
  state e := .inl (hplay e)
  tidy := htidy
  token := .inl ⟨hwhite.2, hblack.2, (hnew _).dragging, hquiet _, hquiet _⟩
  alternate := by simp
  white := hwhite.1
  black := hblack.1
  agrees := by
    refine ⟨⟨t w, ?_, ?_, fun hend => ?_, fun _ => hplay w⟩, (hnew w).endGame, fun hexit => ?_,
      .inl (hplay _), fun _ => (hnew _).endGame⟩
    · exact congrArg (settle (t w)) (hquiet w)
    · exact (hnew w).cells.trans (hnew w.other).cells.symm
    · exact absurd (hend.symm.trans (hnew w.other).endGame) (by decide)
    · exact absurd (hexit.symm.trans (hplay w)) (by decide)
  moved := (hnew w.other).cells
  game ms' hpre := by
    rw [List.prefix_nil.mp hpre, List.map_nil, kinds_position_nil]
    exact .start
  kings _ := by
    rw [kinds_position_nil]
    exact ⟨⟨4, 7, rfl⟩, ⟨4, 0, rfl⟩⟩
  behind := .inl ⟨(hnew w).cells, .inl (hquiet w)⟩

namespace TableMatch

variable {strict : Prop} {w : Side} {t t' : Table} {ms : List (Side × ℤ × ℤ)}
  (h : TableMatch strict w t ms)
include h

/-- The player of the side to move. -/
theorem player (k : ℕ) : (t (turnOf w k)).player = playerOf k := by
  unfold turnOf playerOf
  split
  · exact h.white
  · exact h.black

/-- Who has the turn shows the position of the game. -/
theorem cells_of_turn {e : Side} (hturn : (t e).myTurn = true) :
    e = turnOf w ms.length ∧ Holds t e ∧ (t e).cells = position ms := by
  obtain ⟨rfl, hh⟩ := h.token.holds_of_turn hturn
  exact ⟨rfl, hh, (h.agrees.of_holds hh).1.trans h.moved⟩

/-- The end to move shows the position of the game, or the one before the last move. -/
theorem shown : kinds (t (turnOf w ms.length)).cells = kinds (position ms) ∨
    ChessGame strict (ms.dropLast.map ply) (kinds (t (turnOf w ms.length)).cells) := by
  rcases h.behind with ⟨hcells, -⟩ | ⟨hcells, -⟩
  · exact .inl (congrArg kinds hcells)
  · exact .inr (hcells ▸ h.game _ (List.dropLast_prefix ms))

/-- What an accepted move is on the board of the game. -/
theorem accepted_legal {e : Side} {o n : ℤ} (hs : Table.Step t (some (e, o, n)) t')
    (hlegal : (t e).Legal strict o n) :
    e = turnOf w ms.length ∧ (t e.other).endGame = false ∧
      (t' e).endGame = Seat.kingAt (position ms) n ∧ IsCell o ∧ IsCell n ∧
      ∃ p, position ms o = some p ∧ (t e).dragging = some p ∧
        owns (playerOf ms.length) (kind p) = true ∧
        LegalMove (kinds (position ms)) (kind p) (strict ∧ o / 8 ≠ (kind p).homeRow)
          (o % 8) (o / 8) (n % 8) (n / 8) := by
  obtain ⟨p, hp, rfl, hn, hteam, hend⟩ := hs.accepted
  obtain ⟨hturn, hh, hcells⟩ := h.cells_of_turn (h.token.turn_of_dragging hp)
  obtain ⟨hinicial, hcell⟩ := (h.tidy e).drag p hp
  have hreceiver := h.agrees.receiver
  have hgoing := h.agrees.going (hturn ▸ hh)
  have hplayer := h.player ms.length
  rw [← hturn] at hreceiver hgoing hplayer
  obtain ⟨hown, hmove⟩ := hlegal p hp
  rw [hplayer] at hown
  rw [hcells] at hteam hcell hmove
  rw [hreceiver, Bool.false_or, hcells] at hend
  refine ⟨hturn, hgoing, hend, hinicial, hn, p, hcell, hp, hown, hmove fun q hq => ?_⟩
  rw [kinds_of_isCell _ hn] at hq
  obtain ⟨r, hr, rfl⟩ := Option.map_eq_some_iff.mp hq
  exact (sameTeam_eq_false_iff _ _).mp (hteam r hr)

/-- **An accepted move is one that chess allows**, and leads to the position of chess. -/
theorem allowed {m : Side × ℤ × ℤ} (hs : Table.Step t (some m) t')
    (hlegal : (t m.1).Legal strict m.2.1 m.2.2) :
    (kinds (position ms)).Allows strict (ms.length % 2 == 0) (ply m) ∧
      kinds (position (ms ++ [m])) = (kinds (position ms)).after (ply m) := by
  obtain ⟨e, o, n⟩ := m
  obtain ⟨rfl, hgoing, -, ho, hn, p, hcell, -, hown, hmove⟩ := h.accepted_legal hs hlegal
  have hat : kinds (position ms) (o % 8) (o / 8) = some (kind p) := by
    rw [kinds_of_isCell _ ho, hcell]
    rfl
  refine ⟨⟨⟨onBoard_of_isCell ho, onBoard_of_isCell hn⟩, h.kings hgoing, kind p, hat, ?_, hmove⟩,
    ?_⟩
  · unfold owns playerOf at hown
    rcases Nat.mod_two_eq_zero_or_one ms.length with hk | hk <;> simpa [hk] using hown
  · rw [position_append, ← kinds_moveFrom ho hn hcell]
    simp only [play, hcell]

/-- A step that makes no move. -/
theorem step_none (hs : Table.Step t none t') : TableMatch strict w t' ms := by
  have htoken : Token t' (turnOf w ms.length) := by
    obtain ⟨-, htoken⟩ | ⟨_, _, hl, -⟩ := token_step h.token h.tidy hs
    · exact htoken
    · cases hl
  have hagrees := (agrees_step h.agrees h.token h.tidy hs (by simp)).1 rfl
  refine ⟨fun e => hs.gameState (h.state e),
    tidy_step (fun _ => h.token.dragging_of_receive) h.tidy hs, htoken, h.alternate,
    (player_step hs w).trans h.white, (player_step hs w.other).trans h.black, hagrees,
    (cells_other_step h.token hs).trans h.moved, h.game, ?_,
    behind_step h.behind h.moved h.agrees hagrees h.token hs⟩
  rw [endGame_step hs]
  exact h.kings

/-- A step that makes a move. -/
theorem step_some {m : Side × ℤ × ℤ} (hs : Table.Step t (some m) t') (havoid : AvoidsFirst m)
    (hlegal : (t m.1).Legal strict m.2.1 m.2.2) : TableMatch strict w t' (ms ++ [m]) := by
  obtain ⟨e, o, n⟩ := m
  obtain ⟨hallows, hposition⟩ := h.allowed hs hlegal
  obtain ⟨rfl, hgoing, hend, -, hn, -⟩ := h.accepted_legal hs hlegal
  obtain ⟨hh, htoken⟩ : Holds t (turnOf w ms.length) ∧ Token t' (turnOf w ms.length).other := by
    obtain ⟨hl, -⟩ | ⟨_, _, -, hh, htoken⟩ := token_step h.token h.tidy hs
    · cases hl
    · exact ⟨hh, htoken⟩
  have hlength : turnOf w (ms ++ [(turnOf w ms.length, o, n)]).length =
      (turnOf w ms.length).other := by
    rw [List.length_append, List.length_singleton, turnOf_succ]
  refine ⟨fun e => hs.gameState (h.state e),
    tidy_step (fun _ => h.token.dragging_of_receive) h.tidy hs, ?_, fun k m hm => ?_,
    (player_step hs w).trans h.white, (player_step hs w.other).trans h.black, ?_, ?_, ?_, ?_, ?_⟩
  · rwa [hlength]
  · rcases Nat.lt_or_ge k ms.length with hk | hk
    · rw [List.getElem?_append_left hk] at hm
      exact h.alternate k m hm
    · rw [List.getElem?_append_right hk] at hm
      obtain ⟨hzero, rfl⟩ : k - ms.length = 0 ∧ (turnOf w ms.length, o, n) = m := by
        simpa [List.getElem?_singleton] using hm
      have : k = ms.length := by omega
      rw [this]
  · rw [hlength]
    refine (agrees_step h.agrees h.token h.tidy hs fun m hm => ?_).2 rfl
    rwa [← Option.some.inj hm]
  · rw [hlength, Side.other_other, position_append, cells_move_step h.tidy hs,
      (h.agrees.of_holds hh).1, h.moved]
  · intro ms' hpre
    rcases List.prefix_concat_iff.mp hpre with rfl | hpre
    · rw [List.map_append, hposition]
      exact .move (ply _) (h.game ms List.prefix_rfl) (by rwa [List.length_map])
    · exact h.game ms' hpre
  · rw [hlength, Side.other_other, hend, hposition]
    intro hnone
    -- the move has taken no king
    have hkept : ∀ t : PieceType, t.isKing = true →
        kinds (position ms) (n % 8) (n / 8) ≠ some t := by
      intro t ht hat
      rw [Seat.kingAt_of_kinds hn hat, ht] at hnone
      exact absurd hnone (by decide)
    exact ⟨(h.kings hgoing).1.after (hkept .wKing rfl), (h.kings hgoing).2.after (hkept .bKing rfl)⟩
  · rw [hlength]
    exact behind_accept hh h.moved hs

/-- **Every step goes on with the game**, if its move avoids the first cell and is legal. -/
theorem step {l : Option (Side × ℤ × ℤ)} (hs : Table.Step t l t')
    (havoid : ∀ m, l = some m → AvoidsFirst m)
    (hlegal : ∀ m, l = some m → (t m.1).Legal strict m.2.1 m.2.2) :
    TableMatch strict w t' (ms ++ l.toList) := by
  cases l with
  | none => simpa using h.step_none hs
  | some m => exact h.step_some hs (havoid m rfl) (hlegal m rfl)

end TableMatch

end LCChess
