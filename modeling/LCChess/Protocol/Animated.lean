import LCChess.Play.PawnMoves
import LCChess.Protocol.Chess

/-!
# Matches with the animation on

`possiblePosition` reads the flag of a pawn, which the animation sets. As long as the animation
stays on at both ends, the first frame behind a move of a pawn sets its flag, before the turn can
come back: at a press the flag then says what the rules ask, that the pawn has left its home row.

## Main definitions

* `Noted d vm p`: the pawn `p` has its flag, or is on its way and will get it at the next frame
* `Toggles a`: the action switches the animation

## Main results

* `noted_event`: an event keeps a pawn noted
* `noted_accept`: a pawn that moves is noted
* `ChessMatch.step`: an action keeps a match a game of chess
* `match_is_chess`: the accepted moves of a match are a game of chess
* `boards_keep_rules`: every board shown in a match is one of that game
-/

namespace LCChess

open Transition (along_outputs run_outputs_invariant_along)

/-! ## The flags of the pawns -/

/-- A pawn that has just been moved: it is on the board, in motion and short of its target, and
the turn is not back yet. -/
structure Underway (d : Display) (vm : Vm) (p : PieceRef) : Prop where
  unrecorded : ((ensureBoard d vm).heap p).Unrecorded
  far : ¬ ((ensureBoard d vm).heap p).Arrived
  turn : vm.myTurn = false
  stands : ∃ j, IsCell j ∧ (ensureBoard d vm).board.board j = some p

/-- The pawn has its flag, or the next frame sets it. -/
def Noted (d : Display) (vm : Vm) (p : PieceRef) : Prop :=
  ((ensureBoard d vm).heap p).pawnMoved = true ∨ Underway d vm p

/-- The break code of `Z` switches the animation. -/
def Toggles : Action → Prop
  | .event _ (.keyboard scanCode) => scanCode = 0xac
  | _ => False

section Noted

variable {d : Display} {vm vm' : Vm} {p : PieceRef}

/-- Whether a pawn is noted depends on the pieces and the turn. -/
theorem Noted.congr (h : Noted d vm p) (hheap : (ensureBoard d vm').heap = (ensureBoard d vm).heap)
    (hboard : (ensureBoard d vm').board.board = (ensureBoard d vm).board.board)
    (hturn : vm'.myTurn = vm.myTurn) : Noted d vm' p := by
  rcases h with hflag | ⟨hun, hfar, hmine, j, hj, hcell⟩
  · exact .inl (by rwa [hheap])
  · exact .inr ⟨by rwa [hheap], by rwa [hheap], hturn.trans hmine, j, hj, by rwa [hboard]⟩

/-- With the turn, a noted pawn has its flag. -/
theorem Noted.flag (h : Noted d vm p) (hturn : vm.myTurn = true) :
    ((ensureBoard d vm).heap p).pawnMoved = true :=
  h.resolve_right fun hunderway => absurd (hunderway.turn.symm.trans hturn) (by decide)

/-- A frame with the animation on gives every noted pawn its flag. -/
theorem Noted.playingFrame (h : Noted d vm p) (hon : vm.animation = true)
    (hcreated : vm.boardCreated = true) : ((playingFrame d vm).heap p).pawnMoved = true := by
  obtain ⟨memPieces, videoMemBuffer, hframe⟩ := playingFrame_frame d vm
  rw [hframe, hon]
  rw [Noted, ensureBoard_of_created hcreated] at h
  rcases h with hflag | ⟨hun, hfar, -, j, hj, hcell⟩
  · exact pawnMoved_updateBoard true hflag _
  · rw [ensureBoard_of_created hcreated] at hun hfar hcell
    exact pawnMoved_updateBoard_on hj hcell hun hfar _

/-- A piece whose flag stays is written. -/
theorem pawnMoved_update (heap : Heap) {q : PieceRef} {piece : Piece}
    (h : piece.pawnMoved = (heap q).pawnMoved) :
    (Function.update heap q piece p).pawnMoved = (heap p).pawnMoved := by
  rcases eq_or_ne p q with rfl | hne
  · rw [Function.update_self, h]
  · rw [Function.update_of_ne hne]

/-- A received byte sets and clears no flag. -/
theorem pawnMoved_parseByte {b : UInt8} (h : parseByte d b vm = some vm') :
    (vm'.heap p).pawnMoved = (vm.heap p).pawnMoved ∧ vm'.animation = vm.animation := by
  obtain rfl | rfl | rfl | ⟨move, byteOfMove, rfl⟩ | ⟨q, gameState, won, -, -, -, rfl⟩ :=
    parseByte_cases h
  · exact ⟨rfl, rfl⟩
  · exact ⟨rfl, rfl⟩
  · exact ⟨rfl, rfl⟩
  · exact ⟨rfl, rfl⟩
  · exact ⟨pawnMoved_update vm.heap (pawnMoved_movePiece _ _ _), rfl⟩

/-- The release of a piece sets and clears no flag. -/
theorem pawnMoved_release (d : Display) (vm : Vm) (q : PieceRef) :
    ((release d vm q).heap p).pawnMoved = (vm.heap p).pawnMoved := by
  by_cases hdrops : ∃ x y, Drops d vm q x y
  · obtain ⟨x, y, hdrops⟩ := hdrops
    rw [release_move hdrops]
    refine pawnMoved_update vm.heap ?_
    rw [pawnMoved_movePiece, putBackPiece, pawnMoved_setPiecePosition,
      pawnMoved_changePiecePriority]
  · rw [release_putBack fun x y hxy => hdrops ⟨x, y, hxy⟩]
    refine pawnMoved_update vm.heap ?_
    rw [putBackPiece, pawnMoved_setPiecePosition, pawnMoved_changePiecePriority]

/-- A `MOUSE` event sets and clears no flag, and it changes a piece at a press and during a drag
only. -/
theorem pawnMoved_playingMouse
    (hbuttons : vm.cursor.pressed = true → vm.cursor.released = false) :
    (playingMouse d vm = vm ∨ vm.myTurn = true ∨ ∃ q, vm.draggingPiece = some q) ∧
      ((playingMouse d vm).heap p).pawnMoved = (vm.heap p).pawnMoved ∧
      (playingMouse d vm).animation = vm.animation := by
  have hfollow : ∀ q, ((follow vm q).heap p).pawnMoved = (vm.heap p).pawnMoved :=
    fun q => pawnMoved_update vm.heap (pawnMoved_setPiecePosition _ _ _)
  rcases playingMouse_cases d hbuttons with ⟨-, heq⟩ | ⟨-, q, x, y, hpress, heq⟩ |
    ⟨q, hq, -, heq⟩ | ⟨q, hq, -, heq⟩
  · rw [heq]
    exact ⟨.inl rfl, rfl, rfl⟩
  · rw [heq, heap_press]
    exact ⟨.inr (.inl hpress.turn), pawnMoved_update vm.heap rfl, rfl⟩
  · rw [heq]
    exact ⟨.inr (.inr ⟨q, hq⟩), hfollow q, rfl⟩
  · obtain ⟨heap, board, transmitQueue, endGame, myTurn, hrelease⟩ :=
      release_frame d (follow vm q) q
    rw [heq]
    refine ⟨.inr (.inr ⟨q, hq⟩), (pawnMoved_release d _ q).trans (hfollow q), ?_⟩
    rw [hrelease]
    rfl

/-- Behind the game an event keeps the game, the turn and the animation. -/
theorem sameGame_over (hexit : vm.gameState = .exit) {arrivals : ℕ} {event : Event}
    (hev : handleEvent d arrivals event vm = some vm') :
    SameGame vm vm' ∧ vm'.myTurn = vm.myTurn ∧ vm'.player = vm.player ∧
      vm'.animation = vm.animation := by
  rw [handleEvent_over hexit] at hev
  obtain rfl := Option.some.inj hev
  cases event <;> exact ⟨⟨rfl, rfl, rfl, rfl, rfl, rfl, rfl, rfl, rfl, rfl⟩, rfl, rfl, rfl⟩

/-- **An event keeps a pawn noted**, as long as it does not switch the animation. -/
theorem noted_event (hgame : InGame d vm) (hon : vm.animation = true)
    (hturn : ∀ q, vm.draggingPiece = some q → vm.myTurn = true) {arrivals : ℕ} {event : Event}
    (hkey : vm.gameState = .playing → ¬ Toggles (.event arrivals event))
    (hev : handleEvent d arrivals event vm = some vm') :
    vm'.animation = true ∧ (Noted d vm p → Noted d vm' p) := by
  rcases hgame.state with hplay | hexit
  · have hcreated := (handleEvent_refines hgame.sound hplay hev).1.created
    obtain ⟨hanimation, hboard, hheap, hcreated₀⟩ := leaveGame_ensureBoard_animation d vm
    have hmine : (leaveGame (ensureBoard d vm)).myTurn = vm.myTurn := by
      obtain ⟨gameState, won, hleave⟩ := leaveGame_frame (ensureBoard d vm)
      obtain ⟨board, heap, redraw, hframe⟩ := ensureBoard_frame d vm
      rw [hleave, hframe]
    have hentered : Noted d vm p → Noted d (leaveGame (ensureBoard d vm)) p := fun h =>
      h.congr (by rw [ensureBoard_of_created hcreated₀, hheap])
        (by rw [ensureBoard_of_created hcreated₀, hboard]) hmine
    cases event with
    | newFrame =>
      rw [handleEvent_frame hplay] at hev
      obtain ⟨w, hbyte, rfl⟩ := Option.map_eq_some_iff.mp hev
      obtain ⟨hflag, hanimated⟩ := pawnMoved_parseByte (p := p) hbyte
      refine ⟨hanimated.trans (hanimation.trans hon), fun h => .inl ?_⟩
      rw [ensureBoard_of_created hcreated]
      exact hflag.trans ((hentered h).playingFrame (hanimation.trans hon) hcreated₀)
    | keyboard scanCode =>
      rw [handleEvent_keyboard hplay] at hev
      obtain rfl := Option.some.inj hev
      have hkeep : playingKeyboard (leaveGame (ensureBoard d vm)) scanCode =
          leaveGame (ensureBoard d vm) := by
        unfold playingKeyboard
        rw [if_neg (c := scanCode = 0xac) (hkey hplay), ite_self]
      rw [hkeep]
      exact ⟨hanimation.trans hon, hentered⟩
    | mouse packet =>
      rw [handleEvent_mouse hplay] at hev
      obtain rfl := Option.some.inj hev
      change (playingMouse d (entered d vm packet)).boardCreated = true at hcreated
      change (playingMouse d (entered d vm packet)).animation = true ∧
        (_ → Noted d (playingMouse d (entered d vm packet)) p)
      obtain ⟨hdrag, hboard', hcursor⟩ := entered_frame d vm packet
      obtain ⟨hheap', hmine', -, hanimation', -⟩ := entered_game d vm packet
      have hbuttons : (entered d vm packet).cursor.pressed = true →
          (entered d vm packet).cursor.released = false := by
        rw [hcursor]
        simp +contextual
      obtain ⟨hcases, hflag, hanimated⟩ := pawnMoved_playingMouse (d := d) (p := p) hbuttons
      refine ⟨hanimated.trans (hanimation'.trans hon), fun h => ?_⟩
      -- without the turn there is neither a press nor a drag
      rcases hcases with hsame | hturn' | ⟨q, hq⟩
      · rw [hsame]
        have hcreated' : (entered d vm packet).boardCreated = true := boardCreated_entered packet
        exact h.congr (by rw [ensureBoard_of_created hcreated', hheap'])
          (by rw [ensureBoard_of_created hcreated', hboard']) hmine'
      · refine .inl ?_
        rw [ensureBoard_of_created hcreated, hflag, hheap']
        exact h.flag (hmine'.symm.trans hturn')
      · refine .inl ?_
        rw [ensureBoard_of_created hcreated, hflag, hheap']
        exact h.flag (hturn q (hdrag.symm.trans hq))
  · obtain ⟨hgame', hmine, -, hanimated⟩ := sameGame_over hexit hev
    obtain ⟨hboard, hheap⟩ := hgame'.ensureBoard (d := d)
    exact ⟨hanimated.trans hon, fun h => h.congr hheap (congrArg Board.board hboard) hmine⟩

/-- The rows of the board are apart on the screen. -/
theorem ofInt_getScreenY_ne {y y' : ℤ} (hy : 0 ≤ y ∧ y < 8) (hy' : 0 ≤ y' ∧ y' < 8)
    (hrow : y ≠ y') :
    UInt16.ofInt (getScreenY mode115 y) ≠ UInt16.ofInt (getScreenY mode115 y') := by
  have hrows : ∀ a b : Fin 8, a ≠ b → UInt16.ofInt (59 * ((a : ℕ) : ℤ) + 64) ≠
      UInt16.ofInt (59 * ((b : ℕ) : ℤ) + 64) := by decide
  have := hrows ⟨y.toNat, by omega⟩ ⟨y'.toNat, by omega⟩ fun heq => hrow (by
    have := Fin.mk.inj heq
    omega)
  rw [getScreenY_mode115 (by omega) (by omega), getScreenY_mode115 (by omega) (by omega)]
  rwa [Int.toNat_of_nonneg hy.1, Int.toNat_of_nonneg hy'.1] at this

/-- A pawn that makes a move to another row is noted. -/
theorem noted_accept {images : Images} (hready : Ready (Display.mode115 images) vm)
    {arrivals : ℕ} {event : Event} {o n : ℤ}
    (hmove : acceptedMove (Display.mode115 images) arrivals event vm = some (o, n))
    (hev : handleEvent (Display.mode115 images) arrivals event vm = some vm')
    (hp : vm.draggingPiece = some p) (hpawn : (kind p).isPawn = true) (hrow : o / 8 ≠ n / 8) :
    Noted (Display.mode115 images) vm' p := by
  obtain ⟨packet, q, x, y, hq, rfl, rfl, hdrops, hrelease⟩ := drops_of_acceptedMove hmove
  obtain rfl : p = q := Option.some.inj (hp.symm.trans hq)
  rw [hrelease] at hev
  obtain rfl := Option.some.inj hev
  have hentered : (entered (Display.mode115 images) vm packet).Sound :=
    sound_entered hready packet
  have hdragged : (entered (Display.mode115 images) vm packet).draggingPiece = some p :=
    (entered_frame (Display.mode115 images) vm packet).1.trans hp
  rw [← (entered_game (Display.mode115 images) vm packet).2.2.2.2] at hrow
  generalize entered (Display.mode115 images) vm packet = v at hdrops hentered hdragged hrow ⊢
  obtain ⟨hp32, hcol, hrow'⟩ := hentered.drag p hdragged
  have hon := hdrops.onBoard
  have hcreated : (release (Display.mode115 images) (follow v p) p).boardCreated = true := by
    rw [release_move hdrops]
    exact hentered.created
  have hcell : inicialCell v / 8 = v.inicialPieceRow := by
    unfold inicialCell
    omega
  have hrows : (v.inicialPieceRow : ℤ) ≠ y := by
    obtain ⟨-, -, hx, hx'⟩ := hon
    omega
  -- the piece is put back on its square first, and then sent on its way
  have hpiece : (release (Display.mode115 images) (follow v p) p).heap p =
      movePiece (putBackPiece (Display.mode115 images) (follow v p) p) (getScreenX mode115 x)
        (getScreenY mode115 y) := by
    rw [release_move hdrops]
    exact Function.update_self ..
  have htype : (v.heap p).type = kind p := hentered.type_eq p hp32
  have hfar : ¬ ((release (Display.mode115 images) (follow v p) p).heap p).Arrived := by
    rw [hpiece]
    rintro ⟨-, heq⟩
    exact ofInt_getScreenY_ne ⟨by omega, by omega⟩ ⟨hon.1, hon.2.1⟩ hrows heq
  have hmoving : ((release (Display.mode115 images) (follow v p) p).heap p).isMoving = true := by
    rw [hpiece]
    rfl
  have hkind : ((release (Display.mode115 images) (follow v p) p).heap p).type.isPawn = true := by
    rw [hpiece, type_movePiece, putBackPiece, type_setPiecePosition, type_changePiecePriority,
      follow, Vm.setPiece]
    dsimp only
    rw [Function.update_self, type_setPiecePosition, htype, hpawn]
  rw [Noted, ensureBoard_of_created hcreated]
  cases hflag : ((release (Display.mode115 images) (follow v p) p).heap p).pawnMoved with
  | true => exact .inl rfl
  | false =>
    right
    refine ⟨?_, ?_, ?_, y * 8 + x, isCell_of_onBoard hon, ?_⟩
    · rw [ensureBoard_of_created hcreated]
      exact ⟨hkind, hflag, hmoving⟩
    · rwa [ensureBoard_of_created hcreated]
    · rw [release_move hdrops]
    · rw [ensureBoard_of_created hcreated, release_move hdrops]
      exact Function.update_self ..

end Noted

/-! ## Animated matches -/

/-- Every pawn off its home row has been moved by the end that owns it, and is noted there. -/
structure Flags (images : Images) (s : System) (ms : List (Side × ℤ × ℤ)) : Prop where
  on : ∀ e, (s e).vm.animation = true
  noted : ∀ i p, IsCell i → position ms i = some p → (kind p).isPawn = true →
    i / 8 ≠ (kind p).homeRow → ∃ e, (∃ m ∈ ms, m.1 = e) ∧
      owns (s e).vm.player (kind p) = true ∧ Noted (Display.mode115 images) (s e).vm p

/-- What two instances know of a game with the moves `ms`: their boards in memory fit their
seats, and if no pawn may make a double step later, the pawns have their flags. -/
structure Knows (images : Images) (strict : Prop) (s : System) (ms : List (Side × ℤ × ℤ)) :
    Prop where
  ready : ∀ e, Ready (Display.mode115 images) (s e).vm
  guides : ∀ e, Guides images strict (s e).vm
  flags : strict → Flags images s ms

/-- The seats `v` are those of `t` at the end `e`, whose transmit queue does not matter, and have
the players of those who have moved. -/
structure Mirrors (v t : Table) (e : Side) (ms : List (Side × ℤ × ℤ)) : Prop where
  seat : ∃ transmit, v e = { t e with transmit := transmit }
  movers : ∀ m ∈ ms, (v m.1).player = (t m.1).player

theorem Mirrors.refl (t : Table) (e : Side) (ms : List (Side × ℤ × ℤ)) : Mirrors t t e ms :=
  ⟨⟨(t e).transmit, rfl⟩, fun _ _ => rfl⟩

/-- The event switches the animation of a game. -/
def Switches (s : System) (a : Side × Action) : Prop :=
  (s a.1).vm.gameState = .playing ∧ Toggles a.2

/-- The sides of a match own different pieces. -/
theorem TableMatch.owner {strict : Prop} {w : Side} {t : Table} {ms : List (Side × ℤ × ℤ)}
    (h : TableMatch strict w t ms) {e f : Side} {k : PieceType}
    (he : owns (t e).player k = true) (hf : owns (t f).player k = true) : f = e := by
  rcases e.eq_or_eq_other f with heq | heq
  · exact heq
  · exfalso
    subst heq
    rcases w.eq_or_eq_other e with rfl | rfl
    · simp only [owns, h.white] at he
      simp only [owns, h.black] at hf
      simp [show k.isWhite = true by simpa using he] at hf
    · simp only [owns, h.black] at he
      simp only [owns, Side.other_other, h.white] at hf
      simp [show k.isWhite = true by simpa using hf] at he

/-- The end that drags has the turn, and nothing to read. -/
theorem TableMatch.dragging {d : Display} {strict : Prop} {w : Side} {v : Table} {s : System}
    {ms : List (Side × ℤ × ℤ)} (h : TableMatch strict w v ms) {e : Side}
    (hv : Mirrors v (table d s) e ms) {p : PieceRef} (hp : (s e).vm.draggingPiece = some p) :
    (s e).vm.myTurn = true ∧ (s e).vm.receiveQueue.toList = [] := by
  obtain ⟨transmit, hseat⟩ := hv.seat
  have hturn : (v e).myTurn = true :=
    h.token.turn_of_dragging (p := p) (by rw [hseat]; simpa [table] using hp)
  obtain ⟨-, hh, -⟩ := h.cells_of_turn hturn
  have hquiet := hh.quiet
  simp only [incoming, List.append_eq_nil_iff] at hquiet
  rw [hseat] at hquiet hturn
  exact ⟨by simpa [table] using hturn, by simpa [table] using hquiet.1.1⟩

namespace Knows

variable {images : Images} {strict : Prop} {s : System} {ms : List (Side × ℤ × ℤ)} {w : Side}
  {v v' : Table} (h : Knows images strict s ms)
include h

section Match

variable (hmatch : TableMatch strict w v ms)
include hmatch

/-- A pawn that is pressed off its home row has its flag. -/
theorem pawnKnows {e : Side} (hv : Mirrors v (table (Display.mode115 images) s) e ms) :
    PawnKnows (Display.mode115 images) strict (s e).vm := by
  intro hstrict i p hi hp hown hpawn hrow hturn
  obtain ⟨transmit, hseat⟩ := hv.seat
  obtain ⟨-, -, hcells⟩ := hmatch.cells_of_turn (e := e) (by rw [hseat]; simpa [table] using hturn)
  have hposition : position ms i = some p := by
    rw [← hcells, hseat]
    exact (cellsOf_of_isCell hi).trans hp
  obtain ⟨f, ⟨m, hm, rfl⟩, hown', hnoted⟩ := (h.flags hstrict).noted i p hi hposition hpawn hrow
  have hmover := hv.movers m hm
  obtain rfl : m.1 = e := by
    refine hmatch.owner (k := kind p) ?_ ?_
    · rw [hseat]
      simpa [table] using hown
    · rw [hmover]
      simpa [table] using hown'
  exact hnoted.flag hturn

end Match

/-- An accepted move is legal for the seat of its end. -/
theorem legal {a : Side × Action} {m : Side × ℤ × ℤ}
    (hv : Mirrors v (table (Display.mode115 images) s) a.1 ms)
    (hm : System.accepted (Display.mode115 images) s a = some m) :
    m.1 = a.1 ∧ (v m.1).Legal strict m.2.1 m.2.2 := by
  obtain ⟨-, arrivals, event, rfl, hacc⟩ := System.accepted_eq_some hm
  obtain ⟨transmit, hseat⟩ := hv.seat
  refine ⟨rfl, ?_⟩
  rw [hseat]
  exact legal_of_accepted (h.guides m.1) hacc

section Step

variable {a : Side × Action} (hmatch : TableMatch strict w v ms)
  (hv : Mirrors v (table (Display.mode115 images) s) a.1 ms)
include hmatch hv

/-- A step keeps the animation on and every pawn noted, if it does not switch the animation. -/
theorem keeps (hstrict : strict) (hkey : ¬ Switches s a)
    (hstate : ∀ arrivals event, a.2 = .event arrivals event →
      (s a.1).vm.gameState = .playing ∨ (s a.1).vm.gameState = .exit) (e : Side) :
    (System.step (Display.mode115 images) s a e).vm.animation = true ∧
      ∀ p, Noted (Display.mode115 images) (s e).vm p →
        Noted (Display.mode115 images) (System.step (Display.mode115 images) s a e).vm p := by
  have hon := (h.flags hstrict).on e
  rcases System.step_event_or_buffered (Display.mode115 images) s a e with
    ⟨arrivals, event, vm', rfl, -, hev, heq⟩ | hbuffered
  · rw [heq]
    have hevent := fun p => noted_event (p := p) ⟨h.ready e, hstate arrivals event rfl⟩ hon
      (fun q hq => (hmatch.dragging hv hq).1) (fun hplay htoggles => hkey ⟨hplay, htoggles⟩) hev
    exact ⟨(hevent 0).1, fun p => (hevent p).2⟩
  · obtain ⟨hboard, hheap⟩ := hbuffered.sameGame.ensureBoard (d := Display.mode115 images)
    obtain ⟨transmit, receive, line, heq, -⟩ := hbuffered
    rw [heq] at hboard hheap ⊢
    exact ⟨hon, fun p hp => hp.congr hheap (congrArg Board.board hboard) rfl⟩

/-- The pawn that an accepted move moves is noted behind it. -/
theorem noted_moved {e : Side} {o n : ℤ} {p : PieceRef}
    (hm : System.accepted (Display.mode115 images) s a = some (e, o, n))
    (hs : Table.Step v (some (e, o, n)) v') (hp : position ms o = some p)
    (hpawn : (kind p).isPawn = true) :
    Noted (Display.mode115 images) (System.step (Display.mode115 images) s a e).vm p := by
  obtain ⟨-, -, -, ho, hn, q, hq, hdragged, -, hlegal⟩ :=
    hmatch.accepted_legal hs (h.legal hv hm).2
  obtain rfl : p = q := Option.some.inj (hp.symm.trans hq)
  obtain ⟨halive, arrivals, event, rfl, hacc⟩ := System.accepted_eq_some hm
  obtain ⟨packet, q, x, y, hdrag, -, -, -, hev⟩ := drops_of_acceptedMove hacc
  -- the dragged piece is the one in the origin
  obtain ⟨transmit, hseat⟩ := hv.seat
  rw [hseat] at hdragged
  obtain rfl : p = q := Option.some.inj (hdragged.symm.trans ((seat_dragging _ _).trans hdrag))
  generalize release _ _ p = vm' at hev
  have hstep : System.step (Display.mode115 images) s (e, .event arrivals event) e =
      { s e with vm := vm' } := by
    rw [System.step, if_pos rfl]
    exact Instance.step_event halive hev
  rw [hstep]
  refine noted_accept (h.ready e) hacc hev hdrag hpawn ?_
  -- a pawn leaves its row with every move
  rcases hlegal.forward hpawn with hrow | hrow <;> rw [hrow] <;> unfold PieceType.forward <;>
    split <;> omega

/-- **Every step of the game keeps what the instances know**, if it does not switch the
animation. -/
theorem step (hs : Table.Step v (System.accepted (Display.mode115 images) s a) v')
    (hready : ∀ e, Ready (Display.mode115 images) (System.step (Display.mode115 images) s a e).vm)
    (hplayer : ∀ e, (System.step (Display.mode115 images) s a e).vm.player = (s e).vm.player)
    (hstate : ∀ arrivals event, a.2 = .event arrivals event →
      (s a.1).vm.gameState = .playing ∨ (s a.1).vm.gameState = .exit)
    (hkey : strict → ¬ Switches s a) :
    Knows images strict (System.step (Display.mode115 images) s a)
      (ms ++ (System.accepted (Display.mode115 images) s a).toList) := by
  refine ⟨hready, fun e => ?_, fun hstrict => ?_⟩
  · rcases System.step_event_or_buffered (Display.mode115 images) s a e with
      ⟨arrivals, event, vm', rfl, -, hev, heq⟩ | hbuffered
    · rw [heq]
      exact guides_event (h.guides e) ⟨h.ready e, hstate arrivals event rfl⟩
        (h.pawnKnows hmatch hv) (fun p hp => (hmatch.dragging hv hp).2) hev
    · exact guides_buffered (h.guides e) (h.ready e) hbuffered
  · have hkeeps := h.keeps hmatch hv hstrict (hkey hstrict) hstate
    refine ⟨fun e => (hkeeps e).1, fun i p hi hp hpawn hrow => ?_⟩
    -- a pawn that was there before is still noted
    have hold : position ms i = some p → ∃ e,
        (∃ m ∈ ms ++ (System.accepted (Display.mode115 images) s a).toList, m.1 = e) ∧
          owns (System.step (Display.mode115 images) s a e).vm.player (kind p) = true ∧
          Noted (Display.mode115 images) (System.step (Display.mode115 images) s a e).vm p := by
      intro hp
      obtain ⟨e, ⟨m, hm, hme⟩, hown, hnoted⟩ := (h.flags hstrict).noted i p hi hp hpawn hrow
      exact ⟨e, ⟨m, List.mem_append_left _ hm, hme⟩, (hplayer e).symm ▸ hown,
        (hkeeps e).2 p hnoted⟩
    cases hm : System.accepted (Display.mode115 images) s a with
    | none =>
      rw [hm, Option.toList_none, List.append_nil] at hp hold
      rw [Option.toList_none, List.append_nil]
      exact hold hp
    | some m =>
      obtain ⟨f, o, n⟩ := m
      rw [hm] at hs hold
      obtain ⟨hturn, -, -, -, -, q, hq, -, hown, -⟩ := hmatch.accepted_legal hs (h.legal hv hm).2
      rw [hm, Option.toList_some, position_append] at hp
      simp only [play, hq] at hp
      unfold Seat.moveFrom at hp
      rcases eq_or_ne i n with rfl | hin
      · rw [Function.update_self] at hp
        obtain rfl : q = p := Option.some.inj hp
        refine ⟨f, ⟨(f, o, i), by simp, rfl⟩, ?_, h.noted_moved hmatch hv hm hs hq hpawn⟩
        obtain ⟨transmit, hseat⟩ := hv.seat
        have hfa : f = a.1 := (h.legal hv hm).1
        have hseat' : (v f).player = (s f).vm.player := by
          rw [hfa, hseat]
          exact seat_player _ _
        rw [hplayer f, ← hseat', hturn, hmatch.player]
        exact hown
      · rw [Function.update_of_ne hin] at hp
        rcases eq_or_ne i o with rfl | hio
        · rw [Function.update_self] at hp
          cases hp
        · rw [Function.update_of_ne hio] at hp
          exact hold hp

end Step

end Knows

/-! ## Matches -/

/-- The invariant of a match in which the moves `ms` have been made. -/
structure ChessMatch (images : Images) (strict : Prop) (w : Side) (s : System)
    (ms : List (Side × ℤ × ℤ)) : Prop where
  knows : Knows images strict s ms
  onTable : TableMatch strict w (table (Display.mode115 images) s) ms

namespace ChessMatch

variable {images : Images} {strict : Prop} {w : Side} {s : System} {ms : List (Side × ℤ × ℤ)}
  (h : ChessMatch images strict w s ms)
include h

theorem inGame (e : Side) : InGame (Display.mode115 images) (s e).vm :=
  ⟨h.knows.ready e, by simpa [table] using h.onTable.state e⟩

/-- **Every step goes on with the game**, if its move avoids the first cell. -/
theorem step (a : Side × Action) (hkey : strict → ¬ Switches s a)
    (havoid : ∀ m, System.accepted (Display.mode115 images) s a = some m → AvoidsFirst m) :
    ChessMatch images strict w (System.step (Display.mode115 images) s a)
      (ms ++ (System.accepted (Display.mode115 images) s a).toList) := by
  have hv : Mirrors (table (Display.mode115 images) s) (table (Display.mode115 images) s) a.1 ms :=
    .refl _ _ _
  obtain ⟨hgame, hstep⟩ := System.step_refines h.inGame
    (fun e p hp => (h.onTable.dragging (.refl _ e ms) hp).1) a
  refine ⟨h.knows.step h.onTable hv hstep (fun e => (hgame e).sound) (fun e => ?_)
    (fun _ _ _ => (h.inGame a.1).state) hkey, h.onTable.step hstep havoid
    fun m hm => (h.knows.legal hv hm).2⟩
  simpa [table] using player_step hstep e

end ChessMatch

/-! ## The start of a match -/

/-- An instance that has not begun knows all about a game without a move. -/
theorem Fresh.guides {images : Images} {vm : Vm} (h : Fresh (Display.mode115 images) vm)
    (strict : Prop) : Guides images strict vm := by
  have hidle : (seat (Display.mode115 images) vm).dragging = none :=
    (seat_dragging _ _).trans h.dragging
  refine ⟨fun _ => h.clean, fun p hp => ?_, fun p hp => ?_⟩
  · exact absurd (hidle.symm.trans hp) (by simp)
  · exact absurd (hidle.symm.trans hp) (by simp)

/-- No pawn is off its home row at the start. -/
theorem flags_nil {images : Images} {s : System} (hon : ∀ e, (s e).vm.animation = true) :
    Flags images s [] where
  on := hon
  noted i p hi hp hpawn hrow := by
    have hat : startPosition (i % 8) (i / 8) = some (kind p) := by
      rw [← kinds_position_nil, kinds_of_isCell _ hi, hp]
      rfl
    exact absurd (startPosition_pawn hat hpawn) hrow

section Start

variable {images : Images} {w : Side} {s : System}
  (h : NewMatch (Display.mode115 images) w s)
include h

/-- The seats of a new match. -/
theorem NewMatch.tableMatch (strict : Prop) :
    TableMatch strict w (table (Display.mode115 images) s) [] := by
  refine .new (fun e => ?_) (fun e => (h.game e).toFresh.unplayed) (fun e => (h.game e).tidy)
    ⟨?_, ?_⟩ ⟨?_, ?_⟩ fun e => ?_
  · simpa [table] using (h.game e).playing
  · simpa [table] using h.white.1
  · simpa [table] using h.white.2
  · simpa [table] using h.black.1
  · simpa [table] using h.black.2
  · simp [incoming, table, (h.game _).receive_nil, (h.game _).line_nil, (h.game _).transmit_nil]

/-- Every run of a match whose moves avoid the first cell is a game of chess, in which a pawn
makes a double step from its home row only if the animation stays on. -/
theorem NewMatch.chessMatch_run (acts : List (Side × Action))
    (havoid : ∀ m ∈ moves (Display.mode115 images) s acts, AvoidsFirst m) :
    ChessMatch images ((∀ e, (s e).vm.animation = true) ∧ ∀ a ∈ acts, ¬ Toggles a.2) w
      (Transition.run (System.step (Display.mode115 images)) s acts)
      (moves (Display.mode115 images) s acts) := by
  have hstart : ∀ strict : Prop, (strict → ∀ e, (s e).vm.animation = true) →
      ChessMatch images strict w s [] := fun strict hon =>
    ⟨⟨fun e => (h.game e).sound, fun e => (h.game e).toFresh.guides strict,
      fun hstrict => flags_nil (hon hstrict)⟩, h.tableMatch strict⟩
  have hok := along_outputs.mp havoid
  simp only [Option.mem_toList] at hok
  by_cases hanimated : (∀ e, (s e).vm.animation = true) ∧ ∀ a ∈ acts, ¬ Toggles a.2
  · rw [eq_true hanimated]
    exact run_outputs_invariant_along (ChessMatch images True w) _
      (fun s a ms hs hok => hs.step a (fun _ hswitch => hok.2 hswitch.2) hok.1)
      (hstart True fun _ => hanimated.1) (hok.and_mem hanimated.2)
  · rw [eq_false hanimated]
    exact run_outputs_invariant_along (ChessMatch images False w) _
      (fun s a ms hs hok => hs.step a (fun hfalse => hfalse.elim) hok)
      (hstart False fun hfalse => hfalse.elim) hok

end Start

/-! ## The theorem -/

/-- The position that an instance shows. -/
def shownPosition (d : Display) (vm : Vm) : Position := fun x y =>
  if OnBoard x y then pieceAt d vm x y else none

/-- An instance shows the position of its cells. -/
theorem shownPosition_eq {images : Images} {vm : Vm} (h : Ready (Display.mode115 images) vm) :
    shownPosition (Display.mode115 images) vm =
      kinds (seat (Display.mode115 images) vm).cells := by
  have hsound : (ensureBoard (Display.mode115 images) vm).Sound := h
  refine Eq.trans ?_ hsound.squares_eq
  funext x y
  rw [shownPosition, squares, pieceAt, getPosition, add_comm]

section Theorem

variable {images : Images}

/-- **A match is a game of chess.** In every run of two instances from the start of a game in which
no accepted move starts or ends in the first cell, the accepted moves are a game of chess: they
alternate, white first, each is a pseudo-legal move of a piece of its side in the position that the
moves before it lead to, and none is made behind the capture of a king; a pawn makes a double step
from its home row only, if the animation stays on. At every moment, either end shows the position
of this game, or the end to move shows the one before the last move. -/
theorem match_is_chess {w : Side} {s : System} (h : NewMatch (Display.mode115 images) w s)
    (acts : List (Side × Action))
    (havoid : ∀ m ∈ moves (Display.mode115 images) s acts, AvoidsFirst m) :
    let d := Display.mode115 images
    let s' := Transition.run (System.step d) s acts
    let ms := moves d s acts
    let strict := (∀ e, (s e).vm.animation = true) ∧ ∀ a ∈ acts, ¬ Toggles a.2
    ∃ pos, ChessGame strict (ms.map ply) pos ∧
      shownPosition d (s' (turnOf w ms.length).other).vm = pos ∧
      (shownPosition d (s' (turnOf w ms.length)).vm = pos ∨
        ChessGame strict (ms.dropLast.map ply) (shownPosition d (s' (turnOf w ms.length)).vm)) := by
  intro d s' ms strict
  have hrun : ChessMatch images strict w s' ms := h.chessMatch_run acts havoid
  refine ⟨kinds (position ms), hrun.onTable.game ms List.prefix_rfl, ?_, ?_⟩
  · rw [shownPosition_eq (hrun.knows.ready _)]
    exact congrArg kinds hrun.onTable.moved
  · rw [shownPosition_eq (hrun.knows.ready _)]
    exact hrun.onTable.shown

/-- The six moves of the raid are a game of chess, and black shows its position: the knight stands
where it took a pawn. -/
theorem match_is_chess_raid :
    let d := Display.mode115 Images.blank
    let acts := clicks .left raidClicks
    let s' := Transition.run (System.step d) clickMatch acts
    let strict := (∀ e, (clickMatch e).vm.animation = true) ∧ ∀ a ∈ acts, ¬ Toggles a.2
    ∃ pos, ChessGame strict ((clickMoves .left raidClicks).map ply) pos ∧
      shownPosition d (s' .right).vm = pos ∧ pos 2 1 = some .wKnight := by
  have hchess := match_is_chess (newMatch_clickMatch (Display.mode115 Images.blank))
    (clicks .left raidClicks) (by rw [moves_raidClicks]; decide)
  obtain ⟨-, hright⟩ := stands_raidClicks
  dsimp only at hchess ⊢
  rw [moves_raidClicks] at hchess
  generalize Transition.run _ clickMatch (clicks .left raidClicks) = s' at hright hchess ⊢
  obtain ⟨pos, hgame, hshown, -⟩ := hchess
  refine ⟨pos, hgame, hshown, ?_⟩
  rw [← hshown]
  exact (if_pos (by decide)).trans ((hright.pieceAt_eq (by decide)).trans (by decide +kernel))

/-- Either end shows a position of a game of chess. -/
theorem ChessMatch.shown {w : Side} {strict : Prop} {s : System} {ms : List (Side × ℤ × ℤ)}
    (h : ChessMatch images strict w s ms) (e : Side) :
    ∃ ms', ChessGame strict ms' (shownPosition (Display.mode115 images) (s e).vm) := by
  rw [shownPosition_eq (h.knows.ready e)]
  change ∃ ms', ChessGame strict ms' (kinds (table (Display.mode115 images) s e).cells)
  obtain rfl | rfl := (turnOf w ms.length).eq_or_eq_other e
  · rcases h.onTable.shown with hcells | hgame
    · exact ⟨_, hcells ▸ h.onTable.game ms List.prefix_rfl⟩
    · exact ⟨_, hgame⟩
  · exact ⟨_, h.onTable.moved ▸ h.onTable.game ms List.prefix_rfl⟩

/-- **What the boards of a match always show**, at either end and also while a move is on its way,
if no accepted move starts or ends in the first cell: two bishops of one color stand on squares of
different colors, no pawn is behind its home row, and the end that moved last sees its own king. -/
theorem boards_keep_rules {w : Side} {s : System} (h : NewMatch (Display.mode115 images) w s)
    (acts : List (Side × Action))
    (havoid : ∀ m ∈ moves (Display.mode115 images) s acts, AvoidsFirst m) :
    let d := Display.mode115 images
    let s' := Transition.run (System.step d) s acts
    let n := (moves d s acts).length
    (∀ e t, t = .wBishop ∨ t = .bBishop → ∀ x y x' y',
      shownPosition d (s' e).vm x y = some t → shownPosition d (s' e).vm x' y' = some t →
        (x + y) % 2 = (x' + y') % 2 → x = x' ∧ y = y') ∧
      (∀ e x y, (shownPosition d (s' e).vm x y = some .wPawn → y ≤ 6) ∧
        (shownPosition d (s' e).vm x y = some .bPawn → 1 ≤ y)) ∧
      (shownPosition d (s' (turnOf w n).other).vm).Has
        (kingOf ((s' (turnOf w n).other).vm.player == .white)) := by
  intro d s' n
  have hrun : ChessMatch images _ w s' (moves d s acts) := h.chessMatch_run acts havoid
  refine ⟨fun e t ht x y x' y' hat hat' hcolor => ?_, fun e x y => ?_, ?_⟩
  · obtain ⟨ms', hgame⟩ := hrun.shown e
    exact hgame.bishops_apart ht hat hat' hcolor
  · obtain ⟨ms', hgame⟩ := hrun.shown e
    refine ⟨fun hat => ?_, fun hat => ?_⟩
    · have := hgame.pawn_ahead (t := .wPawn) rfl hat
      change 0 ≤ (y - 6) * (-1) at this
      omega
    · have := hgame.pawn_ahead (t := .bPawn) rfl hat
      change 0 ≤ (y - 1) * 1 at this
      omega
  · have hking := (hrun.onTable.game _ List.prefix_rfl).king_stands
    have hplayer := hrun.onTable.player (n + 1)
    rw [table, seat_player] at hplayer
    rw [← turnOf_succ, hplayer, turnOf_succ, shownPosition_eq (hrun.knows.ready _)]
    have hcolor : (playerOf (n + 1) == Player.white) = (n % 2 == 1) := by
      unfold playerOf
      rcases Nat.mod_two_eq_zero_or_one n with hn | hn
      · rw [hn, show (n + 1) % 2 = 1 by omega]
        rfl
      · rw [hn, show (n + 1) % 2 = 0 by omega]
        rfl
    rw [List.length_map] at hking
    rw [hcolor]
    exact (congrArg kinds hrun.onTable.moved).symm ▸ hking

/-- Behind the six moves of the raid, both boards keep the rules, and black still has the king. -/
theorem boards_keep_rules_raid :
    let d := Display.mode115 Images.blank
    let s' := Transition.run (System.step d) clickMatch (clicks .left raidClicks)
    (∀ e t, t = .wBishop ∨ t = .bBishop → ∀ x y x' y',
      shownPosition d (s' e).vm x y = some t → shownPosition d (s' e).vm x' y' = some t →
        (x + y) % 2 = (x' + y') % 2 → x = x' ∧ y = y') ∧
      (∀ e x y, (shownPosition d (s' e).vm x y = some .wPawn → y ≤ 6) ∧
        (shownPosition d (s' e).vm x y = some .bPawn → 1 ≤ y)) ∧
      (shownPosition d (s' .right).vm).Has .bKing := by
  have hrules := boards_keep_rules (newMatch_clickMatch (Display.mode115 Images.blank))
    (clicks .left raidClicks) (by rw [moves_raidClicks]; decide)
  obtain ⟨-, hright⟩ := stands_raidClicks
  dsimp only at hrules ⊢
  rw [moves_raidClicks] at hrules
  generalize Transition.run _ clickMatch (clicks .left raidClicks) = s' at hright hrules ⊢
  obtain ⟨hbishops, hpawns, hking⟩ := hrules
  have hplayer : (s' .right).vm.player = .black := hright.player.trans (by decide +kernel)
  have hlast : (turnOf .left (clickMoves .left raidClicks).length).other = .right := rfl
  rw [hlast, hplayer] at hking
  exact ⟨hbishops, hpawns, hking⟩

end Theorem

end LCChess
