import LCChess.Protocol.Session

/-!
# Sessions that go on

What a session keeps beside its invariant, so that the moves of chess stay possible: no king counts
as captured before it is, and a pawn that has not left its home row is at rest at both ends and has
no flag, so that it may still make its double step.

## Main definitions

* `Piece.Unmoved`: the piece is at rest, and its flag is not set
* `Ongoing images s ms`: a session in which the moves `ms` have been made, with what it keeps

## Main results

* `unmoved_event`: an event that leaves a piece on its cell leaves it unmoved
* `Ongoing.step`: every step keeps what the moves of chess need
-/

namespace LCChess

/-! ## Pieces that have not been moved -/

/-- The piece is at rest, and its flag is not set. -/
structure Piece.Unmoved (piece : Piece) : Prop where
  rest : piece.isMoving = false
  unflagged : piece.pawnMoved = false

/-- A frame leaves an unmoved piece so. -/
theorem Piece.Unmoved.updated {piece : Piece} (h : piece.Unmoved) (animation : Bool) :
    (piece.updated animation).Unmoved := by
  rcases piece.updated_cases animation with ⟨-, heq, -⟩ | ⟨hmoving, -⟩ | ⟨hmoving, -⟩
  · rw [heq]
    exact ⟨h.rest, h.unflagged⟩
  · exact absurd (h.rest.symm.trans hmoving) Bool.false_ne_true
  · exact absurd (h.rest.symm.trans hmoving) Bool.false_ne_true

/-- A drag leaves an unmoved piece so. -/
theorem Piece.Unmoved.setPiecePosition {piece : Piece} (h : piece.Unmoved) (x y : ℤ) :
    (setPiecePosition piece x y).Unmoved := ⟨h.rest, h.unflagged⟩

theorem Piece.Unmoved.changePiecePriority {piece : Piece} (h : piece.Unmoved) (priority : Bool) :
    (changePiecePriority piece priority).Unmoved := ⟨h.rest, h.unflagged⟩

/-- Writing a piece leaves the other pieces alone. -/
theorem Piece.Unmoved.update {heap : Heap} {p q : PieceRef} (h : (heap p).Unmoved) {piece : Piece}
    (hpiece : q = p → piece.Unmoved) : (Function.update heap q piece p).Unmoved := by
  rcases eq_or_ne q p with rfl | hne
  · rw [Function.update_self]
    exact hpiece rfl
  · rwa [Function.update_of_ne hne.symm]

section Events

variable {d : Display} {vm vm' : Vm} {p : PieceRef} {i : ℤ}

/-- A received byte that leaves a piece on its cell leaves it unmoved. -/
theorem unmoved_parseByte {b : UInt8} (hparse : parseByte d b vm = some vm')
    (hunique : ∀ j, IsCell j → vm.board.board j = some p → j = i)
    (horigin : IsCell (moveCell vm.move.oldRow vm.move.oldCol))
    (hi' : vm'.board.board i = some p) (h : (vm.heap p).Unmoved) : (vm'.heap p).Unmoved := by
  obtain rfl | rfl | rfl | ⟨move, byteOfMove, rfl⟩ | ⟨q, gameState, won, -, hq, -, rfl⟩ :=
    parseByte_cases hparse
  · exact h
  · exact h
  · exact h
  · exact h
  · refine h.update fun hqp => ?_
    subst hqp
    -- the cell that the piece comes from is empty behind the move
    obtain rfl := hunique _ horigin hq
    simp [moveReceived] at hi'

/-- A release that leaves a piece on its cell leaves it unmoved. -/
theorem unmoved_release {q : PieceRef}
    (hdrag : q = p → inicialCell vm = i ∧ vm.board.board i = some p)
    (hi' : (release d vm q).board.board i = some p) (h : (vm.heap p).Unmoved) :
    ((release d vm q).heap p).Unmoved := by
  by_cases hdrops : ∃ x y, Drops d vm q x y
  · obtain ⟨x, y, hdrops⟩ := hdrops
    rw [release_move hdrops] at hi' ⊢
    refine h.update fun hqp => ?_
    subst hqp
    obtain ⟨hinicial, hcell⟩ := hdrag rfl
    simp only [moveCells, hinicial] at hi'
    rcases eq_or_ne i (y * 8 + x) with heq | hne
    · -- no piece is dropped on itself
      have henemy := hdrops.enemy q (heq ▸ hcell)
      rw [sameTeam_eq_false_iff] at henemy
      exact absurd rfl henemy
    · rw [Function.update_of_ne hne, Function.update_self] at hi'
      cases hi'
  · rw [release_putBack fun x y hxy => hdrops ⟨x, y, hxy⟩]
    refine h.update fun hqp => ?_
    subst hqp
    exact (h.changePiecePriority false).setPiecePosition _ _

/-- **An event that leaves a piece on its cell leaves it unmoved.** -/
theorem unmoved_event (hready : Ready d vm) (htidy : Tidy (seat d vm)) {k : ℕ} {event : Event}
    (hev : handleEvent d k event vm = some vm') (hi : (seat d vm).cells i = some p)
    (hi' : (seat d vm').cells i = some p) (h : ((ensureBoard d vm).heap p).Unmoved) :
    ((ensureBoard d vm').heap p).Unmoved := by
  by_cases hplay : vm.gameState = .playing
  · have hsound : (ensureBoard d vm).Sound := hready
    have hcreated := (handleEvent_refines hready hplay hev).1.created
    have hcell : IsCell i := by
      by_contra hne
      simp [seat, Vm.toSeat, cellsOf, hne] at hi
    have hunique : ∀ j, IsCell j → (ensureBoard d vm).board.board j = some p → j = i :=
      fun j hj hjp => htidy.unique j i p ((cellsOf_of_isCell hj).trans hjp) hi
    obtain ⟨-, hboard, hheap, -⟩ := leaveGame_ensureBoard_animation d vm
    rw [seat, ensureBoard_of_created hcreated] at hi'
    replace hi' : vm'.board.board i = some p := (cellsOf_of_isCell hcell).symm.trans hi'
    replace hi : (ensureBoard d vm).board.board i = some p :=
      (cellsOf_of_isCell hcell).symm.trans hi
    rw [ensureBoard_of_created hcreated]
    cases event with
    | newFrame =>
      rw [handleEvent_frame hplay] at hev
      obtain ⟨w, hbyte, rfl⟩ := Option.map_eq_some_iff.mp hev
      obtain ⟨hleft, -⟩ := sound_leaveGame hsound
      have hparsed : parseByte d _ { playingFrame d (leaveGame (ensureBoard d vm)) with
          receiveQueue := _ } = some w := hbyte
      change (w.heap p).Unmoved
      refine unmoved_parseByte (i := i) hparsed ?_ hleft.origin hi' ?_
      · rw [← hboard] at hunique
        exact hunique
      · obtain ⟨memPieces, videoMemBuffer, hframe⟩ :=
          playingFrame_frame d (leaveGame (ensureBoard d vm))
        rw [hframe]
        exact updateBoard_keeps Piece.Unmoved (fun piece hpiece => hpiece.updated _)
          (hheap ▸ h) _
    | keyboard scanCode =>
      rw [handleEvent_keyboard hplay] at hev
      obtain rfl := Option.some.inj hev
      unfold playingKeyboard
      split_ifs <;> simpa only [hheap] using h
    | mouse packet =>
      rw [handleEvent_mouse hplay] at hev
      obtain rfl := Option.some.inj hev
      change ((playingMouse d (entered d vm packet)).heap p).Unmoved
      change (playingMouse d (entered d vm packet)).board.board i = some p at hi'
      obtain ⟨hdrag, hboard', hcursor⟩ := entered_frame d vm packet
      obtain ⟨hheap', -, -, -, hinicial⟩ := entered_game d vm packet
      have hbuttons : (entered d vm packet).cursor.pressed = true →
          (entered d vm packet).cursor.released = false := by
        rw [hcursor]
        simp +contextual
      rw [← hheap'] at h
      have hfollow : ∀ q, ((follow (entered d vm packet) q).heap p).Unmoved := fun q =>
        h.update fun hqp => hqp ▸ h.setPiecePosition _ _
      rcases playingMouse_cases d hbuttons with ⟨-, heq⟩ | ⟨-, q, x, y, -, heq⟩ | ⟨q, -, -, heq⟩ |
        ⟨q, hq, -, heq⟩
      · rwa [heq]
      · rw [heq, heap_press]
        exact h.update fun hqp => hqp ▸ h.changePiecePriority true
      · rw [heq]
        exact hfollow q
      · rw [heq] at hi' ⊢
        refine unmoved_release (i := i) (fun hqp => ?_) hi' (hfollow q)
        subst hqp
        -- a dragged piece stands in the cell it was pressed on
        obtain ⟨hcell', hdragged⟩ := htidy.drag q
          ((seat_dragging _ _).trans (hdrag.symm.trans hq))
        rw [seat_inicial] at hcell' hdragged
        have hcells : (follow (entered d vm packet) q).board = (ensureBoard d vm).board := hboard'
        exact ⟨hinicial.trans (htidy.unique _ _ q hdragged ((cellsOf_of_isCell hcell).trans hi)),
          hcells ▸ hi⟩
  · obtain ⟨vm'', hev', hkeeps⟩ := handleEvent_keepsGame d k event hplay
    obtain rfl := Option.some.inj (hev.symm.trans hev')
    rwa [hkeeps.toSameGame.ensureBoard.2]

end Events

/-! ## The home rows -/

/-- A pawn on its home row was there before the last move as well. -/
theorem home_position {strict : Prop} {ms : List (Side × ℤ × ℤ)} {m : Side × ℤ × ℤ}
    (hold : ChessGame strict (ms.map ply) (kinds (position ms)))
    (hnew : ChessGame strict ((ms ++ [m]).map ply) (kinds (position (ms ++ [m])))) {i : ℤ}
    {p : PieceRef} (hp : position (ms ++ [m]) i = some p) (hpawn : (kind p).isPawn = true)
    (hhome : i / 8 = (kind p).homeRow) : position ms i = some p := by
  rw [List.map_append, List.map_singleton] at hnew
  obtain ⟨hallows, -⟩ := hold.allows_last hnew
  obtain ⟨e, o, n⟩ := m
  have ho : IsCell o := by
    obtain ⟨hy, hy', -⟩ := hallows.onBoard.1
    simp only [ply] at hy hy'
    exact ⟨by omega, by omega⟩
  rw [position_append] at hp
  cases hq : position ms o with
  | none => simpa only [play, hq] using hp
  | some q =>
    simp only [play, hq, Seat.moveFrom] at hp
    rcases eq_or_ne i n with rfl | hin
    · -- the piece that has just moved is not on its home row
      rw [Function.update_self] at hp
      obtain rfl := Option.some.inj hp
      refine absurd hhome (hold.leaves_home hallows hpawn ?_)
      simp only [ply]
      rw [kinds_of_isCell _ ho, hq]
      rfl
    · rw [Function.update_of_ne hin] at hp
      rcases eq_or_ne i o with rfl | hio
      · rw [Function.update_self] at hp
        cases hp
      · rwa [Function.update_of_ne hio] at hp

/-- Both ends show a pawn that is on its home row. -/
theorem Session.home {strict : Prop} {t : Table} {ms : List (Side × ℤ × ℤ)}
    (h : Session strict t ms) {i : ℤ} {p : PieceRef} (hp : position ms i = some p)
    (hpawn : (kind p).isPawn = true) (hhome : i / 8 = (kind p).homeRow) (e : Side) :
    (t e).cells i = some p := by
  rcases h.boards e with hcells | ⟨⟨m, hm, -⟩, hcells⟩
  · rw [hcells, hp]
  · obtain ⟨init, rfl⟩ : ∃ init, ms = init ++ [m] :=
      ⟨_, (List.dropLast_append_getLast? m hm).symm⟩
    rw [hcells, List.dropLast_concat]
    exact home_position (h.chess (List.prefix_append init [m])) (h.chess List.prefix_rfl) hp hpawn
      hhome

/-! ## Ongoing sessions -/

/-- A session in which the moves `ms` have been made, with what it keeps for the moves to come. -/
structure Ongoing (images : Images) (s : System) (ms : List (Side × ℤ × ℤ)) : Prop where
  session : InSession images False s ms
  going : (kinds (position ms)).Has .wKing → (kinds (position ms)).Has .bKing →
    ∀ e, (s e).vm.endGame = false
  home : ∀ i p, position ms i = some p → (kind p).isPawn = true → i / 8 = (kind p).homeRow →
    ∀ e, ((ensureBoard (Display.mode115 images) (s e).vm).heap p).Unmoved

namespace InSession

variable {images : Images} {strict : Prop} {s : System} {ms : List (Side × ℤ × ℤ)}
  (h : InSession images strict s ms)
include h

/-- Without a move no king is captured. -/
theorem endGame_step {a : Side × Action}
    (hnone : System.accepted (Display.mode115 images) s a = none) (e : Side) :
    (System.step (Display.mode115 images) s a e).vm.endGame = (s e).vm.endGame := by
  by_cases hmenu : (∃ k event, a.2 = .event k event) ∧ (s a.1).vm.gameState ≠ .playing ∧
      (s a.1).vm.gameState ≠ .exit
  · obtain ⟨f, act⟩ := a
    obtain ⟨⟨k, event, rfl⟩, hplay, -⟩ := hmenu
    obtain ⟨vm', hev, hkeeps⟩ := handleEvent_keepsGame (Display.mode115 images) k event hplay
    rw [System.step_local (by simp [Instance.written]), Instance.step_event (h.alive f) hev]
    obtain rfl | rfl := f.eq_or_eq_other e
    · rw [Function.update_self]
      exact hkeeps.endGame
    · rw [Function.update_of_ne (Side.other_ne f)]
  · have hstep := (System.step_table h.knows.ready a (fun _ k event hact => by
      by_contra hne
      exact hmenu ⟨⟨k, event, hact⟩, not_or.mp hne⟩) (h.turn_of_dragging a.1)).2
    rw [hnone] at hstep
    simpa [table] using LCChess.endGame_step hstep e

/-- An accepted move is one of a match of two seats, and its end shows the position of the game. -/
theorem accepted_move {a : Side × Action} {m : Side × ℤ × ℤ}
    (hm : System.accepted (Display.mode115 images) s a = some m) :
    Table.Step (table (Display.mode115 images) s) (some m)
        (table (Display.mode115 images) (System.step (Display.mode115 images) s a)) ∧
      (table (Display.mode115 images) s m.1).cells = position ms ∧
      ∃ w v v', TableMatch strict w v ms ∧
        Mirrors v (table (Display.mode115 images) s) m.1 ms ∧ Table.Step v (some m) v' ∧
        (v m.1).Legal strict m.2.1 m.2.2 := by
  obtain ⟨f, o, n⟩ := m
  obtain ⟨-, k, event, rfl, hacc⟩ := System.accepted_eq_some hm
  have hplay : (s f).vm.gameState = .playing := by
    by_contra hplay
    rw [acceptedMove_menu hplay] at hacc
    cases hacc
  obtain ⟨-, hstep⟩ := System.step_table h.knows.ready (f, .event k event)
    (fun _ _ _ _ => .inl hplay) (h.turn_of_dragging f)
  rw [hm] at hstep
  obtain ⟨w, v, hmatch, hv, -, hlift⟩ := h.session.match_of_state (e := f)
    (by simpa [table] using Or.inl hplay)
  obtain ⟨v', hs⟩ := hlift _ _ hstep
  obtain ⟨p, hp, -⟩ := hstep.accepted
  obtain ⟨transmit, hseat⟩ := hv.seat
  have hturn := h.turn_of_dragging f p (by simpa [table] using hp)
  have hcells := (hmatch.cells_of_turn (e := f) (by
    rw [hseat]
    simpa [table] using hturn)).2.2
  rw [hseat] at hcells
  exact ⟨hstep, hcells, w, v, v', hmatch, hv, hs, (h.knows.legal hv hm).2⟩

/-- A move that leaves both kings on the board captures none. -/
theorem endGame_move {a : Side × Action} {m : Side × ℤ × ℤ}
    (hm : System.accepted (Display.mode115 images) s a = some m)
    (hgoing : ∀ e, (s e).vm.endGame = false)
    (hkings : ∀ t : PieceType, t.isKing = true → (kinds (position (ms ++ [m]))).Has t) (e : Side) :
    (System.step (Display.mode115 images) s a e).vm.endGame = false := by
  obtain ⟨hstep, hcells, w, v, v', hmatch, -, hs, hlegal⟩ := h.accepted_move hm
  obtain ⟨f, o, n⟩ := m
  obtain ⟨-, k, event, rfl, -⟩ := System.accepted_eq_some hm
  obtain ⟨hallows, hafter⟩ := hmatch.allowed hs hlegal
  obtain ⟨-, -, -, -, hn, -⟩ := hmatch.accepted_legal hs hlegal
  obtain rfl | rfl := f.eq_or_eq_other e
  · obtain ⟨p, hp, -, -, -, hend⟩ := hstep.accepted
    have hking : Seat.kingAt (position ms) n = false := by
      by_contra hking
      -- a king that is taken is gone
      unfold Seat.kingAt at hking
      split at hking
      · rename_i q hq
        have hkind : (kind q).isKing = true := by simpa using hking
        refine (h.session.chess List.prefix_rfl).king_taken hallows hkind ?_
          (hafter ▸ hkings _ hkind)
        simp only [ply]
        rw [kinds_of_isCell _ hn, hq]
        rfl
      · exact hking rfl
    rw [hcells, hking, Bool.or_false] at hend
    have hold := hgoing e
    simpa [table, hold] using hend
  · rw [System.step_local (by simp [Instance.written]), Function.update_of_ne (Side.other_ne f)]
    exact hgoing _

end InSession

namespace Ongoing

variable {images : Images} {s : System} {ms : List (Side × ℤ × ℤ)} (h : Ongoing images s ms)
include h

/-- Every pawn on its home row stays unmoved. -/
theorem home_step {a : Side × Action} {ms' : List (Side × ℤ × ℤ)}
    (hnext : InSession images False (System.step (Display.mode115 images) s a) ms')
    {i : ℤ} {p : PieceRef} (hold : position ms i = some p) (hnew : position ms' i = some p)
    (hpawn : (kind p).isPawn = true) (hhome : i / 8 = (kind p).homeRow) (e : Side) :
    ((ensureBoard (Display.mode115 images)
      (System.step (Display.mode115 images) s a e).vm).heap p).Unmoved := by
  have hrest := h.home i p hold hpawn hhome e
  have hcell := h.session.session.home hold hpawn hhome e
  have hcell' := hnext.session.home hnew hpawn hhome e
  rcases System.step_event_or_buffered (Display.mode115 images) s a e with
    ⟨k, event, vm', -, -, hev, heq⟩ | hbuffered
  · rw [table, heq] at hcell'
    rw [heq]
    exact unmoved_event (h.session.knows.ready e) (h.session.lobby.tidy e) hev hcell hcell' hrest
  · rw [(hbuffered.sameGame.ensureBoard (d := Display.mode115 images)).2]
    exact hrest

/-- **Every step of a session keeps what the moves of chess need**, if the second `ENTER` is in
order and its move avoids the first cell. -/
theorem step (a : Side × Action) (hok : EnterOk s a)
    (havoid : ∀ m, System.accepted (Display.mode115 images) s a = some m → AvoidsFirst m) :
    Ongoing images (System.step (Display.mode115 images) s a)
      (ms ++ (System.accepted (Display.mode115 images) s a).toList) := by
  have hnext := h.session.step a hok (fun hfalse => hfalse.elim) havoid
  cases hm : System.accepted (Display.mode115 images) s a with
  | none =>
    rw [hm, Option.toList_none, List.append_nil] at hnext
    rw [Option.toList_none, List.append_nil]
    refine ⟨hnext, fun hwhite hblack e => ?_, fun i p hp hpawn hhome e => ?_⟩
    · rw [h.session.endGame_step hm]
      exact h.going hwhite hblack e
    · exact h.home_step hnext hp hp hpawn hhome e
  | some m =>
    rw [hm, Option.toList_some] at hnext
    rw [Option.toList_some]
    have hchess := h.session.session.chess List.prefix_rfl
    have hchess' := hnext.session.chess List.prefix_rfl
    refine ⟨hnext, fun hwhite hblack => ?_, fun i p hp hpawn hhome e => ?_⟩
    · -- the kings were there before the move
      have hlast := hchess'
      rw [List.map_append, List.map_singleton] at hlast
      obtain ⟨hallows, -⟩ := hchess.allows_last hlast
      refine h.session.endGame_move hm (h.going hallows.kings.1 hallows.kings.2) fun t ht => ?_
      cases t <;> first | exact hwhite | exact hblack | exact absurd ht (by decide)
    · exact h.home_step hnext (home_position hchess hchess' hp hpawn hhome) hp hpawn hhome e

end Ongoing

/-- Two instances at their start begin a session that goes on. -/
theorem AtStart.ongoing {images : Images} {s : System} (h : AtStart (Display.mode115 images) s)
    (halive : ∀ e, (s e).crashed = false) : Ongoing images s [] where
  session := h.inSession halive fun hfalse => hfalse.elim
  going _ _ e := (h.fresh e).endGame
  home i p hp hpawn _ e := by
    have hcell : IsCell i := by
      by_contra hne
      simp [position, hne] at hp
    obtain ⟨hcells, htypes⟩ := (h.fresh e).position
    have hinitial : initialCells i = some p := (if_pos hcell).symm.trans hp
    obtain ⟨hrest, hflag⟩ := (h.fresh e).rest i p hcell ((hcells i hcell).trans hinitial)
    rw [htypes p (lt_of_initialCells hinitial)] at hflag
    exact ⟨hrest, hflag hpawn⟩

end LCChess
