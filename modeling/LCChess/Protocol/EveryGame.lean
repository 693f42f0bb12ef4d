import LCChess.Play.Moves
import LCChess.Protocol.Users

/-!
# Every game of chess can be played

A session is a game of chess. Conversely, two users can play every game, from the start of the main
loops and from every point of a session: whatever the menus, the drags and the bytes on their way
have come to, there are keys, packets of the mice and frames that lead on to the next move. What the
two users cannot play is a move from or to the first cell, which the parser does not understand, and
the capture of the black king by a white pawn, which is not highlighted.

## Main definitions

* `Position.Offers pos white m`: a move of chess that the program offers to a user
* `Continues pos white ks`: the moves `ks` go on with a game from the position `pos`
* `Poised w ms p x y`: the instance `w` shows the game `ms` before its next move

## Main results

* `ToMove.exists_idle`: a drag is broken off
* `ToMove.exists_move`: the user makes the move that it wants
* `every_game_can_be_played`: a session goes on as the users want
-/

namespace LCChess

open Transition (Leads Along run along_append along_nil along_outputs outputs_append
  run_outputs_invariant_along)

/-! ## The moves of the users -/

/-- A move of chess that avoids the first cell, and with which no white pawn takes the black
king. -/
structure Position.Offers (pos : Position) (white : Bool) (m : Ply) : Prop where
  allowed : pos.Allows True white m
  origin : m.y * 8 + m.x ≠ 0
  target : m.y' * 8 + m.x' ≠ 0
  king : ¬ (pos m.x m.y = some .wPawn ∧ pos m.x' m.y' = some .bKing)

/-- The moves `ks` go on with a game from the position `pos`, in which the side `white` moves
next. -/
def Continues (pos : Position) (white : Bool) : List Ply → Prop
  | [] => True
  | m :: ks => pos.Offers white m ∧ Continues (pos.after m) (!white) ks

section Play

variable {images : Images} {s s' : System} {e : Side} {ms : List (Side × ℤ × ℤ)}

namespace ToMove

/-- A packet that keeps the turn goes on with the move. -/
theorem packet (h : ToMove images s e ms) {packet : Packet} {vm' : Vm}
    (hev : handleEvent (Display.mode115 images) 0 (.mouse packet) (s e).vm = some vm')
    (hplay : vm'.gameState = .playing) (hturn : vm'.myTurn = true)
    (hgoing : vm'.endGame = false) :
    System.accepted (Display.mode115 images) s (e, .event 0 (.mouse packet)) = none ∧
      (System.step (Display.mode115 images) s (e, .event 0 (.mouse packet)) e).vm = vm' ∧
      ToMove images (System.step (Display.mode115 images) s (e, .event 0 (.mouse packet)))
        e ms := by
  have hnone := accepted_of_turn hev fun _ => hturn.trans h.turn.symm
  have hself : (System.step (Display.mode115 images) s (e, .event 0 (.mouse packet)) e).vm =
      vm' := by
    rw [System.step_handled (h.ongoing.session.alive e) hev, Function.update_self]
  refine ⟨hnone, hself, h.ongoing.quiet enterOk_mouse hnone, ?_, ?_, ?_⟩
  · rw [hself, hplay]
  · rw [hself, hturn]
  · rw [hself, hgoing]

/-- The instance in which a packet is handled. -/
theorem entered (h : ToMove images s e ms) (packet : Packet) :
    handleEvent (Display.mode115 images) 0 (.mouse packet) (s e).vm =
        some (playingMouse (Display.mode115 images)
          (entered (Display.mode115 images) (s e).vm packet)) ∧
      (LCChess.entered (Display.mode115 images) (s e).vm packet).gameState = .playing ∧
      (LCChess.entered (Display.mode115 images) (s e).vm packet).myTurn = true ∧
      (LCChess.entered (Display.mode115 images) (s e).vm packet).endGame = false := by
  obtain ⟨board, heap, redraw, hframe⟩ := ensureBoard_frame (Display.mode115 images) (s e).vm
  have heq : LCChess.entered (Display.mode115 images) (s e).vm packet =
      { ensureBoard (Display.mode115 images) (s e).vm with
        cursor := updateCursor (Display.mode115 images).toGeometry packet (s e).vm.cursor } := by
    refine leaveGame_of_endGame ?_
    rw [hframe]
    exact h.going
  refine ⟨handleEvent_mouse h.playing packet, ?_, ?_, ?_⟩
  · rw [heq, hframe]
    exact h.playing
  · rw [heq, hframe]
    exact h.turn
  · rw [heq, hframe]
    exact h.going

end ToMove

/-- A user that has the turn leads its cursor about without the button. -/
theorem roams_idle (e : Side) (ms : List (Side × ℤ × ℤ)) :
    Roams images e false fun s => ToMove images s e ms ∧ (s e).vm.draggingPiece = none := by
  rintro s packet ⟨hmove, hidle⟩ hup
  obtain ⟨hev, hplay, hturn, hgoing⟩ := hmove.entered packet
  obtain ⟨hdrag, -, hcursor⟩ := entered_frame (Display.mode115 images) (s e).vm packet
  have hsame : playingMouse (Display.mode115 images)
      (entered (Display.mode115 images) (s e).vm packet) =
        entered (Display.mode115 images) (s e).vm packet := by
    refine playingMouse_idle (hdrag.trans hidle) fun p x y hpress => ?_
    have hpressed := hpress.pressed
    rw [hcursor, pressed_updateCursor, hup] at hpressed
    cases hpressed
  rw [hsame] at hev
  obtain ⟨hnone, hself, hnext⟩ := hmove.packet hev hplay hturn hgoing
  refine ⟨hnone, ?_, hnext, ?_⟩
  · rw [hself, hcursor]
    rfl
  · rw [hself, hdrag, hidle]

/-- A user that drags a piece leads its cursor about with the button down. -/
theorem roams_dragging (e : Side) (ms : List (Side × ℤ × ℤ)) (p : PieceRef) :
    Roams images e true fun s => ToMove images s e ms ∧ (s e).vm.draggingPiece = some p := by
  rintro s packet ⟨hmove, hdragging⟩ hdown
  obtain ⟨hev, hplay, hturn, hgoing⟩ := hmove.entered packet
  obtain ⟨hdrag, -, hcursor⟩ := entered_frame (Display.mode115 images) (s e).vm packet
  rw [playingMouse_follow (hdrag.trans hdragging)
    (by rw [hcursor, released_updateCursor, hdown]; rfl)] at hev
  obtain ⟨hnone, hself, hnext⟩ := hmove.packet hev hplay hturn hgoing
  refine ⟨hnone, ?_, hnext, ?_⟩
  · rw [hself]
    exact hcursor
  · rw [hself]
    exact hdrag.trans hdragging

/-- **A drag is broken off** outside the board. -/
theorem ToMove.exists_idle (h : ToMove images s e ms) :
    ∃ s', CanMake images s [] s' ∧ ToMove images s' e ms ∧ (s' e).vm.draggingPiece = none := by
  cases hdragging : (s e).vm.draggingPiece with
  | none => exact ⟨s, Leads.refl s, h, hdragging⟩
  | some p =>
    obtain ⟨s₁, packet, hmake₁, ⟨hmove, hdragging₁⟩, hfrom, hpressed, hup, hat⟩ :=
      (roams_dragging e ms p).exists_packet (x := 0) (y := 0) false (by decide) (by decide)
        ⟨h, hdragging⟩
    obtain ⟨hev, hplay, hturn, hgoing⟩ := hmove.entered packet
    obtain ⟨hdrag, -, hcursor⟩ := entered_frame (Display.mode115 images) (s₁ e).vm packet
    set w := LCChess.entered (Display.mode115 images) (s₁ e).vm packet
    have hreleased : w.cursor.released = true := by
      rw [hcursor, released_updateCursor, hpressed, hup]
      rfl
    -- the pixel is in no square of the board
    have hnodrop : ∀ x y, ¬ Drops (Display.mode115 images) (follow w p) p x y := by
      intro x y hdrops
      have hx : getBoardX mode115 w.cursor.x.toNat = x := hdrops.square.1
      have hzero : (w.cursor.x.toNat : ℤ) = 0 := by
        rw [hcursor]
        exact (Cursor.distance_eq_zero.mp hat.pixel).1
      obtain ⟨-, -, -, hcol⟩ := hdrops.onBoard
      rw [← hx, hzero] at hcol
      exact absurd hcol (by decide +kernel)
    rw [playingMouse_release (hdrag.trans hdragging₁) hreleased, release_putBack hnodrop] at hev
    obtain ⟨hnone, hself, hnext⟩ := hmove.packet hev hplay hturn hgoing
    refine ⟨_, hmake₁.trans (.quiet (atHand_mouse hfrom hnone) hnone), hnext, ?_⟩
    rw [hself]

namespace ToMove

/-- The board and the player of the end to move. -/
theorem shows (h : ToMove images s e ms) :
    (table (Display.mode115 images) s e).cells = position ms ∧
      (s e).vm.player = playerOf ms.length := by
  obtain ⟨w, v, hmatch, hv, -⟩ := h.ongoing.session.session.match_of_state (e := e)
    (by simpa [table] using Or.inl h.playing)
  obtain ⟨transmit, hseat⟩ := hv.seat
  obtain ⟨rfl, -, hcells⟩ := hmatch.cells_of_turn (e := e) (by
    rw [hseat]
    simpa [table] using h.turn)
  have hplayer := hmatch.player ms.length
  rw [hseat] at hcells hplayer
  exact ⟨hcells, by simpa [table] using hplayer⟩

/-- The side of the end to move. -/
theorem owns {t : PieceType} (h : ToMove images s e ms) (ht : t.isWhite = (ms.length % 2 == 0)) :
    owns (s e).vm.player t = true := by
  rw [h.shows.2, LCChess.owns, playerOf, ht]
  rcases Nat.mod_two_eq_zero_or_one ms.length with hk | hk <;> rw [hk] <;> rfl

end ToMove

/-- The instance `w` shows the position of the game and no highlight, with the piece `p` in square
`(x, y)`, and a pawn that has not left its home row has no flag. -/
structure Poised (w : Vm) (ms : List (Side × ℤ × ℤ)) (p : PieceRef) (x y : ℤ) : Prop where
  cell : w.board.board (y * 8 + x) = some p
  clean : Clean w.board.memBoard
  position : squares w.board.board w.heap = kinds (position ms)
  type : (w.heap p).type = kind p
  unflagged : (kind p).isPawn = true → y = (kind p).homeRow → (w.heap p).pawnMoved = false

/-- Before a press. -/
theorem ToMove.poised (h : ToMove images s e ms) (hidle : (s e).vm.draggingPiece = none)
    (packet : Packet) {x y : ℤ} (hon : OnBoard x y) {p : PieceRef}
    (hp : position ms (y * 8 + x) = some p) :
    Poised (LCChess.entered (Display.mode115 images) (s e).vm packet) ms p x y := by
  have hcell := isCell_of_onBoard hon
  have hready : (ensureBoard (Display.mode115 images) (s e).vm).Sound :=
    h.ongoing.session.knows.ready e
  have hsound : (LCChess.entered (Display.mode115 images) (s e).vm packet).Sound :=
    sound_entered hready packet
  obtain ⟨-, hboard, -⟩ := entered_frame (Display.mode115 images) (s e).vm packet
  obtain ⟨hheap, -⟩ := entered_game (Display.mode115 images) (s e).vm packet
  have hcells : (LCChess.entered (Display.mode115 images) (s e).vm packet).toSeat.cells =
      position ms := by
    refine Eq.trans ?_ h.shows.1
    simp only [Vm.toSeat, hboard, table, seat]
  have hat : (LCChess.entered (Display.mode115 images) (s e).vm packet).board.board (y * 8 + x) =
      some p := by
    rw [← hp, ← hcells]
    exact (cellsOf_of_isCell hcell).symm
  refine ⟨hat, ?_, ?_, hsound.type_of_cell hcell hat, fun hpawn hrow => ?_⟩
  · rw [hboard]
    exact (h.ongoing.session.knows.guides e).erased ((seat_dragging _ _).trans hidle)
  · rw [hsound.squares_eq, hcells]
  · rw [hheap]
    refine (h.ongoing.home _ p hp hpawn ?_ e).unflagged
    obtain ⟨-, -, hx, hx'⟩ := hon
    omega

/-- The user presses a piece of its own, on the first pixel of its square. -/
theorem ToMove.exists_pressed (h : ToMove images s e ms) (hidle : (s e).vm.draggingPiece = none)
    {x y : ℤ} (hon : OnBoard x y) {p : PieceRef} (hp : position ms (y * 8 + x) = some p)
    (hown : (kind p).isWhite = (ms.length % 2 == 0)) :
    ∃ s' w, CanMake images s [] s' ∧ Ongoing images s' ms ∧ Poised w ms p x y ∧
      Carrying (Display.mode115 images) w (s' e) p x y := by
  obtain ⟨hy, hy', hx, hx'⟩ := id hon
  obtain ⟨s₁, packet, hmake₁, ⟨hmove, hidle₁⟩, hfrom, -, hdown, hat⟩ :=
    (roams_idle e ms).exists_packet (x := 59 * x + 65) (y := 59 * y + 64) true (by omega)
      (by omega) ⟨h, hidle⟩
  obtain ⟨hev, hplay, hturn, hgoing⟩ := hmove.entered packet
  obtain ⟨hdrag, -, hcursor⟩ := entered_frame (Display.mode115 images) (s₁ e).vm packet
  have hplayer := (entered_game (Display.mode115 images) (s₁ e).vm packet).2.2.1
  have hpoised := hmove.poised hidle₁ packet hon hp
  have hcreated : (LCChess.entered (Display.mode115 images) (s₁ e).vm packet).boardCreated = true :=
    boardCreated_entered packet
  generalize LCChess.entered (Display.mode115 images) (s₁ e).vm packet = w at *
  replace hat : w.cursor.At true (59 * x + 65) (59 * y + 64) := hcursor ▸ hat
  have hpress : Presses (Display.mode115 images) w p x y := by
    refine ⟨hat.button, hturn, inSquare_mode115 hon (Cursor.distance_eq_zero.mp hat.pixel), hon,
      hpoised.cell, ?_⟩
    rw [hplayer, hpoised.type]
    exact hmove.owns hown
  have hreleased : w.cursor.released = false := by
    rw [hcursor, released_updateCursor, hdown]
    rfl
  rw [playingMouse_press (hdrag.trans hidle₁) (fun _ => hreleased) hpress] at hev
  obtain ⟨hnone, hself, hnext⟩ := hmove.packet hev hplay hturn hgoing
  refine ⟨_, w, hmake₁.trans (.quiet (atHand_mouse hfrom hnone) hnone), hnext.ongoing, hpoised,
    hnext.ongoing.session.alive e, ?_, ?_⟩
  · rw [hself]
    exact hat.button
  · rw [hself]
    exact .of_press hcreated hplay hgoing hpress

/-- A piece is carried about. -/
theorem roams_carrying (e : Side) (ms : List (Side × ℤ × ℤ)) (w : Vm) (p : PieceRef) (x y : ℤ) :
    Roams images e true fun s =>
      Ongoing images s ms ∧ Carrying (Display.mode115 images) w (s e) p x y := by
  rintro s packet ⟨hongoing, hcarry⟩ hdown
  have hheld : Holding (s e) (.inl (.event 0 (.mouse packet))) := hdown
  obtain ⟨vm', hev, hpressed, hdrag, -⟩ := hcarry.event hheld
  have hnone := accepted_of_turn hev fun _ => hdrag.turn.trans hcarry.dragging.turn.symm
  have hself : System.step (Display.mode115 images) s (e, .event 0 (.mouse packet)) e =
      { s e with vm := vm' } := by
    rw [System.step_handled hcarry.alive hev, Function.update_self]
  refine ⟨hnone, ?_, hongoing.quiet enterOk_mouse hnone, ?_⟩
  · rw [System.step, if_pos rfl]
    exact Instance.cursor_step hcarry.alive hcarry.dragging.playing 0 packet
  · rw [hself]
    exact ⟨hcarry.alive, hpressed, hdrag⟩

/-- A move that the program offers, from the square of the press. -/
theorem Position.Offers.playable {white : Bool} {m : Ply}
    (hoffers : (kinds (position ms)).Offers white m) {w : Vm} {p : PieceRef}
    (h : Poised w ms p m.x m.y) : Playable w p m.x m.y m.x' m.y' := by
  obtain ⟨⟨hon, hon'⟩, -, t, ht, -, hlegal⟩ := hoffers.allowed
  obtain rfl : t = kind p := by
    rw [← h.position, squares_of_onBoard _ _ hon, h.cell, Option.map_some, h.type] at ht
    exact (Option.some.inj ht).symm
  have hking := hoffers.king
  rw [ht] at hking
  refine ⟨hon', ?_, ?_⟩
  · rw [h.position, h.type]
    cases hpawn : (kind p).isPawn with
    | true =>
      refine hlegal.mono fun hmoved => ⟨trivial, fun hrow => ?_⟩
      rw [h.unflagged hpawn hrow] at hmoved
      cases hmoved
    | false =>
      rw [LegalMove, if_neg (by simp [hpawn])] at hlegal ⊢
      exact hlegal
  · rw [h.position, h.type]
    rintro ⟨hpawn, htarget⟩
    exact hking ⟨congrArg some hpawn, htarget⟩

/-- The user releases the piece over the square that it goes to. -/
theorem Ongoing.exists_dropped {w : Vm} {p : PieceRef} {m : Ply} (h : Ongoing images s ms)
    (hcarry : Carrying (Display.mode115 images) w (s e) p m.x m.y)
    (hpoised : Poised w ms p m.x m.y) {white : Bool}
    (hoffers : (kinds (position ms)).Offers white m) :
    ∃ s', CanMake images s [(e, m.y * 8 + m.x, m.y' * 8 + m.x')] s' := by
  obtain ⟨hon, hon'⟩ := hoffers.allowed.onBoard
  obtain ⟨hy, hy', hx, hx'⟩ := id hon'
  obtain ⟨s₁, packet, hmake₁, ⟨-, halive, -, hdrag⟩, hfrom, hpressed, hup, hat⟩ :=
    (roams_carrying e ms w p m.x m.y).exists_packet (x := 59 * m.x' + 65) (y := 59 * m.y' + 64)
      false (by omega) (by omega) ⟨h, hcarry⟩
  have hsquare := inSquare_mode115 hon' (Cursor.distance_eq_zero.mp hat.pixel)
  have hreleased : (updateCursor mode115 packet (s₁ e).vm.cursor).released = true := by
    rw [released_updateCursor, hpressed, hup]
    rfl
  have hdrops := ((hdrag.withCursor (updateCursor mode115 packet
    (s₁ e).vm.cursor)).follow.drops_iff hon hpoised.cell hpoised.clean hsquare).mpr
    (hoffers.playable hpoised)
  have hev : ∃ vm', handleEvent (Display.mode115 images) 0 (.mouse packet) (s₁ e).vm = some vm' ∧
      vm'.myTurn = false := by
    rw [handleEvent_mouse hdrag.playing, ensureBoard_of_created hdrag.created,
      leaveGame_of_endGame (by exact hdrag.endGame),
      playingMouse_release (by exact hdrag.dragging) hreleased]
    exact ⟨_, rfl, congrArg Vm.myTurn (release_move hdrops)⟩
  obtain ⟨vm', hev, hturn⟩ := hev
  have hacc : System.accepted (Display.mode115 images) s₁ (e, .event 0 (.mouse packet)) =
      some (e, m.y * 8 + m.x, m.y' * 8 + m.x') := by
    have hmove := acceptedMove_of_turn hev hdrag.playing hdrag.turn hturn hsquare
    rw [hdrag.inicialCell_eq hon] at hmove
    simp [System.accepted, halive, hmove]
  have hhand : AtHand images s₁ (e, .event 0 (.mouse packet)) := by
    refine ⟨⟨enterOk_mouse, ?_⟩, fun k packet' hact => ?_, id⟩
    · rw [hacc]
      rintro m' hm'
      obtain rfl := Option.some.inj hm'
      exact ⟨hoffers.origin, hoffers.target⟩
    · cases hact
      exact hfrom
  have hmake := CanMake.single hhand
  rw [hacc] at hmake
  exact ⟨_, hmake₁.trans hmake⟩

/-- **The user makes the move** that it wants. -/
theorem ToMove.exists_move (h : ToMove images s e ms) {m : Ply}
    (hoffers : (kinds (position ms)).Offers (ms.length % 2 == 0) m) :
    ∃ s', CanMake images s [(e, m.y * 8 + m.x, m.y' * 8 + m.x')] s' := by
  obtain ⟨⟨hon, -⟩, -, t, ht, hside, -⟩ := hoffers.allowed
  rw [kinds_of_onBoard _ hon] at ht
  obtain ⟨p, hp, rfl⟩ := Option.map_eq_some_iff.mp ht
  obtain ⟨s₁, hmake₁, h₁, hidle⟩ := h.exists_idle
  obtain ⟨s₂, w, hmake₂, h₂, hpoised, hcarry⟩ := h₁.exists_pressed hidle hon hp hside
  obtain ⟨s₃, hmake₃⟩ := h₂.exists_dropped hcarry hpoised hoffers
  exact ⟨s₃, (hmake₁.trans hmake₂).trans hmake₃⟩

/-! ## Games -/

/-- A session goes on with every game that goes on from its position. -/
theorem Ongoing.exists_play (h : Ongoing images s ms) {ks : List Ply}
    (hks : Continues (kinds (position ms)) (ms.length % 2 == 0) ks) :
    ∃ s' os, CanMake images s os s' ∧ os.map ply = ks := by
  induction ks generalizing s ms with
  | nil => exact ⟨s, [], Leads.refl s, rfl⟩
  | cons m ks ih =>
    obtain ⟨hoffers, hrest⟩ := hks
    obtain ⟨s₁, e, hmake₁, hmove⟩ := h.exists_toMove hoffers.allowed.kings
    obtain ⟨s₂, hmake₂⟩ := hmove.exists_move hoffers
    have h₂ := hmove.ongoing.canMake hmake₂
    have hply : ply (e, m.y * 8 + m.x, m.y' * 8 + m.x') = m := by
      obtain ⟨hon, hon'⟩ := hoffers.allowed.onBoard
      simp only [ply, square_of_onBoard hon, square_of_onBoard hon']
    have hafter : kinds (position (ms ++ [(e, m.y * 8 + m.x, m.y' * 8 + m.x')])) =
        (kinds (position ms)).after m := by
      have hgame := h₂.session.session.chess List.prefix_rfl
      rw [List.map_append, List.map_singleton, hply] at hgame
      exact ((h.session.session.chess List.prefix_rfl).allows_last hgame).2
    have hside : ((ms ++ [(e, m.y * 8 + m.x, m.y' * 8 + m.x')]).length % 2 == 0) =
        !(ms.length % 2 == 0) := by
      rw [List.length_append, List.length_singleton, Bool.eq_iff_iff, Bool.not_eq_true',
        beq_iff_eq, beq_eq_false_iff_ne]
      omega
    rw [← hafter, ← hside] at hrest
    obtain ⟨s₃, os, hmake₃, hos⟩ := ih h₂ hrest
    refine ⟨s₃, _, (hmake₁.trans hmake₂).trans hmake₃, ?_⟩
    rw [List.nil_append, List.singleton_append, List.map_cons, hply, hos]

/-- Every session whose moves avoid the first cell. -/
theorem AtStart.ongoing_run (h : AtStart (Display.mode115 images) s)
    (halive : ∀ e, (s e).crashed = false) {acts : List (Side × Action)}
    (hok : Along EnterOk (System.step (Display.mode115 images)) s acts)
    (havoid : ∀ m ∈ moves (Display.mode115 images) s acts, AvoidsFirst m) :
    Ongoing images (run (System.step (Display.mode115 images)) s acts)
      (moves (Display.mode115 images) s acts) := by
  have havoid' := along_outputs.mp havoid
  simp only [Option.mem_toList] at havoid'
  exact run_outputs_invariant_along (Ongoing images) _
    (fun s a ms hs hok => hs.step a hok.1 hok.2) (h.ongoing halive) (hok.and havoid')

/-- **Every game of chess can be played.** From every point of every session, from the start of
the main loops on, the two users can go on with every game that goes on from its position, and that
has no move from or to the first cell and no capture of the black king by a white pawn: there are
events, among them packets that their mice can send, and transfers of the line behind which the
session has made the moves of the game, one by one, and no others. -/
theorem every_game_can_be_played (h : AtStart (Display.mode115 images) s)
    (halive : ∀ e, (s e).crashed = false) {acts : List (Side × Action)}
    (hok : Along EnterOk (System.step (Display.mode115 images)) s acts)
    (havoid : ∀ m ∈ moves (Display.mode115 images) s acts, AvoidsFirst m) {ks : List Ply}
    (hks : Continues (startPosition.afterAll ((moves (Display.mode115 images) s acts).map ply))
      ((moves (Display.mode115 images) s acts).length % 2 == 0) ks) :
    let d := Display.mode115 images
    ∃ acts', Along EnterOk (System.step d) s (acts ++ acts') ∧
      (∀ a ∈ acts', ∀ k packet, a.2 = .event k (.mouse packet) → packet.FromMouse) ∧
      (∀ m ∈ moves d s (acts ++ acts'), AvoidsFirst m) ∧
      (moves d s (acts ++ acts')).map ply = (moves d s acts).map ply ++ ks := by
  intro d
  have hrun := h.ongoing_run halive hok havoid
  have hgame := (hrun.session.session.chess List.prefix_rfl).eq_afterAll
  rw [← hgame] at hks
  obtain ⟨s', os, ⟨acts', hhand, hmoves, -⟩, hos⟩ := hrun.exists_play hks
  have hsession : Along (SessionOk images) (System.step d) (run (System.step d) s acts) acts' :=
    hhand.mono fun _ _ hat => hat.session
  have hall : moves d s (acts ++ acts') = moves d s acts ++ os := by
    rw [moves, outputs_append]
    exact congrArg _ hmoves
  refine ⟨acts', along_append.mpr ⟨hok, hsession.mono fun _ _ hat => hat.1⟩,
    (hhand.mono fun _ _ hat => hat.mouse).forall_mem, ?_, ?_⟩
  · rw [hall, ← hmoves]
    refine List.forall_mem_append.mpr ⟨havoid, along_outputs.mpr ?_⟩
    simpa only [Option.mem_toList] using hsession.mono fun _ _ hat => hat.2
  · rw [hall, List.map_append, hos]

/-- From the start of the main loops two users can play the king's pawns and a knight. -/
theorem every_game_can_be_played_opening :
    let d := Display.mode115 Images.blank
    ∃ acts, Along EnterOk (System.step d) startLobby acts ∧
      (moves d startLobby acts).map ply = [⟨4, 6, 4, 4⟩, ⟨4, 1, 4, 3⟩, ⟨6, 7, 5, 5⟩] := by
  have hwhite : startPosition.Offers true ⟨4, 6, 4, 4⟩ := by
    refine ⟨⟨by decide, ⟨⟨4, 7, rfl⟩, 4, 0, rfl⟩, .wPawn, rfl, rfl, ?_⟩, by decide, by decide,
      by decide⟩
    exact .inr (.inl ⟨rfl, rfl, rfl, rfl, fun hmoved => hmoved.2 rfl⟩)
  have hblack : (startPosition.after ⟨4, 6, 4, 4⟩).Offers false ⟨4, 1, 4, 3⟩ := by
    refine ⟨⟨by decide, ⟨⟨4, 7, rfl⟩, 4, 0, rfl⟩, .bPawn, rfl, rfl, ?_⟩, by decide, by decide,
      by decide⟩
    exact .inr (.inl ⟨rfl, rfl, rfl, rfl, fun hmoved => hmoved.2 rfl⟩)
  have hknight : ((startPosition.after ⟨4, 6, 4, 4⟩).after ⟨4, 1, 4, 3⟩).Offers true
      ⟨6, 7, 5, 5⟩ := by
    refine ⟨⟨by decide, ⟨⟨4, 7, rfl⟩, 4, 0, rfl⟩, .wKnight, rfl, rfl, ?_⟩, by decide, by decide,
      by decide⟩
    exact ⟨show KnightJump 6 7 5 5 by decide, by decide⟩
  have hgame : Continues startPosition true [⟨4, 6, 4, 4⟩, ⟨4, 1, 4, 3⟩, ⟨6, 7, 5, 5⟩] :=
    ⟨hwhite, hblack, hknight, trivial⟩
  obtain ⟨acts, hok, -, -, hmoves⟩ := every_game_can_be_played
    (atStart_startLobby (Display.mode115 Images.blank)) (fun _ => rfl) (along_nil ..)
    (fun m hm => absurd hm List.not_mem_nil) hgame
  exact ⟨acts, hok, hmoves⟩

end Play

end LCChess
