import LCChess.Protocol.EveryGame

/-!
# The games that can be played

With the animation on, the games that two users can play are the games of chess, but for the moves
from or to the first cell, which they have to avoid, and for the capture of the black king by a
white pawn: the program does not highlight it, so no drag ends with it.

## Main definitions

* `SparesKing images vm`: the black king is not highlighted for a white pawn

## Main results

* `Played.step`: every accepted move is one that the program offers
* `games_of_chess`: the games that can be played
-/

namespace LCChess

open Transition (Along along_nil along_outputs run_outputs_invariant_along)

/-! ## The black king and the white pawns -/

/-- The black king is not highlighted for the piece that is dragged, if it is a white pawn. -/
def SparesKing (images : Images) (vm : Vm) : Prop :=
  ∀ p, vm.draggingPiece = some p → kind p = .wPawn → ∀ x y, OnBoard x y →
    kinds (seat (Display.mode115 images) vm).cells x y = some .bKing →
    isOrange mode115 (ensureBoard (Display.mode115 images) vm).board.memBoard x y = false

section Spares

variable {images : Images} {vm vm' : Vm}

theorem sparesKing_of_idle (hidle : vm.draggingPiece = none) : SparesKing images vm := by
  intro p hp
  rw [hidle] at hp
  cases hp

/-- A press leaves out the black king. -/
theorem sparesKing_press {w : Vm} (hsound : w.Sound) (hclean : Clean w.board.memBoard)
    {p : PieceRef} {x y : ℤ} (hpress : Presses (Display.mode115 images) w p x y) :
    SparesKing images (press (Display.mode115 images) w p x y) := by
  have hcell := isCell_of_onBoard hpress.onBoard
  obtain ⟨hsound', hseat⟩ := sound_press (d := Display.mode115 images) hsound
    (hsound.piece_lt _ p hcell hpress.cell) hpress.onBoard
  intro q hq hpawn a b hab hking
  obtain rfl : p = q := Option.some.inj hq
  rw [seat, ensureBoard_of_created hsound'.created, hseat] at hking
  rw [ensureBoard_of_created hsound'.created, ← Bool.not_eq_true]
  intro horange
  have hlands : Lands (kinds w.toSeat.cells) (kind p) a b := by
    intro t ht
    obtain rfl := Option.some.inj (hking.symm.trans ht)
    rw [hpawn]
    decide
  exact ((marks_press hsound hclean hpress hab).mp ⟨horange, hlands⟩).2 ⟨hpawn, hking⟩

/-- **Every event of a game spares the black king.** -/
theorem sparesKing_event {strict : Prop} (h : SparesKing images vm)
    (hguides : Guides images strict vm) (hgame : InGame (Display.mode115 images) vm)
    (hquiet : ∀ p, vm.draggingPiece = some p → vm.receiveQueue.toList = []) {arrivals : ℕ}
    {event : Event} (hev : handleEvent (Display.mode115 images) arrivals event vm = some vm') :
    SparesKing images vm' := by
  cases markStep_event hgame.state hev with
  | keep _ hdrag hmem =>
    intro p hp
    rw [(held_event hgame hquiet hev hdrag hp).1, hmem]
    exact h p (hdrag.symm.trans hp)
  | @press arrivals packet p x y hidle hpress =>
    have hready : (ensureBoard (Display.mode115 images) vm).Sound := hgame.sound
    refine sparesKing_press (sound_entered hready packet) ?_ hpress
    rw [(entered_frame (Display.mode115 images) vm packet).2.1]
    exact hguides.erased ((seat_dragging _ _).trans hidle)
  | repaint _ m hnone => exact sparesKing_of_idle hnone

/-- The buffers of the serial port are no part of the board. -/
theorem sparesKing_buffered (h : SparesKing images vm) (hready : Ready (Display.mode115 images) vm)
    (hbuffered : vm.Buffered vm') : SparesKing images vm' := by
  obtain ⟨-, transmit, receive, line, hseat⟩ := hready.buffered hbuffered
  rw [SparesKing, hbuffered.sameGame.ensureBoard.1, hbuffered.sameGame.dragging, hseat]
  exact h

end Spares

namespace InSession

variable {images : Images} {strict : Prop} {s : System} {ms : List (Side × ℤ × ℤ)}
  (h : InSession images strict s ms)
include h

/-- Every step of a session spares the black king. -/
theorem sparesKing_step (hspares : ∀ e, SparesKing images (s e).vm) (a : Side × Action)
    (e : Side) : SparesKing images (System.step (Display.mode115 images) s a e).vm := by
  rcases System.step_event_or_buffered (Display.mode115 images) s a e with
    ⟨k, event, vm', rfl, -, hev, heq⟩ | hbuffered
  · rw [heq]
    by_cases hgame : (s e).vm.gameState = .playing ∨ (s e).vm.gameState = .exit
    · obtain ⟨w, v, hmatch, hv, -⟩ := h.session.match_of_state (e := e)
        (by simpa [table] using hgame)
      exact sparesKing_event (hspares e) (h.knows.guides e) ⟨h.knows.ready e, hgame⟩
        (fun p hp => (hmatch.dragging hv hp).2) hev
    · -- nothing is dragged in the menus
      obtain ⟨hplay, hexit⟩ := not_or.mp hgame
      obtain ⟨vm'', hev', hkeeps⟩ := handleEvent_keepsGame (Display.mode115 images) k event hplay
      obtain rfl := Option.some.inj (hev.symm.trans hev')
      refine sparesKing_of_idle (hkeeps.dragging.trans ?_)
      simpa [table] using h.lobby.menu e (by simpa [table] using hplay)
        (by simpa [table] using hexit)
  · exact sparesKing_buffered (hspares e) (h.knows.ready e) hbuffered

/-- **No white pawn takes the black king.** -/
theorem spares_king (hspares : ∀ e, SparesKing images (s e).vm) {a : Side × Action}
    {m : Side × ℤ × ℤ} (hm : System.accepted (Display.mode115 images) s a = some m) :
    ¬ (kinds (position ms) (ply m).x (ply m).y = some .wPawn ∧
      kinds (position ms) (ply m).x' (ply m).y' = some .bKing) := by
  obtain ⟨-, hcells, w, v, v', hmatch, hv, hs, hlegal⟩ := h.accepted_move hm
  obtain ⟨f, o, n⟩ := m
  obtain ⟨-, k, event, rfl, hacc⟩ := System.accepted_eq_some hm
  obtain ⟨-, -, -, ho, -, q, hq, hdragged, -, -⟩ := hmatch.accepted_legal hs hlegal
  obtain ⟨packet, p, x, y, hdragging, -, rfl, hdrops, -⟩ := drops_of_acceptedMove hacc
  -- the dragged piece is the one in the origin
  obtain ⟨transmit, hseat⟩ := hv.seat
  rw [hseat] at hdragged
  obtain rfl : p = q := by simpa [table, hdragging] using hdragged
  have hxy := square_of_onBoard hdrops.onBoard
  rintro ⟨hpawn, hking⟩
  simp only [ply, hxy.1, hxy.2, kinds_of_isCell _ ho, hq, Option.map_some,
    Option.some.injEq] at hpawn hking
  rw [← hcells] at hking
  have hgray := hspares f p hdragging hpawn x y hdrops.onBoard hking
  exact absurd ((orange_of_drops hdrops).symm.trans hgray) (by decide)

end InSession

/-! ## The games -/

/-- The moves of a game go on with one more. -/
theorem Continues.concat {pos : Position} {white : Bool} {ks : List Ply} {m : Ply}
    (h : Continues pos white ks)
    (hm : (pos.afterAll ks).Offers (white == (ks.length % 2 == 0)) m) :
    Continues pos white (ks ++ [m]) := by
  induction ks generalizing pos white with
  | nil => exact ⟨by simpa [Position.afterAll] using hm, trivial⟩
  | cons k ks ih =>
    refine ⟨h.1, ih h.2 ?_⟩
    have hside : ((!white) == (ks.length % 2 == 0)) = (white == ((k :: ks).length % 2 == 0)) := by
      rw [List.length_cons]
      rcases Nat.mod_two_eq_zero_or_one ks.length with hk | hk
      · rw [hk, show (ks.length + 1) % 2 = 1 by omega]
        cases white <;> rfl
      · rw [hk, show (ks.length + 1) % 2 = 0 by omega]
        cases white <;> rfl
    rw [hside]
    exact hm

/-- A session in which the moves `ms` have been made, all of which the program offers. -/
structure Played (images : Images) (s : System) (ms : List (Side × ℤ × ℤ)) : Prop where
  session : InSession images True s ms
  spares : ∀ e, SparesKing images (s e).vm
  offered : Continues startPosition true (ms.map ply)

section Games

variable {images : Images} {s : System} {ms : List (Side × ℤ × ℤ)}

/-- **Every accepted move is one that the program offers**, as long as the animation stays on and
the first cell is avoided. -/
theorem Played.step (h : Played images s ms) (a : Side × Action) (hok : EnterOk s a)
    (hkey : ¬ Switches s a)
    (havoid : ∀ m, System.accepted (Display.mode115 images) s a = some m → AvoidsFirst m) :
    Played images (System.step (Display.mode115 images) s a)
      (ms ++ (System.accepted (Display.mode115 images) s a).toList) := by
  have hnext := h.session.step a hok (fun _ => hkey) havoid
  refine ⟨hnext, h.session.sparesKing_step h.spares a, ?_⟩
  cases hm : System.accepted (Display.mode115 images) s a with
  | none =>
    rw [Option.toList_none, List.append_nil]
    exact h.offered
  | some m =>
    have hgame := h.session.session.chess List.prefix_rfl
    have hgame' := hnext.session.chess List.prefix_rfl
    rw [hm, Option.toList_some, List.map_append, List.map_singleton] at hgame'
    rw [Option.toList_some, List.map_append, List.map_singleton]
    obtain ⟨hallows, -⟩ := hgame.allows_last hgame'
    obtain ⟨horigin, htarget⟩ := havoid m hm
    refine h.offered.concat ?_
    rw [← hgame.eq_afterAll, Bool.true_beq]
    refine ⟨hallows, ?_, ?_, h.session.spares_king h.spares hm⟩
    · simp only [ply]
      omega
    · simp only [ply]
      omega

/-- Two instances at their start have played nothing. -/
theorem AtStart.played (h : AtStart (Display.mode115 images) s)
    (halive : ∀ e, (s e).crashed = false) (hon : ∀ e, (s e).vm.animation = true) :
    Played images s [] where
  session := h.inSession halive fun _ => hon
  spares e := sparesKing_of_idle (h.fresh e).dragging
  offered := trivial

/-- **The games that can be played.** Two users that leave the animation on and avoid the first
cell can play exactly the games of chess in which no white pawn takes the black king and no move
starts or ends in the first cell. -/
theorem games_of_chess (h : AtStart (Display.mode115 images) s)
    (halive : ∀ e, (s e).crashed = false) (hon : ∀ e, (s e).vm.animation = true)
    (ks : List Ply) :
    let d := Display.mode115 images
    (∃ acts, Along (fun s a => EnterOk s a ∧ ¬ Switches s a) (System.step d) s acts ∧
      (∀ m ∈ moves d s acts, AvoidsFirst m) ∧ (moves d s acts).map ply = ks) ↔
    Continues startPosition true ks := by
  intro d
  constructor
  · rintro ⟨acts, hok, havoid, rfl⟩
    have havoid' := along_outputs.mp havoid
    simp only [Option.mem_toList] at havoid'
    have hplayed := run_outputs_invariant_along (Played images) _
      (fun s a ms hs hok => hs.step a hok.1.1 hok.1.2 hok.2) (h.played halive hon)
      (hok.and havoid')
    exact hplayed.offered
  · intro hks
    rw [← kinds_position_nil] at hks
    obtain ⟨s', os, ⟨acts, hhand, hmoves, -⟩, hos⟩ := (h.ongoing halive).exists_play hks
    refine ⟨acts, hhand.mono fun _ _ hat => ⟨hat.session.1, fun hkey => hat.steady hkey.2⟩,
      along_outputs.mpr ?_, ?_⟩
    · simpa only [Option.mem_toList] using hhand.mono fun _ _ hat => hat.session.2
    · rw [moves, hmoves, hos]

/-- No pawn of a new game goes three squares. -/
theorem games_of_chess_pawn :
    ¬ ∃ acts, Along (fun s a => EnterOk s a ∧ ¬ Switches s a)
        (System.step (Display.mode115 Images.blank)) startLobby acts ∧
      (∀ m ∈ moves (Display.mode115 Images.blank) startLobby acts, AvoidsFirst m) ∧
      (moves (Display.mode115 Images.blank) startLobby acts).map ply = [⟨4, 6, 4, 3⟩] := by
  intro hplayed
  obtain ⟨⟨⟨-, -, t, ht, -, hlegal⟩, -⟩, -⟩ := (games_of_chess
    (atStart_startLobby (Display.mode115 Images.blank)) (fun _ => rfl) (fun _ => rfl) _).mp hplayed
  obtain rfl : .wPawn = t := Option.some.inj ht
  exact absurd (hlegal.forward rfl) (by decide)

end Games

end LCChess
