import LCChess.Protocol.Clicks
import LCChess.Protocol.Token

/-!
# A match

Runs of two instances of the program from the start of a game. The invariants of the two seats
hold throughout, whatever the interleaving of events and serial port calls.

## Main definitions

* `NewMatch d w s`: two new games, the side `w` white and to move
* `moves d s acts`: the moves accepted during a run
* `InMatch d w s ms`: the invariant of a match in which the moves `ms` have been made

## Main results

* `NewMatch.run`: the invariant holds after every run
* `turn_token`: the turn is a token, moves alternate, and no byte is lost
* `pieces_unique`: every piece stands in one cell, and none comes back
-/

namespace LCChess

open Transition (run outputs run_outputs_invariant run_append)

/-- The side that makes the move number `k`. -/
def turnOf (w : Side) (k : ℕ) : Side := if k % 2 = 0 then w else w.other

theorem turnOf_succ (w : Side) (k : ℕ) : turnOf w (k + 1) = (turnOf w k).other := by
  unfold turnOf
  rcases Nat.mod_two_eq_zero_or_one k with hk | hk
  · have hk' : (k + 1) % 2 = 1 := by omega
    simp [hk, hk']
  · have hk' : (k + 1) % 2 = 0 := by omega
    simp [hk, hk']

/-- Two instances at the start of a game; `w` plays white and has the turn. -/
structure NewMatch (d : Display) (w : Side) (s : System) : Prop where
  game : ∀ e, NewGame d (s e).vm
  white : (s w).vm.player = .white ∧ (s w).vm.myTurn = true
  black : (s w.other).vm.player = .black ∧ (s w.other).vm.myTurn = false

theorem newMatch_clickMatch (d : Display) : NewMatch d .left clickMatch where
  game e := by
    cases e with
    | left => exact { newGame_initialGame d .white with board := .inl rfl }
    | right => exact { newGame_initialGame d .black with board := .inl rfl }
  white := ⟨rfl, rfl⟩
  black := ⟨rfl, rfl⟩

/-- The invariant of a match in which the moves `ms` have been made. -/
structure InMatch (d : Display) (w : Side) (s : System) (ms : List (Side × ℤ × ℤ)) : Prop where
  inGame : ∀ e, InGame d (s e).vm
  tidy : ∀ e, Tidy (table d s e)
  token : Token (table d s) (turnOf w ms.length)
  alternate : ∀ (k : ℕ) m, ms[k]? = some m → m.1 = turnOf w k
  white : (table d s w).player = .white
  black : (table d s w.other).player = .black

namespace InMatch

variable {d : Display} {w : Side} {s : System} {ms : List (Side × ℤ × ℤ)}

/-- A drag needs the turn. -/
theorem turn_of_dragging (h : InMatch d w s ms) (e : Side) (p : PieceRef)
    (hp : (s e).vm.draggingPiece = some p) : (s e).vm.myTurn = true := by
  simpa [table] using h.token.turn_of_dragging (f := e) (p := p) (by simpa [table] using hp)

/-- Every step is one of the game. -/
theorem refines (h : InMatch d w s ms) (a : Side × Action) :
    (∀ e, InGame d (System.step d s a e).vm) ∧
      Table.Step (table d s) (System.accepted d s a) (table d (System.step d s a)) :=
  System.step_refines h.inGame h.turn_of_dragging a

/-- **Every step keeps the invariant**, with the move it makes. -/
theorem step (h : InMatch d w s ms) (a : Side × Action) :
    InMatch d w (System.step d s a) (ms ++ (System.accepted d s a).toList) := by
  obtain ⟨hgame, hstep⟩ := h.refines a
  have htidy := tidy_step (fun _ => h.token.dragging_of_receive) h.tidy hstep
  have hwhite := (player_step hstep w).trans h.white
  have hblack := (player_step hstep w.other).trans h.black
  obtain ⟨hl, htoken⟩ | ⟨o, n, hl, -, htoken⟩ := token_step h.token h.tidy hstep
  · simpa [hl] using ⟨hgame, htidy, htoken, h.alternate, hwhite, hblack⟩
  · rw [hl, Option.toList_some]
    refine ⟨hgame, htidy, ?_, fun k m hm => ?_, hwhite, hblack⟩
    · rwa [List.length_append, List.length_singleton, turnOf_succ]
    · rcases Nat.lt_or_ge k ms.length with hk | hk
      · rw [List.getElem?_append_left hk] at hm
        exact h.alternate k m hm
      · rw [List.getElem?_append_right hk] at hm
        obtain ⟨hzero, rfl⟩ : k - ms.length = 0 ∧ (turnOf w ms.length, o, n) = m := by
          simpa [List.getElem?_singleton] using hm
        have : k = ms.length := by omega
        rw [this]

end InMatch

namespace NewMatch

variable {d : Display} {w : Side} {s : System} (h : NewMatch d w s)
include h

/-- The start of a match. -/
theorem inMatch : InMatch d w s [] where
  inGame e := ⟨(h.game e).sound, Or.inl (h.game e).playing⟩
  tidy e := (h.game e).tidy
  token := by
    have hw := (h.game w).seat_eq
    have hb := (h.game w.other).seat_eq
    refine Or.inl ⟨?_, ?_, ?_, ?_, ?_⟩
    · simpa [table, turnOf] using h.white.2
    · simpa [table, turnOf] using h.black.2
    · simpa [table, turnOf] using (h.game w.other).dragging
    · simp [incoming, table, turnOf, (h.game w).receive_nil, (h.game w).line_nil,
        (h.game w.other).transmit_nil]
    · simp [incoming, table, turnOf, (h.game w.other).receive_nil, (h.game w.other).line_nil,
        (h.game w).transmit_nil]
  alternate := by simp
  white := by simpa [table] using h.white.1
  black := by simpa [table] using h.black.1

/-- **The invariant of a match holds after every run.** -/
theorem run (acts : List (Side × Action)) :
    InMatch d w (run (System.step d) s acts) (moves d s acts) :=
  run_outputs_invariant (InMatch d w) (fun _ a _ hinv => hinv.step a) h.inMatch acts

end NewMatch

/-! ## The turn token -/

/-- The number of `YOUR_TURN` bytes in the buffers of both ends. -/
def turnBytes (s : System) : ℕ :=
  let bytes (e : Side) : List UInt8 :=
    (s e).vm.transmitQueue.toList ++ (s e).vm.line ++ (s e).vm.receiveQueue.toList
  (bytes .left).count yourTurn + (bytes .right).count yourTurn

theorem turnBytes_eq (d : Display) (s : System) (e : Side) :
    turnBytes s = (incoming (table d s) e).count yourTurn +
      (incoming (table d s) e.other).count yourTurn := by
  cases e <;>
    simp only [turnBytes, incoming, table, Side.other, seat_receive, seat_line, seat_transmit,
      List.count_append] <;> omega

theorem count_drop_message {o n : ℤ} (ho : IsCell o) (hn : IsCell n) {k : ℕ} (hk : k < 4) :
    ((message o n).drop k).count yourTurn = 1 := by
  obtain ⟨-, hoTurn, -⟩ := cellByte_spec ho
  obtain ⟨-, hnTurn, -⟩ := cellByte_spec hn
  have hb : beginMessage ≠ yourTurn := by decide
  interval_cases k <;> simp [message, hoTurn, hnTurn, hb]

/-- Where the token is: the turn of one end, or one `YOUR_TURN` byte in the buffers. -/
theorem InMatch.turnBytes {d : Display} {w : Side} {s : System} {ms : List (Side × ℤ × ℤ)}
    (h : InMatch d w s ms) :
    (∃ e, (s e).vm.myTurn = true ∧ (s e.other).vm.myTurn = false ∧ turnBytes s = 0) ∨
      ((∀ e, (s e).vm.myTurn = false) ∧ turnBytes s = 1) := by
  rcases h.token with hh | hf
  · refine Or.inl ⟨turnOf w ms.length, by simpa [table] using hh.turn,
      by simpa [table] using hh.turn_other, ?_⟩
    rw [turnBytes_eq d s (turnOf w ms.length), hh.quiet, hh.quiet_other]
    rfl
  · refine Or.inr ⟨fun e => by simpa [table] using hf.turn e, ?_⟩
    obtain ⟨o, n, k, ho, hn, hk, hbytes⟩ := hf.bytes
    rw [turnBytes_eq d s (turnOf w ms.length), hf.quiet_other, hbytes, count_drop_message ho hn hk]
    rfl

/-- The player that makes the move number `k`. -/
def playerOf (k : ℕ) : Player := if k % 2 = 0 then .white else .black

/-- The player of the side to move. -/
theorem InMatch.player {d : Display} {w : Side} {s : System} {ms : List (Side × ℤ × ℤ)}
    (h : InMatch d w s ms) (k : ℕ) : (s (turnOf w k)).vm.player = playerOf k := by
  unfold turnOf playerOf
  split
  · simpa [table] using h.white
  · simpa [table] using h.black

/-- An accepted move is announced in full. -/
theorem InMatch.announced {d : Display} {w : Side} {s : System} {ms : List (Side × ℤ × ℤ)}
    (h : InMatch d w s ms) {e : Side} {arrivals : ℕ} {event : Event} {vm' : Vm}
    (hevent : handleEvent d arrivals event (s e).vm = some vm') {m : ℤ × ℤ}
    (hm : acceptedMove d arrivals event (s e).vm = some m) :
    (s e).vm.transmitQueue.toList = [] ∧
      vm'.transmitQueue.toList = message m.1 m.2 := by
  have hplay : (s e).vm.gameState = .playing := by
    by_contra hne
    unfold acceptedMove at hm
    split at hm
    · simp [hne] at hm
    · simp at hm
  obtain ⟨-, l, hseat, hlabel⟩ := handleEvent_refines (h.inGame e).sound hplay hevent
  have hl := acceptedMove_eq hplay (h.turn_of_dragging e) hevent hseat hlabel
  rw [hl] at hm
  subst hm
  obtain ⟨-, p, hp⟩ := hseat.of_some
  have hp' : (table d s e).dragging = some p := hp
  obtain ⟨rfl, hh⟩ := h.token.holds_of_turn (h.token.turn_of_dragging hp')
  obtain ⟨-, htransmit⟩ := List.append_eq_nil_iff.mp hh.quiet_other
  simp only [Side.other_other, table, seat_transmit] at htransmit
  refine ⟨htransmit, ?_⟩
  rw [← seat_transmit d]
  generalize hs' : seat d vm' = s' at hseat
  cases hseat with
  | accept p i =>
    simp only [Seat.accept, Seat.transmit_leave, Seat.inicial_leave, seat_transmit, htransmit]
    exact Seat.foldl_enqueue (by simp [message])

/-- **The turn token.** In every state that two instances reach from the start of a game:
exactly one of the ends has the turn and no `YOUR_TURN` byte is in any buffer, or neither has it
and exactly one byte is; the accepted moves alternate, white first; a piece is dragged only with
the turn; a release finds room for the four bytes of a message, a byte on the line finds room in
the receive queue, and an accepted move adds its whole message to the transmit queue. -/
theorem turn_token {d : Display} {w : Side} {s : System} (h : NewMatch d w s)
    (acts : List (Side × Action)) :
    let s' := Transition.run (System.step d) s acts
    ((∃ e, (s' e).vm.myTurn = true ∧ (s' e.other).vm.myTurn = false ∧ turnBytes s' = 0) ∨
      ((∀ e, (s' e).vm.myTurn = false) ∧ turnBytes s' = 1)) ∧
    (∀ (k : ℕ) m, (moves d s acts)[k]? = some m → (s' m.1).vm.player = playerOf k) ∧
    (∀ e p, (s' e).vm.draggingPiece = some p → (s' e).vm.myTurn = true) ∧
    (∀ e p, (s' e).vm.draggingPiece = some p →
      (s' e).vm.transmitQueue.size + 4 ≤ (s' e).vm.transmitQueue.capacity) ∧
    (∀ e, (s' e).vm.line ≠ [] →
      (s' e).vm.receiveQueue.size < (s' e).vm.receiveQueue.capacity) ∧
    ∀ e arrivals event vm' m, handleEvent d arrivals event (s' e).vm = some vm' →
      acceptedMove d arrivals event (s' e).vm = some m →
      vm'.transmitQueue.toList = (s' e).vm.transmitQueue.toList ++ message m.1 m.2 := by
  intro s'
  have hm : InMatch d w s' (moves d s acts) := h.run acts
  refine ⟨hm.turnBytes, fun k m hk => ?_, hm.turn_of_dragging, fun e p hp => ?_,
    fun e hline => ?_, fun e arrivals event vm' m hevent hmove => ?_⟩
  · rw [hm.alternate k m hk]
    exact hm.player k
  · obtain ⟨rfl, hh⟩ := hm.token.holds_of_turn
      (hm.token.turn_of_dragging (f := e) (p := p) (by simpa [table] using hp))
    obtain ⟨-, htransmit⟩ := List.append_eq_nil_iff.mp hh.quiet_other
    simp only [Side.other_other, table, seat_transmit] at htransmit
    rw [← Queue.length_toList, htransmit, (hm.inGame _).sound.transmit.2]
    decide
  · have hlen := hm.token.length_incoming e
    simp only [incoming, List.length_append, table, seat_receive, seat_line,
      Queue.length_toList] at hlen
    have hpos := List.length_pos_of_ne_nil hline
    rw [(hm.inGame e).sound.receive.2]
    omega
  · obtain ⟨hnil, hmessage⟩ := hm.announced hevent hmove
    rw [hnil, hmessage, List.nil_append]

/-- White presses a piece behind six moves: its drag has the turn and room for the message, and the
moves were those of the two players in turns. -/
theorem turn_token_raid :
    let d := Display.mode115 Images.blank
    let s' := Transition.run (System.step d) clickMatch raidPress
    (s' .left).vm.draggingPiece = some 17 ∧ (s' .left).vm.myTurn = true ∧
      (s' .left).vm.transmitQueue.size + 4 ≤ (s' .left).vm.transmitQueue.capacity ∧
      ∀ (k : ℕ) m, (clickMoves .left raidClicks)[k]? = some m →
        (s' m.1).vm.player = playerOf k := by
  have htoken := turn_token (newMatch_clickMatch (Display.mode115 Images.blank)) raidPress
  obtain ⟨hpressed, -, hmoves⟩ := raidPress_spec
  rw [hmoves] at htoken
  dsimp only
  generalize Transition.run _ clickMatch raidPress = s' at htoken hpressed ⊢
  obtain ⟨-, halternate, hturn, hroom, -⟩ := htoken
  obtain ⟨hdrag, -⟩ := hpressed
  exact ⟨hdrag, hturn .left 17 hdrag, hroom .left 17 hdrag, halternate⟩

/-! ## The pieces -/

/-- A piece stands on the board of an instance. -/
def onBoard (d : Display) (vm : Vm) (p : PieceRef) : Prop :=
  ∃ i, IsCell i ∧ (ensureBoard d vm).board.board i = some p

theorem onBoard_iff {d : Display} {vm : Vm} {p : PieceRef} :
    onBoard d vm p ↔ ∃ i, (seat d vm).cells i = some p := by
  refine exists_congr fun i => ?_
  by_cases hi : IsCell i
  · simp [hi, seat, Vm.toSeat]
  · simp [hi, seat, Vm.toSeat, cellsOf]

/-- A piece on a board at the end of a run was there at its start. -/
theorem InMatch.onBoard_run {d : Display} {w : Side} {s : System} {ms : List (Side × ℤ × ℤ)}
    (h : InMatch d w s ms) {e : Side} {p : PieceRef} (acts : List (Side × Action))
    (hp : onBoard d (Transition.run (System.step d) s acts e).vm p) : onBoard d (s e).vm p := by
  induction acts generalizing s ms with
  | nil => exact hp
  | cons a acts ih =>
    obtain ⟨j, hj⟩ := onBoard_iff.mp (ih (h.step a) hp)
    exact onBoard_iff.mpr (onBoard_step h.tidy (h.refines a).2 hj)

/-- **Every piece stands in one cell.** In every state that two instances reach from the start of
a game, on the board of either end: no piece occupies two cells, every piece is one of the 32 of
`initBoard`, the dragged piece stands in the cell it was pressed on, and a piece that is not on
the board is never on it again. -/
theorem pieces_unique {d : Display} {w : Side} {s : System} (h : NewMatch d w s)
    (acts : List (Side × Action)) (e : Side) :
    let vm := (Transition.run (System.step d) s acts e).vm
    let cells := (ensureBoard d vm).board.board
    (∀ i j p, IsCell i → IsCell j → cells i = some p → cells j = some p → i = j) ∧
    (∀ i p, IsCell i → cells i = some p → p < initialPieces.length) ∧
    (∀ p, vm.draggingPiece = some p → OnBoard vm.inicialPieceCol vm.inicialPieceRow ∧
      cells (getPosition vm.inicialPieceCol vm.inicialPieceRow) = some p) ∧
    ∀ p, ¬ onBoard d vm p → ∀ acts',
      ¬ onBoard d (Transition.run (System.step d) s (acts ++ acts') e).vm p := by
  intro vm cells
  have hm : InMatch d w _ (moves d s acts) := h.run acts
  obtain ⟨hunique, hdrag⟩ := hm.tidy e
  have hcells : ∀ i, IsCell i → (seat d vm).cells i = cells i := fun i hi => cellsOf_of_isCell hi
  have hsound : (ensureBoard d vm).Sound := (hm.inGame e).sound
  refine ⟨fun i j p hi hj hip hjp => ?_, hsound.piece_lt, fun p hp => ?_, fun p hp acts' => ?_⟩
  · exact hunique i j p ((hcells i hi).trans hip) ((hcells j hj).trans hjp)
  · obtain ⟨board, heap, redraw, hframe⟩ := ensureBoard_frame d vm
    have hinicial := hsound.drag p (by rw [hframe]; exact hp)
    rw [hframe] at hinicial
    obtain ⟨-, hcol, hrow⟩ := hinicial
    simp only at hcol hrow
    obtain ⟨hcell, hpos⟩ := hdrag p (by simpa [table] using hp)
    have heq : inicialCell vm = getPosition vm.inicialPieceCol vm.inicialPieceRow := by
      unfold inicialCell getPosition
      omega
    refine ⟨⟨by omega, by omega, by omega, by omega⟩, ?_⟩
    have hpos' : (seat d vm).cells (inicialCell vm) = some p := by simpa [table] using hpos
    have hcell' : IsCell (inicialCell vm) := by simpa [table] using hcell
    rw [← heq, ← hcells _ hcell', hpos']
  · rw [run_append]
    exact fun hp' => hp (hm.onBoard_run acts' hp')

/-- Behind six moves, the knight that white presses stands in its cell, and the pawn that it has
taken is never on the board again. -/
theorem pieces_unique_raid :
    let d := Display.mode115 Images.blank
    let s' := Transition.run (System.step d) clickMatch raidPress
    (ensureBoard d (s' .left).vm).board.board (getPosition 2 1) = some 17 ∧
      ∀ acts', ¬ onBoard d (Transition.run (System.step d) clickMatch (raidPress ++ acts')
        .left).vm 10 := by
  have hunique := pieces_unique (newMatch_clickMatch (Display.mode115 Images.blank)) raidPress .left
  obtain ⟨hpressed, htaken, -⟩ := raidPress_spec
  dsimp only at hunique ⊢
  generalize Transition.run _ clickMatch raidPress = s' at hunique hpressed htaken ⊢
  obtain ⟨hdrag, hcol, hrow⟩ := hpressed
  obtain ⟨-, -, hdragged, hgone⟩ := hunique
  obtain ⟨-, hcell⟩ := hdragged 17 hdrag
  have hpos : getPosition (2 : ℕ) (1 : ℕ) = getPosition 2 1 := rfl
  rw [hcol, hrow, hpos] at hcell
  refine ⟨hcell, hgone 10 ?_⟩
  rintro ⟨i, hi, hcell⟩
  exact htaken i hi hcell

end LCChess
