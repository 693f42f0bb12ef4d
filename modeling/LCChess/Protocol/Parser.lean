import LCChess.Protocol.Table

/-!
# Arbitrary bytes

What an instance in a game does with the bytes on its line, whoever sent them: one byte is polled
at a frame and parsed, and a second position byte makes a move on the board. A byte that is fed
to an instance with empty buffers is parsed at once.

## Main definitions

* `polledByte s i`: the byte that `readFromQueue` hands to `playing_ih`
* `appliedMove s i`: the move that is applied to the board
* `feed b`: a byte arrives, is read from the UART, and is polled
* `Listening d s r`: an instance with empty buffers, which shows the seat `r`

## Main results

* `stepInput_polled`: a polled byte is parsed
* `Listening.run_feeds`: the fed bytes are parsed one after the other
-/

namespace LCChess

open Transition (run outputs)

/-- A byte that is parsed as a position. -/
def IsPosition (b : UInt8) : Prop := b ≠ beginMessage ∧ b ≠ yourTurn ∧ b ≠ 0

instance (b : UInt8) : Decidable (IsPosition b) := by unfold IsPosition; infer_instance

/-- The byte that `readFromQueue` hands to `playing_ih` at an input. -/
def polledByte (s : Instance) (i : Action ⊕ UInt8) : Option UInt8 :=
  match i with
  | .inl (.event _ .newFrame) =>
    if s.crashed = false ∧ s.vm.gameState = .playing then
      some (readFromQueue s.vm.receiveQueue).1
    else none
  | _ => none

/-- The cell the next received move starts from. -/
def originCell (vm : Vm) : ℤ := moveCell vm.move.oldRow vm.move.oldCol

/-- The move that an input makes `playing_ih` apply: origin and destination. -/
def appliedMove (s : Instance) (i : Action ⊕ UInt8) : Option (ℤ × ℤ) :=
  match polledByte s i with
  | some b =>
    if IsPosition b ∧ s.vm.byteOfMove ≠ 0 then some (originCell s.vm, byteCell b) else none
  | none => none

/-- The parser reads the first byte of the queue, or `0`. -/
theorem Seat.poll_eq (s : Seat) :
    s.poll = ({ s with receive := s.receive.tail } : Seat).parse (s.receive.headD 0) := by
  unfold Seat.poll
  cases hr : s.receive with
  | nil =>
    -- an empty queue hands out `0`, which the parser ignores
    have hs : ({ s with receive := [] } : Seat) = s := by rw [← hr]
    rw [List.tail_nil, List.headD_nil, hs, Seat.parse_zero]
  | cons b rest => rfl

/-- The origin of the next move is a cell. -/
theorem InGame.isCell_originCell {d : Display} {vm : Vm} (h : InGame d vm) :
    IsCell (originCell vm) := by
  have := h.sound.origin
  obtain ⟨board, heap, redraw, hframe⟩ := ensureBoard_frame d vm
  rwa [hframe] at this

section Step

variable {d : Display} {s : Instance} (h : InGame d s.vm)
include h

/-- Every input keeps an instance in the game. -/
theorem inGame_stepInput (i : Action ⊕ UInt8) : InGame d (s.stepInput d i).vm := by
  have hready : Ready d s.vm := h.sound
  rcases s.stepInput_cases d i with ⟨arrivals, event, vm', -, -, hev, hstep⟩ | hbuffered
  · rw [hstep]
    rcases h.state with hplay | hexit
    · obtain ⟨hsound, l, hevent, -⟩ := handleEvent_refines h.sound hplay hev
      have hstate := hevent.gameState (by simp [hplay])
      rw [seat_gameState] at hstate
      exact ⟨by rwa [Ready, ensureBoard_of_created hsound.created], hstate⟩
    · obtain ⟨hready', hseat, -⟩ := handleEvent_exit hready hexit hev
      refine ⟨hready', .inr ?_⟩
      rw [← seat_gameState d, hseat, seat_gameState, hexit]
  · refine ⟨(hready.buffered hbuffered).1, ?_⟩
    obtain ⟨transmit, receive, line, hstep, -, -⟩ := hbuffered
    rw [hstep]
    exact h.state

/-- A polled byte is parsed: the instance goes on, or crashes without a piece in the origin. -/
theorem stepInput_polled {i : Action ⊕ UInt8} {b : UInt8} (hb : polledByte s i = some b) :
    ∃ q : Seat, (q.cells = (seat d s.vm).cells ∧ q.byteOfMove = s.vm.byteOfMove ∧
        q.origin = originCell s.vm) ∧
      (q.dragging = s.vm.draggingPiece ∧ q.myTurn = s.vm.myTurn) ∧
      ((q.parse b = none ∧ (s.stepInput d i).crashed = true) ∨
        ∃ q', q.parse b = some q' ∧ (s.stepInput d i).crashed = false ∧
          seat d (s.stepInput d i).vm = q') := by
  -- a byte is polled by a frame of the game only
  obtain ⟨arrivals, rfl, halive, hplay⟩ : ∃ arrivals, i = .inl (.event arrivals .newFrame) ∧
      s.crashed = false ∧ s.vm.gameState = .playing := by
    unfold polledByte at hb
    split at hb
    · split at hb
      · rename_i hcond
        exact ⟨_, rfl, hcond⟩
      · simp at hb
    · simp at hb
  have hbyte : (seat d s.vm).receive.headD 0 = b := by
    rw [seat_receive, ← readFromQueue_fst h.sound.receive.1]
    simpa [polledByte, halive, hplay] using hb
  -- the winner leaves, and the byte is taken from the queue
  refine ⟨{ (seat d s.vm).leave with receive := (seat d s.vm).receive.tail },
    ⟨Seat.cells_leave _, (Seat.byteOfMove_leave _).trans (seat_byteOfMove d s.vm),
      (Seat.origin_leave _).trans (seat_origin d s.vm)⟩,
    ⟨(Seat.dragging_leave _).trans (seat_dragging d s.vm),
      (Seat.myTurn_leave _).trans (seat_myTurn d s.vm)⟩, ?_⟩
  have hpoll := (handleEvent_newFrame h.sound hplay arrivals).1
  rw [Seat.poll_eq, Seat.receive_leave, hbyte] at hpoll
  rw [← hpoll, Instance.stepInput, Instance.step_of_alive halive]
  cases hev : handleEvent d arrivals .newFrame s.vm with
  | none => exact Or.inl ⟨rfl, by simp [hev]⟩
  | some vm' => exact Or.inr ⟨seat d vm', rfl, by simp [hev, halive], by simp [hev]⟩

/-- An event that polls no byte does not crash. -/
theorem handleEvent_isSome_of_unpolled {arrivals : ℕ} {event : Event} (halive : s.crashed = false)
    (hb : polledByte s (.inl (.event arrivals event)) = none) :
    (handleEvent d arrivals event s.vm).isSome = true := by
  cases event with
  | newFrame =>
    have hexit : s.vm.gameState = .exit := h.state.resolve_left fun hplay => by
      simp [polledByte, halive, hplay] at hb
    rw [handleEvent_over hexit, Option.isSome_some]
  | keyboard scanCode =>
    rcases h.state with hplay | hexit
    · rw [handleEvent_keyboard hplay, Option.isSome_some]
    · rw [handleEvent_over hexit, Option.isSome_some]
  | mouse packet =>
    rcases h.state with hplay | hexit
    · rw [handleEvent_mouse hplay, Option.isSome_some]
    · rw [handleEvent_over hexit, Option.isSome_some]

/-- An applied move between two different cells leaves its piece in the destination. -/
theorem appliedMove_stands {i : Action ⊕ UInt8} {o n : ℤ} (hmove : appliedMove s i = some (o, n))
    (hne : o ≠ n) {p : PieceRef} (hp : (ensureBoard d s.vm).board.board o = some p) :
    (ensureBoard d (s.stepInput d i).vm).board.board n = some p := by
  unfold appliedMove at hmove
  split at hmove
  · rename_i b hb
    split at hmove
    · rename_i hcond
      obtain ⟨rfl, rfl⟩ := Prod.mk.inj (Option.some.inj hmove)
      obtain ⟨q, ⟨hcells, hbyte, horigin⟩, -, hcases⟩ := stepInput_polled h hb
      obtain ⟨⟨hbegin, hturn, hzero⟩, hmoves⟩ := hcond
      have hmoves' : q.byteOfMove ≠ 0 := hbyte ▸ hmoves
      have hcell : q.cells q.origin = some p := by
        rw [hcells, horigin, ← hp]
        exact cellsOf_of_isCell h.isCell_originCell
      have hparse : q.parse b = q.receiveMove (byteCell b) := by
        simp only [Seat.parse, hbegin, hturn, hzero, hmoves', if_false]
      obtain ⟨hnone, -⟩ | ⟨q', hq', -, hseat⟩ := hcases
      · simp [hparse, Seat.receiveMove, hcell] at hnone
      · rw [hparse] at hq'
        obtain ⟨p', hp', rfl⟩ := Seat.receiveMove_cases hq'
        obtain rfl : p' = p := Option.some.inj (hp'.symm.trans hcell)
        -- the origin is emptied after the destination is written, so the two have to differ
        have hdest : (seat d (s.stepInput d i).vm).cells (byteCell b) = some p' := by
          rw [hseat, horigin]
          simp [Seat.moveTo, Function.update_of_ne (Ne.symm hne)]
        rw [← hdest]
        exact (cellsOf_of_isCell (isCell_byteCell b)).symm
    · simp at hmove
  · simp at hmove

end Step

/-! ## Runs on arbitrary bytes -/

/-- The answers of `readFromQueue` during a run. -/
def polledBytes (d : Display) (s : Instance) (inputs : List (Action ⊕ UInt8)) : List UInt8 :=
  outputs (fun s i => (polledByte s i).toList) (Instance.stepInput d) s inputs

/-- The moves applied during a run. -/
def appliedMoves (d : Display) (s : Instance) (inputs : List (Action ⊕ UInt8)) : List (ℤ × ℤ) :=
  outputs (fun s i => (appliedMove s i).toList) (Instance.stepInput d) s inputs

/-- A byte arrives, is read from the UART, and is polled at the next frame. -/
def feed (b : UInt8) : List (Action ⊕ UInt8) :=
  [.inr b, .inl (.spRead true), .inl (.event 0 .newFrame)]

/-- An instance in the game that shows the seat `r`, where no byte is left to be read. -/
structure Listening (d : Display) (s : Instance) (r : Seat) : Prop where
  inGame : InGame d s.vm
  alive : s.crashed = false
  shows : seat d s.vm = r
  playing : r.gameState = .playing
  receive : r.receive = []
  line : r.line = []
  endGame : r.endGame = false

/-- A byte arrives on an empty line, and is read from the UART. -/
theorem Instance.stepInput_received {d : Display} {s : Instance} (halive : s.crashed = false)
    (hexit : s.vm.gameState ≠ .exit) (hline : s.vm.line = []) (b : UInt8) :
    (s.stepInput d (.inr b)).stepInput d (.inl (.spRead true)) = { s with vm := { s.vm with
      line := [], receiveQueue := addToQueue s.vm.receiveQueue b } } := by
  have hexit' : (s.stepInput d (.inr b)).vm.gameState ≠ .exit := hexit
  have halive' : (s.stepInput d (.inr b)).crashed = false := halive
  rw [Instance.stepInput, Instance.step_of_alive halive']
  simp only [hexit', if_false]
  simp [Instance.stepInput, Instance.receive, hline, readLine]

/-- A frame on a game where the byte `b` is the next one to read. -/
theorem handleEvent_frame_byte {d : Display} {vm : Vm} (hplay : vm.gameState = .playing)
    (hcreated : vm.boardCreated = true) (hgoing : vm.endGame = false) {b : UInt8} {queue : Queue}
    (hread : readFromQueue vm.receiveQueue = (b, queue)) (arrivals : ℕ) :
    handleEvent d arrivals .newFrame vm = (parseByte d b { playingFrame d vm with
      receiveQueue := queue }).map (presentFrame d) := by
  have hqueue : readFromQueue (playingFrame d vm).receiveQueue = (b, queue) := hread
  rw [handleEvent_frame hplay, ensureBoard_of_created hcreated, leaveGame_of_endGame hgoing,
    receiveByte, hqueue]

/-- The turn comes back on an empty line. -/
theorem run_feed_yourTurn {d : Display} {s : Instance} (halive : s.crashed = false)
    (hplay : s.vm.gameState = .playing) (hcreated : s.vm.boardCreated = true)
    (hgoing : s.vm.endGame = false)
    (hqueue : s.vm.receiveQueue.WellFormed ∧ s.vm.receiveQueue.capacity = 10)
    (hempty : s.vm.receiveQueue.toList = []) (hline : s.vm.line = []) :
    ∃ w queue, w = { s.vm with line := [], receiveQueue := addToQueue s.vm.receiveQueue yourTurn } ∧
      (s.stepInput d (.inr yourTurn)).stepInput d (.inl (.spRead true)) = { s with vm := w } ∧
      readFromQueue w.receiveQueue = (yourTurn, queue) ∧ queue.toList = [] ∧
      run (Instance.stepInput d) s (feed yourTurn) = { s with
        vm := presentFrame d { playingFrame d w with receiveQueue := queue, myTurn := true } } := by
  have hlist : (addToQueue s.vm.receiveQueue yourTurn).toList = [yourTurn] := by
    rw [toList_addToQueue hqueue, hempty]
    rfl
  obtain ⟨hbyte, hrest⟩ := readFromQueue_of_cons (hqueue.1.addToQueue yourTurn) hlist
  have hreceived := Instance.stepInput_received (d := d) halive (by simp [hplay]) hline yourTurn
  have hrun : run (Instance.stepInput d) s (feed yourTurn) =
      ((s.stepInput d (.inr yourTurn)).stepInput d (.inl (.spRead true))).stepInput d
        (.inl (.event 0 .newFrame)) := rfl
  refine ⟨_, (readFromQueue (addToQueue s.vm.receiveQueue yourTurn)).2, rfl, hreceived,
    Prod.ext hbyte rfl, hrest, ?_⟩
  rw [hrun, hreceived]
  generalize hw : ({ s.vm with
    line := [], receiveQueue := addToQueue s.vm.receiveQueue yourTurn } : Vm) = w
  have hread : readFromQueue w.receiveQueue =
      (yourTurn, (readFromQueue (addToQueue s.vm.receiveQueue yourTurn)).2) := by
    rw [← hw]
    exact Prod.ext hbyte rfl
  have hframe := @handleEvent_frame_byte d w (by rw [← hw]; exact hplay)
    (by rw [← hw]; exact hcreated) (by rw [← hw]; exact hgoing) _ _ hread 0
  have hparse : ∀ w : Vm, parseByte d yourTurn w = some { w with myTurn := true } := by
    intro w
    simp [parseByte, beginMessage, yourTurn]
  rw [hparse, Option.map_some] at hframe
  exact Instance.step_event (s := { s with vm := w }) halive hframe

/-- The byte has arrived, and is read from the UART. -/
theorem Listening.queued {d : Display} {s : Instance} {r : Seat} (h : Listening d s r)
    (b : UInt8) : ∃ s', (s.stepInput d (.inr b)).stepInput d (.inl (.spRead true)) = s' ∧
      InGame d s'.vm ∧ s'.crashed = false ∧ seat d s'.vm = { r with receive := [b] } := by
  obtain ⟨hgame, halive, rfl, hplay, hreceive, hline, -⟩ := h
  simp only [seat_gameState, seat_receive, seat_line] at hplay hreceive hline
  have hstep := Instance.stepInput_received (d := d) halive (by simp [hplay]) hline b
  have hq : (addToQueue s.vm.receiveQueue b).toList = [b] := by
    rw [toList_addToQueue hgame.sound.receive, hreceive]
    rfl
  have hready : Ready d s.vm := hgame.sound
  obtain ⟨hready', hseat⟩ := hready.withReceive
    ⟨hready.receive.1.addToQueue b, by simpa using hready.receive.2⟩ []
  refine ⟨_, hstep, ⟨hready', hgame.state⟩, halive, hseat.trans ?_⟩
  obtain ⟨cells, hframe⟩ := seat_frame d s.vm
  rw [hq, hframe]
  simp only [Vm.toSeat, hline]

/-- The polled byte, and the move it makes. -/
theorem appliedMove_queued {d : Display} {s : Instance} {r : Seat} (hgame : InGame d s.vm)
    (halive : s.crashed = false) (hplay : r.gameState = .playing) {b : UInt8}
    (hseat : seat d s.vm = { r with receive := [b] }) :
    polledByte s (.inl (.event 0 .newFrame)) = some b ∧
      appliedMove s (.inl (.event 0 .newFrame)) =
        if IsPosition b ∧ r.byteOfMove ≠ 0 then some (r.origin, byteCell b) else none := by
  have hq : s.vm.receiveQueue.toList = [b] := by rw [← seat_receive d, hseat]
  have hstate : s.vm.gameState = .playing := by rw [← seat_gameState d, hseat, hplay]
  have hbyte : s.vm.byteOfMove = r.byteOfMove := by rw [← seat_byteOfMove d, hseat]
  have horigin : originCell s.vm = r.origin := by rw [originCell, ← seat_origin d, hseat]
  have hpolled : polledByte s (.inl (.event 0 .newFrame)) = some b := by
    simp [polledByte, halive, hstate, readFromQueue_fst hgame.sound.receive.1, hq]
  exact ⟨hpolled, by simp only [appliedMove, hpolled, hbyte, horigin]⟩

/-- The frame that polls a fed byte parses it. -/
theorem Listening.frame {d : Display} {s : Instance} {r : Seat} (h : Listening d s r) (b : UInt8) :
    ∃ s', ((s.stepInput d (.inr b)).stepInput d (.inl (.spRead true)) = s' ∧
        run (Instance.stepInput d) s (feed b) = s'.step d (.event 0 .newFrame)) ∧
      (InGame d s'.vm ∧ s'.crashed = false ∧ seat d s'.vm = { r with receive := [b] }) ∧
      (handleEvent d 0 .newFrame s'.vm).map (seat d) = r.parse b := by
  obtain ⟨s', hs', hgame, halive, hseat⟩ := h.queued b
  have hrun : run (Instance.stepInput d) s (feed b) = s'.step d (.event 0 .newFrame) := by
    rw [← hs']
    rfl
  refine ⟨s', ⟨hs', hrun⟩, ⟨hgame, halive, hseat⟩, ?_⟩
  have hstay : ({ r with receive := [] } : Seat) = r := by rw [← h.receive]
  -- the game goes on, so nothing happens before the poll
  have hleave : (seat d s'.vm).leave = seat d s'.vm := by
    apply Seat.leave_of_endGame
    rw [hseat]
    exact h.endGame
  have hstate : s'.vm.gameState = .playing := by rw [← seat_gameState d, hseat, h.playing]
  rw [(handleEvent_newFrame hgame.sound hstate 0).1, hleave, hseat, Seat.poll]
  simp only [hstay]

/-- The seat behind a fed byte. -/
theorem Listening.seat_feed {d : Display} {s : Instance} {r r' : Seat} (h : Listening d s r)
    {b : UInt8} (hparse : r.parse b = some r') :
    seat d (run (Instance.stepInput d) s (feed b)).vm = r' := by
  obtain ⟨s', ⟨-, hrun⟩, ⟨-, halive, -⟩, hparsed⟩ := h.frame b
  rw [hparse, Option.map_eq_some_iff] at hparsed
  obtain ⟨vm', hev, rfl⟩ := hparsed
  rw [hrun, Instance.step_event halive hev]

/-- A fed byte is polled and parsed. -/
theorem Listening.run_feed {d : Display} {s : Instance} {r : Seat} (h : Listening d s r)
    (b : UInt8) :
    polledBytes d s (feed b) = [b] ∧
      appliedMoves d s (feed b) =
        (if IsPosition b ∧ r.byteOfMove ≠ 0 then [(r.origin, byteCell b)] else []) ∧
      (r.parse b = none → (run (Instance.stepInput d) s (feed b)).crashed = true) ∧
      ∀ r', r.parse b = some r' → r'.gameState = .playing →
        Listening d (run (Instance.stepInput d) s (feed b)) r' := by
  obtain ⟨s', ⟨hs', hrun⟩, ⟨hgame, halive, hseat⟩, hparsed⟩ := h.frame b
  obtain ⟨hpolled, happlied⟩ := appliedMove_queued hgame halive h.playing hseat
  have hgame' := inGame_stepInput hgame (.inl (.event 0 .newFrame))
  rw [Instance.stepInput, ← hrun] at hgame'
  rw [Instance.step_of_alive halive] at hrun
  refine ⟨?_, ?_, fun hparse => ?_, fun r' hparse hplay => ?_⟩
  · simp only [polledBytes, feed, Transition.outputs_cons, Transition.outputs_nil, hs',
      hpolled]
    rfl
  · simp only [appliedMoves, feed, Transition.outputs_cons, Transition.outputs_nil, hs',
      happlied]
    split_ifs <;> rfl
  · rw [hparse, Option.map_eq_none_iff] at hparsed
    simp only [hrun, hparsed]
  · obtain ⟨-, hend, -, -, -, hreceive, hline⟩ := Seat.parse_frame hparse
    have hshows := h.seat_feed hparse
    rw [hparse, Option.map_eq_some_iff] at hparsed
    obtain ⟨vm', hev, -⟩ := hparsed
    exact ⟨hgame', by simp only [hrun, hev, halive], hshows, hplay, hreceive.trans h.receive,
      hline.trans h.line, hend.trans h.endGame⟩

/-- The fed bytes are parsed one after the other, if none of them ends the game. -/
theorem Listening.run_feeds {d : Display} {s : Instance} {r r' : Seat} (h : Listening d s r)
    {bytes : List UInt8} (hsettle : settle r bytes = some r') (hplay : r'.gameState = .playing) :
    Listening d (run (Instance.stepInput d) s (bytes.flatMap feed)) r' := by
  induction bytes generalizing s r with
  | nil =>
    obtain rfl := Option.some.inj hsettle
    exact h
  | cons b bytes ih =>
    obtain ⟨q, hq, hq'⟩ := Option.bind_eq_some_iff.mp ((List.foldlM_cons ..).symm.trans hsettle)
    -- a king that is taken by an earlier byte would end the game for good
    have hgoes : q.gameState = .playing := by
      rcases Seat.gameState_parse hq (.inl h.playing) with hplay' | hexit
      · exact hplay'
      · exact absurd ((exit_settle hq' hexit).symm.trans hplay) (by decide)
    obtain ⟨-, -, -, hnext⟩ := h.run_feed b
    rw [List.flatMap_cons, Transition.run_append]
    exact ih (hnext q hq hgoes) hq'

/-- An instance that enters a game as black. -/
def startBlack : Instance := { vm := Vm.initialGame .black, crashed := false }

theorem listening_startBlack (d : Display) : Listening d startBlack
    { gameState := .playing, player := .black, myTurn := false, endGame := false, won := false,
      byteOfMove := 0, origin := 0, dragging := none, inicial := 0,
      cells := fun i => if IsCell i then initialCells i else none, transmit := [],
      receive := [], line := [] } where
  inGame := ⟨(newGame_initialGame d .black).sound, .inl rfl⟩
  alive := rfl
  shows := (newGame_initialGame d .black).seat_eq
  playing := rfl
  receive := rfl
  line := rfl
  endGame := rfl

end LCChess
