import LCChess.Protocol.Match

/-!
# Agreement

The position byte of the first cell, column 0 of row 0, is `0`, which is also the answer of an
empty receive queue: the parser does not see it. As long as no move starts or ends there, the
receiver applies every move as the sender made it, so that the two boards and the outcome of
the game agree once all bytes are processed.

## Main definitions

* `position ms`: the cells after the moves `ms`
* `Agrees t e`: the seat `e` will agree with the other once it has read what is on its way

## Main results

* `agrees_step`: every step that avoids the first cell keeps the agreement
* `boards_agree`: the boards agree when nothing is on its way
* `outcome_agrees`: winner and loser agree on the outcome
-/

namespace LCChess

open Transition (run outputs run_outputs_invariant)

/-- The cells after a move. -/
def play (cells : ℤ → Option PieceRef) (m : Side × ℤ × ℤ) : ℤ → Option PieceRef :=
  match cells m.2.1 with
  | some p => Seat.moveFrom cells m.2.1 m.2.2 p
  | none => cells

/-- The cells after the moves `ms` of a game. -/
def position (ms : List (Side × ℤ × ℤ)) : ℤ → Option PieceRef :=
  ms.foldl play fun i => if IsCell i then initialCells i else none

/-- A move that avoids the first cell. -/
def AvoidsFirst (m : Side × ℤ × ℤ) : Prop := m.2.1 ≠ 0 ∧ m.2.2 ≠ 0

instance (m : Side × ℤ × ℤ) : Decidable (AvoidsFirst m) := by unfold AvoidsFirst; infer_instance

/-- The seat `e`, next to move, will agree with the other one when it has read the bytes on their
way; a captured king makes it leave the game as the loser. -/
structure Agrees (t : Table) (e : Side) : Prop where
  settled : ∃ s', settle (t e) (incoming t e) = some s' ∧ s'.cells = (t e.other).cells ∧
    ((t e.other).endGame = true → s'.gameState = .exit ∧ s'.won = false) ∧
    ((t e.other).endGame = false → s'.gameState = .playing)
  receiver : (t e).endGame = false
  lost : (t e).gameState = .exit → (t e).won = false
  sender : (t e.other).gameState = .playing ∨
    ((t e.other).gameState = .exit ∧ (t e.other).won = true ∧ (t e.other).endGame = true)
  going : Holds t e → (t e.other).endGame = false

/-- No piece is an enemy of itself. -/
theorem sameTeam_self (t : PieceType) : sameTeam t t = true := by cases t <;> rfl

namespace Agrees

variable {t : Table} {e : Side}

/-- While a seat has the turn, both are in the game with equal boards. -/
theorem of_holds (h : Agrees t e) (hh : Holds t e) :
    (t e).cells = (t e.other).cells ∧ (t e).gameState = .playing ∧
      (t e.other).gameState = .playing ∧ (t e.other).endGame = false := by
  obtain ⟨s', hs', hcells, -, hgame⟩ := h.settled
  rw [hh.quiet] at hs'
  obtain rfl : t e = s' := Option.some.inj hs'
  have hgoing := h.going hh
  refine ⟨hcells, hgame hgoing, ?_, hgoing⟩
  rcases h.sender with hs | ⟨-, -, hs⟩
  · exact hs
  · simp [hgoing] at hs

/-- The parser never meets an empty origin. -/
theorem poll_isSome (h : Agrees t e) (htoken : Token t e) (f : Side) :
    ((t f).leave.poll).isSome = true := by
  unfold Seat.poll
  cases hb : (t f).leave.receive with
  | nil => rfl
  | cons b rest =>
    rw [Seat.receive_leave] at hb
    obtain ⟨rfl, -⟩ := htoken.inFlight_of_incoming (f := f) (by simp [incoming, hb])
    obtain ⟨s', hs', -⟩ := h.settled
    -- the bytes on their way can all be parsed, the next one included
    have hparse : ((t f).parse b).isSome = true := by
      have hin : incoming t f = b :: (rest ++ (t f).line ++ (t f.other).transmit) := by
        simp [incoming, hb]
      rw [hin, settle, List.foldlM_cons] at hs'
      cases hp : (t f).parse b with
      | none => simp [hp] at hs'
      | some r => rfl
    have hbuffers := parse_withBuffers (t f) { t f with receive := rest } b
    rw [Seat.leave_of_endGame h.receiver]
    exact (congrArg Option.isSome hbuffers).trans (by simpa using hparse)

end Agrees

/-- The seat `r'` is `r` with another drag and other buffers, perhaps after leaving. -/
def Quiet (r r' : Seat) : Prop := ∃ b, r' = r.withBuffers b ∨ r' = r.leave.withBuffers b

theorem Quiet.refl (r : Seat) : Quiet r r := ⟨r, Or.inl rfl⟩

/-- Quiet changes that keep the bytes on their way keep the agreement. -/
theorem Agrees.of_quiet {t t' : Table} {e : Side} (h : Agrees t e)
    (hquiet : ∀ f, Quiet (t f) (t' f)) (hin : incoming t' e = incoming t e)
    (hholds : Holds t' e → Holds t e) : Agrees t' e := by
  have hcells : ∀ f, (t' f).cells = (t f).cells ∧ (t' f).endGame = (t f).endGame := by
    intro f
    obtain ⟨b, hb | hb⟩ := hquiet f
    · rw [hb]
      exact ⟨rfl, rfl⟩
    · rw [hb]
      exact ⟨by simp [Seat.withBuffers], by simp [Seat.withBuffers]⟩
  -- the receiver has captured no king, so it does not leave by itself
  have hreceiver : ∃ b, t' e = (t e).withBuffers b := by
    obtain ⟨b, hb | hb⟩ := hquiet e
    · exact ⟨b, hb⟩
    · exact ⟨b, by rw [hb, Seat.leave_of_endGame h.receiver]⟩
  obtain ⟨b, hb⟩ := hreceiver
  refine ⟨?_, (hcells e).2.trans h.receiver, hb ▸ h.lost, ?_, fun hh => ?_⟩
  · obtain ⟨s', hs', hboard, hlost, hgame⟩ := h.settled
    refine ⟨s'.withBuffers b, ?_, ?_, ?_, ?_⟩
    · rw [hin, hb, settle_withBuffers, hs']
      rfl
    · exact hboard.trans (hcells _).1.symm
    · rw [(hcells _).2]
      exact hlost
    · rw [(hcells _).2]
      exact hgame
  · obtain ⟨b, hb | hb⟩ := hquiet e.other
    · rw [hb]
      exact h.sender
    · rw [hb]
      cases hend : (t e.other).endGame with
      | false =>
        rw [Seat.leave_of_endGame hend]
        exact hend ▸ h.sender
      | true => exact Or.inr (by simp [Seat.withBuffers, Seat.leave, hend])
  · rw [(hcells _).2]
    exact h.going (hholds hh)

/-- The receiver reads a byte. -/
theorem Agrees.poll {t : Table} {e : Side} (h : Agrees t e) {b : UInt8} {rest : List UInt8}
    (hb : (t e).receive = b :: rest) {s : Seat}
    (hparse : ({ t e with receive := rest } : Seat).parse b = some s)
    (hplay : (t e).gameState = .playing) (hturn : (t e).myTurn = false) :
    Agrees (Function.update t e s) e := by
  have hin : incoming t e = b :: (rest ++ (t e).line ++ (t e.other).transmit) := by
    simp [incoming, hb]
  obtain ⟨-, hend, -, -, -, hreceive, hline⟩ := Seat.parse_frame hparse
  have hin' : incoming (Function.update t e s) e =
      rest ++ (t e).line ++ (t e.other).transmit := by
    rw [incoming_update_self, hreceive, hline]
  obtain ⟨s', hs', hboard, hlost, hgame⟩ := h.settled
  -- the parser looks at no buffer, so what the rest of the bytes does stays as it was
  have hbuffers : ((t e).parse b).map (fun r => r.withBuffers { t e with receive := rest }) =
      some s := (parse_withBuffers (t e) { t e with receive := rest } b).symm.trans hparse
  obtain ⟨r, hr, rfl⟩ := Option.map_eq_some_iff.mp hbuffers
  rw [hin, settle, List.foldlM_cons, hr] at hs'
  have hsettle : settle (r.withBuffers { t e with receive := rest })
      (rest ++ (t e).line ++ (t e.other).transmit) =
        some (s'.withBuffers { t e with receive := rest }) := by
    rw [settle_withBuffers]
    exact congrArg _ hs'
  refine ⟨⟨s'.withBuffers { t e with receive := rest }, ?_, ?_, ?_, ?_⟩, ?_, ?_, ?_, fun hh => ?_⟩
  · rw [hin', Function.update_self]
    exact hsettle
  · simpa [Seat.withBuffers] using hboard
  · simpa [Seat.withBuffers] using hlost
  · simpa [Seat.withBuffers] using hgame
  · simpa using hend.trans h.receiver
  · simpa [Seat.withBuffers] using Seat.won_parse hr hplay
  · simpa using h.sender
  · -- the turn came with `YOUR_TURN`, behind a move that captured no king
    have hmine := hh.turn
    have hnil := hh.quiet
    rw [hin'] at hnil
    rw [hnil] at hs'
    obtain rfl : r = s' := Option.some.inj hs'
    simp only [Function.update_self, Seat.withBuffers, Seat.myTurn_parse hr, hturn,
      Bool.false_or, beq_iff_eq] at hmine
    have hr' : (t e).parse b = some { t e with myTurn := true } := by
      rw [hmine, Seat.parse_yourTurn]
    obtain rfl := Option.some.inj (hr.symm.trans hr')
    rw [Function.update_of_ne (Side.other_ne e)]
    by_contra hne
    have hexit := (hlost (by simpa using hne)).1
    simp only [hplay] at hexit
    exact absurd hexit (by decide)

/-- An accepted move that avoids the first cell. -/
theorem Agrees.accept {t : Table} {e : Side} (h : Agrees t e) (hh : Holds t e) {p : PieceRef}
    {n : ℤ} (hinicial : IsCell (t e).inicial) (hp : (t e).cells (t e).inicial = some p)
    (hn : IsCell n) (hne : (t e).inicial ≠ n) (hn0 : n ≠ 0) (ho0 : (t e).inicial ≠ 0) :
    Agrees (Function.update t e ((t e).leave.accept p n)) e.other := by
  obtain ⟨hcells, hplay, hplay', hgoing⟩ := h.of_holds hh
  obtain ⟨hquiet, htransmit⟩ := List.append_eq_nil_iff.mp hh.quiet_other
  simp only [Side.other_other] at htransmit
  rw [Seat.leave_of_endGame h.receiver]
  -- nothing else is on its way, so the message is all that the other end has to read
  have hin : incoming (Function.update t e ((t e).accept p n)) e.other =
      message (t e).inicial n := by
    rw [incoming_update_other, hquiet]
    simp only [Seat.accept, htransmit, List.nil_append]
    exact Seat.foldl_enqueue (by simp [message])
  have hsettle := settle_message hinicial hn ho0 hn0 (hcells ▸ hp)
  -- both ends find the same piece in the destination
  have hking : ((t e).accept p n).endGame = Seat.kingAt (t e.other).cells n := by
    simp [Seat.accept, h.receiver, hcells]
  refine ⟨⟨(t e.other).received (t e).inicial n p, ?_, ?_, ?_, ?_⟩, ?_, ?_, ?_, fun hh' => ?_⟩
  · rw [hin, Function.update_of_ne (Side.other_ne e)]
    exact hsettle
  · simp only [Side.other_other, Function.update_self, Seat.accept, Seat.received,
      moveFrom_eq_moveTo hne, hcells]
  · simp only [Side.other_other, Function.update_self, hking]
    intro hk
    simp [Seat.received, hk]
  · simp only [Side.other_other, Function.update_self, hking]
    intro hk
    simp [Seat.received, hk, hplay']
  · simpa using hgoing
  · simp [hplay']
  · left
    simpa [Seat.accept] using hplay
  · have := hh'.quiet
    rw [hin] at this
    simp [message] at this

/-- **Every step that avoids the first cell keeps the agreement.** -/
theorem agrees_step {t t' : Table} {e : Side} {l : Option (Side × ℤ × ℤ)} (h : Agrees t e)
    (htoken : Token t e) (htidy : ∀ f, Tidy (t f)) (hs : Table.Step t l t')
    (havoid : ∀ m, l = some m → AvoidsFirst m) :
    (l = none → Agrees t' e) ∧ (l.isSome = true → Agrees t' e.other) := by
  cases hs with
  | idle => exact ⟨fun _ => h, by simp⟩
  | write f b rest hb =>
    refine ⟨fun _ => h.of_quiet (fun g => ?_) (incoming_transfer t f hb e) fun hh => ?_, by simp⟩
    · unfold Table.transfer
      split
      · exact ⟨{ t g with transmit := rest }, Or.inl rfl⟩
      · exact ⟨{ t g with line := (t g).line ++ [b] }, Or.inl rfl⟩
    · have hturn := hh.turn
      have : (t e).myTurn = true := by
        unfold Table.transfer at hturn
        split at hturn <;> exact hturn
      exact (htoken.holds_of_turn this).2
  | read f b rest hb =>
    -- a message has four bytes, so none is dropped
    have hroom : (t f).receive.length < 10 := by
      have := htoken.length_incoming f
      simp only [incoming, List.length_append] at this
      omega
    refine ⟨fun _ => h.of_quiet (fun g => ?_) (incoming_read t f hb hroom e) fun hh => ?_, by simp⟩
    · obtain rfl | rfl := f.eq_or_eq_other g
      · rw [Function.update_self]
        exact ⟨{ t g with line := rest, receive := enqueue (t g).receive b }, Or.inl rfl⟩
      · rw [Function.update_of_ne (Side.other_ne f)]
        exact .refl _
    · have hturn := hh.turn
      have : (t e).myTurn = true := by
        obtain rfl | rfl := f.eq_or_eq_other e
        · simpa using hturn
        · simpa using hturn
      exact (htoken.holds_of_turn this).2
  | event f l s hplay hevent =>
    -- the events that read and move nothing
    have hkeep : Quiet (t f) s → s.myTurn = (t f).myTurn → s.receive = (t f).receive →
        s.line = (t f).line → s.transmit = (t f).transmit → Agrees (Function.update t f s) e := by
      intro hquiet hturn hreceive hline htransmit
      refine h.of_quiet (fun g => ?_) ?_ fun hh => ?_
      · obtain rfl | rfl := f.eq_or_eq_other g
        · simpa using hquiet
        · simpa using Quiet.refl _
      · obtain rfl | rfl := f.eq_or_eq_other e
        · rw [incoming_update_self, hreceive, hline]
          rfl
        · rw [incoming_update_other, htransmit]
          simp [incoming]
      · have : (t e).myTurn = true := by
          obtain rfl | rfl := f.eq_or_eq_other e
          · simpa [hturn] using hh.turn
          · simpa using hh.turn
        exact (htoken.holds_of_turn this).2
    cases hevent with
    | idle =>
      exact ⟨fun _ => hkeep ⟨(t f).leave, Or.inr rfl⟩ (by simp) (by simp) (by simp) (by simp),
        by simp⟩
    | press p i =>
      exact ⟨fun _ => hkeep ⟨(t f).leave.press p i, Or.inr rfl⟩ (by simp [Seat.press])
        (by simp [Seat.press]) (by simp [Seat.press]) (by simp [Seat.press]), by simp⟩
    | cancel p =>
      exact ⟨fun _ => hkeep ⟨(t f).leave.cancel, Or.inr rfl⟩ (by simp [Seat.cancel])
        (by simp [Seat.cancel]) (by simp [Seat.cancel]) (by simp [Seat.cancel]), by simp⟩
    | accept p i hp hi hteam =>
      refine ⟨by simp, fun _ => ?_⟩
      obtain ⟨rfl, hh⟩ := htoken.holds_of_turn (htoken.turn_of_dragging hp)
      obtain ⟨hinicial, hcell⟩ := (htidy f).drag p hp
      obtain ⟨ho0, hn0⟩ := havoid _ rfl
      -- a piece does not drop on its own cell
      have hne : (t f).inicial ≠ i := by
        rintro rfl
        simpa [sameTeam_self] using hteam p hcell
      exact h.accept hh hinicial hcell hi hne hn0 ho0
    | poll _ hpoll =>
      refine ⟨fun _ => ?_, by simp⟩
      obtain ⟨hnil, rfl⟩ | ⟨b, rest, hb, hparse⟩ := Seat.poll_cases hpoll
      · exact hkeep ⟨(t f).leave, Or.inr rfl⟩ (by simp) (by simp) (by simp) (by simp)
      · rw [Seat.receive_leave] at hb
        obtain ⟨rfl, hflight⟩ := htoken.inFlight_of_incoming (f := f) (by simp [incoming, hb])
        rw [Seat.leave_of_endGame h.receiver] at hparse
        exact h.poll hb hparse hplay (hflight.turn f)

/-- The cells of the seat that moved last change with the moves alone. -/
theorem cells_other_step {t t' : Table} {e : Side} (htoken : Token t e)
    (hs : Table.Step t none t') : (t' e.other).cells = (t e.other).cells := by
  generalize hl : (none : Option (Side × ℤ × ℤ)) = l at hs
  cases hs with
  | idle => rfl
  | write f b rest => unfold Table.transfer; split <;> rfl
  | read f b rest => obtain hf | hf := f.eq_or_eq_other e.other <;> simp [hf]
  | event f l s _ hevent =>
    obtain hf | hf := f.eq_or_eq_other e.other
    · rw [hf, Function.update_self]
      cases hevent with
      | idle => simp
      | press => simp [Seat.press]
      | cancel => simp [Seat.cancel]
      | accept => simp at hl
      | poll _ hpoll =>
        obtain ⟨-, rfl⟩ | ⟨b, rest, hb, -⟩ := Seat.poll_cases hpoll
        · simp
        · -- no byte is on its way to the seat that moved last
          rw [Seat.receive_leave] at hb
          obtain ⟨hne, -⟩ := htoken.inFlight_of_incoming (f := f) (by simp [incoming, hb])
          exact absurd (hf.trans hne) (Side.other_ne e)
    · obtain rfl : e = f := by simpa using congrArg Side.other hf
      simp

/-- A move moves the piece in its origin. -/
theorem cells_move_step {t t' : Table} {f : Side} {o n : ℤ} (htidy : ∀ f, Tidy (t f))
    (hs : Table.Step t (some (f, o, n)) t') :
    (t' f).cells = play (t f).cells (f, o, n) := by
  generalize hl : some (f, o, n) = l at hs
  cases hs with
  | idle => simp at hl
  | write => simp at hl
  | read => simp at hl
  | event g l s _ hevent =>
    cases hevent with
    | idle => simp at hl
    | press => simp at hl
    | cancel => simp at hl
    | poll => simp at hl
    | accept p i hp =>
      simp only [Option.map_some, Option.some.injEq, Prod.mk.injEq] at hl
      obtain ⟨rfl, rfl, rfl⟩ := hl
      obtain ⟨-, hcell⟩ := (htidy f).drag p hp
      simp [play, hcell, Seat.accept]

/-- The position of the initial board. -/
theorem position_append (ms : List (Side × ℤ × ℤ)) (m : Side × ℤ × ℤ) :
    position (ms ++ [m]) = play (position ms) m := by
  simp [position]

/-! ## Runs that avoid the first cell -/

/-- The invariant of a match whose moves `ms` all avoid the first cell. -/
structure Agreeing (d : Display) (w : Side) (s : System) (ms : List (Side × ℤ × ℤ)) : Prop where
  inMatch : InMatch d w s ms
  agrees : Agrees (table d s) (turnOf w ms.length)
  alive : ∀ e, (s e).crashed = false
  moved : (table d s (turnOf w ms.length).other).cells = position ms

/-- An event crashes an instance in the game only at a received move. -/
theorem handleEvent_isSome {d : Display} {arrivals : ℕ} {event : Event} {vm : Vm}
    (h : InGame d vm) (hpoll : ((seat d vm).leave.poll).isSome = true) :
    (handleEvent d arrivals event vm).isSome = true := by
  rcases h.state with hplay | hexit
  · cases event with
    | newFrame =>
      have hmap := (handleEvent_newFrame h.sound hplay arrivals).1
      rw [← hmap] at hpoll
      simpa using hpoll
    | keyboard scanCode => rw [handleEvent_keyboard hplay, Option.isSome_some]
    | mouse packet => rw [handleEvent_mouse hplay, Option.isSome_some]
  · rw [handleEvent_over hexit, Option.isSome_some]

namespace Agreeing

variable {d : Display} {w : Side} {s : System} {ms : List (Side × ℤ × ℤ)}
  (h : Agreeing d w s ms)
include h

/-- No event crashes an instance. -/
theorem event_isSome (e : Side) (arrivals : ℕ) (event : Event) :
    (handleEvent d arrivals event (s e).vm).isSome = true :=
  handleEvent_isSome (h.inMatch.inGame e) (h.agrees.poll_isSome h.inMatch.token e)

/-- **Every step keeps the agreement**, if its move avoids the first cell. -/
theorem step (a : Side × Action) (havoid : ∀ m, System.accepted d s a = some m → AvoidsFirst m) :
    Agreeing d w (System.step d s a) (ms ++ (System.accepted d s a).toList) := by
  -- the step of the two instances is a step of the table
  obtain ⟨-, hstep⟩ := h.inMatch.refines a
  obtain ⟨hnone, hsome⟩ := agrees_step h.agrees h.inMatch.token h.inMatch.tidy hstep havoid
  have halive : ∀ e, (System.step d s a e).crashed = false := by
    intro e
    unfold System.step
    split
    · rw [Instance.step_of_alive (h.alive e)]
      cases a.2 with
      | event arrivals event =>
        obtain ⟨vm', hvm'⟩ := Option.isSome_iff_exists.mp (h.event_isSome e arrivals event)
        simpa only [hvm'] using h.alive e
      | spWrite lsr => exact h.alive e
      | spRead arrived =>
        dsimp only
        split <;> exact h.alive e
    · exact h.alive e
  refine ⟨h.inMatch.step a, ?_, halive, ?_⟩
  · obtain ⟨hl, -⟩ | ⟨o, n, hl, -⟩ := token_step h.inMatch.token h.inMatch.tidy hstep
    · simpa [hl] using hnone hl
    · rw [hl, Option.toList_some, List.length_append, List.length_singleton, turnOf_succ]
      exact hsome (by simp [hl])
  · obtain ⟨hl, -⟩ | ⟨o, n, hl, hh, -⟩ := token_step h.inMatch.token h.inMatch.tidy hstep
    · rw [hl] at hstep
      simpa [hl] using (cells_other_step h.inMatch.token hstep).trans h.moved
    · rw [hl] at hstep
      rw [hl, Option.toList_some, List.length_append, List.length_singleton, turnOf_succ,
        Side.other_other, position_append, cells_move_step h.inMatch.tidy hstep,
        (h.agrees.of_holds hh).1, h.moved]

end Agreeing

/-- **Every run whose moves avoid the first cell keeps the agreement.** -/
theorem NewMatch.agreeing {d : Display} {w : Side} {s : System} (h : NewMatch d w s)
    (halive : ∀ e, (s e).crashed = false) (acts : List (Side × Action))
    (havoid : ∀ m ∈ moves d s acts, AvoidsFirst m) :
    Agreeing d w (Transition.run (System.step d) s acts) (moves d s acts) := by
  have hstart : Agreeing d w s [] := by
    have hw := (h.game w).seat_eq
    have hb := (h.game w.other).seat_eq
    refine ⟨h.inMatch, ⟨⟨table d s w, ?_, ?_, ?_, ?_⟩, ?_, ?_, ?_, fun _ => ?_⟩, halive, ?_⟩
    · simp [settle, incoming, table, turnOf, (h.game w).receive_nil, (h.game w).line_nil,
        (h.game w.other).transmit_nil]
    · simp [table, turnOf, hw, hb]
    · simp [table, turnOf, hb]
    · simp [table, turnOf, hw]
    · simp [table, turnOf, hw]
    · simp [table, turnOf, hw]
    · simp [table, turnOf, hb]
    · simp [table, turnOf, hb]
    · simp [table, turnOf, hb, position]
  have hstep : ∀ s a ms, ((∀ m ∈ ms, AvoidsFirst m) → Agreeing d w s ms) →
      (∀ m ∈ ms ++ (System.accepted d s a).toList, AvoidsFirst m) →
        Agreeing d w (System.step d s a) (ms ++ (System.accepted d s a).toList) := by
    intro s a ms hinv havoid
    simp only [List.forall_mem_append, Option.mem_toList] at havoid
    exact (hinv havoid.1).step a havoid.2
  exact run_outputs_invariant (fun s ms => (∀ m ∈ ms, AvoidsFirst m) → Agreeing d w s ms) hstep
    (fun _ => hstart) acts havoid

/-! ## The boards -/

/-- The type of the piece in square `(x, y)`, if there is one. -/
def pieceAt (d : Display) (vm : Vm) (x y : ℤ) : Option PieceType :=
  ((ensureBoard d vm).board.board (getPosition x y)).map fun p => ((ensureBoard d vm).heap p).type

/-- No byte is left in the queues or on the line. -/
def Drained (s : System) : Prop :=
  ∀ e, (s e).vm.transmitQueue.toList = [] ∧ (s e).vm.line = [] ∧ (s e).vm.receiveQueue.toList = []

theorem pieceAt_eq {d : Display} {vm : Vm} (h : InGame d vm) {x y : ℤ} (hxy : OnBoard x y) :
    pieceAt d vm x y = ((seat d vm).cells (getPosition x y)).map kind := by
  have hcell : IsCell (getPosition x y) := by
    have := isCell_of_onBoard hxy
    rwa [getPosition, add_comm]
  have heq : (seat d vm).cells (getPosition x y) =
      (ensureBoard d vm).board.board (getPosition x y) := cellsOf_of_isCell hcell
  rw [heq, pieceAt]
  cases hp : (ensureBoard d vm).board.board (getPosition x y) with
  | none => rfl
  | some p => simp [h.sound.type_of_cell hcell hp]

/-- **The boards agree.** In every run of two instances from the start of a game in which no
accepted move starts or ends in the first cell, no instance crashes, and whenever no byte is
left in a queue or on the line, both boards hold the pieces that the accepted moves, made one
after the other on the initial board, put there. -/
theorem boards_agree {d : Display} {w : Side} {s : System} (h : NewMatch d w s)
    (halive : ∀ e, (s e).crashed = false) (acts : List (Side × Action))
    (havoid : ∀ m ∈ moves d s acts, AvoidsFirst m) :
    let s' := Transition.run (System.step d) s acts
    (∀ e, (s' e).crashed = false) ∧
      (Drained s' → ∀ e x y, OnBoard x y → pieceAt d (s' e).vm x y =
        (position (moves d s acts) (getPosition x y)).map kind) := by
  intro s'
  have hs : Agreeing d w s' (moves d s acts) := h.agreeing halive acts havoid
  refine ⟨hs.alive, fun hdrained e x y hxy => ?_⟩
  have hquiet : ∀ e, incoming (table d s') e = [] := by
    intro e
    simp [incoming, table, (hdrained e).2.1, (hdrained e).2.2, (hdrained e.other).1]
  -- without a byte on its way somebody has the turn, and both boards are the same
  have hcells : (table d s' e).cells = position (moves d s acts) := by
    rcases hs.inMatch.token with hh | hf
    · have heq := (hs.agrees.of_holds hh).1
      obtain rfl | rfl := (turnOf w (moves d s acts).length).eq_or_eq_other e
      · exact heq.trans hs.moved
      · exact hs.moved
    · obtain ⟨o, n, k, -, -, hk, hbytes⟩ := hf.bytes
      rw [hquiet] at hbytes
      have := congrArg List.length hbytes
      simp only [message, List.length_nil, List.length_drop, List.length_cons] at this
      omega
  rw [pieceAt_eq (hs.inMatch.inGame e) hxy]
  exact congrArg (fun c : ℤ → Option PieceRef => (c (getPosition x y)).map kind) hcells

/-- Nothing is on its way between two ends at rest. -/
theorem drained_of_stands {images : Images} {s : System} {v v' : Diagram}
    (h : Stands images (s .left) v []) (h' : Stands images (s .right) v' []) : Drained s := by
  intro e
  cases e with
  | left => exact ⟨h.transmit, h.line_nil, h.receive_nil⟩
  | right => exact ⟨h'.transmit, h'.line_nil, h'.receive_nil⟩

/-- Behind six moves the boards agree: both show the knight where it took a pawn. -/
theorem boards_agree_raid :
    let d := Display.mode115 Images.blank
    let s' := Transition.run (System.step d) clickMatch (clicks .left raidClicks)
    (∀ e, (s' e).crashed = false) ∧ ∀ e, pieceAt d (s' e).vm 2 1 = some .wKnight := by
  obtain ⟨hleft, hright⟩ := stands_raidClicks
  have hagree := boards_agree (newMatch_clickMatch (Display.mode115 Images.blank))
    (fun e => by cases e <;> rfl) (clicks .left raidClicks)
    (by rw [moves_raidClicks]; decide)
  rw [moves_raidClicks] at hagree
  dsimp only
  generalize run _ clickMatch (clicks .left raidClicks) = s' at hleft hright hagree ⊢
  obtain ⟨halive, hboards⟩ := hagree
  have hknight : (position (clickMoves .left raidClicks) (getPosition 2 1)).map kind =
      some .wKnight := by decide +kernel
  exact ⟨halive, fun e =>
    (hboards (drained_of_stands hleft hright) e 2 1 (by decide)).trans hknight⟩

/-! ## The first cell -/

/-- White's knight takes the pawn in square `(2, 1)` and the rook in square `(0, 0)`, while black
brings the king to square `(3, 1)`. -/
def knightClicks : List Click :=
  [⟨buttonDown 0 0, buttonUp 59 118, 17, 1, 7, 2, 5⟩,
    ⟨buttonDown 0 0, buttonUp 0 (-59), 11, 3, 1, 3, 2⟩,
    ⟨buttonDown 0 0, buttonUp (-59) 118, 17, 2, 5, 1, 3⟩,
    ⟨buttonDown 59 118, buttonUp (-59) (-59), 4, 4, 0, 3, 1⟩,
    ⟨buttonDown 0 0, buttonUp 59 118, 17, 1, 3, 2, 1⟩,
    ⟨buttonDown 177 59, buttonUp (-59) (-118), 6, 6, 0, 5, 2⟩,
    ⟨buttonDown 0 0, buttonUp (-118) 59, 17, 2, 1, 0, 0⟩]

/-- The piece in a square, on the diagram of an instance. -/
theorem Stands.pieceAt_eq {images : Images} {s : Instance} {v : Diagram} {sent : List UInt8}
    (h : Stands images s v sent) {x y : ℤ} (hxy : OnBoard x y) :
    pieceAt (Display.mode115 images) s.vm x y = (v.cells (getPosition x y)).map kind := by
  rw [LCChess.pieceAt_eq h.inGame hxy, h.cells]

/-- **The boards do not agree behind every game**: the move of the knight to the first cell is
not decoded. Nothing is on its way then, and nothing is dragged. -/
theorem boards_agree_fails :
    ¬ ∀ (d : Display) (w : Side) (s : System), NewMatch d w s → (∀ e, (s e).crashed = false) →
      ∀ acts : List (Side × Action),
        let s' := Transition.run (System.step d) s acts
        Drained s' → (∀ e, (s' e).vm.draggingPiece = none) → ∀ x y, OnBoard x y →
          pieceAt d (s' .left).vm x y = pieceAt d (s' .right).vm x y := by
  intro hclaim
  obtain ⟨hleft, hright⟩ := stands_clickMatch
  have hplays : (Diagram.initial .white ⟨150, 500, false, false⟩).Plays
      (.initial .black ⟨270, 150, false, false⟩) knightClicks := by decide +kernel
  obtain ⟨hblack, hwhite⟩ := stands_clicks (e := .left) hleft hright hplays
  have hagree := hclaim (Display.mode115 Images.blank) .left clickMatch (newMatch_clickMatch _)
    (fun e => by cases e <;> rfl) (clicks .left knightClicks)
  generalize run (System.step (Display.mode115 Images.blank)) clickMatch
    (clicks .left knightClicks) = s' at hblack hwhite hagree
  have hside : sideAfter .left knightClicks = .right := rfl
  rw [hside] at hblack hwhite
  have hdrained : Drained s' := drained_of_stands hwhite hblack
  have hidle : ∀ e, (s' e).vm.draggingPiece = none := by
    intro e
    cases e with
    | left => exact hwhite.idle
    | right => exact hblack.idle
  -- white has the knight in the corner, black still has the rook there
  have hcorner := hagree hdrained hidle 0 0 (by decide)
  rw [Stands.pieceAt_eq (s := s' .left) hwhite (by decide),
    hblack.pieceAt_eq (by decide)] at hcorner
  exact absurd hcorner (by decide +kernel)

/-! ## The outcome -/

namespace Agreeing

variable {d : Display} {w : Side} {s : System} {ms : List (Side × ℤ × ℤ)}
  (h : Agreeing d w s ms)
include h

/-- An end that has captured a king made the last move, which is still on its way. -/
theorem of_endGame {e : Side} (hend : (s e).vm.endGame = true) :
    e = (turnOf w ms.length).other ∧ InFlight (table d s) (turnOf w ms.length) := by
  have hend' : (table d s e).endGame = true := by simpa [table] using hend
  obtain rfl | rfl := (turnOf w ms.length).eq_or_eq_other e
  · exact absurd (hend'.symm.trans h.agrees.receiver) (by decide)
  · refine ⟨rfl, h.inMatch.token.resolve_left fun hh => ?_⟩
    exact absurd (hend'.symm.trans (h.agrees.going hh)) (by decide)

/-- The end to move leaves the game as the loser. -/
theorem won_receiver (hexit : (s (turnOf w ms.length)).vm.gameState = .exit) :
    (s (turnOf w ms.length)).vm.won = false := by
  simpa [table] using h.agrees.lost (by simpa [table] using hexit)

/-- The end that moved last leaves the game as the winner. -/
theorem won_sender (hexit : (s (turnOf w ms.length).other).vm.gameState = .exit) :
    (s (turnOf w ms.length).other).vm.won = true := by
  rcases h.agrees.sender with hplay | ⟨-, hwin, -⟩
  · rw [table, seat_gameState, hexit] at hplay
    simp at hplay
  · simpa [table] using hwin

/-- Behind the destination byte of a capture of its king, the receiver has left as the loser. -/
theorem loser (hflight : InFlight (table d s) (turnOf w ms.length))
    (hend : (s (turnOf w ms.length).other).vm.endGame = true)
    (hlen : (incoming (table d s) (turnOf w ms.length)).length ≤ 1) :
    (s (turnOf w ms.length)).vm.gameState = .exit ∧
      (s (turnOf w ms.length)).vm.won = false := by
  set e := turnOf w ms.length
  obtain ⟨o, n, k, -, -, hk, hbytes⟩ := hflight.bytes
  -- the destination has been read, so `YOUR_TURN` is what is left
  obtain rfl : k = 3 := by
    rw [hbytes] at hlen
    simp only [message, List.length_drop, List.length_cons, List.length_nil] at hlen
    omega
  have hlast : incoming (table d s) e = [yourTurn] := hbytes
  have hagrees : Agrees (table d s) e := h.agrees
  obtain ⟨s', hs', -, hlost, -⟩ := hagrees.settled
  have hsettle : settle (table d s e) [yourTurn] = some { table d s e with myTurn := true } := by
    simp only [settle, List.foldlM_cons, List.foldlM_nil, Seat.parse_yourTurn]
    rfl
  rw [hlast, hsettle] at hs'
  obtain rfl := Option.some.inj hs'
  simpa [table] using hlost (by simpa [table] using hend)

/-- The end that captured a king leaves as the winner. -/
theorem winner (hflight : InFlight (table d s) (turnOf w ms.length))
    (hend : (s (turnOf w ms.length).other).vm.endGame = true) {arrivals : ℕ} {event : Event}
    {vm' : Vm}
    (hevent : handleEvent d arrivals event (s (turnOf w ms.length).other).vm = some vm') :
    vm'.gameState = .exit ∧ vm'.won = true := by
  set e := turnOf w ms.length
  have hgame := h.inMatch.inGame e.other
  rcases hgame.state with hplay | hexit
  · obtain ⟨-, l, hseat, -⟩ := handleEvent_refines hgame.sound hplay hevent
    have hturn : (seat d (s e.other).vm).myTurn = false := hflight.turn e.other
    have hdrag : (seat d (s e.other).vm).dragging = none := hflight.dragging e.other
    have hleave : (seat d (s e.other).vm).leave.gameState = .exit ∧
        (seat d (s e.other).vm).leave.won = true := by
      simp [Seat.leave, hend]
    rw [← seat_gameState d vm', ← seat_won d vm']
    generalize seat d vm' = r at hseat
    cases hseat with
    | idle => exact hleave
    | press p i _ ht => exact absurd (ht.symm.trans hturn) (by decide)
    | cancel p hp => exact absurd (hp.symm.trans hdrag) (by simp)
    | accept p i hp => exact absurd (hp.symm.trans hdrag) (by simp)
    | poll _ hpoll =>
      obtain ⟨-, rfl⟩ | ⟨b, rest, hb, -⟩ := Seat.poll_cases hpoll
      · exact hleave
      · have hnil : (seat d (s e.other).vm).receive = [] :=
          (List.append_eq_nil_iff.mp (List.append_eq_nil_iff.mp hflight.quiet_other).1).1
        rw [Seat.receive_leave, hnil] at hb
        exact absurd hb (by simp)
  · obtain ⟨-, hseat, -⟩ := handleEvent_exit hgame.sound hexit hevent
    rw [← seat_gameState d vm', ← seat_won d vm', hseat]
    exact ⟨(seat_gameState d _).trans hexit, (seat_won d _).trans (h.won_sender hexit)⟩

end Agreeing

/-- **Winner and loser agree.** In every run of two instances from the start of a game in which
no accepted move starts or ends in the first cell: once an end has captured a king and at most
the last byte of its message is still to be read by the other end, the other has left the game as
the loser; the capturing end has left or leaves at its next event as the winner; and the two
never leave with the same result. -/
theorem outcome_agrees {d : Display} {w : Side} {s : System} (h : NewMatch d w s)
    (halive : ∀ e, (s e).crashed = false) (acts : List (Side × Action))
    (havoid : ∀ m ∈ moves d s acts, AvoidsFirst m) :
    let s' := Transition.run (System.step d) s acts
    (∀ e, (s' e).vm.endGame = true → (incoming (table d s') e.other).length ≤ 1 →
      (s' e.other).vm.gameState = .exit ∧ (s' e.other).vm.won = false) ∧
    (∀ e, (s' e).vm.endGame = true → ∀ arrivals event, ∃ vm',
      handleEvent d arrivals event (s' e).vm = some vm' ∧
        vm'.gameState = .exit ∧ vm'.won = true) ∧
    ∀ e, (s' e).vm.gameState = .exit → (s' e.other).vm.gameState = .exit →
      (s' e).vm.won ≠ (s' e.other).vm.won := by
  intro s'
  have hs : Agreeing d w s' (moves d s acts) := h.agreeing halive acts havoid
  refine ⟨fun e hend hlen => ?_, fun e hend arrivals event => ?_, ?_⟩
  · obtain ⟨rfl, hflight⟩ := hs.of_endGame hend
    simpa using hs.loser hflight hend (by simpa using hlen)
  · obtain ⟨rfl, hflight⟩ := hs.of_endGame hend
    obtain ⟨vm', hvm'⟩ := Option.isSome_iff_exists.mp (hs.event_isSome _ arrivals event)
    exact ⟨vm', hvm', hs.winner hflight hend hvm'⟩
  · intro e hexit hexit'
    obtain rfl | rfl := (turnOf w (moves d s acts).length).eq_or_eq_other e
    · simp [hs.won_receiver hexit, hs.won_sender hexit']
    · rw [Side.other_other] at hexit'
      simp [hs.won_receiver hexit', hs.won_sender hexit]

/-- White's knight takes the king, and black has read where it went: black has left the game as the
loser, and white leaves at its next frame as the winner. -/
theorem outcome_agrees_raid :
    let d := Display.mode115 Images.blank
    let s' := Transition.run (System.step d) clickMatch raidGame
    ((s' .right).vm.gameState = .exit ∧ (s' .right).vm.won = false) ∧
      ∃ vm', handleEvent d 0 .newFrame (s' .left).vm = some vm' ∧
        vm'.gameState = .exit ∧ vm'.won = true := by
  obtain ⟨hend, hincoming, hmoves⟩ := raidGame_spec
  have houtcome := outcome_agrees (newMatch_clickMatch (Display.mode115 Images.blank))
    (fun e => by cases e <;> rfl) raidGame (by rw [hmoves]; decide)
  dsimp only
  generalize run _ clickMatch raidGame = s' at hend hincoming houtcome ⊢
  obtain ⟨hloser, hwinner, -⟩ := houtcome
  exact ⟨hloser .left hend (by rw [show Side.left.other = .right from rfl, hincoming]; rfl),
    hwinner .left hend 0 .newFrame⟩

/-- The king of black goes to square `(2, 1)`, and the knight takes it from the first cell. -/
def kingClicks : List Click :=
  knightClicks ++
    [⟨buttonDown (-118) 59, buttonUp (-59) 0, 4, 3, 1, 2, 1⟩,
      ⟨buttonDown 0 0, buttonUp 118 (-59), 17, 0, 0, 2, 1⟩]

/-- **Winner and loser do not agree behind every game**: the knight takes the king from the first
cell, and the other end, which has read all bytes, goes on playing. -/
theorem outcome_agrees_fails :
    ¬ ∀ (d : Display) (w : Side) (s : System), NewMatch d w s → (∀ e, (s e).crashed = false) →
      ∀ acts : List (Side × Action),
        let s' := Transition.run (System.step d) s acts
        ∀ e, (s' e).vm.endGame = true → incoming (table d s') e.other = [] →
          (s' e.other).vm.gameState = .exit ∧ (s' e.other).vm.won = false := by
  intro hclaim
  obtain ⟨hleft, hright⟩ := stands_clickMatch
  have hplays : (Diagram.initial .white ⟨150, 500, false, false⟩).Plays
      (.initial .black ⟨270, 150, false, false⟩) kingClicks := by decide +kernel
  have hended : ((Diagram.initial .white ⟨150, 500, false, false⟩).after
      (.initial .black ⟨270, 150, false, false⟩) kingClicks).2.ended = true := by decide +kernel
  obtain ⟨hblack, hwhite⟩ := stands_clicks (e := .left) hleft hright hplays
  have houtcome := hclaim (Display.mode115 Images.blank) .left clickMatch (newMatch_clickMatch _)
    (fun e => by cases e <;> rfl) (clicks .left kingClicks)
  generalize run (System.step (Display.mode115 Images.blank)) clickMatch
    (clicks .left kingClicks) = s' at hblack hwhite houtcome
  have hside : sideAfter .left kingClicks = .right := rfl
  rw [hside] at hblack hwhite
  -- black has read every byte and plays on, although its king is gone
  have hread : incoming (table (Display.mode115 Images.blank) s') .right = [] := by
    have hsent : (s' Side.right.other).vm.transmitQueue.toList = [] := hwhite.transmit
    simp only [incoming, table, seat_receive, seat_line, seat_transmit, hblack.receive_nil,
      hblack.line_nil, hsent, List.append_nil]
  obtain ⟨hexit, -⟩ := houtcome .left (Eq.trans hwhite.ended hended) hread
  exact absurd (hblack.playing.symm.trans hexit) (by decide)

end LCChess
