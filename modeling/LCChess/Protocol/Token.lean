import LCChess.Protocol.Table

/-!
# The turn

Exactly one token circulates between the two seats: the turn of one of them, or the `YOUR_TURN`
byte at the end of a message on its way. Everything else follows from where the token is: who
drags a piece, who moves next, and what is in the buffers.

## Main definitions

* `Token t e`: the token is with the seat `e`, or on its way to it
* `Tidy s`: every piece stands in one cell, and the dragged piece where it was pressed

## Main results

* `token_step`: a move passes the token on, and every other step leaves it
* `tidy_step`: the boards stay tidy
-/

namespace LCChess

open Transition (run outputs)

/-- The seat `e` has the turn, and no byte is on its way. -/
structure Holds (t : Table) (e : Side) : Prop where
  turn : (t e).myTurn = true
  turn_other : (t e.other).myTurn = false
  dragging : (t e.other).dragging = none
  quiet : incoming t e = []
  quiet_other : incoming t e.other = []

/-- The turn is on its way to the seat `e`, at the end of a message. -/
structure InFlight (t : Table) (e : Side) : Prop where
  turn : ∀ f, (t f).myTurn = false
  dragging : ∀ f, (t f).dragging = none
  bytes : ∃ o n k, IsCell o ∧ IsCell n ∧ k < 4 ∧ incoming t e = (message o n).drop k
  quiet_other : incoming t e.other = []

/-- The token is with the seat `e`, or on its way to it: `e` makes the next move. -/
def Token (t : Table) (e : Side) : Prop := Holds t e ∨ InFlight t e

/-- Every piece stands in one cell, and the dragged piece where it was pressed. -/
structure Tidy (s : Seat) : Prop where
  unique : ∀ i j p, s.cells i = some p → s.cells j = some p → i = j
  drag : ∀ p, s.dragging = some p → IsCell s.inicial ∧ s.cells s.inicial = some p

/-! ## The bytes on their way -/

section Incoming

variable (t : Table) (e : Side)

/-- A byte that leaves a transmit queue is still on its way. -/
theorem incoming_transfer {b : UInt8} {rest : List UInt8} (h : (t e).transmit = b :: rest)
    (f : Side) : incoming (t.transfer e b rest) f = incoming t f := by
  obtain rfl | rfl := e.eq_or_eq_other f
  · simp [incoming, Table.transfer]
  · simp [incoming, Table.transfer, h]

/-- A byte that leaves the line for a queue with room is still on its way. -/
theorem incoming_read {b : UInt8} {rest : List UInt8} (h : (t e).line = b :: rest)
    (hroom : (t e).receive.length < 10) (f : Side) :
    incoming (Function.update t e
      { t e with line := rest, receive := enqueue (t e).receive b }) f = incoming t f := by
  obtain rfl | rfl := e.eq_or_eq_other f
  · simp [incoming, enqueue, hroom, h]
  · simp [incoming]

theorem incoming_update_self (s : Seat) :
    incoming (Function.update t e s) e = s.receive ++ s.line ++ (t e.other).transmit := by
  simp [incoming]

theorem incoming_update_other (s : Seat) : incoming (Function.update t e s) e.other =
    (t e.other).receive ++ (t e.other).line ++ s.transmit := by
  simp [incoming]

end Incoming

/-- The next byte of a message is the `YOUR_TURN` at its end, or not a `YOUR_TURN`. -/
theorem drop_message {o n : ℤ} (ho : IsCell o) (hn : IsCell n) {k : ℕ} {b : UInt8}
    {rest : List UInt8} (hk : k < 4) (h : (message o n).drop k = b :: rest) :
    (b = yourTurn ∧ rest = []) ∨
      (b ≠ yourTurn ∧ k + 1 < 4 ∧ rest = (message o n).drop (k + 1)) := by
  obtain ⟨-, hoTurn, -⟩ := cellByte_spec ho
  obtain ⟨-, hnTurn, -⟩ := cellByte_spec hn
  interval_cases k <;> obtain ⟨rfl, rfl⟩ := List.cons.inj h
  · exact Or.inr ⟨by decide, by decide, rfl⟩
  · exact Or.inr ⟨hoTurn, by decide, rfl⟩
  · exact Or.inr ⟨hnTurn, by decide, rfl⟩
  · exact Or.inl ⟨rfl, rfl⟩

/-! ## The token -/

namespace Token

variable {t t' : Table} {e : Side}

/-- The token depends on the turns, the drags and the bytes on their way. -/
theorem congr (h : Token t e) (hturn : ∀ f, (t' f).myTurn = (t f).myTurn)
    (hdrag : ∀ f, (t' f).dragging = (t f).dragging)
    (hin : ∀ f, incoming t' f = incoming t f) : Token t' e := by
  rcases h with h | h
  · exact Or.inl ⟨(hturn e).trans h.turn, (hturn _).trans h.turn_other,
      (hdrag _).trans h.dragging, (hin e).trans h.quiet, (hin _).trans h.quiet_other⟩
  · exact Or.inr ⟨fun f => (hturn f).trans (h.turn f), fun f => (hdrag f).trans (h.dragging f),
      by simpa only [hin] using h.bytes, (hin _).trans h.quiet_other⟩

/-- At most one message is on its way. -/
theorem length_incoming (h : Token t e) (f : Side) : (incoming t f).length ≤ 4 := by
  rcases h with h | h
  · obtain rfl | rfl := e.eq_or_eq_other f
    · simp [h.quiet]
    · simp [h.quiet_other]
  · obtain rfl | rfl := e.eq_or_eq_other f
    · obtain ⟨o, n, k, -, -, -, hin⟩ := h.bytes
      simp [hin, message]
    · simp [h.quiet_other]

/-- A seat that has the turn makes the next move. -/
theorem holds_of_turn (h : Token t e) {f : Side} (hf : (t f).myTurn = true) :
    f = e ∧ Holds t e := by
  rcases h with h | h
  · obtain rfl | rfl := e.eq_or_eq_other f
    · exact ⟨rfl, h⟩
    · exact absurd (hf.symm.trans h.turn_other) (by decide)
  · exact absurd (hf.symm.trans (h.turn f)) (by decide)

/-- **A piece is dragged only by the seat that has the turn.** -/
theorem turn_of_dragging (h : Token t e) {f : Side} {p : PieceRef}
    (hp : (t f).dragging = some p) : (t f).myTurn = true := by
  rcases h with h | h
  · obtain rfl | rfl := e.eq_or_eq_other f
    · exact h.turn
    · exact absurd (hp.symm.trans h.dragging) (by simp)
  · exact absurd (hp.symm.trans (h.dragging f)) (by simp)

/-- A byte on its way to `f` means that the turn is, too. -/
theorem inFlight_of_incoming (h : Token t e) {f : Side} (hf : incoming t f ≠ []) :
    f = e ∧ InFlight t e := by
  rcases h with h | h
  · obtain rfl | rfl := e.eq_or_eq_other f
    · exact absurd h.quiet hf
    · exact absurd h.quiet_other hf
  · obtain rfl | rfl := e.eq_or_eq_other f
    · exact ⟨rfl, h⟩
    · exact absurd h.quiet_other hf

/-- A seat with bytes to read does not drag. -/
theorem dragging_of_receive (h : Token t e) {f : Side} (hf : (t f).receive ≠ []) :
    (t f).dragging = none := by
  obtain ⟨rfl, hflight⟩ := h.inFlight_of_incoming (f := f) (by simp [incoming, hf])
  exact hflight.dragging f

end Token

/-- The token after an event of a seat that keeps its turn, its drag and its buffers. -/
theorem Token.update {t : Table} {e : Side} (h : Token t e) (f : Side) {s : Seat}
    (hturn : s.myTurn = (t f).myTurn) (hdrag : s.dragging = (t f).dragging)
    (hreceive : s.receive = (t f).receive) (hline : s.line = (t f).line)
    (htransmit : s.transmit = (t f).transmit) : Token (Function.update t f s) e := by
  refine h.congr (fun g => ?_) (fun g => ?_) fun g => ?_
  · obtain rfl | rfl := f.eq_or_eq_other g
    · simpa using hturn
    · simp
  · obtain rfl | rfl := f.eq_or_eq_other g
    · simpa using hdrag
    · simp
  · obtain rfl | rfl := f.eq_or_eq_other g
    · rw [incoming_update_self, hreceive, hline]
      rfl
    · rw [incoming_update_other, htransmit]
      simp [incoming]

/-- A polled byte belongs to the message on its way. -/
theorem token_poll {t : Table} {e f : Side} (h : Token t e) {b : UInt8} {rest : List UInt8}
    (hb : (t f).receive = b :: rest) {s : Seat}
    (hparse : ({ (t f).leave with receive := rest } : Seat).parse b = some s) :
    Token (Function.update t f s) e := by
  have hin : incoming t f = b :: (rest ++ (t f).line ++ (t f.other).transmit) := by
    simp [incoming, hb]
  obtain ⟨rfl, hflight⟩ := h.inFlight_of_incoming (f := f) (by simp [hin])
  obtain ⟨-, -, hdrag, -, htransmit, hreceive, hline⟩ := Seat.parse_frame hparse
  have hturn := Seat.myTurn_parse hparse
  simp only [Seat.myTurn_leave, Seat.dragging_leave, Seat.transmit_leave, Seat.line_leave,
    hflight.turn f, hflight.dragging f, Bool.false_or] at hdrag htransmit hreceive hline hturn
  have hin' : incoming (Function.update t f s) f = rest ++ (t f).line ++ (t f.other).transmit := by
    rw [incoming_update_self, hreceive, hline]
  have hother : incoming (Function.update t f s) f.other = [] := by
    rw [incoming_update_other, htransmit]
    simpa [incoming] using hflight.quiet_other
  -- the byte is the next one of the message: `YOUR_TURN`, or one in front of it
  obtain ⟨o, n, k, ho, hn, hk, hdrop⟩ := hflight.bytes
  obtain ⟨hyour, hnil⟩ | ⟨hyour, hk', hnext⟩ := drop_message ho hn hk (hdrop.symm.trans hin)
  · refine Or.inl ⟨?_, ?_, ?_, hin'.trans hnil, hother⟩
    · simp [hturn, hyour]
    · simp [hflight.turn]
    · simp [hflight.dragging]
  · refine Or.inr ⟨fun g => ?_, fun g => ?_, ⟨o, n, k + 1, ho, hn, hk', hin'.trans hnext⟩, hother⟩
    · obtain rfl | rfl := f.eq_or_eq_other g
      · simp [hturn, hyour]
      · simp [hflight.turn]
    · obtain rfl | rfl := f.eq_or_eq_other g
      · simpa using hdrag
      · simp [hflight.dragging]

/-- **A move passes the token on, and every other step leaves it.** -/
theorem token_step {t t' : Table} {e : Side} {l : Option (Side × ℤ × ℤ)} (h : Token t e)
    (htidy : ∀ f, Tidy (t f)) (hs : Table.Step t l t') :
    (l = none ∧ Token t' e) ∨
      ∃ o n, l = some (e, o, n) ∧ Holds t e ∧ Token t' e.other := by
  cases hs with
  | idle => exact Or.inl ⟨rfl, h⟩
  | write f b rest hb =>
    refine Or.inl ⟨rfl, h.congr (fun g => ?_) (fun g => ?_) (incoming_transfer t f hb)⟩
    · unfold Table.transfer; split <;> rfl
    · unfold Table.transfer; split <;> rfl
  | read f b rest hb =>
    have hroom : (t f).receive.length < 10 := by
      have := h.length_incoming f
      simp only [incoming, List.length_append] at this
      omega
    refine Or.inl ⟨rfl, h.congr (fun g => ?_) (fun g => ?_) (incoming_read t f hb hroom)⟩
    · obtain rfl | rfl := f.eq_or_eq_other g <;> simp
    · obtain rfl | rfl := f.eq_or_eq_other g <;> simp
  | event f l s _ hevent =>
    cases hevent with
    | idle => exact Or.inl ⟨rfl, h.update f (by simp) (by simp) (by simp) (by simp) (by simp)⟩
    | press p i hdrag hturn =>
      -- only the drag of the seat with the turn changes
      obtain ⟨rfl, hh⟩ := h.holds_of_turn hturn
      refine Or.inl ⟨rfl, Or.inl ⟨?_, ?_, ?_, ?_, ?_⟩⟩
      · simpa [Seat.press] using hh.turn
      · simpa using hh.turn_other
      · simpa using hh.dragging
      · rw [incoming_update_self]
        simpa [Seat.press, incoming] using hh.quiet
      · rw [incoming_update_other]
        simpa [Seat.press, incoming] using hh.quiet_other
    | cancel p hp =>
      obtain ⟨rfl, hh⟩ := h.holds_of_turn (h.turn_of_dragging hp)
      refine Or.inl ⟨rfl, Or.inl ⟨?_, ?_, ?_, ?_, ?_⟩⟩
      · simpa [Seat.cancel] using hh.turn
      · simpa using hh.turn_other
      · simpa using hh.dragging
      · rw [incoming_update_self]
        simpa [Seat.cancel, incoming] using hh.quiet
      · rw [incoming_update_other]
        simpa [Seat.cancel, incoming] using hh.quiet_other
    | accept p i hp hi =>
      obtain ⟨rfl, hh⟩ := h.holds_of_turn (h.turn_of_dragging hp)
      obtain ⟨hinicial, -⟩ := (htidy f).drag p hp
      -- the seat with the turn has nothing left to send, so the message is all that follows
      obtain ⟨hother, htransmit⟩ := List.append_eq_nil_iff.mp hh.quiet_other
      simp only [Side.other_other] at htransmit
      refine Or.inr ⟨(t f).inicial, i, rfl, hh, Or.inr ⟨fun g => ?_, fun g => ?_, ?_, ?_⟩⟩
      · obtain rfl | rfl := f.eq_or_eq_other g
        · simp [Seat.accept]
        · simpa using hh.turn_other
      · obtain rfl | rfl := f.eq_or_eq_other g
        · simp [Seat.accept]
        · simpa using hh.dragging
      · refine ⟨(t f).inicial, i, 0, hinicial, hi, by decide, ?_⟩
        rw [incoming_update_other, hother]
        simp only [Seat.accept, Seat.transmit_leave, Seat.inicial_leave, htransmit,
          List.drop_zero, List.nil_append]
        exact Seat.foldl_enqueue (by simp [message])
      · rw [Side.other_other, incoming_update_self]
        simpa [Seat.accept, incoming] using hh.quiet
    | poll _ hpoll =>
      obtain ⟨hnil, rfl⟩ | ⟨b, rest, hb, hparse⟩ := Seat.poll_cases hpoll
      · exact Or.inl ⟨rfl, h.update f (by simp) (by simp) (by simp) (by simp) (by simp)⟩
      · rw [Seat.receive_leave] at hb
        exact Or.inl ⟨rfl, token_poll h hb hparse⟩

/-! ## The pieces -/

section Move

variable {cells : ℤ → Option PieceRef} {o n : ℤ} {p : PieceRef}

/-- What stands in a cell after the mover's update. -/
theorem moveFrom_cases {j : ℤ} {q : PieceRef} (h : Seat.moveFrom cells o n p j = some q) :
    (j = n ∧ q = p) ∨ (j ≠ o ∧ cells j = some q) := by
  unfold Seat.moveFrom at h
  rcases eq_or_ne j n with rfl | hn
  · simp only [Function.update_self, Option.some.injEq] at h
    exact Or.inl ⟨rfl, h.symm⟩
  · rw [Function.update_of_ne hn] at h
    rcases eq_or_ne j o with rfl | ho
    · simp at h
    · rw [Function.update_of_ne ho] at h
      exact Or.inr ⟨ho, h⟩

/-- What stands in a cell after the receiver's update. -/
theorem moveTo_cases {j : ℤ} {q : PieceRef} (h : Seat.moveTo cells o n p j = some q) :
    (j = n ∧ q = p) ∨ (j ≠ o ∧ cells j = some q) := by
  unfold Seat.moveTo at h
  rcases eq_or_ne j o with rfl | ho
  · simp at h
  · rw [Function.update_of_ne ho] at h
    rcases eq_or_ne j n with rfl | hn
    · simp only [Function.update_self, Option.some.injEq] at h
      exact Or.inl ⟨rfl, h.symm⟩
    · rw [Function.update_of_ne hn] at h
      exact Or.inr ⟨ho, h⟩

/-- Moving a piece from its cell keeps every piece in one cell. -/
theorem unique_move {cells' : ℤ → Option PieceRef}
    (hunique : ∀ i j q, cells i = some q → cells j = some q → i = j)
    (hp : ∀ i, cells i = some p → i = o)
    (hcases : ∀ {j q}, cells' j = some q → (j = n ∧ q = p) ∨ (j ≠ o ∧ cells j = some q)) :
    ∀ i j q, cells' i = some q → cells' j = some q → i = j := by
  intro i j q hi hj
  obtain ⟨rfl, rfl⟩ | ⟨hio, hi⟩ := hcases hi <;> obtain ⟨rfl, hq⟩ | ⟨hjo, hj⟩ := hcases hj
  · rfl
  · exact absurd (hp j hj) hjo
  · exact absurd (hp i (hq ▸ hi)) hio
  · exact hunique i j q hi hj

end Move

/-- An event leaves the cells alone, or moves a piece from its cell. -/
theorem cells_event {s s' : Seat} {l : Option (ℤ × ℤ)} (h : Seat.Event s l s') (htidy : Tidy s) :
    s'.cells = s.cells ∨ ∃ o n p, s.cells o = some p ∧
      ∀ {j q}, s'.cells j = some q → (j = n ∧ q = p) ∨ (j ≠ o ∧ s.cells j = some q) := by
  cases h with
  | idle => simp
  | press => simp [Seat.press]
  | cancel => simp [Seat.cancel]
  | accept p i hp =>
    refine Or.inr ⟨s.inicial, i, p, (htidy.drag p hp).2, fun hj => ?_⟩
    simp only [Seat.accept, Seat.cells_leave, Seat.inicial_leave] at hj
    exact moveFrom_cases hj
  | poll _ hpoll =>
    obtain ⟨-, rfl⟩ | ⟨b, rest, -, hparse⟩ := Seat.poll_cases hpoll
    · simp
    · obtain heq | ⟨p, hp, heq⟩ := Seat.cells_parse hparse
      · exact Or.inl (by simpa using heq)
      · simp only [Seat.cells_leave] at hp heq
        exact Or.inr ⟨_, byteCell b, p, hp, fun hj => moveTo_cases (heq ▸ hj)⟩

/-- An event keeps a seat tidy, unless it reads a byte during a drag. -/
theorem tidy_event {s s' : Seat} {l : Option (ℤ × ℤ)} (h : Seat.Event s l s') (htidy : Tidy s)
    (hread : s.receive ≠ [] → s.dragging = none) : Tidy s' := by
  obtain ⟨hunique, hdrag⟩ := htidy
  refine ⟨?_, ?_⟩
  · obtain heq | ⟨o, n, p, hp, hcases⟩ := cells_event h ⟨hunique, hdrag⟩
    · rw [heq]
      exact hunique
    · exact unique_move hunique (fun i hi => hunique i o p hi hp) hcases
  · cases h with
    | idle => simpa using hdrag
    | press p i _ _ hi hp =>
      rintro q ⟨⟩
      simpa [Seat.press] using ⟨hi, hp⟩
    | cancel => simp [Seat.cancel]
    | accept => simp [Seat.accept]
    | poll _ hpoll =>
      obtain ⟨-, rfl⟩ | ⟨b, rest, hb, hparse⟩ := Seat.poll_cases hpoll
      · simpa using hdrag
      · rw [Seat.receive_leave] at hb
        -- a seat that reads a byte is not dragging
        have hnone := (Seat.parse_frame hparse).2.2.1
        simp only [Seat.dragging_leave, hread (by simp [hb])] at hnone
        simp [hnone]

/-- **The boards stay tidy**: a received move never meets a drag. -/
theorem tidy_step {t t' : Table} {l : Option (Side × ℤ × ℤ)}
    (hread : ∀ f, (t f).receive ≠ [] → (t f).dragging = none) (htidy : ∀ f, Tidy (t f))
    (hs : Table.Step t l t') (f : Side) : Tidy (t' f) := by
  cases hs with
  | idle => exact htidy f
  | write g b rest =>
    obtain ⟨hunique, hdrag⟩ := htidy f
    unfold Table.transfer
    split
    · exact ⟨hunique, hdrag⟩
    · exact ⟨hunique, hdrag⟩
  | read g b rest =>
    obtain rfl | rfl := g.eq_or_eq_other f
    · obtain ⟨hunique, hdrag⟩ := htidy f
      simpa using ⟨hunique, hdrag⟩
    · simpa using htidy g.other
  | event g l s _ hevent =>
    obtain rfl | rfl := g.eq_or_eq_other f
    · rw [Function.update_self]
      exact tidy_event hevent (htidy f) (hread f)
    · simpa using htidy g.other

/-- The initial position is tidy. -/
theorem Fresh.tidy {d : Display} {vm : Vm} (h : Fresh d vm) : Tidy (seat d vm) := by
  rw [h.seat_eq]
  refine ⟨fun i j p hi hj => ?_, by simp⟩
  have hinit : ∀ {i}, (if IsCell i then initialCells i else none) = some p →
      (initialPieces[p]?.map fun c => getPosition c.2.1 c.2.2) = some i := by
    intro i hi
    split at hi
    · obtain ⟨hlt, heq, -⟩ := List.findIdx?_eq_some_iff_getElem.mp hi
      simpa [List.getElem?_eq_getElem hlt] using heq
    · simp at hi
  exact Option.some.inj ((hinit hi).symm.trans (hinit hj))

/-- A piece that stands on a board after a step stood there before. -/
theorem onBoard_step {t t' : Table} {l : Option (Side × ℤ × ℤ)} (htidy : ∀ f, Tidy (t f))
    (hs : Table.Step t l t') {f : Side} {p : PieceRef} {j : ℤ} (hp : (t' f).cells j = some p) :
    ∃ i, (t f).cells i = some p := by
  cases hs with
  | idle => exact ⟨j, hp⟩
  | write g b rest =>
    unfold Table.transfer at hp
    split at hp
    · exact ⟨j, hp⟩
    · exact ⟨j, hp⟩
  | read g b rest =>
    obtain rfl | rfl := g.eq_or_eq_other f
    · exact ⟨j, by simpa using hp⟩
    · exact ⟨j, by simpa using hp⟩
  | event g l s _ hevent =>
    obtain rfl | rfl := g.eq_or_eq_other f
    · rw [Function.update_self] at hp
      -- an event creates no piece
      obtain heq | ⟨o, n, q, hq, hcases⟩ := cells_event hevent (htidy f)
      · exact ⟨j, heq ▸ hp⟩
      · obtain ⟨-, rfl⟩ | ⟨-, hj⟩ := hcases hp
        · exact ⟨o, hq⟩
        · exact ⟨j, hj⟩
    · exact ⟨j, by simpa using hp⟩

/-- Nobody changes color. -/
theorem player_step {t t' : Table} {l : Option (Side × ℤ × ℤ)} (hs : Table.Step t l t')
    (f : Side) : (t' f).player = (t f).player := by
  cases hs with
  | idle => rfl
  | write g b rest => unfold Table.transfer; split <;> rfl
  | read g b rest => obtain rfl | rfl := g.eq_or_eq_other f <;> simp
  | event g l s _ hevent =>
    obtain rfl | rfl := g.eq_or_eq_other f
    · rw [Function.update_self]
      cases hevent with
      | idle => simp
      | press => simp [Seat.press]
      | cancel => simp [Seat.cancel]
      | accept => simp [Seat.accept]
      | poll _ hpoll =>
        obtain ⟨-, rfl⟩ | ⟨b, rest, -, hparse⟩ := Seat.poll_cases hpoll
        · simp
        · simpa using (Seat.parse_frame hparse).1
    · simp

end LCChess
