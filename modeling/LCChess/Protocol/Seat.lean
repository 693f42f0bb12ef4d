import LCChess.Program.MainLoop

/-!
# The protocol of a game

What one end of a game does, as seen from the serial line: its turn, its parser, its drag, the
64 cells and the bytes in its buffers. Pixels, memory outside the board and the animation are
abstracted away: a seat may press any own piece and drop it on any cell without a piece of its
own color. The program is one such seat.

## Main definitions

* `Seat`: the abstract state of one end
* `Seat.parse`, `Seat.poll`: the message parser
* `Seat.Event`: the events of a seat, labelled with the move they make
* `message o n`: the bytes that announce the move from cell `o` to cell `n`
* `settle s bytes`: the seat after the parser has read `bytes`

## Main results

* `byteCell_cellByte`: a position byte is decoded to the cell it encodes
* `settle_message`: a message is decoded to its move
-/

namespace LCChess

/-- The cell `i` is one of the 64 cells of the board. -/
def IsCell (i : ℤ) : Prop := 0 ≤ i ∧ i < 64

instance (i : ℤ) : Decidable (IsCell i) := by unfold IsCell; infer_instance

/-- The type of the `k`-th piece `initBoard` creates. -/
def kind (p : PieceRef) : PieceType := ((initialPieces.map Prod.fst)[p]?).getD .bPawn

/-- The cell in a position byte. -/
def byteCell (b : UInt8) : ℤ := moveCell (positionRow b) (positionCol b)

/-- The position byte of a cell. -/
def cellByte (i : ℤ) : UInt8 := positionByte (i % 8).toNat (i / 8).toNat

/-- The bytes that announce the move from cell `o` to cell `n`. -/
def message (o n : ℤ) : List UInt8 := [beginMessage, cellByte o, cellByte n, yourTurn]

/-- Adding a byte to a queue of capacity ten: a full queue drops it. -/
def enqueue (l : List UInt8) (b : UInt8) : List UInt8 := if l.length < 10 then l ++ [b] else l

/-- One end of a game. -/
structure Seat where
  gameState : GameState
  player : Player
  myTurn : Bool
  endGame : Bool
  won : Bool
  byteOfMove : ℕ
  /-- The cell in the first position byte of the current message. -/
  origin : ℤ
  dragging : Option PieceRef
  /-- The cell the dragged piece was pressed on. -/
  inicial : ℤ
  cells : ℤ → Option PieceRef
  transmit : List UInt8
  receive : List UInt8
  line : List UInt8

namespace Seat

/-- Move the piece `p` from cell `o` to cell `n` as the mover does. -/
def moveFrom (cells : ℤ → Option PieceRef) (o n : ℤ) (p : PieceRef) : ℤ → Option PieceRef :=
  Function.update (Function.update cells o none) n (some p)

/-- Move the piece `p` from cell `o` to cell `n` as the receiver does. -/
def moveTo (cells : ℤ → Option PieceRef) (o n : ℤ) (p : PieceRef) : ℤ → Option PieceRef :=
  Function.update (Function.update cells n (some p)) o none

/-- A king stands in cell `i`. -/
def kingAt (cells : ℤ → Option PieceRef) (i : ℤ) : Bool :=
  match cells i with
  | some q => (kind q).isKing
  | none => false

/-- The winner leaves. -/
def leave (s : Seat) : Seat :=
  if s.endGame then { s with won := true, gameState := .exit } else s

/-- Press the piece `p` in cell `i`. -/
def press (s : Seat) (p : PieceRef) (i : ℤ) : Seat := { s with dragging := some p, inicial := i }

/-- Put the dragged piece back. -/
def cancel (s : Seat) : Seat := { s with dragging := none }

/-- Drop the dragged piece `p` on cell `i`: the move is made and announced. -/
def accept (s : Seat) (p : PieceRef) (i : ℤ) : Seat :=
  { s with
    dragging := none
    endGame := s.endGame || kingAt s.cells i
    cells := moveFrom s.cells s.inicial i p
    transmit := (message s.inicial i).foldl enqueue s.transmit
    myTurn := false }

/-- Apply the received move to cell `n`; there is none without a piece in the origin. -/
def receiveMove (s : Seat) (n : ℤ) : Option Seat :=
  match s.cells s.origin with
  | none => none
  | some p =>
    some { s with
      gameState := if kingAt s.cells n then .exit else s.gameState
      won := if kingAt s.cells n then false else s.won
      cells := moveTo s.cells s.origin n p }

/-- The message parser. -/
def parse (s : Seat) (b : UInt8) : Option Seat :=
  if b = beginMessage then some { s with byteOfMove := 0 }
  else if b = yourTurn then some { s with myTurn := true }
  else if b = 0 then some s
  else if s.byteOfMove = 0 then some { s with origin := byteCell b, byteOfMove := 1 }
  else s.receiveMove (byteCell b)

/-- Poll the receive queue, and parse the byte it answers. -/
def poll (s : Seat) : Option Seat :=
  match s.receive with
  | [] => some s
  | b :: rest => { s with receive := rest }.parse b

/-- The events of a seat in a game, labelled with the cells of the move they make. -/
inductive Event : Seat → Option (ℤ × ℤ) → Seat → Prop
  /-- A frame without a byte, the cursor or the keyboard. -/
  | idle (s : Seat) : Event s none s.leave
  | press (s : Seat) (p : PieceRef) (i : ℤ) : s.dragging = none → s.myTurn = true → IsCell i →
      s.cells i = some p → owns s.player (kind p) = true → Event s none (s.leave.press p i)
  | cancel (s : Seat) (p : PieceRef) : s.dragging = some p → Event s none s.leave.cancel
  | accept (s : Seat) (p : PieceRef) (i : ℤ) : s.dragging = some p → IsCell i →
      (∀ q, s.cells i = some q → sameTeam (kind p) (kind q) = false) →
      Event s (some (s.inicial, i)) (s.leave.accept p i)
  | poll (s s' : Seat) : s.leave.poll = some s' → Event s none s'

end Seat

/-! ## Position bytes -/

theorem positionRow_le (b : UInt8) : (positionRow b).toNat ≤ 7 := by
  simpa [positionRow, rowMask] using Nat.and_le_right (n := b.toNat) (m := 7)

theorem positionCol_le (b : UInt8) : (positionCol b).toNat ≤ 7 := by
  -- the mask of the column keeps bits 3 to 5
  have hand := Nat.and_le_right (n := b.toNat) (m := 56)
  simp only [positionCol, colMask, UInt8.toNat_shiftRight, UInt8.toNat_and, UInt8.reduceToNat,
    Nat.reduceMod, Nat.shiftRight_eq_div_pow]
  omega

/-- A position byte always names a cell. -/
theorem isCell_byteCell (b : UInt8) : IsCell (byteCell b) := by
  have hrow := positionRow_le b
  have hcol := positionCol_le b
  simp only [IsCell, byteCell, moveCell]
  omega

/-- A property of the 64 cells is checked cell by cell. -/
theorem forall_isCell {p : ℤ → Prop} (h : ∀ k : Fin 64, p (k : ℕ)) {i : ℤ} (hi : IsCell i) :
    p i := by
  obtain ⟨h0, h64⟩ := hi
  have := h ⟨i.toNat, by omega⟩
  rwa [Int.toNat_of_nonneg h0] at this

/-- A position byte is decoded to the cell it encodes. -/
theorem byteCell_cellByte {i : ℤ} (h : IsCell i) : byteCell (cellByte i) = i :=
  forall_isCell (p := fun i => byteCell (cellByte i) = i) (by decide) h

/-- The position byte of a cell is no control byte, and it is `0` for the first cell alone. -/
theorem cellByte_spec {i : ℤ} (h : IsCell i) :
    cellByte i ≠ beginMessage ∧ cellByte i ≠ yourTurn ∧ (cellByte i = 0 ↔ i = 0) :=
  forall_isCell
    (p := fun i => cellByte i ≠ beginMessage ∧ cellByte i ≠ yourTurn ∧ (cellByte i = 0 ↔ i = 0))
    (by decide) h

namespace Seat

/-! ## What an event leaves alone -/

@[simp] theorem leave_of_endGame {s : Seat} (h : s.endGame = false) : s.leave = s := by
  simp [leave, h]

section Leave

variable (s : Seat)

@[simp] theorem player_leave : s.leave.player = s.player := by unfold leave; split <;> rfl
@[simp] theorem myTurn_leave : s.leave.myTurn = s.myTurn := by unfold leave; split <;> rfl
@[simp] theorem endGame_leave : s.leave.endGame = s.endGame := by unfold leave; split <;> rfl
@[simp] theorem byteOfMove_leave : s.leave.byteOfMove = s.byteOfMove := by
  unfold leave; split <;> rfl
@[simp] theorem origin_leave : s.leave.origin = s.origin := by unfold leave; split <;> rfl
@[simp] theorem dragging_leave : s.leave.dragging = s.dragging := by unfold leave; split <;> rfl
@[simp] theorem inicial_leave : s.leave.inicial = s.inicial := by unfold leave; split <;> rfl
@[simp] theorem cells_leave : s.leave.cells = s.cells := by unfold leave; split <;> rfl
@[simp] theorem transmit_leave : s.leave.transmit = s.transmit := by unfold leave; split <;> rfl
@[simp] theorem receive_leave : s.leave.receive = s.receive := by unfold leave; split <;> rfl
@[simp] theorem line_leave : s.leave.line = s.line := by unfold leave; split <;> rfl

end Leave

/-! ## Single bytes -/

theorem parse_beginMessage (s : Seat) : s.parse beginMessage = some { s with byteOfMove := 0 } :=
  if_pos rfl

theorem parse_yourTurn (s : Seat) : s.parse yourTurn = some { s with myTurn := true } := by
  rw [parse, if_neg (by decide), if_pos rfl]

/-- The answer of an empty queue. -/
theorem parse_zero (s : Seat) : s.parse 0 = some s := by
  rw [parse, if_neg (by decide), if_neg (by decide), if_pos rfl]

/-- The byte of a cell other than the first one is the origin or the destination of a move. -/
theorem parse_cellByte (s : Seat) {i : ℤ} (hi : IsCell i) (hne : i ≠ 0) :
    s.parse (cellByte i) =
      if s.byteOfMove = 0 then some { s with origin := i, byteOfMove := 1 }
      else s.receiveMove i := by
  obtain ⟨hbegin, hturn, hzero⟩ := cellByte_spec hi
  rw [parse, if_neg hbegin, if_neg hturn, if_neg fun h => hne (hzero.mp h), byteCell_cellByte hi]

/-- What the parser does with a byte. -/
theorem parse_cases {s s' : Seat} {b : UInt8} (h : s.parse b = some s') :
    (b = beginMessage ∧ s' = { s with byteOfMove := 0 }) ∨
      (b = yourTurn ∧ s' = { s with myTurn := true }) ∨
      (b = 0 ∧ s' = s) ∨
      ((b ≠ beginMessage ∧ b ≠ yourTurn ∧ b ≠ 0) ∧ s.byteOfMove = 0 ∧
        s' = { s with origin := byteCell b, byteOfMove := 1 }) ∨
      ((b ≠ beginMessage ∧ b ≠ yourTurn ∧ b ≠ 0) ∧ s.byteOfMove ≠ 0 ∧
        s.receiveMove (byteCell b) = some s') := by
  unfold parse at h
  split_ifs at h with h1 h2 h3 h4
  · exact .inl ⟨h1, (Option.some.inj h).symm⟩
  · exact .inr (.inl ⟨h2, (Option.some.inj h).symm⟩)
  · exact .inr (.inr (.inl ⟨h3, (Option.some.inj h).symm⟩))
  · exact .inr (.inr (.inr (.inl ⟨⟨h1, h2, h3⟩, h4, (Option.some.inj h).symm⟩)))
  · exact .inr (.inr (.inr (.inr ⟨⟨h1, h2, h3⟩, h4, h⟩)))

/-- A received move moves the piece in the origin. -/
theorem receiveMove_cases {s s' : Seat} {n : ℤ} (h : s.receiveMove n = some s') :
    ∃ p, s.cells s.origin = some p ∧ s' = { s with
      gameState := if kingAt s.cells n then .exit else s.gameState
      won := if kingAt s.cells n then false else s.won
      cells := moveTo s.cells s.origin n p } := by
  unfold receiveMove at h
  split at h
  · cases h
  · rename_i p hp
    exact ⟨p, hp, (Option.some.inj h).symm⟩

/-- The fields a received byte cannot change. -/
theorem parse_frame {s s' : Seat} {b : UInt8} (h : s.parse b = some s') :
    s'.player = s.player ∧ s'.endGame = s.endGame ∧ s'.dragging = s.dragging ∧
      s'.inicial = s.inicial ∧ s'.transmit = s.transmit ∧ s'.receive = s.receive ∧
      s'.line = s.line := by
  obtain ⟨-, rfl⟩ | ⟨-, rfl⟩ | ⟨-, rfl⟩ | ⟨-, -, rfl⟩ | ⟨-, -, hmove⟩ := parse_cases h
  · simp
  · simp
  · simp
  · simp
  · obtain ⟨p, -, rfl⟩ := receiveMove_cases hmove
    simp

/-- Only `YOUR_TURN` changes the turn. -/
theorem myTurn_parse {s s' : Seat} {b : UInt8} (h : s.parse b = some s') :
    s'.myTurn = (s.myTurn || b == yourTurn) := by
  obtain ⟨rfl, rfl⟩ | ⟨rfl, rfl⟩ | ⟨rfl, rfl⟩ | ⟨hb, -, rfl⟩ | ⟨hb, -, hmove⟩ := parse_cases h
  · simp [beginMessage, yourTurn]
  · simp
  · simp [yourTurn]
  · simp [hb]
  · obtain ⟨p, -, rfl⟩ := receiveMove_cases hmove
    simp [hb]

/-- A received byte leaves the cells alone, or moves the piece in the origin. -/
theorem cells_parse {s s' : Seat} {b : UInt8} (h : s.parse b = some s') :
    s'.cells = s.cells ∨
      ∃ p, s.cells s.origin = some p ∧ s'.cells = moveTo s.cells s.origin (byteCell b) p := by
  obtain ⟨-, rfl⟩ | ⟨-, rfl⟩ | ⟨-, rfl⟩ | ⟨-, -, rfl⟩ | ⟨-, -, hmove⟩ := parse_cases h
  · exact Or.inl rfl
  · exact Or.inl rfl
  · exact Or.inl rfl
  · exact Or.inl rfl
  · obtain ⟨p, hp, rfl⟩ := receiveMove_cases hmove
    exact Or.inr ⟨p, hp, rfl⟩

/-- A parsed byte comes from the queue. -/
theorem poll_cases {s s' : Seat} (h : s.poll = some s') :
    (s.receive = [] ∧ s' = s) ∨
      ∃ b rest, s.receive = b :: rest ∧ { s with receive := rest }.parse b = some s' := by
  unfold poll at h
  split at h
  · rename_i hr
    exact Or.inl ⟨hr, (Option.some.inj h).symm⟩
  · rename_i b rest hr
    exact Or.inr ⟨b, rest, hr, h⟩

/-- A byte leaves a game going on, or ends it. -/
theorem gameState_parse {s s' : Seat} {b : UInt8} (h : s.parse b = some s')
    (hs : s.gameState = .playing ∨ s.gameState = .exit) :
    s'.gameState = .playing ∨ s'.gameState = .exit := by
  obtain ⟨-, rfl⟩ | ⟨-, rfl⟩ | ⟨-, rfl⟩ | ⟨-, -, rfl⟩ | ⟨-, -, hmove⟩ := parse_cases h
  · exact hs
  · exact hs
  · exact hs
  · exact hs
  · obtain ⟨p, -, rfl⟩ := receiveMove_cases hmove
    dsimp only
    split
    · exact Or.inr rfl
    · exact hs

/-- A game goes on, or is left. -/
theorem Event.gameState {s s' : Seat} {l : Option (ℤ × ℤ)} (h : Event s l s')
    (hs : s.gameState = .playing ∨ s.gameState = .exit) :
    s'.gameState = .playing ∨ s'.gameState = .exit := by
  have hleave : s.leave.gameState = .playing ∨ s.leave.gameState = .exit := by
    unfold leave
    split
    · exact Or.inr rfl
    · exact hs
  cases h with
  | idle => exact hleave
  | press => exact hleave
  | cancel => exact hleave
  | accept => exact hleave
  | poll _ hpoll =>
    obtain ⟨-, rfl⟩ | ⟨b, rest, -, hparse⟩ := poll_cases hpoll
    · exact hleave
    · exact gameState_parse hparse hleave

/-- An event that makes no move does not give the turn away. -/
theorem Event.myTurn_of_none {s s' : Seat} (h : Event s none s') (ht : s.myTurn = true) :
    s'.myTurn = true := by
  cases h with
  | idle => simpa using ht
  | press => simpa [Seat.press] using ht
  | cancel => simpa [Seat.cancel] using ht
  | poll _ hpoll =>
    obtain ⟨-, rfl⟩ | ⟨b, rest, -, hparse⟩ := poll_cases hpoll
    · simpa using ht
    · simp [myTurn_parse hparse, ht]

/-- A piece is dragged only with the turn: a press asks for it, and an accepted move ends the
drag. -/
theorem Event.turn_of_dragging {s s' : Seat} {l : Option (ℤ × ℤ)} (h : Event s l s')
    (ht : ∀ p, s.dragging = some p → s.myTurn = true) :
    ∀ p, s'.dragging = some p → s'.myTurn = true := by
  intro p hp
  cases h with
  | idle => simpa using ht p (by simpa using hp)
  | press q i _ hturn => simpa [Seat.press] using hturn
  | cancel q hq => simp [Seat.cancel] at hp
  | accept q i hq => simp [Seat.accept] at hp
  | poll _ hpoll =>
    obtain ⟨-, rfl⟩ | ⟨b, rest, -, hparse⟩ := poll_cases hpoll
    · simpa using ht p (by simpa using hp)
    · obtain ⟨-, -, hdrag, -⟩ := parse_frame hparse
      have hturn := ht p (by simpa [hdrag] using hp)
      simp [myTurn_parse hparse, hturn]

/-- An event that makes a move drops the dragged piece and gives the turn away. -/
theorem Event.of_some {s s' : Seat} {m : ℤ × ℤ} (h : Event s (some m) s') :
    s'.myTurn = false ∧ ∃ p, s.dragging = some p := by
  cases h with
  | accept p i hp => exact ⟨rfl, p, hp⟩

/-- A queue with room takes a whole message. -/
theorem foldl_enqueue {l bs : List UInt8} (h : l.length + bs.length ≤ 10) :
    bs.foldl enqueue l = l ++ bs := by
  induction bs generalizing l with
  | nil => simp
  | cons b bs ih =>
    simp only [List.length_cons] at h
    rw [List.foldl_cons, enqueue, if_pos (by omega), ih (by simp; omega)]
    simp

end Seat

/-! ## Whole messages -/

/-- The seat after the parser has read the bytes. -/
def settle (s : Seat) (bytes : List UInt8) : Option Seat := bytes.foldlM Seat.parse s

/-- A seat with another drag and other buffers. -/
def Seat.withBuffers (s : Seat) (b : Seat) : Seat :=
  { s with
    dragging := b.dragging
    inicial := b.inicial
    transmit := b.transmit
    receive := b.receive
    line := b.line }

/-- The drag and the buffers of a seat do not matter to the parser. -/
theorem parse_withBuffers (s r : Seat) (b : UInt8) :
    (s.withBuffers r).parse b = (s.parse b).map fun s' => s'.withBuffers r := by
  -- a received move reads the cells and the origin only
  have hmove : (s.withBuffers r).receiveMove (byteCell b) =
      (s.receiveMove (byteCell b)).map fun s' => s'.withBuffers r := by
    unfold Seat.receiveMove Seat.withBuffers
    dsimp only
    cases s.cells s.origin <;> rfl
  by_cases hbyte : s.byteOfMove = 0
  · have hbyte' : (s.withBuffers r).byteOfMove = 0 := hbyte
    simp only [Seat.parse, hbyte, hbyte', if_true]
    split_ifs <;> rfl
  · have hbyte' : (s.withBuffers r).byteOfMove ≠ 0 := hbyte
    simp only [Seat.parse, hbyte, hbyte', if_false, hmove]
    split_ifs <;> rfl

theorem settle_withBuffers (s r : Seat) (bytes : List UInt8) :
    settle (s.withBuffers r) bytes = (settle s bytes).map fun s' => s'.withBuffers r := by
  induction bytes generalizing s with
  | nil => rfl
  | cons b bytes ih =>
    simp only [settle, List.foldlM_cons, parse_withBuffers]
    cases s.parse b with
    | none => rfl
    | some s' => exact ih s'

/-- Both ends update their cells alike. -/
theorem moveFrom_eq_moveTo {o n : ℤ} (h : o ≠ n) (cells : ℤ → Option PieceRef) (p : PieceRef) :
    Seat.moveFrom cells o n p = Seat.moveTo cells o n p := by
  unfold Seat.moveFrom Seat.moveTo
  exact Function.update_comm h _ _ _

/-- The seat that has received the move of the piece `p` from cell `o` to cell `n`. -/
def Seat.received (s : Seat) (o n : ℤ) (p : PieceRef) : Seat :=
  { s with
    byteOfMove := 1
    origin := o
    gameState := if Seat.kingAt s.cells n then .exit else s.gameState
    won := if Seat.kingAt s.cells n then false else s.won
    cells := Seat.moveTo s.cells o n p
    myTurn := true }

/-- **A message is decoded to its move**, unless it names the first cell. -/
theorem settle_message {s : Seat} {o n : ℤ} {p : PieceRef} (ho : IsCell o) (hn : IsCell n)
    (ho0 : o ≠ 0) (hn0 : n ≠ 0) (hp : s.cells o = some p) :
    settle s (message o n) = some (s.received o n p) := by
  -- `BEGIN_MESSAGE` has reset the count, so this byte is the origin
  have horigin : ({ s with byteOfMove := 0 } : Seat).parse (cellByte o) =
      some { s with origin := o, byteOfMove := 1 } := by
    rw [Seat.parse_cellByte _ ho ho0, if_pos rfl]
  -- and this one is the destination
  have hmove : ({ s with origin := o, byteOfMove := 1 } : Seat).parse (cellByte n) = some { s with
      byteOfMove := 1
      origin := o
      gameState := if Seat.kingAt s.cells n then .exit else s.gameState
      won := if Seat.kingAt s.cells n then false else s.won
      cells := Seat.moveTo s.cells o n p } := by
    rw [Seat.parse_cellByte _ hn hn0, if_neg one_ne_zero]
    simp only [Seat.receiveMove, hp]
  simp only [settle, message, List.foldlM_cons, List.foldlM_nil, Seat.parse_beginMessage,
    Option.bind_eq_bind, Option.bind_some, horigin, hmove, Seat.parse_yourTurn]
  rfl

/-- **A message that names the first cell is not decoded**: the parser takes its byte for the
answer of an empty queue, and only the turn is passed on. -/
theorem settle_message_first {s : Seat} {o n : ℤ} (ho : IsCell o) (hn : IsCell n)
    (hfirst : o = 0 ∨ n = 0) : ∃ byteOfMove origin, settle s (message o n) =
      some { s with byteOfMove := byteOfMove, origin := origin, myTurn := true } := by
  have horigin : ∀ {i : ℤ}, IsCell i → i ≠ 0 →
      ({ s with byteOfMove := 0 } : Seat).parse (cellByte i) =
        some { s with origin := i, byteOfMove := 1 } := by
    intro i hi hne
    rw [Seat.parse_cellByte _ hi hne, if_pos rfl]
  have hcell : cellByte 0 = 0 := by decide
  -- the other byte, if there is one, is taken for the first of a move
  rcases eq_or_ne o 0 with rfl | ho0
  · rcases eq_or_ne n 0 with rfl | hn0
    · refine ⟨0, s.origin, ?_⟩
      simp only [settle, message, List.foldlM_cons, List.foldlM_nil, Seat.parse_beginMessage, hcell,
        Seat.parse_zero, Seat.parse_yourTurn, Option.bind_eq_bind, Option.bind_some]
      rfl
    · refine ⟨1, n, ?_⟩
      simp only [settle, message, List.foldlM_cons, List.foldlM_nil, Seat.parse_beginMessage, hcell,
        Seat.parse_zero, horigin hn hn0, Seat.parse_yourTurn, Option.bind_eq_bind,
        Option.bind_some]
      rfl
  · obtain rfl : n = 0 := hfirst.resolve_left ho0
    refine ⟨1, o, ?_⟩
    simp only [settle, message, List.foldlM_cons, List.foldlM_nil, Seat.parse_beginMessage, hcell,
      Seat.parse_zero, horigin ho ho0, Seat.parse_yourTurn, Option.bind_eq_bind, Option.bind_some]
    rfl

/-- A game is left at a received byte by the loser. -/
theorem Seat.won_parse {s s' : Seat} {b : UInt8} (h : s.parse b = some s')
    (hplay : s.gameState = .playing) : s'.gameState = .exit → s'.won = false := by
  obtain ⟨-, rfl⟩ | ⟨-, rfl⟩ | ⟨-, rfl⟩ | ⟨-, -, rfl⟩ | ⟨-, -, hmove⟩ := Seat.parse_cases h
  · simp [hplay]
  · simp [hplay]
  · simp [hplay]
  · simp [hplay]
  · obtain ⟨p, -, rfl⟩ := Seat.receiveMove_cases hmove
    dsimp only
    split
    · exact fun _ => rfl
    · simp [hplay]

/-- Nothing the parser reads brings a seat back into the game. -/
theorem exit_settle {s s' : Seat} {bytes : List UInt8} (h : settle s bytes = some s')
    (hexit : s.gameState = .exit) : s'.gameState = .exit := by
  induction bytes generalizing s with
  | nil =>
    obtain rfl := Option.some.inj h
    exact hexit
  | cons b bytes ih =>
    -- the first byte leads to `r`, the others lead from there
    obtain ⟨r, hr, hr'⟩ := Option.bind_eq_some_iff.mp ((List.foldlM_cons ..).symm.trans h)
    apply ih hr'
    obtain ⟨-, rfl⟩ | ⟨-, rfl⟩ | ⟨-, rfl⟩ | ⟨-, -, rfl⟩ | ⟨-, -, hmove⟩ := Seat.parse_cases hr
    · exact hexit
    · exact hexit
    · exact hexit
    · exact hexit
    · obtain ⟨p, -, rfl⟩ := Seat.receiveMove_cases hmove
      simp [hexit]

/-- What the parser never changes. -/
theorem settle_frame {s s' : Seat} {bytes : List UInt8} (h : settle s bytes = some s') :
    s'.player = s.player ∧ s'.endGame = s.endGame ∧ s'.dragging = s.dragging ∧
      s'.transmit = s.transmit := by
  induction bytes generalizing s with
  | nil =>
    obtain rfl := Option.some.inj h
    exact ⟨rfl, rfl, rfl, rfl⟩
  | cons b bytes ih =>
    obtain ⟨r, hr, hr'⟩ := Option.bind_eq_some_iff.mp ((List.foldlM_cons ..).symm.trans h)
    obtain ⟨hplayer, hend, hdrag, -, htransmit, -⟩ := Seat.parse_frame hr
    obtain ⟨hplayer', hend', hdrag', htransmit'⟩ := ih hr'
    exact ⟨hplayer'.trans hplayer, hend'.trans hend, hdrag'.trans hdrag,
      htransmit'.trans htransmit⟩

end LCChess
