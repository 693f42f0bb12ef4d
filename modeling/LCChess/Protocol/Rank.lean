import LCChess.Protocol.Meeting

/-!
# What is left to do

A session waits for its users, and for the line and the timer to serve its ends. A rank counts what
is still to do: the way that is left to every byte, the menus that are left to every end, and the
message of the move that an end with the turn may make. The steps of the game, of the menus and of
the serial port lower it, or leave everything as it is that somebody waits for.

## Main definitions

* `Service`: what the line and the timer do for an end
* `Seat.weight`: what is left to do for a seat
* `Table.rank`, `Table.service`: what is left to do, and what helps to do it
* `Table.Advances t t'`: something has been done between `t` and `t'`, or nothing

## Main results

* `advances_write`, `advances_read`: the steps of the serial port
* `Seat.Event.lighter`, `Seat.MenuEvent.lighter`: the events of an end
-/

namespace LCChess

/-! ## What is left to do -/

/-- What the line and the timer do for an end. -/
inductive Service
  /-- The transmitter of the end is ready for a byte. -/
  | write (e : Side)
  /-- A byte of the line has arrived at the end. -/
  | read (e : Side)
  /-- The end handles a frame. -/
  | frame (e : Side)

/-- The actions that do a service. -/
def Service.DoneBy (a : Side × Action) : Service → Prop
  | .write e => ∃ lsr, a = (e, .spWrite lsr) ∧ spCheckWrite lsr = true
  | .read e => a = (e, .spRead true)
  | .frame e => ∃ k, a = (e, .event k .newFrame)

/-- What is left to do in the menus and in a move of the seat. A move takes four bytes, and may
win the game. -/
def Seat.load (s : Seat) : ℕ :=
  match s.gameState with
  | .waiting => 24
  | .choosingPlayer => 20
  | .waitChoosingPlayer => 2
  | .playing => (if s.myTurn then 14 else 0) + if s.endGame then 1 else 0
  | .start | .exit => 0

/-- The load and the buffers of a seat. -/
def Seat.weight (s : Seat) : ℕ :=
  s.load + 3 * s.transmit.length + 2 * s.line.length + s.receive.length

/-- The way that is left to the bytes for the seat `e`, if it still reads them. -/
def backlog (t : Table) (e : Side) : ℕ :=
  if (t e).gameState = .exit then 0
  else 3 * (t e.other).transmit.length + 2 * (t e).line.length + (t e).receive.length

namespace Table

/-- What is left to do. -/
def rank (t : Table) : ℕ := (t .left).load + (t .right).load + backlog t .left + backlog t .right

/-- What brings the bytes for `e` on their way. -/
def wants (t : Table) (e : Side) : Option Service :=
  if (t e).gameState = .exit then none
  else if (t e).receive ≠ [] then some (.frame e)
  else if (t e).line ≠ [] then some (.read e)
  else if (t e.other).transmit ≠ [] then some (.write e.other)
  else none

/-- The service that helps next: one for a byte, or the frame in which the winner leaves. -/
def service (t : Table) : Service :=
  ((t.wants .left).or (t.wants .right)).getD
    (.frame (if (t .left).gameState = .exit then .right else .left))

/-- Nothing has been done between `t` and `t'`. -/
structure Still (t t' : Table) : Prop where
  state : ∀ e, (t' e).gameState = (t e).gameState
  rank : t'.rank = t.rank
  transmit : ∀ e, (t e.other).gameState ≠ .exit → (t' e).transmit = (t e).transmit
  line : ∀ e, (t e).gameState ≠ .exit → (t' e).line = (t e).line
  receive : ∀ e, (t e).gameState ≠ .exit → (t' e).receive = (t e).receive

/-- Something has been done between `t` and `t'`, or nothing. -/
def Advances (t t' : Table) : Prop := t'.rank < t.rank ∨ Still t t'

variable {t t' : Table}

theorem rank_eq (t : Table) (e : Side) :
    t.rank = (t e).load + (t e.other).load + backlog t e + backlog t e.other := by
  cases e with
  | left => rfl
  | right =>
    simp only [rank, Side.other]
    omega

theorem Still.refl (t : Table) : Still t t :=
  ⟨fun _ => rfl, rfl, fun _ _ => rfl, fun _ _ => rfl, fun _ _ => rfl⟩

/-- What helps next depends on what has been done. -/
theorem Still.service (h : Still t t') : t'.service = t.service := by
  have hwants : ∀ e, t'.wants e = t.wants e := by
    intro e
    unfold wants
    rw [h.state]
    by_cases hexit : (t e).gameState = .exit
    · rw [if_pos hexit, if_pos hexit]
    · rw [h.receive e hexit, h.line e hexit, h.transmit e.other (by rwa [Side.other_other])]
  unfold Table.service
  rw [hwants, hwants, h.state]

end Table

/-! ## A step of one end -/

/-- A queue takes a byte at most once. -/
theorem length_enqueue_le (l : List UInt8) (b : UInt8) : (enqueue l b).length ≤ l.length + 1 := by
  unfold enqueue
  split
  · simp
  · omega

theorem length_foldl_enqueue_le (bytes l : List UInt8) :
    (bytes.foldl enqueue l).length ≤ l.length + bytes.length := by
  induction bytes generalizing l with
  | nil => exact Nat.le_refl _
  | cons b bytes ih =>
    have hb := length_enqueue_le l b
    have := ih (enqueue l b)
    simp only [List.foldl_cons, List.length_cons]
    omega

/-- Between `s` and `s'` the seat has done something, or changed nothing that others wait for. -/
def Seat.Lighter (s s' : Seat) : Prop :=
  s.transmit.length ≤ s'.transmit.length ∧ s'.weight < s.weight ∨
    s'.gameState = s.gameState ∧ s'.load = s.load ∧ s'.transmit = s.transmit ∧
      s'.line = s.line ∧ s'.receive = s.receive

section Steps

variable {t : Table} {e : Side}

/-- The rank after one end has changed. -/
theorem rank_update (t : Table) (e : Side) (s : Seat) :
    Table.rank (Function.update t e s) = s.load + (t e.other).load +
      (if s.gameState = .exit then 0
        else 3 * (t e.other).transmit.length + 2 * s.line.length + s.receive.length) +
      if (t e.other).gameState = .exit then 0
        else 3 * s.transmit.length + 2 * (t e.other).line.length + (t e.other).receive.length := by
  rw [Table.rank_eq _ e]
  simp [backlog]

/-- One end changes in what nobody waits for. -/
theorem still_update {s : Seat} (hstate : s.gameState = (t e).gameState)
    (hload : s.load = (t e).load) (htransmit : s.transmit = (t e).transmit)
    (hread : (t e).gameState ≠ .exit → s.line = (t e).line ∧ s.receive = (t e).receive) :
    Table.Still t (Function.update t e s) where
  state f := by
    obtain rfl | rfl := e.eq_or_eq_other f
    · rwa [Function.update_self]
    · rw [Function.update_of_ne (Side.other_ne e)]
  rank := by
    rw [rank_update, Table.rank_eq t e, hstate, hload, htransmit, backlog, backlog,
      Side.other_other]
    by_cases hexit : (t e).gameState = .exit
    · rw [if_pos hexit, if_pos hexit]
    · rw [(hread hexit).1, (hread hexit).2]
  transmit f _ := by
    obtain rfl | rfl := e.eq_or_eq_other f
    · rwa [Function.update_self]
    · rw [Function.update_of_ne (Side.other_ne e)]
  line f hf := by
    obtain rfl | rfl := e.eq_or_eq_other f
    · rw [Function.update_self, (hread hf).1]
    · rw [Function.update_of_ne (Side.other_ne e)]
  receive f hf := by
    obtain rfl | rfl := e.eq_or_eq_other f
    · rw [Function.update_self, (hread hf).2]
    · rw [Function.update_of_ne (Side.other_ne e)]

/-- An event of one end. -/
theorem Seat.Lighter.advances {s : Seat} (h : (t e).Lighter s)
    (hgoing : (t e).gameState ≠ .exit) : Table.Advances t (Function.update t e s) := by
  obtain ⟨htransmit, hweight⟩ | ⟨hstate, hload, htransmit, hline, hreceive⟩ := h
  · left
    rw [rank_update, Table.rank_eq t e, backlog, backlog, Side.other_other, if_neg hgoing]
    simp only [Seat.weight] at hweight
    split_ifs <;> omega
  · exact .inr (still_update hstate hload htransmit fun _ => ⟨hline, hreceive⟩)

/-- A byte is read from the UART, or dropped by a full queue. -/
theorem advances_read {b : UInt8} {rest : List UInt8} (hb : (t e).line = b :: rest) :
    Table.Advances t (Function.update t e
      { t e with line := rest, receive := enqueue (t e).receive b }) := by
  by_cases hexit : (t e).gameState = .exit
  · exact .inr (still_update rfl rfl rfl fun hgoing => absurd hexit hgoing)
  · have hlen := length_enqueue_le (t e).receive b
    have hlighter : (t e).Lighter
        { t e with line := rest, receive := enqueue (t e).receive b } := by
      refine .inl ⟨Nat.le_refl _, ?_⟩
      simp only [Seat.weight, Seat.load, hb, List.length_cons]
      omega
    exact hlighter.advances hexit

/-- A byte leaves a transmit queue. -/
theorem advances_write {b : UInt8} {rest : List UInt8} (hb : (t e).transmit = b :: rest) :
    Table.Advances t (t.transfer e b rest) := by
  have hself : t.transfer e b rest e = { t e with transmit := rest } := if_pos rfl
  have hother : t.transfer e b rest e.other =
      { t e.other with line := (t e.other).line ++ [b] } := if_neg (Side.other_ne e)
  have hrank := (t.transfer e b rest).rank_eq e
  have hrank' := t.rank_eq e
  simp only [hself, hother, backlog, Side.other_other, Seat.load, List.length_append,
    List.length_singleton] at hrank
  simp only [backlog, Side.other_other, Seat.load, hb, List.length_cons] at hrank'
  by_cases hexit : (t e.other).gameState = .exit
  -- nobody reads the byte
  · right
    refine ⟨fun f => ?_, ?_, fun f hf => ?_, fun f hf => ?_, fun f hf => ?_⟩
    · obtain rfl | rfl := e.eq_or_eq_other f
      · rw [hself]
      · rw [hother]
    · rw [hrank, hrank', if_pos hexit, if_pos hexit]
    · obtain rfl | rfl := e.eq_or_eq_other f
      · exact absurd hexit hf
      · rw [hother]
    · obtain rfl | rfl := e.eq_or_eq_other f
      · rw [hself]
      · exact absurd hexit hf
    · obtain rfl | rfl := e.eq_or_eq_other f
      · rw [hself]
      · rw [hother]
  · left
    rw [hrank, hrank', if_neg hexit, if_neg hexit]
    omega

end Steps

/-! ## The events of an end -/

namespace Seat

variable {s s' : Seat}

/-- `playing_ih` lets the winner leave first. -/
theorem lighter_leave (hplay : s.gameState = .playing) (dragging : Option PieceRef) (inicial : ℤ) :
    s.Lighter { s.leave with dragging := dragging, inicial := inicial } := by
  cases hend : s.endGame with
  | true =>
    left
    have hleave : s.leave = { s with won := true, gameState := .exit } := if_pos hend
    rw [hleave]
    simp [weight, load, hplay, hend]
  | false =>
    right
    rw [leave_of_endGame hend]
    exact ⟨rfl, rfl, rfl, rfl, rfl⟩

/-- A game that goes on may be left first. -/
theorem gameState_leave (hplay : s.gameState = .playing) :
    s.leave.gameState = .playing ∨ s.leave.gameState = .exit := by
  unfold leave
  split
  · exact .inr rfl
  · exact .inl hplay

/-- Without the turn there is at most the game to leave. -/
theorem load_le (hgame : s.gameState = .playing ∨ s.gameState = .exit)
    (hturn : s.gameState = .playing → s.myTurn = false) : s.load ≤ if s.endGame then 1 else 0 := by
  rcases hgame with hplay | hexit
  · simp [load, hplay, hturn hplay]
  · simp [load, hexit]

theorem load_le_one (hgame : s.gameState = .playing ∨ s.gameState = .exit)
    (hturn : s.gameState = .playing → s.myTurn = false) : s.load ≤ 1 := by
  refine (load_le hgame hturn).trans ?_
  split <;> decide

/-- The parser takes a byte. -/
theorem weight_poll (hplay : s.gameState = .playing) (hpoll : s.leave.poll = some s')
    (hne : s.receive ≠ []) (hturn : s'.gameState = .playing → s'.myTurn = false) :
    s.transmit.length ≤ s'.transmit.length ∧ s'.weight < s.weight := by
  obtain ⟨hnil, -⟩ | ⟨b, rest, hb, hparse⟩ := poll_cases hpoll
  · exact absurd (s.receive_leave.symm.trans hnil) hne
  · obtain ⟨-, hend, -, -, htransmit, hreceive, hline⟩ := parse_frame hparse
    simp only [endGame_leave, transmit_leave, line_leave] at hend htransmit hline
    have hload := load_le (gameState_parse hparse (gameState_leave hplay)) hturn
    have hload' : (if s.endGame then 1 else 0) ≤ s.load := by simp [load, hplay]
    rw [hend] at hload
    rw [receive_leave] at hb
    refine ⟨by rw [htransmit], ?_⟩
    simp only [weight, htransmit, hline, hreceive, hb, List.length_cons]
    omega

/-- **An event of the game**: only a byte brings the turn. -/
theorem Event.lighter {l : Option (ℤ × ℤ)} (h : Event s l s') (hplay : s.gameState = .playing)
    (hdrag : ∀ p, s.dragging = some p → s.myTurn = true)
    (hturn : s.receive ≠ [] → s'.gameState = .playing → s'.myTurn = false) : s.Lighter s' := by
  cases h with
  | idle => exact lighter_leave hplay s.leave.dragging s.leave.inicial
  | press p i => exact lighter_leave hplay (some p) i
  | cancel p => exact lighter_leave hplay none s.leave.inicial
  | accept p i hp =>
    -- the turn pays for the message and for the outcome
    have hload : 14 ≤ s.load := by simp [load, hplay, hdrag p hp]
    have hload' : (s.leave.accept p i).load ≤ 1 :=
      load_le_one (s := s.leave.accept p i) (gameState_leave hplay) fun _ => rfl
    have hsent := length_foldl_enqueue_le (message s.leave.inicial i) s.leave.transmit
    have hkept := (prefix_foldl_enqueue (message s.leave.inicial i) s.leave.transmit).length_le
    have htransmit : (s.leave.accept p i).transmit =
        (message s.leave.inicial i).foldl enqueue s.leave.transmit := by rw [Seat.accept]
    have hline : (s.leave.accept p i).line = s.line := s.line_leave
    have hreceive : (s.leave.accept p i).receive = s.receive := s.receive_leave
    rw [← htransmit, transmit_leave] at hsent hkept
    have hlen : (message s.leave.inicial i).length = 4 := rfl
    have hweight : (s.leave.accept p i).weight < s.weight := by
      simp only [weight, hline, hreceive]
      omega
    exact .inl ⟨hkept, hweight⟩
  | poll _ hpoll =>
    by_cases hnil : s.receive = []
    · obtain ⟨-, rfl⟩ | ⟨b, rest, hb, -⟩ := poll_cases hpoll
      · exact lighter_leave hplay s.leave.dragging s.leave.inicial
      · rw [receive_leave, hnil] at hb
        cases hb
    · exact .inl (weight_poll hplay hpoll hnil (hturn hnil))

/-- **An event in the menus**: the color that is read may bring the turn. -/
theorem MenuEvent.lighter {k : ℕ} (h : MenuEvent k s s') (hstart : s.gameState ≠ .start)
    (hturn : s.gameState = .waitChoosingPlayer → s'.gameState = .playing → s'.myTurn = false) :
    s.transmit.length ≤ s'.transmit.length ∧ s'.weight < s.weight ∨ s' = s := by
  induction h with
  | idle => exact .inr rfl
  | connect s hs => exact absurd hs hstart
  | wait s b rest hs hb =>
    left
    have hload : s.load = 24 := by simp [load, hs]
    have hsent := length_enqueue_le s.transmit receiveVmConnected
    have hkept := (prefix_enqueue s.transmit receiveVmConnected).length_le
    unfold answer
    split_ifs
    · refine ⟨hkept, ?_⟩
      simp only [weight, hload, hb, List.length_cons]
      simp only [load]
      omega
    · refine ⟨Nat.le_refl _, ?_⟩
      simp only [weight, hload, hb, List.length_cons]
      simp only [load]
      omega
    · refine ⟨Nat.le_refl _, ?_⟩
      simp only [weight, hload, hb, List.length_cons]
      simp only [load, hs]
      omega
  | choose s p hs =>
    left
    have hload : s.load = 20 := by simp [load, hs]
    have hsent := length_enqueue_le s.transmit p.colorByte
    refine ⟨(prefix_enqueue s.transmit p.colorByte).length_le, ?_⟩
    simp only [weight, hload]
    simp only [load]
    split_ifs <;> omega
  | fetch s s' b rest hs hb _ ih =>
    left
    have hread := length_enqueue_le s.receive b
    have hlighter : ({ s with line := rest, receive := enqueue s.receive b } : Seat).weight <
        s.weight := by
      simp only [weight, load, hb, List.length_cons]
      omega
    obtain ⟨htransmit, hweight⟩ | rfl := ih hstart hturn
    · exact ⟨htransmit, hweight.trans hlighter⟩
    · exact ⟨Nat.le_refl _, hlighter⟩
  | color s b rest hs hb =>
    left
    by_cases hzero : b = 0
    · rw [enter, if_pos hzero]
      refine ⟨Nat.le_refl _, ?_⟩
      simp only [weight, load, hb, List.length_cons]
      omega
    · rw [enter, if_neg hzero] at hturn ⊢
      refine ⟨Nat.le_refl _, ?_⟩
      have hload : s.load = 2 := by simp [load, hs]
      have hload' : load
          { s with
            receive := rest
            gameState := .playing
            player := if b = Player.white.toByte then .white else .black
            myTurn := b == Player.white.toByte } ≤ 1 :=
        load_le_one (.inl rfl) fun _ => hturn hs rfl
      simp only [weight, hload, hb, List.length_cons]
      omega

/-- Without a byte the color is still unknown. -/
theorem MenuEvent.eq_of_quiet {k : ℕ} (h : MenuEvent k s s')
    (hs : s.gameState = .waitChoosingPlayer) (hreceive : s.receive = []) (hline : s.line = []) :
    s' = s := by
  cases h with
  | idle => rfl
  | connect _ hstart => simp [hs] at hstart
  | wait _ b rest hwait => simp [hs] at hwait
  | choose _ p hchoose => simp [hs] at hchoose
  | fetch _ _ b rest _ hb => simp [hline] at hb
  | color _ b rest _ hb => simp [hreceive] at hb

end Seat

end LCChess
