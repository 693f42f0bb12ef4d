import LCChess.Protocol.Lobby

/-!
# The handshake

Who connects first becomes the chooser: the other end discards its `VM_CONNECTED` when it
connects, and is told its color. This works as long as the first `VM_CONNECTED` has arrived
before the second `ENTER`; when the two cross on the line, both ends become choosers.

## Main definitions

* `Handshake t`: the phases of the handshake, with the bytes on their way
* `EnterOk s a`: the second `ENTER` comes after the `VM_CONNECTED` of the peer

## Main results

* `handshake_roles`: the roles of the two ends, in the runs that meet the condition
* `handshake_fails`: both ends become choosers when the two `ENTER` cross
-/

namespace LCChess

open Transition (run Along run_invariant_along)

/-- The end that connected second, and the bytes on their way to it: it still reads
`RECEIVE_VM_CONNECTED`, or only the bytes behind it. -/
def Awaits (gameState : GameState) (bytes rest : List UInt8) : Prop :=
  (gameState = .waiting ∧ bytes = receiveVmConnected :: rest) ∨
    (gameState = .waitChoosingPlayer ∧ bytes = rest)

/-- The seat of the chooser before the other end has entered the game, where `msg` are the bytes
it sent in the game. -/
structure Opening (s : Seat) (msg : List UInt8) : Prop where
  state : s.gameState = .playing ∨ s.gameState = .exit
  player : s.player = .white ∨ s.player = .black
  moves : (msg = [] ∧ s.myTurn = (s.player == .white) ∧
      ∀ p, s.dragging = some p → s.myTurn = true) ∨
    (s.player = .white ∧ s.myTurn = false ∧ s.dragging = none ∧
      ∃ o n, IsCell o ∧ IsCell n ∧ msg = message o n)

/-- The phases of the handshake; `a` connects first. -/
inductive Handshake (t : Table) : Prop
  | start (hstate : ∀ e, (t e).gameState = .start) (hquiet : ∀ e, incoming t e = [])
  | called (a : Side) (ha : (t a).gameState = .waiting) (hf : (t a.other).gameState = .start)
      (hin : incoming t a.other = [vmConnected]) (hquiet : incoming t a = [])
  | answered (a : Side) (hstate : ∀ e, (t e).gameState = .waiting)
      (hin : incoming t a = [vmConnected]) (hquiet : incoming t a.other = [])
  | choosing (a : Side) (ha : (t a).gameState = .choosingPlayer)
      (hf : Awaits (t a.other).gameState (incoming t a.other) []) (hquiet : incoming t a = [])
  | chosen (a : Side) (msg : List UInt8) (ha : Opening (t a) msg)
      (hf : Awaits (t a.other).gameState (incoming t a.other) ((t a).player.colorByte :: msg))
      (hquiet : incoming t a = [])
  | game (w e : Side) (hstate : ∀ f, (t f).gameState = .playing ∨ (t f).gameState = .exit)
      (htoken : Token t e) (hwhite : (t w).player = .white) (hblack : (t w.other).player = .black)

namespace Handshake

variable {t t' : Table}

/-- A phase depends on the states, the turns, the drags and the bytes on their way. -/
theorem congr (h : Handshake t) (hstate : ∀ f, (t' f).gameState = (t f).gameState)
    (hplayer : ∀ f, (t' f).player = (t f).player) (hturn : ∀ f, (t' f).myTurn = (t f).myTurn)
    (hdrag : ∀ f, (t' f).dragging = (t f).dragging)
    (hin : ∀ f, incoming t' f = incoming t f) : Handshake t' := by
  cases h with
  | start hs hquiet => exact .start (by simpa only [hstate]) (by simpa only [hin])
  | called a ha hf hi hquiet =>
    exact .called a (by rwa [hstate]) (by rwa [hstate]) (by rwa [hin]) (by rwa [hin])
  | answered a hs hi hquiet =>
    exact .answered a (by simpa only [hstate]) (by rwa [hin]) (by rwa [hin])
  | choosing a ha hf hquiet =>
    exact .choosing a (by rwa [hstate]) (by rwa [hstate, hin]) (by rwa [hin])
  | chosen a msg ha hf hquiet =>
    refine .chosen a msg ⟨?_, ?_, ?_⟩ (by rwa [hstate, hin, hplayer]) (by rwa [hin])
    · simpa only [hstate] using ha.state
    · simpa only [hplayer] using ha.player
    · simpa only [hplayer, hturn, hdrag] using ha.moves
  | game w e hs htoken hwhite hblack =>
    exact .game w e (by simpa only [hstate]) (htoken.congr hturn hdrag hin) (by rwa [hplayer])
      (by rwa [hplayer])

/-- At most six bytes are on their way to an end. -/
theorem length_incoming (h : Handshake t) (f : Side) : (incoming t f).length ≤ 6 := by
  have hawaits : ∀ {g bytes rest}, Awaits g bytes rest → bytes.length ≤ rest.length + 1 := by
    rintro g bytes rest (⟨-, rfl⟩ | ⟨-, rfl⟩) <;> simp
  cases h with
  | start _ hquiet => simp [hquiet f]
  | called a _ _ hin hquiet =>
    obtain rfl | rfl := a.eq_or_eq_other f
    · simp [hquiet]
    · simp [hin]
  | answered a _ hin hquiet =>
    obtain rfl | rfl := a.eq_or_eq_other f
    · simp [hin]
    · simp [hquiet]
  | choosing a _ hf hquiet =>
    obtain rfl | rfl := a.eq_or_eq_other f
    · simp [hquiet]
    · have := hawaits hf
      simp only [List.length_nil] at this
      omega
  | chosen a msg ha hf hquiet =>
    obtain rfl | rfl := a.eq_or_eq_other f
    · simp [hquiet]
    · have hlen := hawaits hf
      have hmsg : msg.length ≤ 4 := by
        obtain ⟨rfl, -⟩ | ⟨-, -, -, o, n, -, -, rfl⟩ := ha.moves
        · simp
        · simp [message]
      simp only [List.length_cons] at hlen
      omega
  | game w e _ htoken => exact (htoken.length_incoming f).trans (by decide)

/-- A drag needs the turn. -/
theorem turn_of_dragging (h : Handshake t)
    (hmenu : ∀ f, (t f).gameState ≠ .playing → (t f).gameState ≠ .exit → (t f).dragging = none)
    {f : Side} {p : PieceRef} (hp : (t f).dragging = some p) : (t f).myTurn = true := by
  have hgame : (t f).gameState = .playing ∨ (t f).gameState = .exit := by
    by_contra hne
    rw [not_or] at hne
    simp [hmenu f hne.1 hne.2] at hp
  cases h with
  | start hs => simp [hs] at hgame
  | called a ha hf => obtain rfl | rfl := a.eq_or_eq_other f <;> simp [ha, hf] at hgame
  | answered a hs => simp [hs] at hgame
  | choosing a ha hf =>
    obtain rfl | rfl := a.eq_or_eq_other f
    · simp [ha] at hgame
    · obtain ⟨hs, -⟩ | ⟨hs, -⟩ := hf <;> simp [hs] at hgame
  | chosen a msg ha hf =>
    obtain rfl | rfl := a.eq_or_eq_other f
    · obtain ⟨-, -, hdrag⟩ | ⟨-, -, hnone, -⟩ := ha.moves
      · exact hdrag p hp
      · simp [hnone] at hp
    · obtain ⟨hs, -⟩ | ⟨hs, -⟩ := hf <;> simp [hs] at hgame
  | game w e _ htoken => exact htoken.turn_of_dragging hp

/-- A byte leaves a transmit queue. -/
theorem write (h : Handshake t) {e : Side} {b : UInt8} {rest : List UInt8}
    (hb : (t e).transmit = b :: rest) : Handshake (t.transfer e b rest) := by
  refine h.congr (fun f => ?_) (fun f => ?_) (fun f => ?_) (fun f => ?_)
    (incoming_transfer t e hb)
  all_goals
    unfold Table.transfer
    split <;> rfl

/-- A byte is read from the UART. -/
theorem read (h : Handshake t) {e : Side} {b : UInt8} {rest : List UInt8}
    (hb : (t e).line = b :: rest) : Handshake (Function.update t e
      { t e with line := rest, receive := enqueue (t e).receive b }) := by
  -- six bytes at most are on their way, so the queue of ten has room for one more
  have hroom : (t e).receive.length < 10 := by
    have := h.length_incoming e
    simp only [incoming, List.length_append] at this
    omega
  refine h.congr (fun f => ?_) (fun f => ?_) (fun f => ?_) (fun f => ?_)
    (incoming_read t e hb hroom)
  all_goals obtain rfl | rfl := e.eq_or_eq_other f <;> simp

/-- The bytes on the way to an end that reads one. -/
theorem incoming_cons {e : Side} {b : UInt8} {rest : List UInt8} (hb : (t e).receive = b :: rest) :
    incoming t e = b :: (rest ++ (t e).line ++ (t e.other).transmit) := by
  simp [incoming, hb]

/-- `ENTER`. The second one discards the `VM_CONNECTED` of the first. -/
theorem connect (h : Handshake t) {e : Side} {k : ℕ} (hs : (t e).gameState = .start)
    (hok : (t e.other).gameState ≠ .start →
      (t e.other).transmit = [] ∧ (t e).line.length ≤ k) :
    Handshake (Function.update t e { t e with
      gameState := .waiting
      receive := []
      line := (t e).line.drop k
      transmit := enqueue (t e).transmit vmConnected }) := by
  cases h with
  | start hstate hquiet =>
    obtain ⟨he, htransmit⟩ := List.append_eq_nil_iff.mp (hquiet e.other)
    obtain ⟨hreceive, hline⟩ := List.append_eq_nil_iff.mp (hquiet e)
    obtain ⟨-, hline⟩ := List.append_eq_nil_iff.mp hreceive
    simp only [Side.other_other] at htransmit
    -- the first `ENTER`: nothing is on its way yet that could be discarded
    refine .called e ?_ ?_ ?_ ?_
    · simp
    · simpa using hstate e.other
    · rw [incoming_update_other, he, htransmit]
      rfl
    · rw [incoming_update_self]
      simpa [hline] using (List.append_eq_nil_iff.mp (hquiet e)).2
  | called a ha hf hin hquiet =>
    obtain rfl | rfl := a.eq_or_eq_other e
    · simp [ha] at hs
    · rw [Side.other_other] at hok
      obtain ⟨htransmit, hlen⟩ := hok (by simp [ha])
      obtain ⟨hrest, htransmit'⟩ := List.append_eq_nil_iff.mp hquiet
      -- the second `ENTER`: `sp_clear` discards the `VM_CONNECTED` of the first end
      refine .answered a (fun f => ?_) ?_ ?_
      · obtain rfl | rfl := a.eq_or_eq_other f
        · simpa using ha
        · simp
      · have := incoming_update_other t a.other { t a.other with
          gameState := .waiting
          receive := []
          line := (t a.other).line.drop k
          transmit := enqueue (t a.other).transmit vmConnected }
        rw [Side.other_other] at this
        rw [this, hrest, htransmit']
        rfl
      · rw [incoming_update_self, Side.other_other, htransmit, List.drop_eq_nil_of_le hlen]
        rfl
  | answered a hstate => simp [hstate] at hs
  | choosing a ha hf =>
    obtain rfl | rfl := a.eq_or_eq_other e
    · simp [ha] at hs
    · obtain ⟨hg, -⟩ | ⟨hg, -⟩ := hf <;> simp [hg] at hs
  | chosen a msg ha hf =>
    obtain rfl | rfl := a.eq_or_eq_other e
    · obtain hg | hg := ha.state <;> simp [hg] at hs
    · obtain ⟨hg, -⟩ | ⟨hg, -⟩ := hf <;> simp [hg] at hs
  | game w f hstate => obtain hg | hg := hstate e <;> simp [hg] at hs

/-- The end that connected second reads `RECEIVE_VM_CONNECTED`. -/
theorem read_received {a : Side} {b : UInt8} {rest tail : List UInt8}
    (hin : incoming t a.other = receiveVmConnected :: tail) (hb : (t a.other).receive = b :: rest) :
    let t' := Function.update t a.other (({ t a.other with receive := rest } : Seat).answer b)
    Awaits (t' a.other).gameState (incoming t' a.other) tail ∧ t' a = t a ∧
      incoming t' a = incoming t a := by
  rw [incoming_cons hb] at hin
  obtain ⟨rfl, htail⟩ := List.cons.inj hin
  have hanswer : ({ t a.other with receive := rest } : Seat).answer receiveVmConnected =
      { t a.other with receive := rest, gameState := .waitChoosingPlayer } := by
    rw [Seat.answer, if_neg (by decide), if_pos rfl]
  have hother := incoming_update_other t a.other
    { t a.other with receive := rest, gameState := .waitChoosingPlayer }
  rw [Side.other_other] at hother
  intro t'
  simp only [t', hanswer]
  refine ⟨.inr ⟨by simp, ?_⟩, by simp, hother⟩
  rw [incoming_update_self]
  exact htail

/-- `waiting_ih` reads a byte: who reads `VM_CONNECTED` becomes the chooser. -/
theorem wait (h : Handshake t) {e : Side} {b : UInt8} {rest : List UInt8}
    (hs : (t e).gameState = .waiting) (hb : (t e).receive = b :: rest) :
    Handshake (Function.update t e (({ t e with receive := rest } : Seat).answer b)) := by
  have hin := incoming_cons hb
  cases h with
  | start hstate => simp [hstate] at hs
  | called a ha hf hi hquiet =>
    obtain rfl | rfl := a.eq_or_eq_other e
    · simp [hin] at hquiet
    · simp [hf] at hs
  | answered a hstate hi hquiet =>
    obtain rfl | rfl := a.eq_or_eq_other e
    · rw [hin] at hi
      obtain ⟨rfl, hnil⟩ := List.cons.inj hi
      obtain ⟨hother, htransmit⟩ := List.append_eq_nil_iff.mp hquiet
      rw [Side.other_other] at htransmit
      -- the end that connected first reads `VM_CONNECTED`, and answers `RECEIVE_VM_CONNECTED`
      refine .choosing e ?_ (.inl ⟨?_, ?_⟩) ?_
      · simp [Seat.answer]
      · simpa using hstate e.other
      · rw [incoming_update_other, hother]
        simp [Seat.answer, htransmit, enqueue]
      · rw [incoming_update_self]
        simpa [Seat.answer] using hnil
    · simp [hin] at hquiet
  | choosing a ha hf hquiet =>
    obtain rfl | rfl := a.eq_or_eq_other e
    · simp [ha] at hs
    -- the other end reads the answer, and waits for its color
    · obtain ⟨-, hi⟩ | ⟨hg, -⟩ := hf
      · obtain ⟨hawaits, hta, hquiet'⟩ := read_received hi hb
        exact .choosing a (by rw [hta, ha]) hawaits (hquiet'.trans hquiet)
      · simp [hg] at hs
  | chosen a msg ha hf hquiet =>
    obtain rfl | rfl := a.eq_or_eq_other e
    · obtain hg | hg := ha.state <;> simp [hg] at hs
    · obtain ⟨-, hi⟩ | ⟨hg, -⟩ := hf
      · obtain ⟨hawaits, hta, hquiet'⟩ := read_received hi hb
        exact .chosen a msg (by rwa [hta]) (by rwa [hta]) (hquiet'.trans hquiet)
      · simp [hg] at hs
  | game w f hstate => obtain hg | hg := hstate e <;> simp [hg] at hs

/-- `choosing_ih`: the chooser enters the game, and sends the other color. -/
theorem choose (h : Handshake t) {e : Side} {p : Player} (hs : (t e).gameState = .choosingPlayer)
    (hp : p = .white ∨ p = .black) (hdrag : (t e).dragging = none) :
    Handshake (Function.update t e { t e with
      gameState := .playing
      player := p
      myTurn := p == .white
      transmit := enqueue (t e).transmit p.colorByte }) := by
  cases h with
  | start hstate => simp [hstate] at hs
  | called a ha hf => obtain rfl | rfl := a.eq_or_eq_other e <;> simp [ha, hf] at hs
  | answered a hstate => simp [hstate] at hs
  | choosing a ha hf hquiet =>
    obtain rfl | rfl := a.eq_or_eq_other e
    · have hlen : (t e).transmit.length < 10 := by
        have : (incoming t e.other).length ≤ 1 := by
          obtain ⟨-, hi⟩ | ⟨-, hi⟩ := hf <;> simp [hi]
        simp only [incoming, Side.other_other, List.length_append] at this
        omega
      have hother := incoming_update_other t e { t e with
        gameState := .playing
        player := p
        myTurn := p == .white
        transmit := enqueue (t e).transmit p.colorByte }
      have hsent : (t e.other).receive ++ (t e.other).line ++
          enqueue (t e).transmit p.colorByte = incoming t e.other ++ [p.colorByte] := by
        rw [enqueue, if_pos hlen]
        simp [incoming]
      -- the color is sent behind the answer, which may not have been read yet
      refine .chosen e [] ⟨?_, ?_, .inl ⟨rfl, ?_, ?_⟩⟩ ?_ ?_
      · simp
      · simpa using hp
      · simp
      · simp [hdrag]
      · rw [hother, hsent, Function.update_of_ne (Side.other_ne e), Function.update_self]
        obtain ⟨hg, hi⟩ | ⟨hg, hi⟩ := hf
        · exact .inl ⟨hg, by rw [hi]; rfl⟩
        · exact .inr ⟨hg, by rw [hi]; rfl⟩
      · rw [incoming_update_self]
        exact hquiet
    · obtain ⟨hg, -⟩ | ⟨hg, -⟩ := hf <;> simp [hg] at hs
  | chosen a msg ha hf =>
    obtain rfl | rfl := a.eq_or_eq_other e
    · obtain hg | hg := ha.state <;> simp [hg] at hs
    · obtain ⟨hg, -⟩ | ⟨hg, -⟩ := hf <;> simp [hg] at hs
  | game w f hstate => obtain hg | hg := hstate e <;> simp [hg] at hs

/-- The color a player leaves to the other. -/
theorem enter_colorByte (s : Seat) {p : Player} (hp : p = .white ∨ p = .black) :
    s.enter p.colorByte = { s with
      gameState := .playing
      player := if p = .white then .black else .white
      myTurn := !(p == .white) } := by
  obtain rfl | rfl := hp
  · rw [Seat.enter, if_neg (by decide), if_neg (by decide)]
    rfl
  · rw [Seat.enter, if_neg (by decide), if_pos (by decide)]
    rfl

/-- Both ends are in the game, and what the chooser has sent there is on its way. -/
theorem game_of_opening {a : Side} {msg : List UInt8} (ha : Opening (t a) msg) {s : Seat}
    (hs : s.gameState = .playing)
    (hplayer : s.player = if (t a).player = .white then .black else .white)
    (hturn : s.myTurn = !((t a).player == .white)) (hdrag : s.dragging = none)
    (hin : s.receive ++ s.line ++ (t a).transmit = msg)
    (hquiet : (t a).receive ++ (t a).line ++ s.transmit = []) :
    Handshake (Function.update t a.other s) := by
  set t' := Function.update t a.other s with ht'
  have hta : t' a = t a := Function.update_of_ne (Side.ne_other a) _ _
  have hts : t' a.other = s := Function.update_self ..
  have hin' : incoming t' a.other = msg := by rw [incoming, Side.other_other, hts, hta, hin]
  have hquiet' : incoming t' a = [] := by rw [incoming, hts, hta, hquiet]
  have hstate : ∀ f, (t' f).gameState = .playing ∨ (t' f).gameState = .exit := by
    intro f
    obtain rfl | rfl := a.eq_or_eq_other f
    · rw [hta]
      exact ha.state
    · rw [hts]
      exact .inl hs
  -- the chooser has not moved yet, or it is white and its first message is on its way
  obtain ⟨rfl, hmine, hdragging⟩ | ⟨hwhite, hmine, hnone, o, n, ho, hn, rfl⟩ := ha.moves
  · obtain hwhite | hblack := ha.player
    -- the turn is with the chooser if it has taken white
    · refine .game a a hstate (.inl ⟨?_, ?_, ?_, hquiet', hin'⟩) ?_ ?_
      · rw [hta, hmine, hwhite]
        rfl
      · rw [hts, hturn, hwhite]
        rfl
      · rw [hts, hdrag]
      · rw [hta, hwhite]
      · rw [hts, hplayer, if_pos hwhite]
    · have hmine' : (t a).myTurn = false := by rw [hmine, hblack]; rfl
      refine .game a.other a.other hstate (.inl ⟨?_, ?_, ?_, hin', ?_⟩) ?_ ?_
      · rw [hts, hturn, hblack]
        rfl
      · rw [Side.other_other, hta, hmine']
      · rw [Side.other_other, hta]
        refine Option.eq_none_iff_forall_not_mem.mpr fun p hp => ?_
        exact absurd ((hdragging p hp).symm.trans hmine') (by decide)
      · rw [Side.other_other, hquiet']
      · rw [hts, hplayer, hblack]
        rfl
      · rw [Side.other_other, hta, hblack]
  · refine .game a a.other hstate (.inr ⟨fun f => ?_, fun f => ?_,
      ⟨o, n, 0, ho, hn, by decide, hin'⟩, ?_⟩) ?_ ?_
    · obtain rfl | rfl := a.eq_or_eq_other f
      · rw [hta, hmine]
      · rw [hts, hturn, hwhite]
        rfl
    · obtain rfl | rfl := a.eq_or_eq_other f
      · rw [hta, hnone]
      · rw [hts, hdrag]
    · rw [Side.other_other, hquiet']
    · rw [hta, hwhite]
    · rw [hts, hplayer, if_pos hwhite]

/-- `waiting_choosing_ih` reads the color: both ends are in the game. -/
theorem color (h : Handshake t) {e : Side} {b : UInt8} {rest : List UInt8}
    (hs : (t e).gameState = .waitChoosingPlayer) (hb : (t e).receive = b :: rest)
    (hdrag : (t e).dragging = none) :
    Handshake (Function.update t e (({ t e with receive := rest } : Seat).enter b)) := by
  have hin := incoming_cons hb
  cases h with
  | start hstate => simp [hstate] at hs
  | called a ha hf => obtain rfl | rfl := a.eq_or_eq_other e <;> simp [ha, hf] at hs
  | answered a hstate => simp [hstate] at hs
  | choosing a ha hf hquiet =>
    obtain rfl | rfl := a.eq_or_eq_other e
    · simp [ha] at hs
    · obtain ⟨hg, -⟩ | ⟨-, hi⟩ := hf
      · simp [hg] at hs
      · simp [hin] at hi
  | chosen a msg ha hf hquiet =>
    obtain rfl | rfl := a.eq_or_eq_other e
    · obtain hg | hg := ha.state <;> simp [hg] at hs
    · obtain ⟨hg, -⟩ | ⟨-, hi⟩ := hf
      · simp [hg] at hs
      · rw [hin] at hi
        obtain ⟨rfl, hmsg⟩ := List.cons.inj hi
        rw [Side.other_other] at hmsg
        -- the color is the first byte behind the answer, and what remains is the message
        rw [enter_colorByte _ ha.player]
        exact game_of_opening ha rfl rfl rfl hdrag hmsg hquiet
  | game w f hstate => obtain hg | hg := hstate e <;> simp [hg] at hs

/-- An event in the menus. -/
theorem menu {k : ℕ} {e : Side} {s s' : Seat} (hev : Seat.MenuEvent k s s')
    (hdrag : s.dragging = none) (h : Handshake t) (hs : t e = s)
    (hok : s.gameState = .start → s'.gameState ≠ .start → (t e.other).gameState ≠ .start →
      (t e.other).transmit = [] ∧ s.line.length ≤ k) : Handshake (Function.update t e s') := by
  induction hev generalizing t with
  | idle s =>
    subst hs
    rwa [Function.update_eq_self]
  | connect s hstart =>
    subst hs
    exact h.connect hstart (hok hstart (by simp))
  | wait s b rest hwait hb =>
    subst hs
    exact h.wait hwait hb
  | choose s p hchoose hp =>
    subst hs
    exact h.choose hchoose hp hdrag
  | color s b rest hcolor hb =>
    subst hs
    exact h.color hcolor hb hdrag
  -- the handler takes a byte from the UART first, and then reads it
  | fetch s s' b rest hwait hb _ ih =>
    subst hs
    have := ih hdrag (h.read hb) (Function.update_self ..) (by simp [hwait])
    rwa [Function.update_idem] at this

/-- The chooser plays on before the other end has entered the game: it makes one move at most. -/
theorem opening_event {s s' : Seat} {l : Option (ℤ × ℤ)} {msg : List UInt8}
    (h : Seat.Event s l s') (hs : Opening s msg) (htidy : Tidy s) (hreceive : s.receive = [])
    (hroom : s.transmit.length ≤ 6) :
    ∃ more, Opening s' (msg ++ more) ∧ s'.player = s.player ∧ s'.transmit = s.transmit ++ more ∧
      s'.receive = s.receive ∧ s'.line = s.line := by
  have hstate := h.gameState hs.state
  have hleave : s.leave.gameState = .playing ∨ s.leave.gameState = .exit →
      ∃ more, Opening s.leave (msg ++ more) ∧ s.leave.player = s.player ∧
        s.leave.transmit = s.transmit ++ more ∧ s.leave.receive = s.receive ∧
        s.leave.line = s.line := by
    intro hstate
    refine ⟨[], ⟨hstate, ?_, ?_⟩, by simp, by simp, by simp, by simp⟩
    · simpa using hs.player
    · simpa using hs.moves
  cases h with
  | idle => exact hleave hstate
  | press p i hnone hturn =>
    obtain ⟨rfl, hmine, -⟩ | ⟨-, hmine, -⟩ := hs.moves
    · refine ⟨[], ⟨hstate, ?_, .inl ⟨rfl, ?_, ?_⟩⟩, ?_, ?_, ?_, ?_⟩
      · simpa [Seat.press] using hs.player
      · simpa [Seat.press] using hmine
      · simpa [Seat.press] using hturn
      all_goals simp [Seat.press]
    · exact absurd (hturn.symm.trans hmine) (by decide)
  | cancel p hp =>
    obtain ⟨rfl, hmine, -⟩ | ⟨-, -, hnone, -⟩ := hs.moves
    · refine ⟨[], ⟨hstate, ?_, .inl ⟨rfl, ?_, ?_⟩⟩, ?_, ?_, ?_, ?_⟩
      · simpa [Seat.cancel] using hs.player
      · simpa [Seat.cancel] using hmine
      all_goals simp [Seat.cancel]
    · exact absurd (hnone.symm.trans hp) (by simp)
  | accept p i hp hi =>
    obtain ⟨rfl, hmine, hdrag⟩ | ⟨-, -, hnone, -⟩ := hs.moves
    · -- the turn is the one of white
      have hwhite : s.player = .white := by simpa [hdrag p hp] using hmine.symm
      refine ⟨message s.inicial i, ⟨hstate, ?_, .inr ⟨?_, rfl, rfl, s.inicial, i,
        (htidy.drag p hp).1, hi, rfl⟩⟩, ?_, ?_, ?_, ?_⟩
      · simpa [Seat.accept] using hs.player
      · simpa [Seat.accept] using hwhite
      · simp [Seat.accept]
      · simp only [Seat.accept, Seat.transmit_leave, Seat.inicial_leave]
        apply Seat.foldl_enqueue
        simp only [message, List.length_cons, List.length_nil]
        omega
      all_goals simp [Seat.accept]
    · exact absurd (hnone.symm.trans hp) (by simp)
  | poll _ hpoll =>
    obtain ⟨-, rfl⟩ | ⟨b, rest, hb, -⟩ := Seat.poll_cases hpoll
    · exact hleave hstate
    · rw [Seat.receive_leave, hreceive] at hb
      exact absurd hb (by simp)

/-- A seat with bytes to read does not drag. -/
theorem dragging_of_receive (h : Handshake t)
    (hmenu : ∀ f, (t f).gameState ≠ .playing → (t f).gameState ≠ .exit → (t f).dragging = none)
    {f : Side} (hf : (t f).receive ≠ []) : (t f).dragging = none := by
  by_cases hgame : (t f).gameState = .playing ∨ (t f).gameState = .exit
  · cases h with
    | start hs => simp [hs] at hgame
    | called a ha hf' => obtain rfl | rfl := a.eq_or_eq_other f <;> simp [ha, hf'] at hgame
    | answered a hs => simp [hs] at hgame
    | choosing a ha hf' =>
      obtain rfl | rfl := a.eq_or_eq_other f
      · simp [ha] at hgame
      · obtain ⟨hs, -⟩ | ⟨hs, -⟩ := hf' <;> simp [hs] at hgame
    | chosen a msg ha hf' hquiet =>
      obtain rfl | rfl := a.eq_or_eq_other f
      · simp [incoming, hf] at hquiet
      · obtain ⟨hs, -⟩ | ⟨hs, -⟩ := hf' <;> simp [hs] at hgame
    | game w e _ htoken => exact htoken.dragging_of_receive hf
  · rw [not_or] at hgame
    exact hmenu f hgame.1 hgame.2

/-- A step of the game or of the serial port. -/
theorem step (h : Handshake t) (htidy : ∀ f, Tidy (t f)) {l : Option (Side × ℤ × ℤ)}
    (hs : Table.Step t l t') : Handshake t' := by
  cases hs with
  | idle => exact h
  | write f b rest hb => exact h.write hb
  | read f b rest hb => exact h.read hb
  | event f l s hplay hevent =>
    cases h with
    | start hstate => simp [hstate] at hplay
    | called a ha hf => obtain rfl | rfl := a.eq_or_eq_other f <;> simp [ha, hf] at hplay
    | answered a hstate => simp [hstate] at hplay
    | choosing a ha hf =>
      obtain rfl | rfl := a.eq_or_eq_other f
      · simp [ha] at hplay
      · obtain ⟨hg, -⟩ | ⟨hg, -⟩ := hf <;> simp [hg] at hplay
    | chosen a msg ha hf hquiet =>
      obtain rfl | rfl := a.eq_or_eq_other f
      · have hreceive : (t f).receive = [] := by simpa using (List.append_eq_nil_iff.mp
          (List.append_eq_nil_iff.mp hquiet).1).1
        have hroom : (t f).transmit.length ≤ 6 := by
          have hlen := length_incoming (.chosen f msg ha hf hquiet) f.other
          simp only [incoming, Side.other_other, List.length_append] at hlen
          omega
        obtain ⟨more, hopen, hplayer, htransmit, hreceive', hline⟩ :=
          opening_event hevent ha (htidy f) hreceive hroom
        have hin : incoming (Function.update t f s) f.other = incoming t f.other ++ more := by
          rw [incoming_update_other, htransmit]
          simp [incoming]
        -- what the chooser sends in the game stands behind its color
        refine .chosen f (msg ++ more) (by simpa using hopen) ?_ ?_
        · rw [hin, Function.update_self, Function.update_of_ne (Side.other_ne f), hplayer]
          obtain ⟨hg, hi⟩ | ⟨hg, hi⟩ := hf
          · exact .inl ⟨hg, by rw [hi]; rfl⟩
          · exact .inr ⟨hg, by rw [hi]; rfl⟩
        · rw [incoming_update_self, hreceive', hline]
          exact hquiet
      · obtain ⟨hg, -⟩ | ⟨hg, -⟩ := hf <;> simp [hg] at hplay
    | game w e hstate htoken hwhite hblack =>
      -- in the game the turn is passed on as `Token` says, and the colors stay
      have hstep := Table.Step.event t f l s hplay hevent
      have htoken' : ∃ e', Token (Function.update t f s) e' := by
        obtain ⟨-, htoken⟩ | ⟨o, n, -, -, htoken⟩ := token_step htoken htidy hstep
        · exact ⟨e, htoken⟩
        · exact ⟨e.other, htoken⟩
      obtain ⟨e', htoken'⟩ := htoken'
      refine .game w e' (fun g => hstep.gameState (hstate g)) htoken' ?_ ?_
      · rw [player_step hstep, hwhite]
      · rw [player_step hstep, hblack]

end Handshake

/-- The steps of the game leave a seat in the menus there. -/
theorem Table.Step.menu {t t' : Table} {l : Option (Side × ℤ × ℤ)} (hs : Table.Step t l t')
    {f : Side} (hplay : (t f).gameState ≠ .playing) :
    (t' f).gameState = (t f).gameState ∧ (t' f).dragging = (t f).dragging := by
  cases hs with
  | idle => exact ⟨rfl, rfl⟩
  | write g b rest => unfold Table.transfer; split <;> exact ⟨rfl, rfl⟩
  | read g b rest => obtain rfl | rfl := g.eq_or_eq_other f <;> simp
  | event g l s hg =>
    obtain rfl | rfl := g.eq_or_eq_other f
    · exact absurd hg hplay
    · simp

/-! ## Runs from the menus -/

/-- An event in the menus. -/
theorem System.step_menu {d : Display} {s : System} (h : ∀ f, Ready d (s f).vm) {e : Side}
    (halive : (s e).crashed = false) (hplay : (s e).vm.gameState ≠ .playing)
    (hexit : (s e).vm.gameState ≠ .exit) (k : ℕ) (event : Event) :
    (∀ f, Ready d (System.step d s (e, .event k event) f).vm) ∧
      ∃ r, table d (System.step d s (e, .event k event)) = Function.update (table d s) e r ∧
        Seat.MenuEvent k (table d s e) r ∧
        ((s e).vm.gameState = .start → r.gameState ≠ .start → IsConnect (s e).vm event) := by
  have hw : (s e).written (.event k event) = [] := by simp [Instance.written]
  rw [System.step_local hw, table_update]
  cases hev : handleEvent d k event (s e).vm with
  | none =>
    have hi : (s e).step d (.event k event) = { s e with crashed := true } := by
      simp [Instance.step, halive, hev]
    rw [hi]
    exact ⟨ready_update h (h e), _, rfl, .idle _,
      fun hs hne => absurd ((seat_gameState d _).trans hs) hne⟩
  | some vm' =>
    have hi : (s e).step d (.event k event) = { s e with vm := vm' } := by
      simp [Instance.step, halive, hev]
    obtain ⟨hready, hmenu, hconnect⟩ := handleEvent_menu (h e) hplay hexit hev
    rw [hi]
    exact ⟨ready_update h hready, _, rfl, hmenu, by simpa using hconnect⟩

/-- The action is an event in the menus of its end. -/
def MenuStep (d : Display) (s : System) (a : Side × Action) : Prop :=
  ∃ k event r, a.2 = .event k event ∧ (s a.1).vm.gameState ≠ .playing ∧
    (s a.1).vm.gameState ≠ .exit ∧
    table d (System.step d s a) = Function.update (table d s) a.1 r ∧
    Seat.MenuEvent k (table d s a.1) r ∧
    ((s a.1).vm.gameState = .start → r.gameState ≠ .start → IsConnect (s a.1).vm event)

/-- Every step is one of the game, or an event in the menus. -/
theorem System.step_cases {d : Display} {s : System} (h : ∀ f, Ready d (s f).vm)
    (a : Side × Action)
    (hturn : ∀ p, (s a.1).vm.draggingPiece = some p → (s a.1).vm.myTurn = true) :
    (∀ f, Ready d (System.step d s a f).vm) ∧
      ((∃ l, Table.Step (table d s) l (table d (System.step d s a))) ∨ MenuStep d s a) := by
  -- an event of an end in the menus is treated by the menu handlers, everything else by the game
  by_cases hmenu : (s a.1).crashed = false ∧ (∃ k event, a.2 = .event k event) ∧
      (s a.1).vm.gameState ≠ .playing ∧ (s a.1).vm.gameState ≠ .exit
  · obtain ⟨e, act⟩ := a
    obtain ⟨halive, ⟨k, event, rfl⟩, hplay, hexit⟩ := hmenu
    obtain ⟨hready, r, htable, hevent, hconnect⟩ := System.step_menu h halive hplay hexit k event
    exact ⟨hready, .inr ⟨k, event, r, rfl, hplay, hexit, htable, hevent, hconnect⟩⟩
  · obtain ⟨hready, hstep⟩ := System.step_table h a
      (fun halive k event hact => by
        by_contra hne
        rw [not_or] at hne
        exact hmenu ⟨halive, ⟨k, event, hact⟩, hne⟩) hturn
    exact ⟨hready, .inl ⟨_, hstep⟩⟩

/-- The second `ENTER` comes when the `VM_CONNECTED` of the peer has left its transmit queue, and
what is on the line arrives while `sp_clear` polls. -/
def EnterOk (s : System) (a : Side × Action) : Prop :=
  ∀ arrivals event, a.2 = .event arrivals event → IsConnect (s a.1).vm event →
    (s a.1.other).vm.gameState ≠ .start →
      (s a.1.other).vm.transmitQueue.toList = [] ∧ (s a.1).vm.line.length ≤ arrivals

/-- The invariant of two instances from their start on. -/
structure InLobby (d : Display) (s : System) : Prop where
  ready : ∀ f, Ready d (s f).vm
  tidy : ∀ f, Tidy (table d s f)
  menu : ∀ f, (table d s f).gameState ≠ .playing → (table d s f).gameState ≠ .exit →
    (table d s f).dragging = none
  phase : Handshake (table d s)

namespace InLobby

variable {d : Display} {s : System} (h : InLobby d s)
include h

/-- Every step is one of the game, or an event in the menus. -/
theorem cases (a : Side × Action) :
    (∀ f, Ready d (System.step d s a f).vm) ∧
      ((∃ l, Table.Step (table d s) l (table d (System.step d s a))) ∨ MenuStep d s a) :=
  System.step_cases h.ready a fun p hp => by
    have := h.phase.turn_of_dragging h.menu (f := a.1) (p := p) (by simpa [table] using hp)
    simpa [table] using this

/-- **Every step that meets the condition keeps the invariant.** -/
theorem step (a : Side × Action) (hok : EnterOk s a) : InLobby d (System.step d s a) := by
  obtain ⟨hready, ⟨l, hstep⟩ | ⟨k, event, r, hact, hplay, hexit, htable, hevent, hconnect⟩⟩ :=
    h.cases a
  · refine ⟨hready, tidy_step (fun _ => h.phase.dragging_of_receive h.menu) h.tidy hstep,
      fun f hp hx => ?_, h.phase.step h.tidy hstep⟩
    have hmenu : ¬((table d s f).gameState = .playing ∨ (table d s f).gameState = .exit) :=
      fun hg => (hstep.gameState hg).elim hp hx
    rw [not_or] at hmenu
    rw [(hstep.menu hmenu.1).2]
    exact h.menu f hmenu.1 hmenu.2
  · obtain ⟨e, act⟩ := a
    -- nobody drags a piece in the menus
    have hnone : (table d s e).dragging = none :=
      h.menu e (by simpa [table] using hplay) (by simpa [table] using hexit)
    obtain ⟨hcells, hdrag, hinicial⟩ := hevent.frame
    refine ⟨hready, fun f => ?_, fun f hp hx => ?_, ?_⟩
    · rw [htable]
      obtain rfl | rfl := e.eq_or_eq_other f
      · obtain ⟨hunique, -⟩ := h.tidy f
        rw [Function.update_self]
        exact ⟨by rwa [hcells], by simp [hdrag, hnone]⟩
      · simpa using h.tidy e.other
    · rw [htable] at hp hx ⊢
      obtain rfl | rfl := e.eq_or_eq_other f
      · rw [Function.update_self, hdrag, hnone]
      · rw [Function.update_of_ne (Side.other_ne e)] at hp hx ⊢
        exact h.menu e.other hp hx
    · rw [htable]
      apply Handshake.menu hevent hnone h.phase rfl
      intro hstart hne hother
      have hstart' : (s e).vm.gameState = .start := by simpa [table] using hstart
      simpa [table] using hok k event hact (hconnect hstart' hne) (by simpa [table] using hother)

/-- Nobody changes color in the game, and who enters it has the turn if and only if it plays
white. -/
theorem player_step (a : Side × Action) (e : Side) :
    ((s e).vm.gameState = .playing →
      (System.step d s a e).vm.player = (s e).vm.player) ∧
    ((s e).vm.gameState ≠ .playing → (System.step d s a e).vm.gameState = .playing →
      (System.step d s a e).vm.myTurn = ((System.step d s a e).vm.player == .white)) := by
  -- the seat of an end shows its state, its color and its turn
  simp only [← seat_gameState d, ← seat_player d, ← seat_myTurn d]
  change ((table d s e).gameState = .playing →
      (table d (System.step d s a) e).player = (table d s e).player) ∧
    ((table d s e).gameState ≠ .playing → (table d (System.step d s a) e).gameState = .playing →
      (table d (System.step d s a) e).myTurn =
        ((table d (System.step d s a) e).player == .white))
  obtain ⟨-, ⟨l, hstep⟩ | ⟨k, event, r, -, hplay, -, htable, hevent, -⟩⟩ := h.cases a
  · exact ⟨fun _ => LCChess.player_step hstep e,
      fun hne hg => absurd ((hstep.menu hne).1.symm.trans hg) hne⟩
  · rw [htable]
    obtain rfl | rfl := a.1.eq_or_eq_other e
    · rw [Function.update_self]
      exact ⟨fun hg => absurd (by simpa [table] using hg) hplay, fun hne hg => hevent.myTurn hne hg⟩
    · rw [Function.update_of_ne (Side.other_ne a.1)]
      exact ⟨fun _ => rfl, fun hne hg => absurd hg hne⟩

end InLobby

/-- Two instances at the start of the main loop. -/
structure AtStart (d : Display) (s : System) : Prop where
  fresh : ∀ e, Fresh d (s e).vm
  start : ∀ e, (s e).vm.gameState = .start

theorem AtStart.inLobby {d : Display} {s : System} (h : AtStart d s) : InLobby d s where
  ready e := (h.fresh e).sound
  tidy e := (h.fresh e).tidy
  menu e _ _ := by simpa [table] using (h.fresh e).dragging
  phase := by
    refine .start (fun e => by simpa [table] using h.start e) fun e => ?_
    simp [incoming, table, (h.fresh e).receive_nil, (h.fresh e).line_nil,
      (h.fresh e.other).transmit_nil]

namespace Handshake

variable {t : Table} (h : Handshake t)
include h

/-- The two ends are never both choosers. -/
theorem not_both_choosing :
    ¬ ((t .left).gameState = .choosingPlayer ∧ (t .right).gameState = .choosingPlayer) := by
  rintro ⟨hleft, hright⟩
  have hboth : ∀ e, (t e).gameState = .choosingPlayer := fun e => by cases e <;> assumption
  cases h with
  | start hstate => simp [hstate] at hleft
  | called a ha => simp [hboth] at ha
  | answered a hstate => simp [hstate] at hleft
  | choosing a _ hf => obtain ⟨hg, -⟩ | ⟨hg, -⟩ := hf <;> simp [hboth] at hg
  | chosen a _ ha => obtain hg | hg := ha.state <;> simp [hboth] at hg
  | game w e hstate => obtain hg | hg := hstate .left <;> simp [hleft] at hg

/-- Two ends in the game have different colors. -/
theorem roles (hplay : ∀ e, (t e).gameState = .playing) :
    ∃ w, (t w).player = .white ∧ (t w.other).player = .black := by
  cases h with
  | start hstate => exact absurd (hstate .left) (by simp [hplay])
  | called a ha => simp [hplay] at ha
  | answered a hstate => exact absurd (hstate .left) (by simp [hplay])
  | choosing a ha => simp [hplay] at ha
  -- in the phases before `game` one of the two ends is still in the menus
  | chosen a _ _ hf => obtain ⟨hg, -⟩ | ⟨hg, -⟩ := hf <;> simp [hplay] at hg
  | game w e _ _ hwhite hblack => exact ⟨w, hwhite, hblack⟩

/-- An end in the game has nothing to read but the rest of one message. -/
theorem unread {e : Side} (hplay : (t e).gameState = .playing) :
    ∃ o n k, IsCell o ∧ IsCell n ∧ incoming t e = (message o n).drop k := by
  have hnil : ∀ {bytes : List UInt8}, bytes = [] →
      ∃ o n k, IsCell o ∧ IsCell n ∧ bytes = (message o n).drop k :=
    fun hb => ⟨0, 0, 4, by decide, by decide, hb⟩
  cases h with
  | start hstate => simp [hstate] at hplay
  | called a ha hf => obtain rfl | rfl := a.eq_or_eq_other e <;> simp [ha, hf] at hplay
  | answered a hstate => simp [hstate] at hplay
  | choosing a ha hf =>
    obtain rfl | rfl := a.eq_or_eq_other e
    · simp [ha] at hplay
    · obtain ⟨hg, -⟩ | ⟨hg, -⟩ := hf <;> simp [hg] at hplay
  | chosen a _ _ hf hquiet =>
    obtain rfl | rfl := a.eq_or_eq_other e
    · exact hnil hquiet
    · obtain ⟨hg, -⟩ | ⟨hg, -⟩ := hf <;> simp [hg] at hplay
  | game w f _ htoken =>
    -- what is on its way to an end belongs to the move that its peer has made
    by_cases hin : incoming t e = []
    · exact hnil hin
    · obtain ⟨rfl, hflight⟩ := htoken.inFlight_of_incoming hin
      obtain ⟨o, n, k, ho, hn, -, hbytes⟩ := hflight.bytes
      exact ⟨o, n, k, ho, hn, hbytes⟩

end Handshake

/-- **The handshake gives each end its role.** In every run of two instances from the start of
their main loops in which the second `ENTER` comes after the `VM_CONNECTED` of the first has
arrived: the two ends are never both choosers; when both are in the game, one is white and the
other black; an end in the game has nothing to read but the rest of one message of a move; and
who enters the game has the turn if and only if it plays white, and keeps its color. -/
theorem handshake_roles {d : Display} {s : System} (h : AtStart d s)
    {acts : List (Side × Action)} (hok : Along EnterOk (System.step d) s acts) :
    let s' := run (System.step d) s acts
    ¬ ((s' .left).vm.gameState = .choosingPlayer ∧ (s' .right).vm.gameState = .choosingPlayer) ∧
    ((∀ e, (s' e).vm.gameState = .playing) →
      ∃ w, (s' w).vm.player = .white ∧ (s' w.other).vm.player = .black) ∧
    (∀ e, (s' e).vm.gameState = .playing →
      ∃ o n k, IsCell o ∧ IsCell n ∧ incoming (table d s') e = (message o n).drop k) ∧
    ∀ a e,
      ((s' e).vm.gameState = .playing →
        (System.step d s' a e).vm.player = (s' e).vm.player) ∧
      ((s' e).vm.gameState ≠ .playing → (System.step d s' a e).vm.gameState = .playing →
        (System.step d s' a e).vm.myTurn = ((System.step d s' a e).vm.player == .white)) := by
  intro s'
  have hs : InLobby d s' :=
    run_invariant_along (InLobby d) EnterOk (fun _ a hinv => hinv.step a) h.inLobby hok
  refine ⟨?_, fun hplay => ?_, fun e hplay => ?_, hs.player_step⟩
  · simpa [table] using hs.phase.not_both_choosing
  · simpa [table] using hs.phase.roles (by simpa [table] using hplay)
  · exact hs.phase.unread (by simpa [table] using hplay)

/-- Two instances in the start state. -/
def startLobby : System := fun _ => { vm := Vm.initial, crashed := false }

theorem atStart_startLobby (d : Display) : AtStart d startLobby :=
  ⟨fun _ => fresh_initial d, fun _ => rfl⟩

/-- A one-letter name is entered, while `k` bytes arrive. -/
def enterName (e : Side) (k : ℕ) : List (Side × Action) :=
  [(e, .event 0 (.keyboard 0x9e)), (e, .event k (.keyboard enter))]

/-- A mouse packet. -/
def mouseAt (deltaX deltaY : Int16) (lb : Bool) : Action :=
  .event 0 (.mouse ⟨lb, false, false, false, false, deltaX, deltaY⟩)

/-- The left end connects first, and chooses white. -/
def orderly : List (Side × Action) :=
  enterName .left 0 ++ [(.left, .spWrite (some 0x20))] ++ enterName .right 1 ++
    pass .right ++ pass .left ++
    [(.left, mouseAt 200 (-255) false), (.left, mouseAt 200 (-255) false),
      (.left, mouseAt 0 (-20) true)] ++ pass .left

/-- The condition is one on the key `ENTER`. -/
theorem enterOk_of_ne {s : System} {e : Side} {a : Action}
    (h : ∀ k, a ≠ .event k (.keyboard enter)) : EnterOk s (e, a) :=
  fun k _ hact hconnect => absurd (hconnect.2.1 ▸ hact) (h k)

theorem along_enterOk {d : Display} {s : System} {acts : List (Side × Action)}
    (h : ∀ a ∈ acts, ∀ k, a.2 ≠ .event k (.keyboard enter)) :
    Along EnterOk (System.step d) s acts := by
  induction acts generalizing s with
  | nil => trivial
  | cons a acts ih =>
    obtain ⟨ha, hacts⟩ := List.forall_mem_cons.mp h
    exact ⟨enterOk_of_ne ha, ih hacts⟩

/-- The second `ENTER` of the orderly handshake finds the `VM_CONNECTED` of the first. -/
theorem along_orderly :
    Along EnterOk (System.step (Display.mode115 Images.blank)) startLobby orderly := by
  have hletter : ∀ k, Action.event 0 (.keyboard 0x9e) ≠ .event k (.keyboard enter) := by
    simp [enter]
  refine ⟨enterOk_of_ne hletter, ?_, enterOk_of_ne (by simp), enterOk_of_ne hletter, ?_,
    along_enterOk ?_⟩
  · exact fun _ _ _ _ hne => absurd rfl hne
  -- the one `ENTER` that finds the peer connected
  · rintro k event hact - -
    cases hact
    exact ⟨by decide +kernel, by decide +kernel⟩
  · simp [pass, mouseAt]

/-- An orderly handshake ends with both ends in the game. -/
theorem handshake_roles_orderly :
    let d := Display.mode115 Images.blank
    let s := run (System.step d) startLobby orderly
    (∀ e, (s e).vm.gameState = .playing) ∧
      ∃ w, (s w).vm.player = .white ∧ (s w.other).vm.player = .black := by
  intro d s
  have hplay : ∀ e, (s e).vm.gameState = .playing := fun e => by cases e <;> decide +kernel
  exact ⟨hplay, (handshake_roles (atStart_startLobby d) along_orderly).2.1 hplay⟩

/-- The right end enters its name before the left one has written its `VM_CONNECTED`. -/
def crossing : List (Side × Action) :=
  enterName .left 0 ++ enterName .right 0 ++
    [(.left, .spWrite (some 0x20))] ++ pass .right ++
    [(.right, .spRead true), (.right, .event 0 .newFrame)]

/-- **Crossing `ENTER`s make both ends choosers.** -/
theorem handshake_fails :
    let d := Display.mode115 Images.blank
    let s := run (System.step d) startLobby crossing
    (s .left).vm.gameState = .choosingPlayer ∧ (s .right).vm.gameState = .choosingPlayer :=
  ⟨rfl, rfl⟩

end LCChess
