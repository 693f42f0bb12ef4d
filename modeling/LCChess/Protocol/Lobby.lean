import LCChess.Protocol.Token

/-!
# The menus

What the menus do to a seat: they connect to the peer, and agree who plays white. The game of
the seat has not begun, and they leave it alone.

## Main definitions

* `Seat.MenuEvent k`: the events of a seat in the menus, while `k` bytes of the line arrive
* `IsConnect vm event`: the event is the `ENTER` that leaves the name screen

## Main results

* `handleEvent_menu`: the events of the program in the menus are those of its seat
-/

namespace LCChess

/-- The color byte that a player sends to the other. -/
def Player.colorByte (p : Player) : UInt8 :=
  if p = .white then Player.black.toByte else Player.white.toByte

namespace Seat

/-- `waiting_ih` reads the byte `b`. -/
def answer (s : Seat) (b : UInt8) : Seat :=
  if b = vmConnected then
    { s with
      gameState := .choosingPlayer
      transmit := enqueue s.transmit receiveVmConnected }
  else if b = receiveVmConnected then { s with gameState := .waitChoosingPlayer }
  else s

/-- `waiting_choosing_ih` reads the byte `b`. -/
def enter (s : Seat) (b : UInt8) : Seat :=
  if b = 0 then s
  else
    { s with
      gameState := .playing
      player := if b = Player.white.toByte then .white else .black
      myTurn := b == Player.white.toByte }

/-- The events of a seat in the menus, while `k` bytes of the line arrive. -/
inductive MenuEvent (k : ℕ) : Seat → Seat → Prop
  /-- An event that the protocol does not see. -/
  | idle (s : Seat) : MenuEvent k s s
  | connect (s : Seat) : s.gameState = .start →
      MenuEvent k s { s with
        gameState := .waiting
        receive := []
        line := s.line.drop k
        transmit := enqueue s.transmit vmConnected }
  | wait (s : Seat) (b : UInt8) (rest : List UInt8) : s.gameState = .waiting →
      s.receive = b :: rest → MenuEvent k s ({ s with receive := rest }.answer b)
  | choose (s : Seat) (p : Player) : s.gameState = .choosingPlayer → p = .white ∨ p = .black →
      MenuEvent k s { s with
        gameState := .playing
        player := p
        myTurn := p == .white
        transmit := enqueue s.transmit p.colorByte }
  /-- `waiting_choosing_ih` reads the UART itself. -/
  | fetch (s s' : Seat) (b : UInt8) (rest : List UInt8) : s.gameState = .waitChoosingPlayer →
      s.line = b :: rest →
      MenuEvent k { s with line := rest, receive := enqueue s.receive b } s' → MenuEvent k s s'
  | color (s : Seat) (b : UInt8) (rest : List UInt8) : s.gameState = .waitChoosingPlayer →
      s.receive = b :: rest → MenuEvent k s ({ s with receive := rest }.enter b)

/-- The menus leave the game alone. -/
theorem MenuEvent.frame {k : ℕ} {s s' : Seat} (h : MenuEvent k s s') :
    s'.cells = s.cells ∧ s'.dragging = s.dragging ∧ s'.inicial = s.inicial := by
  induction h with
  | idle => exact ⟨rfl, rfl, rfl⟩
  | connect => exact ⟨rfl, rfl, rfl⟩
  | wait s b rest =>
    unfold answer
    split_ifs <;> exact ⟨rfl, rfl, rfl⟩
  | choose => exact ⟨rfl, rfl, rfl⟩
  | fetch s s' b rest _ _ _ ih => exact ih
  | color s b rest =>
    unfold enter
    split_ifs <;> exact ⟨rfl, rfl, rfl⟩

/-- Who enters the game has the turn if and only if it plays white. -/
theorem MenuEvent.myTurn {k : ℕ} {s s' : Seat} (h : MenuEvent k s s')
    (hs : s.gameState ≠ .playing) (hs' : s'.gameState = .playing) :
    s'.myTurn = (s'.player == .white) := by
  induction h with
  | idle => exact absurd hs' hs
  | connect => simp at hs'
  | wait s b rest hwait =>
    unfold answer at hs'
    split_ifs at hs'
    exact absurd hs' hs
  | choose => rfl
  | fetch s s' b rest _ _ _ ih => exact ih hs hs'
  | color s b rest hwait =>
    unfold enter at hs' ⊢
    split_ifs at hs' ⊢ with hb hwhite
    · exact absurd hs' hs
    · simp [hwhite]
    · simp [hwhite]

end Seat

/-! ## The handlers -/

/-- The event is the `ENTER` that leaves the name screen. -/
def IsConnect (vm : Vm) (event : Event) : Prop :=
  vm.gameState = .start ∧ event = .keyboard enter ∧ 0 < vm.nameSize

/-- The protocol sees no difference between two states. -/
structure SameView (vm vm' : Vm) : Prop extends SameGame vm vm' where
  gameState : vm'.gameState = vm.gameState
  player : vm'.player = vm.player
  myTurn : vm'.myTurn = vm.myTurn
  transmit : vm'.transmitQueue = vm.transmitQueue
  receive : vm'.receiveQueue = vm.receiveQueue
  line : vm'.line = vm.line

namespace SameView

theorem refl (vm : Vm) : SameView vm vm :=
  ⟨⟨rfl, rfl, rfl, rfl, rfl, rfl, rfl, rfl, rfl, rfl⟩, rfl, rfl, rfl, rfl, rfl, rfl⟩

theorem trans {vm vm' vm'' : Vm} (h : SameView vm vm') (h' : SameView vm' vm'') :
    SameView vm vm'' :=
  ⟨⟨h'.created.trans h.created, h'.board.trans h.board, h'.heap.trans h.heap,
    h'.move.trans h.move, h'.byteOfMove.trans h.byteOfMove, h'.dragging.trans h.dragging,
    h'.inicialRow.trans h.inicialRow, h'.inicialCol.trans h.inicialCol,
    h'.endGame.trans h.endGame, h'.won.trans h.won⟩, h'.gameState.trans h.gameState,
    h'.player.trans h.player, h'.myTurn.trans h.myTurn, h'.transmit.trans h.transmit,
    h'.receive.trans h.receive, h'.line.trans h.line⟩

theorem createBackground (vm : Vm) (screen : Memory) :
    SameView vm (vm.createBackground screen) := by
  unfold Vm.createBackground
  split
  · exact refl vm
  · exact ⟨⟨rfl, rfl, rfl, rfl, rfl, rfl, rfl, rfl, rfl, rfl⟩, rfl, rfl, rfl, rfl, rfl, rfl⟩

theorem showBackground (vm : Vm) (g : Geometry) : SameView vm (vm.showBackground g) := by
  unfold Vm.showBackground
  split
  · exact ⟨⟨rfl, rfl, rfl, rfl, rfl, rfl, rfl, rfl, rfl, rfl⟩, rfl, rfl, rfl, rfl, rfl, rfl⟩
  · exact refl vm

theorem presentFrame (d : Display) (vm : Vm) : SameView vm (presentFrame d vm) :=
  ⟨⟨rfl, rfl, rfl, rfl, rfl, rfl, rfl, rfl, rfl, rfl⟩, rfl, rfl, rfl, rfl, rfl, rfl⟩

end SameView

section Handlers

variable {d : Display} {vm : Vm} (h : Ready d vm)
include h

theorem Ready.view (vm' : Vm) (hview : SameView vm vm') :
    Ready d vm' ∧ seat d vm' = seat d vm := by
  obtain ⟨hready, hseat⟩ := h.frame vm' hview.toSameGame (by rw [hview.transmit]; exact h.transmit)
    (by rw [hview.receive]; exact h.receive)
  refine ⟨hready, hseat.trans ?_⟩
  obtain ⟨cells, hframe⟩ := seat_frame d vm
  rw [hframe, hview.gameState, hview.player, hview.myTurn, hview.transmit, hview.receive,
    hview.line]
  rfl

theorem Ready.send (data : UInt8) : Ready d (vm.send data) ∧
    seat d (vm.send data) =
      { seat d vm with transmit := enqueue (seat d vm).transmit data } := by
  obtain ⟨hready, hseat⟩ := h.withTransmit
    ⟨wellFormed_addToTransmitQueue h.transmit.1 data, by simpa using h.transmit.2⟩
  refine ⟨hready, hseat.trans ?_⟩
  rw [addToTransmitQueue_eq, toList_addToQueue h.transmit, seat_transmit]

/-- Another menu, or the game, with the color that was agreed on. -/
theorem Ready.enter (gameState : GameState) (player : Player) (myTurn : Bool)
    (background : GameState → Option Memory) :
    Ready d { vm with
        gameState := gameState, player := player, myTurn := myTurn, background := background } ∧
      seat d { vm with
          gameState := gameState, player := player, myTurn := myTurn,
          background := background } =
        { seat d vm with gameState := gameState, player := player, myTurn := myTurn } := by
  obtain ⟨hready, hseat⟩ := h.frame { vm with
      gameState := gameState, player := player, myTurn := myTurn, background := background }
    ⟨rfl, rfl, rfl, rfl, rfl, rfl, rfl, rfl, rfl, rfl⟩ h.transmit h.receive
  refine ⟨hready, hseat.trans ?_⟩
  simp only [← seat_transmit d, ← seat_receive d, ← seat_line d]

/-- One byte is polled. -/
theorem Ready.poll (b : UInt8) (rest : List UInt8)
    (hpoll : (vm.receiveQueue.toList = [] ∧ b = 0 ∧ rest = []) ∨
      vm.receiveQueue.toList = b :: rest) :
    (readFromQueue vm.receiveQueue).1 = b ∧
      Ready d { vm with receiveQueue := (readFromQueue vm.receiveQueue).2 } ∧
      seat d { vm with receiveQueue := (readFromQueue vm.receiveQueue).2 } =
        { seat d vm with receive := rest } := by
  have hqueue : (readFromQueue vm.receiveQueue).1 = b ∧
      (readFromQueue vm.receiveQueue).2.toList = rest := by
    obtain ⟨hnil, rfl, rfl⟩ | hcons := hpoll
    · rw [readFromQueue_of_nil hnil]
      exact ⟨rfl, hnil⟩
    · exact readFromQueue_of_cons h.receive.1 hcons
  obtain ⟨hready, hseat⟩ := h.withReceive
    ⟨wellFormed_readFromQueue h.receive.1, by simpa using h.receive.2⟩ vm.line
  refine ⟨hqueue.1, hready, hseat.trans ?_⟩
  rw [hqueue.2, ← seat_line d]

/-- `waiting_ih`. -/
theorem menu_waiting (hstate : vm.gameState = .waiting) (k : ℕ) (event : Event) :
    Ready d (waitingIh d event vm) ∧
      Seat.MenuEvent k (seat d vm) (seat d (waitingIh d event vm)) := by
  have hcreate := SameView.createBackground vm (menuScreen d d.waiting 0 0)
  have hidle : Ready d (vm.createBackground (menuScreen d d.waiting 0 0)) ∧
      Seat.MenuEvent k (seat d vm)
        (seat d (vm.createBackground (menuScreen d d.waiting 0 0))) := by
    obtain ⟨hready, hseat⟩ := h.view _ hcreate
    exact ⟨hready, hseat ▸ .idle _⟩
  cases event with
  | mouse packet => exact hidle
  | keyboard code => exact hidle
  | newFrame =>
    have hview := hcreate.trans (SameView.showBackground _ d.toGeometry)
    set v := (vm.createBackground (menuScreen d d.waiting 0 0)).showBackground d.toGeometry
    obtain ⟨hready, hseat⟩ := h.view _ hview
    have hstep : waitingIh d .newFrame vm =
        let w := { v with receiveQueue := (readFromQueue v.receiveQueue).2 }
        if (readFromQueue v.receiveQueue).1 = vmConnected then
          { w with gameState := .choosingPlayer }.send receiveVmConnected
        else if (readFromQueue v.receiveQueue).1 = receiveVmConnected then
          { w with gameState := .waitChoosingPlayer }
        else w := rfl
    have hstate' : (seat d v).gameState = .waiting := by rw [hseat, seat_gameState, hstate]
    rw [hstep, ← hseat]
    dsimp only
    -- an empty queue answers `0`, which is no byte of the handshake
    cases hq : v.receiveQueue.toList with
    | nil =>
      obtain ⟨hb, hready', hseat'⟩ := hready.poll 0 [] (.inl ⟨hq, rfl, rfl⟩)
      have hstay : ({ seat d v with receive := [] } : Seat) = seat d v := by
        rw [← hq, ← seat_receive d]
      rw [hb, if_neg (by decide), if_neg (by decide)]
      exact ⟨hready', hseat'.trans hstay ▸ .idle _⟩
    | cons b rest =>
      obtain ⟨hb, hready', hseat'⟩ := hready.poll b rest (.inr hq)
      have hevent := Seat.MenuEvent.wait (k := k) (seat d v) b rest hstate' (by simpa using hq)
      rw [hb]
      by_cases hconnected : b = vmConnected
      · obtain ⟨hready₁, hseat₁⟩ := hready'.enter .choosingPlayer v.player v.myTurn v.background
        obtain ⟨hready₂, hseat₂⟩ := hready₁.send receiveVmConnected
        rw [if_pos hconnected]
        refine ⟨hready₂, ?_⟩
        rw [Seat.answer, if_pos hconnected] at hevent
        refine Eq.mp (congrArg _ ?_) hevent
        refine Eq.trans ?_ hseat₂.symm
        rw [hseat₁, hseat', ← seat_player d, ← seat_myTurn d]
      · rw [if_neg hconnected]
        rw [Seat.answer, if_neg hconnected] at hevent
        by_cases hreceived : b = receiveVmConnected
        · obtain ⟨hready₁, hseat₁⟩ :=
            hready'.enter .waitChoosingPlayer v.player v.myTurn v.background
          rw [if_pos hreceived]
          refine ⟨hready₁, ?_⟩
          rw [if_pos hreceived] at hevent
          refine Eq.mp (congrArg _ ?_) hevent
          refine Eq.trans ?_ hseat₁.symm
          rw [hseat', ← seat_player d, ← seat_myTurn d]
        · rw [if_neg hreceived]
          rw [if_neg hreceived] at hevent
          exact ⟨hready', hseat' ▸ hevent⟩

/-- The poll of `waiting_choosing_ih`. -/
theorem menu_color (hstate : vm.gameState = .waitChoosingPlayer) (k : ℕ) :
    let w := { vm with receiveQueue := (readFromQueue vm.receiveQueue).2 }
    let w' :=
      if (readFromQueue vm.receiveQueue).1 ≠ 0 then
        (if (readFromQueue vm.receiveQueue).1 = Player.white.toByte then
          { w with myTurn := true, player := .white }
        else { w with myTurn := false, player := .black }).leaveMenu .playing
      else w
    Ready d w' ∧ Seat.MenuEvent k (seat d vm) (seat d w') := by
  dsimp only
  have hstate' : (seat d vm).gameState = .waitChoosingPlayer := by rw [seat_gameState, hstate]
  cases hq : vm.receiveQueue.toList with
  | nil =>
    obtain ⟨hb, hready, hseat⟩ := h.poll 0 [] (.inl ⟨hq, rfl, rfl⟩)
    have hstay : ({ seat d vm with receive := [] } : Seat) = seat d vm := by
      rw [← hq, ← seat_receive d]
    rw [hb, if_neg (by decide)]
    exact ⟨hready, hseat.trans hstay ▸ .idle _⟩
  | cons b rest =>
    obtain ⟨hb, hready, hseat⟩ := h.poll b rest (.inr hq)
    -- a `0` that has arrived is taken for an empty queue
    have hevent := Seat.MenuEvent.color (k := k) (seat d vm) b rest hstate' (by simpa using hq)
    rw [hb]
    by_cases hzero : b = 0
    · rw [if_neg (not_not.mpr hzero)]
      rw [Seat.enter, if_pos hzero] at hevent
      exact ⟨hready, hseat ▸ hevent⟩
    · rw [if_pos hzero]
      rw [Seat.enter, if_neg hzero] at hevent
      by_cases hwhite : b = Player.white.toByte
      · rw [if_pos hwhite]
        rw [if_pos hwhite, hwhite, beq_self_eq_true] at hevent
        obtain ⟨hready', hseat'⟩ := hready.enter .playing .white true
          (Function.update vm.background vm.gameState none)
        exact ⟨hready', (hseat'.trans (by rw [hseat])) ▸ hevent⟩
      · rw [if_neg hwhite]
        rw [if_neg hwhite, beq_eq_false_iff_ne.mpr hwhite] at hevent
        obtain ⟨hready', hseat'⟩ := hready.enter .playing .black false
          (Function.update vm.background vm.gameState none)
        exact ⟨hready', (hseat'.trans (by rw [hseat])) ▸ hevent⟩

/-- `waiting_choosing_ih`. -/
theorem menu_waitingChoosing (hstate : vm.gameState = .waitChoosingPlayer) (k : ℕ) (arrived : Bool)
    (event : Event) :
    Ready d (waitingChoosingIh d arrived event vm) ∧
      Seat.MenuEvent k (seat d vm) (seat d (waitingChoosingIh d arrived event vm)) := by
  have hcreate := SameView.createBackground vm (menuScreen d d.waiting 0 0)
  have hidle : Ready d (vm.createBackground (menuScreen d d.waiting 0 0)) ∧
      Seat.MenuEvent k (seat d vm)
        (seat d (vm.createBackground (menuScreen d d.waiting 0 0))) := by
    obtain ⟨hready, hseat⟩ := h.view _ hcreate
    exact ⟨hready, hseat ▸ .idle _⟩
  cases event with
  | mouse packet => exact hidle
  | keyboard code => exact hidle
  | newFrame =>
    have hview := hcreate.trans (SameView.showBackground _ d.toGeometry)
    set v := (vm.createBackground (menuScreen d d.waiting 0 0)).showBackground d.toGeometry
    obtain ⟨hready, hseat⟩ := h.view _ hview
    have hstate' : v.gameState = .waitChoosingPlayer := hview.gameState.trans hstate
    -- the handler reads the UART, then the queue
    set u : Vm := { v with
      line := (readLine arrived v.line v.receiveQueue).1
      receiveQueue := (readLine arrived v.line v.receiveQueue).2 } with hu
    obtain ⟨hready₁, hseat₁⟩ := hready.withReceive
      ⟨wellFormed_readLine hready.receive.1 arrived v.line, by simpa using hready.receive.2⟩
      (readLine arrived v.line v.receiveQueue).1
    obtain ⟨hready₂, hevent⟩ :=
      menu_color hready₁ (show u.gameState = .waitChoosingPlayer from hstate') k
    refine ⟨hready₂, ?_⟩
    rw [← hseat]
    have hfetch : seat d u = seat d v ∨ ∃ b rest, (seat d v).line = b :: rest ∧
        seat d u = { seat d v with line := rest, receive := enqueue (seat d v).receive b } := by
      rcases readLine_cases arrived v.line v.receiveQueue with hread | ⟨b, rest, hline, hread⟩
      · left
        rw [hu, hseat₁, hread, ← seat_line d, ← seat_receive d]
      · right
        refine ⟨b, rest, by simpa using hline, ?_⟩
        rw [hu, hseat₁, hread, toList_addToQueue hready.receive, seat_receive]
    obtain heq | ⟨b, rest, hline, heq⟩ := hfetch
    · exact heq ▸ hevent
    · exact .fetch _ _ b rest (by rw [seat_gameState, hstate']) hline (heq ▸ hevent)

/-- `choosing_ih`. -/
theorem menu_choosing (hstate : vm.gameState = .choosingPlayer) (k : ℕ) (event : Event) :
    Ready d (choosingIh d event vm) ∧
      Seat.MenuEvent k (seat d vm) (seat d (choosingIh d event vm)) := by
  have hcreate := SameView.createBackground vm (menuScreen d d.playerChoice 95 15)
  set v := vm.createBackground (menuScreen d d.playerChoice 95 15) with hv
  obtain ⟨hready, hseat⟩ := h.view _ hcreate
  have hstate' : (seat d v).gameState = .choosingPlayer := by rw [hseat, seat_gameState, hstate]
  cases event with
  | keyboard code => exact ⟨hready, hseat ▸ .idle _⟩
  | newFrame =>
    obtain ⟨hready', hseat'⟩ := h.view _ (hcreate.trans (SameView.showBackground v d.toGeometry))
    exact ⟨hready', hseat' ▸ .idle _⟩
  | mouse packet =>
    cases hclick : cursorClickPlayer v.cursor with
    | none =>
      have hstep : choosingIh d (.mouse packet) vm = v := by
        simp only [choosingIh, ← hv, hclick]
      rw [hstep]
      exact ⟨hready, hseat ▸ .idle _⟩
    | some p =>
      -- a click on neither button chooses nothing
      have hp : p = .white ∨ p = .black := by
        unfold cursorClickPlayer at hclick
        split_ifs at hclick
        · exact .inr (Option.some.inj hclick).symm
        · exact .inl (Option.some.inj hclick).symm
      have hstep : choosingIh d (.mouse packet) vm =
          { ({ v with player := p }.send p.colorByte) with myTurn := p == Player.white }.leaveMenu
            .playing := by
        simp only [choosingIh, ← hv, hclick, Player.colorByte]
      have hevent := Seat.MenuEvent.choose (k := k) (seat d v) p hstate' hp
      obtain ⟨hready₁, hseat₁⟩ := hready.enter v.gameState p v.myTurn v.background
      obtain ⟨hready₂, hseat₂⟩ := hready₁.send p.colorByte
      obtain ⟨hready₃, hseat₃⟩ := hready₂.enter .playing p (p == Player.white)
        (Function.update v.background v.gameState none)
      rw [hstep, ← hseat]
      refine ⟨hready₃, ?_⟩
      have heq := hseat₃.trans (by rw [hseat₂, hseat₁])
      exact heq ▸ hevent

/-- `name_choice_ih`: the name is written, or the seat connects. -/
theorem menu_nameChoice (hstate : vm.gameState = .start) (k : ℕ) (event : Event) :
    Ready d (nameChoiceIh d k event vm) ∧
      Seat.MenuEvent k (seat d vm) (seat d (nameChoiceIh d k event vm)) ∧
      ((nameChoiceIh d k event vm).gameState ≠ .start → IsConnect vm event) := by
  set v : Vm :=
    if (vm.background .start).isNone then
      { vm with
        background := Function.update vm.background .start (some (nameScreen d vm.name))
        redraw := false }
    else vm with hv
  have hview : SameView vm v := by
    rw [hv]
    split
    · exact ⟨⟨rfl, rfl, rfl, rfl, rfl, rfl, rfl, rfl, rfl, rfl⟩, rfl, rfl, rfl, rfl, rfl, rfl⟩
    · exact .refl vm
  have hidle : ∀ {w : Vm}, SameView v w →
      Ready d w ∧ Seat.MenuEvent k (seat d vm) (seat d w) ∧
        (w.gameState ≠ .start → IsConnect vm event) := by
    intro w hw
    obtain ⟨hready, hseat⟩ := h.view _ (hview.trans hw)
    exact ⟨hready, hseat ▸ .idle _,
      fun hne => absurd ((hview.trans hw).gameState.trans hstate) hne⟩
  cases event with
  | mouse packet => exact hidle (.refl v)
  | newFrame =>
    have hredraw : SameView v (if v.redraw then
        { v with
          background := Function.update v.background .start (some (nameScreen d v.name))
          redraw := false }
        else v) := by
      by_cases hv : v.redraw = true
      · rw [if_pos hv]
        exact ⟨⟨rfl, rfl, rfl, rfl, rfl, rfl, rfl, rfl, rfl, rfl⟩, rfl, rfl, rfl, rfl, rfl, rfl⟩
      · rw [if_neg hv]
        exact .refl v
    exact hidle (hredraw.trans (SameView.showBackground _ d.toGeometry))
  | keyboard code =>
    have hsize : v.nameSize = vm.nameSize := by
      rw [hv]
      split <;> rfl
    have hstep : nameChoiceIh d k (.keyboard code) vm = nameChoiceKeyboard k code v := rfl
    have hname : ∀ (name : ℕ → UInt8) (size : ℕ),
        SameView v { v with redraw := true, nameSize := size, name := name } := fun _ _ =>
      ⟨⟨rfl, rfl, rfl, rfl, rfl, rfl, rfl, rfl, rfl, rfl⟩, rfl, rfl, rfl, rfl, rfl, rfl⟩
    rw [hstep]
    unfold nameChoiceKeyboard
    dsimp only
    split_ifs with hbreak hback henter hletter
    · exact hidle (hname _ _)
    · -- `ENTER`
      obtain ⟨rfl, hpos⟩ := henter
      obtain ⟨hready, hseat⟩ := h.view _ hview
      -- `sp_clear` discards what has been received, and what arrives meanwhile
      obtain ⟨hwf, hcap, hnil, hline⟩ := spClear_spec hready.receive.1 k v.line
      obtain ⟨hready₁, hseat₁⟩ := hready.withReceive
        ⟨hwf, hcap.trans hready.receive.2⟩ (spClear k v.line v.receiveQueue).1
      set u : Vm := { v with
        redraw := true
        name := Function.update v.name v.nameSize 0
        line := (spClear k v.line v.receiveQueue).1
        receiveQueue := (spClear k v.line v.receiveQueue).2 }
      obtain ⟨hready₂, hseat₂⟩ := hready₁.view u
        ⟨⟨rfl, rfl, rfl, rfl, rfl, rfl, rfl, rfl, rfl, rfl⟩, rfl, rfl, rfl, rfl, rfl, rfl⟩
      obtain ⟨hready₃, hseat₃⟩ := hready₂.send vmConnected
      obtain ⟨hready₄, hseat₄⟩ := hready₃.enter .waiting v.player v.myTurn
        (Function.update v.background v.gameState none)
      have hstate' : (seat d v).gameState = .start := by rw [hseat, seat_gameState, hstate]
      have hevent := Seat.MenuEvent.connect (k := k) (seat d v) hstate'
      refine ⟨hready₄, ?_, fun _ => ⟨hstate, rfl, hsize ▸ hpos⟩⟩
      have heq : seat d ((u.send vmConnected).leaveMenu .waiting) = { seat d v with
          gameState := .waiting
          receive := []
          line := (seat d v).line.drop k
          transmit := enqueue (seat d v).transmit vmConnected } := by
        refine hseat₄.trans ?_
        rw [hseat₃, hseat₂, hseat₁, hnil, hline]
        simp only [seat_player, seat_myTurn, seat_line]
      rw [← hseat]
      exact heq ▸ hevent
    · exact hidle (hname _ _)
    · exact hidle (hname _ _)
    · exact hidle (.refl v)

end Handlers

/-- **The events of the program in the menus are those of its seat**, and it connects at an
`ENTER` only. -/
theorem handleEvent_menu {d : Display} {k : ℕ} {event : Event} {vm vm' : Vm} (h : Ready d vm)
    (hplay : vm.gameState ≠ .playing) (hexit : vm.gameState ≠ .exit)
    (hev : handleEvent d k event vm = some vm') :
    Ready d vm' ∧ Seat.MenuEvent k (seat d vm) (seat d vm') ∧
      (vm.gameState = .start → vm'.gameState ≠ .start → IsConnect vm event) := by
  -- a mouse packet moves the cursor first, a frame is presented behind
  have hinput : ∀ {v v' : Vm}, SameView vm v → v.nameSize = vm.nameSize →
      inputHandler d k event v = some v' →
      Ready d v' ∧ Seat.MenuEvent k (seat d vm) (seat d v') ∧
        (vm.gameState = .start → v'.gameState ≠ .start → IsConnect vm event) := by
    intro v v' hview hsize hinput
    obtain ⟨hready, hseat⟩ := h.view _ hview
    have hstate := hview.gameState
    rw [← hseat]
    unfold inputHandler at hinput
    split at hinput
    · rename_i hv
      obtain rfl := Option.some.inj hinput
      obtain ⟨hready', hevent, hconnect⟩ := menu_nameChoice hready hv k event
      refine ⟨hready', hevent, fun hstart hne => ?_⟩
      obtain ⟨-, hev, hpos⟩ := hconnect hne
      exact ⟨hstart, hev, hsize ▸ hpos⟩
    · rename_i hv
      obtain rfl := Option.some.inj hinput
      obtain ⟨hready', hevent⟩ := menu_waiting hready hv k event
      exact ⟨hready', hevent, fun hs => by simp [← hstate, hv] at hs⟩
    · rename_i hv
      exact absurd (hstate.symm.trans hv) hplay
    · rename_i hv
      obtain rfl := Option.some.inj hinput
      obtain ⟨hready', hevent⟩ := menu_choosing hready hv k event
      exact ⟨hready', hevent, fun hs => by simp [← hstate, hv] at hs⟩
    · rename_i hv
      obtain rfl := Option.some.inj hinput
      obtain ⟨hready', hevent⟩ := menu_waitingChoosing hready hv k (k ≠ 0) event
      exact ⟨hready', hevent, fun hs => by simp [← hstate, hv] at hs⟩
    · rename_i hv
      exact absurd (hstate.symm.trans hv) hexit
  cases event with
  | keyboard code => exact hinput (.refl vm) rfl hev
  | mouse packet =>
    exact hinput (v := { vm with cursor := updateCursor d.toGeometry packet vm.cursor })
      ⟨⟨rfl, rfl, rfl, rfl, rfl, rfl, rfl, rfl, rfl, rfl⟩, rfl, rfl, rfl, rfl, rfl, rfl⟩ rfl hev
  | newFrame =>
    obtain ⟨v', hv', rfl⟩ := Option.map_eq_some_iff.mp hev
    obtain ⟨hready, hevent, hconnect⟩ := hinput (.refl vm) rfl hv'
    obtain ⟨hready', hseat⟩ := hready.view _ (SameView.presentFrame d v')
    exact ⟨hready', hseat ▸ hevent, hconnect⟩

end LCChess
