import LCChess.Program.Playing

/-!
# The menus and the main loop

The other event handlers of `main.c`, and one instance of the program as a transition system:
its actions are the events of the queue, the calls of `sp_write` and `sp_read`, and the arrival
of a byte on the serial line.

## Main definitions

* `nameChoiceIh`, `waitingIh`, `waitingChoosingIh`, `choosingIh`, `inputHandler`: the handlers
* `handleEvent`: one event of `proj_main_loop`
* `Instance`, `Instance.step`: one instance, and its actions
* `System`, `System.step`: two instances on one serial line
-/

namespace LCChess

section Handlers

variable (d : Display)

/-- A menu screen: an image on a cleared buffer. -/
def menuScreen (image : XpmImage) (x y : ℕ) : Memory :=
  drawImage d.toGeometry (vgClear d.toGeometry fun _ => 0) image x y

/-- The screen of `name_choice_ih`. -/
def nameScreen (name : ℕ → UInt8) : Memory :=
  drawName d (menuScreen d d.nameChoice 95 15) name 142 312 68

/-- The `KEYBOARD` events of `name_choice_ih`; `arrivals` bytes arrive during `sp_clear`. -/
def nameChoiceKeyboard (arrivals : ℕ) (code : UInt8) (vm : Vm) : Vm :=
  if code &&& 0x80 ≠ 0 then
    let vm := { vm with redraw := true }
    if code = backSpace ∧ 0 < vm.nameSize then
      { vm with
        nameSize := vm.nameSize - 1
        name := Function.update vm.name (vm.nameSize - 1) 0 }
    else if code = enter ∧ 0 < vm.nameSize then
      let vm := { vm with name := Function.update vm.name vm.nameSize 0 }
      -- what has arrived before the name was entered is thrown away
      let (line, receiveQueue) := spClear arrivals vm.line vm.receiveQueue
      let vm := { vm with line := line, receiveQueue := receiveQueue }
      (vm.send vmConnected).leaveMenu .waiting
    -- an `ENTER` on the empty name falls through to here, and is stored
    else if code ≠ backSpace ∧ vm.nameSize < maxNameSize then
      { vm with
        name := Function.update vm.name vm.nameSize code
        nameSize := vm.nameSize + 1 }
    else vm
  else vm

/-- `name_choice_ih`. -/
def nameChoiceIh (arrivals : ℕ) (event : Event) (vm : Vm) : Vm :=
  let vm :=
    if (vm.background .start).isNone then
      { vm with
        background := Function.update vm.background .start (some (nameScreen d vm.name))
        redraw := false }
    else vm
  match event with
  | .newFrame =>
    let vm :=
      if vm.redraw then
        { vm with
          background := Function.update vm.background .start (some (nameScreen d vm.name))
          redraw := false }
      else vm
    vm.showBackground d.toGeometry
  | .keyboard code => nameChoiceKeyboard arrivals code vm
  | .mouse _ => vm

/-- `waiting_ih`. -/
def waitingIh (event : Event) (vm : Vm) : Vm :=
  let vm := vm.createBackground (menuScreen d d.waiting 0 0)
  match event with
  | .newFrame =>
    let vm := vm.showBackground d.toGeometry
    let (receivedByte, receiveQueue) := readFromQueue vm.receiveQueue
    let vm := { vm with receiveQueue := receiveQueue }
    -- a byte that is neither of the two is lost
    if receivedByte = vmConnected then
      { vm with gameState := .choosingPlayer }.send receiveVmConnected
    else if receivedByte = receiveVmConnected then { vm with gameState := .waitChoosingPlayer }
    else vm
  | _ => vm

/-- `waiting_choosing_ih`; its `sp_read` finds a byte when one has arrived. The handler is
entered once, so that its background is created at its first call. -/
def waitingChoosingIh (arrived : Bool) (event : Event) (vm : Vm) : Vm :=
  let vm := vm.createBackground (menuScreen d d.waiting 0 0)
  match event with
  | .newFrame =>
    let vm := vm.showBackground d.toGeometry
    -- this handler reads the line itself, besides the main loop
    let (line, receiveQueue) := readLine arrived vm.line vm.receiveQueue
    let (receivedByte, receiveQueue) := readFromQueue receiveQueue
    let vm := { vm with line := line, receiveQueue := receiveQueue }
    if receivedByte ≠ 0 then
      let vm :=
        if receivedByte = Player.white.toByte then { vm with myTurn := true, player := .white }
        else { vm with myTurn := false, player := .black }
      vm.leaveMenu .playing
    else vm
  | _ => vm

/-- `cursorClickPlayer`: the player that was clicked. -/
def cursorClickPlayer (cursor : Cursor) : Option Player :=
  if 307 < cursor.x ∧ cursor.x < 466 ∧ 62 < cursor.y ∧ cursor.y < 104 ∧ cursor.pressed = true then
    some .black
  else if 307 < cursor.x ∧ cursor.x < 466 ∧ 517 < cursor.y ∧ cursor.y < 558 ∧
      cursor.pressed = true then
    some .white
  else none

/-- `choosing_ih`. -/
def choosingIh (event : Event) (vm : Vm) : Vm :=
  let vm := vm.createBackground (menuScreen d d.playerChoice 95 15)
  match event with
  | .newFrame => vm.showBackground d.toGeometry
  | .mouse _ =>
    match cursorClickPlayer vm.cursor with
    | some player =>
      let vm := { vm with player := player }
      -- the other end is told its own color
      let vm := vm.send (if player = .white then Player.black.toByte else Player.white.toByte)
      { vm with myTurn := player == Player.white }.leaveMenu .playing
    | none => vm
  | .keyboard _ => vm

/-- `inputHandler`; `arrivals` bytes of the line arrive while it runs. -/
def inputHandler (arrivals : ℕ) (event : Event) (vm : Vm) : Option Vm :=
  match vm.gameState with
  | .start => some (nameChoiceIh d arrivals event vm)
  | .waiting => some (waitingIh d event vm)
  | .playing => playingIh d event vm
  | .choosingPlayer => some (choosingIh d event vm)
  | .waitChoosingPlayer => some (waitingChoosingIh d (arrivals ≠ 0) event vm)
  | .exit => some vm

/-- `drawCursor` and `copy_from_buffer`. -/
def presentFrame (vm : Vm) : Vm :=
  let videoMemBuffer :=
    drawImage d.toGeometry vm.videoMemBuffer d.arrow vm.cursor.x.toNat vm.cursor.y.toNat
  { vm with
    videoMemBuffer := videoMemBuffer
    videoMem := copyBuffers d.toGeometry vm.videoMem videoMemBuffer }

/-- One event of the queue in `proj_main_loop`. -/
def handleEvent (arrivals : ℕ) (event : Event) (vm : Vm) : Option Vm :=
  match event with
  | .mouse packet =>
    inputHandler d arrivals event
      { vm with cursor := updateCursor d.toGeometry packet vm.cursor }
  | .newFrame => (inputHandler d arrivals event vm).map (presentFrame d)
  | .keyboard _ => inputHandler d arrivals event vm

end Handlers

/-! ## The events of a game -/

section Events

variable {d : Display} {arrivals : ℕ} {event : Event} {vm : Vm}

theorem inputHandler_playing (h : vm.gameState = .playing) :
    inputHandler d arrivals event vm = playingIh d event vm := by
  simp only [inputHandler, h]

theorem inputHandler_exit (h : vm.gameState = .exit) :
    inputHandler d arrivals event vm = some vm := by
  simp only [inputHandler, h]

variable (h : vm.gameState = .playing)
include h

theorem handleEvent_frame : handleEvent d arrivals .newFrame vm =
    (receiveByte d (playingFrame d (leaveGame (ensureBoard d vm)))).map (presentFrame d) := by
  simp only [handleEvent, inputHandler_playing h, playingIh]

theorem handleEvent_keyboard (scanCode : UInt8) :
    handleEvent d arrivals (.keyboard scanCode) vm =
      some (playingKeyboard (leaveGame (ensureBoard d vm)) scanCode) := by
  simp only [handleEvent, inputHandler_playing h, playingIh]

theorem handleEvent_mouse (packet : Packet) :
    handleEvent d arrivals (.mouse packet) vm =
      some (playingMouse d (leaveGame { ensureBoard d vm with
        cursor := updateCursor d.toGeometry packet vm.cursor })) := by
  -- the cursor moves before the handler runs
  refine (inputHandler_playing (by exact h)).trans ?_
  rw [playingIh, ensureBoard_cursor]

/-- A packet with the button down goes on with a drag, in a game that goes on. -/
theorem handleEvent_follow {p : PieceRef} (hcreated : vm.boardCreated = true)
    (hgoing : vm.endGame = false) (hdrag : vm.draggingPiece = some p) {packet : Packet}
    (hheld : packet.lb = true) : handleEvent d arrivals (.mouse packet) vm =
      some (follow { vm with cursor := updateCursor d.toGeometry packet vm.cursor } p) := by
  have hreleased : (updateCursor d.toGeometry packet vm.cursor).released = false := by
    simp [hheld]
  rw [handleEvent_mouse h, ensureBoard_of_created hcreated, leaveGame_of_endGame (by exact hgoing)]
  exact congrArg some (playingMouse_follow (by exact hdrag) (by exact hreleased))

end Events

/-- Behind the game, events draw the cursor and nothing else. -/
theorem handleEvent_over {d : Display} {arrivals : ℕ} {event : Event} {vm : Vm}
    (h : vm.gameState = .exit) : handleEvent d arrivals event vm = some
      (match event with
      | .mouse packet => { vm with cursor := updateCursor d.toGeometry packet vm.cursor }
      | .newFrame => presentFrame d vm
      | .keyboard _ => vm) := by
  cases event with
  | mouse packet => exact inputHandler_exit (by exact h)
  | newFrame => rw [handleEvent, inputHandler_exit h, Option.map_some]
  | keyboard scanCode => exact inputHandler_exit h

/-! ## One instance -/

/-- One instance of the program; a crashed one has dereferenced a null piece in `vm`. -/
structure Instance where
  vm : Vm
  crashed : Bool

/-- The actions of one instance. The line status that `sp_write` reads is arbitrary, also a
failure; `sp_read` finds a byte if one has arrived. -/
inductive Action
  | event (arrivals : ℕ) (event : Event)
  | spWrite (lsr : Option UInt32)
  | spRead (arrived : Bool)

/-- The two states differ in their buffers at most, which stay well-formed. -/
def Vm.Buffered (vm vm' : Vm) : Prop :=
  ∃ transmit receive line,
    vm' = { vm with transmitQueue := transmit, receiveQueue := receive, line := line } ∧
    (vm.transmitQueue.WellFormed →
      transmit.WellFormed ∧ transmit.capacity = vm.transmitQueue.capacity) ∧
    (vm.receiveQueue.WellFormed →
      receive.WellFormed ∧ receive.capacity = vm.receiveQueue.capacity)

theorem Vm.Buffered.refl (vm : Vm) : vm.Buffered vm :=
  ⟨_, _, _, rfl, fun hq => ⟨hq, rfl⟩, fun hq => ⟨hq, rfl⟩⟩

namespace Instance

/-- The instance after an action. Behind the main loop `sp_unsubscribe_int` still writes. -/
def step (d : Display) (s : Instance) (a : Action) : Instance :=
  if s.crashed then s
  else
    match a with
    | .event arrivals event =>
      match handleEvent d arrivals event s.vm with
      | some vm => { s with vm := vm }
      -- a null piece was dereferenced; nothing happens any more
      | none => { s with crashed := true }
    | .spWrite lsr =>
      { s with
        vm := { s.vm with transmitQueue := (spWrite lsr true s.vm.transmitQueue).2.1 } }
    | .spRead arrived =>
      -- behind the main loop only `sp_unsubscribe_int` writes, and nothing reads
      if s.vm.gameState = .exit then s
      else
        let (line, receiveQueue) := readLine arrived s.vm.line s.vm.receiveQueue
        { s with vm := { s.vm with line := line, receiveQueue := receiveQueue } }

theorem step_of_alive {d : Display} {s : Instance} (h : s.crashed = false) (a : Action) :
    s.step d a =
      match a with
      | .event arrivals event =>
        match handleEvent d arrivals event s.vm with
        | some vm => { s with vm := vm }
        | none => { s with crashed := true }
      | .spWrite lsr =>
        { s with
          vm := { s.vm with transmitQueue := (spWrite lsr true s.vm.transmitQueue).2.1 } }
      | .spRead arrived =>
        if s.vm.gameState = .exit then s
        else
          { s with vm := { s.vm with
            line := (readLine arrived s.vm.line s.vm.receiveQueue).1
            receiveQueue := (readLine arrived s.vm.line s.vm.receiveQueue).2 } } :=
  if_neg (by simp [h])

/-- An event that does not crash. -/
theorem step_event {d : Display} {s : Instance} (h : s.crashed = false) {arrivals : ℕ}
    {event : Event} {vm : Vm} (hevent : handleEvent d arrivals event s.vm = some vm) :
    s.step d (.event arrivals event) = { s with vm := vm } := by
  rw [step_of_alive h]
  simp only [hevent]

/-- A packet moves the cursor of a game. -/
theorem cursor_step {d : Display} {s : Instance} (h : s.crashed = false)
    (hplay : s.vm.gameState = .playing) (arrivals : ℕ) (packet : Packet) :
    (s.step d (.event arrivals (.mouse packet))).vm.cursor =
      updateCursor d.toGeometry packet s.vm.cursor := by
  rw [step_event h (handleEvent_mouse hplay packet)]
  exact (playingMouse_frame d _).2.trans (cursor_leaveGame _)

/-- A break code in a game that goes on: that of the key `Z` switches the animation. -/
theorem step_key {d : Display} {s : Instance} (h : s.crashed = false)
    (hplay : s.vm.gameState = .playing) (hcreated : s.vm.boardCreated = true)
    (hgoing : s.vm.endGame = false) (arrivals : ℕ) {scanCode : UInt8}
    (hbreak : scanCode &&& 0x80 ≠ 0) :
    s.step d (.event arrivals (.keyboard scanCode)) = { s with vm := { s.vm with
      animation := if scanCode = 0xac then !s.vm.animation else s.vm.animation } } := by
  refine step_event h ?_
  rw [handleEvent_keyboard hplay, ensureBoard_of_created hcreated, leaveGame_of_endGame hgoing,
    playingKeyboard, if_pos hbreak]
  split_ifs <;> rfl

/-- The bytes an action writes to THR. -/
def written (s : Instance) (a : Action) : List UInt8 :=
  if s.crashed then []
  else
    match a with
    | .spWrite lsr => (spWrite lsr true s.vm.transmitQueue).2.2.toList
    | _ => []

/-- Bytes arrive at the UART. -/
def receive (s : Instance) (bytes : List UInt8) : Instance :=
  { s with vm := { s.vm with line := s.vm.line ++ bytes } }

/-- An instance on a line of arbitrary bytes: it acts, or a byte arrives. -/
def stepInput (d : Display) (s : Instance) : Action ⊕ UInt8 → Instance
  | .inl a => s.step d a
  | .inr byte => s.receive [byte]

/-- An input is an event, or it changes the buffers at most. -/
theorem stepInput_cases (d : Display) (s : Instance) (i : Action ⊕ UInt8) :
    (∃ arrivals event vm, i = .inl (.event arrivals event) ∧ s.crashed = false ∧
      handleEvent d arrivals event s.vm = some vm ∧ s.stepInput d i = { s with vm := vm }) ∨
    s.vm.Buffered (s.stepInput d i).vm := by
  cases i with
  | inr byte => exact .inr ⟨_, _, _, rfl, fun hq => ⟨hq, rfl⟩, fun hq => ⟨hq, rfl⟩⟩
  | inl a =>
    simp only [stepInput]
    cases hcrash : s.crashed with
    | true =>
      right
      simpa only [step, hcrash, if_true] using Vm.Buffered.refl s.vm
    | false =>
      rw [step_of_alive hcrash]
      cases a with
      | event arrivals event =>
        cases hev : handleEvent d arrivals event s.vm with
        | none =>
          right
          simpa only [hev] using Vm.Buffered.refl s.vm
        | some vm =>
          left
          refine ⟨arrivals, event, vm, rfl, rfl, hev, ?_⟩
          simp only [hev, hcrash]
      | spWrite lsr =>
        exact .inr ⟨_, _, _, rfl, fun hq => wellFormed_spWrite hq lsr, fun hq => ⟨hq, rfl⟩⟩
      | spRead arrived =>
        right
        dsimp only
        split
        -- in `EXIT` nothing is read
        · exact Vm.Buffered.refl s.vm
        · exact ⟨_, _, _, rfl, fun hq => ⟨hq, rfl⟩,
            fun hq => ⟨wellFormed_readLine hq arrived s.vm.line, capacity_readLine _ _ _⟩⟩

end Instance

/-! ## Two instances on one line -/

/-- The two ends of the serial line. -/
inductive Side
  | left | right
deriving DecidableEq

/-- The other end. -/
def Side.other : Side → Side
  | .left => .right
  | .right => .left

@[simp] theorem Side.other_other (e : Side) : e.other.other = e := by cases e <;> rfl

@[simp] theorem Side.other_ne (e : Side) : e.other ≠ e := by cases e <;> decide

@[simp] theorem Side.ne_other (e : Side) : e ≠ e.other := by cases e <;> decide

theorem Side.eq_or_eq_other (e f : Side) : f = e ∨ f = e.other := by
  cases e <;> cases f <;> decide

/-- Two instances of the program. -/
abbrev System := Side → Instance

/-- One end takes an action; what it writes arrives at the other end. -/
def System.step (d : Display) (s : System) (a : Side × Action) : System := fun f =>
  -- the line loses nothing and keeps the order; when a byte is read is up to the reader
  if f = a.1 then (s f).step d a.2 else (s f).receive ((s a.1).written a.2)

/-- A step is an event of an end, or it changes its buffers at most. -/
theorem System.step_event_or_buffered (d : Display) (s : System) (a : Side × Action)
    (e : Side) : (∃ arrivals event vm, a = (e, .event arrivals event) ∧ (s e).crashed = false ∧
      handleEvent d arrivals event (s e).vm = some vm ∧
      System.step d s a e = { s e with vm := vm }) ∨
    (s e).vm.Buffered (System.step d s a e).vm := by
  unfold System.step
  split
  · rename_i he
    subst he
    refine ((s a.1).stepInput_cases d (.inl a.2)).imp ?_ id
    rintro ⟨arrivals, event, vm, hact, halive, hev, hstep⟩
    exact ⟨arrivals, event, vm, Prod.ext rfl (Sum.inl.inj hact), halive, hev, hstep⟩
  · exact .inr ⟨_, _, _, rfl, fun hq => ⟨hq, rfl⟩, fun hq => ⟨hq, rfl⟩⟩

end LCChess
