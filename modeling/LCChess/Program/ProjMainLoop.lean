import LCChess.Program.EventQueue
import LCChess.Program.MainLoop
import LCChess.Serial.Flush

/-!
# The main loop

`proj_main_loop` as a program: an iteration receives a notification, lets the interrupt handlers
push their events, calls `sp_write` and `sp_read`, and handles the events of the queue. Between
any two of these steps the other end of the line may write a byte. Behind the loop the winner
waits in `sp_emptyTransmitQueue`, and `sp_unsubscribe_int` writes what is left to send.

The two instances of `System` take events, writes and reads in any order. Every run of two main
loops is such a run, so that what holds of all of those holds of the programs.

## Main definitions

* `spIh`: the interrupt handler of the serial port
* `Phase`, `ProjMainLoop`, `ProjMainLoop.step`: the loop and what follows it, step by step
* `Programs`, `Programs.step`: two programs on one serial line
* `ProjMainLoop.actions`: the actions of the instance that a step of the loop takes
* `Follows p s`: the program `p` is in the state of the instance `s`

## Main results

* `Follows.step`: a step of the loop is a step of the instance
* `queueOk_step`: the queue holds the events of one notification, which are handled last first
* `programs_follow`: two programs do what the two instances of `System` can do
-/

namespace LCChess

open Transition (run outputs outputs_cons run_append run_cons)

/-! ## The interrupt handler of the serial port -/

/-- `SP_NO_PENDING_INTERRUPT`, bit 0 of IIR. -/
def spNoPendingInterrupt : UInt32 := 0x01

/-- `SP_RECEIVED_DATA`, as `~BIT(1) & BIT(2) & ~BIT(3)`. -/
def spReceivedData : UInt32 := ~~~0x02 &&& 0x04 &&& ~~~0x08

/-- `SP_TRANSMITTER_HOLDING`, as `BIT(1) & ~BIT(2) & ~BIT(3)`. -/
def spTransmitterHolding : UInt32 := 0x02 &&& ~~~0x04 &&& ~~~0x08

/-- What `sp_ih` finds: IIR, the line status, and whether a byte has arrived. -/
structure PortReading where
  iir : Option UInt32
  lsr : Option UInt32
  arrived : Bool

namespace Vm

/-- `sp_write`, whose `sys_outb` succeeds: the state, and the byte written to THR. -/
def spWrite (lsr : Option UInt32) (vm : Vm) : Vm × Option UInt8 :=
  let (_, transmitQueue, byte) := LCChess.spWrite lsr true vm.transmitQueue
  ({ vm with transmitQueue := transmitQueue }, byte)

/-- `sp_read`. -/
def spRead (arrived : Bool) (vm : Vm) : Vm :=
  let (line, receiveQueue) := readLine arrived vm.line vm.receiveQueue
  { vm with line := line, receiveQueue := receiveQueue }

end Vm

/-- `sp_ih`: the state, and the byte written to THR. -/
def spIh (port : PortReading) (vm : Vm) : Vm × Option UInt8 :=
  match port.iir with
  | none => (vm, none)
  | some interruptType =>
    if interruptType &&& spNoPendingInterrupt ≠ 0 then (vm, none)
    else if interruptType &&& spReceivedData ≠ 0 then (vm.spRead port.arrived, none)
    else if interruptType &&& spTransmitterHolding ≠ 0 then vm.spWrite port.lsr
    else (vm, none)

/-! ## The loop -/

/-- Where `proj_main_loop` stands. -/
inductive Phase
  /-- At the head of the loop, before `driver_receive`. -/
  | receive
  /-- Before `sp_write`. -/
  | write
  /-- Before `sp_read`. -/
  | read
  /-- In the loop over the event queue. -/
  | handle
  /-- In `sp_emptyTransmitQueue`, which a winner calls. -/
  | emptyTransmitQueue
  /-- In `sp_unsubscribe_int`, before `sp_configure_end`. -/
  | unsubscribe
  /-- Before its `sp_clear`. -/
  | clear
  /-- In its loop over the transmit queue. -/
  | flush
  | returned
deriving DecidableEq

/-- A message of `driver_receive`: the notification with the interrupts it carries. A message
that is none carries no interrupt. -/
structure Message extends Notification where
  serialPort : Option PortReading

/-- What one step of the program finds. A step uses the fields it asks for. -/
structure Input where
  /-- `none` is a failed `driver_receive`. -/
  message : Option Message
  lsr : Option UInt32
  arrived : Bool
  arrivals : ℕ
  /-- The accesses of `sp_configure_end` and the call of `sys_irqrmpolicy` succeed. -/
  unsubscribed : Bool

/-- The state of `proj_main_loop`: the instance it runs, its locals and those of the handlers. -/
structure ProjMainLoop extends Instance where
  mouse : MouseState
  scancodes : ScancodeState
  eventQueue : EventQueue Event
  phase : Phase

namespace ProjMainLoop

/-- The program at the start of the loop. -/
def start (memory : ℕ → UInt8) (malloced : ℕ → Event) : ProjMainLoop where
  vm := Vm.initial
  crashed := false
  mouse := MouseState.initial
  scancodes := .initial memory
  eventQueue := createEventQueue 100 malloced
  phase := .receive

/-- Push the event of an interrupt handler, if it has one. -/
def pushIf (q : EventQueue Event) : Option Event → EventQueue Event
  | some event => pushEvent q event
  | none => q

/-- The interrupts of a message: the program, and the byte that `sp_ih` writes. -/
def interrupted (message : Message) (p : ProjMainLoop) : ProjMainLoop × Option UInt8 :=
  let eventQueue := pushIf p.eventQueue (if message.timer then some .newFrame else none)
  let (vm, byte) := message.serialPort.elim (p.vm, none) fun port => spIh port p.vm
  let packet := message.mouse.bind fun reading => (mouseInterrupt reading p.mouse).1
  let eventQueue := pushIf eventQueue (packet.map .mouse)
  let scanCode := message.keyboard.bind fun reading => (keyboardInterrupt reading p.scancodes).2.1
  let eventQueue := pushIf eventQueue (scanCode.map .keyboard)
  ({ p with
      vm := vm
      mouse := (message.mouse.map fun reading => (mouseInterrupt reading p.mouse).2).getD p.mouse
      scancodes := (message.keyboard.map fun reading =>
        (keyboardInterrupt reading p.scancodes).2.2).getD p.scancodes
      eventQueue := eventQueue
      phase := .write }, byte)

/-- The head of the loop. -/
def receiveMessage (message : Option Message) (p : ProjMainLoop) : ProjMainLoop × Option UInt8 :=
  if p.vm.gameState = .exit then
    ({ p with phase := if p.vm.won then .emptyTransmitQueue else .unsubscribe }, none)
  else
    match message with
    | none => (p, none)
    | some message => p.interrupted message

/-- A call of `sp_write`, and what comes next. -/
def write (lsr : Option UInt32) (next : Phase) (p : ProjMainLoop) : ProjMainLoop × Option UInt8 :=
  let (vm, byte) := p.vm.spWrite lsr
  ({ p with vm := vm, phase := next }, byte)

/-- The call of `sp_read`. -/
def read (arrived : Bool) (p : ProjMainLoop) : ProjMainLoop × Option UInt8 :=
  ({ p with vm := p.vm.spRead arrived, phase := .handle }, none)

/-- The head of the loop over the event queue, and one event. -/
def handle (d : Display) (arrivals : ℕ) (p : ProjMainLoop) : ProjMainLoop × Option UInt8 :=
  if eventQueueIsEmpty p.eventQueue then ({ p with phase := .receive }, none)
  else
    match popEvent p.eventQueue with
    | (none, eventQueue) => ({ p with eventQueue := eventQueue }, none)
    | (some event, eventQueue) =>
      match handleEvent d arrivals event p.vm with
      | some vm => ({ p with vm := vm, eventQueue := eventQueue }, none)
      | none => ({ p with eventQueue := eventQueue, crashed := true }, none)

/-- One round of `sp_emptyTransmitQueue`, which goes on while the queue is *empty*. -/
def emptyTransmitQueue (lsr : Option UInt32) (p : ProjMainLoop) : ProjMainLoop × Option UInt8 :=
  if queueIsEmpty p.vm.transmitQueue then
    if spCheckWrite lsr then p.write lsr .emptyTransmitQueue else (p, none)
  else ({ p with phase := .unsubscribe }, none)

/-- `sp_configure_end` and `sys_irqrmpolicy`; when one of them fails, `sp_unsubscribe_int`
returns. The writes of `sp_configure_end` to FCR disable the FIFOs of the UART and clear them. They
leave the line alone here: a byte that has been written to THR is taken to be sent by then, and
what the receiver holds is read by nobody but `sp_clear`. -/
def unsubscribe (unsubscribed : Bool) (p : ProjMainLoop) : ProjMainLoop × Option UInt8 :=
  ({ p with phase := if unsubscribed then .clear else .returned }, none)

/-- The `sp_clear` of `sp_unsubscribe_int`. -/
def clear (arrivals : ℕ) (p : ProjMainLoop) : ProjMainLoop × Option UInt8 :=
  let (line, receiveQueue) := spClear arrivals p.vm.line p.vm.receiveQueue
  ({ p with vm := { p.vm with line := line, receiveQueue := receiveQueue }, phase := .flush }, none)

/-- One round of the loop of `sp_unsubscribe_int` over the transmit queue. -/
def flush (lsr : Option UInt32) (p : ProjMainLoop) : ProjMainLoop × Option UInt8 :=
  if queueIsEmpty p.vm.transmitQueue then ({ p with phase := .returned }, none)
  else p.write lsr .flush

/-- One step of the program, and the byte it writes to THR. -/
def step (d : Display) (i : Input) (p : ProjMainLoop) : ProjMainLoop × Option UInt8 :=
  if p.crashed then (p, none)
  else
    match p.phase with
    | .receive => p.receiveMessage i.message
    | .write => p.write i.lsr .read
    | .read => p.read i.arrived
    | .handle => p.handle d i.arrivals
    | .emptyTransmitQueue => p.emptyTransmitQueue i.lsr
    | .unsubscribe => p.unsubscribe i.unsubscribed
    | .clear => p.clear i.arrivals
    | .flush => p.flush i.lsr
    | .returned => (p, none)

theorem step_of_alive {p : ProjMainLoop} (h : p.crashed = false) (d : Display) (i : Input) :
    p.step d i =
      match p.phase with
      | .receive => p.receiveMessage i.message
      | .write => p.write i.lsr .read
      | .read => p.read i.arrived
      | .handle => p.handle d i.arrivals
      | .emptyTransmitQueue => p.emptyTransmitQueue i.lsr
      | .unsubscribe => p.unsubscribe i.unsubscribed
      | .clear => p.clear i.arrivals
      | .flush => p.flush i.lsr
      | .returned => (p, none) :=
  if_neg (by simp [h])

/-- Bytes arrive at the UART. -/
def receive (p : ProjMainLoop) (bytes : List UInt8) : ProjMainLoop :=
  { p with toInstance := p.toInstance.receive bytes }

end ProjMainLoop

/-- Two programs. -/
abbrev Programs := Side → ProjMainLoop

/-- One program takes a step; what it writes arrives at the other one. -/
def Programs.step (d : Display) (s : Programs) (a : Side × Input) : Programs := fun f =>
  if f = a.1 then ((s f).step d a.2).1 else (s f).receive ((s a.1).step d a.2).2.toList

/-! ## The actions of the instance -/

/-- The call that `sp_ih` makes. -/
def PortReading.call (port : PortReading) : Option Action :=
  port.iir.bind fun interruptType =>
    if interruptType &&& spNoPendingInterrupt ≠ 0 then none
    else if interruptType &&& spReceivedData ≠ 0 then some (.spRead port.arrived)
    else if interruptType &&& spTransmitterHolding ≠ 0 then some (.spWrite port.lsr)
    else none

namespace ProjMainLoop

/-- The action of the instance that a step of the program takes. -/
def action (i : Input) (p : ProjMainLoop) : Option Action :=
  if p.crashed then none
  else
    match p.phase with
    | .receive =>
      if p.vm.gameState = .exit then none
      else i.message.bind fun message => message.serialPort.bind PortReading.call
    | .write => some (.spWrite i.lsr)
    | .read => some (.spRead i.arrived)
    | .handle => (popEvent p.eventQueue).1.map (.event i.arrivals)
    | .flush => some (.spWrite i.lsr)
    | _ => none

end ProjMainLoop

namespace Instance

variable (d : Display) (s : Instance)

/-- The instance after an action, if there is one. -/
def stepIf (a : Option Action) : Instance := a.elim s (s.step d)

/-- What an action, if there is one, writes to THR. -/
def writtenIf (a : Option Action) : List UInt8 := a.elim [] s.written

@[simp] theorem stepIf_none : s.stepIf d none = s := rfl

@[simp] theorem stepIf_some (a : Action) : s.stepIf d (some a) = s.step d a := rfl

@[simp] theorem writtenIf_none : s.writtenIf none = [] := rfl

@[simp] theorem writtenIf_some (a : Action) : s.writtenIf (some a) = s.written a := rfl

variable {d s}

theorem step_spWrite (h : s.crashed = false) (lsr : Option UInt32) :
    s.step d (.spWrite lsr) = { s with vm := (s.vm.spWrite lsr).1 } ∧
      s.written (.spWrite lsr) = (s.vm.spWrite lsr).2.toList := by
  constructor
  · exact step_of_alive h _
  · exact if_neg (by simp [h])

theorem step_spRead (h : s.crashed = false) (hgoing : s.vm.gameState ≠ .exit) (arrived : Bool) :
    s.step d (.spRead arrived) = { s with vm := s.vm.spRead arrived } ∧
      s.written (.spRead arrived) = [] := by
  constructor
  · exact (step_of_alive h _).trans (if_neg hgoing)
  · simp [written]

/-- `sp_ih` makes its call. -/
theorem step_spIh (h : s.crashed = false) (hgoing : s.vm.gameState ≠ .exit) (port : PortReading) :
    s.stepIf d port.call = { s with vm := (spIh port s.vm).1 } ∧
      s.writtenIf port.call = (spIh port s.vm).2.toList := by
  unfold PortReading.call spIh
  cases port.iir with
  | none => exact ⟨rfl, rfl⟩
  | some interruptType =>
    simp only [Option.bind_some]
    split_ifs
    · exact ⟨rfl, rfl⟩
    · exact step_spRead (d := d) h hgoing port.arrived
    · exact step_spWrite (d := d) h port.lsr
    · exact ⟨rfl, rfl⟩

end Instance

theorem gameState_spIh (port : PortReading) (vm : Vm) :
    (spIh port vm).1.gameState = vm.gameState := by
  unfold spIh
  split
  · rfl
  · split_ifs <;> rfl

/-! ## The events of a notification -/

namespace ProjMainLoop

variable {d : Display} {p : ProjMainLoop}

/-- The keyboard branch pushes the scancode unless it is the prefix. -/
theorem keyboardInterrupt_event (reading : KeyReading) (s : ScancodeState) :
    (keyboardInterrupt reading s).2.1 = (keyboardIntHandler reading).filter (· ≠ twoBytes) := by
  cases h : keyboardIntHandler reading with
  | none => rw [keyboardInterrupt_none h, Option.filter_none]
  | some scanCode =>
    rw [keyboardInterrupt_some h, Option.filter_some]
    by_cases htwo : scanCode = twoBytes
    · simp [htwo]
    · simp [htwo]

theorem pushIf_map {α : Type*} (q : EventQueue Event) (o : Option α) (f : α → Event) :
    pushIf q (o.map f) = (o.toList.map f).foldl pushEvent q := by cases o <;> rfl

/-- The interrupts of a message push the events that have arrived with it. -/
theorem eventQueue_interrupted (message : Message) (p : ProjMainLoop) :
    (p.interrupted message).1.eventQueue =
      (arrived p.mouse message.toNotification).foldl pushEvent p.eventQueue := by
  have hkey : (message.keyboard.bind fun r => (keyboardInterrupt r p.scancodes).2.1) =
      (message.keyboard.bind keyboardIntHandler).filter (· ≠ twoBytes) := by
    cases message.keyboard with
    | none => rfl
    | some reading => exact keyboardInterrupt_event reading p.scancodes
  simp only [interrupted, pushIf_map, hkey, arrived, List.foldl_append]
  cases message.timer <;> rfl

end ProjMainLoop

/-! ## Behind the loop -/

namespace ProjMainLoop

variable {p : ProjMainLoop}

theorem spWrite_of_empty {vm : Vm} (h : queueIsEmpty vm.transmitQueue = true)
    (lsr : Option UInt32) : vm.spWrite lsr = (vm, none) := by
  simp only [Vm.spWrite, LCChess.spWrite_of_empty h]

/-- On an empty queue `sp_emptyTransmitQueue` stays where it is. -/
theorem emptyTransmitQueue_of_empty (hphase : p.phase = .emptyTransmitQueue)
    (h : queueIsEmpty p.vm.transmitQueue = true) (lsr : Option UInt32) :
    p.emptyTransmitQueue lsr = (p, none) := by
  unfold emptyTransmitQueue write
  rw [if_pos h, spWrite_of_empty h]
  split_ifs
  · rw [← hphase]
  · rfl

/-- A queue that holds bytes is left as it is. -/
theorem emptyTransmitQueue_of_queued (h : queueIsEmpty p.vm.transmitQueue = false)
    (lsr : Option UInt32) : p.emptyTransmitQueue lsr = ({ p with phase := .unsubscribe }, none) :=
  if_neg (by simp [h])

theorem flush_of_empty (h : queueIsEmpty p.vm.transmitQueue = true) (lsr : Option UInt32) :
    p.flush lsr = ({ p with phase := .returned }, none) := if_pos h

theorem flush_of_queued (h : queueIsEmpty p.vm.transmitQueue = false) (lsr : Option UInt32) :
    p.flush lsr = p.write lsr .flush := if_neg (by simp [h])

end ProjMainLoop

/-! ## The program and the instance -/

/-- The program `p` is in the state of the instance `s`. Behind the main loop `sp_clear` throws the
bytes away that the instance leaves where they are. -/
structure Follows (p : ProjMainLoop) (s : Instance) : Prop where
  crashed : s.crashed = p.crashed
  vm : s.vm = p.vm ∨ (p.phase = .flush ∨ p.phase = .returned) ∧ ∃ receiveQueue line,
    p.vm = { s.vm with receiveQueue := receiveQueue, line := line }
  going : p.phase = .write ∨ p.phase = .read → p.vm.gameState ≠ .exit

namespace Follows

variable {d : Display} {p : ProjMainLoop} {s : Instance}

/-- Up to the end of the main loop the two states are the same. -/
theorem eq (h : Follows p s) (hphase : p.phase ≠ .flush ∧ p.phase ≠ .returned) :
    s = p.toInstance := by
  obtain hvm | ⟨hf | hr, -⟩ := h.vm
  · cases s
    exact congrArg₂ Instance.mk hvm h.crashed
  · exact absurd hf hphase.1
  · exact absurd hr hphase.2

/-- A byte arrives. -/
theorem receive (h : Follows p s) (bytes : List UInt8) :
    Follows (p.receive bytes) (s.receive bytes) := by
  refine ⟨h.crashed, ?_, h.going⟩
  obtain hvm | ⟨hphase, receiveQueue, line, hvm⟩ := h.vm
  · left
    simp only [Instance.receive, ProjMainLoop.receive, hvm]
  · refine .inr ⟨hphase, receiveQueue, line ++ bytes, ?_⟩
    simp only [Instance.receive, ProjMainLoop.receive, hvm]

/-- A program in the state of its instance. -/
theorem refl (p : ProjMainLoop)
    (hgoing : p.phase = .write ∨ p.phase = .read → p.vm.gameState ≠ .exit) :
    Follows p p.toInstance :=
  ⟨rfl, .inl rfl, hgoing⟩

/-- The head of the loop makes the call of `sp_ih`. -/
theorem receiveMessage (halive : p.crashed = false) (hphase : p.phase = .receive)
    (message : Option Message) :
    let a := if p.vm.gameState = .exit then none
      else message.bind fun message => message.serialPort.bind PortReading.call
    Follows (p.receiveMessage message).1 (p.toInstance.stepIf d a) ∧
      p.toInstance.writtenIf a = (p.receiveMessage message).2.toList := by
  intro a
  by_cases hexit : p.vm.gameState = .exit
  · have hleft : p.receiveMessage message =
        ({ p with phase := if p.vm.won then .emptyTransmitQueue else .unsubscribe }, none) :=
      if_pos hexit
    rw [show a = none from if_pos hexit, hleft]
    exact ⟨refl _ (by dsimp only; split <;> simp), rfl⟩
  · rw [show a = message.bind fun message => message.serialPort.bind PortReading.call from
      if_neg hexit, show p.receiveMessage message = _ from if_neg hexit]
    cases message with
    | none => exact ⟨refl p (by simp [hphase]), rfl⟩
    | some message =>
      dsimp only [Option.bind_some]
      cases hport : message.serialPort with
      | none =>
        have hvm : (p.interrupted message).1.vm = p.vm ∧ (p.interrupted message).2 = none := by
          simp [ProjMainLoop.interrupted, hport]
        rw [hvm.2]
        exact ⟨⟨rfl, .inl hvm.1.symm, fun _ => hvm.1.symm ▸ hexit⟩, rfl⟩
      | some port =>
        obtain ⟨hstep, hwritten⟩ := Instance.step_spIh (d := d) halive hexit port
        have hvm : (p.interrupted message).1.vm = (spIh port p.vm).1 ∧
            (p.interrupted message).2 = (spIh port p.vm).2 := by
          simp [ProjMainLoop.interrupted, hport]
        rw [Option.bind_some, hstep, hwritten, hvm.2]
        exact ⟨⟨rfl, .inl hvm.1.symm, fun _ => by rwa [hvm.1, gameState_spIh]⟩, rfl⟩

/-- The loop over the event queue handles one event. -/
theorem handle (halive : p.crashed = false) (hphase : p.phase = .handle) (arrivals : ℕ) :
    let a := (popEvent p.eventQueue).1.map (Action.event arrivals)
    Follows (p.handle d arrivals).1 (p.toInstance.stepIf d a) ∧
      p.toInstance.writtenIf a = (p.handle d arrivals).2.toList := by
  intro a
  unfold ProjMainLoop.handle
  split_ifs with hempty
  · have hpop : a = none := by simp [a, popEvent, hempty]
    rw [hpop]
    exact ⟨refl _ (by simp), rfl⟩
  · cases hpop : popEvent p.eventQueue with
    | mk first eventQueue =>
      cases first with
      | none =>
        rw [show a = none by simp [a, hpop]]
        exact ⟨refl _ (by simp [hphase]), rfl⟩
      | some event =>
        have hwritten : p.toInstance.written (.event arrivals event) = [] := by
          simp [Instance.written]
        rw [show a = some (.event arrivals event) by simp [a, hpop], Instance.stepIf_some,
          Instance.writtenIf_some, hwritten, Instance.step_of_alive halive]
        dsimp only
        cases handleEvent d arrivals event p.vm with
        | none =>
          exact ⟨refl { p with eventQueue := eventQueue, crashed := true } (by simp [hphase]), rfl⟩
        | some vm =>
          exact ⟨refl { p with vm := vm, eventQueue := eventQueue } (by simp [hphase]), rfl⟩

/-- The last loop writes what the instance writes. -/
theorem flush (h : Follows p s) (halive : s.crashed = false)
    (lsr : Option UInt32) :
    Follows (p.flush lsr).1 (s.stepIf d (some (.spWrite lsr))) ∧
      s.writtenIf (some (.spWrite lsr)) = (p.flush lsr).2.toList := by
  obtain ⟨hstep, hwritten⟩ := Instance.step_spWrite (d := d) halive lsr
  rw [Instance.stepIf_some, Instance.writtenIf_some, hstep, hwritten]
  -- the two states may differ in what was read, and write the same
  obtain ⟨receiveQueue, line, hvm⟩ : ∃ receiveQueue line,
      p.vm = { s.vm with receiveQueue := receiveQueue, line := line } := by
    obtain hvm | ⟨-, hvm⟩ := h.vm
    · exact ⟨s.vm.receiveQueue, s.vm.line, hvm.symm⟩
    · exact hvm
  cases hempty : queueIsEmpty s.vm.transmitQueue with
  | true =>
    rw [ProjMainLoop.spWrite_of_empty hempty, ProjMainLoop.flush_of_empty (by rwa [hvm])]
    exact ⟨⟨h.crashed, .inr ⟨.inr rfl, receiveQueue, line, hvm⟩, by simp⟩, rfl⟩
  | false =>
    rw [ProjMainLoop.flush_of_queued (by rwa [hvm])]
    refine ⟨⟨h.crashed, .inr ⟨.inl rfl, receiveQueue, line, ?_⟩, by simp [ProjMainLoop.write]⟩, ?_⟩
    · simp only [ProjMainLoop.write, Vm.spWrite, hvm]
    · simp only [ProjMainLoop.write, Vm.spWrite, hvm]

/-- **A step of the program is an action of the instance**, or none, and writes the same bytes. -/
theorem step (h : Follows p s) (d : Display) (i : Input) :
    Follows (p.step d i).1 (s.stepIf d (p.action i)) ∧
      s.writtenIf (p.action i) = (p.step d i).2.toList := by
  unfold ProjMainLoop.step ProjMainLoop.action
  cases hcrash : p.crashed with
  | true => exact ⟨h, rfl⟩
  | false =>
    have halive : s.crashed = false := h.crashed.trans hcrash
    simp only [Bool.false_eq_true, if_false]
    cases hphase : p.phase with
    | receive =>
      obtain rfl := h.eq (by simp [hphase])
      exact receiveMessage hcrash hphase i.message
    | write =>
      obtain rfl := h.eq (by simp [hphase])
      obtain ⟨hstep, hwritten⟩ := Instance.step_spWrite (d := d) halive i.lsr
      rw [Instance.stepIf_some, Instance.writtenIf_some, hstep, hwritten]
      exact ⟨refl (p.write i.lsr .read).1 fun _ => h.going (.inl hphase), rfl⟩
    | read =>
      obtain rfl := h.eq (by simp [hphase])
      obtain ⟨hstep, hwritten⟩ :=
        Instance.step_spRead (d := d) halive (h.going (.inr hphase)) i.arrived
      rw [Instance.stepIf_some, Instance.writtenIf_some, hstep, hwritten]
      exact ⟨refl (p.read i.arrived).1 (by simp [ProjMainLoop.read]), rfl⟩
    | handle =>
      obtain rfl := h.eq (by simp [hphase])
      exact handle hcrash hphase i.arrivals
    | emptyTransmitQueue =>
      obtain rfl := h.eq (by simp [hphase])
      cases hempty : queueIsEmpty p.vm.transmitQueue with
      | true =>
        rw [ProjMainLoop.emptyTransmitQueue_of_empty hphase hempty]
        exact ⟨h, rfl⟩
      | false =>
        rw [ProjMainLoop.emptyTransmitQueue_of_queued hempty]
        exact ⟨refl { p with phase := .unsubscribe } (by simp), rfl⟩
    | unsubscribe =>
      obtain rfl := h.eq (by simp [hphase])
      exact ⟨refl (p.unsubscribe i.unsubscribed).1
        (by unfold ProjMainLoop.unsubscribe; dsimp only; split <;> simp), rfl⟩
    | clear =>
      obtain rfl := h.eq (by simp [hphase])
      exact ⟨⟨rfl, .inr ⟨.inl rfl, _, _, rfl⟩, by simp [ProjMainLoop.clear]⟩, rfl⟩
    | flush => exact flush h halive i.lsr
    | returned => exact ⟨h, rfl⟩

end Follows

/-! ## The events of the queue -/

namespace ProjMainLoop

/-- The events that a step pushes, last one first. -/
def pushed (i : Input) (p : ProjMainLoop) : List Event :=
  if p.crashed = true ∨ p.phase ≠ .receive ∨ p.vm.gameState = .exit then []
  else i.message.elim [] fun message => (arrived p.mouse message.toNotification).reverse

/-- The event that a step handles. -/
def handled (i : Input) (p : ProjMainLoop) : List Event :=
  match p.action i with
  | some (.event _ event) => [event]
  | _ => []

/-- The event queue holds what one notification has pushed, and it is empty at the head of the
loop. -/
structure QueueOk (p : ProjMainLoop) : Prop where
  wellFormed : p.eventQueue.WellFormed
  capacity : p.eventQueue.capacity = 100
  size_le : p.eventQueue.size ≤ 3
  empty : p.phase = .receive → p.eventQueue.size = 0

theorem QueueOk.congr {p p' : ProjMainLoop} (h : QueueOk p) (hqueue : p'.eventQueue = p.eventQueue)
    (hphase : p'.phase = .receive → p.phase = .receive) : QueueOk p' where
  wellFormed := hqueue ▸ h.wellFormed
  capacity := hqueue ▸ h.capacity
  size_le := hqueue ▸ h.size_le
  empty hp := hqueue ▸ h.empty (hphase hp)

variable {d : Display} {p : ProjMainLoop}

/-- A step that neither pushes nor pops an event. -/
theorem QueueOk.still (h : QueueOk p) {i : Input} {p' : ProjMainLoop} (hpushed : p.pushed i = [])
    (hhandled : p.handled i = []) (hqueue : p'.eventQueue = p.eventQueue)
    (hphase : p'.phase = .receive → p.eventQueue.size = 0) :
    QueueOk p' ∧ p.eventQueue.stored.reverse ++ p.pushed i =
      p.handled i ++ p'.eventQueue.stored.reverse := by
  refine ⟨⟨hqueue ▸ h.wellFormed, hqueue ▸ h.capacity, hqueue ▸ h.size_le, ?_⟩, ?_⟩
  · rw [hqueue]
    exact hphase
  · rw [hpushed, hhandled, hqueue, List.append_nil, List.nil_append]

/-- A notification finds the queue empty, and leaves its events there. -/
theorem QueueOk.interrupted (h : QueueOk p) (hphase : p.phase = .receive) (message : Message) :
    QueueOk (p.interrupted message).1 ∧
      (p.interrupted message).1.eventQueue.stored = arrived p.mouse message.toNotification := by
  have hempty := h.empty hphase
  have hlen := length_arrived_le p.mouse message.toNotification
  obtain ⟨hstored, hwf, hcap⟩ := stored_pushes h.wellFormed
    (show p.eventQueue.size + (arrived p.mouse message.toNotification).length ≤
      p.eventQueue.capacity by rw [h.capacity]; omega)
  have hnil : p.eventQueue.stored = [] := by
    rw [← List.length_eq_zero_iff, EventQueue.length_stored, hempty]
  rw [hnil, List.nil_append] at hstored
  rw [← eventQueue_interrupted] at hstored hwf hcap
  refine ⟨⟨hwf, hcap.trans h.capacity, ?_,
    fun hp => absurd hp (by simp [ProjMainLoop.interrupted])⟩, hstored⟩
  rw [← EventQueue.length_stored, hstored]
  exact hlen

/-- The loop over the queue takes the event that was pushed last. -/
theorem QueueOk.handle (h : QueueOk p) (hphase : p.phase = .handle) (d : Display) (arrivals : ℕ) :
    QueueOk (p.handle d arrivals).1 ∧ p.eventQueue.stored.reverse =
      (popEvent p.eventQueue).1.toList ++ (p.handle d arrivals).1.eventQueue.stored.reverse := by
  unfold ProjMainLoop.handle
  split_ifs with hempty
  · have hzero : p.eventQueue.size = 0 := by simpa [eventQueueIsEmpty] using hempty
    have hnone : (popEvent p.eventQueue).1 = none := by simp [popEvent, hempty]
    rw [hnone]
    exact ⟨⟨h.wellFormed, h.capacity, h.size_le, fun _ => hzero⟩, rfl⟩
  · obtain ⟨hlast, hrest⟩ := EventQueue.popEvent_eq p.eventQueue
    obtain ⟨hwf, hcap⟩ := h.wellFormed.pop
    have hle : (popEvent p.eventQueue).2.size ≤ 3 := by
      have hsize := h.size_le
      rw [← EventQueue.length_stored, hrest, List.length_dropLast, EventQueue.length_stored]
      omega
    have hne : p.eventQueue.stored ≠ [] := by
      rw [← List.length_pos_iff, EventQueue.length_stored]
      simpa [eventQueueIsEmpty, Nat.pos_iff_ne_zero] using hempty
    rw [List.getLast?_eq_some_getLast hne] at hlast
    have hsplit : p.eventQueue.stored.reverse = (some (p.eventQueue.stored.getLast hne)).toList ++
        (popEvent p.eventQueue).2.stored.reverse := by
      conv_lhs => rw [← List.dropLast_append_getLast hne]
      rw [hrest, List.reverse_append]
      rfl
    rw [hlast, hsplit]
    -- the queue that is left, whatever the handler does
    generalize popEvent p.eventQueue = popped at hlast hwf hcap hle
    obtain ⟨first, eventQueue⟩ := popped
    obtain rfl : first = _ := hlast
    dsimp only at hwf hcap hle ⊢
    have hok : ∀ p' : ProjMainLoop, p'.eventQueue = eventQueue → p'.phase = .handle → QueueOk p' :=
      fun p' hqueue hp => ⟨hqueue ▸ hwf, hqueue ▸ hcap.trans h.capacity, hqueue ▸ hle,
        fun hp' => absurd (hp.symm.trans hp') (by simp)⟩
    split
    · exact ⟨hok _ rfl hphase, rfl⟩
    · exact ⟨hok _ rfl hphase, rfl⟩

/-- The interrupt handler of the serial port handles no event. -/
theorem call_ne_event (port : PortReading) (arrivals : ℕ) (event : Event) :
    port.call ≠ some (.event arrivals event) := by
  unfold PortReading.call
  cases port.iir with
  | none => simp
  | some interruptType =>
    rw [Option.bind_some]
    split_ifs <;> simp

/-- Events are handled in the loop over the queue alone. -/
theorem handled_of_ne (hphase : p.phase ≠ .handle) (i : Input) : p.handled i = [] := by
  have hne : ∀ arrivals event, p.action i ≠ some (.event arrivals event) := by
    intro arrivals event haction
    unfold action at haction
    cases hcrash : p.crashed with
    | true => simp [hcrash] at haction
    | false =>
      cases hp : p.phase with
      | handle => exact hphase hp
      | receive =>
        simp only [hcrash, hp, Bool.false_eq_true, if_false] at haction
        split_ifs at haction
        obtain ⟨message, -, hport⟩ := Option.bind_eq_some_iff.mp haction
        obtain ⟨port, -, hport⟩ := Option.bind_eq_some_iff.mp hport
        exact call_ne_event port arrivals event hport
      | _ => simp [hcrash, hp] at haction
  unfold handled
  split
  · rename_i arrivals event haction
    exact absurd haction (hne arrivals event)
  · rfl

/-- The head of the loop pushes the events of a notification. -/
theorem QueueOk.receiveMessage (h : QueueOk p) (halive : p.crashed = false)
    (hphase : p.phase = .receive) (i : Input) :
    QueueOk (p.receiveMessage i.message).1 ∧ p.eventQueue.stored.reverse ++ p.pushed i =
      p.handled i ++ (p.receiveMessage i.message).1.eventQueue.stored.reverse := by
  have hhandled : p.handled i = [] := handled_of_ne (by simp [hphase]) i
  unfold ProjMainLoop.receiveMessage
  by_cases hexit : p.vm.gameState = .exit
  · rw [if_pos hexit]
    exact h.still (if_pos (.inr (.inr hexit))) hhandled rfl fun _ => h.empty hphase
  · have hpushed : p.pushed i =
        i.message.elim [] fun message => (arrived p.mouse message.toNotification).reverse :=
      if_neg (by simp [halive, hphase, hexit])
    rw [if_neg hexit]
    cases hmessage : i.message with
    | none => exact h.still (by rw [hpushed, hmessage]; rfl) hhandled rfl h.empty
    | some message =>
      obtain ⟨hok, hstored⟩ := h.interrupted hphase message
      have hnil : p.eventQueue.stored = [] := by
        rw [← List.length_eq_zero_iff, EventQueue.length_stored, h.empty hphase]
      refine ⟨hok, ?_⟩
      rw [hhandled, hnil, hstored, hpushed, hmessage]
      rfl

/-- **Every step keeps the queue in order**: what waits and what arrives is handled or waits. -/
theorem queueOk_step (h : QueueOk p) (d : Display) (i : Input) :
    QueueOk (p.step d i).1 ∧ p.eventQueue.stored.reverse ++ p.pushed i =
      p.handled i ++ (p.step d i).1.eventQueue.stored.reverse := by
  cases hcrash : p.crashed with
  | true =>
    have hstay : p.step d i = (p, none) := if_pos hcrash
    rw [hstay]
    exact h.still (by simp [pushed, hcrash]) (by simp [handled, action, hcrash]) rfl h.empty
  | false =>
    have hstep := step_of_alive hcrash d i
    have hpushed : p.phase ≠ .receive → p.pushed i = [] := fun hne => if_pos (.inr (.inl hne))
    have hhandled : p.phase ≠ .handle → p.handled i = [] := fun hne => handled_of_ne hne i
    cases hphase : p.phase with
    | receive =>
      rw [hstep, hphase]
      exact h.receiveMessage hcrash hphase i
    | handle =>
      obtain ⟨hok, hqueue⟩ := h.handle hphase d i.arrivals
      rw [hstep, hphase, hpushed (by simp [hphase]), List.append_nil, hqueue]
      refine ⟨hok, ?_⟩
      simp only [handled, action, hcrash, hphase, Bool.false_eq_true, if_false]
      cases (popEvent p.eventQueue).1 <;> rfl
    | write =>
      rw [hstep, hphase]
      exact h.still (hpushed (by simp [hphase])) (hhandled (by simp [hphase])) rfl (by simp [write])
    | read =>
      rw [hstep, hphase]
      exact h.still (hpushed (by simp [hphase])) (hhandled (by simp [hphase])) rfl (by simp [read])
    | emptyTransmitQueue =>
      rw [hstep, hphase]
      refine h.still (hpushed (by simp [hphase])) (hhandled (by simp [hphase])) ?_ ?_
      · unfold emptyTransmitQueue write
        split_ifs <;> rfl
      · unfold emptyTransmitQueue write
        split_ifs <;> simp [hphase]
    | unsubscribe =>
      rw [hstep, hphase]
      refine h.still (hpushed (by simp [hphase])) (hhandled (by simp [hphase])) rfl ?_
      cases i.unsubscribed <;> simp [unsubscribe]
    | clear =>
      rw [hstep, hphase]
      exact h.still (hpushed (by simp [hphase])) (hhandled (by simp [hphase])) rfl (by simp [clear])
    | flush =>
      rw [hstep, hphase]
      refine h.still (hpushed (by simp [hphase])) (hhandled (by simp [hphase])) ?_ ?_
      · unfold flush write
        split_ifs <;> rfl
      · unfold flush write
        split_ifs <;> simp
    | returned =>
      rw [hstep, hphase]
      exact h.still (hpushed (by simp [hphase])) (hhandled (by simp [hphase])) rfl h.empty

end ProjMainLoop

/-! ## Two programs -/

namespace Programs

variable (d : Display) (s : Programs)

/-- The actions of the two instances in a run of the two programs. -/
def actions (acts : List (Side × Input)) : List (Side × Action) :=
  outputs (fun s a => ((s a.1).action a.2).toList.map (Prod.mk a.1)) (Programs.step d) s acts

/-- The events that the notifications of one end push in a run, in the order in which they are
to be handled. -/
def pushed (e : Side) (acts : List (Side × Input)) : List Event :=
  outputs (fun s a => if a.1 = e then (s e).pushed a.2 else []) (Programs.step d) s acts

/-- The events that one end handles in a run. -/
def handled (e : Side) (acts : List (Side × Input)) : List Event :=
  outputs (fun s a => if a.1 = e then (s e).handled a.2 else []) (Programs.step d) s acts

variable {d s}

theorem step_self (e : Side) (i : Input) : Programs.step d s (e, i) e = ((s e).step d i).1 := by
  simp [Programs.step]

theorem step_other (e : Side) (i : Input) : Programs.step d s (e, i) e.other =
    (s e.other).receive ((s e).step d i).2.toList := by
  simp [Programs.step]

end Programs

/-- The instances take the action of one end, or none. -/
theorem System.run_stepIf (d : Display) (s : System) (e : Side) (a : Option Action) :
    run (System.step d) s (a.toList.map (Prod.mk e)) = fun f =>
      if f = e then (s e).stepIf d a else (s f).receive ((s e).writtenIf a) := by
  funext f
  cases a with
  | none =>
    obtain rfl | rfl := e.eq_or_eq_other f
    · simp
    · simp [Instance.receive]
  | some a =>
    simp only [Option.toList_some, List.map_singleton, Transition.run_cons, Transition.run_nil,
      System.step, Instance.stepIf_some, Instance.writtenIf_some]
    split_ifs with hf
    · rw [hf]
    · rfl

/-- A step of a program is a step of the instances, or none. -/
theorem Follows.programs_step {d : Display} {s : Programs} {S : System}
    (h : ∀ e, Follows (s e) (S e)) (a : Side × Input) (e : Side) :
    Follows (Programs.step d s a e)
      (run (System.step d) S (((s a.1).action a.2).toList.map (Prod.mk a.1)) e) := by
  obtain ⟨f, i⟩ := a
  rw [System.run_stepIf]
  obtain ⟨hstep, hwritten⟩ := (h f).step d i
  obtain rfl | rfl := f.eq_or_eq_other e
  · simpa [Programs.step] using hstep
  · simpa [Programs.step, hwritten] using (h f.other).receive _

/-- **Two programs do what two instances can do**: along every run of the programs. -/
theorem Follows.programs_run {d : Display} {s : Programs} {S : System}
    (h : ∀ e, Follows (s e) (S e)) (acts : List (Side × Input)) (e : Side) :
    Follows (run (Programs.step d) s acts e)
      (run (System.step d) S (Programs.actions d s acts) e) := by
  induction acts generalizing s S with
  | nil => exact h e
  | cons a acts ih =>
    rw [Programs.actions, outputs_cons, run_append, run_cons]
    exact ih (Follows.programs_step h a)

/-- The queue of one end is kept in order along every run. -/
theorem Programs.queueOk_run {d : Display} {s : Programs} {e : Side} (h : (s e).QueueOk)
    (acts : List (Side × Input)) :
    (run (Programs.step d) s acts e).QueueOk ∧
      (s e).eventQueue.stored.reverse ++ Programs.pushed d s e acts =
        Programs.handled d s e acts ++
          (run (Programs.step d) s acts e).eventQueue.stored.reverse := by
  induction acts generalizing s with
  | nil => exact ⟨h, List.append_nil _⟩
  | cons a acts ih =>
    obtain ⟨f, i⟩ := a
    -- a step of the other end sends a byte at most
    have hstep : (Programs.step d s (f, i) e).QueueOk ∧
        (s e).eventQueue.stored.reverse ++ (if f = e then (s e).pushed i else []) =
          (if f = e then (s e).handled i else []) ++
            (Programs.step d s (f, i) e).eventQueue.stored.reverse := by
      obtain rfl | rfl := f.eq_or_eq_other e
      · rw [step_self, if_pos rfl, if_pos rfl]
        exact ProjMainLoop.queueOk_step h d i
      · rw [step_other, if_neg (Side.ne_other f), if_neg (Side.ne_other f), List.append_nil]
        exact ⟨h.congr rfl id, rfl⟩
    obtain ⟨hok, hqueue⟩ := ih hstep.1
    refine ⟨hok, ?_⟩
    rw [Programs.pushed, outputs_cons, Programs.handled, outputs_cons, ← List.append_assoc,
      hstep.2, List.append_assoc, List.append_assoc]
    exact congrArg _ hqueue

/-! ## From the head of the loop on -/

/-- At the head of the loop, with nothing pending. -/
structure ProjMainLoop.AtHead (p : ProjMainLoop) : Prop where
  phase : p.phase = .receive
  size : p.eventQueue.size = 0
  capacity : p.eventQueue.capacity = 100

namespace ProjMainLoop.AtHead

variable {p : ProjMainLoop} (h : p.AtHead)
include h

theorem queueOk : p.QueueOk where
  wellFormed := ⟨by rw [h.size]; exact Nat.zero_le _, by rw [h.capacity]; decide⟩
  capacity := h.capacity
  size_le := by rw [h.size]; exact Nat.zero_le _
  empty _ := h.size

theorem follows : Follows p p.toInstance := .refl p (by simp [h.phase])

end ProjMainLoop.AtHead

theorem atHead_start (memory : ℕ → UInt8) (malloced : ℕ → Event) :
    (ProjMainLoop.start memory malloced).AtHead := ⟨rfl, rfl, rfl⟩

/-- **The programs are two instances on one line.** In every run of two programs from the head of
their loops, with any notifications, any outcome of the port accesses and any interleaving of
their steps: the instances take the actions of the programs and end in the same states, but for
the bytes that `sp_clear` throws away behind the loop; and of every end, the events are handled
notification by notification, each once and in the reverse order of its pushes, while three at
most are pending. -/
theorem programs_follow {d : Display} {s : Programs} (h : ∀ e, (s e).AtHead)
    (acts : List (Side × Input)) :
    let s' := run (Programs.step d) s acts
    let S' := run (System.step d) (fun e => (s e).toInstance) (Programs.actions d s acts)
    ∀ e, Follows (s' e) (S' e) ∧ (s' e).eventQueue.size ≤ 3 ∧
      Programs.pushed d s e acts =
        Programs.handled d s e acts ++ (s' e).eventQueue.stored.reverse := by
  intro s' S' e
  obtain ⟨hok, hqueue⟩ := Programs.queueOk_run (h e).queueOk acts
  have hnil : (s e).eventQueue.stored = [] := by
    rw [← List.length_eq_zero_iff, EventQueue.length_stored, (h e).size]
  rw [hnil] at hqueue
  exact ⟨Follows.programs_run (fun f => (h f).follows) acts e, hok.size_le, hqueue⟩

/-- Two programs at the start of their loops. -/
def startPrograms : Programs := fun _ => .start (fun _ => 0) fun _ => .newFrame

/-- A notification with a frame and a key, and four steps of the loop. -/
def frameAndKey : List (Side × Input) :=
  let key : KeyReading := ⟨some 0x01, some 0x9e⟩
  let message : Message :=
    { timer := true, mouse := none, keyboard := some key, serialPort := none }
  [(.left, ⟨some message, none, false, 0, true⟩), (.left, ⟨none, some 0, false, 0, true⟩),
    (.left, ⟨none, none, false, 0, true⟩), (.left, ⟨none, none, false, 0, true⟩)]

/-- The key is handled first, and the frame waits. -/
theorem programs_follow_frameAndKey :
    let d := Display.mode115 Images.blank
    let s' := run (Programs.step d) startPrograms frameAndKey
    Programs.pushed d startPrograms .left frameAndKey = [.keyboard 0x9e, .newFrame] ∧
      Programs.pushed d startPrograms .left frameAndKey =
        Programs.handled d startPrograms .left frameAndKey ++
          (s' .left).eventQueue.stored.reverse := by
  intro d s'
  refine ⟨rfl, ?_⟩
  exact (programs_follow (fun _ => atHead_start _ _) frameAndKey .left).2.2

end LCChess
