import LCChess.Input.Decoding
import LCChess.Program.ProjMainLoop
import LCChess.Protocol.Table

/-!
# Driving two programs

Every run of two instances under events that the hardware can produce is one of two whole programs:
for each action there are notifications and outcomes of the port accesses under which an iteration
of `proj_main_loop` takes it. The iteration makes the calls of `sp_write` and `sp_read`, too, which
then find nothing to do.

## Main definitions

* `Padded acts bcts`: the actions `bcts` are `acts` and calls that do nothing
* `Waits p`: the program is at the head of its loop, between two packets of the mouse
* `Action.inputs`, `drive`: what makes the programs take an action, and a list of them

## Main results

* `Waits.iteration`: an iteration of the loop
* `drive_follows`: the programs take the actions
-/

namespace LCChess

open Transition (run outputs Along run_cons run_nil run_append outputs_cons outputs_nil
  outputs_append run_invariant)

/-! ## Calls that do nothing -/

/-- A call that cannot write, or has nothing to read. -/
def IdleCall (a : Action) : Prop := a = .spWrite (some 0) ∨ a = .spRead false

/-- The actions `bcts` are `acts` and calls that do nothing. -/
inductive Padded : List (Side × Action) → List (Side × Action) → Prop
  | nil : Padded [] []
  | act (a : Side × Action) {acts bcts : List (Side × Action)} (h : Padded acts bcts) :
      Padded (a :: acts) (a :: bcts)
  | idle (a : Side × Action) (ha : IdleCall a.2) {acts bcts : List (Side × Action)}
      (h : Padded acts bcts) : Padded acts (a :: bcts)

theorem spWrite_unready {vm : Vm} : vm.spWrite (some 0) = (vm, none) := by
  have hready : spCheckWrite (some 0) = false := by decide
  simp [Vm.spWrite, LCChess.spWrite, hready]

theorem spRead_unarrived {vm : Vm} : vm.spRead false = vm := by
  have hread : readLine false vm.line vm.receiveQueue = (vm.line, vm.receiveQueue) := by
    cases vm.line <;> rfl
  simp only [Vm.spRead, hread]

/-- An idle call leaves the two instances alone. -/
theorem System.step_idle (d : Display) (s : System) (e : Side) {a : Action} (h : IdleCall a) :
    System.step d s (e, a) = s ∧ System.accepted d s (e, a) = none := by
  have hquiet : ∀ t : Instance, t.step d a = t ∧ t.written a = [] := by
    intro t
    cases hcrash : t.crashed with
    | true => simp [Instance.step, Instance.written, hcrash]
    | false =>
      obtain rfl | rfl := h
      · obtain ⟨hstep, hwritten⟩ := Instance.step_spWrite (d := d) hcrash (some 0)
        rw [hstep, hwritten, spWrite_unready]
        exact ⟨rfl, rfl⟩
      · by_cases hexit : t.vm.gameState = .exit
        · exact ⟨(Instance.step_of_alive hcrash _).trans (if_pos hexit), by simp [Instance.written]⟩
        · obtain ⟨hstep, hwritten⟩ := Instance.step_spRead (d := d) hcrash hexit false
          rw [hstep, hwritten, spRead_unarrived]
          exact ⟨rfl, rfl⟩
  constructor
  · funext f
    simp only [System.step]
    split_ifs with hf
    · rw [hf, (hquiet _).1]
    · simp [(hquiet _).2, Instance.receive]
  · unfold System.accepted
    split_ifs
    · rfl
    · obtain rfl | rfl := h <;> rfl

namespace Padded

variable {d : Display} {s : System} {acts bcts : List (Side × Action)} (h : Padded acts bcts)
include h

theorem append {acts' bcts' : List (Side × Action)} (h' : Padded acts' bcts') :
    Padded (acts ++ acts') (bcts ++ bcts') := by
  induction h with
  | nil => exact h'
  | act a _ ih => exact ih.act a
  | idle a ha _ ih => exact ih.idle a ha

/-- The two lists lead to the same state, and make the same moves. -/
theorem run_eq : run (System.step d) s bcts = run (System.step d) s acts ∧
    moves d s bcts = moves d s acts := by
  induction h generalizing s with
  | nil => exact ⟨rfl, rfl⟩
  | act a _ ih =>
    rw [run_cons, run_cons, moves, moves, outputs_cons, outputs_cons]
    exact ⟨ih.1, congrArg _ ih.2⟩
  | idle a ha _ ih =>
    obtain ⟨e, a⟩ := a
    obtain ⟨hstep, hnone⟩ := System.step_idle d s e ha
    rw [run_cons, moves, outputs_cons, hstep, hnone]
    exact ih

/-- A condition that the idle calls meet. -/
theorem along {ok : System → Side × Action → Prop}
    (hidle : ∀ s e a, IdleCall a → ok s (e, a)) (hok : Along ok (System.step d) s acts) :
    Along ok (System.step d) s bcts := by
  induction h generalizing s with
  | nil => trivial
  | act a _ ih => exact ⟨hok.1, ih hok.2⟩
  | idle a ha _ ih =>
    obtain ⟨e, a⟩ := a
    refine ⟨hidle s e a ha, ?_⟩
    rw [(System.step_idle d s e ha).1]
    exact ih hok

end Padded

/-! ## An iteration of the loop -/

/-- A message that carries no interrupt of the serial port. -/
def quietMessage (timer : Bool) (mouse : Option Reading) (keyboard : Option KeyReading) : Message :=
  { timer := timer, mouse := mouse, keyboard := keyboard, serialPort := none }

/-- What the steps of an iteration find: the message, the outcomes of the calls, and `arrivals`
bytes at the event, if there is one. -/
def iteration (message : Message) (lsr : Option UInt32) (arrived : Bool) (event : Option ℕ) :
    List Input :=
  [⟨some message, none, false, 0, true⟩, ⟨none, lsr, false, 0, true⟩,
    ⟨none, none, arrived, 0, true⟩] ++
    (event.toList.map fun arrivals => ⟨none, none, false, arrivals, true⟩) ++
    [⟨none, none, false, 0, true⟩]

namespace ProjMainLoop

/-- One step of the program. -/
def after (d : Display) (p : ProjMainLoop) (i : Input) : ProjMainLoop := (p.step d i).1

/-- The actions of its steps. -/
def actions (d : Display) (p : ProjMainLoop) (inputs : List Input) : List Action :=
  outputs (fun p i => (action i p).toList) (after d) p inputs

@[simp] theorem actions_nil (d : Display) (p : ProjMainLoop) : p.actions d [] = [] := rfl

theorem actions_cons (d : Display) (p : ProjMainLoop) (i : Input) (inputs : List Input) :
    p.actions d (i :: inputs) = (p.action i).toList ++ (p.after d i).actions d inputs :=
  outputs_cons ..

theorem actions_append (d : Display) (p : ProjMainLoop) (inputs inputs' : List Input) :
    p.actions d (inputs ++ inputs') =
      p.actions d inputs ++ (run (after d) p inputs).actions d inputs' :=
  outputs_append ..

theorem queueOk_run {d : Display} {p : ProjMainLoop} (h : p.QueueOk) (inputs : List Input) :
    (run (after d) p inputs).QueueOk :=
  run_invariant QueueOk (fun _ i hp => (queueOk_step hp d i).1) h inputs

variable {d : Display} {p : ProjMainLoop}

/-- The first three steps of an iteration. -/
theorem run_calls (halive : p.crashed = false) (hphase : p.phase = .receive)
    (hgoing : p.vm.gameState ≠ .exit) (message : Message) (hport : message.serialPort = none)
    (lsr : Option UInt32) (arrived : Bool) :
    let inputs : List Input := [⟨some message, none, false, 0, true⟩, ⟨none, lsr, false, 0, true⟩,
      ⟨none, none, arrived, 0, true⟩]
    run (after d) p inputs = { (p.interrupted message).1 with
      vm := (p.vm.spWrite lsr).1.spRead arrived, phase := .handle } ∧
      p.actions d inputs = [.spWrite lsr, .spRead arrived] := by
  have hvm : (p.interrupted message).1.vm = p.vm := by simp [interrupted, hport]
  have hreceive : ∀ i : Input, i.message = some message →
      p.after d i = (p.interrupted message).1 ∧ p.action i = none := by
    intro i hi
    constructor
    · rw [after, step_of_alive halive, hphase]
      simp [receiveMessage, hgoing, hi]
    · simp [action, halive, hphase, hgoing, hi, hport]
  obtain ⟨hstep, hnone⟩ := hreceive ⟨some message, none, false, 0, true⟩ rfl
  have halive' : (p.interrupted message).1.crashed = false := halive
  have hphase' : (p.interrupted message).1.phase = .write := rfl
  generalize (p.interrupted message).1 = q at hstep hvm halive' hphase' ⊢
  have hwrite : q.after d ⟨none, lsr, false, 0, true⟩ =
      { q with vm := (p.vm.spWrite lsr).1, phase := .read } := by
    rw [after, step_of_alive halive', hphase', ← hvm]
    rfl
  constructor
  · rw [run_cons, hstep, run_cons, hwrite, run_cons, run_nil, after,
      step_of_alive (by exact halive')]
    rfl
  · rw [actions_cons, hstep, hnone, actions_cons, hwrite, actions_cons, actions_nil]
    simp [action, halive', hphase']

/-- The loop over the queue ends on an empty queue. -/
theorem after_empty (halive : p.crashed = false) (hphase : p.phase = .handle)
    (hempty : p.eventQueue.stored = []) (i : Input) :
    p.after d i = { p with phase := .receive } ∧ p.action i = none := by
  have hzero : eventQueueIsEmpty p.eventQueue = true := by
    rw [eventQueueIsEmpty, beq_iff_eq, ← EventQueue.length_stored, hempty]
    rfl
  constructor
  · rw [after, step_of_alive halive, hphase]
    dsimp only
    rw [handle, if_pos hzero]
  · simp [action, halive, hphase, popEvent, hzero]

/-- It takes the one event of the queue. -/
theorem after_event (halive : p.crashed = false) (hphase : p.phase = .handle) {event : Event}
    (hone : p.eventQueue.stored = [event]) {i : Input} {vm : Vm}
    (hev : handleEvent d i.arrivals event p.vm = some vm) :
    p.after d i = { p with vm := vm, eventQueue := (popEvent p.eventQueue).2 } ∧
      p.action i = some (.event i.arrivals event) ∧ (popEvent p.eventQueue).2.stored = [] := by
  obtain ⟨hlast, hrest⟩ := EventQueue.popEvent_eq p.eventQueue
  rw [hone] at hlast hrest
  have hzero : eventQueueIsEmpty p.eventQueue ≠ true := by
    rw [eventQueueIsEmpty, ne_eq, beq_iff_eq, ← EventQueue.length_stored, hone]
    simp
  refine ⟨?_, ?_, hrest⟩
  · rw [after, step_of_alive halive, hphase]
    dsimp only
    rw [handle, if_neg hzero]
    generalize popEvent p.eventQueue = popped at hlast ⊢
    obtain ⟨first, queue⟩ := popped
    obtain rfl : first = some event := hlast
    simp [hev, hphase]
  · simp only [action, halive, hphase, Bool.false_eq_true, if_false, hlast]
    rfl

/-- The iteration goes back to the head of the loop, when its message has pushed no event. -/
theorem run_quiet (halive : p.crashed = false) (hphase : p.phase = .receive) (hqueue : p.QueueOk)
    (hgoing : p.vm.gameState ≠ .exit) (message : Message) (hport : message.serialPort = none)
    (hnone : LCChess.arrived p.mouse message.toNotification = []) (lsr : Option UInt32)
    (arrived : Bool) :
    run (after d) p (iteration message lsr arrived none) = { (p.interrupted message).1 with
      vm := (p.vm.spWrite lsr).1.spRead arrived, phase := .receive } ∧
      p.actions d (iteration message lsr arrived none) = [.spWrite lsr, .spRead arrived] := by
  obtain ⟨hrun, hactions⟩ := run_calls (d := d) halive hphase hgoing message hport lsr arrived
  have hstored := (hqueue.interrupted hphase message).2
  rw [hnone] at hstored
  have halive' : (p.interrupted message).1.crashed = false := halive
  generalize (p.interrupted message).1 = q at hrun hstored halive' ⊢
  dsimp only at hrun hactions ⊢
  simp only [iteration, Option.toList_none, List.map_nil, List.append_nil]
  obtain ⟨hlast, hidle⟩ := after_empty (d := d) (p := { q with
    vm := (p.vm.spWrite lsr).1.spRead arrived, phase := .handle }) halive' rfl hstored
    ⟨none, none, false, 0, true⟩
  rw [run_append, hrun, run_cons, run_nil, hlast, actions_append, hactions, hrun, actions_cons,
    actions_nil, hidle]
  exact ⟨rfl, rfl⟩

/-- The iteration of a message that has pushed one event. -/
theorem run_event (halive : p.crashed = false) (hphase : p.phase = .receive) (hqueue : p.QueueOk)
    (hgoing : p.vm.gameState ≠ .exit) (message : Message) (hport : message.serialPort = none)
    {event : Event} (hone : LCChess.arrived p.mouse message.toNotification = [event])
    {arrivals : ℕ} {vm : Vm} (hev : handleEvent d arrivals event p.vm = some vm) :
    let p' := run (after d) p (iteration message (some 0) false (some arrivals))
    p'.phase = .receive ∧ p'.mouse = (p.interrupted message).1.mouse ∧
      p.actions d (iteration message (some 0) false (some arrivals)) =
        [.spWrite (some 0), .spRead false, .event arrivals event] := by
  obtain ⟨hrun, hactions⟩ := run_calls (d := d) halive hphase hgoing message hport (some 0) false
  rw [spWrite_unready, spRead_unarrived] at hrun
  have hstored := (hqueue.interrupted hphase message).2
  rw [hone] at hstored
  have halive' : (p.interrupted message).1.crashed = false := halive
  generalize (p.interrupted message).1 = q at hrun hstored halive' ⊢
  dsimp only at hrun hactions ⊢
  simp only [iteration, Option.toList_some, List.map_cons, List.map_nil]
  obtain ⟨hfirst, haction, hrest⟩ := after_event (d := d)
    (p := { q with vm := p.vm, phase := .handle }) (i := ⟨none, none, false, arrivals, true⟩)
    halive' rfl hstored hev
  obtain ⟨hlast, hidle⟩ := after_empty (d := d) (p := { q with
    vm := vm, eventQueue := (popEvent q.eventQueue).2, phase := .handle }) halive' rfl hrest
    ⟨none, none, false, 0, true⟩
  dsimp only at hfirst hlast
  simp only [run_append, hrun, run_cons, run_nil, hfirst, hlast, actions_append, hactions,
    actions_cons, actions_nil, haction, hidle]
  exact ⟨trivial, trivial, rfl⟩

end ProjMainLoop

/-! ## What makes the programs take an action -/

/-- The first byte of a packet. -/
def Packet.header (pp : Packet) : UInt8 :=
  0x08 ||| (if pp.lb then 0x01 else 0) ||| (if pp.rb then 0x02 else 0) |||
    (if pp.mb then 0x04 else 0) ||| (if pp.deltaX < 0 then 0x10 else 0) |||
    (if pp.deltaY < 0 then 0x20 else 0) ||| (if pp.xOv then 0x40 else 0) |||
    (if pp.yOv then 0x80 else 0)

/-- The packet is decoded from these bytes: its displacements have nine bits. -/
def Packet.Encoded (pp : Packet) : Prop :=
  pp.header &&& 0x08 ≠ 0 ∧
    decodePacket pp.header pp.deltaX.toUInt16.toUInt8 pp.deltaY.toUInt16.toUInt8 = pp

instance (pp : Packet) : Decidable pp.Encoded := by unfold Packet.Encoded; infer_instance

/-- A byte of the mouse in the output buffer. -/
def mouseByte (byte : UInt8) : Message := quietMessage false (some ⟨0x21, byte⟩) none

/-- The event is one that the hardware can produce. -/
def Action.Producible : Action → Prop
  | .event _ (.keyboard code) => code ≠ twoBytes
  | .event _ (.mouse pp) => pp.Encoded
  | _ => True

instance (a : Action) : Decidable a.Producible := by
  unfold Action.Producible
  split <;> infer_instance

/-- The inputs that make a program take an action. -/
def Action.inputs : Action → List Input
  | .spWrite lsr => iteration (quietMessage false none none) lsr false none
  | .spRead arrived => iteration (quietMessage false none none) (some 0) arrived none
  | .event arrivals .newFrame =>
    iteration (quietMessage true none none) (some 0) false (some arrivals)
  | .event arrivals (.keyboard code) =>
    iteration (quietMessage false none (some ⟨some 0x01, some code⟩)) (some 0) false (some arrivals)
  | .event arrivals (.mouse pp) =>
    iteration (mouseByte pp.header) (some 0) false none ++
      (iteration (mouseByte pp.deltaX.toUInt16.toUInt8) (some 0) false none ++
        iteration (mouseByte pp.deltaY.toUInt16.toUInt8) (some 0) false (some arrivals))

/-- A program at the head of its loop, between two packets of the mouse. -/
structure ProjMainLoop.Waits (p : ProjMainLoop) : Prop where
  phase : p.phase = .receive
  queue : p.QueueOk
  mouse : Aligned p.mouse (0, false)

/-- The packets that three bytes of the mouse deliver one by one. -/
theorem delivered_encoded {s : MouseState} (h : Aligned s (0, false)) {pp : Packet}
    (hpp : pp.Encoded) :
    delivered s ⟨0x21, pp.header⟩ = [] ∧
      delivered (mouseStep s ⟨0x21, pp.header⟩) ⟨0x21, pp.deltaX.toUInt16.toUInt8⟩ = [] ∧
      delivered (mouseStep (mouseStep s ⟨0x21, pp.header⟩) ⟨0x21, pp.deltaX.toUInt16.toUInt8⟩)
        ⟨0x21, pp.deltaY.toUInt16.toUInt8⟩ = [pp] ∧
      Aligned (mouseStep (mouseStep (mouseStep s ⟨0x21, pp.header⟩)
        ⟨0x21, pp.deltaX.toUInt16.toUInt8⟩) ⟨0x21, pp.deltaY.toUInt16.toUInt8⟩) (0, false) := by
  obtain ⟨hfirst, hdecode⟩ := hpp
  have haux : ∀ b, (⟨0x21, b⟩ : Reading).isAux = true := fun _ => by
    simp only [Reading.isAux]
    decide
  have herr : ∀ b, (⟨0x21, b⟩ : Reading).isError = false := fun _ => by
    simp only [Reading.isError]
    decide
  have hmark : (⟨0x21, pp.header⟩ : Reading).isFirst = true := by
    simpa [Reading.isFirst] using hfirst
  have hrun := aligned_run h [⟨0x21, pp.header⟩, ⟨0x21, pp.deltaX.toUInt16.toUInt8⟩,
    ⟨0x21, pp.deltaY.toUInt16.toUInt8⟩]
  rw [track_goodPacket ⟨haux _, haux _, haux _⟩ ⟨⟨herr _, herr _, herr _⟩, hmark⟩] at hrun
  rcases s with ⟨bytes, last, updateMouse, i, validPacket⟩
  obtain rfl : i = 0 := h.index
  obtain rfl : updateMouse = false := h.seen
  obtain rfl : validPacket = true := (h.healthy rfl).2
  refine ⟨?_, ?_, ?_, hrun⟩
  · simp [delivered, mouseInterrupt, mouseIh, haux, herr, hmark]
  · simp [delivered, mouseStep, mouseInterrupt, mouseIh, haux, herr, hmark]
  · simp [delivered, mouseStep, mouseInterrupt, mouseIh, haux, herr, hmark, Function.update_of_ne,
      hdecode]

/-- An event that does not crash the instance is handled. -/
theorem exists_handleEvent {d : Display} {s : Instance} (halive : s.crashed = false) {arrivals : ℕ}
    {event : Event} (hafter : (s.step d (.event arrivals event)).crashed = false) :
    ∃ vm, handleEvent d arrivals event s.vm = some vm := by
  rw [Instance.step_of_alive halive] at hafter
  dsimp only at hafter
  split at hafter
  · exact ⟨_, ‹_›⟩
  · cases hafter

theorem arrived_mouseByte (s : MouseState) (b : UInt8) :
    arrived s (mouseByte b).toNotification = (delivered s ⟨0x21, b⟩).map .mouse := by
  simp [arrived, mouseByte, quietMessage, delivered]

/-- A byte of the mouse that completes no packet. -/
theorem ProjMainLoop.run_mouseByte {d : Display} {p : ProjMainLoop} (halive : p.crashed = false)
    (hphase : p.phase = .receive) (hqueue : p.QueueOk) (hgoing : p.vm.gameState ≠ .exit) {b : UInt8}
    (hnone : delivered p.mouse ⟨0x21, b⟩ = []) :
    let p' := run (after d) p (iteration (mouseByte b) (some 0) false none)
    (p'.crashed = false ∧ p'.phase = .receive ∧ p'.QueueOk ∧ p'.vm = p.vm) ∧
      p'.mouse = mouseStep p.mouse ⟨0x21, b⟩ ∧
      p.actions d (iteration (mouseByte b) (some 0) false none) =
        [.spWrite (some 0), .spRead false] := by
  intro p'
  obtain ⟨hrun, hactions⟩ := run_quiet (d := d) halive hphase hqueue hgoing (mouseByte b)
    rfl (by rw [arrived_mouseByte, hnone]; rfl) (some 0) false
  rw [spWrite_unready, spRead_unarrived] at hrun
  have hok : p'.QueueOk := queueOk_run hqueue _
  change p' = _ at hrun
  generalize p' = q at hrun hok ⊢
  subst hrun
  exact ⟨⟨halive, rfl, hok, rfl⟩, rfl, hactions⟩

namespace ProjMainLoop.Waits

variable {d : Display} {p : ProjMainLoop} (h : p.Waits) (halive : p.crashed = false)
  (hgoing : p.vm.gameState ≠ .exit)
include h halive hgoing

/-- An iteration without an event. -/
theorem quiet (message : Message) (hport : message.serialPort = none)
    (hmouse : message.mouse = none) (hnone : arrived p.mouse message.toNotification = [])
    (lsr : Option UInt32) (arrived : Bool) :
    (run (after d) p (iteration message lsr arrived none)).Waits ∧
      p.actions d (iteration message lsr arrived none) = [.spWrite lsr, .spRead arrived] := by
  obtain ⟨hrun, hactions⟩ :=
    run_quiet (d := d) halive h.phase h.queue hgoing message hport hnone lsr arrived
  refine ⟨⟨?_, queueOk_run h.queue _, ?_⟩, hactions⟩
  · rw [hrun]
  · rw [hrun]
    simpa [interrupted, hmouse] using h.mouse

/-- An iteration with one event. -/
theorem event (message : Message) (hport : message.serialPort = none)
    (hmouse : message.mouse = none) {event : Event}
    (hone : arrived p.mouse message.toNotification = [event]) {arrivals : ℕ}
    (hafter : (p.toInstance.step d (.event arrivals event)).crashed = false) :
    (run (after d) p (iteration message (some 0) false (some arrivals))).Waits ∧
      p.actions d (iteration message (some 0) false (some arrivals)) =
        [.spWrite (some 0), .spRead false, .event arrivals event] := by
  obtain ⟨vm, hev⟩ := exists_handleEvent halive hafter
  obtain ⟨hphase, hmouse', hactions⟩ := run_event (d := d) halive h.phase h.queue hgoing message
    hport hone hev
  refine ⟨⟨hphase, queueOk_run h.queue _, ?_⟩, hactions⟩
  rw [hmouse']
  simpa [interrupted, hmouse] using h.mouse

/-- The iterations of the three bytes of a packet. -/
theorem packet {pp : Packet} (hpp : pp.Encoded) {arrivals : ℕ}
    (hafter : (p.toInstance.step d (.event arrivals (.mouse pp))).crashed = false) :
    (run (after d) p (Action.inputs (.event arrivals (.mouse pp)))).Waits ∧
      p.actions d (Action.inputs (.event arrivals (.mouse pp))) =
        [.spWrite (some 0), .spRead false, .spWrite (some 0), .spRead false, .spWrite (some 0),
          .spRead false, .event arrivals (.mouse pp)] := by
  obtain ⟨hnone₀, hnone₁, hone, hmouse⟩ := delivered_encoded h.mouse hpp
  obtain ⟨⟨halive₁, hphase₁, hqueue₁, hvm₁⟩, hmouse₁, hactions₁⟩ :=
    run_mouseByte (d := d) halive h.phase h.queue hgoing hnone₀
  simp only [Action.inputs, run_append, actions_append, hactions₁]
  generalize run (after d) p (iteration (mouseByte pp.header) (some 0) false none) = q
    at halive₁ hphase₁ hqueue₁ hvm₁ hmouse₁ ⊢
  rw [← hmouse₁] at hnone₁ hone hmouse
  obtain ⟨⟨halive₂, hphase₂, hqueue₂, hvm₂⟩, hmouse₂, hactions₂⟩ :=
    run_mouseByte (d := d) halive₁ hphase₁ hqueue₁ (hvm₁ ▸ hgoing) hnone₁
  rw [hactions₂]
  generalize run (after d) q (iteration _ (some 0) false none) = r
    at halive₂ hphase₂ hqueue₂ hvm₂ hmouse₂ ⊢
  rw [← hmouse₂] at hone hmouse
  have hvm : r.vm = p.vm := hvm₂.trans hvm₁
  obtain ⟨vm, hev⟩ := exists_handleEvent halive hafter
  obtain ⟨hphase₃, hmouse₃, hactions₃⟩ := run_event (d := d) halive₂ hphase₂ hqueue₂
    (hvm ▸ hgoing) (mouseByte _) rfl (by rw [arrived_mouseByte, hone]; rfl) (hvm ▸ hev)
  rw [hactions₃]
  exact ⟨⟨hphase₃, queueOk_run hqueue₂ _, by rw [hmouse₃]; exact hmouse⟩, rfl⟩

/-- **The inputs of an action** make a waiting program take it, and wait again. -/
theorem inputs {a : Action} (ha : a.Producible) (hafter : (p.toInstance.step d a).crashed = false)
    (e : Side) : (run (after d) p a.inputs).Waits ∧
      Padded [(e, a)] ((p.actions d a.inputs).map (Prod.mk e)) := by
  have hwrite : IdleCall (.spWrite (some 0)) := .inl rfl
  have hread : IdleCall (.spRead false) := .inr rfl
  rcases a with ⟨arrivals, event⟩ | lsr | arrived
  · cases event with
    | newFrame =>
      obtain ⟨hwaits, hactions⟩ := h.event (d := d) halive hgoing
        (quietMessage true none none) rfl rfl rfl hafter
      refine ⟨hwaits, ?_⟩
      rw [Action.inputs, hactions]
      exact .idle _ hwrite (.idle _ hread (.act _ .nil))
    | keyboard code =>
      have hcode : code ≠ twoBytes := ha
      have hkey : keyboardIntHandler ⟨some 0x01, some code⟩ = some code := by
        simp only [keyboardIntHandler]
        rw [if_pos (by decide)]
      obtain ⟨hwaits, hactions⟩ := h.event (d := d) halive hgoing
        (quietMessage false none (some ⟨some 0x01, some code⟩)) rfl rfl
        (by simp [arrived, quietMessage, hkey, hcode]) hafter
      refine ⟨hwaits, ?_⟩
      rw [Action.inputs, hactions]
      exact .idle _ hwrite (.idle _ hread (.act _ .nil))
    | mouse pp =>
      obtain ⟨hwaits, hactions⟩ := h.packet (d := d) halive hgoing ha hafter
      refine ⟨hwaits, ?_⟩
      rw [hactions]
      exact .idle _ hwrite (.idle _ hread (.idle _ hwrite (.idle _ hread (.idle _ hwrite
        (.idle _ hread (.act _ .nil))))))
  · obtain ⟨hwaits, hactions⟩ := h.quiet (d := d) halive hgoing
      (quietMessage false none none) rfl rfl rfl lsr false
    refine ⟨hwaits, ?_⟩
    rw [Action.inputs, hactions]
    exact .act _ (.idle _ hread .nil)
  · obtain ⟨hwaits, hactions⟩ := h.quiet (d := d) halive hgoing
      (quietMessage false none none) rfl rfl rfl (some 0) arrived
    refine ⟨hwaits, ?_⟩
    rw [Action.inputs, hactions]
    exact .idle _ hwrite (.act _ .nil)

end ProjMainLoop.Waits

/-! ## Runs -/

/-- The steps of one program, seen from the two ends. -/
theorem Programs.run_inputs {d : Display} {s : Programs} {e : Side}
    (hother : (s e.other).Waits) (inputs : List Input) :
    run (Programs.step d) s (inputs.map (Prod.mk e)) e = run (ProjMainLoop.after d) (s e) inputs ∧
      (run (Programs.step d) s (inputs.map (Prod.mk e)) e.other).Waits ∧
      Programs.actions d s (inputs.map (Prod.mk e)) =
        ((s e).actions d inputs).map (Prod.mk e) := by
  induction inputs generalizing s with
  | nil => exact ⟨rfl, hother, rfl⟩
  | cons i inputs ih =>
    have hwaits : (Programs.step d s (e, i) e.other).Waits := by
      rw [Programs.step_other]
      exact ⟨hother.phase, hother.queue.congr rfl id, hother.mouse⟩
    obtain ⟨hrun, hother', hactions⟩ := ih hwaits
    rw [Programs.step_self] at hrun hactions
    rw [List.map_cons, run_cons, run_cons, Programs.actions, outputs_cons,
      ProjMainLoop.actions_cons, List.map_append]
    exact ⟨hrun, hother', congrArg _ hactions⟩

/-- The instance has neither crashed nor left the game. -/
def Instance.Going (s : Instance) : Prop := s.crashed = false ∧ s.vm.gameState ≠ .exit

/-- A crash and the end of the game are for good. -/
theorem Instance.going_of_step {d : Display} {s : Instance} {a : Action} (h : (s.step d a).Going) :
    s.Going := by
  cases hcrash : s.crashed with
  | true =>
    have hstay : s.step d a = s := by simp [Instance.step, hcrash]
    rwa [hstay] at h
  | false =>
    refine ⟨hcrash, fun hexit => h.2 ?_⟩
    rw [Instance.step_of_alive hcrash]
    rcases a with ⟨arrivals, event⟩ | lsr | arrived
    · dsimp only
      rw [handleEvent_over hexit]
      cases event <;> exact hexit
    · exact hexit
    · dsimp only
      rwa [if_pos hexit]

theorem System.going_of_run {d : Display} {s : System} {acts : List (Side × Action)}
    (h : ∀ e, (run (System.step d) s acts e).Going) (e : Side) : (s e).Going := by
  induction acts generalizing s with
  | nil => exact h e
  | cons a acts ih =>
    have hstep := ih h
    unfold System.step at hstep
    split_ifs at hstep with he
    · rw [he] at hstep ⊢
      exact Instance.going_of_step hstep
    · exact hstep

/-- What makes the two programs take the actions. -/
def drive (acts : List (Side × Action)) : List (Side × Input) :=
  acts.flatMap fun a => a.2.inputs.map (Prod.mk a.1)

/-- **Two programs can do what two instances do**, under events that the hardware can produce, as
long as no instance crashes or leaves the game. -/
theorem drive_follows {d : Display} {s : Programs} (h : ∀ e, (s e).Waits)
    {acts : List (Side × Action)} (hacts : ∀ a ∈ acts, a.2.Producible)
    (hend : ∀ e, (run (System.step d) (fun e => (s e).toInstance) acts e).Going) :
    Padded acts (Programs.actions d s (drive acts)) ∧ ∀ e,
      (run (Programs.step d) s (drive acts) e).toInstance =
        run (System.step d) (fun e => (s e).toInstance) acts e := by
  induction acts generalizing s with
  | nil => exact ⟨.nil, fun _ => rfl⟩
  | cons a acts ih =>
    obtain ⟨e, a⟩ := a
    obtain ⟨ha, hacts⟩ := List.forall_mem_cons.mp hacts
    have hgoing := @System.going_of_run d _ ((e, a) :: acts) hend
    have hafter := System.going_of_run (s := System.step d _ (e, a)) hend e
    have hstep : System.step d (fun e => (s e).toInstance) (e, a) e = (s e).toInstance.step d a :=
      if_pos rfl
    rw [hstep] at hafter
    obtain ⟨hwaits, hpadded⟩ := (h e).inputs (hgoing e).1 (hgoing e).2 ha hafter.1 e
    obtain ⟨hself, hother, hactions⟩ := Programs.run_inputs (d := d) (h e.other) a.inputs
    rw [← hself] at hwaits
    rw [← hactions] at hpadded
    have hfollows := Follows.programs_run (d := d) (S := fun e => (s e).toInstance)
      (fun f => .refl (s f) (by simp [(h f).phase])) (a.inputs.map (Prod.mk e))
    rw [hpadded.run_eq.1, run_cons, run_nil] at hfollows
    rw [drive, List.flatMap_cons, ← drive, run_append, Programs.actions, outputs_append, run_cons]
    rw [run_cons] at hend
    rw [Programs.actions] at hpadded
    generalize run (Programs.step d) s (a.inputs.map (Prod.mk e)) = t
      at hwaits hother hfollows ⊢
    have hboth : ∀ f, (t f).Waits := fun f => by
      obtain rfl | rfl := e.eq_or_eq_other f
      · exact hwaits
      · exact hother
    have heq : System.step d (fun e => (s e).toInstance) (e, a) = fun f => (t f).toInstance :=
      funext fun f => (hfollows f).eq (by simp [(hboth f).phase])
    rw [heq] at hend ⊢
    obtain ⟨hrest, hrun⟩ := ih hboth hacts hend
    exact ⟨hpadded.append hrest, hrun⟩

end LCChess
