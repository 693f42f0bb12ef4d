import LCChess.Library.Fairness
import LCChess.Program.ProjMainLoop

/-!
# Leaving the main loop

What the program still does when the game is over. A winner calls `sp_emptyTransmitQueue`, which
returns at once if the queue holds bytes, and never if it is empty. The bytes are written behind
that, by the last loop of `sp_unsubscribe_int`.

## Main definitions

* `Leaving p`: the program is about to leave the main loop, or has left it
* `Leaves`: what a step does behind the game

## Main results

* `Leaving.step`: every step behind the game is such a step
* `loop_left`: a program returns unless it has won with an empty transmit queue, and has then sent
  its whole queue
-/

namespace LCChess

open Transition

namespace ProjMainLoop

/-- The program after a step. -/
def next (d : Display) (p : ProjMainLoop) (i : Input) : ProjMainLoop := (p.step d i).1

/-- The bytes that a step writes. -/
def sent (d : Display) (p : ProjMainLoop) (i : Input) : List UInt8 := (p.step d i).2.toList

/-- The game is over: the loop is left at its head, or has been left. -/
structure Leaving (p : ProjMainLoop) : Prop where
  alive : p.crashed = false
  wellFormed : p.vm.transmitQueue.WellFormed
  phase : p.phase ≠ .write ∧ p.phase ≠ .read ∧ p.phase ≠ .handle
  exit : p.vm.gameState = .exit

/-- The phase that follows behind the game. -/
def following (i : Input) (p : ProjMainLoop) : Phase :=
  match p.phase with
  | .receive => if p.vm.won then .emptyTransmitQueue else .unsubscribe
  | .emptyTransmitQueue =>
    if queueIsEmpty p.vm.transmitQueue then .emptyTransmitQueue else .unsubscribe
  | .unsubscribe => if i.unsubscribed then .clear else .returned
  | .clear => .flush
  | .flush => if queueIsEmpty p.vm.transmitQueue then .returned else .flush
  | phase => phase

/-- A step behind the game, from `p` to `p'`: the queue loses the bytes that are written, and the
last loop writes one whenever the transmitter is ready. -/
structure Leaves (i : Input) (p p' : ProjMainLoop) (bytes : List UInt8) : Prop where
  leaving : Leaving p'
  won : p'.vm.won = p.vm.won
  phase : p'.phase = p.following i
  queue : bytes ++ p'.vm.transmitQueue.toList = p.vm.transmitQueue.toList
  silent : p.phase ≠ .flush → bytes = []
  ready : p.phase = .flush → queueIsEmpty p.vm.transmitQueue = false →
    spCheckWrite i.lsr = true → bytes ≠ []

variable {d : Display} {p : ProjMainLoop}

/-- A step that moves on to the next phase, and writes nothing. -/
theorem Leaving.goesOn (h : Leaving p) {i : Input} {p' : ProjMainLoop}
    (hcrashed : p'.crashed = p.crashed) (hqueue : p'.vm.transmitQueue = p.vm.transmitQueue)
    (hwon : p'.vm.won = p.vm.won) (hstate : p'.vm.gameState = p.vm.gameState)
    (hphase : p'.phase = p.following i)
    (hready : p.phase = .flush → queueIsEmpty p.vm.transmitQueue = true) : Leaves i p p' [] where
  leaving := by
    refine ⟨hcrashed.trans h.alive, hqueue ▸ h.wellFormed, ?_, hstate.trans h.exit⟩
    obtain ⟨hwrite, hread, hhandle⟩ := h.phase
    rw [hphase]
    unfold following
    cases hp : p.phase with
    | write => exact absurd hp hwrite
    | read => exact absurd hp hread
    | handle => exact absurd hp hhandle
    | receive | emptyTransmitQueue | unsubscribe | flush => dsimp only; split_ifs <;> simp
    | clear | returned => simp
  won := hwon
  phase := hphase
  queue := by rw [hqueue, List.nil_append]
  silent _ := rfl
  ready hp hne := absurd (hready hp) (by simp [hne])

/-- A round of the last loop that has something to write. -/
theorem Leaving.flushes (h : Leaving p) (hphase : p.phase = .flush)
    (hne : queueIsEmpty p.vm.transmitQueue = false) (i : Input) :
    Leaves i p (p.write i.lsr .flush).1 (p.write i.lsr .flush).2.toList := by
  have hfollowing : p.following i = .flush := by simp [following, hphase, hne]
  have hbyte : (p.write i.lsr .flush).2 = (spWrite i.lsr true p.vm.transmitQueue).2.2 := rfl
  have hqueue : (p.write i.lsr .flush).1.vm.transmitQueue =
      (spWrite i.lsr true p.vm.transmitQueue).2.1 := rfl
  have hleaving : (spWrite i.lsr true p.vm.transmitQueue).2.1.WellFormed →
      Leaving (p.write i.lsr .flush).1 := fun hwf => ⟨h.alive, hwf, by simp [write], h.exit⟩
  rcases spWrite_cases h.wellFormed i.lsr with hwrite | ⟨b, rest, hq, hwrite, hrest⟩
  · rw [hwrite] at hbyte hqueue hleaving
    refine ⟨hleaving h.wellFormed, rfl, hfollowing.symm, by rw [hbyte, hqueue]; rfl,
      fun hne => absurd hphase hne, ?_⟩
    -- a ready transmitter takes the byte
    intro _ _ hready
    have htaken : (spWrite i.lsr true p.vm.transmitQueue).2.2 ≠ none := by
      simp [spWrite, hne, hready]
    exact absurd (congrArg Prod.snd hwrite) htaken
  · rw [hwrite] at hbyte hqueue hleaving
    refine ⟨hleaving h.wellFormed.removeFromQueue, rfl, hfollowing.symm, ?_,
      fun hne => absurd hphase hne, ?_⟩
    · rw [hbyte, hqueue, hrest, hq]
      rfl
    · rw [hbyte]
      simp

/-- **The steps behind the game.** -/
theorem Leaving.step (h : Leaving p) (d : Display) (i : Input) :
    Leaves i p (p.next d i) (p.sent d i) := by
  obtain ⟨hwrite, hread, hhandle⟩ := h.phase
  rw [next, sent, step_of_alive h.alive]
  cases hphase : p.phase with
  | write => exact absurd hphase hwrite
  | read => exact absurd hphase hread
  | handle => exact absurd hphase hhandle
  | receive =>
    have hstep : p.receiveMessage i.message =
        ({ p with phase := if p.vm.won then .emptyTransmitQueue else .unsubscribe }, none) :=
      if_pos h.exit
    rw [hstep]
    exact h.goesOn rfl rfl rfl rfl (by simp [following, hphase]) (by simp [hphase])
  | emptyTransmitQueue =>
    cases hempty : queueIsEmpty p.vm.transmitQueue with
    | true =>
      rw [emptyTransmitQueue_of_empty hphase hempty]
      exact h.goesOn rfl rfl rfl rfl (by simp [following, hphase, hempty]) (by simp [hphase])
    | false =>
      rw [emptyTransmitQueue_of_queued hempty]
      exact h.goesOn rfl rfl rfl rfl (by simp [following, hphase, hempty]) (by simp [hphase])
  | unsubscribe =>
    exact h.goesOn rfl rfl rfl rfl (by simp [following, hphase, unsubscribe]) (by simp [hphase])
  | clear => exact h.goesOn rfl rfl rfl rfl (by simp [following, hphase, clear]) (by simp [hphase])
  | flush =>
    cases hempty : queueIsEmpty p.vm.transmitQueue with
    | true =>
      rw [flush_of_empty hempty]
      exact h.goesOn rfl rfl rfl rfl (by simp [following, hphase, hempty]) fun _ => hempty
    | false =>
      rw [flush_of_queued hempty]
      exact h.flushes hphase hempty i
  | returned => exact h.goesOn rfl rfl rfl rfl (by simp [following, hphase]) (by simp [hphase])

/-! ## Until the program returns -/

/-- A winner at or before `sp_emptyTransmitQueue`, with nothing left to send. -/
def Hangs (p : ProjMainLoop) : Prop :=
  (p.phase = .receive ∧ p.vm.won = true ∨ p.phase = .emptyTransmitQueue) ∧
    queueIsEmpty p.vm.transmitQueue = true

/-- The program waits for the transmitter. -/
def waits (p : ProjMainLoop) : Bool := p.phase = .flush ∧ queueIsEmpty p.vm.transmitQueue = false

/-- The steps that are left at least, but for those that write a byte. -/
def stepsLeft (p : ProjMainLoop) : ℕ :=
  match p.phase with
  | .receive => 5
  | .emptyTransmitQueue => 4
  | .unsubscribe => 3
  | .clear => 2
  | .flush => 1
  | _ => 0

/-- What is left to do. -/
def rank (p : ProjMainLoop) : ℕ := p.vm.transmitQueue.toList.length + p.stepsLeft

/-- Any step helps a program that does not wait for the transmitter. -/
def helps (i : Input) (waits : Bool) : Prop := waits = true → spCheckWrite i.lsr = true

section Step

variable {i : Input} {p' : ProjMainLoop} {bytes : List UInt8} (hstep : Leaves i p p' bytes)
include hstep

/-- Outside the last loop the queue stays as it is. -/
theorem Leaves.queue_eq (hphase : p.phase ≠ .flush) :
    p'.vm.transmitQueue.toList = p.vm.transmitQueue.toList := by
  have hqueue := hstep.queue
  rwa [hstep.silent hphase, List.nil_append] at hqueue

/-- A winner without a byte to send stays in `sp_emptyTransmitQueue`, and nobody else does. -/
theorem Leaves.hangs_iff (h : Leaving p) : Hangs p' ↔ Hangs p := by
  obtain ⟨hwrite, hread, hhandle⟩ := h.phase
  have hphase := hstep.phase
  simp only [Hangs, Queue.queueIsEmpty_iff]
  cases hp : p.phase with
  | write => exact absurd hp hwrite
  | read => exact absurd hp hread
  | handle => exact absurd hp hhandle
  | receive =>
    rw [hphase, hstep.queue_eq (by simp [hp])]
    cases hwon : p.vm.won <;> simp [following, hp, hwon]
  | emptyTransmitQueue =>
    rw [hphase, hstep.queue_eq (by simp [hp])]
    cases hempty : queueIsEmpty p.vm.transmitQueue with
    | true => simp [following, hp, hempty]
    | false =>
      have hne : p.vm.transmitQueue.toList ≠ [] := by
        rw [ne_eq, ← Queue.queueIsEmpty_iff, hempty]
        simp
      simp [following, hp, hempty, hne]
  | unsubscribe =>
    rw [hphase]
    cases hunsubscribed : i.unsubscribed <;> simp [following, hp, hunsubscribed]
  | clear =>
    rw [hphase]
    simp [following, hp]
  | flush =>
    rw [hphase]
    cases hempty : queueIsEmpty p.vm.transmitQueue <;> simp [following, hp, hempty]
  | returned =>
    rw [hphase]
    simp [following, hp]

/-- A program that neither hangs nor waits goes on. -/
theorem Leaves.stepsLeft_lt (h : Leaving p) (hgoes : ¬ Hangs p) (hnot : p.phase ≠ .returned)
    (hwaits : waits p = false) : p'.stepsLeft < p.stepsLeft := by
  obtain ⟨hwrite, hread, hhandle⟩ := h.phase
  unfold stepsLeft
  rw [hstep.phase]
  cases hp : p.phase with
  | write => exact absurd hp hwrite
  | read => exact absurd hp hread
  | handle => exact absurd hp hhandle
  | returned => exact absurd hp hnot
  | receive => cases hwon : p.vm.won <;> simp [following, hp, hwon]
  | emptyTransmitQueue =>
    have hqueued : queueIsEmpty p.vm.transmitQueue = false := by simpa [Hangs, hp] using hgoes
    simp [following, hp, hqueued]
  | unsubscribe => cases hunsubscribed : i.unsubscribed <;> simp [following, hp, hunsubscribed]
  | clear => simp [following, hp]
  | flush =>
    have hempty : queueIsEmpty p.vm.transmitQueue = true := by simpa [waits, hp] using hwaits
    simp [following, hp, hempty]

/-- **Every step takes a program that does not hang closer to its return**, unless it waits for
the transmitter, and then a ready transmitter does. -/
theorem Leaves.rank_step (h : Leaving p) (hgoes : ¬ Hangs p) (hnot : p.phase ≠ .returned) :
    (rank p' < rank p ∨ rank p' = rank p ∧ waits p' = waits p) ∧
      (helps i (waits p) → rank p' < rank p) := by
  have hlen : bytes.length + p'.vm.transmitQueue.toList.length =
      p.vm.transmitQueue.toList.length := by rw [← hstep.queue, List.length_append]
  cases hwaits : waits p with
  | false =>
    have hlt := hstep.stepsLeft_lt h hgoes hnot hwaits
    have hrank : rank p' < rank p := by
      unfold rank
      omega
    exact ⟨.inl hrank, fun _ => hrank⟩
  | true =>
    obtain ⟨hp, hempty⟩ : p.phase = .flush ∧ queueIsEmpty p.vm.transmitQueue = false := by
      simpa [waits] using hwaits
    have hphase : p'.phase = .flush := by
      rw [hstep.phase]
      simp [following, hp, hempty]
    have hrank : bytes.length + rank p' = rank p := by
      simp only [rank, stepsLeft, hp, hphase]
      omega
    refine ⟨?_, fun hhelps => ?_⟩
    · rcases Nat.eq_zero_or_pos bytes.length with hzero | hpos
      · have hqueue := hstep.queue
        rw [List.length_eq_zero_iff.mp hzero, List.nil_append] at hqueue
        have hempty' : queueIsEmpty p'.vm.transmitQueue = false := by
          rw [← Bool.not_eq_true, Queue.queueIsEmpty_iff, hqueue, ← Queue.queueIsEmpty_iff, hempty]
          simp
        exact .inr ⟨by omega, by simp [waits, hphase, hempty']⟩
      · exact .inl (by omega)
    · have hpos := List.length_pos_of_ne_nil (hstep.ready hp hempty (hhelps rfl))
      omega

end Step

/-- A program that leaves the loop without hanging comes closer to its return. -/
theorem helps_return (d : Display) : Helps (next d) (fun _ _ => True)
    (fun p => Leaving p ∧ ¬ Hangs p) (fun p => p.phase = .returned) rank waits helps where
  keeps p i hp hnot _ := by
    have hstep := hp.1.step d i
    exact .inr ⟨⟨hstep.leaving, fun hh => hp.2 ((hstep.hangs_iff hp.1).mp hh)⟩,
      (hstep.rank_step hp.1 hp.2 hnot).1⟩
  helps p i hp hnot _ hhelps := .inr (((hp.1.step d i).rank_step hp.1 hp.2 hnot).2 hhelps)

/-- A step returns from the last loop with the queue empty, if `sp_unsubscribe_int` gets there. -/
theorem Leaves.returned {i : Input} {p' : ProjMainLoop} {bytes : List UInt8}
    (hstep : Leaves i p p' bytes) (hunsubscribed : i.unsubscribed = true)
    (hp' : p'.phase = .returned) (hp : p.phase = .returned → p.vm.transmitQueue.toList = []) :
    p'.vm.transmitQueue.toList = [] := by
  have hnil : p.vm.transmitQueue.toList = [] → p'.vm.transmitQueue.toList = [] := by
    intro hnil
    have hqueue := hstep.queue
    rw [hnil, List.append_eq_nil_iff] at hqueue
    exact hqueue.2
  have hphase := hstep.phase.symm.trans hp'
  unfold following at hphase
  split at hphase
  · split_ifs at hphase
  · split_ifs at hphase
  · rw [if_pos hunsubscribed] at hphase
    exact absurd hphase (by simp)
  · exact absurd hphase (by simp)
  · split_ifs at hphase with hempty
    exact hnil ((Queue.queueIsEmpty_iff _).mp hempty)
  · exact hnil (hp hphase)

/-- The bytes that are written are those of the queue, in order, and the last loop leaves none. -/
theorem sent_run {inputs : List Input} (hunsubscribed : ∀ i ∈ inputs, i.unsubscribed = true)
    (h : Leaving p) (hnot : p.phase ≠ .returned) :
    let p' := run (next d) p inputs
    outputs (sent d) (next d) p inputs ++ p'.vm.transmitQueue.toList =
        p.vm.transmitQueue.toList ∧
      (p'.phase = .returned → p'.vm.transmitQueue.toList = []) := by
  intro p'
  let inv (q : ProjMainLoop) (bytes : List UInt8) : Prop :=
    Leaving q ∧ bytes ++ q.vm.transmitQueue.toList = p.vm.transmitQueue.toList ∧
      (q.phase = .returned → q.vm.transmitQueue.toList = [])
  have hstep : ∀ q i bytes, inv q bytes → i.unsubscribed = true →
      inv (next d q i) (bytes ++ sent d q i) := by
    rintro q i bytes ⟨hleaving, hbytes, hreturned⟩ hok
    have hstep := hleaving.step d i
    refine ⟨hstep.leaving, ?_, fun hq => hstep.returned hok hq hreturned⟩
    rw [List.append_assoc, hstep.queue, hbytes]
  have hrun : inv p' ([] ++ outputs (sent d) (next d) p inputs) :=
    run_outputs_invariant_along inv (fun _ i => i.unsubscribed = true) hstep
      ⟨h, rfl, fun hp => absurd hp hnot⟩ (Along.of_mem hunsubscribed)
  exact hrun.2

/-- A winner without a byte to send never returns. -/
theorem hangs_trace (h : Leaving p) (hhangs : Hangs p) (inputs : ℕ → Input) (n : ℕ) :
    (trace (next d) p inputs n).phase ≠ .returned := by
  have hinv := trace_invariant (fun p => Leaving p ∧ Hangs p)
    (fun q i hq => ⟨(hq.1.step d i).leaving, ((hq.1.step d i).hangs_iff hq.1).mpr hq.2⟩)
    ⟨h, hhangs⟩ inputs n
  obtain ⟨hp, -⟩ | hp := hinv.2.1 <;> simp [hp]

end ProjMainLoop

/-- **Leaving the main loop.** For a program whose game is over, all inputs under which
`sp_configure_end` and `sys_irqrmpolicy` succeed and the transmitter becomes ready again and again:
the bytes it still writes are those of its transmit queue, in order; when it returns, it has written
them all; and it returns unless it is a winner whose queue was empty. -/
theorem loop_left (d : Display) {p : ProjMainLoop} (h : p.Leaving) (hphase : p.phase = .receive)
    (inputs : ℕ → Input) (hunsubscribed : ∀ n, (inputs n).unsubscribed = true)
    (hready : Again fun n => spCheckWrite (inputs n).lsr = true) :
    let queued := p.vm.transmitQueue.toList
    let p' n := trace (ProjMainLoop.next d) p inputs n
    let bytes n := outputs (ProjMainLoop.sent d) (ProjMainLoop.next d) p
      ((List.range n).map inputs)
    (∀ n, bytes n ++ (p' n).vm.transmitQueue.toList = queued) ∧
      (∀ n, (p' n).phase = .returned → bytes n = queued) ∧
      ((∃ n, (p' n).phase = .returned) ↔ ¬ (p.vm.won = true ∧ queued = [])) := by
  intro queued p' bytes
  have hsent : ∀ n, bytes n ++ (p' n).vm.transmitQueue.toList = queued ∧
      ((p' n).phase = .returned → (p' n).vm.transmitQueue.toList = []) := by
    intro n
    have hall : ∀ i ∈ (List.range n).map inputs, i.unsubscribed = true := by
      intro i hi
      obtain ⟨k, -, rfl⟩ := List.mem_map.mp hi
      exact hunsubscribed k
    simpa only [p', trace_eq_run] using ProjMainLoop.sent_run hall h (by simp [hphase])
  refine ⟨fun n => (hsent n).1, fun n hn => ?_, ?_⟩
  · have hbytes := (hsent n).1
    rwa [(hsent n).2 hn, List.append_nil] at hbytes
  · have hhangs : p.Hangs ↔ p.vm.won = true ∧ queued = [] := by
      simp [ProjMainLoop.Hangs, hphase, queued, Queue.queueIsEmpty_iff]
    rw [← hhangs]
    constructor
    · rintro ⟨n, hn⟩ hh
      exact ProjMainLoop.hangs_trace h hh inputs n hn
    · intro hgoes
      exact (ProjMainLoop.helps_return d).reaches ⟨h, hgoes⟩ (fun _ => trivial) fun waits =>
        hready.mono fun n hn _ => hn

/-- The message of a knight that takes the king. -/
def lastMessage : List UInt8 := [beginMessage, positionByte 2 1, positionByte 4 0, yourTurn]

/-- A winner with this message to send. -/
def winner : ProjMainLoop :=
  { ProjMainLoop.start (fun _ => 0) fun _ => .newFrame with
    vm := { Vm.initial with
      gameState := .exit
      won := true
      transmitQueue := lastMessage.foldl addToQueue (createQueue 10 fun _ => 0) } }

theorem leaving_winner : winner.Leaving where
  alive := rfl
  wellFormed := by
    have hwf : (createQueue 10 fun _ => 0).WellFormed :=
      Queue.wellFormed_create (by decide) (by decide) _
    exact (((hwf.addToQueue _).addToQueue _).addToQueue _).addToQueue _
  phase := by decide
  exit := rfl

/-- It returns with the message sent, while the transmitter is ready at every third step. -/
theorem loop_left_winner :
    let inputs (n : ℕ) : Input := ⟨none, some (if n % 3 = 0 then 0x20 else 0), false, 0, true⟩
    ∃ n, (trace (ProjMainLoop.next (Display.mode115 Images.blank)) winner inputs n).phase =
        .returned ∧
      outputs (ProjMainLoop.sent (Display.mode115 Images.blank))
        (ProjMainLoop.next (Display.mode115 Images.blank)) winner ((List.range n).map inputs) =
          lastMessage := by
  intro inputs
  have hqueued : winner.vm.transmitQueue.toList = lastMessage := by decide
  have hready : ∀ n, spCheckWrite (inputs (3 * n)).lsr = true := by
    intro n
    simp only [inputs, Nat.mul_mod_right, if_true]
    decide
  obtain ⟨-, hsent, hreturns⟩ := loop_left (Display.mode115 Images.blank) leaving_winner rfl inputs
    (fun _ => rfl) fun n => ⟨3 * n, by omega, hready n⟩
  obtain ⟨n, hn⟩ := hreturns.mpr fun hempty => by
    rw [hqueued] at hempty
    exact absurd hempty.2 (by decide)
  exact ⟨n, hn, (hsent n hn).trans hqueued⟩

end LCChess
