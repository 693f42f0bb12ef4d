import LCChess.Serial.SerialPort

/-!
# Flushing the transmit queue

`sp_emptyTransmitQueue` is called once, by the winner, when the main loop is left. Its loop runs
*while the queue is empty*: on a queue that holds bytes it returns at once and sends none of
them, and on an empty queue it polls the line status for ever, whatever the line answers.

## Main definitions

* `spEmptyTransmitQueue`: the loop, with fuel; `none` is a loop still running
* `ReadyAgain`: the transmitter becomes ready again and again
* `Flushes`: the loop returns with the queue empty and its bytes written in order

## Main results

* `spEmptyTransmitQueue_of_queued`, `spEmptyTransmitQueue_of_empty`: what the loop does
* `not_flushes`: it flushes no queue
-/

namespace LCChess

/-- `sp_emptyTransmitQueue`. The `i`-th `sys_inb` of the line status answers `lsr i` and a
`sys_outb` behind it succeeds when `outb i` says so. `polls` counts the line statuses read and
`thr` holds the bytes written so far. -/
def spEmptyTransmitQueue (lsr : ℕ → Option UInt32) (outb : ℕ → Bool) :
    ℕ → ℕ → Queue → List UInt8 → Option (Queue × List UInt8)
  | 0, _, _, _ => none
  | fuel + 1, polls, transmitQueue, thr =>
    if queueIsEmpty transmitQueue then
      if spCheckWrite (lsr polls) then
        -- `sp_write` reads the line status again, unless the queue is empty
        let polls' := if queueIsEmpty transmitQueue then polls + 1 else polls + 2
        let (_, transmitQueue, byte) :=
          spWrite (lsr (polls + 1)) (outb (polls + 1)) transmitQueue
        spEmptyTransmitQueue lsr outb fuel polls' transmitQueue (thr ++ byte.toList)
      else spEmptyTransmitQueue lsr outb fuel (polls + 1) transmitQueue thr
    else some (transmitQueue, thr)

/-- The transmitter-empty bit is set again and again. -/
def ReadyAgain (lsr : ℕ → UInt32) : Prop :=
  ∀ n, ∃ m, n ≤ m ∧ lsr m &&& spTransmitterHoldingEmpty ≠ 0

/-- The loop returns, with the queue empty and the queued bytes written in order, each once. No
`sys_inb` or `sys_outb` fails. -/
def Flushes (lsr : ℕ → UInt32) (transmitQueue : Queue) : Prop :=
  ∃ fuel left, left.toList = [] ∧
    spEmptyTransmitQueue (fun i => some (lsr i)) (fun _ => true) fuel 0 transmitQueue [] =
      some (left, transmitQueue.toList)

/-- `sp_write` leaves an empty queue alone. -/
theorem spWrite_of_empty {q : Queue} (h : queueIsEmpty q = true) (lsr : Option UInt32)
    (outb : Bool) : spWrite lsr outb q = (-1, q, none) := by
  simp [spWrite, h]

/-- A queue that holds bytes is returned as it is: none of them is written. -/
theorem spEmptyTransmitQueue_of_queued {q : Queue} (h : queueIsEmpty q = false)
    (lsr : ℕ → Option UInt32) (outb : ℕ → Bool) (fuel : ℕ) :
    spEmptyTransmitQueue lsr outb (fuel + 1) 0 q [] = some (q, []) := by
  simp [spEmptyTransmitQueue, h]

/-- On an empty queue the loop never returns. -/
theorem spEmptyTransmitQueue_of_empty {q : Queue} (h : queueIsEmpty q = true)
    (lsr : ℕ → Option UInt32) (outb : ℕ → Bool) (fuel polls : ℕ) (thr : List UInt8) :
    spEmptyTransmitQueue lsr outb fuel polls q thr = none := by
  induction fuel generalizing polls thr with
  | zero => rfl
  | succ fuel ih =>
    -- one round of the loop leaves the queue empty, whether or not the line is ready
    simp only [spEmptyTransmitQueue, h, if_true, spWrite_of_empty h]
    split_ifs
    · exact ih _ _
    · exact ih _ _

/-- **No queue is flushed**, however often the line becomes ready: a queue that holds bytes
keeps them, and from an empty queue the loop does not return. -/
theorem not_flushes (lsr : ℕ → UInt32) (transmitQueue : Queue) :
    ¬ Flushes lsr transmitQueue := by
  rintro ⟨fuel, left, hleft, hrun⟩
  cases hempty : queueIsEmpty transmitQueue with
  | true =>
    rw [spEmptyTransmitQueue_of_empty hempty] at hrun
    exact absurd hrun (by simp)
  | false =>
    cases fuel with
    | zero => exact absurd hrun (by simp [spEmptyTransmitQueue])
    | succ fuel =>
      rw [spEmptyTransmitQueue_of_queued hempty] at hrun
      obtain ⟨rfl, -⟩ := Prod.mk.inj (Option.some.inj hrun)
      rw [(Queue.queueIsEmpty_iff _).mpr hleft] at hempty
      exact absurd hempty (by decide)

/-- The queue is empty and the line is always ready: the loop does not return. -/
theorem flush_hangs :
    ReadyAgain (fun _ => 0x60) ∧ ¬ Flushes (fun _ => 0x60) (createQueue 10 fun _ => 0) := by
  constructor
  · intro n
    exact ⟨n, Nat.le_refl n, show (0x60 : UInt32) &&& spTransmitterHoldingEmpty ≠ 0 by decide⟩
  · rintro ⟨fuel, left, -, hrun⟩
    rw [spEmptyTransmitQueue_of_empty (by decide)] at hrun
    exact absurd hrun (by simp)

end LCChess
