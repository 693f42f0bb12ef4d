import LCChess.Serial.SerialPort

/-!
# Losses on the serial port

`sp_write` and `sp_read` return `0` when no error occurred. Each loses a byte without saying so
in one case: `sp_write` takes the byte off the queue before it knows whether `sys_outb`
succeeds, and `sp_read` returns `0` when `addToQueue` drops the byte of a full queue.

## Main definitions

* `ReportsWrite`, `ReportsRead`: the return value tells what happened to the byte
* `LosesWrite`, `LosesRead`: the cases in which it does not

## Main results

* `reportsWrite_iff`, `reportsRead_iff`, `reports_iff`: the return values tell the truth in all
  other cases
* `reports_fail`: a failed `sys_outb`, and a full receive queue
-/

namespace LCChess

section Reports

variable (lsr : Option UInt32) (outb : Bool) (rbr : Option UInt32) (q : Queue)

/-- `sp_write` answers `0` exactly if it wrote the first byte of the queue to THR and removed
it, and leaves the queue alone otherwise. -/
structure ReportsWrite : Prop where
  zero_iff : (spWrite lsr outb q).1 = 0 ↔
    ∃ b, (spWrite lsr outb q).2.2 = some b ∧ q.toList = b :: (spWrite lsr outb q).2.1.toList
  unchanged : (spWrite lsr outb q).1 ≠ 0 → (spWrite lsr outb q).2.1.toList = q.toList

/-- `sp_read` answers `0` exactly if it took a byte from RBR and appended it to the queue. -/
structure ReportsRead : Prop where
  zero_iff : (spRead lsr rbr q).1 = 0 ↔
    ∃ v, spCheckRead lsr = true ∧ rbr = some v ∧
      (spRead lsr rbr q).2.toList = q.toList ++ [v.toUInt8]

/-- `sp_write` finds the transmitter ready, and `sys_outb` fails. -/
def LosesWrite : Prop := q.toList ≠ [] ∧ spCheckWrite lsr = true ∧ outb = false

/-- `sp_read` takes a byte that finds the queue full. -/
def LosesRead : Prop := spCheckRead lsr = true ∧ rbr ≠ none ∧ q.toList.length = q.capacity

variable {lsr outb rbr q}

/-- The return value of `sp_write` is right unless `sys_outb` fails behind a ready transmitter. -/
theorem reportsWrite_iff (h : q.WellFormed) :
    ReportsWrite lsr outb q ↔ ¬ LosesWrite lsr outb q := by
  cases hq : q.toList with
  | nil =>
    -- nothing to write
    have hstep : spWrite lsr outb q = (-1, q, none) := by
      simp [spWrite, (Queue.queueIsEmpty_iff q).mpr hq]
    refine iff_of_true ⟨?_, fun _ => ?_⟩ fun hloss => hloss.1 hq
    · simp [hstep]
    · rw [hstep]
  | cons b rest =>
    have hne : queueIsEmpty q = false := by
      rw [← Bool.not_eq_true, Queue.queueIsEmpty_iff, hq]
      simp
    obtain ⟨hb, hrest⟩ := h.removeFromQueue_of_cons hq
    cases hready : spCheckWrite lsr with
    | false =>
      have hstep : spWrite lsr outb q = (-1, q, none) := by simp [spWrite, hne, hready]
      refine iff_of_true ⟨?_, fun _ => ?_⟩ fun hloss => absurd hloss.2.1 (by simp [hready])
      · simp [hstep]
      · rw [hstep]
    | true =>
      cases outb with
      | true =>
        have hstep : spWrite lsr true q = (0, (removeFromQueue q).2, some b) := by
          simp [spWrite, hne, hready, hb]
        refine iff_of_true ⟨?_, fun hne0 => ?_⟩ fun hloss => absurd hloss.2.2 (by simp)
        · rw [hstep, hq, hrest]
          exact iff_of_true rfl ⟨b, rfl, rfl⟩
        · exact absurd (by rw [hstep]) hne0
      | false =>
        -- the byte is off the queue already
        have hstep : spWrite lsr false q = (-1, (removeFromQueue q).2, none) := by
          simp [spWrite, hne, hready]
        refine iff_of_false (fun hreport => ?_) (not_not.mpr ⟨by simp [hq], hready, rfl⟩)
        have hsame := hreport.unchanged (by simp [hstep])
        rw [hstep, hrest, hq] at hsame
        exact absurd (congrArg List.length hsame) (by simp)

/-- The return value of `sp_read` is right unless the byte finds the queue full. -/
theorem reportsRead_iff (h : q.WellFormed) : ReportsRead lsr rbr q ↔ ¬ LosesRead lsr rbr q := by
  cases hready : spCheckRead lsr with
  | false =>
    have hstep : spRead lsr rbr q = (-1, q) := by simp [spRead, hready]
    refine iff_of_true ⟨?_⟩ fun hloss => absurd hloss.1 (by simp [hready])
    simp [hstep, hready]
  | true =>
    cases rbr with
    | none =>
      have hstep : spRead lsr none q = (-1, q) := by simp [spRead, hready]
      refine iff_of_true ⟨?_⟩ fun hloss => hloss.2.1 rfl
      simp [hstep]
    | some v =>
      have hstep : spRead lsr (some v) q = (0, addToQueue q v.toUInt8) := by
        simp [spRead, hready]
      by_cases hroom : q.toList.length < q.capacity
      · refine iff_of_true ⟨?_⟩ fun hloss => absurd hloss.2.2 (by omega)
        rw [hstep]
        exact iff_of_true rfl ⟨v, hready, rfl, h.toList_addToQueue hroom v.toUInt8⟩
      · -- a full queue drops the byte
        have hlen : q.toList.length = q.capacity := by
          have := h.size_le
          rw [Queue.length_toList] at hroom ⊢
          omega
        have hdrop : addToQueue q v.toUInt8 = q := by
          simp [addToQueue, (Queue.queueIsFull_iff q).mpr hlen]
        refine iff_of_false (fun hreport => ?_) (not_not.mpr ⟨hready, by simp, hlen⟩)
        obtain ⟨w, -, -, happend⟩ := hreport.zero_iff.mp (by rw [hstep])
        rw [hstep, hdrop] at happend
        exact absurd (congrArg List.length happend) (by simp)

end Reports

/-- **The return values report losses but in two cases**: for all well-formed queues and all
outcomes of the port accesses, `sp_write` and `sp_read` tell what happened to the byte if and
only if no `sys_outb` fails behind a ready transmitter and no byte is taken from RBR while the
receive queue is full. -/
theorem reports_iff {transmitQueue receiveQueue : Queue} (ht : transmitQueue.WellFormed)
    (hr : receiveQueue.WellFormed) (lsr lsr' rbr : Option UInt32) (outb : Bool) :
    ReportsWrite lsr outb transmitQueue ∧ ReportsRead lsr' rbr receiveQueue ↔
      ¬ LosesWrite lsr outb transmitQueue ∧ ¬ LosesRead lsr' rbr receiveQueue :=
  and_congr (reportsWrite_iff ht) (reportsRead_iff hr)

/-- A queue that holds the first two bytes of a move message. -/
def begunQueue : Queue := addToQueue (addToQueue (createQueue 10 fun _ => 0) 0xF9) 0x0C

theorem wellFormed_begunQueue : begunQueue.WellFormed := by
  have hwf : (createQueue 10 fun _ => 0).WellFormed :=
    Queue.wellFormed_create (by decide) (by decide) _
  exact (hwf.addToQueue 0xF9).addToQueue 0x0C

/-- A message on its way out and one on its way in, an idle transmitter and a received byte: a
byte is sent, and one is added behind the two. -/
theorem reports_begunQueue : ReportsWrite (some 0x20) true begunQueue ∧
    ReportsRead (some 0x01) (some 0x1C) begunQueue := by
  refine (reports_iff wellFormed_begunQueue wellFormed_begunQueue (some 0x20) (some 0x01)
    (some 0x1C) true).mpr ⟨?_, ?_⟩
  · rintro ⟨-, -, hfails⟩
    exact absurd hfails (by decide)
  · rintro ⟨-, -, hfull⟩
    exact absurd hfull (by decide)

/-- A queue of ten bytes, full. -/
def fullQueue : Queue where
  front := 0
  rear := 9
  size := 10
  capacity := 10
  array := fun _ => 0xF8

theorem wellFormed_fullQueue : fullQueue.WellFormed :=
  ⟨by decide, by decide, by decide, by decide, by decide⟩

/-- A failed `sys_outb` loses the first byte under a failure, and a full receive queue loses the
received byte under a success. -/
theorem reports_fail : ¬ ReportsWrite (some 0x20) false fullQueue ∧
    ¬ ReportsRead (some 0x01) (some 0xF9) fullQueue := by
  constructor
  · rw [reportsWrite_iff wellFormed_fullQueue, not_not]
    exact ⟨by decide, by decide, rfl⟩
  · rw [reportsRead_iff wellFormed_fullQueue, not_not]
    exact ⟨by decide, by decide, by decide⟩

end LCChess
