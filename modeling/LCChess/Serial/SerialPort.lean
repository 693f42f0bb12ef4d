import LCChess.Serial.Queue

/-!
# The serial port

The transmit and receive paths of `serialPort.c`. The outcome of every `sys_inb` and `sys_outb`
is an argument: `none` is a failed call, `some v` the value read. The bytes the peer has
written to its THR and this UART has not handed out yet form its *line*.

## Main definitions

* `spCheckWrite`, `spCheckRead`, `spWrite`, `spRead`: the port accesses
* `readFromQueue`, `addToTransmitQueue`: the two ends of the queues
* `readLine`, `spClear`: reading from the line while bytes have arrived
-/

namespace LCChess

/-- `VM_CONNECTED`. -/
def vmConnected : UInt8 := 0xFA

/-- `RECEIVE_VM_CONNECTED`. -/
def receiveVmConnected : UInt8 := 0xFD

/-- `SP_RECEIVER`, bit 0 of the line status register. -/
def spReceiver : UInt32 := 1

/-- `SP_TRANSMITTER_HOLDING_EMPTY`, bit 5 of the line status register. -/
def spTransmitterHoldingEmpty : UInt32 := 0x20

/-- `sp_check_write`; a failed `sys_inb` returns `-1` through a `bool`, which is `true`. -/
def spCheckWrite (lsr : Option UInt32) : Bool :=
  match lsr with
  | none => true
  | some lsr =>
    (lsr &&& spTransmitterHoldingEmpty) != 0 && (~~~(lsr &&& spReceiver)) != 0

/-- `sp_check_read`. -/
def spCheckRead (lsr : Option UInt32) : Bool :=
  match lsr with
  | none => false
  | some lsr => (lsr &&& spReceiver) != 0

/-- `sp_write`: the return value, the transmit queue, and the byte written to THR. -/
def spWrite (lsr : Option UInt32) (outb : Bool) (transmitQueue : Queue) :
    ℤ × Queue × Option UInt8 :=
  if !queueIsEmpty transmitQueue && spCheckWrite lsr then
    let (data, transmitQueue) := removeFromQueue transmitQueue
    if outb then (0, transmitQueue, some data) else (-1, transmitQueue, none)
  else (-1, transmitQueue, none)

/-- `sp_read`: the return value and the receive queue. -/
def spRead (lsr : Option UInt32) (rbr : Option UInt32) (receiveQueue : Queue) : ℤ × Queue :=
  if spCheckRead lsr then
    match rbr with
    | none => (-1, receiveQueue)
    | some rbr => (0, addToQueue receiveQueue rbr.toUInt8)
  else (-1, receiveQueue)

/-- `readFromQueue`: the answer `0` is also the answer of an empty queue. -/
def readFromQueue (receiveQueue : Queue) : UInt8 × Queue :=
  if !queueIsEmpty receiveQueue then removeFromQueue receiveQueue else (0, receiveQueue)

/-- `addToTransmitQueue`: a byte that finds the queue full is dropped. -/
def addToTransmitQueue (data : UInt8) (transmitQueue : Queue) : Queue :=
  if !queueIsFull transmitQueue then addToQueue transmitQueue data else transmitQueue

/-- `sp_read` on the UART: the line status shows a received byte when one has arrived. -/
def readLine (arrived : Bool) (line : List UInt8) (receiveQueue : Queue) :
    List UInt8 × Queue :=
  match line with
  | [] => ([], (spRead (some 0) none receiveQueue).2)
  | byte :: rest =>
    if arrived then (rest, (spRead (some spReceiver) (some byte.toUInt32) receiveQueue).2)
    else (line, (spRead (some 0) none receiveQueue).2)

/-- The first loop of `sp_clear`: `arrivals` bytes of the line arrive while it polls. -/
def clearLine : ℕ → List UInt8 → Queue → List UInt8 × Queue
  | arrivals + 1, byte :: rest, receiveQueue =>
    clearLine arrivals rest (readLine true (byte :: rest) receiveQueue).2
  | _, line, receiveQueue => (line, receiveQueue)

/-- The second loop of `sp_clear`; it runs once for each queued byte. -/
def emptyQueue : ℕ → Queue → Queue
  | 0, receiveQueue => receiveQueue
  | n + 1, receiveQueue =>
    if !queueIsEmpty receiveQueue then emptyQueue n (removeFromQueue receiveQueue).2
    else receiveQueue

/-- `sp_clear`, when `arrivals` bytes of the line arrive while it polls. -/
def spClear (arrivals : ℕ) (line : List UInt8) (receiveQueue : Queue) : List UInt8 × Queue :=
  let (line, receiveQueue) := clearLine arrivals line receiveQueue
  (line, emptyQueue receiveQueue.size receiveQueue)

/-! ## The port on the queued bytes -/

@[simp] theorem spRead_none (lsr : UInt32) (q : Queue) : (spRead (some lsr) none q).2 = q := by
  simp only [spRead]; split <;> rfl

@[simp] theorem spRead_byte (byte : UInt8) (q : Queue) :
    (spRead (some spReceiver) (some byte.toUInt32) q).2 = addToQueue q byte := by
  have h : spCheckRead (some spReceiver) = true := by decide
  simp [spRead, h]

theorem wellFormed_readFromQueue {q : Queue} (h : q.WellFormed) :
    (readFromQueue q).2.WellFormed := by
  unfold readFromQueue
  split
  · exact h.removeFromQueue
  · exact h

@[simp] theorem capacity_readFromQueue (q : Queue) :
    (readFromQueue q).2.capacity = q.capacity := by
  unfold readFromQueue; split <;> simp

theorem readFromQueue_of_nil {q : Queue} (h : q.toList = []) : readFromQueue q = (0, q) := by
  simp [readFromQueue, (Queue.queueIsEmpty_iff q).mpr h]

theorem readFromQueue_of_cons {q : Queue} (h : q.WellFormed) {b : UInt8} {bs : List UInt8}
    (hq : q.toList = b :: bs) : (readFromQueue q).1 = b ∧ (readFromQueue q).2.toList = bs := by
  have hne : queueIsEmpty q = false := by
    rw [← Bool.not_eq_true, Queue.queueIsEmpty_iff, hq]
    simp
  simpa [readFromQueue, hne] using h.removeFromQueue_of_cons hq

/-- `readFromQueue` answers the first byte, or `0`. -/
theorem readFromQueue_fst {q : Queue} (h : q.WellFormed) :
    (readFromQueue q).1 = q.toList.headD 0 := by
  cases hq : q.toList with
  | nil => simp [readFromQueue_of_nil hq]
  | cons b bs => simpa using (readFromQueue_of_cons h hq).1

theorem wellFormed_addToTransmitQueue {q : Queue} (h : q.WellFormed) (data : UInt8) :
    (addToTransmitQueue data q).WellFormed := by
  unfold addToTransmitQueue
  split
  · exact h.addToQueue data
  · exact h

@[simp] theorem capacity_addToTransmitQueue (data : UInt8) (q : Queue) :
    (addToTransmitQueue data q).capacity = q.capacity := by
  unfold addToTransmitQueue; split <;> simp

theorem toList_addToTransmitQueue {q : Queue} (h : q.WellFormed)
    (hroom : q.toList.length < q.capacity) (data : UInt8) :
    (addToTransmitQueue data q).toList = q.toList ++ [data] := by
  have hfull : queueIsFull q = false := by
    rw [← Bool.not_eq_true, Queue.queueIsFull_iff]
    omega
  simpa [addToTransmitQueue, hfull] using h.toList_addToQueue hroom data

/-- Adding bytes one after the other to a queue with room for all of them. -/
theorem toList_foldl_addToTransmitQueue {q : Queue} (h : q.WellFormed) {bytes : List UInt8}
    (hroom : q.toList.length + bytes.length ≤ q.capacity) :
    (bytes.foldl (fun q b => addToTransmitQueue b q) q).toList = q.toList ++ bytes := by
  induction bytes generalizing q with
  | nil => exact (List.append_nil _).symm
  | cons b bytes ih =>
    rw [List.length_cons] at hroom
    have hfirst := toList_addToTransmitQueue h (by omega) b
    -- the first byte finds room, and leaves enough for the others
    rw [List.foldl_cons, ih (wellFormed_addToTransmitQueue h b) ?_, hfirst, List.append_assoc]
    · rfl
    · rw [hfirst, capacity_addToTransmitQueue, List.length_append, List.length_singleton]
      omega

/-- `addToTransmitQueue` checks what `addToQueue` checks again. -/
theorem addToTransmitQueue_eq (data : UInt8) (q : Queue) :
    addToTransmitQueue data q = addToQueue q data := by
  unfold addToTransmitQueue addToQueue
  split_ifs <;> simp_all

/-- `sp_write` does nothing, or takes the first byte off the queue and writes it. -/
theorem spWrite_cases {q : Queue} (h : q.WellFormed) (lsr : Option UInt32) :
    (spWrite lsr true q).2 = (q, none) ∨
      ∃ b rest, q.toList = b :: rest ∧ (spWrite lsr true q).2 = ((removeFromQueue q).2, some b) ∧
        (removeFromQueue q).2.toList = rest := by
  -- the queue is touched only if it has a byte and THR is empty
  by_cases hw : (!queueIsEmpty q && spCheckWrite lsr) = true
  · cases hq : q.toList with
    | nil => simp [(Queue.queueIsEmpty_iff q).mpr hq] at hw
    | cons b rest =>
      obtain ⟨hb, hrest⟩ := h.removeFromQueue_of_cons hq
      refine Or.inr ⟨b, rest, rfl, ?_, hrest⟩
      simp only [spWrite, hw, if_true, hb]
  · exact Or.inl (by simp only [spWrite, hw, Bool.false_eq_true, if_false])

theorem wellFormed_spWrite {q : Queue} (h : q.WellFormed) (lsr : Option UInt32) :
    (spWrite lsr true q).2.1.WellFormed ∧ (spWrite lsr true q).2.1.capacity = q.capacity := by
  rcases spWrite_cases h lsr with hwrite | ⟨b, rest, -, hwrite, -⟩
  · rw [hwrite]
    exact ⟨h, rfl⟩
  · rw [hwrite]
    exact ⟨h.removeFromQueue, Queue.capacity_removeFromQueue q⟩

/-- `sp_read` finds nothing, or moves the first byte of the line to the receive queue. -/
theorem readLine_cases (arrived : Bool) (line : List UInt8) (q : Queue) :
    readLine arrived line q = (line, q) ∨
      ∃ b rest, line = b :: rest ∧ readLine arrived line q = (rest, addToQueue q b) := by
  unfold readLine
  split
  · exact Or.inl (by simp)
  · rename_i b rest
    split
    · exact Or.inr ⟨b, rest, rfl, by simp⟩
    · exact Or.inl (by simp)

theorem wellFormed_readLine {q : Queue} (h : q.WellFormed) (arrived : Bool)
    (line : List UInt8) : (readLine arrived line q).2.WellFormed := by
  unfold readLine
  split
  · simpa using h
  · split
    · simpa using h.addToQueue _
    · simpa using h

@[simp] theorem capacity_readLine (arrived : Bool) (line : List UInt8) (q : Queue) :
    (readLine arrived line q).2.capacity = q.capacity := by
  unfold readLine
  split
  · simp
  · split <;> simp

theorem wellFormed_emptyQueue {q : Queue} (h : q.WellFormed) (n : ℕ) :
    (emptyQueue n q).WellFormed ∧ (emptyQueue n q).capacity = q.capacity := by
  induction n generalizing q with
  | zero => exact ⟨h, rfl⟩
  | succ n ih =>
    simp only [emptyQueue]
    split
    · simpa using ih h.removeFromQueue
    · exact ⟨h, rfl⟩

theorem toList_emptyQueue {q : Queue} (h : q.WellFormed) {n : ℕ} (hn : q.toList.length ≤ n) :
    (emptyQueue n q).toList = [] := by
  induction n generalizing q with
  | zero => exact List.length_eq_zero_iff.mp (Nat.le_zero.mp hn)
  | succ n ih =>
    cases hq : q.toList with
    | nil => simp [emptyQueue, (Queue.queueIsEmpty_iff q).mpr hq, hq]
    | cons b bs =>
      have hne : queueIsEmpty q = false := by
        rw [← Bool.not_eq_true, Queue.queueIsEmpty_iff, hq]
        simp
      -- one byte less is left for the rest of the loop
      have hrest := (h.removeFromQueue_of_cons hq).2
      simp only [emptyQueue, hne, Bool.not_false, if_true]
      apply ih h.removeFromQueue
      rw [hrest]
      simpa [hq] using hn

theorem wellFormed_clearLine {q : Queue} (h : q.WellFormed) (arrivals : ℕ)
    (line : List UInt8) :
    (clearLine arrivals line q).2.WellFormed ∧
      (clearLine arrivals line q).2.capacity = q.capacity ∧
      (clearLine arrivals line q).1 = line.drop arrivals := by
  induction arrivals generalizing line q with
  | zero => cases line <;> exact ⟨h, rfl, rfl⟩
  | succ n ih =>
    cases line with
    | nil => exact ⟨h, rfl, rfl⟩
    | cons byte rest =>
      simpa [clearLine] using ih (wellFormed_readLine h true (byte :: rest)) rest

/-- `sp_clear` empties the receive queue and discards the bytes that arrive while it polls. -/
theorem spClear_spec {q : Queue} (h : q.WellFormed) (arrivals : ℕ) (line : List UInt8) :
    (spClear arrivals line q).2.WellFormed ∧
      (spClear arrivals line q).2.capacity = q.capacity ∧
      (spClear arrivals line q).2.toList = [] ∧
      (spClear arrivals line q).1 = line.drop arrivals := by
  obtain ⟨hwf, hcap, hline⟩ := wellFormed_clearLine h arrivals line
  obtain ⟨hwf', hcap'⟩ := wellFormed_emptyQueue hwf (clearLine arrivals line q).2.size
  exact ⟨hwf', hcap'.trans hcap, toList_emptyQueue hwf (by simp), hline⟩

end LCChess
