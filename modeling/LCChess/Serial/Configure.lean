import LCChess.Library.Byte
import LCChess.Library.Command
import Mathlib.Algebra.Order.Ring.Int
import Mathlib.Tactic.NormNum

/-!
# The configuration of the UART

`sp_configure_init` sets up the registers of the UART by reads and writes of its ports. Two of
the ports lead to the divisor latch while bit 7 of LCR is set, and a third reads IIR but writes
FCR. All accesses together set the bit rate and the interrupts as they should; but `SP_8BITS`
is the *and* of two bits, which is zero, so that every successful configuration selects
characters of five bits.

## Main definitions

* `Uart`, `Bus`: the registers, and what the accesses answer
* `spSetNumberOfBitsPerChar`, `spSetBitrate`, `spEnable`, `spConfigureInit`: the commands of
  `serialPort.c`
* `Configured`: what the registers should hold

## Main results

* `spConfigureInit_spec`: the command succeeds when its accesses do, and its effect
* `configured_registers`: the registers that come out right
* `configure_iff`: success never means a configured UART
* `configure_fails`: a UART whose ports all answer
-/

namespace LCChess

open Command (check done get Spec Reads)

/-! ## The registers and the ports -/

/-- The registers of the UART. `fcr` is the last value written to FCR, and `thr` to THR;
`accesses` counts the port accesses. -/
structure Uart where
  lcr : UInt8
  ier : UInt8
  fcr : UInt8
  dll : UInt8
  dlm : UInt8
  thr : UInt8
  accesses : ℕ

/-- What the environment answers: whether the `n`-th access succeeds, and what a read of RBR or
IIR finds there. -/
structure Bus where
  ok : ℕ → Bool
  rbr : ℕ → UInt8
  iir : ℕ → UInt8

/-- `SP_DLL`, which is also RBR and THR. -/
def spDll : Fin 4 := 0

/-- `SP_DLM`. -/
def spDlm : Fin 4 := 1

/-- `SP_IER`. -/
def spIer : Fin 4 := 1

/-- `SP_FCR`, which is read as IIR. -/
def spFcr : Fin 4 := 2

/-- `SP_LCR`. -/
def spLcr : Fin 4 := 3

/-- `SP_8BITS`, as `BIT(0) & BIT(1)`. -/
def sp8Bits : UInt8 := 0x01 &&& 0x02

/-- `SP_DLAB`. -/
def spDlab : UInt32 := 0x80

/-- `SP_RECEIVED_INTERRUPT`. -/
def spReceivedInterrupt : UInt8 := 0x01

/-- `SP_TRANSMITTER_INTERRUPT`. -/
def spTransmitterInterrupt : UInt8 := 0x02

/-- `SP_RECEIVER_LINE_INTERRUPT`. -/
def spReceiverLineInterrupt : UInt8 := 0x04

/-- `SP_ENABLE_FIFO`. -/
def spEnableFifo : UInt8 := 0x01

/-- `SP_CLEAR_RECEIVER_FIFO`. -/
def spClearReceiverFifo : UInt8 := 0x02

/-- `SP_CLEAR_TRASMITTER_FIFO`. -/
def spClearTrasmitterFifo : UInt8 := 0x04

namespace Uart

/-- Bit 7 of LCR: the first two ports lead to the divisor latch. -/
def dlab (u : Uart) : Bool := u.lcr &&& 0x80 != 0

/-- What the port with the offset `port` reads. -/
def answer (bus : Bus) (port : Fin 4) (u : Uart) : UInt8 :=
  match port with
  | 0 => if u.dlab then u.dll else bus.rbr u.accesses
  | 1 => if u.dlab then u.dlm else u.ier
  | 2 => bus.iir u.accesses
  | 3 => u.lcr

/-- The registers after one more access. -/
def tick (u : Uart) : Uart := { u with accesses := u.accesses + 1 }

/-- The registers after `byte` was written to the port with the offset `port`. -/
def write (port : Fin 4) (byte : UInt8) (u : Uart) : Uart :=
  match port with
  | 0 => if u.dlab then { u.tick with dll := byte } else { u.tick with thr := byte }
  | 1 => if u.dlab then { u.tick with dlm := byte } else { u.tick with ier := byte }
  | 2 => { u.tick with fcr := byte }
  | 3 => { u.tick with lcr := byte }

end Uart

section Commands

variable (bus : Bus)

/-- `sys_inb` on a port of the UART. -/
def sysInb (port : Fin 4) (u : Uart) : Option UInt32 × Uart :=
  if bus.ok u.accesses then (some (u.answer bus port).toUInt32, u.tick) else (none, u.tick)

/-- `sys_outb` on a port of the UART, which takes the low byte; a failure is any code but `0`. -/
def sysOutb (port : Fin 4) (value : UInt32) : Command Uart := fun u =>
  if bus.ok u.accesses then (0, u.write port value.toUInt8) else (-1, u.tick)

/-- `sp_set_number_of_bits_per_char`. -/
def spSetNumberOfBitsPerChar (numberOfBits : UInt8) : Command Uart :=
  get (sysInb bus spLcr) 1 fun lcr =>
  check (sysOutb bus spLcr (lcr &&& 0xFC ||| numberOfBits.toUInt32)) 1 done

/-- `util_get_LSB`. -/
def utilGetLSB (val : UInt16) : UInt8 := val.toUInt8

/-- `util_get_MSB`. -/
def utilGetMSB (val : UInt16) : UInt8 := ((val &&& 0xFF00) >>> 8).toUInt8

/-- `sp_set_bitrate`. -/
def spSetBitrate (bitrate : ℤ) : Command Uart :=
  let actualRate := UInt16.ofInt (Int.tdiv 115200 bitrate)
  let actualRatelsb := utilGetLSB actualRate
  let actualRatemsb := utilGetMSB actualRate
  get (sysInb bus spLcr) (-1) fun lcr =>
  check (sysOutb bus spLcr (lcr ||| spDlab)) (-1) <|
  check (sysOutb bus spDll actualRatelsb.toUInt32) (-1) <|
  check (sysOutb bus spDlm actualRatemsb.toUInt32) (-1) <|
  get (sysInb bus spLcr) (-1) fun lcr =>
  check (sysOutb bus spLcr (lcr &&& ~~~spDlab)) (-1) done

/-- `sp_enable`. -/
def spEnable (port : Fin 4) (bit : UInt8) (enable : Bool) : Command Uart :=
  get (sysInb bus port) (-1) fun aux =>
  check (sysOutb bus port (if enable then aux ||| bit.toUInt32 else aux &&& ~~~bit.toUInt32))
    (-1) done

/-- `sp_configure_init`. -/
def spConfigureInit : Command Uart :=
  check (spSetNumberOfBitsPerChar bus sp8Bits) (-1) <|
  check (spSetBitrate bus 115200) 1 <|
  check (spEnable bus spIer spReceivedInterrupt true) (-1) <|
  check (spEnable bus spIer spTransmitterInterrupt true) (-1) <|
  check (spEnable bus spIer spReceiverLineInterrupt true) (-1) <|
  check (spEnable bus spFcr spEnableFifo true) (-1) <|
  check (spEnable bus spFcr spClearTrasmitterFifo true) (-1) <|
  check (spEnable bus spFcr spClearReceiverFifo true) (-1) done

end Commands

/-- The registers `u'` are those of a configured UART that held `u` before: characters of eight
bits, the port registers behind the first two offsets, the divisor `115200 / 115200`, three
interrupts enabled and the FIFOs, and all other bits as they were. -/
structure Configured (u u' : Uart) : Prop where
  bits : u'.lcr &&& 0x03 = 0x03
  dlab : u'.lcr &&& 0x80 = 0
  divisor : u'.dlm.toNat * 256 + u'.dll.toNat = 115200 / 115200
  interrupts : u'.ier &&& 0x07 = 0x07
  fifos : u'.fcr &&& 0x01 = 0x01
  lcr_kept : u'.lcr &&& 0x7C = u.lcr &&& 0x7C
  ier_kept : u'.ier &&& 0xF8 = u.ier &&& 0xF8

/-! ## One access -/

/-- The `k` accesses from the `n`-th on succeed. -/
def Bus.Accepts (bus : Bus) (n k : ℕ) : Prop := ∀ i < k, bus.ok (n + i) = true

theorem Bus.accepts_one {bus : Bus} {n : ℕ} : bus.Accepts n 1 ↔ bus.ok n = true := by
  constructor
  · intro h
    exact h 0 Nat.zero_lt_one
  · intro h i hi
    obtain rfl : i = 0 := by omega
    exact h

theorem Bus.accepts_add {bus : Bus} {n k m : ℕ} :
    bus.Accepts n (k + m) ↔ bus.Accepts n k ∧ bus.Accepts (n + k) m := by
  constructor
  · intro h
    refine ⟨fun i hi => h i (by omega), fun i hi => ?_⟩
    rw [Nat.add_assoc]
    exact h (k + i) (by omega)
  · rintro ⟨hk, hm⟩ i hi
    -- an access of the first part, or of the second one
    by_cases hlt : i < k
    · exact hk i hlt
    · have := hm (i - k) (by omega)
      rwa [show n + k + (i - k) = n + i by omega] at this

section Specs

variable {bus : Bus} {u : Uart}

@[simp] theorem Uart.accesses_tick : u.tick.accesses = u.accesses + 1 := rfl

@[simp] theorem Uart.accesses_write (port : Fin 4) (byte : UInt8) :
    (u.write port byte).accesses = u.accesses + 1 := by
  unfold Uart.write
  split
  · split <;> rfl
  · split <;> rfl
  · rfl
  · rfl

/-- A read succeeds when its access does. -/
theorem sysInb_reads (bus : Bus) (port : Fin 4) :
    Reads (fun u => bus.Accepts u.accesses 1) (fun u => (u.answer bus port).toUInt32) Uart.tick
      (sysInb bus port) := by
  intro u
  dsimp only
  rw [Bus.accepts_one]
  constructor
  · intro h
    rw [sysInb, if_pos h]
  · intro h
    rw [sysInb, if_neg h]

/-- A write succeeds when its access does. -/
theorem sysOutb_spec (bus : Bus) (port : Fin 4) (value : UInt32) :
    Spec (fun u => bus.Accepts u.accesses 1) (fun u => u.write port value.toUInt8)
      (sysOutb bus port value) := by
  intro u
  dsimp only
  rw [Bus.accepts_one]
  constructor
  · intro h
    rw [sysOutb, if_pos h]
  · intro h
    rw [sysOutb, if_neg h]
    exact Int.neg_ne_zero.mpr one_ne_zero

/-! ### The ports behind bit 7 of LCR -/

/-- Setting bit 7 of LCR leads the first two ports to the divisor latch. -/
theorem dlab_set (lcr : UInt8) : ((lcr ||| 0x80) &&& 0x80 != 0) = true :=
  Byte.forall_of_fin (P := fun lcr => ((lcr ||| 0x80) &&& 0x80 != 0) = true) (by decide +kernel) lcr

/-- Clearing it leads them to the port registers. -/
theorem dlab_clear (lcr : UInt8) : (lcr &&& 0x7F &&& 0x80 != 0) = false :=
  Byte.forall_of_fin (P := fun lcr => (lcr &&& 0x7F &&& 0x80 != 0) = false) (by decide +kernel) lcr

theorem lcr_set_clear (lcr : UInt8) : (lcr ||| 0x80) &&& 0x7F = lcr &&& 0x7F :=
  Byte.forall_of_fin (P := fun lcr => (lcr ||| 0x80) &&& 0x7F = lcr &&& 0x7F)
    (by decide +kernel) lcr

theorem Uart.write_spDll (h : u.dlab = true) (byte : UInt8) :
    u.write spDll byte = { u with dll := byte, accesses := u.accesses + 1 } := if_pos h

theorem Uart.write_spDlm (h : u.dlab = true) (byte : UInt8) :
    u.write spDlm byte = { u with dlm := byte, accesses := u.accesses + 1 } := if_pos h

theorem Uart.write_spIer (h : u.dlab = false) (byte : UInt8) :
    u.write spIer byte = { u with ier := byte, accesses := u.accesses + 1 } :=
  if_neg (by simp [h])

theorem Uart.answer_spIer (h : u.dlab = false) : u.answer bus spIer = u.ier :=
  if_neg (by simp [h])

/-! ## The commands -/

/-- `sp_enable` or-s a bit to what the port reads. -/
theorem spEnable_spec (bus : Bus) (port : Fin 4) (bit : UInt8) :
    Spec (fun u => bus.Accepts u.accesses 2)
      (fun u => u.tick.write port (u.answer bus port ||| bit)) (spEnable bus port bit true) := by
  refine Spec.congr (Spec.get (sysInb_reads bus port)
    (fun aux => Spec.check (sysOutb_spec bus port (aux ||| bit.toUInt32)) Command.spec_done
      (by decide)) (by decide)) (fun u => ?_) fun u _ => ?_
  · rw [show 2 = 1 + 1 from rfl, Bus.accepts_add]
    simp
  · simp

/-- The registers behind `sp_set_number_of_bits_per_char`. -/
theorem spSetNumberOfBitsPerChar_spec (bus : Bus) (numberOfBits : UInt8) :
    Spec (fun u => bus.Accepts u.accesses 2)
      (fun u => { u with
        lcr := u.lcr &&& 0xFC ||| numberOfBits, accesses := u.accesses + 2 })
      (spSetNumberOfBitsPerChar bus numberOfBits) := by
  refine Spec.congr (Spec.get (sysInb_reads bus spLcr)
    (fun lcr => Spec.check (sysOutb_spec bus spLcr (lcr &&& 0xFC ||| numberOfBits.toUInt32))
      Command.spec_done (by decide)) (by decide)) (fun u => ?_) fun u _ => ?_
  · rw [show 2 = 1 + 1 from rfl, Bus.accepts_add]
    simp
  · simp [Uart.answer, Uart.write, Uart.tick, spLcr]

/-- The registers behind `sp_set_bitrate(115200)`. -/
theorem spSetBitrate_spec (bus : Bus) :
    Spec (fun u => bus.Accepts u.accesses 6)
      (fun u => { u with
        lcr := u.lcr &&& 0x7F, dll := 1, dlm := 0, accesses := u.accesses + 6 })
      (spSetBitrate bus 115200) := by
  refine Spec.congr (Spec.get (sysInb_reads bus spLcr)
    (fun lcr => Spec.check (sysOutb_spec bus spLcr (lcr ||| spDlab))
      (Spec.check (sysOutb_spec bus spDll _)
        (Spec.check (sysOutb_spec bus spDlm _)
          (Spec.get (sysInb_reads bus spLcr)
            (fun lcr => Spec.check (sysOutb_spec bus spLcr (lcr &&& ~~~spDlab))
              Command.spec_done (by decide))
            (by decide))
          (by decide))
        (by decide))
      (by decide))
    (by decide)) (fun u => ?_) fun u _ => ?_
  · rw [show 6 = 1 + (1 + (1 + (1 + (1 + 1)))) from rfl]
    simp only [Bus.accepts_add]
    simp
  · -- the first two ports lead to the divisor latch between the two writes of LCR
    have hlsb : (utilGetLSB (UInt16.ofInt (Int.tdiv 115200 115200))).toUInt32.toUInt8 = 1 := by
      decide
    have hmsb : (utilGetMSB (UInt16.ofInt (Int.tdiv 115200 115200))).toUInt32.toUInt8 = 0 := by
      decide
    have hset : u.tick.write spLcr ((u.answer bus spLcr).toUInt32 ||| spDlab).toUInt8 =
        { u with lcr := u.lcr ||| 0x80, accesses := u.accesses + 2 } := by
      simp [Uart.answer, Uart.write, Uart.tick, spLcr, spDlab]
    have hclear : ∀ v : Uart,
        v.tick.write spLcr ((v.answer bus spLcr).toUInt32 &&& ~~~spDlab).toUInt8 =
          { v with lcr := v.lcr &&& 0x7F, accesses := v.accesses + 2 } := by
      intro v
      have hmask : (~~~spDlab).toUInt8 = 0x7F := by decide
      simp [Uart.answer, Uart.write, Uart.tick, spLcr, hmask]
    simp only [id_eq]
    rw [hset, hlsb, hmsb, Uart.write_spDll, Uart.write_spDlm, hclear, lcr_set_clear]
    · exact dlab_set u.lcr
    · exact dlab_set u.lcr

/-- The registers behind `sp_enable` of an interrupt. -/
theorem spEnable_ier (bus : Bus) (h : u.dlab = false) (bit : UInt8) :
    u.tick.write spIer (u.answer bus spIer ||| bit) =
      { u with ier := u.ier ||| bit, accesses := u.accesses + 2 } := by
  rw [Uart.answer_spIer h, Uart.write_spIer (by exact h)]
  rfl

/-- The registers behind a configuration whose accesses succeed. The last value written to FCR
is what IIR answered to the last read, with one more bit. -/
def configured (bus : Bus) (u : Uart) : Uart where
  lcr := (u.lcr &&& 0xFC ||| sp8Bits) &&& 0x7F
  ier := u.ier ||| spReceivedInterrupt ||| spTransmitterInterrupt ||| spReceiverLineInterrupt
  fcr := bus.iir (u.accesses + 18) ||| spClearReceiverFifo
  dll := 1
  dlm := 0
  thr := u.thr
  accesses := u.accesses + 20

/-- **`sp_configure_init` succeeds exactly if its twenty accesses do**, and the registers
behind it. -/
theorem spConfigureInit_spec (bus : Bus) :
    Spec (fun u => bus.Accepts u.accesses 20) (configured bus) (spConfigureInit bus) := by
  refine Spec.congr (Spec.check (spSetNumberOfBitsPerChar_spec bus sp8Bits)
    (Spec.check (spSetBitrate_spec bus)
      (Spec.check (spEnable_spec bus spIer spReceivedInterrupt)
        (Spec.check (spEnable_spec bus spIer spTransmitterInterrupt)
          (Spec.check (spEnable_spec bus spIer spReceiverLineInterrupt)
            (Spec.check (spEnable_spec bus spFcr spEnableFifo)
              (Spec.check (spEnable_spec bus spFcr spClearTrasmitterFifo)
                (Spec.check (spEnable_spec bus spFcr spClearReceiverFifo)
                  Command.spec_done
                  (by decide))
                (by decide))
              (by decide))
            (by decide))
          (by decide))
        (by decide))
      (by decide))
    (by decide)) (fun u => ?_) fun u _ => ?_
  · rw [show 20 = 2 + (6 + (2 + (2 + (2 + (2 + (2 + 2)))))) from rfl]
    simp only [Bus.accepts_add]
    simp [Nat.add_assoc]
  · simp only [id_eq]
    -- `sp_set_bitrate` has cleared bit 7 of LCR, so the second port is IER again
    have hclear : ∀ (ier : UInt8) (n : ℕ), Uart.dlab
        { u with
          lcr := (u.lcr &&& 0xFC ||| sp8Bits) &&& 0x7F, ier := ier, dll := 1, dlm := 0
          accesses := n } = false := fun _ _ => dlab_clear _
    rw [spEnable_ier bus (hclear _ _), spEnable_ier bus (hclear _ _),
      spEnable_ier bus (hclear _ _)]
    rfl

end Specs

/-! ## The configuration -/

/-- **What a successful configuration sets up**: the divisor, the interrupts and the port
registers, and every other bit as it was. But the characters have five bits, and the FIFOs are
enabled if IIR shows no pending interrupt at the last read. -/
theorem configured_registers (bus : Bus) (u : Uart) :
    ((configured bus u).lcr &&& 0x03 = 0 ∧
        (configured bus u).fcr &&& 0x01 = bus.iir (u.accesses + 18) &&& 0x01) ∧
      (configured bus u).lcr &&& 0x80 = 0 ∧
      (configured bus u).dlm.toNat * 256 + (configured bus u).dll.toNat = 115200 / 115200 ∧
      (configured bus u).ier &&& 0x07 = 0x07 ∧
      (configured bus u).lcr &&& 0x7C = u.lcr &&& 0x7C ∧
      (configured bus u).ier &&& 0xF8 = u.ier &&& 0xF8 := by
  refine ⟨⟨?_, ?_⟩, ?_, by simp [configured], ?_, ?_, ?_⟩
  · exact Byte.forall_of_fin (P := fun b => (b &&& 0xFC ||| sp8Bits) &&& 0x7F &&& 0x03 = 0)
      (by decide +kernel) u.lcr
  · exact Byte.forall_of_fin (P := fun b => (b ||| spClearReceiverFifo) &&& 0x01 = b &&& 0x01)
      (by decide +kernel) (bus.iir (u.accesses + 18))
  · exact Byte.forall_of_fin (P := fun b => (b &&& 0xFC ||| sp8Bits) &&& 0x7F &&& 0x80 = 0)
      (by decide +kernel) u.lcr
  · exact Byte.forall_of_fin (P := fun b => (b ||| spReceivedInterrupt |||
      spTransmitterInterrupt ||| spReceiverLineInterrupt) &&& 0x07 = 0x07) (by decide +kernel) u.ier
  · exact Byte.forall_of_fin (P := fun b => (b &&& 0xFC ||| sp8Bits) &&& 0x7F &&& 0x7C = b &&& 0x7C)
      (by decide +kernel) u.lcr
  · exact Byte.forall_of_fin (P := fun b => (b ||| spReceivedInterrupt |||
      spTransmitterInterrupt ||| spReceiverLineInterrupt) &&& 0xF8 = b &&& 0xF8)
      (by decide +kernel) u.ier

/-- Characters of five bits are no configuration. -/
theorem not_configured (bus : Bus) (u : Uart) : ¬ Configured u (configured bus u) := by
  intro h
  -- `SP_8BITS` is `BIT(0) & BIT(1)`, which is `0`
  have hbits := h.bits
  rw [(configured_registers bus u).1.1] at hbits
  exact absurd hbits (by decide)

/-- **Success never means a configured UART**: for all registers and all answers of the ports,
`sp_configure_init` returns `0` only behind a configured UART if and only if it cannot return
`0`, because one of its twenty accesses fails. -/
theorem configure_iff (bus : Bus) (u : Uart) :
    ((spConfigureInit bus u).1 = 0 → Configured u (spConfigureInit bus u).2) ↔
      ∃ i < 20, bus.ok (u.accesses + i) = false := by
  have hspec := spConfigureInit_spec bus u
  constructor
  · intro h
    -- if all accesses succeeded, the configuration would return `0`
    by_contra hall
    have hok : bus.Accepts u.accesses 20 := by
      intro i hi
      by_contra hfail
      exact hall ⟨i, hi, by simpa using hfail⟩
    rw [hspec.1 hok] at h
    exact not_configured bus u (h rfl)
  · rintro ⟨i, hi, hfail⟩ hzero
    have hok := ((spConfigureInit_spec bus).zero_iff u).mp hzero
    have := hok i hi
    rw [hfail] at this
    cases this

/-- A UART whose ports always answer: the configuration returns `0`, and LCR selects characters
of five bits. -/
theorem configure_fails :
    ¬ ((spConfigureInit ⟨fun _ => true, fun _ => 0, fun _ => 1⟩ ⟨0, 0, 0, 0, 0, 0, 0⟩).1 = 0 →
      Configured ⟨0, 0, 0, 0, 0, 0, 0⟩
        (spConfigureInit ⟨fun _ => true, fun _ => 0, fun _ => 1⟩ ⟨0, 0, 0, 0, 0, 0, 0⟩).2) := by
  have hok : (⟨fun _ => true, fun _ => 0, fun _ => 1⟩ : Bus).Accepts 0 20 := fun _ _ => rfl
  have hrun := (spConfigureInit_spec ⟨fun _ => true, fun _ => 0, fun _ => 1⟩
    ⟨0, 0, 0, 0, 0, 0, 0⟩).1 hok
  intro h
  rw [hrun] at h
  exact not_configured _ _ (h rfl)

end LCChess
