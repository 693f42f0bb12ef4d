import LCChess.Library.Run
import Mathlib.Algebra.Order.Ring.Int
import Mathlib.Logic.Function.Basic

/-!
# The mouse packet assembler

`mouse_ih` reads one byte of the controller per interrupt and assembles packets of three bytes
in the global `pp`. The main loop turns every assembled packet into a `MOUSE` event.

## Main definitions

* `Packet`: the decoded packet
* `MouseState`, `mouseIh`: the globals of `mouse.c`, and one call
* `mouseInterrupt`: the mouse branch of the main loop
-/

namespace LCChess

/-- The decoded fields of `struct packet`. -/
structure Packet where
  lb : Bool
  mb : Bool
  rb : Bool
  xOv : Bool
  yOv : Bool
  deltaX : Int16
  deltaY : Int16
deriving DecidableEq

/-- The globals of `mouse.c`; `bytes` is what `pp.bytes[i]` addresses for every `i`. -/
structure MouseState where
  bytes : ℤ → UInt8
  pp : Packet
  updateMouse : Bool
  i : ℤ
  validPacket : Bool

/-- The globals at program start. -/
def MouseState.initial : MouseState where
  bytes := fun _ => 0
  pp := ⟨false, false, false, false, false, 0, 0⟩
  updateMouse := false
  i := 0
  validPacket := true

/-- One mouse interrupt: the status register, and the byte in the output buffer. -/
structure Reading where
  status : UInt8
  byte : UInt8
deriving DecidableEq

/-- The test `(status & AUX) && (status & OBF_FULL)`. -/
def Reading.isAux (r : Reading) : Bool := r.status &&& 0x20 != 0 && r.status &&& 0x01 != 0

/-- The test `status & (TIMEOUT_ERR | PAR_ERR)`. -/
def Reading.isError (r : Reading) : Bool := r.status &&& 0xC0 != 0

/-- The test `byte & FIRST_BYTE`. -/
def Reading.isFirst (r : Reading) : Bool := r.byte &&& 0x08 != 0

/-- A 9-bit displacement: the byte, or-ed with `SIGN_EXTENSION` when the sign bit is set. -/
def displacement (byte : UInt8) (negative : Bool) : Int16 :=
  let delta := Int16.ofNat byte.toNat
  if negative then delta ||| 0xFF00 else delta

/-- The fields decoded from the three bytes of a packet. -/
def decodePacket (b0 b1 b2 : UInt8) : Packet where
  lb := b0 &&& 0x01 != 0
  mb := b0 &&& 0x04 != 0
  rb := b0 &&& 0x02 != 0
  xOv := b0 &&& 0x40 != 0
  yOv := b0 &&& 0x80 != 0
  deltaX := displacement b1 (b0 &&& 0x10 != 0)
  deltaY := displacement b2 (b0 &&& 0x20 != 0)

/-- `mouse_ih`: the index at which `pp.bytes` was written, if it was, and the globals. -/
def mouseIh (r : Reading) (s : MouseState) : Option ℤ × MouseState :=
  if r.isAux then
    if !r.isError then
      let (written, s) : Option ℤ × MouseState :=
        if s.i = 0 ∧ r.isFirst = false then (none, { s with i := s.i - 1 })
        else (some s.i, { s with bytes := Function.update s.bytes s.i r.byte })
      let s :=
        if s.i = 2 then
          if !s.validPacket then { s with validPacket := true }
          else
            { s with
              pp := decodePacket (s.bytes 0) (s.bytes 1) (s.bytes 2)
              i := -1
              updateMouse := true }
        else s
      (written, { s with i := s.i + 1 })
    else (none, { s with validPacket := false, i := s.i + 1 })
  else (none, s)

/-- The mouse branch of `proj_main_loop`: the packet of the pushed `MOUSE` event, if one is
pushed, and the globals. -/
def mouseInterrupt (r : Reading) (s : MouseState) : Option Packet × MouseState :=
  let s := (mouseIh r s).2
  if s.updateMouse then (some s.pp, { s with updateMouse := false }) else (none, s)

/-- The globals after a mouse interrupt. -/
def mouseStep (s : MouseState) (r : Reading) : MouseState := (mouseInterrupt r s).2

/-- The index written by a mouse interrupt. -/
def writtenIndex (s : MouseState) (r : Reading) : List ℤ := (mouseIh r s).1.toList

/-- The packet a mouse interrupt delivers. -/
def delivered (s : MouseState) (r : Reading) : List Packet := (mouseInterrupt r s).1.toList

end LCChess
