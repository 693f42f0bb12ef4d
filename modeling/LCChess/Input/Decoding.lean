import LCChess.Input.Assembler
import LCChess.Library.Byte
import Mathlib.Data.List.Forall2

/-!
# Decoding of mouse packets

On a stream without errors `mouse_ih` is a decoder: bytes without bit 3 in front of a packet
are skipped, and every packet of three bytes is delivered once, with the fields that the bits
of its bytes say.

## Main definitions

* `PacketStream`: an error-free stream of bytes and the packets in it
* `nineBit`: the displacement that a sign bit and a byte form
* `Decodes`: the fields of a packet, bit by bit

## Main results

* `decodes_decodePacket`: the masks of `mouse.h` select the bits of the fields
* `packets_decode`: the packets of a stream are delivered once each, in order
-/

namespace LCChess

open Transition (run outputs outputs_append run_cons outputs_cons)

/-- An error-free stream of bytes, and the packets in it: any number of bytes without bit 3 may
stand before a packet. -/
inductive PacketStream : List Reading → List (Reading × Reading × Reading) → Prop
  | nil : PacketStream [] []
  | stray {l : List Reading} {ps : List (Reading × Reading × Reading)} (r : Reading) :
      r.isError = false → r.isFirst = false → PacketStream l ps → PacketStream (r :: l) ps
  | packet {l : List Reading} {ps : List (Reading × Reading × Reading)} (r0 r1 r2 : Reading) :
      GoodPacket r0 r1 r2 → PacketStream l ps →
      PacketStream (r0 :: r1 :: r2 :: l) ((r0, r1, r2) :: ps)

/-- The nine-bit number in two's complement of a sign bit and the eight bits below it. -/
def nineBit (sign : Bool) (low : UInt8) : ℤ := (BitVec.cons sign low.toBitVec).toInt

/-- The fields of `p` are those of the packet with the bytes `b0`, `b1` and `b2`. -/
structure Decodes (b0 b1 b2 : UInt8) (p : Packet) : Prop where
  lb : p.lb = b0.toNat.testBit 0
  mb : p.mb = b0.toNat.testBit 2
  rb : p.rb = b0.toNat.testBit 1
  xOv : p.xOv = b0.toNat.testBit 6
  yOv : p.yOv = b0.toNat.testBit 7
  deltaX : p.deltaX.toInt = nineBit (b0.toNat.testBit 4) b1
  deltaY : p.deltaY.toInt = nineBit (b0.toNat.testBit 5) b2

/-! ## One packet -/

/-- The sign bit counts for `-256`. -/
theorem nineBit_eq (sign : Bool) (low : UInt8) :
    nineBit sign low = if sign then (low.toNat : ℤ) - 256 else low.toNat := by
  have hlow : low.toNat < 2 ^ 8 := low.toNat_lt
  have hnat : (BitVec.cons sign low.toBitVec).toNat = sign.toNat * 256 + low.toNat := by
    rw [BitVec.toNat_cons, UInt8.toNat_toBitVec, ← Nat.shiftLeft_add_eq_or_of_lt hlow,
      Nat.shiftLeft_eq]
  rw [nineBit, BitVec.toInt_eq_toNat_cond, hnat]
  cases sign with
  | false =>
    rw [if_pos (by simp; omega)]
    simp
  | true =>
    rw [if_neg (by simp; omega)]
    push_cast
    simp
    omega

/-- Or-ing `SIGN_EXTENSION` to a byte extends its sign. -/
theorem displacement_toInt (byte : UInt8) (sign : Bool) :
    (displacement byte sign).toInt = nineBit sign byte := by
  have hbyte : byte.toNat < 2 ^ 8 := byte.toNat_lt
  have hnat : (Int16.ofNat byte.toNat).toBitVec.toNat = byte.toNat := by
    simp
  rw [nineBit_eq]
  cases sign with
  | false =>
    show (Int16.ofNat byte.toNat).toBitVec.toInt = byte.toNat
    rw [BitVec.toInt_eq_toNat_cond, hnat, if_pos (by omega)]
  | true =>
    -- the high byte of the mask stands above the eight bits of the byte
    have hor : ((0xFF00 : Int16).toBitVec ||| (Int16.ofNat byte.toNat).toBitVec).toNat =
        2 ^ 8 * 0xFF + byte.toNat := by
      rw [BitVec.toNat_or, hnat, Nat.two_pow_add_eq_or_of_lt hbyte]
      rfl
    show ((Int16.ofNat byte.toNat).toBitVec ||| (0xFF00 : Int16).toBitVec).toInt = byte.toNat - 256
    rw [BitVec.or_comm, BitVec.toInt_eq_toNat_cond, hor, if_neg (by omega)]
    push_cast
    omega

/-- The decoded packet has the fields that its bytes say. -/
theorem decodes_decodePacket (b0 b1 b2 : UInt8) : Decodes b0 b1 b2 (decodePacket b0 b1 b2) where
  lb := Byte.mask_eq_testBit b0 0
  mb := Byte.mask_eq_testBit b0 2
  rb := Byte.mask_eq_testBit b0 1
  xOv := Byte.mask_eq_testBit b0 6
  yOv := Byte.mask_eq_testBit b0 7
  deltaX := (displacement_toInt b1 _).trans (congrArg (nineBit · b1) (Byte.mask_eq_testBit b0 4))
  deltaY := (displacement_toInt b2 _).trans (congrArg (nineBit · b2) (Byte.mask_eq_testBit b0 5))

/-! ## Streams of packets -/

/-- Between packets a stray byte delivers nothing. -/
theorem delivered_stray {s : MouseState} (h : Aligned s (0, false)) {r : Reading}
    (haux : r.isAux = true) (herr : r.isError = false) (hfirst : r.isFirst = false) :
    delivered s r = [] := by
  have hindex : s.i = 0 := h.index
  simp only [delivered, mouseInterrupt, mouseIh_skip haux herr hindex hfirst, h.seen,
    Bool.false_eq_true, if_false, Option.toList_none]

/-- A stray byte leaves the assembler between packets. -/
theorem track_stray {r : Reading} (herr : r.isError = false) (hfirst : r.isFirst = false) :
    track (0, false) r = (0, false) := by
  simp [track, advance, herr, hfirst]

/-- A packet takes the assembler from the start of one packet to the start of the next. -/
theorem track_goodPacket {r0 r1 r2 : Reading}
    (haux : r0.isAux = true ∧ r1.isAux = true ∧ r2.isAux = true) (hp : GoodPacket r0 r1 r2) :
    run track (0, false) [r0, r1, r2] = (0, false) := by
  obtain ⟨h0, h1, h2⟩ := haux
  obtain ⟨⟨e0, e1, e2⟩, hfirst⟩ := hp
  simp [track, advance, h0, h1, h2, e0, e1, e2, hfirst]

/-- Between packets, a stream of mouse bytes is decoded packet by packet. -/
theorem PacketStream.decoded {l : List Reading} {ps : List (Reading × Reading × Reading)}
    (hl : PacketStream l ps) (haux : ∀ r ∈ l, r.isAux = true) {s : MouseState}
    (hs : Aligned s (0, false)) :
    outputs delivered mouseStep s l =
      ps.map fun p => decodePacket p.1.byte p.2.1.byte p.2.2.byte := by
  induction hl generalizing s with
  | nil => rfl
  | stray r herr hfirst hl ih =>
    obtain ⟨hr, haux⟩ := List.forall_mem_cons.mp haux
    have hstep := aligned_step hs r
    rw [track_stray herr hfirst] at hstep
    rw [outputs_cons, delivered_stray hs hr herr hfirst, ih haux hstep, List.nil_append]
  | packet r0 r1 r2 hp hl ih =>
    obtain ⟨h0, haux⟩ := List.forall_mem_cons.mp haux
    obtain ⟨h1, haux⟩ := List.forall_mem_cons.mp haux
    obtain ⟨h2, haux⟩ := List.forall_mem_cons.mp haux
    have hrun := aligned_run hs [r0, r1, r2]
    rw [track_goodPacket ⟨h0, h1, h2⟩ hp] at hrun
    rw [show ∀ l, r0 :: r1 :: r2 :: l = [r0, r1, r2] ++ l from fun _ => rfl, outputs_append,
      delivered_goodPacket hs ⟨h0, h1, h2⟩ hp, ih haux hrun]
    rfl

/-- **Mouse packets decode exactly**: on an error-free stream of mouse bytes, with any readings
that carry none in between, every packet is delivered once, in order, with the fields that its
bytes say. -/
theorem packets_decode {l : List Reading} {ps : List (Reading × Reading × Reading)}
    (hl : PacketStream (l.filter Reading.isAux) ps) :
    List.Forall₂ (fun q p => Decodes q.1.byte q.2.1.byte q.2.2.byte p) ps
      (outputs delivered mouseStep MouseState.initial l) := by
  have haux : ∀ r ∈ l.filter Reading.isAux, r.isAux = true := fun r hr =>
    (List.mem_filter.mp hr).2
  rw [(run_filter aligned_initial l).2, hl.decoded haux aligned_initial,
    List.forall₂_map_right_iff, List.forall₂_same]
  intro q _
  exact decodes_decodePacket q.1.byte q.2.1.byte q.2.2.byte

/-- A stray byte, a keyboard byte, and a packet whose displacements are both negative. -/
theorem packets_decode_negative :
    PacketStream
        (List.filter Reading.isAux [⟨0x21, 0x00⟩, ⟨0x01, 0x1C⟩, ⟨0x21, 0x39⟩, ⟨0x21, 0x00⟩,
          ⟨0x00, 0x00⟩, ⟨0x21, 0xFF⟩])
        [(⟨0x21, 0x39⟩, ⟨0x21, 0x00⟩, ⟨0x21, 0xFF⟩)] ∧
      List.Forall₂ (fun q p => Decodes q.1.byte q.2.1.byte q.2.2.byte p)
        [((⟨0x21, 0x39⟩ : Reading), (⟨0x21, 0x00⟩ : Reading), (⟨0x21, 0xFF⟩ : Reading))]
        (outputs delivered mouseStep MouseState.initial [⟨0x21, 0x00⟩, ⟨0x01, 0x1C⟩, ⟨0x21, 0x39⟩,
          ⟨0x21, 0x00⟩, ⟨0x00, 0x00⟩, ⟨0x21, 0xFF⟩]) := by
  have hl : PacketStream
      (List.filter Reading.isAux [⟨0x21, 0x00⟩, ⟨0x01, 0x1C⟩, ⟨0x21, 0x39⟩, ⟨0x21, 0x00⟩,
        ⟨0x00, 0x00⟩, ⟨0x21, 0xFF⟩])
      [(⟨0x21, 0x39⟩, ⟨0x21, 0x00⟩, ⟨0x21, 0xFF⟩)] :=
    .stray _ (by decide) (by decide) (.packet _ _ _ ⟨by decide, by decide⟩ .nil)
  exact ⟨hl, packets_decode hl⟩

end LCChess
