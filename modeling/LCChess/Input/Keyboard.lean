import LCChess.Library.Run
import Mathlib.Data.List.Infix
import Mathlib.Logic.Function.Basic

/-!
# The scancode assembler

The main loop stores every scancode of `keyboard_int_handler` in the two bytes of
`scancode_bytes`, at an index that goes back to zero at every byte but the prefix `0xE0`. So the
`KEYBOARD` events are the bytes other than the prefix, in order; but nothing bounds the index
when the prefix repeats.

## Main definitions

* `keyboardIntHandler`: one call of the handler
* `ScancodeState`, `keyboardInterrupt`: the keyboard branch of the main loop
* `scancodes`: the bytes that a sequence of interrupts delivers
* `Assembles`: the index stays in range, and the events are the bytes but for the prefixes

## Main results

* `keyEvents_eq`, `counter_of_event`: the events, and the state behind each of them
* `assembles_iff`: the assembler works unless a byte follows two prefixes in a row
* `assembles_fails`: three interrupts on which it does not
-/

namespace LCChess

open Transition (run outputs outputs_cons)

/-- `TWO_BYTES`. -/
def twoBytes : UInt8 := 0xE0

/-- What `keyboard_int_handler` reads: the status register and the output buffer. -/
structure KeyReading where
  status : Option UInt8
  outBuf : Option UInt8

/-- `keyboard_int_handler`: the scancode, if `readKey` is set. -/
def keyboardIntHandler (r : KeyReading) : Option UInt8 :=
  match r.status with
  | none => none
  | some status =>
    if status &&& 0x01 ≠ 0 ∧ status &&& 0xE0 = 0 then r.outBuf else none

/-- The locals of the main loop; `scancodeBytes` is what `scancode_bytes[i]` addresses for every
`i`. -/
structure ScancodeState where
  scancodeBytes : ℕ → UInt8
  counter : UInt8

/-- The locals at the start of the main loop, where `memory` is what the stack holds. -/
def ScancodeState.initial (memory : ℕ → UInt8) : ScancodeState where
  scancodeBytes := memory
  counter := 0

/-- The keyboard branch of `proj_main_loop`: the index at which `scancode_bytes` was written, if
it was, the scancode of the pushed `KEYBOARD` event, if one is pushed, and the locals. -/
def keyboardInterrupt (r : KeyReading) (s : ScancodeState) :
    Option ℕ × Option UInt8 × ScancodeState :=
  match keyboardIntHandler r with
  | none => (none, none, s)
  | some scancode =>
    let index := s.counter.toNat
    let s : ScancodeState :=
      ⟨Function.update s.scancodeBytes index scancode, s.counter + 1⟩
    if scancode ≠ twoBytes then (some index, some scancode, { s with counter := 0 })
    else (some index, none, s)

/-- The state after a keyboard interrupt. -/
def keyboardStep (s : ScancodeState) (r : KeyReading) : ScancodeState :=
  (keyboardInterrupt r s).2.2

/-- The index written by a keyboard interrupt. -/
def writtenScancode (s : ScancodeState) (r : KeyReading) : List ℕ :=
  (keyboardInterrupt r s).1.toList

/-- The scancode of the event that a keyboard interrupt pushes. -/
def keyEvent (s : ScancodeState) (r : KeyReading) : List UInt8 :=
  (keyboardInterrupt r s).2.1.toList

/-- The scancode bytes a sequence of interrupts delivers. -/
def scancodes (l : List KeyReading) : List UInt8 := l.filterMap keyboardIntHandler

/-- From the state `s` on, the index stays within `scancode_bytes`, one event is pushed for each
byte but the prefixes, in order and with its value, and behind every event the state is back to
its initial value. -/
structure Assembles (s : ScancodeState) (l : List KeyReading) : Prop where
  index : ∀ i ∈ outputs writtenScancode keyboardStep s l, i = 0 ∨ i = 1
  events : outputs keyEvent keyboardStep s l = (scancodes l).filter (· ≠ twoBytes)
  reset : ∀ l₁ r, l₁ ++ [r] <+: l → keyEvent (run keyboardStep s l₁) r ≠ [] →
    (run keyboardStep s (l₁ ++ [r])).counter = 0

/-! ## One interrupt -/

/-- An interrupt that delivers nothing leaves the assembly alone. -/
theorem keyboardInterrupt_none {r : KeyReading} (h : keyboardIntHandler r = none)
    (s : ScancodeState) : keyboardInterrupt r s = (none, none, s) := by
  simp only [keyboardInterrupt, h]

/-- An interrupt that delivers a byte stores it, and pushes it unless it is the prefix. -/
theorem keyboardInterrupt_some {r : KeyReading} {b : UInt8} (h : keyboardIntHandler r = some b)
    (s : ScancodeState) :
    keyboardInterrupt r s =
      (some s.counter.toNat, if b = twoBytes then none else some b,
        ⟨Function.update s.scancodeBytes s.counter.toNat b,
          if b = twoBytes then s.counter + 1 else 0⟩) := by
  by_cases hb : b = twoBytes
  · simp only [keyboardInterrupt, h, ne_eq, hb, not_true_eq_false, if_false, if_true]
  · simp only [keyboardInterrupt, h, ne_eq, hb, not_false_eq_true, if_true, if_false]

/-! ## The events -/

/-- The events are the delivered bytes but for the prefixes. -/
theorem keyEvents_eq (s : ScancodeState) (l : List KeyReading) :
    outputs keyEvent keyboardStep s l = (scancodes l).filter (· ≠ twoBytes) := by
  induction l generalizing s with
  | nil => rfl
  | cons r l ih =>
    rw [outputs_cons, ih]
    cases hr : keyboardIntHandler r with
    | none => simp [keyEvent, keyboardInterrupt_none hr, scancodes, hr]
    | some b =>
      by_cases hb : b = twoBytes
      · simp [keyEvent, keyboardInterrupt_some hr, scancodes, hr, hb]
      · simp [keyEvent, keyboardInterrupt_some hr, scancodes, hr, hb]

/-- Behind an event the index is zero. -/
theorem counter_of_event {s : ScancodeState} {r : KeyReading} (h : keyEvent s r ≠ []) :
    (keyboardStep s r).counter = 0 := by
  cases hr : keyboardIntHandler r with
  | none => exact absurd (by simp [keyEvent, keyboardInterrupt_none hr]) h
  | some b =>
    by_cases hb : b = twoBytes
    · exact absurd (by simp [keyEvent, keyboardInterrupt_some hr, hb]) h
    · simp [keyboardStep, keyboardInterrupt_some hr, hb]

/-! ## The index -/

/-- No byte follows two prefixes in a row. -/
def SinglePrefixes (bytes : List UInt8) : Prop := ∀ b, ¬ [twoBytes, twoBytes, b] <:+: bytes

/-- Behind a byte that is not the prefix, prefixes are counted anew. -/
theorem singlePrefixes_cons {b : UInt8} (hb : b ≠ twoBytes) (bytes : List UInt8) :
    SinglePrefixes (b :: bytes) ↔ SinglePrefixes bytes := by
  refine forall_congr' fun c => not_congr ?_
  rw [List.infix_cons_iff]
  refine or_iff_right fun h => ?_
  exact hb (List.cons_prefix_cons.mp h).1.symm

theorem singlePrefixes_cons_cons {b : UInt8} (hb : b ≠ twoBytes) (bytes : List UInt8) :
    SinglePrefixes (twoBytes :: b :: bytes) ↔ SinglePrefixes bytes := by
  rw [← singlePrefixes_cons hb bytes]
  refine forall_congr' fun c => not_congr ?_
  rw [List.infix_cons_iff]
  refine or_iff_right fun h => ?_
  exact hb (List.cons_prefix_cons.mp (List.cons_prefix_cons.mp h).2).1.symm

/-- With at most two prefixes counted so far, the index stays in range exactly if no byte follows
two of them in a row. -/
theorem written_iff_singlePrefixes {s : ScancodeState} {n : ℕ} (hn : n ≤ 2)
    (hcounter : s.counter.toNat = n) (l : List KeyReading) :
    (∀ i ∈ outputs writtenScancode keyboardStep s l, i = 0 ∨ i = 1) ↔
      SinglePrefixes (List.replicate n twoBytes ++ scancodes l) := by
  induction l generalizing s n with
  | nil =>
    apply iff_of_true (by simp)
    intro b h
    have hlen := h.length_le
    simp [scancodes] at hlen
    omega
  | cons r l ih =>
    rw [outputs_cons]
    cases hr : keyboardIntHandler r with
    | none =>
      have hstep : (keyboardStep s r).counter.toNat = n := by
        rw [keyboardStep, keyboardInterrupt_none hr]
        exact hcounter
      rw [writtenScancode, keyboardInterrupt_none hr, Option.toList_none, List.nil_append,
        ih hn hstep]
      simp [scancodes, hr]
    | some b =>
      have hcodes : scancodes (r :: l) = b :: scancodes l := by simp [scancodes, hr]
      rw [writtenScancode, keyboardInterrupt_some hr, Option.toList_some, hcodes, hcounter]
      simp only [List.cons_append, List.nil_append, List.forall_mem_cons]
      have hcases : n = 2 ∨ n ≤ 1 := by omega
      rcases hcases with rfl | hn
      · -- the byte behind two prefixes
        refine iff_of_false (fun h => by omega) fun h => h b ?_
        exact (List.prefix_append [twoBytes, twoBytes, b] (scancodes l)).isInfix
      · have hfirst : n = 0 ∨ n = 1 := by omega
        by_cases hb : b = twoBytes
        · -- one more prefix
          have hstep : (keyboardStep s r).counter.toNat = n + 1 := by
            rw [keyboardStep, keyboardInterrupt_some hr]
            simp only [hb, if_true, UInt8.toNat_add, UInt8.toNat_one, hcounter]
            omega
          rw [ih (n := n + 1) (by omega) hstep, hb, and_iff_right hfirst,
            List.replicate_succ', List.append_assoc, List.singleton_append]
        · have hstep : (keyboardStep s r).counter.toNat = 0 := by
            rw [keyboardStep, keyboardInterrupt_some hr]
            simp [hb]
          rw [ih (n := 0) (by omega) hstep, and_iff_right hfirst]
          rcases hfirst with rfl | rfl
          · exact (singlePrefixes_cons hb (scancodes l)).symm
          · exact (singlePrefixes_cons_cons hb (scancodes l)).symm

/-- **The scancode assembler works on exactly the streams without repeated prefixes**: for every
sequence of keyboard interrupts, the index into `scancode_bytes` is `0` or `1` at every write,
one event is pushed for each byte but `0xE0`, in order, and the assembly state is back to its
initial value behind each, if and only if no byte is delivered behind two `0xE0` in a row. -/
theorem assembles_iff (memory : ℕ → UInt8) (l : List KeyReading) :
    Assembles (.initial memory) l ↔ SinglePrefixes (scancodes l) := by
  have hindex := written_iff_singlePrefixes (s := .initial memory) (n := 0) (by omega) rfl l
  rw [List.replicate_zero, List.nil_append] at hindex
  constructor
  · intro h
    exact hindex.mp h.index
  · intro h
    refine ⟨hindex.mpr h, keyEvents_eq _ l, fun l₁ r _ hevent => ?_⟩
    rw [Transition.run_snoc]
    exact counter_of_event hevent

/-- The prefix twice, and a byte: it is written behind the end of `scancode_bytes`. -/
theorem assembles_fails :
    ¬ Assembles (.initial fun _ => 0)
      [⟨some 0x01, some 0xE0⟩, ⟨some 0x01, some 0xE0⟩, ⟨some 0x01, some 0x1C⟩] := by
  intro h
  have hwritten : 2 ∈ outputs writtenScancode keyboardStep (.initial fun _ => 0)
      [⟨some 0x01, some 0xE0⟩, ⟨some 0x01, some 0xE0⟩, ⟨some 0x01, some 0x1C⟩] := by decide
  have := h.index 2 hwritten
  omega

end LCChess
