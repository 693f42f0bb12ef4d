import LCChess.Input.Keyboard
import LCChess.Input.Mouse
import LCChess.Library.Byte
import Mathlib.Data.Nat.Find

/-!
# Keyboard and mouse on one controller

The controller holds one byte in its output buffer and takes the next only after port `0x60` is
read. Two handlers share the port: `mouse_ih` reads a byte tagged `AUX` whatever its error bits,
but `keyboard_int_handler` reads a keyboard byte only when it carries no error. So one errored
keyboard byte stays in the buffer, and neither device is heard again.

## Main definitions

* `KbcByte`, `KbcState`: a byte of the controller, and its output buffer
* `KbcAction`, `KbcState.step`: a byte arrives, or the main loop calls a handler
* `Schedule`, `Served`: an endless run, in which every byte is announced
* `Demultiplexes`: every byte is read once, by its handler

## Main results

* `reads_conserved`: no byte is read twice, or by the wrong handler
* `all_read`: without errored keyboard bytes every byte is read
* `demultiplexes_iff`: every byte is read in a served schedule iff no keyboard byte carries an
  error
* `demultiplexes_fails`: one errored keyboard byte
-/

namespace LCChess

open Transition (run outputs outputs_append run_append run_snoc run_cons outputs_cons)

/-- A byte of the controller: `aux` for the mouse, with its error bits. -/
structure KbcByte where
  value : UInt8
  aux : Bool
  parity : Bool
  timeout : Bool
deriving DecidableEq

/-- The handlers that read port `0x60`. -/
inductive Handler
  | mouseIh | keyboardIntHandler
deriving DecidableEq

namespace KbcByte

/-- The byte carries an error. -/
def error (b : KbcByte) : Bool := b.parity || b.timeout

/-- The handler a byte is for. -/
def handler (b : KbcByte) : Handler := if b.aux then .mouseIh else .keyboardIntHandler

end KbcByte

/-- The status register while the output buffer holds `buffer`; `other` are its other bits. -/
def statusRegister (buffer : Option KbcByte) (other : UInt8) : UInt8 :=
  other &&& 0x1E |||
    match buffer with
    | none => 0
    | some b =>
      0x01 ||| (if b.aux then 0x20 else 0) ||| (if b.timeout then 0x40 else 0) |||
        (if b.parity then 0x80 else 0)

/-- The controller and the program: the output buffer, the bytes that have not arrived in it yet,
and the globals of `mouse.c`. -/
structure KbcState where
  buffer : Option KbcByte
  incoming : List KbcByte
  mouse : MouseState

/-- The actions: the next byte arrives, if the buffer is empty, or the main loop takes the branch
of one of the two interrupts. `other` are the other bits of the status register. -/
inductive KbcAction
  | arrive
  | call (handler : Handler) (other : UInt8)

namespace KbcState

/-- The controller before the bytes `bytes`. -/
def before (bytes : List KbcByte) : KbcState where
  buffer := none
  incoming := bytes
  mouse := MouseState.initial

/-- What the handlers find in the ports `0x64` and `0x60`. -/
def reading (s : KbcState) (other : UInt8) : Reading where
  status := statusRegister s.buffer other
  byte := (s.buffer.map KbcByte.value).getD 0

/-- The handler reads port `0x60`: the test in front of its second `util_sys_inb`. -/
def readsPort (handler : Handler) (status : UInt8) : Bool :=
  match handler with
  | .mouseIh => status &&& 0x20 != 0 && status &&& 0x01 != 0
  | .keyboardIntHandler => status &&& 0x01 != 0 && status &&& 0xE0 == 0

/-- The state after an action; reading port `0x60` empties the buffer. -/
def step (s : KbcState) : KbcAction → KbcState
  | .arrive =>
    match s.buffer, s.incoming with
    | none, b :: rest => { s with buffer := some b, incoming := rest }
    | _, _ => s
  | .call handler other =>
    let r := s.reading other
    { s with
      buffer := if readsPort handler r.status then none else s.buffer
      mouse := if handler = .mouseIh then mouseStep s.mouse r else s.mouse }

/-- The bytes an action reads, with the handler that does. -/
def read (s : KbcState) : KbcAction → List (Handler × KbcByte)
  | .arrive => []
  | .call handler other =>
    if readsPort handler (s.reading other).status then
      (s.buffer.map fun b => (handler, b)).toList
    else []

/-- The scancode an action delivers. -/
def scancode (s : KbcState) : KbcAction → List UInt8
  | .call .keyboardIntHandler other =>
    (keyboardIntHandler ⟨some (s.reading other).status, some (s.reading other).byte⟩).toList
  | _ => []

end KbcState

/-- An endless run. -/
abbrev Schedule := ℕ → KbcAction

namespace Schedule

variable (schedule : Schedule) (bytes : List KbcByte)

/-- The first `t` actions. -/
def upTo (t : ℕ) : List KbcAction := (List.range t).map schedule

/-- The state after `t` actions. -/
def state (t : ℕ) : KbcState := run KbcState.step (.before bytes) (schedule.upTo t)

/-- The bytes read in the first `t` actions. -/
def reads (t : ℕ) : List (Handler × KbcByte) :=
  outputs KbcState.read KbcState.step (.before bytes) (schedule.upTo t)

/-- The scancodes delivered in the first `t` actions. -/
def scancodes (t : ℕ) : List UInt8 :=
  outputs KbcState.scancode KbcState.step (.before bytes) (schedule.upTo t)

/-- A waiting byte arrives when the buffer is empty, and the interrupt of every byte that arrives
reaches its handler. -/
structure Served : Prop where
  arrives : ∀ t, (schedule.state bytes t).buffer = none →
    (schedule.state bytes t).incoming ≠ [] → ∃ u, t ≤ u ∧ schedule u = .arrive
  notified : ∀ t b, (schedule.state bytes t).buffer = none →
    (schedule.state bytes (t + 1)).buffer = some b →
    ∃ u, t < u ∧ ∃ other, schedule u = .call b.handler other

/-- Every byte is read from port `0x60` exactly once, in order, by its handler, and the scancodes
are the keyboard bytes without an error. -/
structure Demultiplexes : Prop where
  prefixes : ∀ t, schedule.reads bytes t <+: bytes.map fun b => (b.handler, b)
  all : ∃ t, schedule.reads bytes t = bytes.map fun b => (b.handler, b)
  scancodes : ∀ t, schedule.scancodes bytes t =
    ((schedule.reads bytes t).filter fun r => !r.2.aux && !r.2.error).map fun r => r.2.value

end Schedule

/-! ## The ports -/

section Ports

variable {s : KbcState}

/-- A handler reads port `0x60` if the byte there is its own, and for the keyboard if it carries
no error. -/
theorem readsPort_some (handler : Handler) (b : KbcByte) (other : UInt8) :
    KbcState.readsPort handler (statusRegister (some b) other) =
      (decide (handler = b.handler) && (b.aux || !b.error)) := by
  obtain ⟨value, aux, parity, timeout⟩ := b
  -- the value of the byte does not matter
  suffices h : ∀ other, KbcState.readsPort handler
      (statusRegister (some ⟨0, aux, parity, timeout⟩) other) =
        (decide (handler = KbcByte.handler ⟨0, aux, parity, timeout⟩) &&
          (aux || !(parity || timeout))) from h other
  -- the status bits are checked on all 256 values
  apply Byte.forall_of_fin
  cases handler <;> cases aux <;> cases parity <;> cases timeout <;> decide +kernel

/-- An empty buffer is not read. -/
theorem readsPort_none (handler : Handler) (other : UInt8) :
    KbcState.readsPort handler (statusRegister none other) = false := by
  revert other
  apply Byte.forall_of_fin
  cases handler <;> decide +kernel

/-- `keyboard_int_handler` delivers the byte it reads. -/
theorem keyboardIntHandler_eq (status byte : UInt8) :
    keyboardIntHandler ⟨some status, some byte⟩ =
      if KbcState.readsPort .keyboardIntHandler status then some byte else none := by
  have hiff : (status &&& 0x01 ≠ 0 ∧ status &&& 0xE0 = 0) ↔
      KbcState.readsPort .keyboardIntHandler status = true := by
    simp [KbcState.readsPort]
  simp only [keyboardIntHandler, hiff]

/-- The bytes a state has not read yet. -/
def KbcState.remaining (s : KbcState) : List KbcByte := s.buffer.toList ++ s.incoming

/-- What an action does: nothing to the bytes, an arrival, or the reading of the buffer by its
handler. -/
theorem KbcState.step_cases (s : KbcState) (a : KbcAction) :
    (s.read a = [] ∧ (s.step a).buffer = s.buffer ∧ (s.step a).incoming = s.incoming) ∨
      (a = .arrive ∧ s.read a = [] ∧ ∃ b rest, s.buffer = none ∧ s.incoming = b :: rest ∧
        (s.step a).buffer = some b ∧ (s.step a).incoming = rest) ∨
      ∃ b other, a = .call b.handler other ∧ s.buffer = some b ∧ (b.aux = true ∨ b.error = false) ∧
        s.read a = [(b.handler, b)] ∧ (s.step a).buffer = none ∧
        (s.step a).incoming = s.incoming := by
  obtain ⟨buffer, incoming, mouse⟩ := s
  cases a with
  | arrive =>
    cases buffer with
    | some b => exact .inl ⟨rfl, rfl, rfl⟩
    | none =>
      cases incoming with
      | nil => exact .inl ⟨rfl, rfl, rfl⟩
      | cons b rest => exact .inr (.inl ⟨rfl, rfl, b, rest, rfl, rfl, rfl, rfl⟩)
  | call handler other =>
    cases buffer with
    | none =>
      left
      have hport := readsPort_none handler other
      simp [KbcState.read, KbcState.step, KbcState.reading, hport]
    | some b =>
      have hport := readsPort_some handler b other
      -- its own handler takes a byte from the buffer, a scancode only without an error
      by_cases hreads : handler = b.handler ∧ (b.aux = true ∨ b.error = false)
      · obtain ⟨rfl, hok⟩ := hreads
        right; right
        refine ⟨b, other, rfl, rfl, hok, ?_⟩
        have htrue : KbcState.readsPort b.handler (statusRegister (some b) other) = true := by
          rw [hport]
          simpa using hok
        simp [KbcState.read, KbcState.step, KbcState.reading, htrue]
      · left
        have hfalse : KbcState.readsPort handler (statusRegister (some b) other) = false := by
          rw [hport]
          simp only [Bool.and_eq_false_iff, decide_eq_false_iff_not, Bool.or_eq_false_iff,
            Bool.not_eq_false']
          rw [not_and_or, not_or] at hreads
          simpa using hreads
        simp [KbcState.read, KbcState.step, KbcState.reading, hfalse]

/-- An action moves bytes from the remaining ones to those that are read, in order. -/
theorem KbcState.read_remaining (s : KbcState) (a : KbcAction) :
    s.read a ++ (s.step a).remaining.map (fun b => (b.handler, b)) =
      s.remaining.map fun b => (b.handler, b) := by
  unfold KbcState.remaining
  obtain ⟨hread, hbuffer, hincoming⟩ | ⟨-, hread, b, rest, hnone, hcons, hbuffer, hincoming⟩ |
    ⟨b, other, -, hsome, -, hread, hbuffer, hincoming⟩ := s.step_cases a
  · rw [hread, hbuffer, hincoming, List.nil_append]
  · rw [hread, hbuffer, hincoming, hnone, hcons]
    rfl
  · rw [hread, hbuffer, hincoming, hsome]
    rfl

/-- The keyboard handler reads no errored byte. -/
theorem KbcState.error_of_read {s : KbcState} {a : KbcAction} {r : Handler × KbcByte}
    (h : r ∈ s.read a) : r.2.aux = true ∨ r.2.error = false := by
  obtain ⟨hread, -⟩ | ⟨-, hread, -⟩ | ⟨b, other, -, -, hok, hread, -⟩ := s.step_cases a
  · simp [hread] at h
  · simp [hread] at h
  · rw [hread, List.mem_singleton] at h
    rw [h]
    exact hok

/-- The scancodes are the keyboard bytes that are read. -/
theorem KbcState.scancode_eq (s : KbcState) (a : KbcAction) :
    s.scancode a =
      ((s.read a).filter fun r => !r.2.aux && !r.2.error).map fun r => r.2.value := by
  obtain ⟨buffer, incoming, mouse⟩ := s
  cases a with
  | arrive => rfl
  | call handler other =>
    cases buffer with
    | none =>
      have hport := readsPort_none handler other
      cases handler with
      | mouseIh => simp [KbcState.read, KbcState.scancode, KbcState.reading, hport]
      | keyboardIntHandler =>
        simp [KbcState.read, KbcState.scancode, KbcState.reading, keyboardIntHandler_eq, hport]
    | some b =>
      have hport := readsPort_some handler b other
      cases handler with
      | mouseIh =>
        cases haux : b.aux with
        -- what the mouse handler reads is no scancode
        | true => simp [KbcState.read, KbcState.scancode, haux, List.filter_eq_nil_iff]
        | false =>
          have hfalse : KbcState.readsPort .mouseIh (statusRegister (some b) other) = false := by
            rw [hport]
            simp [KbcByte.handler, haux]
          simp [KbcState.read, KbcState.scancode, KbcState.reading, hfalse]
      | keyboardIntHandler =>
        cases haux : b.aux with
        | true =>
          have hfalse : KbcState.readsPort .keyboardIntHandler
              (statusRegister (some b) other) = false := by
            rw [hport]
            simp [KbcByte.handler, haux]
          simp [KbcState.read, KbcState.scancode, KbcState.reading, keyboardIntHandler_eq, hfalse]
        | false =>
          have hvalue : KbcState.readsPort .keyboardIntHandler (statusRegister (some b) other) =
              !b.error := by
            rw [hport]
            simp [KbcByte.handler, haux]
          -- an errored scancode stays in the buffer, any other one is delivered
          cases herror : b.error <;>
            simp [KbcState.read, KbcState.scancode, KbcState.reading, keyboardIntHandler_eq,
              hvalue, herror, haux]

end Ports

/-! ## The runs -/

section Runs

variable {schedule : Schedule} {bytes : List KbcByte}

namespace Schedule

theorem upTo_succ (t : ℕ) : schedule.upTo (t + 1) = schedule.upTo t ++ [schedule t] := by
  simp [upTo, List.range_succ]

theorem state_succ (t : ℕ) :
    schedule.state bytes (t + 1) = (schedule.state bytes t).step (schedule t) := by
  rw [state, upTo_succ, run_snoc]
  rfl

theorem reads_succ (t : ℕ) : schedule.reads bytes (t + 1) =
    schedule.reads bytes t ++ (schedule.state bytes t).read (schedule t) := by
  rw [reads, upTo_succ, outputs_append]
  simp [reads, state]

theorem scancodes_succ (t : ℕ) : schedule.scancodes bytes (t + 1) =
    schedule.scancodes bytes t ++ (schedule.state bytes t).scancode (schedule t) := by
  rw [scancodes, upTo_succ, outputs_append]
  simp [scancodes, state]

end Schedule

/-- **No byte is lost, read twice or read by the wrong handler**: the bytes read so far and those
that remain are the bytes of the controller. -/
theorem reads_conserved (schedule : Schedule) (bytes : List KbcByte) (t : ℕ) :
    schedule.reads bytes t ++
        (schedule.state bytes t).remaining.map (fun b => (b.handler, b)) =
      bytes.map fun b => (b.handler, b) := by
  induction t with
  | zero => rfl
  | succ t ih =>
    rw [schedule.reads_succ, schedule.state_succ, List.append_assoc, KbcState.read_remaining, ih]

/-- The bytes that remain are bytes of the controller. -/
theorem mem_of_remaining {t : ℕ} {b : KbcByte}
    (h : b ∈ (schedule.state bytes t).remaining) : b ∈ bytes := by
  have hmem : (b.handler, b) ∈ bytes.map fun b => (b.handler, b) := by
    rw [← reads_conserved schedule bytes t]
    exact List.mem_append_right _ (List.mem_map_of_mem h)
  obtain ⟨c, hc, heq⟩ := List.mem_map.mp hmem
  rwa [← (Prod.mk.inj heq).2]

/-- The scancodes are the keyboard bytes that were read. -/
theorem scancodes_eq (schedule : Schedule) (bytes : List KbcByte) (t : ℕ) :
    schedule.scancodes bytes t =
      ((schedule.reads bytes t).filter fun r => !r.2.aux && !r.2.error).map
        fun r => r.2.value := by
  induction t with
  | zero => rfl
  | succ t ih =>
    rw [schedule.scancodes_succ, schedule.reads_succ, ih, KbcState.scancode_eq,
      List.filter_append, List.map_append]

/-- No errored keyboard byte is ever read. -/
theorem error_of_reads {t : ℕ} {r : Handler × KbcByte} (h : r ∈ schedule.reads bytes t) :
    r.2.aux = true ∨ r.2.error = false := by
  induction t with
  | zero => cases h
  | succ t ih =>
    rw [schedule.reads_succ] at h
    rcases List.mem_append.mp h with h | h
    · exact ih h
    · exact KbcState.error_of_read h

/-! ## Progress -/

/-- While nothing arrives, an empty buffer stays empty. -/
theorem empty_until {t u : ℕ} (hle : t ≤ u) (hempty : (schedule.state bytes t).buffer = none)
    (hquiet : ∀ w, t ≤ w → w < u → schedule w ≠ .arrive) :
    (schedule.state bytes u).buffer = none ∧
      (schedule.state bytes u).incoming = (schedule.state bytes t).incoming := by
  induction u, hle using Nat.le_induction with
  | base => exact ⟨hempty, rfl⟩
  | succ u hle ih =>
    obtain ⟨hbuffer, hincoming⟩ := ih fun w hw hlt => hquiet w hw (Nat.lt_succ_of_lt hlt)
    rw [schedule.state_succ]
    obtain ⟨-, hsame, hsame'⟩ | ⟨harrive, -⟩ | ⟨b, other, -, hsome, -⟩ :=
      (schedule.state bytes u).step_cases (schedule u)
    · exact ⟨hsame.trans hbuffer, hsame'.trans hincoming⟩
    · exact absurd harrive (hquiet u hle (Nat.lt_succ_self u))
    -- only a full buffer is read
    · rw [hbuffer] at hsome
      cases hsome

/-- A byte in the buffer stays there until it is read. -/
theorem held_until {t u : ℕ} (hle : t ≤ u) {b : KbcByte}
    (hheld : (schedule.state bytes t).buffer = some b) :
    ((schedule.state bytes u).buffer = some b ∧
        (schedule.state bytes u).incoming = (schedule.state bytes t).incoming) ∨
      ∃ w, (schedule.state bytes w).buffer = none ∧
        (schedule.state bytes w).incoming = (schedule.state bytes t).incoming := by
  induction u, hle using Nat.le_induction with
  | base => exact .inl ⟨hheld, rfl⟩
  | succ u hle ih =>
    obtain ⟨hbuffer, hincoming⟩ | hread := ih
    · obtain ⟨-, hsame, hsame'⟩ | ⟨-, -, c, rest, hnone, -⟩ |
          ⟨c, other, -, -, -, -, hnone, hsame⟩ :=
        (schedule.state bytes u).step_cases (schedule u)
      · left
        rw [schedule.state_succ]
        exact ⟨hsame.trans hbuffer, hsame'.trans hincoming⟩
      -- nothing arrives on a full buffer
      · rw [hbuffer] at hnone
        cases hnone
      · right
        refine ⟨u + 1, ?_⟩
        rw [schedule.state_succ]
        exact ⟨hnone, hsame.trans hincoming⟩
    · exact .inr hread

/-- The interrupt of a byte empties the buffer, unless it is an errored keyboard byte. -/
theorem read_of_notified {t u : ℕ} (hlt : t < u) {b : KbcByte} {other : UInt8}
    (hheld : (schedule.state bytes (t + 1)).buffer = some b)
    (hcall : schedule u = .call b.handler other) (hok : b.aux = true ∨ b.error = false) :
    ∃ w, (schedule.state bytes w).buffer = none ∧
      (schedule.state bytes w).incoming = (schedule.state bytes (t + 1)).incoming := by
  -- the buffer may have been read before the interrupt; else it is read now
  obtain ⟨hbuffer, hincoming⟩ | hread := held_until hlt hheld
  · refine ⟨u + 1, ?_⟩
    have hport : KbcState.readsPort b.handler
        ((schedule.state bytes u).reading other).status = true := by
      show KbcState.readsPort b.handler
        (statusRegister (schedule.state bytes u).buffer other) = true
      rw [hbuffer, readsPort_some]
      simpa using hok
    rw [schedule.state_succ, hcall]
    constructor
    · simp only [KbcState.step, hport, if_true]
    · exact hincoming
  · exact hread

/-- From an empty buffer on, all bytes that remain are read. -/
theorem read_from (hserved : schedule.Served bytes)
    (hok : ∀ b ∈ bytes, b.aux = true ∨ b.error = false) {rest : List KbcByte} {t : ℕ}
    (hempty : (schedule.state bytes t).buffer = none)
    (hrest : (schedule.state bytes t).incoming = rest) :
    ∃ u, (schedule.state bytes u).remaining = [] := by
  -- on the bytes that have not arrived: one arrival and one interrupt for each
  induction rest generalizing t with
  | nil => exact ⟨t, by rw [KbcState.remaining, hempty, hrest]; rfl⟩
  | cons b rest ih =>
    -- the first arrival from `t` on
    have hex : ∃ u, t ≤ u ∧ schedule u = .arrive := hserved.arrives t hempty (by simp [hrest])
    classical
    obtain ⟨hle, harrive⟩ := Nat.find_spec hex
    have hquiet : ∀ w, t ≤ w → w < Nat.find hex → schedule w ≠ .arrive := fun w hw hlt hw' =>
      Nat.find_min hex hlt ⟨hw, hw'⟩
    generalize Nat.find hex = u at hle harrive hquiet
    obtain ⟨hbuffer, hincoming⟩ := empty_until hle hempty hquiet
    rw [hrest] at hincoming
    have hheld : (schedule.state bytes (u + 1)).buffer = some b ∧
        (schedule.state bytes (u + 1)).incoming = rest := by
      rw [schedule.state_succ, harrive]
      simp [KbcState.step, hbuffer, hincoming]
    -- its interrupt empties the buffer
    obtain ⟨v, hlt, other, hcall⟩ := hserved.notified u b hbuffer hheld.1
    have hmem : b ∈ (schedule.state bytes (u + 1)).remaining := by
      rw [KbcState.remaining, hheld.1]
      exact List.mem_cons_self
    obtain ⟨w, hnone, hsame⟩ := read_of_notified hlt hheld.1 hcall (hok b (mem_of_remaining hmem))
    exact ih hnone (hsame.trans hheld.2)

/-- Without errored keyboard bytes, a served schedule reads every byte. -/
theorem all_read (hserved : schedule.Served bytes)
    (hok : ∀ b ∈ bytes, b.aux = true ∨ b.error = false) :
    ∃ t, schedule.reads bytes t = bytes.map fun b => (b.handler, b) := by
  obtain ⟨t, hnil⟩ := read_from hserved hok (t := 0) rfl rfl
  refine ⟨t, ?_⟩
  have hconserved := reads_conserved schedule bytes t
  rwa [hnil, List.map_nil, List.append_nil] at hconserved

end Runs

/-- **Every byte is read exactly once, by its handler, if and only if no keyboard byte carries an
error**: for all bytes of the controller and all schedules of arrivals and interrupts that serve
them. -/
theorem demultiplexes_iff {schedule : Schedule} {bytes : List KbcByte}
    (hserved : schedule.Served bytes) :
    schedule.Demultiplexes bytes ↔ ∀ b ∈ bytes, b.aux = false → b.error = false := by
  constructor
  · intro h b hb haux
    obtain ⟨t, hall⟩ := h.all
    -- every byte is read, and no errored keyboard byte ever is
    have hread : (b.handler, b) ∈ schedule.reads bytes t := by
      rw [hall]
      exact List.mem_map_of_mem hb
    rcases error_of_reads hread with hmouse | hok
    · rw [haux] at hmouse
      cases hmouse
    · exact hok
  · intro h
    have hok : ∀ b ∈ bytes, b.aux = true ∨ b.error = false := by
      intro b hb
      cases haux : b.aux with
      | true => exact .inl rfl
      | false => exact .inr (h b hb haux)
    refine ⟨fun t => ?_, all_read hserved hok, fun t => scancodes_eq schedule bytes t⟩
    exact ⟨_, reads_conserved schedule bytes t⟩

/-- A byte arrives, and both handlers are called, again and again. -/
def roundRobin : Schedule := fun t =>
  if t % 3 = 0 then .arrive
  else if t % 3 = 1 then .call .mouseIh 0
  else .call .keyboardIntHandler 0

theorem served_roundRobin (bytes : List KbcByte) : roundRobin.Served bytes where
  -- the next arrival is less than three actions away
  arrives t _ _ := by
    refine ⟨3 * t, by omega, if_pos (by omega)⟩
  notified t b _ _ := by
    cases hhandler : b.handler with
    | mouseIh =>
      refine ⟨3 * t + 1, by omega, 0, ?_⟩
      rw [roundRobin, if_neg (by omega), if_pos (by omega)]
    | keyboardIntHandler =>
      refine ⟨3 * t + 2, by omega, 0, ?_⟩
      rw [roundRobin, if_neg (by omega), if_neg (by omega)]

/-- A scancode, a mouse byte with a parity error, and another scancode: all three are read. -/
theorem demultiplexes_parity :
    roundRobin.Served [⟨0x1C, false, false, false⟩, ⟨0x08, true, true, false⟩,
        ⟨0x9C, false, false, false⟩] ∧
      roundRobin.Demultiplexes [⟨0x1C, false, false, false⟩, ⟨0x08, true, true, false⟩,
        ⟨0x9C, false, false, false⟩] := by
  refine ⟨served_roundRobin _, (demultiplexes_iff (served_roundRobin _)).mpr ?_⟩
  decide

/-- A scancode with a parity error stays in the buffer, in front of the next one. -/
theorem demultiplexes_fails :
    roundRobin.Served [⟨0x1C, false, true, false⟩, ⟨0x9C, false, false, false⟩] ∧
      ¬ roundRobin.Demultiplexes [⟨0x1C, false, true, false⟩, ⟨0x9C, false, false, false⟩] := by
  refine ⟨served_roundRobin _, fun h => ?_⟩
  obtain ⟨t, hall⟩ := h.all
  have hread : (Handler.keyboardIntHandler, (⟨0x1C, false, true, false⟩ : KbcByte)) ∈
      roundRobin.reads [⟨0x1C, false, true, false⟩, ⟨0x9C, false, false, false⟩] t := by
    rw [hall]
    decide
  rcases error_of_reads hread with hmouse | hok
  · cases hmouse
  · cases hok

end LCChess
