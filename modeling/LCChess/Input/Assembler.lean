import LCChess.Input.Mouse

/-!
# Alignment of the packet assembler

As long as no byte carries a timeout or parity error, the index of the assembler is the
position in the current packet. An error is never recovered from: the packet it hit is
dropped, but the index runs on past the three bytes of `pp.bytes`. So the assembler keeps its
index in range, and delivers the packets that follow, exactly on the streams in which nothing
but the rest of the packet that an error hit follows the error.

## Main definitions

* `track`: the position in the current packet, and whether an error has occurred
* `ErrorsFit`: behind an error only the packet it hit is completed
* `WholePackets`, `Recovers`: streams of whole packets, and delivery of the next good packet

## Main results

* `aligned_step`: the globals of `mouse.c` follow `track`
* `assembler_ok_iff`: the index stays in range and the next packet is delivered exactly on the
  streams with `ErrorsFit`
* `assembler_fails`: a stream with one error on which it does not
-/

namespace LCChess

open Transition (run outputs outputs_append run_append run_cons outputs_cons Along along_append
  run_invariant)

/-- The position in the packet after the error-free byte `r` at position `n`. -/
def advance (n : ℕ) (r : Reading) : ℕ :=
  if n = 0 ∧ r.isFirst = false then 0 else (n + 1) % 3

/-- The position in the current packet and whether an error has occurred, after one reading.
From the first error on the position counts the bytes without a bound. -/
def track (c : ℕ × Bool) (r : Reading) : ℕ × Bool :=
  if r.isAux then
    if r.isError || c.2 then (c.1 + 1, true) else (advance c.1 r, false)
  else c

/-- An error-free byte behind an error belongs to the packet that the error hit. -/
def Fits (c : ℕ × Bool) (r : Reading) : Prop :=
  r.isAux = true → r.isError = false → c.2 = true → c.1 < 3

/-- Behind an error only the packet it hit is completed. -/
def ErrorsFit (l : List Reading) : Prop := Along Fits track (0, false) l

/-- Three bytes form a packet: the first has bit 3 set, or an error hit it. -/
def IsPacket (r0 : Reading) : Prop := r0.isError = true ∨ r0.isFirst = true

/-- A list of bytes made of whole packets, some of them hit by errors. -/
inductive WholePackets : List Reading → Prop
  | nil : WholePackets []
  | packet {l : List Reading} (r0 r1 r2 : Reading) : WholePackets l → IsPacket r0 →
      WholePackets (l ++ [r0, r1, r2])

/-- An error-free packet. -/
def GoodPacket (r0 r1 r2 : Reading) : Prop :=
  (r0.isError = false ∧ r1.isError = false ∧ r2.isError = false) ∧ r0.isFirst = true

/-- The indices written along a stream, from the initial state. -/
def writtenIndices (l : List Reading) : List ℤ :=
  outputs writtenIndex mouseStep MouseState.initial l

/-- The packets the readings `m` deliver after the stream `l`. -/
def deliveredAfter (l m : List Reading) : List Packet :=
  outputs delivered mouseStep (run mouseStep MouseState.initial l) m

/-- Whenever the bytes so far are whole packets, the next error-free packet is delivered once,
with its values. -/
def Recovers (l : List Reading) : Prop :=
  ∀ l₁ m l₂ r0 r1 r2, l = l₁ ++ m ++ l₂ → WholePackets (l₁.filter Reading.isAux) →
    m.filter Reading.isAux = [r0, r1, r2] → GoodPacket r0 r1 r2 →
    deliveredAfter l₁ m = [decodePacket r0.byte r1.byte r2.byte]

/-- The index stays within `pp.bytes`. -/
def InRange (l : List Reading) : Prop := ∀ i ∈ writtenIndices l, i = 0 ∨ i = 1 ∨ i = 2

/-! ## The globals follow the stream -/

/-- The globals at position `c.1` of a packet, before (`c.2 = false`) and after an error. -/
structure Aligned (s : MouseState) (c : ℕ × Bool) : Prop where
  index : s.i = c.1
  seen : s.updateMouse = false
  /-- Before an error, the index is a position and the packet is valid. -/
  healthy : c.2 = false → c.1 < 3 ∧ s.validPacket = true
  /-- After an error, the index has left `0`, and the packet stays invalid up to its end. -/
  broken : c.2 = true → 1 ≤ c.1 ∧ (c.1 ≤ 2 → s.validPacket = false)

theorem aligned_initial : Aligned MouseState.initial (0, false) :=
  ⟨rfl, rfl, fun _ => ⟨by decide, rfl⟩, nofun⟩

/-- A call that finds no mouse byte changes nothing. -/
theorem mouseIh_idle {r : Reading} (h : r.isAux = false) (s : MouseState) :
    mouseIh r s = (none, s) := by
  simp [mouseIh, h]

theorem mouseIh_error {r : Reading} (h : r.isAux = true) (he : r.isError = true)
    (s : MouseState) :
    mouseIh r s = (none, { s with validPacket := false, i := s.i + 1 }) := by
  simp [mouseIh, h, he]

/-- A byte without bit 3 at the start of a packet is skipped. -/
theorem mouseIh_skip {r : Reading} (h : r.isAux = true) (he : r.isError = false)
    {s : MouseState} (hi : s.i = 0) (hf : r.isFirst = false) : mouseIh r s = (none, s) := by
  rcases s with ⟨bytes, pp, updateMouse, i, validPacket⟩
  obtain rfl : i = 0 := hi
  simp [mouseIh, h, he, hf]

/-- Any other byte is stored, and the third byte ends the packet. -/
theorem mouseIh_store {r : Reading} (h : r.isAux = true) (he : r.isError = false)
    {s : MouseState} (hi : ¬ (s.i = 0 ∧ r.isFirst = false)) :
    mouseIh r s =
      (some s.i,
        if s.i = 2 then
          if s.validPacket then
            { s with
              bytes := Function.update s.bytes 2 r.byte
              pp := decodePacket (s.bytes 0) (s.bytes 1) r.byte
              i := 0
              updateMouse := true }
          else { s with
            bytes := Function.update s.bytes 2 r.byte, validPacket := true, i := 3 }
        else { s with bytes := Function.update s.bytes s.i r.byte, i := s.i + 1 }) := by
  rcases s with ⟨bytes, pp, updateMouse, i, validPacket⟩
  by_cases h2 : i = 2
  · subst h2
    cases validPacket <;> simp [mouseIh, h, he, Function.update_of_ne]
  · simp only [mouseIh, h, he, hi, h2, if_true, if_false, Bool.not_false]

/-- The globals follow the position in the stream. -/
theorem aligned_step {s : MouseState} {c : ℕ × Bool} (h : Aligned s c) (r : Reading) :
    Aligned (mouseStep s r) (track c r) := by
  obtain ⟨n, hit⟩ := c
  obtain ⟨hindex, hseen, hhealthy, hbroken⟩ := h
  dsimp only at hindex hhealthy hbroken
  by_cases haux : r.isAux = true
  · by_cases herr : r.isError = true
    · -- an error: the packet is marked, the index runs on
      simp only [mouseStep, mouseInterrupt, mouseIh_error haux herr, hseen, track, haux, herr,
        if_true, Bool.true_or, Bool.false_eq_true, if_false]
      exact ⟨by simp [hindex], rfl, nofun, fun _ => ⟨by simp, fun _ => rfl⟩⟩
    · have herr : r.isError = false := by simpa using herr
      cases hit with
      | false =>
        -- before the first error the index is the position in the packet
        obtain ⟨hn, hvalid⟩ := hhealthy rfl
        by_cases hskip : n = 0 ∧ r.isFirst = false
        · have hskip' : s.i = 0 := by omega
          simp only [mouseStep, mouseInterrupt, mouseIh_skip haux herr hskip' hskip.2, hseen,
            track, haux, herr, advance, hskip, and_self, if_true, Bool.or_self,
            Bool.false_eq_true, if_false]
          exact ⟨by simpa using hskip', hseen, fun _ => ⟨by decide, hvalid⟩, nofun⟩
        · have hstore : ¬ (s.i = 0 ∧ r.isFirst = false) := fun he => hskip ⟨by omega, he.2⟩
          simp only [mouseStep, mouseInterrupt, mouseIh_store haux herr hstore, track, haux, herr,
            advance, hskip, if_true, Bool.or_self, Bool.false_eq_true, if_false, hvalid]
          by_cases h2 : s.i = 2
          · obtain rfl : n = 2 := by omega
            simp only [h2, if_true]
            exact ⟨rfl, rfl, fun _ => ⟨by decide, rfl⟩, nofun⟩
          · have hmod : (n + 1) % 3 = n + 1 := Nat.mod_eq_of_lt (by omega)
            simp only [h2, if_false, hseen, Bool.false_eq_true, hmod]
            exact ⟨by simp [hindex], rfl, fun _ => ⟨by simp; omega, rfl⟩, nofun⟩
      | true =>
        -- behind an error every byte is stored, and the third one does not end the packet
        obtain ⟨hn, hvalid⟩ := hbroken rfl
        have hstore : ¬ (s.i = 0 ∧ r.isFirst = false) := fun he => by omega
        simp only [mouseStep, mouseInterrupt, mouseIh_store haux herr hstore, track, haux,
          Bool.or_true, if_true]
        by_cases h2 : s.i = 2
        · obtain rfl : n = 2 := by omega
          simp only [h2, if_true, hvalid le_rfl, Bool.false_eq_true, if_false, hseen]
          exact ⟨rfl, rfl, nofun, fun _ => ⟨by simp, fun h => by simp at h⟩⟩
        · simp only [h2, if_false, hseen, Bool.false_eq_true]
          exact ⟨by simp [hindex], rfl, nofun,
            fun _ => ⟨by simp, fun h => hvalid (by simp at h; omega)⟩⟩
  · have haux : r.isAux = false := by simpa using haux
    simp only [mouseStep, mouseInterrupt, mouseIh_idle haux, hseen, track, haux,
      Bool.false_eq_true, if_false]
    exact ⟨hindex, hseen, hhealthy, hbroken⟩

theorem aligned_run {s : MouseState} {c : ℕ × Bool} (h : Aligned s c) (l : List Reading) :
    Aligned (run mouseStep s l) (run track c l) := by
  -- on the stream, with the position that the globals follow
  induction l generalizing s c with
  | nil => exact h
  | cons r l ih => exact ih (aligned_step h r)

/-- A reading without a mouse byte leaves the globals alone. -/
theorem mouseStep_idle {s : MouseState} {c : ℕ × Bool} (h : Aligned s c) {r : Reading}
    (hr : r.isAux = false) : mouseStep s r = s ∧ delivered s r = [] := by
  simp [mouseStep, delivered, mouseInterrupt, mouseIh_idle hr, h.seen]

/-- Only the mouse bytes of a stream count. -/
theorem run_filter {s : MouseState} {c : ℕ × Bool} (h : Aligned s c) (l : List Reading) :
    run mouseStep s l = run mouseStep s (l.filter Reading.isAux) ∧
      outputs delivered mouseStep s l =
        outputs delivered mouseStep s (l.filter Reading.isAux) := by
  induction l generalizing s c with
  | nil => exact ⟨rfl, rfl⟩
  | cons r l ih =>
    cases hr : r.isAux with
    | true => simpa [List.filter_cons_of_pos, hr] using ih (aligned_step h r)
    | false =>
      obtain ⟨hs, hd⟩ := mouseStep_idle h hr
      simpa [List.filter_cons_of_neg, hr, hs, hd] using ih h

theorem track_filter (c : ℕ × Bool) (l : List Reading) :
    run track c l = run track c (l.filter Reading.isAux) ∧
      (Along Fits track c l ↔ Along Fits track c (l.filter Reading.isAux)) := by
  induction l generalizing c with
  | nil => exact ⟨rfl, Iff.rfl⟩
  | cons r l ih =>
    cases hr : r.isAux with
    | true =>
      obtain ⟨hrun, halong⟩ := ih (track c r)
      simp only [List.filter_cons_of_pos, hr, run_cons, Transition.along_cons]
      exact ⟨hrun, and_congr_right fun _ => halong⟩
    | false =>
      have hc : track c r = c := by simp [track, hr]
      simpa [List.filter_cons_of_neg, hr, hc, Fits] using ih c

/-! ## The index -/

/-- One reading writes within `pp.bytes` exactly if it fits. -/
theorem written_iff {s : MouseState} {c : ℕ × Bool} (h : Aligned s c) (r : Reading) :
    (∀ i ∈ writtenIndex s r, i = 0 ∨ i = 1 ∨ i = 2) ↔ Fits c r := by
  have hindex := h.index
  unfold Fits writtenIndex
  cases haux : r.isAux with
  | false => simp [mouseIh_idle haux]
  | true =>
    cases herr : r.isError with
    | true => simp [mouseIh_error haux herr]
    | false =>
      by_cases hskip : s.i = 0 ∧ r.isFirst = false
      · have hhit : c.2 = false := by
          by_contra hne
          have := (h.broken (by simpa using hne)).1
          omega
        simp [mouseIh_skip haux herr hskip.1 hskip.2, hhit]
      · simp only [mouseIh_store haux herr hskip, Option.toList_some, List.mem_singleton,
          forall_eq, forall_const]
        cases hhit : c.2 with
        | false =>
          have := (h.healthy hhit).1
          exact iff_of_true (by omega) nofun
        | true =>
          have := (h.broken hhit).1
          simp only [forall_const]
          omega

theorem inRange_iff {s : MouseState} {c : ℕ × Bool} (h : Aligned s c) (l : List Reading) :
    (∀ i ∈ outputs writtenIndex mouseStep s l, i = 0 ∨ i = 1 ∨ i = 2) ↔
      Along Fits track c l := by
  induction l generalizing s c with
  | nil => simp
  | cons r l ih =>
    simp only [outputs_cons, List.forall_mem_append]
    exact and_congr (written_iff h r) (ih (aligned_step h r))

/-! ## The packets -/

/-- Behind whole packets the position is the start of a packet, or far behind an error. -/
theorem track_wholePackets {l : List Reading} (h : WholePackets l)
    (haux : ∀ r ∈ l, r.isAux = true) :
    run track (0, false) l = (0, false) ∨
      (3 ≤ (run track (0, false) l).1 ∧ (run track (0, false) l).2 = true) := by
  induction h with
  | nil => exact Or.inl rfl
  | packet r0 r1 r2 _ hp ih =>
    simp only [List.forall_mem_append, List.forall_mem_cons] at haux
    obtain ⟨hl, h0, h1, h2, -⟩ := haux
    rw [run_append]
    obtain heq | ⟨hle, hhit⟩ := ih hl
    · rw [heq]
      cases he0 : r0.isError <;> cases he1 : r1.isError <;> cases he2 : r2.isError <;>
        simp_all [track, advance, IsPacket]
    · apply Or.inr
      simp only [run_cons, Transition.run_nil, track, h0, h1, h2, hhit, Bool.or_true, if_true,
        and_true]
      omega

/-- From the start of a packet, an error-free packet is delivered with its values. -/
theorem delivered_goodPacket {s : MouseState} (h : Aligned s (0, false)) {r0 r1 r2 : Reading}
    (haux : r0.isAux = true ∧ r1.isAux = true ∧ r2.isAux = true) (hp : GoodPacket r0 r1 r2) :
    outputs delivered mouseStep s [r0, r1, r2] = [decodePacket r0.byte r1.byte r2.byte] := by
  obtain ⟨h0, h1, h2⟩ := haux
  obtain ⟨⟨e0, e1, e2⟩, hf⟩ := hp
  rcases s with ⟨bytes, pp, updateMouse, i, validPacket⟩
  obtain rfl : i = 0 := h.index
  obtain rfl : updateMouse = false := h.seen
  obtain rfl : validPacket = true := (h.healthy rfl).2
  simp [delivered, mouseStep, mouseInterrupt, mouseIh, h0, h1, h2, e0, e1, e2, hf,
    Function.update_of_ne]

theorem recovers_of_errorsFit {l : List Reading} (h : ErrorsFit l) : Recovers l := by
  rintro l₁ m l₂ r0 r1 r2 rfl hl₁ hm hp
  have haligned := aligned_run aligned_initial l₁
  -- the good packet is part of the stream, so its bytes fit
  have hfits := (along_append.mp (along_append.mp h).1).2
  have hmem : ∀ r ∈ [r0, r1, r2], r.isAux = true := by
    rw [← hm]
    exact fun r hr => (List.mem_filter.mp hr).2
  have haux : r0.isAux = true ∧ r1.isAux = true ∧ r2.isAux = true := by simpa using hmem
  rw [deliveredAfter, (run_filter haligned m).2, hm]
  rw [(track_filter _ m).2, hm] at hfits
  rw [(track_filter _ l₁).1] at hfits haligned
  obtain heq | ⟨hle, hhit⟩ :=
    track_wholePackets hl₁ fun r hr => (List.mem_filter.mp hr).2
  · rw [heq] at haligned
    exact delivered_goodPacket haligned haux hp
  · -- the first byte of the good packet would fit only up to position 2
    have hlt := hfits.1 haux.1 hp.1.1 hhit
    omega

/-- **The assembler works on exactly the streams whose errors fit**: the index at which
`pp.bytes` is written stays within `0`, `1`, `2`, and behind whole packets the next error-free
one is delivered once with its values, if and only if no error-free byte follows the packet
that the first error hit. -/
theorem assembler_ok_iff (l : List Reading) : InRange l ∧ Recovers l ↔ ErrorsFit l :=
  ⟨fun h => (inRange_iff aligned_initial l).mp h.1,
    fun h => ⟨(inRange_iff aligned_initial l).mpr h, recovers_of_errorsFit h⟩⟩

/-- A packet whose first byte has a timeout error, and an error-free packet behind it. -/
def timeoutStream : List Reading :=
  [⟨0x61, 0x08⟩, ⟨0x21, 0x01⟩, ⟨0x21, 0x01⟩, ⟨0x21, 0x08⟩, ⟨0x21, 0x02⟩, ⟨0x21, 0x02⟩]

/-- After one timeout the indices run on to `5`, and the next packet is never delivered. -/
theorem assembler_fails : ¬ InRange timeoutStream ∧ ¬ Recovers timeoutStream := by
  constructor
  · intro h
    have hwritten : (5 : ℤ) ∈ writtenIndices timeoutStream := by decide
    have := h 5 hwritten
    omega
  · intro h
    have hpackets : WholePackets [⟨0x61, 0x08⟩, ⟨0x21, 0x01⟩, ⟨0x21, 0x01⟩] :=
      .packet (l := []) _ _ _ .nil (Or.inl (by decide))
    have := h [⟨0x61, 0x08⟩, ⟨0x21, 0x01⟩, ⟨0x21, 0x01⟩]
      [⟨0x21, 0x08⟩, ⟨0x21, 0x02⟩, ⟨0x21, 0x02⟩] [] _ _ _ rfl hpackets rfl
      ⟨by decide, by decide⟩
    exact absurd this (by decide)

end LCChess
