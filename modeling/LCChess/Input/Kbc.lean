import Mathlib.Algebra.Order.Ring.Int
import Mathlib.Data.Nat.Find
import Mathlib.Data.List.Basic

/-!
# Polling the keyboard controller

`write_kbc_command`, `write_kbc_arg` and `read_kbc_return` poll the status register before they
access a port. Each keeps a counter of three retries which it never decrements: it returns only
when the status allows the access, and a controller that never becomes ready is polled for ever.

## Main definitions

* `Controller`, `KbcRun`: what the controller answers, and what a run has done so far
* `kbcLoop`: the loop, with fuel; `none` is a loop still running
* `writeKbcCommand`, `writeKbcArg`, `readKbcReturn`, `mouseDisableDataReporting`: the functions
* `PollsAtMost3`: a call polls at most three times, and accesses its port as the status allows

## Main results

* `kbcLoop_ready`, `kbcLoop_waiting`: what the loop does
* `pollsAtMost3_iff`: one of the first three statuses must allow the access
* `kbc_polling_iff`: when the functions poll and return as they should
* `kbc_polling_fails`: a controller whose input buffer stays full
-/

namespace LCChess

/-- What the controller answers: the `n`-th read of the status register, the byte that the
`n`-th read of the output buffer finds, and the return code of the `n`-th access. -/
structure Controller where
  status : ℕ → UInt8
  output : ℕ → UInt8
  code : ℕ → ℤ

/-- An access to one of the ports behind the status register. -/
inductive KbcAccess
  | outb (port : ℕ) (byte : UInt8)
  | inb (port : ℕ)
deriving DecidableEq

/-- What a run has done: the status polls, and the accesses. `ret` is the variable that
`read_kbc_return` is handed. -/
structure KbcRun where
  polls : ℕ
  accesses : List KbcAccess
  ret : UInt8

/-- `CTRL_REG`. -/
def ctrlReg : ℕ := 0x64

/-- `IN_BUF`. -/
def inBuf : ℕ := 0x60

/-- `OUT_BUF`. -/
def outBuf : ℕ := 0x60

/-- The test `!(status & IBF_FULL)`. -/
def inputFree (status : UInt8) : Bool := status &&& 0x02 == 0

/-- The test `status & OBF_FULL`. -/
def outputFull (status : UInt8) : Bool := status &&& 0x01 != 0

section Functions

variable (c : Controller)

/-- `sys_outb`. -/
def kbcOutb (port : ℕ) (byte : UInt8) (k : KbcRun) : ℤ × KbcRun :=
  (c.code k.accesses.length, { k with accesses := k.accesses ++ [.outb port byte] })

/-- `util_sys_inb` on the output buffer; a failed one leaves the variable alone. -/
def kbcInb (port : ℕ) (k : KbcRun) : ℤ × KbcRun :=
  (c.code k.accesses.length, { k with
    accesses := k.accesses ++ [.inb port]
    ret := if c.code k.accesses.length = 0 then c.output k.accesses.length else k.ret })

/-- The loop of the three functions: `while (counter > 0)`, where the access returns as soon as
the status allows it. -/
def kbcLoop (allowed : UInt8 → Bool) (access : KbcRun → ℤ × KbcRun) :
    ℕ → ℤ → KbcRun → Option (ℤ × KbcRun)
  | 0, _, _ => none
  | fuel + 1, counter, k =>
    if 0 < counter then
      let status := c.status k.polls
      let k := { k with polls := k.polls + 1 }
      if allowed status then some (access k)
      -- the counter is not decremented
      else kbcLoop allowed access fuel counter k
    else some (-1, k)

/-- `write_kbc_command`. -/
def writeKbcCommand (command : UInt8) (fuel : ℕ) : KbcRun → Option (ℤ × KbcRun) :=
  kbcLoop c inputFree (kbcOutb c ctrlReg command) fuel 3

/-- `write_kbc_arg`. -/
def writeKbcArg (arg : UInt8) (fuel : ℕ) : KbcRun → Option (ℤ × KbcRun) :=
  kbcLoop c inputFree (kbcOutb c inBuf arg) fuel 3

/-- `read_kbc_return`. -/
def readKbcReturn (fuel : ℕ) : KbcRun → Option (ℤ × KbcRun) :=
  kbcLoop c outputFull (kbcInb c outBuf) fuel 3

/-- `mouse_disable_data_reporting`; each loop has the fuel `fuel`. -/
def mouseDisableDataReporting (fuel : ℕ) (k : KbcRun) : Option (ℤ × KbcRun) :=
  (writeKbcCommand c 0xD4 fuel k).bind fun r =>
  (writeKbcArg c 0xF5 fuel r.2).bind fun r =>
  (readKbcReturn c fuel r.2).map fun r =>
  (if r.2.ret = 0xFA then 0 else -1, r.2)

end Functions

/-- The call `f` returns after at most three polls from `k` on: with the one access, which the
last status allowed, or with `-1` and no access when none of the three allows it. -/
def PollsAtMost3 (c : Controller) (allowed : UInt8 → Bool) (access : KbcAccess)
    (f : ℕ → KbcRun → Option (ℤ × KbcRun)) (k : KbcRun) : Prop :=
  ∃ fuel r k', f fuel k = some (r, k') ∧ k'.polls ≤ k.polls + 3 ∧
    ((k.polls < k'.polls ∧ k'.accesses = k.accesses ++ [access] ∧
        allowed (c.status (k'.polls - 1)) = true) ∨
      (r = -1 ∧ k'.accesses = k.accesses ∧ ∀ i < 3, allowed (c.status (k.polls + i)) = false))

/-! ## The loop -/

section Loop

variable {c : Controller} {allowed : UInt8 → Bool} {access : KbcRun → ℤ × KbcRun}

/-- The loop returns behind the first status that allows the access. -/
theorem kbcLoop_ready {i : ℕ} {k : KbcRun} (hready : allowed (c.status (k.polls + i)) = true)
    (hbefore : ∀ j < i, allowed (c.status (k.polls + j)) = false) {fuel : ℕ} (hfuel : i < fuel) :
    kbcLoop c allowed access fuel 3 k = some (access { k with polls := k.polls + i + 1 }) := by
  induction i generalizing k fuel with
  | zero =>
    obtain ⟨n, rfl⟩ := Nat.exists_eq_add_of_lt hfuel
    rw [Nat.add_zero] at hready
    simp [kbcLoop, hready]
  | succ i ih =>
    obtain ⟨n, rfl⟩ : ∃ n, fuel = n + 1 := ⟨fuel - 1, by omega⟩
    have hfirst : allowed (c.status k.polls) = false := hbefore 0 (Nat.succ_pos i)
    have hstep : kbcLoop c allowed access (n + 1) 3 k =
        kbcLoop c allowed access n 3 { k with polls := k.polls + 1 } := by
      simp [kbcLoop, hfirst]
    rw [hstep, ih (k := { k with polls := k.polls + 1 }) ?_ ?_ (by omega)]
    · simp only [Nat.add_assoc, Nat.add_comm 1 i]
    · rwa [show k.polls + 1 + i = k.polls + (i + 1) by omega]
    · intro j hj
      rw [show k.polls + 1 + j = k.polls + (j + 1) by omega]
      exact hbefore (j + 1) (by omega)

/-- As long as no status allows the access, the loop runs on. -/
theorem kbcLoop_waiting {fuel : ℕ} {k : KbcRun}
    (h : ∀ j < fuel, allowed (c.status (k.polls + j)) = false) :
    kbcLoop c allowed access fuel 3 k = none := by
  induction fuel generalizing k with
  | zero => rfl
  | succ n ih =>
    have hfirst : allowed (c.status k.polls) = false := h 0 (Nat.succ_pos n)
    have hstep : kbcLoop c allowed access (n + 1) 3 k =
        kbcLoop c allowed access n 3 { k with polls := k.polls + 1 } := by
      simp [kbcLoop, hfirst]
    rw [hstep]
    refine ih fun j hj => ?_
    show allowed (c.status (k.polls + 1 + j)) = false
    rw [show k.polls + 1 + j = k.polls + (j + 1) by omega]
    exact h (j + 1) (by omega)

/-- The first status that allows the access, when one of the next `n` does. -/
theorem first_allowed {n m : ℕ} (h : ∃ i < n, allowed (c.status (m + i)) = true) :
    ∃ i < n, allowed (c.status (m + i)) = true ∧
      ∀ j < i, allowed (c.status (m + j)) = false := by
  classical
  obtain ⟨hlt, hready⟩ := Nat.find_spec h
  refine ⟨Nat.find h, hlt, hready, fun j hj => ?_⟩
  have hmin := Nat.find_min h hj
  simp only [not_and] at hmin
  simpa using hmin (by omega)

/-- If the loop returns, then behind the first status that allows the access. -/
theorem kbcLoop_some {fuel : ℕ} {k : KbcRun} {r : ℤ × KbcRun}
    (h : kbcLoop c allowed access fuel 3 k = some r) :
    ∃ i < fuel, allowed (c.status (k.polls + i)) = true ∧
      (∀ j < i, allowed (c.status (k.polls + j)) = false) ∧
      r = access { k with polls := k.polls + i + 1 } := by
  by_cases hex : ∃ i < fuel, allowed (c.status (k.polls + i)) = true
  · obtain ⟨i, hi, hready, hbefore⟩ := first_allowed hex
    rw [kbcLoop_ready hready hbefore hi] at h
    exact ⟨i, hi, hready, hbefore, (Option.some.inj h).symm⟩
  · rw [kbcLoop_waiting] at h
    · cases h
    · intro j hj
      by_contra hne
      exact hex ⟨j, hj, by simpa using hne⟩

/-- More fuel changes nothing. -/
theorem kbcLoop_mono {fuel fuel' : ℕ} (hle : fuel ≤ fuel') {k : KbcRun} {r : ℤ × KbcRun}
    (h : kbcLoop c allowed access fuel 3 k = some r) :
    kbcLoop c allowed access fuel' 3 k = some r := by
  obtain ⟨i, hi, hready, hbefore, rfl⟩ := kbcLoop_some h
  exact kbcLoop_ready hready hbefore (by omega)

/-- **A call polls at most three times if and only if one of the first three statuses allows its
access.** -/
theorem pollsAtMost3_iff {single : KbcAccess} {k : KbcRun}
    (haccess : ∀ k, (access k).2.polls = k.polls ∧
      (access k).2.accesses = k.accesses ++ [single]) :
    PollsAtMost3 c allowed single (fun fuel => kbcLoop c allowed access fuel 3) k ↔
      ∃ i < 3, allowed (c.status (k.polls + i)) = true := by
  constructor
  · rintro ⟨fuel, r, k', hrun, hpolls, -⟩
    obtain ⟨i, -, hready, -, heq⟩ := kbcLoop_some hrun
    have hpolls' := (haccess { k with polls := k.polls + i + 1 }).1
    rw [← heq] at hpolls'
    exact ⟨i, by simp at hpolls'; omega, hready⟩
  · intro hex
    obtain ⟨i, hi, hready, hbefore⟩ := first_allowed hex
    have hrun : kbcLoop c allowed access (i + 1) 3 k =
        some (access { k with polls := k.polls + i + 1 }) :=
      kbcLoop_ready hready hbefore (Nat.lt_succ_self i)
    obtain ⟨hpolls, haccesses⟩ := haccess { k with polls := k.polls + i + 1 }
    refine ⟨_, _, _, hrun, ?_, .inl ⟨?_, haccesses, ?_⟩⟩
    · rw [hpolls]
      show k.polls + i + 1 ≤ k.polls + 3
      omega
    · rw [hpolls]
      show k.polls < k.polls + i + 1
      omega
    · rw [hpolls]
      exact hready

end Loop

/-! ## The functions -/

section Chain

variable {c : Controller} {k : KbcRun}

theorem kbcOutb_spec (port : ℕ) (byte : UInt8) (k : KbcRun) :
    (kbcOutb c port byte k).2.polls = k.polls ∧
      (kbcOutb c port byte k).2.accesses = k.accesses ++ [.outb port byte] := ⟨rfl, rfl⟩

theorem kbcInb_spec (port : ℕ) (k : KbcRun) :
    (kbcInb c port k).2.polls = k.polls ∧
      (kbcInb c port k).2.accesses = k.accesses ++ [.inb port] := ⟨rfl, rfl⟩

/-- The statuses let the three calls of `mouse_disable_data_reporting` pass one after the
other. -/
def LetsPass (c : Controller) (n : ℕ) : Prop :=
  ∃ i j m, n ≤ i ∧ i < j ∧ j < m ∧ inputFree (c.status i) = true ∧
    inputFree (c.status j) = true ∧ outputFull (c.status m) = true

/-- A loop that some later status lets pass returns at that status or before. -/
theorem kbcLoop_passes {allowed : UInt8 → Bool} (access : KbcRun → ℤ × KbcRun) {i : ℕ}
    (hi : k.polls ≤ i) (hready : allowed (c.status i) = true) :
    ∃ fuel n, n ≤ i ∧
      kbcLoop c allowed access fuel 3 k = some (access { k with polls := n + 1 }) := by
  have hex : ∃ j < i - k.polls + 1, allowed (c.status (k.polls + j)) = true :=
    ⟨i - k.polls, by omega, by rwa [show k.polls + (i - k.polls) = i by omega]⟩
  obtain ⟨j, hj, hready, hbefore⟩ := first_allowed hex
  exact ⟨j + 1, k.polls + j, by omega, kbcLoop_ready hready hbefore (Nat.lt_succ_self j)⟩

/-- `mouse_disable_data_reporting` returns if and only if the statuses let its calls pass. -/
theorem mouseDisableDataReporting_returns :
    (∃ fuel r, mouseDisableDataReporting c fuel k = some r) ↔ LetsPass c k.polls := by
  constructor
  · rintro ⟨fuel, r, h⟩
    obtain ⟨r₁, h₁, h⟩ := Option.bind_eq_some_iff.mp h
    obtain ⟨r₂, h₂, h⟩ := Option.bind_eq_some_iff.mp h
    obtain ⟨r₃, h₃, -⟩ := Option.map_eq_some_iff.mp h
    obtain ⟨i₁, -, hready₁, -, rfl⟩ := kbcLoop_some h₁
    obtain ⟨i₂, -, hready₂, -, rfl⟩ := kbcLoop_some h₂
    obtain ⟨i₃, -, hready₃, -, -⟩ := kbcLoop_some h₃
    exact ⟨_, _, _, Nat.le_add_right _ _, Nat.lt_of_lt_of_le (Nat.lt_succ_self _)
      (Nat.le_add_right _ _), Nat.lt_of_lt_of_le (Nat.lt_succ_self _) (Nat.le_add_right _ _),
      hready₁, hready₂, hready₃⟩
  · rintro ⟨i, j, m, hi, hij, hjm, hready₁, hready₂, hready₃⟩
    obtain ⟨fuel₁, n₁, hn₁, h₁⟩ := kbcLoop_passes (kbcOutb c ctrlReg 0xD4) hi hready₁
    obtain ⟨fuel₂, n₂, hn₂, h₂⟩ := kbcLoop_passes (kbcOutb c inBuf 0xF5)
      (show (kbcOutb c ctrlReg 0xD4 { k with polls := n₁ + 1 }).2.polls ≤ j by
        show n₁ + 1 ≤ j; omega) hready₂
    obtain ⟨fuel₃, n₃, -, h₃⟩ := kbcLoop_passes (kbcInb c outBuf)
      (show (kbcOutb c inBuf 0xF5 { (kbcOutb c ctrlReg 0xD4 { k with polls := n₁ + 1 }).2 with
        polls := n₂ + 1 }).2.polls ≤ m by show n₂ + 1 ≤ m; omega) hready₃
    -- one fuel for all three loops
    have h₁' := kbcLoop_mono (show fuel₁ ≤ fuel₁ + fuel₂ + fuel₃ by omega) h₁
    have h₂' := kbcLoop_mono (show fuel₂ ≤ fuel₁ + fuel₂ + fuel₃ by omega) h₂
    have h₃' := kbcLoop_mono (show fuel₃ ≤ fuel₁ + fuel₂ + fuel₃ by omega) h₃
    refine ⟨fuel₁ + fuel₂ + fuel₃, ?_⟩
    rw [mouseDisableDataReporting, writeKbcCommand, h₁', Option.bind_some, writeKbcArg, h₂',
      Option.bind_some, readKbcReturn, h₃', Option.map_some]
    exact ⟨_, rfl⟩

/-- **Polling is bounded only by the controller**: for all answers of the controller, each of
the three functions returns after at most three polls as the status allows, and
`mouse_disable_data_reporting` returns, if and only if one of the first three statuses shows the
input buffer free, one of them the output buffer full, and the statuses let the three calls in
a row pass. -/
theorem kbc_polling_iff (c : Controller) (k : KbcRun) (command arg : UInt8) :
    (PollsAtMost3 c inputFree (.outb ctrlReg command) (writeKbcCommand c command) k ∧
        PollsAtMost3 c inputFree (.outb inBuf arg) (writeKbcArg c arg) k ∧
        PollsAtMost3 c outputFull (.inb outBuf) (readKbcReturn c) k ∧
        ∃ fuel r, mouseDisableDataReporting c fuel k = some r) ↔
      (∃ i < 3, inputFree (c.status (k.polls + i)) = true) ∧
        (∃ i < 3, outputFull (c.status (k.polls + i)) = true) ∧ LetsPass c k.polls := by
  have hcommand : PollsAtMost3 c inputFree (.outb ctrlReg command) (writeKbcCommand c command) k ↔
      ∃ i < 3, inputFree (c.status (k.polls + i)) = true :=
    pollsAtMost3_iff (kbcOutb_spec ctrlReg command)
  have harg : PollsAtMost3 c inputFree (.outb inBuf arg) (writeKbcArg c arg) k ↔
      ∃ i < 3, inputFree (c.status (k.polls + i)) = true :=
    pollsAtMost3_iff (kbcOutb_spec inBuf arg)
  have hread : PollsAtMost3 c outputFull (.inb outBuf) (readKbcReturn c) k ↔
      ∃ i < 3, outputFull (c.status (k.polls + i)) = true :=
    pollsAtMost3_iff (kbcInb_spec outBuf)
  rw [hcommand, harg, hread, mouseDisableDataReporting_returns]
  constructor
  · rintro ⟨hfree, -, hfull, hpass⟩
    exact ⟨hfree, hfull, hpass⟩
  · rintro ⟨hfree, hfull, hpass⟩
    exact ⟨hfree, hfree, hfull, hpass⟩

end Chain

/-- A controller whose input buffer stays full is polled for ever. -/
theorem kbc_polling_fails :
    ¬ PollsAtMost3 ⟨fun _ => 0x02, fun _ => 0, fun _ => 0⟩ inputFree (.outb ctrlReg 0xD4)
        (writeKbcCommand ⟨fun _ => 0x02, fun _ => 0, fun _ => 0⟩ 0xD4) ⟨0, [], 0⟩ ∧
      ¬ ∃ fuel r, mouseDisableDataReporting ⟨fun _ => 0x02, fun _ => 0, fun _ => 0⟩ fuel
        ⟨0, [], 0⟩ = some r := by
  have hfull : inputFree 0x02 = false := by decide
  constructor
  · rintro ⟨fuel, r, k', hrun, -⟩
    obtain ⟨i, -, hready, -⟩ := kbcLoop_some hrun
    exact absurd hready (by simp [hfull])
  · rw [mouseDisableDataReporting_returns]
    rintro ⟨i, j, m, -, -, -, hready, -⟩
    exact absurd hready (by simp [hfull])

end LCChess
