import Mathlib.Logic.Function.Iterate
import Mathlib.Order.Lattice
import Mathlib.Tactic.Common

/-!
# Countdowns

A step that takes one from a natural number until it is zero reaches zero in exactly as many
steps as the number says. Two numbers that are counted down side by side are both zero when the
greater one is.

## Main definitions

* `Counts step togo`: every step takes one from `togo`

## Main results

* `Counts.max`: two countdowns side by side
* `Counts.iterate`, `Counts.iterate_eq_zero_iff`: the number behind `n` steps
* `Counts.keeps`: what every step keeps as long as the number is positive
-/

namespace Countdown

variable {S : Type*}

/-- Every step takes one from `togo`, until it is zero. -/
def Counts (step : S → S) (togo : S → ℕ) : Prop := ∀ s, togo (step s) = togo s - 1

namespace Counts

variable {step : S → S} {togo togo' : S → ℕ}

/-- Two numbers that are counted down side by side. -/
theorem max (h : Counts step togo) (h' : Counts step togo') :
    Counts step fun s => Max.max (togo s) (togo' s) := by
  intro s
  dsimp only
  rw [h s, h' s]
  omega

variable (h : Counts step togo)
include h

/-- The number behind `n` steps. -/
theorem iterate (n : ℕ) (s : S) : togo (step^[n] s) = togo s - n := by
  induction n with
  | zero => rfl
  | succ n ih =>
    rw [Function.iterate_succ_apply', h, ih]
    omega

/-- The countdown ends at step `togo s`. -/
theorem iterate_eq_zero_iff {n : ℕ} {s : S} : togo (step^[n] s) = 0 ↔ togo s ≤ n := by
  rw [h.iterate]
  omega

/-- What every step keeps as long as the number is positive holds up to the end. -/
theorem keeps (keep : S → Prop) (hstep : ∀ s, 0 < togo s → keep s → keep (step s)) {s : S}
    (hs : keep s) {n : ℕ} (hn : n ≤ togo s) : keep (step^[n] s) := by
  induction n with
  | zero => exact hs
  | succ n ih =>
    rw [Function.iterate_succ_apply']
    apply hstep
    · rw [h.iterate]
      omega
    · exact ih (by omega)

end Counts

end Countdown
