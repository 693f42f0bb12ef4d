import Mathlib.Data.Nat.Bitwise
import Mathlib.Tactic.Common

/-!
# Bytes

## Main results

* `Byte.forall_of_fin`: a property of bytes is checked on the 256 of them
* `Byte.mask_eq_testBit`: a mask with one bit tests that bit
-/

namespace Byte

/-- A property of bytes is checked on the `256` of them. -/
theorem forall_of_fin {P : UInt8 → Prop} (h : ∀ n : Fin 256, P (UInt8.ofNat n)) (b : UInt8) :
    P b := by
  have := h ⟨b.toNat, b.toNat_lt⟩
  rwa [UInt8.ofNat_toNat] at this

/-- A mask with one bit tests that bit. -/
theorem mask_eq_testBit (b : UInt8) (k : Fin 8) :
    (b &&& UInt8.ofNat (2 ^ k.val) != 0) = b.toNat.testBit k := by
  have hpow : 2 ^ k.val < 2 ^ 8 := Nat.pow_lt_pow_right (by decide) k.isLt
  have hmask : (b &&& UInt8.ofNat (2 ^ k.val)).toNat = (b.toNat.testBit k).toNat * 2 ^ k.val := by
    rw [UInt8.toNat_and, UInt8.toNat_ofNat', Nat.mod_eq_of_lt hpow, Nat.and_two_pow]
  have hzero : b &&& UInt8.ofNat (2 ^ k.val) = 0 ↔ b.toNat.testBit k = false := by
    rw [← UInt8.toNat_inj, hmask]
    cases b.toNat.testBit k <;> simp
  cases hbit : b.toNat.testBit k with
  | false => simp [hzero.mpr hbit]
  | true => simpa [hbit] using mt hzero.mp (by simp [hbit])

end Byte
