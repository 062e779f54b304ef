import Mathlib

/-!
# Fixed-width integers

Conversions of mathematical integers to the machine's two's complement types. A value of
type `int` or `int64_t` is an integer in range; converting any integer to the type wraps
it around.
-/

namespace CInt

/-- Conversion to a 32-bit `int`. -/
def toInt32 (n : ℤ) : ℤ := (n + 2 ^ 31) % 2 ^ 32 - 2 ^ 31

/-- Conversion to `int64_t`. -/
def toInt64 (n : ℤ) : ℤ := (n + 2 ^ 63) % 2 ^ 64 - 2 ^ 63

/-- Conversion to `uint64_t`. -/
def toUInt64 (n : ℤ) : ℤ := n % 2 ^ 64

/-- The values of a 32-bit `int`. -/
def FitsInt32 (n : ℤ) : Prop := -2 ^ 31 ≤ n ∧ n < 2 ^ 31

/-- The values of `int64_t`. -/
def FitsInt64 (n : ℤ) : Prop := -2 ^ 63 ≤ n ∧ n < 2 ^ 63

instance (n : ℤ) : Decidable (FitsInt32 n) := inferInstanceAs (Decidable (_ ∧ _))

instance (n : ℤ) : Decidable (FitsInt64 n) := inferInstanceAs (Decidable (_ ∧ _))

theorem fitsInt32_toInt32 (n : ℤ) : FitsInt32 (toInt32 n) := by
  unfold FitsInt32 toInt32
  omega

/-- A conversion keeps exactly the values of the type. -/
theorem toInt32_eq_self_iff {n : ℤ} : toInt32 n = n ↔ FitsInt32 n := by
  constructor
  · intro h
    rw [← h]
    exact fitsInt32_toInt32 n
  · intro h
    unfold FitsInt32 at h
    unfold toInt32
    omega

theorem FitsInt32.fitsInt64 {n : ℤ} (h : FitsInt32 n) : FitsInt64 n := by
  unfold FitsInt32 at h
  unfold FitsInt64
  omega

theorem fitsInt64_toInt64 (n : ℤ) : FitsInt64 (toInt64 n) := by
  simp only [FitsInt64, toInt64]
  omega

end CInt
