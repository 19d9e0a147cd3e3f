import Mathlib.Tactic.Ring
import Mathlib.Tactic.Linarith

/-!
# Fixed-width integers as integers

A C integer is represented by the mathematical integer it denotes, and a conversion to a 64-bit or
32-bit type is an explicit reduction. `wrap64` is the conversion to a signed 64-bit type in two's
complement, `toU64` and `toU32` are the conversions to the unsigned types.

The lemmas say where a conversion does nothing, and where it wraps exactly once. No arithmetic in
this development wraps more often than that.
-/

namespace ViTools

/-- Conversion to a signed 64-bit integer. -/
def wrap64 (x : ℤ) : ℤ := (x + 2 ^ 63) % 2 ^ 64 - 2 ^ 63

/-- Conversion to an unsigned 64-bit integer. -/
def toU64 (x : ℤ) : ℕ := (x % 2 ^ 64).toNat

/-- Conversion to an unsigned 32-bit integer. -/
def toU32 (x : ℤ) : ℕ := (x % 2 ^ 32).toNat

theorem wrap64_eq_self {x : ℤ} (hlo : -2 ^ 63 ≤ x) (hhi : x < 2 ^ 63) : wrap64 x = x := by
  rw [wrap64, Int.emod_eq_of_lt (by omega) (by omega)]
  ring

/-- One step past the largest value comes out negative. -/
theorem wrap64_eq_sub {x : ℤ} (hlo : 2 ^ 63 ≤ x) (hhi : x < 2 ^ 64) : wrap64 x = x - 2 ^ 64 := by
  rw [wrap64]
  omega

theorem wrap64_lt (x : ℤ) : wrap64 x < 2 ^ 63 := by
  rw [wrap64]
  omega

theorem toU64_eq_self {x : ℤ} (hlo : 0 ≤ x) (hhi : x < 2 ^ 64) : (toU64 x : ℤ) = x := by
  rw [toU64, Int.emod_eq_of_lt hlo hhi, Int.toNat_of_nonneg hlo]

/-- The signed 64-bit integer with given low 64 bits, read back from its unsigned value. -/
theorem wrap64_toU64 {x : ℤ} (hlo : -2 ^ 63 ≤ x) (hhi : x < 2 ^ 63) :
    wrap64 (toU64 x) = x := by
  rw [toU64, wrap64]
  omega

/-- The unsigned 64-bit integer with given low 64 bits, read back from its signed value. -/
theorem toU64_wrap64 {n : ℕ} (h : n < 2 ^ 64) : toU64 (wrap64 n) = n := by
  rw [toU64, wrap64]
  omega

end ViTools
