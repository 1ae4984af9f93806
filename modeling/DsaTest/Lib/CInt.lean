import Mathlib.Algebra.Ring.Int.Defs
import Mathlib.Algebra.Ring.Nat

/-! Conversions between the integer types of C, taken modulo a power of two. -/
namespace DsaTest.CInt

/-- The value after a conversion to a signed type of `w` bits. -/
def toSigned (w : Nat) (x : Int) : Int := x.bmod (2 ^ w)

/-- The value after a conversion to an unsigned type of `w` bits. -/
def toUnsigned (w : Nat) (x : Int) : Nat := (x % 2 ^ w).toNat

variable {w : Nat} {x : Int}

theorem toSigned_of_fits (lower : -2 ^ w ≤ x) (upper : x < 2 ^ w) : toSigned (w + 1) x = x := by
  unfold toSigned
  apply Int.bmod_eq_of_le_mul_two
  · push_cast
    omega
  · push_cast
    omega

theorem toSigned_eq_zero_iff (lower : 0 ≤ x) (upper : x < 2 ^ w) : toSigned w x = 0 ↔ x = 0 := by
  unfold toSigned
  constructor
  · intro zero
    have divides := Int.dvd_of_bmod_eq_zero zero
    push_cast at divides
    exact Int.eq_zero_of_dvd_of_nonneg_of_lt lower upper divides
  · intro zero
    rw [zero, Int.zero_bmod]

theorem toUnsigned_of_fits (lower : 0 ≤ x) (upper : x < 2 ^ w) : (toUnsigned w x : Int) = x := by
  rw [toUnsigned, Int.emod_eq_of_lt lower upper, Int.toNat_of_nonneg lower]

end DsaTest.CInt
