import Mathlib.Algebra.Group.Int.Defs
import Mathlib.Algebra.Group.Nat.Defs

/-!
# Fixed-width arithmetic on natural numbers

The conversions and the subtraction of 64-bit unsigned words and 32-bit signed
ones, for values kept as naturals:

* `sub64`: unsigned subtraction, which wraps below zero;
* `narrow`, `widen`: an unsigned word stored in a signed 32-bit integer, and such
  an integer read back in unsigned arithmetic.
-/

namespace Words

/-- Unsigned 64-bit subtraction. -/
def sub64 (a b : Nat) : Nat := if b ≤ a then a - b else a + 2 ^ 64 - b

theorem sub64_of_le {a b : Nat} (h : b ≤ a) : sub64 a b = a - b := by simp [sub64, h]

theorem sub64_of_lt {a b : Nat} (h : a < b) : sub64 a b = a + 2 ^ 64 - b := by
  simp [sub64, Nat.not_le.mpr h]

/-- A 64-bit word stored in a signed 32-bit integer keeps its low half, read in
two's complement. -/
def narrow (n : Nat) : Int := ((n + 2 ^ 31) % 2 ^ 32 : Nat) - 2 ^ 31

/-- A signed integer in unsigned 64-bit arithmetic. -/
def widen (z : Int) : Nat := (z % 2 ^ 64).toNat

/-- Below half the 32-bit range nothing is lost. -/
theorem widen_narrow {n : Nat} (h : n < 2 ^ 31) : widen (narrow n) = n := by
  simp only [widen, narrow]
  omega

/-- From half the 32-bit range on the stored integer is negative, so it reads
back as a word just below `2 ^ 64`. -/
theorem widen_narrow_high {n : Nat} (h : 2 ^ 31 ≤ n) (h' : n < 2 ^ 32) :
    widen (narrow n) = 2 ^ 64 - (2 ^ 32 - n) := by
  simp only [widen, narrow]
  omega

/-- 16-bit subtraction of a natural number. -/
theorem toNat_sub16 (a : UInt16) (n : Nat) :
    (a - UInt16.ofNat n).toNat = (a.toNat + 2 ^ 16 - n % 2 ^ 16) % 2 ^ 16 := by
  rw [UInt16.toNat_sub, UInt16.toNat_ofNat']
  omega

end Words
