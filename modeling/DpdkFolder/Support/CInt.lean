import Mathlib.Algebra.Group.Int.Defs
import Mathlib.Algebra.Group.Nat.Defs
import Mathlib.Data.Int.Cast.Basic

/-!
# The values of a 32-bit C `int`

Arithmetic is carried out in `ℤ` and reduced to the range of an `int`.  In C
an overflow of a signed operation is undefined; a result about the value of
an operation therefore carries the bound under which nothing is reduced.
-/

/-- Reduce an integer to the range of a 32-bit `int`. -/
def cInt (x : ℤ) : ℤ := Int.bmod x (2 ^ 32)

/-- The largest `int`. -/
def intMax : ℤ := 2 ^ 31 - 1

theorem cInt_of_mem_range {x : ℤ} (hlo : -2 ^ 31 ≤ x) (hhi : x ≤ intMax) :
    cInt x = x := by
  simp only [intMax] at hhi
  simp only [cInt, Int.bmod]
  omega

/-- Adding before or after the reduction is the same. -/
theorem cInt_cInt_add (x y : ℤ) : cInt (cInt x + y) = cInt (x + y) :=
  Int.bmod_add_bmod

/-- The value of a counter is at most the number of its increments. -/
theorem cInt_natCast_le (n : ℕ) : cInt (n : ℤ) ≤ n := by
  simp only [cInt, Int.bmod]
  omega

/-! ## Operations that must not overflow -/

/-- The result of an operation on `int`s, which C does not define outside
their range. -/
def intResult (x : ℤ) : Option ℤ :=
  if -2 ^ 31 ≤ x ∧ x ≤ intMax then some x else none

theorem intResult_of_mem_range {x : ℤ} (hlo : -2 ^ 31 ≤ x)
    (hhi : x ≤ intMax) : intResult x = some x :=
  if_pos ⟨hlo, hhi⟩

theorem intResult_natCast {n : ℕ} (h : (n : ℤ) ≤ intMax) :
    intResult n = some (n : ℤ) :=
  intResult_of_mem_range (by omega) h

/-- The product of a number and a constant. -/
theorem intResult_natCast_mul {n k : ℕ} (h : ((k * n : ℕ) : ℤ) ≤ intMax) :
    intResult ((n : ℤ) * k) = some ((k * n : ℕ) : ℤ) := by
  rw [← Int.natCast_mul, Nat.mul_comm, intResult_natCast h]

theorem intResult_of_gt {x : ℤ} (h : intMax < x) : intResult x = none :=
  if_neg (not_and_of_not_right _ (Int.not_le.mpr h))
