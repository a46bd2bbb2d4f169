import Mathlib.Algebra.Order.Ring.Int
import Mathlib.Tactic.Linarith
import Mathlib.Tactic.LinearCombination

/-!
# Division without restoring

A division of this kind subtracts the divisor from the remainder while it is not negative, and
adds it otherwise.  The sign of the remainder is the next bit of the quotient, but a step behind:
the remainder is what is left after one half of a unit more than the quotient collected so far.
-/

namespace Clocked

/-- The division by `d` has taken in the dividend `n` and collected the quotient `q`, and `r` is
its remainder. -/
structure Divided (d n q : Nat) (r : Int) : Prop where
  sum : r + d * (2 * q + 1) = n
  lower : -d ≤ r
  upper : r < d

/-- The bit that the remainder adds to the quotient. -/
def bitOf (r : Int) : Nat := if 0 ≤ r then 1 else 0

/-- The remainder after one more bit `t` of the dividend. -/
def stepOf (d : Nat) (r : Int) (t : Nat) : Int :=
  2 * r + t + if 0 ≤ r then -(d : Int) else d

namespace Divided

variable {d n q : Nat} {r : Int}

theorem first (h : n < d) : Divided d n 0 (n - d) where
  sum := by
    simp only [Nat.cast_zero, Int.mul_zero, Int.zero_add, Int.mul_one]
    omega
  lower := by omega
  upper := by omega

/-- The first subtraction may also leave a remainder: then the quotient has one bit more. -/
theorem start (h : n < 2 * d) : Divided d n 0 (n - d) where
  sum := by
    simp only [Nat.cast_zero, Int.mul_zero, Int.zero_add, Int.mul_one]
    omega
  lower := by omega
  upper := by omega

/-- One more bit. -/
theorem step (h : Divided d n q r) {t : Nat} (ht : t ≤ 1) :
    Divided d (2 * n + t) (2 * q + bitOf r) (stepOf d r t) := by
  have hsum := h.sum
  have hlower := h.lower
  have hupper := h.upper
  unfold bitOf stepOf
  by_cases hr : 0 ≤ r
  · rw [if_pos hr, if_pos hr]
    refine ⟨?_, by omega, by omega⟩
    push_cast
    linear_combination 2 * hsum
  · rw [if_neg hr, if_neg hr]
    refine ⟨?_, by omega, by omega⟩
    push_cast
    linear_combination 2 * hsum

/-- With the bit of the remainder, the quotient is that of the dividend. -/
theorem quotient (h : Divided d n q r) : n / d = 2 * q + bitOf r := by
  have hsum := h.sum
  have hlower := h.lower
  have hupper := h.upper
  refine Nat.div_eq_of_lt_le ?_ ?_
  · have hle : ((2 * q + bitOf r : Nat) : Int) * d ≤ n := by
      unfold bitOf
      split
      · push_cast
        linarith
      · push_cast
        linarith
    exact_mod_cast hle
  · have hlt : (n : Int) < ((2 * q + bitOf r + 1 : Nat) : Int) * d := by
      unfold bitOf
      split
      · push_cast
        linarith
      · push_cast
        linarith
    exact_mod_cast hlt

/-- With the divisor added if it is negative, the remainder is that of the dividend. -/
theorem remainder (h : Divided d n q r) :
    (if r < 0 then r + d else r) = (n % d : Nat) := by
  have hsum := h.sum
  have hquotient := h.quotient
  have hdivmod : ((d * (n / d) + n % d : Nat) : Int) = n := by rw [Nat.div_add_mod]
  rw [hquotient, bitOf] at hdivmod
  by_cases hr : 0 ≤ r
  · rw [if_pos hr] at hdivmod
    rw [if_neg (by omega)]
    push_cast at hdivmod ⊢
    linarith
  · rw [if_neg hr] at hdivmod
    rw [if_pos (by omega)]
    push_cast at hdivmod ⊢
    linarith

end Divided

end Clocked
