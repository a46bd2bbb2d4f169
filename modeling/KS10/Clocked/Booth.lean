import Mathlib.Algebra.Order.Ring.Int
import Mathlib.Data.Int.Cast.Lemmas
import Mathlib.Data.Nat.Bitwise
import Mathlib.Tactic.LinearCombination
import Mathlib.Tactic.Ring

/-!
# Multiplication by Booth's recoding

The multiplier is read from its low end.  A step subtracts the multiplicand where a run of ones
begins, adds it where the run has ended, and does nothing inside a run: the digit of a bit is
the bit before it less the bit.  Read so, the bits up to the last one are the number in two's
complement that they spell.

The partial product is halved after each step, and the bits that it loses are collected.
-/

namespace Clocked

/-! ## Digits -/

/-- The bit below bit `n`.  There is a zero below the lowest bit. -/
def below (m : Nat) : Nat → Bool
  | 0 => false
  | n + 1 => m.testBit n

/-- The digit of bit `n` of the multiplier. -/
def boothDigit (m n : Nat) : Int := (below m n).toNat - (m.testBit n).toNat

/-- The number that the `n` lowest bits spell, with the sign in the last of them. -/
def spelled (m n : Nat) : Int := (m % 2 ^ n : Nat) - 2 ^ n * (below m n).toNat

theorem spelled_zero (m : Nat) : spelled m 0 = 0 := by
  simp [spelled, below, Nat.mod_one]

theorem mod_two_pow_succ_eq (m n : Nat) :
    m % 2 ^ (n + 1) = m % 2 ^ n + 2 ^ n * (m.testBit n).toNat := by
  rw [Nat.pow_succ, Nat.mod_mul, ← Nat.toNat_testBit]

/-- One more digit. -/
theorem spelled_succ (m n : Nat) : spelled m (n + 1) = spelled m n + boothDigit m n * 2 ^ n := by
  unfold spelled boothDigit
  rw [mod_two_pow_succ_eq, below, pow_succ]
  push_cast
  ring

/-- The digits of the double are those of the number, after a zero. -/
theorem spelled_two_mul (m n : Nat) : spelled (2 * m) (n + 1) = 2 * spelled m n := by
  have hmod : 2 * m % 2 ^ (n + 1) = 2 * (m % 2 ^ n) := by
    rw [Nat.pow_succ, Nat.mul_comm (2 ^ n) 2, Nat.mul_mod_mul_left]
  have hbelow : below (2 * m) (n + 1) = below m n := by
    cases n with
    | zero => simp [below]
    | succ n => simp [below, Nat.testBit_succ]
  unfold spelled
  rw [hmod, hbelow, pow_succ]
  push_cast
  ring

/-- The bits of a register spell the signed number in it. -/
theorem spelled_toNat {w : Nat} (x : BitVec w) : spelled x.toNat w = x.toInt := by
  cases w with
  | zero => rw [spelled_zero, BitVec.toInt_zero_length]
  | succ w =>
      have hbit : below x.toNat (w + 1) = x.msb := by
        rw [BitVec.msb_eq_getLsbD_last]
        rfl
      rw [spelled, hbit, Nat.mod_eq_of_lt x.isLt, BitVec.toInt_eq_msb_cond]
      cases x.msb with
      | false => simp
      | true => simp

/-- Only the bits that are read count. -/
theorem spelled_congr {m m' n : Nat} (h : m % 2 ^ n = m' % 2 ^ n) : spelled m n = spelled m' n := by
  cases n with
  | zero => rw [spelled_zero, spelled_zero]
  | succ n =>
      have hbit : m.testBit n = m'.testBit n := by
        have hm := Nat.testBit_mod_two_pow m (n + 1) n
        have hm' := Nat.testBit_mod_two_pow m' (n + 1) n
        rw [h] at hm
        simpa using hm.symm.trans hm'
      rw [spelled, spelled, h, below, below, hbit]

/-! ## Partial products -/

/-- The product of `M` with `n` bits of the multiplier `m` has been added to `A`.  The partial
product `p` has been halved `n` times, and `c` is what it has lost. -/
structure Multiplied (A M : Int) (m n : Nat) (p : Int) (c : Nat) : Prop where
  sum : p * 2 ^ n + c = A + M * spelled m n
  lost : c < 2 ^ n

namespace Multiplied

variable {A M p : Int} {m n c : Nat}

theorem start (A M : Int) (m : Nat) : Multiplied A M m 0 A 0 where
  sum := by rw [spelled_zero]; simp
  lost := by simp

/-- The partial product with the digit of the next bit. -/
theorem add (h : Multiplied A M m n p c) :
    (p + boothDigit m n * M) * 2 ^ n + c = A + M * spelled m (n + 1) := by
  rw [spelled_succ]
  linear_combination h.sum

/-- One step. -/
theorem step (h : Multiplied A M m n p c) :
    Multiplied A M m (n + 1) ((p + boothDigit m n * M) / 2)
      (c + 2 ^ n * ((p + boothDigit m n * M) % 2).toNat) := by
  have hadd := h.add
  have hlost := h.lost
  generalize p + boothDigit m n * M = f at *
  have hsplit : f = 2 * (f / 2) + f % 2 := (Int.mul_ediv_add_emod f 2).symm
  have hrem : (((f % 2).toNat : Nat) : Int) = f % 2 := Int.toNat_of_nonneg (by omega)
  constructor
  case sum =>
    rw [← hadd]
    push_cast
    rw [hrem, pow_succ]
    linear_combination -(2 : Int) ^ n * hsplit
  case lost =>
    have hone : (f % 2).toNat ≤ 1 := by omega
    have hmul : 2 ^ n * (f % 2).toNat ≤ 2 ^ n * 1 := Nat.mul_le_mul_left _ hone
    rw [Nat.pow_succ]
    omega

end Multiplied

/-- A partial product and a multiplicand within the same bounds stay within them. -/
theorem halved_bounds {B M p d : Int} (hd : d = -1 ∨ d = 0 ∨ d = 1) (hM : -B ≤ M ∧ M < B)
    (hp : -B ≤ p ∧ p < B) :
    (-(2 * B) ≤ p + d * M ∧ p + d * M < 2 * B) ∧
      -B ≤ (p + d * M) / 2 ∧ (p + d * M) / 2 < B := by
  rcases hd with rfl | rfl | rfl
  · omega
  · omega
  · omega

theorem boothDigit_cases (m n : Nat) :
    boothDigit m n = -1 ∨ boothDigit m n = 0 ∨ boothDigit m n = 1 := by
  unfold boothDigit
  cases below m n with
  | false =>
      cases m.testBit n with
      | false => exact .inr (.inl rfl)
      | true => exact .inl rfl
  | true =>
      cases m.testBit n with
      | false => exact .inr (.inr rfl)
      | true => exact .inr (.inl rfl)

end Clocked
