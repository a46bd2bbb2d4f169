import KS10.Clocked.Run
import Mathlib.Algebra.Group.Nat.Defs

/-!
# The bit rate

The clock enable of a UART comes from a fractional divider: an accumulator to which an increment
is added at every clock, and whose carry is the enable.  The enables are then either never in
two clocks in a row, or never missing in two clocks in a row (`UartBrg.bitRate`).  An enable at
every `n`-th clock has the same property.
-/

namespace KS10

open Clocked

/-- Every clock enable has another one after it, and the spacing is that of a bit rate: there
are never two enables in a row, or there is one at every other clock at least. -/
structure BitRate (clken : Nat → Bool) : Prop where
  again : ∀ t, ∃ u, t ≤ u ∧ clken u = true
  spacing : (∀ t, clken t = true → clken (t + 1) = false) ∨
    ∀ t, clken t = false → clken (t + 1) = true

/-- An enable at every clock. -/
theorem BitRate.always : BitRate fun _ => true := ⟨fun t => ⟨t, Nat.le_refl t, rfl⟩, .inr nofun⟩

/-- An enable at every `n`-th clock. -/
theorem BitRate.every {n : Nat} (hn : 0 < n) (k : Nat) :
    BitRate fun t => decide ((t + k) % n = 0) := by
  refine ⟨fun t => ⟨n * (t + k) + n * k - k, ?_, ?_⟩, ?_⟩
  · have hone : t + k ≤ n * (t + k) := Nat.le_mul_of_pos_left _ hn
    have htwo : k ≤ n * k := Nat.le_mul_of_pos_left _ hn
    omega
  · have htwo : k ≤ n * k := Nat.le_mul_of_pos_left _ hn
    have hmul : n * (t + k) + n * k - k + k = n * (t + k + k) := by
      rw [Nat.mul_add n (t + k) k]
      omega
    rw [hmul, Nat.mul_mod_right]
    rfl
  · by_cases hone : n = 1
    · right
      intro t ht
      rw [hone, Nat.mod_one] at ht
      cases ht
    · left
      intro t ht
      have hzero : (t + k) % n = 0 := of_decide_eq_true ht
      refine decide_eq_false ?_
      rw [Nat.add_right_comm, Nat.add_mod, hzero, Nat.zero_add, Nat.mod_mod,
        Nat.mod_eq_of_lt (by omega)]
      exact Nat.one_ne_zero

/-- UART_BRG. -/
structure UartBrg where
  carry : Bool
  accum : BitVec 32

namespace UartBrg

def reset : UartBrg := { carry := false, accum := 0 }

/-- One clock of the divider with an increment of the table. -/
def next (incr : BitVec 32) (s : UartBrg) : UartBrg where
  carry := decide (2 ^ 32 ≤ s.accum.toNat + incr.toNat)
  accum := s.accum + incr

/-- The enable at a clock after the reset. -/
def clken (incr : BitVec 32) (t : Nat) : Bool :=
  (run (fun s (_ : Unit) => next incr s) reset (fun _ => ()) t).carry

/-- The accumulator at a clock after the reset. -/
def accumAt (incr : BitVec 32) (t : Nat) : Nat :=
  (run (fun s (_ : Unit) => next incr s) reset (fun _ => ()) t).accum.toNat

variable {incr : BitVec 32}

theorem clken_succ (t : Nat) :
    clken incr (t + 1) = decide (2 ^ 32 ≤ accumAt incr t + incr.toNat) := rfl

theorem accumAt_succ (t : Nat) : accumAt incr (t + 1) =
    if clken incr (t + 1) = true then accumAt incr t + incr.toNat - 2 ^ 32
      else accumAt incr t + incr.toNat := by
  have hadd : accumAt incr (t + 1) = (accumAt incr t + incr.toNat) % 2 ^ 32 :=
    BitVec.toNat_add _ _
  have hlt : accumAt incr t < 2 ^ 32 := BitVec.isLt _
  have hincr := incr.isLt
  rw [clken_succ, hadd]
  by_cases hcarry : 2 ^ 32 ≤ accumAt incr t + incr.toNat
  · rw [decide_eq_true hcarry, if_pos rfl]
    omega
  · rw [decide_eq_false hcarry, if_neg Bool.false_ne_true]
    omega

/-- Without a carry the accumulator goes up. -/
theorem accumAt_add {t : Nat} (h : ∀ u, t ≤ u → clken incr u = false) (k : Nat) :
    accumAt incr (t + k) = accumAt incr t + k * incr.toNat := by
  induction k with
  | zero => rw [Nat.zero_mul]; rfl
  | succ k ih =>
      rw [← Nat.add_assoc, accumAt_succ, h (t + k + 1) (by omega), if_neg Bool.false_ne_true, ih,
        Nat.succ_mul, Nat.add_assoc]

/-- The enables of the divider, from the first clock after the reset. -/
theorem bitRate (h : incr ≠ 0) : BitRate fun t => clken incr (t + 1) := by
  have hpos : 0 < incr.toNat := by
    rcases Nat.eq_zero_or_pos incr.toNat with hzero | hpos
    · exact absurd (BitVec.eq_of_toNat_eq hzero) h
    · exact hpos
  refine ⟨fun t => ?_, ?_⟩
  · by_contra hnever
    have hnot : ∀ u, t + 1 ≤ u → clken incr u = false := by
      intro u htu
      rw [← Bool.not_eq_true]
      intro hu
      refine hnever ⟨u - 1, by omega, ?_⟩
      rw [Nat.sub_add_cancel (by omega)]
      exact hu
    have hadd := accumAt_add hnot (2 ^ 32)
    have hlt : accumAt incr (t + 1 + 2 ^ 32) < 2 ^ 32 := BitVec.isLt _
    have hmul : 2 ^ 32 ≤ 2 ^ 32 * incr.toNat := Nat.le_mul_of_pos_right _ hpos
    omega
  · by_cases hhalf : incr.toNat ≤ 2 ^ 31
    · left
      intro t ht
      have hnext : accumAt incr (t + 1) = _ := accumAt_succ t
      have hlt : accumAt incr t < 2 ^ 32 := BitVec.isLt _
      rw [if_pos ht] at hnext
      rw [clken_succ, hnext]
      exact decide_eq_false (by omega)
    · right
      intro t ht
      have hnext : accumAt incr (t + 1) = _ := accumAt_succ t
      rw [ht, if_neg Bool.false_ne_true] at hnext
      rw [clken_succ, hnext]
      exact decide_eq_true (by omega)

end UartBrg

end KS10
