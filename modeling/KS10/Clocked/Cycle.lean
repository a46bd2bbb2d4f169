import KS10.Clocked.Run
import Mathlib.Algebra.Order.Floor.Semifield
import Mathlib.Data.Nat.Cast.Order.Field
import Mathlib.Data.Nat.Count
import Mathlib.Data.Rat.Floor
import Mathlib.Logic.Function.Iterate

/-!
# Counters that go around

A counter that goes to zero by a test for its last value goes through its values again and
again.  A register may hold a value past the last one, from a time when the last one was
another: the counter then runs over the end of the register, and goes around from there.

`Counter.exists_iterate_eq_zero` and `Counter.iterate_zero` say this of one counter, and
`Stages` of two, where the upper one counts the rounds of the lower one.  The clock of such a
counter often comes from a divider that adds to an accumulator and ticks at the carries
(`Divider`): however small the number that is added, it ticks again and again.  From a reset on
it ticks at the rate that the number says, to less than one tick (`Divider.onRate`).
-/

namespace Clocked

variable {v w : Nat}

/-! ## One counter -/

namespace Counter

/-- The next value of a counter. -/
def next (last x : BitVec w) : BitVec w := if x = last then 0 else x + 1

/-- A counter comes to zero, from any value. -/
theorem exists_iterate_eq_zero (last x : BitVec w) : ∃ k, (next last)^[k] x = 0 := by
  induction hn : 2 ^ w - x.toNat using Nat.strong_induction_on generalizing x with
  | _ n ih =>
      by_cases hlast : x = last
      · exact ⟨1, if_pos hlast⟩
      · have hstep : next last x = x + 1 := if_neg hlast
        have hlt := x.isLt
        have hadd : (x + 1).toNat = (x.toNat + 1) % 2 ^ w := by
          show (x + BitVec.ofNat w 1).toNat = _
          rw [BitVec.toNat_add, BitVec.toNat_ofNat, Nat.add_mod_mod]
        by_cases hend : x.toNat + 1 = 2 ^ w
        · rw [hend, Nat.mod_self] at hadd
          have hzero : x + 1 = 0 := by
            apply BitVec.eq_of_toNat_eq
            rw [hadd]
            exact (Nat.zero_mod _).symm
          exact ⟨1, hstep.trans hzero⟩
        · rw [Nat.mod_eq_of_lt (by omega)] at hadd
          obtain ⟨k, hk⟩ := ih (2 ^ w - (x + 1).toNat) (by omega) (x + 1) rfl
          refine ⟨k + 1, ?_⟩
          rw [Function.iterate_succ_apply, hstep, hk]

theorem succ_mod (m n : Nat) :
    (m + 1) % (n + 1) = if m % (n + 1) = n then 0 else m % (n + 1) + 1 := by
  have hlt := Nat.mod_lt m (Nat.succ_pos n)
  have hsplit : m + 1 = (n + 1) * (m / (n + 1)) + (m % (n + 1) + 1) := by
    rw [← Nat.add_assoc, Nat.div_add_mod]
  rw [hsplit, Nat.mul_add_mod]
  by_cases hend : m % (n + 1) = n
  · rw [if_pos hend, hend, Nat.mod_self]
  · rw [if_neg hend]
    exact Nat.mod_eq_of_lt (Nat.succ_lt_succ (Nat.lt_of_le_of_ne (Nat.le_of_lt_succ hlt) hend))

/-- From zero on a counter counts modulo the number of its values. -/
theorem iterate_zero (last : BitVec w) (m : Nat) :
    (next last)^[m] 0 = BitVec.ofNat w (m % (last.toNat + 1)) := by
  induction m with
  | zero =>
      rw [Nat.zero_mod]
      rfl
  | succ m ih =>
      have hlast := last.isLt
      have hmod : m % (last.toNat + 1) < last.toNat + 1 := Nat.mod_lt m (Nat.succ_pos last.toNat)
      have hnat : (BitVec.ofNat w (m % (last.toNat + 1))).toNat = m % (last.toNat + 1) := by
        rw [BitVec.toNat_ofNat]
        exact Nat.mod_eq_of_lt (by omega)
      rw [Function.iterate_succ_apply', ih, succ_mod]
      unfold next
      by_cases hend : m % (last.toNat + 1) = last.toNat
      · have heq : BitVec.ofNat w (m % (last.toNat + 1)) = last :=
          BitVec.eq_of_toNat_eq (hnat.trans hend)
        rw [if_pos heq, if_pos hend]
        rfl
      · have hne : BitVec.ofNat w (m % (last.toNat + 1)) ≠ last := fun heq =>
          hend (hnat.symm.trans (congrArg BitVec.toNat heq))
        rw [if_neg hne, if_neg hend, BitVec.ofNat_add]
        rfl

end Counter

/-! ## Two counters -/

/-- A counter, and another one that counts its rounds. -/
@[ext]
structure Stages (v w : Nat) where
  lo : BitVec v
  hi : BitVec w

namespace Stages

/-- The next values of both counters. -/
def next (last : BitVec v) (top : BitVec w) (s : Stages v w) : Stages v w where
  lo := Counter.next last s.lo
  hi := if s.lo = last then Counter.next top s.hi else s.hi

variable {last : BitVec v} {top : BitVec w}

theorem iterate_lo (s : Stages v w) (m : Nat) :
    ((next last top)^[m] s).lo = (Counter.next last)^[m] s.lo := by
  induction m with
  | zero => rfl
  | succ m ih =>
      rw [Function.iterate_succ_apply', Function.iterate_succ_apply', ← ih]
      rfl

/-- Within a round the upper counter stays. -/
theorem iterate_hi (h : BitVec w) {m : Nat} (hm : m ≤ last.toNat) :
    ((next last top)^[m] ⟨0, h⟩).hi = h := by
  induction m with
  | zero => rfl
  | succ m ih =>
      have hlast := last.isLt
      have hne : ((next last top)^[m] ⟨0, h⟩).lo ≠ last := by
        intro heq
        have hnat := congrArg BitVec.toNat heq
        rw [iterate_lo, Counter.iterate_zero, Nat.mod_eq_of_lt (by omega), BitVec.toNat_ofNat,
          Nat.mod_eq_of_lt (by omega)] at hnat
        omega
      rw [Function.iterate_succ_apply']
      show (if _ = last then _ else _) = h
      rw [if_neg hne]
      exact ih (Nat.le_of_succ_le hm)

/-- The end of a round. -/
theorem iterate_round (h : BitVec w) :
    (next last top)^[last.toNat + 1] ⟨0, h⟩ = ⟨0, Counter.next top h⟩ := by
  have hlo : ((next last top)^[last.toNat] ⟨0, h⟩).lo = last := by
    rw [iterate_lo, Counter.iterate_zero, Nat.mod_eq_of_lt (Nat.lt_succ_self _),
      BitVec.ofNat_toNat, BitVec.setWidth_eq]
  have hhi : ((next last top)^[last.toNat] ⟨0, h⟩).hi = h := iterate_hi h (Nat.le_refl last.toNat)
  rw [Function.iterate_succ_apply']
  ext1
  · show Counter.next last ((next last top)^[last.toNat] ⟨0, h⟩).lo = 0
    rw [hlo]
    exact if_pos rfl
  · show (if ((next last top)^[last.toNat] ⟨0, h⟩).lo = last then _ else _) = _
    rw [if_pos hlo, hhi]

theorem iterate_rounds (h : BitVec w) (k : Nat) :
    (next last top)^[(last.toNat + 1) * k] ⟨0, h⟩ = ⟨0, (Counter.next top)^[k] h⟩ := by
  induction k with
  | zero => rfl
  | succ k ih =>
      rw [Nat.mul_succ, Nat.add_comm, Function.iterate_add_apply, ih, iterate_round,
        Function.iterate_succ_apply']

/-- Both counters come to zero, from any values. -/
theorem exists_iterate_eq_zero (last : BitVec v) (top : BitVec w) (s : Stages v w) :
    ∃ k, (next last top)^[k] s = ⟨0, 0⟩ := by
  obtain ⟨k, hk⟩ := Counter.exists_iterate_eq_zero last s.lo
  obtain ⟨r, hr⟩ := Counter.exists_iterate_eq_zero top ((next last top)^[k] s).hi
  have hzero : (next last top)^[k] s = ⟨0, ((next last top)^[k] s).hi⟩ := by
    ext1
    · exact (iterate_lo s k).trans hk
    · rfl
  refine ⟨(last.toNat + 1) * r + k, ?_⟩
  rw [Function.iterate_add_apply, hzero, iterate_rounds, hr]

/-- From zero on the upper counter counts the rounds of the lower one. -/
theorem iterate_zero (last : BitVec v) (top : BitVec w) (m : Nat) :
    ((next last top)^[m] ⟨0, 0⟩).hi =
      BitVec.ofNat w (m / (last.toNat + 1) % (top.toNat + 1)) := by
  have hlt : m % (last.toNat + 1) < last.toNat + 1 := Nat.mod_lt m (Nat.succ_pos last.toNat)
  have hsplit : m = m % (last.toNat + 1) + (last.toNat + 1) * (m / (last.toNat + 1)) :=
    (Nat.mod_add_div m (last.toNat + 1)).symm
  rw [← Counter.iterate_zero, hsplit, Function.iterate_add_apply, iterate_rounds,
    iterate_hi _ (Nat.le_of_lt_succ hlt), ← hsplit]

end Stages

/-! ## A divider -/

/-- An accumulator, and the carry of the last sum. -/
structure Divider (w : Nat) where
  accum : BitVec w
  carry : Bool

namespace Divider

/-- One clock: a number is added. -/
def next (incr : BitVec w) (s : Divider w) : Divider w where
  accum := s.accum + incr
  carry := decide (2 ^ w ≤ s.accum.toNat + incr.toNat)

/-- The ticks in a number of clocks. -/
def ticks (incr : BitVec w) (s : Divider w) : Nat → Nat
  | 0 => 0
  | n + 1 => ticks incr s n + ((next incr)^[n] s).carry.toNat

variable {incr : BitVec w} {s : Divider w}

theorem accum_add_carry (s : Divider w) :
    (s.next incr).accum.toNat + 2 ^ w * (s.next incr).carry.toNat =
      s.accum.toNat + incr.toNat := by
  have hlt := s.accum.isLt
  have hlt' := incr.isLt
  show (s.accum + incr).toNat + 2 ^ w * (decide (2 ^ w ≤ s.accum.toNat + incr.toNat)).toNat = _
  rw [BitVec.toNat_add]
  by_cases hcarry : 2 ^ w ≤ s.accum.toNat + incr.toNat
  · rw [decide_eq_true hcarry, Nat.mod_eq_sub_mod hcarry, Nat.mod_eq_of_lt (by omega),
      Bool.toNat_true, Nat.mul_one, Nat.sub_add_cancel hcarry]
  · rw [decide_eq_false hcarry, Nat.mod_eq_of_lt (Nat.lt_of_not_le hcarry), Bool.toNat_false,
      Nat.mul_zero, Nat.add_zero]

/-- What has been added is in the accumulator and in the ticks. -/
theorem accum_add_ticks (n : Nat) :
    ((next incr)^[n] s).accum.toNat + 2 ^ w * (ticks incr s n + ((next incr)^[n] s).carry.toNat) =
      s.accum.toNat + 2 ^ w * s.carry.toNat + n * incr.toNat := by
  induction n with
  | zero =>
      rw [ticks, Nat.zero_add, Nat.zero_mul, Nat.add_zero]
      rfl
  | succ n ih =>
      have hsucc : (next incr)^[n + 1] s = next incr ((next incr)^[n] s) :=
        Function.iterate_succ_apply' _ _ _
      have hnext : ((next incr)^[n + 1] s).accum.toNat +
          2 ^ w * ((next incr)^[n + 1] s).carry.toNat =
          ((next incr)^[n] s).accum.toNat + incr.toNat := by
        rw [hsucc]
        exact accum_add_carry _
      rw [Nat.succ_mul, ← Nat.add_assoc, ← ih, ticks, Nat.mul_add, Nat.mul_add]
      omega

/-- The divider ticks again and again. -/
theorem exists_ticks (hincr : incr ≠ 0) (k : Nat) : ∃ n, k ≤ ticks incr s n := by
  have hpos : 0 < incr.toNat := by
    rw [Nat.pos_iff_ne_zero]
    exact fun hzero => hincr (BitVec.eq_of_toNat_eq hzero)
  refine ⟨2 ^ w * (k + 2), ?_⟩
  have hsum : ((next incr)^[2 ^ w * (k + 2)] s).accum.toNat + 2 ^ w *
      (ticks incr s (2 ^ w * (k + 2)) + ((next incr)^[2 ^ w * (k + 2)] s).carry.toNat) =
      s.accum.toNat + 2 ^ w * s.carry.toNat + 2 ^ w * (k + 2) * incr.toNat :=
    accum_add_ticks _
  have hlt := ((next incr)^[2 ^ w * (k + 2)] s).accum.isLt
  have hcarry := Bool.toNat_le ((next incr)^[2 ^ w * (k + 2)] s).carry
  have hmul : 2 ^ w * (k + 2) ≤ 2 ^ w * (k + 2) * incr.toNat := Nat.le_mul_of_pos_right _ hpos
  by_contra hnot
  have hticks : ticks incr s (2 ^ w * (k + 2)) +
      ((next incr)^[2 ^ w * (k + 2)] s).carry.toNat ≤ k := by omega
  have hle := Nat.mul_le_mul_left (2 ^ w) hticks
  have htwo : 2 ^ w * (k + 2) = 2 ^ w * k + 2 ^ w * 2 := Nat.mul_add _ _ _
  omega

theorem ticks_le (n : Nat) : ticks incr s n ≤ n := by
  induction n with
  | zero => exact Nat.le_refl 0
  | succ n ih => exact Nat.add_le_add ih (Bool.toNat_le _)

/-- No number of ticks is left out. -/
theorem exists_ticks_eq (hincr : incr ≠ 0) (k : Nat) : ∃ n, ticks incr s n = k := by
  obtain ⟨n, hn, hfirst⟩ := exists_first (exists_ticks (s := s) hincr k)
  cases n with
  | zero => exact ⟨0, Nat.le_antisymm (Nat.zero_le k) hn⟩
  | succ n =>
      have hbefore := hfirst n (Nat.lt_succ_self n)
      have hcarry := Bool.toNat_le ((next incr)^[n] s).carry
      refine ⟨n + 1, ?_⟩
      rw [ticks] at hn ⊢
      omega

/-! ## The rate of a divider -/

def reset : Divider w := ⟨0, false⟩

/-- After a reset the carries of `n` additions are as many as there are whole powers in the sum.
The last one is seen in the clock after it. -/
theorem ticks_reset (n : Nat) : ticks incr reset (n + 1) = n * incr.toNat / 2 ^ w := by
  have hzero : (reset (w := w)).accum.toNat + 2 ^ w * (reset (w := w)).carry.toNat = 0 := by
    show (BitVec.ofNat w 0).toNat + 2 ^ w * 0 = 0
    rw [Nat.mul_zero, BitVec.toNat_ofNat, Nat.zero_mod]
  have hsum : ((next incr)^[n] reset).accum.toNat + 2 ^ w * ticks incr reset (n + 1) =
      n * incr.toNat := by
    rw [← Nat.zero_add (n * incr.toNat), ← hzero]
    exact accum_add_ticks n
  have hlt := ((next incr)^[n] reset).accum.isLt
  rw [← hsum, Nat.add_mul_div_left _ _ (Nat.two_pow_pos w), Nat.div_eq_of_lt hlt, Nat.zero_add]

theorem ticks_eq_count (n : Nat) :
    ticks incr s n = Nat.count (fun t => ((next incr)^[t] s).carry = true) n := by
  induction n with
  | zero => rfl
  | succ n ih =>
      rw [ticks, Nat.count_succ, ih]
      cases ((next incr)^[n] s).carry <;> rfl

end Divider

/-- The ticks that a register shows after a reset, for `n` clocks, each one clock after the
addition that carries. -/
structure OnRate (w incr : Nat) (tick : Nat → Bool) (n : Nat) : Prop where
  first : tick 0 = false
  count : Nat.count (fun t => tick (t + 1) = true) n = n * incr / 2 ^ w
  /-- The ideal number of ticks is never off by as much as one. -/
  drift : |(Nat.count (fun t => tick (t + 1) = true) n : ℚ) - n * incr / 2 ^ w| < 1

/-- A quotient is less than one off when it is rounded down. -/
theorem abs_div_sub_lt_one (m d : Nat) : |((m / d : Nat) : ℚ) - m / d| < 1 := by
  have hle : ((m / d : Nat) : ℚ) ≤ m / d := Nat.cast_div_le
  have hlt : (m : ℚ) / d < (m / d : Nat) + 1 := by
    rw [← Nat.floor_div_eq_div (K := ℚ) m d]
    exact Nat.lt_floor_add_one _
  rw [abs_sub_comm, abs_of_nonneg (sub_nonneg.mpr hle)]
  exact sub_lt_iff_lt_add'.mpr hlt

/-- Registers that show the carries of a divider tick at its rate. -/
theorem Divider.onRate {incr : BitVec w} {tick : Nat → Bool} {n : Nat}
    (h : ∀ t, t ≤ n → tick t = ((next incr)^[t] reset).carry) :
    OnRate w incr.toNat tick n := by
  have hfirst : tick 0 = false := h 0 (Nat.zero_le n)
  have hcount : ∀ k, k ≤ n →
      Nat.count (fun t => tick (t + 1) = true) k = k * incr.toNat / 2 ^ w := by
    intro k hk
    have hshift : Nat.count (fun t => tick t = true) (k + 1) =
        Nat.count (fun t => tick (t + 1) = true) k := by
      rw [Nat.count_succ', if_neg (by rw [hfirst]; exact Bool.false_ne_true), Nat.add_zero]
    have hsame : Nat.count (fun t => tick t = true) (k + 1) =
        Nat.count (fun t => ((next incr)^[t] reset).carry = true) (k + 1) := by
      rw [Nat.count_eq_card_filter_range, Nat.count_eq_card_filter_range]
      refine congrArg Finset.card (Finset.filter_congr fun t ht => ?_)
      rw [h t (Nat.le_trans (Nat.lt_succ_iff.mp (Finset.mem_range.mp ht)) hk)]
    rw [← hshift, hsame, ← ticks_eq_count, ticks_reset]
  refine ⟨hfirst, hcount n (Nat.le_refl n), ?_⟩
  have hdrift := abs_div_sub_lt_one (n * incr.toNat) (2 ^ w)
  rw [hcount n (Nat.le_refl n)]
  rwa [Nat.cast_mul, Nat.cast_pow, Nat.cast_ofNat] at hdrift

end Clocked
