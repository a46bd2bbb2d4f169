import KS10.Clocked.Cycle
import KS10.Cpu.Timer
import KS10.Uart.Rate

/-!
# The rate of the ticks

The interval timer and the bit rate generator of the UARTs both add an increment to an
accumulator and tick at the carries.  Both run a divider (`Clocked.Divider`), so that both keep
to the rate of their increment over runs of any length (`fractionalRate`).  The count of the
timer is the number of ticks as long as the timer is enabled (`Timer.count_of_enabled`).
-/

namespace KS10

open Clocked

/-! ## The interval timer -/

namespace Timer

variable {incr : BitVec 32} {s : Timer}

/-- The divider of the timer. -/
def divider (s : Timer) : Divider 32 := ⟨s.accum, s.carry⟩

theorem accum_next {i : In} (hrst : i.rst = false) : (s.next incr i).accum = s.accum + incr := by
  unfold next
  rw [hrst]
  show field (s.divide incr) 1 32 = _
  unfold field divide
  apply BitVec.eq_of_toNat_eq
  simp [BitVec.toNat_add]

theorem carry_next {i : In} (hrst : i.rst = false) :
    (s.next incr i).carry = decide (2 ^ 32 ≤ s.accum.toNat + incr.toNat) := by
  have hlt := s.accum.isLt
  have hincr := incr.isLt
  have hmsb : bit (s.divide incr) 0 = (s.divide incr).msb := rfl
  unfold next
  rw [hrst]
  show bit (s.divide incr) 0 = _
  rw [hmsb, BitVec.msb_eq_decide]
  unfold divide
  rw [BitVec.toNat_add, BitVec.toNat_setWidth, BitVec.toNat_setWidth, decide_eq_decide]
  omega

theorem divider_next {i : In} (hrst : i.rst = false) :
    (s.next incr i).divider = s.divider.next incr := by
  unfold divider Divider.next
  rw [accum_next hrst, carry_next hrst]

/-- From a reset on the divider of the timer runs as a divider. -/
theorem divider_timerAt {i : Nat → In} {n : Nat} (hrst : ∀ t, t < n → (i t).rst = false) :
    (timerAt incr clear i n).divider = (Divider.next incr)^[n] Divider.reset := by
  induction n with
  | zero => rfl
  | succ n ih =>
      have hbefore := ih fun t ht => hrst t (Nat.lt_succ_of_lt ht)
      rw [Function.iterate_succ_apply', ← hbefore]
      exact divider_next (hrst n (Nat.lt_succ_self n))

theorem onRate {i : Nat → In} {n : Nat} (hrst : ∀ t, t < n → (i t).rst = false) :
    OnRate 32 incr.toNat (fun t => (timerAt incr clear i t).timerInc) n := by
  refine Divider.onRate fun t ht => ?_
  rw [← divider_timerAt fun u hu => hrst u (Nat.lt_of_lt_of_le hu ht)]
  rfl

/-- A timer that is always enabled counts its ticks. -/
theorem count_of_enabled {i : Nat → In} {n : Nat} (hrst : ∀ t, t ≤ n → (i t).rst = false)
    (hen : ∀ t, t ≤ n → (i t).timerEn = true) :
    (timerAt incr clear i (n + 1)).count = BitVec.ofNat 12 (n * incr.toNat / 2 ^ 32) := by
  have hcount : ∀ k, k ≤ n + 1 → (timerAt incr clear i k).count =
      BitVec.ofNat 12 (Divider.ticks incr Divider.reset k) := by
    intro k hk
    induction k with
    | zero => rfl
    | succ k ih =>
        have hcarry : (timerAt incr clear i k).carry =
            ((Divider.next incr)^[k] Divider.reset).carry := by
          rw [← divider_timerAt fun t ht => hrst t (by omega)]
          rfl
        have hstep : (timerAt incr clear i (k + 1)).count =
            if (timerAt incr clear i k).carry then (timerAt incr clear i k).count + 1
              else (timerAt incr clear i k).count := by
          show (next incr (timerAt incr clear i k) (i k)).count = _
          unfold next timerInc
          rw [hrst k (by omega), hen k (by omega), Bool.true_and]
          rfl
        rw [hstep, ih (by omega), hcarry, Divider.ticks]
        cases ((Divider.next incr)^[k] Divider.reset).carry with
        | false => rfl
        | true => exact (BitVec.ofNat_add _ 1).symm
  rw [hcount (n + 1) (Nat.le_refl _), Divider.ticks_reset]

end Timer

/-! ## The bit rate generator -/

namespace UartBrg

/-- The bit rate generator is a divider. -/
theorem clken_eq (incr : BitVec 32) (t : Nat) :
    clken incr t = ((Divider.next incr)^[t] Divider.reset).carry := by
  have hrun : ∀ u, run (fun s (_ : Unit) => next incr s) reset (fun _ => ()) u =
      ⟨((Divider.next incr)^[u] Divider.reset).carry,
        ((Divider.next incr)^[u] Divider.reset).accum⟩ := by
    intro u
    induction u with
    | zero => rfl
    | succ u ih =>
        rw [run_succ, ih, Function.iterate_succ_apply']
        rfl
  unfold clken
  rw [hrun]

theorem onRate (incr : BitVec 32) (n : Nat) : OnRate 32 incr.toNat (clken incr) n :=
  Divider.onRate fun t _ => clken_eq incr t

end UartBrg

/-! ## Both -/

/-- Both tick at the rate of the increment. -/
theorem fractionalRate (incr : BitVec 32) (n : Nat) (i : Nat → Timer.In)
    (hrst : ∀ t, t < n → (i t).rst = false) :
    OnRate 32 incr.toNat (fun t => (Timer.timerAt incr Timer.clear i t).timerInc) n ∧
      OnRate 32 incr.toNat (UartBrg.clken incr) n :=
  ⟨Timer.onRate hrst, UartBrg.onRate incr n⟩

theorem fractionalRate_12M5 :
    OnRate 32 Timer.incr12M5.toNat
        (fun t => (Timer.timerAt Timer.incr12M5 Timer.clear Timer.waitsAtOne t).timerInc)
        12500 ∧
      OnRate 32 Timer.incr12M5.toNat (UartBrg.clken Timer.incr12M5) 12500 :=
  fractionalRate Timer.incr12M5 12500 Timer.waitsAtOne fun _ _ => rfl

end KS10
