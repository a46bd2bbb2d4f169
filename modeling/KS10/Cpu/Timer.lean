import KS10.Cpu.Microword
import KS10.Clocked.Enable

/-!
# The interval timer

A fractional divider makes the timer clock: the accumulator takes the increment at
every clock, and each carry is one count.  The interrupt is set on the falling edge
of the most significant bit of the 12-bit count, that is on its overflow.

The divider, the count and the edge detector run on every clock, and the interrupt
flip-flop only on enabled ones, so the edge is there for one clock and the
interrupt may not see it.
-/

namespace KS10

open Clocked Microword

/-! ## Inputs and registers -/

structure Timer.In where
  rst : Bool
  clken : Bool
  crom : Microword
  timerEn : Bool

structure Timer where
  accum : BitVec 32
  carry : Bool
  count : BitVec 12
  lastMsb : Bool
  timerIntr : Bool
  deriving DecidableEq

namespace Timer

/-- The timer after a reset. -/
def clear : Timer where
  accum := 0
  carry := false
  count := 0
  lastMsb := false
  timerIntr := false

def timerRst (i : In) : Bool := spec10 i.crom 1

/-- Accumulator and carry after one more increment. -/
def divide (s : Timer) (incr : BitVec 32) : BitVec 33 :=
  s.accum.setWidth 33 + incr.setWidth 33

def timerInc (s : Timer) : Bool := s.carry

def currMsb (s : Timer) : Bool := bit s.count 0

/-- One clock of the timer.  The increment is fixed by the clock frequency. -/
def next (incr : BitVec 32) (s : Timer) (i : In) : Timer :=
  if i.rst then clear
  else
    { accum := field (s.divide incr) 1 32
      carry := bit (s.divide incr) 0
      count := if i.timerEn && s.timerInc then s.count + 1 else s.count
      lastMsb := s.currMsb
      timerIntr :=
        if i.clken then
          if timerRst i then false
          else if i.timerEn && !s.currMsb && s.lastMsb then true
          else s.timerIntr
        else s.timerIntr }

/-- The count on the datapath.  Its two low order bits are not used. -/
def timerCount (s : Timer) : BitVec 18 := (0 : BitVec 6) ++ field s.count 0 9 ++ (0 : BitVec 2)

/-- The registers after `t` clocks. -/
def timerAt (incr : BitVec 32) (s : Timer) (i : Nat → In) (t : Nat) : Timer :=
  run (next incr) s i t

/-! ## Ticks -/

/-- The count overflows at this clock. -/
def overflows (s : Timer) (i : In) : Bool :=
  !i.rst && i.timerEn && s.timerInc && s.count == 0o7777

/-- The interrupt flip-flop loads at this clock. -/
def samples (i : In) : Bool := i.rst || i.clken

/-- A reset of the interrupt is executed. -/
def resets (i : In) : Bool := i.rst || (i.clken && timerRst i)

/-- No tick is lost: the first clock enabled after an overflow finds the interrupt
set or sets it, and it stays set until a reset is executed. -/
def KeepsTicks (incr : BitVec 32) (s : Timer) (i : Nat → In) : Prop :=
  ∀ t e u, (timerAt incr s i t).overflows (i t) = true →
    FirstFrom (fun v => samples (i v) = true) (t + 1) e → e < u →
    (∀ v, t < v → v < u → resets (i v) = false) → (timerAt incr s i u).timerIntr = true

/-! ## The edge detector -/

section Step

variable {incr : BitVec 32} {s : Timer} {i : In}

theorem bit_zero_eq (c : BitVec 12) : bit c 0 = decide (2048 ≤ c.toNat) := by
  have hmsb : bit c 0 = c.msb := rfl
  rw [hmsb, BitVec.msb_eq_decide]

/-- Counting up, the most significant bit falls on the overflow only. -/
theorem msb_falls_iff {c : BitVec 12} {b : Bool} :
    (!bit (if b then c + 1 else c) 0 && bit c 0) = (b && c == 0o7777) := by
  cases b with
  | false => simp
  | true =>
      have hlt : c.toNat < 4096 := c.isLt
      have hsucc : (c + 1).toNat = (c.toNat + 1) % 4096 := by simp [BitVec.toNat_add]
      have hlast : c = 0o7777 ↔ c.toNat = 4095 := by
        rw [← BitVec.toNat_inj]
        rfl
      rw [if_pos rfl, bit_zero_eq, bit_zero_eq, hsucc, Bool.true_and, Bool.eq_iff_iff]
      simp only [Bool.and_eq_true, Bool.not_eq_true', decide_eq_false_iff_not,
        decide_eq_true_eq, beq_iff_eq, hlast]
      omega

/-- The edge of a clock is the overflow of the clock before. -/
theorem edge_iff_overflows (hrst : i.rst = false) :
    (!(next incr s i).currMsb && (next incr s i).lastMsb) = s.overflows i := by
  simp only [next, hrst, Bool.false_eq_true, if_false, currMsb, overflows, Bool.not_false,
    Bool.true_and]
  exact msb_falls_iff

/-- An enabled clock without a reset sets the interrupt on the edge. -/
theorem timerIntr_next (hs : samples i = true) (hr : resets i = false) :
    (next incr s i).timerIntr = (s.timerIntr || (i.timerEn && (!s.currMsb && s.lastMsb))) := by
  simp only [resets, Bool.or_eq_false_iff] at hr
  simp only [samples, hr.1, Bool.false_or] at hs
  have hrst : timerRst i = false := by simpa [hs] using hr.2
  simp only [next, hr.1, hs, hrst, Bool.false_eq_true, if_false, if_true, Bool.and_assoc]
  cases i.timerEn && (!s.currMsb && s.lastMsb) with
  | false => simp
  | true => simp

theorem timerIntr_of_not_samples (h : samples i = false) :
    (next incr s i).timerIntr = s.timerIntr := by
  simp only [samples, Bool.or_eq_false_iff] at h
  simp [next, h.1, h.2]

/-- Only an executed reset clears the interrupt. -/
theorem timerIntr_stays (hset : s.timerIntr = true) (hr : resets i = false) :
    (next incr s i).timerIntr = true := by
  cases hs : samples i with
  | false => rw [timerIntr_of_not_samples hs, hset]
  | true => rw [timerIntr_next hs hr, hset, Bool.true_or]

theorem not_samples_of_resets (h : samples i = false) : resets i = false := by
  simp only [samples, Bool.or_eq_false_iff] at h
  simp [resets, h.1, h.2]

end Step

section Run

variable {incr : BitVec 32} {s : Timer} {i : Nat → In}

/-- What the first clock enabled after an overflow does, without a reset. -/
theorem timerIntr_first {t e : Nat} (hover : (timerAt incr s i t).overflows (i t) = true)
    (he : FirstFrom (fun v => samples (i v) = true) (t + 1) e) (hr : resets (i e) = false) :
    (timerAt incr s i (e + 1)).timerIntr = ((timerAt incr s i e).timerIntr ||
      ((i e).timerEn && (timerAt incr s i (e - 1)).overflows (i (e - 1)))) := by
  obtain ⟨v, rfl⟩ : ∃ v, e = v + 1 := ⟨e - 1, by have := he.le; omega⟩
  have hrst : (i v).rst = false := by
    by_cases hv : v = t
    · subst hv
      simp only [overflows, Bool.and_eq_true, Bool.not_eq_true'] at hover
      exact hover.1.1.1
    · have hnot : ¬ samples (i v) = true :=
        he.none v (by have := he.le; omega) (Nat.lt_succ_self v)
      simp only [samples, Bool.or_eq_true, not_or, Bool.not_eq_true] at hnot
      exact hnot.1
  have hnext : (timerAt incr s i (v + 1 + 1)).timerIntr =
      ((timerAt incr s i (v + 1)).timerIntr || ((i (v + 1)).timerEn &&
        (!(timerAt incr s i (v + 1)).currMsb && (timerAt incr s i (v + 1)).lastMsb))) :=
    timerIntr_next he.holds hr
  have hedge : (!(timerAt incr s i (v + 1)).currMsb && (timerAt incr s i (v + 1)).lastMsb) =
      (timerAt incr s i v).overflows (i v) := edge_iff_overflows hrst
  rw [hnext, hedge, Nat.add_sub_cancel]

end Run

/-- Ticks are kept in exactly those runs in which the first clock enabled after an
overflow comes right after it, or right after a later one, with the timer still
enabled, unless the interrupt is pending then or a reset is executed. -/
theorem keepsTicks_iff (incr : BitVec 32) (s : Timer) (i : Nat → In) :
    KeepsTicks incr s i ↔ ∀ t e, (timerAt incr s i t).overflows (i t) = true →
      FirstFrom (fun v => samples (i v) = true) (t + 1) e → resets (i e) = false →
      (timerAt incr s i e).timerIntr = true ∨
        ((i e).timerEn = true ∧ (timerAt incr s i (e - 1)).overflows (i (e - 1)) = true) := by
  constructor
  · intro hkeeps t e hover he hr
    have hset : (timerAt incr s i (e + 1)).timerIntr = true := by
      refine hkeeps t e (e + 1) hover he (Nat.lt_succ_self e) fun v htv hve => ?_
      by_cases hv : v = e
      · exact hv ▸ hr
      · have hnot : ¬ samples (i v) = true := he.none v htv (by omega)
        rw [Bool.not_eq_true] at hnot
        exact not_samples_of_resets hnot
    rw [timerIntr_first hover he hr] at hset
    simpa using hset
  · intro hmeets t e u hover he heu hnone
    have hr : resets (i e) = false := hnone e he.le heu
    have hset : (timerAt incr s i (e + 1)).timerIntr = true := by
      rw [timerIntr_first hover he hr]
      simpa using hmeets t e hover he hr
    exact stays_until (C := fun v => resets (i v) = false)
      (P := fun v => (timerAt incr s i v).timerIntr = true)
      (fun v hv hC => timerIntr_stays hv hC) hset heu
      fun v hev hvu => hnone v (by have := he.le; omega) hvu

/-! ## A tick during a bus wait

With the increment of a 12.5 MHz clock, a timer enabled since a reset comes to this
state at clock 12488.  The count overflows, and the processor waits for the bus at
the clock after. -/

/-- Two to the power of 32 times 4.1 MHz over 12.5 MHz. -/
def incr12M5 : BitVec 32 := 1408749273

/-- Enabled at every clock but clock 1. -/
def waitsAtOne (t : Nat) : In := ⟨false, t != 1, 0, true⟩

/-- About to overflow. -/
def atLastCount : Timer where
  accum := 274876808
  carry := true
  count := 0o7777
  lastMsb := true
  timerIntr := false

theorem keepsTicks_fails : ¬ ∀ incr s i, KeepsTicks incr s i := by
  intro h
  have he : FirstFrom (fun v => samples (waitsAtOne v) = true) (0 + 1) 2 := by
    refine ⟨by decide, by decide, fun v hle hlt => ?_⟩
    obtain rfl : v = 1 := by omega
    decide
  have hnone (v : Nat) : resets (waitsAtOne v) = false := by
    have hrst : timerRst (waitsAtOne v) = false := by
      show spec10 0 1 = false
      decide
    rw [resets, hrst, Bool.and_false]
    rfl
  have hset := h incr12M5 atLastCount waitsAtOne 0 2 3 (by decide) he (by decide)
    fun v _ _ => hnone v
  revert hset
  decide

end Timer

end KS10
