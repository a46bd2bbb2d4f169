import KS10.Cpu.RunControl
import KS10.Clocked.Strobe

/-!
# Does a console switch act once?

The console writes RUN, CONT and EXEC with one write of its control register.  The
write strobe goes through a synchronizer and then is a level: the flip-flops load the
switch at every enabled clock of it.  A processor that is stalled throughout does
not see the write, and one that clears the flag during the write may see it twice.
-/

namespace KS10

open Clocked Microword

namespace RunControl

/-! ## A write of the control register -/

/-- The console strobes a write of the control register for `n` clocks from clock `a`
on.  Address and data are there until the synchronized strobe is over. -/
structure Write (i : Nat → In) (a n : Nat) (data : BitVec 16) : Prop where
  two : 2 ≤ n
  quiet : ∀ t, a ≤ t → t < a + n + 2 → (i t).rst = false
  strobe : ∀ t, a ≤ t → t < a + n → (i t).conWrN = false ∧ (i t).conBleN = false
  addr : ∀ t, a ≤ t → t < a + n + 2 → cslAddr (i t) = 0x10
  data : ∀ t, a ≤ t → t < a + n + 2 → (i t).conData = data

/-- The flip-flops the console writes. -/
inductive Switch where
  | run
  | cont
  | exec
  deriving DecidableEq

namespace Switch

def flag (s : RunControl) : Switch → Bool
  | run => s.cpuRun
  | cont => s.cpuCont
  | exec => s.cpuExec

/-- What clears the flip-flop: the microcode, and for RUN the breakpoint as well. -/
def clears (s : RunControl) (i : In) : Switch → Bool
  | run => clrRun i || s.debugHalt
  | cont => clrCont i
  | exec => clrExec i

/-- The value written. -/
def written (data : BitVec 16) : Switch → Bool
  | run => data.getLsbD 7
  | cont => data.getLsbD 6
  | exec => data.getLsbD 5

end Switch

/-- The flip-flop along the run. -/
def flagAt (s : RunControl) (i : Nat → In) (w : Switch) (t : Nat) : Bool :=
  Switch.flag (runAt s i t) w

/-- The clears along the run. -/
def clearsAt (s : RunControl) (i : Nat → In) (w : Switch) (t : Nat) : Bool :=
  Switch.clears (runAt s i t) (i t) w

/-- The write acts on the flip-flop exactly once, during the synchronized strobe. -/
def SwitchesOnce (s : RunControl) (i : Nat → In) (a n : Nat) (data : BitVec 16)
    (w : Switch) : Prop :=
  ActsOnce (flagAt s i w) (enabledAt s i) (clearsAt s i w) (Switch.written data w)
    (a + 2) (a + n + 2)

/-! ## The strobe -/

section Step

variable {s : RunControl} {i : In}

theorem next_flag (hrst : i.rst = false) (w : Switch) :
    Switch.flag (next s i) w = s.nextSwitch i (Switch.flag s w) (Switch.clears s i w)
      (Switch.written i.conData w) := by
  rw [next, if_neg (by simp [hrst])]
  cases w with
  | run => rfl
  | cont => rfl
  | exec => rfl

theorem next_syncWr (hrst : i.rst = false) :
    (next s i).syncWr = s.syncWr.next (!i.conWrN) := by
  rw [next, if_neg (by simp [hrst])]

theorem next_syncBle (hrst : i.rst = false) :
    (next s i).syncBle = s.syncBle.next (!i.conBleN) := by
  rw [next, if_neg (by simp [hrst])]

end Step

section Run

variable {s : RunControl} {i : Nat → In} {a n : Nat} {data : BitVec 16}

/-- The synchronizer is two clocks behind. -/
theorem Write.cslSet (h : Write i a n data) {t : Nat} (hat : a + 2 ≤ t) (hta : t < a + n + 2) :
    (runAt s i t).cslSet (i t) = true := by
  obtain ⟨u, rfl⟩ : ∃ u, t = u + 2 := ⟨t - 2, by omega⟩
  have hrst : (i u).rst = false := h.quiet u (by omega) (by omega)
  have hrst' : (i (u + 1)).rst = false := h.quiet (u + 1) (by omega) (by omega)
  obtain ⟨hwr, hble⟩ := h.strobe u (by omega) (by omega)
  have haddr : cslAddr (i (u + 2)) = 0x10 := h.addr (u + 2) (by omega) hta
  have hsyncWr : (runAt s i (u + 2)).syncWr.o = true := by
    have hfirst : (runAt s i (u + 1)).syncWr.d = true := by
      rw [runAt, run_succ, next_syncWr hrst, hwr]
      rfl
    rw [runAt, run_succ, next_syncWr hrst']
    exact hfirst
  have hsyncBle : (runAt s i (u + 2)).syncBle.o = true := by
    have hfirst : (runAt s i (u + 1)).syncBle.d = true := by
      rw [runAt, run_succ, next_syncBle hrst, hble]
      rfl
    rw [runAt, run_succ, next_syncBle hrst']
    exact hfirst
  rw [RunControl.cslSet, hsyncWr, hsyncBle, haddr]
  rfl

/-- During the synchronized strobe a switch drives its flip-flop. -/
theorem Write.driven (h : Write i a n data) (w : Switch) :
    Driven (flagAt s i w) (enabledAt s i) (clearsAt s i w) (Switch.written data w)
      (a + 2) (a + n + 2) := by
  intro t hat hta
  have hrst : (i t).rst = false := h.quiet t (by omega) hta
  have hnext : flagAt s i w (t + 1) = (runAt s i t).nextSwitch (i t) (flagAt s i w t)
      (clearsAt s i w t) (Switch.written (i t).conData w) := next_flag hrst w
  rw [hnext, h.data t (by omega) hta, nextSwitch, h.cslSet hat hta, if_pos rfl]
  rfl

end Run

/-- A write that resets a switch acts once in exactly those runs in which a clock of
the strobe is enabled.  A write that sets a switch needs an enabled clock without a
clear of the flip-flop, and must not find the flip-flop cleared between two more. -/
theorem switchesOnce_iff (s : RunControl) (i : Nat → In) (a n : Nat) (data : BitVec 16)
    (h : Write i a n data) :
    (∀ w, SwitchesOnce s i a n data w) ↔ ∀ w,
      if Switch.written data w then
        (∃ c, EnabledIn (enabledAt s i) (a + 2) (a + n + 2) c ∧ clearsAt s i w c = false) ∧
          ¬ SetsAgain (flagAt s i w) (enabledAt s i) (clearsAt s i w) (a + 2) (a + n + 2)
      else ∃ c, EnabledIn (enabledAt s i) (a + 2) (a + n + 2) c := by
  refine forall_congr' fun w => ?_
  have hdriven : Driven (flagAt s i w) (enabledAt s i) (clearsAt s i w)
      (Switch.written data w) (a + 2) (a + n + 2) := h.driven w
  unfold SwitchesOnce
  cases hw : Switch.written data w with
  | true =>
      rw [if_pos rfl]
      rw [hw] at hdriven
      exact actsOnce_true_iff hdriven
  | false =>
      rw [if_neg Bool.false_ne_true]
      rw [hw] at hdriven
      exact actsOnce_false_iff hdriven

/-! ## A write to a processor that waits for the bus -/

/-- The console strobes for two clocks and sets all three switches. -/
def writesSwitches (busWait : Bool) (t : Nat) : In where
  rst := false
  crom := 0
  feSign := false
  busWait := busWait
  cpuAddr := 0
  regDbar := 0
  regDbmr := 0
  regBrcmd := 0
  regBrcmdWr := false
  trFull := false
  conWrN := !(t < 2)
  conBleN := !(t < 2)
  conAddr := 0x10
  conData := 0xe0

theorem writesSwitches_write (busWait : Bool) : Write (writesSwitches busWait) 0 2 0xe0 where
  two := by decide
  quiet := fun _ _ _ => rfl
  strobe := fun t _ hlt => by
    have hlt' : t < 2 := by omega
    simp [writesSwitches, hlt']
  addr := fun _ _ _ => by
    show (0x10 : BitVec 8) &&& 0xfe = 0x10
    decide
  data := fun _ _ _ => rfl

theorem switchesOnce_iff_idle : (∀ w, SwitchesOnce clear (writesSwitches false) 0 2 0xe0 w) ↔ ∀ w,
      if Switch.written 0xe0 w then
        (∃ c, EnabledIn (enabledAt clear (writesSwitches false)) 2 4 c ∧
          clearsAt clear (writesSwitches false) w c = false) ∧
          ¬ SetsAgain (flagAt clear (writesSwitches false) w)
            (enabledAt clear (writesSwitches false)) (clearsAt clear (writesSwitches false) w) 2 4
      else ∃ c, EnabledIn (enabledAt clear (writesSwitches false)) 2 4 c :=
  switchesOnce_iff clear (writesSwitches false) 0 2 0xe0 (writesSwitches_write false)

theorem switchesOnce_fails : ¬ ∀ s i a n data, Write i a n data →
    ∀ w, SwitchesOnce s i a n data w := by
  intro h
  obtain ⟨c, -, -, hen, -⟩ :=
    h clear (writesSwitches true) 0 2 0xe0 (writesSwitches_write true) .run
  have hstalled (t : Nat) : enabledAt clear (writesSwitches true) t = false := by
    rw [enabledAt, clkenDp]
    simp [writesSwitches]
  rw [hstalled] at hen
  cases hen

end RunControl

end KS10
