import KS10.Clocked.SetLatch
import KS10.Uba.Paging

/-!
# The errors in the status register of the adapter

The status register keeps a bit for time-outs and one for devices that do not exist.  The
processor reads them, and clears them with a write of a one.  Each bit is a latch that is busy
while the processor writes, whatever the word it writes.
-/

namespace KS10

open Clocked

namespace UbaSr

/-! ## The error bits -/

inductive Err where
  | tmo
  | nxd
  deriving DecidableEq

/-- The number of the bit in the status register. -/
def Err.pos : Err → Nat
  | .tmo => 18
  | .nxd => 21

def stat (s : UbaSr) : Err → Bool
  | .tmo => s.statTMO
  | .nxd => s.statNXD

/-- A device that does not exist is a time-out as well. -/
def event (i : In) : Err → Bool
  | .tmo => i.setTMO || i.setNXD
  | .nxd => i.setNXD

/-- The processor initializes the adapter. -/
def inits (i : In) : Bool := i.statWrite && bit i.busDataI 29

variable {s : UbaSr} {i : In} {e : Err}

theorem stat_next : (s.next i).stat e =
    if i.statWrite then if bit i.busDataI 29 then false else s.stat e && !bit i.busDataI e.pos
    else if event i e then true
    else s.stat e := by
  cases e <;> rfl

theorem bit_regUbaSr (statIntHi statIntLo : Bool) :
    bit (s.regUbaSr statIntHi statIntLo) e.pos = s.stat e := by
  unfold regUbaSr
  cases e with
  | tmo =>
      iterate 10
        refine (bit_append _ _ _).trans ?_
        rw [if_neg (by decide)]
      refine (bit_append _ _ _).trans ?_
      cases h : s.statTMO <;> simp [stat, h, Err.pos, bit]
  | nxd =>
      iterate 8
        refine (bit_append _ _ _).trans ?_
        rw [if_neg (by decide)]
      refine (bit_append _ _ _).trans ?_
      cases h : s.statNXD <;> simp [stat, h, Err.pos, bit]

end UbaSr

/-- The status register with the errors that are owed: from the clock of the event on until a
later write of a one to the bit, or until the adapter is initialized. -/
structure UbaSrRun where
  sr : UbaSr
  owed : UbaSr.Err → Bool

namespace UbaSrRun

open UbaSr

/-- One clock. -/
def next (x : UbaSrRun) (i : In) : UbaSrRun where
  sr := x.sr.next i
  owed := fun e =>
    !inits i && (event i e || x.owed e && !(i.statWrite && bit i.busDataI e.pos))

def afterReset : UbaSrRun where
  sr := { statTMO := false, statNXD := false, statDXF := false, statPIH := 0, statPIL := 0,
          rstCount := 0 }
  owed := fun _ => false

/-- The errors that are owed are in the status register as the processor reads it. -/
def Visible (x : UbaSrRun) : Prop :=
  ∀ e statIntHi statIntLo, x.owed e = true → bit (x.sr.regUbaSr statIntHi statIntLo) e.pos = true

/-- An event comes in a clock of a status write, and the bit is not set already, or the write
clears it. -/
def loses (x : UbaSrRun) (i : In) (e : Err) : Bool :=
  !inits i && event i e && i.statWrite && !(x.sr.stat e && !bit i.busDataI e.pos)

/-! ## The latches -/

variable (e : Err)

def latch (x : UbaSrRun) : SetLatch where
  bit := x.sr.stat e
  owed := x.owed e

def latchIn (_ : UbaSrRun) (i : In) : SetLatch.In where
  clear := inits i
  busy := i.statWrite
  ack := bit i.busDataI e.pos
  set := event i e

theorem latch_next (x : UbaSrRun) (i : In) :
    latch e (x.next i) = (latch e x).next (latchIn e x i) := by
  have hstat : (x.next i).sr.stat e = _ := stat_next
  unfold latch SetLatch.next latchIn
  rw [hstat]
  unfold next inits
  dsimp only
  cases i.statWrite <;> cases bit i.busDataI 29 <;> cases event i e <;> cases x.sr.stat e <;> rfl

theorem missed_latch (x : UbaSrRun) (i : In) :
    (latch e x).missed (latchIn e x i) = x.loses i e := rfl

/-! ## Runs -/

variable {i : Nat → In}

theorem visible_iff : (∀ t, (run next afterReset i t).Visible) ↔
    ∀ t e, (run next afterReset i t).loses (i t) e = false := by
  have hlatch : ∀ e, (∀ t, (run next afterReset i t).owed e = true →
      (run next afterReset i t).sr.stat e = true) ↔
        ∀ t, (run next afterReset i t).loses (i t) e = false := by
    intro e
    have hpart := run_part (latch_next e) afterReset i
    have hvisible := SetLatch.shown_iff (s := latch e afterReset)
      (i := fun k => latchIn e (run next afterReset i k) (i k)) (by cases e <;> rfl)
    simp only [← hpart, missed_latch] at hvisible
    exact hvisible
  unfold Visible
  simp only [bit_regUbaSr]
  constructor
  · intro hall t e
    exact (hlatch e).mp (fun t howed => hall t e false false howed) t
  · intro hnone t e _ _ howed
    exact (hlatch e).mpr (fun t => hnone t e) t howed

/-- A time-out in the clock of a status write. -/
def timeOut (t : Nat) : In where
  busDataI := 0
  statWrite := t == 1
  setNXD := false
  setTMO := t == 1

/-- The time-out is not in the register after the write, although no one has been written. -/
theorem visible_fails : (run next afterReset timeOut 2).owed .tmo = true ∧
    bit ((run next afterReset timeOut 2).sr.regUbaSr false false) Err.tmo.pos = false := by
  decide

end UbaSrRun

end KS10
