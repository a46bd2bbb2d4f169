import KS10.Clocked.SetLatch

/-!
# The interrupt of the RH11

RHINTR requests an interrupt when a function is complete with interrupts enabled, and as long
as there is a special condition (an attention of a drive or a transfer error) while the
controller is ready.  The first is a latch, which an acknowledge resets together with the
interrupt enable bit in RHCS1.  The second is a level: the program takes it back when it
clears the condition or starts a function.
-/

namespace KS10

open Clocked

/-! ## RHINTR and the interrupt enable -/

/-- The registers of RHINTR, and the interrupt enable bit of RHCS1. -/
structure Rhintr where
  lastRDY : Bool
  rhIFF : Bool
  cs1IE : Bool

namespace Rhintr

/-- The inputs of one clock. -/
structure In where
  rst : Bool
  devRESET : Bool
  devLOBYTE : Bool
  rhDATAI : BitVec 36
  rhcs1WRITE : Bool
  rhCLR : Bool
  rhIACK : Bool
  cs1TRE : Bool
  rpATA : Bool
  rpGO : Bool

def rhRDY (i : In) : Bool := !i.rpGO

def rhSC (i : In) : Bool := i.cs1TRE || i.rpATA

/-- A function is complete, or the program writes the ready and the interrupt enable bit. -/
def completes (s : Rhintr) (i : In) : Bool :=
  (rhRDY i && !s.lastRDY && s.cs1IE) ||
    (i.rhcs1WRITE && i.devLOBYTE && i.rhDATAI.getLsbD 7 && i.rhDATAI.getLsbD 6)

/-- The controller is cleared. -/
def clears (i : In) : Bool := i.rst || i.devRESET || i.rhCLR

def nextIFF (s : Rhintr) (i : In) : Bool :=
  if i.rst then false
  else if i.devRESET || i.rhCLR || i.rhIACK then false
  else if s.completes i then true
  else s.rhIFF

def nextIE (s : Rhintr) (i : In) : Bool :=
  if i.rst then false
  else if i.devRESET || i.rhCLR || i.rhIACK then false
  else if i.rhcs1WRITE && i.devLOBYTE then i.rhDATAI.getLsbD 6
  else s.cs1IE

/-- One clock. -/
def next (s : Rhintr) (i : In) : Rhintr where
  lastRDY := if i.rst then false else rhRDY i
  rhIFF := s.nextIFF i
  cs1IE := s.nextIE i

/-- The interrupt request. -/
def rhIRQ (s : Rhintr) (i : In) : Bool := s.rhIFF || (rhSC i && rhRDY i)

end Rhintr

/-- RHINTR with the completions for which an interrupt is owed: from the clock of the
completion on until a later acknowledge or a clear. -/
structure RhintrRun where
  intr : Rhintr
  owed : Bool

namespace RhintrRun

open Rhintr

/-- One clock. -/
def next (x : RhintrRun) (i : In) : RhintrRun where
  intr := x.intr.next i
  owed := !clears i && (x.intr.completes i || x.owed && !i.rhIACK)

def afterReset : RhintrRun where
  intr := { lastRDY := false, rhIFF := false, cs1IE := false }
  owed := false

/-- The request is there for what is owed, and for a special condition of the ready
controller. -/
structure Kept (x : RhintrRun) (i : In) : Prop where
  completion : x.owed = true → x.intr.rhIRQ i = true
  condition : rhSC i = true → rhRDY i = true → x.intr.rhIRQ i = true

/-- A completion falls into the clock of an acknowledge. -/
def coincides (x : RhintrRun) (i : In) : Bool := !clears i && x.intr.completes i && i.rhIACK

/-- Neither a completion nor an acknowledge nor a clear. -/
def rests (x : RhintrRun) (i : In) : Bool :=
  !clears i && !i.rhIACK && !x.intr.completes i

/-! ## The latch -/

def latch (x : RhintrRun) : SetLatch where
  bit := x.intr.rhIFF
  owed := x.owed

def latchIn (x : RhintrRun) (i : In) : SetLatch.In where
  clear := clears i
  busy := i.rhIACK
  ack := true
  set := x.intr.completes i

theorem latch_next (x : RhintrRun) (i : In) :
    latch (x.next i) = (latch x).next (x.latchIn i) := by
  unfold latch next latchIn SetLatch.next Rhintr.next nextIFF clears
  cases i.rst <;> cases i.devRESET <;> cases i.rhCLR <;> cases i.rhIACK <;>
    cases x.intr.completes i <;> cases x.intr.rhIFF <;> rfl

theorem missed_latch (x : RhintrRun) (i : In) :
    (latch x).missed (x.latchIn i) = x.coincides i := by
  unfold SetLatch.missed latch latchIn coincides
  cases clears i <;> cases i.rhIACK <;> cases x.intr.completes i <;> cases x.intr.rhIFF <;> rfl

theorem quiet_latch (x : RhintrRun) (i : In) :
    SetLatch.quiet (x.latchIn i) = x.rests i := by
  unfold SetLatch.quiet latchIn rests
  cases clears i <;> cases i.rhIACK <;> cases x.intr.completes i <;> rfl

variable {i : Nat → In}

/-- What is owed is missing from the flip-flop after a coincidence, until something comes. -/
theorem missing_iff (t : Nat) :
    (run next afterReset i t).owed = true ∧ (run next afterReset i t).intr.rhIFF = false ↔
      ∃ u, u < t ∧ (run next afterReset i u).coincides (i u) = true ∧
        ∀ v, u < v → v < t → (run next afterReset i v).rests (i v) = true := by
  have hpart := run_part latch_next afterReset i
  have hlatch := SetLatch.missing_iff (s := latch afterReset)
    (i := fun k => (run next afterReset i k).latchIn (i k)) rfl t
  simp only [← hpart, missed_latch, quiet_latch] at hlatch
  exact hlatch

/-! ## Runs -/

end RhintrRun

end KS10
