import KS10.Clocked.Store
import KS10.Cpu.Lockstep

/-!
# The RAMFILE

The RAMFILE holds the eight blocks of accumulators, the workspace and the cache.  It is
written at the falling edge of every clock, without a clock enable, under one of two
conditions: the microword says so (`cromFmWrite`), or the VMA register holds a
reference to an AC with its write flag set.  The cell is the one that the current microword
selects, in both cases, and so is the cell that is read.

The write flag is set when a write cycle is started, and it stays until the next cycle
is.  Every microword in between writes, at whatever cell it selects.

The D bus at the falling edge is an input of this module, and so are the
instruction register and the AC blocks.  A write comes before the read of the same clock.  The
initial contents of the simulation are left out, as the claims of this module are about any
contents.
-/

namespace KS10

open Clocked Microword Mmu

/-! ## The cells -/

/-- The inputs of the RAMFILE at one clock, with those of the VMA register. -/
structure RamFile.In extends Mmu.In where
  /-- The D bus at the falling edge of the clock. -/
  dbus : BitVec 36
  regIr : BitVec 18
  xrPrev : Bool
  acBlock : BitVec 6
  deriving Inhabited

/-- The address of a cell, and its contents. -/
abbrev RamFile.Store := BitVec 10 → BitVec 36

structure RamFile where
  mmu : Mmu
  ram : RamFile.Store
  rdAddr : BitVec 10

namespace RamFile

def regIrAc (i : In) : BitVec 4 := field i.regIr 9 12

def regIrXr (i : In) : BitVec 4 := field i.regIr 14 17

def currBlock (i : In) : BitVec 3 := field i.acBlock 0 2

def prevBlock (i : In) : BitVec 3 := field i.acBlock 3 5

/-- The VMA register as the falling edge sees it: the reset clears it at once. -/
def vmaReg (s : RamFile) (i : In) : VmaReg := if i.rst then VmaReg.zero else s.mmu.vmaReg

/-- The accumulator that the VMA register refers to, in the block of its context. -/
def acAddr (vma : VmaReg) (i : In) : BitVec 10 :=
  0#3 ++ (if vma.prev then prevBlock i else currBlock i) ++ field vma.addr 18 21

/-- The address mux. -/
def addr (vma : VmaReg) (i : In) : BitVec 10 :=
  match cromRamAddrSel i.crom with
  | 0b000 => 0#3 ++ currBlock i ++ regIrAc i
  | 0b001 =>
      if cromAcAluFun i.crom == 0o62 then
        0#3 ++ currBlock i ++ (cromAcAluNum i.crom + regIrAc i)
      else 0#3 ++ currBlock i ++ cromAcAluNum i.crom
  | 0b010 => 0#3 ++ (if i.xrPrev then prevBlock i else currBlock i) ++ regIrXr i
  | 0b100 => if vma.acRef then acAddr vma i else 1#1 ++ field vma.addr 13 21
  | 0b110 => field vma.addr 12 21
  | 0b111 => cromSNum i.crom
  | _ => 0

/-- The part of the write enable that comes from the VMA register. -/
def acWrite (vma : VmaReg) : Bool := vma.acRef && vma.write

/-- The write port. -/
def port (vma : VmaReg) (i : In) : Write (BitVec 10) (BitVec 36) where
  enable := acWrite vma || cromFmWrite i.crom
  addr := addr vma i
  data := i.dbus

/-- One clock. -/
def next (s : RamFile) (i : In) : RamFile where
  mmu := s.mmu.next i.toIn
  ram := (port (s.vmaReg i) i).apply s.ram
  rdAddr := addr (s.vmaReg i) i

def ramfile (s : RamFile) : BitVec 36 := s.ram s.rdAddr

/-- The D bus takes the RAMFILE instead of the memory: a reference to an AC is read. -/
def forceRamfile (vma : VmaReg) (i : In) : Bool :=
  vma.acRef && vma.read && cromDbmSel i.crom == 0b110

def ramFileAt (s : RamFile) (i : Nat → In) (t : Nat) : RamFile := run next s i t

/-! ## What is to be shown

A write cycle is outstanding from its start until the microword that completes it, that is
the next one to load the cycle flags.  A page failure, a reset and the special function
MEMCLR of the macro ABORT MEM CYCLE end it without a write. -/

/-- A write cycle is outstanding after this clock. -/
def nextOutstanding (outstanding : Bool) (s : RamFile) (i : In) : Bool :=
  if i.rst then false
  else if i.clken then
    if s.mmu.pageFail i.toIn then false
    else if memEn i.toIn then (loadMem s.mmu.vmaReg i.toIn).write
    else if specMemClr i.toIn then false
    else outstanding
  else outstanding

def outstandingAt (s : RamFile) (i : Nat → In) : Nat → Bool :=
  shadow next nextOutstanding s s.mmu.vmaReg.write i

/-- The microword completes an outstanding write cycle to an accumulator. -/
def completes (outstanding : Bool) (s : RamFile) (i : In) : Bool :=
  outstanding && acWrite (s.vmaReg i) && memEn i.toIn && !s.mmu.pageFail i.toIn

/-- The write that completes a cycle goes to the accumulator of the reference. -/
def acPort (outstanding : Bool) (s : RamFile) (i : In) : Write (BitVec 10) (BitVec 36) where
  enable := completes outstanding s i
  addr := acAddr (s.vmaReg i) i
  data := i.dbus

/-- The write that the microword asks for goes to the cell that it selects. -/
def fmPort (s : RamFile) (i : In) : Write (BitVec 10) (BitVec 36) where
  enable := cromFmWrite i.crom
  addr := addr (s.vmaReg i) i
  data := i.dbus

/-- The store in which the microwords with `cromFmWrite` and the completed cycles are
written, and nothing else is. -/
def intended (m : Store) (s : RamFile) (i : In) (outstanding : Bool) : Store :=
  (fmPort s i).apply ((acPort outstanding s i).apply m)

def storeAt (s : RamFile) (i : Nat → In) (t : Nat) : Store :=
  run (fun m u => intended m (ramFileAt s i u) (i u) (outstandingAt s i u)) s.ram id t

/-- The microword reads a reference to an AC over the D bus. -/
def readsAc (vma : VmaReg) (i : In) : Bool :=
  forceRamfile vma i && cromDbusSel i.crom == 0b11

/-- The cells hold what was written to them by either way, and a read of an AC returns
it. -/
structure Integrity (s : RamFile) (i : Nat → In) : Prop where
  cells : ∀ t, (ramFileAt s i t).ram = storeAt s i t
  reads : ∀ t, readsAc ((ramFileAt s i t).vmaReg (i t)) (i t) = true →
    (ramFileAt s i (t + 1)).ramfile =
      storeAt s i (t + 1) (acAddr ((ramFileAt s i t).vmaReg (i t)) (i t))

/-! ## One write port for two -/

section Step

variable {s : RamFile} {i : In} {m : Store} {o : Bool}

/-- The one write port does what the two writes would do. -/
structure Harmless (m : Store) (s : RamFile) (i : In) (outstanding : Bool) : Prop where
  /-- A write that is not asked for by the microword completes a cycle at the cell of the
  VMA register, or writes what is there. -/
  undisturbed : acWrite (s.vmaReg i) = true → cromFmWrite i.crom = false →
    (completes outstanding s i = true ∧ addr (s.vmaReg i) i = acAddr (s.vmaReg i) i) ∨
      i.dbus = m (addr (s.vmaReg i) i)
  /-- A cycle is completed at the cell of the VMA register, or has nothing to write. -/
  completed : completes outstanding s i = true →
    addr (s.vmaReg i) i = acAddr (s.vmaReg i) i ∨ i.dbus = m (acAddr (s.vmaReg i) i)

end Step

section Run

variable {s : RamFile} {i : Nat → In}

theorem storeAt_succ (hcells : ∀ t, (ramFileAt s i t).ram = storeAt s i t) (t : Nat) :
    storeAt s i (t + 1) =
      intended (ramFileAt s i t).ram (ramFileAt s i t) (i t) (outstandingAt s i t) := by
  rw [hcells t]
  rfl

/-- A cell that changes takes the D bus, from a microword with `cromFmWrite` that selects it
or from a completed cycle to it. -/
theorem Integrity.changes (h : Integrity s i) {t : Nat} {a : BitVec 10}
    (hne : (ramFileAt s i (t + 1)).ram a ≠ (ramFileAt s i t).ram a) :
    (ramFileAt s i (t + 1)).ram a = (i t).dbus ∧
      ((cromFmWrite (i t).crom = true ∧ a = addr ((ramFileAt s i t).vmaReg (i t)) (i t)) ∨
        (completes (outstandingAt s i t) (ramFileAt s i t) (i t) = true ∧
          a = acAddr ((ramFileAt s i t).vmaReg (i t)) (i t))) := by
  rw [h.cells (t + 1), storeAt_succ h.cells t, intended] at hne ⊢
  by_cases hfm : (fmPort (ramFileAt s i t) (i t)).apply
      ((acPort (outstandingAt s i t) (ramFileAt s i t) (i t)).apply (ramFileAt s i t).ram) a =
        (acPort (outstandingAt s i t) (ramFileAt s i t) (i t)).apply (ramFileAt s i t).ram a
  · rw [hfm] at hne ⊢
    obtain ⟨hen, haddr, hdata⟩ := Write.apply_ne hne
    exact ⟨hdata, Or.inr ⟨hen, haddr⟩⟩
  · obtain ⟨hen, haddr, hdata⟩ := Write.apply_ne hfm
    exact ⟨hdata, Or.inl ⟨hen, haddr⟩⟩

end Run

end RamFile

end KS10
