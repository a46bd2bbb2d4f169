import KS10.Bus.Arbiter
import KS10.Clocked.Field
import KS10.Clocked.Store

/-!
# The memory controller

The memory controller is unit 0 of the backplane bus.  It decodes the address lines by
themselves, as the lines are zero when nobody drives them; the request line is not used.
Every memory cycle is acknowledged at once.

The memory is a pipelined SSRAM that runs at four times the processor's clock, and the
write strobe comes at one of the four phases.  A write takes its data two phases after
its address, in the same clock of the processor, so that here each clock reads or writes one
word.  The only other state is the memory status register.
-/

namespace KS10

open Clocked

/-! ## Registers and inputs -/

structure Mem where
  ssram : BitVec 20 → BitVec 36
  statPe : Bool
  statPf : Bool
  statEe : Bool

structure Mem.In where
  rst : Bool
  busAddrI : BitVec 36
  busDataI : BitVec 36

namespace Mem

def memDev : BitVec 4 := 0

/-- The IO address of the memory status register. -/
def addrMsr : BitVec 18 := 0o100000

/-! ## Address decoding -/

def busRead (i : In) : Bool := bit i.busAddrI 3
def busWrTest (i : In) : Bool := bit i.busAddrI 4
def busWrite (i : In) : Bool := bit i.busAddrI 5
def busPhys (i : In) : Bool := bit i.busAddrI 8
def busIo (i : In) : Bool := bit i.busAddrI 10
def busDev (i : In) : BitVec 4 := field i.busAddrI 14 17
def busIoAddr (i : In) : BitVec 18 := field i.busAddrI 18 35
def busMemAddr (i : In) : BitVec 20 := field i.busAddrI 16 35

/-- The memory status register is addressed. -/
def msr (i : In) : Bool :=
  busIo i && busPhys i && busDev i == memDev && busIoAddr i == addrMsr

def msrRead (i : In) : Bool := busRead i && msr i
def msrWrite (i : In) : Bool := busWrite i && msr i
def memRead (i : In) : Bool := busRead i && !busIo i
def memWrite (i : In) : Bool := busWrite i && !busIo i
def memWrTest (i : In) : Bool := busWrTest i && !busIo i

/-! ## Outputs -/

def busAckO (i : In) : Bool :=
  msrRead i || msrWrite i || memRead i || memWrite i || memWrTest i

def regStat (s : Mem) : BitVec 36 :=
  0#3 ++ BitVec.ofBool s.statPe ++ BitVec.ofBool s.statEe ++ 0#7 ++ BitVec.ofBool s.statPf ++ 0#23

/-- During a write the data lines of the SSRAM carry what is written. -/
def ssramData (s : Mem) (i : In) : BitVec 36 :=
  if memWrite i then i.busDataI else s.ssram (busMemAddr i)

def busDataO (s : Mem) (i : In) : BitVec 36 := if busIo i then s.regStat else s.ssramData i

/-! ## One clock -/

/-- The write port of the SSRAM. -/
def port (i : In) : Write (BitVec 20) (BitVec 36) where
  enable := memWrite i
  addr := busMemAddr i
  data := i.busDataI

def next (s : Mem) (i : In) : Mem where
  ssram := (port i).apply s.ssram
  statPe := if i.rst then false else if msrWrite i then bit i.busDataI 3 else s.statPe
  statPf := if i.rst then true
    else if msrWrite i then s.statPf && bit i.busDataI 12 else s.statPf
  statEe := if i.rst then true else if msrWrite i then !bit i.busDataI 35 else s.statEe

/-- A clock leaves every memory as it is exactly if it is no write. -/
theorem spares_iff {i : In} : (∀ s : Mem, (s.next i).ssram = s.ssram) ↔ memWrite i = false := by
  constructor
  · intro h
    rw [← Bool.not_eq_true]
    intro hwrite
    -- A memory that holds something else everywhere is changed.
    have hcell := Write.apply_eq_self_iff.mp
      (h { ssram := fun _ => i.busDataI + 1, statPe := false, statPf := false, statEe := false })
      hwrite
    have hne : i.busDataI ≠ i.busDataI + 1 := by bv_omega
    exact hne hcell
  · intro hwrite s
    exact Write.apply_of_disabled hwrite

end Mem

end KS10
