import KS10.Cpu.Microword
import KS10.Clocked.Run

/-!
# The run control of the processor

The processor runs while its RUN flip-flop is set.  The microcode clears it, the
console sets or clears it, and the breakpoint logic clears it.  Four modules take
part: CSL synchronizes the write strobe of the console and decodes the switches,
DEBUG compares the addresses on the bus with the breakpoint, INTF holds the
flip-flops RUN, CONT, EXEC and HALT, and TIMING makes the clock enable they load
under.  `RunControl` collects their registers.

CSL and DEBUG run on every clock.  The trace buffer of DEBUG is an input here, by its
full flag, and so are the registers the console has written for DEBUG.
-/

namespace KS10

open Clocked Microword

/-! ## Inputs and registers -/

structure RunControl.In where
  rst : Bool
  crom : Microword
  feSign : Bool
  busWait : Bool
  /-- The address on the backplane, and the breakpoint registers. -/
  cpuAddr : BitVec 36
  regDbar : BitVec 36
  regDbmr : BitVec 36
  regBrcmd : BitVec 3
  regBrcmdWr : Bool
  trFull : Bool
  /-- The bus of the console, with its strobes active low. -/
  conWrN : Bool
  conBleN : Bool
  conAddr : BitVec 8
  conData : BitVec 16

/-- The two flip-flops of a synchronizer. -/
structure Sync where
  d : Bool
  o : Bool
  deriving DecidableEq

structure RunControl where
  /-- The fast shift of the clock before was not finished. -/
  done : Bool
  brstate : BitVec 3
  syncWr : Sync
  syncBle : Sync
  cpuHalt : Bool
  cpuRun : Bool
  cpuExec : Bool
  cpuCont : Bool
  deriving DecidableEq

namespace Sync

def clear : Sync := ⟨false, false⟩

def next (s : Sync) (i : Bool) : Sync := ⟨i, s.d⟩

end Sync

namespace RunControl

/-- The registers after a reset. -/
def clear : RunControl :=
  ⟨false, 0, Sync.clear, Sync.clear, false, false, false, false⟩

/-! ## Clock enables -/

def cromMultishift (crom : Microword) : Bool := bit crom 79

/-- The clock enable of the microsequencer. -/
def clkenCr (i : In) : Bool := !((cromMultishift i.crom && i.feSign) || i.busWait)

/-- The clock enable of the datapath. -/
def clkenDp (s : RunControl) (i : In) : Bool :=
  !((cromMultishift i.crom && !i.feSign) || (s.done && clkenCr i) || i.busWait)

/-! ## Breakpoints -/

def brcmdDisable : BitVec 3 := 0
def brcmdTrig : BitVec 3 := 1
def brcmdFull : BitVec 3 := 2
def brcmdEither : BitVec 3 := 3

def brIdle : BitVec 3 := 0
def brArmed : BitVec 3 := 1
def brBreak : BitVec 3 := 2

/-- The address on the backplane agrees with the breakpoint where the mask says. -/
def addrMatch (i : In) : Bool := i.cpuAddr &&& i.regDbmr == i.regDbar &&& i.regDbmr

/-- What the armed breakpoint waits for. -/
def breaks (i : In) : Bool :=
  (i.regBrcmd == brcmdTrig && addrMatch i) || (i.regBrcmd == brcmdFull && i.trFull)
    || (i.regBrcmd == brcmdEither && addrMatch i) || (i.regBrcmd == brcmdEither && i.trFull)

def nextBrstate (s : RunControl) (i : In) : BitVec 3 :=
  if i.regBrcmd == brcmdDisable && i.regBrcmdWr then brIdle
  else if s.brstate == brIdle then
    if i.regBrcmdWr && (i.regBrcmd == brcmdTrig || i.regBrcmd == brcmdFull
      || i.regBrcmd == brcmdEither) then brArmed else brIdle
  else if s.brstate == brArmed then if breaks i then brBreak else brArmed
  else if s.brstate == brBreak then brIdle
  else s.brstate

def debugHalt (s : RunControl) : Bool := s.brstate == brBreak

/-! ## Console switches -/

/-- The console bus addresses bytes. -/
def cslAddr (i : In) : BitVec 8 := i.conAddr &&& 0xfe

/-- The control register is written. -/
def cslSet (s : RunControl) (i : In) : Bool := s.syncWr.o && cslAddr i == 0x10 && s.syncBle.o

def cslRun (i : In) : Bool := i.conData.getLsbD 7
def cslCont (i : In) : Bool := i.conData.getLsbD 6
def cslExec (i : In) : Bool := i.conData.getLsbD 5

/-! ## The status flip-flops -/

def specCons (i : In) : Bool := spec10 i.crom 0
def clrCont (i : In) : Bool := specCons i && bit i.crom 102
def clrExec (i : In) : Bool := specCons i && bit i.crom 103
def clrRun (i : In) : Bool := specCons i && bit i.crom 104
def setHalt (i : In) : Bool := specCons i && bit i.crom 105
def clrHalt (i : In) : Bool := specCons i && bit i.crom 106

/-- A flip-flop the console loads and the processor clears. -/
def nextSwitch (s : RunControl) (i : In) (flag clr switch : Bool) : Bool :=
  if s.clkenDp i then
    if clr then false
    else if s.cslSet i then switch
    else flag
  else flag

/-- One clock of the machine. -/
def next (s : RunControl) (i : In) : RunControl :=
  if i.rst then clear
  else
    { done := i.feSign && cromMultishift i.crom
      brstate := s.nextBrstate i
      syncWr := s.syncWr.next (!i.conWrN)
      syncBle := s.syncBle.next (!i.conBleN)
      cpuHalt :=
        if s.clkenDp i then
          if setHalt i then true else if clrHalt i then false else s.cpuHalt
        else s.cpuHalt
      cpuRun := s.nextSwitch i s.cpuRun (clrRun i || s.debugHalt) (cslRun i)
      cpuExec := s.nextSwitch i s.cpuExec (clrExec i) (cslExec i)
      cpuCont := s.nextSwitch i s.cpuCont (clrCont i) (cslCont i) }

/-- The registers after `t` clocks. -/
def runAt (s : RunControl) (i : Nat → In) (t : Nat) : RunControl := run next s i t

/-- The datapath is enabled at clock `t`. -/
def enabledAt (s : RunControl) (i : Nat → In) (t : Nat) : Bool := (runAt s i t).clkenDp (i t)

end RunControl

end KS10
