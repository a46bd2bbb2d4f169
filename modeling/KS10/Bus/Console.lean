import KS10.Bus.Timeout
import KS10.Clocked.Run
import KS10.Cpu.RunControl

/-!
# The bus cycles of the console

CSL joins the console microcontroller to the backplane.  The microcontroller sees
registers of 16 bits; with the address register and the data register it sets up a
cycle, and a write of the GO bit lets a state machine perform it.  A read cycle leaves
its data in the data register, and a cycle that nobody acknowledges sets a flag.

The same registers are written by the microcontroller and by the state machine.  In
one clock only one of the two writes happens, and the microcontroller goes first,
whichever register it writes.
-/

namespace KS10

open Clocked

/-! ## Inputs and registers -/

/-- The inputs of CSL at one clock.  The strobes of the microcontroller are active low. -/
structure Csl.In where
  rst : Bool
  conWrN : Bool
  conBleN : Bool
  conBheN : Bool
  conAddr : BitVec 8
  conData : BitVec 16
  busAckI : Bool
  busAddrI : BitVec 36
  busDataI : BitVec 36
  cpuHalt : Bool
  cpuRun : Bool
  cpuCont : Bool
  cpuExec : Bool

inductive Csl.State where
  | idle
  | readWaitGo
  | readWaitIo
  | read
  | writeWaitGo
  | writeWaitIo
  | write
  | fail
  deriving DecidableEq

/-- The registers that a bus cycle reads or writes. -/
structure Csl.Regs where
  regCir : BitVec 36
  regData : BitVec 36
  regAddr : BitVec 36
  regCtrlNxmNxd : Bool
  regCtrlTimerEn : Bool
  regCtrlTrapEn : Bool
  regCtrlCacheEn : Bool
  regCtrlReset : Bool
  deriving DecidableEq

structure Csl extends Csl.Regs where
  syncWr : Sync
  syncBle : Sync
  syncBhe : Sync
  state : Csl.State
  timer : BitVec 10
  deriving DecidableEq

namespace Csl

/-- The registers after a reset.  The processor is held in reset. -/
def clear : Csl :=
  { regCir := 0, regData := 0, regAddr := 0, regCtrlNxmNxd := false, regCtrlTimerEn := false
    regCtrlTrapEn := false, regCtrlCacheEn := false, regCtrlReset := true
    syncWr := Sync.clear, syncBle := Sync.clear, syncBhe := Sync.clear
    state := .idle, timer := 0 }

/-! ## Writes of the microcontroller -/

def cslWr (s : Csl) : Bool := s.syncWr.o
def cslBle (s : Csl) : Bool := s.syncBle.o
def cslBhe (s : Csl) : Bool := s.syncBhe.o

/-- The console bus addresses bytes. -/
def cslAddr (i : In) : BitVec 8 := i.conAddr &&& 0xfe

def hiByte (data : BitVec 16) : BitVec 8 := data.extractLsb' 8 8
def loByte (data : BitVec 16) : BitVec 8 := data.extractLsb' 0 8
def loNibble (data : BitVec 16) : BitVec 4 := data.extractLsb' 0 4

/-- The write of the upper byte lane.  The registers of the devices and of the
debugger have other addresses. -/
def writeHi (r : Regs) (addr : BitVec 8) (data : BitVec 16) : Regs :=
  if addr = 0x00 then { r with regAddr := setField r.regAddr 20 27 (hiByte data) }
  else if addr = 0x02 then { r with regAddr := setField r.regAddr 4 11 (hiByte data) }
  else if addr = 0x08 then { r with regData := setField r.regData 20 27 (hiByte data) }
  else if addr = 0x0a then { r with regData := setField r.regData 4 11 (hiByte data) }
  else if addr = 0x10 then { r with regCtrlNxmNxd := data.getLsbD 10 }
  else if addr = 0x18 then { r with regCir := setField r.regCir 20 27 (hiByte data) }
  else if addr = 0x1a then { r with regCir := setField r.regCir 4 11 (hiByte data) }
  else r

/-- The write of the lower byte lane. -/
def writeLo (r : Regs) (addr : BitVec 8) (data : BitVec 16) : Regs :=
  if addr = 0x00 then { r with regAddr := setField r.regAddr 28 35 (loByte data) }
  else if addr = 0x02 then { r with regAddr := setField r.regAddr 12 19 (loByte data) }
  else if addr = 0x04 then { r with regAddr := setField r.regAddr 0 3 (loNibble data) }
  else if addr = 0x08 then { r with regData := setField r.regData 28 35 (loByte data) }
  else if addr = 0x0a then { r with regData := setField r.regData 12 19 (loByte data) }
  else if addr = 0x0c then { r with regData := setField r.regData 0 3 (loNibble data) }
  else if addr = 0x10 then
    { r with
      regCtrlReset := data.getLsbD 0
      regCtrlCacheEn := data.getLsbD 2
      regCtrlTrapEn := data.getLsbD 3
      regCtrlTimerEn := data.getLsbD 4 }
  else if addr = 0x18 then { r with regCir := setField r.regCir 28 35 (loByte data) }
  else if addr = 0x1a then { r with regCir := setField r.regCir 12 19 (loByte data) }
  else if addr = 0x1c then { r with regCir := setField r.regCir 0 3 (loNibble data) }
  else r

/-- The registers after a write of the microcontroller. -/
def written (s : Csl) (i : In) : Regs :=
  let hi := if s.cslBhe then writeHi s.toRegs (cslAddr i) i.conData else s.toRegs
  if s.cslBle then writeLo hi (cslAddr i) i.conData else hi

/-- The registers at the next clock: a write of the microcontroller goes before the
capture of the bus cycle. -/
def nextRegs (s : Csl) (i : In) : Regs :=
  if s.cslWr then s.written i
  else if s.state = .read then { s.toRegs with regData := i.busDataI }
  else if s.state = .fail then { s.toRegs with regCtrlNxmNxd := true }
  else s.toRegs

/-! ## The bus cycle -/

def cslGo (s : Csl) (i : In) : Bool :=
  s.cslWr && cslAddr i == 0x12 && s.cslBle && i.conData.getLsbD 0

def timeout : BitVec 10 := 511

/-- A bus cycle waits for its acknowledge. -/
def await (s : Csl) (i : In) : State × BitVec 10 :=
  if s.timer = timeout then (.fail, s.timer)
  else if i.busAckI then (.idle, s.timer)
  else (s.state, s.timer + 1)

/-- The state and the timer at the next clock. -/
def nextState (s : Csl) (i : In) : State × BitVec 10 :=
  match s.state with
  | .idle =>
      if s.cslGo i && bit s.regAddr 3 then (.readWaitGo, s.timer)
      else if s.cslGo i && bit s.regAddr 5 then (.writeWaitGo, s.timer)
      else (.idle, s.timer)
  | .readWaitGo => if !s.cslGo i then (.readWaitIo, 0) else (.readWaitGo, s.timer)
  | .readWaitIo => if !Bus.busIo i.busAddrI then (.read, s.timer) else (.readWaitIo, s.timer)
  | .read => s.await i
  | .writeWaitGo => if !s.cslGo i then (.writeWaitIo, 0) else (.writeWaitGo, s.timer)
  | .writeWaitIo => if !Bus.busIo i.busAddrI then (.write, s.timer) else (.writeWaitIo, s.timer)
  | .write => s.await i
  | .fail => (.idle, s.timer)

/-- One clock of the machine. -/
def next (s : Csl) (i : In) : Csl :=
  if i.rst then clear
  else
    { toRegs := s.nextRegs i
      syncWr := s.syncWr.next (!i.conWrN)
      syncBle := s.syncBle.next (!i.conBleN)
      syncBhe := s.syncBhe.next (!i.conBheN)
      state := (s.nextState i).1
      timer := (s.nextState i).2 }

/-! ## Outputs -/

def regCtrlGo (s : Csl) : Bool := s.state != .idle

/-- The status register, from the GO bit and the flags of the processor. -/
def statWord (r : Regs) (go cpuHalt cpuRun cpuCont cpuExec : Bool) : BitVec 36 :=
  0#4 ++ 0#15 ++ BitVec.ofBool go ++ 0#6 ++ BitVec.ofBool r.regCtrlNxmNxd
    ++ BitVec.ofBool cpuHalt ++ BitVec.ofBool cpuRun ++ BitVec.ofBool cpuCont
    ++ BitVec.ofBool cpuExec ++ BitVec.ofBool r.regCtrlTimerEn
    ++ BitVec.ofBool r.regCtrlTrapEn ++ BitVec.ofBool r.regCtrlCacheEn ++ 0#1
    ++ BitVec.ofBool r.regCtrlReset

/-- The status register that the microcontroller reads. -/
def regStat (s : Csl) (i : In) : BitVec 36 :=
  statWord s.toRegs s.regCtrlGo i.cpuHalt i.cpuRun i.cpuCont i.cpuExec

/-- The 16 bits of a register of 36 at the address `k` of its four. -/
def word (r : BitVec 36) (k : BitVec 8) : BitVec 16 :=
  if k = 0 then field r 20 35
  else if k = 2 then field r 4 19
  else if k = 4 then 0#12 ++ field r 0 3
  else 0

/-- What the microcontroller reads from the registers of the bus cycle. -/
def dout (s : Csl) (i : In) : BitVec 16 :=
  if cslAddr i &&& 0xf8 = 0x00 then word s.regAddr (cslAddr i &&& 7)
  else if cslAddr i &&& 0xf8 = 0x08 then word s.regData (cslAddr i &&& 7)
  else if cslAddr i &&& 0xf8 = 0x10 then word (s.regStat i) (cslAddr i &&& 7)
  else if cslAddr i &&& 0xf8 = 0x18 then word s.regCir (cslAddr i &&& 7)
  else 0

def busReqO (s : Csl) : Bool := s.state == .read || s.state == .write

def busAddrO (s : Csl) : BitVec 36 := s.regAddr

/-- The registers after `t` clocks. -/
def runAt (s : Csl) (i : Nat → In) (t : Nat) : Csl := run next s i t

end Csl

end KS10
