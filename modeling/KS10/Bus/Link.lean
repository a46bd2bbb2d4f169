import KS10.Bus.Arbiter
import KS10.Bus.Timeout
import KS10.Clocked.Run

/-!
# The processor's and the adapter's timers through the arbiter

One machine: the processor with its timer NXD, the arbiter, and one Unibus adapter
with its timer UBANXD.  The processor's bus outputs are registers of the machine:
the wait stops the clock of the VMA register, so they move only while NXD does not
wait.  The other adapters, the memory and the console enter as inputs.
-/

namespace KS10

open Clocked

/-- The inputs of the machine at one clock. -/
structure Link.In where
  rst : Bool
  crom : Microword
  /-- The processor's bus outputs once it does not wait. -/
  cpuReqO : Bool
  cpuAddrO : BitVec 36
  /-- A device on the adapter acknowledges, if the address is a device's. -/
  devAckI : Bool
  cslReqI : Bool
  cslAckI : Bool
  cslAddrI : BitVec 36
  /-- DMA requests of the adapters. -/
  ubaReqI : Fin 4 → Bool
  /-- Acknowledges of the other adapters. -/
  otherAckI : Fin 4 → Bool
  memAckI : Bool
  deriving Inhabited

structure Link where
  nxd : Nxd
  uba : UbaNxd
  cpuReqO : Bool
  cpuAddrO : BitVec 36

/-- The adapter that takes part: its place at the arbiter, its parameters and its
registers, which do not change during a cycle. -/
structure Link.Adapter where
  port : Fin 4
  conf : Uba.Conf
  regs : Uba.Regs

namespace Link

variable (a : Adapter)

/-! ## Signals -/

def reqs (s : Link) (i : In) : Arb.Reqs where
  cslReqI := i.cslReqI
  ubaReqI := i.ubaReqI
  cpuReqI := s.cpuReqO

/-- The adapter's bus request input. -/
def busReqI (s : Link) (i : In) : Bool := Arb.ubaReqO (s.reqs i)

/-- The arbiter's inputs.  The data lines take no part in the handshake. -/
def arb (s : Link) (i : In) : Arb.In where
  toReqs := s.reqs i
  cslAckI := i.cslAckI
  cslAddrI := i.cslAddrI
  cslDataI := 0
  cpuAddrI := s.cpuAddrO
  cpuDataI := 0
  ubaAckI := fun m => if m = a.port then s.uba.busAckO (s.busReqI i) else i.otherAckI m
  ubaAddrI := fun _ => 0
  ubaDataI := fun _ => 0
  memAckI := i.memAckI
  memDataI := 0

/-- The address on the adapter's bus. -/
def busAddrI (s : Link) (i : In) : BitVec 36 := Arb.ubaAddrO (s.arb a i)

/-- A device acknowledges the address on the adapter's bus. -/
def devAck (s : Link) (i : In) : Bool :=
  Uba.devReq a.conf a.regs (s.busAddrI a i) && i.devAckI

def cpuAckI (s : Link) (i : In) : Bool := Arb.cpuAckO (s.arb a i)

def nxdIn (s : Link) (i : In) : Nxd.In where
  rst := i.rst
  crom := i.crom
  cpuAddrO := s.cpuAddrO
  cpuReqO := s.cpuReqO
  cpuAckI := s.cpuAckI a i

def ubaIn (s : Link) (i : In) : UbaNxd.In where
  rst := i.rst
  busReqI := s.busReqI i
  ubaReq := Uba.ubaReq a.conf a.regs (s.busAddrI a i)
  ubaAck := Uba.ubaReq a.conf a.regs (s.busAddrI a i)
  devReq := Uba.devReq a.conf a.regs (s.busAddrI a i)
  devAck := s.devAck a i
  wruReq := Uba.wruRead (s.busAddrI a i)
  wruAck := Uba.wruAck a.regs (s.busAddrI a i)

def ioWait (s : Link) (i : In) : Bool := s.nxd.ioWait (s.nxdIn a i)

/-- One clock of the machine. -/
def next (s : Link) (i : In) : Link where
  nxd := s.nxd.next (s.nxdIn a i)
  uba := s.uba.next (s.ubaIn a i)
  cpuReqO := if s.ioWait a i then s.cpuReqO else i.cpuReqO
  cpuAddrO := if s.ioWait a i then s.cpuAddrO else i.cpuAddrO

end Link

end KS10
