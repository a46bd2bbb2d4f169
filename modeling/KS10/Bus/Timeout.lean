import KS10.Clocked.Field
import KS10.Clocked.Literal
import KS10.Cpu.Microword

/-!
# The two non-existent device timers

An IO cycle is watched twice.  NXD, in the processor, stalls the microcode until the
cycle is acknowledged or ten clocks have passed.  UBANXD, in each Unibus adapter,
acknowledges cycles on the backplane after the adapter or one of its devices has
accepted them, and reports a non-existent device after its own count.  Each has ten
count states, which differ only in their successor; they are one state `cnt` with a
count.
-/

namespace KS10

open Clocked Microword

/-! ## Bus flags -/

namespace Bus

def busRead (addr : BitVec 36) : Bool := bit addr 3
def busWrite (addr : BitVec 36) : Bool := bit addr 5
def busPhys (addr : BitVec 36) : Bool := bit addr 8
def busIo (addr : BitVec 36) : Bool := bit addr 10
def busWru (addr : BitVec 36) : Bool := bit addr 11
def busVect (addr : BitVec 36) : Bool := bit addr 12
def busDev (addr : BitVec 36) : BitVec 4 := field addr 14 17
def busPi (addr : BitVec 36) : BitVec 3 := field addr 15 17
def busIoAddr (addr : BitVec 36) : BitVec 18 := field addr 18 35

end Bus

open Bus

/-! ## The processor's timer -/

inductive Nxd.State where
  | idle
  | cnt (k : Fin 10)
  | ackIo1
  | ackIo2
  | ackWru
  | ackVec
  | noAck
  deriving DecidableEq

structure Nxd where
  wru : Bool
  vect : Bool
  busy : Bool
  state : Nxd.State
  addr3666 : Bool
  deriving DecidableEq

namespace Nxd

/-- The inputs of NXD at one clock. -/
structure In where
  rst : Bool
  crom : Microword
  cpuAddrO : BitVec 36
  cpuReqO : Bool
  cpuAckI : Bool

/-- The processor starts an IO cycle that is not acknowledged at once. -/
def starts (i : In) : Bool := busIo i.cpuAddrO && i.cpuReqO && !i.cpuAckI

def ioClear (i : In) : Bool := spec10 i.crom 0b010

/-- The state that an acknowledge leads to. -/
def acked (n : Nxd) : State :=
  if n.wru then .ackWru else if n.vect then .ackVec else .ackIo1

/-- The state after the count `k` without an acknowledge. -/
def counted (k : Fin 10) : State := if k = 9 then .noAck else .cnt (k + 1)

/-- The state machine, without the reset. -/
def step (n : Nxd) (i : In) : Nxd :=
  match n.state with
  | .idle =>
      if starts i then
        { n with
          wru := busWru i.cpuAddrO
          vect := busVect i.cpuAddrO
          busy := true
          state := .cnt 0 }
      else n
  | .cnt k => { n with state := if i.cpuAckI then n.acked else counted k }
  | .ackIo1 => { n with state := .ackIo2 }
  | .ackIo2 => if ioClear i then { n with busy := false, state := .idle } else n
  | .ackWru => if n.addr3666 then { n with busy := false, state := .idle } else n
  | .ackVec => if !busVect i.cpuAddrO then { n with busy := false, state := .idle } else n
  | .noAck =>
      if n.wru then
        { n with
          busy := false
          state := if !busWru i.cpuAddrO then .idle else .noAck }
      else { n with state := .idle }

/-- One clock of NXD. -/
def next (n : Nxd) (i : In) : Nxd :=
  if i.rst then { wru := false, vect := false, busy := false, state := .idle, addr3666 := false }
  else { n.step i with addr3666 := cromJ i.crom == 0o3726 }

/-- The processor waits in its idle state for the cycle to start, and while it counts. -/
def waits (n : Nxd) : Bool :=
  match n.state with
  | .idle | .cnt _ => true
  | .ackIo1 | .ackIo2 | .ackWru | .ackVec | .noAck => false

def ioBusy (n : Nxd) (i : In) : Bool := (starts i && n.state == .idle) || n.busy

def ioWait (n : Nxd) (i : In) : Bool := starts i && n.waits

end Nxd

/-! ## The adapter's address decoding -/

/-- The parameters of a Unibus adapter. -/
structure Uba.Conf where
  ubaNum : BitVec 4
  ubaAddr : BitVec 18

/-- The registers of the adapter that its bus monitor depends on. -/
structure Uba.Regs where
  /-- Maintenance mode. -/
  regUbaMr : Bool
  statPih : BitVec 3
  statPil : BitVec 3

namespace Uba

variable (c : Conf) (r : Regs) (addr : BitVec 36)

/-- An IO cycle, not a WRU or vector cycle, that is addressed to this adapter. -/
def addressed : Bool :=
  (busRead addr || busWrite addr) && busIo addr && busPhys addr && !busWru addr
    && !busVect addr && busDev addr == c.ubaNum

/-- The address is among the adapter's own registers. -/
def ownAddr : Bool := field (busIoAddr addr) 0 10 == field c.ubaAddr 0 10

def wruRead : Bool :=
  busRead addr && busIo addr && busPhys addr && busWru addr && !busVect addr

def vectRead : Bool :=
  busRead addr && busIo addr && busPhys addr && !busWru addr && busVect addr
    && busDev addr == c.ubaNum

/-- Requests to the adapter proper: its registers, and the loopback in maintenance
mode. -/
def ubaReq : Bool := addressed c addr && (ownAddr c addr || r.regUbaMr)

/-- Requests to the devices. -/
def devReq : Bool := (addressed c addr && !ownAddr c addr && !r.regUbaMr) || vectRead c addr

def wruAck : Bool := wruRead addr && (busPi addr == r.statPih || busPi addr == r.statPil)

end Uba

/-! ## The adapter's timer -/

inductive UbaNxd.State where
  | null
  | cnt (k : Fin 10)
  | nxd
  | ack
  deriving DecidableEq

structure UbaNxd where
  uba : Bool
  state : UbaNxd.State
  deriving DecidableEq

namespace UbaNxd

/-- The inputs of UBANXD at one clock. -/
structure In where
  rst : Bool
  busReqI : Bool
  ubaReq : Bool
  ubaAck : Bool
  devReq : Bool
  devAck : Bool
  wruReq : Bool
  wruAck : Bool

/-- The state after the count `k` without an acknowledge. -/
def counted (k : Fin 10) : State := if k = 9 then .nxd else .cnt (k + 1)

/-- One clock of UBANXD. -/
def next (u : UbaNxd) (i : In) : UbaNxd :=
  if i.rst then { uba := false, state := .null }
  else
    match u.state with
    | .null =>
        if i.busReqI && i.ubaReq then
          { uba := true, state := if i.ubaAck then .ack else .cnt 0 }
        else if i.busReqI && i.devReq then
          { uba := false, state := if i.devAck then .ack else .cnt 0 }
        else if i.busReqI && i.wruReq && i.wruAck then { u with state := .ack }
        else u
    | .cnt k =>
        { u with state := if (if u.uba then i.ubaAck else i.devAck) then .ack else counted k }
    | .nxd => { u with state := .null }
    | .ack => if !i.busReqI then { u with state := .null } else u

def setNxd (u : UbaNxd) : Bool := u.state == .nxd

def busAckO (u : UbaNxd) (busReqI : Bool) : Bool := u.state == .ack && busReqI

end UbaNxd

end KS10
