import KS10.Clocked.Literal
import Mathlib.Logic.Basic

/-!
# The backplane bus arbiter

The arbiter is combinational.  The console has the highest priority, the four
Unibus adapters follow in order, and the processor comes last.  Requests of the
console and of the processor are forwarded to all adapters with the requester's
address; a Unibus adapter that is granted the bus reaches the memory only.  All
address and data lines are zero when nobody drives them.
-/

namespace KS10

/-- The requests to the arbiter at one clock.  The Unibus adapters 1 to 4 are
numbered from 0. -/
structure Arb.Reqs where
  cslReqI : Bool
  ubaReqI : Fin 4 → Bool
  cpuReqI : Bool

/-- The arbiter's inputs at one clock. -/
structure Arb.In extends Arb.Reqs where
  cslAckI : Bool
  cslAddrI : BitVec 36
  cslDataI : BitVec 36
  cpuAddrI : BitVec 36
  cpuDataI : BitVec 36
  ubaAckI : Fin 4 → Bool
  ubaAddrI : Fin 4 → BitVec 36
  ubaDataI : Fin 4 → BitVec 36
  memAckI : Bool
  memDataI : BitVec 36

namespace Arb

/-- The unit that has the bus. -/
inductive Grant where
  | csl
  | uba (n : Fin 4)
  | cpu
  | none
  deriving DecidableEq

def grant (i : Reqs) : Grant :=
  if i.cslReqI then .csl
  else if i.ubaReqI 0 then .uba 0
  else if i.ubaReqI 1 then .uba 1
  else if i.ubaReqI 2 then .uba 2
  else if i.ubaReqI 3 then .uba 3
  else if i.cpuReqI then .cpu
  else .none

def cslReqO (i : Reqs) : Bool := grant i == .cpu

def ubaReqO (i : Reqs) : Bool := grant i == .csl || grant i == .cpu

def memReqO (i : Reqs) : Bool := grant i != .none

def cslAddrO (i : In) : BitVec 36 := if grant i.toReqs = .cpu then i.cpuAddrI else 0

/-- All Unibus adapters see the same address. -/
def ubaAddrO (i : In) : BitVec 36 :=
  match grant i.toReqs with
  | .csl => i.cslAddrI
  | .uba _ => 0
  | .cpu => i.cpuAddrI
  | .none => 0

def memAddrO (i : In) : BitVec 36 :=
  match grant i.toReqs with
  | .csl => i.cslAddrI
  | .uba n => i.ubaAddrI n
  | .cpu => i.cpuAddrI
  | .none => 0

def memDataO (i : In) : BitVec 36 :=
  match grant i.toReqs with
  | .csl => i.cslDataI
  | .uba n => i.ubaDataI n
  | .cpu => i.cpuDataI
  | .none => 0

def cslAckO (i : In) : Bool :=
  grant i.toReqs == .csl &&
    (i.memAckI || i.ubaAckI 0 || i.ubaAckI 1 || i.ubaAckI 2 || i.ubaAckI 3)

def ubaAckO (i : In) (n : Fin 4) : Bool := grant i.toReqs == .uba n && i.memAckI

def cpuAckO (i : In) : Bool :=
  grant i.toReqs == .cpu &&
    (i.memAckI || i.ubaAckI 0 || i.ubaAckI 1 || i.ubaAckI 2 || i.ubaAckI 3 || i.cslAckI)

/-- The data of the first unit that acknowledges: the memory, then the adapters. -/
def ackData (i : In) (other : BitVec 36) : BitVec 36 :=
  if i.memAckI then i.memDataI
  else if i.ubaAckI 0 then i.ubaDataI 0
  else if i.ubaAckI 1 then i.ubaDataI 1
  else if i.ubaAckI 2 then i.ubaDataI 2
  else if i.ubaAckI 3 then i.ubaDataI 3
  else other

/-- The data input of the console: the processor's data while the processor has the
bus. -/
def cslDataO (i : In) : BitVec 36 :=
  match grant i.toReqs with
  | .csl => ackData i 0
  | .uba _ => 0
  | .cpu => i.cpuDataI
  | .none => 0

/-- A cycle that nobody acknowledges reads zero. -/
def cpuDataO (i : In) : BitVec 36 :=
  if grant i.toReqs = .cpu then ackData i (if i.cslAckI then i.cslDataI else 0) else 0

def ubaDataO (i : In) (n : Fin 4) : BitVec 36 :=
  match grant i.toReqs with
  | .csl => i.cslDataI
  | .uba m => if m = n ∧ i.memAckI then i.memDataI else 0
  | .cpu => i.cpuDataI
  | .none => 0

end Arb

end KS10
