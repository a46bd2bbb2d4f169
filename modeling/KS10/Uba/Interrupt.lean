import KS10.Bus.Timeout

/-!
# The adapter's interrupt logic

The devices of a Unibus adapter request interrupts on the levels BR7 to BR4.  The
adapter reports BR7 and BR6 to the processor as one priority and BR5 and BR4 as
another.  A WRU cycle on one of them acknowledges the highest level requested there,
on lines that all devices see one clock later.  A vector cycle puts the vector of the
requesting device with the highest level on the bus; among equals the device with
the lowest number wins.  That choice is made from the requests at the time of the
vector cycle and not from the acknowledged level.
-/

namespace KS10

open Clocked

/-- Interrupt levels of the Unibus, BR7 leftmost. -/
abbrev Level := BitVec 4

namespace Level

def intr7 : Level := 0b1000
def intr6 : Level := 0b0100
def intr5 : Level := 0b0010
def intr4 : Level := 0b0001
def intrNul : Level := 0b0000

end Level

namespace UbaIntr

/-- The requests of the four devices together. -/
def anyIntr (intr : Fin 4 → Level) : Level := intr 0 ||| intr 1 ||| intr 2 ||| intr 3

def statIntHi (devIntr : Level) : Bool := bit devIntr 0 || bit devIntr 1

def statIntLo (devIntr : Level) : Bool := bit devIntr 2 || bit devIntr 3

/-- The bus interrupt lines of the priority `pi`, line 1 leftmost.  Priority 0 has
none. -/
def busLine (active : Bool) (pi : BitVec 3) : BitVec 7 :=
  if active && pi != 0 then 0b1000000#7 >>> (pi.toNat - 1) else 0

def busIntr (devIntr : Level) (statPih statPil : BitVec 3) : BitVec 7 :=
  busLine (statIntLo devIntr) statPil ||| busLine (statIntHi devIntr) statPih

/-- The acknowledge lines after a clock with the address `addr` on the bus. -/
def nextInta (addr : BitVec 36) (statPih statPil : BitVec 3) (devIntr : Level) : Level :=
  if Uba.wruRead addr && Bus.busPi addr == statPih then
    if bit devIntr 0 then Level.intr7
    else if bit devIntr 1 then Level.intr6
    else Level.intrNul
  else if Uba.wruRead addr && Bus.busPi addr == statPil then
    if bit devIntr 2 then Level.intr5
    else if bit devIntr 3 then Level.intr4
    else Level.intrNul
  else Level.intrNul

/-- The data of a vector cycle.  The last choice on BR7 takes the data of the third
device for the fourth. -/
def vectorData (intr : Fin 4 → Level) (data : Fin 4 → BitVec 36) : BitVec 36 :=
  if bit (intr 0) 0 then data 0
  else if bit (intr 1) 0 then data 1
  else if bit (intr 2) 0 then data 2
  else if bit (intr 3) 0 then data 2
  else if bit (intr 0) 1 then data 0
  else if bit (intr 1) 1 then data 1
  else if bit (intr 2) 1 then data 2
  else if bit (intr 3) 1 then data 3
  else if bit (intr 0) 2 then data 0
  else if bit (intr 1) 2 then data 1
  else if bit (intr 2) 2 then data 2
  else if bit (intr 3) 2 then data 3
  else if bit (intr 0) 3 then data 0
  else if bit (intr 1) 3 then data 1
  else if bit (intr 2) 3 then data 2
  else if bit (intr 3) 3 then data 3
  else 0

end UbaIntr

end KS10
