import KS10.Clocked.Literal
import KS10.Clocked.Run
import Mathlib.Data.List.Nodup

/-!
# The frame of a character

An asynchronous character is a start bit, five to eight data bits, a parity bit or none, and one
or two stop bits.  The transmitter and the receiver of the UART go through the bits of the
frame each with its own code; the frame itself is the list of the bits in their order.
-/

namespace KS10

/-- The bits of a frame. -/
inductive Uart.Sym where
  | start
  | bit (k : Fin 8)
  | parity
  | stop1
  | stop2
  deriving DecidableEq

/-- The configuration of a line. -/
structure UartCfg where
  length : BitVec 2
  parity : BitVec 2
  stop : Bool
  deriving DecidableEq

namespace UartCfg

open Uart (Sym)

def parOdd : BitVec 2 := 0b01
def parEven : BitVec 2 := 0b11

def hasParity (c : UartCfg) : Bool := c.parity == parEven || c.parity == parOdd

/-- The number of data bits. -/
def bits (c : UartCfg) : Nat := 5 + c.length.toNat

/-- The bits of the frame in their order. -/
def plan (c : UartCfg) : List Sym :=
  .start :: (((List.finRange 8).take c.bits).map Sym.bit ++
    ((if c.hasParity then [Sym.parity] else []) ++
      .stop1 :: if c.stop then [Sym.stop2] else []))

/-- The bit at a place in the frame. -/
def symAt (c : UartCfg) (j : Nat) : Sym := c.plan.getD j .stop1

/-- The character as the receiver sees it. -/
def masked (c : UartCfg) (d : BitVec 8) : BitVec 8 :=
  d &&& ((1 <<< c.bits) - 1)

/-- The bits of the character that are not sent. -/
def unsent (c : UartCfg) (d : BitVec 8) : BitVec 8 := d >>> c.bits

end UartCfg

namespace Uart

/-- The exclusive or of the bits of a character. -/
def xorOf (d : BitVec 8) : Bool :=
  d.getLsbD 0 ^^ d.getLsbD 1 ^^ d.getLsbD 2 ^^ d.getLsbD 3 ^^ d.getLsbD 4 ^^ d.getLsbD 5 ^^
    d.getLsbD 6 ^^ d.getLsbD 7

end Uart

end KS10
