import KS10.Clocked.Leads
import KS10.Disk.Card
import KS10.Disk.Waits

/-!
# The controller carrying out a transfer

`Xfer` is the SD controller with everything a transfer runs through: the SPI engine as an
exchange of bytes, the card, the bus address and word count registers of the RH11, its
write check error, and the memory at the other end of the DMA cycles.  All times are
open: how long each byte takes, how long each DMA cycle waits for its acknowledge, and
how long the card takes to answer (`Xfer.Env`).

The program leaves the registers of the RH11 alone during the transfer.
-/

namespace KS10

open Clocked
open Sd (ff)

/-! ## The bus address and word count registers -/

/-- The register RHBA: bits 17 to 1 of the bus address. -/
structure RhBa where
  addr : BitVec 17
  deriving DecidableEq

structure RhBa.In where
  devRESET : Bool
  devLOBYTE : Bool
  devHIBYTE : Bool
  rhDATAI : BitVec 36
  rhcs1WRITE : Bool
  rhbaWRITE : Bool
  rhCLR : Bool
  rhRDY : Bool
  rhBAI : Bool
  rhINCBA : Bool

namespace RhBa

def rhBA (r : RhBa) : BitVec 18 := r.addr ++ 0#1

/-- The word of the memory that the bus address selects. -/
def word (r : RhBa) : BitVec 16 := r.rhBA.extractLsb' 2 16

def next (r : RhBa) (i : In) : RhBa :=
  if i.devRESET || i.rhCLR then { addr := 0 }
  else if i.rhcs1WRITE && i.devHIBYTE && i.rhRDY then
    { addr := i.rhDATAI.extractLsb' 8 2 ++ r.addr.extractLsb' 0 15 }
  else if i.rhbaWRITE then
    { addr := r.addr.extractLsb' 15 2 ++
        (if i.devHIBYTE then i.rhDATAI.extractLsb' 8 8 else r.addr.extractLsb' 7 8) ++
        (if i.devLOBYTE then i.rhDATAI.extractLsb' 1 7 else r.addr.extractLsb' 0 7) }
  else if i.rhINCBA && !i.rhBAI then { addr := r.addr + 2 }
  else r

end RhBa

/-- The register RHWC. -/
structure RhWc where
  rhWC : BitVec 16
  deriving DecidableEq

structure RhWc.In where
  devRESET : Bool
  devLOBYTE : Bool
  devHIBYTE : Bool
  rhDATAI : BitVec 36
  rhwcWRITE : Bool
  rhCLR : Bool
  rhINCWC : Bool

namespace RhWc

def next (r : RhWc) (i : In) : RhWc :=
  if i.devRESET || i.rhCLR then { rhWC := 0 }
  else if i.rhwcWRITE then
    { rhWC :=
        (if i.devHIBYTE then i.rhDATAI.extractLsb' 8 8 else r.rhWC.extractLsb' 8 8) ++
        (if i.devLOBYTE then i.rhDATAI.extractLsb' 0 8 else r.rhWC.extractLsb' 0 8) }
  else if i.rhINCWC then { rhWC := r.rhWC + 2 }
  else r

end RhWc

/-! ## The controller and its surroundings -/

/-- What a transfer meets: the times of the SPI bytes, of the DMA acknowledges and of the
card, by their number; the sectors at which the drive still requests the transfer; the
bus address increment inhibit; and the memory. -/
structure Xfer.Env where
  byteDelay : Nat → Nat
  ackDelay : Nat → Nat
  timing : Card.Timing
  request : BitVec 32 → Bool
  rhBAI : Bool
  mem : BitVec 16 → BitVec 36
  rpSDOP : SdOp
  rpSDLSA : BitVec 21

structure Xfer where
  sd : Sd
  spi : ByteSpi
  card : Card
  ba : RhBa
  wc : RhWc
  rhWCE : Bool
  /-- The words written to memory, in order. -/
  writes : List (BitVec 16 × BitVec 36)
  /-- The clocks that the DMA request has waited. -/
  waited : Nat
  /-- The number of bytes and of DMA cycles so far. -/
  bytes : Nat
  cycles : Nat

namespace Xfer

/-- The memory after some words are written. -/
def store (mem : BitVec 16 → BitVec 36) (writes : List (BitVec 16 × BitVec 36)) :
    BitVec 16 → BitVec 36 :=
  writes.foldl (fun m w => Function.update m w.1 w.2) mem

variable (env : Env)

/-- The DMA request is acknowledged. -/
def devACKI (s : Xfer) : Bool := s.sd.devREQO && s.waited == env.ackDelay s.cycles

def sdIn (s : Xfer) : Sd.In where
  spiDONE := s.spi.spiDONE
  spiRXD := s.spi.spiRXD
  devACKI := s.devACKI env
  devDATAI := store env.mem s.writes s.ba.word
  rhWC := s.wc.rhWC
  rpSDOP := env.rpSDOP
  rpSDLSA := env.rpSDLSA
  rpSDREQ := if env.request s.sd.sectADDR then BitVec.allOnes 8 else 0

def baIn (s : Xfer) : RhBa.In where
  devRESET := false
  devLOBYTE := false
  devHIBYTE := false
  rhDATAI := 0
  rhcs1WRITE := false
  rhbaWRITE := false
  rhCLR := false
  rhRDY := false
  rhBAI := env.rhBAI
  rhINCBA := s.sd.sdINCBA

def wcIn (s : Xfer) : RhWc.In where
  devRESET := false
  devLOBYTE := false
  devHIBYTE := false
  rhDATAI := 0
  rhwcWRITE := false
  rhCLR := false
  rhINCWC := s.sd.sdINCWC

/-- The byte that the card sends: none with the chip select negated. -/
def reply (s : Xfer) : BitVec 8 := if s.spi.spiCS then ff else s.card.reply

def spiIn (s : Xfer) : ByteSpi.In where
  spiOP := s.sd.spiOP
  spiTXD := s.sd.spiTXD
  delay := env.byteDelay s.bytes
  reply := s.reply

/-- The byte that ends at this clock. -/
def ending (s : Xfer) : Option (BitVec 8) :=
  match s.spi.byte with
  | some (tx, 0) => some tx
  | _ => none

/-- One clock. -/
def step (s : Xfer) : Xfer where
  sd := s.sd.next (s.sdIn env)
  spi := s.spi.next (s.spiIn env)
  card := match s.ending with
    | some tx => if s.spi.spiCS then s.card else s.card.exchange env.timing tx
    | none => s.card
  ba := s.ba.next (s.baIn env)
  wc := s.wc.next s.wcIn
  rhWCE := s.rhWCE || s.sd.sdSETWCE
  writes :=
    if s.devACKI env && s.sd.sdREADOP then s.writes ++ [(s.ba.word, s.sd.devDATAO)]
    else s.writes
  waited := if s.devACKI env then 0 else if s.sd.devREQO then s.waited + 1 else s.waited
  bytes := if s.ending.isSome then s.bytes + 1 else s.bytes
  cycles := if s.devACKI env then s.cycles + 1 else s.cycles

end Xfer

end KS10
