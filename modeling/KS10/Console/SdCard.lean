import Mathlib.Data.List.Basic

/-!
# The driver of the SD card

The console talks to the SD card over an SPI: for each byte that it sends it receives one.  The
functions below are programs on the driver's variables, the chip select, and the stream of bytes
that the card returns (`SdHost.Driver`).  Messages are left out, and `char` has no sign.
-/

namespace KS10

structure SdHost where
  /-- The bytes that the card returns. -/
  card : Nat → BitVec 8
  /-- The number of bytes exchanged. -/
  pos : Nat
  sent : List (BitVec 8)
  /-- The chip select is asserted. -/
  cs : Bool
  typeSDSC : Bool
  initialized : Bool
  sectors : BitVec 32

namespace SdHost

/-- A program of the driver. -/
def Driver (α : Type) := SdHost → α × SdHost

instance : Monad Driver where
  pure a := fun s => (a, s)
  bind x f := fun s => f (x s).1 (x s).2

/-! ## Bytes -/

def chipEnable (enable : Bool) : Driver Unit := fun s => ((), { s with cs := enable })

def transactData (byte : BitVec 8) : Driver (BitVec 8) := fun s =>
  (s.card s.pos, { s with pos := s.pos + 1, sent := s.sent ++ [byte] })

/-- A number of bytes are received and dropped. -/
def skip : Nat → Driver Unit
  | 0 => pure ()
  | n + 1 => do
      let _ ← transactData 0xff
      skip n

def receive : Nat → Driver (List (BitVec 8))
  | 0 => pure []
  | n + 1 => do
      let byte ← transactData 0xff
      let rest ← receive n
      pure (byte :: rest)

def transmit : List (BitVec 8) → Driver Unit
  | [] => pure ()
  | byte :: rest => do
      let _ ← transactData byte
      transmit rest

/-- The loops that wait for a byte that is not all ones.  After the last pass they return the
ones. -/
def poll : Nat → Driver (BitVec 8)
  | 0 => pure 0xff
  | n + 1 => do
      let response ← transactData 0xff
      if response ≠ 0xff then pure response else poll n

/-! ## Commands and responses -/

def nCR : Nat := 8
def nAC : Nat := 1023

def CMD0 : BitVec 8 := 0
def ACMD41 : BitVec 8 := 41
def CMD55 : BitVec 8 := 55
def rspR1_OK : BitVec 8 := 0x00
def rspR1_IDLE : BitVec 8 := 0x01
def rspR2_OK : BitVec 8 := 0x00

def sendCommand (cmd : BitVec 8) (data : BitVec 32) (crc : BitVec 8) : Driver (BitVec 8) := do
  transmit
    [(cmd &&& ~~~0x80) ||| 0x40, (data >>> 24).setWidth 8, (data >>> 16).setWidth 8,
      (data >>> 8).setWidth 8, data.setWidth 8, crc]
  poll nCR

/-- One pass of the loop that resets the card. -/
def goIdle : Driver (BitVec 8) := do
  chipEnable false
  skip 10
  chipEnable true
  let rsp0 ← sendCommand CMD0 0x00000000 0x95
  chipEnable false
  skip 1
  pure rsp0

/-- The loop, with `n` passes to come after this one. -/
def resetCard : Nat → Driver Bool
  | 0 => do
      let rsp0 ← goIdle
      pure (rsp0 == rspR1_IDLE)
  | n + 1 => do
      let rsp0 ← goIdle
      if rsp0 = rspR1_IDLE then pure true else resetCard n

/-- A command between two changes of the chip select. -/
def command (cmd : BitVec 8) (data : BitVec 32) : Driver (BitVec 8) := do
  chipEnable true
  let rsp ← sendCommand cmd data 0xff
  chipEnable false
  skip 1
  pure rsp

/-- The loop over `CMD55` and `ACMD41`, with `n` passes to come after this one. -/
def sendOpCond2 : Nat → Driver Bool
  | 0 => do
      let rsp55 ← command CMD55 0x00000000
      if rsp55 ≠ rspR1_IDLE then pure false
      else do
        let rsp41 ← command ACMD41 0x40000000
        pure (rsp41 == rspR1_OK)
  | n + 1 => do
      let rsp55 ← command CMD55 0x00000000
      if rsp55 ≠ rspR1_IDLE then pure false
      else do
        let rsp41 ← command ACMD41 0x40000000
        if rsp41 = rspR1_OK then pure true else sendOpCond2 n

/-- The loop over `ACMD41` alone. -/
def sendOpCond1 : Nat → Driver Bool
  | 0 => do
      let rsp41 ← command ACMD41 0x40000000
      pure (rsp41 == rspR1_OK)
  | n + 1 => do
      let rsp41 ← command ACMD41 0x40000000
      if rsp41 = rspR1_OK then pure true else sendOpCond1 n

/-- The loops that look for the registers of the card: the 20 bytes after a token, which has to
come within `n` bytes. -/
def readRegister : Nat → Driver (Option (List (BitVec 8)))
  | 0 => pure none
  | n + 1 => do
      let sync ← transactData 0xff
      if sync = 0xfe then do
        let buf ← receive 20
        pure (some buf)
      else readRegister n

/-- The address of a sector on the card. -/
def address (typeSDSC : Bool) (sector : BitVec 32) : BitVec 32 :=
  if typeSDSC then sector <<< 9 else sector

/-- The loop that waits for the end of the busy tokens.  The pass after the last of the `n` ones
gives up. -/
def waitReady : Nat → Driver Bool
  | 0 => do
      skip 1
      pure false
  | n + 1 => do
      let token ← transactData 0xff
      if token = 0 then waitReady n else pure true

end SdHost

end KS10
