import KS10.Clocked.Literal
import KS10.Disk.Sd

/-!
# An SD card in SPI mode

The card that the controller talks to, one byte at a time, as the simulator of the
testbench plays it: it answers a command with empty bytes and a response, sends a block
after a data token, takes a block after a data token and is busy for a while.  How long
it takes for each of these is left open, within what the controller accepts
(`Card.Timing`).

While the card sends it does not listen; everything that it is going to send is the list
`Card.out`.  With the chip select negated it neither sends nor listens.
-/

namespace KS10

open Sd (ff)

/-- How long the card takes, and the check bytes of the blocks it sends: for each command
by its number. -/
structure Card.Timing where
  /-- The empty bytes before a response. -/
  ncr : Nat → Fin 8
  /-- The empty bytes before a data token. -/
  nac : Nat → Fin 1023
  /-- The busy bytes after a block is written. -/
  busy : Nat → Fin 65536
  crc : Nat → BitVec 8 × BitVec 8

inductive Card.Listen where
  | command (got : List (BitVec 8))
  | token (block : BitVec 32)
  | data (block : BitVec 32) (got : List (BitVec 8))

structure Card where
  /-- The bytes of the blocks. -/
  data : BitVec 32 → Nat → BitVec 8
  /-- The blocks that have been written. -/
  written : List (BitVec 32)
  out : List (BitVec 8)
  listen : Card.Listen
  /-- The number of commands so far. -/
  commands : Nat

namespace Card

variable (timing : Timing)

/-- The bytes of a block and its check bytes. -/
def blockBytes (c : Card) (a : BitVec 32) : List (BitVec 8) :=
  (List.range 512).map (c.data a) ++ [(timing.crc c.commands).1, (timing.crc c.commands).2]

/-- The empty bytes and the response `00`. -/
def response (c : Card) : List (BitVec 8) := List.replicate (timing.ncr c.commands) ff ++ [0x00]

/-- The address in a command. -/
def address (cmd : List (BitVec 8)) : BitVec 32 :=
  cmd.getD 1 0 ++ cmd.getD 2 0 ++ cmd.getD 3 0 ++ cmd.getD 4 0

/-- Carry out a command. -/
def accept (c : Card) (cmd : List (BitVec 8)) : Card :=
  if cmd.getD 0 0 = 0x51 then
    { c with
      out := c.response timing ++ List.replicate (timing.nac c.commands) ff ++
        0xfe :: c.blockBytes timing (address cmd)
      listen := .command []
      commands := c.commands + 1 }
  else if cmd.getD 0 0 = 0x58 then
    { c with
      out := c.response timing
      listen := .token (address cmd)
      commands := c.commands + 1 }
  else if cmd.getD 0 0 = 0x4d then
    { c with
      out := c.response timing ++ [0x00]
      listen := .command []
      commands := c.commands + 1 }
  else
    -- An illegal command.
    { c with
      out := List.replicate (timing.ncr c.commands) ff ++ [0x04]
      listen := .command []
      commands := c.commands + 1 }

/-- Store a block. -/
def store (c : Card) (a : BitVec 32) (bytes : List (BitVec 8)) : Card :=
  { c with
    data := Function.update c.data a fun k => bytes.getD k 0
    written := c.written ++ [a]
    out := 0xe5 :: List.replicate (timing.busy c.commands) 0x00
    listen := .command [] }

/-- The byte the card sends. -/
def reply (c : Card) : BitVec 8 := c.out.headD ff

/-- Take a byte while it listens. -/
def hear (c : Card) (tx : BitVec 8) : Card :=
  match c.listen with
  | .command [] => if tx.extractLsb' 6 2 = 0b01 then { c with listen := .command [tx] } else c
  | .command (x :: got) =>
      if got.length = 4 then c.accept timing (x :: got ++ [tx])
      else { c with listen := .command (x :: got ++ [tx]) }
  | .token a => if tx = 0xfe then { c with listen := .data a [] } else c
  | .data a got =>
      -- The last two bytes are the check bytes.
      if got.length = 513 then c.store timing a (got ++ [tx])
      else { c with listen := .data a (got ++ [tx]) }

/-- One byte is exchanged. -/
def exchange (c : Card) (tx : BitVec 8) : Card :=
  match c.out with
  | _ :: rest => { c with out := rest }
  | [] => c.hear timing tx

end Card

end KS10
