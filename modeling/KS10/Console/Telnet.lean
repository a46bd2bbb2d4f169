import Mathlib.Data.List.Basic

/-!
# The Telnet decoder

The console listens on a Telnet port.  A state machine takes the commands out of the
byte stream and passes the other bytes to a line buffer of 133 bytes.  The TCP stack
hands over each segment as a chain of buffers; the receive function walks the whole
length of the chain with a pointer into the first buffer, and the line buffer takes
every character without looking at its length.  What lies behind a buffer is not
known, so that a read or a write outside of one has no result here (`none`).

A stream is made of data bytes, escaped bytes 255 and commands of three bytes
(`Telnet.Item`).  The decoder passes its data bytes exactly when every chain
is a single buffer and no line is longer than the line buffer (`Telnet.FitsAll`).
-/

namespace KS10

/-- The chain of buffers of one segment. -/
structure Pbuf where
  payload : List (BitVec 8)
  /-- The payloads of the other buffers. -/
  next : List (List (BitVec 8))

namespace Pbuf

/-- The bytes of the segment. -/
def bytes (p : Pbuf) : List (BitVec 8) := p.payload ++ p.next.flatten

def totLen (p : Pbuf) : Nat := p.bytes.length

end Pbuf

inductive Telnet.State where
  | stateNORMAL
  | stateIAC
  | stateWILL
  | stateWONT
  | stateDO
  | stateDONT
  deriving DecidableEq

structure Telnet where
  state : Telnet.State
  /-- The string in the line buffer. -/
  ibuf : List (BitVec 8)
  /-- The receive function is registered with the connection. -/
  opened : Bool
  /-- The characters passed to the line buffer so far. -/
  passed : List (BitVec 8)
  deriving DecidableEq

namespace Telnet

/-! ## The decoder -/

def cmdWILL : BitVec 8 := 251
def cmdWONT : BitVec 8 := 252
def cmdDO : BitVec 8 := 253
def cmdDONT : BitVec 8 := 254
def cmdIAC : BitVec 8 := 255

def cr : BitVec 8 := 13
def lf : BitVec 8 := 10

/-- The option of a `DO` that closes the connection. -/
def timingMark : BitVec 8 := 6

/-- The size of the line buffer. -/
def ibufSize : Nat := 133

def quit : List (BitVec 8) := [113, 117, 105, 116]

/-- The decoder once a connection has been accepted. -/
def accepted : Telnet := ⟨.stateNORMAL, [], true, []⟩

def closeConn (s : Telnet) : Telnet := { s with opened := false }

/-- The line `quit` closes the connection and stays in the buffer. -/
def cmdParser (s : Telnet) : Telnet :=
  if s.ibuf = quit then s.closeConn else { s with ibuf := [] }

/-- The character is written over the end of the string, and a new end behind it.  A
null character ends the string where it was. -/
def getChar (s : Telnet) (ch : BitVec 8) : Option Telnet :=
  let s := { s with passed := s.passed ++ [ch] }
  if ch = cr then some s
  else if ch = lf then some s.cmdParser
  else if s.ibuf.length + 1 < ibufSize then
    some { s with ibuf := if ch = 0 then s.ibuf else s.ibuf ++ [ch] }
  else none

def updateState (s : Telnet) (ch : BitVec 8) : Option Telnet :=
  match s.state with
  | .stateIAC =>
      if ch = cmdIAC then (s.getChar ch).map fun s => { s with state := .stateNORMAL }
      else if ch = cmdWILL then some { s with state := .stateWILL }
      else if ch = cmdWONT then some { s with state := .stateWONT }
      else if ch = cmdDO then some { s with state := .stateDO }
      else if ch = cmdDONT then some { s with state := .stateDONT }
      else some { s with state := .stateNORMAL }
  | .stateWILL => some { s with state := .stateNORMAL }
  | .stateWONT => some { s with state := .stateNORMAL }
  | .stateDO =>
      let s := { s with state := .stateNORMAL }
      some (if ch = timingMark then s.closeConn else s)
  | .stateDONT => some { s with state := .stateNORMAL }
  | .stateNORMAL =>
      if ch = cmdIAC then some { s with state := .stateIAC } else s.getChar ch

/-- The walk over `n` bytes from a pointer into a buffer. -/
def walk : Telnet → List (BitVec 8) → Nat → Option Telnet
  | s, _, 0 => some s
  | _, [], _ + 1 => none
  | s, ch :: buf, n + 1 => (s.updateState ch).bind fun s => walk s buf n

/-- A segment is received. -/
def recv (s : Telnet) (p : Pbuf) : Option Telnet := s.walk p.payload p.totLen

/-- The bytes of the segments that are received. -/
def received : Telnet → List Pbuf → List (BitVec 8)
  | _, [] => []
  | s, p :: ps =>
      if s.opened then p.bytes ++ ((s.recv p).map fun s => received s ps).getD [] else []

/-! ## Streams -/

inductive Cmd where
  | willOption
  | wontOption
  | doOption
  | dontOption

def Cmd.code : Cmd → BitVec 8
  | willOption => cmdWILL
  | wontOption => cmdWONT
  | doOption => cmdDO
  | dontOption => cmdDONT

/-- What a stream is made of. -/
inductive Item where
  | data (ch : BitVec 8) (h : ch ≠ cmdIAC)
  | escaped
  | command (c : Cmd) (option : BitVec 8)

namespace Item

def bytes : Item → List (BitVec 8)
  | data ch _ => [ch]
  | escaped => [cmdIAC, cmdIAC]
  | command c option => [cmdIAC, c.code, option]

/-- The data bytes. -/
def chars : Item → List (BitVec 8)
  | data ch _ => [ch]
  | escaped => [cmdIAC]
  | command _ _ => []

end Item

/-- The beginning of an item that the stream has not yet completed. -/
inductive Partial : List (BitVec 8) → Prop
  | none : Partial []
  | iac : Partial [cmdIAC]
  | command (c : Cmd) : Partial [cmdIAC, c.code]

/-! ## What is claimed -/

/-- The byte is no character that the line buffer stores, or the line buffer has room. -/
def Room (s : Telnet) (ch : BitVec 8) : Prop :=
  (s.state = .stateNORMAL ∧ ch ≠ cmdIAC ∨ s.state = .stateIAC ∧ ch = cmdIAC) →
    ch ≠ cr → ch ≠ lf → s.ibuf.length + 1 < ibufSize

/-- Every byte of a buffer finds room. -/
def Fits : Telnet → List (BitVec 8) → Prop
  | _, [] => True
  | s, ch :: buf => s.Room ch ∧ ∀ s', s.updateState ch = some s' → Fits s' buf

variable {s s' : Telnet} {ch : BitVec 8}

theorem getChar_eq (h : s.getChar ch = some s') :
    s'.passed = s.passed ++ [ch] ∧ s'.state = s.state := by
  unfold getChar at h
  dsimp only at h
  split at h
  · cases h
    exact ⟨rfl, rfl⟩
  · split at h
    · cases h
      unfold cmdParser
      split
      · exact ⟨rfl, rfl⟩
      · exact ⟨rfl, rfl⟩
    · split at h
      · cases h
        exact ⟨rfl, rfl⟩
      · cases h

/-- The bytes one after the other. -/
def feed (s : Telnet) (buf : List (BitVec 8)) : Option Telnet := buf.foldlM updateState s

theorem feed_cons (s : Telnet) (ch : BitVec 8) (buf : List (BitVec 8)) :
    s.feed (ch :: buf) = (s.updateState ch).bind fun s => s.feed buf := List.foldlM_cons

theorem feed_append (s : Telnet) (buf buf' : List (BitVec 8)) :
    s.feed (buf ++ buf') = (s.feed buf).bind fun s => s.feed buf' := List.foldlM_append

end Telnet

end KS10
