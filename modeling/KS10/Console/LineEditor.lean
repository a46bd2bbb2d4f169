import KS10.Clocked.Run
import KS10.Console.History

/-!
# The line editor of the console

The console edits the command line in a buffer of 80 bytes, with a length and a cursor.  The
cursor is an object of its own, which moves the cursor of the terminal and counts in eight
bits.  A read or a write outside of the buffer has no result here (`none`).

The abstract editor (`Editor`) has the characters before the cursor and those from the cursor
on.  A key that does not find the characters it needs does nothing there.
-/

namespace KS10

open Clocked

/-! ## Keys -/

/-- The escape sequence that the keys have begun. -/
inductive Cmdline.State where
  | none
  | esc
  | escBrk
  | pfn
  | home
  | ins
  | end
  | pgUp
  | pgDn
  deriving DecidableEq

/-- What a key does. -/
inductive Cmdline.Key where
  | newline
  | home
  | back
  | delchar
  | end
  | fwd
  | eraseeol
  | redraw
  | down
  | up
  | transpose
  | clear
  | backspace
  | inschar (ch : BitVec 8)
  /-- The command history is printed. -/
  | dump
  | nothing
  deriving DecidableEq

namespace Cmdline

def isprint (ch : BitVec 8) : Bool := 0x20#8 ≤ ch && ch ≤ 0x7e#8

/-- The keys outside of escape sequences. -/
def plain (ch : BitVec 8) : State × Key :=
  match ch.toNat with
  | 0x0d => (.none, .newline)
  | 0x0a => (.none, .nothing)
  | 0x01 => (.none, .home)
  | 0x02 => (.none, .back)
  | 0x04 | 0x7f => (.none, .delchar)
  | 0x05 => (.none, .end)
  | 0x06 => (.none, .fwd)
  | 0x07 => (.none, .nothing)
  | 0x0b => (.none, .eraseeol)
  | 0x0c => (.none, .redraw)
  | 0x0e => (.none, .down)
  | 0x10 => (.none, .up)
  | 0x14 => (.none, .transpose)
  | 0x15 => (.none, .clear)
  | 0x1b => (.esc, .nothing)
  | 0x03 | 0x08 => (.none, .backspace)
  | _ => (.none, if isprint ch then .inschar ch else .nothing)

/-- The last character of a sequence of the keypad. -/
def keypad (ch : BitVec 8) (key : Key) : State × Key :=
  (.none, if ch = 0x7e then key else .nothing)

def decode (state : State) (ch : BitVec 8) : State × Key :=
  match state with
  | .none => plain ch
  | .esc =>
      match ch.toNat with
      | 0x5b => (.escBrk, .nothing)
      | 0x4f => (.pfn, .nothing)
      | _ => (.none, .nothing)
  | .escBrk =>
      match ch.toNat with
      | 0x41 => (.none, .up)
      | 0x42 => (.none, .down)
      | 0x43 => (.none, .fwd)
      | 0x44 => (.none, .back)
      | 0x31 => (.home, .nothing)
      | 0x32 => (.ins, .nothing)
      | 0x34 => (.end, .nothing)
      | 0x35 => (.pgUp, .nothing)
      | 0x36 => (.pgDn, .nothing)
      | _ => (.none, .nothing)
  | .pfn => (.none, if ch = 0x50 then .dump else .nothing)
  | .home => keypad ch .home
  | .ins => keypad ch .nothing
  | .end => keypad ch .end
  | .pgUp => keypad ch .nothing
  | .pgDn => keypad ch .nothing

end Cmdline

/-! ## The editor of the console -/

structure Cmdline where
  state : Cmdline.State
  hist : Hist
  /-- The position of the cursor, and the one that is saved. -/
  curpos : BitVec 8
  cursav : BitVec 8
  cmdline : Nat → BitVec 8
  cmdlen : Nat
  /-- The strings passed to the executor so far. -/
  executed : List (List (BitVec 8))

namespace Cmdline

def size : Nat := 80

/-- The length of the prompt. -/
def ps : BitVec 8 := 7

/-! ### The buffer -/

def get (s : Cmdline) (k : Nat) : Option (BitVec 8) := if k < size then some (s.cmdline k) else none

def set (s : Cmdline) (k : Nat) (ch : BitVec 8) : Option Cmdline :=
  if k < size then some { s with cmdline := Function.update s.cmdline k ch } else none

def memmove (s : Cmdline) (dst src n : Nat) : Option Cmdline :=
  if n = 0 ∨ dst + n ≤ size ∧ src + n ≤ size then
    some
      { s with
        cmdline := fun k =>
          if dst ≤ k ∧ k < dst + n then s.cmdline (k - dst + src) else s.cmdline k }
  else none

/-- The string from a place on, if there is an end of it in the buffer. -/
def string (s : Cmdline) : Nat → Nat → Option (List (BitVec 8))
  | 0, _ => none
  | room + 1, k =>
      if s.cmdline k = 0 then some [] else (s.string room (k + 1)).map (s.cmdline k :: ·)

/-! ### The cursor -/

def fwd (s : Cmdline) (offset : BitVec 8) : Cmdline := { s with curpos := s.curpos + offset }

def back (s : Cmdline) (offset : BitVec 8) : Cmdline := { s with curpos := s.curpos - offset }

def move (s : Cmdline) (pos : BitVec 8) : Cmdline :=
  { (s.back 99).fwd (ps + pos) with curpos := pos }

def save (s : Cmdline) : Cmdline := { s with cursav := s.curpos }

def restore (s : Cmdline) : Cmdline := { s with curpos := s.cursav }

def putchar (s : Cmdline) (ch : BitVec 8) : Cmdline :=
  match ch.toNat with
  | 0x07 => s
  | 0x08 => { s with curpos := s.curpos - 1 }
  | 0x0a => { s with curpos := 0 }
  | _ => { s with curpos := s.curpos + 1 }

/-! ### The operations -/

/-- The loop that prints the line from the cursor on. -/
def print : Nat → BitVec 8 → Cmdline → Option Cmdline
  | 0, _, _ => none
  | fuel + 1, i, s =>
      if i.toNat < s.cmdlen then do
        let ch ← s.get i.toNat
        print fuel (i + 1) (s.putchar ch)
      else some s

def update (s : Cmdline) : Option Cmdline := (print 256 s.curpos s.save).map restore

/-- The characters of a recall are stored from the beginning of the buffer on. -/
def put (s : Cmdline) : List (BitVec 8) → Nat → Option Cmdline
  | [], _ => some s
  | ch :: chars, k => do
      let s ← s.set k ch
      s.put chars (k + 1)

def getHist (s : Cmdline) (dir : Hist.Dir) : Option Cmdline := do
  let (r, hist) ← s.hist.recallLine dir
  let s ← ({ s with hist := hist } : Cmdline).put r.chars 0
  if 0 ≤ r.result then
    let s ← ({ s with cmdlen := r.result.toNat }.move 0).update
    some (s.fwd (BitVec.ofNat 8 s.cmdlen))
  else some s

def inschar (s : Cmdline) (ch : BitVec 8) : Option Cmdline :=
  if s.cmdlen < size - 1 then do
    let curpos := s.curpos.toNat
    let s ← s.memmove (curpos + 1) curpos (Hist.sub s.cmdlen curpos)
    let s ← s.set curpos ch
    let s := s.putchar ch
    let s := { s with cmdlen := s.cmdlen + 1 }
    if curpos ≠ s.cmdlen then s.update else some s
  else some s

/-- The line has one character less, and its end is marked. -/
def shorten (s : Cmdline) : Option Cmdline :=
  let cmdlen := Hist.sub s.cmdlen 1
  ({ s with cmdlen := cmdlen } : Cmdline).set cmdlen 0

def delchar (s : Cmdline) : Option Cmdline :=
  let curpos := s.curpos.toNat
  if curpos ≠ s.cmdlen then do
    let s ← s.memmove curpos (curpos + 1) (Hist.sub (Hist.sub s.cmdlen curpos) 1)
    let s ← s.shorten
    s.update
  else some s

def backspace (s : Cmdline) : Option Cmdline :=
  let curpos := s.curpos.toNat
  if curpos > 0 then do
    let s ← s.memmove (curpos - 1) curpos (Hist.sub s.cmdlen curpos + 1)
    let s ← s.shorten
    (s.back 1).update
  else some s

def transpose (s : Cmdline) : Option Cmdline := do
  let curpos := s.curpos.toNat
  let temp ← s.get curpos
  let before ← s.get (Hist.sub curpos 1)
  let s ← s.set curpos before
  let s ← s.set (Hist.sub curpos 1) temp
  let s ← (s.back 1).update
  some (s.fwd 1)

/-- The line as the executor finds it in the buffer. -/
def command (s : Cmdline) : Option (List (BitVec 8)) := do
  let s ← s.set s.cmdlen 0
  s.string size 0

/-- The characters of the line. -/
def line (s : Cmdline) : Option (List (BitVec 8)) :=
  if s.cmdlen ≤ size then some ((List.range s.cmdlen).map s.cmdline) else none

def newline (s : Cmdline) : Option Cmdline := do
  let line ← s.line
  let hist ← s.hist.save line
  let text ← s.command
  some
    { s with
      hist := hist
      curpos := 0
      cmdlen := 0
      executed := s.executed ++ [text]
      cmdline := fun _ => 0 }

def act (s : Cmdline) : Key → Option Cmdline
  | .newline => s.newline
  | .home => some (s.move 0)
  | .back => some (if s.curpos.toNat > 0 then s.back 1 else s)
  | .delchar => s.delchar
  | .end => some (s.move (BitVec.ofNat 8 s.cmdlen))
  | .fwd => some (if s.curpos.toNat < s.cmdlen then s.fwd 1 else s)
  | .eraseeol => some { s with cmdlen := s.curpos.toNat }
  | .redraw => (s.move 0).update.map fun s => s.fwd (BitVec.ofNat 8 s.cmdlen)
  | .down => s.getHist .down
  | .up => s.getHist .up
  | .transpose => s.transpose
  | .clear => some { s.move 0 with cmdlen := 0 }
  | .backspace => s.backspace
  | .inschar ch => s.inschar ch
  | .dump => (s.string size 0).map fun _ => s
  | .nothing => some s

/-- A character comes from the terminal. -/
def process (s : Cmdline) (ch : BitVec 8) : Option Cmdline :=
  ({ s with state := (decode s.state ch).1 } : Cmdline).act (decode s.state ch).2

/-- `ds unit=2;bt 1` -/
def firstLine : List (BitVec 8) :=
  [100, 115, 32, 117, 110, 105, 116, 61, 50, 59, 98, 116, 32, 49]

/-- The editor at its start. -/
def init : Option Cmdline :=
  (Hist.init.save firstLine).map fun hist =>
    { state := .none, hist := hist, curpos := 0, cursav := 0, cmdline := fun _ => 0, cmdlen := 0,
      executed := [] }

end Cmdline

/-! ## The abstract editor -/

/-- The characters before the cursor and those from the cursor on. -/
structure Editor where
  before : List (BitVec 8)
  after : List (BitVec 8)

namespace Editor

/-- A line has no more characters. -/
def most : Nat := 79

def empty : Editor := ⟨[], []⟩

def line (e : Editor) : List (BitVec 8) := e.before ++ e.after

def cursor (e : Editor) : Nat := e.before.length

def home (e : Editor) : Editor := ⟨[], e.line⟩

def toEnd (e : Editor) : Editor := ⟨e.line, []⟩

def back (e : Editor) : Editor :=
  match e.before.getLast? with
  | some ch => ⟨e.before.dropLast, ch :: e.after⟩
  | none => e

def fwd (e : Editor) : Editor :=
  match e.after with
  | ch :: after => ⟨e.before ++ [ch], after⟩
  | [] => e

def insert (e : Editor) (ch : BitVec 8) : Editor :=
  if e.line.length < most then ⟨e.before ++ [ch], e.after⟩ else e

def delete (e : Editor) : Editor := ⟨e.before, e.after.tail⟩

def backspace (e : Editor) : Editor := ⟨e.before.dropLast, e.after⟩

/-- The characters on both sides of the cursor change places. -/
def transpose (e : Editor) : Editor :=
  match e.before.getLast?, e.after with
  | some first, second :: after => ⟨e.before.dropLast ++ [second], first :: after⟩
  | _, _ => e

/-- The rest of the line from the cursor on is deleted. -/
def kill (e : Editor) : Editor := ⟨e.before, []⟩

end Editor

/-- The abstract editor with the history and the lines that have been executed. -/
structure Session where
  state : Cmdline.State
  editor : Editor
  past : Past
  executed : List (List (BitVec 8))

namespace Session

/-- A line that is recalled takes the place of the line. -/
def recallLine (s : Session) (dir : Hist.Dir) : Session :=
  { s with
    past := (s.past.recallLine dir).2
    editor :=
      if 0 ≤ (s.past.recallLine dir).1.result then ⟨(s.past.recallLine dir).1.chars, []⟩ else s.editor }

/-- The line is executed and saved. -/
def newline (s : Session) : Session :=
  { s with
    editor := .empty
    past := if s.editor.line = [] then s.past else s.past.save s.editor.line
    executed := s.executed ++ [s.editor.line] }

def act (s : Session) : Cmdline.Key → Session
  | .newline => s.newline
  | .home => { s with editor := s.editor.home }
  | .back => { s with editor := s.editor.back }
  | .delchar => { s with editor := s.editor.delete }
  | .end => { s with editor := s.editor.toEnd }
  | .fwd => { s with editor := s.editor.fwd }
  | .eraseeol => { s with editor := s.editor.kill }
  | .redraw => { s with editor := s.editor.toEnd }
  | .down => s.recallLine .down
  | .up => s.recallLine .up
  | .transpose => { s with editor := s.editor.transpose }
  | .clear => { s with editor := .empty }
  | .backspace => { s with editor := s.editor.backspace }
  | .inschar ch => { s with editor := s.editor.insert ch }
  | .dump => s
  | .nothing => s

def process (s : Session) (ch : BitVec 8) : Session :=
  ({ s with state := (Cmdline.decode s.state ch).1 } : Session).act (Cmdline.decode s.state ch).2

def init : Session where
  state := .none
  editor := .empty
  past := Past.save ⟨[], 0⟩ Cmdline.firstLine
  executed := []

end Session

end KS10
