import KS10.Clocked.Run

/-!
# The line printer

LP26 takes characters from the controller and sends them over a serial line.  Printable
characters are kept in a line buffer until a carriage return, a line feed, a form feed or a
vertical motion sends the line.  The vertical motions look at the vertical format: a mark for
each channel on each line of the form, fixed for the optical unit, loaded by the program
otherwise.
-/

namespace KS10

open Clocked

namespace Ascii

def nul : BitVec 8 := 0o000
def soh : BitVec 8 := 0o001
def bs : BitVec 8 := 0o010
def tab : BitVec 8 := 0o011
def lf : BitVec 8 := 0o012
def vt : BitVec 8 := 0o013
def ff : BitVec 8 := 0o014
def cr : BitVec 8 := 0o015
def so : BitVec 8 := 0o016
def us : BitVec 8 := 0o037
def sp : BitVec 8 := 0o040
def del : BitVec 8 := 0o177
def xon : BitVec 8 := 0o021
def xoff : BitVec 8 := 0o023

/-- The control characters that do nothing. -/
def ignored (d : BitVec 8) : Bool :=
  (soh.ule d && d.ule bs) || (so.ule d && d.ule us) || d == del

end Ascii

inductive Lp26.State where
  | idle
  | print
  | vfuEven
  | vfuOdd
  | vfuChan
  | vfuVt
  | vfuSlew
  | vfuPrint
  | vfuMove
  | vfuOffln
  | vfuNotRdy
  | vfuRdy
  | wait
  | done
  | dly1
  | dly2
  | dly3
  | dly4
  | dly5
  | dly6
  deriving DecidableEq

/-- The registers of the state machine. -/
structure Lp26.Fsm where
  state : Lp26.State
  /-- The number of characters in the line buffer. -/
  lpCctr : BitVec 8
  lpTemp : BitVec 6
  lpLctr : BitVec 8
  lpLfCnt : BitVec 8
  lpCount : BitVec 8
  lpDvfuLen : BitVec 8
  lpTxDat : BitVec 8
  lpTxStb : Bool
  lpLinBuf : BitVec 8 → BitVec 8
  /-- The marks of the loaded format. -/
  lpVfuDat : BitVec 8 → BitVec 12

/-- The registers of LP26. -/
structure Lp26 where
  fsm : Lp26.Fsm
  lpVfuRdy : Bool
  lpOnline : Bool
  lpSixLpi : Bool
  lpXon : Bool
  lastLine0 : Bool

namespace Lp26

/-- The inputs of LP26 at one clock. -/
structure In where
  rst : Bool
  lpInit : Bool
  lpSetOnln : Bool
  lpSetOffln : Bool
  lpOvfu : Bool
  lpStrobe : Bool
  lpData : BitVec 8
  lpPi : Bool
  /-- The transmitter of the serial line is empty. -/
  lpTxEmpty : Bool
  lpRxFull : Bool
  lpRxDat : BitVec 8

/-! ## The vertical format -/

/-- The lines of the optical format. -/
def ovfuLines : List (BitVec 12) :=
  [0b000011111111, 0b000010010000, 0b000010010100, 0b000010011000, 0b000010010100,
   0b000010010000, 0b000010011100, 0b000010010000, 0b000010010100, 0b000010011000,
   0b000010110100, 0b000010010000, 0b000010011100, 0b000010010000, 0b000010010100,
   0b000010011000, 0b000010010100, 0b000010010000, 0b000010011100, 0b000010010000,
   0b000011110100, 0b000010011000, 0b000010010100, 0b000010010000, 0b000010011100,
   0b000010010000, 0b000010010100, 0b000010011000, 0b000010010100, 0b000010010000,
   0b000010111110, 0b000010010000, 0b000010010100, 0b000010011000, 0b000010010100,
   0b000010010000, 0b000010011100, 0b000010010000, 0b000010010100, 0b000010011000,
   0b000011110100, 0b000010010000, 0b000010011100, 0b000010010000, 0b000010010100,
   0b000010011000, 0b000010010100, 0b000010010000, 0b000010011100, 0b000010010000,
   0b000010110100, 0b000010011000, 0b000010010100, 0b000010010000, 0b000010011100,
   0b000010010000, 0b000010010100, 0b000010011000, 0b000010010100, 0b000010010000,
   0b000000010000, 0b000000010000, 0b000000010000, 0b000000010000, 0b000000010000,
   0b100000010000]

def ovfuDat (k : BitVec 8) : BitVec 12 := ovfuLines.getD k.toNat 0

def ovfuLen : BitVec 8 := 66

def vfuChan (d : BitVec 8) : BitVec 4 := d.extractLsb' 0 4

def vfuSlew (d : BitVec 8) : Bool := d.getLsbD 4

/-- Only the first twelve channels are valid. -/
def vfuMatch (marks : BitVec 12) (d : BitVec 8) : Bool := marks.getLsbD (vfuChan d).toNat

def charStart1 : BitVec 8 := 0o154
def charStart2 : BitVec 8 := 0o155
def charStart3 : BitVec 8 := 0o156
def charStop : BitVec 8 := 0o157

def isStart (d : BitVec 8) : Bool := d == charStart1 || d == charStart2 || d == charStart3

/-! ## The state machine -/

namespace Fsm

/-- The last line that the counter takes. -/
def vfuLen (s : Fsm) (i : In) : BitVec 8 := if i.lpOvfu then ovfuLen else s.lpDvfuLen

/-- The marks on a line of the form. -/
def marks (s : Fsm) (i : In) (k : BitVec 8) : BitVec 12 :=
  if i.lpOvfu then ovfuDat k else s.lpVfuDat k

/-- The line counter one line on. -/
def nextLine (s : Fsm) (i : In) : BitVec 8 :=
  if s.lpLctr = s.vfuLen i then 0 else s.lpLctr + 1

/-- The paper instruction that moves the paper. -/
def motion (s : Fsm) (i : In) : Fsm :=
  if vfuSlew i.lpData then { s with lpLfCnt := 0, state := .vfuSlew }
  else if vfuChan i.lpData < 12 then
    { s with lpCount := 0, lpLctr := s.nextLine i, lpLfCnt := s.lpLfCnt + 1, state := .vfuChan }
  else { s with lpLfCnt := 0, state := .vfuOffln }

def paper (s : Fsm) (i : In) : Fsm :=
  if isStart i.lpData then { s with lpDvfuLen := 0, state := .vfuEven }
  else if i.lpData = charStop then { s with state := .vfuNotRdy }
  else s.motion i

def character (s : Fsm) (i : In) : Fsm :=
  if i.lpData = Ascii.nul || Ascii.ignored i.lpData then { s with state := .wait }
  else if i.lpData = Ascii.cr then { s with lpCount := 0, state := .print }
  else if i.lpData = Ascii.lf then
    { s with lpCount := 0, lpLctr := s.nextLine i, state := .print }
  else if i.lpData = Ascii.ff then { s with lpCount := 0, lpLctr := 0, state := .print }
  else if i.lpData = Ascii.vt then { s with lpLfCnt := 0, state := .vfuVt }
  else
    { s with
      lpLinBuf := fun k => if k = s.lpCctr then i.lpData else s.lpLinBuf k
      lpCctr := s.lpCctr + 1 }

/-- A character of the line buffer, or the one after the line, goes to the serial line. -/
def sendLine (s : Fsm) (last : BitVec 8) (after delay : State) : Fsm :=
  if s.lpCount = s.lpCctr then
    { s with lpCctr := 0, lpCount := 0, lpTxStb := true, lpTxDat := last, state := after }
  else
    { s with
      lpTxStb := true
      lpTxDat := s.lpLinBuf s.lpCount
      lpCount := s.lpCount + 1
      state := delay }

/-- A search goes on to the next line unless it has found its mark or come around. -/
def search (s : Fsm) (i : In) (d : BitVec 8) (delay : State) : Fsm :=
  if s.lpCount = s.vfuLen i then { s with state := .vfuOffln }
  else if vfuMatch (s.marks i s.lpLctr) d then { s with lpCount := 0, state := .vfuPrint }
  else
    { s with
      lpLctr := s.nextLine i
      lpLfCnt := s.lpLfCnt + 1
      lpCount := s.lpCount + 1
      state := delay }

def slew (s : Fsm) (i : In) : Fsm :=
  if s.lpLfCnt = (vfuChan i.lpData).setWidth 8 then
    { s with
      lpLctr := s.nextLine i
      lpLfCnt := s.lpLfCnt + 1
      lpCount := 0
      state := .vfuPrint }
  else { s with lpLctr := s.nextLine i, lpLfCnt := s.lpLfCnt + 1, state := .dly4 }

def move (s : Fsm) : Fsm :=
  if s.lpLfCnt = 0 then { s with state := .wait }
  else { s with lpTxStb := true, lpTxDat := Ascii.lf, lpLfCnt := s.lpLfCnt - 1, state := .dly6 }

/-- The first byte of a line of the format. -/
def even (s : Fsm) (i : In) : Fsm :=
  if i.lpPi && isStart i.lpData then { s with lpDvfuLen := 0, state := .vfuEven }
  else if i.lpPi && i.lpData = charStop then
    if s.lpDvfuLen = 0 then { s with state := .vfuNotRdy } else { s with state := .vfuRdy }
  else { s with lpTemp := i.lpData.extractLsb' 0 6, state := .vfuOdd }

/-- The second byte of a line of the format. -/
def odd (s : Fsm) (i : In) : Fsm :=
  if i.lpPi && isStart i.lpData then { s with lpDvfuLen := 0, state := .vfuEven }
  else if i.lpPi && i.lpData = charStop then { s with state := .vfuOffln }
  else if s.lpDvfuLen = 143 then { s with state := .vfuOffln }
  else
    { s with
      lpVfuDat := fun k =>
        if k = s.lpDvfuLen then i.lpData.extractLsb' 0 6 ++ s.lpTemp else s.lpVfuDat k
      lpDvfuLen := s.lpDvfuLen + 1
      state := .vfuEven }

/-- The states of the machine, with the strobe of the serial line already down. -/
def step (s : Fsm) (i : In) (lpXon : Bool) : Fsm :=
  match s.state with
  | .idle => if i.lpStrobe then (if i.lpPi then s.paper i else s.character i) else s
  | .print =>
      if i.lpTxEmpty && lpXon then s.sendLine i.lpData .wait .dly1 else s
  | .dly1 => { s with state := .print }
  | .vfuEven => if i.lpStrobe then s.even i else s
  | .vfuOdd => if i.lpStrobe then s.odd i else s
  | .vfuChan => s.search i i.lpData .dly2
  | .dly2 => { s with state := .vfuChan }
  | .vfuVt => s.search i 1 .dly3
  | .dly3 => { s with state := .vfuVt }
  | .vfuSlew => s.slew i
  | .dly4 => { s with state := .vfuSlew }
  | .vfuPrint =>
      if i.lpTxEmpty && lpXon then s.sendLine Ascii.cr .vfuMove .dly5 else s
  | .dly5 => { s with state := .vfuPrint }
  | .vfuMove => if i.lpTxEmpty && lpXon then s.move else s
  | .dly6 => { s with state := .vfuMove }
  | .vfuOffln => { s with lpCctr := 0, lpCount := 0, lpLfCnt := 0, state := .vfuNotRdy }
  | .vfuNotRdy => { s with state := .wait }
  | .vfuRdy => { s with lpLctr := 0, lpDvfuLen := s.lpDvfuLen - 1, state := .wait }
  | .wait => if i.lpTxEmpty then { s with state := .done } else s
  | .done => { s with state := .idle }

/-- The registers after a reset; the line buffer and the format keep their contents. -/
def reset (s : Fsm) : Fsm where
  state := .idle
  lpCctr := 0
  lpTemp := 0
  lpLctr := 0
  lpLfCnt := 0
  lpCount := 0
  lpDvfuLen := 0
  lpTxDat := 0
  lpTxStb := false
  lpLinBuf := s.lpLinBuf
  lpVfuDat := s.lpVfuDat

def next (s : Fsm) (i : In) (lpXon : Bool) : Fsm :=
  if i.rst then s.reset else ({ s with lpTxStb := false } : Fsm).step i lpXon

/-- The states in which a character is taken. -/
def accepts (s : Fsm) : Bool := s.state == .idle || s.state == .vfuEven || s.state == .vfuOdd

end Fsm

/-! ## One clock -/

def nextVfuRdy (s : Lp26) (i : In) : Bool :=
  if i.rst then false
  else if i.lpOvfu then true
  else if s.fsm.state = .vfuNotRdy then false
  else if s.fsm.state = .vfuRdy then true
  else s.lpVfuRdy

def nextOnline (s : Lp26) (i : In) : Bool :=
  if i.rst then false
  else if i.lpSetOffln || s.fsm.state = .vfuOffln then false
  else if i.lpSetOnln then true
  else s.lpOnline

def nextSixLpi (s : Lp26) (i : In) : Bool :=
  if i.rst then true
  else if i.lpStrobe && i.lpPi && i.lpData = charStart1 then true
  else if i.lpStrobe && i.lpPi && i.lpData = charStart2 then false
  else s.lpSixLpi

def nextXon (s : Lp26) (i : In) : Bool :=
  if i.rst then true
  else if i.lpInit then true
  else if i.lpRxFull && i.lpRxDat = Ascii.xon then true
  else if i.lpRxFull && i.lpRxDat = Ascii.xoff then false
  else s.lpXon

def lpLine0 (s : Lp26) : Bool := s.fsm.lpLctr = 0

/-- One clock of LP26. -/
def next (s : Lp26) (i : In) : Lp26 where
  fsm := s.fsm.next i s.lpXon
  lpVfuRdy := s.nextVfuRdy i
  lpOnline := s.nextOnline i
  lpSixLpi := s.nextSixLpi i
  lpXon := s.nextXon i
  lastLine0 := if i.rst then false else s.lpLine0

/-- The printer after a reset, with nothing in its memories. -/
def afterReset : Lp26 where
  fsm :=
    { state := .idle, lpCctr := 0, lpTemp := 0, lpLctr := 0, lpLfCnt := 0, lpCount := 0,
      lpDvfuLen := 0, lpTxDat := 0, lpTxStb := false, lpLinBuf := fun _ => 0,
      lpVfuDat := fun _ => 0 }
  lpVfuRdy := false
  lpOnline := false
  lpSixLpi := true
  lpXon := true
  lastLine0 := false

/-! ## What the controller sees -/

/-- The printer is ready for a character. -/
def lpDemand (s : Lp26) (lpStrobe : Bool) : Bool := !lpStrobe && s.fsm.accepts

/-- The top of the form, for the page counter. -/
def lpTof (s : Lp26) : Bool := s.lpLine0 && !s.lastLine0

end Lp26

end KS10
