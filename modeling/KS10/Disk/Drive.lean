import KS10.Disk.Sd

/-!
# A disk drive

`RpCtrl` is the state machine of a drive, module RPCTRL, with seeks simulated at their
real time and with the diagnostic mode, as the project's makefile builds it.  `RpAddr` is
the calculator of the SD sector address, module RPADDR.  `Rp` is the drive, module RPXX,
with the registers that the address and the commands depend on.

The error registers of the drive come in as `rpCLBERR`, the strobes and the sync detector
of the diagnostic mode as inputs of their own.
-/

namespace KS10

open Clocked

/-! ## The state machine -/

/-- The commands that a drive carries out.  It ignores every other function. -/
inductive RpFun where
  | unload | seek | recal | search | offset | center
  | wrchk | wrchkh | write | writeh | read | readh
  deriving DecidableEq

def RpFun.decode (rpFUN : BitVec 5) : Option RpFun :=
  match rpFUN.toNat with
  | 0o01 => some .unload
  | 0o02 => some .seek
  | 0o03 => some .recal
  | 0o06 => some .offset
  | 0o07 => some .center
  | 0o14 => some .search
  | 0o24 => some .wrchk
  | 0o25 => some .wrchkh
  | 0o30 => some .write
  | 0o31 => some .writeh
  | 0o34 => some .read
  | 0o35 => some .readh
  | _ => none

inductive RpCtrl.State where
  | idle | offset | unload | recal | seek | seeksearch | search
  | wrhdr | wrdata | wrecc | wrdatagap
  | rdprehdr | rdhdr | rdhdrgap | rddata | rdecc | rdfixecc
  | data | done
  deriving DecidableEq

structure RpCtrl where
  state : RpCtrl.State
  rpCC : BitVec 16
  rpDFE : Bool
  rpDRY : Bool
  rpEBL : Bool
  rpECE : Bool
  rpPIP : Bool
  rpSETATA : Bool
  rpSETSKI : Bool
  rpADRSTRT : Bool
  rpSDOP : SdOp
  tmpATA : Bool
  tmpCC : BitVec 16
  head_pos : BitVec 16
  bit_cnt : BitVec 6
  word_cnt : BitVec 8
  delay : BitVec 25
  /-- The go bit at the last clock. -/
  lastGO : Bool

structure RpCtrl.In where
  clr : Bool
  rpGO : Bool
  rpFUN : BitVec 5
  rpCYLNUM : BitVec 10
  rpDC : BitVec 16
  rpDMD : Bool
  diag_clken : Bool
  diag_index : Bool
  rpSBD : Bool
  rpFMT22 : Bool
  rpCLBERR : Bool
  rpSETAOE : Bool
  rpADRBUSY : Bool
  rpSDACK : Bool

namespace RpCtrl

/-- Clocks of the fixed delay and of the offset delay, at 12.5 MHz. -/
def fixDELAY : BitVec 25 := 1250
def offDELAY : BitVec 25 := 62500

def seekDELAY (newCYL oldCYL : BitVec 10) : BitVec 25 :=
  let diffCYL := if oldCYL < newCYL then newCYL - oldCYL else oldCYL - newCYL
  if diffCYL.getLsbD 9 then 625000
  else if diffCYL.getLsbD 8 then 562500
  else if diffCYL.getLsbD 7 then 500000
  else if diffCYL.getLsbD 6 then 437500
  else if diffCYL.getLsbD 5 then 375000
  else if diffCYL.getLsbD 4 then 312500
  else if diffCYL.getLsbD 3 then 250000
  else if diffCYL.getLsbD 2 then 187500
  else if diffCYL.getLsbD 1 then 125000
  else if diffCYL.getLsbD 0 then 62500
  else 125

def rpCCA (s : RpCtrl) : BitVec 10 := s.rpCC.extractLsb' 0 10

def rpDCA (i : In) : BitVec 10 := i.rpDC.extractLsb' 0 10

/-- The command begins at the end of the go bit. -/
def go_cmd (s : RpCtrl) (i : In) : Bool := !i.rpGO && s.lastGO

/-- A seek off the edge of the disk. -/
def ski (s : RpCtrl) (i : In) : Bool :=
  if s.rpCCA < rpDCA i then
    i.rpCYLNUM.setWidth 16 - s.head_pos < (rpDCA i - s.rpCCA).setWidth 16
  else s.head_pos < (s.rpCCA - rpDCA i).setWidth 16

def check_ski (s : RpCtrl) (i : In) : RpCtrl :=
  if s.ski i then { s with tmpCC := 0, rpSETSKI := true } else s

/-- Search for the sector, after a seek if the cylinder changes. -/
def findSector (s : RpCtrl) (i : In) : RpCtrl :=
  if rpDCA i == s.rpCCA then { s with delay := fixDELAY, state := .search }
  else
    { s with
      tmpCC := i.rpDC
      delay := seekDELAY (rpDCA i) s.rpCCA
      state := .seeksearch }

/-- Begin a data command. -/
def transfer (s : RpCtrl) (i : In) (rpSDOP : SdOp) : RpCtrl :=
  ({ s with
      rpDRY := false
      rpPIP := false
      tmpATA := false
      rpSDOP := rpSDOP
      rpADRSTRT := true } : RpCtrl).findSector i

/-- Begin a data command whose seek is checked. -/
def transferSki (s : RpCtrl) (i : In) (rpSDOP : SdOp) : RpCtrl :=
  let t := s.transfer i rpSDOP
  if rpDCA i == s.rpCCA then t else t.check_ski i

/-- Begin a command that moves the heads or their offset. -/
def move (s : RpCtrl) (delay : BitVec 25) (state : State) : RpCtrl :=
  { s with
    rpDRY := false
    rpPIP := true
    tmpATA := true
    rpSDOP := .nop
    delay := delay
    state := state }

def command (s : RpCtrl) (i : In) : RpFun → RpCtrl
  | .unload => s.move (seekDELAY 0 s.rpCCA) .unload
  | .seek =>
      if rpDCA i == s.rpCCA then
        { s with rpDRY := false, tmpATA := true, rpPIP := true, state := .done }
      else
        { s.move (seekDELAY (rpDCA i) s.rpCCA) .seek with tmpCC := i.rpDC }.check_ski i
  | .recal => s.move (seekDELAY 0 s.rpCCA) .recal
  | .search =>
      ({ s with
          rpDRY := false
          rpPIP := false
          tmpATA := true
          rpSDOP := .nop } : RpCtrl).findSector i
  | .offset => s.move offDELAY .offset
  | .center => s.move offDELAY .offset
  -- These two seeks are not checked.
  | .wrchk => s.transfer i .wrchk
  | .wrchkh => s.transferSki i .wrchkh
  | .write => s.transferSki i .wr
  | .writeh => s.transferSki i .wrh
  | .read => s.transferSki i .rd
  | .readh => s.transferSki i .rdh

/-- Wait for the delay, then do `k`, unless the drive is in the diagnostic mode. -/
def wait (s : RpCtrl) (i : In) (k : RpCtrl) : RpCtrl :=
  if s.delay == 0 then if i.rpDMD then s else k else { s with delay := s.delay - 1 }

/-- Begin the next field of a sector. -/
def field (s : RpCtrl) (state : State) : RpCtrl :=
  { s with bit_cnt := 0, word_cnt := 0, state := state }

/-- Pass one bit of a field in the diagnostic mode: do `k`. -/
def onBit (s : RpCtrl) (i : In) (k : RpCtrl) : RpCtrl :=
  if i.rpCLBERR then { s with state := .done } else if i.diag_clken then k else s

/-- Count bits of words that end at `last`; do `k` at the end of the word number `words`. -/
def countBits (s : RpCtrl) (last : Bool) (words : BitVec 8) (k : RpCtrl) : RpCtrl :=
  if last then
    if s.word_cnt == words then k else { s with bit_cnt := 0, word_cnt := s.word_cnt + 1 }
  else { s with bit_cnt := s.bit_cnt + 1 }

/-- Count bits until the sync byte, then do `k`. -/
def untilSync (s : RpCtrl) (i : In) (k : RpCtrl) : RpCtrl :=
  if i.rpSBD then k
  else if s.bit_cnt == 15 then { s with bit_cnt := 0, word_cnt := s.word_cnt + 1 }
  else { s with bit_cnt := s.bit_cnt + 1 }

/-- The last bit of a word of data, of 16 or of 18 bits. -/
def lastBit (s : RpCtrl) (i : In) : Bool := i.rpFMT22 && s.bit_cnt == 15 || s.bit_cnt == 17

/-- The search in the diagnostic mode ends with the index pulse. -/
def searchDiag (s : RpCtrl) (i : In) : RpCtrl :=
  if i.diag_index then
    { s with state := match s.rpSDOP with
        | .nop => .done
        | .wrchkh | .rdh => .rdprehdr
        | .wrh => .wrhdr
        | .wrchk | .rd => .rddata
        | .wr => .wrdata }
  else s

/-- The search ends after its delay, and the data begin as soon as the sector address has
been calculated. -/
def searchData (s : RpCtrl) (i : In) : RpCtrl :=
  if s.delay == 0 then
    if s.rpSDOP == .nop then { s with state := .done }
    else if !i.rpADRBUSY then { s with state := .data }
    else s
  else { s with delay := s.delay - 1 }

/-- The clear leaves the position of the heads. -/
def cleared (s : RpCtrl) (i : In) : RpCtrl :=
  { s with
    rpCC := i.rpDC
    rpDFE := false
    rpDRY := true
    rpEBL := false
    rpECE := false
    rpPIP := false
    rpSETATA := false
    rpSETSKI := false
    rpSDOP := .nop
    tmpATA := false
    tmpCC := 0
    bit_cnt := 0
    word_cnt := 0
    delay := 0
    state := .idle
    lastGO := i.rpGO }

/-- The pulses last one clock. -/
def quiet (s : RpCtrl) (i : In) : RpCtrl :=
  { s with rpEBL := false, rpADRSTRT := false, rpSETSKI := false, lastGO := i.rpGO }

/-- The drive is ready, and takes a command. -/
def ready (s : RpCtrl) (i : In) (go : Bool) : RpCtrl :=
  let t : RpCtrl :=
    { s with rpDRY := true, rpPIP := false, rpSETATA := false, tmpATA := false, tmpCC := 0 }
  match RpFun.decode i.rpFUN with
  | some f => if go then t.command i f else t
  | none => t

/-- One clock of the state machine. -/
def next (s : RpCtrl) (i : In) : RpCtrl :=
  if i.clr then s.cleared i
  else
    let q := s.quiet i
    match s.state with
    | .idle => q.ready i (s.go_cmd i)
    | .offset => q.wait i { q with state := .done }
    | .unload => { q with rpCC := 0, state := .done }
    | .recal => q.wait i { q with rpCC := 0, head_pos := 0, state := .done }
    | .seek => q.wait i { q with rpCC := q.tmpCC, head_pos := q.tmpCC, state := .done }
    | .seeksearch =>
        q.wait i
          { q with rpCC := q.tmpCC, head_pos := q.tmpCC, delay := fixDELAY, state := .search }
    | .search =>
        let t : RpCtrl := { q with bit_cnt := 0, word_cnt := 0 }
        if i.rpCLBERR then { t with state := .done }
        else if i.rpDMD then t.searchDiag i
        else t.searchData i
    | .wrhdr =>
        q.onBit i (q.countBits (q.bit_cnt == 15) 30
          { q.field .wrdata with rpDFE := true, rpECE := false })
    | .wrdata =>
        q.onBit i (q.countBits (q.lastBit i) 255
          { q.field .wrecc with rpDFE := false, rpECE := true })
    | .wrecc =>
        q.onBit i (q.countBits (q.bit_cnt == 15) 1
          { q.field .wrdatagap with rpDFE := false, rpECE := false })
    | .wrdatagap =>
        q.onBit i
          (if q.bit_cnt == 15 then { q.field .done with rpDFE := false, rpECE := false }
          else { q with bit_cnt := q.bit_cnt + 1 })
    | .rdprehdr => q.onBit i (q.untilSync i (q.field .rdhdr))
    | .rdhdr => q.onBit i (q.countBits (q.bit_cnt == 15) 4 (q.field .rdhdrgap))
    | .rdhdrgap =>
        q.onBit i (q.untilSync i { q.field .rddata with rpDFE := true, rpECE := false })
    | .rddata =>
        q.onBit i (q.countBits (q.lastBit i) 255
          { q.field .rdecc with rpDFE := false, rpECE := true })
    -- The ECC is never taken for zero.
    | .rdecc =>
        q.onBit i (q.countBits (q.bit_cnt == 15) 1
          { q.field .rdfixecc with rpDFE := false, rpECE := false })
    | .rdfixecc => { q with state := .done }
    | .data =>
        if i.rpSETAOE || i.rpSDACK || i.rpCLBERR then { q with state := .done }
        else { q with rpCC := i.rpDC }
    | .done =>
        { q with
          rpDRY := true
          rpEBL := true
          rpPIP := false
          tmpATA := false
          rpSETATA := q.tmpATA
          rpSDOP := .nop
          state := .idle }

/-- The request to the SD controller. -/
def rpSDREQ (s : RpCtrl) : Bool := s.state == .data

end RpCtrl

/-! ## The calculator of the sector address -/

inductive RpAddr.State where
  | idle | track | sect | word
  deriving DecidableEq

structure RpAddr where
  sum : BitVec 21
  temp : BitVec 21
  loop : BitVec 6
  state : RpAddr.State

structure RpAddr.In where
  rpTRKNUM : BitVec 6
  rpSECNUM : BitVec 6
  rpDCA : BitVec 10
  rpTA : BitVec 6
  rpSA : BitVec 6
  rpADRSTRT : Bool

namespace RpAddr

def next (s : RpAddr) (i : In) : RpAddr :=
  match s.state with
  | .idle =>
      if i.rpADRSTRT then
        { sum := 0
          temp := i.rpDCA.setWidth 21
          loop := i.rpTRKNUM + 1
          state := .track }
      else s
  | .track =>
      if s.loop == 0 then
        { sum := 0
          temp := s.sum + i.rpTA.setWidth 21
          loop := i.rpSECNUM + 1
          state := .sect }
      else { s with sum := s.sum + s.temp, loop := s.loop - 1 }
  | .sect =>
      if s.loop == 0 then { s with sum := s.sum + i.rpSA.setWidth 21, state := .word }
      else { s with sum := s.sum + s.temp, loop := s.loop - 1 }
  | .word => { s with sum := s.sum + s.sum, state := .idle }

def rpSDLSA (s : RpAddr) : BitVec 21 := s.sum
def rpADRBUSY (s : RpAddr) : Bool := s.state != .idle

end RpAddr

/-! ## The drive -/

/-- The last sector of a track in the two formats, the last track and the last cylinder. -/
structure RpType where
  secN16 : BitVec 6
  secN18 : BitVec 6
  trkNUM : BitVec 6
  cylNUM : BitVec 10

def RpType.rp06 : RpType := { secN16 := 21, secN18 := 19, trkNUM := 18, cylNUM := 814 }
def RpType.rm03 : RpType := { secN16 := 31, secN18 := 29, trkNUM := 4, cylNUM := 822 }

/-- The types of the eight drives. -/
def RpType.getTYPE (rpNUM : BitVec 3) : RpType := if rpNUM = 7 then rm03 else rp06

structure Rp where
  ctrl : RpCtrl
  addr : RpAddr
  rpSA : BitVec 6
  rpTA : BitVec 6
  rpDCA : BitVec 10
  rpFUN : BitVec 5
  rpFMT22 : Bool
  rpDMD : Bool

/-- The inputs of one clock.  The writes are those of the registers of this drive. -/
structure Rp.In where
  clr : Bool
  rhINCSECT : Bool
  rpSELECT : Bool
  rpDATAI : BitVec 36
  cs1WRITE : Bool
  daWRITE : Bool
  dcWRITE : Bool
  ofWRITE : Bool
  mrWRITE : Bool
  rpPAT : Bool
  diag_clken : Bool
  diag_index : Bool
  rpSBD : Bool
  rpCLBERR : Bool
  rpSDACK : Bool

namespace Rp

/-- A write of a function with the go bit.  Functions with wrong parity are ignored. -/
def rpGO (i : In) : Bool := !i.rpPAT && (i.cs1WRITE && i.rpSELECT) && i.rpDATAI.getLsbD 0

/-- The write of one function. -/
def goes (i : In) (fn : BitVec 5) : Bool := rpGO i && i.rpDATAI.extractLsb' 1 5 == fn

def rpRECAL (i : In) : Bool := goes i 0o03
def rpDRVCLR (i : In) : Bool := goes i 0o04
def rpPRESET (i : In) : Bool := goes i 0o10

variable (t : RpType)

def rpSECNUM (d : Rp) : BitVec 6 := if d.rpFMT22 then t.secN16 else t.secN18

/-- The sector is counted by the SD controller, or by the end of a block in the diagnostic
mode. -/
def rpINCSECT (d : Rp) (i : In) : Bool :=
  if d.rpDMD then d.ctrl.rpEBL else i.rhINCSECT && i.rpSELECT

def lastSector (d : Rp) : Bool := d.rpSA == d.rpSECNUM t
def lastTrack (d : Rp) : Bool := d.rpTA == t.trkNUM

def rpINCCYL (d : Rp) (i : In) : Bool := d.rpINCSECT i && d.lastSector t && d.lastTrack t

def rpSETAOE (d : Rp) (i : In) : Bool := d.rpINCCYL t i && d.rpDCA == t.cylNUM

/-- A write of a register, which the drive takes only when it is ready. -/
def writes (d : Rp) (i : In) (write : Bool) : Bool := write && i.rpSELECT && d.ctrl.rpDRY

def nextSA (d : Rp) (i : In) : BitVec 6 :=
  if rpPRESET i then 0
  else if d.writes i i.daWRITE then i.rpDATAI.extractLsb' 0 6
  else if d.rpINCSECT i then if d.lastSector t then 0 else d.rpSA + 1
  else d.rpSA

def nextTA (d : Rp) (i : In) : BitVec 6 :=
  if rpPRESET i then 0
  else if d.writes i i.daWRITE then i.rpDATAI.extractLsb' 8 6
  else if d.rpINCSECT i && d.lastSector t then if d.lastTrack t then 0 else d.rpTA + 1
  else d.rpTA

def nextDCA (d : Rp) (i : In) : BitVec 10 :=
  if rpPRESET i || rpRECAL i then 0
  else if d.writes i i.dcWRITE then i.rpDATAI.extractLsb' 0 10
  else if d.rpINCCYL t i then d.rpDCA + 1
  else d.rpDCA

def ctrlIn (d : Rp) (i : In) : RpCtrl.In where
  clr := i.clr
  rpGO := rpGO i
  rpFUN := d.rpFUN
  rpCYLNUM := t.cylNUM
  rpDC := 0#6 ++ d.rpDCA
  rpDMD := d.rpDMD
  diag_clken := i.diag_clken
  diag_index := i.diag_index
  rpSBD := i.rpSBD
  rpFMT22 := d.rpFMT22
  rpCLBERR := i.rpCLBERR
  rpSETAOE := d.rpSETAOE t i
  rpADRBUSY := d.addr.rpADRBUSY
  rpSDACK := i.rpSDACK

def addrIn (d : Rp) : RpAddr.In where
  rpTRKNUM := t.trkNUM
  rpSECNUM := d.rpSECNUM t
  rpDCA := d.rpDCA
  rpTA := d.rpTA
  rpSA := d.rpSA
  rpADRSTRT := d.ctrl.rpADRSTRT

/-- One clock of the drive. -/
def next (d : Rp) (i : In) : Rp where
  ctrl := d.ctrl.next (d.ctrlIn t i)
  addr := d.addr.next (d.addrIn t)
  rpSA := d.nextSA t i
  rpTA := d.nextTA t i
  rpDCA := d.nextDCA t i
  rpFUN := if d.writes i i.cs1WRITE then i.rpDATAI.extractLsb' 1 5 else d.rpFUN
  rpFMT22 :=
    if rpPRESET i then false
    else if d.writes i i.ofWRITE then i.rpDATAI.getLsbD 12
    else d.rpFMT22
  rpDMD :=
    if i.clr || rpDRVCLR i then false
    else if d.writes i i.mrWRITE then i.rpDATAI.getLsbD 0
    else d.rpDMD

end Rp

end KS10
