import KS10.Clocked.Field
import KS10.Disk.Spi

/-!
# The SD controller

`Sd` is the module SD.  It scans the eight drives for a request and carries the request
out on the card, one SPI byte at a time, with one DMA cycle for each word.

Most of its states are of a few kinds, and each kind is one definition here: a state
that sends the six bytes of a command (`sendCommand`), polls for an answer (`poll`),
passes one byte (`oneByte`), or takes the end of a byte (`onDone`) or of a DMA cycle
(`onAck`) and goes on.  `next` gives every state under the source's name.

`clr` is left out: the source masks it (`clr & 0`), so that it never acts.  So is the
register `timeout`, which nothing reads as long as `SD_TIMEOUT` is not defined, and the
input `rpFMT22`, which nothing reads at all.
-/

namespace KS10

open Clocked

/-- What a drive asks the controller to do. -/
inductive SdOp where
  | nop
  | rd
  | rdh
  | wr
  | wrh
  | wrchk
  | wrchkh
  deriving DecidableEq

inductive Sd.State where
  | reset
  | init00 | init01 | init02 | init03 | init04 | init05 | init06 | init07 | init08
  | init09 | init10 | init11 | init12 | init13 | init14 | init15 | init16 | init17
  | readh00 | readh01 | readh02 | readh03
  | read00 | read01 | read02 | read03 | read04 | read05 | read06 | read07 | read08 | read09
  | read10 | read11 | read12 | read13 | read14 | read15 | read16 | read17 | read18 | read19
  | writeh00 | writeh01 | writeh02 | writeh03
  | write00 | write01 | write02 | write03 | write04 | write05 | write06 | write07 | write08
  | write09 | write10 | write11 | write12 | write13 | write14 | write15 | write16 | write17
  | write18 | write19 | write20 | write21 | write22 | write23 | write24 | write25
  | wrchkh00 | wrchkh01 | wrchkh02 | wrchkh03
  | wrchk00 | wrchk01 | wrchk02 | wrchk03 | wrchk04 | wrchk05 | wrchk06 | wrchk07 | wrchk08
  | wrchk09 | wrchk10 | wrchk11 | wrchk12 | wrchk13 | wrchk14 | wrchk15 | wrchk16 | wrchk17
  | fini | ackrp | idle | done | infail | rwfail
  deriving DecidableEq

structure Sd where
  state : Sd.State
  sdERR : BitVec 8
  sdVAL : BitVec 8
  sdWRCNT : BitVec 8
  sdRDCNT : BitVec 8
  sdINCSECT : Bool
  sdINCBA : Bool
  sdINCWC : Bool
  sdSETWCE : Bool
  sdREADOP : Bool
  sdSCAN : BitVec 3
  rpSDACK : BitVec 8
  devREQO : Bool
  devDATAO : BitVec 36
  /-- The six bytes of the command. -/
  sdCMD : List (BitVec 8)
  spiOP : SpiOp
  spiTXD : BitVec 8
  sectCNT : Bool
  sectADDR : BitVec 32
  loopCNT : BitVec 16
  tempDATA : BitVec 36
  header1 : BitVec 36
  header2 : BitVec 36

/-- The inputs of one clock.  `rpSDOP` and `rpSDLSA` come from the drive that `sdSCAN`
selects. -/
structure Sd.In where
  spiDONE : Bool
  spiRXD : BitVec 8
  devACKI : Bool
  devDATAI : BitVec 36
  rhWC : BitVec 16
  rpSDOP : SdOp
  rpSDLSA : BitVec 21
  rpSDREQ : BitVec 8

namespace Sd

def nCR : BitVec 16 := 8
def nAC : BitVec 16 := 1023

def reset : Sd where
  state := .reset
  sdERR := 0
  sdVAL := 0
  sdWRCNT := 0
  sdRDCNT := 0
  sdINCSECT := false
  sdINCBA := false
  sdINCWC := false
  sdSETWCE := false
  sdREADOP := false
  sdSCAN := 0
  rpSDACK := 0
  devREQO := false
  devDATAO := 0
  sdCMD := [0, 0, 0, 0, 0, 0]
  spiOP := .nop
  spiTXD := 0
  sectCNT := false
  sectADDR := 0
  loopCNT := 0
  tempDATA := 0
  header1 := 0
  header2 := 0

/-! ## The bytes of a word -/

/-- The word is stored from its low end, `x[28:35]` first. -/
def byte0 (x : BitVec 36) : BitVec 8 := field x 28 35
def byte1 (x : BitVec 36) : BitVec 8 := field x 20 27
def byte2 (x : BitVec 36) : BitVec 8 := field x 12 19
def byte3 (x : BitVec 36) : BitVec 8 := field x 4 11
def nibble4 (x : BitVec 36) : BitVec 4 := field x 0 3

/-- The word with the given bytes. -/
def wordOf (n4 : BitVec 4) (b3 b2 b1 b0 : BitVec 8) : BitVec 36 := n4 ++ b3 ++ b2 ++ b1 ++ b0

/-- Assignments to one byte of a word. -/
def setByte0 (x : BitVec 36) (b : BitVec 8) : BitVec 36 :=
  wordOf (nibble4 x) (byte3 x) (byte2 x) (byte1 x) b
def setByte1 (x : BitVec 36) (b : BitVec 8) : BitVec 36 :=
  wordOf (nibble4 x) (byte3 x) (byte2 x) b (byte0 x)
def setByte2 (x : BitVec 36) (b : BitVec 8) : BitVec 36 :=
  wordOf (nibble4 x) (byte3 x) b (byte1 x) (byte0 x)
def setByte3 (x : BitVec 36) (b : BitVec 8) : BitVec 36 :=
  wordOf (nibble4 x) b (byte2 x) (byte1 x) (byte0 x)
def setNibble4 (x : BitVec 36) (n : BitVec 4) : BitVec 36 :=
  wordOf n (byte3 x) (byte2 x) (byte1 x) (byte0 x)

/-! ## The kinds of states -/

/-- The pulses last one clock. -/
def quiet (s : Sd) : Sd :=
  { s with
    devREQO := false
    rpSDACK := 0
    sdINCBA := false
    sdINCWC := false
    sdINCSECT := false
    sdSETWCE := false
    spiOP := .nop }

def ff : BitVec 8 := 0xff

/-- Start a byte. -/
def transfer (s : Sd) (txd : BitVec 8) : Sd := { s with spiOP := .tr, spiTXD := txd }

/-- Take the end of a byte. -/
def onDone (s : Sd) (i : In) (k : Sd) : Sd := if i.spiDONE then k else s

/-- Take the end of a DMA cycle. -/
def onAck (s : Sd) (i : In) (k : Sd) : Sd := if i.devACKI then k else { s with devREQO := true }

/-- Send `n` bytes, then do `k`. -/
def sendBytes (s : Sd) (i : In) (n : BitVec 16) (txd : BitVec 8) (k : Sd) : Sd :=
  if i.spiDONE || s.loopCNT == 0 then
    if s.loopCNT == n then k else { s.transfer txd with loopCNT := s.loopCNT + 1 }
  else s

/-- Send the six bytes of the command, then do `k`. -/
def sendCommand (s : Sd) (i : In) (k : Sd) : Sd :=
  s.sendBytes i 6 (s.sdCMD.getD s.loopCNT.toNat 0) k

/-- Send one byte, then do `k`. -/
def oneByte (s : Sd) (i : In) (txd : BitVec 8) (k : Sd) : Sd :=
  if s.loopCNT == 0 then { s.transfer txd with loopCNT := 1 }
  else s.onDone i k

/-- Poll for an answer: do `late` after `limit` empty bytes, `k` at the first other. -/
def poll (s : Sd) (i : In) (limit : BitVec 16) (late k : Sd) : Sd :=
  s.oneByte i ff
    (if i.spiRXD == ff then
      if s.loopCNT == limit then late
      else { s.transfer ff with loopCNT := s.loopCNT + 1 }
    else k)

/-- Go on in another state with the counter at zero. -/
def goto (s : Sd) (state : State) : Sd := { s with loopCNT := 0, state := state }

/-- Negate the chip select and fail. -/
def fail (s : Sd) (err : BitVec 8) (state : State) : Sd :=
  { s with spiOP := .csh, loopCNT := 0, sdERR := err, state := state }

/-- Fail and keep the byte received. -/
def failVal (s : Sd) (i : In) (err : BitVec 8) : Sd :=
  { s with spiOP := .csh, loopCNT := 0, sdVAL := i.spiRXD, sdERR := err, state := .rwfail }

/-- Select the card and send a command. -/
def command (s : Sd) (cmd : List (BitVec 8)) (state : State) : Sd :=
  { s with sdCMD := cmd, loopCNT := 0, spiOP := .csl, state := state }

/-- The command `0x40 + op` on the sector in `sectADDR`. -/
def sectorCommand (s : Sd) (op : BitVec 8) : List (BitVec 8) :=
  [0x40 + op, s.sectADDR.extractLsb' 24 8, s.sectADDR.extractLsb' 16 8,
    s.sectADDR.extractLsb' 8 8, s.sectADDR.extractLsb' 0 8, ff]

/-- One byte is received: start the next one. -/
def receive (s : Sd) (i : In) (state : State) (load : Sd → Sd) : Sd :=
  s.onDone i { load (s.transfer ff) with state := state }

/-- One byte is sent: start the next one. -/
def sendNext (s : Sd) (i : In) (txd : BitVec 8) (state : State) : Sd :=
  s.onDone i { s.transfer txd with state := state }

/-- The word has been transferred: count it, unless no words are left. -/
def count (s : Sd) (i : In) : Sd := { s with sdINCBA := true, sdINCWC := i.rhWC != 0 }

/-- The end of a half sector: finish after the second half if no words are left. -/
def endSector (s : Sd) (i : In) (state : State) : Sd :=
  if s.sectCNT && i.rhWC == 0 then
    { s with sdINCSECT := s.sectCNT, sectCNT := false, loopCNT := 0, state := .fini }
  else
    { s with
      sdINCSECT := s.sectCNT
      sectCNT := !s.sectCNT
      sectADDR := s.sectADDR + 1
      state := state }

/-- The request of the drive that is being scanned. -/
def requested (s : Sd) (i : In) : Bool := i.rpSDREQ.getLsbD s.sdSCAN.toNat

/-- Go on with the next half sector if the drive still requests it. -/
def nextSector (s : Sd) (i : In) (state : State) : Sd :=
  if s.requested i then { s with state := state }
  else { s with loopCNT := 0, sectCNT := false, state := .fini }

/-- Accept a request. -/
def accept (s : Sd) (i : In) (readop : Bool) (state : State) : Sd :=
  { s with
    sdREADOP := readop
    sectCNT := false
    sectADDR := 0#8 ++ s.sdSCAN ++ i.rpSDLSA
    state := state }

def scan (s : Sd) (i : In) : Sd :=
  if s.requested i then
    match i.rpSDOP with
    | .nop => { s with state := .idle }
    | .rd => { s.accept i true .read00 with sdRDCNT := s.sdRDCNT + 1 }
    | .rdh => { s.accept i true .readh00 with sdRDCNT := s.sdRDCNT + 1 }
    | .wr => { s.accept i false .write00 with sdWRCNT := s.sdWRCNT + 1 }
    | .wrh => { s.accept i false .writeh00 with sdWRCNT := s.sdWRCNT + 1 }
    | .wrchk => { s.accept i false .wrchk00 with sdRDCNT := s.sdRDCNT + 1 }
    | .wrchkh => { s.accept i false .wrchkh00 with sdRDCNT := s.sdRDCNT + 1 }
  else { s with sdSCAN := s.sdSCAN + 1 }

/-- The bytes of the answer to CMD8. -/
def echo (s : Sd) (i : In) (rx : BitVec 8) (err : BitVec 8) (k : Sd) : Sd :=
  s.onDone i (if i.spiRXD == rx then k else { s with sdERR := err, state := .infail })

def init06 (s : Sd) (i : In) : Sd :=
  match s.loopCNT.toNat with
  | 0 => { s.transfer ff with loopCNT := 1 }
  | 1 => s.echo i 0x00 4 { s.transfer ff with loopCNT := 2 }
  | 2 => s.echo i 0x00 5 { s.transfer ff with loopCNT := 3 }
  | 3 => s.echo i 0x01 6 { s.transfer ff with loopCNT := 4 }
  | 4 => s.echo i 0xaa 7 { s.goto .init07 with spiOP := .csh }
  | _ => s

/-- The bytes of the operation conditions register. -/
def init16 (s : Sd) (i : In) : Sd :=
  match s.loopCNT.toNat with
  | 0 => { s.transfer ff with loopCNT := 1 }
  | 1 =>
      s.onDone i
        (if i.spiRXD.getLsbD 7 && i.spiRXD.getLsbD 6 then { s.transfer ff with loopCNT := 2 }
        else { s.fail 12 .infail with sdVAL := i.spiRXD })
  | 2 =>
      s.onDone i
        (if i.spiRXD.getLsbD 5 || i.spiRXD.getLsbD 4 then { s.transfer ff with loopCNT := 3 }
        else { s.fail 13 .infail with sdVAL := i.spiRXD })
  | 3 => s.onDone i { s.transfer ff with loopCNT := 4 }
  | 4 => s.onDone i { s.goto .init17 with spiOP := .csh }
  | _ => s

/-- Wait for a data token. -/
def token (s : Sd) (i : In) (late bad : BitVec 8) (state : State) : Sd :=
  s.poll i nAC (s.fail late .rwfail)
    (if i.spiRXD == 0xfe then (s.transfer ff).goto state
    else s.failVal i bad)

/-! ## The state machine -/

/-- One clock of the controller. -/
def next (s : Sd) (i : In) : Sd :=
  let q := s.quiet
  match s.state with
  | .reset => { q with tempDATA := 0, header1 := 0, header2 := 0, loopCNT := 0, state := .init00 }
  | .init00 => q.sendBytes i nCR ff (q.command [0x40, 0x00, 0x00, 0x00, 0x00, 0x95] .init01)
  | .init01 => q.sendCommand i (q.goto .init02)
  | .init02 =>
      q.poll i nCR { q.goto .reset with spiOP := .csh }
        { q.goto (if i.spiRXD == 0x01 then .init03 else .reset) with spiOP := .csh }
  | .init03 => q.oneByte i ff (q.command [0x48, 0x00, 0x00, 0x01, 0xaa, 0x87] .init04)
  | .init04 => q.sendCommand i (q.goto .init05)
  | .init05 =>
      q.poll i nCR (q.fail 1 .infail)
        (if i.spiRXD == 0x01 then q.goto .init06
        else if i.spiRXD == 0x05 then q.fail 2 .infail
        else q.fail 3 .infail)
  | .init06 => q.init06 i
  | .init07 => q.oneByte i ff (q.command [0x77, 0x00, 0x00, 0x00, 0x00, ff] .init08)
  | .init08 => q.sendCommand i (q.goto .init09)
  | .init09 =>
      q.poll i nCR (q.fail 8 .infail)
        { q.goto (if i.spiRXD == 0x01 then .init10 else .init07) with spiOP := .csh }
  | .init10 => q.oneByte i ff (q.command [0x69, 0x40, 0x00, 0x00, 0x00, ff] .init11)
  | .init11 => q.sendCommand i (q.goto .init12)
  | .init12 =>
      q.poll i nCR (q.fail 9 .infail)
        { q.goto (if i.spiRXD == 0x00 then .init13 else .init07) with spiOP := .csh }
  | .init13 => q.oneByte i ff (q.command [0x7a, 0x00, 0x00, 0x00, 0x00, ff] .init14)
  | .init14 => q.sendCommand i (q.goto .init15)
  | .init15 =>
      q.poll i nCR (q.fail 10 .infail)
        (if i.spiRXD == 0x00 then q.goto .init16 else q.fail 11 .infail)
  | .init16 => q.init16 i
  | .init17 => q.oneByte i ff { q.goto .idle with spiOP := .fast }
  | .idle => q.scan i
  -- Read header
  | .readh00 => { q with devREQO := true, devDATAO := q.header1, state := .readh01 }
  | .readh01 => q.onAck i { q.count i with state := .readh02 }
  | .readh02 => { q with devREQO := true, devDATAO := q.header2, state := .readh03 }
  | .readh03 => q.onAck i { q.count i with state := .read00 }
  -- Read
  | .read00 => q.command (q.sectorCommand 17) .read01
  | .read01 => q.sendCommand i (q.goto .read02)
  | .read02 =>
      q.poll i nCR (q.fail 14 .rwfail)
        (if i.spiRXD == 0x00 then q.goto .read03 else q.failVal i 15)
  | .read03 => q.token i 16 17 .read04
  | .read04 => q.receive i .read05 fun s => { s with tempDATA := setByte0 s.tempDATA i.spiRXD }
  | .read05 => q.receive i .read06 fun s => { s with tempDATA := setByte1 s.tempDATA i.spiRXD }
  | .read06 => q.receive i .read07 fun s => { s with tempDATA := setByte2 s.tempDATA i.spiRXD }
  | .read07 => q.receive i .read08 fun s => { s with tempDATA := setByte3 s.tempDATA i.spiRXD }
  | .read08 =>
      q.receive i .read09 fun s =>
        { s with tempDATA := setNibble4 s.tempDATA (i.spiRXD.extractLsb' 0 4) }
  | .read09 => q.receive i .read10 id
  | .read10 => q.receive i .read11 id
  | .read11 =>
      q.onDone i
        { q with
          devREQO := true
          devDATAO := if i.rhWC != 0 then q.tempDATA else 0
          state := .read12 }
  | .read12 => q.onAck i { q.count i with state := .read13 }
  | .read13 =>
      if q.loopCNT == 63 then { q.transfer ff with state := .read14 }
      else { q.transfer ff with loopCNT := q.loopCNT + 1, state := .read04 }
  | .read14 => q.receive i .read15 id
  | .read15 => q.onDone i { q with spiOP := .csh, spiTXD := ff, state := .read16 }
  | .read16 => { q.transfer ff with state := .read17 }
  | .read17 => q.onDone i (q.endSector i .read18)
  | .read18 => { q with state := .read19 }
  | .read19 => q.nextSector i .read00
  -- Write header
  | .writeh00 => { q with devREQO := true, state := .writeh01 }
  | .writeh01 => q.onAck i { q.count i with header1 := i.devDATAI, state := .writeh02 }
  | .writeh02 => { q with devREQO := true, state := .writeh03 }
  | .writeh03 => q.onAck i { q.count i with header2 := i.devDATAI, state := .write00 }
  -- Write
  | .write00 => q.command (q.sectorCommand 24) .write01
  | .write01 => q.sendCommand i (q.goto .write02)
  | .write02 =>
      q.poll i nCR (q.fail 18 .rwfail)
        (if i.spiRXD == 0x00 then q.goto .write03
        else
          -- The state is left as it is.
          { q with spiOP := .csh, loopCNT := 0, sdVAL := i.spiRXD, sdERR := 19 })
  | .write03 => q.oneByte i ff (q.goto .write04)
  | .write04 => q.oneByte i 0xfe (q.goto .write05)
  | .write05 =>
      if i.rhWC == 0 then { q with tempDATA := 0, state := .write07 }
      else { q with devREQO := true, state := .write06 }
  | .write06 => q.onAck i { q with tempDATA := i.devDATAI, state := .write07 }
  | .write07 => { (q.count i).transfer (byte0 q.tempDATA) with state := .write08 }
  | .write08 => q.sendNext i (byte1 q.tempDATA) .write09
  | .write09 => q.sendNext i (byte2 q.tempDATA) .write10
  | .write10 => q.sendNext i (byte3 q.tempDATA) .write11
  | .write11 => q.sendNext i (0#4 ++ nibble4 q.tempDATA) .write12
  | .write12 => q.sendNext i 0 .write13
  | .write13 => q.sendNext i 0 .write14
  | .write14 => q.sendNext i 0 .write15
  | .write15 =>
      q.onDone i
        (if q.loopCNT == 63 then { q.transfer ff with state := .write16 }
        else { q with loopCNT := q.loopCNT + 1, state := .write05 })
  | .write16 => q.receive i .write17 id
  | .write17 => q.receive i .write18 id
  | .write18 =>
      q.onDone i
        (if i.spiRXD.extractLsb' 0 5 == 0b00101 then
          (q.transfer ff).goto .write19
        else q.failVal i 20)
  | .write19 =>
      q.onDone i
        (if i.spiRXD == 0 then
          if q.loopCNT == 65535 then q.fail 21 .rwfail
          else { q.transfer ff with loopCNT := q.loopCNT + 1 }
        else { q.goto .write20 with sdCMD := [0x4d, 0x00, 0x00, 0x00, 0x00, ff] })
  | .write20 => q.sendCommand i ((q.transfer ff).goto .write21)
  | .write21 =>
      q.onDone i
        (if i.spiRXD == ff then
          if q.loopCNT == nCR then q.fail 22 .rwfail
          else { q.transfer ff with loopCNT := q.loopCNT + 1 }
        else if i.spiRXD == 0x00 || i.spiRXD == 0x01 then
          (q.transfer ff).goto .write22
        else
          -- The state is left as it is.
          { q with spiOP := .csh, loopCNT := 0, sdVAL := i.spiRXD, sdERR := 23 })
  | .write22 =>
      q.onDone i
        (if i.spiRXD == 0x00 then { q.transfer ff with loopCNT := 1, state := .write23 }
        else { q with spiOP := .csh, sdVAL := i.spiRXD, sdERR := 24, state := .rwfail })
  | .write23 => q.onDone i ({ q with spiOP := .csh }.endSector i .write24)
  | .write24 => { q with state := .write25 }
  | .write25 => q.nextSector i .write00
  -- Write check header: both words are compared with the first header
  | .wrchkh00 => { q with devREQO := true, devDATAO := q.header1, state := .wrchkh01 }
  | .wrchkh01 =>
      q.onAck i { q.count i with sdSETWCE := q.header1 != i.devDATAI, state := .wrchkh02 }
  | .wrchkh02 => { q with devREQO := true, devDATAO := q.header1, state := .wrchkh03 }
  | .wrchkh03 =>
      q.onAck i { q.count i with sdSETWCE := q.header1 != i.devDATAI, state := .wrchk00 }
  -- Write check
  | .wrchk00 => q.command (q.sectorCommand 17) .wrchk01
  | .wrchk01 => q.sendCommand i (q.goto .wrchk02)
  | .wrchk02 =>
      q.poll i nCR (q.fail 25 .rwfail)
        (if i.spiRXD == 0x00 then q.goto .wrchk03 else q.fail 26 .rwfail)
  | .wrchk03 => q.token i 27 28 .wrchk04
  | .wrchk04 => q.receive i .wrchk05 fun s => { s with tempDATA := setByte0 s.tempDATA i.spiRXD }
  -- This byte goes to the output register.
  | .wrchk05 => q.receive i .wrchk06 fun s => { s with devDATAO := setByte1 s.devDATAO i.spiRXD }
  | .wrchk06 => q.receive i .wrchk07 fun s => { s with tempDATA := setByte2 s.tempDATA i.spiRXD }
  | .wrchk07 => q.receive i .wrchk08 fun s => { s with tempDATA := setByte3 s.tempDATA i.spiRXD }
  | .wrchk08 =>
      q.receive i .wrchk09 fun s =>
        { s with tempDATA := setNibble4 s.tempDATA (i.spiRXD.extractLsb' 0 4) }
  | .wrchk09 => q.receive i .wrchk10 id
  | .wrchk10 => q.receive i .wrchk11 id
  | .wrchk11 =>
      q.onDone i
        (if i.rhWC == 0 then { q with state := .wrchk13 }
        else { q.transfer ff with devREQO := true, state := .wrchk12 })
  | .wrchk12 => q.onAck i { q with sdSETWCE := q.tempDATA != i.devDATAI, state := .wrchk13 }
  | .wrchk13 =>
      if q.loopCNT == 63 then { (q.count i).transfer ff with state := .wrchk14 }
      else { (q.count i).transfer ff with loopCNT := q.loopCNT + 1, state := .wrchk04 }
  | .wrchk14 => q.receive i .wrchk15 id
  | .wrchk15 => q.onDone i ({ q with spiOP := .csh }.endSector i .wrchk16)
  | .wrchk16 => { q with state := .wrchk17 }
  | .wrchk17 => q.nextSector i .wrchk00
  -- Others
  | .fini => q.oneByte i ff (q.goto .ackrp)
  | .ackrp => { q with rpSDACK := 1#8 <<< q.sdSCAN.toNat, state := .done }
  | .done => { q with state := .idle }
  | .infail => q
  | .rwfail => q

end Sd

end KS10
