import KS10.Clocked.Run

/-!
# The DMA of the line printer controller

LPDMA fetches the bytes of a transfer from memory, one bus cycle for each byte, whenever the
printer is ready for one.  The bus address, the byte count, the checksum and the character
buffer are modules of their own that look at the same request and acknowledge, and the byte
count sets the DONE bit of the first control register when it comes to zero.
-/

namespace KS10

open Clocked

inductive LpDma.State where
  | idle
  | wait
  | ready
  | read
  | next
  | check
  | ackFail
  | done
  deriving DecidableEq

/-- The registers of LPDMA. -/
structure LpDma where
  state : LpDma.State
  timer : BitVec 9
  devReqO : Bool
  lpIncr : Bool
  lpGo : Bool
  deriving DecidableEq

namespace LpDma

/-- The inputs of LPDMA at one clock. -/
structure In where
  rst : Bool
  devAckI : Bool
  lpDone : Bool
  lpTestMsyn : Bool
  lpErr : Bool
  lpCmdGo : Bool
  lpCmdStop : Bool
  lpReady : Bool

def reset : LpDma where
  state := .idle
  timer := 255
  devReqO := false
  lpIncr := false
  lpGo := false

/-- The states of the machine, the request and the increment being down by default. -/
def step (s : LpDma) (i : In) : LpDma :=
  let s' := { s with devReqO := false, lpIncr := false }
  match s.state with
  | .idle => if i.lpCmdGo && !i.lpErr then { s' with lpGo := true, state := .wait } else s'
  | .wait => if i.lpCmdGo then s' else { s' with state := .ready }
  | .ready =>
      if i.lpReady then { s' with devReqO := true, timer := 255, state := .read } else s'
  | .read =>
      -- the acknowledge is ignored while its timeout is tested
      if i.devAckI && !i.lpTestMsyn then { s' with lpIncr := true, state := .next }
      else if s.timer = 0 then { s' with state := .ackFail }
      else { s' with devReqO := true, timer := s.timer - 1 }
  | .next => { s' with state := .check }
  | .check => if i.lpDone then { s' with state := .done } else { s' with state := .ready }
  | .ackFail => { s' with state := .done }
  | .done => { s' with lpGo := false, state := .idle }

/-- One clock of LPDMA. -/
def next (s : LpDma) (i : In) : LpDma :=
  if i.rst then reset
  else if i.lpCmdStop then
    { s with lpGo := false, devReqO := false, lpIncr := false, state := .idle }
  else s.step i

/-! ## What a clock does -/

variable {s : LpDma} {i : In}

/-- The request is up in the state that waits for the acknowledge, and the increment in the
state after it. -/
theorem step_flags : (s.step i).devReqO = decide ((s.step i).state = .read) ∧
    (s.step i).lpIncr = decide ((s.step i).state = .next) := by
  unfold step
  cases s.state with
  | idle => cases i.lpCmdGo && !i.lpErr <;> simp
  | wait => cases i.lpCmdGo <;> simp
  | ready => cases i.lpReady <;> simp
  | read =>
      cases i.devAckI && !i.lpTestMsyn with
      | true => simp
      | false => by_cases htimer : s.timer = 0#9 <;> simp [htimer]
  | next => simp
  | check => cases i.lpDone <;> simp
  | ackFail => simp
  | done => simp

/-- The increment follows a byte that has been taken. -/
theorem step_next_iff :
    (s.step i).state = .next ↔ s.state = .read ∧ i.devAckI = true ∧ i.lpTestMsyn = false := by
  unfold step
  cases s.state with
  | idle => cases i.lpCmdGo && !i.lpErr <;> simp
  | wait => cases i.lpCmdGo <;> simp
  | ready => cases i.lpReady <;> simp
  | read =>
      cases i.devAckI with
      | false => by_cases htimer : s.timer = 0#9 <;> simp [htimer]
      | true =>
          cases i.lpTestMsyn with
          | false => simp
          | true => by_cases htimer : s.timer = 0#9 <;> simp [htimer]
  | next => simp
  | check => cases i.lpDone <;> simp
  | ackFail => simp
  | done => simp

/-- A request goes up when the printer is ready, or stays up without an acknowledge. -/
theorem ready_of_step_read (h : (s.step i).state = .read) :
    s.state = .ready ∧ i.lpReady = true ∨
      s.state = .read ∧ (i.devAckI = true → i.lpTestMsyn = true) := by
  unfold step at h
  cases hstate : s.state with
  | idle => cases hgo : i.lpCmdGo && !i.lpErr <;> simp [hstate, hgo] at h
  | wait => cases hgo : i.lpCmdGo <;> simp [hstate, hgo] at h
  | ready =>
      cases hready : i.lpReady with
      | true => exact .inl ⟨rfl, rfl⟩
      | false => simp [hstate, hready] at h
  | read =>
      refine .inr ⟨rfl, fun hack => ?_⟩
      cases hmsyn : i.lpTestMsyn with
      | true => rfl
      | false => simp [hstate, hack, hmsyn] at h
  | next => simp [hstate] at h
  | check => cases hdone : i.lpDone <;> simp [hstate, hdone] at h
  | ackFail => simp [hstate] at h
  | done => simp [hstate] at h

/-- A request ends with the byte or with the timeout. -/
theorem step_of_read (h : s.state = .read) : (s.step i).state = .next ∨
    (s.step i).state = .ackFail ∨ (s.step i).state = .read := by
  unfold step
  rw [h]
  dsimp only
  split
  · exact .inl rfl
  · split
    · exact .inr (.inl rfl)
    · exact .inr (.inr rfl)

/-- The machine waits as long as the GO goes on. -/
theorem go_of_step_wait (h : (s.step i).state = .wait) : i.lpCmdGo = true := by
  unfold step at h
  cases hgo : i.lpCmdGo with
  | true => rfl
  | false =>
      cases hstate : s.state with
      | idle => simp [hstate, hgo] at h
      | wait => simp [hstate, hgo] at h
      | ready => cases hready : i.lpReady <;> simp [hstate, hready] at h
      | read =>
          cases hack : i.devAckI && !i.lpTestMsyn with
          | true => simp [hstate, hack] at h
          | false => by_cases htimer : s.timer = 0#9 <;> simp [hstate, hack, htimer] at h
      | next => simp [hstate] at h
      | check => cases hdone : i.lpDone <;> simp [hstate, hdone] at h
      | ackFail => simp [hstate] at h
      | done => simp [hstate] at h

end LpDma

/-- The registers that follow the transfer: the bus address, the byte count, the checksum, the
character buffer and what the printer side knows of it, and the bits of the control registers
that bear on it. -/
structure LpXfer where
  dma : LpDma
  regBar : BitVec 18
  count : BitVec 12
  regCksm : BitVec 8
  regCbuf : BitVec 8
  /-- The character buffer has been written a clock ago. -/
  strobe : Bool
  lpDone : Bool
  lpMode : BitVec 2
  lpTest : BitVec 3
  deriving DecidableEq

namespace LpXfer

/-- The inputs of one clock. -/
structure In where
  rst : Bool
  devReset : Bool
  devLoByte : Bool
  devHiByte : Bool
  csraWrite : Bool
  csrbWrite : Bool
  barWrite : Bool
  bctrWrite : Bool
  cbufWrite : Bool
  lpDataI : BitVec 36
  devAckI : Bool
  lpErr : Bool
  lpReady : Bool

def modeRam : BitVec 2 := 0b11
def testMsyn : BitVec 3 := 0b010

/-! ## The fields of the written word -/

def csraInit (d : BitVec 36) : Bool := d.getLsbD 8
def csraAddr (d : BitVec 36) : BitVec 2 := d.extractLsb' 4 2
def csraMode (d : BitVec 36) : BitVec 2 := d.extractLsb' 2 2
def csraGo (d : BitVec 36) : Bool := d.getLsbD 0
def csrbTest (d : BitVec 36) : BitVec 3 := d.extractLsb' 8 3
def barAddr (d : BitVec 36) : BitVec 16 := d.extractLsb' 0 16
def bctrDat (d : BitVec 36) : BitVec 12 := d.extractLsb' 0 12
def cbufDat (d : BitVec 36) : BitVec 8 := d.extractLsb' 0 8

/-- The byte of a word from memory that the address selects. -/
def byteDataI (bar : BitVec 18) (d : BitVec 36) : BitVec 8 :=
  match bar.getLsbD 1, bar.getLsbD 0 with
  | false, false => d.extractLsb' 18 8
  | false, true => d.extractLsb' 26 8
  | true, false => d.extractLsb' 0 8
  | true, true => d.extractLsb' 8 8

/-! ## The commands -/

/-- A write of the low byte of CSRA. -/
def csraLow (i : In) : Bool := i.csraWrite && i.devLoByte

def lpInit (i : In) : Bool := i.devReset || (i.csraWrite && i.devHiByte && csraInit i.lpDataI)

def lpCmdGo (i : In) : Bool := csraLow i && csraGo i.lpDataI

def lpCmdStop (i : In) : Bool := csraLow i && !csraGo i.lpDataI

/-! ## One clock -/

def lpModeLdRam (s : LpXfer) : Bool := s.lpMode == modeRam

def lpTestMsyn (s : LpXfer) : Bool := s.lpMode == modeRam && s.lpTest == testMsyn

/-- The request is acknowledged. -/
def lpDmaWr (s : LpXfer) (i : In) : Bool := s.dma.devReqO && i.devAckI

def lpSetDone (s : LpXfer) : Bool := s.count == 0o7777 && s.dma.lpIncr

/-- The request on the bus is a read of the word at the bus address. -/
def devAddrO (s : LpXfer) : BitVec 36 := 0b000100000000000000#18 ++ s.regBar

def dmaIn (s : LpXfer) (i : In) : LpDma.In where
  rst := i.rst
  devAckI := i.devAckI
  lpDone := s.lpDone
  lpTestMsyn := s.lpTestMsyn
  lpErr := i.lpErr
  lpCmdGo := lpCmdGo i
  lpCmdStop := lpCmdStop i
  lpReady := i.lpReady

/-- LPBAR. -/
def nextBar (s : LpXfer) (i : In) : BitVec 18 :=
  if i.rst then 0
  else if lpInit i then 0
  else if csraLow i then csraAddr i.lpDataI ++ s.regBar.extractLsb' 0 16
  else if i.barWrite then s.regBar.extractLsb' 16 2 ++ barAddr i.lpDataI
  else if s.dma.lpIncr then s.regBar + 1
  else s.regBar

/-- LPBCTR. -/
def nextCount (s : LpXfer) (i : In) : BitVec 12 :=
  if i.rst then 0
  else if lpInit i then 0
  else if i.bctrWrite then bctrDat i.lpDataI
  else if s.dma.lpIncr then s.count + 1
  else s.count

/-- LPCKSM. -/
def nextCksm (s : LpXfer) (i : In) : BitVec 8 :=
  if i.rst then 0
  else if lpCmdGo i then 0
  else if s.lpDmaWr i then s.regCksm + byteDataI s.regBar i.lpDataI
  else s.regCksm

/-- LPCBUF. -/
def nextCbuf (s : LpXfer) (i : In) : BitVec 8 :=
  if i.rst then 0
  else if lpInit i then 0
  else if i.cbufWrite then cbufDat i.lpDataI
  else if !s.lpModeLdRam && s.lpDmaWr i then byteDataI s.regBar i.lpDataI
  else s.regCbuf

def nextDone (s : LpXfer) (i : In) : Bool :=
  if i.rst then false
  else if i.bctrWrite then false
  else if lpInit i || s.lpSetDone then true
  else s.lpDone

def nextMode (s : LpXfer) (i : In) : BitVec 2 :=
  if i.rst then 0
  else if lpInit i then 0
  else if csraLow i then csraMode i.lpDataI
  else s.lpMode

def nextTest (s : LpXfer) (i : In) : BitVec 3 :=
  if i.rst then 0
  else if lpInit i then 0
  else if i.csrbWrite && i.devHiByte then csrbTest i.lpDataI
  else s.lpTest

/-- One clock of the transfer. -/
def next (s : LpXfer) (i : In) : LpXfer where
  dma := s.dma.next (s.dmaIn i)
  regBar := s.nextBar i
  count := s.nextCount i
  regCksm := s.nextCksm i
  regCbuf := s.nextCbuf i
  strobe := if i.rst then false else s.lpDmaWr i
  lpDone := s.nextDone i
  lpMode := s.nextMode i
  lpTest := s.nextTest i

end LpXfer

end KS10
