import KS10.Dup.Crc
import KS10.Usrt.Receiver

/-!
# The receiver of the DUP11

DUPRX takes the characters that the shift register finds on the selected line and reports
them in the receiver data buffer, with the start and the end of the message.  At every
character it compares its CRC register with what is left there by a message and its check
characters.
-/

namespace KS10

open Clocked

inductive DupRx.State where
  | idle
  | sdlcSsm
  | sdlcSync
  | sdlcRecv
  | sdlcClrSom
  | sdlcAbrt
  | decSync
  | decRecv
  deriving DecidableEq

/-- The registers of the state machine. -/
structure DupRx.Fsm where
  state : DupRx.State
  rxAct : Bool
  rxSom : Bool
  rxEom : Bool
  rxCrce : Bool
  rxOvr : Bool
  rxAbrt : Bool
  rxDone : Bool
  crcInit : Bool
  deriving DecidableEq

structure DupRx where
  fsm : DupRx.Fsm
  lastRxdbufRd : Bool
  rxDat : BitVec 8
  crcErr : Bool
  usrt : UsrtRx
  crcReg : BitVec 16
  deriving DecidableEq

/-- Maintenance select. -/
inductive DupMsel where
  | user
  | mext
  | mint
  | diag
  deriving DecidableEq

namespace DupRx

/-- The inputs of DUPRX at one clock. -/
structure In where
  rst : Bool
  init : Bool
  msel : DupMsel
  rxEn : Bool
  mdi : Bool
  rxCen : Bool
  txCen : Bool
  txd : Bool
  rxd : Bool
  devLobyte : Bool
  rxdbufRead : Bool
  decmd : Bool
  ssm : Bool
  crci : Bool
  synadr : BitVec 8

/-! ## The line and the check -/

/-- The selftest input multiplexer. -/
def rxIn (i : In) : Bool :=
  match i.msel with
  | .user => i.rxd
  | .mext => i.rxd
  | .mint => i.txd
  | .diag => i.mdi || i.txd

def sdlcCrc : BitVec 16 := 0o16417
def decCrc : BitVec 16 := 0o00000

/-- The CRC check. -/
def crcBad (decmd : Bool) (crcReg : BitVec 16) : Bool :=
  if decmd then crcReg != decCrc else crcReg != sdlcCrc

/-- What the receiver shift register reports at one clock. -/
structure Word where
  full : Bool
  flag : Bool
  abort : Bool
  decsyn : Bool
  data : BitVec 8

/-! ## The state machine -/

namespace Fsm

def reset : Fsm :=
  { state := .idle, rxAct := false, rxSom := false, rxEom := false, rxCrce := false
    rxOvr := false, rxAbrt := false, rxDone := false, crcInit := false }

/-- What every clock does first: the end of a read clears RXDONE and RXABRT, and a flag
initializes the CRC. -/
def settle (f : Fsm) (lastRxdbufRd : Bool) (w : Word) (i : In) : Fsm :=
  let read := !i.rxdbufRead && lastRxdbufRd
  { f with
    rxDone := f.rxDone && !read
    rxAbrt := f.rxAbrt && !read
    crcInit := i.txCen && w.flag }

/-- One clock of the state machine while the receiver is enabled. -/
def step (f : Fsm) (lastRxdbufRd crcErr : Bool) (w : Word) (i : In) : Fsm :=
  let f' := f.settle lastRxdbufRd w i
  match f.state with
  | .idle =>
      if i.txCen then
        let f' := { f' with rxEom := false, rxOvr := false }
        if i.decmd then
          if w.decsyn then { f' with rxAct := true, state := .decSync } else f'
        else if w.flag then
          { f' with rxAct := true, state := if i.ssm then .sdlcSsm else .sdlcSync }
        else f'
      else f'
  | .sdlcSsm =>
      if w.abort then { f' with state := .sdlcAbrt }
      else if i.txCen then
        if w.flag then { f' with state := .sdlcSsm }
        else if w.full then
          if w.data == i.synadr then { f' with rxSom := true, state := .sdlcRecv }
          else { f' with state := .idle }
        else f'
      else f'
  | .sdlcSync =>
      if w.abort then { f' with state := .sdlcAbrt }
      else if i.txCen then
        if w.flag then { f' with state := .sdlcSync }
        else if w.full then
          { f' with rxOvr := f.rxDone, rxSom := true, rxDone := true, state := .sdlcRecv }
        else f'
      else f'
  | .sdlcRecv =>
      if w.abort then { f' with state := .sdlcAbrt }
      else if i.txCen then
        if w.flag then
          { f' with
            rxAct := false
            rxEom := i.crci || !crcErr
            rxCrce := !i.crci && crcErr
            rxDone := true
            state := .idle }
        else if w.full then
          { f' with rxOvr := f.rxDone, rxDone := true, state := .sdlcClrSom }
        else f'
      else f'
  | .sdlcClrSom => if i.txCen then { f' with rxSom := false, state := .sdlcRecv } else f'
  | .sdlcAbrt => { f' with rxAct := false, rxAbrt := true, rxDone := true, state := .idle }
  | .decSync =>
      if i.txCen then
        if w.decsyn then { f' with state := .decSync }
        else if w.full then
          { f' with rxOvr := f.rxDone, rxAct := true, rxDone := true, state := .decRecv }
        else f'
      else f'
  | .decRecv =>
      if i.txCen then
        if w.decsyn then { f' with state := .decSync }
        else if w.full then { f' with rxAct := f.rxDone, rxDone := true }
        else f'
      else f'

/-- One clock of the state machine. -/
def next (f : Fsm) (lastRxdbufRd crcErr : Bool) (w : Word) (i : In) : Fsm :=
  if i.rst then reset
  else if i.init || !i.rxEn then reset
  else f.step lastRxdbufRd crcErr w i

end Fsm

/-! ## One clock -/

/-- The inputs of the shift register. -/
def usrtIn (i : In) : UsrtRx.In where
  rst := i.rst
  clr := i.init
  clken := i.rxCen
  decmode := i.decmd
  rxd := rxIn i
  synchr := i.synadr

def word (s : DupRx) (i : In) : Word where
  full := s.usrt.full
  flag := s.usrt.flag
  abort := s.usrt.abort
  decsyn := s.usrt.decsyn (usrtIn i)
  data := s.usrt.data

/-- The inputs of the CRC register.  The data are those of the external line, whatever line
is selected. -/
def crcIn (s : DupRx) (i : In) : Crc16.In where
  rst := i.rst
  clken := i.rxCen && s.usrt.crcen (usrtIn i)
  init := s.fsm.crcInit
  decmode := i.decmd
  din := i.rxd

def nextRxDat (s : DupRx) (i : In) : BitVec 8 :=
  if i.rst then 0
  else if i.init then 0
  else if i.txCen && s.usrt.full then s.usrt.data
  else s.rxDat

def nextCrcErr (s : DupRx) (i : In) : Bool :=
  if i.rst then false
  else if i.init then false
  else if i.txCen && s.usrt.full then crcBad i.decmd s.crcReg
  else s.crcErr

/-- One clock of DUPRX. -/
def next (s : DupRx) (i : In) : DupRx where
  fsm := s.fsm.next s.lastRxdbufRd s.crcErr (s.word i) i
  lastRxdbufRd := if i.rst then false else i.rxdbufRead && i.devLobyte
  rxDat := s.nextRxDat i
  crcErr := s.nextCrcErr i
  usrt := s.usrt.next (usrtIn i)
  crcReg := Crc16.next s.crcReg (s.crcIn i)

/-- Composite error. -/
def rxErr (s : DupRx) : Bool := s.fsm.rxOvr || s.fsm.rxCrce || s.fsm.rxAbrt

/-- The receiver data buffer. -/
def regRxdbuf (s : DupRx) : BitVec 16 :=
  BitVec.ofBool s.rxErr ++ BitVec.ofBool s.fsm.rxOvr ++ 0#1 ++ BitVec.ofBool s.fsm.rxCrce ++
    0#1 ++ BitVec.ofBool s.fsm.rxAbrt ++ BitVec.ofBool s.fsm.rxEom ++
    BitVec.ofBool s.fsm.rxSom ++ s.rxDat

end DupRx

end KS10
