import KS10.Dup.Crc
import KS10.Usrt.Transmitter

/-!
# The transmitter of the DUP11

DUPTX takes characters from the transmitter data buffer and hands them to the shift register,
with the flags or synchronization characters before them and the check characters and the
flag after them.  TXDONE tells the program that the buffer may be written: the write of the
buffer clears it, and the load of a character sets it.
-/

namespace KS10

open Clocked

inductive DupTx.State where
  | idle
  | startDelay1
  | startDelay2
  | startDelay3
  | preFlag1
  | preFlag2
  | startSync
  | payload
  | sendCrcHi
  | sendCrcLo
  | markHold
  | wait
  | done
  deriving DecidableEq

/-- The registers of the state machine. -/
structure DupTx.Fsm where
  state : DupTx.State
  txAct : Bool
  txDone : Bool
  load : Bool
  flag : Bool
  abrt : Bool
  zbi : Bool
  crcInit : Bool
  crcLo : BitVec 8
  data : BitVec 8
  deriving DecidableEq

structure DupTx where
  fsm : DupTx.Fsm
  lastTxSom : Bool
  txDle : Bool
  usrt : UsrtTx
  crcReg : BitVec 16
  deriving DecidableEq

namespace DupTx

/-- The inputs of DUPTX at one clock. -/
structure In where
  rst : Bool
  init : Bool
  decmd : Bool
  crci : Bool
  send : Bool
  txAbrt : Bool
  txEom : Bool
  txSom : Bool
  txDat : BitVec 8
  txCen : Bool
  rxCen : Bool
  txDbufWr : Bool

/-! ## The check characters -/

/-- The CRC is transposed so that the most significant bit is transmitted first. -/
def crc (crcReg : BitVec 16) : BitVec 16 := crcReg.reverse

/-- The first check character.  In SDLC mode it is complemented. -/
def crcHi (decmd : Bool) (crcReg : BitVec 16) : BitVec 8 :=
  if decmd then (crc crcReg).extractLsb' 0 8 else ~~~(crc crcReg).extractLsb' 0 8

/-- The second check character. -/
def crcLo (decmd : Bool) (crcReg : BitVec 16) : BitVec 8 :=
  if decmd then (crc crcReg).extractLsb' 8 8 else ~~~(crc crcReg).extractLsb' 8 8

/-! ## The state machine -/

namespace Fsm

def reset : Fsm :=
  { state := .idle, txAct := false, txDone := false, load := false, flag := false, abrt := false
    zbi := false, crcInit := false, crcLo := 0, data := 0 }

/-- What every clock does first: the strobes end, and a write of the buffer clears TXDONE. -/
def settle (f : Fsm) (i : In) : Fsm :=
  { f with
    flag := false
    abrt := false
    zbi := false
    load := false
    crcInit := false
    txDone := f.txDone && !i.txDbufWr }

/-- One clock of the state machine without a reset. -/
def step (f : Fsm) (empty : Bool) (crcReg : BitVec 16) (i : In) : Fsm :=
  let f' := f.settle i
  if empty && i.send && i.txAbrt then
    { f' with abrt := true, load := true, data := 0, state := .wait }
  else
    match f.state with
    | .idle =>
        if i.txCen && i.send && i.txSom then
          if !i.decmd && i.txEom then { f' with state := .preFlag1 }
          else { f' with state := .startDelay1 }
        else f'
    | .startDelay1 => if i.txCen then { f' with state := .startDelay2 } else f'
    | .startDelay2 => if i.txCen then { f' with state := .startDelay3 } else f'
    | .startDelay3 =>
        if i.txCen then { f' with txAct := true, state := .startSync }
        else { f' with txAct := true }
    | .preFlag1 =>
        if i.txCen then { f' with load := true, data := 0, txDone := true, state := .preFlag2 }
        else f'
    | .preFlag2 =>
        if empty then { f' with load := true, data := 0, state := .startSync } else f'
    | .startSync =>
        if empty then
          if i.send then
            if i.txSom then
              if i.decmd then { f' with load := true, txDone := true, data := i.txDat }
              else { f' with load := true, txDone := true, flag := true, data := 0 }
            else { f' with crcInit := true, state := .payload }
          else if f.txDone then { f' with state := .done }
          else { f' with state := .payload }
        else f'
    | .payload =>
        if empty then
          if i.send then
            if i.txEom then
              if i.crci then
                if i.decmd then { f' with state := .done }
                else
                  { f' with flag := true, zbi := true, load := true, data := 0, state := .wait }
              else
                { f' with
                  zbi := !i.decmd
                  load := true
                  txDone := true
                  state := .sendCrcHi
                  data := DupTx.crcHi i.decmd crcReg
                  crcLo := DupTx.crcLo i.decmd crcReg }
            else if f.txDone then { f' with state := .markHold }
            else { f' with zbi := !i.decmd, load := true, txDone := true, data := i.txDat }
          else if f.txDone then { f' with state := .done }
          else { f' with zbi := !i.decmd, load := true, data := i.txDat, state := .wait }
        else f'
    | .sendCrcHi =>
        if empty then
          { f' with zbi := !i.decmd, load := true, data := f.crcLo, state := .sendCrcLo }
        else f'
    | .sendCrcLo =>
        if empty then
          if i.decmd then { f' with state := .done }
          else
            { f' with
              flag := true
              load := true
              data := 0
              state := if i.send then if i.txEom then .sendCrcLo else .payload else .wait }
        else f'
    | .markHold =>
        if empty then
          { f' with
            abrt := true
            load := true
            data := 0
            txDone := true
            state := if !i.send then .wait else .markHold }
        else f'
    | .wait => if empty then { f' with state := .done } else f'
    | .done =>
        if i.rxCen then { f' with txAct := false, txDone := true, state := .idle } else f'

/-- One clock of the state machine. -/
def next (f : Fsm) (empty : Bool) (crcReg : BitVec 16) (i : In) : Fsm :=
  if i.rst then reset
  else if i.init then { reset with txDone := true }
  else f.step empty crcReg i

end Fsm

/-! ## One clock -/

/-- The inputs of the shift register. -/
def usrtIn (s : DupTx) (i : In) : UsrtTx.In where
  rst := i.rst
  clr := i.init
  clken := i.txCen
  abort := s.fsm.abrt
  flag := s.fsm.flag
  data := s.fsm.data
  zbi := s.fsm.zbi
  load := s.fsm.load

def empty (s : DupTx) (i : In) : Bool := s.usrt.empty (s.usrtIn i)

/-- Serial data. -/
def txd (s : DupTx) : Bool := s.usrt.txd

/-- The inputs of the CRC register. -/
def crcIn (s : DupTx) (i : In) : Crc16.In where
  rst := i.rst
  clken := i.rxCen && s.usrt.crcen
  init := s.fsm.crcInit
  decmode := i.decmd
  din := s.txd

/-- The last bit of a character goes out and the program is asked for the next one. -/
def lateCheck (s : DupTx) (i : In) : Bool :=
  (i.rxCen && s.usrt.last && i.send && i.txSom && i.decmd && s.fsm.state == .startSync) ||
    (i.rxCen && s.usrt.last && i.send && !i.txSom && s.fsm.state == .startSync) ||
    (i.rxCen && s.usrt.last && i.send && !i.txEom && s.fsm.state == .payload)

/-- Data late (underrun) error. -/
def nextTxDle (s : DupTx) (i : In) : Bool :=
  if i.rst then false
  else if i.init || (i.txSom && !s.lastTxSom) then false
  else if s.lateCheck i then s.fsm.txDone
  else s.txDle

/-- One clock of DUPTX. -/
def next (s : DupTx) (i : In) : DupTx where
  fsm := s.fsm.next (s.empty i) s.crcReg i
  lastTxSom := if i.rst then false else i.txSom
  txDle := s.nextTxDle i
  usrt := s.usrt.next (s.usrtIn i)
  crcReg := Crc16.next s.crcReg (s.crcIn i)

end DupTx

end KS10
