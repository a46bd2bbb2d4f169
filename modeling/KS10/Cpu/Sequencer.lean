import KS10.Cpu.Microword
import KS10.Clocked.Run
import Mathlib.Logic.Function.Basic

/-!
# The microsequencer

The microsequencer reads the microword that is being executed from the control
ROM register, forms the address of the next one, and keeps the micro-stack.  The
next address is the OR of the jump field, the dispatch address and the skip bit;
a page failure replaces it by the fixed address `0o7777`.

A call pushes the address of the calling microword, not of its successor.  A
return dispatches on the top of the stack, so the returning microword's jump field
supplies the offset that is ORed into the caller's address.

The CROM, STACK, SKIP and DISPATCH modules have no state besides the registers of
`Useq`; their combinational parts are functions of the microword and of the
inputs.
-/

namespace KS10

open Clocked

/-! ## Inputs and registers -/

/-- The inputs of the microsequencer at one clock. -/
structure Useq.In where
  rst : Bool
  clken : Bool
  pageFail : Bool
  dp : BitVec 36
  dispDiag : BitVec 12
  piIntr : Bool
  cpuExec : Bool
  cpuCont : Bool
  ioBusy : Bool
  timerIntr : Bool
  trapCycle : Bool
  scSign : Bool
  aluFlags : BitVec 9
  skipJfcl : Bool
  opJrst0 : Bool
  dispPf : BitVec 4
  dispNi : BitVec 4
  dispByte : BitVec 4
  dispScad : BitVec 4
  regIr : BitVec 18
  pcFlags : BitVec 18
  drom : BitVec 36
  deriving Inhabited

/-- The registers of the microsequencer: the output register of the control ROM
and the registers of the micro-stack. -/
structure Useq where
  crom : Microword
  sp : BitVec 4
  currAddr : MicroAddr
  stack : BitVec 4 → MicroAddr

namespace Useq

open Microword

/-! ## Skip -/

/-- One skip multiplexer.  Its inputs are numbered from 1 and select 0 never skips. -/
def skipMux (en : Bool) (sel : BitVec 3) (skip : BitVec 7) : Bool :=
  en && sel != 0 && bit skip (sel.toNat - 1)

/-- The inputs of a skip multiplexer, the leftmost one first. -/
def skipInputs (b₁ b₂ b₃ b₄ b₅ b₆ b₇ : Bool) : BitVec 7 :=
  BitVec.ofBoolListBE [b₁, b₂, b₃, b₄, b₅, b₆, b₇]

def aluZero (i : In) : Bool := bit i.aluFlags 1 && bit i.aluFlags 2

/-- Test instruction results. -/
def txxx (i : In) : Bool := aluZero i != bit i.drom 9

def skip40 (i : In) : BitVec 7 :=
  skipInputs (bit i.aluFlags 6) (bit i.aluFlags 1) (bit i.aluFlags 2) (!bit i.pcFlags 5)
    (bit i.pcFlags 4) (field i.regIr 9 12 == 0) i.piIntr

def skip20 (i : In) : BitVec 7 :=
  skipInputs (bit i.aluFlags 8) (bit i.aluFlags 3) (bit i.aluFlags 4) (bit i.pcFlags 6)
    i.skipJfcl (bit i.aluFlags 7) (txxx i)

def skip10 (i : In) : BitVec 7 :=
  skipInputs i.trapCycle (aluZero i) i.scSign i.cpuExec (!i.ioBusy) (!i.cpuCont) (!i.timerIntr)

def skipAddr (crom : Microword) (i : In) : MicroAddr :=
  if skipMux (cromSkipEn40 crom) (cromSkipSel crom) (skip40 i)
      || skipMux (cromSkipEn20 crom) (cromSkipSel crom) (skip20 i)
      || skipMux (cromSkipEn10 crom) (cromSkipSel crom) (skip10 i) then 0o0001
  else 0o0000

/-! ## Dispatch -/

def dispMul (i : In) : BitVec 4 := BitVec.ofBoolListBE [false, bit i.aluFlags 0, false, false]

def dispEa (i : In) : BitVec 4 :=
  BitVec.ofBoolListBE [!i.opJrst0, bit i.regIr 13, field i.regIr 14 17 == 0, false]

def dispNorm (i : In) : BitVec 4 :=
  BitVec.ofBoolListBE [aluZero i, bit i.dp 8, bit i.dp 9, bit i.aluFlags 3]

def dromA (i : In) : BitVec 4 := field i.drom 2 5
def dromB (i : In) : BitVec 4 := field i.drom 8 11
def dromJ (i : In) : BitVec 12 := field i.drom 12 23
def dromAcDisp (i : In) : Bool := bit i.drom 24
def dromAeqJ (i : In) : Bool := bit i.drom 25

/-- Jump dispatch, in the range `0o1400` to `0o1777`. -/
def dispJ (i : In) : BitVec 12 :=
  if dromAcDisp i then field (dromJ i) 0 7 ++ field i.regIr 9 12
  else dromJ i

/-- AREAD dispatch, on the operand fetch mode unless the dispatch ROM asks for the
jump field. -/
def dispAread (i : In) : BitVec 12 :=
  if dromAeqJ i then dispJ i else 0b00000010#8 ++ dromA i

/-- The upper eight bits of the dispatch address. -/
def dispHigh (crom : Microword) (dispRet : MicroAddr) (i : In) : BitVec 8 :=
  if cromDispEn20 crom then
    match cromDispSelh crom with
    | 0b00#2 => field i.dispDiag 0 7
    | 0b01#2 => field dispRet 0 7
    | 0b10#2 => field (dispJ i) 0 7
    | 0b11#2 => field (dispAread i) 0 7
  else 0

/-- The lower four bits of the dispatch address as selected by the 10 enable. -/
def dispLow10 (crom : Microword) (dispRet : MicroAddr) (i : In) : BitVec 4 :=
  if cromDispEn10 crom then
    match cromDispSel crom with
    | 0b000#3 => field i.dispDiag 8 11
    | 0b001#3 => field dispRet 8 11
    | 0b010#3 => dispMul i
    | 0b011#3 => i.dispPf
    | 0b100#3 => i.dispNi
    | 0b101#3 => i.dispByte
    | 0b110#3 => dispEa i
    | 0b111#3 => i.dispScad
  else 0

/-- The lower four bits of the dispatch address.  The 40 enable is decoded last and
overrides the 10 enable. -/
def dispLow (crom : Microword) (dispRet : MicroAddr) (i : In) : BitVec 4 :=
  if cromDispEn40 crom then
    match cromDispSel crom with
    | 0b000#3 => 0
    | 0b001#3 => field i.dp 18 21
    | 0b010#3 => field (dispJ i) 8 11
    | 0b011#3 => field (dispAread i) 8 11
    | 0b100#3 => dispNorm i
    | 0b101#3 => field i.dp 32 35
    | 0b110#3 => dromA i
    | 0b111#3 => dromB i
  else dispLow10 crom dispRet i

def dispAddr (crom : Microword) (dispRet : MicroAddr) (i : In) : MicroAddr :=
  dispHigh crom dispRet i ++ dispLow crom dispRet i

/-! ## The next address -/

/-- The address of the next microword, from the microword being executed and the
return address. -/
def nextAddr (crom : Microword) (dispRet : MicroAddr) (i : In) : MicroAddr :=
  if i.rst then 0o0000
  else if i.pageFail then 0o7777
  else dispAddr crom dispRet i ||| skipAddr crom i ||| cromJ crom

/-- The address is pushed during a call and when a page failure occurs. -/
def call (crom : Microword) (i : In) : Bool := cromCall crom || i.pageFail

/-- A return dispatch is decoded as `x0xx01`. -/
def ret (crom : Microword) : Bool :=
  cromDisp crom == 0o01 || cromDisp crom == 0o05 || cromDisp crom == 0o11
    || cromDisp crom == 0o15 || cromDisp crom == 0o41 || cromDisp crom == 0o45
    || cromDisp crom == 0o51 || cromDisp crom == 0o55

/-- The return address: the stack read is asynchronous from the stack pointer. -/
def dispRet (s : Useq) : MicroAddr := s.stack s.sp

def addr (s : Useq) (i : In) : MicroAddr := nextAddr s.crom s.dispRet i

/-! ## One clock -/

/-- The write pointer is always offset from the stack pointer by 1. -/
def wp (s : Useq) : BitVec 4 := s.sp + 1

def nextSp (s : Useq) (i : In) : BitVec 4 :=
  if i.rst then 15
  else if i.clken then
    if call s.crom i then s.sp + 1
    else if ret s.crom then s.sp - 1
    else s.sp
  else s.sp

def nextCurrAddr (s : Useq) (i : In) : MicroAddr :=
  if i.rst then 0
  else if i.clken then s.addr i
  else s.currAddr

def nextStack (s : Useq) (i : In) : BitVec 4 → MicroAddr :=
  if i.clken && call s.crom i then Function.update s.stack s.wp s.currAddr else s.stack

/-- One clock of the microsequencer over the microcode `rom`. -/
def next (rom : MicroAddr → Microword) (s : Useq) (i : In) : Useq where
  crom := if i.clken then rom (s.addr i) else s.crom
  sp := s.nextSp i
  currAddr := s.nextCurrAddr i
  stack := s.nextStack i

end Useq

end KS10
