import KS10.Clocked.Field

/-!
# Fields of the microword and of the dispatch ROM word

A microword is 108 bits wide.  Its fields are named as the control ROM names them;
the number field is shared by several of them, and the memory cycle control fields
are meaningful only while `cromMemCycle` is set.
-/

namespace KS10

open Clocked

abbrev MicroAddr := BitVec 12

abbrev Microword := BitVec 108

/-! ## Fields of the microword -/

namespace Microword

def cromJ (crom : Microword) : MicroAddr := field crom 0 11
def cromDisp (crom : Microword) : BitVec 6 := field crom 57 62
/-- The dispatch enables are active low in the microword. -/
def cromDispEn40 (crom : Microword) : Bool := !bit crom 57
def cromDispEn20 (crom : Microword) : Bool := !bit crom 58
def cromDispEn10 (crom : Microword) : Bool := !bit crom 59
def cromDispSelh (crom : Microword) : BitVec 2 := field crom 61 62
def cromDispSel (crom : Microword) : BitVec 3 := field crom 60 62
def cromSkip (crom : Microword) : BitVec 6 := field crom 63 68
/-- The skip enables are active low in the microword. -/
def cromSkipEn40 (crom : Microword) : Bool := !bit crom 63
def cromSkipEn20 (crom : Microword) : Bool := !bit crom 64
def cromSkipEn10 (crom : Microword) : Bool := !bit crom 65
def cromSkipSel (crom : Microword) : BitVec 3 := field crom 66 68
def cromCall (crom : Microword) : Bool := bit crom 80

/-- The function of the ALU, before the multiprecision and divide steps change it. -/
def cromFun (crom : Microword) : BitVec 3 := field crom 12 14
def cromLSrc (crom : Microword) : BitVec 3 := field crom 15 17
def cromRSrc (crom : Microword) : BitVec 3 := field crom 18 20
def cromDst (crom : Microword) : BitVec 3 := field crom 21 23
def cromAluA (crom : Microword) : BitVec 4 := field crom 26 29
def cromAluB (crom : Microword) : BitVec 4 := field crom 32 35
def cromLClken (crom : Microword) : Bool := bit crom 45
def cromRClken (crom : Microword) : Bool := bit crom 48
/-- Insert a carry into the lowest bit of the ALU. -/
def cromCry38 (crom : Microword) : Bool := bit crom 72
def cromDivide (crom : Microword) : Bool := bit crom 77
def cromMultiPrec (crom : Microword) : Bool := bit crom 78

/-- The selector of the RAMFILE address. -/
def cromRamAddrSel (crom : Microword) : BitVec 3 := field crom 36 38
def cromDbusSel (crom : Microword) : BitVec 2 := field crom 40 41
def cromDbmSel (crom : Microword) : BitVec 3 := field crom 42 44
def cromFmWrite (crom : Microword) : Bool := bit crom 75
/-- The number field as the adder of the AC address. -/
def cromAcAluFun (crom : Microword) : BitVec 6 := field crom 98 103
def cromAcAluNum (crom : Microword) : BitVec 4 := field crom 104 107
def cromSNum (crom : Microword) : BitVec 10 := field crom 98 107

/-- The step counter is loaded from the SCAD. -/
def cromLoadSc (crom : Microword) : Bool := bit crom 73
/-- The floating-point exponent is loaded from the SCAD. -/
def cromLoadFe (crom : Microword) : Bool := bit crom 74
/-- Repeat the microword until the exponent is no longer negative. -/
def cromMultiShift (crom : Microword) : Bool := bit crom 79
def cromScadFun (crom : Microword) : BitVec 3 := field crom 90 92
def cromScadASel (crom : Microword) : BitVec 3 := field crom 93 95
def cromScadBSel (crom : Microword) : BitVec 2 := field crom 96 97

def cromSpecEn40 (crom : Microword) : Bool := bit crom 51
def cromSpecEn20 (crom : Microword) : Bool := bit crom 52
def cromSpecEn10 (crom : Microword) : Bool := bit crom 53
def cromSpecSel (crom : Microword) : BitVec 3 := field crom 54 56

/-- Start or complete a memory or IO cycle using the number field. -/
def cromMemCycle (crom : Microword) : Bool := bit crom 76
def cromMemForceUser (crom : Microword) : Bool := bit crom 90
def cromMemForceExec (crom : Microword) : Bool := bit crom 91
def cromMemFetchCycle (crom : Microword) : Bool := bit crom 92
def cromMemReadCycle (crom : Microword) : Bool := bit crom 93
def cromMemWrTestCycle (crom : Microword) : Bool := bit crom 94
def cromMemWriteCycle (crom : Microword) : Bool := bit crom 95
def cromMemCacheInh (crom : Microword) : Bool := bit crom 97
def cromMemPhysical (crom : Microword) : Bool := bit crom 98
/-- Let the dispatch ROM select the cycle type and the VMA load. -/
def cromMemAread (crom : Microword) : Bool := bit crom 102
/-- Take the cycle type from the datapath instead of the number field. -/
def cromMemDpFunc (crom : Microword) : Bool := bit crom 103
def cromMemLoadVma (crom : Microword) : Bool := bit crom 104
def cromMemExtAddr (crom : Microword) : Bool := bit crom 105
def cromMemWait (crom : Microword) : Bool := bit crom 106
/-- Start a memory cycle if the dispatch ROM asks for it. -/
def cromMemBwrite (crom : Microword) : Bool := bit crom 107

/-- The special function number as the style of a shift. -/
def cromSpecShStyle (crom : Microword) : BitVec 3 := field crom 54 56

/-- The special function number `sel` of the group enabled by the 10 bit. -/
def spec10 (crom : Microword) (sel : BitVec 3) : Bool :=
  cromSpecEn10 crom && cromSpecSel crom == sel

/-- The special function number `sel` of the group enabled by the 20 bit. -/
def spec20 (crom : Microword) (sel : BitVec 3) : Bool :=
  cromSpecEn20 crom && cromSpecSel crom == sel

/-- The special function number `sel` of the group enabled by the 40 bit. -/
def spec40 (crom : Microword) (sel : BitVec 3) : Bool :=
  cromSpecEn40 crom && cromSpecSel crom == sel

/-- The number field as the update of the PC flags. -/
def cromSetOv (crom : Microword) : Bool := bit crom 90
def cromSetFov (crom : Microword) : Bool := bit crom 91
def cromSetNoDiv (crom : Microword) : Bool := bit crom 92
def cromClrFpd (crom : Microword) : Bool := bit crom 93
def cromSetFpd (crom : Microword) : Bool := bit crom 94
def cromHoldUser (crom : Microword) : Bool := bit crom 95
def cromSetTrap2 (crom : Microword) : Bool := bit crom 97
def cromSetTrap1 (crom : Microword) : Bool := bit crom 98
def cromSetPcu (crom : Microword) : Bool := bit crom 99
def cromJfclFlags (crom : Microword) : Bool := bit crom 104
def cromLdFlags (crom : Microword) : Bool := bit crom 105
def cromAdFlags (crom : Microword) : Bool := bit crom 107

end Microword

/-! ## Fields of the dispatch ROM word -/

abbrev DromWord := BitVec 36

namespace DromWord

def dromReadCycle (drom : DromWord) : Bool := bit drom 26
def dromWrTestCycle (drom : DromWord) : Bool := bit drom 27
def dromCondFunc (drom : DromWord) : Bool := bit drom 28
def dromVma (drom : DromWord) : Bool := bit drom 29
def dromWriteCycle (drom : DromWord) : Bool := bit drom 30

end DromWord

end KS10
