import KS10.Clocked.Adder
import KS10.Clocked.Run
import KS10.Cpu.Microword
import Mathlib.Logic.Function.Basic

/-!
# The arithmetic logic unit

The ALU has sixteen registers and the register `Q`.  They are 40 bits wide: two copies of the
sign stand above a word, and two bits below it.  Bit `0` of the source's numbering is bit -2
of the machine's.

The functions of this module are the combinational parts of module ALU.  They depend on the
registers, on the microword and on the bus.
-/

namespace KS10

open Clocked

/-- The registers of the ALU.  The flags keep what a microword leaves for the next one. -/
structure Alu where
  aluRAM : BitVec 4 → BitVec 40
  q : BitVec 40
  flagFL02 : Bool
  flagQR37 : Bool
  flagCARRY02 : Bool
  flagFUNCT02 : Bool
  flagCARRYOUT : Bool

/-- The styles of a shift. -/
inductive ShStyle where
  | norm | zero | ones | rot | ashc | lshc | div | rotc
  deriving DecidableEq

/-- What the adder gives: the carries out with and without the rest of the word, the sum, and
the sum of its four top bits alone. -/
structure Alu.Out where
  co : Bool
  go : Bool
  f : BitVec 40
  g : BitVec 4

namespace Alu

open Microword

/-! ## The microword -/

def shstyle (crom : Microword) : ShStyle :=
  match cromSpecShStyle crom with
  | 0b000#3 => .norm
  | 0b001#3 => .zero
  | 0b010#3 => .ones
  | 0b011#3 => .rot
  | 0b100#3 => .ashc
  | 0b101#3 => .lshc
  | 0b110#3 => .div
  | 0b111#3 => .rotc

/-- The destination.  Its middle bit is inverted in the microword. -/
def dest (crom : Microword) : BitVec 3 := cromDst crom ^^^ 0b010

def dstRAMA : BitVec 3 := 0b010
def dstRAMF : BitVec 3 := 0b011
def dstRAMQD : BitVec 3 := 0b100
def dstRAMD : BitVec 3 := 0b101
def dstRAMQU : BitVec 3 := 0b110
def dstRAMU : BitVec 3 := 0b111
def dstQREG : BitVec 3 := 0b000

def write (crom : Microword) : Bool :=
  dest crom == dstRAMA || dest crom == dstRAMF || dest crom == dstRAMQD ||
    dest crom == dstRAMQU || dest crom == dstRAMD || dest crom == dstRAMU

/-- Inhibit the carry into the left half. -/
def specCRY18INH (crom : Microword) : Bool := spec40 crom 0b000

variable (s : Alu) (crom : Microword) (aluIN : BitVec 36)

/-! ## What the flags inject -/

def multi_shift : Bool := cromMultiPrec crom && s.flagFL02

def divide_shift : Bool := !cromMultiPrec crom && cromDivide crom && s.flagCARRYOUT

def carry_in : Bool :=
  if cromMultiPrec crom then s.flagCARRY02 || cromCry38 crom
  else if cromDivide crom then s.flagCARRYOUT || cromCry38 crom
  else cromCry38 crom

/-- The last bit of the function, which tells a subtraction from an addition. -/
def funct_02 : Bool :=
  if cromMultiPrec crom then s.flagFUNCT02 || bit (cromFun crom) 2
  else if cromDivide crom then s.flagCARRYOUT || bit (cromFun crom) 2
  else bit (cromFun crom) 2

def func : BitVec 3 := field (cromFun crom) 0 1 ++ BitVec.ofBool (s.funct_02 crom)

/-! ## The operands -/

/-- A word on the data path: the sign twice above it, and two zeros below it. -/
def dd (word : BitVec 36) : BitVec 40 := field word 0 0 ++ field word 0 0 ++ word ++ 0b00#2

def ad : BitVec 40 := s.aluRAM (cromAluA crom)
def bd : BitVec 40 := s.aluRAM (cromAluB crom)

/-- The first operand of a source. -/
def srcR (src : BitVec 3) : BitVec 40 :=
  match src with
  | 0b000#3 | 0b001#3 => s.ad crom
  | 0b010#3 | 0b011#3 | 0b100#3 => 0
  | 0b101#3 | 0b110#3 | 0b111#3 => dd aluIN

/-- The second operand of a source. -/
def srcS (src : BitVec 3) : BitVec 40 :=
  match src with
  | 0b000#3 | 0b010#3 | 0b110#3 => s.q
  | 0b001#3 | 0b011#3 => s.bd crom
  | 0b100#3 | 0b101#3 => s.ad crom
  | 0b111#3 => 0

/-- The halves have sources of their own. -/
def r : BitVec 40 :=
  field (s.srcR crom aluIN (cromLSrc crom)) 0 19 ++ field (s.srcR crom aluIN (cromRSrc crom)) 20 39

def s_ : BitVec 40 :=
  field (s.srcS crom (cromLSrc crom)) 0 19 ++ field (s.srcS crom (cromRSrc crom)) 20 39

/-! ## The function -/

/-- The sum of two operands.  The left half takes no carry when it is inhibited. -/
def add (inh ci : Bool) (r s : BitVec 40) : Out :=
  let top := sum (field r 0 3) (field s 0 3) false
  if inh then
    let right := sum (field r 20 39) (field s 20 39) ci
    let left := sum (field r 0 19) (field s 0 19) false
    { co := left.msb, go := top.msb, f := left.setWidth 20 ++ right.setWidth 20,
      g := top.setWidth 4 }
  else
    let whole := sum r s ci
    { co := whole.msb, go := top.msb, f := whole.setWidth 40, g := top.setWidth 4 }

/-- A function without a carry. -/
def logic (f : BitVec 40) : Out := { co := false, go := false, f := f, g := 0 }

def alu (func : BitVec 3) (inh ci : Bool) (r s : BitVec 40) : Out :=
  match func with
  | 0b000#3 => add inh ci r s
  | 0b001#3 => add inh ci (~~~r) s
  | 0b010#3 => add inh ci r (~~~s)
  | 0b011#3 => logic (r ||| s)
  | 0b100#3 => logic (r &&& s)
  | 0b101#3 => logic (~~~r &&& s)
  | 0b110#3 => logic (r ^^^ s)
  | 0b111#3 => logic (~~~(r ^^^ s))

def out : Out :=
  alu (s.func crom) (specCRY18INH crom) (s.carry_in crom) (s.r crom aluIN) (s.s_ crom)

def f : BitVec 40 := (s.out crom aluIN).f

/-! ## The flags -/

namespace Out

variable (o : Out)

def aluLSIGN : Bool := bit o.f 0
def aluRSIGN : Bool := bit o.f 20
def aluLZERO : Bool := field o.f 0 19 == 0
def aluRZERO : Bool := field o.f 20 39 == 0
def aluAOV : Bool := o.aluLSIGN != bit o.f 2
def aluCRY0 : Bool := o.co
def aluCRY1 : Bool := o.aluAOV != o.aluCRY0
def aluCRY2 : Bool := o.go != o.co || field o.f 0 3 != o.g

end Out

def aluFLAGS : BitVec 9 :=
  let o := s.out crom aluIN
  BitVec.ofBoolListBE
    [s.flagQR37, o.aluLZERO, o.aluRZERO, o.aluLSIGN, o.aluRSIGN, o.aluAOV, o.aluCRY0, o.aluCRY1,
      o.aluCRY2]

def aluOUT : BitVec 36 :=
  if dest crom == dstRAMA then field (s.ad crom) 2 37 else field (s.f crom aluIN) 2 37

/-! ## The shifters -/

/-- Shift to the left, with `b₃` into bit 3 and `b₃₉` into bit 39. -/
def up (x : BitVec 40) (b₃ b₃₉ : Bool) : BitVec 40 :=
  field x 1 3 ++ BitVec.ofBool b₃ ++ field x 5 39 ++ BitVec.ofBool b₃₉

/-- Shift to the right, with `b₀` into bit 0 and `b₄` into bit 4. -/
def down (x : BitVec 40) (b₀ b₄ : Bool) : BitVec 40 :=
  BitVec.ofBool b₀ ++ field x 0 2 ++ BitVec.ofBool b₄ ++ field x 4 38

/-- What the shifters of the registers make of the sum and of `Q`. -/
def shiftF (dest : BitVec 3) (style : ShStyle) (multi_shift : Bool) (f q : BitVec 40) :
    BitVec 40 :=
  if dest == dstRAMQU || dest == dstRAMU then
    match style with
    | .norm => up f (bit f 4) multi_shift
    | .zero => up f (bit f 0) false
    | .ones => up f (bit f 0) true
    | .rot => up f (bit f 0) (bit f 4)
    | .ashc => up f (bit f 0) (bit q 4)
    | .lshc => up f (bit f 4) (bit q 4)
    | .div => up f (bit f 4) (bit q 4)
    | .rotc => up f (bit f 0) (bit q 4)
  else if dest == dstRAMQD || dest == dstRAMD then
    match style with
    | .norm => down f (bit f 0) (bit f 3)
    | .zero => down f (bit f 0) false
    | .ones => down f (bit f 0) true
    | .rot => down f (bit f 0) (bit f 39)
    | .ashc => down f (bit f 0) (bit f 3)
    | .lshc => down f (bit f 0) false
    | .div => down f (bit f 0) true
    | .rotc => down f (bit f 0) (bit q 39)
  else f

/-- What the shifter of `Q` makes of them. -/
def shiftQ (dest : BitVec 3) (style : ShStyle) (divide_shift : Bool) (f q : BitVec 40) :
    BitVec 40 :=
  if dest == dstRAMQU then
    match style with
    | .norm => up q (bit q 4) false
    | .zero => up q (bit q 4) false
    | .ones => up q (bit q 4) true
    | .rot => up q (bit q 4) (bit q 4)
    | .ashc => up q (bit q 4) false
    | .lshc => up q (bit q 4) false
    | .div => up q (bit q 4) divide_shift
    | .rotc => up q (bit q 4) (bit f 4)
  else if dest == dstRAMQD then
    match style with
    | .norm => down q false (bit q 3)
    | .zero => down q false false
    | .ones => down q false true
    | .rot => down q false (bit q 39)
    | .ashc => down q false (bit f 39)
    | .lshc => down q false (bit f 39)
    | .div => down q false (bit f 39)
    | .rotc => down q false (bit f 39)
  else if dest == dstQREG then f
  else q

/-- What is written into a register. -/
def bdi : BitVec 40 :=
  shiftF (dest crom) (shstyle crom) (s.multi_shift crom) (s.f crom aluIN) s.q

/-- What `Q` takes. -/
def qi : BitVec 40 :=
  shiftQ (dest crom) (shstyle crom) (s.divide_shift crom) (s.f crom aluIN) s.q

/-! ## One clock -/

/-- The halves of a register have clock enables of their own. -/
def halves (lclken rclken : Bool) (new old : BitVec 40) : BitVec 40 :=
  (if lclken then field new 0 19 else field old 0 19) ++
    (if rclken then field new 20 39 else field old 20 39)

/-- One enabled clock. -/
def next : Alu where
  aluRAM :=
    if write crom then
      Function.update s.aluRAM (cromAluB crom)
        (halves (cromLClken crom) (cromRClken crom) (s.bdi crom aluIN) (s.bd crom))
    else s.aluRAM
  q := halves (cromLClken crom) (cromRClken crom) (s.qi crom aluIN) s.q
  flagFL02 := bit (s.bdi crom aluIN) 3
  flagQR37 := bit s.q 39
  flagCARRY02 := (s.out crom aluIN).aluCRY2
  flagFUNCT02 := s.funct_02 crom
  flagCARRYOUT := (s.out crom aluIN).aluCRY0

/-- The ALU after `n` microwords, each with the word on the bus. -/
def after (s : Alu) (i : Nat → Microword × BitVec 36) (n : Nat) : Alu :=
  run (fun s (i : Microword × BitVec 36) => s.next i.1 i.2) s i n

theorem halves_both (new old : BitVec 40) : halves true true new old = new :=
  field_append (a := 19) (b := 19) new

end Alu

end KS10
