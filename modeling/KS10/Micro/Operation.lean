import KS10.Cpu.Alu
import Mathlib.Tactic.MkIffOfInductiveProp

/-!
# ALU operations

Most microwords do not inject the flags of the last microword into the ALU.  Such a microword is
an operation (`Alu.Op`): a function of two operands, which the two halves of the ALU may take from
different places, and where the result goes.
-/

namespace KS10

open Clocked Microword

/-- What a microword asks of the whole ALU.  A half without its clock enable is held. -/
structure Alu.Op where
  func : BitVec 3
  cry38 : Bool := false
  src : BitVec 3
  /-- The operands of the right half. -/
  rsrc : BitVec 3 := src
  a : BitVec 4 := 0
  b : BitVec 4 := 0
  dest : BitVec 3
  style : ShStyle := .norm
  lclken : Bool := true
  rclken : Bool := true
  deriving DecidableEq

namespace Alu

def opOf (crom : Microword) : Op where
  func := cromFun crom
  cry38 := cromCry38 crom
  src := cromLSrc crom
  rsrc := cromRSrc crom
  a := cromAluA crom
  b := cromAluB crom
  dest := dest crom
  style := shstyle crom
  lclken := cromLClken crom
  rclken := cromRClken crom

/-- The flags of the last microword are not injected. -/
@[mk_iff]
structure Whole (crom : Microword) : Prop where
  inh : specCRY18INH crom = false
  single : cromMultiPrec crom = false
  divide : cromDivide crom = false

instance (crom : Microword) : Decidable (Whole crom) := decidable_of_iff' _ (whole_iff crom)

namespace Op

variable (o : Op) (s : Alu) (d : BitVec 36)

def operandR (src : BitVec 3) : BitVec 40 :=
  match src with
  | 0b000#3 | 0b001#3 => s.aluRAM o.a
  | 0b010#3 | 0b011#3 | 0b100#3 => 0
  | 0b101#3 | 0b110#3 | 0b111#3 => dd d

def operandS (src : BitVec 3) : BitVec 40 :=
  match src with
  | 0b000#3 | 0b010#3 | 0b110#3 => s.q
  | 0b001#3 | 0b011#3 => s.aluRAM o.b
  | 0b100#3 | 0b101#3 => s.aluRAM o.a
  | 0b111#3 => 0

/-- What the halves take. -/
def both (operand : BitVec 3 → BitVec 40) : BitVec 40 :=
  if o.rsrc == o.src then operand o.src
  else field (operand o.src) 0 19 ++ field (operand o.rsrc) 20 39

def r : BitVec 40 := o.both (o.operandR s d)

def s_ : BitVec 40 := o.both (o.operandS s)

def out : Out := alu o.func false o.cry38 (o.r s d) (o.s_ s)

def f : BitVec 40 := (o.out s d).f

def write : Bool :=
  o.dest == dstRAMA || o.dest == dstRAMF || o.dest == dstRAMQD || o.dest == dstRAMQU ||
    o.dest == dstRAMD || o.dest == dstRAMU

def bdi : BitVec 40 := shiftF o.dest o.style false (o.f s d) s.q

/-- The operation reads the bus. -/
def readsBus : Bool := [o.src, o.rsrc].any fun src => src == 0b101 || src == 0b110 || src == 0b111

/-- What a register becomes. -/
def load (new old : BitVec 40) : BitVec 40 :=
  if o.lclken && o.rclken then new else halves o.lclken o.rclken new old

/-- The registers after the operation. -/
def next : Alu where
  aluRAM :=
    if o.write then Function.update s.aluRAM o.b (o.load (o.bdi s d) (s.aluRAM o.b)) else s.aluRAM
  q := o.load (shiftQ o.dest o.style false (o.f s d) s.q) s.q
  flagFL02 := bit (o.bdi s d) 3
  flagQR37 := bit s.q 39
  flagCARRY02 := (o.out s d).aluCRY2
  flagFUNCT02 := bit o.func 2
  flagCARRYOUT := (o.out s d).aluCRY0

def aluOUT : BitVec 36 :=
  if o.dest == dstRAMA then field (s.aluRAM o.a) 2 37 else field (o.f s d) 2 37

/-- An operation that does not read the bus does not depend on it. -/
theorem out_congr (h : o.readsBus = false) (d d' : BitVec 36) : o.out s d = o.out s d' := by
  have hsrc (src : BitVec 3) (hmem : src ∈ [o.src, o.rsrc]) :
      o.operandR s d src = o.operandR s d' src := by
    have hcases : ∀ x : BitVec 3, (x == 0b101 || x == 0b110 || x == 0b111) = false →
        x = 0b000 ∨ x = 0b001 ∨ x = 0b010 ∨ x = 0b011 ∨ x = 0b100 := by decide
    have hquiet := Bool.eq_false_iff.mpr (List.any_eq_false.mp h src hmem)
    rcases hcases src hquiet with rfl | rfl | rfl | rfl | rfl
    all_goals rfl
  have hr : o.r s d = o.r s d' := by
    rw [r, r, both, both, hsrc o.src (by simp), hsrc o.rsrc (by simp)]
  rw [out, out, hr]

/-- The next registers depend on the bus through the result only. -/
theorem next_congr {d d' : BitVec 36} (h : o.out s d = o.out s d') : o.next s d = o.next s d' := by
  have hf : o.f s d = o.f s d' := congrArg Out.f h
  rw [next, next, bdi, bdi, hf, h]

theorem aluOUT_congr {d d' : BitVec 36} (h : o.out s d = o.out s d') :
    o.aluOUT s d = o.aluOUT s d' := by
  have hf : o.f s d = o.f s d' := congrArg Out.f h
  rw [aluOUT, aluOUT, hf]

end Op

variable {s : Alu} {crom : Microword} {d : BitVec 36}

namespace Whole

theorem funct_02 (h : Whole crom) : s.funct_02 crom = bit (cromFun crom) 2 := by
  rw [Alu.funct_02, h.single, h.divide]
  rfl

theorem func (h : Whole crom) : s.func crom = cromFun crom := by
  have hfun : ∀ x : BitVec 3, field x 0 1 ++ BitVec.ofBool (bit x 2) = x := by decide
  rw [Alu.func, h.funct_02]
  exact hfun (cromFun crom)

theorem carry_in (h : Whole crom) : s.carry_in crom = cromCry38 crom := by
  rw [Alu.carry_in, h.single, h.divide]
  rfl

theorem multi_shift (h : Whole crom) : s.multi_shift crom = false := by
  rw [Alu.multi_shift, h.single, Bool.false_and]

theorem divide_shift (h : Whole crom) : s.divide_shift crom = false := by
  rw [Alu.divide_shift, h.divide, Bool.and_false, Bool.false_and]

theorem out (h : Whole crom) : s.out crom d = (opOf crom).out s d := by
  have hboth (operand : BitVec 3 → BitVec 40) :
      field (operand (cromLSrc crom)) 0 19 ++ field (operand (cromRSrc crom)) 20 39 =
        (opOf crom).both operand := by
    have hsrc : (opOf crom).rsrc = cromRSrc crom ∧ (opOf crom).src = cromLSrc crom := ⟨rfl, rfl⟩
    rw [Op.both, hsrc.1, hsrc.2]
    split
    · rename_i hsame
      rw [beq_iff_eq.mp hsame]
      exact field_append (a := 19) (b := 19) _
    · rfl
  have hr : s.r crom d = (opOf crom).r s d := hboth _
  have hs : s.s_ crom = (opOf crom).s_ s := hboth _
  rw [Alu.out, h.inh, h.func, h.carry_in, hr, hs]
  rfl

/-- Such a microword is its operation. -/
theorem next (h : Whole crom) : s.next crom d = (opOf crom).next s d := by
  have hf : s.f crom d = (opOf crom).f s d := by rw [f, Op.f, h.out]
  have hbdi : s.bdi crom d = (opOf crom).bdi s d := by
    rw [bdi, h.multi_shift, hf]
    rfl
  have hqi : s.qi crom d = shiftQ (opOf crom).dest (opOf crom).style false
      ((opOf crom).f s d) s.q := by
    rw [qi, h.divide_shift, hf]
    rfl
  have hload (new old : BitVec 40) :
      halves (cromLClken crom) (cromRClken crom) new old = (opOf crom).load new old := by
    rw [Op.load]
    split
    · rename_i hboth
      rw [Bool.and_eq_true] at hboth
      have hl : cromLClken crom = true := hboth.1
      have hr : cromRClken crom = true := hboth.2
      rw [hl, hr, halves_both]
    · rfl
  unfold Alu.next
  rw [hbdi, hqi, hload, hload, h.out, h.funct_02]
  rfl

theorem aluOUT (h : Whole crom) : s.aluOUT crom d = (opOf crom).aluOUT s d := by
  rw [Alu.aluOUT, f, h.out]
  rfl

end Whole

end Alu

end KS10
