import KS10.Micro.Numbers
import KS10.Micro.Straight

/-!
# Common lines

Lines that stand in many places of the microcode: a register is copied, loaded from an
accumulator or tested.
-/

namespace KS10

open Clocked

namespace Micro

/-- Copy a register. -/
def copyLine (a b : BitVec 4) (j : MicroAddr) : Line where
  op := { func := 0b011, src := 0b100, a := a, b := b, dest := Alu.dstRAMF }
  j := j

/-- Negate a register into another. -/
def negateLine (a b : BitVec 4) (j : MicroAddr) (test : Test) : Line where
  op := { func := 0b010, cry38 := true, src := 0b100, a := a, b := b, dest := Alu.dstRAMF }
  j := j
  test := test

/-- Load a register from an accumulator. -/
def acLine (n b : BitVec 4) (j : MicroAddr) : Line where
  op := { func := 0b011, src := 0b111, b := b, dest := Alu.dstRAMF }
  bus := .ac n
  j := j

/-- Load `Q` from an accumulator. -/
def acToQ (n : BitVec 4) (j : MicroAddr) (test : Test) : Line where
  op := { func := 0b011, src := 0b111, dest := Alu.dstQREG }
  bus := .ac n
  j := j
  test := test

/-- Copy `Q` into a register. -/
def fromQ (b : BitVec 4) (j : MicroAddr) : Line where
  op := { func := 0b011, src := 0b010, b := b, dest := Alu.dstRAMF }
  j := j

/-- Clear a register. -/
def clearLine (b : BitVec 4) (j : MicroAddr) : Line where
  op := { func := 0b100, src := 0b010, b := b, dest := Alu.dstRAMF }
  j := j

/-- Test a register. -/
def testLine (b : BitVec 4) (test : Test) (j : MicroAddr) : Line where
  op := { func := 0b011, src := 0b011, b := b, dest := 0b001 }
  j := j
  test := test

/-- Complement a register. -/
def complementLine (r : BitVec 4) (j : MicroAddr) : Line where
  op := { func := 0b111, src := 0b100, a := r, b := r, dest := Alu.dstRAMF }
  j := j

/-- Shift a register to the right, into another. -/
def halfLine (a b : BitVec 4) (j : MicroAddr) : Line where
  op := { func := 0b011, src := 0b100, a := a, b := b, dest := Alu.dstRAMD }
  j := j

/-- Shift a register and `Q` to the right, and perhaps call. -/
def halfLong (r : BitVec 4) (j : MicroAddr) (call : Bool) : Line where
  op := { func := 0b011, src := 0b100, a := r, b := r, dest := Alu.dstRAMQD }
  j := j
  call := call

/-- Shift a register and `Q` to the left. -/
def doubleLong (r : BitVec 4) (j : MicroAddr) : Line where
  op := { func := 0b011, src := 0b100, a := r, b := r, dest := Alu.dstRAMQU }
  j := j

/-- Shift a register to the left, into another. -/
def doubleLine (a b : BitVec 4) (j : MicroAddr) : Line where
  op := { func := 0b011, src := 0b100, a := a, b := b, dest := Alu.dstRAMU }
  j := j

/-- The instruction is over, with the flags of a division that cannot be done. -/
def noDivideLine : Line where
  op := { func := 0b100, src := 0b100, dest := 0b001, style := .div }
  j := 0o0555
  effect := .noDivide

variable {e : Env} {p : Point} {a b n : BitVec 4} {j j' : MicroAddr}

theorem exec_copyLine : p.exec e (copyLine a b j) =
    { p with pc := j, ram := Function.update p.ram b (p.ram a) } := by
  have hf : 0#40 ||| p.ram a = p.ram a := BitVec.zero_or
  refine Point.ext (Point.exec_pc_on rfl rfl) rfl ?_ rfl rfl rfl
  exact congrArg (Function.update p.ram b ·) hf

theorem exec_negateLine : p.exec e (negateLine a b j .never) =
    { p with pc := j, ram := Function.update p.ram b (-p.ram a) } := by
  refine Point.ext (Point.exec_pc_on rfl rfl) rfl ?_ rfl rfl rfl
  exact congrArg (Function.update p.ram b ·) (Alu.neg_f (p.ram a))

/-- Negate a register, and skip where the result is zero. -/
theorem exec_negateLine_zero (hj : 1 ||| j = j') : p.exec e (negateLine a b j .zero) =
    { p with
      pc := if -p.ram a = 0 then j' else j
      ram := Function.update p.ram b (-p.ram a) } := by
  have hf : (Alu.add false true 0#40 (~~~p.ram a)).f = -p.ram a := Alu.neg_f (p.ram a)
  refine Point.ext (Point.exec_pc_if rfl ?_ hj) rfl ?_ rfl rfl rfl
  · change ((Alu.add false true 0#40 (~~~p.ram a)).f == 0) = _
    rw [hf]
    rfl
  · exact congrArg (Function.update p.ram b ·) hf

theorem exec_acLine : p.exec e (acLine n b j) =
    { p with pc := j, ram := Function.update p.ram b (Alu.dd (e.ac n)) } := by
  have hf : Alu.dd (e.ac n) ||| 0#40 = Alu.dd (e.ac n) := BitVec.or_zero
  refine Point.ext (Point.exec_pc_on rfl rfl) rfl ?_ rfl rfl rfl
  exact congrArg (Function.update p.ram b ·) hf

theorem exec_acToQ : p.exec e (acToQ n j .never) = { p with pc := j, q := Alu.dd (e.ac n) } := by
  have hf : Alu.dd (e.ac n) ||| 0#40 = Alu.dd (e.ac n) := BitVec.or_zero
  exact Point.ext (Point.exec_pc_on rfl rfl) rfl rfl hf rfl rfl

/-- Load `Q`, and skip on the sign of the accumulator. -/
theorem exec_acToQ_sign (hj : 1 ||| j = j') : p.exec e (acToQ n j .sign) =
    { p with pc := if (e.ac n).msb then j' else j, q := Alu.dd (e.ac n) } := by
  have hf : Alu.dd (e.ac n) ||| 0#40 = Alu.dd (e.ac n) := BitVec.or_zero
  refine Point.ext (Point.exec_pc_if rfl ?_ hj) rfl rfl hf rfl rfl
  change (Alu.dd (e.ac n) ||| 0#40).msb = _
  rw [hf, Alu.msb_dd, Bool.decide_eq_true]

theorem exec_fromQ : p.exec e (fromQ b j) =
    { p with pc := j, ram := Function.update p.ram b p.q } := by
  have hf : 0#40 ||| p.q = p.q := BitVec.zero_or
  refine Point.ext (Point.exec_pc_on rfl rfl) rfl ?_ rfl rfl rfl
  exact congrArg (Function.update p.ram b ·) hf

theorem exec_clearLine : p.exec e (clearLine b j) =
    { p with pc := j, ram := Function.update p.ram b 0 } := by
  have hf : 0#40 &&& p.q = 0#40 := BitVec.zero_and
  refine Point.ext (Point.exec_pc_on rfl rfl) rfl ?_ rfl rfl rfl
  exact congrArg (Function.update p.ram b ·) hf

theorem exec_testLine_zero (hj : 1 ||| j = j') : p.exec e (testLine b .zero j) =
    { p with pc := if p.ram b = 0 then j' else j } := by
  have hf : 0#40 ||| p.ram b = p.ram b := BitVec.zero_or
  refine Point.ext (Point.exec_pc_if rfl ?_ hj) rfl rfl rfl rfl rfl
  change (0#40 ||| p.ram b == 0) = _
  rw [hf]
  rfl

theorem exec_testLine_sign (hj : 1 ||| j = j') : p.exec e (testLine b .sign j) =
    { p with pc := if (p.ram b).toInt < 0 then j' else j } := by
  have hf : 0#40 ||| p.ram b = p.ram b := BitVec.zero_or
  refine Point.ext (Point.exec_pc_if rfl ?_ hj) rfl rfl rfl rfl rfl
  change (0#40 ||| p.ram b).msb = _
  rw [hf, BitVec.msb_eq_toInt]

theorem exec_complementLine : p.exec e (complementLine a j) =
    { p with pc := j, ram := Function.update p.ram a (~~~p.ram a) } := by
  have hf : ~~~(0#40 ^^^ p.ram a) = ~~~p.ram a := by rw [BitVec.zero_xor]
  refine Point.ext (Point.exec_pc_on rfl rfl) rfl ?_ rfl rfl rfl
  exact congrArg (Function.update p.ram a ·) hf

theorem exec_halfLine : p.exec e (halfLine a b j) =
    { p with pc := j, ram := Function.update p.ram b ((p.ram a).sshiftRight 1) } := by
  have hf : 0#40 ||| p.ram a = p.ram a := BitVec.zero_or
  refine Point.ext (Point.exec_pc_on rfl rfl) rfl ?_ rfl rfl rfl
  rw [← Alu.down_sign]
  exact congrArg (fun f => Function.update p.ram b (Alu.down f (bit f 0) (bit f 3))) hf

theorem exec_halfLong {call : Bool} : p.exec e (halfLong a j call) =
    { p with
      pc := j
      stack := if call then p.pc :: p.stack else p.stack
      ram := Function.update p.ram a ((p.ram a).sshiftRight 1)
      q := Alu.down p.q false (bit p.q 3) } := by
  have hf : 0#40 ||| p.ram a = p.ram a := BitVec.zero_or
  refine Point.ext (Point.exec_pc_on rfl rfl) rfl ?_ rfl rfl rfl
  rw [← Alu.down_sign]
  exact congrArg (fun f => Function.update p.ram a (Alu.down f (bit f 0) (bit f 3))) hf

theorem exec_doubleLong : p.exec e (doubleLong a j) =
    { p with
      pc := j
      ram := Function.update p.ram a (p.ram a + p.ram a)
      q := p.q + p.q } := by
  have hf : 0#40 ||| p.ram a = p.ram a := BitVec.zero_or
  refine Point.ext (Point.exec_pc_on rfl rfl) rfl ?_ ?_ rfl rfl
  · rw [← Alu.up_zero]
    exact congrArg (fun f => Function.update p.ram a (Alu.up f (bit f 4) false)) hf
  · exact Alu.up_zero p.q

theorem exec_doubleLine : p.exec e (doubleLine a b j) =
    { p with pc := j, ram := Function.update p.ram b (p.ram a + p.ram a) } := by
  have hf : 0#40 ||| p.ram a = p.ram a := BitVec.zero_or
  refine Point.ext (Point.exec_pc_on rfl rfl) rfl ?_ rfl rfl rfl
  rw [← Alu.up_zero]
  exact congrArg (fun f => Function.update p.ram b (Alu.up f (bit f 4) false)) hf

/-- The flags after a division that cannot be done. -/
def undivided (s : PcFlags) : PcFlags :=
  { s with flagAov := true, flagNoDiv := true, flagTrap1 := true, flagTrap2 := false }

theorem exec_noDivideLine : p.exec e noDivideLine =
    { p with pc := 0o0555, pcFlags := undivided p.pcFlags } :=
  Point.ext (Point.exec_pc_on rfl rfl) rfl rfl rfl rfl rfl

end Micro

end KS10
