import KS10.Micro.Lines
import KS10.Micro.Rom

/-!
# Power-up

After a reset the microcode begins at the microword 0, with whatever is in the registers.  The
first microwords build the constants that the instructions rely on.
-/

namespace KS10

open Clocked

namespace Micro

/-! ## The listing -/

/-- The first microwords in the control ROM. -/
structure PowerUpListing (rom : MicroAddr → Microword) : Prop where
  left : rom 0o0000 = 0o0002_3771_0012_4374_4007_0700_0000_0037_7777
  double : rom 0o0002 = 0o0013_3445_1212_4174_4007_0700_0000_0000_0000
  last : rom 0o0013 = 0o0053_3551_1212_4374_4007_0700_0000_0000_0001
  half : rom 0o0053 = 0o0061_3447_1200_4174_4007_0700_0000_0000_0000
  xwd1 : rom 0o0061 = 0o0071_3771_0015_4374_4007_0700_0000_0000_0001
  one : rom 0o0071 = 0o0003_4751_1207_4374_4007_0700_0010_0000_0001

/-- The register that holds a one in both halves. -/
def xwd1 : BitVec 4 := 13

namespace PowerUp

/-- Load a register with a number in both halves. -/
def load (b : BitVec 4) (n : BitVec 18) (j : MicroAddr) : Line where
  op := { func := 0b011, src := 0b111, b := b, dest := Alu.dstRAMF }
  bus := .num n
  j := j

/-- Set the last bit of a word. -/
def last : Line where
  op := { func := 0b011, src := 0b101, a := mask, b := mask, dest := Alu.dstRAMF }
  bus := .num 1
  j := 0o0053

/-- The right half of a number, and nothing in the left one. -/
def one : Line where
  op :=
    { func := 0b100, src := 0b111, rsrc := 0b101, a := mask, b := Micro.one, dest := Alu.dstRAMF }
  bus := .num 1
  j := 0o0003
  call := true

end PowerUp

variable {rom : MicroAddr → Microword}

theorem PowerUpListing.lines (h : PowerUpListing rom) :
    (PowerUp.load mask 0o377777 0o0002).Listed (rom 0o0000) ∧
      (doubleLine mask mask 0o0013).Listed (rom 0o0002) ∧ PowerUp.last.Listed (rom 0o0013) ∧
      (halfLine mask mag 0o0061).Listed (rom 0o0053) ∧
      (PowerUp.load Micro.xwd1 1 0o0071).Listed (rom 0o0061) ∧ PowerUp.one.Listed (rom 0o0071) := by
  rw [h.left, h.double, h.last, h.half, h.xwd1, h.one]
  decide

/-! ## What the lines do -/

section Lines

variable {e : Env} {p : Point} {b : BitVec 4} {n : BitVec 18} {j : MicroAddr}

end Lines

/-! ## The run -/

end Micro

end KS10
