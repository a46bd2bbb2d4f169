import KS10.Micro.Multiply
import KS10.Micro.Lines

/-!
# The product of two words

The instructions IMUL and MUL call the multiply subroutine with a word in BRX and one in `Q`, and
35 in the step counter.  The product of two words has 70 bits and a sign: ARX returns with its
upper part, doubled, and `Q` with its 35 lower bits in the place of a word (`Doubled`).

A word in ARX or AR is the upper part of a product `P`.  Its sign is that of `P`, except for the
square of the most negative word.
-/

namespace KS10

open Clocked

namespace Micro

/-! ## Words of a product -/

/-- The range of the products of two words. -/
def Product70 (P : Int) : Prop := -2 ^ 70 + 2 ^ 35 ≤ P ∧ P ≤ 2 ^ 70

theorem product70 (x y : BitVec 36) : Product70 (x.toInt * y.toInt) := by
  have hx : -2 ^ 35 ≤ x.toInt ∧ x.toInt < 2 ^ 35 := ⟨BitVec.le_toInt x, BitVec.toInt_lt⟩
  have hy : -2 ^ 35 ≤ y.toInt ∧ y.toInt < 2 ^ 35 := ⟨BitVec.le_toInt y, BitVec.toInt_lt⟩
  constructor
  · nlinarith
  · nlinarith

/-- The number that the microcode takes for negative: the upper part has its sign bit set. -/
def Minus (P : Int) : Prop := P < 0 ∨ P = 2 ^ 70

instance (P : Int) : Decidable (Minus P) := inferInstanceAs (Decidable (_ ∨ _))

/-- The sign bit of the upper part. -/
theorem msb_upper {P : Int} (h : Product70 P) : (BitVec.ofInt 36 (P / 2 ^ 35)).msb = decide (Minus P) := by
  obtain ⟨hlow, hhigh⟩ := h
  rw [BitVec.msb_eq_toInt, decide_eq_decide, BitVec.toInt_ofInt, Minus]
  by_cases hlast : P = 2 ^ 70
  · subst hlast
    decide
  · rw [Int.bmod_eq_of_le (by omega) (by omega)]
    omega

/-- A sign above a word without one. -/
theorem xor_sign {w : BitVec 36} (h : w.toNat < 2 ^ 35) :
    0o400000000000 ^^^ w = 0o400000000000 + w := by
  have hpow : (0o400000000000 : BitVec 36) = BitVec.twoPow 36 35 := rfl
  have hbit : w.getLsbD 35 = false := Nat.testBit_lt_two_pow h
  have hand : BitVec.twoPow 36 35 &&& w = 0#36 := by
    rw [BitVec.and_comm]
    exact (and_twoPow_eq_zero (by decide) w).mpr hbit
  rw [hpow, BitVec.add_eq_or_of_and_eq_zero _ _ hand]
  refine BitVec.eq_of_getLsbD_eq fun k hk => ?_
  rw [BitVec.getLsbD_xor, BitVec.getLsbD_or, BitVec.getLsbD_twoPow]
  by_cases hlast : k = 35
  · rw [hlast, hbit, Bool.xor_false, Bool.or_false]
  · have hother : decide (35 = k) = false := decide_eq_false (Ne.symm hlast)
    rw [hother, Bool.and_false, Bool.false_xor, Bool.false_or]

theorem toInt_sign_add {w : BitVec 36} (h : w.toNat < 2 ^ 35) :
    (0o400000000000 + w).toInt = w.toNat - 2 ^ 35 := by
  have hsign : (0o400000000000 : BitVec 36).toNat = 2 ^ 35 := rfl
  rw [BitVec.toInt_eq_toNat_cond, BitVec.toNat_add, hsign]
  omega

/-- What MAG.EQV.Q makes of a word without a sign: it gets one. -/
theorem word_eqv {q m : BitVec 40} (hm : field m 2 37 = 0o377777777777) (hq : q.toNat < 2 ^ 37) :
    field (~~~(m ^^^ q)) 2 37 = 0o400000000000 + field q 2 37 := by
  have hword : (field q 2 37).toNat < 2 ^ 35 := by
    rw [Alu.toNat_word]
    omega
  have hxor : field (m ^^^ q) 2 37 = field m 2 37 ^^^ field q 2 37 := BitVec.extractLsb'_xor
  have hnot : ~~~(0o377777777777 : BitVec 36) = 0o400000000000 := rfl
  rw [field_not _ (by decide) (by decide), hxor, hm, BitVec.not_xor_left, hnot, xor_sign hword]

/-- The lower word of a product, with the sign that the microcode gives it. -/
def lowerWord (P : Int) : Int := P % 2 ^ 35 - if Minus P then 2 ^ 35 else 0

/-- A product that fits into a word is its lower word. -/
theorem lowerWord_of_fits {P : Int} (hlow : -2 ^ 35 ≤ P) (hhigh : P < 2 ^ 35) : lowerWord P = P := by
  rw [lowerWord]
  by_cases hminus : Minus P
  · rw [if_pos hminus]
    rw [Minus] at hminus
    omega
  · rw [if_neg hminus]
    rw [Minus] at hminus
    omega

/-- What MAG.AND.Q makes of it: it stays. -/
theorem word_and {q m : BitVec 40} (hm : field m 2 37 = 0o377777777777) (hq : q.toNat < 2 ^ 37) :
    field (m &&& q) 2 37 = field q 2 37 := by
  have hand : field (m &&& q) 2 37 = field m 2 37 &&& field q 2 37 := BitVec.extractLsb'_and
  have hones : (0o377777777777 : BitVec 36).toNat = 2 ^ 35 - 1 := rfl
  refine BitVec.eq_of_toNat_eq ?_
  rw [hand, hm, BitVec.toNat_and, hones, Nat.and_comm]
  refine Nat.and_two_pow_sub_one_of_lt_two_pow ?_
  rw [Alu.toNat_word]
  omega

/-- The lower word is taken out of `Q`, and gets its sign. -/
theorem toInt_lower {m q r : BitVec 40} {P : Int} (hm : field m 2 37 = 0o377777777777)
    (hq : (q.toNat : Int) = 4 * (P % 2 ^ 35)) (hr : field r 2 37 = field q 2 37) :
    (field (if Minus P then ~~~(m ^^^ q) else r) 2 37).toInt = lowerWord P := by
  have hword : ((field q 2 37).toNat : Int) = P % 2 ^ 35 := by
    rw [Alu.toNat_word]
    omega
  rw [lowerWord]
  by_cases hminus : Minus P
  · rw [if_pos hminus, if_pos hminus, word_eqv hm (by omega), toInt_sign_add (by omega), hword]
  · rw [if_neg hminus, if_neg hminus, hr, BitVec.toInt_eq_toNat_of_lt (by omega), hword,
      Int.sub_zero]

/-- The bits of a word that MASK finds missing. -/
theorem signs_iff {x : BitVec 40} (hx : x.toInt % 4 = 0) (hlow : -2 ^ 38 ≤ x.toInt)
    (hhigh : x.toInt ≤ 2 ^ 37) : ~~~x &&& maskWord = 0 ↔ x.toInt = -4 := by
  constructor
  · intro hzero
    have hand : field (~~~x &&& maskWord) 2 37 = field (~~~x) 2 37 &&& field maskWord 2 37 :=
      BitVec.extractLsb'_and
    have hones : field maskWord 2 37 = BitVec.allOnes 36 := by decide
    have hword : field x 2 37 = ~~~(0 : BitVec 36) := by
      rw [hzero, hones, BitVec.and_allOnes, field_not _ (by decide) (by decide)] at hand
      have hnot := congrArg (~~~·) hand.symm
      change ~~~(~~~field x 2 37) = _ at hnot
      rw [BitVec.not_not] at hnot
      exact hnot
    have htoNat := congrArg BitVec.toNat hword
    rw [Alu.toNat_word] at htoNat
    change _ = 2 ^ 36 - 1 at htoNat
    rw [BitVec.toInt_eq_toNat_cond] at hx hlow hhigh ⊢
    have hlt := x.isLt
    split at hx
    · rw [if_pos (by assumption)] at hlow hhigh
      omega
    · rw [if_neg (by assumption)] at hlow hhigh ⊢
      omega
  · intro hfour
    have hxm : x = Alu.dd (-1) := BitVec.eq_of_toInt_eq (hfour.trans rfl)
    rw [hxm]
    rfl

/-- The word of a register that holds four times a number. -/
theorem word_eq_ofInt {z : BitVec 40} {k : Int} (hz : z.toInt = 4 * k) :
    field z 2 37 = BitVec.ofInt 36 k := by
  refine BitVec.eq_of_toNat_eq ?_
  rw [Alu.toNat_word, BitVec.toNat_ofInt]
  rw [BitVec.toInt_eq_toNat_cond] at hz
  have hlt := z.isLt
  split at hz
  · omega
  · omega

/-! ## Lines -/

section Lines

variable {e : Env} {p : Point}

/-- FIX takes the signs of a register from the word in it. -/
def fixed (x : BitVec 40) : BitVec 40 := Alu.halves true false (Alu.dd (field x 2 37)) x

theorem word_fixed (x : BitVec 40) : field (fixed x) 2 37 = field x 2 37 := by
  have hleft : (field (Alu.dd (field x 2 37)) 0 19).toNat =
      (Alu.dd (field x 2 37)).toNat / 2 ^ 20 % 2 ^ 20 := by
    rw [field, BitVec.extractLsb'_toNat, Nat.shiftRight_eq_div_pow]
  have hright : (field x 20 39).toNat = x.toNat % 2 ^ 20 := by
    rw [field, BitVec.extractLsb'_toNat]
    rfl
  have hhalves : (fixed x).toNat =
      (Alu.dd (field x 2 37)).toNat / 2 ^ 20 % 2 ^ 20 * 2 ^ 20 + x.toNat % 2 ^ 20 := by
    rw [← hleft, ← hright]
    exact toNat_append_eq (field (Alu.dd (field x 2 37)) 0 19) (field x 20 39)
  refine BitVec.eq_of_toNat_eq ?_
  rw [Alu.toNat_word, hhalves, Alu.toNat_dd, Alu.toNat_word]
  split
  · omega
  · omega

def fixSign (r : BitVec 4) (j : MicroAddr) : Line where
  op := { func := 0b011, src := 0b111, a := r, b := r, dest := Alu.dstRAMA, rclken := false }
  bus := .dp
  j := j
  test := .sign

theorem exec_fixSign {r : BitVec 4} {j j' : MicroAddr} (hj : 1 ||| j = j') :
    p.exec e (fixSign r j) =
      { p with
        pc := if (field (p.ram r) 2 37).msb then j' else j
        ram := Function.update p.ram r (fixed (p.ram r)) } := by
  have hf : Alu.dd (field (p.ram r) 2 37) ||| 0#40 = Alu.dd (field (p.ram r) 2 37) := BitVec.or_zero
  have hq : Alu.halves true false p.q p.q = p.q := field_append (a := 19) (b := 19) p.q
  refine Point.ext (Point.exec_pc_if rfl ?_ hj) rfl ?_ hq rfl rfl
  · change (Alu.dd (field (p.ram r) 2 37) ||| 0#40).msb = _
    rw [hf, Alu.msb_dd, Bool.decide_eq_true]
  · exact congrArg (fun f => Function.update p.ram r (Alu.halves true false f (p.ram r))) hf

/-- The microword MOVE that stores a result. -/
def moveLine : Line where
  op := { func := 0b100, src := 0b100, dest := 0b001 }
  j := 0o1500
  way := .drom

theorem exec_moveLine : p.exec e moveLine = { p with pc := (0#8 ++ e.b) ||| 0o1500 } :=
  Point.ext (Point.exec_pc_drom rfl rfl) rfl rfl rfl rfl rfl

/-- The flags after an overflow. -/
def overflowed (s : PcFlags) : PcFlags :=
  { s with flagAov := true, flagTrap1 := true, flagTrap2 := false }

end Lines

/-! ## The call -/

/-- The microword that calls: shift BRX and `Q`, and go to MULSUB. -/
def mulsubCall : Line := halfLong brx 0o3017 true

variable {rom : MicroAddr → Microword} {e : Env} {p : Point} {x y : BitVec 36} {P : Int}

theorem exec_mulsubCall : p.exec e mulsubCall =
    { p with
      pc := 0o3017
      stack := p.pc :: p.stack
      ram := Function.update p.ram brx ((p.ram brx).sshiftRight 1)
      q := Alu.down p.q false (bit p.q 3) } := exec_halfLong

/-- The subroutine has returned with a product. -/
structure Doubled (P : Int) (p : Point) (v : View) : Prop where
  pc : v.pc = p.pc ||| 4
  stack : v.stack = p.stack
  pcFlags : v.path.pcFlags = p.pcFlags
  others : ∀ u, u ≠ arx → u ≠ brx → v.path.alu.aluRAM u = p.ram u
  brx : 4 * (v.path.alu.aluRAM brx).toInt = (p.ram brx).toInt
  arx : (v.path.alu.aluRAM arx).toInt = 2 * (P / 2 ^ 35)
  q : (v.path.alu.q.toNat : Int) = 4 * (P % 2 ^ 35)

/-- The bits of a word on the data path spell its number. -/
theorem spelled_dd (y : BitVec 36) : spelled ((Alu.dd y).toNat / 4 % 2 ^ 37) 36 = y.toInt := by
  rw [← spelled_toNat y]
  refine spelled_congr ?_
  have hy := y.isLt
  rw [Alu.toNat_dd]
  split
  · omega
  · omega

variable {v v' : View}

/-- The operands of the subroutine are the two words. -/
theorem operands_mulsubCall (hv : v.point = p.exec e mulsubCall) (hbrx : p.ram brx = Alu.dd x)
    (hq : p.q = Alu.dd y) :
    (v.path.alu.aluRAM brx).toInt / 2 = x.toInt ∧
      v.path.alu.q.toNat / 2 % 2 ^ 37 = (Alu.dd y).toNat / 4 % 2 ^ 37 := by
  rw [exec_mulsubCall] at hv
  have hram : v.path.alu.aluRAM = Function.update p.ram brx ((p.ram brx).sshiftRight 1) :=
    congrArg Point.ram hv
  have hhalf : v.path.alu.q = Alu.down p.q false (bit p.q 3) := congrArg Point.q hv
  constructor
  · rw [hram, Function.update_self, ← Alu.down_sign, Alu.toInt_down, hbrx, Alu.toInt_dd]
    omega
  · rw [hhalf, Alu.toNat_half_q, hq, Nat.div_div_eq_div_mul]

/-- What the subroutine returns is the product. -/
theorem doubled_of_result (hv : v.point = p.exec e mulsubCall) (hbrx : p.ram brx = Alu.dd x)
    (hq : p.q = Alu.dd y) (h : Result .mulsub 35 p.pc v v') :
    Doubled (x.toInt * y.toInt) p v' := by
  obtain ⟨hmultiplicand, hmultiplier⟩ := operands_mulsubCall hv hbrx hq
  rw [exec_mulsubCall] at hv
  have hstack : v.stack = p.pc :: p.stack := congrArg Point.stack hv
  have hram : v.path.alu.aluRAM = Function.update p.ram brx ((p.ram brx).sshiftRight 1) :=
    congrArg Point.ram hv
  have hpcFlags : v.path.pcFlags = p.pcFlags := congrArg Point.pcFlags hv
  obtain ⟨hpc', hstack', hpcFlags', -, hothers, hproduct, heven, habove⟩ := h
  have hunused : (Alu.dd y).toNat / 4 % 2 ^ 37 / 2 ^ 37 = 0 := by omega
  have hlow := habove (by decide)
  have hsum : (v'.path.alu.aluRAM arx).toInt * 2 ^ 36 + v'.path.alu.q.toNat =
      4 * (x.toInt * y.toInt) := by
    change _ = 2 ^ (36 - 35) * (0 + 2 * ((v.path.alu.aluRAM brx).toInt / 2) *
      spelled (v.path.alu.q.toNat / 2 % 2 ^ 37) (35 + 1)) +
        2 * ((v.path.alu.q.toNat / 2 % 2 ^ 37) / 2 ^ (35 + 2) : Nat) at hproduct
    rw [hmultiplicand, hmultiplier, spelled_dd, hunused, Nat.mod_eq_of_lt hlow] at hproduct
    linear_combination hproduct
  constructor
  case pc => exact hpc'
  case stack =>
    rw [hstack', hstack]
    rfl
  case pcFlags => rw [hpcFlags', hpcFlags]
  case others =>
    intro u harx hbrx
    rw [hothers u harx]
    change Function.update v.path.alu.aluRAM Micro.brx _ u = _
    rw [Function.update_of_ne hbrx, hram, Function.update_of_ne hbrx]
  case brx =>
    rw [hothers Micro.brx (by decide)]
    change 4 * (Function.update v.path.alu.aluRAM Micro.brx _ Micro.brx).toInt = _
    rw [Function.update_self, ← Alu.down_sign, Alu.toInt_down, hmultiplicand, hbrx, Alu.toInt_dd]
  case arx => omega
  case q => omega

/-- The product of two words comes back from MULSUB. -/
theorem product_call (hrom : MultiplyListing rom) (hcall : mulsubCall.Listed (rom p.pc))
    (hbrx : p.ram brx = Alu.dd x) (hq : p.q = Alu.dd y) (hsc : p.scad.sc = 35)
    (hdepth : p.stack.length < 15) : Reaches rom e p (Doubled (x.toInt * y.toInt) p) := by
  have hx : -2 ^ 35 ≤ x.toInt ∧ x.toInt < 2 ^ 35 := ⟨BitVec.le_toInt x, BitVec.toInt_lt⟩
  refine Reaches.line hcall (Nat.lt_succ_of_lt hdepth) (by decide) ?_
  refine Comes.of_exists fun v => Comes.of_fact (fun s hs => hs.2) fun hv => ?_
  have hpoint := hv
  rw [exec_mulsubCall] at hpoint
  have hscad : v.path.scad = p.scad := congrArg Point.scad hpoint
  have hcalled : Called .mulsub 35 p.pc p.stack v := by
    refine ⟨congrArg Point.pc hpoint, congrArg Point.stack hpoint, hdepth, Nat.le_refl 35, ?_, ?_,
      ?_⟩
    · rw [hscad, hsc]
      rfl
    · change Small ((v.path.alu.aluRAM brx).toInt / 2)
      rw [(operands_mulsubCall hv hbrx hq).1]
      exact ⟨by omega, by omega⟩
    · have hzero : Small 0 := ⟨by decide, by decide⟩
      exact hzero
  have hrun := multiply_run rom hrom .mulsub 35 p.pc p.stack v hcalled
  refine ((hrun.meets_more fun s i hmeets => hmeets.quiet).mono_left fun s hs => hs.1).mono_right
    fun s hs => hs.imp fun v' hv' => ?_
  exact doubled_of_result hv hbrx hq hv'

end Micro

end KS10
