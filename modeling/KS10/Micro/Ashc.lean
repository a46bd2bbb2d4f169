import KS10.Micro.Divsub
import KS10.Micro.Lshc

/-!
# The instruction ASHC

ASHC shifts the number in two accumulators.  A shift to the right is a division by a power of two
that rounds down.  A shift to the left keeps the sign, and loses the bits that do not fit.

The overflow flag then tells whether the bit that was lost last differs from the sign: the test of
each place overwrites what the places before it have found.  And a count of zero is noticed only
where the whole right half of the effective address is zero; otherwise the number is shifted by
one place to the left.
-/

namespace KS10

open Clocked

namespace Micro

/-! ## The listing -/

/-- The microwords of ASHC in the control ROM. -/
structure AshcListing (rom : MicroAddr → Microword) : Prop where
  ashc : rom 0o1466 = 0o0554_3333_0003_4174_4007_0330_3000_0041_4000
  getLow : rom 0o0554 = 0o1046_3772_0000_1275_5007_0701_0000_0000_1441
  getHigh : rom 0o1046 = 0o0602_3776_0005_0274_4007_0631_0000_0000_0000
  left : rom 0o0602 = 0o0624_3447_0505_4174_4007_0700_2000_0041_1776
  right : rom 0o0603 = 0o0614_3447_0505_4174_4007_0700_2000_0031_1776
  ashcr : rom 0o0614 = 0o0614_3446_0505_4174_4047_0630_2000_0060_0000
  rightExit : rom 0o0615 = 0o1053_3444_0505_4174_4047_0700_0000_0000_0000
  ashcl : rom 0o0624 = 0o0624_3444_0505_4174_4447_0630_2000_0060_0000
  leftExit : rom 0o0625 = 0o1053_3444_0505_4174_4447_0700_0000_0000_0000
  ashcx : rom 0o1053 = 0o0634_0113_0505_0174_4007_0521_0400_0000_0000
  plus : rom 0o0634 = 0o1064_4662_0000_4374_0007_0700_0000_0037_7777
  minus : rom 0o0635 = 0o1064_3662_0000_4374_0007_0700_0000_0040_0000

theorem ashcListing : AshcListing ks10Rom := by
  constructor
  all_goals rfl

namespace Ashc

/-- Set up the count, and ask whether there is one. -/
def ashc : Line where
  op := { func := 0b011, src := 0b011, b := ar, dest := 0b001 }
  j := 0o0554
  test := .rightZero
  count := .plus 0 .shift true

def half (j : MicroAddr) (count : Count) : Line where
  op := { func := 0b011, src := 0b100, a := br, b := br, dest := Alu.dstRAMD }
  j := j
  count := count

/-- Shift back, which may lose one bit more. -/
def exit (effect : Effect) : Line where
  op := { func := 0b011, src := 0b100, a := br, b := br, dest := Alu.dstRAMQU, style := .ashc }
  j := 0o1053
  effect := effect

/-- Store the upper word, and look at its sign. -/
def ashcx : Line where
  op := { func := 0b000, src := 0b001, a := br, b := br, dest := 0b001 }
  j := 0o0634
  test := .sign

/-- Clear the sign of the lower word. -/
def clearSign : Line where
  op := { func := 0b100, src := 0b110, dest := Alu.dstQREG, rclken := false }
  bus := .num 0o377777
  j := 0o1064

/-- Set the sign of the lower word. -/
def setSign : Line where
  op := { func := 0b011, src := 0b110, dest := Alu.dstQREG, rclken := false }
  bus := .num 0o400000
  j := 0o1064

end Ashc

variable {rom : MicroAddr → Microword}

namespace AshcListing

theorem setup (h : AshcListing rom) :
    Ashc.ashc.Listed (rom 0o1466) ∧ (acToQ 1 0o1046 .never).Listed (rom 0o0554) ∧
      (Lshc.getHigh 0o0602 .count).Listed (rom 0o1046) ∧
      (Ashc.half 0o0624 (.plus 0o1776 .exponent false)).Listed (rom 0o0602) ∧
      (Ashc.half 0o0614 (.minus 0o1776 .exponent)).Listed (rom 0o0603) := by
  rw [h.ashc, h.getLow, h.getHigh, h.left, h.right]
  decide

theorem loops (h : AshcListing rom) :
    (shiftLine .ashc false br .keep 0o0614).Listed (rom 0o0614) ∧
      (Ashc.exit .keep).Listed (rom 0o0615) ∧
      (shiftLine .ashc true br .ash 0o0624).Listed (rom 0o0624) ∧
      (Ashc.exit .ash).Listed (rom 0o0625) := by
  rw [h.ashcr, h.rightExit, h.ashcl, h.leftExit]
  decide

theorem ends (h : AshcListing rom) :
    Ashc.ashcx.Listed (rom 0o1053) ∧ Ashc.clearSign.Listed (rom 0o0634) ∧
      Ashc.setSign.Listed (rom 0o0635) := by
  rw [h.ashcx, h.plus, h.minus]
  decide

end AshcListing

/-! ## What the lines do -/

section Lines

variable {e : Env} {p : Point} {j : MicroAddr}

theorem rightZero_dd (E : BitVec 36) :
    (field (Alu.dd E) 20 39 == 0) = decide (field E 18 35 = 0) := by
  have hE := E.isLt
  have hword : (field (Alu.dd E) 20 39).toNat = 4 * (field E 18 35).toNat := by
    rw [field, BitVec.extractLsb'_toNat, field, BitVec.extractLsb'_toNat, Alu.toNat_dd]
    change (_ >>> 0) % 2 ^ 20 = 4 * ((_ >>> 0) % 2 ^ 18)
    rw [Nat.shiftRight_zero, Nat.shiftRight_zero]
    split
    · omega
    · omega
  rw [Bool.eq_iff_iff, beq_iff_eq, decide_eq_true_iff, ← BitVec.toNat_inj, ← BitVec.toNat_inj,
    hword]
  change 4 * _ = 0 ↔ _ = 0
  omega

theorem exec_ashc {E : BitVec 36} (hE : p.ram ar = Alu.dd E) : p.exec e Ashc.ashc =
    { p with
      pc := if field E 18 35 = 0 then 0o0555 else 0o0554
      scad := ⟨Operand.shift.value ⟨0, 0⟩ E, Operand.shift.value ⟨0, 0⟩ E⟩ } := by
  have hf : 0#40 ||| p.ram ar = Alu.dd E := BitVec.zero_or.trans hE
  have hdp : p.dp e Ashc.ashc = E := (congrArg (field · 2 37) hf).trans (Alu.field_dd E)
  have hpasses : Ashc.ashc.test.passes (p.out e Ashc.ashc) p.scad =
      decide (field E 18 35 = 0) := by
    rw [← rightZero_dd]
    exact congrArg (field · 20 39 == 0) hf
  have hzero : (0 : BitVec 10) + Operand.shift.value ⟨0, 0⟩ E = Operand.shift.value ⟨0, 0⟩ E :=
    BitVec.zero_add _
  refine Point.ext (Point.exec_pc_if rfl hpasses rfl) rfl rfl rfl ?_ rfl
  rw [← hzero]
  exact congrArg (fun dp => (Count.plus 0 .shift true).next p.scad dp) hdp

/-- Load BR, and skip on the direction. -/
theorem exec_getHigh_count : p.exec e (Lshc.getHigh 0o0602 .count) =
    { p with
      pc := if p.scad.sc.toInt < 0 then 0o0603 else 0o0602
      ram := Function.update p.ram br ((Alu.dd (e.ac 0)).sshiftRight 1)
      q := Alu.down p.q false (bit p.q 3) } := by
  have hf : Alu.dd (e.ac 0) ||| 0#40 = Alu.dd (e.ac 0) := BitVec.or_zero
  have hnext : (1 : MicroAddr) ||| 0o0602 = 0o0603 := by decide
  have hpasses : (Lshc.getHigh 0o0602 .count).test.passes
      (p.out e (Lshc.getHigh 0o0602 .count)) p.scad = decide (p.scad.sc.toInt < 0) := by
    change bit p.scad.sc 0 = _
    exact BitVec.msb_eq_toInt
  refine Point.ext (Point.exec_pc_if rfl hpasses hnext) rfl ?_ rfl rfl rfl
  rw [← Alu.down_sign]
  exact congrArg (fun f => Function.update p.ram br (Alu.down f (bit f 0) (bit f 3))) hf

theorem exec_ashcHalf {count : Count} : p.exec e (Ashc.half j count) =
    { p with
      pc := j
      ram := Function.update p.ram br ((p.ram br).sshiftRight 1)
      scad := count.next p.scad (p.dp e (Ashc.half j count)) } := by
  have hf : 0#40 ||| p.ram br = p.ram br := BitVec.zero_or
  refine Point.ext (Point.exec_pc_on rfl rfl) rfl ?_ rfl rfl rfl
  rw [← Alu.down_sign]
  exact congrArg (fun f => Function.update p.ram br (Alu.down f (bit f 0) (bit f 3))) hf

theorem exec_exit {effect : Effect} : p.exec e (Ashc.exit effect) =
    { p with
      pc := 0o1053
      ram := Function.update p.ram br
        (Alu.up (p.ram br) (bit (p.ram br) 0) (bit p.q 4))
      q := p.q + p.q
      pcFlags := effect.next p.pcFlags (p.out e (Ashc.exit effect)) (field (p.ram br) 2 37) } := by
  have hf : 0#40 ||| p.ram br = p.ram br := BitVec.zero_or
  refine Point.ext (Point.exec_pc_on rfl rfl) rfl ?_ (Alu.up_zero p.q) rfl ?_
  · exact congrArg (fun f => Function.update p.ram br (Alu.up f (bit f 0) (bit p.q 4))) hf
  · exact congrArg (fun f => effect.next p.pcFlags (p.out e (Ashc.exit effect)) (field f 2 37)) hf

theorem exec_ashcx : p.exec e Ashc.ashcx =
    { p with pc := if (p.ram br + p.ram br).msb then 0o0635 else 0o0634 } := by
  have hf : (Alu.add false false (p.ram br) (p.ram br)).f = p.ram br + p.ram br := by
    have hzero : (BitVec.ofBool false).setWidth 40 = 0#40 := rfl
    rw [Alu.add_f, hzero, BitVec.add_zero]
  have hnext : (1 : MicroAddr) ||| 0o0634 = 0o0635 := by decide
  refine Point.ext (Point.exec_pc_if rfl ?_ hnext) rfl rfl rfl rfl rfl
  change (Alu.add false false (p.ram br) (p.ram br)).f.msb = _
  rw [hf, Bool.decide_eq_true]

theorem exec_clearSign : p.exec e Ashc.clearSign = { p with pc := 0o1064, q := unsigned p.q } :=
  Point.ext (Point.exec_pc_on rfl rfl) rfl rfl rfl rfl rfl

/-- The lower word with a sign. -/
def negated (x : BitVec 40) : BitVec 40 :=
  Alu.halves true false (Alu.dd 0o400000400000 ||| x) x

theorem exec_setSign : p.exec e Ashc.setSign = { p with pc := 0o1064, q := negated p.q } :=
  Point.ext (Point.exec_pc_on rfl rfl) rfl rfl rfl rfl rfl

end Lines

/-! ## The double word -/

section Words

variable {f q : BitVec 40} {sign : Bool}

theorem toNat_ring (f q : BitVec 40) :
    (Alu.ring f q).toNat = f.toNat % 2 ^ 36 * 2 ^ 36 + q.toNat % 2 ^ 36 := by
  rw [Alu.ring, toNat_append_eq, field, BitVec.extractLsb'_toNat, field, BitVec.extractLsb'_toNat]
  rfl

/-- A register with its sign above the ring. -/
theorem toNat_signed (h : Alu.Signed f sign) :
    f.toNat = sign.toNat * 15 * 2 ^ 36 + f.toNat % 2 ^ 36 := by
  have hlt := f.isLt
  have hbit {k : Nat} (hk : k < 4) : (f.toNat / 2 ^ (39 - k) % 2 = 1) ↔ sign = true := by
    rw [← h k hk, bit, BitVec.getMsbD_eq_getLsbD, decide_eq_true (by omega), Bool.true_and,
      ← BitVec.testBit_toNat, Nat.testBit_eq_decide_div_mod_eq, decide_eq_true_iff]
  have h0 := hbit (k := 0) (by decide)
  have h1 := hbit (k := 1) (by decide)
  have h2 := hbit (k := 2) (by decide)
  have h3 := hbit (k := 3) (by decide)
  cases sign with
  | false => simp at h0 h1 h2 h3 ⊢; omega
  | true => simp at h0 h1 h2 h3 ⊢; omega

/-- The number that stands in the ring, above one bit, and below its sign. -/
def ringNumber (sign : Bool) (x : BitVec 72) : Int :=
  (x.toNat % 2 ^ 71 / 2 : Nat) - if sign then 2 ^ 70 else 0

/-- The upper word, when it has been shifted back. -/
theorem upper_word (h : Alu.Signed f sign) :
    let x := Alu.up f (bit f 0) (bit q 4)
    (x + x).msb = sign ∧
      (field (x + x) 2 37).toNat = sign.toNat * 2 ^ 35 + f.toNat % 2 ^ 35 := by
  intro x
  have hx : Alu.Signed x sign := Alu.signed_step h true
  have hring : Alu.ring x (q + q) = Alu.ring f q <<< 1 := by
    rw [← Alu.up_zero q]
    exact Alu.ring_shift_up f q (bit f 0) (bit q 4)
  have hx' := toNat_signed hx
  have hlt := x.isLt
  have hb := Bool.toNat_le sign
  have hvalue := congrArg BitVec.toNat hring
  rw [toNat_ring, BitVec.toNat_shiftLeft, toNat_ring, Nat.shiftLeft_eq] at hvalue
  rw [BitVec.msb_eq_decide, Alu.toNat_word, BitVec.toNat_add]
  generalize x.toNat = X at hx' hlt hvalue ⊢
  have hlow : X % 2 ^ 36 / 2 = f.toNat % 2 ^ 35 := by omega
  refine ⟨?_, by omega⟩
  cases sign with
  | false => exact decide_eq_false (by simp at hx'; omega)
  | true => exact decide_eq_true (by simp at hx'; omega)

/-- The sign of the lower word is set. -/
theorem toNat_negated (x : BitVec 40) :
    (field (negated x) 2 37).toNat = 2 ^ 35 + x.toNat / 4 % 2 ^ 35 := by
  have hones : field (Alu.dd 0o400000400000) 0 19 = 0xe0000 := by decide
  have hor : field (Alu.dd 0o400000400000 ||| x) 0 19 = 0xe0000 ||| field x 0 19 := by
    rw [← hones]
    exact BitVec.extractLsb'_or
  have hleft : (field (Alu.dd 0o400000400000 ||| x) 0 19).toNat =
      7 * 2 ^ 17 + x.toNat / 2 ^ 20 % 2 ^ 17 := by
    have hsplit : (0xe0000 : BitVec 20) ||| field x 0 19 = (7 : BitVec 3) ++ field x 3 19 := by
      have hhigh : ∀ k < 20, bit (0xe0000 : BitVec 20) k = decide (k < 3) := by decide
      have hseven : ∀ k < 3, bit (7 : BitVec 3) k = true := by decide
      refine eq_of_bit fun k hk => ?_
      rw [bit, BitVec.getMsbD_or]
      change (bit (0xe0000 : BitVec 20) k || bit (field x 0 19) k) = _
      rw [hhigh k hk, bit_append, bit_field x (by omega) (by decide) (by decide)]
      by_cases hk3 : k < 3
      · rw [decide_eq_true hk3, if_neg (by omega), hseven k hk3]
        rfl
      · rw [decide_eq_false hk3, if_pos (by omega), bit_field x (by omega) (by decide) (by decide)]
        exact congrArg (bit x) (by omega)
    rw [hor, hsplit, toNat_append_eq, field, BitVec.extractLsb'_toNat, Nat.shiftRight_eq_div_pow]
    rfl
  have hright : (field x 20 39).toNat = x.toNat % 2 ^ 20 := by
    rw [field, BitVec.extractLsb'_toNat]
    rfl
  have hhalves := toNat_append_eq (field (Alu.dd 0o400000400000 ||| x) 0 19) (field x 20 39)
  rw [hleft, hright] at hhalves
  have hnegated : (negated x).toNat = (7 * 2 ^ 17 + x.toNat / 2 ^ 20 % 2 ^ 17) * 2 ^ 20 +
      x.toNat % 2 ^ 20 := hhalves
  rw [Alu.toNat_word, hnegated]
  omega

/-- The lower word takes the sign of the upper one. -/
def signedLow (sign : Bool) (x : BitVec 40) : BitVec 40 := if sign then negated x else unsigned x

theorem toNat_signedLow (sign : Bool) (x : BitVec 40) :
    (field (signedLow sign x) 2 37).toNat = sign.toNat * 2 ^ 35 + x.toNat / 4 % 2 ^ 35 := by
  cases sign with
  | true => exact toNat_negated x
  | false =>
      rw [signedLow, if_neg Bool.false_ne_true, Alu.toNat_word, toNat_unsigned]
      change _ = 0 * 2 ^ 35 + _
      omega

/-- The two words, when they have been shifted back. -/
theorem words_back (h : Alu.Signed f sign) :
    let x := Alu.up f (bit f 0) (bit q 4)
    Alu.doubleWord (field (x + x) 2 37) (field (signedLow sign (q + q)) 2 37) =
      ringNumber sign (Alu.ring f q) := by
  intro x
  obtain ⟨-, hupper⟩ := upper_word (q := q) h
  have hlower := toNat_signedLow sign (q + q)
  have hvalue := toNat_ring f q
  rw [BitVec.toNat_add] at hlower
  rw [ringNumber, Alu.doubleWord, BitVec.toInt_eq_toNat_cond, hupper, hlower, hvalue]
  cases sign with
  | false => simp; omega
  | true => simp; omega

/-- The ring in which a double word is shifted. -/
theorem ring_start (a l : BitVec 36) :
    Alu.Signed (((Alu.dd a).sshiftRight 1).sshiftRight 1) a.msb ∧
      ((Alu.ring (((Alu.dd a).sshiftRight 1).sshiftRight 1)
        (Alu.down (Alu.dd l) false (bit (Alu.dd l) 3))).toNat : Int) =
          2 * Alu.doubleWord a l % 2 ^ 72 := by
  have hint : (((Alu.dd a).sshiftRight 1).sshiftRight 1).toInt = a.toInt := by
    rw [BitVec.toInt_sshiftRight, BitVec.toInt_sshiftRight, Int.shiftRight_eq_div_pow,
      Int.shiftRight_eq_div_pow, Alu.toInt_dd]
    omega
  have ha : -2 ^ 35 ≤ a.toInt ∧ a.toInt < 2 ^ 35 := ⟨BitVec.le_toInt a, BitVec.toInt_lt⟩
  have hl := l.isLt
  have hmsb := BitVec.msb_eq_toInt (x := a)
  constructor
  · generalize ((Alu.dd a).sshiftRight 1).sshiftRight 1 = x at hint
    rw [BitVec.toInt_eq_toNat_cond] at hint
    have hx := x.isLt
    have hfour : x.toNat / 2 ^ 36 = if a.toInt < 0 then 15 else 0 := by
      split at hint
      · split
        · omega
        · omega
      · split
        · omega
        · omega
    intro k hk
    rw [bit, BitVec.getMsbD_eq_getLsbD, decide_eq_true (by omega), Bool.true_and,
      ← BitVec.testBit_toNat, Nat.testBit_eq_decide_div_mod_eq, hmsb, decide_eq_decide]
    have hdiv : x.toNat / 2 ^ (40 - 1 - k) = x.toNat / 2 ^ 36 / 2 ^ (3 - k) := by
      rw [Nat.div_div_eq_div_mul, ← Nat.pow_add]
      congr 2
      omega
    rw [hdiv, hfour]
    obtain rfl | rfl | rfl | rfl : k = 0 ∨ k = 1 ∨ k = 2 ∨ k = 3 := by omega
    all_goals split <;> simp [*]
  · rw [toNat_ring, Alu.toNat_half_q, Alu.toNat_dd]
    generalize ((Alu.dd a).sshiftRight 1).sshiftRight 1 = x at hint
    rw [BitVec.toInt_eq_toNat_cond] at hint
    have hx := x.isLt
    have hlow : (if l.msb = true then 3 * 2 ^ 38 else 0) + 4 * l.toNat =
        (if l.msb = true then 3 else 0) * 2 ^ 38 + 4 * l.toNat := by split <;> rfl
    rw [Alu.doubleWord, hlow]
    push_cast
    generalize (if l.msb = true then 3 else 0 : Nat) = c
    split at hint <;> omega

/-- A shift to the right divides, and rounds down. -/
theorem number_right {x : BitVec 72} {V : Int} (hx : (x.toNat : Int) = 2 * V % 2 ^ 72)
    (hlow : -2 ^ 70 ≤ V) (hhigh : V < 2 ^ 70) (hsign : sign = decide (V < 0)) (n : Nat) :
    ringNumber sign (Alu.Combined.ashc.shifted false sign x n) = V / 2 ^ n := by
  have hlt := x.isLt
  have hpow : (0 : Int) < 2 ^ n := by positivity
  have hsigned : (BitVec.ofBool sign ++ x).toInt = 2 * V := by
    rw [BitVec.toInt_eq_toNat_cond, toNat_append_eq, BitVec.toNat_ofBool, hsign]
    by_cases hneg : V < 0
    · rw [decide_eq_true hneg]
      simp
      omega
    · rw [decide_eq_false hneg]
      simp
      omega
  have hvalue : ((Alu.Combined.ashc.shifted false sign x n).toNat : Int) =
      2 * V / 2 ^ n % 2 ^ 72 := by
    change ((((BitVec.ofBool sign ++ x).sshiftRight n).setWidth 72).toNat : Int) = _
    have hshift : ((BitVec.ofBool sign ++ x).sshiftRight n).toInt = 2 * V / 2 ^ n := by
      rw [BitVec.toInt_sshiftRight, Int.shiftRight_eq_div_pow, hsigned]
      rfl
    rw [← hshift, BitVec.toNat_setWidth, BitVec.toInt_eq_toNat_cond]
    split
    · omega
    · omega
  have hhalf : V / 2 ^ n = 2 * V / 2 ^ n / 2 := by
    rw [Int.ediv_ediv_of_nonneg (by omega), Int.mul_comm (2 ^ n),
      Int.mul_ediv_mul_of_pos _ _ (by decide)]
  have hone : (1 : Int) ≤ 2 ^ n := hpow
  have hbelow : 2 * V / 2 ^ n < 2 ^ 71 := by
    rw [Int.ediv_lt_iff_lt_mul hpow]
    nlinarith
  have habove : -2 ^ 71 ≤ 2 * V / 2 ^ n := by
    rw [Int.le_ediv_iff_mul_le hpow]
    nlinarith
  have hsame : 2 * V / 2 ^ n < 0 ↔ V < 0 := by
    rw [Int.ediv_lt_iff_lt_mul hpow]
    omega
  rw [ringNumber, hhalf]
  generalize 2 * V / 2 ^ n = W at hbelow habove hsame hvalue ⊢
  generalize (Alu.Combined.ashc.shifted false sign x n).toNat = y at hvalue ⊢
  rw [hsign]
  by_cases hneg : V < 0
  · rw [decide_eq_true hneg]
    simp
    omega
  · rw [decide_eq_false hneg]
    simp
    omega

/-- A shift to the left multiplies, and keeps the sign. -/
theorem number_left {x : BitVec 72} {V : Int} (hx : (x.toNat : Int) = 2 * V % 2 ^ 72)
    (n : Nat) :
    ringNumber sign (Alu.Combined.ashc.shifted true sign x n) =
      V * 2 ^ n % 2 ^ 70 - if sign then 2 ^ 70 else 0 := by
  have hshift : (Alu.Combined.ashc.shifted true sign x n).toNat = x.toNat * 2 ^ n % 2 ^ 72 := by
    change (x <<< n).toNat = _
    rw [BitVec.toNat_shiftLeft, Nat.shiftLeft_eq]
  have hmod : ((x.toNat * 2 ^ n % 2 ^ 72 % 2 ^ 71 / 2 : Nat) : Int) = V * 2 ^ n % 2 ^ 70 := by
    have hcast : ((x.toNat * 2 ^ n % 2 ^ 72 % 2 ^ 71 / 2 : Nat) : Int) =
        (x.toNat : Int) * 2 ^ n % 2 ^ 72 % 2 ^ 71 / 2 := by
      push_cast
      rfl
    have hdouble : (x.toNat : Int) * 2 ^ n % 2 ^ 72 % 2 ^ 71 = 2 * (V * 2 ^ n) % (2 * 2 ^ 70) := by
      rw [Int.emod_emod_of_dvd _ (by decide), hx, Int.mul_emod, Int.emod_emod_of_dvd _ (by decide),
        ← Int.mul_emod, Int.mul_assoc]
      rfl
    rw [hcast, hdouble, Int.mul_emod_mul_of_pos _ _ (by decide),
      Int.mul_ediv_cancel_left _ (by decide)]
  rw [ringNumber, hshift, hmod]

/-- The bit that the place `k` of a shift to the left loses behind the sign. -/
theorem bit_lost {x : BitVec 72} {V : Int} (hx : (x.toNat : Int) = 2 * V % 2 ^ 72) (k : Nat) :
    bit x k = decide (V * 2 ^ k / 2 ^ 70 % 2 = 1) := by
  have hfirst : bit x k = (x <<< k).msb := by
    rw [BitVec.msb, BitVec.getMsbD_shiftLeft, Nat.zero_add]
    rfl
  have hshift : ((x <<< k).toNat : Int) = 2 * (V * 2 ^ k) % 2 ^ 72 := by
    have hcast : ((x.toNat * 2 ^ k % 2 ^ 72 : Nat) : Int) = (x.toNat : Int) * 2 ^ k % 2 ^ 72 := by
      push_cast
      rfl
    rw [BitVec.toNat_shiftLeft, Nat.shiftLeft_eq, hcast, hx, Int.mul_emod,
      Int.emod_emod_of_dvd _ (Int.dvd_refl _), ← Int.mul_emod, Int.mul_assoc]
  rw [hfirst, BitVec.msb_eq_decide, decide_eq_decide]
  generalize (x <<< k).toNat = y at hshift
  generalize V * 2 ^ k = W at hshift
  omega

end Words

/-! ## The instruction -/

section Run

variable {e : Env} {p p' : Point} {E : BitVec 36} {sign left : Bool} {effect : Effect} {k : Nat}

/-- ASHC begins with the effective address in AR. -/
structure AshcStarts (E : BitVec 36) (v : View) : Prop where
  pc : v.pc = 0o1466
  depth : v.stack.length < 16
  ar : v.path.alu.aluRAM ar = Alu.dd E

/-- The two words of `V` are stored: the double of BR has been, and `Q` is next. -/
structure AshcDone (V : Int) (flags : PcFlags) (p : Point) (v : View) : Prop where
  pc : v.pc = 0o1064
  stack : v.stack = p.stack
  pcFlags : v.path.pcFlags = flags
  others : ∀ u, u ≠ br → v.path.alu.aluRAM u = p.ram u
  number : Alu.doubleWord (field (v.path.alu.aluRAM br + v.path.alu.aluRAM br) 2 37)
    (field v.path.alu.q 2 37) = V
  signs : (field v.path.alu.q 2 37).msb =
    (field (v.path.alu.aluRAM br + v.path.alu.aluRAM br) 2 37).msb

/-- The double word is brought back behind the loop. -/
theorem ashc_back (hrom : AshcListing rom) {pc : MicroAddr} {flags : PcFlags}
    (hexit : (Ashc.exit effect).Listed (rom pc)) (hpc : p'.pc = pc) (hdepth : p.stack.length < 16)
    (h : ShiftedBy .ashc left sign br effect k p p')
    (hflags : ∀ o, effect.next p'.pcFlags o (field (p'.ram br) 2 37) = flags) :
    Reaches rom e p' (AshcDone (ringNumber sign
      (Alu.Combined.ashc.shifted left sign (Alu.ring (p.ram br) p.q) k)) flags p) := by
  obtain ⟨hashcx, hclear, hset⟩ := hrom.ends
  have hsigned := h.signed rfl
  have hwords := words_back (q := p'.q) hsigned
  obtain ⟨hmsb, hupper⟩ := upper_word (q := p'.q) hsigned
  have hlower := toNat_signedLow sign (p'.q + p'.q)
  have hdepth' : p'.stack.length < 16 := by
    rw [h.stack]
    exact hdepth
  rw [h.ring] at hwords
  rw [← hpc] at hexit
  refine Reaches.line hexit hdepth' rfl ?_
  rw [exec_exit, hflags]
  have hbr : Function.update p'.ram br (Alu.up (p'.ram br) (bit (p'.ram br) 0) (bit p'.q 4)) br =
      Alu.up (p'.ram br) (bit (p'.ram br) 0) (bit p'.q 4) := Function.update_self _ _ _
  have hothers (u : BitVec 4) (hu : u ≠ br) : Function.update p'.ram br
      (Alu.up (p'.ram br) (bit (p'.ram br) 0) (bit p'.q 4)) u = p.ram u :=
    (Function.update_of_ne hu _ _).trans (h.others u hu)
  generalize Function.update p'.ram br
    (Alu.up (p'.ram br) (bit (p'.ram br) 0) (bit p'.q 4)) = f at hbr hothers
  generalize Alu.up (p'.ram br) (bit (p'.ram br) 0) (bit p'.q 4) = x at hbr hwords hmsb hupper
  refine Reaches.line hashcx hdepth' rfl ?_
  rw [exec_ashcx]
  have hfinish (p₁ : Point) (hpc₁ : p₁.pc = 0o1064) (hstack : p₁.stack = p'.stack)
      (hram : p₁.ram = f) (hq : p₁.q = signedLow sign (p'.q + p'.q)) (hfl : p₁.pcFlags = flags) :
      Reaches rom e p₁ (AshcDone (ringNumber sign
        (Alu.Combined.ashc.shifted left sign (Alu.ring (p.ram br) p.q) k)) flags p) := by
    refine Reaches.done fun v hv => ?_
    have hvram : v.path.alu.aluRAM = f := (congrArg Point.ram hv).trans hram
    have hvq : v.path.alu.q = signedLow sign (p'.q + p'.q) := (congrArg Point.q hv).trans hq
    constructor
    case pc => exact (congrArg Point.pc hv).trans hpc₁
    case stack => exact (congrArg Point.stack hv).trans (hstack.trans h.stack)
    case pcFlags => exact (congrArg Point.pcFlags hv).trans hfl
    case others =>
      rw [hvram]
      exact hothers
    case number =>
      rw [hvram, hvq, hbr]
      exact hwords
    case signs =>
      rw [hvram, hvq, hbr, BitVec.msb_eq_decide, BitVec.msb_eq_decide, hlower, hupper]
      cases sign with
      | false => rw [decide_eq_decide]; simp; omega
      | true => rw [decide_eq_decide]; simp
  have hsum : (f br + f br).msb = sign := by rw [hbr, hmsb]
  change Reaches rom e { p' with
    pc := if (f br + f br).msb then 0o0635 else 0o0634
    ram := f
    q := p'.q + p'.q
    pcFlags := flags } _
  cases sign with
  | false =>
      rw [hsum, if_neg Bool.false_ne_true]
      refine Reaches.line hclear hdepth' rfl ?_
      rw [exec_clearSign]
      exact hfinish _ rfl rfl rfl rfl rfl
  | true =>
      rw [hsum, if_pos rfl]
      refine Reaches.line hset hdepth' rfl ?_
      rw [exec_setSign]
      exact hfinish _ rfl rfl rfl rfl rfl

/-- What a shift to the left by `k` places makes of `V`. -/
def ashLeft (V : Int) (k : Nat) : Int := V * 2 ^ k % 2 ^ 70 - if V < 0 then 2 ^ 70 else 0

/-- The flags afterwards: whether the bit that was lost last differs from the sign. -/
def ashFlags (V : Int) (k : Nat) (s : PcFlags) : PcFlags :=
  let overflow := decide (V < 0) != decide (V * 2 ^ k / 2 ^ 70 % 2 = 1)
  { s with flagAov := overflow, flagTrap1 := overflow }

/-- The machine before the loop. -/
structure Loaded (V : Int) (n : Int) (p₀ p : Point) : Prop where
  stack : p.stack = p₀.stack
  pcFlags : p.pcFlags = p₀.pcFlags
  others : ∀ u, u ≠ br → p.ram u = p₀.ram u
  sc : p.scad.sc.toInt = n - 2
  signed : Alu.Signed (p.ram br) (decide (V < 0))
  ring : ((Alu.ring (p.ram br) p.q).toNat : Int) = 2 * V % 2 ^ 72
  bounds : -2 ^ 70 ≤ V ∧ V < 2 ^ 70

variable {V : Int} {p₀ : Point}

theorem AshcDone.of_loaded {n W : Int} {flags : PcFlags} (h : Loaded V n p₀ p) {v : View}
    (hv : AshcDone W flags p v) : AshcDone W flags p₀ v :=
  ⟨hv.pc, hv.stack.trans h.stack, hv.pcFlags, fun u hu => (hv.others u hu).trans (h.others u hu),
    hv.number, hv.signs⟩

/-- The loop to the right. -/
theorem ashc_right (hrom : AshcListing rom) {m : Nat} (h : Loaded V m p₀ p) (hm : 0 < m)
    (hpc : p.pc = 0o0614) (hdepth : p.stack.length < 16) :
    Reaches rom e p (AshcDone (V / 2 ^ m) p₀.pcFlags p₀) := by
  obtain ⟨hright, hexit, -⟩ := hrom.loops
  have hj : (1 : MicroAddr) ||| 0o0614 = 0o0615 := by decide
  refine shift_loop hj (.inl rfl)
    (fun heq => absurd heq keep_ne_ash) hright m ?_ h.sc hdepth (fun _ => h.signed)
    fun p' hp' (hshifted : ShiftedBy .ashc false (decide (V < 0)) br .keep m p p') => ?_
  · rw [if_neg (by omega), hpc]
  · have hflags (_ : Alu.Out) : p'.pcFlags = p₀.pcFlags := hshifted.pcFlags.trans h.pcFlags
    have hback := ashc_back (e := e) hrom hexit hp' hdepth hshifted hflags
    rw [number_right h.ring h.bounds.1 h.bounds.2 rfl] at hback
    exact hback.mono fun v hv => hv.of_loaded h

/-- Behind the loop to the left. -/
theorem ashc_leftDone (hrom : AshcListing rom) {n : Int} (h : Loaded V n p₀ p)
    (hdepth : p.stack.length < 16) (hpc : p'.pc = 0o0625)
    (hshifted : ShiftedBy .ashc true (decide (V < 0)) br .ash k p p') :
    Reaches rom e p' (AshcDone (ashLeft V k) (ashFlags V k p₀.pcFlags) p₀) := by
  obtain ⟨-, -, -, hexit⟩ := hrom.loops
  have hsigned := hshifted.signed rfl
  have hring : Alu.ring (p'.ram br) p'.q = Alu.ring (p.ram br) p.q <<< k := hshifted.ring
  have hlost : bit (Alu.ring (p'.ram br) p'.q) 0 = decide (V * 2 ^ k / 2 ^ 70 % 2 = 1) := by
    rw [← bit_lost h.ring, hring, bit, BitVec.getMsbD_shiftLeft, Nat.zero_add]
    rfl
  have hflags (o : Alu.Out) : Effect.ash.next p'.pcFlags o (field (p'.ram br) 2 37) =
      ashFlags V k p₀.pcFlags := by
    rw [ash_place hsigned, hshifted.pcFlags, h.pcFlags, ashFlags, ← hlost]
    cases k with
    | zero => rfl
    | succ k => rfl
  have hback := ashc_back (e := e) hrom hexit hpc hdepth hshifted hflags
  rw [number_left h.ring] at hback
  have hvalue : ashLeft V k = V * 2 ^ k % 2 ^ 70 - if decide (V < 0) = true then 2 ^ 70 else 0 := by
    rw [ashLeft]
    simp only [decide_eq_true_eq]
  rw [hvalue]
  exact hback.mono fun v hv => hv.of_loaded h

/-- The loop to the left.  It is turned once for a count of zero. -/
theorem ashc_left (hrom : AshcListing rom) {n : Nat} (h : Loaded V n p₀ p)
    (hpc : p.pc = 0o0624) (hdepth : p.stack.length < 16) :
    Reaches rom e p
      (AshcDone (ashLeft V (max 1 n)) (ashFlags V (max 1 n) p₀.pcFlags) p₀) := by
  obtain ⟨-, -, hleft, -⟩ := hrom.loops
  have hj : (1 : MicroAddr) ||| 0o0624 = 0o0625 := by decide
  cases n with
  | zero =>
      have hfirst : ShiftedBy .ashc true (decide (V < 0)) br .ash 1 p
          (p.exec e (shiftLine .ashc true br .ash 0o0624)) :=
        ShiftedBy.first hj (.inr rfl) (fun _ => rfl) fun _ => h.signed
      have hnext : (p.exec e (shiftLine .ashc true br .ash 0o0624)).pc = 0o0625 := by
        have hsc := h.sc
        rw [exec_shiftLine hj]
        exact if_pos (by omega)
      rw [← hpc] at hleft
      refine Reaches.line hleft hdepth rfl ?_
      rw [hpc]
      exact ashc_leftDone hrom h hdepth hnext hfirst
  | succ n =>
      have hmax : max 1 (n + 1) = n + 1 := by omega
      rw [hmax]
      refine shift_loop hj (.inr rfl) (fun _ => ⟨rfl, rfl⟩) hleft (n + 1) ?_ h.sc hdepth
        (fun _ => h.signed) fun p' hp'
          (hshifted : ShiftedBy .ashc true (decide (V < 0)) br .ash (n + 1) p p') => ?_
      · rw [if_neg (by omega), hpc]
      · exact ashc_leftDone hrom h hdepth hp' hshifted

/-- What ASHC makes of the number `V`, with the effective address `E`. -/
def AshcResult (E : BitVec 36) (V : Int) (p : Point) (v : View) : Prop :=
  if field E 18 35 = 0 then
    v.point = { p with pc := 0o0555, scad := v.path.scad }
  else if shiftCount E < 0 then AshcDone (V / 2 ^ (shiftCount E).natAbs) p.pcFlags p v
  else
    AshcDone (ashLeft V (max 1 (shiftCount E).natAbs))
      (ashFlags V (max 1 (shiftCount E).natAbs) p.pcFlags) p v

/-- The counts of the loops. -/
theorem toInt_ashCount (E : BitVec 36) :
    (0o1776 + Operand.shift.value ⟨0, 0⟩ E : BitVec 10).toInt = shiftCount E - 2 ∧
      (0o1776 - Operand.shift.value ⟨0, 0⟩ E : BitVec 10).toInt = -2 - shiftCount E := by
  obtain ⟨hlow, hhigh⟩ := shiftCount_bounds E
  have htwo : (0o1776 : BitVec 10).toInt = -2 := rfl
  rw [BitVec.toInt_add, BitVec.toInt_sub, htwo]
  change (-2 + shiftCount E).bmod _ = _ ∧ (-2 - shiftCount E).bmod _ = _
  rw [Int.bmod_eq_of_le (by omega) (by omega), Int.bmod_eq_of_le (by omega) (by omega)]
  exact ⟨by omega, rfl⟩

/-- ASHC, from the fetch of its operands to the store of the results. -/
theorem ashc_run (rom : MicroAddr → Microword) (hrom : AshcListing rom) (e : Env) (E : BitVec 36)
    (v : View) (h : AshcStarts E v) :
    Comes (next rom) e.Meets Goes (Shows rom v)
      (Shown rom (AshcResult E (Alu.doubleWord (e.ac 0) (e.ac 1)) v.point)) := by
  obtain ⟨hashc, hgetLow, hgetHigh, hleft, hright⟩ := hrom.setup
  obtain ⟨hsigned, hring⟩ := ring_start (e.ac 0) (e.ac 1)
  obtain ⟨hplus, hminus⟩ := toInt_ashCount E
  have hbounds := doubleWord_bounds (e.ac 0) (e.ac 1)
  have hdepth : v.point.stack.length < 16 := h.depth
  have hstart : v.point.pc = 0o1466 := h.pc
  have hsign : (e.ac 0).msb = decide (Alu.doubleWord (e.ac 0) (e.ac 1) < 0) := by
    rw [BitVec.msb_eq_toInt, decide_eq_decide, Alu.doubleWord]
    omega
  rw [hsign] at hsigned
  generalize Alu.doubleWord (e.ac 0) (e.ac 1) = V at hsigned hring hbounds ⊢
  rw [← hstart] at hashc
  refine Reaches.comes (Reaches.line hashc hdepth rfl ?_)
  rw [exec_ashc h.ar]
  by_cases hzero : field E 18 35 = 0
  · rw [if_pos hzero]
    refine Reaches.done fun v' hv' => ?_
    rw [AshcResult, if_pos hzero, hv']
    exact Point.ext rfl rfl rfl rfl (congrArg Point.scad hv').symm rfl
  rw [if_neg hzero]
  refine Reaches.line hgetLow hdepth rfl ?_
  rw [exec_acToQ]
  refine Reaches.line hgetHigh hdepth rfl ?_
  rw [exec_getHigh_count]
  have hcount : (Operand.shift.value ⟨0, 0⟩ E).toInt = shiftCount E := rfl
  generalize Operand.shift.value ⟨0, 0⟩ E = z at hcount hplus hminus ⊢
  generalize Alu.down (Alu.dd (e.ac 1)) false (bit (Alu.dd (e.ac 1)) 3) = q at hring ⊢
  generalize (Alu.dd (e.ac 0)).sshiftRight 1 = x at hsigned hring ⊢
  have hloaded (s : Scad) (pc : MicroAddr) (n : Int) (hsc : s.sc.toInt = n - 2) :
      Loaded V n v.point { v.point with
        pc := pc
        ram := Function.update (Function.update v.point.ram br x) br
          ((Function.update v.point.ram br x br).sshiftRight 1)
        q := q
        scad := s } := by
    have hbr : Function.update (Function.update v.point.ram br x) br
        ((Function.update v.point.ram br x br).sshiftRight 1) br = x.sshiftRight 1 := by
      rw [Function.update_self, Function.update_self]
    constructor
    case stack => rfl
    case pcFlags => rfl
    case others =>
      intro u hu
      exact (Function.update_of_ne hu _ _).trans (Function.update_of_ne hu _ _)
    case sc => exact hsc
    case signed => exact hbr ▸ hsigned
    case ring => exact hbr ▸ hring
    case bounds => exact hbounds
  by_cases hneg : shiftCount E < 0
  · have hpc : (if z.toInt < 0 then 0o0603 else 0o0602 : MicroAddr) = 0o0603 :=
      if_pos (hcount ▸ hneg)
    have hn : (0o1776 - z : BitVec 10).toInt = ((shiftCount E).natAbs : Int) - 2 := by omega
    rw [hpc]
    refine Reaches.line hright hdepth rfl ?_
    rw [exec_ashcHalf]
    have hrun := ashc_right (e := e) hrom
      (hloaded ⟨z, 0o1776 - z⟩ 0o0614 (shiftCount E).natAbs hn) (by omega) rfl hdepth
    refine hrun.mono fun v' hv' => ?_
    rw [AshcResult, if_neg hzero, if_pos hneg]
    exact hv'
  · have hpc : (if z.toInt < 0 then 0o0603 else 0o0602 : MicroAddr) = 0o0602 :=
      if_neg (hcount ▸ hneg)
    have hn : (0o1776 + z : BitVec 10).toInt = ((shiftCount E).natAbs : Int) - 2 := by omega
    rw [hpc]
    refine Reaches.line hleft hdepth rfl ?_
    rw [exec_ashcHalf]
    have hrun := ashc_left (e := e) hrom
      (hloaded ⟨z, 0o1776 + z⟩ 0o0624 (shiftCount E).natAbs hn) rfl hdepth
    refine hrun.mono fun v' hv' => ?_
    rw [AshcResult, if_neg hzero, if_neg hneg]
    exact hv'

/-- ASHC by 4 places to the left, with 3 in both accumulators. -/
theorem ashc_four : ∃ t,
    Shown ks10Rom (AshcDone (48 * 2 ^ 35 + 48) .clear (View.point ⟨0o1466, [], pathOf 4⟩))
      (startAt 0o1466 4 3 0 t) :=
  startAt_comes (ashc_run ks10Rom ashcListing (steadyIn 3 0).env 4 ⟨0o1466, [], pathOf 4⟩
    ⟨rfl, by decide, rfl⟩)

end Run

end Micro

end KS10
