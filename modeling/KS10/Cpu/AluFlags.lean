import KS10.Clocked.Adder
import KS10.Cpu.Alu
import Mathlib.Tactic.SplitIfs

/-!
# The condition flags of the ALU

The adder of the ALU works on words with two copies of their sign above them and two more bits
below them.  Its flags are those of the operation on the words themselves, and with the carry
into the left half inhibited, those of the operation on the left halves.

A carry is inserted below the word.  It gets into the word only through the ones that a
complement has there, so that it tells `B - A` from `B - A - 1` but does not change `A + B`.
-/

namespace KS10

open Clocked
open BitVec (carry)

/-- The functions that add or subtract. -/
inductive AluFun where
  | add | subr | subs
  deriving DecidableEq

namespace AluFun

variable {w : Nat}

/-- The function in the microword. -/
def code : AluFun → BitVec 3
  | add => 0b000
  | subr => 0b001
  | subs => 0b010

/-- The exact result: `A + B`, `B - A` or `A - B`, less 1 where a subtraction has no carry. -/
def exact (fn : AluFun) (a b : BitVec w) (ci : Bool) : Int :=
  match fn with
  | add => a.toInt + b.toInt
  | subr => b.toInt - a.toInt - (!ci).toNat
  | subs => a.toInt - b.toInt - (!ci).toNat

/-- The operands as they are added. -/
def x (fn : AluFun) (a : BitVec w) : BitVec w := if fn = subr then ~~~a else a
def y (fn : AluFun) (b : BitVec w) : BitVec w := if fn = subs then ~~~b else b

/-- The carry that gets into the word. -/
def c (fn : AluFun) (ci : Bool) : Bool := fn != add && ci

theorem exact_eq (fn : AluFun) (a b : BitVec (w + 1)) (ci : Bool) :
    fn.exact a b ci = (fn.x a).toInt + (fn.y b).toInt + (fn.c ci).toNat := by
  cases fn with
  | add => exact (Int.add_zero _).symm
  | subr =>
      have hx : (subr.x a).toInt = -1 - a.toInt := toInt_not_eq a
      rw [hx]
      cases ci with
      | false =>
          change b.toInt - a.toInt - 1 = -1 - a.toInt + b.toInt + 0
          omega
      | true =>
          change b.toInt - a.toInt - 0 = -1 - a.toInt + b.toInt + 1
          omega
  | subs =>
      have hy : (subs.y b).toInt = -1 - b.toInt := toInt_not_eq b
      rw [hy]
      cases ci with
      | false =>
          change a.toInt - b.toInt - 1 = a.toInt + (-1 - b.toInt) + 0
          omega
      | true =>
          change a.toInt - b.toInt - 0 = a.toInt + (-1 - b.toInt) + 1
          omega

/-- The result is the sum of the operands as they are added. -/
theorem sum_eq (fn : AluFun) (a b : BitVec (w + 1)) (ci : Bool) :
    fn.x a + fn.y b + (BitVec.ofBool (fn.c ci)).setWidth (w + 1) =
      BitVec.ofInt (w + 1) (fn.exact a b ci) := by
  have hcarry (k : Bool) :
      (BitVec.ofBool k).setWidth (w + 1) = BitVec.ofInt (w + 1) (k.toNat : Int) := by
    cases k with
    | false => simp
    | true => simp
  rw [exact_eq, BitVec.ofInt_add, BitVec.ofInt_add, BitVec.ofInt_toInt, BitVec.ofInt_toInt, hcarry]

end AluFun

namespace Alu

open AluFun (code exact)

/-- A word as the adder takes it: its sign twice above it, and two bits below it. -/
def wide (a : BitVec 36) (low : BitVec 2) : BitVec 40 := field a 0 0 ++ field a 0 0 ++ a ++ low

theorem not_wide (a : BitVec 36) (low : BitVec 2) : ~~~wide a low = wide (~~~a) (~~~low) := by
  have hsign : ~~~field a 0 0 = field (~~~a) 0 0 := (field_not a (by decide) (by decide)).symm
  unfold wide
  rw [BitVec.not_append, BitVec.not_append, BitVec.not_append, hsign]

/-- The flags of an operation on words. -/
structure Flags {w : Nat} (fn : AluFun) (a b : BitVec w) (ci : Bool) (aluFLAGS : BitVec 9) :
    Prop where
  /-- AOV: the exact result does not fit. -/
  aov : bit aluFLAGS 5 =
    decide (fn.exact a b ci < -2 ^ (w - 1) ∨ 2 ^ (w - 1) ≤ fn.exact a b ci)
  /-- CRY0, CRY1 and CRY2: the carries out of the three top bits. -/
  cry0 : bit aluFLAGS 6 = carry w (fn.x a) (fn.y b) (fn.c ci)
  cry1 : bit aluFLAGS 7 = carry (w - 1) (fn.x a) (fn.y b) (fn.c ci)
  cry2 : bit aluFLAGS 8 = carry (w - 2) (fn.x a) (fn.y b) (fn.c ci)

theorem bit_aluFLAGS (s : Alu) (crom : Microword) (aluIN : BitVec 36) :
    bit (s.aluFLAGS crom aluIN) 5 = (s.out crom aluIN).aluAOV ∧
      bit (s.aluFLAGS crom aluIN) 6 = (s.out crom aluIN).aluCRY0 ∧
      bit (s.aluFLAGS crom aluIN) 7 = (s.out crom aluIN).aluCRY1 ∧
      bit (s.aluFLAGS crom aluIN) 8 = (s.out crom aluIN).aluCRY2 := by
  simp only [aluFLAGS, bit, BitVec.getMsbD_ofBoolListBE]
  exact ⟨rfl, rfl, rfl, rfl⟩

/-- The adder gives the carries of the words. -/
structure Carries {w : Nat} (x y : BitVec w) (c : Bool) (o : Out) : Prop where
  aov : o.aluAOV = (carry w x y c != carry (w - 1) x y c)
  cry0 : o.aluCRY0 = carry w x y c
  cry2 : o.aluCRY2 = carry (w - 2) x y c

theorem Carries.flags {w : Nat} {fn : AluFun} {a b : BitVec (w + 1)} {ci : Bool} {s : Alu}
    {crom : Microword} {aluIN : BitVec 36}
    (h : Carries (fn.x a) (fn.y b) (fn.c ci) (s.out crom aluIN)) :
    Flags fn a b ci (s.aluFLAGS crom aluIN) := by
  obtain ⟨haov, hcry0, hcry1, hcry2⟩ := bit_aluFLAGS s crom aluIN
  refine ⟨?_, hcry0.trans h.cry0, ?_, hcry2.trans h.cry2⟩
  · rw [haov, h.aov, AluFun.exact_eq, Nat.add_sub_cancel, Bool.eq_iff_iff, bne_iff_ne,
      decide_eq_true_iff]
    exact (overflow_iff (fn.x a) (fn.y b) (fn.c ci)).symm
  · have hxor (p q : Bool) : ((p != q) != p) = q := by
      revert p q
      decide
    rw [hcry1, Out.aluCRY1, h.aov, h.cry0, hxor]

/-! ## The adder -/

/-- The carry into bit 3, whatever the operands. -/
theorem aluCRY2_of_top {o : Out} {x y : BitVec 4} {k : Bool} (hco : o.co = (sum x y k).msb)
    (hf : field o.f 0 3 = (sum x y k).setWidth 4) (hgo : o.go = (sum x y false).msb)
    (hg : o.g = (sum x y false).setWidth 4) : o.aluCRY2 = k := by
  rw [Out.aluCRY2, hco, hf, hgo, hg, bne_comm, sum_ne_iff]

/-- The top of a sum. -/
theorem top_sum (m : Nat) (x y : BitVec 4) (s t : BitVec (m + 1)) (c : Bool) :
    (sum (x ++ s) (y ++ t) c).msb = (sum x y (carry (m + 1) s t c)).msb ∧
      field ((sum (x ++ s) (y ++ t) c).setWidth (4 + (m + 1))) 0 3 =
        (sum x y (carry (m + 1) s t c)).setWidth 4 := by
  rw [msb_sum, msb_sum, carry_append, setWidth_sum, setWidth_sum, sum_append]
  exact ⟨rfl, field_left (a := 3) _ _⟩

theorem aluCRY2_whole (r s : BitVec 40) (ci : Bool) :
    (add false ci r s).aluCRY2 = carry 36 r s ci := by
  have hsplit (x : BitVec 40) : x = field x 0 3 ++ field x 4 39 :=
    (field_append (a := 3) (b := 35) x).symm
  have htop := top_sum 35 (field r 0 3) (field s 0 3) (field r 4 39) (field s 4 39) ci
  have hcarry := carry_append_low (field r 0 3) (field s 0 3) (field r 4 39) (field s 4 39) ci
    (Nat.le_refl 36)
  have hr := hsplit r
  have hs := hsplit s
  rw [← hr, ← hs] at htop hcarry
  rw [hcarry]
  exact aluCRY2_of_top htop.1 htop.2 rfl rfl

theorem aluCRY2_halves (r s : BitVec 40) (ci : Bool) :
    (add true ci r s).aluCRY2 = carry 16 (field r 0 19) (field s 0 19) false := by
  have hsplit (x : BitVec 20) : x = field x 0 3 ++ field x 4 19 :=
    (field_append (a := 3) (b := 15) x).symm
  have htop := top_sum 15 (field (field r 0 19) 0 3) (field (field s 0 19) 0 3)
    (field (field r 0 19) 4 19) (field (field s 0 19) 4 19) false
  have hcarry := carry_append_low (field (field r 0 19) 0 3) (field (field s 0 19) 0 3)
    (field (field r 0 19) 4 19) (field (field s 0 19) 4 19) false (Nat.le_refl 16)
  have hr := hsplit (field r 0 19)
  have hs := hsplit (field s 0 19)
  rw [← hr, ← hs] at htop hcarry
  have hfield (x : BitVec 40) : field x 0 3 = field (field x 0 19) 0 3 :=
    (field_field (a := 0) (b := 19) (c := 0) (d := 3) x (by decide) (by decide) (by decide)
      (by decide)).symm
  have hsum : sum (field r 0 3) (field s 0 3) false =
      sum (field (field r 0 19) 0 3) (field (field s 0 19) 0 3) false := by
    rw [hfield r, hfield s]
  rw [hcarry]
  refine aluCRY2_of_top htop.1 ?_ (congrArg BitVec.msb hsum) (congrArg (BitVec.setWidth 4) hsum)
  rw [← htop.2, hfield]
  exact congrArg (field · 0 3) (field_left (a := 19) (b := 19) _ _)

/-- The two copies of the sign. -/
theorem wide_signs (A : BitVec 36) (u : BitVec 2) :
    (wide A u).getLsbD 38 = (wide A u).getLsbD 37 ∧
      (wide A u).getLsbD 39 = (wide A u).getLsbD 37 := by
  simp only [wide, field, BitVec.getLsbD_append, BitVec.getLsbD_extractLsb']
  exact ⟨rfl, rfl⟩

/-- The carries of a word are those of the adder two bits above. -/
theorem carry_wide (A B : BitVec 36) (u v : BitVec 2) (ci : Bool) {i : Nat} (hi : i ≤ 36) :
    carry (i + 2) (wide A u) (wide B v) ci = carry i A B (carry 2 u v ci) := by
  unfold wide
  rw [carry_append, carry_append_low _ _ _ _ _ hi]

theorem bit_eq (x : BitVec 40) {k : Nat} (hk : k < 40) : bit x k = x.getLsbD (39 - k) := by
  unfold bit
  rw [BitVec.getMsbD_eq_getLsbD]
  simp [hk]

/-- The adder on whole words. -/
theorem carries_whole (A B : BitVec 36) (u v : BitVec 2) (ci : Bool) :
    Carries A B (carry 2 u v ci) (add false ci (wide A u) (wide B v)) where
  aov := by
    have hf : (add false ci (wide A u) (wide B v)).f =
        wide A u + wide B v + (BitVec.ofBool ci).setWidth 40 := setWidth_sum _ _ _
    rw [← carry_wide A B u v ci (Nat.le_refl 36), ← carry_wide A B u v ci (by decide)]
    rw [Out.aluAOV, Out.aluLSIGN, hf, bit_eq _ (by decide), bit_eq _ (by decide)]
    exact sum_signs (m := 37) (wide_signs A u) (wide_signs B v)
  cry0 := by
    change (sum (wide A u) (wide B v) ci).msb = _
    rw [msb_sum, (carry_signs (m := 37) (wide_signs A u) (wide_signs B v)).2,
      carry_wide _ _ _ _ _ (Nat.le_refl 36)]
  cry2 := by
    rw [aluCRY2_whole, carry_wide _ _ _ _ _ (by decide : 34 ≤ 36)]

/-- The middle of three parts. -/
theorem field_middle (t : BitVec 2) (m : BitVec 36) (l : BitVec 2) :
    field (t ++ m ++ l) 2 37 = m := by
  have houter : field (t ++ m ++ l) 2 37 = field (field (t ++ m ++ l) 0 37) 2 37 :=
    (field_field (a := 0) (b := 37) (c := 2) (d := 37) (t ++ m ++ l) (by decide) (by decide)
      (by decide) (by decide)).symm
  have hleft : field (t ++ m ++ l) 0 37 = t ++ m := field_left (a := 37) (b := 1) (t ++ m) l
  rw [houter, hleft]
  exact field_right (a := 1) (b := 35) t m

/-- The word is in the middle of the sum. -/
theorem f_whole (A B : BitVec 36) (u v : BitVec 2) (ci : Bool) :
    field (add false ci (wide A u) (wide B v)).f 2 37 =
      A + B + (BitVec.ofBool (carry 2 u v ci)).setWidth 36 := by
  have hf : (add false ci (wide A u) (wide B v)).f =
      wide A u + wide B v + (BitVec.ofBool ci).setWidth 40 := setWidth_sum _ _ _
  rw [hf]
  unfold wide
  rw [sum_append, sum_append]
  exact field_middle _ _ _

/-! ## The halves -/

/-- The left half of an operand: the sign twice above the left half of the word. -/
theorem left_wide (A : BitVec 36) (u : BitVec 2) :
    field (wide A u) 0 19 = field A 0 0 ++ field A 0 0 ++ field A 0 17 := by
  refine eq_of_bit fun k hk => ?_
  rw [bit_field _ (by omega) (by decide) (by decide), Nat.zero_add]
  simp only [wide, bit_append]
  split_ifs
  all_goals first
    | omega
    | rfl
    | rw [bit_field _ (by omega) (by decide) (by decide)]
      congr 1
      omega

/-- The right half of an operand. -/
theorem right_wide (A : BitVec 36) (u : BitVec 2) :
    field (wide A u) 20 39 = field A 18 35 ++ u := by
  refine eq_of_bit fun k hk => ?_
  rw [bit_field _ (by omega) (by decide) (by decide)]
  simp only [wide, bit_append]
  split_ifs
  all_goals first
    | omega
    | rw [bit_field _ (by omega) (by decide) (by decide)]
      congr 1
      omega
    | congr 1
      omega

theorem left_signs (A : BitVec 36) (u : BitVec 2) :
    (field (wide A u) 0 19).getLsbD 18 = (field (wide A u) 0 19).getLsbD 17 ∧
      (field (wide A u) 0 19).getLsbD 19 = (field (wide A u) 0 19).getLsbD 17 := by
  rw [left_wide]
  simp only [field, BitVec.getLsbD_append, BitVec.getLsbD_extractLsb']
  exact ⟨rfl, rfl⟩

theorem carry_left (A B : BitVec 36) (u v : BitVec 2) {i : Nat} (hi : i ≤ 18) :
    carry i (field (wide A u) 0 19) (field (wide B v) 0 19) false =
      carry i (field A 0 17) (field B 0 17) false := by
  rw [left_wide, left_wide]
  exact carry_append_low _ _ _ _ _ hi

/-- The adder on the left halves, which take no carry. -/
theorem carries_halves (A B : BitVec 36) (u v : BitVec 2) (ci : Bool) :
    Carries (field A 0 17) (field B 0 17) false (add true ci (wide A u) (wide B v)) where
  aov := by
    have hf : (add true ci (wide A u) (wide B v)).f =
        (sum (field (wide A u) 0 19) (field (wide B v) 0 19) false).setWidth 20 ++
          (sum (field (wide A u) 20 39) (field (wide B v) 20 39) ci).setWidth 20 := rfl
    have hbit (x y : BitVec 20) {k : Nat} (hk : k < 20) : bit (x ++ y) k = x.getLsbD (19 - k) := by
      rw [bit_append, if_neg (Nat.not_le.mpr hk), bit, BitVec.getMsbD_eq_getLsbD]
      simp [hk]
    have hsum := sum_signs (m := 17) (c := false) (left_signs A u) (left_signs B v)
    rw [Out.aluAOV, Out.aluLSIGN, hf, hbit _ _ (by decide), hbit _ _ (by decide), setWidth_sum]
    refine hsum.trans ?_
    rw [carry_left _ _ _ _ (by decide), carry_left _ _ _ _ (by decide)]
  cry0 := by
    change (sum (field (wide A u) 0 19) (field (wide B v) 0 19) false).msb = _
    rw [msb_sum]
    refine (carry_signs (m := 17) (left_signs A u) (left_signs B v)).2.trans ?_
    exact carry_left _ _ _ _ (Nat.le_refl 18)
  cry2 := by
    rw [aluCRY2_halves]
    exact carry_left _ _ _ _ (by decide)

/-- The halves of the word in the sum. -/
theorem f_halves (A B : BitVec 36) (u v : BitVec 2) (ci : Bool) :
    field (add true ci (wide A u) (wide B v)).f 2 37 =
      (field A 0 17 + field B 0 17) ++
        (field A 18 35 + field B 18 35 + (BitVec.ofBool (carry 2 u v ci)).setWidth 18) := by
  have hleft : (sum (field (wide A u) 0 19) (field (wide B v) 0 19) false).setWidth 20 =
      (field A 0 0 ++ field A 0 0 + (field B 0 0 ++ field B 0 0) +
        (BitVec.ofBool (carry 18 (field A 0 17) (field B 0 17) false)).setWidth 2) ++
        (field A 0 17 + field B 0 17) := by
    rw [setWidth_sum, left_wide, left_wide]
    refine (sum_append _ _ _ _ _).trans (congrArg _ ?_)
    exact BitVec.add_zero _
  have hright : (sum (field (wide A u) 20 39) (field (wide B v) 20 39) ci).setWidth 20 =
      (field A 18 35 + field B 18 35 + (BitVec.ofBool (carry 2 u v ci)).setWidth 18) ++
        (u + v + (BitVec.ofBool ci).setWidth 2) := by
    rw [setWidth_sum, right_wide, right_wide]
    exact sum_append _ _ _ _ _
  have hassoc (t : BitVec 2) (m n : BitVec 18) (l : BitVec 2) :
      t ++ m ++ (n ++ l) = t ++ (m ++ n) ++ l := by
    refine BitVec.eq_of_toNat_eq ?_
    simp only [toNat_append_eq]
    omega
  change field ((sum (field (wide A u) 0 19) (field (wide B v) 0 19) false).setWidth 20 ++
    (sum (field (wide A u) 20 39) (field (wide B v) 20 39) ci).setWidth 20) 2 37 = _
  rw [hleft, hright]
  exact (congrArg (field · 2 37) (hassoc _ _ _ _)).trans (field_middle _ _ _)

/-! ## The operations -/

/-- The halves of the operands as they are added. -/
theorem operands_field (fn : AluFun) (a b : BitVec 36) {i j : Nat} (hij : i ≤ j) (hj : j < 36) :
    fn.x (field a i j) = field (fn.x a) i j ∧ fn.y (field b i j) = field (fn.y b) i j := by
  cases fn with
  | add => exact ⟨rfl, rfl⟩
  | subr => exact ⟨(field_not a hij hj).symm, rfl⟩
  | subs => exact ⟨rfl, (field_not b hij hj).symm⟩

/-- An addition or a subtraction of the ALU is an addition of words. -/
theorem alu_code (fn : AluFun) (inh ci : Bool) (a b : BitVec 36) :
    ∃ u v : BitVec 2, carry 2 u v ci = fn.c ci ∧
      alu fn.code inh ci (dd a) (dd b) = add inh ci (wide (fn.x a) u) (wide (fn.y b) v) := by
  cases fn with
  | add => exact ⟨0, 0, by revert ci; decide, rfl⟩
  | subr =>
      refine ⟨0b11, 0, by revert ci; decide, ?_⟩
      exact congrArg (add inh ci · (dd b)) (not_wide a 0)
  | subs =>
      refine ⟨0, 0b11, by revert ci; decide, ?_⟩
      exact congrArg (add inh ci (dd a)) (not_wide b 0)

/-- The word in the middle of the adder. -/
def word (s : Alu) (crom : Microword) (aluIN : BitVec 36) : BitVec 36 :=
  field (s.f crom aluIN) 2 37

/-- The result of an operation on words, and its flags.  With the carry inhibited, they are
those of the halves, and the flags are those of the left half. -/
structure Computes (fn : AluFun) (a b : BitVec 36) (s : Alu) (crom : Microword)
    (aluIN : BitVec 36) : Prop where
  whole : specCRY18INH crom = false →
    Flags fn a b (s.carry_in crom) (s.aluFLAGS crom aluIN) ∧
      s.word crom aluIN = BitVec.ofInt 36 (fn.exact a b (s.carry_in crom))
  halves : specCRY18INH crom = true →
    Flags fn (field a 0 17) (field b 0 17) false (s.aluFLAGS crom aluIN) ∧
      s.word crom aluIN =
        BitVec.ofInt 18 (fn.exact (field a 0 17) (field b 0 17) false) ++
          BitVec.ofInt 18 (fn.exact (field a 18 35) (field b 18 35) (s.carry_in crom))

/-- Every addition and every subtraction of two words gives the result and the flags of the
operation on the words. -/
theorem aluFLAGS_exact (s : Alu) (crom : Microword) (aluIN : BitVec 36) (fn : AluFun)
    (a b : BitVec 36) (hfunc : s.func crom = fn.code) (hr : s.r crom aluIN = dd a)
    (hs : s.s_ crom = dd b) : Computes fn a b s crom aluIN := by
  obtain ⟨u, v, hcarry, halu⟩ := alu_code fn (specCRY18INH crom) (s.carry_in crom) a b
  have hout : s.out crom aluIN =
      add (specCRY18INH crom) (s.carry_in crom) (wide (fn.x a) u) (wide (fn.y b) v) := by
    rw [out, hfunc, hr, hs, halu]
  constructor
  case whole =>
    intro hinh
    rw [hinh] at hout
    constructor
    · refine Carries.flags (w := 35) ?_
      rw [hout, ← hcarry]
      exact carries_whole (fn.x a) (fn.y b) u v (s.carry_in crom)
    · rw [word, f, hout, f_whole, hcarry]
      exact fn.sum_eq a b (s.carry_in crom)
  case halves =>
    intro hinh
    rw [hinh] at hout
    have hnone : fn.c false = false := Bool.and_false _
    have hleft := operands_field fn a b (i := 0) (j := 17) (by decide) (by decide)
    have hright := operands_field fn a b (i := 18) (j := 35) (by decide) (by decide)
    constructor
    · refine Carries.flags (w := 17) ?_
      rw [hout, hnone, hleft.1, hleft.2]
      exact carries_halves (fn.x a) (fn.y b) u v (s.carry_in crom)
    · rw [word, f, hout, f_halves, hcarry, ← hleft.1, ← hleft.2, ← hright.1, ← hright.2,
        ← fn.sum_eq (field a 0 17) (field b 0 17) false,
        ← fn.sum_eq (field a 18 35) (field b 18 35) (s.carry_in crom), hnone]
      exact congrArg (· ++ _) (BitVec.add_zero _).symm

/-- The ALU with the word 1 in its registers. -/
def ones : Alu where
  aluRAM := fun _ => dd 1
  q := 0
  flagFL02 := false
  flagQR37 := false
  flagCARRY02 := false
  flagFUNCT02 := false
  flagCARRYOUT := false

/-- Subtract the bus from a register, with the carry. -/
def subtractBus : Microword :=
  1 <<< (107 - 14) ||| 0b101 <<< (107 - 17) ||| 0b101 <<< (107 - 20) ||| 1 <<< (107 - 72)

theorem aluFLAGS_exact_ones :
    Computes .subr 0o400000000000 1 ones subtractBus 0o400000000000 ∧
      bit (ones.aluFLAGS subtractBus 0o400000000000) 5 = true :=
  ⟨aluFLAGS_exact ones subtractBus 0o400000000000 .subr 0o400000000000 1 (by decide +kernel)
    (by decide +kernel) (by decide +kernel), by decide +kernel⟩

end Alu

end KS10
