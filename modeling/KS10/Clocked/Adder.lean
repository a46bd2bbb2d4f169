import Mathlib.Data.Int.Cast.Lemmas

/-!
# Sums and their carries

`sum x y c` is the sum of two registers and a carry, one bit wider than they are: its top bit
is the carry out.  The carry into any bit is `BitVec.carry`; the lemmas here say what the
carries of a register are when it is put together from two, and that the carries into and out
of the top bit differ exactly if the sum of the signed numbers does not fit.
-/

namespace Clocked

open BitVec (carry)

variable {w v : Nat}

/-- The sum with its carry out, `{co, f} = x + y + c`. -/
def sum (x y : BitVec w) (c : Bool) : BitVec (w + 1) :=
  x.setWidth (w + 1) + y.setWidth (w + 1) + (BitVec.ofBool c).setWidth (w + 1)

theorem toNat_sum (x y : BitVec w) (c : Bool) :
    (sum x y c).toNat = x.toNat + y.toNat + c.toNat := by
  have hx := x.isLt
  have hy := y.isLt
  have hc : c.toNat ≤ 1 := Bool.toNat_le c
  have hpow : 2 ^ (w + 1) = 2 ^ w + 2 ^ w := by rw [Nat.pow_succ, Nat.mul_two]
  have hone : (BitVec.ofBool c).toNat = c.toNat := BitVec.toNat_ofBool c
  have hsum : x.toNat + y.toNat + c.toNat < 2 ^ (w + 1) := by omega
  unfold sum
  rw [BitVec.toNat_add, BitVec.toNat_add, BitVec.toNat_setWidth, BitVec.toNat_setWidth,
    BitVec.toNat_setWidth, hone]
  simp only [Nat.add_mod_mod, Nat.mod_add_mod, Nat.mod_eq_of_lt hsum]

/-- The carry out. -/
theorem msb_sum (x y : BitVec w) (c : Bool) : (sum x y c).msb = carry w x y c := by
  rw [BitVec.msb_eq_decide, toNat_sum, BitVec.carry_width, Nat.add_sub_cancel]

/-- The sum without its carry out. -/
theorem setWidth_sum (x y : BitVec w) (c : Bool) :
    (sum x y c).setWidth w = x + y + (BitVec.ofBool c).setWidth w := by
  unfold sum
  rw [BitVec.setWidth_add _ _ (Nat.le_succ w), BitVec.setWidth_add _ _ (Nat.le_succ w)]
  simp only [BitVec.setWidth_setWidth_of_le _ (Nat.le_succ w), BitVec.setWidth_eq]

theorem toNat_append_eq (x : BitVec w) (s : BitVec v) :
    (x ++ s).toNat = x.toNat * 2 ^ v + s.toNat := by
  rw [BitVec.toNat_append, ← Nat.shiftLeft_add_eq_or_of_lt s.isLt, Nat.shiftLeft_eq]

/-- The carries of the lower part of a register. -/
theorem carry_append_low (x y : BitVec w) (s t : BitVec v) (c : Bool) {i : Nat} (hi : i ≤ v) :
    carry i (x ++ s) (y ++ t) c = carry i s t c := by
  obtain ⟨d, rfl⟩ := Nat.exists_eq_add_of_le hi
  have hlow (z : Nat) (r : BitVec (i + d)) :
      (z * 2 ^ (i + d) + r.toNat) % 2 ^ i = r.toNat % 2 ^ i := by
    rw [Nat.pow_add, Nat.mul_left_comm, Nat.mul_add_mod]
  simp only [carry, toNat_append_eq, hlow]

/-- The carries of the upper part of a register. -/
theorem carry_append (x y : BitVec w) (s t : BitVec v) (c : Bool) (i : Nat) :
    carry (i + v) (x ++ s) (y ++ t) c = carry i x y (carry v s t c) := by
  induction i with
  | zero => rw [Nat.zero_add, BitVec.carry_zero, carry_append_low _ _ _ _ _ (Nat.le_refl v)]
  | succ i ih =>
      have hbit (z : BitVec w) (r : BitVec v) : (z ++ r).getLsbD (i + v) = z.getLsbD i := by
        rw [BitVec.getLsbD_append, if_neg (by omega), Nat.add_sub_cancel]
      rw [Nat.add_right_comm, BitVec.carry_succ, BitVec.carry_succ, ih, hbit, hbit]

/-- The upper part of a sum is the sum of the upper parts, with the carry between them. -/
theorem sum_append (x y : BitVec w) (s t : BitVec v) (c : Bool) :
    x ++ s + (y ++ t) + (BitVec.ofBool c).setWidth (w + v) =
      (x + y + (BitVec.ofBool (carry v s t c)).setWidth w) ++
        (s + t + (BitVec.ofBool c).setWidth v) := by
  refine BitVec.eq_of_getLsbD_eq fun i hi => ?_
  rw [BitVec.getLsbD_add_add_bool hi, BitVec.getLsbD_append, BitVec.getLsbD_append,
    BitVec.getLsbD_append]
  split
  · rename_i hlow
    rw [BitVec.getLsbD_add_add_bool hlow, carry_append_low _ _ _ _ _ (Nat.le_of_lt hlow)]
  · rename_i hlow
    obtain ⟨k, rfl⟩ := Nat.exists_eq_add_of_le' (Nat.le_of_not_lt hlow)
    rw [Nat.add_sub_cancel, BitVec.getLsbD_add_add_bool (by omega), carry_append]

/-- The signed sum fits exactly if the carries into and out of its top bit agree. -/
theorem overflow_iff (x y : BitVec (w + 1)) (c : Bool) :
    (x.toInt + y.toInt + c.toNat < -2 ^ w ∨ 2 ^ w ≤ x.toInt + y.toInt + c.toNat) ↔
      carry (w + 1) x y c ≠ carry w x y c := by
  have hx := x.isLt
  have hy := y.isLt
  have hc : c.toNat ≤ 1 := Bool.toNat_le c
  have hmod (z : BitVec (w + 1)) :
      z.toNat % 2 ^ w = if z.toNat < 2 ^ w then z.toNat else z.toNat - 2 ^ w := by
    have hz := z.isLt
    split
    · exact Nat.mod_eq_of_lt ‹_›
    · rw [Nat.mod_eq_sub_mod (by omega), Nat.mod_eq_of_lt]
      rw [Nat.pow_succ] at hz
      omega
  have hcast : ((2 ^ w : Nat) : Int) = (2 : Int) ^ w := Nat.cast_pow 2 w
  rw [BitVec.carry_width, carry, hmod, hmod, BitVec.toInt_eq_toNat_cond,
    BitVec.toInt_eq_toNat_cond, ← hcast]
  rw [Nat.pow_succ] at hx hy ⊢
  generalize 2 ^ w = h at *
  simp only [ne_eq, decide_eq_decide]
  split <;> split <;> split <;> split <;> push_cast <;> omega

/-- The complement of a signed number. -/
theorem toInt_not_eq (x : BitVec (w + 1)) : (~~~x).toInt = -1 - x.toInt := by
  have hx := x.isLt
  rw [BitVec.toInt_eq_toNat_cond, BitVec.toInt_eq_toNat_cond, BitVec.toNat_not]
  rw [Nat.pow_succ] at hx ⊢
  generalize 2 ^ w = h at *
  split <;> split <;> omega

/-! ## Operands with copies of their sign -/

/-- Of the three top bits of a sum of such operands, the first two have the same carry. -/
theorem carry_signs {m : Nat} {x y : BitVec (m + 3)} {c : Bool}
    (hx : x.getLsbD (m + 1) = x.getLsbD m ∧ x.getLsbD (m + 2) = x.getLsbD m)
    (hy : y.getLsbD (m + 1) = y.getLsbD m ∧ y.getLsbD (m + 2) = y.getLsbD m) :
    carry (m + 2) x y c = carry (m + 1) x y c ∧ carry (m + 3) x y c = carry (m + 1) x y c := by
  have hidem (a b k : Bool) :
      Bool.atLeastTwo a b (Bool.atLeastTwo a b k) = Bool.atLeastTwo a b k := by
    revert a b k
    decide
  have hsecond : carry (m + 2) x y c = carry (m + 1) x y c := by
    rw [BitVec.carry_succ (m + 1), hx.1, hy.1, BitVec.carry_succ m, hidem]
  refine ⟨hsecond, ?_⟩
  rw [BitVec.carry_succ (m + 2), hsecond, hx.2, hy.2, BitVec.carry_succ m, hidem]

/-- The top bit of their sum differs from the sign of the word exactly at an overflow. -/
theorem sum_signs {m : Nat} {x y : BitVec (m + 3)} {c : Bool}
    (hx : x.getLsbD (m + 1) = x.getLsbD m ∧ x.getLsbD (m + 2) = x.getLsbD m)
    (hy : y.getLsbD (m + 1) = y.getLsbD m ∧ y.getLsbD (m + 2) = y.getLsbD m) :
    ((x + y + (BitVec.ofBool c).setWidth (m + 3)).getLsbD (m + 2) !=
      (x + y + (BitVec.ofBool c).setWidth (m + 3)).getLsbD m) =
      (carry (m + 1) x y c != carry m x y c) := by
  have hxor (a b k k' : Bool) : ((a ^^ (b ^^ k)) != (a ^^ (b ^^ k'))) = (k != k') := by
    revert a b k k'
    decide
  rw [BitVec.getLsbD_add_add_bool (by omega), BitVec.getLsbD_add_add_bool (by omega), hx.2, hy.2,
    (carry_signs hx hy).1, hxor]

/-- A sum without the carry into it tells whether there is one. -/
theorem sum_ne_iff (x y : BitVec w) (c : Bool) :
    ((sum x y c).msb != (sum x y false).msb ||
      (sum x y c).setWidth w != (sum x y false).setWidth w) = c := by
  cases c with
  | false => simp
  | true =>
      have hne : (sum x y true) ≠ sum x y false := by
        intro heq
        have hnat := congrArg BitVec.toNat heq
        rw [toNat_sum, toNat_sum] at hnat
        exact Nat.succ_ne_self _ hnat
      by_contra hno
      rw [Bool.not_eq_true, Bool.or_eq_false_iff, bne_eq_false_iff_eq, bne_eq_false_iff_eq] at hno
      refine hne ?_
      rw [← BitVec.cons_msb_setWidth (sum x y true), ← BitVec.cons_msb_setWidth (sum x y false),
        hno.1, hno.2]

end Clocked
