import KS10.Cpu.AluDivide
import KS10.Micro.Operation

/-!
# Numbers in the registers of the ALU

A register holds a signed number of 40 bits, and the 36 bits `Q[4:39]` of `Q` hold the low part
of a double number.  What the adder and the shifters do to them is said here.
-/

namespace KS10

open Clocked

namespace Alu

/-! ## Signed numbers -/

/-- The range of a register. -/
def Fits (z : Int) : Prop := -2 ^ 39 ≤ z ∧ z < 2 ^ 39

theorem toInt_fits (x : BitVec 40) : Fits x.toInt :=
  ⟨BitVec.le_toInt x, BitVec.toInt_lt⟩

theorem bmod_of_fits {z : Int} (h : Fits z) : z.bmod (2 ^ 40) = z := by
  obtain ⟨hlow, hhigh⟩ := h
  exact Int.bmod_eq_of_le (by omega) (by omega)

theorem add_f (ci : Bool) (x y : BitVec 40) :
    (add false ci x y).f = x + y + (BitVec.ofBool ci).setWidth 40 := setWidth_sum x y ci

/-- A sum. -/
theorem toInt_add_f {x y : BitVec 40} (h : Fits (x.toInt + y.toInt)) :
    (add false false x y).f.toInt = x.toInt + y.toInt := by
  have hzero : (BitVec.ofBool false).setWidth 40 = 0#40 := rfl
  rw [add_f, hzero, BitVec.add_zero, BitVec.toInt_add, bmod_of_fits h]

theorem sub_f (x y : BitVec 40) : (add false true (~~~x) y).f = y - x := by
  have hone : (BitVec.ofBool true).setWidth 40 = 1#40 := rfl
  rw [add_f, hone, BitVec.add_comm (~~~x), BitVec.add_assoc, ← BitVec.neg_eq_not_add,
    BitVec.sub_eq_add_neg]

theorem neg_f (x : BitVec 40) : (add false true 0#40 (~~~x)).f = -x := by
  have hone : (BitVec.ofBool true).setWidth 40 = 1#40 := rfl
  rw [add_f, hone, BitVec.zero_add, BitVec.neg_eq_not_add]

/-- A difference. -/
theorem toInt_sub_f {x y : BitVec 40} (h : Fits (y.toInt - x.toInt)) :
    (add false true (~~~x) y).f.toInt = y.toInt - x.toInt := by
  rw [sub_f, BitVec.toInt_sub, bmod_of_fits h]

/-! ## Words -/

theorem toNat_dd (w : BitVec 36) :
    (dd w).toNat = (if w.msb then 3 * 2 ^ 38 else 0) + 4 * w.toNat := by
  have hsign : field w 0 0 = BitVec.ofBool w.msb := by
    refine eq_of_bit fun k hk => ?_
    obtain rfl : k = 0 := by omega
    rw [bit_field w (by decide) (by decide) (by decide), bit_ofBool _ rfl]
    rfl
  rw [dd, hsign, toNat_append_eq, toNat_append_eq, toNat_append_eq]
  cases w.msb with
  | false =>
      simp
      omega
  | true =>
      simp
      omega

theorem msb_dd (w : BitVec 36) : (dd w).msb = w.msb := by
  have hlt := w.isLt
  rw [BitVec.msb_eq_decide, toNat_dd]
  cases w.msb with
  | false => exact decide_eq_false (by simp; omega)
  | true => exact decide_eq_true (by simp; omega)

/-- A word on the data path is four times its number. -/
theorem toInt_dd (w : BitVec 36) : (dd w).toInt = 4 * w.toInt := by
  have hlt := w.isLt
  have hmsb := BitVec.msb_eq_decide w
  rw [BitVec.toInt_eq_toNat_cond, BitVec.toInt_eq_msb_cond, toNat_dd]
  cases hsign : w.msb with
  | false =>
      rw [hsign] at hmsb
      have hlow := of_decide_eq_false hmsb.symm
      simp
      omega
  | true =>
      rw [hsign] at hmsb
      have hhigh := of_decide_eq_true hmsb.symm
      simp
      omega

/-- The number of a double word.  The sign of the lower word does not count. -/
def doubleWord (high low : BitVec 36) : Int := high.toInt * 2 ^ 35 + (low.toNat % 2 ^ 35 : Nat)

/-- The word in a register. -/
theorem toNat_word (x : BitVec 40) : (field x 2 37).toNat = x.toNat / 4 % 2 ^ 36 := by
  rw [field, BitVec.extractLsb'_toNat, Nat.shiftRight_eq_div_pow]

/-- The data path shows the word in a register. -/
theorem field_dd (w : BitVec 36) : field (dd w) 2 37 = w := by
  have hlt := w.isLt
  refine BitVec.eq_of_toNat_eq ?_
  rw [toNat_word, toNat_dd]
  split
  · omega
  · omega

theorem bit_dd (w : BitVec 36) {k : Nat} (hk : k < 36) : bit (dd w) (k + 2) = bit w k := by
  rw [← field_dd w, bit_field _ (by omega) (by decide) (by decide), field_dd, Nat.add_comm]

/-! ## Shifts of a register -/

/-- A shift to the right that copies the sign. -/
theorem down_sign (x : BitVec 40) : down x (bit x 0) (bit x 3) = x.sshiftRight 1 := by
  refine eq_of_bit fun k hk => ?_
  rw [bit_down _ _ _ hk]
  have hshift : bit (x.sshiftRight 1) k = if k < 1 then x.msb else bit x (k - 1) := by
    rw [bit, BitVec.getMsbD_sshiftRight, decide_eq_true hk, Bool.true_and]
    rfl
  have hmsb : x.msb = bit x 0 := rfl
  rw [hshift, hmsb]
  by_cases h0 : k = 0
  · rw [if_pos h0, if_pos (by omega)]
  · by_cases h4 : k = 4
    · rw [if_neg h0, if_pos h4, if_neg (by omega), h4]
    · rw [if_neg h0, if_neg h4, if_neg (by omega)]

theorem toInt_down (x : BitVec 40) : (down x (bit x 0) (bit x 3)).toInt = x.toInt / 2 := by
  rw [down_sign, BitVec.toInt_sshiftRight, Int.shiftRight_eq_div_pow]
  rfl

/-- A shift to the left. -/
theorem up_zero (x : BitVec 40) : up x (bit x 4) false = x + x := by
  refine BitVec.eq_of_toNat_eq ?_
  rw [toNat_up, BitVec.toNat_add]
  congr 1
  simp
  omega

theorem toInt_up {x : BitVec 40} (h : Fits (2 * x.toInt)) :
    (up x (bit x 4) false).toInt = 2 * x.toInt := by
  rw [up_zero, BitVec.toInt_add, bmod_of_fits]
  · omega
  · obtain ⟨hlow, hhigh⟩ := h
    exact ⟨by omega, by omega⟩

/-! ## The low part -/

/-- The 36 bits of `Q` that belong to a double number. -/
def low (q : BitVec 40) : Nat := q.toNat % 2 ^ 36

/-- The four bits above them. -/
def above (q : BitVec 40) : Nat := q.toNat / 2 ^ 36

theorem low_above (q : BitVec 40) : q.toNat = above q * 2 ^ 36 + low q := by
  unfold low above
  omega

/-- A shift of `Q` to the right takes in the bit `b`. -/
theorem toNat_down_q (q : BitVec 40) (b : Bool) :
    (down q false b).toNat = (above q / 2) * 2 ^ 36 + (b.toNat * 2 ^ 35 + low q / 2) := by
  have hq := q.isLt
  have htop : (field q 0 2).toNat = q.toNat / 2 ^ 37 := by
    rw [field, BitVec.extractLsb'_toNat, Nat.shiftRight_eq_div_pow]
    exact Nat.mod_eq_of_lt (by omega)
  have hrest : (field q 4 38).toNat = q.toNat / 2 % 2 ^ 35 := by
    rw [field, BitVec.extractLsb'_toNat, Nat.shiftRight_eq_div_pow]
  have happend : (down q false b).toNat =
      ((BitVec.ofBool false).toNat * 2 ^ 3 + (field q 0 2).toNat) * 2 ^ 36 +
        (b.toNat * 2 ^ 35 + (field q 4 38).toNat) := by
    rw [down, toNat_append_eq, toNat_append_eq, toNat_append_eq, BitVec.toNat_ofBool b]
    change ((_ * 2 ^ 3 + _) * 2 ^ 1 + _) * 2 ^ 35 + _ = _
    omega
  rw [happend, htop, hrest]
  unfold above low
  have hfalse : (BitVec.ofBool false).toNat = 0 := rfl
  omega

/-- A long shift to the right halves `Q`. -/
theorem toNat_half_q (q : BitVec 40) : (down q false (bit q 3)).toNat = q.toNat / 2 := by
  have hbit : (bit q 3).toNat = q.toNat / 2 ^ 36 % 2 := by
    rw [bit, BitVec.getMsbD_eq_getLsbD, ← Nat.toNat_testBit]
    rfl
  rw [toNat_down_q, hbit, above, low]
  omega

theorem low_down (q : BitVec 40) (b : Bool) :
    low (down q false b) = b.toNat * 2 ^ 35 + low q / 2 := by
  have hb := Bool.toNat_le b
  have hlow : low q < 2 ^ 36 := Nat.mod_lt _ (by decide)
  rw [low, toNat_down_q]
  omega

theorem above_down (q : BitVec 40) (b : Bool) : above (down q false b) = above q / 2 := by
  have hb := Bool.toNat_le b
  have hlow : low q < 2 ^ 36 := Nat.mod_lt _ (by decide)
  rw [above, toNat_down_q]
  omega

theorem bit_last (x : BitVec 40) : bit x 39 = x.toNat.testBit 0 := by
  rw [bit, BitVec.getMsbD_eq_getLsbD]
  rfl

/-- The bit that leaves `Q`. -/
theorem bit_last_q (q : BitVec 40) : bit q 39 = (low q).testBit 0 := by
  rw [bit_last, low, Nat.testBit_mod_two_pow]
  rfl

/-- The bit that leaves a register. -/
theorem toNat_bit_last (x : BitVec 40) : (bit x 39).toNat = (x.toInt % 2).toNat := by
  rw [bit_last, Nat.toNat_testBit, BitVec.toInt_eq_toNat_cond]
  split <;> omega

end Alu

end KS10
