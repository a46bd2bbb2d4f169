import Mathlib.Logic.Basic

/-!
# Fields of registers numbered from the left

The registers of the machine number their bits from the left: bit `0` of a
36-bit word is its most significant bit.  `bit x k` and `field x a b` read such a
register the way the source writes `x[k]` and `x[a:b]`.
-/

namespace Clocked

/-- The bit `x[k]` of a register whose bit `0` is the leftmost one. -/
def bit {w : Nat} (x : BitVec w) (k : Nat) : Bool := x.getMsbD k

theorem eq_of_bit {w : Nat} {x y : BitVec w} (h : ∀ i, i < w → bit x i = bit y i) : x = y :=
  BitVec.eq_of_getMsbD_eq h

/-- The bits `x[a:b]` of a register whose bit `0` is the leftmost one. -/
def field {w : Nat} (x : BitVec w) (a b : Nat) : BitVec (b - a + 1) :=
  x.extractLsb' (w - 1 - b) (b - a + 1)

/-- The register after the write `x[a:b] <= v`. -/
def setField {w : Nat} (x : BitVec w) (a b : Nat) (v : BitVec (b - a + 1)) : BitVec w :=
  (x &&& ~~~((BitVec.allOnes (b - a + 1)).setWidth w <<< (w - 1 - b)))
    ||| v.setWidth w <<< (w - 1 - b)

theorem getLsbD_setField {w : Nat} (x : BitVec w) {a b k : Nat} (v : BitVec (b - a + 1))
    (hab : a ≤ b) (hb : b < w) (hk : k < w) :
    (setField x a b v).getLsbD k =
      if w - 1 - b ≤ k ∧ k ≤ w - 1 - a then v.getLsbD (k - (w - 1 - b)) else x.getLsbD k := by
  unfold setField
  rw [BitVec.getLsbD_or, BitVec.getLsbD_and, BitVec.getLsbD_not, BitVec.getLsbD_shiftLeft,
    BitVec.getLsbD_shiftLeft, BitVec.getLsbD_setWidth, BitVec.getLsbD_setWidth,
    BitVec.getLsbD_allOnes]
  split
  · have h1 : ¬ k < w - 1 - b := by omega
    have h2 : k - (w - 1 - b) < b - a + 1 := by omega
    have h3 : k - (w - 1 - b) < w := by omega
    simp [hk, h1, h2, h3]
  · by_cases h1 : k < w - 1 - b
    · simp [hk, h1]
    · have h2 : ¬ k - (w - 1 - b) < b - a + 1 := by omega
      have h3 : v.getLsbD (k - (w - 1 - b)) = false := BitVec.getLsbD_of_ge _ _ (by omega)
      simp [hk, h1, h2, h3]

/-- The bits of a field are bits of the register. -/
theorem bit_field {w : Nat} (x : BitVec w) {a b k : Nat} (hk : k ≤ b - a) (hab : a ≤ b)
    (hb : b < w) : bit (field x a b) k = bit x (a + k) := by
  unfold bit field
  rw [BitVec.getMsbD_eq_getLsbD, BitVec.getMsbD_eq_getLsbD, BitVec.getLsbD_extractLsb']
  have hlt : k < b - a + 1 := by omega
  have hin : a + k < w := by omega
  have hlsb : b - a + 1 - 1 - k < b - a + 1 := by omega
  have hpos : w - 1 - b + (b - a + 1 - 1 - k) = w - 1 - (a + k) := by omega
  rw [hpos]
  simp only [hlt, hin, hlsb, decide_true, Bool.true_and]

/-- The bits of two registers side by side. -/
theorem bit_append {a b : Nat} (x : BitVec a) (y : BitVec b) (k : Nat) :
    bit (x ++ y) k = if a ≤ k then bit y (k - a) else bit x k :=
  BitVec.getMsbD_append

/-- A field of a field is a field of the register. -/
theorem field_field {w : Nat} (x : BitVec w) {a b c d : Nat} (hd : d ≤ b - a) (hab : a ≤ b)
    (hb : b < w) (hcd : c ≤ d) :
    field (field x a b) c d = (field x (a + c) (a + d)).cast (by omega) := by
  apply BitVec.eq_of_getLsbD_eq
  intro k hk
  have hpos : w - 1 - b + (b - a + 1 - 1 - d + k) = w - 1 - (a + d) + k := by omega
  have hin : b - a + 1 - 1 - d + k < b - a + 1 := by omega
  have hin' : k < a + d - (a + c) + 1 := by omega
  unfold field
  rw [BitVec.getLsbD_extractLsb', BitVec.getLsbD_extractLsb', BitVec.getLsbD_cast,
    BitVec.getLsbD_extractLsb', hpos]
  simp only [hk, hin, hin', decide_true, Bool.true_and]

/-- A register is its leftmost bits followed by the rest. -/
theorem field_append {a b : Nat} (x : BitVec (a + 1 + (b + 1))) :
    (field x 0 a).cast (by omega) ++ (field x (a + 1) (a + 1 + b)).cast (by omega) = x := by
  apply BitVec.eq_of_getLsbD_eq
  intro k hk
  unfold field
  rw [BitVec.getLsbD_append, BitVec.getLsbD_cast, BitVec.getLsbD_cast,
    BitVec.getLsbD_extractLsb', BitVec.getLsbD_extractLsb']
  by_cases hlow : k < b + 1
  · have hin : k < a + 1 + b - (a + 1) + 1 := by omega
    have hpos : a + 1 + (b + 1) - 1 - (a + 1 + b) + k = k := by omega
    rw [hpos]
    simp only [hlow, hin, if_true, decide_true, Bool.true_and]
  · have hhigh : k - (b + 1) < a - 0 + 1 := by omega
    have hback : a + 1 + (b + 1) - 1 - a + (k - (b + 1)) = k := by omega
    rw [hback]
    simp only [hlow, hhigh, if_false, decide_true, Bool.true_and]

theorem field_left {a b : Nat} (x : BitVec (a + 1)) (y : BitVec (b + 1)) :
    field (x ++ y) 0 a = x := by
  apply BitVec.eq_of_getLsbD_eq
  intro k hk
  have hin : k < a - 0 + 1 := by omega
  have hhigh : ¬ a + 1 + (b + 1) - 1 - a + k < b + 1 := by omega
  have hpos : a + 1 + (b + 1) - 1 - a + k - (b + 1) = k := by omega
  unfold field
  rw [BitVec.getLsbD_extractLsb', BitVec.getLsbD_append, hpos]
  simp only [hin, hhigh, if_false, decide_true, Bool.true_and]

theorem field_right {a b : Nat} (x : BitVec (a + 1)) (y : BitVec (b + 1)) :
    field (x ++ y) (a + 1) (a + 1 + b) = y.cast (by omega) := by
  apply BitVec.eq_of_getLsbD_eq
  intro k hk
  have hpos : a + 1 + (b + 1) - 1 - (a + 1 + b) + k = k := by omega
  have hlow : k < b + 1 := by omega
  unfold field
  rw [BitVec.getLsbD_extractLsb', BitVec.getLsbD_append, BitVec.getLsbD_cast, hpos]
  simp only [hk, hlow, if_true, decide_true, Bool.true_and]

theorem field_not {w : Nat} (x : BitVec w) {a b : Nat} (hab : a ≤ b) (hb : b < w) :
    field (~~~x) a b = ~~~field x a b := by
  apply BitVec.eq_of_getLsbD_eq
  intro k hk
  have hin : w - 1 - b + k < w := by omega
  unfold field
  rw [BitVec.getLsbD_extractLsb', BitVec.getLsbD_not, BitVec.getLsbD_not,
    BitVec.getLsbD_extractLsb']
  simp only [hk, hin, decide_true, Bool.true_and]

/-- A mask with one bit tests the bit. -/
theorem and_twoPow_eq_zero {w k : Nat} (hk : k < w) (x : BitVec w) :
    x &&& BitVec.twoPow w k = 0 ↔ x.getLsbD k = false := by
  have hmask : (BitVec.twoPow w k).getLsbD k = true := by
    rw [BitVec.getLsbD_twoPow, decide_eq_true hk, decide_eq_true rfl, Bool.true_and]
  rw [BitVec.and_twoPow]
  cases x.getLsbD k with
  | false => exact ⟨fun _ => rfl, fun _ => rfl⟩
  | true =>
      constructor
      · intro h
        have hzero : BitVec.twoPow w k = 0#w := h
        rw [hzero, BitVec.getLsbD_zero] at hmask
        cases hmask
      · intro h
        cases h

end Clocked
