import Mathlib.Algebra.Field.ZMod
import Mathlib.Algebra.Polynomial.Div
import Mathlib.Algebra.Polynomial.Inductions
import Mathlib.Data.ZMod.Basic
import Mathlib.RingTheory.Coprime.Lemmas
import Mathlib.Tactic.LinearCombination

/-!
# Remainders of bit strings

A string of bits is a polynomial over the field of two elements, with the first bit at the
highest power (`Remainder.ofBits`), and a word is a polynomial with its bit `k` at the power
`k` (`Remainder.ofWord`).  A word of `n` bits also gives the generator of degree `n` whose
lower coefficients it has.

A shift register with feedback takes a string bit by bit (`Remainder.feed`).  What it then
holds is a remainder by the generator (`Remainder.ofWord_foldl`).  From this follow the two
facts a receiver lives on: a word that is fed after a message meets the register that the
message left (`Remainder.foldl_check`), and two strings of one length leave the same register
if and only if the generator divides their difference (`Remainder.foldl_eq_iff`).
-/

namespace Clocked

namespace Remainder

open Polynomial

variable {n : Nat}

/-! ## Polynomials -/

/-- A bit as an element of the field. -/
def bit (b : Bool) : ZMod 2 := if b then 1 else 0

/-- The polynomial of a string, the first bit at the highest power. -/
noncomputable def ofBits : List Bool → (ZMod 2)[X]
  | [] => 0
  | b :: l => C (bit b) * X ^ l.length + ofBits l

/-- The polynomial of a word, bit `k` at the power `k`. -/
noncomputable def ofWord (w : BitVec n) : (ZMod 2)[X] :=
  ∑ k ∈ Finset.range n, C (bit (w.getLsbD k)) * X ^ k

/-- The polynomial of degree `n` with the lower coefficients of the word. -/
noncomputable def generator (g : BitVec n) : (ZMod 2)[X] := X ^ n + ofWord g

/-- The shift register takes a bit. -/
def feed (g s : BitVec n) (b : Bool) : BitVec n :=
  (s <<< 1) ^^^ (if b ^^ s.msb then g else 0)

/-- The bits of a word, the most significant one first. -/
def check (w : BitVec n) : List Bool := (List.range n).map w.getMsbD

theorem bit_xor (a b : Bool) : bit (a ^^ b) = bit a + bit b := by
  cases a <;> cases b <;> decide

theorem bit_injective {a b : Bool} (h : bit a = bit b) : a = b := by
  revert h
  cases a <;> cases b <;> decide

theorem add_self (p : (ZMod 2)[X]) : p + p = 0 := by
  rw [← two_mul]
  have htwo : (2 : (ZMod 2)[X]) = C 2 := rfl
  rw [htwo, show (2 : ZMod 2) = 0 from by decide, C_0, zero_mul]

theorem ofBits_cons (b : Bool) (l : List Bool) :
    ofBits (b :: l) = C (bit b) * X ^ l.length + ofBits l := rfl

theorem coeff_ofWord (w : BitVec n) (k : Nat) : (ofWord w).coeff k = bit (w.getLsbD k) := by
  unfold ofWord
  rw [finsetSum_coeff]
  by_cases hk : k < n
  · rw [Finset.sum_eq_single k]
    · rw [coeff_C_mul, coeff_X_pow, if_pos rfl, mul_one]
    · intro j _ hj
      rw [coeff_C_mul, coeff_X_pow, if_neg hj.symm, mul_zero]
    · exact fun hnot => absurd (Finset.mem_range.mpr hk) hnot
  · rw [BitVec.getLsbD_of_ge w k (Nat.le_of_not_lt hk)]
    refine Finset.sum_eq_zero fun j hj => ?_
    have hne : k ≠ j := fun heq => hk (heq ▸ Finset.mem_range.mp hj)
    rw [coeff_C_mul, coeff_X_pow, if_neg hne, mul_zero]

theorem ofWord_injective {w w' : BitVec n} (h : ofWord w = ofWord w') : w = w' := by
  apply BitVec.eq_of_getLsbD_eq
  intro k _
  apply bit_injective
  rw [← coeff_ofWord, ← coeff_ofWord, h]

theorem ofWord_zero : ofWord (0 : BitVec n) = 0 := by
  ext k
  have hbit : (0 : BitVec n).getLsbD k = false := BitVec.getLsbD_zero
  rw [coeff_ofWord, coeff_zero, hbit]
  rfl

theorem ofWord_xor (w w' : BitVec n) : ofWord (w ^^^ w') = ofWord w + ofWord w' := by
  ext k
  rw [coeff_add, coeff_ofWord, coeff_ofWord, coeff_ofWord, BitVec.getLsbD_xor, bit_xor]

theorem degree_ofWord_lt (w : BitVec n) : (ofWord w).degree < n := by
  rw [degree_lt_iff_coeff_zero]
  intro k hk
  rw [coeff_ofWord, BitVec.getLsbD_of_ge w k hk]
  rfl

theorem generator_monic (g : BitVec n) : (generator g).Monic :=
  monic_X_pow_add (degree_ofWord_lt g)

theorem degree_generator (g : BitVec n) : (generator g).degree = n := by
  unfold generator
  rw [degree_add_eq_left_of_degree_lt, degree_X_pow]
  rw [degree_X_pow]
  exact degree_ofWord_lt g

/-- The difference of two strings of one length. -/
theorem ofBits_zipWith (l : List Bool) {e : List Bool} (h : e.length = l.length) :
    ofBits (List.zipWith xor l e) = ofBits l + ofBits e := by
  induction l generalizing e with
  | nil =>
      rw [List.eq_nil_of_length_eq_zero h]
      exact (add_zero _).symm
  | cons b l ih =>
      cases e with
      | nil => cases h
      | cons c e =>
          have hlen : e.length = l.length := Nat.succ.inj h
          rw [List.zipWith_cons_cons, ofBits_cons, ofBits_cons, ofBits_cons, ih hlen,
            List.length_zipWith, hlen, Nat.min_self, bit_xor, C_add]
          ring

theorem ofBits_range (n : Nat) (f : Nat → Bool) :
    ofBits ((List.range n).map f) =
      ∑ k ∈ Finset.range n, C (bit (f (n - 1 - k))) * X ^ k := by
  induction n generalizing f with
  | zero => rfl
  | succ n ih =>
      rw [List.range_succ_eq_map, List.map_cons, List.map_map, ofBits_cons, ih,
        Finset.sum_range_succ, List.length_map, List.length_range, add_comm]
      congr 1
      · refine Finset.sum_congr rfl fun k hk => ?_
        have hlt : k < n := Finset.mem_range.mp hk
        have hpos : n + 1 - 1 - k = (n - 1 - k) + 1 := by omega
        rw [hpos]
        rfl
      · rw [Nat.add_sub_cancel, Nat.sub_self]

theorem ofBits_check (w : BitVec n) : ofBits (check w) = ofWord w := by
  unfold check ofWord
  rw [ofBits_range]
  refine Finset.sum_congr rfl fun k hk => ?_
  have hlt : k < n := Finset.mem_range.mp hk
  rw [BitVec.getMsbD_eq_getLsbD]
  have hpos : n - 1 - (n - 1 - k) = k := by omega
  have hin : decide (n - 1 - k < n) = true := decide_eq_true (by omega)
  rw [hpos, hin, Bool.true_and]

theorem length_check (w : BitVec n) : (check w).length = n := by
  unfold check
  rw [List.length_map, List.length_range]

/-! ## The shift register -/

/-- One bit: the word moves up by one power, the bit comes in at the power `n`, and the
feedback takes the generator off. -/
theorem ofWord_feed (hn : 0 < n) (g s : BitVec n) (b : Bool) :
    X * ofWord s + C (bit b) * X ^ n =
      ofWord (feed g s b) + C (bit (b ^^ s.msb)) * generator g := by
  have hfeed : ofWord (feed g s b) =
      ofWord (s <<< 1) + C (bit (b ^^ s.msb)) * ofWord g := by
    unfold feed
    rw [ofWord_xor]
    cases b ^^ s.msb with
    | false =>
        rw [if_neg Bool.false_ne_true, ofWord_zero, show bit false = 0 from rfl, C_0, zero_mul]
    | true => rw [if_pos rfl, show bit true = 1 from rfl, C_1, one_mul]
  have hshift : X * ofWord s = ofWord (s <<< 1) + C (bit s.msb) * X ^ n := by
    ext k
    rw [coeff_add, coeff_C_mul, coeff_X_pow, coeff_ofWord, BitVec.getLsbD_shiftLeft]
    cases k with
    | zero =>
        rw [mul_comm, coeff_mul_X_zero, if_neg hn.ne, mul_zero]
        simp [bit]
    | succ k =>
        rw [coeff_X_mul, coeff_ofWord]
        rcases Nat.lt_trichotomy (k + 1) n with hlt | heq | hgt
        · rw [if_neg hlt.ne, mul_zero, add_zero]
          simp [hlt]
        · have hlast : n - 1 = k := by omega
          have hout : ¬ k + 1 < n := by omega
          rw [if_pos heq, mul_one, BitVec.msb_eq_getLsbD_last, hlast]
          simp [bit, hout]
        · rw [if_neg hgt.ne', mul_zero, BitVec.getLsbD_of_ge s k (by omega)]
          simp [bit, Nat.not_lt.mpr hgt.le]
  have hdouble : C (bit (b ^^ s.msb)) * ofWord g + C (bit (b ^^ s.msb)) * ofWord g = 0 :=
    add_self _
  rw [hshift, hfeed]
  rw [bit_xor, C_add] at hdouble ⊢
  unfold generator
  linear_combination (-1) * hdouble

/-- What the register holds is a remainder: of the word it started from, moved up by the
length of the string, and of the string, moved up by the length of the register. -/
theorem ofWord_foldl (hn : 0 < n) (g s : BitVec n) (l : List Bool) :
    ofWord (l.foldl (feed g) s) =
      (ofWord s * X ^ l.length + ofBits l * X ^ n) %ₘ generator g := by
  have hquot : ∃ q, generator g * q + ofWord (l.foldl (feed g) s) =
      ofWord s * X ^ l.length + ofBits l * X ^ n := by
    induction l generalizing s with
    | nil => exact ⟨0, by simp [ofBits]⟩
    | cons b l ih =>
        obtain ⟨q, hq⟩ := ih (feed g s b)
        have hbit := ofWord_feed hn g s b
        refine ⟨q + C (bit (b ^^ s.msb)) * X ^ l.length, ?_⟩
        rw [List.foldl_cons, List.length_cons, ofBits_cons]
        linear_combination hq + (-1) * X ^ l.length * hbit
  obtain ⟨q, hq⟩ := hquot
  refine (div_modByMonic_unique q _ (generator_monic g) ⟨?_, ?_⟩).2.symm
  · rw [add_comm, hq]
  · rw [degree_generator]
    exact degree_ofWord_lt _

/-- The power by which a string is moved up has no part of the generator. -/
theorem generator_dvd_iff (hn : 0 < n) {g : BitVec n} (hg : g.getLsbD 0 = true)
    (p : (ZMod 2)[X]) : generator g ∣ p * X ^ n ↔ generator g ∣ p := by
  have hone : (generator g).coeff 0 = 1 := by
    unfold generator
    rw [coeff_add, coeff_X_pow, if_neg hn.ne, coeff_ofWord, hg, zero_add]
    rfl
  have hcoprime : IsCoprime (generator g) (X ^ n) := by
    refine IsCoprime.pow_right ⟨1, -(generator g).divX, ?_⟩
    have hdiv := divX_mul_X_add (generator g)
    rw [hone, C_1] at hdiv
    linear_combination (-1) * hdiv
  exact ⟨fun h => hcoprime.dvd_of_dvd_mul_right h, fun h => Dvd.dvd.mul_right h _⟩

/-- Two strings of one length leave the same register if and only if the generator divides
their difference. -/
theorem foldl_eq_iff (hn : 0 < n) {g : BitVec n} (hg : g.getLsbD 0 = true) (s : BitVec n)
    (l : List Bool) {e : List Bool} (he : e.length = l.length) :
    (List.zipWith xor l e).foldl (feed g) s = l.foldl (feed g) s ↔ generator g ∣ ofBits e := by
  have hword : ofWord ((List.zipWith xor l e).foldl (feed g) s) =
      ofWord (l.foldl (feed g) s) + ofBits e * X ^ n %ₘ generator g := by
    rw [ofWord_foldl hn, ofWord_foldl hn, ofBits_zipWith l he, List.length_zipWith, he,
      Nat.min_self, ← add_modByMonic, add_mul, add_assoc]
  rw [← generator_dvd_iff hn hg, ← modByMonic_eq_zero_iff_dvd (generator_monic g)]
  constructor
  · intro heq
    rw [heq] at hword
    exact left_eq_add.mp hword
  · intro hzero
    rw [hzero, add_zero] at hword
    exact ofWord_injective hword

/-- A word that is fed into the register meets what the register holds. -/
theorem foldl_check (hn : 0 < n) (g s w : BitVec n) :
    (check w).foldl (feed g) s = (check (s ^^^ w)).foldl (feed g) 0 := by
  apply ofWord_injective
  rw [ofWord_foldl hn, ofWord_foldl hn, ofBits_check, ofBits_check, length_check, length_check,
    ofWord_zero, ofWord_xor, zero_mul, zero_add, add_mul]

end Remainder

end Clocked
