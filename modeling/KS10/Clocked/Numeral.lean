import Mathlib.Data.Nat.Digits.Lemmas

/-!
# Numerals

The digits of a number in a base, the first one first, and the value of a list of digits.  A
numeral has at least one digit, and it has no more than `k` if the number is below `b ^ k`
(`numeral_length_le_iff`).  Its value is the number (`value_numeral`), and the first digits of a
list have the value divided by a power of the base (`numeralValue_take`).
-/

namespace Clocked

/-- The digits of `n` in the base `b`, with a single zero for zero. -/
def numeral (b n : Nat) : List Nat := if n = 0 then [0] else (Nat.digits b n).reverse

/-- The value of a list of digits. -/
def numeralValue (b : Nat) (ds : List Nat) : Nat := ds.foldl (fun v d => v * b + d) 0

variable {b n k d : Nat}

theorem numeral_of_lt (h : n < b) : numeral b n = [n] := by
  unfold numeral
  by_cases hn : n = 0
  · rw [if_pos hn, hn]
  · rw [if_neg hn, Nat.digits_of_lt b n hn h]
    rfl

theorem numeral_of_le (hb : 1 < b) (h : b ≤ n) : numeral b n = numeral b (n / b) ++ [n % b] := by
  have hn : n ≠ 0 := by omega
  have hdiv : n / b ≠ 0 := Nat.ne_of_gt (Nat.div_pos h (Nat.zero_lt_of_lt hb))
  unfold numeral
  rw [if_neg hn, if_neg hdiv, Nat.digits_def' hb (Nat.pos_of_ne_zero hn), List.reverse_cons]

theorem numeral_ne_nil (b n : Nat) : numeral b n ≠ [] := by
  unfold numeral
  split
  · exact List.cons_ne_nil 0 []
  · next hn => exact fun h => Nat.digits_ne_nil_iff_ne_zero.mpr hn (List.reverse_eq_nil_iff.mp h)

theorem lt_of_mem_numeral (hb : 1 < b) (hd : d ∈ numeral b n) : d < b := by
  unfold numeral at hd
  split at hd
  · rw [List.mem_singleton.mp hd]
    exact Nat.zero_lt_of_lt hb
  · exact Nat.digits_lt_base hb (List.mem_reverse.mp hd)

/-- Only the last digit tells the remainder. -/
theorem getLast?_numeral (hb : 1 < b) : (numeral b n).getLast? = some (n % b) := by
  rcases Nat.lt_or_ge n b with hlt | hge
  · rw [numeral_of_lt hlt, Nat.mod_eq_of_lt hlt]
    rfl
  · rw [numeral_of_le hb hge, List.getLast?_concat]

/-- A numeral does not begin with a zero, except for zero. -/
theorem head?_numeral (hb : 1 < b) (hn : n ≠ 0) : (numeral b n).head? ≠ some 0 := by
  induction n using Nat.strong_induction_on with
  | _ n ih =>
      rcases Nat.lt_or_ge n b with hlt | hge
      · rw [numeral_of_lt hlt]
        exact fun heq => hn (Option.some_inj.mp heq)
      · have hdiv : n / b ≠ 0 := Nat.ne_of_gt (Nat.div_pos hge (Nat.zero_lt_of_lt hb))
        have hhead := ih (n / b) (Nat.div_lt_self (Nat.pos_of_ne_zero hn) hb) hdiv
        rw [numeral_of_le hb hge, List.head?_append_of_ne_nil _ (numeral_ne_nil b (n / b))]
        exact hhead

theorem numeral_length_le_iff (hb : 1 < b) (hk : 0 < k) :
    (numeral b n).length ≤ k ↔ n < b ^ k := by
  unfold numeral
  by_cases hn : n = 0
  · rw [if_pos hn, hn]
    exact ⟨fun _ => Nat.pow_pos (Nat.zero_lt_of_lt hb), fun _ => hk⟩
  · rw [if_neg hn, List.length_reverse]
    exact Nat.digits_length_le_iff hb n

@[simp] theorem numeralValue_concat (ds : List Nat) :
    numeralValue b (ds ++ [d]) = numeralValue b ds * b + d := by
  unfold numeralValue
  rw [List.foldl_append]
  rfl

theorem value_numeral (hb : 1 < b) : numeralValue b (numeral b n) = n := by
  induction n using Nat.strong_induction_on with
  | _ n ih =>
      rcases Nat.lt_or_ge n b with hlt | hge
      · rw [numeral_of_lt hlt]
        show 0 * b + n = n
        omega
      · rw [numeral_of_le hb hge, numeralValue_concat, ih (n / b) (Nat.div_lt_self (by omega) hb)]
        exact Nat.div_add_mod' n b

/-! ## Parts of a list of digits -/

theorem numeralValue_append (xs ys : List Nat) :
    numeralValue b (xs ++ ys) = numeralValue b xs * b ^ ys.length + numeralValue b ys := by
  induction ys using List.reverseRecOn with
  | nil =>
      rw [List.append_nil, List.length_nil, Nat.pow_zero, Nat.mul_one]
      rfl
  | append_singleton ys d ih =>
      rw [← List.append_assoc, numeralValue_concat, ih, numeralValue_concat, List.length_append,
        List.length_singleton, Nat.pow_succ, Nat.add_mul, Nat.mul_assoc, Nat.add_assoc]

theorem numeralValue_lt {ds : List Nat} (h : ∀ d ∈ ds, d < b) :
    numeralValue b ds < b ^ ds.length := by
  induction ds using List.reverseRecOn with
  | nil => exact Nat.one_pos
  | append_singleton ds d ih =>
      have hd : d < b := h d (List.mem_append_right _ List.mem_cons_self)
      have hlt := ih fun e he => h e (List.mem_append_left _ he)
      have hmul : (numeralValue b ds + 1) * b ≤ b ^ ds.length * b := Nat.mul_le_mul_right b hlt
      rw [numeralValue_concat, List.length_append, List.length_singleton, Nat.pow_succ]
      rw [Nat.add_mul, Nat.one_mul] at hmul
      omega

/-- The value of the first `k` digits. -/
theorem numeralValue_take {ds : List Nat} (h : ∀ d ∈ ds, d < b) (hb : 0 < b) (k : Nat) :
    numeralValue b (ds.take k) = numeralValue b ds / b ^ (ds.length - k) := by
  have hrest : numeralValue b (ds.drop k) < b ^ (ds.drop k).length :=
    numeralValue_lt fun d hd => h d (List.mem_of_mem_drop hd)
  have hsplit := numeralValue_append (b := b) (ds.take k) (ds.drop k)
  rw [List.take_append_drop] at hsplit
  rw [hsplit, ← List.length_drop, Nat.mul_comm, Nat.mul_add_div (Nat.pow_pos hb),
    Nat.div_eq_of_lt hrest, Nat.add_zero]

/-- Zeros in front of a number do not change its value. -/
theorem numeralValue_replicate_append (k : Nat) (ds : List Nat) :
    numeralValue b (List.replicate k 0 ++ ds) = numeralValue b ds := by
  have hzero : numeralValue b (List.replicate k 0) = 0 := by
    induction k with
    | zero => rfl
    | succ k ih =>
        rw [List.replicate_succ', numeralValue_concat, ih, Nat.zero_mul]
  rw [numeralValue_append, hzero, Nat.zero_mul, Nat.zero_add]

end Clocked
