import KS10.Clocked.NonRestoring
import KS10.Cpu.AluShift

/-!
# The divide chain

A division is a chain of microwords that shift a register and `Q` to the left in the style `DIV`.
The first one subtracts the divisor from the upper word of the dividend.  Each of the others adds
or subtracts the divisor as the carry of the last one tells, and shifts that carry into `Q`: the
chain is a division without restoring, whose quotient is one bit behind its remainder.
-/

namespace KS10

open Clocked

namespace Alu

open Microword

/-! ## The microwords -/

/-- A microword that shifts the sum of the registers `a` and `b`, and `Q`, in the style `DIV`. -/
structure DivWord (crom : Microword) (a b : BitVec 4) : Prop where
  lsrc : cromLSrc crom = 0b001
  rsrc : cromRSrc crom = 0b001
  a : cromAluA crom = a
  b : cromAluB crom = b
  lclken : cromLClken crom = true
  rclken : cromRClken crom = true
  dst : dest crom = dstRAMQU
  style : cromSpecShStyle crom = 0b110
  single : cromMultiPrec crom = false

/-- The first step: subtract the divisor. -/
structure FirstDivStep (crom : Microword) (a b : BitVec 4) : Prop extends DivWord crom a b where
  subr : cromFun crom = 0b001
  cry38 : cromCry38 crom = true
  divide : cromDivide crom = false

/-- Every other step. -/
structure DivStep (crom : Microword) (a b : BitVec 4) : Prop extends DivWord crom a b where
  sums : cromFun crom = 0b000
  cry38 : cromCry38 crom = false
  divide : cromDivide crom = true

variable {s : Alu} {crom : Microword} {aluIN : BitVec 36} {a b : BitVec 4}

variable (aluIN) in
/-- The registers after a step. -/
theorem DivWord.next (h : DivWord crom a b) (hab : a ≠ b) :
    (s.next crom aluIN).aluRAM a = s.aluRAM a ∧
      (s.next crom aluIN).aluRAM b =
        up (s.f crom aluIN) (bit (s.f crom aluIN) 4) (bit s.q 4) ∧
      (s.next crom aluIN).q = up s.q (bit s.q 4) (s.divide_shift crom) ∧
      (s.next crom aluIN).flagCARRYOUT = (s.out crom aluIN).co := by
  have hstyle : shstyle crom = .div := by
    rw [shstyle, h.style]
    rfl
  have hwrite : write crom = true := by
    rw [write, h.dst]
    rfl
  unfold Alu.next
  rw [hwrite, h.b, h.lclken, h.rclken, halves_both, halves_both, bdi, qi, h.dst, hstyle, if_pos rfl]
  exact ⟨Function.update_of_ne hab _ _, Function.update_self b _ s.aluRAM, rfl, rfl⟩

/-- The operands, and the adder. -/
theorem DivWord.out_eq (h : DivWord crom a b) :
    s.out crom aluIN =
      alu (s.func crom) false (s.carry_in crom) (s.aluRAM a) (s.aluRAM b) := by
  have hinh : specCRY18INH crom = false := by
    have hsel : cromSpecSel crom = 0b110 := h.style
    rw [specCRY18INH, spec40, hsel]
    exact Bool.and_false _
  have hr : s.r crom aluIN = s.aluRAM a := by
    have had : s.srcR crom aluIN 0b001 = s.ad crom := rfl
    rw [r, h.lsrc, h.rsrc, had, ad, h.a]
    exact field_append (a := 19) (b := 19) (s.aluRAM a)
  have hs : s.s_ crom = s.aluRAM b := by
    have hbd : s.srcS crom 0b001 = s.bd crom := rfl
    rw [s_, h.lsrc, h.rsrc, hbd, bd, h.b]
    exact field_append (a := 19) (b := 19) (s.aluRAM b)
  rw [out, hinh, hr, hs]

variable (aluIN) in
/-- The first step subtracts with the carry. -/
theorem FirstDivStep.out_eq (h : FirstDivStep crom a b) :
    s.out crom aluIN = add false true (~~~s.aluRAM a) (s.aluRAM b) ∧
      s.divide_shift crom = false := by
  have hfunct : s.funct_02 crom = true := by
    rw [funct_02, h.single, h.divide, h.subr]
    rfl
  have hfunc : s.func crom = 0b001 := by
    rw [func, h.subr, hfunct]
    rfl
  have hcarry : s.carry_in crom = true := by
    rw [carry_in, h.single, h.divide, h.cry38]
    rfl
  refine ⟨?_, ?_⟩
  · rw [h.toDivWord.out_eq, hfunc, hcarry]
    rfl
  · rw [divide_shift, h.divide, Bool.and_false, Bool.false_and]

variable (aluIN) in
/-- Every other step adds or subtracts as the carry of the last one tells. -/
theorem DivStep.out_eq (h : DivStep crom a b) :
    s.out crom aluIN =
        add false s.flagCARRYOUT (if s.flagCARRYOUT then ~~~s.aluRAM a else s.aluRAM a)
          (s.aluRAM b) ∧
      s.divide_shift crom = s.flagCARRYOUT := by
  have hfunct : s.funct_02 crom = s.flagCARRYOUT := by
    rw [funct_02, h.single, h.divide, h.sums]
    exact Bool.or_false _
  have hcarry : s.carry_in crom = s.flagCARRYOUT := by
    rw [carry_in, h.single, h.divide, h.cry38]
    exact Bool.or_false _
  refine ⟨?_, ?_⟩
  · rw [h.toDivWord.out_eq, hcarry, func, h.sums, hfunct]
    cases s.flagCARRYOUT with
    | false => rfl
    | true => rfl
  · rw [divide_shift, h.single, h.divide]
    exact Bool.true_and _

/-! ## Numbers -/

/-- The sum of the adder, and its carry. -/
theorem add_whole (ci : Bool) (x y : BitVec 40) :
    (add false ci x y).f.toNat = (x.toNat + y.toNat + ci.toNat) % 2 ^ 40 ∧
      (add false ci x y).co = decide (2 ^ 40 ≤ x.toNat + y.toNat + ci.toNat) := by
  constructor
  · change ((sum x y ci).setWidth 40).toNat = _
    rw [BitVec.toNat_setWidth, toNat_sum]
  · change (sum x y ci).msb = _
    rw [msb_sum, BitVec.carry_width]

/-- A shift to the left with a bit. -/
theorem toNat_up (x : BitVec 40) (t : Bool) :
    (up x (bit x 4) t).toNat = (2 * x.toNat + t.toNat) % 2 ^ 40 := by
  have hup : up x (bit x 4) t = field x 1 39 ++ BitVec.ofBool t := by
    refine eq_of_bit fun i hi => ?_
    rw [bit_up _ _ _ hi, bit_append]
    split_ifs with hend hlow hsign hlow
    · exact (bit_ofBool t (by omega)).symm
    · omega
    · omega
    · rw [bit_field x (by omega) (by decide) (by decide), hsign]
    · omega
    · rw [bit_field x (by omega) (by decide) (by decide), Nat.add_comm]
  have hfield : (field x 1 39).toNat = x.toNat % 2 ^ 39 := by
    rw [field, BitVec.extractLsb'_toNat]
    rfl
  have ht := Bool.toNat_le t
  rw [hup, toNat_append_eq, hfield, BitVec.toNat_ofBool]
  omega

/-- A number of either sign in a register. -/
theorem toInt_of_toNat {x : BitVec 40} {r : Int} (hlow : -2 ^ 39 ≤ r) (hhigh : r < 2 ^ 39)
    (h : (x.toNat : Int) = r % 2 ^ 40) : x.toInt = r := by
  rw [BitVec.toInt_eq_toNat_cond]
  split <;> omega

/-! ## The chain -/

/-- The part of the dividend that step `n` has taken in. -/
def dividend (high low : BitVec 36) (n : Nat) : Nat := (high ++ low).toNat / 2 ^ (36 - n)

/-- The next bit of the dividend. -/
def nextBit (low : BitVec 36) (n : Nat) : Nat := (low.getLsbD (35 - n)).toNat

theorem dividend_zero (high low : BitVec 36) : dividend high low 0 = high.toNat := by
  rw [dividend, toNat_append_eq]
  have hlow := low.isLt
  omega

theorem dividend_succ (high low : BitVec 36) {n : Nat} (hn : n < 36) :
    dividend high low (n + 1) = 2 * dividend high low n + nextBit low n := by
  obtain ⟨k, hk⟩ := Nat.exists_eq_add_of_lt hn
  have hthis : 36 - n = k + 1 := by omega
  have hnext : 36 - (n + 1) = k := by omega
  have hbit : nextBit low n = (high ++ low).toNat / 2 ^ k % 2 := by
    have hlow : low.getLsbD k = (high ++ low).getLsbD k := by
      rw [BitVec.getLsbD_append, if_pos (by omega)]
    have hpos : 35 - n = k := by omega
    rw [nextBit, hpos, hlow, BitVec.getLsbD, Nat.toNat_testBit]
  rw [dividend, dividend, hthis, hnext, hbit, Nat.pow_succ, ← Nat.div_div_eq_div_mul]
  omega

/-- The registers after step `n`, whose remainder is `r` and whose quotient is `q`. -/
structure Divides (a b : BitVec 4) (d high low : BitVec 36) (n q : Nat) (r : Int) (s : Alu) :
    Prop where
  divided : Divided d.toNat (dividend high low n) q r
  divisor : s.aluRAM a = 0#4 ++ d
  /-- The remainder has been shifted. -/
  remainder : n < 36 → ((s.aluRAM b).toNat : Int) = (2 * r + nextBit low n) % 2 ^ 40
  /-- The quotient follows the rest of the dividend. -/
  quotient : s.q.toNat % 2 ^ 36 = (low.toNat * 2 ^ (n + 1) + q) % 2 ^ 36
  collected : q < 2 ^ n
  /-- The next bit of the quotient. -/
  carry : s.flagCARRYOUT = decide (0 ≤ r)

/-- The bit that leaves `Q` is the next bit of the dividend. -/
theorem bit_q {low : BitVec 36} {n q : Nat} (hn : n < 36) (hlt : q < 2 ^ n)
    (hq : s.q.toNat % 2 ^ 36 = (low.toNat * 2 ^ n + q) % 2 ^ 36) :
    (bit s.q 4).toNat = nextBit low n := by
  have hbit : bit s.q 4 = (s.q.toNat % 2 ^ 36).testBit 35 := by
    rw [Nat.testBit_mod_two_pow]
    rfl
  rw [hbit, hq, Nat.testBit_mod_two_pow, Nat.mul_comm, Nat.testBit_two_pow_mul_add _ hlt,
    if_neg (by omega)]
  rfl

/-- A step of the chain, whose sum is the remainder. -/
theorem Divides.of_sum {d high low : BitVec 36} {n q : Nat} {r : Int} (hword : DivWord crom a b)
    (hab : a ≠ b) (hdivided : Divided d.toNat (dividend high low n)
      (2 * q + (s.divide_shift crom).toNat) r) (hdivisor : s.aluRAM a = 0#4 ++ d)
    (hsum : ((s.f crom aluIN).toNat : Int) = r % 2 ^ 40)
    (hco : (s.out crom aluIN).co = decide (0 ≤ r))
    (hq : s.q.toNat % 2 ^ 36 = (low.toNat * 2 ^ n + q) % 2 ^ 36)
    (hlt : 2 * q + (s.divide_shift crom).toNat < 2 ^ n) :
    Divides a b d high low n (2 * q + (s.divide_shift crom).toNat) r (s.next crom aluIN) := by
  obtain ⟨ha, hb, hshift, hflag⟩ := hword.next (s := s) aluIN hab
  constructor
  case divided => exact hdivided
  case divisor => rw [ha, hdivisor]
  case remainder =>
    intro hn
    rw [hb, toNat_up, bit_q hn (by omega) hq]
    omega
  case quotient =>
    have hmul : low.toNat * 2 ^ (n + 1) = 2 * (low.toNat * 2 ^ n) := by
      rw [Nat.pow_succ, ← Nat.mul_assoc, Nat.mul_comm]
    rw [hshift, toNat_up, hmul]
    omega
  case collected => exact hlt
  case carry => rw [hflag, hco]

variable (aluIN) in
/-- The first step. -/
theorem FirstDivStep.divides (h : FirstDivStep crom a b) (hab : a ≠ b) {d high low : BitVec 36}
    (ha : s.aluRAM a = 0#4 ++ d) (hb : s.aluRAM b = 0#4 ++ high) (hq : field s.q 4 39 = low)
    (hlt : high.toNat < d.toNat) :
    (s.f crom aluIN).toInt = high.toNat - d.toNat ∧
      Divides a b d high low 0 0 (high.toNat - d.toNat) (s.next crom aluIN) := by
  obtain ⟨hout, hshift⟩ := h.out_eq (s := s) aluIN
  obtain ⟨hf, hco⟩ := add_whole true (~~~s.aluRAM a) (s.aluRAM b)
  have hd := d.isLt
  have hna : (s.aluRAM a).toNat = d.toNat := by
    rw [ha, toNat_append_eq]
    exact Nat.zero_add _
  have hnb : (s.aluRAM b).toNat = high.toNat := by
    rw [hb, toNat_append_eq]
    exact Nat.zero_add _
  rw [BitVec.toNat_not, hna, hnb, Bool.toNat_true] at hf hco
  have hsum : ((s.f crom aluIN).toNat : Int) = ((high.toNat : Int) - d.toNat) % 2 ^ 40 := by
    rw [f, hout, hf]
    omega
  have hlow : s.q.toNat % 2 ^ 36 = (low.toNat * 2 ^ 0 + 0) % 2 ^ 36 := by
    have hlt' := low.isLt
    have htoNat := congrArg BitVec.toNat hq
    rw [field, BitVec.extractLsb'_toNat] at htoNat
    have hq' : s.q.toNat % 2 ^ 36 = low.toNat := htoNat
    rw [hq']
    omega
  have hdivided : Divided d.toNat (dividend high low 0) (2 * 0 + (s.divide_shift crom).toNat)
      (high.toNat - d.toNat) := by
    rw [dividend_zero, hshift]
    exact Divided.first hlt
  have hcarry : (s.out crom aluIN).co = decide (0 ≤ (high.toNat : Int) - d.toNat) := by
    rw [hout, hco, decide_eq_decide]
    omega
  refine ⟨toInt_of_toNat (by omega) (by omega) hsum, ?_⟩
  have hnext := Divides.of_sum h.toDivWord hab hdivided ha hsum hcarry hlow (by rw [hshift]; decide)
  rw [hshift] at hnext
  exact hnext

variable (aluIN) in
/-- Every other step. -/
theorem DivStep.divides (h : DivStep crom a b) (hab : a ≠ b) {d high low : BitVec 36}
    {n q : Nat} {r : Int} (hs : Divides a b d high low n q r s) (hn : n < 36) :
    (s.f crom aluIN).toInt = stepOf d.toNat r (nextBit low n) ∧
      Divides a b d high low (n + 1) (2 * q + bitOf r) (stepOf d.toNat r (nextBit low n))
        (s.next crom aluIN) := by
  obtain ⟨hout, hshift⟩ := h.out_eq (s := s) aluIN
  obtain ⟨hf, hco⟩ := add_whole s.flagCARRYOUT
    (if s.flagCARRYOUT then ~~~s.aluRAM a else s.aluRAM a) (s.aluRAM b)
  have hd := d.isLt
  have hlower := hs.divided.lower
  have hupper := hs.divided.upper
  have hbit : nextBit low n ≤ 1 := Bool.toNat_le _
  have hna : (s.aluRAM a).toNat = d.toNat := by
    rw [hs.divisor, toNat_append_eq]
    exact Nat.zero_add _
  have hnb := hs.remainder hn
  have hdivided := hs.divided.step hbit
  rw [← dividend_succ high low hn] at hdivided
  have hcarry : (s.divide_shift crom).toNat = bitOf r := by
    rw [hshift, hs.carry, bitOf]
    split
    · rw [decide_eq_true ‹_›]
      rfl
    · rw [decide_eq_false ‹_›]
      rfl
  have hsum : ((s.f crom aluIN).toNat : Int) = stepOf d.toNat r (nextBit low n) % 2 ^ 40 ∧
      (s.out crom aluIN).co = decide (0 ≤ stepOf d.toNat r (nextBit low n)) := by
    rw [f, hout, hf, hco, hs.carry, stepOf, decide_eq_decide]
    by_cases hr : 0 ≤ r
    · rw [decide_eq_true hr, if_pos rfl, if_pos hr, BitVec.toNat_not, hna, Bool.toNat_true]
      omega
    · rw [decide_eq_false hr, if_neg Bool.false_ne_true, if_neg hr, hna, Bool.toNat_false]
      omega
  have hlt : 2 * q + bitOf r < 2 ^ (n + 1) := by
    have hcollected := hs.collected
    have hone : bitOf r ≤ 1 := by
      unfold bitOf
      split
      · exact Nat.le_refl 1
      · exact Nat.zero_le 1
    rw [Nat.pow_succ]
    omega
  refine ⟨toInt_of_toNat ?_ ?_ hsum.1, ?_⟩
  · have hlower' := hdivided.lower
    omega
  · have hupper' := hdivided.upper
    omega
  · rw [← hcarry] at hdivided hlt ⊢
    exact Divides.of_sum h.toDivWord hab hdivided hs.divisor hsum.1 hsum.2 hs.quotient hlt

/-! ## Every chain -/

/-- The dividend and the divisor in their registers.  The quotient of the dividend can be
represented. -/
structure Starts (a b : BitVec 4) (d high low : BitVec 36) (s : Alu) : Prop where
  registers : a ≠ b
  divisor : s.aluRAM a = 0#4 ++ d
  upper : s.aluRAM b = 0#4 ++ high
  lower : field s.q 4 39 = low
  fits : high.toNat < d.toNat

/-- A chain of the first step and of `n` others. -/
structure Chain (i : Nat → Microword × BitVec 36) (a b : BitVec 4) (n : Nat) : Prop where
  first : FirstDivStep (i 0).1 a b
  steps : ∀ u, 0 < u → u ≤ n → DivStep (i u).1 a b

/-- The remainder of step `n`. -/
def remainderAt (s : Alu) (i : Nat → Microword × BitVec 36) (n : Nat) : Int :=
  ((s.after i n).f (i n).1 (i n).2).toInt

/-- Every step of the chain divides. -/
theorem divides_after {d high low : BitVec 36} {i : Nat → Microword × BitVec 36} {n : Nat}
    (hs : Starts a b d high low s) (hi : Chain i a b n) (hn : n ≤ 36) :
    ∃ q, Divides a b d high low n q (s.remainderAt i n) (s.after i (n + 1)) := by
  induction n with
  | zero =>
      obtain ⟨hf, hnext⟩ := hi.first.divides (i 0).2 hs.registers hs.divisor
        hs.upper hs.lower hs.fits
      refine ⟨0, ?_⟩
      rw [remainderAt]
      rw [← hf] at hnext
      exact hnext
  | succ n ih =>
      obtain ⟨q, hq⟩ := ih ⟨hi.first, fun u hpos hu => hi.steps u hpos (Nat.le_succ_of_le hu)⟩
        (Nat.le_of_succ_le hn)
      obtain ⟨hf, hnext⟩ := (hi.steps (n + 1) (Nat.succ_pos n) (Nat.le_refl _)).divides
        (i (n + 1)).2 hs.registers hq hn
      refine ⟨2 * q + bitOf (s.remainderAt i n), ?_⟩
      rw [← hf] at hnext
      exact hnext

/-- The bits of the quotient that are in `Q` after step `n`. -/
def quotientAt (s : Alu) (i : Nat → Microword × BitVec 36) (n : Nat) : Nat :=
  (s.after i (n + 1)).q.toNat % 2 ^ n

theorem Divides.quotientAt_eq {d high low : BitVec 36} {n q : Nat} {r : Int}
    (h : Divides a b d high low n q r s) (hn : n ≤ 36) : s.q.toNat % 2 ^ n = q := by
  obtain ⟨k, hk⟩ := Nat.exists_eq_add_of_le hn
  have hpow : (2 : Nat) ^ 36 = 2 ^ n * 2 ^ k := by rw [hk, Nat.pow_add]
  have hmod := congrArg (· % 2 ^ n) h.quotient
  rw [hpow, Nat.mod_mul_right_mod, Nat.mod_mul_right_mod] at hmod
  rw [hmod, Nat.pow_succ, Nat.mul_comm (2 ^ n) 2, ← Nat.mul_assoc, Nat.mul_add_mod',
    Nat.mod_eq_of_lt h.collected]

/-- After every step of a chain, which takes in one bit of the lower word, the remainder and the
quotient in `Q` are those of the part of the dividend that has been taken in.  The last bit of
the quotient is the carry. -/
theorem divideChain_run (s : Alu) (i : Nat → Microword × BitVec 36) (a b : BitVec 4)
    (d high low : BitVec 36) (hs : Starts a b d high low s) (n : Nat) (hn : n ≤ 36)
    (hi : Chain i a b n) :
    s.remainderAt i n + d.toNat * (2 * s.quotientAt i n + 1) = dividend high low n ∧
      (-d.toNat ≤ s.remainderAt i n ∧ s.remainderAt i n < d.toNat) ∧
      (s.after i (n + 1)).flagCARRYOUT = decide (0 ≤ s.remainderAt i n) ∧
      2 * s.quotientAt i n + (s.after i (n + 1)).flagCARRYOUT.toNat =
        dividend high low n / d.toNat := by
  obtain ⟨q, hq⟩ := divides_after hs hi hn
  have hdivided := hq.divided
  rw [quotientAt, hq.quotientAt_eq hn]
  refine ⟨hdivided.sum, ⟨hdivided.lower, hdivided.upper⟩, hq.carry, ?_⟩
  rw [hdivided.quotient, hq.carry, bitOf]
  split
  · rw [decide_eq_true ‹_›]
    rfl
  · rw [decide_eq_false ‹_›]
    rfl

/-! ## A dividend of zero -/

/-- Zero is to be divided by 1, which is in register 1. -/
def zeroByOne : Alu where
  aluRAM := fun k => if k = 1 then 1 else 0
  q := 0
  flagFL02 := false
  flagQR37 := false
  flagCARRY02 := false
  flagFUNCT02 := false
  flagCARRYOUT := false

/-- The fields that all steps with the registers 1 and 0 have. -/
def divWord : Microword :=
  0b001 <<< (107 - 17) ||| 0b001 <<< (107 - 20) ||| 0b100 <<< (107 - 23) ||| 1 <<< (107 - 29) |||
    1 <<< (107 - 45) ||| 1 <<< (107 - 48) ||| 0b110 <<< (107 - 56)

def firstWord : Microword := divWord ||| 0b001 <<< (107 - 14) ||| 1 <<< (107 - 72)
def otherWord : Microword := divWord ||| 1 <<< (107 - 77)

def chainWords (n : Nat) : Microword × BitVec 36 := (if n = 0 then firstWord else otherWord, 0)

theorem chainWords_chain (n : Nat) : Chain chainWords 1 0 n where
  first :=
    ⟨⟨by decide, by decide, by decide, by decide, by decide, by decide, by decide, by decide,
      by decide⟩, by decide, by decide, by decide⟩
  steps u hpos _ := by
    have hword : (chainWords u).1 = otherWord := if_neg (Nat.pos_iff_ne_zero.mp hpos)
    rw [hword]
    exact ⟨⟨by decide, by decide, by decide, by decide, by decide, by decide, by decide, by decide,
      by decide⟩, by decide, by decide, by decide⟩

theorem zeroByOne_starts : Starts 1 0 1 0 0 zeroByOne :=
  ⟨by decide, by decide, by decide, by decide, by decide⟩

theorem divideChain_run_zeroByOne :
    zeroByOne.remainderAt chainWords 36 + 1 * (2 * zeroByOne.quotientAt chainWords 36 + 1) = 0 :=
  (divideChain_run zeroByOne chainWords 1 0 1 0 0 zeroByOne_starts 36 (Nat.le_refl 36)
    (chainWords_chain 36)).1

/-- The remainder of a dividend of zero is the divisor with its sign changed. -/
theorem divideChain_fails : ¬ ∀ (s : Alu) (i : Nat → Microword × BitVec 36) (a b : BitVec 4)
    (d high low : BitVec 36) (n : Nat), Starts a b d high low s → n ≤ 36 → Chain i a b n →
      -(d.toNat : Int) < s.remainderAt i n ∧ s.remainderAt i n < d.toNat := by
  intro h
  have hbounds := h zeroByOne chainWords 1 0 1 0 0 1 zeroByOne_starts (by decide)
    (chainWords_chain 1)
  have hremainder : zeroByOne.remainderAt chainWords 1 = -1 := by decide +kernel
  rw [hremainder] at hbounds
  exact Int.lt_irrefl _ hbounds.1

end Alu

end KS10
