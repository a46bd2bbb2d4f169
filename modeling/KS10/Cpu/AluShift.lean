import KS10.Cpu.Alu
import Mathlib.Tactic.SplitIfs

/-!
# Double-word shifts

A combined shift moves a register of the ALU and `Q` together, by one place at every step.  Two
words of 36 bits stand at the lower end of the two, below four bits of sign, and form a ring of
72 bits.  The styles `ROTC` and `LSHC` rotate and shift the ring.

In the style `ASHC` the sign is above the ring, in the four bits of the register that the ring
leaves, and all 72 bits of the ring are shifted: a shift to the left keeps the sign above, and a
shift to the right shifts it in.
-/

namespace KS10

open Clocked

namespace Alu

open Microword

/-! ## The ring -/

/-- The two words. -/
def ring (f q : BitVec 40) : BitVec 72 := field f 4 39 ++ field q 4 39

theorem bit_ofBool (b : Bool) {k : Nat} (hk : k = 0) : bit (BitVec.ofBool b) k = b := by
  rw [hk]
  cases b with
  | false => rfl
  | true => rfl

theorem bit_up (x : BitVec 40) (b₃ b₃₉ : Bool) {k : Nat} (hk : k < 40) :
    bit (up x b₃ b₃₉) k = if k = 39 then b₃₉ else if k = 3 then b₃ else bit x (k + 1) := by
  unfold up
  rw [bit_append, bit_append, bit_append]
  split_ifs
  all_goals first
    | omega
    | exact bit_ofBool _ (by omega)
    | rw [bit_field x (by omega) (by decide) (by decide)]; congr 1; omega

theorem bit_down (x : BitVec 40) (b₀ b₄ : Bool) {k : Nat} (hk : k < 40) :
    bit (down x b₀ b₄) k = if k = 0 then b₀ else if k = 4 then b₄ else bit x (k - 1) := by
  unfold down
  rw [bit_append, bit_append, bit_append]
  split_ifs
  all_goals first
    | omega
    | exact bit_ofBool _ (by omega)
    | rw [bit_field x (by omega) (by decide) (by decide)]; congr 1; omega

theorem bit_ring (f q : BitVec 40) {i : Nat} (hi : i < 72) :
    bit (ring f q) i = if 36 ≤ i then bit q (i - 32) else bit f (i + 4) := by
  have hfield (x : BitVec 40) {k : Nat} (hk : k < 36) : bit (field x 4 39) k = bit x (4 + k) :=
    bit_field x (by omega) (by decide) (by decide)
  unfold ring
  refine (bit_append (field f 4 39) (field q 4 39) i).trans ?_
  split
  · rename_i hge
    rw [hfield q (by omega)]
    congr 1
    omega
  · rename_i hlt
    rw [hfield f (by omega), Nat.add_comm]

/-- A combined shift to the left. -/
theorem bit_ring_up (f q : BitVec 40) (b₃ c₃ b : Bool) {i : Nat} (hi : i < 72) :
    bit (ring (up f b₃ (bit q 4)) (up q c₃ b)) i =
      if i = 71 then b else bit (ring f q) (i + 1) := by
  rw [bit_ring _ _ hi]
  split
  · rename_i hlow
    rw [bit_up _ _ _ (by omega), if_neg (by omega : ¬ i - 32 = 3)]
    split_ifs with hend hend' hend'
    · rfl
    · omega
    · omega
    · rw [bit_ring _ _ (by omega), if_pos (by omega)]
      congr 1
      omega
  · rename_i hhigh
    rw [bit_up _ _ _ (by omega), if_neg (by omega : ¬ i + 4 = 3), if_neg (by omega : ¬ i = 71),
      bit_ring _ _ (by omega)]
    split_ifs with hend hlow hlow
    · congr 1
      omega
    · omega
    · omega
    · congr 1

/-- A combined shift to the right. -/
theorem bit_ring_down (f q : BitVec 40) (b₀ c₀ b : Bool) {i : Nat} (hi : i < 72) :
    bit (ring (down f b₀ b) (down q c₀ (bit f 39))) i =
      if i = 0 then b else bit (ring f q) (i - 1) := by
  rw [bit_ring _ _ hi]
  split
  · rename_i hlow
    rw [bit_down _ _ _ (by omega), if_neg (by omega : ¬ i - 32 = 0), if_neg (by omega : ¬ i = 0),
      bit_ring _ _ (by omega)]
    split_ifs with hend hlow' hlow'
    · omega
    · congr 1
      omega
    · congr 1
    · omega
  · rename_i hhigh
    rw [bit_down _ _ _ (by omega), if_neg (by omega : ¬ i + 4 = 0)]
    split_ifs with hend hend' hend'
    · rfl
    · omega
    · omega
    · rw [bit_ring _ _ (by omega), if_neg (by omega)]
      congr 1
      omega

/-! ## One place -/

theorem bit_rotateLeft (x : BitVec 72) (n : Nat) {i : Nat} (hi : i < 72) :
    bit (x.rotateLeft n) i = bit x ((n + i) % 72) := by
  unfold bit
  rw [BitVec.getMsbD_rotateLeft, decide_eq_true hi, Bool.true_and]

theorem bit_rotateRight (x : BitVec 72) (n : Nat) {i : Nat} (hi : i < 72) :
    bit (x.rotateRight n) i = bit x ((i + 72 - n % 72) % 72) := by
  unfold bit
  rw [BitVec.getMsbD_rotateRight, decide_eq_true hi, Bool.true_and]
  split_ifs with hlow
  · rw [Nat.add_comm]
  · congr 1
    omega

/-- Two registers with the same bits are the same. -/
theorem ring_rotc_up (f q : BitVec 40) (b₃ c₃ : Bool) :
    ring (up f b₃ (bit q 4)) (up q c₃ (bit f 4)) = (ring f q).rotateLeft 1 := by
  refine eq_of_bit fun i hi => ?_
  rw [bit_ring_up f q b₃ c₃ (bit f 4) hi, bit_rotateLeft _ _ hi]
  split_ifs with hend
  · rw [hend]
    exact ((bit_ring f q (by decide : 0 < 72)).trans (if_neg (by decide))).symm
  · congr 1
    omega

theorem ring_rotc_down (f q : BitVec 40) (b₀ c₀ : Bool) :
    ring (down f b₀ (bit q 39)) (down q c₀ (bit f 39)) = (ring f q).rotateRight 1 := by
  refine eq_of_bit fun i hi => ?_
  rw [bit_ring_down f q b₀ c₀ (bit q 39) hi, bit_rotateRight _ _ hi]
  split_ifs with hend
  · rw [hend]
    exact ((bit_ring f q (by decide : 71 < 72)).trans (if_pos (by decide))).symm
  · congr 1
    omega

theorem ring_shift_up (f q : BitVec 40) (b₃ c₃ : Bool) :
    ring (up f b₃ (bit q 4)) (up q c₃ false) = ring f q <<< 1 := by
  refine eq_of_bit fun i hi => ?_
  rw [bit_ring_up f q b₃ c₃ false hi, bit, bit, BitVec.getMsbD_shiftLeft]
  split_ifs with hend
  · rw [hend]
    exact (BitVec.getMsbD_of_ge _ _ (by decide)).symm
  · rfl

theorem ring_shift_down (f q : BitVec 40) (b₀ c₀ : Bool) :
    ring (down f b₀ false) (down q c₀ (bit f 39)) = ring f q >>> 1 := by
  refine eq_of_bit fun i hi => ?_
  rw [bit_ring_down f q b₀ c₀ false hi, bit, bit, BitVec.getMsbD_ushiftRight, decide_eq_true hi,
    Bool.true_and]
  split_ifs with hend
  · rw [hend]
    rfl
  · have hlt : ¬ i < 1 := by omega
    rw [decide_eq_false hlt]
    rfl

/-- A shift to the right takes the sign above the ring into it. -/
theorem ring_sign_down (f q : BitVec 40) (sign b₀ c₀ : Bool) :
    BitVec.ofBool sign ++ ring (down f b₀ sign) (down q c₀ (bit f 39)) =
      (BitVec.ofBool sign ++ ring f q).sshiftRight 1 := by
  have hmsb : (BitVec.ofBool sign ++ ring f q).msb = sign := by
    rw [BitVec.msb_append, if_neg (by decide)]
    exact bit_ofBool sign rfl
  refine eq_of_bit fun i hi => ?_
  have hright : bit ((BitVec.ofBool sign ++ ring f q).sshiftRight 1) i =
      if i < 1 then sign else bit (BitVec.ofBool sign ++ ring f q) (i - 1) := by
    rw [bit, BitVec.getMsbD_sshiftRight, hmsb, decide_eq_true hi, Bool.true_and]
    rfl
  rw [hright, bit_append, bit_append]
  split_ifs with h₁ h₂ h₃ h₄
  · omega
  · rw [bit_ring_down _ _ _ _ _ (by omega), if_neg (by omega)]
  · rw [bit_ring_down _ _ _ _ _ (by omega), if_pos (by omega)]
    exact (bit_ofBool sign (by omega)).symm
  · exact bit_ofBool sign (by omega)
  · omega
  · omega

/-! ## The styles -/

/-- The combined shifts. -/
inductive Combined where
  | rotc | lshc | ashc
  deriving DecidableEq

namespace Combined

def style : Combined → ShStyle
  | rotc => .rotc
  | lshc => .lshc
  | ashc => .ashc

/-- The ring under `sign`, shifted by `n` places. -/
def shifted (c : Combined) (left sign : Bool) (x : BitVec 72) (n : Nat) : BitVec 72 :=
  match c, left with
  | rotc, true => x.rotateLeft n
  | rotc, false => x.rotateRight n
  | lshc, true => x <<< n
  | lshc, false => x >>> n
  | ashc, true => x <<< n
  | ashc, false => ((BitVec.ofBool sign ++ x).sshiftRight n).setWidth 72

/-- The ring is below its sign. -/
theorem setWidth_sign (sign : Bool) (x : BitVec 72) :
    (BitVec.ofBool sign ++ x).setWidth 72 = x := by
  refine BitVec.eq_of_toNat_eq ?_
  rw [BitVec.toNat_setWidth, toNat_append_eq, Nat.mul_add_mod', Nat.mod_eq_of_lt x.isLt]

theorem sign_setWidth {sign : Bool} {y : BitVec 73} (h : y.msb = sign) :
    BitVec.ofBool sign ++ y.setWidth 72 = y := by
  rw [← h]
  exact BitVec.cons_msb_setWidth y

theorem msb_sign (sign : Bool) (x : BitVec 72) : (BitVec.ofBool sign ++ x).msb = sign := by
  rw [BitVec.msb_append, if_neg (by decide)]
  exact bit_ofBool sign rfl

theorem shifted_zero (c : Combined) (left sign : Bool) (x : BitVec 72) :
    c.shifted left sign x 0 = x := by
  cases c with
  | rotc =>
      cases left with
      | true => exact eq_of_bit fun i hi => by rw [shifted, bit_rotateLeft _ _ hi]; congr 1; omega
      | false => exact eq_of_bit fun i hi => by rw [shifted, bit_rotateRight _ _ hi]; congr 1; omega
  | lshc =>
      cases left with
      | true => exact BitVec.shiftLeft_zero x
      | false => exact BitVec.ushiftRight_zero x
  | ashc =>
      cases left with
      | true => exact BitVec.shiftLeft_zero x
      | false => rw [shifted, BitVec.sshiftRight_zero, setWidth_sign]

theorem shifted_succ (c : Combined) (left sign : Bool) (x : BitVec 72) (n : Nat) :
    c.shifted left sign x (n + 1) = c.shifted left sign (c.shifted left sign x n) 1 := by
  cases c with
  | rotc =>
      cases left with
      | true =>
          refine eq_of_bit fun i hi => ?_
          simp only [shifted]
          rw [bit_rotateLeft _ _ hi, bit_rotateLeft _ _ hi,
            bit_rotateLeft _ _ (Nat.mod_lt _ (by decide))]
          congr 1
          omega
      | false =>
          refine eq_of_bit fun i hi => ?_
          simp only [shifted]
          rw [bit_rotateRight _ _ hi, bit_rotateRight _ _ hi,
            bit_rotateRight _ _ (Nat.mod_lt _ (by decide))]
          congr 1
          omega
  | lshc =>
      cases left with
      | true => exact BitVec.shiftLeft_add x n 1
      | false => exact BitVec.shiftRight_add x n 1
  | ashc =>
      cases left with
      | true => exact BitVec.shiftLeft_add x n 1
      | false =>
          have hmsb : ((BitVec.ofBool sign ++ x).sshiftRight n).msb = sign := by
            rw [BitVec.msb_sshiftRight, msb_sign]
          simp only [shifted]
          rw [sign_setWidth hmsb, BitVec.sshiftRight_add]

end Combined

/-- The four bits above the ring are the sign. -/
def Signed (f : BitVec 40) (sign : Bool) : Prop := ∀ k, k < 4 → bit f k = sign

/-- The destination of a combined shift. -/
def dstOf (left : Bool) : BitVec 3 := if left then dstRAMQU else dstRAMQD

/-- One place of the register and of `Q`. -/
theorem ring_step (c : Combined) (left sign : Bool) (f q : BitVec 40)
    (hsign : c = .ashc → bit f 3 = sign) :
    ring (shiftF (dstOf left) c.style false f q) (shiftQ (dstOf left) c.style false f q) =
      c.shifted left sign (ring f q) 1 := by
  cases c with
  | rotc =>
      cases left with
      | true => exact ring_rotc_up f q (bit f 0) (bit q 4)
      | false => exact ring_rotc_down f q (bit f 0) false
  | lshc =>
      cases left with
      | true => exact ring_shift_up f q (bit f 4) (bit q 4)
      | false => exact ring_shift_down f q (bit f 0) false
  | ashc =>
      cases left with
      | true => exact ring_shift_up f q (bit f 0) (bit q 4)
      | false =>
          have hstep := ring_sign_down f q (bit f 3) (bit f 0) false
          have hring := congrArg (BitVec.setWidth 72) hstep
          rw [Combined.setWidth_sign] at hring
          rw [Combined.shifted, ← hsign rfl]
          exact hring

theorem signed_step {f q : BitVec 40} {sign : Bool} (h : Signed f sign) (left : Bool) :
    Signed (shiftF (dstOf left) .ashc false f q) sign := by
  intro k hk
  cases left with
  | true =>
      refine (bit_up f (bit f 0) (bit q 4) (by omega)).trans ?_
      rw [if_neg (by omega : ¬ k = 39)]
      split_ifs with htop
      · exact h 0 (by decide)
      · exact h (k + 1) (by omega)
  | false =>
      refine (bit_down f (bit f 0) (bit f 3) (by omega)).trans ?_
      rw [if_neg (by omega : ¬ k = 4)]
      split_ifs with htop
      · exact h 0 (by decide)
      · exact h (k - 1) (by omega)

/-! ## The microword -/

/-- The microword passes register `b` through the ALU and shifts it together with `Q`. -/
structure Shifts (crom : Microword) (b : BitVec 4) (left : Bool) (style : ShStyle) : Prop where
  pass : cromFun crom = 0b011
  lsrc : cromLSrc crom = 0b100
  rsrc : cromRSrc crom = 0b100
  a : cromAluA crom = b
  b : cromAluB crom = b
  lclken : cromLClken crom = true
  rclken : cromRClken crom = true
  dst : dest crom = dstOf left
  style : shstyle crom = style
  single : cromMultiPrec crom = false
  divide : cromDivide crom = false

variable {s : Alu} {crom : Microword} {aluIN : BitVec 36} {b : BitVec 4} {left : Bool}
  {style : ShStyle}

theorem Shifts.f_eq (h : Shifts crom b left style) : s.f crom aluIN = s.aluRAM b := by
  have hfunct : s.funct_02 crom = true := by
    rw [funct_02, h.single, h.divide, h.pass]
    rfl
  have hfunc : s.func crom = 0b011 := by
    rw [func, h.pass, hfunct]
    rfl
  have hr : s.r crom aluIN = 0 := by
    have hzero : s.srcR crom aluIN 0b100 = 0 := rfl
    rw [r, h.lsrc, h.rsrc, hzero]
    decide
  have hs : s.s_ crom = s.aluRAM b := by
    have had : s.srcS crom 0b100 = s.ad crom := rfl
    rw [s_, h.lsrc, h.rsrc, had, ad, h.a]
    exact field_append (a := 19) (b := 19) (s.aluRAM b)
  rw [f, out, hfunc, hr, hs]
  exact BitVec.zero_or

variable (aluIN) in
/-- The register and `Q` after one place. -/
theorem Shifts.next (h : Shifts crom b left style) :
    (s.next crom aluIN).aluRAM b = shiftF (dstOf left) style false (s.aluRAM b) s.q ∧
      (s.next crom aluIN).q = shiftQ (dstOf left) style false (s.aluRAM b) s.q := by
  have hmulti : s.multi_shift crom = false := by
    rw [multi_shift, h.single, Bool.false_and]
  have hdivide : s.divide_shift crom = false := by
    rw [divide_shift, h.divide, Bool.and_false, Bool.false_and]
  have hwrite : write crom = true := by
    rw [write, h.dst]
    cases left with
    | true => rfl
    | false => rfl
  unfold Alu.next
  rw [hwrite, h.b, h.lclken, h.rclken, halves_both, halves_both, bdi, qi, h.dst, h.style, hmulti,
    hdivide, h.f_eq, if_pos rfl]
  exact ⟨Function.update_self b _ s.aluRAM, rfl⟩

/-! ## Every run -/

/-- The ring of register `b`. -/
def ringOf (s : Alu) (b : BitVec 4) : BitVec 72 := ring (s.aluRAM b) s.q

/-- `n` places are a shift by `n`. -/
theorem ringOf_after {i : Nat → Microword × BitVec 36} {c : Combined} (sign : Bool) {n : Nat}
    (h : ∀ u, u < n → Shifts (i u).1 b left c.style)
    (hsign : c = .ashc → Signed (s.aluRAM b) sign) :
    (s.after i n).ringOf b = c.shifted left sign (s.ringOf b) n ∧
      (c = .ashc → Signed ((s.after i n).aluRAM b) sign) := by
  induction n with
  | zero => exact ⟨(c.shifted_zero left sign (s.ringOf b)).symm, hsign⟩
  | succ n ih =>
      obtain ⟨hring, hsigned⟩ := ih fun u hu => h u (Nat.lt_succ_of_lt hu)
      obtain ⟨hf, hq⟩ := (h n (Nat.lt_succ_self n)).next (s := s.after i n) (i n).2
      have hnext : s.after i (n + 1) = (s.after i n).next (i n).1 (i n).2 := rfl
      constructor
      · rw [hnext, ringOf, hf, hq, ring_step c left sign _ _ fun hc => hsigned hc 3 (by decide),
          c.shifted_succ left sign _ n, ← hring]
        rfl
      · rintro rfl
        rw [hnext, hf]
        exact signed_step (hsigned rfl) left

/-- What combined shifts do to a register and `Q`. -/
structure Doubles (s : Alu) (i : Nat → Microword × BitVec 36) (b : BitVec 4) : Prop where
  /-- `n` places are a shift of the ring by `n`, and an arithmetic shift keeps the sign. -/
  places : ∀ (c : Combined) (left sign : Bool) (n : Nat),
    (∀ u, u < n → Shifts (i u).1 b left c.style) → (c = .ashc → Signed (s.aluRAM b) sign) →
      (s.after i n).ringOf b = c.shifted left sign (s.ringOf b) n ∧
        (c = .ashc → Signed ((s.after i n).aluRAM b) sign)
  /-- A rotation to the right undoes one to the left. -/
  back : ∀ n, (∀ u, u < n → Shifts (i u).1 b true .rotc) →
    (∀ u, n ≤ u → u < n + n → Shifts (i u).1 b false .rotc) →
      (s.after i (n + n)).ringOf b = s.ringOf b
  /-- A rotation by all places changes nothing. -/
  around : ∀ left, (∀ u, u < 72 → Shifts (i u).1 b left .rotc) →
    (s.after i 72).ringOf b = s.ringOf b

theorem rotateRight_rotateLeft (x : BitVec 72) (n : Nat) :
    (x.rotateLeft n).rotateRight n = x := by
  refine eq_of_bit fun i hi => ?_
  rw [bit_rotateRight _ _ hi, bit_rotateLeft _ _ (Nat.mod_lt _ (by decide))]
  congr 1
  omega

/-- Combined shifts of any register, by any number of places. -/
theorem doubleShift_run (s : Alu) (i : Nat → Microword × BitVec 36) (b : BitVec 4) :
    Doubles s i b where
  places c left sign n h hsign := ringOf_after sign h hsign
  back n hleft hright := by
    have hfirst := (ringOf_after (s := s) (c := .rotc) false hleft nofun).1
    have hadd : s.after i (n + n) = (s.after i n).after (fun u => i (n + u)) n :=
      run_add _ s i n n
    have hsecond := (ringOf_after (s := s.after i n) (i := fun u => i (n + u)) (c := .rotc)
      (n := n) false (fun u hu => hright (n + u) (by omega) (by omega)) nofun).1
    rw [hadd, hsecond, hfirst]
    exact rotateRight_rotateLeft (s.ringOf b) n
  around left h := by
    rw [(ringOf_after (s := s) (c := .rotc) false h nofun).1]
    refine eq_of_bit fun i hi => ?_
    cases left with
    | true =>
        rw [Combined.shifted, bit_rotateLeft _ _ hi]
        congr 1
        omega
    | false =>
        rw [Combined.shifted, bit_rotateRight _ _ hi]
        congr 1
        omega

/-! ## The sign in the ring -/

/-- A shift of the ring to the left that would keep its top bit. -/
def ashLeft (x : BitVec 72) (n : Nat) : BitVec 72 := BitVec.ofBool x.msb ++ x.setWidth 71 <<< n

/-- A register with one bit below the top of the ring. -/
def small : Alu where
  aluRAM := fun _ => 1 <<< 34
  q := 0
  flagFL02 := false
  flagQR37 := false
  flagCARRY02 := false
  flagFUNCT02 := false
  flagCARRYOUT := false

/-- Shift the register to the left in the style `ASHC`. -/
def ashcLeft : Microword :=
  0b011 <<< (107 - 14) ||| 0b100 <<< (107 - 17) ||| 0b100 <<< (107 - 20) |||
    0b100 <<< (107 - 23) ||| 1 <<< (107 - 45) ||| 1 <<< (107 - 48) ||| 0b100 <<< (107 - 56)

theorem ashcLeft_shifts : Shifts ashcLeft 0 true .ashc :=
  ⟨by decide, by decide, by decide, by decide, by decide, by decide, by decide, by decide,
    by decide, by decide, by decide⟩

theorem doubleShift_run_small :
    (small.after (fun _ => (ashcLeft, 0)) 3).ringOf 0 = small.ringOf 0 <<< 3 := by
  have hsigned : Signed (small.aluRAM 0) false := by
    intro k hk
    obtain rfl | rfl | rfl | rfl : k = 0 ∨ k = 1 ∨ k = 2 ∨ k = 3 := by omega
    · decide
    · decide
    · decide
    · decide
  exact ((doubleShift_run small (fun _ => (ashcLeft, 0)) 0).places .ashc true false 3
    (fun _ _ => ashcLeft_shifts) fun _ => hsigned).1

/-- The shift to the left moves a bit into the top of the ring, where the sign was. -/
theorem doubleShift_fails : ¬ ∀ (s : Alu) (i : Nat → Microword × BitVec 36) (b : BitVec 4)
    (n : Nat), (∀ u, u < n → Shifts (i u).1 b true .ashc) →
      Signed (s.aluRAM b) (bit (s.aluRAM b) 4) →
        (s.after i n).ringOf b = ashLeft (s.ringOf b) n := by
  intro h
  have hsigned : Signed (small.aluRAM 0) (bit (small.aluRAM 0) 4) := by
    intro k hk
    obtain rfl | rfl | rfl | rfl : k = 0 ∨ k = 1 ∨ k = 2 ∨ k = 3 := by omega
    · decide
    · decide
    · decide
    · decide
  have hring := h small (fun _ => (ashcLeft, 0)) 0 1 (fun _ _ => ashcLeft_shifts) hsigned
  have htop := congrArg (bit · 0) hring
  revert htop
  decide +kernel

end Alu

end KS10
