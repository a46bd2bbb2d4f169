import KS10.Clocked.Booth
import KS10.Micro.Numbers
import KS10.Micro.Rom

/-!
# The multiply subroutine

The subroutines MULSUB and MULTIPLY of the microcode, over the microwords of the listing.  A step
of the loop adds the multiplicand BRX to the partial product ARX, subtracts it, or leaves it, and
shifts ARX and `Q` together to the right: the product comes into `Q` where the multiplier leaves
it.  Whether the last bit of the multiplier was a one is kept in the address of the microword,
and the bit after it comes from the dispatch: the loop is Booth's recoding.

The bit that a dispatch sees has left `Q` one microword before.  The loop therefore begins one
step late, with a bit of zero (`Multiplying`), and its step counter ends it one step late.
-/

namespace KS10

open Clocked

namespace Micro

/-! ## The listing -/

/-- The microwords of the subroutines in the control ROM. -/
structure MultiplyListing (rom : MicroAddr → Microword) : Prop where
  mulsub : rom 0o3017 = 0o3020_3446_0606_4174_4007_0700_0000_0000_0000
  mulsb1 : rom 0o3020 = 0o0122_4226_0004_4174_4007_0630_2000_0060_0000
  multiply : rom 0o3021 = 0o0122_3446_1200_4174_4007_0630_2000_0060_0000
  mulPlus0 : rom 0o0122 = 0o0122_3336_0604_4174_4046_2630_2000_0060_0000
  mulPlus0Done : rom 0o0123 = 0o0004_3334_0604_4174_4004_1700_0000_0000_0000
  mulPlus1 : rom 0o0126 = 0o0142_1116_0604_4174_4046_2630_6000_0060_0000
  mulPlus1Done : rom 0o0127 = 0o0004_1114_0604_4174_4004_1700_4000_0000_0000
  mulMinus0 : rom 0o0142 = 0o0122_0116_0604_4174_4046_2630_2000_0060_0000
  mulMinus0Done : rom 0o0143 = 0o0004_0114_0604_4174_4004_1700_0000_0000_0000
  mulMinus1 : rom 0o0146 = 0o0142_3336_0604_4174_4046_2630_2000_0060_0000
  mulMinus1Done : rom 0o0147 = 0o0004_3334_0604_4174_4004_1700_0000_0000_0000

theorem multiplyListing : MultiplyListing ks10Rom := by
  constructor
  all_goals rfl

/-- The microword of the loop for the bit `b` of the multiplier, after the bit `prev`. -/
def loopAddr (prev b done : Bool) : MicroAddr :=
  (if b then 4 else 0) ||| (if done then 1 else 0) ||| if prev then 0o142 else 0o122

/-- What it asks of the ALU. -/
def loopOp (prev b done : Bool) : Alu.Op where
  func := if prev = b then 0b011 else if b then 0b001 else 0b000
  cry38 := !prev && b
  src := if prev = b then 0b011 else 0b001
  a := brx
  b := arx
  dest := if done then Alu.dstRAMQU else Alu.dstRAMQD
  style := if done then .norm else .ashc
  lclken := true
  rclken := true

/-- Where it goes on. -/
def loopNext (b done : Bool) : Control :=
  if done then { j := 4, disp := 0o41 }
  else { j := if b then 0o0142 else 0o0122, disp := 0o62, skip := 0o63, count := .step }

variable {rom : MicroAddr → Microword}

/-- The microwords of the loop. -/
theorem MultiplyListing.step (h : MultiplyListing rom) (prev b : Bool) :
    Word (rom (loopAddr prev b false)) (loopOp prev b false) (loopNext b false) := by
  cases prev with
  | false =>
      cases b with
      | false =>
          change Word (rom 0o0122) _ _
          rw [h.mulPlus0]
          decide
      | true =>
          change Word (rom 0o0126) _ _
          rw [h.mulPlus1]
          decide
  | true =>
      cases b with
      | false =>
          change Word (rom 0o0142) _ _
          rw [h.mulMinus0]
          decide
      | true =>
          change Word (rom 0o0146) _ _
          rw [h.mulMinus1]
          decide

/-- The microwords that end it. -/
theorem MultiplyListing.last (h : MultiplyListing rom) (prev b : Bool) :
    Word (rom (loopAddr prev b true)) (loopOp prev b true) (loopNext b true) ∧
      Useq.ret (rom (loopAddr prev b true)) = true := by
  cases prev with
  | false =>
      cases b with
      | false =>
          change Word (rom 0o0123) _ _ ∧ Useq.ret (rom 0o0123) = true
          rw [h.mulPlus0Done]
          decide
      | true =>
          change Word (rom 0o0127) _ _ ∧ Useq.ret (rom 0o0127) = true
          rw [h.mulPlus1Done]
          decide
  | true =>
      cases b with
      | false =>
          change Word (rom 0o0143) _ _ ∧ Useq.ret (rom 0o0143) = true
          rw [h.mulMinus0Done]
          decide
      | true =>
          change Word (rom 0o0147) _ _ ∧ Useq.ret (rom 0o0147) = true
          rw [h.mulMinus1Done]
          decide

/-! ## The partial product -/

/-- The sum of a step. -/
theorem loopOp_f (prev b done : Bool) (s : Alu) (d : BitVec 36)
    (h : Alu.Fits ((s.aluRAM arx).toInt + (prev.toNat - b.toNat : Int) * (s.aluRAM brx).toInt)) :
    ((loopOp prev b done).f s d).toInt =
      (s.aluRAM arx).toInt + (prev.toNat - b.toNat : Int) * (s.aluRAM brx).toInt := by
  have hsame : (loopOp b b done).f s d = s.aluRAM arx := by
    cases b with
    | false => exact BitVec.zero_or
    | true => exact BitVec.zero_or
  cases prev with
  | false =>
      cases b with
      | false =>
          rw [hsame]
          simp
      | true =>
          have hf : (loopOp false true done).f s d =
              (Alu.add false true (~~~s.aluRAM brx) (s.aluRAM arx)).f := rfl
          have hdigit : (s.aluRAM arx).toInt +
              ((false.toNat : Int) - true.toNat) * (s.aluRAM brx).toInt =
                (s.aluRAM arx).toInt - (s.aluRAM brx).toInt := by
            simp [Int.sub_eq_add_neg]
          rw [hdigit] at h ⊢
          rw [hf, Alu.toInt_sub_f h]
  | true =>
      cases b with
      | false =>
          have hf : (loopOp true false done).f s d =
              (Alu.add false false (s.aluRAM brx) (s.aluRAM arx)).f := rfl
          have hdigit : (s.aluRAM arx).toInt +
              ((true.toNat : Int) - false.toNat) * (s.aluRAM brx).toInt =
                (s.aluRAM brx).toInt + (s.aluRAM arx).toInt := by
            simp [Int.add_comm]
          rw [hdigit] at h ⊢
          rw [hf, Alu.toInt_add_f h]
      | true =>
          rw [hsame]
          simp

/-- The registers after a step. -/
theorem loopOp_next (prev b : Bool) (s : Alu) (d : BitVec 36) :
    let f := (loopOp prev b false).f s d
    ((loopOp prev b false).next s d).aluRAM =
        Function.update s.aluRAM arx (Alu.down f (bit f 0) (bit f 3)) ∧
      ((loopOp prev b false).next s d).q = Alu.down s.q false (bit f 39) ∧
      ((loopOp prev b false).next s d).flagQR37 = bit s.q 39 :=
  ⟨rfl, rfl, rfl⟩

/-- The registers after the last step. -/
theorem loopOp_done (prev b : Bool) (s : Alu) (d : BitVec 36) :
    let f := (loopOp prev b true).f s d
    ((loopOp prev b true).next s d).aluRAM =
        Function.update s.aluRAM arx (Alu.up f (bit f 4) false) ∧
      ((loopOp prev b true).next s d).q = Alu.up s.q (bit s.q 4) false :=
  ⟨rfl, rfl⟩

/-! ## The loop -/

/-- A multiplicand or an addend that keeps the sums in the range of the registers. -/
def Small (z : Int) : Prop := -2 ^ 37 ≤ z ∧ z < 2 ^ 37

/-- Step `k` of the loop is to come.  The loop has been entered at `v₀` with the multiplier `m`
and `n` in the step counter; a zero stands below the multiplier. -/
structure Multiplying (v₀ : View) (m n k : Nat) (v : View) : Prop where
  pc : v.pc = loopAddr (below (2 * m) k) ((2 * m).testBit k) (decide (k = n + 1))
  stack : v.stack = v₀.stack
  pcFlags : v.path.pcFlags = v₀.path.pcFlags
  fe : v.path.scad.fe = v₀.path.scad.fe
  sc : v.path.scad.sc.toInt = n - 1 - k
  /-- The next bit. -/
  qr37 : v.path.alu.flagQR37 = (2 * m).testBit (k + 1)
  others : ∀ u, u ≠ arx → v.path.alu.aluRAM u = v₀.path.alu.aluRAM u
  product : ∃ c, Multiplied (v₀.path.alu.aluRAM arx).toInt (v₀.path.alu.aluRAM brx).toInt
    (2 * m) k (v.path.alu.aluRAM arx).toInt c ∧
      Alu.low v.path.alu.q = c * 2 ^ (36 - k) + m / 2 ^ (k + 1)
  small : Small (v.path.alu.aluRAM arx).toInt
  above : Alu.above v.path.alu.q < 2 ^ (3 - k)

variable {v₀ v : View} {m n k : Nat} {r : MicroAddr} {i : In}

/-- The sum of a step is in the range of the registers. -/
theorem Multiplying.sum (h : Multiplying v₀ m n k v)
    (hM : Small (v₀.path.alu.aluRAM brx).toInt)
    (done : Bool) (d : BitVec 36) :
    let f := ((loopOp (below (2 * m) k) ((2 * m).testBit k) done).f v.path.alu d).toInt
    f = (v.path.alu.aluRAM arx).toInt + boothDigit (2 * m) k * (v₀.path.alu.aluRAM brx).toInt ∧
      (-2 ^ 38 ≤ f ∧ f < 2 ^ 38) ∧ -2 ^ 37 ≤ f / 2 ∧ f / 2 < 2 ^ 37 := by
  have hbounds := halved_bounds (boothDigit_cases (2 * m) k) hM h.small
  have hbrx : v.path.alu.aluRAM brx = v₀.path.alu.aluRAM brx := h.others brx (by decide)
  have hf := loopOp_f (below (2 * m) k) ((2 * m).testBit k) done v.path.alu d
    (by
      rw [hbrx]
      obtain ⟨⟨hlow, hhigh⟩, -⟩ := hbounds
      exact ⟨by rw [boothDigit] at hlow; omega, by rw [boothDigit] at hhigh; omega⟩)
  rw [hbrx] at hf
  refine ⟨hf, ?_⟩
  rw [hf]
  exact hbounds

/-- The bit that leaves `Q` at step `k`. -/
theorem Multiplying.leaves (h : Multiplying v₀ m n k v) (hk : k < 36) :
    bit v.path.alu.q 39 = (2 * m).testBit (k + 2) := by
  obtain ⟨c, -, hlow⟩ := h.product
  obtain ⟨d, hd⟩ := Nat.exists_eq_add_of_lt hk
  have hpow : 36 - k = d + 1 := by omega
  have hbit : (2 * m).testBit (k + 2) = (m / 2 ^ (k + 1)).testBit 0 := by
    rw [Nat.testBit_succ, Nat.mul_div_cancel_left m (by decide), Nat.testBit_div_two_pow]
    simp
  rw [Alu.bit_last_q, hlow, hbit, hpow, Nat.pow_succ, ← Nat.mul_assoc, Nat.mul_comm,
    Nat.testBit_zero, Nat.testBit_zero, Nat.mul_add_mod]

/-- One step of the loop. -/
theorem Multiplying.step (hrom : MultiplyListing rom) (h : Multiplying v₀ m n k v) (hk : k ≤ n)
    (hn : n ≤ 35)
    (hM : Small (v₀.path.alu.aluRAM brx).toInt)
    (hquiet : Quiet i) : Multiplying v₀ m n (k + 1) (v.exec (rom v.pc) r i) := by
  have hpc : v.pc = loopAddr (below (2 * m) k) ((2 * m).testBit k) false := by
    rw [h.pc, decide_eq_false (by omega)]
  have hword := hrom.step (below (2 * m) k) ((2 * m).testBit k)
  rw [← hpc] at hword
  generalize hw : rom v.pc = w at hword ⊢
  have hret : Useq.ret w = false := by
    rw [Useq.ret, hword.disp]
    rfl
  obtain ⟨hram, hq, hqr37⟩ := loopOp_next (below (2 * m) k) ((2 * m).testBit k) v.path.alu
    (v.path.dbus w i)
  obtain ⟨hf, -, hhalf⟩ := h.sum hM false (v.path.dbus w i)
  generalize hop : (loopOp (below (2 * m) k) ((2 * m).testBit k) false) = o at *
  generalize hsum : o.f v.path.alu (v.path.dbus w i) = f at *
  have hexec := hword.exec (v := v) (r := r) hquiet
  have hsc : (Count.step.next v.path.scad (v.path.dp w i)).sc.toInt = n - 1 - (k + 1 : Nat) := by
    have hcount := h.sc
    rw [toInt_step (by omega), hcount]
    omega
  rw [hexec]
  constructor
  case pc =>
    have hsign : decide (v.path.scad.sc.toInt < 0) = decide (k + 1 = n + 1) := by
      rw [decide_eq_decide, h.sc]
      omega
    change _ ||| _ ||| _ = _
    rw [Useq.dispAddr_mul hword.disp, Useq.skipAddr_sc hword.skip, scSign_eq, hsign,
      (bit_aluFlags v.path w i).1, h.qr37]
    rfl
  case stack =>
    change (if Useq.ret w = true then v.stack.tail else v.stack) = _
    rw [hret]
    exact h.stack
  case pcFlags => exact h.pcFlags
  case fe => exact h.fe
  case sc => exact hsc
  case qr37 =>
    change (o.next v.path.alu (v.path.dbus w i)).flagQR37 = _
    rw [hqr37, h.leaves (by omega)]
  case others =>
    intro u hu
    change (o.next v.path.alu (v.path.dbus w i)).aluRAM u = _
    rw [hram, Function.update_of_ne hu, h.others u hu]
  case product =>
    obtain ⟨c, hproduct, hlow⟩ := h.product
    refine ⟨c + 2 ^ k * (f.toInt % 2).toNat, ?_, ?_⟩
    · change Multiplied _ _ _ _ ((o.next v.path.alu (v.path.dbus w i)).aluRAM arx).toInt _
      rw [hram, Function.update_self, Alu.toInt_down, hf]
      exact hproduct.step
    · change Alu.low (o.next v.path.alu (v.path.dbus w i)).q = _
      obtain ⟨d, hd⟩ := Nat.exists_eq_add_of_le (Nat.le_trans hk hn)
      have hpow : 36 - k = d + 1 := by omega
      have hpow' : 36 - (k + 1) = d := by omega
      have hfull : (2 : Nat) ^ 35 = 2 ^ k * 2 ^ d := by rw [← Nat.pow_add, ← hd]
      have hhalves : (c * 2 ^ (d + 1) + m / 2 ^ (k + 1)) / 2 = c * 2 ^ d + m / 2 ^ (k + 2) := by
        rw [@Nat.pow_succ 2 d, ← Nat.mul_assoc, Nat.mul_comm _ 2, Nat.mul_add_div (by decide),
          Nat.div_div_eq_div_mul, ← Nat.pow_succ]
      rw [hq, Alu.low_down, hlow, hpow, hpow', hhalves, Alu.toNat_bit_last, hfull]
      ring
  case small =>
    change Small ((o.next v.path.alu (v.path.dbus w i)).aluRAM arx).toInt
    rw [hram, Function.update_self, Alu.toInt_down]
    exact hhalf
  case above =>
    change Alu.above (o.next v.path.alu (v.path.dbus w i)).q < _
    rw [hq, Alu.above_down]
    have habove := h.above
    by_cases hlast : k < 3
    · obtain ⟨d, hd⟩ := Nat.exists_eq_add_of_lt hlast
      have hpow : 3 - k = d + 1 := by omega
      have hpow' : 3 - (k + 1) = d := by omega
      rw [hpow, Nat.pow_succ] at habove
      rw [hpow']
      omega
    · have hpow : 3 - k = 0 := by omega
      have hpow' : 3 - (k + 1) = 0 := by omega
      rw [hpow] at habove
      rw [hpow']
      omega

/-! ## The end of the loop -/

/-- The subroutine has returned behind the microword at `r`.  The registers `ram` have been left
alone, but for ARX, and ARX and `Q` hold the product of `M` with the `n + 1` lowest bits of `m`,
added to `A`. -/
structure Product (A M : Int) (m n : Nat) (ram : BitVec 4 → BitVec 40) (r : MicroAddr)
    (v₀ v : View) : Prop where
  pc : v.pc = r ||| 4
  stack : v.stack = v₀.stack.tail
  pcFlags : v.path.pcFlags = v₀.path.pcFlags
  fe : v.path.scad.fe = v₀.path.scad.fe
  others : ∀ u, u ≠ arx → v.path.alu.aluRAM u = ram u
  /-- Below the product, the bits of the multiplier that have not been used are left. -/
  product : (v.path.alu.aluRAM arx).toInt * 2 ^ 36 + (v.path.alu.q.toNat % 2 ^ 37 : Nat) =
    2 ^ (36 - n) * (A + 2 * M * spelled m (n + 1)) + 2 * (m / 2 ^ (n + 2) : Nat)
  even : (v.path.alu.aluRAM arx).toInt % 2 = 0
  above : 2 ≤ n → v.path.alu.q.toNat < 2 ^ 37

/-- The last step. -/
theorem Multiplying.last (hrom : MultiplyListing rom) (h : Multiplying v₀ m n (n + 1) v)
    (hn : n ≤ 35)
    (hM : Small (v₀.path.alu.aluRAM brx).toInt)
    (hquiet : Quiet i) :
    Product (v₀.path.alu.aluRAM arx).toInt (v₀.path.alu.aluRAM brx).toInt m n
      v₀.path.alu.aluRAM r v₀ (v.exec (rom v.pc) r i) := by
  have hpc : v.pc = loopAddr (below (2 * m) (n + 1)) ((2 * m).testBit (n + 1)) true := by
    rw [h.pc, decide_eq_true rfl]
  obtain ⟨hword, hret⟩ := hrom.last (below (2 * m) (n + 1)) ((2 * m).testBit (n + 1))
  rw [← hpc] at hword hret
  generalize hw : rom v.pc = w at hword hret ⊢
  obtain ⟨hram, hq⟩ := loopOp_done (below (2 * m) (n + 1)) ((2 * m).testBit (n + 1)) v.path.alu
    (v.path.dbus w i)
  obtain ⟨hf, ⟨hlow, hhigh⟩, -⟩ := h.sum hM true (v.path.dbus w i)
  generalize hop : (loopOp (below (2 * m) (n + 1)) ((2 * m).testBit (n + 1)) true) = o at *
  generalize hsum : o.f v.path.alu (v.path.dbus w i) = f at *
  have htoNat : (Alu.up v.path.alu.q (bit v.path.alu.q 4) false).toNat =
      2 * v.path.alu.q.toNat % 2 ^ 40 := Alu.toNat_up v.path.alu.q false
  have hfits : Alu.Fits (2 * f.toInt) := ⟨by omega, by omega⟩
  rw [hword.exec (v := v) (r := r) hquiet]
  constructor
  case pc =>
    change _ ||| _ ||| _ = _
    rw [Useq.dispAddr_ret hword.disp, Useq.skipAddr_none hword.skip]
    exact congrArg (· ||| _) BitVec.or_zero
  case stack =>
    change (if Useq.ret w = true then v.stack.tail else v.stack) = _
    rw [hret, h.stack]
    rfl
  case pcFlags => exact h.pcFlags
  case fe => exact h.fe
  case others =>
    intro u hu
    change (o.next v.path.alu (v.path.dbus w i)).aluRAM u = _
    rw [hram, Function.update_of_ne hu, h.others u hu]
  case product =>
    change ((o.next v.path.alu (v.path.dbus w i)).aluRAM arx).toInt * 2 ^ 36 +
      ((o.next v.path.alu (v.path.dbus w i)).q.toNat % 2 ^ 37 : Nat) = _
    obtain ⟨c, hproduct, hcollected⟩ := h.product
    have hadd := hproduct.add
    rw [← hf, spelled_two_mul] at hadd
    have hdouble : 2 * v.path.alu.q.toNat % 2 ^ 40 % 2 ^ 37 = 2 * Alu.low v.path.alu.q := by
      unfold Alu.low
      omega
    obtain ⟨d, hd⟩ := Nat.exists_eq_add_of_le hn
    have hpow : 36 - (n + 1) = d := by omega
    have hpow' : 36 - n = d + 1 := by omega
    have hfull : (2 : Int) ^ 36 = 2 ^ (n + 1) * 2 ^ d := by
      rw [← pow_add]
      congr 1
      omega
    rw [hram, Function.update_self, Alu.toInt_up hfits, hq, htoNat, hdouble, hcollected, hpow,
      hpow', hfull]
    push_cast
    linear_combination 2 ^ (d + 1) * hadd
  case even =>
    change ((o.next v.path.alu (v.path.dbus w i)).aluRAM arx).toInt % 2 = 0
    rw [hram, Function.update_self, Alu.toInt_up hfits]
    omega
  case above =>
    intro htwo
    change (o.next v.path.alu (v.path.dbus w i)).q.toNat < _
    have habove := h.above
    have hpow : 3 - (n + 1) = 0 := by omega
    rw [hpow] at habove
    rw [hq, htoNat, Alu.low_above]
    have hlow : Alu.low v.path.alu.q < 2 ^ 36 := Nat.mod_lt _ (by decide)
    omega

/-! ## The subroutines -/

/-- The entries of the subroutine. -/
inductive Entry where
  | mulsub | mulsb1 | multiply
  deriving DecidableEq

namespace Entry

def addr : Entry → MicroAddr
  | mulsub => 0o3017
  | mulsb1 => 0o3020
  | multiply => 0o3021

/-- The microword at the entry. -/
def op : Entry → Alu.Op
  | mulsub => { func := 0b011, src := 0b100, a := brx, b := brx, dest := Alu.dstRAMQD }
  | mulsb1 => { func := 0b100, src := 0b010, b := arx, dest := Alu.dstRAMQD }
  | multiply => { func := 0b011, src := 0b100, a := mask, b := mag, dest := Alu.dstRAMQD }

/-- What the product is added to. -/
def addend (e : Entry) (s : Alu) : Int :=
  match e with
  | mulsub => 0
  | mulsb1 => 0
  | multiply => (s.aluRAM arx).toInt

/-- MULSUB halves the multiplicand. -/
def multiplicand (e : Entry) (s : Alu) : Int :=
  match e with
  | mulsub => (s.aluRAM brx).toInt / 2
  | mulsb1 => (s.aluRAM brx).toInt
  | multiply => (s.aluRAM brx).toInt

/-- MULSUB halves the multiplier. -/
def multiplier (e : Entry) (s : Alu) : Nat :=
  match e with
  | mulsub => s.q.toNat / 2 % 2 ^ 37
  | mulsb1 => s.q.toNat % 2 ^ 37
  | multiply => s.q.toNat % 2 ^ 37

/-- The other registers.  MULTIPLY makes MAG anew, as one half of MASK. -/
def ram (e : Entry) (s : Alu) : BitVec 4 → BitVec 40 :=
  match e with
  | mulsub => Function.update s.aluRAM brx ((s.aluRAM brx).sshiftRight 1)
  | mulsb1 => s.aluRAM
  | multiply => Function.update s.aluRAM mag ((s.aluRAM mask).sshiftRight 1)

end Entry

/-- The registers after the microword at the entry. -/
theorem Entry.next_aluRAM (e : Entry) (s : Alu) (d : BitVec 36) :
    (e.op.next s d).aluRAM =
      match e with
      | .mulsub => Function.update s.aluRAM brx ((s.aluRAM brx).sshiftRight 1)
      | .mulsb1 => Function.update s.aluRAM arx 0
      | .multiply => Function.update s.aluRAM mag ((s.aluRAM mask).sshiftRight 1) := by
  have hshift : (e.op.next s d).aluRAM =
      Function.update s.aluRAM e.op.b ((e.op.f s d).sshiftRight 1) := by
    rw [← Alu.down_sign]
    cases e with
    | mulsub => rfl
    | mulsb1 => rfl
    | multiply => rfl
  rw [hshift]
  cases e with
  | mulsub =>
      have hf : Entry.mulsub.op.f s d = s.aluRAM brx := BitVec.zero_or
      rw [hf]
      rfl
  | mulsb1 =>
      have hf : Entry.mulsb1.op.f s d = 0#40 := BitVec.zero_and
      rw [hf]
      rfl
  | multiply =>
      have hf : Entry.multiply.op.f s d = s.aluRAM mask := BitVec.zero_or
      rw [hf]
      rfl

/-- Each of them halves `Q`. -/
theorem Entry.next_q (e : Entry) (s : Alu) (d : BitVec 36) :
    (e.op.next s d).q = Alu.down s.q false (bit s.q 3) ∧
      (e.op.next s d).flagQR37 = bit s.q 39 := by
  cases e with
  | mulsub => exact ⟨rfl, rfl⟩
  | mulsb1 => exact ⟨rfl, rfl⟩
  | multiply => exact ⟨rfl, rfl⟩

theorem MultiplyListing.entry (h : MultiplyListing rom) :
    Word (rom 0o3017) Entry.mulsub.op { j := 0o3020 } ∧
      Word (rom 0o3020) Entry.mulsb1.op { j := 0o0122, skip := 0o63, count := .step } ∧
      Word (rom 0o3021) Entry.multiply.op { j := 0o0122, skip := 0o63, count := .step } := by
  rw [h.mulsub, h.mulsb1, h.multiply]
  decide

/-- The loop is entered with a multiplier that has just been halved. -/
theorem multiplying_start {q : BitVec 40} (hpc : v₀.pc = 0o0122)
    (hsc : v₀.path.scad.sc.toInt = n - 1) (hq : v₀.path.alu.q = Alu.down q false (bit q 3))
    (hqr37 : v₀.path.alu.flagQR37 = bit q 39)
    (hA : Small (v₀.path.alu.aluRAM arx).toInt) :
    Multiplying v₀ (q.toNat % 2 ^ 37) n 0 v₀ := by
  have hbit : (bit q 3).toNat = q.toNat / 2 ^ 36 % 2 := by
    rw [bit, BitVec.getMsbD_eq_getLsbD, ← Nat.toNat_testBit]
    rfl
  have hqlt := q.isLt
  constructor
  case pc =>
    have hzero : (2 * (q.toNat % 2 ^ 37)).testBit 0 = false := by simp
    rw [hpc, hzero, below, decide_eq_false (by omega)]
    rfl
  case stack => rfl
  case pcFlags => rfl
  case fe => rfl
  case sc => rw [hsc]; simp
  case qr37 =>
    have hodd : (2 * (q.toNat % 2 ^ 37)).testBit 1 = q.toNat.testBit 0 := by
      rw [Nat.testBit_succ, Nat.mul_div_cancel_left _ (by decide), Nat.testBit_mod_two_pow]
      rfl
    rw [hqr37, hodd, Alu.bit_last]
  case others => exact fun _ _ => rfl
  case product =>
    refine ⟨0, Multiplied.start _ _ _, ?_⟩
    rw [hq, Alu.low_down, hbit, Alu.low]
    omega
  case small => exact hA
  case above =>
    rw [hq, Alu.above_down, Alu.above]
    omega

/-- The loop, from where it is entered to the return. -/
theorem multiply_loop (hrom : MultiplyListing rom) (hn : n ≤ 35)
    (hM : Small (v₀.path.alu.aluRAM brx).toInt) {l : List MicroAddr} (hstack : v₀.stack = r :: l)
    (hdepth : l.length < 15) :
    Comes (next rom) (fun _ i => Quiet i) Goes (Shown rom (Multiplying v₀ m n 0))
      (Shown rom (Product (v₀.path.alu.aluRAM arx).toInt (v₀.path.alu.aluRAM brx).toInt m n
        v₀.path.alu.aluRAM r v₀)) := by
  have hlength : v₀.stack.length < 16 := by
    rw [hstack, List.length_cons]
    omega
  have hsteps : Comes (next rom) (fun _ i => Quiet i) Goes (Shown rom (Multiplying v₀ m n 0))
      (Shown rom (Multiplying v₀ m n (n + 1))) := by
    refine Comes.loop (P := fun k => Shown rom (Multiplying v₀ m n k)) (n + 1) fun k hk => ?_
    refine Comes.word (fun _ _ hquiet => hquiet) (fun v hv => ?_) (fun v hv => ?_)
      fun s i v hquiet _ hv => hv.step hrom (by omega) hn hM hquiet
    · rw [hv.pc, decide_eq_false (by omega)]
      exact (hrom.step _ _).single
    · rw [hv.stack]
      exact hlength
  refine hsteps.trans (Comes.word (fun _ _ hquiet => hquiet) (fun v hv => ?_) (fun v hv => ?_)
    fun s i v hquiet hs hv => ?_)
  · rw [hv.pc, decide_eq_true rfl]
    exact (hrom.last _ _).1.single
  · rw [hv.stack]
    exact hlength
  · have hret : s.useq.dispRet = r := hs.dispRet (hv.stack.trans hstack)
    rw [hret]
    exact hv.last hrom hn hM hquiet

/-- The subroutine has been called at the entry `e`, with `n` in the step counter. -/
structure Called (e : Entry) (n : Nat) (r : MicroAddr) (l : List MicroAddr) (v : View) : Prop where
  pc : v.pc = e.addr
  stack : v.stack = r :: l
  depth : l.length < 15
  steps : n ≤ 35
  sc : v.path.scad.sc.toInt = n
  multiplicand : Small (e.multiplicand v.path.alu)
  addend : Small (e.addend v.path.alu)

/-- What the subroutine returns. -/
def Result (e : Entry) (n : Nat) (r : MicroAddr) (v₀ : View) : View → Prop :=
  Product (e.addend v₀.path.alu) (e.multiplicand v₀.path.alu) (e.multiplier v₀.path.alu) n
    (e.ram v₀.path.alu) r v₀

/-- The loop has been entered from `e`. -/
structure Entered (e : Entry) (n : Nat) (v₀ v : View) : Prop where
  pc : v.pc = 0o0122
  stack : v.stack = v₀.stack
  pcFlags : v.path.pcFlags = v₀.path.pcFlags
  fe : v.path.scad.fe = v₀.path.scad.fe
  sc : v.path.scad.sc.toInt = n - 1
  q : v.path.alu.q = Alu.down v₀.path.alu.q false (bit v₀.path.alu.q 3)
  qr37 : v.path.alu.flagQR37 = bit v₀.path.alu.q 39
  multiplier : e.multiplier v₀.path.alu = v₀.path.alu.q.toNat % 2 ^ 37
  addend : (v.path.alu.aluRAM arx).toInt = e.addend v₀.path.alu
  multiplicand : (v.path.alu.aluRAM brx).toInt = e.multiplicand v₀.path.alu
  others : ∀ u, u ≠ arx → v.path.alu.aluRAM u = e.ram v₀.path.alu u

variable {e : Entry} {l : List MicroAddr}

theorem Called.length (h : Called e n r l v) : v.stack.length < 16 := by
  have hdepth := h.depth
  rw [h.stack, List.length_cons]
  omega

theorem Entered.run (hrom : MultiplyListing rom) (hcalled : Called e n r l v₀)
    (h : Entered e n v₀ v) :
    Comes (next rom) (fun _ i => Quiet i) Goes (Shows rom v) (Shown rom (Result e n r v₀)) := by
  have hM : Small (v.path.alu.aluRAM brx).toInt := by
    rw [h.multiplicand]
    exact hcalled.multiplicand
  have hA : Small (v.path.alu.aluRAM arx).toInt := by
    rw [h.addend]
    exact hcalled.addend
  have hloop := multiply_loop (m := v₀.path.alu.q.toNat % 2 ^ 37) hrom hcalled.steps hM
    (h.stack.trans hcalled.stack) hcalled.depth
  refine (Comes.of_imp fun s hs => ?_).trans (hloop.mono_right fun s hs => ?_)
  · exact ⟨v, hs, multiplying_start h.pc h.sc h.q h.qr37 hA⟩
  · refine hs.imp fun v' hv' => ?_
    obtain ⟨hpc, hstack, hpcFlags, hfe, hothers, hproduct, heven, habove⟩ := hv'
    rw [h.addend, h.multiplicand, ← h.multiplier] at hproduct
    refine ⟨hpc, ?_, hpcFlags.trans h.pcFlags, hfe.trans h.fe, fun u hu => ?_, hproduct, heven,
      habove⟩
    · rw [hstack, h.stack]
    · rw [hothers u hu, h.others u hu]

/-- The microword of MULSB1 or MULTIPLY. -/
theorem Called.entered (hrom : MultiplyListing rom) (h : Called e n r l v) (hquiet : Quiet i)
    (he : e ≠ .mulsub) (u : MicroAddr) : Entered e n v (v.exec (rom v.pc) u i) := by
  have hsc := h.sc
  have hstepped (dp : BitVec 36) : (Count.step.next v.path.scad dp).sc.toInt = n - 1 := by
    rw [toInt_step (by omega), hsc]
  have hpositive : decide (v.path.scad.sc.toInt < 0) = false := decide_eq_false (by omega)
  have hword : Word (rom v.pc) e.op { j := 0o0122, skip := 0o63, count := .step } := by
    rw [h.pc]
    cases e with
    | mulsub => exact absurd rfl he
    | mulsb1 => exact hrom.entry.2.1
    | multiply => exact hrom.entry.2.2
  generalize rom v.pc = w at hword ⊢
  have hret : Useq.ret w = false := by
    rw [Useq.ret, hword.disp]
    rfl
  rw [hword.exec (v := v) (r := u) hquiet]
  constructor
  case pc =>
    change _ ||| _ ||| _ = _
    rw [Useq.dispAddr_none hword.disp, Useq.skipAddr_sc hword.skip, scSign_eq, hpositive]
    rfl
  case stack =>
    change (if Useq.ret w = true then v.stack.tail else v.stack) = _
    rw [hret]
    rfl
  case pcFlags => rfl
  case fe => rfl
  case sc => exact hstepped (v.path.dp w i)
  case q => exact (e.next_q _ _).1
  case qr37 => exact (e.next_q _ _).2
  case multiplier =>
    cases e with
    | mulsub => exact absurd rfl he
    | mulsb1 => rfl
    | multiply => rfl
  case addend =>
    change ((e.op.next v.path.alu (v.path.dbus w i)).aluRAM arx).toInt = _
    rw [e.next_aluRAM]
    cases e with
    | mulsub => exact absurd rfl he
    | mulsb1 => exact congrArg BitVec.toInt (Function.update_self arx 0 v.path.alu.aluRAM)
    | multiply =>
        have harx : arx ≠ mag := by decide
        exact congrArg BitVec.toInt (Function.update_of_ne harx _ v.path.alu.aluRAM)
  case multiplicand =>
    change ((e.op.next v.path.alu (v.path.dbus w i)).aluRAM brx).toInt = _
    rw [e.next_aluRAM]
    cases e with
    | mulsub => exact absurd rfl he
    | mulsb1 =>
        have hbrx : brx ≠ arx := by decide
        exact congrArg BitVec.toInt (Function.update_of_ne hbrx _ v.path.alu.aluRAM)
    | multiply =>
        have hbrx : brx ≠ mag := by decide
        exact congrArg BitVec.toInt (Function.update_of_ne hbrx _ v.path.alu.aluRAM)
  case others =>
    intro k hk
    change (e.op.next v.path.alu (v.path.dbus w i)).aluRAM k = _
    rw [e.next_aluRAM]
    cases e with
    | mulsub => exact absurd rfl he
    | mulsb1 => exact Function.update_of_ne hk _ v.path.alu.aluRAM
    | multiply => rfl

/-- The microword of MULSUB, which goes on to MULSB1. -/
theorem Called.mulsub (hrom : MultiplyListing rom) (h : Called .mulsub n r l v)
    (hquiet : Quiet i) (u : MicroAddr) :
    Called .mulsb1 n r l (v.exec (rom v.pc) u i) ∧
      ∀ v', Result .mulsb1 n r (v.exec (rom v.pc) u i) v' → Result .mulsub n r v v' := by
  have hword : Word (rom v.pc) Entry.mulsub.op { j := 0o3020 } := by
    rw [h.pc]
    exact hrom.entry.1
  generalize rom v.pc = w at hword ⊢
  have hret : Useq.ret w = false := by
    rw [Useq.ret, hword.disp]
    rfl
  have hstack : (v.exec w u i).stack = v.stack := by
    rw [hword.exec hquiet, hret]
    rfl
  have halu : (v.exec w u i).path.alu = Entry.mulsub.op.next v.path.alu (v.path.dbus w i) := by
    rw [hword.exec hquiet]
  have hbrx : ((v.exec w u i).path.alu.aluRAM brx).toInt = (v.path.alu.aluRAM brx).toInt / 2 := by
    rw [halu, Entry.next_aluRAM]
    change (Function.update v.path.alu.aluRAM brx _ brx).toInt = _
    rw [Function.update_self, ← Alu.down_sign, Alu.toInt_down]
  have hq : (v.exec w u i).path.alu.q.toNat % 2 ^ 37 = v.path.alu.q.toNat / 2 % 2 ^ 37 := by
    have hbit : (bit v.path.alu.q 3).toNat = v.path.alu.q.toNat / 2 ^ 36 % 2 := by
      rw [bit, BitVec.getMsbD_eq_getLsbD, ← Nat.toNat_testBit]
      rfl
    rw [halu, (Entry.next_q _ _ _).1, Alu.toNat_down_q, hbit, Alu.above, Alu.low]
    omega
  have hrest : (v.exec w u i).path.scad = v.path.scad ∧
      (v.exec w u i).path.pcFlags = v.path.pcFlags := by
    rw [hword.exec hquiet]
    exact ⟨rfl, rfl⟩
  refine ⟨⟨?_, hstack.trans h.stack, h.depth, h.steps, ?_, ?_, h.addend⟩, fun v' hv' => ?_⟩
  · rw [hword.exec hquiet]
    change _ ||| _ ||| _ = _
    rw [Useq.dispAddr_none hword.disp, Useq.skipAddr_none hword.skip]
    rfl
  · rw [hrest.1, h.sc]
  · change Small ((v.exec w u i).path.alu.aluRAM brx).toInt
    rw [hbrx]
    exact h.multiplicand
  · obtain ⟨hpc, htail, hpcFlags, hfe, hothers, hproduct, heven, habove⟩ := hv'
    refine ⟨hpc, ?_, ?_, ?_, fun k hk => ?_, ?_, heven, habove⟩
    · rw [htail, hstack]
    · rw [hpcFlags, hrest.2]
    · rw [hfe, hrest.1]
    · rw [hothers k hk]
      change (v.exec w u i).path.alu.aluRAM k = _
      rw [halu, Entry.next_aluRAM]
      rfl
    · rw [hproduct]
      change _ * (0 + 2 * ((v.exec w u i).path.alu.aluRAM brx).toInt *
        spelled ((v.exec w u i).path.alu.q.toNat % 2 ^ 37) _) + 2 *
          (((v.exec w u i).path.alu.q.toNat % 2 ^ 37) / _ : Nat) = _
      rw [hbrx, hq]
      rfl

/-- Every call of the multiply subroutine returns with the product. -/
theorem multiply_run (rom : MicroAddr → Microword) (hrom : MultiplyListing rom) (e : Entry)
    (n : Nat) (r : MicroAddr) (l : List MicroAddr) (v : View) (h : Called e n r l v) :
    Comes (next rom) (fun _ i => Quiet i) Goes (Shows rom v) (Shown rom (Result e n r v)) := by
  have hloop (e : Entry) (v : View) (h : Called e n r l v) (he : e ≠ .mulsub) :
      Comes (next rom) (fun _ i => Quiet i) Goes (Shows rom v) (Shown rom (Result e n r v)) := by
    have hentry : Comes (next rom) (fun _ i => Quiet i) Goes (Shown rom (· = v))
        (Shown rom (Entered e n v)) := by
      refine Comes.word (fun _ _ hquiet => hquiet) ?_ ?_ ?_
      · rintro v' rfl
        rw [h.pc]
        cases e with
        | mulsub => exact absurd rfl he
        | mulsb1 => exact hrom.entry.2.1.single
        | multiply => exact hrom.entry.2.2.single
      · rintro v' rfl
        exact h.length
      · rintro s i v' hquiet - rfl
        exact h.entered hrom hquiet he _
    refine (Comes.of_imp fun s hs => ⟨v, hs, rfl⟩).trans (hentry.trans ?_)
    refine Comes.of_exists fun v₁ => Comes.of_fact (fun s hs => hs.2) fun hv₁ => ?_
    exact (hv₁.run hrom h).mono_left fun s hs => hs.1
  cases e with
  | mulsub =>
      have hentry : Comes (next rom) (fun _ i => Quiet i) Goes (Shown rom (· = v))
          (Shown rom fun v₁ => Called .mulsb1 n r l v₁ ∧
            ∀ v', Result .mulsb1 n r v₁ v' → Result .mulsub n r v v') := by
        refine Comes.word (fun _ _ hquiet => hquiet) ?_ ?_ ?_
        · rintro v' rfl
          rw [h.pc]
          exact hrom.entry.1.single
        · rintro v' rfl
          exact h.length
        · rintro s i v' hquiet - rfl
          exact h.mulsub hrom hquiet _
      refine (Comes.of_imp fun s hs => ⟨v, hs, rfl⟩).trans (hentry.trans ?_)
      refine Comes.of_exists fun v₁ => Comes.of_fact (fun s hs => hs.2) fun hv₁ => ?_
      refine ((hloop .mulsb1 v₁ hv₁.1 (by decide)).mono_left fun s hs => hs.1).mono_right ?_
      exact fun s hs => hs.imp hv₁.2
  | mulsb1 => exact hloop .mulsb1 v h (by decide)
  | multiply => exact hloop .multiply v h (by decide)

end Micro

end KS10
