import KS10.Micro.Idiv

/-!
# The instruction DIV

DIV divides the double word in two accumulators by the word of memory.  A quotient that has too
many bits is found out before the division: the upper word of the absolute value is compared with
the divisor.  The test is left out where the upper word is zero.

It should also be left out where the upper word is all signs.  But the two bits below the word
are zero in AR and one in its complement, so that the microword that asks never skips.
-/

namespace KS10

open Clocked

namespace Micro

/-! ## The listing -/

/-- The microwords of DIV in the control ROM. -/
structure DivListing (rom : MicroAddr → Microword) : Prop where
  div1 : Div1Listing rom
  div : rom 0o1601 = 0o3023_3441_0305_4174_4007_0700_0000_0000_0000
  getHigh : rom 0o3023 = 0o3024_3771_0003_0276_6007_0700_0000_0000_0000
  getLow : rom 0o3024 = 0o3025_3772_0000_1275_5007_0701_0000_0000_1441
  high : rom 0o3025 = 0o0160_3333_0003_4174_4007_0621_0000_0000_0000
  signs : rom 0o0160 = 0o1234_7443_0300_4174_4007_0621_0000_0000_0000
  test : rom 0o0161 = 0o0164_3333_0005_4174_4007_0621_0000_0000_0000
  save : rom 0o1234 = 0o3026_3441_0306_4174_4007_0700_0000_0000_0000
  low : rom 0o3026 = 0o3027_3221_0004_4174_4007_0700_0000_0000_0000
  sign : rom 0o3027 = 0o0330_3333_0003_4174_4007_0520_0000_0000_0000
  plus : rom 0o0330 = 0o1236_3333_0005_4174_4007_0520_0000_0000_0000
  clear : rom 0o0331 = 0o3110_4551_0404_4374_0007_0700_0010_0037_7777
  minus : rom 0o0333 = 0o1236_3333_0005_4174_4007_0520_0000_0000_0000
  difference : rom 0o1236 = 0o1240_2113_0305_4174_4007_0521_4000_0000_0000
  sum : rom 0o1237 = 0o1240_0113_0305_4174_4007_0521_0000_0000_0000
  noDivide : rom 0o1240 = 0o0555_4443_0000_4174_4467_0700_0000_0051_1000
  restore : rom 0o1241 = 0o0161_3441_0603_4174_4007_0700_0000_0000_0000
  negateLow : rom 0o3110 = 0o1316_2441_0404_4174_4007_0621_4000_0000_0000
  complement : rom 0o1316 = 0o2240_7441_0303_4174_4007_0700_0000_0000_0000
  negateHigh : rom 0o1317 = 0o2240_2441_0303_4174_4007_0700_4000_0000_0000
  clear' : rom 0o2240 = 0o0002_4551_0404_4374_0004_1700_0000_0037_7777

theorem divListing : DivListing ks10Rom := by
  constructor
  case div1 => exact div1Listing
  all_goals rfl

namespace Div

/-- Skip where all bits of AR are ones. -/
def signs : Line where
  op := { func := 0b111, src := 0b100, a := ar, dest := 0b001 }
  j := 0o1234
  test := .zero

/-- Clear the sign of the lower word. -/
def clear (j : MicroAddr) (call : Bool) (way : Way) : Line where
  op := { func := 0b100, src := 0b101, a := arx, b := arx, dest := Alu.dstRAMF, rclken := false }
  bus := .num 0o377777
  j := j
  call := call
  way := way

/-- Compare AR with the divisor, which may be negative. -/
def compare (minus : Bool) : Line where
  op :=
    { func := if minus then 0b000 else 0b010
      cry38 := !minus
      src := 0b001
      a := ar
      b := br
      dest := 0b001 }
  j := 0o1240
  test := .sign

end Div

variable {rom : MicroAddr → Microword}

theorem DivListing.lines (h : DivListing rom) :
    (copyLine ar br 0o3023).Listed (rom 0o1601) ∧ (acLine 0 ar 0o3024).Listed (rom 0o3023) ∧
      (acToQ 1 0o3025 .never).Listed (rom 0o3024) ∧ (testLine ar .zero 0o0160).Listed (rom 0o3025) ∧
      Div.signs.Listed (rom 0o0160) ∧ (testLine br .zero 0o0164).Listed (rom 0o0161) ∧
      (copyLine ar brx 0o3026).Listed (rom 0o1234) := by
  rw [h.div, h.getHigh, h.getLow, h.high, h.signs, h.test, h.save]
  decide

/-- The microwords that find out whether the quotient fits. -/
theorem DivListing.fitLines (h : DivListing rom) :
    (fromQ arx 0o3027).Listed (rom 0o3026) ∧ (testLine ar .sign 0o0330).Listed (rom 0o3027) ∧
      (testLine br .sign 0o1236).Listed (rom 0o0330) ∧
      (Div.clear 0o3110 true .on).Listed (rom 0o0331) ∧
      (testLine br .sign 0o1236).Listed (rom 0o0333) ∧
      (Div.compare false).Listed (rom 0o1236) ∧ (Div.compare true).Listed (rom 0o1237) ∧
      noDivideLine.Listed (rom 0o1240) ∧ (copyLine brx ar 0o0161).Listed (rom 0o1241) ∧
      (negateLine arx arx 0o1316 .zero).Listed (rom 0o3110) ∧
      (complementLine ar 0o2240).Listed (rom 0o1316) ∧
      (negateLine ar ar 0o2240 .never).Listed (rom 0o1317) ∧
      (Div.clear 2 false .back).Listed (rom 0o2240) := by
  rw [h.low, h.sign, h.plus, h.clear, h.minus, h.difference, h.sum, h.noDivide, h.restore,
    h.negateLow, h.complement, h.negateHigh, h.clear']
  decide

/-! ## What the lines do -/

section Lines

variable {e : Env} {p : Point}

theorem toInt_not (x : BitVec 40) : (~~~x).toInt = -x.toInt - 1 := by
  have hlt := x.isLt
  rw [BitVec.toInt_eq_toNat_cond, BitVec.toInt_eq_toNat_cond, BitVec.toNat_not]
  split
  · split
    · omega
    · omega
  · split
    · omega
    · omega

/-- The complement of a word is never zero. -/
theorem exec_signs {a : BitVec 36} (h : p.ram ar = Alu.dd a) :
    p.exec e Div.signs = { p with pc := 0o1234 } := by
  have hf : ~~~(0#40 ^^^ p.ram ar) ≠ 0 := by
    rw [BitVec.zero_xor, h]
    intro hzero
    have hint := congrArg BitVec.toInt hzero
    rw [toInt_not, Alu.toInt_dd] at hint
    change _ = (0 : Int) at hint
    omega
  have hpasses : Div.signs.test.passes (p.out e Div.signs) p.scad = decide False :=
    beq_eq_false_iff_ne.mpr hf
  exact Point.ext ((Point.exec_pc_if rfl hpasses rfl).trans (if_neg not_false)) rfl rfl rfl rfl rfl

theorem exec_clear : p.exec e (Div.clear 0o3110 true .on) =
    { p with
      pc := 0o3110
      stack := p.pc :: p.stack
      ram := Function.update p.ram arx (unsigned (p.ram arx)) } := by
  have hq : Alu.halves true false p.q p.q = p.q := field_append (a := 19) (b := 19) p.q
  exact Point.ext (Point.exec_pc_on rfl rfl) rfl rfl hq rfl rfl

theorem exec_clearBack : p.exec e (Div.clear 2 false .back) =
    { p with
      pc := p.stack.headD 0 ||| 2
      stack := p.stack.tail
      ram := Function.update p.ram arx (unsigned (p.ram arx)) } := by
  have hq : Alu.halves true false p.q p.q = p.q := field_append (a := 19) (b := 19) p.q
  exact Point.ext (Point.exec_pc_back rfl rfl) rfl rfl hq rfl rfl

theorem exec_compare (minus : Bool) (h : Alu.Fits ((p.ram ar).toInt - (p.ram br).toInt))
    (h' : Alu.Fits ((p.ram ar).toInt + (p.ram br).toInt)) : p.exec e (Div.compare minus) =
      { p with
        pc :=
          if (p.ram ar).toInt < (if minus then -(p.ram br).toInt else (p.ram br).toInt) then 0o1241
          else 0o1240 } := by
  have hnext : (1 : MicroAddr) ||| 0o1240 = 0o1241 := by decide
  refine Point.ext (Point.exec_pc_if rfl ?_ hnext) rfl rfl rfl rfl rfl
  cases minus with
  | false =>
      change (Alu.add false true (p.ram ar) (~~~p.ram br)).f.msb = _
      have hf : (Alu.add false true (p.ram ar) (~~~p.ram br)).f = p.ram ar - p.ram br := by
        have hone : (BitVec.ofBool true).setWidth 40 = 1#40 := rfl
        rw [Alu.add_f, hone, BitVec.add_assoc, ← BitVec.neg_eq_not_add, BitVec.sub_eq_add_neg]
      rw [hf, BitVec.msb_eq_toInt, BitVec.toInt_sub, Alu.bmod_of_fits h]
      refine decide_eq_decide.mpr ?_
      change _ ↔ (p.ram ar).toInt < (p.ram br).toInt
      omega
  | true =>
      change (Alu.add false false (p.ram ar) (p.ram br)).f.msb = _
      rw [BitVec.msb_eq_toInt, Alu.toInt_add_f h']
      refine decide_eq_decide.mpr ?_
      change _ ↔ (p.ram ar).toInt < -(p.ram br).toInt
      omega

end Lines

/-! ## Whether the quotient fits -/

section Fit

variable {e : Env} {p : Point} {N M : Int} {K : View → Prop}

/-- The upper word of the absolute value of the dividend stands in AR, and is to be compared. -/
structure Upper (N M : Int) (p p' : Point) : Prop where
  pc : p'.pc = if M < 0 then 0o1237 else 0o1236
  stack : p'.stack = p.stack
  q : p'.q = p.q
  scad : p'.scad = p.scad
  pcFlags : p'.pcFlags = p.pcFlags
  others : ∀ u, u ≠ ar → u ≠ arx → p'.ram u = p.ram u
  ar : (p'.ram ar).toInt / 4 = (N.natAbs / 2 ^ 35 : Nat)

/-- The absolute value of the dividend. -/
theorem div_upper (hrom : DivListing rom) {a l : BitVec 36} (hpc : p.pc = 0o3026)
    (hdepth : p.stack.length < 15) (har : p.ram ar = Alu.dd a) (hq : p.q = Alu.dd l)
    (hbr : (p.ram br).toInt = 4 * M)
    (hrest : ∀ p', Upper (Alu.doubleWord a l) M p p' → Reaches rom e p' K) : Reaches rom e p K := by
  obtain ⟨hlow, hsign, hplus, hclear, hminus, -, -, -, -, hnegateLow, hcomplement, hnegateHigh,
    hclear'⟩ := hrom.fitLines
  have hdepth' : p.stack.length < 16 := Nat.lt_succ_of_lt hdepth
  have hint : (p.ram ar).toInt = 4 * a.toInt := by rw [har, Alu.toInt_dd]
  have hbounds : -2 ^ 35 ≤ a.toInt ∧ a.toInt < 2 ^ 35 := ⟨BitVec.le_toInt a, BitVec.toInt_lt⟩
  have hL : l.toNat % 2 ^ 35 < 2 ^ 35 := Nat.mod_lt _ (by decide)
  have harx : ar ≠ arx := by decide
  have hbrx : br ≠ arx := by decide
  have hbrar : br ≠ ar := by decide
  have hnext : (1 : MicroAddr) ||| 0o0330 = 0o0331 := by decide
  have hnext' : (1 : MicroAddr) ||| 0o1236 = 0o1237 := by decide
  have hzeroNext : (1 : MicroAddr) ||| 0o1316 = 0o1317 := by decide
  have hreturn : (0o0331 : MicroAddr) ||| 2 = 0o0333 := by decide
  have hN : Alu.doubleWord a l = a.toInt * 2 ^ 35 + (l.toNat % 2 ^ 35 : Nat) := rfl
  generalize Alu.doubleWord a l = N at hrest hN
  rw [← hpc] at hlow
  refine Reaches.line hlow hdepth' rfl ?_
  rw [exec_fromQ]
  refine Reaches.line hsign hdepth' rfl ?_
  rw [exec_testLine_sign hnext]
  change Reaches rom e
    { p with
      pc := if (Function.update p.ram arx p.q ar).toInt < 0 then 0o0331 else 0o0330
      ram := Function.update p.ram arx p.q } K
  rw [Function.update_of_ne harx, hint]
  -- Both ways end with the sign of the divisor.
  have hlast (f : BitVec 4 → BitVec 40) (pc : MicroAddr)
      (htest : (testLine br .sign 0o1236).Listed (rom pc))
      (hf : ∀ u, u ≠ ar → u ≠ arx → f u = p.ram u)
      (hfar : (f ar).toInt / 4 = (N.natAbs / 2 ^ 35 : Nat)) :
      Reaches rom e { p with pc := pc, ram := f } K := by
    refine Reaches.line htest hdepth' rfl ?_
    rw [exec_testLine_sign hnext']
    refine hrest _ ⟨?_, rfl, rfl, rfl, rfl, hf, hfar⟩
    change (if (f br).toInt < 0 then (0o1237 : MicroAddr) else 0o1236) = _
    rw [hf br hbrar hbrx, hbr]
    refine if_congr ?_ rfl rfl
    omega
  by_cases hneg : a.toInt < 0
  · rw [if_pos (by omega)]
    refine Reaches.line hclear hdepth' rfl ?_
    rw [exec_clear]
    change Reaches rom e
      { p with
        pc := 0o3110
        stack := 0o0331 :: p.stack
        ram := Function.update (Function.update p.ram arx p.q) arx
          (unsigned (Function.update p.ram arx p.q arx)) } K
    rw [Function.update_self, Function.update_idem]
    have hx : (unsigned p.q).toNat = 4 * (l.toNat % 2 ^ 35) := by
      rw [hq, toNat_unsigned_dd]
    generalize unsigned p.q = x at hx ⊢
    have hdepth'' : (0o0331 :: p.stack).length < 16 := Nat.succ_lt_succ hdepth
    have hzero : -x = 0 ↔ l.toNat % 2 ^ 35 = 0 := by
      rw [← BitVec.toNat_inj, BitVec.toNat_neg, hx]
      change _ = 0 ↔ _
      omega
    have hback (y z : BitVec 40) (hz : z.toInt / 4 = (N.natAbs / 2 ^ 35 : Nat)) :
        Reaches rom e
          { p with
            pc := 0o2240
            stack := 0o0331 :: p.stack
            ram := Function.update (Function.update p.ram arx y) ar z } K := by
      refine Reaches.back hclear' hdepth'' (List.cons_ne_nil _ _) ?_
      rw [exec_clearBack]
      change Reaches rom e
        { p with
          pc := 0o0331 ||| 2
          ram := Function.update (Function.update (Function.update p.ram arx y) ar z) arx
            (unsigned (Function.update (Function.update p.ram arx y) ar z arx)) } K
      rw [hreturn]
      generalize unsigned (Function.update (Function.update p.ram arx y) ar z arx) = y'
      refine hlast _ _ hminus (fun u har hux => ?_) ?_
      · rw [Function.update_of_ne hux, Function.update_of_ne har, Function.update_of_ne hux]
      · rw [Function.update_of_ne harx, Function.update_self, hz]
    refine Reaches.line hnegateLow hdepth'' rfl ?_
    rw [exec_negateLine_zero hzeroNext]
    change Reaches rom e
      { p with
        pc := if -Function.update p.ram arx x arx = 0 then 0o1317 else 0o1316
        stack := 0o0331 :: p.stack
        ram := Function.update (Function.update p.ram arx x) arx
          (-Function.update p.ram arx x arx) } K
    rw [Function.update_self, Function.update_idem]
    have hkeep (y : BitVec 40) : Function.update p.ram arx y ar = p.ram ar :=
      Function.update_of_ne harx y p.ram
    generalize hy : -x = y at hzero
    by_cases hL0 : l.toNat % 2 ^ 35 = 0
    · rw [if_pos (hzero.mpr hL0)]
      refine Reaches.line hnegateHigh hdepth'' rfl ?_
      rw [exec_negateLine]
      refine hback y _ ?_
      change (-Function.update p.ram arx y ar).toInt / 4 = _
      rw [hkeep, toInt_neg_of_fits ⟨by omega, by omega⟩, hint]
      omega
    · rw [if_neg (fun h => hL0 (hzero.mp h))]
      refine Reaches.line hcomplement hdepth'' rfl ?_
      rw [exec_complementLine]
      refine hback y _ ?_
      change (~~~Function.update p.ram arx y ar).toInt / 4 = _
      rw [hkeep, toInt_not, hint]
      omega
  · rw [if_neg (by omega)]
    refine hlast _ _ hplus (fun u _ hux => Function.update_of_ne hux p.q p.ram) ?_
    rw [Function.update_of_ne harx, hint]
    omega

/-- The comparison with the divisor. -/
theorem div_compare (hrom : DivListing rom) {p₀ : Point} {m : BitVec 36} (h : Upper N M p₀ p)
    (hdepth : p₀.stack.length < 16) (hN : N.natAbs ≤ 2 ^ 70) (hbr : (p.ram br).toInt = 4 * M)
    (hm : m.toInt = M)
    (hrest : N.natAbs < M.natAbs * 2 ^ 35 → Reaches rom e
      { p with pc := 0o0161, ram := Function.update p.ram ar (p.ram brx) } K)
    (hno : ¬ N.natAbs < M.natAbs * 2 ^ 35 → ∀ v, NoDivide p₀ v → K v) : Reaches rom e p K := by
  obtain ⟨-, -, -, -, -, hdifference, hsum, hnoDivide, hrestore, -⟩ := hrom.fitLines
  have hbounds : -2 ^ 35 ≤ m.toInt ∧ m.toInt < 2 ^ 35 := ⟨BitVec.le_toInt m, BitVec.toInt_lt⟩
  have hdepth' : p.stack.length < 16 := by
    rw [h.stack]
    exact hdepth
  have har := h.ar
  have hcompare : (Div.compare (decide (M < 0))).Listed (rom p.pc) := by
    rw [h.pc]
    by_cases hM : M < 0
    · rw [if_pos hM, decide_eq_true hM]
      exact hsum
    · rw [if_neg hM, decide_eq_false hM]
      exact hdifference
  refine Reaches.line hcompare hdepth' (by cases decide (M < 0) <;> rfl) ?_
  rw [exec_compare _ ⟨by omega, by omega⟩ ⟨by omega, by omega⟩]
  have hless : (p.ram ar).toInt <
      (if decide (M < 0) = true then -(p.ram br).toInt else (p.ram br).toInt) ↔
        N.natAbs < M.natAbs * 2 ^ 35 := by
    rw [hbr]
    by_cases hM : M < 0
    · rw [if_pos (decide_eq_true hM)]
      omega
    · rw [decide_eq_false hM, if_neg Bool.false_ne_true]
      omega
  by_cases hfits : N.natAbs < M.natAbs * 2 ^ 35
  · rw [if_pos (hless.mpr hfits)]
    refine Reaches.line hrestore hdepth' rfl ?_
    rw [exec_copyLine]
    exact hrest hfits
  · rw [if_neg (fun h => hfits (hless.mp h))]
    refine Reaches.line hnoDivide hdepth' rfl ?_
    rw [exec_noDivideLine]
    refine Reaches.done fun v hv => hno hfits v ⟨congrArg Point.pc hv, ?_, ?_⟩
    · exact (congrArg Point.stack hv).trans h.stack
    · exact (congrArg Point.pcFlags hv).trans (congrArg undivided h.pcFlags)

end Fit

/-! ## The instruction -/

/-- DIV begins with the operand `m` of memory in AR. -/
structure DivStarts (m : BitVec 36) (v : View) : Prop where
  pc : v.pc = 0o1601
  depth : v.stack.length < 14
  ar : v.path.alu.aluRAM ar = Alu.dd m
  constants : Constants v.path.alu.aluRAM

/-- DIV leaves quotient and remainder, and goes to where the dispatch ROM has them stored. -/
structure DivDone (N M : Int) (e : Env) (p : Point) (v : View) : Prop where
  pc : v.pc = (0#8 ++ e.b) ||| 0o1500
  stack : v.stack = p.stack
  pcFlags : v.path.pcFlags = p.pcFlags
  others : ∀ u, u ≠ ar → u ≠ arx → u ≠ br → u ≠ brx → u ≠ t1 →
    v.path.alu.aluRAM u = p.ram u
  quotient : (field (v.path.alu.aluRAM ar) 2 37).toInt = N.tdiv M
  remainder : (field (v.path.alu.aluRAM arx) 2 37).toInt = N.tmod M

/-- What a run of DIV comes to: the quotient is computed if it has at most 35 bits. -/
def DivResult (N M : Int) (e : Env) (p : Point) (v : View) : Prop :=
  if N.natAbs < M.natAbs * 2 ^ 35 then DivDone N M e p v else NoDivide p v

theorem toInt_ofInt {k : Int} (hlow : -2 ^ 35 ≤ k) (hhigh : k < 2 ^ 35) :
    (BitVec.ofInt 36 k).toInt = k := by
  rw [BitVec.toInt_ofInt, Int.bmod_eq_of_le (by omega) (by omega)]

/-- DIV behind the tests of the dividend. -/
theorem div_divide {e : Env} {p p' : Point} {a l m : BitVec 36} (hrom : Div1Listing rom)
    (htest : (testLine br .zero 0o0164).Listed (rom p'.pc)) (hdepth : p.stack.length < 14)
    (hstack : p'.stack = p.stack) (hpcFlags : p'.pcFlags = p.pcFlags)
    (har : p'.ram ar = Alu.dd a) (hq : p'.q = Alu.dd l) (hbr : p'.ram br = Alu.dd m)
    (hmask : p'.ram mask = maskWord)
    (hothers : ∀ u, u ≠ ar → u ≠ arx → u ≠ br → u ≠ brx → p'.ram u = p.ram u)
    (hfits : m.toInt ≠ 0 → (Alu.doubleWord a l).natAbs < m.toInt.natAbs * 2 ^ 35) :
    Reaches rom e p' (DivResult (Alu.doubleWord a l) m.toInt e p) := by
  have hm : m = 0 ↔ m.toInt = 0 := by
    rw [← BitVec.toInt_inj]
    rfl
  have hbounds : -2 ^ 35 ≤ m.toInt ∧ m.toInt < 2 ^ 35 := ⟨BitVec.le_toInt m, BitVec.toInt_lt⟩
  rw [← hstack] at hdepth
  refine (div1_run hrom htest hdepth har hq hbr hmask fun h => ?_).mono fun v hv => ?_
  · have hless := hfits fun hzero => h (hm.mpr hzero)
    exact Nat.lt_of_lt_of_le hless (Nat.mul_le_mul_left _ (by decide))
  · rw [DivResult]
    by_cases hzero : m = 0
    · rw [if_pos hzero] at hv
      rw [if_neg (by rw [hm.mp hzero]; omega)]
      exact ⟨hv.pc, hv.stack.trans hstack, hv.pcFlags.trans (congrArg undivided hpcFlags)⟩
    · have hless := hfits fun h => hzero (hm.mpr h)
      rw [if_neg hzero] at hv
      rw [if_pos hless]
      have hquotient : ((Alu.doubleWord a l).tdiv m.toInt).natAbs < 2 ^ 35 := by
        rw [Int.natAbs_tdiv]
        exact Nat.div_lt_of_lt_mul hless
      have hremainder : ((Alu.doubleWord a l).tmod m.toInt).natAbs < m.toInt.natAbs := by
        rw [Int.natAbs_tmod]
        exact Nat.mod_lt _ (by omega)
      refine ⟨hv.pc, hv.stack.trans hstack, hv.pcFlags.trans hpcFlags,
        fun u har hux hubr hubrx hut1 => ?_, ?_, ?_⟩
      · exact (hv.others u har hux hubr hut1).trans (hothers u har hux hubr hubrx)
      · rw [hv.quotient, toInt_ofInt (by omega) (by omega)]
      · rw [hv.remainder, toInt_ofInt (by omega) (by omega)]

/-- The upper word of the dividend is not zero. -/
theorem div_double {e : Env} {p p₀ : Point} {a l m : BitVec 36} (hrom : DivListing rom)
    (hpc : p.pc = 0o1234) (hdepth : p₀.stack.length < 14) (hstack : p.stack = p₀.stack)
    (hpcFlags : p.pcFlags = p₀.pcFlags) (har : p.ram ar = Alu.dd a) (hq : p.q = Alu.dd l)
    (hbr : p.ram br = Alu.dd m) (hmask : p.ram mask = maskWord)
    (hothers : ∀ u, u ≠ ar → u ≠ br → p.ram u = p₀.ram u) :
    Reaches rom e p (DivResult (Alu.doubleWord a l) m.toInt e p₀) := by
  obtain ⟨-, -, -, -, -, htest, hsave⟩ := hrom.lines
  have hdepth' : p.stack.length < 15 := by
    rw [hstack]
    exact Nat.lt_succ_of_lt hdepth
  have hbounds := doubleWord_bounds a l
  have harbrx : ar ≠ brx := by decide
  have hbrbrx : br ≠ brx := by decide
  have hmaskbrx : mask ≠ brx := by decide
  have hbrar : br ≠ ar := by decide
  have hmaskar : mask ≠ ar := by decide
  rw [← hpc] at hsave
  refine Reaches.line hsave (Nat.lt_succ_of_lt hdepth') rfl ?_
  rw [exec_copyLine]
  generalize hf : Function.update p.ram brx (p.ram ar) = f
  have hf' (u : BitVec 4) (hu : u ≠ brx) : f u = p.ram u := by
    rw [← hf]
    exact Function.update_of_ne hu _ _
  have hfbrx : f brx = Alu.dd a := by rw [← hf, Function.update_self, har]
  have hfbr : (f br).toInt = 4 * m.toInt := by rw [hf' br hbrbrx, hbr, Alu.toInt_dd]
  refine div_upper hrom (p := { p with pc := 0o3026, ram := f }) rfl hdepth'
    ((hf' ar harbrx).trans har) hq hfbr fun p₁ hp₁ => ?_
  have hp₁br : p₁.ram br = Alu.dd m :=
    (hp₁.others br (by decide) (by decide)).trans ((hf' br hbrbrx).trans hbr)
  refine div_compare hrom hp₁ (Nat.lt_succ_of_lt hdepth') (by omega)
    (hp₁br ▸ Alu.toInt_dd m) rfl (fun hfits => ?_) fun hfits v hv => ?_
  · have hp₁brx : p₁.ram brx = Alu.dd a := (hp₁.others brx (by decide) (by decide)).trans hfbrx
    have hg (u : BitVec 4) (hu : u ≠ ar) :
        Function.update p₁.ram ar (p₁.ram brx) u = p₁.ram u := Function.update_of_ne hu _ _
    refine div_divide hrom.div1 htest hdepth (hp₁.stack.trans hstack) (hp₁.pcFlags.trans hpcFlags)
      ?_ (hp₁.q.trans hq) ((hg br hbrar).trans hp₁br) ?_ (fun u har hux hubr hubrx => ?_)
      fun _ => hfits
    · exact (Function.update_self ar (p₁.ram brx) p₁.ram).trans hp₁brx
    · refine (hg mask hmaskar).trans ?_
      exact (hp₁.others mask (by decide) (by decide)).trans ((hf' mask hmaskbrx).trans hmask)
    · refine (hg u har).trans ?_
      exact (hp₁.others u har hux).trans ((hf' u hubrx).trans (hothers u har hubr))
  · rw [DivResult, if_neg hfits]
    exact ⟨hv.pc, hv.stack.trans hstack, hv.pcFlags.trans (congrArg undivided hpcFlags)⟩

/-- DIV, from its first microword to the last. -/
theorem div_run (rom : MicroAddr → Microword) (hrom : DivListing rom) (e : Env) (m : BitVec 36)
    (v : View) (h : DivStarts m v) :
    Comes (next rom) e.Meets Goes (Shows rom v)
      (Shown rom (DivResult (Alu.doubleWord (e.ac 0) (e.ac 1)) m.toInt e v.point)) := by
  obtain ⟨hcopy, hgetHigh, hgetLow, hhigh, hsigns, htest, -⟩ := hrom.lines
  have hdepth : v.point.stack.length < 16 := Nat.lt_trans h.depth (by decide)
  have hstart : v.point.pc = 0o1601 := h.pc
  have hhighNext : (1 : MicroAddr) ||| 0o0160 = 0o0161 := by decide
  rw [← hstart] at hcopy
  refine Reaches.comes (Reaches.line hcopy hdepth rfl ?_)
  rw [exec_copyLine]
  refine Reaches.line hgetHigh hdepth rfl ?_
  rw [exec_acLine]
  refine Reaches.line hgetLow hdepth rfl ?_
  rw [exec_acToQ]
  refine Reaches.line hhigh hdepth rfl ?_
  rw [exec_testLine_zero hhighNext]
  change Reaches rom e
    { v.point with
      pc :=
        if Function.update (Function.update v.path.alu.aluRAM br (v.path.alu.aluRAM ar)) ar
          (Alu.dd (e.ac 0)) ar = 0 then 0o0161 else 0o0160
      ram := Function.update (Function.update v.path.alu.aluRAM br (v.path.alu.aluRAM ar)) ar
        (Alu.dd (e.ac 0))
      q := Alu.dd (e.ac 1) } _
  generalize hf : Function.update (Function.update v.path.alu.aluRAM br (v.path.alu.aluRAM ar)) ar
    (Alu.dd (e.ac 0)) = f
  have hfar : f ar = Alu.dd (e.ac 0) := by rw [← hf, Function.update_self]
  have hfbr : f br = Alu.dd m := by
    have hbr : br ≠ ar := by decide
    rw [← hf, Function.update_of_ne hbr, Function.update_self, h.ar]
  have hothers (u : BitVec 4) (har : u ≠ ar) (hubr : u ≠ br) : f u = v.path.alu.aluRAM u := by
    rw [← hf, Function.update_of_ne har, Function.update_of_ne hubr]
  have hfmask : f mask = maskWord := (hothers mask (by decide) (by decide)).trans h.constants.mask
  clear hf
  by_cases hzero : f ar = 0
  · have hhigh : (e.ac 0).toInt = 0 := by
      have hint := Alu.toInt_dd (e.ac 0)
      rw [← hfar, hzero] at hint
      change (0 : Int) = _ at hint
      omega
    have hword : Alu.doubleWord (e.ac 0) (e.ac 1) =
      (e.ac 0).toInt * 2 ^ 35 + ((e.ac 1).toNat % 2 ^ 35 : Nat) := rfl
    have hlow : (e.ac 1).toNat % 2 ^ 35 < 2 ^ 35 := Nat.mod_lt _ (by decide)
    rw [if_pos hzero]
    exact div_divide hrom.div1 htest h.depth rfl rfl hfar rfl hfbr hfmask
      (fun u har _ hubr _ => hothers u har hubr) fun hm => by omega
  · rw [if_neg hzero]
    refine Reaches.line hsigns hdepth rfl ?_
    rw [exec_signs hfar]
    exact div_double hrom rfl h.depth rfl rfl hfar rfl hfbr hfmask hothers

/-- DIV with 7 in AR, and 3 in both accumulators. -/
theorem div_three_seven : ∃ t,
    Shown ks10Rom
      (DivDone (3 * 2 ^ 35 + 3) 7 (steadyIn 3 0).env (View.point ⟨0o1601, [], pathOf 7⟩))
      (startAt 0o1601 7 3 0 t) := by
  obtain ⟨t, ht⟩ := startAt_comes (div_run ks10Rom divListing (steadyIn 3 0).env 7
    ⟨0o1601, [], pathOf 7⟩ ⟨rfl, by decide, rfl, constants_registers 7⟩)
  have hN : Alu.doubleWord ((steadyIn 3 0).env.ac 0) ((steadyIn 3 0).env.ac 1) =
      3 * 2 ^ 35 + 3 := by decide
  have hM : (7 : BitVec 36).toInt = 7 := by decide
  refine ⟨t, ht.imp fun v hv => ?_⟩
  rwa [hN, hM, DivResult, if_pos (by decide)] at hv

end Micro

end KS10
