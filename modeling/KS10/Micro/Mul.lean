import KS10.Micro.Product

/-!
# The instruction MUL

MUL keeps the whole product of its operands as a double word: the upper part in AR, and the lower
word in ARX with the sign of the upper one.  A double word holds every product but the square of
the most negative word, which the microcode finds by the signs of its operands: two negative
numbers have a product that looks negative.
-/

namespace KS10

open Clocked

namespace Micro

/-! ## The microwords -/

namespace Mul

def copy : Line where
  op := { func := 0b011, src := 0b100, a := ar, dest := Alu.dstQREG }
  j := 0o2775

def getAc : Line where
  op := { func := 0b011, src := 0b111, b := brx, dest := Alu.dstRAMF }
  bus := .ac 0
  j := 0o0031
  count := .set 35

def positive : Line where
  op := { func := 0b100, src := 0b000, a := mag, b := arx, dest := Alu.dstRAMF }
  j := 0o1500
  way := .drom

/-- Both operands are negative. -/
def squared : Line where
  op := { func := 0b100, src := 0b001, a := brx, b := t0, dest := 0b001 }
  j := 0o1224
  test := .sign

def negative : Line where
  op := { func := 0b111, src := 0b000, a := mag, b := arx, dest := Alu.dstRAMF }
  j := 0o1500
  way := .drom

def square : Line where
  op := { func := 0b111, src := 0b000, a := mag, b := arx, dest := Alu.dstRAMF, style := .div }
  j := 0o1404
  effect := .overflow

end Mul

/-- The microwords of MUL in the control ROM. -/
structure MulListing (rom : MicroAddr → Microword) : Prop where
  multiply : MultiplyListing rom
  mul : rom 0o1571 = 0o2775_3442_0300_0174_4007_0700_0000_0000_0000
  save : rom 0o2775 = 0o2776_3441_0316_4174_4007_0700_0000_0000_0000
  getAc : rom 0o2776 = 0o0031_3771_0006_0276_6007_0700_2000_0071_0043
  call : rom 0o0031 = 0o3017_3446_0606_4174_4007_0700_0010_0000_0000
  shiftOver : rom 0o0035 = 0o2777_3445_0403_4174_4007_0700_0000_0000_0000
  fixSign : rom 0o2777 = 0o1222_3770_0303_4174_0007_0520_0000_0000_0000
  positive : rom 0o1222 = 0o1500_4001_0004_4174_4003_7700_0200_0003_0001
  squared : rom 0o1223 = 0o1224_4113_0616_4174_4007_0520_0000_0000_0000
  negative : rom 0o1224 = 0o1500_7001_0004_4174_4003_7700_0200_0003_0001
  square : rom 0o1225 = 0o1404_7001_0004_4174_4467_0700_0000_0041_1000
  move : rom 0o1404 = 0o1500_4443_0000_4174_4003_7700_0200_0003_0001

theorem mulListing : MulListing ks10Rom := by
  constructor
  case multiply => exact multiplyListing
  all_goals rfl

theorem MulListing.lines {rom : MicroAddr → Microword} (h : MulListing rom) :
    Mul.copy.Listed (rom 0o1571) ∧ (copyLine ar t0 0o2776).Listed (rom 0o2775) ∧
      Mul.getAc.Listed (rom 0o2776) ∧ mulsubCall.Listed (rom 0o0031) ∧
      (doubleLine arx ar 0o2777).Listed (rom 0o0035) ∧ (Micro.fixSign ar 0o1222).Listed (rom 0o2777) ∧
      Mul.positive.Listed (rom 0o1222) ∧ Mul.squared.Listed (rom 0o1223) ∧
      Mul.negative.Listed (rom 0o1224) ∧ Mul.square.Listed (rom 0o1225) ∧
      moveLine.Listed (rom 0o1404) := by
  rw [h.mul, h.save, h.getAc, h.call, h.shiftOver, h.fixSign, h.positive, h.squared, h.negative,
    h.square, h.move]
  decide

/-! ## What they do -/

section Lines

variable {e : Env} {p : Point}

theorem exec_mulCopy : p.exec e Mul.copy = { p with pc := 0o2775, q := p.ram ar } := by
  have hf : 0#40 ||| p.ram ar = p.ram ar := BitVec.zero_or
  exact Point.ext (Point.exec_pc_on rfl rfl) rfl rfl hf rfl rfl

theorem exec_mulGetAc : p.exec e Mul.getAc =
    { p with
      pc := 0o0031
      ram := Function.update p.ram brx (Alu.dd (e.ac 0))
      scad := { p.scad with sc := 35 } } := by
  have hf : Alu.dd (e.ac 0) ||| 0#40 = Alu.dd (e.ac 0) := BitVec.or_zero
  refine Point.ext (Point.exec_pc_on rfl rfl) rfl ?_ rfl rfl rfl
  exact congrArg (Function.update p.ram brx ·) hf

theorem exec_mulPositive : p.exec e Mul.positive =
    { p with
      pc := (0#8 ++ e.b) ||| 0o1500
      ram := Function.update p.ram arx (p.ram mag &&& p.q) } :=
  Point.ext (Point.exec_pc_drom rfl rfl) rfl rfl rfl rfl rfl

theorem exec_mulSquared : p.exec e Mul.squared =
    { p with pc := if (p.ram brx &&& p.ram t0).msb then 0o1225 else 0o1224 } := by
  refine Point.ext (Point.exec_pc_if rfl ?_ rfl) rfl rfl rfl rfl rfl
  exact Bool.decide_eq_true.symm

theorem exec_mulNegative : p.exec e Mul.negative =
    { p with
      pc := (0#8 ++ e.b) ||| 0o1500
      ram := Function.update p.ram arx (~~~(p.ram mag ^^^ p.q)) } :=
  Point.ext (Point.exec_pc_drom rfl rfl) rfl rfl rfl rfl rfl

theorem exec_mulSquare : p.exec e Mul.square =
    { p with
      pc := 0o1404
      ram := Function.update p.ram arx (~~~(p.ram mag ^^^ p.q))
      pcFlags := overflowed p.pcFlags } :=
  Point.ext (Point.exec_pc_on rfl rfl) rfl rfl rfl rfl rfl

end Lines

/-! ## The instruction -/

/-- MUL begins with the operand `x` of memory in AR. -/
structure MulStarts (x : BitVec 36) (v : View) : Prop where
  pc : v.pc = 0o1571
  depth : v.stack.length < 15
  ar : v.path.alu.aluRAM ar = Alu.dd x
  constants : Constants v.path.alu.aluRAM

/-- MUL leaves the product `P`, and goes to where the dispatch ROM has it stored. -/
structure MulDone (P : Int) (e : Env) (v₀ v : View) : Prop where
  pc : v.pc = (0#8 ++ e.b) ||| 0o1500
  stack : v.stack = v₀.stack
  others : ∀ u, u ≠ ar → u ≠ arx → u ≠ brx → u ≠ t0 →
    v.path.alu.aluRAM u = v₀.path.alu.aluRAM u
  product : P ≠ 2 ^ 70 →
    Alu.doubleWord (field (v.path.alu.aluRAM ar) 2 37) (field (v.path.alu.aluRAM arx) 2 37) = P
  square : P = 2 ^ 70 → field (v.path.alu.aluRAM ar) 2 37 = 0o400000000000 ∧
    field (v.path.alu.aluRAM arx) 2 37 = 0o400000000000
  sign : (field (v.path.alu.aluRAM arx) 2 37).msb = (field (v.path.alu.aluRAM ar) 2 37).msb
  pcFlags : v.path.pcFlags =
    if P = 2 ^ 70 then overflowed v₀.path.pcFlags else v₀.path.pcFlags

/-- The subroutine has returned to MUL. -/
structure MulReturned (y x : BitVec 36) (p : Point) : Prop where
  pc : p.pc = 0o0035
  depth : p.stack.length < 16
  arx : (p.ram arx).toInt = 2 * (y.toInt * x.toInt / 2 ^ 35)
  q : (p.q.toNat : Int) = 4 * (y.toInt * x.toInt % 2 ^ 35)
  brx : (p.ram brx).toInt = y.toInt
  t0 : p.ram t0 = Alu.dd x
  mag : p.ram mag = magWord

section Run

variable {rom : MicroAddr → Microword} {e : Env} {p : Point} {P : Int} {x y : BitVec 36}

/-- What MUL makes of the registers. -/
def MulLeft (P : Int) (e : Env) (p : Point) (v : View) : Prop :=
  ∃ z : BitVec 40, z.toInt = 4 * (P / 2 ^ 35) ∧ v.point =
    { p with
      pc := (0#8 ++ e.b) ||| 0o1500
      ram := Function.update (Function.update p.ram ar (fixed z)) arx
        (if Minus P then ~~~(p.ram mag ^^^ p.q) else p.ram mag &&& p.q)
      pcFlags := if P = 2 ^ 70 then overflowed p.pcFlags else p.pcFlags }

/-- A product that looks negative is a square if both operands are negative. -/
theorem square_iff (hminus : Minus (y.toInt * x.toInt)) :
    (y.toInt < 0 ∧ x.toInt < 0) ↔ y.toInt * x.toInt = 2 ^ 70 := by
  have hx : -2 ^ 35 ≤ x.toInt ∧ x.toInt < 2 ^ 35 := ⟨BitVec.le_toInt x, BitVec.toInt_lt⟩
  have hy : -2 ^ 35 ≤ y.toInt ∧ y.toInt < 2 ^ 35 := ⟨BitVec.le_toInt y, BitVec.toInt_lt⟩
  constructor
  · rintro ⟨hyneg, hxneg⟩
    rcases hminus with hneg | hsquare
    · exact absurd hneg (not_lt.mpr (mul_nonneg_of_nonpos_of_nonpos hyneg.le hxneg.le))
    · exact hsquare
  · intro hsquare
    have hnonneg {a b : Int} (ha : 0 ≤ a) (ha' : a < 2 ^ 35) (hb : b < 2 ^ 35) : a * b < 2 ^ 70 := by
      nlinarith [mul_nonneg ha (Int.sub_nonneg.mpr (Int.le_of_lt_add_one (b := 2 ^ 35 - 1) hb))]
    by_contra hneither
    rcases not_and_or.mp hneither with hyneg | hxneg
    · have hlt := hnonneg (not_lt.mp hyneg) hy.2 hx.2
      omega
    · have hlt := hnonneg (not_lt.mp hxneg) hx.2 hy.2
      rw [mul_comm] at hlt
      omega

/-- MUL behind the call. -/
theorem mul_tail (hrom : MulListing rom) (h : MulReturned y x p) :
    Reaches rom e p (MulLeft (y.toInt * x.toInt) e p) := by
  obtain ⟨-, -, -, -, hshiftOver, hfixSign, hpositive, hsquared, hnegative, hsquare, hmove⟩ :=
    hrom.lines
  have hproduct := product70 y x
  generalize hP : y.toInt * x.toInt = P at hproduct
  obtain ⟨hlow, hhigh⟩ := hproduct
  have harx := h.arx
  rw [hP] at harx
  have hz : (p.ram arx + p.ram arx).toInt = 4 * (P / 2 ^ 35) := by
    have hup := Alu.toInt_up (x := p.ram arx) ⟨by omega, by omega⟩
    rw [Alu.up_zero] at hup
    omega
  have hsign : (field (p.ram arx + p.ram arx) 2 37).msb = decide (Minus P) := by
    rw [word_eq_ofInt hz, msb_upper ⟨hlow, hhigh⟩]
  have hnext : (1 : MicroAddr) ||| 0o1222 = 0o1223 := by decide
  have hmag : mag ≠ ar := by decide
  rw [← h.pc] at hshiftOver
  refine Reaches.line hshiftOver h.depth (by decide) ?_
  rw [exec_doubleLine]
  refine Reaches.line hfixSign h.depth (by decide) ?_
  rw [exec_fixSign hnext]
  change Reaches rom e
    { p with
      pc := if (field (Function.update p.ram ar (p.ram arx + p.ram arx) ar) 2 37).msb = true
        then 0o1223 else 0o1222
      ram := Function.update (Function.update p.ram ar (p.ram arx + p.ram arx)) ar
        (fixed (Function.update p.ram ar (p.ram arx + p.ram arx) ar)) } _
  rw [Function.update_self, hsign, Function.update_idem]
  generalize p.ram arx + p.ram arx = z at hz
  have hram : Function.update p.ram ar (fixed z) mag = p.ram mag := Function.update_of_ne hmag _ _
  by_cases hminus : Minus P
  · have hboth : (Function.update p.ram ar (fixed z) brx &&&
        Function.update p.ram ar (fixed z) t0).msb = decide (P = 2 ^ 70) := by
      have hbrx : brx ≠ ar := by decide
      have ht0 : t0 ≠ ar := by decide
      rw [← hP] at hminus
      rw [Function.update_of_ne hbrx, Function.update_of_ne ht0, BitVec.msb_and, h.t0, Alu.msb_dd,
        BitVec.msb_eq_toInt, BitVec.msb_eq_toInt, h.brx, ← Bool.decide_and, decide_eq_decide, ← hP]
      exact square_iff hminus
    rw [decide_eq_true hminus, if_pos rfl]
    refine Reaches.line hsquared h.depth (by decide) ?_
    rw [exec_mulSquared]
    change Reaches rom e
      { p with
        pc := if (Function.update p.ram ar (fixed z) brx &&&
          Function.update p.ram ar (fixed z) t0).msb = true then 0o1225 else 0o1224
        ram := Function.update p.ram ar (fixed z) } _
    rw [hboth]
    by_cases hlast : P = 2 ^ 70
    · rw [decide_eq_true hlast, if_pos rfl]
      refine Reaches.line hsquare h.depth (by decide) ?_
      rw [exec_mulSquare]
      refine Reaches.line hmove h.depth (by decide) ?_
      rw [exec_moveLine]
      refine Reaches.done fun v hv => ⟨z, hz, ?_⟩
      rw [hv, if_pos hminus, if_pos hlast, ← hram]
    · rw [decide_eq_false hlast, if_neg Bool.false_ne_true]
      refine Reaches.line hnegative h.depth (by decide) ?_
      rw [exec_mulNegative]
      refine Reaches.done fun v hv => ⟨z, hz, ?_⟩
      rw [hv, if_pos hminus, if_neg hlast, ← hram]
  · have hlast : P ≠ 2 ^ 70 := fun heq => hminus (.inr heq)
    rw [decide_eq_false hminus, if_neg Bool.false_ne_true]
    refine Reaches.line hpositive h.depth (by decide) ?_
    rw [exec_mulPositive]
    refine Reaches.done fun v hv => ⟨z, hz, ?_⟩
    rw [hv, if_neg hminus, if_neg hlast, ← hram]

/-- The double word that MUL leaves. -/
theorem MulLeft.words {v : View} (h : MulLeft P e p v)
    (hmag : p.ram mag = magWord) (hq : (p.q.toNat : Int) = 4 * (P % 2 ^ 35)) :
    field (v.path.alu.aluRAM ar) 2 37 = BitVec.ofInt 36 (P / 2 ^ 35) ∧
      (field (v.path.alu.aluRAM arx) 2 37).toInt = lowerWord P := by
  obtain ⟨z, hz, hpoint⟩ := h
  have hram : v.path.alu.aluRAM = Function.update (Function.update p.ram ar (fixed z)) arx
      (if Minus P then ~~~(p.ram mag ^^^ p.q) else p.ram mag &&& p.q) := congrArg Point.ram hpoint
  have hword : field (p.ram mag) 2 37 = 0o377777777777 := by
    rw [hmag]
    rfl
  have har : ar ≠ arx := by decide
  rw [hram, Function.update_self, Function.update_of_ne har, Function.update_self, word_fixed,
    word_eq_ofInt hz]
  exact ⟨rfl, toInt_lower hword hq (word_and hword (by omega))⟩

/-- They are the product, unless it is the square of the most negative word. -/
theorem double_of_words {high low : BitVec 36} (hP : Product70 P)
    (hhigh : high = BitVec.ofInt 36 (P / 2 ^ 35)) (hlow : low.toInt = lowerWord P) :
    (P ≠ 2 ^ 70 → Alu.doubleWord high low = P) ∧
      (P = 2 ^ 70 → high = 0o400000000000 ∧ low = 0o400000000000) ∧ low.msb = high.msb := by
  obtain ⟨hmin, hmax⟩ := hP
  have hsign : low.msb = decide (Minus P) := by
    rw [BitVec.msb_eq_toInt, decide_eq_decide, hlow, lowerWord]
    by_cases hminus : Minus P
    · rw [if_pos hminus]
      exact iff_of_true (by omega) hminus
    · rw [if_neg hminus]
      exact iff_of_false (by omega) hminus
  refine ⟨fun hlast => ?_, fun hlast => ⟨?_, ?_⟩, ?_⟩
  · have hupper : high.toInt = P / 2 ^ 35 := by
      rw [hhigh, BitVec.toInt_ofInt]
      exact Int.bmod_eq_of_le (by omega) (by omega)
    have hrest : ((low.toNat % 2 ^ 35 : Nat) : Int) = P % 2 ^ 35 := by
      rw [lowerWord, BitVec.toInt_eq_toNat_cond] at hlow
      split at hlow
      · split at hlow
        · omega
        · omega
      · split at hlow
        · omega
        · omega
    rw [Alu.doubleWord, hupper, hrest]
    omega
  · rw [hhigh, hlast]
    rfl
  · refine BitVec.eq_of_toInt_eq ?_
    rw [hlow, hlast]
    rfl
  · rw [hsign, hhigh, msb_upper ⟨hmin, hmax⟩]

/-- MUL, from its first microword to the last. -/
theorem mul_run (rom : MicroAddr → Microword) (hrom : MulListing rom) (e : Env) (x : BitVec 36)
    (v : View) (h : MulStarts x v) :
    Comes (next rom) e.Meets Goes (Shows rom v)
      (Shown rom (MulDone ((e.ac 0).toInt * x.toInt) e v)) := by
  obtain ⟨hcopy, hsave, hgetAc, hcall, -⟩ := hrom.lines
  have hdepth := h.depth
  have hstart : v.point.pc = 0o1571 := h.pc
  have hproduct := product70 (e.ac 0) x
  rw [← hstart] at hcopy
  refine Reaches.comes (Reaches.line hcopy (Nat.lt_succ_of_lt hdepth) (by decide) ?_)
  rw [exec_mulCopy]
  refine Reaches.line hsave (Nat.lt_succ_of_lt hdepth) (by decide) ?_
  rw [exec_copyLine]
  refine Reaches.line hgetAc (Nat.lt_succ_of_lt hdepth) (by decide) ?_
  rw [exec_mulGetAc]
  have hy : Function.update (Function.update v.path.alu.aluRAM t0 (v.path.alu.aluRAM ar)) brx
      (Alu.dd (e.ac 0)) brx = Alu.dd (e.ac 0) := Function.update_self _ _ _
  refine (product_call hrom.multiply hcall hy h.ar rfl hdepth).trans fun v₁ hv₁ => ?_
  have hfrom (u : BitVec 4) (harx : u ≠ arx) (hbrx : u ≠ brx) : v₁.path.alu.aluRAM u =
      Function.update v.path.alu.aluRAM t0 (v.path.alu.aluRAM ar) u := by
    rw [hv₁.others u harx hbrx]
    exact Function.update_of_ne hbrx _ _
  have hreturned : MulReturned (e.ac 0) x v₁.point := by
    constructor
    case pc =>
      have hret : (0o0031 : MicroAddr) ||| 4 = 0o0035 := by decide
      exact hv₁.pc.trans hret
    case depth =>
      have hstack : v₁.stack = v.stack := hv₁.stack
      change v₁.stack.length < 16
      rw [hstack]
      exact Nat.lt_succ_of_lt hdepth
    case arx => exact hv₁.arx
    case q => exact hv₁.q
    case brx =>
      have hquarter : 4 * (v₁.path.alu.aluRAM brx).toInt = (Alu.dd (e.ac 0)).toInt :=
        hv₁.brx.trans (congrArg BitVec.toInt hy)
      rw [Alu.toInt_dd] at hquarter
      change (v₁.path.alu.aluRAM brx).toInt = _
      omega
    case t0 => exact (hfrom t0 (by decide) (by decide)).trans ((Function.update_self _ _ _).trans h.ar)
    case mag =>
      have hne : mag ≠ t0 := by decide
      exact (hfrom mag (by decide) (by decide)).trans
        ((Function.update_of_ne hne _ _).trans h.constants.mag)
  refine (mul_tail hrom hreturned).mono fun v' hv' => ?_
  obtain ⟨hhigh, hlow⟩ := hv'.words hreturned.mag hreturned.q
  obtain ⟨hdouble, hsquare, hsign⟩ := double_of_words hproduct hhigh hlow
  obtain ⟨z, -, hpoint⟩ := hv'
  have hram : v'.path.alu.aluRAM = Function.update
      (Function.update v₁.path.alu.aluRAM ar (fixed z)) arx _ := congrArg Point.ram hpoint
  refine ⟨congrArg Point.pc hpoint, (congrArg Point.stack hpoint).trans hv₁.stack,
    fun u har harx hbrx ht0 => ?_, hdouble, hsquare, hsign, ?_⟩
  · rw [hram, Function.update_of_ne harx, Function.update_of_ne har, hfrom u harx hbrx,
      Function.update_of_ne ht0]
  · have hflags : v₁.path.pcFlags = v.path.pcFlags := hv₁.pcFlags
    have hlast : v'.path.pcFlags = _ := congrArg Point.pcFlags hpoint
    rw [hlast, ← hflags]
    rfl

/-- MUL with 5 in AR, and 3 in the accumulator. -/
theorem mul_three_five : ∃ t,
    Shown ks10Rom (MulDone 15 (steadyIn 3 0).env ⟨0o1571, [], pathOf 5⟩) (startAt 0o1571 5 3 0 t) :=
  startAt_comes (mul_run ks10Rom mulListing (steadyIn 3 0).env 5 ⟨0o1571, [], pathOf 5⟩
    ⟨rfl, by decide, rfl, constants_registers 5⟩)

end Run

end Micro

end KS10
