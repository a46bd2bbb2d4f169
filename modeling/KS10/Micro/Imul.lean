import KS10.Micro.Product

/-!
# The instruction IMUL

IMUL keeps the lower word of the product of its operands, the one of memory in AR and the one of
the accumulator.  The upper part of the product tells whether the word is the whole of it: it is
zero, or all of its bits are signs.  Otherwise the overflow flag is set, and a trap is asked for.
-/

namespace KS10

open Clocked

namespace Micro

/-! ## The microwords -/

namespace Imul

def getAc : Line where
  op := { func := 0b011, src := 0b111, dest := Alu.dstQREG }
  bus := .ac 0
  j := 0o0021
  count := .set 35

/-- IMUL1 takes a positive product. -/
def imul1 : Line where
  op := { func := 0b011, src := 0b010, b := ar, dest := Alu.dstRAMF }
  j := 0o1500
  way := .drom

/-- IMUL2 asks whether the upper part is all signs. -/
def imul2 : Line where
  op := { func := 0b101, src := 0b001, a := arx, b := mask, dest := 0b001 }
  j := 0o1216
  test := .zero

def negative : Line where
  op := { func := 0b111, src := 0b000, a := mag, b := ar, dest := Alu.dstRAMF }
  j := 0o1500
  way := .drom

/-- IMUL3 gives an overflow, with the sign of the product. -/
def imul3 (minus : Bool) : Line where
  op :=
    { func := if minus then 0b111 else 0b011
      src := if minus then 0b000 else 0b010
      a := mag
      b := ar
      dest := Alu.dstRAMF
      style := .div }
  j := 0o1404
  effect := .overflow

end Imul

/-- The microwords of IMUL in the control ROM. -/
structure ImulListing (rom : MicroAddr → Microword) : Prop where
  multiply : MultiplyListing rom
  imul : rom 0o1641 = 0o2773_3441_0306_0174_4007_0700_0000_0000_0000
  getAc : rom 0o2773 = 0o0021_3772_0000_0275_5007_0700_2000_0071_0043
  call : rom 0o0021 = 0o3017_3446_0606_4174_4007_0700_0010_0000_0000
  fits : rom 0o0025 = 0o1214_3333_0004_4174_4007_0621_0000_0000_0000
  double : rom 0o1214 = 0o2774_3445_0404_4174_4007_0700_0000_0000_0000
  imul1 : rom 0o1215 = 0o1500_3221_0003_4174_4003_7700_0200_0003_0001
  imul2 : rom 0o2774 = 0o1216_5113_0412_4174_4007_0621_0000_0000_0000
  fixSign : rom 0o1216 = 0o1220_3770_0404_4174_0007_0520_0000_0000_0000
  negative : rom 0o1217 = 0o1500_7001_0003_4174_4003_7700_0200_0003_0001
  imul3 : rom 0o1220 = 0o1404_3221_0003_4174_4467_0700_0000_0041_1000
  imul3Minus : rom 0o1221 = 0o1404_7001_0003_4174_4467_0700_0000_0041_1000
  move : rom 0o1404 = 0o1500_4443_0000_4174_4003_7700_0200_0003_0001

theorem imulListing : ImulListing ks10Rom := by
  constructor
  case multiply => exact multiplyListing
  all_goals rfl

namespace ImulListing

variable {rom : MicroAddr → Microword}

theorem lines (h : ImulListing rom) :
    (copyLine ar brx 0o2773).Listed (rom 0o1641) ∧ Imul.getAc.Listed (rom 0o2773) ∧
      mulsubCall.Listed (rom 0o0021) ∧ (testLine arx .zero 0o1214).Listed (rom 0o0025) ∧
      (doubleLine arx arx 0o2774).Listed (rom 0o1214) ∧ Imul.imul1.Listed (rom 0o1215) ∧
      Imul.imul2.Listed (rom 0o2774) ∧ (Micro.fixSign arx 0o1220).Listed (rom 0o1216) ∧
      Imul.negative.Listed (rom 0o1217) ∧ (Imul.imul3 false).Listed (rom 0o1220) ∧
      (Imul.imul3 true).Listed (rom 0o1221) ∧ moveLine.Listed (rom 0o1404) := by
  rw [h.imul, h.getAc, h.call, h.fits, h.double, h.imul1, h.imul2, h.fixSign, h.negative, h.imul3,
    h.imul3Minus, h.move]
  decide

end ImulListing

/-! ## What they do -/

section Lines

variable {e : Env} {p : Point}

theorem exec_getAc : p.exec e Imul.getAc =
    { p with pc := 0o0021, q := Alu.dd (e.ac 0), scad := { p.scad with sc := 35 } } := by
  have hf : Alu.dd (e.ac 0) ||| 0#40 = Alu.dd (e.ac 0) := BitVec.or_zero
  exact Point.ext (Point.exec_pc_on rfl rfl) rfl rfl hf rfl rfl

theorem exec_imul1 : p.exec e Imul.imul1 =
    { p with pc := (0#8 ++ e.b) ||| 0o1500, ram := Function.update p.ram ar p.q } := by
  have hf : 0#40 ||| p.q = p.q := BitVec.zero_or
  refine Point.ext (Point.exec_pc_drom rfl rfl) rfl ?_ rfl rfl rfl
  exact congrArg (Function.update p.ram ar ·) hf

theorem exec_imul2 : p.exec e Imul.imul2 =
    { p with pc := if ~~~p.ram arx &&& p.ram mask = 0 then 0o1217 else 0o1216 } :=
  Point.ext (Point.exec_pc_if rfl rfl rfl) rfl rfl rfl rfl rfl

theorem exec_negative : p.exec e Imul.negative =
    { p with
      pc := (0#8 ++ e.b) ||| 0o1500
      ram := Function.update p.ram ar (~~~(p.ram mag ^^^ p.q)) } :=
  Point.ext (Point.exec_pc_drom rfl rfl) rfl rfl rfl rfl rfl

theorem exec_imul3 (minus : Bool) : p.exec e (Imul.imul3 minus) =
    { p with
      pc := 0o1404
      ram := Function.update p.ram ar (if minus then ~~~(p.ram mag ^^^ p.q) else p.q)
      pcFlags := overflowed p.pcFlags } := by
  cases minus with
  | false =>
      have hf : 0#40 ||| p.q = p.q := BitVec.zero_or
      refine Point.ext (Point.exec_pc_on rfl rfl) rfl ?_ rfl rfl rfl
      exact congrArg (Function.update p.ram ar ·) hf
  | true => exact Point.ext (Point.exec_pc_on rfl rfl) rfl rfl rfl rfl rfl

end Lines

/-! ## The instruction -/

/-- IMUL begins with the operand `x` of memory in AR.  The microcode keeps its constants. -/
structure ImulStarts (x : BitVec 36) (v : View) : Prop where
  pc : v.pc = 0o1641
  depth : v.stack.length < 15
  ar : v.path.alu.aluRAM ar = Alu.dd x
  constants : Constants v.path.alu.aluRAM

/-- IMUL leaves the product `P`, and goes to where the dispatch ROM has it stored. -/
structure ImulDone (P : Int) (e : Env) (v₀ v : View) : Prop where
  pc : v.pc = (0#8 ++ e.b) ||| 0o1500
  stack : v.stack = v₀.stack
  others : ∀ u, u ≠ ar → u ≠ arx → u ≠ brx → v.path.alu.aluRAM u = v₀.path.alu.aluRAM u
  word : (field (v.path.alu.aluRAM ar) 2 37).toInt = lowerWord P
  pcFlags : v.path.pcFlags =
    if -2 ^ 35 ≤ P ∧ P < 2 ^ 35 then v₀.path.pcFlags else overflowed v₀.path.pcFlags

/-- The subroutine has returned to IMUL. -/
structure ImulReturned (P : Int) (p : Point) : Prop where
  product : Product70 P
  pc : p.pc = 0o0025
  depth : p.stack.length < 16
  arx : (p.ram arx).toInt = 2 * (P / 2 ^ 35)
  q : (p.q.toNat : Int) = 4 * (P % 2 ^ 35)
  mask : p.ram mask = maskWord
  mag : p.ram mag = magWord

section Run

variable {rom : MicroAddr → Microword} {e : Env} {p : Point} {P : Int} {x : BitVec 36}

/-- What IMUL makes of the registers. -/
def ImulLeft (P : Int) (e : Env) (p : Point) (v : View) : Prop :=
  ∃ z, v.point =
    { p with
      pc := (0#8 ++ e.b) ||| 0o1500
      ram := Function.update (Function.update p.ram arx z) ar
        (if Minus P then ~~~(p.ram mag ^^^ p.q) else p.q)
      pcFlags := if -2 ^ 35 ≤ P ∧ P < 2 ^ 35 then p.pcFlags else overflowed p.pcFlags }

/-- The product is zero or positive, and fits. -/
theorem imul_positive (hrom : ImulListing rom) (h : ImulReturned P p) (hupper : P / 2 ^ 35 = 0) :
    Reaches rom e p (ImulLeft P e p) := by
  obtain ⟨-, -, -, hfits, -, himul1, -⟩ := hrom.lines
  have hzero : p.ram arx = 0 := by
    refine BitVec.eq_of_toInt_eq ?_
    rw [h.arx, hupper]
    rfl
  have hplus : ¬ Minus P := by
    rw [Minus]
    omega
  have hnext : (1 : MicroAddr) ||| 0o1214 = 0o1215 := by decide
  rw [← h.pc] at hfits
  refine Reaches.line hfits h.depth (by decide) ?_
  rw [exec_testLine_zero hnext, if_pos hzero]
  refine Reaches.line himul1 h.depth (by decide) ?_
  rw [exec_imul1]
  refine Reaches.done fun v hv => ⟨p.ram arx, ?_⟩
  rw [hv, Function.update_eq_self, if_neg hplus, if_pos (by omega)]

/-- The upper part of any other product is doubled again, and compared with the signs. -/
theorem imul_upper (hrom : ImulListing rom) (h : ImulReturned P p) (hupper : P / 2 ^ 35 ≠ 0)
    {K : View → Prop} (hrest : ∀ z : BitVec 40, z.toInt = 4 * (P / 2 ^ 35) →
      Reaches rom e
        { p with
          pc := if P / 2 ^ 35 = -1 then 0o1217 else 0o1216
          ram := Function.update p.ram arx z } K) :
    Reaches rom e p K := by
  obtain ⟨-, -, -, hfits, hdouble, -, himul2, -⟩ := hrom.lines
  obtain ⟨hlow, hhigh⟩ := h.product
  have hnonzero : p.ram arx ≠ 0 := by
    intro hzero
    have harx := h.arx
    rw [hzero] at harx
    change (0 : Int) = _ at harx
    omega
  have hz : (p.ram arx + p.ram arx).toInt = 4 * (P / 2 ^ 35) := by
    have harx := h.arx
    have hup := Alu.toInt_up (x := p.ram arx) ⟨by omega, by omega⟩
    rw [Alu.up_zero] at hup
    omega
  have hsigns := signs_iff (x := p.ram arx + p.ram arx) (by omega) (by omega) (by omega)
  have hnext : (1 : MicroAddr) ||| 0o1214 = 0o1215 := by decide
  rw [← h.pc] at hfits
  refine Reaches.line hfits h.depth (by decide) ?_
  rw [exec_testLine_zero hnext, if_neg hnonzero]
  refine Reaches.line hdouble h.depth (by decide) ?_
  rw [exec_doubleLine]
  refine Reaches.line himul2 h.depth (by decide) ?_
  rw [exec_imul2]
  have hpc : (if ~~~(Function.update p.ram arx (p.ram arx + p.ram arx) arx) &&&
      Function.update p.ram arx (p.ram arx + p.ram arx) mask = 0 then (0o1217 : MicroAddr)
        else 0o1216) = if P / 2 ^ 35 = -1 then 0o1217 else 0o1216 := by
    have hmask : mask ≠ arx := by decide
    rw [Function.update_self, Function.update_of_ne hmask, h.mask]
    refine if_congr (hsigns.trans ?_) rfl rfl
    rw [hz]
    omega
  have hdone := hrest _ hz
  rw [← hpc] at hdone
  exact hdone

/-- The product is negative, and fits. -/
theorem imul_negative (hrom : ImulListing rom) (h : ImulReturned P p) (hupper : P / 2 ^ 35 = -1) :
    Reaches rom e p (ImulLeft P e p) := by
  obtain ⟨-, -, -, -, -, -, -, -, hnegative, -⟩ := hrom.lines
  have hminus : Minus P := by
    rw [Minus]
    omega
  refine imul_upper hrom h (by omega) fun z _ => ?_
  rw [if_pos hupper]
  refine Reaches.line hnegative h.depth (by decide) ?_
  rw [exec_negative]
  refine Reaches.done fun v hv => ⟨z, ?_⟩
  have hmag : mag ≠ arx := by decide
  rw [hv, if_pos hminus, if_pos (by omega)]
  change ({ p with
    pc := _
    ram := Function.update (Function.update p.ram arx z) ar
      (~~~(Function.update p.ram arx z mag ^^^ p.q)) } : Point) = _
  rw [Function.update_of_ne hmag]

/-- The product does not fit. -/
theorem imul_overflow (hrom : ImulListing rom) (h : ImulReturned P p) (hzero : P / 2 ^ 35 ≠ 0)
    (hones : P / 2 ^ 35 ≠ -1) : Reaches rom e p (ImulLeft P e p) := by
  obtain ⟨-, -, -, -, -, -, -, hfixSign, -, himul3, himul3Minus, hmove⟩ := hrom.lines
  refine imul_upper hrom h hzero fun z hz => ?_
  rw [if_neg hones]
  refine Reaches.line hfixSign h.depth (by decide) ?_
  have hnext : (1 : MicroAddr) ||| 0o1220 = 0o1221 := by decide
  rw [exec_fixSign hnext]
  have hsign : (field (Function.update p.ram arx z arx) 2 37).msb = decide (Minus P) := by
    rw [Function.update_self, word_eq_ofInt hz, msb_upper h.product]
  have hmag : mag ≠ arx := by decide
  have hnofit : ¬ (-2 ^ 35 ≤ P ∧ P < 2 ^ 35) := by omega
  change Reaches rom e
    { p with
      pc := if (field (Function.update p.ram arx z arx) 2 37).msb = true then 0o1221 else 0o1220
      ram := Function.update (Function.update p.ram arx z) arx
        (fixed (Function.update p.ram arx z arx)) } _
  rw [hsign, Function.update_idem]
  generalize fixed (Function.update p.ram arx z arx) = z'
  have hlast (m : Bool) (hm : m = decide (Minus P))
      (hline : (Imul.imul3 m).Listed (rom (if m then 0o1221 else 0o1220))) :
      Reaches rom e
        { p with pc := if m then 0o1221 else 0o1220, ram := Function.update p.ram arx z' }
        (ImulLeft P e p) := by
    refine Reaches.line hline h.depth (by cases m <;> decide) ?_
    rw [exec_imul3]
    refine Reaches.line hmove h.depth (by decide) ?_
    rw [exec_moveLine]
    refine Reaches.done fun v hv => ⟨z', ?_⟩
    rw [hv, if_neg hnofit]
    change ({ p with
      pc := _
      ram := Function.update (Function.update p.ram arx z') ar
        (if m then ~~~(Function.update p.ram arx z' mag ^^^ p.q) else p.q)
      pcFlags := _ } : Point) = _
    rw [Function.update_of_ne hmag, hm]
    simp only [decide_eq_true_eq]
  by_cases hminus : Minus P
  · have hm : true = decide (Minus P) := (decide_eq_true hminus).symm
    rw [← hm]
    exact hlast true hm himul3Minus
  · have hm : false = decide (Minus P) := (decide_eq_false hminus).symm
    rw [← hm]
    exact hlast false hm himul3

/-- IMUL behind the call. -/
theorem imul_tail (hrom : ImulListing rom) (h : ImulReturned P p) :
    Reaches rom e p (ImulLeft P e p) := by
  by_cases hzero : P / 2 ^ 35 = 0
  · exact imul_positive hrom h hzero
  · by_cases hones : P / 2 ^ 35 = -1
    · exact imul_negative hrom h hones
    · exact imul_overflow hrom h hzero hones

/-- IMUL, from its first microword to the last. -/
theorem imul_run (rom : MicroAddr → Microword) (hrom : ImulListing rom) (e : Env) (x : BitVec 36)
    (v : View) (h : ImulStarts x v) :
    Comes (next rom) e.Meets Goes (Shows rom v)
      (Shown rom (ImulDone (x.toInt * (e.ac 0).toInt) e v)) := by
  obtain ⟨hcopy, hgetAc, hcall, -⟩ := hrom.lines
  have hdepth := h.depth
  have hbrx : ar ≠ brx := by decide
  have hstart : v.point.pc = 0o1641 := h.pc
  rw [← hstart] at hcopy
  refine Reaches.comes (Reaches.line hcopy (Nat.lt_succ_of_lt hdepth) (by decide) ?_)
  rw [exec_copyLine]
  refine Reaches.line hgetAc (Nat.lt_succ_of_lt hdepth) (by decide) ?_
  rw [exec_getAc]
  have hx : Function.update v.path.alu.aluRAM brx (v.path.alu.aluRAM ar) brx = Alu.dd x := by
    rw [Function.update_self, h.ar]
  refine (product_call hrom.multiply hcall hx rfl rfl hdepth).trans fun v₁ hv₁ => ?_
  have hreturned : ImulReturned (x.toInt * (e.ac 0).toInt) v₁.point := by
    constructor
    case product => exact product70 x (e.ac 0)
    case pc =>
      have hret : (0o0021 : MicroAddr) ||| 4 = 0o0025 := by decide
      exact hv₁.pc.trans hret
    case depth =>
      have hstack : v₁.stack = v.stack := hv₁.stack
      change v₁.stack.length < 16
      rw [hstack]
      exact Nat.lt_succ_of_lt hdepth
    case arx => exact hv₁.arx
    case q => exact hv₁.q
    case mask => exact (hv₁.others mask (by decide) (by decide)).trans h.constants.mask
    case mag => exact (hv₁.others mag (by decide) (by decide)).trans h.constants.mag
  refine (imul_tail hrom hreturned).mono fun v' hv' => ?_
  obtain ⟨z, hpoint⟩ := hv'
  have hram : v'.path.alu.aluRAM = Function.update (Function.update v₁.path.alu.aluRAM arx z) ar
      (if Minus (x.toInt * (e.ac 0).toInt) then ~~~(v₁.path.alu.aluRAM mag ^^^ v₁.path.alu.q)
        else v₁.path.alu.q) := congrArg Point.ram hpoint
  constructor
  case pc => exact congrArg Point.pc hpoint
  case stack => exact (congrArg Point.stack hpoint).trans hv₁.stack
  case others =>
    intro u har harx hbrx
    rw [hram, Function.update_of_ne har, Function.update_of_ne harx, hv₁.others u harx hbrx]
    exact Function.update_of_ne hbrx _ v.path.alu.aluRAM
  case word =>
    have hmag : field (v₁.path.alu.aluRAM mag) 2 37 = 0o377777777777 := by
      have hmag₁ : v₁.path.alu.aluRAM mag = magWord := hreturned.mag
      rw [hmag₁]
      rfl
    rw [hram, Function.update_self]
    exact toInt_lower hmag hreturned.q rfl
  case pcFlags =>
    have hflags : v₁.path.pcFlags = v.path.pcFlags := hv₁.pcFlags
    have hlast : v'.path.pcFlags = _ := congrArg Point.pcFlags hpoint
    rw [hlast, ← hflags]
    rfl

/-- IMUL with 5 in AR, and 3 in the accumulator. -/
theorem imul_five_three : ∃ t,
    Shown ks10Rom (ImulDone 15 (steadyIn 3 0).env ⟨0o1641, [], pathOf 5⟩) (startAt 0o1641 5 3 0 t) :=
  startAt_comes (imul_run ks10Rom imulListing (steadyIn 3 0).env 5 ⟨0o1641, [], pathOf 5⟩
    ⟨rfl, by decide, rfl, constants_registers 5⟩)

end Run

end Micro

end KS10
