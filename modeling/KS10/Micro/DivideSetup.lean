import KS10.Micro.Lines
import KS10.Micro.Rom

/-!
# The divide subroutine: the operands

DIVSUB divides the double word in AR and `Q` by the word in BR.  Its first part makes both
positive, and keeps in ARX which of four places is to be returned to: there the quotient and the
remainder get their signs.  The second part brings the operands to the places from where they
can be shifted.
-/

namespace KS10

open Clocked

namespace Micro

/-! ## The listing -/

/-- The microwords before the divide steps. -/
structure DivideSetup (rom : MicroAddr → Microword) : Prop where
  divsub : rom 0o0370 = 0o3062_4662_0000_4374_0007_0700_0010_0037_7777
  divsgn : rom 0o3062 = 0o1270_3333_0003_4174_4007_0520_0000_0000_0000
  plus : rom 0o1270 = 0o3064_4221_0004_4174_4007_0700_0000_0000_0000
  negateLow : rom 0o1271 = 0o1272_2222_0000_4174_4007_0621_4000_0000_0000
  complement : rom 0o1272 = 0o3063_7441_0303_4174_4007_0700_0000_0000_0000
  negateHigh : rom 0o1273 = 0o3063_2441_0303_4174_4007_0700_4000_0000_0000
  minus : rom 0o3063 = 0o3064_3771_0004_4374_4007_0700_0000_0010_0000
  readBr : rom 0o3064 = 0o1274_3333_0005_4174_4007_0520_0000_0000_0000
  arLong : rom 0o1274 = 0o3066_3446_0303_4174_4007_0700_0000_0000_0000
  negateBr : rom 0o1275 = 0o3065_2441_0505_4174_4007_0700_4000_0000_0000
  minusBr : rom 0o3065 = 0o1274_3551_0404_4374_4007_0700_0000_0004_0000
  divset : rom 0o3066 = 0o3067_3447_0303_4174_4007_0700_0000_0000_0000
  brHalf : rom 0o3067 = 0o3070_3447_0505_4174_4007_0700_0000_0000_0000
  brHalf' : rom 0o3070 = 0o3071_3447_0505_4174_4007_0700_0000_0000_0000

namespace Divsub

/-- Clear the sign of the lower word, and divide. -/
def divsub : Line where
  op := { func := 0b100, src := 0b110, dest := Alu.dstQREG, rclken := false }
  bus := .num 0o377777
  j := 0o3062
  call := true

def negateLow : Line where
  op := { func := 0b010, cry38 := true, src := 0b010, dest := Alu.dstQREG }
  j := 0o1272
  test := .zero

/-- The remainder is to be negative. -/
def minus : Line where
  op := { func := 0b011, src := 0b111, b := arx, dest := Alu.dstRAMF }
  bus := .num 0o100000
  j := 0o3064

/-- The divisor has been negative. -/
def minusBr : Line where
  op := { func := 0b011, src := 0b101, a := arx, b := arx, dest := Alu.dstRAMF }
  bus := .num 0o040000
  j := 0o1274

end Divsub

theorem DivideSetup.lines {rom : MicroAddr → Microword} (h : DivideSetup rom) :
    Divsub.divsub.Listed (rom 0o0370) ∧ (testLine ar .sign 0o1270).Listed (rom 0o3062) ∧
      (clearLine arx 0o3064).Listed (rom 0o1270) ∧ Divsub.negateLow.Listed (rom 0o1271) ∧
      (complementLine ar 0o3063).Listed (rom 0o1272) ∧ (negateLine ar ar 0o3063 .never).Listed (rom 0o1273) ∧
      Divsub.minus.Listed (rom 0o3063) ∧ (testLine br .sign 0o1274).Listed (rom 0o3064) ∧
      (halfLong ar 0o3066 false).Listed (rom 0o1274) ∧ (negateLine br br 0o3065 .never).Listed (rom 0o1275) ∧
      Divsub.minusBr.Listed (rom 0o3065) ∧ (halfLine ar ar 0o3067).Listed (rom 0o3066) ∧
      (halfLine br br 0o3070).Listed (rom 0o3067) ∧
      (halfLine br br 0o3071).Listed (rom 0o3070) := by
  rw [h.divsub, h.divsgn, h.plus, h.negateLow, h.complement, h.negateHigh, h.minus, h.readBr,
    h.arLong, h.negateBr, h.minusBr, h.divset, h.brHalf, h.brHalf']
  decide

/-! ## What the lines do -/

section Lines

variable {e : Env} {p : Point}

theorem exec_negateLow : p.exec e Divsub.negateLow =
    { p with pc := if -p.q = 0 then 0o1273 else 0o1272, q := -p.q } := by
  have hf : (Alu.add false true 0#40 (~~~p.q)).f = -p.q := Alu.neg_f p.q
  refine Point.ext (Point.exec_pc_if rfl ?_ rfl) rfl rfl hf rfl rfl
  change ((Alu.add false true 0#40 (~~~p.q)).f == 0) = _
  rw [hf]
  rfl

theorem exec_minus : p.exec e Divsub.minus =
    { p with pc := 0o3064, ram := Function.update p.ram arx (Alu.dd 0o100000100000) } := by
  have hf : Alu.dd 0o100000100000 ||| 0#40 = Alu.dd 0o100000100000 := BitVec.or_zero
  refine Point.ext (Point.exec_pc_on rfl rfl) rfl ?_ rfl rfl rfl
  exact congrArg (Function.update p.ram arx ·) hf

theorem exec_minusBr : p.exec e Divsub.minusBr =
    { p with
      pc := 0o1274
      ram := Function.update p.ram arx (Alu.dd 0o040000040000 ||| p.ram arx) } :=
  Point.ext (Point.exec_pc_on rfl rfl) rfl rfl rfl rfl rfl

/-- The lines that bring the operands to their places. -/
theorem exec_places : (((p.exec e (halfLong ar 0o3066 false)).exec e (halfLine ar ar 0o3067)).exec e
    (halfLine br br 0o3070)).exec e (halfLine br br 0o3071) =
      { p with
        pc := 0o3071
        ram := Function.update
          (Function.update p.ram ar (((p.ram ar).sshiftRight 1).sshiftRight 1)) br
          (((p.ram br).sshiftRight 1).sshiftRight 1)
        q := Alu.down p.q false (bit p.q 3) } := by
  have hbr : br ≠ ar := by decide
  rw [exec_halfLong, exec_halfLine, exec_halfLine, exec_halfLine]
  refine Point.ext rfl rfl ?_ rfl rfl rfl
  simp only [Function.update_self, Function.update_idem, Function.update_of_ne hbr]

end Lines

/-! ## Absolute values -/

section Setup

variable {rom : MicroAddr → Microword} {e : Env} {p : Point} {N M : Int} {K : View → Prop}

/-- The dividend has become positive. -/
structure Dividend (N : Int) (p p' : Point) : Prop where
  pc : p'.pc = 0o3064
  stack : p'.stack = p.stack
  scad : p'.scad = p.scad
  pcFlags : p'.pcFlags = p.pcFlags
  others : ∀ u, u ≠ ar → u ≠ arx → p'.ram u = p.ram u
  ar : (p'.ram ar).toNat / 4 = N.natAbs / 2 ^ 35
  q : p'.q.toNat % 2 ^ 37 = 4 * (N.natAbs % 2 ^ 35)
  arx : p'.ram arx = if N < 0 then Alu.dd 0o100000100000 else 0

/-- The number of a register that holds a word. -/
theorem toNat_of_toInt {x : BitVec 40} {k : Int} (hx : x.toInt = k) :
    (x.toNat : Int) = if k < 0 then k + 2 ^ 40 else k := by
  rw [BitVec.toInt_eq_toNat_cond] at hx
  have hlt := x.isLt
  split at hx
  · rw [if_neg (by omega)]
    omega
  · rw [if_pos (by omega)]
    omega

theorem setup_dividend (hrom : DivideSetup rom) {a : BitVec 36} {L : Nat} (hpc : p.pc = 0o3062)
    (hdepth : p.stack.length < 16) (ha : p.ram ar = Alu.dd a) (hq : p.q.toNat = 4 * L)
    (hL : L < 2 ^ 35) (hN : N = a.toInt * 2 ^ 35 + L)
    (hrest : ∀ p', Dividend N p p' → Reaches rom e p' K) : Reaches rom e p K := by
  obtain ⟨-, hread, hplus, hnegateLow, hcomplement, hnegate, hminus, -⟩ := hrom.lines
  have hint : (p.ram ar).toInt = 4 * a.toInt := by rw [ha, Alu.toInt_dd]
  have hbounds : -2 ^ 35 ≤ a.toInt ∧ a.toInt < 2 ^ 35 := ⟨BitVec.le_toInt a, BitVec.toInt_lt⟩
  have hnat := toNat_of_toInt hint
  have harx : ar ≠ arx := by decide
  have hnext : (1 : MicroAddr) ||| 0o1270 = 0o1271 := by decide
  rw [← hpc] at hread
  refine Reaches.line hread hdepth rfl ?_
  rw [exec_testLine_sign hnext, hint]
  by_cases hsign : a.toInt < 0
  · rw [if_pos (by omega)] at hnat ⊢
    refine Reaches.line hnegateLow hdepth rfl ?_
    rw [exec_negateLow]
    have hneg : (-p.q).toNat = if L = 0 then 0 else 2 ^ 40 - 4 * L := by
      rw [BitVec.toNat_neg, hq]
      split
      · omega
      · omega
    have hzero : -p.q = 0 ↔ L = 0 := by
      rw [← BitVec.toNat_inj, hneg]
      change _ = 0 ↔ _
      split
      · omega
      · omega
    -- What follows is the same for both ways to change the sign of the upper word.
    have hlast (z : BitVec 40) (hz : z.toNat / 4 = N.natAbs / 2 ^ 35) :
        Reaches rom e { p with pc := 0o3063, q := -p.q, ram := Function.update p.ram ar z } K := by
      refine Reaches.line hminus hdepth rfl ?_
      rw [exec_minus]
      refine hrest _ ⟨rfl, rfl, rfl, rfl, fun u har hux => ?_, ?_, ?_, ?_⟩
      · change Function.update (Function.update p.ram ar z) arx (Alu.dd 0o100000100000) u = _
        rw [Function.update_of_ne hux, Function.update_of_ne har]
      · change (Function.update (Function.update p.ram ar z) arx (Alu.dd 0o100000100000) ar).toNat / 4
          = _
        rw [Function.update_of_ne harx, Function.update_self, hz]
      · change (-p.q).toNat % 2 ^ 37 = _
        rw [hneg, hN]
        split
        · omega
        · omega
      · rw [if_pos (by omega)]
        exact Function.update_self arx (Alu.dd 0o100000100000) (Function.update p.ram ar z)
    by_cases hL0 : L = 0
    · change Reaches rom e { p with pc := if -p.q = 0 then 0o1273 else 0o1272, q := -p.q } K
      rw [if_pos (hzero.mpr hL0)]
      refine Reaches.line hnegate hdepth rfl ?_
      rw [exec_negateLine]
      refine hlast (-p.ram ar) ?_
      rw [BitVec.toNat_neg]
      omega
    · change Reaches rom e { p with pc := if -p.q = 0 then 0o1273 else 0o1272, q := -p.q } K
      rw [if_neg (fun h => hL0 (hzero.mp h))]
      refine Reaches.line hcomplement hdepth rfl ?_
      rw [exec_complementLine]
      refine hlast (~~~p.ram ar) ?_
      rw [BitVec.toNat_not]
      omega
  · rw [if_neg (by omega)] at hnat ⊢
    refine Reaches.line hplus hdepth rfl ?_
    rw [exec_clearLine]
    refine hrest _ ⟨rfl, rfl, rfl, rfl, fun u har hux => ?_, ?_, ?_, ?_⟩
    · exact Function.update_of_ne hux 0 p.ram
    · change (Function.update p.ram arx 0 ar).toNat / 4 = _
      rw [Function.update_of_ne harx]
      omega
    · change p.q.toNat % 2 ^ 37 = _
      omega
    · rw [if_neg (by omega)]
      exact Function.update_self arx 0 p.ram

/-- Which of the four places behind the call the signs lead to. -/
def signPlace (N M : Int) : BitVec 4 :=
  0#2 ++ BitVec.ofBool (decide (N < 0)) ++ BitVec.ofBool (decide (M < 0))

/-- The operands are positive, and in their places. -/
structure DivideReady (N M : Int) (p p' : Point) : Prop where
  pc : p'.pc = 0o3071
  stack : p'.stack = p.stack
  scad : p'.scad = p.scad
  pcFlags : p'.pcFlags = p.pcFlags
  others : ∀ u, u ≠ ar → u ≠ arx → u ≠ br → p'.ram u = p.ram u
  ar : (p'.ram ar).toNat = N.natAbs / 2 ^ 35
  q : p'.q.toNat % 2 ^ 36 = 2 * (N.natAbs % 2 ^ 35)
  br : (p'.ram br).toNat = M.natAbs
  place : field (field (p'.ram arx) 2 37) 18 21 = signPlace N M

theorem toNat_sshiftRight_one {x : BitVec 40} (h : x.toNat < 2 ^ 39) :
    (x.sshiftRight 1).toNat = x.toNat / 2 := by
  have hplus : x.msb = false := by
    rw [BitVec.msb_eq_decide]
    exact decide_eq_false (Nat.not_le.mpr h)
  rw [BitVec.sshiftRight_eq_of_msb_false hplus, BitVec.toNat_ushiftRight]
  rfl

/-- The operands are brought to their places. -/
theorem setup_places (hrom : DivideSetup rom) {p₀ : Point} (hpc : p.pc = 0o1274)
    (hdepth : p.stack.length < 16) (hstack : p.stack = p₀.stack) (hscad : p.scad = p₀.scad)
    (hpcFlags : p.pcFlags = p₀.pcFlags)
    (hothers : ∀ u, u ≠ ar → u ≠ arx → u ≠ br → p.ram u = p₀.ram u)
    (har : (p.ram ar).toNat / 4 = N.natAbs / 2 ^ 35) (hN : N.natAbs / 2 ^ 35 ≤ 2 ^ 35)
    (hq : p.q.toNat % 2 ^ 37 = 4 * (N.natAbs % 2 ^ 35))
    (hbr : (p.ram br).toNat = 4 * M.natAbs) (hM : M.natAbs ≤ 2 ^ 35)
    (hplace : field (field (p.ram arx) 2 37) 18 21 = signPlace N M)
    (hrest : ∀ p', DivideReady N M p₀ p' → Reaches rom e p' K) : Reaches rom e p K := by
  obtain ⟨-, -, -, -, -, -, -, -, harLong, -, -, harHalf, hbrHalf, hbrHalf'⟩ := hrom.lines
  rw [← hpc] at harLong
  have hplaces := exec_places (e := e) (p := p)
  rw [exec_halfLong, exec_halfLine, exec_halfLine, exec_halfLine] at hplaces
  refine Reaches.line harLong hdepth rfl ?_
  rw [exec_halfLong]
  refine Reaches.line harHalf hdepth rfl ?_
  rw [exec_halfLine]
  refine Reaches.line hbrHalf hdepth rfl ?_
  rw [exec_halfLine]
  refine Reaches.line hbrHalf' hdepth rfl ?_
  rw [exec_halfLine, hplaces]
  have hquarter {x : BitVec 40} (hx : x.toNat < 2 ^ 39) :
      ((x.sshiftRight 1).sshiftRight 1).toNat = x.toNat / 4 := by
    have hone := toNat_sshiftRight_one hx
    rw [toNat_sshiftRight_one (by omega), hone]
    omega
  have hx := hquarter (x := p.ram ar) (by omega)
  have hy := hquarter (x := p.ram br) (by omega)
  clear hplaces
  generalize ((p.ram ar).sshiftRight 1).sshiftRight 1 = x at hx ⊢
  generalize ((p.ram br).sshiftRight 1).sshiftRight 1 = y at hy ⊢
  have harbr : ar ≠ br := by decide
  have harxbr : arx ≠ br := by decide
  have harxar : arx ≠ ar := by decide
  refine hrest _ ⟨rfl, hstack, hscad, hpcFlags, fun u har hux hubr => ?_, ?_, ?_, ?_, ?_⟩
  · change Function.update (Function.update p.ram ar x) br y u = _
    rw [Function.update_of_ne hubr, Function.update_of_ne har, hothers u har hux hubr]
  · change (Function.update (Function.update p.ram ar x) br y ar).toNat = _
    rw [Function.update_of_ne harbr, Function.update_self, hx, har]
  · change (Alu.down p.q false (bit p.q 3)).toNat % 2 ^ 36 = _
    rw [Alu.toNat_half_q]
    omega
  · change (Function.update (Function.update p.ram ar x) br y br).toNat = _
    rw [Function.update_self, hy, hbr]
    omega
  · change field (field (Function.update (Function.update p.ram ar x) br y arx) 2 37) 18 21 = _
    rw [Function.update_of_ne harxbr, Function.update_of_ne harxar, hplace]

/-- The sign of the divisor is taken off, and kept. -/
theorem setup_divisor (hrom : DivideSetup rom) {p₀ : Point} {m : BitVec 36} (h : Dividend N p₀ p)
    (hdepth : p₀.stack.length < 16) (hm : p₀.ram br = Alu.dd m) (hM : m.toInt = M)
    (hN : N.natAbs / 2 ^ 35 ≤ 2 ^ 35)
    (hrest : ∀ p', DivideReady N M p₀ p' → Reaches rom e p' K) : Reaches rom e p K := by
  obtain ⟨-, -, -, -, -, -, -, hread, -, hnegate, hminusBr, -⟩ := hrom.lines
  have hdepth' : p.stack.length < 16 := by
    rw [h.stack]
    exact hdepth
  have hbr : p.ram br = Alu.dd m := (h.others br (by decide) (by decide)).trans hm
  have hint : (p.ram br).toInt = 4 * M := by rw [hbr, Alu.toInt_dd, hM]
  have hbounds : -2 ^ 35 ≤ m.toInt ∧ m.toInt < 2 ^ 35 := ⟨BitVec.le_toInt m, BitVec.toInt_lt⟩
  have hnat := toNat_of_toInt hint
  have hnext : (1 : MicroAddr) ||| 0o1274 = 0o1275 := by decide
  rw [← h.pc] at hread
  refine Reaches.line hread hdepth' rfl ?_
  rw [exec_testLine_sign hnext, hint]
  by_cases hsign : M < 0
  · rw [if_pos (by omega)] at hnat ⊢
    refine Reaches.line hnegate hdepth' rfl ?_
    rw [exec_negateLine]
    refine Reaches.line hminusBr hdepth' rfl ?_
    rw [exec_minusBr]
    have harx : arx ≠ br := by decide
    have hbrx : br ≠ arx := by decide
    have harbr : ar ≠ br := by decide
    have harx' : ar ≠ arx := by decide
    change Reaches rom e
      { p with
        pc := 0o1274
        ram := Function.update (Function.update p.ram br (-p.ram br)) arx
          (Alu.dd 0o040000040000 ||| Function.update p.ram br (-p.ram br) arx) } K
    rw [Function.update_of_ne harx, h.arx]
    generalize hz : (Alu.dd 0o040000040000 ||| if N < 0 then Alu.dd 0o100000100000 else 0) = z
    refine setup_places hrom rfl hdepth' h.stack h.scad h.pcFlags (fun u har hux hubr => ?_) ?_ hN
      h.q ?_ (by omega) ?_ hrest
    · change Function.update (Function.update p.ram br (-p.ram br)) arx z u = _
      rw [Function.update_of_ne hux, Function.update_of_ne hubr, h.others u har hux]
    · change (Function.update (Function.update p.ram br (-p.ram br)) arx z ar).toNat / 4 = _
      rw [Function.update_of_ne harx', Function.update_of_ne harbr, h.ar]
    · change (Function.update (Function.update p.ram br (-p.ram br)) arx z br).toNat = _
      rw [Function.update_of_ne hbrx, Function.update_self, BitVec.toNat_neg]
      omega
    · change field (field (Function.update (Function.update p.ram br (-p.ram br)) arx z arx) 2 37)
        18 21 = _
      rw [Function.update_self, ← hz, signPlace, decide_eq_true hsign]
      by_cases hneg : N < 0
      · rw [if_pos hneg, decide_eq_true hneg]
        rfl
      · rw [if_neg hneg, decide_eq_false hneg]
        rfl
  · rw [if_neg (by omega)] at hnat ⊢
    refine setup_places hrom rfl hdepth' h.stack h.scad h.pcFlags
      (fun u har hux _ => h.others u har hux) h.ar hN h.q (by change (p.ram br).toNat = _; omega)
      (by omega) ?_ hrest
    change field (field (p.ram arx) 2 37) 18 21 = _
    rw [h.arx, signPlace, decide_eq_false hsign]
    by_cases hneg : N < 0
    · rw [if_pos hneg, decide_eq_true hneg]
      rfl
    · rw [if_neg hneg, decide_eq_false hneg]
      rfl

end Setup

end Micro

end KS10
