import KS10.Micro.Divsub
import KS10.Micro.Imul

/-!
# The instruction IDIV

IDIV divides the accumulator by the word of memory.  The accumulator is extended to a double
word; DIV1 is the part that IDIV has in common with DIV.  A divisor that is zero gives the flags
of a division that cannot be done, and nothing is stored.

The most negative word divided by -1 is no exception for the microcode: the quotient is stored
as the word that it wraps to, and no flag is set.
-/

namespace KS10

open Clocked

namespace Micro

/-! ## The listing -/

/-- The microwords from DIV1 on. -/
structure Div1Listing (rom : MicroAddr → Microword) : Prop where
  divide : DivideListing rom
  call : rom 0o0164 = 0o0370_4443_0000_4174_4007_0700_2010_0071_0042
  zero : rom 0o0165 = 0o0555_4443_0000_4174_4467_0700_0000_0051_1000
  copy : rom 0o0166 = 0o1215_3441_0304_4174_4007_0700_0000_0000_0000
  store : rom 0o1215 = 0o1500_3221_0003_4174_4003_7700_0200_0003_0001

theorem div1Listing : Div1Listing ks10Rom := by
  constructor
  case divide => exact divideListing
  all_goals rfl

/-- The microwords of IDIV in the control ROM. -/
structure IdivListing (rom : MicroAddr → Microword) : Prop where
  div1 : Div1Listing rom
  idiv : rom 0o1600 = 0o3022_3441_0305_0174_4007_0700_0000_0000_0000
  getAc : rom 0o3022 = 0o1232_3772_0000_0275_5007_0520_0000_0000_0000
  plus : rom 0o1232 = 0o0161_4221_0003_4174_4007_0700_0000_0000_0000
  minus : rom 0o1233 = 0o0161_2441_0703_4174_4007_0700_4000_0000_0000
  test : rom 0o0161 = 0o0164_3333_0005_4174_4007_0621_0000_0000_0000

theorem idivListing : IdivListing ks10Rom := by
  constructor
  case div1 => exact div1Listing
  all_goals rfl

/-- Call DIVSUB, with its steps in the step counter. -/
def divsubCall : Line where
  op := { func := 0b100, src := 0b100, dest := 0b001 }
  j := 0o0370
  call := true
  count := .set 34

theorem Div1Listing.lines {rom : MicroAddr → Microword} (h : Div1Listing rom) :
    divsubCall.Listed (rom 0o0164) ∧ noDivideLine.Listed (rom 0o0165) ∧
      (copyLine ar arx 0o1215).Listed (rom 0o0166) ∧ Imul.imul1.Listed (rom 0o1215) := by
  rw [h.call, h.zero, h.copy, h.store]
  decide

theorem IdivListing.lines {rom : MicroAddr → Microword} (h : IdivListing rom) :
    (copyLine ar br 0o3022).Listed (rom 0o1600) ∧ (acToQ 0 0o1232 .sign).Listed (rom 0o3022) ∧
      (clearLine ar 0o0161).Listed (rom 0o1232) ∧
      (negateLine one ar 0o0161 .never).Listed (rom 0o1233) ∧
      (testLine br .zero 0o0164).Listed (rom 0o0161) := by
  rw [h.idiv, h.getAc, h.plus, h.minus, h.test]
  decide

/-! ## The division -/

section Run

variable {rom : MicroAddr → Microword} {e : Env} {p : Point} {N M : Int}

theorem exec_divsubCall : p.exec e divsubCall =
    { p with pc := 0o0370, stack := p.pc :: p.stack, scad := { p.scad with sc := 34 } } :=
  Point.ext (Point.exec_pc_on rfl rfl) rfl rfl rfl rfl rfl

/-- The instruction has given up. -/
structure NoDivide (p : Point) (v : View) : Prop where
  pc : v.pc = 0o0555
  stack : v.stack = p.stack
  pcFlags : v.path.pcFlags = undivided p.pcFlags

/-- The instruction leaves quotient and remainder, and goes to where the dispatch ROM has them
stored. -/
structure DivideDone (N M : Int) (e : Env) (p : Point) (v : View) : Prop where
  pc : v.pc = (0#8 ++ e.b) ||| 0o1500
  stack : v.stack = p.stack
  pcFlags : v.path.pcFlags = p.pcFlags
  others : ∀ u, u ≠ ar → u ≠ arx → u ≠ br → u ≠ t1 → v.path.alu.aluRAM u = p.ram u
  quotient : field (v.path.alu.aluRAM ar) 2 37 = BitVec.ofInt 36 (N.tdiv M)
  remainder : field (v.path.alu.aluRAM arx) 2 37 = BitVec.ofInt 36 (N.tmod M)

/-- The subroutine has returned, and the results are stored. -/
theorem div1_store (hrom : Div1Listing rom) {v : View} (hpc : p.pc = 0o0164)
    (h : DivsubDone N M { p with stack := p.pc :: p.stack } v) (hdepth : p.stack.length < 16) :
    Reaches rom e v.point (DivideDone N M e p) := by
  obtain ⟨-, -, hcopy, hstore⟩ := hrom.lines
  have hpc' : v.point.pc = 0o0166 := by
    have hplace : (0o0164 : MicroAddr) ||| 2 = 0o0166 := by decide
    rw [← hplace, ← hpc]
    exact h.pc
  have hstack : v.point.stack = p.stack := h.stack
  rw [← hpc'] at hcopy
  rw [← hstack] at hdepth
  refine Reaches.line hcopy hdepth rfl ?_
  rw [exec_copyLine]
  refine Reaches.line hstore hdepth rfl ?_
  rw [exec_imul1]
  refine Reaches.done fun v' hv' => ?_
  have hram : v'.path.alu.aluRAM = Function.update
      (Function.update v.path.alu.aluRAM arx (v.path.alu.aluRAM ar)) ar v.path.alu.q :=
    congrArg Point.ram hv'
  have harx : arx ≠ ar := by decide
  constructor
  case pc => exact congrArg Point.pc hv'
  case stack => exact (congrArg Point.stack hv').trans hstack
  case pcFlags => exact (congrArg Point.pcFlags hv').trans h.pcFlags
  case others =>
    intro u har hux hubr hut1
    rw [hram, Function.update_of_ne har, Function.update_of_ne hux, h.others u har hux hubr hut1]
  case quotient =>
    rw [hram, Function.update_self]
    exact word_eq_ofInt h.quotient
  case remainder =>
    rw [hram, Function.update_of_ne harx, Function.update_self]
    exact word_eq_ofInt h.remainder

/-- DIV1: a double word is divided, unless the divisor is zero. -/
theorem div1_run (hrom : Div1Listing rom) {a l m : BitVec 36}
    (htest : (testLine br .zero 0o0164).Listed (rom p.pc)) (hdepth : p.stack.length < 14)
    (har : p.ram ar = Alu.dd a) (hq : p.q = Alu.dd l) (hbr : p.ram br = Alu.dd m)
    (hmask : p.ram mask = maskWord)
    (hfits : m ≠ 0 → (Alu.doubleWord a l).natAbs < m.toInt.natAbs * 2 ^ 36) :
    Reaches rom e p fun v =>
      if m = 0 then NoDivide p v else DivideDone (Alu.doubleWord a l) m.toInt e p v := by
  obtain ⟨hcall, hnoDivide, -⟩ := hrom.lines
  have hdepth' : p.stack.length < 16 := by omega
  have hnext : (1 : MicroAddr) ||| 0o0164 = 0o0165 := by decide
  have hzero : p.ram br = 0 ↔ m = 0 := by
    rw [hbr, ← BitVec.toInt_inj, ← BitVec.toInt_inj, Alu.toInt_dd]
    change 4 * m.toInt = 0 ↔ m.toInt = 0
    omega
  refine Reaches.line htest hdepth' rfl ?_
  rw [exec_testLine_zero hnext]
  by_cases hm : m = 0
  · rw [if_pos (hzero.mpr hm)]
    refine Reaches.line hnoDivide hdepth' rfl ?_
    rw [exec_noDivideLine]
    refine Reaches.done fun v hv => ?_
    rw [if_pos hm]
    exact ⟨congrArg Point.pc hv, congrArg Point.stack hv, congrArg Point.pcFlags hv⟩
  · rw [if_neg (fun h => hm (hzero.mp h))]
    simp only [if_neg hm]
    refine Reaches.line hcall hdepth' rfl ?_
    rw [exec_divsubCall]
    have hdepth'' : (0o0164 :: p.stack).length < 15 := Nat.succ_lt_succ hdepth
    have hrun := divsub_call (e := e) (p := { p with
      pc := 0o0370
      stack := 0o0164 :: p.stack
      scad := { p.scad with sc := 34 } }) hrom.divide rfl hdepth'' (List.cons_ne_nil _ _) rfl har hq
      hbr hmask (hfits hm)
    refine hrun.trans fun v hv => ?_
    have hstore := div1_store (e := e) (p := { p with pc := 0o0164 }) hrom rfl (v := v)
      ⟨hv.pc, hv.stack, hv.pcFlags, hv.others, hv.quotient, hv.remainder⟩ hdepth'
    exact hstore.mono fun v' h => ⟨h.pc, h.stack, h.pcFlags, h.others, h.quotient, h.remainder⟩

/-! ## The instruction -/

/-- IDIV begins with the operand `m` of memory in AR.  The microcode keeps its constants. -/
structure IdivStarts (m : BitVec 36) (v : View) : Prop where
  pc : v.pc = 0o1600
  depth : v.stack.length < 14
  ar : v.path.alu.aluRAM ar = Alu.dd m
  constants : Constants v.path.alu.aluRAM

/-- A word with a word of signs above it. -/
theorem doubleWord_signs (l : BitVec 36) :
    Alu.doubleWord (if l.msb then -1 else 0) l = l.toInt := by
  have hlt := l.isLt
  have hmsb := BitVec.msb_eq_decide l
  rw [Alu.doubleWord, BitVec.toInt_eq_msb_cond l]
  cases hsign : l.msb with
  | false =>
      rw [hsign] at hmsb
      have hlow := of_decide_eq_false hmsb.symm
      change (0 : Int) * 2 ^ 35 + _ = (l.toNat : Int)
      omega
  | true =>
      rw [hsign] at hmsb
      have hhigh := of_decide_eq_true hmsb.symm
      change (-1 : Int) * 2 ^ 35 + _ = (l.toNat : Int) - _
      omega

/-- IDIV, from its first microword to the last. -/
theorem idiv_run (rom : MicroAddr → Microword) (hrom : IdivListing rom) (e : Env) (m : BitVec 36)
    (v : View) (h : IdivStarts m v) :
    Comes (next rom) e.Meets Goes (Shows rom v)
      (Shown rom fun v' =>
        if m = 0 then NoDivide v.point v' else DivideDone (e.ac 0).toInt m.toInt e v.point v') := by
  obtain ⟨hcopy, hgetAc, hplus, hminus, htest⟩ := hrom.lines
  have hdepth : v.point.stack.length < 16 := Nat.lt_trans h.depth (by decide)
  have hstart : v.point.pc = 0o1600 := h.pc
  have hnext : (1 : MicroAddr) ||| 0o1232 = 0o1233 := by decide
  rw [← hstart] at hcopy
  refine Reaches.comes (Reaches.line hcopy hdepth rfl ?_)
  rw [exec_copyLine]
  refine Reaches.line hgetAc hdepth rfl ?_
  rw [exec_acToQ_sign hnext]
  have hbr : br ≠ ar := by decide
  have hmask : mask ≠ ar := by decide
  have hmask' : mask ≠ br := by decide
  have hone : one ≠ br := by decide
  -- Behind the extension both ways are the same.
  have hf (u : BitVec 4) (hu : u ≠ br) :
      Function.update v.path.alu.aluRAM br (v.path.alu.aluRAM ar) u = v.path.alu.aluRAM u :=
    Function.update_of_ne hu _ _
  have hfbr : Function.update v.path.alu.aluRAM br (v.path.alu.aluRAM ar) br = Alu.dd m := by
    rw [Function.update_self, h.ar]
  have hfone := (hf one hone).trans h.constants.one
  have hfmask := (hf mask hmask').trans h.constants.mask
  change Reaches rom e
    { v.point with
      pc := if (e.ac 0).msb = true then 0o1233 else 0o1232
      ram := Function.update v.path.alu.aluRAM br (v.path.alu.aluRAM ar)
      q := Alu.dd (e.ac 0) } _
  generalize Function.update v.path.alu.aluRAM br (v.path.alu.aluRAM ar) = f at hf hfbr hfone hfmask ⊢
  have hdiv1 (a : BitVec 36) (ha : a = if (e.ac 0).msb then -1 else 0) (x : BitVec 40)
      (hx : x = Alu.dd a) :
      Reaches rom e
        { v.point with
          pc := 0o0161
          ram := Function.update f ar x
          q := Alu.dd (e.ac 0) }
        (fun v' => if m = 0 then NoDivide v.point v'
          else DivideDone (e.ac 0).toInt m.toInt e v.point v') := by
    have hword : Alu.doubleWord a (e.ac 0) = (e.ac 0).toInt := by rw [ha, doubleWord_signs]
    have hbounds : -2 ^ 35 ≤ (e.ac 0).toInt ∧ (e.ac 0).toInt < 2 ^ 35 :=
      ⟨BitVec.le_toInt _, BitVec.toInt_lt⟩
    have hfits (hm : m ≠ 0) : (Alu.doubleWord a (e.ac 0)).natAbs < m.toInt.natAbs * 2 ^ 36 := by
      have hm' : m.toInt ≠ 0 := fun hzero => hm (BitVec.eq_of_toInt_eq hzero)
      rw [hword]
      omega
    refine (div1_run hrom.div1 htest h.depth ?_ rfl ?_ ?_ hfits).mono fun v' hv' => ?_
    · exact ((Function.update_self ar x f).trans hx)
    · exact ((Function.update_of_ne hbr x f).trans hfbr)
    · exact ((Function.update_of_ne hmask x f).trans hfmask)
    · by_cases hm : m = 0
      · rw [if_pos hm] at hv' ⊢
        exact ⟨hv'.pc, hv'.stack, hv'.pcFlags⟩
      · rw [if_neg hm, hword] at hv'
        rw [if_neg hm]
        refine ⟨hv'.pc, hv'.stack, hv'.pcFlags, fun u har hux hubr hut1 => ?_, hv'.quotient,
          hv'.remainder⟩
        rw [hv'.others u har hux hubr hut1]
        exact (Function.update_of_ne har x f).trans (hf u hubr)
  by_cases hsign : (e.ac 0).msb = true
  · rw [if_pos hsign] at hdiv1 ⊢
    refine Reaches.line hminus hdepth rfl ?_
    rw [exec_negateLine]
    refine hdiv1 (-1) rfl _ ?_
    change -f one = _
    rw [hfone]
    rfl
  · rw [if_neg hsign] at hdiv1 ⊢
    refine Reaches.line hplus hdepth rfl ?_
    rw [exec_clearLine]
    exact hdiv1 0 rfl 0 rfl

/-- IDIV with 2 in AR, and 7 in the accumulator. -/
theorem idiv_seven_two : ∃ t,
    Shown ks10Rom (DivideDone 7 2 (steadyIn 7 0).env (View.point ⟨0o1600, [], pathOf 2⟩))
      (startAt 0o1600 2 7 0 t) :=
  startAt_comes (idiv_run ks10Rom idivListing (steadyIn 7 0).env 2 ⟨0o1600, [], pathOf 2⟩
    ⟨rfl, by decide, rfl, constants_registers 2⟩)

end Run

end Micro

end KS10
