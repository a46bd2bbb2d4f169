import KS10.Micro.Rom
import KS10.Micro.ShiftLoop

/-!
# The instructions LSHC and ROTC

Both shift the double word in two accumulators by the count in the effective address: the bits 28
to 35, and bit 18 for the direction.  The double word is brought to the lower end of BR and `Q`,
shifted as a ring, and brought back.
-/

namespace KS10

open Clocked

namespace Micro

/-! ## The listing -/

/-- Where the microwords of a combined shift are. -/
structure ShiftAddrs where
  entry : MicroAddr
  left : MicroAddr
  leftExit : MicroAddr
  entryRight : MicroAddr
  step : MicroAddr
  right : MicroAddr
  rightExit : MicroAddr

def lshcAddrs : ShiftAddrs := ⟨0o1464, 0o0544, 0o0545, 0o1465, 0o1006, 0o0534, 0o0535⟩

def rotcAddrs : ShiftAddrs := ⟨0o1470, 0o0644, 0o0645, 0o1471, 0o1077, 0o0642, 0o0643⟩

/-- The microwords of LSHC and ROTC in the control ROM. -/
structure LshcListing (rom : MicroAddr → Microword) : Prop where
  getLow : rom 0o0045 = 0o0416_3772_0000_1275_5007_0701_0000_0000_1441
  getHigh : rom 0o0416 = 0o0431_3776_0005_0274_4007_0701_0000_0000_0000
  half : rom 0o0431 = 0o0044_3446_0505_4174_4007_0700_0000_0000_0000
  shift : rom 0o0044 = 0o0000_3333_0003_4174_4001_2530_3000_0041_5777
  lshc : rom 0o1464 = 0o0544_4443_0000_4174_4007_0630_2000_0060_0000
  lshc' : rom 0o1465 = 0o1006_3333_0003_4174_4007_0700_2000_0031_5777
  step : rom 0o1006 = 0o0534_4443_0000_4174_4007_0630_2000_0060_0000
  lshcr : rom 0o0534 = 0o0534_3446_0505_4174_4057_0630_2000_0060_0000
  back : rom 0o0535 = 0o1014_3444_0505_4174_4007_0700_0000_0000_0000
  lshcl : rom 0o0544 = 0o0544_3444_0505_4174_4057_0630_2000_0060_0000
  back' : rom 0o0545 = 0o1014_3444_0505_4174_4007_0700_0000_0000_0000
  lshcx : rom 0o1014 = 0o1026_3444_0505_4174_4007_0700_0000_0000_0000
  rotc : rom 0o1470 = 0o0644_4443_0000_4174_4007_0630_2000_0060_0000
  rotc' : rom 0o1471 = 0o1077_3333_0003_4174_4007_0700_2000_0031_5777
  rotcStep : rom 0o1077 = 0o0642_4443_0000_4174_4007_0630_2000_0060_0000
  rotcr : rom 0o0642 = 0o0642_3446_0505_4174_4077_0630_2000_0060_0000
  rotcBack : rom 0o0643 = 0o1014_3444_0505_4174_4007_0700_0000_0000_0000
  rotcl : rom 0o0644 = 0o0644_3444_0505_4174_4077_0630_2000_0060_0000
  rotcBack' : rom 0o0645 = 0o1014_3444_0505_4174_4007_0700_0000_0000_0000

theorem lshcListing : LshcListing ks10Rom := by
  constructor
  all_goals rfl

namespace Lshc

/-- Load BR from the accumulator, and shift it with `Q`. -/
def getHigh (j : MicroAddr) (test : Test) : Line where
  op := { func := 0b011, src := 0b111, b := br, dest := Alu.dstRAMQD }
  bus := .ac 0
  j := j
  test := test

/-- Set up the count of a shift, and execute the instruction, to the left or to the right. -/
def shift : Line where
  op := { func := 0b011, src := 0b011, b := ar, dest := 0b001 }
  j := 0
  way := .inst
  test := .right
  count := .plus 0o1777 .shift true

def step (j : MicroAddr) : Line where
  op := { func := 0b100, src := 0b100, dest := 0b001 }
  j := j
  test := .count
  count := .step

/-- The number of places to the right. -/
def right (j : MicroAddr) : Line where
  op := { func := 0b011, src := 0b011, b := ar, dest := 0b001 }
  j := j
  count := .minus 0o1777 .shift

end Lshc

/-- The microwords of a combined shift do what it needs. -/
structure ShiftLines (rom : MicroAddr → Microword) (c : Alu.Combined) (a : ShiftAddrs) : Prop where
  entry : (Lshc.step a.left).Listed (rom a.entry)
  left : (shiftLine c true br .keep a.left).Listed (rom a.left)
  leftExit : (doubleLong br 0o1014).Listed (rom a.leftExit)
  entryRight : (Lshc.right a.step).Listed (rom a.entryRight)
  step : (Lshc.step a.right).Listed (rom a.step)
  right : (shiftLine c false br .keep a.right).Listed (rom a.right)
  rightExit : (doubleLong br 0o1014).Listed (rom a.rightExit)
  skips : 1 ||| a.left = a.leftExit ∧ 1 ||| a.right = a.rightExit ∧ 1 ||| a.entry = a.entryRight

variable {rom : MicroAddr → Microword}

namespace LshcListing

theorem setup (h : LshcListing rom) :
    (acToQ 1 0o0416 .never).Listed (rom 0o0045) ∧
      (Lshc.getHigh 0o0431 .never).Listed (rom 0o0416) ∧
      (halfLong br 0o0044 false).Listed (rom 0o0431) ∧ Lshc.shift.Listed (rom 0o0044) ∧
      (doubleLong br 0o1026).Listed (rom 0o1014) := by
  rw [h.getLow, h.getHigh, h.half, h.shift, h.lshcx]
  decide

theorem lshcLines (h : LshcListing rom) : ShiftLines rom .lshc lshcAddrs := by
  constructor
  case entry => rw [lshcAddrs, h.lshc]; decide
  case left => rw [lshcAddrs, h.lshcl]; decide
  case leftExit => rw [lshcAddrs, h.back']; decide
  case entryRight => rw [lshcAddrs, h.lshc']; decide
  case step => rw [lshcAddrs, h.step]; decide
  case right => rw [lshcAddrs, h.lshcr]; decide
  case rightExit => rw [lshcAddrs, h.back]; decide
  case skips => decide

theorem rotcLines (h : LshcListing rom) : ShiftLines rom .rotc rotcAddrs := by
  constructor
  case entry => rw [rotcAddrs, h.rotc]; decide
  case left => rw [rotcAddrs, h.rotcl]; decide
  case leftExit => rw [rotcAddrs, h.rotcBack']; decide
  case entryRight => rw [rotcAddrs, h.rotc']; decide
  case step => rw [rotcAddrs, h.rotcStep]; decide
  case right => rw [rotcAddrs, h.rotcr]; decide
  case rightExit => rw [rotcAddrs, h.rotcBack]; decide
  case skips => decide

end LshcListing

/-! ## What the lines do -/

section Lines

variable {e : Env} {p : Point} {j j' : MicroAddr}

theorem exec_getHigh : p.exec e (Lshc.getHigh j .never) =
    { p with
      pc := j
      ram := Function.update p.ram br ((Alu.dd (e.ac 0)).sshiftRight 1)
      q := Alu.down p.q false (bit p.q 3) } := by
  have hf : Alu.dd (e.ac 0) ||| 0#40 = Alu.dd (e.ac 0) := BitVec.or_zero
  refine Point.ext (Point.exec_pc_on rfl rfl) rfl ?_ rfl rfl rfl
  rw [← Alu.down_sign]
  exact congrArg (fun f => Function.update p.ram br (Alu.down f (bit f 0) (bit f 3))) hf

/-- The number of places that an effective address asks for, to the left. -/
def shiftCount (E : BitVec 36) : Int := (Operand.shift.value ⟨0, 0⟩ E).toInt

theorem shiftCount_eq (E : BitVec 36) :
    shiftCount E = (field E 28 35).toNat - if bit E 18 then 256 else 0 := by
  have hone : field E 18 18 = BitVec.ofBool (bit E 18) := by
    refine eq_of_bit fun k hk => ?_
    obtain rfl : k = 0 := by omega
    rw [bit_field E (by decide) (by decide) (by decide), Alu.bit_ofBool _ rfl]
  have hvalue : (Operand.shift.value ⟨0, 0⟩ E).toNat =
      (bit E 18).toNat * 512 + (bit E 18).toNat * 256 + (field E 28 35).toNat := by
    change (field E 18 18 ++ field E 18 18 ++ field E 28 35).toNat = _
    rw [toNat_append_eq, toNat_append_eq, hone, BitVec.toNat_ofBool]
    change (_ * 2 + _) * 256 + _ = _
    omega
  have hlt : (field E 28 35).toNat < 256 := (field E 28 35).isLt
  rw [shiftCount, BitVec.toInt_eq_toNat_cond, hvalue]
  cases bit E 18 with
  | false =>
      simp
      omega
  | true =>
      simp
      omega

theorem shiftCount_bounds (E : BitVec 36) : -256 ≤ shiftCount E ∧ shiftCount E ≤ 255 := by
  have hlt : (field E 28 35).toNat < 256 := (field E 28 35).isLt
  rw [shiftCount_eq]
  cases bit E 18 with
  | false => simp; omega
  | true => simp; omega

/-- The direction. -/
theorem bit_eq_shiftCount (E : BitVec 36) : bit E 18 = decide (shiftCount E < 0) := by
  have hlt : (field E 28 35).toNat < 256 := (field E 28 35).isLt
  rw [shiftCount_eq]
  cases bit E 18 with
  | false => exact (decide_eq_false (by simp)).symm
  | true => exact (decide_eq_true (by simp; omega)).symm

/-- The effective address is on the data path. -/
theorem exec_shift {E : BitVec 36} (hE : p.ram ar = Alu.dd E) : p.exec e Lshc.shift =
    { p with
      pc := e.j ||| if shiftCount E < 0 then 1 else 0
      scad := ⟨0o1777 + Operand.shift.value ⟨0, 0⟩ E, 0o1777 + Operand.shift.value ⟨0, 0⟩ E⟩ } := by
  have hf : 0#40 ||| p.ram ar = Alu.dd E := BitVec.zero_or.trans hE
  have hdp : p.dp e Lshc.shift = E := (congrArg (field · 2 37) hf).trans (Alu.field_dd E)
  have hpasses : Lshc.shift.test.passes (p.out e Lshc.shift) p.scad =
      decide (shiftCount E < 0) := by
    rw [← bit_eq_shiftCount, ← Alu.bit_dd E (by decide)]
    exact congrArg (bit · 20) hf
  have hpc : (p.exec e Lshc.shift).pc = e.j ||| if shiftCount E < 0 then 1 else 0 := by
    rw [Point.exec_pc_inst rfl, hpasses]
    refine BitVec.or_zero.trans ?_
    simp only [decide_eq_true_eq]
  refine Point.ext hpc rfl rfl rfl ?_ rfl
  exact congrArg (fun dp => (Count.plus 0o1777 .shift true).next p.scad dp) hdp

theorem exec_shiftStep (hj : 1 ||| j = j') : p.exec e (Lshc.step j) =
    { p with
      pc := if p.scad.sc.toInt < 0 then j' else j
      scad := { p.scad with sc := p.scad.sc - 1 } } := by
  have hpasses : (Lshc.step j).test.passes (p.out e (Lshc.step j)) p.scad =
      decide (p.scad.sc.toInt < 0) := by
    change bit p.scad.sc 0 = _
    exact BitVec.msb_eq_toInt
  exact Point.ext (Point.exec_pc_if rfl hpasses hj) rfl rfl rfl rfl rfl

theorem exec_right {E : BitVec 36} (hE : p.ram ar = Alu.dd E) : p.exec e (Lshc.right j) =
    { p with
      pc := j
      scad := { p.scad with sc := 0o1777 - Operand.shift.value ⟨0, 0⟩ E } } := by
  have hf : 0#40 ||| p.ram ar = Alu.dd E := BitVec.zero_or.trans hE
  have hdp : p.dp e (Lshc.right j) = E := (congrArg (field · 2 37) hf).trans (Alu.field_dd E)
  refine Point.ext (Point.exec_pc_on rfl rfl) rfl rfl rfl ?_ rfl
  exact congrArg (fun dp => (Count.minus 0o1777 .shift).next p.scad dp) hdp

end Lines

/-! ## The double word -/

/-- A double word is brought to the lower end of a register and `Q`. -/
theorem ring_half (a l : BitVec 36) :
    Alu.ring (((Alu.dd a).sshiftRight 1).sshiftRight 1)
      (Alu.down (Alu.down (Alu.dd l) false (bit (Alu.dd l) 3)) false
        (bit (Alu.down (Alu.dd l) false (bit (Alu.dd l) 3)) 3)) = a ++ l := by
  have hhigh : field (((Alu.dd a).sshiftRight 1).sshiftRight 1) 4 39 = a := by
    have hint : (((Alu.dd a).sshiftRight 1).sshiftRight 1).toInt = a.toInt := by
      rw [BitVec.toInt_sshiftRight, BitVec.toInt_sshiftRight, Int.shiftRight_eq_div_pow,
        Int.shiftRight_eq_div_pow, Alu.toInt_dd]
      omega
    have ha := a.isLt
    generalize ((Alu.dd a).sshiftRight 1).sshiftRight 1 = x at hint
    have hx := x.isLt
    rw [BitVec.toInt_eq_toNat_cond, BitVec.toInt_eq_toNat_cond] at hint
    refine BitVec.eq_of_toNat_eq ?_
    rw [field, BitVec.extractLsb'_toNat]
    change (_ >>> 0) % 2 ^ 36 = _
    rw [Nat.shiftRight_zero]
    split at hint
    · split at hint
      · omega
      · omega
    · split at hint
      · omega
      · omega
  have hlow (q : BitVec 40) (hq : q.toNat = (Alu.dd l).toNat / 2 / 2) : field q 4 39 = l := by
    have hl := l.isLt
    refine BitVec.eq_of_toNat_eq ?_
    rw [field, BitVec.extractLsb'_toNat, hq, Alu.toNat_dd]
    change (_ >>> 0) % 2 ^ 36 = _
    rw [Nat.shiftRight_zero]
    split
    · omega
    · omega
  rw [Alu.ring, hhigh, hlow _ (by rw [Alu.toNat_half_q, Alu.toNat_half_q])]

/-- It is brought back. -/
theorem word_back (x : BitVec 40) : field (x + x + (x + x)) 2 37 = field x 4 39 := by
  refine BitVec.eq_of_toNat_eq ?_
  rw [Alu.toNat_word, BitVec.toNat_add, BitVec.toNat_add, field, BitVec.extractLsb'_toNat]
  change _ = (_ >>> 0) % 2 ^ 36
  rw [Nat.shiftRight_zero]
  omega

/-! ## The instruction -/

section Run

variable {e : Env} {p p₀ : Point} {c : Alu.Combined} {a : ShiftAddrs} {E : BitVec 36} {n : Nat}
  {left : Bool} {x : BitVec 72}

/-- A combined shift begins with the effective address in AR. -/
structure ShiftStarts (E : BitVec 36) (v : View) : Prop where
  pc : v.pc = 0o0045
  depth : v.stack.length < 16
  ar : v.path.alu.aluRAM ar = Alu.dd E

/-- The two words are to be stored. -/
structure ShiftDone (x : BitVec 72) (p : Point) (v : View) : Prop where
  pc : v.pc = 0o1026
  stack : v.stack = p.stack
  pcFlags : v.path.pcFlags = p.pcFlags
  others : ∀ u, u ≠ br → v.path.alu.aluRAM u = p.ram u
  words : field (v.path.alu.aluRAM br) 2 37 ++ field v.path.alu.q 2 37 = x

/-- The double word is brought back behind the loop. -/
theorem shift_back (hrom : LshcListing rom) {pc : MicroAddr}
    (hexit : (doubleLong br 0o1014).Listed (rom pc)) (hpc : p.pc = pc) (hdepth : p.stack.length < 16)
    (hstack : p.stack = p₀.stack) (hpcFlags : p.pcFlags = p₀.pcFlags)
    (hothers : ∀ u, u ≠ br → p.ram u = p₀.ram u) (hring : Alu.ring (p.ram br) p.q = x) :
    Reaches rom e p (ShiftDone x p₀) := by
  obtain ⟨-, -, -, -, hlast⟩ := hrom.setup
  rw [← hpc] at hexit
  refine Reaches.line hexit hdepth rfl ?_
  rw [exec_doubleLong]
  refine Reaches.line hlast hdepth rfl ?_
  rw [exec_doubleLong]
  refine Reaches.done fun v hv => ?_
  have hram : v.path.alu.aluRAM = Function.update (Function.update p.ram br (p.ram br + p.ram br)) br
      (Function.update p.ram br (p.ram br + p.ram br) br +
        Function.update p.ram br (p.ram br + p.ram br) br) := congrArg Point.ram hv
  have hq : v.path.alu.q = p.q + p.q + (p.q + p.q) := congrArg Point.q hv
  rw [Function.update_self, Function.update_idem] at hram
  refine ⟨congrArg Point.pc hv, (congrArg Point.stack hv).trans hstack,
    (congrArg Point.pcFlags hv).trans hpcFlags, fun u hu => ?_, ?_⟩
  · rw [hram, Function.update_of_ne hu, hothers u hu]
  · rw [hram, hq, Function.update_self, word_back, word_back]
    exact hring

/-- The counts of a shift. -/
theorem toInt_count (E : BitVec 36) :
    (0o1777 + Operand.shift.value ⟨0, 0⟩ E : BitVec 10).toInt = shiftCount E - 1 ∧
      (0o1777 - Operand.shift.value ⟨0, 0⟩ E : BitVec 10).toInt = -1 - shiftCount E := by
  obtain ⟨hlow, hhigh⟩ := shiftCount_bounds E
  have hone : (0o1777 : BitVec 10).toInt = -1 := rfl
  rw [BitVec.toInt_add, BitVec.toInt_sub, hone]
  change (-1 + shiftCount E).bmod _ = _ ∧ (-1 - shiftCount E).bmod _ = _
  rw [Int.bmod_eq_of_le (by omega) (by omega), Int.bmod_eq_of_le (by omega) (by omega)]
  exact ⟨by omega, rfl⟩

theorem keep_ne_ash : Effect.keep ≠ .ash := by decide

/-- A combined shift to the left. -/
theorem shift_left (hrom : LshcListing rom) (hlines : ShiftLines rom c a) (hc : c ≠ .ashc)
    (hpc : p.pc = a.entry) (hdepth : p.stack.length < 16) (hsc : p.scad.sc.toInt = n - 1) :
    Reaches rom e p (ShiftDone (c.shifted true false (Alu.ring (p.ram br) p.q) n) p) := by
  have hentry := hlines.entry
  rw [← hpc] at hentry
  refine Reaches.line hentry hdepth rfl ?_
  rw [exec_shiftStep hlines.skips.1]
  have hsigned : c = .ashc → Alu.Signed (p.ram br) false := fun h => absurd h hc
  refine shift_loop hlines.skips.1 (.inl rfl) (fun h => absurd h keep_ne_ash) hlines.left n ?_ ?_
    hdepth hsigned fun p' hp' h => ?_
  · change (if p.scad.sc.toInt < 0 then a.leftExit else a.left) = _
    refine if_congr ?_ rfl rfl
    omega
  · change (p.scad.sc - 1).toInt = _
    have hcount : (p.scad.sc - 1).toInt = p.scad.sc.toInt - 1 :=
      toInt_sc_step (by omega)
    rw [hcount, hsc]
    omega
  · refine shift_back hrom hlines.leftExit hp' ?_ h.stack h.pcFlags h.others h.ring
    rw [h.stack]
    exact hdepth

/-- A combined shift to the right. -/
theorem shift_right (hrom : LshcListing rom) (hlines : ShiftLines rom c a) (hc : c ≠ .ashc)
    (hpc : p.pc = a.entryRight) (hdepth : p.stack.length < 16) (hE : p.ram ar = Alu.dd E)
    (hn : shiftCount E = -n) (hpos : 0 < n) :
    Reaches rom e p (ShiftDone (c.shifted false false (Alu.ring (p.ram br) p.q) n) p) := by
  obtain ⟨-, hcount⟩ := toInt_count E
  have hentry := hlines.entryRight
  rw [← hpc] at hentry
  refine Reaches.line hentry hdepth rfl ?_
  rw [exec_right hE]
  generalize (0o1777 - Operand.shift.value ⟨0, 0⟩ E : BitVec 10) = z at hcount ⊢
  refine Reaches.line hlines.step hdepth rfl ?_
  rw [exec_shiftStep hlines.skips.2.1]
  have hsigned : c = .ashc → Alu.Signed (p.ram br) false := fun h => absurd h hc
  refine shift_loop hlines.skips.2.1 (.inl rfl) (fun h => absurd h keep_ne_ash) hlines.right n ?_
    ?_ hdepth hsigned fun p' hp' h => ?_
  · change (if z.toInt < 0 then a.rightExit else a.right) = _
    refine if_congr ?_ rfl rfl
    omega
  · change (z - 1).toInt = _
    have hstep : (z - 1).toInt = z.toInt - 1 := toInt_sc_step (by omega)
    rw [hstep, hcount]
    omega
  · refine shift_back hrom hlines.rightExit hp' ?_ h.stack h.pcFlags h.others h.ring
    rw [h.stack]
    exact hdepth

/-- The dispatch to a combined shift. -/
theorem shift_dispatch (hrom : LshcListing rom) (hlines : ShiftLines rom c a) (hc : c ≠ .ashc)
    (hpc : p.pc = 0o0044) (hdepth : p.stack.length < 16) (hE : p.ram ar = Alu.dd E)
    (hring : Alu.ring (p.ram br) p.q = x) (hj : e.j = a.entry) :
    Reaches rom e p
      (ShiftDone (c.shifted (decide (0 ≤ shiftCount E)) false x (shiftCount E).natAbs) p) := by
  rw [← hring]
  obtain ⟨-, -, -, hshift, -⟩ := hrom.setup
  obtain ⟨hcount, -⟩ := toInt_count E
  rw [← hpc] at hshift
  refine Reaches.line hshift hdepth rfl ?_
  rw [exec_shift hE, hj]
  generalize (0o1777 + Operand.shift.value ⟨0, 0⟩ E : BitVec 10) = z at hcount ⊢
  by_cases hneg : shiftCount E < 0
  · have hentry : a.entry ||| 1 = a.entryRight := (BitVec.or_comm _ _).trans hlines.skips.2.2
    rw [if_pos hneg, hentry, decide_eq_false (by omega)]
    have hdone := shift_right hrom hlines hc (E := E) (n := (shiftCount E).natAbs)
      (p := { p with pc := a.entryRight, scad := ⟨z, z⟩ }) (e := e) rfl hdepth hE (by omega) (by omega)
    refine hdone.mono fun v hv => ?_
    exact ⟨hv.pc, hv.stack, hv.pcFlags, hv.others, hv.words⟩
  · have hentry : a.entry ||| 0 = a.entry := BitVec.or_zero
    have hn : z.toInt = ((shiftCount E).natAbs : Int) - 1 := by omega
    rw [if_neg hneg, hentry, decide_eq_true (by omega)]
    have hdone := shift_left hrom hlines hc (n := (shiftCount E).natAbs)
      (p := { p with pc := a.entry, scad := ⟨z, z⟩ }) (e := e) rfl hdepth hn
    refine hdone.mono fun v hv => ?_
    exact ⟨hv.pc, hv.stack, hv.pcFlags, hv.others, hv.words⟩

/-- The operands are fetched. -/
theorem exec_fetch : ((p.exec e (acToQ 1 0o0416 .never)).exec e (Lshc.getHigh 0o0431 .never)).exec e
    (halfLong br 0o0044 false) =
      { p with
        pc := 0o0044
        ram := Function.update p.ram br (((Alu.dd (e.ac 0)).sshiftRight 1).sshiftRight 1)
        q := Alu.down (Alu.down (Alu.dd (e.ac 1)) false (bit (Alu.dd (e.ac 1)) 3)) false
          (bit (Alu.down (Alu.dd (e.ac 1)) false (bit (Alu.dd (e.ac 1)) 3)) 3) } := by
  rw [exec_acToQ, exec_getHigh, exec_halfLong]
  refine Point.ext rfl rfl ?_ rfl rfl rfl
  simp only [Function.update_self, Function.update_idem]

/-- A combined shift, from the fetch of its operands. -/
theorem shift_combined (hrom : LshcListing rom) (hlines : ShiftLines rom c a) (hc : c ≠ .ashc)
    {v : View} (h : ShiftStarts E v) (hj : e.j = a.entry) :
    Reaches rom e v.point (ShiftDone (c.shifted (decide (0 ≤ shiftCount E)) false
      (e.ac 0 ++ e.ac 1) (shiftCount E).natAbs) v.point) := by
  obtain ⟨hgetLow, hgetHigh, hhalf, -⟩ := hrom.setup
  have hdepth : v.point.stack.length < 16 := h.depth
  have hstart : v.point.pc = 0o0045 := h.pc
  have harbr : ar ≠ br := by decide
  have hring := ring_half (e.ac 0) (e.ac 1)
  have hfetch := exec_fetch (e := e) (p := v.point)
  rw [← hstart] at hgetLow
  rw [exec_acToQ, exec_getHigh, exec_halfLong] at hfetch
  refine Reaches.line hgetLow hdepth rfl ?_
  rw [exec_acToQ]
  refine Reaches.line hgetHigh hdepth rfl ?_
  rw [exec_getHigh]
  refine Reaches.line hhalf hdepth rfl ?_
  rw [exec_halfLong, hfetch]
  clear hfetch
  generalize ((Alu.dd (e.ac 0)).sshiftRight 1).sshiftRight 1 = y at hring
  generalize Alu.down (Alu.down (Alu.dd (e.ac 1)) false (bit (Alu.dd (e.ac 1)) 3)) false
    (bit (Alu.down (Alu.dd (e.ac 1)) false (bit (Alu.dd (e.ac 1)) 3)) 3) = q at hring
  have hother (u : BitVec 4) (hu : u ≠ br) : Function.update v.point.ram br y u = v.point.ram u :=
    Function.update_of_ne hu y v.point.ram
  have hbr : Function.update v.point.ram br y br = y := Function.update_self br y v.point.ram
  generalize Function.update v.point.ram br y = f at hother hbr
  have hdone := shift_dispatch hrom hlines hc (E := E) (p := { v.point with
    pc := 0o0044
    ram := f
    q := q }) rfl hdepth ((hother ar harbr).trans h.ar) ((congrArg (Alu.ring · q) hbr).trans hring)
    hj
  refine hdone.mono fun v' hv' => ?_
  exact ⟨hv'.pc, hv'.stack, hv'.pcFlags, fun u hu => (hv'.others u hu).trans (hother u hu),
    hv'.words⟩

/-- LSHC and ROTC, from the fetch of their operands to the store of the results. -/
theorem lshc_rotc_run (rom : MicroAddr → Microword) (hrom : LshcListing rom) (e : Env)
    (E : BitVec 36) (v : View) (h : ShiftStarts E v) :
    (e.j = 0o1464 → Comes (next rom) e.Meets Goes (Shows rom v)
      (Shown rom (ShiftDone (if 0 ≤ shiftCount E then (e.ac 0 ++ e.ac 1) <<< (shiftCount E).natAbs
        else (e.ac 0 ++ e.ac 1) >>> (shiftCount E).natAbs) v.point))) ∧
    (e.j = 0o1470 → Comes (next rom) e.Meets Goes (Shows rom v)
      (Shown rom (ShiftDone (if 0 ≤ shiftCount E then
        (e.ac 0 ++ e.ac 1).rotateLeft (shiftCount E).natAbs
        else (e.ac 0 ++ e.ac 1).rotateRight (shiftCount E).natAbs) v.point))) := by
  have hlshc : Alu.Combined.lshc ≠ .ashc := by decide
  have hrotc : Alu.Combined.rotc ≠ .ashc := by decide
  constructor
  · intro hj
    have hrun := shift_combined hrom hrom.lshcLines hlshc h hj
    by_cases hleft : 0 ≤ shiftCount E
    · rw [decide_eq_true hleft] at hrun
      rw [if_pos hleft]
      exact hrun.comes
    · rw [decide_eq_false hleft] at hrun
      rw [if_neg hleft]
      exact hrun.comes
  · intro hj
    have hrun := shift_combined hrom hrom.rotcLines hrotc h hj
    by_cases hleft : 0 ≤ shiftCount E
    · rw [decide_eq_true hleft] at hrun
      rw [if_pos hleft]
      exact hrun.comes
    · rw [decide_eq_false hleft] at hrun
      rw [if_neg hleft]
      exact hrun.comes

/-- LSHC by 4 places to the left, with 3 in both accumulators. -/
theorem lshc_four : ∃ t,
    Shown ks10Rom (ShiftDone (0o000000000060_000000000060) (View.point ⟨0o0045, [], pathOf 4⟩))
      (startAt 0o0045 4 3 0o14640000 t) :=
  startAt_comes ((lshc_rotc_run ks10Rom lshcListing (steadyIn 3 0o14640000).env 4
    ⟨0o0045, [], pathOf 4⟩ ⟨rfl, by decide, rfl⟩).1 rfl)

end Run

end Micro

end KS10
