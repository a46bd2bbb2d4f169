import KS10.Micro.Word

/-!
# Straight microprograms

Most of a microprogram is straight: a microword works on the registers and on what the bus
brings it, and goes on to the next one or skips.  A `Line` is such a microword of the listing
with everything that it does, and `Point.exec` is the machine after it, as a function of the
registers that the lines see.

A bus word comes from the ALU itself, from the accumulators of the instruction, or from the
number field.  What the accumulators hold and how the instruction is finished does not change
while it is executed (`Env`).
-/

namespace KS10

open Clocked Microword

namespace Micro

/-! ## What a line does -/

/-- What a microword takes from the bus. -/
inductive Bus where
  | none
  /-- The output of the ALU. -/
  | dp
  /-- The accumulator `n` places behind the one of the instruction. -/
  | ac (n : BitVec 4)
  | num (n : BitVec 18)

/-- What a microword skips on. -/
inductive Test where
  | never
  | zero
  | sign
  | count
  | carry
  /-- The right half is zero. -/
  | rightZero
  /-- The sign of the right half. -/
  | right

/-- Where a microword goes on: at its jump field, where the dispatch ROM has the instruction
executed or finished, or behind the microword that has called, perhaps at one of the sixteen
places there that the data path tells. -/
inductive Way where
  | on
  | inst
  | drom
  | back
  | backDp
  deriving DecidableEq

def Way.returns : Way → Bool
  | on => false
  | inst => false
  | drom => false
  | back => true
  | backDp => true

/-- What a microword makes of the PC flags. -/
inductive Effect where
  | keep
  | overflow
  | noDivide
  /-- Record the carries and the overflow of the sum. -/
  | carries
  /-- Record whether a shift to the left has lost a bit. -/
  | ash
  deriving DecidableEq

/-- A microword of a straight program. -/
structure Line where
  op : Alu.Op
  bus : Bus := .none
  j : MicroAddr
  way : Way := .on
  test : Test := .never
  call : Bool := false
  count : Count := .keep
  effect : Effect := .keep

/-! ## What the machine does -/

/-- What a straight program sees of the machine. -/
@[ext]
structure Point where
  pc : MicroAddr
  stack : List MicroAddr
  ram : BitVec 4 → BitVec 40
  q : BitVec 40
  scad : Scad
  pcFlags : PcFlags

/-- What stays while an instruction is executed: its accumulators, and the fields B and J of the
dispatch ROM. -/
structure Env where
  ac : BitVec 4 → BitVec 36
  b : BitVec 4
  j : MicroAddr

def View.point (v : View) : Point :=
  ⟨v.pc, v.stack, v.path.alu.aluRAM, v.path.alu.q, v.path.scad, v.path.pcFlags⟩

/-- The ALU with these registers. -/
def Point.alu (p : Point) : Alu := ⟨p.ram, p.q, false, false, false, false, false⟩

def Bus.word (b : Bus) (e : Env) (p : Point) (o : Alu.Op) : BitVec 36 :=
  match b with
  | none => 0
  | dp => o.aluOUT p.alu 0
  | ac n => e.ac n
  | num n => n ++ n

def Test.passes (t : Test) (o : Alu.Out) (s : Scad) : Bool :=
  match t with
  | never => false
  | zero => o.f == 0
  | sign => bit o.f 0
  | count => s.scSIGN
  | carry => o.aluCRY1
  | rightZero => o.aluRZERO
  | right => o.aluRSIGN

def Way.addr (w : Way) (e : Env) (l : List MicroAddr) (dp : BitVec 36) : MicroAddr :=
  match w with
  | on => 0
  | inst => e.j
  | drom => 0#8 ++ e.b
  | back => l.headD 0
  | backDp => field (l.headD 0) 0 7 ++ field dp 18 21

def Effect.next (x : Effect) (s : PcFlags) (o : Alu.Out) (dp : BitVec 36) : PcFlags :=
  match x with
  | keep => s
  | overflow => { s with flagAov := true, flagTrap1 := true, flagTrap2 := false }
  | noDivide =>
    { s with flagAov := true, flagNoDiv := true, flagTrap1 := true, flagTrap2 := false }
  | carries =>
    { s with
      flagAov := o.aluAOV || s.flagAov
      flagCry0 := o.aluCRY0 || s.flagCry0
      flagCry1 := o.aluCRY1 || s.flagCry1
      flagTrap1 := o.aluAOV
      flagTrap2 := false }
  | ash =>
    { s with flagAov := bit dp 1 != bit dp 2, flagTrap1 := bit dp 1 != bit dp 2 }

namespace Point

variable (e : Env) (l : Line) (p : Point)

def bus : BitVec 36 := l.bus.word e p l.op

def out : Alu.Out := l.op.out p.alu (p.bus e l)

def dp : BitVec 36 := l.op.aluOUT p.alu (p.bus e l)

/-- The machine after the line `l`. -/
def exec : Point where
  pc :=
    l.way.addr e p.stack (p.dp e l) ||| (if l.test.passes (p.out e l) p.scad then 1 else 0) ||| l.j
  stack := if l.call then p.pc :: p.stack else if l.way.returns then p.stack.tail else p.stack
  ram := (l.op.next p.alu (p.bus e l)).aluRAM
  q := (l.op.next p.alu (p.bus e l)).q
  scad := l.count.next p.scad (p.dp e l)
  pcFlags := l.effect.next p.pcFlags (p.out e l) (p.dp e l)

variable {e l p}

/-- Where a line goes on. -/
theorem exec_pc (hway : l.way = .on) : (p.exec e l).pc =
    (if l.test.passes (p.out e l) p.scad then 1 else 0) ||| l.j := by
  have haddr : l.way.addr e p.stack (p.dp e l) = 0#12 := by
    rw [hway]
    rfl
  rw [exec, haddr]
  exact congrArg (· ||| l.j) BitVec.zero_or

theorem exec_pc_on (hway : l.way = .on) (htest : l.test = .never) : (p.exec e l).pc = l.j := by
  rw [exec_pc hway, htest]
  exact BitVec.zero_or

/-- A line that skips on a condition. -/
theorem exec_pc_if {c : Prop} [Decidable c] {j : MicroAddr} (hway : l.way = .on)
    (hpasses : l.test.passes (p.out e l) p.scad = decide c) (hj : 1 ||| l.j = j) :
    (p.exec e l).pc = if c then j else l.j := by
  rw [exec_pc hway, hpasses]
  by_cases hc : c
  · rw [if_pos (decide_eq_true hc), if_pos hc, hj]
  · rw [decide_eq_false hc, if_neg hc]
    exact BitVec.zero_or

theorem exec_pc_inst (hway : l.way = .inst) :
    (p.exec e l).pc =
      e.j ||| (if l.test.passes (p.out e l) p.scad then 1 else 0) ||| l.j := by
  have haddr : l.way.addr e p.stack (p.dp e l) = e.j := by
    rw [hway]
    rfl
  rw [exec, haddr]

theorem exec_pc_drom (hway : l.way = .drom) (htest : l.test = .never) :
    (p.exec e l).pc = (0#8 ++ e.b) ||| l.j := by
  have haddr : l.way.addr e p.stack (p.dp e l) = 0#8 ++ e.b := by
    rw [hway]
    rfl
  rw [exec, haddr, htest]
  exact congrArg (· ||| l.j) BitVec.or_zero

/-- A return. -/
theorem exec_pc_back (hway : l.way = .back) (htest : l.test = .never) :
    (p.exec e l).pc = p.stack.headD 0 ||| l.j := by
  have haddr : l.way.addr e p.stack (p.dp e l) = p.stack.headD 0 := by
    rw [hway]
    rfl
  rw [exec, haddr, htest]
  exact congrArg (· ||| l.j) BitVec.or_zero

theorem exec_pc_backDp (hway : l.way = .backDp) (htest : l.test = .never) :
    (p.exec e l).pc = (field (p.stack.headD 0) 0 7 ++ field (p.dp e l) 18 21) ||| l.j := by
  have haddr : l.way.addr e p.stack (p.dp e l) =
      field (p.stack.headD 0) 0 7 ++ field (p.dp e l) 18 21 := by
    rw [hway]
    rfl
  rw [exec, haddr, htest]
  exact congrArg (· ||| l.j) BitVec.or_zero

end Point

/-! ## The listing -/

/-- The accumulator that a microword selects in the RAM file. -/
def acOf (w : Microword) : Option (BitVec 4) :=
  if cromRamAddrSel w = 0b000 then some 0
  else if cromRamAddrSel w = 0b001 ∧ cromAcAluFun w = 0o62 then some (cromAcAluNum w)
  else none

def Bus.Asked (b : Bus) (w : Microword) (o : Alu.Op) : Prop :=
  match b with
  | none => o.readsBus = false
  | dp => cromDbusSel w = 0b01
  | ac n => cromDbusSel w = 0b10 ∧ acOf w = some n
  | num n => cromDbusSel w = 0b11 ∧ cromDbmSel w = 0b111 ∧ cromNum w = n

instance (b : Bus) (w : Microword) (o : Alu.Op) : Decidable (b.Asked w o) :=
  match b with
  | .none => inferInstanceAs (Decidable (_ = _))
  | .dp => inferInstanceAs (Decidable (_ = _))
  | .ac _ => inferInstanceAs (Decidable (_ ∧ _))
  | .num _ => inferInstanceAs (Decidable (_ ∧ _))

def Test.code : Test → BitVec 6
  | never => 0o70
  | zero => 0o62
  | sign => 0o52
  | count => 0o63
  | carry => 0o56
  | rightZero => 0o33
  | right => 0o53

def Way.code : Way → BitVec 6
  | on => 0o70
  | inst => 0o12
  | drom => 0o37
  | back => 0o41
  | backDp => 0o01

/-- The number field of the special functions that change the PC flags. -/
def Effect.Asked (x : Effect) (w : Microword) : Prop :=
  match x with
  | keep => cromSpecEn40 w = false
  | overflow => spec40 w 6 = true ∧ cromNum w = 0o411000
  | noDivide => spec40 w 6 = true ∧ cromNum w = 0o511000
  | carries => spec40 w 6 = true ∧ cromNum w = 0o010001
  | ash => spec40 w 4 = true

instance (x : Effect) (w : Microword) : Decidable (x.Asked w) :=
  match x with
  | .keep => inferInstanceAs (Decidable (_ = _))
  | .overflow => inferInstanceAs (Decidable (_ ∧ _))
  | .noDivide => inferInstanceAs (Decidable (_ ∧ _))
  | .carries => inferInstanceAs (Decidable (_ ∧ _))
  | .ash => inferInstanceAs (Decidable (_ = _))

def Line.control (l : Line) : Control where
  j := l.j
  disp := l.way.code
  skip := l.test.code
  call := l.call
  count := l.count
  flags := l.effect != .keep

/-- The listing has the line `l` in the microword `w`. -/
@[mk_iff]
structure Line.Listed (l : Line) (w : Microword) : Prop where
  word : Word w l.op l.control
  bus : l.bus.Asked w l.op
  effect : l.effect.Asked w

instance (l : Line) (w : Microword) : Decidable (l.Listed w) :=
  decidable_of_iff' _ (l.listed_iff w)

/-- The inputs bring the environment to the machine. -/
structure Env.Meets (e : Env) (s : Micro) (i : In) : Prop where
  quiet : Quiet i
  ac : ∀ n, acOf s.crom = some n → i.ramfile = e.ac n
  drom : Useq.dromB i.useq = e.b
  dispJ : Useq.dispJ i.useq = e.j

/-- The environment of constant inputs. -/
def In.env (i : In) : Env := ⟨fun _ => i.ramfile, Useq.dromB i.useq, Useq.dispJ i.useq⟩

theorem In.feeds (rom : MicroAddr → Microword) (s : Micro) {i : In} (hgo : Goes i)
    (hquiet : Quiet i) : Feeds (next rom) i.env.Meets Goes s fun _ => i where
  meets _ := ⟨hquiet, fun _ _ => rfl, rfl, rfl⟩
  goes t := ⟨t, Nat.le_refl t, hgo⟩

variable {e : Env} {l : Line} {w : Microword} {v : View} {s : Micro} {i : In} {r : MicroAddr}

/-- The word on the bus. -/
theorem Line.Listed.bus_eq (h : l.Listed w) (hac : ∀ n, acOf w = some n → i.ramfile = e.ac n)
    (hbus : l.op.readsBus = true) : v.path.dbus w i = v.point.bus e l := by
  have hasked := h.bus
  have hword : v.point.bus e l = l.bus.word e v.point l.op := rfl
  rw [hword]
  cases hb : l.bus with
  | none =>
      rw [hb] at hasked
      exact absurd (hasked.symm.trans hbus) Bool.false_ne_true
  | dp =>
      rw [hb] at hasked
      have hsel : cromDbusSel w = 0b01 := hasked
      rw [Path.dbus, In.dbus, hsel]
      change v.path.dpOut w = _
      rw [Path.dpOut, h.word.whole.aluOUT, h.word.op]
      rfl
  | ac n =>
      rw [hb] at hasked
      obtain ⟨hsel, hn⟩ := hasked
      rw [Path.dbus, In.dbus, hsel]
      exact hac n hn
  | num n =>
      rw [hb] at hasked
      obtain ⟨hsel, hdbm, hn⟩ := hasked
      have hforce : i.forceRAMFILE w = false := by
        rw [In.forceRAMFILE, hdbm]
        exact Bool.and_false _
      have hnum : i.dbm w (v.path.dpOut w) (v.path.scad.scad w (v.path.dpOut w)) = n ++ n := by
        rw [In.dbm, hdbm, ← hn]
        rfl
      rw [Path.dbus, In.dbus, hsel]
      change (if i.forceRAMFILE w = true then _ else _) = _
      rw [hforce, if_neg Bool.false_ne_true, hnum]
      rfl

/-- The output of the ALU, and the word that it shows. -/
theorem Line.Listed.out_eq (h : l.Listed w) (hac : ∀ n, acOf w = some n → i.ramfile = e.ac n) :
    l.op.out v.path.alu (v.path.dbus w i) = v.point.out e l := by
  change l.op.out v.path.alu (v.path.dbus w i) = l.op.out v.path.alu (v.point.bus e l)
  cases hbus : l.op.readsBus with
  | false => exact l.op.out_congr _ hbus _ _
  | true => rw [h.bus_eq hac hbus]

theorem bit_cromNum (w : Microword) {k : Nat} (hk : k ≤ 17) : bit (cromNum w) k = bit w (90 + k) :=
  bit_field w hk (by decide) (by decide)

/-- A flag change that does not load the flags, nor clear one, and holds USER. -/
theorem pcFlags_num {f : PcFlags.In} {n : BitVec 18} (hrst : f.rst = false) (hclken : f.clken = true)
    (hsel : spec40 f.crom 6 = true) (hnum : cromNum f.crom = n)
    (hclear : ∀ k ∈ [1, 3, 4, 7, 9, 14, 15], bit n k = false) (huser : bit n 5 = true)
    (g : PcFlags) :
    g.next f =
      { g with
        flagAov := bit n 0 || (bit n 17 && PcFlags.aluAov f) || g.flagAov
        flagCry0 := (bit n 17 && PcFlags.aluCry0 f) || g.flagCry0
        flagCry1 := (bit n 17 && PcFlags.aluCry1 f) || g.flagCry1
        flagTrap2 := false
        flagTrap1 := bit n 8 || (bit n 17 && PcFlags.aluAov f)
        flagNoDiv := bit n 2 || g.flagNoDiv } := by
  have hbit {k : Nat} (hk : k ≤ 17) : bit f.crom (90 + k) = bit n k := by
    rw [← hnum, bit_cromNum _ hk]
  have hzero {k : Nat} (hk : k ≤ 17) (hmem : k ∈ [1, 3, 4, 7, 9, 14, 15]) :
      bit f.crom (90 + k) = false := (hbit hk).trans (hclear k hmem)
  have hflags : PcFlags.selPcFlags f = true := hsel
  have hash : PcFlags.selAshTest f = false := PcFlags.spec40_unique (by decide) hsel
  have hexp : PcFlags.selExpTest f = false := PcFlags.spec40_unique (by decide) hsel
  have hfov : cromSetFov f.crom = false := hzero (k := 1) (by decide) (by decide)
  have hclrFpd : cromClrFpd f.crom = false := hzero (k := 3) (by decide) (by decide)
  have hsetFpd : cromSetFpd f.crom = false := hzero (k := 4) (by decide) (by decide)
  have htrap2 : cromSetTrap2 f.crom = false := hzero (k := 7) (by decide) (by decide)
  have hpcu : cromSetPcu f.crom = false := hzero (k := 9) (by decide) (by decide)
  have hjfcl : cromJfclFlags f.crom = false := hzero (k := 14) (by decide) (by decide)
  have hload : cromLdFlags f.crom = false := hzero (k := 15) (by decide) (by decide)
  have hhold : cromHoldUser f.crom = true := (hbit (k := 5) (by decide)).trans huser
  have hov : cromSetOv f.crom = bit n 0 := hbit (k := 0) (by decide)
  have hnoDiv : cromSetNoDiv f.crom = bit n 2 := hbit (k := 2) (by decide)
  have htrap1 : cromSetTrap1 f.crom = bit n 8 := hbit (k := 8) (by decide)
  have hcarries : cromAdFlags f.crom = bit n 17 := hbit (k := 17) (by decide)
  have hno (flag : Bool) (k : Nat) : PcFlags.jfcl f flag k = false := by
    rw [PcFlags.jfcl, hjfcl, Bool.and_false]
    rfl
  simp only [PcFlags.next, PcFlags.nextAov, PcFlags.nextCry0, PcFlags.nextCry1, PcFlags.nextCry,
    PcFlags.nextFov, PcFlags.nextFpd, PcFlags.nextUser, PcFlags.nextUserIo, PcFlags.nextTrap2,
    PcFlags.nextTrap1, PcFlags.nextFxu, PcFlags.nextNoDiv, hrst, hclken, hflags, hash, hexp, hfov,
    hclrFpd, hsetFpd, htrap2, hpcu, hload, hhold, hov, hnoDiv, htrap1, hcarries, hno,
    Bool.false_eq_true, if_false, if_true, Bool.and_false, Bool.false_or, Bool.or_false,
    Bool.not_false, Bool.and_true]
  congr 1
  all_goals grind

/-- The special functions on the PC flags. -/
theorem Effect.Asked.next {x : Effect} (h : x.Asked w) {f : PcFlags.In} (hcrom : f.crom = w)
    (hrst : f.rst = false) (hclken : f.clken = true) (o : Alu.Out)
    (haov : PcFlags.aluAov f = o.aluAOV) (hcry0 : PcFlags.aluCry0 f = o.aluCRY0)
    (hcry1 : PcFlags.aluCry1 f = o.aluCRY1) (g : PcFlags) : g.next f = x.next g o f.dp := by
  subst hcrom
  cases x with
  | keep => exact pcFlags_keep h hrst g
  | overflow =>
      obtain ⟨hsel, hnum⟩ := h
      rw [pcFlags_num hrst hclken hsel hnum (by decide) (by decide)]
      rfl
  | noDivide =>
      obtain ⟨hsel, hnum⟩ := h
      rw [pcFlags_num hrst hclken hsel hnum (by decide) (by decide)]
      rfl
  | carries =>
      obtain ⟨hsel, hnum⟩ := h
      rw [pcFlags_num hrst hclken hsel hnum (by decide) (by decide), haov, hcry0, hcry1]
      rfl
  | ash =>
      have hash : PcFlags.selAshTest f = true := h
      have hflags : PcFlags.selPcFlags f = false := PcFlags.selPcFlags_of_selAshTest hash
      have hexp : PcFlags.selExpTest f = false := PcFlags.selExpTest_of_selAshTest hash
      simp only [PcFlags.next, PcFlags.nextAov, PcFlags.nextCry0, PcFlags.nextCry1,
        PcFlags.nextCry, PcFlags.nextFov, PcFlags.nextFpd, PcFlags.nextUser, PcFlags.nextUserIo,
        PcFlags.nextTrap2, PcFlags.nextTrap1, PcFlags.nextFxu, PcFlags.nextNoDiv, hrst, hclken,
        hflags, hexp, hash, Bool.false_eq_true, if_false, if_true]
      rfl

/-! ## One line -/

/-- What stands in the ALU flags. -/
theorem bit_aluFLAGS (p : Path) (w : Microword) (i : In) :
    bit (p.aluFLAGS w i) 3 = (p.alu.out w (p.dbus w i)).aluLSIGN ∧
      bit (p.aluFLAGS w i) 5 = (p.alu.out w (p.dbus w i)).aluAOV ∧
      bit (p.aluFLAGS w i) 6 = (p.alu.out w (p.dbus w i)).aluCRY0 ∧
      bit (p.aluFLAGS w i) 7 = (p.alu.out w (p.dbus w i)).aluCRY1 ∧
      bit (p.aluFLAGS w i) 2 = (p.alu.out w (p.dbus w i)).aluRZERO ∧
      bit (p.aluFLAGS w i) 4 = (p.alu.out w (p.dbus w i)).aluRSIGN := by
  simp only [Path.aluFLAGS, Alu.aluFLAGS, bit, BitVec.getMsbD_ofBoolListBE]
  exact ⟨rfl, rfl, rfl, rfl, rfl, rfl⟩

/-- The machine after a line of the listing. -/
theorem Line.Listed.exec (h : l.Listed w) (hquiet : Quiet i)
    (hac : ∀ n, acOf w = some n → i.ramfile = e.ac n) (hdrom : Useq.dromB i.useq = e.b)
    (hdispJ : Useq.dispJ i.useq = e.j)
    (hback : l.way.returns = true → r = v.stack.headD 0) :
    (v.exec w r i).point = v.point.exec e l := by
  have hout : l.op.out v.path.alu (v.path.dbus w i) = v.point.out e l := h.out_eq hac
  have hsame : l.op.out v.path.alu (v.path.dbus w i) =
      l.op.out v.path.alu (v.point.bus e l) := hout
  have hwout : v.path.alu.out w (v.path.dbus w i) = v.point.out e l := by
    rw [h.word.whole.out, h.word.op, hout]
  have hdp : v.path.dp w i = v.point.dp e l := by
    have halu : v.path.dp w i = l.op.aluOUT v.path.alu (v.path.dbus w i) := by
      rw [Path.dp, h.word.whole.aluOUT, h.word.op]
    rw [halu, l.op.aluOUT_congr _ hsame]
    rfl
  have hnext := l.op.next_congr _ hsame
  have hdisp : Useq.dispAddr w r (v.path.useqIn w i) =
      l.way.addr e v.stack (v.point.dp e l) := by
    have hcode : cromDisp w = l.way.code := h.word.disp
    cases hway : l.way with
    | on =>
        rw [hway] at hcode
        exact Useq.dispAddr_none hcode
    | inst =>
        rw [hway] at hcode
        rw [Useq.dispAddr_inst hcode]
        exact hdispJ
    | drom =>
        rw [hway] at hcode
        rw [Useq.dispAddr_drom hcode]
        exact congrArg (0#8 ++ ·) hdrom
    | back =>
        rw [hway] at hcode
        rw [Useq.dispAddr_ret hcode, hback (by rw [hway]; rfl)]
        rfl
    | backDp =>
        rw [hway] at hcode
        rw [Useq.dispAddr_retDp hcode, hback (by rw [hway]; rfl)]
        exact congrArg (fun dp => field (v.stack.headD 0) 0 7 ++ field dp 18 21) hdp
  have hskip : Useq.skipAddr w (v.path.useqIn w i) =
      if l.test.passes (v.point.out e l) v.path.scad then 1 else 0 := by
    have hcode : cromSkip w = l.test.code := h.word.skip
    cases htest : l.test with
    | never =>
        rw [htest] at hcode
        exact Useq.skipAddr_none hcode
    | zero =>
        rw [htest] at hcode
        rw [Useq.skipAddr_zero hcode, h.word.zero]
        change (if decide ((l.op.out v.path.alu (v.path.dbus w i)).f = 0) = true then _ else _) = _
        rw [hout]
        rfl
    | sign =>
        rw [htest] at hcode
        rw [Useq.skipAddr_sign hcode]
        change (if bit (v.path.aluFLAGS w i) 3 = true then _ else _) = _
        rw [(bit_aluFLAGS v.path w i).1, hwout]
        rfl
    | count =>
        rw [htest] at hcode
        exact Useq.skipAddr_sc hcode
    | carry =>
        rw [htest] at hcode
        rw [Useq.skipAddr_carry hcode]
        change (if bit (v.path.aluFLAGS w i) 7 = true then _ else _) = _
        rw [(bit_aluFLAGS v.path w i).2.2.2.1, hwout]
        rfl
    | rightZero =>
        rw [htest] at hcode
        rw [Useq.skipAddr_rightZero hcode]
        change (if bit (v.path.aluFLAGS w i) 2 = true then _ else _) = _
        rw [(bit_aluFLAGS v.path w i).2.2.2.2.1, hwout]
        rfl
    | right =>
        rw [htest] at hcode
        rw [Useq.skipAddr_right hcode]
        change (if bit (v.path.aluFLAGS w i) 4 = true then _ else _) = _
        rw [(bit_aluFLAGS v.path w i).2.2.2.2.2, hwout]
        rfl
  have hret : Useq.ret w = l.way.returns := by
    have hcode : cromDisp w = l.way.code := h.word.disp
    rw [Useq.ret, hcode]
    cases l.way with
    | on => rfl
    | inst => rfl
    | drom => rfl
    | back => rfl
    | backDp => rfl
  have hflags : v.path.pcFlags.next (v.path.flagsIn w i true) =
      l.effect.next v.path.pcFlags (v.point.out e l) (v.point.dp e l) := by
    obtain ⟨-, haov, hcry0, hcry1, -⟩ := bit_aluFLAGS v.path w i
    rw [hwout] at haov hcry0 hcry1
    rw [h.effect.next (f := v.path.flagsIn w i true) rfl rfl rfl (v.point.out e l) haov hcry0 hcry1]
    exact congrArg _ hdp
  have hscad := h.word.count.scad v.path.scad (v.path.dp w i)
  have halu : v.path.alu.next w (v.path.dbus w i) =
      l.op.next v.path.alu (v.point.bus e l) := by
    rw [h.word.whole.next, h.word.op, hnext]
  have hpc : Useq.nextAddr w r (v.path.useqIn w i) = (v.point.exec e l).pc := by
    have hrst : (v.path.useqIn w i).rst = false := rfl
    have hfail : (v.path.useqIn w i).pageFail = false := hquiet
    rw [Useq.nextAddr, hrst, hfail, if_neg Bool.false_ne_true, if_neg Bool.false_ne_true, hdisp,
      hskip, h.word.j]
    rfl
  have hstack : (v.exec w r i).stack = (v.point.exec e l).stack := by
    rw [View.exec, h.word.call, hret]
    cases hway : l.way with
    | on =>
        rw [Point.exec, hway]
        rfl
    | inst =>
        rw [Point.exec, hway]
        rfl
    | drom =>
        rw [Point.exec, hway]
        rfl
    | back =>
        rw [Point.exec, hway]
        rfl
    | backDp =>
        rw [Point.exec, hway]
        rfl
  calc (v.exec w r i).point
      = ⟨Useq.nextAddr w r (v.path.useqIn w i), (v.exec w r i).stack,
          (v.path.alu.next w (v.path.dbus w i)).aluRAM, (v.path.alu.next w (v.path.dbus w i)).q,
          v.path.scad.next true w (v.path.dp w i),
          v.path.pcFlags.next (v.path.flagsIn w i true)⟩ := rfl
    _ = v.point.exec e l := by
        rw [hpc, hstack, halu, hscad, hflags, hdp]
        rfl

/-- A line of the listing, with the waits before it. -/
theorem Comes.line {rom : MicroAddr → Microword} {p : Point} (h : l.Listed (rom p.pc))
    (hdepth : p.stack.length < 16) (hback : l.way.returns = true → p.stack ≠ []) :
    Comes (next rom) e.Meets Goes (Shown rom (·.point = p))
      (Shown rom (·.point = p.exec e l)) := by
  refine Comes.word (fun _ _ hmeets => hmeets.quiet) ?_ ?_ ?_
  · rintro v rfl
    exact h.word.single
  · rintro v rfl
    exact hdepth
  · rintro s i v hmeets hs rfl
    refine h.exec hmeets.quiet (fun n hn => hmeets.ac n ?_) hmeets.drom hmeets.dispJ
      fun hway => ?_
    · rw [hs.crom]
      exact hn
    · obtain ⟨r, t, hcons⟩ := List.exists_cons_of_ne_nil (hback hway)
      have hstack : v.stack = r :: t := hcons
      rw [hs.dispRet hstack, hstack]
      rfl

/-! ## Programs of lines -/

/-- From the point `p` the machine comes to a state with `K`. -/
def Reaches (rom : MicroAddr → Microword) (e : Env) (p : Point) (K : View → Prop) : Prop :=
  Comes (next rom) e.Meets Goes (Shown rom (·.point = p)) (Shown rom K)

namespace Reaches

variable {rom : MicroAddr → Microword} {p : Point} {K K' : View → Prop}

/-- The program is over. -/
theorem done (h : ∀ v, v.point = p → K v) : Reaches rom e p K :=
  Comes.of_imp fun _ hs => hs.imp h

/-- One line, and the program behind it. -/
theorem line (h : l.Listed (rom p.pc)) (hdepth : p.stack.length < 16)
    (hway : l.way.returns = false) (hrest : Reaches rom e (p.exec e l) K) : Reaches rom e p K :=
  (Comes.line h hdepth fun hback => absurd (hway.symm.trans hback) Bool.false_ne_true).trans hrest

/-- A return. -/
theorem back (h : l.Listed (rom p.pc)) (hdepth : p.stack.length < 16) (hstack : p.stack ≠ [])
    (hrest : Reaches rom e (p.exec e l) K) : Reaches rom e p K :=
  (Comes.line h hdepth fun _ => hstack).trans hrest

/-- A part of the program, and what follows it. -/
theorem trans (h : Reaches rom e p K) (hrest : ∀ v, K v → Reaches rom e v.point K') :
    Reaches rom e p K' := by
  refine Comes.trans h (Comes.of_exists fun v => Comes.of_fact (fun s hs => hs.2) fun hv => ?_)
  exact (hrest v hv).mono_left fun s hs => ⟨v, hs.1, rfl⟩

theorem mono (h : Reaches rom e p K) (himp : ∀ v, K v → K' v) : Reaches rom e p K' :=
  Comes.mono_right h fun _ hs => hs.imp himp

/-- What the machine does from each state that looks like the point. -/
theorem of_view (h : ∀ v, v.point = p →
    Comes (next rom) e.Meets Goes (Shows rom v) (Shown rom K)) : Reaches rom e p K := by
  refine Comes.of_exists fun v => Comes.of_fact (fun s hs => hs.2) fun hv => ?_
  exact (h v hv).mono_left fun s hs => hs.1

/-- A program is run from the state that the machine shows. -/
theorem comes {v : View} (h : Reaches rom e v.point K) :
    Comes (next rom) e.Meets Goes (Shows rom v) (Shown rom K) :=
  h.mono_left fun _ hs => ⟨v, hs, rfl⟩

end Reaches

end Micro

end KS10
