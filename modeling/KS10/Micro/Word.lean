import KS10.Micro.Microprogram
import KS10.Micro.Operation

/-!
# Microwords

`Word` says what a microword of the listing does: its ALU operation, where it goes on, whether
it calls, and whether it counts a step.  Such a microword leaves the PC flags alone
(`Word.exec`).

The dispatches and the skips that the microprograms use follow, by the codes of the microword.
-/

namespace KS10

open Clocked Microword

namespace Useq

variable {crom : Microword} {r : MicroAddr} {i : In}

/-! ## Skips -/

theorem skipAddr_code (crom : Microword) (i : In) :
    skipAddr crom i =
      if skipMux (!bit (cromSkip crom) 0) (field (cromSkip crom) 3 5) (skip40 i)
          || skipMux (!bit (cromSkip crom) 1) (field (cromSkip crom) 3 5) (skip20 i)
          || skipMux (!bit (cromSkip crom) 2) (field (cromSkip crom) 3 5) (skip10 i) then 0o0001
      else 0o0000 := by
  have hbit (k : Nat) (hk : k ≤ 5) : bit (cromSkip crom) k = bit crom (63 + k) :=
    bit_field crom hk (by decide) (by decide)
  have hsel : field (cromSkip crom) 3 5 = cromSkipSel crom :=
    field_field crom (by decide) (by decide) (by decide) (by decide)
  rw [hsel, hbit 0 (by decide), hbit 1 (by decide), hbit 2 (by decide)]
  rfl

theorem bit_skipInputs (b₁ b₂ b₃ b₄ b₅ b₆ b₇ : Bool) (k : Nat) :
    bit (skipInputs b₁ b₂ b₃ b₄ b₅ b₆ b₇) k = [b₁, b₂, b₃, b₄, b₅, b₆, b₇].getD k false :=
  BitVec.getMsbD_ofBoolListBE

/-- No skip. -/
theorem skipAddr_none (h : cromSkip crom = 0o70) : skipAddr crom i = 0 := by
  rw [skipAddr_code, h]
  rfl

/-- Skip on the sign of the step counter. -/
theorem skipAddr_sc (h : cromSkip crom = 0o63) :
    skipAddr crom i = if i.scSign then 1 else 0 := by
  have hbit : bit (skip10 i) 2 = i.scSign := bit_skipInputs _ _ _ _ _ _ _ 2
  rw [skipAddr_code, h, ← hbit]
  rfl

/-- Skip on a result of zero. -/
theorem skipAddr_zero (h : cromSkip crom = 0o62) :
    skipAddr crom i = if aluZero i then 1 else 0 := by
  have hbit : bit (skip10 i) 1 = aluZero i := bit_skipInputs _ _ _ _ _ _ _ 1
  rw [skipAddr_code, h, ← hbit]
  rfl

/-- Skip on the sign of the result. -/
theorem skipAddr_sign (h : cromSkip crom = 0o52) :
    skipAddr crom i = if bit i.aluFlags 3 then 1 else 0 := by
  have hbit : bit (skip20 i) 1 = bit i.aluFlags 3 := bit_skipInputs _ _ _ _ _ _ _ 1
  rw [skipAddr_code, h, ← hbit]
  change (if (bit (skip20 i) 1 || false) = true then (1 : MicroAddr) else 0) = _
  rw [Bool.or_false]

/-- Skip on the carry into the sign. -/
theorem skipAddr_carry (h : cromSkip crom = 0o56) :
    skipAddr crom i = if bit i.aluFlags 7 then 1 else 0 := by
  have hbit : bit (skip20 i) 5 = bit i.aluFlags 7 := bit_skipInputs _ _ _ _ _ _ _ 5
  rw [skipAddr_code, h, ← hbit]
  change (if (bit (skip20 i) 5 || false) = true then (1 : MicroAddr) else 0) = _
  rw [Bool.or_false]

/-- Skip on a right half that is zero. -/
theorem skipAddr_rightZero (h : cromSkip crom = 0o33) :
    skipAddr crom i = if bit i.aluFlags 2 then 1 else 0 := by
  have hbit : bit (skip40 i) 2 = bit i.aluFlags 2 := bit_skipInputs _ _ _ _ _ _ _ 2
  rw [skipAddr_code, h, ← hbit]
  change (if (bit (skip40 i) 2 || false || false) = true then (1 : MicroAddr) else 0) = _
  rw [Bool.or_false, Bool.or_false]

/-- Skip on the sign of the right half. -/
theorem skipAddr_right (h : cromSkip crom = 0o53) :
    skipAddr crom i = if bit i.aluFlags 4 then 1 else 0 := by
  have hbit : bit (skip20 i) 2 = bit i.aluFlags 4 := bit_skipInputs _ _ _ _ _ _ _ 2
  rw [skipAddr_code, h, ← hbit]
  change (if (bit (skip20 i) 2 || false) = true then (1 : MicroAddr) else 0) = _
  rw [Bool.or_false]

/-! ## Dispatches -/

theorem dispEn_code (crom : Microword) :
    cromDispEn40 crom = !bit (cromDisp crom) 0 ∧ cromDispEn20 crom = !bit (cromDisp crom) 1 ∧
      cromDispEn10 crom = !bit (cromDisp crom) 2 ∧ cromDispSel crom = field (cromDisp crom) 3 5 ∧
      cromDispSelh crom = field (cromDisp crom) 4 5 := by
  have hbit (k : Nat) (hk : k ≤ 5) : bit (cromDisp crom) k = bit crom (57 + k) :=
    bit_field crom hk (by decide) (by decide)
  refine ⟨?_, ?_, ?_, ?_, ?_⟩
  · rw [hbit 0 (by decide)]
    rfl
  · rw [hbit 1 (by decide)]
    rfl
  · rw [hbit 2 (by decide)]
    rfl
  · exact (field_field (a := 57) (b := 62) (c := 3) (d := 5) crom (by decide) (by decide)
      (by decide) (by decide)).symm
  · exact (field_field (a := 57) (b := 62) (c := 4) (d := 5) crom (by decide) (by decide)
      (by decide) (by decide)).symm

/-- No dispatch. -/
theorem dispAddr_none (h : cromDisp crom = 0o70) : dispAddr crom r i = 0 := by
  obtain ⟨h40, h20, h10, -, -⟩ := dispEn_code crom
  rw [h] at h40 h20 h10
  have hhigh : dispHigh crom r i = 0 := by
    rw [dispHigh, h20]
    rfl
  have hlow : dispLow crom r i = 0 := by
    rw [dispLow, h40, dispLow10, h10]
    rfl
  rw [dispAddr, hhigh, hlow]
  rfl

/-- The dispatch of a multiplication. -/
theorem dispAddr_mul (h : cromDisp crom = 0o62) :
    dispAddr crom r i = if bit i.aluFlags 0 then 4 else 0 := by
  obtain ⟨h40, h20, h10, hsel, -⟩ := dispEn_code crom
  rw [h] at h40 h20 h10 hsel
  have hhigh : dispHigh crom r i = 0 := by
    rw [dispHigh, h20]
    rfl
  have hlow : dispLow crom r i = dispMul i := by
    rw [dispLow, h40, dispLow10, h10, hsel]
    rfl
  rw [dispAddr, hhigh, hlow, dispMul]
  cases bit i.aluFlags 0 with
  | false => rfl
  | true => rfl

/-- A return. -/
theorem dispAddr_ret (h : cromDisp crom = 0o41) : dispAddr crom r i = r := by
  obtain ⟨h40, h20, h10, hsel, hselh⟩ := dispEn_code crom
  rw [h] at h40 h20 h10 hsel hselh
  have hhigh : dispHigh crom r i = field r 0 7 := by
    rw [dispHigh, h20, hselh]
    rfl
  have hlow : dispLow crom r i = field r 8 11 := by
    rw [dispLow, h40, dispLow10, h10, hsel]
    rfl
  rw [dispAddr, hhigh, hlow]
  exact field_append (a := 7) (b := 3) r

/-- A return to one of sixteen places, which the data path tells. -/
theorem dispAddr_retDp (h : cromDisp crom = 0o01) :
    dispAddr crom r i = field r 0 7 ++ field i.dp 18 21 := by
  obtain ⟨h40, h20, h10, hsel, hselh⟩ := dispEn_code crom
  rw [h] at h40 h20 h10 hsel hselh
  have hhigh : dispHigh crom r i = field r 0 7 := by
    rw [dispHigh, h20, hselh]
    rfl
  have hlow : dispLow crom r i = field i.dp 18 21 := by
    rw [dispLow, h40, hsel]
    rfl
  rw [dispAddr, hhigh, hlow]

/-- The dispatch on the B field of the dispatch ROM. -/
theorem dispAddr_drom (h : cromDisp crom = 0o37) : dispAddr crom r i = 0#8 ++ dromB i := by
  obtain ⟨h40, h20, h10, hsel, -⟩ := dispEn_code crom
  rw [h] at h40 h20 h10 hsel
  have hhigh : dispHigh crom r i = 0 := by
    rw [dispHigh, h20]
    rfl
  have hlow : dispLow crom r i = dromB i := by
    rw [dispLow, h40, hsel]
    rfl
  rw [dispAddr, hhigh, hlow]
  rfl

/-- The dispatch on the instruction. -/
theorem dispAddr_inst (h : cromDisp crom = 0o12) : dispAddr crom r i = dispJ i := by
  obtain ⟨h40, h20, h10, hsel, hselh⟩ := dispEn_code crom
  rw [h] at h40 h20 h10 hsel hselh
  have hhigh : dispHigh crom r i = field (dispJ i) 0 7 := by
    rw [dispHigh, h20, hselh]
    rfl
  have hlow : dispLow crom r i = field (dispJ i) 8 11 := by
    rw [dispLow, h40, hsel]
    rfl
  rw [dispAddr, hhigh, hlow]
  exact field_append (a := 7) (b := 3) (dispJ i)

end Useq

/-! ## Microwords -/

namespace Micro

/-! ### The registers of the microcode -/

def mag : BitVec 4 := 0
def ar : BitVec 4 := 3
def arx : BitVec 4 := 4
def br : BitVec 4 := 5
def brx : BitVec 4 := 6
def one : BitVec 4 := 7
def mask : BitVec 4 := 10
def t0 : BitVec 4 := 14
def t1 : BitVec 4 := 15

/-- Ones in the bits of a word. -/
def maskWord : BitVec 40 := 0x3ffffffffc

/-- Ones in the bits of a word besides its sign, and in one bit below. -/
def magWord : BitVec 40 := 0x1ffffffffe

/-- The constants that the microcode keeps in registers. -/
structure Constants (ram : BitVec 4 → BitVec 40) : Prop where
  mask : ram mask = maskWord
  mag : ram mag = magWord
  one : ram one = Alu.dd 1

/-! ### What the listing says -/

/-- What the SCAD takes besides the number of the microword: the exponent, or the shift count in
the effective address on the data path. -/
inductive Operand where
  | exponent
  | shift
  deriving DecidableEq

def Operand.sel : Operand → BitVec 2
  | exponent => 0b00
  | shift => 0b10

def Operand.value (b : Operand) (s : Scad) (dp : BitVec 36) : BitVec 10 :=
  match b with
  | exponent => s.fe
  | shift => field dp 18 18 ++ field dp 18 18 ++ field dp 28 35

/-- What a microword makes of the step counter and of the exponent. -/
inductive Count where
  | keep
  /-- Count a step. -/
  | step
  | set (n : BitVec 10)
  | setFe (n : BitVec 10)
  /-- Add to the exponent. -/
  | addFe (n : BitVec 10)
  /-- Load the step counter with a sum, and the exponent also if `both`. -/
  | plus (n : BitVec 10) (b : Operand) (both : Bool)
  /-- Load the step counter with a difference. -/
  | minus (n : BitVec 10) (b : Operand)

/-- The counters afterwards. -/
def Count.next (c : Count) (s : Scad) (dp : BitVec 36) : Scad :=
  match c with
  | keep => s
  | step => { s with sc := s.sc - 1 }
  | set n => { s with sc := n }
  | setFe n => { s with fe := n }
  | addFe n => { s with fe := n + s.fe }
  | plus n b both => ⟨if both then n + b.value s dp else s.fe, n + b.value s dp⟩
  | minus n b => { s with sc := n - b.value s dp }

/-- The registers that are loaded, the function and the operands of the SCAD. -/
def scadFields (w : Microword) : (Bool × Bool) × BitVec 3 × BitVec 3 :=
  ((cromLoadSc w, cromLoadFe w), cromScadFun w, cromScadASel w)

/-- The fields of the SCAD ask for it. -/
def Count.Asked (c : Count) (w : Microword) : Prop :=
  match c with
  | keep => cromLoadSc w = false ∧ cromLoadFe w = false
  | step => scadFields w = ((true, false), 0b110, 0b000)
  | set n => scadFields w = ((true, false), 0b111, 0b001) ∧ cromSNum w = n
  | setFe n => scadFields w = ((false, true), 0b111, 0b001) ∧ cromSNum w = n
  | addFe n =>
    scadFields w = ((false, true), 0b100, 0b001) ∧ cromSNum w = n ∧ cromScadBSel w = 0b00
  | plus n b both =>
    scadFields w = ((true, both), 0b100, 0b001) ∧ cromSNum w = n ∧ cromScadBSel w = b.sel
  | minus n b =>
    scadFields w = ((true, false), 0b011, 0b001) ∧ cromSNum w = n ∧ cromScadBSel w = b.sel

instance (c : Count) (w : Microword) : Decidable (c.Asked w) :=
  match c with
  | .keep => inferInstanceAs (Decidable (_ ∧ _))
  | .step => inferInstanceAs (Decidable (_ = _))
  | .set _ => inferInstanceAs (Decidable (_ ∧ _))
  | .setFe _ => inferInstanceAs (Decidable (_ ∧ _))
  | .addFe _ => inferInstanceAs (Decidable (_ ∧ _))
  | .plus _ _ _ => inferInstanceAs (Decidable (_ ∧ _))
  | .minus _ _ => inferInstanceAs (Decidable (_ ∧ _))

/-- Where a microword goes on, and what it does besides the ALU. -/
structure Control where
  j : MicroAddr
  disp : BitVec 6 := 0o70
  skip : BitVec 6 := 0o70
  call : Bool := false
  count : Count := .keep
  flags : Bool := false

/-- What the listing says of a microword besides the ALU. -/
@[mk_iff]
structure Controls (w : Microword) (c : Control) : Prop where
  j : cromJ w = c.j
  disp : cromDisp w = c.disp
  skip : cromSkip w = c.skip
  call : cromCall w = c.call
  single : cromMultiShift w = false
  flags : cromSpecEn40 w = c.flags
  count : c.count.Asked w

instance (w : Microword) (c : Control) : Decidable (Controls w c) :=
  decidable_of_iff' _ (controls_iff w c)

/-- What the listing says of a microword. -/
@[mk_iff]
structure Word (w : Microword) (o : Alu.Op) (c : Control) : Prop extends Controls w c where
  whole : Alu.Whole w
  op : Alu.opOf w = o

instance (w : Microword) (o : Alu.Op) (c : Control) : Decidable (Word w o c) :=
  decidable_of_iff' _ (word_iff w o c)

variable {w : Microword} {o : Alu.Op} {c : Control} {r : MicroAddr} {v : View} {i : In}

/-- The PC flags are changed by their special functions only. -/
theorem pcFlags_keep {f : PcFlags.In} (h : cromSpecEn40 f.crom = false) (hrst : f.rst = false)
    (g : PcFlags) : g.next f = g := by
  have hspec (sel : BitVec 3) : spec40 f.crom sel = false := by rw [spec40, h, Bool.false_and]
  have hflags : PcFlags.selPcFlags f = false := hspec 6
  have hexp : PcFlags.selExpTest f = false := hspec 5
  have hash : PcFlags.selAshTest f = false := hspec 4
  simp only [PcFlags.next, PcFlags.nextAov, PcFlags.nextCry0, PcFlags.nextCry1, PcFlags.nextCry,
    PcFlags.nextFov, PcFlags.nextFpd, PcFlags.nextUser, PcFlags.nextUserIo, PcFlags.nextTrap2,
    PcFlags.nextTrap1, PcFlags.nextFxu, PcFlags.nextNoDiv, hrst, hflags, hexp, hash,
    Bool.false_eq_true, if_false, ite_self]

theorem scadFields_eq {sc fe : Bool} {fn a : BitVec 3} (h : scadFields w = ((sc, fe), fn, a)) :
    cromLoadSc w = sc ∧ cromLoadFe w = fe ∧ cromScadFun w = fn ∧ cromScadASel w = a := by
  simp only [scadFields, Prod.mk.injEq] at h
  exact ⟨h.1.1, h.1.2, h.2⟩

theorem scadA_num (h : cromScadASel w = 0b001) (s : Scad) (dp : BitVec 36) :
    s.scadA w dp = cromSNum w := by
  rw [Scad.scadA, h]
  rfl

theorem scadB_operand {b : Operand} (h : cromScadBSel w = b.sel) (s : Scad) (dp : BitVec 36) :
    s.scadB w dp = b.value s dp := by
  rw [Scad.scadB, h]
  cases b with
  | exponent => rfl
  | shift => rfl

theorem Count.Asked.scad {c : Count} (h : c.Asked w) (s : Scad) (dp : BitVec 36) :
    s.next true w dp = c.next s dp := by
  have hnext {sc fe : Bool} (hsc : cromLoadSc w = sc) (hfe : cromLoadFe w = fe) :
      s.next true w dp = ⟨if fe then s.scad w dp else s.fe, if sc then s.scad w dp else s.sc⟩ := by
    rw [Scad.next, hsc, hfe]
    rfl
  cases c with
  | keep =>
      rw [hnext h.1 h.2]
      rfl
  | step =>
      obtain ⟨hsc, hfe, hfun, ha⟩ := scadFields_eq h
      rw [hnext hsc hfe, Scad.scad, hfun, Scad.scadA, ha]
      rfl
  | set n =>
      obtain ⟨hsc, hfe, hfun, ha⟩ := scadFields_eq h.1
      rw [hnext hsc hfe, Scad.scad, hfun, scadA_num ha, h.2]
      rfl
  | setFe n =>
      obtain ⟨hsc, hfe, hfun, ha⟩ := scadFields_eq h.1
      rw [hnext hsc hfe, Scad.scad, hfun, scadA_num ha, h.2]
      rfl
  | addFe n =>
      obtain ⟨hfields, hnum, hb⟩ := h
      obtain ⟨hsc, hfe, hfun, ha⟩ := scadFields_eq hfields
      have hoperand : s.scadB w dp = s.fe := scadB_operand (b := .exponent) hb s dp
      rw [hnext hsc hfe, Scad.scad, hfun, scadA_num ha, hnum, hoperand]
      rfl
  | plus n b both =>
      obtain ⟨hfields, hnum, hb⟩ := h
      obtain ⟨hsc, hfe, hfun, ha⟩ := scadFields_eq hfields
      rw [hnext hsc hfe, Scad.scad, hfun, scadA_num ha, hnum, scadB_operand hb]
      rfl
  | minus n b =>
      obtain ⟨hfields, hnum, hb⟩ := h
      obtain ⟨hsc, hfe, hfun, ha⟩ := scadFields_eq hfields
      rw [hnext hsc hfe, Scad.scad, hfun, scadA_num ha, hnum, scadB_operand hb]
      rfl

/-! ### What is tested -/

theorem bit_aluFlags (p : Path) (w : Microword) (i : In) :
    bit (p.useqIn w i).aluFlags 0 = p.alu.flagQR37 ∧
      bit (p.useqIn w i).aluFlags 1 = (p.alu.out w (p.dbus w i)).aluLZERO ∧
      bit (p.useqIn w i).aluFlags 2 = (p.alu.out w (p.dbus w i)).aluRZERO ∧
      bit (p.useqIn w i).aluFlags 3 = (p.alu.out w (p.dbus w i)).aluLSIGN := by
  simp only [Path.useqIn, Path.aluFLAGS, Alu.aluFLAGS, bit, BitVec.getMsbD_ofBoolListBE]
  exact ⟨rfl, rfl, rfl, rfl⟩

/-- The sign of the step counter. -/
theorem scSign_eq (p : Path) (w : Microword) (i : In) :
    (p.useqIn w i).scSign = decide (p.scad.sc.toInt < 0) :=
  BitVec.msb_eq_toInt (x := p.scad.sc)

/-- The sign of the result. -/
theorem Word.sign (h : Word w o c) (p : Path) (i : In) :
    bit (p.useqIn w i).aluFlags 3 = decide ((o.f p.alu (p.dbus w i)).toInt < 0) := by
  rw [(bit_aluFlags p w i).2.2.2, h.whole.out, h.op]
  exact BitVec.msb_eq_toInt

/-- A result of zero. -/
theorem Word.zero (h : Word w o c) (p : Path) (i : In) :
    Useq.aluZero (p.useqIn w i) = decide (o.f p.alu (p.dbus w i) = 0) := by
  obtain ⟨-, hleft, hright, -⟩ := bit_aluFlags p w i
  rw [Useq.aluZero, hleft, hright, h.whole.out, h.op, Bool.eq_iff_iff, decide_eq_true_iff]
  have hf : o.f p.alu (p.dbus w i) = (o.out p.alu (p.dbus w i)).f := rfl
  rw [hf, Alu.Out.aluLZERO, Alu.Out.aluRZERO, Bool.and_eq_true, beq_iff_eq, beq_iff_eq]
  constructor
  · rintro ⟨hl, hr⟩
    have happend := field_append (a := 19) (b := 19) (o.out p.alu (p.dbus w i)).f
    rw [← happend, hl, hr]
    rfl
  · intro hzero
    rw [hzero]
    exact ⟨rfl, rfl⟩

/-- A step takes one off a counter that has not run out. -/
theorem toInt_sc_step {sc : BitVec 10} (h : -1 ≤ sc.toInt) : (sc - 1).toInt = sc.toInt - 1 := by
  have hlt : sc.toInt < 2 ^ 9 := BitVec.toInt_lt
  have hone : (1 : BitVec 10).toInt = 1 := rfl
  rw [BitVec.toInt_sub, hone]
  exact Int.bmod_eq_of_le (by omega) (by omega)

theorem toInt_step {s : Scad} {dp : BitVec 36} (h : -1 ≤ s.sc.toInt) :
    (Count.step.next s dp).sc.toInt = s.sc.toInt - 1 :=
  toInt_sc_step h

/-- The abstract machine after a microword. -/
theorem Controls.exec (h : Controls w c) (hquiet : Quiet i) :
    v.exec w r i =
      { pc :=
          Useq.dispAddr w r (v.path.useqIn w i) ||| Useq.skipAddr w (v.path.useqIn w i) ||| c.j
        stack := if c.call then v.pc :: v.stack else if Useq.ret w then v.stack.tail else v.stack
        path :=
          { alu := v.path.alu.next w (v.path.dbus w i)
            scad := c.count.next v.path.scad (v.path.dp w i)
            pcFlags :=
              if c.flags then v.path.pcFlags.next (v.path.flagsIn w i true)
              else v.path.pcFlags } } := by
  have hpc : Useq.nextAddr w r (v.path.useqIn w i) =
      Useq.dispAddr w r (v.path.useqIn w i) ||| Useq.skipAddr w (v.path.useqIn w i) ||| c.j := by
    have hrst : (v.path.useqIn w i).rst = false := rfl
    have hfail : (v.path.useqIn w i).pageFail = false := hquiet
    rw [Useq.nextAddr, hrst, hfail, h.j]
    rfl
  have hflags : v.path.pcFlags.next (v.path.flagsIn w i true) =
      if c.flags then v.path.pcFlags.next (v.path.flagsIn w i true) else v.path.pcFlags := by
    cases hc : c.flags with
    | false =>
        exact pcFlags_keep (f := v.path.flagsIn w i true) (h.flags.trans hc) rfl v.path.pcFlags
    | true => rfl
  rw [View.exec, hpc, h.call, Path.next, h.count.scad, ← hflags]

theorem Word.exec (h : Word w o c) (hquiet : Quiet i) :
    v.exec w r i =
      { pc :=
          Useq.dispAddr w r (v.path.useqIn w i) ||| Useq.skipAddr w (v.path.useqIn w i) ||| c.j
        stack := if c.call then v.pc :: v.stack else if Useq.ret w then v.stack.tail else v.stack
        path :=
          { alu := o.next v.path.alu (v.path.dbus w i)
            scad := c.count.next v.path.scad (v.path.dp w i)
            pcFlags :=
              if c.flags then v.path.pcFlags.next (v.path.flagsIn w i true)
              else v.path.pcFlags } } := by
  rw [h.toControls.exec hquiet, h.whole.next, h.op]

/-- A microword that does not dispatch goes on without a return. -/
theorem Word.not_ret (h : Word w o c) (hdisp : c.disp = 0o70) : Useq.ret w = false := by
  rw [Useq.ret, h.disp, hdisp]
  rfl

end Micro

end KS10
