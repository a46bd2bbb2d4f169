import KS10.Cpu.AluDivide
import KS10.Micro.DivideSetup

/-!
# The divide subroutine

The divide steps of DIVSUB are the chain of a division without restoring, which the microword
DIVIDE repeats for each bit of the lower word.  Behind it the remainder is made right, and both
results are shifted back; the subroutine returns to one of four places, where they get their
signs.  Quotient and remainder are those of a division that truncates.

The chain takes operands whose quotient has one bit more than a word: the most negative word can
be divided by 1.
-/

namespace KS10

open Clocked

namespace Alu

variable {s : Alu} {crom : Microword} {aluIN : BitVec 36} {a b : BitVec 4}

/-- A microword changes the register it writes only. -/
theorem next_aluRAM_of_ne (s : Alu) {u : BitVec 4} (h : u ≠ Microword.cromAluB crom) :
    (s.next crom aluIN).aluRAM u = s.aluRAM u := by
  unfold Alu.next
  split
  · exact Function.update_of_ne h _ _
  · rfl

variable (aluIN) in
/-- The first step, where it may also leave a remainder. -/
theorem FirstDivStep.start (h : FirstDivStep crom a b) (hab : a ≠ b) {d high low : BitVec 36}
    (ha : s.aluRAM a = 0#4 ++ d) (hb : s.aluRAM b = 0#4 ++ high) (hq : field s.q 4 39 = low)
    (hlt : high.toNat < 2 * d.toNat) :
    Divides a b d high low 0 0 (high.toNat - d.toNat) (s.next crom aluIN) := by
  obtain ⟨hout, hshift⟩ := h.out_eq (s := s) aluIN
  obtain ⟨hf, hco⟩ := add_whole true (~~~s.aluRAM a) (s.aluRAM b)
  have hd := d.isLt
  have hna : (s.aluRAM a).toNat = d.toNat := by
    rw [ha, toNat_append_eq]
    exact Nat.zero_add _
  have hnb : (s.aluRAM b).toNat = high.toNat := by
    rw [hb, toNat_append_eq]
    exact Nat.zero_add _
  rw [BitVec.toNat_not, hna, hnb, Bool.toNat_true] at hf hco
  have hsum : ((s.f crom aluIN).toNat : Int) = ((high.toNat : Int) - d.toNat) % 2 ^ 40 := by
    rw [f, hout, hf]
    omega
  have hlow : s.q.toNat % 2 ^ 36 = (low.toNat * 2 ^ 0 + 0) % 2 ^ 36 := by
    have hlt' := low.isLt
    have htoNat := congrArg BitVec.toNat hq
    rw [field, BitVec.extractLsb'_toNat] at htoNat
    have hq' : s.q.toNat % 2 ^ 36 = low.toNat := htoNat
    rw [hq']
    omega
  have hdivided : Divided d.toNat (dividend high low 0) (2 * 0 + (s.divide_shift crom).toNat)
      (high.toNat - d.toNat) := by
    rw [dividend_zero, hshift]
    exact Divided.start hlt
  have hcarry : (s.out crom aluIN).co = decide (0 ≤ (high.toNat : Int) - d.toNat) := by
    rw [hout, hco, decide_eq_decide]
    omega
  have hnext := Divides.of_sum h.toDivWord hab hdivided ha hsum hcarry hlow (by rw [hshift]; decide)
  rw [hshift] at hnext
  exact hnext

end Alu

namespace Micro

/-! ## The listing -/

/-- The microwords of the divide steps, and behind them. -/
structure DivideListing (rom : MicroAddr → Microword) : Prop where
  setup : DivideSetup rom
  first : rom 0o3071 = 0o1276_1114_0503_4174_4067_0630_6000_0060_0000
  divide : rom 0o1276 = 0o1276_0114_0503_4174_4067_0630_2100_0060_0000
  last : rom 0o1277 = 0o3072_3444_1717_4174_4067_0700_0100_0000_0000
  arHalf : rom 0o3072 = 0o1300_3447_0303_4174_4007_0520_0000_0000_0000
  fix : rom 0o1300 = 0o3073_3444_0303_4174_4007_0700_0000_0000_0000
  restore : rom 0o1301 = 0o1300_0111_0503_4174_4007_0700_0000_0000_0000
  fix1 : rom 0o3073 = 0o3074_3444_0303_4174_4007_0700_0000_0000_0000
  maskQ : rom 0o3074 = 0o3075_4002_1200_4174_4007_0700_0000_0000_0000
  place : rom 0o3075 = 0o0014_3333_0004_4174_4000_1701_0000_0000_0000
  plus : rom 0o0374 = 0o0002_4443_0000_4174_4004_1700_0000_0000_0000
  minusQuotient : rom 0o0375 = 0o0002_2222_0000_4174_4004_1700_4000_0000_0000
  minusBoth : rom 0o0376 = 0o0377_2222_0000_4174_4007_0700_4000_0000_0000
  minusRemainder : rom 0o0377 = 0o0002_2441_0303_4174_4004_1700_4000_0000_0000

theorem divideListing : DivideListing ks10Rom := by
  constructor
  case setup => constructor <;> rfl
  all_goals rfl

variable {rom : MicroAddr → Microword}

/-- The control of a divide step. -/
def stepControl : Control := { j := 0o1276, skip := 0o63, count := .step }

theorem DivideListing.steps (h : DivideListing rom) :
    (Alu.FirstDivStep (rom 0o3071) br ar ∧ Controls (rom 0o3071) stepControl) ∧
      Alu.DivStep (rom 0o1276) br ar ∧ Controls (rom 0o1276) stepControl := by
  rw [h.first, h.divide]
  exact ⟨⟨⟨⟨by decide, by decide, by decide, by decide, by decide, by decide, by decide, by decide,
    by decide⟩, by decide, by decide, by decide⟩, by decide⟩, ⟨⟨by decide, by decide, by decide,
    by decide, by decide, by decide, by decide, by decide, by decide⟩, by decide, by decide,
    by decide⟩, by decide⟩

/-! ## The divide steps -/

/-- `k` of the microwords DIVIDE have been executed since `v₀`. -/
structure Dividing (v₀ : View) (d high low : BitVec 36) (Q k : Nat) (v : View) : Prop where
  pc : v.pc = if k = 35 then 0o1277 else 0o1276
  stack : v.stack = v₀.stack
  pcFlags : v.path.pcFlags = v₀.path.pcFlags
  sc : v.path.scad.sc.toInt = 33 - k
  others : ∀ u, u ≠ ar → v.path.alu.aluRAM u = v₀.path.alu.aluRAM u
  /-- The bits of `Q` that have been shifted out are all that is missing. -/
  divides : ∃ q r, Alu.Divides br ar d high low k q r v.path.alu ∧
    v.path.alu.q.toNat = (Q * 2 ^ (k + 1) + q) % 2 ^ 40

variable {v₀ v : View} {d high low : BitVec 36} {Q k : Nat} {i : In} {r₀ : MicroAddr}

/-- The machine after a divide step. -/
theorem exec_step {w : Microword} (h : Controls w stepControl) (hquiet : Quiet i) :
    v.exec w r₀ i =
      { pc := (if v.path.scad.sc.toInt < 0 then 0o1277 else 0o1276)
        stack := v.stack
        path := ⟨v.path.alu.next w (v.path.dbus w i), { v.path.scad with sc := v.path.scad.sc - 1 },
          v.path.pcFlags⟩ } := by
  have hret : Useq.ret w = false := by
    rw [Useq.ret, h.disp]
    rfl
  have hpc : Useq.dispAddr w r₀ (v.path.useqIn w i) ||| Useq.skipAddr w (v.path.useqIn w i) |||
      stepControl.j = if v.path.scad.sc.toInt < 0 then 0o1277 else 0o1276 := by
    rw [Useq.dispAddr_none h.disp, Useq.skipAddr_sc h.skip, scSign_eq]
    by_cases hneg : v.path.scad.sc.toInt < 0
    · rw [decide_eq_true hneg, if_pos hneg]
      rfl
    · rw [decide_eq_false hneg, if_neg hneg]
      rfl
  rw [h.exec hquiet, hpc, hret]
  rfl

/-- One of the microwords DIVIDE. -/
theorem Dividing.step (hrom : DivideListing rom) (h : Dividing v₀ d high low Q k v) (hk : k < 35)
    (hquiet : Quiet i) : Dividing v₀ d high low Q (k + 1) (v.exec (rom v.pc) r₀ i) := by
  have hpc : v.pc = 0o1276 := by rw [h.pc, if_neg (by omega)]
  obtain ⟨-, hword, hcontrols⟩ := hrom.steps
  rw [← hpc] at hword hcontrols
  generalize rom v.pc = w at hword hcontrols ⊢
  have hsc := h.sc
  have hbrar : br ≠ ar := by decide
  obtain ⟨q, r, hdivides, hq⟩ := h.divides
  have hshift := (hword.out_eq (s := v.path.alu) (v.path.dbus w i)).2
  obtain ⟨-, -, hqnext, -⟩ := hword.toDivWord.next (s := v.path.alu) (v.path.dbus w i) hbrar
  have hnext := (hword.divides (v.path.dbus w i) hbrar hdivides (by omega)).2
  have hbit : v.path.alu.flagCARRYOUT.toNat = bitOf r := by
    rw [hdivides.carry, bitOf]
    by_cases hr : 0 ≤ r
    · rw [decide_eq_true hr, if_pos hr]
      rfl
    · rw [decide_eq_false hr, if_neg hr]
      rfl
  rw [exec_step hcontrols hquiet]
  constructor
  case pc =>
    change (if _ then _ else _) = _
    refine if_congr ?_ rfl rfl
    omega
  case stack => exact h.stack
  case pcFlags => exact h.pcFlags
  case sc =>
    change (v.path.scad.sc - 1).toInt = _
    rw [toInt_sc_step (by omega), hsc]
    push_cast
    omega
  case others =>
    intro u hu
    change (v.path.alu.next w (v.path.dbus w i)).aluRAM u = _
    rw [Alu.next_aluRAM_of_ne _ (by rw [hword.b]; exact hu), h.others u hu]
  case divides =>
    refine ⟨_, _, hnext, ?_⟩
    have hpow : Q * 2 ^ (k + 1 + 1) = 2 * (Q * 2 ^ (k + 1)) := by
      rw [@Nat.pow_succ 2 (k + 1), ← Nat.mul_assoc, Nat.mul_comm]
    change (v.path.alu.next w (v.path.dbus w i)).q.toNat = _
    rw [hqnext, hshift, Alu.toNat_up, hq, hbit, hpow]
    omega

/-- The first divide step. -/
theorem dividing_start (hrom : DivideListing rom) (hpc : v₀.pc = 0o3071)
    (hsc : v₀.path.scad.sc.toInt = 34) (hbr : v₀.path.alu.aluRAM br = 0#4 ++ d)
    (har : v₀.path.alu.aluRAM ar = 0#4 ++ high) (hq : field v₀.path.alu.q 4 39 = low)
    (hlt : high.toNat < 2 * d.toNat) (hquiet : Quiet i) :
    Dividing v₀ d high low v₀.path.alu.q.toNat 0 (v₀.exec (rom v₀.pc) r₀ i) := by
  obtain ⟨⟨hword, hcontrols⟩, -⟩ := hrom.steps
  rw [← hpc] at hword hcontrols
  generalize rom v₀.pc = w at hword hcontrols ⊢
  have hbrar : br ≠ ar := by decide
  have hshift := (hword.out_eq (s := v₀.path.alu) (v₀.path.dbus w i)).2
  obtain ⟨-, -, hqnext, -⟩ := hword.toDivWord.next (s := v₀.path.alu) (v₀.path.dbus w i) hbrar
  rw [exec_step hcontrols hquiet]
  constructor
  case pc =>
    change (if _ then _ else _) = _
    rw [if_neg (by omega), if_neg (by decide)]
  case stack => rfl
  case pcFlags => rfl
  case sc =>
    change (v₀.path.scad.sc - 1).toInt = _
    rw [toInt_sc_step (by omega), hsc]
    rfl
  case others =>
    intro u hu
    change (v₀.path.alu.next w (v₀.path.dbus w i)).aluRAM u = _
    rw [Alu.next_aluRAM_of_ne _ (by rw [hword.b]; exact hu)]
  case divides =>
    refine ⟨_, _, hword.start (v₀.path.dbus w i) hbrar hbr har hq hlt, ?_⟩
    change (v₀.path.alu.next w (v₀.path.dbus w i)).q.toNat = _
    rw [hqnext, hshift, Alu.toNat_up]
    change (2 * v₀.path.alu.q.toNat + 0) % 2 ^ 40 = _
    omega

/-- The microword behind the divide steps shifts the last bit of the quotient into `Q`. -/
theorem last_next (hrom : DivideListing rom) (s : Alu) (b : BitVec 36) :
    (s.next (rom 0o1277) b).q = Alu.up s.q (bit s.q 4) s.flagCARRYOUT ∧
      ∀ u, u ≠ t1 → (s.next (rom 0o1277) b).aluRAM u = s.aluRAM u := by
  have hdest : Alu.dest (rom 0o1277) = Alu.dstRAMQU := by
    rw [hrom.last]
    decide
  have hstyle : Alu.shstyle (rom 0o1277) = .div := by
    rw [hrom.last]
    decide
  have hclken : Microword.cromLClken (rom 0o1277) = true ∧
      Microword.cromRClken (rom 0o1277) = true := by
    rw [hrom.last]
    decide
  have hshift : s.divide_shift (rom 0o1277) = s.flagCARRYOUT := by
    have hfields : Microword.cromMultiPrec (rom 0o1277) = false ∧
        Microword.cromDivide (rom 0o1277) = true := by
      rw [hrom.last]
      decide
    rw [Alu.divide_shift, hfields.1, hfields.2]
    exact Bool.true_and _
  refine ⟨?_, fun u hu => Alu.next_aluRAM_of_ne s ?_⟩
  · have hq : (s.next (rom 0o1277) b).q = Alu.halves (Microword.cromLClken (rom 0o1277))
        (Microword.cromRClken (rom 0o1277)) (s.qi (rom 0o1277) b) s.q := rfl
    rw [hq, hclken.1, hclken.2, Alu.halves_both, Alu.qi, hdest, hstyle, hshift]
    rfl
  · have hb : Microword.cromAluB (rom 0o1277) = t1 := by
      rw [hrom.last]
      decide
    rw [hb]
    exact hu

/-- The divide steps are over.  The remainder may be wrong by the divisor. -/
structure Quotient (p : Point) (D M : Nat) (v : View) : Prop where
  pc : v.pc = 0o3072
  stack : v.stack = p.stack
  pcFlags : v.path.pcFlags = p.pcFlags
  others : ∀ u, u ≠ ar → u ≠ t1 → v.path.alu.aluRAM u = p.ram u
  remainder : ∃ r : Int, (v.path.alu.aluRAM ar).toInt = 2 * r ∧
    (-(M : Int) ≤ r ∧ r < M) ∧ (if r < 0 then r + M else r) = (D % M : Nat)
  quotient : v.path.alu.q.toNat % 2 ^ 38 = D / M

/-- The last bit of the quotient comes into `Q`. -/
theorem Dividing.last (hrom : DivideListing rom) (h : Dividing v₀ d high low Q 35 v)
    (hQ : Q % 2 = 0) (hlow : low.toNat = Q % 2 ^ 36) (hquiet : Quiet i) :
    Quotient v₀.point ((high ++ low).toNat / 2) d.toNat (v.exec (rom v.pc) r₀ i) := by
  have hpc : v.pc = 0o1277 := h.pc
  have hcontrols : Controls (rom v.pc) { j := 0o3072 } := by
    rw [hpc, hrom.last]
    decide
  obtain ⟨hqnext, hram⟩ := last_next hrom v.path.alu (v.path.dbus (rom v.pc) i)
  obtain ⟨q, r, hdivides, hq⟩ := h.divides
  have hdivided := hdivides.divided
  have hcollected := hdivides.collected
  have hD : Alu.dividend high low 35 = (high ++ low).toNat / 2 := rfl
  rw [hD] at hdivided
  have hodd : Alu.nextBit low 35 = 0 := by
    change (low.getLsbD 0).toNat = 0
    rw [BitVec.getLsbD, Nat.toNat_testBit]
    omega
  have hd := d.isLt
  have hlower := hdivided.lower
  have hupper := hdivided.upper
  have har : (v.path.alu.aluRAM ar).toInt = 2 * r := by
    have hremainder := hdivides.remainder (by decide)
    rw [hodd] at hremainder
    refine Alu.toInt_of_toNat (by omega) (by omega) ?_
    rw [hremainder]
    simp
  have hbit : v.path.alu.flagCARRYOUT.toNat = bitOf r := by
    rw [hdivides.carry, bitOf]
    by_cases hr : 0 ≤ r
    · rw [decide_eq_true hr, if_pos hr]
      rfl
    · rw [decide_eq_false hr, if_neg hr]
      rfl
  have hret : Useq.ret (rom v.pc) = false := by
    rw [Useq.ret, hcontrols.disp]
    rfl
  rw [← hpc] at hqnext hram
  rw [hcontrols.exec hquiet]
  constructor
  case pc =>
    change _ ||| _ ||| _ = _
    rw [Useq.dispAddr_none hcontrols.disp, Useq.skipAddr_none hcontrols.skip]
    rfl
  case stack =>
    change (if Useq.ret (rom v.pc) = true then v.stack.tail else v.stack) = _
    rw [hret]
    exact h.stack
  case pcFlags => exact h.pcFlags
  case others =>
    intro u har ht1
    change (v.path.alu.next (rom v.pc) (v.path.dbus (rom v.pc) i)).aluRAM u = _
    exact (hram u ht1).trans (h.others u har)
  case remainder =>
    refine ⟨r, ?_, ⟨hlower, hupper⟩, hdivided.remainder⟩
    change ((v.path.alu.next (rom v.pc) (v.path.dbus (rom v.pc) i)).aluRAM ar).toInt = _
    rw [hram ar (by decide), har]
  case quotient =>
    change (v.path.alu.next (rom v.pc) (v.path.dbus (rom v.pc) i)).q.toNat % 2 ^ 38 = _
    rw [hqnext, Alu.toNat_up, hq, hbit, hdivided.quotient]
    have hbound : bitOf r ≤ 1 := by
      unfold bitOf
      split
      · exact Nat.le_refl 1
      · exact Nat.zero_le 1
    omega

/-- The divide steps, from the first to the last. -/
theorem divide_steps {e : Env} (hrom : DivideListing rom) (hpc : v₀.pc = 0o3071)
    (hdepth : v₀.stack.length < 16) (hsc : v₀.path.scad.sc.toInt = 34)
    (hbr : v₀.path.alu.aluRAM br = 0#4 ++ d) (har : v₀.path.alu.aluRAM ar = 0#4 ++ high)
    (hlt : high.toNat < 2 * d.toNat) (hQ : v₀.path.alu.q.toNat % 2 = 0)
    (hlow : low.toNat = v₀.path.alu.q.toNat % 2 ^ 36) :
    Comes (next rom) e.Meets Goes (Shows rom v₀)
      (Shown rom (Quotient v₀.point ((high ++ low).toNat / 2) d.toNat)) := by
  obtain ⟨⟨-, hfirst⟩, -, hstep⟩ := hrom.steps
  have hq : field v₀.path.alu.q 4 39 = low := by
    refine BitVec.eq_of_toNat_eq ?_
    rw [field, BitVec.extractLsb'_toNat, hlow]
    rfl
  have hquiet (s : Micro) (i : In) (h : e.Meets s i) : Quiet i := h.quiet
  have hstart : Comes (next rom) e.Meets Goes (Shown rom (· = v₀))
      (Shown rom (Dividing v₀ d high low v₀.path.alu.q.toNat 0)) := by
    refine Comes.word hquiet ?_ ?_ ?_
    · rintro v rfl
      rw [hpc]
      exact hfirst.single
    · rintro v rfl
      exact hdepth
    · rintro s i v hmeets - rfl
      exact dividing_start hrom hpc hsc hbr har hq hlt hmeets.quiet
  have hloop : Comes (next rom) e.Meets Goes
      (Shown rom (Dividing v₀ d high low v₀.path.alu.q.toNat 0))
      (Shown rom (Dividing v₀ d high low v₀.path.alu.q.toNat 35)) := by
    refine Comes.loop (P := fun k => Shown rom (Dividing v₀ d high low v₀.path.alu.q.toNat k)) 35
      fun k hk => Comes.word hquiet (fun v hv => ?_) (fun v hv => ?_)
        fun s i v hmeets _ hv => hv.step hrom hk hmeets.quiet
    · rw [hv.pc, if_neg (by omega)]
      exact hstep.single
    · rw [hv.stack]
      exact hdepth
  refine (Comes.of_imp fun s hs => ⟨v₀, hs, rfl⟩).trans (hstart.trans (hloop.trans ?_))
  refine Comes.word hquiet (fun v hv => ?_) (fun v hv => ?_)
    fun s i v hmeets _ hv => hv.last hrom hQ hlow hmeets.quiet
  · rw [hv.pc, if_pos rfl, hrom.last]
    decide
  · rw [hv.stack]
    exact hdepth

end Micro

end KS10
