import KS10.Micro.Divide

/-!
# The divide subroutine: the results

Behind the divide steps DIVSUB makes the remainder right, and shifts both results back into the
places of words.  It returns to one of four places, where they get their signs.  Quotient and
remainder are those of a division that truncates.
-/

namespace KS10

open Clocked

namespace Micro

variable {rom : MicroAddr → Microword} {e : Env} {p : Point}

/-! ## Behind the divide steps -/

namespace Divsub

def arHalf : Line where
  op := { func := 0b011, src := 0b100, a := ar, b := ar, dest := Alu.dstRAMD }
  j := 0o1300
  test := .sign

def restore : Line where
  op := { func := 0b000, src := 0b001, a := br, b := ar, dest := Alu.dstRAMF }
  j := 0o1300

def maskQ : Line where
  op := { func := 0b100, src := 0b000, a := mask, dest := Alu.dstQREG }
  j := 0o3075

/-- Return to one of four places. -/
def place : Line where
  op := { func := 0b011, src := 0b011, b := arx, dest := 0b001 }
  j := 0o0014
  way := .backDp

def plusBoth : Line where
  op := { func := 0b100, src := 0b100, dest := 0b001 }
  j := 2
  way := .back

def minusQ (j : MicroAddr) (way : Way) : Line where
  op := { func := 0b010, cry38 := true, src := 0b010, dest := Alu.dstQREG }
  j := j
  way := way

def minusAr : Line where
  op := { func := 0b010, cry38 := true, src := 0b100, a := ar, b := ar, dest := Alu.dstRAMF }
  j := 2
  way := .back

end Divsub

theorem DivideListing.lines (h : DivideListing rom) :
    Divsub.arHalf.Listed (rom 0o3072) ∧ (doubleLong ar 0o3073).Listed (rom 0o1300) ∧
      Divsub.restore.Listed (rom 0o1301) ∧ (doubleLong ar 0o3074).Listed (rom 0o3073) ∧
      Divsub.maskQ.Listed (rom 0o3074) ∧ Divsub.place.Listed (rom 0o3075) ∧
      Divsub.plusBoth.Listed (rom 0o0374) ∧ (Divsub.minusQ 2 .back).Listed (rom 0o0375) ∧
      (Divsub.minusQ 0o0377 .on).Listed (rom 0o0376) ∧ Divsub.minusAr.Listed (rom 0o0377) := by
  rw [h.arHalf, h.fix, h.restore, h.fix1, h.maskQ, h.place, h.plus, h.minusQuotient, h.minusBoth,
    h.minusRemainder]
  decide

/-! ## What the lines do -/

section Lines

/-- The lower word without its sign. -/
def unsigned (x : BitVec 40) : BitVec 40 :=
  Alu.halves true false (Alu.dd 0o377777377777 &&& x) x

theorem exec_divsub : p.exec e Divsub.divsub =
    { p with
      pc := 0o3062
      stack := p.pc :: p.stack
      q := unsigned p.q } :=
  Point.ext (Point.exec_pc_on rfl rfl) rfl rfl rfl rfl rfl

/-- The sign of the lower word is cleared. -/
theorem toNat_unsigned (q : BitVec 40) : (unsigned q).toNat = q.toNat % 2 ^ 37 := by
  have hones : field (Alu.dd 0o377777377777) 0 19 = 0x1ffff := by decide
  have hand : field (Alu.dd 0o377777377777 &&& q) 0 19 = 0x1ffff &&& field q 0 19 := by
    rw [← hones]
    exact BitVec.extractLsb'_and
  have hleft : (field (Alu.dd 0o377777377777 &&& q) 0 19).toNat = q.toNat / 2 ^ 20 % 2 ^ 17 := by
    have htoNat : (field q 0 19).toNat = q.toNat / 2 ^ 20 % 2 ^ 20 := by
      rw [field, BitVec.extractLsb'_toNat, Nat.shiftRight_eq_div_pow]
    rw [hand, BitVec.toNat_and, htoNat, Nat.and_comm]
    change _ &&& (2 ^ 17 - 1) = _
    rw [Nat.and_two_pow_sub_one_eq_mod]
    omega
  have hright : (field q 20 39).toNat = q.toNat % 2 ^ 20 := by
    rw [field, BitVec.extractLsb'_toNat]
    rfl
  have hhalves := toNat_append_eq (field (Alu.dd 0o377777377777 &&& q) 0 19) (field q 20 39)
  rw [hleft, hright] at hhalves
  change (field (Alu.dd 0o377777377777 &&& q) 0 19 ++ field q 20 39).toNat = _
  rw [hhalves]
  omega

theorem toNat_unsigned_dd (l : BitVec 36) : (unsigned (Alu.dd l)).toNat = 4 * (l.toNat % 2 ^ 35) := by
  have hlt := l.isLt
  rw [toNat_unsigned, Alu.toNat_dd]
  split
  · omega
  · omega

theorem exec_arHalf : p.exec e Divsub.arHalf =
    { p with
      pc := if (p.ram ar).toInt < 0 then 0o1301 else 0o1300
      ram := Function.update p.ram ar ((p.ram ar).sshiftRight 1) } := by
  have hf : 0#40 ||| p.ram ar = p.ram ar := BitVec.zero_or
  have hnext : (1 : MicroAddr) ||| 0o1300 = 0o1301 := by decide
  refine Point.ext (Point.exec_pc_if rfl ?_ hnext) rfl ?_ rfl rfl rfl
  · change (0#40 ||| p.ram ar).msb = _
    rw [hf, BitVec.msb_eq_toInt]
  · rw [← Alu.down_sign]
    exact congrArg (fun f => Function.update p.ram ar (Alu.down f (bit f 0) (bit f 3))) hf

theorem exec_restore : p.exec e Divsub.restore =
    { p with
      pc := 0o1300
      ram := Function.update p.ram ar (p.ram br + p.ram ar) } := by
  have hf : (Alu.add false false (p.ram br) (p.ram ar)).f = p.ram br + p.ram ar := by
    have hzero : (BitVec.ofBool false).setWidth 40 = 0#40 := rfl
    rw [Alu.add_f, hzero, BitVec.add_zero]
  refine Point.ext (Point.exec_pc_on rfl rfl) rfl ?_ rfl rfl rfl
  exact congrArg (Function.update p.ram ar ·) hf

theorem exec_maskQ : p.exec e Divsub.maskQ = { p with pc := 0o3075, q := p.ram mask &&& p.q } :=
  Point.ext (Point.exec_pc_on rfl rfl) rfl rfl rfl rfl rfl

theorem exec_place : p.exec e Divsub.place =
    { p with
      pc := (field (p.stack.headD 0) 0 7 ++ field (field (p.ram arx) 2 37) 18 21) ||| 0o0014
      stack := p.stack.tail } := by
  have hf : 0#40 ||| p.ram arx = p.ram arx := BitVec.zero_or
  have hpc := Point.exec_pc_backDp (e := e) (l := Divsub.place) (p := p) rfl rfl
  have hdp : p.dp e Divsub.place = field (p.ram arx) 2 37 := congrArg (field · 2 37) hf
  rw [hdp] at hpc
  exact Point.ext hpc rfl rfl rfl rfl rfl

theorem exec_plusBoth : p.exec e Divsub.plusBoth =
    { p with pc := p.stack.headD 0 ||| 2, stack := p.stack.tail } :=
  Point.ext (Point.exec_pc_back rfl rfl) rfl rfl rfl rfl rfl

theorem exec_minusQ {j : MicroAddr} : p.exec e (Divsub.minusQ j .on) =
    { p with pc := j, q := -p.q } :=
  Point.ext (Point.exec_pc_on rfl rfl) rfl rfl (Alu.neg_f p.q) rfl rfl

theorem exec_minusQuotient : p.exec e (Divsub.minusQ 2 .back) =
    { p with pc := p.stack.headD 0 ||| 2, stack := p.stack.tail, q := -p.q } :=
  Point.ext (Point.exec_pc_back rfl rfl) rfl rfl (Alu.neg_f p.q) rfl rfl

theorem exec_minusAr : p.exec e Divsub.minusAr =
    { p with
      pc := p.stack.headD 0 ||| 2
      stack := p.stack.tail
      ram := Function.update p.ram ar (-p.ram ar) } := by
  refine Point.ext (Point.exec_pc_back rfl rfl) rfl ?_ rfl rfl rfl
  exact congrArg (Function.update p.ram ar ·) (Alu.neg_f (p.ram ar))

end Lines

/-! ## Signs -/

/-- A quotient that is truncated, from the absolute values. -/
theorem tdiv_natAbs (N M : Int) : N.tdiv M =
    if N < 0 ↔ M < 0 then ((N.natAbs / M.natAbs : Nat) : Int)
    else -((N.natAbs / M.natAbs : Nat) : Int) := by
  rw [Int.natCast_div, ← Int.tdiv_eq_ediv_of_nonneg (Int.natCast_nonneg _)]
  by_cases hN : N < 0
  · by_cases hM : M < 0
    · have hn : N = -(N.natAbs : Int) := by omega
      have hm : M = -(M.natAbs : Int) := by omega
      rw [if_pos (iff_of_true hN hM)]
      nth_rewrite 1 [hn, hm]
      rw [Int.neg_tdiv, Int.tdiv_neg, Int.neg_neg]
    · have hn : N = -(N.natAbs : Int) := by omega
      have hm : M = (M.natAbs : Int) := by omega
      rw [if_neg (fun h => hM (h.mp hN))]
      nth_rewrite 1 [hn, hm]
      rw [Int.neg_tdiv]
  · by_cases hM : M < 0
    · have hn : N = (N.natAbs : Int) := by omega
      have hm : M = -(M.natAbs : Int) := by omega
      rw [if_neg (fun h => hN (h.mpr hM))]
      nth_rewrite 1 [hn, hm]
      rw [Int.tdiv_neg]
    · have hn : N = (N.natAbs : Int) := by omega
      have hm : M = (M.natAbs : Int) := by omega
      rw [if_pos (iff_of_false hN hM)]
      nth_rewrite 1 [hn, hm]
      rfl

/-- The remainder has the sign of the dividend. -/
theorem tmod_natAbs (N M : Int) : N.tmod M =
    if N < 0 then -((N.natAbs % M.natAbs : Nat) : Int) else ((N.natAbs % M.natAbs : Nat) : Int) := by
  have habs : (N.tmod M).natAbs = N.natAbs % M.natAbs := Int.natAbs_tmod N M
  by_cases hN : N < 0
  · have hneg : N.tmod M = -((-N).tmod M) := by rw [Int.neg_tmod, Int.neg_neg]
    have hsign : 0 ≤ (-N).tmod M := Int.tmod_nonneg M (by omega)
    rw [if_pos hN, ← habs]
    omega
  · rw [if_neg hN, ← habs]
    have hsign : 0 ≤ N.tmod M := Int.tmod_nonneg M (by omega)
    omega

/-! ## The results -/

section Results

variable {K : View → Prop} {D M : Nat}

/-- The two results are in the places of words, and are positive. -/
structure Absolute (D M : Nat) (p p' : Point) : Prop where
  pc : p'.pc = 0o3075
  stack : p'.stack = p.stack
  pcFlags : p'.pcFlags = p.pcFlags
  others : ∀ u, u ≠ ar → p'.ram u = p.ram u
  quotient : p'.q.toNat = 4 * (D / M)
  remainder : (p'.ram ar).toInt = 4 * (D % M : Nat)

/-- The bits below the word are zero. -/
theorem mask_and {q : BitVec 40} (h : q.toNat % 4 = 0) (hq : q.toNat < 2 ^ 38) :
    maskWord &&& q = q := by
  have hmask (k : Nat) : maskWord.getLsbD k = (decide (2 ≤ k) && decide (k - 2 < 36)) := by
    have hshift : maskWord.toNat = (2 ^ 36 - 1) <<< 2 := rfl
    rw [BitVec.getLsbD, hshift, Nat.testBit_shiftLeft, Nat.testBit_two_pow_sub_one]
  refine BitVec.eq_of_getLsbD_eq fun k _ => ?_
  rw [BitVec.getLsbD_and, hmask]
  by_cases hin : 2 ≤ k ∧ k - 2 < 36
  · rw [decide_eq_true hin.1, decide_eq_true hin.2, Bool.true_and, Bool.true_and]
  · have hbit : q.getLsbD k = false := by
      by_cases hlow : 2 ≤ k
      · exact Nat.testBit_lt_two_pow (Nat.lt_of_lt_of_le hq (Nat.pow_le_pow_right (by decide)
          (by omega)))
      · have hmod : (q.toNat % 2 ^ 2).testBit k = (0 : Nat).testBit k :=
          congrArg (Nat.testBit · k) h
        rw [Nat.testBit_mod_two_pow, decide_eq_true (by omega), Bool.true_and,
          Nat.zero_testBit] at hmod
        exact hmod
    rw [hbit, Bool.and_false]

/-- The results are shifted back. -/
theorem divsub_shift (hrom : DivideListing rom) {p₀ : Point} (hpc : p.pc = 0o1300)
    (hdepth : p.stack.length < 16) (hstack : p.stack = p₀.stack) (hpcFlags : p.pcFlags = p₀.pcFlags)
    (hothers : ∀ u, u ≠ ar → p.ram u = p₀.ram u) (hmask : p₀.ram mask = maskWord)
    (hq : p.q.toNat % 2 ^ 38 = D / M) (hD : D / M < 2 ^ 36)
    (har : (p.ram ar).toInt = (D % M : Nat)) (hM : D % M < 2 ^ 36)
    (hrest : ∀ p', Absolute D M p₀ p' → Reaches rom e p' K) : Reaches rom e p K := by
  obtain ⟨-, hfix, -, hfix1, hmaskQ, -⟩ := hrom.lines
  have hmaskar : mask ≠ ar := by decide
  have hram (x y : BitVec 40) : Function.update (Function.update p.ram ar x) ar
      (Function.update p.ram ar x ar + y) = Function.update p.ram ar (x + y) := by
    rw [Function.update_self, Function.update_idem]
  rw [← hpc] at hfix
  refine Reaches.line hfix hdepth rfl ?_
  rw [exec_doubleLong]
  refine Reaches.line hfix1 hdepth rfl ?_
  rw [exec_doubleLong]
  refine Reaches.line hmaskQ hdepth rfl ?_
  rw [exec_maskQ]
  generalize hx : p.ram ar + p.ram ar = x
  change Reaches rom e
    { p with
      pc := 0o3075
      ram := Function.update (Function.update p.ram ar x) ar
        (Function.update p.ram ar x ar + Function.update p.ram ar x ar)
      q := Function.update (Function.update p.ram ar x) ar
        (Function.update p.ram ar x ar + Function.update p.ram ar x ar) mask &&&
          (p.q + p.q + (p.q + p.q)) } K
  have hfour : (p.q + p.q + (p.q + p.q)).toNat = 4 * (D / M) := by
    rw [BitVec.toNat_add, BitVec.toNat_add]
    omega
  have hx' : x.toInt = 2 * (D % M : Nat) := by
    have hfits : Alu.Fits ((p.ram ar).toInt + (p.ram ar).toInt) := ⟨by omega, by omega⟩
    rw [← hx, BitVec.toInt_add, Alu.bmod_of_fits hfits]
    omega
  rw [hram, Function.update_self, Function.update_of_ne hmaskar, hothers mask hmaskar, hmask,
    mask_and (by omega) (by omega)]
  refine hrest _ ⟨rfl, hstack, hpcFlags, fun u hu => ?_, hfour, ?_⟩
  · exact (Function.update_of_ne hu (x + x) p.ram).trans (hothers u hu)
  · have hfits : Alu.Fits (x.toInt + x.toInt) := ⟨by omega, by omega⟩
    change (Function.update p.ram ar (x + x) ar).toInt = _
    rw [Function.update_self, BitVec.toInt_add, Alu.bmod_of_fits hfits]
    omega

/-- The remainder is made right. -/
theorem divsub_restore (hrom : DivideListing rom) {v : View} (h : Quotient p D M v)
    (hdepth : v.stack.length < 16) (hmask : p.ram mask = maskWord)
    (hbr : (p.ram br).toInt = M) (hM : M < 2 ^ 36) (hD : D / M < 2 ^ 36)
    (hrest : ∀ p', Absolute D M v.point p' → Reaches rom e p' K) : Reaches rom e v.point K := by
  obtain ⟨harHalf, -, hrestore, -⟩ := hrom.lines
  obtain ⟨r, har, ⟨hlower, hupper⟩, hremainder⟩ := h.remainder
  have hlt : D % M < M := Nat.mod_lt _ (by omega)
  have hbr' : v.path.alu.aluRAM br = p.ram br := h.others br (by decide) (by decide)
  have hmask' : v.point.ram mask = maskWord :=
    (h.others mask (by decide) (by decide)).trans hmask
  have hhalf : ((v.path.alu.aluRAM ar).sshiftRight 1).toInt = r := by
    rw [BitVec.toInt_sshiftRight, Int.shiftRight_eq_div_pow, har]
    omega
  have hpc : v.point.pc = 0o3072 := h.pc
  rw [← hpc] at harHalf
  refine Reaches.line harHalf hdepth rfl ?_
  rw [exec_arHalf]
  change Reaches rom e
    { v.point with
      pc := if (v.path.alu.aluRAM ar).toInt < 0 then 0o1301 else 0o1300
      ram := Function.update v.path.alu.aluRAM ar ((v.path.alu.aluRAM ar).sshiftRight 1) } K
  generalize (v.path.alu.aluRAM ar).sshiftRight 1 = x at hhalf ⊢
  rw [har]
  by_cases hneg : r < 0
  · rw [if_pos hneg] at hremainder
    rw [if_pos (by omega)]
    refine Reaches.line hrestore hdepth rfl ?_
    rw [exec_restore]
    have hbrar : br ≠ ar := by decide
    have hsum : (v.path.alu.aluRAM br + x).toInt = (D % M : Nat) := by
      rw [BitVec.toInt_add, hbr', hbr, hhalf, Alu.bmod_of_fits ⟨by omega, by omega⟩]
      omega
    change Reaches rom e
      { v.point with
        pc := 0o1300
        ram := Function.update (Function.update v.path.alu.aluRAM ar x) ar
          (Function.update v.path.alu.aluRAM ar x br + Function.update v.path.alu.aluRAM ar x ar) } K
    rw [Function.update_self, Function.update_of_ne hbrar, Function.update_idem]
    generalize v.path.alu.aluRAM br + x = y at hsum ⊢
    refine divsub_shift hrom rfl hdepth (Eq.refl v.point.stack) rfl (fun u hu => ?_) hmask'
      h.quotient hD ?_ (by omega) hrest
    · exact Function.update_of_ne hu y v.path.alu.aluRAM
    · exact (congrArg BitVec.toInt (Function.update_self ar y v.path.alu.aluRAM)).trans hsum
  · rw [if_neg hneg] at hremainder
    rw [if_neg (by omega)]
    refine divsub_shift hrom rfl hdepth (Eq.refl v.point.stack) rfl (fun u hu => ?_) hmask'
      h.quotient hD ?_ (by omega) hrest
    · exact Function.update_of_ne hu x v.path.alu.aluRAM
    · have hx : (x : BitVec 40).toInt = (D % M : Nat) := hhalf.trans hremainder
      exact (congrArg BitVec.toInt (Function.update_self ar x v.path.alu.aluRAM)).trans hx

variable {N M : Int}

/-- The subroutine has returned. -/
structure DivsubDone (N M : Int) (p : Point) (v : View) : Prop where
  pc : v.pc = p.stack.headD 0 ||| 2
  stack : v.stack = p.stack.tail
  pcFlags : v.path.pcFlags = p.pcFlags
  others : ∀ u, u ≠ ar → u ≠ arx → u ≠ br → u ≠ t1 → v.path.alu.aluRAM u = p.ram u
  quotient : v.path.alu.q.toInt = 4 * N.tdiv M
  remainder : (v.path.alu.aluRAM ar).toInt = 4 * N.tmod M

theorem toInt_neg_of_fits {x : BitVec 40} (h : Alu.Fits (-x.toInt)) : (-x).toInt = -x.toInt := by
  rw [BitVec.toInt_neg, Alu.bmod_of_fits h]

/-- The place that the signs lead to. -/
theorem place_addr (N M : Int) : (field (0o0370 : MicroAddr) 0 7 ++ signPlace N M) ||| 0o0014 =
    if N < 0 then if M < 0 then 0o0377 else 0o0376 else if M < 0 then 0o0375 else 0o0374 := by
  rw [signPlace]
  by_cases hN : N < 0
  · rw [decide_eq_true hN, if_pos hN]
    by_cases hM : M < 0
    · rw [decide_eq_true hM, if_pos hM]
      rfl
    · rw [decide_eq_false hM, if_neg hM]
      rfl
  · rw [decide_eq_false hN, if_neg hN]
    by_cases hM : M < 0
    · rw [decide_eq_true hM, if_pos hM]
      rfl
    · rw [decide_eq_false hM, if_neg hM]
      rfl

/-- The results get their signs. -/
theorem divsub_signs (hrom : DivideListing rom) {p₀ : Point} (hpc : p.pc = 0o3075)
    (hstack : p.stack = 0o0370 :: p₀.stack) (hdepth : p₀.stack.length < 15) (hcalled : p₀.stack ≠ [])
    (hpcFlags : p.pcFlags = p₀.pcFlags)
    (hothers : ∀ u, u ≠ ar → u ≠ arx → u ≠ br → u ≠ t1 → p.ram u = p₀.ram u)
    (hplace : field (field (p.ram arx) 2 37) 18 21 = signPlace N M)
    (hquotient : p.q.toInt = 4 * (N.natAbs / M.natAbs : Nat))
    (hremainder : (p.ram ar).toInt = 4 * (N.natAbs % M.natAbs : Nat))
    (hq : N.natAbs / M.natAbs < 2 ^ 36) (hr : N.natAbs % M.natAbs < 2 ^ 36) :
    Reaches rom e p (DivsubDone N M p₀) := by
  obtain ⟨-, -, -, -, -, hplaceLine, hplus, hminusQ, hminusBoth, hminusAr⟩ := hrom.lines
  have hdepth' : p.stack.length < 16 := by
    rw [hstack]
    exact Nat.succ_lt_succ hdepth
  have hnonempty : p.stack ≠ [] := by
    rw [hstack]
    exact List.cons_ne_nil _ _
  have hdepth₀ : p₀.stack.length < 16 := Nat.lt_succ_of_lt hdepth
  have hdiv := tdiv_natAbs N M
  have hmod := tmod_natAbs N M
  generalize N.natAbs / M.natAbs = d at hquotient hq hdiv
  generalize N.natAbs % M.natAbs = r at hremainder hr hmod
  have hnegq : (-p.q).toInt = -(4 * d) := by
    rw [toInt_neg_of_fits ⟨by omega, by omega⟩, hquotient]
  have hnegr : (-p.ram ar).toInt = -(4 * r) := by
    rw [toInt_neg_of_fits ⟨by omega, by omega⟩, hremainder]
  have hdone (v : View) (x y : BitVec 40) (hx : x.toInt = 4 * N.tmod M)
      (hy : y.toInt = 4 * N.tdiv M) (hv : v.point = { p with
        pc := p₀.stack.headD 0 ||| 2
        stack := p₀.stack.tail
        ram := Function.update p.ram ar x
        q := y }) : DivsubDone N M p₀ v := by
    have hram : v.path.alu.aluRAM = Function.update p.ram ar x := congrArg Point.ram hv
    have hq : v.path.alu.q = y := congrArg Point.q hv
    refine ⟨congrArg Point.pc hv, congrArg Point.stack hv,
      (congrArg Point.pcFlags hv).trans hpcFlags, fun u har hux hubr hut1 => ?_, ?_, ?_⟩
    · rw [hram, Function.update_of_ne har, hothers u har hux hubr hut1]
    · rw [hq, hy]
    · rw [hram, Function.update_self, hx]
  rw [← hpc] at hplaceLine
  refine Reaches.back hplaceLine hdepth' hnonempty ?_
  rw [exec_place, hplace, hstack]
  change Reaches rom e
    { p with
      pc := (field (0o0370 : MicroAddr) 0 7 ++ signPlace N M) ||| 0o0014
      stack := p₀.stack } _
  rw [place_addr]
  by_cases hN : N < 0
  · rw [if_pos hN] at hmod ⊢
    have hx : (-p.ram ar).toInt = 4 * N.tmod M := by
      rw [hnegr, hmod]
      omega
    by_cases hM : M < 0
    · rw [if_pos (iff_of_true hN hM)] at hdiv
      rw [if_pos hM]
      refine Reaches.back hminusAr hdepth₀ hcalled ?_
      rw [exec_minusAr]
      exact Reaches.done fun v hv => hdone v _ _ hx (by rw [hquotient, hdiv]) hv
    · rw [if_neg (fun h => hM (h.mp hN))] at hdiv
      rw [if_neg hM]
      have hy : (-p.q).toInt = 4 * N.tdiv M := by
        rw [hnegq, hdiv]
        omega
      refine Reaches.line hminusBoth hdepth₀ rfl ?_
      rw [exec_minusQ]
      refine Reaches.back hminusAr hdepth₀ hcalled ?_
      rw [exec_minusAr]
      exact Reaches.done fun v hv => hdone v _ _ hx hy hv
  · rw [if_neg hN] at hmod ⊢
    have hx : (p.ram ar).toInt = 4 * N.tmod M := by rw [hremainder, hmod]
    by_cases hM : M < 0
    · rw [if_neg (fun h => hN (h.mpr hM))] at hdiv
      rw [if_pos hM]
      have hy : (-p.q).toInt = 4 * N.tdiv M := by
        rw [hnegq, hdiv]
        omega
      refine Reaches.back hminusQ hdepth₀ hcalled ?_
      rw [exec_minusQuotient]
      refine Reaches.done fun v hv => hdone v _ _ hx hy ?_
      rw [Function.update_eq_self]
      exact hv
    · rw [if_pos (iff_of_false hN hM)] at hdiv
      rw [if_neg hM]
      have hy : p.q.toInt = 4 * N.tdiv M := by rw [hquotient, hdiv]
      refine Reaches.back hplus hdepth₀ hcalled ?_
      rw [exec_plusBoth]
      refine Reaches.done fun v hv => hdone v _ _ hx hy ?_
      rw [Function.update_eq_self]
      exact hv

/-- The range of the double words. -/
theorem doubleWord_bounds (high low : BitVec 36) :
    -2 ^ 70 ≤ Alu.doubleWord high low ∧ Alu.doubleWord high low < 2 ^ 70 := by
  have hbounds : -2 ^ 35 ≤ high.toInt ∧ high.toInt < 2 ^ 35 :=
    ⟨BitVec.le_toInt high, BitVec.toInt_lt⟩
  rw [Alu.doubleWord]
  omega

/-- The divide steps, with the operands in their places. -/
theorem divsub_steps (hrom : DivideListing rom) {p₀ : Point} (h : DivideReady N M p₀ p)
    (hdepth : p₀.stack.length < 16) (hsc : p₀.scad.sc = 34) (hN : N.natAbs < M.natAbs * 2 ^ 36)
    (hN' : N.natAbs ≤ 2 ^ 70) (hM : M.natAbs ≤ 2 ^ 35) :
    Reaches rom e p (Quotient p N.natAbs M.natAbs) := by
  have hupper : (BitVec.ofNat 36 (N.natAbs / 2 ^ 35)).toNat = N.natAbs / 2 ^ 35 := by
    rw [BitVec.toNat_ofNat]
    omega
  have hlower : (BitVec.ofNat 36 (2 * (N.natAbs % 2 ^ 35))).toNat = 2 * (N.natAbs % 2 ^ 35) := by
    rw [BitVec.toNat_ofNat]
    omega
  have hdivisor : (BitVec.ofNat 36 M.natAbs).toNat = M.natAbs := by
    rw [BitVec.toNat_ofNat]
    omega
  have hword {x : BitVec 40} {w : BitVec 36} (h : x.toNat = w.toNat) : x = 0#4 ++ w := by
    refine BitVec.eq_of_toNat_eq ?_
    rw [h, toNat_append_eq]
    exact (Nat.zero_add _).symm
  have hdividend : (BitVec.ofNat 36 (N.natAbs / 2 ^ 35) ++
      BitVec.ofNat 36 (2 * (N.natAbs % 2 ^ 35))).toNat / 2 = N.natAbs := by
    rw [toNat_append_eq, hupper, hlower]
    omega
  have hbr := hword (h.br.trans hdivisor.symm)
  have har := hword (h.ar.trans hupper.symm)
  have hq := h.q
  refine Reaches.of_view fun v hv => ?_
  subst hv
  change v.path.alu.q.toNat % 2 ^ 36 = _ at hq
  have hdepth' : v.stack.length < 16 := by
    rw [← h.stack] at hdepth
    exact hdepth
  have hsc' : v.path.scad.sc.toInt = 34 := by
    have hscad : v.path.scad = p₀.scad := h.scad
    rw [hscad, hsc]
    rfl
  have hsteps := divide_steps (e := e) hrom h.pc hdepth' hsc' hbr har
    (by rw [hupper, hdivisor]; omega) (by omega) (hlower.trans hq.symm)
  rw [hdividend, hdivisor] at hsteps
  exact hsteps

/-- DIVSUB, from its call to its return. -/
theorem divsub_call (hrom : DivideListing rom) {a l m : BitVec 36} (hpc : p.pc = 0o0370)
    (hdepth : p.stack.length < 15) (hcalled : p.stack ≠ []) (hsc : p.scad.sc = 34)
    (har : p.ram ar = Alu.dd a) (hq : p.q = Alu.dd l) (hbr : p.ram br = Alu.dd m)
    (hmask : p.ram mask = maskWord)
    (hfits : (Alu.doubleWord a l).natAbs < m.toInt.natAbs * 2 ^ 36) :
    Reaches rom e p (DivsubDone (Alu.doubleWord a l) m.toInt p) := by
  obtain ⟨hdivsub, -⟩ := hrom.setup.lines
  have hbounds := doubleWord_bounds a l
  have hm : -2 ^ 35 ≤ m.toInt ∧ m.toInt < 2 ^ 35 := ⟨BitVec.le_toInt m, BitVec.toInt_lt⟩
  have hlow : (unsigned p.q).toNat = 4 * (l.toNat % 2 ^ 35) := by rw [hq, toNat_unsigned_dd]
  have hdepth' : (p.pc :: p.stack).length < 16 := Nat.succ_lt_succ hdepth
  have hpushed : p.pc :: p.stack = 0o0370 :: p.stack := congrArg (· :: p.stack) hpc
  have hupper : (Alu.doubleWord a l).natAbs / 2 ^ 35 ≤ 2 ^ 35 := by omega
  rw [← hpc] at hdivsub
  refine Reaches.line hdivsub (Nat.lt_succ_of_lt hdepth) rfl ?_
  rw [exec_divsub]
  refine setup_dividend hrom.setup rfl hdepth' har hlow (Nat.mod_lt _ (by decide))
    (Eq.refl (Alu.doubleWord a l)) fun p₁ hp₁ => ?_
  refine setup_divisor hrom.setup hp₁ hdepth' hbr rfl hupper fun p₂ hp₂ => ?_
  generalize Alu.doubleWord a l = N at hfits hbounds hupper hp₂ ⊢
  generalize m.toInt = M at hfits hm hp₂ ⊢
  have hmask₂ : p₂.ram mask = maskWord :=
    (hp₂.others mask (by decide) (by decide) (by decide)).trans hmask
  have hbr₂ : (p₂.ram br).toInt = M.natAbs := by
    rw [BitVec.toInt_eq_toNat_of_lt (by rw [hp₂.br]; omega), hp₂.br]
  have hdepth₂ : p₂.stack.length < 16 := by
    rw [hp₂.stack]
    exact hdepth'
  refine (divsub_steps hrom hp₂ hdepth' hsc hfits (by omega) (by omega)).trans fun v hv => ?_
  have hquotient : N.natAbs / M.natAbs < 2 ^ 36 := Nat.div_lt_of_lt_mul hfits
  have hlt : N.natAbs % M.natAbs < M.natAbs := Nat.mod_lt _ (by omega)
  refine divsub_restore hrom hv (by rw [hv.stack]; exact hdepth₂) hmask₂ hbr₂ (by omega) hquotient
    fun p₃ hp₃ => ?_
  refine divsub_signs hrom hp₃.pc ?_ hdepth hcalled ?_ (fun u har hux hubr hut1 => ?_) ?_ ?_
    hp₃.remainder hquotient (by omega)
  · exact hp₃.stack.trans (hv.stack.trans (hp₂.stack.trans hpushed))
  · exact hp₃.pcFlags.trans (hv.pcFlags.trans hp₂.pcFlags)
  · exact (hp₃.others u har).trans ((hv.others u har hut1).trans (hp₂.others u har hux hubr))
  · have harx : p₃.ram arx = p₂.ram arx :=
      (hp₃.others arx (by decide)).trans (hv.others arx (by decide) (by decide))
    rw [harx]
    exact hp₂.place
  · have hq₃ := hp₃.quotient
    rw [BitVec.toInt_eq_toNat_of_lt (by omega), hq₃]
    omega

end Results

end Micro

end KS10
