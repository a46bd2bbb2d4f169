import KS10.Cpu.AluShift
import KS10.Micro.Lines

/-!
# Shift loops

The combined shifts are done by a microword that goes to itself: it shifts a register and `Q` by
one place, and counts the step counter down until it is negative.  A loop of `k` turns is a shift
of the ring by `k` places.  An arithmetic shift to the left also records whether it has lost a
bit; what it records is about the last place only.
-/

namespace KS10

open Clocked

namespace Alu.Combined

/-- The first place, and the others. -/
theorem shifted_first (c : Combined) (left sign : Bool) (x : BitVec 72) (n : Nat) :
    c.shifted left sign (c.shifted left sign x 1) n = c.shifted left sign x (n + 1) := by
  induction n with
  | zero => rw [shifted_zero]
  | succ n ih => rw [shifted_succ, ih, ← shifted_succ]

end Alu.Combined

namespace Micro

/-- What the loop makes of the PC flags: the bit of the ring that the last place has lost. -/
def Effect.shifts (x : Effect) (sign : Bool) (ring : BitVec 72) (k : Nat) (s : PcFlags) : PcFlags :=
  match x, k with
  | ash, k + 1 => { s with flagAov := sign != bit ring k, flagTrap1 := sign != bit ring k }
  | _, _ => s

/-- The microword of the loop. -/
def shiftLine (c : Alu.Combined) (left : Bool) (r : BitVec 4) (effect : Effect) (j : MicroAddr) :
    Line where
  op := { func := 0b011, src := 0b100, a := r, b := r, dest := Alu.dstOf left, style := c.style }
  j := j
  test := .count
  count := .step
  effect := effect

variable {c : Alu.Combined} {left sign : Bool} {r : BitVec 4} {effect : Effect} {j j' : MicroAddr}
  {e : Env} {p : Point}

theorem exec_shiftLine (hj : 1 ||| j = j') : p.exec e (shiftLine c left r effect j) =
    { p with
      pc := if p.scad.sc.toInt < 0 then j' else j
      ram := Function.update p.ram r
        (Alu.shiftF (Alu.dstOf left) c.style false (p.ram r) p.q)
      q := Alu.shiftQ (Alu.dstOf left) c.style false (p.ram r) p.q
      scad := { p.scad with sc := p.scad.sc - 1 }
      pcFlags := effect.next p.pcFlags (p.out e (shiftLine c left r effect j))
        (field (p.ram r) 2 37) } := by
  have hf : 0#40 ||| p.ram r = p.ram r := BitVec.zero_or
  have hpasses : (shiftLine c left r effect j).test.passes (p.out e (shiftLine c left r effect j))
      p.scad = decide (p.scad.sc.toInt < 0) := by
    change bit p.scad.sc 0 = _
    exact BitVec.msb_eq_toInt
  generalize hl : shiftLine c left r effect j = l at hpasses
  have hop : l.op = (shiftLine c left r effect j).op := by rw [hl]
  have hF : l.op.f p.alu (p.bus e l) = p.ram r := by
    rw [hop]
    exact hf
  have hwrite : l.op.write = true := by
    rw [hop]
    cases left with
    | true => rfl
    | false => rfl
  have hload (new old : BitVec 40) : l.op.load new old = new := by
    rw [hop]
    rfl
  have hdest : l.op.dest = Alu.dstOf left ∧ l.op.style = c.style ∧ l.op.b = r := by
    rw [hop]
    exact ⟨rfl, rfl, rfl⟩
  have hdp : p.dp e l = field (p.ram r) 2 37 := by
    have hother : (l.op.dest == Alu.dstRAMA) = false := by
      rw [hdest.1]
      cases left with
      | true => rfl
      | false => rfl
    rw [Point.dp, Alu.Op.aluOUT, hother, hF]
    rfl
  have hcontrol : l.way = .on ∧ l.call = false ∧ l.count = .step ∧ l.effect = effect ∧
      l.j = j := by
    rw [← hl]
    exact ⟨rfl, rfl, rfl, rfl, rfl⟩
  obtain ⟨hway, hcall, hcount, heffect, hlj⟩ := hcontrol
  rw [← hlj] at hj
  refine Point.ext ((Point.exec_pc_if hway hpasses hj).trans ?_) ?_ ?_ ?_ ?_ ?_
  · rw [hlj]
  · rw [Point.exec, hcall, hway]
    rfl
  · change (l.op.next p.alu (p.bus e l)).aluRAM = _
    have hnext : (l.op.next p.alu (p.bus e l)).aluRAM = if l.op.write then
        Function.update p.ram l.op.b (l.op.load (l.op.bdi p.alu (p.bus e l)) (p.ram l.op.b))
        else p.ram := rfl
    rw [hnext, hwrite, if_pos rfl, hload, Alu.Op.bdi, hF, hdest.1, hdest.2.1, hdest.2.2]
    rfl
  · change (l.op.next p.alu (p.bus e l)).q = _
    have hnext : (l.op.next p.alu (p.bus e l)).q = l.op.load (Alu.shiftQ l.op.dest l.op.style false
        (l.op.f p.alu (p.bus e l)) p.q) p.q := rfl
    rw [hnext, hload, hF, hdest.1, hdest.2.1]
  · rw [Point.exec, hcount]
    rfl
  · rw [Point.exec, heffect, hdp]

/-! ## The loop -/

/-- The register and `Q` have been shifted by `k` places. -/
structure ShiftedBy (c : Alu.Combined) (left sign : Bool) (r : BitVec 4) (effect : Effect)
    (k : Nat) (p p' : Point) : Prop where
  stack : p'.stack = p.stack
  others : ∀ u, u ≠ r → p'.ram u = p.ram u
  ring : Alu.ring (p'.ram r) p'.q = c.shifted left sign (Alu.ring (p.ram r) p.q) k
  signed : c = .ashc → Alu.Signed (p'.ram r) sign
  fe : p'.scad.fe = p.scad.fe
  pcFlags : p'.pcFlags = effect.shifts sign (Alu.ring (p.ram r) p.q) k p.pcFlags

/-- What an arithmetic shift records at one place. -/
theorem ash_place (hsigned : Alu.Signed (p.ram r) sign) (s : PcFlags) (o : Alu.Out) :
    Effect.ash.next s o (field (p.ram r) 2 37) =
      Effect.ash.shifts sign (Alu.ring (p.ram r) p.q) 1 s := by
  have hhigh : bit (field (p.ram r) 2 37) 1 = sign := by
    rw [bit_field _ (by decide) (by decide) (by decide)]
    exact hsigned 3 (by decide)
  have hlost : bit (field (p.ram r) 2 37) 2 = bit (Alu.ring (p.ram r) p.q) 0 := by
    rw [bit_field _ (by decide) (by decide) (by decide), Alu.bit_ring _ _ (by decide)]
    rfl
  change { s with flagAov := _, flagTrap1 := _ } = { s with flagAov := _, flagTrap1 := _ }
  rw [hhigh, hlost]

/-- One turn of the loop. -/
theorem ShiftedBy.first (hj : 1 ||| j = j') (heffect : effect = .keep ∨ effect = .ash)
    (hash : effect = .ash → c = .ashc) (hsigned : c = .ashc → Alu.Signed (p.ram r) sign) :
    ShiftedBy c left sign r effect 1 p (p.exec e (shiftLine c left r effect j)) := by
  rw [exec_shiftLine hj]
  constructor
  case stack => rfl
  case others => exact fun u hu => Function.update_of_ne hu _ p.ram
  case ring =>
    change Alu.ring (Function.update p.ram r _ r) _ = _
    rw [Function.update_self]
    exact Alu.ring_step c left sign (p.ram r) p.q fun hc => hsigned hc 3 (by decide)
  case signed =>
    rintro rfl
    change Alu.Signed (Function.update p.ram r _ r) sign
    rw [Function.update_self]
    exact Alu.signed_step (hsigned rfl) left
  case fe => rfl
  case pcFlags =>
    rcases heffect with rfl | rfl
    · rfl
    · exact ash_place (hsigned (hash rfl)) p.pcFlags (p.out e (shiftLine c left r .ash j))

/-- The flags after one place more. -/
theorem Effect.shifts_first (heffect : effect = .keep ∨ effect = .ash)
    (hash : effect = .ash → c = .ashc ∧ left = true) (x : BitVec 72) (k : Nat) (s : PcFlags) :
    effect.shifts sign (c.shifted left sign x 1) k (effect.shifts sign x 1 s) =
      effect.shifts sign x (k + 1) s := by
  rcases heffect with rfl | rfl
  · rfl
  · obtain ⟨rfl, rfl⟩ := hash rfl
    cases k with
    | zero => rfl
    | succ k =>
        have hbit : bit (x <<< 1) k = bit x (k + 1) := by
          rw [bit, BitVec.getMsbD_shiftLeft, Nat.add_comm]
          rfl
        change { s with flagAov := _, flagTrap1 := _ } = { s with flagAov := _, flagTrap1 := _ }
        rw [← hbit]
        rfl

theorem ShiftedBy.trans {p' p'' : Point} {k : Nat} (heffect : effect = .keep ∨ effect = .ash)
    (hash : effect = .ash → c = .ashc ∧ left = true)
    (h : ShiftedBy c left sign r effect 1 p p') (h' : ShiftedBy c left sign r effect k p' p'') :
    ShiftedBy c left sign r effect (k + 1) p p'' := by
  constructor
  case stack => rw [h'.stack, h.stack]
  case others => exact fun u hu => (h'.others u hu).trans (h.others u hu)
  case ring => rw [h'.ring, h.ring, c.shifted_first]
  case signed => exact h'.signed
  case fe => rw [h'.fe, h.fe]
  case pcFlags => rw [h'.pcFlags, h.pcFlags, h.ring, Effect.shifts_first heffect hash]

/-- The loop, with the step counter two below the number of turns. -/
theorem shift_loop {rom : MicroAddr → Microword} {K : View → Prop} (hj : 1 ||| j = j')
    (heffect : effect = .keep ∨ effect = .ash)
    (hash : effect = .ash → c = .ashc ∧ left = true)
    (hline : (shiftLine c left r effect j).Listed (rom j)) (k : Nat)
    (hpc : p.pc = if k = 0 then j' else j) (hsc : p.scad.sc.toInt = k - 2)
    (hdepth : p.stack.length < 16) (hsigned : c = .ashc → Alu.Signed (p.ram r) sign)
    (hrest : ∀ p', p'.pc = j' → ShiftedBy c left sign r effect k p p' → Reaches rom e p' K) :
    Reaches rom e p K := by
  induction k generalizing p with
  | zero =>
      refine hrest p hpc ⟨rfl, fun _ _ => rfl, ?_, hsigned, rfl, ?_⟩
      · rw [c.shifted_zero]
      · cases effect with
        | ash => rfl
        | keep => rfl
        | overflow => rfl
        | noDivide => rfl
        | carries => rfl
  | succ k ih =>
      rw [if_neg (Nat.succ_ne_zero k)] at hpc
      have hfirst := @ShiftedBy.first c left sign r effect j j' e p hj heffect
        (fun h => (hash h).1) hsigned
      have hstep := @exec_shiftLine c left r effect j j' e p hj
      have hline' : (shiftLine c left r effect j).Listed (rom p.pc) := by
        rw [hpc]
        exact hline
      refine Reaches.line hline' hdepth rfl (ih ?_ ?_ ?_ hfirst.signed fun p' hp' h => ?_)
      · rw [hstep]
        change (if p.scad.sc.toInt < 0 then j' else j) = _
        refine if_congr ?_ rfl rfl
        omega
      · rw [hstep]
        change (p.scad.sc - 1).toInt = _
        have hcount : (p.scad.sc - 1).toInt = p.scad.sc.toInt - 1 :=
          toInt_sc_step (by omega)
        rw [hcount, hsc]
        push_cast
        omega
      · rw [hfirst.stack]
        exact hdepth
      · exact hrest p' hp' (hfirst.trans heffect hash h)

end Micro

end KS10
