import KS10.Bus.Console

/-!
# Does a read cycle of the console deliver its result?

A read cycle runs from the GO bit to the return of the state machine to idle
(`Csl.ReadCycle`).  It returns either with an acknowledge, and then the data register
loads the bus data, or after its time-out, and then the NXM flag is set.  Both loads
happen in the last clock of the cycle, and both give way to a write of the
microcontroller in that clock, to any register.

So the cycle keeps its result exactly when the last clock has no such write, or the
write leaves the result in place by itself (`Csl.Undisturbed`).
-/

namespace KS10

open Clocked

namespace Csl

variable {s : Csl} {i : In}

/-! ## What is claimed -/

/-- The clocks from the GO bit to the return to idle: at clock `a` the idle state
machine takes the GO bit, and after clock `t` it is idle again. -/
structure ReadCycle (s : Csl) (i : Nat → In) (a t : Nat) : Prop where
  idle : (runAt s i a).state = .idle
  go : (runAt s i (a + 1)).state = .readWaitGo
  le : a < t
  busy : ∀ u, a < u → u ≤ t → (runAt s i u).state ≠ .idle
  quiet : ∀ u, a < u → u ≤ t → (i u).rst = false
  done : (runAt s i (t + 1)).state = .idle

/-- The cycle is acknowledged in this clock. -/
def acknowledged (s : Csl) (i : In) : Bool :=
  s.state == .read && s.timer != timeout && i.busAckI

/-- Every read cycle returns with its data in the data register or with the flag set. -/
def Delivers (s : Csl) (i : Nat → In) : Prop :=
  ∀ a t, ReadCycle s i a t →
    (∃ u, a < u ∧ u ≤ t ∧ acknowledged (runAt s i u) (i u) = true ∧
        (runAt s i (t + 1)).regData = (i u).busDataI) ∨
      ((runAt s i t).state = .fail ∧ (runAt s i (t + 1)).regCtrlNxmNxd = true)

/-- The microcontroller writes nothing in this clock, or its write leaves what the
cycle would have loaded. -/
def Undisturbed (s : Csl) (i : In) : Prop :=
  s.cslWr = true →
    if s.state = .fail then (s.written i).regCtrlNxmNxd = true
    else (s.written i).regData = i.busDataI

/-! ## One clock -/

theorem next_state (h : i.rst = false) : (s.next i).state = (s.nextState i).1 := by
  simp [next, h]

theorem next_toRegs (h : i.rst = false) : (s.next i).toRegs = s.nextRegs i := by
  simp [next, h]

theorem await_idle (h : s.state ≠ .idle) (hidle : (s.await i).1 = .idle) :
    s.timer ≠ timeout ∧ i.busAckI = true := by
  unfold await at hidle
  split at hidle
  · cases hidle
  · rename_i htimer
    split at hidle
    · rename_i hack
      exact ⟨htimer, hack⟩
    · exact absurd hidle h

/-- The states of a read cycle after its GO bit. -/
inductive Reading : State → Prop
  | waitGo : Reading .readWaitGo
  | waitIo : Reading .readWaitIo
  | read : Reading .read
  | fail : Reading .fail

/-- A read cycle goes on or ends. -/
theorem Reading.next (h : Reading s.state) (hrst : i.rst = false) :
    Reading (s.next i).state ∨ (s.next i).state = .idle := by
  rw [next_state hrst]
  unfold nextState
  generalize hstate : s.state = q at h
  cases h with
  | waitGo =>
      dsimp only
      split
      · exact Or.inl .waitIo
      · exact Or.inl .waitGo
  | waitIo =>
      dsimp only
      split
      · exact Or.inl .read
      · exact Or.inl .waitIo
  | read =>
      dsimp only [await]
      split
      · exact Or.inl .fail
      · split
        · exact Or.inr rfl
        · exact Or.inl (hstate ▸ .read)
  | fail => exact Or.inr rfl

/-- A read cycle ends with the acknowledge or in the state after its time-out. -/
theorem Reading.ends (h : Reading s.state) (hrst : i.rst = false)
    (hidle : (s.next i).state = .idle) :
    acknowledged s i = true ∧ s.state = .read ∨ acknowledged s i = false ∧ s.state = .fail := by
  rw [next_state hrst] at hidle
  unfold nextState at hidle
  generalize hstate : s.state = q at h hidle
  cases h with
  | waitGo =>
      dsimp only at hidle
      split at hidle
      · cases hidle
      · cases hidle
  | waitIo =>
      dsimp only at hidle
      split at hidle
      · cases hidle
      · cases hidle
  | read =>
      have hbusy : s.state ≠ .idle := by
        rw [hstate]
        decide
      obtain ⟨htimer, hack⟩ := await_idle hbusy hidle
      refine Or.inl ⟨?_, rfl⟩
      simp [acknowledged, hstate, htimer, hack]
  | fail =>
      refine Or.inr ⟨?_, rfl⟩
      simp [acknowledged, hstate]

theorem next_of_acknowledged (hrst : i.rst = false) (hack : acknowledged s i = true) :
    (s.next i).state = .idle := by
  simp only [acknowledged, Bool.and_eq_true, beq_iff_eq, bne_iff_ne] at hack
  obtain ⟨⟨hstate, htimer⟩, hack⟩ := hack
  simp [next_state hrst, nextState, hstate, await, htimer, hack]

/-- The data register after the last clock of an acknowledged cycle. -/
theorem next_regData_iff (hrst : i.rst = false) (hstate : s.state = .read) :
    (s.next i).regData = i.busDataI ↔ Undisturbed s i := by
  have hnot : s.state ≠ .fail := by
    rw [hstate]
    decide
  have hnext : (s.next i).regData = (s.nextRegs i).regData :=
    congrArg Regs.regData (next_toRegs hrst)
  unfold Undisturbed
  simp only [hnext, nextRegs, if_neg hnot, if_pos hstate]
  cases s.cslWr with
  | true => simp only [if_true, true_implies]
  | false => simp

/-- The flag after the last clock of a cycle that timed out. -/
theorem next_regCtrlNxmNxd_iff (hrst : i.rst = false) (hstate : s.state = .fail) :
    (s.next i).regCtrlNxmNxd = true ↔ Undisturbed s i := by
  have hnot : s.state ≠ .read := by
    rw [hstate]
    decide
  have hnext : (s.next i).regCtrlNxmNxd = (s.nextRegs i).regCtrlNxmNxd :=
    congrArg Regs.regCtrlNxmNxd (next_toRegs hrst)
  unfold Undisturbed
  rw [hnext, nextRegs, if_neg hnot, if_pos hstate, if_pos hstate]
  cases s.cslWr with
  | true => simp
  | false => simp

/-! ## The cycle -/

section Run

variable {s : Csl} {i : Nat → In} {a t : Nat}

theorem ReadCycle.reading (h : ReadCycle s i a t) {u : Nat} (hau : a < u) (hut : u ≤ t) :
    Reading (runAt s i u).state := by
  induction u, hau using Nat.le_induction with
  | base => exact h.go ▸ Reading.waitGo
  | succ u hau ih =>
      have hrst : (i u).rst = false := h.quiet u hau (by omega)
      rcases (ih (by omega)).next hrst with hreading | hidle
      · exact hreading
      · exact absurd hidle (h.busy (u + 1) (by omega) hut)

/-- No clock before the last one acknowledges the cycle. -/
theorem ReadCycle.acknowledged_last (h : ReadCycle s i a t) {u : Nat} (hau : a < u)
    (hut : u ≤ t) (hack : acknowledged (runAt s i u) (i u) = true) : u = t := by
  by_contra hne
  have hrst : (i u).rst = false := h.quiet u hau hut
  have hbusy : (runAt s i (u + 1)).state ≠ .idle := h.busy (u + 1) (by omega) (by omega)
  exact hbusy (next_of_acknowledged hrst hack)

/-- One cycle keeps its result exactly when its last clock is undisturbed. -/
theorem ReadCycle.result_iff (h : ReadCycle s i a t) :
    ((∃ u, a < u ∧ u ≤ t ∧ acknowledged (runAt s i u) (i u) = true ∧
        (runAt s i (t + 1)).regData = (i u).busDataI) ∨
      ((runAt s i t).state = .fail ∧ (runAt s i (t + 1)).regCtrlNxmNxd = true)) ↔
    Undisturbed (runAt s i t) (i t) := by
  have hrst : (i t).rst = false := h.quiet t h.le (Nat.le_refl t)
  have hreading : Reading (runAt s i t).state := h.reading h.le (Nat.le_refl t)
  rcases hreading.ends hrst h.done with ⟨hack, hstate⟩ | ⟨hack, hstate⟩
  · rw [← next_regData_iff hrst hstate]
    constructor
    · rintro (⟨u, hau, hut, hacked, hdata⟩ | ⟨hfail, -⟩)
      · obtain rfl : u = t := h.acknowledged_last hau hut hacked
        exact hdata
      · rw [hstate] at hfail
        cases hfail
    · intro hdata
      exact Or.inl ⟨t, h.le, Nat.le_refl t, hack, hdata⟩
  · rw [← next_regCtrlNxmNxd_iff hrst hstate]
    constructor
    · rintro (⟨u, hau, hut, hacked, -⟩ | ⟨-, hflag⟩)
      · obtain rfl : u = t := h.acknowledged_last hau hut hacked
        rw [hack] at hacked
        cases hacked
      · exact hflag
    · intro hflag
      exact Or.inr ⟨hstate, hflag⟩

end Run

/-- The read cycles of a run keep their results exactly when the last clock of each
is undisturbed. -/
theorem delivers_iff (s : Csl) (i : Nat → In) :
    Delivers s i ↔ ∀ a t, ReadCycle s i a t → Undisturbed (runAt s i t) (i t) := by
  refine forall_congr' fun a => forall_congr' fun t => ?_
  exact imp_congr_right fun h => h.result_iff

/-- A session: the microcontroller writes the RD bit of the address and then the GO
bit, and writes the register of the DZ11 while the cycle is acknowledged. -/
def writesDzDuringRead (t : Nat) : In where
  rst := false
  conWrN := !(t < 2 || (4 ≤ t && t < 6) || (8 ≤ t && t < 10))
  conBleN := false
  conBheN := true
  conAddr := if t < 4 then 0x04 else if t < 8 then 0x12 else 0x20
  conData := 1
  busAckI := t == 10
  busAddrI := 0
  busDataI := 5
  cpuHalt := true
  cpuRun := false
  cpuCont := false
  cpuExec := false

theorem readCycle_writesDz : ReadCycle clear writesDzDuringRead 6 10 where
  idle := by decide
  go := by decide
  le := by decide
  busy := by
    have hall : ∀ u, u ≤ 10 → 6 < u → (runAt clear writesDzDuringRead u).state ≠ .idle := by
      decide
    exact fun u hau hut => hall u hut hau
  quiet := fun _ _ _ => rfl
  done := by decide

/-- The write of the DZ11 register takes the place of the load: the data are lost. -/
theorem delivers_fails : ¬ Delivers clear writesDzDuringRead := by
  intro h
  have hlost : (runAt clear writesDzDuringRead 11).regData = 0 := by decide
  rcases h 6 10 readCycle_writesDz with ⟨u, -, -, -, hdata⟩ | ⟨hfail, -⟩
  · rw [hlost] at hdata
    have hdata : (0 : BitVec 36) = 5 := hdata
    exact absurd hdata (by decide)
  · exact absurd hfail (by decide)

end Csl

end KS10
