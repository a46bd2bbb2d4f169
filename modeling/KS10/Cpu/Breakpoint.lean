import KS10.Cpu.RunControl
import KS10.Clocked.Enable

/-!
# Does a breakpoint stop the processor?

A match leaves the armed state for the break state, and the break state requests the
halt and leaves again on the next clock.  The request is there for one clock of the
free-running clock, while the RUN flip-flop listens on enabled clocks only.  A
processor that is stalled on that one clock runs on.
-/

namespace KS10

open Clocked Microword

namespace RunControl

/-! ## What is to be shown -/

/-- The armed breakpoint matches, or the trace buffer it waits for is full. -/
def hits (s : RunControl) (i : In) : Bool := !i.rst && s.brstate == brArmed && breaks i

/-- The first two enabled clocks after clock `t`. -/
structure NextTwo (s : RunControl) (i : Nat → In) (t e₁ e₂ : Nat) : Prop where
  first : FirstFrom (fun v => enabledAt s i v = true) (t + 1) e₁
  second : FirstFrom (fun v => enabledAt s i v = true) (e₁ + 1) e₂
  quiet : ∀ v, t < v → v ≤ e₂ → (i v).rst = false

/-- Every match halts the processor: one of the next two enabled clocks sees the halt
request and clears RUN. -/
def Halts (s : RunControl) (i : Nat → In) : Prop :=
  ∀ t e₁ e₂, (runAt s i t).hits (i t) = true → NextTwo s i t e₁ e₂ →
    ∃ e, (e = e₁ ∨ e = e₂) ∧ (runAt s i e).debugHalt = true ∧
      (runAt s i (e + 1)).cpuRun = false

/-! ## The halt request -/

section Step

variable {s : RunControl} {i : In}

/-- The halt is requested in the clock after a match, and in no other. -/
theorem debugHalt_next (hrst : i.rst = false) : (next s i).debugHalt = s.hits i := by
  have hnext : (next s i).debugHalt = (s.nextBrstate i == brBreak) := by
    rw [next, if_neg (by simp [hrst])]
    rfl
  rw [hnext, hits, hrst, Bool.not_false, Bool.true_and, nextBrstate]
  by_cases hdis : (i.regBrcmd == brcmdDisable && i.regBrcmdWr) = true
  · have hcmd : i.regBrcmd = brcmdDisable := by
      simp only [Bool.and_eq_true, beq_iff_eq] at hdis
      exact hdis.1
    have hnone : breaks i = false := by simp [breaks, hcmd, brcmdDisable, brcmdTrig, brcmdFull,
      brcmdEither]
    rw [if_pos hdis, hnone, Bool.and_false]
    rfl
  · rw [if_neg hdis]
    by_cases hidle : s.brstate = brIdle
    · rw [hidle, if_pos (by decide)]
      split
      · rfl
      · rfl
    · by_cases harmed : s.brstate = brArmed
      · rw [harmed, if_neg (by decide), if_pos (by decide)]
        cases breaks i with
        | true => rfl
        | false => rfl
      · have harmed' : (s.brstate == brArmed) = false := beq_false_of_ne harmed
        have hidle' : (s.brstate == brIdle) = false := beq_false_of_ne hidle
        rw [hidle', harmed', if_neg Bool.false_ne_true, if_neg Bool.false_ne_true]
        split
        · rfl
        · rename_i hbreak
          simpa using hbreak

/-- An enabled clock that sees the request clears RUN. -/
theorem cpuRun_of_debugHalt (hen : s.clkenDp i = true) (hhalt : s.debugHalt = true) :
    (next s i).cpuRun = false := by
  cases hrst : i.rst with
  | true => simp [next, hrst, clear]
  | false => simp [next, hrst, nextSwitch, hen, hhalt]

end Step

section Run

variable {s : RunControl} {i : Nat → In}

/-- The request at a clock comes from a match at the clock before. -/
theorem debugHalt_iff_hits {t e : Nat} (hhits : (runAt s i t).hits (i t) = true) (hte : t < e)
    (hquiet : ∀ v, t < v → v ≤ e → (i v).rst = false) :
    (runAt s i e).debugHalt = (runAt s i (e - 1)).hits (i (e - 1)) := by
  obtain ⟨v, rfl⟩ : ∃ v, e = v + 1 := ⟨e - 1, by omega⟩
  have hrst : (i v).rst = false := by
    by_cases hv : v = t
    · subst hv
      simp only [hits, Bool.and_eq_true, Bool.not_eq_true'] at hhits
      exact hhits.1.1
    · exact hquiet v (by omega) (Nat.le_succ v)
  exact debugHalt_next hrst

end Run

/-- Every match halts the processor in exactly those runs in which, of the first two
enabled clocks after a match, one comes right after that match or a later one. -/
theorem halts_iff (s : RunControl) (i : Nat → In) :
    Halts s i ↔ ∀ t e₁ e₂, (runAt s i t).hits (i t) = true → NextTwo s i t e₁ e₂ →
      ∃ e, (e = e₁ ∨ e = e₂) ∧ (runAt s i (e - 1)).hits (i (e - 1)) = true := by
  have hsees {t e₁ e₂ e : Nat} (hhits : (runAt s i t).hits (i t) = true)
      (htwo : NextTwo s i t e₁ e₂) (he : e = e₁ ∨ e = e₂) :
      (runAt s i e).debugHalt = (runAt s i (e - 1)).hits (i (e - 1)) ∧
        enabledAt s i e = true := by
    have hle₁ : t + 1 ≤ e₁ := htwo.first.le
    have hle₂ : e₁ + 1 ≤ e₂ := htwo.second.le
    refine ⟨debugHalt_iff_hits hhits (by omega) fun v htv hve =>
      htwo.quiet v htv (by omega), ?_⟩
    rcases he with rfl | rfl
    · exact htwo.first.holds
    · exact htwo.second.holds
  constructor
  · intro hhalts t e₁ e₂ hhits htwo
    obtain ⟨e, he, hhalt, -⟩ := hhalts t e₁ e₂ hhits htwo
    exact ⟨e, he, (hsees hhits htwo he).1 ▸ hhalt⟩
  · intro hmeets t e₁ e₂ hhits htwo
    obtain ⟨e, he, hbefore⟩ := hmeets t e₁ e₂ hhits htwo
    obtain ⟨hhalt, hen⟩ := hsees hhits htwo he
    rw [hbefore] at hhalt
    exact ⟨e, he, hhalt, cpuRun_of_debugHalt hen hhalt⟩

/-! ## A match during a bus wait

The breakpoint is armed for any address.  The processor waits for the bus at the
clock after the match. -/

def waitsAtOne (t : Nat) : In where
  rst := false
  crom := 0
  feSign := false
  busWait := t == 1
  cpuAddr := 0
  regDbar := 0
  regDbmr := 0
  regBrcmd := brcmdTrig
  regBrcmdWr := false
  trFull := false
  conWrN := true
  conBleN := true
  conAddr := 0
  conData := 0

def armedAndRunning : RunControl := { clear with brstate := brArmed, cpuRun := true }

theorem halts_fails : ¬ ∀ s i, Halts s i := by
  intro h
  have htwo : NextTwo armedAndRunning waitsAtOne 0 2 3 := by
    refine ⟨⟨by decide, by decide, fun v hle hlt => ?_⟩, ⟨by decide, by decide,
      fun v hle hlt => by omega⟩, fun _ _ _ => rfl⟩
    obtain rfl : v = 1 := by omega
    decide
  obtain ⟨e, he, hhalt, -⟩ := h armedAndRunning waitsAtOne 0 2 3 (by decide) htwo
  revert hhalt
  rcases he with rfl | rfl
  · decide
  · decide

end RunControl

end KS10
