import KS10.Clocked.Run

/-!
# Latches that are set by an edge

A latch remembers that a level has gone up, until it is cleared.  It compares the level with
the one of the last clock, so a level that stays up over a clear does not set it again: the
level must come down first.

`EdgeLatch.bit_iff` is the whole law of the latch.  While the level is up, the latch is set
unless the level has stood since a clear (`EdgeLatch.Stands`).
-/

namespace Clocked

/-- The level of the last clock, and the latch. -/
structure EdgeLatch where
  last : Bool
  bit : Bool
  deriving DecidableEq

namespace EdgeLatch

/-- The inputs of one clock. -/
structure In where
  clear : Bool
  level : Bool

/-- A clear comes before the edge. -/
def next (s : EdgeLatch) (i : In) : EdgeLatch where
  last := i.level
  bit := if i.clear then false else if i.level && !s.last then true else s.bit

/-- The level has been up in all clocks since a clear. -/
def Stands (i : Nat → In) (t : Nat) : Prop :=
  ∃ v, v ≤ t ∧ (i v).clear = true ∧ ∀ w, v ≤ w → w ≤ t → (i w).level = true

variable {s : EdgeLatch} {i : Nat → In} {t u v : Nat}

/-- A clear while the level is up begins a stand. -/
theorem Stands.of_clear (hclear : (i t).clear = true) (hlevel : (i t).level = true) :
    Stands i t := by
  refine ⟨t, Nat.le_refl t, hclear, fun w hvw hwt => ?_⟩
  rw [Nat.le_antisymm hwt hvw]
  exact hlevel

theorem Stands.succ (h : Stands i t) (hlevel : (i (t + 1)).level = true) : Stands i (t + 1) := by
  obtain ⟨v, hv, hclear, hup⟩ := h
  refine ⟨v, Nat.le_succ_of_le hv, hclear, fun w hvw hwt => ?_⟩
  rcases Nat.lt_or_eq_of_le hwt with hlt | rfl
  · exact hup w hvw (Nat.le_of_lt_succ hlt)
  · exact hlevel

/-- Without a clear a stand has come from the clock before. -/
theorem Stands.of_succ (h : Stands i (t + 1)) (hclear : (i (t + 1)).clear = false) :
    Stands i t := by
  obtain ⟨v, hv, hcv, hup⟩ := h
  rcases Nat.lt_or_eq_of_le hv with hlt | rfl
  · exact ⟨v, Nat.le_of_lt_succ hlt, hcv, fun w hvw hwt => hup w hvw (Nat.le_succ_of_le hwt)⟩
  · rw [hclear] at hcv
    cases hcv

theorem last_succ : (run next s i (t + 1)).last = (i t).level := rfl

theorem bit_succ : (run next s i (t + 1)).bit =
    if (i t).clear then false
    else if (i t).level && !(run next s i t).last then true
    else (run next s i t).bit := rfl

/-- A level that is up and has come down since the last clear has set the latch. -/
theorem bit_of_not_stands (hs : s.last = false) (hlevel : (i t).level = true)
    (h : ¬ Stands i t) : (run next s i (t + 1)).bit = true := by
  induction t with
  | zero =>
      have hclear : (i 0).clear = false := by
        cases hc : (i 0).clear with
        | false => rfl
        | true => exact absurd (Stands.of_clear hc hlevel) h
      rw [bit_succ, hclear, hlevel, run_zero, hs]
      rfl
  | succ t ih =>
      have hclear : (i (t + 1)).clear = false := by
        cases hc : (i (t + 1)).clear with
        | false => rfl
        | true => exact absurd (Stands.of_clear hc hlevel) h
      rw [bit_succ, hclear, hlevel, last_succ, if_neg Bool.false_ne_true, Bool.true_and]
      cases hlast : (i t).level with
      | false => rfl
      | true =>
          have hbit := ih hlast fun hst => h (hst.succ hlevel)
          rw [hbit]
          rfl

/-- A level that has stood since a clear has not. -/
theorem not_bit_of_stands (h : Stands i t) : (run next s i (t + 1)).bit = false := by
  induction t with
  | zero =>
      obtain ⟨v, hv, hclear, -⟩ := h
      rw [Nat.le_zero.mp hv] at hclear
      rw [bit_succ, hclear, if_pos rfl]
  | succ t ih =>
      rw [bit_succ]
      cases hclear : (i (t + 1)).clear with
      | true => exact if_pos rfl
      | false =>
          obtain ⟨v, hv, -, hup⟩ := h.of_succ hclear
          have hlast := hup t hv (Nat.le_refl t)
          rw [if_neg Bool.false_ne_true, last_succ, hlast, Bool.not_true, Bool.and_false,
            if_neg Bool.false_ne_true]
          exact ih (h.of_succ hclear)

theorem bit_iff (hs : s.last = false) (hlevel : (i t).level = true) :
    (run next s i (t + 1)).bit = true ↔ ¬ Stands i t := by
  constructor
  · intro hbit hst
    rw [not_bit_of_stands hst] at hbit
    cases hbit
  · exact bit_of_not_stands hs hlevel

/-- The latch stays set until it is cleared. -/
theorem bit_stays (hbit : (run next s i t).bit = true) (htu : t ≤ u)
    (h : ∀ v, t ≤ v → v < u → (i v).clear = false) : (run next s i u).bit = true := by
  induction u, htu using Nat.le_induction with
  | base => exact hbit
  | succ u htu ih =>
      have hold := ih fun v htv hvu => h v htv (Nat.lt_succ_of_lt hvu)
      rw [bit_succ, h u htu (Nat.lt_succ_self u), if_neg Bool.false_ne_true, hold, ite_self]

end EdgeLatch

end Clocked
