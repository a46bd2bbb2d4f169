import KS10.Clocked.Run

/-!
# Clock enables

A register behind a clock enable moves only at the enabled clocks.  What happens at
the other clocks reaches it, if at all, at the first enabled clock after
(`FirstFrom`), and up to there the register has kept its value (`FirstFrom.held`).

A flag that only some clocks clear is set until the first of these
(`stays_until`).
-/

namespace Clocked

variable {α : Type*} {p : Nat → Prop} {t e u : Nat}

/-- Clock `e` is the first clock from `t` on with the property `p`. -/
structure FirstFrom (p : Nat → Prop) (t e : Nat) : Prop where
  le : t ≤ e
  holds : p e
  none : ∀ v, t ≤ v → v < e → ¬ p v

namespace FirstFrom

theorem here (h : p t) : FirstFrom p t t :=
  ⟨Nat.le_refl t, h, fun _ htv hvt => absurd hvt (Nat.not_lt.mpr htv)⟩

theorem unique {e' : Nat} (h : FirstFrom p t e) (h' : FirstFrom p t e') : e = e' := by
  rcases Nat.lt_trichotomy e e' with hlt | heq | hgt
  · exact absurd h.holds (h'.none e h.le hlt)
  · exact heq
  · exact absurd h'.holds (h.none e' h'.le hgt)

/-- A register that moves only at clocks with the property has kept its value up to
the first of them. -/
theorem held {f : Nat → α} (hold : ∀ v, ¬ p v → f (v + 1) = f v) (h : FirstFrom p t e) :
    f e = f t := by
  obtain ⟨hle, -, hnone⟩ := h
  induction e, hle using Nat.le_induction with
  | base => rfl
  | succ e hle ih =>
      have hprev : f e = f t := ih fun v htv hve => hnone v htv (Nat.lt_succ_of_lt hve)
      rw [hold e (hnone e hle (Nat.lt_succ_self e)), hprev]

end FirstFrom

/-- What every clock keeps stays, from one clock of the run on. -/
theorem stays_until {P C : Nat → Prop} (step : ∀ v, P v → C v → P (v + 1)) (h : P t)
    (htu : t ≤ u) (hC : ∀ v, t ≤ v → v < u → C v) : P u := by
  induction u, htu using Nat.le_induction with
  | base => exact h
  | succ u htu ih =>
      have hu : P u := ih fun v htv hvu => hC v htv (Nat.lt_succ_of_lt hvu)
      exact step u hu (hC u htu (Nat.lt_succ_self u))

end Clocked
