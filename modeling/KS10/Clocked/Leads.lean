import Mathlib.Logic.Function.Iterate

/-!
# What a machine comes to

A machine without inputs is its step function.  `Leads step A P Q` says that from every
state with `P` the machine comes to a state with `Q` after some number of steps, and that
`A` holds of every state on the way.  The rules are the ones of a sequence: one step, one
after the other, a loop that is run a number of times, and a wait that a count bounds.
-/

namespace Clocked

variable {σ : Type*} {step : σ → σ} {A P Q R : σ → Prop}

/-- From every state with `P` the machine comes to one with `Q`, through states with `A`. -/
def Leads (step : σ → σ) (A P Q : σ → Prop) : Prop :=
  ∀ s, P s → ∃ n, Q (step^[n] s) ∧ ∀ k, k < n → A (step^[k] s)

namespace Leads

theorem of_imp (h : ∀ s, P s → Q s) : Leads step A P Q :=
  fun s hs => ⟨0, h s hs, fun _ hk => absurd hk (Nat.not_lt_zero _)⟩

theorem refl (P : σ → Prop) : Leads step A P P := of_imp fun _ hs => hs

/-- One step. -/
theorem one (hA : ∀ s, P s → A s) (h : ∀ s, P s → Q (step s)) : Leads step A P Q := by
  intro s hs
  refine ⟨1, h s hs, fun k hk => ?_⟩
  obtain rfl : k = 0 := by omega
  exact hA s hs

/-- One after the other. -/
theorem trans (hpq : Leads step A P Q) (hqr : Leads step A Q R) : Leads step A P R := by
  intro s hs
  obtain ⟨n, hn, hfirst⟩ := hpq s hs
  obtain ⟨m, hm, hthen⟩ := hqr _ hn
  refine ⟨m + n, ?_, fun k hk => ?_⟩
  · rw [Function.iterate_add_apply]
    exact hm
  · by_cases hkn : k < n
    · exact hfirst k hkn
    · have := hthen (k - n) (by omega)
      rw [← Function.iterate_add_apply, Nat.sub_add_cancel (Nat.le_of_not_lt hkn)] at this
      exact this

theorem mono_left (h : ∀ s, P s → Q s) (hqr : Leads step A Q R) : Leads step A P R :=
  fun s hs => hqr s (h s hs)

theorem mono_right (hpq : Leads step A P Q) (h : ∀ s, Q s → R s) : Leads step A P R :=
  hpq.trans (of_imp h)

/-- A loop that is run `n` times. -/
theorem loop {P : Nat → σ → Prop} (n : Nat)
    (h : ∀ k, k < n → Leads step A (P k) (P (k + 1))) : Leads step A (P 0) (P n) := by
  induction n with
  | zero => exact refl _
  | succ n ih => exact (ih fun k hk => h k (Nat.lt_succ_of_lt hk)).trans (h n (Nat.lt_succ_self n))

/-- A loop that is left at its first pass with `stop`. -/
theorem loop_until {P Q : Nat → σ → Prop} {stop : Nat → Prop} {last : Nat} (hstop : stop last)
    (hfirst : ∀ k, k < last → ¬ stop k) (hgo : ∀ k, ¬ stop k → Leads step A (P k) (P (k + 1)))
    (hleave : ∀ k, stop k → Leads step A (P k) (Q k)) : Leads step A (P 0) (Q last) :=
  (loop last fun k hk => hgo k (hfirst k hk)).trans (hleave last hstop)

/-- A wait: each step ends it or brings the count down. -/
theorem wait (count : σ → Nat) (hA : ∀ s, P s → A s)
    (h : ∀ s, P s → Q (step s) ∨ P (step s) ∧ count (step s) < count s) :
    Leads step A P Q := by
  have hall : ∀ n, Leads step A (fun s => P s ∧ count s ≤ n) Q := by
    intro n
    induction n with
    | zero =>
        refine one (fun s hs => hA s hs.1) fun s hs => ?_
        rcases h s hs.1 with hq | ⟨_, hlt⟩
        · exact hq
        · omega
    | succ n ih =>
        intro s ⟨hp, hn⟩
        rcases h s hp with hq | ⟨hp', hlt⟩
        · exact one (P := (· = s)) (by rintro _ rfl; exact hA _ hp)
            (by rintro _ rfl; exact hq) s rfl
        · exact trans (P := (· = s)) (Q := fun s => P s ∧ count s ≤ n)
            (one (by rintro _ rfl; exact hA _ hp) (by rintro _ rfl; exact ⟨hp', by omega⟩)) ih s rfl
  exact fun s hs => hall (count s) s ⟨hs, Nat.le_refl _⟩

end Leads

end Clocked
