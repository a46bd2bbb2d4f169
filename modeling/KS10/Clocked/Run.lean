import Mathlib.Data.Nat.Find

/-!
# Runs of synchronous machines

A synchronous machine is a set of registers `σ` that all load at a clock edge,
from their own values and from the inputs `ι` of that clock.  Its behaviour is
the next-state function `next : σ → ι → σ`, and `run` iterates it along a stream
of inputs.

Four arguments come back at the machines and are packaged here.

*Invariants.*  A property of the registers that every clock preserves holds along
the whole run (`run_invariant`), also when the clocks of the run are known to meet
a condition (`run_invariant_of`).

*Progress.*  A count that comes down again and again comes to an end (`exists_of_count`).

*Shadows.*  An abstract state that is never stored by the machine (a history, an
unbounded stack, the owner of a resource) follows the run as its shadow.  A
relation between registers and shadow that every clock preserves holds along the
run (`Follows.run`), as long as the shadow stays inside the bounds under which it
is preserved.

*Pieces.*  A run continues from any of its states (`run_add`), and a part of a machine
with its own next-state function makes its own run (`run_part`).
-/

namespace Clocked

variable {σ ι α : Type*}

/-! ## Runs -/

/-- The registers after `t` clocks.  Clock number `t` sees the inputs `i t`. -/
def run (next : σ → ι → σ) (s : σ) (i : Nat → ι) : Nat → σ
  | 0 => s
  | t + 1 => next (run next s i t) (i t)

@[simp] theorem run_zero (next : σ → ι → σ) (s : σ) (i : Nat → ι) : run next s i 0 = s := rfl

@[simp] theorem run_succ (next : σ → ι → σ) (s : σ) (i : Nat → ι) (t : Nat) :
    run next s i (t + 1) = next (run next s i t) (i t) := rfl

/-- A run continues from any of its states with the inputs that are left. -/
theorem run_add (next : σ → ι → σ) (s : σ) (i : Nat → ι) (t u : Nat) :
    run next s i (t + u) = run next (run next s i t) (fun k => i (t + k)) u := by
  induction u with
  | zero => rfl
  | succ u ih =>
      rw [← Nat.add_assoc, run_succ, run_succ, ih]

/-- A part of a machine that has its own next-state function makes its own run. -/
theorem run_part {τ κ : Type*} {next : σ → ι → σ} {next' : τ → κ → τ} {f : σ → τ}
    {g : σ → ι → κ} (h : ∀ s i, f (next s i) = next' (f s) (g s i)) (s : σ) (i : Nat → ι)
    (t : Nat) : f (run next s i t) = run next' (f s) (fun k => g (run next s i k) (i k)) t := by
  induction t with
  | zero => rfl
  | succ t ih => rw [run_succ, run_succ, h, ih]

/-- Of the clocks at which something happens there is a first one. -/
theorem exists_first {p : Nat → Prop} (h : ∃ t, p t) : ∃ t, p t ∧ ∀ u, u < t → ¬ p u := by
  classical
  exact ⟨Nat.find h, Nat.find_spec h, fun _ hu => Nat.find_min h hu⟩

/-! ## Invariants -/

theorem run_invariant {next : σ → ι → σ} {P : σ → Prop} {s : σ} (h₀ : P s)
    (hstep : ∀ s i, P s → P (next s i)) (i : Nat → ι) (t : Nat) : P (run next s i t) := by
  induction t with
  | zero => exact h₀
  | succ t ih => exact hstep _ _ ih

/-- The clocks of the run may be known to meet a condition on registers and inputs. -/
theorem run_invariant_of {next : σ → ι → σ} {P : σ → Prop} {C : σ → ι → Prop} {s : σ}
    {i : Nat → ι} (h₀ : P s) (hstep : ∀ s i, C s i → P s → P (next s i)) {t : Nat}
    (hC : ∀ u, u < t → C (run next s i u) (i u)) : P (run next s i t) := by
  induction t with
  | zero => exact h₀
  | succ t ih =>
      have hP : P (run next s i t) := ih fun u hu => hC u (Nat.lt_succ_of_lt hu)
      exact hstep _ _ (hC t (Nat.lt_succ_self t)) hP

/-! ## Progress -/

/-- A count that no clock raises, and that comes down again and again until the goal,
comes to the goal. -/
theorem exists_of_count {goal : Nat → Prop} (count : Nat → Nat)
    (hle : ∀ t, count (t + 1) ≤ count t)
    (hlt : ∀ t, ∃ u, t ≤ u ∧ (goal u ∨ count (u + 1) < count u)) : ∃ t, goal t := by
  have hmono : ∀ t u, t ≤ u → count u ≤ count t := by
    intro t u htu
    induction u, htu using Nat.le_induction with
    | base => exact Nat.le_refl _
    | succ u _ ih => exact Nat.le_trans (hle u) ih
  have hall : ∀ n t, count t < n → ∃ u, goal u := by
    intro n
    induction n with
    | zero => exact fun t h => absurd h (Nat.not_lt_zero _)
    | succ n ih =>
        intro t ht
        obtain ⟨u, htu, hgoal | hdown⟩ := hlt t
        · exact ⟨u, hgoal⟩
        · have hu := hmono t u htu
          exact ih (u + 1) (by omega)
  exact hall _ 0 (Nat.lt_succ_self _)

/-! ## Shadows -/

/-- The abstract state that follows the run: at every clock it moves by `move`,
which sees the registers and the inputs of that clock. -/
def shadow (next : σ → ι → σ) (move : α → σ → ι → α) (s : σ) (a : α) (i : Nat → ι) : Nat → α
  | 0 => a
  | t + 1 => move (shadow next move s a i t) (run next s i t) (i t)

@[simp] theorem shadow_zero (next : σ → ι → σ) (move : α → σ → ι → α) (s : σ) (a : α)
    (i : Nat → ι) : shadow next move s a i 0 = a := rfl

@[simp] theorem shadow_succ (next : σ → ι → σ) (move : α → σ → ι → α) (s : σ) (a : α)
    (i : Nat → ι) (t : Nat) : shadow next move s a i (t + 1) =
      move (shadow next move s a i t) (run next s i t) (i t) := rfl

/-- The relation `R` between registers and shadow is kept by every clock after
which the shadow is within `bound`. -/
structure Follows (next : σ → ι → σ) (move : α → σ → ι → α) (C : σ → ι → Prop)
    (bound : α → Prop) (R : σ → α → Prop) : Prop where
  /-- One clock keeps the relation. -/
  step : ∀ s a i, C s i → bound (move a s i) → R s a → R (next s i) (move a s i)

/-- A relation that every clock keeps holds along the whole run. -/
theorem Follows.run {next : σ → ι → σ} {move : α → σ → ι → α} {C : σ → ι → Prop}
    {bound : α → Prop} {R : σ → α → Prop} (h : Follows next move C bound R) {s : σ} {a : α}
    {i : Nat → ι} (h₀ : R s a) (hC : ∀ t, C (Clocked.run next s i t) (i t))
    (hb : ∀ t, bound (shadow next move s a i t)) (t : Nat) :
    R (Clocked.run next s i t) (shadow next move s a i t) := by
  induction t with
  | zero => exact h₀
  | succ t ih => exact h.step _ _ _ (hC t) (hb (t + 1)) ih

end Clocked
