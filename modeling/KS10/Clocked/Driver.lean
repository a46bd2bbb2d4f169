import KS10.Clocked.Program
import KS10.Clocked.Run

/-!
# Programs on a machine that runs

A processor performs a program of reads and writes (`Prog`) on the registers of a machine that
goes on by itself, clock after clock.  A `Port` says what an access is on the inputs of the
machine: a read takes one clock, a write as many as the bus takes for it, and between two accesses
any number of clocks may pass in which the port rests.

`Performs port next s i p t a u` says that on the run of the machine from `s` with the inputs `i`,
the program `p` is performed from clock `t` to clock `u`, and returns `a`.  `Triple` is the rule
of preconditions and postconditions for it.  A precondition has to be stable: it stays while the
port rests.
-/

namespace Clocked

variable {σ ι ρ δ : Type*} {α β : Type}

structure Port (σ ι ρ δ : Type*) where
  /-- There is no access in this clock. -/
  rests : ι → Prop
  /-- The word `d` is read from the register `r` in this clock. -/
  reads : σ → ι → ρ → δ → Prop
  /-- The word `d` is written to the register `r` from one clock to another. -/
  writes : (Nat → ι) → Nat → Nat → ρ → δ → Prop

inductive Performs (port : Port σ ι ρ δ) (next : σ → ι → σ) (s : σ) (i : Nat → ι) :
    Prog ρ δ α → Nat → α → Nat → Prop
  | ret (a : α) (t : Nat) : Performs port next s i (.ret a) t a t
  | rest {p : Prog ρ δ α} {t u : Nat} {a : α} (hrest : port.rests (i t))
      (h : Performs port next s i p (t + 1) a u) : Performs port next s i p t a u
  | read {r : ρ} {k : δ → Prog ρ δ α} {d : δ} {t u : Nat} {a : α}
      (hread : port.reads (run next s i t) (i t) r d)
      (h : Performs port next s i (k d) (t + 1) a u) : Performs port next s i (.read r k) t a u
  | write {r : ρ} {v : δ} {k : Prog ρ δ α} {t t' u : Nat} {a : α} (hle : t ≤ t')
      (hwrite : port.writes i t t' r v) (h : Performs port next s i k t' a u) :
      Performs port next s i (.write r v k) t a u

variable {port : Port σ ι ρ δ} {next : σ → ι → σ} {s : σ} {i : Nat → ι}

namespace Performs

theorem le {p : Prog ρ δ α} {t u : Nat} {a : α} (h : Performs port next s i p t a u) : t ≤ u := by
  induction h with
  | ret a t => exact Nat.le_refl t
  | rest hrest h ih => exact Nat.le_of_succ_le ih
  | read hread h ih => exact Nat.le_of_succ_le ih
  | write hle hwrite h ih => exact Nat.le_trans hle ih

/-- A program is performed part by part. -/
theorem split {p : Prog ρ δ α} {f : α → Prog ρ δ β} {t u : Nat} {b : β}
    (h : Performs port next s i (p >>= f) t b u) :
    ∃ a t', Performs port next s i p t a t' ∧ Performs port next s i (f a) t' b u := by
  generalize hq : p >>= f = q at h
  induction h generalizing p with
  | ret b t =>
      cases p with
      | ret a => exact ⟨a, t, .ret a t, by rw [← Prog.ret_bind a f, hq]; exact .ret b t⟩
      | read r k => cases hq
      | write r v k => cases hq
  | rest hrest h ih =>
      obtain ⟨a, t', hp, hf⟩ := ih hq
      exact ⟨a, t', .rest hrest hp, hf⟩
  | read hread h ih =>
      cases p with
      | ret a => exact ⟨a, _, .ret a _, by rw [← Prog.ret_bind a f, hq]; exact .read hread h⟩
      | read r k =>
          cases hq
          obtain ⟨a, t', hp, hf⟩ := ih rfl
          exact ⟨a, t', .read hread hp, hf⟩
      | write r v k => cases hq
  | write hle hwrite h ih =>
      cases p with
      | ret a => exact ⟨a, _, .ret a _, by rw [← Prog.ret_bind a f, hq]; exact .write hle hwrite h⟩
      | read r k => cases hq
      | write r v k =>
          cases hq
          obtain ⟨a, t', hp, hf⟩ := ih rfl
          exact ⟨a, t', .write hle hwrite hp, hf⟩

end Performs

/-! ## Inputs for a program -/

/-- Every access is possible, by inputs with `C`, and a write depends on the inputs of its own
clocks only. -/
structure Port.Drivable (port : Port σ ι ρ δ) (C : ι → Prop) : Prop where
  idle : ∃ x, C x
  read : ∀ s r, ∃ x d, C x ∧ port.reads s x r d
  write : ∀ r v, ∃ (n : Nat) (i : Nat → ι), (∀ t, C (i t)) ∧ port.writes i 0 n r v
  shift : ∀ (i j : Nat → ι) (t t' c : Nat) (r : ρ) (v : δ),
    (∀ k, t ≤ k → k < t' → j (c + k) = i k) → port.writes i t t' r v →
      port.writes j (c + t) (c + t') r v

namespace Performs

variable {C : ι → Prop}

/-- What is performed on the rest of a run. -/
theorem shift (hport : port.Drivable C) {c : Nat} {p : Prog ρ δ α} {t u : Nat} {a : α}
    (h : Performs port next (run next s i c) (fun k => i (c + k)) p t a u) :
    Performs port next s i p (c + t) a (c + u) := by
  induction h with
  | ret a t => exact .ret a (c + t)
  | rest hrest h ih => exact .rest hrest ih
  | read hread h ih => exact .read (by rw [run_add]; exact hread) ih
  | write hle hwrite h ih =>
      exact .write (Nat.add_le_add_left hle c)
        (hport.shift _ i _ _ c _ _ (fun k _ _ => rfl) hwrite) ih

/-- Every program can be performed. -/
theorem exists_inputs (hport : port.Drivable C) (next : σ → ι → σ) (p : Prog ρ δ α) (s : σ) :
    ∃ i : Nat → ι, (∀ t, C (i t)) ∧ ∃ a u, Performs port next s i p 0 a u := by
  induction p generalizing s with
  | ret a =>
      obtain ⟨x, hx⟩ := hport.idle
      exact ⟨fun _ => x, fun _ => hx, a, 0, .ret a 0⟩
  | read r k ih =>
      obtain ⟨x, d, hx, hread⟩ := hport.read s r
      obtain ⟨i, hi, a, u, h⟩ := ih d (next s x)
      let j : Nat → ι := fun t => Nat.casesOn t x i
      have hj : (fun k => j (1 + k)) = i := by
        funext k
        rw [Nat.add_comm]
      refine ⟨j, fun t => ?_, a, 1 + u, .read hread (shift (i := j) (c := 1) (t := 0) hport ?_)⟩
      · cases t with
        | zero => exact hx
        | succ t => exact hi t
      · rw [hj]
        exact h
  | write r v k ih =>
      obtain ⟨n, i₀, hi₀, hwrite⟩ := hport.write r v
      obtain ⟨i, hi, a, u, h⟩ := ih (run next s i₀ n)
      let j : Nat → ι := fun t => if t < n then i₀ t else i (t - n)
      have hfirst (t : Nat) (ht : t < n) : j t = i₀ t := if_pos ht
      have hj : (fun k => j (n + k)) = i := by
        funext k
        have hge : ¬ n + k < n := Nat.not_lt_of_le (Nat.le_add_right n k)
        change (if n + k < n then i₀ (n + k) else i (n + k - n)) = i k
        rw [if_neg hge, Nat.add_sub_cancel_left]
      have hrun (t : Nat) (ht : t ≤ n) : run next s j t = run next s i₀ t := by
        induction t with
        | zero => rfl
        | succ t iht => rw [run_succ, run_succ, iht (Nat.le_of_succ_le ht), hfirst t ht]
      have hwrite' : port.writes j 0 n r v := by
        have hshift := hport.shift i₀ j 0 n 0 r v (fun k _ hk => by rw [Nat.zero_add, hfirst k hk])
        rw [Nat.zero_add, Nat.zero_add] at hshift
        exact hshift hwrite
      have hrest : Performs port next s j k n a (n + u) := by
        refine shift (i := j) (c := n) (t := 0) hport ?_
        rw [hj, hrun n (Nat.le_refl n)]
        exact h
      refine ⟨j, fun t => ?_, a, n + u, .write (Nat.zero_le n) hwrite' hrest⟩
      by_cases ht : t < n
      · rw [hfirst t ht]
        exact hi₀ t
      · have hlater : j t = i (t - n) := if_neg ht
        rw [hlater]
        exact hi (t - n)

end Performs

/-! ## Preconditions and postconditions -/

/-- Where the program is performed before the clock `e`, from a clock with `P`, it returns at a
clock with `Q`. -/
def Triple (port : Port σ ι ρ δ) (next : σ → ι → σ) (s : σ) (i : Nat → ι) (e : Nat)
    (P : Nat → Prop) (p : Prog ρ δ α) (Q : α → Nat → Prop) : Prop :=
  ∀ t a u, u ≤ e → Performs port next s i p t a u → P t → Q a u

/-- It stays while the port rests. -/
def Stable (port : Port σ ι ρ δ) (i : Nat → ι) (e : Nat) (P : Nat → Prop) : Prop :=
  ∀ t, t < e → port.rests (i t) → P t → P (t + 1)

namespace Triple

variable {e : Nat} {P P' : Nat → Prop} {Q Q' : α → Nat → Prop}

theorem ret {a : α} (hstable : Stable port i e P) (h : ∀ t, P t → Q a t) :
    Triple port next s i e P (.ret a) Q := by
  intro t b u hu hp hP
  generalize hq : Prog.ret a = q at hp
  induction hp with
  | ret b t =>
      cases hq
      exact h t hP
  | rest hrest hp ih => exact ih hu (hstable _ (Nat.lt_of_lt_of_le hp.le hu) hrest hP) hq
  | read hread hp ih => cases hq
  | write hle hwrite hp ih => cases hq

theorem read {r : ρ} {k : δ → Prog ρ δ α} {R : δ → Nat → Prop} (hstable : Stable port i e P)
    (h : ∀ t d, t < e → P t → port.reads (run next s i t) (i t) r d → R d (t + 1))
    (hk : ∀ d, Triple port next s i e (R d) (k d) Q) :
    Triple port next s i e P (.read r k) Q := by
  intro t b u hu hp hP
  generalize hq : Prog.read r k = q at hp
  induction hp with
  | ret b t => cases hq
  | rest hrest hp ih => exact ih hu (hstable _ (Nat.lt_of_lt_of_le hp.le hu) hrest hP) hq
  | read hread hp ih =>
      cases hq
      exact hk _ _ _ _ hu hp (h _ _ (Nat.lt_of_lt_of_le hp.le hu) hP hread)
  | write hle hwrite hp ih => cases hq

theorem write {r : ρ} {v : δ} {k : Prog ρ δ α} (hstable : Stable port i e P)
    (h : ∀ t t', t' ≤ e → P t → port.writes i t t' r v → P' t')
    (hk : Triple port next s i e P' k Q) : Triple port next s i e P (.write r v k) Q := by
  intro t b u hu hp hP
  generalize hq : Prog.write r v k = q at hp
  induction hp with
  | ret b t => cases hq
  | rest hrest hp ih => exact ih hu (hstable _ (Nat.lt_of_lt_of_le hp.le hu) hrest hP) hq
  | read hread hp ih => cases hq
  | write hle hwrite hp ih =>
      cases hq
      exact hk _ _ _ hu hp (h _ _ (Nat.le_trans hp.le hu) hP hwrite)

/-- One part after the other. -/
theorem bind {p : Prog ρ δ α} {f : α → Prog ρ δ β} {R : β → Nat → Prop}
    (hp : Triple port next s i e P p Q) (hf : ∀ a, Triple port next s i e (Q a) (f a) R) :
    Triple port next s i e P (p >>= f) R := by
  intro t b u hu h hP
  obtain ⟨a, t', hfirst, hthen⟩ := h.split
  exact hf a t' b u hu hthen (hp t a t' (Nat.le_trans hthen.le hu) hfirst hP)

theorem mono {p : Prog ρ δ α} (h : Triple port next s i e P p Q) (hP : ∀ t, P' t → P t)
    (hQ : ∀ a t, Q a t → Q' a t) : Triple port next s i e P' p Q' :=
  fun t a u hu hp ht => hQ a u (h t a u hu hp (hP t ht))

end Triple

end Clocked
