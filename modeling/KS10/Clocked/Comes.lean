import KS10.Clocked.Run

/-!
# What a machine with inputs comes to

The machine is fed by a stream of inputs.  Every clock of the run meets the condition `C`, and
an input with `go` comes again and again: at the other clocks the machine may have to wait.

`Comes next C go P Q` says that every run from a state with `P` comes to a state with `Q`.  The
rules are those of a program with waits: one step behind a wait, one part after the other, a
case distinction, and a loop.
-/

namespace Clocked

variable {σ ι : Type*}

/-- Every clock of the run meets `C`, and the inputs let the machine go again and again. -/
structure Feeds (next : σ → ι → σ) (C : σ → ι → Prop) (go : ι → Prop) (s : σ) (i : Nat → ι) :
    Prop where
  meets : ∀ t, C (run next s i t) (i t)
  goes : ∀ t, ∃ u, t ≤ u ∧ go (i u)

/-- From every state with `P` the machine comes to one with `Q`. -/
def Comes (next : σ → ι → σ) (C : σ → ι → Prop) (go : ι → Prop) (P Q : σ → Prop) : Prop :=
  ∀ s i, Feeds next C go s i → P s → ∃ t, Q (run next s i t)

variable {next : σ → ι → σ} {C : σ → ι → Prop} {go : ι → Prop} {P Q R : σ → Prop}

/-- The rest of the inputs feeds the machine from where it is. -/
theorem Feeds.rest {s : σ} {i : Nat → ι} (h : Feeds next C go s i) (t : Nat) :
    Feeds next C go (run next s i t) fun k => i (t + k) where
  meets k := by
    rw [← run_add]
    exact h.meets (t + k)
  goes k := by
    obtain ⟨u, hu, hgo⟩ := h.goes (t + k)
    obtain ⟨d, rfl⟩ := Nat.exists_eq_add_of_le hu
    exact ⟨k + d, Nat.le_add_right k d, by rwa [← Nat.add_assoc]⟩

namespace Comes

theorem of_imp (h : ∀ s, P s → Q s) : Comes next C go P Q :=
  fun s _ _ hs => ⟨0, h s hs⟩

theorem refl (P : σ → Prop) : Comes next C go P P := of_imp fun _ hs => hs

/-- One part after the other. -/
theorem trans (hpq : Comes next C go P Q) (hqr : Comes next C go Q R) : Comes next C go P R := by
  intro s i hfeeds hs
  obtain ⟨t, ht⟩ := hpq s i hfeeds hs
  obtain ⟨u, hu⟩ := hqr _ _ (hfeeds.rest t) ht
  exact ⟨t + u, by rwa [run_add]⟩

theorem mono_left (h : ∀ s, P s → Q s) (hqr : Comes next C go Q R) : Comes next C go P R :=
  fun s i hfeeds hs => hqr s i hfeeds (h s hs)

theorem mono_right (hpq : Comes next C go P Q) (h : ∀ s, Q s → R s) : Comes next C go P R :=
  hpq.trans (of_imp h)

/-- One step.  Until the inputs let the machine go, it stays where it is. -/
theorem step (hwait : ∀ s i, C s i → P s → ¬ go i → P (next s i))
    (hgo : ∀ s i, C s i → P s → go i → Q (next s i)) : Comes next C go P Q := by
  intro s i hfeeds hs
  obtain ⟨t, ht, hfirst⟩ := exists_first (p := fun t => go (i t))
    ((hfeeds.goes 0).imp fun _ hu => hu.2)
  have hstay : P (run next s i t) := by
    refine run_invariant_of (C := fun s i => C s i ∧ ¬ go i) hs
      (fun s i hC hP => hwait s i hC.1 hP hC.2) fun u hu => ?_
    exact ⟨hfeeds.meets u, hfirst u hu⟩
  exact ⟨t + 1, hgo _ _ (hfeeds.meets t) hstay ht⟩

/-- What holds of all runs holds of those whose clocks meet more. -/
theorem meets_more {C' : σ → ι → Prop} (hC : ∀ s i, C' s i → C s i)
    (h : Comes next C go P Q) : Comes next C' go P Q :=
  fun s i hfeeds hs => h s i ⟨fun t => hC _ _ (hfeeds.meets t), hfeeds.goes⟩ hs

/-- The machine comes to `Q` from every one of several states. -/
theorem of_exists {α : Sort*} {P : α → σ → Prop} (h : ∀ a, Comes next C go (P a) Q) :
    Comes next C go (fun s => ∃ a, P a s) Q := by
  rintro s i hfeeds ⟨a, ha⟩
  exact h a s i hfeeds ha

/-- A case distinction. -/
theorem of_or {P' : σ → Prop} (h : Comes next C go P Q) (h' : Comes next C go P' Q) :
    Comes next C go (fun s => P s ∨ P' s) Q := by
  rintro s i hfeeds (hs | hs)
  · exact h s i hfeeds hs
  · exact h' s i hfeeds hs

/-- What a hypothesis says about the state may be used for the rest of the run. -/
theorem of_fact {p : Prop} (hp : ∀ s, P s → p) (h : p → Comes next C go P Q) :
    Comes next C go P Q :=
  fun s i hfeeds hs => h (hp s hs) s i hfeeds hs

/-- A loop that is run `n` times. -/
theorem loop {P : Nat → σ → Prop} (n : Nat)
    (h : ∀ k, k < n → Comes next C go (P k) (P (k + 1))) : Comes next C go (P 0) (P n) := by
  induction n with
  | zero => exact refl _
  | succ n ih =>
      have hlast : Comes next C go (P n) (P (n + 1)) := h n (Nat.lt_succ_self n)
      exact (ih fun k hk => h k (Nat.lt_succ_of_lt hk)).trans hlast

end Comes

end Clocked
