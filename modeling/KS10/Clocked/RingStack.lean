import Mathlib.Algebra.Group.Nat.Defs
import Mathlib.Logic.Function.Basic

/-!
# A stack in a ring of registers

A hardware stack is a ring of `2 ^ k` registers and a top pointer: a push writes
the register past the top and advances the pointer, a pop steps the pointer back
and erases nothing.  `Holds ring sp l` says that the registers from the top
pointer downwards contain the list `l`.  Pushes and pops keep it (`Holds.push`,
`Holds.pop`) as long as the list fits the ring.

The second half is about unbounded stacks alone.  Over any sequence of pushes and
pops that never cuts into a base of the stack, that base stays where it is
(`base_suffix`), so a sequence that comes back to its starting depth has restored
the stack (`stack_restored`).
-/

namespace Clocked

variable {α : Type*} {k : Nat}

/-! ## The ring holds a list -/

/-- The registers of the ring from the top pointer downwards contain `l`. -/
def Holds (ring : BitVec k → α) (sp : BitVec k) (l : List α) : Prop :=
  ∀ j (h : j < l.length), ring (sp - BitVec.ofNat k j) = l[j]

theorem Holds.nil (ring : BitVec k → α) (sp : BitVec k) : Holds ring sp [] := by
  intro j h
  exact absurd h (Nat.not_lt_zero j)

theorem Holds.top {ring : BitVec k → α} {sp : BitVec k} {a : α} {l : List α}
    (h : Holds ring sp (a :: l)) : ring sp = a := by
  have h₀ := h 0 (Nat.succ_pos _)
  simpa using h₀

theorem Holds.pop {ring : BitVec k → α} {sp : BitVec k} {l : List α} (h : Holds ring sp l) :
    Holds ring (sp - 1) l.tail := by
  intro j hj
  rw [List.length_tail] at hj
  have hsucc : sp - 1 - BitVec.ofNat k j = sp - BitVec.ofNat k (j + 1) := by
    rw [BitVec.ofNat_add, BitVec.sub_sub, BitVec.add_comm]
    rfl
  rw [hsucc, h (j + 1) (by omega), List.getElem_tail]

/-- Below the top the ring never comes back to the register past the top. -/
theorem pointer_ne_next (sp : BitVec k) {j : Nat} (hj : j + 1 < 2 ^ k) :
    sp - BitVec.ofNat k j ≠ sp + 1 := by
  intro h
  have h₁ : BitVec.ofNat k (j + 1) = 0 := by
    have : sp = sp + (1 + BitVec.ofNat k j) := by
      rw [← BitVec.add_assoc, ← h, BitVec.sub_add_cancel]
    have h₀ : 1 + BitVec.ofNat k j = 0 := by
      simpa using this
    rw [BitVec.ofNat_add, BitVec.add_comm]
    exact h₀
  have h₂ : (j + 1) % 2 ^ k = 0 := by
    simpa using congrArg BitVec.toNat h₁
  rw [Nat.mod_eq_of_lt hj] at h₂
  omega

theorem Holds.push {ring : BitVec k → α} {sp : BitVec k} {l : List α} (a : α)
    (h : Holds ring sp l) (hl : (a :: l).length ≤ 2 ^ k) :
    Holds (Function.update ring (sp + 1) a) (sp + 1) (a :: l) := by
  intro j hj
  cases j with
  | zero => simp
  | succ j =>
      rw [List.length_cons] at hj hl
      have hprev : sp + 1 - BitVec.ofNat k (j + 1) = sp - BitVec.ofNat k j := by
        rw [BitVec.ofNat_add, BitVec.add_comm (BitVec.ofNat k j), ← BitVec.sub_sub]
        congr 1
        exact BitVec.add_sub_cancel sp 1
      have hne : sp - BitVec.ofNat k j ≠ sp + 1 := pointer_ne_next sp (by omega)
      rw [hprev, Function.update_of_ne hne, h j (by omega), List.getElem_cons_succ]

/-! ## Stacks that come back to their depth -/

/-- One step of a stack: nothing, a push or a pop. -/
inductive StackMove : List α → List α → Prop where
  | keep (l : List α) : StackMove l l
  | push (a : α) (l : List α) : StackMove l (a :: l)
  | pop (l : List α) : StackMove l l.tail

/-- A step that leaves the stack no shorter than its base leaves the base in place. -/
theorem StackMove.suffix {l l' base : List α} (hmove : StackMove l l') (h : base <:+ l)
    (hlen : base.length ≤ l'.length) : base <:+ l' := by
  cases hmove with
  | keep => exact h
  | push a => exact h.trans (List.suffix_cons a l)
  | pop =>
      cases l with
      | nil => exact h
      | cons a l =>
          rcases List.suffix_cons_iff.mp h with heq | hsuf
          · subst heq
            simp only [List.tail_cons, List.length_cons] at hlen
            omega
          · exact hsuf

variable {f : Nat → List α}

theorem base_suffix (hmove : ∀ t, StackMove (f t) (f (t + 1))) {base : List α} {t : Nat}
    (h : base <:+ f t) (n : Nat) (hlen : ∀ u, u ≤ n → base.length ≤ (f (t + u)).length) :
    base <:+ f (t + n) := by
  induction n with
  | zero => exact h
  | succ n ih =>
      have hn : base <:+ f (t + n) := ih fun u hu => hlen u (Nat.le_succ_of_le hu)
      exact (hmove (t + n)).suffix hn (hlen (n + 1) (Nat.le_refl _))

/-- A stack that is back at its depth, and was never shallower on the way, is the
stack it was. -/
theorem stack_restored (hmove : ∀ t, StackMove (f t) (f (t + 1))) {t n : Nat}
    (hdeep : ∀ u, u ≤ n → (f t).length ≤ (f (t + u)).length)
    (hback : (f (t + n)).length = (f t).length) : f (t + n) = f t :=
  ((base_suffix hmove (List.suffix_refl (f t)) n hdeep).eq_of_length hback.symm).symm

end Clocked
