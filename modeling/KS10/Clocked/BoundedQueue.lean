import Mathlib.Data.Bool.Basic
import Mathlib.Data.List.Basic

/-!
# Bounded queues

A queue of at most `cap` entries.  A read of an empty queue and a write to a full queue change
nothing.  One step can read and write (`BoundedQueue.step`).  Both are judged by the queue as
the step finds it, so that a step that reads and writes reads an empty queue in vain and writes
to a full one in vain.
-/

namespace Clocked

/-- At most `cap` entries, the oldest one first. -/
structure BoundedQueue (α : Type*) (cap : Nat) where
  entries : List α
  bound : entries.length ≤ cap

namespace BoundedQueue

variable {α : Type*} {cap : Nat}

@[ext] theorem ext {q q' : BoundedQueue α cap} (h : q.entries = q'.entries) : q = q' := by
  cases q
  cases q'
  cases h
  rfl

/-! ## Operations -/

def nil : BoundedQueue α cap := ⟨[], Nat.zero_le cap⟩

def isEmpty (q : BoundedQueue α cap) : Bool := q.entries.length == 0

def isFull (q : BoundedQueue α cap) : Bool := q.entries.length == cap

def oldest (q : BoundedQueue α cap) : Option α := q.entries.head?

/-- The oldest entry leaves. -/
def pop (q : BoundedQueue α cap) : BoundedQueue α cap :=
  ⟨q.entries.tail, by
    rw [List.length_tail]
    exact Nat.le_trans (Nat.sub_le _ _) q.bound⟩

/-- An entry comes in, if there is room. -/
def push (q : BoundedQueue α cap) (x : α) : BoundedQueue α cap :=
  if h : q.entries.length < cap then
    ⟨q.entries ++ [x], by
      rw [List.length_append]
      exact h⟩
  else q

/-- A step that may read, write `x`, or both. -/
def step (q : BoundedQueue α cap) (rd wr : Bool) (x : α) : BoundedQueue α cap :=
  match rd, wr with
  | false, false => q
  | true, false => q.pop
  | false, true => q.push x
  | true, true =>
      if q.isEmpty then q.push x
      else if q.isFull then q.pop
      else (q.push x).pop

/-! ## Empty and full queues -/

variable {q : BoundedQueue α cap}

theorem isEmpty_iff : q.isEmpty = true ↔ q.entries = [] := by
  unfold isEmpty
  rw [beq_iff_eq, List.length_eq_zero_iff]

theorem isFull_iff : q.isFull = true ↔ q.entries.length = cap := by
  unfold isFull
  exact beq_iff_eq

theorem pop_of_isEmpty (h : q.isEmpty = true) : q.pop = q := by
  rw [isEmpty_iff] at h
  apply ext
  show q.entries.tail = q.entries
  rw [h, List.tail_nil]

theorem push_of_isFull (h : q.isFull = true) (x : α) : q.push x = q := by
  rw [isFull_iff] at h
  unfold push
  rw [dif_neg (by rw [h]; exact Nat.lt_irrefl cap)]

theorem entries_push (h : q.isFull = false) (x : α) : (q.push x).entries = q.entries ++ [x] := by
  have hne : q.entries.length ≠ cap := fun heq => by
    rw [isFull_iff.mpr heq] at h
    cases h
  unfold push
  rw [dif_pos (Nat.lt_of_le_of_ne q.bound hne)]

/-- A step that reads and writes is what its read and its write are one after the other,
judged by the queue that it finds. -/
theorem entries_step (q : BoundedQueue α cap) (rd wr : Bool) (x : α) :
    (q.step rd wr x).entries =
      (q.entries ++ if wr && !q.isFull then [x] else []).drop (rd && !q.isEmpty).toNat := by
  have hpush : (q.push x).entries = q.entries ++ if !q.isFull then [x] else [] := by
    cases hfull : q.isFull with
    | false => exact entries_push hfull x
    | true =>
        rw [push_of_isFull hfull]
        exact (List.append_nil _).symm
  have hpop : q.pop.entries = q.entries.drop (!q.isEmpty).toNat := by
    cases hempty : q.isEmpty with
    | false => exact List.drop_one.symm
    | true =>
        rw [pop_of_isEmpty hempty]
        rfl
  cases rd with
  | false =>
      cases wr with
      | false => exact (List.append_nil _).symm
      | true => exact hpush
  | true =>
      cases wr with
      | false =>
          show q.pop.entries = (q.entries ++ []).drop _
          rw [List.append_nil, Bool.true_and]
          exact hpop
      | true =>
          unfold step
          dsimp only
          rw [Bool.true_and, Bool.true_and, ← hpush]
          cases hempty : q.isEmpty with
          | true => rfl
          | false =>
              rw [if_neg Bool.false_ne_true]
              cases hfull : q.isFull with
              | true =>
                  rw [if_pos rfl, push_of_isFull hfull]
                  exact List.drop_one.symm
              | false => exact List.drop_one.symm

end BoundedQueue

end Clocked
