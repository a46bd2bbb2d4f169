import Mathlib.Logic.Function.Basic

/-!
# A queue in a ring of cells

A hardware queue is a ring of `n` cells with a read pointer, a write pointer and a
count.  Its contents are the cells from the read pointer on (`Ring.contents`).  A read
steps over the first of them, and a write into the cell at the write pointer, which is
`count` cells further (`Ring.slot`), appends to them (`Ring.contents_push`), and so do writes
into the cells from there on (`Ring.contents_write`).
-/

namespace Clocked

namespace Ring

variable {α : Type*} {n p k : Nat}

/-- The cell after `p` in a ring of `n` cells. -/
def succ (n p : Nat) : Nat := if p = n - 1 then 0 else p + 1

/-- The cell that is `k` cells after `p`. -/
def slot (n p k : Nat) : Nat := (p + k) % n

/-- The contents of `count` cells from `p` on. -/
def contents (n : Nat) (cells : Nat → α) (p : Nat) : Nat → List α
  | 0 => []
  | count + 1 => cells p :: contents n cells (succ n p) count

@[simp] theorem contents_zero (cells : Nat → α) : contents n cells p 0 = [] := rfl

@[simp] theorem contents_succ (cells : Nat → α) (count : Nat) :
    contents n cells p (count + 1) = cells p :: contents n cells (succ n p) count := rfl

@[simp] theorem length_contents (cells : Nat → α) (p count : Nat) :
    (contents n cells p count).length = count := by
  induction count generalizing p with
  | zero => rfl
  | succ count ih => rw [contents_succ, List.length_cons, ih]

/-! ## Pointers -/

theorem succ_lt (hp : p < n) : succ n p < n := by
  unfold succ
  split <;> omega

theorem slot_lt (hn : 0 < n) : slot n p k < n := Nat.mod_lt _ hn

theorem slot_zero (hp : p < n) : slot n p 0 = p := Nat.mod_eq_of_lt hp

theorem succ_eq_mod (hp : p < n) : succ n p = (p + 1) % n := by
  unfold succ
  split
  · have hwrap : p + 1 = n := by omega
    rw [hwrap, Nat.mod_self]
  · exact (Nat.mod_eq_of_lt (by omega)).symm

/-- Both pointers move on around the ring. -/
theorem slot_succ (hp : p < n) : slot n (succ n p) k = slot n p (k + 1) := by
  unfold slot
  rw [succ_eq_mod hp, Nat.mod_add_mod, Nat.add_assoc, Nat.add_comm 1 k]

theorem succ_slot (hn : 0 < n) : succ n (slot n p k) = slot n p (k + 1) := by
  rw [succ_eq_mod (slot_lt hn)]
  unfold slot
  rw [Nat.mod_add_mod, Nat.add_assoc]

/-- The cells of one round are different. -/
theorem slot_ne (hp : p < n) (hk : k + 1 < n) : p ≠ slot n p (k + 1) := by
  unfold slot
  by_cases hwrap : p + (k + 1) < n
  · rw [Nat.mod_eq_of_lt hwrap]
    omega
  · have hsub : (p + (k + 1)) % n = p + (k + 1) - n := by
      rw [Nat.mod_eq_sub_mod (by omega), Nat.mod_eq_of_lt (by omega)]
    rw [hsub]
    omega

/-! ## Writes -/

/-- A write past the contents leaves them as they are. -/
theorem contents_update (cells : Nat → α) (x : α) {count : Nat} (hp : p < n)
    (hcount : count < n) :
    contents n (Function.update cells (slot n p count) x) p count = contents n cells p count := by
  induction count generalizing p with
  | zero => rfl
  | succ count ih =>
      have hrest := ih (succ_lt hp) (by omega)
      rw [slot_succ hp] at hrest
      rw [contents_succ, contents_succ, hrest, Function.update_of_ne (slot_ne hp hcount)]

/-- A write into the cell past the contents appends to them. -/
theorem contents_push (cells : Nat → α) (x : α) {count : Nat} (hp : p < n) (hcount : count < n) :
    contents n (Function.update cells (slot n p count) x) p (count + 1) =
      contents n cells p count ++ [x] := by
  induction count generalizing p with
  | zero => simp [slot_zero hp]
  | succ count ih =>
      have hrest := ih (succ_lt hp) (by omega)
      rw [slot_succ hp] at hrest
      rw [contents_succ, hrest, contents_succ, List.cons_append,
        Function.update_of_ne (slot_ne hp hcount)]

/-! ## Several cells -/

/-- The contents from a pointer on are a first part and the contents from its end on. -/
theorem contents_add (cells : Nat → α) (first : Nat) {rest : Nat} (hp : p < n) :
    contents n cells p (first + rest) =
      contents n cells p first ++ contents n cells (slot n p first) rest := by
  induction first generalizing p with
  | zero => rw [Nat.zero_add, contents_zero, List.nil_append, slot_zero hp]
  | succ first ih =>
      rw [Nat.succ_add, contents_succ, contents_succ, ih (succ_lt hp), slot_succ hp,
        List.cons_append]

/-- The cells from `p` on are written. -/
def write (n : Nat) (cells : Nat → α) (p : Nat) : List α → Nat → α
  | [] => cells
  | x :: xs => write n (Function.update cells p x) (succ n p) xs

theorem write_concat (cells : Nat → α) (xs : List α) (x : α) (hp : p < n) :
    write n cells p (xs ++ [x]) = Function.update (write n cells p xs) (slot n p xs.length) x := by
  induction xs generalizing cells p with
  | nil =>
      show Function.update cells p x = Function.update cells (slot n p 0) x
      rw [slot_zero hp]
  | cons y xs ih =>
      show write n (Function.update cells p y) (succ n p) (xs ++ [x]) = _
      rw [ih _ (succ_lt hp), slot_succ hp]
      rfl

/-- Writes from the cell past the contents on append to them. -/
theorem contents_write (cells : Nat → α) (xs : List α) {count : Nat} (hp : p < n)
    (hroom : count + xs.length ≤ n) :
    contents n (write n cells (slot n p count) xs) p (count + xs.length) =
      contents n cells p count ++ xs := by
  induction xs generalizing cells count with
  | nil => rw [List.append_nil]; rfl
  | cons x xs ih =>
      rw [List.length_cons] at hroom
      have hcount : count < n := by omega
      have hmore : count + 1 + xs.length ≤ n := by omega
      have hrest := ih (Function.update cells (slot n p count) x) hmore
      rw [contents_push cells x hp hcount, List.append_assoc] at hrest
      rw [List.length_cons, ← Nat.add_assoc, Nat.add_right_comm]
      unfold write
      rw [succ_slot (by omega)]
      exact hrest

end Ring

end Clocked
