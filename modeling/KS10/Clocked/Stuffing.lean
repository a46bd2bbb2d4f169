import Mathlib.Logic.Basic

/-!
# Zero-bit insertion

A sender that may not send more than `k` ones in a row inserts a zero after every `k` of
them.  What it sends are the bits of the message, each marked with `true`, and the
inserted zeros, marked with `false` (`Stuffing.insert`).  A count of the ones that were
sent last is carried from one message to the next (`Stuffing.ones`).

A receiver sees the marked bits one after the other.  Whatever holds of it with a count of
less than `k` has to survive a bit of the message, and whatever holds with a count of `k`
has to survive a zero that is not part of the message.  Then it survives the message
(`Stuffing.foldl_insert`).
-/

namespace Clocked

namespace Stuffing

/-- The count after one more bit. -/
def succ (c : Nat) (b : Bool) : Nat := if b then c + 1 else 0

/-- The count after a bit of the message and the zero that may follow it. -/
def step (k c : Nat) (b : Bool) : Nat := if succ c b = k then 0 else succ c b

/-- What is sent for the message, after `c` ones. -/
def insert (k : Nat) : Nat → List Bool → List (Bool × Bool)
  | _, [] => []
  | c, b :: l =>
      if succ c b = k then (b, true) :: (false, false) :: insert k 0 l
      else (b, true) :: insert k (succ c b) l

/-- The count after the message. -/
def ones (k : Nat) : Nat → List Bool → Nat
  | c, [] => c
  | c, b :: l => ones k (step k c b) l

variable {k c : Nat} {b : Bool} {l : List Bool}

theorem step_lt (hc : c < k) : step k c b < k := by
  unfold step
  split
  · omega
  · rename_i hne
    have hle : succ c b ≤ c + 1 := by
      unfold succ
      split <;> omega
    omega

/-- Between the bits of a message the count is less than `k`. -/
theorem ones_lt (hc : c < k) : ones k c l < k := by
  induction l generalizing c with
  | nil => exact hc
  | cons b l ih => exact ih (step_lt hc)

/-- The message is what is sent without the inserted zeros. -/
theorem data_insert (c : Nat) (l : List Bool) :
    ((insert k c l).filter Prod.snd).map Prod.fst = l := by
  induction l generalizing c with
  | nil => rfl
  | cons b l ih =>
      unfold insert
      split
      · exact congrArg _ (ih 0)
      · exact congrArg _ (ih (succ c b))

/-- The rule for a receiver: `P c ds` says what holds of it after the bits `ds` of the
message, with a count of `c`. -/
theorem foldl_insert {σ : Type*} {recv : σ → Bool × Bool → σ} {P : Nat → List Bool → σ → Prop}
    (hdata : ∀ c ds b rest s, ds ++ b :: rest = l → c < k → P c ds s →
      P (succ c b) (ds ++ [b]) (recv s (b, true)))
    (hzero : ∀ ds s, P k ds s → P 0 ds (recv s (false, false))) (hc : c < k) {s : σ}
    (hs : P c [] s) : P (ones k c l) l ((insert k c l).foldl recv s) := by
  have hall : ∀ rest ds c s, ds ++ rest = l → c < k → P c ds s →
      P (ones k c rest) l ((insert k c rest).foldl recv s) := by
    intro rest
    induction rest with
    | nil =>
        intro ds c s hl _ hs
        rw [List.append_nil] at hl
        subst hl
        exact hs
    | cons b rest ih =>
        intro ds c s hl hc hs
        have hb := hdata c ds b rest s hl hc hs
        have hrest : (ds ++ [b]) ++ rest = l := by
          rw [List.append_assoc]
          exact hl
        unfold insert ones step
        by_cases hfull : succ c b = k
        · rw [if_pos hfull, if_pos hfull]
          rw [hfull] at hb
          exact ih _ 0 _ hrest (by omega) (hzero _ _ hb)
        · rw [if_neg hfull, if_neg hfull]
          have hlt : succ c b < k := by
            have := step_lt (b := b) hc
            unfold step at this
            rwa [if_neg hfull] at this
          exact ih _ _ _ hrest hlt hb
  exact hall l [] c s rfl hc hs

end Stuffing

end Clocked
