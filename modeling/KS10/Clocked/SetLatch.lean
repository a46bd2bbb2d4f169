import KS10.Clocked.Run

/-!
# Latches that events set and that are busy at some clocks

A latch remembers that an event has come until it is acknowledged.  While it is busy, with
its acknowledge or with another access, it does not look at the events, so an event at such a
clock is missed unless the latch is set already.

Beside the bit goes what it should tell: an event is owed from its clock on until a later
acknowledge or a clear.  What is owed is in the latch, or it has been missed and nothing has
come since (`SetLatch.missing_iff`).
-/

namespace Clocked

structure SetLatch where
  bit : Bool
  owed : Bool
  deriving DecidableEq

namespace SetLatch

/-- The inputs of one clock.  An acknowledge is an access, so it counts at busy clocks. -/
structure In where
  clear : Bool
  busy : Bool
  ack : Bool
  set : Bool

def next (s : SetLatch) (i : In) : SetLatch where
  bit := if i.clear then false else if i.busy then s.bit && !i.ack else s.bit || i.set
  owed := !i.clear && (i.set || s.owed && !(i.busy && i.ack))

/-- An event comes and the latch is not set after it. -/
def missed (s : SetLatch) (i : In) : Bool := !i.clear && i.set && i.busy && !(s.bit && !i.ack)

/-- A clock that neither sets nor resets the latch. -/
def quiet (i : In) : Bool := !i.clear && !(i.busy && i.ack) && !(i.set && !i.busy)

variable {s : SetLatch} {i : In}

/-- What is owed is in the latch after a clock, or the clock has missed it, or it was owed and
not in the latch before a quiet clock. -/
theorem owed_next (h : (s.next i).owed = true) : (s.next i).bit = true ∨ s.missed i = true ∨
    s.owed = true ∧ s.bit = false ∧ quiet i = true := by
  unfold next missed quiet at *
  obtain ⟨bit, owed⟩ := s
  obtain ⟨clear, busy, ack, set⟩ := i
  revert bit owed clear busy ack set
  decide

/-- An event that is missed is owed and not in the latch. -/
theorem next_of_missed (h : s.missed i = true) :
    (s.next i).owed = true ∧ (s.next i).bit = false := by
  unfold next missed at *
  obtain ⟨bit, owed⟩ := s
  obtain ⟨clear, busy, ack, set⟩ := i
  revert bit owed clear busy ack set
  decide

theorem next_of_quiet (h : quiet i = true) (howed : s.owed = true) (hbit : s.bit = false) :
    (s.next i).owed = true ∧ (s.next i).bit = false := by
  unfold next quiet at *
  obtain ⟨bit, owed⟩ := s
  obtain ⟨clear, busy, ack, set⟩ := i
  revert bit owed clear busy ack set
  decide

/-! ## Runs -/

variable {i : Nat → In}

/-- What is owed and not in the latch has been missed, and the clocks since have been quiet. -/
theorem missing_iff (h : s.owed = s.bit) (t : Nat) :
    (run next s i t).owed = true ∧ (run next s i t).bit = false ↔
      ∃ u, u < t ∧ (run next s i u).missed (i u) = true ∧
        ∀ v, u < v → v < t → quiet (i v) = true := by
  induction t with
  | zero =>
      rw [run_zero, h]
      constructor
      · rintro ⟨htrue, hfalse⟩
        rw [htrue] at hfalse
        cases hfalse
      · rintro ⟨u, hu, -⟩
        exact absurd hu (Nat.not_lt_zero u)
  | succ t ih =>
      rw [run_succ]
      constructor
      · rintro ⟨howed, hbit⟩
        rcases owed_next howed with hset | hmissed | ⟨hold, hlow, hquiet⟩
        · rw [hbit] at hset
          cases hset
        · exact ⟨t, Nat.lt_succ_self t, hmissed, fun v hv hvt => by omega⟩
        · obtain ⟨u, hu, hmissed, hrest⟩ := ih.mp ⟨hold, hlow⟩
          refine ⟨u, Nat.lt_succ_of_lt hu, hmissed, fun v huv hvt => ?_⟩
          rcases Nat.lt_or_eq_of_le (Nat.le_of_lt_succ hvt) with hlt | rfl
          · exact hrest v huv hlt
          · exact hquiet
      · rintro ⟨u, hu, hmissed, hrest⟩
        rcases Nat.lt_or_eq_of_le (Nat.le_of_lt_succ hu) with hlt | rfl
        · obtain ⟨howed, hbit⟩ :=
            ih.mpr ⟨u, hlt, hmissed, fun v huv hvt => hrest v huv (Nat.lt_succ_of_lt hvt)⟩
          exact next_of_quiet (hrest t hlt (Nat.lt_succ_self t)) howed hbit
        · exact next_of_missed hmissed

/-- Everything that is owed is in the latch, at every clock, if no event is missed. -/
theorem shown_iff (h : s.owed = s.bit) :
    (∀ t, (run next s i t).owed = true → (run next s i t).bit = true) ↔
      ∀ t, (run next s i t).missed (i t) = false := by
  constructor
  · intro hall t
    refine Bool.eq_false_iff.mpr fun hmissed => ?_
    obtain ⟨howed, hbit⟩ := next_of_missed hmissed
    have hset := hall (t + 1) howed
    rw [run_succ, hbit] at hset
    cases hset
  · intro hnone t howed
    by_contra hbit
    obtain ⟨u, -, hmissed, -⟩ := (missing_iff h t).mp ⟨howed, Bool.eq_false_iff.mpr hbit⟩
    rw [hnone u] at hmissed
    cases hmissed

end SetLatch

end Clocked
