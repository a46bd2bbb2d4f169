import KS10.Clocked.Enable
import KS10.Dz.Order

/-!
# The data valid bit of RBUF

A read of RBUF is to return the data valid bit exactly if the silo held an unread
character when the read began, with the oldest of them (`DzTraffic.Truthful`).

The bit is a register.  It is set from the depth a clock after a character has come, and
again when a read is over, but then from the depth before that read.  So it is right for
a read that begins with characters in the silo and ends with a settled output, and for
the reads before the first character (`DzTraffic.Served`), and it is still set for the
read after the last character.
-/

namespace KS10

open Clocked

namespace DzTraffic

open DzRx (In)

/-- A read of RBUF from clock `b` to clock `e`. -/
structure Read (x : Nat → DzTraffic) (i : Nat → In) (b e : Nat) : Prop where
  le : b ≤ e
  begins : (x b).rx.rbuf.last = false
  strobe : ∀ t, b ≤ t → t ≤ e → (i t).rbufRead = true
  ends : (i (e + 1)).rbufRead = false

/-- The read returns the data valid bit exactly if there was an unread character when it
began, and then the oldest one. -/
structure Truthful (x : Nat → DzTraffic) (b e : Nat) : Prop where
  valid : DzTraffic.valid (x e).rx.rbuf.regRbuf = true ↔ (x b).unread ≠ []
  oldest : ∀ c rest, (x b).unread = c :: rest → data (x e).rx.rbuf.regRbuf = c

/-- The read begins with a character in the silo and ends with a settled output, or no
character has come before it is over; and no character comes in the clock after. -/
def Served (x : Nat → DzTraffic) (i : Nat → In) (b e : Nat) : Prop :=
  (x (e + 1)).rx.takes (i (e + 1)) = false ∧
    (((x b).rx.rbuf.depth ≠ 0 ∧ (x e).rx.rbuf.settled = true) ∨ (x (e + 1)).taken = [])

variable {x₀ : DzTraffic} {i : Nat → In} {b e : Nat}

/-! ## One read -/

theorem last_succ (hquiet : Quiet i) (t : Nat) :
    (run next x₀ i (t + 1)).rx.rbuf.last = (i t).rbufRead := by
  have hnext := Rbuf.next_of_run (s := (run next x₀ i t).rx.rbuf)
    (i := (run next x₀ i t).rx.rbufIn (i t)) (hquiet.rst t)
  rw [run_succ]
  exact congrArg Rbuf.last hnext

/-- Every clock of the read strobe is part of a read. -/
theorem exists_begin (h₀ : x₀.Cleared) (hquiet : Quiet i) (hread : (i e).rbufRead = true)
    (hend : (i (e + 1)).rbufRead = false) : ∃ b, Read (run next x₀ i) i b e := by
  have hback : ∀ t, (i t).rbufRead = true → ∃ b, b ≤ t ∧
      (run next x₀ i b).rx.rbuf.last = false ∧ ∀ u, b ≤ u → u ≤ t → (i u).rbufRead = true := by
    intro t
    induction t with
    | zero =>
        intro h
        refine ⟨0, Nat.le_refl 0, h₀.last, fun u _ hu => ?_⟩
        obtain rfl : u = 0 := by omega
        exact h
    | succ t ih =>
        intro h
        cases hprev : (i t).rbufRead with
        | false =>
            refine ⟨t + 1, Nat.le_refl _, (last_succ hquiet t).trans hprev, fun u hl hu => ?_⟩
            obtain rfl : u = t + 1 := by omega
            exact h
        | true =>
            obtain ⟨b, hb, hlast, hstrobe⟩ := ih hprev
            refine ⟨b, by omega, hlast, fun u hl hu => ?_⟩
            rcases Nat.lt_or_ge u (t + 1) with hlt | hge
            · exact hstrobe u hl (by omega)
            · obtain rfl : u = t + 1 := by omega
              exact h
  obtain ⟨b, hb, hlast, hstrobe⟩ := hback e hread
  exact ⟨b, hb, hlast, hstrobe, hend⟩

/-- While a read goes on, the oldest character stays the oldest. -/
theorem Read.head_unread (h : Read (run next x₀ i) i b e) {c : BitVec 15}
    (hhead : (run next x₀ i b).unread.head? = some c) :
    (run next x₀ i e).unread.head? = some c := by
  refine stays_until (P := fun t => (run next x₀ i t).unread.head? = some c)
    (C := fun t => (i t).rbufRead = true) (fun t ht hread => ?_) hhead h.le
    fun t hbt hte => h.strobe t hbt (Nat.le_of_lt hte)
  rw [run_succ]
  exact head_unread_next (rd_of_read hread) ht

/-- No character has come at a clock before one at which none has. -/
theorem taken_of_le {t u : Nat} (htu : t ≤ u) (h : (run next x₀ i u).taken = []) :
    (run next x₀ i t).taken = [] := by
  induction u, htu using Nat.le_induction with
  | base => exact h
  | succ u htu ih =>
      rw [run_succ] at h
      exact ih (taken_of_next h).1

/-! ## Runs -/

/-- In a run whose reads are served in time, every read is truthful. -/
theorem truthful_run (h₀ : x₀.Cleared) (hquiet : Quiet i)
    (hserved : ∀ b e, Read (run next x₀ i) i b e → Served (run next x₀ i) i b e)
    (h : Read (run next x₀ i) i b e) : Truthful (run next x₀ i) b e := by
  have htimely : ∀ t, Timely (run next x₀ i) i t := by
    intro t ⟨hread, hend⟩
    obtain ⟨b', hb'⟩ := exists_begin h₀ hquiet hread hend
    obtain ⟨htakes, hfinds⟩ := hserved b' t hb'
    exact ⟨htakes, hfinds.imp And.right id⟩
  have hord : ∀ t, (run next x₀ i t).InOrder := fun t => (inOrder_run h₀ hquiet htimely t).1
  rcases (hserved b e h).2 with ⟨hdepth, hset⟩ | hnone
  · -- The oldest character at the beginning is the one at the output in the end.
    obtain ⟨hdval, hhead⟩ := (hord e).sound.output hset
    rw [(hord e).held] at hhead
    rw [(hord b).depth_eq] at hdepth
    refine ⟨⟨fun _ hnil => hdepth (by rw [hnil]; rfl), fun _ => ?_⟩, fun c rest hlist => ?_⟩
    · rw [valid_regRbuf]
      exact hdval
    · have hoc : (run next x₀ i e).unread.head? = some c := by
        refine h.head_unread ?_
        rw [hlist]
        rfl
      rw [data_regRbuf]
      exact Option.some.inj (hhead.symm.trans hoc)
  · have hle := h.le
    have hb : (run next x₀ i b).unread = [] := (hord b).none (taken_of_le (by omega) hnone)
    have he : (run next x₀ i e).rx.rbuf.rbufDval = false :=
      (hord e).dval (taken_of_le (by omega) hnone)
    refine ⟨⟨fun hvalid => ?_, fun hne => absurd hb hne⟩, fun c rest hlist => ?_⟩
    · rw [valid_regRbuf, he] at hvalid
      cases hvalid
    · rw [hb] at hlist
      cases hlist

theorem read_readOnce {b e : Nat} (h : Read (run next (waiting (· == 1)) readOnce) readOnce b e) :
    b = 4 ∧ e = 5 := by
  obtain rfl : e = 5 := readEnds_readOnce ⟨h.strobe e h.le (Nat.le_refl e), h.ends⟩
  have hb : (b == 4 || b == 5) = true := h.strobe b (Nat.le_refl b) h.le
  rw [Bool.or_eq_true, beq_iff_eq, beq_iff_eq] at hb
  rcases hb with rfl | rfl
  · exact ⟨rfl, rfl⟩
  · have hlast : (run next (waiting (· == 1)) readOnce 5).rx.rbuf.last = true := by decide +kernel
    rw [h.begins] at hlast
    cases hlast

/-- The character of line 1 is read as valid. -/
theorem truthful_run_one :
    (run next (waiting (· == 1)) readOnce 4).unread.length = 1 ∧
      Truthful (run next (waiting (· == 1)) readOnce) 4 5 := by
  refine ⟨by decide +kernel, truthful_run (waiting_cleared _) quiet_readOnce
    (fun b e h => ?_) ⟨by decide, by decide +kernel, fun t hb he => ?_, by decide⟩⟩
  · obtain ⟨rfl, rfl⟩ := read_readOnce h
    exact ⟨by decide +kernel, Or.inl ⟨by decide +kernel, by decide +kernel⟩⟩
  · obtain rfl | rfl : t = 4 ∨ t = 5 := by omega
    · decide
    · decide

/-- RBUF is read again at clocks 8 and 9. -/
def readTwice (t : Nat) : In :=
  { readOnce t with rbufRead := t == 4 || t == 5 || t == 8 || t == 9 }

/-- The read after the last character is valid as well. -/
theorem truthful_fails :
    ¬ ∀ (x₀ : DzTraffic) (i : Nat → In) (b e : Nat), x₀.Cleared → Quiet i →
      Read (run next x₀ i) i b e → Truthful (run next x₀ i) b e := by
  intro h
  have hread : Read (run next (waiting (· == 1)) readTwice) readTwice 8 9 := by
    refine ⟨by decide, by decide +kernel, fun t hb he => ?_, by decide⟩
    obtain rfl | rfl : t = 8 ∨ t = 9 := by omega
    · decide
    · decide
  have htruth := h _ _ 8 9 (waiting_cleared _) ⟨fun _ => rfl, fun _ => rfl⟩ hread
  exact htruth.valid.mp (by decide +kernel) (by decide +kernel)

end DzTraffic

end KS10
