import KS10.Cpu.Fifo
import KS10.Clocked.BoundedQueue
import KS10.Clocked.Run
import Mathlib.Data.Int.ModEq

/-!
# The FIFO as a bounded queue

The registers of the FIFO against a queue of at most `size - 1` entries that sees the same
reads, writes, clears and resets.  The FIFO serves as that queue from a reset on as long as no
clock reads and writes while the queue is empty or full, and in the clock after the first such
clock its pointers and its depth do not fit (`Fifo.serves_run_iff`).
-/

namespace KS10

open Clocked

namespace Fifo

variable {α : Type*}

/-! ## The queue -/

/-- One clock of the queue. -/
def queueNext {size : Nat} (q : BoundedQueue α (size - 1)) (i : In α) :
    BoundedQueue α (size - 1) :=
  if i.rst then BoundedQueue.nil
  else if i.clr then BoundedQueue.nil
  else if i.clken then q.step i.rd i.wr i.word
  else q

/-- The clock reads and writes while the queue is empty or full. -/
def queueClash {size : Nat} (q : BoundedQueue α (size - 1)) (i : In α) : Bool :=
  !i.rst && !i.clr && i.clken && (i.rd && i.wr && (q.isEmpty || q.isFull))

/-- The registers as a reset leaves them. -/
def reset (f : Fifo α) : Fifo α := { f with rdAddr := 0, wrAddr := 0, depth := 0 }

theorem next_of_rst (size : Nat) (f : Fifo α) {i : In α} (hrst : i.rst = true) :
    f.next size i = f.reset := by
  unfold next nextRdAddr nextWrAddr nextDepth nextMem reset
  rw [hrst]
  rfl

/-- What a clock changes in which the FIFO is not enabled. -/
theorem next_of_disabled (size : Nat) (f : Fifo α) {i : In α} (hrst : i.rst = false)
    (hclr : i.clr = false) (hclken : i.clken = false) :
    f.next size i = { f with out := f.mem f.rdAddr } := by
  unfold next nextRdAddr nextWrAddr nextDepth nextMem
  rw [hrst, hclr, hclken]
  rfl

/-! ## What the FIFO does as the queue -/

variable {size : Nat} {f : Fifo α} {q : BoundedQueue α (size - 1)} {i : In α}

/-- The registers of the FIFO represent the queue. -/
structure Represents (size : Nat) (f : Fifo α) (q : BoundedQueue α (size - 1)) : Prop where
  valid : f.Valid size
  contents : f.contents size = q.entries

/-- In a clock with the inputs `i`, the FIFO does what the queue would do. -/
structure Serves (size : Nat) (f : Fifo α) (q : BoundedQueue α (size - 1)) (i : In α) :
    Prop where
  empty : f.empty = q.isEmpty
  full : f.full size = q.isFull
  /-- The pointers are as far apart as the depth says, modulo the size of the buffer. -/
  pointers : (f.wrAddr : ℤ) - f.rdAddr ≡ f.depth [ZMOD bufsz size]
  contents : f.contents size = q.entries
  /-- The word that the output register loads is the oldest entry. -/
  oldest : i.rst = false → q.isEmpty = false → q.oldest = some (f.next size i).out
  /-- A write to a full queue changes nothing but the output register. -/
  write_full : Runs i → i.rd = false → i.wr = true → q.isFull = true →
    f.next size i = { f with out := f.mem f.rdAddr }
  /-- A read of an empty queue changes nothing but the output register. -/
  read_empty : Runs i → i.rd = true → i.wr = false → q.isEmpty = true →
    f.next size i = { f with out := f.mem f.rdAddr }

theorem Represents.depth (h : Represents size f q) : f.depth = q.entries.length := by
  rw [← h.contents, length_contents]

theorem Represents.empty (h : Represents size f q) : f.empty = q.isEmpty := by
  unfold Fifo.empty BoundedQueue.isEmpty
  rw [h.depth]

theorem Represents.full (h : Represents size f q) : f.full size = q.isFull := by
  unfold Fifo.full BoundedQueue.isFull
  rw [h.depth]

theorem Balanced.pointers (hbal : f.Balanced size) :
    (f.wrAddr : ℤ) - f.rdAddr ≡ f.depth [ZMOD bufsz size] := by
  have hwr : (f.wrAddr : ℤ) ≡ f.rdAddr + f.depth [ZMOD bufsz size] := by
    unfold Balanced Ring.slot at hbal
    rw [hbal, Int.natCast_mod, Int.natCast_add]
    exact Int.mod_modEq _ _
  have hsub := hwr.sub (Int.ModEq.refl (f.rdAddr : ℤ))
  rwa [add_sub_cancel_left] at hsub

/-- Only the balanced pointers are as far apart as the depth says. -/
theorem balanced_of_pointers (hwr : f.wrAddr < bufsz size)
    (h : (f.wrAddr : ℤ) - f.rdAddr ≡ f.depth [ZMOD bufsz size]) : f.Balanced size := by
  have hadd := h.add (Int.ModEq.refl (f.rdAddr : ℤ))
  rw [sub_add_cancel, ← Int.natCast_add, Int.natCast_modEq_iff] at hadd
  unfold Balanced Ring.slot
  rw [Nat.add_comm f.rdAddr, ← Nat.mod_eq_of_lt hwr]
  exact hadd

theorem pushes_of_full (hfull : f.full size = true) : f.pushes size i = false := by
  unfold pushes
  rw [hfull, Bool.not_true, Bool.and_false]

theorem pops_of_empty (hempty : f.empty = true) : f.pops i = false := by
  unfold pops
  rw [hempty, Bool.not_true, Bool.and_false]

/-- The depth stays in a clock that moves no word. -/
theorem nextDepth_of_still (hpush : f.pushes size i = false) (hpop : f.pops i = false) :
    f.nextDepth size i = if i.rst || i.clr then 0 else f.depth := by
  unfold pushes at hpush
  unfold pops at hpop
  unfold nextDepth
  rw [Bool.and_assoc, Bool.and_assoc, Bool.and_left_comm i.rd, hpop, Bool.and_false,
    Bool.and_false, Bool.and_assoc, Bool.and_assoc, Bool.and_left_comm i.wr, hpush,
    Bool.and_false, Bool.and_false]
  cases i.rst <;> cases i.clr <;> rfl

/-- A clock that moves no word changes the output register only. -/
theorem next_of_still (hruns : Runs i) (hpush : f.pushes size i = false)
    (hpop : f.pops i = false) : f.next size i = { f with out := f.mem f.rdAddr } := by
  rw [next_of_runs hruns, nextDepth_of_still hpush hpop, hruns.rst, hruns.clr, hpush, hpop]
  rfl

/-- Registers that represent the queue serve as the queue in the next clock. -/
theorem Represents.serves (h : Represents size f q) (i : In α) : Serves size f q i where
  empty := h.empty
  full := h.full
  pointers := h.valid.balanced.pointers
  contents := h.contents
  oldest := by
    intro hrst hempty
    rw [← h.empty] at hempty
    unfold BoundedQueue.oldest
    rw [← h.contents]
    exact out_next hrst hempty
  write_full := by
    intro hruns hrd _ hfull
    rw [← h.full] at hfull
    have hpop : f.pops i = false := by
      unfold pops
      rw [hrd, Bool.false_and]
    exact next_of_still hruns (pushes_of_full hfull) hpop
  read_empty := by
    intro hruns _ hwr hempty
    rw [← h.empty] at hempty
    have hpush : f.pushes size i = false := by
      unfold pushes
      rw [hwr, Bool.false_and]
    exact next_of_still hruns hpush (pops_of_empty hempty)

/-! ## One clock -/

theorem Represents.of_reset (size : Nat) (f : Fifo α) :
    Represents size f.reset BoundedQueue.nil where
  valid := Valid.of_zero rfl rfl rfl
  contents := rfl

theorem Represents.clash (h : Represents size f q) (hruns : Runs i) :
    f.clash size i = queueClash q i := by
  unfold Fifo.clash queueClash
  rw [hruns.rst, hruns.clr, hruns.clken, h.empty, h.full]
  rfl

/-- A clock that does not read and write at an end of the queue keeps the representation. -/
theorem Represents.next (h : Represents size f q) (hno : queueClash q i = false) :
    Represents size (f.next size i) (queueNext q i) := by
  unfold queueNext
  cases hrst : i.rst with
  | true =>
      rw [if_pos rfl, next_of_rst size f hrst]
      exact Represents.of_reset size f
  | false =>
      rw [if_neg Bool.false_ne_true]
      cases hclr : i.clr with
      | true =>
          obtain ⟨hrd, hwr, hdepth⟩ := next_of_clr size (f := f) hrst hclr
          rw [if_pos rfl]
          refine ⟨Valid.of_zero hrd hwr hdepth, ?_⟩
          unfold Fifo.contents
          rw [hdepth]
          rfl
      | false =>
          rw [if_neg Bool.false_ne_true]
          cases hclken : i.clken with
          | false =>
              rw [if_neg Bool.false_ne_true, next_of_disabled size f hrst hclr hclken]
              exact ⟨⟨h.valid.rdAddr, h.valid.depth, h.valid.balanced⟩, h.contents⟩
          | true =>
              have hruns : Runs i := ⟨hrst, hclr, hclken⟩
              rw [← h.clash hruns] at hno
              rw [if_pos rfl]
              refine ⟨h.valid.next hruns hno, ?_⟩
              rw [contents_next hruns h.valid hno, BoundedQueue.entries_step, h.contents]
              unfold pushes pops
              rw [h.full, h.empty]

/-- After a clock that reads and writes at an end of the queue the FIFO does not serve as any
queue. -/
theorem Represents.not_serves (h : Represents size f q) (hsize : 3 ≤ size)
    (hclash : queueClash q i = true) (q' : BoundedQueue α (size - 1)) (i' : In α) :
    ¬ Serves size (f.next size i) q' i' := by
  intro hserves
  have hruns : Runs i := by
    unfold queueClash at hclash
    simp only [Bool.and_eq_true, Bool.not_eq_true'] at hclash
    exact ⟨hclash.1.1.1, hclash.1.1.2, hclash.1.2⟩
  have hwr : (f.next size i).wrAddr < bufsz size := by
    have hlt : f.wrAddr < bufsz size := by
      rw [h.valid.balanced]
      exact Ring.slot_lt (bufsz_pos size)
    rw [next_of_runs hruns]
    show (if f.pushes size i then _ else _) < _
    split
    · exact Nat.mod_lt _ (bufsz_pos size)
    · exact hlt
  have hbal := balanced_of_pointers hwr hserves.pointers
  rw [balanced_next_iff hruns h.valid hsize, h.clash hruns, hclash] at hbal
  cases hbal

/-! ## Runs -/

/-- The queue after `t` clocks from a reset. -/
def queueRun (size : Nat) (i : Nat → In α) (t : Nat) : BoundedQueue α (size - 1) :=
  run queueNext BoundedQueue.nil i t

theorem represents_run (size : Nat) (f : Fifo α) (i : Nat → In α) (t : Nat)
    (hno : ∀ u, u < t → queueClash (queueRun size i u) (i u) = false) :
    Represents size (run (next size) f.reset i t) (queueRun size i t) := by
  induction t with
  | zero => exact Represents.of_reset size f
  | succ t ih =>
      have hrep := ih fun u hu => hno u (Nat.lt_succ_of_lt hu)
      exact hrep.next (hno t (Nat.lt_succ_self t))

/-- From a reset on the FIFO serves as the bounded queue up to clock `t` if and only if no
clock before reads and writes while the queue is empty or full. -/
theorem serves_run_iff (size : Nat) (hsize : 3 ≤ size) (f : Fifo α) (i : Nat → In α) (t : Nat) :
    (∀ u, u ≤ t → Serves size (run (next size) f.reset i u) (queueRun size i u) (i u)) ↔
      ∀ u, u < t → queueClash (queueRun size i u) (i u) = false := by
  constructor
  · intro hserves u hu
    rw [← Bool.not_eq_true]
    intro hclash
    -- The clock after the first such clock is the one that fails.
    obtain ⟨v, ⟨hv, hfirst⟩, hmin⟩ : ∃ v, (v < t ∧ queueClash (queueRun size i v) (i v) = true) ∧
        ∀ w, w < v → ¬ (w < t ∧ queueClash (queueRun size i w) (i w) = true) :=
      exists_first ⟨u, hu, hclash⟩
    have hbefore : ∀ w, w < v → queueClash (queueRun size i w) (i w) = false := by
      intro w hw
      rw [← Bool.not_eq_true]
      exact fun hnot => hmin w hw ⟨Nat.lt_trans hw hv, hnot⟩
    have hrep := represents_run size f i v hbefore
    exact hrep.not_serves hsize hfirst _ _ (hserves (v + 1) hv)
  · intro hno u hu
    exact (represents_run size f i u fun v hv => hno v (Nat.lt_of_lt_of_le hv hu)).serves (i u)

/-- Registers of a FIFO of 16 bit words. -/
def blank : Fifo (BitVec 16) where
  rdAddr := 0
  wrAddr := 0
  depth := 0
  mem := fun _ => 0
  out := 0

/-- Writes and reads in turn. -/
def inTurn (t : Nat) : In (BitVec 16) where
  rst := false
  clr := false
  clken := true
  rd := t % 2 == 1
  wr := t % 2 == 0
  word := BitVec.ofNat 16 t

theorem serves_run_iff_in_turn : 3 ≤ 64 ∧
    ∀ u, u ≤ 10 →
      Serves 64 (run (next 64) blank.reset inTurn u) (queueRun 64 inTurn u) (inTurn u) := by
  refine ⟨by decide, (serves_run_iff 64 (by decide) blank inTurn 10).mpr ?_⟩
  intro u _
  rcases Nat.mod_two_eq_zero_or_one u with heven | hodd
  · simp [queueClash, inTurn, heven]
  · simp [queueClash, inTurn, hodd]

/-- A read and a write in every clock. -/
def bothAtOnce (_ : Nat) : In (BitVec 16) where
  rst := false
  clr := false
  clken := true
  rd := true
  wr := true
  word := 7

/-- The first word goes into the buffer, and the FIFO still says that it is empty. -/
theorem serves_run_fails : ¬ ∀ t,
    Serves 64 (run (next 64) blank.reset bothAtOnce t) (queueRun 64 bothAtOnce t)
      (bothAtOnce t) := by
  intro hserves
  have hempty := (hserves 1).empty
  exact absurd hempty (by decide)

end Fifo

end KS10
