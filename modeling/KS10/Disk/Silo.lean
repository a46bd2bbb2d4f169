import KS10.Clocked.Ring
import KS10.Clocked.Run

/-!
# The silo of the RH11

The data buffer register of the RH11 is a queue of 66 words in a ring of 128 cells.  A write
stores its word while it goes on, and the pointers move on when a write or a read is over.
The output is a register that loads the cell at the read pointer at each clock.

Beside the registers goes the queue as a list (`RhdbRun.queue`), with a read that takes the
oldest word away and a write that appends one as long as there is room.
-/

namespace KS10

open Clocked

/-! ## RHDB -/

/-- The registers of RHDB.  The depth and the pointers have seven bits and stay below 128. -/
structure Rhdb where
  /-- The edge detectors of the two strobes. -/
  lastRead : Bool
  lastWrite : Bool
  depth : Nat
  rdPtr : Nat
  wrPtr : Nat
  mem : Nat → BitVec 16
  rhDB : BitVec 16

namespace Rhdb

/-- The inputs of RHDB at one clock. -/
structure In where
  rst : Bool
  devRESET : Bool
  devDATAI : BitVec 36
  rhCLRGO : Bool
  rhCLRTRE : Bool
  rhCLR : Bool
  rhdbREAD : Bool
  rhdbWRITE : Bool

/-- The capacity of the queue. -/
def size : Nat := 66

/-- The cells of the ring. -/
def cells : Nat := 128

/-- A write, or a read, is over. -/
def wr (s : Rhdb) (i : In) : Bool := !i.rhdbWRITE && s.lastWrite

def rd (s : Rhdb) (i : In) : Bool := !i.rhdbREAD && s.lastRead

def empty (s : Rhdb) : Bool := s.depth == 0

def full (s : Rhdb) : Bool := s.depth == size

def clears (i : In) : Bool := i.devRESET || i.rhCLR || i.rhCLRTRE || i.rhCLRGO

/-- The word on the bus. -/
def rhDATAI (i : In) : BitVec 16 := i.devDATAI.extractLsb' 8 8 ++ i.devDATAI.extractLsb' 0 8

def pops (s : Rhdb) (i : In) : Bool := s.rd i && !s.wr i && !s.empty

def pushes (s : Rhdb) (i : In) : Bool := s.wr i && !s.rd i && !s.full

def nextDepth (s : Rhdb) (i : In) : Nat :=
  if clears i then 0
  else if s.pops i then s.depth - 1
  else if s.pushes i then s.depth + 1
  else s.depth

def nextRdPtr (s : Rhdb) (i : In) : Nat :=
  if clears i then 0 else if s.pops i then Ring.succ cells s.rdPtr else s.rdPtr

def nextWrPtr (s : Rhdb) (i : In) : Nat :=
  if clears i then 0
  else if s.pops i then s.wrPtr
  else if s.pushes i then Ring.succ cells s.wrPtr
  else s.wrPtr

def nextMem (s : Rhdb) (i : In) : Nat → BitVec 16 :=
  if i.rhdbWRITE && !s.full then Function.update s.mem s.wrPtr (rhDATAI i) else s.mem

/-- The reset leaves the cells and the output as they are. -/
def reset (s : Rhdb) : Rhdb where
  lastRead := false
  lastWrite := false
  depth := 0
  rdPtr := 0
  wrPtr := 0
  mem := s.mem
  rhDB := s.rhDB

/-- One clock of RHDB. -/
def next (s : Rhdb) (i : In) : Rhdb :=
  if i.rst then s.reset
  else
    { lastRead := i.rhdbREAD
      lastWrite := i.rhdbWRITE
      depth := s.nextDepth i
      rdPtr := s.nextRdPtr i
      wrPtr := s.nextWrPtr i
      mem := s.nextMem i
      rhDB := s.mem s.rdPtr }

/-- The device is late. -/
def rhSETDLT (s : Rhdb) (i : In) : Bool := (s.empty && i.rhdbREAD) || (s.full && i.rhdbWRITE)

def rhBUFIR (s : Rhdb) : Bool := !s.full

def rhBUFOR (s : Rhdb) : Bool := !s.empty

/-- The words that the silo holds. -/
def held (s : Rhdb) : List (BitVec 16) := Ring.contents cells s.mem s.rdPtr s.depth

end Rhdb

/-! ## The queue -/

/-- A queue of `size` words after a read and a write, or one of them, or none. -/
def Silo.after {α : Type} (size : Nat) (queue : List α) (read : Bool) (write : Option α) : List α :=
  (if read then queue.tail else queue) ++ (if queue.length < size then write.toList else [])

/-- RHDB with the queue, and with what the last read and the last write have been about. -/
structure RhdbRun where
  db : Rhdb
  queue : List (BitVec 16)
  /-- The output at the last clock of a read. -/
  shown : BitVec 16
  /-- The bus at the last clock of a write. -/
  written : BitVec 16
  /-- The output has had a clock to load the oldest word. -/
  fresh : Bool
  /-- It had not at the last clock of a read. -/
  stale : Bool
  /-- The write did not find room at its last clock, or a clear moved the pointer away. -/
  torn : Bool

namespace RhdbRun

open Rhdb

/-- One clock. -/
def next (x : RhdbRun) (i : In) : RhdbRun where
  db := x.db.next i
  queue :=
    if i.rst || clears i then []
    else Silo.after size x.queue (x.db.rd i) (if x.db.wr i then some x.written else none)
  shown := if i.rhdbREAD then x.db.rhDB else x.shown
  written := if i.rhdbWRITE then rhDATAI i else x.written
  fresh := !(i.rst || clears i) && !x.db.empty && !x.db.pops i
  stale := if i.rhdbREAD then !x.fresh else x.stale
  torn := if i.rhdbWRITE then x.db.full || clears i && x.db.wrPtr != 0 else x.torn

/-- The silo after a reset. -/
structure AfterReset (x : RhdbRun) : Prop where
  db : x.db = x.db.reset
  queue : x.queue = []
  fresh : x.fresh = false

/-- A read and a write do not end at one clock; a write that ends with room in the silo had
room at its last clock and no clear; and a read that ends with words in the silo had the oldest
of them in the output at its last clock. -/
structure Legal (x : RhdbRun) (i : In) : Prop where
  apart : clears i = false → ¬ (x.db.rd i = true ∧ x.db.wr i = true)
  room : clears i = false → x.db.wr i = true → x.db.full = false → x.torn = false
  shown : x.db.rd i = true → x.db.empty = false → x.stale = false

instance (x : RhdbRun) (i : In) : Decidable (x.Legal i) :=
  decidable_of_iff
    ((clears i = false → ¬ (x.db.rd i = true ∧ x.db.wr i = true)) ∧
      (clears i = false → x.db.wr i = true → x.db.full = false → x.torn = false) ∧
      (x.db.rd i = true → x.db.empty = false → x.stale = false))
    ⟨fun h => ⟨h.1, h.2.1, h.2.2⟩, fun h => ⟨h.apart, h.room, h.shown⟩⟩

/-- The silo is the queue, and what it tells is right. -/
structure Refines (x : RhdbRun) (i : In) : Prop where
  held : x.db.held = x.queue
  length : x.queue.length ≤ size
  rhBUFIR : x.db.rhBUFIR = true ↔ x.queue.length ≠ size
  rhBUFOR : x.db.rhBUFOR = true ↔ x.queue ≠ []
  rhSETDLT : x.db.rhSETDLT i = true ↔
    i.rhdbREAD = true ∧ x.queue = [] ∨ i.rhdbWRITE = true ∧ x.queue.length = size
  /-- A read that is over gave the oldest word. -/
  oldest : x.db.rd i = true → x.queue ≠ [] → x.queue.head? = some x.shown

/-! ## What every clock keeps -/

structure Sound (x : RhdbRun) : Prop where
  held : x.db.held = x.queue
  depth : x.db.depth ≤ size
  rdPtr : x.db.rdPtr < cells
  wrPtr : x.db.wrPtr = Ring.slot cells x.db.rdPtr x.db.depth
  fresh : x.fresh = true → x.queue.head? = some x.db.rhDB
  /-- The word of the last write is at the write pointer. -/
  written : x.db.lastWrite = true → x.torn = false → x.db.mem x.db.wrPtr = x.written
  shown : x.db.lastRead = true → x.stale = false →
    x.queue = [] ∨ x.queue.head? = some x.shown

variable {x : RhdbRun} {i : In}

theorem Sound.length (h : x.Sound) : x.queue.length = x.db.depth := by
  rw [← h.held]
  exact Ring.length_contents _ _ _

theorem empty_iff (h : x.Sound) : x.db.empty = true ↔ x.queue = [] := by
  unfold Rhdb.empty
  rw [beq_iff_eq, ← h.length, List.length_eq_zero_iff]

theorem full_iff (h : x.Sound) : x.db.full = true ↔ x.queue.length = size := by
  unfold Rhdb.full
  rw [beq_iff_eq, h.length]

theorem Sound.refines (h : x.Sound) (hlegal : x.Legal i) : x.Refines i where
  held := h.held
  length := by
    rw [h.length]
    exact h.depth
  rhBUFIR := by
    unfold Rhdb.rhBUFIR
    rw [Bool.not_eq_true', ← Bool.not_eq_true, full_iff h]
  rhBUFOR := by
    unfold Rhdb.rhBUFOR
    rw [Bool.not_eq_true', ← Bool.not_eq_true, empty_iff h]
  rhSETDLT := by
    unfold Rhdb.rhSETDLT
    rw [Bool.or_eq_true, Bool.and_eq_true, Bool.and_eq_true, empty_iff h, full_iff h, and_comm,
      and_comm (b := i.rhdbWRITE = true)]
  oldest := by
    intro hrd hne
    have hlast : x.db.lastRead = true := by
      unfold Rhdb.rd at hrd
      exact (Bool.and_eq_true_iff.mp hrd).2
    have hempty : x.db.empty = false := by
      rw [← Bool.not_eq_true, empty_iff h]
      exact hne
    exact (h.shown hlast (hlegal.shown hrd hempty)).resolve_left hne

theorem next_of_run (h : i.rst = false) : (x.next i).db =
    { lastRead := i.rhdbREAD
      lastWrite := i.rhdbWRITE
      depth := x.db.nextDepth i
      rdPtr := x.db.nextRdPtr i
      wrPtr := x.db.nextWrPtr i
      mem := x.db.nextMem i
      rhDB := x.db.mem x.db.rdPtr } := by
  show x.db.next i = _
  unfold Rhdb.next
  rw [h, if_neg Bool.false_ne_true]

/-- The write of a word goes to the cell past the contents. -/
theorem held_nextMem (h : x.Sound) :
    Ring.contents cells (x.db.nextMem i) x.db.rdPtr x.db.depth = x.db.held := by
  have hlt : x.db.depth < cells := Nat.lt_of_le_of_lt h.depth (by decide)
  unfold Rhdb.nextMem
  split
  · rw [h.wrPtr]
    exact Ring.contents_update _ _ h.rdPtr hlt
  · rfl

/-- What the end of a read and of a write do. -/
inductive Move (x : RhdbRun) (i : In) : Prop where
  | pop (hrd : x.db.rd i = true) (hwr : x.db.wr i = false) (hne : x.db.depth ≠ 0)
  | push (hwr : x.db.wr i = true) (hrd : x.db.rd i = false) (hlt : x.db.depth < size)
  | stay (hpop : x.db.rd i = false ∨ x.db.depth = 0) (hpush : x.db.wr i = false ∨ x.db.depth = size)

theorem Sound.move (h : x.Sound) (hlegal : x.Legal i) (hclear : clears i = false) : x.Move i := by
  have hapart := hlegal.apart hclear
  have hle := h.depth
  cases hrd : x.db.rd i with
  | true =>
      have hwr : x.db.wr i = false := Bool.eq_false_iff.mpr fun hwr => hapart ⟨hrd, hwr⟩
      by_cases hzero : x.db.depth = 0
      · exact .stay (.inr hzero) (.inl hwr)
      · exact .pop hrd hwr hzero
  | false =>
      cases hwr : x.db.wr i with
      | false => exact .stay (.inl hrd) (.inl hwr)
      | true =>
          by_cases hfull : x.db.depth = size
          · exact .stay (.inl hrd) (.inr hfull)
          · exact .push hwr hrd (by omega)

/-- The depth and the pointers of each move. -/
theorem pointers_pop (hclear : clears i = false) (hrd : x.db.rd i = true)
    (hwr : x.db.wr i = false) (hne : x.db.depth ≠ 0) :
    x.db.nextDepth i = x.db.depth - 1 ∧ x.db.nextRdPtr i = Ring.succ cells x.db.rdPtr ∧
      x.db.nextWrPtr i = x.db.wrPtr := by
  have hempty : x.db.empty = false := beq_eq_false_iff_ne.mpr hne
  have hpop : x.db.pops i = true := by
    unfold Rhdb.pops
    rw [hrd, hwr, hempty]
    rfl
  unfold Rhdb.nextDepth Rhdb.nextRdPtr Rhdb.nextWrPtr
  rw [hclear, hpop]
  exact ⟨rfl, rfl, rfl⟩

theorem pointers_push (hclear : clears i = false) (hwr : x.db.wr i = true)
    (hrd : x.db.rd i = false) (hlt : x.db.depth < size) :
    x.db.nextDepth i = x.db.depth + 1 ∧ x.db.nextRdPtr i = x.db.rdPtr ∧
      x.db.nextWrPtr i = Ring.succ cells x.db.wrPtr := by
  have hfull : x.db.full = false := beq_eq_false_iff_ne.mpr (Nat.ne_of_lt hlt)
  have hpop : x.db.pops i = false := by
    unfold Rhdb.pops
    rw [hrd]
    rfl
  have hpush : x.db.pushes i = true := by
    unfold Rhdb.pushes
    rw [hrd, hwr, hfull]
    rfl
  unfold Rhdb.nextDepth Rhdb.nextRdPtr Rhdb.nextWrPtr
  rw [hclear, hpop, hpush]
  exact ⟨rfl, rfl, rfl⟩

theorem pointers_stay (hclear : clears i = false) (hpop : x.db.rd i = false ∨ x.db.depth = 0)
    (hpush : x.db.wr i = false ∨ x.db.depth = size) :
    x.db.nextDepth i = x.db.depth ∧ x.db.nextRdPtr i = x.db.rdPtr ∧
      x.db.nextWrPtr i = x.db.wrPtr := by
  have hpop : x.db.pops i = false := by
    unfold Rhdb.pops Rhdb.empty
    rcases hpop with hrd | hzero
    · rw [hrd]
      rfl
    · rw [hzero, beq_self_eq_true, Bool.not_true, Bool.and_false]
  have hpush : x.db.pushes i = false := by
    unfold Rhdb.pushes Rhdb.full
    rcases hpush with hwr | hfull
    · rw [hwr]
      rfl
    · rw [hfull, beq_self_eq_true, Bool.not_true, Bool.and_false]
  unfold Rhdb.nextDepth Rhdb.nextRdPtr Rhdb.nextWrPtr
  rw [hclear, hpop, hpush]
  exact ⟨rfl, rfl, rfl⟩

/-- At the end of a write the cells stay, and its word is at the write pointer. -/
theorem mem_of_wr (h : x.Sound) (hlegal : x.Legal i) (hclear : clears i = false)
    (hwr : x.db.wr i = true) (hlt : x.db.depth < size) :
    x.db.nextMem i = x.db.mem ∧ x.db.mem x.db.wrPtr = x.written := by
  have hfull : x.db.full = false := beq_eq_false_iff_ne.mpr (Nat.ne_of_lt hlt)
  have htorn := hlegal.room hclear hwr hfull
  unfold Rhdb.wr at hwr
  rw [Bool.and_eq_true, Bool.not_eq_true'] at hwr
  refine ⟨?_, h.written hwr.2 htorn⟩
  unfold Rhdb.nextMem
  rw [hwr.1]
  rfl

theorem queue_next (hrst : i.rst = false) (hclear : clears i = false) : (x.next i).queue =
    Silo.after size x.queue (x.db.rd i) (if x.db.wr i then some x.written else none) := by
  show (if i.rst || clears i then _ else _) = _
  rw [hrst, hclear]
  rfl

/-- The silo goes with the queue. -/
theorem held_next (h : x.Sound) (hlegal : x.Legal i) (hrst : i.rst = false)
    (hclear : clears i = false) : (x.next i).db.held = (x.next i).queue := by
  have hlen := h.length
  have hsize : x.db.depth < cells := Nat.lt_of_le_of_lt h.depth (by decide)
  rw [queue_next hrst hclear, next_of_run hrst, ← h.held]
  unfold Silo.after
  rw [h.held, hlen, ← h.held]
  show Ring.contents cells (x.db.nextMem i) (x.db.nextRdPtr i) (x.db.nextDepth i) = _
  cases h.move hlegal hclear with
  | pop hrd hwr hne =>
      obtain ⟨hdepth, hrdPtr, -⟩ := pointers_pop hclear hrd hwr hne
      obtain ⟨d, hd⟩ := Nat.exists_eq_succ_of_ne_zero hne
      have hold := held_nextMem (i := i) h
      rw [hd, Ring.contents_succ] at hold
      rw [hdepth, hrdPtr, hrd, hwr, ← hold, hd]
      simp
  | push hwr hrd hlt =>
      obtain ⟨hdepth, hrdPtr, -⟩ := pointers_push hclear hwr hrd hlt
      obtain ⟨hmem, hword⟩ := mem_of_wr h hlegal hclear hwr hlt
      have hpush := Ring.contents_push x.db.mem (x.db.mem x.db.wrPtr) h.rdPtr hsize
      rw [← h.wrPtr, Function.update_eq_self, hword] at hpush
      rw [hdepth, hrdPtr, hmem, hpush, hrd, hwr, if_neg Bool.false_ne_true, if_pos rfl, if_pos hlt]
      rfl
  | stay hpop hpush =>
      obtain ⟨hdepth, hrdPtr, -⟩ := pointers_stay hclear hpop hpush
      have hread : (if x.db.rd i then x.db.held.tail else x.db.held) = x.db.held := by
        rcases hpop with hrd | hzero
        · rw [hrd, if_neg Bool.false_ne_true]
        · have hnil : x.db.held = [] := by
            unfold Rhdb.held
            rw [hzero]
            rfl
          rw [hnil, List.tail_nil, ite_self]
      have hwrite : (if x.db.depth < size then
          (if x.db.wr i then some x.written else none).toList else []) = [] := by
        rcases hpush with hwr | hfull
        · rw [hwr, if_neg Bool.false_ne_true]
          exact ite_self _
        · rw [hfull, if_neg (Nat.lt_irrefl _)]
      rw [hdepth, hrdPtr, held_nextMem h, hread, hwrite, List.append_nil]

/-- The pointers stay around the contents. -/
theorem pointers_next (h : x.Sound) (hlegal : x.Legal i) (hclear : clears i = false) :
    x.db.nextDepth i ≤ size ∧ x.db.nextRdPtr i < cells ∧
      x.db.nextWrPtr i = Ring.slot cells (x.db.nextRdPtr i) (x.db.nextDepth i) := by
  have hle := h.depth
  cases h.move hlegal hclear with
  | pop hrd hwr hne =>
      obtain ⟨hdepth, hrdPtr, hwrPtr⟩ := pointers_pop hclear hrd hwr hne
      obtain ⟨d, hd⟩ := Nat.exists_eq_succ_of_ne_zero hne
      rw [hdepth, hrdPtr, hwrPtr, h.wrPtr, hd, Ring.slot_succ h.rdPtr]
      refine ⟨?_, Ring.succ_lt h.rdPtr, rfl⟩
      omega
  | push hwr hrd hlt =>
      obtain ⟨hdepth, hrdPtr, hwrPtr⟩ := pointers_push hclear hwr hrd hlt
      rw [hdepth, hrdPtr, hwrPtr, h.wrPtr]
      exact ⟨hlt, h.rdPtr, Ring.succ_slot (by decide)⟩
  | stay hpop hpush =>
      obtain ⟨hdepth, hrdPtr, hwrPtr⟩ := pointers_stay hclear hpop hpush
      rw [hdepth, hrdPtr, hwrPtr]
      exact ⟨hle, h.rdPtr, h.wrPtr⟩

/-- Without the end of a read the oldest word stays. -/
theorem head_next (hrst : i.rst = false) (hclear : clears i = false) (hrd : x.db.rd i = false)
    {word : BitVec 16} (hhead : x.queue.head? = some word) :
    (x.next i).queue.head? = some word := by
  rw [queue_next hrst hclear, hrd]
  unfold Silo.after
  rw [if_neg Bool.false_ne_true, List.head?_append, hhead]
  rfl

/-- A silo with words that is not read gives the oldest one to the output. -/
theorem fresh_next (h : x.Sound) (hlegal : x.Legal i) (hrst : i.rst = false)
    (hclear : clears i = false) (hfresh : (x.next i).fresh = true) :
    (x.next i).queue.head? = some (x.next i).db.rhDB := by
  have hboth : (!(i.rst || clears i) && !x.db.empty && !x.db.pops i) = true := hfresh
  rw [hrst, hclear, Bool.and_eq_true, Bool.and_eq_true, Bool.not_eq_true', Bool.not_eq_true']
    at hboth
  obtain ⟨⟨-, hempty⟩, hpop⟩ := hboth
  have hne : x.db.depth ≠ 0 := beq_eq_false_iff_ne.mp hempty
  have hrd : x.db.rd i = false := by
    cases h.move hlegal hclear with
    | pop hrd hwr hne =>
        unfold Rhdb.pops at hpop
        rw [hrd, hwr, hempty] at hpop
        cases hpop
    | push hwr hrd hlt => exact hrd
    | stay hpop hpush => exact hpop.resolve_right hne
  have hhead : x.queue.head? = some (x.db.mem x.db.rdPtr) := by
    obtain ⟨d, hd⟩ := Nat.exists_eq_succ_of_ne_zero hne
    rw [← h.held]
    unfold Rhdb.held
    rw [hd]
    rfl
  rw [next_of_run hrst]
  exact head_next hrst hclear hrd hhead

/-- The word on the bus of a write that has room is at the write pointer. -/
theorem written_next (hrst : i.rst = false) (hwrite : i.rhdbWRITE = true)
    (htorn : (x.next i).torn = false) :
    (x.next i).db.mem (x.next i).db.wrPtr = (x.next i).written := by
  have hwr : x.db.wr i = false := by
    unfold Rhdb.wr
    rw [hwrite]
    rfl
  have hpush : x.db.pushes i = false := by
    unfold Rhdb.pushes
    rw [hwr]
    rfl
  have hroom : (x.db.full || clears i && x.db.wrPtr != 0) = false := by
    have hif : (if i.rhdbWRITE then x.db.full || clears i && x.db.wrPtr != 0 else x.torn) = false :=
      htorn
    rwa [if_pos hwrite] at hif
  rw [Bool.or_eq_false_iff] at hroom
  have hptr : x.db.nextWrPtr i = x.db.wrPtr := by
    unfold Rhdb.nextWrPtr
    rw [hpush]
    cases hclear : clears i with
    | true =>
        have hzero := hroom.2
        rw [hclear, Bool.true_and, bne_eq_false_iff_eq] at hzero
        exact hzero.symm
    | false => exact ite_self _
  have hword : (x.next i).written = rhDATAI i := if_pos hwrite
  rw [next_of_run hrst, hword]
  show x.db.nextMem i (x.db.nextWrPtr i) = _
  rw [hptr]
  unfold Rhdb.nextMem
  rw [hwrite, hroom.1]
  exact Function.update_self _ _ _

/-- A silo without words. -/
theorem sound_of_empty {y : RhdbRun} (hqueue : y.queue = []) (hdepth : y.db.depth = 0)
    (hrdPtr : y.db.rdPtr = 0) (hwrPtr : y.db.wrPtr = 0) (hfresh : y.fresh = false)
    (hwritten : y.db.lastWrite = true → y.torn = false → y.db.mem y.db.wrPtr = y.written) :
    y.Sound where
  held := by
    unfold Rhdb.held
    rw [hqueue, hdepth]
    rfl
  depth := by
    rw [hdepth]
    exact Nat.zero_le _
  rdPtr := by
    rw [hrdPtr]
    decide
  wrPtr := by
    rw [hdepth, hrdPtr, hwrPtr]
    rfl
  fresh h := by
    rw [hfresh] at h
    cases h
  written := hwritten
  shown _ _ := .inl hqueue

theorem AfterReset.sound (h : x.AfterReset) : x.Sound := by
  refine sound_of_empty h.queue ?_ ?_ ?_ h.fresh ?_
  · rw [h.db]
    rfl
  · rw [h.db]
    rfl
  · rw [h.db]
    rfl
  · intro hlast
    rw [h.db] at hlast
    cases hlast

theorem Sound.clock (h : x.Sound) (hlegal : x.Legal i) (hrst : i.rst = false)
    (hclear : clears i = false) : (x.next i).Sound := by
  have hdb := RhdbRun.next_of_run (x := x) hrst
  obtain ⟨hdepth, hrdPtr, hwrPtr⟩ := pointers_next h hlegal hclear
  refine ⟨held_next h hlegal hrst hclear, ?_, ?_, ?_, fresh_next h hlegal hrst hclear, ?_, ?_⟩
  · rw [hdb]
    exact hdepth
  · rw [hdb]
    exact hrdPtr
  · rw [hdb]
    exact hwrPtr
  · intro hlast htorn
    rw [hdb] at hlast
    exact written_next hrst hlast htorn
  · intro hlast hstale
    rw [hdb] at hlast
    have hread : i.rhdbREAD = true := hlast
    have hrd : x.db.rd i = false := by
      unfold Rhdb.rd
      rw [hread]
      rfl
    have hfresh : x.fresh = true := by
      have hif : (if i.rhdbREAD then !x.fresh else x.stale) = false := hstale
      rw [if_pos hread] at hif
      simpa using hif
    have hshown : (x.next i).shown = x.db.rhDB := if_pos hread
    rw [hshown]
    exact .inr (head_next hrst hclear hrd (h.fresh hfresh))

/-- A clear makes the silo empty. -/
theorem sound_of_clear (hrst : i.rst = false) (hclear : clears i = true) : (x.next i).Sound := by
  have hdb := RhdbRun.next_of_run (x := x) hrst
  refine sound_of_empty ?_ ?_ ?_ ?_ ?_ ?_
  · show (if i.rst || clears i then _ else _) = _
    rw [hrst, hclear]
    rfl
  · rw [hdb]
    exact if_pos hclear
  · rw [hdb]
    exact if_pos hclear
  · rw [hdb]
    exact if_pos hclear
  · show (!(i.rst || clears i) && _ && _) = false
    rw [hrst, hclear]
    rfl
  · intro hlast htorn
    rw [hdb] at hlast
    exact written_next hrst hlast htorn

theorem sound_of_rst (hrst : i.rst = true) : (x.next i).Sound := by
  have hdb : (x.next i).db = x.db.reset := if_pos hrst
  refine AfterReset.sound ⟨?_, ?_, ?_⟩
  · rw [hdb]
    rfl
  · show (if i.rst || clears i then _ else _) = _
    rw [hrst]
    rfl
  · show (!(i.rst || clears i) && _ && _) = false
    rw [hrst]
    rfl

/-- Every clock that meets the condition keeps the silo sound. -/
theorem Sound.next (h : x.Sound) (hlegal : x.Legal i) : (x.next i).Sound := by
  cases hrst : i.rst with
  | true => exact sound_of_rst hrst
  | false =>
      cases hclear : clears i with
      | true => exact sound_of_clear hrst hclear
      | false => exact h.clock hlegal hrst hclear

/-! ## Runs -/

theorem silo_refines {i : Nat → In} {t : Nat} (hreset : x.AfterReset)
    (hlegal : ∀ u, u ≤ t → (run next x i u).Legal (i u)) : (run next x i t).Refines (i t) :=
  (run_invariant_of (P := Sound) (C := Legal) hreset.sound
    (fun _ _ hclock hsound => hsound.next hclock)
    fun u hu => hlegal u (Nat.le_of_lt hu)).refines (hlegal t (Nat.le_refl t))

def afterReset : RhdbRun where
  db :=
    { lastRead := false, lastWrite := false, depth := 0, rdPtr := 0, wrPtr := 0,
      mem := fun _ => 0, rhDB := 0 }
  queue := []
  shown := 0
  written := 0
  fresh := false
  stale := false
  torn := false

/-- Reads and writes at the clocks of two lists. -/
def accesses (reads writes : List Nat) (t : Nat) : In where
  rst := false
  devRESET := false
  devDATAI := BitVec.ofNat 36 (t + 1)
  rhCLRGO := false
  rhCLRTRE := false
  rhCLR := false
  rhdbREAD := reads.contains t
  rhdbWRITE := writes.contains t

theorem refines_run_two :
    (run next afterReset (accesses [6, 7, 8] [0, 1, 3, 4]) 9).queue = [2, 5] ∧
      (run next afterReset (accesses [6, 7, 8] [0, 1, 3, 4]) 9).Refines
        (accesses [6, 7, 8] [0, 1, 3, 4] 9) :=
  ⟨by decide +kernel, silo_refines ⟨rfl, rfl, rfl⟩ (by decide +kernel)⟩

/-- A read and a write that end at one clock are both lost. -/
theorem refines_fails :
    (run next afterReset (accesses [5, 6] [0, 1, 5, 6]) 8).queue = [7] ∧
      (run next afterReset (accesses [5, 6] [0, 1, 5, 6]) 8).db.held = [2] ∧
      ¬ (run next afterReset (accesses [5, 6] [0, 1, 5, 6]) 8).Refines
        (accesses [5, 6] [0, 1, 5, 6] 8) := by
  have hqueue : (run next afterReset (accesses [5, 6] [0, 1, 5, 6]) 8).queue = [7] := by
    decide +kernel
  have hheld : (run next afterReset (accesses [5, 6] [0, 1, 5, 6]) 8).db.held = [2] := by
    decide +kernel
  refine ⟨hqueue, hheld, fun h => ?_⟩
  have heq := h.held
  rw [hqueue, hheld] at heq
  cases heq

end RhdbRun

end KS10
