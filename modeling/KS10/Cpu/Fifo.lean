import KS10.Clocked.Ring
import Mathlib.Algebra.Group.Nat.Defs
import Mathlib.Data.Nat.Size

/-!
# The FIFO

A queue in a ring whose size is a power of two, with a read and a write pointer that wrap and
a depth.  A read and a write of one clock that both take place move both pointers and leave
the depth.  The depth is also left when only one of them takes place, because the other finds
the queue empty or full.  Then the pointers and the depth no longer fit
(`Fifo.balanced_next_iff`).
-/

namespace KS10

open Clocked

structure Fifo (α : Type*) where
  rdAddr : Nat
  wrAddr : Nat
  depth : Nat
  mem : Nat → α
  out : α

namespace Fifo

variable {α : Type*}

/-- The inputs of FIFO at one clock. -/
structure In (α : Type*) where
  rst : Bool
  clr : Bool
  clken : Bool
  rd : Bool
  wr : Bool
  word : α

/-- The number of bits of the number below. -/
def log2 (val : Nat) : Nat := Nat.size (val - 1)

def addrWidth (size : Nat) : Nat := log2 (size - 1)

def bufsz (size : Nat) : Nat := 2 ^ addrWidth size

/-! ## One clock -/

def empty (f : Fifo α) : Bool := f.depth == 0

def full (size : Nat) (f : Fifo α) : Bool := f.depth == size - 1

def nextRdAddr (size : Nat) (f : Fifo α) (i : In α) : Nat :=
  if i.rst then 0
  else if i.clr then 0
  else if i.clken && i.rd && !f.empty then (f.rdAddr + 1) % bufsz size
  else f.rdAddr

def nextWrAddr (size : Nat) (f : Fifo α) (i : In α) : Nat :=
  if i.rst then 0
  else if i.clr then 0
  else if i.clken && i.wr && !f.full size then (f.wrAddr + 1) % bufsz size
  else f.wrAddr

/-- The depth has one bit more than the pointers. -/
def nextDepth (size : Nat) (f : Fifo α) (i : In α) : Nat :=
  if i.rst then 0
  else if i.clr then 0
  else if i.clken && i.rd && !i.wr && !f.empty then f.depth - 1
  else if i.clken && i.wr && !i.rd && !f.full size then (f.depth + 1) % 2 ^ (addrWidth size + 1)
  else f.depth

def nextMem (size : Nat) (f : Fifo α) (i : In α) : Nat → α :=
  if i.rst then f.mem
  else if i.clken && i.wr && !f.full size then Function.update f.mem f.wrAddr i.word
  else f.mem

/-- One clock of FIFO. -/
def next (size : Nat) (f : Fifo α) (i : In α) : Fifo α where
  rdAddr := f.nextRdAddr size i
  wrAddr := f.nextWrAddr size i
  depth := f.nextDepth size i
  mem := f.nextMem size i
  out := if i.rst then f.out else f.mem f.rdAddr

/-! ## The contents -/

/-- The pointers are as far apart as the depth says, around the ring. -/
def Balanced (size : Nat) (f : Fifo α) : Prop :=
  f.wrAddr = Ring.slot (bufsz size) f.rdAddr f.depth

/-- The words in the queue, the next one to be read first. -/
def contents (size : Nat) (f : Fifo α) : List α :=
  Ring.contents (bufsz size) f.mem f.rdAddr f.depth

/-- The registers of a queue that can hold `size - 1` words. -/
structure Valid (size : Nat) (f : Fifo α) : Prop where
  rdAddr : f.rdAddr < bufsz size
  depth : f.depth ≤ size - 1
  balanced : f.Balanced size

/-- A read and a write in one clock, of which only one takes place. -/
def clash (size : Nat) (f : Fifo α) (i : In α) : Bool :=
  i.rd && i.wr && (f.empty || f.full size)

variable {size : Nat} {f : Fifo α} {i : In α}

theorem length_contents (size : Nat) (f : Fifo α) : (f.contents size).length = f.depth :=
  Ring.length_contents _ _ _

theorem bufsz_pos (size : Nat) : 0 < bufsz size := Nat.two_pow_pos _

/-- The buffer has room for the words of a full queue. -/
theorem size_sub_one_le_bufsz (size : Nat) : size - 1 ≤ bufsz size := by
  have hlt : size - 1 - 1 < bufsz size := Nat.lt_size_self _
  omega

/-- What a clear leaves. -/
theorem next_of_clr (size : Nat) (hrst : i.rst = false) (hclr : i.clr = true) :
    (f.next size i).rdAddr = 0 ∧ (f.next size i).wrAddr = 0 ∧ (f.next size i).depth = 0 := by
  unfold next nextRdAddr nextWrAddr nextDepth
  rw [hrst, hclr]
  exact ⟨rfl, rfl, rfl⟩

theorem Valid.of_zero (hr : f.rdAddr = 0) (hw : f.wrAddr = 0) (hd : f.depth = 0) :
    f.Valid size := by
  refine ⟨?_, ?_, ?_⟩
  · rw [hr]
    exact bufsz_pos size
  · rw [hd]
    exact Nat.zero_le _
  · unfold Balanced
    rw [hr, hw, hd]
    exact (Ring.slot_zero (bufsz_pos size)).symm

/-- Whether a clock takes a word out, and whether it puts one in. -/
def pops (f : Fifo α) (i : In α) : Bool := i.rd && !f.empty

def pushes (size : Nat) (f : Fifo α) (i : In α) : Bool := i.wr && !f.full size

/-- Neither a reset nor a clear, and enabled. -/
structure Runs (i : In α) : Prop where
  rst : i.rst = false
  clr : i.clr = false
  clken : i.clken = true

theorem next_of_runs (h : Runs i) : f.next size i =
    { rdAddr := if f.pops i then (f.rdAddr + 1) % bufsz size else f.rdAddr
      wrAddr := if f.pushes size i then (f.wrAddr + 1) % bufsz size else f.wrAddr
      depth := f.nextDepth size i
      mem := if f.pushes size i then Function.update f.mem f.wrAddr i.word else f.mem
      out := f.mem f.rdAddr } := by
  unfold next nextRdAddr nextWrAddr nextMem pops pushes
  rw [h.rst, h.clr, h.clken]
  rfl

theorem empty_iff : f.empty = true ↔ f.depth = 0 := by
  unfold empty
  exact beq_iff_eq

theorem full_iff : f.full size = true ↔ f.depth = size - 1 := by
  unfold full
  exact beq_iff_eq

/-- A word comes in only below the bound. -/
theorem depth_lt_of_pushes (hvalid : f.Valid size) (hpush : f.pushes size i = true) :
    f.depth < size - 1 := by
  unfold pushes at hpush
  rw [Bool.and_eq_true, Bool.not_eq_true'] at hpush
  refine Nat.lt_of_le_of_ne hvalid.depth fun heq => ?_
  rw [full_iff.mpr heq] at hpush
  cases hpush.2

/-- The depth moves as it should unless a read and a write clash. -/
theorem nextDepth_of_runs (h : Runs i) (hvalid : f.Valid size)
    (hno : f.clash size i = false) :
    f.nextDepth size i + (f.pops i).toNat = f.depth + (f.pushes size i).toNat := by
  have hle := hvalid.depth
  have hroom := size_sub_one_le_bufsz size
  have hpow : 2 ^ (addrWidth size + 1) = 2 * bufsz size := by
    rw [Nat.pow_succ, Nat.mul_comm]
    rfl
  unfold clash at hno
  unfold nextDepth pops pushes
  rw [h.rst, h.clr, h.clken]
  cases hrd : i.rd <;> cases hwr : i.wr <;> cases he : f.empty <;> cases hf : f.full size <;>
    rw [hrd, hwr, he, hf] at hno <;> simp at hno ⊢
  case false.true.false.false | false.true.true.false =>
    have hlt : f.depth ≠ size - 1 := fun heq => by rw [full_iff.mpr heq] at hf; cases hf
    exact Nat.mod_eq_of_lt (by omega)
  case true.false.false.false | true.false.false.true =>
    have hpos : f.depth ≠ 0 := fun heq => by rw [empty_iff.mpr heq] at he; cases he
    omega

/-! ## Words go in and come out -/

/-- A word that goes in comes after the contents. -/
theorem contents_pushed (hvalid : f.Valid size) (word : α) :
    Ring.contents (bufsz size)
        (if f.pushes size i then Function.update f.mem f.wrAddr word else f.mem) f.rdAddr
        (f.depth + (f.pushes size i).toNat) =
      f.contents size ++ if f.pushes size i then [word] else [] := by
  cases hpush : f.pushes size i with
  | false => exact (List.append_nil _).symm
  | true =>
      have hlt := depth_lt_of_pushes hvalid hpush
      have hwr : f.wrAddr = Ring.slot (bufsz size) f.rdAddr f.depth := hvalid.balanced
      rw [if_pos rfl, if_pos rfl, hwr]
      exact Ring.contents_push f.mem word hvalid.rdAddr
        (Nat.lt_of_lt_of_le hlt (size_sub_one_le_bufsz size))

/-- A clock without a clash takes the first word out and puts a word in, as its strobes
say. -/
theorem contents_next (h : Runs i) (hvalid : f.Valid size)
    (hno : f.clash size i = false) :
    (f.next size i).contents size =
      (f.contents size ++ if f.pushes size i then [i.word] else []).drop (f.pops i).toNat := by
  have hdepth := nextDepth_of_runs h hvalid hno
  rw [← contents_pushed hvalid, next_of_runs h]
  unfold contents
  show Ring.contents (bufsz size) _ _ (f.nextDepth size i) = _
  cases hpop : f.pops i with
  | false =>
      rw [hpop] at hdepth
      rw [← hdepth]
      rfl
  | true =>
      rw [hpop] at hdepth
      rw [← hdepth, if_pos rfl, ← Ring.succ_eq_mod hvalid.rdAddr]
      rfl

theorem nextDepth_le (h : Runs i) (hvalid : f.Valid size)
    (hno : f.clash size i = false) : f.nextDepth size i ≤ size - 1 := by
  have hdepth := nextDepth_of_runs h hvalid hno
  have hle := hvalid.depth
  cases hpush : f.pushes size i with
  | false =>
      rw [hpush, Bool.toNat_false] at hdepth
      omega
  | true =>
      have hlt := depth_lt_of_pushes hvalid hpush
      rw [hpush, Bool.toNat_true] at hdepth
      omega

/-- The pointers that a clock leaves are as far apart as the words that it moves say. -/
theorem wrAddr_next (h : Runs i) (hvalid : f.Valid size) (k : Nat)
    (hk : k + (f.pops i).toNat = f.depth + (f.pushes size i).toNat) :
    (f.next size i).wrAddr = Ring.slot (bufsz size) (f.next size i).rdAddr k := by
  have hbal : f.wrAddr = Ring.slot (bufsz size) f.rdAddr f.depth := hvalid.balanced
  have hsum : (if f.pushes size i then (f.wrAddr + 1) % bufsz size else f.wrAddr) =
      Ring.slot (bufsz size) f.rdAddr (f.depth + (f.pushes size i).toNat) := by
    cases hpush : f.pushes size i with
    | false => exact hbal
    | true =>
        rw [if_pos rfl, hbal, ← Ring.succ_eq_mod (Ring.slot_lt (bufsz_pos size)),
          Ring.succ_slot (bufsz_pos size)]
        rfl
  rw [next_of_runs h]
  show (if f.pushes size i then _ else _) =
    Ring.slot (bufsz size) (if f.pops i then _ else _) k
  rw [hsum, ← hk]
  cases hpop : f.pops i with
  | false => rfl
  | true =>
      rw [if_pos rfl, ← Ring.succ_eq_mod hvalid.rdAddr, Ring.slot_succ hvalid.rdAddr]
      rfl

theorem rdAddr_next_lt (h : Runs i) (hvalid : f.Valid size) :
    (f.next size i).rdAddr < bufsz size := by
  rw [next_of_runs h]
  show (if f.pops i then _ else _) < _
  split
  · exact Nat.mod_lt _ (bufsz_pos size)
  · exact hvalid.rdAddr

theorem Valid.next (h : Runs i) (hvalid : f.Valid size)
    (hno : f.clash size i = false) : (f.next size i).Valid size where
  rdAddr := rdAddr_next_lt h hvalid
  depth := nextDepth_le h hvalid hno
  balanced := wrAddr_next h hvalid _ (nextDepth_of_runs h hvalid hno)

/-- The output shows the first word a clock after it has become the first. -/
theorem out_next (hrst : i.rst = false) (hempty : f.empty = false) :
    (f.contents size).head? = some (f.next size i).out := by
  have hpos : f.depth ≠ 0 := fun heq => by
    rw [empty_iff.mpr heq] at hempty
    cases hempty
  obtain ⟨n, hn⟩ : ∃ n, f.depth = n + 1 := ⟨f.depth - 1, by omega⟩
  unfold contents next
  rw [hn, Ring.contents_succ, hrst]
  rfl

/-! ## A read and a write that clash -/

theorem slot_succ_ne {n p k : Nat} (hn : 1 < n) : Ring.slot n p k ≠ Ring.slot n p (k + 1) := by
  have hlt : Ring.slot n p k < n := Ring.slot_lt (by omega)
  rw [← Ring.succ_slot (by omega)]
  intro heq
  have hne := Ring.slot_ne (n := n) (k := 0) hlt (by omega)
  rw [← Ring.succ_slot (by omega), Ring.slot_zero hlt] at hne
  exact hne heq

/-- The pointers and the depth fit after a clock if and only if a read and a write of that
clock both take place or neither does. -/
theorem balanced_next_iff (h : Runs i) (hvalid : f.Valid size)
    (htwo : 2 < size) : (f.next size i).Balanced size ↔ f.clash size i = false := by
  refine ⟨fun hbal => ?_, fun hno => (hvalid.next h hno).balanced⟩
  by_contra hclash
  rw [Bool.not_eq_false] at hclash
  have hbuf := size_sub_one_le_bufsz size
  have hkeeps : f.nextDepth size i = f.depth := by
    unfold clash at hclash
    rw [Bool.and_eq_true, Bool.and_eq_true] at hclash
    unfold nextDepth
    rw [h.rst, h.clr, h.clken, hclash.1.1, hclash.1.2]
    rfl
  have hbal' : (f.next size i).wrAddr =
      Ring.slot (bufsz size) (f.next size i).rdAddr f.depth := by
    have hdepth : (f.next size i).depth = f.depth := hkeeps
    rw [← hdepth]
    exact hbal
  unfold clash at hclash
  rw [Bool.and_eq_true, Bool.and_eq_true, Bool.or_eq_true, empty_iff, full_iff] at hclash
  obtain ⟨⟨hrd, hwr⟩, hedge⟩ := hclash
  rcases hedge with hempty | hfull
  · -- The write takes place, and the depth stays zero.
    have hpop : f.pops i = false := by
      unfold pops
      rw [empty_iff.mpr hempty, Bool.not_true, Bool.and_false]
    have hpush : f.pushes size i = true := by
      have hnot : f.full size = false := by
        rw [← Bool.not_eq_true, full_iff]
        omega
      unfold pushes
      rw [hwr, hnot]
      rfl
    have hone := wrAddr_next h hvalid (f.depth + 1) (by rw [hpop, hpush]; rfl)
    exact slot_succ_ne (by omega) (hbal'.symm.trans hone)
  · -- The read takes place, and the depth stays at its bound.
    have hpop : f.pops i = true := by
      have hnot : f.empty = false := by
        rw [← Bool.not_eq_true, empty_iff]
        omega
      unfold pops
      rw [hrd, hnot]
      rfl
    have hpush : f.pushes size i = false := by
      unfold pushes
      rw [full_iff.mpr hfull, Bool.not_true, Bool.and_false]
    obtain ⟨n, hn⟩ : ∃ n, f.depth = n + 1 := ⟨f.depth - 1, by omega⟩
    have hless := wrAddr_next h hvalid n (by rw [hpop, hpush, hn]; rfl)
    rw [hn] at hbal'
    exact slot_succ_ne (by omega) (hless.symm.trans hbal')

end Fifo

end KS10
