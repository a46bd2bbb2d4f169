import KS10.Bus.Memory
import KS10.Cpu.PageCheck
import KS10.Cpu.RamFile

/-!
# What a page failure leaves behind

A page failure is raised in the microword after the one that started the cycle.  By
then the reference is in the VMA register, and the bus request, the write strobe of the
memory and the write enable of the RAMFILE are decoded from its flags.  The failure keeps
the flags from being loaded by its own microword, but it does not clear them: they stay
until the page fail handler starts a cycle of its own.

A failing read leaves nothing behind.  A failing write writes at every clock up to there:
at the physical page that the translation registers hold, or at an AC if the handler
clears the address first.
-/

namespace KS10

open Clocked Microword Mmu

namespace PageFault

/-! ## What is to be shown -/

/-- The registers of the memory management along the run. -/
def mmuAt (s : Mmu) (i : Nat → RamFile.In) (t : Nat) : Mmu :=
  Mmu.mmuAt s (fun u => (i u).toIn) t

/-- A memory reference raises a page failure. -/
def referenceFails (s : Mmu) (i : Mmu.In) : Bool :=
  !i.rst && !s.vmaReg.io &&
    [some 0o10, some 0o11, some 0o12, some 0o13].contains (s.dispatch i)

/-- From clock `f` up to clock `t` there was no reset, and no cycle was started. -/
structure Handling (s : Mmu) (i : Nat → RamFile.In) (f t : Nat) : Prop where
  le : f ≤ t
  quiet : ∀ u, f ≤ u → u ≤ t → (i u).rst = false
  none : ∀ u, f ≤ u → u < t → (mmuAt s i u).startsCycle (i u).toIn = false

/-- The lines of the arbiter: the processor drives its own, and the rest is given. -/
def lines (s : Mmu) (i : Mmu.In) (others : Arb.In) : Arb.In :=
  { others with
    cpuReqI := s.cpuReqO
    cpuAddrI := s.cpuAddrO i
    cpuDataI := i.dp }

/-- Nobody else uses the bus. -/
def idle : Arb.In where
  cslReqI := false
  ubaReqI := fun _ => false
  cpuReqI := false
  cslAckI := false
  cslAddrI := 0
  cslDataI := 0
  cpuAddrI := 0
  cpuDataI := 0
  ubaAckI := fun _ => false
  ubaAddrI := fun _ => 0
  ubaDataI := fun _ => 0
  memAckI := false
  memDataI := 0

def memIn (s : Mmu) (i : Mmu.In) (others : Arb.In) : Mem.In where
  rst := i.rst
  busAddrI := Arb.memAddrO (lines s i others)
  busDataI := Arb.memDataO (lines s i others)

/-- While the processor has the bus, the memory stays as it is, whatever it holds. -/
def SparesMemory (s : Mmu) (i : Mmu.In) : Prop :=
  ∀ others : Arb.In, Arb.grant (lines s i others).toReqs = .cpu →
    ∀ m : Mem, (m.next (memIn s i others)).ssram = m.ssram

/-- Unless the microword asks for a write, the RAMFILE stays as it is, whatever it
holds. -/
def SparesRamFile (s : Mmu) (i : RamFile.In) : Prop :=
  cromFmWrite i.crom = false → ∀ ram rdAddr,
    (RamFile.next { mmu := s, ram := ram, rdAddr := rdAddr } i).ram = ram

/-- Nothing is written for a reference that has failed. -/
def NoSideEffects (s : Mmu) (i : Nat → RamFile.In) : Prop :=
  ∀ f t, referenceFails (mmuAt s i f) (i f).toIn = true → Handling s i f t →
    SparesMemory (mmuAt s i t) (i t).toIn ∧ SparesRamFile (mmuAt s i t) (i t)

/-! ## The write flag -/

section Step

variable {s : Mmu} {i : Mmu.In} {others : Arb.In}

theorem loadVma_write (vma : VmaReg) : (loadVma vma i).write = vma.write := by
  unfold loadVma
  cases cromMemDpFunc i.crom with
  | true => rfl
  | false => rfl

theorem loadMem_write (vma vma' : VmaReg) : (loadMem vma i).write = (loadMem vma' i).write := by
  unfold loadMem
  cases cromMemAread i.crom with
  | true => rfl
  | false =>
      cases cromMemDpFunc i.crom with
      | true => rfl
      | false => rfl

/-- Only the start of a write cycle sets the write flag. -/
theorem write_of_not_startsCycle (h : s.vmaReg.write = false) (hno : s.startsCycle i = false) :
    (s.next i).vmaReg.write = false := by
  have hnext : (s.next i).vmaReg = s.nextVma i := rfl
  rw [hnext, nextVma]
  cases hrst : i.rst with
  | true => rfl
  | false =>
      cases hload : (i.clken && memEn i && !s.pageFail i) with
      | true =>
          rw [startsCycle, hrst, Bool.not_false, Bool.true_and, hload, Bool.true_and,
            Bool.or_eq_false_iff] at hno
          simp only [Bool.false_eq_true, if_false, if_true]
          rw [loadMem_write _ s.vmaReg]
          exact hno.2
      | false =>
          simp only [Bool.false_eq_true, if_false]
          cases s.loads i with
          | true => exact (loadVma_write s.vmaReg).trans h
          | false => exact h

/-- Bits 0 to 13 of the address that the processor drives are the flags. -/
theorem bit_cpuAddrO {k : Nat} (hk : k < 14) : bit (s.cpuAddrO i) k = bit s.vmaReg.flags k := by
  have hleft {a b : Nat} (x : BitVec a) (y : BitVec b) (ha : k < a) :
      bit (x ++ y) k = bit x k := by
    rw [bit_append, if_neg (Nat.not_le.mpr ha)]
  unfold cpuAddrO
  cases s.pagedRef i with
  | true =>
      rw [if_pos rfl, hleft _ _ (by omega), hleft _ _ (by omega), hleft _ _ hk]
  | false =>
      cases s.vmaReg.wru with
      | true =>
          simp only [Bool.false_eq_true, if_false, if_true]
          rw [hleft _ _ (by omega), hleft _ _ (by omega), hleft _ _ hk]
      | false =>
          cases s.vmaReg.extd with
          | true =>
              simp only [Bool.false_eq_true, if_false, if_true]
              rw [hleft _ _ hk]
          | false =>
              simp only [Bool.false_eq_true, if_false]
              rw [hleft _ _ (by omega), hleft _ _ hk]

theorem bit_flags_write (vma : VmaReg) : bit vma.flags 5 = vma.write :=
  BitVec.getMsbD_ofBoolListBE

theorem bit_flags_io (vma : VmaReg) : bit vma.flags 10 = vma.io :=
  BitVec.getMsbD_ofBoolListBE

/-- With the bus, the processor writes what its flags say. -/
theorem memWrite_memIn (hcpu : Arb.grant (lines s i others).toReqs = .cpu) :
    Mem.memWrite (memIn s i others) = (s.vmaReg.write && !s.vmaReg.io) := by
  have haddr : (memIn s i others).busAddrI = s.cpuAddrO i := by
    rw [memIn, Arb.memAddrO, hcpu]
    rfl
  rw [Mem.memWrite, Mem.busWrite, Mem.busIo, haddr, bit_cpuAddrO (by decide),
    bit_cpuAddrO (by decide), bit_flags_write, bit_flags_io]

/-- Without its write flag a reference writes nowhere. -/
theorem spares_of_not_write (h : s.vmaReg.write = false) : SparesMemory s i := by
  intro others hcpu
  rw [Mem.spares_iff, memWrite_memIn hcpu, h]
  rfl

theorem sparesRamFile_of_not_write {i : RamFile.In} (hrst : i.rst = false)
    (h : s.vmaReg.write = false) : SparesRamFile s i := by
  intro hfm ram rdAddr
  refine Write.apply_of_disabled ?_
  rw [RamFile.port, RamFile.vmaReg, hrst, RamFile.acWrite, hfm]
  simp [h]

/-- A memory reference that fails is translated, so that it goes to the memory. -/
theorem translated_of_fails (h : referenceFails s i = true) :
    i.rst = false ∧ s.vmaReg.io = false ∧ s.translated i = true := by
  simp only [referenceFails, Bool.and_eq_true, Bool.not_eq_true'] at h
  obtain ⟨⟨hrst, hio⟩, hcode⟩ := h
  refine ⟨hrst, hio, ?_⟩
  by_contra hno
  rw [Bool.not_eq_true] at hno
  -- Without a translation only the interrupts are left.
  have hdispatch :
      s.dispatch i = some 0o05 ∨ s.dispatch i = some 0o01 ∨ s.dispatch i = none := by
    simp only [dispatch, pageInvalid, pageMismatch, pageWriteFail, hno, Bool.false_and,
      Bool.and_false]
    cases s.intrEn && i.nxmIntr with
    | true => exact Or.inl rfl
    | false =>
        cases s.intrEn && i.piIntr with
        | true => exact Or.inr (Or.inl rfl)
        | false =>
            cases s.intrEn && i.timerIntr with
            | true => exact Or.inr (Or.inl rfl)
            | false => exact Or.inr (Or.inr rfl)
  rcases hdispatch with hd | hd | hd
  all_goals
    rw [hd] at hcode
    revert hcode
    decide

/-- When it has the bus, a reference that fails on a write writes at once. -/
theorem not_sparesMemory (h : referenceFails s i = true) (hwrite : s.vmaReg.write = true) :
    ¬ SparesMemory s i := by
  obtain ⟨-, hio, htrans⟩ := translated_of_fails h
  have hac : s.vmaReg.acRef = false := by
    simp only [translated, Bool.and_eq_true, Bool.not_eq_true'] at htrans
    exact htrans.2
  have hreq : s.cpuReqO = true := by
    simp [cpuReqO, hwrite, hac]
  have hcpu : Arb.grant (lines s i idle).toReqs = .cpu := by
    have hlines : (lines s i idle).toReqs = { idle.toReqs with cpuReqI := true } := by
      rw [← hreq]
      rfl
    rw [hlines]
    rfl
  intro hspares
  have hnone := Mem.spares_iff.mp (hspares idle hcpu)
  rw [memWrite_memIn hcpu, hwrite, hio] at hnone
  cases hnone

end Step

/-! ## Page fail handling -/

section Run

variable {s : Mmu} {i : Nat → RamFile.In} {f t : Nat}

theorem Handling.here (h : (i f).rst = false) : Handling s i f f :=
  ⟨Nat.le_refl f, fun _ hfu huf => Nat.le_antisymm hfu huf ▸ h,
    fun _ hfu huf => absurd huf (Nat.not_lt.mpr hfu)⟩

/-- A write flag that is clear at the failure stays clear. -/
theorem Handling.write (h : Handling s i f t) (hclear : (mmuAt s i f).vmaReg.write = false) :
    (mmuAt s i t).vmaReg.write = false := by
  refine stays_until (P := fun u => (mmuAt s i u).vmaReg.write = false)
    (C := fun u => f ≤ u ∧ u < t) (fun u hu hC => ?_) hclear h.le fun u hfu hut => ⟨hfu, hut⟩
  exact write_of_not_startsCycle hu (h.none u hC.1 hC.2)

end Run

/-- Page failures have no side effects in exactly those runs in which no reference fails
whose write flag is set. -/
theorem noSideEffects_iff (s : Mmu) (i : Nat → RamFile.In) : NoSideEffects s i ↔
    ∀ f, referenceFails (mmuAt s i f) (i f).toIn = true →
      (mmuAt s i f).vmaReg.write = false := by
  constructor
  · intro h f hfails
    rw [← Bool.not_eq_true]
    intro hwrite
    have hrst : (i f).rst = false := (translated_of_fails hfails).1
    exact not_sparesMemory hfails hwrite (h f f hfails (Handling.here hrst)).1
  · intro h f t hfails hhandling
    have hwrite : (mmuAt s i t).vmaReg.write = false := hhandling.write (h f hfails)
    have hrst : (i t).rst = false := hhandling.quiet t hhandling.le (Nat.le_refl t)
    exact ⟨spares_of_not_write hwrite, sparesRamFile_of_not_write hrst hwrite⟩

/-! ## A write to a page that is not mapped

The first microword starts a write to page 1.  The next one is executed with the page
failure, and writes what is on the datapath to physical page 0. -/

def writeUnmapped : Nat → RamFile.In
  | 0 => { (default : RamFile.In) with toIn := pagedIn [76, 104, 106, 94, 95] 1 }
  | _ => { (default : RamFile.In) with toIn := pagedIn [] 0 }

theorem noSideEffects_fails : ¬ ∀ s i, NoSideEffects s i := by
  intro h
  have hfails :
      referenceFails (mmuAt pagedStart writeUnmapped 1) (writeUnmapped 1).toIn = true := by
    decide
  exact not_sparesMemory hfails (by decide)
    (h pagedStart writeUnmapped 1 1 hfails (Handling.here rfl)).1

end PageFault

end KS10
