import KS10.Cpu.Mmu

/-!
# Do the translation registers follow the VMA register?

The pager absorbs the VMA register into the read address of the page table: the
translation registers are meant to hold the page table entry of the page in the
VMA register (`Mmu.InStep`).

They do at a reference when the last lookup was for the page that is now in the
VMA register and the entry was not written since (`Mmu.LookedUp`,
`Mmu.inStep_of_lookedUp`).  Three kinds of clock break that.  A page failure
inhibits the load of the VMA register and not the lookup; a cache sweep loads the
VMA register and looks nothing up; and a page table write or sweep leaves the
translation registers alone, also when it hits the entry they hold.  The microcode
has to load the VMA register again before the next reference in each case.
-/

namespace KS10

open Clocked Microword

namespace Mmu

/-- The registers after `t` clocks. -/
def mmuAt (s : Mmu) (i : Nat → In) (t : Nat) : Mmu := run next s i t

/-! ## What is to be shown -/

/-- The translation registers hold the page table entry of the page in the VMA
register. -/
def InStep (s : Mmu) : Prop := s.entry = s.pageTable s.vmaReg.page

/-- The page table entry `p` is written at this clock. -/
def writesEntry (s : Mmu) (i : In) (p : BitVec 9) : Bool :=
  s.writesTable i && if s.pageSweep then samePair p s.vmaReg.page else p == s.vmaReg.page

/-- An entry changes only when it is written. -/
theorem nextTable_of_not_writesEntry {s : Mmu} {i : In} {p : BitVec 9}
    (h : s.writesEntry i p = false) : (next s i).pageTable p = s.pageTable p := by
  have htable : (next s i).pageTable p = s.nextTable i p := rfl
  rw [htable, nextTable]
  rw [writesEntry] at h
  cases hw : s.writesTable i with
  | false => rfl
  | true =>
      rw [hw, Bool.true_and] at h
      cases hs : s.pageSweep with
      | false =>
          rw [hs] at h
          have hne : p ≠ s.vmaReg.page := by simpa using h
          simp [Function.update_of_ne hne]
      | true =>
          rw [hs, if_pos rfl] at h
          simp [h]

/-- The translation registers are one register of two parts. -/
theorem entry_next (s : Mmu) (i : In) : (next s i).entry = s.nextEntry i :=
  field_append (a := 3) (b := 10) (s.nextEntry i)

theorem entry_next_of_looksUp {s : Mmu} {i : In} (h : looksUp i = true) :
    (next s i).entry = s.pageTable (dpPage i.dp) := by
  rw [entry_next, nextEntry, h, if_pos rfl]

theorem entry_next_of_not_looksUp {s : Mmu} {i : In} (h : looksUp i = false) :
    (next s i).entry = s.entry := by
  rw [entry_next, nextEntry, h]
  rfl

/-- Without the clock enable only the bus module's own register moves. -/
theorem next_of_disabled {s : Mmu} {i : In} (hclk : i.clken = false) (hrst : i.rst = false) :
    next s i = { s with addr3666 := cromJ i.crom == 0o3726 } := by
  have hentry : s.nextEntry i = s.pageFlags ++ s.pageAddr := by
    simp [nextEntry, looksUp, entry, hclk]
  have hflags : field (s.pageFlags ++ s.pageAddr) 0 3 = s.pageFlags :=
    field_left s.pageFlags s.pageAddr
  have haddr : field (s.pageFlags ++ s.pageAddr) 4 14 = s.pageAddr :=
    field_right s.pageFlags s.pageAddr
  simp [next, nextVma, loads, nextTable, writesTable, nextPfEn, nextIntrEn, nextDispPf, hclk,
    hrst, hentry, hflags, haddr]

/-! ## Runs -/

section Run

variable {s : Mmu} {i : Nat → In}

/-- The last lookup before clock `t` was for the page now in the VMA register, and
its entry has not been written since. -/
structure LookedUp (s : Mmu) (i : Nat → In) (t u : Nat) : Prop where
  before : u < t
  lookup : looksUp (i u) = true
  page : dpPage (i u).dp = (mmuAt s i t).vmaReg.page
  last : ∀ v, u < v → v < t → looksUp (i v) = false
  kept : ∀ v, u ≤ v → v < t → (mmuAt s i v).writesEntry (i v) (dpPage (i u).dp) = false

theorem entry_run {u n : Nat} (hlookup : looksUp (i u) = true)
    (hlast : ∀ v, u < v → v < u + 1 + n → looksUp (i v) = false) :
    (mmuAt s i (u + 1 + n)).entry = (mmuAt s i u).pageTable (dpPage (i u).dp) := by
  induction n with
  | zero => exact entry_next_of_looksUp hlookup
  | succ n ih =>
      have hprev := ih fun v hu hv => hlast v hu (by omega)
      rw [← hprev]
      exact entry_next_of_not_looksUp (hlast (u + 1 + n) (by omega) (by omega))

theorem pageTable_run {u n : Nat} {p : BitVec 9}
    (hkept : ∀ v, u ≤ v → v < u + n → (mmuAt s i v).writesEntry (i v) p = false) :
    (mmuAt s i (u + n)).pageTable p = (mmuAt s i u).pageTable p := by
  induction n with
  | zero => rfl
  | succ n ih =>
      have hprev := ih fun v hu hv => hkept v hu (by omega)
      rw [← hprev]
      exact nextTable_of_not_writesEntry (hkept (u + n) (by omega) (by omega))

theorem inStep_of_lookedUp {t u : Nat} (h : LookedUp s i t u) : (mmuAt s i t).InStep := by
  obtain ⟨n, rfl⟩ : ∃ n, t = u + 1 + n := ⟨t - (u + 1), by have := h.before; omega⟩
  have hentry := entry_run (s := s) h.lookup fun v hu hv => h.last v hu hv
  have htable : (mmuAt s i (u + 1 + n)).pageTable (dpPage (i u).dp) =
      (mmuAt s i u).pageTable (dpPage (i u).dp) := by
    rw [Nat.add_assoc]
    exact pageTable_run fun v hu hv => h.kept v hu (by omega)
  rw [InStep, hentry, ← h.page, htable]

end Run

/-! ## A page failure between two loads

The VMA register is loaded with an address on page 1.  The next VMA load, for an
address on page 2, is hit by an interrupt: the VMA register keeps page 1 and the
pager looks up page 2.  A memory cycle that does not load the VMA register then
sends the reference to page 1 where page 2 is. -/

/-- The microword with the bits `set` and no others. -/
def microwordOf (set : List Nat) : Microword :=
  BitVec.ofNat 108 (set.foldl (fun w k => w ||| 1 <<< (107 - k)) 0)

/-- An enabled clock of the microword with the bits `set`, with paging on and the
address of word 0 of page `page` on the datapath. -/
def pagedIn (set : List Nat) (page : Nat) : In :=
  { (default : In) with
    clken := true
    crom := microwordOf set
    dp := BitVec.ofNat 36 (page <<< 9)
    aprFlags := 0b01000000000000 }

/-- Only page 2 is mapped, to physical page 5. -/
def onlyPageTwo : BitVec 9 → BitVec 15 := fun p =>
  if p = dpPage (BitVec.ofNat 36 (2 <<< 9)) then 0b1110#4 ++ 5#11 else 0

def pagedStart : Mmu where
  vmaReg := VmaReg.zero
  pageWrite := false
  pageSweep := false
  pageTable := onlyPageTwo
  pageFlags := 0
  pageAddr := 0
  pfEn := false
  intrEn := false
  dispPf := 0
  addr3666 := false

end Mmu

end KS10
