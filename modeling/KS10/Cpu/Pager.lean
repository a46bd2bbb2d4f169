import KS10.Cpu.Lockstep
import KS10.Clocked.Enable

/-!
# The two variants of the pager

The source has the pager twice.  The generic variant keeps the page table in an
array of 512 entries, with one write port for the even entries and one for the odd
ones.  The other variant keeps it in a block RAM of 18-bit words that is written two
words at a time, with byte enables.  A page table sweep clears both entries of an
even-odd pair.

The generic variant reads the array before it is written.  The block RAM is a part
that is not in the source; of its two ports we assume that a read sees the write of
the same clock (`Ramb16bwer.WriteFirst`).  So the two variants differ exactly when an
entry is looked up while it is written.
-/

namespace KS10

open Clocked Microword DromWord

/-! ## The generic variant -/

/-- The inputs of the pager at one clock. -/
structure Pager.In where
  rst : Bool
  clken : Bool
  crom : Microword
  drom : DromWord
  dp : BitVec 36
  vmaReg : VmaReg

structure Pager where
  pageWrite : Bool
  pageSweep : Bool
  pageTable : BitVec 9 → BitVec 15
  pageFlags : BitVec 4
  pageAddr : BitVec 11

namespace Pager

def specPageSweep (i : In) : Bool := spec20 i.crom 0b100

def specPageWrite (i : In) : Bool := spec10 i.crom 0b100

/-- The enable of the page lookup. -/
def vmaEn (i : In) : Bool :=
  (cromMemCycle i.crom && cromMemLoadVma i.crom)
    || (cromMemCycle i.crom && cromMemAread i.crom && dromVma i.drom)

/-- The flags and the page address of the entry on the datapath. -/
def writeData (i : In) : BitVec 15 :=
  BitVec.ofBoolListBE [bit i.dp 18, bit i.dp 21, bit i.dp 22, i.vmaReg.user]
    ++ field i.dp 25 35

/-- The page table is written at this clock.  The asynchronous reset clears the
write flag at once. -/
def writesTable (s : Pager) (i : In) : Bool := i.clken && s.pageWrite && !i.rst

def nextTable (s : Pager) (i : In) : BitVec 9 → BitVec 15 :=
  if s.writesTable i then
    if s.pageSweep then
      fun p => if samePair p i.vmaReg.page then 0 else s.pageTable p
    else Function.update s.pageTable i.vmaReg.page (writeData i)
  else s.pageTable

/-- The page table is looked up at this clock. -/
def looksUp (i : In) : Bool := i.clken && vmaEn i

/-- The entry in the output registers. -/
def entry (s : Pager) : BitVec 15 := s.pageFlags ++ s.pageAddr

def nextEntry (s : Pager) (i : In) : BitVec 15 :=
  if looksUp i then s.pageTable (dpPage i.dp) else s.entry

/-- One clock of the generic variant. -/
def next (s : Pager) (i : In) : Pager where
  pageWrite := if i.rst then false else if i.clken then specPageWrite i else s.pageWrite
  pageSweep := if i.rst then false else if i.clken then specPageSweep i else s.pageSweep
  pageTable := s.nextTable i
  pageFlags := field (s.nextEntry i) 0 3
  pageAddr := field (s.nextEntry i) 4 14

/-- The registers after `t` clocks. -/
def pagerAt (s : Pager) (i : Nat → In) (t : Nat) : Pager := run next s i t

end Pager

/-! ## The block RAM

A dual port RAM of 1024 words of 16 bits.  Port A writes the two words of a pair, each
byte with an enable of its own.  Port B reads one word. -/

structure Ramb16bwer.In where
  ena : Bool
  wea : BitVec 4
  addra : BitVec 14
  dia : BitVec 32
  enb : Bool
  addrb : BitVec 14

/-- A block RAM, by the register of its port B. -/
structure Ramb16bwer where
  State : Type
  next : State → Ramb16bwer.In → State
  dob : State → BitVec 32

namespace Ramb16bwer

/-- What port A makes of word `a`. -/
def In.written (i : In) (a : BitVec 10) (old : BitVec 16) : BitVec 16 :=
  if i.ena && field a 0 8 == field i.addra 0 8 then
    if a.getLsbD 0 then
      (if i.wea.getLsbD 3 then i.dia.extractLsb' 24 8 else old.extractLsb' 8 8) ++
        (if i.wea.getLsbD 2 then i.dia.extractLsb' 16 8 else old.extractLsb' 0 8)
    else
      (if i.wea.getLsbD 1 then i.dia.extractLsb' 8 8 else old.extractLsb' 8 8) ++
        (if i.wea.getLsbD 0 then i.dia.extractLsb' 0 8 else old.extractLsb' 0 8)
  else old

/-- The word at the output of port B. -/
def word (R : Ramb16bwer) (s : R.State) : BitVec 16 := (R.dob s).extractLsb' 0 16

/-- The RAM holds `words`, and a read sees the write of the same clock. -/
structure WriteFirst (R : Ramb16bwer) (words : R.State → BitVec 10 → BitVec 16) : Prop where
  write : ∀ s i a, words (R.next s i) a = i.written a (words s a)
  read : ∀ s i, R.word (R.next s i) =
    if i.enb then words (R.next s i) (field i.addrb 0 9) else R.word s

end Ramb16bwer

/-! ## The variant with the block RAM -/

structure XilinxPager (R : Ramb16bwer) where
  pageWrite : Bool
  pageSweep : Bool
  ram : R.State

namespace XilinxPager

variable {R : Ramb16bwer}

def writeSel (i : Pager.In) : Bool := bit i.vmaReg.addr 4

def writeAddr (i : Pager.In) : BitVec 8 := field i.vmaReg.addr 5 12

def writeData (x : XilinxPager R) (i : Pager.In) : BitVec 32 :=
  if x.pageSweep then 0 else (0#1 ++ Pager.writeData i) ++ (0#1 ++ Pager.writeData i)

def writeEnable (x : XilinxPager R) (i : Pager.In) : BitVec 4 :=
  BitVec.ofBoolListBE [x.pageSweep || writeSel i, x.pageSweep || writeSel i,
    x.pageSweep || !writeSel i, x.pageSweep || !writeSel i]

/-- The ports of the RAM. -/
def ramIn (x : XilinxPager R) (i : Pager.In) : Ramb16bwer.In where
  ena := i.clken && x.pageWrite && !i.rst
  wea := x.writeEnable i
  addra := 0#1 ++ writeAddr i ++ 0#5
  dia := x.writeData i
  enb := i.clken && Pager.vmaEn i
  addrb := 0#1 ++ dpPage i.dp ++ 0#4

/-- One clock of the variant with the block RAM. -/
def next (x : XilinxPager R) (i : Pager.In) : XilinxPager R where
  pageWrite := if i.rst then false else if i.clken then Pager.specPageWrite i else x.pageWrite
  pageSweep := if i.rst then false else if i.clken then Pager.specPageSweep i else x.pageSweep
  ram := R.next x.ram (x.ramIn i)

/-- The entry at the output of the RAM. -/
def entry (x : XilinxPager R) : BitVec 15 := field (R.word x.ram) 1 15

def pageFlags (x : XilinxPager R) : BitVec 4 := field x.entry 0 3

def pageAddr (x : XilinxPager R) : BitVec 11 := field x.entry 4 14

/-- The registers after `t` clocks. -/
def pagerAt (x : XilinxPager R) (i : Nat → Pager.In) (t : Nat) : XilinxPager R := run next x i t

end XilinxPager

/-! ## What a lookup returns -/

namespace Pager

/-- Entry `p` is written at this clock. -/
def writesPage (s : Pager) (i : In) (p : BitVec 9) : Bool :=
  s.writesTable i && !s.pageSweep && p == i.vmaReg.page

/-- Entry `p` is swept at this clock. -/
def sweepsPage (s : Pager) (i : In) (p : BitVec 9) : Bool :=
  s.writesTable i && s.pageSweep && samePair p i.vmaReg.page

/-- From the lookup at clock `t` to clock `w` there is no other one. -/
structure Lookup (i : Nat → In) (p : BitVec 9) (t w : Nat) : Prop where
  before : t < w
  looksUp : looksUp (i t) = true
  page : dpPage (i t).dp = p
  last : ∀ v, t < v → v < w → Pager.looksUp (i v) = false

/-- Between the clocks `u` and `t` entry `p` is neither written nor swept. -/
def Kept (s : Pager) (i : Nat → In) (p : BitVec 9) (u t : Nat) : Prop :=
  ∀ v, u < v → v < t → (pagerAt s i v).writesPage (i v) p = false ∧
    (pagerAt s i v).sweepsPage (i v) p = false

/-- A lookup returns the entry written last, or an invalid one if it has been swept
since. -/
structure Remembers (s : Pager) (i : Nat → In) : Prop where
  written : ∀ p u t w, u < t → (pagerAt s i u).writesPage (i u) p = true → Kept s i p u t →
    Lookup i p t w → (pagerAt s i w).entry = writeData (i u)
  swept : ∀ p u t w, u < t → (pagerAt s i u).sweepsPage (i u) p = true → Kept s i p u t →
    Lookup i p t w → bit (pagerAt s i w).pageFlags 0 = false

section Step

variable {s : Pager} {i : In} {p : BitVec 9}

theorem nextTable_of_writesPage (h : s.writesPage i p = true) :
    s.nextTable i p = writeData i := by
  simp only [writesPage, Bool.and_eq_true, Bool.not_eq_true', beq_iff_eq] at h
  obtain ⟨⟨hwrite, hsweep⟩, rfl⟩ := h
  rw [nextTable, hwrite, hsweep]
  exact Function.update_self _ _ _

theorem nextTable_of_sweepsPage (h : s.sweepsPage i p = true) : s.nextTable i p = 0 := by
  simp only [sweepsPage, Bool.and_eq_true] at h
  obtain ⟨⟨hwrite, hsweep⟩, hpair⟩ := h
  rw [nextTable, hwrite, hsweep]
  exact if_pos hpair

theorem nextTable_of_kept (hw : s.writesPage i p = false) (hs : s.sweepsPage i p = false) :
    s.nextTable i p = s.pageTable p := by
  unfold nextTable
  unfold writesPage at hw
  unfold sweepsPage at hs
  cases hwrite : s.writesTable i with
  | false => rfl
  | true =>
      rw [hwrite] at hw hs
      cases hsweep : s.pageSweep with
      | true =>
          rw [hsweep] at hs
          simp only [Bool.true_and] at hs
          simp only [if_true, hs]
          rfl
      | false =>
          rw [hsweep] at hw
          simp only [Bool.true_and, Bool.not_false, beq_eq_false_iff_ne] at hw
          simp [Function.update_of_ne hw]

/-- The output registers are one register of two parts. -/
theorem entry_next (s : Pager) (i : In) : (next s i).entry = s.nextEntry i :=
  field_append (a := 3) (b := 10) (s.nextEntry i)

theorem entry_next_of_looksUp (h : looksUp i = true) :
    (next s i).entry = s.pageTable (dpPage i.dp) := by
  rw [entry_next, nextEntry, h, if_pos rfl]

theorem entry_next_of_not_looksUp (h : looksUp i = false) : (next s i).entry = s.entry := by
  rw [entry_next, nextEntry, h]
  rfl

theorem pageFlags_entry (s : Pager) : field s.entry 0 3 = s.pageFlags :=
  field_left (a := 3) (b := 10) s.pageFlags s.pageAddr

theorem pageAddr_entry (s : Pager) : field s.entry 4 14 = s.pageAddr :=
  field_right (a := 3) (b := 10) s.pageFlags s.pageAddr

end Step

section Run

variable {s : Pager} {i : Nat → In} {p : BitVec 9} {u t w : Nat}

/-- Nothing but a write or a sweep of it moves an entry. -/
theorem Kept.table (h : Kept s i p u t) (hut : u < t) :
    (pagerAt s i t).pageTable p = (pagerAt s i (u + 1)).pageTable p := by
  refine stays_until (P := fun v => (pagerAt s i v).pageTable p =
    (pagerAt s i (u + 1)).pageTable p) (C := fun v => u < v ∧ v < t) (fun v hv hC => ?_) rfl hut
    fun v huv hvt => ⟨huv, hvt⟩
  obtain ⟨hwrite, hsweep⟩ := h v hC.1 hC.2
  have hnext : (pagerAt s i (v + 1)).pageTable p = (pagerAt s i v).pageTable p :=
    nextTable_of_kept hwrite hsweep
  exact hnext.trans hv

/-- The entry stays in the output registers until the next lookup. -/
theorem Lookup.entry (h : Lookup i p t w) :
    (pagerAt s i w).entry = (pagerAt s i t).pageTable p := by
  have hfirst : (pagerAt s i (t + 1)).entry = (pagerAt s i t).pageTable p := by
    rw [← h.page]
    exact entry_next_of_looksUp h.looksUp
  refine stays_until (P := fun v => (pagerAt s i v).entry = (pagerAt s i t).pageTable p)
    (C := fun v => t < v ∧ v < w) (fun v hv hC => ?_) hfirst h.before
    fun v htv hvw => ⟨htv, hvw⟩
  have hnext : (pagerAt s i (v + 1)).entry = (pagerAt s i v).entry :=
    entry_next_of_not_looksUp (h.last v hC.1 hC.2)
  exact hnext.trans hv

end Run

theorem remembers (s : Pager) (i : Nat → In) : Remembers s i where
  written := by
    intro p u t w hut hwrite hkept hlookup
    have hnext : (pagerAt s i (u + 1)).pageTable p = writeData (i u) :=
      nextTable_of_writesPage hwrite
    rw [hlookup.entry, hkept.table hut, hnext]
  swept := by
    intro p u t w hut hsweep hkept hlookup
    have hnext : (pagerAt s i (u + 1)).pageTable p = 0 := nextTable_of_sweepsPage hsweep
    rw [← pageFlags_entry, hlookup.entry, hkept.table hut, hnext]
    decide

end Pager

/-! ## The RAM holds the page table -/

namespace Ramb16bwer

theorem bytes_append (x : BitVec 16) : x.extractLsb' 8 8 ++ x.extractLsb' 0 8 = x :=
  (BitVec.extractLsb'_append_extractLsb'_eq_extractLsb' rfl).trans BitVec.extractLsb'_eq_self

/-- A write with the byte enables of a word alike writes the word or leaves it. -/
theorem written_word {i : In} {odd even : Bool}
    (hwea : i.wea = BitVec.ofBoolListBE [odd, odd, even, even]) (a : BitVec 10) (old : BitVec 16) :
    i.written a old =
      if i.ena && field a 0 8 == field i.addra 0 8 && (if a.getLsbD 0 then odd else even) then
        if a.getLsbD 0 then i.dia.extractLsb' 16 16 else i.dia.extractLsb' 0 16
      else old := by
  have h3 : i.wea.getLsbD 3 = odd := by rw [hwea]; cases odd <;> cases even <;> rfl
  have h2 : i.wea.getLsbD 2 = odd := by rw [hwea]; cases odd <;> cases even <;> rfl
  have h1 : i.wea.getLsbD 1 = even := by rw [hwea]; cases odd <;> cases even <;> rfl
  have h0 : i.wea.getLsbD 0 = even := by rw [hwea]; cases odd <;> cases even <;> rfl
  have hodd : i.dia.extractLsb' 24 8 ++ i.dia.extractLsb' 16 8 = i.dia.extractLsb' 16 16 :=
    BitVec.extractLsb'_append_extractLsb'_eq_extractLsb' rfl
  have heven : i.dia.extractLsb' 8 8 ++ i.dia.extractLsb' 0 8 = i.dia.extractLsb' 0 16 :=
    BitVec.extractLsb'_append_extractLsb'_eq_extractLsb' rfl
  unfold In.written
  cases hmatch : i.ena && field a 0 8 == field i.addra 0 8 with
  | false => simp
  | true =>
      simp only [if_true, Bool.true_and, h3, h2, h1, h0]
      cases a.getLsbD 0 with
      | true =>
          cases odd with
          | true => simpa using hodd
          | false => simpa using bytes_append old
      | false =>
          cases even with
          | true => simpa using heven
          | false => simpa using bytes_append old

end Ramb16bwer

namespace XilinxPager

variable {R : Ramb16bwer}

/-- The word of the RAM that holds entry `p`. -/
def wordOf (p : BitVec 9) : BitVec 10 := 0#1 ++ p

theorem lsb_page (i : Pager.In) : i.vmaReg.page.getLsbD 0 = writeSel i := by
  unfold VmaReg.page writeSel field bit
  rw [BitVec.getLsbD_append, BitVec.getLsbD_extractLsb', BitVec.getMsbD_eq_getLsbD]
  simp

theorem page_eq_iff (p q : BitVec 9) :
    p = q ↔ samePair p q = true ∧ p.getLsbD 0 = q.getLsbD 0 := by
  constructor
  · rintro rfl
    simp [samePair]
  · rintro ⟨hpair, hlow⟩
    have hpair : field p 0 7 = field q 0 7 := by simpa [samePair] using hpair
    apply BitVec.eq_of_getLsbD_eq
    intro k hk
    cases k with
    | zero => exact hlow
    | succ k =>
        have hbit := congrArg (fun x : BitVec 8 => x.getLsbD k) hpair
        unfold field at hbit
        rw [BitVec.getLsbD_extractLsb', BitVec.getLsbD_extractLsb'] at hbit
        have hk8 : k < 7 - 0 + 1 := by omega
        have hpos : 9 - 1 - 7 + k = k + 1 := by omega
        rw [hpos] at hbit
        simpa [hk8] using hbit

theorem field_wordOf (p : BitVec 9) : field (wordOf p) 0 8 = 0#1 ++ field p 0 7 := by
  apply BitVec.eq_of_getLsbD_eq
  intro k hk
  unfold field wordOf
  rw [BitVec.getLsbD_extractLsb', BitVec.getLsbD_append, BitVec.getLsbD_append,
    BitVec.getLsbD_extractLsb']
  have hpos : 10 - 1 - 8 + k = k + 1 := by omega
  rw [hpos]
  by_cases hlow : k < 8
  · have hin : k + 1 < 9 := by omega
    have hin' : k < 8 - 0 + 1 := by omega
    have hin'' : k < 7 - 0 + 1 := by omega
    simp only [hin, hin', hin'', decide_true, Bool.true_and, if_true]
  · have hin : ¬ k + 1 < 9 := by omega
    have hin' : ¬ k < 7 - 0 + 1 := by omega
    simp only [hin, hin', if_false, BitVec.getLsbD_zero, Bool.and_false]

/-- The row of the RAM that is written is the pair of the page in the VMA register. -/
theorem addressed_iff (x : XilinxPager R) (i : Pager.In) (p : BitVec 9) :
    (field (wordOf p) 0 8 == field (x.ramIn i).addra 0 8) = samePair p i.vmaReg.page := by
  have haddr : field (x.ramIn i).addra 0 8 = 0#1 ++ writeAddr i :=
    field_left (a := 8) (b := 4) (0#1 ++ writeAddr i) 0#5
  have hpage : field i.vmaReg.page 0 7 = writeAddr i :=
    field_left (a := 7) (b := 0) (field i.vmaReg.addr 5 12) (field i.vmaReg.addr 4 4)
  rw [haddr, field_wordOf, samePair, hpage, Bool.eq_iff_iff, beq_iff_eq, beq_iff_eq]
  constructor
  · intro h
    have hlow := congrArg (fun y : BitVec 9 => y.extractLsb' 0 8) h
    exact (BitVec.extractLsb'_append_eq_right.symm.trans hlow).trans
      BitVec.extractLsb'_append_eq_right
  · intro h
    rw [h]

/-- The two variants are in the same state, apart from their outputs. -/
structure Agrees (words : R.State → BitVec 10 → BitVec 16) (s : Pager) (x : XilinxPager R) :
    Prop where
  pageWrite : x.pageWrite = s.pageWrite
  pageSweep : x.pageSweep = s.pageSweep
  pageTable : ∀ p, field (words x.ram (wordOf p)) 1 15 = s.pageTable p

variable {words : R.State → BitVec 10 → BitVec 16} {s : Pager} {x : XilinxPager R}

/-- Both halves of the word written are the entry, or zero in a sweep. -/
theorem half_writeData (i : Pager.In) (odd : Bool) :
    (if odd then (x.writeData i).extractLsb' 16 16 else (x.writeData i).extractLsb' 0 16) =
      if x.pageSweep then 0 else 0#1 ++ Pager.writeData i := by
  unfold writeData
  cases x.pageSweep with
  | true =>
      cases odd with
      | true => exact BitVec.extractLsb'_zero
      | false => exact BitVec.extractLsb'_zero
  | false =>
      cases odd with
      | true => exact BitVec.extractLsb'_append_eq_left
      | false => exact BitVec.extractLsb'_append_eq_right

/-- The byte enables select the entry of the page in the VMA register. -/
theorem enable_eq (i : Pager.In) (p : BitVec 9) :
    (samePair p i.vmaReg.page && (if p.getLsbD 0 then writeSel i else !writeSel i)) =
      decide (p = i.vmaReg.page) := by
  have hsel : (if p.getLsbD 0 then writeSel i else !writeSel i) = true ↔
      p.getLsbD 0 = i.vmaReg.page.getLsbD 0 := by
    rw [lsb_page]
    cases p.getLsbD 0 with
    | true => simp
    | false => simp
  rw [Bool.eq_iff_iff, Bool.and_eq_true, hsel, decide_eq_true_eq]
  exact (page_eq_iff p i.vmaReg.page).symm

theorem table_next (hR : R.WriteFirst words) (h : Agrees words s x) (i : Pager.In)
    (p : BitVec 9) : field (words (x.next i).ram (wordOf p)) 1 15 = s.nextTable i p := by
  have hlsb : (wordOf p).getLsbD 0 = p.getLsbD 0 := by
    rw [wordOf, BitVec.getLsbD_append, if_pos (by decide)]
  have hena : (x.ramIn i).ena = s.writesTable i := by
    rw [Pager.writesTable, ← h.pageWrite]
    rfl
  have hentry : field (0#1 ++ Pager.writeData i) 1 15 = Pager.writeData i :=
    field_right (a := 0) (b := 14) 0#1 (Pager.writeData i)
  have hword : words (x.next i).ram (wordOf p) = _ := hR.write x.ram (x.ramIn i) (wordOf p)
  rw [hword, Ramb16bwer.written_word (i := x.ramIn i) rfl, addressed_iff, hlsb, hena]
  have hhalf : (if p.getLsbD 0 then (x.ramIn i).dia.extractLsb' 16 16
      else (x.ramIn i).dia.extractLsb' 0 16) = _ := half_writeData i (p.getLsbD 0)
  rw [hhalf, Pager.nextTable]
  cases hwrite : s.writesTable i with
  | false => exact h.pageTable p
  | true =>
      cases hsweep : s.pageSweep with
      | true =>
          rw [h.pageSweep, hsweep]
          simp only [Bool.true_and, Bool.true_or, if_true, ite_self, Bool.and_true]
          cases samePair p i.vmaReg.page with
          | false => exact h.pageTable p
          | true => rfl
      | false =>
          rw [h.pageSweep, hsweep]
          simp only [Bool.true_and, Bool.false_or, if_true, Bool.false_eq_true, if_false]
          rw [enable_eq, Function.update_apply]
          by_cases hp : p = i.vmaReg.page
          · simp only [hp, decide_true, if_true]
            exact hentry
          · simp only [hp, decide_false, Bool.false_eq_true, if_false]
            exact h.pageTable p

/-- A read of the RAM sees the table as it is after the clock. -/
theorem entry_next (hR : R.WriteFirst words) (h : Agrees words s x) (i : Pager.In) :
    (x.next i).entry = if Pager.looksUp i then s.nextTable i (dpPage i.dp) else x.entry := by
  have haddr : field (x.ramIn i).addrb 0 9 = wordOf (dpPage i.dp) :=
    field_left (a := 9) (b := 3) (0#1 ++ dpPage i.dp) 0#4
  have hread : R.word (x.next i).ram = _ := hR.read x.ram (x.ramIn i)
  have henb : (x.ramIn i).enb = Pager.looksUp i := rfl
  rw [entry, hread, henb, haddr]
  cases Pager.looksUp i with
  | true => exact table_next hR h i (dpPage i.dp)
  | false => rfl

theorem Agrees.next (hR : R.WriteFirst words) (h : Agrees words s x) (i : Pager.In) :
    Agrees words (Pager.next s i) (x.next i) where
  pageWrite := by
    show (if i.rst then false else if i.clken then Pager.specPageWrite i else x.pageWrite) = _
    rw [h.pageWrite]
    rfl
  pageSweep := by
    show (if i.rst then false else if i.clken then Pager.specPageSweep i else x.pageSweep) = _
    rw [h.pageSweep]
    rfl
  pageTable := table_next hR h i

theorem Agrees.run (hR : R.WriteFirst words) (h : Agrees words s x) (i : Nat → Pager.In)
    (t : Nat) : Agrees words (Pager.pagerAt s i t) (x.pagerAt i t) := by
  induction t with
  | zero => exact h
  | succ t ih => exact ih.next hR (i t)

/-- The outputs of the two variants are alike. -/
def SameOutputs (s : Pager) (x : XilinxPager R) : Prop :=
  x.pageFlags = s.pageFlags ∧ x.pageAddr = s.pageAddr

theorem sameOutputs_iff : SameOutputs s x ↔ x.entry = s.entry := by
  constructor
  · rintro ⟨hflags, haddr⟩
    have hx : x.pageFlags ++ x.pageAddr = x.entry := field_append (a := 3) (b := 10) x.entry
    rw [← hx, hflags, haddr]
    rfl
  · intro h
    constructor
    · rw [pageFlags, h, Pager.pageFlags_entry]
    · rw [pageAddr, h, Pager.pageAddr_entry]

/-- After a lookup the outputs are alike if the entry has not changed meanwhile. -/
theorem sameOutputs_next_iff (hR : R.WriteFirst words) (h : Agrees words s x)
    (hout : x.entry = s.entry) (i : Pager.In) :
    (x.next i).entry = (Pager.next s i).entry ↔
      (Pager.looksUp i = true → s.nextTable i (dpPage i.dp) = s.pageTable (dpPage i.dp)) := by
  rw [entry_next hR h, Pager.entry_next, Pager.nextEntry]
  cases Pager.looksUp i with
  | true => simp
  | false => simp [hout]

theorem nextTable_eq_iff (s : Pager) (i : Pager.In) (p : BitVec 9) :
    s.nextTable i p = s.pageTable p ↔
      (s.writesPage i p = true → Pager.writeData i = s.pageTable p) ∧
        (s.sweepsPage i p = true → s.pageTable p = 0) := by
  cases hwrite : s.writesPage i p with
  | true =>
      have hsweep : s.sweepsPage i p = false := by
        simp only [Pager.writesPage, Bool.and_eq_true, Bool.not_eq_true'] at hwrite
        simp [Pager.sweepsPage, hwrite.1.2]
      rw [Pager.nextTable_of_writesPage hwrite, hsweep]
      simp
  | false =>
      cases hsweep : s.sweepsPage i p with
      | true =>
          rw [Pager.nextTable_of_sweepsPage hsweep]
          simp [eq_comm]
      | false => simp [Pager.nextTable_of_kept hwrite hsweep]

/-- Started alike, the generic variant remembers the table and the other one has the
same outputs, in exactly those runs in which no lookup meets a write of another entry
to the page that is looked up, or a sweep of an entry that is not zero. -/
theorem variants_agree_iff (R : Ramb16bwer) (words : R.State → BitVec 10 → BitVec 16)
    (hR : R.WriteFirst words) (s : Pager) (x : XilinxPager R) (h : Agrees words s x)
    (hout : SameOutputs s x) (i : Nat → Pager.In) :
    (Pager.Remembers s i ∧ ∀ t, SameOutputs (Pager.pagerAt s i t) (x.pagerAt i t)) ↔
      ∀ t, Pager.looksUp (i t) = true →
        ((Pager.pagerAt s i t).writesPage (i t) (dpPage (i t).dp) = true →
          Pager.writeData (i t) = (Pager.pagerAt s i t).pageTable (dpPage (i t).dp)) ∧
        ((Pager.pagerAt s i t).sweepsPage (i t) (dpPage (i t).dp) = true →
          (Pager.pagerAt s i t).pageTable (dpPage (i t).dp) = 0) := by
  have hstep (t : Nat) (hsame : SameOutputs (Pager.pagerAt s i t) (x.pagerAt i t)) :
      SameOutputs (Pager.pagerAt s i (t + 1)) (x.pagerAt i (t + 1)) ↔
        (Pager.looksUp (i t) = true → (Pager.pagerAt s i t).nextTable (i t) (dpPage (i t).dp) =
          (Pager.pagerAt s i t).pageTable (dpPage (i t).dp)) := by
    rw [sameOutputs_iff] at hsame ⊢
    exact sameOutputs_next_iff hR (h.run hR i t) hsame (i t)
  simp only [← nextTable_eq_iff]
  constructor
  · rintro ⟨-, hsame⟩ t
    exact (hstep t (hsame t)).mp (hsame (t + 1))
  · intro hmeets
    refine ⟨Pager.remembers s i, fun t => ?_⟩
    induction t with
    | zero => exact hout
    | succ t ih => exact (hstep t ih).mpr (hmeets t)

/-! ## A lookup of the page that is being written

The first microword asks for the page table write, the second one, with the entry on
the datapath, looks up the page of the VMA register. -/

/-- A block RAM that behaves as assumed. -/
def blockRam : Ramb16bwer where
  State := (BitVec 10 → BitVec 16) × BitVec 16
  next s i :=
    let words := fun a => i.written a (s.1 a)
    (words, if i.enb then words (field i.addrb 0 9) else s.2)
  dob s := 0#16 ++ s.2

theorem blockRam_writeFirst : blockRam.WriteFirst Prod.fst where
  write := fun _ _ _ => rfl
  read := by
    intro s i
    have hword (s : blockRam.State) : blockRam.word s = s.2 := BitVec.extractLsb'_append_eq_right
    rw [hword, hword]
    rfl

/-- An empty page table about to be written. -/
def aboutToWrite : Pager where
  pageWrite := true
  pageSweep := false
  pageTable := fun _ => 0
  pageFlags := 0
  pageAddr := 0

def aboutToWriteRam : XilinxPager blockRam where
  pageWrite := true
  pageSweep := false
  ram := (fun _ => 0, 0)

theorem aboutToWrite_agrees : Agrees Prod.fst aboutToWrite aboutToWriteRam where
  pageWrite := rfl
  pageSweep := rfl
  pageTable := fun _ => by
    show field (0 : BitVec 16) 1 15 = 0
    decide

theorem aboutToWrite_sameOutputs : SameOutputs aboutToWrite aboutToWriteRam := by
  constructor
  · decide
  · decide

/-- A VMA load, by the memory cycle bit 76 and the load bit 104, of an address on page
`0o400`, which as an entry is a valid page. -/
def loadsVma (load : Bool) : Pager.In where
  rst := false
  clken := true
  crom := (0 : BitVec 76) ++ BitVec.ofBool load ++ (0 : BitVec 27) ++ BitVec.ofBool load ++
    (0 : BitVec 3)
  drom := 0
  dp := 0o400000
  vmaReg := { VmaReg.zero with addr := 0o400000 }

theorem variants_agree_iff_idle :
    (Pager.Remembers aboutToWrite (fun _ => loadsVma false) ∧
      ∀ t, SameOutputs (Pager.pagerAt aboutToWrite (fun _ => loadsVma false) t)
        (aboutToWriteRam.pagerAt (fun _ => loadsVma false) t)) ↔
      ∀ t, Pager.looksUp (loadsVma false) = true →
        ((Pager.pagerAt aboutToWrite (fun _ => loadsVma false) t).writesPage (loadsVma false)
            (dpPage (loadsVma false).dp) = true →
          Pager.writeData (loadsVma false) = (Pager.pagerAt aboutToWrite
            (fun _ => loadsVma false) t).pageTable (dpPage (loadsVma false).dp)) ∧
        ((Pager.pagerAt aboutToWrite (fun _ => loadsVma false) t).sweepsPage (loadsVma false)
            (dpPage (loadsVma false).dp) = true →
          (Pager.pagerAt aboutToWrite (fun _ => loadsVma false) t).pageTable
            (dpPage (loadsVma false).dp) = 0) :=
  variants_agree_iff blockRam Prod.fst blockRam_writeFirst aboutToWrite aboutToWriteRam
    aboutToWrite_agrees aboutToWrite_sameOutputs fun _ => loadsVma false

theorem variants_differ : ¬ ∀ (R : Ramb16bwer) (words : R.State → BitVec 10 → BitVec 16),
    R.WriteFirst words → ∀ (s : Pager) (x : XilinxPager R), Agrees words s x →
    SameOutputs s x → ∀ i, Pager.Remembers s i ∧
      ∀ t, SameOutputs (Pager.pagerAt s i t) (x.pagerAt i t) := by
  intro h
  obtain ⟨-, hsame⟩ := h blockRam Prod.fst blockRam_writeFirst aboutToWrite aboutToWriteRam
    aboutToWrite_agrees aboutToWrite_sameOutputs fun _ => loadsVma true
  have hflags := (hsame 1).1
  revert hflags
  decide

end XilinxPager

/-! ## The pager in the translation path -/

namespace Mmu

/-- The registers of the pager. -/
def pager (s : Mmu) : Pager := ⟨s.pageWrite, s.pageSweep, s.pageTable, s.pageFlags, s.pageAddr⟩

/-- The inputs of the pager, with the VMA register among them. -/
def pagerIn (s : Mmu) (i : In) : Pager.In := ⟨i.rst, i.clken, i.crom, i.drom, i.dp, s.vmaReg⟩

/-- The translation path runs the generic pager. -/
theorem pager_run (s : Mmu) (i : Nat → In) (t : Nat) :
    (mmuAt s i t).pager = Pager.pagerAt s.pager (fun k => (mmuAt s i k).pagerIn (i k)) t :=
  run_part (f := pager) (g := pagerIn) (fun _ _ => rfl) s i t

end Mmu

end KS10
