import KS10.Lp.Dma
import Mathlib.Data.BitVec

/-!
# A transfer of the line printer

A transfer that is started by GO reads one byte after another, from the bus address on, until
the byte count is zero.  The address, the count and the checksum are counted in three modules,
and a write of the control register reaches two of them while the transfer runs: the address,
whose upper bits it loads, and the checksum, which a GO clears also when it starts nothing.

What the transfer has read is kept as a history next to the registers.  The transfer is whole
(`LpDmaRun.transfer_run`) if no such write does harm: above all, none is in the clock in which
the address is to be incremented, for which the load of the upper bits takes precedence.
-/

namespace KS10

open Clocked

/-- The registers of the transfer, with the words that have been read and their addresses on
the bus, and the bytes that the printer has been given. -/
structure LpDmaRun where
  lp : LpXfer
  reads : List (BitVec 36 × BitVec 36)
  presented : List (BitVec 8)

namespace LpDmaRun

open LpXfer (In lpInit lpCmdGo lpCmdStop csraLow csraAddr csraMode byteDataI modeRam)

/-! ## One clock -/

/-- A character for the printer is in the character buffer. -/
def presents (x : LpDmaRun) : Bool := x.lp.strobe && !x.lp.lpModeLdRam

/-- One clock of the transfer and its history. -/
def next (x : LpDmaRun) (i : In) : LpDmaRun where
  lp := x.lp.next i
  reads := if x.lp.lpDmaWr i then x.reads ++ [(x.lp.devAddrO, i.lpDataI)] else x.reads
  presented := if x.presents then x.presented ++ [x.lp.regCbuf] else x.presented

/-- The byte of a word that was read at an address. -/
def byteOf (r : BitVec 36 × BitVec 36) : BitVec 8 := byteDataI (r.1.extractLsb' 0 18) r.2

def bytes (x : LpDmaRun) : List (BitVec 8) := x.reads.map byteOf

/-- The address on the bus of a byte. -/
def busAddr (a : BitVec 18) : BitVec 36 := 0b000100000000000000#18 ++ a

/-! ## What is asked of a transfer -/

/-- No transfer goes on, and the byte count has been written since the last one. -/
structure AtRest (x : LpDmaRun) : Prop where
  state : x.lp.dma.state = .idle
  devReqO : x.lp.dma.devReqO = false
  lpIncr : x.lp.dma.lpIncr = false
  strobe : x.lp.strobe = false
  lpDone : x.lp.lpDone = false
  reads : x.reads = []
  presented : x.presented = []

/-- Only CSRA is written, and the write is neither a stop nor the start of another transfer. -/
structure Legal (x : LpDmaRun) (i : In) : Prop where
  rst : i.rst = false
  bar : i.barWrite = false
  bctr : i.bctrWrite = false
  cbuf : i.cbufWrite = false
  csrb : i.csrbWrite = false
  stop : lpCmdStop i = false
  start : lpCmdGo i = true → x.lp.dma.state ≠ .idle

/-- The write that starts the transfer. -/
structure Starts (i : In) : Prop where
  rst : i.rst = false
  bctr : i.bctrWrite = false
  csrb : i.csrbWrite = false
  init : lpInit i = false
  go : lpCmdGo i = true
  lpErr : i.lpErr = false
  /-- It is the write of CSRA, and of no other register. -/
  bar : i.barWrite = false

/-- The checksum as it is without a GO. -/
def sum (x : LpDmaRun) (i : In) : BitVec 8 :=
  if x.lp.lpDmaWr i then x.lp.regCksm + byteDataI x.lp.regBar i.lpDataI else x.lp.regCksm

/-- A write of CSRA does not initialize the controller, and one with GO is not in the clock of
the increment, repeats the address and the mode, and comes when the checksum is zero. -/
structure Fits (x : LpDmaRun) (i : In) : Prop where
  init : lpInit i = false
  incr : lpCmdGo i = true → x.lp.dma.lpIncr = false
  addr : lpCmdGo i = true → csraAddr i.lpDataI = x.lp.regBar.extractLsb' 16 2
  mode : lpCmdGo i = true → csraMode i.lpDataI = x.lp.lpMode
  sum : lpCmdGo i = true → x.sum i = 0

/-- The number of bytes of a transfer. -/
def length (count : BitVec 12) : Nat := 4096 - count.toNat

/-- The transfer has read the bytes that it should, and has counted them. -/
structure Whole (n : BitVec 12) (a : BitVec 18) (m : BitVec 2) (x : LpDmaRun) : Prop where
  reads : x.reads.map Prod.fst =
    (List.range (length n)).map fun k => busAddr (a + BitVec.ofNat 18 k)
  presented : x.presented = if m = modeRam then [] else x.bytes
  bar : x.lp.regBar = a + BitVec.ofNat 18 (length n)
  count : x.lp.count = n + BitVec.ofNat 12 (length n)
  cksm : x.lp.regCksm = x.bytes.sum

instance (x : LpDmaRun) (i : In) : Decidable (Legal x i) :=
  decidable_of_iff (i.rst = false ∧ i.barWrite = false ∧ i.bctrWrite = false ∧
      i.cbufWrite = false ∧ i.csrbWrite = false ∧ lpCmdStop i = false ∧
      (lpCmdGo i = true → x.lp.dma.state ≠ .idle))
    ⟨fun ⟨a, b, c, d, e, f, g⟩ => ⟨a, b, c, d, e, f, g⟩,
      fun ⟨a, b, c, d, e, f, g⟩ => ⟨a, b, c, d, e, f, g⟩⟩

instance (x : LpDmaRun) (i : In) : Decidable (Fits x i) :=
  decidable_of_iff (lpInit i = false ∧ (lpCmdGo i = true → x.lp.dma.lpIncr = false) ∧
      (lpCmdGo i = true → csraAddr i.lpDataI = x.lp.regBar.extractLsb' 16 2) ∧
      (lpCmdGo i = true → csraMode i.lpDataI = x.lp.lpMode) ∧
      (lpCmdGo i = true → x.sum i = 0))
    ⟨fun ⟨a, b, c, d, e⟩ => ⟨a, b, c, d, e⟩, fun ⟨a, b, c, d, e⟩ => ⟨a, b, c, d, e⟩⟩

/-- The address from which the transfer reads. -/
def startBar (x : LpDmaRun) (i : In) : BitVec 18 :=
  csraAddr i.lpDataI ++ x.lp.regBar.extractLsb' 0 16

/-! ## One clock of the counters -/

variable {x : LpDmaRun} {i : In} {n : BitVec 12} {a : BitVec 18} {m : BitVec 2}

/-- A write of the low byte is one with GO. -/
theorem Legal.go_of_csraLow (h : Legal x i) (hlow : csraLow i = true) : lpCmdGo i = true := by
  have hstop := h.stop
  unfold lpCmdStop at hstop
  unfold lpCmdGo
  rw [hlow, Bool.true_and] at hstop ⊢
  exact (Bool.not_eq_false' _).mp hstop

theorem bar_next (h : Legal x i) (hfits : Fits x i) :
    (x.next i).lp.regBar = if x.lp.dma.lpIncr then x.lp.regBar + 1 else x.lp.regBar := by
  show x.lp.nextBar i = _
  unfold LpXfer.nextBar
  rw [h.rst, hfits.init, h.bar, if_neg Bool.false_ne_true, if_neg Bool.false_ne_true]
  by_cases hlow : csraLow i = true
  · have hgo := h.go_of_csraLow hlow
    rw [if_pos hlow, hfits.incr hgo, if_neg Bool.false_ne_true, hfits.addr hgo]
    exact BitVec.extractLsb'_append_extractLsb'
  · rw [if_neg hlow, if_neg Bool.false_ne_true]

theorem mode_next (h : Legal x i) (hfits : Fits x i) : (x.next i).lp.lpMode = x.lp.lpMode := by
  show x.lp.nextMode i = _
  unfold LpXfer.nextMode
  rw [h.rst, hfits.init, if_neg Bool.false_ne_true, if_neg Bool.false_ne_true]
  by_cases hlow : csraLow i = true
  · rw [if_pos hlow, hfits.mode (h.go_of_csraLow hlow)]
  · rw [if_neg hlow]

theorem test_next (h : Legal x i) (hfits : Fits x i) : (x.next i).lp.lpTest = x.lp.lpTest := by
  show x.lp.nextTest i = _
  unfold LpXfer.nextTest
  rw [h.rst, hfits.init, h.csrb, if_neg Bool.false_ne_true, if_neg Bool.false_ne_true,
    Bool.false_and, if_neg Bool.false_ne_true]

theorem msyn_next (h : Legal x i) (hfits : Fits x i) :
    (x.next i).lp.lpTestMsyn = x.lp.lpTestMsyn := by
  unfold LpXfer.lpTestMsyn
  rw [mode_next h hfits, test_next h hfits]

theorem count_next (h : Legal x i) (hfits : Fits x i) :
    (x.next i).lp.count = if x.lp.dma.lpIncr then x.lp.count + 1 else x.lp.count := by
  show x.lp.nextCount i = _
  unfold LpXfer.nextCount
  rw [h.rst, hfits.init, h.bctr, if_neg Bool.false_ne_true, if_neg Bool.false_ne_true,
    if_neg Bool.false_ne_true]

theorem done_next (h : Legal x i) (hfits : Fits x i) :
    (x.next i).lp.lpDone = (x.lp.lpSetDone || x.lp.lpDone) := by
  show x.lp.nextDone i = _
  unfold LpXfer.nextDone
  rw [h.rst, hfits.init, h.bctr, if_neg Bool.false_ne_true, if_neg Bool.false_ne_true,
    Bool.false_or]
  cases x.lp.lpSetDone <;> rfl

theorem cksm_next (h : Legal x i) (hfits : Fits x i) : (x.next i).lp.regCksm = x.sum i := by
  show x.lp.nextCksm i = _
  unfold LpXfer.nextCksm
  rw [h.rst, if_neg Bool.false_ne_true]
  by_cases hgo : lpCmdGo i = true
  · rw [if_pos hgo, hfits.sum hgo]
  · rw [if_neg hgo]
    rfl

theorem cbuf_next (h : Legal x i) (hfits : Fits x i) (hwr : x.lp.lpDmaWr i = true)
    (hram : x.lp.lpModeLdRam = false) :
    (x.next i).lp.regCbuf = byteDataI x.lp.regBar i.lpDataI := by
  show x.lp.nextCbuf i = _
  unfold LpXfer.nextCbuf
  rw [h.rst, hfits.init, h.cbuf, if_neg Bool.false_ne_true, if_neg Bool.false_ne_true,
    if_neg Bool.false_ne_true, hwr, hram]
  rfl

theorem strobe_next (h : Legal x i) : (x.next i).lp.strobe = x.lp.lpDmaWr i := by
  show (if i.rst then false else x.lp.lpDmaWr i) = _
  rw [h.rst, if_neg Bool.false_ne_true]

theorem dma_next (h : Legal x i) : (x.next i).lp.dma = x.lp.dma.step (x.lp.dmaIn i) := by
  show x.lp.dma.next (x.lp.dmaIn i) = _
  unfold LpDma.next
  have hrst : (x.lp.dmaIn i).rst = false := h.rst
  have hstop : (x.lp.dmaIn i).lpCmdStop = false := h.stop
  rw [hrst, hstop, if_neg Bool.false_ne_true, if_neg Bool.false_ne_true]

/-! ## What every clock keeps -/

/-- The counters, the logs and the state of LPDMA fit together, for a transfer of the count
and the address that it started with. -/
structure Inv (n : BitVec 12) (a : BitVec 18) (m : BitVec 2) (x : LpDmaRun) : Prop where
  mode : x.lp.lpMode = m
  msyn : x.lp.lpTestMsyn = false
  devReqO : x.lp.dma.devReqO = decide (x.lp.dma.state = .read)
  lpIncr : x.lp.dma.lpIncr = decide (x.lp.dma.state = .next)
  strobe : x.lp.strobe = x.lp.dma.lpIncr
  reads : x.reads.map Prod.fst =
    (List.range x.reads.length).map fun k => busAddr (a + BitVec.ofNat 18 k)
  bar : (if x.lp.dma.lpIncr then x.lp.regBar + 1 else x.lp.regBar) =
    a + BitVec.ofNat 18 x.reads.length
  count : x.lp.lpDone = false →
    x.lp.count.toNat + x.lp.dma.lpIncr.toNat = n.toNat + x.reads.length
  done : x.lp.lpDone = true → x.lp.count = 0 ∧ x.reads.length = length n ∧
    (x.lp.dma.state = .check ∨ x.lp.dma.state = .done ∨ x.lp.dma.state = .idle)
  cksm : x.lp.regCksm = x.bytes.sum
  presented : (if x.presents then x.presented ++ [x.lp.regCbuf] else x.presented) =
    if m = modeRam then [] else x.bytes

/-- A byte is taken in the state that waits for it. -/
theorem Inv.taken (h : Inv n a m x) :
    x.lp.lpDmaWr i = (decide (x.lp.dma.state = .read) && i.devAckI) := by
  unfold LpXfer.lpDmaWr
  rw [h.devReqO]

/-- The increment is up in the clock after the one in which a byte is taken. -/
theorem Inv.incr_next (h : Inv n a m x) (hlegal : Legal x i) :
    (x.next i).lp.dma.lpIncr = x.lp.lpDmaWr i := by
  have hmsyn : (x.lp.dmaIn i).lpTestMsyn = false := h.msyn
  rw [h.taken, dma_next hlegal, LpDma.step_flags.2, Bool.eq_iff_iff, decide_eq_true_iff,
    LpDma.step_next_iff, hmsyn, Bool.and_eq_true, decide_eq_true_iff]
  exact ⟨fun hread => ⟨hread.1, hread.2.1⟩, fun hread => ⟨hread.1, hread.2, rfl⟩⟩

/-- After the last byte the transfer goes to its end. -/
theorem Inv.done_state (h : Inv n a m x) (hlegal : Legal x i)
    (hdone : (x.next i).lp.lpDone = true) (hfits : Fits x i) :
    (x.next i).lp.dma.state = .check ∨ (x.next i).lp.dma.state = .done ∨
      (x.next i).lp.dma.state = .idle := by
  rw [done_next hlegal hfits, Bool.or_eq_true] at hdone
  rw [dma_next hlegal]
  unfold LpDma.step
  rcases hdone with hset | hold
  · have hincr : x.lp.dma.lpIncr = true := by
      unfold LpXfer.lpSetDone at hset
      rw [Bool.and_eq_true] at hset
      exact hset.2
    have hstate : x.lp.dma.state = .next := by
      rw [h.lpIncr] at hincr
      exact of_decide_eq_true hincr
    rw [hstate]
    exact .inl rfl
  · have hin : (x.lp.dmaIn i).lpDone = true := hold
    rcases (h.done hold).2.2 with hstate | hstate | hstate
    · rw [hstate, hin]
      exact .inr (.inl rfl)
    · rw [hstate]
      exact .inr (.inr rfl)
    · have hgo : (x.lp.dmaIn i).lpCmdGo = false := by
        rw [← Bool.not_eq_true]
        exact fun hgo => hlegal.start hgo hstate
      rw [hstate, hgo]
      exact .inr (.inr rfl)

/-- The reads after a clock. -/
theorem bytes_next : (x.next i).bytes =
    if x.lp.lpDmaWr i then x.bytes ++ [byteDataI x.lp.regBar i.lpDataI] else x.bytes := by
  unfold bytes next
  split
  · rw [List.map_append]
    have haddr : x.lp.devAddrO.extractLsb' 0 18 = x.lp.regBar := BitVec.extractLsb'_append_eq_right
    have hbyte : byteOf (x.lp.devAddrO, i.lpDataI) = byteDataI x.lp.regBar i.lpDataI := by
      unfold byteOf
      rw [haddr]
    rw [List.map_singleton, hbyte]
  · rfl

/-- A byte that is taken is the next one, and the transfer has not come to its end. -/
theorem Inv.take (h : Inv n a m x) (hwr : x.lp.lpDmaWr i = true) :
    x.lp.dma.lpIncr = false ∧ x.lp.lpDone = false ∧
      x.lp.devAddrO = busAddr (a + BitVec.ofNat 18 x.reads.length) := by
  rw [h.taken, Bool.and_eq_true] at hwr
  have hstate : x.lp.dma.state = .read := of_decide_eq_true hwr.1
  have hincr : x.lp.dma.lpIncr = false := by
    rw [h.lpIncr, hstate]
    rfl
  refine ⟨hincr, ?_, ?_⟩
  · rw [← Bool.not_eq_true]
    intro hdone
    rcases (h.done hdone).2.2 with hend | hend | hend <;>
    · rw [hstate] at hend
      cases hend
  · have hbar := h.bar
    rw [hincr, if_neg Bool.false_ne_true] at hbar
    unfold LpXfer.devAddrO busAddr
    rw [hbar]

theorem reads_next : (x.next i).reads =
    if x.lp.lpDmaWr i then x.reads ++ [(x.lp.devAddrO, i.lpDataI)] else x.reads := rfl

theorem Inv.reads_next (h : Inv n a m x) : (x.next i).reads.map Prod.fst =
    (List.range (x.next i).reads.length).map fun k => busAddr (a + BitVec.ofNat 18 k) := by
  rw [LpDmaRun.reads_next]
  cases hwr : x.lp.lpDmaWr i with
  | false => exact h.reads
  | true =>
      rw [if_pos rfl, List.map_append, List.length_append, List.length_singleton,
        List.range_succ, List.map_append, h.reads]
      congr 1
      exact congrArg (fun b => [b]) (h.take hwr).2.2

theorem length_next : (x.next i).reads.length = x.reads.length + (x.lp.lpDmaWr i).toNat := by
  rw [reads_next]
  cases x.lp.lpDmaWr i with
  | false => rfl
  | true => exact List.length_append

/-- The address of the next byte after a clock. -/
theorem Inv.bar_next (h : Inv n a m x) (hlegal : Legal x i) (hfits : Fits x i) :
    (if (x.next i).lp.dma.lpIncr then (x.next i).lp.regBar + 1 else (x.next i).lp.regBar) =
      a + BitVec.ofNat 18 (x.next i).reads.length := by
  rw [h.incr_next hlegal, LpDmaRun.bar_next hlegal hfits, h.bar, length_next]
  cases x.lp.lpDmaWr i with
  | false => rfl
  | true =>
      rw [if_pos rfl, Bool.toNat_true, BitVec.ofNat_add, BitVec.add_assoc]
      rfl

/-- The count of the bytes that are left after a clock. -/
theorem Inv.count_next (h : Inv n a m x) (hlegal : Legal x i) (hfits : Fits x i)
    (hdone : (x.next i).lp.lpDone = false) :
    (x.next i).lp.count.toNat + (x.next i).lp.dma.lpIncr.toNat =
      n.toNat + (x.next i).reads.length := by
  rw [done_next hlegal hfits, Bool.or_eq_false_iff] at hdone
  have hcount := h.count hdone.2
  rw [h.incr_next hlegal, LpDmaRun.count_next hlegal hfits, length_next]
  have hset := hdone.1
  unfold LpXfer.lpSetDone at hset
  cases hincr : x.lp.dma.lpIncr with
  | false =>
      rw [hincr] at hcount
      rw [if_neg Bool.false_ne_true]
      simp only [Bool.toNat_false] at hcount
      omega
  | true =>
      rw [hincr] at hcount hset
      rw [if_pos rfl]
      have hne : x.lp.count ≠ 0o7777 := by simpa using hset
      have hne' : x.lp.count.toNat ≠ 4095 := fun heq => hne (BitVec.eq_of_toNat_eq heq)
      have hlt := x.lp.count.isLt
      have hsum : (x.lp.count + 1).toNat = x.lp.count.toNat + 1 := by
        rw [BitVec.toNat_add]
        exact Nat.mod_eq_of_lt (by show x.lp.count.toNat + 1 < 4096; omega)
      rw [hsum]
      simp only [Bool.toNat_true] at hcount
      omega

/-- The transfer comes to its end when the count comes to zero, and stays there. -/
theorem Inv.done_next (h : Inv n a m x) (hlegal : Legal x i) (hfits : Fits x i)
    (hdone : (x.next i).lp.lpDone = true) :
    (x.next i).lp.count = 0 ∧ (x.next i).reads.length = length n := by
  rw [LpDmaRun.done_next hlegal hfits, Bool.or_eq_true] at hdone
  rw [LpDmaRun.count_next hlegal hfits, length_next]
  cases hold : x.lp.lpDone with
  | true =>
      obtain ⟨hzero, hlen, hstate⟩ := h.done hold
      have hwr : x.lp.lpDmaWr i = false := by
        rw [← Bool.not_eq_true]
        intro hwr
        have hnot := (h.take hwr).2.1
        rw [hold] at hnot
        cases hnot
      have hincr : x.lp.dma.lpIncr = false := by
        rw [h.lpIncr]
        rcases hstate with hs | hs | hs <;> rw [hs] <;> rfl
      rw [hincr, hwr, if_neg Bool.false_ne_true]
      exact ⟨hzero, hlen⟩
  | false =>
      rw [hold] at hdone
      have hset : x.lp.lpSetDone = true := hdone.resolve_right Bool.false_ne_true
      unfold LpXfer.lpSetDone at hset
      rw [Bool.and_eq_true, beq_iff_eq] at hset
      have hcount := h.count hold
      have hwr : x.lp.lpDmaWr i = false := by
        rw [← Bool.not_eq_true]
        intro hwr
        have hnot := (h.take hwr).1
        rw [hset.2] at hnot
        cases hnot
      rw [hset.2, if_pos rfl, hwr, hset.1]
      rw [hset.1, hset.2] at hcount
      have hlast : (0o7777 : BitVec 12).toNat = 4095 := by decide
      rw [hlast, Bool.toNat_true] at hcount
      refine ⟨by decide, ?_⟩
      unfold length
      rw [Bool.toNat_false]
      omega

/-- The sum of the bytes after a clock. -/
theorem Inv.cksm_next (h : Inv n a m x) (hlegal : Legal x i) (hfits : Fits x i) :
    (x.next i).lp.regCksm = (x.next i).bytes.sum := by
  rw [LpDmaRun.cksm_next hlegal hfits, bytes_next]
  unfold sum
  cases x.lp.lpDmaWr i with
  | false => exact h.cksm
  | true =>
      rw [if_pos rfl, if_pos rfl, List.sum_append, List.sum_singleton, h.cksm]

/-- The bytes that the printer has, and the one that it gets, after a clock. -/
theorem Inv.presented_next (h : Inv n a m x) (hlegal : Legal x i) (hfits : Fits x i) :
    (if (x.next i).presents then (x.next i).presented ++ [(x.next i).lp.regCbuf]
      else (x.next i).presented) = if m = modeRam then [] else (x.next i).bytes := by
  have hpresented : (x.next i).presented = if m = modeRam then [] else x.bytes := h.presented
  have hpresents : (x.next i).presents = (x.lp.lpDmaWr i && !x.lp.lpModeLdRam) := by
    unfold presents LpXfer.lpModeLdRam
    rw [strobe_next hlegal, mode_next hlegal hfits]
  have hram : x.lp.lpModeLdRam = decide (m = modeRam) := by
    unfold LpXfer.lpModeLdRam
    rw [h.mode]
    rfl
  rw [hpresents, hpresented, bytes_next, hram]
  by_cases hm : m = modeRam
  · rw [decide_eq_true hm, if_pos hm, if_pos hm, Bool.not_true, Bool.and_false,
      if_neg Bool.false_ne_true]
  · rw [decide_eq_false hm, if_neg hm, if_neg hm, Bool.not_false, Bool.and_true]
    cases hwr : x.lp.lpDmaWr i with
    | false => rfl
    | true =>
        have hnot : x.lp.lpModeLdRam = false := by rw [hram, decide_eq_false hm]
        rw [if_pos rfl, if_pos rfl, cbuf_next hlegal hfits hwr hnot]

theorem Inv.next (h : Inv n a m x) (hlegal : Legal x i) (hfits : Fits x i) :
    Inv n a m (x.next i) where
  mode := (mode_next hlegal hfits).trans h.mode
  msyn := (msyn_next hlegal hfits).trans h.msyn
  devReqO := by
    rw [dma_next hlegal]
    exact LpDma.step_flags.1
  lpIncr := by
    rw [dma_next hlegal]
    exact LpDma.step_flags.2
  strobe := (strobe_next hlegal).trans (h.incr_next hlegal).symm
  reads := h.reads_next
  bar := h.bar_next hlegal hfits
  count := h.count_next hlegal hfits
  done := fun hdone => ⟨(h.done_next hlegal hfits hdone).1, (h.done_next hlegal hfits hdone).2,
    h.done_state hlegal hdone hfits⟩
  cksm := h.cksm_next hlegal hfits
  presented := h.presented_next hlegal hfits

/-! ## The start -/

variable {j : In}

theorem Starts.csraLow_eq (h : Starts j) : csraLow j = true := by
  have hgo := h.go
  unfold lpCmdGo at hgo
  rw [Bool.and_eq_true] at hgo
  exact hgo.1

theorem Starts.dma (h : Starts j) (hrest : AtRest x) :
    (x.next j).lp.dma.state = .wait ∧ (x.next j).lp.dma.devReqO = false ∧
      (x.next j).lp.dma.lpIncr = false := by
  have hgo : (x.lp.dmaIn j).lpCmdGo = true := h.go
  have herr : (x.lp.dmaIn j).lpErr = false := h.lpErr
  have hrst : (x.lp.dmaIn j).rst = false := h.rst
  have hstop : (x.lp.dmaIn j).lpCmdStop = false := by
    have hgo' := h.go
    show lpCmdStop j = false
    unfold lpCmdGo at hgo'
    unfold lpCmdStop
    rw [Bool.and_eq_true] at hgo'
    rw [hgo'.2, Bool.not_true, Bool.and_false]
  have hnext : (x.next j).lp.dma = x.lp.dma.step (x.lp.dmaIn j) := by
    show x.lp.dma.next (x.lp.dmaIn j) = _
    unfold LpDma.next
    rw [hrst, hstop, if_neg Bool.false_ne_true, if_neg Bool.false_ne_true]
  rw [hnext]
  unfold LpDma.step
  rw [hrest.state, hgo, herr]
  exact ⟨rfl, rfl, rfl⟩

theorem AtRest.not_wr (h : AtRest x) : x.lp.lpDmaWr j = false := by
  unfold LpXfer.lpDmaWr
  rw [h.devReqO, Bool.false_and]

/-- The registers after the write that starts the transfer. -/
theorem AtRest.start (h : AtRest x) (hstart : Starts j) :
    (x.next j).lp.regBar = startBar x j ∧ (x.next j).lp.count = x.lp.count ∧
      (x.next j).lp.regCksm = 0 ∧ (x.next j).lp.lpDone = false ∧
      (x.next j).lp.lpMode = csraMode j.lpDataI := by
  have hlow := hstart.csraLow_eq
  refine ⟨?_, ?_, ?_, ?_, ?_⟩
  · show x.lp.nextBar j = _
    unfold LpXfer.nextBar startBar
    rw [hstart.rst, hstart.init, hlow]
    rfl
  · show x.lp.nextCount j = _
    unfold LpXfer.nextCount
    rw [hstart.rst, hstart.init, hstart.bctr, h.lpIncr]
    rfl
  · show x.lp.nextCksm j = _
    unfold LpXfer.nextCksm
    rw [hstart.rst, hstart.go]
    rfl
  · show x.lp.nextDone j = _
    unfold LpXfer.nextDone LpXfer.lpSetDone
    rw [hstart.rst, hstart.init, hstart.bctr, h.lpIncr, Bool.and_false]
    exact h.lpDone
  · show x.lp.nextMode j = _
    unfold LpXfer.nextMode
    rw [hstart.rst, hstart.init, hlow]
    rfl

theorem AtRest.inv (h : AtRest x) (hstart : Starts j) (hmsyn : (x.next j).lp.lpTestMsyn = false) :
    Inv x.lp.count (startBar x j) (csraMode j.lpDataI) (x.next j) := by
  obtain ⟨hstate, hreq, hincr⟩ := hstart.dma h
  obtain ⟨hbar, hcount, hcksm, hdone, hmode⟩ := h.start hstart
  have hreads : (x.next j).reads = [] := by
    rw [reads_next, h.not_wr, if_neg Bool.false_ne_true, h.reads]
  have hbytes : (x.next j).bytes = [] := by
    unfold bytes
    rw [hreads]
    rfl
  have hstrobe : (x.next j).lp.strobe = false := by
    show (if j.rst then false else x.lp.lpDmaWr j) = false
    rw [h.not_wr, ite_self]
  have hpresented : (x.next j).presented = [] := by
    show (if x.presents then _ else _) = _
    unfold presents
    rw [h.strobe, Bool.false_and, if_neg Bool.false_ne_true, h.presented]
  refine ⟨hmode, hmsyn, ?_, ?_, ?_, ?_, ?_, fun _ => ?_, fun hd => ?_, ?_, ?_⟩
  · rw [hreq, hstate]
    rfl
  · rw [hincr, hstate]
    rfl
  · rw [hstrobe, hincr]
  · rw [hreads]
    rfl
  · rw [hincr, if_neg Bool.false_ne_true, hbar, hreads]
    exact (BitVec.add_zero _).symm
  · rw [hcount, hincr, hreads]
    rfl
  · rw [hdone] at hd
    cases hd
  · rw [hcksm, hbytes]
    rfl
  · unfold presents
    rw [hstrobe, Bool.false_and, if_neg Bool.false_ne_true, hpresented, hbytes, ite_self]

/-- A transfer of which the acknowledges are ignored never comes to its end. -/
structure Ignores (x : LpDmaRun) : Prop where
  msyn : x.lp.lpTestMsyn = true
  lpIncr : x.lp.dma.lpIncr = false
  lpDone : x.lp.lpDone = false

theorem Ignores.next (h : Ignores x) (hlegal : Legal x i) (hfits : Fits x i) :
    Ignores (x.next i) := by
  have hmsyn : (x.lp.dmaIn i).lpTestMsyn = true := h.msyn
  refine ⟨(msyn_next hlegal hfits).trans h.msyn, ?_, ?_⟩
  · rw [dma_next hlegal, LpDma.step_flags.2, decide_eq_false_iff_not, LpDma.step_next_iff, hmsyn]
    exact fun hread => nomatch hread.2.2
  · rw [done_next hlegal hfits, h.lpDone]
    unfold LpXfer.lpSetDone
    rw [h.lpIncr, Bool.and_false, Bool.false_or]

/-! ## The whole transfer -/

theorem Inv.whole (h : Inv n a m x) (hdone : x.lp.lpDone = true) : Whole n a m x := by
  obtain ⟨hcount, hlen, hstate⟩ := h.done hdone
  have hincr : x.lp.dma.lpIncr = false := by
    rw [h.lpIncr]
    rcases hstate with hs | hs | hs <;> rw [hs] <;> rfl
  refine ⟨?_, ?_, ?_, ?_, h.cksm⟩
  · rw [h.reads, hlen]
  · have hpresented := h.presented
    unfold presents at hpresented
    rwa [h.strobe, hincr, Bool.false_and, if_neg Bool.false_ne_true] at hpresented
  · have hbar := h.bar
    rwa [hincr, if_neg Bool.false_ne_true, hlen] at hbar
  · rw [hcount]
    apply BitVec.eq_of_toNat_eq
    have hlt := n.isLt
    rw [BitVec.toNat_add, BitVec.toNat_ofNat]
    unfold length
    show 0 = _
    omega

/-- A transfer that comes to its end is whole, if the writes of CSRA on its way fit. -/
theorem transfer_run (x : LpDmaRun) (j : In) (i : Nat → In) (t : Nat) (hrest : AtRest x)
    (hstart : Starts j)
    (hlegal : ∀ u, u < t → Legal (run next (x.next j) i u) (i u))
    (hfits : ∀ u, u < t → Fits (run next (x.next j) i u) (i u))
    (hdone : (run next (x.next j) i t).lp.lpDone = true) :
    Whole x.lp.count (startBar x j) (csraMode j.lpDataI) (run next (x.next j) i t) := by
  have hboth : ∀ u, u < t → Legal (run next (x.next j) i u) (i u) ∧
      Fits (run next (x.next j) i u) (i u) := fun u hu => ⟨hlegal u hu, hfits u hu⟩
  cases hmsyn : (x.next j).lp.lpTestMsyn with
  | false =>
      have hstep : ∀ y k, Legal y k ∧ Fits y k →
          Inv x.lp.count (startBar x j) (csraMode j.lpDataI) y →
          Inv x.lp.count (startBar x j) (csraMode j.lpDataI) (y.next k) :=
        fun _ _ hc hinv => hinv.next hc.1 hc.2
      exact (run_invariant_of (hrest.inv hstart hmsyn) hstep hboth).whole hdone
  | true =>
      have hzero : Ignores (x.next j) :=
        ⟨hmsyn, (hstart.dma hrest).2.2, (hrest.start hstart).2.2.2.1⟩
      have hstep : ∀ y k, Legal y k ∧ Fits y k → Ignores y → Ignores (y.next k) :=
        fun _ _ hc hignores => hignores.next hc.1 hc.2
      rw [(run_invariant_of hzero hstep hboth).lpDone] at hdone
      cases hdone

/-! ## A transfer of two bytes -/

/-- The controller after a reset, with two bytes to go. -/
def twoLeft : LpDmaRun where
  lp :=
    { dma := LpDma.reset, regBar := 0, count := 0o7776, regCksm := 0, regCbuf := 0,
      strobe := false, lpDone := false, lpMode := 0, lpTest := 0 }
  reads := []
  presented := []

/-- The printer is ready and the memory acknowledges in every clock. -/
def ready : In where
  rst := false
  devReset := false
  devLoByte := false
  devHiByte := false
  csraWrite := false
  csrbWrite := false
  barWrite := false
  bctrWrite := false
  cbufWrite := false
  lpDataI := 0o101000000
  devAckI := true
  lpErr := false
  lpReady := true

/-- The write of GO into the low byte of CSRA. -/
def goWrite : In := { ready with devLoByte := true, csraWrite := true, lpDataI := 1 }

theorem atRest_twoLeft : AtRest twoLeft := ⟨rfl, rfl, rfl, rfl, rfl, rfl, rfl⟩

theorem starts_goWrite : Starts goWrite := ⟨rfl, rfl, rfl, rfl, rfl, rfl, rfl⟩

theorem transfer_run_two :
    Whole twoLeft.lp.count (startBar twoLeft goWrite) (csraMode goWrite.lpDataI)
      (run next (twoLeft.next goWrite) (fun _ => ready) 8) :=
  transfer_run twoLeft goWrite (fun _ => ready) 8 atRest_twoLeft starts_goWrite
    (by decide +kernel) (by decide +kernel) (by decide +kernel)

/-- A second GO in the clock of the increment: the same byte is read again. -/
theorem transfer_fails :
    ¬ ∀ (x : LpDmaRun) (j : In) (i : Nat → In) (t : Nat), AtRest x → Starts j →
      (∀ u, u < t → Legal (run next (x.next j) i u) (i u)) →
      (∀ u, u < t → lpInit (i u) = false) →
      (run next (x.next j) i t).lp.lpDone = true →
      Whole x.lp.count (startBar x j) (csraMode j.lpDataI) (run next (x.next j) i t) := by
  intro h
  have hwhole := h twoLeft goWrite (fun u => if u = 3 then goWrite else ready) 8 atRest_twoLeft
    starts_goWrite (by decide +kernel) (by decide +kernel) (by decide +kernel)
  exact absurd hwhole.reads (by decide +kernel)

end LpDmaRun

end KS10
