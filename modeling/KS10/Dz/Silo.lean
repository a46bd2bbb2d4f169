import KS10.Clocked.Literal
import KS10.Clocked.Ring
import KS10.Clocked.Run

/-!
# The receive silo of the DZ11

The DZ11 has eight receivers.  A scanner visits them in turn, and a receiver that has a
character is emptied into the silo, a queue of 64 characters in a ring of 65 cells.  The
processor reads the silo through the register RBUF: the output of the ring is a register
of its own, and the read pointer moves on when the read is over.
-/

namespace KS10

open Clocked

/-! ## RBUF -/

/-- The registers of DZRBUF.  The depth and the pointers have seven bits and stay
below 65. -/
structure Rbuf where
  /-- The edge detector of the read strobe. -/
  last : Bool
  rdDly : Bool
  wrDly : Bool
  depth : Nat
  rdPtr : Nat
  wrPtr : Nat
  rbufOvre : Bool
  rbufDval : Bool
  countSa : BitVec 5
  rbufSa : Bool
  fifoData : BitVec 15
  dpram : Nat → BitVec 15

namespace Rbuf

/-- The inputs of DZRBUF at one clock. -/
structure In where
  rst : Bool
  clr : Bool
  csrMse : Bool
  csrSae : Bool
  scan : Fin 8
  uartRxFrme : Bool
  uartRxPare : Bool
  uartRxData : BitVec 8
  uartRxFull : Bool
  rbufRead : Bool

def fifoSize : Nat := 65

/-- The FIFO write. -/
def wr (i : In) : Bool := i.uartRxFull && i.csrMse

/-- The FIFO read, at the trailing edge of the read strobe. -/
def rd (s : Rbuf) (i : In) : Bool := !i.rbufRead && s.last

def empty (s : Rbuf) : Bool := s.depth == 0

def full (s : Rbuf) : Bool := s.depth == fifoSize - 1

/-- What a write stores: the error bits, the line and the character. -/
def wrData (s : Rbuf) (i : In) : BitVec 15 :=
  BitVec.ofBool s.rbufOvre ++ BitVec.ofBool i.uartRxFrme ++ BitVec.ofBool i.uartRxPare ++ 0#1
    ++ BitVec.ofNat 3 i.scan ++ i.uartRxData

/-- The pointer moves that a clock makes. -/
def pops (s : Rbuf) (i : In) : Bool := s.rd i && !wr i && !s.empty

def pushes (s : Rbuf) (i : In) : Bool := wr i && !s.rd i && !s.full

def nextDepth (s : Rbuf) (i : In) : Nat :=
  if i.clr then 0
  else if s.pops i then s.depth - 1
  else if s.pushes i then s.depth + 1
  else s.depth

def nextRdPtr (s : Rbuf) (i : In) : Nat :=
  if i.clr then 0 else if s.pops i then Ring.succ fifoSize s.rdPtr else s.rdPtr

def nextWrPtr (s : Rbuf) (i : In) : Nat :=
  if i.clr then 0 else if s.pushes i then Ring.succ fifoSize s.wrPtr else s.wrPtr

def nextOvre (s : Rbuf) (i : In) : Bool :=
  if i.clr then false else if wr i || s.rdDly then s.full else s.rbufOvre

def nextDval (s : Rbuf) (i : In) : Bool :=
  if i.clr then false else if s.rd i || s.wrDly then !s.empty else s.rbufDval

def nextCountSa (s : Rbuf) (i : In) : BitVec 5 :=
  if i.clr || s.rd i || !i.csrSae then 0 else if wr i then s.countSa + 1 else s.countSa

def nextSa (s : Rbuf) (i : In) : Bool :=
  if i.clr || s.rd i || !i.csrSae then false else if s.countSa == 16 then true else s.rbufSa

def nextDpram (s : Rbuf) (i : In) : Nat → BitVec 15 :=
  if wr i then Function.update s.dpram s.wrPtr (s.wrData i) else s.dpram

/-- The reset leaves the cells as they are. -/
def reset (s : Rbuf) : Rbuf :=
  { last := false, rdDly := false, wrDly := false, depth := 0, rdPtr := 0, wrPtr := 0
    rbufOvre := false, rbufDval := false, countSa := 0, rbufSa := false
    fifoData := s.fifoData, dpram := s.dpram }

/-- One clock of DZRBUF. -/
def next (s : Rbuf) (i : In) : Rbuf :=
  if i.rst then s.reset
  else
    { last := i.rbufRead
      rdDly := s.rd i
      wrDly := wr i
      depth := s.nextDepth i
      rdPtr := s.nextRdPtr i
      wrPtr := s.nextWrPtr i
      rbufOvre := s.nextOvre i
      rbufDval := s.nextDval i
      countSa := s.nextCountSa i
      rbufSa := s.nextSa i
      fifoData := s.dpram s.rdPtr
      dpram := s.nextDpram i }

def rbufRdone (s : Rbuf) : Bool := !s.empty

def regRbuf (s : Rbuf) : BitVec 16 := BitVec.ofBool s.rbufDval ++ s.fifoData

/-- The characters that the silo holds. -/
def held (s : Rbuf) : List (BitVec 15) := Ring.contents fifoSize s.dpram s.rdPtr s.depth

/-- The output shows the oldest character: no read has just ended, and the oldest
character was there before the last one was written. -/
def settled (s : Rbuf) : Bool := !s.rdDly && decide ((if s.wrDly then 1 else 0) < s.depth)

/-! ## The ring and its output -/

/-- What every clock keeps: the pointers stand around the contents, the data valid bit
lags a write by one clock, and a settled output shows the oldest character. -/
structure Sound (s : Rbuf) : Prop where
  depth : s.depth < fifoSize
  rdPtr : s.rdPtr < fifoSize
  wrPtr : s.wrPtr = Ring.slot fifoSize s.rdPtr s.depth
  dval : s.depth ≠ 0 → s.wrDly = false → s.rbufDval = true
  output : s.settled = true → s.rbufDval = true ∧ s.held.head? = some s.fifoData

variable {s : Rbuf} {i : In}

theorem length_held : s.held.length = s.depth := Ring.length_contents _ _ _

theorem empty_eq_false_iff : s.empty = false ↔ s.depth ≠ 0 := beq_eq_false_iff_ne

theorem full_eq_false (h : s.Sound) : s.full = false ↔ s.depth + 1 < fifoSize := by
  have hdepth := h.depth
  unfold full
  rw [beq_eq_false_iff_ne]
  unfold fifoSize at *
  omega

theorem next_of_run (h : i.rst = false) : s.next i =
    { last := i.rbufRead
      rdDly := s.rd i
      wrDly := wr i
      depth := s.nextDepth i
      rdPtr := s.nextRdPtr i
      wrPtr := s.nextWrPtr i
      rbufOvre := s.nextOvre i
      rbufDval := s.nextDval i
      countSa := s.nextCountSa i
      rbufSa := s.nextSa i
      fifoData := s.dpram s.rdPtr
      dpram := s.nextDpram i } := by
  unfold next
  rw [h, if_neg Bool.false_ne_true]

theorem of_pops (h : s.pops i = true) : s.rd i = true ∧ wr i = false ∧ s.depth ≠ 0 := by
  unfold pops at h
  rw [Bool.and_eq_true, Bool.and_eq_true, Bool.not_eq_true', Bool.not_eq_true',
    empty_eq_false_iff] at h
  exact ⟨h.1.1, h.1.2, h.2⟩

theorem Sound.of_pushes (h : s.Sound) (hpush : s.pushes i = true) :
    wr i = true ∧ s.depth + 1 < fifoSize := by
  unfold pushes at hpush
  rw [Bool.and_eq_true, Bool.and_eq_true, Bool.not_eq_true', Bool.not_eq_true',
    full_eq_false h] at hpush
  exact ⟨hpush.1.1, hpush.2⟩

theorem pops_of_not_rd (h : s.rd i = false) : s.pops i = false := by
  unfold pops
  rw [h]
  rfl

/-- A clock makes one move of the ring at most. -/
theorem not_pushes_of_pops (h : s.pops i = true) : s.pushes i = false := by
  unfold pushes
  rw [(of_pops h).2.1]
  rfl

/-- The write goes to the cell past the contents. -/
theorem held_write (h : s.Sound) :
    Ring.contents fifoSize (s.nextDpram i) s.rdPtr s.depth = s.held := by
  unfold nextDpram
  cases hwr : wr i with
  | false => rfl
  | true =>
      rw [if_pos rfl, h.wrPtr]
      exact Ring.contents_update _ _ h.rdPtr h.depth

/-- A read that is over takes the oldest character away, and a write appends one, unless
both fall into one clock. -/
theorem held_next (h : s.Sound) (hrst : i.rst = false) (hclr : i.clr = false) :
    (s.next i).held =
      if s.pops i then s.held.tail
      else if s.pushes i then s.held ++ [s.wrData i]
      else s.held := by
  rw [next_of_run hrst]
  show Ring.contents fifoSize (s.nextDpram i) (s.nextRdPtr i) (s.nextDepth i) = _
  unfold nextRdPtr nextDepth
  rw [hclr, if_neg Bool.false_ne_true, if_neg Bool.false_ne_true]
  cases hpop : s.pops i with
  | true =>
      rw [if_pos rfl, if_pos rfl, if_pos rfl]
      obtain ⟨-, hwr, hdepth⟩ := of_pops hpop
      obtain ⟨d, hd⟩ := Nat.exists_eq_succ_of_ne_zero hdepth
      unfold nextDpram held
      rw [hwr, if_neg Bool.false_ne_true, hd]
      rfl
  | false =>
      rw [if_neg Bool.false_ne_true, if_neg Bool.false_ne_true, if_neg Bool.false_ne_true]
      cases hpush : s.pushes i with
      | true =>
          rw [if_pos rfl, if_pos rfl]
          unfold nextDpram
          rw [(h.of_pushes hpush).1, if_pos rfl, h.wrPtr]
          exact Ring.contents_push _ _ h.rdPtr h.depth
      | false =>
          rw [if_neg Bool.false_ne_true, if_neg Bool.false_ne_true]
          exact held_write h

/-- A silo without characters is sound. -/
theorem sound_of_empty (hdepth : s.depth = 0) (hrd : s.rdPtr = 0) (hwr : s.wrPtr = 0) :
    s.Sound where
  depth := by rw [hdepth]; decide
  rdPtr := by rw [hrd]; decide
  wrPtr := by rw [hdepth, hrd, hwr]; rfl
  dval hne := absurd hdepth hne
  output hset := by
    unfold settled at hset
    rw [hdepth] at hset
    simp at hset

/-- A silo that is not empty and whose read does not end shows its oldest character a
clock later. -/
theorem output_next (h : s.Sound) (hrst : i.rst = false) (hclr : i.clr = false)
    (hrd : s.rd i = false) (hdepth : s.depth ≠ 0) :
    (s.next i).rbufDval = true ∧ (s.next i).held.head? = some (s.next i).fifoData := by
  have hpop := pops_of_not_rd hrd
  obtain ⟨d, hd⟩ := Nat.exists_eq_succ_of_ne_zero hdepth
  have hhead : s.held.head? = some (s.dpram s.rdPtr) := by
    unfold held
    rw [hd]
    rfl
  constructor
  · rw [next_of_run hrst]
    show s.nextDval i = true
    unfold nextDval
    rw [hclr, if_neg Bool.false_ne_true, hrd, Bool.false_or, empty_eq_false_iff.mpr hdepth]
    cases hdly : s.wrDly with
    | true => rfl
    | false =>
        rw [if_neg Bool.false_ne_true]
        exact h.dval hdepth hdly
  · have hdata : (s.next i).fifoData = s.dpram s.rdPtr := by rw [next_of_run hrst]
    rw [held_next h hrst hclr, hpop, if_neg Bool.false_ne_true, hdata]
    split
    · rw [List.head?_append, hhead]
      rfl
    · exact hhead

/-- The depth changes by the moves of the ring. -/
theorem depth_next (hclr : i.clr = false) : s.nextDepth i =
    if s.pops i then s.depth - 1 else if s.pushes i then s.depth + 1 else s.depth := by
  unfold nextDepth
  rw [hclr, if_neg Bool.false_ne_true]

theorem Sound.nextDepth_lt (h : s.Sound) (hclr : i.clr = false) : s.nextDepth i < fifoSize := by
  have hbound := h.depth
  rw [depth_next hclr]
  split
  · omega
  · split
    · rename_i hpush
      exact (h.of_pushes hpush).2
    · exact hbound

theorem Sound.nextRdPtr_lt (h : s.Sound) (hclr : i.clr = false) : s.nextRdPtr i < fifoSize := by
  unfold nextRdPtr
  rw [hclr, if_neg Bool.false_ne_true]
  split
  · exact Ring.succ_lt h.rdPtr
  · exact h.rdPtr

/-- The pointers stay around the contents. -/
theorem Sound.nextWrPtr_eq (h : s.Sound) (hclr : i.clr = false) :
    s.nextWrPtr i = Ring.slot fifoSize (s.nextRdPtr i) (s.nextDepth i) := by
  have hpos : 0 < fifoSize := by decide
  rw [depth_next hclr]
  unfold nextWrPtr nextRdPtr
  rw [hclr, if_neg Bool.false_ne_true, if_neg Bool.false_ne_true, h.wrPtr]
  cases hpop : s.pops i with
  | true =>
      obtain ⟨d, hd⟩ := Nat.exists_eq_succ_of_ne_zero (of_pops hpop).2.2
      rw [not_pushes_of_pops hpop, if_neg Bool.false_ne_true, if_pos rfl, if_pos rfl, hd,
        Ring.slot_succ h.rdPtr]
      rfl
  | false =>
      rw [if_neg Bool.false_ne_true, if_neg Bool.false_ne_true]
      split
      · exact Ring.succ_slot hpos
      · rfl

/-- Without a write the data valid bit has caught up with the depth. -/
theorem Sound.nextDval_eq (h : s.Sound) (hclr : i.clr = false) (hne : s.nextDepth i ≠ 0)
    (hwr : wr i = false) : s.nextDval i = true := by
  have hpush : s.pushes i = false := by
    unfold pushes
    rw [hwr]
    rfl
  have hold : s.depth ≠ 0 := by
    intro hzero
    rw [depth_next hclr, hpush, hzero] at hne
    simp at hne
  unfold nextDval
  rw [hclr, if_neg Bool.false_ne_true, empty_eq_false_iff.mpr hold]
  cases hold' : s.rd i || s.wrDly with
  | true => rfl
  | false =>
      rw [Bool.or_eq_false_iff] at hold'
      rw [if_neg Bool.false_ne_true]
      exact h.dval hold hold'.2

/-- An output that is settled after the clock had a character before it. -/
theorem Sound.not_empty_of_settled (h : s.Sound) (hclr : i.clr = false) (hrd : s.rd i = false)
    (hlt : (if wr i then 1 else 0) < s.nextDepth i) : s.depth ≠ 0 := by
  intro hzero
  rw [depth_next hclr, pops_of_not_rd hrd, hzero, if_neg Bool.false_ne_true] at hlt
  -- A character that comes into the empty silo is not settled at once.
  cases hpush : s.pushes i with
  | true =>
      rw [hpush, (h.of_pushes hpush).1] at hlt
      simp at hlt
  | false =>
      rw [hpush] at hlt
      simp at hlt

theorem Sound.next_of_run (h : s.Sound) (hrst : i.rst = false) (hclr : i.clr = false) :
    (s.next i).Sound := by
  have hnext := Rbuf.next_of_run (s := s) hrst
  have hdepth : (s.next i).depth = s.nextDepth i := by rw [hnext]
  have hrdPtr : (s.next i).rdPtr = s.nextRdPtr i := by rw [hnext]
  have hwrPtr : (s.next i).wrPtr = s.nextWrPtr i := by rw [hnext]
  have hdly : (s.next i).wrDly = wr i := by rw [hnext]
  have hrdDly : (s.next i).rdDly = s.rd i := by rw [hnext]
  refine ⟨?_, ?_, ?_, fun hne hwr => ?_, fun hset => ?_⟩
  · rw [hdepth]
    exact h.nextDepth_lt hclr
  · rw [hrdPtr]
    exact h.nextRdPtr_lt hclr
  · rw [hwrPtr, hrdPtr, hdepth]
    exact h.nextWrPtr_eq hclr
  · rw [hdepth] at hne
    rw [hdly] at hwr
    rw [hnext]
    exact h.nextDval_eq hclr hne hwr
  · unfold settled at hset
    rw [hrdDly, hdly, hdepth, Bool.and_eq_true, Bool.not_eq_true', decide_eq_true_eq] at hset
    exact output_next h hrst hclr hset.1 (h.not_empty_of_settled hclr hset.1 hset.2)

/-- Every clock keeps the silo sound. -/
theorem Sound.next (h : s.Sound) (i : In) : (s.next i).Sound := by
  cases hrst : i.rst with
  | true =>
      unfold Rbuf.next
      rw [hrst, if_pos rfl]
      exact sound_of_empty rfl rfl rfl
  | false =>
      cases hclr : i.clr with
      | false => exact h.next_of_run hrst hclr
      | true =>
          rw [Rbuf.next_of_run hrst]
          refine sound_of_empty ?_ ?_ ?_
          · show s.nextDepth i = 0
            unfold nextDepth
            rw [hclr, if_pos rfl]
          · show s.nextRdPtr i = 0
            unfold nextRdPtr
            rw [hclr, if_pos rfl]
          · show s.nextWrPtr i = 0
            unfold nextWrPtr
            rw [hclr, if_pos rfl]

end Rbuf

/-! ## The receivers and the scanner -/

/-- The receive side of the DZ11.  Of a receiver the full flag is a register here; the
character in its shift register enters as an input. -/
structure DzRx where
  scan : Fin 8
  rxFull : Fin 8 → Bool
  rbuf : Rbuf

namespace DzRx

/-- The inputs of one clock. -/
structure In where
  rst : Bool
  clr : Bool
  csrMse : Bool
  csrSae : Bool
  /-- The receiver has shifted in a character. -/
  rxDone : Fin 8 → Bool
  rxData : Fin 8 → BitVec 8
  rxPare : Fin 8 → Bool
  rxFrme : Fin 8 → Bool
  rbufRead : Bool

def rbufIn (s : DzRx) (i : In) : Rbuf.In where
  rst := i.rst
  clr := i.clr
  csrMse := i.csrMse
  csrSae := i.csrSae
  scan := s.scan
  uartRxFrme := i.rxFrme s.scan
  uartRxPare := i.rxPare s.scan
  uartRxData := i.rxData s.scan
  uartRxFull := s.rxFull s.scan
  rbufRead := i.rbufRead

/-- A character goes from its receiver into the silo. -/
def takes (s : DzRx) (i : In) : Bool := Rbuf.wr (s.rbufIn i)

/-- The character with its error bits and its line. -/
def char (s : DzRx) (i : In) : BitVec 15 := s.rbuf.wrData (s.rbufIn i)

/-- The read of RBUF is over. -/
def rd (s : DzRx) (i : In) : Bool := s.rbuf.rd (s.rbufIn i)

def uartRxClr (s : DzRx) (i : In) (n : Fin 8) : Bool := s.takes i && n == s.scan

def nextScan (s : DzRx) (i : In) : Fin 8 :=
  if i.rst || i.clr then 0 else if i.csrMse then s.scan + 1 else s.scan

def nextRxFull (s : DzRx) (i : In) (n : Fin 8) : Bool :=
  if i.rst || s.uartRxClr i n || i.clr then false
  else if i.rxDone n then true
  else s.rxFull n

/-- One clock of the receive side. -/
def next (s : DzRx) (i : In) : DzRx where
  scan := s.nextScan i
  rxFull := s.nextRxFull i
  rbuf := s.rbuf.next (s.rbufIn i)

/-- A receiver is emptied at most once for each character it shifts in. -/
theorem takes_once {s : DzRx} {i : In} (h : s.takes i = true) :
    s.rxFull s.scan = true ∧ (s.next i).rxFull s.scan = false := by
  constructor
  · unfold takes Rbuf.wr at h
    rw [Bool.and_eq_true] at h
    exact h.1
  · show s.nextRxFull i s.scan = false
    unfold nextRxFull uartRxClr
    rw [h, beq_self_eq_true, Bool.true_and, Bool.or_true, Bool.true_or, if_pos rfl]

end DzRx

end KS10
