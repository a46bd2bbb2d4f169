import KS10.Clocked.Store
import KS10.Lp.Transfer

/-!
# The translation RAM

LPRAMD holds the translation RAM of the printer: an entry of thirteen bits for every byte.
In RAM mode the DMA loads it.  The address register has nine bits and counts the bytes of
the transfer, so each half-word of the memory is written twice, at the address in the upper
eight bits.  In the modes that print, a byte that comes is the address of its own entry
(`translates`).
-/

namespace KS10

open Clocked

/-- The address register of LPRAMD and its two RAMs, for data with parity and for control. -/
structure LpRamd where
  lpAddr : BitVec 9
  ram0 : BitVec 8 → BitVec 9
  ram1 : BitVec 8 → BitVec 9

/-- LPRAMD with the DMA that loads it. -/
structure LpRamLoad where
  tr : LpDmaRun
  ramd : LpRamd

namespace LpRamLoad

open LpXfer (lpInit lpCmdGo cbufDat byteDataI modeRam)

/-- The inputs of one clock. -/
structure In extends LpXfer.In where
  ramdWrite : Bool

/-! ## The registers -/

def modePrint : BitVec 2 := 0b00
def modeTest : BitVec 2 := 0b01
def modeDavfu : BitVec 2 := 0b10
def testRamPar : BitVec 3 := 0b011

def lpModePrint (s : LpRamLoad) : Bool := s.tr.lp.lpMode == modePrint
def lpModeTest (s : LpRamLoad) : Bool := s.tr.lp.lpMode == modeTest
def lpModeLdVfu (s : LpRamLoad) : Bool := s.tr.lp.lpMode == modeDavfu

def lpTestRpe (s : LpRamLoad) : Bool := s.lpModeTest && s.tr.lp.lpTest == testRamPar

/-- The request is acknowledged. -/
def dmaWr (s : LpRamLoad) (i : In) : Bool := s.tr.lp.lpDmaWr i.toIn

def ramWrite (s : LpRamLoad) (i : In) : Bool :=
  i.ramdWrite || (s.dmaWr i && s.tr.lp.lpModeLdRam)

/-- The half-word that goes into the RAM. -/
def wordDataI (s : LpRamLoad) (i : In) : BitVec 13 :=
  if i.ramdWrite then i.lpDataI.extractLsb' 0 13
  else if s.tr.lp.regBar.getLsbD 1 then i.lpDataI.extractLsb' 0 13
  else i.lpDataI.extractLsb' 18 13

/-- The exclusive or of the bits of a word. -/
def xorBits {w : Nat} (d : BitVec w) : Bool :=
  (List.range w).foldr (fun k p => d.getLsbD k ^^ p) false

def ramParityIn (rpe : Bool) (d : BitVec 13) : Bool :=
  !xorBits (BitVec.ofBool rpe ++ d.extractLsb' 0 12)

def ramAddr (s : LpRamLoad) : BitVec 8 := s.ramd.lpAddr.extractLsb' 1 8

def nextAddr (s : LpRamLoad) (i : In) : BitVec 9 :=
  if i.rst then 0
  else if lpCmdGo i.toIn && s.tr.lp.lpModeLdRam then 0
  else if i.cbufWrite then cbufDat i.lpDataI ++ 0#1
  else if (s.lpModePrint && s.dmaWr i) || (s.lpModeTest && s.dmaWr i) then
    byteDataI s.tr.lp.regBar i.lpDataI ++ 0#1
  else if s.tr.lp.dma.lpIncr && s.tr.lp.lpModeLdRam then s.ramd.lpAddr + 1
  else s.ramd.lpAddr

/-- The write port of the data. -/
def port0 (s : LpRamLoad) (i : In) : Write (BitVec 8) (BitVec 9) where
  enable := s.ramWrite i
  addr := s.ramAddr
  data := BitVec.ofBool (ramParityIn s.lpTestRpe (s.wordDataI i)) ++
    (s.wordDataI i).extractLsb' 0 8

/-- The write port of the control bits. -/
def port1 (s : LpRamLoad) (i : In) : Write (BitVec 8) (BitVec 9) where
  enable := s.ramWrite i && !s.lpModeLdVfu
  addr := s.ramAddr
  data := 0#5 ++ (s.wordDataI i).extractLsb' 8 4

/-- One clock. -/
def next (s : LpRamLoad) (i : In) : LpRamLoad where
  tr := s.tr.next i.toIn
  ramd :=
    { lpAddr := s.nextAddr i
      ram0 := (s.port0 i).apply s.ramd.ram0
      ram1 := (s.port1 i).apply s.ramd.ram1 }

/-- The RAM data register on the bus and at the printer. -/
def regRamd (s : LpRamLoad) : BitVec 16 :=
  let ramData := s.ramd.ram0 s.ramAddr
  let ramCtrl := s.ramd.ram1 s.ramAddr
  if s.lpModeLdVfu then 0#3 ++ (ramData.extractLsb' 8 1 ++ (0#4 ++ ramData.extractLsb' 0 8))
  else 0#3 ++ (ramData.extractLsb' 8 1 ++ (ramCtrl.extractLsb' 0 4 ++ ramData.extractLsb' 0 8))

/-! ## The table -/

/-- The entry of a byte: parity, control and data. -/
def entry (r : LpRamd) (b : BitVec 8) : BitVec 13 :=
  (r.ram0 b).extractLsb' 8 1 ++ ((r.ram1 b).extractLsb' 0 4 ++ (r.ram0 b).extractLsb' 0 8)

/-- The entry for a half-word. -/
def stored (d : BitVec 13) : BitVec 13 :=
  BitVec.ofBool (ramParityIn false d) ++ d.extractLsb' 0 12

/-- The half-word of a memory at an address of the bus.  The memory is given by what the bus
adapter returns for the addresses, two bits of which select a byte. -/
def halfAt (mem : BitVec 16 → BitVec 36) (a : BitVec 18) : BitVec 13 :=
  if a.getLsbD 1 then (mem (a.extractLsb' 2 16)).extractLsb' 0 13
  else (mem (a.extractLsb' 2 16)).extractLsb' 18 13

/-- The half-words from an address on are in the entries from zero on, as far as the bytes
of the transfer go, and the other entries are as they were. -/
structure Loaded (mem : BitVec 16 → BitVec 36) (a : BitVec 18) (bytes : Nat)
    (old new : BitVec 8 → BitVec 13) : Prop where
  loaded : ∀ b : BitVec 8, 2 * b.toNat < bytes →
    new b = stored (halfAt mem (a + BitVec.ofNat 18 (2 * b.toNat)))
  kept : ∀ b : BitVec 8, bytes ≤ 2 * b.toNat → new b = old b

/-- An entry as the register shows it.  It has no control bits in DAVFU mode. -/
def shown (vfu : Bool) (e : BitVec 13) : BitVec 16 :=
  if vfu then 0#3 ++ (e.extractLsb' 12 1 ++ (0#4 ++ e.extractLsb' 0 8)) else 0#3 ++ e

/-- The byte that the address register takes: a character to print or to test, or one that
is written into the character buffer. -/
def addressed (s : LpRamLoad) (i : In) : Option (BitVec 8) :=
  if i.cbufWrite then some (cbufDat i.lpDataI)
  else if (s.lpModePrint || s.lpModeTest) && s.dmaWr i then
    some (byteDataI s.tr.lp.regBar i.lpDataI)
  else none

/-- The clock does not clear the address register. -/
structure Spares (s : LpRamLoad) (i : In) : Prop where
  rst : i.rst = false
  go : (lpCmdGo i.toIn && s.tr.lp.lpModeLdRam) = false

/-- The clock does not change the address register. -/
structure Leaves (s : LpRamLoad) (i : In) : Prop extends Spares s i where
  addressed : s.addressed i = none
  incr : (s.tr.lp.dma.lpIncr && s.tr.lp.lpModeLdRam) = false

/-- From this state on, every byte that comes is shown with its own entry, until the next one
comes or the RAM is written. -/
def Translates (s : LpRamLoad) : Prop :=
  ∀ (i : Nat → In) (u v : Nat) (b : BitVec 8), u < v →
    (∀ w, w < v → (run next s i w).ramWrite (i w) = false) →
    Spares (run next s i u) (i u) → (run next s i u).addressed (i u) = some b →
    (∀ w, u < w → w < v → Leaves (run next s i w) (i w)) →
    (run next s i v).regRamd = shown (run next s i v).lpModeLdVfu (entry s.ramd b) ∧
      (lpInit (i u).toIn = false → (run next s i (u + 1)).tr.lp.regCbuf = b)

/-! ## The RAM -/

variable {s : LpRamLoad} {i : In}

theorem entry_next (b : BitVec 8) : entry (s.next i).ramd b =
    ((s.port0 i).apply s.ramd.ram0 b).extractLsb' 8 1 ++
      (((s.port1 i).apply s.ramd.ram1 b).extractLsb' 0 4 ++
        ((s.port0 i).apply s.ramd.ram0 b).extractLsb' 0 8) := rfl

/-- A clock that does not write the RAM keeps its entries. -/
theorem entry_of_not_write (h : s.ramWrite i = false) (b : BitVec 8) :
    entry (s.next i).ramd b = entry s.ramd b := by
  have h0 : (s.port0 i).enable = false := h
  have h1 : (s.port1 i).enable = false := by
    show (s.ramWrite i && _) = false
    rw [h, Bool.false_and]
  rw [entry_next, Write.apply_of_disabled h0, Write.apply_of_disabled h1]
  rfl

/-- The fields of a half-word are those of its entry. -/
theorem fields_of_word (p : Bool) (d : BitVec 13) :
    (BitVec.ofBool p ++ d.extractLsb' 0 8).extractLsb' 8 1 ++
        ((0#5 ++ d.extractLsb' 8 4).extractLsb' 0 4 ++
          (BitVec.ofBool p ++ d.extractLsb' 0 8).extractLsb' 0 8) =
      BitVec.ofBool p ++ d.extractLsb' 0 12 := by
  have hjoin : d.extractLsb' 8 4 ++ d.extractLsb' 0 8 = d.extractLsb' 0 12 :=
    BitVec.extractLsb'_append_extractLsb'_eq_extractLsb' rfl
  rw [BitVec.extractLsb'_append_eq_left, BitVec.extractLsb'_append_eq_right,
    BitVec.extractLsb'_append_eq_right, hjoin]

/-- In RAM mode a write goes to one entry, whole. -/
theorem entry_of_write (h : s.ramWrite i = true) (hmode : s.tr.lp.lpMode = modeRam)
    (b : BitVec 8) : entry (s.next i).ramd b =
      if b = s.ramAddr then stored (s.wordDataI i) else entry s.ramd b := by
  have hvfu : s.lpModeLdVfu = false := by
    unfold lpModeLdVfu
    rw [hmode]
    rfl
  have hrpe : s.lpTestRpe = false := by
    unfold lpTestRpe lpModeTest
    rw [hmode]
    rfl
  have h0 : (s.port0 i).enable = true := h
  have h1 : (s.port1 i).enable = true := by
    show (s.ramWrite i && !s.lpModeLdVfu) = true
    rw [h, hvfu]
    rfl
  rw [entry_next]
  by_cases hb : b = s.ramAddr
  · have hat0 : (s.port0 i).apply s.ramd.ram0 b = (s.port0 i).data := by
      rw [hb]
      exact Write.apply_addr h0
    have hat1 : (s.port1 i).apply s.ramd.ram1 b = (s.port1 i).data := by
      rw [hb]
      exact Write.apply_addr h1
    rw [hat0, hat1, if_pos hb]
    unfold port0 port1 stored
    rw [hrpe]
    exact fields_of_word _ _
  · have hne0 : b ≠ (s.port0 i).addr := hb
    have hne1 : b ≠ (s.port1 i).addr := hb
    rw [Write.apply_of_ne hne0, Write.apply_of_ne hne1, if_neg hb]
    rfl

theorem regRamd_eq : s.regRamd = shown s.lpModeLdVfu (entry s.ramd s.ramAddr) := by
  unfold regRamd shown entry
  cases s.lpModeLdVfu with
  | false => rfl
  | true =>
      have hdata : ∀ (p : BitVec 1) (c : BitVec 4) (d : BitVec 8),
          (p ++ (c ++ d)).extractLsb' 0 8 = d := fun p c d => by
        rw [BitVec.extractLsb'_append_eq_of_add_le (by decide),
          BitVec.extractLsb'_append_eq_right]
      rw [if_pos rfl, if_pos rfl, BitVec.extractLsb'_append_eq_left, hdata]

/-! ## The translation -/

/-- The address register takes the byte that comes, with the low bit up. -/
theorem nextAddr_eq (h : Spares s i) : s.nextAddr i =
    match s.addressed i with
    | some b => b ++ 0#1
    | none =>
        if s.tr.lp.dma.lpIncr && s.tr.lp.lpModeLdRam then s.ramd.lpAddr + 1
        else s.ramd.lpAddr := by
  unfold nextAddr addressed
  rw [h.rst, h.go, if_neg Bool.false_ne_true, if_neg Bool.false_ne_true,
    ← Bool.and_or_distrib_right]
  split
  · rfl
  · split
    · rfl
    · rfl

theorem ramAddr_of_addressed {b : BitVec 8} (h : Spares s i) (hb : s.addressed i = some b) :
    (s.next i).ramAddr = b := by
  have haddr : (s.next i).ramd.lpAddr = b ++ 0#1 := by
    show s.nextAddr i = _
    rw [nextAddr_eq h, hb]
  unfold ramAddr
  rw [haddr]
  exact BitVec.extractLsb'_append_eq_left

theorem ramAddr_of_leaves (h : Leaves s i) : (s.next i).ramAddr = s.ramAddr := by
  have haddr : (s.next i).ramd.lpAddr = s.ramd.lpAddr := by
    show s.nextAddr i = _
    rw [nextAddr_eq h.toSpares, h.addressed, h.incr]
    rfl
  unfold ramAddr
  rw [haddr]

/-- A byte comes from a write of the character buffer, or from the DMA of a print or a test. -/
theorem of_addressed {b : BitVec 8} (hb : s.addressed i = some b) :
    i.cbufWrite = true ∧ cbufDat i.lpDataI = b ∨
      i.cbufWrite = false ∧ s.tr.lp.lpModeLdRam = false ∧ s.tr.lp.lpDmaWr i.toIn = true ∧
        byteDataI s.tr.lp.regBar i.lpDataI = b := by
  unfold addressed at hb
  split at hb
  · next hcbuf => exact .inl ⟨hcbuf, Option.some.inj hb⟩
  · next hcbuf =>
      split at hb
      · next hwr =>
          rw [Bool.and_eq_true] at hwr
          have hram : s.tr.lp.lpModeLdRam = false := by
            have hmode := hwr.1
            unfold lpModePrint lpModeTest at hmode
            unfold LpXfer.lpModeLdRam
            rw [Bool.or_eq_true, beq_iff_eq, beq_iff_eq] at hmode
            rcases hmode with hm | hm <;> rw [hm] <;> rfl
          exact .inr ⟨Bool.eq_false_iff.mpr hcbuf, hram, hwr.2, Option.some.inj hb⟩
      · cases hb

/-- The byte is in the character buffer too. -/
theorem cbuf_of_addressed {b : BitVec 8} (h : Spares s i) (hinit : lpInit i.toIn = false)
    (hb : s.addressed i = some b) : (s.next i).tr.lp.regCbuf = b := by
  show s.tr.lp.nextCbuf i.toIn = b
  unfold LpXfer.nextCbuf
  rw [h.rst, hinit, if_neg Bool.false_ne_true, if_neg Bool.false_ne_true]
  rcases of_addressed hb with ⟨hcbuf, hdata⟩ | ⟨hcbuf, hram, hreq, hdata⟩
  · rw [hcbuf, if_pos rfl, hdata]
  · rw [hcbuf, if_neg Bool.false_ne_true, hram, hreq, Bool.not_false, Bool.true_and, if_pos rfl,
      hdata]

/-- The entries stay as long as the RAM is not written. -/
theorem entry_run {i : Nat → In} {v : Nat}
    (h : ∀ w, w < v → (run next s i w).ramWrite (i w) = false) (b : BitVec 8) :
    entry (run next s i v).ramd b = entry s.ramd b := by
  induction v with
  | zero => rfl
  | succ v ih =>
      rw [run_succ, entry_of_not_write (h v (Nat.lt_succ_self v))]
      exact ih fun w hw => h w (Nat.lt_succ_of_lt hw)

/-- Every state of the controller translates. -/
theorem translates (s : LpRamLoad) : Translates s := by
  intro i u v b huv hwrite hspare hb hleave
  have haddr : (run next s i v).ramAddr = b := by
    induction v, huv using Nat.le_induction with
    | base => exact ramAddr_of_addressed hspare hb
    | succ v huv ih =>
        have hv := hleave v huv (Nat.lt_succ_self v)
        rw [run_succ, ramAddr_of_leaves hv]
        exact ih (fun w hw => hwrite w (Nat.lt_succ_of_lt hw))
          fun w huw hw => hleave w huw (Nat.lt_succ_of_lt hw)
  refine ⟨?_, fun hinit => cbuf_of_addressed hspare hinit hb⟩
  rw [regRamd_eq, haddr, entry_run hwrite]

end LpRamLoad

end KS10
