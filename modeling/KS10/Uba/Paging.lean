import KS10.Bus.Memory
import KS10.Bus.Monitors
import KS10.Uba.Sharing

/-!
# The page table of the adapter

The devices of an adapter reach the memory through a page table.  The processor and the
console write it and read it back, in two formats of a word, and a third one is kept.

A request of a device is checked against its entry.  The check sets the time-out in the
status register and does nothing else.  The bus request of the adapter does not know of
it, and so the cycle takes place, through the entry that failed.
-/

namespace KS10

open Clocked

namespace Uba

/-! ## Decoding -/

def pageWrite (c : Conf) (addr : BitVec 36) : Bool :=
  Bus.busWrite addr && addressed c addr
    && field (Bus.busIoAddr addr) 0 11 == field (pageAddr c) 0 11

def statWrite (c : Conf) (addr : BitVec 36) : Bool :=
  Bus.busWrite addr && addressed c addr && Bus.busIoAddr addr == statAddr c

/-! ## Entries -/

/-- The entry for a word on the bus. -/
def pageEntry (word : BitVec 36) : BitVec 15 := field word 18 21 ++ field word 25 35

def flagsFTM (flags : BitVec 4) : Bool := bit flags 2
def flagsVLD (flags : BitVec 4) : Bool := bit flags 3

/-- The check of a request. -/
def pageFail (ram : PageRam) (busReqO : Bool) (addr : BitVec 36) : Bool :=
  let pageFlags := field (ram (field addr 19 24)) 0 3
  (busReqO && bit addr 18)
    || (busReqO && flagsFTM pageFlags && bit addr 34)
    || (busReqO && flagsFTM pageFlags && bit addr 35)
    || (busReqO && !flagsVLD pageFlags)

end Uba

/-! ## The status register -/

structure UbaSr where
  statTMO : Bool
  statNXD : Bool
  statDXF : Bool
  statPIH : BitVec 3
  statPIL : BitVec 3
  rstCount : BitVec 5
  deriving DecidableEq

namespace UbaSr

structure In where
  busDataI : BitVec 36
  statWrite : Bool
  setNXD : Bool
  setTMO : Bool

/-- One microsecond. -/
def rstTime : BitVec 5 := 12

/-- One clock of UBASR. -/
def next (s : UbaSr) (i : In) : UbaSr where
  statTMO :=
    if i.statWrite then if bit i.busDataI 29 then false else s.statTMO && !bit i.busDataI 18
    else if i.setTMO || i.setNXD then true
    else s.statTMO
  statNXD :=
    if i.statWrite then if bit i.busDataI 29 then false else s.statNXD && !bit i.busDataI 21
    else if i.setNXD then true
    else s.statNXD
  statDXF :=
    if i.statWrite then if bit i.busDataI 29 then false else bit i.busDataI 28 else s.statDXF
  statPIH :=
    if i.statWrite then if bit i.busDataI 29 then 0 else field i.busDataI 30 32 else s.statPIH
  statPIL :=
    if i.statWrite then if bit i.busDataI 29 then 0 else field i.busDataI 33 35 else s.statPIL
  rstCount :=
    if i.statWrite && bit i.busDataI 29 then rstTime
    else if s.rstCount != 0 then s.rstCount - 1
    else s.rstCount

def statINI (s : UbaSr) : Bool := s.rstCount != 0

def regUbaSr (s : UbaSr) (statIntHi statIntLo : Bool) : BitVec 36 :=
  0#18 ++ BitVec.ofBool s.statTMO ++ 0#2 ++ BitVec.ofBool s.statNXD ++ 0#2
    ++ BitVec.ofBool statIntHi ++ BitVec.ofBool statIntLo ++ 0#2 ++ BitVec.ofBool s.statDXF
    ++ BitVec.ofBool s.statINI ++ s.statPIH ++ s.statPIL

end UbaSr

/-! ## The adapter -/

structure Paging where
  nxd : UbaNxd
  tmo : UbaTmo
  sr : UbaSr
  pageRam : PageRam

/-- The inputs of one clock: the lines of the others at the arbiter and those of the
devices. -/
structure Paging.In where
  others : Arb.In
  devs : Devices
  regUbaMr : Bool
  statIntHi : Bool
  statIntLo : Bool

namespace Paging

variable (a : Shared) (s : Paging) (i : In)

/-- The wires of the adapter, with the page table as it is. -/
def wires (ram : PageRam) : Shared.In where
  others := i.others
  devs := i.devs
  regs := { regUbaMr := i.regUbaMr, statPih := s.sr.statPIH, statPil := s.sr.statPIL }
  regUbaSr := s.sr.regUbaSr i.statIntHi i.statIntLo
  pageRam := ram

/-- The address on the adapter's bus, which does not depend on the page table. -/
def busAddrI : BitVec 36 := a.busAddrI (s.wires i s.pageRam)

def busDataI : BitVec 36 :=
  Arb.ubaDataO { i.others with toReqs := a.reqs (s.wires i s.pageRam) } a.slot

/-- The write port of the page table, for the words on the bus. -/
def wordPort : Write (BitVec 6) (BitVec 36) where
  enable := Uba.pageWrite a.conf (s.busAddrI a i)
  addr := field (s.busAddrI a i) 30 35
  data := s.busDataI a i

/-- The page table after the write, which takes place in the middle of the clock. -/
def ramNow : PageRam := ((s.wordPort a i).map Uba.pageEntry).apply s.pageRam

def now : Shared.In := s.wires i (s.ramNow a i)

def arb : Arb.In := a.arb s.nxd (s.now a i)

def busAckI : Bool := Arb.ubaAckO (s.arb a i) a.slot

def pageFail : Bool :=
  Uba.pageFail (s.ramNow a i) (Uba.busReqO i.devs)
    (Uba.devAddr i.devs (a.busReqI (s.now a i)) (s.busAddrI a i))

/-- The memory's side of the bus. -/
def memIn : Mem.In where
  rst := false
  busAddrI := Arb.memAddrO (s.arb a i)
  busDataI := Arb.memDataO (s.arb a i)

/-- One clock of the adapter. -/
def next : Paging where
  nxd := a.next s.nxd (s.now a i)
  tmo := s.tmo.next { busReqO := Uba.busReqO i.devs, busAckI := s.busAckI a i }
  sr := s.sr.next
    { busDataI := s.busDataI a i
      statWrite := Uba.statWrite a.conf (s.busAddrI a i)
      setNXD := s.nxd.setNxd
      setTMO := s.tmo.setTmo || s.pageFail a i }
  pageRam := s.ramNow a i

/-! ## One clock -/

/-- The adapter has the bus for the request of the device `k`. -/
structure Cycle (k : Fin 4) : Prop where
  winner : Arb.winner (s.arb a i) = some (.uba a.slot)
  first : Shared.FirstRequest (s.now a i) k

/-- The memory reads or writes a word. -/
def Touches : Prop := Mem.memRead (s.memIn a i) = true ∨ Mem.memWrite (s.memIn a i) = true

variable {a s i}

theorem Cycle.grant {k : Fin 4} (h : s.Cycle a i k) :
    Arb.grant (a.reqs (s.now a i)) = .uba a.slot :=
  Shared.grant_of_memory h.winner

/-- The memory sees the address of the device through its entry. -/
theorem Cycle.memAddr {k : Fin 4} (h : s.Cycle a i k) :
    (s.memIn a i).busAddrI = Uba.paged (s.ramNow a i) (i.devs.devAddrI k) :=
  (Shared.presents_of_grant h.winner h.first).1

/-- Nobody addresses the adapter. -/
theorem Cycle.busAddrI {k : Fin 4} (h : s.Cycle a i k) : s.busAddrI a i = 0 := by
  have hgrant : Arb.grant (a.reqs (s.wires i s.pageRam)) = .uba a.slot := h.grant
  unfold Paging.busAddrI Shared.busAddrI Arb.ubaAddrO
  rw [hgrant]

/-- The check is made of the address of the device. -/
theorem Cycle.pageFail {k : Fin 4} (h : s.Cycle a i k) :
    s.pageFail a i = Uba.pageFail (s.ramNow a i) true (i.devs.devAddrI k) := by
  have hreq : Uba.busReqO i.devs = true := Shared.busReqO_of_grant h.grant
  have hfirst : Uba.devMux i.devs false i.devs.devAddrI = i.devs.devAddrI k := by
    refine Shared.devMux_first ?_ fun m hm => ?_
    · rw [Bool.false_and, Bool.false_or]
      exact h.first.1
    · rw [Bool.false_and, Bool.false_or]
      exact h.first.2 m hm
  unfold Paging.pageFail Uba.devAddr
  rw [hreq, Shared.busReqI_of_grant h.grant, Bool.false_and, if_neg Bool.false_ne_true, hfirst]

/-- A request that fails sets the time-out. -/
theorem Cycle.statTMO {k : Fin 4} (h : s.Cycle a i k) (hfail : s.pageFail a i = true) :
    (s.next a i).sr.statTMO = true := by
  have hwrite : Uba.statWrite a.conf 0 = false := by
    have hbus : Bus.busWrite 0 = false := by decide
    unfold Uba.statWrite
    rw [hbus]
    rfl
  unfold Paging.next UbaSr.next
  simp only [h.busAddrI, hwrite, hfail, Bool.or_true, Bool.true_or, Bool.false_eq_true, if_false,
    if_true]

/-! ## Formats -/

theorem field_paged_left {ram : PageRam} {addr : BitVec 36} {n : Nat} (hn : n < 16) :
    bit (Uba.paged ram addr) n = bit addr n := by
  have hleft : ¬ 16 ≤ n := by omega
  have hmiddle : ¬ 16 + 11 ≤ n := by omega
  unfold Uba.paged
  rw [bit_append, if_neg hmiddle, bit_append, if_neg hleft]
  refine (bit_field addr (a := 0) (b := 15) (by omega) (by omega) (by omega)).trans ?_
  rw [Nat.zero_add]

/-- The function of the cycle passes the page table. -/
theorem Cycle.touches_iff {k : Fin 4} (h : s.Cycle a i k) :
    s.Touches a i ↔ bit (i.devs.devAddrI k) 10 = false ∧
      (bit (i.devs.devAddrI k) 3 = true ∨ bit (i.devs.devAddrI k) 5 = true) := by
  unfold Touches Mem.memRead Mem.memWrite Mem.busRead Mem.busWrite Mem.busIo
  rw [h.memAddr, field_paged_left (by decide), field_paged_left (by decide),
    field_paged_left (by decide)]
  cases bit (i.devs.devAddrI k) 10 with
  | false => simp
  | true => simp

theorem pageEntry_flags (word : BitVec 36) :
    field (Uba.pageEntry word) 0 3 = field word 18 21 := field_left _ _

theorem pageEntry_page (word : BitVec 36) :
    field (Uba.pageEntry word) 4 14 = field word 25 35 := field_right _ _

/-- The word address of the memory is the page of the entry with the offset of the device. -/
theorem busMemAddr_paged (ram : PageRam) (addr word : BitVec 36)
    (h : ram (field addr 19 24) = Uba.pageEntry word) :
    field (Uba.paged ram addr) 16 35 = field word 25 35 ++ field addr 25 33 := by
  unfold Uba.paged
  rw [h, pageEntry_page, BitVec.append_assoc]
  exact field_right _ _

/-- The read back of an entry that was written with the word. -/
def readBack (word : BitVec 36) : BitVec 36 :=
  0#5 ++ field word 18 21 ++ 0#7 ++ field word 25 35 ++ 0#9

theorem pageDataO_eq (ram : PageRam) (addr word : BitVec 36)
    (h : ram (field addr 30 35) = Uba.pageEntry word) :
    Uba.pageDataO ram addr = readBack word := by
  show 0#5 ++ field (ram (field addr 30 35)) 0 3 ++ 0#7 ++ field (ram (field addr 30 35)) 4 14
    ++ 0#9 = readBack word
  rw [h, pageEntry_flags, pageEntry_page, readBack]

/-- The check looks at two of the flags. -/
theorem pageFail_iff {ram : PageRam} {addr word : BitVec 36}
    (h : ram (field addr 19 24) = Uba.pageEntry word) :
    Uba.pageFail ram true addr = true ↔
      bit addr 18 = true ∨ bit word 21 = false ∨
        bit word 20 = true ∧ (bit addr 34 = true ∨ bit addr 35 = true) := by
  have hvld : Uba.flagsVLD (field (ram (field addr 19 24)) 0 3) = bit word 21 := by
    rw [h, pageEntry_flags]
    exact bit_field word (a := 18) (b := 21) (k := 3) (by decide) (by decide) (by decide)
  have hftm : Uba.flagsFTM (field (ram (field addr 19 24)) 0 3) = bit word 20 := by
    rw [h, pageEntry_flags]
    exact bit_field word (a := 18) (b := 21) (k := 2) (by decide) (by decide) (by decide)
  unfold Uba.pageFail
  simp only [hvld, hftm, Bool.true_and, Bool.or_eq_true, Bool.and_eq_true, Bool.not_eq_true']
  constructor
  · rintro (((h17 | h34) | h35) | hinvalid)
    · exact Or.inl h17
    · exact Or.inr (Or.inr ⟨h34.1, Or.inl h34.2⟩)
    · exact Or.inr (Or.inr ⟨h35.1, Or.inr h35.2⟩)
    · exact Or.inr (Or.inl hinvalid)
  · rintro (h17 | hinvalid | ⟨hf, h34 | h35⟩)
    · exact Or.inl (Or.inl (Or.inl h17))
    · exact Or.inr hinvalid
    · exact Or.inl (Or.inl (Or.inr ⟨hf, h34⟩))
    · exact Or.inl (Or.inr ⟨hf, h35⟩)

/-! ## Reading back -/

/-- A read of the page table is answered with the entry. -/
theorem busDataO_of_pageRead (h : Uba.pageRead a.conf (s.busAddrI a i) = true) :
    a.busDataO (s.now a i) = Uba.pageDataO (s.ramNow a i) (s.busAddrI a i) := by
  have haddr : a.busAddrI (s.now a i) = s.busAddrI a i := rfl
  generalize s.busAddrI a i = addr at h haddr
  have hread := h
  unfold Uba.pageRead at hread
  rw [Bool.and_eq_true, Bool.and_eq_true, beq_iff_eq] at hread
  obtain ⟨⟨-, hadr⟩, hpage⟩ := hread
  have hwru : Uba.wruRead addr = false := Uba.wruRead_of_addressed hadr
  have hstat : Uba.statRead a.conf addr = false := by
    unfold Uba.statRead
    rw [Bool.and_eq_false_iff, beq_eq_false_iff_ne]
    refine Or.inr fun heq => ?_
    rw [heq] at hpage
    have hdiffer : field (0o763000 + 0o100 : BitVec 18) 0 11 ≠
        field (0o763000 + 0o000 : BitVec 18) 0 11 := by decide
    exact hdiffer hpage
  unfold Shared.busDataO Uba.busDataO
  rw [haddr, hwru, hstat, h]
  rfl

section Run

variable (a : Shared) (s : Paging) (i : Nat → In)

/-- The adapter after `t` clocks. -/
def pagingAt (t : Nat) : Paging := run (next a) s i t

/-- At clock `t` the word is the one that was written last to the entry. -/
def Written (t : Nat) (page : BitVec 6) (word : BitVec 36) : Prop :=
  Write.LastWrite (fun u => (pagingAt a s i u).wordPort a (i u)) (t + 1) page word

/-- Requests go through the entries that were written last, entries read back as they were
written, and a request that fails the check sets the time-out and reads and writes nothing. -/
structure Paged : Prop where
  address : ∀ t k w, (pagingAt a s i t).Cycle a (i t) k →
    Written a s i t (field ((i t).devs.devAddrI k) 19 24) w →
      Mem.busMemAddr ((pagingAt a s i t).memIn a (i t)) =
        field w 25 35 ++ field ((i t).devs.devAddrI k) 25 33
  readBack : ∀ t u w, Arb.winner ((pagingAt a s i t).arb a (i t)) = some u →
    Arb.selected ((pagingAt a s i t).arb a (i t)) u = some (.uba a.slot) →
      Uba.pageRead a.conf ((pagingAt a s i t).busAddrI a (i t)) = true →
        Written a s i t (field ((pagingAt a s i t).busAddrI a (i t)) 30 35) w →
          Arb.received ((pagingAt a s i t).arb a (i t)) u = Paging.readBack w
  check : ∀ t k w, (pagingAt a s i t).Cycle a (i t) k →
    Written a s i t (field ((i t).devs.devAddrI k) 19 24) w →
      ((pagingAt a s i t).pageFail a (i t) = true ↔
        bit ((i t).devs.devAddrI k) 18 = true ∨ bit w 21 = false ∨
          bit w 20 = true ∧
            (bit ((i t).devs.devAddrI k) 34 = true ∨ bit ((i t).devs.devAddrI k) 35 = true))
  timeout : ∀ t k, (pagingAt a s i t).Cycle a (i t) k →
    (pagingAt a s i t).pageFail a (i t) = true → (pagingAt a s i (t + 1)).sr.statTMO = true
  spares : ∀ t k, (pagingAt a s i t).Cycle a (i t) k →
    (pagingAt a s i t).pageFail a (i t) = true → ¬ (pagingAt a s i t).Touches a (i t)

variable {a s i}

/-- The entry is the one of the word that was written last. -/
theorem Written.entry {t : Nat} {page : BitVec 6} {w : BitVec 36} (h : Written a s i t page w) :
    (pagingAt a s i t).ramNow a (i t) page = Uba.pageEntry w :=
  (h.map Uba.pageEntry).eq (m := fun u => (pagingAt a s i u).pageRam) fun _ => rfl

/-- Paging is as it should be exactly if no device whose request fails the check has the bus
for a read or a write of the memory. -/
theorem paging_iff (a : Shared) (s : Paging) (i : Nat → In) :
    Paged a s i ↔ ∀ t k, (pagingAt a s i t).Cycle a (i t) k →
      Uba.pageFail ((pagingAt a s i t).ramNow a (i t)) true ((i t).devs.devAddrI k) = true →
        bit ((i t).devs.devAddrI k) 10 = true ∨
          bit ((i t).devs.devAddrI k) 3 = false ∧ bit ((i t).devs.devAddrI k) 5 = false := by
  constructor
  · intro h t k hcycle hfail
    have hno := h.spares t k hcycle (hcycle.pageFail.trans hfail)
    rw [hcycle.touches_iff, not_and_or, not_or, Bool.not_eq_false, Bool.not_eq_true,
      Bool.not_eq_true] at hno
    exact hno
  · intro h
    refine ⟨fun t k w hcycle hw => ?_, fun t u w hwin hsel hread hw => ?_,
      fun t k w hcycle hw => ?_, fun t k hcycle hfail => hcycle.statTMO hfail,
      fun t k hcycle hfail => ?_⟩
    · unfold Mem.busMemAddr
      rw [hcycle.memAddr]
      exact busMemAddr_paged _ _ w hw.entry
    · refine ((Arb.connects _).receives u _ hwin hsel).trans ((if_pos rfl).trans ?_)
      rw [busDataO_of_pageRead hread]
      exact pageDataO_eq _ _ w hw.entry
    · rw [hcycle.pageFail]
      exact pageFail_iff hw.entry
    · rw [hcycle.touches_iff, not_and_or, not_or, Bool.not_eq_false, Bool.not_eq_true,
        Bool.not_eq_true]
      exact h t k hcycle (hcycle.pageFail.symm.trans hfail)

end Run

/-- The first device of adapter 1 writes to the memory through an entry that is not valid. -/
def stray : In where
  others :=
    { cslReqI := false
      ubaReqI := fun _ => false
      cpuReqI := false
      cslAckI := false
      cslAddrI := 0
      cslDataI := 0
      cpuAddrI := 0
      cpuDataI := 0
      ubaAckI := fun _ => false
      ubaAddrI := fun _ => 0
      ubaDataI := fun _ => 0
      memAckI := true
      memDataI := 0 }
  devs :=
    { devReqI := fun k => k == 0
      devAckI := fun _ => false
      devIntr := fun _ => Level.intrNul
      devAddrI := fun _ => 0o011000000000
      devDataI := fun _ => 0o525252 }
  regUbaMr := false
  statIntHi := false
  statIntLo := false

/-- The adapter with nothing in its page table. -/
def empty : Paging where
  nxd := { uba := false, state := .null }
  tmo := UbaTmo.reset
  sr :=
    { statTMO := false
      statNXD := false
      statDXF := false
      statPIH := 0
      statPIL := 0
      rstCount := 0 }
  pageRam := fun _ => 0

/-- The memory is written. -/
theorem paging_fails : ¬ ∀ (a : Shared) (s : Paging) (i : Nat → In), Paged a s i := by
  intro h
  have hcycle : (pagingAt { slot := 0 } empty (fun _ => stray) 0).Cycle { slot := 0 } stray 0 :=
    ⟨by decide, by decide, fun m hm => absurd hm (Nat.not_lt_zero m)⟩
  have hno := (h { slot := 0 } empty fun _ => stray).spares 0 0 hcycle (by decide)
  exact hno (hcycle.touches_iff.mpr ⟨by decide, Or.inr (by decide)⟩)

end Paging

end KS10
