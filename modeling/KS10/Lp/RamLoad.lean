import KS10.Lp.RamTable

/-!
# Loading the translation RAM

A transfer into the translation RAM is to begin at entry zero, and GO clears the address register
for it, but only in RAM mode.  The mode is loaded by the write that has the GO in it.  When the
strobe of the write is one clock long, and the mode was another one before, the register is not
cleared, and the table goes to where it stands (`LpRamLoad.loads_fails`).  `LpRamLoad.loads_iff`
has the exact condition.
-/

namespace KS10

open Clocked

namespace LpRamLoad

open LpXfer (lpInit lpCmdGo lpCmdStop csraLow csraAddr csraMode csraGo cbufDat byteDataI modeRam)
open LpDmaRun (AtRest Starts Legal Fits startBar length)

/-! ## A transfer -/

/-- The inputs with the word that the memory returns for the request. -/
def fill (mem : BitVec 16 → BitVec 36) (s : LpRamLoad) (c : In) : In :=
  { c with
    lpDataI := if s.dmaWr c then mem (s.tr.lp.regBar.extractLsb' 2 16) else c.lpDataI }

/-- One clock with a memory. -/
def nextMem (mem : BitVec 16 → BitVec 36) (s : LpRamLoad) (c : In) : LpRamLoad :=
  s.next (fill mem s c)

/-- No register is written, but the write of GO may go on until the transfer begins. -/
structure Undisturbed (j : In) (s : LpRamLoad) (c : In) : Prop where
  rst : c.rst = false
  init : lpInit c.toIn = false
  bar : c.barWrite = false
  bctr : c.bctrWrite = false
  cbuf : c.cbufWrite = false
  csrb : c.csrbWrite = false
  ramd : c.ramdWrite = false
  csra : c.csraWrite = true → s.tr.lp.dma.state = .wait ∧ c.lpDataI = j.lpDataI

/-- The state after the write of GO and `t` more clocks. -/
def after (mem : BitVec 16 → BitVec 36) (x : LpRamLoad) (j : In) (c : Nat → In) (t : Nat) :
    LpRamLoad := run (nextMem mem) (x.next j) c t

/-- A transfer of at most 256 half-words into the RAM, from an even address, from the write of
GO to DONE. -/
structure Transfers (mem : BitVec 16 → BitVec 36) (x : LpRamLoad) (j : In) (c : Nat → In)
    (t : Nat) : Prop where
  rest : AtRest x.tr
  starts : Starts j.toIn
  cbuf : j.cbufWrite = false
  ramd : j.ramdWrite = false
  mode : csraMode j.lpDataI = modeRam
  even : (startBar x.tr j.toIn).getLsbD 0 = false
  bytes : length x.tr.lp.count ≤ 512
  undisturbed : ∀ u, u < t → Undisturbed j (after mem x j c u) (c u)
  done : (after mem x j c t).tr.lp.lpDone = true

/-- The address register is at zero when the transfer begins: it was in RAM mode before the
write of GO, or the write goes on in the next clock, or the register was at zero already.
If it was at one, only the last byte of an even number of them does harm. -/
def Cleared (x : LpRamLoad) (c : In) : Prop :=
  x.tr.lp.lpMode = modeRam ∨ lpCmdGo c.toIn = true ∨ x.ramd.lpAddr = 0 ∨
    (x.ramd.lpAddr = 1 ∧ length x.tr.lp.count % 2 = 1)

variable {mem mem' : BitVec 16 → BitVec 36} {s s' x : LpRamLoad} {i j : In}

/-! ## One clock of a transfer -/

variable {c : In} {n : BitVec 12} {a : BitVec 18} {k : BitVec 9}

theorem fill_of_not_wr (h : s.dmaWr c = false) : fill mem s c = c := by
  unfold fill
  rw [h, if_neg Bool.false_ne_true]

/-- A transfer into the RAM from an address, which has read nothing while it waits for the
end of GO. -/
structure Going (a : BitVec 18) (s : LpRamLoad) : Prop where
  mode : s.tr.lp.lpMode = modeRam
  devReqO : s.tr.lp.dma.devReqO = decide (s.tr.lp.dma.state = .read)
  lpIncr : s.tr.lp.dma.lpIncr = decide (s.tr.lp.dma.state = .next)
  bar : s.tr.lp.dma.state = .wait → s.tr.lp.regBar = a
  cksm : s.tr.lp.dma.state = .wait → s.tr.lp.regCksm = 0
  reads : s.tr.lp.dma.state = .wait → s.tr.reads = []

theorem Going.ram (h : Going a s) : s.tr.lp.lpModeLdRam = true := by
  unfold LpXfer.lpModeLdRam
  rw [h.mode]
  rfl

theorem Going.not_wr (h : Going a s) (hwait : s.tr.lp.dma.state = .wait) :
    s.dmaWr c = false := by
  unfold dmaWr LpXfer.lpDmaWr
  rw [h.devReqO, hwait]
  rfl

theorem Going.not_incr (h : Going a s) (hwait : s.tr.lp.dma.state = .wait) :
    s.tr.lp.dma.lpIncr = false := by
  rw [h.lpIncr, hwait]
  rfl

/-- CSRA is written by the GO that has started the transfer, and not by the memory. -/
theorem Undisturbed.fill_eq (h : Undisturbed j s c) (hg : Going a s)
    (hcsra : c.csraWrite = true) : fill mem s c = c :=
  fill_of_not_wr (hg.not_wr (h.csra hcsra).1)

theorem Undisturbed.init_fill (h : Undisturbed j s c) (hg : Going a s) :
    lpInit (fill mem s c).toIn = false := by
  cases hcsra : c.csraWrite with
  | true => rw [h.fill_eq hg hcsra, h.init]
  | false =>
      have hinit := h.init
      unfold lpInit at hinit ⊢
      have hcsra' : (fill mem s c).csraWrite = false := hcsra
      rw [hcsra', Bool.false_and, Bool.false_and, Bool.or_false]
      exact (Bool.or_eq_false_iff.mp hinit).1

/-- The write goes on in the state that waits for its end, with its GO. -/
theorem Undisturbed.go_of_low (h : Undisturbed j s c) (hg : Going a s)
    (hgo : csraGo j.lpDataI = true) (hlow : csraLow (fill mem s c).toIn = true) :
    s.tr.lp.dma.state = .wait ∧ (fill mem s c).lpDataI = j.lpDataI ∧
      csraGo (fill mem s c).lpDataI = true := by
  have hcsra : c.csraWrite = true := by
    unfold csraLow at hlow
    exact (Bool.and_eq_true _ _ ▸ hlow).1
  obtain ⟨hwait, hdata⟩ := h.csra hcsra
  rw [h.fill_eq hg hcsra, hdata]
  exact ⟨hwait, rfl, hgo⟩

theorem low_of_go {p : LpXfer.In} (h : lpCmdGo p = true) : csraLow p = true := by
  unfold lpCmdGo at h
  exact (Bool.and_eq_true _ _ ▸ h).1

theorem Undisturbed.go_fill (h : Undisturbed j s c) (hg : Going a s) :
    lpCmdGo (fill mem s c).toIn = lpCmdGo c.toIn := by
  cases hcsra : c.csraWrite with
  | true => rw [h.fill_eq hg hcsra]
  | false =>
      have hlow : csraLow c.toIn = false := by
        unfold csraLow
        rw [hcsra, Bool.false_and]
      have hlow' : csraLow (fill mem s c).toIn = false := hlow
      unfold lpCmdGo
      rw [hlow, hlow', Bool.false_and, Bool.false_and]

theorem Undisturbed.legal (h : Undisturbed j s c) (hg : Going a s)
    (hgo : csraGo j.lpDataI = true) : Legal s.tr (fill mem s c).toIn where
  rst := h.rst
  bar := h.bar
  bctr := h.bctr
  cbuf := h.cbuf
  csrb := h.csrb
  stop := by
    unfold lpCmdStop
    cases hlow : csraLow (fill mem s c).toIn with
    | false => rfl
    | true => rw [(h.go_of_low hg hgo hlow).2.2, Bool.not_true, Bool.and_false]
  start hcmd := by
    rw [(h.go_of_low hg hgo (low_of_go hcmd)).1]
    exact LpDma.State.noConfusion

theorem Undisturbed.fits (h : Undisturbed j s c) (hg : Going (startBar x.tr j.toIn) s)
    (hgo : csraGo j.lpDataI = true) (hmode : csraMode j.lpDataI = modeRam) :
    Fits s.tr (fill mem s c).toIn where
  init := h.init_fill hg
  incr hcmd := hg.not_incr (h.go_of_low hg hgo (low_of_go hcmd)).1
  addr hcmd := by
    obtain ⟨hwait, hdata, _⟩ := h.go_of_low hg hgo (low_of_go hcmd)
    rw [hdata, hg.bar hwait]
    unfold startBar
    exact BitVec.extractLsb'_append_eq_left.symm
  mode hcmd := by
    obtain ⟨_, hdata, _⟩ := h.go_of_low hg hgo (low_of_go hcmd)
    rw [hdata, hmode, hg.mode]
  sum hcmd := by
    obtain ⟨hwait, _, _⟩ := h.go_of_low hg hgo (low_of_go hcmd)
    have hwr : s.tr.lp.lpDmaWr (fill mem s c).toIn = false := hg.not_wr (c := fill mem s c) hwait
    unfold LpDmaRun.sum
    rw [hwr, if_neg Bool.false_ne_true, hg.cksm hwait]

theorem nextMem_tr : (nextMem mem s c).tr = s.tr.next (fill mem s c).toIn := rfl

/-- The machine is in the state that waits only in the clocks of GO. -/
theorem Undisturbed.wait_next {a : BitVec 18} (h : Undisturbed j s c) (hg : Going a s)
    (hgo : csraGo j.lpDataI = true) (hwait : (nextMem mem s c).tr.lp.dma.state = .wait) :
    s.tr.lp.dma.state = .wait ∧ lpCmdGo c.toIn = true := by
  rw [nextMem_tr, LpDmaRun.dma_next (h.legal hg hgo)] at hwait
  have hcmd : lpCmdGo (fill mem s c).toIn = true := LpDma.go_of_step_wait hwait
  refine ⟨(h.go_of_low hg hgo (low_of_go hcmd)).1, ?_⟩
  rwa [h.go_fill hg] at hcmd

theorem Going.next (h : Going (startBar x.tr j.toIn) s) (hc : Undisturbed j s c)
    (hgo : csraGo j.lpDataI = true) (hmode : csraMode j.lpDataI = modeRam) :
    Going (startBar x.tr j.toIn) (nextMem mem s c) := by
  have hlegal : Legal s.tr (fill mem s c).toIn := hc.legal h hgo
  have hfits : Fits s.tr (fill mem s c).toIn := hc.fits h hgo hmode
  refine ⟨(LpDmaRun.mode_next hlegal hfits).trans h.mode, ?_, ?_, fun hwait => ?_,
    fun hwait => ?_, fun hwait => ?_⟩
  · rw [nextMem_tr, LpDmaRun.dma_next hlegal]
    exact LpDma.step_flags.1
  · rw [nextMem_tr, LpDmaRun.dma_next hlegal]
    exact LpDma.step_flags.2
  all_goals
    have hold := (hc.wait_next h hgo hwait).1
    have hwr : s.tr.lp.lpDmaWr (fill mem s c).toIn = false := h.not_wr (c := fill mem s c) hold
  · rw [nextMem_tr, LpDmaRun.bar_next hlegal hfits, h.not_incr hold, if_neg Bool.false_ne_true,
      h.bar hold]
  · rw [nextMem_tr, LpDmaRun.cksm_next hlegal hfits]
    unfold LpDmaRun.sum
    rw [hwr, if_neg Bool.false_ne_true, h.cksm hold]
  · rw [nextMem_tr, LpDmaRun.reads_next, hwr, if_neg Bool.false_ne_true, h.reads hold]

/-! ## The bytes of a transfer -/

/-- The address register counts the bytes from `k` on, and the entries are those that they
have written. -/
structure Loading (mem : BitVec 16 → BitVec 36) (n : BitVec 12) (a : BitVec 18) (k : BitVec 9)
    (old : BitVec 8 → BitVec 13) (s : LpRamLoad) : Prop extends Going a s where
  inv : LpDmaRun.Inv n a modeRam s.tr
  begins : s.tr.lp.dma.state = .wait → k = 0
  addr : (if s.tr.lp.dma.lpIncr then s.ramd.lpAddr + 1 else s.ramd.lpAddr) =
    k + BitVec.ofNat 9 s.tr.reads.length
  entries : ∀ b, entry s.ramd b = table k (wordOf mem a) old s.tr.reads.length b

variable {old : BitVec 8 → BitVec 13}

/-- Without a GO the address register counts. -/
theorem Undisturbed.addr_next {a : BitVec 18} (h : Undisturbed j s c) (hg : Going a s)
    (hcmd : lpCmdGo c.toIn = false) : (nextMem mem s c).ramd.lpAddr =
      if s.tr.lp.dma.lpIncr then s.ramd.lpAddr + 1 else s.ramd.lpAddr := by
  have hprint : s.lpModePrint = false := by
    unfold lpModePrint
    rw [hg.mode]
    rfl
  have htest : s.lpModeTest = false := by
    unfold lpModeTest
    rw [hg.mode]
    rfl
  have hrst : (fill mem s c).rst = false := h.rst
  have hcbuf : (fill mem s c).cbufWrite = false := h.cbuf
  show s.nextAddr (fill mem s c) = _
  unfold nextAddr
  rw [hrst, h.go_fill hg, hcmd, hcbuf, hprint, htest, hg.ram, Bool.false_and, Bool.false_and,
    Bool.and_true, Bool.or_self]
  rfl

theorem Undisturbed.addr_of_go {a : BitVec 18} (h : Undisturbed j s c) (hg : Going a s)
    (hcmd : lpCmdGo c.toIn = true) : (nextMem mem s c).ramd.lpAddr = 0 := by
  have hrst : (fill mem s c).rst = false := h.rst
  show s.nextAddr (fill mem s c) = _
  unfold nextAddr
  rw [hrst, h.go_fill hg, hcmd, hg.ram]
  rfl

/-- In a clock of GO nothing is read yet. -/
theorem Undisturbed.wait_of_go (h : Undisturbed j s c) (hcmd : lpCmdGo c.toIn = true) :
    s.tr.lp.dma.state = .wait := by
  have hlow := low_of_go hcmd
  unfold csraLow at hlow
  exact (h.csra (Bool.and_eq_true _ _ ▸ hlow).1).1

theorem Loading.addr_next {k : BitVec 9}
    (h : Loading mem n (startBar x.tr j.toIn) k old s) (hc : Undisturbed j s c)
    (hgo : csraGo j.lpDataI = true) :
    (if (nextMem mem s c).tr.lp.dma.lpIncr then (nextMem mem s c).ramd.lpAddr + 1
      else (nextMem mem s c).ramd.lpAddr) =
      k + BitVec.ofNat 9 (nextMem mem s c).tr.reads.length := by
  have hincr : (nextMem mem s c).tr.lp.dma.lpIncr = s.dmaWr c :=
    h.inv.incr_next (hc.legal h.toGoing hgo)
  have hlen : (nextMem mem s c).tr.reads.length = s.tr.reads.length + (s.dmaWr c).toNat :=
    LpDmaRun.length_next
  rw [hincr, hlen]
  cases hcmd : lpCmdGo c.toIn with
  | true =>
      have hwait := hc.wait_of_go hcmd
      rw [h.not_wr hwait, if_neg Bool.false_ne_true, hc.addr_of_go h.toGoing hcmd,
        h.begins hwait, h.reads hwait]
      rfl
  | false =>
      rw [hc.addr_next h.toGoing hcmd, h.addr]
      cases s.dmaWr c with
      | false => rfl
      | true =>
          rw [if_pos rfl, Bool.toNat_true, BitVec.ofNat_add, BitVec.add_assoc]
          rfl

theorem Loading.entries_next {k : BitVec 9}
    (h : Loading mem n (startBar x.tr j.toIn) k old s) (hc : Undisturbed j s c) (b : BitVec 8) :
    entry (nextMem mem s c).ramd b =
      table k (wordOf mem (startBar x.tr j.toIn)) old (nextMem mem s c).tr.reads.length b := by
  have hlen : (nextMem mem s c).tr.reads.length = s.tr.reads.length + (s.dmaWr c).toNat :=
    LpDmaRun.length_next
  have hwrite : s.ramWrite (fill mem s c) = s.dmaWr c := by
    have hramd : (fill mem s c).ramdWrite = false := hc.ramd
    unfold ramWrite
    rw [hramd, h.ram, Bool.false_or, Bool.and_true]
    rfl
  rw [hlen]
  cases hwr : s.dmaWr c with
  | false =>
      rw [hwr] at hwrite
      exact (entry_of_not_write hwrite b).trans (h.entries b)
  | true =>
      rw [hwr] at hwrite
      have hincr : s.tr.lp.dma.lpIncr = false := (h.inv.take (i := c.toIn) hwr).1
      have haddr := h.addr
      have hbar := h.inv.bar
      rw [hincr, if_neg Bool.false_ne_true] at haddr hbar
      have hword : s.wordDataI (fill mem s c) =
          wordOf mem (startBar x.tr j.toIn) s.tr.reads.length := by
        have hramd : (fill mem s c).ramdWrite = false := hc.ramd
        have hdata : (fill mem s c).lpDataI = mem (s.tr.lp.regBar.extractLsb' 2 16) := by
          unfold fill
          rw [hwr, if_pos rfl]
        unfold wordDataI wordOf halfAt
        rw [hramd, if_neg Bool.false_ne_true, hdata, hbar]
      have hcell : s.ramAddr = (byteWrite k (wordOf mem (startBar x.tr j.toIn))
          s.tr.reads.length).addr := by
        unfold ramAddr byteWrite
        rw [haddr]
      show entry (s.next (fill mem s c)).ramd b = (byteWrite k _ s.tr.reads.length).apply _ b
      rw [entry_of_write hwrite h.mode, hword]
      by_cases hb : b = s.ramAddr
      · rw [if_pos hb, hb, hcell, Write.apply_addr rfl]
        rfl
      · rw [if_neg hb, Write.apply_of_ne (hcell ▸ hb)]
        exact h.entries b

theorem Loading.next {k : BitVec 9} (h : Loading mem n (startBar x.tr j.toIn) k old s)
    (hc : Undisturbed j s c) (hgo : csraGo j.lpDataI = true)
    (hmode : csraMode j.lpDataI = modeRam) :
    Loading mem n (startBar x.tr j.toIn) k old (nextMem mem s c) where
  toGoing := h.toGoing.next hc hgo hmode
  inv := h.inv.next (hc.legal h.toGoing hgo) (hc.fits h.toGoing hgo hmode)
  begins hwait := h.begins (hc.wait_next h.toGoing hgo hwait).1
  addr := h.addr_next hc hgo
  entries := h.entries_next hc

/-! ## The whole transfer -/

section Transfer

variable {c : Nat → In} {t u : Nat}

theorem Transfers.go (h : Transfers mem x j c t) : csraGo j.lpDataI = true := by
  have hgo := h.starts.go
  unfold lpCmdGo at hgo
  exact (Bool.and_eq_true _ _ ▸ hgo).2

theorem Transfers.going_zero (h : Transfers mem x j c t) :
    Going (startBar x.tr j.toIn) (x.next j) := by
  obtain ⟨hstate, hreq, hincr⟩ := h.starts.dma h.rest
  obtain ⟨hbar, _, hcksm, _, hmode⟩ := h.rest.start h.starts
  have hreads : (x.next j).tr.reads = [] := by
    show (x.tr.next j.toIn).reads = []
    rw [LpDmaRun.reads_next, h.rest.not_wr, if_neg Bool.false_ne_true, h.rest.reads]
  refine ⟨hmode.trans h.mode, ?_, ?_, fun _ => hbar, fun _ => hcksm, fun _ => hreads⟩
  · show (x.tr.next j.toIn).lp.dma.devReqO = decide ((x.tr.next j.toIn).lp.dma.state = .read)
    rw [hreq, hstate]
    rfl
  · show (x.tr.next j.toIn).lp.dma.lpIncr = decide ((x.tr.next j.toIn).lp.dma.state = .next)
    rw [hincr, hstate]
    rfl

theorem Transfers.going (h : Transfers mem x j c t) (hu : u ≤ t) :
    Going (startBar x.tr j.toIn) (after mem x j c u) := by
  induction u with
  | zero => exact h.going_zero
  | succ u ih => exact (ih (Nat.le_of_succ_le hu)).next (h.undisturbed u hu) h.go h.mode

/-- A transfer that comes to DONE does not ignore its acknowledges. -/
theorem Transfers.msyn (h : Transfers mem x j c t) : (x.next j).tr.lp.lpTestMsyn = false := by
  by_contra hmsyn
  rw [Bool.not_eq_false] at hmsyn
  have hignores : ∀ v, v ≤ t → LpDmaRun.Ignores (after mem x j c v).tr := by
    intro v hv
    induction v with
    | zero =>
        exact ⟨hmsyn, (h.starts.dma h.rest).2.2, (h.rest.start h.starts).2.2.2.1⟩
    | succ v ih =>
        have hgoing := h.going (Nat.le_of_succ_le hv)
        have hc := h.undisturbed v hv
        exact (ih (Nat.le_of_succ_le hv)).next (hc.legal hgoing h.go)
          (hc.fits hgoing h.go h.mode)
  have hdone := h.done
  rw [(hignores t (Nat.le_refl t)).lpDone] at hdone
  cases hdone

theorem Transfers.inv (h : Transfers mem x j c t) (hu : u ≤ t) :
    LpDmaRun.Inv x.tr.lp.count (startBar x.tr j.toIn) modeRam (after mem x j c u).tr := by
  induction u with
  | zero =>
      have hinv := h.rest.inv h.starts h.msyn
      rwa [h.mode] at hinv
  | succ u ih =>
      have hgoing := h.going (Nat.le_of_succ_le hu)
      have hc := h.undisturbed u hu
      exact (ih (Nat.le_of_succ_le hu)).next (hc.legal hgoing h.go) (hc.fits hgoing h.go h.mode)

theorem Transfers.pos (h : Transfers mem x j c t) : 0 < t := by
  rcases Nat.eq_zero_or_pos t with rfl | hpos
  · have hdone := h.done
    have hnot : (x.next j).tr.lp.lpDone = false := (h.rest.start h.starts).2.2.2.1
    have hzero : after mem x j c 0 = x.next j := rfl
    rw [hzero, hnot] at hdone
    cases hdone
  · exact hpos

/-- The address register when the transfer begins. -/
def startAddr (x : LpRamLoad) (c : In) : BitVec 9 :=
  if lpCmdGo c.toIn then 0 else if x.tr.lp.lpMode = modeRam then 0 else x.ramd.lpAddr

/-- The write of GO clears the address register in RAM mode, and writes nothing else. -/
theorem Transfers.addr_zero (h : Transfers mem x j c t) : (x.next j).ramd.lpAddr =
    if x.tr.lp.lpMode = modeRam then 0 else x.ramd.lpAddr := by
  have hwr : x.dmaWr j = false := h.rest.not_wr
  have hram : x.tr.lp.lpModeLdRam = decide (x.tr.lp.lpMode = modeRam) := rfl
  show x.nextAddr j = _
  unfold nextAddr
  rw [h.starts.rst, h.starts.go, h.cbuf, hwr, h.rest.lpIncr, hram, Bool.true_and, Bool.and_false,
    Bool.and_false, Bool.or_self, Bool.false_and]
  by_cases hmode : x.tr.lp.lpMode = modeRam
  · rw [decide_eq_true hmode, if_pos hmode]
    rfl
  · rw [decide_eq_false hmode, if_neg hmode]
    rfl

theorem Transfers.entry_zero (h : Transfers mem x j c t) (b : BitVec 8) :
    entry (x.next j).ramd b = entry x.ramd b := by
  have hwr : x.dmaWr j = false := h.rest.not_wr
  apply entry_of_not_write
  unfold ramWrite
  rw [h.ramd, hwr, Bool.false_or, Bool.false_and]

theorem Transfers.loading_one (h : Transfers mem x j c t) :
    Loading mem x.tr.lp.count (startBar x.tr j.toIn) (startAddr x (c 0)) (entry x.ramd)
      (after mem x j c 1) := by
  have hc : Undisturbed j (x.next j) (c 0) := h.undisturbed 0 h.pos
  have hgoing := h.going_zero
  have hwait : (x.next j).tr.lp.dma.state = .wait := (h.starts.dma h.rest).1
  have hwr : (x.next j).dmaWr (c 0) = false := hgoing.not_wr hwait
  have hreads : (after mem x j c 1).tr.reads = [] := by
    have hwr' : (x.next j).tr.lp.lpDmaWr (fill mem (x.next j) (c 0)).toIn = false := hwr
    show ((x.next j).tr.next (fill mem (x.next j) (c 0)).toIn).reads = []
    rw [LpDmaRun.reads_next, hwr', if_neg Bool.false_ne_true, hgoing.reads hwait]
  have hone : after mem x j c 1 = nextMem mem (x.next j) (c 0) := rfl
  have hinv0 := h.inv (u := 0) (Nat.zero_le t)
  refine ⟨h.going h.pos, h.inv h.pos, fun hstill => ?_, ?_, fun b => ?_⟩
  · unfold startAddr
    rw [if_pos (hc.wait_next hgoing h.go hstill).2]
  · have hincr : (after mem x j c 1).tr.lp.dma.lpIncr = false :=
      (hinv0.incr_next (hc.legal hgoing h.go)).trans hwr
    rw [hincr, hreads, if_neg Bool.false_ne_true, hone]
    unfold startAddr
    cases hcmd : lpCmdGo (c 0).toIn with
    | true =>
        rw [hc.addr_of_go hgoing hcmd, if_pos rfl]
        rfl
    | false =>
        rw [hc.addr_next hgoing hcmd, hgoing.not_incr hwait, if_neg Bool.false_ne_true,
          if_neg Bool.false_ne_true, h.addr_zero]
        exact (BitVec.add_zero _).symm
  · have hwrite : (x.next j).ramWrite (fill mem (x.next j) (c 0)) = false := by
      have hramd : (fill mem (x.next j) (c 0)).ramdWrite = false := hc.ramd
      have hwr' : (x.next j).dmaWr (fill mem (x.next j) (c 0)) = false := hwr
      unfold ramWrite
      rw [hramd, hwr', Bool.false_or, Bool.false_and]
    rw [hreads, hone]
    exact (entry_of_not_write hwrite b).trans (h.entry_zero b)

/-- At DONE the entries are those of all bytes. -/
theorem Transfers.entries (h : Transfers mem x j c t) :
    entry (after mem x j c t).ramd =
      table (startAddr x (c 0)) (wordOf mem (startBar x.tr j.toIn)) (entry x.ramd)
        (length x.tr.lp.count) := by
  have hload : ∀ u, 1 ≤ u → u ≤ t → Loading mem x.tr.lp.count (startBar x.tr j.toIn)
      (startAddr x (c 0)) (entry x.ramd) (after mem x j c u) := by
    intro u hu
    induction u, hu using Nat.le_induction with
    | base => exact fun _ => h.loading_one
    | succ u _ ih =>
        exact fun hlt => (ih (Nat.le_of_succ_le hlt)).next (h.undisturbed u hlt) h.go h.mode
  have hlast := hload t h.pos (Nat.le_refl t)
  funext b
  rw [hlast.entries b, (hlast.inv.done h.done).2.1]

end Transfer

/-! ## Another memory -/

/-- Two states of transfers that differ in what was read. -/
structure Alike (s s' : LpRamLoad) : Prop where
  dma : s.tr.lp.dma = s'.tr.lp.dma
  count : s.tr.lp.count = s'.tr.lp.count
  lpDone : s.tr.lp.lpDone = s'.tr.lp.lpDone
  lpTest : s.tr.lp.lpTest = s'.tr.lp.lpTest

theorem Alike.undisturbed (h : Alike s s') (hc : Undisturbed j s c) : Undisturbed j s' c :=
  { hc with csra := fun hcsra => h.dma ▸ hc.csra hcsra }

/-- The course of a transfer does not depend on the memory. -/
theorem Alike.next (h : Alike s s') (hs : Going (startBar x.tr j.toIn) s)
    (hs' : Going (startBar x.tr j.toIn) s') (hc : Undisturbed j s c)
    (hgo : csraGo j.lpDataI = true) (hmode : csraMode j.lpDataI = modeRam) :
    Alike (nextMem mem s c) (nextMem mem' s' c) := by
  have hc' := h.undisturbed hc
  have hlegal : Legal s.tr (fill mem s c).toIn := hc.legal hs hgo
  have hlegal' : Legal s'.tr (fill mem' s' c).toIn := hc'.legal hs' hgo
  have hfits : Fits s.tr (fill mem s c).toIn := hc.fits hs hgo hmode
  have hfits' : Fits s'.tr (fill mem' s' c).toIn := hc'.fits hs' hgo hmode
  have hset : s.tr.lp.lpSetDone = s'.tr.lp.lpSetDone := by
    unfold LpXfer.lpSetDone
    rw [h.count, h.dma]
  have hmsyn : s.tr.lp.lpTestMsyn = s'.tr.lp.lpTestMsyn := by
    unfold LpXfer.lpTestMsyn
    rw [hs.mode, hs'.mode, h.lpTest]
  have hin : s.tr.lp.dmaIn (fill mem s c).toIn = s'.tr.lp.dmaIn (fill mem' s' c).toIn := by
    unfold LpXfer.dmaIn
    rw [h.lpDone, hmsyn, hc.go_fill hs, hc'.go_fill hs', hlegal.stop, hlegal'.stop]
    rfl
  refine ⟨?_, ?_, ?_, ?_⟩
  · rw [nextMem_tr, nextMem_tr, LpDmaRun.dma_next hlegal, LpDmaRun.dma_next hlegal', hin, h.dma]
  · rw [nextMem_tr, nextMem_tr, LpDmaRun.count_next hlegal hfits,
      LpDmaRun.count_next hlegal' hfits', h.count, h.dma]
  · rw [nextMem_tr, nextMem_tr, LpDmaRun.done_next hlegal hfits,
      LpDmaRun.done_next hlegal' hfits', hset, h.lpDone]
  · rw [nextMem_tr, nextMem_tr, LpDmaRun.test_next hlegal hfits,
      LpDmaRun.test_next hlegal' hfits', h.lpTest]

/-- A transfer is one with every memory. -/
theorem Transfers.of_mem {c : Nat → In} {t : Nat} (h : Transfers mem x j c t)
    (mem' : BitVec 16 → BitVec 36) : Transfers mem' x j c t := by
  have hboth : ∀ u, u ≤ t → Going (startBar x.tr j.toIn) (after mem' x j c u) ∧
      Alike (after mem x j c u) (after mem' x j c u) := by
    intro u hu
    induction u with
    | zero => exact ⟨h.going_zero, ⟨rfl, rfl, rfl, rfl⟩⟩
    | succ u ih =>
        obtain ⟨hgoing, halike⟩ := ih (Nat.le_of_succ_le hu)
        have hc := h.undisturbed u hu
        exact ⟨hgoing.next (halike.undisturbed hc) h.go h.mode,
          halike.next (h.going (Nat.le_of_succ_le hu)) hgoing hc h.go h.mode⟩
  exact
    { h with
      undisturbed := fun u hu => (hboth u (Nat.le_of_lt hu)).2.undisturbed (h.undisturbed u hu)
      done := (hboth t (Nat.le_refl t)).2.lpDone ▸ h.done }

/-! ## The load of the table -/

theorem cleared_iff {c : In} : Cleared x c ↔ InPlace (startAddr x c) (length x.tr.lp.count) := by
  unfold Cleared InPlace startAddr
  cases hgo : lpCmdGo c.toIn with
  | true => simp
  | false =>
      by_cases hmode : x.tr.lp.lpMode = modeRam
      · simp [hmode]
      · simp [hmode]

/-- A transfer into the RAM loads the table from every memory, if and only if the address
register is cleared for it.  The characters that come after it are translated with their own
entries in any case. -/
theorem loads_iff (mem₀ : BitVec 16 → BitVec 36) (x : LpRamLoad) (j : In) (c : Nat → In) (t : Nat)
    (h : Transfers mem₀ x j c t) :
    (∀ mem, (after mem x j c t).tr.lp.lpDone = true ∧
      Loaded mem (startBar x.tr j.toIn) (length x.tr.lp.count) (entry x.ramd)
        (entry (after mem x j c t).ramd) ∧
      Translates (after mem x j c t)) ↔ Cleared x (c 0) := by
  have heq : ∀ mem, entry (after mem x j c t).ramd =
      table (startAddr x (c 0)) (wordOf mem (startBar x.tr j.toIn)) (entry x.ramd)
        (length x.tr.lp.count) := fun mem => (h.of_mem mem).entries
  have hpos : 0 < length x.tr.lp.count := Nat.sub_pos_of_lt x.tr.lp.count.isLt
  rw [cleared_iff]
  constructor
  · intro hall
    have hload : ∀ mem, Loaded mem (startBar x.tr j.toIn) (length x.tr.lp.count) (entry x.ramd)
        (table (startAddr x (c 0)) (wordOf mem (startBar x.tr j.toIn)) (entry x.ramd)
          (length x.tr.lp.count)) := fun mem => heq mem ▸ (hall mem).2.1
    exact inPlace_of_loaded h.even hpos h.bytes hload
  · intro hplace mem
    refine ⟨(h.of_mem mem).done, ?_, translates _⟩
    rw [heq mem]
    exact loaded_of_inPlace h.even h.bytes hplace

/-! ## A load of one entry -/

/-- The controller after a reset, with two bytes to go and the address register at an entry. -/
def oneEntry (lpAddr : BitVec 9) : LpRamLoad where
  tr := LpDmaRun.twoLeft
  ramd := { lpAddr := lpAddr, ram0 := fun _ => 0, ram1 := fun _ => 0 }

/-- The write of GO and of the RAM mode. -/
def goRam : In := { LpDmaRun.goWrite with lpDataI := 0o15, ramdWrite := false }

def ready : In := { LpDmaRun.ready with ramdWrite := false }

/-- The write goes on for a number of clocks after the first one. -/
def held (n u : Nat) : In := if u < n then goRam else ready

def zeros (_ : BitVec 16) : BitVec 36 := 0

/-- A write of one clock, and one of two clocks. -/
theorem transfers_oneEntry {n : Nat} (hn : n < 2) :
    Transfers zeros (oneEntry 2) goRam (held n) (8 + n) where
  rest := LpDmaRun.atRest_twoLeft
  starts := ⟨rfl, rfl, rfl, rfl, rfl, rfl, rfl⟩
  cbuf := rfl
  ramd := rfl
  mode := rfl
  even := by decide
  bytes := by decide
  undisturbed u _ := by
    by_cases hu : u < n
    · have hzero : u = 0 := by omega
      have hheld : held n u = goRam := if_pos hu
      rw [hheld, hzero]
      exact ⟨rfl, rfl, rfl, rfl, rfl, rfl, rfl, fun _ => ⟨rfl, rfl⟩⟩
    · have hheld : held n u = ready := if_neg hu
      rw [hheld]
      exact ⟨rfl, rfl, rfl, rfl, rfl, rfl, rfl, fun hcsra => nomatch hcsra⟩
  done := by
    rcases Nat.lt_or_ge n 1 with hlt | hge
    · obtain rfl : n = 0 := by omega
      decide +kernel
    · obtain rfl : n = 1 := by omega
      decide +kernel

theorem loads_iff_held : Cleared (oneEntry 2) (held 1 0) ∧
    ((∀ mem, (after mem (oneEntry 2) goRam (held 1) 9).tr.lp.lpDone = true ∧
      Loaded mem (startBar (oneEntry 2).tr goRam.toIn) (length (oneEntry 2).tr.lp.count)
        (entry (oneEntry 2).ramd) (entry (after mem (oneEntry 2) goRam (held 1) 9).ramd) ∧
      Translates (after mem (oneEntry 2) goRam (held 1) 9)) ↔
        Cleared (oneEntry 2) (held 1 0)) :=
  ⟨.inr (.inl rfl), loads_iff zeros (oneEntry 2) goRam (held 1) 9
    (transfers_oneEntry (Nat.lt_succ_self 1))⟩

/-- A write of GO of one clock that changes the mode to RAM, with the address register at
entry one: entry zero is not loaded. -/
theorem loads_fails :
    ¬ ∀ (mem : BitVec 16 → BitVec 36) (x : LpRamLoad) (j : In) (c : Nat → In) (t : Nat),
      Transfers mem x j c t →
      Loaded mem (startBar x.tr j.toIn) (length x.tr.lp.count) (entry x.ramd)
        (entry (after mem x j c t).ramd) ∧ Translates (after mem x j c t) := by
  intro h
  have hload := (h zeros (oneEntry 2) goRam (held 0) 8 (transfers_oneEntry Nat.zero_lt_two)).1
  exact absurd (hload.loaded 0 (by decide)) (by decide +kernel)

end LpRamLoad

end KS10
