import KS10.Disk.Locate

/-!
# The address that a search ends with

The source has two ways to end a search: after a fixed delay, or when the sector under the
head is the desired one.  `RpCtrl.nextWith` has both, and the build of the project takes
the first one (`RpCtrl.nextWith_false`).

The delay is longer than the calculation of the sector address.  The sector under the head
may be the desired one at any time, also in the first clock of the search.  The calculator
has only been told to start then, is not busy yet, and the data begin with whatever it has.

The address that a command was accepted with is not kept by the drive.  It follows the run
as a shadow (`Rp.noted`), and the calculator calculates it as long as it reads the same
registers (`Rp.Reads`).
-/

namespace KS10

open Clocked

/-! ## Both ends of a search -/

namespace RpCtrl

/-- The sector is under the head, or the delay is over. -/
def found (simSEARCH : Bool) (rpSA rpLAS : BitVec 6) (s : RpCtrl) : Bool :=
  if simSEARCH then rpSA == rpLAS else s.delay == 0

/-- The end of a search in either build. -/
def searchDataWith (simSEARCH : Bool) (rpSA rpLAS : BitVec 6) (s : RpCtrl) (i : In) : RpCtrl :=
  if s.found simSEARCH rpSA rpLAS then
    if s.rpSDOP == .nop then { s with state := .done }
    else if !i.rpADRBUSY then { s with state := .data }
    else s
  else { s with delay := s.delay - 1 }

/-- One clock of the state machine, in either build. -/
def nextWith (simSEARCH : Bool) (rpSA rpLAS : BitVec 6) (s : RpCtrl) (i : In) : RpCtrl :=
  match s.state with
  | .search =>
      if i.clr then s.cleared i
      else
        let t : RpCtrl := { s.quiet i with bit_cnt := 0, word_cnt := 0 }
        if i.rpCLBERR then { t with state := .done }
        else if i.rpDMD then t.searchDiag i
        else t.searchDataWith simSEARCH rpSA rpLAS i
  | _ => s.next i

variable {simSEARCH : Bool} {rpSA rpLAS : BitVec 6} {s t : RpCtrl} {i : In}

theorem nextWith_of_not_search (h : s.state ≠ .search) :
    s.nextWith simSEARCH rpSA rpLAS i = s.next i := by
  unfold nextWith
  split
  · rename_i hst
    exact absurd hst h
  · rfl

/-- Without the accurate search this is the state machine of the project. -/
theorem nextWith_false : s.nextWith false rpSA rpLAS i = s.next i := by
  by_cases hst : s.state = .search
  · unfold nextWith next
    rw [hst]
    rfl
  · exact nextWith_of_not_search hst

/-- The search ends with the data. -/
structure Found (simSEARCH : Bool) (rpSA rpLAS : BitVec 6) (s : RpCtrl) (i : In) : Prop where
  state : s.state = .search
  rpSDOP : s.rpSDOP ≠ .nop
  rpDMD : i.rpDMD = false
  rpCLBERR : i.rpCLBERR = false
  rpADRBUSY : i.rpADRBUSY = false
  found : s.found simSEARCH rpSA rpLAS = true

instance : Decidable (Found simSEARCH rpSA rpLAS s i) :=
  decidable_of_iff
    (s.state = .search ∧ s.rpSDOP ≠ .nop ∧ i.rpDMD = false ∧ i.rpCLBERR = false ∧
      i.rpADRBUSY = false ∧ s.found simSEARCH rpSA rpLAS = true)
    ⟨fun h => ⟨h.1, h.2.1, h.2.2.1, h.2.2.2.1, h.2.2.2.2.1, h.2.2.2.2.2⟩,
      fun h => ⟨h.state, h.rpSDOP, h.rpDMD, h.rpCLBERR, h.rpADRBUSY, h.found⟩⟩

/-- Outside the diagnostic mode the search goes on, or ends with the data. -/
theorem searchDataWith_busy (ht : t.state = .search) (hgoes : Goes s t)
    (hdelay : t.delay = s.delay) (hst : s.state = .search) (hdmd : i.rpDMD = false)
    (herr : i.rpCLBERR = false) (h : busy (t.searchDataWith simSEARCH rpSA rpLAS i).state = true) :
    Goes s (t.searchDataWith simSEARCH rpSA rpLAS i) ∧
      ((t.searchDataWith simSEARCH rpSA rpLAS i).state = .search ∨
        (t.searchDataWith simSEARCH rpSA rpLAS i).state = .data ∧
          Found simSEARCH rpSA rpLAS s i) := by
  have hsame : t.found simSEARCH rpSA rpLAS = s.found simSEARCH rpSA rpLAS := by
    rw [found, found, hdelay]
  unfold searchDataWith at h ⊢
  by_cases hfound : t.found simSEARCH rpSA rpLAS = true
  · by_cases hnop : (t.rpSDOP == .nop) = true
    · rw [if_pos hfound, if_pos hnop] at h
      cases h
    · rw [if_pos hfound, if_neg hnop]
      have hop : s.rpSDOP ≠ .nop := by
        rw [← hgoes.rpSDOP]
        exact fun heq => hnop (beq_iff_eq.mpr heq)
      cases hbusy : i.rpADRBUSY with
      | true => exact ⟨hgoes, Or.inl ht⟩
      | false =>
          exact ⟨⟨hgoes.rpDRY, hgoes.rpSDOP, hgoes.rpADRSTRT, hgoes.rpEBL⟩,
            Or.inr ⟨rfl, hst, hop, hdmd, herr, hbusy, hsame ▸ hfound⟩⟩
  · rw [if_neg hfound]
    exact ⟨⟨hgoes.rpDRY, hgoes.rpSDOP, hgoes.rpADRSTRT, hgoes.rpEBL⟩, Or.inl ht⟩

variable (rpSA) in
/-- A search goes on, or ends with the data, if it does not end the command. -/
theorem nextWith_search (hst : s.state = .search)
    (h : busy (s.nextWith simSEARCH rpSA rpLAS i).state = true) :
    Goes s (s.nextWith simSEARCH rpSA rpLAS i) ∧
      ((s.nextWith simSEARCH rpSA rpLAS i).state = .search ∨
        (s.nextWith simSEARCH rpSA rpLAS i).state = .data ∧ Found simSEARCH rpSA rpLAS s i) := by
  have hgoes : Goes s { s.quiet i with bit_cnt := 0, word_cnt := 0 } := ⟨rfl, rfl, rfl, rfl⟩
  unfold nextWith at h ⊢
  rw [hst] at h ⊢
  simp only at h ⊢
  by_cases hclr : i.clr = true
  · rw [if_pos hclr] at h
    cases h
  · rw [if_neg hclr] at h ⊢
    by_cases herr : i.rpCLBERR = true
    · rw [if_pos herr] at h
      cases h
    · rw [if_neg herr] at h ⊢
      by_cases hdmd : i.rpDMD = true
      · rw [if_pos hdmd] at h ⊢
        rw [searchDiag_of_busy h]
        exact ⟨hgoes, Or.inl hst⟩
      · rw [if_neg hdmd] at h ⊢
        exact searchDataWith_busy hst hgoes rfl hst (Bool.not_eq_true _ ▸ hdmd)
          (Bool.not_eq_true _ ▸ herr) h

/-- The data go on without the end of the disk, an acknowledge and an error. -/
theorem data_next (hst : s.state = .data) (hclr : i.clr = false) (haoe : i.rpSETAOE = false)
    (hack : i.rpSDACK = false) (herr : i.rpCLBERR = false) : (s.next i).state = .data := by
  rw [next, if_neg (by rw [hclr]; exact Bool.false_ne_true), hst]
  simp only [haoe, hack, herr, Bool.or_self, Bool.false_eq_true, if_false]
  exact hst

end RpCtrl

/-! ## The calculator and the address it was started with -/

namespace RpAddr

variable {i j : In} {s : RpAddr}

/-- The calculator reads the same registers: the track and the number of sectors at the end
of the tracks, and the sector at the end of the sectors. -/
structure Reads (i j : In) (s : RpAddr) : Prop where
  track : s.state = .track → s.loop = 0 → j.rpTA = i.rpTA ∧ j.rpSECNUM = i.rpSECNUM
  sector : s.state = .sect → s.loop = 0 → j.rpSA = i.rpSA

instance : Decidable (Reads i j s) :=
  decidable_of_iff
    ((s.state = .track → s.loop = 0 → j.rpTA = i.rpTA ∧ j.rpSECNUM = i.rpSECNUM) ∧
      (s.state = .sect → s.loop = 0 → j.rpSA = i.rpSA))
    ⟨fun h => ⟨h.1, h.2⟩, fun h => ⟨h.track, h.sector⟩⟩

/-- It does the same then. -/
theorem Reads.next_eq (h : Reads i j s) (hi : i.rpADRSTRT = false) (hj : j.rpADRSTRT = false) :
    s.next j = s.next i := by
  unfold next
  cases hst : s.state with
  | idle =>
      rw [hi, hj]
      rfl
  | track =>
      simp only
      split
      · rename_i hloop
        obtain ⟨hta, hsec⟩ := h.track hst (beq_iff_eq.mp hloop)
        rw [hta, hsec]
      · rfl
  | sect =>
      simp only
      split
      · rename_i hloop
        rw [h.sector hst (beq_iff_eq.mp hloop)]
      · rfl
  | word => rfl

/-- So the calculation of the address goes on. -/
theorem In.Calculates.next_of_reads (h : i.Calculates s) (hreads : Reads i j s)
    (hj : j.rpADRSTRT = false) (hfits : i.Fits) : i.Calculates (s.next j) := by
  have hcalm : Calculates { i with rpADRSTRT := false } (s.next { i with rpADRSTRT := false }) :=
    In.Calculates.next (i := { i with rpADRSTRT := false }) h rfl ⟨hfits.trk, hfits.sec⟩
  have hreads' : Reads { i with rpADRSTRT := false } j s := ⟨hreads.track, hreads.sector⟩
  rw [hreads'.next_eq rfl hj]
  exact hcalm

end RpAddr

/-! ## The drive -/

namespace Rp

/-- The inputs of one clock, with the sector under the head. -/
structure SearchIn extends In where
  rpLAS : BitVec 6

variable (simSEARCH : Bool) (t : RpType)

/-- One clock of the drive, in either build. -/
def nextWith (d : Rp) (i : SearchIn) : Rp :=
  { d.next t i.toIn with
    ctrl := d.ctrl.nextWith simSEARCH d.rpSA i.rpLAS (d.ctrlIn t i.toIn) }

theorem nextWith_false (d : Rp) (i : SearchIn) : d.nextWith false t i = d.next t i.toIn := by
  unfold nextWith
  rw [RpCtrl.nextWith_false]
  rfl

/-- The drive carries out a data command and has not come to its data. -/
def Seeking (d : Rp) : Prop := RpCtrl.seeks d.ctrl.state = true ∧ d.ctrl.rpSDOP ≠ .nop

instance (d : Rp) : Decidable d.Seeking := inferInstanceAs (Decidable (_ ∧ _))

/-- The address of the command, noted when a drive at rest accepts a data command. -/
def note (noted : RpAddr.In) (d : Rp) (i : SearchIn) : RpAddr.In :=
  if d.ctrl.state = .idle ∧ (d.nextWith simSEARCH t i).Seeking then
    (d.nextWith simSEARCH t i).addrIn t
  else noted

/-- The drive after `n` clocks. -/
def driveAt (d : Rp) (i : Nat → SearchIn) (n : Nat) : Rp := run (nextWith simSEARCH t) d i n

/-- The address of the last data command that was accepted in `n` clocks. -/
def noted (d : Rp) (i : Nat → SearchIn) (n : Nat) : RpAddr.In :=
  shadow (nextWith simSEARCH t) (note simSEARCH t) d (d.addrIn t) i n

/-- The calculator is at rest when it is told to start, the search does not end in that
clock, and the calculator reads the registers as they were when the command was accepted. -/
structure Calm (noted : RpAddr.In) (d : Rp) (i : SearchIn) : Prop where
  starts : d.Seeking → d.ctrl.rpADRSTRT = true → d.addr.state = .idle
  waits : d.Seeking → d.ctrl.rpADRSTRT = true →
    ¬ RpCtrl.Found simSEARCH d.rpSA i.rpLAS d.ctrl (d.ctrlIn t i.toIn)
  reads : d.Seeking → d.ctrl.rpADRSTRT = false → RpAddr.Reads noted (d.addrIn t) d.addr

/-- The drive raises its request with the calculated address of the command. -/
def Fresh (d : Rp) (i : Nat → SearchIn) (n : Nat) : Prop :=
  (driveAt simSEARCH t d i n).ctrl.state ≠ .data →
    (driveAt simSEARCH t d i (n + 1)).ctrl.rpSDREQ = true →
      (driveAt simSEARCH t d i (n + 1)).addr.rpADRBUSY = false ∧
        (driveAt simSEARCH t d i (n + 1)).addr.rpSDLSA =
          BitVec.ofNat 21 (2 * (noted simSEARCH t d i (n + 1)).sector)

variable {simSEARCH t} {d : Rp} {i : SearchIn} {a : RpAddr.In}

instance : Decidable (Calm simSEARCH t a d i) :=
  decidable_of_iff
    ((d.Seeking → d.ctrl.rpADRSTRT = true → d.addr.state = .idle) ∧
      (d.Seeking → d.ctrl.rpADRSTRT = true →
        ¬ RpCtrl.Found simSEARCH d.rpSA i.rpLAS d.ctrl (d.ctrlIn t i.toIn)) ∧
      (d.Seeking → d.ctrl.rpADRSTRT = false → RpAddr.Reads a (d.addrIn t) d.addr))
    ⟨fun h => ⟨h.1, h.2.1, h.2.2⟩, fun h => ⟨h.starts, h.waits, h.reads⟩⟩

/-- What is known of a drive that searches: the calculator is told to start with the address
of the command, or calculates it. -/
structure Follows (t : RpType) (d : Rp) (a : RpAddr.In) : Prop where
  fits : a.Fits
  addr : d.Seeking → d.ctrl.rpADRSTRT = true ∧ a = d.addrIn t ∨
    d.ctrl.rpADRSTRT = false ∧ a.Calculates d.addr

/-- A drive that searches has just accepted a command, or goes on. -/
theorem seeking_of_next (h : (d.nextWith simSEARCH t i).Seeking) :
    d.ctrl.state = .idle ∧ RpCtrl.Begins (d.nextWith simSEARCH t i).ctrl ∨
      d.ctrl.state ≠ .idle ∧ d.Seeking ∧ RpCtrl.Goes d.ctrl (d.nextWith simSEARCH t i).ctrl := by
  obtain ⟨hseeks, hop⟩ := h
  have hbusy : RpCtrl.busy (d.nextWith simSEARCH t i).ctrl.state = true := by
    rw [RpCtrl.busy, hseeks, Bool.true_or]
  by_cases hst : d.ctrl.state = .search
  · have hseeks' : RpCtrl.seeks d.ctrl.state = true := by
      rw [hst]
      rfl
    have hidle : d.ctrl.state ≠ .idle := by
      rw [hst]
      decide
    obtain ⟨hgoes, -⟩ := RpCtrl.nextWith_search d.rpSA hst hbusy
    exact Or.inr ⟨hidle, ⟨hseeks', hgoes.rpSDOP ▸ hop⟩, hgoes⟩
  · have hnext : (d.nextWith simSEARCH t i).ctrl = d.ctrl.next (d.ctrlIn t i.toIn) :=
      RpCtrl.nextWith_of_not_search hst
    rw [hnext] at hseeks hop hbusy ⊢
    rcases RpCtrl.next_busy hbusy with hreach | ⟨hnop, -⟩
    · cases hreach with
      | begins hs _ hb => exact Or.inl ⟨hs, hb⟩
      | seeks hs _ hgoes =>
          have hidle : d.ctrl.state ≠ .idle := by
            intro heq
            rw [heq] at hs
            cases hs
          exact Or.inr ⟨hidle, ⟨hs, hgoes.rpSDOP ▸ hop⟩, hgoes⟩
      | found hs _ _ _ _ _ _ _ => exact absurd hs hst
      | data _ hs _ _ _ =>
          rw [hs] at hseeks
          cases hseeks
    · exact absurd hnop hop

/-- A drive that comes to its data has found its sector. -/
theorem found_of_next (hst : d.ctrl.state ≠ .data)
    (hnext : (d.nextWith simSEARCH t i).ctrl.state = .data) :
    RpCtrl.Found simSEARCH d.rpSA i.rpLAS d.ctrl (d.ctrlIn t i.toIn) := by
  have hbusy : RpCtrl.busy (d.nextWith simSEARCH t i).ctrl.state = true := by
    rw [hnext]
    rfl
  by_cases hsearch : d.ctrl.state = .search
  · rcases (RpCtrl.nextWith_search d.rpSA hsearch hbusy).2 with hstays | ⟨-, hfound⟩
    · rw [show (d.nextWith simSEARCH t i).ctrl.state = .search from hstays] at hnext
      cases hnext
    · exact hfound
  · have heq : (d.nextWith simSEARCH t i).ctrl = d.ctrl.next (d.ctrlIn t i.toIn) :=
      RpCtrl.nextWith_of_not_search hsearch
    rw [heq] at hnext
    exact absurd (RpCtrl.found_of_next hst hnext).1 hsearch

theorem addr_nextWith : (d.nextWith simSEARCH t i).addr = d.addr.next (d.addrIn t) := rfl

/-- The calculator starts, or goes on. -/
theorem Follows.calculates (h : Follows t d a) (hcalm : Calm simSEARCH t a d i)
    (hseeking : d.Seeking) : a.Calculates (d.nextWith simSEARCH t i).addr := by
  rw [addr_nextWith]
  rcases h.addr hseeking with ⟨hstart, rfl⟩ | ⟨hstart, hcalc⟩
  · exact RpAddr.In.calculates_start (hcalm.starts hseeking hstart) hstart h.fits
  · exact hcalc.next_of_reads (hcalm.reads hseeking hstart) hstart h.fits

/-- One clock of a drive. -/
theorem Follows.next (h : Follows t d a) (ht : t.Room) (hcalm : Calm simSEARCH t a d i) :
    Follows t (d.nextWith simSEARCH t i) (note simSEARCH t a d i) := by
  unfold note
  by_cases hnote : d.ctrl.state = .idle ∧ (d.nextWith simSEARCH t i).Seeking
  · rw [if_pos hnote]
    refine ⟨fits_addrIn ht, fun hseeking => ?_⟩
    rcases seeking_of_next hseeking with ⟨-, hbegins⟩ | ⟨hidle, -, -⟩
    · exact Or.inl ⟨hbegins.rpADRSTRT, rfl⟩
    · exact absurd hnote.1 hidle
  · rw [if_neg hnote]
    refine ⟨h.fits, fun hseeking => ?_⟩
    rcases seeking_of_next hseeking with ⟨hidle, -⟩ | ⟨-, hbefore, hgoes⟩
    · exact absurd ⟨hidle, hseeking⟩ hnote
    · exact Or.inr ⟨hgoes.rpADRSTRT, h.calculates hcalm hbefore⟩

/-- The data begin with the address of the command. -/
theorem Follows.found (h : Follows t d a) (hcalm : Calm simSEARCH t a d i)
    (hst : d.ctrl.state ≠ .data) (hnext : (d.nextWith simSEARCH t i).ctrl.state = .data) :
    (d.nextWith simSEARCH t i).addr.rpADRBUSY = false ∧
      (d.nextWith simSEARCH t i).addr.rpSDLSA =
        BitVec.ofNat 21 (2 * (note simSEARCH t a d i).sector) := by
  have hfound := found_of_next hst hnext
  have hseeking : d.Seeking := by
    refine ⟨?_, hfound.rpSDOP⟩
    rw [hfound.state]
    rfl
  have hnote : note simSEARCH t a d i = a := by
    refine if_neg fun hidle => ?_
    rw [hfound.state] at hidle
    cases hidle.1
  have hidle : d.addr.state = .idle := by
    simpa [ctrlIn, RpAddr.rpADRBUSY] using hfound.rpADRBUSY
  rw [hnote, addr_nextWith]
  rcases h.addr hseeking with ⟨hstart, -⟩ | ⟨hstart, hcalc⟩
  · exact absurd hfound (hcalm.waits hseeking hstart)
  · have hrest : d.addr.next (d.addrIn t) = d.addr := by
      rw [RpAddr.next, hidle]
      exact if_neg (by rw [addrIn, hstart]; exact Bool.false_ne_true)
    rw [RpAddr.In.Calculates, hidle] at hcalc
    rw [hrest]
    refine ⟨?_, hcalc⟩
    rw [RpAddr.rpADRBUSY, hidle]
    rfl

/-- In every run of a drive of either build, from rest and with every clock calm, the request
comes with the calculated address of the command. -/
theorem freshAddress_run (simSEARCH : Bool) (k : BitVec 3) (d : Rp) (i : Nat → SearchIn)
    (hstart : d.ctrl.state = .idle)
    (hcalm : ∀ n, Calm simSEARCH (RpType.getTYPE k)
      (noted simSEARCH (RpType.getTYPE k) d i n) (driveAt simSEARCH (RpType.getTYPE k) d i n)
      (i n)) (n : Nat) : Fresh simSEARCH (RpType.getTYPE k) d i n := by
  have ht : (RpType.getTYPE k).Room := RpType.room_getTYPE k
  have hfollows : ∀ m, Follows (RpType.getTYPE k) (driveAt simSEARCH (RpType.getTYPE k) d i m)
      (noted simSEARCH (RpType.getTYPE k) d i m) := by
    intro m
    induction m with
    | zero =>
        refine ⟨fits_addrIn ht, fun hseeking => ?_⟩
        rw [show (driveAt simSEARCH (RpType.getTYPE k) d i 0).Seeking ↔ d.Seeking from Iff.rfl,
          Seeking, hstart] at hseeking
        cases hseeking.1
    | succ m ih => exact ih.next ht (hcalm m)
  intro hst hnext
  exact (hfollows n).found (hcalm n) hst (beq_iff_eq.mp hnext)

/-! ## A search that ends at once -/

/-- A drive at rest, with a desired sector on its cylinder. -/
def resting : Rp where
  ctrl :=
    { state := .idle
      rpCC := 0
      rpDFE := false
      rpDRY := true
      rpEBL := false
      rpECE := false
      rpPIP := false
      rpSETATA := false
      rpSETSKI := false
      rpADRSTRT := false
      rpSDOP := .nop
      tmpATA := false
      tmpCC := 0
      head_pos := 0
      bit_cnt := 0
      word_cnt := 0
      delay := 0
      lastGO := false }
  addr := { sum := 0, temp := 0, loop := 0, state := .idle }
  rpSA := 1
  rpTA := 1
  rpDCA := 0
  rpFUN := 0
  rpFMT22 := false
  rpDMD := false

/-- No write, and the sector `rpLAS` under the head. -/
def passes (rpLAS : BitVec 6) : SearchIn where
  clr := false
  rhINCSECT := false
  rpSELECT := true
  rpDATAI := 0
  cs1WRITE := false
  daWRITE := false
  dcWRITE := false
  ofWRITE := false
  mrWRITE := false
  rpPAT := false
  diag_clken := false
  diag_index := false
  rpSBD := false
  rpCLBERR := false
  rpSDACK := false
  rpLAS := rpLAS

/-- The write of a read command. -/
def readCommand : SearchIn := { passes 0 with rpDATAI := 0o71, cs1WRITE := true }

/-- A read command whose sector comes under the head at clock `m`. -/
def reading (m n : Nat) : SearchIn :=
  if n = 0 then readCommand else passes (if n < m then 0 else 1)

variable (simSEARCH) in
/-- Without an acknowledge or an error the drive keeps its data. -/
theorem data_stays {d : Rp} (rpLAS : BitVec 6) (h : d.ctrl.state = .data ∧ d.rpDMD = false) :
    (d.nextWith simSEARCH t (passes rpLAS)).ctrl.state = .data ∧
      (d.nextWith simSEARCH t (passes rpLAS)).rpDMD = false := by
  obtain ⟨hst, hdmd⟩ := h
  have hinc : d.rpINCSECT (passes rpLAS).toIn = false := by
    rw [rpINCSECT, hdmd]
    rfl
  have haoe : d.rpSETAOE t (passes rpLAS).toIn = false := by
    rw [rpSETAOE, rpINCCYL, hinc]
    rfl
  have hctrl : (d.nextWith simSEARCH t (passes rpLAS)).ctrl =
      d.ctrl.next (d.ctrlIn t (passes rpLAS).toIn) := by
    refine RpCtrl.nextWith_of_not_search ?_
    rw [hst]
    decide
  constructor
  · rw [hctrl]
    exact RpCtrl.data_next hst rfl haoe rfl rfl
  · simp [nextWith, next, passes, rpDRVCLR, goes, rpGO, writes, hdmd]

/-- The sector comes under the head after the calculation. -/
theorem calm_reading (n : Nat) :
    Calm true (RpType.getTYPE 0) (noted true (RpType.getTYPE 0) resting (reading 60) n)
      (driveAt true (RpType.getTYPE 0) resting (reading 60) n) (reading 60 n) := by
  by_cases hn : n < 61
  · revert n
    decide +kernel
  · obtain ⟨m, rfl⟩ : ∃ m, n = 61 + m := ⟨n - 61, by omega⟩
    have hdata : (driveAt true (RpType.getTYPE 0) resting (reading 60) (61 + m)).ctrl.state =
        .data ∧ (driveAt true (RpType.getTYPE 0) resting (reading 60) (61 + m)).rpDMD = false := by
      induction m with
      | zero => decide +kernel
      | succ m ih =>
          have hpasses : reading 60 (61 + m) = passes 1 := by
            rw [reading, if_neg (by omega), if_neg (by omega)]
          have hnext := data_stays true (t := RpType.getTYPE 0) 1 (ih (by omega))
          rw [← hpasses] at hnext
          exact hnext
    have hno : ¬ (driveAt true (RpType.getTYPE 0) resting (reading 60) (61 + m)).Seeking := by
      rw [Seeking, hdata.1]
      exact fun h => nomatch h.1
    exact ⟨fun h => absurd h hno, fun h => absurd h hno, fun h => absurd h hno⟩

theorem freshAddress_run_reading :
    Fresh true (RpType.getTYPE 0) resting (reading 60) 60 ∧
      (driveAt true (RpType.getTYPE 0) resting (reading 60) 60).ctrl.state ≠ .data ∧
      (driveAt true (RpType.getTYPE 0) resting (reading 60) (60 + 1)).ctrl.rpSDREQ = true :=
  ⟨freshAddress_run true 0 resting (reading 60) rfl calm_reading 60, by decide +kernel,
    by decide +kernel⟩

/-- The sector is under the head in the first clock of the search, and the data begin while
the calculator starts. -/
theorem freshAddress_fails :
    ¬ ∀ (simSEARCH : Bool) (k : BitVec 3) (d : Rp) (i : Nat → SearchIn),
      d.ctrl.state = .idle → ∀ n, Fresh simSEARCH (RpType.getTYPE k) d i n := by
  intro h
  have hfresh := h true 0 resting (reading 1) rfl 2 (by decide +kernel) (by decide +kernel)
  exact absurd hfresh.1 (by decide +kernel)

end Rp

end KS10
