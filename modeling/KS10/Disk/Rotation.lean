import KS10.Clocked.Cycle
import KS10.Disk.Mapping
import KS10.Disk.Search

/-!
# The sector under the head

RPLA simulates the rotation of the disk.  A divider makes a sector clock of 1.6 MHz, the
sector extension counter counts the sector clocks of a sector, and the sector counter counts
the sectors of a track.  In the diagnostic mode the program makes the sector clocks.  An
accurate search ends when the sector counter is at the desired sector.

The end of a sector is a test for one of two pairs of a last sector and an extension: those
of the two formats of an RP06.  The counters find their way back into such a format from any
values, for they run over the ends of their registers.  The drives with other numbers of
sectors never come to the end of a sector (`Rpla.sectCnt_stays`).  So a disk rotates if and
only if its last sector is one of the two (`RpType.rotates_iff`).
-/

namespace KS10

open Clocked

/-! ## The counters -/

structure Rpla where
  divider : Divider 32
  /-- The diagnostic sector clock at the last clock. -/
  lastDSCK : Bool
  sectExt : BitVec 10
  sectCnt : BitVec 6

namespace Rpla

/-- The inputs of one clock. -/
structure In where
  rpDSCK : Bool
  rpDIND : Bool
  rpDMD : Bool
  rpSECNUM : BitVec 6

def clkFRQ : Nat := 12500000
def secFRQ : Nat := 1600000

/-- The ratio of the frequencies in 32 bits, rounded. -/
def incr : BitVec 32 := BitVec.ofNat 32 ((2 * 2 ^ 32 * secFRQ + clkFRQ) / (2 * clkFRQ))

def diagClk (s : Rpla) (i : In) : Bool := i.rpDSCK && !s.lastDSCK

def sectClken (s : Rpla) (i : In) : Bool := if i.rpDMD then s.diagClk i else s.divider.carry

/-- The end of a sector. -/
def sectInc (s : Rpla) (i : In) : Bool :=
  (i.rpSECNUM == 19 && s.sectExt == 671) || (i.rpSECNUM == 21 && s.sectExt == 608)

def nextExt (s : Rpla) (i : In) : BitVec 10 :=
  if s.sectClken i then
    if i.rpDMD && i.rpDIND then 0
    else if s.sectInc i then 0
    else s.sectExt + 1
  else s.sectExt

def nextCnt (s : Rpla) (i : In) : BitVec 6 :=
  if s.sectClken i then
    if i.rpDMD && i.rpDIND then 0
    else if s.sectInc i then
      if s.sectCnt = i.rpSECNUM then if !i.rpDMD then 0 else s.sectCnt
      else s.sectCnt + 1
    else s.sectCnt
  else s.sectCnt

/-- One clock. -/
def next (s : Rpla) (i : In) : Rpla where
  divider := s.divider.next incr
  lastDSCK := i.rpDSCK
  sectExt := s.nextExt i
  sectCnt := s.nextCnt i

def reset : Rpla where
  divider := ⟨0, false⟩
  lastDSCK := false
  sectExt := 0
  sectCnt := 0

/-- The extension as it is reported. -/
def extCnt (s : Rpla) : BitVec 2 :=
  if s.sectExt < 128 then 0
  else if s.sectExt < 256 then 1
  else if s.sectExt < 512 then 2
  else 3

def rpLA (s : Rpla) : BitVec 16 := 0#4 ++ (s.sectCnt ++ (s.extCnt ++ 0#4))

/-- The look ahead sector. -/
def rpLAS (s : Rpla) : BitVec 6 := s.rpLA.extractLsb' 6 6

/-- The state of the counters after some inputs.  The number of sectors is always that of a
format of the drive. -/
def Reached (t : RpType) (s : Rpla) : Prop :=
  ∃ (i : Nat → In) (n : Nat), (∀ k, ∃ fmt22, (i k).rpSECNUM = t.secNUM fmt22) ∧
    run next reset i n = s

/-- The number of sector clocks of a sector, in the 16-bit or the 18-bit format. -/
def sectorClocks (fmt22 : Bool) : Nat := if fmt22 then 609 else 672

/-- From a state on, the sector counter goes through all sectors again and again, and is at
each of them for a number of sector clocks. -/
structure Visits (last : BitVec 6) (clocks : Nat) (s : Rpla) (i : Nat → In) : Prop where
  sectCnt : ∀ m, (run next s i m).sectCnt =
    BitVec.ofNat 6 (Divider.ticks incr s.divider m / clocks % (last.toNat + 1))
  again : ∀ k, ∃ m, k ≤ Divider.ticks incr s.divider m

/-- A format outside the diagnostic mode. -/
structure Normal (last : BitVec 6) (i : In) : Prop where
  rpDMD : i.rpDMD = false
  rpSECNUM : i.rpSECNUM = last

end Rpla

/-- A drive with its rotation. -/
structure RotRp where
  d : Rp
  la : Rpla

namespace RotRp

/-- The inputs of one clock. -/
structure In extends Rp.In where
  rpDSCK : Bool
  rpDIND : Bool

def laIn (t : RpType) (x : RotRp) (i : In) : Rpla.In where
  rpDSCK := i.rpDSCK
  rpDIND := i.rpDIND
  rpDMD := x.d.rpDMD
  rpSECNUM := x.d.rpSECNUM t

/-- One clock of a drive with the accurate search. -/
def next (t : RpType) (x : RotRp) (i : In) : RotRp where
  d := x.d.nextWith true t { i.toIn with rpLAS := x.la.rpLAS }
  la := x.la.next (x.laIn t i)

/-- The drive after `n` clocks. -/
def after (t : RpType) (x : RotRp) (i : Nat → In) (n : Nat) : RotRp := run (next t) x i n

/-- The drive searches for a valid sector in a format, outside the diagnostic mode. -/
structure Searching (t : RpType) (fmt22 : Bool) (x : RotRp) : Prop where
  state : x.d.ctrl.state = .search
  rpDRY : x.d.ctrl.rpDRY = false
  rpDMD : x.d.rpDMD = false
  rpFMT22 : x.d.rpFMT22 = fmt22
  rpSA : x.d.rpSA.toNat ≤ (t.secNUM fmt22).toNat

/-- The desired sector is left alone: no preset, and no sector is counted. -/
structure Spares (i : In) : Prop where
  preset : Rp.rpPRESET i.toIn = false
  counts : (i.rhINCSECT && i.rpSELECT) = false

end RotRp

namespace RpType

/-- In a format every disk of a type rotates, from any state of the counters, and every
search ends. -/
structure Rotates (t : RpType) (fmt22 : Bool) : Prop where
  visits : ∀ (s : Rpla) (i : Nat → Rpla.In), Rpla.Reached t s →
    (∀ n, Rpla.Normal (t.secNUM fmt22) (i n)) →
    ∃ n, Rpla.Visits (t.secNUM fmt22) (Rpla.sectorClocks fmt22) (run Rpla.next s i n)
      fun k => i (n + k)
  search : ∀ (x : RotRp) (i : Nat → RotRp.In), Rpla.Reached t x.la → x.Searching t fmt22 →
    (∀ n, RotRp.Spares (i n)) → ∃ n, (x.after t i n).d.ctrl.state ≠ .search

end RpType

/-! ## Outside the diagnostic mode -/

namespace Rpla

variable {s : Rpla} {i : In} {last : BitVec 6}

theorem rpLAS_eq : s.rpLAS = s.sectCnt := by
  unfold rpLAS rpLA
  rw [BitVec.extractLsb'_append_eq_of_add_le (by decide)]
  exact BitVec.extractLsb'_append_eq_left

/-- The last sector is one that has an end. -/
def Counted (last : BitVec 6) : Prop := last = 19 ∨ last = 21

/-- The last extension of a sector. -/
def lastExt (last : BitVec 6) : BitVec 10 := if last = 19 then 671 else 608

def stages (s : Rpla) : Stages 10 6 := ⟨s.sectExt, s.sectCnt⟩

theorem sectClken_eq (h : Normal last i) : s.sectClken i = s.divider.carry := by
  unfold sectClken
  rw [h.rpDMD, if_neg Bool.false_ne_true]

theorem sectInc_eq (h : Normal last i) (hlast : Counted last) :
    s.sectInc i = decide (s.sectExt = lastExt last) := by
  unfold sectInc
  rw [h.rpSECNUM]
  rcases hlast with rfl | rfl
  · exact Bool.or_false _
  · exact Bool.false_or _

/-- A sector clock counts both counters. -/
theorem stages_next (h : Normal last i) (hlast : Counted last) : (s.next i).stages =
    if s.divider.carry then s.stages.next (lastExt last) last else s.stages := by
  have hext : (s.next i).sectExt = s.nextExt i := rfl
  have hcnt : (s.next i).sectCnt = s.nextCnt i := rfl
  unfold stages
  rw [hext, hcnt]
  unfold nextExt nextCnt
  rw [sectClken_eq h, h.rpDMD, h.rpSECNUM, sectInc_eq h hlast]
  cases s.divider.carry with
  | false => rfl
  | true =>
      by_cases hend : s.sectExt = lastExt last
      · rw [decide_eq_true hend]
        ext1
        · exact (if_pos hend).symm
        · exact (if_pos (α := BitVec 6) hend).symm
      · rw [decide_eq_false hend]
        ext1
        · exact (if_neg hend).symm
        · exact (if_neg (α := BitVec 6) hend).symm

theorem run_divider (i : Nat → In) (n : Nat) :
    (run next s i n).divider = (Divider.next incr)^[n] s.divider := by
  induction n with
  | zero => rfl
  | succ n ih =>
      rw [run_succ, Function.iterate_succ_apply', ← ih]
      rfl

theorem run_stages {i : Nat → In} (h : ∀ n, Normal last (i n)) (hlast : Counted last) (n : Nat) :
    (run next s i n).stages =
      (Stages.next (lastExt last) last)^[Divider.ticks incr s.divider n] s.stages := by
  induction n with
  | zero => rfl
  | succ n ih =>
      rw [run_succ, stages_next (h n) hlast, run_divider, ih, Divider.ticks]
      cases ((Divider.next incr)^[n] s.divider).carry with
      | false => rfl
      | true =>
          rw [if_pos rfl]
          exact (Function.iterate_succ_apply' _ _ _).symm

theorem incr_ne_zero : incr ≠ 0 := by decide

/-- A counted disk rotates, from any state of the counters. -/
theorem exists_visits {i : Nat → In} (h : ∀ n, Normal last (i n)) (hlast : Counted last) :
    ∃ n, Visits last ((lastExt last).toNat + 1) (run next s i n) fun k => i (n + k) := by
  obtain ⟨k, hk⟩ := Stages.exists_iterate_eq_zero (lastExt last) last s.stages
  obtain ⟨n, hn⟩ := Divider.exists_ticks_eq (s := s.divider) incr_ne_zero k
  have hzero : (run next s i n).stages = ⟨0, 0⟩ := by rw [run_stages h hlast, hn, hk]
  refine ⟨n, fun m => ?_, Divider.exists_ticks incr_ne_zero⟩
  have hstages := run_stages (s := run next s i n) (fun m => h (n + m)) hlast m
  rw [hzero] at hstages
  rw [← Stages.iterate_zero, ← hstages]
  rfl

/-- A disk of any other number of sectors stays at its sector. -/
theorem sectCnt_stays {i : Nat → In} (h : ∀ n, Normal last (i n)) (hlast : ¬ Counted last)
    (n : Nat) : (run next s i n).sectCnt = s.sectCnt := by
  induction n with
  | zero => rfl
  | succ n ih =>
      have hinc : (run next s i n).sectInc (i n) = false := by
        unfold sectInc
        rw [(h n).rpSECNUM]
        have h19 : (last == 19) = false := beq_eq_false_iff_ne.mpr fun heq => hlast (.inl heq)
        have h21 : (last == 21) = false := beq_eq_false_iff_ne.mpr fun heq => hlast (.inr heq)
        rw [h19, h21, Bool.false_and, Bool.false_and, Bool.or_false]
      rw [run_succ]
      show (run next s i n).nextCnt (i n) = _
      unfold nextCnt
      rw [hinc, (h n).rpDMD, Bool.false_and, if_neg Bool.false_ne_true, if_neg Bool.false_ne_true,
        ite_self, ih]

/-- It does not visit its sectors. -/
theorem not_visits {i : Nat → In} {clocks : Nat} (h : ∀ n, Normal last (i n))
    (hlast : ¬ Counted last) (hpos : 0 < clocks) (hmore : last ≠ 0) :
    ¬ Visits last clocks s i := by
  intro hvisits
  obtain ⟨m, hm⟩ := Divider.exists_ticks_eq (s := s.divider) incr_ne_zero clocks
  have hlt := last.isLt
  have hpos' : 0 < last.toNat := by
    rw [Nat.pos_iff_ne_zero]
    exact fun hzero => hmore (BitVec.eq_of_toNat_eq hzero)
  have hfirst := hvisits.sectCnt 0
  have hsecond := hvisits.sectCnt m
  have hone : 1 % (last.toNat + 1) = 1 := Nat.mod_eq_of_lt (by omega)
  rw [sectCnt_stays h hlast, Divider.ticks, Nat.zero_div, Nat.zero_mod] at hfirst
  rw [sectCnt_stays h hlast, hfirst, hm, Nat.div_self hpos, hone] at hsecond
  exact absurd hsecond (by decide)

end Rpla

/-! ## A search ends -/

/-- A search goes on as long as its sector is not under the head, or the calculator is busy. -/
theorem RpCtrl.waits_of_search {rpSA rpLAS : BitVec 6} {s : RpCtrl} {i : In}
    (hst : s.state = .search) (hdmd : i.rpDMD = false)
    (hnext : (s.nextWith true rpSA rpLAS i).state = .search) (hfound : rpSA = rpLAS) :
    i.rpADRBUSY = true := by
  unfold nextWith at hnext
  rw [hst] at hnext
  dsimp only at hnext
  by_cases hclr : i.clr = true
  · rw [if_pos hclr] at hnext
    cases hnext
  · by_cases herr : i.rpCLBERR = true
    · rw [if_neg hclr, if_pos herr] at hnext
      cases hnext
    · rw [if_neg hclr, if_neg herr, hdmd, if_neg Bool.false_ne_true] at hnext
      unfold searchDataWith found at hnext
      rw [if_pos rfl, if_pos (beq_iff_eq.mpr hfound)] at hnext
      cases hbusy : i.rpADRBUSY with
      | true => rfl
      | false =>
          rw [hbusy] at hnext
          split at hnext
          · cases hnext
          · cases hnext

namespace RpAddr

/-- The clocks that the calculator is busy at most. -/
def left (s : RpAddr) : Nat :=
  match s.state with
  | .idle => 0
  | .track => s.loop.toNat + 67
  | .sect => s.loop.toNat + 2
  | .word => 1

theorem left_le (s : RpAddr) : s.left ≤ 130 := by
  have hlt := s.loop.isLt
  unfold left
  split <;> omega

theorem idle_of_left {s : RpAddr} (h : s.left = 0) : s.rpADRBUSY = false := by
  unfold left at h
  unfold rpADRBUSY
  cases hst : s.state with
  | idle => rfl
  | track => rw [hst] at h; exact absurd h (Nat.succ_ne_zero _)
  | sect => rw [hst] at h; exact absurd h (Nat.succ_ne_zero _)
  | word => rw [hst] at h; exact absurd h (Nat.succ_ne_zero _)

/-- The calculator comes to its end, if it is not started. -/
theorem left_next {s : RpAddr} {i : In} (h : i.rpADRSTRT = false) :
    (s.next i).left ≤ s.left - 1 := by
  have hloop : ∀ hne : s.loop ≠ 0, (s.loop - 1).toNat + 1 = s.loop.toNat := by
    intro hne
    have hpos : s.loop.toNat ≠ 0 := fun hzero => hne (BitVec.eq_of_toNat_eq hzero)
    have hlt := s.loop.isLt
    rw [BitVec.toNat_sub]
    show (2 ^ 6 - 1 + s.loop.toNat) % 2 ^ 6 + 1 = s.loop.toNat
    omega
  unfold next
  cases hst : s.state with
  | idle =>
      rw [h, if_neg Bool.false_ne_true]
      unfold left
      rw [hst]
      exact Nat.le_refl 0
  | track =>
      by_cases hzero : s.loop = 0
      · have hlt := (i.rpSECNUM + 1).isLt
        simp only [left, hst, hzero, beq_self_eq_true, if_true]
        omega
      · have hdown := hloop hzero
        simp only [left, hst, beq_eq_false_iff_ne.mpr hzero, Bool.false_eq_true, if_false]
        omega
  | sect =>
      by_cases hzero : s.loop = 0
      · simp only [left, hst, hzero, beq_self_eq_true, if_true]
        omega
      · have hdown := hloop hzero
        simp only [left, hst, beq_eq_false_iff_ne.mpr hzero, Bool.false_eq_true, if_false]
        omega
  | word =>
      simp only [left, hst]
      exact Nat.le_refl 0

end RpAddr

namespace RotRp

variable {t : RpType} {fmt22 : Bool} {x : RotRp} {i : In}

/-- A search that goes on keeps its sector. -/
theorem Searching.next (h : Searching t fmt22 x) (hi : Spares i)
    (hnext : (x.next t i).d.ctrl.state = .search) :
    Searching t fmt22 (x.next t i) ∧ (x.next t i).d.rpSA = x.d.rpSA ∧
      (x.next t i).d.ctrl.rpADRSTRT = false := by
  have hbusy : RpCtrl.busy (x.next t i).d.ctrl.state = true := by
    rw [hnext]
    rfl
  obtain ⟨hgoes, -⟩ := RpCtrl.nextWith_search x.d.rpSA h.state hbusy
  have hinc : x.d.rpINCSECT i.toIn = false := by
    unfold Rp.rpINCSECT
    rw [h.rpDMD, if_neg Bool.false_ne_true]
    exact hi.counts
  have hsa : (x.next t i).d.rpSA = x.d.rpSA := by
    show x.d.nextSA t i.toIn = _
    unfold Rp.nextSA
    rw [hi.preset, Rp.writes_busy h.rpDRY, hinc, if_neg Bool.false_ne_true,
      if_neg Bool.false_ne_true, if_neg Bool.false_ne_true]
  refine ⟨⟨hnext, ?_, Rp.rpDMD_next (t := t) h.rpDRY h.rpDMD, ?_, hsa ▸ h.rpSA⟩, hsa,
    hgoes.rpADRSTRT⟩
  · exact hgoes.rpDRY.trans h.rpDRY
  · show (if Rp.rpPRESET i.toIn then false else
      if x.d.writes i.toIn i.ofWRITE then i.rpDATAI.getLsbD 12 else x.d.rpFMT22) = fmt22
    rw [hi.preset, Rp.writes_busy h.rpDRY, if_neg Bool.false_ne_true, if_neg Bool.false_ne_true,
      h.rpFMT22]

section Endless

variable {i : Nat → In}

/-- A search that goes on keeps its sector. -/
theorem Searching.holds (h : Searching t fmt22 x) (hi : ∀ n, Spares (i n))
    (hstays : ∀ n, (x.after t i n).d.ctrl.state = .search) (n : Nat) :
    Searching t fmt22 (x.after t i n) ∧ (x.after t i n).d.rpSA = x.d.rpSA := by
  induction n with
  | zero => exact ⟨h, rfl⟩
  | succ n ih =>
      obtain ⟨hsearch, hsa, -⟩ := ih.1.next (hi n) (hstays (n + 1))
      exact ⟨hsearch, hsa.trans ih.2⟩

/-- The calculator comes to its end. -/
theorem Searching.calculated (h : Searching t fmt22 x) (hi : ∀ n, Spares (i n))
    (hstays : ∀ n, (x.after t i n).d.ctrl.state = .search) {n : Nat} (hn : 131 ≤ n) :
    (x.after t i n).d.addr.rpADRBUSY = false := by
  have hstart (n : Nat) : (x.after t i (n + 1)).d.ctrl.rpADRSTRT = false :=
    ((h.holds hi hstays n).1.next (hi n) (hstays (n + 1))).2.2
  have hleft (k : Nat) : (x.after t i (1 + k)).d.addr.left ≤ 130 - k := by
    induction k with
    | zero => exact RpAddr.left_le _
    | succ k ih =>
        have hstep : (x.after t i (1 + k + 1)).d.addr.left ≤
            (x.after t i (1 + k)).d.addr.left - 1 :=
          RpAddr.left_next (by rw [Nat.add_comm 1 k]; exact hstart k)
        rw [← Nat.add_assoc]
        omega
  apply RpAddr.idle_of_left
  have hzero := hleft (n - 1)
  rw [show 1 + (n - 1) = n by omega] at hzero
  omega

/-- The sector comes under the head again and again. -/
theorem Searching.exists_sector (h : Searching t fmt22 x) (hi : ∀ n, Spares (i n))
    (hstays : ∀ n, (x.after t i n).d.ctrl.state = .search)
    (hlast : Rpla.Counted (t.secNUM fmt22)) (k : Nat) :
    ∃ n, k ≤ n ∧ (x.after t i n).la.rpLAS = x.d.rpSA := by
  have hla : ∀ n, (x.after t i n).la =
      run Rpla.next x.la (fun k => (x.after t i k).laIn t (i k)) n :=
    run_part (fun _ _ => rfl) x i
  have hnormal : ∀ k, Rpla.Normal (t.secNUM fmt22) ((x.after t i k).laIn t (i k)) := by
    intro k
    refine ⟨(h.holds hi hstays k).1.rpDMD, ?_⟩
    show (x.after t i k).d.rpSECNUM t = t.secNUM fmt22
    unfold Rp.rpSECNUM RpType.secNUM
    rw [(h.holds hi hstays k).1.rpFMT22]
  obtain ⟨n, hvisits⟩ := Rpla.exists_visits (s := x.la) hnormal hlast
  have hlt : x.d.rpSA.toNat < (t.secNUM fmt22).toNat + 1 := Nat.lt_succ_of_le h.rpSA
  obtain ⟨m, hm⟩ := Divider.exists_ticks_eq
    (s := (run Rpla.next x.la (fun k => (x.after t i k).laIn t (i k)) n).divider)
    Rpla.incr_ne_zero
    (((Rpla.lastExt (t.secNUM fmt22)).toNat + 1) *
      (x.d.rpSA.toNat + ((t.secNUM fmt22).toNat + 1) * k))
  refine ⟨n + m, ?_, ?_⟩
  · have hle : ((Rpla.lastExt (t.secNUM fmt22)).toNat + 1) *
        (x.d.rpSA.toNat + ((t.secNUM fmt22).toNat + 1) * k) ≤ m := by
      rw [← hm]
      exact Divider.ticks_le m
    have hround := Nat.le_mul_of_pos_left k (Nat.succ_pos (t.secNUM fmt22).toNat)
    have hmul := Nat.le_mul_of_pos_left (x.d.rpSA.toNat + ((t.secNUM fmt22).toNat + 1) * k)
      (Nat.succ_pos (Rpla.lastExt (t.secNUM fmt22)).toNat)
    exact Nat.le_trans (Nat.le_trans (Nat.le_trans hround (Nat.le_add_left _ _))
      (Nat.le_trans hmul hle)) (Nat.le_add_left m n)
  · have hcnt := hvisits.sectCnt m
    rw [hm, Nat.mul_div_cancel_left _ (Nat.succ_pos _), Nat.add_mul_mod_self_left,
      Nat.mod_eq_of_lt hlt, BitVec.ofNat_toNat, BitVec.setWidth_eq, ← run_add, ← hla] at hcnt
    rw [Rpla.rpLAS_eq, hcnt]

/-- A search in a counted format ends. -/
theorem Searching.ends (h : Searching t fmt22 x) (hi : ∀ n, Spares (i n))
    (hlast : Rpla.Counted (t.secNUM fmt22)) :
    ∃ n, (x.after t i n).d.ctrl.state ≠ .search := by
  by_contra hnever
  have hstays : ∀ n, (x.after t i n).d.ctrl.state = .search := fun n =>
    Classical.not_not.mp fun hn => hnever ⟨n, hn⟩
  obtain ⟨n, hlate, hunder⟩ := h.exists_sector hi hstays hlast 131
  have hwaits : (x.after t i n).d.addr.rpADRBUSY = true := by
    obtain ⟨hsearch, hsa⟩ := h.holds hi hstays n
    refine RpCtrl.waits_of_search hsearch.state hsearch.rpDMD (hstays (n + 1)) ?_
    exact hsa.trans hunder.symm
  rw [h.calculated hi hstays hlate] at hwaits
  cases hwaits

end Endless

end RotRp

namespace RpType

theorem secNUM_last_ne_zero (type : BitVec 16) (fmt22 : Bool) :
    (last type).secNUM fmt22 ≠ 0 := by
  unfold last
  split_ifs <;> cases fmt22 <;> decide

/-- The sector clocks of a sector are those of the format. -/
theorem sectorClocks_eq {type : BitVec 16} {fmt22 : Bool}
    (h : Rpla.Counted ((last type).secNUM fmt22)) :
    (Rpla.lastExt ((last type).secNUM fmt22)).toNat + 1 = Rpla.sectorClocks fmt22 := by
  unfold last at h ⊢
  split_ifs at h ⊢ <;> cases fmt22 <;> first
    | rfl
    | exact absurd h (by unfold Rpla.Counted; decide)

/-- The inputs of a rotation, without the diagnostic mode. -/
def rotation (t : RpType) (fmt22 : Bool) (_ : Nat) : Rpla.In where
  rpDSCK := false
  rpDIND := false
  rpDMD := false
  rpSECNUM := t.secNUM fmt22

theorem not_rotates {type : BitVec 16} {fmt22 : Bool}
    (h : ¬ Rpla.Counted ((last type).secNUM fmt22)) : ¬ Rotates (last type) fmt22 := by
  intro hrotates
  have hnormal : ∀ n, Rpla.Normal ((last type).secNUM fmt22) (rotation (last type) fmt22 n) :=
    fun _ => ⟨rfl, rfl⟩
  have hreached : Rpla.Reached (last type) Rpla.reset :=
    ⟨rotation (last type) fmt22, 0, fun _ => ⟨fmt22, rfl⟩, rfl⟩
  obtain ⟨n, hvisits⟩ := hrotates.visits Rpla.reset _ hreached hnormal
  have hpos : 0 < Rpla.sectorClocks fmt22 := by
    unfold Rpla.sectorClocks
    split <;> decide
  exact Rpla.not_visits (fun m => hnormal (n + m)) h hpos (secNUM_last_ne_zero type fmt22) hvisits

/-- A disk rotates in a format, and its searches end, if and only if its last sector is 19
or 21. -/
theorem rotates_iff (type : BitVec 16) (fmt22 : Bool) :
    Rotates (last type) fmt22 ↔
      (last type).secNUM fmt22 = 19 ∨ (last type).secNUM fmt22 = 21 := by
  constructor
  · intro h
    by_contra hlast
    exact not_rotates hlast h
  · intro hlast
    refine ⟨fun s i _ hnormal => ?_, fun x i _ hsearch hi => hsearch.ends hi hlast⟩
    rw [← sectorClocks_eq hlast]
    exact Rpla.exists_visits hnormal hlast

/-- An RM03 stays at sector 0. -/
theorem rotates_fails : ¬ ∀ (type : BitVec 16) (fmt22 : Bool), Rotates (last type) fmt22 := by
  intro h
  have hlast : ¬ Rpla.Counted ((last rpRM03).secNUM false) := by
    unfold Rpla.Counted
    decide
  exact not_rotates hlast (h rpRM03 false)

end RpType

end KS10
