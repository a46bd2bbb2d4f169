import KS10.Clocked.Watchdog
import KS10.Bus.Timeout
import KS10.Cpu.PageFault
import KS10.Disk.Phases
import KS10.Lp.Dma

/-!
# The monitors of unanswered cycles

Three monitors look for memory cycles that nobody acknowledges: NXM in the processor, UBATMO
in each Unibus adapter and RHNEM in the disk controller.  The first two load their counter
as long as the request is up, and the third one counts as long as it is up.

What comes of it depends on the initiators.  The processor stops its clock until the
acknowledge comes, so its request stays up and NXM never fires (`Stall.memWait_of_unacked`).
The SD controller also waits for the acknowledge with its request up, so RHNEM does fire, but
nothing takes the controller out of the wait (`Sd.dmaWait_of_unacked`).  The line printer
has a timer of its own, and gives up (`LpDma.exists_not_read`).
-/

namespace KS10

open Clocked Watchdog

/-! ## The counters -/

/-- A counter that loads at a request without its acknowledge and otherwise counts down. -/
def reload {w : Nat} (limit x : BitVec w) (req ack : Bool) : BitVec w :=
  if req && !ack then limit else if ack then 0 else if x != 0 then x - 1 else x

theorem toNat_countdown {w : Nat} (hw : 0 < w) (x : BitVec w) :
    (if x != 0 then x - 1 else x).toNat = x.toNat - 1 := by
  have hone : (1 : BitVec w).toNat = 1 := BitVec.toNat_one hw
  by_cases hx : x = 0
  · rw [hx, bne_self_eq_false, if_neg Bool.false_ne_true]
    rfl
  · have hpos : 0 < x.toNat := by
      rcases Nat.eq_zero_or_pos x.toNat with h0 | hpos
      · exact absurd (BitVec.eq_of_toNat_eq (by rw [h0]; rfl)) hx
      · exact hpos
    have hle : (1 : BitVec w) ≤ x := by
      rw [BitVec.le_def, hone]
      exact hpos
    rw [if_pos (bne_iff_ne.mpr hx), BitVec.toNat_sub_of_le hle, hone]

theorem toNat_reload {w : Nat} (hw : 0 < w) (limit x : BitVec w) (req ack : Bool) :
    (reload limit x req ack).toNat =
      if req && !ack then limit.toNat else if ack then 0 else x.toNat - 1 := by
  unfold reload
  split
  · rfl
  · split
    · rfl
    · exact toNat_countdown hw x

/-! ## NXM -/

structure Nxm.In where
  busIo : Bool
  cpuReqO : Bool
  cpuAckI : Bool

structure Nxm where
  timeout : BitVec 4
  deriving DecidableEq

namespace Nxm

def tDone : BitVec 4 := 15

def reset : Nxm := ⟨0⟩

/-- A request for a memory cycle. -/
def req (i : In) : Bool := !i.busIo && i.cpuReqO

/-- One clock of NXM. -/
def next (s : Nxm) (i : In) : Nxm := ⟨reload tDone s.timeout (req i) i.cpuAckI⟩

def memWait (s : Nxm) (i : In) : Bool :=
  (req i && !i.cpuAckI) || (s.timeout != 0 && !i.cpuAckI)

def nxmIntr (s : Nxm) : Bool := s.timeout == 1

/-- The monitor `t` clocks after a reset. -/
def nxmAt (i : Nat → In) (t : Nat) : Nxm := run next reset i t

theorem reloads (i : Nat → In) :
    Reloads 15 (fun t => req (i t)) (fun t => (i t).cpuAckI)
      fun t => (nxmAt i t).timeout.toNat where
  zero := rfl
  succ t := toNat_reload (by decide) tDone (nxmAt i t).timeout (req (i t)) (i t).cpuAckI

theorem nxmIntr_iff (s : Nxm) : s.nxmIntr = true ↔ s.timeout.toNat = 1 := by
  unfold nxmIntr
  rw [beq_iff_eq, ← BitVec.toNat_inj]
  rfl

end Nxm

/-! ## UBATMO -/

structure UbaTmo.In where
  busReqO : Bool
  busAckI : Bool

structure UbaTmo where
  count : BitVec 4
  deriving DecidableEq

namespace UbaTmo

def timeout : BitVec 4 := 12

def reset : UbaTmo := ⟨0⟩

/-- One clock of UBATMO. -/
def next (s : UbaTmo) (i : In) : UbaTmo := ⟨reload timeout s.count i.busReqO i.busAckI⟩

def setTmo (s : UbaTmo) : Bool := s.count == 1

/-- The monitor `t` clocks after a reset. -/
def tmoAt (i : Nat → In) (t : Nat) : UbaTmo := run next reset i t

theorem reloads (i : Nat → In) :
    Reloads 12 (fun t => (i t).busReqO) (fun t => (i t).busAckI)
      fun t => (tmoAt i t).count.toNat where
  zero := rfl
  succ t := toNat_reload (by decide) timeout (tmoAt i t).count (i t).busReqO (i t).busAckI

theorem setTmo_iff (s : UbaTmo) : s.setTmo = true ↔ s.count.toNat = 1 := by
  unfold setTmo
  rw [beq_iff_eq, ← BitVec.toNat_inj]
  rfl

end UbaTmo

/-! ## RHNEM -/

structure RhNem.In where
  devReqO : Bool
  devAckI : Bool

structure RhNem where
  nxmCount : BitVec 6
  deriving DecidableEq

namespace RhNem

def nxmTimeout : BitVec 6 := 63

def reset : RhNem := ⟨nxmTimeout⟩

/-- One clock of RHNEM. -/
def next (s : RhNem) (i : In) : RhNem :=
  ⟨if i.devReqO && !i.devAckI then if s.nxmCount != 0 then s.nxmCount - 1 else s.nxmCount
    else nxmTimeout⟩

def setNem (s : RhNem) : Bool := s.nxmCount == 1

/-- The monitor `t` clocks after a reset. -/
def nemAt (i : Nat → In) (t : Nat) : RhNem := run next reset i t

theorem counts (i : Nat → In) :
    Counts 62 (fun t => (i t).devReqO) (fun t => (i t).devAckI)
      fun t => (nemAt i t).nxmCount.toNat where
  zero := rfl
  succ t := by
    show (next (nemAt i t) (i t)).nxmCount.toNat = _
    unfold next
    split
    · exact toNat_countdown (by decide) _
    · rfl

theorem setNem_iff (s : RhNem) : s.setNem = true ↔ s.nxmCount.toNat = 1 := by
  unfold setNem
  rw [beq_iff_eq, ← BitVec.toNat_inj]
  rfl

end RhNem

/-! ## The processor waits -/

/-- The inputs of the processor's bus interface.  The clock enable is that of the other
waits, and the interrupt of NXM is its own. -/
structure Stall.In where
  mmu : Mmu.In
  cpuAckI : Bool

/-- The VMA register and what belongs to it, with the monitor that stops its clock. -/
structure Stall where
  mmu : Mmu
  nxm : Nxm

namespace Stall

def nxmIn (s : Stall) (i : In) : Nxm.In where
  busIo := Bus.busIo (s.mmu.cpuAddrO i.mmu)
  cpuReqO := s.mmu.cpuReqO
  cpuAckI := i.cpuAckI

def memWait (s : Stall) (i : In) : Bool := s.nxm.memWait (s.nxmIn i)

def mmuIn (s : Stall) (i : In) : Mmu.In :=
  { i.mmu with
    rst := false
    clken := i.mmu.clken && !s.memWait i
    nxmIntr := s.nxm.nxmIntr }

/-- One clock of the two. -/
def next (s : Stall) (i : In) : Stall where
  mmu := s.mmu.next (s.mmuIn i)
  nxm := s.nxm.next (s.nxmIn i)

/-- A memory cycle is on the bus. -/
def Cycle (s : Stall) : Prop :=
  s.mmu.vmaReg.io = false ∧ s.mmu.vmaReg.acRef = false ∧
    (s.mmu.vmaReg.read || s.mmu.vmaReg.write || s.mmu.vmaReg.wrTest) = true

/-- Its request is up. -/
theorem Cycle.req {s : Stall} (h : s.Cycle) (i : In) : Nxm.req (s.nxmIn i) = true := by
  obtain ⟨hio, hac, hcycle⟩ := h
  have hbus : Bus.busIo (s.mmu.cpuAddrO i.mmu) = false := by
    rw [Bus.busIo, PageFault.bit_cpuAddrO (by decide), PageFault.bit_flags_io, hio]
  have hreq : s.mmu.cpuReqO = true := by
    simp only [Bool.or_eq_true] at hcycle
    rcases hcycle with (hread | hwrite) | htest
    · simp [Mmu.cpuReqO, hac, hread]
    · simp [Mmu.cpuReqO, hac, hwrite]
    · simp [Mmu.cpuReqO, hac, htest]
  simp [Nxm.req, nxmIn, hbus, hreq]

/-- Without the acknowledge the processor waits, and nothing of the cycle moves. -/
theorem next_unacked {s : Stall} {i : In} (h : s.Cycle) (hack : i.cpuAckI = false) :
    s.memWait i = true ∧ (s.next i).Cycle ∧ (s.next i).nxm.timeout = 15 := by
  have hwait : s.memWait i = true := by
    simp only [memWait, Nxm.memWait, h.req i]
    simp [nxmIn, hack]
  have hvma : (s.next i).mmu.vmaReg = s.mmu.vmaReg := by
    simp [next, Mmu.next, Mmu.nextVma, Mmu.loads, mmuIn, hwait]
  refine ⟨hwait, ?_, ?_⟩
  · unfold Cycle
    rw [hvma]
    exact h
  · show reload Nxm.tDone s.nxm.timeout (Nxm.req (s.nxmIn i)) (s.nxmIn i).cpuAckI = 15
    rw [h.req i, show (s.nxmIn i).cpuAckI = false from hack]
    rfl

section Run

variable {s : Stall} {i : Nat → In}

/-- As long as nobody acknowledges the cycle the processor waits, and NXM does not fire. -/
theorem memWait_of_unacked {a t : Nat} (h : (run next s i a).Cycle) (hat : a ≤ t)
    (hnone : ∀ u, a ≤ u → u < t → (i u).cpuAckI = false) :
    (run next s i t).Cycle ∧ (a < t → (run next s i t).nxm.nxmIntr = false) := by
  induction t, hat using Nat.le_induction with
  | base => exact ⟨h, fun hlt => absurd hlt (Nat.lt_irrefl a)⟩
  | succ t hat ih =>
      obtain ⟨hcycle, -⟩ := ih fun u hau hu => hnone u hau (Nat.lt_succ_of_lt hu)
      obtain ⟨-, hcycle', htimeout⟩ :=
        next_unacked hcycle (hnone t hat (Nat.lt_succ_self t))
      refine ⟨hcycle', fun _ => ?_⟩
      show (next (run next s i t) (i t)).nxm.nxmIntr = false
      rw [Nxm.nxmIntr, htimeout]
      rfl

/-- The wait ends when the cycle is acknowledged, and not otherwise. -/
theorem wait_ends_iff {a : Nat} (h : (run next s i a).Cycle) :
    (∃ t, a ≤ t ∧ (run next s i t).memWait (i t) = false) ↔
      ∃ t, a ≤ t ∧ (i t).cpuAckI = true := by
  constructor
  · rintro ⟨t, hat, hwait⟩
    by_contra hnever
    have hnone (u : Nat) (hau : a ≤ u) : (i u).cpuAckI = false := by
      rw [← Bool.not_eq_true]
      exact fun hack => hnever ⟨u, hau, hack⟩
    obtain ⟨hcycle, -⟩ := memWait_of_unacked h hat fun u hau _ => hnone u hau
    rw [(next_unacked hcycle (hnone t hat)).1] at hwait
    cases hwait
  · rintro ⟨t, hat, hack⟩
    refine ⟨t, hat, ?_⟩
    simp [memWait, Nxm.memWait, nxmIn, hack]

end Run

end Stall

/-! ## The SD controller waits -/

namespace Sd

/-- The states that wait for the end of a DMA cycle. -/
def dmaWait : State → Bool
  | .readh01 | .readh03 | .read12 | .writeh01 | .writeh03 | .write06 | .wrchkh01 | .wrchkh03
  | .wrchk12 => true
  | _ => false

/-- The request is up in these states only. -/
def Requests (s : Sd) : Prop := s.devREQO = true → dmaWait s.state = true

theorem requests_of_low {s : Sd} (h : s.devREQO = false) : s.Requests := by
  intro hreq
  rw [h] at hreq
  cases hreq

theorem Silent.requests {s : Sd} (h : Silent s) : s.Requests := requests_of_low h.devREQO

/-- Without the acknowledge the controller stays in the state, and its request is up. -/
theorem next_dmaWait {s : Sd} {i : In} (h : dmaWait s.state = true)
    (hack : i.devACKI = false) : (s.next i).state = s.state ∧ (s.next i).devREQO = true := by
  cases hst : s.state
  case readh01 | readh03 | read12 | writeh01 | writeh03 | write06 | wrchkh01 | wrchkh03
      | wrchk12 =>
    simp only [next, hst, onAck, hack, Bool.false_eq_true, if_false]
    exact ⟨hst, trivial⟩
  all_goals
    rw [hst] at h
    cases h

/-- The acknowledge takes it out of the state. -/
theorem next_dmaWait_acked {s : Sd} {i : In} (h : dmaWait s.state = true)
    (hack : i.devACKI = true) : (s.next i).state ≠ s.state := by
  cases hst : s.state
  case readh01 | readh03 | read12 | writeh01 | writeh03 | write06 | wrchkh01 | wrchkh03
      | wrchk12 =>
    simp only [next, hst, onAck, hack, if_true]
    decide
  all_goals
    rw [hst] at h
    cases h

theorem requests_stays {s : Sd} : Stays Requests s where
  rest := requests_of_low rfl
  byte := fun _ _ => requests_of_low rfl

theorem requests_onAck {s k : Sd} {i : In} (h : dmaWait s.state = true) (hk : Requests k) :
    Requests (s.quiet.onAck i k) := by
  unfold onAck
  split
  · exact hk
  · exact fun _ => h

theorem requests_endSector {s : Sd} {i : In} {op : SpiOp} {st : State} :
    Requests ({ s.quiet with spiOP := op }.endSector i st) := by
  unfold endSector
  split
  · exact requests_of_low rfl
  · exact requests_of_low rfl

theorem requests_transferring {s : Sd} {i : In} (h : phase s.state = .transferring) :
    Requests (s.next i) := by
  cases hst : s.state
  case readh00 | readh02 | writeh00 | writeh02 | wrchkh00 | wrchkh02 =>
    simp only [next, hst]
    exact fun _ => rfl
  case read00 | write00 | wrchk00 | read16 | write07 =>
    simp only [next, hst]
    exact requests_of_low rfl
  case read13 | wrchk13 =>
    simp only [next, hst]
    split
    · exact requests_of_low rfl
    · exact requests_of_low rfl
  case write05 =>
    simp only [next, hst]
    split
    · exact requests_of_low rfl
    · exact fun _ => rfl
  case readh01 | readh03 | writeh01 | writeh03 | wrchkh01 | wrchkh03 | read12 | write06
      | wrchk12 =>
    simp only [next, hst]
    exact requests_onAck (by rw [hst]; rfl) (requests_of_low rfl)
  case read01 | write01 | wrchk01 | write20 =>
    simp only [next, hst]
    exact requests_stays.sendBytes (requests_of_low rfl)
  case read02 | wrchk02 | write02 | read03 | wrchk03 =>
    simp only [next, hst]
    refine requests_stays.poll (requests_of_low rfl) ?_
    split
    · exact requests_of_low rfl
    · exact requests_of_low rfl
  case write03 | write04 =>
    simp only [next, hst]
    exact requests_stays.oneByte (requests_of_low rfl)
  case read04 | read05 | read06 | read07 | read08 | read09 | read10 | read14 | read15
      | write08 | write09 | write10 | write11 | write12 | write13 | write14 | write16 | write17
      | wrchk04 | wrchk05 | wrchk06 | wrchk07 | wrchk08 | wrchk09 | wrchk10 | wrchk14 =>
    simp only [next, hst]
    exact requests_stays.onDone (requests_of_low rfl)
  case read11 =>
    simp only [next, hst]
    exact requests_stays.onDone fun _ => rfl
  case wrchk11 =>
    simp only [next, hst]
    refine requests_stays.onDone ?_
    split
    · exact requests_of_low rfl
    · exact fun _ => rfl
  case write15 | write18 | write22 =>
    simp only [next, hst]
    refine requests_stays.onDone ?_
    split
    · exact requests_of_low rfl
    · exact requests_of_low rfl
  case write19 =>
    simp only [next, hst]
    refine requests_stays.onDone ?_
    split
    · split
      · exact requests_of_low rfl
      · exact requests_of_low rfl
    · exact requests_of_low rfl
  case write21 =>
    simp only [next, hst]
    refine requests_stays.onDone ?_
    split
    · split
      · exact requests_of_low rfl
      · exact requests_of_low rfl
    · split
      · exact requests_of_low rfl
      · exact requests_of_low rfl
  case read17 | write23 | wrchk15 =>
    simp only [next, hst]
    exact requests_stays.onDone requests_endSector
  all_goals
    rw [hst] at h
    cases h

theorem requests_counting {s : Sd} {i : In} (h : phase s.state = .counting) :
    Requests (s.next i) := by
  cases hst : s.state
  case read18 | write24 | wrchk16 =>
    simp only [next, hst]
    exact requests_of_low rfl
  all_goals
    rw [hst] at h
    cases h

theorem requests_deciding {s : Sd} {i : In} (h : phase s.state = .deciding) :
    Requests (s.next i) := by
  cases hst : s.state
  case read19 | write25 | wrchk17 =>
    simp only [next, hst, nextSector]
    split
    · exact requests_of_low rfl
    · exact requests_of_low rfl
  all_goals
    rw [hst] at h
    cases h

/-- No clock leaves the request up outside the states that wait. -/
theorem requests_next (s : Sd) (i : In) : Requests (s.next i) := by
  cases hphase : phase s.state with
  | starting => exact (next_starting hphase).2.requests
  | scanning =>
      rcases next_scanning (i := i) hphase with h | h
      · exact h.silent.requests
      · exact h.2.requests
  | transferring => exact requests_transferring hphase
  | counting => exact requests_counting hphase
  | deciding => exact requests_deciding hphase
  | finishing => exact (next_finishing hphase).2.2.requests
  | acknowledging => exact requests_of_low (next_acknowledging hphase).2.2.2.2
  | acknowledged => exact (next_acknowledged hphase).2.requests
  | failed => exact (next_failing hphase).2.requests

section Run

variable {s : Sd} {i : Nat → In}

/-- As long as nobody acknowledges the cycle the controller stays in the state. -/
theorem dmaWait_of_unacked {a t : Nat} (h : dmaWait (run next s i a).state = true) (hat : a ≤ t)
    (hnone : ∀ u, a ≤ u → u < t → (i u).devACKI = false) :
    (run next s i t).state = (run next s i a).state := by
  induction t, hat using Nat.le_induction with
  | base => rfl
  | succ t hat ih =>
      have hstate := ih fun u hau hu => hnone u hau (Nat.lt_succ_of_lt hu)
      have hstays := next_dmaWait (s := run next s i t) (by rw [hstate]; exact h)
        (hnone t hat (Nat.lt_succ_self t))
      rw [run_succ, hstays.1, hstate]

/-- The wait ends when the cycle is acknowledged, and not otherwise. -/
theorem wait_ends_iff {a : Nat} (h : dmaWait (run next s i a).state = true) :
    (∃ t, a ≤ t ∧ (run next s i t).state ≠ (run next s i a).state) ↔
      ∃ t, a ≤ t ∧ (i t).devACKI = true := by
  constructor
  · rintro ⟨t, hat, hne⟩
    by_contra hnever
    refine hne (dmaWait_of_unacked h hat fun u hau _ => ?_)
    rw [← Bool.not_eq_true]
    exact fun hack => hnever ⟨u, hau, hack⟩
  · intro hack
    obtain ⟨t, ⟨hat, hyes⟩, hfirst⟩ := exists_first hack
    have hstate := dmaWait_of_unacked h hat fun u hau hu => by
      rw [← Bool.not_eq_true]
      exact fun hack => hfirst u hu ⟨hau, hack⟩
    have hleaves := next_dmaWait_acked (s := run next s i t) (by rw [hstate]; exact h) hyes
    exact ⟨t + 1, Nat.le_succ_of_le hat, fun heq => hleaves (heq.trans hstate.symm)⟩

/-- The controller holds its request until the acknowledge. -/
theorem devREQO_held (hs : s.Requests) (t : Nat)
    (h : Unmet (fun u => (run next s i u).devREQO) (fun u => (i u).devACKI) t) :
    (run next s i (t + 1)).devREQO = true := by
  have hreq : Requests (run next s i t) := run_invariant hs (fun s i _ => requests_next s i) i t
  exact (next_dmaWait (hreq h.1) h.2).2

/-- So RHNEM is exact about it. -/
theorem setNem_exact (hs : s.Requests) :
    Exact 62 (fun t => (run next s i t).devREQO) (fun t => (i t).devACKI) fun t =>
      (RhNem.nemAt (fun u => ⟨(run next s i u).devREQO, (i u).devACKI⟩) t).setNem = true := by
  simp only [RhNem.setNem_iff]
  refine ((RhNem.counts fun u => ⟨(run next s i u).devREQO, (i u).devACKI⟩).exact_iff
    (by decide)).mpr fun a hstart => ?_
  by_cases hun : Unanswered (fun t => (run next s i t).devREQO) (fun t => (i t).devACKI) 62 a
  · exact Or.inr (held_of_keeps (devREQO_held hs) hstart hun)
  · exact Or.inl hun

end Run

end Sd

/-! ## The line printer gives up -/

namespace LpDma

theorem toNat_timer_pred {x : BitVec 9} (h : ¬ x = 0) : (x - 1).toNat + 1 = x.toNat := by
  have hcount := toNat_countdown (by decide) x
  rw [if_pos (bne_iff_ne.mpr h)] at hcount
  have hpos : x.toNat ≠ 0 := fun h0 => h (BitVec.eq_of_toNat_eq (by rw [h0]; rfl))
  omega

/-- A clock leaves the wait for an acknowledge or brings the timer down. -/
theorem next_read {s : LpDma} {i : In} (h : s.state = .read) :
    (s.next i).state ≠ .read ∨ (s.next i).timer.toNat + 1 = s.timer.toNat := by
  unfold next
  split
  · exact Or.inl nofun
  · split
    · exact Or.inl nofun
    · unfold step
      simp only [h]
      split
      · exact Or.inl nofun
      · split
        · exact Or.inl nofun
        · rename_i htimer
          exact Or.inr (toNat_timer_pred htimer)

/-- The wait for an acknowledge ends. -/
theorem exists_not_read (s : LpDma) (i : Nat → In) (a : Nat) :
    ∃ t, a ≤ t ∧ (run next s i t).state ≠ .read := by
  by_contra hnever
  have hread (t : Nat) (hat : a ≤ t) : (run next s i t).state = .read := by
    by_contra hne
    exact hnever ⟨t, hat, hne⟩
  have hdown (n : Nat) : (run next s i (a + n)).timer.toNat + n = (run next s i a).timer.toNat := by
    induction n with
    | zero => rfl
    | succ n ih =>
        rcases next_read (i := i (a + n)) (hread (a + n) (Nat.le_add_right a n)) with hne | hlt
        · exact absurd (hread (a + (n + 1)) (Nat.le_add_right a (n + 1))) hne
        · have hstep : (run next s i (a + (n + 1))).timer.toNat + 1 =
              (run next s i (a + n)).timer.toNat := hlt
          omega
  have hfar := hdown ((run next s i a).timer.toNat + 1)
  omega

end LpDma

/-! ## Exactness -/

/-- NXM and UBATMO are exact for initiators that give their requests up, and RHNEM is exact
for initiators that hold them, as the SD controller does.  The waits of the processor and
of the SD controller end with an acknowledge only, and that of the line printer ends. -/
theorem timeouts_iff (cpu : Nat → Nxm.In) (uba : Nat → UbaTmo.In) (rh : Nat → RhNem.In)
    (s : Stall) (stall : Nat → Stall.In) (d : Sd) (sd : Nat → Sd.In) (p : LpDma)
    (lp : Nat → LpDma.In) :
    (Exact 15 (fun t => Nxm.req (cpu t)) (fun t => (cpu t).cpuAckI)
        (fun t => (Nxm.nxmAt cpu t).nxmIntr = true) ↔
      ∀ a, Starts (fun t => Nxm.req (cpu t)) (fun t => (cpu t).cpuAckI) a →
        ¬ Unanswered (fun t => Nxm.req (cpu t)) (fun t => (cpu t).cpuAckI) 15 a ∨
          GivenUp (fun t => Nxm.req (cpu t)) (fun t => (cpu t).cpuAckI) 15 a) ∧
    (Exact 12 (fun t => (uba t).busReqO) (fun t => (uba t).busAckI)
        (fun t => (UbaTmo.tmoAt uba t).setTmo = true) ↔
      ∀ a, Starts (fun t => (uba t).busReqO) (fun t => (uba t).busAckI) a →
        ¬ Unanswered (fun t => (uba t).busReqO) (fun t => (uba t).busAckI) 12 a ∨
          GivenUp (fun t => (uba t).busReqO) (fun t => (uba t).busAckI) 12 a) ∧
    (Exact 62 (fun t => (rh t).devReqO) (fun t => (rh t).devAckI)
        (fun t => (RhNem.nemAt rh t).setNem = true) ↔
      ∀ a, Starts (fun t => (rh t).devReqO) (fun t => (rh t).devAckI) a →
        ¬ Unanswered (fun t => (rh t).devReqO) (fun t => (rh t).devAckI) 62 a ∨
          Held (fun t => (rh t).devReqO) (fun t => (rh t).devAckI) 62 a) ∧
    (Exact 62 (fun t => (run Sd.next Sd.reset sd t).devREQO) (fun t => (sd t).devACKI) fun t =>
      (RhNem.nemAt (fun u => ⟨(run Sd.next Sd.reset sd u).devREQO, (sd u).devACKI⟩) t).setNem =
        true) ∧
    ((∀ a, (run Stall.next s stall a).Cycle →
        ∃ t, a ≤ t ∧ (run Stall.next s stall t).memWait (stall t) = false) ↔
      ∀ a, (run Stall.next s stall a).Cycle → ∃ t, a ≤ t ∧ (stall t).cpuAckI = true) ∧
    (∀ a t, (run Stall.next s stall a).Cycle → a < t →
      (∀ u, a ≤ u → u < t → (stall u).cpuAckI = false) →
        (run Stall.next s stall t).nxm.nxmIntr = false) ∧
    ((∀ a, Sd.dmaWait (run Sd.next d sd a).state = true →
        ∃ t, a ≤ t ∧ (run Sd.next d sd t).state ≠ (run Sd.next d sd a).state) ↔
      ∀ a, Sd.dmaWait (run Sd.next d sd a).state = true →
        ∃ t, a ≤ t ∧ (sd t).devACKI = true) ∧
    ∀ a, ∃ t, a ≤ t ∧ (run LpDma.next p lp t).state ≠ .read := by
  refine ⟨?_, ?_, ?_, ?_, ?_, ?_, ?_, fun a => LpDma.exists_not_read p lp a⟩
  · simp only [Nxm.nxmIntr_iff]
    exact (Nxm.reloads cpu).exact_iff (by decide)
  · simp only [UbaTmo.setTmo_iff]
    exact (UbaTmo.reloads uba).exact_iff (by decide)
  · simp only [RhNem.setNem_iff]
    exact (RhNem.counts rh).exact_iff (by decide)
  · exact Sd.setNem_exact (Sd.requests_of_low rfl)
  · exact forall₂_congr fun a h => Stall.wait_ends_iff h
  · intro a t h hat hnone
    exact (Stall.memWait_of_unacked h (Nat.le_of_lt hat) hnone).2 hat
  · exact forall₂_congr fun a h => Sd.wait_ends_iff h

/-- A processor that holds its request and is never acknowledged. -/
def unanswered (_ : Nat) : Nxm.In := ⟨false, true, false⟩

theorem timeouts_fails :
    ¬ ∀ i : Nat → Nxm.In, Exact 15 (fun t => Nxm.req (i t)) (fun t => (i t).cpuAckI)
      (fun t => (Nxm.nxmAt i t).nxmIntr = true) := by
  intro h
  have hexact := h unanswered
  simp only [Nxm.nxmIntr_iff] at hexact
  have hmeets := ((Nxm.reloads unanswered).exact_iff (by decide)).mp hexact 0
    ⟨rfl, fun p hp => absurd hp (Nat.succ_ne_zero p)⟩
  rcases hmeets with hno | hgiven
  · refine hno fun u _ _ => ⟨rfl, fun hu hstart => ?_⟩
    exact hstart.2 (u - 1) (Nat.sub_add_cancel hu) ⟨rfl, rfl⟩
  · exact not_givenUp_of_keeps (fun _ _ => rfl) (by decide) hgiven

end KS10
