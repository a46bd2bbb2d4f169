import KS10.Disk.Search

/-!
# The heads stay on the disk

The address check of a drive sets the invalid address error when a command is written.
The heads move with the state machine: with a seek, a recalibration, the data of a transfer
and a clear.  `RpCtrl.Moves` lists these, and `RpCtrl.moving_next` says where a move comes
from.

The state machine does not see the check.  A seek with an invalid address is turned back to
cylinder 0 by `check_ski`, a search and a write check are not turned back at all, and a clear
takes the desired cylinder as it stands.
-/

namespace KS10

open Clocked

/-! ## The commands with an address -/

namespace RpFun

/-- The commands that go to the desired address. -/
def addressed : RpFun → Bool
  | .seek | .search | .wrchk | .wrchkh | .write | .writeh | .read | .readh => true
  | .unload | .recal | .offset | .center => false

/-- The commands whose seek is checked. -/
def checked : RpFun → Bool
  | .seek | .wrchkh | .write | .writeh | .read | .readh => true
  | .search | .wrchk | .unload | .recal | .offset | .center => false

theorem addressed_code {f : RpFun} (hf : f.addressed = true) : ∀ fn : BitVec 5,
    decode fn = some f → fn = 0o30 ∨ fn = 0o31 ∨ fn = 0o34 ∨ fn = 0o35 ∨ fn = 0o24 ∨ fn = 0o25 ∨
      fn = 0o02 ∨ fn = 0o14 := by
  cases f
  case unload | recal | offset | center => cases hf
  all_goals decide

end RpFun

namespace RpCtrl

variable {s k : RpCtrl} {i : In} {f : RpFun}

/-- The command that the drive accepts. -/
def accepts (s : RpCtrl) (i : In) : Option RpFun :=
  if !i.clr && s.state == .idle && s.go_cmd i then RpFun.decode i.rpFUN else none

/-- The heads are on their way to the cylinder `tmpCC`. -/
def seeking : State → Bool
  | .seek | .seeksearch => true
  | _ => false

/-- The heads are on their way to cylinder 0. -/
def homing : State → Bool
  | .unload | .recal => true
  | _ => false

def moving (st : State) : Bool := seeking st || homing st

/-- The cylinder that a command seeks. -/
def target (s : RpCtrl) (i : In) (f : RpFun) : BitVec 16 :=
  if f.checked && s.ski i then 0 else i.rpDC

/-- The search ends with the data. -/
def findsData (s : RpCtrl) (i : In) : Bool :=
  !i.clr && s.state == .search && s.rpSDOP != .nop && !i.rpDMD && !i.rpCLBERR &&
    !i.rpADRBUSY && s.delay == 0

/-- The data go on. -/
def transfers (s : RpCtrl) (i : In) : Bool :=
  !i.clr && s.state == .data && !(i.rpSETAOE || i.rpSDACK || i.rpCLBERR)

theorem not_homing {st : State} (h : seeking st = true) : homing st = false := by
  cases st
  all_goals first | rfl | cases h

/-- How a clock that is no clear moves the heads to the cylinder `cc`. -/
inductive Moves (s : RpCtrl) (i : In) (cc : BitVec 16) : Prop where
  | stays (h : cc = s.rpCC)
  | homes (hst : homing s.state = true) (h : cc = 0)
  | seeks (hst : seeking s.state = true) (h : cc = s.tmpCC)
  | follows (hst : s.transfers i = true) (h : cc = i.rpDC)

/-! ## What a command does to the heads -/

theorem check_ski_rpCC : (s.check_ski i).rpCC = s.rpCC := by
  unfold check_ski
  split
  · rfl
  · rfl

theorem findSector_rpCC : (s.findSector i).rpCC = s.rpCC := by
  unfold findSector
  split
  · rfl
  · rfl

theorem transfer_rpCC {op : SdOp} : (s.transfer i op).rpCC = s.rpCC := findSector_rpCC

theorem transferSki_rpCC {op : SdOp} : (s.transferSki i op).rpCC = s.rpCC := by
  unfold transferSki
  simp only
  split
  · exact transfer_rpCC
  · rw [check_ski_rpCC, transfer_rpCC]

/-- No command moves the heads at once. -/
theorem command_rpCC : (s.command i f).rpCC = s.rpCC := by
  cases f
  case seek =>
    simp only [command]
    split
    · rfl
    · rw [check_ski_rpCC]
      rfl
  case search => exact findSector_rpCC
  case wrchk => exact transfer_rpCC
  case wrchkh | write | writeh | read | readh => exact transferSki_rpCC
  all_goals rfl

/-- A seek that is checked goes to its cylinder, or back. -/
theorem check_ski_tmpCC : (s.check_ski i).tmpCC = if s.ski i then 0 else s.tmpCC := by
  unfold check_ski
  split
  · rfl
  · rfl

/-- The search is on the cylinder, or seeks it. -/
theorem findSector_seeking (h : moving (s.findSector i).state = true) :
    rpDCA i ≠ s.rpCCA ∧ seeking (s.findSector i).state = true ∧
      (s.findSector i).tmpCC = i.rpDC := by
  unfold findSector at h ⊢
  split
  · rename_i heq
    rw [if_pos heq] at h
    cases h
  · rename_i hne
    exact ⟨fun heq => hne (beq_iff_eq.mpr heq), rfl, rfl⟩

theorem transferSki_seeking {op : SdOp} (h : moving (s.transferSki i op).state = true) :
    rpDCA i ≠ s.rpCCA ∧ seeking (s.transferSki i op).state = true ∧
      (s.transferSki i op).tmpCC = if s.ski i then 0 else i.rpDC := by
  have hski : (s.transfer i op).ski i = s.ski i := by
    unfold ski rpCCA transfer findSector
    split
    · rfl
    · rfl
  unfold transferSki at h ⊢
  simp only at h ⊢
  split
  · rename_i heq
    rw [if_pos heq] at h
    exact absurd (beq_iff_eq.mp heq) (findSector_seeking h).1
  · rename_i hne
    rw [if_neg hne, check_ski_state] at h
    obtain ⟨hdca, hseek, htmp⟩ := findSector_seeking h
    rw [check_ski_state, check_ski_tmpCC, hski]
    exact ⟨hdca, hseek, by rw [show (s.transfer i op).tmpCC = i.rpDC from htmp]⟩

/-- A command with an address seeks its cylinder, if it is another one. -/
theorem command_seeking (hf : f.addressed = true) (h : moving (s.command i f).state = true) :
    rpDCA i ≠ s.rpCCA ∧ seeking (s.command i f).state = true ∧
      (s.command i f).tmpCC = s.target i f := by
  cases f
  case seek =>
    simp only [command] at h ⊢
    split
    · rename_i heq
      rw [if_pos heq] at h
      cases h
    · rename_i hne
      rw [check_ski_state, check_ski_tmpCC]
      exact ⟨fun heq => hne (beq_iff_eq.mpr heq), rfl, rfl⟩
  case search => exact findSector_seeking h
  case wrchk => exact findSector_seeking h
  case wrchkh | write | writeh | read | readh => exact transferSki_seeking h
  all_goals cases hf

/-- The other commands bring the heads to cylinder 0. -/
theorem command_homing (hf : f.addressed = false) (h : moving (s.command i f).state = true) :
    homing (s.command i f).state = true := by
  cases f
  case unload | recal => rfl
  case offset | center => cases h
  all_goals cases hf

/-! ## What a clock does to the heads -/

theorem wait_rpCC (hk : k.rpCC = s.rpCC) : (s.wait i k).rpCC = s.rpCC := by
  unfold wait
  split
  · split
    · rfl
    · exact hk
  · rfl

theorem onBit_rpCC (hk : k.rpCC = s.rpCC) : (s.onBit i k).rpCC = s.rpCC := by
  unfold onBit
  split
  · rfl
  · split
    · exact hk
    · rfl

theorem countBits_rpCC {last : Bool} {n : BitVec 8} (hk : k.rpCC = s.rpCC) :
    (s.countBits last n k).rpCC = s.rpCC := by
  unfold countBits
  split
  · split
    · exact hk
    · rfl
  · rfl

theorem untilSync_rpCC (hk : k.rpCC = s.rpCC) : (s.untilSync i k).rpCC = s.rpCC := by
  unfold untilSync
  split
  · exact hk
  · split
    · rfl
    · rfl

theorem ready_rpCC {go : Bool} : (s.ready i go).rpCC = s.rpCC := by
  unfold ready
  simp only
  split
  · split
    · exact command_rpCC
    · rfl
  · rfl

theorem searchDiag_rpCC : (s.searchDiag i).rpCC = s.rpCC := by
  unfold searchDiag
  split
  · rfl
  · rfl

theorem searchData_rpCC : (s.searchData i).rpCC = s.rpCC := by
  unfold searchData
  split
  · split
    · rfl
    · split
      · rfl
      · rfl
  · rfl

/-- The heads move in one of these ways. -/
theorem moves_next (hclr : i.clr = false) : Moves s i (s.next i).rpCC := by
  rw [next, if_neg (by rw [hclr]; exact Bool.false_ne_true)]
  cases hst : s.state
  case idle => exact .stays ready_rpCC
  case offset => exact .stays (wait_rpCC rfl)
  case unload => exact .homes (by rw [hst]; rfl) rfl
  case recal =>
    simp only [wait]
    split
    · split
      · exact .stays rfl
      · exact .homes (by rw [hst]; rfl) rfl
    · exact .stays rfl
  case seek | seeksearch =>
    simp only [wait]
    split
    · split
      · exact .stays rfl
      · exact .seeks (by rw [hst]; rfl) rfl
    · exact .stays rfl
  case search =>
    simp only
    split
    · exact .stays rfl
    · split
      · exact .stays searchDiag_rpCC
      · exact .stays searchData_rpCC
  case wrhdr | wrdata | wrecc | rdhdr | rddata | rdecc =>
    exact .stays (onBit_rpCC (countBits_rpCC rfl))
  case wrdatagap =>
    refine .stays (onBit_rpCC ?_)
    split
    · rfl
    · rfl
  case rdprehdr | rdhdrgap => exact .stays (onBit_rpCC (untilSync_rpCC rfl))
  case rdfixecc => exact .stays rfl
  case data =>
    simp only
    split
    · exact .stays rfl
    · rename_i hends
      refine .follows ?_ rfl
      rw [transfers, hclr, hst, Bool.eq_false_iff.mpr hends]
      rfl
  case done => exact .stays rfl

/-- A drive that accepts a command is at rest. -/
theorem accepts_idle (h : s.accepts i = some f) : i.clr = false ∧ s.state = .idle := by
  unfold accepts at h
  split at h
  · rename_i haccepts
    simp only [Bool.and_eq_true, Bool.not_eq_true', beq_iff_eq] at haccepts
    exact haccepts.1
  · cases h

theorem accepts_rpCC (h : s.accepts i = some f) : (s.next i).rpCC = s.rpCC := by
  obtain ⟨hclr, hidle⟩ := accepts_idle h
  cases moves_next (s := s) hclr with
  | stays heq => exact heq
  | homes hst _ | seeks hst _ =>
      rw [hidle] at hst
      cases hst
  | follows hst _ =>
      rw [transfers, hclr, hidle] at hst
      cases hst

/-! ## Where a move comes from -/

theorem still_searchDiag (hs : moving s.state = false) :
    moving (s.searchDiag i).state = false := by
  unfold searchDiag
  split
  · simp only
    split
    all_goals rfl
  · exact hs

theorem still_searchData (hs : moving s.state = false) :
    moving (s.searchData i).state = false := by
  unfold searchData
  split
  · split
    · rfl
    · split
      · rfl
      · exact hs
  · exact hs

theorem still_of_not_acting {st : State} (h : acting st = false) : moving st = false := by
  cases st
  all_goals first | rfl | cases h

/-- No other state begins a move. -/
theorem still_next (h : moving s.state = false) (hidle : s.state ≠ .idle) :
    moving (s.next i).state = false := by
  by_cases hacts : acting s.state = true
  · by_cases hclr : i.clr = true
    · rw [next, if_pos hclr]
      rfl
    · have hq : moving (s.quiet i).state = false := h
      rw [next, if_neg hclr]
      cases hst : s.state
      case offset => exact state_wait hq rfl
      case search =>
        simp only
        split
        · rfl
        · split
          · exact still_searchDiag hq
          · exact still_searchData hq
      case data =>
        simp only
        split
        · rfl
        · exact hq
      case unload | recal | seek | seeksearch =>
        rw [hst] at h
        cases h
      all_goals
        rw [hst] at hacts
        cases hacts
  · exact still_of_not_acting (not_acting_next (Bool.not_eq_true _ ▸ hacts) hidle)

/-- A move that has begun goes on to the same cylinder. -/
theorem moving_on (hst : moving s.state = true) (h : moving (s.next i).state = true) :
    (s.next i).state = s.state ∧ (s.next i).tmpCC = s.tmpCC := by
  by_cases hclr : i.clr = true
  · rw [next, if_pos hclr] at h
    cases h
  · rw [next, if_neg hclr] at h ⊢
    cases hs : s.state
    case unload =>
      rw [hs] at h
      cases h
    case recal | seek | seeksearch =>
      rw [hs] at h
      simp only [wait] at h ⊢
      split
      · rename_i hzero
        rw [if_pos hzero] at h
        split
        · exact ⟨hs, rfl⟩
        · rename_i hdmd
          rw [if_neg hdmd] at h
          cases h
      · exact ⟨hs, rfl⟩
    all_goals
      rw [hs] at hst
      cases hst

/-- A ready drive begins a move with a command. -/
theorem moving_ready (hst : s.state = .idle) (hclr : i.clr = false)
    (h : moving (s.next i).state = true) :
    ∃ f, s.accepts i = some f ∧ s.next i = ({ s.quiet i with
      rpDRY := true, rpPIP := false, rpSETATA := false, tmpATA := false,
      tmpCC := 0 } : RpCtrl).command i f := by
  have hnext : s.next i = (s.quiet i).ready i (s.go_cmd i) := by
    rw [next, if_neg (by rw [hclr]; exact Bool.false_ne_true), hst]
  have hno : moving (s.quiet i).state = false := by
    rw [show (s.quiet i).state = .idle from hst]
    rfl
  rw [hnext] at h ⊢
  unfold ready at h ⊢
  unfold accepts
  simp only at h ⊢
  cases hf : RpFun.decode i.rpFUN with
  | none =>
      rw [hf] at h
      exact absurd (hno.symm.trans h) Bool.false_ne_true
  | some f =>
      rw [hf] at h
      cases hgo : s.go_cmd i with
      | false =>
          rw [hgo] at h
          exact absurd (hno.symm.trans h) Bool.false_ne_true
      | true =>
          rw [hclr, hst]
          exact ⟨f, rfl, rfl⟩

/-- The heads seek a cylinder after a command with an address, or since one. -/
theorem seeking_next (hclr : i.clr = false) (h : seeking (s.next i).state = true) :
    (∃ f, s.accepts i = some f ∧ f.addressed = true ∧ rpDCA i ≠ s.rpCCA ∧
        (s.next i).tmpCC = s.target i f) ∨
      s.state ≠ .idle ∧ seeking s.state = true ∧ (s.next i).tmpCC = s.tmpCC := by
  have hmoving : moving (s.next i).state = true := by
    rw [moving, h, Bool.true_or]
  by_cases hidle : s.state = .idle
  · obtain ⟨f, hf, hnext⟩ := moving_ready hidle hclr hmoving
    rw [hnext] at h hmoving ⊢
    cases haddr : f.addressed with
    | true =>
        obtain ⟨hdca, -, htmp⟩ := command_seeking haddr hmoving
        exact Or.inl ⟨f, hf, haddr, hdca, htmp⟩
    | false =>
        have hhome := command_homing haddr hmoving
        exact absurd ((not_homing h).symm.trans hhome) Bool.false_ne_true
  · by_cases hmove : moving s.state = true
    · obtain ⟨hst, htmp⟩ := moving_on hmove hmoving
      rw [hst] at h
      exact Or.inr ⟨hidle, h, htmp⟩
    · have hstill := still_next (i := i) (Bool.not_eq_true _ ▸ hmove) hidle
      exact absurd (hstill.symm.trans hmoving) Bool.false_ne_true

/-- They come to cylinder 0 after another command, or since one. -/
theorem homing_next (hclr : i.clr = false) (h : homing (s.next i).state = true) :
    (∃ f, s.accepts i = some f ∧ f.addressed = false) ∨
      s.state ≠ .idle ∧ homing s.state = true := by
  have hmoving : moving (s.next i).state = true := by
    rw [moving, h, Bool.or_true]
  by_cases hidle : s.state = .idle
  · obtain ⟨f, hf, hnext⟩ := moving_ready hidle hclr hmoving
    rw [hnext] at h hmoving
    cases haddr : f.addressed with
    | true =>
        obtain ⟨-, hseek, -⟩ := command_seeking haddr hmoving
        exact absurd ((not_homing hseek).symm.trans h) Bool.false_ne_true
    | false => exact Or.inl ⟨f, hf, haddr⟩
  · by_cases hmove : moving s.state = true
    · rw [(moving_on hmove hmoving).1] at h
      exact Or.inr ⟨hidle, h⟩
    · have hstill := still_next (i := i) (Bool.not_eq_true _ ▸ hmove) hidle
      exact absurd (hstill.symm.trans hmoving) Bool.false_ne_true

end RpCtrl

/-! ## The address check -/

namespace Rp

/-- The desired address is off the disk. -/
def inv_addr (t : RpType) (d : Rp) : Bool :=
  d.rpSECNUM t < d.rpSA || t.trkNUM < d.rpTA || t.cylNUM < d.rpDCA

/-- The write of a command that goes to an address off the disk. -/
def rpSETIAE (t : RpType) (d : Rp) (i : In) : Bool :=
  d.inv_addr t &&
    (goes i 0o30 || goes i 0o31 || goes i 0o34 || goes i 0o35 || goes i 0o24 || goes i 0o25 ||
      goes i 0o02 || goes i 0o14)

variable {t : RpType} {d : Rp} {i : In}

theorem inv_addr_iff : d.inv_addr t = true ↔ ¬ Valid t d := by
  simp only [inv_addr, Bool.or_eq_true, decide_eq_true_eq, BitVec.lt_def]
  constructor
  · intro h hvalid
    have hsec := hvalid.sec
    have htrk := hvalid.trk
    have hcyl := hvalid.cyl
    omega
  · intro h
    by_contra hno
    exact h ⟨by omega, by omega, by omega⟩

/-- The check is made for the commands that go to an address. -/
theorem rpSETIAE_of_addressed {f : RpFun} (hf : f.addressed = true)
    (hfun : RpFun.decode (i.rpDATAI.extractLsb' 1 5) = some f) (hgo : rpGO i = true)
    (hinv : ¬ Valid t d) : d.rpSETIAE t i = true := by
  have haddr := RpFun.addressed_code hf
  rw [rpSETIAE, inv_addr_iff.mpr hinv, Bool.true_and]
  simp only [goes, hgo, Bool.true_and, Bool.or_eq_true, beq_iff_eq]
  rcases haddr _ hfun with h | h | h | h | h | h | h | h
  all_goals simp [h]

/-- The cylinder of a busy drive stays on the disk, up to the end of the disk. -/
theorem nextDCA_le (hdry : d.ctrl.rpDRY = false) (hcyl : d.rpDCA.toNat ≤ t.cylNUM.toNat)
    (haoe : d.rpSETAOE t i = false) : (d.nextDCA t i).toNat ≤ t.cylNUM.toNat := by
  unfold nextDCA
  rw [writes_busy hdry]
  split
  · exact Nat.zero_le _
  · rw [if_neg Bool.false_ne_true]
    split
    · rename_i hinc
      rw [rpSETAOE, hinc, Bool.true_and, beq_eq_false_iff_ne] at haoe
      have hne : d.rpDCA.toNat ≠ t.cylNUM.toNat := fun heq => haoe (BitVec.eq_of_toNat_eq heq)
      have hlt := t.cylNUM.isLt
      rw [BitVec.toNat_add, Nat.mod_eq_of_lt (by simp; omega)]
      simp
      omega
    · exact hcyl

end Rp

/-- A drive with its address check, modules RPXX and RPER1. -/
structure CheckedRp extends Rp where
  rpIAE : Bool

/-- The inputs of one clock.  Here `rpCLBERR` are the other class B errors. -/
structure CheckedRp.In extends Rp.In where
  er1WRITE : Bool

namespace CheckedRp

/-- The inputs of the drive, with all class B errors. -/
def rpIn (d : CheckedRp) (i : In) : Rp.In := { i.toIn with rpCLBERR := i.rpCLBERR || d.rpIAE }

variable (t : RpType)

def ctrlIn (d : CheckedRp) (i : In) : RpCtrl.In := d.toRp.ctrlIn t (d.rpIn i)

/-- One clock of the drive. -/
def next (d : CheckedRp) (i : In) : CheckedRp where
  toRp := d.toRp.next t (d.rpIn i)
  rpIAE :=
    if i.clr || Rp.rpDRVCLR i.toIn then false
    else if d.rpSETIAE t i.toIn then true
    else if d.writes i.toIn i.er1WRITE then i.rpDATAI.getLsbD 10
    else d.rpIAE

/-- The drive after `n` clocks. -/
def driveAt (d : CheckedRp) (i : Nat → In) (n : Nat) : CheckedRp := run (next t) d i n

/-- A command is noted as stray when it is accepted with an address off the disk. -/
def note (stray : Bool) (d : CheckedRp) (i : In) : Bool :=
  match d.ctrl.accepts (d.ctrlIn t i) with
  | some f => f.addressed && d.inv_addr t
  | none => stray

/-- The command that was accepted last in `n` clocks is stray. -/
def stray (d : CheckedRp) (i : Nat → In) (n : Nat) : Bool := shadow (next t) (note t) d false i n

/-- The check sets its error, a stray command leaves the heads where they are, and they are
on the disk. -/
structure Stays (d : CheckedRp) (i : Nat → In) (n : Nat) : Prop where
  error : ∀ f : RpFun, f.addressed = true →
    RpFun.decode ((i n).rpDATAI.extractLsb' 1 5) = some f → Rp.rpGO (i n).toIn = true →
      ¬ Rp.Valid t (driveAt t d i n).toRp → (driveAt t d i (n + 1)).rpIAE = true
  heads : stray t d i n = true → (i n).clr = false →
    (driveAt t d i (n + 1)).ctrl.rpCC = (driveAt t d i n).ctrl.rpCC
  onDisk : (driveAt t d i n).ctrl.rpCC.toNat ≤ t.cylNUM.toNat

/-- No clear comes with the write of a stray command, or with a desired cylinder off the disk.
A stray command is accepted on its own cylinder, or where its seek is turned back to cylinder 0
and the heads are there.  The data begin on the disk, and those of a stray command stay on the
cylinder of the heads. -/
structure Guarded (stray : Bool) (d : CheckedRp) (i : In) : Prop where
  written : d.rpSETIAE t i.toIn = true → i.clr = false
  clears : i.clr = true → d.rpDCA.toNat ≤ t.cylNUM.toNat
  accepts : ∀ f ∈ d.ctrl.accepts (d.ctrlIn t i), f.addressed = true →
    d.rpDCA ≠ d.ctrl.rpCCA → d.inv_addr t = true →
      f.checked = true ∧ d.ctrl.ski (d.ctrlIn t i) = true ∧ d.ctrl.rpCC = 0
  begins : d.ctrl.findsData (d.ctrlIn t i) = true →
    (d.nextDCA t (d.rpIn i)).toNat ≤ t.cylNUM.toNat
  goesOn : stray = true → d.ctrl.transfers (d.ctrlIn t i) = true →
    d.ctrl.rpCC = 0#6 ++ d.rpDCA

variable {t} {d : CheckedRp} {i : In} {w : Bool}

/-- What is known of a drive while its heads move. -/
structure Sound (t : RpType) (d : CheckedRp) (stray : Bool) : Prop where
  onDisk : d.ctrl.rpCC.toNat ≤ t.cylNUM.toNat
  homes : RpCtrl.homing d.ctrl.state = true → stray = false
  seeks : RpCtrl.seeking d.ctrl.state = true →
    d.ctrl.tmpCC.toNat ≤ t.cylNUM.toNat ∧ (stray = true → d.ctrl.tmpCC = d.ctrl.rpCC)
  searches : RpCtrl.seeks d.ctrl.state = true → d.ctrl.rpSDOP ≠ .nop → d.ctrl.rpDRY = false
  data : d.ctrl.state = .data → d.ctrl.rpDRY = false ∧ d.rpDCA.toNat ≤ t.cylNUM.toNat

instance : Decidable (Guarded t w d i) :=
  decidable_of_iff
    ((d.rpSETIAE t i.toIn = true → i.clr = false) ∧
      (i.clr = true → d.rpDCA.toNat ≤ t.cylNUM.toNat) ∧
      (∀ f ∈ d.ctrl.accepts (d.ctrlIn t i), f.addressed = true →
        d.rpDCA ≠ d.ctrl.rpCCA → d.inv_addr t = true →
          f.checked = true ∧ d.ctrl.ski (d.ctrlIn t i) = true ∧ d.ctrl.rpCC = 0) ∧
      (d.ctrl.findsData (d.ctrlIn t i) = true →
        (d.nextDCA t (d.rpIn i)).toNat ≤ t.cylNUM.toNat) ∧
      (w = true → d.ctrl.transfers (d.ctrlIn t i) = true → d.ctrl.rpCC = 0#6 ++ d.rpDCA))
    ⟨fun h => ⟨h.1, h.2.1, h.2.2.1, h.2.2.2.1, h.2.2.2.2⟩,
      fun h => ⟨h.written, h.clears, h.accepts, h.begins, h.goesOn⟩⟩

theorem ctrl_next : (d.next t i).ctrl = d.ctrl.next (d.ctrlIn t i) := rfl

theorem rpDCA_next : (d.next t i).rpDCA = d.nextDCA t (d.rpIn i) := rfl

theorem toNat_cylinder (cyl : BitVec 10) : (0#6 ++ cyl).toNat = cyl.toNat := by
  rw [BitVec.toNat_append]
  simp

theorem rpDCA_ctrlIn : RpCtrl.rpDCA (d.ctrlIn t i) = d.rpDCA := by
  refine BitVec.eq_of_toNat_eq ?_
  rw [RpCtrl.rpDCA, BitVec.extractLsb'_toNat]
  change (0#6 ++ d.rpDCA).toNat >>> 0 % 2 ^ 10 = d.rpDCA.toNat
  rw [toNat_cylinder, Nat.shiftRight_zero, Nat.mod_eq_of_lt d.rpDCA.isLt]

/-- The command goes on, unless another one is accepted. -/
theorem note_goes_on (h : i.clr = true ∨ d.ctrl.state ≠ .idle) : note t w d i = w := by
  unfold note
  cases hf : d.ctrl.accepts (d.ctrlIn t i) with
  | none => rfl
  | some f =>
      obtain ⟨hclr, hidle⟩ := RpCtrl.accepts_idle hf
      rcases h with hclr' | hbusy
      · exact absurd (hclr'.symm.trans hclr) (by decide)
      · exact absurd hidle hbusy

/-- A clear leaves the drive at rest on its desired cylinder. -/
theorem Sound.clear (hi : Guarded t w d i) (hclr : i.clr = true) : Sound t (d.next t i) w := by
  have hnext : (d.next t i).ctrl = d.ctrl.cleared (d.ctrlIn t i) := by
    rw [ctrl_next, RpCtrl.next]
    exact if_pos hclr
  have hst : (d.next t i).ctrl.state = .idle := by
    rw [hnext]
    rfl
  refine ⟨?_, ?_, ?_, ?_, ?_⟩
  · rw [hnext, RpCtrl.cleared]
    exact (toNat_cylinder d.rpDCA).trans_le (hi.clears hclr)
  all_goals
    rw [hst]
    intro h
    cases h

/-- The heads are on the disk after every clock. -/
theorem Sound.onDisk_next (h : Sound t d w) (hclr : i.clr = false) :
    (d.next t i).ctrl.rpCC.toNat ≤ t.cylNUM.toNat := by
  rw [ctrl_next]
  cases RpCtrl.moves_next (s := d.ctrl) (i := d.ctrlIn t i) hclr with
  | stays heq =>
      rw [heq]
      exact h.onDisk
  | homes _ heq =>
      rw [heq]
      exact Nat.zero_le _
  | seeks hst heq =>
      rw [heq]
      exact (h.seeks hst).1
  | follows hst heq =>
      have hdata : d.ctrl.state = .data := by
        simp only [RpCtrl.transfers, Bool.and_eq_true, beq_iff_eq] at hst
        exact hst.1.2
      rw [heq]
      exact (toNat_cylinder d.rpDCA).trans_le (h.data hdata).2

/-- A stray command leaves the heads where they are. -/
theorem Sound.heads_next (h : Sound t d w) (hi : Guarded t w d i) (hclr : i.clr = false)
    (hw : w = true) : (d.next t i).ctrl.rpCC = d.ctrl.rpCC := by
  rw [ctrl_next]
  cases RpCtrl.moves_next (s := d.ctrl) (i := d.ctrlIn t i) hclr with
  | stays heq => exact heq
  | homes hst _ => exact absurd (h.homes hst) (by rw [hw]; exact Bool.noConfusion)
  | seeks hst heq => exact heq.trans ((h.seeks hst).2 hw)
  | follows hst heq => exact heq.trans (hi.goesOn hw hst).symm

/-- A seek goes to a cylinder of the disk, and a stray one to that of the heads. -/
theorem Sound.seeks_next (h : Sound t d w) (hi : Guarded t w d i) (hclr : i.clr = false)
    (hst : RpCtrl.seeking (d.next t i).ctrl.state = true) :
    (d.next t i).ctrl.tmpCC.toNat ≤ t.cylNUM.toNat ∧
      (note t w d i = true → (d.next t i).ctrl.tmpCC = (d.next t i).ctrl.rpCC) := by
  rw [ctrl_next] at hst ⊢
  rcases RpCtrl.seeking_next (i := d.ctrlIn t i) hclr hst with
    ⟨f, hf, haddr, hdca, htmp⟩ | ⟨hidle, hbefore, htmp⟩
  · have hstays : (d.ctrl.next (d.ctrlIn t i)).rpCC = d.ctrl.rpCC := RpCtrl.accepts_rpCC hf
    have hnote : note t w d i = d.inv_addr t := by
      rw [note, hf]
      simp only [haddr, Bool.true_and]
    rw [rpDCA_ctrlIn] at hdca
    rw [htmp, hnote, hstays, RpCtrl.target]
    cases hinv : d.inv_addr t with
    | true =>
        obtain ⟨hchecked, hski, hzero⟩ := hi.accepts f hf haddr hdca hinv
        rw [hchecked, hski, hzero]
        exact ⟨Nat.zero_le _, fun _ => rfl⟩
    | false =>
        refine ⟨?_, fun hno => absurd hno Bool.false_ne_true⟩
        have hvalid : Rp.Valid t d.toRp := by
          by_contra hno
          rw [Rp.inv_addr_iff.mpr hno] at hinv
          cases hinv
        split
        · exact Nat.zero_le _
        · exact (toNat_cylinder d.rpDCA).trans_le hvalid.cyl
  · rw [htmp, note_goes_on (Or.inr hidle)]
    refine ⟨(h.seeks hbefore).1, fun hw => ?_⟩
    rw [← ctrl_next, h.heads_next hi hclr hw]
    exact (h.seeks hbefore).2 hw

/-- A drive that searches for its data takes no writes. -/
theorem Sound.searches_next (h : Sound t d w)
    (hseeks : RpCtrl.seeks (d.next t i).ctrl.state = true)
    (hop : (d.next t i).ctrl.rpSDOP ≠ .nop) : (d.next t i).ctrl.rpDRY = false := by
  rw [ctrl_next] at hseeks hop ⊢
  have hbusy : RpCtrl.busy (d.ctrl.next (d.ctrlIn t i)).state = true := by
    rw [RpCtrl.busy, hseeks, Bool.true_or]
  rcases RpCtrl.next_busy hbusy with hreach | ⟨hnop, -⟩
  · cases hreach with
    | begins _ _ hbegins => exact hbegins.rpDRY
    | seeks hs _ hgoes =>
        rw [hgoes.rpDRY]
        exact h.searches hs (hgoes.rpSDOP ▸ hop)
    | found _ hs _ _ _ _ _ _ | data _ hs _ _ _ =>
        rw [hs] at hseeks
        cases hseeks
  · exact absurd hnop hop

/-- The data begin on the disk, and go on there. -/
theorem Sound.data_next (h : Sound t d w) (hi : Guarded t w d i) (hclr : i.clr = false)
    (hst : (d.next t i).ctrl.state = .data) :
    (d.next t i).ctrl.rpDRY = false ∧ (d.next t i).rpDCA.toNat ≤ t.cylNUM.toNat := by
  rw [ctrl_next] at hst
  rw [ctrl_next, rpDCA_next]
  by_cases hdata : d.ctrl.state = .data
  · obtain ⟨hgoes, haoe, -⟩ := RpCtrl.kept_of_next hdata hst
    obtain ⟨hdry, hdca⟩ := h.data hdata
    exact ⟨hgoes.rpDRY.trans hdry, Rp.nextDCA_le hdry hdca haoe⟩
  · obtain ⟨hsearch, hgoes, hop, hdmd, herr, hbusy, hdelay⟩ := RpCtrl.found_of_next hdata hst
    have hseeks : RpCtrl.seeks d.ctrl.state = true := by
      rw [hsearch]
      rfl
    refine ⟨hgoes.rpDRY.trans (h.searches hseeks hop), hi.begins ?_⟩
    have hclr' : (d.ctrlIn t i).clr = false := hclr
    simp [RpCtrl.findsData, hclr', hsearch, hop, hdmd, herr, hbusy, hdelay]

/-- One clock of the drive. -/
theorem Sound.next (h : Sound t d w) (hi : Guarded t w d i) :
    Sound t (d.next t i) (note t w d i) := by
  cases hclr : i.clr with
  | true =>
      rw [note_goes_on (Or.inl hclr)]
      exact Sound.clear hi hclr
  | false =>
      refine ⟨h.onDisk_next hclr, fun hst => ?_, h.seeks_next hi hclr, h.searches_next,
        h.data_next hi hclr⟩
      rw [ctrl_next] at hst
      rcases RpCtrl.homing_next hclr hst with ⟨f, hf, haddr⟩ | ⟨hidle, hbefore⟩
      · rw [note, hf]
        exact Bool.and_eq_false_imp.mpr fun haddr' => absurd (haddr.symm.trans haddr') (by decide)
      · rw [note_goes_on (Or.inr hidle)]
        exact h.homes hbefore

theorem Guarded.error (hi : Guarded t w d i) {f : RpFun} (hf : f.addressed = true)
    (hfun : RpFun.decode (i.rpDATAI.extractLsb' 1 5) = some f) (hgo : Rp.rpGO i.toIn = true)
    (hinv : ¬ Rp.Valid t d.toRp) : (d.next t i).rpIAE = true := by
  have hset : d.rpSETIAE t i.toIn = true := Rp.rpSETIAE_of_addressed hf hfun hgo hinv
  have hdrvclr : Rp.rpDRVCLR i.toIn = false := by
    have hcode := RpFun.addressed_code hf _ hfun
    rw [Rp.rpDRVCLR, Rp.goes, hgo, Bool.true_and, beq_eq_false_iff_ne]
    rintro heq
    rw [heq] at hcode
    revert hcode
    decide
  simp [CheckedRp.next, hi.written hset, hdrvclr, hset]

/-- In every run of a drive from rest on the disk, the heads stay on the disk if every clock
is guarded. -/
theorem headsStay_run (k : BitVec 3) (d : CheckedRp) (i : Nat → In)
    (hstart : d.ctrl.state = .idle)
    (hcyl : d.ctrl.rpCC.toNat ≤ (RpType.getTYPE k).cylNUM.toNat)
    (hguarded : ∀ n, Guarded (RpType.getTYPE k) (stray (RpType.getTYPE k) d i n)
      (driveAt (RpType.getTYPE k) d i n) (i n)) (n : Nat) : Stays (RpType.getTYPE k) d i n := by
  have hsound : ∀ m, Sound (RpType.getTYPE k) (driveAt (RpType.getTYPE k) d i m)
      (stray (RpType.getTYPE k) d i m) := by
    intro m
    induction m with
    | zero =>
        refine ⟨hcyl, ?_, ?_, ?_, ?_⟩
        all_goals
          rw [show (driveAt (RpType.getTYPE k) d i 0).ctrl.state = .idle from hstart]
          intro h
          cases h
    | succ m ih => exact ih.next (hguarded m)
  exact ⟨fun f hf hfun hgo hinv => (hguarded n).error hf hfun hgo hinv,
    fun hstray hclr => (hsound n).heads_next (hguarded n) hclr hstray, (hsound n).onDisk⟩

/-! ## A stray read and a stray search -/

/-- A drive at rest on cylinder 0. -/
def resting : CheckedRp := { toRp := Rp.resting, rpIAE := false }

/-- The same with its desired sector off the disk. -/
def offDisk : CheckedRp := { resting with rpSA := 40 }

/-- No write. -/
def rests : In := { toIn := (Rp.passes 0).toIn, er1WRITE := false }

/-- The write of the control register with a command. -/
def commands (rpDATAI : BitVec 36) : In := { rests with rpDATAI := rpDATAI, cs1WRITE := true }

/-- A read command. -/
def reading (n : Nat) : In := if n = 0 then commands 0o71 else rests

/-- Without a command a drive at rest stays so. -/
theorem idle_rests (h : d.ctrl.state = .idle ∧ d.ctrl.lastGO = false) :
    (d.next t rests).ctrl.state = .idle ∧ (d.next t rests).ctrl.lastGO = false := by
  obtain ⟨hst, hgo⟩ := h
  have hno : d.ctrl.go_cmd (d.ctrlIn t rests) = false := by
    rw [RpCtrl.go_cmd, hgo, Bool.and_false]
  have hready : ∀ s : RpCtrl, (s.ready (d.ctrlIn t rests) false).state = s.state ∧
      (s.ready (d.ctrlIn t rests) false).lastGO = s.lastGO := by
    intro s
    unfold RpCtrl.ready
    cases RpFun.decode (d.ctrlIn t rests).rpFUN with
    | none => exact ⟨rfl, rfl⟩
    | some f => exact ⟨rfl, rfl⟩
  have hnext : d.ctrl.next (d.ctrlIn t rests) =
      (d.ctrl.quiet (d.ctrlIn t rests)).ready (d.ctrlIn t rests) false := by
    rw [RpCtrl.next, hst, hno]
    rfl
  rw [ctrl_next, hnext]
  exact ⟨(hready _).1.trans hst, (hready _).2⟩

/-- And such a clock is guarded. -/
theorem guarded_rests (h : d.ctrl.state = .idle ∧ d.ctrl.lastGO = false) :
    Guarded t w d rests where
  written _ := rfl
  clears hclr := nomatch hclr
  accepts f hf := by
    rw [Option.mem_def, RpCtrl.accepts, RpCtrl.go_cmd, h.2, Bool.and_false, Bool.and_false] at hf
    cases hf
  begins hfinds := by
    rw [RpCtrl.findsData, h.1] at hfinds
    cases hfinds
  goesOn _ htransfers := by
    rw [RpCtrl.transfers, h.1] at htransfers
    cases htransfers

theorem guarded_reading (n : Nat) :
    Guarded (RpType.getTYPE 0) (stray (RpType.getTYPE 0) offDisk reading n)
      (driveAt (RpType.getTYPE 0) offDisk reading n) (reading n) := by
  by_cases hn : n < 6
  · revert n
    decide +kernel
  · obtain ⟨m, rfl⟩ : ∃ m, n = 6 + m := ⟨n - 6, by omega⟩
    have hrests : ∀ m, reading (6 + m) = rests := fun m => if_neg (by omega)
    have hidle : ∀ m, (driveAt (RpType.getTYPE 0) offDisk reading (6 + m)).ctrl.state = .idle ∧
        (driveAt (RpType.getTYPE 0) offDisk reading (6 + m)).ctrl.lastGO = false := by
      intro m
      induction m with
      | zero => decide +kernel
      | succ m ih =>
          have hnext := idle_rests (t := RpType.getTYPE 0) ih
          rw [← hrests m] at hnext
          exact hnext
    rw [hrests m]
    exact guarded_rests (hidle m)

theorem headsStay_run_reading :
    Stays (RpType.getTYPE 0) offDisk reading 3 ∧
      stray (RpType.getTYPE 0) offDisk reading 3 = true ∧
      (driveAt (RpType.getTYPE 0) offDisk reading 3).rpIAE = true :=
  ⟨headsStay_run 0 offDisk reading rfl (by decide) guarded_reading 3, by decide +kernel,
    by decide +kernel⟩

/-- A write of cylinder 1000, and a search command. -/
def searching (n : Nat) : In :=
  if n = 0 then { rests with rpDATAI := 1000, dcWRITE := true }
  else if n = 1 then commands 0o31
  else rests

theorem rpDMD_rests (hdmd : d.rpDMD = false) : (d.next t rests).rpDMD = false := by
  simp [next, Rp.next, rpIn, rests, Rp.passes, Rp.rpDRVCLR, Rp.goes, Rp.rpGO, Rp.writes, hdmd]

theorem delay_rests (hst : d.ctrl.state = .seeksearch) (hdelay : d.ctrl.delay ≠ 0) :
    (d.next t rests).ctrl =
      { d.ctrl.quiet (d.ctrlIn t rests) with delay := d.ctrl.delay - 1 } := by
  rw [ctrl_next, RpCtrl.next, hst]
  exact if_neg fun hzero => hdelay (beq_iff_eq.mp hzero)

/-- A seek lasts as long as its delay. -/
theorem seek_lasts (hst : d.ctrl.state = .seeksearch) (hdmd : d.rpDMD = false) :
    ∀ m ≤ d.ctrl.delay.toNat,
      (driveAt t d (fun _ => rests) m).ctrl.state = .seeksearch ∧
        (driveAt t d (fun _ => rests) m).ctrl.tmpCC = d.ctrl.tmpCC ∧
        (driveAt t d (fun _ => rests) m).rpDMD = false ∧
        (driveAt t d (fun _ => rests) m).ctrl.delay.toNat + m = d.ctrl.delay.toNat := by
  intro m hm
  induction m with
  | zero => exact ⟨hst, rfl, hdmd, rfl⟩
  | succ m ih =>
      obtain ⟨hst', htmp, hdmd', hdelay⟩ := ih (Nat.le_of_succ_le hm)
      have hne : (driveAt t d (fun _ => rests) m).ctrl.delay ≠ 0 := by
        intro hzero
        rw [hzero] at hdelay
        simp at hdelay
        omega
      have hnext : (driveAt t d (fun _ => rests) (m + 1)).ctrl = _ := delay_rests hst' hne
      have hpred := SdSpi.toNat_pred hne
      refine ⟨?_, ?_, rpDMD_rests hdmd', ?_⟩
      · rw [hnext]
        exact hst'
      · rw [hnext]
        exact htmp
      · rw [hnext]
        change ((driveAt t d (fun _ => rests) m).ctrl.delay - 1#25).toNat + (m + 1) = _
        omega

/-- Then the heads are on the cylinder. -/
theorem seek_arrives (hst : d.ctrl.state = .seeksearch) (hdmd : d.rpDMD = false) :
    (driveAt t d (fun _ => rests) (d.ctrl.delay.toNat + 1)).ctrl.rpCC = d.ctrl.tmpCC := by
  obtain ⟨hst', htmp, hdmd', hdelay⟩ := seek_lasts (t := t) hst hdmd _ (Nat.le_refl _)
  have hzero : (driveAt t d (fun _ => rests) d.ctrl.delay.toNat).ctrl.delay = 0 := by
    refine BitVec.eq_of_toNat_eq ?_
    change _ = 0
    omega
  have hends : ∀ e : CheckedRp, e.ctrl.state = .seeksearch → e.ctrl.delay = 0 →
      e.rpDMD = false → (e.next t rests).ctrl.rpCC = e.ctrl.tmpCC := by
    intro e hst hdelay hdmd
    have hdmd' : (e.ctrlIn t rests).rpDMD = false := hdmd
    have hdelay' : ((e.ctrl.quiet (e.ctrlIn t rests)).delay == 0) = true :=
      beq_iff_eq.mpr hdelay
    rw [ctrl_next, RpCtrl.next, hst]
    simp only [RpCtrl.wait, hdelay', hdmd']
    rfl
  exact (hends _ hst' hzero hdmd').trans htmp

/-- A search for cylinder 1000 of 815 sets the error, and brings the heads there. -/
theorem headsStay_fails :
    ¬ ∀ (k : BitVec 3) (d : CheckedRp) (i : Nat → In), d.ctrl.state = .idle →
      d.ctrl.rpCC.toNat ≤ (RpType.getTYPE k).cylNUM.toNat →
        ∀ n, Stays (RpType.getTYPE k) d i n := by
  intro h
  let e : CheckedRp := driveAt (RpType.getTYPE 0) resting searching 3
  have hseek : e.ctrl.state = .seeksearch ∧ e.rpDMD = false ∧ e.ctrl.tmpCC = 1000 := by
    decide +kernel
  have hcyl := (h 0 resting searching rfl (by decide) (3 + (e.ctrl.delay.toNat + 1))).onDisk
  have hrests : (fun n => searching (3 + n)) = fun _ => rests := by
    funext n
    rw [searching, if_neg (by omega), if_neg (by omega)]
  rw [driveAt, run_add, hrests] at hcyl
  have harrives : (driveAt (RpType.getTYPE 0) e (fun _ => rests)
      (e.ctrl.delay.toNat + 1)).ctrl.rpCC = 1000 :=
    (seek_arrives hseek.1 hseek.2.1).trans hseek.2.2
  rw [driveAt] at harrives
  rw [show run (next (RpType.getTYPE 0)) resting searching 3 = e from rfl, harrives] at hcyl
  exact absurd hcyl (by decide)

end CheckedRp

end KS10
