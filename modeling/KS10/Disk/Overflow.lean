import KS10.Disk.Mapping
import KS10.Disk.OneDrive

/-!
# The end of the disk

A drive sets its address overflow error when a pulse finds it at the last sector of the last
cylinder.  Whether the transfer is over the controller tells from the word count, one clock
before the drive sees the pulse.  A transfer that would run past the end of the disk is stopped
after the last sector, and no sector of another drive is ever used.

But the controller also gives the pulse when no words are left, so that a transfer that ends
with the last sector of the disk sets the error as well (`aoe_fails`), and only then is the error
not exact (`aoe_iff`).
-/

namespace KS10

open Clocked

namespace RpAoe

open RpType (last)
open Sd (phase)

section Exact

variable (t : RpType) (n : BitVec 3) (s : RpAoe) (i : In)

/-! ## What is to be shown -/

/-- The second half of a sector of the drive ends at this clock. -/
def endsSector : Bool :=
  s.sd.sdSCAN == n && (phase s.sd.state == .transferring && s.sd.sectCNT &&
    (phase (s.next t n i).sd.state == .counting || phase (s.next t n i).sd.state == .finishing))

/-- The desired address is the last sector of the last cylinder. -/
def atEnd : Bool := s.d.lastSector t && s.d.lastTrack t && s.d.rpDCA == t.cylNUM

/-- The last sector of the disk ends, and words are left. -/
def overruns : Bool := s.endsSector t n i && s.atEnd t && s.wc.rhWC != 0

/-- The last sector of the disk ends, and with it the transfer. -/
def endsDisk : Bool := s.endsSector t n i && s.atEnd t && s.wc.rhWC == 0

/-- The sectors of the disk. -/
def sectors : Nat :=
  (t.cylNUM.toNat + 1) * (t.trkNUM.toNat + 1) * ((s.d.rpSECNUM t).toNat + 1)

/-- The sector address is within the area of drive `n`, and on its disk. -/
def Within : Prop :=
  n.toNat * 2 ^ 21 ≤ s.sd.sectADDR.toNat ∧ s.sd.sectADDR.toNat < (n.toNat + 1) * 2 ^ 21 ∧
    s.sd.sectADDR.toNat < n.toNat * 2 ^ 21 + 2 * s.sectors t

/-- The state after `u` clocks. -/
def after (i : Nat → In) (u : Nat) : RpAoe := run (next t n) s i u

/-- The address overflow is exact at clock `u`. -/
structure Exact (i : Nat → In) (u : Nat) : Prop where
  /-- A transfer sets the error just when it has words left after the last sector. -/
  sets : (s.after t n i u).serves n = true →
    ((s.after t n i (u + 1)).rpSETAOE t n (i (u + 1)) = true ↔
      (s.after t n i u).overruns t n (i u) = true)
  /-- A transfer that ends with the last sector completes without the error. -/
  completes : (s.after t n i u).endsDisk t n (i u) = true →
    phase (s.after t n i (u + 1)).sd.state = .finishing ∧
      (s.after t n i (u + 2)).rpAOE = false
  /-- One that would run past it has the error, and is stopped. -/
  stops : (s.after t n i u).overruns t n (i u) = true →
    (s.after t n i (u + 2)).rpAOE = true ∧
      phase (s.after t n i (u + 3)).sd.state = .finishing ∧
        ∀ v, u < v → v ≤ u + 3 → Sd.begins (s.after t n i v).sd.state = false
  /-- Every sector that is used is one of the disk. -/
  within : (s.after t n i u).sd.sdSCAN = n → Sd.begins (s.after t n i u).sd.state = true →
    (s.after t n i u).Within t n

end Exact

variable {t : RpType} {n : BitVec 3} {s : RpAoe} {i j : In}

/-! ## The last sector -/

theorem serves_iff : s.serves n = true ↔ s.sd.sdSCAN = n ∧ (phase s.sd.state = .transferring ∨
    phase s.sd.state = .counting ∨ phase s.sd.state = .deciding) := by
  rw [serves, Bool.and_eq_true, Bool.or_eq_true, Bool.or_eq_true, beq_iff_eq, beq_iff_eq,
    beq_iff_eq, beq_iff_eq, or_assoc]

/-- What the end of a sector says of the controller. -/
theorem endsSector_iff : s.endsSector t n i = true ↔ s.sd.sdSCAN = n ∧
    (phase s.sd.state = .transferring ∧ s.sd.sectCNT = true) ∧
      (phase (s.next t n i).sd.state = .counting ∨
        phase (s.next t n i).sd.state = .finishing) := by
  rw [endsSector, Bool.and_eq_true, Bool.and_eq_true, Bool.and_eq_true, Bool.or_eq_true,
    beq_iff_eq, beq_iff_eq, beq_iff_eq, beq_iff_eq]

/-- The end of each sector of the drive has its pulse. -/
theorem endsSector_eq (hscan : s.sd.sdSCAN = n) :
    s.endsSector t n i = (s.next t n i).sd.sdINCSECT := by
  rw [endsSector, hscan, beq_self_eq_true, Bool.true_and, sd_next, Sd.next_sdINCSECT]

/-- A pulse is given for the drive that has been transferred. -/
theorem scan_of_pulse (hpulse : (s.next t n i).sd.sdINCSECT = true) :
    (s.next t n i).sd.sdSCAN = s.sd.sdSCAN := by
  have hsignals : Signals (s.next t n i).sd := Signals.next s.sd (s.sdIn n i)
  have hno {p : Sd.Phase} {q : Prop} (hphase : phase (s.next t n i).sd.state = p)
      (hp : p ≠ .counting ∧ p ≠ .finishing) : q :=
    absurd ((hsignals.no_pulse hphase hp).symm.trans hpulse) Bool.false_ne_true
  rcases Sd.next_sdSCAN (s := s.sd) (i := s.sdIn n i) with hsame | hphase | hphase | hphase
  · exact hsame
  · exact hno hphase (by decide)
  · exact hno hphase (by decide)
  · exact hno hphase (by decide)

theorem rpSETAOE_eq : s.rpSETAOE t n i = (s.d.rpINCSECT (s.rpIn n i) && s.atEnd t) := by
  rw [rpSETAOE, Rp.rpSETAOE, Rp.rpINCCYL, atEnd, Bool.and_assoc, Bool.and_assoc, Bool.and_assoc]

theorem atEnd_of_holds {x : RpAoe} (h : Rp.Holds s.d x.d) : x.atEnd t = s.atEnd t := by
  simp only [atEnd, Rp.lastSector, Rp.lastTrack, h.rpSA, h.rpTA, h.rpDCA, h.secNUM]

/-- The drive of a transfer is busy, and not in the diagnostic mode. -/
theorem Inv.busy (h : Inv t n s) (hserves : s.serves n = true) :
    s.d.rpDMD = false ∧ s.d.ctrl.rpDRY = false := by
  obtain ⟨hscan, hphase⟩ := serves_iff.mp hserves
  cases h.agrees with
  | transferring _ _ hdata _ | counting _ _ hdata _ =>
      exact ⟨(h.located.data hdata).rpDMD, (h.located.data hdata).rpDRY⟩
  | deciding _ _ hdry hdmd _ => exact ⟨hdmd, hdry⟩
  | away haway =>
      rcases haway with hne | hp | hp | hp
      · exact absurd hscan hne
      all_goals
        rw [hp] at hphase
        rcases hphase with hq | hq | hq <;> cases hq
  | ended _ hp _ _ =>
      rcases hp with hp | hp | hp
      all_goals
        rw [hp] at hphase
        rcases hphase with hq | hq | hq <;> cases hq

/-- What is known while the halves of a sector are transferred. -/
theorem Inv.transferring (h : Inv t n s) (hscan : s.sd.sdSCAN = n)
    (hphase : phase s.sd.state = .transferring) :
    s.d.ctrl.state = .data ∧ s.Addresses n (s.d.sector t) := by
  cases h.agrees with
  | transferring _ _ hdata haddr => exact ⟨hdata, haddr⟩
  | away haway =>
      rcases haway with hne | hp | hp | hp
      · exact absurd hscan hne
      all_goals cases hphase.symm.trans hp
  | counting _ hp _ _ | deciding _ hp _ _ _ => cases hphase.symm.trans hp
  | ended _ hp _ _ => rcases hp with hp | hp | hp <;> cases hphase.symm.trans hp

/-- The pulse sets the error exactly at the last sector of the disk, however many words are
left. -/
theorem Inv.rpSETAOE_next (h : Inv t n s) (hi : s.Steady t n i)
    (hj : (s.next t n i).Steady t n j) (hserves : s.serves n = true) :
    (s.next t n i).rpSETAOE t n j = (s.endsSector t n i && s.atEnd t) := by
  obtain ⟨hdmd, hdry⟩ := h.busy hserves
  have hscan := (serves_iff.mp hserves).1
  have hdmd' : (s.next t n i).d.rpDMD = false := Rp.rpDMD_next hdry hdmd
  rw [rpSETAOE_eq, hj.rpINCSECT_eq hdmd', ← endsSector_eq hscan]
  cases hends : s.endsSector t n i with
  | false => rfl
  | true =>
      obtain ⟨-, ⟨hphase, -⟩, -⟩ := endsSector_iff.mp hends
      have hpulse : (s.next t n i).sd.sdINCSECT = true := (endsSector_eq hscan).symm.trans hends
      have hdata := (h.transferring hscan hphase).1
      have hinc : s.d.rpINCSECT (s.rpIn n i) = false := by
        rw [hi.rpINCSECT_eq hdmd, h.signals.no_pulse hphase (by decide), Bool.false_and]
      have hholds : Rp.Holds s.d (s.next t n i).d :=
        Rp.holds_next hdry (hi.drive.left_of_data hdata) hinc
      rw [scan_of_pulse hpulse, hscan, beq_self_eq_true, atEnd_of_holds hholds]
      rfl

/-- A transfer that would run past the end of the disk is stopped after the last sector. -/
theorem Inv.stops (h : Inv t n s) (ht : t.Room) (hi : s.Steady t n i)
    (hj : (s.next t n i).Steady t n j) (hruns : s.overruns t n i = true) (k : In) :
    phase (s.next t n i).sd.state = .counting ∧
      phase ((s.next t n i).next t n j).sd.state = .deciding ∧
      ((s.next t n i).next t n j).rpAOE = true ∧
      phase (((s.next t n i).next t n j).next t n k).sd.state = .finishing := by
  rw [overruns, Bool.and_eq_true, Bool.and_eq_true, bne_iff_ne] at hruns
  obtain ⟨⟨hends, hatEnd⟩, hwords⟩ := hruns
  obtain ⟨hscan, ⟨hphase, -⟩, hcounts⟩ := endsSector_iff.mp hends
  have hcounting : phase (s.next t n i).sd.state = .counting := by
    rcases hcounts with hcounting | hfini
    · exact hcounting
    · exact absurd (Sd.rhWC_of_ends (i := s.sdIn n i) hphase hfini) hwords
  have hpulse : (s.next t n i).sd.sdINCSECT = true := (endsSector_eq hscan).symm.trans hends
  have hscan' : (s.next t n i).sd.sdSCAN = n := (scan_of_pulse hpulse).trans hscan
  have hset : (s.next t n i).rpSETAOE t n j = true := by
    rw [h.rpSETAOE_next hi hj (serves_iff.mpr ⟨hscan, Or.inl hphase⟩), hends, hatEnd]
    rfl
  have hdata : (s.next t n i).d.ctrl.state = .data :=
    (h.next ht hi).data_of_pulse hpulse hscan'
  have hk := Sd.next_counting (i := (s.next t n i).sdIn n j) hcounting
  have hgone : ((s.next t n i).next t n j).sd.requested
      (((s.next t n i).next t n j).sdIn n k) = false := by
    rw [requested_eq (hk.sdSCAN.trans hscan'), RpCtrl.rpSDREQ, beq_eq_false_iff_ne]
    intro hkept
    have hno : (s.next t n i).rpSETAOE t n j = false := (RpCtrl.kept_of_next hdata hkept).2.1
    exact Bool.false_ne_true (hno.symm.trans hset)
  refine ⟨hcounting, hk.phase, ?_, ?_⟩
  · obtain ⟨hclr, hdrvclr, -⟩ :=
      hj.undisturbed ⟨hscan', Or.inl (serves_iff.mpr ⟨hscan', Or.inr (Or.inl hcounting)⟩)⟩
    change (s.next t n i).nextAOE t n j = true
    rw [nextAOE, hclr, hdrvclr, hset]
    rfl
  · rcases Sd.next_deciding (i := ((s.next t n i).next t n j).sdIn n k) hk.phase with
      ⟨hreq, -⟩ | ⟨-, hfini, -⟩
    · exact absurd (hgone.symm.trans hreq) Bool.false_ne_true
    · exact hfini

/-- Every sector that is used is on the disk. -/
theorem Inv.within (h : Inv t n s) (ht : t.Room) (hscan : s.sd.sdSCAN = n)
    (hbegins : Sd.begins s.sd.state = true) : s.Within t n := by
  obtain ⟨hdata, haddr⟩ := h.transferring hscan (Sd.phase_of_begins hbegins)
  have hvalid := (h.located.data hdata).valid
  have hsector : s.d.sector t + 1 ≤ s.sectors t := hvalid.sector_lt_sectors
  have hsize : 2 * s.sectors t ≤ 2 ^ 21 := ht.size s.d.rpFMT22
  have hcnt : s.sd.sectCNT.toNat ≤ 1 := Bool.toNat_le s.sd.sectCNT
  rw [Addresses] at haddr
  refine ⟨?_, ?_, ?_⟩
  · omega
  · omega
  · omega

/-! ## Every run -/

section Runs

variable {i : Nat → In} {T u : Nat}

theorem after_succ : s.after t n i (u + 1) = (s.after t n i u).next t n (i u) := rfl

theorem inv_after (ht : t.Room) (hs : s.Begins t)
    (hi : ∀ v, v < u → (s.after t n i v).Steady t n (i v)) : Inv t n (s.after t n i u) :=
  run_invariant_of (C := fun s i => s.Steady t n i) hs.inv (fun _ _ hC h => h.next ht hC) hi

/-- The end of a sector is one of a transfer. -/
theorem serves_of_endsSector {x : RpAoe} {k : In} (h : x.endsSector t n k = true) :
    x.serves n = true := by
  obtain ⟨hscan, ⟨hphase, -⟩, -⟩ := endsSector_iff.mp h
  exact serves_iff.mpr ⟨hscan, Or.inl hphase⟩

/-- The end of a transfer with the last sector sets the error. -/
theorem Inv.not_exact (h : Inv t n (s.after t n i u))
    (hi : (s.after t n i u).Steady t n (i u))
    (hj : (s.after t n i (u + 1)).Steady t n (i (u + 1)))
    (hends : (s.after t n i u).endsDisk t n (i u) = true) : ¬ s.Exact t n i u := by
  intro hexact
  rw [endsDisk, Bool.and_eq_true, beq_iff_eq] at hends
  obtain ⟨hsector, hwords⟩ := hends
  have hserves := serves_of_endsSector (Bool.and_eq_true_iff.mp hsector).1
  have hset : (s.after t n i (u + 1)).rpSETAOE t n (i (u + 1)) = true :=
    (h.rpSETAOE_next hi hj hserves).trans hsector
  have hruns := (hexact.sets hserves).mp hset
  rw [overruns, Bool.and_eq_true, bne_iff_ne] at hruns
  exact hruns.2 hwords

theorem Inv.exact (h : Inv t n (s.after t n i u)) (ht : t.Room)
    (hi : (s.after t n i u).Steady t n (i u))
    (hj : (s.after t n i (u + 1)).Steady t n (i (u + 1)))
    (hends : (s.after t n i u).endsDisk t n (i u) = false) : s.Exact t n i u where
  sets hserves := by
    have hset := h.rpSETAOE_next hi hj hserves
    rw [after_succ, hset, overruns]
    rw [endsDisk] at hends
    cases hsector : (s.after t n i u).endsSector t n (i u) && (s.after t n i u).atEnd t with
    | false => rfl
    | true =>
        rw [hsector, Bool.true_and] at hends
        rw [bne, hends]
        rfl
  completes hyes := absurd (hends.symm.trans hyes) Bool.false_ne_true
  stops hruns := by
    obtain ⟨hcounting, hdeciding, haoe, hfini⟩ := h.stops ht hi hj hruns (i (u + 2))
    refine ⟨haoe, hfini, fun v hlt hle => ?_⟩
    have hno {p : Sd.Phase} (hphase : phase (s.after t n i v).sd.state = p)
        (hp : p ≠ .transferring) : Sd.begins (s.after t n i v).sd.state = false := by
      rw [← Bool.not_eq_true]
      exact fun hbegins => hp (hphase.symm.trans (Sd.phase_of_begins hbegins))
    obtain rfl | rfl | rfl : v = u + 1 ∨ v = u + 2 ∨ v = u + 3 := by omega
    · exact hno hcounting (by decide)
    · exact hno hdeciding (by decide)
    · exact hno hfini (by decide)
  within hscan hbegins := h.within ht hscan hbegins

end Runs

/-- The address overflow is exact in every run of every drive, as long as no transfer ends with
the last sector of the disk. -/
theorem aoe_iff (type : BitVec 16) (n : BitVec 3) (s : RpAoe) (i : Nat → In) (T : Nat)
    (hs : s.Begins (last type))
    (hi : ∀ u, u ≤ T + 1 → (s.after (last type) n i u).Steady (last type) n (i u)) :
    (∀ u, u ≤ T → s.Exact (last type) n i u) ↔
      ∀ u, u ≤ T → (s.after (last type) n i u).endsDisk (last type) n (i u) = false := by
  have ht : (last type).Room := RpType.room_last type
  have hinv (u : Nat) (hu : u ≤ T) : Inv (last type) n (s.after (last type) n i u) :=
    inv_after ht hs fun v hv => hi v (by omega)
  constructor
  · intro hexact u hu
    rw [← Bool.not_eq_true]
    intro hends
    exact (hinv u hu).not_exact (hi u (by omega)) (hi (u + 1) (by omega)) hends (hexact u hu)
  · intro hends u hu
    exact (hinv u hu).exact ht (hi u (by omega)) (hi (u + 1) (by omega)) (hends u hu)

/-! ## A read of the last sector -/

/-- The states of a read up to the end of its first word. -/
def reads : Sd.State → Bool
  | .read00 | .read01 | .read02 | .read03 | .read04 | .read05 | .read06 | .read07 | .read08
  | .read09 | .read10 | .read11 | .read12 => true
  | _ => false

/-- A read of one word: the word is still to come, or it is being counted, or none is left. -/
inductive OneWord (sd : Sd) (rhWC : BitVec 16) : Prop where
  | first (hstate : reads sd.state = true) (hcnt : sd.sectCNT = false)
      (hinc : sd.sdINCWC = false) (hwc : rhWC = -2)
  | counted (hstate : sd.state = .read13) (hcnt : sd.sectCNT = false)
      (hinc : sd.sdINCWC = true) (hwc : rhWC = -2)
  | none (hinc : sd.sdINCWC = false) (hwc : rhWC = 0)
  | failed (h : phase sd.state = .failed)

/-- The first word is read. -/
theorem OneWord.reads_next {sd : Sd} {k : Sd.In} (hstate : reads sd.state = true)
    (hcnt : sd.sectCNT = false) (hwc : k.rhWC = -2) : OneWord (sd.next k) (-2) := by
  have hstays : Sd.Stays (fun x => OneWord x (-2)) sd :=
    ⟨.first hstate hcnt rfl rfl, fun _ _ => .first hstate hcnt rfl rfl⟩
  cases hst : sd.state
  case read00 =>
    simp only [Sd.next, hst]
    exact .first rfl hcnt rfl rfl
  case read01 =>
    simp only [Sd.next, hst]
    exact hstays.sendBytes (.first rfl hcnt rfl rfl)
  case read02 | read03 =>
    simp only [Sd.next, hst]
    refine hstays.poll (.failed rfl) ?_
    split
    · exact .first rfl hcnt rfl rfl
    · exact .failed rfl
  case read04 | read05 | read06 | read07 | read08 | read09 | read10 | read11 =>
    simp only [Sd.next, hst]
    exact hstays.onDone (.first rfl hcnt rfl rfl)
  case read12 =>
    simp only [Sd.next, hst, Sd.onAck]
    split
    · refine .counted rfl hcnt ?_ rfl
      change (k.rhWC != 0) = true
      rw [hwc]
      rfl
    · exact .first hstate hcnt rfl rfl
  all_goals
    rw [hst] at hstate
    cases hstate

theorem OneWord.next {x : Xfer} {env : Xfer.Env} (h : OneWord x.sd x.wc.rhWC) :
    OneWord (x.step env).sd (x.step env).wc.rhWC := by
  have hsd : (x.step env).sd = x.sd.next (x.sdIn env) := rfl
  have hwc (hinc : x.sd.sdINCWC = false) : (x.step env).wc = x.wc := by
    change x.wc.next x.wcIn = x.wc
    rw [RhWc.next, Xfer.wcIn, hinc]
    rfl
  cases h with
  | first hstate hcnt hinc hwords =>
      rw [hsd, hwc hinc, hwords]
      exact .reads_next hstate hcnt hwords
  | counted hstate _ hinc hwords =>
      refine .none ?_ ?_
      · rw [hsd, Sd.next, hstate]
        simp only
        split
        · rfl
        · rfl
      · change (x.wc.next x.wcIn).rhWC = 0
        rw [RhWc.next, Xfer.wcIn, hinc]
        simp [hwords]
  | none hinc hwords =>
      refine .none ?_ (by rw [hwc hinc, hwords])
      rw [hsd, ← Bool.not_eq_true]
      exact fun hyes => Sd.next_countsLeft hyes hwords
  | failed hfailed => exact .failed (hsd ▸ (Sd.next_failing hfailed).1)

/-- Drive 0, an RP06, has come to the data of a read of its last sector. -/
def lastDrive : Rp :=
  { Watched.drive .data .rd with
    ctrl := { (Watched.drive .data .rd).ctrl with rpCC := 814 }
    addr := { sum := 619398, temp := 0, loop := 0, state := .idle }
    rpSA := 19
    rpTA := 18
    rpDCA := 814 }

/-- The drive with the controller and the word count of a read. -/
def reading (sd : Sd) (wc : RhWc) : RpAoe :=
  { sd := sd, d := lastDrive, rpAOE := false, wc := wc }

/-- A read of one word of the last sector. -/
def lastRead : RpAoe := reading { Sd.reset with state := .idle } { rhWC := -2 }

/-- The bus and the card of the read. -/
def lastEnv : Xfer.Env :=
  { Xfer.Env.prompt fun _ => 0 with rpSDOP := .rd, rpSDLSA := 619398 }

/-- What they give to the read.  The program leaves the drive alone, and keeps it selected. -/
def given (x : Xfer) : In where
  rp := (Disks.reading 0).driveIn (Watched.clocks false 0) 0
  rper1WRITE := false
  sd := x.sdIn lastEnv
  wc := x.wcIn

/-- The read as it begins. -/
def accepted : Xfer := Xfer.accepted .read00 true 619398 1 { addr := 0 } fun _ _ => 0

def firstRead : Xfer :=
  { accepted with sd := lastRead.sd.next (lastRead.sdIn 0 (given accepted)) }

theorem firstRead_starts : Xfer.Starts .read00 true 619398 1 firstRead :=
  Xfer.accepted_with rfl rfl rfl rfl (by decide : SpiOp.nop ≠ .tr) rfl rfl rfl rfl

/-- The read after `u` clocks. -/
def readAt (u : Nat) : Xfer := (Xfer.step lastEnv)^[u] firstRead

theorem readAt_succ (u : Nat) : readAt (u + 1) = (readAt u).step lastEnv :=
  Function.iterate_succ_apply' _ _ _

/-- The read, as the drive sees it. -/
def oneRead : Nat → In
  | 0 => given accepted
  | u + 1 => given (readAt u)

theorem sdIn_reading {x : Xfer} : (reading x.sd x.wc).sdIn 0 (given x) = x.sdIn lastEnv := by
  have hreq : (Disks.vector fun k =>
      if k = 0 then true else (BitVec.allOnes 8).getLsbD k.toNat) = BitVec.allOnes 8 := by decide
  have hreq' : ((reading x.sd x.wc).sdIn 0 (given x)).rpSDREQ = (x.sdIn lastEnv).rpSDREQ := hreq
  have hop : ((reading x.sd x.wc).sdIn 0 (given x)).rpSDOP = (x.sdIn lastEnv).rpSDOP := ite_self _
  have hlsa : ((reading x.sd x.wc).sdIn 0 (given x)).rpSDLSA = (x.sdIn lastEnv).rpSDLSA :=
    ite_self _
  calc (reading x.sd x.wc).sdIn 0 (given x)
      = { (x.sdIn lastEnv) with
          rpSDOP := ((reading x.sd x.wc).sdIn 0 (given x)).rpSDOP
          rpSDLSA := ((reading x.sd x.wc).sdIn 0 (given x)).rpSDLSA
          rpSDREQ := ((reading x.sd x.wc).sdIn 0 (given x)).rpSDREQ } := rfl
    _ = x.sdIn lastEnv := by rw [hreq', hop, hlsa]

/-- The drive stays as it is until the pulse. -/
theorem reading_next {x : Xfer} (hpulse : x.sd.sdINCSECT = false) (hack : x.sd.rpSDACK = 0) :
    (reading x.sd x.wc).next .rp06 0 (given x) =
      reading (x.step lastEnv).sd (x.step lastEnv).wc := by
  have hin : (reading x.sd x.wc).rpIn 0 (given x) = (given x).rp := by
    simp only [rpIn, reading, rpCLBERR, hpulse, hack, given]
    rfl
  have hd : lastDrive.next .rp06 (given x).rp = lastDrive := rfl
  have haoe : (reading x.sd x.wc).nextAOE .rp06 0 (given x) = false := by
    rw [nextAOE, rpSETAOE, hin]
    rfl
  rw [next, sdIn_reading, hin, haoe]
  change RpAoe.mk (x.sd.next (x.sdIn lastEnv)) (lastDrive.next .rp06 (given x).rp) false
    (x.wc.next x.wcIn) = _
  rw [hd]
  rfl

theorem after_oneRead {m : Nat} (h : ∀ u, u < m → (readAt u).sd.sdINCSECT = false ∧
    (readAt u).sd.rpSDACK = 0) :
    lastRead.after .rp06 0 oneRead (m + 1) = reading (readAt m).sd (readAt m).wc := by
  induction m with
  | zero => rfl
  | succ m ih =>
      obtain ⟨hpulse, hack⟩ := h m (Nat.lt_succ_self m)
      rw [after_succ, ih fun u hu => h u (Nat.lt_succ_of_lt hu), readAt_succ]
      exact reading_next hpulse hack

theorem oneWord_readAt (u : Nat) : OneWord (readAt u).sd (readAt u).wc.rhWC := by
  induction u with
  | zero => exact .first rfl rfl rfl rfl
  | succ u ih =>
      rw [readAt_succ]
      exact ih.next

theorem lastRead_begins : lastRead.Begins .rp06 where
  free := ⟨Or.inr (Or.inl rfl), rfl, rfl, rfl⟩
  found := rfl
  data _ := by
    refine ⟨⟨rfl, rfl, rfl, rfl, ⟨by decide, by decide, by decide⟩⟩, ?_, rfl⟩
    rw [Rp.HasSector, Rp.sector_eq]
    rfl

/-- The program does not disturb the read. -/
theorem reading_steady {sd : Sd} {wc : RhWc} {x : Xfer}
    (h : sd.sdINCSECT = true → sd.sdSCAN = 0) :
    (reading sd wc).Steady .rp06 0 (given x) where
  selected hpulse := (beq_iff_eq.mpr (h hpulse)).symm
  undisturbed _ := ⟨rfl, rfl, rfl⟩
  drive := ⟨fun _ => ⟨rfl, rfl⟩, nofun, nofun⟩

/-- The first clocks of the read. -/
theorem aoe_iff_lastRead : lastRead.Exact (last RpType.rpRP06) 0 oneRead 1 := by
  refine (aoe_iff RpType.rpRP06 0 lastRead oneRead 1 lastRead_begins fun u hu => ?_).mpr
    (fun u hu => ?_) 1 (Nat.le_refl 1)
  · obtain rfl | rfl | rfl : u = 0 ∨ u = 1 ∨ u = 2 := by omega
    · exact reading_steady nofun
    · exact reading_steady nofun
    · have hstate := after_oneRead (m := 1) fun v hv => by
        obtain rfl : v = 0 := by omega
        exact ⟨rfl, rfl⟩
      change (lastRead.after .rp06 0 oneRead 2).Steady .rp06 0 (oneRead 2)
      rw [hstate]
      exact reading_steady nofun
  · obtain rfl | rfl : u = 0 ∨ u = 1 := by omega
    · rfl
    · rfl

/-- A read of one word of the last sector sets the error. -/
theorem aoe_fails : ¬ ∀ (type : BitVec 16) (n : BitVec 3) (s : RpAoe) (i : Nat → In) (T : Nat),
    s.Begins (last type) →
    (∀ u, u ≤ T + 1 → (s.after (last type) n i u).Steady (last type) n (i u)) →
    ∀ u, u ≤ T → s.Exact (last type) n i u := by
  intro h
  have hgo : ¬ Xfer.stops lastEnv 619398 1 0 := by
    rintro (⟨hodd, -⟩ | hreq)
    · cases hodd
    · cases hreq
  obtain ⟨t, ht, hfirst, hserves⟩ : ∃ t, (readAt t).sd.sdINCSECT = true ∧
      (∀ u, u < t → (readAt u).sd.sdINCSECT = false) ∧
        ∀ u, u ≤ t → Disks.Serves 0 (readAt u).sd :=
    Disks.exists_pulse firstRead_starts (by decide) hgo ⟨rfl, Or.inl ⟨rfl, Or.inl rfl⟩⟩
  cases t with
  | zero => cases ht
  | succ m =>
      have hstate (u : Nat) (hu : u ≤ m + 1) :
          lastRead.after .rp06 0 oneRead (u + 1) = reading (readAt u).sd (readAt u).wc :=
        after_oneRead fun v hv => ⟨hfirst v (by omega), (hserves v (by omega)).ack⟩
      have hsteady (u : Nat) (hu : u ≤ m + 2) :
          (lastRead.after .rp06 0 oneRead u).Steady .rp06 0 (oneRead u) := by
        cases u with
        | zero => exact reading_steady fun hpulse => nomatch hpulse
        | succ u =>
            rw [hstate u (by omega)]
            refine reading_steady fun hpulse => ?_
            rcases (hserves u (by omega)).serves with ⟨hscan, -⟩ | ⟨-, hno⟩
            · exact hscan
            · exact absurd (hno.symm.trans hpulse) Bool.false_ne_true
      have hexact := h RpType.rpRP06 0 lastRead oneRead (m + 1)
      rw [show last RpType.rpRP06 = .rp06 from rfl] at hexact
      have hinv : Inv .rp06 0 (lastRead.after .rp06 0 oneRead (m + 1)) :=
        inv_after (RpType.room_last RpType.rpRP06) lastRead_begins
          fun v hv => hsteady v (by omega)
      refine hinv.not_exact (hsteady (m + 1) (by omega)) (hsteady (m + 2) (by omega)) ?_
        (hexact lastRead_begins hsteady (m + 1) (Nat.le_refl _))
      -- The first pulse comes with the last sector, and no word is left.
      have hpulse : (readAt m).sd.next ((readAt m).sdIn lastEnv) = (readAt (m + 1)).sd :=
        congrArg Xfer.sd (readAt_succ m).symm
      have hends := ht
      rw [← hpulse, Sd.next_sdINCSECT, Bool.and_eq_true, Bool.and_eq_true, beq_iff_eq] at hends
      obtain ⟨⟨hphase, hcnt⟩, -⟩ := hends
      have hscan : (readAt m).sd.sdSCAN = 0 := by
        rcases (hserves m (Nat.le_succ m)).serves with ⟨hscan, -⟩ | ⟨hfailed, -⟩
        · exact hscan
        · cases hphase.symm.trans hfailed
      have hwords : (readAt m).wc.rhWC = 0 := by
        cases oneWord_readAt m with
        | first _ hno _ _ | counted _ hno _ _ => exact absurd (hno.symm.trans hcnt) (by decide)
        | none _ hwords => exact hwords
        | failed hfailed => cases hphase.symm.trans hfailed
      rw [hstate m (Nat.le_succ m), endsDisk, Bool.and_eq_true, Bool.and_eq_true, beq_iff_eq]
      refine ⟨⟨?_, rfl⟩, hwords⟩
      rw [endsSector_eq hscan]
      change ((readAt m).sd.next ((reading _ _).sdIn 0 (given (readAt m)))).sdINCSECT = true
      rw [sdIn_reading, hpulse]
      exact ht

end RpAoe

end KS10
