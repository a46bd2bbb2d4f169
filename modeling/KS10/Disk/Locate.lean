import KS10.Disk.Seek

/-!
# How a drive comes to its sector address

While a drive searches for a sector, its calculator multiplies the cylinder by the number
of tracks and the track by the number of sectors, by repeated addition.  The search does
not end before the calculator does, and the desired address stays as it is until the data
begin: a drive that comes to its data has the address of its sector (`Located`).
-/

namespace KS10

/-! ## The calculator -/

namespace RpAddr

/-- The number of the track, counted over the cylinders. -/
def In.track (i : In) : Nat := i.rpDCA.toNat * (i.rpTRKNUM.toNat + 1) + i.rpTA.toNat

/-- The number of the sector, counted over the tracks. -/
def In.sector (i : In) : Nat := i.track * (i.rpSECNUM.toNat + 1) + i.rpSA.toNat

/-- A sector within the bounds of a disk is one of its sectors. -/
theorem succ_le_sectors {cyl trk sec lastCyl lastTrk lastSec : Nat} (hcyl : cyl ≤ lastCyl)
    (htrk : trk ≤ lastTrk) (hsec : sec ≤ lastSec) :
    (cyl * (lastTrk + 1) + trk) * (lastSec + 1) + sec + 1 ≤
      (lastCyl + 1) * (lastTrk + 1) * (lastSec + 1) := by
  have htrack : cyl * (lastTrk + 1) + trk + 1 ≤ (lastCyl + 1) * (lastTrk + 1) := by
    calc cyl * (lastTrk + 1) + trk + 1
        ≤ cyl * (lastTrk + 1) + (lastTrk + 1) := Nat.add_le_add_left (Nat.succ_le_succ htrk) _
      _ = (cyl + 1) * (lastTrk + 1) := (Nat.succ_mul _ _).symm
      _ ≤ (lastCyl + 1) * (lastTrk + 1) := Nat.mul_le_mul_right _ (Nat.succ_le_succ hcyl)
  calc (cyl * (lastTrk + 1) + trk) * (lastSec + 1) + sec + 1
      ≤ (cyl * (lastTrk + 1) + trk) * (lastSec + 1) + (lastSec + 1) :=
        Nat.add_le_add_left (Nat.succ_le_succ hsec) _
    _ = (cyl * (lastTrk + 1) + trk + 1) * (lastSec + 1) := (Nat.succ_mul _ _).symm
    _ ≤ (lastCyl + 1) * (lastTrk + 1) * (lastSec + 1) := Nat.mul_le_mul_right _ htrack

/-- The numbers of tracks and of sectors can be counted down. -/
structure In.Fits (i : In) : Prop where
  trk : i.rpTRKNUM.toNat < 63
  sec : i.rpSECNUM.toNat < 63

/-- The sum of `n` terms so far, `loop` of them are still to come. -/
structure Adds (n term : Nat) (s : RpAddr) : Prop where
  loop : s.loop.toNat ≤ n
  temp : s.temp = BitVec.ofNat 21 term
  sum : s.sum = BitVec.ofNat 21 (term * (n - s.loop.toNat))

/-- What the calculator has calculated in each of its states. -/
def In.Calculates (i : In) (s : RpAddr) : Prop :=
  match s.state with
  | .track => s.Adds (i.rpTRKNUM.toNat + 1) i.rpDCA.toNat
  | .sect => s.Adds (i.rpSECNUM.toNat + 1) i.track
  | .word => s.sum = BitVec.ofNat 21 i.sector
  | .idle => s.sum = BitVec.ofNat 21 (2 * i.sector)

variable {i : In} {s : RpAddr} {n term : Nat}

theorem setWidth_eq_ofNat {w : Nat} (x : BitVec w) : x.setWidth 21 = BitVec.ofNat 21 x.toNat :=
  (BitVec.ofNat_toNat 21 x).symm

theorem loop_start {x : BitVec 6} (h : x.toNat < 63) : (x + 1).toNat = x.toNat + 1 := by
  rw [BitVec.toNat_add_of_lt]
  · rfl
  · exact Nat.succ_lt_succ h

/-- One term is added. -/
theorem Adds.next (h : Adds n term s) (hloop : s.loop ≠ 0) :
    Adds n term { s with sum := s.sum + s.temp, loop := s.loop - 1 } := by
  have hpos : 0 < s.loop.toNat := by
    refine Nat.pos_of_ne_zero fun hzero => hloop ?_
    exact BitVec.eq_of_toNat_eq hzero
  have hpred : (s.loop - 1).toNat = s.loop.toNat - 1 := by
    rw [BitVec.toNat_sub_of_le]
    · rfl
    · exact hpos
  have hle := h.loop
  refine ⟨?_, h.temp, ?_⟩
  · simp only [hpred]
    omega
  · have hcount : n - (s.loop.toNat - 1) = n - s.loop.toNat + 1 := by omega
    simp only [hpred, h.sum, h.temp, hcount, Nat.mul_add, Nat.mul_one, BitVec.ofNat_add]

/-- All terms have been added. -/
theorem Adds.done (h : Adds n term s) (hloop : s.loop = 0) :
    s.sum = BitVec.ofNat 21 (term * n) := by
  have hzero : s.loop.toNat = 0 := congrArg BitVec.toNat hloop
  rw [h.sum, hzero, Nat.sub_zero]

/-- The calculator starts with the address that it finds. -/
theorem In.calculates_start (hidle : s.state = .idle) (hstart : i.rpADRSTRT = true)
    (hfits : i.Fits) : i.Calculates (s.next i) := by
  have hnext : s.next i =
      { sum := 0, temp := i.rpDCA.setWidth 21, loop := i.rpTRKNUM + 1, state := .track } := by
    rw [next, hidle]
    exact if_pos hstart
  have hloop : (i.rpTRKNUM + 1).toNat = i.rpTRKNUM.toNat + 1 := loop_start hfits.trk
  rw [hnext]
  refine ⟨Nat.le_of_eq hloop, setWidth_eq_ofNat i.rpDCA, ?_⟩
  simp only [hloop, Nat.sub_self, Nat.mul_zero]
  rfl

/-- A clock of the calculation, as long as it is not started again. -/
theorem In.Calculates.next (h : i.Calculates s) (hstart : i.rpADRSTRT = false) (hfits : i.Fits) :
    i.Calculates (s.next i) := by
  unfold In.Calculates at h
  cases hst : s.state with
  | idle =>
      have hnext : s.next i = s := by
        rw [RpAddr.next, hst]
        exact if_neg (by rw [hstart]; exact Bool.false_ne_true)
      rw [hnext, In.Calculates, hst]
      rw [hst] at h
      exact h
  | track =>
      rw [hst] at h
      rw [RpAddr.next, hst]
      simp only
      split
      · rename_i hloop
        have hsum := h.done (beq_iff_eq.mp hloop)
        have hstarts : (i.rpSECNUM + 1).toNat = i.rpSECNUM.toNat + 1 := loop_start hfits.sec
        refine ⟨Nat.le_of_eq hstarts, ?_, ?_⟩
        · simp only [hsum, setWidth_eq_ofNat, In.track, BitVec.ofNat_add]
        · simp only [hstarts, Nat.sub_self, Nat.mul_zero]
          rfl
      · rename_i hloop
        have hadds := h.next fun heq => hloop (beq_iff_eq.mpr heq)
        rw [hst] at hadds
        exact hadds
  | sect =>
      rw [hst] at h
      rw [RpAddr.next, hst]
      simp only
      split
      · rename_i hloop
        have hsum := h.done (beq_iff_eq.mp hloop)
        simp only [In.Calculates, hsum, setWidth_eq_ofNat, In.sector, BitVec.ofNat_add]
      · rename_i hloop
        have hadds := h.next fun heq => hloop (beq_iff_eq.mpr heq)
        rw [hst] at hadds
        exact hadds
  | word =>
      rw [hst] at h
      rw [RpAddr.next, hst]
      simp only [In.Calculates, h, Nat.two_mul, BitVec.ofNat_add]

/-- A calculator that is not busy has the address of the first half of the sector. -/
theorem In.Calculates.done (h : i.Calculates s) (hidle : s.rpADRBUSY = false)
    (hlt : 2 * i.sector < 2 ^ 21) : s.rpSDLSA.toNat = 2 * i.sector := by
  have hst : s.state = .idle := by
    simpa [rpADRBUSY] using hidle
  rw [In.Calculates, hst] at h
  rw [rpSDLSA, h, BitVec.toNat_ofNat, Nat.mod_eq_of_lt hlt]

end RpAddr

/-! ## The address of a drive -/

/-- The numbers of the calculator are small enough for its registers. -/
structure RpType.Fits (t : RpType) : Prop where
  trk : t.trkNUM.toNat < 63
  sec16 : t.secN16.toNat < 63
  sec18 : t.secN18.toNat < 63
  cyl : t.cylNUM.toNat < 1023
  size : 2 * ((t.cylNUM.toNat + 1) * (t.trkNUM.toNat + 1) * 64) ≤ 2 ^ 21

/-- The address registers have room for the last sector, track and cylinder, and the sector
address for all sectors of either format. -/
structure RpType.Room (t : RpType) : Prop where
  trk : t.trkNUM.toNat < 63
  sec16 : t.secN16.toNat < 63
  sec18 : t.secN18.toNat < 63
  cyl : t.cylNUM.toNat < 1023
  size : ∀ fmt22 : Bool, 2 * ((t.cylNUM.toNat + 1) * (t.trkNUM.toNat + 1) *
    ((if fmt22 then t.secN16 else t.secN18).toNat + 1)) ≤ 2 ^ 21

theorem RpType.Fits.room {t : RpType} (h : t.Fits) : t.Room where
  trk := h.trk
  sec16 := h.sec16
  sec18 := h.sec18
  cyl := h.cyl
  size fmt22 := by
    refine Nat.le_trans (Nat.mul_le_mul_left 2 (Nat.mul_le_mul_left _ ?_)) h.size
    split
    · exact Nat.succ_le_succ (Nat.le_of_lt h.sec16)
    · exact Nat.succ_le_succ (Nat.le_of_lt h.sec18)

theorem RpType.fits_getTYPE (k : BitVec 3) : (getTYPE k).Fits := by
  unfold getTYPE
  split
  · exact ⟨by decide, by decide, by decide, by decide, by decide⟩
  · exact ⟨by decide, by decide, by decide, by decide, by decide⟩

theorem RpType.room_getTYPE (k : BitVec 3) : (getTYPE k).Room := (fits_getTYPE k).room

namespace Rp

/-- The desired sector, counted over the whole disk. -/
def sector (t : RpType) (d : Rp) : Nat := (d.addrIn t).sector

/-- The desired address is on the disk. -/
structure Valid (t : RpType) (d : Rp) : Prop where
  sec : d.rpSA.toNat ≤ (d.rpSECNUM t).toNat
  trk : d.rpTA.toNat ≤ t.trkNUM.toNat
  cyl : d.rpDCA.toNat ≤ t.cylNUM.toNat

/-- The registers of the address have not changed. -/
structure Holds (d d' : Rp) : Prop where
  rpSA : d'.rpSA = d.rpSA
  rpTA : d'.rpTA = d.rpTA
  rpDCA : d'.rpDCA = d.rpDCA
  rpFMT22 : d'.rpFMT22 = d.rpFMT22

/-- The preset and the recalibration change the address even while the drive is busy. -/
structure Left (i : In) : Prop where
  preset : rpPRESET i = false
  recal : rpRECAL i = false

variable {t : RpType} {d d' : Rp} {i : In}

theorem fits_secNUM (ht : t.Room) : (d.rpSECNUM t).toNat < 63 := by
  unfold rpSECNUM
  split
  · exact ht.sec16
  · exact ht.sec18

theorem fits_addrIn (ht : t.Room) : (d.addrIn t).Fits := ⟨ht.trk, fits_secNUM ht⟩

/-- A sector on the disk is one of its sectors. -/
theorem Valid.sector_lt_sectors (h : Valid t d) : d.sector t + 1 ≤
    (t.cylNUM.toNat + 1) * (t.trkNUM.toNat + 1) * ((d.rpSECNUM t).toNat + 1) :=
  RpAddr.succ_le_sectors h.cyl h.trk h.sec

/-- Both halves of a sector on the disk have an address. -/
theorem Valid.sector_lt (h : Valid t d) (ht : t.Room) : 2 * d.sector t + 1 < 2 ^ 21 := by
  have hsector := h.sector_lt_sectors
  have hsize : 2 * ((t.cylNUM.toNat + 1) * (t.trkNUM.toNat + 1) *
      ((d.rpSECNUM t).toNat + 1)) ≤ 2 ^ 21 := ht.size d.rpFMT22
  omega

theorem Holds.secNUM (h : Holds d d') : d'.rpSECNUM t = d.rpSECNUM t := by
  rw [rpSECNUM, rpSECNUM, h.rpFMT22]

theorem Holds.sector (h : Holds d d') : d'.sector t = d.sector t := by
  simp only [Rp.sector, RpAddr.In.sector, RpAddr.In.track, addrIn, h.rpSA, h.rpTA, h.rpDCA,
    h.secNUM]

theorem Holds.valid (h : Holds d d') (hd : Valid t d) : Valid t d' where
  sec := by
    rw [h.rpSA, h.secNUM]
    exact hd.sec
  trk := by
    rw [h.rpTA]
    exact hd.trk
  cyl := by
    rw [h.rpDCA]
    exact hd.cyl

theorem Holds.calculates (h : Holds d d') {a : RpAddr} (ha : (d.addrIn t).Calculates a) :
    (d'.addrIn t).Calculates a := by
  have hin : d'.addrIn t = { d.addrIn t with rpADRSTRT := d'.ctrl.rpADRSTRT } := by
    simp only [addrIn, h.rpSA, h.rpTA, h.rpDCA, h.secNUM]
  rw [hin]
  exact ha

/-- The drive takes no writes while it is busy. -/
theorem writes_busy (hdry : d.ctrl.rpDRY = false) {write : Bool} : d.writes i write = false := by
  rw [writes, hdry, Bool.and_false]

/-- The address of a busy drive stays, unless its sector is counted. -/
theorem holds_next (hdry : d.ctrl.rpDRY = false) (hi : Left i) (hinc : d.rpINCSECT i = false) :
    Holds d (d.next t i) := by
  constructor
  · simp [next, nextSA, hi.preset, writes_busy hdry, hinc]
  · simp [next, nextTA, hi.preset, writes_busy hdry, hinc]
  · simp [next, nextDCA, hi.preset, hi.recal, writes_busy hdry, rpINCCYL, hinc]
  · simp [next, hi.preset, writes_busy hdry]

/-! ## The end of a sector -/

/-- The address has been counted, with its carries. -/
structure Steps (t : RpType) (d d' : Rp) : Prop where
  rpFMT22 : d'.rpFMT22 = d.rpFMT22
  rpSA : d'.rpSA = if d.lastSector t then 0 else d.rpSA + 1
  rpTA : d'.rpTA = if d.lastSector t then if d.lastTrack t then 0 else d.rpTA + 1 else d.rpTA
  rpDCA : d'.rpDCA = if d.lastSector t && d.lastTrack t then d.rpDCA + 1 else d.rpDCA

theorem steps_next (hdry : d.ctrl.rpDRY = false) (hi : Left i) (hinc : d.rpINCSECT i = true) :
    Steps t d (d.next t i) := by
  constructor
  · simp [next, hi.preset, writes_busy hdry]
  · simp [next, nextSA, hi.preset, writes_busy hdry, hinc]
  · simp [next, nextTA, hi.preset, writes_busy hdry, hinc]
  · simp [next, nextDCA, hi.preset, hi.recal, writes_busy hdry, rpINCCYL, hinc]

theorem Steps.secNUM (h : Steps t d d') : d'.rpSECNUM t = d.rpSECNUM t := by
  rw [rpSECNUM, rpSECNUM, h.rpFMT22]

/-- An address on the disk is counted without running over the registers. -/
theorem Valid.counted (hd : Valid t d) (ht : t.Room) :
    (d.rpSA + 1).toNat = d.rpSA.toNat + 1 ∧ (d.rpTA + 1).toNat = d.rpTA.toNat + 1 ∧
      (d.rpDCA + 1).toNat = d.rpDCA.toNat + 1 := by
  refine ⟨RpAddr.loop_start (Nat.lt_of_le_of_lt hd.sec (fits_secNUM ht)),
    RpAddr.loop_start (Nat.lt_of_le_of_lt hd.trk ht.trk), ?_⟩
  rw [BitVec.toNat_add_of_lt]
  · rfl
  · exact Nat.succ_lt_succ (Nat.lt_of_le_of_lt hd.cyl ht.cyl)

theorem sector_eq : d.sector t = (d.rpDCA.toNat * (t.trkNUM.toNat + 1) + d.rpTA.toNat) *
    ((d.rpSECNUM t).toNat + 1) + d.rpSA.toNat := rfl

/-- The counted address is that of the sector that follows. -/
theorem Steps.sector (h : Steps t d d') (hd : Valid t d) (ht : t.Room) :
    d'.sector t = d.sector t + 1 := by
  obtain ⟨hsa, hta, hdca⟩ := hd.counted ht
  rw [sector_eq, sector_eq, h.secNUM, h.rpSA, h.rpTA, h.rpDCA]
  cases hlast : d.lastSector t with
  | false =>
      simp only [Bool.false_eq_true, if_false, Bool.false_and, hsa]
      rfl
  | true =>
      have heq : d.rpSA = d.rpSECNUM t := beq_iff_eq.mp hlast
      cases htrack : d.lastTrack t with
      | false =>
          simp only [if_true, Bool.false_eq_true, if_false, Bool.and_false, hta, heq]
          rw [← Nat.add_assoc, Nat.succ_mul, ← Nat.add_assoc]
          rfl
      | true =>
          have htrk : d.rpTA = t.trkNUM := beq_iff_eq.mp htrack
          simp only [if_true, Bool.and_self, hdca, heq, htrk]
          have hcarry : (d.rpDCA.toNat + 1) * (t.trkNUM.toNat + 1) =
              d.rpDCA.toNat * (t.trkNUM.toNat + 1) + t.trkNUM.toNat + 1 :=
            Nat.succ_mul _ _
          change ((d.rpDCA.toNat + 1) * (t.trkNUM.toNat + 1) + 0) * _ + 0 = _
          rw [hcarry, Nat.add_zero, Nat.add_zero, Nat.succ_mul, Nat.add_assoc]

theorem succ_le_of_ne {w : Nat} {x y : BitVec w} (hle : x.toNat ≤ y.toNat) (hne : x ≠ y) :
    x.toNat + 1 ≤ y.toNat :=
  Nat.lt_of_le_of_ne hle fun heq => hne (BitVec.eq_of_toNat_eq heq)

/-- The counted address is on the disk, unless it is past the last cylinder. -/
theorem Steps.valid (h : Steps t d d') (hd : Valid t d) (ht : t.Room)
    (hmore : (d.lastSector t && d.lastTrack t && d.rpDCA == t.cylNUM) = false) :
    Valid t d' := by
  obtain ⟨hsa, hta, hdca⟩ := hd.counted ht
  have hsec : d'.rpSA.toNat ≤ (d'.rpSECNUM t).toNat := by
    rw [h.secNUM, h.rpSA]
    cases hlast : d.lastSector t with
    | true => exact Nat.zero_le _
    | false =>
        have hne : d.rpSA ≠ d.rpSECNUM t := by simpa [lastSector] using hlast
        simp only [Bool.false_eq_true, if_false, hsa]
        exact succ_le_of_ne hd.sec hne
  have htrk : d'.rpTA.toNat ≤ t.trkNUM.toNat := by
    rw [h.rpTA]
    cases d.lastSector t with
    | false => exact hd.trk
    | true =>
        cases htrack : d.lastTrack t with
        | true => exact Nat.zero_le _
        | false =>
            have hne : d.rpTA ≠ t.trkNUM := by simpa [lastTrack] using htrack
            simp only [if_true, Bool.false_eq_true, if_false, hta]
            exact succ_le_of_ne hd.trk hne
  refine ⟨hsec, htrk, ?_⟩
  rw [h.rpDCA]
  cases hlast : (d.lastSector t && d.lastTrack t) with
  | false => exact hd.cyl
  | true =>
      rw [hlast, Bool.true_and, beq_eq_false_iff_ne] at hmore
      simp only [if_true, hdca]
      exact succ_le_of_ne hd.cyl hmore

theorem more_of_not_rpSETAOE (hinc : d.rpINCSECT i = true) (haoe : d.rpSETAOE t i = false) :
    (d.lastSector t && d.lastTrack t && d.rpDCA == t.cylNUM) = false := by
  rw [rpSETAOE, rpINCCYL, hinc, Bool.true_and] at haoe
  exact haoe

/-! ## Commands of the drive -/

/-- The drive searches for the sector of a data command: the calculator is about to start,
or at work. -/
structure Searches (t : RpType) (d : Rp) : Prop where
  rpDRY : d.ctrl.rpDRY = false
  rpEBL : d.ctrl.rpEBL = false
  addr : d.ctrl.rpADRSTRT = true ∧ (d.ctrl.state = .search → d.ctrl.delay ≠ 0) ∨
    d.ctrl.rpADRSTRT = false ∧ (d.addrIn t).Calculates d.addr

/-- The drive has its data. -/
structure HasData (t : RpType) (d : Rp) : Prop where
  rpDRY : d.ctrl.rpDRY = false
  rpADRSTRT : d.ctrl.rpADRSTRT = false
  rpDMD : d.rpDMD = false
  idle : d.addr.state = .idle
  valid : Valid t d

/-- What is known of a drive that carries out a data command. -/
structure Located (t : RpType) (d : Rp) : Prop where
  searches : RpCtrl.seeks d.ctrl.state = true → d.ctrl.rpSDOP ≠ .nop → Searches t d
  data : d.ctrl.state = .data → HasData t d

/-- The calculator has the address of the first half of the sector. -/
def HasSector (t : RpType) (d : Rp) : Prop := d.addr.rpSDLSA.toNat = 2 * d.sector t

/-- The program leaves the drive alone while it carries out a data command, and the drive
checks its address. -/
structure Steady (t : RpType) (d : Rp) (i : In) : Prop where
  left : RpCtrl.busy d.ctrl.state = true → Left i
  starts : d.ctrl.rpADRSTRT = true → d.addr.state = .idle
  checked : d.ctrl.state = .search → i.rpCLBERR = false → Valid t d

theorem rpDMD_next (hdry : d.ctrl.rpDRY = false) (hdmd : d.rpDMD = false) :
    (d.next t i).rpDMD = false := by
  simp [next, writes_busy hdry, hdmd]

/-- The calculator starts, or goes on. -/
theorem Searches.calculates (h : Searches t d) (ht : t.Room) (hi : Steady t d i) (hleft : Left i)
    (hinc : d.rpINCSECT i = false) :
    ((d.next t i).addrIn t).Calculates (d.next t i).addr := by
  refine (holds_next h.rpDRY hleft hinc).calculates ?_
  rcases h.addr with ⟨hstart, -⟩ | ⟨hstart, hcalc⟩
  · exact RpAddr.In.calculates_start (hi.starts hstart) hstart (fits_addrIn ht)
  · exact hcalc.next hstart (fits_addrIn ht)

/-- A search ends with the address of the sector. -/
theorem Searches.found (h : Searches t d) (ht : t.Room) (hi : Steady t d i)
    (hinc : d.rpINCSECT i = false) (hst : d.ctrl.state = .search)
    (hgoes : RpCtrl.Goes d.ctrl (d.next t i).ctrl) (hdmd : d.rpDMD = false)
    (herr : i.rpCLBERR = false) (hidle : d.addr.rpADRBUSY = false) (hdelay : d.ctrl.delay = 0) :
    HasData t (d.next t i) ∧ HasSector t (d.next t i) := by
  have hleft : Left i := by
    refine hi.left ?_
    rw [hst]
    rfl
  have hholds : Holds d (d.next t i) := holds_next h.rpDRY hleft hinc
  have hvalid : Valid t d := hi.checked hst herr
  rcases h.addr with ⟨-, hwaits⟩ | ⟨hstart, hcalc⟩
  · exact absurd hdelay (hwaits hst)
  · have hst' : d.addr.state = .idle := by
      simpa [RpAddr.rpADRBUSY] using hidle
    have haddr : (d.next t i).addr = d.addr := by
      change d.addr.next (d.addrIn t) = d.addr
      rw [RpAddr.next, hst']
      exact if_neg (by rw [addrIn, hstart]; exact Bool.false_ne_true)
    have hlt : 2 * d.sector t < 2 ^ 21 := Nat.lt_of_succ_lt (hvalid.sector_lt ht)
    constructor
    · exact ⟨hgoes.rpDRY.trans h.rpDRY, hgoes.rpADRSTRT, rpDMD_next h.rpDRY hdmd,
        haddr ▸ hst', hholds.valid hvalid⟩
    · rw [HasSector, haddr, hholds.sector]
      exact hcalc.done hidle hlt

/-- The calculator rests while the drive has its data. -/
theorem HasData.addr_next (h : HasData t d) : (d.next t i).addr = d.addr := by
  change d.addr.next (d.addrIn t) = d.addr
  rw [RpAddr.next, h.idle]
  exact if_neg (by rw [addrIn, h.rpADRSTRT]; exact Bool.false_ne_true)

/-- The drive keeps its data. -/
theorem HasData.next (h : HasData t d) (ht : t.Room) (hleft : Left i)
    (hgoes : RpCtrl.Goes d.ctrl (d.next t i).ctrl) (haoe : d.rpSETAOE t i = false) :
    HasData t (d.next t i) where
  rpDRY := hgoes.rpDRY.trans h.rpDRY
  rpADRSTRT := hgoes.rpADRSTRT
  rpDMD := rpDMD_next h.rpDRY h.rpDMD
  idle := by
    rw [h.addr_next]
    exact h.idle
  valid := by
    cases hinc : d.rpINCSECT i with
    | false => exact (holds_next h.rpDRY hleft hinc).valid h.valid
    | true =>
        exact (steps_next h.rpDRY hleft hinc).valid h.valid ht (more_of_not_rpSETAOE hinc haoe)

theorem ctrl_next : (d.next t i).ctrl = d.ctrl.next (d.ctrlIn t i) := rfl

/-- The controller of the disks counts no sector of a drive that searches for one. -/
def Spared (d : Rp) (i : In) : Prop :=
  RpCtrl.seeks d.ctrl.state = true → d.ctrl.rpSDOP ≠ .nop → d.rpINCSECT i = false

/-- The drive that comes to its data has the address of its sector. -/
theorem Located.found (h : Located t d) (ht : t.Room) (hi : Steady t d i) (hsp : Spared d i)
    (hst : d.ctrl.state ≠ .data) (hnext : (d.next t i).ctrl.state = .data) :
    HasData t (d.next t i) ∧ HasSector t (d.next t i) := by
  obtain ⟨hsearch, hgoes, hop, hdmd, herr, hidle, hdelay⟩ := RpCtrl.found_of_next hst hnext
  have hseeks : RpCtrl.seeks d.ctrl.state = true := by
    rw [hsearch]
    rfl
  exact (h.searches hseeks hop).found ht hi (hsp hseeks hop) hsearch hgoes hdmd herr hidle hdelay

theorem Steady.left_of_data (hi : Steady t d i) (hst : d.ctrl.state = .data) : Left i := by
  refine hi.left ?_
  rw [hst]
  rfl

/-- A drive keeps the address of its sector until the sector is counted. -/
theorem Located.hasSector_next (h : Located t d) (ht : t.Room) (hi : Steady t d i)
    (hsp : Spared d i) (hinc : d.ctrl.state = .data → d.rpINCSECT i = false)
    (hs : d.ctrl.state = .data → HasSector t d) (hnext : (d.next t i).ctrl.state = .data) :
    HasSector t (d.next t i) := by
  by_cases hst : d.ctrl.state = .data
  · have hd : HasData t d := h.data hst
    rw [HasSector, hd.addr_next, (holds_next hd.rpDRY (hi.left_of_data hst) (hinc hst)).sector]
    exact hs hst
  · exact (h.found ht hi hsp hst hnext).2

/-- One clock of a drive. -/
theorem Located.next (h : Located t d) (ht : t.Room) (hi : Steady t d i) (hsp : Spared d i) :
    Located t (d.next t i) := by
  constructor
  · intro hseeks hop
    have hbusy : RpCtrl.busy (d.next t i).ctrl.state = true := by
      rw [RpCtrl.busy, hseeks, Bool.true_or]
    rw [ctrl_next] at hseeks hop hbusy
    rcases RpCtrl.next_busy hbusy with hreach | ⟨hnop, -⟩
    · cases hreach with
      | begins _ _ hb => exact ⟨hb.rpDRY, hb.rpEBL, Or.inl ⟨hb.rpADRSTRT, hb.delay⟩⟩
      | seeks hst _ hgoes =>
          have hop' : d.ctrl.rpSDOP ≠ .nop := hgoes.rpSDOP ▸ hop
          have hd : Searches t d := h.searches hst hop'
          have hleft : Left i := by
            refine hi.left ?_
            rw [RpCtrl.busy, hst, Bool.true_or]
          exact ⟨hgoes.rpDRY.trans hd.rpDRY, hgoes.rpEBL,
            Or.inr ⟨hgoes.rpADRSTRT, hd.calculates ht hi hleft (hsp hst hop')⟩⟩
      | found _ hst _ _ _ _ _ _ | data _ hst _ _ _ =>
          rw [hst] at hseeks
          cases hseeks
    · exact absurd hnop hop
  · intro hnext
    by_cases hst : d.ctrl.state = .data
    · obtain ⟨hgoes, haoe, -⟩ := RpCtrl.kept_of_next hst hnext
      exact (h.data hst).next ht (hi.left_of_data hst) hgoes haoe
    · exact (h.found ht hi hsp hst hnext).1

end Rp

end KS10
