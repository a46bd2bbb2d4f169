import KS10.Disk.Locate
import KS10.Disk.Read
import KS10.Disk.Service

/-!
# The disk address and the sector address

The controller has its own copy of the address: it takes the address of the first half of
the sector when it accepts a request, and counts the halves.  The drive counts its sector,
track and cylinder at the pulse that the controller gives at the end of a second half.  The
two agree at the beginning of every half (`Tracks`) as long as the pulse finds the drive that
the controller transfers selected (`tracks_run`).

In the source the pulse goes to the drive that the program has selected, and the program may
select another one at any time (`tracks_fails`).
-/

namespace KS10

open Clocked

namespace Disks

open Sd (phase)

/-! ## What is to be shown -/

/-- The type of the drive that the controller scans. -/
def scannedType (s : Disks) : RpType := RpType.getTYPE s.sd.sdSCAN

/-- The pulse of the controller steps the address of drive `k`. -/
def takesPulse (s : Disks) (k : BitVec 3) : Bool :=
  !(s.drives k).rpDMD && (s.sd.sdINCSECT && s.rhUNIT == k)

/-- The second half of a sector ends at this clock. -/
def endsSector (s : Disks) (i : In) : Bool :=
  phase s.sd.state == .transferring && s.sd.sectCNT &&
    (phase (s.next i).sd.state == .counting || phase (s.next i).sd.state == .finishing)

/-- The sector address of the controller is that of its half of sector number `n`. -/
def Addresses (s : Disks) (n : Nat) : Prop :=
  s.sd.sectADDR.toNat = s.sd.sdSCAN.toNat * 2 ^ 21 + 2 * n + s.sd.sectCNT.toNat

/-- The address of the drive follows the transfer. -/
structure Tracks (s : Disks) (i : In) : Prop where
  /-- There is one pulse for each sector. -/
  pulse : (s.next i).sd.sdINCSECT = s.endsSector i
  /-- It steps the drive that is transferred, and no other. -/
  steps : s.sd.sdINCSECT = true → ∀ k, s.takesPulse k = true ↔ k = s.sd.sdSCAN
  counts : s.sd.sdINCSECT = true →
    ((s.next i).drives s.sd.sdSCAN).sector s.scannedType = s.scanned.sector s.scannedType + 1
  /-- At the beginning of a half sector both addresses agree. -/
  address : Sd.begins s.sd.state = true → s.Addresses (s.scanned.sector s.scannedType)

/-! ## The condition -/

/-- The pulse finds its drive selected; nothing ends the command of the drive while its
transfer goes on; and all drives are steady. -/
structure Steady (s : Disks) (i : In) : Prop where
  selected : s.sd.sdINCSECT = true → s.rhUNIT = s.sd.sdSCAN
  undisturbed : phase s.sd.state = .transferring ∨ phase (s.next i).sd.state = .transferring →
    i.clr = false ∧ i.rpCLBERR s.sd.sdSCAN = false
  drives : ∀ k, (s.drives k).Steady (RpType.getTYPE k) (s.driveIn i k)

/-! ## The invariant -/

/-- What holds of the controller and the drive that it works for, in each phase. -/
inductive Agrees (s : Disks) : Prop where
  | free (h : Sd.Free s.sd)
  | transferring (hphase : phase s.sd.state = .transferring) (hpulse : s.sd.sdINCSECT = false)
      (hack : s.sd.rpSDACK = 0) (hdata : s.scanned.ctrl.state = .data)
      (haddr : s.Addresses (s.scanned.sector s.scannedType))
  | counting (hphase : phase s.sd.state = .counting) (hack : s.sd.rpSDACK = 0)
      (hdata : s.scanned.ctrl.state = .data)
      (haddr : s.Addresses (s.scanned.sector s.scannedType + s.sd.sdINCSECT.toNat))
  | deciding (hphase : phase s.sd.state = .deciding) (hpulse : s.sd.sdINCSECT = false)
      (hack : s.sd.rpSDACK = 0) (haddr : s.Addresses (s.scanned.sector s.scannedType))
  | finishing (hphase : phase s.sd.state = .finishing) (hack : s.sd.rpSDACK = 0)
      (hdata : s.sd.sdINCSECT = true → s.scanned.ctrl.state = .data)
  | acknowledging (hphase : phase s.sd.state = .acknowledging) (hpulse : s.sd.sdINCSECT = false)
      (hack : s.sd.rpSDACK = 0)
  | acknowledged (hphase : phase s.sd.state = .acknowledged) (hpulse : s.sd.sdINCSECT = false)
      (hack : s.sd.rpSDACK = 1#8 <<< s.sd.sdSCAN.toNat)

/-- The controller has not accepted a request of the drive, and may accept one. -/
def Waits (s : Disks) (k : BitVec 3) : Prop :=
  phase s.sd.state ≠ .failed ∧
    (phase s.sd.state = .starting ∨ phase s.sd.state = .scanning ∨ k ≠ s.sd.sdSCAN)

/-- Every drive knows its sector when it comes to its data, and the controller agrees with
the drive that it works for. -/
structure Inv (s : Disks) : Prop where
  located : ∀ k, (s.drives k).Located (RpType.getTYPE k)
  waits : ∀ k, s.Waits k → (s.drives k).ctrl.state = .data →
    (s.drives k).HasSector (RpType.getTYPE k)
  agrees : Agrees s

variable {s : Disks} {i : In} {k : BitVec 3}

/-- A pulse is given after a half sector, while the drive has its data. -/
theorem Agrees.of_pulse (h : Agrees s) (hpulse : s.sd.sdINCSECT = true) :
    (phase s.sd.state = .counting ∨ phase s.sd.state = .finishing) ∧
      s.scanned.ctrl.state = .data := by
  cases h with
  | free h => exact absurd (h.2.sdINCSECT.symm.trans hpulse) Bool.false_ne_true
  | transferring _ hno _ _ _ | deciding _ hno _ _ | acknowledging _ hno _
  | acknowledged _ hno _ => exact absurd (hno.symm.trans hpulse) Bool.false_ne_true
  | counting hphase _ hdata _ => exact ⟨Or.inl hphase, hdata⟩
  | finishing hphase _ hdata => exact ⟨Or.inr hphase, hdata hpulse⟩

theorem Inv.hasData (h : Inv s) (hpulse : s.sd.sdINCSECT = true) :
    s.scanned.HasData s.scannedType :=
  (h.located s.sd.sdSCAN).data (h.agrees.of_pulse hpulse).2

theorem rpINCSECT_driveIn : (s.drives k).rpINCSECT (s.driveIn i k) =
    if (s.drives k).rpDMD then (s.drives k).ctrl.rpEBL else s.sd.sdINCSECT && s.rhUNIT == k := rfl

/-- The drive takes the pulse that is meant for it. -/
theorem Inv.takes (h : Inv s) (hi : s.Steady i) (hpulse : s.sd.sdINCSECT = true) :
    s.scanned.rpINCSECT (s.driveIn i s.sd.sdSCAN) = true := by
  rw [scanned, rpINCSECT_driveIn, if_neg (by rw [← scanned, (h.hasData hpulse).rpDMD]; decide),
    hpulse, Bool.true_and, beq_iff_eq]
  exact hi.selected hpulse

/-- No pulse steps a drive that searches. -/
theorem Inv.spared (h : Inv s) (hi : s.Steady i) : (s.drives k).Spared (s.driveIn i k) := by
  intro hseeks hop
  rw [rpINCSECT_driveIn, ((h.located k).searches hseeks hop).rpEBL]
  cases hpulse : s.sd.sdINCSECT with
  | false => simp
  | true =>
      have hne : s.rhUNIT ≠ k := by
        rintro rfl
        have hdata := (h.agrees.of_pulse hpulse).2
        rw [scanned, ← hi.selected hpulse] at hdata
        rw [hdata] at hseeks
        cases hseeks
      simp [hne]

/-- No pulse steps a drive that waits for the controller. -/
theorem Inv.waits_spared (h : Inv s) (hi : s.Steady i) (hw : s.Waits k)
    (hdata : (s.drives k).ctrl.state = .data) :
    (s.drives k).rpINCSECT (s.driveIn i k) = false := by
  rw [rpINCSECT_driveIn, ((h.located k).data hdata).rpDMD]
  simp only [Bool.false_eq_true, if_false]
  cases hpulse : s.sd.sdINCSECT with
  | false => rfl
  | true =>
      have hne : k ≠ s.sd.sdSCAN := by
        rcases hw.2 with hphase | hphase | hne
        · rcases (h.agrees.of_pulse hpulse).1 with hp | hp <;> cases hphase.symm.trans hp
        · rcases (h.agrees.of_pulse hpulse).1 with hp | hp <;> cases hphase.symm.trans hp
        · exact hne
      rw [hi.selected hpulse, Bool.true_and, beq_eq_false_iff_ne]
      exact hne.symm

/-! ## One clock -/

theorem sd_next : (s.next i).sd = s.sd.next (s.sdIn i) := rfl

theorem drives_next :
    (s.next i).drives k = (s.drives k).next (RpType.getTYPE k) (s.driveIn i k) := rfl

/-- The controller goes on with the same drive. -/
theorem waits_of_same {p q : Sd.Phase} (hphase : phase s.sd.state = p)
    (hscan : (s.next i).sd.sdSCAN = s.sd.sdSCAN) (hnext : phase (s.next i).sd.state = q)
    (hne : p ≠ .failed ∧ q ≠ .starting ∧ q ≠ .scanning) (hw : (s.next i).Waits k) :
    s.Waits k := by
  refine ⟨hphase ▸ hne.1, Or.inr (Or.inr ?_)⟩
  rcases hw.2 with hp | hp | hk
  · exact absurd (hnext.symm.trans hp) hne.2.1
  · exact absurd (hnext.symm.trans hp) hne.2.2
  · rw [hscan] at hk
    exact hk

/-- A drive that waits after a clock has waited before, unless it has just been acknowledged. -/
theorem Agrees.waits_of_next (h : Agrees s) (hw : (s.next i).Waits k) :
    s.Waits k ∨ k = s.sd.sdSCAN ∧ s.sd.rpSDACK = 1#8 <<< s.sd.sdSCAN.toNat := by
  cases h with
  | free h =>
      rcases h.1 with hphase | hphase | hphase
      · exact Or.inl ⟨by rw [hphase]; decide, Or.inl hphase⟩
      · exact Or.inl ⟨by rw [hphase]; decide, Or.inr (Or.inl hphase)⟩
      · exact absurd (Sd.next_failing hphase).1 hw.1
  | transferring hphase _ _ _ _ =>
      left
      cases Sd.next_transferring (i := s.sdIn i) hphase with
      | keeps hk => exact waits_of_same hphase hk.sdSCAN hk.phase (by decide) hw
      | counts hc => exact waits_of_same hphase hc.sdSCAN hc.phase (by decide) hw
      | ends he => exact waits_of_same hphase he.sdSCAN he.phase (by decide) hw
      | fails hf _ => exact absurd hf hw.1
  | counting hphase _ _ _ =>
      have hk := Sd.next_counting (i := s.sdIn i) hphase
      exact Or.inl (waits_of_same hphase hk.sdSCAN hk.phase (by decide) hw)
  | deciding hphase _ _ _ =>
      left
      rcases Sd.next_deciding (i := s.sdIn i) hphase with ⟨-, hk⟩ | ⟨-, hfini, hscan, -⟩
      · exact waits_of_same hphase hk.sdSCAN hk.phase (by decide) hw
      · exact waits_of_same hphase hscan hfini (by decide) hw
  | finishing hphase _ _ =>
      left
      obtain ⟨hnext, hscan, -⟩ := Sd.next_finishing (i := s.sdIn i) hphase
      rcases hnext with hnext | hnext
      · exact waits_of_same hphase hscan hnext (by decide) hw
      · exact waits_of_same hphase hscan hnext (by decide) hw
  | acknowledging hphase _ _ =>
      obtain ⟨hnext, hscan, -, -, -⟩ := Sd.next_acknowledging (i := s.sdIn i) hphase
      exact Or.inl (waits_of_same hphase hscan hnext (by decide) hw)
  | acknowledged hphase _ hack =>
      by_cases hk : k = s.sd.sdSCAN
      · exact Or.inr ⟨hk, hack⟩
      · exact Or.inl ⟨by rw [hphase]; decide, Or.inr (Or.inr hk)⟩

/-- The drives that wait have the addresses of their sectors. -/
theorem Inv.waits_next (h : Inv s) (hi : s.Steady i) (hw : (s.next i).Waits k)
    (hnext : ((s.next i).drives k).ctrl.state = .data) :
    ((s.next i).drives k).HasSector (RpType.getTYPE k) := by
  have hd := h.located k
  have ht := RpType.room_getTYPE k
  by_cases hst : (s.drives k).ctrl.state = .data
  · have hwaits : s.Waits k := by
      rcases h.agrees.waits_of_next hw with hwaits | ⟨hk, hack⟩
      · exact hwaits
      · -- The acknowledge has ended the command.
        have hno : s.sd.rpSDACK.getLsbD k.toNat = false := (RpCtrl.kept_of_next hst hnext).2.2
        rw [hack, acks_eq, hk, decide_eq_true rfl] at hno
        cases hno
    exact hd.hasSector_next ht (hi.drives k) (h.spared hi) (h.waits_spared hi hwaits)
      (h.waits k hwaits) hnext
  · exact (hd.found ht (hi.drives k) (h.spared hi) hst hnext).2

/-- The drive of a transfer keeps its data. -/
theorem data_next (h : Inv s) (hi : s.Steady i) (hdata : s.scanned.ctrl.state = .data)
    (hpulse : s.sd.sdINCSECT = false) (hack : s.sd.rpSDACK = 0)
    (hgoes : phase s.sd.state = .transferring ∨ phase (s.next i).sd.state = .transferring) :
    ((s.next i).drives s.sd.sdSCAN).ctrl.state = .data := by
  obtain ⟨hclr, herr⟩ := hi.undisturbed hgoes
  have hd : s.scanned.HasData s.scannedType := (h.located s.sd.sdSCAN).data hdata
  have hinc : s.scanned.rpINCSECT (s.driveIn i s.sd.sdSCAN) = false := by
    rw [scanned, rpINCSECT_driveIn, ← scanned, hd.rpDMD, hpulse]
    rfl
  have haoe : s.scanned.rpSETAOE s.scannedType (s.driveIn i s.sd.sdSCAN) = false := by
    rw [Rp.rpSETAOE, Rp.rpINCCYL, hinc]
    rfl
  exact RpCtrl.next_data hdata hclr haoe (noAck hack) herr

/-- The address of the drive of a transfer stays between the pulses, and is stepped by them. -/
theorem sector_next (h : Inv s) (hi : s.Steady i) (hdata : s.scanned.ctrl.state = .data) :
    ((s.next i).drives s.sd.sdSCAN).sector s.scannedType =
      s.scanned.sector s.scannedType + s.sd.sdINCSECT.toNat := by
  have hd : s.scanned.HasData s.scannedType := (h.located s.sd.sdSCAN).data hdata
  have hleft : Rp.Left (s.driveIn i s.sd.sdSCAN) := (hi.drives s.sd.sdSCAN).left_of_data hdata
  cases hpulse : s.sd.sdINCSECT with
  | true =>
      exact (Rp.steps_next hd.rpDRY hleft (h.takes hi hpulse)).sector hd.valid
        (RpType.room_getTYPE s.sd.sdSCAN)
  | false =>
      have hinc : s.scanned.rpINCSECT (s.driveIn i s.sd.sdSCAN) = false := by
        rw [scanned, rpINCSECT_driveIn, ← scanned, hd.rpDMD, hpulse]
        rfl
      exact (Rp.holds_next hd.rpDRY hleft hinc).sector

theorem scanned_next (hscan : (s.next i).sd.sdSCAN = s.sd.sdSCAN) :
    (s.next i).scanned = (s.next i).drives s.sd.sdSCAN ∧
      (s.next i).scannedType = s.scannedType := by
  rw [scanned, scannedType, hscan]
  exact ⟨rfl, rfl⟩

/-- The address that the controller takes with a request. -/
theorem toNat_accept (scan : BitVec 3) (lsa : BitVec 21) :
    (0#8 ++ scan ++ lsa).toNat = scan.toNat * 2 ^ 21 + lsa.toNat := by
  rw [BitVec.toNat_append, BitVec.toNat_append, ← Nat.shiftLeft_add_eq_or_of_lt lsa.isLt,
    Nat.shiftLeft_eq]
  simp

/-- The request of a drive is accepted with its address. -/
theorem Inv.accepts (h : Inv s) (hi : s.Steady i) (hfree : Sd.Free s.sd)
    (hphase : phase s.sd.state = .scanning)
    (haccepts : Sd.Accepts s.sd (s.sdIn i) (s.next i).sd) : Agrees (s.next i) := by
  have hdata : s.scanned.ctrl.state = .data := by
    have hreq := haccepts.requested
    rw [requested_eq, RpCtrl.rpSDREQ, beq_iff_eq] at hreq
    exact hreq
  have hpulse : s.sd.sdINCSECT = false := hfree.2.sdINCSECT
  have hsector : s.scanned.HasSector s.scannedType :=
    h.waits s.sd.sdSCAN ⟨by rw [hphase]; decide, Or.inr (Or.inl hphase)⟩ hdata
  obtain ⟨hscanned, htype⟩ := scanned_next haccepts.sdSCAN
  refine .transferring haccepts.phase haccepts.silent.sdINCSECT haccepts.silent.rpSDACK ?_ ?_
  · rw [hscanned]
    exact data_next h hi hdata hpulse hfree.2.rpSDACK (Or.inr haccepts.phase)
  · have hlsa : (s.sdIn i).rpSDLSA.toNat = 2 * s.scanned.sector s.scannedType := hsector
    rw [Addresses, hscanned, htype, sector_next h hi hdata, hpulse, haccepts.sectADDR,
      haccepts.sdSCAN, haccepts.sectCNT, toNat_accept, hlsa]
    simp only [Bool.toNat_false, Nat.add_zero]

/-- The address of the next half, that of the next sector after a second half. -/
theorem sectADDR_succ {sd : Sd} {n : BitVec 3} {k : Nat} (hlt : 2 * k + 1 < 2 ^ 21)
    (h : sd.sectADDR.toNat = n.toNat * 2 ^ 21 + 2 * k + sd.sectCNT.toNat) :
    (sd.sectADDR + 1).toNat =
      n.toNat * 2 ^ 21 + 2 * (k + sd.sectCNT.toNat) + (!sd.sectCNT).toNat := by
  have hn : n.toNat < 8 := n.isLt
  have hcnt : sd.sectCNT.toNat ≤ 1 := Bool.toNat_le sd.sectCNT
  have hsucc : (sd.sectADDR + 1).toNat = sd.sectADDR.toNat + 1 := by
    rw [BitVec.toNat_add_of_lt]
    · rfl
    · change sd.sectADDR.toNat + 1 < 2 ^ 32
      omega
  rw [hsucc, h]
  cases sd.sectCNT with
  | false =>
      simp only [Bool.toNat_false, Bool.not_false, Bool.toNat_true]
      omega
  | true =>
      simp only [Bool.toNat_false, Bool.not_true, Bool.toNat_true]
      omega

/-- A clock of a transfer. -/
theorem Inv.transfers (h : Inv s) (hi : s.Steady i) (hphase : phase s.sd.state = .transferring)
    (hpulse : s.sd.sdINCSECT = false) (hack : s.sd.rpSDACK = 0)
    (hdata : s.scanned.ctrl.state = .data)
    (haddr : s.Addresses (s.scanned.sector s.scannedType)) : Agrees (s.next i) := by
  have hdata' := data_next h hi hdata hpulse hack (Or.inl hphase)
  have hsector := sector_next h hi hdata
  rw [hpulse] at hsector
  cases Sd.next_transferring (i := s.sdIn i) hphase with
  | keeps hk =>
      obtain ⟨hscanned, htype⟩ := scanned_next (i := i) hk.sdSCAN
      refine .transferring hk.phase hk.sdINCSECT hk.rpSDACK (hscanned ▸ hdata') ?_
      rw [Addresses, hscanned, htype, hsector, sd_next, hk.sectADDR, hk.sdSCAN, hk.sectCNT]
      exact haddr
  | counts hc =>
      obtain ⟨hscanned, htype⟩ := scanned_next (i := i) hc.sdSCAN
      refine .counting hc.phase hc.rpSDACK (hscanned ▸ hdata') ?_
      have hlt := ((h.located s.sd.sdSCAN).data hdata).valid.sector_lt
        (RpType.room_getTYPE s.sd.sdSCAN)
      rw [Addresses, hscanned, htype, hsector, sd_next, hc.sectADDR, hc.sdSCAN, hc.sectCNT,
        hc.sdINCSECT]
      exact sectADDR_succ hlt haddr
  | ends he =>
      obtain ⟨hscanned, -⟩ := scanned_next (i := i) he.sdSCAN
      exact .finishing he.phase he.rpSDACK fun _ => hscanned ▸ hdata'
  | fails hf hsilent => exact .free ⟨Or.inr (Or.inr hf), hsilent⟩

theorem Inv.agrees_next (h : Inv s) (hi : s.Steady i) : Agrees (s.next i) := by
  cases h.agrees with
  | free hfree =>
      rcases hfree.1 with hphase | hphase | hphase
      · exact .free (Sd.next_starting hphase)
      · rcases Sd.next_scanning (i := s.sdIn i) hphase with haccepts | ⟨hscan, hsilent⟩
        · exact h.accepts hi hfree hphase haccepts
        · exact .free ⟨Or.inr (Or.inl hscan), hsilent⟩
      · exact .free ⟨Or.inr (Or.inr (Sd.next_failing hphase).1), (Sd.next_failing hphase).2⟩
  | transferring hphase hpulse hack hdata haddr =>
      exact h.transfers hi hphase hpulse hack hdata haddr
  | counting hphase hack hdata haddr =>
      have hk := Sd.next_counting (i := s.sdIn i) hphase
      obtain ⟨hscanned, htype⟩ := scanned_next (i := i) hk.sdSCAN
      refine .deciding hk.phase hk.sdINCSECT hk.rpSDACK ?_
      rw [Addresses, hscanned, htype, sector_next h hi hdata, sd_next, hk.sectADDR, hk.sdSCAN,
        hk.sectCNT]
      exact haddr
  | deciding hphase hpulse hack haddr =>
      rcases Sd.next_deciding (i := s.sdIn i) hphase with
        ⟨hreq, hk⟩ | ⟨-, hfini, hscan, hsilent⟩
      · have hdata : s.scanned.ctrl.state = .data := by
          rw [requested_eq, RpCtrl.rpSDREQ, beq_iff_eq] at hreq
          exact hreq
        obtain ⟨hscanned, htype⟩ := scanned_next (i := i) hk.sdSCAN
        refine .transferring hk.phase hk.sdINCSECT hk.rpSDACK ?_ ?_
        · rw [hscanned]
          exact data_next h hi hdata hpulse hack (Or.inr hk.phase)
        · rw [Addresses, hscanned, htype, sector_next h hi hdata, hpulse, sd_next, hk.sectADDR,
            hk.sdSCAN, hk.sectCNT]
          exact haddr
      · refine .finishing hfini hsilent.rpSDACK fun hyes => ?_
        exact absurd (hsilent.sdINCSECT.symm.trans hyes) Bool.false_ne_true
  | finishing hphase hack hdata =>
      obtain ⟨hnext, hscan, hsilent⟩ := Sd.next_finishing (i := s.sdIn i) hphase
      rcases hnext with hnext | hnext
      · refine .finishing hnext hsilent.rpSDACK fun hyes => ?_
        exact absurd (hsilent.sdINCSECT.symm.trans hyes) Bool.false_ne_true
      · exact .acknowledging hnext hsilent.sdINCSECT hsilent.rpSDACK
  | acknowledging hphase hpulse hack =>
      obtain ⟨hnext, hscan, hacks, hno, -⟩ := Sd.next_acknowledging (i := s.sdIn i) hphase
      refine .acknowledged hnext hno ?_
      rw [sd_next, hscan]
      exact hacks
  | acknowledged hphase hpulse hack =>
      obtain ⟨hscan, hsilent⟩ := Sd.next_acknowledged (i := s.sdIn i) hphase
      exact .free ⟨Or.inr (Or.inl hscan), hsilent⟩

theorem Inv.next (h : Inv s) (hi : s.Steady i) : Inv (s.next i) where
  located k := (h.located k).next (RpType.room_getTYPE k) (hi.drives k) (h.spared hi)
  waits _ hw hnext := h.waits_next hi hw hnext
  agrees := h.agrees_next hi

/-! ## Every run -/

theorem Inv.tracks (h : Inv s) (hi : s.Steady i) : Tracks s i where
  pulse := Sd.next_sdINCSECT
  steps hpulse k := by
    rw [takesPulse, hpulse, Bool.true_and, hi.selected hpulse]
    constructor
    · intro htakes
      rw [Bool.and_eq_true, beq_iff_eq] at htakes
      exact htakes.2.symm
    · rintro rfl
      have hdmd := (h.hasData hpulse).rpDMD
      rw [scanned] at hdmd
      simp [hdmd]
  counts hpulse := by
    rw [sector_next h hi (h.agrees.of_pulse hpulse).2, hpulse]
    rfl
  address hbegins := by
    have hphase := Sd.phase_of_begins hbegins
    cases h.agrees with
    | transferring _ _ _ _ haddr => exact haddr
    | free hfree =>
        rcases hfree.1 with hno | hno | hno <;> cases hphase.symm.trans hno
    | counting hno _ _ _ | deciding hno _ _ _ | finishing hno _ _ | acknowledging hno _ _
    | acknowledged hno _ _ => cases hphase.symm.trans hno

/-- The controller is free, and the drives that have come to their data have the addresses of
their sectors. -/
structure Begins (s : Disks) : Prop where
  free : Sd.Free s.sd
  found : ∀ k, RpCtrl.seeks (s.drives k).ctrl.state = false
  data : ∀ k, (s.drives k).ctrl.state = .data →
    (s.drives k).HasData (RpType.getTYPE k) ∧ (s.drives k).HasSector (RpType.getTYPE k)

theorem Begins.inv (h : Begins s) : Inv s where
  located k :=
    ⟨fun hseeks _ => absurd ((h.found k).symm.trans hseeks) Bool.false_ne_true,
      fun hdata => (h.data k hdata).1⟩
  waits k _ hdata := (h.data k hdata).2
  agrees := .free h.free

/-- As long as every pulse finds its drive selected, the address of each drive follows its
transfers, over tracks and cylinders. -/
theorem tracks_run (s : Disks) (i : Nat → In) (t : Nat) (hs : s.Begins)
    (hi : ∀ u, u ≤ t → (run next s i u).Steady (i u)) : Tracks (run next s i t) (i t) := by
  have hinv : Inv (run next s i t) :=
    run_invariant_of (C := fun s i => s.Steady i) hs.inv (fun _ _ hC h => h.next hC)
      fun u hu => hi u (Nat.le_of_lt hu)
  exact hinv.tracks (hi t (Nat.le_refl t))

/-! ## A pulse for another drive -/

/-- All drives have come to the data of a read, and drive `rhUNIT` is selected. -/
def reading (rhUNIT : BitVec 3) : Disks where
  sd := { Sd.reset with state := .idle }
  drives := fun _ => Watched.drive .data .rd
  rhUNIT := rhUNIT

theorem reading_begins (rhUNIT : BitVec 3) : (reading rhUNIT).Begins where
  free := ⟨Or.inr (Or.inl rfl), rfl, rfl, rfl⟩
  found _ := rfl
  data k _ := by
    refine ⟨⟨rfl, rfl, rfl, rfl, ⟨Nat.zero_le _, Nat.zero_le _, Nat.zero_le _⟩⟩, ?_⟩
    rw [Rp.HasSector, Rp.sector_eq]
    change 0 = 2 * ((0 * _ + 0) * _ + 0)
    simp only [Nat.zero_mul, Nat.add_zero, Nat.mul_zero]

/-- A clock at which the program leaves the drives alone. -/
def calm (spiDONE : Bool) (spiRXD : BitVec 8) (devACKI : Bool) (devDATAI : BitVec 36)
    (rhWC : BitVec 16) : In :=
  { Watched.clocks false 0 with
    spiDONE := spiDONE
    spiRXD := spiRXD
    devACKI := devACKI
    devDATAI := devDATAI
    rhWC := rhWC }

/-- The drives stay as they are. -/
theorem calm_next {done ack : Bool} {rx : BitVec 8} {data : BitVec 36} {wc : BitVec 16}
    (hs : s.drives k = Watched.drive .data .rd) (hpulse : s.sd.sdINCSECT = false)
    (hack : s.sd.rpSDACK = 0) :
    (s.next (calm done rx ack data wc)).drives k = Watched.drive .data .rd := by
  have hin : s.driveIn (calm done rx ack data wc) k =
      { (s.driveIn (calm done rx ack data wc) k) with rhINCSECT := false, rpSDACK := false } := by
    simp only [driveIn, hpulse, noAck hack]
  rw [drives_next, hs, hin]
  rfl

/-- The first clocks of a read. -/
theorem tracks_run_reading :
    Tracks (run next (reading 0) (Watched.clocks false) 2) (Watched.clocks false 2) := by
  refine tracks_run (reading 0) (Watched.clocks false) 2 (reading_begins 0) fun u hu => ?_
  have hdrives (k : BitVec 3) :
      (run next (reading 0) (Watched.clocks false) u).drives k = Watched.drive .data .rd := by
    obtain rfl | rfl | rfl : u = 0 ∨ u = 1 ∨ u = 2 := by omega
    · rfl
    · exact calm_next rfl rfl rfl
    · exact calm_next (calm_next rfl rfl rfl) rfl rfl
  have hpulse : (run next (reading 0) (Watched.clocks false) u).sd.sdINCSECT = false := by
    obtain rfl | rfl | rfl : u = 0 ∨ u = 1 ∨ u = 2 := by omega
    · rfl
    · rfl
    · rfl
  refine ⟨fun hyes => absurd (hpulse.symm.trans hyes) Bool.false_ne_true, fun _ => ⟨rfl, rfl⟩,
    fun k => ?_⟩
  rw [hdrives k]
  exact ⟨fun _ => ⟨rfl, rfl⟩, fun hyes => absurd hyes Bool.false_ne_true,
    fun hst => nomatch hst⟩

/-- The controller works for drive `k` and has not acknowledged it, or it has failed. -/
structure Serves (k : BitVec 3) (sd : Sd) : Prop where
  ack : sd.rpSDACK = 0
  serves : sd.sdSCAN = k ∧ (phase sd.state = .transferring ∨ phase sd.state = .counting ∨
      phase sd.state = .deciding ∨ phase sd.state = .finishing ∨
      phase sd.state = .acknowledging) ∨
    phase sd.state = .failed ∧ sd.sdINCSECT = false

theorem state_of_acknowledged {sd : Sd} (h : phase sd.state = .acknowledged) :
    sd.state = .done := by
  cases hst : sd.state
  case done => rfl
  all_goals
    rw [hst] at h
    cases h

theorem Serves.next {sd : Sd} {i : Sd.In} (h : Serves k sd) (hrun : (sd.next i).state ≠ .done) :
    Serves k (sd.next i) := by
  rcases h.serves with ⟨rfl, hphase | hphase | hphase | hphase | hphase⟩ | ⟨hphase, -⟩
  · cases Sd.next_transferring (i := i) hphase with
    | keeps hk => exact ⟨hk.rpSDACK, Or.inl ⟨hk.sdSCAN, Or.inl hk.phase⟩⟩
    | counts hc => exact ⟨hc.rpSDACK, Or.inl ⟨hc.sdSCAN, Or.inr (Or.inl hc.phase)⟩⟩
    | ends he =>
        exact ⟨he.rpSDACK, Or.inl ⟨he.sdSCAN, Or.inr (Or.inr (Or.inr (Or.inl he.phase)))⟩⟩
    | fails hf hsilent => exact ⟨hsilent.rpSDACK, Or.inr ⟨hf, hsilent.sdINCSECT⟩⟩
  · have hk := Sd.next_counting (i := i) hphase
    exact ⟨hk.rpSDACK, Or.inl ⟨hk.sdSCAN, Or.inr (Or.inr (Or.inl hk.phase))⟩⟩
  · rcases Sd.next_deciding (i := i) hphase with ⟨-, hk⟩ | ⟨-, hfini, hscan, hsilent⟩
    · exact ⟨hk.rpSDACK, Or.inl ⟨hk.sdSCAN, Or.inl hk.phase⟩⟩
    · exact ⟨hsilent.rpSDACK, Or.inl ⟨hscan, Or.inr (Or.inr (Or.inr (Or.inl hfini)))⟩⟩
  · obtain ⟨hnext, hscan, hsilent⟩ := Sd.next_finishing (i := i) hphase
    exact ⟨hsilent.rpSDACK, Or.inl ⟨hscan, Or.inr (Or.inr (Or.inr hnext))⟩⟩
  · exact absurd (state_of_acknowledged (Sd.next_acknowledging (i := i) hphase).1) hrun
  · obtain ⟨hfailed, hsilent⟩ := Sd.next_failing (i := i) hphase
    exact ⟨hsilent.rpSDACK, Or.inr ⟨hfailed, hsilent.sdINCSECT⟩⟩

/-- The bus and the card of the read. -/
def readEnv : Xfer.Env := { Xfer.Env.prompt fun _ => 0 with rpSDOP := .rd }

/-- A read of one word of drive 0, as it begins. -/
def firstRead : Xfer :=
  { Xfer.accepted .read00 true 0 1 { addr := 0 } fun _ _ => 0 with
    sd := ((reading 1).next (Watched.clocks false 0)).sd }

theorem firstRead_starts : Xfer.Starts .read00 true 0 1 firstRead :=
  Xfer.accepted_with rfl rfl rfl rfl (by decide : SpiOp.nop ≠ .tr) rfl rfl rfl rfl

/-- The read after `u` clocks. -/
def readAt (u : Nat) : Xfer := (Xfer.step readEnv)^[u] firstRead

theorem sd_readAt_succ (u : Nat) :
    (readAt (u + 1)).sd = (readAt u).sd.next ((readAt u).sdIn readEnv) := by
  rw [readAt, Function.iterate_succ_apply']
  rfl

/-- All drives have their data, and drive 1 is selected. -/
def allReading (sd : Sd) : Disks where
  sd := sd
  drives := fun _ => Watched.drive .data .rd
  rhUNIT := 1

theorem allReading_next {sd : Sd} {done ack : Bool} {rx : BitVec 8} {data : BitVec 36}
    {wc : BitVec 16} (hpulse : sd.sdINCSECT = false) (hack : sd.rpSDACK = 0) :
    (allReading sd).next (calm done rx ack data wc) =
      allReading (sd.next ((allReading sd).sdIn (calm done rx ack data wc))) := by
  have hdrives : ((allReading sd).next (calm done rx ack data wc)).drives =
      fun _ => Watched.drive .data .rd :=
    funext fun k => calm_next rfl hpulse hack
  exact congrArg (fun d => ({
    sd := sd.next ((allReading sd).sdIn (calm done rx ack data wc))
    drives := d
    rhUNIT := 1 } : Disks)) hdrives

/-- What the bus and the card give to the read. -/
def given (x : Xfer) : In :=
  calm (x.sdIn readEnv).spiDONE (x.sdIn readEnv).spiRXD (x.sdIn readEnv).devACKI
    (x.sdIn readEnv).devDATAI (x.sdIn readEnv).rhWC

theorem sdIn_given {x : Xfer} : (allReading x.sd).sdIn (given x) = x.sdIn readEnv := by
  have hreq : vector (fun _ => true) = BitVec.allOnes 8 := by decide
  have hreq' : ((allReading x.sd).sdIn (given x)).rpSDREQ = (x.sdIn readEnv).rpSDREQ := hreq
  calc (allReading x.sd).sdIn (given x)
      = { (x.sdIn readEnv) with rpSDREQ := ((allReading x.sd).sdIn (given x)).rpSDREQ } := rfl
    _ = x.sdIn readEnv := by rw [hreq']

/-- The read, as the drives see it. -/
def oneRead : Nat → In
  | 0 => Watched.clocks false 0
  | u + 1 => given (readAt u)

/-- The controller of the drives does what the controller of the read does. -/
theorem run_oneRead {t : Nat} (h : ∀ u, u < t → (readAt u).sd.sdINCSECT = false ∧
    (readAt u).sd.rpSDACK = 0) :
    run next (reading 1) oneRead (t + 1) = allReading (readAt t).sd := by
  induction t with
  | zero => exact allReading_next rfl rfl
  | succ t ih =>
      obtain ⟨hpulse, hack⟩ := h t (Nat.lt_succ_self t)
      rw [run_succ, ih fun u hu => h u (Nat.lt_succ_of_lt hu), sd_readAt_succ]
      refine (allReading_next hpulse hack).trans ?_
      exact congrArg (fun i => allReading ((readAt t).sd.next i)) sdIn_given

/-- A read of drive `k` comes to its first pulse, and up to this the controller works for the
drive. -/
theorem exists_pulse {env : Xfer.Env} {x : Xfer} {a : BitVec 32} {r : Nat}
    (hx : Xfer.Starts .read00 true a r x) (hr : r < 2 ^ 15) (hgo : ¬ Xfer.stops env a r 0)
    (hserves : Serves k x.sd) :
    ∃ t, ((Xfer.step env)^[t] x).sd.sdINCSECT = true ∧
      (∀ u, u < t → ((Xfer.step env)^[u] x).sd.sdINCSECT = false) ∧
      ∀ u, u ≤ t → Serves k ((Xfer.step env)^[u] x).sd := by
  have hsucc (u : Nat) : ((Xfer.step env)^[u + 1] x).sd =
      ((Xfer.step env)^[u] x).sd.next (((Xfer.step env)^[u] x).sdIn env) := by
    rw [Function.iterate_succ_apply']
    rfl
  have hhalves : Xfer.Comes env (Xfer.ReadHalf env x a r 0) (Xfer.ReadHalfDone env x a r 1) :=
    (Xfer.read_next hr hgo).trans (Xfer.read_half hr)
  have hstart : Xfer.ReadHalf env x a r 0 x := Nat.mod_eq_of_lt hr ▸ hx.readHalf
  obtain ⟨n, ⟨v, rx, hhalf, -, -, -, hs⟩, hrun⟩ := hhalves x hstart
  have hcnt : ((Xfer.step env)^[n] x).sd.sectCNT = true := by
    have hv : ((Xfer.step env)^[n] x).sd.sectCNT = v.sectCNT := by
      rw [← hs.view]
      rfl
    rw [hv, hhalf.sectCNT]
    rfl
  have hpulse : ((Xfer.step env)^[n + 1] x).sd.sdINCSECT = true := by
    have hE := Xfer.read_ends.count ((Xfer.step env)^[n] x).sd
      (((Xfer.step env)^[n] x).sdIn env) hs.state
    have hdone : (((Xfer.step env)^[n] x).sdIn env).spiDONE = true := hs.isDone
    rw [Sd.onDone, if_pos hdone] at hE
    rw [hsucc, hE, Sd.endSector]
    split
    · exact hcnt
    · exact hcnt
  obtain ⟨t, ht, hfirst⟩ :=
    exists_first (p := fun t => ((Xfer.step env)^[t] x).sd.sdINCSECT = true) ⟨n + 1, hpulse⟩
  have hle : t ≤ n + 1 := by
    by_contra hgt
    exact hfirst (n + 1) (Nat.lt_of_not_le hgt) hpulse
  have hdone (u : Nat) (hu : u ≤ n + 1) : ((Xfer.step env)^[u] x).sd.state ≠ .done := by
    intro hst
    rcases Nat.lt_or_eq_of_le hu with hlt | rfl
    · rcases Nat.lt_or_eq_of_le (Nat.le_of_lt_succ hlt) with hlt | rfl
      · exact hrun u hlt hst
      · cases hs.state.symm.trans hst
    · -- The controller gives a pulse, and the state `done` gives none.
      rw [hsucc] at hpulse hst
      rw [Sd.next_sdINCSECT, hst] at hpulse
      simp [phase] at hpulse
  refine ⟨t, ht, fun u hu => Bool.not_eq_true _ ▸ hfirst u hu, fun u hu => ?_⟩
  have hu' : u ≤ n + 1 := Nat.le_trans hu hle
  clear hu
  induction u with
  | zero => exact hserves
  | succ u ih =>
      rw [hsucc]
      refine (ih (Nat.le_of_succ_le hu')).next ?_
      rw [← hsucc]
      exact hdone (u + 1) hu'

/-- The first pulse of the read finds drive 1 selected. -/
theorem tracks_fails : ¬ ∀ (s : Disks) (i : Nat → In) (t : Nat), s.Begins →
    Tracks (run next s i t) (i t) := by
  intro h
  have hgo : ¬ Xfer.stops readEnv 0 1 0 := by
    rintro (⟨hodd, -⟩ | hreq)
    · cases hodd
    · cases hreq
  obtain ⟨t, ht, hfirst, hserves⟩ : ∃ t, (readAt t).sd.sdINCSECT = true ∧
      (∀ u, u < t → (readAt u).sd.sdINCSECT = false) ∧ ∀ u, u ≤ t → Serves 0 (readAt u).sd :=
    exists_pulse firstRead_starts (by decide) hgo ⟨rfl, Or.inl ⟨rfl, Or.inl rfl⟩⟩
  have hstate : run next (reading 1) oneRead (t + 1) = allReading (readAt t).sd :=
    run_oneRead fun u hu => ⟨hfirst u hu, (hserves u (Nat.le_of_lt hu)).ack⟩
  have hsteps := (h (reading 1) oneRead (t + 1) (reading_begins 1)).steps
  rw [hstate] at hsteps
  have hscan : (1 : BitVec 3) = (readAt t).sd.sdSCAN := by
    refine (hsteps ht 1).mp ?_
    rw [takesPulse, show (allReading (readAt t).sd).sd.sdINCSECT = true from ht]
    rfl
  rcases (hserves t (Nat.le_refl t)).serves with ⟨hzero, -⟩ | ⟨-, hno⟩
  · rw [hzero] at hscan
    cases hscan
  · exact Bool.false_ne_true (hno.symm.trans ht)

end Disks

end KS10
