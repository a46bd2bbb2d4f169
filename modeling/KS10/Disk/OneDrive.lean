import KS10.Disk.Address

/-!
# A drive of any geometry with the SD controller

`RpAoe` is one drive with its address overflow error, the SD controller and the word count; the
requests of the other seven drives are inputs.  The drive counts its address at the pulses that
the controller gives at the end of a sector, and leaves its data when the address runs over the
end of the disk; the controller sees this at the request, two clocks after the pulse.

As long as the pulses find the right drive selected and nothing else ends a transfer, the drive
and the controller agree on the address of every half sector (`Inv.next`), for every geometry
that the registers have room for.
-/

namespace KS10

open Clocked

/-- One drive, its address overflow error, the SD controller and the word count. -/
structure RpAoe where
  sd : Sd
  d : Rp
  rpAOE : Bool
  wc : RhWc

/-- The inputs of one clock.  The class B errors of `rp` are all but the address overflow, and
the requests of `sd` are those of the other drives. -/
structure RpAoe.In where
  rp : Rp.In
  rper1WRITE : Bool
  sd : Sd.In
  wc : RhWc.In

namespace RpAoe

open Sd (phase)

section Model

variable (t : RpType) (n : BitVec 3) (s : RpAoe) (i : In)

def rpCLBERR : Bool := i.rp.rpCLBERR || s.rpAOE

/-- What drive `n` gets from the controller. -/
def rpIn : Rp.In :=
  { i.rp with
    rhINCSECT := s.sd.sdINCSECT
    rpCLBERR := s.rpCLBERR i
    rpSDACK := s.sd.rpSDACK.getLsbD n.toNat }

/-- The controller sees drive `n` as it scans it. -/
def sdIn : Sd.In :=
  { i.sd with
    rhWC := s.wc.rhWC
    rpSDOP := if s.sd.sdSCAN = n then s.d.ctrl.rpSDOP else i.sd.rpSDOP
    rpSDLSA := if s.sd.sdSCAN = n then s.d.addr.rpSDLSA else i.sd.rpSDLSA
    rpSDREQ := Disks.vector fun k =>
      if k = n then s.d.ctrl.rpSDREQ else i.sd.rpSDREQ.getLsbD k.toNat }

def wcIn : RhWc.In := { i.wc with rhINCWC := s.sd.sdINCWC }

def rpSETAOE : Bool := s.d.rpSETAOE t (s.rpIn n i)

def nextAOE : Bool :=
  if i.rp.clr || Rp.rpDRVCLR i.rp then false
  else if s.rpSETAOE t n i then true
  else if s.d.writes i.rp i.rper1WRITE then i.rp.rpDATAI.getLsbD 9
  else s.rpAOE

/-- One clock. -/
def next : RpAoe where
  sd := s.sd.next (s.sdIn n i)
  d := s.d.next t (s.rpIn n i)
  rpAOE := s.nextAOE t n i
  wc := s.wc.next (s.wcIn i)

/-! ## The condition -/

/-- The controller carries out a transfer of the drive. -/
def serves : Bool :=
  s.sd.sdSCAN == n && (phase s.sd.state == .transferring || phase s.sd.state == .counting ||
    phase s.sd.state == .deciding)

/-- The controller works for the drive, or begins to. -/
def Works : Prop :=
  s.sd.sdSCAN = n ∧ (s.serves n = true ∨ s.sd.sdINCSECT = true ∨
    phase (s.next t n i).sd.state = .transferring)

/-- The pulse finds the drive selected that is transferred; the transfer is not cleared, and
meets no other error; and the drive is steady. -/
structure Steady : Prop where
  selected : s.sd.sdINCSECT = true → i.rp.rpSELECT = (s.sd.sdSCAN == n)
  undisturbed : s.Works t n i →
    i.rp.clr = false ∧ Rp.rpDRVCLR i.rp = false ∧ i.rp.rpCLBERR = false
  drive : s.d.Steady t (s.rpIn n i)

/-- The controller is free; a drive that has come to its data has the address of a sector of
the disk, and no address overflow. -/
structure Begins : Prop where
  free : Sd.Free s.sd
  found : RpCtrl.seeks s.d.ctrl.state = false
  data : s.d.ctrl.state = .data → s.d.HasData t ∧ s.d.HasSector t ∧ s.rpAOE = false

end Model

variable {t : RpType} {n : BitVec 3} {s : RpAoe} {i j : In}

/-! ## The invariant -/

/-- The pulse and the acknowledge of the controller come in their phases. -/
structure Signals (sd : Sd) : Prop where
  pulse : sd.sdINCSECT = true → phase sd.state = .counting ∨ phase sd.state = .finishing
  ack : phase sd.state ≠ .acknowledged → sd.rpSDACK = 0

/-- The sector address is that of a half of sector number `k` of the drive. -/
def Addresses (n : BitVec 3) (s : RpAoe) (k : Nat) : Prop :=
  s.sd.sectADDR.toNat = n.toNat * 2 ^ 21 + 2 * k + s.sd.sectCNT.toNat

/-- What holds of the controller and the drive, in each phase of a transfer of the drive. -/
inductive Agrees (t : RpType) (n : BitVec 3) (s : RpAoe) : Prop where
  | away (h : s.sd.sdSCAN ≠ n ∨ phase s.sd.state = .starting ∨ phase s.sd.state = .scanning ∨
      phase s.sd.state = .failed)
  | transferring (hscan : s.sd.sdSCAN = n) (hphase : phase s.sd.state = .transferring)
      (hdata : s.d.ctrl.state = .data) (haddr : s.Addresses n (s.d.sector t))
  | counting (hscan : s.sd.sdSCAN = n) (hphase : phase s.sd.state = .counting)
      (hdata : s.d.ctrl.state = .data)
      (haddr : s.Addresses n (s.d.sector t + s.sd.sdINCSECT.toNat))
  | deciding (hscan : s.sd.sdSCAN = n) (hphase : phase s.sd.state = .deciding)
      (hdry : s.d.ctrl.rpDRY = false) (hdmd : s.d.rpDMD = false)
      (haddr : s.Addresses n (s.d.sector t))
  | ended (hscan : s.sd.sdSCAN = n) (hphase : phase s.sd.state = .finishing ∨
        phase s.sd.state = .acknowledging ∨ phase s.sd.state = .acknowledged)
      (hdata : s.sd.sdINCSECT = true → s.d.ctrl.state = .data)
      (hack : phase s.sd.state = .acknowledged → s.sd.rpSDACK = 1#8 <<< n.toNat)

/-- The controller has not accepted the request of the drive, and may accept it. -/
def Waits (n : BitVec 3) (s : RpAoe) : Prop :=
  phase s.sd.state ≠ .failed ∧
    (phase s.sd.state = .starting ∨ phase s.sd.state = .scanning ∨ s.sd.sdSCAN ≠ n)

/-- The drive has the address of its sector when it comes to its data, and the controller
agrees with it. -/
structure Inv (t : RpType) (n : BitVec 3) (s : RpAoe) : Prop where
  located : s.d.Located t
  signals : Signals s.sd
  clear : s.d.ctrl.state = .data → s.rpAOE = false
  waits : s.Waits n → s.d.ctrl.state = .data → s.d.HasSector t
  agrees : Agrees t n s

theorem Signals.next (sd : Sd) (i : Sd.In) : Signals (sd.next i) where
  pulse hpulse := by
    rw [Sd.next_sdINCSECT, Bool.and_eq_true, Bool.or_eq_true, beq_iff_eq, beq_iff_eq] at hpulse
    exact hpulse.2
  ack hne := by
    rw [Sd.next_rpSDACK, if_neg]
    exact fun hphase => hne (Sd.next_acknowledging hphase).1

theorem Signals.of_silent {sd : Sd} (h : Sd.Silent sd) : Signals sd where
  pulse hpulse := absurd (h.sdINCSECT.symm.trans hpulse) Bool.false_ne_true
  ack _ := h.rpSDACK

/-- Only two phases have a pulse. -/
theorem Signals.no_pulse {sd : Sd} (h : Signals sd) {p : Sd.Phase} (hphase : phase sd.state = p)
    (hp : p ≠ .counting ∧ p ≠ .finishing) : sd.sdINCSECT = false := by
  rw [← Bool.not_eq_true]
  intro hpulse
  rcases h.pulse hpulse with hcounting | hfinishing
  · exact hp.1 (hphase.symm.trans hcounting)
  · exact hp.2 (hphase.symm.trans hfinishing)

theorem Begins.inv (h : s.Begins t) : Inv t n s where
  located := ⟨fun hseeks _ => absurd (h.found.symm.trans hseeks) Bool.false_ne_true,
    fun hdata => (h.data hdata).1⟩
  signals := .of_silent h.free.2
  clear hdata := (h.data hdata).2.2
  waits _ hdata := (h.data hdata).2.1
  agrees := .away (Or.inr h.free.1)

/-! ## What the drive sees -/

theorem rpINCSECT_rpIn (hdmd : s.d.rpDMD = false) :
    s.d.rpINCSECT (s.rpIn n i) = (s.sd.sdINCSECT && i.rp.rpSELECT) := by
  rw [Rp.rpINCSECT, hdmd]
  rfl

/-- The drive counts the sectors that the controller transfers for it. -/
theorem Steady.rpINCSECT_eq (hi : s.Steady t n i) (hdmd : s.d.rpDMD = false) :
    s.d.rpINCSECT (s.rpIn n i) = (s.sd.sdINCSECT && s.sd.sdSCAN == n) := by
  rw [rpINCSECT_rpIn hdmd]
  cases hpulse : s.sd.sdINCSECT with
  | false => rfl
  | true => rw [hi.selected hpulse]

/-- A pulse for the drive finds it in its data. -/
theorem Inv.data_of_pulse (h : Inv t n s) (hpulse : s.sd.sdINCSECT = true)
    (hscan : s.sd.sdSCAN = n) : s.d.ctrl.state = .data := by
  have hno {p : Sd.Phase} (hphase : phase s.sd.state = p)
      (hp : p ≠ .counting ∧ p ≠ .finishing) : False :=
    Bool.false_ne_true ((h.signals.no_pulse hphase hp).symm.trans hpulse)
  cases h.agrees with
  | away haway =>
      rcases haway with hne | hphase | hphase | hphase
      · exact absurd hscan hne
      · exact (hno hphase (by decide)).elim
      · exact (hno hphase (by decide)).elim
      · exact (hno hphase (by decide)).elim
  | transferring _ _ hdata _ | counting _ _ hdata _ => exact hdata
  | deciding _ hphase _ _ _ => exact (hno hphase (by decide)).elim
  | ended _ _ hdata _ => exact hdata hpulse

theorem Inv.spared (h : Inv t n s) (hi : s.Steady t n i) : s.d.Spared (s.rpIn n i) := by
  intro hseeks hop
  have hsearch := h.located.searches hseeks hop
  cases hdmd : s.d.rpDMD with
  | true =>
      rw [Rp.rpINCSECT, hdmd, if_pos rfl]
      exact hsearch.rpEBL
  | false =>
      rw [hi.rpINCSECT_eq hdmd, Bool.and_eq_false_imp]
      intro hpulse
      rw [beq_eq_false_iff_ne]
      intro hscan
      rw [h.data_of_pulse hpulse hscan] at hseeks
      cases hseeks

/-- No pulse counts the sector of a drive that waits. -/
theorem Inv.waits_spared (h : Inv t n s) (hi : s.Steady t n i) (hw : s.Waits n)
    (hdata : s.d.ctrl.state = .data) : s.d.rpINCSECT (s.rpIn n i) = false := by
  rw [hi.rpINCSECT_eq (h.located.data hdata).rpDMD]
  rcases hw.2 with hphase | hphase | hne
  · rw [h.signals.no_pulse hphase (by decide), Bool.false_and]
  · rw [h.signals.no_pulse hphase (by decide), Bool.false_and]
  · rw [beq_eq_false_iff_ne.mpr hne, Bool.and_false]

theorem sd_next : (s.next t n i).sd = s.sd.next (s.sdIn n i) := rfl

/-- A drive that comes to its data, or keeps it, has no address overflow. -/
theorem Inv.clear_next (h : Inv t n s) (hi : s.Steady t n i)
    (hnext : (s.next t n i).d.ctrl.state = .data) : (s.next t n i).rpAOE = false := by
  have hstays (haoe : s.rpSETAOE t n i = false) (hdry : s.d.ctrl.rpDRY = false)
      (hclear : s.rpAOE = false) : s.nextAOE t n i = false := by
    rw [nextAOE, haoe, Rp.writes_busy hdry, hclear]
    simp only [Bool.false_eq_true, if_false, ite_self]
  by_cases hst : s.d.ctrl.state = .data
  · exact hstays (RpCtrl.kept_of_next hst hnext).2.1 (h.located.data hst).rpDRY (h.clear hst)
  · obtain ⟨hsearch, -, hop, -, herr, -, -⟩ := RpCtrl.found_of_next hst hnext
    have hseeks : RpCtrl.seeks s.d.ctrl.state = true := by
      rw [hsearch]
      rfl
    have hinc := h.spared hi hseeks hop
    refine hstays ?_ (h.located.searches hseeks hop).rpDRY ?_
    · rw [rpSETAOE, Rp.rpSETAOE, Rp.rpINCCYL, hinc]
      rfl
    · exact (Bool.or_eq_false_iff.mp herr).2

/-- The controller sees the request of the drive. -/
theorem requested_eq (hscan : s.sd.sdSCAN = n) :
    s.sd.requested (s.sdIn n i) = s.d.ctrl.rpSDREQ := by
  change (Disks.vector fun k => if k = n then s.d.ctrl.rpSDREQ
    else i.sd.rpSDREQ.getLsbD k.toNat).getLsbD s.sd.sdSCAN.toNat = _
  rw [Disks.vector_getLsbD, if_pos hscan]

theorem data_of_requested (hscan : s.sd.sdSCAN = n)
    (hreq : s.sd.requested (s.sdIn n i) = true) : s.d.ctrl.state = .data := by
  rw [requested_eq hscan, RpCtrl.rpSDREQ, beq_iff_eq] at hreq
  exact hreq

/-! ## One clock -/

/-- The controller goes on with the drive. -/
theorem not_waits {p : Sd.Phase} (hscan : s.sd.sdSCAN = n) (hphase : phase s.sd.state = p)
    (hp : p ≠ .starting ∧ p ≠ .scanning) : ¬ s.Waits n := by
  rintro ⟨-, hno | hno | hne⟩
  · exact hp.1 (hphase.symm.trans hno)
  · exact hp.2 (hphase.symm.trans hno)
  · exact hne hscan

/-- A drive that waits after a clock has waited before, unless it has just been
acknowledged. -/
theorem Inv.waits_of_next (h : Inv t n s) (hw : (s.next t n i).Waits n) :
    s.Waits n ∨ s.sd.rpSDACK = 1#8 <<< n.toNat := by
  have hfailed : phase s.sd.state ≠ .failed := fun hf => hw.1 (Sd.next_failing hf).1
  cases h.agrees with
  | away haway =>
      refine Or.inl ⟨hfailed, ?_⟩
      rcases haway with hne | hp | hp | hp
      · exact Or.inr (Or.inr hne)
      · exact Or.inl hp
      · exact Or.inr (Or.inl hp)
      · exact absurd hp hfailed
  | transferring hscan hphase _ _ =>
      cases Sd.next_transferring (i := s.sdIn n i) hphase with
      | keeps hk => exact absurd hw (not_waits (hk.sdSCAN.trans hscan) hk.phase (by decide))
      | counts hc => exact absurd hw (not_waits (hc.sdSCAN.trans hscan) hc.phase (by decide))
      | ends he => exact absurd hw (not_waits (he.sdSCAN.trans hscan) he.phase (by decide))
      | fails hf _ => exact absurd hf hw.1
  | counting hscan hphase _ _ =>
      have hk := Sd.next_counting (i := s.sdIn n i) hphase
      exact absurd hw (not_waits (hk.sdSCAN.trans hscan) hk.phase (by decide))
  | deciding hscan hphase _ _ _ =>
      rcases Sd.next_deciding (i := s.sdIn n i) hphase with ⟨-, hk⟩ | ⟨-, hfini, hsame, -⟩
      · exact absurd hw (not_waits (hk.sdSCAN.trans hscan) hk.phase (by decide))
      · exact absurd hw (not_waits (hsame.trans hscan) hfini (by decide))
  | ended hscan hphase _ hack =>
      rcases hphase with hphase | hphase | hphase
      · obtain ⟨hnext | hnext, hsame, -⟩ := Sd.next_finishing (i := s.sdIn n i) hphase
        · exact absurd hw (not_waits (hsame.trans hscan) hnext (by decide))
        · exact absurd hw (not_waits (hsame.trans hscan) hnext (by decide))
      · obtain ⟨hnext, hsame, -⟩ := Sd.next_acknowledging (i := s.sdIn n i) hphase
        exact absurd hw (not_waits (hsame.trans hscan) hnext (by decide))
      · exact Or.inr (hack hphase)

theorem Inv.waits_next (h : Inv t n s) (ht : t.Room) (hi : s.Steady t n i)
    (hw : (s.next t n i).Waits n) (hnext : (s.next t n i).d.ctrl.state = .data) :
    (s.next t n i).d.HasSector t := by
  by_cases hst : s.d.ctrl.state = .data
  · have hwaits : s.Waits n := by
      rcases h.waits_of_next hw with hwaits | hack
      · exact hwaits
      · -- The acknowledge has ended the command.
        have hno : s.sd.rpSDACK.getLsbD n.toNat = false := (RpCtrl.kept_of_next hst hnext).2.2
        rw [hack, Disks.acks_eq, decide_eq_true rfl] at hno
        cases hno
    exact h.located.hasSector_next ht hi.drive (h.spared hi) (h.waits_spared hi hwaits)
      (h.waits hwaits) hnext
  · exact (h.located.found ht hi.drive (h.spared hi) hst hnext).2

/-- The drive of a transfer keeps its data. -/
theorem Inv.data_next (h : Inv t n s) (hi : s.Steady t n i) (hworks : s.Works t n i)
    (hdata : s.d.ctrl.state = .data) (hpulse : s.sd.sdINCSECT = false)
    (hphase : phase s.sd.state ≠ .acknowledged) : (s.next t n i).d.ctrl.state = .data := by
  obtain ⟨hclr, -, herr⟩ := hi.undisturbed hworks
  have hinc : s.d.rpINCSECT (s.rpIn n i) = false := by
    rw [hi.rpINCSECT_eq (h.located.data hdata).rpDMD, hpulse, Bool.false_and]
  have haoe : s.d.rpSETAOE t (s.rpIn n i) = false := by
    rw [Rp.rpSETAOE, Rp.rpINCCYL, hinc]
    rfl
  have hack : s.sd.rpSDACK.getLsbD n.toNat = false := by
    rw [h.signals.ack hphase]
    exact BitVec.getLsbD_zero
  have hclb : s.rpCLBERR i = false := Bool.or_eq_false_iff.mpr ⟨herr, h.clear hdata⟩
  exact RpCtrl.next_data hdata hclr haoe hack hclb

/-- The address of the drive of a transfer is counted by the pulses. -/
theorem Inv.sector_next (h : Inv t n s) (ht : t.Room) (hi : s.Steady t n i)
    (hdata : s.d.ctrl.state = .data) (hscan : s.sd.sdSCAN = n) :
    (s.next t n i).d.sector t = s.d.sector t + s.sd.sdINCSECT.toNat := by
  have hd := h.located.data hdata
  have hleft := hi.drive.left_of_data hdata
  have hinc := hi.rpINCSECT_eq hd.rpDMD
  rw [hscan, beq_self_eq_true, Bool.and_true] at hinc
  cases hpulse : s.sd.sdINCSECT with
  | true => exact (Rp.steps_next hd.rpDRY hleft (hinc.trans hpulse)).sector hd.valid ht
  | false => exact (Rp.holds_next hd.rpDRY hleft (hinc.trans hpulse)).sector

/-- The request of the drive is accepted with its address. -/
theorem Inv.accepts (h : Inv t n s) (ht : t.Room) (hi : s.Steady t n i)
    (hscan : s.sd.sdSCAN = n) (hphase : phase s.sd.state = .scanning)
    (haccepts : Sd.Accepts s.sd (s.sdIn n i) (s.next t n i).sd) : Agrees t n (s.next t n i) := by
  have hdata : s.d.ctrl.state = .data := data_of_requested hscan haccepts.requested
  have hworks : s.Works t n i := ⟨hscan, Or.inr (Or.inr haccepts.phase)⟩
  have hpulse : s.sd.sdINCSECT = false := h.signals.no_pulse hphase (by decide)
  have hlsa : s.d.addr.rpSDLSA.toNat = 2 * s.d.sector t :=
    h.waits ⟨by rw [hphase]; decide, Or.inr (Or.inl hphase)⟩ hdata
  refine .transferring (haccepts.sdSCAN.trans hscan) haccepts.phase ?_ ?_
  · exact h.data_next hi hworks hdata hpulse (by rw [hphase]; decide)
  · have hin : (s.sdIn n i).rpSDLSA = s.d.addr.rpSDLSA := if_pos hscan
    rw [Addresses, h.sector_next ht hi hdata hscan, hpulse, haccepts.sectADDR, haccepts.sectCNT,
      Disks.toNat_accept, hin, hlsa, hscan]
    simp only [Bool.toNat_false, Nat.add_zero]

/-- A clock of a transfer. -/
theorem Inv.transfers (h : Inv t n s) (ht : t.Room) (hi : s.Steady t n i)
    (hscan : s.sd.sdSCAN = n) (hphase : phase s.sd.state = .transferring)
    (hdata : s.d.ctrl.state = .data) (haddr : s.Addresses n (s.d.sector t)) :
    Agrees t n (s.next t n i) := by
  have hworks : s.Works t n i := by
    refine ⟨hscan, Or.inl ?_⟩
    rw [serves, hscan, hphase, beq_self_eq_true]
    rfl
  have hpulse : s.sd.sdINCSECT = false := h.signals.no_pulse hphase (by decide)
  have hdata' := h.data_next hi hworks hdata hpulse (by rw [hphase]; decide)
  have hsector := h.sector_next ht hi hdata hscan
  rw [hpulse, Bool.toNat_false, Nat.add_zero] at hsector
  cases Sd.next_transferring (i := s.sdIn n i) hphase with
  | keeps hk =>
      refine .transferring (hk.sdSCAN.trans hscan) hk.phase hdata' ?_
      rw [Addresses, hsector, sd_next, hk.sectADDR, hk.sectCNT]
      exact haddr
  | counts hc =>
      refine .counting (hc.sdSCAN.trans hscan) hc.phase hdata' ?_
      rw [Addresses, hsector, sd_next, hc.sectADDR, hc.sectCNT, hc.sdINCSECT]
      exact Disks.sectADDR_succ ((h.located.data hdata).valid.sector_lt ht) haddr
  | ends he =>
      refine .ended (he.sdSCAN.trans hscan) (Or.inl he.phase) (fun _ => hdata') fun hack => ?_
      cases he.phase.symm.trans hack
  | fails hf _ => exact .away (Or.inr (Or.inr (Or.inr hf)))

/-- A drive in its data does not become ready without a clear. -/
theorem rpDRY_next {c : RpCtrl} {ci : RpCtrl.In} (hst : c.state = .data) (hclr : ci.clr = false) :
    (c.next ci).rpDRY = c.rpDRY := by
  rw [RpCtrl.next, if_neg (by rw [hclr]; exact Bool.false_ne_true), hst]
  simp only
  split
  · rfl
  · rfl

/-- The controller decides whether to go on. -/
theorem Inv.counts (h : Inv t n s) (ht : t.Room) (hi : s.Steady t n i)
    (hscan : s.sd.sdSCAN = n) (hphase : phase s.sd.state = .counting)
    (hdata : s.d.ctrl.state = .data)
    (haddr : s.Addresses n (s.d.sector t + s.sd.sdINCSECT.toNat)) :
    Agrees t n (s.next t n i) := by
  have hd := h.located.data hdata
  have hworks : s.Works t n i := by
    refine ⟨hscan, Or.inl ?_⟩
    rw [serves, hscan, hphase, beq_self_eq_true]
    rfl
  have hk := Sd.next_counting (i := s.sdIn n i) hphase
  refine .deciding (hk.sdSCAN.trans hscan) hk.phase ?_ (Rp.rpDMD_next hd.rpDRY hd.rpDMD) ?_
  · exact (rpDRY_next hdata (hi.undisturbed hworks).1).trans hd.rpDRY
  · rw [Addresses, h.sector_next ht hi hdata hscan, sd_next, hk.sectADDR, hk.sectCNT]
    exact haddr

/-- The controller goes on with the next half if the drive still has its data. -/
theorem Inv.decides (h : Inv t n s) (ht : t.Room) (hi : s.Steady t n i)
    (hscan : s.sd.sdSCAN = n) (hphase : phase s.sd.state = .deciding)
    (haddr : s.Addresses n (s.d.sector t)) : Agrees t n (s.next t n i) := by
  have hpulse : s.sd.sdINCSECT = false := h.signals.no_pulse hphase (by decide)
  rcases Sd.next_deciding (i := s.sdIn n i) hphase with ⟨hreq, hk⟩ | ⟨-, hfini, hsame, hsilent⟩
  · have hdata : s.d.ctrl.state = .data := data_of_requested hscan hreq
    have hworks : s.Works t n i := ⟨hscan, Or.inr (Or.inr hk.phase)⟩
    refine .transferring (hk.sdSCAN.trans hscan) hk.phase ?_ ?_
    · exact h.data_next hi hworks hdata hpulse (by rw [hphase]; decide)
    · rw [Addresses, h.sector_next ht hi hdata hscan, hpulse, sd_next, hk.sectADDR, hk.sectCNT]
      exact haddr
  · refine .ended (hsame.trans hscan) (Or.inl hfini) (fun hyes => ?_) fun hack => ?_
    · exact absurd (hsilent.sdINCSECT.symm.trans hyes) Bool.false_ne_true
    · cases hfini.symm.trans hack

/-- The end of a transfer. -/
theorem ended_next (hscan : s.sd.sdSCAN = n) (hphase : phase s.sd.state = .finishing ∨
    phase s.sd.state = .acknowledging ∨ phase s.sd.state = .acknowledged) :
    Agrees t n (s.next t n i) := by
  have hno {p : Prop} (hpulse : (s.next t n i).sd.sdINCSECT = false)
      (hyes : (s.next t n i).sd.sdINCSECT = true) : p :=
    absurd (hpulse.symm.trans hyes) Bool.false_ne_true
  rcases hphase with hphase | hphase | hphase
  · obtain ⟨hnext | hnext, hsame, hsilent⟩ := Sd.next_finishing (i := s.sdIn n i) hphase
    · exact .ended (hsame.trans hscan) (Or.inl hnext) (hno hsilent.sdINCSECT) fun hack =>
        nomatch hnext.symm.trans hack
    · exact .ended (hsame.trans hscan) (Or.inr (Or.inl hnext)) (hno hsilent.sdINCSECT)
        fun hack => nomatch hnext.symm.trans hack
  · obtain ⟨hnext, hsame, hack, hpulse, -⟩ := Sd.next_acknowledging (i := s.sdIn n i) hphase
    exact .ended (hsame.trans hscan) (Or.inr (Or.inr hnext)) (hno hpulse) fun _ => hscan ▸ hack
  · exact .away (Or.inr (Or.inr (Or.inl (Sd.next_acknowledged hphase).1)))

theorem Inv.agrees_next (h : Inv t n s) (ht : t.Room) (hi : s.Steady t n i) :
    Agrees t n (s.next t n i) := by
  cases h.agrees with
  | away haway =>
      rcases haway with hne | hphase | hphase | hphase
      · rcases Sd.next_sdSCAN (s := s.sd) (i := s.sdIn n i) with hsame | hidle
        · exact .away (Or.inl fun hscan => hne (hsame.symm.trans hscan))
        · exact .away (Or.inr hidle)
      · exact .away (Or.inr (Sd.next_starting hphase).1)
      · rcases Sd.next_scanning (i := s.sdIn n i) hphase with haccepts | ⟨hscans, -⟩
        · by_cases hscan : s.sd.sdSCAN = n
          · exact h.accepts ht hi hscan hphase haccepts
          · exact .away (Or.inl fun heq => hscan (haccepts.sdSCAN.symm.trans heq))
        · exact .away (Or.inr (Or.inr (Or.inl hscans)))
      · exact .away (Or.inr (Or.inr (Or.inr (Sd.next_failing hphase).1)))
  | transferring hscan hphase hdata haddr => exact h.transfers ht hi hscan hphase hdata haddr
  | counting hscan hphase hdata haddr => exact h.counts ht hi hscan hphase hdata haddr
  | deciding hscan hphase _ _ haddr => exact h.decides ht hi hscan hphase haddr
  | ended hscan hphase _ _ => exact ended_next hscan hphase

theorem Inv.next (h : Inv t n s) (ht : t.Room) (hi : s.Steady t n i) :
    Inv t n (s.next t n i) where
  located := h.located.next ht hi.drive (h.spared hi)
  signals := Signals.next s.sd (s.sdIn n i)
  clear hnext := h.clear_next hi hnext
  waits hw hnext := h.waits_next ht hi hw hnext
  agrees := h.agrees_next ht hi

end RpAoe

end KS10
