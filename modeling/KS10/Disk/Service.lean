import KS10.Disk.Disks

/-!
# Who the SD controller works for

Every command of a drive has a number (`Watched.begun`), and the controller works for the
command whose request it accepted last (`Watched.served`).  As long as nothing ends the
command of a drive while the controller works for it (`Undisturbed`), the controller
acknowledges the commands that it has carried out and does nothing on behalf of any other
(`honest_run`).

The source does not keep to this condition: the controller masks its clear, and looks at
the request again only at the end of a half sector (`honest_fails`).
-/

namespace KS10

open Clocked

/-! ## Commands and their numbers -/

/-- The drives with the number of commands that each has begun, and the command that the
controller has accepted last. -/
structure Watched where
  disks : Disks
  begun : BitVec 3 → Nat
  served : BitVec 3 × Nat

namespace Watched

open Sd (phase)

/-- Drive `k` begins a command. -/
def begins (s s' : Disks) (k : BitVec 3) : Bool :=
  (s.drives k).ctrl.state == .idle && (s'.drives k).ctrl.state != .idle

/-- The controller accepts a request. -/
def accepts (s s' : Disks) : Bool :=
  phase s.sd.state == .scanning && phase s'.sd.state == .transferring

def next (w : Watched) (i : Disks.In) : Watched where
  disks := w.disks.next i
  begun := fun k => if begins w.disks (w.disks.next i) k then w.begun k + 1 else w.begun k
  served :=
    if accepts w.disks (w.disks.next i) then (w.disks.sd.sdSCAN, w.begun w.disks.sd.sdSCAN)
    else w.served

/-- The command number `n` of drive `k` is in its data state. -/
def Current (w : Watched) (k : BitVec 3) (n : Nat) : Prop :=
  (w.disks.drives k).ctrl.state = .data ∧ w.begun k = n

/-- What the controller does at this clock it does for a command that has not ended, and
an acknowledge completes only the command that was carried out. -/
structure Honest (w : Watched) : Prop where
  completes : ∀ k, w.disks.sd.rpSDACK.getLsbD k.toNat = true →
    (w.disks.drives k).ctrl.state = .data → w.served = (k, w.begun k)
  onBehalf : w.disks.sd.devREQO = true ∨ w.disks.sd.sdINCSECT = true ∨ w.disks.sd.rpSDACK ≠ 0 →
    w.Current w.served.1 w.served.2

end Watched

/-! ## The condition -/

namespace Disks

open Sd (phase)

/-- The controller works for the drive that it scans, or accepts its request. -/
def Serving (s : Disks) (i : In) : Prop :=
  phase s.sd.state = .transferring ∨ phase s.sd.state = .counting ∨
  phase s.sd.state = .deciding ∨ phase s.sd.state = .finishing ∨
  phase s.sd.state = .acknowledging ∨
  phase s.sd.state = .scanning ∧ phase (s.next i).sd.state = .transferring

/-- Nothing ends the command of the drive that the controller works for. -/
def Undisturbed (s : Disks) (i : In) : Prop :=
  s.Serving i → i.clr = false ∧ i.rpCLBERR s.sd.sdSCAN = false ∧
    s.scanned.rpSETAOE (RpType.getTYPE s.sd.sdSCAN) (s.driveIn i s.sd.sdSCAN) = false

end Disks

/-! ## The invariant -/

namespace Watched

open Sd (phase)

/-- The controller works for the command that it has accepted. -/
structure Works (w : Watched) : Prop where
  served : w.served = (w.disks.sd.sdSCAN, w.begun w.disks.sd.sdSCAN)
  data : w.disks.scanned.ctrl.state = .data

/-- What holds in each phase of the controller. -/
inductive Inv (w : Watched) : Prop where
  | free (h : Sd.Free w.disks.sd)
  | works (hphase : phase w.disks.sd.state = .transferring ∨ phase w.disks.sd.state = .counting ∨
        phase w.disks.sd.state = .deciding ∨ phase w.disks.sd.state = .finishing ∨
        phase w.disks.sd.state = .acknowledging)
      (hack : w.disks.sd.rpSDACK = 0) (h : Works w)
  | acks (hphase : phase w.disks.sd.state = .acknowledged)
      (hack : w.disks.sd.rpSDACK = 1#8 <<< w.disks.sd.sdSCAN.toNat) (h : Works w)

variable {w : Watched} {i : Disks.In}

theorem Works.current (h : Works w) : w.Current w.served.1 w.served.2 := by
  rw [h.served]
  exact ⟨h.data, rfl⟩

theorem Inv.honest (h : Inv w) : Honest w := by
  cases h with
  | free h =>
      refine ⟨fun k hack => ?_, fun hdoes => ?_⟩
      · exact absurd ((Disks.noAck h.2.rpSDACK).symm.trans hack) Bool.false_ne_true
      · rcases hdoes with hreq | hinc | hack
        · exact absurd (h.2.devREQO.symm.trans hreq) Bool.false_ne_true
        · exact absurd (h.2.sdINCSECT.symm.trans hinc) Bool.false_ne_true
        · exact absurd h.2.rpSDACK hack
  | works hphase hack h =>
      refine ⟨fun k hk => ?_, fun _ => h.current⟩
      exact absurd ((Disks.noAck hack).symm.trans hk) Bool.false_ne_true
  | acks hphase hack h =>
      refine ⟨fun k hk _ => ?_, fun _ => h.current⟩
      rw [hack, Disks.acks_eq] at hk
      rw [of_decide_eq_true hk]
      exact h.served

/-! ## One clock -/

/-- A drive in its data state begins no command. -/
theorem begun_next {k : BitVec 3} (h : (w.disks.drives k).ctrl.state = .data) :
    (w.next i).begun k = w.begun k := by
  refine if_neg ?_
  rw [begins, h]
  exact Bool.false_ne_true

/-- The drive that the controller works for stays in its data state. -/
theorem data_next (h : w.disks.scanned.ctrl.state = .data) (hi : w.disks.Undisturbed i)
    (hserving : w.disks.Serving i) (hack : w.disks.sd.rpSDACK = 0) :
    ((w.next i).disks.drives w.disks.sd.sdSCAN).ctrl.state = .data := by
  obtain ⟨hclr, herr, haoe⟩ := hi hserving
  exact RpCtrl.next_data h hclr haoe (Disks.noAck hack) herr

/-- The controller goes on with its work. -/
theorem Works.next (h : Works w) (hi : w.disks.Undisturbed i) (hserving : w.disks.Serving i)
    (hack : w.disks.sd.rpSDACK = 0) (hphase : phase w.disks.sd.state ≠ .scanning)
    (hscan : (w.next i).disks.sd.sdSCAN = w.disks.sd.sdSCAN) : Works (w.next i) where
  served := by
    have hno : ¬ accepts w.disks (w.disks.next i) = true := by
      rw [accepts, Bool.and_eq_true, beq_iff_eq]
      exact fun haccepts => hphase haccepts.1
    rw [hscan, begun_next h.data, ← h.served]
    exact if_neg hno
  data := by
    rw [Disks.scanned, hscan]
    exact data_next h.data hi hserving hack

/-- The controller accepts a request. -/
theorem Works.accepted (hfree : Sd.Free w.disks.sd) (hphase : phase w.disks.sd.state = .scanning)
    (hi : w.disks.Undisturbed i)
    (haccepts : Sd.Accepts w.disks.sd (w.disks.sdIn i) (w.next i).disks.sd) :
    Works (w.next i) := by
  have hdata : w.disks.scanned.ctrl.state = .data := by
    have hreq := haccepts.requested
    rw [Disks.requested_eq, RpCtrl.rpSDREQ, beq_iff_eq] at hreq
    exact hreq
  have hserving : w.disks.Serving i :=
    Or.inr (Or.inr (Or.inr (Or.inr (Or.inr ⟨hphase, haccepts.phase⟩))))
  constructor
  · have hyes : accepts w.disks (w.disks.next i) = true := by
      rw [accepts, Bool.and_eq_true, beq_iff_eq, beq_iff_eq]
      exact ⟨hphase, haccepts.phase⟩
    rw [haccepts.sdSCAN, begun_next hdata]
    exact if_pos hyes
  · rw [Disks.scanned, haccepts.sdSCAN]
    exact data_next hdata hi hserving hfree.2.rpSDACK

theorem Inv.next (h : Inv w) (hi : w.disks.Undisturbed i) : Inv (w.next i) := by
  have hsd : (w.next i).disks.sd = w.disks.sd.next (w.disks.sdIn i) := rfl
  cases h with
  | free h =>
      rcases h.1 with hphase | hphase | hphase
      · exact .free (hsd ▸ Sd.next_starting hphase)
      · rcases Sd.next_scanning (i := w.disks.sdIn i) hphase with haccepts | ⟨hscan, hsilent⟩
        · exact .works (Or.inl haccepts.phase) haccepts.silent.rpSDACK
            (Works.accepted h hphase hi haccepts)
        · exact .free ⟨Or.inr (Or.inl hscan), hsilent⟩
      · exact .free (hsd ▸ ⟨Or.inr (Or.inr (Sd.next_failing hphase).1), (Sd.next_failing hphase).2⟩)
  | works hphase hack h =>
      have hnext (hserving : w.disks.Serving i) (hne : phase w.disks.sd.state ≠ .scanning)
          (hscan : (w.next i).disks.sd.sdSCAN = w.disks.sd.sdSCAN) : Works (w.next i) :=
        h.next hi hserving hack hne hscan
      rcases hphase with hphase | hphase | hphase | hphase | hphase
      · have hworks := hnext (Or.inl hphase) (by rw [hphase]; decide)
        cases Sd.next_transferring (i := w.disks.sdIn i) hphase with
        | keeps hk => exact .works (Or.inl hk.phase) hk.rpSDACK (hworks hk.sdSCAN)
        | counts hc => exact .works (Or.inr (Or.inl hc.phase)) hc.rpSDACK (hworks hc.sdSCAN)
        | ends he =>
            exact .works (Or.inr (Or.inr (Or.inr (Or.inl he.phase)))) he.rpSDACK
              (hworks he.sdSCAN)
        | fails hf hsilent => exact .free ⟨Or.inr (Or.inr hf), hsilent⟩
      · have hk := Sd.next_counting (i := w.disks.sdIn i) hphase
        exact .works (Or.inr (Or.inr (Or.inl hk.phase))) hk.rpSDACK
          (hnext (Or.inr (Or.inl hphase)) (by rw [hphase]; decide) hk.sdSCAN)
      · have hworks := hnext (Or.inr (Or.inr (Or.inl hphase))) (by rw [hphase]; decide)
        rcases Sd.next_deciding (i := w.disks.sdIn i) hphase with
          ⟨-, hk⟩ | ⟨-, hfini, hscan, hsilent⟩
        · exact .works (Or.inl hk.phase) hk.rpSDACK (hworks hk.sdSCAN)
        · exact .works (Or.inr (Or.inr (Or.inr (Or.inl hfini)))) hsilent.rpSDACK (hworks hscan)
      · have hworks :=
          hnext (Or.inr (Or.inr (Or.inr (Or.inl hphase)))) (by rw [hphase]; decide)
        obtain ⟨hfini, hscan, hsilent⟩ := Sd.next_finishing (i := w.disks.sdIn i) hphase
        exact .works (Or.inr (Or.inr (Or.inr hfini))) hsilent.rpSDACK (hworks hscan)
      · obtain ⟨hdone, hscan, hacks, -, -⟩ :=
          Sd.next_acknowledging (i := w.disks.sdIn i) hphase
        refine .acks hdone ?_ (hnext (Or.inr (Or.inr (Or.inr (Or.inr (Or.inl hphase)))))
          (by rw [hphase]; decide) hscan)
        rw [hsd, hscan]
        exact hacks
  | acks hphase hack h =>
      obtain ⟨hscan, hsilent⟩ := Sd.next_acknowledged (i := w.disks.sdIn i) hphase
      exact .free ⟨Or.inr (Or.inl hscan), hsilent⟩

/-! ## Every run -/

/-- As long as nothing ends a command while the controller works for it, the controller
works for the commands that it has accepted and that have not ended, and completes no
other. -/
theorem honest_run (w : Watched) (i : Nat → Disks.In) (t : Nat) (hfree : Sd.Free w.disks.sd)
    (hi : ∀ u, u < t → (run next w i u).disks.Undisturbed (i u)) : Honest (run next w i t) :=
  Inv.honest (run_invariant_of (C := fun w i => w.disks.Undisturbed i) (.free hfree)
    (fun _ _ hC h => h.next hC) hi)

/-- A drive that has come to its data state, and seven that are idle. -/
def drive (state : RpCtrl.State) (rpSDOP : SdOp) : Rp where
  ctrl :=
    { state := state, rpCC := 0, rpDFE := false, rpDRY := state == .idle, rpEBL := false
      rpECE := false, rpPIP := false, rpSETATA := false, rpSETSKI := false, rpADRSTRT := false
      rpSDOP := rpSDOP, tmpATA := false, tmpCC := 0, head_pos := 0, bit_cnt := 0, word_cnt := 0
      delay := 0, lastGO := false }
  addr := { sum := 0, temp := 0, loop := 0, state := .idle }
  rpSA := 0
  rpTA := 0
  rpDCA := 0
  rpFUN := 0o35
  rpFMT22 := false
  rpDMD := false

def requesting : Watched where
  disks :=
    { sd := { Sd.reset with state := .idle }
      drives := fun k => if k = 0 then drive .data .rdh else drive .idle .nop
      rhUNIT := 0 }
  begun := fun _ => 1
  served := (0, 0)

/-- Clocks without writes; `clr` is the controller clear. -/
def clocks (clr : Bool) : Nat → Disks.In := fun _ =>
  { clr := clr, devDATAI := 0, cs2WRITE := false, cs1WRITE := false, daWRITE := false
    dcWRITE := false, ofWRITE := false, mrWRITE := false, rpPAT := false
    rpCLBERR := fun _ => false, diag_clken := fun _ => false, diag_index := fun _ => false
    rpSBD := fun _ => false, spiDONE := false, spiRXD := 0xff, devACKI := false, rhWC := 0 }

theorem requesting_free : Sd.Free requesting.disks.sd := ⟨Or.inr (Or.inl rfl), rfl, rfl, rfl⟩

/-- A request is accepted and carried out. -/
theorem honest_run_requesting : Honest (run next requesting (clocks false) 3) := by
  refine honest_run requesting (clocks false) 3 requesting_free fun u hu => ?_
  obtain rfl | rfl | rfl : u = 0 ∨ u = 1 ∨ u = 2 := by omega
  · exact fun _ => ⟨rfl, rfl, rfl⟩
  · exact fun _ => ⟨rfl, rfl, rfl⟩
  · exact fun _ => ⟨rfl, rfl, rfl⟩

/-- A controller clear ends the command as its request is accepted, and the controller goes
on: it asks for a DMA cycle. -/
theorem honest_fails : ¬ ∀ (w : Watched) (i : Nat → Disks.In) (t : Nat), Sd.Free w.disks.sd →
    Honest (run next w i t) := by
  intro h
  have hcurrent := (h requesting (clocks true) 2 requesting_free).onBehalf (Or.inl rfl)
  exact absurd hcurrent.1 (by decide)

end Watched

end KS10
