import KS10.Clocked.Run
import KS10.Disk.Drive
import KS10.Disk.Phases

/-!
# The eight drives and the SD controller

`Disks` is the part of the RH11 in which the drives and the SD controller meet: each
drive raises a request while it is in its data state, the controller scans the requests,
and gives the drive it has served an acknowledge of one clock.  The pulse at the end of a
sector goes to the drive that the program has selected, as the register writes do.

The bus, the card, the error registers of the drives and the word count are inputs, and
nothing is assumed of them.
-/

namespace KS10

open Clocked

structure Disks where
  sd : Sd
  drives : BitVec 3 → Rp
  rhUNIT : BitVec 3

/-- The inputs of one clock.  A write of a drive's register goes to the selected drive. -/
structure Disks.In where
  clr : Bool
  devDATAI : BitVec 36
  cs2WRITE : Bool
  cs1WRITE : Bool
  daWRITE : Bool
  dcWRITE : Bool
  ofWRITE : Bool
  mrWRITE : Bool
  rpPAT : Bool
  rpCLBERR : BitVec 3 → Bool
  diag_clken : BitVec 3 → Bool
  diag_index : BitVec 3 → Bool
  rpSBD : BitVec 3 → Bool
  spiDONE : Bool
  spiRXD : BitVec 8
  devACKI : Bool
  rhWC : BitVec 16

namespace Disks

/-- One bit for each drive. -/
def vector (f : BitVec 3 → Bool) : BitVec 8 :=
  BitVec.ofBool (f 7) ++ BitVec.ofBool (f 6) ++ BitVec.ofBool (f 5) ++ BitVec.ofBool (f 4) ++
    BitVec.ofBool (f 3) ++ BitVec.ofBool (f 2) ++ BitVec.ofBool (f 1) ++ BitVec.ofBool (f 0)

def driveIn (s : Disks) (i : In) (k : BitVec 3) : Rp.In where
  clr := i.clr
  rhINCSECT := s.sd.sdINCSECT
  rpSELECT := s.rhUNIT == k
  rpDATAI := i.devDATAI
  cs1WRITE := i.cs1WRITE
  daWRITE := i.daWRITE
  dcWRITE := i.dcWRITE
  ofWRITE := i.ofWRITE
  mrWRITE := i.mrWRITE
  rpPAT := i.rpPAT
  diag_clken := i.diag_clken k
  diag_index := i.diag_index k
  rpSBD := i.rpSBD k
  rpCLBERR := i.rpCLBERR k
  rpSDACK := s.sd.rpSDACK.getLsbD k.toNat

/-- The drive that the controller scans. -/
def scanned (s : Disks) : Rp := s.drives s.sd.sdSCAN

def sdIn (s : Disks) (i : In) : Sd.In where
  spiDONE := i.spiDONE
  spiRXD := i.spiRXD
  devACKI := i.devACKI
  devDATAI := i.devDATAI
  rhWC := i.rhWC
  rpSDOP := s.scanned.ctrl.rpSDOP
  rpSDLSA := s.scanned.addr.rpSDLSA
  rpSDREQ := vector fun k => (s.drives k).ctrl.rpSDREQ

/-- One clock. -/
def next (s : Disks) (i : In) : Disks where
  sd := s.sd.next (s.sdIn i)
  drives := fun k => (s.drives k).next (RpType.getTYPE k) (s.driveIn i k)
  rhUNIT :=
    if i.clr then 0
    else if i.cs2WRITE then i.devDATAI.extractLsb' 0 3
    else s.rhUNIT

variable {s : Disks} {i : In} {k : BitVec 3}

theorem rpNUM_cases (k : BitVec 3) :
    k = 0 ∨ k = 1 ∨ k = 2 ∨ k = 3 ∨ k = 4 ∨ k = 5 ∨ k = 6 ∨ k = 7 := by
  revert k
  decide

theorem vector_getLsbD (f : BitVec 3 → Bool) (k : BitVec 3) :
    (vector f).getLsbD k.toNat = f k := by
  rcases rpNUM_cases k with rfl | rfl | rfl | rfl | rfl | rfl | rfl | rfl <;>
    simp +decide only [vector, BitVec.getLsbD_append, BitVec.getLsbD_ofBool, if_true, if_false,
      decide_true, Bool.true_and]

/-- The acknowledge goes to one drive. -/
theorem acks_eq {j : BitVec 3} : (1#8 <<< j.toNat).getLsbD k.toNat = decide (k = j) := by
  revert k j
  decide

theorem noAck (h : s.sd.rpSDACK = 0) : s.sd.rpSDACK.getLsbD k.toNat = false := by
  rw [h]
  exact BitVec.getLsbD_zero

/-- The controller sees the request of the drive that it scans. -/
theorem requested_eq : s.sd.requested (s.sdIn i) = s.scanned.ctrl.rpSDREQ := by
  change (vector fun k => (s.drives k).ctrl.rpSDREQ).getLsbD s.sd.sdSCAN.toNat = _
  rw [vector_getLsbD, scanned]

end Disks

namespace RpCtrl

variable {s : RpCtrl} {i : In}

/-- The drive stays in its data state until something ends the command. -/
theorem next_data (h : s.state = .data) (hclr : i.clr = false) (haoe : i.rpSETAOE = false)
    (hack : i.rpSDACK = false) (herr : i.rpCLBERR = false) : (s.next i).state = .data := by
  rw [next, if_neg (by rw [hclr]; exact Bool.false_ne_true), h]
  simp only [haoe, hack, herr, Bool.or_false, Bool.false_eq_true, if_false]
  exact h

end RpCtrl

end KS10
