import KS10.Clocked.EdgeLatch
import KS10.Clocked.Field

/-!
# The transfer error summary

RHCS2 holds the errors of the controller, and each drive has a composite error.  RHCS1 sums
up those of the controller and of the selected drive in the bit TRE.  The source sets the bit
at the transition of the sum, so RHCS1 is a latch that is set by an edge, whose level is the
disjunction of nine conditions.

The errors are cleared with different extents.  A clear of TRE clears the errors of RHCS2, all
but the program error if it comes with the next data command; the error of the drive stays
until the drive is cleared.  An error that stands over a clear keeps the sum up, and the next
error is then no transition (`RhErr.tre_fails`).  `RhErr.tre_run` says exactly when it is
missed.
-/

namespace KS10

open Clocked

/-! ## The registers -/

/-- The registers of RHCS2. -/
structure RhCs2 where
  dlt : Bool
  wce : Bool
  upe : Bool
  ned : Bool
  nem : Bool
  pge : Bool
  mxf : Bool
  pat : Bool
  bai : Bool
  unit : BitVec 3
  deriving DecidableEq

/-- The registers of RHCS1 and RHCS2 that the transfer error depends on. -/
structure RhErr where
  lastTre : Bool
  cs1Tre : Bool
  cs2 : RhCs2
  deriving DecidableEq

namespace RhErr

/-- The inputs of one clock.  The error registers and the ready bits are those of the eight
drives. -/
structure In where
  rst : Bool
  devReset : Bool
  devLoByte : Bool
  devHiByte : Bool
  rhDataI : BitVec 36
  rhcs1Write : Bool
  rhcs2Write : Bool
  /-- A register of the selected drive is read or written. -/
  rpAccess : Bool
  rhSetDlt : Bool
  rhSetWce : Bool
  rhSetNem : Bool
  rpDpr : BitVec 3 → Bool
  rpDry : BitVec 3 → Bool
  rpEr1 : BitVec 3 → BitVec 16
  rpEr2 : BitVec 3 → BitVec 16
  rpEr3 : BitVec 3 → BitVec 16

/-! ## The drives -/

/-- The composite error of a drive, RPDS. -/
def dsErr (i : In) (k : BitVec 3) : Bool := i.rpEr1 k != 0 || i.rpEr2 k != 0 || i.rpEr3 k != 0

def rpErr (s : RhErr) (i : In) : Bool := dsErr i s.cs2.unit

/-- The controller is ready when the selected drive is. -/
def rhRdy (s : RhErr) (i : In) : Bool := i.rpDry s.cs2.unit

def rhSetNed (s : RhErr) (i : In) : Bool := i.rpAccess && !i.rpDpr s.cs2.unit

/-! ## The clears -/

def cs1Go (d : BitVec 36) : Bool := d.getLsbD 0
def cs1Fun (d : BitVec 36) : BitVec 5 := d.extractLsb' 1 5
def cs1Tre' (d : BitVec 36) : Bool := d.getLsbD 14

def rhClrTre (i : In) : Bool := i.rhcs1Write && i.devHiByte && cs1Tre' i.rhDataI

def rhCmdGo (i : In) : Bool := i.rhcs1Write && cs1Go i.rhDataI

/-- The functions of the data commands, which are not fully decoded. -/
def dataFuns : List (BitVec 5) :=
  [0o24, 0o25, 0o26, 0o27, 0o30, 0o31, 0o32, 0o33, 0o34, 0o35, 0o36, 0o37]

/-- A data command is written while the controller is ready. -/
def rhClrGo (s : RhErr) (i : In) : Bool :=
  s.rhRdy i && i.rhcs1Write && dataFuns.contains (cs1Fun i.rhDataI) && cs1Go i.rhDataI

def rhClr (i : In) : Bool := i.rhcs2Write && i.devLoByte && i.rhDataI.getLsbD 5

/-- Error clear. -/
def errClr (s : RhErr) (i : In) : Bool := i.devReset || rhClr i || rhClrTre i || s.rhClrGo i

/-! ## RHCS2 -/

/-- A bit that an event sets. -/
def sets (clr set bit : Bool) : Bool := if clr then false else if set then true else bit

/-- A bit that a write loads. -/
def loads (clr write : Bool) (d bit : Bool) : Bool :=
  if clr then false else if write then d else bit

def nextCs2 (s : RhErr) (i : In) : RhCs2 where
  dlt := sets (s.errClr i) i.rhSetDlt s.cs2.dlt
  wce := sets (s.errClr i) i.rhSetWce s.cs2.wce
  upe := loads (s.errClr i) (i.rhcs2Write && i.devHiByte) (i.rhDataI.getLsbD 13) s.cs2.upe
  ned := sets (s.errClr i) (s.rhSetNed i) s.cs2.ned
  nem := sets (s.errClr i) i.rhSetNem s.cs2.nem
  -- The program error is not cleared by the next data command.
  pge := sets (i.devReset || rhClr i || rhClrTre i) (rhCmdGo i && !s.rhRdy i) s.cs2.pge
  mxf := loads (s.errClr i) (i.rhcs2Write && i.devHiByte) (i.rhDataI.getLsbD 9) s.cs2.mxf
  pat := loads (i.devReset || rhClr i) (i.rhcs2Write && i.devLoByte) (i.rhDataI.getLsbD 4)
    s.cs2.pat
  bai := loads (i.devReset || rhClr i) (i.rhcs2Write && i.devLoByte && s.rhRdy i)
    (i.rhDataI.getLsbD 3) s.cs2.bai
  unit :=
    if i.devReset || rhClr i then 0
    else if i.rhcs2Write && i.devLoByte then i.rhDataI.extractLsb' 0 3
    else s.cs2.unit

/-- The data parity error is not implemented. -/
def rhcs2Dpe : Bool := false

/-! ## RHCS1 -/

def statTre (s : RhErr) (i : In) : Bool :=
  s.cs2.dlt || s.cs2.wce || s.cs2.upe || s.cs2.ned || s.cs2.nem || s.cs2.pge || s.cs2.mxf ||
    rhcs2Dpe || s.rpErr i

def nextTre (s : RhErr) (i : In) : Bool :=
  if i.devReset || rhClr i || rhClrTre i || s.rhClrGo i then false
  else if s.statTre i && !s.lastTre then true
  else s.cs1Tre

def reset : RhErr where
  lastTre := false
  cs1Tre := false
  cs2 :=
    { dlt := false, wce := false, upe := false, ned := false, nem := false, pge := false
      mxf := false, pat := false, bai := false, unit := 0 }

/-- One clock. -/
def next (s : RhErr) (i : In) : RhErr :=
  if i.rst then reset
  else { lastTre := s.statTre i, cs1Tre := s.nextTre i, cs2 := s.nextCs2 i }

/-! ## The conditions -/

/-- The conditions that make up the transfer error. -/
inductive Cond where
  | dlt | wce | upe | ned | nem | pge | mxf | dpe | err
  deriving DecidableEq

def has (s : RhErr) (i : In) : Cond → Bool
  | .dlt => s.cs2.dlt
  | .wce => s.cs2.wce
  | .upe => s.cs2.upe
  | .ned => s.cs2.ned
  | .nem => s.cs2.nem
  | .pge => s.cs2.pge
  | .mxf => s.cs2.mxf
  | .dpe => rhcs2Dpe
  | .err => s.rpErr i

/-- An explicit clear, or the start of the next data command. -/
def clears (s : RhErr) (i : In) : Bool := i.rst || s.errClr i

/-- A condition has been set in every clock since a clear. -/
def Stands (s : RhErr) (i : Nat → In) (t : Nat) : Prop :=
  ∃ v, v ≤ t ∧ (run next s i v).clears (i v) = true ∧
    ∀ w, v ≤ w → w ≤ t → (i w).rst = false ∧ ∃ c, (run next s i w).has (i w) c = true

variable {s : RhErr} {i : In}

theorem statTre_iff : s.statTre i = true ↔ ∃ c, s.has i c = true := by
  unfold statTre
  simp only [Bool.or_eq_true]
  constructor
  · rintro ((((((((h | h) | h) | h) | h) | h) | h) | h) | h)
    · exact ⟨.dlt, h⟩
    · exact ⟨.wce, h⟩
    · exact ⟨.upe, h⟩
    · exact ⟨.ned, h⟩
    · exact ⟨.nem, h⟩
    · exact ⟨.pge, h⟩
    · exact ⟨.mxf, h⟩
    · exact ⟨.dpe, h⟩
    · exact ⟨.err, h⟩
  · rintro ⟨c, h⟩
    cases c with
    | err => exact .inr h
    | dpe => exact .inl (.inr h)
    | mxf => exact .inl (.inl (.inr h))
    | pge => exact .inl (.inl (.inl (.inr h)))
    | nem => exact .inl (.inl (.inl (.inl (.inr h))))
    | ned => exact .inl (.inl (.inl (.inl (.inl (.inr h)))))
    | upe => exact .inl (.inl (.inl (.inl (.inl (.inl (.inr h))))))
    | wce => exact .inl (.inl (.inl (.inl (.inl (.inl (.inl (.inr h)))))))
    | dlt => exact .inl (.inl (.inl (.inl (.inl (.inl (.inl (.inl h)))))))

/-! ## The latch -/

/-- The level of the latch.  A reset holds it down. -/
def latchIn (s : RhErr) (i : In) : EdgeLatch.In := ⟨s.clears i, !i.rst && s.statTre i⟩

def latch (s : RhErr) : EdgeLatch := ⟨s.lastTre, s.cs1Tre⟩

theorem latch_next (s : RhErr) (i : In) :
    (s.next i).latch = EdgeLatch.next s.latch (s.latchIn i) := by
  unfold next latchIn clears
  cases hrst : i.rst with
  | true => rfl
  | false => rfl

theorem latch_run (s : RhErr) (i : Nat → In) (t : Nat) : (run next s i t).latch =
    run EdgeLatch.next s.latch (fun k => (run next s i k).latchIn (i k)) t :=
  run_part latch_next s i t

theorem level_iff : (s.latchIn i).level = true ↔ i.rst = false ∧ ∃ c, s.has i c = true := by
  unfold latchIn
  rw [Bool.and_eq_true, Bool.not_eq_true', statTre_iff]

theorem stands_iff {s : RhErr} {i : Nat → In} {t : Nat} : s.Stands i t ↔
    EdgeLatch.Stands (fun k => (run next s i k).latchIn (i k)) t := by
  constructor
  · rintro ⟨v, hv, hclear, hup⟩
    exact ⟨v, hv, hclear, fun w hvw hwt => level_iff.mpr (hup w hvw hwt)⟩
  · rintro ⟨v, hv, hclear, hup⟩
    exact ⟨v, hv, hclear, fun w hvw hwt => level_iff.mp (hup w hvw hwt)⟩

/-! ## The summary -/

/-- A condition that is set shows in the transfer error one clock later, and there it stays
until a clear.  It is missed exactly if conditions have been set in every clock since a
clear. -/
theorem tre_run {i : Nat → In} {t : Nat} {c : Cond} (hrst : (i t).rst = false)
    (hset : (run next reset i t).has (i t) c = true) :
    ((run next reset i (t + 1)).cs1Tre = true ↔ ¬ reset.Stands i t) ∧
      (¬ reset.Stands i t → ∀ u, t < u →
        (∀ v, t < v → v < u → (run next reset i v).clears (i v) = false) →
        (run next reset i u).cs1Tre = true) := by
  have hlevel := level_iff.mpr ⟨hrst, c, hset⟩
  have hlaw : (run next reset i (t + 1)).cs1Tre = true ↔ ¬ reset.Stands i t := by
    rw [stands_iff, ← EdgeLatch.bit_iff (s := reset.latch) rfl hlevel, ← latch_run]
    rfl
  refine ⟨hlaw, fun hst u htu hquiet => ?_⟩
  have hbit := hlaw.mpr hst
  change (run next reset i (t + 1)).latch.bit = true at hbit
  change (run next reset i u).latch.bit = true
  rw [latch_run] at hbit ⊢
  exact EdgeLatch.bit_stays hbit htu hquiet

/-- Nothing happens at the controller. -/
def quiet : In where
  rst := false
  devReset := false
  devLoByte := true
  devHiByte := true
  rhDataI := 0
  rhcs1Write := false
  rhcs2Write := false
  rpAccess := false
  rhSetDlt := false
  rhSetWce := false
  rhSetNem := false
  rpDpr := fun _ => true
  rpDry := fun _ => true
  rpEr1 := fun _ => 0
  rpEr2 := fun _ => 0
  rpEr3 := fun _ => 0

/-- Data come late in the first clock. -/
def lateOnce (t : Nat) : In := { quiet with rhSetDlt := t == 0 }

theorem tre_run_late : (run next reset lateOnce 5).cs1Tre = true :=
  have hset : (run next reset lateOnce 1).has (lateOnce 1) .dlt = true := rfl
  have hstands : ¬ reset.Stands lateOnce 1 := by
    rintro ⟨v, hv, hclear, -⟩
    have hv : v = 0 ∨ v = 1 := by omega
    rcases hv with rfl | rfl
    · exact absurd hclear (by decide)
    · exact absurd hclear (by decide)
  have hquiet : ∀ v, 1 < v → v < 5 →
      (run next reset lateOnce v).clears (lateOnce v) = false := by
    intro v hv hv'
    have hv : v = 2 ∨ v = 3 ∨ v = 4 := by omega
    rcases hv with rfl | rfl | rfl
    all_goals decide
  (tre_run rfl hset).2 hstands 5 (by decide) hquiet

/-- Drive 0 has an error.  The program clears the transfer error, and then data come late. -/
def lateAfterClear (t : Nat) : In :=
  { quiet with
    rpEr1 := fun _ => 1
    rhcs1Write := t == 1
    rhDataI := BitVec.ofNat 36 0o40000
    rhSetDlt := t == 2 }

/-- A condition that becomes set beside one that stands need not set the transfer error. -/
theorem tre_fails : ¬ ∀ (i : Nat → In) (t : Nat) (c : Cond),
    (∀ u, t ≤ u → (run next reset i u).clears (i u) = false) →
    (run next reset i t).has (i t) c = false →
    (run next reset i (t + 1)).has (i (t + 1)) c = true →
    ∃ u, t + 1 < u ∧ (run next reset i u).cs1Tre = true := by
  intro h
  have hquiet : ∀ u, 2 ≤ u →
      (run next reset lateAfterClear u).clears (lateAfterClear u) = false := by
    intro u hu
    have hwrite : (u == 1) = false := by
      rw [beq_eq_false_iff_ne]
      omega
    simp only [clears, errClr, rhClrTre, rhClrGo, rhClr, lateAfterClear, quiet, hwrite,
      Bool.or_self, Bool.and_false, Bool.false_and]
  obtain ⟨u, hu, htre⟩ := h lateAfterClear 2 .dlt hquiet rfl rfl
  -- The error of the drive is there from the clear on.
  obtain ⟨w, rfl⟩ : ∃ w, u = w + 1 := ⟨u - 1, by omega⟩
  have hstands : reset.Stands lateAfterClear w :=
    ⟨1, by omega, rfl, fun _ _ _ => ⟨rfl, .err, rfl⟩⟩
  have hbit := EdgeLatch.not_bit_of_stands (s := reset.latch) (stands_iff.mp hstands)
  rw [← latch_run] at hbit
  have htre' : (run next reset lateAfterClear (w + 1)).cs1Tre = false := hbit
  rw [htre'] at htre
  cases htre

end RhErr

end KS10
