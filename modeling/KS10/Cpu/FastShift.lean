import KS10.Cpu.Sequencer
import Mathlib.Data.Nat.Count

/-!
# Fast shifts

A microword with the multi-shift bit is repeated while the floating-point exponent is
negative: the TIMING module holds the microsequencer, and the data path goes on.  The SCAD
counts the exponent up.  When the exponent comes to zero, the microsequencer goes on, and the
data path waits for one clock.

The data path is enabled once for each place of the shift, whatever the bus makes the machine
wait (`repeats`).
-/

namespace KS10

open Clocked

/-! ## The shift counter adder -/

/-- The registers of the SCAD. -/
structure Scad where
  /-- Floating-point exponent. -/
  fe : BitVec 10
  /-- Step counter. -/
  sc : BitVec 10

namespace Scad

open Microword

def scadA (s : Scad) (crom : Microword) (dp : BitVec 36) : BitVec 10 :=
  let snum := cromSNum crom
  match cromScadASel crom with
  | 0b000#3 => s.sc
  | 0b001#3 => snum
  | 0b010#3 => field s.sc 0 0 ++ 0o44#6 ++ field dp 6 6 ++ field s.sc 8 9
  | 0b011#3 => field snum 0 0 ++ field dp 0 6 ++ field snum 8 9
  | 0b100#3 => field s.sc 0 0 ++ field dp 7 13 ++ field s.sc 8 9
  | 0b101#3 => field snum 0 0 ++ field dp 14 20 ++ field snum 8 9
  | 0b110#3 => field s.sc 0 0 ++ field dp 21 27 ++ field s.sc 8 9
  | 0b111#3 => field snum 0 0 ++ field dp 28 34 ++ field snum 8 9

def scadB (s : Scad) (crom : Microword) (dp : BitVec 36) : BitVec 10 :=
  match cromScadBSel crom with
  | 0b00#2 => s.fe
  | 0b01#2 => if bit dp 0 then 0b00#2 ++ ~~~field dp 1 8 else 0b00#2 ++ field dp 1 8
  | 0b10#2 => field dp 18 18 ++ field dp 18 18 ++ field dp 28 35
  | 0b11#2 => 0b0#1 ++ field dp 6 11 ++ 0b000#3

def scad (s : Scad) (crom : Microword) (dp : BitVec 36) : BitVec 10 :=
  let a := s.scadA crom dp
  let b := s.scadB crom dp
  match cromScadFun crom with
  | 0b000#3 => a + a
  | 0b001#3 => a ||| b
  | 0b010#3 => a - b - 1
  | 0b011#3 => a - b
  | 0b100#3 => a + b
  | 0b101#3 => a &&& b
  | 0b110#3 => a - 1
  | 0b111#3 => a

def feSIGN (s : Scad) : Bool := bit s.fe 0
def scSIGN (s : Scad) : Bool := bit s.sc 0

def dispSCAD (s : Scad) (crom : Microword) (dp : BitVec 36) : BitVec 4 :=
  if bit (s.scad crom dp) 0 then 0b0010 else 0b0000

/-- One clock of the SCAD. -/
def next (s : Scad) (clken : Bool) (crom : Microword) (dp : BitVec 36) : Scad where
  fe := if clken && cromLoadFe crom then s.scad crom dp else s.fe
  sc := if clken && cromLoadSc crom then s.scad crom dp else s.sc

end Scad

/-! ## The clock enables -/

/-- The microsequencer, the SCAD and the register of TIMING. -/
structure FastShift where
  useq : Useq
  scad : Scad
  done : Bool

/-- The inputs of one clock.  The inputs of the microsequencer that the registers here give
are overridden. -/
structure FastShift.In where
  busWAIT : Bool
  dp : BitVec 36
  useq : Useq.In

namespace FastShift

open Microword

def crom (s : FastShift) : Microword := s.useq.crom

def clkenCR (s : FastShift) (i : In) : Bool :=
  !((cromMultiShift s.crom && s.scad.feSIGN) || i.busWAIT)

def clkenDP (s : FastShift) (i : In) : Bool :=
  !((cromMultiShift s.crom && !s.scad.feSIGN) || (s.done && s.clkenCR i) || i.busWAIT)

def useqIn (s : FastShift) (i : In) : Useq.In :=
  { i.useq with
    rst := false
    clken := s.clkenCR i
    dp := i.dp
    scSign := s.scad.scSIGN
    dispScad := s.scad.dispSCAD s.crom i.dp }

/-- One clock over the microcode `rom`. -/
def next (rom : MicroAddr → Microword) (s : FastShift) (i : In) : FastShift where
  useq := s.useq.next rom (s.useqIn i)
  scad := s.scad.next (s.clkenDP i) s.crom i.dp
  done := s.scad.feSIGN && cromMultiShift s.crom

/-- The macro `SHIFT` of the microcode: repeat, and add 1 to the exponent. -/
structure Shift (crom : Microword) : Prop where
  add : cromScadFun crom = 0b100
  number : cromScadASel crom = 0b001
  exponent : cromScadBSel crom = 0b00
  one : cromSNum crom = 1
  load : cromLoadFe crom = true
  multi : cromMultiShift crom = true

variable {rom : MicroAddr → Microword} {s : FastShift} {i : In}

/-! ## One clock -/

theorem feSIGN_eq (s : Scad) : s.feSIGN = decide (s.fe.toInt < 0) := BitVec.msb_eq_toInt

/-- The macro adds 1. -/
theorem scad_of_shift {s : Scad} {crom : Microword} {dp : BitVec 36} (h : Shift crom) :
    s.scad crom dp = 1 + s.fe := by
  have ha : s.scadA crom dp = 1 := by
    unfold Scad.scadA
    rw [h.number]
    exact h.one
  have hb : s.scadB crom dp = s.fe := by
    unfold Scad.scadB
    rw [h.exponent]
    rfl
  unfold Scad.scad
  rw [h.add, ha, hb]
  rfl

theorem toInt_succ {x : BitVec 10} (h : x.toInt < 0) : (1 + x).toInt = x.toInt + 1 := by
  have hx := x.isLt
  rw [BitVec.toInt_neg_iff] at h
  rw [BitVec.toInt_eq_toNat_cond, BitVec.toInt_eq_toNat_cond, BitVec.toNat_add,
    if_neg (Nat.not_lt.mpr h)]
  have hone : (1 : BitVec 10).toNat = 1 := rfl
  rw [hone]
  split <;> omega

variable (rom) in
/-- A clock at which the bus makes the machine wait. -/
theorem next_waits (hwait : i.busWAIT = true) :
    s.clkenCR i = false ∧ s.clkenDP i = false ∧ (s.next rom i).crom = s.crom ∧
      (s.next rom i).scad = s.scad := by
  have hcr : s.clkenCR i = false := by
    rw [clkenCR, hwait, Bool.or_true, Bool.not_true]
  have hdp : s.clkenDP i = false := by
    rw [clkenDP, hwait, Bool.or_true, Bool.not_true]
  refine ⟨hcr, hdp, ?_, ?_⟩
  · simp only [crom, next, Useq.next, useqIn, hcr, Bool.false_eq_true, if_false]
  · simp only [next, Scad.next, hdp, Bool.false_and, Bool.false_eq_true, if_false]

variable (rom) in
/-- A clock that shifts. -/
theorem next_shifts (h : Shift s.crom) (hneg : s.scad.fe.toInt < 0) (hgo : i.busWAIT = false) :
    s.clkenCR i = false ∧ s.clkenDP i = true ∧ (s.next rom i).crom = s.crom ∧
      (s.next rom i).scad.fe = 1 + s.scad.fe := by
  have hsign : s.scad.feSIGN = true := by
    rw [feSIGN_eq, decide_eq_true hneg]
  have hcr : s.clkenCR i = false := by
    simp [clkenCR, h.multi, hsign]
  have hdp : s.clkenDP i = true := by
    simp [clkenDP, hcr, hsign, hgo]
  refine ⟨hcr, hdp, ?_, ?_⟩
  · simp only [crom, next, Useq.next, useqIn, hcr, Bool.false_eq_true, if_false]
  · simp only [next, Scad.next, hdp, h.load, Bool.and_self, if_true]
    exact scad_of_shift h

variable (rom) in
/-- The clock that goes on to the next microword. -/
theorem next_ends (h : Shift s.crom) (hpos : ¬ s.scad.fe.toInt < 0) (hgo : i.busWAIT = false) :
    s.clkenCR i = true ∧ s.clkenDP i = false ∧ (s.next rom i).scad.fe = s.scad.fe ∧
      (s.next rom i).done = false := by
  have hsign : s.scad.feSIGN = false := by
    rw [feSIGN_eq, decide_eq_false hpos]
  have hcr : s.clkenCR i = true := by
    simp [clkenCR, hsign, hgo]
  have hdp : s.clkenDP i = false := by
    simp [clkenDP, h.multi, hsign]
  refine ⟨hcr, hdp, ?_, ?_⟩
  · simp only [next, Scad.next, hdp, Bool.false_and, Bool.false_eq_true, if_false]
  · simp only [next, hsign, Bool.false_and]

/-! ## The whole shift -/

/-- The machine after `u` clocks. -/
def after (rom : MicroAddr → Microword) (s : FastShift) (i : Nat → In) (u : Nat) : FastShift :=
  run (next rom) s i u

/-- The microword that is found is repeated up to clock `n`. -/
structure Repeats (rom : MicroAddr → Microword) (s : FastShift) (i : Nat → In) (n : Nat) :
    Prop where
  /-- The microsequencer goes on once. -/
  advances : ∀ u, u ≤ n → (after rom s i u).clkenCR (i u) = decide (u = n)
  holds : ∀ u, u ≤ n → (after rom s i u).crom = s.crom
  /-- The data path is enabled once for each place. -/
  places : (Nat.count (fun u => (after rom s i u).clkenDP (i u) = true) (n + 1) : Int) =
    max 0 (-s.scad.fe.toInt)
  /-- No place is left for the last clock. -/
  last : (after rom s i n).clkenDP (i n) = false
  fe : (after rom s i (n + 1)).scad.fe = if s.scad.fe.toInt < 0 then 0 else s.scad.fe
  /-- The next microword is not held up. -/
  done : (after rom s i (n + 1)).done = false

theorem after_succ (i : Nat → In) (u : Nat) :
    after rom s i (u + 1) = after rom (s.next rom (i 0)) (fun k => i (k + 1)) u := by
  have hrun := run_add (next rom) s i 1 u
  rw [Nat.add_comm] at hrun
  simp only [Nat.add_comm 1] at hrun
  exact hrun

/-- A clock before the rest of the shift. -/
theorem Repeats.before {i : Nat → In} {n : Nat}
    (h : Repeats rom (s.next rom (i 0)) (fun k => i (k + 1)) n) (hcr : s.clkenCR (i 0) = false)
    (hcrom : (s.next rom (i 0)).crom = s.crom)
    (hplace : max 0 (-s.scad.fe.toInt) =
      max 0 (-(s.next rom (i 0)).scad.fe.toInt) + if s.clkenDP (i 0) = true then 1 else 0)
    (hfe : (if (s.next rom (i 0)).scad.fe.toInt < 0 then 0 else (s.next rom (i 0)).scad.fe) =
      if s.scad.fe.toInt < 0 then 0 else s.scad.fe) : Repeats rom s i (n + 1) where
  advances u hu := by
    cases u with
    | zero => exact hcr
    | succ u =>
        rw [after_succ, h.advances u (Nat.le_of_succ_le_succ hu)]
        simp only [Nat.add_right_cancel_iff]
  holds u hu := by
    cases u with
    | zero => rfl
    | succ u => rw [after_succ, h.holds u (Nat.le_of_succ_le_succ hu), hcrom]
  places := by
    have hrest := h.places
    simp only [← after_succ] at hrest
    rw [Nat.count_add', Nat.count_one, hplace, ← hrest]
    have hfirst : after rom s i 0 = s := rfl
    rw [hfirst]
    split
    · rfl
    · rfl
  last := by
    rw [after_succ]
    exact h.last
  fe := by
    rw [after_succ, h.fe, hfe]
  done := by
    rw [after_succ]
    exact h.done

/-- A wait for the bus before the rest of the shift. -/
theorem Repeats.of_wait {i : Nat → In} {n : Nat}
    (h : Repeats rom (s.next rom (i 0)) (fun k => i (k + 1)) n) (hwait : (i 0).busWAIT = true) :
    Repeats rom s i (n + 1) := by
  obtain ⟨hcr, hdp, hcrom, hscad⟩ := next_waits rom (s := s) hwait
  refine h.before hcr hcrom ?_ ?_
  · rw [hscad, hdp]
    simp
  · rw [hscad]

/-- One place before the rest of the shift. -/
theorem Repeats.of_shift {i : Nat → In} {n : Nat}
    (h : Repeats rom (s.next rom (i 0)) (fun k => i (k + 1)) n) (hshift : Shift s.crom)
    (hneg : s.scad.fe.toInt < 0) (hgo : (i 0).busWAIT = false) : Repeats rom s i (n + 1) := by
  obtain ⟨hcr, hdp, hcrom, hfe⟩ := next_shifts rom hshift hneg hgo
  have hsucc := toInt_succ hneg
  refine h.before hcr hcrom ?_ ?_
  · rw [hfe, hsucc, hdp, if_pos rfl]
    omega
  · rw [hfe, hsucc, if_pos hneg]
    split
    · rfl
    · rename_i hzero
      have hint : (1 + s.scad.fe).toInt = (0 : BitVec 10).toInt := by
        rw [hsucc]
        change _ = (0 : Int)
        omega
      exact BitVec.eq_of_toInt_eq hint

/-- Without a place that is left, the microsequencer goes on at once. -/
theorem repeats_zero {i : Nat → In} (hshift : Shift s.crom) (hpos : ¬ s.scad.fe.toInt < 0)
    (hgo : (i 0).busWAIT = false) : Repeats rom s i 0 := by
  obtain ⟨hcr, hdp, hfe, hdone⟩ := next_ends rom hshift hpos hgo
  constructor
  case advances =>
    intro u hu
    obtain rfl := Nat.le_zero.mp hu
    exact hcr
  case holds =>
    intro u hu
    obtain rfl := Nat.le_zero.mp hu
    rfl
  case places =>
    have hzero : ¬ (after rom s i 0).clkenDP (i 0) = true := by
      intro hyes
      exact Bool.false_ne_true (hdp.symm.trans hyes)
    rw [Nat.count_one, if_neg hzero]
    omega
  case last => exact hdp
  case fe =>
    rw [if_neg hpos]
    exact hfe
  case done => exact hdone

variable (rom) in
/-- Every shift ends, if the waits for the bus do. -/
theorem repeats (s : FastShift) (i : Nat → In) (hshift : Shift s.crom)
    (hwaits : ∃ t, ∀ u, t ≤ u → (i u).busWAIT = false) : ∃ n, Repeats rom s i n := by
  obtain ⟨t, ht⟩ := hwaits
  -- The clocks that are left are those up to the last wait, and one for each place after it.
  induction t generalizing s i with
  | zero =>
      induction hk : (-s.scad.fe.toInt).toNat generalizing s i with
      | zero => exact ⟨0, repeats_zero hshift (by omega) (ht 0 (Nat.le_refl 0))⟩
      | succ k ih =>
          have hneg : s.scad.fe.toInt < 0 := by omega
          have hgo := ht 0 (Nat.le_refl 0)
          obtain ⟨-, -, hcrom, hfe⟩ := next_shifts rom hshift hneg hgo
          have hsucc := toInt_succ hneg
          obtain ⟨n, hn⟩ := ih (s.next rom (i 0)) (fun k => i (k + 1)) (hcrom ▸ hshift)
            (fun u _ => ht (u + 1) (Nat.zero_le _)) (by rw [hfe, hsucc]; omega)
          exact ⟨n + 1, hn.of_shift hshift hneg hgo⟩
  | succ t ih =>
      have hrest : ∀ u, t ≤ u → (i (u + 1)).busWAIT = false :=
        fun u hu => ht (u + 1) (Nat.succ_le_succ hu)
      by_cases hwait : (i 0).busWAIT = true
      · obtain ⟨-, -, hcrom, -⟩ := next_waits rom (s := s) hwait
        obtain ⟨n, hn⟩ := ih (s.next rom (i 0)) (fun k => i (k + 1)) (hcrom ▸ hshift) hrest
        exact ⟨n + 1, hn.of_wait hwait⟩
      · have hgo : (i 0).busWAIT = false := Bool.eq_false_of_not_eq_true hwait
        by_cases hneg : s.scad.fe.toInt < 0
        · obtain ⟨-, -, hcrom, -⟩ := next_shifts rom hshift hneg hgo
          obtain ⟨n, hn⟩ := ih (s.next rom (i 0)) (fun k => i (k + 1)) (hcrom ▸ hshift) hrest
          exact ⟨n + 1, hn.of_shift hshift hneg hgo⟩
        · exact ⟨0, repeats_zero hshift hneg hgo⟩

theorem after_add (i : Nat → In) (t u : Nat) :
    after rom s i (t + u) = after rom (after rom s i t) (fun k => i (t + k)) u :=
  run_add (next rom) s i t u

/-- No place is left for a shift that follows. -/
theorem Repeats.fe_nonneg {i : Nat → In} {n : Nat} (h : Repeats rom s i n) :
    ¬ (after rom s i (n + 1)).scad.fe.toInt < 0 := by
  rw [h.fe]
  split
  · decide
  · assumption

/-- A shift by no places leaves the data path alone. -/
theorem Repeats.idle {i : Nat → In} {n : Nat} (h : Repeats rom s i n)
    (hpos : ¬ s.scad.fe.toInt < 0) {u : Nat} (hu : u ≤ n) :
    (after rom s i u).clkenDP (i u) = false := by
  have hplaces := h.places
  have hzero : Nat.count (fun u => (after rom s i u).clkenDP (i u) = true) (n + 1) = 0 := by
    omega
  rw [Nat.count_iff_forall_not] at hzero
  exact Bool.eq_false_of_not_eq_true (hzero u (Nat.lt_succ_of_le hu))

/-- In every run, and whatever has been done before, a microword of the macro `SHIFT` is
repeated for the places of the exponent that it finds.  Another one that follows it finds no
place. -/
theorem fastShift_run (rom : MicroAddr → Microword) (s : FastShift) (i : Nat → In)
    (hwaits : ∃ t, ∀ u, t ≤ u → (i u).busWAIT = false) (t : Nat)
    (hshift : Shift (after rom s i t).crom) :
    ∃ n, Repeats rom (after rom s i t) (fun u => i (t + u)) n ∧
      (Shift (after rom s i (t + (n + 1))).crom →
        ∃ m, Repeats rom (after rom s i (t + (n + 1))) (fun u => i (t + (n + 1) + u)) m ∧
          ∀ u, u ≤ m →
            (after rom s i (t + (n + 1) + u)).clkenDP (i (t + (n + 1) + u)) = false) := by
  obtain ⟨last, hlast⟩ := hwaits
  have hrest (v : Nat) : ∃ w, ∀ u, w ≤ u → (i (v + u)).busWAIT = false :=
    ⟨last, fun u hu => hlast (v + u) (Nat.le_add_left_of_le hu)⟩
  obtain ⟨n, hn⟩ := repeats rom _ _ hshift (hrest t)
  refine ⟨n, hn, fun hagain => ?_⟩
  obtain ⟨m, hm⟩ := repeats rom _ _ hagain (hrest (t + (n + 1)))
  refine ⟨m, hm, fun u hu => ?_⟩
  have hpos := hn.fe_nonneg
  rw [← after_add] at hpos
  rw [after_add]
  exact hm.idle hpos hu

/-- A microword with the macro. -/
def shiftWord : Microword :=
  1 <<< (107 - 74) ||| 1 <<< (107 - 79) ||| 1 <<< (107 - 90) ||| 1 <<< (107 - 95) ||| 1

theorem shiftWord_shift : Shift shiftWord :=
  ⟨by decide, by decide, by decide, by decide, by decide, by decide⟩

/-- A shift by three places, which is to begin. -/
def threePlaces : FastShift where
  useq := { crom := shiftWord, sp := 15, currAddr := 0, stack := fun _ => 0 }
  scad := { fe := -3, sc := 0 }
  done := true

/-- The bus makes the machine wait at the second clock. -/
def oneWait (u : Nat) : In := { busWAIT := u == 1, dp := 0, useq := default }

theorem fastShift_run_threePlaces : threePlaces.scad.fe.toInt = -3 ∧
    ∃ n, Repeats (fun _ => shiftWord) threePlaces (fun u => oneWait (0 + u)) n := by
  have hwaits : ∀ u, 2 ≤ u → (oneWait u).busWAIT = false := by
    intro u hu
    exact beq_false_of_ne (by omega)
  obtain ⟨n, hn, -⟩ :=
    fastShift_run (fun _ => shiftWord) threePlaces oneWait ⟨2, hwaits⟩ 0 shiftWord_shift
  exact ⟨rfl, n, hn⟩

end FastShift

end KS10
