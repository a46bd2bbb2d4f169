import KS10.Cpu.Microword
import KS10.Clocked.Enable

/-!
# The APR flags

The eight flags 24 to 31 are read by the microcode through the data bus mixer and
written back all at once from the datapath.  Two of them are also set by hardware:
flag 27 by a reference to memory that is not there, flag 31 by the console.  The
event goes before the write of the same clock, and both act at once, also while the
processor is stalled.

An update of the flags (`Apr.Update`) reads them in one microword, changes some bits
and writes all of them in a later one.  An event between the two is not in the word
that is written.
-/

namespace KS10

open Clocked Microword

/-! ## Inputs and registers -/

structure Apr.In where
  rst : Bool
  clken : Bool
  crom : Microword
  dp : BitVec 36
  nxmIntr : Bool
  cslIntr : Bool
  deriving Inhabited

structure Apr where
  aprFlag24 : Bool
  aprFlag25 : Bool
  aprFlag26 : Bool
  aprFlag27 : Bool
  aprFlag28 : Bool
  aprFlag29 : Bool
  aprFlag30 : Bool
  aprFlag31 : Bool
  aprTrapEn : Bool
  aprPageEn : Bool
  /-- Bits 24 to 31. -/
  aprEnable : BitVec 8
  aprSwInt : Bool
  aprPri : BitVec 3
  deriving DecidableEq

namespace Apr

/-- The registers after a reset. -/
def clear : Apr :=
  ⟨false, false, false, false, false, false, false, false, false, false, 0, false, 0⟩

def specAprEnable (i : In) : Bool := spec20 i.crom 5
def specAprFlags (i : In) : Bool := spec20 i.crom 3

/-- Flag `k`, with the hardware event that sets it. -/
def nextFlag (i : In) (flag event : Bool) (k : Nat) : Bool :=
  if event then true
  else if i.clken && specAprFlags i then bit i.dp k
  else flag

/-- One clock of the module. -/
def next (s : Apr) (i : In) : Apr :=
  if i.rst then clear
  else
    { aprFlag24 := nextFlag i s.aprFlag24 false 24
      aprFlag25 := nextFlag i s.aprFlag25 false 25
      aprFlag26 := nextFlag i s.aprFlag26 false 26
      aprFlag27 := nextFlag i s.aprFlag27 i.nxmIntr 27
      aprFlag28 := nextFlag i s.aprFlag28 false 28
      aprFlag29 := nextFlag i s.aprFlag29 false 29
      aprFlag30 := nextFlag i s.aprFlag30 false 30
      aprFlag31 := nextFlag i s.aprFlag31 i.cslIntr 31
      aprTrapEn := if i.clken && specAprEnable i then bit i.dp 22 else s.aprTrapEn
      aprPageEn := if i.clken && specAprEnable i then bit i.dp 23 else s.aprPageEn
      aprEnable := if i.clken && specAprEnable i then field i.dp 24 31 else s.aprEnable
      aprSwInt := if i.clken && specAprEnable i then bit i.dp 32 else s.aprSwInt
      aprPri := if i.clken && specAprEnable i then field i.dp 33 35 else s.aprPri }

/-! ## Outputs -/

def flagBits (s : Apr) : BitVec 8 :=
  BitVec.ofBoolListBE [s.aprFlag24, s.aprFlag25, s.aprFlag26, s.aprFlag27, s.aprFlag28,
    s.aprFlag29, s.aprFlag30, s.aprFlag31]

def aprIntReq (s : Apr) : Bool := s.flagBits &&& s.aprEnable != 0 || s.aprSwInt

/-- Bits 22 to 35 of the flags as the other modules see them. -/
def aprFlags (s : Apr) : BitVec 14 :=
  BitVec.ofBool s.aprTrapEn ++ BitVec.ofBool s.aprPageEn ++ s.flagBits ++
    BitVec.ofBool s.aprIntReq ++ (7 : BitVec 3)

/-- The interrupt request on the priority that is set, bits 1 to 7. -/
def aprIntr (s : Apr) : BitVec 7 :=
  if s.aprIntReq then if s.aprPri == 0 then 0 else 1 <<< (7 - s.aprPri.toNat) else 0

/-- The APR selection of the data bus mixer, with the other fields it carries. -/
def dbmApr (s : Apr) (scad : BitVec 10) (dispPf : BitVec 4) : BitVec 36 :=
  field scad 1 9 ++ (0xff : BitVec 8) ++ field scad 0 0 ++ dispPf ++ s.aprFlags

def cromDbmSel (crom : Microword) : BitVec 3 := field crom 42 44

/-- The registers after `t` clocks. -/
def aprAt (s : Apr) (i : Nat → In) (t : Nat) : Apr := run next s i t

/-! ## Events and updates -/

/-- The events that hardware sets a flag for. -/
inductive Event where
  | nxm
  | console
  deriving DecidableEq

namespace Event

def occurs (i : In) : Event → Bool
  | nxm => i.nxmIntr
  | console => i.cslIntr

def flag (s : Apr) : Event → Bool
  | nxm => s.aprFlag27
  | console => s.aprFlag31

/-- The bit of the flag on the datapath. -/
def index : Event → Nat
  | nxm => 27
  | console => 31

end Event

/-- The flags are written. -/
def writes (i : In) : Bool := i.clken && specAprFlags i

/-- An update of the flags: what is read at clock `r` is written at clock `w` with
the bits of `mset` set and those of `mclear` cleared. -/
structure Update (s : Apr) (i : Nat → In) (r w : Nat) (mset mclear : BitVec 36) : Prop where
  before : r < w
  quiet : ∀ v, r ≤ v → v ≤ w → (i v).rst = false
  executed : (i r).clken = true
  selected : cromDbmSel (i r).crom = 0
  written : writes (i w) = true
  word : ∃ scad dispPf, ∀ k, 24 ≤ k → k ≤ 31 → bit (i w).dp k =
    (bit mset k || (bit ((aprAt s i r).dbmApr scad dispPf) k && !bit mclear k))

/-- Nothing has cleared the flag of an event at clock `t` before clock `r`. -/
def Pending (i : Nat → In) (t r : Nat) : Prop :=
  (i t).rst = false ∧ ∀ v, t < v → v < r → (i v).rst = false ∧ writes (i v) = false

/-- No event is lost: after an update the flag of an event that is pending at its
read, or comes later up to the write itself, is set, unless the update is meant to
clear that flag and the event came before the read. -/
def KeepsEvents (s : Apr) (i : Nat → In) : Prop :=
  ∀ r w mset mclear, Update s i r w mset mclear → ∀ e t, Event.occurs (i t) e = true → t ≤ w →
    Pending i t r → ¬ (bit mclear e.index = true ∧ t < r) →
    Event.flag (aprAt s i (w + 1)) e = true

/-! ## What one clock does -/

section Step

variable {s : Apr} {i : In}

/-- The event goes before the write, and the write before the old value. -/
theorem flag_next (hrst : i.rst = false) (e : Event) :
    Event.flag (next s i) e =
      (Event.occurs i e || if writes i then bit i.dp e.index else Event.flag s e) := by
  have hor (event flag : Bool) (k : Nat) : nextFlag i flag event k =
      (event || if writes i then bit i.dp k else flag) := by
    cases event with
    | true => rfl
    | false => rfl
  rw [next, if_neg (by simp [hrst])]
  cases e with
  | nxm => exact hor i.nxmIntr s.aprFlag27 27
  | console => exact hor i.cslIntr s.aprFlag31 31

/-- The flags stand on the datapath from bit 24 on. -/
theorem bit_dbmApr (scad : BitVec 10) (dispPf : BitVec 4) {k : Nat} (hlow : 24 ≤ k)
    (hhigh : k ≤ 31) : bit (s.dbmApr scad dispPf) k = bit s.flagBits (k - 24) := by
  have hdbm := bit_append (field scad 1 9 ++ (0xff : BitVec 8) ++ field scad 0 0 ++ dispPf)
    s.aprFlags k
  have hpri := bit_append (BitVec.ofBool s.aprTrapEn ++ BitVec.ofBool s.aprPageEn ++ s.flagBits ++
    BitVec.ofBool s.aprIntReq) (7 : BitVec 3) (k - 22)
  have hreq := bit_append (BitVec.ofBool s.aprTrapEn ++ BitVec.ofBool s.aprPageEn ++ s.flagBits)
    (BitVec.ofBool s.aprIntReq) (k - 22)
  have hflags := bit_append (BitVec.ofBool s.aprTrapEn ++ BitVec.ofBool s.aprPageEn) s.flagBits
    (k - 22)
  rw [if_pos (by omega)] at hdbm hflags
  rw [if_neg (by omega)] at hpri hreq
  calc bit (s.dbmApr scad dispPf) k = bit s.aprFlags (k - 22) := hdbm
    _ = bit (BitVec.ofBool s.aprTrapEn ++ BitVec.ofBool s.aprPageEn ++ s.flagBits ++
        BitVec.ofBool s.aprIntReq) (k - 22) := hpri
    _ = bit s.flagBits (k - 22 - 2) := hreq.trans hflags
    _ = bit s.flagBits (k - 24) := by rw [Nat.sub_sub]

theorem bit_flagBits (e : Event) : bit s.flagBits (e.index - 24) = Event.flag s e := by
  unfold bit flagBits
  rw [BitVec.getMsbD_ofBoolListBE]
  cases e with
  | nxm => rfl
  | console => rfl

end Step

/-! ## What an update does -/

section Run

variable {s : Apr} {i : Nat → In} {r w : Nat} {mset mclear : BitVec 36}

/-- The flag after an update. -/
theorem Update.flag (h : Update s i r w mset mclear) (e : Event) :
    Event.flag (aprAt s i (w + 1)) e = (Event.occurs (i w) e ||
      (bit mset e.index || (Event.flag (aprAt s i r) e && !bit mclear e.index))) := by
  obtain ⟨scad, dispPf, hword⟩ := h.word
  have hindex : 24 ≤ e.index ∧ e.index ≤ 31 := by
    cases e with
    | nxm => decide
    | console => decide
  have hrst : (i w).rst = false := h.quiet w (Nat.le_of_lt h.before) (Nat.le_refl w)
  have hnext : Event.flag (aprAt s i (w + 1)) e = (Event.occurs (i w) e ||
      if writes (i w) then bit (i w).dp e.index else Event.flag (aprAt s i w) e) :=
    flag_next hrst e
  rw [hnext, if_pos h.written, hword e.index hindex.1 hindex.2, bit_dbmApr _ _ hindex.1 hindex.2,
    bit_flagBits]

/-- An event sets its flag, and the flag is there until it is written. -/
theorem Pending.flag {e : Event} {t : Nat} (h : Pending i t r) (htr : t < r)
    (hevent : Event.occurs (i t) e = true) : Event.flag (aprAt s i r) e = true := by
  obtain ⟨hrst, hnone⟩ := h
  have hset : Event.flag (aprAt s i (t + 1)) e = true := by
    have hnext : Event.flag (aprAt s i (t + 1)) e = (Event.occurs (i t) e ||
        if writes (i t) then bit (i t).dp e.index else Event.flag (aprAt s i t) e) :=
      flag_next hrst e
    rw [hnext, hevent, Bool.true_or]
  refine stays_until (P := fun v => Event.flag (aprAt s i v) e = true)
    (C := fun v => (i v).rst = false ∧ writes (i v) = false) (fun v hv hC => ?_) hset htr
    fun v htv hvr => hnone v htv hvr
  have hnext : Event.flag (aprAt s i (v + 1)) e = (Event.occurs (i v) e ||
      if writes (i v) then bit (i v).dp e.index else Event.flag (aprAt s i v) e) :=
    flag_next hC.1 e
  rw [hnext, hC.2, hv]
  simp

end Run

/-- Events are kept in exactly those runs in which an event between the read and the
write of an update, with none of its kind at the write, meets a flag that the
update sets, or that was set at the read already and is not cleared. -/
theorem keepsEvents_iff (s : Apr) (i : Nat → In) :
    KeepsEvents s i ↔ ∀ r w mset mclear, Update s i r w mset mclear → ∀ e t, r ≤ t → t < w →
      Event.occurs (i t) e = true → Event.occurs (i w) e = false →
      bit mset e.index = true ∨
        (Event.flag (aprAt s i r) e = true ∧ bit mclear e.index = false) := by
  constructor
  · intro hkeeps r w mset mclear hupdate e t hrt htw hevent hlast
    have hpending : Pending i t r :=
      ⟨hupdate.quiet t hrt (Nat.le_of_lt htw), fun v htv hvr => by omega⟩
    have hset : Event.flag (aprAt s i (w + 1)) e = true :=
      hkeeps r w mset mclear hupdate e t hevent (Nat.le_of_lt htw) hpending fun h => by omega
    rw [hupdate.flag, hlast, Bool.false_or] at hset
    simpa using hset
  · intro hmeets r w mset mclear hupdate e t hevent htw hpending hexempt
    rw [hupdate.flag]
    by_cases htr : t < r
    · have hflag : Event.flag (aprAt s i r) e = true := hpending.flag htr hevent
      have hclear : bit mclear e.index = false := by
        rw [← Bool.not_eq_true]
        exact fun h => hexempt ⟨h, htr⟩
      simp [hflag, hclear]
    · cases hlast : Event.occurs (i w) e with
      | true => rfl
      | false =>
          have hlt : t < w := by
            rcases Nat.lt_or_eq_of_le htw with hlt | heq
            · exact hlt
            · rw [heq, hlast] at hevent
              cases hevent
          have hbits := hmeets r w mset mclear hupdate e t (by omega) hlt hevent hlast
          simpa using hbits

/-! ## A console interrupt during the update of the timer

The microcode reads the flags, sets flag 30 and writes them back.  The console
interrupts in the microword between. -/

/-- The clocks of the update.  The word it writes has flag 30 only. -/
def timerUpdate (t : Nat) : In where
  rst := false
  clken := true
  crom := if t = 2 then (0 : BitVec 51) ++ (0b010011 : BitVec 6) ++ (0 : BitVec 51) else 0
  dp := 0o40
  nxmIntr := false
  cslIntr := t == 1

theorem timerUpdate_is_update : Update clear timerUpdate 0 2 0o40 0 where
  before := by decide
  quiet := fun _ _ _ => rfl
  executed := rfl
  selected := by decide
  written := by decide
  word := by
    refine ⟨0, 0, fun k hle hle' => ?_⟩
    obtain ⟨j, rfl⟩ : ∃ j, k = 24 + j := ⟨k - 24, by omega⟩
    have hj : j < 8 := by omega
    clear hle hle'
    revert j
    decide

theorem keepsEvents_fails : ¬ ∀ s i, KeepsEvents s i := by
  intro h
  have hset := h clear timerUpdate 0 2 0o40 0 timerUpdate_is_update .console 1 (by decide)
    (by decide) ⟨rfl, fun v hlt hlt' => by omega⟩ (by decide)
  revert hset
  decide

end Apr

end KS10
