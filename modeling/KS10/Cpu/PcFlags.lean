import KS10.Cpu.Microword
import KS10.Clocked.Run

/-!
# The PC flags

Eleven flip-flops, each with an update chain of its own.  All of them listen to
the flag change `selPcFlags`; the overflow flags are also changed by the shift
test `selAshTest` and, with the underflow flag, by the exponent test `selExpTest`.
The three are selections of one field of the microword and exclude each other.

Two laws of the flags are at stake.  A flag that records an exception is *sticky*:
it stays until the program clears it.  And a user program must not be able to
leave user mode by a flag word of its own, which is what the HOLD USER control is
for.
-/

namespace KS10

open Clocked Microword

/-! ## Inputs and registers -/

/-- The inputs of the module at one clock. -/
structure PcFlags.In where
  rst : Bool
  clken : Bool
  crom : Microword
  dp : BitVec 36
  scad : BitVec 10
  regIr : BitVec 18
  aluFlags : BitVec 9

structure PcFlags where
  flagAov : Bool
  flagCry0 : Bool
  flagCry1 : Bool
  flagFov : Bool
  flagFpd : Bool
  flagUser : Bool
  flagUserIo : Bool
  flagTrap2 : Bool
  flagTrap1 : Bool
  flagFxu : Bool
  flagNoDiv : Bool
  deriving DecidableEq

namespace PcFlags

/-- The flags after a reset. -/
def clear : PcFlags :=
  ⟨false, false, false, false, false, false, false, false, false, false, false⟩

/-! ## Selections -/

def selPcFlags (i : In) : Bool := spec40 i.crom 6
def selExpTest (i : In) : Bool := spec40 i.crom 5
def selAshTest (i : In) : Bool := spec40 i.crom 4

def aluAov (i : In) : Bool := bit i.aluFlags 5
def aluCry0 (i : In) : Bool := bit i.aluFlags 6
def aluCry1 (i : In) : Bool := bit i.aluFlags 7

/-- The JFCL instruction names the flag of bit `k` of its AC field and finds it set. -/
def jfcl (i : In) (flag : Bool) (k : Nat) : Bool :=
  selPcFlags i && cromJfclFlags i.crom && flag && bit i.regIr k

/-- The JFCL instruction skips. -/
def skipJfcl (s : PcFlags) (i : In) : Bool :=
  jfcl i s.flagAov 9 || jfcl i s.flagCry0 10 || jfcl i s.flagCry1 11 || jfcl i s.flagFov 12

/-! ## Updates -/

/-- The datapath word of a shift has lost a significant bit. -/
def ashOverflow (i : In) : Bool := bit i.dp 1 != bit i.dp 2

def nextAov (s : PcFlags) (i : In) : Bool :=
  if selAshTest i then ashOverflow i
  else if selExpTest i then bit i.scad 1
  else if selPcFlags i then
    if cromSetOv i.crom then true
    else if cromAdFlags i.crom && aluAov i then true
    else if jfcl i s.flagAov 9 then false
    else if cromLdFlags i.crom then bit i.dp 0
    else s.flagAov
  else s.flagAov

/-- The two carry flags differ in their bits only. -/
def nextCry (i : In) (flag aluCry : Bool) (jfclBit dpBit : Nat) : Bool :=
  if selPcFlags i then
    if cromAdFlags i.crom && aluCry then true
    else if jfcl i flag jfclBit then false
    else if cromLdFlags i.crom then bit i.dp dpBit
    else flag
  else flag

def nextCry0 (s : PcFlags) (i : In) : Bool := nextCry i s.flagCry0 (aluCry0 i) 10 1
def nextCry1 (s : PcFlags) (i : In) : Bool := nextCry i s.flagCry1 (aluCry1 i) 11 2

def nextFov (s : PcFlags) (i : In) : Bool :=
  if selExpTest i then bit i.scad 1
  else if selPcFlags i then
    if jfcl i s.flagFov 12 then false
    else if cromSetFov i.crom then true
    else if cromLdFlags i.crom then bit i.dp 3
    else s.flagFov
  else s.flagFov

def nextFpd (s : PcFlags) (i : In) : Bool :=
  if selPcFlags i then
    if cromClrFpd i.crom then false
    else if cromSetFpd i.crom then true
    else if cromLdFlags i.crom then bit i.dp 4
    else s.flagFpd
  else s.flagFpd

def nextUser (s : PcFlags) (i : In) : Bool :=
  if selPcFlags i then
    if cromLdFlags i.crom then bit i.dp 5
    else if cromHoldUser i.crom then s.flagUser
    else false
  else s.flagUser

def nextUserIo (s : PcFlags) (i : In) : Bool :=
  if selPcFlags i then
    (!s.flagUser && bit i.dp 6 && cromLdFlags i.crom)
      || (s.flagUserIo && !cromLdFlags i.crom)
      || (s.flagUser && cromSetPcu i.crom)
      || (s.flagUserIo && bit i.dp 6 && cromHoldUser i.crom && cromLdFlags i.crom)
  else s.flagUserIo

def nextTrap2 (s : PcFlags) (i : In) : Bool :=
  if selPcFlags i then
    if cromSetTrap2 i.crom then true
    else if cromLdFlags i.crom then bit i.dp 9
    else false
  else s.flagTrap2

def nextTrap1 (s : PcFlags) (i : In) : Bool :=
  if selAshTest i then ashOverflow i
  else if selExpTest i then bit i.scad 1
  else if selPcFlags i then
    if cromSetTrap1 i.crom then true
    else if cromAdFlags i.crom then aluAov i
    else if cromLdFlags i.crom then bit i.dp 10
    else false
  else s.flagTrap1

def nextFxu (s : PcFlags) (i : In) : Bool :=
  if selExpTest i then bit i.scad 0
  else if selPcFlags i then
    if cromLdFlags i.crom then bit i.dp 11
    else s.flagFxu
  else s.flagFxu

def nextNoDiv (s : PcFlags) (i : In) : Bool :=
  if selPcFlags i then
    if cromSetNoDiv i.crom then true
    else if cromLdFlags i.crom then bit i.dp 12
    else s.flagNoDiv
  else s.flagNoDiv

/-- One clock of the module. -/
def next (s : PcFlags) (i : In) : PcFlags :=
  if i.rst then clear
  else if i.clken then
    { flagAov := s.nextAov i
      flagCry0 := s.nextCry0 i
      flagCry1 := s.nextCry1 i
      flagFov := s.nextFov i
      flagFpd := s.nextFpd i
      flagUser := s.nextUser i
      flagUserIo := s.nextUserIo i
      flagTrap2 := s.nextTrap2 i
      flagTrap1 := s.nextTrap1 i
      flagFxu := s.nextFxu i
      flagNoDiv := s.nextNoDiv i }
  else s

/-- The flags on the bus to the other modules. -/
def pcFlags (s : PcFlags) : BitVec 18 :=
  BitVec.ofBoolListBE [s.flagAov, s.flagCry0, s.flagCry1, s.flagFov, s.flagFpd, s.flagUser,
    s.flagUserIo, false, false, s.flagTrap2, s.flagTrap1, s.flagFxu, s.flagNoDiv, false,
    false, false, false, false]

/-- The registers after `t` clocks. -/
def flagsAt (s : PcFlags) (i : Nat → In) (t : Nat) : PcFlags := run next s i t

/-! ## What one clock does -/

/-- A special function of the number field is selected by its number. -/
theorem spec40_unique {crom : Microword} {a b : BitVec 3} (hab : a ≠ b)
    (h : spec40 crom a = true) : spec40 crom b = false := by
  unfold spec40 at h ⊢
  simp only [Bool.and_eq_true, beq_iff_eq] at h
  rw [h.2, beq_eq_false_iff_ne.mpr hab, Bool.and_false]

theorem next_of_disabled {s : PcFlags} {i : In} (hrst : i.rst = false) (h : i.clken = false) :
    next s i = s := by
  simp [next, hrst, h]

/-! ## Sticky flags

The flags that record an exception, and what the program may clear them with. -/

inductive Sticky where
  | aov
  | cry0
  | cry1
  | fov
  | fxu
  | noDiv
  deriving DecidableEq

/-- The flip-flop of a sticky flag. -/
def flag (s : PcFlags) : Sticky → Bool
  | .aov => s.flagAov
  | .cry0 => s.flagCry0
  | .cry1 => s.flagCry1
  | .fov => s.flagFov
  | .fxu => s.flagFxu
  | .noDiv => s.flagNoDiv

/-- The instruction names the flag in its AC field.  JFCL reaches four of them. -/
def namedByAc (i : In) : Sticky → Bool
  | .aov => bit i.regIr 9
  | .cry0 => bit i.regIr 10
  | .cry1 => bit i.regIr 11
  | .fov => bit i.regIr 12
  | .fxu => false
  | .noDiv => false

/-- The program clears or reloads the flag: a reset, a flag load, or a JFCL of
that very flag. -/
def mayClear (i : In) (f : Sticky) : Bool :=
  i.rst || (i.clken && selPcFlags i &&
    (cromLdFlags i.crom || (cromJfclFlags i.crom && namedByAc i f)))

/-- Every flag, once set, stays set until the program clears or reloads it. -/
def StaysSet (s : PcFlags) (i : Nat → In) : Prop :=
  ∀ f t u, t ≤ u → (flagsAt s i t).flag f = true →
    (∀ v, t ≤ v → v < u → mayClear (i v) f = false) → (flagsAt s i u).flag f = true

/-- The shift test and the exponent test copy their result into the flags they
record it in, also when there is nothing to record. -/
def overwrites (i : In) : Sticky → Bool
  | .aov => i.clken &&
      ((selAshTest i && !ashOverflow i) || (selExpTest i && !bit i.scad 1))
  | .fov => i.clken && selExpTest i && !bit i.scad 1
  | .fxu => i.clken && selExpTest i && !bit i.scad 0
  | _ => false

section Step

variable {s : PcFlags} {i : In} {f : Sticky}

theorem selPcFlags_of_selAshTest (h : selAshTest i = true) : selPcFlags i = false :=
  spec40_unique (by decide) h

theorem selPcFlags_of_selExpTest (h : selExpTest i = true) : selPcFlags i = false :=
  spec40_unique (by decide) h

theorem selExpTest_of_selAshTest (h : selAshTest i = true) : selExpTest i = false :=
  spec40_unique (by decide) h

/-- An overwriting test is not a flag change. -/
theorem mayClear_of_overwrites (hrst : i.rst = false) (h : overwrites i f = true) :
    mayClear i f = false := by
  have hsel : selPcFlags i = false := by
    cases f with
    | aov =>
        simp only [overwrites, Bool.and_eq_true, Bool.or_eq_true] at h
        rcases h with ⟨-, ⟨hash, -⟩ | ⟨hexp, -⟩⟩
        · exact selPcFlags_of_selAshTest hash
        · exact selPcFlags_of_selExpTest hexp
    | fov =>
        simp only [overwrites, Bool.and_eq_true] at h
        exact selPcFlags_of_selExpTest h.1.2
    | fxu =>
        simp only [overwrites, Bool.and_eq_true] at h
        exact selPcFlags_of_selExpTest h.1.2
    | cry0 => simp [overwrites] at h
    | cry1 => simp [overwrites] at h
    | noDiv => simp [overwrites] at h
  simp [mayClear, hrst, hsel]

/-- Without a flag load, JFCL leaves the flags it does not name. -/
theorem jfcl_of_not_named {flag : Bool} {k : Nat}
    (h : (cromJfclFlags i.crom && bit i.regIr k) = false) : jfcl i flag k = false := by
  rw [jfcl, Bool.and_right_comm, Bool.and_assoc (selPcFlags i), h, Bool.and_false,
    Bool.false_and]

theorem nextAov_of_set (hset : s.flagAov = true)
    (hld : selPcFlags i = true → cromLdFlags i.crom = false)
    (hjfcl : selPcFlags i = true → (cromJfclFlags i.crom && bit i.regIr 9) = false) :
    s.nextAov i = !((selAshTest i && !ashOverflow i) || (selExpTest i && !bit i.scad 1)) := by
  unfold nextAov
  cases hash : selAshTest i with
  | true => simp [selExpTest_of_selAshTest hash]
  | false =>
      cases hexp : selExpTest i with
      | true => simp
      | false =>
          cases hsel : selPcFlags i with
          | false => simp [hset]
          | true => simp [hset, hld hsel, jfcl_of_not_named (hjfcl hsel)]

theorem nextCry_of_set {aluCry : Bool} {k d : Nat}
    (hld : selPcFlags i = true → cromLdFlags i.crom = false)
    (hjfcl : selPcFlags i = true → (cromJfclFlags i.crom && bit i.regIr k) = false) :
    nextCry i true aluCry k d = true := by
  unfold nextCry
  cases hsel : selPcFlags i with
  | false => rfl
  | true => simp [hld hsel, jfcl_of_not_named (hjfcl hsel)]

theorem nextFov_of_set (hset : s.flagFov = true)
    (hld : selPcFlags i = true → cromLdFlags i.crom = false)
    (hjfcl : selPcFlags i = true → (cromJfclFlags i.crom && bit i.regIr 12) = false) :
    s.nextFov i = !(selExpTest i && !bit i.scad 1) := by
  unfold nextFov
  cases hexp : selExpTest i with
  | true => simp
  | false =>
      cases hsel : selPcFlags i with
      | false => simp [hset]
      | true => simp [hset, hld hsel, jfcl_of_not_named (hjfcl hsel)]

theorem nextFxu_of_set (hset : s.flagFxu = true)
    (hld : selPcFlags i = true → cromLdFlags i.crom = false) :
    s.nextFxu i = !(selExpTest i && !bit i.scad 0) := by
  unfold nextFxu
  cases hexp : selExpTest i with
  | true => simp
  | false =>
      cases hsel : selPcFlags i with
      | false => simp [hset]
      | true => simp [hset, hld hsel]

theorem nextNoDiv_of_set (hset : s.flagNoDiv = true)
    (hld : selPcFlags i = true → cromLdFlags i.crom = false) : s.nextNoDiv i = true := by
  unfold nextNoDiv
  cases hsel : selPcFlags i with
  | false => simp [hset]
  | true => simp [hset, hld hsel]

/-- What one clock does to a set flag that the program does not clear. -/
theorem flag_next (hset : s.flag f = true) (hkeep : mayClear i f = false) :
    (next s i).flag f = !overwrites i f := by
  unfold mayClear at hkeep
  simp only [Bool.or_eq_false_iff] at hkeep
  obtain ⟨hrst, hkeep⟩ := hkeep
  cases hclk : i.clken with
  | false =>
      rw [next_of_disabled hrst hclk, hset]
      cases f <;> simp [overwrites, hclk]
  | true =>
      rw [hclk, Bool.true_and] at hkeep
      have hsel (h : selPcFlags i = true) : cromLdFlags i.crom = false ∧
          (cromJfclFlags i.crom && namedByAc i f) = false := by
        rw [h, Bool.true_and, Bool.or_eq_false_iff] at hkeep
        exact hkeep
      have hld : selPcFlags i = true → cromLdFlags i.crom = false := fun h => (hsel h).1
      have hjfcl := fun h => (hsel h).2
      rw [next, if_neg (by simp [hrst]), if_pos hclk]
      cases f with
      | aov =>
          simp only [flag, overwrites, hclk, Bool.true_and] at hset ⊢
          exact nextAov_of_set hset hld hjfcl
      | cry0 =>
          simp only [flag] at hset
          simp only [flag, overwrites, nextCry0, hset]
          exact nextCry_of_set hld hjfcl
      | cry1 =>
          simp only [flag] at hset
          simp only [flag, overwrites, nextCry1, hset]
          exact nextCry_of_set hld hjfcl
      | fov =>
          simp only [flag, overwrites, hclk, Bool.true_and] at hset ⊢
          exact nextFov_of_set hset hld hjfcl
      | fxu =>
          simp only [flag, overwrites, hclk, Bool.true_and] at hset ⊢
          exact nextFxu_of_set hset hld
      | noDiv => exact nextNoDiv_of_set hset hld

end Step

/-- The flags stay set in exactly those runs in which no shift test without
overflow meets a set overflow flag, and no exponent test without overflow or
underflow meets a set flag of that kind. -/
theorem staysSet_iff (s : PcFlags) (i : Nat → In) :
    StaysSet s i ↔ ∀ f t, (flagsAt s i t).flag f = true → (i t).rst = false →
      overwrites (i t) f = false := by
  constructor
  · intro hstays f t hset hrst
    by_contra hover
    rw [Bool.not_eq_false] at hover
    have hkeep : mayClear (i t) f = false := mayClear_of_overwrites hrst hover
    have hnext : (flagsAt s i (t + 1)).flag f = !overwrites (i t) f := flag_next hset hkeep
    have hstill : (flagsAt s i (t + 1)).flag f = true := by
      refine hstays f t (t + 1) (Nat.le_succ t) hset fun v htv hvt => ?_
      obtain rfl : v = t := by omega
      exact hkeep
    rw [hstill, hover] at hnext
    cases hnext
  · intro hmeets f t u htu hset hkeep
    induction u, htu using Nat.le_induction with
    | base => exact hset
    | succ u htu ih =>
        have hu : (flagsAt s i u).flag f = true :=
          ih fun v htv hvu => hkeep v htv (Nat.lt_succ_of_lt hvu)
        have hfree : mayClear (i u) f = false := hkeep u htu (Nat.lt_succ_self u)
        have hrst : (i u).rst = false := by
          simp only [mayClear, Bool.or_eq_false_iff] at hfree
          exact hfree.1
        have hnext : (flagsAt s i (u + 1)).flag f = !overwrites (i u) f := flag_next hu hfree
        rw [hnext, hmeets f u hu hrst]
        rfl

/-! An exponent test, of a result that fits, after an overflow. -/

/-- One clock of a microword with the special function `sel` of the 40 group and
the number field `num`. -/
def microStep (sel : BitVec 3) (num : BitVec 18) (dp : BitVec 36) : In where
  rst := false
  clken := true
  crom := (0 : BitVec 51) ++ (4#3 ++ sel) ++ (0 : BitVec 33) ++ num
  dp := dp
  scad := 0
  regIr := 0
  aluFlags := 0

/-- The overflow flag is set and the next floating point operation does not
overflow. -/
theorem staysSet_fails : ¬ ∀ s i, StaysSet s i := by
  intro h
  have hkeep : mayClear (microStep 5 0 0) .aov = false := by decide
  have hlost := h { clear with flagAov := true } (fun _ => microStep 5 0 0) .aov 0 1
    (by decide) rfl fun _ _ _ => hkeep
  revert hlost
  decide

/-! ## User mode

A flag change with HOLD USER is what the microcode makes with a flag word of the
user program.  Without a load of the previous context it is meant to leave the
program in user mode and not to give it USER-IO. -/

/-- The flags change: a flag change is executed. -/
def changesFlags (i : In) : Bool := i.clken && selPcFlags i

/-- Every flag change holds USER and none loads the previous context. -/
def HoldsUser (i : Nat → In) : Prop :=
  ∀ t, changesFlags (i t) = true →
    cromHoldUser (i t).crom = true ∧ cromSetPcu (i t).crom = false

/-- User mode cannot be escaped. -/
structure Confined (s : PcFlags) (i : Nat → In) : Prop where
  /-- From user mode, held flag changes stay in user mode. -/
  user : s.flagUser = true → HoldsUser i → ∀ t, (flagsAt s i t).flagUser = true
  /-- From user mode, held flag changes do not set USER-IO. -/
  userIo : s.flagUser = true → HoldsUser i → ∀ t,
    (flagsAt s i t).flagUserIo = true → s.flagUserIo = true
  /-- Only a flag change without HOLD USER leaves user mode. -/
  leaves : ∀ t, (flagsAt s i t).flagUser = true → (flagsAt s i (t + 1)).flagUser = false →
    changesFlags (i t) = true ∧ cromHoldUser (i t).crom = false

section User

variable {s : PcFlags} {i : In}

/-- What one clock does in user mode.  The flag load goes before HOLD USER. -/
theorem flagUser_next (hrst : i.rst = false) (huser : s.flagUser = true)
    (hhold : changesFlags i = true → cromHoldUser i.crom = true) :
    (next s i).flagUser = !(changesFlags i && cromLdFlags i.crom && !bit i.dp 5) := by
  unfold changesFlags at hhold ⊢
  cases hclk : i.clken with
  | false => simp [next_of_disabled hrst hclk, huser]
  | true =>
      rw [next, if_neg (by simp [hrst]), if_pos hclk]
      simp only [nextUser]
      cases hsel : selPcFlags i with
      | false => simp [huser]
      | true =>
          have hhold : cromHoldUser i.crom = true := hhold (by simp [hclk, hsel])
          cases hld : cromLdFlags i.crom with
          | false => simp [hhold, huser]
          | true => simp

/-- In user mode the flag word can keep USER-IO and not set it. -/
theorem flagUserIo_next (hrst : i.rst = false) (huser : s.flagUser = true)
    (hpcu : changesFlags i = true → cromSetPcu i.crom = false)
    (hset : (next s i).flagUserIo = true) : s.flagUserIo = true := by
  unfold changesFlags at hpcu
  cases hclk : i.clken with
  | false => rwa [next_of_disabled hrst hclk] at hset
  | true =>
      rw [next, if_neg (by simp [hrst]), if_pos hclk] at hset
      simp only [nextUserIo] at hset
      cases hsel : selPcFlags i with
      | false => rwa [hsel, if_neg Bool.false_ne_true] at hset
      | true =>
          rw [hsel, if_pos rfl, huser, hpcu (by simp [hclk, hsel])] at hset
          simp only [Bool.not_true, Bool.false_and, Bool.and_false, Bool.or_false,
            Bool.false_or, Bool.or_eq_true, Bool.and_eq_true] at hset
          rcases hset with ⟨hio, -⟩ | ⟨⟨⟨hio, -⟩, -⟩, -⟩
          · exact hio
          · exact hio

end User

/-- User mode cannot be escaped in exactly those runs in which no flag load with
HOLD USER in user mode brings a flag word without USER. -/
theorem confined_iff (s : PcFlags) (i : Nat → In) (hrst : ∀ t, (i t).rst = false) :
    Confined s i ↔ ∀ t, (flagsAt s i t).flagUser = true → changesFlags (i t) = true →
      cromHoldUser (i t).crom = true → cromLdFlags (i t).crom = true →
      bit (i t).dp 5 = true := by
  constructor
  · intro hconf t huser hchange hhold hld
    by_contra hdp
    rw [Bool.not_eq_true] at hdp
    have hnext : (flagsAt s i (t + 1)).flagUser =
        !(changesFlags (i t) && cromLdFlags (i t).crom && !bit (i t).dp 5) :=
      flagUser_next (hrst t) huser fun _ => hhold
    rw [hchange, hld, hdp] at hnext
    have hunheld := (hconf.leaves t huser hnext).2
    rw [hhold] at hunheld
    cases hunheld
  · intro hloads
    have hstep (t : Nat) (huser : (flagsAt s i t).flagUser = true)
        (hhold : changesFlags (i t) = true → cromHoldUser (i t).crom = true) :
        (flagsAt s i (t + 1)).flagUser = true := by
      have hnext : (flagsAt s i (t + 1)).flagUser =
          !(changesFlags (i t) && cromLdFlags (i t).crom && !bit (i t).dp 5) :=
        flagUser_next (hrst t) huser hhold
      rw [hnext]
      cases hchange : changesFlags (i t) with
      | false => rfl
      | true =>
          cases hld : cromLdFlags (i t).crom with
          | false => rfl
          | true => rw [hloads t huser hchange (hhold hchange) hld]; rfl
    have hrun (huser : s.flagUser = true) (hheld : HoldsUser i) (t : Nat) :
        (flagsAt s i t).flagUser = true := by
      induction t with
      | zero => exact huser
      | succ t ih => exact hstep t ih fun hchange => (hheld t hchange).1
    refine ⟨hrun, fun huser hheld t hset => ?_, fun t huser hleft => ?_⟩
    · induction t with
      | zero => exact hset
      | succ t ih =>
          exact ih (flagUserIo_next (hrst t) (hrun huser hheld t)
            (fun hchange => (hheld t hchange).2) hset)
    · by_contra hheld
      have hstay : (flagsAt s i (t + 1)).flagUser = true := by
        refine hstep t huser fun hchange => ?_
        by_contra hhold
        rw [Bool.not_eq_true] at hhold
        exact hheld ⟨hchange, hhold⟩
      rw [hleft] at hstay
      cases hstay

theorem confined_iff_idle : Confined clear (fun _ => microStep 0 0 0) ↔
    ∀ t, (flagsAt clear (fun _ => microStep 0 0 0) t).flagUser = true →
      changesFlags (microStep 0 0 0) = true → cromHoldUser (microStep 0 0 0).crom = true →
      cromLdFlags (microStep 0 0 0).crom = true → bit (microStep 0 0 0).dp 5 = true :=
  confined_iff clear (fun _ => microStep 0 0 0) fun _ => rfl

/-! A user program loads an empty flag word: bits 95 and 105 of the microword hold
USER and load the flags. -/

theorem confined_fails : ¬ ∀ s i, (∀ t, (i t).rst = false) → Confined s i := by
  intro h
  have hconf := h { clear with flagUser := true } (fun _ => microStep 6 0o10004 0) fun _ => rfl
  have hbits : cromHoldUser (microStep 6 0o10004 0).crom = true ∧
      cromSetPcu (microStep 6 0o10004 0).crom = false := by decide
  have hheld : HoldsUser fun _ => microStep 6 0o10004 0 := fun _ _ => hbits
  have huser := hconf.user rfl hheld 1
  revert huser
  decide

end PcFlags

end KS10
