import KS10.Clocked.Run
import KS10.Disk.Locate
import Mathlib.Tactic.SplitIfs

/-!
# The sector address of a disk address

A cylinder, a track and a sector of a drive become the number of the first of two sectors on
the SD card.  The calculator adds them up in registers of fixed widths.  `Ideal` is the same
calculator with numbers for its registers, and for every geometry of the source the registers
of the calculator are at every clock the numbers of the ideal one (`numbers_next`): none of them
runs over.

With the number of the drive above the sector address, two disk addresses have a sector on
the card in common only if they are the same address of the same drive.
-/

namespace KS10

open Clocked

/-! ## The geometries -/

namespace RpType

def rpRP04 : BitVec 16 := 0o020020
def rpRP05 : BitVec 16 := 0o020021
def rpRP06 : BitVec 16 := 0o020022
def rpRM03 : BitVec 16 := 0o020024
def rpRM80 : BitVec 16 := 0o020026
def rpRM05 : BitVec 16 := 0o020027
def rpRP07 : BitVec 16 := 0o020042

def rp04 : RpType := { secN16 := 21, secN18 := 19, trkNUM := 18, cylNUM := 410 }
def rp05 : RpType := { secN16 := 21, secN18 := 19, trkNUM := 18, cylNUM := 410 }
def rp07 : RpType := { secN16 := 49, secN18 := 42, trkNUM := 31, cylNUM := 629 }
def rm05 : RpType := { secN16 := 31, secN18 := 29, trkNUM := 18, cylNUM := 822 }
def rm80 : RpType := { secN16 := 31, secN18 := 29, trkNUM := 13, cylNUM := 558 }

/-- The last sectors, track and cylinder of a type.  An unknown type is an RP06. -/
def last (type : BitVec 16) : RpType :=
  if type == rpRP04 then rp04
  else if type == rpRP05 then rp05
  else if type == rpRP06 then rp06
  else if type == rpRP07 then rp07
  else if type == rpRM03 then rm03
  else if type == rpRM05 then rm05
  else if type == rpRM80 then rm80
  else rp06

/-- The eight drives have types of these. -/
theorem getTYPE_eq_last (k : BitVec 3) : getTYPE k = last (if k = 7 then rpRM03 else rpRP06) := by
  unfold getTYPE
  split
  · rfl
  · rfl

/-- The number of the last sector in the 16-bit or the 18-bit format. -/
def secNUM (t : RpType) (fmt22 : Bool) : BitVec 6 := if fmt22 then t.secN16 else t.secN18

/-- A drive that is small enough for the calculator. -/
structure Small (t : RpType) : Prop where
  trk : t.trkNUM.toNat < 63
  sec : ∀ fmt22, (t.secNUM fmt22).toNat < 63
  size : ∀ fmt22, 2 * ((t.cylNUM.toNat + 1) * (t.trkNUM.toNat + 1) *
    ((t.secNUM fmt22).toNat + 1)) ≤ 2 ^ 21

theorem small_last (type : BitVec 16) : (last type).Small := by
  unfold last
  split_ifs
  all_goals exact ⟨by decide, by decide, by decide⟩

theorem room_last (type : BitVec 16) : (last type).Room := by
  unfold last
  split_ifs
  all_goals exact ⟨by decide, by decide, by decide, by decide, by decide⟩

end RpType

/-! ## Disk addresses -/

structure DiskAddr where
  cyl : BitVec 10
  trk : BitVec 6
  sec : BitVec 6
  deriving DecidableEq

namespace DiskAddr

/-- The address is within the geometry. -/
structure Within (t : RpType) (fmt22 : Bool) (a : DiskAddr) : Prop where
  cyl : a.cyl.toNat ≤ t.cylNUM.toNat
  trk : a.trk.toNat ≤ t.trkNUM.toNat
  sec : a.sec.toNat ≤ (t.secNUM fmt22).toNat

/-- The inputs of the calculator. -/
def inputs (t : RpType) (fmt22 : Bool) (a : DiskAddr) (start : Bool) : RpAddr.In where
  rpTRKNUM := t.trkNUM
  rpSECNUM := t.secNUM fmt22
  rpDCA := a.cyl
  rpTA := a.trk
  rpSA := a.sec
  rpADRSTRT := start

/-- The first of the two sectors of the card. -/
def lsa (t : RpType) (fmt22 : Bool) (a : DiskAddr) : Nat :=
  2 * ((a.cyl.toNat * (t.trkNUM.toNat + 1) + a.trk.toNat) * ((t.secNUM fmt22).toNat + 1) +
    a.sec.toNat)

/-- The sectors of the card that the controller uses for the address of the drive `k`. -/
def card (k : BitVec 3) (rpSDLSA : BitVec 21) : List (BitVec 32) :=
  [0#8 ++ k ++ rpSDLSA, 0#8 ++ k ++ rpSDLSA + 1]

variable {t : RpType} {fmt22 : Bool} {a b : DiskAddr}

/-- The pair of sectors is below the size of the register. -/
theorem Within.lsa_lt (h : Within t fmt22 a) (ht : t.Small) : a.lsa t fmt22 + 1 < 2 ^ 21 := by
  have hsector := RpAddr.succ_le_sectors h.cyl h.trk h.sec
  have hsize := ht.size fmt22
  unfold lsa
  omega

/-- A number is told from its quotient and its remainder. -/
theorem mul_add_inj {n x x' y y' : Nat} (hy : y < n) (hy' : y' < n)
    (h : x * n + y = x' * n + y') : x = x' ∧ y = y' := by
  have hpos : 0 < n := Nat.zero_lt_of_lt hy
  have hquot := congrArg (· / n) h
  have hrem := congrArg (· % n) h
  simp only [Nat.mul_comm _ n, Nat.mul_add_div hpos, Nat.mul_add_mod, Nat.div_eq_of_lt hy,
    Nat.div_eq_of_lt hy', Nat.mod_eq_of_lt hy, Nat.mod_eq_of_lt hy', Nat.add_zero] at hquot hrem
  exact ⟨hquot, hrem⟩

/-- Different addresses of a drive have different sectors. -/
theorem eq_of_lsa (ha : Within t fmt22 a) (hb : Within t fmt22 b)
    (h : a.lsa t fmt22 = b.lsa t fmt22) : a = b := by
  have hsector := Nat.eq_of_mul_eq_mul_left (by decide) h
  obtain ⟨htrack, hsec⟩ :=
    mul_add_inj (Nat.lt_succ_of_le ha.sec) (Nat.lt_succ_of_le hb.sec) hsector
  obtain ⟨hcyl, htrk⟩ :=
    mul_add_inj (Nat.lt_succ_of_le ha.trk) (Nat.lt_succ_of_le hb.trk) htrack
  cases a
  cases b
  rw [mk.injEq]
  exact ⟨BitVec.eq_of_toNat_eq hcyl, BitVec.eq_of_toNat_eq htrk, BitVec.eq_of_toNat_eq hsec⟩

/-- The number of the drive is above both sectors. -/
theorem toNat_of_mem_card {k : BitVec 3} {x : BitVec 21} {sect : BitVec 32}
    (hx : x.toNat + 1 < 2 ^ 21) (h : sect ∈ card k x) :
    sect.toNat = k.toNat * 2 ^ 21 + x.toNat ∨ sect.toNat = k.toNat * 2 ^ 21 + (x.toNat + 1) := by
  have hk := k.isLt
  have hfirst : (0#8 ++ k ++ x).toNat = k.toNat * 2 ^ 21 + x.toNat := by
    rw [BitVec.toNat_append, BitVec.toNat_append, ← Nat.shiftLeft_add_eq_or_of_lt x.isLt,
      Nat.shiftLeft_eq]
    simp
  unfold card at h
  rw [List.mem_cons, List.mem_singleton] at h
  rcases h with rfl | rfl
  · exact .inl hfirst
  · right
    have hone : (1 : BitVec 32).toNat = 1 := rfl
    have hlt : (0#8 ++ k ++ x).toNat + (1 : BitVec 32).toNat < 2 ^ 32 := by
      rw [hfirst, hone]
      omega
    rw [BitVec.toNat_add_of_lt hlt, hfirst, hone, Nat.add_assoc]

/-- Two addresses with a sector of the card in common are the same address of one drive. -/
theorem eq_of_mem_card {k k' : BitVec 3} {x y : BitVec 21} {n m : Nat} (hx : x.toNat = 2 * n)
    (hy : y.toNat = 2 * m) {sect : BitVec 32} (h : sect ∈ card k x) (h' : sect ∈ card k' y) :
    k = k' ∧ n = m := by
  have hxlt := x.isLt
  have hylt := y.isLt
  have hcard := toNat_of_mem_card (by omega) h
  have hcard' := toNat_of_mem_card (by omega) h'
  have hk : k.toNat = k'.toNat := by omega
  exact ⟨BitVec.eq_of_toNat_eq hk, by omega⟩

end DiskAddr

/-! ## The ideal calculator -/

namespace RpAddr

/-- The calculator with numbers for its registers. -/
structure Ideal where
  sum : Nat
  temp : Nat
  loop : Nat
  state : State

namespace Ideal

def next (q : Ideal) (i : In) : Ideal :=
  match q.state with
  | .idle =>
      if i.rpADRSTRT then
        { sum := 0, temp := i.rpDCA.toNat, loop := i.rpTRKNUM.toNat + 1, state := .track }
      else q
  | .track =>
      if q.loop = 0 then
        { sum := 0
          temp := q.sum + i.rpTA.toNat
          loop := i.rpSECNUM.toNat + 1
          state := .sect }
      else { q with sum := q.sum + q.temp, loop := q.loop - 1 }
  | .sect =>
      if q.loop = 0 then { q with sum := q.sum + i.rpSA.toNat, state := .word }
      else { q with sum := q.sum + q.temp, loop := q.loop - 1 }
  | .word => { q with sum := q.sum + q.sum, state := .idle }

/-- What has been added up in each state. -/
def Adds (i : In) (q : Ideal) : Prop :=
  match q.state with
  | .track =>
      q.temp = i.rpDCA.toNat ∧ q.loop ≤ i.rpTRKNUM.toNat + 1 ∧
        q.sum = q.temp * (i.rpTRKNUM.toNat + 1 - q.loop)
  | .sect =>
      q.temp = i.track ∧ q.loop ≤ i.rpSECNUM.toNat + 1 ∧
        q.sum = q.temp * (i.rpSECNUM.toNat + 1 - q.loop)
  | .word => q.temp = i.track ∧ q.loop = 0 ∧ q.sum = i.sector
  | .idle => q.temp = i.track ∧ q.loop = 0 ∧ q.sum = 2 * i.sector

/-- The clocks that are left. -/
def left (i : In) (q : Ideal) : Nat :=
  match q.state with
  | .track => q.loop + 1 + (i.rpSECNUM.toNat + 1) + 2
  | .sect => q.loop + 2
  | .word => 1
  | .idle => 0

/-- The inputs are those of one address. -/
structure Same (i j : In) : Prop where
  rpTRKNUM : j.rpTRKNUM = i.rpTRKNUM
  rpSECNUM : j.rpSECNUM = i.rpSECNUM
  rpDCA : j.rpDCA = i.rpDCA
  rpTA : j.rpTA = i.rpTA
  rpSA : j.rpSA = i.rpSA

end Ideal

/-- The numbers in the registers. -/
def numbers (s : RpAddr) : Ideal :=
  { sum := s.sum.toNat, temp := s.temp.toNat, loop := s.loop.toNat, state := s.state }

variable {i j : In} {q : Ideal} {s : RpAddr}

/-- Every clock of the calculation adds up what it should, and is one less. -/
theorem Ideal.Adds.next (h : Adds i q) (hsame : Same i j) (hbusy : q.state ≠ .idle) :
    Adds i (q.next j) ∧ left i (q.next j) + 1 = left i q := by
  unfold Adds at h
  cases hs : q.state with
  | idle => exact absurd hs hbusy
  | track =>
      rw [hs] at h
      obtain ⟨htemp, hloop, hsum⟩ := h
      unfold Ideal.next Adds left
      rw [hs]
      dsimp only
      split_ifs with hzero
      · dsimp only
        rw [hsame.rpTA, hsame.rpSECNUM, hsum, hzero, htemp]
        refine ⟨⟨rfl, Nat.le_refl _, ?_⟩, by omega⟩
        rw [Nat.sub_self, Nat.mul_zero]
      · dsimp only
        refine ⟨⟨htemp, by omega, ?_⟩, by omega⟩
        have hcount : i.rpTRKNUM.toNat + 1 - (q.loop - 1) =
            i.rpTRKNUM.toNat + 1 - q.loop + 1 := by omega
        rw [hsum, hcount, Nat.mul_succ]
  | sect =>
      rw [hs] at h
      obtain ⟨htemp, hloop, hsum⟩ := h
      unfold Ideal.next Adds left
      rw [hs]
      dsimp only
      split_ifs with hzero
      · dsimp only
        rw [hsame.rpSA, hsum, hzero, htemp, Nat.sub_zero]
        exact ⟨⟨rfl, rfl, rfl⟩, rfl⟩
      · dsimp only
        refine ⟨⟨htemp, by omega, ?_⟩, by omega⟩
        have hcount : i.rpSECNUM.toNat + 1 - (q.loop - 1) =
            i.rpSECNUM.toNat + 1 - q.loop + 1 := by omega
        rw [hsum, hcount, Nat.mul_succ]
  | word =>
      rw [hs] at h
      obtain ⟨htemp, hloop, hsum⟩ := h
      unfold Ideal.next Adds left
      rw [hs]
      dsimp only
      refine ⟨⟨htemp, hloop, ?_⟩, rfl⟩
      rw [hsum, Nat.two_mul]

/-- The numbers fit into the registers. -/
theorem Ideal.Adds.fits (h : Adds i q) (hfits : i.Fits) (hlt : 2 * i.sector < 2 ^ 21) :
    q.sum < 2 ^ 21 ∧ q.temp < 2 ^ 21 ∧ q.loop < 64 := by
  have htrk := hfits.trk
  have hsec := hfits.sec
  have htrack : i.track ≤ i.sector := by
    unfold In.sector
    exact Nat.le_add_right_of_le (Nat.le_mul_of_pos_right _ (Nat.succ_pos _))
  have hcyl : i.rpDCA.toNat ≤ i.track := by
    unfold In.track
    exact Nat.le_add_right_of_le (Nat.le_mul_of_pos_right _ (Nat.succ_pos _))
  unfold Adds at h
  cases hs : q.state with
  | track =>
      rw [hs] at h
      obtain ⟨htemp, hloop, hsum⟩ := h
      have hle : q.sum ≤ i.track := by
        rw [hsum, htemp]
        exact Nat.le_add_right_of_le (Nat.mul_le_mul_left _ (Nat.sub_le _ _))
      omega
  | sect =>
      rw [hs] at h
      obtain ⟨htemp, hloop, hsum⟩ := h
      have hle : q.sum ≤ i.sector := by
        rw [hsum, htemp]
        exact Nat.le_add_right_of_le (Nat.mul_le_mul_left _ (Nat.sub_le _ _))
      omega
  | word =>
      rw [hs] at h
      obtain ⟨htemp, hloop, hsum⟩ := h
      omega
  | idle =>
      rw [hs] at h
      obtain ⟨htemp, hloop, hsum⟩ := h
      omega

/-- A clock that does not run over. -/
theorem numbers_next (h : Ideal.Adds i s.numbers) (hsame : Ideal.Same i j) (hfits : i.Fits)
    (hlt : 2 * i.sector < 2 ^ 21) (hbusy : s.state ≠ .idle) :
    (s.next j).numbers = s.numbers.next j := by
  obtain ⟨hsum, htemp, -⟩ := (h.next hsame hbusy).1.fits hfits hlt
  have hpred (hne : s.loop ≠ 0) : (s.loop - 1).toNat = s.loop.toNat - 1 := by
    rw [BitVec.toNat_sub_of_le]
    · rfl
    · exact Nat.pos_of_ne_zero fun hzero => hne (BitVec.eq_of_toNat_eq hzero)
  have hzero : s.loop.toNat = 0 ↔ s.loop = 0 :=
    ⟨fun hz => BitVec.eq_of_toNat_eq hz, fun hz => congrArg BitVec.toNat hz⟩
  have hext {w v : Nat} (x : BitVec w) (hle : w ≤ v) : (x.setWidth v).toNat = x.toNat :=
    BitVec.toNat_setWidth_of_le hle
  unfold Ideal.next numbers at hsum htemp ⊢
  unfold RpAddr.next
  cases hs : s.state with
  | idle => exact absurd hs hbusy
  | track =>
      simp only [hs, beq_iff_eq, hzero] at hsum htemp ⊢
      split_ifs at hsum htemp ⊢ with hloop
      · have hloops : (j.rpSECNUM + 1).toNat = j.rpSECNUM.toNat + 1 :=
          loop_start (hsame.rpSECNUM ▸ hfits.sec)
        have hta := hext j.rpTA (v := 21) (by decide)
        rw [← hta] at htemp ⊢
        rw [BitVec.toNat_add_of_lt htemp, hloops]
        rfl
      · rw [BitVec.toNat_add_of_lt hsum, hpred hloop]
  | sect =>
      simp only [hs, beq_iff_eq, hzero] at hsum htemp ⊢
      split_ifs at hsum htemp ⊢ with hloop
      · rw [BitVec.toNat_add_of_lt, hext _ (by decide)]
        rwa [hext _ (by decide)]
      · rw [BitVec.toNat_add_of_lt hsum, hpred hloop]
  | word =>
      simp only [hs] at hsum htemp ⊢
      rw [BitVec.toNat_add_of_lt hsum]

/-- The clocks from the start to the end. -/
def In.clocks (i : In) : Nat := i.rpTRKNUM.toNat + i.rpSECNUM.toNat + 6

/-- The numbers after the start. -/
theorem Ideal.adds_start (hidle : q.state = .idle) (hstart : j.rpADRSTRT = true)
    (hsame : Same i j) : Adds i (q.next j) ∧ left i (q.next j) + 1 = i.clocks := by
  have hnext : q.next j =
      { sum := 0, temp := i.rpDCA.toNat, loop := i.rpTRKNUM.toNat + 1, state := .track } := by
    rw [Ideal.next, hidle, ← hsame.rpDCA, ← hsame.rpTRKNUM]
    exact if_pos hstart
  rw [hnext]
  unfold Adds left In.clocks
  refine ⟨⟨rfl, Nat.le_refl _, ?_⟩, by dsimp only; omega⟩
  rw [Nat.sub_self, Nat.mul_zero]

theorem numbers_start (hidle : s.state = .idle) (hstart : j.rpADRSTRT = true)
    (hsame : Ideal.Same i j) (hfits : i.Fits) : (s.next j).numbers = s.numbers.next j := by
  have hloop : (j.rpTRKNUM + 1).toNat = j.rpTRKNUM.toNat + 1 :=
    loop_start (hsame.rpTRKNUM ▸ hfits.trk)
  have hdca : (j.rpDCA.setWidth 21).toNat = j.rpDCA.toNat :=
    BitVec.toNat_setWidth_of_le (by decide)
  unfold numbers Ideal.next RpAddr.next
  simp only [hidle, hstart, if_true, hloop, hdca]
  rfl

/-- The calculator has come to clock `u` of a calculation. -/
structure Comes (i : In) (s : RpAddr) (q : Ideal) (u : Nat) : Prop where
  numbers : s.numbers = q
  adds : Ideal.Adds i q
  left : Ideal.left i q + u = i.clocks

theorem Comes.next {u : Nat} (h : Comes i s q u) (hu : u < i.clocks) (hsame : Ideal.Same i j)
    (hfits : i.Fits) (hlt : 2 * i.sector < 2 ^ 21) : Comes i (s.next j) (q.next j) (u + 1) := by
  have hleft := h.left
  have hbusy : q.state ≠ .idle := by
    intro hidle
    rw [Ideal.left, hidle, Nat.zero_add] at hleft
    exact Nat.ne_of_lt hu hleft
  obtain rfl := h.numbers
  obtain ⟨hadds, hdown⟩ := h.adds.next hsame hbusy
  exact ⟨numbers_next h.adds hsame hfits hlt hbusy, hadds, by omega⟩

/-- A calculation comes to each of its clocks, and does not heed another start. -/
theorem comes {i : Nat → In} (hidle : s.state = .idle) (hstart : (i 0).rpADRSTRT = true)
    (hsame : ∀ u, Ideal.Same (i 0) (i u)) (hfits : (i 0).Fits)
    (hlt : 2 * (i 0).sector < 2 ^ 21) {u : Nat} (hpos : 0 < u) (hu : u ≤ (i 0).clocks) :
    Comes (i 0) (run next s i u) (run Ideal.next s.numbers i u) u := by
  induction u, hpos using Nat.le_induction with
  | base =>
      have hleft := Ideal.adds_start (q := s.numbers) hidle hstart (hsame 0)
      exact ⟨numbers_start hidle hstart (hsame 0) hfits, hleft.1, hleft.2⟩
  | succ u _ ih => exact (ih (Nat.le_of_succ_le hu)).next hu (hsame u) hfits hlt

/-- The calculator is busy until the last of its clocks. -/
theorem Comes.busy {u : Nat} (h : Comes i s q u) : s.rpADRBUSY = decide (u < i.clocks) := by
  have hleft := h.left
  obtain rfl := h.numbers
  have hstate : s.numbers.state = s.state := rfl
  unfold Ideal.left at hleft
  unfold rpADRBUSY
  cases hs : s.state with
  | idle =>
      rw [hstate, hs, Nat.zero_add] at hleft
      rw [hleft]
      exact (decide_eq_false (Nat.lt_irrefl _)).symm
  | track | sect | word =>
      rw [hstate, hs] at hleft
      dsimp only at hleft
      exact (decide_eq_true (by omega)).symm

theorem Comes.rpSDLSA (h : Comes i s q i.clocks) : s.rpSDLSA.toNat = 2 * i.sector := by
  have hidle : s.state = .idle := by
    have hbusy := h.busy
    rw [decide_eq_false (Nat.lt_irrefl _)] at hbusy
    simpa [rpADRBUSY] using hbusy
  have hadds := h.adds
  obtain rfl := h.numbers
  have hstate : s.numbers.state = .idle := hidle
  rw [Ideal.Adds, hstate] at hadds
  exact hadds.2.2

end RpAddr

/-! ## Every geometry -/

namespace DiskAddr

open RpType (last)

/-- A calculator that is idle and is started for an address.  It may be started again at any
clock. -/
structure Calc (t : RpType) (fmt22 : Bool) (a : DiskAddr) where
  first : RpAddr
  start : Nat → Bool
  idle : first.state = .idle
  starts : start 0 = true

variable {t : RpType} {fmt22 : Bool} {a : DiskAddr}

namespace Calc

def input (c : Calc t fmt22 a) (u : Nat) : RpAddr.In := a.inputs t fmt22 (c.start u)

/-- The calculator at clock `u`. -/
def after (c : Calc t fmt22 a) (u : Nat) : RpAddr := run RpAddr.next c.first c.input u

/-- The numbers that it should have. -/
def ideal (c : Calc t fmt22 a) (u : Nat) : RpAddr.Ideal :=
  run RpAddr.Ideal.next c.first.numbers c.input u

/-- The clock of the end. -/
def ends (c : Calc t fmt22 a) : Nat := (c.input 0).clocks

/-- The sector address that is calculated. -/
def result (c : Calc t fmt22 a) : BitVec 21 := (c.after c.ends).rpSDLSA

theorem comes (c : Calc t fmt22 a) (ht : t.Small) (ha : Within t fmt22 a) {u : Nat} (hpos : 0 < u)
    (hu : u ≤ c.ends) : RpAddr.Comes (c.input 0) (c.after u) (c.ideal u) u := by
  have hlt : 2 * (c.input 0).sector < 2 ^ 21 := Nat.lt_of_succ_lt (ha.lsa_lt ht)
  exact RpAddr.comes c.idle c.starts (fun _ => ⟨rfl, rfl, rfl, rfl, rfl⟩) ⟨ht.trk, ht.sec fmt22⟩
    hlt hpos hu

theorem ends_pos (c : Calc t fmt22 a) : 0 < c.ends := Nat.succ_pos _

theorem result_eq (c : Calc t fmt22 a) (ht : t.Small) (ha : Within t fmt22 a) :
    c.result.toNat = a.lsa t fmt22 := (c.comes ht ha c.ends_pos (Nat.le_refl _)).rpSDLSA

/-- The calculation ends at its last clock, with twice the number of the sector, and no
register has run over. -/
structure Exact (c : Calc t fmt22 a) : Prop where
  busy : ∀ u, 0 < u → u ≤ c.ends → (c.after u).rpADRBUSY = decide (u < c.ends)
  result : c.result.toNat =
    2 * ((a.cyl.toNat * (t.trkNUM.toNat + 1) + a.trk.toNat) * ((t.secNUM fmt22).toNat + 1) +
      a.sec.toNat)
  numbers : ∀ u, u ≤ c.ends → (c.after u).numbers = c.ideal u

theorem exact (c : Calc t fmt22 a) (ht : t.Small) (ha : Within t fmt22 a) : Exact c where
  busy _ hpos hu := (c.comes ht ha hpos hu).busy
  result := c.result_eq ht ha
  numbers u hu := by
    rcases Nat.eq_zero_or_pos u with rfl | hpos
    · rfl
    · exact (c.comes ht ha hpos hu).numbers

end Calc

/-- Every address of every geometry is calculated exactly, and two addresses share a sector of
the card only if they are the same address of the same drive. -/
theorem mapped (type : BitVec 16) (fmt22 : Bool) (a : DiskAddr)
    (ha : Within (last type) fmt22 a) (c : Calc (last type) fmt22 a) :
    c.Exact ∧ ∀ (type' : BitVec 16) (fmt22' : Bool) (a' : DiskAddr),
      Within (last type') fmt22' a' → ∀ (c' : Calc (last type') fmt22' a') (k k' : BitVec 3),
        k ≠ k' ∨ type = type' ∧ fmt22 = fmt22' ∧ a ≠ a' →
          List.Disjoint (card k c.result) (card k' c'.result) := by
  refine ⟨c.exact (RpType.small_last type) ha, fun type' fmt22' a' ha' c' k k' hdiff => ?_⟩
  intro sect hsect hsect'
  have hresult := c.result_eq (RpType.small_last type) ha
  have hresult' := c'.result_eq (RpType.small_last type') ha'
  obtain ⟨hk, hsame⟩ := eq_of_mem_card hresult hresult' hsect hsect'
  rcases hdiff with hne | ⟨rfl, rfl, hne⟩
  · exact hne hk
  · exact hne (eq_of_lsa ha ha' (congrArg (2 * ·) hsame))

/-- The last address of the largest disk, started over and over. -/
def lastRP07 : Calc (last RpType.rpRP07) true { cyl := 629, trk := 31, sec := 49 } where
  first := { sum := 5, temp := 7, loop := 3, state := .idle }
  start _ := true
  idle := rfl
  starts := rfl

theorem lastRP07_within : Within (last RpType.rpRP07) true { cyl := 629, trk := 31, sec := 49 } :=
  ⟨by decide, by decide, by decide⟩

theorem mapped_lastRP07 : lastRP07.ends = 86 ∧ lastRP07.Exact ∧
    List.Disjoint (card 3 lastRP07.result) (card 4 lastRP07.result) := by
  obtain ⟨hexact, hdisjoint⟩ := mapped RpType.rpRP07 true _ lastRP07_within lastRP07
  exact ⟨rfl, hexact,
    hdisjoint RpType.rpRP07 true _ lastRP07_within lastRP07 3 4 (Or.inl (by decide))⟩

end DiskAddr

end KS10
