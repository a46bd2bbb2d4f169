import KS10.Clocked.Field
import KS10.Disk.Spi
import Mathlib.Data.Nat.Count
import Mathlib.Tactic.IntervalCases

/-!
# The bits of a byte

A byte on the SPI takes eighteen phases of `SdSpi.period` clocks: a low and a high one for each
of the eight bits, and two more in which the clock output stays high.  `SdSpi.phase` says what
the registers hold at the start of each phase, and from it come the levels of the outputs at
every clock, the bits received and the end of the byte (`SdSpi.transfer_bits`).
-/

namespace KS10

open Clocked

namespace SdSpi

/-- The clock output to the card. -/
def spiSCLK (s : SdSpi) : Bool := s.state != .txl

/-- The byte received. -/
def spiRXD (s : SdSpi) : BitVec 8 := s.rxd

/-! ## The shift registers -/

/-- A byte of which `k` bits are sent. -/
def sending (tx : BitVec 8) : Nat → BitVec 8
  | 0 => tx
  | k + 1 => shiftIn (sending tx k) true

/-- A register into which `k` levels are shifted. -/
def receiving (rx : BitVec 8) (miso : Nat → Bool) : Nat → BitVec 8
  | 0 => rx
  | k + 1 => shiftIn (receiving rx miso k) (miso k)

theorem bit_shiftIn {k : Nat} (x : BitVec 8) (b : Bool) (hk : k < 7) :
    bit (shiftIn x b) k = bit x (k + 1) := by
  have hfield : bit (field x 1 7) k = bit x (1 + k) :=
    bit_field x (by omega) (by omega) (by omega)
  unfold shiftIn
  rw [bit_append, if_neg (by omega), Nat.add_comm k 1]
  exact hfield

theorem bit_shiftIn_last (x : BitVec 8) (b : Bool) : bit (shiftIn x b) 7 = b := by
  unfold shiftIn
  rw [bit_append, if_pos (Nat.le_refl 7)]
  cases b <;> rfl

theorem bit_sending {k j : Nat} (tx : BitVec 8) (h : j + k < 8) :
    bit (sending tx k) j = bit tx (j + k) := by
  induction k generalizing j with
  | zero => rfl
  | succ k ih =>
      show bit (shiftIn (sending tx k) true) j = _
      rw [bit_shiftIn _ _ (by omega), ih (by omega), Nat.add_assoc, Nat.add_comm 1 k]

/-- The level shifted in as number `j` is `k - j` bits from the right after `k` levels. -/
theorem bit_receiving {j k : Nat} (rx : BitVec 8) (miso : Nat → Bool) (hj : j < k) (hk : k ≤ 8) :
    bit (receiving rx miso k) (8 - k + j) = miso j := by
  induction k with
  | zero => exact absurd hj (Nat.not_lt_zero j)
  | succ k ih =>
      show bit (shiftIn (receiving rx miso k) (miso k)) _ = _
      rcases Nat.lt_succ_iff_lt_or_eq.mp hj with hlt | rfl
      · rw [bit_shiftIn _ _ (by omega), ← ih hlt (by omega)]
        congr 1
        omega
      · have hlast : 8 - (j + 1) + j = 7 := by omega
        rw [hlast, bit_shiftIn_last]

/-! ## One phase -/

variable {s : SdSpi} {i : Nat → In}

/-- The registers in the first clock of a phase. -/
structure PhaseStart (s : SdSpi) : Prop where
  shifting : s.shifting = true
  full : s.clkcnt = s.clkdiv

/-- Within a phase only the divider counts. -/
theorem next_of_clkcnt (h : s.shifting = true) (hclk : s.clkcnt ≠ 0) (i : In) :
    s.next i = { s with clkcnt := s.clkcnt - 1 } := by
  have hne : (s.clkcnt == 0) = false := beq_eq_false_iff_ne.mpr hclk
  unfold next
  cases hstate : s.state with
  | reset => simp [shifting, hstate] at h
  | idle => simp [shifting, hstate] at h
  | txl | txh | txm | txn =>
      simp only [hne, Bool.false_eq_true, if_false]

theorem PhaseStart.run (h : PhaseStart s) {j : Nat} (hj : j < s.period) :
    ∃ c : BitVec 6, c.toNat + j = s.clkdiv.toNat ∧ run next s i j = { s with clkcnt := c } := by
  induction j with
  | zero => exact ⟨s.clkcnt, congrArg BitVec.toNat h.full, rfl⟩
  | succ j ih =>
      obtain ⟨c, hc, hrun⟩ := ih (Nat.lt_of_succ_lt hj)
      unfold period at hj
      have hne : c ≠ 0 := by
        rintro rfl
        rw [BitVec.ofNat_eq_ofNat, BitVec.toNat_ofNat, Nat.zero_mod] at hc
        omega
      have hpred : (c - 1).toNat + 1 = c.toNat := toNat_pred hne
      refine ⟨c - 1, by omega, ?_⟩
      rw [run_succ, hrun]
      exact next_of_clkcnt (s := { s with clkcnt := c }) h.shifting hne (i j)

/-- What the last clock of a phase does. -/
theorem PhaseStart.run_period (h : PhaseStart s) :
    Clocked.run next s i s.period = next { s with clkcnt := 0 } (i s.clkdiv.toNat) := by
  obtain ⟨c, hc, hrun⟩ := h.run (i := i) (j := s.clkdiv.toNat) (Nat.lt_succ_self _)
  have hzero : c = 0 := BitVec.eq_of_toNat_eq (by
    rw [BitVec.ofNat_eq_ofNat, BitVec.toNat_ofNat, Nat.zero_mod]
    omega)
  unfold period
  rw [run_succ, hrun, hzero]

/-! ## The phases of a byte -/

/-- The state of the engine in a phase. -/
def phaseState (q : Nat) : State :=
  if q = 16 then .txm else if q = 17 then .txn else if q % 2 = 0 then .txl else .txh

/-- The level of the data input at the clock at which bit `k` is received. -/
def miso (s : SdSpi) (i : Nat → In) (k : Nat) : Bool := (i ((2 * k + 1) * s.period)).spiMISO

/-- The registers at the start of phase `q` of the byte that an idle engine is given. -/
def phase (s : SdSpi) (i : Nat → In) (q : Nat) : SdSpi :=
  { s with
    state := phaseState q
    bitcnt := BitVec.ofNat 3 (7 - min (q / 2) 7)
    txd := sending (i 0).spiTXD (min (q / 2) 7)
    rxd := receiving s.rxd (s.miso i) (min ((q + 1) / 2) 8)
    clkcnt := s.clkdiv
    spiDONE := false }

/-- The registers after the last phase. -/
def ended (s : SdSpi) (i : Nat → In) : SdSpi :=
  { s with
    state := .idle
    bitcnt := 0
    txd := sending (i 0).spiTXD 7
    rxd := receiving s.rxd (s.miso i) 8
    clkcnt := s.clkdiv
    spiDONE := true }

theorem phase_start (s : SdSpi) (i : Nat → In) (q : Nat) : PhaseStart (s.phase i q) := by
  refine ⟨?_, rfl⟩
  unfold shifting phase phaseState
  split
  · rfl
  · split
    · rfl
    · split <;> rfl

/-- The last clock of a phase goes over to the next one. -/
theorem phase_succ (s : SdSpi) (i : Nat → In) {q : Nat} (hq : q < 17) :
    next { s.phase i q with clkcnt := 0 } (i ((q + 1) * s.period)) = s.phase i (q + 1) := by
  interval_cases q <;> simp [next, phase, phaseState, sending, receiving, miso]

theorem phase_last (s : SdSpi) (i : Nat → In) (x : In) :
    next { s.phase i 17 with clkcnt := 0 } x = s.ended i := rfl

/-- The clock after the byte was given starts the first phase. -/
theorem run_one (hidle : s.state = .idle) (hop : (i 0).spiOP = .tr) :
    run next s i 1 = s.phase i 0 := by
  show s.next (i 0) = _
  unfold next
  rw [hidle, hop]
  rfl

theorem run_phase (hidle : s.state = .idle) (hop : (i 0).spiOP = .tr) {q : Nat} (hq : q < 18) :
    run next s i (1 + q * s.period) = s.phase i q := by
  induction q with
  | zero =>
      rw [Nat.zero_mul]
      exact run_one hidle hop
  | succ q ih =>
      have hstart := phase_start s i q
      have hclock : 1 + q * s.period + s.clkdiv.toNat = (q + 1) * s.period := by
        rw [Nat.succ_mul]
        unfold period
        omega
      rw [Nat.succ_mul, ← Nat.add_assoc, run_add, ih (by omega), ← phase_succ s i (by omega),
        ← hclock]
      exact hstart.run_period

/-- The registers at every clock of a byte. -/
theorem run_within (hidle : s.state = .idle) (hop : (i 0).spiOP = .tr) {q j : Nat} (hq : q < 18)
    (hj : j < s.period) :
    ∃ c, run next s i (1 + q * s.period + j) = { s.phase i q with clkcnt := c } := by
  rw [run_add, run_phase hidle hop hq]
  obtain ⟨c, _, hrun⟩ := (phase_start s i q).run hj
  exact ⟨c, hrun⟩

theorem run_ended (hidle : s.state = .idle) (hop : (i 0).spiOP = .tr) :
    run next s i (18 * s.period + 1) = s.ended i := by
  have hlast : 18 * s.period + 1 = 1 + 17 * s.period + s.period := by omega
  rw [hlast, run_add, run_phase hidle hop (by decide)]
  exact (phase_start s i 17).run_period.trans (phase_last s i _)

/-- Every clock of a byte is in one of its phases. -/
theorem exists_phase (s : SdSpi) {t : Nat} (hpos : 0 < t) (ht : t ≤ 18 * s.period) :
    ∃ q j, q < 18 ∧ j < s.period ∧ t = 1 + q * s.period + j := by
  have hperiod : 0 < s.period := Nat.succ_pos _
  refine ⟨(t - 1) / s.period, (t - 1) % s.period, ?_, Nat.mod_lt _ hperiod, ?_⟩
  · exact (Nat.div_lt_iff_lt_mul hperiod).mpr (by omega)
  · have hsplit := Nat.div_add_mod' (t - 1) s.period
    omega

/-! ## The levels of the outputs -/

theorem phaseState_ne_txl {q : Nat} (hq : q < 18) :
    (phaseState q != .txl) = decide (q % 2 = 1 ∨ 16 ≤ q) := by
  interval_cases q <;> rfl

/-- The clock output is low in the first phase of each bit only. -/
theorem sclk_within (hidle : s.state = .idle) (hop : (i 0).spiOP = .tr) {q j : Nat} (hq : q < 18)
    (hj : j < s.period) :
    (run next s i (1 + q * s.period + j)).spiSCLK = decide (q % 2 = 1 ∨ 16 ≤ q) := by
  obtain ⟨c, hrun⟩ := run_within hidle hop hq hj
  rw [hrun]
  exact phaseState_ne_txl hq

theorem mosi_eq_bit (s : SdSpi) : s.spiMOSI = bit s.txd 0 := by
  unfold spiMOSI bit
  rw [BitVec.getMsbD_eq_getLsbD]
  rfl

/-- Both phases of a bit show it on the data output. -/
theorem mosi_within (hidle : s.state = .idle) (hop : (i 0).spiOP = .tr) {q j : Nat} (hq : q < 16)
    (hj : j < s.period) :
    (run next s i (1 + q * s.period + j)).spiMOSI = bit (i 0).spiTXD (q / 2) := by
  have hbit : min (q / 2) 7 = q / 2 := by omega
  obtain ⟨c, hrun⟩ := run_within hidle hop (by omega : q < 18) hj
  rw [hrun, mosi_eq_bit]
  show bit (sending (i 0).spiTXD (min (q / 2) 7)) 0 = _
  rw [hbit, bit_sending _ (by omega), Nat.zero_add]

/-- A rising edge of the clock output. -/
def rises (s : SdSpi) (i : Nat → In) (t : Nat) : Prop :=
  (run next s i t).spiSCLK = false ∧ (run next s i (t + 1)).spiSCLK = true

instance (s : SdSpi) (i : Nat → In) : DecidablePred (rises s i) := fun _ => instDecidableAnd

/-- The clock output rises at the end of the first phase of each bit. -/
theorem rises_iff (hidle : s.state = .idle) (hop : (i 0).spiOP = .tr) {t : Nat}
    (ht : t ≤ 18 * s.period) : rises s i t ↔ ∃ k, k < 8 ∧ t = (2 * k + 1) * s.period := by
  have hperiod : 0 < s.period := Nat.succ_pos _
  constructor
  · rintro ⟨hlow, hhigh⟩
    have hpos : 0 < t := by
      rw [Nat.pos_iff_ne_zero]
      rintro rfl
      rw [run_zero, spiSCLK, hidle] at hlow
      cases hlow
    obtain ⟨q, j, hq, hj, rfl⟩ := exists_phase s hpos ht
    rw [sclk_within hidle hop hq hj] at hlow
    have hphase : ¬ (q % 2 = 1 ∨ 16 ≤ q) := of_decide_eq_false hlow
    have hend : j + 1 = s.period := by
      by_contra hne
      have hsame := sclk_within hidle hop hq (by omega : j + 1 < s.period)
      rw [← Nat.add_assoc, hhigh] at hsame
      exact hphase (of_decide_eq_true hsame.symm)
    refine ⟨q / 2, by omega, ?_⟩
    have heven : 2 * (q / 2) + 1 = q + 1 := by omega
    rw [heven, Nat.succ_mul]
    omega
  · rintro ⟨k, hk, rfl⟩
    have hclock : (2 * k + 1) * s.period = 1 + 2 * k * s.period + (s.period - 1) := by
      rw [Nat.succ_mul]
      omega
    have hnext : (2 * k + 1) * s.period + 1 = 1 + (2 * k + 1) * s.period + 0 := by omega
    refine ⟨?_, ?_⟩
    · rw [hclock, sclk_within hidle hop (by omega) (by omega)]
      exact decide_eq_false (by omega)
    · rw [hnext, sclk_within hidle hop (by omega) hperiod]
      exact decide_eq_true (by omega)

/-- There is one clock pulse for each bit. -/
theorem count_rises (hidle : s.state = .idle) (hop : (i 0).spiOP = .tr) :
    Nat.count (rises s i) (18 * s.period + 1) = 8 := by
  have hperiod : 0 < s.period := Nat.succ_pos _
  have hset : {t ∈ Finset.range (18 * s.period + 1) | rises s i t} =
      (Finset.range 8).image fun k => (2 * k + 1) * s.period := by
    ext t
    rw [Finset.mem_filter, Finset.mem_range, Finset.mem_image, Nat.lt_succ_iff]
    constructor
    · rintro ⟨ht, hrises⟩
      obtain ⟨k, hk, rfl⟩ := (rises_iff hidle hop ht).mp hrises
      exact ⟨k, Finset.mem_range.mpr hk, rfl⟩
    · rintro ⟨k, hk, rfl⟩
      have hlt := Finset.mem_range.mp hk
      have ht : (2 * k + 1) * s.period ≤ 18 * s.period := Nat.mul_le_mul_right _ (by omega)
      exact ⟨ht, (rises_iff hidle hop ht).mpr ⟨k, hlt, rfl⟩⟩
  have hinj : Function.Injective fun k => (2 * k + 1) * s.period := by
    intro k k' heq
    have := Nat.eq_of_mul_eq_mul_right hperiod heq
    omega
  rw [Nat.count_eq_card_filter_range, hset, Finset.card_image_of_injective _ hinj,
    Finset.card_range]

/-! ## The operations during a byte -/

/-- During a byte the engine looks at the data input only. -/
theorem next_shifting_eq {x y : In} (h : s.shifting = true) (hmiso : x.spiMISO = y.spiMISO) :
    s.next x = s.next y := by
  unfold next
  cases hstate : s.state with
  | reset => simp [shifting, hstate] at h
  | idle => simp [shifting, hstate] at h
  | txl => simp only [hmiso]
  | txh | txm | txn => rfl

theorem shifting_within (hidle : s.state = .idle) (hop : (i 0).spiOP = .tr) {t : Nat}
    (hpos : 0 < t) (ht : t ≤ 18 * s.period) : (run next s i t).shifting = true := by
  obtain ⟨q, j, hq, hj, rfl⟩ := exists_phase s hpos ht
  obtain ⟨c, hrun⟩ := run_within hidle hop hq hj
  rw [hrun]
  exact (phase_start s i q).shifting

/-- Two runs that start a byte in the same way and see the same levels on the data input are the
same run until the byte ends, whatever operations they see. -/
theorem run_eq (hidle : s.state = .idle) (hop : (i 0).spiOP = .tr) {i' : Nat → In}
    (hfirst : i' 0 = i 0)
    (hmiso : ∀ t, 0 < t → t ≤ 18 * s.period → (i' t).spiMISO = (i t).spiMISO) {t : Nat}
    (ht : t ≤ 18 * s.period + 1) : run next s i' t = run next s i t := by
  induction t with
  | zero => rfl
  | succ t ih =>
      rw [run_succ, run_succ, ih (by omega)]
      rcases Nat.eq_zero_or_pos t with rfl | hpos
      · rw [hfirst]
      · exact next_shifting_eq (shifting_within hidle hop hpos (by omega))
          (hmiso t hpos (by omega))

/-! ## The exchange -/

/-- An idle engine carries out the operation that it is given. -/
def Accepts (s : SdSpi) (x : In) (s' : SdSpi) : Prop :=
  match x.spiOP with
  | .nop => s'.shifting = false ∧ s'.spiCS = s.spiCS ∧ s'.clkdiv = s.clkdiv
  | .csl => s'.spiCS = false
  | .csh => s'.spiCS = true
  | .fast => s'.clkdiv = fastDiv
  | .slow => s'.clkdiv = slowDiv
  | .tr => s'.shifting = true ∧ s'.txd = x.spiTXD ∧ s'.remaining = 18 * s.period

theorem accepts_next (hidle : s.state = .idle) (x : In) : Accepts s x (s.next x) := by
  unfold Accepts next
  rw [hidle]
  cases hop : x.spiOP with
  | nop => exact ⟨rfl, rfl, rfl⟩
  | csl | csh | fast | slow => rfl
  | tr =>
      refine ⟨rfl, rfl, ?_⟩
      show s.clkdiv.toNat + 1 + 17 * (s.clkdiv.toNat + 1) = 18 * (s.clkdiv.toNat + 1)
      ring

/-- What an idle engine does with the byte that it is given at clock `0`.  The byte takes the
clocks from `1` on, eighteen phases of `s.period` clocks. -/
structure Exchanges (s : SdSpi) (i : Nat → In) : Prop where
  /-- Each bit is on the data output for two phases, the most significant one first. -/
  mosi : ∀ q, q < 16 → ∀ j, j < s.period →
    (run next s i (1 + q * s.period + j)).spiMOSI = bit (i 0).spiTXD (q / 2)
  /-- The clock output rises between the two phases of each bit, and at no other clock. -/
  rises : ∀ k, k < 8 → rises s i ((2 * k + 1) * s.period)
  pulses : Nat.count (SdSpi.rises s i) (18 * s.period + 1) = 8
  /-- The levels of the data input at these clocks are the byte received. -/
  rxd : ∀ k, k < 8 → bit (run next s i (18 * s.period + 1)).spiRXD k =
    (i ((2 * k + 1) * s.period)).spiMISO
  notDone : ∀ t, 0 < t → t ≤ 18 * s.period → (run next s i t).spiDONE = false
  done : (run next s i (18 * s.period + 1)).spiDONE = true
  doneOnce : (run next s i (18 * s.period + 2)).spiDONE = false
  /-- The operation of the clock with `spiDONE` is carried out. -/
  accepts : Accepts (run next s i (18 * s.period + 1)) (i (18 * s.period + 1))
    (run next s i (18 * s.period + 2))
  /-- Operations during the byte change nothing. -/
  ignores : ∀ i' : Nat → In, i' 0 = i 0 →
    (∀ t, 0 < t → t ≤ 18 * s.period → (i' t).spiMISO = (i t).spiMISO) →
    ∀ t, t ≤ 18 * s.period + 1 → run next s i' t = run next s i t
  cs : ∀ t, t ≤ 18 * s.period + 1 → (run next s i t).spiCS = s.spiCS
  clkdiv : ∀ t, t ≤ 18 * s.period + 1 → (run next s i t).clkdiv = s.clkdiv

/-- At every clock of a byte, and at its end, the chip select and the divisor are those from
before. -/
theorem keeps_within (hidle : s.state = .idle) (hop : (i 0).spiOP = .tr) {t : Nat}
    (ht : t ≤ 18 * s.period + 1) :
    (run next s i t).spiCS = s.spiCS ∧ (run next s i t).clkdiv = s.clkdiv := by
  rcases Nat.eq_zero_or_pos t with rfl | hpos
  · exact ⟨rfl, rfl⟩
  · rcases Nat.lt_or_eq_of_le ht with hlt | rfl
    · obtain ⟨q, j, hq, hj, rfl⟩ := exists_phase s hpos (Nat.lt_succ_iff.mp hlt)
      obtain ⟨c, hrun⟩ := run_within hidle hop hq hj
      rw [hrun]
      exact ⟨rfl, rfl⟩
    · rw [run_ended hidle hop]
      exact ⟨rfl, rfl⟩

/-- An idle engine exchanges every byte, with every divisor, whatever the card answers and
whatever operations it is given meanwhile. -/
theorem transfer_bits (s : SdSpi) (i : Nat → In) (hidle : s.state = .idle)
    (hop : (i 0).spiOP = .tr) : Exchanges s i where
  mosi := fun _ hq _ hj => mosi_within hidle hop hq hj
  rises := by
    intro k hk
    have ht : (2 * k + 1) * s.period ≤ 18 * s.period := Nat.mul_le_mul_right _ (by omega)
    exact (rises_iff hidle hop ht).mpr ⟨k, hk, rfl⟩
  pulses := count_rises hidle hop
  rxd := by
    intro k hk
    rw [run_ended hidle hop]
    have hbit := bit_receiving s.rxd (s.miso i) hk (Nat.le_refl 8)
    rw [Nat.sub_self, Nat.zero_add] at hbit
    exact hbit
  notDone := by
    intro t hpos ht
    obtain ⟨q, j, hq, hj, rfl⟩ := exists_phase s hpos ht
    obtain ⟨c, hrun⟩ := run_within hidle hop hq hj
    rw [hrun]
    rfl
  done := by
    rw [run_ended hidle hop]
    rfl
  doneOnce := by
    have hend : (s.ended i).state = .idle := rfl
    have hsucc : run next s i (18 * s.period + 2) =
        next (run next s i (18 * s.period + 1)) (i (18 * s.period + 1)) := rfl
    rw [hsucc, run_ended hidle hop]
    cases hcase : (i (18 * s.period + 1)).spiOP with
    | tr => exact (next_tr hend hcase).2
    | nop | csl | csh | fast | slow =>
        exact (next_rest hend (by rw [hcase]; exact nofun)).2
  accepts := by
    have hend : (s.ended i).state = .idle := rfl
    have hsucc : run next s i (18 * s.period + 2) =
        next (run next s i (18 * s.period + 1)) (i (18 * s.period + 1)) := rfl
    rw [hsucc, run_ended hidle hop]
    exact accepts_next hend _
  ignores := fun _ hfirst hmiso _ ht => run_eq hidle hop hfirst hmiso ht
  cs := fun _ ht => (keeps_within hidle hop ht).1
  clkdiv := fun _ ht => (keeps_within hidle hop ht).2

/-- Bytes that are given one right after the other. -/
theorem transfer_at_rest :
    Exchanges { reset with state := .idle, clkdiv := 5 } fun t => ⟨.tr, 0xa5, t % 3 == 0⟩ :=
  transfer_bits _ _ rfl rfl

end SdSpi

end KS10
