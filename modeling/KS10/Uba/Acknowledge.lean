import KS10.Bus.Memory
import KS10.Clocked.Run
import KS10.Uba.Bridge

/-!
# Who answers an interrupt

The processor asks with a WRU cycle which adapter interrupts on a level.  Two decodes
have to fit.  An adapter asserts its request on the level that its status register
gives to the pending lines, BR7 and BR6 or BR5 and BR4.  It answers the WRU cycle of a
level that its status register names for either pair, whether a line is pending or
not, and the arbiter takes the answer of the first adapter.

The answer is right if all adapters that name the level have a line pending for it
(`Wru.Agreed`).  The first of them has to have BR7 or BR6 pending if it names the level
twice, as the acknowledge of that level never reaches the lower pair
(`Wru.answers_iff`).
-/

namespace KS10

open Clocked

/-- The highest line of those pending. -/
def Level.highest (l : Level) : Level :=
  if bit l 0 then intr7
  else if bit l 1 then intr6
  else if bit l 2 then intr5
  else if bit l 3 then intr4
  else intrNul

/-- A WRU cycle: the address the processor puts on the bus, the adapters in the four
slots with their status, and the pending requests of their devices. -/
structure Wru where
  addr : BitVec 36
  fitted : Fin 4 → Bool
  ubaAddr : Fin 4 → BitVec 18
  regs : Fin 4 → Uba.Regs
  regUbaSr : Fin 4 → BitVec 36
  pageRam : Fin 4 → PageRam
  devs : Fin 4 → Devices
  cslAckI : Bool
  cslDataI : BitVec 36
  memDataI : BitVec 36

/-- The registers of the four adapters that a WRU cycle moves. -/
structure Wru.State where
  nxd : Fin 4 → UbaNxd
  devInta : Fin 4 → Level

namespace Wru

variable (w : Wru)

def busPi : BitVec 3 := Bus.busPi w.addr

def statPih (n : Fin 4) : BitVec 3 := (w.regs n).statPih
def statPil (n : Fin 4) : BitVec 3 := (w.regs n).statPil

/-- The adapters are numbered from 1. -/
def conf (n : Fin 4) : Uba.Conf where
  ubaNum := BitVec.ofNat 4 (n + 1)
  ubaAddr := w.ubaAddr n

/-- The pending lines of an adapter. -/
def devIntr (n : Fin 4) : Level := UbaIntr.anyIntr (w.devs n).devIntr

/-! ## The cycle -/

/-- One clock in which the processor has the bus. -/
def next (s : State) : State where
  nxd n := (s.nxd n).next (Uba.nxdIn (w.conf n) (w.regs n) (w.devs n) true w.addr)
  devInta n := UbaIntr.nextInta w.addr (w.statPih n) (w.statPil n) (w.devIntr n)

/-- The registers after `t` clocks of the cycle. -/
def after (s : State) (t : Nat) : State := run (fun s _ => w.next s) s (fun _ => ()) t

/-- The adapter acknowledges the cycle. -/
def acks (s : State) (n : Fin 4) : Bool := w.fitted n && (s.nxd n).busAckO true

def arb (s : State) : Arb.In where
  cslReqI := false
  ubaReqI := fun _ => false
  cpuReqI := true
  cslAckI := w.cslAckI
  cslAddrI := 0
  cslDataI := w.cslDataI
  cpuAddrI := w.addr
  cpuDataI := 0
  ubaAckI := w.acks s
  ubaAddrI := fun _ => 0
  ubaDataI := fun n =>
    if w.fitted n then
      Uba.busDataO (w.conf n) (w.pageRam n) (w.regUbaSr n) (w.devs n) true w.addr
    else 0
  memAckI := Mem.busAckO { rst := false, busAddrI := w.addr, busDataI := 0 }
  memDataI := w.memDataI

/-! ## What is asked for -/

/-- The adapter asserts its interrupt request on the level of the cycle. -/
def asserts (n : Fin 4) : Bool :=
  w.fitted n && w.busPi != 0 &&
    bit (UbaIntr.busIntr (w.devIntr n) (w.statPih n) (w.statPil n)) (w.busPi.toNat - 1)

/-- The pending lines that the adapter maps to the level of the cycle. -/
def mapped (n : Fin 4) : Level :=
  w.devIntr n &&&
    ((if w.busPi = w.statPih n then 0b1100 else 0) |||
      (if w.busPi = w.statPil n then 0b0011 else 0))

/-- The adapter has a request of a device on the level of the cycle. -/
def Pending (n : Fin 4) : Prop := w.fitted n = true ∧ w.mapped n ≠ 0

/-- An adapter with a request is named and acknowledges the highest line, and an
adapter without a request neither answers nor acknowledges. -/
structure Answers (s : State) : Prop where
  named : ∃ n, w.Pending n ∧ Arb.cpuAckO (w.arb s) = true ∧
    Arb.cpuDataO (w.arb s) = Uba.getWru (w.conf n).ubaNum ∧ s.devInta n = (w.mapped n).highest
  silent : ∀ n, w.fitted n = true → ¬ w.Pending n →
    w.acks s n = false ∧ s.devInta n = Level.intrNul

/-- The adapter's status register names the level of the cycle. -/
def Names (n : Fin 4) : Prop :=
  w.fitted n = true ∧ (w.busPi = w.statPih n ∨ w.busPi = w.statPil n)

/-- Everyone who names the level has a line pending for it, and the first one has BR7
or BR6 pending if it names the level twice. -/
structure Agreed : Prop where
  pending : ∀ n, w.Names n → w.Pending n
  first : ∀ n, w.Names n → (∀ m, m < n → ¬ w.Names m) → w.statPih n = w.statPil n →
    UbaIntr.statIntHi (w.devIntr n) = true

variable {w}

/-! ## The request side -/

theorem highest_ne_intrNul {l : Level} (h : l ≠ 0) : l.highest ≠ Level.intrNul := by
  revert l
  decide

/-- The line of a priority carries nothing but the requests of that priority. -/
theorem busLine_bit {active : Bool} {pi p : BitVec 3} (hp : p ≠ 0) :
    bit (UbaIntr.busLine active pi) (p.toNat - 1) = (active && decide (p = pi)) := by
  revert active pi p
  decide

theorem bit_or {a b : BitVec 7} {k : Nat} : bit (a ||| b) k = (bit a k || bit b k) := by
  unfold bit
  rw [BitVec.getMsbD_or]

/-- The requests that an adapter asserts are the requests that it maps to the level. -/
theorem pending_of_asserts {n : Fin 4} (h : w.asserts n = true) : w.Pending n := by
  unfold asserts at h
  rw [Bool.and_eq_true, Bool.and_eq_true, bne_iff_ne] at h
  obtain ⟨⟨hfit, hpi⟩, hbit⟩ := h
  refine ⟨hfit, ?_⟩
  unfold UbaIntr.busIntr at hbit
  rw [bit_or, busLine_bit hpi, busLine_bit hpi, Bool.or_eq_true, Bool.and_eq_true,
    Bool.and_eq_true, decide_eq_true_eq, decide_eq_true_eq] at hbit
  unfold mapped
  rcases hbit with ⟨hlo, hpil⟩ | ⟨hhi, hpih⟩
  · rw [if_pos hpil]
    revert hlo
    generalize w.devIntr n = l
    split <;> revert l <;> decide
  · rw [if_pos hpih]
    revert hhi
    generalize w.devIntr n = l
    split <;> revert l <;> decide

/-! ## The acknowledge side -/

theorem names_of_pending {n : Fin 4} (h : w.Pending n) : w.Names n := by
  obtain ⟨hfit, hmapped⟩ := h
  refine ⟨hfit, ?_⟩
  by_contra hnot
  rw [not_or] at hnot
  apply hmapped
  unfold mapped
  rw [if_neg hnot.1, if_neg hnot.2]
  exact BitVec.and_zero

/-- An adapter acknowledges the highest line of the level, unless it names the level
twice and neither BR7 nor BR6 is pending. -/
theorem nextInta_eq_highest {n : Fin 4} (hread : Uba.wruRead w.addr = true) (hnames : w.Names n)
    (htwice : w.statPih n = w.statPil n → UbaIntr.statIntHi (w.devIntr n) = true) :
    UbaIntr.nextInta w.addr (w.statPih n) (w.statPil n) (w.devIntr n) =
      (w.mapped n).highest := by
  have hpi : Bus.busPi w.addr = w.busPi := rfl
  unfold UbaIntr.nextInta mapped
  rw [hread, hpi, Bool.true_and, Bool.true_and]
  by_cases hpih : w.busPi = w.statPih n
  · rw [if_pos (beq_iff_eq.mpr hpih), if_pos hpih]
    by_cases hpil : w.busPi = w.statPil n
    · rw [if_pos hpil]
      have hhi := htwice (hpih.symm.trans hpil)
      revert hhi
      generalize w.devIntr n = l
      revert l
      decide
    · rw [if_neg hpil]
      generalize w.devIntr n = l
      revert l
      decide
  · have hpil : w.busPi = w.statPil n := hnames.2.resolve_left hpih
    rw [if_neg (by rwa [beq_iff_eq]), if_pos (beq_iff_eq.mpr hpil), if_neg hpih, if_pos hpil]
    generalize w.devIntr n = l
    revert l
    decide

/-- The lower pair of an adapter that names the level twice is not acknowledged. -/
theorem nextInta_twice {n : Fin 4} (hpih : w.busPi = w.statPih n)
    (hlow : UbaIntr.statIntHi (w.devIntr n) = false) :
    UbaIntr.nextInta w.addr (w.statPih n) (w.statPil n) (w.devIntr n) = Level.intrNul := by
  have hpi : Bus.busPi w.addr = w.statPih n := hpih
  unfold UbaIntr.statIntHi at hlow
  rw [Bool.or_eq_false_iff] at hlow
  unfold UbaIntr.nextInta
  rw [hpi, beq_self_eq_true, Bool.and_true, hlow.1, hlow.2]
  cases Uba.wruRead w.addr <;> rfl

/-- An adapter without a request acknowledges no device. -/
theorem nextInta_of_not_pending {n : Fin 4} (hfit : w.fitted n = true) (h : ¬ w.Pending n) :
    UbaIntr.nextInta w.addr (w.statPih n) (w.statPil n) (w.devIntr n) = Level.intrNul := by
  have hmapped : w.mapped n = 0 := by
    by_contra hne
    exact h ⟨hfit, hne⟩
  have hpi : Bus.busPi w.addr = w.busPi := rfl
  unfold UbaIntr.nextInta
  unfold mapped at hmapped
  rw [hpi]
  cases Uba.wruRead w.addr with
  | false => rfl
  | true =>
      rw [Bool.true_and, Bool.true_and]
      by_cases hpih : w.busPi = w.statPih n
      · rw [if_pos (beq_iff_eq.mpr hpih)]
        rw [if_pos hpih] at hmapped
        revert hmapped
        generalize w.devIntr n = l
        split <;> revert l <;> decide
      · rw [if_neg (by rwa [beq_iff_eq])]
        rw [if_neg hpih] at hmapped
        by_cases hpil : w.busPi = w.statPil n
        · rw [if_pos (beq_iff_eq.mpr hpil)]
          rw [if_pos hpil] at hmapped
          revert hmapped
          generalize w.devIntr n = l
          revert l
          decide
        · rw [if_neg (by rwa [beq_iff_eq])]

/-! ## The run of the cycle -/

/-- The adapter's timer accepts the cycle of a level that the adapter names, and holds. -/
theorem nxd_next {n : Fin 4} {s : State} (hread : Uba.wruRead w.addr = true)
    (h : (s.nxd n).state = .null ∨ (s.nxd n).state = .ack ∧ Uba.wruAck (w.regs n) w.addr = true) :
    ((w.next s).nxd n).state = if Uba.wruAck (w.regs n) w.addr then .ack else .null := by
  have hwru : Bus.busWru w.addr = true := by
    unfold Uba.wruRead at hread
    simp only [Bool.and_eq_true] at hread
    exact hread.1.2
  have haddressed : Uba.addressed (w.conf n) w.addr = false := by
    unfold Uba.addressed
    rw [hwru]
    simp
  have hvect : Uba.vectRead (w.conf n) w.addr = false := by
    unfold Uba.vectRead
    rw [hwru]
    simp
  have huba : Uba.ubaReq (w.conf n) (w.regs n) w.addr = false := by
    unfold Uba.ubaReq
    rw [haddressed, Bool.false_and]
  have hdev : Uba.devReq (w.conf n) (w.regs n) w.addr = false := by
    unfold Uba.devReq
    rw [haddressed, hvect]
    rfl
  show (((s.nxd n).next (Uba.nxdIn (w.conf n) (w.regs n) (w.devs n) true w.addr)).state) = _
  rcases h with hnull | ⟨hack, hans⟩
  · simp only [UbaNxd.next, Uba.nxdIn, hnull, huba, hdev, hread]
    cases Uba.wruAck (w.regs n) w.addr <;> simp [hnull]
  · simp [UbaNxd.next, Uba.nxdIn, hack, hans]

/-- From the second clock on, the adapters that name the level acknowledge, and the
acknowledge lines are those of the pending requests. -/
theorem after_succ {s : State} (hread : Uba.wruRead w.addr = true)
    (hidle : ∀ n, (s.nxd n).state = .null) (t : Nat) (n : Fin 4) :
    (((w.after s (t + 1)).nxd n).state = if Uba.wruAck (w.regs n) w.addr then .ack else .null) ∧
      (w.after s (t + 1)).devInta n =
        UbaIntr.nextInta w.addr (w.statPih n) (w.statPil n) (w.devIntr n) := by
  refine ⟨?_, rfl⟩
  induction t with
  | zero => exact nxd_next hread (Or.inl (hidle n))
  | succ t ih =>
      refine nxd_next hread ?_
      cases hack : Uba.wruAck (w.regs n) w.addr with
      | false =>
          rw [hack] at ih
          exact Or.inl ih
      | true =>
          rw [hack] at ih
          exact Or.inr ⟨ih, rfl⟩

theorem acks_iff {s : State} (hread : Uba.wruRead w.addr = true)
    (hidle : ∀ n, (s.nxd n).state = .null) (t : Nat) (n : Fin 4) :
    w.acks (w.after s (t + 1)) n = true ↔ w.Names n := by
  have hpi : Bus.busPi w.addr = w.busPi := rfl
  unfold acks UbaNxd.busAckO Names statPih statPil
  rw [(after_succ hread hidle t n).1]
  unfold Uba.wruAck
  rw [hread, hpi, Bool.true_and]
  by_cases hnames : w.busPi = (w.regs n).statPih ∨ w.busPi = (w.regs n).statPil
  · have hor : (w.busPi == (w.regs n).statPih || w.busPi == (w.regs n).statPil) = true := by
      rw [Bool.or_eq_true, beq_iff_eq, beq_iff_eq]
      exact hnames
    rw [hor, if_pos rfl]
    simp [hnames]
  · have hor : (w.busPi == (w.regs n).statPih || w.busPi == (w.regs n).statPil) = false := by
      rw [← Bool.not_eq_true, Bool.or_eq_true, beq_iff_eq, beq_iff_eq]
      exact hnames
    rw [hor]
    simp [hnames]

/-! ## The arbiter -/

/-- The memory leaves the cycle of a level to the adapters. -/
theorem memAckI_eq_false {s : State} (hread : Uba.wruRead w.addr = true) (hpi : w.busPi ≠ 0) :
    (w.arb s).memAckI = false := by
  have hio : Bus.busIo w.addr = true := by
    unfold Uba.wruRead at hread
    simp only [Bool.and_eq_true] at hread
    exact hread.1.1.1.2
  have hdev : (field w.addr 14 17 == Mem.memDev) = false := by
    rw [beq_eq_false_iff_ne]
    intro hzero
    apply hpi
    have hfield : field (field w.addr 14 17) 1 3 = field w.addr 15 17 :=
      field_field w.addr (by decide) (by decide) (by decide) (by decide)
    show field w.addr 15 17 = 0
    rw [← hfield, hzero]
    decide
  unfold Bus.busIo at hio
  show Mem.busAckO { rst := false, busAddrI := w.addr, busDataI := 0 } = false
  unfold Mem.busAckO Mem.msrRead Mem.msrWrite Mem.memRead Mem.memWrite Mem.memWrTest Mem.msr
    Mem.busIo Mem.busDev
  simp only [hio, hdev]
  simp

/-- The processor receives the response of the first adapter that acknowledges. -/
theorem cpuDataO_first {s : State} {n : Fin 4} (hread : Uba.wruRead w.addr = true)
    (hpi : w.busPi ≠ 0) (hack : w.acks s n = true) (hfirst : ∀ m, m < n → w.acks s m = false) :
    Arb.cpuAckO (w.arb s) = true ∧ Arb.cpuDataO (w.arb s) = Uba.getWru (w.conf n).ubaNum := by
  have hmem : (w.arb s).memAckI = false := memAckI_eq_false hread hpi
  have hgrant : Arb.grant (w.arb s).toReqs = .cpu := rfl
  have hacks : (w.arb s).ubaAckI = w.acks s := rfl
  have hdata : (w.arb s).ubaDataI n = Uba.getWru (w.conf n).ubaNum := by
    have hfit : w.fitted n = true := (Bool.and_eq_true _ _ |>.mp hack).1
    show (if w.fitted n then _ else 0) = _
    rw [if_pos hfit]
    unfold Uba.busDataO
    rw [if_pos hread]
  unfold Arb.cpuAckO Arb.cpuDataO Arb.ackData
  rw [hgrant, hmem, hacks, if_pos rfl]
  have hn : n = 0 ∨ n = 1 ∨ n = 2 ∨ n = 3 := by omega
  rcases hn with rfl | rfl | rfl | rfl
  · simp [hack, hdata]
  · simp [hack, hdata, hfirst 0 (by decide)]
  · simp [hack, hdata, hfirst 0 (by decide), hfirst 1 (by decide)]
  · simp [hack, hdata, hfirst 0 (by decide), hfirst 1 (by decide), hfirst 2 (by decide)]

/-- Of the adapters that name the level there is a first one. -/
theorem exists_first_names (h : ∃ n, w.Names n) :
    ∃ n, w.Names n ∧ ∀ m, m < n → ¬ w.Names m := by
  obtain ⟨n, hn⟩ := h
  obtain ⟨k, ⟨hk, hnames⟩, hfirst⟩ := exists_first (p := fun k => ∃ h : k < 4, w.Names ⟨k, h⟩)
    ⟨n, n.isLt, hn⟩
  exact ⟨⟨k, hk⟩, hnames, fun m hm hmn => hfirst m hm ⟨m.isLt, hmn⟩⟩

theorem getWru_inj {n m : Fin 4} (h : Uba.getWru (w.conf n).ubaNum = Uba.getWru (w.conf m).ubaNum) :
    n = m := by
  have hall : ∀ n m : Fin 4, Uba.getWru (BitVec.ofNat 4 (n + 1)) =
      Uba.getWru (BitVec.ofNat 4 (m + 1)) → n = m := by decide
  exact hall n m h

/-- A WRU cycle on a level that somebody asserts is answered right exactly if all
adapters that name the level agree on it. -/
theorem answers_iff (w : Wru) (hread : Uba.wruRead w.addr = true)
    (hsome : ∃ n, w.asserts n = true) {s : State} (hidle : ∀ n, (s.nxd n).state = .null)
    {t : Nat} (ht : 0 < t) : w.Answers (w.after s t) ↔ w.Agreed := by
  obtain ⟨n₀, hn₀⟩ := hsome
  obtain ⟨t, rfl⟩ : ∃ u, t = u + 1 := ⟨t - 1, by omega⟩
  have hpi : w.busPi ≠ 0 := by
    unfold asserts at hn₀
    rw [Bool.and_eq_true, Bool.and_eq_true, bne_iff_ne] at hn₀
    exact hn₀.1.2
  have hacks : ∀ n, w.acks (w.after s (t + 1)) n = true ↔ w.Names n := acks_iff hread hidle t
  have hinta : ∀ n, (w.after s (t + 1)).devInta n = _ := fun n => (after_succ hread hidle t n).2
  have hnot {n : Fin 4} (h : ¬ w.Names n) : w.acks (w.after s (t + 1)) n = false := by
    rwa [← Bool.not_eq_true, hacks]
  -- The response comes from the first adapter that names the level.
  obtain ⟨k, hk, hfirst⟩ := exists_first_names ⟨n₀, names_of_pending (pending_of_asserts hn₀)⟩
  obtain ⟨hcpu, hdata⟩ := cpuDataO_first hread hpi ((hacks k).mpr hk)
    fun m hm => hnot (hfirst m hm)
  constructor
  · rintro ⟨⟨m, hm, -, hresp, hmax⟩, hsilent⟩
    refine ⟨fun n hn => ?_, fun n hn hnf htwice => ?_⟩
    · by_contra hnp
      have hquiet := (hsilent n hn.1 hnp).1
      rw [(hacks n).mpr hn] at hquiet
      cases hquiet
    · have hmk : m = k := getWru_inj (hresp.symm.trans hdata)
      have hnk : n = k := by
        rcases Nat.lt_trichotomy n k with hlt | heq | hgt
        · exact absurd hn (hfirst n hlt)
        · exact Fin.ext heq
        · exact absurd hk (hnf k hgt)
      subst hmk hnk
      by_contra hlow
      rw [Bool.not_eq_true] at hlow
      have hpih : w.busPi = w.statPih n := by
        rcases hn.2 with h | h
        · exact h
        · exact h.trans htwice.symm
      rw [hinta n, nextInta_twice hpih hlow] at hmax
      exact highest_ne_intrNul hm.2 hmax.symm
  · rintro ⟨hpending, htwice⟩
    refine ⟨⟨k, hpending k hk, hcpu, hdata, ?_⟩, fun n hfit hnp => ⟨?_, ?_⟩⟩
    · rw [hinta k]
      exact nextInta_eq_highest hread hk (htwice k hk hfirst)
    · exact hnot fun hn => hnp (hpending n hn)
    · rw [hinta n]
      exact nextInta_of_not_pending hfit hnp

/-! ## Two adapters -/

/-- Devices of which the first one requests the interrupt `l`. -/
def requesting (l : Level) : Devices where
  devReqI := fun _ => false
  devAckI := fun _ => false
  devIntr := fun k => if k = 0 then l else Level.intrNul
  devAddrI := fun _ => 0
  devDataI := fun _ => 0

/-- Adapters 1 and 3 with the status registers `regs` and the requests `intr`, in a WRU
cycle of level 5. -/
def ofTwo (regs : Fin 4 → Uba.Regs) (intr : Fin 4 → Level) : Wru where
  addr := 0o041305000000
  fitted := fun n => n == 0 || n == 2
  ubaAddr := fun _ => 0o763000
  regs := regs
  regUbaSr := fun _ => 0
  pageRam := fun _ _ => 0
  devs := fun n => requesting (intr n)
  cslAckI := false
  cslDataI := 0
  memDataI := 0

def idle : State where
  nxd := fun _ => { uba := false, state := .null }
  devInta := fun _ => Level.intrNul

/-- Adapter 3 interrupts alone on its upper level. -/
def alone : Wru :=
  ofTwo (fun n => { regUbaMr := false, statPih := if n = 2 then 5 else 4, statPil := 6 })
    fun n => if n = 2 then Level.intr7 else Level.intrNul

theorem answers_iff_alone :
    (Uba.wruRead alone.addr = true ∧ alone.asserts 2 = true) ∧
      (alone.Answers (alone.after idle 1) ↔ alone.Agreed) :=
  ⟨by decide, answers_iff alone (by decide) ⟨2, by decide⟩ (fun _ => rfl) (by decide)⟩

/-- Adapters 1 and 3 share a level on which only adapter 3 interrupts. -/
def shared : Wru :=
  ofTwo (fun _ => { regUbaMr := false, statPih := 5, statPil := 6 })
    fun n => if n = 2 then Level.intr7 else Level.intrNul

/-- Adapter 1 answers for adapter 3. -/
theorem answers_fails :
    ¬ ∀ w : Wru, Uba.wruRead w.addr = true → (∃ n, w.asserts n = true) → ∀ s : State,
      (∀ n, (s.nxd n).state = .null) → ∀ t, 0 < t → w.Answers (w.after s t) := by
  intro h
  have hall := h shared (by decide) ⟨2, by decide⟩ idle (fun _ => rfl) 1 (by decide)
  have hnp : ¬ shared.Pending 0 := by
    rintro ⟨-, hmapped⟩
    exact hmapped (by decide)
  have hquiet : shared.acks (shared.after idle 1) 0 = false := (hall.silent 0 (by decide) hnp).1
  have hacks : shared.acks (shared.after idle 1) 0 = true := by decide
  rw [hacks] at hquiet
  cases hquiet

end Wru

end KS10
