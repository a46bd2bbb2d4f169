import KS10.Clocked.Run
import KS10.Disk.Waits

/-!
# The SD controller and its SPI engine stay in step

`SdPair` is the controller with its engine.  Every clock of the pair is in one of five
phases (`SdPair.InStep`): before the first clock, with no byte under way and the
controller not waiting for one, or with exactly one byte under way, asked for, being
shifted or just ended, and the controller waiting for it.
-/

namespace KS10

open Clocked

/-! ## The controller with its engine -/

structure SdPair where
  sd : Sd
  spi : SdSpi

structure SdPair.In where
  spiMISO : Bool
  devACKI : Bool
  devDATAI : BitVec 36
  rhWC : BitVec 16
  rpSDOP : SdOp
  rpSDLSA : BitVec 21
  rpSDREQ : BitVec 8

namespace SdPair

def reset : SdPair where
  sd := .reset
  spi := .reset

def sdIn (p : SdPair) (i : In) : Sd.In where
  spiDONE := p.spi.spiDONE
  spiRXD := p.spi.rxd
  devACKI := i.devACKI
  devDATAI := i.devDATAI
  rhWC := i.rhWC
  rpSDOP := i.rpSDOP
  rpSDLSA := i.rpSDLSA
  rpSDREQ := i.rpSDREQ

def spiIn (p : SdPair) (i : In) : SdSpi.In where
  spiOP := p.sd.spiOP
  spiTXD := p.sd.spiTXD
  spiMISO := i.spiMISO

def next (p : SdPair) (i : In) : SdPair where
  sd := p.sd.next (p.sdIn i)
  spi := p.spi.next (p.spiIn i)

/-- The bytes that are under way: asked for, being shifted, or just ended. -/
def outstanding (p : SdPair) : Nat :=
  (p.sd.spiOP == .tr).toNat + p.spi.shifting.toNat + p.spi.spiDONE.toNat

/-- The phases of controller and engine. -/
inductive InStep (p : SdPair) : Prop where
  | powerUp (hw : p.sd.waits = false) (hop : p.sd.spiOP = .nop) (hspi : p.spi.state = .reset)
      (hdone : p.spi.spiDONE = false)
  | rest (hw : p.sd.waits = false) (hop : p.sd.spiOP ≠ .tr) (hspi : p.spi.state = .idle)
      (hdone : p.spi.spiDONE = false)
  | started (hw : p.sd.waits = true) (hop : p.sd.spiOP = .tr) (hspi : p.spi.state = .idle)
      (hdone : p.spi.spiDONE = false)
  | shifting (hw : p.sd.waits = true) (hop : p.sd.spiOP = .nop) (hspi : p.spi.shifting = true)
      (hdone : p.spi.spiDONE = false)
  | ended (hw : p.sd.waits = true) (hop : p.sd.spiOP = .nop) (hspi : p.spi.state = .idle)
      (hdone : p.spi.spiDONE = true)

variable {p : SdPair} {i : In}

theorem InStep.outstanding_eq (h : InStep p) : p.outstanding = p.sd.waits.toNat := by
  unfold outstanding
  cases h with
  | powerUp hw hop hspi hdone => simp [hw, hop, hdone, SdSpi.not_shifting (Or.inr hspi)]
  | rest hw hop hspi hdone => simp [hw, hop, hdone, SdSpi.not_shifting (Or.inl hspi)]
  | started hw hop hspi hdone => simp [hw, hop, hdone, SdSpi.not_shifting (Or.inl hspi)]
  | shifting hw hop hspi hdone => simp [hw, hop, hdone, hspi]
  | ended hw hop hspi hdone => simp [hw, hop, hdone, SdSpi.not_shifting (Or.inl hspi)]

/-- Operations are issued to an idle engine only. -/
theorem InStep.idle_of_op (h : InStep p) (hop : p.sd.spiOP ≠ .nop) : p.spi.state = .idle := by
  cases h with
  | powerUp _ hnop => exact absurd hnop hop
  | rest _ _ hspi => exact hspi
  | started _ _ hspi => exact hspi
  | shifting _ hnop => exact absurd hnop hop
  | ended _ hnop => exact absurd hnop hop

/-- After a clock in which the controller acted. -/
theorem InStep.of_acts (hacts : (p.next i).sd.Acts) (hspi : (p.next i).spi.state = .idle)
    (hdone : (p.next i).spi.spiDONE = false) : InStep (p.next i) := by
  cases hw : (p.next i).sd.waits with
  | true => exact .started hw (hacts.waits_iff.mp hw) hspi hdone
  | false =>
      refine .rest hw (fun hop => ?_) hspi hdone
      rw [hacts.waits_iff.mpr hop] at hw
      cases hw

theorem InStep.next (h : InStep p) (hb : p.sd.Bounded) (hslip : p.sd.slips (p.sdIn i) = false) :
    InStep (p.next i) ∧ (p.next i).sd.Bounded := by
  cases h with
  | powerUp hw hop hspi hdone =>
      have hacts : (p.next i).sd.Acts :=
        Sd.next_acts hb hslip fun hwaits => absurd (hw.symm.trans hwaits) Bool.false_ne_true
      have hidle : (p.next i).spi.state = .idle ∧ (p.next i).spi.spiDONE = false := by
        simp [SdPair.next, SdSpi.next, hspi, hdone]
      exact ⟨.of_acts hacts hidle.1 hidle.2, hacts.bounded⟩
  | rest hw hop hspi hdone =>
      have hacts : (p.next i).sd.Acts :=
        Sd.next_acts hb hslip fun hwaits => absurd (hw.symm.trans hwaits) Bool.false_ne_true
      have hidle := SdSpi.next_rest (i := p.spiIn i) hspi hop
      exact ⟨.of_acts hacts hidle.1 hidle.2, hacts.bounded⟩
  | started hw hop hspi hdone =>
      have hsd : (p.next i).sd = p.sd.quiet := Sd.next_waiting hw hdone
      have hspi' : (p.next i).spi.shifting = true ∧ (p.next i).spi.spiDONE = false :=
        SdSpi.next_tr hspi hop
      refine ⟨.shifting ?_ ?_ hspi'.1 hspi'.2, ?_⟩
      · rw [hsd]; exact hw
      · rw [hsd]; rfl
      · rw [hsd]; exact hb
  | shifting hw hop hspi hdone =>
      have hsd : (p.next i).sd = p.sd.quiet := Sd.next_waiting hw hdone
      have hw' : (p.next i).sd.waits = true := by rw [hsd]; exact hw
      have hop' : (p.next i).sd.spiOP = .nop := by rw [hsd]; rfl
      have hb' : (p.next i).sd.Bounded := by rw [hsd]; exact hb
      obtain ⟨_, ⟨hstill, hsame⟩ | ⟨_, hidle, hend⟩⟩ :=
        SdSpi.remaining_next (i := p.spiIn i) hspi
      · exact ⟨.shifting hw' hop' hstill (hsame.trans hdone), hb'⟩
      · exact ⟨.ended hw' hop' hidle hend, hb'⟩
  | ended hw hop hspi hdone =>
      have hacts : (p.next i).sd.Acts := Sd.next_acts hb hslip fun _ => hdone
      have hnop : (p.spiIn i).spiOP ≠ .tr := by
        change p.sd.spiOP ≠ _
        rw [hop]
        decide
      have hidle := SdSpi.next_rest hspi hnop
      exact ⟨.of_acts hacts hidle.1 hidle.2, hacts.bounded⟩

/-! ## Whole runs -/

/-- The controller and its engine `t` clocks after reset. -/
def pairAt (i : Nat → In) (t : Nat) : SdPair := run next reset i t

/-- The inputs of the controller at clock `t`. -/
def sdInAt (i : Nat → In) (t : Nat) : Sd.In := (pairAt i t).sdIn (i t)

/-- The controller does not move while its byte is under way. -/
theorem waiting_stays {i : Nat → In} {t : Nat} (hw : (pairAt i t).sd.waits = true)
    (hdone : (pairAt i t).spi.spiDONE = false) :
    (pairAt i (t + 1)).sd = (pairAt i t).sd.quiet := Sd.next_waiting hw hdone

section Run

variable {i : Nat → In} (hslip : ∀ t, (pairAt i t).sd.slips (sdInAt i t) = false)
include hslip

theorem inStep_run (t : Nat) : InStep (pairAt i t) ∧ (pairAt i t).sd.Bounded := by
  induction t with
  | zero => exact ⟨.powerUp rfl rfl rfl rfl, Nat.zero_le _⟩
  | succ t ih => exact ih.1.next ih.2 (hslip t)

/-- A byte that is being shifted ends. -/
theorem shifting_ends {t : Nat} (hshift : (pairAt i t).spi.shifting = true) :
    ∃ n, n ≤ 18 * 64 ∧ (pairAt i (t + n)).spi.spiDONE = true ∧
      ∀ k, k ≤ n → (pairAt i (t + k)).sd.state = (pairAt i t).sd.state ∧
        (pairAt i (t + k)).sd.loopCNT = (pairAt i t).sd.loopCNT := by
  have hspi : ∀ k, (pairAt i (t + k)).spi = run SdSpi.next (pairAt i t).spi
      (fun u => (run next (pairAt i t) (fun u => i (t + u)) u).spiIn (i (t + u))) k := by
    intro k
    unfold pairAt
    rw [run_add]
    exact run_part (fun _ _ => rfl) _ _ k
  obtain ⟨n, hn, hbusy, hend⟩ := SdSpi.exchange_ends
    (fun u => (run next (pairAt i t) (fun u => i (t + u)) u).spiIn (i (t + u))) hshift
  rw [← hspi] at hend
  refine ⟨n, hn, hend.2, ?_⟩
  intro k
  induction k with
  | zero => exact fun _ => ⟨rfl, rfl⟩
  | succ k ih =>
      intro hk
      have hstill : (pairAt i (t + k)).spi.shifting = true := by
        rw [hspi]
        exact hbusy k hk
      have hstep : (pairAt i (t + k + 1)).sd = (pairAt i (t + k)).sd.quiet := by
        cases (inStep_run hslip (t + k)).1 with
        | powerUp _ _ hidle => rw [SdSpi.not_shifting (Or.inr hidle)] at hstill; cases hstill
        | rest _ _ hidle => rw [SdSpi.not_shifting (Or.inl hidle)] at hstill; cases hstill
        | started _ _ hidle => rw [SdSpi.not_shifting (Or.inl hidle)] at hstill; cases hstill
        | shifting hw _ _ hdone => exact waiting_stays hw hdone
        | ended _ _ hidle => rw [SdSpi.not_shifting (Or.inl hidle)] at hstill; cases hstill
      rw [← Nat.add_assoc, hstep]
      exact ih (Nat.le_of_succ_le hk)

/-- A controller that waits for a byte gets it. -/
theorem byte_ends {t : Nat} (hw : (pairAt i t).sd.waits = true) :
    ∃ n, n ≤ 18 * 64 + 1 ∧ (pairAt i (t + n)).spi.spiDONE = true ∧
      ∀ k, k ≤ n → (pairAt i (t + k)).sd.state = (pairAt i t).sd.state ∧
        (pairAt i (t + k)).sd.loopCNT = (pairAt i t).sd.loopCNT := by
  cases (inStep_run hslip t).1 with
  | powerUp hno => rw [hw] at hno; cases hno
  | rest hno => rw [hw] at hno; cases hno
  | started _ hop hidle hdone =>
      have hshift : (pairAt i (t + 1)).spi.shifting = true := (SdSpi.next_tr hidle hop).1
      have hstep := waiting_stays hw hdone
      obtain ⟨n, hn, hend, hsame⟩ := shifting_ends hslip hshift
      refine ⟨n + 1, Nat.succ_le_succ hn, ?_, ?_⟩
      · rw [Nat.add_comm n 1, ← Nat.add_assoc]
        exact hend
      · intro k hk
        cases k with
        | zero => exact ⟨rfl, rfl⟩
        | succ k =>
            have hk' := hsame k (Nat.le_of_succ_le_succ hk)
            rw [hstep] at hk'
            rw [Nat.add_comm k 1, ← Nat.add_assoc]
            exact hk'
  | shifting _ _ hshift =>
      obtain ⟨n, hn, hend⟩ := shifting_ends hslip hshift
      exact ⟨n, Nat.le_succ_of_le hn, hend⟩
  | ended _ _ _ hdone =>
      refine ⟨0, Nat.zero_le _, hdone, ?_⟩
      intro k hk
      obtain rfl : k = 0 := Nat.le_zero.mp hk
      exact ⟨rfl, rfl⟩

/-- The chip select is negated two clocks after an answer that is refused. -/
theorem refused_deselects {t : Nat} (h : (pairAt i t).sd.refused (sdInAt i t) = true) :
    (pairAt i (t + 2)).spi.spiCS = true := by
  have hop : (pairAt i (t + 1)).sd.spiOP = .csh := (Sd.next_refused h (hslip t)).1
  have hidle := (inStep_run hslip (t + 1)).1.idle_of_op (by rw [hop]; nofun)
  exact SdSpi.next_csh hidle hop

/-- A controller that has failed stays failed, with the chip select negated. -/
theorem failed_stays {t : Nat} (h : (pairAt i t).sd.refused (sdInAt i t) = true)
    (hfail : (pairAt i (t + 1)).sd.failed) (n : Nat) :
    (pairAt i (t + 1 + n)).sd.failed ∧ (pairAt i (t + 2 + n)).spi.spiCS = true := by
  have hfailed : ∀ n, (pairAt i (t + 1 + n)).sd.failed := by
    intro n
    induction n with
    | zero => exact hfail
    | succ n ih => exact (Sd.next_failed ih).1
  refine ⟨hfailed n, ?_⟩
  induction n with
  | zero => exact refused_deselects hslip h
  | succ n ih =>
      have hop : (pairAt i (t + 2 + n)).sd.spiOP = .nop := by
        rw [show t + 2 + n = t + 1 + n + 1 from by omega]
        exact (Sd.next_failed (hfailed n)).2
      exact (SdSpi.next_nop hop).trans ih

/-- In every run in which the controller does not miss its step: it issues operations to
an idle engine only; exactly one byte is under way while it waits for one, and none
otherwise; the byte it waits for ends, and it waits in the same state until then; and
every answer that is not a success negates the chip select and makes it fail, or try the
initialisation again. -/
theorem spi_in_step (t : Nat) :
    ((pairAt i t).sd.spiOP ≠ .nop → (pairAt i t).spi.state = .idle) ∧
    (pairAt i t).outstanding = (pairAt i t).sd.waits.toNat ∧
    ((pairAt i t).sd.waits = true → ∃ n, n ≤ 18 * 64 + 1 ∧
      (pairAt i (t + n)).spi.spiDONE = true ∧
      ∀ k, k ≤ n → (pairAt i (t + k)).sd.state = (pairAt i t).sd.state ∧
        (pairAt i (t + k)).sd.loopCNT = (pairAt i t).sd.loopCNT) ∧
    ((pairAt i t).sd.refused (sdInAt i t) = true →
      ((pairAt i (t + 1)).sd.failed ∨ (pairAt i t).sd.retried (pairAt i (t + 1)).sd) ∧
      (pairAt i (t + 2)).spi.spiCS = true ∧
      ((pairAt i (t + 1)).sd.failed → ∀ n, (pairAt i (t + 1 + n)).sd.failed ∧
        (pairAt i (t + 2 + n)).spi.spiCS = true)) := by
  refine ⟨fun hop => (inStep_run hslip t).1.idle_of_op hop,
    (inStep_run hslip t).1.outstanding_eq, fun hw => byte_ends hslip hw, ?_⟩
  intro hrefused
  exact ⟨(Sd.next_refused hrefused (hslip t)).2, refused_deselects hslip hrefused,
    fun hfail n => failed_stays hslip hrefused hfail n⟩

end Run

/-! ## A card that answers with zeros only -/

def zeros : Nat → In := fun _ =>
  { spiMISO := false
    devACKI := false
    devDATAI := 0
    rhWC := 0
    rpSDOP := .nop
    rpSDLSA := 0
    rpSDREQ := 0 }

/-- Once a bit is received, the byte received is even. -/
def Even (s : SdSpi) : Prop :=
  s.state = .txh ∨ s.state = .txm ∨ s.state = .txn ∨ s.spiDONE = true →
    s.rxd.getLsbD 0 = false

theorem even_reset : Even .reset := by
  intro h
  rcases h with h | h | h | h <;> cases h

theorem Even.next {s : SdSpi} {i : SdSpi.In} (h : Even s) (hmiso : i.spiMISO = false) :
    Even (s.next i) := by
  have hin : (SdSpi.shiftIn s.rxd i.spiMISO).getLsbD 0 = false := by
    rw [hmiso, SdSpi.shiftIn, BitVec.getLsbD_append]
    rfl
  unfold SdSpi.next
  cases hstate : s.state with
  | reset =>
      intro hany
      exact h (Or.inr (Or.inr (Or.inr (by simpa using hany))))
  | idle =>
      cases hop : i.spiOP <;> intro hany <;> simp at hany
  | txl =>
      dsimp only
      split
      · exact fun _ => hin
      · intro hany
        exact h (by simpa [hstate] using hany)
  | txh =>
      dsimp only
      split
      · split <;> exact fun _ => h (Or.inl hstate)
      · exact fun _ => h (Or.inl hstate)
  | txm =>
      dsimp only
      split <;> exact fun _ => h (Or.inr (Or.inl hstate))
  | txn =>
      dsimp only
      split <;> exact fun _ => h (Or.inr (Or.inr (Or.inl hstate)))

/-- The controller never gets past the answer to CMD0. -/
def Early (p : SdPair) : Prop :=
  Even p.spi ∧ (p.sd.state = .reset ∨ p.sd.state = .init00 ∨ p.sd.state = .init01 ∨
    p.sd.state = .init02)

theorem early_answer {p : SdPair} (h : Even p.spi) (hdone : p.spi.spiDONE = true) :
    p.spi.rxd ≠ 0x01 ∧ p.spi.rxd ≠ Sd.ff := by
  have heven := h (Or.inr (Or.inr (Or.inr hdone)))
  constructor
  · intro hrx
    rw [hrx] at heven
    exact absurd heven (by decide)
  · intro hrx
    rw [hrx] at heven
    exact absurd heven (by decide)

theorem sendBytes_state (s k : Sd) (i : Sd.In) (n : BitVec 16) (x : BitVec 8) :
    (s.sendBytes i n x k).state = s.state ∨ (s.sendBytes i n x k).state = k.state := by
  unfold Sd.sendBytes
  split
  · split
    · exact Or.inr rfl
    · exact Or.inl rfl
  · exact Or.inl rfl

theorem poll_state (s late k : Sd) (i : Sd.In) (n : BitVec 16) :
    (s.poll i n late k).state = s.state ∨ (s.poll i n late k).state = late.state ∨
    i.spiDONE = true ∧ (s.poll i n late k).state = k.state := by
  unfold Sd.poll Sd.oneByte Sd.onDone
  split
  · exact Or.inl rfl
  · split
    · rename_i hdone
      split
      · split
        · exact Or.inr (Or.inl rfl)
        · exact Or.inl rfl
      · exact Or.inr (Or.inr ⟨hdone, rfl⟩)
    · exact Or.inl rfl

theorem early_zeros (t : Nat) : Early (pairAt zeros t) := by
  refine run_invariant_of (P := Early) (C := fun _ i => i.spiMISO = false)
    ⟨even_reset, Or.inl rfl⟩ ?_ fun _ _ => rfl
  intro p i hmiso h
  refine ⟨h.1.next hmiso, ?_⟩
  have hanswer := fun hdone => (early_answer h.1 hdone).1
  obtain ⟨sd, spi⟩ := p
  rcases sd with ⟨state⟩
  obtain hs | hs | hs | hs := h.2
  · obtain rfl : state = .reset := hs
    exact Or.inr (Or.inl rfl)
  · obtain rfl : state = .init00 := hs
    rcases sendBytes_state _ _ _ _ _ with hnext | hnext
    · exact Or.inr (Or.inl hnext)
    · exact Or.inr (Or.inr (Or.inl hnext))
  · obtain rfl : state = .init01 := hs
    rcases sendBytes_state _ _ _ _ _ with hnext | hnext
    · exact Or.inr (Or.inr (Or.inl hnext))
    · exact Or.inr (Or.inr (Or.inr hnext))
  · obtain rfl : state = .init02 := hs
    rcases poll_state _ _ _ _ _ with hnext | hnext | ⟨hdone, hnext⟩
    · exact Or.inr (Or.inr (Or.inr hnext))
    · exact Or.inl hnext
    · refine Or.inl (hnext.trans ?_)
      have hno : ¬ (spi.rxd == 0x01) = true := by simpa using hanswer hdone
      exact if_neg hno

theorem zeros_slip (t : Nat) : (pairAt zeros t).sd.slips (sdInAt zeros t) = false := by
  obtain ⟨_, hs | hs | hs | hs⟩ := early_zeros t <;> simp [Sd.slips, hs]

theorem spi_in_step_zeros : (pairAt zeros 2).outstanding = 1 :=
  (spi_in_step zeros_slip 2).2.1

/-- The controller is in a state, has counted `n` bytes there and can go on. -/
def Counted (state : Sd.State) (n : BitVec 16) : Prop :=
  ∃ t, (pairAt zeros t).sd.state = state ∧ (pairAt zeros t).sd.loopCNT = n ∧
    (n = 0 ∨ (pairAt zeros t).spi.spiDONE = true)

/-- A byte that was started is counted. -/
theorem counted_of_started {state : Sd.State} {n : BitVec 16} {t : Nat}
    (hstate : (pairAt zeros t).sd.state = state) (hn : (pairAt zeros t).sd.loopCNT = n)
    (hw : (pairAt zeros t).sd.waits = true) : Counted state n := by
  obtain ⟨u, _, hdone, hsame⟩ := byte_ends zeros_slip hw
  have hu := hsame u (Nat.le_refl u)
  exact ⟨t + u, hu.1.trans hstate, hu.2.trans hn, Or.inr hdone⟩

/-- A state that sends `limit` bytes and then does `k`. -/
def Sends (state : Sd.State) (limit : BitVec 16) (tx : Sd → BitVec 8) (k : Sd → Sd) : Prop :=
  ∀ (s : Sd) (i : Sd.In), s.state = state →
    s.next i = s.quiet.sendBytes i limit (tx s) (k s.quiet)

/-- A state that sends `limit` bytes counts them all. -/
theorem counted_all {state : Sd.State} {limit : BitVec 16} {tx : Sd → BitVec 8} {k : Sd → Sd}
    (hnext : Sends state limit tx k) (hcounts : Sd.counts state = true) (h0 : Counted state 0)
    (n : Nat) (hn : n ≤ limit.toNat) : Counted state (BitVec.ofNat 16 n) := by
  induction n with
  | zero => exact h0
  | succ n ih =>
      obtain ⟨t, hstate, hcount, hgo⟩ := ih (Nat.le_of_succ_le hn)
      have hlt := limit.isLt
      have hmod : n % 65536 = n := Nat.mod_eq_of_lt (by omega)
      have hne : ¬ (pairAt zeros t).sd.loopCNT = limit := by
        intro heq
        rw [← heq, hcount, BitVec.toNat_ofNat] at hn
        omega
      have hgo' : ((sdInAt zeros t).spiDONE || (pairAt zeros t).sd.quiet.loopCNT == 0) = true := by
        rcases hgo with h0 | hdone
        · rw [Sd.quiet_loopCNT, hcount, h0]
          exact Bool.or_true _
        · exact Bool.or_eq_true_iff.mpr (Or.inl hdone)
      have hstep : (pairAt zeros (t + 1)).sd =
          { (pairAt zeros t).sd.quiet.transfer (tx (pairAt zeros t).sd) with
            loopCNT := (pairAt zeros t).sd.loopCNT + 1 } := by
        refine (hnext _ (sdInAt zeros t) hstate).trans ?_
        rw [Sd.sendBytes, if_pos hgo', if_neg (by simpa using hne)]
        rfl
      have hloop : (pairAt zeros (t + 1)).sd.loopCNT = BitVec.ofNat 16 (n + 1) := by
        rw [hstep, BitVec.ofNat_add, ← hcount]
        rfl
      refine counted_of_started (by rw [hstep]; exact hstate) hloop ?_
      simp only [Sd.waits, Bool.or_eq_true, Bool.and_eq_true, bne_iff_ne]
      refine Or.inr ⟨by rw [hstep]; exact hstate ▸ hcounts, ?_⟩
      rw [hloop]
      intro hzero
      have hzero' := congrArg BitVec.toNat hzero
      rw [BitVec.toNat_ofNat] at hzero'
      have hpow : (0 : BitVec 16).toNat = 0 := rfl
      omega

/-- A state that has sent its bytes goes on. -/
theorem counted_next {state state' : Sd.State} {limit : BitVec 16} {tx : Sd → BitVec 8}
    {k : Sd → Sd} (hnext : Sends state limit tx k)
    (hk : ∀ s, (k s).state = state' ∧ (k s).loopCNT = 0) (hpos : limit ≠ 0)
    (h : Counted state limit) : Counted state' 0 := by
  obtain ⟨t, hstate, hcount, hgo⟩ := h
  have hdone : (sdInAt zeros t).spiDONE = true := hgo.resolve_left hpos
  have hstep : (pairAt zeros (t + 1)).sd = k (pairAt zeros t).sd.quiet := by
    refine (hnext _ (sdInAt zeros t) hstate).trans ?_
    rw [Sd.sendBytes, if_pos (Bool.or_eq_true_iff.mpr (Or.inl hdone)),
      if_pos (by simpa using hcount)]
  exact ⟨t + 1, by rw [hstep]; exact (hk _).1, by rw [hstep]; exact (hk _).2, Or.inl rfl⟩

/-- The card answers CMD0 with a byte that is not a success, and the controller starts
again instead of failing. -/
theorem answer_retried : ∃ t, (pairAt zeros t).sd.refused (sdInAt zeros t) = true ∧
    (sdInAt zeros t).spiRXD ≠ Sd.ff ∧ ¬ (pairAt zeros (t + 1)).sd.failed := by
  have h00 : Counted .init00 0 := ⟨1, rfl, rfl, Or.inl rfl⟩
  have hinit00 : Sends .init00 8 (fun _ => Sd.ff)
      (fun q => q.command [0x40, 0x00, 0x00, 0x00, 0x00, 0x95] .init01) := by
    intro s i hs
    simp only [Sd.next, hs]
    rfl
  have hinit01 : Sends .init01 6 (fun s => s.sdCMD.getD s.loopCNT.toNat 0)
      (fun q => q.goto .init02) := by
    intro s i hs
    simp only [Sd.next, hs]
    rfl
  have h01 : Counted .init01 0 :=
    counted_next hinit00 (fun _ => ⟨rfl, rfl⟩) (by decide)
      (counted_all hinit00 rfl h00 8 (Nat.le_refl 8))
  have h02 : Counted .init02 0 :=
    counted_next hinit01 (fun _ => ⟨rfl, rfl⟩) (by decide)
      (counted_all hinit01 rfl h01 6 (Nat.le_refl 6))
  obtain ⟨t, hstate, hcount, _⟩ := h02
  have hstep : (pairAt zeros (t + 1)).sd =
      { (pairAt zeros t).sd.quiet.transfer Sd.ff with loopCNT := 1 } := by
    have hzero : ((pairAt zeros t).sd.quiet.loopCNT == 0) = true := by
      rw [Sd.quiet_loopCNT, hcount]
      rfl
    change (pairAt zeros t).sd.next (sdInAt zeros t) = _
    simp only [Sd.next, hstate, Sd.poll, Sd.oneByte, if_pos hzero]
  have hstarted : Counted .init02 1 := by
    refine counted_of_started (by rw [hstep]; exact hstate) (by rw [hstep]) ?_
    rw [hstep]
    simp only [Sd.waits, Bool.or_eq_true]
    right
    change (Sd.counts (pairAt zeros t).sd.state && _) = true
    rw [hstate]
    rfl
  obtain ⟨u, hstate', hcount', hgo⟩ := hstarted
  have hdone : (sdInAt zeros u).spiDONE = true := hgo.resolve_left (by decide)
  obtain ⟨hone, hff⟩ := early_answer (early_zeros u).1 hdone
  have hff' : ((sdInAt zeros u).spiRXD == Sd.ff) = false := beq_eq_false_iff_ne.mpr hff
  have hone' : ((sdInAt zeros u).spiRXD == 0x01) = false := beq_eq_false_iff_ne.mpr hone
  have hrefused : (pairAt zeros u).sd.refused (sdInAt zeros u) = true := by
    simp only [Sd.refused, hstate', Sd.unanswered, hcount', hdone, hff', hone']
    rfl
  refine ⟨u, hrefused, hff, ?_⟩
  intro hfail
  rcases (early_zeros (u + 1)).2 with h | h | h | h <;>
    rcases hfail with hf | hf <;> rw [h] at hf <;> cases hf

end SdPair

end KS10
