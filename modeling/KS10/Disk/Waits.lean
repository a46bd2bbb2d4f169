import KS10.Disk.Sd

/-!
# When the SD controller waits for a byte

The controller starts a byte by one clock of `spiTR` and learns of its end by one clock
of `spiDONE`.  `Sd.waits` says from the registers of the controller alone whether it
waits for an end.  Two facts about one clock carry everything: while it waits for an end
that has not come it does nothing (`Sd.next_waiting`), and when it acts it waits
afterwards exactly if it has started a byte (`Sd.next_acts`).  Left out are the clocks
of `Sd.slips`, where the controller leaves this scheme.

`Sd.refused` says which bytes of the card are not a success; `Sd.next_refused` says what
the controller does about them.
-/

namespace KS10

namespace Sd

/-- The states that wait for a byte once they have started one: those that count bytes. -/
def counts : State → Bool
  | .init00 | .init01 | .init02 | .init03 | .init04 | .init05 | .init06 | .init07 | .init08
  | .init09 | .init10 | .init11 | .init12 | .init13 | .init14 | .init15 | .init16 | .init17
  | .read01 | .read02 | .read03 | .write01 | .write02 | .write03 | .write04 | .write20
  | .wrchk01 | .wrchk02 | .wrchk03 | .fini => true
  | _ => false

/-- The states that are entered with a byte started. -/
def takes : State → Bool
  | .read04 | .read05 | .read06 | .read07 | .read08 | .read09 | .read10 | .read11 | .read14
  | .read15 | .read17
  | .write08 | .write09 | .write10 | .write11 | .write12 | .write13 | .write14 | .write15
  | .write16 | .write17 | .write18 | .write19 | .write21 | .write22 | .write23
  | .wrchk04 | .wrchk05 | .wrchk06 | .wrchk07 | .wrchk08 | .wrchk09 | .wrchk10 | .wrchk11
  | .wrchk14 | .wrchk15 => true
  | _ => false

/-- The controller waits for the end of a byte. -/
def waits (s : Sd) : Bool := takes s.state || (counts s.state && s.loopCNT != 0)

/-- The largest count of a state that counts bytes. -/
def limit : State → Nat
  | .init01 | .init04 | .init08 | .init11 | .init14 | .read01 | .write01 | .write20 | .wrchk01 => 6
  | .init00 | .init02 | .init05 | .init09 | .init12 | .init15 | .read02 | .write02 | .wrchk02 => 8
  | .read03 | .wrchk03 => 1023
  | .init06 | .init16 => 4
  | .init03 | .init07 | .init10 | .init13 | .init17 | .write03 | .write04 | .fini => 1
  | _ => 65535

def Bounded (s : Sd) : Prop := s.loopCNT.toNat ≤ limit s.state

@[simp] theorem quiet_state (s : Sd) : s.quiet.state = s.state := rfl
@[simp] theorem quiet_loopCNT (s : Sd) : s.quiet.loopCNT = s.loopCNT := rfl
@[simp] theorem quiet_spiOP (s : Sd) : s.quiet.spiOP = .nop := rfl

theorem toNat_ne_zero {x : BitVec 16} (h : ¬ x = 0#16) : x.toNat ≠ 0 :=
  fun h0 => h (BitVec.eq_of_toNat_eq h0)

theorem init06_waiting {s : Sd} {i : In} (hdone : i.spiDONE = false)
    (hcount : s.loopCNT.toNat ≠ 0) : s.init06 i = s := by
  unfold init06
  split <;> simp_all [echo, onDone]

theorem init16_waiting {s : Sd} {i : In} (hdone : i.spiDONE = false)
    (hcount : s.loopCNT.toNat ≠ 0) : s.init16 i = s := by
  unfold init16
  split <;> simp_all [onDone]

theorem next_waiting {s : Sd} {i : In} (h : s.waits = true) (hdone : i.spiDONE = false) :
    s.next i = s.quiet := by
  simp only [waits, Bool.or_eq_true, Bool.and_eq_true, bne_iff_ne, ne_eq] at h
  rcases h with h | ⟨h, hcount⟩
  · cases hs : s.state <;> simp only [hs, takes, Bool.false_eq_true] at h <;>
      simp only [next, hs, receive, sendNext, onDone, hdone, Bool.false_eq_true, if_false]
  · have hnat : s.quiet.loopCNT.toNat ≠ 0 := toNat_ne_zero hcount
    have hno : (s.loopCNT == 0) = false := by simpa using hcount
    cases hs : s.state <;> simp only [hs, counts, Bool.false_eq_true] at h <;>
      simp only [next, hs, sendCommand, sendBytes, poll, token, oneByte, onDone, hdone,
        quiet_loopCNT, hno, Bool.or_false, Bool.false_eq_true, if_false,
        init06_waiting hdone hnat, init16_waiting hdone hnat]

/-- After a clock in which the controller acts it waits exactly if it has started a byte. -/
structure Acts (s : Sd) : Prop where
  waits_iff : s.waits = true ↔ s.spiOP = .tr
  bounded : s.Bounded

theorem Acts.started {s : Sd} (hop : s.spiOP = .tr) (hw : s.waits = true) (hb : s.Bounded) :
    s.Acts :=
  ⟨⟨fun _ => hop, fun _ => hw⟩, hb⟩

theorem Acts.rested {s : Sd} (hop : s.spiOP ≠ .tr) (hw : s.waits = false) (hb : s.Bounded) :
    s.Acts :=
  ⟨⟨fun h => absurd (hw.symm.trans h) Bool.false_ne_true, fun h => absurd h hop⟩, hb⟩

theorem bounded_zero {s : Sd} (h : s.loopCNT = 0) : s.Bounded := by
  unfold Bounded; rw [h]; exact Nat.zero_le _

theorem waits_zero {s : Sd} (h : s.loopCNT = 0) (ht : takes s.state = false) : s.waits = false := by
  simp [waits, h, ht]

theorem acts_rest {s : Sd} (hop : s.spiOP ≠ .tr) (h : s.loopCNT = 0)
    (ht : takes s.state = false) : s.Acts :=
  .rested hop (waits_zero h ht) (bounded_zero h)

theorem acts_goto {s : Sd} {st : State} (hop : s.spiOP ≠ .tr) (ht : takes st = false) :
    (s.goto st).Acts :=
  .rested hop (waits_zero rfl ht) (bounded_zero rfl)

theorem acts_command {s : Sd} {st : State} {cmd} (ht : takes st = false) :
    (s.command cmd st).Acts :=
  .rested nofun (waits_zero rfl ht) (bounded_zero rfl)

theorem acts_fail {s : Sd} {st : State} {err} (ht : takes st = false) : (s.fail err st).Acts :=
  .rested nofun (waits_zero rfl ht) (bounded_zero rfl)

theorem succ_toNat {x : BitVec 16} (h : x.toNat < 65535) : (x + 1).toNat = x.toNat + 1 := by
  rw [BitVec.toNat_add]
  exact Nat.mod_eq_of_lt (by simpa using Nat.succ_lt_succ h)

theorem limit_le (st : State) : limit st ≤ 65535 := by cases st <;> decide

theorem acts_counts {s : Sd} {x : BitVec 8} {n : BitVec 16} (hc : counts s.state = true)
    (hne : n ≠ 0) (hn : n.toNat ≤ limit s.state) : Acts { s.transfer x with loopCNT := n } := by
  refine .started rfl ?_ hn
  have hc' : counts (s.transfer x).state = true := hc
  simp only [waits, Bool.or_eq_true, Bool.and_eq_true, bne_iff_ne]
  exact Or.inr ⟨hc', hne⟩

/-- The state counts one more byte. -/
theorem acts_counted {s : Sd} {x : BitVec 8} (hc : counts s.state = true)
    (hl : s.loopCNT.toNat < limit s.state) :
    Acts { s.transfer x with loopCNT := s.loopCNT + 1 } := by
  have hlim := limit_le s.state
  have hs := succ_toNat (x := s.loopCNT) (by omega)
  refine acts_counts hc ?_ (by omega)
  intro h0
  rw [h0] at hs
  cases hs

theorem acts_first {s : Sd} {x : BitVec 8} (hc : counts s.state = true) (h0 : s.loopCNT = 0)
    (hpos : 0 < limit s.state) : Acts { s.transfer x with loopCNT := 1 } := by
  have h := acts_counted (x := x) hc (by rw [h0]; exact hpos)
  rw [h0] at h
  exact h

theorem acts_sendBytes {s k : Sd} {i : In} {n : BitVec 16} {x : BitVec 8}
    (hc : counts s.state = true) (hlim : limit s.state = n.toNat) (hb : s.Bounded)
    (hact : ¬ s.loopCNT = 0 → i.spiDONE = true) (hk : k.Acts) : (s.sendBytes i n x k).Acts := by
  have hgo : (i.spiDONE || s.loopCNT == 0) = true := by
    by_cases h0 : s.loopCNT = 0
    · simp [h0]
    · simp [hact h0]
  unfold sendBytes
  rw [if_pos hgo]
  by_cases hn : s.loopCNT = n
  · rw [if_pos (by simpa using hn)]
    exact hk
  · rw [if_neg (by simpa using hn)]
    refine acts_counted hc ?_
    have hne : s.loopCNT.toNat ≠ n.toNat := fun h => hn (BitVec.eq_of_toNat_eq h)
    unfold Bounded at hb
    omega

theorem acts_oneByte {s k : Sd} {i : In} {x : BitVec 8} (hc : counts s.state = true)
    (hpos : 0 < limit s.state) (hact : ¬ s.loopCNT = 0 → i.spiDONE = true)
    (hk : ¬ s.loopCNT = 0 → k.Acts) : (s.oneByte i x k).Acts := by
  unfold oneByte
  by_cases h0 : s.loopCNT = 0
  · rw [if_pos (by simpa using h0)]
    exact acts_first hc h0 hpos
  · rw [if_neg (by simpa using h0), onDone, if_pos (hact h0)]
    exact hk h0

theorem acts_poll {s late k : Sd} {i : In} {n : BitVec 16} (hc : counts s.state = true)
    (hlim : limit s.state = n.toNat) (hpos : 0 < n.toNat) (hb : s.Bounded)
    (hact : ¬ s.loopCNT = 0 → i.spiDONE = true) (hlate : late.Acts)
    (hk : ¬ i.spiRXD = ff → k.Acts) : (s.poll i n late k).Acts := by
  refine acts_oneByte hc (by omega) hact fun _ => ?_
  by_cases hff : i.spiRXD = ff
  · rw [if_pos (by simpa using hff)]
    by_cases hn : s.loopCNT = n
    · rw [if_pos (by simpa using hn)]
      exact hlate
    · rw [if_neg (by simpa using hn)]
      refine acts_counted hc ?_
      have hne : s.loopCNT.toNat ≠ n.toNat := fun h => hn (BitVec.eq_of_toNat_eq h)
      unfold Bounded at hb
      omega
  · rw [if_neg (by simpa using hff)]
    exact hk hff

theorem limit_of_takes {st : State} (h : takes st = true) : limit st = 65535 := by
  cases st <;> first | rfl | cases h

theorem acts_takes {s : Sd} (hop : s.spiOP = .tr) (ht : takes s.state = true) : s.Acts := by
  refine .started hop (by simp [waits, ht]) ?_
  unfold Bounded
  rw [limit_of_takes ht]
  have := s.loopCNT.isLt
  omega

/-- A state that neither waits nor counts. -/
theorem acts_free {s : Sd} (hop : s.spiOP ≠ .tr) (ht : takes s.state = false)
    (hc : counts s.state = false) (hlim : limit s.state = 65535) : s.Acts := by
  refine .rested hop (by simp [waits, ht, hc]) ?_
  unfold Bounded
  rw [hlim]
  have := s.loopCNT.isLt
  omega

theorem acts_onDone {s k : Sd} {i : In} (hact : i.spiDONE = true) (hk : k.Acts) :
    (s.onDone i k).Acts := by
  rw [onDone, if_pos hact]
  exact hk

theorem acts_onAck {s k : Sd} {i : In} (hs : Acts { s with devREQO := true }) (hk : k.Acts) :
    (s.onAck i k).Acts := by
  unfold onAck
  split
  · exact hk
  · exact hs

theorem acts_endSector {s : Sd} {i : In} {st : State} (hop : s.spiOP ≠ .tr) (ht : takes st = false)
    (hc : counts st = false) (hlim : limit st = 65535) : (s.endSector i st).Acts := by
  unfold endSector
  split
  · exact .rested hop (waits_zero rfl rfl) (bounded_zero rfl)
  · exact acts_free hop ht hc hlim

theorem acts_nextSector {s : Sd} {i : In} {st : State} (hop : s.spiOP ≠ .tr) (ht : takes st = false)
    (hc : counts st = false) (hlim : limit st = 65535) : (s.nextSector i st).Acts := by
  unfold nextSector
  split
  · exact acts_free hop ht hc hlim
  · exact .rested hop (waits_zero rfl rfl) (bounded_zero rfl)

theorem acts_token {s : Sd} {i : In} {late bad : BitVec 8} {st : State} (hc : counts s.state = true)
    (hlim : limit s.state = 1023) (hb : s.Bounded) (hact : ¬ s.loopCNT = 0 → i.spiDONE = true)
    (ht : takes st = true) : (s.token i late bad st).Acts := by
  refine acts_poll hc hlim (by decide) hb hact (acts_fail rfl) fun _ => ?_
  split
  · exact acts_takes rfl ht
  · exact .rested nofun (waits_zero rfl rfl) (bounded_zero rfl)

theorem acts_scan {s : Sd} {i : In} (hop : s.spiOP ≠ .tr) (hst : s.state = .idle) :
    (s.scan i).Acts := by
  unfold scan
  split
  · cases i.rpSDOP <;> exact acts_free hop rfl rfl rfl
  · exact acts_free hop (by rw [hst]; rfl) (by rw [hst]; rfl) (by rw [hst]; rfl)

theorem acts_init06 {s : Sd} {i : In} (hst : s.state = .init06) (hop : s.spiOP ≠ .tr)
    (hb : s.Bounded) (hact : ¬ s.loopCNT = 0 → i.spiDONE = true) : (s.init06 i).Acts := by
  have hc : counts s.state = true := by rw [hst]; rfl
  have hl : limit s.state = 4 := by rw [hst]; rfl
  have hecho : ∀ rx err k, s.loopCNT.toNat ≠ 0 → Acts k → (s.echo i rx err k).Acts := by
    intro rx err k h0 hk
    refine acts_onDone (hact fun h => h0 (congrArg BitVec.toNat h)) ?_
    split
    · exact hk
    · exact acts_free hop rfl rfl rfl
  unfold Bounded at hb
  unfold init06
  split
  · exact acts_counts hc (by decide) (by rw [hl]; decide)
  · exact hecho _ _ _ (by omega) (acts_counts hc (by decide) (by rw [hl]; decide))
  · exact hecho _ _ _ (by omega) (acts_counts hc (by decide) (by rw [hl]; decide))
  · exact hecho _ _ _ (by omega) (acts_counts hc (by decide) (by rw [hl]; decide))
  · exact hecho _ _ _ (by omega) (.rested nofun (waits_zero rfl rfl) (bounded_zero rfl))
  · rename_i h0 h1 h2 h3 h4
    simp only [imp_false] at h0 h1 h2 h3 h4
    omega

theorem acts_init16 {s : Sd} {i : In} (hst : s.state = .init16) (hb : s.Bounded)
    (hact : ¬ s.loopCNT = 0 → i.spiDONE = true) : (s.init16 i).Acts := by
  have hc : counts s.state = true := by rw [hst]; rfl
  have hl : limit s.state = 4 := by rw [hst]; rfl
  have hdone : s.loopCNT.toNat ≠ 0 → i.spiDONE = true := fun h0 =>
    hact fun h => h0 (congrArg BitVec.toNat h)
  have hfail : ∀ err, Acts { s.fail err .infail with sdVAL := i.spiRXD } := fun err =>
    .rested nofun (waits_zero rfl rfl) (bounded_zero rfl)
  unfold Bounded at hb
  unfold init16
  split
  · exact acts_counts hc (by decide) (by rw [hl]; decide)
  · refine acts_onDone (hdone (by omega)) ?_
    split
    · exact acts_counts hc (by decide) (by rw [hl]; decide)
    · exact hfail 12
  · refine acts_onDone (hdone (by omega)) ?_
    split
    · exact acts_counts hc (by decide) (by rw [hl]; decide)
    · exact hfail 13
  · exact acts_onDone (hdone (by omega)) (acts_counts hc (by decide) (by rw [hl]; decide))
  · exact acts_onDone (hdone (by omega)) (.rested nofun (waits_zero rfl rfl) (bounded_zero rfl))
  · rename_i h0 h1 h2 h3 h4
    simp only [imp_false] at h0 h1 h2 h3 h4
    omega

/-- The inputs at which the controller misses its step: a wrong echo of CMD8, which fails
without negating the chip select; an answer to CMD24 or CMD13 that is neither empty nor
good, which changes no state; and a write check with words left, which starts the next
byte before it waits for the DMA cycle. -/
def slips (s : Sd) (i : In) : Bool :=
  match s.state with
  | .init06 => s.loopCNT != 0 && i.spiDONE &&
      i.spiRXD != (match s.loopCNT.toNat with | 3 => 0x01 | 4 => 0xaa | _ => 0x00)
  | .write02 => s.loopCNT != 0 && i.spiDONE && !(i.spiRXD == ff || i.spiRXD == 0x00)
  | .write21 => i.spiDONE && !(i.spiRXD == ff || i.spiRXD == 0x00 || i.spiRXD == 0x01)
  | .wrchk11 => i.spiDONE && i.rhWC != 0
  | _ => false

theorem next_acts {s : Sd} {i : In} (hb : s.Bounded) (hslip : s.slips i = false)
    (hact : s.waits = true → i.spiDONE = true) : (s.next i).Acts := by
  have hcount : counts s.state = true → ¬ s.loopCNT = 0 → i.spiDONE = true := by
    intro hc h0
    refine hact ?_
    simp only [waits, Bool.or_eq_true, Bool.and_eq_true, bne_iff_ne]
    exact Or.inr ⟨hc, h0⟩
  have htake : takes s.state = true → i.spiDONE = true := by
    intro ht
    exact hact (by simp [waits, ht])
  rcases s with ⟨state⟩
  cases state with
  | reset => exact acts_rest nofun rfl rfl
  | readh00 | readh02 | read18 | writeh00 | writeh02 | write24 | wrchkh00 | wrchkh02
  | wrchk16 | ackrp | done | infail | rwfail => exact acts_free nofun rfl rfl rfl
  | init00 => exact acts_sendBytes rfl rfl hb (hcount rfl) (acts_command rfl)
  | init01 | init04 | init08 | init11 | init14 | read01 | write01 | wrchk01 =>
      exact acts_sendBytes rfl rfl hb (hcount rfl) (acts_goto nofun rfl)
  | init02 =>
      exact acts_poll rfl rfl (by decide) hb (hcount rfl) (acts_rest nofun rfl rfl) fun _ =>
        acts_rest nofun rfl (by split <;> rfl)
  | init03 | init07 | init10 | init13 =>
      exact acts_oneByte rfl Nat.one_pos (hcount rfl) fun _ => acts_command rfl
  | init05 =>
      refine acts_poll rfl rfl (by decide) hb (hcount rfl) (acts_fail rfl) fun _ => ?_
      split
      · exact acts_goto nofun rfl
      · split <;> exact acts_fail rfl
  | init06 => exact acts_init06 rfl nofun hb (hcount rfl)
  | init09 | init12 =>
      exact acts_poll rfl rfl (by decide) hb (hcount rfl) (acts_fail rfl) fun _ =>
        acts_rest nofun rfl (by split <;> rfl)
  | init15 =>
      refine acts_poll rfl rfl (by decide) hb (hcount rfl) (acts_fail rfl) fun _ => ?_
      split
      · exact acts_goto nofun rfl
      · exact acts_fail rfl
  | init16 => exact acts_init16 rfl hb (hcount rfl)
  | init17 => exact acts_oneByte rfl Nat.one_pos (hcount rfl) fun _ => acts_rest nofun rfl rfl
  | idle => exact acts_scan nofun rfl
  | readh01 | readh03 | read12 | writeh01 | writeh03 | write06 | wrchkh01 | wrchkh03 | wrchk12 =>
      exact acts_onAck (acts_free nofun rfl rfl rfl) (acts_free nofun rfl rfl rfl)
  | read00 | write00 | wrchk00 => exact acts_command rfl
  | read02 | write02 | wrchk02 =>
      refine acts_poll rfl rfl (by decide) hb (hcount rfl) (acts_fail rfl) fun _ => ?_
      split
      · exact acts_goto nofun rfl
      · exact acts_rest nofun rfl rfl
  | read03 | wrchk03 => exact acts_token rfl rfl hb (hcount rfl) rfl
  | read04 | read05 | read06 | read07 | read08 | read09 | read10 | read14 | write16 | write17
  | wrchk04 | wrchk05 | wrchk06 | wrchk07 | wrchk08 | wrchk09 | wrchk10 | wrchk14
  | write08 | write09 | write10 | write11 | write12 | write13 | write14 =>
      exact acts_onDone (htake rfl) (acts_takes rfl rfl)
  | read11 | read15 => exact acts_onDone (htake rfl) (acts_free nofun rfl rfl rfl)
  | read13 | wrchk13 =>
      change Acts (ite _ _ _)
      split <;> exact acts_takes rfl rfl
  | read16 | write07 => exact acts_takes rfl rfl
  | read17 | write23 | wrchk15 => exact acts_onDone (htake rfl) (acts_endSector nofun rfl rfl rfl)
  | read19 | write25 | wrchk17 => exact acts_nextSector nofun rfl rfl rfl
  | write03 | write04 | fini =>
      exact acts_oneByte rfl Nat.one_pos (hcount rfl) fun _ => acts_goto nofun rfl
  | write05 =>
      change Acts (ite _ _ _)
      split <;> exact acts_free nofun rfl rfl rfl
  | write15 =>
      refine acts_onDone (htake rfl) ?_
      split
      · exact acts_takes rfl rfl
      · exact acts_free nofun rfl rfl rfl
  | write18 =>
      refine acts_onDone (htake rfl) ?_
      split
      · exact acts_takes rfl rfl
      · exact acts_rest nofun rfl rfl
  | write19 =>
      refine acts_onDone (htake rfl) ?_
      split
      · split
        · exact acts_fail rfl
        · exact acts_takes rfl rfl
      · exact acts_rest nofun rfl rfl
  | write20 => exact acts_sendBytes rfl rfl hb (hcount rfl) (acts_takes rfl rfl)
  | write21 =>
      have hno := hslip
      simp only [slips, htake rfl, Bool.true_and, Bool.not_eq_false'] at hno
      refine acts_onDone (htake rfl) ?_
      split
      · split
        · exact acts_fail rfl
        · exact acts_takes rfl rfl
      · rename_i hff
        split
        · exact acts_takes rfl rfl
        · rename_i hbad
          simp_all
  | write22 =>
      refine acts_onDone (htake rfl) ?_
      split
      · exact acts_takes rfl rfl
      · exact acts_free nofun rfl rfl rfl
  | wrchk11 =>
      have hno := hslip
      simp only [slips, htake rfl, Bool.true_and] at hno
      refine acts_onDone (htake rfl) ?_
      split
      · exact acts_free nofun rfl rfl rfl
      · simp_all

/-! ## Answers that are refused -/

/-- The byte that ends a state which counts bytes: none of the answers it goes on with,
or empty once too often. -/
def unanswered (s : Sd) (i : In) (n : BitVec 16) (good : Bool) : Bool :=
  s.loopCNT != 0 && i.spiDONE && (if i.spiRXD == ff then s.loopCNT == n else !good)

/-- The card does not answer with success. -/
def refused (s : Sd) (i : In) : Bool :=
  match s.state with
  | .init02 | .init05 | .init09 => s.unanswered i nCR (i.spiRXD == 0x01)
  | .init12 | .init15 | .read02 | .write02 | .wrchk02 => s.unanswered i nCR (i.spiRXD == 0x00)
  | .read03 | .wrchk03 => s.unanswered i nAC (i.spiRXD == 0xfe)
  | .init06 =>
      s.loopCNT != 0 && i.spiDONE &&
        i.spiRXD != (match s.loopCNT.toNat with | 3 => 0x01 | 4 => 0xaa | _ => 0x00)
  | .init16 =>
      i.spiDONE && (s.loopCNT == 1 && !(i.spiRXD.getLsbD 7 && i.spiRXD.getLsbD 6) ||
        s.loopCNT == 2 && !(i.spiRXD.getLsbD 5 || i.spiRXD.getLsbD 4))
  | .write18 => i.spiDONE && i.spiRXD.extractLsb' 0 5 != 0b00101
  | .write19 => i.spiDONE && i.spiRXD == 0 && s.loopCNT == 65535
  | .write21 =>
      i.spiDONE &&
        (if i.spiRXD == ff then s.loopCNT == nCR else !(i.spiRXD == 0x00 || i.spiRXD == 0x01))
  | .write22 => i.spiDONE && i.spiRXD != 0x00
  | _ => false

def failed (s : Sd) : Prop := s.state = .infail ∨ s.state = .rwfail

/-- The initialisation is tried again: from the start, or from CMD55. -/
def retried (s s' : Sd) : Prop :=
  s.state = .init02 ∧ s'.state = .reset ∨
  (s.state = .init09 ∨ s.state = .init12) ∧ s'.state = .init07

variable {s late k : Sd} {i : In} {n : BitVec 16} {good : Bool}

theorem poll_unanswered (h : s.unanswered i n good = true) :
    s.poll i n late k = late ∨ s.poll i n late k = k ∧ i.spiRXD ≠ ff ∧ good = false := by
  simp only [unanswered, Bool.and_eq_true, bne_iff_ne, ne_eq] at h
  obtain ⟨⟨h0, hdone⟩, hbad⟩ := h
  have h0' : ¬ (s.loopCNT == 0) = true := by simpa using h0
  unfold poll oneByte onDone
  rw [if_neg h0', if_pos hdone]
  by_cases hff : (i.spiRXD == ff) = true
  · rw [if_pos hff] at hbad ⊢
    rw [if_pos hbad]
    exact Or.inl rfl
  · rw [if_neg hff] at hbad ⊢
    rw [Bool.not_eq_true'] at hbad
    exact Or.inr ⟨rfl, by simpa using hff, hbad⟩

/-- The chip select is negated and the controller fails or tries again. -/
def GivesUp (s s' : Sd) : Prop := s'.spiOP = .csh ∧ (s'.failed ∨ s.retried s')

theorem givesUp_fail {s q : Sd} {err : BitVec 8} : s.GivesUp (q.fail err .infail) ∧
    s.GivesUp (q.fail err .rwfail) ∧ s.GivesUp (q.failVal i err) :=
  ⟨⟨rfl, Or.inl (Or.inl rfl)⟩, ⟨rfl, Or.inl (Or.inr rfl)⟩, ⟨rfl, Or.inl (Or.inr rfl)⟩⟩

/-- A state that polls gives up if both its ways out do. -/
theorem givesUp_poll {q : Sd} (h : q.unanswered i n good = true) (hlate : s.GivesUp late)
    (hk : i.spiRXD ≠ ff → good = false → s.GivesUp k) : s.GivesUp (q.poll i n late k) := by
  have hways : q.poll i n late k = late ∨ q.poll i n late k = k ∧ i.spiRXD ≠ ff ∧ good = false :=
    poll_unanswered h
  rcases hways with heq | ⟨heq, hff, hbad⟩
  · rw [heq]
    exact hlate
  · rw [heq]
    exact hk hff hbad

theorem givesUp_init16 {q : Sd} (hst : s.state = .init16) (hloop : q.loopCNT = s.loopCNT)
    (h : s.refused i = true) : s.GivesUp (q.init16 i) := by
  simp only [refused, hst, Bool.and_eq_true, Bool.or_eq_true, beq_iff_eq, Bool.not_eq_true'] at h
  obtain ⟨hdone, ⟨hone, hbad⟩ | ⟨htwo, hbad⟩⟩ := h
  · have hnat : q.loopCNT.toNat = 1 := by rw [hloop, hone]; rfl
    unfold init16
    rw [hnat]
    simp only [onDone, hdone, if_true, hbad, Bool.false_eq_true, if_false]
    exact ⟨rfl, Or.inl (Or.inl rfl)⟩
  · have hnat : q.loopCNT.toNat = 2 := by rw [hloop, htwo]; rfl
    unfold init16
    rw [hnat]
    simp only [onDone, hdone, if_true, hbad, Bool.false_eq_true, if_false]
    exact ⟨rfl, Or.inl (Or.inl rfl)⟩

theorem next_refused (h : s.refused i = true) (hslip : s.slips i = false) :
    s.GivesUp (s.next i) := by
  have hf : ∀ err, s.GivesUp (s.quiet.fail err .infail) ∧ s.GivesUp (s.quiet.fail err .rwfail) ∧
      s.GivesUp (s.quiet.failVal i err) := fun _ => givesUp_fail
  rcases s with ⟨state⟩
  cases state with
  | init02 =>
      refine givesUp_poll h ⟨rfl, Or.inr (Or.inl ⟨rfl, rfl⟩)⟩ fun _ hbad =>
        ⟨rfl, Or.inr (Or.inl ⟨rfl, ?_⟩)⟩
      change (if i.spiRXD == 0x01 then State.init03 else State.reset) = State.reset
      rw [hbad, if_neg Bool.false_ne_true]
  | init05 =>
      refine givesUp_poll h (hf 1).1 fun _ hbad => ?_
      rw [hbad, if_neg Bool.false_ne_true]
      split
      · exact (hf 2).1
      · exact (hf 3).1
  | init06 => cases h.symm.trans hslip
  | init09 =>
      refine givesUp_poll h (hf 8).1 fun _ hbad => ⟨rfl, Or.inr (Or.inr ⟨Or.inl rfl, ?_⟩)⟩
      change (if i.spiRXD == 0x01 then State.init10 else State.init07) = State.init07
      rw [hbad, if_neg Bool.false_ne_true]
  | init12 =>
      refine givesUp_poll h (hf 9).1 fun _ hbad => ⟨rfl, Or.inr (Or.inr ⟨Or.inr rfl, ?_⟩)⟩
      change (if i.spiRXD == 0x00 then State.init13 else State.init07) = State.init07
      rw [hbad, if_neg Bool.false_ne_true]
  | init15 =>
      refine givesUp_poll h (hf 10).1 fun _ hbad => ?_
      rw [hbad, if_neg Bool.false_ne_true]
      exact (hf 11).1
  | init16 => exact givesUp_init16 rfl rfl h
  | read02 =>
      refine givesUp_poll h (hf 14).2.1 fun _ hbad => ?_
      rw [hbad, if_neg Bool.false_ne_true]
      exact (hf 15).2.2
  | read03 =>
      refine givesUp_poll h (hf 16).2.1 fun _ hbad => ?_
      rw [hbad, if_neg Bool.false_ne_true]
      exact (hf 17).2.2
  | write02 =>
      refine givesUp_poll h (hf 18).2.1 fun hff hbad => ?_
      simp_all [refused, slips, unanswered]
  | write18 =>
      simp only [refused, Bool.and_eq_true, bne_iff_ne, ne_eq] at h
      change GivesUp _ (onDone _ i _)
      rw [onDone, if_pos h.1, if_neg (by simpa using h.2)]
      exact (hf 20).2.2
  | write19 =>
      simp only [refused, Bool.and_eq_true] at h
      change GivesUp _ (onDone _ i _)
      rw [onDone, if_pos h.1.1, if_pos h.1.2]
      refine (congrArg (GivesUp _) (if_pos h.2)).mpr ?_
      exact (hf 21).2.1
  | write21 =>
      simp only [refused, Bool.and_eq_true] at h
      simp only [slips, h.1, Bool.true_and, Bool.not_eq_false'] at hslip
      change GivesUp _ (onDone _ i _)
      rw [onDone, if_pos h.1]
      by_cases hff : (i.spiRXD == ff) = true
      · rw [if_pos hff, if_pos (by simpa [hff] using h.2)]
        exact (hf 22).2.1
      · simp_all
  | write22 =>
      simp only [refused, Bool.and_eq_true, bne_iff_ne, ne_eq] at h
      change GivesUp _ (onDone _ i _)
      rw [onDone, if_pos h.1, if_neg (by simpa using h.2)]
      exact ⟨rfl, Or.inl (Or.inr rfl)⟩
  | wrchk02 =>
      refine givesUp_poll h (hf 25).2.1 fun _ hbad => ?_
      rw [hbad, if_neg Bool.false_ne_true]
      exact (hf 26).2.1
  | wrchk03 =>
      refine givesUp_poll h (hf 27).2.1 fun _ hbad => ?_
      rw [hbad, if_neg Bool.false_ne_true]
      exact (hf 28).2.2
  | _ => cases h

theorem next_failed (h : s.failed) : (s.next i).failed ∧ (s.next i).spiOP = .nop := by
  rcases s with ⟨state⟩
  rcases h with h | h
  · obtain rfl : state = .infail := h
    exact ⟨Or.inl rfl, rfl⟩
  · obtain rfl : state = .rwfail := h
    exact ⟨Or.inr rfl, rfl⟩

end Sd

end KS10
