import KS10.Disk.Sd

/-!
# The phases of the SD controller

What the controller does for the drives is seen through few of its registers: the drive
that it scans, the sector address and the half of the sector, the pulse at the end of a
sector, the DMA request and the acknowledge.  Between the request of a drive and the
acknowledge its state only matters by the phase (`Sd.phase`): `next_transferring` and the
lemmas after it say how a clock changes these registers in each phase.
-/

namespace KS10

namespace Sd

/-- The phases of the controller.  After each half sector it counts (`counting`) and looks
at the request again (`deciding`). -/
inductive Phase where
  | starting | scanning | transferring | counting | deciding | finishing | acknowledging
  | acknowledged | failed
  deriving DecidableEq

def phase : State → Phase
  | .reset
  | .init00 | .init01 | .init02 | .init03 | .init04 | .init05 | .init06 | .init07 | .init08
  | .init09 | .init10 | .init11 | .init12 | .init13 | .init14 | .init15 | .init16 | .init17 =>
      .starting
  | .idle => .scanning
  | .read18 | .write24 | .wrchk16 => .counting
  | .read19 | .write25 | .wrchk17 => .deciding
  | .fini => .finishing
  | .ackrp => .acknowledging
  | .done => .acknowledged
  | .infail | .rwfail => .failed
  | _ => .transferring

/-- The states at which a half sector begins. -/
def begins : State → Bool
  | .read00 | .write00 | .wrchk00 => true
  | _ => false

variable {s t late k : Sd} {i : In}

/-! ## The kinds of states -/

section Kinds

variable {P : Sd → Prop}

/-- `P` holds while the state waits. -/
structure Stays (P : Sd → Prop) (s : Sd) : Prop where
  rest : P s.quiet
  byte : ∀ tx n, P { s.quiet.transfer tx with loopCNT := n }

variable (h : Stays P s)

include h

theorem Stays.onDone (hk : P k) : P (s.quiet.onDone i k) := by
  unfold Sd.onDone
  split
  · exact hk
  · exact h.rest

theorem Stays.sendBytes {n : BitVec 16} {tx : BitVec 8} (hk : P k) :
    P (s.quiet.sendBytes i n tx k) := by
  unfold Sd.sendBytes
  split
  · split
    · exact hk
    · exact h.byte _ _
  · exact h.rest

theorem Stays.oneByte {tx : BitVec 8} (hk : P k) : P (s.quiet.oneByte i tx k) := by
  unfold Sd.oneByte
  split
  · exact h.byte _ _
  · exact h.onDone hk

theorem Stays.poll {n : BitVec 16} (hlate : P late) (hk : P k) :
    P (s.quiet.poll i n late k) := by
  refine h.oneByte ?_
  split
  · split
    · exact hlate
    · exact h.byte _ _
  · exact hk

end Kinds

/-! ## What the drives see -/

/-- Nothing that the drives see has changed but the phase. -/
structure Keeps (s : Sd) (p : Phase) (t : Sd) : Prop where
  phase : phase t.state = p
  sdSCAN : t.sdSCAN = s.sdSCAN
  sectADDR : t.sectADDR = s.sectADDR
  sectCNT : t.sectCNT = s.sectCNT
  sdINCSECT : t.sdINCSECT = false
  rpSDACK : t.rpSDACK = 0

/-- None of the signals to the drives and to the bus is given. -/
structure Silent (t : Sd) : Prop where
  sdINCSECT : t.sdINCSECT = false
  rpSDACK : t.rpSDACK = 0
  devREQO : t.devREQO = false

/-- The half sector has ended. -/
structure Counts (s t : Sd) : Prop where
  phase : phase t.state = .counting
  sdSCAN : t.sdSCAN = s.sdSCAN
  sectADDR : t.sectADDR = s.sectADDR + 1
  sectCNT : t.sectCNT = !s.sectCNT
  sdINCSECT : t.sdINCSECT = s.sectCNT
  rpSDACK : t.rpSDACK = 0

/-- The last half sector has ended. -/
structure Ends (s t : Sd) : Prop where
  phase : phase t.state = .finishing
  sdSCAN : t.sdSCAN = s.sdSCAN
  sdINCSECT : t.sdINCSECT = s.sectCNT
  rpSDACK : t.rpSDACK = 0
  devREQO : t.devREQO = false

/-- What a clock of a transfer does. -/
inductive Moves (s t : Sd) : Prop where
  | keeps (h : Keeps s .transferring t)
  | counts (h : Counts s t)
  | ends (h : Ends s t)
  | fails (h : phase t.state = .failed) (hsilent : Silent t)

/-- What a clock of a transfer does, with the end of a half sector as the controller carries it
out. -/
inductive Turns (s : Sd) (i : In) (t : Sd) : Prop where
  | keeps (h : Keeps s .transferring t)
  | ends {op : SpiOp} {st : State} (hst : phase st = .counting)
      (h : t = { s.quiet with spiOP := op }.endSector i st)
  | fails (h : phase t.state = .failed) (hsilent : Silent t)

theorem turns_stays (h : phase s.state = .transferring) : Stays (Turns s i) s where
  rest := .keeps ⟨h, rfl, rfl, rfl, rfl, rfl⟩
  byte := fun _ _ => .keeps ⟨h, rfl, rfl, rfl, rfl, rfl⟩

theorem turns_onAck (h : phase s.state = .transferring) (hk : Turns s i k) :
    Turns s i (s.quiet.onAck i k) := by
  unfold onAck
  split
  · exact hk
  · exact .keeps ⟨h, rfl, rfl, rfl, rfl, rfl⟩

theorem turns_fail {err : BitVec 8} : Turns s i (s.quiet.fail err .rwfail) :=
  .fails rfl ⟨rfl, rfl, rfl⟩

/-! ## The phases -/

theorem turns_next (h : phase s.state = .transferring) : Turns s i (s.next i) := by
  cases hst : s.state
  -- A clock that starts something.
  case readh00 | readh02 | writeh00 | writeh02 | wrchkh00 | wrchkh02 | read00 | write00 | wrchk00
      | read16 | write07 =>
    simp only [next, hst]
    exact .keeps ⟨rfl, rfl, rfl, rfl, rfl, rfl⟩
  case read13 | write05 | wrchk13 =>
    simp only [next, hst]
    split
    · exact .keeps ⟨rfl, rfl, rfl, rfl, rfl, rfl⟩
    · exact .keeps ⟨rfl, rfl, rfl, rfl, rfl, rfl⟩
  -- The end of a DMA cycle.
  case readh01 | readh03 | writeh01 | writeh03 | wrchkh01 | wrchkh03 | read12 | write06
      | wrchk12 =>
    simp only [next, hst]
    exact turns_onAck h (.keeps ⟨rfl, rfl, rfl, rfl, rfl, rfl⟩)
  -- The bytes of a command.
  case read01 | write01 | wrchk01 | write20 =>
    simp only [next, hst]
    exact (turns_stays h).sendBytes (.keeps ⟨rfl, rfl, rfl, rfl, rfl, rfl⟩)
  -- The answer, and the token of the data.
  case read02 | wrchk02 | read03 | wrchk03 =>
    simp only [next, hst]
    refine (turns_stays h).poll turns_fail ?_
    split
    · exact .keeps ⟨rfl, rfl, rfl, rfl, rfl, rfl⟩
    · exact .fails rfl ⟨rfl, rfl, rfl⟩
  case write02 =>
    simp only [next, hst]
    refine (turns_stays h).poll turns_fail ?_
    split
    · exact .keeps ⟨rfl, rfl, rfl, rfl, rfl, rfl⟩
    · exact .keeps ⟨h, rfl, rfl, rfl, rfl, rfl⟩
  case write03 | write04 =>
    simp only [next, hst]
    exact (turns_stays h).oneByte (.keeps ⟨rfl, rfl, rfl, rfl, rfl, rfl⟩)
  -- The bytes of the data.
  case read04 | read05 | read06 | read07 | read08 | read09 | read10 | read11 | read14 | read15
      | write08 | write09 | write10 | write11 | write12 | write13 | write14 | write16 | write17
      | wrchk04 | wrchk05 | wrchk06 | wrchk07 | wrchk08 | wrchk09 | wrchk10 | wrchk14 =>
    simp only [next, hst]
    exact (turns_stays h).onDone (.keeps ⟨rfl, rfl, rfl, rfl, rfl, rfl⟩)
  case write15 | wrchk11 =>
    simp only [next, hst]
    refine (turns_stays h).onDone ?_
    split
    · exact .keeps ⟨rfl, rfl, rfl, rfl, rfl, rfl⟩
    · exact .keeps ⟨rfl, rfl, rfl, rfl, rfl, rfl⟩
  -- The answers of the card after a block.
  case write18 | write22 =>
    simp only [next, hst]
    refine (turns_stays h).onDone ?_
    split
    · exact .keeps ⟨rfl, rfl, rfl, rfl, rfl, rfl⟩
    · exact .fails rfl ⟨rfl, rfl, rfl⟩
  case write19 =>
    simp only [next, hst]
    refine (turns_stays h).onDone ?_
    split
    · split
      · exact turns_fail
      · exact .keeps ⟨h, rfl, rfl, rfl, rfl, rfl⟩
    · exact .keeps ⟨rfl, rfl, rfl, rfl, rfl, rfl⟩
  case write21 =>
    simp only [next, hst]
    refine (turns_stays h).onDone ?_
    split
    · split
      · exact turns_fail
      · exact .keeps ⟨h, rfl, rfl, rfl, rfl, rfl⟩
    · split
      · exact .keeps ⟨rfl, rfl, rfl, rfl, rfl, rfl⟩
      · exact .keeps ⟨h, rfl, rfl, rfl, rfl, rfl⟩
  -- The end of a half sector.
  case read17 | write23 | wrchk15 =>
    simp only [next, hst]
    exact (turns_stays h).onDone (.ends rfl rfl)
  all_goals
    rw [hst] at h
    cases h

/-- A clock of a transfer. -/
theorem next_transferring (h : phase s.state = .transferring) : Moves s (s.next i) := by
  cases turns_next (i := i) h with
  | keeps hk => exact .keeps hk
  | fails hf hsilent => exact .fails hf hsilent
  | ends hst hnext =>
      rw [hnext, endSector]
      split
      · exact .ends ⟨rfl, rfl, rfl, rfl, rfl⟩
      · exact .counts ⟨hst, rfl, rfl, rfl, rfl, rfl⟩

/-- Only with all words transferred does a transfer end of itself. -/
theorem rhWC_of_ends (h : phase s.state = .transferring)
    (hends : phase (s.next i).state = .finishing) : i.rhWC = 0 := by
  cases turns_next (i := i) h with
  | keeps hk => cases hk.phase.symm.trans hends
  | fails hf _ => cases hf.symm.trans hends
  | ends hst hnext =>
      rw [hnext, endSector] at hends
      split at hends
      · rename_i hwords
        rw [Bool.and_eq_true, beq_iff_eq] at hwords
        exact hwords.2
      · cases hst.symm.trans hends

/-- The controller looks at the request again. -/
theorem next_counting (h : phase s.state = .counting) : Keeps s .deciding (s.next i) := by
  cases hst : s.state
  case read18 | write24 | wrchk16 =>
    simp only [next, hst]
    exact ⟨rfl, rfl, rfl, rfl, rfl, rfl⟩
  all_goals
    rw [hst] at h
    cases h

/-- The next half sector begins if the drive still requests it. -/
theorem next_deciding (h : phase s.state = .deciding) :
    s.requested i = true ∧ Keeps s .transferring (s.next i) ∨
      s.requested i = false ∧ phase (s.next i).state = .finishing ∧
        (s.next i).sdSCAN = s.sdSCAN ∧ Silent (s.next i) := by
  have hreq : s.quiet.requested i = s.requested i := rfl
  cases hst : s.state
  case read19 | write25 | wrchk17 =>
    simp only [next, hst, nextSector, hreq]
    cases s.requested i with
    | true => exact Or.inl ⟨rfl, rfl, rfl, rfl, rfl, rfl, rfl⟩
    | false => exact Or.inr ⟨rfl, rfl, rfl, rfl, rfl, rfl⟩
  all_goals
    rw [hst] at h
    cases h

/-- The last byte, and then the acknowledge. -/
theorem next_finishing (h : phase s.state = .finishing) :
    (phase (s.next i).state = .finishing ∨ phase (s.next i).state = .acknowledging) ∧
      (s.next i).sdSCAN = s.sdSCAN ∧ Silent (s.next i) := by
  cases hst : s.state
  case fini =>
    have hstays : Stays (fun t => (phase t.state = .finishing ∨ phase t.state = .acknowledging) ∧
        t.sdSCAN = s.sdSCAN ∧ Silent t) s :=
      ⟨⟨Or.inl h, rfl, rfl, rfl, rfl⟩, fun _ _ => ⟨Or.inl h, rfl, rfl, rfl, rfl⟩⟩
    simp only [next, hst]
    exact hstays.oneByte ⟨Or.inr rfl, rfl, rfl, rfl, rfl⟩
  all_goals
    rw [hst] at h
    cases h

theorem next_acknowledging (h : phase s.state = .acknowledging) :
    phase (s.next i).state = .acknowledged ∧ (s.next i).sdSCAN = s.sdSCAN ∧
      (s.next i).rpSDACK = 1#8 <<< s.sdSCAN.toNat ∧ (s.next i).sdINCSECT = false ∧
      (s.next i).devREQO = false := by
  cases hst : s.state
  case ackrp =>
    simp only [next, hst]
    exact ⟨rfl, rfl, rfl, rfl, rfl⟩
  all_goals
    rw [hst] at h
    cases h

theorem next_acknowledged (h : phase s.state = .acknowledged) :
    phase (s.next i).state = .scanning ∧ Silent (s.next i) := by
  cases hst : s.state
  case done =>
    simp only [next, hst]
    exact ⟨rfl, rfl, rfl, rfl⟩
  all_goals
    rw [hst] at h
    cases h

/-- The controller accepts the request of a drive. -/
structure Accepts (s : Sd) (i : In) (t : Sd) : Prop where
  requested : s.requested i = true
  rpSDOP : i.rpSDOP ≠ .nop
  phase : phase t.state = .transferring
  sdSCAN : t.sdSCAN = s.sdSCAN
  sectADDR : t.sectADDR = 0#8 ++ s.sdSCAN ++ i.rpSDLSA
  sectCNT : t.sectCNT = false
  silent : Silent t

/-- Between transfers the controller scans the drives. -/
theorem next_scanning (h : phase s.state = .scanning) :
    Accepts s i (s.next i) ∨ phase (s.next i).state = .scanning ∧ Silent (s.next i) := by
  cases hst : s.state
  case idle =>
    simp only [next, hst, scan]
    split
    · rename_i hreq
      cases hop : i.rpSDOP with
      | nop => exact Or.inr ⟨rfl, rfl, rfl, rfl⟩
      | rd => exact Or.inl ⟨hreq, by rw [hop]; decide, rfl, rfl, rfl, rfl, rfl, rfl, rfl⟩
      | rdh => exact Or.inl ⟨hreq, by rw [hop]; decide, rfl, rfl, rfl, rfl, rfl, rfl, rfl⟩
      | wr => exact Or.inl ⟨hreq, by rw [hop]; decide, rfl, rfl, rfl, rfl, rfl, rfl, rfl⟩
      | wrh => exact Or.inl ⟨hreq, by rw [hop]; decide, rfl, rfl, rfl, rfl, rfl, rfl, rfl⟩
      | wrchk => exact Or.inl ⟨hreq, by rw [hop]; decide, rfl, rfl, rfl, rfl, rfl, rfl, rfl⟩
      | wrchkh => exact Or.inl ⟨hreq, by rw [hop]; decide, rfl, rfl, rfl, rfl, rfl, rfl, rfl⟩
    · exact Or.inr ⟨h, rfl, rfl, rfl⟩
  all_goals
    rw [hst] at h
    cases h

/-- The controller does nothing for the drives. -/
def Free (s : Sd) : Prop :=
  (phase s.state = .starting ∨ phase s.state = .scanning ∨ phase s.state = .failed) ∧ Silent s

/-- A failure of the controller stays. -/
theorem next_failing (h : phase s.state = .failed) :
    phase (s.next i).state = .failed ∧ Silent (s.next i) := by
  cases hst : s.state
  case infail | rwfail =>
    simp only [next, hst]
    exact ⟨h, rfl, rfl, rfl⟩
  all_goals
    rw [hst] at h
    cases h

theorem free_stays (h : phase s.state = .starting) : Stays Free s where
  rest := ⟨Or.inl h, rfl, rfl, rfl⟩
  byte := fun _ _ => ⟨Or.inl h, rfl, rfl, rfl⟩

theorem free_infail {err : BitVec 8} : Free (s.quiet.fail err .infail) :=
  ⟨Or.inr (Or.inr rfl), rfl, rfl, rfl⟩

theorem free_init06 (h : phase s.state = .starting) : Free (s.quiet.init06 i) := by
  have hbyte (n : BitVec 16) : Free { s.quiet.transfer ff with loopCNT := n } :=
    (free_stays h).byte ff n
  have hecho {rx err : BitVec 8} {k : Sd} (hk : Free k) : Free (s.quiet.echo i rx err k) := by
    refine (free_stays h).onDone ?_
    split
    · exact hk
    · exact ⟨Or.inr (Or.inr rfl), rfl, rfl, rfl⟩
  unfold init06
  split
  · exact hbyte 1
  · exact hecho (hbyte 2)
  · exact hecho (hbyte 3)
  · exact hecho (hbyte 4)
  · exact hecho ⟨Or.inl rfl, rfl, rfl, rfl⟩
  · exact (free_stays h).rest

theorem free_init16 (h : phase s.state = .starting) : Free (s.quiet.init16 i) := by
  have hbyte (n : BitVec 16) : Free { s.quiet.transfer ff with loopCNT := n } :=
    (free_stays h).byte ff n
  unfold init16
  split
  · exact hbyte 1
  · refine (free_stays h).onDone ?_
    split
    · exact hbyte 2
    · exact ⟨Or.inr (Or.inr rfl), rfl, rfl, rfl⟩
  · refine (free_stays h).onDone ?_
    split
    · exact hbyte 3
    · exact ⟨Or.inr (Or.inr rfl), rfl, rfl, rfl⟩
  · exact (free_stays h).onDone (hbyte 4)
  · exact (free_stays h).onDone ⟨Or.inl rfl, rfl, rfl, rfl⟩
  · exact (free_stays h).rest

/-- The initialisation of the card. -/
theorem next_starting (h : phase s.state = .starting) : Free (s.next i) := by
  cases hst : s.state
  case reset =>
    simp only [next, hst]
    exact ⟨Or.inl rfl, rfl, rfl, rfl⟩
  case init00 | init01 | init04 | init08 | init11 | init14 =>
    simp only [next, hst]
    exact (free_stays h).sendBytes ⟨Or.inl rfl, rfl, rfl, rfl⟩
  case init03 | init07 | init10 | init13 =>
    simp only [next, hst]
    exact (free_stays h).oneByte ⟨Or.inl rfl, rfl, rfl, rfl⟩
  case init17 =>
    simp only [next, hst]
    exact (free_stays h).oneByte ⟨Or.inr (Or.inl rfl), rfl, rfl, rfl⟩
  case init02 =>
    simp only [next, hst]
    refine (free_stays h).poll ⟨Or.inl rfl, rfl, rfl, rfl⟩ ?_
    split
    · exact ⟨Or.inl rfl, rfl, rfl, rfl⟩
    · exact ⟨Or.inl rfl, rfl, rfl, rfl⟩
  case init05 =>
    simp only [next, hst]
    refine (free_stays h).poll free_infail ?_
    split
    · exact ⟨Or.inl rfl, rfl, rfl, rfl⟩
    · split
      · exact free_infail
      · exact free_infail
  case init09 | init12 =>
    simp only [next, hst]
    refine (free_stays h).poll free_infail ?_
    split
    · exact ⟨Or.inl rfl, rfl, rfl, rfl⟩
    · exact ⟨Or.inl rfl, rfl, rfl, rfl⟩
  case init15 =>
    simp only [next, hst]
    refine (free_stays h).poll free_infail ?_
    split
    · exact ⟨Or.inl rfl, rfl, rfl, rfl⟩
    · exact free_infail
  case init06 =>
    simp only [next, hst]
    exact free_init06 h
  case init16 =>
    simp only [next, hst]
    exact free_init16 h
  all_goals
    rw [hst] at h
    cases h

/-! ## The pulse and the acknowledge -/

/-- Only a transfer gives a pulse. -/
theorem next_sdINCSECT_eq_false (h : phase s.state ≠ .transferring) :
    (s.next i).sdINCSECT = false := by
  cases hphase : phase s.state with
  | starting => exact (next_starting hphase).2.sdINCSECT
  | scanning =>
      rcases next_scanning (i := i) hphase with ha | ⟨-, hsilent⟩
      · exact ha.silent.sdINCSECT
      · exact hsilent.sdINCSECT
  | transferring => exact absurd hphase h
  | counting => exact (next_counting hphase).sdINCSECT
  | deciding =>
      rcases next_deciding (i := i) hphase with ⟨-, hk⟩ | ⟨-, -, -, hsilent⟩
      · exact hk.sdINCSECT
      · exact hsilent.sdINCSECT
  | finishing => exact (next_finishing hphase).2.2.sdINCSECT
  | acknowledging => exact (next_acknowledging hphase).2.2.2.1
  | acknowledged => exact (next_acknowledged hphase).2.sdINCSECT
  | failed => exact (next_failing hphase).2.sdINCSECT

/-- A pulse is given exactly at the end of the second half of a sector. -/
theorem next_sdINCSECT : (s.next i).sdINCSECT =
    (phase s.state == .transferring && s.sectCNT &&
      (phase (s.next i).state == .counting || phase (s.next i).state == .finishing)) := by
  by_cases hphase : phase s.state = .transferring
  · rw [hphase]
    cases next_transferring (i := i) hphase with
    | keeps hk =>
        rw [hk.sdINCSECT, hk.phase]
        simp
    | counts hc =>
        rw [hc.sdINCSECT, hc.phase]
        simp
    | ends he =>
        rw [he.sdINCSECT, he.phase]
        simp
    | fails hf hsilent =>
        rw [hsilent.sdINCSECT, hf]
        simp
  · rw [next_sdINCSECT_eq_false hphase, beq_eq_false_iff_ne.mpr hphase, Bool.false_and,
      Bool.false_and]

/-- The acknowledge lasts one clock. -/
theorem next_rpSDACK : (s.next i).rpSDACK =
    if phase s.state = .acknowledging then 1#8 <<< s.sdSCAN.toNat else 0 := by
  cases hphase : phase s.state with
  | starting => exact (next_starting hphase).2.rpSDACK
  | scanning =>
      rcases next_scanning (i := i) hphase with ha | ⟨-, hsilent⟩
      · exact ha.silent.rpSDACK
      · exact hsilent.rpSDACK
  | transferring =>
      cases next_transferring (i := i) hphase with
      | keeps hk => exact hk.rpSDACK
      | counts hc => exact hc.rpSDACK
      | ends he => exact he.rpSDACK
      | fails _ hsilent => exact hsilent.rpSDACK
  | counting => exact (next_counting hphase).rpSDACK
  | deciding =>
      rcases next_deciding (i := i) hphase with ⟨-, hk⟩ | ⟨-, -, -, hsilent⟩
      · exact hk.rpSDACK
      · exact hsilent.rpSDACK
  | finishing => exact (next_finishing hphase).2.2.rpSDACK
  | acknowledging => exact (next_acknowledging hphase).2.2.1
  | acknowledged => exact (next_acknowledged hphase).2.rpSDACK
  | failed => exact (next_failing hphase).2.rpSDACK

/-- The controller works for one drive until it scans again or fails. -/
theorem next_sdSCAN : (s.next i).sdSCAN = s.sdSCAN ∨ phase (s.next i).state = .starting ∨
    phase (s.next i).state = .scanning ∨ phase (s.next i).state = .failed := by
  cases hphase : phase s.state with
  | starting => exact Or.inr (next_starting hphase).1
  | scanning =>
      rcases next_scanning (i := i) hphase with ha | ⟨hscans, -⟩
      · exact Or.inl ha.sdSCAN
      · exact Or.inr (Or.inr (Or.inl hscans))
  | transferring =>
      cases next_transferring (i := i) hphase with
      | keeps hk => exact Or.inl hk.sdSCAN
      | counts hc => exact Or.inl hc.sdSCAN
      | ends he => exact Or.inl he.sdSCAN
      | fails hf _ => exact Or.inr (Or.inr (Or.inr hf))
  | counting => exact Or.inl (next_counting hphase).sdSCAN
  | deciding =>
      rcases next_deciding (i := i) hphase with ⟨-, hk⟩ | ⟨-, -, hscan, -⟩
      · exact Or.inl hk.sdSCAN
      · exact Or.inl hscan
  | finishing => exact Or.inl (next_finishing hphase).2.1
  | acknowledging => exact Or.inl (next_acknowledging hphase).2.1
  | acknowledged => exact Or.inr (Or.inr (Or.inl (next_acknowledged hphase).1))
  | failed => exact Or.inr (Or.inr (Or.inr (next_failing hphase).1))

/-- A word is counted only while words are left. -/
def CountsLeft (i : In) (t : Sd) : Prop := t.sdINCWC = true → i.rhWC ≠ 0

theorem CountsLeft.quiet (h : t.sdINCWC = false) : CountsLeft i t :=
  fun hyes => absurd (h.symm.trans hyes) Bool.false_ne_true

theorem CountsLeft.counted (h : t.sdINCWC = (i.rhWC != 0)) : CountsLeft i t := by
  intro hyes
  rw [h, bne_iff_ne] at hyes
  exact hyes

/-- The word count stays at zero. -/
theorem next_countsLeft : CountsLeft i (s.next i) := by
  cases hst : s.state
  -- The end of a word.
  case read12 | readh01 | readh03 | writeh01 | writeh03 | wrchkh01 | wrchkh03 =>
    simp only [next, hst, onAck]
    split
    · exact .counted rfl
    · exact .quiet rfl
  case write07 =>
    simp only [next, hst]
    exact .counted rfl
  case wrchk13 =>
    simp only [next, hst]
    split
    · exact .counted rfl
    · exact .counted rfl
  all_goals
    refine .quiet ?_
    simp only [next, hst, sendBytes, sendCommand, oneByte, poll, onDone, onAck, receive, sendNext,
      init06, init16, echo, token, nextSector, endSector, scan]
    repeat' split
    all_goals rfl

/-- A half sector begins within a transfer. -/
theorem phase_of_begins (h : begins s.state = true) : phase s.state = .transferring := by
  cases hst : s.state
  case read00 | write00 | wrchk00 => rfl
  all_goals
    rw [hst] at h
    cases h

end Sd

end KS10
