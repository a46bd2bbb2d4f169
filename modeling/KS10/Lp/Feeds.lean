import KS10.Lp.Printer

/-!
# The line feeds of a vertical motion

A vertical motion of the printer first counts its line feeds, while the line counter already
moves, and sends them later, after the line in the buffer.  In every state the line feeds that
are still to come can be told from the counters (`Lp26.Fsm.Fits`): with them the paper will be
where the line counter is.  Every clock keeps that (`Lp26.Fsm.Fits.step`).
-/

namespace KS10

namespace Lp26.Fsm

/-! ## The paper -/

/-- The paper after a character: the serial line carries seven bits of it. -/
def advance (line : Nat) (d : BitVec 8) : Nat :=
  if d &&& 0x7f = Ascii.ff then 0
  else if d &&& 0x7f = Ascii.lf then line + 1
  else line

/-- The paper after the character that is on its way to the serial line. -/
def lineAfter (line : Nat) (s : Fsm) : Nat :=
  if s.lpTxStb then advance line s.lpTxDat else line

/-! ## The counters -/

/-- A character that does not move the paper. -/
def plain (d : BitVec 8) : Prop := d &&& 0x7f ≠ Ascii.ff ∧ d &&& 0x7f ≠ Ascii.lf

/-- The counters of the line feeds and of the characters in each state. -/
def Tidy (s : Fsm) : Prop :=
  match s.state with
  | .idle | .vfuEven | .vfuOdd | .vfuRdy | .vfuNotRdy | .wait | .done =>
      s.lpLfCnt = 0 ∧ s.lpCount = 0
  | .print | .dly1 => s.lpLfCnt = 0 ∧ s.lpCount.toNat ≤ s.lpCctr.toNat
  | .vfuChan | .dly2 => s.lpLfCnt = s.lpCount + 1
  | .vfuVt | .dly3 => s.lpLfCnt = s.lpCount
  | .vfuSlew | .dly4 | .vfuMove | .dly6 => s.lpCount = 0
  | .vfuPrint | .dly5 => s.lpCount.toNat ≤ s.lpCctr.toNat
  | .vfuOffln => True

/-- The states that can come right after a character has been sent. -/
def sending (s : Fsm) : Bool :=
  s.state == .wait || s.state == .dly1 || s.state == .vfuMove || s.state == .dly5 ||
    s.state == .dly6

variable {s : Fsm} {i : In} {lpXon : Bool}

/-- The line has been sent, or the next character of it is still one of the line. -/
theorem sendLine_cases (last : BitVec 8) (after delay : State)
    (h : s.lpCount.toNat ≤ s.lpCctr.toNat) :
    s.sendLine last after delay =
        { s with lpCctr := 0, lpCount := 0, lpTxStb := true, lpTxDat := last, state := after } ∨
      s.lpCount.toNat < s.lpCctr.toNat ∧ (s.lpCount + 1).toNat ≤ s.lpCctr.toNat ∧
        s.sendLine last after delay =
          { s with lpTxStb := true, lpTxDat := s.lpLinBuf s.lpCount, lpCount := s.lpCount + 1,
                   state := delay } := by
  unfold sendLine
  by_cases heq : s.lpCount = s.lpCctr
  · exact .inl (if_pos heq)
  · have hne : s.lpCount.toNat ≠ s.lpCctr.toNat := fun h => heq (BitVec.eq_of_toNat_eq h)
    have hlt := s.lpCctr.isLt
    have hsum : (s.lpCount + 1).toNat = (s.lpCount.toNat + 1) % 256 := BitVec.toNat_add _ _
    refine .inr ⟨by omega, by omega, if_neg heq⟩

theorem Tidy.paper (h : s.Tidy) (hs : s.state = .idle) : (s.paper i).Tidy := by
  unfold Tidy at h
  rw [hs] at h
  unfold Fsm.paper motion
  split
  · exact h
  · split
    · exact h
    · split
      · exact h.2
      · split
        · show s.lpLfCnt + 1 = 0 + 1
          rw [h.1]
        · trivial

theorem Tidy.character (h : s.Tidy) (hs : s.state = .idle) : (s.character i).Tidy := by
  have hidle := h
  unfold Tidy at hidle
  rw [hs] at hidle
  have hline : s.lpLfCnt = 0 ∧ (0 : BitVec 8).toNat ≤ s.lpCctr.toNat :=
    ⟨hidle.1, Nat.zero_le _⟩
  unfold Fsm.character
  split
  · exact hidle
  · split
    · exact hline
    · split
      · exact hline
      · split
        · exact hline
        · split
          · exact hidle.2.symm
          · unfold Tidy
            dsimp only
            rw [hs]
            exact hidle

theorem Tidy.print (h : s.Tidy) (hs : s.state = .print) :
    (s.sendLine i.lpData .wait .dly1).Tidy := by
  unfold Tidy at h
  rw [hs] at h
  rcases sendLine_cases i.lpData .wait .dly1 h.2 with
    heq | ⟨-, hle, heq⟩
  · rw [heq]
    exact ⟨h.1, rfl⟩
  · rw [heq]
    exact ⟨h.1, hle⟩

theorem Tidy.vfuPrint (h : s.Tidy) (hs : s.state = .vfuPrint) :
    (s.sendLine Ascii.cr .vfuMove .dly5).Tidy := by
  unfold Tidy at h
  rw [hs] at h
  rcases sendLine_cases Ascii.cr .vfuMove .dly5 h with
    heq | ⟨-, hle, heq⟩
  · rw [heq]
    rfl
  · rw [heq]
    exact hle

/-- A search counts a line feed for each line. -/
theorem Tidy.search (h : s.Tidy) (d : BitVec 8) :
    (s.state = .vfuChan → (s.search i d .dly2).Tidy) ∧
      (s.state = .vfuVt → (s.search i d .dly3).Tidy) := by
  unfold Tidy at h
  unfold Fsm.search
  refine ⟨fun hs => ?_, fun hs => ?_⟩
  · rw [hs] at h
    have hlf : s.lpLfCnt = s.lpCount + 1 := h
    split
    · trivial
    · split
      · exact Nat.zero_le _
      · show s.lpLfCnt + 1 = s.lpCount + 1 + 1
        rw [hlf]
  · rw [hs] at h
    have hlf : s.lpLfCnt = s.lpCount := h
    split
    · trivial
    · split
      · exact Nat.zero_le _
      · show s.lpLfCnt + 1 = s.lpCount + 1
        rw [hlf]

theorem Tidy.slew (h : s.Tidy) (hs : s.state = .vfuSlew) : (s.slew i).Tidy := by
  unfold Tidy at h
  rw [hs] at h
  unfold Fsm.slew
  split
  · exact Nat.zero_le _
  · exact h

theorem Tidy.move (h : s.Tidy) (hs : s.state = .vfuMove) : s.move.Tidy := by
  unfold Tidy at h
  rw [hs] at h
  unfold Fsm.move
  split
  · next hzero => exact ⟨hzero, h⟩
  · exact h

theorem Tidy.even (h : s.Tidy) (hs : s.state = .vfuEven) : (s.even i).Tidy := by
  unfold Tidy at h
  rw [hs] at h
  unfold Fsm.even
  split
  · exact h
  · split
    · split <;> exact h
    · exact h

theorem Tidy.odd (h : s.Tidy) (hs : s.state = .vfuOdd) : (s.odd i).Tidy := by
  unfold Tidy at h
  rw [hs] at h
  unfold Fsm.odd
  split
  · exact h
  · split
    · trivial
    · split
      · trivial
      · exact h

theorem Tidy.step (h : s.Tidy) : (s.step i lpXon).Tidy := by
  have hkeep := h
  unfold Tidy at hkeep
  unfold Fsm.step
  cases hs : s.state with
  | idle =>
      dsimp only
      split
      · split
        · exact h.paper hs
        · exact h.character hs
      · exact h
  | print =>
      dsimp only
      split
      · exact h.print hs
      · exact h
  | vfuPrint =>
      dsimp only
      split
      · exact h.vfuPrint hs
      · exact h
  | vfuEven =>
      dsimp only
      split
      · exact h.even hs
      · exact h
  | vfuOdd =>
      dsimp only
      split
      · exact h.odd hs
      · exact h
  | vfuChan => exact (h.search i.lpData).1 hs
  | vfuVt => exact (h.search 1).2 hs
  | vfuSlew => exact h.slew hs
  | vfuMove =>
      dsimp only
      split
      · exact h.move hs
      · exact h
  | wait =>
      rw [hs] at hkeep
      dsimp only
      split
      · exact hkeep
      · exact h
  | vfuOffln => exact ⟨rfl, rfl⟩
  | dly1 | dly2 | dly3 | dly4 | dly5 | dly6 | vfuNotRdy | vfuRdy | done =>
      rw [hs] at hkeep
      exact hkeep

/-- A character is put into the line buffer, or the buffer stays, or it is emptied. -/
theorem buffer_step (s : Fsm) (i : In) (lpXon : Bool) : (s.step i lpXon).lpLinBuf = s.lpLinBuf ∧
      ((s.step i lpXon).lpCctr = s.lpCctr ∨ (s.step i lpXon).lpCctr = 0) ∨
    s.state = .idle ∧ i.lpStrobe = true ∧ i.lpPi = false ∧ i.lpData ≠ Ascii.lf ∧
      i.lpData ≠ Ascii.ff ∧ (s.step i lpXon).lpLinBuf =
          (fun k => if k = s.lpCctr then i.lpData else s.lpLinBuf k) ∧
        (s.step i lpXon).lpCctr = s.lpCctr + 1 := by
  unfold Fsm.step
  cases s.state with
  | idle =>
      dsimp only
      split
      · next hstrobe =>
        split
        · unfold paper motion
          repeat' split
          all_goals exact .inl ⟨rfl, .inl rfl⟩
        · next hpi =>
          unfold character
          split
          · exact .inl ⟨rfl, .inl rfl⟩
          · split
            · exact .inl ⟨rfl, .inl rfl⟩
            · split
              · exact .inl ⟨rfl, .inl rfl⟩
              · next hlf =>
                split
                · exact .inl ⟨rfl, .inl rfl⟩
                · next hff =>
                  split
                  · exact .inl ⟨rfl, .inl rfl⟩
                  · exact .inr ⟨rfl, hstrobe, by simpa using hpi, hlf, hff, rfl, rfl⟩
      · exact .inl ⟨rfl, .inl rfl⟩
  | print =>
      unfold sendLine
      dsimp only
      repeat' split
      all_goals first | exact .inl ⟨rfl, .inl rfl⟩ | exact .inl ⟨rfl, .inr rfl⟩
  | vfuPrint =>
      unfold sendLine
      dsimp only
      repeat' split
      all_goals first | exact .inl ⟨rfl, .inl rfl⟩ | exact .inl ⟨rfl, .inr rfl⟩
  | vfuEven | vfuOdd | vfuChan | vfuVt | vfuSlew | vfuMove | wait =>
      unfold even odd search slew move
      dsimp only
      repeat' split
      all_goals exact .inl ⟨rfl, .inl rfl⟩
  | vfuOffln => exact .inl ⟨rfl, .inr rfl⟩
  | dly1 | dly2 | dly3 | dly4 | dly5 | dly6 | vfuNotRdy | vfuRdy | done =>
      exact .inl ⟨rfl, .inl rfl⟩

theorem plain_of_ne : ∀ d : BitVec 8, d ≠ Ascii.lf → d ≠ Ascii.ff → d ≠ 0o212 → d ≠ 0o214 →
    d &&& 0x7f ≠ Ascii.ff ∧ d &&& 0x7f ≠ Ascii.lf := by
  decide +kernel

/-- The line buffer holds characters that do not move the paper. -/
def Buffered (s : Fsm) : Prop := ∀ k, k.toNat < s.lpCctr.toNat → plain (s.lpLinBuf k)

theorem Buffered.step (h : s.Buffered)
    (hplain : s.state = .idle → i.lpStrobe = true → i.lpPi = false →
      i.lpData ≠ 0o212 ∧ i.lpData ≠ 0o214) :
    (s.step i lpXon).Buffered := by
  intro k hk
  rcases buffer_step s i lpXon with
    ⟨hbuf, hsame | hzero⟩ | ⟨hidle, hstrobe, hpi, hlf, hff, hbuf, hcctr⟩
  · rw [hbuf]
    rw [hsame] at hk
    exact h k hk
  · rw [hzero] at hk
    exact absurd hk (Nat.not_lt_zero _)
  · rw [hbuf]
    dsimp only
    split
    · obtain ⟨h1, h2⟩ := hplain hidle hstrobe hpi
      exact plain_of_ne i.lpData hlf hff h1 h2
    · next hne =>
      have hne' : k.toNat ≠ s.lpCctr.toNat := fun heq => hne (BitVec.eq_of_toNat_eq heq)
      have hsum : (s.lpCctr + 1).toNat = (s.lpCctr.toNat + 1) % 256 := BitVec.toNat_add _ _
      rw [hcctr, hsum] at hk
      exact h k (by omega)

/-- The strobe of the serial line is up only right after a character has been sent. -/
theorem sending_step (hstb : s.lpTxStb = false) (h : (s.step i lpXon).lpTxStb = true) :
    (s.step i lpXon).sending = true := by
  have hnot : ∀ t : Fsm, t.lpTxStb = false → t.lpTxStb = true → t.sending = true := by
    intro t hlow hhigh
    rw [hlow] at hhigh
    cases hhigh
  revert h
  unfold Fsm.step
  cases s.state with
  | idle =>
      unfold paper motion character
      dsimp only
      repeat' split
      all_goals exact hnot _ hstb
  | print =>
      unfold sendLine
      dsimp only
      repeat' split
      all_goals first | exact hnot _ hstb | exact fun _ => rfl
  | vfuPrint =>
      unfold sendLine
      dsimp only
      repeat' split
      all_goals first | exact hnot _ hstb | exact fun _ => rfl
  | vfuMove =>
      unfold move
      dsimp only
      repeat' split
      all_goals first | exact hnot _ hstb | exact fun _ => rfl
  | vfuEven | vfuOdd | vfuChan | vfuVt | vfuSlew | wait =>
      unfold even odd search slew
      dsimp only
      repeat' split
      all_goals exact hnot _ hstb
  | dly1 | dly2 | dly3 | dly4 | dly5 | dly6 | vfuNotRdy | vfuRdy | vfuOffln | done =>
      exact hnot _ hstb

/-! ## The line feeds that are to come -/

/-- With `k` more line feeds the paper is where the line counter is. -/
def Ahead (last : BitVec 8) (line k : Nat) (s : Fsm) : Prop :=
  (line + k) % (last.toNat + 1) = s.lpLctr.toNat

/-- In each state the line feeds that are still to come. -/
def Fits (last : BitVec 8) (line : Nat) (data held : BitVec 8) (s : Fsm) : Prop :=
  match s.state with
  | .print | .dly1 =>
      data = Ascii.cr ∧ s.Ahead last line 0 ∨ data = Ascii.lf ∧ s.Ahead last line 1 ∨
        data = Ascii.ff ∧ s.lpLctr = 0
  | .vfuChan | .dly2 =>
      s.lpCount.toNat ≤ last.toNat ∧ s.Ahead last line (s.lpCount.toNat + 1) ∧
        held.toNat ≤ last.toNat ∧ s.Ahead last held.toNat (s.lpCount.toNat + 1)
  | .vfuVt | .dly3 => s.lpCount.toNat ≤ last.toNat ∧ s.Ahead last line s.lpCount.toNat
  | .vfuSlew | .dly4 =>
      s.lpLfCnt.toNat ≤ (Lp26.vfuChan data).toNat ∧ s.Ahead last line s.lpLfCnt.toNat
  | .vfuPrint | .dly5 | .vfuMove | .dly6 => s.Ahead last line s.lpLfCnt.toNat
  | .vfuOffln | .vfuEven | .vfuOdd => s.Ahead last line 0 ∧ s.lpLctr = held
  | .idle | .vfuNotRdy | .vfuRdy | .wait | .done => s.Ahead last line 0

variable {last data held : BitVec 8} {line k : Nat}

theorem Ahead.le (h : s.Ahead last line k) : s.lpLctr.toNat ≤ last.toNat := by
  unfold Ahead at h
  have hlt : (line + k) % (last.toNat + 1) < last.toNat + 1 := Nat.mod_lt _ (Nat.succ_pos _)
  omega

/-- The line counter goes round the form. -/
theorem nextLine_toNat (hlen : s.vfuLen i = last) (hle : s.lpLctr.toNat ≤ last.toNat) :
    (s.nextLine i).toNat = (s.lpLctr.toNat + 1) % (last.toNat + 1) := by
  unfold nextLine
  rw [hlen]
  by_cases heq : s.lpLctr = last
  · rw [if_pos heq, heq, Nat.mod_self]
    rfl
  · have hne : s.lpLctr.toNat ≠ last.toNat := fun h => heq (BitVec.eq_of_toNat_eq h)
    have hlt := last.isLt
    have hsum : (s.lpLctr + 1).toNat = (s.lpLctr.toNat + 1) % 256 := BitVec.toNat_add _ _
    rw [if_neg heq, hsum, Nat.mod_eq_of_lt (by omega), Nat.mod_eq_of_lt (by omega)]

/-- The line counter moves on by a line, and one more line feed is to come. -/
theorem Ahead.nextLine {s' : Fsm} (h : s.Ahead last line k) (hlen : s.vfuLen i = last)
    (hs' : s'.lpLctr = s.nextLine i) : s'.Ahead last line (k + 1) := by
  have hle := h.le
  unfold Ahead at h ⊢
  rw [hs', nextLine_toNat hlen hle, ← h, ← Nat.add_assoc, Nat.mod_add_mod]

theorem lineAfter_of_not (h : s.lpTxStb = false) : lineAfter line s = line := by
  unfold lineAfter
  rw [h, if_neg Bool.false_ne_true]

theorem lineAfter_of_plain (h : plain s.lpTxDat) : lineAfter line s = line := by
  unfold lineAfter advance
  rw [if_neg h.1, if_neg h.2, ite_self]

theorem lineAfter_of_lf (hstb : s.lpTxStb = true) (h : s.lpTxDat = Ascii.lf) :
    lineAfter line s = line + 1 := by
  unfold lineAfter
  rw [hstb, h]
  rfl

theorem lineAfter_of_ff (hstb : s.lpTxStb = true) (h : s.lpTxDat = Ascii.ff) :
    lineAfter line s = 0 := by
  unfold lineAfter
  rw [hstb, h]
  rfl

theorem plain_cr : plain Ascii.cr := by
  unfold plain
  decide

/-- Nothing is on its way to the serial line. -/
theorem Fits.before (h : Fits last line data held s) (hstb : s.lpTxStb = false) :
    Fits last (lineAfter line s) data held s := by
  rwa [lineAfter_of_not hstb]

/-! ### The states -/

/-- What is known of a clock of the printer. -/
structure Clock (last data data' : BitVec 8) (s : Fsm) (i : In) : Prop where
  lpTxStb : s.lpTxStb = false
  tidy : s.Tidy
  buffered : s.Buffered
  vfuLen : s.vfuLen i = last
  lpData : s.accepts = false → i.lpData = data
  data' : data' = if s.accepts && i.lpStrobe then i.lpData else data
  vt : s.state = .vfuVt → s.lpCount ≠ last

variable {data' : BitVec 8}

theorem Fits.paper (h : Fits last line data held s) (hc : Clock last data data' s i)
    (hs : s.state = .idle) :
    Fits last (lineAfter line (s.paper i)) data' s.lpLctr (s.paper i) := by
  unfold Fits at h
  rw [hs] at h
  have hahead : s.Ahead last line 0 := h
  have hle := hahead.le
  unfold Fsm.paper motion
  split
  · exact Fits.before ⟨hahead, rfl⟩ hc.lpTxStb
  · split
    · exact Fits.before hahead hc.lpTxStb
    · split
      · exact Fits.before ⟨Nat.zero_le _, hahead⟩ hc.lpTxStb
      · split
        · have hself : s.Ahead last s.lpLctr.toNat 0 := Nat.mod_eq_of_lt (by omega)
          exact Fits.before ⟨Nat.zero_le _, hahead.nextLine hc.vfuLen rfl, hle,
            hself.nextLine hc.vfuLen rfl⟩ hc.lpTxStb
        · exact Fits.before ⟨hahead, rfl⟩ hc.lpTxStb

theorem Fits.character (h : Fits last line data held s) (hc : Clock last data data' s i)
    (hs : s.state = .idle) (hdata : data' = i.lpData) :
    Fits last (lineAfter line (s.character i)) data' s.lpLctr (s.character i) := by
  unfold Fits at h
  rw [hs] at h
  have hahead : s.Ahead last line 0 := h
  have hcount : s.lpCount = 0 := by
    have htidy := hc.tidy
    unfold Tidy at htidy
    rw [hs] at htidy
    exact htidy.2
  unfold Fsm.character
  split
  · exact Fits.before hahead hc.lpTxStb
  · split
    · next hcr => exact Fits.before (.inl ⟨hdata.trans hcr, hahead⟩) hc.lpTxStb
    · split
      · next hlf =>
        exact Fits.before (.inr (.inl ⟨hdata.trans hlf, hahead.nextLine hc.vfuLen rfl⟩)) hc.lpTxStb
      · split
        · next hff => exact Fits.before (.inr (.inr ⟨hdata.trans hff, rfl⟩)) hc.lpTxStb
        · split
          · have hzero : s.lpCount.toNat ≤ last.toNat ∧ s.Ahead last line s.lpCount.toNat := by
              rw [hcount]
              exact ⟨Nat.zero_le _, hahead⟩
            exact Fits.before hzero hc.lpTxStb
          · refine Fits.before ?_ hc.lpTxStb
            unfold Fits
            dsimp only
            rw [hs]
            exact hahead

/-- The line in the buffer, and the character after it. -/
theorem Fits.print (h : Fits last line data held s) (hc : Clock last data data' s i)
    (hs : s.state = .print) :
    Fits last (lineAfter line (s.sendLine i.lpData .wait .dly1)) data held
      (s.sendLine i.lpData .wait .dly1) := by
  unfold Fits at h
  rw [hs] at h
  have hdata : i.lpData = data := hc.lpData (by unfold accepts; rw [hs]; rfl)
  have htidy := hc.tidy
  unfold Tidy at htidy
  rw [hs] at htidy
  rcases sendLine_cases i.lpData .wait .dly1 htidy.2 with
    heq | ⟨hlt, -, heq⟩
  · rw [heq, hdata]
    rcases h with ⟨hcr, hahead⟩ | ⟨hlf, hahead⟩ | ⟨hff, hzero⟩
    · rw [lineAfter_of_plain (by rw [hcr]; exact plain_cr)]
      exact hahead
    · rw [lineAfter_of_lf rfl hlf]
      exact hahead
    · rw [lineAfter_of_ff rfl hff]
      show (0 + 0) % (last.toNat + 1) = s.lpLctr.toNat
      rw [hzero]
      exact Nat.zero_mod _
  · rw [heq, lineAfter_of_plain (hc.buffered _ hlt)]
    exact h

/-- The line in the buffer and a carriage return before a vertical motion. -/
theorem Fits.vfuPrint (h : Fits last line data held s) (hc : Clock last data data' s i)
    (hs : s.state = .vfuPrint) :
    Fits last (lineAfter line (s.sendLine Ascii.cr .vfuMove .dly5)) data held
      (s.sendLine Ascii.cr .vfuMove .dly5) := by
  unfold Fits at h
  rw [hs] at h
  have htidy := hc.tidy
  unfold Tidy at htidy
  rw [hs] at htidy
  rcases sendLine_cases Ascii.cr .vfuMove .dly5 htidy with
    heq | ⟨hlt, -, heq⟩
  · rw [heq, lineAfter_of_plain plain_cr]
    exact h
  · rw [heq, lineAfter_of_plain (hc.buffered _ hlt)]
    exact h

theorem toNat_succ {b c : BitVec 8} (h : b.toNat < c.toNat) : (b + 1).toNat = b.toNat + 1 := by
  have hlt := c.isLt
  have hsum : (b + 1).toNat = (b.toNat + 1) % 256 := BitVec.toNat_add _ _
  rw [hsum]
  exact Nat.mod_eq_of_lt (by omega)

/-- The search of a channel comes around where it has started. -/
theorem Fits.chan (h : Fits last line data held s) (hc : Clock last data data' s i)
    (hs : s.state = .vfuChan) (d : BitVec 8) :
    Fits last (lineAfter line (s.search i d .dly2)) data held (s.search i d .dly2) := by
  unfold Fits at h
  rw [hs] at h
  obtain ⟨hle, hahead, hheld, hself⟩ := h
  have htidy := hc.tidy
  unfold Tidy at htidy
  rw [hs] at htidy
  have hlf : s.lpLfCnt = s.lpCount + 1 := htidy
  unfold search
  rw [hc.vfuLen]
  by_cases hround : s.lpCount = last
  · rw [if_pos hround]
    rw [hround] at hahead hself
    unfold Ahead at hahead hself
    rw [Nat.add_mod_right] at hahead hself
    rw [Nat.mod_eq_of_lt (by omega)] at hself
    exact Fits.before ⟨hahead, BitVec.eq_of_toNat_eq hself.symm⟩ hc.lpTxStb
  · have hne : s.lpCount.toNat ≠ last.toNat := fun heq => hround (BitVec.eq_of_toNat_eq heq)
    have hsucc : (s.lpCount + 1).toNat = s.lpCount.toNat + 1 :=
      toNat_succ (c := last) (by omega)
    rw [if_neg hround]
    split
    · have hlines : s.Ahead last line s.lpLfCnt.toNat := by rwa [hlf, hsucc]
      exact Fits.before hlines hc.lpTxStb
    · refine Fits.before ⟨?_, ?_, hheld, ?_⟩ hc.lpTxStb
      · show (s.lpCount + 1).toNat ≤ last.toNat
        omega
      · show Ahead last line ((s.lpCount + 1).toNat + 1) _
        rw [hsucc]
        exact hahead.nextLine hc.vfuLen rfl
      · show Ahead last held.toNat ((s.lpCount + 1).toNat + 1) _
        rw [hsucc]
        exact hself.nextLine hc.vfuLen rfl

/-- A vertical tab finds its mark. -/
theorem Fits.tab (h : Fits last line data held s) (hc : Clock last data data' s i)
    (hs : s.state = .vfuVt) (d : BitVec 8) :
    Fits last (lineAfter line (s.search i d .dly3)) data held (s.search i d .dly3) := by
  unfold Fits at h
  rw [hs] at h
  obtain ⟨hle, hahead⟩ := h
  have htidy := hc.tidy
  unfold Tidy at htidy
  rw [hs] at htidy
  have hlf : s.lpLfCnt = s.lpCount := htidy
  have hround := hc.vt hs
  have hne : s.lpCount.toNat ≠ last.toNat := fun heq => hround (BitVec.eq_of_toNat_eq heq)
  have hsucc : (s.lpCount + 1).toNat = s.lpCount.toNat + 1 := toNat_succ (c := last) (by omega)
  unfold search
  rw [hc.vfuLen, if_neg hround]
  split
  · have hlines : s.Ahead last line s.lpLfCnt.toNat := by rwa [hlf]
    exact Fits.before hlines hc.lpTxStb
  · refine Fits.before ⟨?_, ?_⟩ hc.lpTxStb
    · show (s.lpCount + 1).toNat ≤ last.toNat
      omega
    · show Ahead last line (s.lpCount + 1).toNat _
      rw [hsucc]
      exact hahead.nextLine hc.vfuLen rfl

/-- A slew counts one line more than its number. -/
theorem Fits.slew (h : Fits last line data held s) (hc : Clock last data data' s i)
    (hs : s.state = .vfuSlew) :
    Fits last (lineAfter line (s.slew i)) data held (s.slew i) := by
  unfold Fits at h
  rw [hs] at h
  obtain ⟨hle, hahead⟩ := h
  have hdata : i.lpData = data := hc.lpData (by unfold accepts; rw [hs]; rfl)
  have hchan := (Lp26.vfuChan data).isLt
  have hwide : ((Lp26.vfuChan data).setWidth 8).toNat = (Lp26.vfuChan data).toNat := by
    rw [BitVec.toNat_setWidth]
    exact Nat.mod_eq_of_lt (by omega)
  have hsucc : (s.lpLfCnt + 1).toNat = s.lpLfCnt.toNat + 1 :=
    toNat_succ (c := 255) (by show s.lpLfCnt.toNat < 255; omega)
  unfold Fsm.slew
  rw [hdata]
  split
  · refine Fits.before ?_ hc.lpTxStb
    show Ahead last line (s.lpLfCnt + 1).toNat _
    rw [hsucc]
    exact hahead.nextLine hc.vfuLen rfl
  · next hmore =>
    have hne : s.lpLfCnt.toNat ≠ (Lp26.vfuChan data).toNat := by
      rw [← hwide]
      exact fun heq => hmore (BitVec.eq_of_toNat_eq heq)
    refine Fits.before ⟨?_, ?_⟩ hc.lpTxStb
    · show (s.lpLfCnt + 1).toNat ≤ _
      omega
    · show Ahead last line (s.lpLfCnt + 1).toNat _
      rw [hsucc]
      exact hahead.nextLine hc.vfuLen rfl

/-- A line feed goes to the paper. -/
theorem Fits.move (h : Fits last line data held s) (hc : Clock last data data' s i)
    (hs : s.state = .vfuMove) : Fits last (lineAfter line s.move) data held s.move := by
  unfold Fits at h
  rw [hs] at h
  have hahead : s.Ahead last line s.lpLfCnt.toNat := h
  unfold Fsm.move
  split
  · next hzero =>
    rw [hzero] at hahead
    exact Fits.before hahead hc.lpTxStb
  · next hmore =>
    rw [lineAfter_of_lf rfl rfl]
    show (line + 1 + (s.lpLfCnt - 1).toNat) % (last.toNat + 1) = s.lpLctr.toNat
    have hne : s.lpLfCnt.toNat ≠ 0 := fun heq => hmore (BitVec.eq_of_toNat_eq heq)
    have hlt := s.lpLfCnt.isLt
    have hpred : (s.lpLfCnt - 1).toNat = s.lpLfCnt.toNat - 1 := by
      rw [BitVec.toNat_sub]
      show (256 - 1 + s.lpLfCnt.toNat) % 256 = _
      omega
    have hsum : line + 1 + (s.lpLfCnt.toNat - 1) = line + s.lpLfCnt.toNat := by omega
    rw [hpred, hsum]
    exact hahead

theorem Fits.even (h : Fits last line data held s) (hc : Clock last data data' s i)
    (hs : s.state = .vfuEven) (d : BitVec 8) :
    Fits last (lineAfter line (s.even i)) d held (s.even i) := by
  unfold Fits at h
  rw [hs] at h
  unfold Fsm.even
  split
  · exact Fits.before h hc.lpTxStb
  · split
    · split
      · exact Fits.before h.1 hc.lpTxStb
      · exact Fits.before h.1 hc.lpTxStb
    · exact Fits.before h hc.lpTxStb

theorem Fits.odd (h : Fits last line data held s) (hc : Clock last data data' s i)
    (hs : s.state = .vfuOdd) (d : BitVec 8) :
    Fits last (lineAfter line (s.odd i)) d held (s.odd i) := by
  unfold Fits at h
  rw [hs] at h
  unfold Fsm.odd
  split
  · exact Fits.before h hc.lpTxStb
  · split
    · exact Fits.before h hc.lpTxStb
    · split
      · exact Fits.before h hc.lpTxStb
      · exact Fits.before h hc.lpTxStb

/-- A state in which the clock changes nothing. -/
theorem Fits.stay (held' : BitVec 8) (h : Fits last line data held s)
    (hstb : s.lpTxStb = false) (hdata : s.accepts = false → data' = data)
    (hheld : s.state ≠ .idle → held' = held) :
    Fits last (lineAfter line s) data' held' s := by
  refine Fits.before ?_ hstb
  unfold accepts at hdata
  unfold Fits at h ⊢
  cases hs : s.state with
  | idle =>
      rw [hs] at h
      exact h
  | _ =>
      have hheld' : held' = held := hheld (by rw [hs]; exact fun h => nomatch h)
      rw [hs] at h hdata
      first
      | rw [hheld', hdata rfl]
        exact h
      | rw [hheld']
        exact h

/-- One clock of the state machine keeps the line feeds that are to come. -/
theorem Fits.step (h : Fits last line data held s) (hc : Clock last data data' s i)
    (hrdy : s.state ≠ .vfuRdy) :
    Fits last (lineAfter line (s.step i lpXon)) data'
      (if s.state = .idle then s.lpLctr else held) (s.step i lpXon) := by
  have hdata : s.accepts = false → data' = data := by
    intro hnot
    rw [hc.data', hnot, Bool.false_and, if_neg Bool.false_ne_true]
  have hstay := h.stay (if s.state = .idle then s.lpLctr else held) hc.lpTxStb hdata
    (fun hne => if_neg hne)
  have hbusy : ∀ {st : State}, s.state = st →
      (st == .idle || st == .vfuEven || st == .vfuOdd) = false → data' = data := by
    rintro st rfl hnot
    exact hdata hnot
  revert hstay
  unfold Fsm.step
  cases hs : s.state with
  | idle =>
      intro hstay
      dsimp only
      rw [if_pos rfl] at hstay ⊢
      split
      · next hstrobe =>
        split
        · exact h.paper hc hs
        · refine h.character hc hs ?_
          have hready : s.accepts = true := by
            unfold accepts
            rw [hs]
            rfl
          rw [hc.data', hready, hstrobe]
          rfl
      · exact hstay
  | print =>
      intro hstay
      have hkeep : data' = data := hbusy hs rfl
      dsimp only
      split
      · rw [hkeep]
        exact h.print hc hs
      · exact hstay
  | vfuPrint =>
      intro hstay
      have hkeep : data' = data := hbusy hs rfl
      dsimp only
      split
      · rw [hkeep]
        exact h.vfuPrint hc hs
      · exact hstay
  | vfuMove =>
      intro hstay
      have hkeep : data' = data := hbusy hs rfl
      dsimp only
      split
      · rw [hkeep]
        exact h.move hc hs
      · exact hstay
  | vfuEven =>
      intro hstay
      dsimp only
      split
      · exact h.even hc hs data'
      · exact hstay
  | vfuOdd =>
      intro hstay
      dsimp only
      split
      · exact h.odd hc hs data'
      · exact hstay
  | vfuChan =>
      intro _
      rw [hbusy hs rfl]
      exact h.chan hc hs i.lpData
  | vfuVt =>
      intro _
      rw [hbusy hs rfl]
      exact h.tab hc hs 1
  | vfuSlew =>
      intro _
      rw [hbusy hs rfl]
      exact h.slew hc hs
  | wait =>
      intro hstay
      dsimp only
      split
      · unfold Fits at h
        rw [hs] at h
        exact Fits.before h hc.lpTxStb
      · exact hstay
  | vfuRdy => exact absurd hs hrdy
  | vfuOffln =>
      intro _
      unfold Fits at h
      rw [hs] at h
      exact Fits.before h.1 hc.lpTxStb
  | dly1 | dly2 | dly3 | dly4 | dly5 | dly6 | vfuNotRdy | done =>
      intro _
      rw [hbusy hs rfl]
      unfold Fits at h
      rw [hs] at h
      exact Fits.before h hc.lpTxStb

theorem Fits.le (h : Fits last line data held s) : s.lpLctr.toNat ≤ last.toNat := by
  unfold Fits at h
  cases hs : s.state with
  | print | dly1 =>
      rw [hs] at h
      rcases h with ⟨-, hahead⟩ | ⟨-, hahead⟩ | ⟨-, hzero⟩
      · exact hahead.le
      · exact hahead.le
      · rw [hzero]
        exact Nat.zero_le _
  | vfuChan | dly2 =>
      rw [hs] at h
      exact h.2.1.le
  | vfuVt | dly3 | vfuSlew | dly4 =>
      rw [hs] at h
      exact h.2.le
  | vfuOffln | vfuEven | vfuOdd =>
      rw [hs] at h
      exact h.1.le
  | vfuPrint | dly5 | vfuMove | dly6 | idle | vfuNotRdy | vfuRdy | wait | done =>
      rw [hs] at h
      exact Ahead.le h

/-! ## The load of a format -/

/-- A format is being loaded. -/
def loads (s : Fsm) : Bool := s.state == .vfuEven || s.state == .vfuOdd || s.state == .vfuRdy

/-- A load goes on, or it starts. -/
theorem loads_step (h : (s.step i lpXon).loads = true) : s.loads = true ∨
    s.state = .idle ∧ i.lpStrobe = true ∧ i.lpPi = true ∧ isStart i.lpData = true := by
  revert h
  unfold loads Fsm.step
  cases hs : s.state with
  | vfuEven => exact fun _ => .inl rfl
  | vfuOdd => exact fun _ => .inl rfl
  | vfuRdy => exact fun _ => .inl rfl
  | idle =>
      unfold paper motion character
      dsimp only
      cases hstrobe : i.lpStrobe with
      | false => simp [hs]
      | true =>
          cases hpi : i.lpPi with
          | false =>
              rw [if_pos rfl, if_neg Bool.false_ne_true]
              repeat' split
              all_goals simp [hs]
          | true =>
              cases hstart : isStart i.lpData with
              | true => exact fun _ => .inr ⟨rfl, rfl, rfl, rfl⟩
              | false =>
                  rw [if_pos rfl, if_pos rfl, if_neg Bool.false_ne_true]
                  repeat' split
                  all_goals simp
  | _ =>
      unfold sendLine search slew move
      dsimp only
      repeat' split
      all_goals simp [hs]

/-- The length of the format changes only when one is loaded. -/
theorem dvfuLen_step (lpXon : Bool) (h : s.loads = false) :
    (s.step i lpXon).lpDvfuLen = s.lpDvfuLen ∨
      s.state = .idle ∧ i.lpStrobe = true ∧ i.lpPi = true ∧ isStart i.lpData = true := by
  revert h
  unfold loads Fsm.step
  cases hs : s.state with
  | vfuEven => exact fun h => nomatch h
  | vfuOdd => exact fun h => nomatch h
  | vfuRdy => exact fun h => nomatch h
  | idle =>
      intro _
      unfold paper motion character
      dsimp only
      cases hstrobe : i.lpStrobe with
      | false => exact .inl rfl
      | true =>
          cases hpi : i.lpPi with
          | false =>
              rw [if_pos rfl, if_neg Bool.false_ne_true]
              repeat' split
              all_goals exact .inl rfl
          | true =>
              cases hstart : isStart i.lpData with
              | true => exact .inr ⟨rfl, rfl, rfl, rfl⟩
              | false =>
                  rw [if_pos rfl, if_pos rfl, if_neg Bool.false_ne_true]
                  repeat' split
                  all_goals exact .inl rfl
  | _ =>
      intro _
      unfold sendLine search slew move
      dsimp only
      repeat' split
      all_goals exact .inl rfl

end Lp26.Fsm

end KS10
