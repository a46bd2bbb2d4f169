import KS10.Lp.Characters

/-!
# The columns of a line

LPPDAT counts the columns of a line twice.  The column counter LPCCTR counts the characters
that take a column, for the line wrap, and a counter of three bits counts them modulo eight,
for the tab stops.  Both counters are cleared by whatever ends the line.

The wrap is a test of a character that is about to be printed: it comes after a carriage
return and a line feed if the column counter is at 132.  The spaces of a tab are not tested.
A tab that begins before column 128 ends at its stop within the line
(`LpLine.columns_run`); a tab that begins later runs past the last column, and the counter
is then past the value it is tested for (`LpLine.columns_fails`).
-/

namespace KS10

open Clocked

/-- LPPDAT with the column counter.  The current line of the printer is kept as a history:
the number of its columns, and the column at which its last tab began. -/
structure LpLine where
  pdat : LpPdat
  regCctr : BitVec 8
  col : Nat
  tabFrom : Nat
  deriving DecidableEq

namespace LpLine

/-- The inputs of one clock; the column counter of LPPDAT comes from LPCCTR. -/
structure In extends LpPdat.In where
  lpInit : Bool
  cctrWrite : Bool
  lpDataI : BitVec 36

def cctrDat (d : BitVec 36) : BitVec 8 := d.extractLsb' 8 8

def pdatIn (s : LpLine) (i : In) : LpPdat.In := { i.toIn with lpCctr := s.regCctr }

/-- LPCCTR. -/
def nextCctr (s : LpLine) (i : In) : BitVec 8 :=
  if i.rst then 0
  else if i.lpInit || s.pdat.lpClrCctr then 0
  else if i.cctrWrite then cctrDat i.lpDataI
  else if s.pdat.lpIncCctr then s.regCctr + 1
  else s.regCctr

/-! ## The line of the printer -/

/-- What is given to the printer ends the line. -/
def endsLine (p : LpPdat) : Bool := p.lpPi || LpPdat.isEol p.lpData

/-- The columns of the line with what is given to the printer. -/
def moved (col : Nat) (p : LpPdat) : Nat :=
  if p.lpStrobe then if endsLine p then 0 else col + 1 else col

/-- A tab begins. -/
def startsTab (s : LpLine) (i : In) : Bool :=
  s.pdat.state == .parse && s.pdat.lpPdat == Ascii.tab && i.lpDemand

/-- The tab stop after a column. -/
def tabStop (col : Nat) : Nat := 8 * (col / 8 + 1)

/-- One clock. -/
def next (s : LpLine) (i : In) : LpLine :=
  let pdat := s.pdat.next (s.pdatIn i)
  { pdat := pdat
    regCctr := s.nextCctr i
    col := moved s.col pdat
    tabFrom := if s.startsTab i then s.col else s.tabFrom }

/-! ## What is to be shown -/

/-- The line has 132 columns at most, both counters know its columns, and the spaces of a tab
go to the stop after the column at which it began. -/
structure Tracked (s : LpLine) : Prop where
  bound : s.col ≤ 132
  counter : s.pdat.lpClrCctr = false → s.pdat.lpIncCctr = false → s.regCctr.toNat = s.col
  tabs : s.pdat.lpTabCnt.toNat = s.col % 8
  expands : s.pdat.state = .tab → s.tabFrom < s.col ∧ s.col ≤ tabStop s.tabFrom
  stop : s.pdat.state = .tab → s.pdat.lpTabCnt = 0 → s.col = tabStop s.tabFrom

/-- There is no reset and no write of the column counter, and the controller is initialized
only between lines. -/
structure Left (s : LpLine) (i : In) : Prop where
  rst : i.rst = false
  write : i.cctrWrite = false
  init : i.lpInit = true → s.col = 0

/-- And a tab begins before column 128. -/
structure Legal (s : LpLine) (i : In) : Prop extends Left s i where
  tab : s.startsTab i = true → s.col < 128

/-- The controller after a reset, with an empty line. -/
structure AfterReset (s : LpLine) : Prop where
  pdat : s.pdat = LpPdat.reset
  cctr : s.regCctr = 0
  col : s.col = 0

/-! ## What every clock keeps -/

/-- The column counter with the pulse that is on its way. -/
def counted (s : LpLine) : Nat :=
  if s.pdat.lpClrCctr then 0 else s.regCctr.toNat + s.pdat.lpIncCctr.toNat

structure Inv (s : LpLine) : Prop where
  bound : s.col ≤ 132
  counted : s.counted = s.col
  tabs : s.pdat.lpTabCnt.toNat = s.col % 8
  settled : s.pdat.state = .parse → s.pdat.lpClrCctr = false ∧ s.pdat.lpIncCctr = false
  wrap : s.pdat.state = .wrapLf ∨ s.pdat.state = .wrapCh →
    s.col = 0 ∧ LpPdat.isEol s.pdat.lpPdat = false
  tab : s.pdat.state = .tab → s.tabFrom < 128 ∧ s.tabFrom < s.col ∧ s.col ≤ tabStop s.tabFrom

variable {s : LpLine} {i : In} {p : LpPdat}

theorem AfterReset.inv (h : AfterReset s) : Inv s := by
  refine ⟨?_, ?_, ?_, ?_, ?_, ?_⟩
  · rw [h.col]
    exact Nat.zero_le _
  · unfold LpLine.counted
    rw [h.pdat, h.cctr, h.col]
    rfl
  · rw [h.pdat, h.col]
    rfl
  · intro hparse
    rw [h.pdat] at hparse
    cases hparse
  · intro hwrap
    rw [h.pdat] at hwrap
    rcases hwrap with hwrap | hwrap <;> cases hwrap
  · intro htab
    rw [h.pdat] at htab
    cases htab

/-- A count modulo eight that is zero past the beginning of a tab stands at its stop. -/
theorem eq_tabStop {c k : Nat} (hlt : k < c) (hle : c ≤ tabStop k) (hzero : c % 8 = 0) :
    c = tabStop k := by
  unfold tabStop at hle ⊢
  omega

theorem Inv.tracked (h : Inv s) : Tracked s where
  bound := h.bound
  counter hclr hinc := by
    have hcounted := h.counted
    unfold LpLine.counted at hcounted
    rw [hclr, hinc, if_neg Bool.false_ne_true] at hcounted
    exact hcounted
  tabs := h.tabs
  expands htab := (h.tab htab).2
  stop htab hzero := by
    obtain ⟨-, hlt, hle⟩ := h.tab htab
    refine eq_tabStop hlt hle ?_
    rw [← h.tabs, hzero]
    rfl

/-! ### The counters -/

/-- At the clock after, the column counter knows the columns. -/
theorem Inv.nextCctr_eq (h : Inv s) (hi : Left s i) : (s.nextCctr i).toNat = s.col := by
  have hcounted := h.counted
  have hbound := h.bound
  unfold LpLine.counted at hcounted
  unfold nextCctr
  rw [hi.rst, hi.write, if_neg Bool.false_ne_true, if_neg Bool.false_ne_true]
  cases hclr : s.pdat.lpClrCctr with
  | true =>
      rw [hclr, if_pos rfl] at hcounted
      rw [Bool.or_true, if_pos rfl]
      exact hcounted
  | false =>
      rw [hclr, if_neg Bool.false_ne_true] at hcounted
      rw [Bool.or_false]
      cases hinit : i.lpInit with
      | true =>
          rw [if_pos rfl]
          exact (hi.init hinit).symm
      | false =>
          rw [if_neg Bool.false_ne_true]
          cases hinc : s.pdat.lpIncCctr with
          | false =>
              rw [hinc] at hcounted
              rw [if_neg Bool.false_ne_true]
              exact hcounted
          | true =>
              rw [hinc, Bool.toNat_true] at hcounted
              rw [if_pos rfl, BitVec.toNat_add_of_lt]
              · exact hcounted
              · show s.regCctr.toNat + 1 < 256
                omega

theorem pdat_next (hrst : i.rst = false) : (s.next i).pdat = s.pdat.quiet.step (s.pdatIn i) := by
  show LpPdat.next s.pdat (s.pdatIn i) = _
  unfold LpPdat.next
  have hrst' : (s.pdatIn i).rst = false := hrst
  rw [hrst', if_neg Bool.false_ne_true]

/-- What a clock of LPPDAT does to the line: nothing, or it ends it, or it takes a column. -/
inductive Feeds (s : LpLine) (p : LpPdat) : Prop where
  | rests (strobe : p.lpStrobe = false) (clr : p.lpClrCctr = false) (inc : p.lpIncCctr = false)
      (tabs : p.lpTabCnt = s.pdat.lpTabCnt)
  | ends (strobe : p.lpStrobe = true) (line : endsLine p = true) (clr : p.lpClrCctr = true)
      (tabs : p.lpTabCnt = 0)
  | takes (strobe : p.lpStrobe = true) (line : endsLine p = false) (clr : p.lpClrCctr = false)
      (inc : p.lpIncCctr = true) (tabs : p.lpTabCnt = s.pdat.lpTabCnt + 1) (room : s.col < 132)

/-- Both counters follow the line. -/
theorem Inv.counts (h : Inv s) (hi : Left s i) (hf : Feeds s (s.next i).pdat) :
    (s.next i).col ≤ 132 ∧ (s.next i).counted = (s.next i).col ∧
      (s.next i).pdat.lpTabCnt.toNat = (s.next i).col % 8 := by
  have hcctr : (s.next i).regCctr.toNat = s.col := h.nextCctr_eq hi
  have hcol : (s.next i).col = moved s.col (s.next i).pdat := rfl
  have hbound := h.bound
  have htabs := h.tabs
  unfold LpLine.counted
  unfold moved at hcol
  cases hf with
  | rests hstrobe hclr hinc htab =>
      rw [hstrobe, if_neg Bool.false_ne_true] at hcol
      rw [hclr, hinc, htab, hcol, if_neg Bool.false_ne_true]
      exact ⟨hbound, hcctr, htabs⟩
  | ends hstrobe hline hclr htab =>
      rw [hstrobe, if_pos rfl, hline, if_pos rfl] at hcol
      rw [hclr, htab, hcol, if_pos rfl]
      exact ⟨Nat.zero_le _, rfl, rfl⟩
  | takes hstrobe hline hclr hinc htab hroom =>
      rw [hstrobe, if_pos rfl, hline, if_neg Bool.false_ne_true] at hcol
      rw [hclr, hinc, htab, hcol, if_neg Bool.false_ne_true, hcctr, BitVec.toNat_add, htabs]
      refine ⟨hroom, rfl, ?_⟩
      show (s.col % 8 + 1) % 8 = (s.col + 1) % 8
      omega

/-! ### The states of LPPDAT -/

/-- What a clock leaves for the next one. -/
structure Goes (s : LpLine) (i : In) : Prop where
  feeds : Feeds s (s.next i).pdat
  settled : (s.next i).pdat.state = .parse →
    (s.next i).pdat.lpClrCctr = false ∧ (s.next i).pdat.lpIncCctr = false
  wrap : (s.next i).pdat.state = .wrapLf ∨ (s.next i).pdat.state = .wrapCh →
    (s.next i).col = 0 ∧ LpPdat.isEol (s.next i).pdat.lpPdat = false
  tab : (s.next i).pdat.state = .tab → (s.next i).tabFrom < 128 ∧
    (s.next i).tabFrom < (s.next i).col ∧ (s.next i).col ≤ tabStop (s.next i).tabFrom

/-- LPPDAT is neither in the middle of a line wrap nor in a tab. -/
def plain : LpPdat.State → Bool
  | .wrapLf | .wrapCh | .tab => false
  | .idle | .parse | .dvfu | .wait | .delay => true

theorem goes_plain (hfeeds : Feeds s (s.next i).pdat)
    (hplain : plain (s.next i).pdat.state = true)
    (hparse : (s.next i).pdat.state = .parse →
      (s.next i).pdat.lpClrCctr = false ∧ (s.next i).pdat.lpIncCctr = false) : Goes s i := by
  refine ⟨hfeeds, hparse, fun hwrap => ?_, fun htab => ?_⟩
  · rcases hwrap with hwrap | hwrap
    · rw [hwrap] at hplain
      cases hplain
    · rw [hwrap] at hplain
      cases hplain
  · rw [htab] at hplain
    cases hplain

/-- A clock at which nothing is given to the printer. -/
theorem goes_rests (hp : (s.next i).pdat = p) (hplain : plain p.state = true)
    (hstrobe : p.lpStrobe = false) (hclr : p.lpClrCctr = false) (hinc : p.lpIncCctr = false)
    (htabs : p.lpTabCnt = s.pdat.lpTabCnt) : Goes s i := by
  subst hp
  exact goes_plain (.rests hstrobe hclr hinc htabs) hplain fun _ => ⟨hclr, hinc⟩

/-- The line ends, and LPPDAT waits for the printer. -/
theorem goes_ends {pi : Bool} {d : BitVec 8}
    (hp : (s.next i).pdat = s.pdat.quiet.sendEol pi d .wait)
    (hline : (pi || LpPdat.isEol d) = true) : Goes s i := by
  refine goes_plain ?_ ?_ fun hparse => ?_
  · rw [hp]
    exact .ends rfl hline rfl rfl
  · rw [hp]
    rfl
  · rw [hp] at hparse
    cases hparse

theorem takes_sendCol {d : BitVec 8} {state : LpPdat.State} (hline : LpPdat.isEol d = false)
    (hroom : s.col < 132) : Feeds s (s.pdat.quiet.sendCol d state) :=
  .takes rfl hline rfl rfl rfl hroom

/-- A character takes its column, and LPPDAT waits for the printer. -/
theorem goes_takes {d : BitVec 8} (hp : (s.next i).pdat = s.pdat.quiet.sendCol d .wait)
    (hline : LpPdat.isEol d = false) (hroom : s.col < 132) : Goes s i := by
  refine goes_plain ?_ ?_ fun hparse => ?_
  · rw [hp]
    exact takes_sendCol hline hroom
  · rw [hp]
    rfl
  · rw [hp] at hparse
    cases hparse

/-- A line wrap begins with the end of the line. -/
theorem goes_wrap {d : BitVec 8} {state : LpPdat.State}
    (hp : (s.next i).pdat = s.pdat.quiet.sendEol false d state) (hd : LpPdat.isEol d = true)
    (hstate : state = .wrapLf ∨ state = .wrapCh) (hline : LpPdat.isEol s.pdat.lpPdat = false) :
    Goes s i := by
  have hends : endsLine (s.pdat.quiet.sendEol false d state) = true := hd
  have hcol : (s.next i).col = 0 := by
    show moved s.col (s.next i).pdat = 0
    unfold moved
    rw [hp, hends]
    rfl
  have hnext : (s.next i).pdat.state = state := by
    rw [hp]
    rfl
  refine ⟨?_, fun hparse => ?_, fun _ => ⟨hcol, ?_⟩, fun htab => ?_⟩
  · rw [hp]
    exact .ends rfl hends rfl rfl
  · rw [hnext] at hparse
    rcases hstate with hst | hst
    · rw [hst] at hparse
      cases hparse
    · rw [hst] at hparse
      cases hparse
  · rw [hp]
    exact hline
  · rw [hnext] at htab
    rcases hstate with hst | hst
    · rw [hst] at htab
      cases htab
    · rw [hst] at htab
      cases htab

/-- A space of a tab that begins at `k`. -/
theorem goes_space {k : Nat} (hp : (s.next i).pdat = s.pdat.quiet.sendCol Ascii.sp .tab)
    (hfrom : (s.next i).tabFrom = k) (hk : k < 128) (hle : k ≤ s.col)
    (hstop : s.col < tabStop k) : Goes s i := by
  have hline : endsLine (s.pdat.quiet.sendCol Ascii.sp .tab) = false := by
    show (false || LpPdat.isEol Ascii.sp) = false
    decide
  have hcol : (s.next i).col = s.col + 1 := by
    show moved s.col (s.next i).pdat = s.col + 1
    unfold moved
    rw [hp, hline]
    rfl
  have hroom : s.col < 132 := by
    unfold tabStop at hstop
    omega
  refine ⟨?_, fun hparse => ?_, fun hwrap => ?_, fun _ => ?_⟩
  · rw [hp]
    exact takes_sendCol (by decide) hroom
  · rw [hp] at hparse
    cases hparse
  · rw [hp] at hwrap
    rcases hwrap with hwrap | hwrap
    · cases hwrap
    · cases hwrap
  · rw [hcol, hfrom]
    exact ⟨hk, Nat.lt_succ_of_le hle, hstop⟩

theorem not_startsTab (hstate : s.pdat.state ≠ .parse) : s.startsTab i = false := by
  unfold startsTab
  rw [beq_eq_false_iff_ne.mpr hstate, Bool.false_and, Bool.false_and]

/-- LPPDAT waits for the printer in the middle of what it does. -/
theorem Inv.goes_keeps (h : Inv s) (hp : (s.next i).pdat = s.pdat.quiet)
    (hstate : s.pdat.state ≠ .parse) : Goes s i := by
  have hnext : (s.next i).pdat.state = s.pdat.state := by
    rw [hp]
    rfl
  have hcol : (s.next i).col = s.col := by
    show moved s.col (s.next i).pdat = s.col
    rw [hp]
    rfl
  have hfrom : (s.next i).tabFrom = s.tabFrom := by
    show (if s.startsTab i then s.col else s.tabFrom) = s.tabFrom
    rw [not_startsTab hstate, if_neg Bool.false_ne_true]
  refine ⟨?_, fun hparse => ?_, fun hwrap => ?_, fun htab => ?_⟩
  · rw [hp]
    exact .rests rfl rfl rfl rfl
  · rw [hnext] at hparse
    exact absurd hparse hstate
  · rw [hnext] at hwrap
    rw [hcol, hp]
    exact h.wrap hwrap
  · rw [hnext] at htab
    rw [hcol, hfrom]
    exact h.tab htab

/-- A byte that comes is looked up. -/
theorem goes_idle (hp : (s.next i).pdat = s.pdat.quiet.idle (s.pdatIn i))
    (hstate : s.pdat.state = .idle) : Goes s i := by
  have hquiet : plain s.pdat.quiet.state = true := by
    show plain s.pdat.state = true
    rw [hstate]
    rfl
  unfold LpPdat.idle at hp
  split at hp
  · split at hp
    · exact goes_rests hp rfl rfl rfl rfl rfl
    · split at hp
      · split at hp
        · exact goes_rests hp rfl rfl rfl rfl rfl
        · exact goes_rests hp rfl rfl rfl rfl rfl
        · exact goes_rests hp rfl rfl rfl rfl rfl
        · exact goes_rests hp hquiet rfl rfl rfl rfl
      · exact goes_rests hp hquiet rfl rfl rfl rfl
  · exact goes_rests hp hquiet rfl rfl rfl rfl

/-- A character is examined. -/
theorem Inv.goes_parse (h : Inv s) (hi : Legal s i)
    (hp : (s.next i).pdat = s.pdat.quiet.parse (s.pdatIn i)) (hstate : s.pdat.state = .parse) :
    Goes s i := by
  obtain ⟨hclr, hinc⟩ := h.settled hstate
  have hcctr : s.regCctr.toNat = s.col := h.tracked.counter hclr hinc
  have hquiet : plain s.pdat.quiet.state = true := by
    show plain s.pdat.state = true
    rw [hstate]
    rfl
  unfold LpPdat.parse at hp
  split at hp
  · exact goes_rests hp rfl rfl rfl rfl rfl
  · split at hp
    · exact goes_rests hp hquiet rfl rfl rfl rfl
    · rename_i hdemand
      have hready : (s.pdatIn i).lpDemand = true := by simpa using hdemand
      split at hp
      · rename_i heol
        exact goes_ends hp heol
      · rename_i heol
        have hplain : LpPdat.isEol s.pdat.lpPdat = false := Bool.eq_false_iff.mpr heol
        split at hp
        · rename_i htab
          have hpdat : s.pdat.lpPdat = Ascii.tab := htab
          have hstarts : s.startsTab i = true := by
            unfold startsTab
            rw [hstate, hpdat, show i.lpDemand = true from hready]
            rfl
          have hlt := hi.tab hstarts
          have hfrom : (s.next i).tabFrom = s.col := by
            show (if s.startsTab i then s.col else s.tabFrom) = s.col
            rw [hstarts, if_pos rfl]
          refine goes_space hp hfrom hlt (Nat.le_refl _) ?_
          unfold tabStop
          omega
        · split at hp
          · exact goes_wrap hp rfl (.inl rfl) hplain
          · rename_i hcols
            have hne : s.col ≠ 132 := by
              intro heq
              refine hcols (BitVec.eq_of_toNat_eq ?_)
              show s.regCctr.toNat = 132
              rw [hcctr, heq]
            have hbound := h.bound
            exact goes_takes hp hplain (by omega)

/-- A tab goes on to its stop. -/
theorem Inv.goes_tab (h : Inv s) (hstate : s.pdat.state = .tab)
    (hp : (s.next i).pdat = s.pdat.quiet.step (s.pdatIn i)) : Goes s i := by
  obtain ⟨hfrom, hlt, hle⟩ := h.tab hstate
  have hkeeps : s.pdat.state ≠ .parse := by
    rw [hstate]
    decide
  have hnofrom : (s.next i).tabFrom = s.tabFrom := by
    show (if s.startsTab i then s.col else s.tabFrom) = s.tabFrom
    rw [not_startsTab hkeeps, if_neg Bool.false_ne_true]
  have hquiet : s.pdat.quiet.state = .tab := hstate
  unfold LpPdat.step at hp
  rw [hquiet] at hp
  dsimp only at hp
  split at hp
  · exact goes_rests hp rfl rfl rfl rfl rfl
  · rename_i hcnt
    have hne : s.col ≠ tabStop s.tabFrom := by
      intro heq
      refine hcnt (BitVec.eq_of_toNat_eq ?_)
      show s.pdat.lpTabCnt.toNat = 0
      rw [h.tabs, heq]
      unfold tabStop
      omega
    have hstop : s.col < tabStop s.tabFrom := Nat.lt_of_le_of_ne hle hne
    split at hp
    · exact goes_space hp hnofrom hfrom (Nat.le_of_lt hlt) hstop
    · exact h.goes_keeps hp hkeeps

theorem Inv.goes (h : Inv s) (hi : Legal s i) : Goes s i := by
  have hp := pdat_next (s := s) hi.rst
  have hquiet : s.pdat.quiet.state = s.pdat.state := rfl
  cases hstate : s.pdat.state with
  | tab => exact h.goes_tab hstate hp
  | idle =>
      unfold LpPdat.step at hp
      rw [hquiet, hstate] at hp
      exact goes_idle hp hstate
  | parse =>
      unfold LpPdat.step at hp
      rw [hquiet, hstate] at hp
      exact h.goes_parse hi hp hstate
  | wrapLf =>
      obtain ⟨-, hline⟩ := h.wrap (.inl hstate)
      unfold LpPdat.step at hp
      rw [hquiet, hstate] at hp
      dsimp only at hp
      split at hp
      · exact goes_wrap hp rfl (.inr rfl) hline
      · exact h.goes_keeps hp (by rw [hstate]; decide)
  | wrapCh =>
      obtain ⟨hcol, hline⟩ := h.wrap (.inr hstate)
      unfold LpPdat.step at hp
      rw [hquiet, hstate] at hp
      dsimp only at hp
      split at hp
      · exact goes_takes hp hline (by omega)
      · exact h.goes_keeps hp (by rw [hstate]; decide)
  | dvfu =>
      unfold LpPdat.step at hp
      rw [hquiet, hstate] at hp
      dsimp only at hp
      split at hp
      · exact goes_ends hp rfl
      · exact h.goes_keeps hp (by rw [hstate]; decide)
  | wait =>
      unfold LpPdat.step at hp
      rw [hquiet, hstate] at hp
      dsimp only at hp
      split at hp
      · exact goes_rests hp rfl rfl rfl rfl rfl
      · exact h.goes_keeps hp (by rw [hstate]; decide)
  | delay =>
      unfold LpPdat.step at hp
      rw [hquiet, hstate] at hp
      exact goes_rests hp rfl rfl rfl rfl rfl

theorem Inv.next (h : Inv s) (hi : Legal s i) : Inv (s.next i) := by
  have hgoes := h.goes hi
  obtain ⟨hbound, hcounted, htabs⟩ := h.counts hi.toLeft hgoes.feeds
  exact ⟨hbound, hcounted, htabs, hgoes.settled, hgoes.wrap, hgoes.tab⟩

/-! ## Every run -/

/-- As long as every tab begins before column 128, no line is longer than 132 columns, both
counters know its columns, and each tab goes to its stop. -/
theorem columns_run (s : LpLine) (i : Nat → In) (t : Nat) (hs : AfterReset s)
    (hi : ∀ u, u < t → Legal (run next s i u) (i u)) : Tracked (run next s i t) := by
  have hinv : Inv (run next s i t) :=
    run_invariant_of (C := fun s i => Legal s i) hs.inv (fun _ _ hC h => h.next hC) hi
  exact hinv.tracked

def afterReset : LpLine := { pdat := LpPdat.reset, regCctr := 0, col := 0, tabFrom := 0 }

theorem afterReset_fresh : AfterReset afterReset := ⟨rfl, rfl, rfl⟩

/-- Tabs in print mode, for a printer that is ready in every other clock. -/
def tabs (t : Nat) : In where
  rst := false
  strobe := true
  lpCbuf := Ascii.tab
  lpRamd := 0
  lpCctr := 0
  lpModeTest := false
  lpModePrint := true
  lpModeLdVfu := false
  lpDhld := false
  lpDemand := t % 2 == 1
  lpInit := false
  cctrWrite := false
  lpDataI := 0

theorem tabs_left (s : LpLine) (t : Nat) : Left s (tabs t) :=
  ⟨rfl, rfl, fun hinit => nomatch hinit⟩

/-- The first tabs of a line. -/
theorem columns_run_tabs : Tracked (run next afterReset tabs 40) :=
  columns_run afterReset tabs 40 afterReset_fresh fun u hu => by
    refine ⟨tabs_left _ u, fun _ => ?_⟩
    revert u
    decide +kernel

/-- The seventeenth tab of a line runs past its last column. -/
theorem columns_fails : ¬ ∀ (s : LpLine) (i : Nat → In) (t : Nat), AfterReset s →
    (∀ u, u < t → Left (run next s i u) (i u)) → Tracked (run next s i t) := by
  intro h
  have hbound := (h afterReset tabs 330 afterReset_fresh fun u _ => tabs_left _ u).bound
  have hcol : (run next afterReset tabs 330).col = 133 := by decide +kernel
  omega

end LpLine

end KS10
