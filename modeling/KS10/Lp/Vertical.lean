import KS10.Lp.Feeds

/-!
# The vertical position of the paper

The printer keeps the line of the form that is under its head in a counter, and moves the paper
by line feeds.

The line feeds since the paper was last at the top of the form, by a form feed or by the load
of a format, are counted next to the registers (`LpPaper`).  As long as a format is in force
they are as many as the line counter has advanced, round the form (`LpPaper.vertical_run`).
-/

namespace KS10

open Clocked

/-- The printer with what has gone to the paper. -/
structure LpPaper where
  lp26 : Lp26
  /-- The character that the printer works on. -/
  data : BitVec 8
  /-- The line counter before the command. -/
  held : BitVec 8
  /-- The line counter a clock ago. -/
  prev : BitVec 8
  /-- The line feeds since the paper was at the top of the form. -/
  feeds : Nat
  /-- A vertical format has been loaded, or is the fixed one. -/
  inForce : Bool

namespace LpPaper

open Lp26 (In ovfuLen isStart)

/-! ## One clock -/

def state (x : LpPaper) : Lp26.State := x.lp26.fsm.state

def lpLctr (x : LpPaper) : BitVec 8 := x.lp26.fsm.lpLctr

/-- The line feeds, with the one on the way to the serial line. -/
def line (x : LpPaper) : Nat := x.lp26.fsm.lineAfter x.feeds

/-- The character on the way to the serial line is a form feed, or the paper has been set to
the top of the form for a new format. -/
def atTop (x : LpPaper) : Bool :=
  x.state == .vfuRdy || (x.lp26.fsm.lpTxStb && x.lp26.fsm.lpTxDat &&& 0x7f == Ascii.ff)

def takes (x : LpPaper) (i : In) : Bool := x.lp26.fsm.accepts && i.lpStrobe

/-- One clock of the printer and of the paper. -/
def next (x : LpPaper) (i : In) : LpPaper where
  lp26 := x.lp26.next i
  data := if x.takes i then i.lpData else x.data
  held := if x.state = .idle then x.lpLctr else x.held
  prev := x.lpLctr
  feeds :=
    if x.atTop then 0
    else if x.lp26.fsm.lpTxStb && x.lp26.fsm.lpTxDat &&& 0x7f == Ascii.lf then x.feeds + 1
    else x.feeds
  inForce :=
    if x.state = .vfuRdy then true
    else if x.takes i && i.lpPi && isStart i.lpData then x.inForce && i.lpOvfu
    else x.inForce

/-- The last line of the form, and the number of lines that the counter runs through. -/
def last (fixed : Bool) (x : LpPaper) : BitVec 8 :=
  if fixed then ovfuLen else x.lp26.fsm.lpDvfuLen

def form (fixed : Bool) (x : LpPaper) : Nat := (x.last fixed).toNat + 1

/-! ## What is asked of the controller -/

/-- The choice of the format is fixed; the character stays while the printer works on it; no
other character looks to the serial line like a line feed or a form feed; and a vertical tab
finds its mark before it has come around. -/
structure Legal (fixed : Bool) (x : LpPaper) (i : In) : Prop where
  rst : i.rst = false
  ovfu : i.lpOvfu = fixed
  data : x.lp26.fsm.accepts = false → i.lpData = x.data
  plain : x.state = .idle → i.lpStrobe = true → i.lpPi = false →
    i.lpData ≠ 0o212 ∧ i.lpData ≠ 0o214
  vt : x.state = .vfuVt → x.lp26.fsm.lpCount ≠ x.last fixed

/-- The printer after a reset; a format is in force if it is the fixed one. -/
structure AfterReset (fixed : Bool) (x : LpPaper) : Prop where
  state : x.state = .idle
  lpLctr : x.lpLctr = 0
  lpLfCnt : x.lp26.fsm.lpLfCnt = 0
  lpCount : x.lp26.fsm.lpCount = 0
  lpCctr : x.lp26.fsm.lpCctr = 0
  lpTxStb : x.lp26.fsm.lpTxStb = false
  lastLine0 : x.lp26.lastLine0 = false
  prev : x.prev ≠ 0
  feeds : x.feeds = 0
  inForce : x.inForce = fixed

/-- Between two commands the line feeds are as many as the line counter has advanced, round the
form; the counter stays on the form; the top of the form is signalled when the counter comes
to line 0; and a motion that fails leaves the counter as it was. -/
structure Sound (fixed : Bool) (x : LpPaper) : Prop where
  feeds : x.inForce = true → x.state = .idle → x.feeds % x.form fixed = x.lpLctr.toNat
  below : x.inForce = true → x.lpLctr.toNat < x.form fixed
  top : x.lp26.lpTof = true ↔ x.lpLctr = 0 ∧ x.prev ≠ 0
  failed : x.inForce = true → x.state = .vfuOffln → x.lpLctr = x.held

/-! ## What every clock keeps -/

open Lp26.Fsm (Fits Tidy Buffered)

structure Inv (fixed : Bool) (x : LpPaper) : Prop where
  tidy : x.lp26.fsm.Tidy
  buffered : x.lp26.fsm.Buffered
  lpTxStb : x.lp26.fsm.lpTxStb = true → x.lp26.fsm.sending = true
  load : x.lp26.fsm.loads = true → x.inForce = true → fixed = true
  fits : x.inForce = true → Fits (x.last fixed) x.line x.data x.held x.lp26.fsm
  line0 : x.lp26.lastLine0 = decide (x.prev = 0)

variable {fixed : Bool} {x : LpPaper} {i : In}

theorem AfterReset.inv (h : AfterReset fixed x) : Inv fixed x := by
  have hstate : x.lp26.fsm.state = .idle := h.state
  have hctr : x.lp26.fsm.lpLctr = 0 := h.lpLctr
  refine ⟨?_, ?_, fun hs => ?_, fun hl => ?_, fun _ => ?_, ?_⟩
  · unfold Tidy
    rw [hstate]
    exact ⟨h.lpLfCnt, h.lpCount⟩
  · intro k hk
    rw [h.lpCctr] at hk
    exact absurd hk (Nat.not_lt_zero _)
  · rw [h.lpTxStb] at hs
    cases hs
  · unfold Lp26.Fsm.loads at hl
    rw [hstate] at hl
    cases hl
  · unfold Fits Lp26.Fsm.Ahead line
    rw [hstate, Lp26.Fsm.lineAfter_of_not h.lpTxStb, h.feeds, hctr]
    exact Nat.zero_mod _
  · rw [h.lastLine0, decide_eq_false h.prev]

/-- The state machine with the strobe of the serial line down. -/
def low (x : LpPaper) : Lp26.Fsm := { x.lp26.fsm with lpTxStb := false }

theorem fsm_next (hrst : i.rst = false) :
    (x.next i).lp26.fsm = x.low.step i x.lp26.lpXon := by
  show x.lp26.fsm.next i x.lp26.lpXon = _
  unfold Lp26.Fsm.next low
  rw [hrst, if_neg Bool.false_ne_true]

/-- The line feeds that have gone to the paper. -/
theorem feeds_next :
    (x.next i).feeds = if x.state = .vfuRdy then 0 else x.line := by
  unfold next atTop line Lp26.Fsm.lineAfter Lp26.Fsm.advance
  dsimp only
  by_cases hrdy : x.state = .vfuRdy
  · simp [hrdy]
  · have hrdy' : (x.state == Lp26.State.vfuRdy) = false := beq_false_of_ne hrdy
    rw [hrdy', if_neg hrdy, Bool.false_or]
    cases x.lp26.fsm.lpTxStb with
    | false => simp
    | true =>
        by_cases hff : x.lp26.fsm.lpTxDat &&& 127#8 = Ascii.ff
        · simp [hff]
        · by_cases hlf : x.lp26.fsm.lpTxDat &&& 127#8 = Ascii.lf
          · have hne : Ascii.lf ≠ Ascii.ff := by decide
            simp [hlf, hne]
          · simp [hff, hlf]

theorem Legal.vfuLen (h : Legal fixed x i) : x.low.vfuLen i = x.last fixed := by
  unfold Lp26.Fsm.vfuLen last
  rw [h.ovfu]
  rfl

theorem Inv.clock (h : Inv fixed x) (hlegal : Legal fixed x i) :
    Lp26.Fsm.Clock (x.last fixed) x.data (x.next i).data x.low i where
  lpTxStb := rfl
  tidy := h.tidy
  buffered := h.buffered
  vfuLen := hlegal.vfuLen
  lpData := hlegal.data
  data' := rfl
  vt := hlegal.vt

/-- A format that is in force has been so, unless it has just been loaded, and its length
stays. -/
theorem Inv.inForce_next (h : Inv fixed x) (hlegal : Legal fixed x i)
    (hrdy : x.state ≠ .vfuRdy) (hforce : (x.next i).inForce = true) :
    x.inForce = true ∧ (x.next i).last fixed = x.last fixed := by
  have hnext : (if x.takes i && i.lpPi && isStart i.lpData then x.inForce && i.lpOvfu
      else x.inForce) = true := by
    have hshow : (x.next i).inForce = if x.state = .vfuRdy then true else _ := rfl
    rw [hshow, if_neg hrdy] at hforce
    exact hforce
  have hold : x.inForce = true := by
    split at hnext
    · rw [Bool.and_eq_true] at hnext
      exact hnext.1
    · exact hnext
  refine ⟨hold, ?_⟩
  unfold last
  cases hfix : fixed with
  | true => rfl
  | false =>
      have hloads : x.low.loads = false := by
        rw [← Bool.not_eq_true]
        intro hl
        have hfixed := h.load hl hold
        rw [hfix] at hfixed
        cases hfixed
      rw [if_neg Bool.false_ne_true, if_neg Bool.false_ne_true, fsm_next hlegal.rst]
      rcases Lp26.Fsm.dvfuLen_step (i := i) x.lp26.lpXon hloads with
        hlen | ⟨hidle, hstrobe, hpi, hstart⟩
      · rw [hlen]
        rfl
      · -- a new format is loaded
        have hidle' : x.lp26.fsm.state = .idle := hidle
        have htakes : x.takes i = true := by
          unfold takes Lp26.Fsm.accepts
          rw [hidle', hstrobe]
          rfl
        rw [htakes, hpi, hstart, hlegal.ovfu, hfix, Bool.and_false] at hnext
        cases hnext

theorem Inv.fits_next (h : Inv fixed x) (hlegal : Legal fixed x i)
    (hforce : (x.next i).inForce = true) :
    Fits ((x.next i).last fixed) (x.next i).line (x.next i).data (x.next i).held
      (x.next i).lp26.fsm := by
  unfold line
  rw [feeds_next, fsm_next hlegal.rst]
  by_cases hrdy : x.state = .vfuRdy
  · have hrdy' : x.low.state = .vfuRdy := hrdy
    rw [if_pos hrdy]
    unfold Lp26.Fsm.step
    rw [hrdy']
    exact Fits.before (Nat.zero_mod _) rfl
  · obtain ⟨hold, hlast⟩ := h.inForce_next hlegal hrdy hforce
    rw [if_neg hrdy, hlast]
    have hlow : Fits (x.last fixed) x.line x.data x.held x.low := h.fits hold
    exact hlow.step (h.clock hlegal) hrdy

theorem Inv.load_next (h : Inv fixed x) (hlegal : Legal fixed x i)
    (hloads : (x.next i).lp26.fsm.loads = true) (hforce : (x.next i).inForce = true) :
    fixed = true := by
  rw [fsm_next hlegal.rst] at hloads
  by_cases hrdy : x.state = .vfuRdy
  · have hrdy' : x.low.state = .vfuRdy := hrdy
    unfold Lp26.Fsm.step Lp26.Fsm.loads at hloads
    rw [hrdy'] at hloads
    cases hloads
  · obtain ⟨hold, -⟩ := h.inForce_next hlegal hrdy hforce
    rcases Lp26.Fsm.loads_step hloads with hl | ⟨hidle, hstrobe, hpi, hstart⟩
    · exact h.load hl hold
    · have hidle' : x.lp26.fsm.state = .idle := hidle
      have htakes : x.takes i = true := by
        unfold takes Lp26.Fsm.accepts
        rw [hidle', hstrobe]
        rfl
      have hnext : (x.next i).inForce = if x.state = .vfuRdy then true else
          if x.takes i && i.lpPi && isStart i.lpData then x.inForce && i.lpOvfu
          else x.inForce := rfl
      rw [hnext, if_neg hrdy, htakes, hpi, hstart, hlegal.ovfu, hold] at hforce
      exact hforce

theorem Inv.next (h : Inv fixed x) (hlegal : Legal fixed x i) : Inv fixed (x.next i) where
  tidy := by
    rw [fsm_next hlegal.rst]
    exact Tidy.step (s := x.low) h.tidy
  buffered := by
    rw [fsm_next hlegal.rst]
    exact Buffered.step (s := x.low) h.buffered hlegal.plain
  lpTxStb := by
    rw [fsm_next hlegal.rst]
    exact Lp26.Fsm.sending_step rfl
  load := h.load_next hlegal
  fits := h.fits_next hlegal
  line0 := by
    show (if i.rst then false else x.lp26.lpLine0) = decide (x.lpLctr = 0)
    rw [hlegal.rst, if_neg Bool.false_ne_true]
    rfl

theorem Inv.sound (h : Inv fixed x) : Sound fixed x where
  feeds := by
    intro hforce hidle
    have hidle' : x.lp26.fsm.state = .idle := hidle
    have hstb : x.lp26.fsm.lpTxStb = false := by
      rw [← Bool.not_eq_true]
      intro hstb
      have hsending := h.lpTxStb hstb
      unfold Lp26.Fsm.sending at hsending
      rw [hidle'] at hsending
      cases hsending
    have hfits := h.fits hforce
    unfold Fits line at hfits
    rw [hidle', Lp26.Fsm.lineAfter_of_not hstb] at hfits
    exact hfits
  below := fun hforce => Nat.lt_succ_of_le (h.fits hforce).le
  top := by
    unfold Lp26.lpTof Lp26.lpLine0
    rw [h.line0, Bool.and_eq_true, decide_eq_true_iff, Bool.not_eq_true',
      decide_eq_false_iff_not]
    exact Iff.rfl
  failed := by
    intro hforce hoffln
    have hoffln' : x.lp26.fsm.state = .vfuOffln := hoffln
    have hfits := h.fits hforce
    unfold Fits at hfits
    rw [hoffln'] at hfits
    exact hfits.2

/-- A format that has been loaded has as many lines as have been loaded. -/
theorem form_next_of_load (hrst : i.rst = false) (hrdy : x.state = .vfuRdy)
    (hlines : x.lp26.fsm.lpDvfuLen ≠ 0) :
    (x.next i).form false = x.lp26.fsm.lpDvfuLen.toNat := by
  have hrdy' : x.low.state = .vfuRdy := hrdy
  have hlen : (x.next i).lp26.fsm.lpDvfuLen = x.lp26.fsm.lpDvfuLen - 1 := by
    rw [fsm_next hrst]
    unfold Lp26.Fsm.step
    rw [hrdy']
    rfl
  have hpos : x.lp26.fsm.lpDvfuLen.toNat ≠ 0 := fun h => hlines (BitVec.eq_of_toNat_eq h)
  have hlt := x.lp26.fsm.lpDvfuLen.isLt
  unfold form last
  rw [if_neg Bool.false_ne_true, hlen, BitVec.toNat_sub]
  show (256 - 1 + x.lp26.fsm.lpDvfuLen.toNat) % 256 + 1 = _
  omega

/-- The printer after a reset with the fixed format. -/
def afterReset : LpPaper where
  lp26 := Lp26.afterReset
  data := 0
  held := 0
  prev := 1
  feeds := 0
  inForce := true

theorem afterReset_spec : AfterReset true afterReset :=
  ⟨rfl, rfl, rfl, rfl, rfl, rfl, rfl, by decide, rfl, rfl⟩

instance (fixed : Bool) (x : LpPaper) (i : In) : Decidable (Legal fixed x i) :=
  decidable_of_iff (i.rst = false ∧ i.lpOvfu = fixed ∧
      (x.lp26.fsm.accepts = false → i.lpData = x.data) ∧
      (x.state = .idle → i.lpStrobe = true → i.lpPi = false →
        i.lpData ≠ 0o212 ∧ i.lpData ≠ 0o214) ∧
      (x.state = .vfuVt → x.lp26.fsm.lpCount ≠ x.last fixed))
    ⟨fun ⟨a, b, c, d, e⟩ => ⟨a, b, c, d, e⟩, fun ⟨a, b, c, d, e⟩ => ⟨a, b, c, d, e⟩⟩

end LpPaper

end KS10
