import KS10.Lp.Characters
import KS10.Lp.Dma

/-!
# From the DMA to the printer

Three machines hand a byte on.  LPDMA asks for the next byte when LPPDAT is idle and the
printer is ready; LPPDAT gives the printer a character whenever the printer is ready for one; and
the printer takes the character and is ready again when it has done with it.

Each of them looks at the other only through `lpREADY` and `lpDEMAND`.  What has been given to
the printer and what the printer has taken are kept as histories (`LpPrint`).  In every run, the
printer takes each character once, has it on its lines as long as it works on it, and LPPDAT
has done with a byte before LPDMA asks for the next (`LpPrint.handshake_run`).
-/

namespace KS10

open Clocked

namespace Lp26.Fsm

variable {s : Fsm} {i : In}

/-- A printer that is ready waits for the strobe. -/
theorem state_next_of_accepts (hrst : i.rst = false) (hstrobe : i.lpStrobe = false)
    (h : s.accepts = true) (lpXon : Bool) : (s.next i lpXon).state = s.state := by
  unfold next
  rw [hrst, if_neg Bool.false_ne_true]
  unfold accepts at h
  unfold step
  cases hstate : s.state <;> simp [hstate, hstrobe] at h ⊢

theorem accepts_of_state {s s' : Fsm} (h : s'.state = s.state) : s'.accepts = s.accepts := by
  unfold accepts
  rw [h]

end Lp26.Fsm

/-- The controller and the printer, with the characters that were sent and those that were
taken; a character comes with the paper instruction bit. -/
structure LpPrint where
  lp : LpXfer
  pdat : LpPdat
  lp26 : Lp26
  sent : List (Bool × BitVec 8)
  taken : List (Bool × BitVec 8)

namespace LpPrint

open LpXfer (lpInit lpCmdGo lpCmdStop modeRam)

/-- The inputs of one clock; the ready line of the DMA comes from LPPDAT. -/
structure In extends LpXfer.In where
  lpRamd : BitVec 16
  lpCctr : BitVec 8
  lpDhld : Bool
  lpSetOnln : Bool
  lpSetOffln : Bool
  lpOvfu : Bool
  lpTxEmpty : Bool
  lpRxFull : Bool
  lpRxDat : BitVec 8

def modePrint : BitVec 2 := 0b00
def modeTest : BitVec 2 := 0b01
def modeDavfu : BitVec 2 := 0b10

/-! ## One clock -/

def lpDemand (x : LpPrint) : Bool := x.lp26.lpDemand x.pdat.lpStrobe

def xferIn (x : LpPrint) (i : In) : LpXfer.In :=
  { i.toIn with lpReady := x.pdat.lpReady x.lpDemand }

def pdatIn (x : LpPrint) (i : In) : LpPdat.In where
  rst := i.rst
  strobe := x.lp.strobe
  lpCbuf := x.lp.regCbuf
  lpRamd := i.lpRamd
  lpCctr := i.lpCctr
  lpModeTest := x.lp.lpMode == modeTest
  lpModePrint := x.lp.lpMode == modePrint
  lpModeLdVfu := x.lp.lpMode == modeDavfu
  lpDhld := i.lpDhld
  lpDemand := x.lpDemand

def lp26In (x : LpPrint) (i : In) : Lp26.In where
  rst := i.rst
  lpInit := lpInit i.toIn
  lpSetOnln := i.lpSetOnln
  lpSetOffln := i.lpSetOffln
  lpOvfu := i.lpOvfu
  lpStrobe := x.pdat.lpStrobe
  lpData := x.pdat.lpData
  lpPi := x.pdat.lpPi
  lpTxEmpty := i.lpTxEmpty
  lpRxFull := i.lpRxFull
  lpRxDat := i.lpRxDat

/-- What is on the lines to the printer. -/
def lines (x : LpPrint) : Bool × BitVec 8 := (x.pdat.lpPi, x.pdat.lpData)

/-- The printer takes the character that is on its lines. -/
def takes (x : LpPrint) : Bool := x.lp26.fsm.accepts && x.pdat.lpStrobe

/-- One clock of the three machines and the histories. -/
def next (x : LpPrint) (i : In) : LpPrint :=
  let pdat := x.pdat.next (x.pdatIn i)
  { lp := x.lp.next (x.xferIn i)
    pdat := pdat
    lp26 := x.lp26.next (x.lp26In i)
    sent := if pdat.lpStrobe then x.sent ++ [(pdat.lpPi, pdat.lpData)] else x.sent
    taken := if x.takes then x.taken ++ [x.lines] else x.taken }

/-- There is no reset, and the mode stays while the timeout of the acknowledge is tested. -/
structure Legal (x : LpPrint) (i : In) : Prop where
  rst : i.rst = false
  mode : x.lp.dma.state = .read → x.lp.lpTestMsyn = true →
    lpCmdStop i.toIn = true ∨ (x.next i).lp.lpMode = x.lp.lpMode

/-- The three machines after a reset. -/
structure AfterReset (x : LpPrint) : Prop where
  dma : x.lp.dma = LpDma.reset
  strobe : x.lp.strobe = false
  pdat : x.pdat = LpPdat.reset
  lp26 : x.lp26.fsm.state = .idle
  sent : x.sent = []
  taken : x.taken = []

/-- Each character is given to the printer when it is ready, taken once and kept on the lines
until the printer has done with it; and a byte is asked for, or comes, when the one before has
been done with. -/
structure Sound (x : LpPrint) : Prop where
  ready : x.pdat.lpStrobe = true → x.lp26.fsm.accepts = true
  once : x.sent = x.taken ++ if x.pdat.lpStrobe then [x.lines] else []
  held : x.lp26.fsm.accepts = false → x.taken.getLast? = some x.lines
  asked : x.lp.dma.devReqO = true →
    x.pdat.state = .idle ∧ x.lp26.fsm.accepts = true ∧ x.sent = x.taken
  comes : x.lp.strobe = true → x.pdat.state = .idle ∧ x.lp26.fsm.accepts = true ∧ x.sent = x.taken

/-! ## What every clock keeps -/

structure Inv (x : LpPrint) : Prop where
  ready : x.pdat.lpStrobe = true → x.lp26.fsm.accepts = true
  once : x.sent = x.taken ++ if x.pdat.lpStrobe then [x.lines] else []
  held : x.lp26.fsm.accepts = false → x.taken.getLast? = some x.lines
  resting : x.pdat.resting = true → x.pdat.lpStrobe = false ∧ x.lp26.fsm.accepts = true
  devReqO : x.lp.dma.devReqO = decide (x.lp.dma.state = .read)
  read : x.lp.dma.state = .read → x.pdat.state = .idle
  strobe : x.lp.strobe = true → x.pdat.state = .idle
  fetched : x.lp.strobe = true → x.lp.dma.state = .next ∨ x.lp.dma.state = .idle ∨
    x.lp.dma.state = .ackFail ∨ x.lp.dma.state = .read ∧ x.lp.lpMode = modeRam

variable {x : LpPrint} {i : In}

theorem resting_of_idle (h : x.pdat.state = .idle) : x.pdat.resting = true := by
  unfold LpPdat.resting
  rw [h]
  rfl

/-- An idle LPPDAT has nothing on its way. -/
theorem Inv.done_of_idle (h : Inv x) (hidle : x.pdat.state = .idle) :
    x.pdat.state = .idle ∧ x.lp26.fsm.accepts = true ∧ x.sent = x.taken := by
  obtain ⟨hstrobe, haccepts⟩ := h.resting (resting_of_idle hidle)
  refine ⟨hidle, haccepts, ?_⟩
  rw [h.once, hstrobe, if_neg Bool.false_ne_true, List.append_nil]

theorem Inv.sound (h : Inv x) : Sound x := by
  refine ⟨h.ready, h.once, h.held, fun hreq => ?_, fun hstrobe => ?_⟩
  · rw [h.devReqO] at hreq
    exact h.done_of_idle (h.read (of_decide_eq_true hreq))
  · exact h.done_of_idle (h.strobe hstrobe)

theorem AfterReset.inv (h : AfterReset x) : Inv x := by
  have hpdat : x.pdat.lpStrobe = false := by
    rw [h.pdat]
    rfl
  have haccepts : x.lp26.fsm.accepts = true := by
    unfold Lp26.Fsm.accepts
    rw [h.lp26]
    rfl
  refine ⟨fun hs => ?_, ?_, fun ha => ?_, fun _ => ⟨hpdat, haccepts⟩, ?_, fun hr => ?_,
    fun hs => ?_, fun hs => ?_⟩
  · rw [hpdat] at hs
    cases hs
  · rw [h.sent, h.taken, hpdat]
    rfl
  · rw [haccepts] at ha
    cases ha
  · rw [h.dma]
    rfl
  · rw [h.dma] at hr
    cases hr
  · rw [h.strobe] at hs
    cases hs
  · rw [h.strobe] at hs
    cases hs

/-! ### LPPDAT and the printer -/

theorem pdat_next (hrst : i.rst = false) :
    (x.next i).pdat = x.pdat.quiet.step (x.pdatIn i) := by
  show LpPdat.next x.pdat (x.pdatIn i) = _
  unfold LpPdat.next
  have hrst' : (x.pdatIn i).rst = false := hrst
  rw [hrst', if_neg Bool.false_ne_true]

/-- A character on the lines is not replaced before it has been taken. -/
theorem pdat_cases (hrst : i.rst = false) :
    LpPdat.Quiet x.pdat (x.next i).pdat ∨
      LpPdat.Sends (x.pdatIn i) (x.next i).pdat := by
  rw [pdat_next hrst]
  rcases LpPdat.step_cases (s := x.pdat.quiet) (i := x.pdatIn i) rfl with hquiet | hsends
  · exact .inl ⟨hquiet.lpStrobe, hquiet.lpData, hquiet.lpPi⟩
  · exact .inr hsends

theorem demand_iff : x.lpDemand = true ↔ x.pdat.lpStrobe = false ∧ x.lp26.fsm.accepts = true := by
  unfold lpDemand Lp26.lpDemand
  rw [Bool.and_eq_true, Bool.not_eq_true']

theorem accepts_next (hrst : i.rst = false) (hstrobe : x.pdat.lpStrobe = false)
    (h : x.lp26.fsm.accepts = true) : (x.next i).lp26.fsm.accepts = true := by
  have hstate : (x.next i).lp26.fsm.state = x.lp26.fsm.state :=
    Lp26.Fsm.state_next_of_accepts (i := x.lp26In i) hrst hstrobe h x.lp26.lpXon
  rw [Lp26.Fsm.accepts_of_state hstate, h]

theorem taken_next : (x.next i).taken = if x.takes then x.taken ++ [x.lines] else x.taken := rfl

theorem sent_next : (x.next i).sent =
    x.sent ++ if (x.next i).pdat.lpStrobe then [(x.next i).lines] else [] := by
  show (if (x.next i).pdat.lpStrobe then x.sent ++ [(x.next i).lines] else x.sent) = _
  split
  · rfl
  · exact (List.append_nil _).symm

/-- What has been sent up to now has been taken after the clock. -/
theorem Inv.taken_next (h : Inv x) : (x.next i).taken = x.sent := by
  rw [LpPrint.taken_next, h.once]
  unfold takes
  cases hstrobe : x.pdat.lpStrobe with
  | false => rw [Bool.and_false, if_neg Bool.false_ne_true, if_neg Bool.false_ne_true,
      List.append_nil]
  | true => rw [h.ready hstrobe, Bool.true_and, if_pos rfl, if_pos rfl]

theorem ready_next (hrst : i.rst = false)
    (hstrobe : (x.next i).pdat.lpStrobe = true) : (x.next i).lp26.fsm.accepts = true := by
  rcases pdat_cases (x := x) (i := i) hrst with hquiet | hsends
  · rw [hquiet.lpStrobe] at hstrobe
    cases hstrobe
  · obtain ⟨hlow, haccepts⟩ := demand_iff.mp hsends.lpDemand
    exact accepts_next hrst hlow haccepts

theorem Inv.held_next (h : Inv x) (hrst : i.rst = false)
    (hbusy : (x.next i).lp26.fsm.accepts = false) :
    (x.next i).taken.getLast? = some (x.next i).lines := by
  rcases pdat_cases (x := x) (i := i) hrst with hquiet | hsends
  · have hlines : (x.next i).lines = x.lines := by
      unfold lines
      rw [hquiet.lpData, hquiet.lpPi]
    rw [h.taken_next, hlines, h.once]
    cases hstrobe : x.pdat.lpStrobe with
    | true => exact List.getLast?_concat
    | false =>
        rw [if_neg Bool.false_ne_true, List.append_nil]
        refine h.held ?_
        rw [← Bool.not_eq_true]
        intro haccepts
        rw [accepts_next hrst hstrobe haccepts] at hbusy
        cases hbusy
  · obtain ⟨hlow, haccepts⟩ := demand_iff.mp hsends.lpDemand
    rw [accepts_next hrst hlow haccepts] at hbusy
    cases hbusy

theorem Inv.resting_next (h : Inv x) (hrst : i.rst = false)
    (hrest : (x.next i).pdat.resting = true) :
    (x.next i).pdat.lpStrobe = false ∧ (x.next i).lp26.fsm.accepts = true := by
  rcases pdat_cases (x := x) (i := i) hrst with hquiet | hsends
  · refine ⟨hquiet.lpStrobe, ?_⟩
    rw [pdat_next hrst] at hrest
    rcases LpPdat.resting_of_step hrest with hrest | ⟨-, hdemand⟩
    · obtain ⟨hlow, haccepts⟩ := h.resting hrest
      exact accepts_next hrst hlow haccepts
    · obtain ⟨hlow, haccepts⟩ := demand_iff.mp hdemand
      exact accepts_next hrst hlow haccepts
  · rw [hsends.resting] at hrest
    cases hrest

/-! ### LPDMA -/

theorem dma_next (hrst : i.rst = false) (hstop : lpCmdStop i.toIn = false) :
    (x.next i).lp.dma = x.lp.dma.step (x.lp.dmaIn (x.xferIn i)) := by
  show x.lp.dma.next (x.lp.dmaIn (x.xferIn i)) = _
  unfold LpDma.next
  have hrst' : (x.lp.dmaIn (x.xferIn i)).rst = false := hrst
  have hstop' : (x.lp.dmaIn (x.xferIn i)).lpCmdStop = false := hstop
  rw [hrst', hstop', if_neg Bool.false_ne_true, if_neg Bool.false_ne_true]

theorem dma_next_of_stop (hrst : i.rst = false) (hstop : lpCmdStop i.toIn = true) :
    (x.next i).lp.dma.state = .idle ∧ (x.next i).lp.dma.devReqO = false := by
  have hnext : (x.next i).lp.dma = x.lp.dma.next (x.lp.dmaIn (x.xferIn i)) := rfl
  have hrst' : (x.lp.dmaIn (x.xferIn i)).rst = false := hrst
  have hstop' : (x.lp.dmaIn (x.xferIn i)).lpCmdStop = true := hstop
  rw [hnext]
  unfold LpDma.next
  rw [hrst', hstop', if_neg Bool.false_ne_true, if_pos rfl]
  exact ⟨rfl, rfl⟩

theorem devReqO_next (hrst : i.rst = false) :
    (x.next i).lp.dma.devReqO = decide ((x.next i).lp.dma.state = .read) := by
  cases hstop : lpCmdStop i.toIn with
  | true =>
      obtain ⟨hstate, hreq⟩ := dma_next_of_stop (x := x) hrst hstop
      rw [hstate, hreq]
      rfl
  | false =>
      rw [dma_next hrst hstop]
      exact LpDma.step_flags.1

theorem strobe_next (hrst : i.rst = false) :
    (x.next i).lp.strobe = (x.lp.dma.devReqO && i.devAckI) := by
  show (if i.rst then false else x.lp.lpDmaWr (x.xferIn i)) = _
  rw [hrst, if_neg Bool.false_ne_true]
  rfl

/-- LPPDAT stays idle while a byte is being fetched. -/
theorem Inv.idle_next (h : Inv x) (hrst : i.rst = false) (hread : x.lp.dma.state = .read) :
    (x.next i).pdat.state = .idle := by
  rw [pdat_next hrst]
  refine LpPdat.idle_of_step (h.read hread) ?_
  cases hstrobe : x.lp.strobe with
  | false => exact .inl hstrobe
  | true =>
      rcases h.fetched hstrobe with hs | hs | hs | ⟨-, hram⟩
      · rw [hread] at hs
        cases hs
      · rw [hread] at hs
        cases hs
      · rw [hread] at hs
        cases hs
      · refine .inr ⟨?_, ?_, ?_⟩
        · show (x.lp.lpMode == modeDavfu) = false
          rw [hram]
          rfl
        · show (x.lp.lpMode == modePrint) = false
          rw [hram]
          rfl
        · show (x.lp.lpMode == modeTest) = false
          rw [hram]
          rfl

theorem Inv.read_next (h : Inv x) (hrst : i.rst = false)
    (hread : (x.next i).lp.dma.state = .read) : (x.next i).pdat.state = .idle := by
  cases hstop : lpCmdStop i.toIn with
  | true =>
      rw [(dma_next_of_stop hrst hstop).1] at hread
      cases hread
  | false =>
      rw [dma_next hrst hstop] at hread
      rcases LpDma.ready_of_step_read hread with ⟨hstate, hready⟩ | ⟨hstate, -⟩
      · have hready' : x.pdat.lpReady x.lpDemand = true := hready
        unfold LpPdat.lpReady at hready'
        rw [Bool.and_eq_true, beq_iff_eq] at hready'
        rw [pdat_next hrst]
        refine LpPdat.idle_of_step hready'.1 (.inl ?_)
        show x.lp.strobe = false
        rw [← Bool.not_eq_true]
        intro hstrobe
        rcases h.fetched hstrobe with hs | hs | hs | ⟨hs, -⟩ <;>
        · rw [hstate] at hs
          cases hs
      · exact h.idle_next hrst hstate

/-- A byte has come only from a request. -/
theorem Inv.read_of_strobe (h : Inv x) (hrst : i.rst = false)
    (hstrobe : (x.next i).lp.strobe = true) :
    x.lp.dma.state = .read ∧ i.devAckI = true := by
  rw [strobe_next hrst, h.devReqO, Bool.and_eq_true] at hstrobe
  exact ⟨of_decide_eq_true hstrobe.1, hstrobe.2⟩

theorem Inv.fetched_next (h : Inv x) (hlegal : Legal x i)
    (hstrobe : (x.next i).lp.strobe = true) :
    (x.next i).lp.dma.state = .next ∨ (x.next i).lp.dma.state = .idle ∨
      (x.next i).lp.dma.state = .ackFail ∨
        (x.next i).lp.dma.state = .read ∧ (x.next i).lp.lpMode = modeRam := by
  obtain ⟨hread, hack⟩ := h.read_of_strobe hlegal.rst hstrobe
  cases hstop : lpCmdStop i.toIn with
  | true => exact .inr (.inl (dma_next_of_stop hlegal.rst hstop).1)
  | false =>
      have hdma := dma_next (x := x) hlegal.rst hstop
      rw [hdma]
      rcases LpDma.step_of_read (i := x.lp.dmaIn (x.xferIn i)) hread with hs | hs | hs
      · exact .inl hs
      · exact .inr (.inr (.inl hs))
      · -- the acknowledge was ignored, which only the mode of the translation RAM allows
        refine .inr (.inr (.inr ⟨hs, ?_⟩))
        have hmsyn : x.lp.lpTestMsyn = true := by
          rcases LpDma.ready_of_step_read hs with ⟨hready, -⟩ | ⟨-, hignored⟩
          · rw [hread] at hready
            cases hready
          · exact hignored hack
        have hkeeps : (x.next i).lp.lpMode = x.lp.lpMode := by
          rcases hlegal.mode hread hmsyn with hs | hkeeps
          · rw [hstop] at hs
            cases hs
          · exact hkeeps
        rw [hkeeps]
        unfold LpXfer.lpTestMsyn at hmsyn
        rw [Bool.and_eq_true, beq_iff_eq] at hmsyn
        exact hmsyn.1

theorem Inv.next (h : Inv x) (hlegal : Legal x i) : Inv (x.next i) where
  ready := ready_next hlegal.rst
  once := by rw [h.taken_next, sent_next]
  held := h.held_next hlegal.rst
  resting := h.resting_next hlegal.rst
  devReqO := devReqO_next hlegal.rst
  read := h.read_next hlegal.rst
  strobe := fun hstrobe =>
    h.idle_next hlegal.rst (h.read_of_strobe hlegal.rst hstrobe).1
  fetched := h.fetched_next hlegal

/-! ## Every run -/

def afterReset : LpPrint where
  lp :=
    { dma := LpDma.reset, regBar := 0, count := 0, regCksm := 0, regCbuf := 0,
      strobe := false, lpDone := false, lpMode := 0, lpTest := 0 }
  pdat := LpPdat.reset
  lp26 := Lp26.afterReset
  sent := []
  taken := []

/-- A transfer is started, and the memory acknowledges with the same word in every clock. -/
def started (t : Nat) : In where
  rst := false
  devReset := false
  devLoByte := true
  devHiByte := false
  csraWrite := t == 0
  csrbWrite := false
  barWrite := false
  bctrWrite := false
  cbufWrite := false
  lpDataI := if t = 0 then 1 else 0o101012000000
  devAckI := true
  lpErr := false
  lpReady := false
  lpRamd := 0
  lpCctr := 0
  lpDhld := false
  lpSetOnln := false
  lpSetOffln := false
  lpOvfu := true
  lpTxEmpty := true
  lpRxFull := false
  lpRxDat := 0

instance (x : LpPrint) (i : In) : Decidable (Legal x i) :=
  decidable_of_iff (i.rst = false ∧ (x.lp.dma.state = .read → x.lp.lpTestMsyn = true →
      lpCmdStop i.toIn = true ∨ (x.next i).lp.lpMode = x.lp.lpMode))
    ⟨fun h => ⟨h.1, h.2⟩, fun h => ⟨h.rst, h.mode⟩⟩

end LpPrint

end KS10
