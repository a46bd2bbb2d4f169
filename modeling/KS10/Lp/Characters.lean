import KS10.Lp.Printer

/-!
# The characters for the printer

LPPDAT takes the byte that the DMA has brought and gives it to the printer: as it is, as the
translation RAM has it, or as a paper instruction.  A tab becomes spaces up to the next stop, and
a character beyond the last column comes after a carriage return and a line feed.
-/

namespace KS10

open Clocked

inductive LpPdat.State where
  | idle
  | parse
  | wrapLf
  | tab
  | wrapCh
  | dvfu
  | wait
  | delay
  deriving DecidableEq

/-- What is done with a character. -/
inductive LpPdat.Op where
  | printCbuf
  | printRamd
  | printDvfu
  | raiseIntr
  deriving DecidableEq

/-- The registers of LPPDAT. -/
structure LpPdat where
  state : LpPdat.State
  lpTabCnt : BitVec 3
  lpPdat : BitVec 8
  lpPi : Bool
  lpData : BitVec 8
  lpStrobe : Bool
  lpClrCctr : Bool
  lpIncCctr : Bool
  lpSetUndc : Bool
  deriving DecidableEq

namespace LpPdat

/-- The inputs of LPPDAT at one clock. -/
structure In where
  rst : Bool
  /-- The DMA has written the character buffer a clock ago. -/
  strobe : Bool
  lpCbuf : BitVec 8
  lpRamd : BitVec 16
  lpCctr : BitVec 8
  lpModeTest : Bool
  lpModePrint : Bool
  lpModeLdVfu : Bool
  lpDhld : Bool
  lpDemand : Bool

def ramdCtrl (ramd : BitVec 16) : BitVec 4 := ramd.extractLsb' 8 4

/-- The operation that the control bits of the translation RAM and the delimiter hold call
for. -/
def lpOp (ramd : BitVec 16) (dhld : Bool) : Op :=
  match (ramdCtrl ramd ++ BitVec.ofBool dhld).toNat with
  | 0 | 2 => .printCbuf
  | 1 | 4 | 5 | 8 | 9 | 12 | 13 | 20 => .printRamd
  | 3 | 6 | 7 | 10 | 11 | 14 | 15 | 22 => .printDvfu
  | _ => .raiseIntr

/-- The last column. -/
def columns : BitVec 8 := 132

/-! ## The states -/

/-- A character, or a paper instruction, goes to the printer. -/
def send (s : LpPdat) (pi : Bool) (data : BitVec 8) (state : State) : LpPdat :=
  { s with lpPi := pi, lpData := data, lpStrobe := true, state := state }

/-- The character ends the line. -/
def sendEol (s : LpPdat) (pi : Bool) (data : BitVec 8) (state : State) : LpPdat :=
  { s.send pi data state with lpClrCctr := true, lpTabCnt := 0 }

/-- The character takes a column. -/
def sendCol (s : LpPdat) (data : BitVec 8) (state : State) : LpPdat :=
  { s.send false data state with lpIncCctr := true, lpTabCnt := s.lpTabCnt + 1 }

def idle (s : LpPdat) (i : In) : LpPdat :=
  if i.strobe then
    if i.lpModeLdVfu then { s with lpPdat := i.lpCbuf, state := .dvfu }
    else if i.lpModePrint || i.lpModeTest then
      match lpOp i.lpRamd i.lpDhld with
      | .printCbuf => { s with lpPdat := i.lpCbuf, state := .parse }
      | .printRamd => { s with lpPdat := i.lpRamd.extractLsb' 0 8, state := .parse }
      | .printDvfu => { s with lpPdat := i.lpRamd.extractLsb' 0 8, state := .dvfu }
      | .raiseIntr => { s with lpSetUndc := true }
    else s
  else s

/-- The characters that end a line. -/
def isEol (d : BitVec 8) : Bool :=
  d == Ascii.cr || d == Ascii.vt || d == Ascii.lf || d == Ascii.ff

def parse (s : LpPdat) (i : In) : LpPdat :=
  if s.lpPdat = Ascii.nul then { s with state := .wait }
  else if !i.lpDemand then s
  else if isEol s.lpPdat then s.sendEol false s.lpPdat .wait
  else if s.lpPdat = Ascii.tab then s.sendCol Ascii.sp .tab
  else if i.lpCctr = columns then s.sendEol false Ascii.cr .wrapLf
  else s.sendCol s.lpPdat .wait

/-- The state machine, with the strobe and the other pulses already down. -/
def step (s : LpPdat) (i : In) : LpPdat :=
  match s.state with
  | .idle => s.idle i
  | .parse => s.parse i
  | .wrapLf => if i.lpDemand then s.sendEol false Ascii.lf .wrapCh else s
  | .wrapCh => if i.lpDemand then s.sendCol s.lpPdat .wait else s
  | .tab =>
      if s.lpTabCnt = 0 then { s with state := .wait }
      else if i.lpDemand then s.sendCol Ascii.sp .tab
      else s
  | .dvfu => if i.lpDemand then s.sendEol true (s.lpPdat &&& 0x7f) .wait else s
  | .wait => if i.lpDemand then { s with state := .delay } else s
  | .delay => { s with state := .idle }

def reset : LpPdat where
  state := .idle
  lpTabCnt := 0
  lpPdat := 0
  lpPi := false
  lpData := 0
  lpStrobe := false
  lpClrCctr := false
  lpIncCctr := false
  lpSetUndc := false

/-- The pulses are down by default. -/
def quiet (s : LpPdat) : LpPdat :=
  { s with lpStrobe := false, lpClrCctr := false, lpIncCctr := false, lpSetUndc := false }

/-- One clock of LPPDAT. -/
def next (s : LpPdat) (i : In) : LpPdat := if i.rst then reset else s.quiet.step i

/-- The DMA may bring the next byte. -/
def lpReady (s : LpPdat) (lpDemand : Bool) : Bool := s.state == .idle && lpDemand

/-! ## The strobe -/

/-- The states in which nothing is on its way to the printer. -/
def resting (s : LpPdat) : Bool :=
  s.state == .idle || s.state == .parse || s.state == .dvfu || s.state == .delay

/-- Either nothing is sent and the lines to the printer stay, or the printer is ready for the
character that is sent. -/
structure Quiet (s s' : LpPdat) : Prop where
  lpStrobe : s'.lpStrobe = false
  lpData : s'.lpData = s.lpData
  lpPi : s'.lpPi = s.lpPi

structure Sends (i : In) (s' : LpPdat) : Prop where
  lpStrobe : s'.lpStrobe = true
  lpDemand : i.lpDemand = true
  resting : s'.resting = false

variable {s : LpPdat} {i : In}

theorem sends_sendEol {pi : Bool} {d : BitVec 8} {state : State} (hdemand : i.lpDemand = true)
    (hstate : (s.sendEol pi d state).resting = false) : Sends i (s.sendEol pi d state) :=
  ⟨rfl, hdemand, hstate⟩

theorem sends_sendCol {d : BitVec 8} {state : State} (hdemand : i.lpDemand = true)
    (hstate : (s.sendCol d state).resting = false) : Sends i (s.sendCol d state) :=
  ⟨rfl, hdemand, hstate⟩

theorem quiet_of_idle (h : s.lpStrobe = false) : Quiet s (s.idle i) := by
  unfold idle
  split
  · split
    · exact ⟨h, rfl, rfl⟩
    · split
      · cases lpOp i.lpRamd i.lpDhld <;> exact ⟨h, rfl, rfl⟩
      · exact ⟨h, rfl, rfl⟩
  · exact ⟨h, rfl, rfl⟩

theorem parse_cases (h : s.lpStrobe = false) :
    Quiet s (s.parse i) ∨ Sends i (s.parse i) := by
  unfold parse
  split
  · exact .inl ⟨h, rfl, rfl⟩
  · split
    · exact .inl ⟨h, rfl, rfl⟩
    · next hdemand =>
        have hready : i.lpDemand = true := by simpa using hdemand
        split
        · exact .inr (sends_sendEol hready rfl)
        · split
          · exact .inr (sends_sendCol hready rfl)
          · split
            · exact .inr (sends_sendEol hready rfl)
            · exact .inr (sends_sendCol hready rfl)

/-- The strobe goes up only when the printer is ready for a character. -/
theorem step_cases (h : s.lpStrobe = false) : Quiet s (s.step i) ∨ Sends i (s.step i) := by
  unfold step
  cases s.state with
  | idle => exact .inl (quiet_of_idle h)
  | parse => exact parse_cases h
  | wrapLf =>
      cases hdemand : i.lpDemand with
      | true => exact .inr (sends_sendEol hdemand rfl)
      | false => exact .inl ⟨h, rfl, rfl⟩
  | wrapCh =>
      cases hdemand : i.lpDemand with
      | true => exact .inr (sends_sendCol hdemand rfl)
      | false => exact .inl ⟨h, rfl, rfl⟩
  | tab =>
      dsimp only
      split
      · exact .inl ⟨h, rfl, rfl⟩
      · split
        · next hdemand => exact .inr (sends_sendCol hdemand rfl)
        · exact .inl ⟨h, rfl, rfl⟩
  | dvfu =>
      cases hdemand : i.lpDemand with
      | true => exact .inr (sends_sendEol hdemand rfl)
      | false => exact .inl ⟨h, rfl, rfl⟩
  | wait => cases i.lpDemand <;> exact .inl ⟨h, rfl, rfl⟩
  | delay => exact .inl ⟨h, rfl, rfl⟩

/-- A machine that comes to rest has waited for the printer. -/
theorem resting_of_step (h : (s.step i).resting = true) :
    s.resting = true ∨ s.state = .wait ∧ i.lpDemand = true := by
  unfold resting at h ⊢
  unfold step at h
  cases hstate : s.state with
  | idle => exact .inl rfl
  | parse => exact .inl rfl
  | dvfu => exact .inl rfl
  | delay => exact .inl rfl
  | wait =>
      cases hdemand : i.lpDemand with
      | true => exact .inr ⟨rfl, rfl⟩
      | false => simp [hstate, hdemand] at h
  | wrapLf =>
      cases hdemand : i.lpDemand <;> simp [hstate, hdemand, sendEol, send] at h
  | wrapCh =>
      cases hdemand : i.lpDemand <;> simp [hstate, hdemand, sendCol, send] at h
  | tab =>
      cases hdemand : i.lpDemand <;> by_cases hzero : s.lpTabCnt = 0#3 <;>
        simp [hstate, hdemand, hzero, sendCol, send] at h

/-- The machine leaves its idle state only for a byte that is to be printed or that belongs to
the vertical format. -/
theorem idle_of_step (hstate : s.state = .idle)
    (h : i.strobe = false ∨
      i.lpModeLdVfu = false ∧ i.lpModePrint = false ∧ i.lpModeTest = false) :
    (s.step i).state = .idle := by
  unfold step idle
  rw [hstate]
  dsimp only
  rcases h with hstrobe | ⟨hvfu, hprint, htest⟩
  · rw [hstrobe, if_neg Bool.false_ne_true, hstate]
  · rw [hvfu, hprint, htest]
    simp [hstate]

end LpPdat

end KS10
