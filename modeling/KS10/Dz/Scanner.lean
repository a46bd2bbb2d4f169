import KS10.Clocked.Run
import KS10.Uart.Transmitter

/-!
# The transmit scanner of the DZ11

The DZ11 has eight transmitters and one transmit data register.  A scanner looks for a line
that is enabled and whose transmitter is empty, and holds it: the program finds TRDY and the
number of the line, TLINE, in the control and status register, and writes the character.  The
write strobe loads the transmitter that TLINE names.  The scanner goes on when the strobe is
over.

A held line has an empty transmitter (`DzTx.held_run`), and a loaded transmitter is busy for
the shortest frame at least (`UartTx.busy_run`), so a strobe of a bus cycle loads it once
(`DzTx.written_run`).
-/

namespace KS10

open Clocked

/-! ## The transmitter is busy -/

namespace UartTx

open Uart (Sym)

/-- The least number of bits from this one to the end of a frame, whatever the format. -/
def most : Sym → Nat
  | .start => 7
  | .bit k => if k < 4 then 6 - k else 2
  | .parity => 2
  | .stop1 => 1
  | .stop2 => 1

/-- The clocks that the transmitter is busy at least. -/
def left (s : UartTx) : Nat :=
  match s.state with
  | .idle => 0
  | .sync => 114
  | .send b => 16 * (most b - 1) + s.brdiv.toNat + 2
  | .done => 1

/-- The clocks from a load to the next empty state, in the shortest format at the highest
rate. -/
def shortest : Nat := 114

/-- The bits that are left with a state. -/
def mostOf : State → Nat
  | .send b => most b
  | _ => 0

theorem most_bit : ∀ k : Fin 8, 0 < most (.bit k) := by decide

theorem most_pos (b : Sym) : 0 < most b := by
  cases b with
  | bit k => exact most_bit k
  | start | parity | stop1 | stop2 => decide

theorem most_after_bit : ∀ (length parity : BitVec 2) (stop : Bool) (k : Fin 8),
    after ⟨length, parity, stop⟩ (.bit k) ≠ .idle ∧
      after ⟨length, parity, stop⟩ (.bit k) ≠ .sync ∧
      most (.bit k) ≤ mostOf (after ⟨length, parity, stop⟩ (.bit k)) + 1 := by
  decide +kernel

/-- A frame goes on bit by bit. -/
theorem most_after (c : UartCfg) (b : Sym) :
    after c b ≠ .idle ∧ after c b ≠ .sync ∧ most b ≤ mostOf (after c b) + 1 := by
  cases b with
  | start => exact ⟨nofun, nofun, Nat.le_refl 7⟩
  | bit k => exact most_after_bit c.length c.parity c.stop k
  | parity => exact ⟨nofun, nofun, Nat.le_refl 2⟩
  | stop1 =>
      unfold after
      cases c.stop with
      | true => exact ⟨nofun, nofun, Nat.le_succ 1⟩
      | false => exact ⟨nofun, nofun, Nat.le_refl 1⟩
  | stop2 => exact ⟨nofun, nofun, Nat.le_refl 1⟩

variable {s : UartTx} {c : UartCfg} {i : In}

theorem left_send {b : Sym} (h : s.state = .send b) :
    s.left = 16 * (most b - 1) + s.brdiv.toNat + 2 := by
  unfold left
  rw [h]

/-- The next bit has sixteen enables again. -/
theorem left_after (c : UartCfg) (b : Sym) (r : BitVec 8) :
    16 * (most b - 1) + 2 ≤ left { state := after c b, txReg := r, brdiv := 15 } + 1 := by
  obtain ⟨hidle, hsync, hmost⟩ := most_after c b
  have hpos := most_pos b
  cases hafter : after c b with
  | idle => exact absurd hafter hidle
  | sync => exact absurd hafter hsync
  | send b' =>
      have hpos' := most_pos b'
      rw [hafter] at hmost
      change most b ≤ most b' + 1 at hmost
      change _ ≤ 16 * (most b' - 1) + 15 + 2 + 1
      omega
  | done =>
      rw [hafter] at hmost
      change most b ≤ 0 + 1 at hmost
      change _ ≤ 1 + 1
      omega

/-- A clock takes one off at most. -/
theorem left_next (hrst : i.rst = false) (hclr : i.clr = false) :
    s.left ≤ (s.next c i).left + 1 := by
  unfold next
  rw [hrst, hclr, Bool.or_false, if_neg Bool.false_ne_true]
  cases hstate : s.state with
  | idle =>
      have hleft : s.left = 0 := by
        unfold left
        rw [hstate]
      rw [hleft]
      exact Nat.zero_le _
  | done =>
      have hleft : s.left = 1 := by
        unfold left
        rw [hstate]
      rw [hleft]
      exact Nat.le_add_left 1 _
  | sync =>
      have hleft : s.left = 114 := by
        unfold left
        rw [hstate]
      dsimp only
      rw [hleft]
      split
      · exact Nat.le_refl 114
      · rw [hleft]
        exact Nat.le_succ 114
  | send b =>
      have hleft := left_send hstate
      dsimp only
      split
      · split
        · rename_i hzero
          rw [hleft, hzero]
          exact left_after c b s.txReg
        · rename_i hzero
          have hne : s.brdiv.toNat ≠ 0 := fun heq => hzero (BitVec.eq_of_toNat_eq heq)
          rw [hleft]
          change _ ≤ 16 * (most b - 1) + (s.brdiv - 1).toNat + 2 + 1
          bv_omega
      · exact Nat.le_succ _

theorem ne_idle_of_left (h : 0 < s.left) : s.state ≠ .idle := by
  intro hidle
  unfold left at h
  rw [hidle] at h
  cases h

/-- A transmitter that is not empty keeps its character. -/
theorem txReg_next (hrst : i.rst = false) (hclr : i.clr = false) (h : s.state ≠ .idle) :
    (s.next c i).txReg = s.txReg := by
  unfold next
  rw [hrst, hclr, Bool.or_false, if_neg Bool.false_ne_true]
  cases hstate : s.state with
  | idle => exact absurd hstate h
  | sync =>
      dsimp only
      split <;> rfl
  | send b =>
      dsimp only
      split
      · split <;> rfl
      · rfl
  | done => rfl

end UartTx

/-! ## The registers -/

inductive DzCsr.State where
  | scan
  | hold
  | wait
  deriving DecidableEq

/-- The control and status register. -/
structure DzCsr where
  clrCount : BitVec 10
  tie : Bool
  sae : Bool
  rie : Bool
  mse : Bool
  maint : Bool
  scan : Fin 8
  state : DzCsr.State
  tline : Fin 8

/-- The transmit side: the control and status register, the transmit control register and the
transmitters. -/
structure DzTx where
  csr : DzCsr
  tcrDtr : BitVec 8
  tcrLin : BitVec 8
  uart : Fin 8 → UartTx

namespace DzTx

/-- The inputs of one clock.  The formats of the lines and the enables of their clocks come
from the line parameter registers and the bit rate generators. -/
structure In where
  rst : Bool
  devReset : Bool
  devLoByte : Bool
  devHiByte : Bool
  dzDataI : BitVec 36
  csrWrite : Bool
  tcrWrite : Bool
  tdrWrite : Bool
  rbufRdone : Bool
  rbufSa : Bool
  cfg : Fin 8 → UartCfg
  clken : Fin 8 → Bool

/-- Three microseconds are 37.5 clocks, which the source rounds. -/
def csrCnt : BitVec 10 := 38

def csrClr (s : DzTx) : Bool := s.csr.clrCount != 0

def clears (s : DzTx) (i : In) : Bool := s.csrClr || i.devReset

/-- The write strobe of the transmit data register. -/
def strobe (i : In) : Bool := i.tdrWrite && i.devLoByte

def tbuf (i : In) : BitVec 8 := i.dzDataI.extractLsb' 0 8

def uartTxLoad (s : DzTx) (i : In) (n : Fin 8) : Bool := strobe i && n == s.csr.tline

def uartIn (s : DzTx) (i : In) (n : Fin 8) : UartTx.In where
  rst := i.rst
  clr := s.clears i
  clken := i.clken n
  load := s.uartTxLoad i n
  data := tbuf i

def uartTxEmpty (s : DzTx) (i : In) (n : Fin 8) : Bool := (s.uart n).empty (s.uartIn i n)

def lin (s : DzTx) (n : Fin 8) : Bool := s.tcrLin.getLsbD n

def csrTrdy (s : DzTx) : Bool := s.csr.state != .scan

def regCsr (s : DzTx) (i : In) : BitVec 16 :=
  BitVec.ofBool s.csrTrdy ++ BitVec.ofBool s.csr.tie ++ BitVec.ofBool i.rbufSa ++
    BitVec.ofBool s.csr.sae ++ 0#1 ++ BitVec.ofNat 3 s.csr.tline ++ BitVec.ofBool i.rbufRdone ++
    BitVec.ofBool s.csr.rie ++ BitVec.ofBool s.csr.mse ++ BitVec.ofBool s.csrClr ++
    BitVec.ofBool s.csr.maint ++ 0#3

/-! ## One clock -/

/-- The device reset does not stop a count that is running. -/
def nextClrCount (s : DzTx) (i : In) : BitVec 10 :=
  if i.csrWrite && i.devLoByte && i.dzDataI.getLsbD 4 then csrCnt
  else if s.csr.clrCount != 0 then s.csr.clrCount - 1
  else if i.devReset then 0
  else s.csr.clrCount

/-- A bit of the control and status register that a byte of a write loads. -/
def loads (s : DzTx) (i : In) (byte d bit : Bool) : Bool :=
  if s.clears i then false else if i.csrWrite && byte then d else bit

/-- The scanner has found a line that is enabled and whose transmitter is empty. -/
def finds (s : DzTx) (i : In) : Bool :=
  s.csr.mse && s.lin s.csr.scan && s.uartTxEmpty i s.csr.scan

def nextState (s : DzTx) (i : In) : DzCsr.State :=
  if s.clears i then .scan
  else
    match s.csr.state with
    | .scan => if s.finds i then .hold else .scan
    | .hold => if !s.lin s.csr.tline then .scan else if strobe i then .wait else .hold
    | .wait => if !strobe i then .scan else .wait

def nextScan (s : DzTx) (i : In) : Fin 8 :=
  if s.clears i then 0
  else if s.csr.state = .scan && s.csr.mse && !s.finds i then s.csr.scan + 1
  else s.csr.scan

def nextTline (s : DzTx) (i : In) : Fin 8 :=
  if s.clears i then 0
  else if s.csr.state = .scan && s.finds i then s.csr.scan
  else s.csr.tline

def nextCsr (s : DzTx) (i : In) : DzCsr where
  clrCount := s.nextClrCount i
  tie := s.loads i i.devHiByte (i.dzDataI.getLsbD 14) s.csr.tie
  sae := s.loads i i.devHiByte (i.dzDataI.getLsbD 12) s.csr.sae
  rie := s.loads i i.devLoByte (i.dzDataI.getLsbD 6) s.csr.rie
  mse := s.loads i i.devLoByte (i.dzDataI.getLsbD 5) s.csr.mse
  maint := s.loads i i.devLoByte (i.dzDataI.getLsbD 3) s.csr.maint
  scan := s.nextScan i
  state := s.nextState i
  tline := s.nextTline i

/-- The data terminal ready bits are not reset by a clear. -/
def nextDtr (s : DzTx) (i : In) : BitVec 8 :=
  if i.devReset then 0
  else if !s.csrClr && i.tcrWrite && i.devHiByte then i.dzDataI.extractLsb' 8 8
  else s.tcrDtr

def nextLin (s : DzTx) (i : In) : BitVec 8 :=
  if s.clears i then 0
  else if i.tcrWrite && i.devLoByte then i.dzDataI.extractLsb' 0 8
  else s.tcrLin

def resetCsr : DzCsr where
  clrCount := 0
  tie := false
  sae := false
  rie := false
  mse := false
  maint := false
  scan := 0
  state := .scan
  tline := 0

def reset : DzTx where
  csr := resetCsr
  tcrDtr := 0
  tcrLin := 0
  uart := fun _ => { state := .idle, txReg := 0, brdiv := 0 }

/-- One clock of the transmit side. -/
def next (s : DzTx) (i : In) : DzTx where
  csr := if i.rst then resetCsr else s.nextCsr i
  tcrDtr := if i.rst then 0 else s.nextDtr i
  tcrLin := if i.rst then 0 else s.nextLin i
  uart := fun n => (s.uart n).next (i.cfg n) (s.uartIn i n)

variable {s : DzTx} {i : In} {n : Fin 8}

/-! ## The scanner -/

/-- A clock without a reset and without a clear. -/
def calm (s : DzTx) (i : In) : Bool := !i.rst && !s.clears i

theorem calm_iff : s.calm i = true ↔ i.rst = false ∧ s.clears i = false := by
  unfold calm
  rw [Bool.and_eq_true, Bool.not_eq_true', Bool.not_eq_true']

/-- The transmitter of the line takes the character. -/
def takes (s : DzTx) (i : In) (n : Fin 8) : Bool :=
  s.calm i && (s.uart n).state == .idle && s.uartTxLoad i n

theorem state_next (hcalm : s.calm i = true) : (s.next i).csr.state =
    match s.csr.state with
    | .scan => if s.finds i then .hold else .scan
    | .hold => if !s.lin s.csr.tline then .scan else if strobe i then .wait else .hold
    | .wait => if !strobe i then .scan else .wait := by
  obtain ⟨hrst, hclear⟩ := calm_iff.mp hcalm
  change (if i.rst then resetCsr else s.nextCsr i).state = _
  rw [hrst, if_neg Bool.false_ne_true]
  change s.nextState i = _
  unfold nextState
  rw [hclear, if_neg Bool.false_ne_true]

theorem state_of_not_calm (hcalm : s.calm i = false) : (s.next i).csr.state = .scan := by
  change (if i.rst then resetCsr else s.nextCsr i).state = _
  cases hrst : i.rst with
  | true => rfl
  | false =>
      have hclear : s.clears i = true := by
        unfold calm at hcalm
        rwa [hrst, Bool.not_false, Bool.true_and, Bool.not_eq_false'] at hcalm
      rw [if_neg Bool.false_ne_true]
      change s.nextState i = _
      unfold nextState
      rw [hclear, if_pos rfl]

theorem tline_next (hcalm : s.calm i = true) : (s.next i).csr.tline =
    if s.csr.state = .scan && s.finds i then s.csr.scan else s.csr.tline := by
  obtain ⟨hrst, hclear⟩ := calm_iff.mp hcalm
  change (if i.rst then resetCsr else s.nextCsr i).tline = _
  rw [hrst, if_neg Bool.false_ne_true]
  change s.nextTline i = _
  unfold nextTline
  rw [hclear, if_neg Bool.false_ne_true]

/-- A line that is not being scanned for stays. -/
theorem tline_stays (hcalm : s.calm i = true) (hstate : s.csr.state ≠ .scan) :
    (s.next i).csr.tline = s.csr.tline := by
  rw [tline_next hcalm, decide_eq_false hstate, Bool.false_and, if_neg Bool.false_ne_true]

/-- The scanner waits only after a clock of the strobe. -/
theorem strobe_of_wait (h : (s.next i).csr.state = .wait) : strobe i = true := by
  cases hcalm : s.calm i with
  | false =>
      rw [state_of_not_calm hcalm] at h
      cases h
  | true =>
      rw [state_next hcalm] at h
      cases hstrobe : strobe i with
      | true => rfl
      | false =>
          rw [hstrobe] at h
          cases hstate : s.csr.state with
          | scan =>
              rw [hstate] at h
              dsimp only at h
              split at h <;> cases h
          | hold =>
              rw [hstate] at h
              dsimp only at h
              split at h <;> cases h
          | wait =>
              rw [hstate] at h
              cases h

/-! ## The transmitters -/

theorem uart_next_idle (h : (s.uart n).state = .idle) (hload : s.uartTxLoad i n = false) :
    ((s.next i).uart n).state = .idle := by
  change ((s.uart n).next (i.cfg n) (s.uartIn i n)).state = _
  unfold UartTx.next
  split
  · rfl
  · rw [h]
    change (if s.uartTxLoad i n then _ else s.uart n).state = _
    rw [hload, if_neg Bool.false_ne_true]
    exact h

theorem uartIn_calm (hcalm : s.calm i = true) (n : Fin 8) :
    (s.uartIn i n).rst = false ∧ (s.uartIn i n).clr = false := calm_iff.mp hcalm

/-- A load begins a frame. -/
theorem uart_next_load (h : s.takes i n = true) :
    ((s.next i).uart n).left = UartTx.shortest ∧ ((s.next i).uart n).txReg = tbuf i := by
  unfold takes at h
  rw [Bool.and_eq_true, Bool.and_eq_true, beq_iff_eq] at h
  obtain ⟨⟨hcalm, hidle⟩, hload⟩ := h
  obtain ⟨hrst, hclr⟩ := uartIn_calm hcalm n
  have hload' : (s.uartIn i n).load = true := hload
  have hnext : (s.next i).uart n = { s.uart n with txReg := tbuf i, state := .sync } := by
    change (s.uart n).next (i.cfg n) (s.uartIn i n) = _
    rw [UartTx.next_idle hrst hclr hidle, hload', if_pos rfl]
    rfl
  rw [hnext]
  exact ⟨rfl, rfl⟩

theorem empty_iff : s.uartTxEmpty i n = true ↔
    (s.uart n).state = .idle ∧ s.uartTxLoad i n = false := by
  unfold uartTxEmpty UartTx.empty
  rw [Bool.and_eq_true, beq_iff_eq, Bool.not_eq_true']
  rfl

/-! ## The held line -/

/-- The transmitter of a held line is empty. -/
def Held (s : DzTx) : Prop := s.csr.state = .hold → (s.uart s.csr.tline).state = .idle

theorem Held.next (h : s.Held) (i : In) : (s.next i).Held := by
  intro hhold
  cases hcalm : s.calm i with
  | false =>
      rw [state_of_not_calm hcalm] at hhold
      cases hhold
  | true =>
      rw [state_next hcalm] at hhold
      rw [tline_next hcalm]
      cases hstate : s.csr.state with
      | scan =>
          rw [hstate] at hhold
          dsimp only at hhold
          cases hfinds : s.finds i with
          | false =>
              rw [hfinds, if_neg Bool.false_ne_true] at hhold
              cases hhold
          | true =>
              rw [decide_eq_true rfl, Bool.true_and, if_pos rfl]
              have hempty : s.uartTxEmpty i s.csr.scan = true := by
                unfold finds at hfinds
                rw [Bool.and_eq_true] at hfinds
                exact hfinds.2
              obtain ⟨hidle, hload⟩ := empty_iff.mp hempty
              exact uart_next_idle hidle hload
      | hold =>
          rw [hstate] at hhold
          dsimp only at hhold
          cases hstrobe : strobe i with
          | true =>
              rw [hstrobe] at hhold
              split at hhold <;> cases hhold
          | false =>
              rw [decide_eq_false nofun, Bool.false_and, if_neg Bool.false_ne_true]
              refine uart_next_idle (h hstate) ?_
              unfold uartTxLoad
              rw [hstrobe, Bool.false_and]
      | wait =>
          rw [hstate] at hhold
          dsimp only at hhold
          split at hhold <;> cases hhold

theorem held_run (i : Nat → In) (t : Nat) : (run next reset i t).Held :=
  run_invariant (P := Held) (fun h => absurd h (by decide)) (fun _ i h => h.next i) i t

/-! ## One character -/

/-- The processor finds line `n` ready in a read of the control and status register at clock
`r + 1`, when the write strobe has been over for a clock, and writes a character from clock
`w` to clock `e`.  The line stays enabled up to the write, and there is no clear.  The strobe
is over before the frame could be. -/
structure Writes (s : Nat → DzTx) (i : Nat → In) (n : Fin 8) (r w e : Nat) : Prop where
  ready : (s (r + 1)).csrTrdy = true
  line : (s (r + 1)).csr.tline = n
  quiet : ∀ t, r ≤ t → t < w → strobe (i t) = false
  begins : r < w
  strobe : ∀ t, w ≤ t → t ≤ e → strobe (i t) = true
  ends : w ≤ e
  short : e ≤ w + UartTx.shortest
  enabled : ∀ t, r < t → t ≤ w → (s t).lin n = true
  calm : ∀ t, r < t → t ≤ e → (s t).calm (i t) = true

/-- The transmitter of the line was empty and takes the character, once, and no other
transmitter takes it.  It keeps the character until it has been sent. -/
structure Written (s : Nat → DzTx) (i : Nat → In) (n : Fin 8) (w e : Nat) : Prop where
  empty : ((s w).uart n).state = .idle
  once : ∀ t k, w ≤ t → t ≤ e → ((s t).takes (i t) k = true ↔ t = w ∧ k = n)
  keeps : ∀ u, w < u →
    (∀ t, w < t → t < u → (s t).calm (i t) = true ∧ ((s t).uart n).state ≠ .idle) →
    ((s u).uart n).txReg = tbuf (i w)

variable {i : Nat → In} {r w e : Nat}

/-- The line is held from the read to the write. -/
theorem Writes.held (h : Writes (run next reset i) i n r w e) {t : Nat} (hrt : r < t)
    (htw : t ≤ w) :
    (run next reset i t).csr.state = .hold ∧ (run next reset i t).csr.tline = n := by
  induction t, hrt using Nat.le_induction with
  | base =>
      refine ⟨?_, h.line⟩
      have hready := h.ready
      unfold csrTrdy at hready
      cases hstate : (run next reset i (r + 1)).csr.state with
      | scan =>
          rw [hstate] at hready
          cases hready
      | hold => rfl
      | wait =>
          -- The strobe was down in the clock before.
          have hstrobe := strobe_of_wait hstate
          rw [h.quiet r (Nat.le_refl r) h.begins] at hstrobe
          cases hstrobe
  | succ t hrt ih =>
      obtain ⟨hstate, hline⟩ := ih (Nat.le_of_succ_le htw)
      have hends := h.ends
      have hcalm := h.calm t hrt (by omega)
      have hlin := h.enabled t hrt (by omega)
      have hstrobe := h.quiet t (by omega) htw
      constructor
      · rw [run_succ, state_next hcalm, hstate]
        dsimp only
        rw [hline, hlin, hstrobe]
        rfl
      · rw [run_succ, tline_stays hcalm (by rw [hstate]; exact nofun)]
        exact hline

/-- The scanner waits for the end of the strobe. -/
theorem Writes.waits (h : Writes (run next reset i) i n r w e) {t : Nat} (hwt : w < t)
    (hte : t ≤ e) :
    (run next reset i t).csr.state = .wait ∧ (run next reset i t).csr.tline = n := by
  have hbegins := h.begins
  induction t, hwt using Nat.le_induction with
  | base =>
      obtain ⟨hstate, hline⟩ := h.held hbegins (Nat.le_refl w)
      have hcalm := h.calm w hbegins h.ends
      constructor
      · rw [run_succ, state_next hcalm, hstate]
        dsimp only
        rw [hline, h.enabled w hbegins (Nat.le_refl w), h.strobe w (Nat.le_refl w) h.ends]
        rfl
      · rw [run_succ, tline_stays hcalm (by rw [hstate]; exact nofun)]
        exact hline
  | succ t hwt ih =>
      obtain ⟨hstate, hline⟩ := ih (Nat.le_of_succ_le hte)
      have hcalm := h.calm t (by omega) (by omega)
      constructor
      · rw [run_succ, state_next hcalm, hstate]
        dsimp only
        rw [h.strobe t (by omega) (by omega)]
        rfl
      · rw [run_succ, tline_stays hcalm (by rw [hstate]; exact nofun)]
        exact hline

theorem Writes.tline (h : Writes (run next reset i) i n r w e) {t : Nat} (hwt : w ≤ t)
    (hte : t ≤ e) : (run next reset i t).csr.tline = n := by
  rcases Nat.lt_or_eq_of_le hwt with hlt | rfl
  · exact (h.waits hlt hte).2
  · exact (h.held h.begins (Nat.le_refl w)).2

theorem Writes.takes (h : Writes (run next reset i) i n r w e) :
    ((run next reset i w).uart n).state = .idle ∧
      (run next reset i w).takes (i w) n = true := by
  obtain ⟨hstate, hline⟩ := h.held h.begins (Nat.le_refl w)
  have hidle := held_run i w hstate
  rw [hline] at hidle
  refine ⟨hidle, ?_⟩
  unfold DzTx.takes uartTxLoad
  rw [h.calm w h.begins h.ends, hidle, h.strobe w (Nat.le_refl w) h.ends, hline,
    beq_self_eq_true, beq_self_eq_true]
  rfl

/-- The transmitter is busy as long as the strobe can be up. -/
theorem Writes.busy (h : Writes (run next reset i) i n r w e) {k : Nat} (hk : w + 1 + k ≤ e) :
    UartTx.shortest ≤ ((run next reset i (w + 1 + k)).uart n).left + k := by
  induction k with
  | zero => exact Nat.le_of_eq (uart_next_load h.takes.2).1.symm
  | succ k ih =>
      have hbegins := h.begins
      have hcalm := h.calm (w + 1 + k) (by omega) (by omega)
      obtain ⟨hrst, hclr⟩ := uartIn_calm hcalm n
      have hstep : ((run next reset i (w + 1 + k)).uart n).left ≤
          ((run next reset i (w + 1 + (k + 1))).uart n).left + 1 := UartTx.left_next hrst hclr
      have hold := ih (by omega)
      omega

/-- A character that is written to a line that was found ready goes into the transmitter of
that line, which was empty, and nowhere else. -/
theorem written_run (h : Writes (run next reset i) i n r w e) :
    Written (run next reset i) i n w e := by
  obtain ⟨hidle, htakes⟩ := h.takes
  refine ⟨hidle, fun t k hwt hte => ?_, fun u hwu hbusy => ?_⟩
  · constructor
    · intro ht
      have hparts := ht
      unfold DzTx.takes uartTxLoad at hparts
      rw [Bool.and_eq_true, Bool.and_eq_true, Bool.and_eq_true, beq_iff_eq, beq_iff_eq,
        h.tline hwt hte] at hparts
      obtain ⟨⟨-, hempty⟩, -, rfl⟩ := hparts
      refine ⟨?_, rfl⟩
      rcases Nat.lt_or_eq_of_le hwt with hlt | rfl
      · obtain ⟨j, rfl⟩ : ∃ j, t = w + 1 + j := ⟨t - (w + 1), by omega⟩
        have hleft := h.busy hte
        have hshort := h.short
        exact absurd hempty (UartTx.ne_idle_of_left (by omega))
      · rfl
    · rintro ⟨rfl, rfl⟩
      exact htakes
  · induction u, hwu using Nat.le_induction with
    | base => exact (uart_next_load htakes).2
    | succ u hwu ih =>
        obtain ⟨hcalm, hne⟩ := hbusy u hwu (Nat.lt_succ_self u)
        obtain ⟨hrst, hclr⟩ := uartIn_calm hcalm n
        rw [← ih fun t hwt htu => hbusy t hwt (Nat.lt_succ_of_lt htu)]
        exact UartTx.txReg_next hrst hclr hne

/-- The program sets the master scan enable, enables line 1, and writes a character from clock
22 to clock 24. -/
def writingA (t : Nat) : In where
  rst := false
  devReset := false
  devLoByte := true
  devHiByte := false
  dzDataI := if t = 0 then 0o40 else if t = 1 then 0b10 else 0x41
  csrWrite := t == 0
  tcrWrite := t == 1
  tdrWrite := decide (22 ≤ t) && decide (t ≤ 24)
  rbufRdone := false
  rbufSa := false
  cfg := fun _ => ⟨0b11, 0b00, false⟩
  clken := fun _ => true

theorem writes_writingA : Writes (run next reset writingA) writingA 1 19 22 24 := by
  have hquiet : ∀ t, t < 22 → 19 ≤ t → DzTx.strobe (writingA t) = false := by decide +kernel
  have hstrobe : ∀ t, t < 25 → 22 ≤ t → DzTx.strobe (writingA t) = true := by decide +kernel
  have henabled : ∀ t, t < 23 → 19 < t → (run next reset writingA t).lin 1 = true := by
    decide +kernel
  have hcalm : ∀ t, t < 25 → 19 < t → (run next reset writingA t).calm (writingA t) = true := by
    decide +kernel
  exact
    { ready := by decide +kernel
      line := by decide +kernel
      quiet := fun t hr hw => hquiet t hw hr
      begins := by decide
      strobe := fun t hw he => hstrobe t (Nat.lt_succ_of_le he) hw
      ends := by decide
      short := by decide
      enabled := fun t hr hw => henabled t (Nat.lt_succ_of_le hw) hr
      calm := fun t hr he => hcalm t (Nat.lt_succ_of_le he) hr }

/-- The character goes into the transmitter of line 1. -/
theorem written_run_one :
    ((run next reset writingA 30).uart 1).txReg = 0x41 ∧
      Written (run next reset writingA) writingA 1 22 24 :=
  ⟨by decide +kernel, written_run writes_writingA⟩

end DzTx

end KS10
