import Mathlib.Tactic.SplitIfs
import KS10.Uart.Frame

/-!
# The asynchronous receiver

UART_RX looks at the line through two flip-flops.  In the idle state it looks for the start bit,
at every enable of its clock; it looks at the start bit for half a bit, and from then on at
each bit of the frame in its middle.  After the last stop bit it waits for the end of the bit.
-/

namespace KS10

open Uart (Sym)

inductive UartRx.State where
  | idle
  | take (s : Sym)
  | wait
  | done
  deriving DecidableEq

/-- What the receiver holds of a character. -/
structure UartRx.Taken where
  rxReg : BitVec 8
  pare : Bool
  frme : Bool
  ovre : Bool
  deriving DecidableEq

structure UartRx where
  /-- The two flip-flops on the line. -/
  temp : Bool
  din : Bool
  state : UartRx.State
  brdiv : BitVec 4
  taken : UartRx.Taken
  full : Bool
  deriving DecidableEq

namespace UartRx

/-- The inputs of UART_RX at one clock. -/
structure In where
  rst : Bool
  clr : Bool
  clken : Bool
  rxd : Bool
  rfull : Bool

def afterData (c : UartCfg) : State := if c.hasParity then .take .parity else .take .stop1

/-- The state after a bit. -/
def after (c : UartCfg) : Sym → State
  | .start => .take (.bit 0)
  | .bit 0 => .take (.bit 1)
  | .bit 1 => .take (.bit 2)
  | .bit 2 => .take (.bit 3)
  | .bit 3 => .take (.bit 4)
  | .bit 4 => if c.length = 0b00 then afterData c else .take (.bit 5)
  | .bit 5 => if c.length = 0b01 then afterData c else .take (.bit 6)
  | .bit 6 => if c.length = 0b10 then afterData c else .take (.bit 7)
  | .bit 7 => afterData c
  | .parity => .take .stop1
  | .stop1 => if c.stop then .take .stop2 else .wait
  | .stop2 => .wait

/-- The register after a data bit; after the last bit of a short character it is moved down. -/
def shift (length : BitVec 2) (k : Fin 8) (din : Bool) (r : BitVec 8) : BitVec 8 :=
  if k = 4 ∧ length = 0b00 then 0b000#3 ++ (BitVec.ofBool din ++ r.extractLsb' 4 4)
  else if k = 5 ∧ length = 0b01 then 0b00#2 ++ (BitVec.ofBool din ++ r.extractLsb' 3 5)
  else if k = 6 ∧ length = 0b10 then 0b0#1 ++ (BitVec.ofBool din ++ r.extractLsb' 2 6)
  else BitVec.ofBool din ++ r.extractLsb' 1 7

/-- What is taken of a bit in its middle. -/
def sample (c : UartCfg) (b : Sym) (din : Bool) (r : Taken) : Taken :=
  match b with
  | .start => { rxReg := 0, pare := false, frme := false, ovre := false }
  | .bit k => { r with rxReg := shift c.length k din r.rxReg }
  | .parity =>
      { r with
        pare := if c.parity = UartCfg.parEven then din == Uart.xorOf r.rxReg
          else din != Uart.xorOf r.rxReg }
  | .stop1 => { r with frme := !din || r.frme }
  | .stop2 => { r with frme := !din || r.frme }

/-- The rest of the count: half a bit after the last stop bit, and a bit otherwise. -/
def rest (next : State) : BitVec 4 := if next = .wait then 7 else 15

/-- The state machine. -/
def step (s : UartRx) (c : UartCfg) (clken : Bool) : UartRx :=
  match s.state with
  | .idle => if clken && !s.din then { s with state := .take .start, brdiv := 7 } else s
  | .take b =>
      if clken then
        if b = .start ∧ s.din = true then { s with state := .idle }
        else if s.brdiv = 0 then
          { s with taken := sample c b s.din s.taken, brdiv := rest (after c b), state := after c b }
        else { s with brdiv := s.brdiv - 1 }
      else s
  | .wait =>
      if clken then
        if s.brdiv = 0 then { s with state := .done } else { s with brdiv := s.brdiv - 1 }
      else s
  | .done => { s with state := .idle }

def nextFull (s : UartRx) (i : In) : Bool :=
  if i.rst then false
  else if i.rfull || i.clr then false
  else if s.state = .done then true
  else s.full

/-- One clock of UART_RX. -/
def next (s : UartRx) (c : UartCfg) (i : In) : UartRx :=
  { (if i.rst || i.clr then
      { s with brdiv := 0, taken := ⟨0, false, false, false⟩, state := .idle }
    else s.step c i.clken) with
    temp := if i.rst then true else i.rxd
    din := if i.rst then true else s.temp
    full := s.nextFull i }

def intr (s : UartRx) : Bool := s.state == .done

/-! ## The place in the frame -/

/-- The bit of the frame in whose state the receiver is, of the `t` enables since the start bit
was seen. -/
def place (t : Nat) : Nat := (t + 8) / 16

/-- The enables that are left in the state. -/
def left (c : UartCfg) (t : Nat) : Nat :=
  if t < 8 then 7 - t
  else if place t < c.plan.length then 15 - (t + 8) % 16
  else 7 - (t + 8) % 16

/-- The receiver has seen `t` enables since the one at which it saw the start bit. -/
structure At (c : UartCfg) (s : UartRx) (t : Nat) : Prop where
  lt : t < 16 * c.plan.length
  state : s.state = if place t < c.plan.length then .take (c.symAt (place t)) else .wait
  brdiv : s.brdiv.toNat = left c t

theorem after_plan_of : ∀ (length parity : BitVec 2) (stop : Bool) (j : Nat),
    j < (UartCfg.mk length parity stop).plan.length →
      after ⟨length, parity, stop⟩ ((UartCfg.mk length parity stop).symAt j) =
        if j + 1 < (UartCfg.mk length parity stop).plan.length then
          .take ((UartCfg.mk length parity stop).symAt (j + 1))
        else .wait := by
  decide +kernel

/-- The bits come in the order of the frame. -/
theorem after_plan (c : UartCfg) {j : Nat} (hj : j < c.plan.length) :
    after c (c.symAt j) = if j + 1 < c.plan.length then .take (c.symAt (j + 1)) else .wait :=
  after_plan_of c.length c.parity c.stop j hj

variable {c : UartCfg} {s : UartRx} {i : In} {t : Nat}

theorem next_state (hrst : i.rst = false) (hclr : i.clr = false) :
    (s.next c i).state = (s.step c i.clken).state := by
  unfold next
  rw [hrst, hclr, Bool.or_false, if_neg Bool.false_ne_true]

theorem next_brdiv (hrst : i.rst = false) (hclr : i.clr = false) :
    (s.next c i).brdiv = (s.step c i.clken).brdiv := by
  unfold next
  rw [hrst, hclr, Bool.or_false, if_neg Bool.false_ne_true]

theorem next_taken (hrst : i.rst = false) (hclr : i.clr = false) :
    (s.next c i).taken = (s.step c i.clken).taken := by
  unfold next
  rw [hrst, hclr, Bool.or_false, if_neg Bool.false_ne_true]

/-- The receiver keeps its place where its clock is not enabled. -/
theorem At.stay (h : At c s t) : s.step c false = s := by
  have hstate := h.state
  unfold step
  split_ifs at hstate
  all_goals rw [hstate]; rfl

theorem brdiv_pred (h : s.brdiv ≠ 0) : (s.brdiv - 1).toNat = s.brdiv.toNat - 1 := by
  have hne : s.brdiv.toNat ≠ 0 := fun heq => h (BitVec.eq_of_toNat_eq heq)
  have hlt := s.brdiv.isLt
  rw [BitVec.toNat_sub]
  show (16 - 1 + s.brdiv.toNat) % 16 = _
  omega

theorem rest_after (c : UartCfg) {j : Nat} (hj : j < c.plan.length) :
    (rest (after c (c.symAt j))).toNat = if j + 1 < c.plan.length then 15 else 7 := by
  rw [after_plan c hj]
  by_cases hnext : j + 1 < c.plan.length
  · rw [if_pos hnext, if_pos hnext]
    rfl
  · rw [if_neg hnext, if_neg hnext]
    rfl

/-- An enable in a bit takes the bit in its middle.  The start bit must be low up to there. -/
theorem At.take (h : At c s t) (hplace : place t < c.plan.length)
    (hlow : c.symAt (place t) = .start → s.din = false) :
    At c (s.step c true) (t + 1) ∧
      (s.step c true).taken =
        if t % 16 = 7 then sample c (c.symAt (place t)) s.din s.taken else s.taken := by
  have hstate := h.state
  have hbrdiv := h.brdiv
  have hlt : t + 1 < 16 * c.plan.length := by
    unfold place at hplace
    omega
  rw [if_pos hplace] at hstate
  have hguard : ¬ (c.symAt (place t) = .start ∧ s.din = true) := by
    rintro ⟨hstart, hhigh⟩
    rw [hlow hstart] at hhigh
    cases hhigh
  unfold left at hbrdiv
  rw [if_pos hplace] at hbrdiv
  unfold step
  rw [hstate]
  dsimp only
  rw [if_pos rfl, if_neg hguard]
  by_cases hzero : s.brdiv = 0
  · have hmiddle : t % 16 = 7 := by
      rw [hzero] at hbrdiv
      have hnat : (0 : BitVec 4).toNat = 0 := rfl
      split_ifs at hbrdiv <;> omega
    have hnext : place (t + 1) = place t + 1 := by
      unfold place
      omega
    rw [if_pos hzero, if_pos hmiddle]
    refine ⟨⟨hlt, ?_, ?_⟩, rfl⟩
    · rw [hnext]
      exact after_plan c hplace
    · show (rest (after c (c.symAt (place t)))).toNat = left c (t + 1)
      rw [rest_after c hplace]
      unfold left
      rw [hnext, if_neg (show ¬ t + 1 < 8 by omega)]
      split_ifs <;> omega
  · have hne : s.brdiv.toNat ≠ 0 := fun heq => hzero (BitVec.eq_of_toNat_eq heq)
    have hmiddle : t % 16 ≠ 7 := by
      intro heq
      split_ifs at hbrdiv <;> omega
    have hnext : place (t + 1) = place t := by
      unfold place
      omega
    rw [if_neg hzero, if_neg hmiddle]
    refine ⟨⟨hlt, ?_, ?_⟩, rfl⟩
    · rw [hnext, if_pos hplace]
    · show (s.brdiv - 1).toNat = left c (t + 1)
      rw [brdiv_pred hzero, hbrdiv]
      unfold left
      rw [hnext, if_pos hplace]
      split_ifs <;> omega

/-- After the last bit the enables only count. -/
theorem At.wait (h : At c s t) (hplace : ¬ place t < c.plan.length) :
    (s.step c true).taken = s.taken ∧
      (t + 1 < 16 * c.plan.length ∧ At c (s.step c true) (t + 1) ∨
        t + 1 = 16 * c.plan.length ∧ (s.step c true).state = .done) := by
  have hlt := h.lt
  have hstate := h.state
  have hbrdiv := h.brdiv
  rw [if_neg hplace] at hstate
  unfold left at hbrdiv
  rw [if_neg hplace] at hbrdiv
  unfold place at hplace
  rw [if_neg (by omega)] at hbrdiv
  unfold step
  rw [hstate]
  dsimp only
  rw [if_pos rfl]
  by_cases hzero : s.brdiv = 0
  · rw [hzero] at hbrdiv
    have hnat : (0 : BitVec 4).toNat = 0 := rfl
    rw [if_pos hzero]
    exact ⟨rfl, .inr ⟨by omega, rfl⟩⟩
  · have hne : s.brdiv.toNat ≠ 0 := fun heq => hzero (BitVec.eq_of_toNat_eq heq)
    rw [if_neg hzero]
    refine ⟨rfl, .inl ⟨by omega, by omega, ?_, ?_⟩⟩
    · rw [if_neg (by unfold place; omega)]
    · show (s.brdiv - 1).toNat = left c (t + 1)
      rw [brdiv_pred hzero, hbrdiv]
      unfold left
      rw [if_neg (by omega), if_neg (by unfold place; omega)]
      omega

/-- The enable at which the idle receiver sees the line low begins the frame. -/
theorem at_zero (hstate : s.state = .idle) (hlow : s.din = false) : At c (s.step c true) 0 ∧
    (s.step c true).taken = s.taken := by
  have hplace : place 0 < c.plan.length := by
    unfold UartCfg.plan place
    rw [List.length_cons]
    omega
  have hlength : 0 < 16 * c.plan.length := by omega
  unfold step
  rw [hstate, hlow]
  refine ⟨⟨hlength, ?_, rfl⟩, rfl⟩
  rw [if_pos hplace]
  rfl

end UartRx

end KS10
