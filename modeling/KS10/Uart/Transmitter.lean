import KS10.Uart.Frame

/-!
# The asynchronous transmitter

UART_TX holds every bit of the frame for sixteen enables of its clock.  It waits for the first
enable after the load, and goes through `DONE` after the last stop bit.
-/

namespace KS10

open Uart (Sym)

inductive UartTx.State where
  | idle
  | sync
  | send (s : Sym)
  | done
  deriving DecidableEq

structure UartTx where
  state : UartTx.State
  txReg : BitVec 8
  brdiv : BitVec 4
  deriving DecidableEq

namespace UartTx

/-- The inputs of UART_TX at one clock. -/
structure In where
  rst : Bool
  clr : Bool
  clken : Bool
  load : Bool
  data : BitVec 8

def afterData (c : UartCfg) : State := if c.hasParity then .send .parity else .send .stop1

/-- The state after a bit. -/
def after (c : UartCfg) : Sym → State
  | .start => .send (.bit 0)
  | .bit 0 => .send (.bit 1)
  | .bit 1 => .send (.bit 2)
  | .bit 2 => .send (.bit 3)
  | .bit 3 => .send (.bit 4)
  | .bit 4 => if c.length = 0b00 then afterData c else .send (.bit 5)
  | .bit 5 => if c.length = 0b01 then afterData c else .send (.bit 6)
  | .bit 6 => if c.length = 0b10 then afterData c else .send (.bit 7)
  | .bit 7 => afterData c
  | .parity => .send .stop1
  | .stop1 => if c.stop then .send .stop2 else .done
  | .stop2 => .done

/-- One clock of UART_TX. -/
def next (s : UartTx) (c : UartCfg) (i : In) : UartTx :=
  if i.rst || i.clr then { state := .idle, txReg := 0, brdiv := 0 }
  else
    match s.state with
    | .idle => if i.load then { s with txReg := i.data, state := .sync } else s
    | .sync => if i.clken then { s with brdiv := 15, state := .send .start } else s
    | .send b =>
        if i.clken then
          if s.brdiv = 0 then { s with brdiv := 15, state := after c b }
          else { s with brdiv := s.brdiv - 1 }
        else s
    | .done => { s with state := .idle }

/-- A bit of the frame of a character. -/
def txBit (c : UartCfg) (d : BitVec 8) : Sym → Bool
  | .start => false
  | .bit k => d.getLsbD k
  | .parity => if c.parity = UartCfg.parEven then Uart.xorOf d else !Uart.xorOf d
  | .stop1 => true
  | .stop2 => true

def txd (s : UartTx) (c : UartCfg) : Bool :=
  match s.state with
  | .send b => txBit c s.txReg b
  | _ => true

def empty (s : UartTx) (i : In) : Bool := s.state == .idle && !i.load

/-! ## The place in the frame -/

/-- The transmitter has seen `t` enables since the beginning of the frame. -/
structure At (c : UartCfg) (s : UartTx) (t : Nat) : Prop where
  lt : t < 16 * c.plan.length
  state : s.state = .send (c.symAt (t / 16))
  brdiv : s.brdiv.toNat = 15 - t % 16

/-- The transmitter sends no bit of a frame. -/
def out (s : UartTx) : Bool := s.state == .idle || s.state == .sync || s.state == .done

theorem after_plan_of : ∀ (length parity : BitVec 2) (stop : Bool) (j : Nat),
    j < (UartCfg.mk length parity stop).plan.length →
      after ⟨length, parity, stop⟩ ((UartCfg.mk length parity stop).symAt j) =
        if j + 1 < (UartCfg.mk length parity stop).plan.length then
          .send ((UartCfg.mk length parity stop).symAt (j + 1))
        else .done := by
  decide +kernel

/-- The bits come in the order of the frame. -/
theorem after_plan (c : UartCfg) {j : Nat} (hj : j < c.plan.length) :
    after c (c.symAt j) = if j + 1 < c.plan.length then .send (c.symAt (j + 1)) else .done :=
  after_plan_of c.length c.parity c.stop j hj

variable {c : UartCfg} {s : UartTx} {i : In} {t : Nat}

theorem next_idle (hrst : i.rst = false) (hclr : i.clr = false) (hstate : s.state = .idle) :
    s.next c i = if i.load then { s with txReg := i.data, state := .sync } else s := by
  unfold next
  rw [hrst, hclr, hstate]
  rfl

theorem next_sync (hrst : i.rst = false) (hclr : i.clr = false) (hclken : i.clken = false)
    (hstate : s.state = .sync) : s.next c i = s := by
  unfold next
  rw [hrst, hclr, hstate, hclken]
  rfl

theorem next_done (hrst : i.rst = false) (hclr : i.clr = false) (hstate : s.state = .done) :
    (s.next c i).state = .idle := by
  unfold next
  rw [hrst, hclr, hstate]
  rfl

theorem At.stay (h : At c s t) (hrst : i.rst = false) (hclr : i.clr = false)
    (hclken : i.clken = false) : s.next c i = s := by
  unfold next
  rw [hrst, hclr, h.state, hclken]
  rfl

/-- An enable takes the transmitter one place on, or to the end of the frame. -/
theorem At.next (h : At c s t) (hrst : i.rst = false) (hclr : i.clr = false)
    (hclken : i.clken = true) : (s.next c i).txReg = s.txReg ∧
      (t + 1 < 16 * c.plan.length ∧ At c (s.next c i) (t + 1) ∨
        t + 1 = 16 * c.plan.length ∧ (s.next c i).state = .done) := by
  have hlt := h.lt
  have hbrdiv := h.brdiv
  unfold UartTx.next
  rw [hrst, hclr, h.state, hclken, Bool.or_false, if_neg Bool.false_ne_true]
  dsimp only
  rw [if_pos rfl]
  by_cases hzero : s.brdiv = 0
  · rw [hzero] at hbrdiv
    have hmod : t % 16 = 15 := by
      have hnat : (0 : BitVec 4).toNat = 0 := rfl
      omega
    rw [if_pos hzero, after_plan c (by omega)]
    refine ⟨rfl, ?_⟩
    by_cases hlast : t / 16 + 1 < c.plan.length
    · refine .inl ⟨by omega, by omega, ?_, ?_⟩
      · rw [if_pos hlast]
        have hdiv : (t + 1) / 16 = t / 16 + 1 := by omega
        rw [hdiv]
      · show 15 = 15 - (t + 1) % 16
        omega
    · refine .inr ⟨by omega, ?_⟩
      rw [if_neg hlast]
  · have hne : s.brdiv.toNat ≠ 0 := fun heq => hzero (BitVec.eq_of_toNat_eq heq)
    have hpred : (s.brdiv - 1).toNat = s.brdiv.toNat - 1 := by
      have hlt' := s.brdiv.isLt
      rw [BitVec.toNat_sub]
      show (16 - 1 + s.brdiv.toNat) % 16 = _
      omega
    rw [if_neg hzero]
    refine ⟨rfl, .inl ⟨by omega, by omega, ?_, ?_⟩⟩
    · have hdiv : (t + 1) / 16 = t / 16 := by omega
      rw [hdiv]
    · show (s.brdiv - 1).toNat = _
      omega

/-- The line in the frame. -/
theorem At.txd (h : At c s t) : s.txd c = txBit c s.txReg (c.symAt (t / 16)) := by
  unfold UartTx.txd
  rw [h.state]

/-- The frame begins with the first enable after the load. -/
theorem at_zero (hrst : i.rst = false) (hclr : i.clr = false) (hclken : i.clken = true)
    (hstate : s.state = .sync) : At c (s.next c i) 0 ∧ (s.next c i).txReg = s.txReg := by
  unfold next
  rw [hrst, hclr, hstate, hclken]
  refine ⟨⟨?_, rfl, rfl⟩, rfl⟩
  unfold UartCfg.plan
  rw [List.length_cons]
  omega

end UartTx

end KS10
