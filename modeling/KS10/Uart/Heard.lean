import KS10.Uart.Transmitter
import KS10.Uart.Receiver

/-!
# What is heard of a character

One bit of the frame may be inverted on the line.  The receiver takes every bit of the frame
once, in the order of the frame, so what it holds in the end is a fold along the frame
(`heard_eq`).

The data are the ones on the line, masked to the length.  The parity error is the wrong way
round in the receiver: it is flagged for a frame as it was sent, and not for a frame with an
inverted bit.  The transmitter makes up the parity of all eight bits of the character, and a
character that has an odd number of ones among its unsent bits turns this around once more.
-/

namespace KS10

open Uart (Sym)

/-- A character that is sent, and the bit of its frame that is inverted on the line. -/
structure UartSent where
  data : BitVec 8
  hit : Option Sym
  deriving DecidableEq

namespace UartSent

/-- The bits that the claimed detection is about are the data bits and the parity bit, in a
frame with parity. -/
def Legal (c : UartCfg) (p : UartSent) : Prop :=
  ∀ b, p.hit = some b → c.hasParity = true ∧ (b = .parity ∨ ∃ k : Fin 8, k.val < c.bits ∧ b = .bit k)

/-- The bit on the line. -/
def lineBit (c : UartCfg) (p : UartSent) (b : Sym) : Bool :=
  UartTx.txBit c p.data b ^^ decide (p.hit = some b)

/-- The data bits on the line. -/
def onLine (p : UartSent) : BitVec 8 :=
  match p.hit with
  | some (.bit k) => p.data ^^^ (1#8 <<< k.val)
  | _ => p.data

/-- What the receiver reports of the frame. -/
def heard (c : UartCfg) (p : UartSent) : UartRx.Taken where
  rxReg := c.masked p.onLine
  pare := c.hasParity && (Uart.xorOf (c.unsent p.data) == p.hit.isSome)
  frme := false
  ovre := false

/-- The report is right: a frame as it was sent is reported with its data and without an error,
and an inverted bit is reported as a parity error. -/
structure Right (c : UartCfg) (p : UartSent) (r : UartRx.Taken) : Prop where
  clean : p.hit = none → r.rxReg = c.masked p.data ∧ r.pare = false ∧ r.frme = false
  inverted : p.hit ≠ none → r.pare = true

/-- The receiver takes a bit from the line. -/
def hears (c : UartCfg) (p : UartSent) (r : UartRx.Taken) (b : Sym) : UartRx.Taken :=
  UartRx.sample c b (p.lineBit c b) r

/-- The receiver holds this after `j` bits of the frame. -/
def taken (c : UartCfg) (p : UartSent) (j : Nat) : UartRx.Taken :=
  (c.plan.take j).foldl (p.hears c) ⟨0, false, false, false⟩

variable {c : UartCfg} {p : UartSent}

theorem taken_succ {j : Nat} (hj : j < c.plan.length) : p.taken c (j + 1) =
    UartRx.sample c (c.symAt j) (p.lineBit c (c.symAt j)) (p.taken c j) := by
  have hget : c.symAt j = c.plan[j] := by
    unfold UartCfg.symAt
    rw [List.getD_eq_getElem?_getD, List.getElem?_eq_getElem hj]
    rfl
  unfold taken
  rw [List.take_succ_eq_append_getElem hj, List.foldl_append, hget]
  rfl

/-- The start bit clears what was there before. -/
theorem sample_start (r : UartRx.Taken) (din : Bool) :
    UartRx.sample c (c.symAt 0) din r = p.taken c 1 := rfl

/-! ## The line -/

/-- The start bit and the stop bits are as they were sent. -/
theorem lineBit_frame (h : p.Legal c) {b : Sym} (hparity : b ≠ .parity)
    (hbit : ∀ k, b ≠ .bit k) : p.lineBit c b = UartTx.txBit c p.data b := by
  have hne : p.hit ≠ some b := by
    intro hhit
    obtain ⟨-, heq | ⟨k, -, heq⟩⟩ := h b hhit
    · exact hparity heq
    · exact hbit k heq
  unfold lineBit
  rw [decide_eq_false hne, Bool.xor_false]

theorem getLsbD_flip (d : BitVec 8) (k j : Fin 8) :
    (d ^^^ (1#8 <<< k.val)).getLsbD j = (d.getLsbD j ^^ decide (k = j)) := by
  rw [← BitVec.twoPow_eq, BitVec.getLsbD_xor, BitVec.getLsbD_twoPow, decide_eq_true k.isLt,
    Bool.true_and, decide_eq_decide.mpr Fin.ext_iff.symm]

theorem lineBit_bit (k : Fin 8) : p.lineBit c (.bit k) = p.onLine.getLsbD k := by
  unfold lineBit onLine UartTx.txBit
  cases p.hit with
  | none => simp
  | some b =>
      cases b with
      | bit j =>
          dsimp only
          rw [getLsbD_flip]
          simp
      | start => simp
      | parity => simp
      | stop1 => simp
      | stop2 => simp

/-! ## The data -/

/-- The data bits of the frame leave the masked data in the register. -/
theorem shift_data : ∀ (length : BitVec 2) (d : BitVec 8),
    ((List.finRange 8).take (5 + length.toNat)).foldl
        (fun r k => UartRx.shift length k (d.getLsbD k) r) 0 =
      d &&& ((1 <<< (5 + length.toNat)) - 1) := by
  decide +kernel

theorem foldl_bits (ks : List (Fin 8)) (r : UartRx.Taken) :
    (ks.map Sym.bit).foldl (p.hears c) r =
      { r with
        rxReg := ks.foldl (fun r k => UartRx.shift c.length k (p.onLine.getLsbD k) r) r.rxReg } := by
  induction ks generalizing r with
  | nil => rfl
  | cons k ks ih =>
      rw [List.map_cons, List.foldl_cons, ih]
      unfold hears
      rw [lineBit_bit]
      rfl

/-! ## The parity -/

theorem xor_pairs (a b c d : Bool) : (a ^^ b ^^ (c ^^ d)) = (a ^^ c ^^ (b ^^ d)) := by
  revert a b c d
  decide

theorem xorOf_xor (d e : BitVec 8) : Uart.xorOf (d ^^^ e) = (Uart.xorOf d ^^ Uart.xorOf e) := by
  unfold Uart.xorOf
  simp only [BitVec.getLsbD_xor]
  rw [xor_pairs _ (d.getLsbD 7) _ (e.getLsbD 7), xor_pairs _ (d.getLsbD 6) _ (e.getLsbD 6),
    xor_pairs _ (d.getLsbD 5) _ (e.getLsbD 5), xor_pairs _ (d.getLsbD 4) _ (e.getLsbD 4),
    xor_pairs _ (d.getLsbD 3) _ (e.getLsbD 3), xor_pairs _ (d.getLsbD 2) _ (e.getLsbD 2),
    xor_pairs _ (d.getLsbD 1) _ (e.getLsbD 1)]

theorem masked_xor (d e : BitVec 8) : c.masked (d ^^^ e) = c.masked d ^^^ c.masked e := by
  unfold UartCfg.masked
  apply BitVec.eq_of_getLsbD_eq
  intro j _
  rw [BitVec.getLsbD_and, BitVec.getLsbD_xor, BitVec.getLsbD_xor, BitVec.getLsbD_and,
    BitVec.getLsbD_and, Bool.and_xor_distrib_right]

theorem xorOf_parts_of : ∀ (length : BitVec 2) (d : BitVec 8),
    (Uart.xorOf d ^^ Uart.xorOf (d &&& ((1 <<< (5 + length.toNat)) - 1))) =
      Uart.xorOf (d >>> (5 + length.toNat)) := by
  decide +kernel

theorem xorOf_parts (c : UartCfg) (d : BitVec 8) :
    (Uart.xorOf d ^^ Uart.xorOf (c.masked d)) = Uart.xorOf (c.unsent d) :=
  xorOf_parts_of c.length d

theorem xorOf_one_of : ∀ (length : BitVec 2) (k : Fin 8), k.val < 5 + length.toNat →
    Uart.xorOf ((1#8 <<< k.val) &&& ((1 <<< (5 + length.toNat)) - 1)) = true := by
  decide +kernel

/-- A data bit that is inverted changes the parity of the data. -/
theorem xorOf_flip (c : UartCfg) (d : BitVec 8) {k : Fin 8} (hk : k.val < c.bits) :
    Uart.xorOf (c.masked (d ^^^ (1#8 <<< k.val))) = !Uart.xorOf (c.masked d) := by
  rw [masked_xor, xorOf_xor]
  have hone : Uart.xorOf (c.masked (1#8 <<< k.val)) = true := xorOf_one_of c.length k hk
  rw [hone, Bool.xor_true]

/-- The parity bit on the line against the parity of the data on the line. -/
theorem parity_even (h : p.Legal c) (hparity : c.parity = UartCfg.parEven) :
    (p.lineBit c .parity == Uart.xorOf (c.masked p.onLine)) =
      (Uart.xorOf (c.unsent p.data) == p.hit.isSome) := by
  rw [← xorOf_parts]
  unfold lineBit UartTx.txBit onLine
  rw [if_pos hparity]
  cases hhit : p.hit with
  | none => cases Uart.xorOf p.data <;> cases Uart.xorOf (c.masked p.data) <;> rfl
  | some b =>
      obtain ⟨-, rfl | ⟨k, hk, rfl⟩⟩ := h b hhit
      · cases Uart.xorOf p.data <;> cases Uart.xorOf (c.masked p.data) <;> rfl
      · dsimp only
        rw [xorOf_flip c p.data hk]
        cases Uart.xorOf p.data <;> cases Uart.xorOf (c.masked p.data) <;> rfl

theorem parity_odd (h : p.Legal c) (hparity : c.parity ≠ UartCfg.parEven) :
    (p.lineBit c .parity != Uart.xorOf (c.masked p.onLine)) =
      (Uart.xorOf (c.unsent p.data) == p.hit.isSome) := by
  rw [← xorOf_parts]
  unfold lineBit UartTx.txBit onLine
  rw [if_neg hparity]
  cases hhit : p.hit with
  | none => cases Uart.xorOf p.data <;> cases Uart.xorOf (c.masked p.data) <;> rfl
  | some b =>
      obtain ⟨-, rfl | ⟨k, hk, rfl⟩⟩ := h b hhit
      · cases Uart.xorOf p.data <;> cases Uart.xorOf (c.masked p.data) <;> rfl
      · dsimp only
        rw [xorOf_flip c p.data hk]
        cases Uart.xorOf p.data <;> cases Uart.xorOf (c.masked p.data) <;> rfl

/-! ## The frame -/

/-- The stop bits change nothing. -/
theorem foldl_stops (h : p.Legal c) (data : BitVec 8) (pare : Bool) :
    (Sym.stop1 :: if c.stop = true then [Sym.stop2] else []).foldl (p.hears c)
      ⟨data, pare, false, false⟩ = ⟨data, pare, false, false⟩ := by
  have hstop1 : p.lineBit c .stop1 = true := lineBit_frame h (by decide) (by decide)
  have hstop2 : p.lineBit c .stop2 = true := lineBit_frame h (by decide) (by decide)
  have hone : p.hears c ⟨data, pare, false, false⟩ .stop1 = ⟨data, pare, false, false⟩ := by
    unfold hears
    rw [hstop1]
    rfl
  have htwo : p.hears c ⟨data, pare, false, false⟩ .stop2 = ⟨data, pare, false, false⟩ := by
    unfold hears
    rw [hstop2]
    rfl
  rw [List.foldl_cons, hone]
  by_cases hstop : c.stop = true
  · rw [if_pos hstop, List.foldl_cons, htwo, List.foldl_nil]
  · rw [if_neg hstop, List.foldl_nil]

theorem foldl_parity (h : p.Legal c) :
    (if c.hasParity = true then [Sym.parity] else []).foldl (p.hears c)
      ⟨c.masked p.onLine, false, false, false⟩ = p.heard c := by
  unfold heard
  cases hhas : c.hasParity with
  | false => rfl
  | true =>
      show UartRx.Taken.mk _ _ _ _ = _
      by_cases heven : c.parity = UartCfg.parEven
      · rw [if_pos heven, parity_even h heven]
        rfl
      · rw [if_neg heven, parity_odd h heven]
        rfl

/-- What the receiver holds at the end of the frame. -/
theorem heard_eq (h : p.Legal c) : p.taken c c.plan.length = p.heard c := by
  have hdata : ((List.finRange 8).take c.bits).foldl
      (fun r k => UartRx.shift c.length k (p.onLine.getLsbD k) r) 0 = c.masked p.onLine :=
    shift_data c.length p.onLine
  have hbits : (((List.finRange 8).take c.bits).map Sym.bit).foldl (p.hears c)
      ⟨0, false, false, false⟩ = ⟨c.masked p.onLine, false, false, false⟩ := by
    rw [foldl_bits]
    exact congrArg (UartRx.Taken.mk · false false false) hdata
  unfold taken
  rw [List.take_length]
  unfold UartCfg.plan
  rw [List.foldl_cons, List.foldl_append, List.foldl_append]
  have hstart : p.hears c ⟨0, false, false, false⟩ .start = ⟨0, false, false, false⟩ := rfl
  rw [hstart, hbits, foldl_parity h]
  exact foldl_stops h _ _

/-- The report of a frame is right exactly if there is no parity, or if the character has an
odd number of ones among its unsent bits. -/
theorem right_iff (h : p.Legal c) :
    p.Right c (p.heard c) ↔ (c.hasParity = true → Uart.xorOf (c.unsent p.data) = true) := by
  constructor
  · intro hright hhas
    by_cases hhit : p.hit = none
    · obtain ⟨-, hpare, -⟩ := hright.clean hhit
      unfold heard at hpare
      rw [hhas, hhit] at hpare
      simpa using hpare
    · have hpare := hright.inverted hhit
      unfold heard at hpare
      obtain ⟨b, hb⟩ := Option.ne_none_iff_exists'.mp hhit
      rw [hhas, hb] at hpare
      simpa using hpare
  · intro hodd
    refine ⟨fun hhit => ⟨?_, ?_, rfl⟩, fun hhit => ?_⟩
    · unfold heard onLine
      rw [hhit]
    · show (c.hasParity && _) = false
      rw [hhit]
      cases hhas : c.hasParity with
      | false => rfl
      | true =>
          rw [hodd hhas]
          rfl
    · obtain ⟨b, hb⟩ := Option.ne_none_iff_exists'.mp hhit
      have hhas := (h b hb).1
      show (c.hasParity && _) = true
      rw [hhas, hodd hhas, hb]
      rfl

end UartSent

end KS10
