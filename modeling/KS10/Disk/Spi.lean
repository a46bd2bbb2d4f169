import KS10.Clocked.Run
import Mathlib.Tactic.Ring

/-!
# The SPI engine

`SdSpi` is the module SDSPI: it shifts one byte out and one byte in for each
operation `spiTR` and reports the end of the byte by one clock of `spiDONE`.  While it
shifts it ignores every operation.

`SdSpi.remaining` counts the clocks that are left of the byte being shifted.  It falls
by one at every clock whatever the card answers, so that a byte that was started always
ends, after a time that the divisor fixes (`SdSpi.exchange_ends`).
-/

namespace KS10

open Clocked

/-- The operations of the engine. -/
inductive SpiOp where
  | nop
  | csl
  | csh
  | fast
  | slow
  | tr
  deriving DecidableEq

theorem SpiOp.nop_ne_tr : SpiOp.nop ≠ .tr := by decide

theorem SpiOp.csh_ne_tr : SpiOp.csh ≠ .tr := by decide

inductive SdSpi.State where
  | reset
  | idle
  | txh
  | txl
  | txm
  | txn
  deriving DecidableEq

structure SdSpi where
  state : SdSpi.State
  bitcnt : BitVec 3
  txd : BitVec 8
  rxd : BitVec 8
  clkcnt : BitVec 6
  clkdiv : BitVec 6
  spiCS : Bool
  spiDONE : Bool

structure SdSpi.In where
  spiOP : SpiOp
  spiTXD : BitVec 8
  spiMISO : Bool

namespace SdSpi

def slowDiv : BitVec 6 := 63
def fastDiv : BitVec 6 := 1

def reset : SdSpi where
  state := .reset
  bitcnt := 0
  txd := 0xff
  rxd := 0xff
  clkcnt := 0
  clkdiv := slowDiv
  spiCS := true
  spiDONE := false

/-- A new bit enters a shift register from the right. -/
def shiftIn (x : BitVec 8) (b : Bool) : BitVec 8 := x.extractLsb' 0 7 ++ BitVec.ofBool b

/-- One clock of the engine. -/
def next (s : SdSpi) (i : In) : SdSpi :=
  match s.state with
  | .reset => { s with clkdiv := slowDiv, state := .idle }
  | .idle =>
      match i.spiOP with
      | .nop => { s with spiDONE := false }
      | .csl => { s with spiDONE := false, spiCS := false }
      | .csh => { s with spiDONE := false, spiCS := true }
      | .fast => { s with spiDONE := false, clkdiv := fastDiv }
      | .slow => { s with spiDONE := false, clkdiv := slowDiv }
      | .tr =>
          { s with
            spiDONE := false
            clkcnt := s.clkdiv
            bitcnt := 7
            txd := i.spiTXD
            state := .txl }
  | .txl =>
      if s.clkcnt == 0 then
        { s with clkcnt := s.clkdiv, rxd := shiftIn s.rxd i.spiMISO, state := .txh }
      else { s with clkcnt := s.clkcnt - 1 }
  | .txh =>
      if s.clkcnt == 0 then
        if s.bitcnt == 0 then { s with clkcnt := s.clkdiv, state := .txm }
        else
          { s with
            clkcnt := s.clkdiv
            txd := shiftIn s.txd true
            bitcnt := s.bitcnt - 1
            state := .txl }
      else { s with clkcnt := s.clkcnt - 1 }
  | .txm =>
      if s.clkcnt == 0 then { s with clkcnt := s.clkdiv, state := .txn }
      else { s with clkcnt := s.clkcnt - 1 }
  | .txn =>
      if s.clkcnt == 0 then
        { s with clkcnt := s.clkdiv, spiDONE := true, state := .idle }
      else { s with clkcnt := s.clkcnt - 1 }

/-- The data output to the card. -/
def spiMOSI (s : SdSpi) : Bool := s.txd.getLsbD 7

/-! ## The idle engine -/

/-- A byte is being shifted. -/
def shifting (s : SdSpi) : Bool :=
  s.state == .txl || s.state == .txh || s.state == .txm || s.state == .txn

section Idle

variable {s : SdSpi} {i : In}

theorem not_shifting (h : s.state = .idle ∨ s.state = .reset) : s.shifting = false := by
  rcases h with h | h <;> simp [shifting, h]

/-- An idle engine takes the byte it is given. -/
theorem next_tr (hidle : s.state = .idle) (hop : i.spiOP = .tr) :
    (s.next i).shifting = true ∧ (s.next i).spiDONE = false := by
  simp [next, shifting, hidle, hop]

/-- An idle engine that is not given a byte stays idle. -/
theorem next_rest (hidle : s.state = .idle) (hop : i.spiOP ≠ .tr) :
    (s.next i).state = .idle ∧ (s.next i).spiDONE = false := by
  cases hcase : i.spiOP <;> simp [next, hidle, hcase] at hop ⊢

theorem next_csh (hidle : s.state = .idle) (hop : i.spiOP = .csh) :
    (s.next i).spiCS = true := by
  simp [next, hidle, hop]

theorem next_shifting_cs (h : s.shifting = true) : (s.next i).spiCS = s.spiCS := by
  unfold next
  cases hstate : s.state with
  | reset => simp [shifting, hstate] at h
  | idle => simp [shifting, hstate] at h
  | txl => simp only []; split <;> rfl
  | txh => simp only []; split <;> (try split) <;> rfl
  | txm => simp only []; split <;> rfl
  | txn => simp only []; split <;> rfl

/-- Only an operation changes the chip select. -/
theorem next_nop (hop : i.spiOP = .nop) : (s.next i).spiCS = s.spiCS := by
  unfold next
  cases s.state with
  | reset => rfl
  | idle => rw [hop]
  | txl => simp only []; split <;> rfl
  | txh => simp only []; split <;> (try split) <;> rfl
  | txm => simp only []; split <;> rfl
  | txn => simp only []; split <;> rfl

end Idle

/-! ## The time a byte takes -/

/-- The clocks of half a bit. -/
def period (s : SdSpi) : Nat := s.clkdiv.toNat + 1

/-- The clocks that are left of the byte being shifted. -/
def remaining (s : SdSpi) : Nat :=
  match s.state with
  | .txl => s.clkcnt.toNat + 1 + (2 * s.bitcnt.toNat + 3) * s.period
  | .txh => s.clkcnt.toNat + 1 + (2 * s.bitcnt.toNat + 2) * s.period
  | .txm => s.clkcnt.toNat + 1 + s.period
  | .txn => s.clkcnt.toNat + 1
  | .reset => 0
  | .idle => 0

variable {s : SdSpi} {i : In}

theorem toNat_pred {w : Nat} {x : BitVec w} (hx : x ≠ 0#w) :
    (x - 1#w).toNat + 1 = x.toNat := by
  have hpos : x.toNat ≠ 0 := fun h => hx (BitVec.eq_of_toNat_eq h)
  have hle : 1#w ≤ x := by
    rw [BitVec.le_def, BitVec.toNat_ofNat]
    exact (Nat.mod_le 1 (2 ^ w)).trans (Nat.pos_of_ne_zero hpos)
  have hlt := x.isLt
  have hone : 1 % 2 ^ w = 1 := Nat.mod_eq_of_lt (by omega)
  have hsub : (x - 1#w).toNat = x.toNat - (1#w).toNat := BitVec.toNat_sub_of_le hle
  rw [BitVec.toNat_ofNat, hone] at hsub
  omega

/-- Every clock of a byte brings it one clock nearer to its end. -/
theorem remaining_next (h : s.shifting = true) :
    (s.next i).remaining + 1 = s.remaining ∧
    ((s.next i).shifting = true ∧ (s.next i).spiDONE = s.spiDONE ∨
      s.remaining = 1 ∧ (s.next i).state = .idle ∧ (s.next i).spiDONE = true) := by
  cases hstate : s.state with
  | reset => simp [shifting, hstate] at h
  | idle => simp [shifting, hstate] at h
  | txl =>
      by_cases hclk : s.clkcnt = 0#6
      · simp [next, remaining, shifting, period, hstate, hclk]
        ring
      · have hpred := toNat_pred hclk
        simp [next, remaining, shifting, period, hstate, hclk]
        omega
  | txh =>
      by_cases hclk : s.clkcnt = 0#6
      · by_cases hbit : s.bitcnt = 0#3
        · simp [next, remaining, shifting, period, hstate, hclk, hbit]
          ring
        · have hpred := toNat_pred hbit
          simp [next, remaining, shifting, period, hstate, hclk, hbit, -BitVec.toNat_sub]
          rw [← hpred]
          ring
      · have hpred := toNat_pred hclk
        simp [next, remaining, shifting, period, hstate, hclk]
        omega
  | txm =>
      by_cases hclk : s.clkcnt = 0#6
      · simp [next, remaining, shifting, period, hstate, hclk]
        omega
      · have hpred := toNat_pred hclk
        simp [next, remaining, shifting, period, hstate, hclk]
        omega
  | txn =>
      by_cases hclk : s.clkcnt = 0#6
      · simp [next, remaining, shifting, hstate, hclk]
      · have hpred := toNat_pred hclk
        simp [next, remaining, shifting, hstate, hclk]
        omega

theorem remaining_pos (h : s.shifting = true) : 0 < s.remaining := by
  have := (remaining_next (i := { spiOP := .nop, spiTXD := 0, spiMISO := true }) h).1
  omega

theorem remaining_le (s : SdSpi) : s.remaining ≤ 18 * 64 := by
  have hclk := s.clkcnt.isLt
  have hdiv := s.clkdiv.isLt
  have hbit := s.bitcnt.isLt
  have hbound : ∀ k, k ≤ 17 → k * s.period ≤ 17 * 64 := by
    intro k hk
    exact Nat.mul_le_mul hk (by unfold period; omega)
  cases hstate : s.state with
  | reset => simp [remaining, hstate]
  | idle => simp [remaining, hstate]
  | txl =>
      have := hbound (2 * s.bitcnt.toNat + 3) (by omega)
      simp only [remaining, hstate]
      omega
  | txh =>
      have := hbound (2 * s.bitcnt.toNat + 2) (by omega)
      simp only [remaining, hstate]
      omega
  | txm =>
      have := hbound 1 (by omega)
      simp only [remaining, hstate]
      omega
  | txn =>
      simp only [remaining, hstate]
      omega

/-- A byte that is being shifted ends exactly when its clocks have passed. -/
theorem run_shifting (i : Nat → In) :
    ∀ n s, s.shifting = true → s.remaining = n + 1 →
      (∀ k, k ≤ n → (run next s i k).shifting = true) ∧
      (run next s i (n + 1)).state = .idle ∧ (run next s i (n + 1)).spiDONE = true := by
  intro n
  induction n generalizing i with
  | zero =>
      intro s h hrem
      have hend : (s.next (i 0)).state = .idle ∧ (s.next (i 0)).spiDONE = true := by
        obtain ⟨hdown, ⟨hstill, _⟩ | ⟨_, hend⟩⟩ := remaining_next (i := i 0) h
        · have := remaining_pos hstill
          omega
        · exact hend
      refine ⟨?_, hend⟩
      intro k hk
      obtain rfl : k = 0 := Nat.le_zero.mp hk
      exact h
  | succ n ih =>
      intro s h hrem
      obtain ⟨hdown, ⟨hstill, _⟩ | ⟨hlast, _⟩⟩ := remaining_next (i := i 0) h
      · obtain ⟨hbusy, hend⟩ := ih (fun k => i (1 + k)) (s.next (i 0)) hstill (by omega)
        have hshift : ∀ k, run next s i (1 + k) =
            run next (s.next (i 0)) (fun k => i (1 + k)) k := run_add next s i 1
        refine ⟨?_, ?_⟩
        · intro k hk
          cases k with
          | zero => exact h
          | succ k =>
              rw [Nat.add_comm k 1, hshift]
              exact hbusy k (by omega)
        · rw [Nat.add_comm (n + 1) 1, hshift]
          exact hend
      · omega

/-- A byte that was started ends, at most `18 * 64` clocks later. -/
theorem exchange_ends (i : Nat → In) (h : s.shifting = true) :
    ∃ n, n ≤ 18 * 64 ∧ (∀ k, k < n → (run next s i k).shifting = true) ∧
      (run next s i n).state = .idle ∧ (run next s i n).spiDONE = true := by
  have hpos := remaining_pos h
  have hrem : s.remaining = s.remaining - 1 + 1 := by omega
  obtain ⟨hbusy, hend⟩ := run_shifting i (s.remaining - 1) s h hrem
  rw [← hrem] at hend
  exact ⟨s.remaining, s.remaining_le, fun k hk => hbusy k (by omega), hend⟩

end SdSpi

/-! ## The engine as an exchange of bytes -/

/-- What the engine does, seen byte by byte: it takes a byte, is busy for a number of
clocks, and hands over the byte received. -/
structure ByteSpi where
  /-- The byte being sent and the clocks that are left after this one. -/
  byte : Option (BitVec 8 × Nat)
  spiCS : Bool
  spiDONE : Bool
  spiRXD : BitVec 8

/-- `delay` is the time that a byte taken now needs, `reply` the byte received by one
that ends now. -/
structure ByteSpi.In where
  spiOP : SpiOp
  spiTXD : BitVec 8
  delay : Nat
  reply : BitVec 8

/-- The chip select after an operation. -/
def SpiOp.select (op : SpiOp) (cs : Bool) : Bool :=
  match op with
  | .csl => false
  | .csh => true
  | _ => cs

namespace ByteSpi

def next (b : ByteSpi) (i : In) : ByteSpi :=
  match b.byte with
  | none =>
      { b with
        byte := if i.spiOP = .tr then some (i.spiTXD, i.delay) else none
        spiCS := i.spiOP.select b.spiCS
        spiDONE := false }
  | some (_, 0) => { b with byte := none, spiDONE := true, spiRXD := i.reply }
  | some (tx, n + 1) => { b with byte := some (tx, n) }

section

variable {b : ByteSpi} {i : In} {tx : BitVec 8} {n : Nat}

/-- Between two bytes the engine carries out the operations. -/
theorem next_cs (hbyte : b.byte = none) : (b.next i).spiCS = i.spiOP.select b.spiCS := by
  simp only [next, hbyte]

theorem next_rest (hbyte : b.byte = none) (hop : i.spiOP ≠ .tr) :
    (b.next i).byte = none ∧ (b.next i).spiDONE = false := by
  simp only [next, hbyte, if_neg hop, and_self]

theorem next_tr (hbyte : b.byte = none) (hop : i.spiOP = .tr) :
    (b.next i).byte = some (i.spiTXD, i.delay) ∧ (b.next i).spiDONE = false := by
  simp only [next, hbyte, if_pos hop, and_self]

theorem next_last (hbyte : b.byte = some (tx, 0)) :
    (b.next i).byte = none ∧ (b.next i).spiDONE = true ∧ (b.next i).spiRXD = i.reply := by
  simp only [next, hbyte, and_self]

theorem next_wait (hbyte : b.byte = some (tx, n + 1)) :
    (b.next i).byte = some (tx, n) ∧ (b.next i).spiDONE = b.spiDONE := by
  simp only [next, hbyte, and_self]

/-- During a byte no operation is carried out. -/
theorem next_busy (hbyte : b.byte = some (tx, n)) : (b.next i).spiCS = b.spiCS := by
  cases n <;> simp only [next, hbyte]

end

/-- The exchange of bytes that the engine carries out. -/
structure Abstracts (s : SdSpi) (b : ByteSpi) : Prop where
  running : s.state ≠ .reset
  byte : b.byte.map Prod.snd = if s.shifting then some (s.remaining - 1) else none
  cs : b.spiCS = s.spiCS
  done : b.spiDONE = s.spiDONE
  notDone : s.shifting = true → s.spiDONE = false
  rxd : s.spiDONE = true → b.spiRXD = s.rxd

/-- The inputs of the exchange: a byte takes eighteen half bits. -/
def inOf (s : SdSpi) (i : SdSpi.In) : In where
  spiOP := i.spiOP
  spiTXD := i.spiTXD
  delay := 18 * s.period - 1
  reply := (s.next i).rxd

theorem Abstracts.start {s : SdSpi} {b : ByteSpi} {i : SdSpi.In} (h : Abstracts s b)
    (hidle : s.state = .idle) : Abstracts (s.next i) (b.next (inOf s i)) := by
  have hbyte : b.byte = none := by
    have := h.byte
    rw [SdSpi.not_shifting (Or.inl hidle)] at this
    simpa using this
  by_cases hop : i.spiOP = .tr
  · have hb := next_tr (i := inOf s i) hbyte hop
    refine ⟨?_, ?_, ?_, ?_, fun _ => (SdSpi.next_tr hidle hop).2, ?_⟩
    · simp [SdSpi.next, hidle, hop]
    · rw [hb.1]
      simp [SdSpi.next, SdSpi.shifting, SdSpi.remaining, SdSpi.period, inOf, hidle, hop]
      ring_nf
      omega
    · rw [next_cs hbyte, h.cs]
      simp [SdSpi.next, inOf, SpiOp.select, hidle, hop]
    · rw [hb.2]
      simp [SdSpi.next, hidle, hop]
    · simp [SdSpi.next, hidle, hop]
  · have hb := next_rest (i := inOf s i) hbyte hop
    have hs := SdSpi.next_rest hidle hop
    refine ⟨?_, ?_, ?_, ?_, fun _ => hs.2, ?_⟩
    · simp [hs.1]
    · rw [hb.1, SdSpi.not_shifting (Or.inl hs.1)]
      rfl
    · rw [next_cs hbyte, h.cs]
      cases hcase : i.spiOP <;> simp [SdSpi.next, inOf, SpiOp.select, hidle, hcase] at hop ⊢
    · rw [hb.2, hs.2]
    · simp [hs.2]

theorem Abstracts.shift {s : SdSpi} {b : ByteSpi} {i : SdSpi.In} (h : Abstracts s b)
    (hshift : s.shifting = true) : Abstracts (s.next i) (b.next (inOf s i)) := by
  obtain ⟨tx, n, hbyte, hn⟩ : ∃ tx n, b.byte = some (tx, n) ∧ n = s.remaining - 1 := by
    have := h.byte
    rw [hshift, if_pos rfl] at this
    obtain ⟨⟨tx, n⟩, hx, hn⟩ := Option.map_eq_some_iff.mp this
    exact ⟨tx, n, hx, hn⟩
  have hcs : (b.next (inOf s i)).spiCS = (s.next i).spiCS := by
    rw [next_busy hbyte, h.cs, SdSpi.next_shifting_cs hshift]
  obtain ⟨hdown, ⟨hstill, hdone⟩ | ⟨hlast, hidle, hdone⟩⟩ := SdSpi.remaining_next (i := i) hshift
  · have hpos := SdSpi.remaining_pos hstill
    obtain ⟨m, rfl⟩ : ∃ m, n = m + 1 := ⟨n - 1, by omega⟩
    have hb := next_wait (i := inOf s i) hbyte
    rw [h.notDone hshift] at hdone
    refine ⟨?_, ?_, hcs, ?_, fun _ => hdone, ?_⟩
    · intro h0
      rw [SdSpi.not_shifting (Or.inr h0)] at hstill
      cases hstill
    · rw [hb.1, hstill, if_pos rfl]
      exact congrArg some (show m = (s.next i).remaining - 1 by omega)
    · rw [hb.2, hdone, h.done, h.notDone hshift]
    · simp [hdone]
  · obtain rfl : n = 0 := by omega
    have hb := next_last (i := inOf s i) hbyte
    refine ⟨?_, ?_, hcs, ?_, fun h => ?_, ?_⟩
    · simp [hidle]
    · rw [hb.1, SdSpi.not_shifting (Or.inl hidle)]
      rfl
    · rw [hb.2.1, hdone]
    · rw [SdSpi.not_shifting (Or.inl hidle)] at h
      cases h
    · intro _
      exact hb.2.2

/-- The engine carries out the exchange of bytes. -/
theorem Abstracts.next {s : SdSpi} {b : ByteSpi} {i : SdSpi.In} (h : Abstracts s b) :
    Abstracts (s.next i) (b.next (inOf s i)) := by
  cases hstate : s.state with
  | reset => exact absurd hstate h.running
  | idle => exact h.start hstate
  | txl => exact h.shift (by simp [SdSpi.shifting, hstate])
  | txh => exact h.shift (by simp [SdSpi.shifting, hstate])
  | txm => exact h.shift (by simp [SdSpi.shifting, hstate])
  | txn => exact h.shift (by simp [SdSpi.shifting, hstate])

/-- So it does over any run. -/
theorem Abstracts.run {s : SdSpi} {b : ByteSpi} (h : Abstracts s b) (i : Nat → SdSpi.In) (n : Nat) :
    Abstracts (run SdSpi.next s i n)
      (run ByteSpi.next b (fun k => inOf (run SdSpi.next s i k) (i k)) n) := by
  induction n with
  | zero => exact h
  | succ n ih => exact ih.next

end ByteSpi

end KS10
