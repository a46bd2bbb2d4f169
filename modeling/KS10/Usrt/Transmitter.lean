import KS10.Clocked.Stuffing
import Mathlib.Data.List.Range

/-!
# The synchronous transmitter

USRT_TX shifts a character out, least significant bit first.  With zero-bit insertion it
puts a zero after five ones in a row, and the count of the ones runs on from one
character to the next.  The transmitter has no buffer: after the last bit it is done for a
clock and idle for at least one more, until the next character is loaded.
-/

namespace KS10

open Clocked

inductive UsrtTx.State where
  | idle
  | send
  | done
  deriving DecidableEq

structure UsrtTx where
  crcen : Bool
  txZbi : Bool
  txLen : BitVec 3
  txDat : BitVec 8
  count : BitVec 3
  state : UsrtTx.State
  deriving DecidableEq

namespace UsrtTx

/-- The inputs of USRT_TX at one clock. -/
structure In where
  rst : Bool
  clr : Bool
  clken : Bool
  abort : Bool
  flag : Bool
  data : BitVec 8
  zbi : Bool
  load : Bool

def charFlag : BitVec 8 := 0b01111110
def charAbort : BitVec 8 := 0b11111111

/-! ## One clock -/

def clear : UsrtTx :=
  { crcen := true, txZbi := false, txLen := 7, txDat := 0, count := 0, state := .idle }

/-- The serial data. -/
def txd (s : UsrtTx) : Bool := s.txDat.getLsbD 0

/-- The last bit of the message. -/
def last (s : UsrtTx) : Bool := s.txLen == 0

def empty (s : UsrtTx) (i : In) : Bool := s.state == .idle && !i.load

def nextCount (s : UsrtTx) (i : In) : BitVec 3 :=
  if i.clken then if s.txd then s.count + 1 else 0 else s.count

/-- The fifth one is on the line. -/
def stuffs (s : UsrtTx) : Bool := s.count == 4 && s.txd && s.txZbi

/-- The shift register and its state, without the reset. -/
def step (s : UsrtTx) (i : In) : UsrtTx :=
  match s.state with
  | .idle =>
      if i.load then
        if i.abort then { s with txZbi := false, txDat := charAbort, txLen := 7, state := .send }
        else if i.flag then { s with txZbi := false, txDat := charFlag, txLen := 7, state := .send }
        else { s with txZbi := i.zbi, txDat := i.data, txLen := 7, state := .send }
      else s
  | .send =>
      if i.clken then
        if s.stuffs then { s with crcen := false, txDat := s.txDat &&& 0xfe }
        else
          { s with
            crcen := true
            txLen := s.txLen - 1
            txDat := s.txDat >>> 1
            state := if s.last then .done else .send }
      else s
  | .done => { s with state := .idle }

/-- One clock of USRT_TX. -/
def next (s : UsrtTx) (i : In) : UsrtTx :=
  if i.rst || i.clr then clear else { s.step i with count := s.nextCount i }

/-! ## What is on the line -/

/-- What is sent for the bits of a character, after `c` ones: the bit on the line, and
whether it belongs to the character. -/
def symbols (zbi : Bool) : BitVec 3 → List Bool → List (Bool × Bool)
  | _, [] => []
  | c, b :: l =>
      if c == 4 && b && zbi then (b, true) :: (false, false) :: symbols zbi 0 l
      else (b, true) :: symbols zbi (if b then c + 1 else 0) l

/-- The count after the bits of a character. -/
def countAfter (zbi : Bool) : BitVec 3 → List Bool → BitVec 3
  | c, [] => c
  | c, b :: l =>
      if c == 4 && b && zbi then countAfter zbi 0 l
      else countAfter zbi (if b then c + 1 else 0) l

/-- The lowest bits of a character, the least significant one first. -/
def lowBits (d : BitVec 8) (n : Nat) : List Bool := (List.range n).map d.getLsbD

/-- The bits of the character that are left. -/
def bits (s : UsrtTx) : List Bool := lowBits s.txDat (s.txLen.toNat + 1)

/-- What the character has still to bring to the line, from the present bit on. -/
def pending (s : UsrtTx) : List (Bool × Bool) :=
  match s.state with
  | .send =>
      if s.crcen then symbols s.txZbi s.count s.bits
      else (false, false) :: symbols s.txZbi 0 s.bits.tail
  | .idle | .done => []

/-- The count that the character will leave. -/
def leaves (s : UsrtTx) : BitVec 3 :=
  match s.state with
  | .send =>
      if s.crcen then countAfter s.txZbi s.count s.bits
      else countAfter s.txZbi 0 s.bits.tail
  | .idle | .done => s.count

/-- The CRC is stopped exactly while an inserted zero is on the line. -/
def Marked (s : UsrtTx) : Prop :=
  s.crcen = false → s.state = .send ∧ s.txd = false ∧ s.count ≠ 4

variable {s : UsrtTx} {i : In}

theorem symbols_cons (zbi : Bool) (c : BitVec 3) (b : Bool) (l : List Bool) :
    symbols zbi c (b :: l) =
      if c == 4 && b && zbi then (b, true) :: (false, false) :: symbols zbi 0 l
      else (b, true) :: symbols zbi (if b then c + 1 else 0) l := rfl

theorem countAfter_cons (zbi : Bool) (c : BitVec 3) (b : Bool) (l : List Bool) :
    countAfter zbi c (b :: l) =
      if c == 4 && b && zbi then countAfter zbi 0 l
      else countAfter zbi (if b then c + 1 else 0) l := rfl

theorem length_lowBits (d : BitVec 8) (n : Nat) : (lowBits d n).length = n := by
  unfold lowBits
  rw [List.length_map, List.length_range]

theorem lowBits_succ (d : BitVec 8) (n : Nat) :
    lowBits d (n + 1) = d.getLsbD 0 :: lowBits (d >>> 1) n := by
  unfold lowBits
  rw [List.range_succ_eq_map, List.map_cons, List.map_map]
  congr 1
  apply List.map_congr_left
  intro k _
  rw [BitVec.getLsbD_ushiftRight, Nat.add_comm 1 k]
  rfl

theorem bits_eq (s : UsrtTx) : s.bits = s.txd :: lowBits (s.txDat >>> 1) s.txLen.toNat :=
  lowBits_succ _ _

/-- The inserted zero takes the place of the bit that was sent, and the others stay. -/
theorem tail_bits_stuffed (d : BitVec 8) (n : Nat) :
    (lowBits (d &&& 0xfe) (n + 1)).tail = lowBits (d >>> 1) n := by
  rw [lowBits_succ, List.tail_cons]
  have hshift : (d &&& 0xfe) >>> 1 = d >>> 1 := by
    apply BitVec.eq_of_getLsbD_eq
    intro k hk
    rw [BitVec.getLsbD_ushiftRight, BitVec.getLsbD_ushiftRight, BitVec.getLsbD_and]
    have hall : ∀ k, k < 8 → (0xfe : BitVec 8).getLsbD (1 + k) = decide (1 + k < 8) := by decide
    rw [hall k hk]
    by_cases hlt : 1 + k < 8
    · simp [hlt]
    · simp [hlt, BitVec.getLsbD_of_ge d (1 + k) (by omega)]
  rw [hshift]

/-! ## Steps -/

/-- Without a reset. -/
def Runs (i : In) : Prop := i.rst = false ∧ i.clr = false

theorem next_of_runs (h : Runs i) : s.next i = { s.step i with count := s.nextCount i } := by
  unfold next
  rw [h.1, h.2]
  rfl

/-- A clock without an enable leaves a character that is sent as it is. -/
theorem next_of_held (h : Runs i) (hsend : s.state = .send) (hen : i.clken = false) :
    s.next i = s := by
  rw [next_of_runs h]
  unfold step nextCount
  rw [hsend, hen]
  rfl

theorem pending_of_send (hsend : s.state = .send) :
    s.pending = if s.crcen then symbols s.txZbi s.count s.bits
      else (false, false) :: symbols s.txZbi 0 s.bits.tail := by
  unfold pending
  rw [hsend]

theorem leaves_of_send (hsend : s.state = .send) :
    s.leaves = if s.crcen then countAfter s.txZbi s.count s.bits
      else countAfter s.txZbi 0 s.bits.tail := by
  unfold leaves
  rw [hsend]

/-- The first symbol that is pending is the one on the line. -/
theorem pending_head (hmark : s.Marked) (hsend : s.state = .send) :
    ∃ rest, s.pending = (s.txd, s.crcen) :: rest := by
  unfold pending
  rw [hsend]
  cases hcrc : s.crcen with
  | false =>
      rw [(hmark hcrc).2.1]
      exact ⟨_, rfl⟩
  | true =>
      show ∃ rest, symbols s.txZbi s.count s.bits = _
      rw [bits_eq]
      unfold symbols
      split
      · exact ⟨_, rfl⟩
      · exact ⟨_, rfl⟩

/-- The clock that puts a zero on the line. -/
theorem next_of_stuffs (h : Runs i) (hsend : s.state = .send) (hen : i.clken = true)
    (hstuff : s.stuffs = true) :
    s.next i = { s with crcen := false, txDat := s.txDat &&& 0xfe, count := 5 } := by
  have hcount : s.count = 4 ∧ s.txd = true := by
    unfold stuffs at hstuff
    rw [Bool.and_eq_true, Bool.and_eq_true, beq_iff_eq] at hstuff
    exact hstuff.1
  have hfive : s.nextCount i = 5 := by
    unfold nextCount
    rw [hen, hcount.1, hcount.2]
    rfl
  rw [next_of_runs h, hfive]
  unfold step
  rw [hsend, hen, hstuff]
  rfl

/-- The clock that puts the next bit on the line. -/
theorem next_of_shifts (h : Runs i) (hsend : s.state = .send) (hen : i.clken = true)
    (hstuff : s.stuffs = false) :
    s.next i =
      { s with
        crcen := true
        txLen := s.txLen - 1
        txDat := s.txDat >>> 1
        count := if s.txd then s.count + 1 else 0
        state := if s.last then .done else .send } := by
  rw [next_of_runs h]
  unfold step nextCount
  rw [hsend, hen, hstuff]
  rfl

/-- The bits of the next clock, if there is one. -/
theorem bits_shift (hlast : s.last = false) :
    lowBits (s.txDat >>> 1) ((s.txLen - 1).toNat + 1) = lowBits (s.txDat >>> 1) s.txLen.toNat := by
  have hlen : (s.txLen - 1).toNat + 1 = s.txLen.toNat := by
    unfold last at hlast
    rw [beq_eq_false_iff_ne] at hlast
    revert hlast
    generalize s.txLen = n
    revert n
    decide
  rw [hlen]

/-- Unless a zero is inserted, the bits that are left follow the one on the line. -/
theorem pending_of_shifts (hmark : s.Marked) (hsend : s.state = .send)
    (hstuff : s.stuffs = false) :
    s.pending = (s.txd, s.crcen) ::
        symbols s.txZbi (if s.txd then s.count + 1 else 0)
          (lowBits (s.txDat >>> 1) s.txLen.toNat) ∧
      s.leaves = countAfter s.txZbi (if s.txd then s.count + 1 else 0)
        (lowBits (s.txDat >>> 1) s.txLen.toNat) := by
  unfold pending leaves
  rw [hsend, bits_eq]
  cases hcrc : s.crcen with
  | false =>
      rw [(hmark hcrc).2.1]
      exact ⟨rfl, rfl⟩
  | true =>
      show symbols _ _ (_ :: _) = _ ∧ countAfter _ _ (_ :: _) = _
      unfold stuffs at hstuff
      rw [symbols_cons, countAfter_cons, hstuff, if_neg Bool.false_ne_true,
        if_neg Bool.false_ne_true]
      exact ⟨rfl, rfl⟩

/-- The next bit is on the line, or the character is done. -/
theorem next_pending_of_shifts (h : Runs i) (hsend : s.state = .send) (hen : i.clken = true)
    (hstuff : s.stuffs = false) :
    (s.next i).pending = symbols s.txZbi (if s.txd then s.count + 1 else 0)
        (lowBits (s.txDat >>> 1) s.txLen.toNat) ∧
      (s.next i).leaves = countAfter s.txZbi (if s.txd then s.count + 1 else 0)
        (lowBits (s.txDat >>> 1) s.txLen.toNat) := by
  rw [next_of_shifts h hsend hen hstuff]
  cases hlast : s.last with
  | true =>
      have hlen : s.txLen = 0 := beq_iff_eq.mp hlast
      rw [hlen]
      exact ⟨rfl, rfl⟩
  | false =>
      rw [← bits_shift hlast]
      exact ⟨rfl, rfl⟩

/-- An enabled clock takes one symbol off what is pending. -/
theorem pending_next (h : Runs i) (hmark : s.Marked) (hsend : s.state = .send)
    (hen : i.clken = true) :
    s.pending = (s.txd, s.crcen) :: (s.next i).pending ∧ (s.next i).leaves = s.leaves ∧
      (s.next i).Marked := by
  cases hstuff : s.stuffs with
  | false =>
      obtain ⟨hpend, hleave⟩ := pending_of_shifts hmark hsend hstuff
      obtain ⟨hpend', hleave'⟩ := next_pending_of_shifts h hsend hen hstuff
      refine ⟨hpend.trans (congrArg _ hpend'.symm), hleave'.trans hleave.symm, fun hcrc => ?_⟩
      rw [next_of_shifts h hsend hen hstuff] at hcrc
      cases hcrc
  | true =>
      have hfive : s.count = 4 ∧ s.txd = true ∧ s.txZbi = true := by
        unfold stuffs at hstuff
        rw [Bool.and_eq_true, Bool.and_eq_true, beq_iff_eq] at hstuff
        exact ⟨hstuff.1.1, hstuff.1.2, hstuff.2⟩
      have hcrc : s.crcen = true := by
        rw [← Bool.not_eq_false]
        exact fun hcrc => (hmark hcrc).2.2 hfive.1
      have hpend : s.pending = (true, true) :: (false, false) ::
          symbols true 0 (lowBits (s.txDat >>> 1) s.txLen.toNat) := by
        unfold pending
        rw [hsend, bits_eq, hcrc, hfive.1, hfive.2.1, hfive.2.2]
        rfl
      have hleave : s.leaves = countAfter true 0 (lowBits (s.txDat >>> 1) s.txLen.toNat) := by
        unfold leaves
        rw [hsend, bits_eq, hcrc, hfive.1, hfive.2.1, hfive.2.2]
        rfl
      rw [next_of_stuffs h hsend hen hstuff, hpend, hleave, hcrc, hfive.2.1]
      have hcount : (5 : BitVec 3) ≠ 4 := by decide
      refine ⟨?_, ?_, fun _ => ⟨hsend, ?_, hcount⟩⟩
      · unfold pending bits
        rw [hsend, hfive.2.2, tail_bits_stuffed]
        rfl
      · unfold leaves bits
        rw [hsend, hfive.2.2, tail_bits_stuffed]
        rfl
      · show (s.txDat &&& 0xfe).getLsbD 0 = false
        rw [BitVec.getLsbD_and]
        simp

/-! ## Characters -/

theorem pending_of_loaded (hsend : s.state = .send) (hcrc : s.crcen = true)
    (hlen : s.txLen = 7) :
    s.pending = symbols s.txZbi s.count (lowBits s.txDat 8) ∧
      s.leaves = countAfter s.txZbi s.count (lowBits s.txDat 8) := by
  have height : (7 : BitVec 3).toNat + 1 = 8 := rfl
  rw [pending_of_send hsend, leaves_of_send hsend, hcrc, if_pos rfl, if_pos rfl, bits, hlen,
    height]
  exact ⟨rfl, rfl⟩

/-- The load of a character into the idle transmitter. -/
theorem next_of_load (h : Runs i) (hidle : s.state = .idle) (hen : i.clken = false)
    (hload : i.load = true) (habort : i.abort = false) :
    s.next i =
      { s with
        txZbi := !i.flag && i.zbi
        txDat := if i.flag then charFlag else i.data
        txLen := 7
        state := .send } := by
  rw [next_of_runs h]
  unfold step nextCount
  rw [hidle, hen, hload, habort]
  cases i.flag with
  | true => rfl
  | false => rfl

/-- A load makes all bits of the character pending. -/
theorem pending_load (h : Runs i) (hidle : s.state = .idle) (hcrc : s.crcen = true)
    (hen : i.clken = false) (hload : i.load = true) (habort : i.abort = false) :
    (s.next i).pending = symbols (!i.flag && i.zbi) s.count
        (lowBits (if i.flag then charFlag else i.data) 8) ∧
      (s.next i).leaves = countAfter (!i.flag && i.zbi) s.count
        (lowBits (if i.flag then charFlag else i.data) 8) := by
  have hnext := next_of_load h hidle hen hload habort
  have hloaded := pending_of_loaded (s := s.next i) (by rw [hnext]) (by rw [hnext]; exact hcrc)
    (by rw [hnext])
  rw [hnext] at hloaded ⊢
  exact hloaded

/-- A clock in which nothing is loaded and no bit is due leaves what is pending, and the
count, as they are. -/
theorem pending_of_not_send (h : Runs i) (hnot : s.state ≠ .send) (hen : i.clken = false)
    (hload : s.state = .idle → i.load = false) :
    (s.next i).state = .idle ∧ (s.next i).leaves = s.leaves ∧ (s.next i).crcen = s.crcen := by
  rw [next_of_runs h]
  unfold step nextCount leaves
  rw [hen]
  cases hs : s.state with
  | send => exact absurd hs hnot
  | idle =>
      rw [hload hs, if_neg Bool.false_ne_true, if_neg Bool.false_ne_true]
      simp [hs]
  | done => simp

theorem pending_of_ne_send (hnot : s.state ≠ .send) :
    s.pending = [] ∧ s.leaves = s.count := by
  unfold pending leaves
  cases hs : s.state with
  | send => exact absurd hs hnot
  | idle => exact ⟨rfl, rfl⟩
  | done => exact ⟨rfl, rfl⟩

/-! ## Zero-bit insertion -/

/-- Without zero-bit insertion a character is sent as it is. -/
theorem symbols_false (c : BitVec 3) (l : List Bool) : symbols false c l = l.map (·, true) := by
  induction l generalizing c with
  | nil => rfl
  | cons b l ih =>
      rw [symbols_cons, Bool.and_false, if_neg Bool.false_ne_true, ih]
      rfl

/-- A flag leaves no ones behind. -/
theorem countAfter_flag (c : BitVec 3) : countAfter false c (lowBits charFlag 8) = 0 := by
  revert c
  decide

/-- The transmitter inserts zeros as the sender of the abstract message does. -/
theorem symbols_eq_insert {c : BitVec 3} (hc : c.toNat < 5) (l : List Bool) :
    symbols true c l = Stuffing.insert 5 c.toNat l ∧
      (countAfter true c l).toNat = Stuffing.ones 5 c.toNat l := by
  induction l generalizing c with
  | nil => exact ⟨rfl, rfl⟩
  | cons b l ih =>
      rw [symbols_cons, countAfter_cons]
      show _ = (if Stuffing.succ c.toNat b = 5 then _ else _) ∧
        _ = Stuffing.ones 5 (Stuffing.step 5 c.toNat b) l
      unfold Stuffing.step
      cases b with
      | false =>
          obtain ⟨hsym, hcount⟩ := ih (c := 0) (by decide)
          rw [Bool.and_false, Bool.false_and, if_neg Bool.false_ne_true,
            if_neg Bool.false_ne_true, if_neg Bool.false_ne_true]
          exact ⟨congrArg _ hsym, hcount⟩
      | true =>
          by_cases hfour : c = 4
          · obtain ⟨hsym, hcount⟩ := ih (c := 0) (by decide)
            subst hfour
            exact ⟨congrArg (fun l => (true, true) :: (false, false) :: l) hsym, hcount⟩
          · have hne : (c == 4 && true && true) = false := by
              rw [beq_eq_false_iff_ne.mpr hfour]
              rfl
            have hnat : c.toNat + 1 ≠ 5 := by bv_omega
            have hsucc : (c + 1).toNat = c.toNat + 1 := by bv_omega
            obtain ⟨hsym, hcount⟩ := ih (c := c + 1) (by omega)
            rw [hsucc] at hsym hcount
            rw [hne, if_neg Bool.false_ne_true, if_neg Bool.false_ne_true, if_pos rfl]
            show _ = (if c.toNat + 1 = 5 then _ else _) ∧
              _ = Stuffing.ones 5 (if c.toNat + 1 = 5 then _ else _) l
            rw [if_neg hnat, if_neg hnat]
            exact ⟨congrArg _ hsym, hcount⟩

end UsrtTx

end KS10
