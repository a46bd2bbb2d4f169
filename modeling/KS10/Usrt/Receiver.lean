import KS10.Clocked.Stuffing
import KS10.Usrt.Transmitter

/-!
# The synchronous receiver

USRT_RX shifts every bit into a status register, in which it finds flags and abort
characters, and every bit but the inserted zeros into a data register.  It counts ones to
find the inserted zeros, and bits to find the ends of the characters; a flag starts the
count of the bits.

What holds between an opening flag and the bits that follow it is `UsrtRx.Clean`: the
count of the ones is the length of the run that the status register ends with, and no run
is long enough for a flag or an abort character.
-/

namespace KS10

open Clocked

structure UsrtRx where
  stat : BitVec 16
  data : BitVec 8
  special : Bool
  ones : BitVec 4
  bitcnt : BitVec 3
  valid : Bool
  deriving DecidableEq

namespace UsrtRx

/-- The inputs of USRT_RX at one clock. -/
structure In where
  rst : Bool
  clr : Bool
  clken : Bool
  decmode : Bool
  rxd : Bool
  synchr : BitVec 8

/-! ## Outputs -/

def flag (s : UsrtRx) : Bool := s.stat.extractLsb' 8 8 == 0b01111110

/-- The pattern has seven ones and is extended by a zero. -/
def abort (s : UsrtRx) : Bool := s.stat.extractLsb' 8 8 == 0b1111111

def decsyn (s : UsrtRx) (i : In) : Bool := s.stat == i.synchr ++ i.synchr

/-- Zero-bit delete. -/
def zbd (s : UsrtRx) (i : In) : Bool := !i.decmode && !s.special && s.ones == 5

def sync (s : UsrtRx) (i : In) : Bool := if i.decmode then s.decsyn i else s.flag

def full (s : UsrtRx) : Bool := s.valid && s.bitcnt == 0

def crcen (s : UsrtRx) (i : In) : Bool := !s.zbd i

/-! ## One clock -/

def nextStat (s : UsrtRx) (i : In) : BitVec 16 :=
  if i.rst || i.clr then 0
  else if i.clken then BitVec.ofBool i.rxd ++ s.stat.extractLsb' 1 15
  else s.stat

def nextData (s : UsrtRx) (i : In) : BitVec 8 :=
  if i.rst || i.clr then 0
  else if i.clken && !s.zbd i then BitVec.ofBool i.rxd ++ s.data.extractLsb' 1 7
  else s.data

def nextSpecial (s : UsrtRx) (i : In) : Bool :=
  if i.rst then false else if i.clken then s.flag || s.abort else s.special

def nextOnes (s : UsrtRx) (i : In) : BitVec 4 :=
  if i.rst || i.clr then 0
  else if i.clken then if i.rxd then s.ones + 1 else 0
  else s.ones

def nextBitcnt (s : UsrtRx) (i : In) : BitVec 3 :=
  if i.rst then 0
  else if i.clken then if s.sync i then 1 else if s.zbd i then s.bitcnt else s.bitcnt + 1
  else s.bitcnt

def nextValid (s : UsrtRx) (i : In) : Bool :=
  if i.rst || i.clr then false else if i.clken && s.sync i then true else s.valid

/-- The registers after a reset. -/
def reset : UsrtRx :=
  { stat := 0, data := 0, special := false, ones := 0, bitcnt := 0, valid := false }

/-- One clock of USRT_RX. -/
def next (s : UsrtRx) (i : In) : UsrtRx where
  stat := s.nextStat i
  data := s.nextData i
  special := s.nextSpecial i
  ones := s.nextOnes i
  bitcnt := s.nextBitcnt i
  valid := s.nextValid i

/-! ## What is received -/

/-- The inputs of an enabled clock in SDLC mode. -/
def bitIn (synchr : BitVec 8) (b : Bool) : In where
  rst := false
  clr := false
  clken := true
  decmode := false
  rxd := b
  synchr := synchr

/-- The receiver takes a bit from the line. -/
def recv (synchr : BitVec 8) (s : UsrtRx) (b : Bool) : UsrtRx := s.next (bitIn synchr b)

/-- The SDLC receiver deletes the next bit. -/
def deletes (s : UsrtRx) : Bool := !s.special && s.ones == 5

inductive Event where
  | flag
  | abort
  | byte (d : BitVec 8)
  deriving DecidableEq

/-- What the outputs report from one clock to the next.  A byte is there when the full
flag rises. -/
def events (s s' : UsrtRx) : List Event :=
  (if s'.full && !s.full then [.byte s'.data] else []) ++ (if s'.flag then [.flag] else [])
    ++ (if s'.abort then [.abort] else [])

/-- A bit that the receiver takes: whether the CRC is enabled at the transmitter and at the
receiver, and what the receiver reports. -/
structure Sample where
  bit : Bool
  txCrcen : Bool
  rxCrcen : Bool
  events : List Event
  deriving DecidableEq

def sample (synchr : BitVec 8) (s : UsrtRx) (sym : Bool × Bool) : Sample where
  bit := sym.1
  txCrcen := sym.2
  rxCrcen := s.crcen (bitIn synchr sym.1)
  events := events s (s.recv synchr sym.1)

/-- The receiver with what it has reported takes a symbol from the line. -/
def listen (synchr : BitVec 8) (p : UsrtRx × List Sample) (sym : Bool × Bool) :
    UsrtRx × List Sample :=
  (p.1.recv synchr sym.1, p.2 ++ [sample synchr p.1 sym])

variable {synchr : BitVec 8} {s : UsrtRx} {b : Bool} {i : In}

/-- A clock without an enable changes nothing. -/
theorem next_of_held (hrst : i.rst = false) (hclr : i.clr = false) (hen : i.clken = false) :
    s.next i = s := by
  unfold next nextStat nextData nextSpecial nextOnes nextBitcnt nextValid
  rw [hrst, hclr, hen]
  rfl

theorem recv_eq (s : UsrtRx) (b : Bool) : s.recv synchr b =
    { stat := BitVec.ofBool b ++ s.stat.extractLsb' 1 15
      data := if s.deletes then s.data else BitVec.ofBool b ++ s.data.extractLsb' 1 7
      special := s.flag || s.abort
      ones := if b then s.ones + 1 else 0
      bitcnt := if s.flag then 1 else if s.deletes then s.bitcnt else s.bitcnt + 1
      valid := s.flag || s.valid } := by
  unfold recv next nextStat nextData nextSpecial nextOnes nextBitcnt nextValid sync
  have hzbd : s.zbd (bitIn synchr b) = s.deletes := rfl
  rw [hzbd]
  unfold bitIn
  cases s.flag with
  | true =>
      cases s.deletes with
      | true => rfl
      | false => rfl
  | false =>
      cases s.deletes with
      | true => rfl
      | false => rfl

/-! ## The status register -/

theorem getLsbD_stat (s : UsrtRx) (b : Bool) (k : Nat) (hk : k < 16) :
    (s.recv synchr b).stat.getLsbD k = if k = 15 then b else s.stat.getLsbD (k + 1) := by
  rw [recv_eq]
  show (BitVec.ofBool b ++ s.stat.extractLsb' 1 15).getLsbD k = _
  rw [BitVec.getLsbD_append]
  by_cases hlast : k = 15
  · subst hlast
    simp
  · have hlt : k < 15 := by omega
    rw [if_neg hlast, if_pos hlt, BitVec.getLsbD_extractLsb']
    simp [hlt, Nat.add_comm 1 k]

/-- The status register ends with the bits that were taken last. -/
theorem getLsbD_stat_foldl (l : List Bool) (j : Nat) (hj : j < l.length) (hl : l.length ≤ 16) :
    (l.foldl (recv synchr) s).stat.getLsbD (16 - l.length + j) = l[j] := by
  induction l using List.reverseRecOn generalizing j with
  | nil => exact absurd hj (Nat.not_lt_zero j)
  | append_singleton l b ih =>
      rw [List.length_append, List.length_singleton] at hj hl ⊢
      rw [List.foldl_append, List.foldl_cons, List.foldl_nil, getLsbD_stat _ _ _ (by omega)]
      by_cases hlast : j = l.length
      · subst hlast
        rw [if_pos (by omega)]
        simp
      · have hj' : j < l.length := by omega
        have hpos : 16 - (l.length + 1) + j + 1 = 16 - l.length + j := by omega
        rw [if_neg (by omega), hpos, ih j hj' (by omega), List.getElem_append_left hj']

/-- The upper half of the status register, from which flags are read. -/
theorem getLsbD_top (s : UsrtRx) (k : Nat) (hk : k < 8) :
    (s.stat.extractLsb' 8 8).getLsbD k = s.stat.getLsbD (8 + k) := by
  rw [BitVec.getLsbD_extractLsb']
  simp [hk]

theorem getLsbD_of_flag (h : s.flag = true) (k : Nat) (hk : k < 8) :
    s.stat.getLsbD (8 + k) = (0b01111110 : BitVec 8).getLsbD k := by
  have hpat : s.stat.extractLsb' 8 8 = 0b01111110 := beq_iff_eq.mp h
  rw [← getLsbD_top s k hk, hpat]

theorem getLsbD_of_abort (h : s.abort = true) (k : Nat) (hk : k < 8) :
    s.stat.getLsbD (8 + k) = (0b1111111 : BitVec 8).getLsbD k := by
  have hpat : s.stat.extractLsb' 8 8 = 0b1111111 := beq_iff_eq.mp h
  rw [← getLsbD_top s k hk, hpat]

/-- A zero among the last six bits keeps the next bit from completing a flag or an abort
character. -/
theorem not_special_recv (synchr : BitVec 8) {c : Nat} (hc : c ≤ 5)
    (hzero : s.stat.getLsbD (15 - c) = false) :
    (s.recv synchr b).flag = false ∧ (s.recv synchr b).abort = false := by
  have hmoved : (s.recv synchr b).stat.getLsbD (8 + (6 - c)) = false := by
    have hpos : 8 + (6 - c) + 1 = 15 - c := by omega
    rw [getLsbD_stat _ _ _ (by omega), if_neg (by omega), hpos]
    exact hzero
  have hone : ∀ c, c ≤ 5 → (0b01111110 : BitVec 8).getLsbD (6 - c) = true ∧
      (0b1111111 : BitVec 8).getLsbD (6 - c) = true := by decide
  obtain ⟨hflag, habort⟩ := hone c hc
  constructor
  · rw [← Bool.not_eq_true]
    intro h
    rw [getLsbD_of_flag h (6 - c) (by omega), hflag] at hmoved
    cases hmoved
  · rw [← Bool.not_eq_true]
    intro h
    rw [getLsbD_of_abort h (6 - c) (by omega), habort] at hmoved
    cases hmoved

/-! ## Between the flags -/

/-- What holds from the opening flag on, after `c` ones in a row. -/
structure Clean (s : UsrtRx) (c : Nat) : Prop where
  ones : s.ones.toNat = c
  le : c ≤ 5
  zero : s.stat.getLsbD (15 - c) = false
  special : s.special = true → c ≤ 1
  flag : s.flag = true → c = 0
  abort : s.abort = false

/-- A bit that does not make six ones in a row is neither a flag nor an abort character. -/
theorem Clean.recv (synchr : BitVec 8) {c : Nat} (h : Clean s c) (hb : c = 5 → b = false) :
    Clean (s.recv synchr b) (Stuffing.succ c b) ∧ (s.recv synchr b).flag = false := by
  obtain ⟨hflag, habort⟩ := not_special_recv synchr (b := b) h.le h.zero
  have hle := h.le
  have hsucc : Stuffing.succ c b ≤ c + 1 := by
    unfold Stuffing.succ
    split <;> omega
  refine ⟨⟨?_, ?_, ?_, ?_, ?_, habort⟩, hflag⟩
  · rw [recv_eq]
    cases b with
    | false => rfl
    | true =>
        have hones := h.ones
        have hlt : c < 5 := Nat.lt_of_le_of_ne h.le fun hfive => Bool.noConfusion (hb hfive)
        show (s.ones + 1).toNat = c + 1
        bv_omega
  · cases b with
    | false => exact Nat.zero_le 5
    | true =>
        have hlt : c < 5 := Nat.lt_of_le_of_ne h.le fun hfive => Bool.noConfusion (hb hfive)
        exact hlt
  · rw [getLsbD_stat _ _ _ (by omega)]
    cases b with
    | false => rfl
    | true =>
        have hlt : c < 5 := Nat.lt_of_le_of_ne h.le fun hfive => Bool.noConfusion (hb hfive)
        have hpos : 15 - Stuffing.succ c true + 1 = 15 - c := by
          show 15 - (c + 1) + 1 = 15 - c
          omega
        have hne : 15 - Stuffing.succ c true ≠ 15 := by
          show 15 - (c + 1) ≠ 15
          omega
        rw [if_neg hne, hpos]
        exact h.zero
  · intro hspec
    rw [recv_eq] at hspec
    have hflagged : s.flag = true := by
      rw [← Bool.or_false s.flag, ← h.abort]
      exact hspec
    have hzero := h.flag hflagged
    omega
  · intro h
    rw [hflag] at h
    cases h

/-- With less than five ones the next bit counts; with five it is deleted. -/
theorem Clean.deletes_iff {c : Nat} (h : Clean s c) : s.deletes = true ↔ c = 5 := by
  unfold deletes
  rw [Bool.and_eq_true, beq_iff_eq]
  have hones := h.ones
  constructor
  · rintro ⟨-, hfive⟩
    rw [← hones, hfive]
    rfl
  · intro hfive
    constructor
    · rw [Bool.not_eq_true', ← Bool.not_eq_true]
      intro hspec
      have hone := h.special hspec
      omega
    · bv_omega

/-! ## Characters -/

/-- The receiver has taken `n` bits of a character, from the opening flag or from the end
of the character before. -/
def Placed (s : UsrtRx) (n : Nat) : Prop :=
  s.flag = true ∧ n = 0 ∨ s.flag = false ∧ s.valid = true ∧ s.bitcnt.toNat = n % 8

/-- The data register ends with the bits of the character that were taken. -/
def Holds (s : UsrtRx) (ds : List Bool) : Prop :=
  ∀ (j : Nat) (hj : j < ds.length), s.data.getLsbD (8 - ds.length + j) = ds[j]

theorem getLsbD_data (hdel : s.deletes = false) (k : Nat) (hk : k < 8) :
    (s.recv synchr b).data.getLsbD k = if k = 7 then b else s.data.getLsbD (k + 1) := by
  rw [recv_eq, hdel]
  show (BitVec.ofBool b ++ s.data.extractLsb' 1 7).getLsbD k = _
  rw [BitVec.getLsbD_append]
  by_cases hlast : k = 7
  · subst hlast
    simp
  · have hlt : k < 7 := by omega
    rw [if_neg hlast, if_pos hlt, BitVec.getLsbD_extractLsb']
    simp [hlt, Nat.add_comm 1 k]

theorem Holds.recv (synchr : BitVec 8) {ds : List Bool} (h : Holds s ds) (hdel : s.deletes = false)
    (hlen : ds.length < 8) : Holds (s.recv synchr b) (ds ++ [b]) := by
  intro j hj
  rw [List.length_append, List.length_singleton] at hj
  simp only [List.length_append, List.length_singleton]
  rw [getLsbD_data hdel _ (by omega)]
  by_cases hlast : j = ds.length
  · subst hlast
    rw [if_pos (by omega)]
    simp
  · have hj' : j < ds.length := by omega
    have hpos : 8 - (ds.length + 1) + j + 1 = 8 - ds.length + j := by omega
    rw [if_neg (by omega), hpos, h j hj', List.getElem_append_left hj']

/-- A bit of a character moves the receiver on by one place, and the eighth one completes
the character. -/
theorem Placed.recv (synchr : BitVec 8) {c n : Nat} (hclean : Clean s c) (hc : c < 5)
    (h : Placed s n) (hn : n < 8) :
    Placed (s.recv synchr b) (n + 1) ∧
      events s (s.recv synchr b) =
        if n + 1 = 8 then [.byte (s.recv synchr b).data] else [] := by
  have hdel : s.deletes = false := by
    rw [← Bool.not_eq_true, hclean.deletes_iff]
    omega
  obtain ⟨hclean', hflag'⟩ := hclean.recv synchr (b := b) (by omega)
  have hvalid : (s.recv synchr b).valid = true := by
    rw [recv_eq]
    show (s.flag || s.valid) = true
    rcases h with ⟨hflag, -⟩ | ⟨-, hvalid, -⟩
    · rw [hflag, Bool.true_or]
    · rw [hvalid, Bool.or_true]
  have hcnt : (s.recv synchr b).bitcnt.toNat = (n + 1) % 8 := by
    rw [recv_eq, hdel]
    show (if s.flag then (1 : BitVec 3) else s.bitcnt + 1).toNat = _
    rcases h with ⟨hflag, hn⟩ | ⟨hflag, -, hcnt⟩
    · rw [hflag, hn]
      rfl
    · rw [hflag, if_neg Bool.false_ne_true]
      bv_omega
  refine ⟨Or.inr ⟨hflag', hvalid, hcnt⟩, ?_⟩
  unfold events
  rw [hflag', hclean'.abort]
  by_cases hlast : n + 1 = 8
  · have hfull' : (s.recv synchr b).full = true := by
      unfold full
      rw [hvalid, Bool.true_and, beq_iff_eq]
      bv_omega
    have hfull : s.full = false := by
      rcases h with ⟨-, hn⟩ | ⟨-, -, hcnt⟩
      · omega
      · unfold full
        have hne : s.bitcnt ≠ 0 := by bv_omega
        rw [beq_eq_false_iff_ne.mpr hne, Bool.and_false]
    rw [hfull', hfull, if_pos hlast]
    rfl
  · have hfull' : (s.recv synchr b).full = false := by
      unfold full
      have hne : (s.recv synchr b).bitcnt ≠ 0 := by bv_omega
      rw [beq_eq_false_iff_ne.mpr hne, Bool.and_false]
    rw [hfull', if_neg hlast]
    rfl

/-- A zero that is deleted leaves the receiver in its place. -/
theorem recv_of_deletes (synchr : BitVec 8) (hclean : Clean s 5) :
    s.recv synchr false =
      { s with stat := (s.recv synchr false).stat, special := false, ones := 0 } := by
  have hflag : s.flag = false := by
    rw [← Bool.not_eq_true]
    exact fun h => absurd (hclean.flag h) (by decide)
  have hdel : s.deletes = true := hclean.deletes_iff.mpr rfl
  rw [recv_eq, hdel, hflag, hclean.abort]
  rfl

theorem Placed.recv_deleted (synchr : BitVec 8) {n : Nat} (hclean : Clean s 5) (h : Placed s n) :
    Placed (s.recv synchr false) n ∧ events s (s.recv synchr false) = [] := by
  have hflag : s.flag = false := by
    rw [← Bool.not_eq_true]
    exact fun h => absurd (hclean.flag h) (by decide)
  obtain ⟨hclean', hflag'⟩ := hclean.recv synchr (b := false) (fun _ => rfl)
  have hnext := recv_of_deletes synchr hclean
  have hfull : (s.recv synchr false).full = s.full := by
    rw [hnext]
    rfl
  rcases h with ⟨htrue, -⟩ | ⟨-, hvalid, hcnt⟩
  · rw [hflag] at htrue
    cases htrue
  · refine ⟨Or.inr ⟨hflag', ?_, ?_⟩, ?_⟩
    · rw [hnext]
      exact hvalid
    · rw [hnext]
      exact hcnt
    · unfold events
      rw [hfull, hflag', hclean'.abort, Bool.and_not_self]
      rfl

/-- What holds after the bits `ds` of the character `d`, with `c` ones in a row: the log has
grown by the bits of the character and the inserted zeros, and the two sides have enabled
the CRC for the same of them. -/
structure Taken (d : BitVec 8) (log : List Sample) (c : Nat) (ds : List Bool)
    (p : UsrtRx × List Sample) : Prop where
  clean : Clean p.1 c
  placed : Placed p.1 ds.length
  holds : Holds p.1 ds
  log : ∃ more, p.2 = log ++ more ∧
    more.flatMap Sample.events = (if ds.length = 8 then [.byte d] else []) ∧
    ∀ m ∈ more, m.txCrcen = m.rxCrcen

theorem Holds.eq_of_length {d : BitVec 8} {ds : List Bool} (h : Holds s ds)
    (hds : ds = UsrtTx.lowBits d 8) : s.data = d := by
  subst hds
  have hlen := UsrtTx.length_lowBits d 8
  apply BitVec.eq_of_getLsbD_eq
  intro j hj
  have hpos : 8 - (UsrtTx.lowBits d 8).length + j = j := by omega
  have hbit := h j (by omega)
  rw [hpos] at hbit
  rw [hbit]
  simp [UsrtTx.lowBits]

theorem Taken.bit {d : BitVec 8} {log : List Sample} {c : Nat} {ds rest : List Bool}
    {p : UsrtRx × List Sample} (hds : ds ++ b :: rest = UsrtTx.lowBits d 8) (hc : c < 5)
    (h : Taken d log c ds p) :
    Taken d log (Stuffing.succ c b) (ds ++ [b]) (listen synchr p (b, true)) := by
  have hlen : ds.length + rest.length + 1 = 8 := by
    have heq := congrArg List.length hds
    rw [UsrtTx.length_lowBits, List.length_append, List.length_cons] at heq
    omega
  have hdel : p.1.deletes = false := by
    rw [← Bool.not_eq_true, h.clean.deletes_iff]
    omega
  have hholds := h.holds.recv synchr (b := b) hdel (by omega)
  obtain ⟨hplaced, hevents⟩ :=
    h.placed.recv synchr (b := b) h.clean hc (by omega)
  obtain ⟨more, hlog, hmore, hcrc⟩ := h.log
  refine ⟨(h.clean.recv synchr (by omega)).1, ?_, hholds, more ++ [sample synchr p.1 (b, true)],
    ?_, ?_, ?_⟩
  · rw [List.length_append]
    exact hplaced
  · show p.2 ++ _ = _
    rw [hlog, List.append_assoc]
  · have hne : ds.length ≠ 8 := by omega
    rw [List.flatMap_append, hmore, if_neg hne, List.nil_append, List.flatMap_singleton,
      List.length_append, List.length_singleton]
    show events p.1 (p.1.recv synchr b) = _
    rw [hevents]
    by_cases hlast : ds.length + 1 = 8
    · have hrest : rest = [] := List.eq_nil_of_length_eq_zero (by omega)
      rw [if_pos hlast, if_pos hlast, hholds.eq_of_length (by rw [← hds, hrest])]
    · rw [if_neg hlast, if_neg hlast]
  · intro m hm
    rcases List.mem_append.mp hm with hm | hm
    · exact hcrc m hm
    · rw [List.mem_singleton] at hm
      subst hm
      show true = !p.1.deletes
      rw [hdel]
      rfl

theorem Taken.deleted {d : BitVec 8} {log : List Sample} {ds : List Bool}
    {p : UsrtRx × List Sample} (h : Taken d log 5 ds p) :
    Taken d log 0 ds (listen synchr p (false, false)) := by
  obtain ⟨hplaced, hevents⟩ := h.placed.recv_deleted synchr h.clean
  obtain ⟨more, hlog, hmore, hcrc⟩ := h.log
  refine ⟨(h.clean.recv synchr (fun _ => rfl)).1, hplaced, ?_,
    more ++ [sample synchr p.1 (false, false)], ?_, ?_, ?_⟩
  · show Holds (p.1.recv synchr false) ds
    rw [recv_of_deletes synchr h.clean]
    exact h.holds
  · show p.2 ++ _ = _
    rw [hlog, List.append_assoc]
  · rw [List.flatMap_append, hmore, List.flatMap_singleton]
    show _ ++ events p.1 (p.1.recv synchr false) = _
    rw [hevents, List.append_nil]
  · intro m hm
    rcases List.mem_append.mp hm with hm | hm
    · exact hcrc m hm
    · rw [List.mem_singleton] at hm
      subst hm
      show false = !p.1.deletes
      rw [h.clean.deletes_iff.mpr rfl]
      rfl

/-- A character from a transmitter that inserts zeros is delivered, at the place where the
next one begins. -/
theorem listen_byte (synchr : BitVec 8) {c : Nat} (d : BitVec 8) (hc : c < 5)
    {p : UsrtRx × List Sample} (hclean : Clean p.1 c) (hplaced : Placed p.1 0) :
    let l := UsrtTx.lowBits d 8
    Taken d p.2 (Stuffing.ones 5 c l) l ((Stuffing.insert 5 c l).foldl (listen synchr) p) := by
  have hstart : Taken d p.2 c [] p :=
    ⟨hclean, hplaced, fun j hj => absurd hj (Nat.not_lt_zero j), [], (List.append_nil _).symm,
      rfl, fun m hm => absurd hm List.not_mem_nil⟩
  exact Stuffing.foldl_insert (P := Taken d p.2) (fun c ds b rest p hds hc h => h.bit hds hc)
    (fun ds p h => h.deleted) hc hstart

/-- The end of a character is the beginning of the next one. -/
theorem Placed.again (h : Placed s 8) : Placed s 0 := by
  rcases h with ⟨-, height⟩ | h
  · cases height
  · exact Or.inr h

/-- Every symbol on the line adds one bit to the log. -/
theorem foldl_listen (synchr : BitVec 8) (line : List (Bool × Bool)) (p : UsrtRx × List Sample) :
    ∃ more, (line.foldl (listen synchr) p).2 = p.2 ++ more ∧
      more.map (fun m => (m.bit, m.txCrcen)) = line := by
  induction line generalizing p with
  | nil => exact ⟨[], (List.append_nil _).symm, rfl⟩
  | cons sym line ih =>
      obtain ⟨more, hlog, hmore⟩ := ih (listen synchr p sym)
      refine ⟨sample synchr p.1 sym :: more, ?_, ?_⟩
      · rw [List.foldl_cons, hlog]
        show p.2 ++ [_] ++ more = _
        rw [List.append_assoc]
        rfl
      · rw [List.map_cons, hmore]
        rfl

/-! ## Flags -/

/-- The bits of a flag, as they are sent. -/
def flagBits : List Bool := [false, true, true, true, true, true, true, false]

/-- Whatever the receiver holds, it finds the flag at its last bit. -/
theorem recv_flag (synchr : BitVec 8) (s : UsrtRx) :
    (flagBits.foldl (recv synchr) s).flag = true ∧ Clean (flagBits.foldl (recv synchr) s) 0 := by
  have hbit : ∀ (j : Nat) (hj : j < flagBits.length),
      (flagBits.foldl (recv synchr) s).stat.getLsbD (8 + j) = flagBits[j] := fun j hj =>
    getLsbD_stat_foldl flagBits j hj (by decide)
  have hpat : (flagBits.foldl (recv synchr) s).stat.extractLsb' 8 8 = 0b01111110 := by
    apply BitVec.eq_of_getLsbD_eq
    intro k hk
    have hflag : ∀ (k : Nat) (hk : k < 8), flagBits[k] = (0b01111110 : BitVec 8).getLsbD k := by
      decide
    rw [getLsbD_top _ k hk, hbit k hk]
    exact hflag k hk
  have hflag : (flagBits.foldl (recv synchr) s).flag = true := by
    unfold flag
    rw [hpat]
    rfl
  refine ⟨hflag, ?_, Nat.zero_le 5, hbit 7 (by decide), fun _ => Nat.zero_le 1, fun _ => rfl, ?_⟩
  · show (UsrtRx.recv synchr _ false).ones.toNat = 0
    rw [recv_eq]
    rfl
  · unfold abort
    rw [hpat]
    rfl

/-- The bits of a flag, with the detection of the flag at the last of them. -/
structure FlagSeen (l : List Sample) : Prop where
  bits : l.map Sample.bit = flagBits
  seen : ∃ m, l.getLast? = some m ∧ .flag ∈ m.events

/-- Every flag on the line is detected. -/
theorem listen_flag (synchr : BitVec 8) (p : UsrtRx × List Sample) :
    let p' := (flagBits.map (·, true)).foldl (listen synchr) p
    p'.1 = flagBits.foldl (recv synchr) p.1 ∧ ∃ more, p'.2 = p.2 ++ more ∧ FlagSeen more := by
  obtain ⟨before, hlog, hbits⟩ :=
    foldl_listen synchr ([false, true, true, true, true, true, true].map (·, true)) p
  let q := ([false, true, true, true, true, true, true].map (·, true)).foldl (listen synchr) p
  refine ⟨rfl, before ++ [sample synchr q.1 (false, true)], ?_, ?_, sample synchr q.1 (false, true),
    List.getLast?_concat, ?_⟩
  · show q.2 ++ [_] = _
    rw [hlog, List.append_assoc]
    rfl
  · have hbits' := congrArg (List.map Prod.fst) hbits
    rw [List.map_map] at hbits'
    have hfirst : before.map Sample.bit = [false, true, true, true, true, true, true] := hbits'
    rw [List.map_append, hfirst]
    rfl
  · show _ ∈ events q.1 (q.1.recv synchr false)
    unfold events
    have hflag : (q.1.recv synchr false).flag = true := (recv_flag synchr p.1).1
    rw [hflag, if_pos rfl]
    simp

/-- Fewer than eight bits with fewer than five ones before each of them move the receiver on
by as many places, and it reports nothing. -/
theorem listen_bits (l : List Bool) {c n : Nat} {p : UsrtRx × List Sample}
    (hclean : Clean p.1 c) (hplaced : Placed p.1 n) (hlen : n + l.length < 8)
    (hones : ∀ k, k < l.length → (l.take k).foldl Stuffing.succ c < 5) :
    let p' := (l.map (·, true)).foldl (listen synchr) p
    Clean p'.1 (l.foldl Stuffing.succ c) ∧ Placed p'.1 (n + l.length) ∧
      ∃ more, p'.2 = p.2 ++ more ∧ more.flatMap Sample.events = [] := by
  induction l generalizing c n p with
  | nil => exact ⟨hclean, hplaced, [], (List.append_nil _).symm, rfl⟩
  | cons b l ih =>
      rw [List.length_cons] at hlen hones
      have hc : c < 5 := hones 0 (Nat.succ_pos _)
      obtain ⟨hplaced', hevents⟩ := hplaced.recv synchr (b := b) hclean hc (by omega)
      rw [if_neg (by omega)] at hevents
      obtain ⟨hclean'', hplaced'', more, hlog, hmore⟩ :=
        ih (p := listen synchr p (b, true)) (hclean.recv synchr (by omega)).1 hplaced' (by omega)
          (fun k hk => hones (k + 1) (by omega))
      have hplace : n + 1 + l.length = n + (l.length + 1) := by omega
      rw [hplace] at hplaced''
      refine ⟨hclean'', hplaced'', sample synchr p.1 (b, true) :: more, ?_, ?_⟩
      · show _ = p.2 ++ ([sample synchr p.1 (b, true)] ++ more)
        rw [← List.append_assoc]
        exact hlog
      · rw [List.flatMap_cons, hmore, List.append_nil]
        exact hevents

/-- The sixth one of a flag is deleted like an inserted zero, so the flag does not complete a
character. -/
theorem recv_flag_end (synchr : BitVec 8) (hclean : Clean s 5) (hplaced : Placed s 6) :
    let s' := s.recv synchr true
    events s s' = [] ∧ (s'.recv synchr false).full = false := by
  have hflag : s.flag = false := by
    rw [← Bool.not_eq_true]
    exact fun h => absurd (hclean.flag h) (by decide)
  have hdel : s.deletes = true := hclean.deletes_iff.mpr rfl
  obtain ⟨hflag', habort'⟩ := not_special_recv synchr (b := true) hclean.le hclean.zero
  have hones := hclean.ones
  have hones' : (s.recv synchr true).ones = 6 := by
    rw [recv_eq]
    show s.ones + 1 = 6
    bv_omega
  have hcnt : s.bitcnt = 6 := by
    rcases hplaced with ⟨htrue, -⟩ | ⟨-, -, hcnt⟩
    · rw [hflag] at htrue
      cases htrue
    · bv_omega
  have hcnt' : (s.recv synchr true).bitcnt = 6 := by
    rw [recv_eq, hflag, hdel]
    exact hcnt
  have hdel' : (s.recv synchr true).deletes = false := by
    unfold deletes
    rw [hones']
    exact Bool.and_false _
  constructor
  · unfold events full
    rw [hflag', habort', hcnt']
    simp
  · unfold full
    rw [recv_eq, hflag', hdel', hcnt']
    exact Bool.and_false _

/-- The flag that closes a frame is the only thing that is reported. -/
theorem listen_closing (synchr : BitVec 8) {c : Nat} {p : UsrtRx × List Sample}
    (hclean : Clean p.1 c) (hc : c < 5) (hplaced : Placed p.1 0) :
    ∃ more, ((flagBits.map (·, true)).foldl (listen synchr) p).2 = p.2 ++ more ∧
      more.flatMap Sample.events = [.flag] := by
  have hones : ∀ k, k < 6 →
      ([false, true, true, true, true, true].take k).foldl Stuffing.succ c < 5 := by
    intro k hk
    have hcases : k = 0 ∨ k = 1 ∨ k = 2 ∨ k = 3 ∨ k = 4 ∨ k = 5 := by omega
    rcases hcases with rfl | rfl | rfl | rfl | rfl | rfl
    · exact hc
    all_goals simp [Stuffing.succ]
  obtain ⟨hclean', hplaced', more, hlog, hmore⟩ :=
    listen_bits [false, true, true, true, true, true] hclean hplaced (by decide) hones
  let q := ([false, true, true, true, true, true].map (·, true)).foldl (listen synchr) p
  obtain ⟨hquiet, hfull⟩ := recv_flag_end (s := q.1) synchr hclean' hplaced'
  obtain ⟨hflag, hclosed⟩ := recv_flag synchr p.1
  have hlast : (flagBits.foldl (recv synchr) p.1) = (q.1.recv synchr true).recv synchr false := rfl
  rw [hlast] at hflag hclosed
  refine ⟨more ++ [sample synchr q.1 (true, true),
    sample synchr (q.1.recv synchr true) (false, true)], ?_, ?_⟩
  · show (q.2 ++ [_]) ++ [_] = p.2 ++ (more ++ ([_] ++ [_]))
    rw [hlog, List.append_assoc, List.append_assoc]
    rfl
  · rw [List.flatMap_append, hmore, List.nil_append, List.flatMap_cons, List.flatMap_singleton]
    show events q.1 _ ++ events (q.1.recv synchr true) _ = [.flag]
    rw [hquiet]
    unfold events
    rw [hfull, hflag, hclosed.abort]
    rfl

end UsrtRx

end KS10
