import KS10.Clocked.Run
import KS10.Usrt.Receiver

/-!
# Flags, aborts and the characters between them

For a stream of bits in SDLC mode the receiver is to signal a flag when the last eight bits
are a flag, and an abort when a run of ones reaches seven; and a character that it delivers
is to have no bit of a flag or of an abort (`UsrtRx.Delimits`).

The abort pattern in the source is a constant of seven ones for eight bits.  It matches when
a zero has come after the ones, so no run of ones is reported when it reaches its length.
The status register starts with zeros, and seven bits after a reset can be taken for a flag.
And the bits of a character are counted through a flag that does not begin where a character
ends: the character is complete in the middle of the flag.  `UsrtRx.delimits_iff` says that
there are no other ways to fail.
-/

namespace KS10

open Clocked

namespace UsrtRx

/-! ## Streams -/

/-- The receiver after `t` bits of the stream. -/
def after (synchr : BitVec 8) (b : Nat → Bool) (t : Nat) : UsrtRx := run (recv synchr) reset b t

/-- A flag begins at bit `m`. -/
def IsFlag (b : Nat → Bool) (m : Nat) : Prop :=
  ∀ j (hj : j < flagBits.length), b (m + j) = flagBits[j]

/-- There are `k` ones from bit `m` on. -/
def Ones (b : Nat → Bool) (m k : Nat) : Prop := ∀ j, j < k → b (m + j) = true

/-- After `t` bits a run of ones has reached seven. -/
def Reaches (b : Nat → Bool) (t : Nat) : Prop :=
  ∃ m, t = m + 7 ∧ Ones b m 7 ∧ (m = 0 ∨ b (m - 1) = false)

/-- The bits that are in the data register or have gone through it, the last one first. -/
def taken (synchr : BitVec 8) (b : Nat → Bool) : Nat → List Nat
  | 0 => []
  | t + 1 => if (after synchr b t).deletes then taken synchr b t else t :: taken synchr b t

/-- Bit `t` completes a character. -/
def delivers (synchr : BitVec 8) (b : Nat → Bool) (t : Nat) : Bool :=
  (after synchr b (t + 1)).full && !(after synchr b t).full

/-- What the receiver is to do. -/
structure Delimits (synchr : BitVec 8) (b : Nat → Bool) : Prop where
  flags : ∀ t, (after synchr b t).flag = true ↔ ∃ m, t = m + 8 ∧ IsFlag b m
  aborts : ∀ t, (after synchr b t).abort = true ↔ Reaches b t
  /-- The eight bits of a character are outside of the flags and the aborts. -/
  chars : ∀ t, delivers synchr b t = true → ∀ p ∈ (taken synchr b (t + 1)).take 8,
    (∀ m, IsFlag b m → ¬ (m ≤ p ∧ p < m + 8)) ∧
      ∀ m k, 7 ≤ k → Ones b m k → ¬ (m ≤ p ∧ p < m + k)

/-- The flag that begins at bit `m` does not cut a character short: no flag has come before
it, it follows a flag or shares a zero with it, or the characters since the last flag are
complete.  A zero that is deleted may come one bit late. -/
def Aligned (synchr : BitVec 8) (b : Nat → Bool) (m : Nat) : Prop :=
  let s := after synchr b m
  s.valid = false ∨ (∃ m', IsFlag b m' ∧ (m = m' + 8 ∨ m = m' + 7)) ∨ s.bitcnt = 0 ∨
    s.deletes = true ∧ s.bitcnt = 1

/-- The streams for which the receiver works. -/
structure Orderly (synchr : BitVec 8) (b : Nat → Bool) : Prop where
  /-- The stream does not begin with the last seven bits of a flag. -/
  start : ¬ ∀ j (hj : j + 1 < flagBits.length), b j = flagBits[j + 1]
  /-- There are never seven ones in a row. -/
  ones : ∀ m, ¬ Ones b m 7
  aligned : ∀ m, IsFlag b m → Aligned synchr b m

variable {synchr : BitVec 8} {b : Nat → Bool}

theorem after_succ (t : Nat) :
    after synchr b (t + 1) = (after synchr b t).recv synchr (b t) := rfl

/-! ## The status register -/

/-- The status register has the last sixteen bits, after the zeros of the reset. -/
theorem getLsbD_after (t k : Nat) (hk : k < 16) :
    (after synchr b t).stat.getLsbD k = if 16 ≤ t + k then b (t + k - 16) else false := by
  induction t generalizing k with
  | zero =>
      rw [if_neg (by omega)]
      exact BitVec.getLsbD_zero
  | succ t ih =>
      rw [after_succ, getLsbD_stat _ _ k hk]
      by_cases hlast : k = 15
      · subst hlast
        rw [if_pos rfl, if_pos (by omega)]
        rfl
      · have hpos : t + (k + 1) = t + 1 + k := by omega
        rw [if_neg hlast, ih (k + 1) (by omega), hpos]

/-- A pattern in the upper half of the status register is a pattern in the last eight bits. -/
theorem top_eq_iff (p : BitVec 8) (t : Nat) :
    (after synchr b t).stat.extractLsb' 8 8 = p ↔
      ∀ j, j < 8 → (if 8 ≤ t + j then b (t + j - 8) else false) = p.getLsbD j := by
  have hbit : ∀ j, j < 8 → ((after synchr b t).stat.extractLsb' 8 8).getLsbD j =
      if 8 ≤ t + j then b (t + j - 8) else false := by
    intro j hj
    rw [getLsbD_top _ j hj, getLsbD_after t (8 + j) (by omega)]
    have hpos : t + (8 + j) - 16 = t + j - 8 := by omega
    by_cases hin : 8 ≤ t + j
    · rw [if_pos hin, if_pos (by omega), hpos]
    · rw [if_neg hin, if_neg (by omega)]
  constructor
  · intro h j hj
    rw [← hbit j hj, h]
  · intro h
    apply BitVec.eq_of_getLsbD_eq
    intro j hj
    rw [hbit j hj, h j hj]

theorem flagBits_eq (j : Nat) (hj : j < flagBits.length) :
    flagBits[j] = (0b01111110 : BitVec 8).getLsbD j := by
  have hall : ∀ (j : Nat) (hj : j < flagBits.length),
      flagBits[j] = (0b01111110 : BitVec 8).getLsbD j := by decide
  exact hall j hj

/-- After eight bits a flag is what it should be. -/
theorem flag_add_iff (m : Nat) : (after synchr b (m + 8)).flag = true ↔ IsFlag b m := by
  have hpos : ∀ j, m + 8 + j - 8 = m + j := fun j => by omega
  unfold flag
  rw [beq_iff_eq, top_eq_iff]
  constructor
  · intro h j hj
    have hbit := h j hj
    rwa [if_pos (by omega), hpos, ← flagBits_eq j hj] at hbit
  · intro h j hj
    rw [if_pos (by omega), hpos, ← flagBits_eq j hj]
    exact h j hj

/-- With fewer bits only the last seven bits of a flag are taken for one. -/
theorem flag_of_lt {t : Nat} (ht : t < 8) : (after synchr b t).flag = true ↔
    t = 7 ∧ ∀ j (hj : j + 1 < flagBits.length), b j = flagBits[j + 1] := by
  unfold flag
  rw [beq_iff_eq, top_eq_iff]
  constructor
  · intro h
    have hseven : t = 7 := by
      have hone := h 1 (by decide)
      by_cases hin : 8 ≤ t + 1
      · omega
      · rw [if_neg hin] at hone
        cases hone
    subst hseven
    refine ⟨rfl, fun j hj => ?_⟩
    have hbit := h (j + 1) hj
    have hpos : 7 + (j + 1) - 8 = j := by omega
    rwa [if_pos (by omega), hpos, ← flagBits_eq (j + 1) hj] at hbit
  · rintro ⟨rfl, h⟩ j hj
    cases j with
    | zero => rfl
    | succ j =>
        have hpos : 7 + (j + 1) - 8 = j := by omega
        rw [if_pos (by omega), hpos, ← flagBits_eq (j + 1) hj]
        exact h j hj

theorem flag_of_start
    (hstart : ¬ ∀ j (hj : j + 1 < flagBits.length), b j = flagBits[j + 1]) (t : Nat) :
    (after synchr b t).flag = true ↔ ∃ m, t = m + 8 ∧ IsFlag b m := by
  rcases Nat.lt_or_ge t 8 with hlt | hge
  · constructor
    · intro h
      exact absurd ((flag_of_lt hlt).mp h).2 hstart
    · rintro ⟨m, rfl, -⟩
      omega
  · obtain ⟨m, rfl⟩ : ∃ m, t = m + 8 := ⟨t - 8, by omega⟩
    rw [flag_add_iff]
    constructor
    · exact fun h => ⟨m, rfl, h⟩
    · rintro ⟨m', hm', h⟩
      obtain rfl : m = m' := by omega
      exact h

/-- An abort is reported at the zero after the ones. -/
theorem abort_iff (t : Nat) : (after synchr b t).abort = true ↔
    ∃ m, t = m + 8 ∧ Ones b m 7 ∧ b (m + 7) = false := by
  have hpat : ∀ j, j < 8 → (0b1111111 : BitVec 8).getLsbD j = decide (j < 7) := by decide
  unfold abort
  rw [beq_iff_eq, top_eq_iff]
  constructor
  · intro h
    have hge : 8 ≤ t := by
      have hzero := h 0 (by decide)
      by_cases hin : 8 ≤ t + 0
      · exact hin
      · rw [if_neg hin] at hzero
        cases hzero
    obtain ⟨m, rfl⟩ : ∃ m, t = m + 8 := ⟨t - 8, by omega⟩
    have hbit : ∀ j, j < 8 → b (m + j) = decide (j < 7) := by
      intro j hj
      have hthis := h j hj
      have hpos : m + 8 + j - 8 = m + j := by omega
      rwa [if_pos (by omega), hpos, hpat j hj] at hthis
    refine ⟨m, rfl, fun j hj => ?_, ?_⟩
    · rw [hbit j (by omega), decide_eq_true hj]
    · exact hbit 7 (by decide)
  · rintro ⟨m, rfl, hones, hlast⟩ j hj
    have hpos : m + 8 + j - 8 = m + j := by omega
    rw [if_pos (by omega), hpos, hpat j hj]
    by_cases hlt : j < 7
    · rw [decide_eq_true hlt]
      exact hones j hlt
    · obtain rfl : j = 7 := by omega
      exact hlast

/-- A run of seven ones has a beginning. -/
theorem exists_reaches {m : Nat} (h : Ones b m 7) : ∃ t, Reaches b t := by
  obtain ⟨n, hn, hfirst⟩ := exists_first (p := fun m => Ones b m 7) ⟨m, h⟩
  refine ⟨n + 7, n, rfl, hn, ?_⟩
  cases n with
  | zero => exact .inl rfl
  | succ n =>
      right
      rw [Nat.add_sub_cancel]
      cases hb : b n with
      | false => rfl
      | true =>
          refine absurd (fun j hj => ?_) (hfirst n (Nat.lt_succ_self n))
          cases j with
          | zero => exact hb
          | succ j =>
              have hpos : n + (j + 1) = n + 1 + j := by omega
              rw [hpos]
              exact hn j (by omega)

/-- An abort is reported where it should be only if there are none. -/
theorem aborts_iff :
    (∀ t, (after synchr b t).abort = true ↔ Reaches b t) ↔ ∀ m, ¬ Ones b m 7 := by
  constructor
  · intro h m hm
    obtain ⟨t, ht⟩ := exists_reaches hm
    obtain ⟨n, hn, -, hlast⟩ := (abort_iff t).mp ((h t).mpr ht)
    obtain ⟨n', hn', hones, -⟩ := ht
    -- The last bit is a one of the run and the zero after it.
    have hone := hones 6 (by decide)
    have hpos : n' + 6 = n + 7 := by omega
    rw [hpos, hlast] at hone
    cases hone
  · intro h t
    constructor
    · intro habort
      obtain ⟨m, -, hones, -⟩ := (abort_iff t).mp habort
      exact absurd hones (h m)
    · rintro ⟨m, -, hones, -⟩
      exact absurd hones (h m)

/-! ## The counters -/

/-- The registers that decide when a character is complete. -/
structure Count where
  special : Bool
  ones : BitVec 4
  bitcnt : BitVec 3
  valid : Bool

namespace Count

def deletes (c : Count) : Bool := !c.special && c.ones == 5

def full (c : Count) : Bool := c.valid && c.bitcnt == 0

/-- One bit without an abort, after a bit that may have ended a flag. -/
def next (c : Count) (flag b : Bool) : Count where
  special := flag
  ones := if b then c.ones + 1 else 0
  bitcnt := if flag then 1 else if c.deletes then c.bitcnt else c.bitcnt + 1
  valid := flag || c.valid

/-- A bit completes a character. -/
def rises (c : Count) (flag b : Bool) : Bool := (c.next flag b).full && !c.full

/-- The flag may follow another one (`flag₀`) or share its first zero with it (`flag₁`). -/
def flagAt (flag₀ flag₁ : Bool) (k : Nat) : Bool :=
  if k = 0 then flag₀ else if k = 1 then flag₁ else false

/-- The counters after `k` bits of a flag. -/
def inFlag (flag₀ flag₁ : Bool) (c : Count) : Nat → Count
  | 0 => c
  | k + 1 => (inFlag flag₀ flag₁ c k).next (flagAt flag₀ flag₁ k) (flagBits.getD k false)

/-- Bit `k` of the flag completes a character. -/
def risesAt (flag₀ flag₁ : Bool) (c : Count) (k : Nat) : Bool :=
  (inFlag flag₀ flag₁ c k).rises (flagAt flag₀ flag₁ k) (flagBits.getD k false)

/-- The flag does not come in the middle of a character. -/
def aligned (flag₀ flag₁ : Bool) (c : Count) : Bool :=
  !c.valid || flag₀ || flag₁ || c.bitcnt == 0 || c.deletes && c.bitcnt == 1

/-- The zero at the beginning of a flag forgets how many ones have come before it. -/
theorem inFlag_congr {c c' : Count} (hdel : c.deletes = c'.deletes) (hcnt : c.bitcnt = c'.bitcnt)
    (hvalid : c.valid = c'.valid) (flag₀ flag₁ : Bool) (k : Nat) :
    inFlag flag₀ flag₁ c (k + 1) = inFlag flag₀ flag₁ c' (k + 1) := by
  induction k with
  | zero =>
      unfold inFlag inFlag next
      rw [hdel, hcnt, hvalid]
      rfl
  | succ k ih =>
      change (inFlag flag₀ flag₁ c (k + 1)).next _ _ = (inFlag flag₀ flag₁ c' (k + 1)).next _ _
      rw [ih]

theorem risesAt_congr {c c' : Count} (hdel : c.deletes = c'.deletes)
    (hcnt : c.bitcnt = c'.bitcnt) (hvalid : c.valid = c'.valid) (flag₀ flag₁ : Bool) (k : Nat) :
    risesAt flag₀ flag₁ c k = risesAt flag₀ flag₁ c' k := by
  unfold risesAt
  cases k with
  | zero =>
      unfold rises full
      change ((inFlag flag₀ flag₁ c 1).valid && (inFlag flag₀ flag₁ c 1).bitcnt == 0 && _) = _
      rw [inFlag_congr hdel hcnt hvalid]
      change (_ && !(c.valid && c.bitcnt == 0)) = _
      rw [hcnt, hvalid]
      rfl
  | succ k => rw [inFlag_congr hdel hcnt hvalid]

/-- Only a flag in the middle of a character completes it. -/
theorem risesAt_of : ∀ (flag₀ flag₁ del valid : Bool) (bitcnt : BitVec 3),
    (aligned flag₀ flag₁ ⟨!del, 5, bitcnt, valid⟩ = true →
        ∀ k, k < 8 → (flag₁ = true → k ≠ 0) →
          risesAt flag₀ flag₁ ⟨!del, 5, bitcnt, valid⟩ k = false) ∧
      (aligned flag₀ flag₁ ⟨!del, 5, bitcnt, valid⟩ = false →
        ∃ k, k < 8 ∧ risesAt flag₀ flag₁ ⟨!del, 5, bitcnt, valid⟩ k = true) := by
  decide +kernel

theorem risesAt_iff (flag₀ flag₁ : Bool) (c : Count) :
    (aligned flag₀ flag₁ c = true → ∀ k, k < 8 → (flag₁ = true → k ≠ 0) →
        risesAt flag₀ flag₁ c k = false) ∧
      (aligned flag₀ flag₁ c = false → ∃ k, k < 8 ∧ risesAt flag₀ flag₁ c k = true) := by
  have hdel : c.deletes = (Count.mk (!c.deletes) 5 c.bitcnt c.valid).deletes := by
    unfold deletes
    rw [Bool.not_not]
    exact (Bool.and_true _).symm
  have hrises := risesAt_congr hdel rfl rfl flag₀ flag₁
  have haligned : aligned flag₀ flag₁ c =
      aligned flag₀ flag₁ ⟨!c.deletes, 5, c.bitcnt, c.valid⟩ := by
    unfold aligned
    rw [← hdel]
  rw [haligned]
  simp only [hrises]
  exact risesAt_of flag₀ flag₁ c.deletes c.valid c.bitcnt

end Count

/-- The counters of the receiver. -/
def count (s : UsrtRx) : Count := ⟨s.special, s.ones, s.bitcnt, s.valid⟩

theorem count_recv {s : UsrtRx} (habort : s.abort = false) (bit : Bool) :
    (s.recv synchr bit).count = s.count.next s.flag bit := by
  rw [recv_eq, habort, Bool.or_false]
  rfl

/-! ## The bits of a flag -/

theorem last_of_flag {t : Nat} (h : (after synchr b (t + 1)).flag = true) : b t = false := by
  have hbit := getLsbD_of_flag h 7 (by decide)
  rw [getLsbD_after (t + 1) 15 (by decide), if_pos (by omega)] at hbit
  exact hbit

/-- There is no end of a flag in the ones of a flag. -/
theorem flag_in_flag {m k : Nat} (h : IsFlag b m) (hk : k < 8) :
    (after synchr b (m + k)).flag =
      Count.flagAt (after synchr b m).flag (after synchr b (m + 1)).flag k := by
  unfold Count.flagAt
  by_cases hzero : k = 0
  · rw [if_pos hzero, hzero]
    rfl
  · by_cases hone : k = 1
    · rw [if_neg hzero, if_pos hone, hone]
    · rw [if_neg hzero, if_neg hone, ← Bool.not_eq_true]
      intro hflag
      obtain ⟨j, rfl⟩ : ∃ j, k = j + 1 := ⟨k - 1, by omega⟩
      have hlast : b (m + j) = false := last_of_flag hflag
      have hones : ∀ (j : Nat) (hj : j < flagBits.length), 0 < j → j < 7 →
          flagBits[j] = true := by decide
      rw [h j (by change j < 8; omega), hones j _ (by omega) (by omega)] at hlast
      cases hlast

theorem getD_flagBits {m k : Nat} (h : IsFlag b m) (hk : k < 8) :
    flagBits.getD k false = b (m + k) := by
  rw [h k hk]
  exact (List.getElem_eq_getD false).symm

theorem count_in_flag (habort : ∀ t, (after synchr b t).abort = false) {m k : Nat}
    (h : IsFlag b m) (hk : k ≤ 8) : (after synchr b (m + k)).count =
      Count.inFlag (after synchr b m).flag (after synchr b (m + 1)).flag
        (after synchr b m).count k := by
  induction k with
  | zero => rfl
  | succ k ih =>
      have hflag : (after synchr b (m + k)).flag =
          Count.flagAt (after synchr b m).flag (after synchr b (m + 1)).flag k :=
        flag_in_flag h (Nat.lt_of_succ_le hk)
      rw [← Nat.add_assoc, after_succ, count_recv (habort _), ih (by omega), hflag,
        ← getD_flagBits h (Nat.lt_of_succ_le hk)]
      rfl

theorem delivers_in_flag (habort : ∀ t, (after synchr b t).abort = false) {m k : Nat}
    (h : IsFlag b m) (hk : k < 8) : delivers synchr b (m + k) =
      Count.risesAt (after synchr b m).flag (after synchr b (m + 1)).flag
        (after synchr b m).count k := by
  have hnow := count_in_flag habort h (Nat.le_of_lt hk)
  have hnext := count_in_flag habort h hk
  change ((after synchr b (m + k + 1)).count.full && !(after synchr b (m + k)).count.full) = _
  rw [Nat.add_assoc, hnext, hnow]
  rfl

/-- A flag that is where it should be does not follow a flag or share a zero with one, unless
the receiver has found one there. -/
theorem aligned_iff (hflags : ∀ t, (after synchr b t).flag = true ↔ ∃ m, t = m + 8 ∧ IsFlag b m)
    (m : Nat) : Count.aligned (after synchr b m).flag (after synchr b (m + 1)).flag
      (after synchr b m).count = true ↔ Aligned synchr b m := by
  have hshared : (after synchr b m).flag = true ∨ (after synchr b (m + 1)).flag = true ↔
      ∃ m', IsFlag b m' ∧ (m = m' + 8 ∨ m = m' + 7) := by
    rw [hflags m, hflags (m + 1)]
    constructor
    · rintro (⟨m', hm, h⟩ | ⟨m', hm, h⟩)
      · exact ⟨m', h, .inl hm⟩
      · exact ⟨m', h, .inr (by omega)⟩
    · rintro ⟨m', h, hm | hm⟩
      · exact .inl ⟨m', hm, h⟩
      · exact .inr ⟨m', by omega, h⟩
  unfold Count.aligned Aligned
  rw [← hshared]
  simp only [Bool.or_eq_true, Bool.and_eq_true, Bool.not_eq_true', beq_iff_eq, or_assoc]
  rfl

/-! ## The bits of a character -/

theorem flag_zero : (after synchr b 0).flag = false := by
  change reset.flag = false
  decide

theorem taken_succ (t : Nat) : taken synchr b (t + 1) =
    if (after synchr b t).deletes then taken synchr b t else t :: taken synchr b t := rfl

theorem after_bitcnt (t : Nat) : (after synchr b (t + 1)).bitcnt =
    if (after synchr b t).flag then 1
    else if (after synchr b t).deletes then (after synchr b t).bitcnt
    else (after synchr b t).bitcnt + 1 := by
  rw [after_succ, recv_eq]

theorem after_valid (t : Nat) : (after synchr b (t + 1)).valid =
    ((after synchr b t).flag || (after synchr b t).valid) := by
  rw [after_succ, recv_eq]

theorem deletes_of_flag {t : Nat} (h : (after synchr b t).flag = true) :
    (after synchr b t).deletes = false := by
  cases t with
  | zero =>
      rw [flag_zero] at h
      cases h
  | succ t =>
      have hlast := last_of_flag h
      unfold deletes
      rw [after_succ, recv_eq, hlast]
      exact Bool.and_false _

theorem lt_of_mem_taken {t p : Nat} (h : p ∈ taken synchr b t) : p < t := by
  induction t with
  | zero => cases h
  | succ t ih =>
      rw [taken_succ] at h
      split at h
      · exact Nat.lt_succ_of_lt (ih h)
      · rcases List.mem_cons.mp h with rfl | h
        · exact Nat.lt_succ_self p
        · exact Nat.lt_succ_of_lt (ih h)

/-- The data register has the bits that were taken last. -/
theorem data_taken (t j : Nat) (hj : j < (taken synchr b t).length) (hlt : j < 8) :
    (after synchr b t).data.getLsbD (7 - j) = b (taken synchr b t)[j] := by
  induction t generalizing j with
  | zero => exact absurd hj (Nat.not_lt_zero j)
  | succ t ih =>
      have htaken : taken synchr b (t + 1) = _ := taken_succ t
      have hdata : (after synchr b (t + 1)).data =
          if (after synchr b t).deletes then (after synchr b t).data
          else BitVec.ofBool (b t) ++ (after synchr b t).data.extractLsb' 1 7 := by
        rw [after_succ, recv_eq]
      cases hdel : (after synchr b t).deletes with
      | true =>
          rw [hdel, if_pos rfl] at htaken hdata
          simp only [htaken] at hj ⊢
          rw [hdata]
          exact ih j hj hlt
      | false =>
          rw [hdel, if_neg Bool.false_ne_true] at htaken hdata
          simp only [htaken] at hj ⊢
          rw [hdata, BitVec.getLsbD_append]
          cases j with
          | zero => simp
          | succ j =>
              have hpos : 1 + (7 - (j + 1)) = 7 - j := by omega
              have hlen : j < (taken synchr b t).length := Nat.lt_of_succ_lt_succ hj
              rw [if_pos (by omega), BitVec.getLsbD_extractLsb', hpos, ih j hlen (by omega),
                decide_eq_true (by omega), Bool.true_and, List.getElem_cons_succ]

/-- Since the last flag, after `f` bits, `c` bits have been taken. -/
structure Since (synchr : BitVec 8) (b : Nat → Bool) (t f c : Nat) : Prop where
  le : f ≤ t
  last : ∀ u, u ≤ t → (after synchr b u).flag = true → u ≤ f
  place : (after synchr b t).flag = true ∧ c = 0 ∨
    (after synchr b t).flag = false ∧ (after synchr b t).bitcnt.toNat = c % 8
  bits : ∀ p ∈ (taken synchr b t).take c, f ≤ p

theorem Since.of_flag {t : Nat} (h : (after synchr b t).flag = true) : Since synchr b t t 0 where
  le := Nat.le_refl t
  last _ hu _ := hu
  place := .inl ⟨h, rfl⟩
  bits p hp := by
    rw [List.take_zero] at hp
    cases hp

/-- The bit after a flag is the first one of a character. -/
theorem Since.after_flag {t : Nat} (h : (after synchr b t).flag = true)
    (hnext : (after synchr b (t + 1)).flag = false) : Since synchr b (t + 1) t 1 where
  le := Nat.le_succ t
  last u hu hflag := by
    rcases Nat.lt_or_eq_of_le hu with hlt | rfl
    · exact Nat.le_of_lt_succ hlt
    · rw [hnext] at hflag
      cases hflag
  place := by
    right
    rw [after_bitcnt, h, if_pos rfl]
    exact ⟨hnext, rfl⟩
  bits p hp := by
    rw [taken_succ, deletes_of_flag h, if_neg Bool.false_ne_true, List.take_succ_cons,
      List.take_zero, List.mem_singleton] at hp
    exact Nat.le_of_eq hp.symm

/-- A bit is counted unless it is deleted. -/
theorem Since.succ {t f c : Nat} (h : Since synchr b t f c)
    (hflag : (after synchr b t).flag = false) (hnext : (after synchr b (t + 1)).flag = false) :
    ∃ c', Since synchr b (t + 1) f c' := by
  have hlast : ∀ u, u ≤ t + 1 → (after synchr b u).flag = true → u ≤ f := by
    intro u hu hflag'
    rcases Nat.lt_or_eq_of_le hu with hlt | rfl
    · exact h.last u (Nat.le_of_lt_succ hlt) hflag'
    · rw [hnext] at hflag'
      cases hflag'
  have hcnt : (after synchr b t).bitcnt.toNat = c % 8 := by
    rcases h.place with ⟨htrue, -⟩ | ⟨-, hcnt⟩
    · rw [hflag] at htrue
      cases htrue
    · exact hcnt
  have hbitcnt : (after synchr b (t + 1)).bitcnt = _ := after_bitcnt t
  rw [hflag, if_neg Bool.false_ne_true] at hbitcnt
  have hle := h.le
  cases hdel : (after synchr b t).deletes with
  | true =>
      rw [hdel, if_pos rfl] at hbitcnt
      refine ⟨c, Nat.le_succ_of_le hle, hlast, .inr ⟨hnext, by rw [hbitcnt, hcnt]⟩, ?_⟩
      rw [taken_succ, hdel, if_pos rfl]
      exact h.bits
  | false =>
      rw [hdel, if_neg Bool.false_ne_true] at hbitcnt
      refine ⟨c + 1, Nat.le_succ_of_le hle, hlast, .inr ⟨hnext, ?_⟩, ?_⟩
      · rw [hbitcnt]
        bv_omega
      · rw [taken_succ, hdel, if_neg Bool.false_ne_true, List.take_succ_cons]
        intro p hp
        rcases List.mem_cons.mp hp with rfl | hp
        · exact hle
        · exact h.bits p hp

/-- A receiver that has found a flag counts from the last one. -/
theorem exists_since (t : Nat)
    (h : (after synchr b t).flag = true ∨ (after synchr b t).valid = true) :
    ∃ f c, Since synchr b t f c := by
  induction t with
  | zero =>
      rcases h with h | h
      · rw [flag_zero] at h
        cases h
      · cases h
  | succ t ih =>
      cases hnext : (after synchr b (t + 1)).flag with
      | true => exact ⟨t + 1, 0, .of_flag hnext⟩
      | false =>
          cases hflag : (after synchr b t).flag with
          | true => exact ⟨t, 1, .after_flag hflag hnext⟩
          | false =>
              have hvalid : (after synchr b t).valid = true := by
                rcases h with h | h
                · rw [hnext] at h
                  cases h
                · rwa [after_valid, hflag, Bool.false_or] at h
              obtain ⟨f, c, hsince⟩ := ih (.inr hvalid)
              obtain ⟨c', hsince'⟩ := hsince.succ hflag hnext
              exact ⟨f, c', hsince'⟩

/-- The bit that completes a character is taken, and the seven before it have come since the
last flag. -/
theorem of_delivers {t : Nat} (h : delivers synchr b t = true) :
    taken synchr b (t + 1) = t :: taken synchr b t ∧
      ∃ f, f ≤ t ∧ (∀ u, u ≤ t → (after synchr b u).flag = true → u ≤ f) ∧
        ∀ p ∈ (taken synchr b t).take 7, f ≤ p := by
  unfold delivers full at h
  rw [Bool.and_eq_true, Bool.and_eq_true, Bool.not_eq_true', beq_iff_eq] at h
  obtain ⟨⟨hvalid', hzero⟩, hfull⟩ := h
  rw [after_bitcnt] at hzero
  rw [after_valid] at hvalid'
  cases hflag : (after synchr b t).flag with
  | true =>
      rw [hflag, if_pos rfl] at hzero
      cases hzero
  | false =>
      rw [hflag, if_neg Bool.false_ne_true] at hzero
      rw [hflag, Bool.false_or] at hvalid'
      rw [hvalid', Bool.true_and, beq_eq_false_iff_ne] at hfull
      cases hdel : (after synchr b t).deletes with
      | true =>
          rw [hdel, if_pos rfl] at hzero
          exact absurd hzero hfull
      | false =>
          rw [hdel, if_neg Bool.false_ne_true] at hzero
          obtain ⟨f, c, hsince⟩ := exists_since t (.inr hvalid')
          have hseven : 7 ≤ c := by
            rcases hsince.place with ⟨htrue, -⟩ | ⟨-, hcnt⟩
            · rw [hflag] at htrue
              cases htrue
            · have hmod : c % 8 = 7 := by bv_omega
              omega
          refine ⟨?_, f, hsince.le, hsince.last, fun p hp => hsince.bits p ?_⟩
          · rw [taken_succ, hdel, if_neg Bool.false_ne_true]
          · rw [← Nat.min_eq_left hseven, ← List.take_take] at hp
            exact List.mem_of_mem_take hp

/-! ## All streams -/

theorem abort_of_ones (h : ∀ m, ¬ Ones b m 7) (t : Nat) : (after synchr b t).abort = false := by
  rw [← Bool.not_eq_true, abort_iff]
  rintro ⟨m, -, hones, -⟩
  exact h m hones

/-- In an orderly stream no character is completed within a flag. -/
theorem Orderly.not_delivers (h : Orderly synchr b) {m t : Nat} (hflag : IsFlag b m) (hle : m ≤ t)
    (hlt : t < m + 8) : delivers synchr b t = false := by
  have hflags : ∀ t, (after synchr b t).flag = true ↔ ∃ m, t = m + 8 ∧ IsFlag b m :=
    flag_of_start h.start
  have hquiet : ∀ (m k : Nat), IsFlag b m → k < 8 →
      ((after synchr b (m + 1)).flag = true → k ≠ 0) → delivers synchr b (m + k) = false := by
    intro m k hm hk hshared
    rw [delivers_in_flag (abort_of_ones h.ones) hm hk]
    exact (Count.risesAt_iff _ _ _).1 ((aligned_iff hflags m).mpr (h.aligned m hm)) k hk hshared
  obtain ⟨k, rfl⟩ : ∃ k, t = m + k := ⟨t - m, by omega⟩
  by_cases hzero : k = 0 ∧ (after synchr b (m + 1)).flag = true
  · -- The zero that two flags share is the last bit of the first one.
    obtain ⟨rfl, hshared⟩ := hzero
    obtain ⟨m', hm', hflag'⟩ := (hflags (m + 1)).mp hshared
    obtain rfl : m = m' + 7 := by omega
    exact hquiet m' 7 hflag' (by decide) fun _ => by decide
  · exact hquiet m k hflag (by omega) fun hshared hk => hzero ⟨hk, hshared⟩

theorem Orderly.chars (h : Orderly synchr b) {t : Nat} (hdel : delivers synchr b t = true)
    {p : Nat} (hp : p ∈ (taken synchr b (t + 1)).take 8) {m : Nat} (hflag : IsFlag b m) :
    ¬ (m ≤ p ∧ p < m + 8) := by
  rintro ⟨hle, hlt⟩
  have hpast : p < t + 1 := lt_of_mem_taken (List.mem_of_mem_take hp)
  rcases Nat.lt_or_ge t (m + 8) with hin | hpassed
  · rw [h.not_delivers hflag (by omega) hin] at hdel
    cases hdel
  · obtain ⟨htaken, f, hf, hlast, hbits⟩ := of_delivers hdel
    have hend := hlast (m + 8) hpassed ((flag_add_iff m).mpr hflag)
    rw [htaken, List.take_succ_cons] at hp
    rcases List.mem_cons.mp hp with rfl | hp
    · omega
    · have hsince := hbits p hp
      omega

/-- A flag in the middle of a character is part of one that is delivered. -/
theorem Delimits.aligned (h : Delimits synchr b) (m : Nat) (hflag : IsFlag b m) :
    Aligned synchr b m := by
  have habort : ∀ t, (after synchr b t).abort = false := abort_of_ones (aborts_iff.mp h.aborts)
  rw [← aligned_iff h.flags m]
  cases haligned : Count.aligned (after synchr b m).flag (after synchr b (m + 1)).flag
      (after synchr b m).count with
  | true => rfl
  | false =>
      obtain ⟨k, hk, hrises⟩ := (Count.risesAt_iff _ _ _).2 haligned
      rw [← delivers_in_flag habort hflag hk] at hrises
      have hmem : m + k ∈ (taken synchr b (m + k + 1)).take 8 := by
        rw [(of_delivers hrises).1, List.take_succ_cons]
        exact List.mem_cons_self
      exact absurd ⟨Nat.le_add_right m k, by omega⟩ ((h.chars (m + k) hrises _ hmem).1 m hflag)

/-- The receiver finds the flags and the aborts, and keeps them out of the characters, exactly
if the stream does not begin with the end of a flag, has never seven ones in a row, and all its
flags are at the ends of characters. -/
theorem delimits_iff (synchr : BitVec 8) (b : Nat → Bool) :
    Delimits synchr b ↔ Orderly synchr b := by
  constructor
  · intro h
    refine ⟨fun hstart => ?_, aborts_iff.mp h.aborts, h.aligned⟩
    obtain ⟨m, hm, -⟩ := (h.flags 7).mp ((flag_of_lt (by decide)).mpr ⟨rfl, hstart⟩)
    omega
  · intro h
    refine ⟨flag_of_start h.start, aborts_iff.mpr h.ones, fun t hdel p hp => ?_⟩
    refine ⟨fun m hm => h.chars hdel hp hm, fun m k hk hones => ?_⟩
    exact absurd (fun j hj => hones j (by omega)) (h.ones m)

/-- A run of seven ones is not reported when it has its length. -/
theorem delimits_fails : ¬ ∀ (synchr : BitVec 8) (b : Nat → Bool), Delimits synchr b := by
  intro h
  have horderly := (delimits_iff 0 fun t => decide (8 ≤ t) && decide (t < 15)).mp (h 0 _)
  exact horderly.ones 8 (by unfold Ones; decide)

end UsrtRx

end KS10
