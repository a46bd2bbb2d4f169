import KS10.Disk.Talk

/-!
# Words, bytes and counts

How a word is stored in eight bytes, how the word count register counts words, and how
the bus address register counts addresses.
-/

namespace KS10

open Clocked
open Sd (ff)

namespace Sd

/-! ## The bytes of a word -/

section Bytes

variable {u w k len : Nat}

theorem extract_above {x : BitVec u} {y : BitVec w} :
    (x ++ y).extractLsb' (w + k) len = x.extractLsb' k len := by
  rw [BitVec.extractLsb'_append_eq_of_le (Nat.le_add_right w k), Nat.add_sub_cancel_left]

theorem extract_append {x : BitVec w} :
    x.extractLsb' (k + len) u ++ x.extractLsb' k len = x.extractLsb' k (u + len) :=
  BitVec.extractLsb'_append_extractLsb'_eq_extractLsb' rfl

variable {n : BitVec 4} {b3 b2 b1 b0 : BitVec 8}

@[simp] theorem byte0_wordOf : byte0 (wordOf n b3 b2 b1 b0) = b0 :=
  BitVec.extractLsb'_append_eq_right

@[simp] theorem byte1_wordOf : byte1 (wordOf n b3 b2 b1 b0) = b1 :=
  (extract_above (y := b0) (k := 0)).trans BitVec.extractLsb'_append_eq_right

@[simp] theorem byte2_wordOf : byte2 (wordOf n b3 b2 b1 b0) = b2 :=
  (extract_above (y := b0) (k := 8)).trans
    ((extract_above (y := b1) (k := 0)).trans BitVec.extractLsb'_append_eq_right)

@[simp] theorem byte3_wordOf : byte3 (wordOf n b3 b2 b1 b0) = b3 :=
  (extract_above (y := b0) (k := 16)).trans
    ((extract_above (y := b1) (k := 8)).trans
      ((extract_above (y := b2) (k := 0)).trans BitVec.extractLsb'_append_eq_right))

@[simp] theorem nibble4_wordOf : nibble4 (wordOf n b3 b2 b1 b0) = n :=
  (extract_above (y := b0) (k := 24)).trans
    ((extract_above (y := b1) (k := 16)).trans
      ((extract_above (y := b2) (k := 8)).trans BitVec.extractLsb'_append_eq_left))

/-- The bytes are assigned one after the other. -/
theorem setBytes (x : BitVec 36) :
    setNibble4 (setByte3 (setByte2 (setByte1 (setByte0 x b0) b1) b2) b3) n =
      wordOf n b3 b2 b1 b0 := by
  simp only [setNibble4, setByte3, setByte2, setByte1, setByte0, byte0_wordOf, byte1_wordOf,
    byte2_wordOf, byte3_wordOf]

/-- A word is its bytes. -/
theorem wordOf_bytes (x : BitVec 36) :
    wordOf (nibble4 x) (byte3 x) (byte2 x) (byte1 x) (byte0 x) = x := by
  have h3 : x.extractLsb' 32 4 ++ x.extractLsb' 24 8 = x.extractLsb' 24 12 := extract_append
  have h2 : x.extractLsb' 24 12 ++ x.extractLsb' 16 8 = x.extractLsb' 16 20 := extract_append
  have h1 : x.extractLsb' 16 20 ++ x.extractLsb' 8 8 = x.extractLsb' 8 28 := extract_append
  have h0 : x.extractLsb' 8 28 ++ x.extractLsb' 0 8 = x.extractLsb' 0 36 := extract_append
  calc wordOf (nibble4 x) (byte3 x) (byte2 x) (byte1 x) (byte0 x)
      = x.extractLsb' 24 12 ++ x.extractLsb' 16 8 ++ x.extractLsb' 8 8 ++ x.extractLsb' 0 8 :=
        congrArg (fun y : BitVec 12 =>
          y ++ x.extractLsb' 16 8 ++ x.extractLsb' 8 8 ++ x.extractLsb' 0 8) h3
    _ = x.extractLsb' 16 20 ++ x.extractLsb' 8 8 ++ x.extractLsb' 0 8 :=
        congrArg (fun y : BitVec 20 => y ++ x.extractLsb' 8 8 ++ x.extractLsb' 0 8) h2
    _ = x.extractLsb' 8 28 ++ x.extractLsb' 0 8 :=
        congrArg (fun y : BitVec 28 => y ++ x.extractLsb' 0 8) h1
    _ = x := h0.trans BitVec.extractLsb'_eq_self

end Bytes

/-- The word that eight bytes hold. -/
def decode (byte : Nat → BitVec 8) : BitVec 36 :=
  wordOf ((byte 4).extractLsb' 0 4) (byte 3) (byte 2) (byte 1) (byte 0)

/-- The eight bytes of a word. -/
def encode (x : BitVec 36) (k : Nat) : BitVec 8 :=
  match k with
  | 0 => byte0 x
  | 1 => byte1 x
  | 2 => byte2 x
  | 3 => byte3 x
  | 4 => 0#4 ++ nibble4 x
  | _ => 0

theorem decode_congr {f g : Nat → BitVec 8} (h : ∀ k, k < 5 → f k = g k) : decode f = decode g := by
  rw [decode, decode, h 0 (by omega), h 1 (by omega), h 2 (by omega), h 3 (by omega),
    h 4 (by omega)]

theorem decode_encode (x : BitVec 36) : decode (encode x) = x := by
  have h4 : (0#4 ++ nibble4 x).extractLsb' 0 4 = nibble4 x := BitVec.extractLsb'_append_eq_right
  simp only [decode, encode, h4]
  exact wordOf_bytes x

/-! ## Commands with an address -/

theorem address_sectorCommand (s : Sd) (op : BitVec 8) :
    Card.address (s.sectorCommand op) = s.sectADDR := by
  have h2 : s.sectADDR.extractLsb' 24 8 ++ s.sectADDR.extractLsb' 16 8 =
      s.sectADDR.extractLsb' 16 16 := extract_append
  have h1 : s.sectADDR.extractLsb' 16 16 ++ s.sectADDR.extractLsb' 8 8 =
      s.sectADDR.extractLsb' 8 24 := extract_append
  have h0 : s.sectADDR.extractLsb' 8 24 ++ s.sectADDR.extractLsb' 0 8 =
      s.sectADDR.extractLsb' 0 32 := extract_append
  calc Card.address (s.sectorCommand op)
      = s.sectADDR.extractLsb' 16 16 ++ s.sectADDR.extractLsb' 8 8 ++
          s.sectADDR.extractLsb' 0 8 :=
        congrArg (fun y : BitVec 16 =>
          y ++ s.sectADDR.extractLsb' 8 8 ++ s.sectADDR.extractLsb' 0 8) h2
    _ = s.sectADDR.extractLsb' 8 24 ++ s.sectADDR.extractLsb' 0 8 :=
        congrArg (fun y : BitVec 24 => y ++ s.sectADDR.extractLsb' 0 8) h1
    _ = s.sectADDR := h0.trans BitVec.extractLsb'_eq_self

end Sd

/-! ## The counts -/

/-- The word count register with `r` words left: it counts half words up to zero. -/
def RhWc.left (r : Nat) : BitVec 16 := -BitVec.ofNat 16 (2 * r)

namespace RhWc

theorem toNat_left (r : Nat) : (left r).toNat = (65536 - 2 * r % 65536) % 65536 := by
  rw [left, BitVec.toNat_neg, BitVec.toNat_ofNat]

theorem left_eq_zero {r : Nat} (hr : r < 2 ^ 15) : left r = 0 ↔ r = 0 := by
  constructor
  · intro h
    have := toNat_left r
    rw [h, show (0 : BitVec 16).toNat = 0 from rfl] at this
    omega
  · rintro rfl
    rfl

/-- One word is counted. -/
theorem left_count {r : Nat} (hr : r < 2 ^ 15) :
    (if left r != 0 then left r + 2 else left r) = left (r - 1) := by
  cases r with
  | zero => rfl
  | succ r =>
      rw [if_pos (by simpa using fun h => absurd ((left_eq_zero hr).mp h) (Nat.succ_ne_zero r))]
      apply BitVec.eq_of_toNat_eq
      rw [BitVec.toNat_add, toNat_left, toNat_left]
      change (_ + 2) % 65536 = _
      omega

/-- The register holds the count modulo `2 ^ 15` words. -/
theorem left_mod (n : Nat) : left n = left (n % 2 ^ 15) := by
  apply BitVec.eq_of_toNat_eq
  rw [toNat_left, toNat_left]
  omega

end RhWc

namespace RhBa

/-- The register after `m` increments. -/
def plus (r : RhBa) (bai : Bool) (m : Nat) : RhBa :=
  if bai then r else { addr := r.addr + BitVec.ofNat 17 (2 * m) }

variable {r : RhBa} {bai : Bool} {m : Nat}

theorem plus_zero : r.plus bai 0 = r := by
  cases bai <;> simp [plus]

theorem plus_up : (r.plus bai m).up bai = r.plus bai (m + 1) := by
  cases bai
  · simp only [plus, up, Bool.false_eq_true, if_false, Nat.mul_succ, BitVec.ofNat_add]
    rw [BitVec.add_assoc]
    rfl
  · rfl

/-- The bus address counts half words of 18 bits, the lowest bit being left out. -/
theorem toNat_rhBA : r.rhBA.toNat = 2 * r.addr.toNat := by
  rw [rhBA, BitVec.toNat_append, Nat.shiftLeft_eq]
  simp [Nat.mul_comm]

theorem rhBA_plus : (r.plus false m).rhBA = r.rhBA + BitVec.ofNat 18 (4 * m) := by
  apply BitVec.eq_of_toNat_eq
  rw [toNat_rhBA, BitVec.toNat_add, toNat_rhBA]
  simp only [plus, Bool.false_eq_true, if_false, BitVec.toNat_add, BitVec.toNat_ofNat]
  omega

theorem toNat_word : r.word.toNat = r.addr.toNat / 2 := by
  have hr := r.addr.isLt
  rw [word, BitVec.extractLsb'_toNat, toNat_rhBA, Nat.shiftRight_eq_div_pow]
  omega

theorem word_plus : (r.plus false m).word = r.word + BitVec.ofNat 16 m := by
  have hr := r.addr.isLt
  apply BitVec.eq_of_toNat_eq
  rw [toNat_word, BitVec.toNat_add, toNat_word]
  simp only [plus, Bool.false_eq_true, if_false, BitVec.toNat_add, BitVec.toNat_ofNat]
  omega

end RhBa

end KS10
