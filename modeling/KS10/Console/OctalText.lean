import KS10.Console.Printing
import Mathlib.Tactic.Ring

/-!
# Octal numbers on the console

The console prints words in octal, in fields that are filled up with zeros, and the commands
take octal numbers.  `parseOctal` reads at most 22 digits.  It reads a printed word as the same
word unless the field has more than 22 characters, of which it does not see the last ones
(`Stdio.octalText`).
-/

namespace KS10

open Clocked

namespace Stdio

/-! ## The parser -/

/-- What `parseOctal` returns and what it sends to the terminal. -/
structure Parsed where
  num : BitVec 64
  console : List Char

def isOctalDigit (ch : Char) : Bool := '0' ≤ ch && ch ≤ '7'

def invalidCharacter : List Char := "Parsed invalid character.\n".toList

/-- The loop over the text.  The number is one digit to the left of its place. -/
def parseOctalLoop (i : Nat) (num : BitVec 64) : List Char → Parsed
  | [] => ⟨num, []⟩
  | ch :: buf =>
      if i < 64 then
        if isOctalDigit ch then
          parseOctalLoop (i + 3) ((num + BitVec.ofNat 64 (ch.toNat - '0'.toNat)) <<< 3) buf
        else ⟨num, invalidCharacter⟩
      else ⟨num, []⟩

/-- The text is what stands in front of its zero. -/
def parseOctal (buf : List Char) : Parsed :=
  let parsed := parseOctalLoop 0 0 buf
  { parsed with num := parsed.num >>> 3 }

/-! ## Digits -/

/-- The character of a digit. -/
def digitChar (d : Nat) : Char := lowerDigits.getD d nul

theorem isOctalDigit_digitChar {d : Nat} (hd : d < 8) : isOctalDigit (digitChar d) = true := by
  have hall : ∀ d, d < 8 → isOctalDigit (digitChar d) = true := by decide
  exact hall d hd

theorem toNat_digitChar {d : Nat} (hd : d < 8) : (digitChar d).toNat - '0'.toNat = d := by
  have hall : ∀ d, d < 8 → (digitChar d).toNat - '0'.toNat = d := by decide
  exact hall d hd

/-- One more digit, one digit to the left of its place. -/
theorem shift_add_digit (v d : Nat) :
    (BitVec.ofNat 64 (8 * v) + BitVec.ofNat 64 d) <<< 3 = BitVec.ofNat 64 (8 * (v * 8 + d)) := by
  apply BitVec.eq_of_toNat_eq
  rw [← BitVec.ofNat_add, BitVec.toNat_shiftLeft, BitVec.toNat_ofNat, BitVec.toNat_ofNat,
    Nat.shiftLeft_eq, Nat.mod_mul_mod]
  congr 1
  ring

/-- The loop reads digits until its count is through. -/
theorem parseOctalLoop_digits {ds : List Nat} (hds : ∀ d ∈ ds, d < 8) (k v : Nat) (hk : k ≤ 22) :
    parseOctalLoop (3 * k) (BitVec.ofNat 64 (8 * v)) (ds.map digitChar) =
      ⟨BitVec.ofNat 64 (8 * (ds.take (22 - k)).foldl (fun v d => v * 8 + d) v), []⟩ := by
  induction ds generalizing k v with
  | nil => rw [List.take_nil]; rfl
  | cons d ds ih =>
      have hd : d < 8 := hds d List.mem_cons_self
      have hrest : ∀ e ∈ ds, e < 8 := fun e he => hds e (List.mem_cons_of_mem d he)
      rw [List.map_cons]
      unfold parseOctalLoop
      rcases Nat.lt_or_eq_of_le hk with hlt | rfl
      · have htake : 22 - k = 22 - (k + 1) + 1 := by omega
        rw [if_pos (by omega), if_pos (isOctalDigit_digitChar hd), toNat_digitChar hd,
          shift_add_digit, ← Nat.mul_succ, ih hrest (k + 1) (v * 8 + d) hlt, htake,
          List.take_succ_cons, List.foldl_cons]
      · rw [if_neg (by omega)]
        rfl

/-- The value of at most 22 digits, in 61 bits. -/
theorem parseOctal_digits {ds : List Nat} (hds : ∀ d ∈ ds, d < 8) :
    parseOctal (ds.map digitChar) =
      ⟨BitVec.ofNat 64 (numeralValue 8 (ds.take 22) % 2 ^ 61), []⟩ := by
  have hloop : parseOctalLoop 0 0 (ds.map digitChar) =
      ⟨BitVec.ofNat 64 (8 * numeralValue 8 (ds.take 22)), []⟩ :=
    parseOctalLoop_digits hds 0 0 (Nat.zero_le 22)
  have hshift (n : Nat) : BitVec.ofNat 64 (8 * n) >>> 3 = BitVec.ofNat 64 (n % 2 ^ 61) := by
    apply BitVec.eq_of_toNat_eq
    rw [BitVec.toNat_ushiftRight, BitVec.toNat_ofNat, BitVec.toNat_ofNat,
      Nat.shiftRight_eq_div_pow]
    omega
  unfold parseOctal
  dsimp only
  rw [hloop, hshift]

/-! ## Printed numbers -/

/-- A field with the digits of `n`, filled up with zeros. -/
def zeroField (width : BitVec 32) (n : Nat) : List Nat :=
  List.replicate (width.toInt.toNat - (numeral 8 n).length) 0 ++ numeral 8 n

theorem chrout_digits (width : BitVec 32) (n : Nat) :
    chrout width '0' ((numeral 8 n).map digitChar) = (zeroField width n).map digitChar := by
  unfold chrout zeroField
  rw [trim_eq, List.length_map, List.map_append, List.map_replicate]
  rfl

theorem lt_of_mem_zeroField {width : BitVec 32} {n d : Nat} (hd : d ∈ zeroField width n) :
    d < 8 := by
  rcases List.mem_append.mp hd with hpad | hdigit
  · rw [List.eq_of_mem_replicate hpad]
    decide
  · exact lt_of_mem_numeral (by decide) hdigit

theorem length_zeroField (width : BitVec 32) (n : Nat) :
    (zeroField width n).length = max width.toInt.toNat (numeral 8 n).length := by
  unfold zeroField
  rw [List.length_append, List.length_replicate]
  omega

/-- The parser loses the digits behind the first 22. -/
theorem value_take_zeroField (width : BitVec 32) (n : Nat) :
    numeralValue 8 ((zeroField width n).take 22) = n / 8 ^ ((zeroField width n).length - 22) := by
  have hvalue : numeralValue 8 (zeroField width n) = n := by
    unfold zeroField
    rw [numeralValue_replicate_append, value_numeral (by decide)]
  rw [numeralValue_take (fun d hd => lt_of_mem_zeroField hd) (by decide), hvalue]

/-- The text `text` of a number in a field with zeros, whose digits are `digits`. -/
structure OctalField (width : BitVec 32) (n : Nat) (digits text : List Char) : Prop where
  padded : text = List.replicate (width.toInt.toNat - digits.length) '0' ++ digits
  length : text.length = max width.toInt.toNat digits.length
  /-- There are as many digits as the number needs. -/
  count : ∀ k, 0 < k → (digits.length ≤ k ↔ n < 8 ^ k)
  head : digits.head? = some '0' → n = 0 ∧ digits = ['0']
  console : (parseOctal text).console = []
  parsed : n < 2 ^ 60 → ((parseOctal text).num.toNat = n ↔ width.toInt ≤ 22 ∨ n = 0)

theorem parseOctal_chrout (width : BitVec 32) {n : Nat} (hn : n < 2 ^ 60) :
    (parseOctal (chrout width '0' ((numeral 8 n).map digitChar))).num.toNat = n ↔
      width.toInt ≤ 22 ∨ n = 0 := by
  have hlen := length_zeroField width n
  have hdigits : (numeral 8 n).length ≤ 20 :=
    (numeral_length_le_iff (by decide) (by decide)).mpr (Nat.lt_of_lt_of_le hn (by decide))
  have hle := Nat.div_le_self n (8 ^ ((zeroField width n).length - 22))
  rw [chrout_digits, parseOctal_digits fun d hd => lt_of_mem_zeroField hd, value_take_zeroField]
  have hsmall : n / 8 ^ ((zeroField width n).length - 22) < 2 ^ 61 := by omega
  dsimp only
  rw [Nat.mod_eq_of_lt hsmall, BitVec.toNat_ofNat, Nat.mod_eq_of_lt (by omega)]
  constructor
  · intro heq
    by_contra hnot
    rw [not_or, Int.not_le] at hnot
    obtain ⟨k, hk⟩ : ∃ k, (zeroField width n).length - 22 = k + 1 :=
      ⟨(zeroField width n).length - 23, by omega⟩
    have hlt : n / 8 ^ (k + 1) < n :=
      Nat.div_lt_self (Nat.pos_of_ne_zero hnot.2) (Nat.one_lt_pow (Nat.succ_ne_zero k) (by decide))
    rw [hk] at heq
    omega
  · rintro (hwidth | rfl)
    · have hzero : (zeroField width n).length - 22 = 0 := by omega
      rw [hzero, Nat.pow_zero, Nat.div_one]
    · exact Nat.zero_div _

theorem octalField (width : BitVec 32) (n : Nat) :
    OctalField width n ((numeral 8 n).map digitChar)
      (chrout width '0' ((numeral 8 n).map digitChar)) where
  padded := by
    unfold chrout
    rw [trim_eq]
  length := length_chrout _ _ _
  count := by
    intro k hk
    rw [List.length_map]
    exact numeral_length_le_iff (by decide) hk
  head := by
    intro hhead
    have hzero : ∀ d, d < 8 → digitChar d = '0' → d = 0 := by decide
    have hn : n = 0 := by
      by_contra hne
      rw [List.head?_map, Option.map_eq_some_iff] at hhead
      obtain ⟨d, hd, hchar⟩ := hhead
      have hlt : d < 8 := lt_of_mem_numeral (by decide) (List.mem_of_mem_head? hd)
      rw [hzero d hlt hchar] at hd
      exact head?_numeral (by decide) hne hd
    refine ⟨hn, ?_⟩
    rw [hn]
    rfl
  console := by
    rw [chrout_digits, parseOctal_digits fun d hd => lt_of_mem_zeroField hd]
  parsed := fun hn => parseOctal_chrout width hn

/-- The octal conversions of both converters, in fields of any width. -/
theorem octalText (leftFlag : Bool) (width prec : BitVec 32) (args : List Arg) :
    (∀ (size : Size) (w : BitVec 32), size ≠ .longLong → ∃ text,
      Printf.send ⟨leftFlag, '0', width, prec, size, 'o'⟩ (.word w :: args) = some (text, args) ∧
        OctalField width w.toNat (ultoa w 8 lowerDigits) text) ∧
    ∀ v : BitVec 64, ∃ text,
      Printf.send ⟨leftFlag, '0', width, prec, .longLong, 'o'⟩ (.double v :: args) =
        some (text, args) ∧ OctalField width v.toNat (ulltoa v 8 lowerDigits) text := by
  refine ⟨fun size w hsize => ⟨chrout width '0' (ultoa w 8 lowerDigits), ?_, ?_⟩,
    fun v => ⟨chrout width '0' (ulltoa v 8 lowerDigits), rfl, ?_⟩⟩
  · cases size with
    | int | long => rfl
    | longLong => exact absurd rfl hsize
  · rw [ultoa_eq (by decide)]
    exact octalField width w.toNat
  · rw [ulltoa_oct]
    exact octalField width v.toNat

/-- A field of 23 characters, of which the last one is not read. -/
theorem octalText_fails : ¬ ∀ (width : BitVec 32) (v : BitVec 64), v.toNat < 2 ^ 60 →
    (parseOctal (chrout width '0' (ulltoa v 8 lowerDigits))).num = v := by
  intro h
  exact absurd (h 23 1 (by decide)) (by decide)

end Stdio

end KS10
