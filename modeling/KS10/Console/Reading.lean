import KS10.Console.Disassembly

/-!
# The assembler reads the disassembled operands

The operands determine the fields of the word (`Dasm.dasm_reads`), but for the AC of the
instructions that have a mnemonic for each AC.
-/

namespace KS10

open Clocked Stdio

/-! ## Numbers and fields -/

namespace Operands

open Dasm

variable {n : Nat} {rest cs : List Char}

/-- The text does not go on with an octal digit. -/
def Stops (rest : List Char) : Prop := ∀ c, rest.head? = some c → isOctal c = false

theorem stops_nil : Stops [] := nofun

theorem stops_cons {c : Char} (hc : isOctal c = false) : Stops (c :: rest) := by
  rintro d hd
  rw [← Option.some.inj hd]
  exact hc

theorem takeWhile_of_stops (h : Stops rest) : rest.takeWhile isOctal = [] := by
  cases rest with
  | nil => rfl
  | cons c rest =>
      have hc : ¬ isOctal c = true := Bool.eq_false_iff.mp (h c rfl)
      exact List.takeWhile_cons_of_neg hc

theorem dropWhile_of_stops (h : Stops rest) : rest.dropWhile isOctal = rest := by
  cases rest with
  | nil => rfl
  | cons c rest =>
      have hc : ¬ isOctal c = true := Bool.eq_false_iff.mp (h c rfl)
      exact List.dropWhile_cons_of_neg hc

/-- A number is read up to its end. -/
theorem number_octal (n : Nat) (h : Stops rest) : number (octal n ++ rest) = (n, rest) := by
  have hall : ∀ c ∈ octal n, isOctal c = true := fun c hc => isOctal_of_mem hc
  unfold number
  rw [List.takeWhile_append_of_pos hall, List.dropWhile_append_of_pos hall,
    takeWhile_of_stops h, dropWhile_of_stops h, List.append_nil, value_octal]

theorem number_of_stops (h : Stops rest) : number rest = (0, rest) := by
  unfold number
  rw [takeWhile_of_stops h, dropWhile_of_stops h]
  rfl

/-- The texts of an address. -/
inductive Address : Nat → List Char → Prop where
  | none : Address 0 []
  | plain (n : Nat) : Address n (octal n)
  | negative (n : Nat) : Address ((2 ^ 18 - n) % 2 ^ 18) ('-' :: octal n)

theorem stops_index (n : Nat) : Stops (indexText n) := by
  unfold indexText
  split
  · exact stops_cons (by decide)
  · exact stops_nil

theorem readIndex_indexText (n : Nat) : readIndex (indexText n) = some n := by
  unfold indexText
  split
  · have hnumber : number (octal n ++ [')']) = (n, [')']) :=
      number_octal n (stops_cons (by decide))
    show readIndex ('(' :: (octal n ++ [')'])) = some n
    rw [readIndex, hnumber]
    rfl
  · next hzero =>
    rw [not_not.mp hzero]
    rfl

theorem octal_head (n : Nat) : ∃ c cs, octal n = c :: cs ∧ isOctal c = true := by
  cases hoctal : octal n with
  | nil =>
      unfold octal at hoctal
      exact absurd (List.map_eq_nil_iff.mp hoctal) (numeral_ne_nil 8 n)
  | cons c cs => exact ⟨c, cs, rfl, isOctal_of_mem (hoctal ▸ List.mem_cons_self)⟩

theorem readAddress_plain (n x : Nat) :
    readAddress (octal n ++ indexText x) = (n, indexText x) := by
  obtain ⟨c, cs, hoctal, hc⟩ := octal_head n
  have hnumber := number_octal n (stops_index x)
  rw [hoctal] at hnumber ⊢
  unfold readAddress
  split
  · next heq =>
    injection heq with hdash
    rw [hdash] at hc
    exact absurd hc (by decide)
  · exact hnumber

theorem readAddress_eq {a x : Nat} (h : Address a cs) :
    readAddress (cs ++ indexText x) = (a, indexText x) := by
  cases h with
  | none =>
      unfold indexText
      split
      · exact number_of_stops (stops_cons (by decide))
      · rfl
  | plain n => exact readAddress_plain a x
  | negative n =>
      show ((2 ^ 18 - (number (octal n ++ indexText x)).1) % 2 ^ 18,
        (number (octal n ++ indexText x)).2) = _
      rw [number_octal n (stops_index x)]

/-- There is no comma behind the address, so that it is not taken for an AC. -/
theorem number_address {a x : Nat} (h : Address a cs) :
    ∃ m rest, number (cs ++ indexText x) = (m, rest) ∧ ∀ r, rest ≠ ',' :: r := by
  have hindex : ∀ r, indexText x ≠ ',' :: r := by
    intro r
    unfold indexText
    split
    · intro heq
      injection heq with hc
      exact absurd hc (by decide)
    · exact nofun
  cases h with
  | none => exact ⟨0, indexText x, number_of_stops (stops_index x), hindex⟩
  | plain n => exact ⟨a, indexText x, number_octal a (stops_index x), hindex⟩
  | negative n =>
      refine ⟨0, _, number_of_stops (stops_cons (by decide)), fun r heq => ?_⟩
      injection heq with hc
      exact absurd hc (by decide)

theorem readAC_of_number {m : Nat} (hnumber : number cs = (m, rest))
    (hrest : ∀ r, rest ≠ ',' :: r) : readAC cs = (0, cs) := by
  unfold readAC
  rw [hnumber]
  split
  · next heq =>
    injection heq with _ hcomma
    exact absurd hcomma (hrest _)
  · rfl

theorem readIndirect_address {a x : Nat} (h : Address a cs) :
    readIndirect (cs ++ indexText x) = (0, cs ++ indexText x) := by
  have hhead : ∀ r, cs ++ indexText x ≠ '@' :: r := by
    intro r heq
    cases h with
    | none =>
        unfold indexText at heq
        split at heq
        · injection heq with hc
          exact absurd hc (by decide)
        · exact absurd heq nofun
    | plain n =>
        obtain ⟨c, ds, hoctal, hc⟩ := octal_head a
        rw [hoctal] at heq
        injection heq with hat
        rw [hat] at hc
        exact absurd hc (by decide)
    | negative n =>
        injection heq with hc
        exact absurd hc (by decide)
  unfold readIndirect
  split
  · next r heq => exact absurd heq (hhead r)
  · rfl

/-- The fields of the operands are read back. -/
theorem read_eq {ac i a x : Nat} (hi : i < 2) (h : Address a cs) :
    read (acText ac ++ indirectText i ++ cs ++ indexText x) = some ⟨ac, i, x, a⟩ := by
  have hindirect : readIndirect (indirectText i ++ (cs ++ indexText x)) =
      (i, cs ++ indexText x) := by
    unfold indirectText
    split
    · next hne =>
      have hone : i = 1 := by omega
      rw [hone]
      rfl
    · next hzero =>
      rw [not_not.mp hzero]
      exact readIndirect_address h
  have hac : readAC (acText ac ++ (indirectText i ++ (cs ++ indexText x))) =
      (ac, indirectText i ++ (cs ++ indexText x)) := by
    by_cases hzero : ac = 0
    · rw [hzero]
      show readAC (indirectText i ++ (cs ++ indexText x)) = _
      unfold indirectText
      split
      · refine readAC_of_number (number_of_stops (stops_cons (by decide))) fun r heq => ?_
        injection heq with hc
        exact absurd hc (by decide)
      · obtain ⟨m, rest, hnumber, hrest⟩ := number_address (x := x) h
        exact readAC_of_number hnumber hrest
    · unfold acText readAC
      rw [if_pos hzero, List.append_assoc, List.singleton_append,
        number_octal ac (stops_cons (by decide))]
      rfl
  unfold read
  rw [List.append_assoc, List.append_assoc, hac]
  dsimp only
  rw [hindirect]
  dsimp only
  rw [readAddress_eq h]
  dsimp only
  rw [readIndex_indexText]
  rfl

end Operands

/-! ## Words -/

namespace Dasm

variable (insn : BitVec 64)

theorem address_plain {w : Operands} : Operands.Address w.address (addressText false w) := by
  unfold addressText
  split
  · rw [if_neg fun h => absurd h.1 nofun]
    exact .plain w.address
  · next hzero =>
    rw [not_or, not_or, not_or] at hzero
    rw [not_not.mp hzero.2.2.2]
    exact .none

/-- A negative address is read back, but for the least one, which is printed as a negative
zero. -/
theorem address_signed {w : Operands} (hlt : w.address < 2 ^ 18) (hne : w.address ≠ 2 ^ 17) :
    Operands.Address w.address (addressText true w) := by
  by_cases hsign : 2 ^ 17 ≤ w.address
  · have hsmall : (2 ^ 18 - w.address) % 2 ^ 17 = 2 ^ 18 - w.address :=
      Nat.mod_eq_of_lt (by omega)
    have hback : (2 ^ 18 - (2 ^ 18 - w.address)) % 2 ^ 18 = w.address := by omega
    have hany : w.ac ≠ 0 ∨ w.indirect ≠ 0 ∨ w.index ≠ 0 ∨ w.address ≠ 0 :=
      .inr (.inr (.inr (by omega)))
    have haddress := Operands.Address.negative (2 ^ 18 - w.address)
    rw [hback] at haddress
    unfold addressText
    rw [if_pos hany, if_pos ⟨rfl, hsign⟩, hsmall]
    exact haddress
  · have hnone : ∀ signed : Bool, ¬ (signed = true ∧ 2 ^ 17 ≤ w.address) := fun _ h => hsign h.2
    have hplain : addressText true w = addressText false w := by
      unfold addressText
      rw [if_neg (hnone true), if_neg (hnone false)]
    rw [hplain]
    exact address_plain

/-! ## The parts of a text -/

/-- The string in the buffer. -/
def string (buf : List Char) : List Char := buf.takeWhile (· ≠ nul)

/-- What stands behind the first tab. -/
def behindTab (text : List Char) : List Char := (text.dropWhile (· ≠ '\t')).tail

def mnemonicPart (text : List Char) : List Char := (behindTab text).takeWhile (· ≠ '\t')

def operandPart (text : List Char) : List Char := behindTab (behindTab text)

variable {s rest : List Char}

theorem behindTab_append (h : ∀ c ∈ s, c ≠ '\t') : behindTab (s ++ '\t' :: rest) = rest := by
  unfold behindTab
  rw [List.dropWhile_append_of_pos fun c hc => decide_eq_true (h c hc),
    List.dropWhile_cons_of_neg (by decide)]
  rfl

theorem takeWhile_append {ch : Char} (h : ∀ c ∈ s, c ≠ ch) :
    (s ++ ch :: rest).takeWhile (· ≠ ch) = s := by
  rw [List.takeWhile_append_of_pos fun c hc => decide_eq_true (h c hc),
    List.takeWhile_cons_of_neg (by simp), List.append_nil]

/-- The characters of a number. -/
theorem clean_octal {n : Nat} {c : Char} (hc : c ∈ octal n) : c ≠ '\t' ∧ c ≠ nul := by
  have hoctal := isOctal_of_mem hc
  constructor
  · rintro rfl
    exact absurd hoctal (by decide)
  · rintro rfl
    exact absurd hoctal (by decide)

theorem clean_padded {width : BitVec 32} {n : Nat} {c : Char}
    (hc : c ∈ chrout width '0' (octal n)) : c ≠ '\t' ∧ c ≠ nul := by
  rcases List.mem_append.mp hc with hpad | hdigit
  · rw [List.eq_of_mem_replicate hpad]
    decide
  · exact clean_octal hdigit

theorem clean_fields {c : Char} (hc : c ∈ fieldsText insn) : c ≠ '\t' ∧ c ≠ nul := by
  unfold fieldsText at hc
  simp only [List.mem_append, List.mem_cons] at hc
  rcases hc with (((hc | rfl | hc) | rfl | hc) | rfl | hc) | rfl | hc
  · exact clean_padded hc
  · decide
  · exact clean_padded hc
  · decide
  · exact clean_padded hc
  · decide
  · exact clean_padded hc
  · decide
  · exact clean_padded hc

theorem clean_operands {signed : Bool} {w : Operands} {c : Char}
    (hc : c ∈ operandsText signed w) : c ≠ nul := by
  unfold operandsText acText indirectText indexText at hc
  simp only [List.mem_append] at hc
  rcases hc with ((hc | hc) | hc) | hc
  · split at hc
    · rcases List.mem_append.mp hc with hc | hc
      · exact (clean_octal hc).2
      · rw [List.mem_singleton.mp hc]
        decide
    · exact absurd hc List.not_mem_nil
  · split at hc
    · rw [List.mem_singleton.mp hc]
      decide
    · exact absurd hc List.not_mem_nil
  · unfold addressText at hc
    split at hc
    · split at hc
      · rcases List.mem_cons.mp hc with rfl | hc
        · decide
        · exact (clean_octal hc).2
      · exact (clean_octal hc).2
    · exact absurd hc List.not_mem_nil
  · split at hc
    · rcases List.mem_cons.mp hc with rfl | hc
      · decide
      · rcases List.mem_append.mp hc with hc | hc
        · exact (clean_octal hc).2
        · rw [List.mem_singleton.mp hc]
          decide
    · exact absurd hc List.not_mem_nil

/-- The string in the buffer is the text of the word. -/
theorem string_wordText : string (wordText insn ++ [nul]) = wordText insn := by
  refine takeWhile_append fun c hc => ?_
  unfold wordText at hc
  rcases List.mem_append.mp hc with hc | hc
  · exact (clean_fields insn hc).2
  · rcases List.mem_cons.mp hc with rfl | hc
    · decide
    · rcases List.mem_append.mp hc with hc | hc
      · exact (mem_name hc).2
      · rcases List.mem_cons.mp hc with rfl | hc
        · decide
        · exact clean_operands hc

theorem mnemonicPart_wordText : mnemonicPart (wordText insn) = name insn := by
  unfold mnemonicPart wordText
  rw [behindTab_append fun c hc => (clean_fields insn hc).1]
  exact takeWhile_append fun c hc => (mem_name hc).1

theorem operandPart_wordText : operandPart (wordText insn) =
    operandsText (decide (table (op insn) = .opSTD)) (shown insn) := by
  unfold operandPart wordText
  rw [behindTab_append fun c hc => (clean_fields insn hc).1,
    behindTab_append fun c hc => (mem_name hc).1]

/-! ## The length of a text -/

/-- The number of octal digits. -/
def digits (n : Nat) : Nat := (numeral 8 n).length

/-- The length of the address. -/
def addressLength (signed : Bool) (w : Operands) : Nat :=
  if w.ac ≠ 0 ∨ w.indirect ≠ 0 ∨ w.index ≠ 0 ∨ w.address ≠ 0 then
    if signed = true ∧ 2 ^ 17 ≤ w.address then 1 + digits ((2 ^ 18 - w.address) % 2 ^ 17)
    else digits w.address
  else 0

/-- The length of the operands. -/
def operandsLength (signed : Bool) (w : Operands) : Nat :=
  (if w.ac ≠ 0 then digits w.ac + 1 else 0) + (if w.indirect ≠ 0 then 1 else 0) +
    addressLength signed w + if w.index ≠ 0 then digits w.index + 2 else 0

theorem length_octal (n : Nat) : (octal n).length = digits n := List.length_map _

theorem length_operandsText (signed : Bool) (w : Operands) :
    (operandsText signed w).length = operandsLength signed w := by
  have haddress : (addressText signed w).length = addressLength signed w := by
    unfold addressText addressLength
    split
    · split
      · rw [List.length_cons, length_octal, Nat.add_comm]
      · exact length_octal _
    · rfl
  have hac : (acText w.ac).length = if w.ac ≠ 0 then digits w.ac + 1 else 0 := by
    unfold acText
    split
    · rw [List.length_append, length_octal]
      rfl
    · rfl
  have hindirect : (indirectText w.indirect).length = if w.indirect ≠ 0 then 1 else 0 := by
    unfold indirectText
    split <;> rfl
  have hindex : (indexText w.index).length = if w.index ≠ 0 then digits w.index + 2 else 0 := by
    unfold indexText
    split
    · rw [List.length_cons, List.length_append, length_octal]
      rfl
    · rfl
  unfold operandsText operandsLength
  rw [List.length_append, List.length_append, List.length_append, hac, hindirect, haddress, hindex]

theorem length_wordText : (wordText insn).length = 20 + (name insn).length +
    operandsLength (decide (table (op insn) = .opSTD)) (shown insn) := by
  unfold wordText
  rw [List.length_append, List.length_cons, List.length_append, List.length_cons,
    length_fieldsText, length_operandsText]
  omega

/-! ## Disassembled words -/

/-- What the text of a word tells. -/
structure Disassembles (buf : List Char) : Prop where
  /-- A mnemonic and operands of at most 11 characters fit into the buffer. -/
  fits : (name insn).length +
    operandsLength (decide (table (op insn) = .opSTD)) (shown insn) ≤ 11 → buf.length ≤ bufferSize
  mnemonic : mnemonicPart (string buf) = name insn
  /-- A standard instruction prints the address 400000 as a negative zero. -/
  operands : ¬ (table (op insn) = .opSTD ∧ (Operands.ofWord insn).address = 2 ^ 17) →
    Operands.read (operandPart (string buf)) = some (shown insn)

/-- The operands of a word are read back to its fields.  The instructions that have a mnemonic
for each AC leave the AC out. -/
theorem dasm_reads : ∃ buf, dasm insn = some buf ∧ Disassembles insn buf := by
  refine ⟨_, dasm_eq insn, ?_, ?_, ?_⟩
  · intro hle
    rw [List.length_append, length_wordText, List.length_singleton]
    unfold bufferSize
    omega
  · rw [string_wordText]
    exact mnemonicPart_wordText insn
  · intro hne
    rw [string_wordText, operandPart_wordText]
    unfold shown operandsText
    by_cases hstd : table (op insn) = .opSTD
    · rw [if_pos hstd, decide_eq_true hstd]
      exact Operands.read_eq (indirect_lt insn)
        (address_signed (address_lt insn) fun heq => hne ⟨hstd, heq⟩)
    · rw [if_neg hstd, decide_eq_false hstd]
      exact Operands.read_eq (indirect_lt insn)
        (address_plain (w := { Operands.ofWord insn with ac := 0 }))

/-- The text fits into the buffer, and its operands determine all of the fields. -/
def Determined : Prop :=
  ∃ buf, dasm insn = some buf ∧ buf.length ≤ bufferSize ∧
    Operands.read (operandPart (string buf)) = some (Operands.ofWord insn)

/-- `HALT` does not print its AC of 4, `MOVNS @3456(12)` has 35 characters with the zero, and the
address 400000 of `MOVNS` is read back as zero. -/
theorem dasm_fails : ¬ Determined 0o254200000000 ∧ ¬ Determined 0o213032003456 ∧
    ¬ Determined 0o213000400000 := by
  refine ⟨?_, ?_, ?_⟩
  · rintro ⟨buf, hbuf, -, hread⟩
    obtain rfl : "254 04 0 00 000000\tHALT\t".toList ++ [nul] = buf :=
      Option.some.inj (Eq.trans (by decide +kernel) hbuf)
    exact absurd hread (by decide +kernel)
  · rintro ⟨buf, hbuf, hlength, -⟩
    obtain rfl : "213 00 1 12 003456\tMOVNS\t@3456(12)".toList ++ [nul] = buf :=
      Option.some.inj (Eq.trans (by decide +kernel) hbuf)
    exact absurd hlength (by decide +kernel)
  · rintro ⟨buf, hbuf, -, hread⟩
    obtain rfl : "213 00 0 00 400000\tMOVNS\t-0".toList ++ [nul] = buf :=
      Option.some.inj (Eq.trans (by decide +kernel) hbuf)
    exact absurd hread (by decide +kernel)

end Dasm

end KS10
