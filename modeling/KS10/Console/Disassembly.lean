import KS10.Console.Dasm
import KS10.Console.Printing

/-!
# The disassembled word

The text of a word is its fields, a mnemonic and the operands, each of known length.  The
assembler reads the operands back to the fields that they stand for.  The functions for `JRST`
and for the input and output instructions have a mnemonic for each AC and leave the AC out of
the operands.
-/

namespace KS10

open Clocked Stdio

namespace Dasm

/-! ## Texts of formats -/

/-- The octal digits of a number. -/
def octal (n : Nat) : List Char := (numeral 8 n).map (lowerDigits.getD · nul)

/-- The text that the loop stores. -/
def texts (items : List Item) (args : List Arg) : Option (List Char) :=
  (Vsnprintf.run items args).map Field.text

/-- The directive `%o` with a width that is filled up by zeros, or without a width. -/
def octalDirective (padchar : Char) (width : BitVec 32) : Directive :=
  ⟨false, padchar, width, 0, .int, 'o'⟩

/-- The directive `%s`. -/
def stringDirective : Directive := ⟨false, ' ', 0, 0, .int, 's'⟩

variable {items : List Item} {args : List Arg}

@[simp] theorem texts_nil : texts [] args = some [] := rfl

@[simp] theorem texts_char (ch : Char) :
    texts (.char ch :: items) args = (texts items args).map (ch :: ·) := by
  unfold texts
  rw [Option.map_map]
  show ((Vsnprintf.run items args).map _).map _ = _
  rw [Option.map_map]
  rfl

theorem ultoa_octal (w : BitVec 32) : ultoa w 8 lowerDigits = octal w.toNat :=
  ultoa_eq (by decide) w

@[simp] theorem texts_octal (padchar : Char) (width w : BitVec 32) :
    texts (.directive (octalDirective padchar width) :: items) (.word w :: args) =
      (texts items args).map (chrout width padchar (octal w.toNat) ++ ·) := by
  unfold texts
  rw [Option.map_map, ← ultoa_octal]
  show ((Vsnprintf.run items args).bind _).map _ = _
  cases Vsnprintf.run items args <;> rfl

theorem chrout_zero (padchar : Char) (src : List Char) : chrout 0#32 padchar src = src := by
  have hpad : (trim src (0#32).toInt).toNat = 0 := by
    rw [trim_eq]
    exact Nat.zero_sub _
  unfold chrout
  rw [hpad]
  rfl

@[simp] theorem texts_string (s : List Char) :
    texts (.directive stringDirective :: items) (.string s :: args) =
      (texts items args).map (s ++ ·) := by
  unfold texts
  rw [Option.map_map]
  show ((Vsnprintf.run items args).bind _).map _ = _
  have hs : (strout 0 nul s).text = s := chrout_zero nul s
  cases Vsnprintf.run items args with
  | none => rfl
  | some field =>
      show some ((strout 0 nul s).text ++ field.text) = _
      rw [hs]
      rfl

/-! ## Calls of sprintf -/

/-- A call prints a text and closes it. -/
def Prints (fmt : List Char) (args : List Arg) (text : List Char) : Prop :=
  ∃ s, Stdio.sprintf fmt args = some s ∧ s.text = text ∧ s.closed = true ∧
    s.ret = BitVec.ofNat 32 text.length

/-- The text is in the buffer, with a zero behind it, after `n` calls. -/
structure Out.Holds (o : Out) (text : List Char) (n : Nat) : Prop where
  buf : o.buf = text ++ [nul]
  len : o.len = BitVec.ofNat 32 text.length
  le : text.length ≤ 32 * n

variable {o : Out} {text new fmt : List Char} {n : Nat}

theorem prints_of_texts (items : List Item) (hformat : format fmt = ⟨items, true⟩)
    (htakes : items.flatMap Item.takes <+: args.map Arg.ty) (hrun : texts items args = some text) :
    Prints fmt args text := by
  obtain ⟨sent, s, -, hstore, htexts⟩ := texts_run htakes
  unfold texts at hrun
  rw [hstore, Option.map_some, Option.some_inj] at hrun
  refine ⟨{ s with closed := true }, ?_, hrun, rfl, ?_⟩
  · unfold Stdio.sprintf vsnprintf
    rw [hformat]
    dsimp only
    rw [hstore]
    rfl
  · rw [← hrun]
    exact htexts.ret

theorem start_sprintf (h : Prints fmt args new) (hnew : new.length ≤ 32) :
    ∃ o, Out.start.sprintf fmt args = some o ∧ o.Holds new 1 := by
  obtain ⟨s, hs, htext, hclosed, hret⟩ := h
  unfold Out.sprintf
  rw [hs]
  refine ⟨_, rfl, ?_, ?_, hnew⟩
  · unfold Stored.bytes Out.start
    dsimp only
    rw [hclosed, htext, if_pos rfl, List.take_nil, List.drop_nil, List.append_nil]
    rfl
  · show 0#32 + s.ret = _
    rw [hret, BitVec.zero_add]

/-- A call writes behind the text. -/
theorem Out.Holds.sprintf (ho : o.Holds text n) (hn : n < 2 ^ 16) (h : Prints fmt args new)
    (hnew : new.length ≤ 32) :
    ∃ o', o.sprintf fmt args = some o' ∧ o'.Holds (text ++ new) (n + 1) := by
  obtain ⟨s, hs, htext, hclosed, hret⟩ := h
  have hle := ho.le
  have hlen : o.len.toNat = text.length := by
    rw [ho.len, BitVec.toNat_ofNat, Nat.mod_eq_of_lt (by omega)]
  have hbytes : s.bytes = new ++ [nul] := by
    unfold Stored.bytes
    rw [hclosed, htext, if_pos rfl]
  unfold Out.sprintf
  rw [hs]
  refine ⟨_, rfl, ?_, ?_, ?_⟩
  · dsimp only
    have hdrop : (text ++ [nul]).drop (text.length + (new ++ [nul]).length) = [] := by
      rw [List.drop_eq_nil_iff, List.length_append, List.length_append, List.length_singleton]
      omega
    rw [hlen, hbytes, ho.buf, hdrop, List.take_left, List.append_nil, List.append_assoc]
  · show o.len + s.ret = _
    rw [ho.len, hret, List.length_append, BitVec.ofNat_add]
  · rw [List.length_append]
    omega

/-! ## Octal numbers -/

theorem isOctal_of_mem {c : Char} (hc : c ∈ octal n) : Operands.isOctal c = true := by
  have hdigit : ∀ d, d < 8 → Operands.isOctal (lowerDigits.getD d nul) = true := by decide
  obtain ⟨d, hd, rfl⟩ := List.mem_map.mp hc
  exact hdigit d (lt_of_mem_numeral (by decide) hd)

theorem length_octal_le {k : Nat} (hk : 0 < k) (hn : n < 8 ^ k) : (octal n).length ≤ k := by
  unfold octal
  rw [List.length_map, numeral_length_le_iff (by decide) hk]
  exact hn

/-- The digits are read back. -/
theorem value_octal (n : Nat) : Operands.value (octal n) = n := by
  have hdigit : ∀ d, d < 8 → (lowerDigits.getD d nul).toNat - '0'.toNat = d := by decide
  have hread : ∀ ds : List Nat, (∀ d ∈ ds, d < 8) →
      Operands.value (ds.map (lowerDigits.getD · nul)) = numeralValue 8 ds := by
    intro ds
    induction ds using List.reverseRecOn with
    | nil => exact fun _ => rfl
    | append_singleton ds d ih =>
        intro hds
        have hd : d < 8 := hds d (List.mem_append_right _ List.mem_cons_self)
        have hrest := ih fun e he => hds e (List.mem_append_left _ he)
        rw [numeralValue_concat, ← hrest, List.map_append]
        unfold Operands.value
        rw [List.foldl_append]
        show _ * 8 + ((lowerDigits.getD d nul).toNat - '0'.toNat) = _
        rw [hdigit d hd]
  unfold octal
  rw [hread _ fun d hd => lt_of_mem_numeral (by decide) hd, value_numeral (by decide)]

/-! ## The calls -/

theorem prints_ac (w : BitVec 32) : Prints "%o,".toList [.word w] (octal w.toNat ++ [',']) := by
  refine prints_of_texts [.directive (octalDirective ' ' 0#32), .char ','] (by decide)
    ⟨[], rfl⟩ ?_
  rw [texts_octal, chrout_zero]
  rfl

theorem prints_indirect : Prints "@".toList [] ['@'] :=
  prints_of_texts [.char '@'] (by decide) ⟨[], rfl⟩ rfl

theorem prints_address (w : BitVec 32) : Prints "%o".toList [.word w] (octal w.toNat) := by
  refine prints_of_texts [.directive (octalDirective ' ' 0#32)] (by decide) ⟨[], rfl⟩ ?_
  rw [texts_octal, chrout_zero]
  exact congrArg some (List.append_nil _)

theorem prints_negative (w : BitVec 32) :
    Prints "-%o".toList [.word w] ('-' :: octal w.toNat) := by
  refine prints_of_texts [.char '-', .directive (octalDirective ' ' 0#32)] (by decide)
    ⟨[], rfl⟩ ?_
  rw [texts_char, texts_octal, chrout_zero]
  exact congrArg (fun cs => some ('-' :: cs)) (List.append_nil _)

theorem prints_index (w : BitVec 32) :
    Prints "(%o)".toList [.word w] ('(' :: (octal w.toNat ++ [')'])) := by
  refine prints_of_texts [.char '(', .directive (octalDirective ' ' 0#32), .char ')']
    (by decide) ⟨[], rfl⟩ ?_
  rw [texts_char, texts_octal, chrout_zero]
  rfl

theorem prints_mnemonic (s : List Char) : Prints "%s\t".toList [.string s] (s ++ ['\t']) := by
  refine prints_of_texts [.directive stringDirective, .char '\t'] (by decide)
    ⟨[], rfl⟩ ?_
  rw [texts_string]
  rfl

/-- The five fields of a word. -/
def fieldsText (insn : BitVec 64) : List Char :=
  chrout 3 '0' (octal (op insn).toNat) ++ ' ' :: chrout 2 '0' (octal (ac insn).toNat) ++
    ' ' :: chrout 1 '0' (octal (ind insn).toNat) ++ ' ' :: chrout 2 '0' (octal (xr insn).toNat) ++
      ' ' :: chrout 6 '0' (octal (ea insn).toNat)

theorem prints_fields (insn : BitVec 64) :
    Prints "%03o %02o %01o %02o %06o\t".toList
      [.word (op insn), .word (ac insn), .word (ind insn), .word (xr insn), .word (ea insn)]
      (fieldsText insn ++ ['\t']) := by
  refine prints_of_texts
    [.directive (octalDirective '0' 3), .char ' ', .directive (octalDirective '0' 2),
      .char ' ', .directive (octalDirective '0' 1), .char ' ', .directive (octalDirective '0' 2),
      .char ' ', .directive (octalDirective '0' 6), .char '\t'] (by decide) ⟨[], rfl⟩ ?_
  unfold fieldsText
  simp only [texts_octal, texts_char, texts_nil, Option.map_some, List.append_assoc,
    List.cons_append]

/-! ## Fields -/

theorem toNat_field (insn : BitVec 64) (k : Nat) {w : Nat} (hw : w ≤ 32) :
    (((insn >>> k) &&& BitVec.ofNat 64 (2 ^ w - 1)).setWidth 32).toNat =
      insn.toNat / 2 ^ k % 2 ^ w := by
  have hpow : 2 ^ w ≤ 2 ^ 32 := Nat.pow_le_pow_right (by decide) hw
  have hpos : 0 < 2 ^ w := Nat.two_pow_pos w
  have hmask : (BitVec.ofNat 64 (2 ^ w - 1)).toNat = 2 ^ w - 1 := by
    rw [BitVec.toNat_ofNat, Nat.mod_eq_of_lt (by omega)]
  have hlt : insn.toNat / 2 ^ k % 2 ^ w < 2 ^ 32 :=
    Nat.lt_of_lt_of_le (Nat.mod_lt _ hpos) hpow
  rw [BitVec.toNat_setWidth, BitVec.toNat_and, BitVec.toNat_ushiftRight,
    Nat.shiftRight_eq_div_pow, hmask, Nat.and_two_pow_sub_one_eq_mod, Nat.mod_eq_of_lt hlt]

theorem op_lt (insn : BitVec 64) : (op insn).toNat < 512 := by
  have h : (op insn).toNat = _ := toNat_field insn 27 (w := 9) (by decide)
  rw [h]
  exact Nat.mod_lt _ (by decide)

variable (insn : BitVec 64)

theorem toNat_ac : (ac insn).toNat = (Operands.ofWord insn).ac :=
  toNat_field insn 23 (w := 4) (by decide)

theorem toNat_ind : (ind insn).toNat = (Operands.ofWord insn).indirect :=
  toNat_field insn 22 (w := 1) (by decide)

theorem toNat_xr : (xr insn).toNat = (Operands.ofWord insn).index :=
  toNat_field insn 18 (w := 4) (by decide)

theorem toNat_ea : (ea insn).toNat = (Operands.ofWord insn).address := by
  have h := toNat_field insn 0 (w := 18) (by decide)
  rw [BitVec.ushiftRight_zero] at h
  exact h

theorem ac_lt : (Operands.ofWord insn).ac < 16 := Nat.mod_lt _ (by decide)

theorem indirect_lt : (Operands.ofWord insn).indirect < 2 := Nat.mod_lt _ (by decide)

theorem index_lt : (Operands.ofWord insn).index < 16 := Nat.mod_lt _ (by decide)

theorem address_lt : (Operands.ofWord insn).address < 2 ^ 18 := Nat.mod_lt _ (by decide)

theorem length_padded {k : Nat} {width : BitVec 32} (hwidth : width.toInt.toNat = k) (hk : 0 < k)
    (hn : n < 8 ^ k) : (chrout width '0' (octal n)).length = k := by
  rw [length_chrout, hwidth, Nat.max_eq_left (length_octal_le hk hn)]

theorem length_fieldsText : (fieldsText insn).length = 18 := by
  have hop : (chrout 3 '0' (octal (op insn).toNat)).length = 3 :=
    length_padded rfl (by decide) (op_lt insn)
  have hac : (chrout 2 '0' (octal (ac insn).toNat)).length = 2 :=
    length_padded rfl (by decide)
      (toNat_ac insn ▸ Nat.lt_trans (ac_lt insn) (by decide))
  have hind : (chrout 1 '0' (octal (ind insn).toNat)).length = 1 :=
    length_padded rfl (by decide)
      (toNat_ind insn ▸ Nat.lt_trans (indirect_lt insn) (by decide))
  have hxr : (chrout 2 '0' (octal (xr insn).toNat)).length = 2 :=
    length_padded rfl (by decide)
      (toNat_xr insn ▸ Nat.lt_trans (index_lt insn) (by decide))
  have hea : (chrout 6 '0' (octal (ea insn).toNat)).length = 6 :=
    length_padded rfl (by decide) (toNat_ea insn ▸ address_lt insn)
  unfold fieldsText
  simp only [List.length_append, List.length_cons, hop, hac, hind, hxr, hea]

/-! ## Operands -/

def acText (n : Nat) : List Char := if n ≠ 0 then octal n ++ [','] else []

def indirectText (n : Nat) : List Char := if n ≠ 0 then ['@'] else []

def indexText (n : Nat) : List Char := if n ≠ 0 then '(' :: (octal n ++ [')']) else []

/-- The address, which is left out if all of the operands are zero. -/
def addressText (signed : Bool) (w : Operands) : List Char :=
  if w.ac ≠ 0 ∨ w.indirect ≠ 0 ∨ w.index ≠ 0 ∨ w.address ≠ 0 then
    if signed = true ∧ 2 ^ 17 ≤ w.address then '-' :: octal ((2 ^ 18 - w.address) % 2 ^ 17)
    else octal w.address
  else []

def operandsText (signed : Bool) (w : Operands) : List Char :=
  acText w.ac ++ indirectText w.indirect ++ addressText signed w ++ indexText w.index

/-- The operands that are printed. -/
def shown : Operands :=
  if table (op insn) = .opSTD then Operands.ofWord insn
  else { Operands.ofWord insn with ac := 0 }

/-- The mnemonic of a word. -/
def name : List Char :=
  match table (op insn) with
  | .opSTD => entry opcodes (op insn)
  | .opIOT => entry iotTable (f insn)
  | .opJRST => entry jrstTable (ac insn)

/-- The text of a word. -/
def wordText : List Char :=
  fieldsText insn ++ '\t' :: (name insn ++ '\t' ::
    operandsText (decide (table (op insn) = .opSTD)) (shown insn))

variable {insn}

theorem ne_zero_iff (w : BitVec 32) : w ≠ 0 ↔ w.toNat ≠ 0 := by
  rw [ne_eq, BitVec.toNat_eq]
  rfl

theorem Out.Holds.mono (ho : o.Holds text n) : o.Holds (text ++ []) (n + 1) where
  buf := by rw [List.append_nil]; exact ho.buf
  len := by rw [List.append_nil]; exact ho.len
  le := by
    have hle := ho.le
    rw [List.append_nil]
    omega

theorem Out.Holds.accumulator (ho : o.Holds text n) (insn : BitVec 64) (hn : n < 2 ^ 16) :
    ∃ o', Dasm.accumulator insn o = some o' ∧
      o'.Holds (text ++ acText (ac insn).toNat) (n + 1) := by
  unfold Dasm.accumulator acText
  by_cases hzero : ac insn ≠ 0
  · rw [if_pos hzero, if_pos ((ne_zero_iff _).mp hzero)]
    refine ho.sprintf hn (prints_ac _) ?_
    have hle : (octal (ac insn).toNat).length ≤ 2 := length_octal_le (by decide)
      (toNat_ac insn ▸ Nat.lt_trans (ac_lt insn) (by decide))
    rw [List.length_append, List.length_singleton]
    omega
  · rw [if_neg hzero, if_neg fun h => hzero ((ne_zero_iff _).mpr h)]
    exact ⟨o, rfl, ho.mono⟩

theorem Out.Holds.indirect (ho : o.Holds text n) (insn : BitVec 64) (hn : n < 2 ^ 16) :
    ∃ o', Dasm.indirect insn o = some o' ∧
      o'.Holds (text ++ indirectText (ind insn).toNat) (n + 1) := by
  unfold Dasm.indirect indirectText
  by_cases hzero : ind insn ≠ 0
  · rw [if_pos hzero, if_pos ((ne_zero_iff _).mp hzero)]
    exact ho.sprintf hn prints_indirect (by decide)
  · rw [if_neg hzero, if_neg fun h => hzero ((ne_zero_iff _).mpr h)]
    exact ⟨o, rfl, ho.mono⟩

theorem Out.Holds.index (ho : o.Holds text n) (insn : BitVec 64) (hn : n < 2 ^ 16) :
    ∃ o', Dasm.index insn o = some o' ∧
      o'.Holds (text ++ indexText (xr insn).toNat) (n + 1) := by
  unfold Dasm.index indexText
  by_cases hzero : xr insn ≠ 0
  · rw [if_pos hzero, if_pos ((ne_zero_iff _).mp hzero)]
    refine ho.sprintf hn (prints_index _) ?_
    have hle : (octal (xr insn).toNat).length ≤ 2 := length_octal_le (by decide)
      (toNat_xr insn ▸ Nat.lt_trans (index_lt insn) (by decide))
    rw [List.length_cons, List.length_append, List.length_singleton]
    omega
  · rw [if_neg hzero, if_neg fun h => hzero ((ne_zero_iff _).mpr h)]
    exact ⟨o, rfl, ho.mono⟩

theorem and_two_pow_ne_zero {a k : Nat} : a &&& 2 ^ k ≠ 0 ↔ a.testBit k = true := by
  constructor
  · intro hne
    by_contra hbit
    refine hne (Nat.eq_of_testBit_eq fun j => ?_)
    rw [Nat.testBit_and, Nat.testBit_two_pow, Nat.zero_testBit, Bool.and_eq_false_iff,
      decide_eq_false_iff_not]
    by_cases hj : k = j
    · exact .inl (hj ▸ Bool.eq_false_of_not_eq_true hbit)
    · exact .inr hj
  · intro hbit hzero
    have h : (a &&& 2 ^ k).testBit k = (0).testBit k := congrArg (·.testBit k) hzero
    rw [Nat.testBit_and, hbit, Nat.testBit_two_pow_self, Nat.zero_testBit] at h
    exact absurd h nofun

/-- The highest bit of the address. -/
theorem sign_iff : ea insn &&& 0o400000 ≠ 0 ↔ 2 ^ 17 ≤ (Operands.ofWord insn).address := by
  have hlt := address_lt insn
  have hmask : (0o400000 : BitVec 32).toNat = 2 ^ 17 := rfl
  rw [ne_zero_iff, BitVec.toNat_and, toNat_ea, hmask, and_two_pow_ne_zero]
  rw [Nat.testBit_eq_decide_div_mod_eq, decide_eq_true_iff]
  omega

theorem toNat_negative (h : 2 ^ 17 ≤ (Operands.ofWord insn).address) :
    ((~~~ea insn + 1) &&& 0o377777).toNat =
      (2 ^ 18 - (Operands.ofWord insn).address) % 2 ^ 17 := by
  have hlt := address_lt insn
  have hneg : ~~~ea insn + 1 = -ea insn := (BitVec.neg_eq_not_add _).symm
  rw [hneg, BitVec.toNat_and, BitVec.toNat_neg, toNat_ea]
  refine (Nat.and_two_pow_sub_one_eq_mod _ 17).trans ?_
  omega

/-- The address of a standard instruction. -/
theorem Out.Holds.signed (ho : o.Holds text n) (insn : BitVec 64) (hn : n < 2 ^ 16) :
    ∃ o', Dasm.signed insn o = some o' ∧
      o'.Holds (text ++ addressText true (Operands.ofWord insn)) (n + 1) := by
  have hlt := address_lt insn
  have hshort : (octal (Operands.ofWord insn).address).length ≤ 6 :=
    length_octal_le (by decide) hlt
  unfold Dasm.signed addressText
  simp only [ne_zero_iff (ac insn), ne_zero_iff (ind insn), ne_zero_iff (xr insn),
    ne_zero_iff (ea insn), toNat_ac, toNat_ind, toNat_xr, toNat_ea, sign_iff]
  by_cases hany : (Operands.ofWord insn).ac ≠ 0 ∨ (Operands.ofWord insn).indirect ≠ 0 ∨
      (Operands.ofWord insn).index ≠ 0 ∨ (Operands.ofWord insn).address ≠ 0
  · rw [if_pos hany, if_pos hany]
    by_cases hsign : 2 ^ 17 ≤ (Operands.ofWord insn).address
    · have hle : (octal ((2 ^ 18 - (Operands.ofWord insn).address) % 2 ^ 17)).length ≤ 6 :=
        length_octal_le (by decide) (Nat.lt_trans (Nat.mod_lt _ (by decide)) (by decide))
      have hprints := prints_negative ((~~~ea insn + 1) &&& 0o377777)
      rw [toNat_negative hsign] at hprints
      rw [if_pos hsign, if_pos ⟨trivial, hsign⟩]
      exact ho.sprintf hn hprints (by rw [List.length_cons]; omega)
    · have hprints := prints_address (ea insn)
      rw [toNat_ea] at hprints
      rw [if_neg hsign, if_neg fun h => hsign h.2]
      exact ho.sprintf hn hprints (Nat.le_trans hshort (by decide))
  · rw [if_neg hany, if_neg hany]
    exact ⟨o, rfl, ho.mono⟩

/-- The address of an instruction with a mnemonic for each AC. -/
theorem Out.Holds.unsigned (ho : o.Holds text n) (insn : BitVec 64) (hn : n < 2 ^ 16) :
    ∃ o', Dasm.unsigned insn o = some o' ∧
      o'.Holds (text ++ addressText false { Operands.ofWord insn with ac := 0 }) (n + 1) := by
  have hlt := address_lt insn
  have hshort : (octal (Operands.ofWord insn).address).length ≤ 6 :=
    length_octal_le (by decide) hlt
  have hprints := prints_address (ea insn)
  rw [toNat_ea] at hprints
  unfold Dasm.unsigned addressText
  simp only [ne_zero_iff (ind insn), ne_zero_iff (xr insn), ne_zero_iff (ea insn), toNat_ind,
    toNat_xr, toNat_ea, ne_eq, not_true_eq_false, false_or]
  by_cases hany : ¬ (Operands.ofWord insn).indirect = 0 ∨ ¬ (Operands.ofWord insn).index = 0 ∨
      ¬ (Operands.ofWord insn).address = 0
  · rw [if_pos hany, if_pos hany, if_neg fun h => absurd h.1 nofun]
    exact ho.sprintf hn hprints (Nat.le_trans hshort (by decide))
  · rw [if_neg hany, if_neg hany]
    exact ⟨o, rfl, ho.mono⟩

/-- The fields and the mnemonic. -/
theorem fields_eq (insn : BitVec 64) {mnemonic : List Char} (hlength : mnemonic.length ≤ 31) :
    ∃ o, fields insn mnemonic = some o ∧
      o.Holds (fieldsText insn ++ ['\t'] ++ (mnemonic ++ ['\t'])) 2 := by
  obtain ⟨o, hfirst, ho⟩ := start_sprintf (prints_fields insn)
    (by rw [List.length_append, length_fieldsText]; decide)
  obtain ⟨o', hnext, ho'⟩ := ho.sprintf (by decide) (prints_mnemonic mnemonic)
    (by rw [List.length_append]; exact Nat.succ_le_succ hlength)
  refine ⟨o', ?_, ho'⟩
  unfold fields
  rw [hfirst]
  exact hnext

theorem opSTD_eq (insn : BitVec 64) {opcode : List Char} (hlength : opcode.length ≤ 31) :
    ∃ o, opSTD opcode insn = some o ∧ o.Holds (fieldsText insn ++ ['\t'] ++ (opcode ++ ['\t']) ++
      acText (ac insn).toNat ++ indirectText (ind insn).toNat ++
        addressText true (Operands.ofWord insn) ++ indexText (xr insn).toNat) 6 := by
  obtain ⟨o₁, hfields, h₁⟩ := fields_eq insn hlength
  obtain ⟨o₂, hac, h₂⟩ := h₁.accumulator insn (by decide)
  obtain ⟨o₃, hind, h₃⟩ := h₂.indirect insn (by decide)
  obtain ⟨o₄, haddress, h₄⟩ := h₃.signed insn (by decide)
  obtain ⟨o₅, hindex, h₅⟩ := h₄.index insn (by decide)
  refine ⟨o₅, ?_, h₅⟩
  unfold opSTD
  rw [hfields, Option.bind_eq_bind, Option.bind_some, hac, Option.bind_some, hind,
    Option.bind_some, haddress, Option.bind_some]
  exact hindex

theorem opExtended_eq (insn : BitVec 64) {mnemonic : List Char} (hlength : mnemonic.length ≤ 31) :
    ∃ o, opExtended mnemonic insn = some o ∧
      o.Holds (fieldsText insn ++ ['\t'] ++ (mnemonic ++ ['\t']) ++
        indirectText (ind insn).toNat ++
          addressText false { Operands.ofWord insn with ac := 0 } ++
            indexText (xr insn).toNat) 5 := by
  obtain ⟨o₁, hfields, h₁⟩ := fields_eq insn hlength
  obtain ⟨o₂, hind, h₂⟩ := h₁.indirect insn (by decide)
  obtain ⟨o₃, haddress, h₃⟩ := h₂.unsigned insn (by decide)
  obtain ⟨o₄, hindex, h₄⟩ := h₃.index insn (by decide)
  refine ⟨o₄, ?_, h₄⟩
  unfold opExtended
  rw [hfields, Option.bind_eq_bind, Option.bind_some, hind, Option.bind_some, haddress,
    Option.bind_some]
  exact hindex

/-- The mnemonics of the tables are short and have neither tabs nor zeros. -/
def clean (s : List Char) : Bool := s.length ≤ 6 && s.all fun c => c != '\t' && c != nul

theorem clean_entry {table : List String} (h : (table.all fun s => clean s.toList) = true)
    (k : BitVec 32) : clean (entry table k) = true := by
  unfold entry
  rcases Nat.lt_or_ge k.toNat table.length with hlt | hge
  · rw [List.getD_eq_getElem?_getD, List.getElem?_eq_getElem hlt]
    exact List.all_eq_true.mp h _ (List.getElem_mem hlt)
  · rw [List.getD_eq_getElem?_getD, List.getElem?_eq_none hge]
    rfl

theorem clean_name (insn : BitVec 64) : clean (name insn) = true := by
  unfold name
  split
  · exact clean_entry (by decide +kernel) _
  · exact clean_entry (by decide +kernel) _
  · exact clean_entry (by decide +kernel) _

theorem length_name_le (insn : BitVec 64) : (name insn).length ≤ 6 := by
  have h := clean_name insn
  unfold clean at h
  rw [Bool.and_eq_true, decide_eq_true_iff] at h
  exact h.1

theorem mem_name {c : Char} (hc : c ∈ name insn) : c ≠ '\t' ∧ c ≠ nul := by
  have h := clean_name insn
  unfold clean at h
  rw [Bool.and_eq_true, List.all_eq_true] at h
  have hat := h.2 c hc
  rw [Bool.and_eq_true, bne_iff_ne, bne_iff_ne] at hat
  exact hat

/-- The text of a word and the zero behind it are written. -/
theorem dasm_eq (insn : BitVec 64) : dasm insn = some (wordText insn ++ [nul]) := by
  have hclean := length_name_le insn
  unfold dasm wordText operandsText shown
  unfold name at hclean ⊢
  cases htable : table (op insn) <;> rw [htable] at hclean <;> dsimp only at hclean ⊢
  case opSTD =>
    obtain ⟨o, ho, hholds⟩ := opSTD_eq insn (Nat.le_trans hclean (by decide))
    rw [ho, Option.map_some, hholds.buf, toNat_ac, toNat_ind, toNat_xr]
    simp only [List.append_assoc, List.cons_append, List.nil_append, decide_true, if_true]
  case opIOT =>
    obtain ⟨o, ho, hholds⟩ := opExtended_eq insn (Nat.le_trans hclean (by decide))
    unfold opIOT
    rw [ho, Option.map_some, hholds.buf, toNat_ind, toNat_xr]
    simp only [List.append_assoc, List.cons_append, List.nil_append]
    rfl
  case opJRST =>
    obtain ⟨o, ho, hholds⟩ := opExtended_eq insn (Nat.le_trans hclean (by decide))
    unfold opJRST
    rw [ho, Option.map_some, hholds.buf, toNat_ind, toNat_xr]
    simp only [List.append_assoc, List.cons_append, List.nil_append]
    rfl

end Dasm

end KS10
