import KS10.Clocked.Numeral
import KS10.Console.Stdio

/-!
# printf and vsnprintf print the same

The two functions agree on every conversion but `%d` and `%ld`: there `vsnprintf` calls the
conversion of `long long`, which only knows octal and hexadecimal numbers.  Every field that it
stores is at least as long as the one that `printf` sends, so that no difference can be made up
for later: the texts are the same exactly when the format has none of the two
(`Stdio.agree_iff`).
-/

namespace KS10

open Clocked

namespace Stdio

variable {radix fuel n : Nat} {digits src : List Char}

/-! ## Numbers -/

/-- The recursion prints the numeral. -/
theorem ultoaLoop_eq (hradix : 1 < radix) (hfuel : 0 < fuel) (hn : n < radix ^ fuel) :
    ultoaLoop radix digits fuel n = (numeral radix n).map (digits.getD · nul) := by
  induction fuel generalizing n with
  | zero => exact absurd hfuel (Nat.lt_irrefl 0)
  | succ fuel ih =>
      unfold ultoaLoop
      rcases Nat.lt_or_ge n radix with hlt | hge
      · rw [numeral_of_lt hlt, Nat.div_eq_of_lt hlt, if_neg (not_not_intro rfl),
          Nat.mod_eq_of_lt hlt]
        rfl
      · have hdiv : n / radix ≠ 0 :=
          Nat.ne_of_gt (Nat.div_pos hge (Nat.zero_lt_of_lt hradix))
        have hsmall : n / radix < radix ^ fuel := by
          rw [Nat.div_lt_iff_lt_mul (Nat.zero_lt_of_lt hradix), ← Nat.pow_succ]
          exact hn
        have hpos : 0 < fuel := by
          rcases Nat.eq_zero_or_pos fuel with rfl | hpos
          · exact absurd (Nat.lt_one_iff.mp hsmall) hdiv
          · exact hpos
        rw [if_pos hdiv, ih hpos hsmall, numeral_of_le hradix hge, List.map_append]
        rfl

theorem ultoa_eq (hradix : 1 < radix) (value : BitVec 32) :
    ultoa value radix digits = (numeral radix value.toNat).map (digits.getD · nul) :=
  ultoaLoop_eq hradix (by decide)
    (Nat.lt_of_lt_of_le value.isLt (Nat.pow_le_pow_left hradix 32))

/-- A shift and a mask are a division and its remainder. -/
theorem ulltoaLoop_eq (shift : Nat) (value : BitVec 64) :
    ulltoaLoop shift (2 ^ shift - 1) digits fuel value =
      ultoaLoop (2 ^ shift) digits fuel value.toNat := by
  induction fuel generalizing value with
  | zero => rfl
  | succ fuel ih =>
      have hshift : (value >>> shift).toNat = value.toNat / 2 ^ shift := by
        rw [BitVec.toNat_ushiftRight, Nat.shiftRight_eq_div_pow]
      have hzero : value >>> shift ≠ 0 ↔ value.toNat / 2 ^ shift ≠ 0 := by
        rw [← hshift, not_iff_not]
        exact BitVec.toNat_eq
      unfold ulltoaLoop ultoaLoop
      rw [ih, hshift, Nat.and_two_pow_sub_one_eq_mod]
      by_cases hmore : value.toNat / 2 ^ shift ≠ 0
      · rw [if_pos (hzero.mpr hmore), if_pos hmore]
      · rw [if_neg fun h => hmore (hzero.mp h), if_neg hmore]

theorem ulltoa_oct (value : BitVec 64) :
    ulltoa value 8 digits = (numeral 8 value.toNat).map (digits.getD · nul) :=
  (ulltoaLoop_eq 3 value).trans
    (ultoaLoop_eq (by decide) (by decide) (Nat.lt_of_lt_of_le value.isLt (by decide)))

theorem ulltoa_hex (value : BitVec 64) :
    ulltoa value 16 digits = (numeral 16 value.toNat).map (digits.getD · nul) :=
  (ulltoaLoop_eq 4 value).trans
    (ultoaLoop_eq (by decide) (by decide) (Nat.lt_of_lt_of_le value.isLt (by decide)))

theorem ltoa_dec (value : BitVec 32) : ltoa value 10 =
    if value.slt 0 = true then '-' :: ultoa (-value) 10 lowerDigits
    else ultoa value 10 lowerDigits := rfl

/-- The conversion of a `long long` does not print it in decimal. -/
theorem lltoa_dec (value : BitVec 64) : lltoa value 10 =
    if value.slt 0 = true then '-' :: notImplemented else notImplemented := rfl

/-! ## Fields -/

theorem trim_eq (src : List Char) (width : Int) :
    (trim src width).toNat = width.toNat - src.length := by
  induction src generalizing width with
  | nil => rfl
  | cons ch src ih =>
      unfold trim
      by_cases hpos : width > 0
      · rw [if_pos hpos, ih, List.length_cons]
        omega
      · rw [if_neg hpos]
        omega

/-- The length of a field is its width, or the length of its text. -/
theorem length_chrout (width : BitVec 32) (padchar : Char) (src : List Char) :
    (chrout width padchar src).length = max width.toInt.toNat src.length := by
  unfold chrout
  rw [List.length_append, List.length_replicate, trim_eq]
  omega

theorem text_strout (width : BitVec 32) (padchar : Char) (src : List Char) :
    (strout width padchar src).text = chrout width padchar src := rfl

theorem ret_strout (width : BitVec 32) (padchar : Char) (src : List Char) :
    (strout width padchar src).ret =
      BitVec.ofNat 32 (strout width padchar src).text.length := by
  unfold strout
  dsimp only
  rw [List.length_append, List.length_replicate, BitVec.ofNat_add]

theorem getLast?_chrout (width : BitVec 32) (padchar : Char) (hsrc : src ≠ []) :
    (chrout width padchar src).getLast? = src.getLast? := by
  unfold chrout
  exact List.getLast?_append_of_ne_nil _ hsrc

/-! ## Conversions to decimal -/

/-- The last digit of a number is none of the letters. -/
theorem getLast?_ultoa (value : BitVec 32) : ∃ d, d < 10 ∧
    (ultoa value 10 lowerDigits).getLast? = some (lowerDigits.getD d nul) := by
  refine ⟨value.toNat % 10, Nat.mod_lt _ (by decide), ?_⟩
  rw [ultoa_eq (by decide), List.getLast?_map, getLast?_numeral (by decide)]
  rfl

theorem ultoa_ne_nil (value : BitVec 32) : ultoa value 10 lowerDigits ≠ [] := by
  rw [ultoa_eq (by decide)]
  exact fun h => numeral_ne_nil 10 value.toNat (List.map_eq_nil_iff.mp h)

theorem length_ultoa_le (value : BitVec 32) : (ultoa value 10 lowerDigits).length ≤ 10 := by
  rw [ultoa_eq (by decide), List.length_map, numeral_length_le_iff (by decide) (by decide)]
  exact Nat.lt_of_lt_of_le value.isLt (by decide)

theorem length_ltoa_le (value : BitVec 32) : (ltoa value 10).length ≤ 11 := by
  rw [ltoa_dec]
  split
  · exact Nat.succ_le_succ (length_ultoa_le _)
  · exact Nat.le_succ_of_le (length_ultoa_le _)

theorem getLast?_ltoa (value : BitVec 32) : ∃ d, d < 10 ∧
    (ltoa value 10).getLast? = some (lowerDigits.getD d nul) := by
  rw [ltoa_dec]
  split
  · obtain ⟨d, hd, hlast⟩ := getLast?_ultoa (-value)
    refine ⟨d, hd, ?_⟩
    rw [← List.singleton_append, List.getLast?_append_of_ne_nil _ (ultoa_ne_nil _)]
    exact hlast
  · exact getLast?_ultoa value

theorem ltoa_ne_nil (value : BitVec 32) : ltoa value 10 ≠ [] := by
  obtain ⟨d, -, hlast⟩ := getLast?_ltoa value
  rintro heq
  rw [heq] at hlast
  exact absurd hlast nofun

theorem le_length_lltoa (value : BitVec 64) : 15 ≤ (lltoa value 10).length := by
  rw [lltoa_dec]
  split <;> decide

theorem getLast?_lltoa (value : BitVec 64) : (lltoa value 10).getLast? = some 'd' := by
  rw [lltoa_dec]
  split <;> decide

/-- The two conversions never give the same field. -/
theorem chrout_ltoa_ne (width : BitVec 32) (padchar : Char) (v : BitVec 32) (w : BitVec 64) :
    chrout width padchar (ltoa v 10) ≠ chrout width padchar (lltoa w 10) := by
  intro heq
  have hdigit : ∀ d, d < 10 → lowerDigits.getD d nul ≠ 'd' := by decide
  have hlong : lltoa w 10 ≠ [] := List.ne_nil_of_length_pos
    (Nat.lt_of_lt_of_le (by decide) (le_length_lltoa w))
  obtain ⟨d, hd, hlast⟩ := getLast?_ltoa v
  have hsame := congrArg List.getLast? heq
  rw [getLast?_chrout _ _ (ltoa_ne_nil v), getLast?_chrout _ _ hlong, hlast, getLast?_lltoa,
    Option.some_inj] at hsame
  exact hdigit d hd hsame

/-! ## Arguments -/

inductive Ty where
  | word
  | double
  | string
  deriving DecidableEq

def Arg.ty : Arg → Ty
  | .word _ => .word
  | .double _ => .double
  | .string _ => .string

def Size.ty : Size → Ty
  | .int | .long => .word
  | .longLong => .double

/-- The types of the arguments that a directive takes. -/
def Directive.takes (d : Directive) : List Ty :=
  match Conv.of d.conv with
  | .u | .d | .o | .x | .X => [d.size.ty]
  | .c => [.word]
  | .s => [.string]
  | .percent | .default => []

def Item.takes : Item → List Ty
  | .char _ => []
  | .directive d => d.takes

/-- The arguments have the types that the format takes.  There may be more of them. -/
def Matches (fmt : List Char) (args : List Arg) : Prop :=
  (format fmt).items.flatMap Item.takes <+: args.map Arg.ty

instance (fmt : List Char) (args : List Arg) : Decidable (Matches fmt args) :=
  inferInstanceAs (Decidable (_ <+: _))

/-- A directive that is not `%d` or `%ld`. -/
def Directive.Plain (d : Directive) : Prop := Conv.of d.conv = .d → d.size = .longLong

instance (d : Directive) : Decidable d.Plain := inferInstanceAs (Decidable (_ → _))

variable {d : Directive} {args : List Arg} {rest : List Ty} {ty : Ty}

theorem takes_cons (h : ty :: rest <+: args.map Arg.ty) :
    ∃ arg args', args = arg :: args' ∧ arg.ty = ty ∧ rest <+: args'.map Arg.ty := by
  cases args with
  | nil => exact absurd (List.prefix_nil.mp h) nofun
  | cons arg args =>
      rw [List.map_cons, List.cons_prefix_cons] at h
      exact ⟨arg, args, rfl, h.1.symm, h.2⟩

theorem word_of_takes (h : Ty.word :: rest <+: args.map Arg.ty) :
    ∃ w args', args = .word w :: args' ∧ rest <+: args'.map Arg.ty := by
  obtain ⟨arg, args', rfl, hty, hrest⟩ := takes_cons h
  cases arg with
  | word w => exact ⟨w, args', rfl, hrest⟩
  | double w => exact absurd hty nofun
  | string s => exact absurd hty nofun

theorem double_of_takes (h : Ty.double :: rest <+: args.map Arg.ty) :
    ∃ w args', args = .double w :: args' ∧ rest <+: args'.map Arg.ty := by
  obtain ⟨arg, args', rfl, hty, hrest⟩ := takes_cons h
  cases arg with
  | word w => exact absurd hty nofun
  | double w => exact ⟨w, args', rfl, hrest⟩
  | string s => exact absurd hty nofun

theorem string_of_takes (h : Ty.string :: rest <+: args.map Arg.ty) :
    ∃ s args', args = .string s :: args' ∧ rest <+: args'.map Arg.ty := by
  obtain ⟨arg, args', rfl, hty, hrest⟩ := takes_cons h
  cases arg with
  | word w => exact absurd hty nofun
  | double w => exact absurd hty nofun
  | string s => exact ⟨s, args', rfl, hrest⟩

theorem unsigned_eq {size : Size} (radix : Nat) (digits : List Char)
    (h : size.ty :: rest <+: args.map Arg.ty) : ∃ temp args',
      unsigned size args radix digits = some (temp, args') ∧ rest <+: args'.map Arg.ty := by
  cases size with
  | int =>
      obtain ⟨w, args', rfl, hrest⟩ := word_of_takes h
      exact ⟨_, args', rfl, hrest⟩
  | long =>
      obtain ⟨w, args', rfl, hrest⟩ := word_of_takes h
      exact ⟨_, args', rfl, hrest⟩
  | longLong =>
      obtain ⟨w, args', rfl, hrest⟩ := double_of_takes h
      exact ⟨_, args', rfl, hrest⟩

/-! ## Directives -/

/-- What is sent and what is stored for a directive. -/
structure Pair (d : Directive) (text : List Char) (field : Field) : Prop where
  ret : field.ret = BitVec.ofNat 32 field.text.length
  le : text.length ≤ field.text.length
  eq_iff : text = field.text ↔ d.Plain

theorem Pair.same {text : List Char} {field : Field} (htext : text = field.text)
    (hret : field.ret = BitVec.ofNat 32 field.text.length) (hplain : d.Plain) :
    Pair d text field where
  ret := hret
  le := by rw [htext]
  eq_iff := ⟨fun _ => hplain, fun _ => htext⟩

theorem Pair.decimal (v : BitVec 32) (w : BitVec 64) (hplain : ¬ d.Plain) :
    Pair d (chrout d.width d.padchar (ltoa v 10)) (strout d.width d.padchar (lltoa w 10)) where
  ret := ret_strout _ _ _
  le := by
    have hshort := length_ltoa_le v
    have hlong := le_length_lltoa w
    rw [text_strout, length_chrout, length_chrout]
    omega
  eq_iff := ⟨fun heq => absurd heq (chrout_ltoa_ne _ _ v w), fun h => absurd h hplain⟩

/-- The two switches take the same arguments. -/
theorem send_store (h : d.takes ++ rest <+: args.map Arg.ty) : ∃ text field args',
    Printf.send d args = some (text, args') ∧ Vsnprintf.store d args = some (field, args') ∧
      rest <+: args'.map Arg.ty ∧ Pair d text field := by
  obtain ⟨leftFlag, padchar, width, prec, size, conv⟩ := d
  have hplain : Conv.of conv ≠ .d →
      Directive.Plain ⟨leftFlag, padchar, width, prec, size, conv⟩ :=
    fun hne heq => absurd heq hne
  unfold Directive.takes at h
  unfold Printf.send Vsnprintf.store
  dsimp only at h ⊢
  cases hconv : Conv.of conv <;> rw [hconv] at h hplain
  case d =>
    cases size with
    | int =>
        obtain ⟨w, args', rfl, hrest⟩ := word_of_takes h
        exact ⟨_, _, args', rfl, rfl, hrest, .decimal w _ fun hp => nomatch hp hconv⟩
    | long =>
        obtain ⟨w, args', rfl, hrest⟩ := word_of_takes h
        exact ⟨_, _, args', rfl, rfl, hrest, .decimal w _ fun hp => nomatch hp hconv⟩
    | longLong =>
        obtain ⟨w, args', rfl, hrest⟩ := double_of_takes h
        exact ⟨_, _, args', rfl, rfl, hrest, .same rfl (ret_strout _ _ _) fun _ => rfl⟩
  case c =>
    obtain ⟨w, args', rfl, hrest⟩ := word_of_takes h
    exact ⟨_, _, args', rfl, rfl, hrest, .same rfl rfl (hplain nofun)⟩
  case s =>
    obtain ⟨s, args', rfl, hrest⟩ := string_of_takes h
    exact ⟨_, _, args', rfl, rfl, hrest, .same rfl (ret_strout _ _ _) (hplain nofun)⟩
  case percent => exact ⟨_, _, args, rfl, rfl, h, .same rfl rfl (hplain nofun)⟩
  case default => exact ⟨_, _, args, rfl, rfl, h, .same rfl rfl (hplain nofun)⟩
  all_goals
    obtain ⟨temp, args', htemp, hrest⟩ := unsigned_eq _ _ h
    dsimp only
    rw [htemp]
    exact ⟨_, _, args', rfl, rfl, hrest, .same rfl (ret_strout _ _ _) (hplain nofun)⟩

/-! ## Formats -/

/-- What `printf` sends and what `vsnprintf` stores. -/
structure Texts (items : List Item) (text : List Char) (s : Field) : Prop where
  ret : s.ret = BitVec.ofNat 32 s.text.length
  le : text.length ≤ s.text.length
  eq_iff : text = s.text ↔ ∀ d, .directive d ∈ items → d.Plain

theorem Texts.nil : Texts [] [] ⟨[], 0, []⟩ where
  ret := rfl
  le := Nat.le_refl 0
  eq_iff := ⟨fun _ _ hd => absurd hd List.not_mem_nil, fun _ => rfl⟩

variable {items : List Item} {text : List Char} {s field : Field}

theorem Texts.char (ch : Char) (h : Texts items text s) :
    Texts (.char ch :: items) (ch :: text) { s with text := ch :: s.text, ret := 1 + s.ret } where
  ret := by
    dsimp only
    rw [h.ret, List.length_cons, Nat.add_comm, BitVec.ofNat_add]
    rfl
  le := Nat.succ_le_succ h.le
  eq_iff := by
    rw [List.cons_inj_right, h.eq_iff]
    refine forall_congr' fun d => ?_
    rw [List.mem_cons]
    exact ⟨fun hd hmem => hd (hmem.resolve_left nofun), fun hd hmem => hd (.inr hmem)⟩

theorem Texts.directive {first : List Char} (hpair : Pair d first field) (h : Texts items text s) :
    Texts (.directive d :: items) (first ++ text)
      { text := field.text ++ s.text
        ret := field.ret + s.ret
        console := field.console ++ s.console } where
  ret := by
    dsimp only
    rw [hpair.ret, h.ret, List.length_append, BitVec.ofNat_add]
  le := by
    have hfirst := hpair.le
    have hrest := h.le
    dsimp only
    rw [List.length_append, List.length_append]
    omega
  eq_iff := by
    have hsplit : first ++ text = field.text ++ s.text ↔ first = field.text ∧ text = s.text := by
      refine ⟨fun heq => ?_, fun ⟨hfirst, htext⟩ => by rw [hfirst, htext]⟩
      -- Neither part can be longer than the one that is stored, so both are as long.
      have hlength := congrArg List.length heq
      have hle := hpair.le
      have hle' := h.le
      rw [List.length_append, List.length_append] at hlength
      exact List.append_inj heq (by omega)
    dsimp only
    rw [hsplit, hpair.eq_iff, h.eq_iff]
    constructor
    · rintro ⟨hfirst, hrest⟩ d' hmem
      rcases List.mem_cons.mp hmem with heq | hmem
      · injection heq with heq
        rw [heq]
        exact hfirst
      · exact hrest d' hmem
    · intro hall
      exact ⟨hall d List.mem_cons_self, fun d' hmem => hall d' (List.mem_cons_of_mem _ hmem)⟩

/-- The loops take the same arguments. -/
theorem texts_run (h : items.flatMap Item.takes <+: args.map Arg.ty) : ∃ text s,
    Printf.run items args = some text ∧ Vsnprintf.run items args = some s ∧
      Texts items text s := by
  induction items generalizing args with
  | nil => exact ⟨_, _, rfl, rfl, .nil⟩
  | cons item items ih =>
      rw [List.flatMap_cons] at h
      cases item with
      | char ch =>
          obtain ⟨text, s, hsend, hstore, htexts⟩ := ih h
          unfold Printf.run Vsnprintf.run
          rw [hsend, hstore]
          exact ⟨_, _, rfl, rfl, htexts.char ch⟩
      | directive d =>
          obtain ⟨first, field, args', hsend, hstore, hrest, hpair⟩ := send_store h
          obtain ⟨text, s, hsends, hstores, htexts⟩ := ih hrest
          unfold Printf.run Vsnprintf.run
          rw [hsend, hstore]
          dsimp only [Option.bind_eq_bind, Option.bind_some]
          rw [hsends, hstores]
          exact ⟨_, _, rfl, rfl, .directive hpair htexts⟩

/-- `vsnprintf` stores what `printf` sends, and it returns how much that is, as far as an `int`
can tell. -/
def Agree (size : BitVec 32) (fmt : List Char) (args : List Arg) : Prop :=
  ∃ s, vsnprintf size fmt args = some s ∧ printf fmt args = some s.text ∧
    (s.text.length < 2 ^ 31 → s.ret.toInt = s.text.length)

/-- The two agree on the formats without `%d` and `%ld`, and on no others. -/
theorem agree_iff (size : BitVec 32) (fmt : List Char) (args : List Arg) (h : Matches fmt args) :
    Agree size fmt args ↔ ∀ d, .directive d ∈ (format fmt).items → d.Plain := by
  obtain ⟨text, s, hsend, hstore, htexts⟩ := texts_run h
  have hprintf : printf fmt args = some text := hsend
  have hvsnprintf : vsnprintf size fmt args = some { s with closed := (format fmt).closed } := by
    unfold vsnprintf
    rw [hstore]
    rfl
  rw [← htexts.eq_iff]
  constructor
  · rintro ⟨s', hs', htext, -⟩
    rw [hvsnprintf, Option.some_inj] at hs'
    rw [hprintf, Option.some_inj, ← hs'] at htext
    exact htext
  · intro htext
    refine ⟨_, hvsnprintf, by rw [hprintf, htext], fun hlength => ?_⟩
    show s.ret.toInt = s.text.length
    have hlength' : s.text.length < 2 ^ 31 := hlength
    rw [htexts.ret, BitVec.toInt_eq_toNat_of_lt] <;> rw [BitVec.toNat_ofNat, Nat.mod_eq_of_lt] <;>
      omega

/-- Numbers with a width, a string and a percent sign. -/
theorem agree_iff_fields :
    Matches "%03o %-8lX%12s|%llx%%".toList
        [.word 5, .word 0x2a, .string "KS10".toList, .double 0o777777] ∧
      (Agree 80 "%03o %-8lX%12s|%llx%%".toList
          [.word 5, .word 0x2a, .string "KS10".toList, .double 0o777777] ↔
        ∀ d, .directive d ∈ (format "%03o %-8lX%12s|%llx%%".toList).items → d.Plain) := by
  have h : Matches "%03o %-8lX%12s|%llx%%".toList
      [.word 5, .word 0x2a, .string "KS10".toList, .double 0o777777] := by decide +kernel
  exact ⟨h, agree_iff 80 _ _ h⟩

/-- `vsnprintf` does not know how to print an `int`. -/
theorem agree_fails :
    printf "%d".toList [.word 5] = some "5".toList ∧
      (vsnprintf 80 "%d".toList [.word 5]).map (·.text) = some notImplemented ∧
      ¬ Agree 80 "%d".toList [.word 5] := by
  have hprintf : printf "%d".toList [.word 5] = some "5".toList := by decide
  have hvsnprintf : (vsnprintf 80 "%d".toList [.word 5]).map (·.text) = some notImplemented := by
    decide
  refine ⟨hprintf, hvsnprintf, ?_⟩
  rintro ⟨s, hs, htext, -⟩
  rw [hs, Option.map_some, ← htext, hprintf] at hvsnprintf
  exact absurd hvsnprintf (by decide)

end Stdio

end KS10
