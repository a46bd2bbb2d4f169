import KS10.Console.Printing
import KS10.Console.Telnet

/-!
# How much vsnprintf stores

`vsnprintf` takes the size of the buffer and never looks at it.  What it stores is the sum of
its fields (`Stdio.needed`), so that it stays within the size exactly when the caller has left
room for them (`Stdio.bounded_iff`).  The Telnet server calls it with a size that is too small
for its replies, and with a line that can be too long for its buffer.
-/

namespace KS10

open Clocked

namespace Stdio

/-! ## The length of a field -/

/-- The length of the digits of an unsigned number. -/
def numberLength (radix : Nat) : Arg → Nat
  | .word w => (numeral radix w.toNat).length
  | .double w => if radix = 10 then notImplemented.length else (numeral radix w.toNat).length
  | .string _ => 0

/-- No signed number is converted: only its sign is printed. -/
def signedLength : Arg → Nat
  | .word w => notImplemented.length + if w.slt 0 then 1 else 0
  | .double w => notImplemented.length + if w.slt 0 then 1 else 0
  | .string _ => 0

def stringLength : Arg → Nat
  | .string s => s.length
  | _ => 0

/-- The length of what is stored for a directive. -/
def Directive.room (d : Directive) (args : List Arg) : Nat :=
  let field := fun (length : Arg → Nat) =>
    max d.width.toInt.toNat ((args.head?.map length).getD 0)
  match Conv.of d.conv with
  | .u => field (numberLength 10)
  | .d => field signedLength
  | .o => field (numberLength 8)
  | .x | .X => field (numberLength 16)
  | .s => field stringLength
  | .c | .percent => 1
  | .default => 0

def room : List Item → List Arg → Nat
  | [], _ => 0
  | .char _ :: items, args => room items args + 1
  | .directive d :: items, args => d.room args + room items (args.drop d.takes.length)

/-- The bytes that a format and its arguments need, with the zero at the end. -/
def needed (fmt : List Char) (args : List Arg) : Nat :=
  room (format fmt).items args + if (format fmt).closed then 1 else 0

variable {radix : Nat} {digits temp : List Char} {size : Size} {arg : Arg} {args args' : List Arg}
  {d : Directive} {field : Field}

theorem slt_signExtend (w : BitVec 32) : (w.signExtend 64).slt 0 = w.slt 0 := by
  have h := BitVec.toInt_signExtend_of_le (x := w) (v := 64) (by decide)
  unfold BitVec.slt
  rw [h]
  rfl

theorem length_lltoa (w : BitVec 64) :
    (lltoa w 10).length = notImplemented.length + if w.slt 0 then 1 else 0 := by
  rw [lltoa_dec]
  split <;> rfl

theorem length_ulltoa (hradix : radix ∈ [8, 10, 16]) (w : BitVec 64) :
    (ulltoa w radix digits).length = numberLength radix (.double w) := by
  simp only [List.mem_cons, List.not_mem_nil, or_false] at hradix
  unfold numberLength
  rcases hradix with rfl | rfl | rfl
  · rw [ulltoa_oct, List.length_map]
    rfl
  · rfl
  · rw [ulltoa_hex, List.length_map]
    rfl

theorem word_of_get {w : BitVec 32} (h : Arg.getWord args = some (w, args')) :
    args = .word w :: args' := by
  match args with
  | [] => exact absurd h nofun
  | .double _ :: args => exact absurd h nofun
  | .string _ :: args => exact absurd h nofun
  | .word v :: args =>
      injection h with hpair
      injection hpair with hw hrest
      rw [hw, hrest]

theorem double_of_get {w : BitVec 64} (h : Arg.getDouble args = some (w, args')) :
    args = .double w :: args' := by
  match args with
  | [] => exact absurd h nofun
  | .word _ :: args => exact absurd h nofun
  | .string _ :: args => exact absurd h nofun
  | .double v :: args =>
      injection h with hpair
      injection hpair with hw hrest
      rw [hw, hrest]

theorem string_of_get {s : List Char} (h : Arg.getString args = some (s, args')) :
    args = .string s :: args' := by
  match args with
  | [] => exact absurd h nofun
  | .word _ :: args => exact absurd h nofun
  | .double _ :: args => exact absurd h nofun
  | .string v :: args =>
      injection h with hpair
      injection hpair with hs hrest
      rw [hs, hrest]

/-- A number that is converted is the first argument. -/
theorem convert_cases {int long : BitVec 32 → List Char} {longLong : BitVec 64 → List Char}
    (h : convert size args int long longLong = some (temp, args')) :
    (∃ w, args = .word w :: args' ∧ (temp = int w ∨ temp = long w)) ∨
      ∃ w, args = .double w :: args' ∧ temp = longLong w := by
  unfold convert at h
  cases size with
  | int =>
      obtain ⟨⟨w, rest⟩, hget, heq⟩ := Option.map_eq_some_iff.mp h
      injection heq with htemp hrest
      exact .inl ⟨w, hrest ▸ word_of_get hget, .inl htemp.symm⟩
  | long =>
      obtain ⟨⟨w, rest⟩, hget, heq⟩ := Option.map_eq_some_iff.mp h
      injection heq with htemp hrest
      exact .inl ⟨w, hrest ▸ word_of_get hget, .inr htemp.symm⟩
  | longLong =>
      obtain ⟨⟨w, rest⟩, hget, heq⟩ := Option.map_eq_some_iff.mp h
      injection heq with htemp hrest
      exact .inr ⟨w, hrest ▸ double_of_get hget, htemp.symm⟩

theorem length_unsigned (hradix : radix ∈ [8, 10, 16])
    (h : unsigned size args radix digits = some (temp, args')) :
    ∃ arg, args = arg :: args' ∧ temp.length = numberLength radix arg := by
  have hbase : 1 < radix := by
    simp only [List.mem_cons, List.not_mem_nil, or_false] at hradix
    omega
  rcases convert_cases h with ⟨w, hargs, htemp⟩ | ⟨w, hargs, htemp⟩
  · refine ⟨_, hargs, ?_⟩
    rw [or_self] at htemp
    rw [htemp, ultoa_eq hbase, List.length_map]
    rfl
  · refine ⟨_, hargs, ?_⟩
    rw [htemp]
    exact length_ulltoa hradix w

theorem length_decimal (h : Vsnprintf.decimal size args = some (temp, args')) :
    ∃ arg, args = arg :: args' ∧ temp.length = signedLength arg := by
  rcases convert_cases h with ⟨w, hargs, htemp⟩ | ⟨w, hargs, htemp⟩
  · refine ⟨_, hargs, ?_⟩
    rw [or_self] at htemp
    rw [htemp, length_lltoa, slt_signExtend]
    rfl
  · refine ⟨_, hargs, ?_⟩
    rw [htemp]
    exact length_lltoa w

/-- The conversions have no more than 22 characters. -/
theorem numberLength_le (hradix : radix ∈ [8, 10, 16]) (arg : Arg) :
    numberLength radix arg ≤ 22 := by
  have hbase : 8 ≤ radix := by
    simp only [List.mem_cons, List.not_mem_nil, or_false] at hradix
    omega
  have hpow : (2 : Nat) ^ 64 ≤ radix ^ 22 :=
    Nat.le_trans (show 2 ^ 64 ≤ 8 ^ 22 by decide) (Nat.pow_le_pow_left hbase 22)
  have hnumeral : ∀ n, n < 2 ^ 64 → (numeral radix n).length ≤ 22 := fun n hn =>
    (numeral_length_le_iff (by omega) (by decide)).mpr (Nat.lt_of_lt_of_le hn hpow)
  unfold numberLength
  cases arg with
  | word w => exact hnumeral _ (Nat.lt_trans w.isLt (by decide))
  | double w =>
      dsimp only
      split
      · decide
      · exact hnumeral _ w.isLt
  | string s => exact Nat.zero_le _

theorem signedLength_le (arg : Arg) : signedLength arg ≤ 22 := by
  unfold signedLength
  cases arg with
  | word w =>
      dsimp only
      split <;> decide
  | double w =>
      dsimp only
      split <;> decide
  | string s => exact Nat.zero_le _

/-! ## The length of the text -/

theorem length_field {length : Arg → Nat} (padchar : Char)
    (h : args = arg :: args' ∧ temp.length = length arg) :
    (strout d.width padchar temp).text.length =
      max d.width.toInt.toNat ((args.head?.map length).getD 0) := by
  rw [text_strout, length_chrout, h.1, h.2]
  rfl

/-- A directive stores its length and takes its arguments. -/
theorem length_store (h : Vsnprintf.store d args = some (field, args')) :
    field.text.length = d.room args ∧ args' = args.drop d.takes.length := by
  unfold Vsnprintf.store at h
  unfold Directive.room Directive.takes
  dsimp only at h ⊢
  have hunsigned : ∀ radix digits, radix ∈ [8, 10, 16] →
      (unsigned d.size args radix digits).map
        (fun number => (strout d.width d.padchar number.1, number.2)) = some (field, args') →
      field.text.length =
          max d.width.toInt.toNat ((args.head?.map (numberLength radix)).getD 0) ∧
        args' = args.drop [d.size.ty].length := by
    intro radix digits hradix hsome
    obtain ⟨⟨temp, rest⟩, hnumber, heq⟩ := Option.map_eq_some_iff.mp hsome
    injection heq with hfield hrest
    obtain ⟨arg, hargs⟩ := length_unsigned hradix hnumber
    rw [← hfield, ← hrest, length_field d.padchar hargs, hargs.1]
    exact ⟨rfl, rfl⟩
  cases hconv : Conv.of d.conv <;> rw [hconv] at h
  case u => exact hunsigned 10 _ (by decide) h
  case o => exact hunsigned 8 _ (by decide) h
  case x => exact hunsigned 16 _ (by decide) h
  case X => exact hunsigned 16 _ (by decide) h
  case d =>
    obtain ⟨⟨temp, rest⟩, hnumber, heq⟩ := Option.map_eq_some_iff.mp h
    injection heq with hfield hrest
    obtain ⟨arg, hargs⟩ := length_decimal hnumber
    rw [← hfield, ← hrest, length_field d.padchar hargs, hargs.1]
    exact ⟨rfl, rfl⟩
  case c =>
    obtain ⟨⟨w, rest⟩, hget, heq⟩ := Option.map_eq_some_iff.mp h
    injection heq with hfield hrest
    rw [← hfield, ← hrest, word_of_get hget]
    exact ⟨rfl, rfl⟩
  case s =>
    obtain ⟨⟨s, rest⟩, hget, heq⟩ := Option.map_eq_some_iff.mp h
    injection heq with hfield hrest
    have hargs : args = .string s :: rest ∧ s.length = stringLength (.string s) :=
      ⟨string_of_get hget, rfl⟩
    rw [← hfield, ← hrest, length_field nul hargs, hargs.1]
    exact ⟨rfl, rfl⟩
  case percent =>
    injection h with hpair
    injection hpair with hfield hrest
    rw [← hfield, ← hrest]
    exact ⟨rfl, rfl⟩
  case default =>
    injection h with hpair
    injection hpair with hfield hrest
    rw [← hfield, ← hrest]
    exact ⟨rfl, rfl⟩

/-- The loop stores the sum of the fields. -/
theorem length_run {items : List Item} {s : Field} (h : Vsnprintf.run items args = some s) :
    s.text.length = room items args := by
  induction items generalizing args s with
  | nil =>
      injection h with heq
      rw [← heq]
      rfl
  | cons item items ih =>
      cases item with
      | char ch =>
          obtain ⟨rest, hrun, rfl⟩ := Option.map_eq_some_iff.mp h
          exact congrArg (· + 1) (ih hrun)
      | directive d =>
          unfold Vsnprintf.run at h
          obtain ⟨⟨field, args'⟩, hstore, h⟩ := Option.bind_eq_some_iff.mp h
          obtain ⟨rest, hrun, h⟩ := Option.bind_eq_some_iff.mp h
          obtain ⟨hlength, hargs⟩ := length_store hstore
          injection h with heq
          rw [hargs] at hrun
          rw [← heq]
          unfold room
          rw [List.length_append, hlength, ih hrun]

theorem length_bytes {size : BitVec 32} {fmt : List Char} {s : Stored}
    (h : vsnprintf size fmt args = some s) : s.bytes.length = needed fmt args := by
  obtain ⟨field, hrun, rfl⟩ := Option.map_eq_some_iff.mp h
  unfold Stored.bytes needed
  rw [List.length_append]
  dsimp only
  rw [length_run hrun]
  split <;> rfl

/-- There is a result of no more than `size` bytes. -/
def Within (size : BitVec 32) (out : Option Stored) : Prop :=
  ∃ s, out = some s ∧ s.bytes.length ≤ size.toNat

theorem vsnprintf_isSome (size : BitVec 32) {fmt : List Char} (h : Matches fmt args) :
    ∃ s, vsnprintf size fmt args = some s := by
  obtain ⟨text, s, -, hstore, -⟩ := texts_run h
  unfold vsnprintf
  rw [hstore]
  exact ⟨_, rfl⟩

/-- It does not matter which size the caller has passed. -/
theorem within_iff {n : BitVec 32} (size : BitVec 32) {fmt : List Char} (h : Matches fmt args) :
    Within n (vsnprintf size fmt args) ↔ needed fmt args ≤ n.toNat := by
  obtain ⟨s, hs⟩ := vsnprintf_isSome size h
  constructor
  · rintro ⟨s', hs', hle⟩
    rw [length_bytes hs'] at hle
    exact hle
  · intro hle
    rw [← length_bytes hs] at hle
    exact ⟨s, hs, hle⟩

/-- The size of the temporary array. -/
def tempSize : Nat := 80

/-- The conversions and the zeros behind them fit into the temporary array. -/
structure TempFits : Prop where
  unsigned : ∀ size args radix digits temp args', radix ∈ [8, 10, 16] →
    unsigned size args radix digits = some (temp, args') → temp.length + 1 ≤ tempSize
  decimal : ∀ size args temp args',
    Vsnprintf.decimal size args = some (temp, args') → temp.length + 1 ≤ tempSize

theorem tempFits : TempFits where
  unsigned := by
    intro size args radix digits temp args' hradix h
    obtain ⟨arg, -, hlength⟩ := length_unsigned hradix h
    have hle := numberLength_le hradix arg
    unfold tempSize
    omega
  decimal := by
    intro size args temp args' h
    obtain ⟨arg, -, hlength⟩ := length_decimal h
    have hle := signedLength_le arg
    unfold tempSize
    omega

theorem room_chars (chars : List Char) (items : List Item) (args : List Arg) :
    room (chars.map .char ++ items) args = chars.length + room items args := by
  induction chars with
  | nil => exact (Nat.zero_add _).symm
  | cons ch chars ih =>
      show room (chars.map .char ++ items) args + 1 = _
      rw [ih, List.length_cons]
      omega

end Stdio

/-! ## The callers -/

namespace Telnet

open Stdio

def obufSize : BitVec 32 := 133

def prompt : List Char := "\r\ntelnet >".toList

/-- The bytes of a string. -/
def chars (bytes : List (BitVec 8)) : List Char := bytes.map fun b => Char.ofNat b.toNat

def replyFormat : List Char := "%c%c%c%c".toList

def replyArgs (cmd ch : BitVec 8) : List Arg :=
  [.word (cmdIAC.setWidth 32), .word (cmd.setWidth 32), .word (ch.setWidth 32), .word 0]

/-- The reply to the option `ch`. -/
def reply (cmd ch : BitVec 8) : Option Stored := snprintf 4 replyFormat (replyArgs cmd ch)

def echoBegin : List Char := "\r\nThis is TELNET echoing your command : \"".toList

def echoFormat : List Char := echoBegin ++ "%s\"\r\n%s".toList

/-- The command line is echoed. -/
def echo (ibuf : List (BitVec 8)) : Option Stored :=
  snprintf obufSize echoFormat [.string (chars ibuf), .string prompt]

def greetingFormat : List Char := "\nKS10 Telnet Interface\r\n%s".toList

def greeting : Option Stored := snprintf obufSize greetingFormat [.string prompt]

/-- The longest line whose echo fits. -/
def echoMost : Nat := 78

/-- The calls whose results fit into the buffer of the connection. -/
structure CallersFit : Prop where
  reply : ∀ cmd ch, Within obufSize (reply cmd ch)
  greeting : Within obufSize greeting
  echo_iff : ∀ ibuf, Within obufSize (echo ibuf) ↔ ibuf.length ≤ echoMost

theorem needed_reply (cmd ch : BitVec 8) : needed replyFormat (replyArgs cmd ch) = 5 := rfl

theorem within_reply (n : BitVec 32) (cmd ch : BitVec 8) :
    Within n (reply cmd ch) ↔ 5 ≤ n.toNat := by
  have h : Matches replyFormat (replyArgs cmd ch) := ⟨[], rfl⟩
  rw [← needed_reply cmd ch]
  exact within_iff 4 h

theorem needed_echo (ibuf : List (BitVec 8)) :
    needed echoFormat [.string (chars ibuf), .string prompt] = ibuf.length + 55 := by
  have hitems : (format echoFormat).items = echoBegin.map .char ++
      (format "%s\"\r\n%s".toList).items := by decide
  have hclosed : (format echoFormat).closed = true := by decide
  have hrest : room (format "%s\"\r\n%s".toList).items [.string (chars ibuf), .string prompt] =
      max 0 (chars ibuf).length + (max 0 10 + 0 + 1 + 1 + 1) := rfl
  have hlength : (chars ibuf).length = ibuf.length := List.length_map _
  have hbegin : echoBegin.length = 41 := by decide
  unfold needed
  rw [hitems, hclosed, room_chars, hrest, hlength, hbegin, if_pos rfl]
  omega

theorem within_echo (ibuf : List (BitVec 8)) :
    Within obufSize (echo ibuf) ↔ ibuf.length ≤ echoMost := by
  have h : Matches echoFormat [.string (chars ibuf), .string prompt] := ⟨[], rfl⟩
  have hiff : Within obufSize (echo ibuf) ↔
      needed echoFormat [.string (chars ibuf), .string prompt] ≤ obufSize.toNat :=
    within_iff obufSize h
  rw [hiff, needed_echo]
  show ibuf.length + 55 ≤ 133 ↔ ibuf.length ≤ 78
  omega

theorem within_greeting : Within obufSize greeting := by
  have h : Matches greetingFormat [.string prompt] := by decide
  have hle : needed greetingFormat [.string prompt] ≤ obufSize.toNat := by decide
  exact (within_iff obufSize h).mpr hle

theorem callersFit : CallersFit where
  reply cmd ch := (within_reply obufSize cmd ch).mpr (by decide)
  greeting := within_greeting
  echo_iff := within_echo

end Telnet

namespace Stdio

/-- `vsnprintf` stores no more than `size` bytes exactly when the fields and the zero behind them
are no more. -/
theorem bounded_iff (size : BitVec 32) (fmt : List Char) (args : List Arg)
    (h : Matches fmt args) :
    (Within size (vsnprintf size fmt args) ↔ needed fmt args ≤ size.toNat) ∧ TempFits ∧
      Telnet.CallersFit :=
  ⟨within_iff size h, tempFits, Telnet.callersFit⟩

/-- A number and a string. -/
theorem bounded_iff_fields :
    Matches "%6lo %s".toList [.word 0o1234, .string "KS10".toList] ∧
      (Within 12 (vsnprintf 12 "%6lo %s".toList [.word 0o1234, .string "KS10".toList]) ↔
        needed "%6lo %s".toList [.word 0o1234, .string "KS10".toList] ≤ 12) := by
  have h : Matches "%6lo %s".toList [.word 0o1234, .string "KS10".toList] := by decide
  exact ⟨h, (bounded_iff 12 _ _ h).1⟩

/-- A reply has five bytes where four are allowed, and the echo of a line of 79 characters goes
beyond the buffer. -/
theorem bounded_fails :
    ¬ Within 4 (Telnet.reply Telnet.cmdDONT 1) ∧
      ¬ Within Telnet.obufSize (Telnet.echo (List.replicate 79 97)) := by
  constructor
  · intro hwithin
    exact absurd ((Telnet.within_reply 4 _ _).mp hwithin) (by decide)
  · intro hwithin
    exact absurd ((Telnet.within_echo _).mp hwithin) (by decide)

end Stdio

end KS10
