import Mathlib.Data.List.Basic

/-!
# Formatted output of the console

`printf` sends its characters to the terminal, `vsnprintf` stores them in a buffer.  Both read
the format in the same way, and each has its own switch over the conversions.  `int` and `long`
have 32 bits, `long long` has 64.  A string is a list of the characters in front of its zero.
An argument that is missing, or is not of the type that the conversion takes, has no result
(`none`).
-/

namespace KS10

namespace Stdio

/-- The zero at the end of a string. -/
def nul : Char := Char.ofNat 0

/-! ## Numbers -/

def upperDigits : List Char := "0123456789ABCDEFGHIJKLMNOPQRSTUVWXYZ".toList

def lowerDigits : List Char := "0123456789abcdefghijklmnopqrstuvwxyz".toList

/-- The recursion of `ultoa`, at most `fuel` deep. -/
def ultoaLoop (radix : Nat) (digits : List Char) : Nat → Nat → List Char
  | 0, _ => []
  | fuel + 1, value =>
      (if value / radix ≠ 0 then ultoaLoop radix digits fuel (value / radix) else []) ++
        [digits.getD (value % radix) nul]

/-- A number of 32 bits has at most 32 digits. -/
def ultoa (value : BitVec 32) (radix : Nat) (digits : List Char) : List Char :=
  ultoaLoop radix digits 32 value.toNat

/-- The recursion of `ulltoa`, at most `fuel` deep. -/
def ulltoaLoop (shift mask : Nat) (digits : List Char) : Nat → BitVec 64 → List Char
  | 0, _ => []
  | fuel + 1, value =>
      (if value >>> shift ≠ 0 then ulltoaLoop shift mask digits fuel (value >>> shift) else []) ++
        [digits.getD (value.toNat &&& mask) nul]

def notImplemented : List Char := "Not implemented".toList

def ulltoa (value : BitVec 64) (radix : Nat) (digits : List Char) : List Char :=
  if radix = 16 then ulltoaLoop 4 15 digits 64 value
  else if radix = 8 then ulltoaLoop 3 7 digits 64 value
  else notImplemented

def ltoa (value : BitVec 32) (radix : Nat) : List Char :=
  if radix < 2 || radix > 36 then []
  else if radix = 10 && value.slt 0 then '-' :: ultoa (-value) radix lowerDigits
  else ultoa value radix lowerDigits

def lltoa (value : BitVec 64) (radix : Nat) : List Char :=
  if radix < 2 || radix > 36 then []
  else if radix = 10 && value.slt 0 then '-' :: ulltoa (-value) radix lowerDigits
  else ulltoa value radix lowerDigits

/-! ## Fields -/

/-- The loop that takes the length of the string off the width. -/
def trim : List Char → Int → Int
  | [], width => width
  | _ :: p, width => if width > 0 then trim p (width - 1) else width

/-- The characters sent to the terminal for a field. -/
def chrout (width : BitVec 32) (padchar : Char) (src : List Char) : List Char :=
  List.replicate (trim src width.toInt).toNat padchar ++ src

/-- What is stored for a field, how much it is, and what is sent to the terminal instead. -/
structure Field where
  text : List Char
  ret : BitVec 32
  console : List Char

/-- The characters stored for a field.  Every tab of the string is reported on the terminal. -/
def strout (width : BitVec 32) (padchar : Char) (src : List Char) : Field :=
  let pad := (trim src width.toInt).toNat
  { text := List.replicate pad padchar ++ src
    ret := BitVec.ofNat 32 pad + BitVec.ofNat 32 src.length
    console := src.flatMap fun ch => if ch = '\t' then "[TAB]".toList else [] }

/-! ## Formats -/

inductive Size where
  | int
  | long
  | longLong
  deriving DecidableEq

/-- The cases of the switches over the conversion characters. -/
inductive Conv where
  | u
  | d
  | o
  | x
  | X
  | c
  | s
  | percent
  | default
  deriving DecidableEq

def Conv.of : Char → Conv
  | 'u' => .u
  | 'd' => .d
  | 'o' => .o
  | 'x' => .x
  | 'X' => .X
  | 'c' => .c
  | 's' => .s
  | '%' => .percent
  | _ => .default

/-- What stands behind a percent sign. -/
structure Directive where
  leftFlag : Bool
  padchar : Char
  width : BitVec 32
  prec : BitVec 32
  size : Size
  /-- The conversion character, or the zero at the end of the format. -/
  conv : Char
  deriving DecidableEq

namespace Directive

def isdigit (ch : Char) : Bool := '0' ≤ ch && ch ≤ '9'

def number (n : BitVec 32) : List Char → BitVec 32 × List Char
  | [] => (n, [])
  | ch :: fmt =>
      if isdigit ch then number (n * 10 + BitVec.ofNat 32 (ch.toNat - '0'.toNat)) fmt
      else (n, ch :: fmt)

def flag : List Char → Bool × List Char
  | '-' :: fmt => (true, fmt)
  | fmt => (false, fmt)

def zero : List Char → Char × List Char
  | '0' :: fmt => ('0', fmt)
  | fmt => (' ', fmt)

def precision : List Char → BitVec 32 × List Char
  | '.' :: fmt => number 0 fmt
  | fmt => (0, fmt)

def modifiers : List Char → Size × List Char
  | 'l' :: 'l' :: fmt => (.longLong, fmt)
  | 'l' :: fmt => (.long, fmt)
  | fmt => (.int, fmt)

def conversion : List Char → Char × List Char
  | ch :: fmt => (ch, fmt)
  | [] => (nul, [])

/-- The directive and the rest of the format. -/
def parse (fmt : List Char) : Directive × List Char :=
  let (leftFlag, fmt) := flag fmt
  let (padchar, fmt) := zero fmt
  let (width, fmt) := number 0 fmt
  let (prec, fmt) := precision fmt
  let (size, fmt) := modifiers fmt
  let (conv, fmt) := conversion fmt
  (⟨leftFlag, padchar, width, prec, size, conv⟩, fmt)

end Directive

/-- A part of a format. -/
inductive Item where
  | char (ch : Char)
  | directive (d : Directive)
  deriving DecidableEq

/-- A format as the loops read it. -/
structure Format where
  items : List Item
  /-- The format does not end within a directive. -/
  closed : Bool
  deriving DecidableEq

def Format.cons (item : Item) (f : Format) : Format := { f with items := item :: f.items }

/-- The loop over a format of at most `fuel` characters.  The loops return where the format ends
within a directive. -/
def scan : Nat → List Char → Format
  | 0, _ => ⟨[], true⟩
  | _ + 1, [] => ⟨[], true⟩
  | fuel + 1, ch :: fmt =>
      if ch ≠ '%' then (scan fuel fmt).cons (.char ch)
      else
        let (d, fmt) := Directive.parse fmt
        if d.conv = nul then ⟨[], false⟩ else (scan fuel fmt).cons (.directive d)

def format (fmt : List Char) : Format := scan fmt.length fmt

/-! ## Arguments -/

inductive Arg where
  | word (w : BitVec 32)
  | double (w : BitVec 64)
  | string (s : List Char)
  deriving DecidableEq

namespace Arg

def getWord : List Arg → Option (BitVec 32 × List Arg)
  | .word w :: args => some (w, args)
  | _ => none

def getDouble : List Arg → Option (BitVec 64 × List Arg)
  | .double w :: args => some (w, args)
  | _ => none

def getString : List Arg → Option (List Char × List Arg)
  | .string s :: args => some (s, args)
  | _ => none

end Arg

/-- A number is taken from the arguments and converted. -/
def convert (size : Size) (args : List Arg) (int long : BitVec 32 → List Char)
    (longLong : BitVec 64 → List Char) : Option (List Char × List Arg) :=
  match size with
  | .int => (Arg.getWord args).map fun (w, args) => (int w, args)
  | .long => (Arg.getWord args).map fun (w, args) => (long w, args)
  | .longLong => (Arg.getDouble args).map fun (w, args) => (longLong w, args)

/-- An unsigned number, converted by the same functions in both. -/
def unsigned (size : Size) (args : List Arg) (radix : Nat) (digits : List Char) :
    Option (List Char × List Arg) :=
  convert size args (ultoa · radix digits) (ultoa · radix digits) (ulltoa · radix digits)

/-- The character that an `int` is cast to. -/
def toChar (w : BitVec 32) : Char := Char.ofNat (w.toNat % 256)

/-! ## printf -/

namespace Printf

def decimal (size : Size) (args : List Arg) : Option (List Char × List Arg) :=
  convert size args (ltoa · 10) (ltoa · 10) (lltoa · 10)

/-- The characters for a directive. -/
def send (d : Directive) (args : List Arg) : Option (List Char × List Arg) :=
  let out := fun (temp, args) => (chrout d.width d.padchar temp, args)
  match Conv.of d.conv with
  | .u => (unsigned d.size args 10 lowerDigits).map out
  | .d => (decimal d.size args).map out
  | .o => (unsigned d.size args 8 lowerDigits).map out
  | .x => (unsigned d.size args 16 lowerDigits).map out
  | .X => (unsigned d.size args 16 upperDigits).map out
  | .c => (Arg.getWord args).map fun (w, args) => ([toChar w], args)
  | .s => (Arg.getString args).map fun (s, args) => (chrout d.width nul s, args)
  | .percent => some (['%'], args)
  | .default => some ([], args)

def run : List Item → List Arg → Option (List Char)
  | [], _ => some []
  | .char ch :: items, args => (run items args).map (ch :: ·)
  | .directive d :: items, args => do
      let (text, args) ← send d args
      let rest ← run items args
      some (text ++ rest)

end Printf

/-- The characters that are sent, before newlines are expanded. -/
def printf (fmt : List Char) (args : List Arg) : Option (List Char) :=
  Printf.run (format fmt).items args

/-! ## vsnprintf -/

/-- What is stored in the buffer, from its beginning on. -/
structure Stored extends Field where
  /-- A zero is stored behind the text. -/
  closed : Bool

/-- The bytes that are stored. -/
def Stored.bytes (s : Stored) : List Char := s.text ++ if s.closed then [nul] else []

namespace Vsnprintf

def decimal (size : Size) (args : List Arg) : Option (List Char × List Arg) :=
  convert size args (fun w => lltoa (w.signExtend 64) 10) (fun w => lltoa (w.signExtend 64) 10)
    (lltoa · 10)

/-- What is stored for a directive. -/
def store (d : Directive) (args : List Arg) : Option (Field × List Arg) :=
  let out := fun (temp, args) => (strout d.width d.padchar temp, args)
  match Conv.of d.conv with
  | .u => (unsigned d.size args 10 lowerDigits).map out
  | .d => (decimal d.size args).map out
  | .o => (unsigned d.size args 8 lowerDigits).map out
  | .x => (unsigned d.size args 16 lowerDigits).map out
  | .X => (unsigned d.size args 16 upperDigits).map out
  | .c => (Arg.getWord args).map fun (w, args) => (⟨[toChar w], 1, []⟩, args)
  | .s => (Arg.getString args).map fun (s, args) => (strout d.width nul s, args)
  | .percent => some (⟨['%'], 1, []⟩, args)
  | .default => some (⟨[], 0, []⟩, args)

def run : List Item → List Arg → Option Field
  | [], _ => some ⟨[], 0, []⟩
  | .char ch :: items, args =>
      (run items args).map fun s => { s with text := ch :: s.text, ret := 1 + s.ret }
  | .directive d :: items, args => do
      let (field, args) ← store d args
      let s ← run items args
      some
        { text := field.text ++ s.text
          ret := field.ret + s.ret
          console := field.console ++ s.console }

end Vsnprintf

/-- The size of the buffer is not looked at. -/
def vsnprintf (_size : BitVec 32) (fmt : List Char) (args : List Arg) : Option Stored :=
  (Vsnprintf.run (format fmt).items args).map fun s => { s with closed := (format fmt).closed }

def snprintf (size : BitVec 32) (fmt : List Char) (args : List Arg) : Option Stored :=
  vsnprintf size fmt args

def sprintf (fmt : List Char) (args : List Arg) : Option Stored :=
  vsnprintf (BitVec.allOnes 32) fmt args

end Stdio

end KS10
