import KS10.Console.Stdio
import Mathlib.Algebra.Group.Nat.Defs

/-!
# The disassembler of the console

A word is disassembled by one of three functions, which the table chooses by the operation code.
All of them print the fields of the word in octal, a mnemonic and the operands.  Each call of
`sprintf` writes behind the characters that have been written so far, over the zero of the call
before.

The operands are read back as the assembler reads them (`Operands.read`).
-/

namespace KS10

open Stdio

namespace Dasm

/-! ## Tables -/

/-- The mnemonics by operation code. -/
def opcodes : List String :=
  ["UUO", "SJCL", "SJCE", "SJCLE", "EDIT", "SJCGE", "SJCN", "SJCG",
   "CVTDBO", "CVTDBT", "CVTBDO", "CVTBDT", "MOVSO", "MOVST", "MOVSLJ", "MOVSRJ",
   "XBLT", "LUUO21", "LUUO22", "LUUO23", "LUUO24", "LUUO25", "LUUO26", "LUUO27",
   "LUUO30", "LUUO31", "LUUO32", "LUUO33", "LUUO34", "LUUO35", "LUUO36", "LUUO37",
   "MUUO30", "MUUO31", "MUUO32", "MUUO23", "MUUO24", "MUUO25", "MUUO26", "MUUO27",
   "MUUO50", "MLUU51", "MUUO52", "MUUO53", "MUUO54", "MUUO55", "MUUO56", "MUUO57",
   "MUUO60", "MUUO61", "MUUO62", "MUUO63", "MUUO64", "MUUO65", "MUUO66", "MUUO67",
   "LUUO00", "LUUO21", "LUUO22", "LUUO23", "LUUO24", "LUUO25", "LUUO26", "LUUO27",
   "UJEN", "UUO101", "UUO102", "UUO103", "JSYS", "ADJSP", "UUO106", "UUO107",
   "DFAD", "DFSB", "DFMP", "DFDV", "DADD", "DSUB", "DMUL", "DDIV",
   "DMOVE", "DMOVN", "FIX", "EXTEND", "DMOVEM", "DMOVNM", "FIXR", "FLTR",
   "UFA", "DFN", "FSC", "IBP", "ILDB", "LDB", "IDPB", "DPB",
   "FAD", "FADL", "FADM", "FADB", "FADRI", "FADRL", "FADRM", "FADRB",
   "FSB", "FSBL", "FSBM", "FSBB", "FSBRI", "FSBRL", "FSBRM", "FSBRB",
   "FMP", "FMPL", "FMPM", "FMPB", "FMPRI", "FMPRL", "FMPRM", "FMPRB",
   "FDV", "FDVL", "FDVM", "FDVB", "FDVRI", "FDVRL", "FDVRM", "FDVRB",
   "MOVE", "MOVEI", "MOVEM", "MOVES", "MOVS", "MOVSI", "MOVSM", "MOVSS",
   "MOVN", "MOVNI", "MOVNM", "MOVNS", "MOVM", "MOVMI", "MOVMM", "MOVMS",
   "IMUL", "IMULI", "IMULM", "IMULB", "MUL", "MULI", "MULM", "MULB",
   "IDIV", "IDIVI", "IDIVM", "IDIVB", "DIV", "DIVI", "DIVM", "DIVB",
   "ASH", "ROT", "LSH", "JFFO", "ASHC", "ROTC", "LSHC", "UUO247",
   "EXCH", "BLT", "AOBJP", "AOBJN", "JRST", "JFCL", "XCT", "MAP",
   "PUSHJ", "PUSH", "POP", "POPJ", "JSR", "JSP", "JSA", "JRA",
   "ADD", "ADDI", "ADDM", "ADDB", "SUB", "SUBI", "SUBM", "SUBB",
   "CAI", "CAIL", "CAIE", "CAILE", "CAIA", "CAIGE", "CAIN", "CAIG",
   "CAM", "CAML", "CAME", "CAMLE", "CAMA", "CAMGE", "CAMN", "CAMG",
   "JUMP", "JUMPL", "JUMPE", "JUMPLE", "JUMPA", "JUMPGE", "JUMPN", "JUMPG",
   "SKIP", "SKIPL", "SKIPE", "SKIPLE", "SKIPA", "SKIPGE", "SKIPN", "SKIPG",
   "AOJ", "AOJL", "AOJE", "AOJLE", "AOJA", "AOJGE", "AOJN", "AOJG",
   "AOS", "AOSL", "AOSE", "AOSLE", "AOSA", "AOSGE", "AOSN", "AOSG",
   "SOJ", "SOJL", "SOJE", "SOJLE", "SOJA", "SOJGE", "SOJN", "SOJG",
   "SOS", "SOSL", "SOSE", "SOSLE", "SOSA", "SOSGE", "SOSN", "SOSG",
   "SETZ", "SETZI", "SETZM", "SETZB", "AND", "ANDI", "ANDM", "ANDB",
   "ANDCA", "ANDCAI", "ANDCAM", "ANDCAB", "SETM", "SETMI", "SETMM", "SETMB",
   "ANDCM", "ANDCMI", "ANDCMM", "ANDCMB", "SETA", "SETAI", "SETAM", "SETAB",
   "XOR", "XORI", "XORM", "XORB", "OR", "ORI", "ORM", "ORB",
   "ANDCB", "ANDCBI", "ANDCBM", "ANDCBB", "EQV", "EQVI", "EQVM", "EQVB",
   "SETCA", "SETCAI", "SETCAM", "SETCAB", "ORCA", "ORCAI", "ORCAM", "ORCAB",
   "SETCM", "SETCMI", "SETCMM", "SETCMB", "ORCM", "ORCMI", "ORCMM", "ORCMB",
   "ORCB", "ORCBI", "ORCBM", "ORCBB", "SETO", "SETOI", "SETOM", "SETOB",
   "HLL", "HLLI", "HLLM", "HLLS", "HRL", "HRLI", "HRLM", "HRLS",
   "HLLZ", "HLLZI", "HLLZM", "HLLZS", "HRLZ", "HRLZI", "HRLZM", "HRLZS",
   "HLLO", "HLLOI", "HLLOM", "HLLOS", "HRLO", "HRLOI", "HRLOM", "HRLOS",
   "HLLE", "HLLEI", "HLLEM", "HLLES", "HRLE", "HRLEI", "HRLEM", "HRLES",
   "HRR", "HRRI", "HRRM", "HRRS", "HLR", "HLRI", "HLRM", "HLRS",
   "HRRZ", "HRRZI", "HRRZM", "HRRZS", "HLRZ", "HLRZI", "HLRZM", "HLRZS",
   "HRRO", "HRROI", "HRROM", "HRROS", "HLRO", "HLROI", "HLROM", "HLROS",
   "HRRE", "HRREI", "HRREM", "HRRES", "HLRE", "HLREI", "HLREM", "HLRES",
   "TRN", "TLN", "TRNE", "TLNE", "TRNA", "TLNA", "TRNN", "TLNN",
   "TDN", "TSN", "TDNE", "TSNE", "TDNA", "TSNA", "TDNN", "TSNN",
   "TRZ", "TLZ", "TRZE", "TLZE", "TRZA", "TLZA", "TRZN", "TLZN",
   "TDZ", "TSZ", "TDZE", "TSZE", "TDZA", "TSZA", "TDZN", "TSZN",
   "TRC", "TLC", "TRCE", "TLCE", "TRCA", "TLCA", "TRCN", "TLCN",
   "TDC", "TSC", "TDCE", "TSCE", "TDCA", "TSCA", "TDCN", "TSCN",
   "TRO", "TLO", "TROE", "TLOE", "TROA", "TLOA", "TRON", "TLON",
   "TDO", "TSO", "TDOE", "TSOE", "TDOA", "TSOA", "TDON", "TSON",
   "700", "701", "702", "IOT703", "UMOVE", "UMOVEM", "IOT706", "IOT707",
   "TIOE", "TION", "RDIO", "WRIO", "BSIO", "BCIO", "IOT716", "IOT717",
   "TIOEB", "TIONB", "RDIOB", "WRIOB", "BSIOB", "BCIOB", "IOT726", "IOT727",
   "IOT730", "IOT731", "IOT732", "IOT733", "OT7434", "IOT735", "IOT736", "IOT737",
   "IOT740", "IOT741", "IOT742", "IOT743", "IOT744", "IOT745", "IOT746", "IOT747",
   "IOT750", "IOT751", "IOT752", "IOT753", "IOT754", "IOT755", "IOT756", "IOT757",
   "IOT760", "IOT761", "IOT762", "IOT763", "IOT764", "IOT765", "IOT766", "IOT767",
   "UUO770", "UUO771", "UUO772", "UUO773", "UUO774", "UUO775", "UUO776", "UUO777"]

/-- The mnemonics of the operation codes 700 to 702 by the lower bits of these and by AC. -/
def iotTable : List String :=
  ["APRID", "70004", "70010", "70014", "WRAPR", "RDAPR", "70030", "70034",
   "70040", "70044", "70050", "70054", "WRPI", "RDPI", "70070", "70014",
   "70100", "RDUBR", "CLRPT", "WRUBR", "WREBR", "RDEBR", "70130", "70134",
   "70140", "70144", "70150", "70154", "70160", "70164", "70170", "70174",
   "RDSPB", "RDCSB", "RDPUR", "RDCSTM", "RDTIM", "RDINT", "RDHSB", "70234",
   "WRSPB", "WRCSB", "WRPUR", "WRCSTM", "WRTIM", "WRINT", "WRHSB", "70274"]

/-- The mnemonics of `JRST` by AC. -/
def jrstTable : List String :=
  ["JRST", "PORTAL", "JRSTF", "UUO", "HALT", "XJRSTF", "XJEN", "XPCW",
   "JRST10", "UUO", "JEN", "UUO", "SFM", "UUO", "UUO", "UUO"]

/-- A string of a table. -/
def entry (table : List String) (k : BitVec 32) : List Char := (table.getD k.toNat "").toList

/-! ## Fields -/

def op (insn : BitVec 64) : BitVec 32 := ((insn >>> 27) &&& 0o777).setWidth 32

def ac (insn : BitVec 64) : BitVec 32 := ((insn >>> 23) &&& 0o17).setWidth 32

/-- The indirect bit. -/
def ind (insn : BitVec 64) : BitVec 32 := ((insn >>> 22) &&& 1).setWidth 32

def xr (insn : BitVec 64) : BitVec 32 := ((insn >>> 18) &&& 0o17).setWidth 32

def ea (insn : BitVec 64) : BitVec 32 := (insn &&& 0o777777).setWidth 32

/-- The function code of an input or output instruction. -/
def f (insn : BitVec 64) : BitVec 32 := ((insn >>> 23) &&& 0o77).setWidth 32

/-! ## Output -/

/-- The bytes that have been written, from the beginning of the buffer on, and the length of the
text. -/
structure Out where
  buf : List Char
  len : BitVec 32

namespace Out

/-- `sprintf` writes at the length, and what it returns is added. -/
def sprintf (o : Out) (fmt : List Char) (args : List Arg) : Option Out :=
  (Stdio.sprintf fmt args).map fun s =>
    { buf := o.buf.take o.len.toNat ++ s.bytes ++ o.buf.drop (o.len.toNat + s.bytes.length)
      len := o.len + s.ret }

def start : Out := ⟨[], 0⟩

end Out

/-- The part that all of the functions print. -/
def fields (insn : BitVec 64) (mnemonic : List Char) : Option Out := do
  let o ← Out.start.sprintf "%03o %02o %01o %02o %06o\t".toList
    [.word (op insn), .word (ac insn), .word (ind insn), .word (xr insn), .word (ea insn)]
  o.sprintf "%s\t".toList [.string mnemonic]

/-- AC is printed. -/
def accumulator (insn : BitVec 64) (o : Out) : Option Out :=
  if ac insn ≠ 0 then o.sprintf "%o,".toList [.word (ac insn)] else some o

/-- The indirect bit is printed. -/
def indirect (insn : BitVec 64) (o : Out) : Option Out :=
  if ind insn ≠ 0 then o.sprintf "@".toList [] else some o

/-- The address is printed.  With its highest bit it is a negative number. -/
def signed (insn : BitVec 64) (o : Out) : Option Out :=
  if ac insn ≠ 0 ∨ ind insn ≠ 0 ∨ xr insn ≠ 0 ∨ ea insn ≠ 0 then
    if ea insn &&& 0o400000 ≠ 0 then
      o.sprintf "-%o".toList [.word ((~~~ea insn + 1) &&& 0o377777)]
    else o.sprintf "%o".toList [.word (ea insn)]
  else some o

/-- The address is printed without a sign. -/
def unsigned (insn : BitVec 64) (o : Out) : Option Out :=
  if ind insn ≠ 0 ∨ xr insn ≠ 0 ∨ ea insn ≠ 0 then o.sprintf "%o".toList [.word (ea insn)]
  else some o

/-- The index register is printed. -/
def index (insn : BitVec 64) (o : Out) : Option Out :=
  if xr insn ≠ 0 then o.sprintf "(%o)".toList [.word (xr insn)] else some o

/-- A standard instruction. -/
def opSTD (opcode : List Char) (insn : BitVec 64) : Option Out := do
  let o ← fields insn opcode
  let o ← accumulator insn o
  let o ← indirect insn o
  let o ← signed insn o
  index insn o

/-- An instruction with a mnemonic of its own for each AC. -/
def opExtended (mnemonic : List Char) (insn : BitVec 64) : Option Out := do
  let o ← fields insn mnemonic
  let o ← indirect insn o
  let o ← unsigned insn o
  index insn o

/-- An input or output instruction. -/
def opIOT (insn : BitVec 64) : Option Out := opExtended (entry iotTable (f insn)) insn

def opJRST (insn : BitVec 64) : Option Out := opExtended (entry jrstTable (ac insn)) insn

/-- The functions of the table. -/
inductive Fun where
  | opSTD
  | opIOT
  | opJRST
  deriving DecidableEq

def table (op : BitVec 32) : Fun :=
  if op = 0o254 then .opJRST
  else if op = 0o700 ∨ op = 0o701 ∨ op = 0o702 then .opIOT
  else .opSTD

/-- The size of the buffer. -/
def bufferSize : Nat := 32

/-- The bytes that are written into the buffer. -/
def dasm (insn : BitVec 64) : Option (List Char) :=
  (match table (op insn) with
    | .opSTD => opSTD (entry opcodes (op insn)) insn
    | .opIOT => opIOT insn
    | .opJRST => opJRST insn).map Out.buf

end Dasm

/-! ## The assembler -/

/-- The fields of a word that the operands stand for. -/
structure Operands where
  ac : Nat
  indirect : Nat
  index : Nat
  address : Nat
  deriving DecidableEq

namespace Operands

/-- The fields of a word. -/
def ofWord (insn : BitVec 64) : Operands where
  ac := insn.toNat / 2 ^ 23 % 2 ^ 4
  indirect := insn.toNat / 2 ^ 22 % 2 ^ 1
  index := insn.toNat / 2 ^ 18 % 2 ^ 4
  address := insn.toNat / 2 ^ 0 % 2 ^ 18

def isOctal (ch : Char) : Bool := '0' ≤ ch && ch ≤ '7'

/-- The value of octal digits. -/
def value (digits : List Char) : Nat := digits.foldl (fun v ch => v * 8 + (ch.toNat - '0'.toNat)) 0

/-- The octal number at the beginning, which may have no digits, and the rest. -/
def number (cs : List Char) : Nat × List Char :=
  (value (cs.takeWhile isOctal), cs.dropWhile isOctal)

/-- A number and a comma, or zero. -/
def readAC (cs : List Char) : Nat × List Char :=
  match number cs with
  | (n, ',' :: rest) => (n, rest)
  | _ => (0, cs)

def readIndirect : List Char → Nat × List Char
  | '@' :: rest => (1, rest)
  | cs => (0, cs)

/-- A negative address is the two's complement of 18 bits. -/
def readAddress : List Char → Nat × List Char
  | '-' :: cs => ((2 ^ 18 - (number cs).1) % 2 ^ 18, (number cs).2)
  | cs => number cs

/-- A number in parentheses, or zero. -/
def readIndex : List Char → Option Nat
  | [] => some 0
  | '(' :: cs =>
      match number cs with
      | (n, [')']) => some n
      | _ => none
  | _ => none

/-- The operands are read.  A field that is left out is zero. -/
def read (cs : List Char) : Option Operands :=
  let (ac, cs) := readAC cs
  let (indirect, cs) := readIndirect cs
  let (address, cs) := readAddress cs
  (readIndex cs).map fun index => ⟨ac, indirect, index, address⟩

end Operands

end KS10
