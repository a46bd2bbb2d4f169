import KS10.Clocked.Enable
import KS10.Dup.Transmitter

/-!
# The program and the transmitter of the DUP11

The program writes words into TXDBUF: words with TXSOM for the synchronization characters or
flags, a word for each character of the message, and a word with TXEOM.  The write strobe is
up for some clocks, and at each of them the register is loaded and TXDONE is cleared.

`DupSend` is DUPTX with the register and with two lists, the words that were written and the
characters that were handed to the shift register.  `Legal` says what the program does: it
writes a word after it has seen TXDONE, with the words in their order, and keeps SEND until
the word with TXEOM has been taken.  `Undisturbed` is the condition on the write strobes under
which the handshake works.
-/

namespace KS10

open Clocked

/-- The transmitter data buffer register TXDBUF. -/
structure DupWord where
  txSom : Bool
  txEom : Bool
  txAbrt : Bool
  txDat : BitVec 8
  deriving DecidableEq

/-- What the shift register sends for a load. -/
inductive DupChar where
  | abort
  | flag
  | char (zbi : Bool) (d : BitVec 8)
  deriving DecidableEq

/-- The part of a character in the message. -/
inductive DupRole where
  | lead
  | data
  | checkHi
  | checkLo
  | close
  | abort
  deriving DecidableEq

/-- A character that was handed to the shift register. -/
structure DupItem where
  role : DupRole
  char : DupChar
  deriving DecidableEq

namespace DupTx.Fsm

/-- The character in the load registers, as the shift register takes it. -/
def char (f : Fsm) : DupChar :=
  if f.abrt then .abort else if f.flag then .flag else .char f.zbi f.data

/-- The part of this character in the message. -/
def role (f : Fsm) : DupRole :=
  if f.abrt then .abort
  else
    match f.state with
    | .payload => if f.flag then .close else .data
    | .sendCrcHi => .checkHi
    | .sendCrcLo => if f.flag then .close else .checkLo
    | .wait => if f.flag then .close else .data
    | _ => .lead

/-- The character that is handed over. -/
def handed (f : Fsm) : List DupItem := if f.load then [⟨f.role, f.char⟩] else []

end DupTx.Fsm

/-- DUPTX with its register, the write strobe of the clock before, the words that were written,
and the characters that were handed to the shift register. -/
structure DupSend where
  tx : DupTx
  buf : DupWord
  strobe : Bool
  wrote : List DupWord
  sent : List DupItem
  deriving DecidableEq

namespace DupSend

/-- The inputs at one clock; `wr` is the write strobe of TXDBUF and `word` what is written. -/
structure In where
  send : Bool
  txCen : Bool
  rxCen : Bool
  wr : Bool
  word : DupWord

def txIn (decmd crci : Bool) (s : DupSend) (i : In) : DupTx.In where
  rst := false
  init := false
  decmd := decmd
  crci := crci
  send := i.send
  txAbrt := s.buf.txAbrt
  txEom := s.buf.txEom
  txSom := s.buf.txSom
  txDat := s.buf.txDat
  txCen := i.txCen
  rxCen := i.rxCen
  txDbufWr := i.wr

/-- The shift register is empty. -/
def empty (s : DupSend) : Bool := s.tx.usrt.state == .idle && !s.tx.fsm.load

/-- One clock.  A word is on the list from the first clock of its strobe on. -/
def next (decmd crci : Bool) (s : DupSend) (i : In) : DupSend where
  tx := s.tx.next (s.txIn decmd crci i)
  buf := if i.wr then i.word else s.buf
  strobe := i.wr
  wrote := if i.wr && !s.strobe then s.wrote ++ [i.word] else s.wrote
  sent := s.sent ++ (s.tx.next (s.txIn decmd crci i)).fsm.handed

/-! ## The program -/

/-- The words of the message: the characters, and the end. -/
def body (words : List DupWord) : List (Option (BitVec 8)) :=
  words.filterMap fun w => if w.txSom then none else some (if w.txEom then none else some w.txDat)

/-- The words that the transmitter has acted upon: the characters that were handed over, and
the end at the first check character. -/
def taken (items : List DupItem) : List (Option (BitVec 8)) :=
  items.filterMap fun x =>
    match x.role, x.char with
    | .data, .char _ d => some (some d)
    | .checkHi, _ => some none
    | _, _ => none

/-- The last word was the end of the message. -/
def ended (s : DupSend) : Bool := s.buf.txEom && !s.buf.txSom

/-- The transmission has not come to its end. -/
def isOpen (s : DupSend) : Bool :=
  match s.tx.fsm.state with
  | .markHold | .wait | .done => false
  | .idle => s.wrote.isEmpty
  | _ => true

/-- A write of the program begins. -/
structure Writes (decmd : Bool) (s : DupSend) (w : DupWord) : Prop where
  /-- TXDONE has been seen. -/
  asked : s.tx.fsm.txDone = true
  isOpen : s.isOpen = true
  /-- The first word has TXSOM, and after a word without it there is none. -/
  first : s.wrote = [] → w.txSom = true
  order : w.txSom = true → body s.wrote = []
  /-- After the end there is at most another message behind a shared flag. -/
  again : s.wrote ≠ [] → s.ended = true → decmd = false ∧ w.txEom = false

instance (decmd : Bool) (s : DupSend) (w : DupWord) : Decidable (Writes decmd s w) :=
  decidable_of_iff (s.tx.fsm.txDone = true ∧ s.isOpen = true ∧ (s.wrote = [] → w.txSom = true) ∧
      (w.txSom = true → body s.wrote = []) ∧
      (s.wrote ≠ [] → s.ended = true → decmd = false ∧ w.txEom = false))
    ⟨fun h => ⟨h.1, h.2.1, h.2.2.1, h.2.2.2.1, h.2.2.2.2⟩,
      fun h => ⟨h.asked, h.isOpen, h.first, h.order, h.again⟩⟩

/-- What the program does at one clock. -/
structure Legal (decmd : Bool) (s : DupSend) (i : In) : Prop where
  begins : i.wr = true → s.strobe = false → Writes decmd s i.word
  /-- The word stays while the strobe is up. -/
  holds : i.wr = true → s.strobe = true → i.word = s.buf
  noAbort : i.wr = true → i.word.txAbrt = false
  /-- SEND is kept from the start until the end has been taken. -/
  send : i.send = false →
    s.tx.fsm.state = .idle ∨ s.ended = true ∧ s.tx.fsm.txDone = true ∧ i.wr = false

instance (decmd : Bool) (s : DupSend) (i : In) : Decidable (Legal decmd s i) :=
  decidable_of_iff ((i.wr = true → s.strobe = false → Writes decmd s i.word) ∧
      (i.wr = true → s.strobe = true → i.word = s.buf) ∧ (i.wr = true → i.word.txAbrt = false) ∧
      (i.send = false →
        s.tx.fsm.state = .idle ∨ s.ended = true ∧ s.tx.fsm.txDone = true ∧ i.wr = false))
    ⟨fun h => ⟨h.1, h.2.1, h.2.2.1, h.2.2.2⟩,
      fun h => ⟨h.begins, h.holds, h.noAbort, h.send⟩⟩

/-- At this clock a synchronization character or a flag is handed over. -/
def leads (s : DupSend) (i : In) : Bool :=
  s.tx.fsm.state == .startSync && s.empty && i.send && s.buf.txSom

/-- At this clock a character of the message or the first check character is handed over. -/
def hands (crci : Bool) (s : DupSend) (i : In) : Bool :=
  s.tx.fsm.state == .payload && s.empty && i.send &&
    if s.buf.txEom then !crci else !s.tx.fsm.txDone

/-- A write strobe that meets the hand-over of a character: the strobe of a word of the message
is not over at the only clock at which the character before it is handed over, and it is not up
any more at the clock after the word itself has been handed over.  `wr` is the strobe of the
next clock. -/
structure Undisturbed (crci : Bool) (s : DupSend) (i : In) (wr : Bool) : Prop where
  leads : i.wr = true → s.strobe = false → i.word.txSom = false → s.leads i = true → wr = true
  hands : i.wr = true → s.hands crci i = true → wr = false

instance (crci : Bool) (s : DupSend) (i : In) (wr : Bool) : Decidable (Undisturbed crci s i wr) :=
  decidable_of_iff ((i.wr = true → s.strobe = false → i.word.txSom = false → s.leads i = true →
        wr = true) ∧ (i.wr = true → s.hands crci i = true → wr = false))
    ⟨fun h => ⟨h.1, h.2⟩, fun h => ⟨h.leads, h.hands⟩⟩

/-! ## What is sent -/

/-- The characters have their parts. -/
def Shown (decmd : Bool) (words : List DupWord) (x : DupItem) : Prop :=
  match x.role with
  | .lead =>
      if decmd then ∃ w ∈ words, w.txSom = true ∧ x.char = .char false w.txDat
      else x.char = .flag ∨ x.char = .char false 0
  | .data => ∃ d, x.char = .char (!decmd) d
  | .checkHi => ∃ r, x.char = .char (!decmd) (DupTx.crcHi decmd r)
  | .checkLo => ∃ r, x.char = .char (!decmd) (DupTx.crcLo decmd r)
  | .close => x.char = .flag
  | .abort => x.char = .abort

/-- The order of the characters.  Without the inhibit of the CRC the two check characters of one
CRC come after the message, and in SDLC mode the closing flag after them; with the inhibit, in
SDLC mode, only the flag. -/
def Follows (decmd crci : Bool) (x y : DupItem) : Prop :=
  match x.role, y.role with
  | .lead, .lead => True
  | .lead, .data => True
  | .data, .data => True
  | .lead, .checkHi => crci = false
  | .data, .checkHi => crci = false
  | .checkHi, .checkLo =>
      ∃ r, x.char = .char (!decmd) (DupTx.crcHi decmd r) ∧
        y.char = .char (!decmd) (DupTx.crcLo decmd r)
  | .checkLo, .close => decmd = false
  | .close, .close => decmd = false
  | .close, .data => decmd = false
  | .close, .checkHi => decmd = false ∧ crci = false
  | .lead, .close => decmd = false ∧ crci = true
  | .data, .close => decmd = false ∧ crci = true
  | _, .abort => True
  | _, _ => False

/-- The words that are left when a transmission is over: with the inhibit of the CRC the end of
the message has no character of its own. -/
def leftOver (crci : Bool) : List (Option (BitVec 8)) := if crci then [none] else []

/-- The last character of a whole transmission. -/
def Closed (decmd crci : Bool) (x : DupItem) : Prop :=
  if decmd then if crci then x.role = .lead ∨ x.role = .data else x.role = .checkLo
  else x.role = .close

/-- The handshake has been kept so far. -/
structure Kept (decmd crci : Bool) (s : DupSend) : Prop where
  order : s.sent.IsChain (Follows decmd crci)
  first : ∀ x ∈ s.sent.head?, x.role = .lead
  shown : ∀ x ∈ s.sent, Shown decmd s.wrote x
  /-- The words were acted upon once each and in their order, but for the last one. -/
  words : ∃ rest, body s.wrote = taken s.sent ++ rest ∧ rest.length ≤ 1
  /-- While the program may write again, no word is waiting. -/
  noneLost : s.strobe = false → s.tx.fsm.txDone = true → s.isOpen = true →
    body s.wrote = taken s.sent
  /-- The shift register takes what is handed over. -/
  takes : s.tx.fsm.load = true → s.tx.usrt.state = .idle
  /-- A transmission that is over was sent as a whole, unless there was an underrun. -/
  whole : s.tx.fsm.state = .done → (∀ x ∈ s.sent, x.role ≠ .abort) →
    body s.wrote = taken s.sent ++ leftOver crci ∧ ∃ x ∈ s.sent.getLast?, Closed decmd crci x

/-- The transmitter is idle before a transmission. -/
structure Start (s : DupSend) : Prop where
  state : s.tx.fsm.state = .idle
  load : s.tx.fsm.load = false
  usrt : s.tx.usrt.state = .idle
  txSom : s.buf.txSom = false
  txAbrt : s.buf.txAbrt = false
  strobe : s.strobe = false
  wrote : s.wrote = []
  sent : s.sent = []

end DupSend

end KS10
