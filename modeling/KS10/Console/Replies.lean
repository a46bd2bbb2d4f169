import KS10.Console.Bounds

/-!
# The answers to Telnet options

The decoder refuses every option: it stores an `IAC DONT` for a `WILL` or a `WONT`, and an
`IAC WONT` for a `DO` or a `DONT`.  These answers share the output buffer and its length with the
greeting and with the echoes of the command lines, and the buffer is handed to the TCP stack only
behind the greeting and behind an echo.  No answer is ever sent, so that the options of a stream
are answered exactly when it has none (`TelnetServer.refused_iff`).
-/

namespace KS10

/-- What the TCP stack does with one call of `tcp_write`. -/
structure TcpWrite where
  /-- The room that it has before the call. -/
  sndbuf : BitVec 16
  /-- It takes the bytes. -/
  ok : Bool

structure TelnetServer where
  telnet : Telnet
  /-- The output buffer, as far as it has been written. -/
  obuf : List (BitVec 8)
  left : BitVec 16
  /-- What the stack does with the calls to come. -/
  writes : List TcpWrite
  /-- The messages that the stack has been handed, each as it was at that time. -/
  sent : List (List (BitVec 8))

namespace TelnetServer

open Telnet (cmdIAC cmdWILL cmdWONT cmdDO cmdDONT cr lf Cmd)

/-! ## The output buffer -/

def closeConn (s : TelnetServer) : TelnetServer := { s with telnet := s.telnet.closeConn }

def goto (s : TelnetServer) (state : Telnet.State) : TelnetServer :=
  { s with telnet := { s.telnet with state } }

/-- The bytes that `snprintf` stores. -/
def bytes (out : Stdio.Stored) : List (BitVec 8) :=
  out.bytes.map fun ch => BitVec.ofNat 8 ch.toNat

/-- Something is printed into the output buffer.  A text that is too long for the buffer has no
result. -/
def store (s : TelnetServer) (out : Option Stdio.Stored) : Option TelnetServer :=
  out.bind fun out =>
    if (bytes out).length ≤ Telnet.obufSize.toNat then
      some { s with
        obuf := bytes out ++ s.obuf.drop (bytes out).length
        left := out.ret.setWidth 16 }
    else none

/-- The loop of `send_data`: the bytes that the stack takes, and what is left when the loop
ends. -/
def sendLoop (obuf : List (BitVec 8)) :
    List TcpWrite → BitVec 16 → BitVec 16 → Option (List (BitVec 8) × BitVec 16 × List TcpWrite)
  | [], _, _ => none
  | write :: writes, left, bytesSent =>
      let bytesToSend := if left < write.sndbuf then left else write.sndbuf
      if write.ok then
        let taken := (obuf.drop bytesSent.toNat).take bytesToSend.toNat
        if 0 < left - bytesToSend then
          (sendLoop obuf writes (left - bytesToSend) (bytesSent + bytesToSend)).map
            fun (rest, left, writes) => (taken ++ rest, left, writes)
        else some (taken, left - bytesToSend, writes)
      else some ([], left, writes)

def sendData (s : TelnetServer) : Option TelnetServer :=
  (sendLoop s.obuf s.writes s.left 0).map fun (message, left, writes) =>
    { s with left, writes, sent := s.sent ++ [message] }

/-! ## The decoder -/

def cmdParser (s : TelnetServer) : Option TelnetServer :=
  if s.telnet.ibuf = Telnet.quit then some { s with left := 0 }.closeConn
  else
    (s.store (Telnet.echo s.telnet.ibuf)).map fun s =>
      { s with telnet := { s.telnet with ibuf := [] } }

/-- Behind a command line, what is left in the output buffer is sent. -/
def flush (s : TelnetServer) : Option TelnetServer :=
  if 0 < s.left then s.sendData else some s

def getChar (s : TelnetServer) (ch : BitVec 8) : Option TelnetServer :=
  if ch = lf then
    let s := { s with telnet := { s.telnet with passed := s.telnet.passed ++ [ch] } }
    s.cmdParser.bind flush
  else (s.telnet.getChar ch).map fun telnet => { s with telnet }

def updateState (s : TelnetServer) (ch : BitVec 8) : Option TelnetServer :=
  match s.telnet.state with
  | .stateIAC =>
      if ch = cmdIAC then (s.getChar ch).map fun s => s.goto .stateNORMAL
      else if ch = cmdWILL then some (s.goto .stateWILL)
      else if ch = cmdWONT then some (s.goto .stateWONT)
      else if ch = cmdDO then some (s.goto .stateDO)
      else if ch = cmdDONT then some (s.goto .stateDONT)
      else some (s.goto .stateNORMAL)
  | .stateWILL => (s.store (Telnet.reply cmdDONT ch)).map fun s => s.goto .stateNORMAL
  | .stateWONT => (s.store (Telnet.reply cmdDONT ch)).map fun s => s.goto .stateNORMAL
  | .stateDO =>
      (s.store (Telnet.reply cmdWONT ch)).map fun s =>
        let s := s.goto .stateNORMAL
        if ch = Telnet.timingMark then s.closeConn else s
  | .stateDONT => (s.store (Telnet.reply cmdWONT ch)).map fun s => s.goto .stateNORMAL
  | .stateNORMAL => if ch = cmdIAC then some (s.goto .stateIAC) else s.getChar ch

/-- A connection is accepted and greeted. -/
def accept (writes : List TcpWrite) : Option TelnetServer :=
  (store ⟨Telnet.accepted, [0], 0, writes, []⟩ Telnet.greeting).bind sendData

def feed (s : TelnetServer) (buf : List (BitVec 8)) : Option TelnetServer :=
  buf.foldlM updateState s

/-- The server behind the bytes of a stream that the receive function has handed over. -/
def run (writes : List TcpWrite) (stream : List (BitVec 8)) : Option TelnetServer :=
  (accept writes).bind fun s => s.feed stream

end TelnetServer

/-! ## What is claimed -/

namespace Telnet

def Cmd.of (ch : BitVec 8) : Option Cmd :=
  if ch = cmdWILL then some .willOption
  else if ch = cmdWONT then some .wontOption
  else if ch = cmdDO then some .doOption
  else if ch = cmdDONT then some .dontOption
  else none

/-- The option commands of a stream, as far as they are complete. -/
def options : List (BitVec 8) → List (Cmd × BitVec 8)
  | ch :: code :: option :: stream =>
      if ch = cmdIAC then
        match Cmd.of code with
        | some c => (c, option) :: options stream
        | none => options (option :: stream)
      else options (code :: option :: stream)
  | _ => []

/-- The command that refuses an option. -/
def Cmd.refusal : Cmd → BitVec 8
  | willOption => cmdDONT
  | wontOption => cmdDONT
  | doOption => cmdWONT
  | dontOption => cmdWONT

def Cmd.answer (c : Cmd) (option : BitVec 8) : List (BitVec 8) := [cmdIAC, c.refusal, option]

/-- The messages that begin with `IAC` are the answers to the commands, one for each in order. -/
def Answered (commands : List (Cmd × BitVec 8)) (sent : List (List (BitVec 8))) : Prop :=
  List.Forall₂ (fun c message => c.1.answer c.2 <+: message) commands
    (sent.filter fun message => message.head? = some cmdIAC)

theorem of_code (c : Cmd) : Cmd.of c.code = some c := by
  cases c <;> rfl

theorem options_data {ch : BitVec 8} (h : ch ≠ cmdIAC) (stream : List (BitVec 8)) :
    options (ch :: stream) = options stream := by
  match stream with
  | [] => rfl
  | [_] => rfl
  | _ :: _ :: _ => rw [options, if_neg h]

theorem options_escaped (stream : List (BitVec 8)) :
    options (cmdIAC :: cmdIAC :: stream) = options stream := by
  cases stream with
  | nil => rfl
  | cons => rw [options, if_pos rfl]; rfl

theorem options_command (c : Cmd) (option : BitVec 8) (stream : List (BitVec 8)) :
    options (cmdIAC :: c.code :: option :: stream) = (c, option) :: options stream := by
  rw [options, if_pos rfl, of_code]

/-- The options of a stream are those of its commands. -/
theorem options_items {rest : List (BitVec 8)} (h : Partial rest) (items : List Item) :
    options (items.flatMap Item.bytes ++ rest) =
      items.flatMap fun | .command c option => [(c, option)] | _ => [] := by
  induction items with
  | nil => cases h <;> rfl
  | cons it items ih =>
      rw [List.flatMap_cons, List.flatMap_cons, List.append_assoc, ← ih]
      cases it with
      | data ch hch => exact options_data hch _
      | escaped => exact options_escaped _
      | command c option => exact options_command c option _

end Telnet

namespace TelnetServer

open Telnet (cmdIAC cmdWILL cmdWONT cmdDO cmdDONT cr lf Cmd options Answered)

variable {s s' : TelnetServer} {ch : BitVec 8} {writes : List TcpWrite}

/-! ## What is stored -/

theorem store_eq {out : Option Stdio.Stored} (h : s.store out = some s') :
    ∃ o, out = some o ∧ (bytes o).length ≤ Telnet.obufSize.toNat ∧
      s' = { s with
        obuf := bytes o ++ s.obuf.drop (bytes o).length
        left := o.ret.setWidth 16 } := by
  obtain ⟨o, ho, hstore⟩ := Option.bind_eq_some_iff.mp h
  split at hstore
  case isTrue hlength => exact ⟨o, ho, hlength, (Option.some.inj hstore).symm⟩
  case isFalse => exact absurd hstore nofun

/-- A text begins with the first character of its format. -/
theorem head?_bytes {size : BitVec 32} {fmt : List Char} {args : List Stdio.Arg} {c : Char}
    {items : List Stdio.Item} {o : Stdio.Stored}
    (hitems : (Stdio.format fmt).items = .char c :: items)
    (h : Stdio.snprintf size fmt args = some o) :
    (bytes o).head? = some (BitVec.ofNat 8 c.toNat) := by
  unfold Stdio.snprintf Stdio.vsnprintf at h
  rw [hitems, Stdio.Vsnprintf.run] at h
  obtain ⟨field, hfield, rfl⟩ := Option.map_eq_some_iff.mp h
  obtain ⟨rest, -, rfl⟩ := Option.map_eq_some_iff.mp hfield
  rfl

theorem ofNat_toChar (w : BitVec 8) :
    BitVec.ofNat 8 (Stdio.toChar (w.setWidth 32)).toNat = w := by
  have hvalid : Nat.isValidChar w.toNat := .inl (Nat.lt_trans w.isLt (by decide))
  have hlt : w.toNat < 2 ^ 32 := Nat.lt_trans w.isLt (by decide)
  rw [Stdio.toChar, BitVec.toNat_setWidth, Nat.mod_eq_of_lt hlt, Nat.mod_eq_of_lt w.isLt,
    Char.ofNat, dif_pos hvalid]
  exact (BitVec.ofNat_toNat 8 w).trans (BitVec.setWidth_eq w)

/-- The text of a reply has a fourth character, which is a zero, and the zero of its end. -/
theorem bytes_reply (cmd ch : BitVec 8) :
    ∃ o, Telnet.reply cmd ch = some o ∧ bytes o = [cmdIAC, cmd, ch, 0, 0] ∧ o.ret = 4 := by
  refine ⟨_, rfl, ?_, rfl⟩
  show [BitVec.ofNat 8 (Stdio.toChar (cmdIAC.setWidth 32)).toNat,
    BitVec.ofNat 8 (Stdio.toChar (cmd.setWidth 32)).toNat,
    BitVec.ofNat 8 (Stdio.toChar (ch.setWidth 32)).toNat, 0, 0] = _
  rw [ofNat_toChar, ofNat_toChar, ofNat_toChar]

/-- The state of the decoder between a command and its option. -/
def awaiting : Cmd → Telnet.State
  | .willOption => .stateWILL
  | .wontOption => .stateWONT
  | .doOption => .stateDO
  | .dontOption => .stateDONT

/-- An option is answered in the output buffer, and nothing is sent. -/
theorem updateState_awaiting {c : Cmd} (hstate : s.telnet.state = awaiting c)
    (h : s.updateState ch = some s') :
    c.answer ch <+: s'.obuf ∧ s'.left = 4 ∧ s'.sent = s.sent := by
  have hreply : ∀ s₁, s.store (Telnet.reply c.refusal ch) = some s₁ →
      c.answer ch <+: s₁.obuf ∧ s₁.left = 4 ∧ s₁.sent = s.sent := by
    intro s₁ hstore
    obtain ⟨o, ho, -, rfl⟩ := store_eq hstore
    obtain ⟨o', ho', hbytes, hret⟩ := bytes_reply c.refusal ch
    cases ho.symm.trans ho'
    refine ⟨?_, ?_, rfl⟩
    · rw [hbytes]
      exact ⟨_, rfl⟩
    · rw [hret]
      rfl
  unfold updateState at h
  rw [hstate] at h
  cases c with
  | willOption =>
      obtain ⟨s₁, hstore, rfl⟩ := Option.map_eq_some_iff.mp h
      exact hreply s₁ hstore
  | wontOption =>
      obtain ⟨s₁, hstore, rfl⟩ := Option.map_eq_some_iff.mp h
      exact hreply s₁ hstore
  | dontOption =>
      obtain ⟨s₁, hstore, rfl⟩ := Option.map_eq_some_iff.mp h
      exact hreply s₁ hstore
  | doOption =>
      obtain ⟨s₁, hstore, rfl⟩ := Option.map_eq_some_iff.mp h
      dsimp only
      split
      · exact hreply s₁ hstore
      · exact hreply s₁ hstore

/-! ## What is sent -/

/-- The stack is handed the buffer from its beginning on, without a gap. -/
theorem sendLoop_begins (obuf : List (BitVec 8)) (writes : List TcpWrite) :
    ∀ {left bytesSent left' : BitVec 16} {message : List (BitVec 8)} {writes' : List TcpWrite},
      bytesSent.toNat + left.toNat < 2 ^ 16 →
        sendLoop obuf writes left bytesSent = some (message, left', writes') →
          message <+: obuf.drop bytesSent.toNat := by
  induction writes with
  | nil => exact fun _ h => absurd h nofun
  | cons write writes ih =>
      intro left bytesSent left' message writes' hlt h
      rw [sendLoop] at h
      dsimp only at h
      have hle : (if left < write.sndbuf then left else write.sndbuf).toNat ≤ left.toNat := by
        split
        case isTrue => exact Nat.le_refl _
        case isFalse hlt => exact BitVec.not_lt.mp hlt
      generalize (if left < write.sndbuf then left else write.sndbuf) = n at h hle
      split at h
      case isFalse =>
        cases h
        exact List.nil_prefix
      case isTrue =>
        split at h
        case isFalse =>
          cases h
          exact List.take_prefix ..
        case isTrue =>
          obtain ⟨⟨rest, left₁, writes₁⟩, hloop, heq⟩ := Option.map_eq_some_iff.mp h
          cases heq
          have hsent : (bytesSent + n).toNat = bytesSent.toNat + n.toNat :=
            BitVec.toNat_add_of_lt (by omega)
          have hleft : (left - n).toNat = left.toNat - n.toNat := BitVec.toNat_sub_of_le hle
          have hrest := ih (by omega) hloop
          rw [hsent, ← List.drop_drop] at hrest
          obtain ⟨tail, htail⟩ := hrest
          refine ⟨tail, ?_⟩
          rw [List.append_assoc, htail, List.take_append_drop]

/-- One message is sent, and it begins as the buffer does. -/
theorem sendData_eq (h : s.sendData = some s') :
    ∃ message, message <+: s.obuf ∧ s'.sent = s.sent ++ [message] ∧ s'.telnet = s.telnet := by
  obtain ⟨⟨message, left, writes⟩, hloop, rfl⟩ := Option.map_eq_some_iff.mp h
  refine ⟨message, ?_, rfl, rfl⟩
  exact sendLoop_begins s.obuf s.writes (by simpa using s.left.isLt) hloop

/-- No message begins with `IAC`. -/
def Mute (s : TelnetServer) : Prop := ∀ message ∈ s.sent, message.head? ≠ some cmdIAC

/-- Nothing is sent, or one message that does not begin with `IAC`. -/
inductive Speaks (s s' : TelnetServer) : Prop
  | nothing (h : s'.sent = s.sent)
  | message (m : List (BitVec 8)) (hm : m.head? ≠ some cmdIAC) (h : s'.sent = s.sent ++ [m])

theorem Speaks.mute (h : Speaks s s') (hs : s.Mute) : s'.Mute := by
  intro m hm
  cases h with
  | nothing h =>
      rw [h] at hm
      exact hs m hm
  | message m' hm' h =>
      rw [h, List.mem_append, List.mem_singleton] at hm
      rcases hm with hm | rfl
      · exact hs m hm
      · exact hm'

/-- Only the messages matter. -/
theorem Speaks.congr {s₁ s₂ : TelnetServer} (h : Speaks s₁ s₂) (hbefore : s₁.sent = s.sent)
    (hafter : s'.sent = s₂.sent) : Speaks s s' := by
  cases h with
  | nothing h => exact .nothing (hafter.trans (h.trans hbefore))
  | message m hm h =>
      rw [hbefore] at h
      exact .message m hm (hafter.trans h)

theorem head?_of_begins {m buf : List (BitVec 8)} (hhead : buf.head? ≠ some cmdIAC)
    (h : m <+: buf) : m.head? ≠ some cmdIAC := by
  obtain ⟨tail, rfl⟩ := h
  cases m with
  | nil => exact nofun
  | cons b m => exact hhead

theorem sendData_speaks (hhead : s.obuf.head? ≠ some cmdIAC) (h : s.sendData = some s') :
    Speaks s s' := by
  obtain ⟨message, hbegins, hsent, -⟩ := sendData_eq h
  exact .message message (head?_of_begins hhead hbegins) hsent

/-- Behind a command line there is nothing left, or its echo. -/
theorem cmdParser_eq (h : s.cmdParser = some s') :
    s'.telnet = s.telnet.cmdParser ∧ s'.sent = s.sent ∧
      (s'.left = 0 ∨ s'.obuf.head? = some cr) := by
  unfold cmdParser at h
  unfold Telnet.cmdParser
  split at h
  case isTrue hquit =>
    cases h
    rw [if_pos hquit]
    exact ⟨rfl, rfl, .inl rfl⟩
  case isFalse hquit =>
    obtain ⟨s₁, hstore, rfl⟩ := Option.map_eq_some_iff.mp h
    obtain ⟨o, ho, -, rfl⟩ := store_eq hstore
    rw [if_neg hquit]
    refine ⟨rfl, rfl, .inr ?_⟩
    have hitems : (Stdio.format Telnet.echoFormat).items =
        .char '\r' :: (Stdio.format Telnet.echoFormat).items.tail := by decide
    have hhead : (bytes o).head? = some cr := head?_bytes hitems ho
    show (bytes o ++ s.obuf.drop (bytes o).length).head? = some cr
    rw [List.head?_append, hhead]
    rfl

theorem flush_eq (hleft : s.left = 0 ∨ s.obuf.head? = some cr) (h : s.flush = some s') :
    s'.telnet = s.telnet ∧ Speaks s s' := by
  unfold flush at h
  split at h
  case isTrue hpos =>
    rcases hleft with hzero | hhead
    · rw [hzero] at hpos
      exact absurd hpos (by decide)
    · obtain ⟨-, -, -, htelnet⟩ := sendData_eq h
      have hiac : s.obuf.head? ≠ some cmdIAC := by
        rw [hhead]
        decide
      exact ⟨htelnet, sendData_speaks hiac h⟩
  case isFalse =>
    cases h
    exact ⟨rfl, .nothing rfl⟩

theorem getChar_eq (h : s.getChar ch = some s') :
    s.telnet.getChar ch = some s'.telnet ∧ Speaks s s' := by
  unfold getChar at h
  split at h
  case isTrue hlf =>
    obtain ⟨s₁, hparser, hflush⟩ := Option.bind_eq_some_iff.mp h
    obtain ⟨htelnet, hsent, hleft⟩ := cmdParser_eq hparser
    obtain ⟨htelnet', hspeaks⟩ := flush_eq hleft hflush
    refine ⟨?_, hspeaks.congr hsent rfl⟩
    rw [htelnet', htelnet, hlf]
    rfl
  case isFalse hlf =>
    obtain ⟨telnet, htelnet, rfl⟩ := Option.map_eq_some_iff.mp h
    exact ⟨htelnet, .nothing rfl⟩

/-- A reply is stored and the decoder is back in its normal state. -/
theorem store_goto {out : Option Stdio.Stored}
    (h : ((s.store out).map fun s => s.goto .stateNORMAL) = some s') :
    s'.telnet = { s.telnet with state := .stateNORMAL } ∧ s'.sent = s.sent := by
  obtain ⟨s₁, hstore, rfl⟩ := Option.map_eq_some_iff.mp h
  obtain ⟨o, -, -, rfl⟩ := store_eq hstore
  exact ⟨rfl, rfl⟩

/-- A byte is decoded as before, and what it sends is no answer. -/
theorem updateState_eq (h : s.updateState ch = some s') :
    s.telnet.updateState ch = some s'.telnet ∧ Speaks s s' := by
  have hstored : ∀ {out : Option Stdio.Stored},
      ((s.store out).map fun s => s.goto .stateNORMAL) = some s' →
        some { s.telnet with state := .stateNORMAL } = some s'.telnet ∧ Speaks s s' := by
    intro out h
    obtain ⟨htelnet, hsent⟩ := store_goto h
    exact ⟨congrArg some htelnet.symm, .nothing hsent⟩
  unfold updateState at h
  unfold Telnet.updateState
  cases hstate : s.telnet.state with
  | stateNORMAL =>
      rw [hstate] at h
      dsimp only at h ⊢
      split at h
      case isTrue hiac =>
        cases h
        rw [if_pos hiac]
        exact ⟨rfl, .nothing rfl⟩
      case isFalse hiac =>
        rw [if_neg hiac]
        exact getChar_eq h
  | stateIAC =>
      rw [hstate] at h
      dsimp only at h ⊢
      split at h
      case isTrue hiac =>
        rw [if_pos hiac]
        obtain ⟨s₁, hget, rfl⟩ := Option.map_eq_some_iff.mp h
        obtain ⟨htelnet, hspeaks⟩ := getChar_eq hget
        rw [htelnet]
        exact ⟨rfl, hspeaks.congr rfl rfl⟩
      case isFalse hiac =>
        rw [if_neg hiac]
        split_ifs at h ⊢ <;> cases h <;> exact ⟨rfl, .nothing rfl⟩
  | stateWILL =>
      rw [hstate] at h
      exact hstored h
  | stateWONT =>
      rw [hstate] at h
      exact hstored h
  | stateDONT =>
      rw [hstate] at h
      exact hstored h
  | stateDO =>
      rw [hstate] at h
      dsimp only at h ⊢
      obtain ⟨s₁, hstore, rfl⟩ := Option.map_eq_some_iff.mp h
      obtain ⟨o, -, -, rfl⟩ := store_eq hstore
      split
      case isTrue => exact ⟨rfl, .nothing rfl⟩
      case isFalse => exact ⟨rfl, .nothing rfl⟩

/-! ## Streams -/

theorem feed_cons (s : TelnetServer) (ch : BitVec 8) (buf : List (BitVec 8)) :
    s.feed (ch :: buf) = (s.updateState ch).bind fun s => s.feed buf := List.foldlM_cons

/-- A stream is decoded as before, and what it sends are no answers. -/
theorem feed_eq (buf : List (BitVec 8)) : ∀ s s' : TelnetServer, s.feed buf = some s' →
    s.telnet.feed buf = some s'.telnet ∧ (s.Mute → s'.Mute) := by
  induction buf with
  | nil =>
      intro s s' h
      cases h
      exact ⟨rfl, id⟩
  | cons ch buf ih =>
      intro s s' h
      rw [feed_cons] at h
      obtain ⟨s₁, hupdate, hfeed⟩ := Option.bind_eq_some_iff.mp h
      obtain ⟨htelnet, hspeaks⟩ := updateState_eq hupdate
      obtain ⟨htelnet', hmute⟩ := ih s₁ s' hfeed
      rw [Telnet.feed_cons, htelnet]
      exact ⟨htelnet', fun hs => hmute (hspeaks.mute hs)⟩

theorem accept_eq (h : accept writes = some s) : s.telnet = Telnet.accepted ∧ s.Mute := by
  obtain ⟨s₁, hstore, hsend⟩ := Option.bind_eq_some_iff.mp h
  obtain ⟨o, ho, -, rfl⟩ := store_eq hstore
  have hitems : (Stdio.format Telnet.greetingFormat).items =
      .char '\n' :: (Stdio.format Telnet.greetingFormat).items.tail := by decide
  have hhead : (bytes o).head? = some (BitVec.ofNat 8 '\n'.toNat) := head?_bytes hitems ho
  have hiac : (bytes o ++ [0].drop (bytes o).length).head? ≠ some cmdIAC := by
    rw [List.head?_append, hhead]
    show some (BitVec.ofNat 8 '\n'.toNat) ≠ some cmdIAC
    decide
  obtain ⟨-, -, -, htelnet⟩ := sendData_eq hsend
  exact ⟨htelnet, (sendData_speaks hiac hsend).mute nofun⟩

/-- The server decodes as the decoder does, and all it sends are the greeting and echoes. -/
theorem run_eq {stream : List (BitVec 8)} (h : run writes stream = some s) :
    Telnet.accepted.feed stream = some s.telnet ∧ s.Mute := by
  obtain ⟨s₁, haccept, hfeed⟩ := Option.bind_eq_some_iff.mp h
  obtain ⟨htelnet, hmute⟩ := accept_eq haccept
  obtain ⟨hdecoded, hmute'⟩ := feed_eq stream s₁ s hfeed
  exact ⟨htelnet ▸ hdecoded, hmute' hmute⟩

theorem Mute.answered_iff (h : s.Mute) (commands : List (Cmd × BitVec 8)) :
    Answered commands s.sent ↔ commands = [] := by
  have hfilter : (s.sent.filter fun message => message.head? = some cmdIAC) = [] := by
    rw [List.filter_eq_nil_iff]
    intro message hmessage
    rw [decide_eq_true_eq]
    exact h message hmessage
  unfold Answered
  rw [hfilter]
  exact List.forall₂_nil_right_iff

/-- Whatever the stack does, and at whatever point of a stream: the options received so far have
been answered exactly when there are none. -/
theorem refused_iff {stream : List (BitVec 8)} (h : run writes stream = some s) :
    Answered (options stream) s.sent ↔ options stream = [] :=
  (run_eq h).2.answered_iff (options stream)

/-- A command line without an option. -/
theorem refused_iff_line :
    ∃ s, run [⟨9000, true⟩, ⟨8966, true⟩] [0x61, 10] = some s ∧
      (Answered (options [0x61, 10]) s.sent ↔ options [0x61, 10] = []) := by
  have hrun : (run [⟨9000, true⟩, ⟨8966, true⟩] [0x61, 10]).isSome = true := by decide +kernel
  obtain ⟨s, hs⟩ := Option.isSome_iff_exists.mp hrun
  exact ⟨s, hs, refused_iff hs⟩

/-- A `WILL`, a `DO` and a command line: all that is sent are the greeting and the echo of the
line. -/
theorem refused_fails :
    ∃ s, run [⟨9000, true⟩, ⟨8966, true⟩] [255, 251, 1, 255, 253, 3, 0x61, 10] = some s ∧
      ¬ Answered (options [255, 251, 1, 255, 253, 3, 0x61, 10]) s.sent := by
  have hrun : (run [⟨9000, true⟩, ⟨8966, true⟩]
      [255, 251, 1, 255, 253, 3, 0x61, 10]).isSome = true := by decide +kernel
  obtain ⟨s, hs⟩ := Option.isSome_iff_exists.mp hrun
  refine ⟨s, hs, fun hanswered => ?_⟩
  have hnone := ((run_eq hs).2.answered_iff _).mp hanswered
  exact absurd hnone (by decide)

end TelnetServer

end KS10
