import KS10.Clocked.Run
import KS10.Dup.Receiver

/-!
# The status of a byte count message

In DEC mode the receiver synchronizes to a pair of SYN characters and then reports every
character.  The overrun bit of a character is to say whether the character before it had been
read, the receiver is to be active for the whole message, and the CRC register is to cover
the characters since the synchronization (`DecMessage.Law`).

The state machine reports overruns in three of its four receiving states.  In the one for the
later characters of a message it loads the active bit instead, so a message whose characters
are read in time loses RXACT at its second character, and an overrun is not reported
(`DecMessage.ddcmp_fails`).  The CRC register is initialized at flags only: it starts with what
was on the line before the message, a message that contains the bits of a flag clears it, and
it listens to the external line.  `DecMessage.ddcmp_run` has the conditions under which none
of this matters.
-/

namespace KS10

open Clocked

/-- What there is to know of the current message: whether its last character came before the
one ahead of it was read, and its bits since the first one after the synchronization. -/
structure DecMessage where
  ovr : Bool
  bits : Option (List Bool)

namespace DecMessage

open DupRx (In)

/-- The receiver is synchronized. -/
def inMessage (x : DupRx) : Bool := x.fsm.state == .decSync || x.fsm.state == .decRecv

def enabled (i : In) : Bool := !i.rst && !i.init && i.rxEn

/-- The last sixteen bits are a pair of SYN characters. -/
def syncs (x : DupRx) (i : In) : Bool := x.usrt.decsyn (DupRx.usrtIn i)

/-- The state machine takes a character of the message. -/
def arrives (x : DupRx) (i : In) : Bool :=
  inMessage x && enabled i && i.txCen && !syncs x i && x.usrt.full

/-- A bit of the message comes in. -/
def takesBit (x : DupRx) (i : In) : Bool := inMessage x && enabled i && i.decmd && i.rxCen

def nextBits (m : DecMessage) (x : DupRx) (i : In) : Option (List Bool) :=
  if !inMessage x || !enabled i || !i.decmd then none
  else if i.rxCen && syncs x i then some [DupRx.rxIn i]
  else if i.txCen && syncs x i then none
  else if i.rxCen then m.bits.map (· ++ [DupRx.rxIn i])
  else m.bits

def move (m : DecMessage) (x : DupRx) (i : In) : DecMessage where
  ovr := if arrives x i then x.fsm.rxDone else m.ovr
  bits := m.nextBits x i

def empty : DecMessage := ⟨false, none⟩

/-- The overrun bit and the active bit are right from the first character on, and the CRC
register covers the bits of the message. -/
structure Law (x : DupRx) (m : DecMessage) : Prop where
  ovr : x.fsm.state = .decRecv → x.fsm.rxOvr = m.ovr
  act : x.fsm.state = .decRecv → x.fsm.rxAct = true
  crc : ∀ bits, m.bits = some bits → x.crcReg = Crc16.feed true (Crc16.start true) bits

/-- A later character of a message finds the last one unread and marked with an overrun. -/
def Late (x : DupRx) (i : In) : Prop :=
  x.fsm.state = .decRecv → arrives x i = true → x.fsm.rxDone = true ∧ x.fsm.rxOvr = true

/-- The conditions on one clock. -/
structure Meets (m : DecMessage) (x : DupRx) (i : In) : Prop where
  late : Late x i
  line : takesBit x i = true → i.rxd = DupRx.rxIn i
  start : takesBit x i = true → syncs x i = true →
    x.crcReg = Crc16.start true ∧ x.fsm.crcInit = false
  /-- No flag has been seen in the message. -/
  noFlag : m.bits ≠ none → x.fsm.crcInit = false

variable {x : DupRx} {m : DecMessage} {i : In}

/-! ## The state machine -/

theorem enabled_iff : enabled i = true ↔ i.rst = false ∧ i.init = false ∧ i.rxEn = true := by
  unfold enabled
  rw [Bool.and_eq_true, Bool.and_eq_true, Bool.not_eq_true', Bool.not_eq_true', and_assoc]

theorem next_of_enabled (h : enabled i = true) :
    (x.next i).fsm = x.fsm.step x.lastRxdbufRd x.crcErr (x.word i) i := by
  obtain ⟨hrst, hinit, hen⟩ := enabled_iff.mp h
  change x.fsm.next _ _ _ i = _
  unfold DupRx.Fsm.next
  rw [hrst, hinit, hen]
  rfl

theorem next_of_not_enabled (h : enabled i = false) : (x.next i).fsm = DupRx.Fsm.reset := by
  change x.fsm.next _ _ _ i = _
  unfold enabled at h
  unfold DupRx.Fsm.next
  cases hrst : i.rst with
  | true => rfl
  | false =>
      rw [hrst, Bool.not_false, Bool.true_and] at h
      cases hinit : i.init with
      | true => rfl
      | false =>
          rw [hinit, Bool.not_false, Bool.true_and] at h
          rw [h]
          rfl

/-- The state for the later characters is left alone, or it takes a character. -/
theorem step_decRecv (hstate : x.fsm.state = .decRecv) (hen : enabled i = true)
    (hsync : (i.txCen && syncs x i) = false) :
    (x.next i).fsm.state = .decRecv ∧ (x.next i).fsm.rxOvr = x.fsm.rxOvr ∧
      (x.next i).fsm.rxAct = if arrives x i then x.fsm.rxDone else x.fsm.rxAct := by
  rw [next_of_enabled hen]
  unfold DupRx.Fsm.step arrives inMessage
  rw [hstate, hen]
  cases htx : i.txCen with
  | false => exact ⟨hstate, rfl, rfl⟩
  | true =>
      rw [htx, Bool.true_and] at hsync
      have hdecsyn : (x.word i).decsyn = false := hsync
      have hfull : (x.word i).full = x.usrt.full := rfl
      dsimp only
      rw [hdecsyn, hsync, hfull]
      cases x.usrt.full with
      | false => exact ⟨hstate, rfl, rfl⟩
      | true => exact ⟨hstate, rfl, rfl⟩

/-- The first character of a message is reported as it should be. -/
theorem step_decSync (hstate : x.fsm.state = .decSync)
    (hnext : (x.next i).fsm.state = .decRecv) :
    arrives x i = true ∧ (x.next i).fsm.rxOvr = x.fsm.rxDone ∧ (x.next i).fsm.rxAct = true := by
  cases hen : enabled i with
  | false =>
      rw [next_of_not_enabled hen] at hnext
      cases hnext
  | true =>
      rw [next_of_enabled hen] at hnext ⊢
      unfold DupRx.Fsm.step at hnext ⊢
      unfold arrives inMessage
      rw [hstate] at hnext ⊢
      have hdecsyn : (x.word i).decsyn = syncs x i := rfl
      have hfull : (x.word i).full = x.usrt.full := rfl
      dsimp only at hnext ⊢
      rw [hdecsyn, hfull] at hnext ⊢
      cases htx : i.txCen with
      | false =>
          rw [htx, if_neg Bool.false_ne_true] at hnext
          exact absurd (hstate.symm.trans hnext) (by decide)
      | true =>
          rw [htx, if_pos rfl] at hnext
          cases hsync : syncs x i with
          | true =>
              rw [hsync, if_pos rfl] at hnext
              cases hnext
          | false =>
              rw [hsync, if_neg Bool.false_ne_true] at hnext
              cases hword : x.usrt.full with
              | false =>
                  rw [hword, if_neg Bool.false_ne_true] at hnext
                  exact absurd (hstate.symm.trans hnext) (by decide)
              | true =>
                  rw [hen]
                  exact ⟨rfl, rfl, rfl⟩

/-- The state for the later characters is reached from the two states of a message. -/
theorem of_decRecv (hnext : (x.next i).fsm.state = .decRecv) :
    x.fsm.state = .decSync ∨
      x.fsm.state = .decRecv ∧ enabled i = true ∧ (i.txCen && syncs x i) = false := by
  cases hen : enabled i with
  | false =>
      rw [next_of_not_enabled hen] at hnext
      cases hnext
  | true =>
      rw [next_of_enabled hen] at hnext
      cases hstate : x.fsm.state with
      | decSync => exact .inl rfl
      | decRecv =>
          refine .inr ⟨rfl, rfl, ?_⟩
          unfold DupRx.Fsm.step at hnext
          rw [hstate] at hnext
          have hdecsyn : (x.word i).decsyn = syncs x i := rfl
          dsimp only at hnext
          rw [hdecsyn] at hnext
          cases htx : i.txCen with
          | false => rfl
          | true =>
              cases hsync : syncs x i with
              | false => rfl
              | true =>
                  rw [htx, hsync] at hnext
                  cases hnext
      | sdlcAbrt =>
          unfold DupRx.Fsm.step at hnext
          rw [hstate] at hnext
          cases hnext
      | idle | sdlcSsm | sdlcSync | sdlcRecv | sdlcClrSom =>
          unfold DupRx.Fsm.step at hnext
          rw [hstate] at hnext
          dsimp only at hnext
          split_ifs at hnext
          all_goals first | cases hnext | exact absurd (hstate.symm.trans hnext) (by decide)

/-! ## The CRC register -/

/-- The register takes the bits of the external line, if nothing initializes it. -/
theorem crcReg_next (hrst : i.rst = false) (hmode : i.decmd = true)
    (hinit : x.fsm.crcInit = false) : (x.next i).crcReg =
      if i.rxCen then Crc16.shift true x.crcReg i.rxd else x.crcReg := by
  have hcrcen : x.usrt.crcen (DupRx.usrtIn i) = true := by
    unfold UsrtRx.crcen UsrtRx.zbd DupRx.usrtIn
    rw [hmode]
    rfl
  change Crc16.next x.crcReg (x.crcIn i) = _
  unfold Crc16.next DupRx.crcIn
  rw [hrst, hinit, hmode, hcrcen, Bool.and_true]
  rfl

theorem feed_concat (crc : BitVec 16) (bits : List Bool) (b : Bool) :
    Crc16.feed true crc (bits ++ [b]) = Crc16.shift true (Crc16.feed true crc bits) b := by
  rw [Crc16.feed_append]
  rfl

theorem takesBit_eq (h : inMessage x = true) (hen : enabled i = true) (hmode : i.decmd = true) :
    takesBit x i = i.rxCen := by
  unfold takesBit
  rw [h, hen, hmode]
  rfl

/-- The bits of the message go into the register. -/
theorem Law.crc_next (h : Law x m) (hmeets : Meets m x i) {bits : List Bool}
    (hbits : m.nextBits x i = some bits) :
    (x.next i).crcReg = Crc16.feed true (Crc16.start true) bits := by
  unfold nextBits at hbits
  split at hbits
  · cases hbits
  · rename_i hon
    rw [Bool.not_eq_true, Bool.or_eq_false_iff, Bool.or_eq_false_iff, Bool.not_eq_false',
      Bool.not_eq_false', Bool.not_eq_false'] at hon
    obtain ⟨⟨hin, hen⟩, hmode⟩ := hon
    have hrst := (enabled_iff.mp hen).1
    have htakes := takesBit_eq hin hen hmode
    cases hrx : i.rxCen with
    | true =>
        rw [hrx] at hbits htakes
        rw [Bool.true_and, if_pos rfl] at hbits
        have hline := hmeets.line htakes
        cases hsync : syncs x i with
        | true =>
            -- The first bit after the synchronization.
            rw [hsync, if_pos rfl] at hbits
            obtain ⟨hstart, hinit⟩ := hmeets.start htakes hsync
            obtain rfl := Option.some.inj hbits
            rw [crcReg_next hrst hmode hinit, hrx, if_pos rfl, hstart, hline]
            rfl
        | false =>
            rw [hsync, Bool.and_false, if_neg Bool.false_ne_true, if_neg Bool.false_ne_true]
              at hbits
            obtain ⟨old, hold, rfl⟩ := Option.map_eq_some_iff.mp hbits
            have hinit := hmeets.noFlag (by rw [hold]; exact Option.some_ne_none old)
            rw [crcReg_next hrst hmode hinit, hrx, if_pos rfl, h.crc old hold, hline,
              feed_concat]
    | false =>
        rw [hrx, Bool.false_and, if_neg Bool.false_ne_true, if_neg Bool.false_ne_true] at hbits
        split at hbits
        · cases hbits
        · have hinit := hmeets.noFlag (by rw [hbits]; exact Option.some_ne_none bits)
          rw [crcReg_next hrst hmode hinit, hrx, if_neg Bool.false_ne_true]
          exact h.crc bits hbits

/-! ## One clock -/

theorem move_ovr (h : arrives x i = true) : (move m x i).ovr = x.fsm.rxDone := if_pos h

theorem Law.next (h : Law x m) (hmeets : Meets m x i) : Law (x.next i) (move m x i) := by
  have hboth : (x.next i).fsm.state = .decRecv →
      (x.next i).fsm.rxOvr = (move m x i).ovr ∧ (x.next i).fsm.rxAct = true := by
    intro hnext
    rcases of_decRecv hnext with hstate | ⟨hstate, hen, hsync⟩
    · obtain ⟨harr, hovr, hact⟩ := step_decSync hstate hnext
      rw [move_ovr harr]
      exact ⟨hovr, hact⟩
    · obtain ⟨-, hovr, hact⟩ := step_decRecv hstate hen hsync
      rw [hovr, hact]
      cases harr : arrives x i with
      | true =>
          obtain ⟨hdone, hmark⟩ := hmeets.late hstate harr
          rw [move_ovr harr, hdone, hmark]
          exact ⟨rfl, rfl⟩
      | false =>
          have hkeep : (move m x i).ovr = m.ovr := if_neg (by rw [harr]; exact Bool.false_ne_true)
          rw [hkeep]
          exact ⟨h.ovr hstate, h.act hstate⟩
  exact ⟨fun hnext => (hboth hnext).1, fun hnext => (hboth hnext).2,
    fun bits hbits => h.crc_next hmeets hbits⟩

/-- A later character that is not late breaks the law. -/
theorem not_law_of_not_late (hlate : ¬ Late x i) : ¬ Law (x.next i) (move m x i) := by
  intro hlaw
  apply hlate
  intro hstate harr
  have hparts := harr
  unfold arrives at hparts
  rw [Bool.and_eq_true, Bool.and_eq_true, Bool.and_eq_true, Bool.and_eq_true,
    Bool.not_eq_true'] at hparts
  obtain ⟨⟨⟨⟨-, hen⟩, htx⟩, hsync⟩, -⟩ := hparts
  obtain ⟨hnext, hovr, hact⟩ := step_decRecv hstate hen (by rw [hsync, Bool.and_false])
  have hdone : x.fsm.rxDone = true := by
    have hactive := hlaw.act hnext
    rwa [hact, harr, if_pos rfl] at hactive
  have hmark := hlaw.ovr hnext
  rw [hovr, move_ovr harr, hdone] at hmark
  exact ⟨hdone, hmark⟩

/-! ## Runs -/

/-- The message along the run. -/
def message (x₀ : DupRx) (i : Nat → In) : Nat → DecMessage :=
  shadow DupRx.next move x₀ empty i

/-- The receiver is idle. -/
def Idle (x : DupRx) : Prop := x.fsm.state = .idle

theorem law_run {x₀ : DupRx} (h₀ : Idle x₀) (i : Nat → In) {t : Nat}
    (h : ∀ u, u < t → Meets (message x₀ i u) (run DupRx.next x₀ i u) (i u)) :
    Law (run DupRx.next x₀ i t) (message x₀ i t) := by
  induction t with
  | zero =>
      refine ⟨fun hstate => ?_, fun hstate => ?_, fun bits hbits => nomatch hbits⟩
      · exact absurd (h₀.symm.trans hstate) (by decide)
      · exact absurd (h₀.symm.trans hstate) (by decide)
  | succ t ih =>
      exact (ih fun u hu => h u (Nat.lt_succ_of_lt hu)).next (h t (Nat.lt_succ_self t))

/-- As long as the later characters of each message find an unread character that is marked
with an overrun, and the CRC register begins each message with its initial value, is not
initialized in it and hears the line of the receiver, the status of the receiver is right.
The first later character that finds the buffer read, or the bit clear, breaks it. -/
theorem ddcmp_run {x₀ : DupRx} (h₀ : Idle x₀) (i : Nat → In) (t : Nat)
    (h : ∀ u, u < t → Meets (message x₀ i u) (run DupRx.next x₀ i u) (i u)) :
    Law (run DupRx.next x₀ i t) (message x₀ i t) ∧
      (¬ Late (run DupRx.next x₀ i t) (i t) →
        ¬ Law (run DupRx.next x₀ i (t + 1)) (message x₀ i (t + 1))) :=
  ⟨law_run h₀ i h, not_law_of_not_late⟩

/-! ## Two messages -/

/-- The receiver after a reset. -/
def reset : DupRx where
  fsm := DupRx.Fsm.reset
  lastRxdbufRd := false
  rxDat := 0
  crcErr := false
  usrt := UsrtRx.reset
  crcReg := 0

theorem idle_reset : Idle reset := rfl

/-- The characters of `word` come with the lowest bit first, one bit in four clocks.  The
processor reads the buffer at clocks 100 and 101. -/
def line (syn : BitVec 8) (word : BitVec 32) (t : Nat) : In where
  rst := false
  init := false
  msel := .user
  rxEn := true
  mdi := false
  rxCen := t % 4 == 0
  txCen := t % 4 == 2
  txd := true
  rxd := word.getLsbD (t / 4)
  devLobyte := true
  rxdbufRead := t == 100 || t == 101
  decmd := true
  ssm := false
  crci := false
  synadr := syn

/-- With the flag for a SYN character the CRC register is initialized at the synchronization.
The message has one character. -/
theorem ddcmp_run_flag :
    (run DupRx.next reset (line 0x7e 0x417e7e) 95).fsm.state = .decRecv ∧
      Law (run DupRx.next reset (line 0x7e 0x417e7e) 95) (message reset (line 0x7e 0x417e7e) 95) :=
  have hmeets : ∀ u, u < 95 →
      Meets (message reset (line 0x7e 0x417e7e) u) (run DupRx.next reset (line 0x7e 0x417e7e) u)
        (line 0x7e 0x417e7e u) := by
    intro u hu
    have hlate : ∀ u, u < 95 →
        (run DupRx.next reset (line 0x7e 0x417e7e) u).fsm.state = .decRecv →
        arrives (run DupRx.next reset (line 0x7e 0x417e7e) u) (line 0x7e 0x417e7e u) = false := by
      decide +kernel
    have hstart : ∀ u, u < 95 →
        takesBit (run DupRx.next reset (line 0x7e 0x417e7e) u) (line 0x7e 0x417e7e u) = true →
        syncs (run DupRx.next reset (line 0x7e 0x417e7e) u) (line 0x7e 0x417e7e u) = true →
        (run DupRx.next reset (line 0x7e 0x417e7e) u).crcReg = Crc16.start true ∧
          (run DupRx.next reset (line 0x7e 0x417e7e) u).fsm.crcInit = false := by
      decide +kernel
    have hnoFlag : ∀ u, u < 95 → (message reset (line 0x7e 0x417e7e) u).bits ≠ none →
        (run DupRx.next reset (line 0x7e 0x417e7e) u).fsm.crcInit = false := by
      decide +kernel
    refine ⟨fun hstate harr => ?_, fun _ => rfl, hstart u hu, hnoFlag u hu⟩
    rw [hlate u hu hstate] at harr
    cases harr
  ⟨by decide +kernel, (ddcmp_run idle_reset (line 0x7e 0x417e7e) 95 hmeets).1⟩

/-- The first character is read before the second one comes, and the receiver is no longer
active. -/
theorem ddcmp_fails : ¬ ∀ (x₀ : DupRx) (i : Nat → In) (t : Nat), Idle x₀ →
    Law (run DupRx.next x₀ i t) (message x₀ i t) := by
  intro h
  have hstate : (run DupRx.next reset (line 0x96 0x42419696) 127).fsm.state = .decRecv := by
    decide +kernel
  have hact : (run DupRx.next reset (line 0x96 0x42419696) 127).fsm.rxAct = false := by
    decide +kernel
  have hlaw := (h reset (line 0x96 0x42419696) 127 idle_reset).act hstate
  rw [hact] at hlaw
  cases hlaw

end DecMessage

end KS10
