import KS10.Uart.Heard

/-!
# A UART on its own line

The serial input of UART_RX is the serial output of UART_TX, and the two have one clock enable.
Every character that the transmitter accepts goes on the list of the sent ones, with the bit of
its frame that the line will invert, and what the receiver holds at its interrupt goes on the
list of the received ones.

The line goes through the receiver's two flip-flops (`lineAt`), so the receiver is one to three
enables behind, and it may still be at the last stop bit when the next frame begins.  How far
the two can be apart is the matter of `Tied`.  It depends on the spacing of the enables, which
is either never two clocks in a row or never less than every other clock.
-/

namespace KS10

open Uart (Sym)

structure UartLink where
  tx : UartTx
  rx : UartRx
  /-- The bit of the frame that the line inverts. -/
  hit : Option Sym
  sent : List UartSent
  received : List UartRx.Taken
  deriving DecidableEq

namespace UartLink

/-- The inputs of the link at one clock: the clock enable of both sides, the character that is
offered with the bit that the line will invert, and the receiver's flag reset. -/
structure In where
  clken : Bool
  load : Bool
  data : BitVec 8
  hit : Option Sym
  rfull : Bool

/-! ## One clock -/

def txIn (i : In) : UartTx.In where
  rst := false
  clr := false
  clken := i.clken
  load := i.load
  data := i.data

/-- The line, with the inverted bit. -/
def line (c : UartCfg) (s : UartLink) : Bool :=
  match s.tx.state with
  | .send b => s.tx.txd c ^^ decide (s.hit = some b)
  | _ => s.tx.txd c

def rxIn (c : UartCfg) (s : UartLink) (i : In) : UartRx.In where
  rst := false
  clr := false
  clken := i.clken
  rxd := s.line c
  rfull := i.rfull

/-- The transmitter accepts the character. -/
def accepts (s : UartLink) (i : In) : Bool := s.tx.state == .idle && i.load

/-- One clock of the link. -/
def next (c : UartCfg) (s : UartLink) (i : In) : UartLink where
  tx := s.tx.next c (txIn i)
  rx := s.rx.next c (s.rxIn c i)
  hit := if s.accepts i then i.hit else s.hit
  sent := if s.accepts i then s.sent ++ [⟨i.data, i.hit⟩] else s.sent
  received := if s.rx.intr then s.received ++ [s.rx.taken] else s.received

/-- Both sides are idle, as they are after a reset. -/
structure Start (s : UartLink) : Prop where
  tx : s.tx.state = .idle
  rx : s.rx.state = .idle
  temp : s.rx.temp = true
  din : s.rx.din = true
  sent : s.sent = []
  received : s.received = []

/-- What was received so far is right for the characters that were sent, in their order. -/
def Faithful (c : UartCfg) (s : UartLink) : Prop :=
  List.Forall₂ (UartSent.Right c) (s.sent.take s.received.length) s.received

/-! ## Where the two sides are -/

/-- The spacing of two clocks that follow each other. -/
def Spaced (apart : Bool) (en1 en : Bool) : Prop :=
  if apart then en1 = true → en = false else en1 = false → en = true

/-- Where the transmitter is; `sends t` is after `t` enables of the frame. -/
inductive TxPhase where
  | idle
  | sync
  | sends (t : Nat)
  | done

/-- Where the receiver is: `hears t` is after `t` enables of the frame that the transmitter is
sending, and `ends n` is `n` enables before the end of a frame that the transmitter has left. -/
inductive RxPhase where
  | idle
  | hears (t : Nat)
  | ends (n : Nat)
  | done

def TxPhase.next (c : UartCfg) (en load : Bool) : TxPhase → TxPhase
  | .idle => if load then .sync else .idle
  | .sync => if en then .sends 0 else .sync
  | .sends t => if en then if t + 1 < 16 * c.plan.length then .sends (t + 1) else .done else .sends t
  | .done => .idle

/-- The line some enables ago. -/
def lineAt (c : UartCfg) (p : UartSent) (t back : Nat) : Bool :=
  if t < back then true else p.lineBit c (c.symAt ((t - back) / 16))

/-- The transmitter is there with the character, and the line has gone into the two flip-flops.
The last two clocks had the enables `en1` and `en2`. -/
def TxShows (c : UartCfg) (en1 en2 : Bool) (p : UartSent) (s : UartLink) : TxPhase → Prop
  | .idle => s.tx.state = .idle ∧ s.rx.temp = true ∧ s.rx.din = true
  | .sync =>
      s.tx.state = .sync ∧ (s.tx.txReg = p.data ∧ s.hit = p.hit) ∧ s.rx.temp = true ∧
        s.rx.din = true
  | .sends t =>
      UartTx.At c s.tx t ∧ (s.tx.txReg = p.data ∧ s.hit = p.hit) ∧
        s.rx.temp = lineAt c p t en1.toNat ∧ s.rx.din = lineAt c p t (en1.toNat + en2.toNat)
  | .done => s.tx.state = .done ∧ s.rx.temp = true ∧ s.rx.din = true

/-- The receiver is there with the character. -/
def RxShows (c : UartCfg) (q : UartSent) (s : UartRx) : RxPhase → Prop
  | .idle => s.state = .idle
  | .hears t =>
      UartRx.At c s t ∧ (1 ≤ UartRx.place t → s.taken = q.taken c (UartRx.place t))
  | .ends n => UartRx.At c s (16 * c.plan.length - n) ∧ s.taken = q.heard c
  | .done => s.state = .done ∧ s.taken = q.heard c

/-- The most that the receiver is behind. -/
def most (apart : Bool) : Nat := if apart then 2 else 3

/-- Where the two sides can be together. -/
def Tied (apart en1 en2 : Bool) : TxPhase → RxPhase → Prop
  | .idle, .idle => True
  | .sync, .idle => True
  | .sends t, .idle => t < most apart
  | .sends t, .hears u =>
      u < t ∧ t ≤ u + most apart ∧ en1.toNat + en2.toNat ≤ t
  | .done, .ends n => 1 ≤ n ∧ n ≤ most apart
  | .idle, .ends n =>
      1 ≤ n ∧ n ≤ most apart ∧ (apart = true ∨ en1 = false ∨ n ≤ 2)
  | .sync, .ends n => 1 ≤ n ∧ n ≤ 2
  | .sends t, .ends n => t = 0 ∧ n = 1
  | .idle, .done => en1 = true
  | .sync, .done => en1 = true
  | .sends t, .done => en1 = true ∧ t ≤ 1
  | _, _ => False

/-- The characters that the transmitter and the receiver are at. -/
def txHas (p : UartSent) : TxPhase → List UartSent
  | .sync => [p]
  | .sends _ => [p]
  | _ => []

def rxHas (q : UartSent) : RxPhase → List UartSent
  | .ends _ => [q]
  | .done => [q]
  | _ => []

/-- The two sides, with the characters `p` and `q` that they are at. -/
structure Pair (c : UartCfg) (apart en1 en2 : Bool) (p q : UartSent) (x : TxPhase) (y : RxPhase)
    (s : UartLink) : Prop where
  tx : TxShows c en1 en2 p s x
  rx : RxShows c q s.rx y
  tied : Tied apart en1 en2 x y
  same : ∀ t, y = .hears t → q = p
  legal : ∀ r ∈ txHas p x, r.Legal c
  lists : ∃ past, s.sent = past ++ (rxHas q y ++ txHas p x) ∧
    s.received = past.map (UartSent.heard c)

/-- The two sides are somewhere together. -/
def Inv (c : UartCfg) (apart en1 en2 : Bool) (s : UartLink) : Prop :=
  ∃ p q x y, Pair c apart en1 en2 p q x y s

/-- The enables up to the next received character, at most. -/
def togo (c : UartCfg) : TxPhase → RxPhase → Nat
  | _, .done => 0
  | _, .ends n => n
  | _, .hears u => 16 * c.plan.length - u
  | .sends t, .idle => 16 * c.plan.length + 4 - t
  | .sync, .idle => 16 * c.plan.length + 5
  | _, .idle => 16 * c.plan.length + 6

/-- A character is under way. -/
def Busy (c : UartCfg) (x : TxPhase) (y : RxPhase) : Prop :=
  togo c x y ≤ 16 * c.plan.length + 5

/-- The next received character comes nearer. -/
structure Nearer (c : UartCfg) (en : Bool) (x : TxPhase) (y : RxPhase) (x' : TxPhase)
    (y' : RxPhase) : Prop where
  le : togo c x' y' ≤ togo c x y
  lt : en = true → Busy c x y → togo c x' y' < togo c x y

/-- After one clock the two sides are somewhere together, and the next received character is
nearer or has come. -/
def Goes (c : UartCfg) (apart en1 : Bool) (x : TxPhase) (y : RxPhase) (s : UartLink) (i : In) :
    Prop :=
  ∃ p' q' x' y', Pair c apart i.clken en1 p' q' x' y' (s.next c i) ∧
    (y = .done ∨ Nearer c i.clken x y x' y')

/-! ## The transmitter and the line -/

variable {c : UartCfg} {apart en1 en2 : Bool} {p q : UartSent} {s : UartLink} {i : In}
  {x : TxPhase} {y : RxPhase} {t u n : Nat}

theorem last_stop_of : ∀ (length parity : BitVec 2) (stop : Bool),
    (UartCfg.mk length parity stop).symAt ((UartCfg.mk length parity stop).plan.length - 1) =
      if stop then .stop2 else .stop1 := by
  decide +kernel

/-- The line is high in the last bit of the frame. -/
theorem lineBit_last (h : p.Legal c) : p.lineBit c (c.symAt (c.plan.length - 1)) = true := by
  have hlast : c.symAt (c.plan.length - 1) = if c.stop then .stop2 else .stop1 :=
    last_stop_of c.length c.parity c.stop
  rw [hlast]
  cases c.stop with
  | false => exact UartSent.lineBit_frame h (by decide) (by decide)
  | true => exact UartSent.lineBit_frame h (by decide) (by decide)

/-- The line is low in the start bit. -/
theorem lineBit_first (h : p.Legal c) : p.lineBit c (c.symAt 0) = false :=
  UartSent.lineBit_frame (b := .start) h (by decide) (by decide)

theorem line_of_sends (hat : UartTx.At c s.tx t) (hdata : s.tx.txReg = p.data)
    (hhit : s.hit = p.hit) : s.line c = p.lineBit c (c.symAt (t / 16)) := by
  unfold line
  rw [hat.txd, hat.state, hdata, hhit]
  rfl

theorem line_of_not_sends (h : ∀ b, s.tx.state ≠ .send b) : s.line c = true := by
  unfold line UartTx.txd
  cases hstate : s.tx.state with
  | send b => exact absurd hstate (h b)
  | idle => rfl
  | sync => rfl
  | done => rfl

theorem lineAt_succ {back : Nat} : lineAt c p (t + 1) (1 + back) = lineAt c p t back := by
  unfold lineAt
  rw [Nat.add_comm t 1, Nat.add_sub_add_left]
  by_cases hlt : t < back
  · rw [if_pos hlt, if_pos (by omega)]
  · rw [if_neg hlt, if_neg (by omega)]

/-- The character of the next clock. -/
def load (p : UartSent) (s : UartLink) (i : In) : UartSent :=
  if s.accepts i then ⟨i.data, i.hit⟩ else p

theorem accepts_of_ne (h : s.tx.state ≠ .idle) : s.accepts i = false := by
  unfold accepts
  rw [beq_eq_false_iff_ne.mpr h, Bool.false_and]

theorem load_of_ne (h : s.tx.state ≠ .idle) : load p s i = p := by
  unfold load
  rw [accepts_of_ne h]
  rfl

theorem hit_of_ne (h : s.tx.state ≠ .idle) : (s.next c i).hit = s.hit := by
  show (if s.accepts i then i.hit else s.hit) = s.hit
  rw [accepts_of_ne h]
  rfl

/-- The flip-flops after one clock. -/
theorem next_temp : (s.next c i).rx.temp = s.line c := rfl

theorem next_din : (s.next c i).rx.din = s.rx.temp := rfl

/-- One clock of the idle transmitter. -/
theorem tx_step_idle (h : TxShows c en1 en2 p s .idle) :
    TxShows c i.clken en1 (load p s i) (s.next c i) (TxPhase.idle.next c i.clken i.load) := by
  obtain ⟨hstate, htemp, -⟩ := h
  have hline : s.line c = true := line_of_not_sends fun b => by
    rw [hstate]
    nofun
  have hnext : (s.next c i).tx = if i.load then { s.tx with txReg := i.data, state := .sync }
      else s.tx := UartTx.next_idle (i := txIn i) rfl rfl hstate
  cases hload : i.load with
  | false =>
      rw [hload, if_neg Bool.false_ne_true] at hnext
      exact ⟨by rw [hnext, hstate], hline, htemp⟩
  | true =>
      have haccepts : s.accepts i = true := by
        unfold accepts
        rw [hstate, hload]
        rfl
      rw [hload, if_pos rfl] at hnext
      unfold load
      rw [haccepts]
      refine ⟨by rw [hnext], ⟨by rw [hnext]; rfl, ?_⟩, hline, htemp⟩
      show (if s.accepts i then i.hit else s.hit) = i.hit
      rw [haccepts]
      rfl

/-- One clock of the transmitter that has a character. -/
theorem tx_step_sync (h : TxShows c en1 en2 p s .sync) :
    TxShows c i.clken en1 p (s.next c i) (TxPhase.sync.next c i.clken i.load) := by
  obtain ⟨hstate, ⟨hdata, hhit⟩, htemp, -⟩ := h
  have hne : s.tx.state ≠ .idle := by
    rw [hstate]
    nofun
  have hline : s.line c = true := line_of_not_sends fun b => by
    rw [hstate]
    nofun
  have hhit' : (s.next c i).hit = p.hit := (hit_of_ne hne).trans hhit
  cases hclken : i.clken with
  | false =>
      have hnext : (s.next c i).tx = s.tx := UartTx.next_sync (i := txIn i) rfl rfl hclken hstate
      exact ⟨by rw [hnext, hstate], ⟨by rw [hnext, hdata], hhit'⟩, hline, htemp⟩
  | true =>
      obtain ⟨hat, hreg⟩ : UartTx.At c (s.next c i).tx 0 ∧ (s.next c i).tx.txReg = s.tx.txReg :=
        UartTx.at_zero (i := txIn i) rfl rfl hclken hstate
      refine ⟨hat, ⟨hreg.trans hdata, hhit'⟩, hline, ?_⟩
      rw [next_din, htemp]
      have hpos : 0 < true.toNat + en1.toNat :=
        Nat.lt_of_lt_of_le Nat.zero_lt_one (Nat.le_add_right 1 _)
      unfold lineAt
      rw [if_pos hpos]

/-- One clock of the transmitter in a frame. -/
theorem tx_step_sends (h : TxShows c en1 en2 p s (.sends t)) (hlegal : p.Legal c) :
    TxShows c i.clken en1 p (s.next c i) (TxPhase.next c i.clken i.load (.sends t)) := by
  obtain ⟨hat, ⟨hdata, hhit⟩, htemp, -⟩ := h
  have hne : s.tx.state ≠ .idle := by
    rw [hat.state]
    nofun
  have hline : s.line c = lineAt c p t 0 := line_of_sends hat hdata hhit
  have hhit' : (s.next c i).hit = p.hit := (hit_of_ne hne).trans hhit
  cases hclken : i.clken with
  | false =>
      have hnext : (s.next c i).tx = s.tx := hat.stay (i := txIn i) rfl rfl hclken
      refine ⟨by rw [hnext]; exact hat, ⟨by rw [hnext, hdata], hhit'⟩, hline, ?_⟩
      rw [next_din, htemp]
      exact congrArg _ (Nat.zero_add _).symm
  | true =>
      obtain ⟨hreg, hnext⟩ : (s.next c i).tx.txReg = s.tx.txReg ∧
          (t + 1 < 16 * c.plan.length ∧ UartTx.At c (s.next c i).tx (t + 1) ∨
            t + 1 = 16 * c.plan.length ∧ (s.next c i).tx.state = .done) :=
        hat.next (i := txIn i) rfl rfl hclken
      unfold TxPhase.next
      dsimp only
      rw [if_pos rfl]
      rcases hnext with ⟨hlt, hat'⟩ | ⟨hend, hdone⟩
      · rw [if_pos hlt]
        refine ⟨hat', ⟨hreg.trans hdata, hhit'⟩, ?_, ?_⟩
        · rw [next_temp, hline]
          exact lineAt_succ.symm
        · rw [next_din, htemp]
          exact lineAt_succ.symm
      · have hlength : 0 < c.plan.length := Nat.succ_pos _
        have hlast : ∀ back, back ≤ 1 → lineAt c p t back = true := by
          intro back hback
          have hdiv : (t - back) / 16 = c.plan.length - 1 := by omega
          unfold lineAt
          rw [if_neg (by omega), hdiv]
          exact lineBit_last hlegal
        rw [if_neg (by omega)]
        refine ⟨hdone, ?_, ?_⟩
        · rw [next_temp, hline]
          exact hlast 0 (Nat.zero_le _)
        · rw [next_din, htemp]
          exact hlast _ (Bool.toNat_le en1)

theorem tx_step_done (h : TxShows c en1 en2 p s .done) :
    TxShows c i.clken en1 p (s.next c i) (TxPhase.done.next c i.clken i.load) := by
  obtain ⟨hstate, htemp, -⟩ := h
  have hline : s.line c = true := line_of_not_sends fun b => by
    rw [hstate]
    nofun
  exact ⟨UartTx.next_done (i := txIn i) rfl rfl hstate, hline, htemp⟩

/-- One clock of the transmitter and of the flip-flops. -/
theorem tx_step (h : TxShows c en1 en2 p s x) (hlegal : ∀ r ∈ txHas p x, r.Legal c) :
    TxShows c i.clken en1 (load p s i) (s.next c i) (x.next c i.clken i.load) := by
  cases x with
  | idle => exact tx_step_idle h
  | sync =>
      rw [load_of_ne (by rw [h.1]; nofun)]
      exact tx_step_sync h
  | sends t =>
      rw [load_of_ne (by rw [h.1.state]; nofun)]
      exact tx_step_sends h (hlegal p (List.mem_singleton_self p))
  | done =>
      rw [load_of_ne (by rw [h.1]; nofun)]
      exact tx_step_done h

end UartLink

end KS10
