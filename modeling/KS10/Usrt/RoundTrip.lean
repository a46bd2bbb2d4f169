import KS10.Clocked.Enable
import KS10.Usrt.Receiver

/-!
# Frames from the transmitter to the receiver

The receiver's serial input is wired to the transmitter's output.  A frame is a list of
requests, which are loaded one after the other as the transmitter becomes idle: a flag, the
bytes, and a flag.

The two sides have clock enables of their own.  `UsrtLink.Legal` says what the enables must
respect: the receiver takes each bit once before the transmitter goes on to the next one, and
neither side is enabled between the characters, when the transmitter has no bit on the
line.  The clock enables may be in the same clock, or take turns as the edges of a bit clock
do, and any number of clocks may pass between them.

Along such a run what was sent and what is still to be sent make up one fixed line
(`UsrtLink.Carried`), so the receiver has listened to a prefix of this line, and in the end
to all of it.
-/

namespace KS10

open Clocked

/-- A request to the transmitter. -/
inductive UsrtReq where
  | flag
  | byte (d : BitVec 8)
  deriving DecidableEq

/-- The transmitter and the receiver on one line, the requests that are left, whether the
receiver has taken the bit that is on the line, and all bits that it has taken. -/
structure UsrtLink where
  tx : UsrtTx
  rx : UsrtRx
  todo : List UsrtReq
  sampled : Bool
  log : List UsrtRx.Sample
  deriving DecidableEq

namespace UsrtReq

def char : UsrtReq → BitVec 8
  | .flag => UsrtTx.charFlag
  | .byte d => d

def zbi : UsrtReq → Bool
  | .flag => false
  | .byte _ => true

/-- What is on the line for the requests, after `c` ones. -/
def encode : BitVec 3 → List UsrtReq → List (Bool × Bool)
  | _, [] => []
  | c, r :: rest =>
      UsrtTx.symbols r.zbi c (UsrtTx.lowBits r.char 8) ++
        encode (UsrtTx.countAfter r.zbi c (UsrtTx.lowBits r.char 8)) rest

theorem encode_cons (c : BitVec 3) (r : UsrtReq) (rest : List UsrtReq) :
    encode c (r :: rest) = UsrtTx.symbols r.zbi c (UsrtTx.lowBits r.char 8) ++
      encode (UsrtTx.countAfter r.zbi c (UsrtTx.lowBits r.char 8)) rest := rfl

/-- The requests of a frame. -/
def frame (bytes : List (BitVec 8)) : List UsrtReq := .flag :: (bytes.map .byte ++ [.flag])

end UsrtReq

namespace UsrtLink

/-- The inputs of the link at one clock: the next request is offered to the transmitter, and
the clock enables of the two sides. -/
structure In where
  offers : Bool
  txClken : Bool
  rxClken : Bool

/-! ## One clock -/

/-- The inputs of USRT_TX in SDLC mode. -/
def txIn (s : UsrtLink) (i : In) : UsrtTx.In where
  rst := false
  clr := false
  clken := i.txClken
  abort := false
  flag := match s.todo with
    | .flag :: _ => true
    | _ => false
  data := match s.todo with
    | r :: _ => r.char
    | [] => 0
  zbi := true
  load := i.offers && !s.todo.isEmpty

/-- The inputs of USRT_RX in SDLC mode. -/
def rxIn (synchr : BitVec 8) (s : UsrtLink) (i : In) : UsrtRx.In where
  rst := false
  clr := false
  clken := i.rxClken
  decmode := false
  rxd := s.tx.txd
  synchr := synchr

/-- One clock of the link. -/
def next (synchr : BitVec 8) (s : UsrtLink) (i : In) : UsrtLink where
  tx := s.tx.next (s.txIn i)
  rx := s.rx.next (s.rxIn synchr i)
  todo := if s.tx.state == .idle && (s.txIn i).load then s.todo.tail else s.todo
  sampled := if i.txClken then false else if i.rxClken then true else s.sampled
  log :=
    if i.rxClken then s.log ++ [UsrtRx.sample synchr s.rx (s.tx.txd, s.tx.crcen)] else s.log

/-- The receiver takes the bit on the line once, the transmitter goes on when the bit has been
taken, and between the characters neither is enabled. -/
structure Legal (s : UsrtLink) (i : In) : Prop where
  takes : i.rxClken = true → s.tx.state = .send ∧ s.sampled = false
  goesOn : i.txClken = true → s.tx.state = .send ∧ (s.sampled = true ∨ i.rxClken = true)

instance (s : UsrtLink) (i : In) : Decidable (Legal s i) :=
  decidable_of_iff ((i.rxClken = true → s.tx.state = .send ∧ s.sampled = false) ∧
      (i.txClken = true → s.tx.state = .send ∧ (s.sampled = true ∨ i.rxClken = true)))
    ⟨fun h => ⟨h.1, h.2⟩, fun h => ⟨h.takes, h.goesOn⟩⟩

/-- The transmitter is idle and the requests of a frame are waiting for it.  The receiver may
be in any state. -/
structure Start (bytes : List (BitVec 8)) (s : UsrtLink) : Prop where
  idle : s.tx.state = .idle
  crcen : s.tx.crcen = true
  todo : s.todo = UsrtReq.frame bytes
  sampled : s.sampled = false
  log : s.log = []

/-- The requests are offered, and the bits that are sent are followed by an enable. -/
structure Fair (x : Nat → UsrtLink) (i : Nat → In) : Prop where
  offers : ∀ t, ∃ u, t ≤ u ∧ (i u).offers = true
  goesOn : ∀ t, (x t).tx.state = .send → ∃ u, t ≤ u ∧ (i u).txClken = true

/-! ## The line -/

/-- What is still to be taken from the line. -/
def coming (s : UsrtLink) : List (Bool × Bool) :=
  (if s.sampled then s.tx.pending.tail else s.tx.pending) ++ UsrtReq.encode s.tx.leaves s.todo

/-- The receiver, which was `p` at first, has listened to the line but for what is coming. -/
structure Carried (synchr : BitVec 8) (line : List (Bool × Bool))
    (p : UsrtRx × List UsrtRx.Sample) (s : UsrtLink) : Prop where
  marked : s.tx.Marked
  between : s.tx.state ≠ .send → s.sampled = false ∧ s.tx.crcen = true
  line : ∃ past, past ++ s.coming = line ∧
    (s.rx, s.log) = past.foldl (UsrtRx.listen synchr) p

variable {synchr : BitVec 8} {bytes : List (BitVec 8)} {s : UsrtLink} {i : In}

theorem runs (s : UsrtLink) (i : In) : UsrtTx.Runs (s.txIn i) := ⟨rfl, rfl⟩

theorem rx_next_of_enabled (h : i.rxClken = true) :
    ((s.next synchr i).rx, (s.next synchr i).log) =
      UsrtRx.listen synchr (s.rx, s.log) (s.tx.txd, s.tx.crcen) := by
  unfold next rxIn
  rw [h]
  rfl

theorem rx_next_of_held (h : i.rxClken = false) :
    ((s.next synchr i).rx, (s.next synchr i).log) = (s.rx, s.log) := by
  have hrx : s.rx.next (s.rxIn synchr i) = s.rx := UsrtRx.next_of_held rfl rfl h
  unfold next
  rw [hrx, h]
  rfl

theorem todo_next_of_send (h : s.tx.state = .send) : (s.next synchr i).todo = s.todo := by
  unfold next
  rw [h]
  rfl

theorem ne_send_of_idle (h : s.tx.state = .idle) : s.tx.state ≠ .send := by
  rw [h]
  exact fun h => UsrtTx.State.noConfusion h

/-- A clock in which the transmitter goes on to the next bit. -/
theorem coming_of_goesOn (synchr : BitVec 8) (hmark : s.tx.Marked) (hsend : s.tx.state = .send)
    (hen : i.txClken = true) :
    (s.next synchr i).tx.Marked ∧ (s.next synchr i).sampled = false ∧
      (if s.sampled then s.coming = (s.next synchr i).coming
        else s.coming = (s.tx.txd, s.tx.crcen) :: (s.next synchr i).coming) := by
  obtain ⟨hpend, hleave, hmark'⟩ := UsrtTx.pending_next (runs s i) hmark hsend hen
  have hsampled : (s.next synchr i).sampled = false := by
    show (if i.txClken then false else _) = false
    rw [hen, if_pos rfl]
  have hcoming : (s.next synchr i).coming =
      (s.tx.next (s.txIn i)).pending ++ UsrtReq.encode s.tx.leaves s.todo := by
    unfold coming
    rw [hsampled, if_neg Bool.false_ne_true, todo_next_of_send hsend]
    show (s.tx.next (s.txIn i)).pending ++ UsrtReq.encode (s.tx.next (s.txIn i)).leaves _ = _
    rw [hleave]
  refine ⟨hmark', hsampled, ?_⟩
  rw [hcoming]
  unfold coming
  rw [hpend]
  cases s.sampled with
  | true => rfl
  | false => rfl

/-- A clock in which the transmitter sends on. -/
theorem next_of_waits (synchr : BitVec 8) (hsend : s.tx.state = .send) (hen : i.txClken = false) :
    (s.next synchr i).tx = s.tx ∧ (s.next synchr i).todo = s.todo ∧
      (s.next synchr i).sampled = (i.rxClken || s.sampled) := by
  refine ⟨UsrtTx.next_of_held (runs s i) hsend hen, todo_next_of_send hsend, ?_⟩
  show (if i.txClken then false else if i.rxClken then true else s.sampled) = _
  rw [hen, if_neg Bool.false_ne_true]
  cases i.rxClken with
  | true => rfl
  | false => rfl

/-- A request that the idle transmitter loads moves from the waiting ones to the line. -/
theorem next_of_loads (synchr : BitVec 8) (hidle : s.tx.state = .idle) (hcrc : s.tx.crcen = true)
    (hen : i.txClken = false) (hload : (s.txIn i).load = true) :
    (s.next synchr i).tx.state = .send ∧ (s.next synchr i).tx.crcen = true ∧
      (s.next synchr i).todo = s.todo.tail ∧
      (s.next synchr i).tx.pending ++
          UsrtReq.encode (s.next synchr i).tx.leaves (s.next synchr i).todo =
        UsrtReq.encode s.tx.leaves s.todo := by
  have hnext := UsrtTx.next_of_load (runs s i) hidle hen hload rfl
  obtain ⟨hpend, hleave⟩ := UsrtTx.pending_load (runs s i) hidle hcrc hen hload rfl
  have htodo : (s.next synchr i).todo = s.todo.tail := by
    show (if s.tx.state == .idle && (s.txIn i).load then s.todo.tail else s.todo) = _
    rw [hidle, hload]
    rfl
  have hstate : (s.tx.next (s.txIn i)).state = .send := by rw [hnext]
  have hcrc' : (s.tx.next (s.txIn i)).crcen = true := by
    rw [hnext]
    exact hcrc
  refine ⟨hstate, hcrc', htodo, ?_⟩
  show (s.tx.next (s.txIn i)).pending ++
    UsrtReq.encode (s.tx.next (s.txIn i)).leaves (s.next synchr i).todo = _
  rw [htodo, hpend, hleave, (UsrtTx.pending_of_ne_send (ne_send_of_idle hidle)).2]
  unfold txIn at hload ⊢
  cases htodos : s.todo with
  | nil =>
      rw [htodos] at hload
      simp at hload
  | cons r rest =>
      cases r with
      | flag => rfl
      | byte d => rfl

/-- A clock between the characters in which nothing is loaded. -/
theorem next_of_rests (synchr : BitVec 8) (hnot : s.tx.state ≠ .send) (hen : i.txClken = false)
    (hload : s.tx.state = .idle → (s.txIn i).load = false) :
    (s.next synchr i).tx.state = .idle ∧ (s.next synchr i).tx.crcen = s.tx.crcen ∧
      (s.next synchr i).tx.leaves = s.tx.leaves ∧ (s.next synchr i).todo = s.todo := by
  obtain ⟨hstate, hleave, hcrc⟩ := UsrtTx.pending_of_not_send (runs s i) hnot hen hload
  refine ⟨hstate, hcrc, hleave, ?_⟩
  show (if s.tx.state == .idle && (s.txIn i).load then s.todo.tail else s.todo) = _
  cases hs : s.tx.state with
  | send => exact absurd hs hnot
  | done => rfl
  | idle =>
      rw [hload hs]
      rfl

/-- The enables that a clock without a bit on the line may have. -/
theorem Legal.held (h : Legal s i) (hnot : s.tx.state ≠ .send) :
    i.txClken = false ∧ i.rxClken = false := by
  constructor
  · rw [← Bool.not_eq_true]
    exact fun hen => hnot (h.goesOn hen).1
  · rw [← Bool.not_eq_true]
    exact fun hen => hnot (h.takes hen).1

theorem sampled_of_held (htx : i.txClken = false) (hrx : i.rxClken = false) :
    (s.next synchr i).sampled = s.sampled := by
  unfold next
  rw [htx, hrx]
  rfl

/-- What is coming between the characters. -/
theorem coming_of_ne_send (hnot : s.tx.state ≠ .send) :
    s.coming = UsrtReq.encode s.tx.leaves s.todo := by
  unfold coming
  rw [(UsrtTx.pending_of_ne_send hnot).1, List.tail_nil, ite_self, List.nil_append]

/-- What is coming after a clock between the characters. -/
theorem coming_of_rests (synchr : BitVec 8) (hnot : s.tx.state ≠ .send)
    (hsampled : s.sampled = false) (hcrc : s.tx.crcen = true) (htx : i.txClken = false)
    (hrx : i.rxClken = false) :
    (s.next synchr i).coming = s.coming ∧ (s.next synchr i).tx.crcen = true := by
  rw [coming_of_ne_send hnot]
  by_cases hload : s.tx.state = .idle ∧ (s.txIn i).load = true
  · obtain ⟨-, hcrc', -, hline⟩ := next_of_loads synchr hload.1 hcrc htx hload.2
    refine ⟨?_, hcrc'⟩
    unfold coming
    rw [sampled_of_held htx hrx, hsampled, if_neg Bool.false_ne_true]
    exact hline
  · have hidle : s.tx.state = .idle → (s.txIn i).load = false := by
      intro hidle
      rw [← Bool.not_eq_true]
      exact fun h => hload ⟨hidle, h⟩
    obtain ⟨hstate, hcrc', hleave, htodo⟩ := next_of_rests synchr hnot htx hidle
    rw [coming_of_ne_send (ne_send_of_idle hstate), hleave, htodo, hcrc']
    exact ⟨rfl, hcrc⟩

/-- Every legal clock takes off the line what the receiver takes, or leaves the line as it
is. -/
theorem coming_next (synchr : BitVec 8) (hlegal : Legal s i) (hmark : s.tx.Marked)
    (hbetween : s.tx.state ≠ .send → s.sampled = false ∧ s.tx.crcen = true) :
    s.coming = (if i.rxClken then [(s.tx.txd, s.tx.crcen)] else []) ++
        (s.next synchr i).coming ∧
      (s.next synchr i).tx.Marked ∧
      ((s.next synchr i).tx.state ≠ .send →
        (s.next synchr i).sampled = false ∧ (s.next synchr i).tx.crcen = true) := by
  by_cases hsend : s.tx.state = .send
  · cases htx : i.txClken with
    | true =>
        obtain ⟨hmark', hsampled', hline⟩ := coming_of_goesOn synchr hmark hsend htx
        refine ⟨?_, hmark', fun hnot => ⟨hsampled', ?_⟩⟩
        · cases hrx : i.rxClken with
          | true =>
              rw [(hlegal.takes hrx).2] at hline
              exact hline
          | false =>
              rcases (hlegal.goesOn htx).2 with hsampled | htrue
              · rw [hsampled] at hline
                exact hline
              · rw [hrx] at htrue
                cases htrue
        · rw [← Bool.not_eq_false]
          exact fun hcrc => hnot (hmark' hcrc).1
    | false =>
        obtain ⟨hsame, htodo, hsampled'⟩ := next_of_waits synchr hsend htx
        rw [hsame]
        refine ⟨?_, hmark, fun hnot => absurd hsend hnot⟩
        unfold coming
        rw [hsame, htodo, hsampled']
        cases hrx : i.rxClken with
        | true =>
            obtain ⟨rest, hpend⟩ := UsrtTx.pending_head hmark hsend
            rw [(hlegal.takes hrx).2, hpend]
            rfl
        | false => rfl
  · obtain ⟨hsampled, hcrc⟩ := hbetween hsend
    obtain ⟨htx, hrx⟩ := hlegal.held hsend
    obtain ⟨hline, hcrc'⟩ := coming_of_rests synchr hsend hsampled hcrc htx hrx
    refine ⟨?_, fun hfalse => ?_, fun _ => ⟨?_, hcrc'⟩⟩
    · rw [hline, hrx]
      rfl
    · rw [hcrc'] at hfalse
      cases hfalse
    · rw [sampled_of_held htx hrx, hsampled]

/-- The receiver listens to the line. -/
theorem carried_next {line : List (Bool × Bool)} {p : UsrtRx × List UsrtRx.Sample}
    (hlegal : Legal s i) (h : Carried synchr line p s) :
    Carried synchr line p (s.next synchr i) := by
  obtain ⟨past, hline, hlog⟩ := h.line
  obtain ⟨hcoming, hmark, hbetween⟩ := coming_next synchr hlegal h.marked h.between
  refine ⟨hmark, hbetween, past ++ (if i.rxClken then [(s.tx.txd, s.tx.crcen)] else []), ?_, ?_⟩
  · rw [List.append_assoc, ← hcoming]
    exact hline
  · rw [List.foldl_append, ← hlog]
    cases hrx : i.rxClken with
    | true => exact rx_next_of_enabled hrx
    | false => exact rx_next_of_held hrx

theorem Start.carried (synchr : BitVec 8) (h : Start bytes s) :
    Carried synchr (UsrtReq.encode s.tx.count (UsrtReq.frame bytes)) (s.rx, []) s := by
  have hne := ne_send_of_idle h.idle
  refine ⟨fun hfalse => ?_, fun _ => ⟨h.sampled, h.crcen⟩, [], ?_, ?_⟩
  · rw [h.crcen] at hfalse
    cases hfalse
  · rw [List.nil_append, coming_of_ne_send hne, (UsrtTx.pending_of_ne_send hne).2, h.todo]
  · rw [h.log]
    rfl

/-! ## The end of the frame -/

/-- All requests have been sent. -/
def Sent (s : UsrtLink) : Prop := s.todo = [] ∧ s.tx.state ≠ .send

/-- What is left to be done for the requests. -/
def left (s : UsrtLink) : Nat :=
  2 * (s.tx.pending.length + (UsrtReq.encode s.tx.leaves s.todo).length) + s.todo.length +
    if s.tx.state = .done then 1 else 0

/-- What has been sent stays sent, and the receiver takes nothing more. -/
theorem Sent.next (hlegal : Legal s i) (h : Sent s) :
    Sent (s.next synchr i) ∧ (s.next synchr i).log = s.log := by
  obtain ⟨htx, hrx⟩ := hlegal.held h.2
  have hload : (s.txIn i).load = false := by
    unfold txIn
    rw [h.1]
    exact Bool.and_false _
  obtain ⟨hstate, -, -, htodo⟩ := next_of_rests synchr h.2 htx fun _ => hload
  refine ⟨⟨htodo.trans h.1, ne_send_of_idle hstate⟩, ?_⟩
  have hsame : ((s.next synchr i).rx, (s.next synchr i).log) = (s.rx, s.log) :=
    rx_next_of_held hrx
  exact congrArg Prod.snd hsame

/-- Nothing is coming any more. -/
theorem Sent.coming_eq (h : Sent s) : s.coming = [] := by
  rw [coming_of_ne_send h.2, h.1]
  rfl

/-- A clock brings the requests forward: a bit is followed by an enable, a character is done,
or a request is loaded. -/
def Forwards (s : UsrtLink) (i : In) : Prop :=
  i.txClken = true ∨ s.tx.state = .done ∨ s.tx.state = .idle ∧ (s.txIn i).load = true

/-- A bit that is followed by the next one is done. -/
theorem left_of_goesOn (synchr : BitVec 8) (hmark : s.tx.Marked) (hsend : s.tx.state = .send)
    (hen : i.txClken = true) : left (s.next synchr i) < left s := by
  obtain ⟨hpend, hleave, -⟩ := UsrtTx.pending_next (runs s i) hmark hsend hen
  have hdone : s.tx.state ≠ .done := by
    rw [hsend]
    exact fun h => UsrtTx.State.noConfusion h
  unfold left
  rw [todo_next_of_send hsend, if_neg hdone, hpend, List.length_cons]
  show 2 * ((s.tx.next (s.txIn i)).pending.length +
    (UsrtReq.encode (s.tx.next (s.txIn i)).leaves s.todo).length) + s.todo.length + _ < _
  rw [hleave]
  split <;> omega

theorem left_of_waits (synchr : BitVec 8) (hsend : s.tx.state = .send)
    (hen : i.txClken = false) : left (s.next synchr i) = left s := by
  obtain ⟨hsame, htodo, -⟩ := next_of_waits synchr hsend hen
  unfold left
  rw [hsame, htodo]

/-- A request that is loaded is one less, and its bits were counted before. -/
theorem left_of_loads (synchr : BitVec 8) (hidle : s.tx.state = .idle)
    (hcrc : s.tx.crcen = true) (hen : i.txClken = false) (hload : (s.txIn i).load = true) :
    left (s.next synchr i) < left s := by
  obtain ⟨hstate, -, htodo, hline⟩ := next_of_loads synchr hidle hcrc hen hload
  have hlen := congrArg List.length hline
  rw [List.length_append] at hlen
  have hpos : 0 < s.todo.length := by
    unfold txIn at hload
    rw [List.length_pos_iff, ← List.isEmpty_eq_false_iff]
    simpa using (Bool.and_eq_true_iff.mp hload).2
  unfold left
  rw [hlen, hstate, (UsrtTx.pending_of_ne_send (ne_send_of_idle hidle)).1, htodo,
    List.length_tail, if_neg (by decide)]
  simp only [List.length_nil]
  split <;> omega

/-- A character that is done makes way for the next one. -/
theorem left_of_rests (synchr : BitVec 8) (hnot : s.tx.state ≠ .send) (hen : i.txClken = false)
    (hload : s.tx.state = .idle → (s.txIn i).load = false) :
    left (s.next synchr i) + (if s.tx.state = .done then 1 else 0) = left s := by
  obtain ⟨hstate, -, hleave, htodo⟩ := next_of_rests synchr hnot hen hload
  unfold left
  rw [(UsrtTx.pending_of_ne_send (ne_send_of_idle hstate)).1,
    (UsrtTx.pending_of_ne_send hnot).1, hleave, htodo, hstate, if_neg (by decide), Nat.add_zero]

/-- No clock brings the requests back, and the ones of `Forwards` bring them forward. -/
theorem left_next (synchr : BitVec 8) (hlegal : Legal s i) (hmark : s.tx.Marked)
    (hbetween : s.tx.state ≠ .send → s.sampled = false ∧ s.tx.crcen = true) :
    left (s.next synchr i) ≤ left s ∧ (Forwards s i → left (s.next synchr i) < left s) := by
  by_cases hsend : s.tx.state = .send
  · cases htx : i.txClken with
    | true =>
        have hlt := left_of_goesOn synchr hmark hsend htx
        exact ⟨Nat.le_of_lt hlt, fun _ => hlt⟩
    | false =>
        refine ⟨Nat.le_of_eq (left_of_waits synchr hsend htx), ?_⟩
        rintro (htrue | hdone | ⟨hidle, -⟩)
        · exact nomatch htx.symm.trans htrue
        · exact nomatch hsend.symm.trans hdone
        · exact absurd hsend (ne_send_of_idle hidle)
  · obtain ⟨htx, -⟩ := hlegal.held hsend
    by_cases hload : s.tx.state = .idle ∧ (s.txIn i).load = true
    · have hlt := left_of_loads synchr hload.1 (hbetween hsend).2 htx hload.2
      exact ⟨Nat.le_of_lt hlt, fun _ => hlt⟩
    · have heq := left_of_rests synchr hsend htx fun hidle =>
        Bool.eq_false_iff.mpr fun h => hload ⟨hidle, h⟩
      refine ⟨by omega, ?_⟩
      rintro (htrue | hdone | hidle)
      · exact nomatch htx.symm.trans htrue
      · rw [if_pos hdone] at heq
        omega
      · exact absurd hidle hload

/-! ## Frames -/

open UsrtRx (Clean Placed Sample FlagSeen listen)

/-- What a receiver should report of a frame: the flags, and between them the bytes and
nothing else.  Both sides enable the CRC for the same bits, the bits of the bytes. -/
structure Received (bytes : List (BitVec 8)) (opening inside closing : List Sample) :
    Prop where
  opens : FlagSeen opening
  delivers : inside.flatMap Sample.events = bytes.map .byte
  crc : ∀ m ∈ inside, m.rxCrcen = m.txCrcen
  data : (inside.filter Sample.rxCrcen).map Sample.bit =
    bytes.flatMap fun d => UsrtTx.lowBits d 8
  closes : FlagSeen closing
  ends : closing.flatMap Sample.events = [.flag]

theorem encode_flag (c : BitVec 3) (rest : List UsrtReq) :
    UsrtReq.encode c (.flag :: rest) =
      UsrtRx.flagBits.map (·, true) ++ UsrtReq.encode 0 rest := by
  rw [UsrtReq.encode_cons]
  show UsrtTx.symbols false c (UsrtTx.lowBits UsrtTx.charFlag 8) ++
    UsrtReq.encode (UsrtTx.countAfter false c (UsrtTx.lowBits UsrtTx.charFlag 8)) rest = _
  have hbits : UsrtTx.lowBits UsrtTx.charFlag 8 = UsrtRx.flagBits := by decide
  rw [UsrtTx.symbols_false, UsrtTx.countAfter_flag, hbits]

/-- The bits for which the CRC is enabled are the data. -/
theorem data_of_symbols {l : List Sample} {c : Nat} {bits : List Bool}
    (hcrc : ∀ m ∈ l, m.txCrcen = m.rxCrcen)
    (hl : l.map (fun m => (m.bit, m.txCrcen)) = Stuffing.insert 5 c bits) :
    (l.filter Sample.rxCrcen).map Sample.bit = bits := by
  have hfilter : l.filter Sample.rxCrcen = l.filter Sample.txCrcen :=
    List.filter_congr fun m hm => (hcrc m hm).symm
  rw [hfilter, ← Stuffing.data_insert (k := 5) c bits, ← hl, List.filter_map, List.map_map]
  rfl

/-- A receiver that is at the beginning of a character receives the byte. -/
theorem listen_symbols (synchr : BitVec 8) (d : BitVec 8) {c : BitVec 3}
    {p : UsrtRx × List Sample} (hc : c.toNat < 5) (hclean : Clean p.1 c.toNat)
    (hplaced : Placed p.1 0) :
    let p' := (UsrtTx.symbols true c (UsrtTx.lowBits d 8)).foldl (listen synchr) p
    let c' := UsrtTx.countAfter true c (UsrtTx.lowBits d 8)
    (c'.toNat < 5 ∧ Clean p'.1 c'.toNat ∧ Placed p'.1 0) ∧
      ∃ more, p'.2 = p.2 ++ more ∧ more.flatMap Sample.events = [.byte d] ∧
        (∀ m ∈ more, m.rxCrcen = m.txCrcen) ∧
        (more.filter Sample.rxCrcen).map Sample.bit = UsrtTx.lowBits d 8 := by
  obtain ⟨hsymbols, hcount⟩ := UsrtTx.symbols_eq_insert hc (UsrtTx.lowBits d 8)
  have htaken := UsrtRx.listen_byte synchr d hc hclean hplaced
  intro p' c'
  have hp : p' = (Stuffing.insert 5 c.toNat (UsrtTx.lowBits d 8)).foldl (listen synchr) p :=
    congrArg (List.foldl (listen synchr) p) hsymbols
  rw [hp, hcount]
  constructor
  · have hend := htaken.placed
    rw [UsrtTx.length_lowBits] at hend
    exact ⟨Stuffing.ones_lt hc, htaken.clean, hend.again⟩
  · obtain ⟨more, hlog, hevents, hcrc⟩ := htaken.log
    obtain ⟨more', hlog', hbits⟩ :=
      UsrtRx.foldl_listen synchr (Stuffing.insert 5 c.toNat (UsrtTx.lowBits d 8)) p
    have hsame : more' = more := List.append_cancel_left (hlog'.symm.trans hlog)
    rw [hsame] at hbits
    rw [UsrtTx.length_lowBits, if_pos rfl] at hevents
    exact ⟨more, hlog, hevents, fun m hm => (hcrc m hm).symm, data_of_symbols hcrc hbits⟩

/-- The bytes come out one after the other, up to the flag. -/
theorem listen_bytes (synchr : BitVec 8) (bytes : List (BitVec 8)) {c : BitVec 3}
    {p : UsrtRx × List Sample} (hc : c.toNat < 5) (hclean : Clean p.1 c.toNat)
    (hplaced : Placed p.1 0) :
    ∃ inside closing,
      ((UsrtReq.encode c (bytes.map .byte ++ [.flag])).foldl (listen synchr) p).2 =
        p.2 ++ (inside ++ closing) ∧
      inside.flatMap Sample.events = bytes.map .byte ∧
      (∀ m ∈ inside, m.rxCrcen = m.txCrcen) ∧
      (inside.filter Sample.rxCrcen).map Sample.bit =
        (bytes.flatMap fun d => UsrtTx.lowBits d 8) ∧
      FlagSeen closing ∧ closing.flatMap Sample.events = [.flag] := by
  induction bytes generalizing c p with
  | nil =>
      obtain ⟨-, closing, hlog, hseen⟩ := UsrtRx.listen_flag synchr p
      obtain ⟨closing', hlog', hends⟩ := UsrtRx.listen_closing synchr hclean hc hplaced
      have hsame : closing' = closing := List.append_cancel_left (hlog'.symm.trans hlog)
      rw [hsame] at hends
      refine ⟨[], closing, ?_, rfl, fun m hm => absurd hm List.not_mem_nil, rfl, hseen, hends⟩
      show ((UsrtReq.encode c [.flag]).foldl (listen synchr) p).2 = _
      rw [encode_flag]
      exact hlog
  | cons d bytes ih =>
      have hencode : UsrtReq.encode c ((d :: bytes).map .byte ++ [.flag]) =
          UsrtTx.symbols true c (UsrtTx.lowBits d 8) ++
            UsrtReq.encode (UsrtTx.countAfter true c (UsrtTx.lowBits d 8))
              (bytes.map .byte ++ [.flag]) := rfl
      obtain ⟨⟨hc', hclean', hplaced'⟩, more, hlog, hevents, hcrc, hdata⟩ :=
        listen_symbols synchr d hc hclean hplaced
      obtain ⟨inside, closing, hall, hbytes, hcrcs, hdatas, hcloses⟩ := ih hc' hclean' hplaced'
      refine ⟨more ++ inside, closing, ?_, ?_, ?_, ?_, hcloses⟩
      · rw [hencode, List.foldl_append, hall, hlog]
        simp only [List.append_assoc]
      · rw [List.flatMap_append, hevents, hbytes]
        rfl
      · intro m hm
        rcases List.mem_append.mp hm with hm | hm
        · exact hcrc m hm
        · exact hcrcs m hm
      · rw [List.filter_append, List.map_append, hdata, hdatas, List.flatMap_cons]

/-- Whatever state the receiver is in, it receives the frame that is on the line. -/
theorem listen_frame (synchr : BitVec 8) (bytes : List (BitVec 8)) (c : BitVec 3)
    (rx : UsrtRx) :
    ∃ opening inside closing, Received bytes opening inside closing ∧
      ((UsrtReq.encode c (UsrtReq.frame bytes)).foldl (listen synchr) (rx, [])).2 =
        opening ++ inside ++ closing := by
  obtain ⟨hrx, opening, hlog, hopens⟩ := UsrtRx.listen_flag synchr (rx, [])
  obtain ⟨hflag, hclean⟩ := UsrtRx.recv_flag synchr rx
  rw [← hrx] at hflag hclean
  obtain ⟨inside, closing, hall, hbytes, hcrc, hdata, hcloses, hends⟩ :=
    listen_bytes synchr bytes (c := 0) (by decide) hclean (Or.inl ⟨hflag, rfl⟩)
  refine ⟨opening, inside, closing, ⟨hopens, hbytes, hcrc, hdata, hcloses, hends⟩, ?_⟩
  unfold UsrtReq.frame
  rw [encode_flag, List.foldl_append, hall, hlog, List.nil_append, List.append_assoc]

/-! ## Runs -/

theorem carried_run (hstart : Start bytes s) {i : Nat → In}
    (hlegal : ∀ t, Legal (run (next synchr) s i t) (i t)) (t : Nat) :
    Carried synchr (UsrtReq.encode s.tx.count (UsrtReq.frame bytes)) (s.rx, [])
      (run (next synchr) s i t) :=
  run_invariant_of (C := Legal) (hstart.carried synchr) (fun _ _ => carried_next)
    fun u _ => hlegal u

/-- As long as something is left, some later clock brings the requests forward. -/
theorem exists_forwards {x : Nat → UsrtLink} {i : Nat → In} (hfair : Fair x i) (t : Nat) :
    ∃ u, t ≤ u ∧ (Sent (x u) ∨ Forwards (x u) (i u)) := by
  obtain ⟨u, htu, hoffers⟩ := hfair.offers t
  cases hstate : (x u).tx.state with
  | done => exact ⟨u, htu, Or.inr (Or.inr (Or.inl hstate))⟩
  | send =>
      obtain ⟨v, huv, hen⟩ := hfair.goesOn u hstate
      exact ⟨v, Nat.le_trans htu huv, Or.inr (Or.inl hen)⟩
  | idle =>
      refine ⟨u, htu, ?_⟩
      cases htodo : (x u).todo with
      | nil => exact Or.inl ⟨htodo, ne_send_of_idle hstate⟩
      | cons r rest =>
          refine Or.inr (Or.inr (Or.inr ⟨hstate, ?_⟩))
          show ((i u).offers && !(x u).todo.isEmpty) = true
          rw [hoffers, htodo]
          rfl

/-- The end of the frame is reached. -/
theorem exists_sent (hstart : Start bytes s) {i : Nat → In}
    (hlegal : ∀ t, Legal (run (next synchr) s i t) (i t))
    (hfair : Fair (run (next synchr) s i) i) : ∃ t, Sent (run (next synchr) s i t) := by
  have hleft : ∀ t, _ := fun t =>
    left_next synchr (hlegal t) (carried_run hstart hlegal t).marked
      (carried_run hstart hlegal t).between
  refine exists_of_count (fun t => left (run (next synchr) s i t)) (fun t => (hleft t).1)
    fun t => ?_
  obtain ⟨u, htu, hsent | hforwards⟩ := exists_forwards hfair t
  · exact ⟨u, htu, Or.inl hsent⟩
  · exact ⟨u, htu, Or.inr ((hleft u).2 hforwards)⟩

/-- Every frame comes out as it went in, whatever the spacing of the clock enables: at all
times the receiver has taken the beginning of what it should report, and in the end it has
taken all of it. -/
theorem roundTrip {synchr : BitVec 8} {bytes : List (BitVec 8)} {s : UsrtLink} {i : Nat → In}
    (hstart : Start bytes s) (hlegal : ∀ t, Legal (run (next synchr) s i t) (i t))
    (hfair : Fair (run (next synchr) s i) i) :
    ∃ opening inside closing, Received bytes opening inside closing ∧
      (∀ t, (run (next synchr) s i t).log <+: opening ++ inside ++ closing) ∧
      ∃ last, ∀ t, last ≤ t →
        (run (next synchr) s i t).log = opening ++ inside ++ closing := by
  obtain ⟨opening, inside, closing, hreceived, hlog⟩ :=
    listen_frame synchr bytes s.tx.count s.rx
  obtain ⟨last, hsent⟩ := exists_sent hstart hlegal hfair
  refine ⟨opening, inside, closing, hreceived, fun t => ?_, last, fun t hlast => ?_⟩
  · obtain ⟨past, hline, hpast⟩ := (carried_run hstart hlegal t).line
    obtain ⟨more, hmore, -⟩ :=
      UsrtRx.foldl_listen synchr (run (next synchr) s i t).coming
        (past.foldl (listen synchr) (s.rx, []))
    refine ⟨more, ?_⟩
    rw [← hlog, ← hline, List.foldl_append, hmore, ← hpast]
  · have hstays : Sent (run (next synchr) s i t) :=
      stays_until (P := fun v => Sent (run (next synchr) s i v)) (C := fun _ => True)
        (fun v h _ => (h.next (hlegal v)).1) hsent hlast fun _ _ _ => trivial
    obtain ⟨past, hline, hpast⟩ := (carried_run hstart hlegal t).line
    rw [hstays.coming_eq, List.append_nil] at hline
    rw [← hlog, ← hline, ← hpast]

/-- The two sides after a reset, with a frame that is waiting. -/
def afterReset (bytes : List (BitVec 8)) : UsrtLink :=
  { tx := UsrtTx.clear, rx := UsrtRx.reset, todo := UsrtReq.frame bytes, sampled := false,
    log := [] }

/-- One enable for both sides, in one of `period` clocks, until the clock `n`. -/
def shared (period n t : Nat) : In :=
  let clken := (t + 1) % period == 0 && decide (t < n)
  { offers := true, txClken := clken, rxClken := clken }

/-- Two bytes with a run of ones that goes from one into the other. -/
theorem roundTrip_shared :
    ∃ opening inside closing, Received [0xf0, 0x01] opening inside closing ∧
      (∀ t, (run (next 0) (afterReset [0xf0, 0x01]) (shared 3 99) t).log <+:
        opening ++ inside ++ closing) ∧
      ∃ last, ∀ t, last ≤ t →
        (run (next 0) (afterReset [0xf0, 0x01]) (shared 3 99) t).log =
          opening ++ inside ++ closing := by
  have hlegal : ∀ t, Legal (run (next 0) (afterReset [0xf0, 0x01]) (shared 3 99) t)
      (shared 3 99 t) := by
    have hbusy : ∀ t, t < 99 → Legal (run (next 0) (afterReset [0xf0, 0x01]) (shared 3 99) t)
        (shared 3 99 t) := by decide +kernel
    intro t
    by_cases ht : t < 99
    · exact hbusy t ht
    · have hen : ((t + 1) % 3 == 0 && decide (t < 99)) = false := by
        rw [decide_eq_false ht, Bool.and_false]
      refine ⟨fun h => ?_, fun h => ?_⟩
      · exact absurd (hen.symm.trans h) Bool.false_ne_true
      · exact absurd (hen.symm.trans h) Bool.false_ne_true
  have hend : Sent (run (next 0) (afterReset [0xf0, 0x01]) (shared 3 99) 99) := by
    unfold Sent
    decide +kernel
  refine roundTrip ⟨rfl, rfl, rfl, rfl, rfl⟩ hlegal
    ⟨fun t => ⟨t, Nat.le_refl t, rfl⟩, fun t hsend => ?_⟩
  by_cases ht : t < 99
  · exact ⟨98, by omega, rfl⟩
  · have hstays : Sent (run (next 0) (afterReset [0xf0, 0x01]) (shared 3 99) t) :=
      stays_until (P := fun v => Sent (run (next 0) (afterReset [0xf0, 0x01]) (shared 3 99) v))
        (C := fun _ => True) (fun v h _ => (h.next (hlegal v)).1) hend (by omega)
        fun _ _ _ => trivial
    exact absurd hsend hstays.2

/-- With an enable in every clock the receiver also takes what is on the line between the
characters: the byte 1 comes out as other bytes. -/
theorem roundTrip_fails :
    let always : Nat → In := fun _ => { offers := true, txClken := true, rxClken := true }
    Start [0x01] (afterReset [0x01]) ∧ Sent (run (next 0) (afterReset [0x01]) always 29) ∧
      (run (next 0) (afterReset [0x01]) always 29).log.flatMap Sample.events =
        [.flag, .byte 0x04, .byte 0xe0, .flag] := by
  intro always
  refine ⟨⟨rfl, rfl, rfl, rfl, rfl⟩, ?_, ?_⟩
  · unfold Sent
    decide +kernel
  · decide +kernel

end UsrtLink

end KS10
