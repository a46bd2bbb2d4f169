import KS10.Disk.Rules

/-!
# Talking to the card

The parts that the transfers share: sending a command, polling for an answer, receiving
the bytes of a block, and finishing.  Each is proved once, for a controller state given
by what it does (`hn`).
-/

namespace KS10

open Clocked
open Sd (ff)

namespace Card

/-- Several bytes are exchanged. -/
def exchanges (timing : Timing) (c : Card) (bytes : List (BitVec 8)) : Card :=
  bytes.foldl (exchange timing) c

/-- The card has nothing to send and waits for a command. -/
structure Ready (c : Card) : Prop where
  out : c.out = []
  listen : c.listen = .command []

theorem exchanges_command {timing : Timing} {c : Card} {c0 c1 c2 c3 c4 c5 : BitVec 8}
    (hready : c.Ready) (hfirst : c0.extractLsb' 6 2 = 0b01) :
    c.exchanges timing [c0, c1, c2, c3, c4, c5] = c.accept timing [c0, c1, c2, c3, c4, c5] := by
  rcases c with ⟨data, written, out, listen, commands⟩
  obtain ⟨rfl, rfl⟩ := hready
  simp [exchanges, exchange, hear, hfirst, accept, blockBytes, response]

end Card

namespace Xfer

variable {env : Env} {a b : Sd.State} {v : View} {s : Xfer} {rx tx : BitVec 8} {done : Bool}

theorem Still.running (h : Still env done rx a v s) (ha : a ≠ .done) : Running s :=
  fun h' => ha (h.state.symm.trans h')

theorem Acked.running (h : Acked env a v s) (ha : a ≠ .done) : Running s :=
  fun h' => ha (h.state.symm.trans h')

theorem counts_running {a : Sd.State} (h : Sd.counts a = true) : a ≠ .done := by
  rintro rfl
  cases h

theorem takes_running {a : Sd.State} (h : Sd.takes a = true) : a ≠ .done := by
  rintro rfl
  cases h

theorem Still.sdCMD (h : Still env done rx a v s) : s.sd.sdCMD = v.sdCMD := by rw [← h.view]; rfl

theorem Still.loopCNT (h : Still env done rx a v s) : s.sd.loopCNT = v.loopCNT := by
  rw [← h.view]; rfl

theorem Still.tempDATA (h : Still env done rx a v s) : s.sd.tempDATA = v.tempDATA := by
  rw [← h.view]; rfl

/-- The view with something else for the card to send. -/
def View.feed (v : View) (out : List (BitVec 8)) : View :=
  { v with card := { v.card with out := out } }

/-! ## Sending a command -/

section SendCommand

variable {k : Sd → Sd} (hn : ∀ (sd : Sd) (i : Sd.In), sd.state = a →
  sd.next i = sd.quiet.sendCommand i (k sd))

include hn

theorem sends_byte (h : Still env done rx a v s) (hgo : done = true ∨ v.loopCNT = 0)
    (hne : v.loopCNT ≠ 6) :
    Pending env a (v.sdCMD.getD v.loopCNT.toNat 0) { v with loopCNT := v.loopCNT + 1 }
      (s.step env) := by
  have hcount := h.loopCNT
  have hgo' : ((s.sdIn env).spiDONE || s.sd.loopCNT == 0) = true := by
    rw [show (s.sdIn env).spiDONE = done from h.isDone, hcount]
    simpa using hgo
  have hE : s.sd.next (s.sdIn env) =
      { s.sd.quiet.transfer (s.sd.sdCMD.getD s.sd.loopCNT.toNat 0) with
        loopCNT := s.sd.loopCNT + 1 } := by
    rw [hn _ _ h.state, Sd.sendCommand, Sd.sendBytes, Sd.quiet_loopCNT, if_pos hgo',
      if_neg (by simpa [hcount] using hne)]
    rfl
  refine h.pending hE rfl ?_ rfl h.state ?_
  · rw [← h.sdCMD, ← h.loopCNT]; rfl
  · rw [← h.view]; rfl

theorem sendCommand_next (h : Still env true rx a v s) (hlast : v.loopCNT = 6) :
    s.sd.next (s.sdIn env) = k s.sd := by
  rw [hn _ _ h.state, Sd.sendCommand, Sd.sendBytes, Sd.quiet_loopCNT,
    show (s.sdIn env).spiDONE = true from h.isDone, h.loopCNT, hlast]
  rfl

/-- The six bytes of the command go to the card. -/
theorem command_sent (ha : Sd.counts a = true) (hrun : a ≠ .done) (hcs : v.cs = false)
    (hlen : v.sdCMD.length = 6) (hzero : v.loopCNT = 0) :
    Comes env (At env a v)
      (fun s => ∃ rx, Done env rx a
        { v with loopCNT := 6, card := v.card.exchanges env.timing v.sdCMD } s) := by
  let sent (k : Nat) : View :=
    { v with
      loopCNT := BitVec.ofNat 16 (k + 1)
      card := v.card.exchanges env.timing (v.sdCMD.take k) }
  have hcount : ∀ k, k < 6 → BitVec.ofNat 16 (k + 1) ≠ 0#16 := by
    intro k hk h0
    have := congrArg BitVec.toNat h0
    simp at this
    omega
  have hends : ∀ k, k < 6 → Comes env (Pending env a (v.sdCMD.getD k 0) (sent k))
      (Done env (sent k).rx a
        { v with
          loopCNT := BitVec.ofNat 16 (k + 1)
          card := v.card.exchanges env.timing (v.sdCMD.take (k + 1)) }) := by
    intro k hk
    have hview : (sent k).exchanged env (v.sdCMD.getD k 0) =
        { v with
          loopCNT := BitVec.ofNat 16 (k + 1)
          card := v.card.exchanges env.timing (v.sdCMD.take (k + 1)) } := by
      simp only [View.exchanged, sent, hcs, Bool.false_eq_true, if_false, Card.exchanges,
        List.take_add_one, List.foldl_append, List.getD_eq_getElem?_getD]
      rw [List.getElem?_eq_getElem (by omega)]
      rfl
    rw [← hview]
    exact byte_ends (Or.inr ⟨ha, hcount k hk⟩)
  have hfirst : Comes env (At env a v) (Pending env a (v.sdCMD.getD 0 0) (sent 0)) := by
    refine Leads.one (fun s h => h.toStill.running hrun) fun s h => ?_
    have := sends_byte hn h.toStill (Or.inr hzero) (by rw [hzero]; decide)
    rw [hzero] at this
    exact this
  have hloop : Comes env (Pending env a (v.sdCMD.getD 0 0) (sent 0))
      (Pending env a (v.sdCMD.getD 5 0) (sent 5)) := by
    refine Leads.loop (P := fun k => Pending env a (v.sdCMD.getD k 0) (sent k)) 5 fun k hk => ?_
    refine (hends k (by omega)).trans (Leads.one (fun s h => h.toStill.running hrun) fun s h => ?_)
    have hmod : (k + 1) % 65536 = k + 1 := Nat.mod_eq_of_lt (by omega)
    have hne : BitVec.ofNat 16 (k + 1) ≠ 6 := by
      intro h6
      have := congrArg BitVec.toNat h6
      simp at this
      omega
    have := sends_byte hn h.toStill (Or.inl rfl) hne
    rw [show (BitVec.ofNat 16 (k + 1)).toNat = k + 1 by simpa using hmod,
      show BitVec.ofNat 16 (k + 1) + 1 = BitVec.ofNat 16 (k + 1 + 1) from
        (BitVec.ofNat_add _ _).symm] at this
    exact this
  have hlast := hends 5 (by omega)
  rw [List.take_of_length_le (by omega)] at hlast
  exact ((hfirst.trans hloop).trans hlast).mono_right fun s hs => ⟨_, hs⟩

end SendCommand

/-! ## Passing one byte and polling -/

section OneByte

variable {k : Sd → Sd.In → Sd}

theorem oneByte_starts
    (hn : ∀ (sd : Sd) (i : Sd.In), sd.state = a → sd.next i = sd.quiet.oneByte i tx (k sd i))
    (h : Still env done rx a v s) (h0 : v.loopCNT = 0) :
    Pending env a tx { v with loopCNT := 1 } (s.step env) := by
  have hE : s.sd.next (s.sdIn env) = { s.sd.quiet.transfer tx with loopCNT := 1 } := by
    rw [hn _ _ h.state, Sd.oneByte, Sd.quiet_loopCNT, h.loopCNT, h0]
    rfl
  refine h.pending hE rfl rfl rfl h.state ?_
  rw [← h.view]; rfl

theorem oneByte_next
    (hn : ∀ (sd : Sd) (i : Sd.In), sd.state = a → sd.next i = sd.quiet.oneByte i tx (k sd i))
    (h : Still env true rx a v s) (h0 : v.loopCNT ≠ 0) :
    s.sd.next (s.sdIn env) = k s.sd (s.sdIn env) := by
  rw [hn _ _ h.state, Sd.oneByte, Sd.quiet_loopCNT, h.loopCNT, if_neg (by simpa using h0),
    Sd.onDone, show (s.sdIn env).spiDONE = true from h.isDone]
  rfl

/-- One byte is passed. -/
theorem oneByte_passes (ha : Sd.counts a = true) (hrun : a ≠ .done)
    (hn : ∀ (sd : Sd) (i : Sd.In), sd.state = a → sd.next i = sd.quiet.oneByte i tx (k sd i))
    (h0 : v.loopCNT = 0) :
    Comes env (Still env done rx a v)
      (Done env v.rx a ({ v with loopCNT := 1 }.exchanged env tx)) :=
  (Leads.one (fun s h => h.running hrun) fun s h => oneByte_starts hn h h0).trans
    (byte_ends (v := { v with loopCNT := 1 }) (Or.inr ⟨ha, (by decide : (1 : BitVec 16) ≠ 0)⟩))

variable {limit : BitVec 16} {late : Sd → Sd.In → Sd}
  (hn : ∀ (sd : Sd) (i : Sd.In), sd.state = a →
    sd.next i = sd.quiet.poll i limit (late sd i) (k sd i))

include hn

theorem poll_again (h : Still env true ff a v s) (h0 : v.loopCNT ≠ 0) (hlimit : v.loopCNT ≠ limit) :
    Pending env a ff { v with loopCNT := v.loopCNT + 1 } (s.step env) := by
  have hE : s.sd.next (s.sdIn env) =
      { s.sd.quiet.transfer ff with loopCNT := s.sd.loopCNT + 1 } := by
    rw [oneByte_next hn h h0, show (s.sdIn env).spiRXD = ff from h.isRx rfl, if_pos (by simp),
      Sd.quiet_loopCNT, if_neg (by simpa [h.loopCNT] using hlimit)]
  refine h.pending hE rfl rfl rfl h.state ?_
  rw [← h.view]; rfl

theorem poll_next (h : Still env true rx a v s) (h0 : v.loopCNT ≠ 0) (hrx : rx ≠ ff) :
    s.sd.next (s.sdIn env) = k s.sd (s.sdIn env) := by
  rw [oneByte_next hn h h0, show (s.sdIn env).spiRXD = rx from h.isRx rfl,
    if_neg (by simpa using hrx)]

/-- The card answers after some empty bytes. -/
theorem answered (ha : Sd.counts a = true) (hrun : a ≠ .done) (hcs : v.cs = false)
    (h0 : v.loopCNT = 0) {m : Nat} {x : BitVec 8} {rest : List (BitVec 8)} (hm : m < limit.toNat) :
    Comes env (At env a (v.feed (List.replicate m ff ++ x :: rest)))
      (Done env x a { v.feed rest with loopCNT := BitVec.ofNat 16 (m + 1) }) := by
  let polled (j : Nat) : View :=
    { v.feed (List.replicate (m - j) ff ++ x :: rest) with loopCNT := BitVec.ofNat 16 (j + 1) }
  have hcount : ∀ j, j ≤ m → (BitVec.ofNat 16 (j + 1)).toNat = j + 1 := by
    intro j hj
    have := limit.isLt
    rw [BitVec.toNat_ofNat]
    exact Nat.mod_eq_of_lt (by omega)
  have hne : ∀ j, j ≤ m → BitVec.ofNat 16 (j + 1) ≠ 0 := by
    intro j hj hzero
    have := hcount j hj
    rw [hzero] at this
    cases this
  have hfirst : Comes env (At env a (v.feed (List.replicate m ff ++ x :: rest)))
      (Pending env a ff (polled 0)) :=
    Leads.one (fun s h => h.toStill.running hrun) fun s h => oneByte_starts hn h.toStill h0
  have hloop : Comes env (Pending env a ff (polled 0)) (Pending env a ff (polled m)) := by
    refine Leads.loop (P := fun j => Pending env a ff (polled j)) m fun j hj => ?_
    have hout : List.replicate (m - j) ff ++ x :: rest =
        ff :: (List.replicate (m - (j + 1)) ff ++ x :: rest) := by
      rw [show m - j = m - (j + 1) + 1 by omega, List.replicate_succ]
      rfl
    have hends : Comes env (Pending env a ff (polled j)) _ :=
      byte_ends (Or.inr ⟨ha, hne j (by omega)⟩)
    refine hends.trans (Leads.one (fun s h => h.toStill.running hrun) fun s h => ?_)
    have hrx : (polled j).rx = ff := by
      simp only [View.rx, polled, View.feed, hcs, hout, Card.reply, List.headD_cons,
        Bool.false_eq_true, if_false]
    have hview : (polled j).exchanged env ff = 
        { v.feed (List.replicate (m - (j + 1)) ff ++ x :: rest) with
          loopCNT := BitVec.ofNat 16 (j + 1) } := by
      simp only [View.exchanged, polled, View.feed, hcs, hout, Card.exchange,
        Bool.false_eq_true, if_false]
    rw [hrx, hview] at h
    have hlimit : BitVec.ofNat 16 (j + 1) ≠ limit := by
      intro heq
      have := hcount j (by omega)
      rw [heq] at this
      omega
    have := poll_again hn h.toStill (hne j (by omega)) hlimit
    rw [show BitVec.ofNat 16 (j + 1) + 1 = BitVec.ofNat 16 (j + 1 + 1) from
      (BitVec.ofNat_add _ _).symm] at this
    exact this
  have hlast : Comes env (Pending env a ff (polled m))
      (Done env x a { v.feed rest with loopCNT := BitVec.ofNat 16 (m + 1) }) := by
    have hends : Comes env (Pending env a ff (polled m)) _ :=
      byte_ends (Or.inr ⟨ha, hne m (by omega)⟩)
    have hrx : (polled m).rx = x := by
      simp [View.rx, polled, View.feed, hcs, Card.reply]
    have hview : (polled m).exchanged env ff =
        { v.feed rest with loopCNT := BitVec.ofNat 16 (m + 1) } := by
      simp [View.exchanged, polled, View.feed, hcs, Card.exchange]
    rw [hrx, hview] at hends
    exact hends
  exact (hfirst.trans hloop).trans hlast

end OneByte

/-! ## The bytes of a block -/

section Bytes

/-- A byte of the card ends while it has nothing to listen to. -/
theorem feed_ends (hw : v.waits a) (hcs : v.cs = false) (hlisten : v.card.listen = .command [])
    (out : List (BitVec 8)) :
    Comes env (Pending env a ff (v.feed out)) (Done env (out.headD ff) a (v.feed out.tail)) := by
  have hends : Comes env (Pending env a ff (v.feed out)) _ := byte_ends hw
  have hrx : (v.feed out).rx = out.headD ff := by simp [View.rx, View.feed, hcs, Card.reply]
  have hview : (v.feed out).exchanged env ff = v.feed out.tail := by
    cases out with
    | nil => simp [View.exchanged, View.feed, hcs, Card.exchange, Card.hear, hlisten, ff]
    | cons x rest => simp [View.exchanged, View.feed, hcs, Card.exchange]
  rw [hrx, hview] at hends
  exact hends

theorem headD_drop (l : List (BitVec 8)) (i : Nat) : (l.drop i).headD ff = l.getD i ff := by
  rw [List.headD_eq_head?_getD, List.head?_drop, List.getD_eq_getElem?_getD]

/-- The view with another word in `tempDATA`. -/
def View.put (v : View) (x : BitVec 36) : View := { v with tempDATA := x }

/-- A byte is received and kept. -/
theorem receives (g : BitVec 36 → BitVec 8 → BitVec 36) (ha : Sd.takes a = true)
    (hn : ∀ (sd : Sd) (i : Sd.In), sd.state = a → sd.next i =
      sd.quiet.receive i b fun s => { s with tempDATA := g s.tempDATA i.spiRXD })
    (hcs : v.cs = false) (hlisten : v.card.listen = .command []) {x : BitVec 36}
    {l : List (BitVec 8)} {i : Nat} :
    Comes env (Pending env a ff ((v.put x).feed (l.drop i)))
      (Pending env b ff ((v.put (g x (l.getD i ff))).feed (l.drop (i + 1)))) := by
  have hends : Comes env (Pending env a ff ((v.put x).feed (l.drop i))) _ :=
    feed_ends (v := v.put x) (Or.inl ha) hcs hlisten (l.drop i)
  rw [headD_drop, List.tail_drop] at hends
  refine hends.trans (Leads.one (fun s h => h.toStill.running (takes_running ha)) fun s h => ?_)
  have hE := hn s.sd (s.sdIn env) h.state
  rw [Sd.receive, Sd.onDone, show (s.sdIn env).spiDONE = true from h.isDone, if_pos rfl] at hE
  refine h.toStill.pending hE rfl rfl rfl rfl ?_
  rw [show (s.sdIn env).spiRXD = l.getD i ff from h.isRx rfl]
  change _ = { (v.put x).feed (l.drop (i + 1)) with
    tempDATA := g ((v.put x).feed (l.drop (i + 1))).tempDATA (l.getD i ff) }
  rw [← h.view]
  rfl

/-- A byte is sent while the card takes a block. -/
def View.hearing (v : View) (block : BitVec 32) (got : List (BitVec 8)) : View :=
  { v with card := { v.card with listen := .data block got } }

theorem hearing_ends (hw : v.waits a) (hcs : v.cs = false) (hout : v.card.out = [])
    {block : BitVec 32} {got : List (BitVec 8)} (hgot : got.length ≠ 513) :
    Comes env (Pending env a tx (v.hearing block got))
      (Done env ff a (v.hearing block (got ++ [tx]))) := by
  have hends : Comes env (Pending env a tx (v.hearing block got)) _ := byte_ends hw
  have hrx : (v.hearing block got).rx = ff := by
    simp [View.rx, View.hearing, hcs, Card.reply, hout]
  have hview : (v.hearing block got).exchanged env tx = v.hearing block (got ++ [tx]) := by
    simp [View.exchanged, View.hearing, hcs, Card.exchange, Card.hear, hout, hgot]
  rw [hrx, hview] at hends
  exact hends

/-- A byte of the word is sent, and the next one begins. -/
theorem sends (f : BitVec 36 → BitVec 8) (ha : Sd.takes a = true)
    (hn : ∀ (sd : Sd) (i : Sd.In), sd.state = a →
      sd.next i = sd.quiet.sendNext i (f sd.tempDATA) b)
    (hcs : v.cs = false) (hout : v.card.out = []) {block : BitVec 32} {got : List (BitVec 8)}
    (hgot : got.length ≠ 513) :
    Comes env (Pending env a tx (v.hearing block got))
      (Pending env b (f v.tempDATA) (v.hearing block (got ++ [tx]))) := by
  refine (hearing_ends (Or.inl ha) hcs hout hgot).trans
    (Leads.one (fun s h => h.toStill.running (takes_running ha)) fun s h => ?_)
  have hE := hn s.sd (s.sdIn env) h.state
  rw [Sd.sendNext, Sd.onDone, show (s.sdIn env).spiDONE = true from h.isDone, if_pos rfl] at hE
  refine h.toStill.pending hE rfl ?_ rfl rfl ?_
  · change f s.sd.tempDATA = _
    rw [h.toStill.tempDATA]
    rfl
  · rw [← h.view]
    rfl

end Bytes

/-! ## Polling while the card is busy -/

section Busy

variable {x : BitVec 8} {limit : BitVec 16} {late : Sd → Sd} {k : Sd → Sd.In → Sd}
  (hn : ∀ (sd : Sd) (i : Sd.In), sd.state = a → sd.next i = sd.quiet.onDone i
    (if i.spiRXD == x then
      if sd.quiet.loopCNT == limit then late sd
      else { sd.quiet.transfer ff with loopCNT := sd.quiet.loopCNT + 1 }
    else k sd i))

include hn

theorem busy_again (h : Still env true x a v s) (hlimit : v.loopCNT ≠ limit) :
    Pending env a ff { v with loopCNT := v.loopCNT + 1 } (s.step env) := by
  have hE : s.sd.next (s.sdIn env) =
      { s.sd.quiet.transfer ff with loopCNT := s.sd.loopCNT + 1 } := by
    rw [hn _ _ h.state, Sd.onDone, show (s.sdIn env).spiDONE = true from h.isDone, if_pos rfl,
      show (s.sdIn env).spiRXD = x from h.isRx rfl, if_pos (by simp), Sd.quiet_loopCNT,
      if_neg (by simpa [h.loopCNT] using hlimit)]
  refine h.pending hE rfl rfl rfl h.state ?_
  rw [← h.view]; rfl

theorem busy_next (h : Still env true rx a v s) (hrx : rx ≠ x) :
    s.sd.next (s.sdIn env) = k s.sd (s.sdIn env) := by
  rw [hn _ _ h.state, Sd.onDone, show (s.sdIn env).spiDONE = true from h.isDone, if_pos rfl,
    show (s.sdIn env).spiRXD = rx from h.isRx rfl, if_neg (by simpa using hrx)]

/-- The same byte comes `m` times, then another. -/
theorem busy_ends (ha : Sd.takes a = true) (hcs : v.cs = false)
    (hlisten : v.card.listen = .command []) {m : Nat} {rest : List (BitVec 8)}
    (hm : m ≤ limit.toNat) :
    Comes env (Pending env a ff { v.feed (List.replicate m x ++ rest) with loopCNT := 0 })
      (Done env (rest.headD ff) a { v.feed rest.tail with loopCNT := BitVec.ofNat 16 m }) := by
  let busy (j : Nat) : View := { v with loopCNT := BitVec.ofNat 16 j }
  have hloop : Comes env (Pending env a ff ((busy 0).feed (List.replicate (m - 0) x ++ rest)))
      (Pending env a ff ((busy m).feed (List.replicate (m - m) x ++ rest))) := by
    refine Leads.loop
      (P := fun j => Pending env a ff ((busy j).feed (List.replicate (m - j) x ++ rest))) m
      fun j hj => ?_
    have hout : List.replicate (m - j) x ++ rest =
        x :: (List.replicate (m - (j + 1)) x ++ rest) := by
      rw [show m - j = m - (j + 1) + 1 by omega, List.replicate_succ]
      rfl
    rw [hout]
    refine (feed_ends (v := busy j) (Or.inl ha) hcs hlisten _).trans
      (Leads.one (fun s h => h.toStill.running (takes_running ha)) fun s h => ?_)
    have hlimit : BitVec.ofNat 16 j ≠ limit := by
      intro heq
      have := congrArg BitVec.toNat heq
      have hlt := limit.isLt
      rw [BitVec.toNat_ofNat, Nat.mod_eq_of_lt (by omega)] at this
      omega
    have := busy_again hn h.toStill hlimit
    rw [show ((busy j).feed (x :: (List.replicate (m - (j + 1)) x ++ rest)).tail).loopCNT + 1 =
      BitVec.ofNat 16 (j + 1) from (BitVec.ofNat_add _ _).symm] at this
    exact this
  rw [Nat.sub_self, List.replicate_zero, List.nil_append, Nat.sub_zero] at hloop
  exact hloop.trans (feed_ends (v := busy m) (Or.inl ha) hcs hlisten rest)

end Busy

end Xfer

end KS10
