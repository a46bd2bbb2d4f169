import KS10.Disk.Read

/-!
# A byte beside a DMA cycle

During a write check the controller starts the next byte and the DMA cycle together, and
then waits for the acknowledge only.  If the acknowledge comes before the byte ends, or
with it, the byte is the next one of the card's block; if it comes later, nobody takes the
byte, and the word that follows starts one byte late.

`Flying` follows the engine by the clocks since the byte was asked for.  This is the one
place where the times of the bytes and of the DMA cycles matter.
-/

namespace KS10

open Clocked
open Sd (ff)

namespace Xfer

variable {env : Env} {v v' : View} {l : List (BitVec 8)} {s : Xfer} {d w : Nat}

/-! ## The engine by itself -/

/-- The byte that is exchanged `w` clocks after it was asked for, when it takes the time
`d`. -/
def flight (d w : Nat) : Option (BitVec 8 × Nat) :=
  if w = 0 then none else if w ≤ d + 1 then some (ff, d + 1 - w) else none

/-- The bytes that the card has sent by then. -/
def landed (d w : Nat) : Nat := if w ≤ d + 1 then 0 else 1

/-- A byte was asked for `w` clocks ago, when the card was about to send `l`. -/
structure Flying (env : Env) (d w : Nat) (v : View) (l : List (BitVec 8)) (s : Xfer) : Prop where
  byte : s.spi.byte = flight d w
  isDone : s.spi.spiDONE = decide (w = d + 2)
  isRx : w = d + 2 → s.spi.spiRXD = l.headD ff
  view : s.view env = v.feed (l.drop (landed d w))
  cs : s.spi.spiCS = false
  listen : v.card.listen = .command []

/-- What a clock does to the view, whatever the engine does. -/
theorem view_clock (hBA : s.devACKI env = true → s.sd.sdINCBA = false) :
    (s.step env).view env =
      { (if s.devACKI env then (s.view env).acked else s.view env).after env
          (s.sd.next (s.sdIn env)) with
        cs := ((s.step env).spi.next ((s.step env).spiIn env)).spiCS
        card := (s.step env).card } := by
  cases hack : s.devACKI env with
  | true =>
      simp only [view, View.after, View.acked, step, hack, hBA hack, ba_next, wc_next, wce_next,
        Bool.true_and, Bool.false_eq_true, if_false, if_true]
  | false =>
      simp only [view, View.after, step, hack, ba_next, wc_next, wce_next, Bool.false_and,
        Bool.false_eq_true, if_false]

/-- Outside the chip select operations the chip select stays. -/
theorem next_keeps_cs {b : ByteSpi} {i : ByteSpi.In} (hop : i.spiOP = .nop ∨ i.spiOP = .tr) :
    (b.next i).spiCS = b.spiCS := by
  cases hbyte : b.byte with
  | none =>
      rw [ByteSpi.next_cs hbyte]
      rcases hop with h | h
      · rw [h]
        rfl
      · rw [h]
        rfl
  | some tx => exact ByteSpi.next_busy hbyte

/-- The controller does nothing that disturbs the engine at this clock. -/
structure LetsFly (env : Env) (d w : Nat) (v v' : View) (s : Xfer) : Prop where
  start : w = 0 → s.sd.spiOP = .tr ∧ s.sd.spiTXD = ff ∧ env.byteDelay s.bytes = d
  rest : w ≠ 0 → s.sd.spiOP = .nop
  incBA : s.devACKI env = true → s.sd.sdINCBA = false
  op : (s.sd.next (s.sdIn env)).spiOP = .nop ∨ (s.sd.next (s.sdIn env)).spiOP = .tr
  after : ∀ out, (if s.devACKI env then (v.feed out).acked else v.feed out).after env
    (s.sd.next (s.sdIn env)) = v'.feed out

section Fly

variable (h : Flying env d w v l s) (hlets : LetsFly env d w v v' s)

include h hlets

/-- The engine one clock later. -/
theorem Flying.byte_step : (s.step env).spi.byte = flight d (w + 1) ∧
    (s.step env).spi.spiDONE = decide (w + 1 = d + 2) := by
  have hspi : (s.step env).spi = s.spi.next (s.spiIn env) := rfl
  rw [hspi]
  rcases Nat.eq_zero_or_pos w with rfl | hpos
  · obtain ⟨hop, htx, hd⟩ := hlets.start rfl
    obtain ⟨hbyte, hdone⟩ := ByteSpi.next_tr (i := s.spiIn env) h.byte hop
    refine ⟨hbyte.trans ?_, hdone.trans (by simp)⟩
    simp [spiIn, flight, htx, hd]
  · have hop : (s.spiIn env).spiOP ≠ .tr := by
      rw [show (s.spiIn env).spiOP = .nop from hlets.rest (Nat.ne_of_gt hpos)]
      decide
    have hbyte := h.byte
    rw [flight, if_neg (Nat.ne_of_gt hpos)] at hbyte
    rw [flight, if_neg (Nat.succ_ne_zero w)]
    rcases Nat.lt_trichotomy w (d + 1) with hlt | heq | hgt
    · obtain ⟨n, hn⟩ : ∃ n, d + 1 - w = n + 1 := ⟨d - w, by omega⟩
      rw [if_pos (by omega), hn] at hbyte
      obtain ⟨hnext, hdone⟩ := ByteSpi.next_wait (i := s.spiIn env) hbyte
      rw [if_pos (by omega), show d + 1 - (w + 1) = n by omega]
      refine ⟨hnext, hdone.trans (h.isDone.trans ?_)⟩
      exact decide_eq_decide.mpr (by omega)
    · rw [if_pos (by omega), heq, Nat.sub_self] at hbyte
      obtain ⟨hnext, hdone, -⟩ := ByteSpi.next_last (i := s.spiIn env) hbyte
      rw [if_neg (by omega)]
      exact ⟨hnext, hdone.trans (decide_eq_true (by omega)).symm⟩
    · rw [if_neg (by omega)] at hbyte
      obtain ⟨hnext, hdone⟩ := ByteSpi.next_rest (i := s.spiIn env) hbyte hop
      rw [if_neg (by omega)]
      exact ⟨hnext, hdone.trans (decide_eq_false (by omega)).symm⟩

omit hlets in
theorem Flying.card : s.card = { v.card with out := l.drop (landed d w) } := by
  have hcard : (s.view env).card = (v.feed (l.drop (landed d w))).card := by rw [h.view]
  exact hcard

omit hlets in
/-- The card is given the byte when it ends. -/
theorem Flying.card_step :
    (s.step env).card = { v.card with out := l.drop (landed d (w + 1)) } := by
  have hcard := h.card
  have hbyte := h.byte
  rw [flight] at hbyte
  by_cases hlast : w = d + 1
  · rw [if_neg (by omega), if_pos (by omega), hlast, Nat.sub_self] at hbyte
    have hend : s.ending = some ff := by simp [ending, hbyte]
    have hcs : ¬ s.spi.spiCS = true := by
      rw [h.cs]
      exact Bool.false_ne_true
    have hstep : (s.step env).card = s.card.exchange env.timing ff := by
      simp only [step, hend, if_neg hcs]
    rw [landed, if_pos (by omega), List.drop_zero] at hcard
    rw [hstep, hcard, landed, if_neg (by omega)]
    cases l with
    | nil => simp [Card.exchange, Card.hear, h.listen, ff]
    | cons x rest => simp [Card.exchange]
  · have hend : s.ending = none := by
      by_cases hzero : w = 0
      · rw [if_pos hzero] at hbyte
        simp [ending, hbyte]
      · rw [if_neg hzero] at hbyte
        by_cases hle : w ≤ d + 1
        · obtain ⟨n, hn⟩ : ∃ n, d + 1 - w = n + 1 := ⟨d - w, by omega⟩
          rw [if_pos hle, hn] at hbyte
          simp [ending, hbyte]
        · rw [if_neg hle] at hbyte
          simp [ending, hbyte]
    have hstep : (s.step env).card = s.card := by simp only [step, hend]
    have hsame : landed d (w + 1) = landed d w := by
      unfold landed
      split
      · rw [if_pos (by omega)]
      · rw [if_neg (by omega)]
    rw [hstep, hcard, hsame]

omit hlets in
theorem Flying.rx_step (hlast : w + 1 = d + 2) : (s.step env).spi.spiRXD = l.headD ff := by
  have hbyte := h.byte
  rw [flight, if_neg (by omega), if_pos (by omega), show d + 1 - w = 0 by omega] at hbyte
  obtain ⟨-, -, hrx⟩ := ByteSpi.next_last (i := s.spiIn env) hbyte
  have hcard := h.card
  rw [landed, if_pos (by omega), List.drop_zero] at hcard
  have hreply : (s.spiIn env).reply = s.card.reply := by
    change (if s.spi.spiCS then ff else s.card.reply) = _
    rw [h.cs]
    rfl
  exact hrx.trans (by rw [hreply, hcard]; rfl)

theorem Flying.cs_step : (s.step env).spi.spiCS = false := by
  have hop : (s.spiIn env).spiOP = .nop ∨ (s.spiIn env).spiOP = .tr := by
    rcases Nat.eq_zero_or_pos w with hzero | hpos
    · exact Or.inr (hlets.start hzero).1
    · exact Or.inl (hlets.rest (Nat.ne_of_gt hpos))
  exact (next_keeps_cs hop).trans h.cs

omit h in
theorem LetsFly.card (out : List (BitVec 8)) :
    { v'.card with out := out } = { v.card with out := out } := by
  have hcard := congrArg View.card (hlets.after out)
  refine Eq.trans hcard.symm ?_
  cases s.devACKI env with
  | true => rfl
  | false => rfl

theorem Flying.view_cs : v'.cs = false := by
  have hv : v.cs = false := by
    have hop : (s.spiIn env).spiOP = .nop ∨ (s.spiIn env).spiOP = .tr := by
      rcases Nat.eq_zero_or_pos w with hzero | hpos
      · exact Or.inr (hlets.start hzero).1
      · exact Or.inl (hlets.rest (Nat.ne_of_gt hpos))
    have hcs : (s.view env).cs = v.cs := by
      rw [h.view]
      rfl
    rw [← hcs]
    exact (next_keeps_cs hop).trans h.cs
  have hselect : v'.cs = (s.sd.next (s.sdIn env)).spiOP.select v.cs := by
    refine (congrArg View.cs (hlets.after [])).symm.trans ?_
    cases s.devACKI env with
    | true => rfl
    | false => rfl
  rw [hselect, hv]
  rcases hlets.op with hop | hop
  · rw [hop]
    rfl
  · rw [hop]
    rfl

/-- The byte goes on while the controller does something else. -/
theorem Flying.next : Flying env d (w + 1) v' l (s.step env) where
  byte := (h.byte_step hlets).1
  isDone := (h.byte_step hlets).2
  isRx := h.rx_step
  cs := h.cs_step hlets
  listen := (congrArg Card.listen (hlets.card [])).trans h.listen
  view := by
    have hcs : ((s.step env).spi.next ((s.step env).spiIn env)).spiCS = v'.cs := by
      have hop : ((s.step env).spiIn env).spiOP = .nop ∨ ((s.step env).spiIn env).spiOP = .tr :=
        hlets.op
      rw [next_keeps_cs hop, h.cs_step hlets, h.view_cs hlets]
    rw [view_clock hlets.incBA, h.view, hlets.after, hcs, h.card_step, ← hlets.card]
    rfl

end Fly

/-! ## The DMA cycle beside it -/

/-- The byte was asked for together with a DMA cycle, `w` clocks ago. -/
structure Racing (env : Env) (d w : Nat) (v : View) (l : List (BitVec 8)) (s : Xfer) : Prop
    extends Flying env d w v l s where
  state : s.sd.state = .wrchk12
  req : s.sd.devREQO = true
  waited : s.waited = w
  inTime : w ≤ env.ackDelay v.cycles
  op : s.sd.spiOP = if w = 0 then .tr else .nop
  txd : s.sd.spiTXD = ff
  incBA : s.sd.sdINCBA = false
  incWC : s.sd.sdINCWC = false

/-- The word is compared with the one in memory. -/
def View.compared (env : Env) (v : View) : View :=
  { v with
    wce := if v.tempDATA != store env.mem v.writes v.ba.word then true else v.wce
    cycles := v.cycles + 1 }

/-- The DMA cycle has ended, and `w` clocks ago the byte was asked for; the controller is
about to do `op`. -/
structure Landing (env : Env) (d w : Nat) (st : Sd.State) (op : SpiOp) (v : View)
    (l : List (BitVec 8)) (s : Xfer) : Prop extends Flying env d w v l s where
  state : s.sd.state = st
  req : s.sd.devREQO = false
  waited : s.waited = 0
  op : s.sd.spiOP = op
  txd : s.sd.spiTXD = ff

theorem view_feed (h : Flying env d w v l s) (out : List (BitVec 8)) :
    v.feed out = (s.view env).feed out := by
  rw [h.view]
  rfl

section Race

variable {rx : BitVec 8}

/-- The byte and the DMA cycle are asked for. -/
theorem race_begins (h : Done env rx .wrchk11 (v.feed l) s) (hwc : v.wc ≠ 0) (hcs : v.cs = false)
    (hlisten : v.card.listen = .command []) : Racing env d 0 v l (s.step env) := by
  have hE : s.sd.next (s.sdIn env) =
      { s.sd.quiet.transfer ff with devREQO := true, state := .wrchk12 } := by
    have hzero : ¬ ((s.sdIn env).rhWC == 0) = true := by
      rw [show (s.sdIn env).rhWC = v.wc from h.wc]
      simpa using hwc
    simp only [Sd.next, h.state, Sd.onDone]
    rw [show (s.sdIn env).spiDONE = true from h.isDone, if_pos rfl, if_neg hzero]
  have hrest := ByteSpi.next_rest (i := s.spiIn env) h.byte h.op
  have hview : (s.step env).view env = v.feed l := by
    rw [h.toStill.after hE, ← h.view]
    rfl
  have hcs' : (s.step env).spi.spiCS = false := by
    have hsame : (s.view env).cs = (v.feed l).cs := by rw [h.view]
    exact hsame.trans hcs
  refine ⟨⟨hrest.1, hrest.2.trans (decide_eq_false (by omega)).symm, fun h0 => by omega, ?_, hcs',
    hlisten⟩, ?_, ?_, ?_, Nat.zero_le _, ?_, ?_, ?_, ?_⟩
  · rw [hview, landed, if_pos (by omega), List.drop_zero]
  · rw [step, hE]
  · rw [step, hE]
  · simp only [step, h.toStill.noAck, h.req, h.waited, Bool.false_eq_true, if_false]
  · rw [step, hE]
    rfl
  · rw [step, hE]
    rfl
  · rw [step, hE]
    rfl
  · rw [step, hE]
    rfl

theorem Racing.ack_iff (h : Racing env d w v l s) :
    s.devACKI env = decide (w = env.ackDelay v.cycles) := by
  have hcycles : s.cycles = v.cycles := by
    have hsame : (s.view env).cycles = (v.feed (l.drop (landed d w))).cycles := by rw [h.view]
    exact hsame
  rw [devACKI, h.req, h.waited, hcycles, Bool.true_and, beq_eq_decide]

/-- The clocks at which the engine takes the byte, or has nothing to do. -/
theorem Racing.start (h : Racing env d w v l s) (hd : ∀ n, env.byteDelay n = d) :
    (w = 0 → s.sd.spiOP = .tr ∧ s.sd.spiTXD = ff ∧ env.byteDelay s.bytes = d) ∧
      (w ≠ 0 → s.sd.spiOP = .nop) := by
  have hop := h.op
  constructor
  · intro hzero
    rw [if_pos hzero] at hop
    exact ⟨hop, h.txd, hd _⟩
  · intro hpos
    rwa [if_neg hpos] at hop

/-- Without an acknowledge both go on. -/
theorem Racing.waits (h : Racing env d w v l s) (hd : ∀ n, env.byteDelay n = d)
    (hlt : w < env.ackDelay v.cycles) : Racing env d (w + 1) v l (s.step env) := by
  have hack : s.devACKI env = false := h.ack_iff.trans (decide_eq_false (Nat.ne_of_lt hlt))
  have hE : s.sd.next (s.sdIn env) = { s.sd.quiet with devREQO := true } := by
    simp only [Sd.next, h.state, Sd.onAck]
    rw [show (s.sdIn env).devACKI = false from hack]
    rfl
  have hlets : LetsFly env d w v v s := by
    refine ⟨(h.start hd).1, (h.start hd).2, fun _ => h.incBA, ?_, fun out => ?_⟩
    · rw [hE]
      exact Or.inl rfl
    · rw [hack, if_neg Bool.false_ne_true, hE, view_feed h.toFlying]
      rfl
  refine ⟨h.toFlying.next hlets, ?_, ?_, ?_, hlt, ?_, ?_, ?_, ?_⟩
  · rw [step, hE]
    exact h.state
  · rw [step, hE]
  · simp only [step, hack, h.req, h.waited, Bool.false_eq_true, if_false, if_true]
  · rw [step, hE]
    rfl
  · rw [step, hE]
    exact h.txd
  · rw [step, hE]
    rfl
  · rw [step, hE]
    rfl

/-- With the acknowledge the words are compared, and the byte goes on. -/
theorem Racing.lands (h : Racing env d w v l s) (hd : ∀ n, env.byteDelay n = d)
    (hack : w = env.ackDelay v.cycles) (hreadop : v.sdREADOP = false) :
    Landing env d (w + 1) .wrchk13 .nop (v.compared env) l (s.step env) ∧
      (s.step env).sd.sdINCBA = false ∧ (s.step env).sd.sdINCWC = false := by
  have hack' : s.devACKI env = true := h.ack_iff.trans (decide_eq_true hack)
  have hba : s.ba = v.ba := by
    have hsame : (s.view env).ba = (v.feed (l.drop (landed d w))).ba := by rw [h.view]
    rw [view, h.incBA] at hsame
    exact hsame
  have hwrites : s.writes = v.writes := by
    have hsame : (s.view env).writes = (v.feed (l.drop (landed d w))).writes := by rw [h.view]
    exact hsame
  have htemp : s.sd.tempDATA = v.tempDATA := by
    have hsame : (s.view env).tempDATA = (v.feed (l.drop (landed d w))).tempDATA := by rw [h.view]
    exact hsame
  have hE : s.sd.next (s.sdIn env) =
      { s.sd.quiet with
        sdSETWCE := v.tempDATA != store env.mem v.writes v.ba.word
        state := .wrchk13 } := by
    have hmem : (s.sdIn env).devDATAI = store env.mem v.writes v.ba.word := by
      rw [← hwrites, ← hba]
      rfl
    simp only [Sd.next, h.state, Sd.onAck]
    rw [show (s.sdIn env).devACKI = true from hack', if_pos rfl, hmem, ← htemp]
    rfl
  have hlets : LetsFly env d w v (v.compared env) s := by
    refine ⟨(h.start hd).1, (h.start hd).2, fun _ => h.incBA, ?_, fun out => ?_⟩
    · rw [hE]
      exact Or.inl rfl
    · have hacked : (v.feed out).acked =
          { v.feed out with cycles := (v.feed out).cycles + 1 } := by
        rw [View.acked, if_neg (by rw [show (v.feed out).sdREADOP = false from hreadop]; decide)]
      have hcompared : (v.compared env).feed out =
          { v.feed out with
            wce := if v.tempDATA != store env.mem v.writes v.ba.word then true
              else (v.feed out).wce
            cycles := (v.feed out).cycles + 1 } := rfl
      rw [hack', if_pos rfl, hE, hacked, hcompared]
      generalize (v.tempDATA != store env.mem v.writes v.ba.word) = x
      rw [view_feed h.toFlying]
      rfl
  refine ⟨⟨h.toFlying.next hlets, ?_, ?_, ?_, ?_, ?_⟩, ?_, ?_⟩
  · rw [step, hE]
  · rw [step, hE]
    rfl
  · simp only [step, hack', if_true]
  · rw [step, hE]
    rfl
  · rw [step, hE]
    exact h.txd
  · rw [step, hE]
    rfl
  · rw [step, hE]
    rfl

end Race

/-! ## The first byte of what follows -/

section Land

variable {k : BitVec 16} {b c : Sd.State} {g : BitVec 36 → BitVec 8 → BitVec 36}

/-- The word is counted and the next byte is asked for, whether or not the last one has
ended. -/
theorem Landing.counts (h : Landing env d w .wrchk13 .nop v l s) (hpos : w ≠ 0)
    (hBA : s.sd.sdINCBA = false) (hWC : s.sd.sdINCWC = false)
    (hn : ∀ (sd : Sd) (i : Sd.In), sd.state = .wrchk13 → sd.loopCNT = v.loopCNT →
      sd.next i = { (sd.quiet.count i).transfer ff with loopCNT := k, state := b }) :
    Landing env d (w + 1) b .tr { v.counted env with loopCNT := k } l (s.step env) := by
  have hloop : s.sd.loopCNT = v.loopCNT := by
    have hsame : (s.view env).loopCNT = (v.feed (l.drop (landed d w))).loopCNT := by rw [h.view]
    exact hsame
  have hwc : (s.sdIn env).rhWC = v.wc := by
    have hsame : (s.view env).wc = (v.feed (l.drop (landed d w))).wc := by rw [h.view]
    rw [view, hWC] at hsame
    exact hsame
  have hack : s.devACKI env = false := by
    rw [devACKI, h.req]
    rfl
  have hE : s.sd.next (s.sdIn env) =
      { ({ s.sd.quiet with sdINCBA := true, sdINCWC := v.wc != 0 } : Sd).transfer ff with
        loopCNT := k
        state := b } := by
    rw [hn _ _ h.state hloop, Sd.count, hwc]
  have hlets : LetsFly env d w v { v.counted env with loopCNT := k } s := by
    refine ⟨fun hzero => absurd hzero hpos, fun _ => h.op, fun _ => hBA, ?_, fun out => ?_⟩
    · rw [hE]
      exact Or.inr rfl
    · have hcounted : ({ v.counted env with loopCNT := k } : View).feed out =
          { v.feed out with
            loopCNT := k
            ba := (v.feed out).ba.up env.rhBAI
            wc := if v.wc != 0 then (v.feed out).wc + 2 else (v.feed out).wc } := rfl
      rw [hack, if_neg Bool.false_ne_true, hE, hcounted]
      generalize (v.wc != 0) = x
      rw [view_feed h.toFlying]
      rfl
  refine ⟨h.toFlying.next hlets, ?_, ?_, ?_, ?_, ?_⟩
  · rw [step, hE]
  · rw [step, hE]
    rfl
  · simp only [step, hack, h.req, h.waited, Bool.false_eq_true, if_false]
  · rw [step, hE]
    rfl
  · rw [step, hE]
    rfl

/-- A byte that ends as the next one begins is taken. -/
theorem Landing.takes (h : Landing env d (d + 2) b .tr v l s) (hcs : v.cs = false)
    (hn : ∀ (sd : Sd) (i : Sd.In), sd.state = b → sd.next i =
      sd.quiet.receive i c fun s => { s with tempDATA := g s.tempDATA i.spiRXD }) :
    Pending env c ff ((v.put (g v.tempDATA (l.headD ff))).feed (l.drop 1)) (s.step env) := by
  have hview := h.view
  rw [landed, if_neg (by omega)] at hview
  have hbyte : s.spi.byte = none := by
    rw [h.byte, flight, if_neg (by omega), if_neg (by omega)]
  have hdone : s.spi.spiDONE = true := h.isDone.trans (decide_eq_true rfl)
  have hack : s.devACKI env = false := by
    rw [devACKI, h.req]
    rfl
  have htemp : s.sd.tempDATA = v.tempDATA := by
    have hsame : (s.view env).tempDATA = (v.feed (l.drop 1)).tempDATA := by rw [hview]
    exact hsame
  have hE : s.sd.next (s.sdIn env) =
      { s.sd.quiet.transfer ff with tempDATA := g v.tempDATA (l.headD ff), state := c } := by
    have hsd := hn s.sd (s.sdIn env) h.state
    rw [Sd.receive, Sd.onDone, show (s.sdIn env).spiDONE = true from hdone, if_pos rfl,
      show (s.sdIn env).spiRXD = l.headD ff from h.isRx rfl] at hsd
    rw [hsd, ← htemp]
    rfl
  obtain ⟨htr, hnone⟩ := ByteSpi.next_tr (i := s.spiIn env) hbyte h.op
  rw [show (s.spiIn env).spiTXD = ff from h.txd] at htr
  have hend : s.ending = none := by simp [ending, hbyte]
  have hcard : (s.step env).card = s.card := by simp only [step, hend]
  have hcs' : ((s.step env).spi.next ((s.step env).spiIn env)).spiCS = v.cs := by
    have hop : ((s.step env).spiIn env).spiOP = .nop ∨ ((s.step env).spiIn env).spiOP = .tr := by
      refine Or.inr ?_
      change (s.step env).sd.spiOP = .tr
      rw [step, hE]
      rfl
    have hkeep : (s.step env).spi.spiCS = s.spi.spiCS := next_keeps_cs (Or.inr h.op)
    rw [next_keeps_cs hop, hkeep, h.cs, hcs]
  refine ⟨?_, Or.inr ⟨_, htr⟩, ?_, ?_, hnone, ?_⟩
  · rw [step, hE]
  · rw [step, hE]
    rfl
  · simp only [step, hack, h.req, h.waited, Bool.false_eq_true, if_false]
  · rw [view_clock (fun hyes => absurd (hack.symm.trans hyes) Bool.false_ne_true), hack,
      if_neg Bool.false_ne_true, hE, hcs', hcard]
    have hput : (v.put (g v.tempDATA (l.headD ff))).feed (l.drop 1) =
        { v.feed (l.drop 1) with tempDATA := g v.tempDATA (l.headD ff), cs := v.cs } := rfl
    rw [hput, ← hview]
    generalize g v.tempDATA (l.headD ff) = x
    rfl

/-- The bytes that are lost when the acknowledge takes `a` clocks. -/
def slip (d a : Nat) : Nat := if a ≤ d then 0 else 1

/-- The state `b` takes the byte that is under way, or the one after it. -/
theorem Landing.taken {a : Nat} (hb : Sd.takes b = true) (hcs : v.cs = false)
    (hn : ∀ (sd : Sd) (i : Sd.In), sd.state = b → sd.next i =
      sd.quiet.receive i c fun s => { s with tempDATA := g s.tempDATA i.spiRXD }) :
    Comes env (Landing env d (a + 2) b .tr v l)
      (Pending env c ff ((v.put (g v.tempDATA (l.getD (slip d a) ff))).feed
        (l.drop (slip d a + 1)))) := by
  intro s h
  have hnext (i : Nat) : Comes env (Pending env b ff ((v.put v.tempDATA).feed (l.drop i))) _ :=
    receives g hb hn hcs h.listen
  have hbyte := h.byte
  have hview := h.view
  rw [flight, if_neg (by omega)] at hbyte
  rcases Nat.lt_trichotomy a d with hlt | heq | hgt
  · -- The byte is under way.
    rw [landed, if_pos (by omega)] at hview
    rw [if_pos (by omega)] at hbyte
    rw [slip, if_pos (by omega)]
    exact hnext 0 s ⟨h.state, Or.inr ⟨_, hbyte⟩, h.req, h.waited,
      h.isDone.trans (decide_eq_false (by omega)), hview⟩
  · -- The byte has just ended, and the next one begins.
    subst heq
    rw [slip, if_pos (Nat.le_refl a), ← headD_drop]
    exact Leads.one (fun s h => fun hdone => takes_running hb (h.state.symm.trans hdone))
      (fun s h => h.takes hcs hn) s h
  · -- The byte has been lost.
    rw [landed, if_neg (by omega)] at hview
    rw [if_neg (by omega)] at hbyte
    rw [slip, if_neg (by omega)]
    exact hnext 1 s ⟨h.state, Or.inl ⟨hbyte, h.op, h.txd⟩, h.req, h.waited,
      h.isDone.trans (decide_eq_false (by omega)), hview⟩

/-- The view after a word is compared and counted. -/
def View.checked (env : Env) (v : View) (k : BitVec 16) : View :=
  { (v.compared env).counted env with loopCNT := k }

/-- The word is compared, and the first byte of what follows is taken. -/
theorem overlaps {rx : BitVec 8} (hd : ∀ n, env.byteDelay n = d) (hwc : v.wc ≠ 0)
    (hreadop : v.sdREADOP = false) (hcs : v.cs = false) (hlisten : v.card.listen = .command [])
    (hcount : ∀ (sd : Sd) (i : Sd.In), sd.state = .wrchk13 → sd.loopCNT = v.loopCNT →
      sd.next i = { (sd.quiet.count i).transfer ff with loopCNT := k, state := b })
    (hb : Sd.takes b = true)
    (hn : ∀ (sd : Sd) (i : Sd.In), sd.state = b → sd.next i =
      sd.quiet.receive i c fun s => { s with tempDATA := g s.tempDATA i.spiRXD }) :
    Comes env (Done env rx .wrchk11 (v.feed l))
      (Pending env c ff
        (((v.checked env k).put (g v.tempDATA (l.getD (slip d (env.ackDelay v.cycles)) ff))).feed
          (l.drop (slip d (env.ackDelay v.cycles) + 1)))) := by
  have hbegin : Comes env (Done env rx .wrchk11 (v.feed l)) (Racing env d 0 v l) :=
    Leads.one (fun s h => h.toStill.running (by decide))
      fun s h => race_begins h hwc hcs hlisten
  have hrunning {w : Nat} {s : Xfer} (h : Racing env d w v l s) : Running s := by
    intro hdone
    rw [h.state] at hdone
    cases hdone
  have hwait : Comes env (Racing env d 0 v l) (Racing env d (env.ackDelay v.cycles) v l) :=
    Leads.loop (P := fun w => Racing env d w v l) (env.ackDelay v.cycles) fun w hw =>
      Leads.one (fun s h => hrunning h) fun s h => h.waits hd hw
  have hland : Comes env (Racing env d (env.ackDelay v.cycles) v l)
      (fun s => Landing env d (env.ackDelay v.cycles + 1) .wrchk13 .nop (v.compared env) l s ∧
        s.sd.sdINCBA = false ∧ s.sd.sdINCWC = false) :=
    Leads.one (fun s h => hrunning h) fun s h => h.lands hd rfl hreadop
  have hcounts : Comes env
      (fun s => Landing env d (env.ackDelay v.cycles + 1) .wrchk13 .nop (v.compared env) l s ∧
        s.sd.sdINCBA = false ∧ s.sd.sdINCWC = false)
      (Landing env d (env.ackDelay v.cycles + 2) b .tr (v.checked env k) l) := by
    refine Leads.one (fun s ⟨h, _⟩ => fun hdone => ?_) fun s ⟨h, hBA, hWC⟩ =>
      h.counts (Nat.succ_ne_zero _) hBA hWC hcount
    rw [h.state] at hdone
    cases hdone
  exact (((hbegin.trans hwait).trans hland).trans hcounts).trans
    (Landing.taken (v := v.checked env k) hb hcs hn)

end Land

end Xfer

end KS10
