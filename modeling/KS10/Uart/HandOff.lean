import KS10.Clocked.Run
import KS10.Uart.Receiver

/-!
# The hand-over of received characters

A received character stands at the outputs of the receiver until its consumer takes it, by a
pulse that resets the full flag.  A character that is not taken when the next one completes is
lost, and the overrun output of the next one is to say so (`UartMail`).

The outputs are the registers that receive the next character.  They are cleared when its
start bit is accepted, with the full flag still set (`UartHandOff.handOff_fails`), and the
overrun register is never loaded with a one (`UartHandOff.ovre_run`).  The reset of the full
flag is tested before the end of a frame.  So the receiver keeps its promises
(`UartHandOff.handOff_run`) as far as its consumer is fast: each character is to be taken
before the start bit of the next one is accepted, and no pulse is to come in the clock in which
a frame completes.
-/

namespace KS10

open Clocked Uart

/-- The receiver with the characters that its consumer has taken since the last clear. -/
structure UartHandOff where
  rx : UartRx
  got : List UartRx.Taken

/-- The mailbox that the receiver is to be: the character that waits for the consumer, and
the frames that have completed since the last clear. -/
structure UartMail where
  pending : Option UartRx.Taken
  completed : List UartRx.Taken

namespace UartHandOff

/-- The inputs of one clock.  The format may change. -/
structure In where
  cfg : UartCfg
  rx : UartRx.In

def clears (i : In) : Bool := i.rx.rst || i.rx.clr

/-- One clock.  The consumer takes what stands at the outputs. -/
def next (x : UartHandOff) (i : In) : UartHandOff where
  rx := x.rx.next i.cfg i.rx
  got :=
    if clears i then []
    else if i.rx.rfull && x.rx.full then x.got ++ [x.rx.taken]
    else x.got

/-- The receiver after a reset. -/
def reset : UartHandOff where
  rx :=
    { temp := true, din := true, state := .idle, brdiv := 0
      taken := ⟨0, false, false, false⟩, full := false }
  got := []

/-! ## The mailbox -/

/-- The frame that completes, marked if the last one has not been taken. -/
def frame (m : UartMail) (x : UartHandOff) (i : In) : UartRx.Taken :=
  { x.rx.taken with ovre := !i.rx.rfull && m.pending.isSome }

def move (m : UartMail) (x : UartHandOff) (i : In) : UartMail where
  pending :=
    if clears i then none
    else if x.rx.state = .done then some (frame m x i)
    else if i.rx.rfull then none
    else m.pending
  completed :=
    if clears i then []
    else if x.rx.state = .done then m.completed ++ [frame m x i]
    else m.completed

def empty : UartMail := ⟨none, []⟩

/-- The frames without those that are reported lost by the overrun of the next one. -/
def kept : List UartRx.Taken → List UartRx.Taken
  | [] => []
  | c :: cs => if (cs.head?.map (·.ovre)).getD false then kept cs else c :: kept cs

/-- While a character waits, the full flag is set and the outputs are its own.  Each frame
that has completed has been taken once, waits, or is reported lost. -/
structure HandsOff (x : UartHandOff) (m : UartMail) : Prop where
  full : x.rx.full = m.pending.isSome
  outputs : ∀ p, m.pending = some p → x.rx.taken = p
  every : x.got ++ m.pending.toList = kept m.completed

theorem kept_concat {cs : List UartRx.Taken} {c : UartRx.Taken} (h : c.ovre = false) :
    kept (cs ++ [c]) = kept cs ++ [c] := by
  induction cs with
  | nil => rfl
  | cons d cs ih =>
      rw [List.cons_append, kept, kept, ih]
      cases cs with
      | nil =>
          rw [List.nil_append, List.head?_cons, Option.map_some, Option.getD_some, h]
          rfl
      | cons e cs =>
          rw [List.cons_append, List.head?_cons, List.head?_cons]
          split <;> rfl

/-! ## The receiver -/

/-- The receiver is past the start bit. -/
def receiving : UartRx.State → Bool
  | .idle => false
  | .take s => s != .start
  | .wait => true
  | .done => true

/-- The start bit is accepted, and the registers are cleared for the next character. -/
def accepts (s : UartRx) (clken : Bool) : Bool :=
  s.state == .take .start && clken && s.brdiv == 0 && !s.din

/-- A start bit is accepted while a character waits and is not being taken. -/
def restarts (x : UartHandOff) (i : In) : Bool :=
  !clears i && accepts x.rx i.rx.clken && x.rx.full && !i.rx.rfull

/-- A frame completes in the clock of a pulse. -/
def misses (x : UartHandOff) (i : In) : Bool :=
  !clears i && x.rx.state == .done && i.rx.rfull

/-- What every clock keeps in which nothing goes wrong. -/
structure Clean (x : UartHandOff) (m : UartMail) : Prop where
  handsOff : x.HandsOff m
  /-- A receiver that is past the start bit has handed over the last character. -/
  phase : receiving x.rx.state = true → x.rx.full = false
  ovre : x.rx.taken.ovre = false

variable {s : UartRx} {x : UartHandOff} {m : UartMail} {i : In} {c : UartCfg}

theorem sample_ovre (c : UartCfg) (b : Sym) (din : Bool) {r : UartRx.Taken} (h : r.ovre = false) :
    (UartRx.sample c b din r).ovre = false := by
  cases b with
  | start => rfl
  | bit k => exact h
  | parity => exact h
  | stop1 => exact h
  | stop2 => exact h

theorem step_ovre (h : s.taken.ovre = false) (c : UartCfg) (clken : Bool) :
    (s.step c clken).taken.ovre = false := by
  unfold UartRx.step
  cases s.state with
  | idle =>
      dsimp only
      split <;> exact h
  | take b =>
      dsimp only
      split_ifs
      · exact h
      · exact sample_ovre c b s.din h
      · exact h
      · exact h
  | wait =>
      dsimp only
      split_ifs <;> exact h
  | done => exact h

/-- Before a start bit is accepted the outputs do not change. -/
theorem step_of_not_receiving (hphase : receiving s.state = false) {clken : Bool}
    (haccepts : accepts s clken = false) :
    (s.step c clken).taken = s.taken ∧ receiving (s.step c clken).state = false := by
  unfold UartRx.step
  cases hstate : s.state with
  | idle =>
      dsimp only
      split
      · exact ⟨rfl, rfl⟩
      · exact ⟨rfl, hphase⟩
  | take b =>
      rw [hstate] at hphase
      have hstart : b = .start := by
        unfold receiving at hphase
        exact bne_eq_false_iff_eq.mp hphase
      subst hstart
      have hphase' : receiving s.state = false := by rw [hstate]; rfl
      dsimp only
      cases clken with
      | false => exact ⟨rfl, hphase'⟩
      | true =>
          cases hdin : s.din with
          | true => exact ⟨rfl, rfl⟩
          | false =>
              have hbrdiv : s.brdiv ≠ 0 := by
                intro hzero
                unfold accepts at haccepts
                rw [hstate, hzero, hdin] at haccepts
                cases haccepts
              rw [if_pos rfl, if_neg (fun h => Bool.false_ne_true h.2), if_neg hbrdiv]
              exact ⟨rfl, rfl⟩
  | wait =>
      rw [hstate] at hphase
      cases hphase
  | done =>
      rw [hstate] at hphase
      cases hphase

theorem rx_next (hclear : clears i = false) :
    (x.next i).rx.state = (x.rx.step i.cfg i.rx.clken).state ∧
    (x.next i).rx.taken = (x.rx.step i.cfg i.rx.clken).taken ∧
    (x.next i).rx.full =
      if i.rx.rfull then false else if x.rx.state = .done then true else x.rx.full := by
  have hrst : i.rx.rst = false := (Bool.or_eq_false_iff.mp hclear).1
  have hclr : i.rx.clr = false := (Bool.or_eq_false_iff.mp hclear).2
  refine ⟨UartRx.next_state hrst hclr, UartRx.next_taken hrst hclr, ?_⟩
  change x.rx.nextFull i.rx = _
  unfold UartRx.nextFull
  rw [hrst, hclr, Bool.or_false, if_neg Bool.false_ne_true]

/-! ## One clock -/

theorem clean_of_clears (hclear : clears i = true) : (x.next i).Clean (move m x i) := by
  have hrx : (i.rx.rst || i.rx.clr) = true := hclear
  have hfull : (x.next i).rx.full = false := by
    change x.rx.nextFull i.rx = false
    unfold UartRx.nextFull
    rw [Bool.or_eq_true] at hrx
    rcases hrx with hrst | hclr
    · rw [hrst, if_pos rfl]
    · rw [hclr, Bool.or_true, if_pos rfl, ite_self]
  have hstate : (x.next i).rx.state = .idle := by
    change (x.rx.next i.cfg i.rx).state = _
    unfold UartRx.next
    rw [hrx, if_pos rfl]
  have htaken : (x.next i).rx.taken = ⟨0, false, false, false⟩ := by
    change (x.rx.next i.cfg i.rx).taken = _
    unfold UartRx.next
    rw [hrx, if_pos rfl]
  have hmove : move m x i = empty := by
    unfold move
    rw [hclear, if_pos rfl, if_pos rfl]
    rfl
  have hgot : (x.next i).got = [] := by
    unfold next
    rw [hclear, if_pos rfl]
  rw [hmove]
  refine ⟨⟨hfull, fun p hp => (nomatch hp), ?_⟩, fun _ => hfull, ?_⟩
  · rw [hgot]
    rfl
  · rw [htaken]

theorem got_of_not_takes (hclear : clears i = false) (h : (i.rx.rfull && x.rx.full) = false) :
    (x.next i).got = x.got := by
  unfold next
  rw [hclear, h]
  rfl

/-- A character waits: it is taken, or it stays. -/
theorem Clean.next_of_full (h : x.Clean m) (hclear : clears i = false) (hfull : x.rx.full = true)
    (hrestarts : x.restarts i = false) : (x.next i).Clean (move m x i) := by
  obtain ⟨hstate, htaken, hfull'⟩ := rx_next (x := x) hclear
  have hphase : receiving x.rx.state = false := by
    cases hrec : receiving x.rx.state with
    | false => rfl
    | true => exact absurd (h.phase hrec) (by rw [hfull]; exact Bool.false_ne_true.symm)
  have hdone : x.rx.state ≠ .done := by
    intro hdone
    rw [hdone] at hphase
    cases hphase
  have hovre := step_ovre h.ovre i.cfg i.rx.clken
  rw [← htaken] at hovre
  rw [if_neg hdone] at hfull'
  have hpending : m.pending = some x.rx.taken := by
    have hsome := h.handsOff.full
    rw [hfull] at hsome
    obtain ⟨p, hp⟩ := Option.isSome_iff_exists.mp hsome.symm
    rw [hp, h.handsOff.outputs p hp]
  have hmove : move m x i = ⟨if i.rx.rfull then none else m.pending, m.completed⟩ := by
    unfold move
    rw [hclear, if_neg Bool.false_ne_true, if_neg Bool.false_ne_true, if_neg hdone, if_neg hdone]
  have hevery := h.handsOff.every
  rw [hmove]
  cases hrfull : i.rx.rfull with
  | true =>
      rw [hrfull, if_pos rfl] at hfull'
      rw [if_pos rfl]
      refine ⟨⟨hfull', fun p hp => (nomatch hp), ?_⟩, fun _ => hfull', hovre⟩
      have hgot : (x.next i).got = x.got ++ [x.rx.taken] := by
        unfold next
        rw [hclear, hrfull, hfull]
        rfl
      rw [hpending] at hevery
      rw [hgot, ← hevery]
      exact List.append_nil _
  | false =>
      rw [hrfull, if_neg Bool.false_ne_true, hfull] at hfull'
      rw [if_neg Bool.false_ne_true]
      have haccepts : accepts x.rx i.rx.clken = false := by
        unfold restarts at hrestarts
        rw [hclear, hfull, hrfull] at hrestarts
        simpa using hrestarts
      obtain ⟨hstays, hphase'⟩ := step_of_not_receiving (c := i.cfg) hphase haccepts
      rw [← htaken] at hstays
      rw [← hstate] at hphase'
      refine ⟨⟨?_, fun p hp => ?_, ?_⟩, fun hrec => ?_, hovre⟩
      · rw [hfull', hpending]
        rfl
      · rw [hstays]
        exact h.handsOff.outputs p hp
      · rw [got_of_not_takes hclear (by rw [hrfull]; rfl)]
        exact hevery
      · rw [hphase'] at hrec
        cases hrec

/-- No character waits: a frame completes, or nothing does. -/
theorem Clean.next_of_not_full (h : x.Clean m) (hclear : clears i = false)
    (hfull : x.rx.full = false) (hmisses : x.misses i = false) :
    (x.next i).Clean (move m x i) := by
  obtain ⟨hstate, htaken, hfull'⟩ := rx_next (x := x) hclear
  have hovre := step_ovre h.ovre i.cfg i.rx.clken
  rw [← htaken] at hovre
  have hpending : m.pending = none := by
    have hnone := h.handsOff.full
    rw [hfull] at hnone
    exact Option.not_isSome_iff_eq_none.mp (by rw [← hnone]; exact Bool.false_ne_true)
  have hgot : (x.next i).got = x.got :=
    got_of_not_takes hclear (by rw [hfull, Bool.and_false])
  have hevery := h.handsOff.every
  rw [hpending, Option.toList_none, List.append_nil] at hevery
  by_cases hdone : x.rx.state = .done
  · have hrfull : i.rx.rfull = false := by
      unfold misses at hmisses
      rw [hclear, hdone] at hmisses
      simpa using hmisses
    have hframe : frame m x i = x.rx.taken := by
      unfold frame
      rw [hpending, Option.isSome_none, Bool.and_false, ← h.ovre]
    have hmove : move m x i = ⟨some x.rx.taken, m.completed ++ [x.rx.taken]⟩ := by
      unfold move
      rw [hclear, if_neg Bool.false_ne_true, if_neg Bool.false_ne_true, if_pos hdone,
        if_pos hdone, hframe]
    have hidle : x.rx.step i.cfg i.rx.clken = { x.rx with state := .idle } := by
      unfold UartRx.step
      rw [hdone]
    rw [hidle] at hstate htaken
    rw [hrfull, if_neg Bool.false_ne_true, if_pos hdone] at hfull'
    rw [hmove]
    refine ⟨⟨hfull', fun p hp => ?_, ?_⟩, fun hrec => ?_, hovre⟩
    · rw [htaken]
      exact Option.some.inj hp
    · rw [hgot, hevery, kept_concat h.ovre]
      rfl
    · rw [hstate] at hrec
      cases hrec
  · have hmove : move m x i = ⟨none, m.completed⟩ := by
      unfold move
      rw [hclear, if_neg Bool.false_ne_true, if_neg Bool.false_ne_true, if_neg hdone,
        if_neg hdone, hpending, ite_self]
    rw [if_neg hdone, hfull, ite_self] at hfull'
    rw [hmove]
    refine ⟨⟨hfull', fun p hp => (nomatch hp), ?_⟩, fun _ => hfull', hovre⟩
    rw [hgot, ← hevery]
    exact List.append_nil _

/-- A clock in which nothing goes wrong keeps the receiver clean. -/
theorem Clean.next (h : x.Clean m) (hrestarts : x.restarts i = false)
    (hmisses : x.misses i = false) : (x.next i).Clean (move m x i) := by
  cases hclear : clears i with
  | true => exact clean_of_clears hclear
  | false =>
      cases hfull : x.rx.full with
      | true => exact h.next_of_full hclear hfull hrestarts
      | false => exact h.next_of_not_full hclear hfull hmisses

/-! ## Runs -/

/-- The mailbox along the run. -/
def mail (i : Nat → In) : Nat → UartMail := shadow next move reset empty i

/-- The overrun output is never set. -/
theorem ovre_run (i : Nat → In) (t : Nat) : (run next reset i t).rx.taken.ovre = false := by
  have hstep : ∀ (x : UartHandOff) (i : In), x.rx.taken.ovre = false →
      (x.next i).rx.taken.ovre = false := by
    intro x i h
    cases hclear : clears i with
    | true => exact (clean_of_clears (m := empty) hclear).ovre
    | false =>
        rw [(rx_next (x := x) hclear).2.1]
        exact step_ovre h i.cfg i.rx.clken
  exact run_invariant (P := fun x : UartHandOff => x.rx.taken.ovre = false) rfl hstep i t

/-- As long as each character is taken before the next start bit is accepted, and no pulse
comes in the clock in which a frame completes, the receiver hands over its characters. -/
theorem handOff_run (i : Nat → In) (t : Nat)
    (h : ∀ u, u < t → (run next reset i u).restarts (i u) = false ∧
      (run next reset i u).misses (i u) = false) :
    (run next reset i t).HandsOff (mail i t) := by
  have hclean : (run next reset i t).Clean (mail i t) := by
    induction t with
    | zero => exact ⟨⟨rfl, fun p hp => (nomatch hp), rfl⟩, fun hrec => (nomatch hrec), rfl⟩
    | succ t ih =>
        have hnow := h t (Nat.lt_succ_self t)
        exact (ih fun u hu => h u (Nat.lt_succ_of_lt hu)).next hnow.1 hnow.2
  exact hclean.handsOff

/-! ## Two characters -/

/-- Frames of the character A, eight bits without parity, follow each other.  The consumer
takes at the clocks of `takes`. -/
def lineOfA (takes : Nat → Bool) (t : Nat) : In where
  cfg := ⟨0b11, 0b00, false⟩
  rx :=
    { rst := false
      clr := false
      clken := true
      rxd := (0b1010000010#10).getLsbD (t / 16 % 10)
      rfull := takes t }

def prompt (t : Nat) : Bool := t == 165 || t == 330
def never (_ : Nat) : Bool := false

/-- Both characters are handed over to a consumer that takes them at once. -/
theorem handOff_run_prompt :
    (run next reset (lineOfA prompt) 335).got.length = 2 ∧
      (run next reset (lineOfA prompt) 335).HandsOff (mail (lineOfA prompt) 335) :=
  ⟨by decide +kernel, handOff_run (lineOfA prompt) 335 (by decide +kernel)⟩

/-- Without a take the second character clears the outputs while the first one waits. -/
theorem handOff_fails :
    ¬ ∀ (i : Nat → In) (t : Nat), (run next reset i t).HandsOff (mail i t) := by
  intro h
  have hpending : (mail (lineOfA never) 175).pending = some ⟨0x41, false, false, false⟩ := by
    decide +kernel
  have hcleared : (run next reset (lineOfA never) 175).rx.taken.rxReg = 0 := by
    decide +kernel
  have hout := (h (lineOfA never) 175).outputs _ hpending
  rw [hout] at hcleared
  exact absurd hcleared (by decide)

end UartHandOff

end KS10
