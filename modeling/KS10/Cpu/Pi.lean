import KS10.Cpu.Microword
import KS10.Clocked.Run
import Mathlib.Order.Fin.Basic

/-!
# The priority interrupt system

Seven channels ask for interrupts: the hardware ones through the mask, the program ones
past it.  The system compares the highest channel that asks with the highest one in
progress, and channel 1 is the highest of all.

The comparison is registered on enabled clocks, and the number of the channel is not.  So
the interrupt belongs to the requests and the PI state of the last enabled clock, and the
number belongs to the requests of the moment.  They fit together as long as no request of
that clock is withdrawn and the PI state is not loaded.

The microcode reads the number some microwords after it has seen the interrupt, puts the
channel in progress and loads the PI state.  The channels in progress are kept as bits only.
That they are a stack, entered in rising priority, is an invariant of the runs in which
the requests wait for the microcode.
-/

namespace KS10

open Clocked Microword

/-! ## Inputs and registers -/

structure Pi.In where
  clken : Bool
  crom : Microword
  dp : BitVec 36
  aprINTR : BitVec 7
  ubaINTR : BitVec 7

structure Pi where
  piPROGREQ : BitVec 7
  piINPROG : BitVec 7
  piSYSEN : Bool
  piENABLED : BitVec 7
  piINTR : Bool
  deriving DecidableEq

namespace Pi

/-- The PI system after a reset. -/
def clear : Pi where
  piPROGREQ := 0
  piINPROG := 0
  piSYSEN := false
  piENABLED := 0
  piINTR := false

def specLOADPI (crom : Microword) : Bool := spec40 crom 0b011

/-- The PI registers load at this clock. -/
def loads (i : In) : Bool := i.clken && specLOADPI i.crom

def piREQEST (s : Pi) (i : In) : BitVec 7 :=
  ((i.ubaINTR ||| i.aprINTR) &&& s.piENABLED) ||| s.piPROGREQ

/-- The number of the leftmost bit that is set, and 8 if there is none. -/
def encode (v : BitVec 7) : BitVec 4 :=
  if bit v 0 then 0b0001
  else if bit v 1 then 0b0010
  else if bit v 2 then 0b0011
  else if bit v 3 then 0b0100
  else if bit v 4 then 0b0101
  else if bit v 5 then 0b0110
  else if bit v 6 then 0b0111
  else 0b1000

def reqPRI (s : Pi) (i : In) : BitVec 4 :=
  if !s.piSYSEN then 0b1000 else encode (s.piREQEST i)

def piREQPRI (s : Pi) (i : In) : BitVec 3 := field (s.reqPRI i) 1 3

def curPRI (s : Pi) : BitVec 4 := encode s.piINPROG

def piCURPRI (s : Pi) : BitVec 3 := field s.curPRI 1 3

/-- One clock of the PI system. -/
def next (s : Pi) (i : In) : Pi where
  piPROGREQ := if loads i then ~~~field i.dp 11 17 else s.piPROGREQ
  piINPROG := if loads i then ~~~field i.dp 21 27 else s.piINPROG
  piSYSEN := if loads i then !bit i.dp 28 else s.piSYSEN
  piENABLED := if loads i then ~~~field i.dp 29 35 else s.piENABLED
  piINTR := if i.clken then decide (s.reqPRI i < s.curPRI) else s.piINTR

/-- The registers `t` clocks after a reset. -/
def piAt (i : Nat → In) (t : Nat) : Pi := run next clear i t

/-! ## Channels -/

/-- The channels in the order of their priority.  The first one has number 1. -/
abbrev Channel := Fin 7

namespace Channel

def number (c : Channel) : BitVec 3 := BitVec.ofNat 3 (c.val + 1)

/-- The channel is set in the register. -/
def On (v : BitVec 7) (c : Channel) : Prop := bit v c.val = true

instance (v : BitVec 7) (c : Channel) : Decidable (On v c) :=
  inferInstanceAs (Decidable (_ = _))

/-- The channel is the highest one that is set. -/
def Highest (v : BitVec 7) (c : Channel) : Prop := On v c ∧ ∀ d, On v d → c ≤ d

instance (v : BitVec 7) (c : Channel) : Decidable (Highest v c) :=
  inferInstanceAs (Decidable (_ ∧ _))

/-- The channel is above all that are set. -/
def Above (v : BitVec 7) (c : Channel) : Prop := ∀ d, On v d → c < d

instance (v : BitVec 7) (c : Channel) : Decidable (Above v c) :=
  inferInstanceAs (Decidable (∀ _, _))

/-- The bit of the channel alone. -/
def mask (c : Channel) : BitVec 7 := BitVec.twoPow 7 (6 - c.val)

theorem Highest.unique {v : BitVec 7} {c d : Channel} (hc : Highest v c) (hd : Highest v d) :
    c = d :=
  le_antisymm (hc.2 d hd.1) (hd.2 c hc.1)

/-- Of the channels that are set there is a highest one. -/
theorem exists_highest {v : BitVec 7} {c : Channel} (h : On v c) : ∃ d, Highest v d := by
  have hsome : ∃ n, ∃ d : Channel, On v d ∧ d.val = n := ⟨c.val, c, h, rfl⟩
  obtain ⟨n, ⟨d, hd, rfl⟩, hfirst⟩ := exists_first hsome
  exact ⟨d, hd, fun e he => not_lt.mp fun hlt => hfirst e.val hlt ⟨e, he, rfl⟩⟩

/-- The encoder gives the number of the highest channel. -/
theorem encode_of_highest {v : BitVec 7} {c : Channel} (h : Highest v c) :
    encode v = 0#1 ++ number c := by
  revert v c
  decide +kernel

theorem encode_of_none {v : BitVec 7} (h : ∀ c, ¬ On v c) : encode v = 0b1000 := by
  revert v
  decide +kernel

theorem number_inj {c d : Channel} (h : number c = number d) : c = d := by
  revert c d
  decide

theorem number_lt_iff {c d : Channel} : 0#1 ++ number c < 0#1 ++ number d ↔ c < d := by
  revert c d
  decide

theorem number_lt_none (c : Channel) : 0#1 ++ number c < 0b1000#4 := by
  revert c
  decide

theorem bit_mask (c d : Channel) : bit (mask c) d.val = decide (d = c) := by
  revert c d
  decide

theorem on_or_mask {v : BitVec 7} {c d : Channel} : On (v ||| mask c) d ↔ d = c ∨ On v d := by
  have hor : bit (v ||| mask c) d.val = (bit v d.val || bit (mask c) d.val) := BitVec.getMsbD_or
  rw [On, hor, bit_mask, Bool.or_eq_true, decide_eq_true_eq]
  exact or_comm

theorem on_clear_mask {v : BitVec 7} {c d : Channel} :
    On (v &&& ~~~mask c) d ↔ d ≠ c ∧ On v d := by
  have hand : bit (v &&& ~~~mask c) d.val = (bit v d.val && bit (~~~mask c) d.val) :=
    BitVec.getMsbD_and
  have hnot : bit (~~~mask c) d.val = !bit (mask c) d.val := by
    rw [bit, BitVec.getMsbD_not, decide_eq_true d.isLt, Bool.true_and]
    rfl
  rw [On, hand, hnot, bit_mask, Bool.and_eq_true, Bool.not_eq_true', decide_eq_false_iff_not]
  exact and_comm

theorem not_on_zero (c : Channel) : ¬ On 0 c := by
  revert c
  decide

/-- The comparison of two encoded registers compares their highest channels. -/
theorem encode_lt_iff {v w : BitVec 7} :
    encode v < encode w ↔ ∃ c, Highest v c ∧ Above w c := by
  by_cases hv : ∃ c, On v c
  · obtain ⟨c, hon⟩ := hv
    obtain ⟨d, hd⟩ := exists_highest hon
    rw [encode_of_highest hd]
    by_cases hw : ∃ e, On w e
    · obtain ⟨e, hon'⟩ := hw
      obtain ⟨f, hf⟩ := exists_highest hon'
      rw [encode_of_highest hf, number_lt_iff]
      constructor
      · intro hlt
        exact ⟨d, hd, fun g hg => lt_of_lt_of_le hlt (hf.2 g hg)⟩
      · rintro ⟨g, hg, habove⟩
        rw [hd.unique hg]
        exact habove f hf.1
    · rw [not_exists] at hw
      rw [encode_of_none hw]
      exact ⟨fun _ => ⟨d, hd, fun g hg => absurd hg (hw g)⟩, fun _ => number_lt_none d⟩
  · rw [not_exists] at hv
    rw [encode_of_none hv]
    constructor
    · intro hlt
      have hle : encode w ≤ 0b1000 := by
        clear hlt
        revert w
        decide +kernel
      exact absurd hlt (BitVec.not_lt.mpr hle)
    · rintro ⟨c, hc, _⟩
      exact absurd hc.1 (hv c)

end Channel

open Channel

/-! ## The decision -/

/-- The system is on, and the highest channel that asks is above all in progress. -/
def Interrupts (s : Pi) (i : In) : Prop :=
  s.piSYSEN = true ∧ ∃ c, Highest (s.piREQEST i) c ∧ Above s.piINPROG c

instance (s : Pi) (i : In) : Decidable (Interrupts s i) :=
  inferInstanceAs (Decidable (_ ∧ _))

/-- The comparison that the interrupt is loaded from. -/
theorem reqPRI_lt_curPRI_iff (s : Pi) (i : In) :
    s.reqPRI i < s.curPRI ↔ Interrupts s i := by
  unfold reqPRI curPRI Interrupts
  cases s.piSYSEN with
  | false =>
      have hnone : (0b1000 : BitVec 4) = encode 0 := by decide
      rw [Bool.not_false, if_pos rfl, hnone, encode_lt_iff]
      constructor
      · rintro ⟨c, hc, _⟩
        exact absurd hc.1 (not_on_zero c)
      · intro h
        exact absurd h.1 Bool.false_ne_true
  | true =>
      rw [Bool.not_true, if_neg Bool.false_ne_true, encode_lt_iff]
      exact ⟨fun h => ⟨rfl, h⟩, fun h => h.2⟩

/-- The number presented is that of the highest channel that asks at the moment. -/
theorem piREQPRI_eq_iff (s : Pi) (i : In) (c : Channel) :
    s.piREQPRI i = c.number ↔ s.piSYSEN = true ∧ Highest (s.piREQEST i) c := by
  have hzero : ¬ field (0b1000 : BitVec 4) 1 3 = c.number := by
    revert c
    decide
  have hfield (d : Channel) : field (0#1 ++ d.number) 1 3 = d.number := by
    revert d
    decide
  unfold piREQPRI reqPRI
  cases s.piSYSEN with
  | false =>
      rw [Bool.not_false, if_pos rfl]
      exact ⟨fun h => absurd h hzero, fun h => absurd h.1 Bool.false_ne_true⟩
  | true =>
      rw [Bool.not_true, if_neg Bool.false_ne_true]
      by_cases hany : ∃ d, On (s.piREQEST i) d
      · obtain ⟨d, hon⟩ := hany
        obtain ⟨e, he⟩ := exists_highest hon
        rw [encode_of_highest he, hfield]
        constructor
        · intro heq
          exact ⟨rfl, number_inj heq ▸ he⟩
        · intro h
          rw [he.unique h.2]
      · rw [not_exists] at hany
        rw [encode_of_none hany]
        exact ⟨fun h => absurd h hzero, fun h => absurd h.2.1 (hany c)⟩

theorem piINTR_next (s : Pi) (i : In) :
    (next s i).piINTR = if i.clken then decide (Interrupts s i) else s.piINTR := by
  have hdec : decide (s.reqPRI i < s.curPRI) = decide (Interrupts s i) :=
    decide_eq_decide.mpr (reqPRI_lt_curPRI_iff s i)
  show (if i.clken then decide (s.reqPRI i < s.curPRI) else s.piINTR) = _
  rw [hdec]

theorem state_next {s : Pi} {i : In} (h : loads i = false) :
    (next s i).piPROGREQ = s.piPROGREQ ∧ (next s i).piINPROG = s.piINPROG ∧
      (next s i).piSYSEN = s.piSYSEN ∧ (next s i).piENABLED = s.piENABLED := by
  simp [next, h]

theorem piINPROG_next {s : Pi} {i : In} (h : loads i = true) :
    (next s i).piINPROG = ~~~field i.dp 21 27 := by
  simp [next, h]

section Run

variable {i : Nat → In}

/-- `v` is the last enabled clock before `t`. -/
def LastEnabled (i : Nat → In) (v t : Nat) : Prop :=
  v < t ∧ (i v).clken = true ∧ ∀ w, v < w → w < t → (i w).clken = false

theorem LastEnabled.unique {v w t : Nat} (hv : LastEnabled i v t) (hw : LastEnabled i w t) :
    v = w := by
  obtain ⟨hvt, hven, hvnone⟩ := hv
  obtain ⟨hwt, hwen, hwnone⟩ := hw
  rcases Nat.lt_trichotomy v w with hlt | heq | hlt
  · have hoff := hvnone w hlt hwt
    rw [hwen] at hoff
    cases hoff
  · exact heq
  · have hoff := hwnone v hlt hvt
    rw [hven] at hoff
    cases hoff

/-- The interrupt belongs to the last enabled clock. -/
theorem piINTR_iff (i : Nat → In) (t : Nat) :
    (piAt i t).piINTR = true ↔ ∃ v, LastEnabled i v t ∧ Interrupts (piAt i v) (i v) := by
  induction t with
  | zero =>
      constructor
      · intro h
        exact absurd h Bool.false_ne_true
      · rintro ⟨v, hv, _⟩
        exact absurd hv.1 (Nat.not_lt_zero v)
  | succ t ih =>
      have hnext : (piAt i (t + 1)).piINTR =
          if (i t).clken then decide (Interrupts (piAt i t) (i t)) else (piAt i t).piINTR :=
        piINTR_next _ _
      rw [hnext]
      cases hen : (i t).clken with
      | true =>
          rw [if_pos rfl, decide_eq_true_eq]
          constructor
          · intro h
            exact ⟨t, ⟨Nat.lt_succ_self t, hen, fun w _ _ => by omega⟩, h⟩
          · rintro ⟨v, ⟨hvt, _, hnone⟩, h⟩
            have hv : v = t := by
              by_contra hne
              have hlate := hnone t (by omega) (Nat.lt_succ_self t)
              rw [hen] at hlate
              cases hlate
            exact hv ▸ h
      | false =>
          rw [if_neg Bool.false_ne_true, ih]
          constructor
          · rintro ⟨v, ⟨hvt, hv, hnone⟩, h⟩
            refine ⟨v, ⟨Nat.lt_succ_of_lt hvt, hv, fun w hvw hw => ?_⟩, h⟩
            by_cases hwt : w = t
            · rw [hwt, hen]
            · exact hnone w hvw (by omega)
          · rintro ⟨v, ⟨hvt, hv, hnone⟩, h⟩
            have hne : v ≠ t := by
              intro hne
              rw [hne, hen] at hv
              cases hv
            exact ⟨v, ⟨by omega, hv, fun w hvw hw => hnone w hvw (by omega)⟩, h⟩

/-- Between two clocks without a load the PI state stays. -/
theorem state_kept {v t : Nat} (hvt : v ≤ t)
    (hnone : ∀ w, v ≤ w → w < t → loads (i w) = false) :
    (piAt i t).piPROGREQ = (piAt i v).piPROGREQ ∧ (piAt i t).piINPROG = (piAt i v).piINPROG ∧
      (piAt i t).piSYSEN = (piAt i v).piSYSEN ∧
      (piAt i t).piENABLED = (piAt i v).piENABLED := by
  induction t, hvt using Nat.le_induction with
  | base => exact ⟨rfl, rfl, rfl, rfl⟩
  | succ t hvt ih =>
      obtain ⟨hprog, hin, hsys, hen⟩ := ih fun w hvw hw => hnone w hvw (Nat.lt_succ_of_lt hw)
      obtain ⟨hprog', hin', hsys', hen'⟩ :=
        state_next (s := piAt i t) (hnone t hvt (Nat.lt_succ_self t))
      exact ⟨hprog'.trans hprog, hin'.trans hin, hsys'.trans hsys, hen'.trans hen⟩

/-- Where requests and PI state are those of the last enabled clock, the interrupt is the
comparison of the moment. -/
theorem piINTR_iff_of_same {v t : Nat} (hlast : LastEnabled i v t)
    (hreq : (piAt i t).piREQEST (i t) = (piAt i v).piREQEST (i v))
    (hin : (piAt i t).piINPROG = (piAt i v).piINPROG)
    (hsys : (piAt i t).piSYSEN = (piAt i v).piSYSEN) :
    (piAt i t).piINTR = true ↔ Interrupts (piAt i t) (i t) := by
  have hsame : Interrupts (piAt i t) (i t) ↔ Interrupts (piAt i v) (i v) := by
    unfold Interrupts
    rw [hreq, hin, hsys]
  rw [piINTR_iff, hsame]
  constructor
  · rintro ⟨w, hw, h⟩
    rwa [hlast.unique hw]
  · intro h
    exact ⟨v, hlast, h⟩

end Run

/-! ## The channels in progress

The microcode loads the channels in progress as they were, with the channel it has read
put in, with the highest one dismissed, or with none after a clear. -/

/-- What the microcode does to the channels in progress. -/
inductive Act where
  | keep
  | enter (c : Channel)
  | dismiss
  | clear
  deriving DecidableEq

/-- The highest channel that is set. -/
def highest (v : BitVec 7) : Option Channel := (List.finRange 7).find? fun c => On v c

theorem highest_eq_some {v : BitVec 7} {c : Channel} (h : Highest v c) : highest v = some c := by
  revert v c
  decide +kernel

theorem highest_eq_none {v : BitVec 7} (h : ∀ c, ¬ On v c) : highest v = none := by
  revert v
  decide +kernel

/-- The channels in progress after the act, as the PI register of the microcode has them. -/
def Act.load (v : BitVec 7) : Act → BitVec 7
  | keep => v
  | enter c => v ||| mask c
  | dismiss =>
      match highest v with
      | some c => v &&& ~~~mask c
      | none => v
  | clear => 0

/-- The channels in progress as a stack, the last one that was entered first. -/
def Act.move (l : List Channel) : Act → List Channel
  | keep => l
  | enter c => c :: l
  | dismiss => l.tail
  | clear => []

/-- The stack rises in priority, and the register holds its channels. -/
structure Nested (l : List Channel) (v : BitVec 7) : Prop where
  rises : l.Pairwise (· < ·)
  on_iff : ∀ c, On v c ↔ c ∈ l

theorem Nested.nil : Nested [] 0 :=
  ⟨List.Pairwise.nil, fun c => ⟨fun h => absurd h (not_on_zero c), fun h => by cases h⟩⟩

theorem Nested.cons {l : List Channel} {v : BitVec 7} {c : Channel} (h : Nested l v)
    (habove : Above v c) : Nested (c :: l) (v ||| mask c) where
  rises := List.pairwise_cons.mpr ⟨fun d hd => habove d ((h.on_iff d).mpr hd), h.rises⟩
  on_iff d := by
    rw [on_or_mask, List.mem_cons, h.on_iff]

/-- The top of the stack is the highest channel in progress. -/
theorem Nested.highest_cons {l : List Channel} {v : BitVec 7} {c : Channel}
    (h : Nested (c :: l) v) : Highest v c := by
  refine ⟨(h.on_iff c).mpr List.mem_cons_self, fun d hd => ?_⟩
  rcases List.mem_cons.mp ((h.on_iff d).mp hd) with rfl | htail
  · exact le_refl d
  · exact le_of_lt ((List.pairwise_cons.mp h.rises).1 d htail)

/-- Dismissing the highest channel takes it off the stack. -/
theorem Nested.tail {l : List Channel} {v : BitVec 7} {c : Channel} (h : Nested (c :: l) v) :
    Nested l (v &&& ~~~mask c) := by
  obtain ⟨hhead, hrises⟩ := List.pairwise_cons.mp h.rises
  refine ⟨hrises, fun d => ?_⟩
  rw [on_clear_mask, h.on_iff, List.mem_cons]
  constructor
  · rintro ⟨hne, rfl | hd⟩
    · exact absurd rfl hne
    · exact hd
  · intro hd
    exact ⟨(ne_of_lt (hhead d hd)).symm, Or.inr hd⟩

/-- Every act keeps stack and register together, if it enters above all in progress. -/
theorem Nested.act {l : List Channel} {v : BitVec 7} {a : Act} (h : Nested l v)
    (habove : ∀ c, a = .enter c → Above v c) : Nested (a.move l) (a.load v) := by
  cases a with
  | keep => exact h
  | enter c => exact h.cons (habove c rfl)
  | dismiss =>
      cases l with
      | nil =>
          have hnone : highest v = none :=
            highest_eq_none fun c hc => by cases (h.on_iff c).mp hc
          simp only [Act.load, Act.move, hnone]
          exact h
      | cons c l =>
          simp only [Act.load, Act.move, highest_eq_some h.highest_cons]
          exact h.tail
  | clear => exact Nested.nil

section Nesting

variable {i : Nat → In} {a : Nat → Act}

/-- The microcode has seen the interrupt at clock `w` and has read the number of the
channel at clock `u`, with no load from then to clock `t`. -/
structure Shown (i : Nat → In) (w u t : Nat) (c : Channel) : Prop where
  seen_le : w ≤ u
  read_le : u ≤ t
  seen : (piAt i w).piINTR = true
  read : (piAt i u).piREQPRI (i u) = c.number
  no_load : ∀ x, w ≤ x → x < t → loads (i x) = false

/-- The requests behind the interrupt of clock `w` are still there at clock `u`, and the
PI state behind it is not loaded before clock `w`. -/
def Held (i : Nat → In) (w u : Nat) : Prop :=
  ∀ v, LastEnabled i v w → (∀ x, v ≤ x → x < w → loads (i x) = false) ∧
    ∀ c, On ((piAt i v).piREQEST (i v)) c → On ((piAt i u).piREQEST (i u)) c

/-- The loads of the microcode: each is an act, and a channel is entered after the
interrupt has been seen and the number has been read. -/
structure Microcode (i : Nat → In) (a : Nat → Act) : Prop where
  load : ∀ t, loads (i t) = true →
    ~~~field (i t).dp 21 27 = (a t).load (piAt i t).piINPROG
  keep : ∀ t, loads (i t) = false → a t = .keep
  enter : ∀ t c, a t = .enter c → ∃ w u, Shown i w u t c

/-- The requests wait until the microcode has read the number. -/
def Waits (i : Nat → In) (a : Nat → Act) : Prop :=
  ∀ t c, a t = .enter c → ∃ w u, Shown i w u t c ∧ Held i w u

/-- The stack of the channels in progress after `t` clocks. -/
def stack (a : Nat → Act) : Nat → List Channel
  | 0 => []
  | t + 1 => (a t).move (stack a t)

/-- A channel that was read while the requests waited is above all in progress. -/
theorem Shown.above {w u t : Nat} {c : Channel} (h : Shown i w u t c) (hheld : Held i w u) :
    Above (piAt i t).piINPROG c := by
  obtain ⟨v, hlast, -, d, hd, habove⟩ := (piINTR_iff i w).mp h.seen
  obtain ⟨hquiet, hstill⟩ := hheld v hlast
  have hnone : ∀ x, v ≤ x → x < t → loads (i x) = false := by
    intro x hvx hxt
    by_cases hxw : x < w
    · exact hquiet x hvx hxw
    · exact h.no_load x (Nat.le_of_not_lt hxw) hxt
  have hvt : v ≤ t := by
    have hvw := hlast.1
    have hwu := h.seen_le
    have hut := h.read_le
    omega
  obtain ⟨-, hin, -, -⟩ := state_kept hvt hnone
  obtain ⟨-, hread⟩ := (piREQPRI_eq_iff _ _ c).mp h.read
  have hle : c ≤ d := hread.2 d (hstill d hd.1)
  rw [hin]
  exact fun e he => lt_of_le_of_lt hle (habove e he)

theorem piINPROG_succ (hm : Microcode i a) (t : Nat) :
    (piAt i (t + 1)).piINPROG = (a t).load (piAt i t).piINPROG := by
  show (next (piAt i t) (i t)).piINPROG = _
  cases hload : loads (i t) with
  | true => rw [piINPROG_next hload, hm.load t hload]
  | false =>
      obtain ⟨-, hin, -, -⟩ := state_next (s := piAt i t) hload
      rw [hin, hm.keep t hload, Act.load]

theorem nested_run (hm : Microcode i a) (hw : Waits i a) (t : Nat) :
    Nested (stack a t) (piAt i t).piINPROG := by
  induction t with
  | zero => exact Nested.nil
  | succ t ih =>
      rw [piINPROG_succ hm, stack]
      refine ih.act fun c hc => ?_
      obtain ⟨w, u, hshown, hheld⟩ := hw t c hc
      exact hshown.above hheld

end Nesting

/-- The interrupt is that of the last enabled clock, and the number that of the moment.
Where requests and PI state have stayed, the interrupt is there exactly when the channel
presented is above all in progress.  A channel that is read while the requests wait is above
all in progress, so the channels in progress are a stack that rises in priority. -/
theorem nesting_run (i : Nat → In) :
    (∀ t, (piAt i t).piINTR = true ↔
      ∃ v, LastEnabled i v t ∧ Interrupts (piAt i v) (i v)) ∧
    (∀ t c, (piAt i t).piREQPRI (i t) = c.number ↔
      (piAt i t).piSYSEN = true ∧ Highest ((piAt i t).piREQEST (i t)) c) ∧
    (∀ v t, LastEnabled i v t → (piAt i t).piREQEST (i t) = (piAt i v).piREQEST (i v) →
      (piAt i t).piINPROG = (piAt i v).piINPROG → (piAt i t).piSYSEN = (piAt i v).piSYSEN →
      ((piAt i t).piINTR = true ↔
        ∃ c, (piAt i t).piREQPRI (i t) = c.number ∧ Above (piAt i t).piINPROG c)) ∧
    (∀ w u t c, Shown i w u t c → Held i w u → Above (piAt i t).piINPROG c) ∧
    ∀ a, Microcode i a → Waits i a → ∀ t, Nested (stack a t) (piAt i t).piINPROG ∧
      ∀ c, a t = .enter c → Above (piAt i t).piINPROG c := by
  refine ⟨piINTR_iff i, fun t c => piREQPRI_eq_iff _ _ c, fun v t hlast hreq hin hsys => ?_,
    fun w u t c hshown hheld => hshown.above hheld, fun a hm hw t => ?_⟩
  · rw [piINTR_iff_of_same hlast hreq hin hsys]
    constructor
    · rintro ⟨hon, c, hc, habove⟩
      exact ⟨c, (piREQPRI_eq_iff _ _ c).mpr ⟨hon, hc⟩, habove⟩
    · rintro ⟨c, hc, habove⟩
      obtain ⟨hon, hhigh⟩ := (piREQPRI_eq_iff _ _ c).mp hc
      exact ⟨hon, c, hhigh, habove⟩
  · refine ⟨nested_run hm hw t, fun c hc => ?_⟩
    obtain ⟨w, u, hshown, hheld⟩ := hw t c hc
    exact hshown.above hheld

/-! ## Runs of the microcode -/

/-- A microword that loads the PI system. -/
def loadPI : Microword := BitVec.twoPow 108 56 ||| BitVec.twoPow 108 52 ||| BitVec.twoPow 108 51

/-- A load of the system turned on, with all channels unmasked. -/
def loading (inProg uba : BitVec 7) : In where
  clken := true
  crom := loadPI
  dp := 0#11 ++ ~~~0#7 ++ 0#3 ++ ~~~inProg ++ 0#1 ++ 0#7
  aprINTR := 0
  ubaINTR := uba

/-- A microword that does not load it. -/
def passing (uba : BitVec 7) : In where
  clken := true
  crom := 0
  dp := 0
  aprINTR := 0
  ubaINTR := uba

theorem loads_passing (uba : BitVec 7) : loads (passing uba) = false := by
  have hspec : specLOADPI 0 = false := by decide
  simp only [loads, passing, hspec, Bool.and_false]

/-- Channel 5 interrupts and is entered, then channel 3. -/
def rising : Nat → In
  | 0 => loading 0 0
  | 1 => passing 0b0000100
  | 2 => loading 0b0000100 0b0000100
  | 3 => passing 0b0010100
  | 4 => loading 0b0010100 0b0010100
  | _ => passing 0

def risingActs : Nat → Act
  | 2 => .enter 4
  | 4 => .enter 2
  | _ => .keep

/-- Channel 4 is entered, channel 3 interrupts and withdraws, and channel 5 is entered. -/
def sinking : Nat → In
  | 0 => loading 0 0
  | 1 => passing 0b0001000
  | 2 => loading 0b0001000 0b0001000
  | 3 => passing 0b0010000
  | 4 => loading 0b0001100 0b0000100
  | _ => passing 0

def sinkingActs : Nat → Act
  | 2 => .enter 3
  | 4 => .enter 4
  | _ => .keep

theorem shown_at_once {i : Nat → In} {t : Nat} {c : Channel} (hseen : (piAt i t).piINTR = true)
    (hread : (piAt i t).piREQPRI (i t) = c.number) : Shown i t t t c where
  seen_le := Nat.le_refl t
  read_le := Nat.le_refl t
  seen := hseen
  read := hread
  no_load _ hle hlt := absurd hlt (Nat.not_lt_of_le hle)

/-- Enabled at the clock before, the interrupt belongs to that clock. -/
theorem held_at_once {i : Nat → In} {t : Nat} (hen : (i t).clken = true)
    (hload : loads (i t) = false) (hstill : ∀ c, On ((piAt i t).piREQEST (i t)) c →
      On ((piAt i (t + 1)).piREQEST (i (t + 1))) c) : Held i (t + 1) (t + 1) := by
  have hlast : LastEnabled i t (t + 1) :=
    ⟨Nat.lt_succ_self t, hen, fun w _ _ => by omega⟩
  intro v hv
  obtain rfl : v = t := hv.unique hlast
  refine ⟨fun x hle hlt => ?_, hstill⟩
  obtain rfl : x = v := by omega
  exact hload

theorem rising_microcode : Microcode rising risingActs where
  load
    | 0 | 1 | 2 | 3 | 4 => by decide +kernel
    | _ + 5 => fun h => absurd ((loads_passing 0).symm.trans h) Bool.false_ne_true
  keep
    | 0 | 1 | 2 | 3 | 4 => by decide +kernel
    | _ + 5 => fun _ => rfl
  enter
    | 2, c, h => by
        cases h
        exact ⟨2, 2, shown_at_once (by decide +kernel) (by decide +kernel)⟩
    | 4, c, h => by
        cases h
        exact ⟨4, 4, shown_at_once (by decide +kernel) (by decide +kernel)⟩

theorem rising_waits : Waits rising risingActs
  | 2, c, h => by
      cases h
      exact ⟨2, 2, shown_at_once (by decide +kernel) (by decide +kernel),
        held_at_once (by decide +kernel) (by decide +kernel) (by decide +kernel)⟩
  | 4, c, h => by
      cases h
      exact ⟨4, 4, shown_at_once (by decide +kernel) (by decide +kernel),
        held_at_once (by decide +kernel) (by decide +kernel) (by decide +kernel)⟩

theorem sinking_microcode : Microcode sinking sinkingActs where
  load
    | 0 | 1 | 2 | 3 | 4 => by decide +kernel
    | _ + 5 => fun h => absurd ((loads_passing 0).symm.trans h) Bool.false_ne_true
  keep
    | 0 | 1 | 2 | 3 | 4 => by decide +kernel
    | _ + 5 => fun _ => rfl
  enter
    | 2, c, h => by
        cases h
        exact ⟨2, 2, shown_at_once (by decide +kernel) (by decide +kernel)⟩
    | 4, c, h => by
        cases h
        exact ⟨4, 4, shown_at_once (by decide +kernel) (by decide +kernel)⟩

/-- The stack of channel 3 on channel 5, from the run in which they are entered. -/
theorem nesting_run_rising :
    stack risingActs 5 = [2, 4] ∧ Nested (stack risingActs 5) (piAt rising 5).piINPROG :=
  ⟨by decide, ((nesting_run rising).2.2.2.2 risingActs rising_microcode rising_waits 5).1⟩

/-- A request that is withdrawn leaves an interrupt with a channel below the one in
progress, and the microcode enters it. -/
theorem nesting_fails :
    (¬ ∀ i a, Microcode i a → ∀ t, (piAt i t).piINTR = true ↔ Interrupts (piAt i t) (i t)) ∧
      ¬ ∀ i a, Microcode i a → ∀ t c, a t = .enter c → Above (piAt i t).piINPROG c := by
  constructor
  · intro h
    have hiff := h sinking sinkingActs sinking_microcode 4
    revert hiff
    decide +kernel
  · intro h
    have habove := h sinking sinkingActs sinking_microcode 4 4 rfl
    revert habove
    decide +kernel

end Pi

end KS10
