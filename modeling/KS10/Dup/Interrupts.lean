import KS10.Clocked.Run
import KS10.Uba.Devices

/-!
# The two interrupts of the DUP11

The receiver and the transmitter have an interrupt controller each.  A vector cycle reads the
receiver's vector while the receiver requests, and the transmitter's otherwise, and the
receiver inhibits the transmitter's controller from its request until it has been serviced.

A trigger is the rise of the level that a controller looks at.  Of every trigger it is either
delivered or owed (`DupSide.Accounted`), as long as three things hold (`DupVectors.Fits`).
The level stays until the controller has taken it, and goes before the controller listens
again.  The receiver does not come up in the course of a vector cycle.  And the cycle that
reads the transmitter's vector finds the receiver idle.
-/

namespace KS10

open Clocked

/-! ## The controllers as they are wired -/

structure DupIntrs where
  rx : DupIntr
  tx : DupIntr

namespace DupIntrs

/-- The inputs of the two controllers at one clock. -/
structure In where
  dupInit : Bool
  vectRead : Bool
  rxcsrRead : Bool
  rxdbufRead : Bool
  txdbufWrite : Bool
  dupRxie : Bool
  dupRxDone : Bool
  dupDscie : Bool
  dupDsca : Bool
  dupTxie : Bool
  dupTxDone : Bool

def rxTrig (i : In) : Bool := (i.dupRxie && i.dupRxDone) || (i.dupDscie && i.dupDsca)

def txTrig (i : In) : Bool := i.dupTxie && i.dupTxDone

def rxIn (i : In) : DupIntr.In where
  init := i.dupInit
  vect := i.vectRead
  statRw := i.rxcsrRead || i.rxdbufRead
  trig := rxTrig i
  secInh := false

def txIn (s : DupIntrs) (i : In) : DupIntr.In where
  init := i.dupInit
  vect := i.vectRead
  statRw := i.txdbufWrite
  trig := txTrig i
  secInh := s.rx.priAct

/-- One clock of the two controllers. -/
def next (s : DupIntrs) (i : In) : DupIntrs where
  rx := s.rx.next (rxIn i)
  tx := s.tx.next (s.txIn i)

/-- The device requests an interrupt. -/
def devIntr (s : DupIntrs) : Bool := s.tx.intr || s.rx.intr

def dup1Vect : BitVec 18 := 0o570

/-- The vector on the bus in a vector cycle. -/
def vector (s : DupIntrs) : BitVec 18 := if s.rx.intr then dup1Vect else dup1Vect + 4

end DupIntrs

/-! ## Triggers and deliveries -/

/-- A controller with the level it saw last, whether that level is a trigger that it has not
taken, and the numbers of triggers and of deliveries. -/
structure DupSide where
  ctl : DupIntr
  last : Bool
  fresh : Bool
  triggers : Nat
  delivered : Nat

namespace DupSide

variable (s : DupSide) (i : DupIntr.In)

/-- A trigger. -/
def rises : Bool := i.trig && !s.last

/-- The controller becomes active. -/
def takes : Bool := s.ctl == .idle && i.trig

/-- One clock of the side, in which its vector is delivered or not. -/
def next (delivers : Bool) : DupSide where
  ctl := s.ctl.next i
  last := i.trig
  fresh := i.trig && (s.fresh || s.rises i) && !s.takes i
  triggers := s.triggers + (s.rises i).toNat
  delivered := s.delivered + delivers.toNat

/-- A trigger is not withdrawn before it is taken, and what is taken is a trigger. -/
structure Held : Prop where
  stays : s.fresh = true → i.trig = true
  anew : s.takes i = true → s.fresh || s.rises i

/-- The controller has taken a trigger whose vector has not been delivered.  In the course of
a vector cycle the vector may be delivered already (`taken`). -/
def pending (taken : Bool) : Bool := s.ctl.intr && !taken

/-- Every trigger is delivered once, or is still to be delivered. -/
def Accounted (taken : Bool) : Prop :=
  s.triggers = s.delivered + (s.fresh.toNat + (s.pending taken).toNat)

instance : Decidable (s.Held i) :=
  decidable_of_iff ((s.fresh = true → i.trig = true) ∧
      (s.takes i = true → s.fresh || s.rises i))
    ⟨fun h => ⟨h.1, h.2⟩, fun h => ⟨h.stays, h.anew⟩⟩

end DupSide

/-- The vector that a cycle reads. -/
inductive DupVector where
  | rx
  | tx
  deriving DecidableEq

/-- The two sides and the vector cycle that goes on. -/
structure DupVectors where
  rx : DupSide
  tx : DupSide
  lastVect : Bool
  /-- The vector that the processor has taken in this cycle. -/
  took : Option DupVector
  /-- The receiver was idle at a clock of this cycle. -/
  rxIdleSeen : Bool

namespace DupVectors

/-- The inputs of one clock; in a vector cycle the processor takes the vector. -/
structure In extends DupIntrs.In where
  take : Bool

def ctls (x : DupVectors) : DupIntrs where
  rx := x.rx.ctl
  tx := x.tx.ctl

/-- Whose vector is on the bus. -/
def onBus (x : DupVectors) : DupVector := if x.rx.ctl.intr then .rx else .tx

def delivers (x : DupVectors) (i : In) (v : DupVector) : Bool := i.take && x.onBus == v

/-- One clock of the two sides. -/
def next (x : DupVectors) (i : In) : DupVectors where
  rx := x.rx.next (DupIntrs.rxIn i.toIn) (x.delivers i .rx)
  tx := x.tx.next (x.ctls.txIn i.toIn) (x.delivers i .tx)
  lastVect := i.vectRead
  took := if i.vectRead then if i.take then some x.onBus else x.took else none
  rxIdleSeen := (x.lastVect && x.rxIdleSeen) || x.rx.ctl == .idle

/-- A vector cycle is for a device that requests an interrupt, and takes the vector once. -/
structure Legal (x : DupVectors) (i : In) : Prop where
  init : i.dupInit = false
  asked : i.vectRead = true → x.lastVect = false → x.ctls.devIntr = true
  inside : i.take = true → i.vectRead = true
  once : i.take = true → x.took = none
  ends : i.vectRead = false → x.lastVect = true → x.took ≠ none

/-- The levels are triggers, the receiver does not come up in the course of a vector cycle,
and a cycle that has taken the transmitter's vector has found the receiver idle. -/
structure Fits (x : DupVectors) (i : In) : Prop where
  rx : x.rx.Held (DupIntrs.rxIn i.toIn)
  tx : x.tx.Held (x.ctls.txIn i.toIn)
  steady : i.vectRead = true → x.lastVect = true → x.rx.ctl ≠ .active
  seen : i.vectRead = false → x.took = some .tx → x.rxIdleSeen = true

instance (x : DupVectors) (i : In) : Decidable (Legal x i) :=
  decidable_of_iff (i.dupInit = false ∧
      (i.vectRead = true → x.lastVect = false → x.ctls.devIntr = true) ∧
      (i.take = true → i.vectRead = true) ∧ (i.take = true → x.took = none) ∧
      (i.vectRead = false → x.lastVect = true → x.took ≠ none))
    ⟨fun h => ⟨h.1, h.2.1, h.2.2.1, h.2.2.2.1, h.2.2.2.2⟩,
      fun h => ⟨h.init, h.asked, h.inside, h.once, h.ends⟩⟩

instance (x : DupVectors) (i : In) : Decidable (Fits x i) :=
  decidable_of_iff (x.rx.Held (DupIntrs.rxIn i.toIn) ∧ x.tx.Held (x.ctls.txIn i.toIn) ∧
      (i.vectRead = true → x.lastVect = true → x.rx.ctl ≠ .active) ∧
      (i.vectRead = false → x.took = some .tx → x.rxIdleSeen = true))
    ⟨fun h => ⟨h.1, h.2.1, h.2.2.1, h.2.2.2⟩, fun h => ⟨h.rx, h.tx, h.steady, h.seen⟩⟩

def rxPending (x : DupVectors) : Bool := x.rx.pending (x.took == some .rx)

def txPending (x : DupVectors) : Bool := x.tx.pending (x.took == some .tx)

/-- Every trigger is delivered once or still owed, and the vector that is taken is the
receiver's if the receiver is pending, and otherwise the transmitter's, which is pending. -/
structure Delivers (x : DupVectors) (i : In) : Prop where
  rx : x.rx.Accounted (x.took == some .rx)
  tx : x.tx.Accounted (x.took == some .tx)
  first : i.take = true → x.rxPending = true →
    x.onBus = .rx ∧ x.ctls.vector = DupIntrs.dup1Vect
  second : i.take = true → x.rxPending = false →
    x.txPending = true ∧ x.onBus = .tx ∧ x.ctls.vector = DupIntrs.dup1Vect + 4

/-- The registers after a reset. -/
def afterReset : DupVectors where
  rx := { ctl := .idle, last := false, fresh := false, triggers := 0, delivered := 0 }
  tx := { ctl := .idle, last := false, fresh := false, triggers := 0, delivered := 0 }
  lastVect := false
  took := none
  rxIdleSeen := false

end DupVectors

/-! ## One side -/

namespace DupSide

variable {s : DupSide} {i : DupIntr.In} {taken taken' delivers : Bool}

/-- What a side has to know of the vector cycle: a vector is taken from a controller that
requests, it is taken once, and the cycle ends when it has been taken. -/
structure Served (s : DupSide) (i : DupIntr.In) (taken taken' delivers : Bool) : Prop where
  init : i.init = false
  asks : taken = true → s.ctl.intr = true
  owed : delivers = true → s.pending taken = true
  inside : delivers = true → i.vect = true
  goesOn : i.vect = true → taken' = (taken || delivers)
  stops : i.vect = false → taken' = false
  active : i.vect = false → s.ctl = .active → taken = false
  read : i.vect = false → s.ctl = .vectRead → taken = true

/-- A controller without a request delivers nothing, and has no vector taken. -/
theorem Served.idle (h : s.Served i taken taken' delivers) (hintr : s.ctl.intr = false) :
    taken = false ∧ delivers = false := by
  constructor
  · rw [← Bool.not_eq_true]
    intro ht
    exact Bool.false_ne_true (hintr.symm.trans (h.asks ht))
  · rw [← Bool.not_eq_true]
    intro hd
    have hp := h.owed hd
    unfold pending at hp
    rw [hintr] at hp
    cases hp

/-- A vector is taken once. -/
theorem Served.once (h : s.Served i taken taken' delivers) (hd : delivers = true) :
    taken = false := by
  have hp := h.owed hd
  unfold pending at hp
  rw [Bool.and_eq_true, Bool.not_eq_true'] at hp
  exact hp.2

/-- Within a vector cycle the request is pending until its vector is taken. -/
theorem Served.takes_one (h : s.Served i taken taken' delivers) (hv : i.vect = true) :
    (!taken').toNat + delivers.toNat = (!taken).toNat := by
  rw [h.goesOn hv]
  cases hd : delivers with
  | false => cases taken <;> rfl
  | true =>
      rw [h.once hd]
      rfl

/-- Nothing is delivered outside a vector cycle. -/
theorem Served.outside (h : s.Served i taken taken' delivers) (hv : i.vect = false) :
    delivers = false := by
  rw [← Bool.not_eq_true]
  intro hd
  rw [h.inside hd] at hv
  cases hv

/-- What is pending after a clock: what was pending or has been taken on, unless it is
delivered. -/
theorem pending_next (h : s.Served i taken taken' delivers) :
    ((s.next i delivers).pending taken').toNat + delivers.toNat =
      (s.pending taken).toNat + (s.takes i).toNat := by
  unfold pending takes
  show ((s.ctl.next i).intr && !taken').toNat + _ = _
  unfold DupIntr.next
  rw [h.init, if_neg Bool.false_ne_true]
  cases hctl : s.ctl with
  | idle =>
      obtain ⟨htaken, hdel⟩ := h.idle (by rw [hctl]; rfl)
      have htaken' : taken' = false := by
        cases hv : i.vect with
        | false => exact h.stops hv
        | true =>
            rw [h.goesOn hv, htaken, hdel]
            rfl
      rw [htaken', hdel]
      cases i.trig <;> rfl
  | active =>
      have hstill : (if i.vect && !i.secInh then DupIntr.vectRead else .active).intr = true := by
        split <;> rfl
      show ((if i.vect && !i.secInh then DupIntr.vectRead else .active).intr && !taken').toNat +
        delivers.toNat = (!taken).toNat + 0
      rw [hstill, Bool.true_and]
      cases hv : i.vect with
      | false =>
          rw [h.stops hv, h.active hv hctl, h.outside hv]
          rfl
      | true => exact h.takes_one hv
  | vectRead =>
      cases hv : i.vect with
      | false =>
          rw [h.read hv hctl, h.outside hv]
          rfl
      | true => exact h.takes_one hv
  | wait | done =>
      rw [(h.idle (by rw [hctl]; rfl)).2]
      cases i.statRw <;> rfl

/-- A trigger is not taken yet, or taken by this clock. -/
theorem fresh_next (delivers : Bool) (hlast : s.fresh = true → s.last = true)
    (h : s.Held i) :
    (s.next i delivers).fresh.toNat + (s.takes i).toNat = s.fresh.toNat + (s.rises i).toNat := by
  have hstays := h.stays
  have hanew := h.anew
  show (i.trig && (s.fresh || s.rises i) && !s.takes i).toNat + _ = _
  unfold rises at *
  cases htakes : s.takes i with
  | true =>
      have htrig : i.trig = true := by
        unfold takes at htakes
        rw [Bool.and_eq_true] at htakes
        exact htakes.2
      have hnew := hanew htakes
      rw [htrig] at hnew ⊢
      cases hfresh : s.fresh with
      | true =>
          rw [hlast hfresh]
          rfl
      | false =>
          rw [hfresh] at hnew
          cases hl : s.last with
          | false => rfl
          | true =>
              rw [hl] at hnew
              cases hnew
  | false =>
      cases hfresh : s.fresh with
      | true =>
          rw [hlast hfresh, hstays hfresh]
          rfl
      | false => cases i.trig <;> cases s.last <;> rfl

theorem last_next (h : (s.next i delivers).fresh = true) : (s.next i delivers).last = true := by
  have hfresh : (i.trig && (s.fresh || s.rises i) && !s.takes i) = true := h
  rw [Bool.and_eq_true, Bool.and_eq_true] at hfresh
  exact hfresh.1.1

theorem Accounted.next (h : s.Accounted taken) (hlast : s.fresh = true → s.last = true)
    (hheld : s.Held i) (hserved : s.Served i taken taken' delivers) :
    (s.next i delivers).Accounted taken' := by
  have hpending := pending_next hserved
  have hfresh := fresh_next delivers hlast hheld
  unfold Accounted at *
  show s.triggers + (s.rises i).toNat = s.delivered + delivers.toNat + _
  omega

end DupSide

namespace DupVectors

variable {x : DupVectors} {i : In}

/-! ## The vector cycle -/

/-- Between the cycles no controller reads.  In a cycle either the receiver's controller
reads, or the transmitter's requests, and reads from the clock on in which the receiver is
idle. -/
inductive Cycle (x : DupVectors) : Prop where
  | between (hlast : x.lastVect = false) (hrx : x.rx.ctl ≠ .vectRead)
      (htx : x.tx.ctl ≠ .vectRead) (htook : x.took = none)
  | ofRx (hlast : x.lastVect = true) (hrx : x.rx.ctl = .vectRead) (htx : x.tx.ctl ≠ .vectRead)
      (htook : x.took ≠ some .tx)
  | ofTx (hlast : x.lastVect = true) (hrx : x.rx.ctl ≠ .vectRead)
      (htx : x.tx.ctl = if x.rxIdleSeen then .vectRead else .active) (htook : x.took ≠ some .rx)

theorem onBus_of_intr (h : x.rx.ctl.intr = true) : x.onBus = .rx := by
  unfold onBus
  rw [h]
  rfl

theorem onBus_of_not_intr (h : x.rx.ctl.intr = false) : x.onBus = .tx := by
  unfold onBus
  rw [h]
  rfl

theorem intr_of_active {c : DupIntr} (h : c.intr = true) (hne : c ≠ .vectRead) : c = .active := by
  cases c <;> first | rfl | exact absurd rfl hne | cases h

theorem rx_next (hinit : i.dupInit = false) : (x.next i).rx.ctl =
    match x.rx.ctl with
    | .idle => if DupIntrs.rxTrig i.toIn then .active else .idle
    | .active => if i.vectRead then .vectRead else .active
    | .vectRead => if !i.vectRead then .wait else .vectRead
    | .wait => if i.rxcsrRead || i.rxdbufRead then .done else .wait
    | .done => if !(i.rxcsrRead || i.rxdbufRead) then .idle else .done := by
  show x.rx.ctl.next (DupIntrs.rxIn i.toIn) = _
  unfold DupIntr.next DupIntrs.rxIn
  simp only [hinit, Bool.not_false, Bool.and_true]
  rfl

theorem tx_next (hinit : i.dupInit = false) : (x.next i).tx.ctl =
    match x.tx.ctl with
    | .idle => if DupIntrs.txTrig i.toIn then .active else .idle
    | .active => if i.vectRead && x.rx.ctl == .idle then .vectRead else .active
    | .vectRead => if !i.vectRead then .wait else .vectRead
    | .wait => if i.txdbufWrite then .done else .wait
    | .done => if !i.txdbufWrite then .idle else .done := by
  have hinh : (!x.rx.ctl.priAct) = (x.rx.ctl == .idle) := by
    unfold DupIntr.priAct
    cases x.rx.ctl <;> rfl
  show x.tx.ctl.next (x.ctls.txIn i.toIn) = _
  unfold DupIntr.next DupIntrs.txIn ctls
  simp only [hinit, hinh]
  rfl

theorem took_next (h : i.vectRead = true) :
    (x.next i).took = if i.take then some x.onBus else x.took := by
  show (if i.vectRead then _ else none) = _
  rw [h]
  rfl

/-- A controller that does not read starts to read in a vector cycle only. -/
theorem ne_vectRead_next (hinit : i.dupInit = false) (hv : i.vectRead = false) :
    (x.next i).rx.ctl ≠ .vectRead ∧ (x.next i).tx.ctl ≠ .vectRead := by
  rw [rx_next hinit, tx_next hinit, hv]
  refine ⟨?_, ?_⟩
  · cases x.rx.ctl with
    | idle => cases DupIntrs.rxTrig i.toIn <;> exact fun h => nomatch h
    | active => exact fun h => nomatch h
    | vectRead => exact fun h => nomatch h
    | wait => cases i.rxcsrRead || i.rxdbufRead <;> exact fun h => nomatch h
    | done => cases i.rxcsrRead || i.rxdbufRead <;> exact fun h => nomatch h
  · cases x.tx.ctl with
    | idle => cases DupIntrs.txTrig i.toIn <;> exact fun h => nomatch h
    | active => exact fun h => nomatch h
    | vectRead => exact fun h => nomatch h
    | wait => cases i.txdbufWrite <;> exact fun h => nomatch h
    | done => cases i.txdbufWrite <;> exact fun h => nomatch h

/-- The transmitter's controller does not read while the receiver is busy. -/
theorem tx_ne_vectRead_next (hinit : i.dupInit = false) (hrx : x.rx.ctl ≠ .idle)
    (htx : x.tx.ctl ≠ .vectRead) : (x.next i).tx.ctl ≠ .vectRead := by
  have hidle : (x.rx.ctl == DupIntr.idle) = false := beq_false_of_ne hrx
  rw [tx_next hinit, hidle, Bool.and_false]
  cases htx' : x.tx.ctl with
  | idle => cases DupIntrs.txTrig i.toIn <;> exact fun h => nomatch h
  | active => exact fun h => nomatch h
  | vectRead => exact absurd htx' htx
  | wait => cases i.txdbufWrite <;> exact fun h => nomatch h
  | done => cases i.txdbufWrite <;> exact fun h => nomatch h

/-- The receiver's controller does not read if it was not active. -/
theorem rx_ne_vectRead_next (hinit : i.dupInit = false) (hactive : x.rx.ctl ≠ .active)
    (hread : x.rx.ctl ≠ .vectRead) : (x.next i).rx.ctl ≠ .vectRead := by
  rw [rx_next hinit]
  cases hrx : x.rx.ctl with
  | idle => cases DupIntrs.rxTrig i.toIn <;> exact fun h => nomatch h
  | active => exact absurd hrx hactive
  | vectRead => exact absurd hrx hread
  | wait => cases i.rxcsrRead || i.rxdbufRead <;> exact fun h => nomatch h
  | done => cases i.rxcsrRead || i.rxdbufRead <;> exact fun h => nomatch h

/-- A clock of a cycle that is the transmitter's. -/
theorem ofTx_next (hinit : i.dupInit = false) (hv : i.vectRead = true)
    (hrx : x.rx.ctl.intr = false) (seen : Bool)
    (htx : x.tx.ctl = if seen then .vectRead else .active)
    (hseen : (x.next i).rxIdleSeen = (seen || x.rx.ctl == .idle)) (htook : x.took ≠ some .rx) :
    Cycle (x.next i) := by
  have hactive : x.rx.ctl ≠ .active := fun h => by rw [h] at hrx; cases hrx
  have hread : x.rx.ctl ≠ .vectRead := fun h => by rw [h] at hrx; cases hrx
  refine .ofTx hv (rx_ne_vectRead_next hinit hactive hread) ?_ ?_
  · rw [tx_next hinit, htx, hseen, hv, Bool.true_and]
    cases seen with
    | true => rfl
    | false => rfl
  · rw [took_next hv, onBus_of_not_intr hrx]
    cases i.take with
    | true => exact fun h => nomatch h
    | false => exact htook

theorem Cycle.next (hcycle : Cycle x) (hlegal : Legal x i) (hfits : Fits x i) :
    Cycle (x.next i) := by
  have hinit := hlegal.init
  cases hv : i.vectRead with
  | false =>
      obtain ⟨hrx, htx⟩ := ne_vectRead_next (x := x) hinit hv
      refine .between hv hrx htx ?_
      show (if i.vectRead then _ else none) = none
      rw [hv]
      rfl
  | true =>
      cases hcycle with
      | between hlast hrx htx htook =>
          have hseen : (x.next i).rxIdleSeen = (false || x.rx.ctl == .idle) := by
            show ((x.lastVect && x.rxIdleSeen) || x.rx.ctl == .idle) = _
            rw [hlast]
            rfl
          cases hintr : x.rx.ctl.intr with
          | true =>
              have hactive : x.rx.ctl = .active := intr_of_active hintr hrx
              refine .ofRx hv ?_ (tx_ne_vectRead_next hinit ?_ htx) ?_
              · rw [rx_next hinit, hactive, hv]
                rfl
              · rw [hactive]
                exact fun h => nomatch h
              · rw [took_next hv, htook, onBus_of_intr hintr]
                cases i.take <;> exact fun h => nomatch h
          | false =>
              have hasked := hlegal.asked hv hlast
              unfold DupIntrs.devIntr ctls at hasked
              rw [hintr, Bool.or_false] at hasked
              refine ofTx_next hinit hv hintr false (intr_of_active hasked htx) hseen ?_
              rw [htook]
              exact fun h => nomatch h
      | ofRx hlast hrx htx htook =>
          refine .ofRx hv ?_ (tx_ne_vectRead_next hinit ?_ htx) ?_
          · rw [rx_next hinit, hrx, hv]
            rfl
          · rw [hrx]
            exact fun h => nomatch h
          · rw [took_next hv, onBus_of_intr (by rw [hrx]; rfl)]
            cases i.take with
            | true => exact fun h => nomatch h
            | false => exact htook
      | ofTx hlast hrx htx htook =>
          have hsteady := hfits.steady hv hlast
          have hintr : x.rx.ctl.intr = false := by
            rw [← Bool.not_eq_true]
            exact fun h => hsteady (intr_of_active h hrx)
          refine ofTx_next hinit hv hintr x.rxIdleSeen htx ?_ htook
          show ((x.lastVect && x.rxIdleSeen) || x.rx.ctl == .idle) = _
          rw [hlast, Bool.true_and]

/-! ## The sides in the vector cycle -/

/-- A vector that has been taken in this cycle is that of a controller that requests. -/
theorem Cycle.asks (hcycle : Cycle x) :
    ((x.took == some .rx) = true → x.rx.ctl.intr = true) ∧
      ((x.took == some .tx) = true → x.tx.ctl.intr = true) := by
  cases hcycle with
  | between hlast hrx htx htook =>
      rw [htook]
      exact ⟨(fun h => nomatch h), (fun h => nomatch h)⟩
  | ofRx hlast hrx htx htook =>
      refine ⟨fun _ => ?_, fun h => absurd (beq_iff_eq.mp h) htook⟩
      rw [hrx]
      rfl
  | ofTx hlast hrx htx htook =>
      refine ⟨fun h => absurd (beq_iff_eq.mp h) htook, fun _ => ?_⟩
      rw [htx]
      cases x.rxIdleSeen <;> rfl

/-- The vector that is taken is pending. -/
theorem Cycle.owed (hcycle : Cycle x) (hlegal : Legal x i)
    (htake : i.take = true) :
    (x.onBus = .rx ∧ x.rxPending = true) ∨
      (x.onBus = .tx ∧ x.rxPending = false ∧ x.txPending = true) := by
  have hv := hlegal.inside htake
  have hnone := hlegal.once htake
  unfold rxPending txPending DupSide.pending
  rw [hnone]
  cases hintr : x.rx.ctl.intr with
  | true => exact Or.inl ⟨onBus_of_intr hintr, rfl⟩
  | false =>
      refine Or.inr ⟨onBus_of_not_intr hintr, rfl, ?_⟩
      have htx : x.tx.ctl.intr = true := by
        cases hcycle with
        | between hlast hrx htx htook =>
            have hasked := hlegal.asked hv hlast
            unfold DupIntrs.devIntr ctls at hasked
            rw [hintr, Bool.or_false] at hasked
            exact hasked
        | ofRx hlast hrx htx htook =>
            rw [hrx] at hintr
            cases hintr
        | ofTx hlast hrx htx htook =>
            rw [htx]
            cases x.rxIdleSeen <;> rfl
      rw [htx]
      rfl

theorem took_goesOn (v : DupVector) (hlegal : Legal x i) (hv : i.vectRead = true) :
    ((x.next i).took == some v) = (x.took == some v || x.delivers i v) := by
  rw [took_next hv]
  unfold delivers
  cases htake : i.take with
  | true =>
      rw [hlegal.once htake]
      cases x.onBus <;> cases v <;> rfl
  | false => exact (Bool.or_false _).symm

theorem took_stops (v : DupVector) (hv : i.vectRead = false) :
    ((x.next i).took == some v) = false := by
  have hnone : (x.next i).took = none := by
    show (if i.vectRead then _ else none) = none
    rw [hv]
    rfl
  rw [hnone]
  rfl

theorem delivers_onBus {v : DupVector} (h : x.delivers i v = true) :
    i.take = true ∧ x.onBus = v := by
  unfold delivers at h
  rw [Bool.and_eq_true, beq_iff_eq] at h
  exact h

theorem Cycle.rxServed (hcycle : Cycle x) (hlegal : Legal x i) :
    x.rx.Served (DupIntrs.rxIn i.toIn) (x.took == some .rx) ((x.next i).took == some .rx)
      (x.delivers i .rx) where
  init := hlegal.init
  asks := hcycle.asks.1
  owed h := by
    obtain ⟨htake, hbus⟩ := delivers_onBus h
    rcases hcycle.owed hlegal htake with ⟨-, hrx⟩ | ⟨htx, -⟩
    · exact hrx
    · rw [hbus] at htx
      cases htx
  inside h := hlegal.inside (delivers_onBus h).1
  goesOn := took_goesOn .rx hlegal
  stops := took_stops .rx
  active hv hactive := by
    rw [← Bool.not_eq_true]
    intro htook
    have htook' : x.took = some .rx := beq_iff_eq.mp htook
    cases hcycle with
    | between hlast hrx htx hnone =>
        rw [hnone] at htook'
        cases htook'
    | ofRx hlast hrx htx hnot =>
        rw [hrx] at hactive
        cases hactive
    | ofTx hlast hrx htx hnot => exact hnot htook'
  read hv hread := by
    cases hcycle with
    | between hlast hrx htx hnone => exact absurd hread hrx
    | ofRx hlast hrx htx hnot =>
        have hsome := hlegal.ends hv hlast
        cases htook : x.took with
        | none => exact absurd htook hsome
        | some v =>
            cases v with
            | rx => rfl
            | tx => exact absurd htook hnot
    | ofTx hlast hrx htx hnot => exact absurd hread hrx

theorem Cycle.txServed (hcycle : Cycle x) (hlegal : Legal x i) (hfits : Fits x i) :
    x.tx.Served (x.ctls.txIn i.toIn) (x.took == some .tx) ((x.next i).took == some .tx)
      (x.delivers i .tx) where
  init := hlegal.init
  asks := hcycle.asks.2
  owed h := by
    obtain ⟨htake, hbus⟩ := delivers_onBus h
    rcases hcycle.owed hlegal htake with ⟨hrx, -⟩ | ⟨-, -, htx⟩
    · rw [hbus] at hrx
      cases hrx
    · exact htx
  inside h := hlegal.inside (delivers_onBus h).1
  goesOn := took_goesOn .tx hlegal
  stops := took_stops .tx
  active hv hactive := by
    rw [← Bool.not_eq_true]
    intro htook
    have htook' : x.took = some .tx := beq_iff_eq.mp htook
    cases hcycle with
    | between hlast hrx htx hnone =>
        rw [hnone] at htook'
        cases htook'
    | ofRx hlast hrx htx hnot => exact hnot htook'
    | ofTx hlast hrx htx hnot =>
        -- The cycle has found the receiver idle, and so the controller reads.
        rw [hfits.seen hv htook'] at htx
        rw [htx] at hactive
        cases hactive
  read hv hread := by
    cases hcycle with
    | between hlast hrx htx hnone => exact absurd hread htx
    | ofRx hlast hrx htx hnot => exact absurd hread htx
    | ofTx hlast hrx htx hnot =>
        have hsome := hlegal.ends hv hlast
        cases htook : x.took with
        | none => exact absurd htook hsome
        | some v =>
            cases v with
            | rx => exact absurd htook hnot
            | tx => rfl

/-! ## Runs -/

structure Inv (x : DupVectors) : Prop where
  cycle : Cycle x
  rx : x.rx.Accounted (x.took == some .rx)
  tx : x.tx.Accounted (x.took == some .tx)
  rxLast : x.rx.fresh = true → x.rx.last = true
  txLast : x.tx.fresh = true → x.tx.last = true

theorem Inv.next (h : Inv x) (hlegal : Legal x i) (hfits : Fits x i) : Inv (x.next i) where
  cycle := h.cycle.next hlegal hfits
  rx := h.rx.next h.rxLast hfits.rx (h.cycle.rxServed hlegal)
  tx := h.tx.next h.txLast hfits.tx (h.cycle.txServed hlegal hfits)
  rxLast := DupSide.last_next
  txLast := DupSide.last_next

theorem Inv.delivers (h : Inv x) (hlegal : Legal x i) : Delivers x i := by
  have hvector : x.ctls.vector = if x.onBus = .rx then DupIntrs.dup1Vect
      else DupIntrs.dup1Vect + 4 := by
    unfold DupIntrs.vector ctls onBus
    cases x.rx.ctl.intr <;> rfl
  refine ⟨h.rx, h.tx, fun htake hrx => ?_, fun htake hrx => ?_⟩
  · rcases h.cycle.owed hlegal htake with ⟨hbus, -⟩ | ⟨-, hnot, -⟩
    · exact ⟨hbus, by rw [hvector, hbus]; rfl⟩
    · rw [hnot] at hrx
      cases hrx
  · rcases h.cycle.owed hlegal htake with ⟨-, hyes⟩ | ⟨hbus, -, htx⟩
    · rw [hyes] at hrx
      cases hrx
    · exact ⟨htx, hbus, by rw [hvector, hbus]; rfl⟩

theorem afterReset_inv : Inv afterReset where
  cycle := .between rfl (fun h => nomatch h) (fun h => nomatch h) rfl
  rx := rfl
  tx := rfl
  rxLast := fun h => nomatch h
  txLast := fun h => nomatch h

/-- In every run whose clocks fit, every trigger is delivered once or is still owed, and the
receiver's vector goes before the transmitter's. -/
theorem vectors_run {i : Nat → In} (hlegal : ∀ t, Legal (run next afterReset i t) (i t))
    (hfits : ∀ t, Fits (run next afterReset i t) (i t)) (t : Nat) :
    Delivers (run next afterReset i t) (i t) := by
  have hinv : Inv (run next afterReset i t) :=
    run_invariant_of (C := fun x i => Legal x i ∧ Fits x i) afterReset_inv
      (fun _ _ hC hP => hP.next hC.1 hC.2) fun u _ => ⟨hlegal u, hfits u⟩
  exact hinv.delivers (hlegal t)

/-! ## Both interrupts at once -/

/-- Both sides are enabled, and the receiver and the transmitter are done at the clocks
`rxDone` and `txDone`.  The vector is read at the clocks `vects`, and the data registers are
read and written at the clock `rxdbuf` and the clock `txdbuf`. -/
def both (rxDone txDone : Nat → Bool) (vects : List Nat) (rxdbuf txdbuf t : Nat) : In where
  dupInit := false
  vectRead := vects.contains t
  rxcsrRead := false
  rxdbufRead := t == rxdbuf
  txdbufWrite := t == txdbuf
  dupRxie := true
  dupRxDone := rxDone t
  dupDscie := false
  dupDsca := false
  dupTxie := true
  dupTxDone := txDone t
  take := vects.contains t

/-- A clock without a vector cycle that follows another. -/
theorem legal_of_still {j : In} (hi : i.vectRead = false) (hinit : j.dupInit = false)
    (hj : j.vectRead = false) (htake : j.take = false) : Legal (x.next i) j := by
  refine ⟨hinit, fun h => ?_, fun h => ?_, fun h => ?_, fun _ h => ?_⟩
  · rw [hj] at h
    cases h
  · rw [htake] at h
    cases h
  · rw [htake] at h
    cases h
  · have hlast : i.vectRead = true := h
    rw [hi] at hlast
    cases hlast

/-- A clock without a vector cycle and without levels that follows another. -/
theorem fits_of_still {j : In} (hi : i.vectRead = false) (hirx : DupIntrs.rxTrig i.toIn = false)
    (hitx : DupIntrs.txTrig i.toIn = false) (hj : j.vectRead = false)
    (hjrx : DupIntrs.rxTrig j.toIn = false) (hjtx : DupIntrs.txTrig j.toIn = false) :
    Fits (x.next i) j := by
  have hstill : ∀ (s : DupSide) (k l : DupIntr.In) (d : Bool), k.trig = false → l.trig = false →
      (s.next k d).Held l := by
    intro s k l d hk hl
    refine ⟨fun h => ?_, fun h => ?_⟩
    · have hfresh : (k.trig && (s.fresh || s.rises k) && !s.takes k) = true := h
      rw [hk] at hfresh
      cases hfresh
    · unfold DupSide.takes at h
      rw [hl, Bool.and_false] at h
      cases h
  refine ⟨hstill _ _ _ _ hirx hjrx, hstill _ _ _ _ hitx hjtx, fun h => ?_, fun _ h => ?_⟩
  · rw [hj] at h
    cases h
  · have htook : (if i.vectRead then if i.take then some x.onBus else x.took else none) =
        some DupVector.tx := h
    rw [hi] at htook
    cases htook

/-- Both are done at once.  The receiver is read before the second vector cycle. -/
def inTurn : Nat → In := both (· < 4) (· < 7) [1, 5] 3 7

theorem vectors_run_inTurn :
    (run next afterReset inTurn 12).rx.delivered = 1 ∧
      (run next afterReset inTurn 12).tx.delivered = 1 ∧
      ∀ t, Delivers (run next afterReset inTurn t) (inTurn t) := by
  have hlate : ∀ t, 9 ≤ t → (inTurn t).vectRead = false ∧ DupIntrs.rxTrig (inTurn t).toIn = false ∧
      DupIntrs.txTrig (inTurn t).toIn = false ∧ (inTurn t).take = false := by
    intro t ht
    have hvect : ([1, 5] : List Nat).contains t = false := by
      rw [List.contains_eq_mem, decide_eq_false_iff_not]
      simp
      omega
    have hrx : decide (t < 4) = false := decide_eq_false (by omega)
    have htx : decide (t < 7) = false := decide_eq_false (by omega)
    refine ⟨hvect, ?_, ?_, hvect⟩
    · show (true && decide (t < 4) || false && false) = false
      rw [hrx]
      rfl
    · show (true && decide (t < 7)) = false
      rw [htx]
      rfl
  refine ⟨by decide +kernel, by decide +kernel, vectors_run (fun t => ?_) fun t => ?_⟩
  · by_cases ht : t < 10
    · revert t
      decide +kernel
    · obtain ⟨u, rfl⟩ : ∃ u, t = u + 1 := ⟨t - 1, by omega⟩
      obtain ⟨hu, -⟩ := hlate u (by omega)
      obtain ⟨hv, -, -, htake⟩ := hlate (u + 1) (by omega)
      exact legal_of_still hu rfl hv htake
  · by_cases ht : t < 10
    · revert t
      decide +kernel
    · obtain ⟨u, rfl⟩ : ∃ u, t = u + 1 := ⟨t - 1, by omega⟩
      obtain ⟨hu, hurx, hutx, -⟩ := hlate u (by omega)
      obtain ⟨hv, hvrx, hvtx, -⟩ := hlate (u + 1) (by omega)
      exact fits_of_still hu hurx hutx hv hvrx hvtx

/-- The receiver is not serviced: the transmitter's vector is delivered again and again. -/
def unserviced : Nat → In := both (fun _ => true) (fun _ => true) [1, 3, 5] 0 0

theorem vectors_fails :
    ¬ ∀ i : Nat → In, (∀ t, Legal (run next afterReset i t) (i t)) →
      ∀ t, Delivers (run next afterReset i t) (i t) := by
  intro h
  have hlate : ∀ t, 6 ≤ t → ([1, 3, 5] : List Nat).contains t = false := by
    intro t ht
    rw [List.contains_eq_mem, decide_eq_false_iff_not]
    simp
    omega
  have hlegal : ∀ t, Legal (run next afterReset unserviced t) (unserviced t) := by
    intro t
    by_cases ht : t < 7
    · revert t
      decide +kernel
    · obtain ⟨u, rfl⟩ : ∃ u, t = u + 1 := ⟨t - 1, by omega⟩
      exact legal_of_still (hlate u (by omega)) rfl (hlate (u + 1) (by omega))
        (hlate (u + 1) (by omega))
  have htx := (h unserviced hlegal 6).tx
  unfold DupSide.Accounted at htx
  revert htx
  decide +kernel

end DupVectors

end KS10
