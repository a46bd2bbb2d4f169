import KS10.Uba.Interrupt

/-!
# The interrupt controllers of the devices

Each device has its own interrupt state machine.  The line printer's and the two of
the DUP11 are alike: a request becomes active, any vector cycle on the adapter reads
its vector, and it can be requested again once the device has been serviced.  The
DUP11 inhibits its transmitter while its receiver is busy with an interrupt.

The DZ11 has a request state for its receiver and one for its transmitter, and an
arbiter that listens to the acknowledge lines.  It commits to the receiver or the
transmitter when it is acknowledged.
-/

namespace KS10

/-! ## LPINTR -/

inductive LpIntr where
  | idle
  | active
  | vectRead
  | wait
  | done
  deriving DecidableEq

namespace LpIntr

structure In where
  lpInit : Bool
  lpSetIrq : Bool
  lpIe : Bool
  csraRead : Bool
  vectRead : Bool

def next (s : LpIntr) (i : In) : LpIntr :=
  if i.lpInit then .idle
  else
    match s with
    | .idle => if i.lpSetIrq && i.lpIe then .active else .idle
    | .active => if i.vectRead then .vectRead else .active
    | .vectRead => if !i.vectRead then .wait else .vectRead
    | .wait => if i.csraRead then .done else .wait
    | .done => if !i.csraRead then .idle else .done

/-- The interrupt request. -/
def requests (s : LpIntr) : Bool := s == .active || s == .vectRead

/-- An active request stays, also when its vector is read. -/
theorem stays {i : In} (hinit : i.lpInit = false) : (next .active i).requests = true := by
  cases hv : i.vectRead with
  | true => simp [next, hinit, hv, requests]
  | false => simp [next, hinit, hv, requests]

/-- The read of the vector ends the request. -/
theorem falls {s : LpIntr} {i j k : In} (hreq : s.requests = true) (hinit : i.lpInit = false)
    (hinitj : j.lpInit = false) (hinitk : k.lpInit = false) (hv : i.vectRead = true)
    (hvj : j.vectRead = false) : (((s.next i).next j).next k).requests = false := by
  have hread : s.next i = .vectRead := by
    simp only [requests, Bool.or_eq_true, beq_iff_eq] at hreq
    rcases hreq with rfl | rfl
    · simp [next, hinit, hv]
    · simp [next, hinit, hv]
  have hwait : (s.next i).next j = .wait := by
    rw [hread]
    simp [next, hinitj, hvj]
  rw [hwait]
  cases hcsra : k.csraRead with
  | true => simp [next, hinitk, hcsra, requests]
  | false => simp [next, hinitk, hcsra, requests]

end LpIntr

/-! ## DUPINTR -/

inductive DupIntr where
  | idle
  | active
  | vectRead
  | wait
  | done
  deriving DecidableEq

namespace DupIntr

structure In where
  init : Bool
  vect : Bool
  statRw : Bool
  trig : Bool
  secInh : Bool

def next (s : DupIntr) (i : In) : DupIntr :=
  if i.init then .idle
  else
    match s with
    | .idle => if i.trig then .active else .idle
    | .active => if i.vect && !i.secInh then .vectRead else .active
    | .vectRead => if !i.vect then .wait else .vectRead
    | .wait => if i.statRw then .done else .wait
    | .done => if !i.statRw then .idle else .done

def intr (s : DupIntr) : Bool := s == .active || s == .vectRead

/-- The primary is active. -/
def priAct (s : DupIntr) : Bool := s != .idle

/-- An active request stays, also when its vector is read. -/
theorem stays {i : In} (hinit : i.init = false) : (next .active i).intr = true := by
  cases hv : i.vect && !i.secInh with
  | true => simp [next, hinit, hv, intr]
  | false => simp [next, hinit, hv, intr]

/-- The read of the vector ends the request, unless the primary inhibits it. -/
theorem falls {s : DupIntr} {i j k : In} (hreq : s.intr = true) (hinit : i.init = false)
    (hinitj : j.init = false) (hinitk : k.init = false) (hv : i.vect = true)
    (hsec : i.secInh = false) (hvj : j.vect = false) :
    (((s.next i).next j).next k).intr = false := by
  have hread : s.next i = .vectRead := by
    simp only [intr, Bool.or_eq_true, beq_iff_eq] at hreq
    rcases hreq with rfl | rfl
    · simp [next, hinit, hv, hsec]
    · simp [next, hinit, hv]
  have hwait : (s.next i).next j = .wait := by
    rw [hread]
    simp [next, hinitj, hvj]
  rw [hwait]
  cases hstat : k.statRw with
  | true => simp [next, hinitk, hstat, intr]
  | false => simp [next, hinitk, hstat, intr]

end DupIntr

/-! ## DZINTR -/

/-- The request states of the DZ11's receiver and transmitter. -/
inductive DzReq where
  | idle
  | act
  | wait
  | done
  deriving DecidableEq

inductive DzArb where
  | idle
  | iack
  | vectRead
  | vectClr
  | rxDone
  | txDone
  deriving DecidableEq

structure DzIntr where
  rxState : DzReq
  txState : DzReq
  arbState : DzArb
  rxVector : Bool
  deriving DecidableEq

namespace DzIntr

structure In where
  clr : Bool
  iack : Bool
  vectRead : Bool
  csrRie : Bool
  csrRrdy : Bool
  rbufRead : Bool
  csrTie : Bool
  csrTrdy : Bool
  tdrWrite : Bool

/-- One request state machine: `set` raises the request, `clear` is the arbiter's, and
`service` is the access to the data register. -/
def nextReq (s : DzReq) (clr set clear service : Bool) : DzReq :=
  if clr then .idle
  else
    match s with
    | .idle => if set then .act else .idle
    | .act => if clear then .wait else .act
    | .wait => if service then .done else .wait
    | .done => if !service then .idle else .done

def rxIntr (s : DzIntr) (i : In) : Bool := s.rxState == .act && i.csrRie

def txIntr (s : DzIntr) (i : In) : Bool := s.txState == .act && i.csrTie

def rxClr (s : DzIntr) : Bool := s.arbState == .rxDone

def txClr (s : DzIntr) : Bool := s.arbState == .txDone

def nextRx (s : DzIntr) (i : In) : DzReq :=
  nextReq s.rxState i.clr (i.csrRrdy && i.csrRie) s.rxClr i.rbufRead

def nextTx (s : DzIntr) (i : In) : DzReq :=
  nextReq s.txState i.clr (i.csrTrdy && i.csrTie) s.txClr i.tdrWrite

def nextArb (s : DzIntr) (i : In) : DzArb :=
  if i.clr then .idle
  else
    match s.arbState with
    | .idle => if s.rxState == .act || s.txState == .act then .iack else .idle
    | .iack => if i.iack then .vectRead else .iack
    | .vectRead => if i.vectRead then .vectClr else .vectRead
    | .vectClr => if !i.vectRead then (if s.rxVector then .rxDone else .txDone) else .vectClr
    | .rxDone => .idle
    | .txDone => .idle

def nextVector (s : DzIntr) (i : In) : Bool :=
  if i.clr then false
  else if s.arbState == .iack && i.iack then s.rxIntr i
  else s.rxVector

def next (s : DzIntr) (i : In) : DzIntr where
  rxState := s.nextRx i
  txState := s.nextTx i
  arbState := s.nextArb i
  rxVector := s.nextVector i

end DzIntr

end KS10
