import KS10.Clocked.Run
import KS10.Uba.Devices

/-!
# Interrupt delivery on a shared adapter

Adapter 3 hosts the DZ11 on BR5, the LP20 on BR4 and the DUP11 on BR5.  All three see
every vector cycle of the adapter, and the line printer's and the DUP11's controllers
take any of them for their own.  The vector on the bus is chosen by the requests of
the moment.  An interrupt is therefore delivered to the source that the vector names,
and to no other, exactly in the situations of `Unibus3.Serves`.

A request is pending from the clock that raises it until its vector has been on the
bus.  As long as every clock of a vector cycle meets one of these situations, no
pending request is lost (`Unibus3.pending_run`): the invariant that carries the
argument is that a controller leaves its active state for a vector cycle only when
that cycle carries its vector (`Unibus3.Inv`).
-/

namespace KS10

open Clocked

/-! ## The adapter and its devices -/

structure Unibus3 where
  dz : DzIntr
  lp : LpIntr
  dupRx : DupIntr
  dupTx : DupIntr
  /-- The acknowledge lines. -/
  devInta : Level

/-- The inputs of one clock: the bus address, the adapter's priorities, and what the
devices' registers and their decoders supply. -/
structure Unibus3.In where
  busAddr : BitVec 36
  statPih : BitVec 3
  statPil : BitVec 3
  dzClr : Bool
  csrRie : Bool
  csrRrdy : Bool
  rbufRead : Bool
  csrTie : Bool
  csrTrdy : Bool
  tdrWrite : Bool
  lpInit : Bool
  lpSetIrq : Bool
  lpIe : Bool
  csraRead : Bool
  dupInit : Bool
  dupRxie : Bool
  dupRxDone : Bool
  dupDscie : Bool
  dupDsca : Bool
  dupTxie : Bool
  dupTxDone : Bool
  rxcsrRead : Bool
  rxdbufRead : Bool
  txdbufWrite : Bool
  deriving Inhabited

namespace Unibus3

def conf : Uba.Conf where
  ubaNum := 3
  ubaAddr := 0o763000

/-- A vector cycle of the adapter is on the bus. -/
def vectRead (i : In) : Bool := Uba.vectRead conf i.busAddr

def dzIn (s : Unibus3) (i : In) : DzIntr.In where
  clr := i.dzClr
  iack := Bus.busWru i.busAddr && s.devInta == Level.intr5
  vectRead := vectRead i
  csrRie := i.csrRie
  csrRrdy := i.csrRrdy
  rbufRead := i.rbufRead
  csrTie := i.csrTie
  csrTrdy := i.csrTrdy
  tdrWrite := i.tdrWrite

def lpIn (i : In) : LpIntr.In where
  lpInit := i.lpInit
  lpSetIrq := i.lpSetIrq
  lpIe := i.lpIe
  csraRead := i.csraRead
  vectRead := vectRead i

def dupRxIn (i : In) : DupIntr.In where
  init := i.dupInit
  vect := vectRead i
  statRw := i.rxcsrRead || i.rxdbufRead
  trig := (i.dupRxie && i.dupRxDone) || (i.dupDscie && i.dupDsca)
  secInh := false

def dupTxIn (s : Unibus3) (i : In) : DupIntr.In where
  init := i.dupInit
  vect := vectRead i
  statRw := i.txdbufWrite
  trig := i.dupTxie && i.dupTxDone
  secInh := s.dupRx.priAct

def dzRequests (s : Unibus3) (i : In) : Bool :=
  s.dz.rxIntr (s.dzIn i) || s.dz.txIntr (s.dzIn i)

def dupRequests (s : Unibus3) : Bool := s.dupTx.intr || s.dupRx.intr

/-- The interrupt requests of the devices, by their place on the adapter. -/
def devIntr (s : Unibus3) (i : In) : Fin 4 → Level
  | 0 => if s.dzRequests i then Level.intr5 else Level.intrNul
  | 1 => if s.lp.requests then Level.intr4 else Level.intrNul
  | 2 => if s.dupRequests then Level.intr5 else Level.intrNul
  | 3 => Level.intrNul

/-- What the devices put on their data lines in a vector cycle. -/
def devData (s : Unibus3) : Fin 4 → BitVec 36
  | 0 => if s.dz.rxVector then 0o340 else 0o344
  | 1 => 0o754
  | 2 => if s.dupRx.intr then 0o570 else 0o574
  | 3 => 0

/-- The vector on the bus. -/
def vector (s : Unibus3) (i : In) : BitVec 36 :=
  UbaIntr.vectorData (s.devIntr i) s.devData

/-- One clock of the adapter's interrupt logic and its devices. -/
def next (s : Unibus3) (i : In) : Unibus3 where
  dz := s.dz.next (s.dzIn i)
  lp := s.lp.next (lpIn i)
  dupRx := s.dupRx.next (dupRxIn i)
  dupTx := s.dupTx.next (s.dupTxIn i)
  devInta := UbaIntr.nextInta i.busAddr i.statPih i.statPil (UbaIntr.anyIntr (s.devIntr i))

def reset : Unibus3 where
  dz := { rxState := .idle, txState := .idle, arbState := .idle, rxVector := false }
  lp := .idle
  dupRx := .idle
  dupTx := .idle
  devInta := Level.intrNul

/-! ## Sources of interrupts -/

inductive Source where
  | dzRx
  | dzTx
  | lp
  | dupRx
  | dupTx
  deriving DecidableEq

namespace Source

def vector : Source → BitVec 36
  | .dzRx => 0o340
  | .dzTx => 0o344
  | .lp => 0o754
  | .dupRx => 0o570
  | .dupTx => 0o574

def level : Source → Level
  | .dzRx => Level.intr5
  | .dzTx => Level.intr5
  | .lp => Level.intr4
  | .dupRx => Level.intr5
  | .dupTx => Level.intr5

theorem vector_inj : ∀ x y : Source, x.vector = y.vector → x = y := by
  intro x y
  cases x <;> cases y <;> decide

end Source

/-- The source's request is up: raised, and not taken back by the end of a vector
cycle. -/
def waiting (s : Unibus3) : Source → Bool
  | .dzRx => s.dz.rxState == .act
  | .dzTx => s.dz.txState == .act
  | .lp => s.lp.requests
  | .dupRx => s.dupRx.intr
  | .dupTx => s.dupTx.intr

/-- The source's controller is initialised at this clock. -/
def initialised (i : In) : Source → Bool
  | .dzRx => i.dzClr
  | .dzTx => i.dzClr
  | .lp => i.lpInit
  | .dupRx => i.dupInit
  | .dupTx => i.dupInit

/-! ## When a vector cycle serves one source -/

/-- The DZ11 has been acknowledged and takes the vector cycle for its own. -/
def dzAcked (s : Unibus3) : Bool := s.dz.arbState == .vectRead || s.dz.arbState == .vectClr

/-- A controller of the DUP11 takes the vector cycle for its own. -/
def dupTakes (s : Unibus3) : Bool :=
  s.dupRx.intr || (s.dupTx.intr && s.dupRx == .idle) || s.dupTx == .vectRead

/-- In this situation a vector cycle serves the source `x` and no other: the line
printer requests alone; the DUP11 requests alone, its transmitter only while its
receiver is idle; or the DZ11 has been acknowledged, still has the request it was
acknowledged for, and neither the line printer nor the DUP11 takes the cycle. -/
inductive Serves (s : Unibus3) (i : In) : Source → Prop where
  | lp (hlp : s.lp.requests = true) (hdup : s.dupRequests = false)
      (hdz : s.dzRequests i = false) (hack : s.dzAcked = false) : Serves s i .lp
  | dupRx (hrx : s.dupRx.intr = true) (htx : s.dupTx ≠ .vectRead)
      (hlp : s.lp.requests = false) (hdz : s.dzRequests i = false)
      (hack : s.dzAcked = false) : Serves s i .dupRx
  | dupTx (htx : s.dupTx.intr = true) (hrx : s.dupRx = .idle)
      (hlp : s.lp.requests = false) (hdz : s.dzRequests i = false)
      (hack : s.dzAcked = false) : Serves s i .dupTx
  | dzRx (hack : s.dzAcked = true) (hvec : s.dz.rxVector = true)
      (hrx : s.dz.rxIntr (s.dzIn i) = true) (hlp : s.lp.requests = false)
      (hdup : s.dupTakes = false) : Serves s i .dzRx
  | dzTx (hack : s.dzAcked = true) (hvec : s.dz.rxVector = false)
      (htx : s.dz.txIntr (s.dzIn i) = true) (hlp : s.lp.requests = false)
      (hdup : s.dupTakes = false) : Serves s i .dzTx

variable {s : Unibus3} {i : In} {x y : Source}

theorem Serves.waiting (h : Serves s i x) : s.waiting x = true := by
  cases h with
  | lp hlp => exact hlp
  | dupRx hrx => exact hrx
  | dupTx htx => exact htx
  | dzRx _ _ hrx =>
      simp only [DzIntr.rxIntr, Bool.and_eq_true] at hrx
      exact hrx.1
  | dzTx _ _ htx =>
      simp only [DzIntr.txIntr, Bool.and_eq_true] at htx
      exact htx.1

/-- The bits of the request lines. -/
theorem bits_level (b : Bool) (k : Nat) :
    bit (if b then Level.intr5 else Level.intrNul) k = (b && bit Level.intr5 k) ∧
    bit (if b then Level.intr4 else Level.intrNul) k = (b && bit Level.intr4 k) := by
  cases b <;> simp [Level.intrNul, bit]

/-- The vector on the bus, from the three devices' requests. -/
theorem vector_eq (s : Unibus3) (i : In) :
    s.vector i =
      if s.dzRequests i then s.devData 0
      else if s.dupRequests then s.devData 2
      else if s.lp.requests then s.devData 1
      else 0 := by
  have h5 : bit Level.intr5 0 = false ∧ bit Level.intr5 1 = false ∧
      bit Level.intr5 2 = true ∧ bit Level.intr5 3 = false := by decide
  have h4 : bit Level.intr4 0 = false ∧ bit Level.intr4 1 = false ∧
      bit Level.intr4 2 = false ∧ bit Level.intr4 3 = true := by decide
  have h0 : bit Level.intrNul 0 = false ∧ bit Level.intrNul 1 = false ∧
      bit Level.intrNul 2 = false ∧ bit Level.intrNul 3 = false := by decide
  simp only [vector, UbaIntr.vectorData, devIntr, (bits_level _ _).1, (bits_level _ _).2, h5,
    h4, h0, Bool.and_false, Bool.and_true, Bool.false_eq_true, if_false]

/-- The vector on the bus is the one of the source served. -/
theorem Serves.vector_eq (h : Serves s i x) : s.vector i = x.vector := by
  rw [Unibus3.vector_eq]
  cases h with
  | lp hlp hdup hdz _ => simp [hlp, hdup, hdz, devData, Source.vector]
  | dupRx hrx _ _ hdz _ => simp [dupRequests, hrx, hdz, devData, Source.vector]
  | dupTx htx hrx _ hdz _ =>
      have hnone : s.dupRx.intr = false := by rw [hrx]; rfl
      simp [dupRequests, htx, hnone, hdz, devData, Source.vector]
  | dzRx _ hvec hrx _ _ => simp [dzRequests, hrx, devData, hvec, Source.vector]
  | dzTx _ hvec htx _ _ => simp [dzRequests, htx, devData, hvec, Source.vector]

/-! ## The record of the deliveries -/

/-- What the processor knows: the level that the last WRU cycle acknowledged, and the
waiting sources whose vector has been on the bus. -/
structure Record where
  acked : Level
  handed : Source → Bool

/-- A WRU cycle on one of the adapter's priorities is on the bus. -/
def wruHere (i : In) : Bool := Uba.wruRead i.busAddr &&
  (Bus.busPi i.busAddr == i.statPih || Bus.busPi i.busAddr == i.statPil)

/-- The vector of `x` is on the bus. -/
def hands (s : Unibus3) (i : In) (x : Source) : Bool :=
  vectRead i && s.vector i == x.vector

def Record.move (r : Record) (s : Unibus3) (i : In) : Record where
  acked := if wruHere i then (next s i).devInta else r.acked
  handed := fun x => (next s i).waiting x && (r.handed x || s.hands i x)

def Record.start : Record where
  acked := Level.intrNul
  handed := fun _ => false

/-- The request of `x` is up and its vector has not been on the bus. -/
def pending (s : Unibus3) (r : Record) (x : Source) : Prop :=
  s.waiting x = true ∧ r.handed x = false

/-- A vector cycle serves one source, on the level that was acknowledged. -/
def Served (s : Unibus3) (i : In) (r : Record) : Prop :=
  vectRead i = true → ∃ x, s.Serves i x ∧ x.level = r.acked

theorem Serves.hands (h : Serves s i x) (hv : vectRead i = true) (y : Source) :
    s.hands i y = true ↔ y = x := by
  unfold Unibus3.hands
  rw [h.vector_eq, hv, Bool.true_and, beq_iff_eq]
  exact ⟨fun heq => (Source.vector_inj x y heq).symm, fun heq => by rw [heq]⟩

/-- A controller is past its active state only after its vector has been on the bus. -/
structure Inv (s : Unibus3) (r : Record) : Prop where
  lp : s.lp = .vectRead → r.handed .lp = true
  dupRx : s.dupRx = .vectRead → r.handed .dupRx = true
  dupTx : s.dupTx = .vectRead → r.handed .dupTx = true
  rxClr : s.dz.arbState = .vectClr → s.dz.rxVector = true →
    s.dz.rxState = .act ∧ r.handed .dzRx = true
  txClr : s.dz.arbState = .vectClr → s.dz.rxVector = false →
    s.dz.txState = .act ∧ r.handed .dzTx = true
  rxDone : s.dz.arbState = .rxDone → r.handed .dzRx = true
  txDone : s.dz.arbState = .txDone → r.handed .dzTx = true

theorem Inv.start : Inv reset Record.start where
  lp := nofun
  dupRx := nofun
  dupTx := nofun
  rxClr := nofun
  txClr := nofun
  rxDone := nofun
  txDone := nofun

variable {r : Record}

/-- A source that stays up is recorded once its vector is, or was, on the bus. -/
theorem Record.handed_move (hwait : (next s i).waiting x = true)
    (h : r.handed x = true ∨ s.hands i x = true) : (r.move s i).handed x = true := by
  simp only [Record.move, hwait, Bool.true_and, Bool.or_eq_true]
  exact h

/-! ## One clock -/

theorem Inv.lp_move (h : Inv s r) (hserved : Served s i r)
    (hnext : (next s i).lp = .vectRead) : (r.move s i).handed .lp = true := by
  refine Record.handed_move (by simp [Unibus3.waiting, LpIntr.requests, hnext]) ?_
  simp only [next, LpIntr.next, lpIn] at hnext
  cases hinit : i.lpInit with
  | true => simp [hinit] at hnext
  | false =>
      cases hlp : s.lp with
      | idle =>
          cases hset : i.lpSetIrq && i.lpIe <;> simp [hinit, hlp, hset] at hnext
      | active =>
          cases hv : vectRead i with
          | false => simp [hinit, hlp, hv] at hnext
          | true =>
              obtain ⟨x, hx, _⟩ := hserved hv
              have hreq : s.lp.requests = true := by rw [hlp]; rfl
              right
              rw [hx.hands hv]
              cases hx with
              | lp => rfl
              | dupRx _ _ hno => rw [hreq] at hno; cases hno
              | dupTx _ _ hno => rw [hreq] at hno; cases hno
              | dzRx _ _ _ hno => rw [hreq] at hno; cases hno
              | dzTx _ _ _ hno => rw [hreq] at hno; cases hno
      | vectRead => exact Or.inl (h.lp hlp)
      | wait => cases hcsra : i.csraRead <;> simp [hinit, hlp, hcsra] at hnext
      | done => cases hcsra : i.csraRead <;> simp [hinit, hlp, hcsra] at hnext

/-- A DUP11 controller enters its vector state from its active state only. -/
theorem dupIntr_next_vectRead {d : DupIntr} {j : DupIntr.In} (h : d.next j = .vectRead) :
    (d = .active ∧ j.vect = true ∧ j.secInh = false) ∨ (d = .vectRead ∧ j.vect = true) := by
  simp only [DupIntr.next] at h
  cases hinit : j.init with
  | true => simp [hinit] at h
  | false =>
      cases d with
      | idle => cases ht : j.trig <;> simp [hinit, ht] at h
      | active =>
          cases hv : j.vect <;> cases hs : j.secInh <;> simp [hinit, hv, hs] at h
          exact Or.inl ⟨rfl, rfl, rfl⟩
      | vectRead =>
          cases hv : j.vect <;> simp [hinit, hv] at h
          exact Or.inr ⟨rfl, rfl⟩
      | wait => cases hs : j.statRw <;> simp [hinit, hs] at h
      | done => cases hs : j.statRw <;> simp [hinit, hs] at h

theorem Inv.dupRx_move (h : Inv s r) (hserved : Served s i r)
    (hnext : (next s i).dupRx = .vectRead) : (r.move s i).handed .dupRx = true := by
  refine Record.handed_move (by simp [Unibus3.waiting, DupIntr.intr, hnext]) ?_
  rcases dupIntr_next_vectRead hnext with ⟨hact, hv, _⟩ | ⟨hread, _⟩
  · obtain ⟨x, hx, _⟩ := hserved hv
    have hreq : s.dupRx.intr = true := by rw [hact]; rfl
    right
    rw [hx.hands hv]
    cases hx with
    | lp _ hno => simp [dupRequests, hreq] at hno
    | dupRx => rfl
    | dupTx _ hidle => rw [hact] at hidle; cases hidle
    | dzRx _ _ _ _ hno => simp [dupTakes, hreq] at hno
    | dzTx _ _ _ _ hno => simp [dupTakes, hreq] at hno
  · exact Or.inl (h.dupRx hread)

theorem Inv.dupTx_move (h : Inv s r) (hserved : Served s i r)
    (hnext : (next s i).dupTx = .vectRead) : (r.move s i).handed .dupTx = true := by
  refine Record.handed_move (by simp [Unibus3.waiting, DupIntr.intr, hnext]) ?_
  rcases dupIntr_next_vectRead hnext with ⟨hact, hv, hinh⟩ | ⟨hread, _⟩
  · obtain ⟨x, hx, _⟩ := hserved hv
    have hreq : s.dupTx.intr = true := by rw [hact]; rfl
    have hidle : s.dupRx = .idle := by
      simpa [dupTxIn, DupIntr.priAct] using hinh
    right
    rw [hx.hands hv]
    cases hx with
    | lp _ hno => simp [dupRequests, hreq] at hno
    | dupRx hrx => rw [hidle] at hrx; cases hrx
    | dupTx => rfl
    | dzRx _ _ _ _ hno => simp [dupTakes, hreq, hidle] at hno
    | dzTx _ _ _ _ hno => simp [dupTakes, hreq, hidle] at hno
  · exact Or.inl (h.dupTx hread)

/-- The DZ11's arbiter is in a vector cycle because it was, or was acknowledged. -/
theorem dzIntr_next_vectClr {d : DzIntr} {j : DzIntr.In} (h : d.nextArb j = .vectClr) :
    (d.arbState = .vectRead ∨ d.arbState = .vectClr) ∧ j.vectRead = true ∧ j.clr = false := by
  simp only [DzIntr.nextArb] at h
  cases hclr : j.clr with
  | true => simp [hclr] at h
  | false =>
      cases harb : d.arbState with
      | idle =>
          cases hact : d.rxState == .act || d.txState == .act <;> simp [hclr, harb, hact] at h
      | iack => cases hi : j.iack <;> simp [hclr, harb, hi] at h
      | vectRead =>
          cases hv : j.vectRead <;> simp [hclr, harb, hv] at h
          exact ⟨Or.inl rfl, rfl, rfl⟩
      | vectClr =>
          cases hv : j.vectRead <;> cases hx : d.rxVector <;> simp [hclr, harb, hv, hx] at h
          · exact ⟨Or.inr rfl, rfl, rfl⟩
          · exact ⟨Or.inr rfl, rfl, rfl⟩
      | rxDone => simp [hclr, harb] at h
      | txDone => simp [hclr, harb] at h

/-- The arbiter clears the request it was acknowledged for once the vector cycle ends. -/
theorem dzIntr_next_done {d : DzIntr} {j : DzIntr.In} :
    (d.nextArb j = .rxDone → d.arbState = .vectClr ∧ d.rxVector = true ∧ j.clr = false) ∧
    (d.nextArb j = .txDone → d.arbState = .vectClr ∧ d.rxVector = false ∧ j.clr = false) := by
  simp only [DzIntr.nextArb]
  cases hclr : j.clr with
  | true => simp
  | false =>
      cases harb : d.arbState with
      | idle => cases hact : d.rxState == .act || d.txState == .act <;> simp
      | iack => cases hi : j.iack <;> simp
      | vectRead => cases hv : j.vectRead <;> simp
      | vectClr => cases hv : j.vectRead <;> cases hx : d.rxVector <;> simp
      | rxDone => simp
      | txDone => simp

/-- An active request stays active until the arbiter clears it. -/
theorem dzReq_stays {q : DzReq} {set clear service : Bool} (hq : q = .act)
    (hclear : clear = false) : DzIntr.nextReq q false set clear service = .act := by
  simp [DzIntr.nextReq, hq, hclear]

theorem nextVector_of_acked {d : DzIntr} {j : DzIntr.In} (hclr : j.clr = false)
    (harb : d.arbState = .vectRead ∨ d.arbState = .vectClr) : d.nextVector j = d.rxVector := by
  rcases harb with h | h <;> simp [DzIntr.nextVector, hclr, h]

theorem Inv.rxClr_move (h : Inv s r) (hserved : Served s i r)
    (harb : (next s i).dz.arbState = .vectClr) (hvec : (next s i).dz.rxVector = true) :
    (next s i).dz.rxState = .act ∧ (r.move s i).handed .dzRx = true := by
  obtain ⟨hin, hv, hclr⟩ := dzIntr_next_vectClr harb
  have hsame : s.dz.rxVector = true := (nextVector_of_acked hclr hin).symm.trans hvec
  have hack : s.dzAcked = true := by
    rcases hin with hin | hin <;> simp [dzAcked, hin]
  have hnotDone : s.dz.rxClr = false := by
    rcases hin with hin | hin <;> simp [DzIntr.rxClr, hin]
  have hact : s.dz.rxState = .act ∧ (r.handed .dzRx = true ∨ s.hands i .dzRx = true) := by
    rcases hin with hin | hin
    · obtain ⟨x, hx, _⟩ := hserved hv
      rw [hx.hands hv]
      cases hx with
      | lp _ _ _ hno => rw [hack] at hno; cases hno
      | dupRx _ _ _ _ hno => rw [hack] at hno; cases hno
      | dupTx _ _ _ _ hno => rw [hack] at hno; cases hno
      | dzRx _ _ hrx =>
          simp only [DzIntr.rxIntr, Bool.and_eq_true, beq_iff_eq] at hrx
          exact ⟨hrx.1, Or.inr rfl⟩
      | dzTx _ hno => rw [hsame] at hno; cases hno
    · exact ⟨(h.rxClr hin hsame).1, Or.inl (h.rxClr hin hsame).2⟩
  have hstays : (next s i).dz.rxState = .act := by
    change DzIntr.nextReq s.dz.rxState (s.dzIn i).clr _ _ _ = .act
    rw [hclr]
    exact dzReq_stays hact.1 hnotDone
  exact ⟨hstays, Record.handed_move (by simp [Unibus3.waiting, hstays]) hact.2⟩

theorem Inv.txClr_move (h : Inv s r) (hserved : Served s i r)
    (harb : (next s i).dz.arbState = .vectClr) (hvec : (next s i).dz.rxVector = false) :
    (next s i).dz.txState = .act ∧ (r.move s i).handed .dzTx = true := by
  obtain ⟨hin, hv, hclr⟩ := dzIntr_next_vectClr harb
  have hsame : s.dz.rxVector = false := (nextVector_of_acked hclr hin).symm.trans hvec
  have hack : s.dzAcked = true := by
    rcases hin with hin | hin <;> simp [dzAcked, hin]
  have hnotDone : s.dz.txClr = false := by
    rcases hin with hin | hin <;> simp [DzIntr.txClr, hin]
  have hact : s.dz.txState = .act ∧ (r.handed .dzTx = true ∨ s.hands i .dzTx = true) := by
    rcases hin with hin | hin
    · obtain ⟨x, hx, _⟩ := hserved hv
      rw [hx.hands hv]
      cases hx with
      | lp _ _ _ hno => rw [hack] at hno; cases hno
      | dupRx _ _ _ _ hno => rw [hack] at hno; cases hno
      | dupTx _ _ _ _ hno => rw [hack] at hno; cases hno
      | dzRx _ hno => rw [hsame] at hno; cases hno
      | dzTx _ _ htx =>
          simp only [DzIntr.txIntr, Bool.and_eq_true, beq_iff_eq] at htx
          exact ⟨htx.1, Or.inr rfl⟩
    · exact ⟨(h.txClr hin hsame).1, Or.inl (h.txClr hin hsame).2⟩
  have hstays : (next s i).dz.txState = .act := by
    change DzIntr.nextReq s.dz.txState (s.dzIn i).clr _ _ _ = .act
    rw [hclr]
    exact dzReq_stays hact.1 hnotDone
  exact ⟨hstays, Record.handed_move (by simp [Unibus3.waiting, hstays]) hact.2⟩

theorem Inv.done_move (h : Inv s r) :
    ((next s i).dz.arbState = .rxDone → (r.move s i).handed .dzRx = true) ∧
    ((next s i).dz.arbState = .txDone → (r.move s i).handed .dzTx = true) := by
  constructor
  · intro harb
    obtain ⟨hin, hvec, hclr⟩ := dzIntr_next_done.1 harb
    have hstays : (next s i).dz.rxState = .act := by
      change DzIntr.nextReq s.dz.rxState (s.dzIn i).clr _ _ _ = .act
      rw [hclr]
      exact dzReq_stays (h.rxClr hin hvec).1 (by simp [DzIntr.rxClr, hin])
    exact Record.handed_move (by simp [Unibus3.waiting, hstays]) (Or.inl (h.rxClr hin hvec).2)
  · intro harb
    obtain ⟨hin, hvec, hclr⟩ := dzIntr_next_done.2 harb
    have hstays : (next s i).dz.txState = .act := by
      change DzIntr.nextReq s.dz.txState (s.dzIn i).clr _ _ _ = .act
      rw [hclr]
      exact dzReq_stays (h.txClr hin hvec).1 (by simp [DzIntr.txClr, hin])
    exact Record.handed_move (by simp [Unibus3.waiting, hstays]) (Or.inl (h.txClr hin hvec).2)

theorem Inv.move (h : Inv s r) (hserved : Served s i r) : Inv (next s i) (r.move s i) where
  lp := h.lp_move hserved
  dupRx := h.dupRx_move hserved
  dupTx := h.dupTx_move hserved
  rxClr := h.rxClr_move hserved
  txClr := h.txClr_move hserved
  rxDone := h.done_move.1
  txDone := h.done_move.2

/-! ## Requests are not lost -/

/-- A pending request survives a clock that does not put its vector on the bus. -/
theorem Inv.waiting_next (h : Inv s r) (hpend : s.pending r x) (hinit : initialised i x = false) :
    (next s i).waiting x = true := by
  obtain ⟨hwait, hnot⟩ := hpend
  cases x with
  | dzRx =>
      have hact : s.dz.rxState = .act := by simpa [Unibus3.waiting] using hwait
      have hclear : s.dz.rxClr = false := by
        cases hc : s.dz.rxClr with
        | false => rfl
        | true =>
            have hdone := h.rxDone (by simpa [DzIntr.rxClr] using hc)
            rw [hnot] at hdone
            cases hdone
      have hclr : (s.dzIn i).clr = false := hinit
      have hstays : (next s i).dz.rxState = .act := by
        change DzIntr.nextReq s.dz.rxState (s.dzIn i).clr _ _ _ = .act
        rw [hclr]
        exact dzReq_stays hact hclear
      simp [Unibus3.waiting, hstays]
  | dzTx =>
      have hact : s.dz.txState = .act := by simpa [Unibus3.waiting] using hwait
      have hclear : s.dz.txClr = false := by
        cases hc : s.dz.txClr with
        | false => rfl
        | true =>
            have hdone := h.txDone (by simpa [DzIntr.txClr] using hc)
            rw [hnot] at hdone
            cases hdone
      have hclr : (s.dzIn i).clr = false := hinit
      have hstays : (next s i).dz.txState = .act := by
        change DzIntr.nextReq s.dz.txState (s.dzIn i).clr _ _ _ = .act
        rw [hclr]
        exact dzReq_stays hact hclear
      simp [Unibus3.waiting, hstays]
  | lp =>
      have hact : s.lp = .active := by
        simp only [Unibus3.waiting, LpIntr.requests, Bool.or_eq_true, beq_iff_eq] at hwait
        rcases hwait with hact | hread
        · exact hact
        · rw [h.lp hread] at hnot
          cases hnot
      show (s.lp.next (lpIn i)).requests = true
      rw [hact]
      exact LpIntr.stays hinit
  | dupRx =>
      have hact : s.dupRx = .active := by
        simp only [Unibus3.waiting, DupIntr.intr, Bool.or_eq_true, beq_iff_eq] at hwait
        rcases hwait with hact | hread
        · exact hact
        · rw [h.dupRx hread] at hnot
          cases hnot
      show (s.dupRx.next (dupRxIn i)).intr = true
      rw [hact]
      exact DupIntr.stays hinit
  | dupTx =>
      have hact : s.dupTx = .active := by
        simp only [Unibus3.waiting, DupIntr.intr, Bool.or_eq_true, beq_iff_eq] at hwait
        rcases hwait with hact | hread
        · exact hact
        · rw [h.dupTx hread] at hnot
          cases hnot
      show (s.dupTx.next (s.dupTxIn i)).intr = true
      rw [hact]
      exact DupIntr.stays hinit

/-! ## The request served is cleared -/

theorem Serves.cleared {i₁ i₂ : In} (h : Serves s i x) (hv : vectRead i = true)
    (hv₁ : vectRead i₁ = false) (hinit : initialised i x = false)
    (hinit₁ : initialised i₁ x = false) (hinit₂ : initialised i₂ x = false) :
    (next (next (next s i) i₁) i₂).waiting x = false := by
  cases h with
  | lp hlp =>
      exact LpIntr.falls (i := lpIn i) (j := lpIn i₁) (k := lpIn i₂) hlp hinit hinit₁ hinit₂ hv
        hv₁
  | dupRx hrx =>
      exact DupIntr.falls (i := dupRxIn i) (j := dupRxIn i₁) (k := dupRxIn i₂) hrx hinit hinit₁
        hinit₂ hv rfl hv₁
  | dupTx htx hidle =>
      have hsec : s.dupRx.priAct = false := by
        rw [hidle]
        rfl
      exact DupIntr.falls (i := s.dupTxIn i) (j := (next s i).dupTxIn i₁)
        (k := (next (next s i) i₁).dupTxIn i₂) htx hinit hinit₁ hinit₂ hv hsec hv₁
  | dzRx hack hvec hrx =>
      simp only [initialised] at hinit hinit₁ hinit₂
      simp only [DzIntr.rxIntr, Bool.and_eq_true, beq_iff_eq] at hrx
      have harb : s.dz.arbState = .vectRead ∨ s.dz.arbState = .vectClr := by
        simpa [dzAcked] using hack
      have h₁ : (next s i).dz.arbState = .vectClr ∧ (next s i).dz.rxVector = true ∧
          (next s i).dz.rxState = .act := by
        rcases harb with harb | harb <;>
          simp [next, DzIntr.next, DzIntr.nextArb, DzIntr.nextVector, DzIntr.nextRx,
            DzIntr.nextReq, DzIntr.rxClr, dzIn, hinit, harb, hv, hvec, hrx.1]
      have h₂ : (next (next s i) i₁).dz.arbState = .rxDone ∧
          (next (next s i) i₁).dz.rxState = .act := by
        generalize next s i = s₁ at h₁
        simp [next, DzIntr.next, DzIntr.nextArb, DzIntr.nextRx, DzIntr.nextReq, DzIntr.rxClr,
          dzIn, hinit₁, h₁, hv₁]
      generalize next (next s i) i₁ = s₂ at h₂
      simp [Unibus3.waiting, next, DzIntr.next, DzIntr.nextRx, DzIntr.nextReq, DzIntr.rxClr,
        dzIn, hinit₂, h₂]
  | dzTx hack hvec htx =>
      simp only [initialised] at hinit hinit₁ hinit₂
      simp only [DzIntr.txIntr, Bool.and_eq_true, beq_iff_eq] at htx
      have harb : s.dz.arbState = .vectRead ∨ s.dz.arbState = .vectClr := by
        simpa [dzAcked] using hack
      have h₁ : (next s i).dz.arbState = .vectClr ∧ (next s i).dz.rxVector = false ∧
          (next s i).dz.txState = .act := by
        rcases harb with harb | harb <;>
          simp [next, DzIntr.next, DzIntr.nextArb, DzIntr.nextVector, DzIntr.nextTx,
            DzIntr.nextReq, DzIntr.txClr, dzIn, hinit, harb, hv, hvec, htx.1]
      have h₂ : (next (next s i) i₁).dz.arbState = .txDone ∧
          (next (next s i) i₁).dz.txState = .act := by
        generalize next s i = s₁ at h₁
        simp [next, DzIntr.next, DzIntr.nextArb, DzIntr.nextTx, DzIntr.nextReq, DzIntr.txClr,
          dzIn, hinit₁, h₁, hv₁]
      generalize next (next s i) i₁ = s₂ at h₂
      simp [Unibus3.waiting, next, DzIntr.next, DzIntr.nextTx, DzIntr.nextReq, DzIntr.txClr,
        dzIn, hinit₂, h₂]

/-! ## Whole runs -/

/-- The adapter and its devices `t` clocks after reset. -/
def unibusAt (i : Nat → In) (t : Nat) : Unibus3 := run next reset i t

/-- The record of the deliveries after `t` clocks. -/
def recordAt (i : Nat → In) (t : Nat) : Record := shadow next Record.move reset Record.start i t

section Run

variable {i : Nat → In}

theorem inv_run (hserved : ∀ t, Served (unibusAt i t) (i t) (recordAt i t)) (t : Nat) :
    Inv (unibusAt i t) (recordAt i t) := by
  induction t with
  | zero => exact Inv.start
  | succ t ih => exact ih.move (hserved t)

/-- A pending request stays pending until its vector is on the bus. -/
theorem pending_run (hserved : ∀ t, Served (unibusAt i t) (i t) (recordAt i t)) {t : Nat}
    {y : Source} (hpend : pending (unibusAt i t) (recordAt i t) y) (n : Nat) :
    pending (unibusAt i (t + n)) (recordAt i (t + n)) y ∨
    ∃ u, u < n ∧ ((unibusAt i (t + u)).hands (i (t + u)) y = true ∨
      initialised (i (t + u)) y = true) := by
  induction n with
  | zero => exact Or.inl hpend
  | succ n ih =>
      rcases ih with hstill | ⟨u, hu, hdone⟩
      · cases hinit : initialised (i (t + n)) y with
        | true => exact Or.inr ⟨n, Nat.lt_succ_self n, Or.inr hinit⟩
        | false =>
            cases hhands : (unibusAt i (t + n)).hands (i (t + n)) y with
            | true => exact Or.inr ⟨n, Nat.lt_succ_self n, Or.inl hhands⟩
            | false =>
                refine Or.inl ⟨(inv_run hserved (t + n)).waiting_next hstill hinit, ?_⟩
                change ((recordAt i (t + n)).move (unibusAt i (t + n)) (i (t + n))).handed y = _
                simp [Record.move, hstill.2, hhands]
      · exact Or.inr ⟨u, Nat.lt_succ_of_lt hu, hdone⟩

/-- In every run from reset in which each vector cycle serves one source on the
acknowledged level: a vector cycle carries the vector of a source that is waiting on
that level; that source's request is gone three clocks after the cycle; and every
pending request stays pending until a vector cycle carries its own vector. -/
theorem interrupts_delivered
    (hserved : ∀ t, Served (unibusAt i t) (i t) (recordAt i t)) (t : Nat) :
    (vectRead (i t) = true → ∃ x, (unibusAt i t).waiting x = true ∧
      x.level = (recordAt i t).acked ∧ (unibusAt i t).vector (i t) = x.vector) ∧
    (∀ x, (unibusAt i t).hands (i t) x = true → vectRead (i (t + 1)) = false →
      (∀ u, u < 3 → initialised (i (t + u)) x = false) →
      (unibusAt i (t + 3)).waiting x = false) ∧
    (∀ y, pending (unibusAt i t) (recordAt i t) y → ∀ n,
      pending (unibusAt i (t + n)) (recordAt i (t + n)) y ∨
      ∃ u, u < n ∧ ((unibusAt i (t + u)).hands (i (t + u)) y = true ∨
        initialised (i (t + u)) y = true)) := by
  refine ⟨?_, ?_, ?_⟩
  · intro hv
    obtain ⟨x, hx, hlevel⟩ := hserved t hv
    exact ⟨x, hx.waiting, hlevel, hx.vector_eq⟩
  · intro x hhands hv₁ hinit
    have hv : vectRead (i t) = true := by
      simp only [hands, Bool.and_eq_true] at hhands
      exact hhands.1
    obtain ⟨y, hy, _⟩ := hserved t hv
    have hxy : x = y := (hy.hands hv x).mp hhands
    subst hxy
    exact hy.cleared hv hv₁ (hinit 0 (by omega)) (hinit 1 (by omega)) (hinit 2 (by omega))
  · intro y hpend n
    exact pending_run hserved hpend n

end Run

/-! ## One acknowledged request, and two at once -/

def wruAddr (pi : Nat) : BitVec 36 :=
  BitVec.ofNat 36 (1 <<< 32 ||| 1 <<< 27 ||| 1 <<< 25 ||| 1 <<< 24 ||| pi <<< 18)

def vectAddr : BitVec 36 :=
  BitVec.ofNat 36 (1 <<< 32 ||| 1 <<< 27 ||| 1 <<< 25 ||| 1 <<< 23 ||| 3 <<< 18)

def quietIn : In := { (default : In) with statPih := 6, statPil := 5 }

/-- After the requests of the first clock the processor runs a WRU cycle on priority 5
and a vector cycle. -/
def acknowledge (first : In) : Nat → In
  | 0 => first
  | 1 => { quietIn with busAddr := wruAddr 5 }
  | 2 => { quietIn with busAddr := wruAddr 5 }
  | 3 => { quietIn with busAddr := vectAddr }
  | 4 => { quietIn with busAddr := vectAddr }
  | _ => quietIn

def printerAlone : Nat → In := acknowledge { quietIn with lpSetIrq := true, lpIe := true }

theorem vectRead_acknowledge (first : In) (hfirst : vectRead first = false) {t : Nat}
    (hv : vectRead (acknowledge first t) = true) : t = 3 ∨ t = 4 := by
  match t with
  | 0 => rw [show acknowledge first 0 = first from rfl, hfirst] at hv; cases hv
  | 1 => exact absurd hv (by decide : ¬ vectRead { quietIn with busAddr := wruAddr 5 } = true)
  | 2 => exact absurd hv (by decide : ¬ vectRead { quietIn with busAddr := wruAddr 5 } = true)
  | 3 => exact Or.inl rfl
  | 4 => exact Or.inr rfl
  | _ + 5 => exact absurd hv (by decide : ¬ vectRead quietIn = true)

/-- The line printer alone gets its own vector, and its request is cleared. -/
theorem interrupts_delivered_printerAlone :
    (unibusAt printerAlone 4).hands (printerAlone 4) .lp = true ∧
    (unibusAt printerAlone 7).waiting .lp = false := by
  have hserved : ∀ t, Served (unibusAt printerAlone t) (printerAlone t)
      (recordAt printerAlone t) := by
    intro t hv
    rcases vectRead_acknowledge _ (by decide) hv with rfl | rfl
    · exact ⟨.lp, .lp (by decide) (by decide) (by decide) (by decide), by decide⟩
    · exact ⟨.lp, .lp (by decide) (by decide) (by decide) (by decide), by decide⟩
  have hhands : (unibusAt printerAlone 4).hands (printerAlone 4) .lp = true := by decide
  refine ⟨hhands, (interrupts_delivered hserved 4).2.1 .lp hhands (by decide) ?_⟩
  decide

/-- The vector cycle carries the DUP11's vector and takes the line printer's request
with it. -/
theorem printer_interrupt_lost :
    ∃ i : Nat → In, ¬ ∀ t y, pending (unibusAt i t) (recordAt i t) y → ∀ n,
      pending (unibusAt i (t + n)) (recordAt i (t + n)) y ∨
      ∃ u, u < n ∧ ((unibusAt i (t + u)).hands (i (t + u)) y = true ∨
        initialised (i (t + u)) y = true) := by
  refine ⟨acknowledge { quietIn with
    lpSetIrq := true, lpIe := true, dupRxie := true, dupRxDone := true }, ?_⟩
  intro h
  rcases h 1 .lp ⟨by decide, by decide⟩ 5 with hpend | ⟨u, hu, hdone⟩
  · exact absurd hpend.1 (by decide)
  · revert u
    decide

end Unibus3

end KS10
