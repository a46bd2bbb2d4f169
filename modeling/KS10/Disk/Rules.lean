import KS10.Disk.Transfer

/-!
# Rules for transfers

A transfer is followed from one byte or DMA cycle to the next.  `Xfer.View` is the part
of the state that matters in between, with the increments and the chip select that the
controller has asked for already carried out.  At the clocks where the controller acts
the engine is idle (`Xfer.Still`); otherwise the controller waits for a byte
(`Xfer.Pending`) or for a DMA cycle (`Xfer.Acking`).

The rules say how the view changes: by what the controller does when it acts
(`Still.pending`, `Still.awake`, `Still.acking`), by the end of a byte (`byte_ends`) and
by the end of a DMA cycle (`ack_comes`).  How long a wait takes is nowhere in the view,
so that nothing proved by these rules depends on it.
-/

namespace KS10

open Clocked
open Sd (ff)

/-- The bus address after an increment. -/
def RhBa.up (r : RhBa) (bai : Bool) : RhBa := if bai then r else { addr := r.addr + 2 }

namespace Xfer

/-- The state of a transfer between two bytes. -/
structure View where
  loopCNT : BitVec 16
  sectCNT : Bool
  sectADDR : BitVec 32
  tempDATA : BitVec 36
  header1 : BitVec 36
  header2 : BitVec 36
  devDATAO : BitVec 36
  sdCMD : List (BitVec 8)
  sdREADOP : Bool
  cs : Bool
  card : Card
  ba : RhBa
  wc : BitVec 16
  wce : Bool
  writes : List (BitVec 16 × BitVec 36)
  cycles : Nat

variable (env : Env)

/-- The increments and the chip select count as carried out. -/
def view (s : Xfer) : View where
  loopCNT := s.sd.loopCNT
  sectCNT := s.sd.sectCNT
  sectADDR := s.sd.sectADDR
  tempDATA := s.sd.tempDATA
  header1 := s.sd.header1
  header2 := s.sd.header2
  devDATAO := s.sd.devDATAO
  sdCMD := s.sd.sdCMD
  sdREADOP := s.sd.sdREADOP
  cs := (s.spi.next (s.spiIn env)).spiCS
  card := s.card
  ba := if s.sd.sdINCBA then s.ba.up env.rhBAI else s.ba
  wc := if s.sd.sdINCWC then s.wc.rhWC + 2 else s.wc.rhWC
  wce := if s.sd.sdSETWCE then true else s.rhWCE
  writes := s.writes
  cycles := s.cycles

namespace View

/-- The controller acts: its registers are now `sd`. -/
def after (v : View) (sd : Sd) : View where
  loopCNT := sd.loopCNT
  sectCNT := sd.sectCNT
  sectADDR := sd.sectADDR
  tempDATA := sd.tempDATA
  header1 := sd.header1
  header2 := sd.header2
  devDATAO := sd.devDATAO
  sdCMD := sd.sdCMD
  sdREADOP := sd.sdREADOP
  cs := sd.spiOP.select v.cs
  card := v.card
  ba := if sd.sdINCBA then v.ba.up env.rhBAI else v.ba
  wc := if sd.sdINCWC then v.wc + 2 else v.wc
  wce := if sd.sdSETWCE then true else v.wce
  writes := v.writes
  cycles := v.cycles

/-- The byte that the next exchange receives. -/
def rx (v : View) : BitVec 8 := if v.cs then ff else v.card.reply

/-- A byte is exchanged. -/
def exchanged (v : View) (tx : BitVec 8) : View :=
  { v with card := if v.cs then v.card else v.card.exchange env.timing tx }

/-- A DMA cycle is acknowledged. -/
def acked (v : View) : View :=
  { v with
    writes := if v.sdREADOP then v.writes ++ [(v.ba.word, v.devDATAO)] else v.writes
    cycles := v.cycles + 1 }

end View

/-- The transfer goes on. -/
def Running (s : Xfer) : Prop := s.sd.state ≠ .done

/-- The controller is in the state `st` and waits neither for a byte nor for a DMA
cycle.  If `done` then a byte has just ended, with `rx` received. -/
structure Still (done : Bool) (rx : BitVec 8) (st : Sd.State) (v : View) (s : Xfer) : Prop where
  state : s.sd.state = st
  byte : s.spi.byte = none
  op : s.sd.spiOP ≠ .tr
  req : s.sd.devREQO = false
  waited : s.waited = 0
  isDone : s.spi.spiDONE = done
  isRx : done = true → s.spi.spiRXD = rx
  view : s.view env = v

/-- None of the pulses to the RH11 is under way. -/
structure Awake (done : Bool) (rx : BitVec 8) (st : Sd.State) (v : View) (s : Xfer) : Prop
    extends Still env done rx st v s where
  incBA : s.sd.sdINCBA = false
  incWC : s.sd.sdINCWC = false
  setWCE : s.sd.sdSETWCE = false

/-- The state `st` is entered without a byte. -/
def At (st : Sd.State) (v : View) : Xfer → Prop := Awake env false 0 st v

/-- A byte has ended in the state `st`. -/
def Done (rx : BitVec 8) (st : Sd.State) (v : View) : Xfer → Prop := Awake env true rx st v

/-- The byte `tx` has been asked for or is being exchanged. -/
structure Pending (st : Sd.State) (tx : BitVec 8) (v : View) (s : Xfer) : Prop where
  state : s.sd.state = st
  byte : (s.spi.byte = none ∧ s.sd.spiOP = .tr ∧ s.sd.spiTXD = tx) ∨ ∃ n, s.spi.byte = some (tx, n)
  req : s.sd.devREQO = false
  waited : s.waited = 0
  notDone : s.spi.spiDONE = false
  view : s.view env = v

/-- A DMA cycle has been asked for. -/
structure Acking (st : Sd.State) (v : View) (s : Xfer) : Prop where
  state : s.sd.state = st
  byte : s.spi.byte = none
  op : s.sd.spiOP ≠ .tr
  req : s.sd.devREQO = true
  waited : s.waited ≤ env.ackDelay s.cycles
  incBA : s.sd.sdINCBA = false
  incWC : s.sd.sdINCWC = false
  view : s.view env = v

/-- The DMA cycle is acknowledged at this clock. -/
structure Acked (st : Sd.State) (v : View) (s : Xfer) : Prop extends Acking env st v s where
  ack : s.devACKI env = true

/-- From every state with `P` the transfer comes to one with `Q`. -/
def Comes (P Q : Xfer → Prop) : Prop := Leads (step env) Running P Q

/-! ## What a clock does to the view -/

variable {env} {s : Xfer}

theorem ba_next {bai : Bool} (hBAI : env.rhBAI = bai) :
    s.ba.next (s.baIn env) = if s.sd.sdINCBA then s.ba.up bai else s.ba := by
  subst hBAI
  cases h : s.sd.sdINCBA <;> cases hb : env.rhBAI <;> simp [RhBa.next, baIn, RhBa.up, h, hb]

theorem wc_next : (s.wc.next s.wcIn).rhWC = if s.sd.sdINCWC then s.wc.rhWC + 2 else s.wc.rhWC := by
  cases h : s.sd.sdINCWC <;> simp [RhWc.next, wcIn, h]

theorem wce_next :
    (s.rhWCE || s.sd.sdSETWCE) = if s.sd.sdSETWCE then true else s.rhWCE := by
  cases s.sd.sdSETWCE <;> simp

/-- A clock of an idle engine without an acknowledge. -/
theorem view_step (hbyte : s.spi.byte = none) (hop : s.sd.spiOP ≠ .tr)
    (hack : s.devACKI env = false) :
    (s.step env).view env = (s.view env).after env (s.sd.next (s.sdIn env)) := by
  have hend : s.ending = none := by simp [ending, hbyte]
  have hnext : (s.spi.next (s.spiIn env)).byte = none := (ByteSpi.next_rest hbyte hop).1
  have hcs : ((s.step env).spi.next ((s.step env).spiIn env)).spiCS =
      (s.sd.next (s.sdIn env)).spiOP.select (s.spi.next (s.spiIn env)).spiCS :=
    ByteSpi.next_cs hnext
  unfold view View.after
  simp only [hcs]
  simp only [step, hend, hack, ba_next, wc_next, wce_next, Bool.false_and, Bool.false_eq_true,
    if_false]

/-- A clock of an idle engine with an acknowledge. -/
theorem view_step_ack (hbyte : s.spi.byte = none) (hop : s.sd.spiOP ≠ .tr)
    (hack : s.devACKI env = true) (hBA : s.sd.sdINCBA = false) :
    (s.step env).view env = (s.view env).acked.after env (s.sd.next (s.sdIn env)) := by
  have hend : s.ending = none := by simp [ending, hbyte]
  have hnext : (s.spi.next (s.spiIn env)).byte = none := (ByteSpi.next_rest hbyte hop).1
  have hcs : ((s.step env).spi.next ((s.step env).spiIn env)).spiCS =
      (s.sd.next (s.sdIn env)).spiOP.select (s.spi.next (s.spiIn env)).spiCS :=
    ByteSpi.next_cs hnext
  unfold view View.after View.acked
  simp only [hcs]
  simp only [step, hend, hack, ba_next, wc_next, wce_next, Bool.true_and, hBA, Bool.false_eq_true,
    if_false, if_true]

/-- The counter starts again in another state. -/
theorem after_goto {v : View} (st : Sd.State) (h : s.view env = v) :
    v.after env (s.sd.quiet.goto st) = { v with loopCNT := 0 } := by
  rw [← h]
  rfl

/-! ## The controller acts -/

section Act

variable {done : Bool} {rx tx : BitVec 8} {st st' : Sd.State} {v v' : View} {sd : Sd}

theorem Still.noAck (h : Still env done rx st v s) : s.devACKI env = false := by
  simp [devACKI, h.req]

theorem Still.after (h : Still env done rx st v s) (hE : s.sd.next (s.sdIn env) = sd) :
    (s.step env).view env = v.after env sd := by
  rw [view_step h.byte h.op h.noAck, h.view, hE]

/-- It starts a byte. -/
theorem Still.pending (h : Still env done rx st v s) (hE : s.sd.next (s.sdIn env) = sd)
    (hop : sd.spiOP = .tr) (htx : sd.spiTXD = tx) (hreq : sd.devREQO = false)
    (hst : sd.state = st') (hv : v.after env sd = v') :
    Pending env st' tx v' (s.step env) where
  state := (congrArg Sd.state hE).trans hst
  byte := Or.inl ⟨(ByteSpi.next_rest h.byte h.op).1, (congrArg Sd.spiOP hE).trans hop,
    (congrArg Sd.spiTXD hE).trans htx⟩
  req := (congrArg Sd.devREQO hE).trans hreq
  waited := by simp only [step, h.noAck, h.req, h.waited, Bool.false_eq_true, if_false]
  notDone := (ByteSpi.next_rest h.byte h.op).2
  view := (h.after hE).trans hv

/-- It goes on. -/
theorem Still.still (h : Still env done rx st v s) (hE : s.sd.next (s.sdIn env) = sd)
    (hop : sd.spiOP ≠ .tr) (hreq : sd.devREQO = false) (hst : sd.state = st')
    (hv : v.after env sd = v') : Still env false 0 st' v' (s.step env) where
  state := (congrArg Sd.state hE).trans hst
  byte := (ByteSpi.next_rest h.byte h.op).1
  op := fun h0 => hop ((congrArg Sd.spiOP hE).symm.trans h0)
  req := (congrArg Sd.devREQO hE).trans hreq
  waited := by simp only [step, h.noAck, h.req, h.waited, Bool.false_eq_true, if_false]
  isDone := (ByteSpi.next_rest h.byte h.op).2
  isRx := nofun
  view := (h.after hE).trans hv

theorem Still.awake (h : Still env done rx st v s) (hE : s.sd.next (s.sdIn env) = sd)
    (hop : sd.spiOP ≠ .tr) (hreq : sd.devREQO = false) (hBA : sd.sdINCBA = false)
    (hWC : sd.sdINCWC = false) (hWCE : sd.sdSETWCE = false) (hst : sd.state = st')
    (hv : v.after env sd = v') : At env st' v' (s.step env) where
  toStill := h.still hE hop hreq hst hv
  incBA := (congrArg Sd.sdINCBA hE).trans hBA
  incWC := (congrArg Sd.sdINCWC hE).trans hWC
  setWCE := (congrArg Sd.sdSETWCE hE).trans hWCE

/-- It asks for a DMA cycle. -/
theorem Still.acking (h : Still env done rx st v s) (hE : s.sd.next (s.sdIn env) = sd)
    (hop : sd.spiOP ≠ .tr) (hreq : sd.devREQO = true) (hBA : sd.sdINCBA = false)
    (hWC : sd.sdINCWC = false) (hst : sd.state = st') (hv : v.after env sd = v') :
    Acking env st' v' (s.step env) where
  state := (congrArg Sd.state hE).trans hst
  byte := (ByteSpi.next_rest h.byte h.op).1
  op := fun h0 => hop ((congrArg Sd.spiOP hE).symm.trans h0)
  req := (congrArg Sd.devREQO hE).trans hreq
  waited := by
    simp only [step, h.noAck, h.req, h.waited, Bool.false_eq_true, if_false]
    exact Nat.zero_le _
  incBA := (congrArg Sd.sdINCBA hE).trans hBA
  incWC := (congrArg Sd.sdINCWC hE).trans hWC
  view := (h.after hE).trans hv

/-- It takes the acknowledge. -/
theorem Acked.still (h : Acked env st v s) (hE : s.sd.next (s.sdIn env) = sd)
    (hop : sd.spiOP ≠ .tr) (hreq : sd.devREQO = false) (hst : sd.state = st')
    (hv : v.acked.after env sd = v') : Still env false 0 st' v' (s.step env) where
  state := (congrArg Sd.state hE).trans hst
  byte := (ByteSpi.next_rest h.byte h.op).1
  op := fun h0 => hop ((congrArg Sd.spiOP hE).symm.trans h0)
  req := (congrArg Sd.devREQO hE).trans hreq
  waited := by simp only [step, h.ack, if_true]
  isDone := (ByteSpi.next_rest h.byte h.op).2
  isRx := nofun
  view := by rw [view_step_ack h.byte h.op h.ack h.incBA, h.view, hE, hv]

theorem Acked.awake (h : Acked env st v s) (hE : s.sd.next (s.sdIn env) = sd)
    (hop : sd.spiOP ≠ .tr) (hreq : sd.devREQO = false) (hBA : sd.sdINCBA = false)
    (hWC : sd.sdINCWC = false) (hWCE : sd.sdSETWCE = false) (hst : sd.state = st')
    (hv : v.acked.after env sd = v') : At env st' v' (s.step env) where
  toStill := h.still hE hop hreq hst hv
  incBA := (congrArg Sd.sdINCBA hE).trans hBA
  incWC := (congrArg Sd.sdINCWC hE).trans hWC
  setWCE := (congrArg Sd.sdSETWCE hE).trans hWCE

theorem Awake.wc (h : Awake env done rx st v s) : s.wc.rhWC = v.wc := by
  rw [← h.view, view, h.incWC]
  rfl

theorem Awake.ba (h : Awake env done rx st v s) : s.ba = v.ba := by
  rw [← h.view, view, h.incBA]
  rfl

theorem Awake.wce (h : Awake env done rx st v s) : s.rhWCE = v.wce := by
  rw [← h.view, view, h.setWCE]
  rfl

theorem Acking.wc (h : Acking env st v s) : s.wc.rhWC = v.wc := by
  rw [← h.view, Xfer.view, h.incWC]
  rfl

theorem Acking.ba (h : Acking env st v s) : s.ba = v.ba := by
  rw [← h.view, Xfer.view, h.incBA]
  rfl

end Act

/-! ## The waits -/

section Wait

variable {tx : BitVec 8} {st : Sd.State} {v : View}

/-- The clocks that a byte still takes. -/
def byteCount (env : Env) (s : Xfer) : Nat :=
  match s.spi.byte with
  | none => env.byteDelay s.bytes + 2
  | some (_, n) => n + 1

/-- The state waits for the end of a byte. -/
def View.waits (st : Sd.State) (v : View) : Prop :=
  Sd.takes st = true ∨ Sd.counts st = true ∧ v.loopCNT ≠ 0

theorem Pending.waits (h : Pending env st tx v s) (hw : v.waits st) : s.sd.waits = true := by
  have hcount : s.sd.loopCNT = v.loopCNT := by rw [← h.view]; rfl
  rcases hw with ht | ⟨hc, hne⟩
  · simp [Sd.waits, h.state, ht]
  · have hne' : ¬ v.loopCNT = 0#16 := hne
    simp [Sd.waits, h.state, hc, hcount, hne']

theorem waits_running (hst : s.sd.state = st) (hw : v.waits st) : Running s := by
  intro h
  rw [hst] at h
  subst h
  rcases hw with ht | ⟨hc, _⟩
  · cases ht
  · cases hc

/-- A clock in which the controller waits. -/
theorem view_wait (hE : s.sd.next (s.sdIn env) = s.sd.quiet) (hack : s.devACKI env = false) :
    (s.step env).view env = { s.view env with
      cs := ((s.step env).spi.next ((s.step env).spiIn env)).spiCS
      card := (s.step env).card } := by
  simp only [view, step, hE, hack, ba_next, wc_next, wce_next, Bool.false_and, Bool.false_eq_true,
    if_false, Sd.quiet]

/-- A byte that has been asked for or is being exchanged ends. -/
theorem byte_ends (hw : v.waits st) :
    Comes env (Pending env st tx v) (Done env v.rx st (v.exchanged env tx)) := by
  refine Leads.wait (byteCount env) (fun s h => waits_running h.state hw) fun s h => ?_
  have hE : s.sd.next (s.sdIn env) = s.sd.quiet := Sd.next_waiting (h.waits hw) h.notDone
  have hack : s.devACKI env = false := by simp [devACKI, h.req]
  have hstate : (s.step env).sd.state = st := by rw [step, hE]; exact h.state
  have hwaited : (s.step env).waited = 0 := by
    simp only [step, hack, h.req, h.waited, Bool.false_eq_true, if_false]
  have hcs : v.cs = (s.spi.next (s.spiIn env)).spiCS := by rw [← h.view]; rfl
  have hview : ∀ n, (s.step env).spi.byte = some (tx, n) → (s.step env).card = s.card →
      (s.step env).view env = v := by
    intro n hn hcard
    rw [view_wait hE hack, ByteSpi.next_busy hn, hcard, ← h.view]
    rfl
  rcases h.byte with ⟨hnone, hop, htx⟩ | ⟨_ | n, hsome⟩
  · -- The engine takes the byte.
    have htr := ByteSpi.next_tr (i := s.spiIn env) hnone hop
    have hbyte : (s.step env).spi.byte = some (tx, env.byteDelay s.bytes) := by
      rw [← htx]; exact htr.1
    have hend : s.ending = none := by simp [ending, hnone]
    refine Or.inr ⟨⟨hstate, Or.inr ⟨_, hbyte⟩, ?_, hwaited, htr.2, hview _ hbyte ?_⟩, ?_⟩
    · rw [step, hE]; rfl
    · simp only [step, hend]
    · simp only [byteCount, hnone, hbyte]
      omega
  · -- The byte ends.
    have hlast := ByteSpi.next_last (i := s.spiIn env) hsome
    have hend : s.ending = some tx := by simp [ending, hsome]
    have hbusy : (s.spi.next (s.spiIn env)).spiCS = s.spi.spiCS := ByteSpi.next_busy hsome
    refine Or.inl ⟨⟨hstate, hlast.1, ?_, ?_, hwaited, hlast.2.1, fun _ => ?_, ?_⟩, ?_, ?_, ?_⟩
    · rw [step, hE]; exact nofun
    · rw [step, hE]; rfl
    · rw [step, hlast.2.2, View.rx, hcs, hbusy, ← h.view]
      rfl
    · have hcs' : ((s.step env).spi.next ((s.step env).spiIn env)).spiCS = s.spi.spiCS := by
        refine (ByteSpi.next_cs hlast.1).trans ?_
        rw [hbusy, show ((s.step env).spiIn env).spiOP = .nop by simp only [spiIn, step, hE]; rfl]
        rfl
      rw [view_wait hE hack, hcs', View.exchanged, hcs, hbusy, ← h.view]
      simp only [step, hend, view, hbusy]
    · rw [step, hE]; rfl
    · rw [step, hE]; rfl
    · rw [step, hE]; rfl
  · -- The byte goes on.
    have hwait := ByteSpi.next_wait (i := s.spiIn env) hsome
    have hend : s.ending = none := by simp [ending, hsome]
    refine Or.inr ⟨⟨hstate, Or.inr ⟨_, hwait.1⟩, ?_, hwaited, hwait.2.trans h.notDone,
      hview _ hwait.1 ?_⟩, ?_⟩
    · rw [step, hE]; rfl
    · simp only [step, hend]
    · have hbyte : (s.step env).spi.byte = some (tx, n) := hwait.1
      simp only [byteCount, hsome, hbyte]
      omega

/-- A DMA cycle that has been asked for is acknowledged. -/
theorem ack_comes {k : Sd → Sd.In → Sd} (hrun : st ≠ .done)
    (hn : ∀ (sd : Sd) (i : Sd.In), sd.state = st → sd.next i = sd.quiet.onAck i (k sd i)) :
    Comes env (Acking env st v) (Acked env st v) := by
  have hwait : Comes env (fun s => Acking env st v s ∧ s.devACKI env = false)
      (Acked env st v) := by
    refine Leads.wait (fun s => env.ackDelay s.cycles - s.waited)
      (fun s h => fun h' => hrun (h.1.state.symm.trans h')) fun s ⟨h, hack⟩ => ?_
    have hE : s.sd.next (s.sdIn env) = { s.sd.quiet with devREQO := true } := by
      rw [hn _ _ h.state, Sd.onAck, show (s.sdIn env).devACKI = false from hack]
      rfl
    have hne : s.waited ≠ env.ackDelay s.cycles := by
      simpa [devACKI, h.req] using hack
    have hlt : s.waited < env.ackDelay s.cycles := lt_of_le_of_ne h.waited hne
    have hwaited : (s.step env).waited = s.waited + 1 := by
      simp only [step, hack, h.req, Bool.false_eq_true, if_false, if_true]
    have hcycles : (s.step env).cycles = s.cycles := by
      simp only [step, hack, Bool.false_eq_true, if_false]
    have hstep : Acking env st v (s.step env) := by
      refine ⟨?_, (ByteSpi.next_rest h.byte h.op).1, ?_, ?_, ?_, ?_, ?_, ?_⟩
      · rw [step, hE]; exact h.state
      · rw [step, hE]; exact nofun
      · rw [step, hE]
      · rw [hwaited, hcycles]; exact hlt
      · rw [step, hE]; rfl
      · rw [step, hE]; rfl
      · rw [view_step h.byte h.op hack, hE, ← h.view]; rfl
    by_cases hack' : (s.step env).devACKI env = true
    · exact Or.inl ⟨hstep, hack'⟩
    · refine Or.inr ⟨⟨hstep, by simpa using hack'⟩, ?_⟩
      rw [hwaited, hcycles]
      omega
  intro s h
  by_cases hack : s.devACKI env = true
  · exact Leads.of_imp (fun s h => h) s ⟨h, hack⟩
  · exact hwait s ⟨h, by simpa using hack⟩

end Wait

end Xfer

end KS10
