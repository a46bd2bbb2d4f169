import KS10.Clocked.Run
import KS10.Console.Exchange
import Mathlib.Logic.Function.Basic

/-!
# The console terminal mailbox

Two words of the memory carry the characters of the console terminal.  The console
task writes each character typed to the input word, if the word is not valid, and
interrupts the KS10, which takes the character and clears the word.  The KS10 writes
each character it prints to the output word, if the word is zero, and interrupts the
console, whose interrupt handler reads the character and clears the word.

The interrupt handler runs between any two accesses of the task, and both use the one
bus port.  `Cty` is the port, the memory, the two programs and the KS10's side, with
the characters typed, taken, output and printed so far.
-/

namespace KS10

open Clocked Ks10

/-! ## The two functions as exchanges -/

/-- A pulse of the interrupt bit is quiet. -/
theorem Ks10.quiet_cpuIntr : Quiet () cpuIntr := by
  refine ⟨rfl, fun d hd => ⟨rfl, ?_, rfl, hd, rfl⟩⟩
  rw [BitVec.getLsbD_or, hd]
  rfl

/-- `putchar` as an exchange with the input word. -/
def putcharX (ch : BitVec 64) : Exchange Unit where
  addr := ctyinAddr
  answer d := if d &&& ctyValid = 0 then some (ctyValid ||| (ch &&& 0xff)) else none
  no := ()
  finish _ := cpuIntr
  result _ := ()
  quiet _ := quiet_cpuIntr
  reads := by decide
  writes := by decide

/-- `getchar` as an exchange with the output word. -/
def getcharX : Exchange (Option (BitVec 64)) where
  addr := ctyoutAddr
  answer d := if d &&& ctyValid ≠ 0 then some 0 else none
  no := none
  finish d := .ret (some (d &&& 0x7f))
  result d := some (d &&& 0x7f)
  quiet _ := rfl
  reads := by decide
  writes := by decide

/-- A transaction before another program. -/
theorem Ks10.readMem_bind {α : Type} (addr : BitVec 64) (f : BitVec 64 → Ks10 α) :
    readMem addr >>= f =
      .write .addr (readAddr addr) (goThen (.read .data fun d => f (dataMask &&& d))) := by
  unfold readMem readBus
  rw [Prog.bind_bind, Prog.bind_bind]
  rfl

theorem putchar_eq (ch : BitVec 64) : putchar ch = (putcharX ch).prog := by
  unfold putchar
  rw [readMem_bind]
  unfold Exchange.prog Exchange.fetch
  refine congrArg (fun q => Prog.write Reg.addr _ (goThen (.read .data q))) (funext fun d => ?_)
  unfold Exchange.decide
  simp only [putcharX]
  split
  · rfl
  · rfl

theorem getchar_eq : getchar = getcharX.prog := by
  unfold getchar
  rw [readMem_bind]
  unfold Exchange.prog Exchange.fetch
  refine congrArg (fun q => Prog.write Reg.addr _ (goThen (.read .data q))) (funext fun d => ?_)
  unfold Exchange.decide
  simp only [getcharX]
  split
  · rfl
  · rfl

/-! ## The machine -/

structure Cty where
  port : Port
  mem : BitVec 20 → BitVec 36
  /-- The call of `putchar` in progress. -/
  task : Option (Ks10 Unit)
  /-- The interrupt handler's call of `getchar` in progress. -/
  isr : Option (Ks10 (Option (BitVec 64)))
  /-- The KS10 has taken the character of the input word and not yet cleared it. -/
  took : Bool
  /-- The KS10 has found the output word zero. -/
  ready : Bool
  typed : List (BitVec 8)
  taken : List (BitVec 8)
  output : List (BitVec 8)
  printed : List (BitVec 8)

/-- The steps of the two parties.  The console's are a character from the terminal, an
access of the task, an interrupt and an access of its handler. -/
inductive Cty.Event where
  | key (ch : BitVec 8)
  | task
  | interrupt
  | isr
  | ack
  | take
  | clear
  | look
  | print (ch : BitVec 8)

namespace Cty

def ctyIn : BitVec 20 := 0o32
def ctyOut : BitVec 20 := 0o33

/-- The valid bit and the character of a word. -/
def valid (w : BitVec 36) : Bool := w.getLsbD 8
def char (w : BitVec 36) : BitVec 8 := w.setWidth 8

/-- The characters of the terminal have seven bits. -/
def ascii (ch : BitVec 8) : BitVec 8 := ch &&& 0x7f

/-- `^E`, `^L` and `^T` are commands to the console itself. -/
def isCommand (ch : BitVec 8) : Bool := ch == 0x05 || ch == 0x0c || ch == 0x14

def memAddr (s : Cty) : BitVec 20 := field s.port.board.regs.regAddr 16 35

/-- The end of the bus cycle, if one is in progress. -/
def ack (s : Cty) : Cty :=
  match s.port.board.cycle with
  | .idle => s
  | .read => { s with port := s.port.acks (s.mem s.memAddr) }
  | .write =>
      { s with
        port := s.port.acks (s.mem s.memAddr)
        mem := Function.update s.mem s.memAddr s.port.board.regs.regData }

/-- An access of the task.  It does not run during the interrupt handler. -/
def stepTask (s : Cty) : Cty :=
  match s.isr, s.task with
  | none, some (.ret ()) => { s with task := none }
  | none, some p => { s with port := (s.port.access p).1, task := some (s.port.access p).2 }
  | _, _ => s

/-- An access of the interrupt handler, which prints the character it returns. -/
def stepIsr (s : Cty) : Cty :=
  match s.isr with
  | none => s
  | some (.ret r) =>
      { s with isr := none, printed := s.printed ++ (r.map (BitVec.setWidth 8)).toList }
  | some p => { s with port := (s.port.access p).1, isr := some (s.port.access p).2 }

/-- One step.  The console task takes the next character from the terminal when it has
done with the one before. -/
def next (s : Cty) : Event → Cty
  | .key ch =>
      if s.task.isNone && s.isr.isNone && !isCommand ch then
        { s with typed := s.typed ++ [ch], task := some (putchar (ch.setWidth 64)) }
      else s
  | .task => s.stepTask
  | .interrupt => if s.isr.isNone then { s with isr := some getchar } else s
  | .isr => s.stepIsr
  | .ack => s.ack
  | .take =>
      if !s.took && valid (s.mem ctyIn) then
        { s with took := true, taken := s.taken ++ [char (s.mem ctyIn)] }
      else s
  | .clear =>
      if s.took then { s with took := false, mem := Function.update s.mem ctyIn 0 } else s
  | .look => if s.mem ctyOut = 0 then { s with ready := true } else s
  | .print ch =>
      if s.ready then
        { s with
          ready := false
          mem := Function.update s.mem ctyOut (0x100 ||| ch.setWidth 36)
          output := s.output ++ [ascii ch] }
      else s

/-- The two words are empty, and nothing has been typed or printed. -/
def start (board : Board) (mem : BitVec 20 → BitVec 36) : Cty :=
  { port := ⟨{ board with cycle := .idle }, false, 0⟩
    mem := Function.update (Function.update mem ctyIn 0) ctyOut 0
    task := none, isr := none, took := false, ready := false
    typed := [], taken := [], output := [], printed := [] }

def runAt (s : Cty) (e : Nat → Event) (t : Nat) : Cty := run next s e t

/-! ## What is claimed -/

/-- Each character reaches the other side once and in order: what has been taken is the
beginning of what has been typed, and all of it once the word is empty again and the
console has done with it.  The same holds of what is output and printed. -/
structure Delivers (s : Cty) : Prop where
  taken : s.taken <+: s.typed
  all_taken : s.task = none → valid (s.mem ctyIn) = false → s.taken = s.typed
  printed : s.printed <+: s.output
  all_printed : s.isr = none → valid (s.mem ctyOut) = false → s.printed = s.output

/-- The step keeps clear of three things: an interrupt within a transaction of the task,
a transaction whose wait is given up before its bus cycle ends, and a `putchar` that
finds the input word still valid. -/
def smooth (s : Cty) : Event → Bool
  | .interrupt => s.isr.isSome || !s.port.busy
  | .task => s.port.board.cycle == .idle || s.port.polls < 99
  | .isr => s.port.board.cycle == .idle || s.port.polls < 99
  | .ack => !(s.port.board.cycle == .read && s.memAddr == ctyIn && valid (s.mem ctyIn))
  | _ => true

/-! ## Words -/

/-- The word that the console has read is valid. -/
theorem and_ctyValid (w : BitVec 36) :
    (dataMask &&& w.setWidth 64) &&& ctyValid = 0 ↔ valid w = false := by
  have hvalid : ctyValid = BitVec.twoPow 64 8 := by decide
  have hbit : (dataMask &&& w.setWidth 64).getLsbD 8 = valid w := by
    rw [BitVec.getLsbD_and, BitVec.getLsbD_setWidth]
    show (true && (true && w.getLsbD 8)) = w.getLsbD 8
    rw [Bool.true_and, Bool.true_and]
  rw [hvalid, ← hbit]
  exact and_twoPow_eq_zero (by decide) _

/-- What `putchar` writes. -/
theorem stored_char (ch : BitVec 8) :
    valid ((ctyValid ||| (ch.setWidth 64 &&& 0xff)).setWidth 36) = true ∧
      char ((ctyValid ||| (ch.setWidth 64 &&& 0xff)).setWidth 36) = ch := by
  revert ch
  decide

/-- What the KS10 prints. -/
theorem printed_char (ch : BitVec 8) :
    valid (0x100 ||| ch.setWidth 36) = true ∧ char (0x100 ||| ch.setWidth 36) = ch := by
  revert ch
  decide

/-- What `getchar` returns. -/
theorem returned_char (w : BitVec 36) :
    ((dataMask &&& w.setWidth 64) &&& 0x7f).setWidth 8 = ascii (char w) := by
  apply BitVec.eq_of_getLsbD_eq
  intro k hk
  have hmask : dataMask.getLsbD k = true := by
    revert k
    decide
  have hlt : k < 64 := by omega
  rw [BitVec.getLsbD_setWidth, BitVec.getLsbD_and, BitVec.getLsbD_and, BitVec.getLsbD_setWidth,
    hmask, ascii, char, BitVec.getLsbD_and, BitVec.getLsbD_setWidth]
  have hbits : ∀ k, k < 8 → (0x7f : BitVec 64).getLsbD k = (0x7f : BitVec 8).getLsbD k := by
    decide
  simp only [hk, hlt, decide_true, Bool.true_and, hbits k hk]

theorem memAddr_in {s : Cty} {ch : BitVec 64} {rw : BitVec 64}
    (h : s.port.board.regs.regAddr = rw.setWidth 36)
    (hrw : rw = readAddr (putcharX ch).addr ∨ rw = writeAddr (putcharX ch).addr) :
    s.memAddr = ctyIn := by
  unfold memAddr
  rw [h]
  rcases hrw with rfl | rfl
  · show field ((readAddr ctyinAddr).setWidth 36) 16 35 = ctyIn
    decide
  · show field ((writeAddr ctyinAddr).setWidth 36) 16 35 = ctyIn
    decide

theorem memAddr_out {s : Cty} {rw : BitVec 64}
    (h : s.port.board.regs.regAddr = rw.setWidth 36)
    (hrw : rw = readAddr getcharX.addr ∨ rw = writeAddr getcharX.addr) : s.memAddr = ctyOut := by
  unfold memAddr
  rw [h]
  rcases hrw with rfl | rfl
  · show field ((readAddr ctyoutAddr).setWidth 36) 16 35 = ctyOut
    decide
  · show field ((writeAddr ctyoutAddr).setWidth 36) 16 35 = ctyOut
    decide

/-! ## The invariant -/

/-- The characters in the two words. -/
def inSlot (s : Cty) : List (BitVec 8) :=
  if valid (s.mem ctyIn) then [char (s.mem ctyIn)] else []

def outSlot (s : Cty) : List (BitVec 8) :=
  if valid (s.mem ctyOut) then [ascii (char (s.mem ctyOut))] else []

/-- The character that `putchar` has not yet stored. -/
def unsent (ch : BitVec 8) : Exchange.Stage → List (BitVec 8)
  | .asks => [ch]
  | .saw _ => [ch]
  | .stored _ => []
  | .over => []

/-- The character that `getchar` has removed and will return. -/
def unprinted : Exchange.Stage → List (BitVec 8)
  | .asks => []
  | .saw _ => []
  | .stored d => [(d &&& 0x7f).setWidth 8]
  | .over => []

/-- The call of `putchar`, at rest during an interrupt, with the characters it holds. -/
inductive TaskAt (s : Cty) : List (BitVec 8) → Prop
  | absent (h : s.task = none) : TaskAt s []
  | put {p : Ks10 Unit} {stage : Exchange.Stage} (ch : BitVec 8) (h : s.task = some p)
      (hruns : s.isr = none → (putcharX (ch.setWidth 64)).Runs s.port p stage)
      (hparked : s.isr ≠ none → (putcharX (ch.setWidth 64)).Parked p stage)
      (hsaw : ∀ d, stage = .saw d → d &&& ctyValid = 0 ∧ valid (s.mem ctyIn) = false)
      (hover : stage ≠ .over) : TaskAt s (unsent ch stage)

/-- The interrupt handler, with the characters it holds. -/
inductive IsrAt (s : Cty) : List (BitVec 8) → Prop
  | absent (h : s.isr = none)
      (hfree : s.task = none → s.port.busy = false ∧ s.port.board.cycle = .idle) : IsrAt s []
  | get {p : Ks10 (Option (BitVec 64))} {stage : Exchange.Stage} (h : s.isr = some p)
      (hruns : getcharX.Runs s.port p stage)
      (hsaw : ∀ d, stage = .saw d → ¬ d &&& ctyValid = 0 →
        d = dataMask &&& (s.mem ctyOut).setWidth 64) : IsrAt s (unprinted stage)

structure Inv (s : Cty) (pin pout : List (BitVec 8)) : Prop where
  task : TaskAt s pin
  isr : IsrAt s pout
  typed : s.typed = s.taken ++ (if s.took then [] else s.inSlot) ++ pin
  took : s.took = true → valid (s.mem ctyIn) = true
  output : s.output = s.printed ++ pout ++ s.outSlot
  ready : s.ready = true → s.mem ctyOut = 0

/-- The invariant is the claim. -/
theorem Inv.delivers {s : Cty} {pin pout : List (BitVec 8)} (h : Inv s pin pout) :
    Delivers s where
  taken := by
    rw [h.typed, List.append_assoc]
    exact List.prefix_append _ _
  all_taken hnone hempty := by
    have htook : s.took = false := Bool.eq_false_iff.mpr fun htook =>
      nomatch hempty.symm.trans (h.took htook)
    have hpin : pin = [] := by
      cases h.task with
      | absent hnone => rfl
      | put ch htask => cases hnone.symm.trans htask
    rw [h.typed, htook, hpin, inSlot, hempty]
    simp
  printed := by
    rw [h.output, List.append_assoc]
    exact List.prefix_append _ _
  all_printed hnone hempty := by
    have hpout : pout = [] := by
      cases h.isr with
      | absent hnone => rfl
      | get hisr => cases hnone.symm.trans hisr
    rw [h.output, hpout, outSlot, hempty]
    simp

/-! ## Steps of the KS10 -/

variable {s : Cty} {pin pout : List (BitVec 8)}

/-- A step that only changes the memory and the KS10's side. -/
theorem TaskAt.frame {s' : Cty} (h : TaskAt s pin) (htask : s'.task = s.task)
    (hisr : s'.isr = s.isr) (hport : s'.port = s.port)
    (hmem : valid (s.mem ctyIn) = false → valid (s'.mem ctyIn) = false) : TaskAt s' pin := by
  cases h with
  | absent h => exact .absent (htask.trans h)
  | put ch h hruns hparked hsaw hover =>
      refine .put ch (htask.trans h) ?_ ?_ ?_ hover
      · rw [hisr, hport]
        exact hruns
      · rw [hisr]
        exact hparked
      · exact fun d hd => ⟨(hsaw d hd).1, hmem (hsaw d hd).2⟩

theorem IsrAt.frame {s' : Cty} (h : IsrAt s pout) (htask : s'.task = s.task)
    (hisr : s'.isr = s.isr) (hport : s'.port = s.port)
    (hmem : valid (s.mem ctyOut) = true → s'.mem ctyOut = s.mem ctyOut) : IsrAt s' pout := by
  cases h with
  | absent h hfree =>
      refine .absent (hisr.trans h) ?_
      rw [htask, hport]
      exact hfree
  | get h hruns hsaw =>
      refine .get (hisr.trans h) ?_ fun d hd hvalid => ?_
      · rw [hport]
        exact hruns
      · have hd := hsaw d hd hvalid
        rw [hd, and_ctyValid, Bool.not_eq_false] at hvalid
        rw [hmem hvalid]
        exact hd

theorem Inv.take (h : Inv s pin pout) : Inv (s.next .take) pin pout := by
  simp only [next]
  split
  · rename_i hcond
    simp only [Bool.and_eq_true, Bool.not_eq_true'] at hcond
    refine ⟨h.task.frame rfl rfl rfl id, h.isr.frame rfl rfl rfl fun _ => rfl, ?_,
      fun _ => hcond.2, h.output, h.ready⟩
    have htyped := h.typed
    rw [hcond.1, inSlot, hcond.2] at htyped
    rw [htyped]
    simp
  · exact h

theorem Inv.clear (h : Inv s pin pout) : Inv (s.next .clear) pin pout := by
  simp only [next]
  split
  · rename_i htook
    have hin : Function.update s.mem ctyIn 0 ctyIn = 0 := Function.update_self _ _ _
    have hout : Function.update s.mem ctyIn 0 ctyOut = s.mem ctyOut :=
      Function.update_of_ne (by decide) _ _
    have hslot : valid 0 = false := by decide
    refine ⟨h.task.frame rfl rfl rfl fun _ => (congrArg valid hin).trans hslot,
      h.isr.frame rfl rfl rfl fun _ => hout, ?_, (nomatch ·), ?_, ?_⟩
    · have htyped := h.typed
      rw [htook] at htyped
      rw [htyped]
      simp only [inSlot, hin, hslot]
      simp
    · have houtput := h.output
      rw [outSlot] at houtput ⊢
      simp only [hout]
      exact houtput
    · intro hready
      exact hout.trans (h.ready hready)
  · exact h

theorem Inv.look (h : Inv s pin pout) : Inv (s.next .look) pin pout := by
  simp only [next]
  split
  · rename_i hzero
    exact ⟨h.task.frame rfl rfl rfl id, h.isr.frame rfl rfl rfl fun _ => rfl, h.typed, h.took,
      h.output, fun _ => hzero⟩
  · exact h

theorem Inv.print (h : Inv s pin pout) (ch : BitVec 8) : Inv (s.next (.print ch)) pin pout := by
  simp only [next]
  split
  · rename_i hready
    have hzero := h.ready hready
    obtain ⟨hvalid, hchar⟩ := printed_char ch
    have hout : Function.update s.mem ctyOut (0x100 ||| ch.setWidth 36) ctyOut =
        0x100 ||| ch.setWidth 36 := Function.update_self _ _ _
    have hin : Function.update s.mem ctyOut (0x100 ||| ch.setWidth 36) ctyIn = s.mem ctyIn :=
      Function.update_of_ne (by decide) _ _
    have hempty : valid (s.mem ctyOut) = false := by
      rw [hzero]
      decide
    refine ⟨h.task.frame rfl rfl rfl (congrArg valid hin).trans,
      h.isr.frame rfl rfl rfl fun hv => (nomatch hempty.symm.trans hv), ?_, ?_, ?_, (nomatch ·)⟩
    · have htyped := h.typed
      rw [inSlot] at htyped ⊢
      simp only [hin]
      exact htyped
    · intro htook
      exact (congrArg valid hin).trans (h.took htook)
    · have houtput := h.output
      rw [outSlot, hempty] at houtput
      rw [outSlot]
      simp only [hout, hvalid, hchar]
      rw [houtput]
      simp
  · exact h

/-! ## Steps of the console -/

theorem TaskAt.of_none (h : TaskAt s pin) (htask : s.task = none) : pin = [] := by
  cases h with
  | absent _ => rfl
  | put ch hput => cases htask.symm.trans hput

theorem TaskAt.of_some {p : Ks10 Unit} (h : TaskAt s pin) (htask : s.task = some p) :
    ∃ ch stage, pin = unsent ch stage ∧
      (s.isr = none → (putcharX (ch.setWidth 64)).Runs s.port p stage) ∧
      (s.isr ≠ none → (putcharX (ch.setWidth 64)).Parked p stage) ∧
      (∀ d, stage = .saw d → d &&& ctyValid = 0 ∧ valid (s.mem ctyIn) = false) ∧
      stage ≠ .over := by
  cases h with
  | absent hnone => cases hnone.symm.trans htask
  | put ch hput hruns hparked hsaw hover =>
      cases hput.symm.trans htask
      exact ⟨ch, _, rfl, hruns, hparked, hsaw, hover⟩

theorem IsrAt.of_none (h : IsrAt s pout) (hisr : s.isr = none) :
    pout = [] ∧ (s.task = none → s.port.busy = false ∧ s.port.board.cycle = .idle) := by
  cases h with
  | absent _ hfree => exact ⟨rfl, hfree⟩
  | get hget => cases hisr.symm.trans hget

theorem IsrAt.of_some {q : Ks10 (Option (BitVec 64))} (h : IsrAt s pout)
    (hisr : s.isr = some q) :
    ∃ stage, pout = unprinted stage ∧ getcharX.Runs s.port q stage ∧
      ∀ d, stage = .saw d → ¬ d &&& ctyValid = 0 →
        d = dataMask &&& (s.mem ctyOut).setWidth 64 := by
  cases h with
  | absent hnone => cases hnone.symm.trans hisr
  | get hget hruns hsaw =>
      cases hget.symm.trans hisr
      exact ⟨_, rfl, hruns, hsaw⟩

theorem Inv.key (h : Inv s pin pout) (ch : BitVec 8) :
    ∃ pin', Inv (s.next (.key ch)) pin' pout := by
  simp only [next]
  split
  · rename_i hcond
    simp only [Bool.and_eq_true, Option.isNone_iff_eq_none] at hcond
    obtain ⟨⟨htask, hisr⟩, -⟩ := hcond
    obtain ⟨hpout, hfree⟩ := h.isr.of_none hisr
    have hput : TaskAt { s with
        typed := s.typed ++ [ch], task := some (putcharX (ch.setWidth 64)).prog }
        (unsent ch .asks) :=
      .put ch rfl (fun _ => .parked (hfree htask).1 (hfree htask).2 .start) (fun _ => .start)
        (fun d hd => nomatch hd) (fun hd => nomatch hd)
    have hidle : IsrAt { s with
        typed := s.typed ++ [ch], task := some (putcharX (ch.setWidth 64)).prog } [] :=
      .absent hisr (fun h => nomatch h)
    rw [putchar_eq]
    refine ⟨[ch], hput, hpout ▸ hidle, ?_, h.took, h.output, h.ready⟩
    have htyped := h.typed
    rw [h.task.of_none htask, List.append_nil] at htyped
    exact congrArg (· ++ [ch]) htyped
  · exact ⟨pin, h⟩

theorem Inv.interrupt (h : Inv s pin pout) (hsmooth : s.smooth .interrupt = true) :
    Inv (s.next .interrupt) pin pout := by
  simp only [next]
  split
  · rename_i hnone
    rw [Option.isNone_iff_eq_none] at hnone
    simp only [smooth, hnone, Option.isSome_none, Bool.false_or, Bool.not_eq_true'] at hsmooth
    obtain ⟨hpout, hfree⟩ := h.isr.of_none hnone
    have hboth : TaskAt { s with isr := some getcharX.prog } pin ∧ s.port.board.cycle = .idle := by
      cases htask : s.task with
      | none =>
          rw [h.task.of_none htask]
          exact ⟨.absent rfl, (hfree htask).2⟩
      | some p =>
          obtain ⟨ch, stage, rfl, hruns, -, hsaw, hover⟩ := h.task.of_some htask
          cases hruns hnone with
          | parked hb hc hp =>
              exact ⟨.put ch rfl (fun h => nomatch h) (fun _ => hp) hsaw hover, hc⟩
          | engaged hb => cases hsmooth.symm.trans hb
    have hget : IsrAt { s with isr := some getcharX.prog } (unprinted .asks) :=
      .get rfl (.parked hsmooth hboth.2 .start) (fun d hd => nomatch hd)
    rw [getchar_eq]
    exact ⟨hboth.1, hpout ▸ hget, h.typed, h.took, h.output, h.ready⟩
  · exact h

/-- An access during which the wait for the bus cycle is not given up. -/
theorem polls_of_smooth (h : (s.port.board.cycle == .idle || s.port.polls < 99) = true) :
    s.port.board.cycle ≠ .idle → s.port.polls < 99 := by
  intro hne
  simp only [Bool.or_eq_true, beq_iff_eq, decide_eq_true_eq] at h
  exact h.resolve_left hne

theorem stepTask_access {p : Ks10 Unit} (hisr : s.isr = none) (htask : s.task = some p)
    (hret : ∀ a, p ≠ .ret a) : s.stepTask =
      { s with port := (s.port.access p).1, task := some (s.port.access p).2 } := by
  cases p with
  | ret a => exact absurd rfl (hret a)
  | read r k => simp only [stepTask, hisr, htask]
  | write r v k => simp only [stepTask, hisr, htask]

theorem stepIsr_access {q : Ks10 (Option (BitVec 64))} (hisr : s.isr = some q)
    (hret : ∀ a, q ≠ .ret a) : s.stepIsr =
      { s with port := (s.port.access q).1, isr := some (s.port.access q).2 } := by
  cases q with
  | ret a => exact absurd rfl (hret a)
  | read r k => simp only [stepIsr, hisr]
  | write r v k => simp only [stepIsr, hisr]

theorem ret_or_not {α : Type} (p : Ks10 α) : (∃ a, p = .ret a) ∨ ∀ a, p ≠ .ret a := by
  cases p with
  | ret a => exact Or.inl ⟨a, rfl⟩
  | read r k => exact Or.inr fun a h => nomatch h
  | write r v k => exact Or.inr fun a h => nomatch h

theorem Inv.stepTask (h : Inv s pin pout) (hsmooth : s.smooth .task = true) :
    Inv (s.next .task) pin pout := by
  have hpolls := polls_of_smooth hsmooth
  show Inv s.stepTask pin pout
  cases hisr : s.isr with
  | some q =>
      have hsame : s.stepTask = s := by simp only [Cty.stepTask, hisr]
      rw [hsame]
      exact h
  | none =>
      cases htask : s.task with
      | none =>
          have hsame : s.stepTask = s := by simp only [Cty.stepTask, hisr, htask]
          rw [hsame]
          exact h
      | some p =>
          obtain ⟨hpout, -⟩ := h.isr.of_none hisr
          obtain ⟨ch, stage, hpin, hruns, -, hsaw, hover⟩ := h.task.of_some htask
          rcases ret_or_not p with ⟨a, rfl⟩ | hret
          · obtain ⟨hb, hc, hend⟩ := (hruns hisr).ret hpolls
            have hnext : s.stepTask = { s with task := none } := by
              simp only [Cty.stepTask, hisr, htask]
            have hdone : pin = [] := by
              rcases hend with ⟨hstage, -⟩ | ⟨d, hstage, -⟩
              · exact absurd hstage hover
              · rw [hpin, hstage, unsent]
            have hidle : IsrAt { s with task := none } [] := .absent hisr fun _ => ⟨hb, hc⟩
            have hnone : TaskAt { s with task := none } [] := .absent rfl
            rw [hnext]
            exact ⟨hdone ▸ hnone, hpout ▸ hidle, h.typed, h.took, h.output, h.ready⟩
          · obtain ⟨stage', hmoves, hruns'⟩ := (hruns hisr).access hret hpolls
            have hstage : stage' = stage := by
              cases hmoves with
              | stays => rfl
              | declines hno =>
                  have hyes : (putcharX (ch.setWidth 64)).answer _ = some _ :=
                    if_pos (hsaw _ rfl).1
                  cases hno.symm.trans hyes
            subst hstage
            rw [stepTask_access hisr htask hret]
            have hput : TaskAt { s with
                port := (s.port.access p).1, task := some (s.port.access p).2 }
                (unsent ch stage') :=
              .put ch rfl (fun _ => hruns') (fun hne => absurd hisr hne) hsaw hover
            have hidle : IsrAt { s with
                port := (s.port.access p).1, task := some (s.port.access p).2 } [] :=
              .absent hisr (fun h => nomatch h)
            exact ⟨hpin ▸ hput, hpout ▸ hidle, h.typed, h.took, h.output, h.ready⟩

/-- The task rests while the interrupt handler uses the port. -/
theorem TaskAt.rest (h : TaskAt s pin) (hisr : s.isr ≠ none) (port : Port)
    (q : Ks10 (Option (BitVec 64))) : TaskAt { s with port := port, isr := some q } pin := by
  cases h with
  | absent htask => exact .absent htask
  | put ch htask hruns hparked hsaw hover =>
      exact .put ch htask (fun h => nomatch h) (fun _ => hparked hisr) hsaw hover

theorem Inv.stepIsr (h : Inv s pin pout) (hsmooth : s.smooth .isr = true) :
    ∃ pout', Inv (s.next .isr) pin pout' := by
  have hpolls := polls_of_smooth hsmooth
  show ∃ pout', Inv s.stepIsr pin pout'
  cases hisr : s.isr with
  | none =>
      have hsame : s.stepIsr = s := by simp only [Cty.stepIsr, hisr]
      rw [hsame]
      exact ⟨pout, h⟩
  | some q =>
      have hbusy : s.isr ≠ none := fun hnone => nomatch hnone.symm.trans hisr
      obtain ⟨stage, hpout, hruns, hsaw⟩ := h.isr.of_some hisr
      rcases ret_or_not q with ⟨r, rfl⟩ | hret
      · obtain ⟨hb, hc, hend⟩ := hruns.ret hpolls
        have hnext : s.stepIsr = { s with
            isr := none, printed := s.printed ++ (r.map (BitVec.setWidth 8)).toList } := by
          simp only [Cty.stepIsr, hisr]
        have hprints : (r.map (BitVec.setWidth 8)).toList = pout := by
          rw [hpout]
          rcases hend with ⟨rfl, rfl⟩ | ⟨d, rfl, rfl⟩
          · rfl
          · rfl
        rw [hnext]
        refine ⟨[], ?_, .absent rfl fun _ => ⟨hb, hc⟩, h.typed, h.took, ?_, h.ready⟩
        · cases h.task with
          | absent htask => exact .absent htask
          | put ch htask hruns' hparked hsaw' hover =>
              exact .put ch htask (fun _ => .parked hb hc (hparked hbusy))
                (fun hne => absurd rfl hne) hsaw' hover
        · rw [hprints, List.append_nil]
          exact h.output
      · obtain ⟨stage', hmoves, hruns'⟩ := hruns.access hret hpolls
        rw [stepIsr_access hisr hret]
        have hget : IsrAt { s with port := (s.port.access q).1, isr := some (s.port.access q).2 }
            (unprinted stage') := by
          cases hmoves with
          | stays => exact .get rfl hruns' hsaw
          | declines hno => exact .get rfl hruns' (fun d hd => nomatch hd)
        have hsame : unprinted stage' = pout := by
          rw [hpout]
          cases hmoves with
          | stays => rfl
          | declines hno => rfl
        exact ⟨pout, h.task.rest hbusy _ _, hsame ▸ hget, h.typed, h.took, h.output, h.ready⟩

theorem ack_of_read (hc : s.port.board.cycle = .read) :
    s.ack = { s with port := s.port.acks (s.mem s.memAddr) } := by
  simp only [Cty.ack, hc]

theorem ack_of_write (hc : s.port.board.cycle = .write) :
    s.ack = { s with
      port := s.port.acks (s.mem s.memAddr)
      mem := Function.update s.mem s.memAddr s.port.board.regs.regData } := by
  simp only [Cty.ack, hc]

/-- Without a call in progress there is no bus cycle. -/
theorem Inv.exists_task (h : Inv s pin pout) (hisr : s.isr = none)
    (hc : s.port.board.cycle ≠ .idle) : ∃ p, s.task = some p := by
  cases htask : s.task with
  | some p => exact ⟨p, rfl⟩
  | none => exact absurd ((h.isr.of_none hisr).2 htask).2 hc

/-- The handler gets the output word. -/
theorem Inv.ack_read_isr {q : Ks10 (Option (BitVec 64))} (h : Inv s pin pout)
    (hc : s.port.board.cycle = .read) (hisr : s.isr = some q) : Inv s.ack pin pout := by
  have hbusy : s.isr ≠ none := fun hnone => nomatch hnone.symm.trans hisr
  obtain ⟨stage, hpout, hruns, -⟩ := h.isr.of_some hisr
  obtain ⟨rfl, haddr, hruns'⟩ := hruns.acks_read hc (s.mem s.memAddr)
  rw [ack_of_read hc]
  rw [memAddr_out haddr (Or.inl rfl)] at hruns' ⊢
  have hget : IsrAt { s with port := s.port.acks (s.mem ctyOut) }
      (unprinted (.saw (dataMask &&& (s.mem ctyOut).setWidth 64))) :=
    .get hisr hruns' fun d hd _ => (Exchange.Stage.saw.inj hd).symm
  have hrest : TaskAt { s with port := s.port.acks (s.mem ctyOut) } pin := by
    have hrest := h.task.rest hbusy (s.port.acks (s.mem ctyOut)) q
    rw [← hisr] at hrest
    exact hrest
  exact ⟨hrest, hpout ▸ hget, h.typed, h.took, h.output, h.ready⟩

/-- The task gets the input word, which a smooth run has cleared. -/
theorem Inv.ack_read_task (h : Inv s pin pout) (hsmooth : s.smooth .ack = true)
    (hc : s.port.board.cycle = .read) (hisr : s.isr = none) : Inv s.ack pin pout := by
  obtain ⟨hpout, -⟩ := h.isr.of_none hisr
  obtain ⟨p, htask⟩ := h.exists_task hisr (by rw [hc]; exact fun heq => nomatch heq)
  obtain ⟨ch, stage, hpin, hruns, -, -, -⟩ := h.task.of_some htask
  obtain ⟨rfl, haddr, hruns'⟩ := (hruns hisr).acks_read hc (s.mem s.memAddr)
  have hmem := memAddr_in haddr (Or.inl rfl)
  have hempty : valid (s.mem ctyIn) = false := by
    simp only [smooth, hc, hmem, beq_self_eq_true, Bool.true_and,
      Bool.not_eq_true'] at hsmooth
    exact hsmooth
  rw [ack_of_read hc]
  rw [hmem] at hruns' ⊢
  have hput : TaskAt { s with port := s.port.acks (s.mem ctyIn) }
      (unsent ch (.saw (dataMask &&& (s.mem ctyIn).setWidth 64))) := by
    refine .put ch htask (fun _ => hruns') (fun hne => absurd hisr hne) ?_ (fun h => nomatch h)
    intro d hd
    obtain rfl := Exchange.Stage.saw.inj hd
    exact ⟨(and_ctyValid _).mpr hempty, hempty⟩
  have hidle : IsrAt { s with port := s.port.acks (s.mem ctyIn) } [] :=
    .absent hisr (fun hnone => nomatch hnone.symm.trans htask)
  exact ⟨hpin ▸ hput, hpout ▸ hidle, h.typed, h.took, h.output, h.ready⟩

/-- The handler clears the output word and holds its character. -/
theorem Inv.ack_write_isr {q : Ks10 (Option (BitVec 64))} (h : Inv s pin pout)
    (hc : s.port.board.cycle = .write) (hisr : s.isr = some q) :
    ∃ pout', Inv s.ack pin pout' := by
  have hbusy : s.isr ≠ none := fun hnone => nomatch hnone.symm.trans hisr
  obtain ⟨stage, hpout, hruns, hsaw⟩ := h.isr.of_some hisr
  obtain ⟨d, v, rfl, hanswer, haddr, hdata, hruns'⟩ := hruns.acks_write hc (s.mem s.memAddr)
  have hmem := memAddr_out haddr (Or.inr rfl)
  obtain ⟨hvalid, hv⟩ : ¬ d &&& ctyValid = 0 ∧ some 0 = some v := by
    simp only [getcharX] at hanswer
    split at hanswer
    · rename_i hne
      exact ⟨hne, hanswer⟩
    · cases hanswer
  obtain rfl := Option.some.inj hv
  have hd := hsaw d rfl hvalid
  have hslot : s.outSlot = [(d &&& 0x7f).setWidth 8] := by
    rw [hd, and_ctyValid, Bool.not_eq_false] at hvalid
    rw [outSlot, hvalid, if_pos rfl, hd, returned_char]
  have hzero : Function.update s.mem s.memAddr s.port.board.regs.regData ctyOut = 0 := by
    rw [hmem, Function.update_self, hdata]
    rfl
  have hin : Function.update s.mem s.memAddr s.port.board.regs.regData ctyIn =
      s.mem ctyIn := by
    rw [hmem]
    exact Function.update_of_ne (by decide) _ _
  have hrest : TaskAt { s with port := s.port.acks (s.mem s.memAddr), isr := some q } pin :=
    h.task.rest hbusy _ q
  rw [ack_of_write hc]
  refine ⟨unprinted (.stored d), ?_, .get hisr hruns' (fun d hd => nomatch hd), ?_,
    fun htook => (congrArg valid hin).trans (h.took htook), ?_, fun _ => hzero⟩
  · exact hrest.frame rfl hisr rfl (congrArg valid hin).trans
  · have htyped := h.typed
    rw [inSlot] at htyped ⊢
    simp only [hin]
    exact htyped
  · have houtput := h.output
    rw [hslot, hpout, unprinted, List.append_nil] at houtput
    have hempty : valid 0 = false := by decide
    rw [outSlot]
    simp only [hzero, hempty, unprinted]
    rw [houtput]
    simp

/-- The task stores its character in the input word. -/
theorem Inv.ack_write_task (h : Inv s pin pout) (hc : s.port.board.cycle = .write)
    (hisr : s.isr = none) : ∃ pin', Inv s.ack pin' pout := by
  obtain ⟨hpout, -⟩ := h.isr.of_none hisr
  obtain ⟨p, htask⟩ := h.exists_task hisr (by rw [hc]; exact fun heq => nomatch heq)
  obtain ⟨ch, stage, hpin, hruns, -, hsaw, -⟩ := h.task.of_some htask
  obtain ⟨d, v, rfl, hanswer, haddr, hdata, hruns'⟩ :=
    (hruns hisr).acks_write hc (s.mem s.memAddr)
  have hmem := memAddr_in haddr (Or.inr rfl)
  obtain ⟨hd, hempty⟩ := hsaw d rfl
  have hv : some (ctyValid ||| (ch.setWidth 64 &&& 0xff)) = some v := by
    simp only [putcharX, if_pos hd] at hanswer
    exact hanswer
  obtain rfl := Option.some.inj hv
  obtain ⟨hvalid, hchar⟩ := stored_char ch
  have hstored : Function.update s.mem s.memAddr s.port.board.regs.regData ctyIn =
      (ctyValid ||| (ch.setWidth 64 &&& 0xff)).setWidth 36 := by
    rw [hmem, Function.update_self, hdata]
  have hout : Function.update s.mem s.memAddr s.port.board.regs.regData ctyOut =
      s.mem ctyOut := by
    rw [hmem]
    exact Function.update_of_ne (by decide) _ _
  have htook : s.took = false := Bool.eq_false_iff.mpr fun htook =>
    nomatch hempty.symm.trans (h.took htook)
  rw [ack_of_write hc]
  refine ⟨unsent ch (.stored d), ?_,
    hpout ▸ .absent hisr (fun hnone => nomatch hnone.symm.trans htask), ?_, ?_, ?_,
    fun hready => hout.trans (h.ready hready)⟩
  · exact .put ch htask (fun _ => hruns') (fun hne => absurd hisr hne)
      (fun d hd => nomatch hd) (fun h => nomatch h)
  · have htyped := h.typed
    rw [htook, inSlot, hempty, hpin] at htyped
    rw [inSlot]
    simp only [hstored, hvalid, hchar, htook, unsent]
    rw [htyped]
    simp [unsent]
  · exact fun _ => (congrArg valid hstored).trans hvalid
  · have houtput := h.output
    rw [outSlot] at houtput ⊢
    simp only [hout]
    exact houtput

/-- The word at the end of a bus cycle is the word of the address register. -/
theorem Inv.ack (h : Inv s pin pout) (hsmooth : s.smooth .ack = true) :
    ∃ pin' pout', Inv (s.next .ack) pin' pout' := by
  show ∃ pin' pout', Inv s.ack pin' pout'
  cases hc : s.port.board.cycle with
  | idle =>
      have hsame : s.ack = s := by simp only [Cty.ack, hc]
      rw [hsame]
      exact ⟨pin, pout, h⟩
  | read =>
      cases hisr : s.isr with
      | some q => exact ⟨pin, pout, h.ack_read_isr hc hisr⟩
      | none => exact ⟨pin, pout, h.ack_read_task hsmooth hc hisr⟩
  | write =>
      cases hisr : s.isr with
      | some q =>
          obtain ⟨pout', h'⟩ := h.ack_write_isr hc hisr
          exact ⟨pin, pout', h'⟩
      | none =>
          obtain ⟨pin', h'⟩ := h.ack_write_task hc hisr
          exact ⟨pin', pout, h'⟩

/-! ## Runs -/

theorem Inv.next (h : Inv s pin pout) {e : Event} (hsmooth : s.smooth e = true) :
    ∃ pin' pout', Inv (s.next e) pin' pout' := by
  cases e with
  | key ch =>
      obtain ⟨pin', h⟩ := h.key ch
      exact ⟨pin', pout, h⟩
  | task => exact ⟨pin, pout, h.stepTask hsmooth⟩
  | interrupt => exact ⟨pin, pout, h.interrupt hsmooth⟩
  | isr =>
      obtain ⟨pout', h⟩ := h.stepIsr hsmooth
      exact ⟨pin, pout', h⟩
  | ack => exact h.ack hsmooth
  | take => exact ⟨pin, pout, h.take⟩
  | clear => exact ⟨pin, pout, h.clear⟩
  | look => exact ⟨pin, pout, h.look⟩
  | print ch => exact ⟨pin, pout, h.print ch⟩

theorem inv_start (board : Board) (mem : BitVec 20 → BitVec 36) : Inv (start board mem) [] [] := by
  have hin : (start board mem).mem ctyIn = 0 := by
    show Function.update (Function.update mem ctyIn 0) ctyOut 0 ctyIn = 0
    rw [Function.update_of_ne (by decide), Function.update_self]
  have hout : (start board mem).mem ctyOut = 0 := by
    show Function.update (Function.update mem ctyIn 0) ctyOut 0 ctyOut = 0
    rw [Function.update_self]
  have hempty : valid 0 = false := by decide
  refine ⟨.absent rfl, .absent rfl fun _ => ⟨rfl, rfl⟩, ?_, (nomatch ·), ?_, (nomatch ·)⟩
  · rw [inSlot, hin, hempty]
    rfl
  · rw [outSlot, hout, hempty]
    rfl

/-- In a run whose steps are all smooth every character is delivered once and in
order. -/
theorem mailbox_run (board : Board) (mem : BitVec 20 → BitVec 36) (e : Nat → Event) (t : Nat)
    (hsmooth : ∀ u, u < t → (runAt (start board mem) e u).smooth (e u) = true) :
    Delivers (runAt (start board mem) e t) := by
  have hinv : ∃ pin pout, Inv (runAt (start board mem) e t) pin pout := by
    refine run_invariant_of (P := fun s => ∃ pin pout, Inv s pin pout)
      (C := fun s e => s.smooth e = true) ⟨[], [], inv_start board mem⟩ ?_ hsmooth
    rintro s e hs ⟨pin, pout, h⟩
    exact h.next hs
  obtain ⟨pin, pout, h⟩ := hinv
  exact h.delivers

/-- A board with the processor out of reset. -/
def board : Board :=
  Board.masked { Csl.clear.toRegs with regCtrlReset := false } .idle false fun _ => false

/-- A character is typed and stored in the input word. -/
def typesA : List Event :=
  [.key 0x61, .task, .task, .task, .ack, .task, .task, .task, .task, .task, .task, .ack,
    .task, .task, .task, .task, .task]

/-- The KS10 takes it. -/
def takesA : List Event := typesA ++ [.take, .clear]

/-- Before the KS10 takes it, another character is typed. -/
def typesAB : List Event :=
  typesA ++ [.key 0x62, .task, .task, .task, .ack, .task, .task, .task, .take, .clear]

def events (l : List Event) (t : Nat) : Event := l.getD t .look

theorem mailbox_run_takesA :
    Delivers (runAt (start board fun _ => 0) (events takesA) 19) ∧
      (runAt (start board fun _ => 0) (events takesA) 19).taken = [0x61] :=
  ⟨mailbox_run board (fun _ => 0) (events takesA) 19 (by decide +kernel), by decide +kernel⟩

/-- `putchar` finds the word still valid and drops the second character. -/
theorem mailbox_fails : ¬ Delivers (runAt (start board fun _ => 0) (events typesAB) 27) := by
  intro h
  have hend : (runAt (start board fun _ => 0) (events typesAB) 27).task.isNone = true ∧
      valid ((runAt (start board fun _ => 0) (events typesAB) 27).mem ctyIn) = false ∧
      (runAt (start board fun _ => 0) (events typesAB) 27).taken = [0x61] ∧
      (runAt (start board fun _ => 0) (events typesAB) 27).typed = [0x61, 0x62] := by
    decide +kernel
  obtain ⟨htask, hempty, htaken, htyped⟩ := hend
  have hall := h.all_taken (Option.isNone_iff_eq_none.mp htask) hempty
  rw [htaken, htyped] at hall
  exact absurd hall (by decide)

end Cty

end KS10
