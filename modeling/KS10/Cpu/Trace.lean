import KS10.Clocked.Literal
import KS10.Clocked.Run
import KS10.Cpu.Fifo

/-!
# The trace buffer

While the trace is active, every instruction puts its address and itself into a FIFO of
16383 entries, and the trace stops when the FIFO is full.  The console reads an entry in four
halfwords, and the end of the last one takes the entry out of the FIFO.

A read that starts when an entry is at the output gets that entry whole.  A read of the empty
buffer gets no entry, and it takes one out all the same if one has come in up to the clock in
which the read ends (`TraceRun.kept_run`).
-/

namespace KS10

open Clocked

inductive Trace.State where
  | idle
  | armed
  | active
  | done
  deriving DecidableEq

/-- The registers of DEBUG that have to do with the trace. -/
structure Trace where
  trstate : Trace.State
  /-- The edge detector of the read. -/
  rdLast : Bool
  /-- The edge detector of the write. -/
  wrLast : Bool
  fifo : Fifo (BitVec 54)

namespace Trace

/-- The inputs of DEBUG at one clock. -/
structure In where
  rst : Bool
  /-- The breakpoint address matches. -/
  hit : Bool
  regTrcmd : BitVec 3
  regTrcmdWr : Bool
  cpuPc : BitVec 18
  cpuHr : BitVec 36
  regsLoad : Bool
  regDitrRd : Bool

def trcmdReset : BitVec 3 := 0
def trcmdTrigger : BitVec 3 := 1
def trcmdAddrmat : BitVec 3 := 2
def trcmdStop : BitVec 3 := 3

def size : Nat := 16 * 1024

/-! ## One clock -/

def trFull (s : Trace) : Bool := s.fifo.full size

def nextTrstate (s : Trace) (i : In) : State :=
  if i.rst then .idle
  else if i.regTrcmd == trcmdReset && i.regTrcmdWr then .idle
  else
    match s.trstate with
    | .idle =>
        if i.regTrcmdWr then
          if i.regTrcmd == trcmdTrigger then .active
          else if i.regTrcmd == trcmdAddrmat then .armed
          else .idle
        else .idle
    | .armed =>
        if i.hit then .active
        else if i.regTrcmd == trcmdStop && i.regTrcmdWr then .done
        else .armed
    | .active =>
        if s.trFull || (i.regTrcmd == trcmdStop && i.regTrcmdWr) then .done else .active
    | .done => .done

/-- An instruction is loaded while the trace is active. -/
def loads (s : Trace) (i : In) : Bool := i.regsLoad && s.trstate == .active

/-- The trailing edge of the read. -/
def fifoRd (s : Trace) (i : In) : Bool := !i.regDitrRd && s.rdLast

/-- The leading edge of the load. -/
def fifoWr (s : Trace) (i : In) : Bool := s.loads i && !s.wrLast

/-- What is stored of an instruction. -/
def entry (i : In) : BitVec 54 := i.cpuPc ++ i.cpuHr

def fifoIn (s : Trace) (i : In) : Fifo.In (BitVec 54) where
  rst := i.rst
  clr := s.trstate == .idle
  clken := true
  rd := s.fifoRd i
  wr := s.fifoWr i
  word := entry i

/-- One clock of the trace. -/
def next (s : Trace) (i : In) : Trace where
  trstate := s.nextTrstate i
  rdLast := if i.rst then false else i.regDitrRd
  wrLast := if i.rst then false else s.loads i
  fifo := s.fifo.next size (s.fifoIn i)

/-- The instruction trace register. -/
def ditr (e : BitVec 54) : BitVec 64 := 0#10 ++ e

def regDitr (s : Trace) : BitVec 64 := ditr s.fifo.out

/-- What the console reads at the four addresses of the register. -/
def half (w : BitVec 64) (k : Nat) : BitVec 16 := w.extractLsb' (16 * k) 16

/-- The console puts the halfwords together. -/
def assemble (halves : List (BitVec 16)) : BitVec 64 :=
  halves.getD 3 0 ++ halves.getD 2 0 ++ halves.getD 1 0 ++ halves.getD 0 0

theorem assemble_halves (w : BitVec 64) : assemble ((List.range 4).map (half w)) = w := by
  have hlist : (List.range 4).map (half w) = [half w 0, half w 1, half w 2, half w 3] := rfl
  rw [hlist]
  unfold assemble half
  apply BitVec.eq_of_getLsbD_eq
  intro k hk
  simp only [List.getD_cons_zero, List.getD_cons_succ, BitVec.getLsbD_append,
    BitVec.getLsbD_extractLsb']
  by_cases h1 : k < 16
  · simp [h1]
  · by_cases h2 : k < 32
    · have h3 : k - 16 < 16 := by omega
      have h4 : 16 + (k - 16) = k := by omega
      simp [h1, h3, h4]
    · by_cases h5 : k < 48
      · have h3 : ¬ k - 16 < 16 := by omega
        have h4 : k - 16 - 16 < 16 := by omega
        have h6 : 32 + (k - 16 - 16) = k := by omega
        simp [h1, h3, h4, h6]
      · have h3 : ¬ k - 16 < 16 := by omega
        have h4 : ¬ k - 16 - 16 < 16 := by omega
        have h7 : k - 16 - 16 - 16 < 16 := by omega
        have h6 : 48 + (k - 16 - 16 - 16) = k := by omega
        simp [h1, h3, h4, h6, h7]

end Trace

/-- The trace and the console, with what has been traced since the last clear and what the
console has read of it. -/
structure TraceRun where
  dbg : Trace
  /-- The halfwords of the read that goes on. -/
  taken : List (BitVec 16)
  /-- The read has started when an entry was at the output. -/
  started : Bool
  /-- The output shows the first entry. -/
  fresh : Bool
  traced : List (BitVec 54)
  words : List (BitVec 64)

namespace TraceRun

/-- The inputs of one clock; the console may take a halfword. -/
structure In extends Trace.In where
  take : Option (Fin 4)

/-! ## One clock -/

def ends (x : TraceRun) (i : In) : Bool := x.dbg.fifoRd i.toIn

def clears (x : TraceRun) : Bool := x.dbg.trstate == .idle

def nextTaken (x : TraceRun) (i : In) : List (BitVec 16) :=
  if x.ends i then []
  else
    match i.take with
    | none => x.taken
    | some k =>
        (if k = 0 then [] else x.taken) ++ [Trace.half x.dbg.regDitr k]

def nextStarted (x : TraceRun) (i : In) : Bool :=
  if x.clears || x.ends i then false
  else if i.take = some 0 then x.fresh
  else x.started

/-- One clock of the trace and the console. -/
def next (x : TraceRun) (i : In) : TraceRun where
  dbg := x.dbg.next i.toIn
  taken := x.nextTaken i
  started := x.nextStarted i
  fresh := !x.clears && !x.ends i && !x.dbg.fifo.empty
  traced :=
    if x.clears then []
    else if x.dbg.fifoWr i.toIn then x.traced ++ [Trace.entry i.toIn]
    else x.traced
  words :=
    if x.clears then []
    else if x.ends i && x.started then x.words ++ [Trace.assemble x.taken]
    else x.words

/-- The console takes the halfwords one after the other, and the read ends after the four of
them. -/
structure Legal (x : TraceRun) (i : In) : Prop where
  rst : i.rst = false
  order : ∀ k, i.take = some k → k = 0 ∨ k.val = x.taken.length
  ends : x.ends i = true → x.taken.length = 4

/-- A read that has started before an entry was at the output ends while the buffer is empty
and no entry comes in. -/
def Fits (x : TraceRun) (i : In) : Prop :=
  x.ends i = true → x.clears = false → x.started = false →
    x.dbg.fifo.empty = true ∧ x.dbg.fifoWr i.toIn = false

instance (x : TraceRun) (i : In) : Decidable (Legal x i) :=
  decidable_of_iff (i.rst = false ∧ (∀ k, i.take = some k → k = 0 ∨ k.val = x.taken.length) ∧
      (x.ends i = true → x.taken.length = 4))
    ⟨fun h => ⟨h.1, h.2.1, h.2.2⟩, fun h => ⟨h.rst, h.order, h.ends⟩⟩

instance (x : TraceRun) (i : In) : Decidable (Fits x i) :=
  inferInstanceAs (Decidable (_ → _ → _ → _ ∧ _))

/-- Every entry that was traced has been read as a whole word, in the order of the trace, or
is in the buffer; the buffer holds no more than it can; and its pointers are as far apart as
its depth says. -/
structure Kept (x : TraceRun) : Prop where
  order : x.words ++ (x.dbg.fifo.contents Trace.size).map Trace.ditr = x.traced.map Trace.ditr
  bounded : (x.dbg.fifo.contents Trace.size).length ≤ Trace.size - 1
  balanced : x.dbg.fifo.Balanced Trace.size

/-- The registers after a reset. -/
structure AfterReset (x : TraceRun) : Prop where
  trstate : x.dbg.trstate = .idle
  rdLast : x.dbg.rdLast = false
  wrLast : x.dbg.wrLast = false
  fifo : x.dbg.fifo.rdAddr = 0 ∧ x.dbg.fifo.wrAddr = 0 ∧ x.dbg.fifo.depth = 0
  started : x.started = false
  fresh : x.fresh = false
  traced : x.traced = [] ∧ x.words = []

/-! ## What every clock keeps -/

structure Inv (x : TraceRun) : Prop where
  valid : x.dbg.fifo.Valid Trace.size
  order : x.words ++ (x.dbg.fifo.contents Trace.size).map Trace.ditr = x.traced.map Trace.ditr
  fresh : x.fresh = true → x.dbg.fifo.empty = false ∧
    (x.dbg.fifo.contents Trace.size).head? = some x.dbg.fifo.out
  started : x.started = true →
    x.fresh = true ∧ x.taken = (List.range x.taken.length).map (Trace.half x.dbg.regDitr)
  armed : x.dbg.trstate = .armed → x.dbg.fifo.empty = true
  full : x.dbg.trstate = .active → x.dbg.trFull = true → x.dbg.wrLast = true

variable {x : TraceRun} {i : In}

theorem Inv.kept (h : Inv x) : Kept x := by
  refine ⟨h.order, ?_, h.valid.balanced⟩
  rw [Fifo.length_contents]
  exact h.valid.depth

theorem AfterReset.inv (h : AfterReset x) : Inv x := by
  obtain ⟨hrd, hwr, hdepth⟩ := h.fifo
  have hcontents : x.dbg.fifo.contents Trace.size = [] := by
    unfold Fifo.contents
    rw [hdepth]
    rfl
  refine ⟨Fifo.Valid.of_zero hrd hwr hdepth, ?_, fun hf => ?_, fun hs => ?_, fun ht => ?_,
    fun ht => ?_⟩
  · rw [hcontents, h.traced.1, h.traced.2]
    rfl
  · rw [h.fresh] at hf
    cases hf
  · rw [h.started] at hs
    cases hs
  · rw [h.trstate] at ht
    cases ht
  · rw [h.trstate] at ht
    cases ht

/-- Nothing is traced but in the active state. -/
theorem active_of_fifoWr (h : x.dbg.fifoWr i.toIn = true) :
    x.dbg.trstate = .active ∧ x.dbg.wrLast = false ∧ x.dbg.loads i.toIn = true := by
  unfold Trace.fifoWr at h
  rw [Bool.and_eq_true, Bool.not_eq_true'] at h
  have hload := h.1
  unfold Trace.loads at hload
  rw [Bool.and_eq_true, beq_iff_eq] at hload
  exact ⟨hload.2, h.2, h.1⟩

/-- The trace stops before it writes into a full buffer. -/
theorem Inv.not_full (hinv : Inv x) (h : x.dbg.fifoWr i.toIn = true) : x.dbg.trFull = false := by
  obtain ⟨hactive, hlast, -⟩ := active_of_fifoWr h
  rw [← Bool.not_eq_true]
  intro hfull
  rw [hinv.full hactive hfull] at hlast
  cases hlast

theorem runs_fifoIn (hrst : i.rst = false) (hclr : x.clears = false) :
    Fifo.Runs (x.dbg.fifoIn i.toIn) :=
  ⟨hrst, hclr, rfl⟩

theorem Inv.no_clash (hinv : Inv x) (hfits : Fits x i) (hclr : x.clears = false) :
    x.dbg.fifo.clash Trace.size (x.dbg.fifoIn i.toIn) = false := by
  rw [← Bool.not_eq_true]
  intro hclash
  unfold Fifo.clash at hclash
  rw [Bool.and_eq_true, Bool.and_eq_true, Bool.or_eq_true] at hclash
  obtain ⟨⟨hrd, hwr⟩, hempty | hfull⟩ := hclash
  · cases hstart : x.started with
    | false =>
        have hwr' : x.dbg.fifoWr i.toIn = true := hwr
        rw [(hfits hrd hclr hstart).2] at hwr'
        cases hwr'
    | true =>
        rw [(hinv.fresh (hinv.started hstart).1).1] at hempty
        cases hempty
  · have hnot := hinv.not_full (i := i) hwr
    unfold Trace.trFull at hnot
    rw [hnot] at hfull
    cases hfull

theorem Inv.pushes_eq (hinv : Inv x) :
    x.dbg.fifo.pushes Trace.size (x.dbg.fifoIn i.toIn) = x.dbg.fifoWr i.toIn := by
  unfold Fifo.pushes
  show (x.dbg.fifoWr i.toIn && !x.dbg.trFull) = x.dbg.fifoWr i.toIn
  cases hwr : x.dbg.fifoWr i.toIn with
  | false => rfl
  | true =>
      rw [hinv.not_full hwr]
      rfl

/-- The word that a read has taken is the first entry. -/
theorem Inv.assemble_taken (hinv : Inv x) (hlegal : Legal x i) (hends : x.ends i = true)
    (hstart : x.started = true) : Trace.assemble x.taken = x.dbg.regDitr := by
  have htaken := (hinv.started hstart).2
  rw [hlegal.ends hends] at htaken
  rw [htaken, Trace.assemble_halves]

/-- A clock of the trace in which the buffer is cleared. -/
theorem inv_next_of_clears (hrst : i.rst = false) (hclr : x.clears = true) :
    Inv (x.next i) := by
  have hidle : x.dbg.trstate = .idle := by
    unfold clears at hclr
    exact beq_iff_eq.mp hclr
  obtain ⟨hrd, hwr, hdepth⟩ := Fifo.next_of_clr Trace.size (f := x.dbg.fifo)
    (i := x.dbg.fifoIn i.toIn) hrst hclr
  have hempty : (x.next i).dbg.fifo.empty = true := Fifo.empty_iff.mpr hdepth
  have hcontents : (x.next i).dbg.fifo.contents Trace.size = [] := by
    unfold Fifo.contents
    show Ring.contents _ _ _ (x.dbg.fifo.next Trace.size (x.dbg.fifoIn i.toIn)).depth = []
    rw [hdepth]
    rfl
  refine ⟨Fifo.Valid.of_zero hrd hwr hdepth, ?_, fun hf => ?_, fun hs => ?_, fun _ => hempty,
    fun _ hfull => ?_⟩
  · rw [hcontents]
    simp [next, hclr]
  · simp [next, hclr] at hf
  · simp [next, nextStarted, hclr] at hs
  · have hzero : (x.next i).dbg.fifo.depth = 0 := hdepth
    have hbound : (x.next i).dbg.fifo.depth = Trace.size - 1 := Fifo.full_iff.mp hfull
    rw [hzero] at hbound
    exact absurd hbound (by decide)

/-- The words read and the entries left after a clock in which the buffer is not cleared. -/
theorem order_next (hinv : Inv x) (hlegal : Legal x i) (hfits : Fits x i)
    (hclr : x.clears = false) :
    (x.next i).words ++ ((x.next i).dbg.fifo.contents Trace.size).map Trace.ditr =
      (x.next i).traced.map Trace.ditr := by
  have hcontents := Fifo.contents_next (runs_fifoIn hlegal.rst hclr) hinv.valid
    (hinv.no_clash hfits hclr)
  rw [hinv.pushes_eq] at hcontents
  have htraced : (x.next i).traced =
      x.traced ++ if x.dbg.fifoWr i.toIn then [Trace.entry i.toIn] else [] := by
    show (if x.clears then [] else _) = _
    rw [hclr, if_neg Bool.false_ne_true]
    split
    · rfl
    · exact (List.append_nil _).symm
  have hwords : (x.next i).words =
      if x.ends i && x.started then x.words ++ [Trace.assemble x.taken] else x.words := by
    show (if x.clears then [] else _) = _
    rw [hclr, if_neg Bool.false_ne_true]
  have hfifo : (x.next i).dbg.fifo = x.dbg.fifo.next Trace.size (x.dbg.fifoIn i.toIn) := rfl
  have hentry : (x.dbg.fifoIn i.toIn).word = Trace.entry i.toIn := rfl
  have hpops : x.dbg.fifo.pops (x.dbg.fifoIn i.toIn) = (x.ends i && !x.dbg.fifo.empty) := rfl
  rw [hfifo, hcontents, htraced, hwords, hentry, hpops, List.map_append, ← hinv.order,
    List.append_assoc]
  cases hends : x.ends i with
  | false =>
      rw [Bool.false_and, Bool.false_and, Bool.toNat_false, List.drop_zero,
        if_neg Bool.false_ne_true, List.map_append]
  | true =>
      cases hstart : x.started with
      | false =>
          have hnone : (true && !x.dbg.fifo.empty) = false := by
            rw [(hfits hends hclr hstart).1]
            rfl
          rw [hnone, Bool.toNat_false, List.drop_zero, if_neg (by decide), List.map_append]
      | true =>
          obtain ⟨hfresh, -⟩ := hinv.started hstart
          obtain ⟨hempty, hhead⟩ := hinv.fresh hfresh
          obtain ⟨rest, hrest⟩ : ∃ rest, x.dbg.fifo.contents Trace.size =
              x.dbg.fifo.out :: rest := by
            cases hcont : x.dbg.fifo.contents Trace.size with
            | nil => rw [hcont] at hhead; cases hhead
            | cons e rest =>
                rw [hcont] at hhead
                exact ⟨rest, by rw [Option.some.inj hhead]⟩
          rw [hempty, hinv.assemble_taken hlegal hends hstart, hrest]
          simp [Trace.regDitr]

/-- A read that goes on sees the first entry at the output. -/
theorem fresh_next (hinv : Inv x) (hlegal : Legal x i) (hfits : Fits x i)
    (hclr : x.clears = false) (hends : x.ends i = false) (hempty : x.dbg.fifo.empty = false) :
    (x.next i).dbg.fifo.empty = false ∧
      ((x.next i).dbg.fifo.contents Trace.size).head? = some (x.next i).dbg.fifo.out ∧
      (x.dbg.fifo.contents Trace.size).head? = some (x.next i).dbg.fifo.out := by
  have hruns := runs_fifoIn (x := x) hlegal.rst hclr
  have hno := hinv.no_clash hfits hclr
  have hpops : x.dbg.fifo.pops (x.dbg.fifoIn i.toIn) = false := by
    show (x.ends i && !x.dbg.fifo.empty) = false
    rw [hends, Bool.false_and]
  have hout : (x.dbg.fifo.contents Trace.size).head? = some (x.next i).dbg.fifo.out :=
    Fifo.out_next hlegal.rst hempty
  have hcontents := Fifo.contents_next hruns hinv.valid hno
  rw [hpops, Bool.toNat_false, List.drop_zero] at hcontents
  have hdepth := Fifo.nextDepth_of_runs hruns hinv.valid hno
  rw [hpops, Bool.toNat_false, Nat.add_zero] at hdepth
  refine ⟨?_, ?_, hout⟩
  · rw [← Bool.not_eq_true]
    intro hnext
    have hzero : x.dbg.fifo.nextDepth Trace.size (x.dbg.fifoIn i.toIn) = 0 :=
      Fifo.empty_iff.mp hnext
    have hdepth0 : x.dbg.fifo.depth = 0 := by omega
    rw [Fifo.empty_iff.mpr hdepth0] at hempty
    cases hempty
  · have hfifo : (x.next i).dbg.fifo.contents Trace.size =
        x.dbg.fifo.contents Trace.size ++ _ := hcontents
    rw [hfifo]
    cases hcont : x.dbg.fifo.contents Trace.size with
    | nil => rw [hcont] at hout; cases hout
    | cons e rest =>
        rw [hcont] at hout
        exact hout

/-- The halfwords that a read has taken are those of the entry at the output. -/
theorem started_next (hinv : Inv x) (hlegal : Legal x i) (hfits : Fits x i)
    (hclr : x.clears = false) (h : (x.next i).started = true) :
    (x.next i).fresh = true ∧
      (x.next i).taken =
        (List.range (x.next i).taken.length).map (Trace.half (x.next i).dbg.regDitr) := by
  have hstart : x.nextStarted i = true := h
  unfold nextStarted at hstart
  rw [hclr, Bool.false_or] at hstart
  cases hends : x.ends i with
  | true =>
      rw [hends, if_pos rfl] at hstart
      cases hstart
  | false =>
      rw [hends, if_neg Bool.false_ne_true] at hstart
      -- Whether the read starts now or goes on, the output is the first entry and stays.
      have hfresh : x.fresh = true := by
        split at hstart
        · exact hstart
        · exact (hinv.started hstart).1
      obtain ⟨hempty, hhead⟩ := hinv.fresh hfresh
      obtain ⟨-, -, hout⟩ := fresh_next hinv hlegal hfits hclr hends hempty
      have hsame : (x.next i).dbg.regDitr = x.dbg.regDitr := by
        unfold Trace.regDitr
        rw [Option.some.inj (hout.symm.trans hhead)]
      have htaken : (x.next i).taken = match i.take with
          | none => x.taken
          | some k => (if k = 0 then [] else x.taken) ++ [Trace.half x.dbg.regDitr k] := by
        show x.nextTaken i = _
        unfold nextTaken
        rw [hends, if_neg Bool.false_ne_true]
      refine ⟨?_, ?_⟩
      · show (!x.clears && !x.ends i && !x.dbg.fifo.empty) = true
        rw [hclr, hends, hempty]
        rfl
      · rw [htaken, hsame]
        cases htake : i.take with
        | none =>
            rw [htake, if_neg (by decide)] at hstart
            exact (hinv.started hstart).2
        | some k =>
            by_cases hk : k = 0
            · subst hk
              rfl
            · have hne : ¬ (some k : Option (Fin 4)) = some 0 := fun heq => hk (Option.some.inj heq)
              rw [htake, if_neg hne] at hstart
              have hlen : k.val = x.taken.length := (hlegal.order k htake).resolve_left hk
              have hprev := (hinv.started hstart).2
              show (if k = 0 then [] else x.taken) ++ _ = (List.range
                ((if k = 0 then [] else x.taken) ++ _).length).map _
              rw [if_neg hk, List.length_append, List.length_singleton, List.range_succ,
                List.map_append, ← hprev, hlen]
              rfl

/-- Nothing is in the buffer until the trace becomes active. -/
theorem armed_next (hinv : Inv x) (hlegal : Legal x i) (hfits : Fits x i)
    (hclr : x.clears = false) (harmed : x.dbg.trstate = .armed) :
    (x.next i).dbg.fifo.empty = true := by
  have hempty := hinv.armed harmed
  have hwr : x.dbg.fifoWr i.toIn = false := by
    rw [← Bool.not_eq_true]
    intro hwr
    have hactive := (active_of_fifoWr hwr).1
    rw [harmed] at hactive
    cases hactive
  have hdepth := Fifo.nextDepth_of_runs (runs_fifoIn (x := x) hlegal.rst hclr) hinv.valid
    (hinv.no_clash hfits hclr)
  rw [hinv.pushes_eq, hwr, Fifo.empty_iff.mp hempty] at hdepth
  have hzero : x.dbg.fifo.nextDepth Trace.size (x.dbg.fifoIn i.toIn) = 0 := by
    rw [Bool.toNat_false] at hdepth
    omega
  exact Fifo.empty_iff.mpr hzero

/-- The buffer becomes full by a write only. -/
theorem full_next (hinv : Inv x) (hlegal : Legal x i) (hfits : Fits x i)
    (hclr : x.clears = false) (hactive : (x.next i).dbg.trstate = .active)
    (hfull : (x.next i).dbg.trFull = true) : (x.next i).dbg.wrLast = true := by
  have hmove : x.dbg.nextTrstate i.toIn = .active := hactive
  have hbound : x.dbg.fifo.nextDepth Trace.size (x.dbg.fifoIn i.toIn) = Trace.size - 1 :=
    Fifo.full_iff.mp hfull
  have hdepth := Fifo.nextDepth_of_runs (runs_fifoIn (x := x) hlegal.rst hclr) hinv.valid
    (hinv.no_clash hfits hclr)
  rw [hinv.pushes_eq, hbound] at hdepth
  unfold Trace.nextTrstate at hmove
  rw [hlegal.rst, if_neg Bool.false_ne_true] at hmove
  split at hmove
  · cases hmove
  · cases hstate : x.dbg.trstate with
    | idle =>
        unfold clears at hclr
        rw [hstate] at hclr
        cases hclr
    | armed =>
        have hempty := armed_next hinv hlegal hfits hclr hstate
        have hzero : x.dbg.fifo.nextDepth Trace.size (x.dbg.fifoIn i.toIn) = 0 :=
          Fifo.empty_iff.mp hempty
        rw [hzero] at hbound
        exact absurd hbound (by decide)
    | done =>
        rw [hstate] at hmove
        cases hmove
    | active =>
        have hnot : x.dbg.trFull = false := by
          rw [hstate] at hmove
          rw [← Bool.not_eq_true]
          intro hf
          rw [hf] at hmove
          cases hmove
        have hwr : x.dbg.fifoWr i.toIn = true := by
          rw [← Bool.not_eq_false]
          intro hwr
          rw [hwr, Bool.toNat_false] at hdepth
          have hle := hinv.valid.depth
          have hnow : x.dbg.fifo.depth = Trace.size - 1 := by omega
          unfold Trace.trFull at hnot
          rw [Fifo.full_iff.mpr hnow] at hnot
          cases hnot
        show (if i.rst then false else x.dbg.loads i.toIn) = true
        rw [hlegal.rst, (active_of_fifoWr hwr).2.2]
        rfl

theorem Inv.next (hinv : Inv x) (hlegal : Legal x i) (hfits : Fits x i) : Inv (x.next i) := by
  cases hclr : x.clears with
  | true => exact inv_next_of_clears hlegal.rst hclr
  | false =>
      refine ⟨hinv.valid.next (runs_fifoIn hlegal.rst hclr) (hinv.no_clash hfits hclr),
        order_next hinv hlegal hfits hclr, fun hf => ?_,
        started_next hinv hlegal hfits hclr, fun harmed => ?_,
        full_next hinv hlegal hfits hclr⟩
      · have hfresh : (!x.clears && !x.ends i && !x.dbg.fifo.empty) = true := hf
        rw [Bool.and_eq_true, Bool.and_eq_true, Bool.not_eq_true', Bool.not_eq_true',
          Bool.not_eq_true'] at hfresh
        obtain ⟨hempty, hhead, -⟩ := fresh_next hinv hlegal hfits hclr hfresh.1.2 hfresh.2
        exact ⟨hempty, hhead⟩
      · have hmove : x.dbg.nextTrstate i.toIn = .armed := harmed
        have hstate : x.dbg.trstate = .armed := by
          unfold Trace.nextTrstate at hmove
          unfold clears at hclr
          rw [hlegal.rst, if_neg Bool.false_ne_true] at hmove
          cases hstate : x.dbg.trstate with
          | idle =>
              rw [hstate] at hclr
              cases hclr
          | armed => rfl
          | active =>
              rw [hstate] at hmove
              split at hmove
              · cases hmove
              · revert hmove
                show (if _ then Trace.State.done else Trace.State.active) = _ → _
                split <;> exact fun h => nomatch h
          | done =>
              rw [hstate] at hmove
              split at hmove <;> cases hmove
        exact armed_next hinv hlegal hfits hclr hstate

/-- In every run in which no read that started too early takes an entry out, the entries are
read exactly once and whole, in their order. -/
theorem kept_run {x : TraceRun} {i : Nat → In} (hreset : AfterReset x)
    (hlegal : ∀ t, Legal (run next x i t) (i t)) (hfits : ∀ t, Fits (run next x i t) (i t))
    (t : Nat) : Kept (run next x i t) := by
  have hinv : Inv (run next x i t) :=
    run_invariant_of (C := fun x i => Legal x i ∧ Fits x i) hreset.inv
      (fun _ _ hC hP => hP.next hC.1 hC.2) fun u _ => ⟨hlegal u, hfits u⟩
  exact hinv.kept

/-! ## One instruction and one read -/

def afterReset : TraceRun where
  dbg :=
    { trstate := .idle, rdLast := false, wrLast := false
      fifo := { rdAddr := 0, wrAddr := 0, depth := 0, mem := fun _ => 0, out := 0 } }
  taken := []
  started := false
  fresh := false
  traced := []
  words := []

/-- The trace is triggered, an instruction is loaded at the clock `load`, and the console
takes the halfwords from the clock `read` on. -/
def oneRead (load read : Nat) (t : Nat) : In where
  rst := false
  hit := false
  regTrcmd := Trace.trcmdTrigger
  regTrcmdWr := t == 0
  cpuPc := 0o1000
  cpuHr := 0o254000001000
  regsLoad := t == load
  regDitrRd := t == read + 3
  take := if read ≤ t ∧ t < read + 4 then some (BitVec.ofNat 2 (t - read)).toFin else none

theorem rdLast_succ (x : TraceRun) (i : Nat → In) (t : Nat) (hrst : (i t).rst = false) :
    (run next x i (t + 1)).dbg.rdLast = (i t).regDitrRd := by
  show (if (i t).rst then false else _) = _
  rw [hrst]
  rfl

/-- After the read nothing ends, and the console takes nothing. -/
theorem oneRead_after (load : Nat) {read t : Nat} (ht : read + 5 ≤ t) :
    (run next afterReset (oneRead load read) t).ends (oneRead load read t) = false ∧
      (oneRead load read t).take = none := by
  obtain ⟨u, rfl⟩ : ∃ u, t = u + 1 := ⟨t - 1, by omega⟩
  have hlast : (run next afterReset (oneRead load read) (u + 1)).dbg.rdLast = false := by
    rw [rdLast_succ _ _ _ rfl]
    exact beq_false_of_ne (by omega)
  refine ⟨?_, if_neg (by omega)⟩
  unfold ends Trace.fifoRd
  rw [hlast, Bool.and_false]

theorem oneRead_legal {load read : Nat}
    (h : ∀ t, t < read + 5 → Legal (run next afterReset (oneRead load read) t) (oneRead load read t))
    (t : Nat) : Legal (run next afterReset (oneRead load read) t) (oneRead load read t) := by
  by_cases ht : t < read + 5
  · exact h t ht
  · obtain ⟨hends, htake⟩ := oneRead_after load (Nat.le_of_not_lt ht)
    refine ⟨rfl, fun k hk => ?_, fun h => ?_⟩
    · rw [htake] at hk
      cases hk
    · rw [hends] at h
      cases h

theorem afterReset_spec : AfterReset afterReset :=
  ⟨rfl, rfl, rfl, ⟨rfl, rfl, rfl⟩, rfl, rfl, ⟨rfl, rfl⟩⟩

/-- The instruction is loaded at clock 2 and read from clock 5 on. -/
theorem kept_run_one :
    (run next afterReset (oneRead 2 5) 12).words.length = 1 ∧
      ∀ t, Kept (run next afterReset (oneRead 2 5) t) := by
  refine ⟨by decide +kernel,
    kept_run afterReset_spec (oneRead_legal (by decide +kernel)) fun t => ?_⟩
  by_cases ht : t < 10
  · revert t
    decide +kernel
  · intro hends
    rw [(oneRead_after 2 (Nat.le_of_not_lt ht)).1] at hends
    cases hends

/-- The console reads the empty buffer, and the instruction is loaded in the clock in which
the read ends. -/
theorem kept_fails :
    ¬ ∀ (x : TraceRun) (i : Nat → In), AfterReset x →
      (∀ t, Legal (run next x i t) (i t)) → ∀ t, Kept (run next x i t) := by
  intro h
  have hbal := (h afterReset (oneRead 5 1) afterReset_spec (oneRead_legal (by decide +kernel))
    6).balanced
  have hwr : (run next afterReset (oneRead 5 1) 6).dbg.fifo.wrAddr = 1 := by decide +kernel
  have hrd : (run next afterReset (oneRead 5 1) 6).dbg.fifo.rdAddr = 0 := by decide +kernel
  have hdepth : (run next afterReset (oneRead 5 1) 6).dbg.fifo.depth = 0 := by decide +kernel
  unfold Fifo.Balanced at hbal
  rw [hwr, hrd, hdepth, Ring.slot_zero (Fifo.bufsz_pos _)] at hbal
  cases hbal

end TraceRun

end KS10
