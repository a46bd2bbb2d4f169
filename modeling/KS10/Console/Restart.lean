import KS10.Clocked.Run
import KS10.Console.Registers

/-!
# Do console accesses restart the processor?

Every function of the console that uses the status register reads it, and writes it
back with some bits changed.  The flip-flops RUN, CONT and EXEC are bits of the word,
so they are written with the values they had at the read.  If the KS10 clears one in
between, the write sets it again.

`Host` is the microcontroller and the board: tasks that each perform a call, one access
at a time and in any order, and the KS10 with its own changes at any time between
accesses.  A flip-flop is only set on purpose exactly when every call that does not
mean to change it still finds it set at its write, if it was set at its read.
-/

namespace KS10

open Clocked RunControl

/-! ## Calls -/

/-- The calls of the console's functions. -/
inductive Call where
  | readMem (addr : BitVec 64)
  | writeMem (addr data : BitVec 64)
  | readIO (addr : BitVec 64)
  | writeIO (addr data : BitVec 64)
  | readIObyte (addr : BitVec 64)
  | writeIObyte (addr : BitVec 64) (data : BitVec 16)
  | writeRegCIR (data : BitVec 64)
  | run (on : Bool)
  | timerEnable (on : Bool)
  | trapEnable (on : Bool)
  | cacheEnable (on : Bool)
  | cpuReset (on : Bool)
  | execute
  | step
  | contin
  | begin
  | cpuIntr
  | nxmnxd
  | putchar (ch : BitVec 64)
  | getchar

/-- What a call means to do with a flip-flop. -/
inductive Purpose where
  | sets
  | clears
  | keeps
  deriving DecidableEq

namespace Call

/-- The program of a call, without its result. -/
def prog : Call → Ks10 Unit
  | readMem addr => do let _ ← Ks10.readMem addr
  | writeMem addr data => Ks10.writeMem addr data
  | readIO addr => do let _ ← Ks10.readIO addr
  | writeIO addr data => Ks10.writeIO addr data
  | readIObyte addr => do let _ ← Ks10.readIObyte addr
  | writeIObyte addr data => Ks10.writeIObyte addr data
  | writeRegCIR data => Ks10.writeRegCIR data
  | run on => Ks10.run on
  | timerEnable on => Ks10.timerEnable on
  | trapEnable on => Ks10.trapEnable on
  | cacheEnable on => Ks10.cacheEnable on
  | cpuReset on => Ks10.cpuReset on
  | execute => Ks10.execute
  | step => Ks10.step
  | contin => Ks10.contin
  | begin => Ks10.begin
  | cpuIntr => Ks10.cpuIntr
  | nxmnxd => do let _ ← Ks10.nxmnxd
  | putchar ch => Ks10.putchar ch
  | getchar => do let _ ← Ks10.getchar

/-- The calls that mean to change a flip-flop are those of the run control, and the
reset clears all three. -/
def purpose : Call → Switch → Purpose
  | run true, .run => .sets
  | run false, .run => .clears
  | contin, .run => .sets
  | contin, .cont => .sets
  | begin, _ => .sets
  | step, .cont => .sets
  | execute, .cont => .sets
  | execute, .exec => .sets
  | cpuReset true, _ => .clears
  | _, _ => .keeps

end Call

/-! ## The microcontroller and the board -/

/-- A call in progress, with the accesses that are left. -/
structure Task where
  call : Call
  prog : Ks10 Unit

/-- The tasks `T` of the microcontroller and the board they share. -/
structure Host (T : Type) where
  board : Board
  task : T → Option Task

inductive Host.Event (T : Type) where
  | call (k : T) (c : Call)
  | access (k : T)
  | ks10 (a : Board.Act)

namespace Host

variable {T : Type} [DecidableEq T]

def setTask (h : Host T) (k : T) (t : Option Task) : Host T :=
  { h with task := fun k' => if k' = k then t else h.task k' }

/-- One step.  A task that has no call in progress may begin one. -/
def next (h : Host T) : Event T → Host T
  | .call k c =>
      match h.task k with
      | none => h.setTask k (some ⟨c, c.prog⟩)
      | some _ => h
  | .access k =>
      match h.task k with
      | none => h
      | some ⟨_, .ret _⟩ => h.setTask k none
      | some ⟨c, .read r p⟩ => h.setTask k (some ⟨c, p (h.board.readReg64 r)⟩)
      | some ⟨c, .write r v p⟩ =>
          { h.setTask k (some ⟨c, p⟩) with board := h.board.writeReg64 r v }
  | .ks10 a => { h with board := h.board.act a }

/-- The microcontroller and the board after `t` steps. -/
def runAt (h : Host T) (e : Nat → Event T) (t : Nat) : Host T := Clocked.run next h e t

/-! ## What is claimed -/

/-- The step reads the status register for the task `k`. -/
def Reads (h : Host T) (e : Event T) (k : T) : Prop :=
  e = .access k ∧ ∃ c p, h.task k = some ⟨c, .read .stat p⟩

/-- The step writes the status register for the call `c` of the task `k`. -/
def Writes (h : Host T) (e : Event T) (k : T) (c : Call) : Prop :=
  e = .access k ∧ ∃ v p, h.task k = some ⟨c, .write .stat v p⟩

/-- A flip-flop is set only by a call that means to set it. -/
def OnPurpose (h : Host T) (e : Nat → Event T) : Prop :=
  ∀ t w, (runAt h e t).board.flag w = false → (runAt h e (t + 1)).board.flag w = true →
    ∃ k c, Writes (runAt h e t) (e t) k c ∧ c.purpose w = .sets

/-- The call `c` of task `k` writes in step `m` the status word that it has read in
step `n`. -/
structure WritesBack (h : Host T) (e : Nat → Event T) (k : T) (c : Call) (n m : Nat) : Prop where
  lt : n < m
  reads : Reads (runAt h e n) (e n) k
  writes : Writes (runAt h e m) (e m) k c
  last : ∀ u, n < u → u < m → ¬ Reads (runAt h e u) (e u) k

/-- No flip-flop that a call has read as set and means to keep has been cleared when
the call writes the word back. -/
def StillSet (h : Host T) (e : Nat → Event T) : Prop :=
  ∀ k c n m w, WritesBack h e k c n m → c.purpose w = .keeps →
    (runAt h e n).board.flag w = true → (runAt h e m).board.flag w = true

end Host

/-! ## What the calls write -/

/-- The word `v` written keeps the flip-flop as it was in the word read, and resets the
KS10 only if the word read did. -/
def KeepsFlag (w : Switch) (last : Option (BitVec 64)) (v : BitVec 64) : Prop :=
  ∃ d, last = some d ∧ v.getLsbD (Board.flagBit w) = d.getLsbD (Board.flagBit w) ∧
    (v.getLsbD 0 = true → d.getLsbD 0 = true)

/-- The word written clears the flip-flop or resets the KS10. -/
def ClearsFlag (w : Switch) (_ : Option (BitVec 64)) (v : BitVec 64) : Prop :=
  v.getLsbD (Board.flagBit w) = false ∨ v.getLsbD 0 = true

/-- What a purpose promises of the words written. -/
def Purpose.Promise (w : Switch) : Purpose → Option (BitVec 64) → BitVec 64 → Prop
  | .sets => fun _ _ => True
  | .clears => ClearsFlag w
  | .keeps => KeepsFlag w

namespace Ks10

open Prog

variable {w : Switch} {last : Option (BitVec 64)}

/-- A word that differs from the word read by bits other than the flip-flop's and the
reset's. -/
theorem keepsFlag_or {mask : BitVec 64} (hw : mask.getLsbD (Board.flagBit w) = false)
    (hreset : mask.getLsbD 0 = false) (d : BitVec 64) : KeepsFlag w (some d) (d ||| mask) := by
  refine ⟨d, rfl, ?_, ?_⟩
  · rw [BitVec.getLsbD_or, hw, Bool.or_false]
  · rw [BitVec.getLsbD_or, hreset, Bool.or_false]
    exact id

theorem keepsFlag_and {mask : BitVec 64} (hw : mask.getLsbD (Board.flagBit w) = false)
    (d : BitVec 64) : KeepsFlag w (some d) (d &&& ~~~mask) := by
  have hlt : Board.flagBit w < 64 := by
    cases w with
    | run => decide
    | cont => decide
    | exec => decide
  refine ⟨d, rfl, ?_, ?_⟩
  · rw [BitVec.getLsbD_and, BitVec.getLsbD_not, hw, decide_eq_true hlt]
    exact Bool.and_true _
  · rw [BitVec.getLsbD_and, Bool.and_eq_true]
    exact And.left

variable {P : Option (BitVec 64) → BitVec 64 → Prop}

/-- A program that reads the status register and writes it back. -/
theorem guarded_update (f : BitVec 64 → BitVec 64) (h : ∀ d, P (some d) (f d)) :
    Guarded .stat P last (do let status ← readRegStat; writeRegStat (f status)) :=
  fun d => ⟨fun _ => h d, trivial⟩

/-- A write of another register. -/
theorem guarded_other {r : Reg} (h : r ≠ .stat) (v : BitVec 64) :
    Guarded .stat P last (.write r v (.ret ()) : Ks10 Unit) :=
  ⟨fun hr => absurd hr h, trivial⟩

theorem guarded_waitGo (n : Nat) : Guarded .stat P last (waitGo n) := by
  induction n generalizing last with
  | zero => trivial
  | succ n ih =>
      intro d
      show Guarded .stat P (some d) (if d &&& statGO = 0 then .ret () else waitGo n)
      split
      · trivial
      · exact ih

theorem guarded_go : Guarded .stat (KeepsFlag w) last go := by
  have hw : statGO.getLsbD (Board.flagBit w) = false := by
    cases w with
    | run => decide
    | cont => decide
    | exec => decide
  intro d
  exact ⟨fun _ => keepsFlag_or hw (by decide) d, guarded_waitGo 100⟩

theorem guarded_readBus (addr mask : BitVec 64) :
    Guarded .stat (KeepsFlag w) last (readBus addr mask) := by
  refine (guarded_other (by decide) addr).bind fun _ _ => ?_
  refine guarded_go.bind fun _ _ => ?_
  exact fun _ => trivial

theorem guarded_writeBus (addr data : BitVec 64) :
    Guarded .stat (KeepsFlag w) last (writeBus addr data) := by
  refine (guarded_other (by decide) addr).bind fun _ _ => ?_
  exact (guarded_other (by decide) data).bind fun _ _ => guarded_go

theorem guarded_cpuIntr : Guarded .stat (KeepsFlag w) last cpuIntr := by
  have hw : statINTR.getLsbD (Board.flagBit w) = false := by
    cases w with
    | run => decide
    | cont => decide
    | exec => decide
  intro d
  exact ⟨fun _ => keepsFlag_or hw (by decide) d, fun _ => ⟨d, rfl, rfl, id⟩, trivial⟩

theorem guarded_putchar (ch : BitVec 64) :
    Guarded .stat (KeepsFlag w) last (putchar ch) := by
  refine (guarded_readBus _ _).bind fun last ctyIn => ?_
  split
  · exact (guarded_writeBus _ _).bind fun _ _ => guarded_cpuIntr
  · trivial

theorem guarded_getchar : Guarded .stat (KeepsFlag w) last getchar := by
  refine (guarded_readBus _ _).bind fun last ctyOut => ?_
  split
  · exact (guarded_writeBus _ _).bind fun _ _ => trivial
  · trivial

/-- Setting or clearing a bit other than the flip-flop's and the reset's. -/
theorem guarded_enable {mask : BitVec 64} (hw : mask.getLsbD (Board.flagBit w) = false)
    (on : Bool) (hreset : on = true → mask.getLsbD 0 = false) :
    Guarded .stat (KeepsFlag w) last (enable mask on) := by
  cases on with
  | true => exact guarded_update (· ||| mask) (keepsFlag_or hw (hreset rfl))
  | false => exact guarded_update (· &&& ~~~mask) (keepsFlag_and hw)

theorem guarded_setStat {mask : BitVec 64} (hw : mask.getLsbD (Board.flagBit w) = false)
    (hreset : mask.getLsbD 0 = false) : Guarded .stat (KeepsFlag w) last (setStat mask) :=
  guarded_update (mask ||| ·) fun d => by
    rw [BitVec.or_comm]
    exact keepsFlag_or hw hreset d

/-- A program with a promise that asks nothing. -/
theorem guarded_true {α : Type} (p : Ks10 α) :
    Guarded .stat (fun _ _ => True) last p := by
  induction p generalizing last with
  | ret a => trivial
  | read r k ih => exact fun d => ih d
  | write r v k ih => exact ⟨fun _ => trivial, ih⟩

end Ks10

/-- Every call keeps the promise of its purpose. -/
theorem Call.guarded (c : Call) (w : Switch) (last : Option (BitVec 64)) :
    Prog.Guarded .stat ((c.purpose w).Promise w) last c.prog := by
  cases c with
  | readMem addr => exact (Ks10.guarded_readBus _ _).bind fun _ _ => trivial
  | writeMem addr data => exact Ks10.guarded_writeBus _ _
  | readIO addr => exact (Ks10.guarded_readBus _ _).bind fun _ _ => trivial
  | writeIO addr data => exact Ks10.guarded_writeBus _ _
  | readIObyte addr => exact (Ks10.guarded_readBus _ _).bind fun _ _ => trivial
  | writeIObyte addr data => exact Ks10.guarded_writeBus _ _
  | writeRegCIR data => exact Ks10.guarded_other (by decide) data
  | run on =>
      cases w with
      | run =>
          cases on with
          | true => exact Ks10.guarded_true _
          | false =>
              refine Ks10.guarded_update (· &&& ~~~Ks10.statRUN) fun d => Or.inl ?_
              rw [BitVec.getLsbD_and, BitVec.getLsbD_not]
              exact Bool.and_false _
      | cont =>
          cases on with
          | true => exact Ks10.guarded_enable (by decide) true fun _ => by decide
          | false => exact Ks10.guarded_enable (by decide) false fun h => nomatch h
      | exec =>
          cases on with
          | true => exact Ks10.guarded_enable (by decide) true fun _ => by decide
          | false => exact Ks10.guarded_enable (by decide) false fun h => nomatch h
  | timerEnable on =>
      exact Ks10.guarded_enable (by cases w <;> decide) on fun _ => by decide
  | trapEnable on =>
      exact Ks10.guarded_enable (by cases w <;> decide) on fun _ => by decide
  | cacheEnable on =>
      exact Ks10.guarded_enable (by cases w <;> decide) on fun _ => by decide
  | cpuReset on =>
      cases on with
      | true =>
          refine Ks10.guarded_update (· ||| Ks10.statRESET) fun d => Or.inr ?_
          rw [BitVec.getLsbD_or]
          exact Bool.or_true _
      | false => exact Ks10.guarded_enable (by cases w <;> decide) false fun h => nomatch h
  | execute =>
      cases w with
      | run => exact Ks10.guarded_setStat (by decide) (by decide)
      | cont => exact Ks10.guarded_true _
      | exec => exact Ks10.guarded_true _
  | step =>
      cases w with
      | run => exact Ks10.guarded_setStat (by decide) (by decide)
      | cont => exact Ks10.guarded_true _
      | exec => exact Ks10.guarded_setStat (by decide) (by decide)
  | contin =>
      cases w with
      | run => exact Ks10.guarded_true _
      | cont => exact Ks10.guarded_true _
      | exec => exact Ks10.guarded_setStat (by decide) (by decide)
  | begin => exact Ks10.guarded_true _
  | cpuIntr => exact Ks10.guarded_cpuIntr
  | nxmnxd =>
      refine Prog.Guarded.bind (fun d => ⟨fun _ => ?_, trivial⟩) fun _ _ => trivial
      exact Ks10.keepsFlag_and (by cases w <;> decide) d
  | putchar ch => exact Ks10.guarded_putchar ch
  | getchar => exact Ks10.guarded_getchar.bind fun _ _ => trivial

/-! ## Runs -/

namespace Host

open Prog

variable {T : Type} [DecidableEq T] {h : Host T} {e : Nat → Event T} {k : T}

/-- The word that task `k` has last read from the status register, before step `t`. -/
def LastRead (h : Host T) (e : Nat → Event T) (k : T) (t : Nat) : Option (BitVec 64) → Prop
  | none => True
  | some d => ∃ n, n < t ∧ Reads (runAt h e n) (e n) k ∧
      d = (runAt h e n).board.readReg64 .stat ∧ ∀ u, n < u → u < t → ¬ Reads (runAt h e u) (e u) k

theorem LastRead.extend {t : Nat} {last : Option (BitVec 64)} (hl : LastRead h e k t last)
    (hno : ¬ Reads (runAt h e t) (e t) k) : LastRead h e k (t + 1) last := by
  cases last with
  | none => trivial
  | some d =>
      obtain ⟨n, hnt, hreads, hd, hnone⟩ := hl
      refine ⟨n, Nat.lt_succ_of_lt hnt, hreads, hd, fun u hnu hut => ?_⟩
      rcases Nat.lt_succ_iff_lt_or_eq.mp hut with hlt | rfl
      · exact hnone u hnu hlt
      · exact hno

/-- What is left of the call of task `k` keeps its promise. -/
def Promised (h : Host T) (e : Nat → Event T) (k : T) (t : Nat) (w : Switch) : Prop :=
  ∀ c p, (runAt h e t).task k = some ⟨c, p⟩ →
    ∃ last, LastRead h e k t last ∧ Guarded .stat ((c.purpose w).Promise w) last p

/-- The task is not the one that the step is about. -/
theorem Promised.same {t : Nat} {w : Switch} (hp : Promised h e k t w)
    (htask : (runAt h e (t + 1)).task k = (runAt h e t).task k)
    (hno : ¬ Reads (runAt h e t) (e t) k) : Promised h e k (t + 1) w := by
  intro c p hcp
  obtain ⟨last, hl, hg⟩ := hp c p (htask ▸ hcp)
  exact ⟨last, hl.extend hno, hg⟩

/-- A step of another task or of the KS10 is no read of this task. -/
theorem not_reads {t : Nat} (hk : e t ≠ .access k) : ¬ Reads (runAt h e t) (e t) k :=
  fun hr => hk hr.1

theorem not_reads_of_task {t : Nat} {c : Call} {p : Ks10 Unit}
    (htask : (runAt h e t).task k = some ⟨c, p⟩) (hp : ∀ q, p ≠ .read .stat q) :
    ¬ Reads (runAt h e t) (e t) k := by
  rintro ⟨-, c', q, hread⟩
  rw [htask] at hread
  injection hread with hread
  injection hread with _ hread
  exact hp q hread

/-- An access of the task itself. -/
theorem Promised.access {t : Nat} {w : Switch} (hp : Promised h e k t w)
    (hevent : e t = .access k) : Promised h e k (t + 1) w := by
  have hstep : runAt h e (t + 1) = (runAt h e t).next (.access k) := hevent ▸ rfl
  intro c p hcp
  cases htask : (runAt h e t).task k with
  | none =>
      simp only [hstep, Host.next, htask] at hcp
      cases hcp
  | some task =>
      obtain ⟨c', p'⟩ := task
      obtain ⟨last, hl, hg⟩ := hp c' p' htask
      cases p' with
      | ret a =>
          simp only [hstep, Host.next, htask, setTask, if_true] at hcp
          cases hcp
      | read r p' =>
          simp only [hstep, Host.next, htask, setTask, if_true, Option.some.injEq,
            Task.mk.injEq] at hcp
          obtain ⟨rfl, rfl⟩ := hcp
          refine ⟨track .stat r ((runAt h e t).board.readReg64 r) last, ?_, hg _⟩
          unfold track
          split
          · rename_i hr
            subst hr
            exact ⟨t, Nat.lt_succ_self t, ⟨hevent, c', p', htask⟩, rfl,
              fun u htu hut => absurd hut (by omega)⟩
          · rename_i hr
            refine hl.extend (not_reads_of_task htask fun q hq => hr ?_)
            injection hq
      | write r v p' =>
          simp only [hstep, Host.next, htask, setTask, if_true, Option.some.injEq,
            Task.mk.injEq] at hcp
          obtain ⟨rfl, rfl⟩ := hcp
          exact ⟨last, hl.extend (not_reads_of_task htask fun q hq => nomatch hq), hg.2⟩

/-- One step. -/
theorem Promised.next {t : Nat} {w : Switch} (hp : Promised h e k t w) :
    Promised h e k (t + 1) w := by
  have hstep : runAt h e (t + 1) = (runAt h e t).next (e t) := rfl
  by_cases hk : e t = .access k
  · exact hp.access hk
  · have hno : ¬ Reads (runAt h e t) (e t) k := not_reads hk
    cases hevent : e t with
    | ks10 a => exact hp.same (by rw [hstep, hevent]; rfl) hno
    | access k' =>
        have hne : k ≠ k' := fun heq => hk (heq ▸ hevent)
        refine hp.same ?_ hno
        rw [hstep, hevent]
        simp only [Host.next]
        split
        · rfl
        · simp only [setTask, if_neg hne]
        · simp only [setTask, if_neg hne]
        · simp only [setTask, if_neg hne]
    | call k' c' =>
        rw [hevent] at hstep
        cases htask : (runAt h e t).task k' with
        | some task => exact hp.same (by simp only [hstep, Host.next, htask]) hno
        | none =>
            have hnext : runAt h e (t + 1) = (runAt h e t).setTask k' (some ⟨c', c'.prog⟩) := by
              simp only [hstep, Host.next, htask]
            by_cases heq : k = k'
            · subst heq
              intro c p hcp
              rw [hnext] at hcp
              simp only [setTask, if_true, Option.some.injEq, Task.mk.injEq] at hcp
              obtain ⟨rfl, rfl⟩ := hcp
              exact ⟨none, trivial, c'.guarded w none⟩
            · exact hp.same (by simp only [hnext, setTask, if_neg heq]) hno

/-- The microcontroller with no call in progress. -/
def idle (T : Type) (b : Board) : Host T := ⟨b, fun _ => none⟩

theorem promised (b : Board) (e : Nat → Event T) (k : T) (t : Nat) (w : Switch) :
    Promised (idle T b) e k t w := by
  induction t with
  | zero => exact fun c p hcp => nomatch hcp
  | succ t ih => exact ih.next

/-- What the step leaves of a flip-flop. -/
theorem next_flag_cases (h : Host T) (e : Event T) (w : Switch) :
    ((h.next e).board.flag w = true → h.board.flag w = true) ∨
      ∃ k c v p, e = .access k ∧ h.task k = some ⟨c, .write .stat v p⟩ ∧
        (h.next e).board.flag w = (v.getLsbD (Board.flagBit w) && !v.getLsbD 0) := by
  cases e with
  | ks10 a => exact Or.inl (Board.act_flag h.board w a)
  | call k c =>
      refine Or.inl ?_
      simp only [Host.next]
      split
      · exact id
      · exact id
  | access k =>
      cases htask : h.task k with
      | none =>
          simp only [Host.next, htask]
          exact Or.inl id
      | some task =>
          obtain ⟨c, p⟩ := task
          cases p with
          | ret a =>
              simp only [Host.next, htask]
              exact Or.inl id
          | read r p =>
              simp only [Host.next, htask]
              exact Or.inl id
          | write r v p =>
              by_cases hr : r = .stat
              · subst hr
                refine Or.inr ⟨k, c, v, p, rfl, htask, ?_⟩
                simp only [Host.next, htask]
                exact Board.writeReg64_flag_stat h.board v w
              · refine Or.inl ?_
                simp only [Host.next, htask]
                rw [Board.writeReg64_flag h.board v w hr]
                exact id

theorem Writes.next_flag {c : Call} {e : Event T} (hw : Writes h e k c) (w : Switch) :
    ∃ v p, h.task k = some ⟨c, .write .stat v p⟩ ∧
      (h.next e).board.flag w = (v.getLsbD (Board.flagBit w) && !v.getLsbD 0) := by
  obtain ⟨rfl, v, p, htask⟩ := hw
  refine ⟨v, p, htask, ?_⟩
  simp only [Host.next, htask]
  exact Board.writeReg64_flag_stat h.board v w

omit [DecidableEq T] in
/-- A step writes for one call of one task. -/
theorem Writes.unique {e : Event T} {k k' : T} {c c' : Call} (hw : Writes h e k c)
    (hw' : Writes h e k' c') : k' = k ∧ c' = c := by
  obtain ⟨hevent, v, p, htask⟩ := hw
  obtain ⟨hevent', v', p', htask'⟩ := hw'
  have hk : k' = k := by
    have hboth : Event.access k' = .access k := hevent'.symm.trans hevent
    injection hboth
  subst hk
  refine ⟨rfl, ?_⟩
  have hboth := htask'.symm.trans htask
  injection hboth with hboth
  injection hboth

/-- The read that is written back is the last one. -/
theorem WritesBack.read_unique {c : Call} {n n' m : Nat} (hback : WritesBack h e k c n m)
    (hlt : n' < m) (hreads : Reads (runAt h e n') (e n') k)
    (hlast : ∀ u, n' < u → u < m → ¬ Reads (runAt h e u) (e u) k) : n' = n := by
  rcases Nat.lt_trichotomy n' n with hbefore | heq | hafter
  · exact absurd hback.reads (hlast n hbefore hback.lt)
  · exact heq
  · exact absurd hreads (hback.last n' hafter hlt)

/-- A call that keeps a flip-flop sets it again, if it has read it as set. -/
theorem WritesBack.sets_again {b : Board} {c : Call} {n m : Nat} {w : Switch}
    (hback : WritesBack (idle T b) e k c n m) (hkeeps : c.purpose w = .keeps)
    (hset : (runAt (idle T b) e n).board.flag w = true) :
    (runAt (idle T b) e (m + 1)).board.flag w = true := by
  obtain ⟨v, p, htask, hflag⟩ := hback.writes.next_flag w
  obtain ⟨last, hl, hg⟩ := promised b e k m w c _ htask
  rw [hkeeps] at hg
  obtain ⟨d, rfl, hbit, hreset⟩ := hg.1 rfl
  obtain ⟨n', hlt, hreads, rfl, hlast⟩ := hl
  obtain rfl := hback.read_unique hlt hreads hlast
  rw [Board.readReg64_flag] at hbit
  rw [Board.readReg64_reset, (runAt (idle T b) e n').board.held w hset] at hreset
  have hv : v.getLsbD 0 = false := Bool.eq_false_iff.mpr fun hv => nomatch hreset hv
  refine hflag.trans ?_
  rw [hbit, hset, hv]
  rfl

/-- A call that keeps a flip-flop and writes it as set has read it as set. -/
theorem Writes.exists_read {b : Board} {c : Call} {m : Nat} {w : Switch} {v : BitVec 64}
    {p : Ks10 Unit} (hevent : e m = .access k)
    (htask : (runAt (idle T b) e m).task k = some ⟨c, .write .stat v p⟩)
    (hkeeps : c.purpose w = .keeps) (hv : v.getLsbD (Board.flagBit w) = true) :
    ∃ n, WritesBack (idle T b) e k c n m ∧ (runAt (idle T b) e n).board.flag w = true := by
  obtain ⟨last, hl, hg⟩ := promised b e k m w c _ htask
  rw [hkeeps] at hg
  obtain ⟨d, rfl, hbit, -⟩ := hg.1 rfl
  obtain ⟨n, hlt, hreads, rfl, hlast⟩ := hl
  refine ⟨n, ⟨hlt, hreads, ⟨hevent, v, p, htask⟩, hlast⟩, ?_⟩
  rw [← Board.readReg64_flag, ← hbit]
  exact hv

/-- A call that clears a flip-flop does not set it. -/
theorem not_clears {b : Board} {c : Call} {m : Nat} {w : Switch} {v : BitVec 64}
    {p : Ks10 Unit} (htask : (runAt (idle T b) e m).task k = some ⟨c, .write .stat v p⟩)
    (hv : v.getLsbD (Board.flagBit w) = true) (hreset : v.getLsbD 0 = false) :
    c.purpose w ≠ .clears := by
  intro hclears
  obtain ⟨last, -, hg⟩ := promised b e k m w c _ htask
  rw [hclears] at hg
  rcases hg.1 rfl with hflag | hresets
  · exact nomatch hflag.symm.trans hv
  · exact nomatch hresets.symm.trans hreset

/-- The flip-flops are set only on purpose exactly when every call that writes back a
word, and means to keep a flip-flop that it has read as set, finds it still set. -/
theorem onPurpose_iff (b : Board) (e : Nat → Event T) :
    OnPurpose (idle T b) e ↔ StillSet (idle T b) e := by
  constructor
  · intro hpurpose k c n m w hback hkeeps hset
    by_contra hcleared
    have hagain := hback.sets_again hkeeps hset
    obtain ⟨k', c', hwrites, hsets⟩ := hpurpose m w (Bool.eq_false_iff.mpr hcleared) hagain
    obtain ⟨rfl, rfl⟩ := hback.writes.unique hwrites
    exact nomatch hkeeps.symm.trans hsets
  · intro hstill t w hclear hset
    rcases next_flag_cases (runAt (idle T b) e t) (e t) w with hkept | hwrite
    · exact nomatch hclear.symm.trans (hkept hset)
    · obtain ⟨k, c, v, p, hevent, htask, hflag⟩ := hwrite
      have hv : (v.getLsbD (Board.flagBit w) && !v.getLsbD 0) = true := hflag.symm.trans hset
      rw [Bool.and_eq_true, Bool.not_eq_true'] at hv
      cases hp : c.purpose w with
      | sets => exact ⟨k, c, ⟨hevent, v, p, htask⟩, hp⟩
      | clears => exact absurd hp (not_clears htask hv.1 hv.2)
      | keeps =>
          obtain ⟨n, hback, hwas⟩ := Writes.exists_read hevent htask hp hv.1
          exact nomatch hclear.symm.trans (hstill k c n t w hback hp hwas)

/-- A board whose processor runs. -/
def running : Board :=
  Board.masked { Csl.clear.toRegs with regCtrlReset := false } .idle false fun w => w == .run

/-- The console reads a memory word; the processor halts between its read and its write
of the status register. -/
def haltsDuringRead : Nat → Event Unit
  | 0 => .call () (.readMem 0)
  | 3 => .ks10 (.clears fun w => w == .run)
  | _ => .access ()

/-- The processor runs again after the memory read has started. -/
theorem onPurpose_fails : ¬ OnPurpose (idle Unit running) haltsDuringRead := by
  intro h
  obtain ⟨k, c, ⟨-, v, p, htask⟩, hsets⟩ := h 4 .run (by decide) (by decide)
  have hcall : ((runAt (idle Unit running) haltsDuringRead 4).task ()).map Task.call =
      some (.readMem 0) := rfl
  rw [htask] at hcall
  injection hcall with hcall
  subst hcall
  cases hsets

end Host

end KS10
