import KS10.Console.Registers

/-!
# Exchanges with a word of the memory

A function of the console that reads a word of the memory and, depending on what it
reads, writes the word back (`Exchange`).  It makes two bus transactions, each of them
a write of the address register, a GO bit and a wait.  `Port` is what the transactions
need to know: the board, whether a transaction is in progress, and how often its wait
has looked at the GO bit.

The progress of an exchange is told by its stage: it asks for the word, it has seen
the word, it has stored its answer, or it has none.  Between transactions its progress
does not depend on the port (`Exchange.Parked`); within one the port belongs to
it (`Exchange.Engaged`).
-/

namespace KS10

open Clocked

/-! ## The port -/

structure Port where
  board : Board
  /-- A transaction is in progress. -/
  busy : Bool
  /-- The number of looks at the GO bit since the last write. -/
  polls : Nat

namespace Port

variable {α : Type}

/-- One access of a program. -/
def access (s : Port) : Ks10 α → Port × Ks10 α
  | .ret a => (s, .ret a)
  | .read r k =>
      ({ s with
          busy := if r = .data then false else s.busy
          polls := if r = .stat then s.polls + 1 else s.polls },
        k (s.board.readReg64 r))
  | .write r v k =>
      ({ board := s.board.writeReg64 r v
         busy := if r = .addr then true else s.busy
         polls := 0 }, k)

/-- The end of a bus cycle.  A write transaction is over with it. -/
def acks (s : Port) (busData : BitVec 36) : Port :=
  { s with
    board := s.board.act (.acks busData)
    busy := if s.board.cycle = .write then false else s.busy }

end Port

/-! ## Programs -/

namespace Ks10

variable {α : Type}

/-- The addresses of the two transactions. -/
def readAddr (addr : BitVec 64) : BitVec 64 := (addr &&& memAddrMask) ||| flagRead ||| flagPhys
def writeAddr (addr : BitVec 64) : BitVec 64 := (addr &&& memAddrMask) ||| flagWrite ||| flagPhys

/-- The wait for the end of the bus cycle before `q`. -/
def waitThen (n : Nat) (q : Ks10 α) : Ks10 α := waitGo n >>= fun _ => q

def goThen (q : Ks10 α) : Ks10 α :=
  .read .stat fun status => .write .stat (status ||| statGO) (waitThen 100 q)

theorem waitThen_succ (n : Nat) (q : Ks10 α) :
    waitThen (n + 1) q =
      .read .stat fun status => if status &&& statGO = 0 then q else waitThen n q := by
  refine congrArg (Prog.read Reg.stat) (funext fun status => ?_)
  show ((if status &&& statGO = 0 then .ret () else waitGo n) >>= fun _ => q) = _
  split
  · rfl
  · rfl

/-- A program that only waits and pulses: it uses neither the address nor the data
register, and it starts no bus cycle if none is in progress.  It returns `a`. -/
def Quiet (a : α) : Ks10 α → Prop
  | .ret a' => a' = a
  | .read r k => r = .stat ∧ ∀ d, d.getLsbD 16 = false → Quiet a (k d)
  | .write r v k => r = .stat ∧ v.getLsbD 16 = false ∧ Quiet a k

theorem and_statGO (d : BitVec 64) : d &&& statGO = 0 ↔ d.getLsbD 16 = false := by
  have hgo : statGO = BitVec.twoPow 64 16 := by decide
  rw [hgo]
  exact and_twoPow_eq_zero (by decide) d

theorem Quiet.waitThen {a : α} {q : Ks10 α} (hq : Quiet a q) (n : Nat) :
    Quiet a (waitThen n q) := by
  cases n with
  | zero => exact hq
  | succ n =>
      rw [waitThen_succ]
      refine ⟨rfl, fun d hd => ?_⟩
      show Quiet a (if d &&& statGO = 0 then q else Ks10.waitThen n q)
      rw [if_pos ((and_statGO d).mpr hd)]
      exact hq

end Ks10

open Ks10

/-- A function that reads the word at `addr`, and writes its answer if it has one. -/
structure Exchange (α : Type) where
  addr : BitVec 64
  answer : BitVec 64 → Option (BitVec 64)
  no : α
  finish : BitVec 64 → Ks10 α
  result : BitVec 64 → α
  quiet : ∀ d, Quiet (result d) (finish d)
  reads : Board.start ((readAddr addr).setWidth 36) = .read
  writes : Board.start ((writeAddr addr).setWidth 36) = .write

namespace Exchange

variable {α : Type} (x : Exchange α)

/-- The write of the answer to `d`. -/
def reply (d v : BitVec 64) : Ks10 α :=
  .write .addr (writeAddr x.addr) (.write .data v (goThen (x.finish d)))

def decide (d : BitVec 64) : Ks10 α :=
  match x.answer d with
  | none => .ret x.no
  | some v => x.reply d v

/-- The read of the data register after the first transaction. -/
def fetch : Ks10 α := .read .data fun d => x.decide (dataMask &&& d)

def prog : Ks10 α := .write .addr (readAddr x.addr) (goThen x.fetch)

/-- What is known of an exchange from the words on the bus. -/
inductive Stage where
  | asks
  | saw (d : BitVec 64)
  | stored (d : BitVec 64)
  | over

/-- Between two transactions. -/
inductive Parked : Ks10 α → Stage → Prop
  | start : Parked x.prog .asks
  | answers {d v : BitVec 64} (h : x.answer d = some v) : Parked (x.reply d v) (.saw d)
  | declines : Parked (.ret x.no) .over
  | finishes {d : BitVec 64} {p : Ks10 α} (h : Quiet (x.result d) p) : Parked p (.stored d)

/-- Within a transaction. -/
inductive Engaged (s : Port) : Ks10 α → Stage → Prop
  | addressed (hc : s.board.cycle = .idle)
      (ha : s.board.regs.regAddr = (readAddr x.addr).setWidth 36) :
      Engaged s (goThen x.fetch) .asks
  | going (status : BitVec 64) (hc : s.board.cycle = .idle)
      (ha : s.board.regs.regAddr = (readAddr x.addr).setWidth 36) :
      Engaged s (.write .stat (status ||| statGO) (waitThen 100 x.fetch)) .asks
  | reading {n : Nat} (hc : s.board.cycle = .read)
      (ha : s.board.regs.regAddr = (readAddr x.addr).setWidth 36) (hn : n + s.polls = 100) :
      Engaged s (waitThen n x.fetch) .asks
  | told {n : Nat} (hc : s.board.cycle = .idle) :
      Engaged s (waitThen n x.fetch) (.saw (dataMask &&& s.board.regs.regData.setWidth 64))
  | addressedBack {d v : BitVec 64} (h : x.answer d = some v) (hc : s.board.cycle = .idle)
      (ha : s.board.regs.regAddr = (writeAddr x.addr).setWidth 36) :
      Engaged s (.write .data v (goThen (x.finish d))) (.saw d)
  | loaded {d v : BitVec 64} (h : x.answer d = some v) (hc : s.board.cycle = .idle)
      (ha : s.board.regs.regAddr = (writeAddr x.addr).setWidth 36)
      (hd : s.board.regs.regData = v.setWidth 36) :
      Engaged s (goThen (x.finish d)) (.saw d)
  | goingBack {d v : BitVec 64} (status : BitVec 64) (h : x.answer d = some v)
      (hc : s.board.cycle = .idle)
      (ha : s.board.regs.regAddr = (writeAddr x.addr).setWidth 36)
      (hd : s.board.regs.regData = v.setWidth 36) :
      Engaged s (.write .stat (status ||| statGO) (waitThen 100 (x.finish d))) (.saw d)
  | writing {d v : BitVec 64} {n : Nat} (h : x.answer d = some v) (hc : s.board.cycle = .write)
      (ha : s.board.regs.regAddr = (writeAddr x.addr).setWidth 36)
      (hd : s.board.regs.regData = v.setWidth 36) (hn : n + s.polls = 100) :
      Engaged s (waitThen n (x.finish d)) (.saw d)

/-- The exchange runs on the port, and nobody else does. -/
inductive Runs (s : Port) (p : Ks10 α) (stage : Stage) : Prop
  | parked (hb : s.busy = false) (hc : s.board.cycle = .idle) (h : x.Parked p stage)
  | engaged (hb : s.busy = true) (h : x.Engaged s p stage)

/-- The stage after an access: the one before, unless the exchange has no answer. -/
inductive Moves : Stage → Stage → Prop
  | stays (stage : Stage) : Moves stage stage
  | declines {d : BitVec 64} (h : x.answer d = none) : Moves (.saw d) .over

/-! ## Accesses -/

variable {x} {s : Port} {p : Ks10 α} {stage : Stage}

/-- A look at the GO bit while the bus cycle goes on. -/
theorem access_wait (n : Nat) (q : Ks10 α) (hc : s.board.cycle ≠ .idle) :
    s.access (waitThen (n + 1) q) = ({ s with polls := s.polls + 1 }, waitThen n q) := by
  have hgo : (s.board.readReg64 .stat).getLsbD 16 = true := by
    rw [Board.readReg64_go]
    exact bne_iff_ne.mpr hc
  have hnot : ¬ s.board.readReg64 .stat &&& statGO = 0 := fun h =>
    nomatch hgo.symm.trans ((and_statGO _).mp h)
  rw [waitThen_succ]
  show ({ s with polls := s.polls + 1 },
    if s.board.readReg64 .stat &&& statGO = 0 then q else waitThen n q) = _
  rw [if_neg hnot]

/-- A look at the GO bit after the bus cycle. -/
theorem access_waited (n : Nat) (q : Ks10 α) (hc : s.board.cycle = .idle) :
    s.access (waitThen (n + 1) q) = ({ s with polls := s.polls + 1 }, q) := by
  have hgo : (s.board.readReg64 .stat).getLsbD 16 = false := by
    rw [Board.readReg64_go, hc]
    rfl
  rw [waitThen_succ]
  show ({ s with polls := s.polls + 1 },
    if s.board.readReg64 .stat &&& statGO = 0 then q else waitThen n q) = _
  rw [if_pos ((and_statGO _).mpr hgo)]

/-- A GO bit on an idle port starts the bus cycle of the address register. -/
theorem go_cycle (status : BitVec 64) (hc : s.board.cycle = .idle) :
    (s.board.writeReg64 .stat (status ||| statGO)).cycle = Board.start s.board.regs.regAddr := by
  have hbit : (status ||| statGO).getLsbD 16 = true := by
    rw [BitVec.getLsbD_or]
    exact Bool.or_true _
  rw [(Board.writeReg64_stat s.board _).2.2, if_pos ⟨hbit, hc⟩]

theorem Parked.access (h : x.Parked p stage) (hret : ∀ a, p ≠ .ret a) (hb : s.busy = false)
    (hc : s.board.cycle = .idle) : x.Runs (s.access p).1 (s.access p).2 stage := by
  cases h with
  | start =>
      obtain ⟨haddr, -, hcycle⟩ := Board.writeReg64_addr s.board (readAddr x.addr)
      exact .engaged rfl (.addressed (hcycle.trans hc) haddr)
  | answers h =>
      obtain ⟨haddr, -, hcycle⟩ := Board.writeReg64_addr s.board (writeAddr x.addr)
      exact .engaged rfl (.addressedBack h (hcycle.trans hc) haddr)
  | declines => exact absurd rfl (hret x.no)
  | finishes h =>
      cases p with
      | ret a => exact absurd rfl (hret a)
      | read r k =>
          obtain ⟨rfl, hk⟩ := h
          have hgo : (s.board.readReg64 .stat).getLsbD 16 = false := by
            rw [Board.readReg64_go, hc]
            rfl
          exact .parked hb hc (.finishes (hk _ hgo))
      | write r v k =>
          obtain ⟨rfl, hv, hk⟩ := h
          have hno : ¬ (v.getLsbD 16 = true ∧ s.board.cycle = .idle) := by
            rw [hv]
            exact fun h => nomatch h.1
          have hcycle : (s.board.writeReg64 .stat v).cycle = .idle := by
            rw [(Board.writeReg64_stat s.board v).2.2, if_neg hno]
            exact hc
          exact .parked hb hcycle (.finishes hk)

theorem Engaged.access (h : x.Engaged s p stage) (hb : s.busy = true)
    (hpolls : s.board.cycle ≠ .idle → s.polls < 99) :
    ∃ stage', Moves x stage stage' ∧ x.Runs (s.access p).1 (s.access p).2 stage' := by
  cases h with
  | addressed hc ha => exact ⟨_, .stays _, .engaged hb (.going _ hc ha)⟩
  | going status hc ha =>
      have hcycle := (go_cycle status hc).trans (ha ▸ x.reads)
      exact ⟨_, .stays _, .engaged hb (.reading hcycle ha rfl)⟩
  | reading hc ha hn =>
      rename_i n
      have hne : s.board.cycle ≠ .idle := fun h => nomatch hc.symm.trans h
      have hlt := hpolls hne
      obtain ⟨m, rfl⟩ : ∃ m, n = m + 1 := ⟨n - 1, by omega⟩
      rw [access_wait m _ hne]
      exact ⟨_, .stays _, .engaged hb (.reading hc ha (by show m + (s.polls + 1) = 100; omega))⟩
  | told hc =>
      rename_i n
      cases n with
      | succ n =>
          rw [access_waited n _ hc]
          exact ⟨_, .stays _, .engaged hb (.told (n := 0) hc)⟩
      | zero =>
          have hprog : (s.access (waitThen 0 x.fetch)).2 =
              x.decide (dataMask &&& s.board.regs.regData.setWidth 64) := by
            rw [← Board.readReg64_data]
            rfl
          rw [hprog]
          unfold Exchange.decide
          split
          · rename_i h
            exact ⟨_, .declines h, .parked rfl hc .declines⟩
          · rename_i v h
            exact ⟨_, .stays _, .parked rfl hc (.answers h)⟩
  | addressedBack h hc ha =>
      rename_i d v
      obtain ⟨haddr, hdata, hcycle⟩ := Board.writeReg64_data s.board v
      exact ⟨_, .stays _, .engaged hb (.loaded h (hcycle.trans hc) (haddr.trans ha) hdata)⟩
  | loaded h hc ha hd => exact ⟨_, .stays _, .engaged hb (.goingBack _ h hc ha hd)⟩
  | goingBack status h hc ha hd =>
      have hcycle := (go_cycle status hc).trans (ha ▸ x.writes)
      exact ⟨_, .stays _, .engaged hb (.writing h hcycle ha hd rfl)⟩
  | writing h hc ha hd hn =>
      rename_i d v n
      have hne : s.board.cycle ≠ .idle := fun h => nomatch hc.symm.trans h
      have hlt := hpolls hne
      obtain ⟨m, rfl⟩ : ∃ m, n = m + 1 := ⟨n - 1, by omega⟩
      rw [access_wait m _ hne]
      refine ⟨_, .stays _, .engaged hb (.writing h hc ha hd ?_)⟩
      show m + (s.polls + 1) = 100
      omega

/-- One access, as long as the wait for the bus cycle is not given up. -/
theorem Runs.access (h : x.Runs s p stage) (hret : ∀ a, p ≠ .ret a)
    (hpolls : s.board.cycle ≠ .idle → s.polls < 99) :
    ∃ stage', Moves x stage stage' ∧ x.Runs (s.access p).1 (s.access p).2 stage' := by
  cases h with
  | parked hb hc h => exact ⟨stage, .stays stage, h.access hret hb hc⟩
  | engaged hb h => exact h.access hb hpolls

/-- How an exchange ends. -/
theorem Runs.ret {a : α} (h : x.Runs s (.ret a) stage)
    (hpolls : s.board.cycle ≠ .idle → s.polls < 99) :
    s.busy = false ∧ s.board.cycle = .idle ∧
      (stage = .over ∧ a = x.no ∨ ∃ d, stage = .stored d ∧ a = x.result d) := by
  generalize hp : (.ret a : Ks10 α) = p at h
  cases h with
  | parked hb hc h =>
      refine ⟨hb, hc, ?_⟩
      cases h with
      | start => exact nomatch hp
      | answers h => exact nomatch hp
      | declines =>
          injection hp with hp
          exact Or.inl ⟨rfl, hp⟩
      | finishes h =>
          subst hp
          exact Or.inr ⟨_, rfl, h⟩
  | engaged hb h =>
      exfalso
      have hwait : ∀ (n : Nat) (q : Ks10 α), (.ret a : Ks10 α) ≠ waitThen (n + 1) q := by
        intro n q h
        rw [waitThen_succ] at h
        exact nomatch h
      cases h with
      | addressed hc ha => exact nomatch hp
      | going status hc ha => exact nomatch hp
      | reading hc ha hn =>
          rename_i n
          cases n with
          | zero => exact nomatch hp
          | succ n => exact hwait _ _ hp
      | told hc =>
          rename_i n
          cases n with
          | zero => exact nomatch hp
          | succ n => exact hwait _ _ hp
      | addressedBack h hc ha => exact nomatch hp
      | loaded h hc ha hd => exact nomatch hp
      | goingBack status h hc ha hd => exact nomatch hp
      | writing h hc ha hd hn =>
          rename_i d v n
          have hlt := hpolls fun h => nomatch hc.symm.trans h
          obtain ⟨m, rfl⟩ : ∃ m, n = m + 1 := ⟨n - 1, by omega⟩
          exact hwait _ _ hp

/-! ## The ends of bus cycles -/

theorem acks_read (hc : s.board.cycle = .read) (w : BitVec 36) :
    (s.acks w).board.cycle = .idle ∧ (s.acks w).board.regs.regData = w ∧
      (s.acks w).busy = s.busy := by
  simp [Port.acks, Board.act, hc, Board.masked]

theorem acks_write (hc : s.board.cycle = .write) (w : BitVec 36) :
    (s.acks w).board.cycle = .idle ∧ (s.acks w).busy = false := by
  simp [Port.acks, Board.act, hc, Board.masked]

/-- The end of a read cycle: the exchange sees the word `w`. -/
theorem Runs.acks_read (h : x.Runs s p stage) (hc : s.board.cycle = .read) (w : BitVec 36) :
    stage = .asks ∧ s.board.regs.regAddr = (readAddr x.addr).setWidth 36 ∧
      x.Runs (s.acks w) p (.saw (dataMask &&& w.setWidth 64)) := by
  obtain ⟨hidle, hdata, hbusy⟩ := Exchange.acks_read hc w
  cases h with
  | parked hb hc' h => exact nomatch hc.symm.trans hc'
  | engaged hb h =>
      cases h with
      | reading hc' ha hn =>
          rename_i n
          refine ⟨rfl, ha, .engaged (hbusy.trans hb) ?_⟩
          have htold := Engaged.told (x := x) (s := s.acks w) (n := n) hidle
          rw [hdata] at htold
          exact htold
      | addressed hc' ha => exact nomatch hc.symm.trans hc'
      | going status hc' ha => exact nomatch hc.symm.trans hc'
      | told hc' => exact nomatch hc.symm.trans hc'
      | addressedBack h hc' ha => exact nomatch hc.symm.trans hc'
      | loaded h hc' ha hd => exact nomatch hc.symm.trans hc'
      | goingBack status h hc' ha hd => exact nomatch hc.symm.trans hc'
      | writing h hc' ha hd hn => exact nomatch hc.symm.trans hc'

/-- The end of a write cycle: the answer is stored. -/
theorem Runs.acks_write (h : x.Runs s p stage) (hc : s.board.cycle = .write) (w : BitVec 36) :
    ∃ d v, stage = .saw d ∧ x.answer d = some v ∧
      s.board.regs.regAddr = (writeAddr x.addr).setWidth 36 ∧
      s.board.regs.regData = v.setWidth 36 ∧ x.Runs (s.acks w) p (.stored d) := by
  obtain ⟨hidle, hbusy⟩ := Exchange.acks_write hc w
  cases h with
  | parked hb hc' h => exact nomatch hc.symm.trans hc'
  | engaged hb h =>
      cases h with
      | writing h hc' ha hd hn =>
          exact ⟨_, _, rfl, h, ha, hd, .parked hbusy hidle (.finishes ((x.quiet _).waitThen _))⟩
      | reading hc' ha hn => exact nomatch hc.symm.trans hc'
      | addressed hc' ha => exact nomatch hc.symm.trans hc'
      | going status hc' ha => exact nomatch hc.symm.trans hc'
      | told hc' => exact nomatch hc.symm.trans hc'
      | addressedBack h hc' ha => exact nomatch hc.symm.trans hc'
      | loaded h hc' ha hd => exact nomatch hc.symm.trans hc'
      | goingBack status h hc' ha hd => exact nomatch hc.symm.trans hc'

end Exchange

end KS10
