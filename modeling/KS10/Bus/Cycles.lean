import KS10.Bus.Backplane

/-!
# The memory cycles of the console

A cycle of the console waits until the GO bit is no longer written, and then until the processor
is in no IO cycle.  Then it is on the bus, for one clock if it is for the memory.  The other
writes of the microcontroller do not touch it as long as they leave the address and the data
register alone (`Harmless`); only the clock in which a read cycle loads its data must be free of
them.

`Writing` and `Reading` are what holds of a cycle from its start on.
-/

namespace KS10

open Clocked

namespace Backplane

/-! ## The states of a cycle -/

/-- The states of a read or a write cycle. -/
structure Phases where
  go : Csl.State
  io : Csl.State
  bus : Csl.State

namespace Phases

def read : Phases := ⟨.readWaitGo, .readWaitIo, .read⟩

def write : Phases := ⟨.writeWaitGo, .writeWaitIo, .write⟩

end Phases

inductive IsCycle : Phases → Prop where
  | read : IsCycle .read
  | write : IsCycle .write

/-- The cycle has been started, and is not done. -/
def Going (p : Phases) (c : Csl) : Prop :=
  c.state = p.go ∨ (c.state = p.io ∨ c.state = p.bus) ∧ c.timer = 0

variable {p : Phases} {s : Backplane} {i : In} {c : Csl} {ci : Csl.In}

/-- The microcontroller starts nothing, and changes neither address nor data. -/
structure Harmless (c : Csl) (ci : Csl.In) : Prop where
  go : c.cslGo ci = false
  addr : c.cslWr = true → (c.written ci).regAddr = c.regAddr
  data : c.cslWr = true → (c.written ci).regData = c.regData

namespace IsCycle

theorem go_wait (h : IsCycle p) (hc : c.state = p.go) (hgo : c.cslGo ci = false) :
    c.nextState ci = (p.io, 0) := by
  cases h with
  | read => rw [Csl.nextState, hc]; simp [Phases.read, hgo]
  | write => rw [Csl.nextState, hc]; simp [Phases.write, hgo]

theorem go_stay (h : IsCycle p) (hc : c.state = p.go) (hgo : c.cslGo ci = true) :
    (c.nextState ci).1 = p.go := by
  cases h with
  | read => rw [Csl.nextState, hc]; simp [Phases.read, hgo]
  | write => rw [Csl.nextState, hc]; simp [Phases.write, hgo]

theorem io_next (h : IsCycle p) (hc : c.state = p.io) (ci : Csl.In) :
    c.nextState ci = if !Bus.busIo ci.busAddrI then (p.bus, c.timer) else (p.io, c.timer) := by
  cases h with
  | read => rw [Csl.nextState, hc]; rfl
  | write => rw [Csl.nextState, hc]; rfl

theorem bus_done (h : IsCycle p) (hc : c.state = p.bus) (htimer : c.timer = 0)
    (hack : ci.busAckI = true) : (c.nextState ci).1 = .idle := by
  have hawait : (c.await ci).1 = .idle := by
    rw [Csl.await, htimer, hack]
    rfl
  cases h with
  | read => rw [Csl.nextState, hc]; exact hawait
  | write => rw [Csl.nextState, hc]; exact hawait

theorem bus_req (h : IsCycle p) (hc : c.state = p.bus) : c.busReqO = true := by
  cases h with
  | read => rw [Csl.busReqO, hc]; rfl
  | write => rw [Csl.busReqO, hc]; rfl

/-- The bus is requested in one of the states only. -/
theorem req_iff (h : IsCycle p) (hgoing : Going p c) : c.busReqO = true ↔ c.state = p.bus := by
  constructor
  · intro hreq
    rcases hgoing with hgo | ⟨hio | hbus, -⟩
    · cases h with
      | read => rw [Csl.busReqO, hgo] at hreq; cases hreq
      | write => rw [Csl.busReqO, hgo] at hreq; cases hreq
    · cases h with
      | read => rw [Csl.busReqO, hio] at hreq; cases hreq
      | write => rw [Csl.busReqO, hio] at hreq; cases hreq
    · exact hbus
  · exact h.bus_req

end IsCycle

/-! ## One clock -/

theorem next_state : (s.next i).csl.state = (s.csl.nextState (s.cslIn i)).1 := rfl

theorem next_timer : (s.next i).csl.timer = (s.csl.nextState (s.cslIn i)).2 := rfl

/-- A cycle comes to the bus, and is done there. -/
theorem Going.next (hp : IsCycle p) (h : Going p s.csl) (hgo : s.csl.cslGo (s.cslIn i) = false)
    (hmem : MemCycle s.csl.regAddr) :
    if s.csl.state = p.bus then (s.next i).csl.state = .idle
    else ((s.next i).csl.state = p.io ∨ (s.next i).csl.state = p.bus) ∧
      (s.next i).csl.timer = 0 := by
  split
  · rename_i hbus
    have htimer : s.csl.timer = 0 := by
      rcases h with hstate | ⟨-, htimer⟩
      · rw [hstate] at hbus
        cases hp with
        | read => cases hbus
        | write => cases hbus
      · exact htimer
    rw [next_state]
    exact hp.bus_done hbus htimer (cslIn_ack (hp.bus_req hbus) hmem).1
  · rename_i hbus
    rcases h with hstate | ⟨hstate | hstate, htimer⟩
    · have hnext := hp.go_wait hstate hgo
      exact ⟨.inl (congrArg Prod.fst hnext), congrArg Prod.snd hnext⟩
    · have hnext := hp.io_next hstate (s.cslIn i)
      cases hio : Bus.busIo (s.cslIn i).busAddrI with
      | true =>
          rw [hio] at hnext
          exact ⟨.inl (congrArg Prod.fst hnext), (congrArg Prod.snd hnext).trans htimer⟩
      | false =>
          rw [hio] at hnext
          exact ⟨.inr (congrArg Prod.fst hnext), (congrArg Prod.snd hnext).trans htimer⟩
    · exact absurd hstate hbus

/-- The idle state machine waits for the GO bit. -/
theorem next_idle (h : s.csl.state = .idle) (hgo : s.csl.cslGo (s.cslIn i) = false) :
    (s.next i).csl.state = .idle := by
  rw [next_state, Csl.nextState, h]
  simp [hgo]

/-- The address register at the next clock. -/
theorem Harmless.next_addr (h : Harmless s.csl (s.cslIn i)) :
    (s.next i).csl.regAddr = s.csl.regAddr := by
  change (s.csl.nextRegs (s.cslIn i)).regAddr = _
  rw [Csl.nextRegs]
  split_ifs with hwr
  · exact h.addr hwr
  · rfl
  · rfl
  · rfl

/-- The data register at the next clock. -/
theorem Harmless.next_data (h : Harmless s.csl (s.cslIn i)) (hread : s.csl.state ≠ .read) :
    (s.next i).csl.regData = s.csl.regData := by
  change (s.csl.nextRegs (s.cslIn i)).regData = _
  rw [Csl.nextRegs, if_neg hread]
  split_ifs with hwr
  · exact h.data hwr
  · rfl
  · rfl

/-! ## What holds of a cycle -/

/-- The address of a write of the word `x`. -/
structure WriteAddr (addr : BitVec 36) (x : BitVec 20) : Prop where
  memory : Bus.busIo addr = false
  read : Bus.busRead addr = false
  write : Bus.busWrite addr = true
  word : field addr 16 35 = x

/-- The address of a read of the word `x`. -/
structure ReadAddr (addr : BitVec 36) (x : BitVec 20) : Prop where
  memory : Bus.busIo addr = false
  read : Bus.busRead addr = true
  write : Bus.busWrite addr = false
  word : field addr 16 35 = x

theorem WriteAddr.cycle {addr : BitVec 36} {x : BitVec 20} (h : WriteAddr addr x) :
    MemCycle addr := ⟨h.memory, .inr h.write⟩

/-- What the memory answers to a read. -/
theorem ReadAddr.ssramData {addr : BitVec 36} {x : BitVec 20} (h : ReadAddr addr x) {m : Mem}
    {d : BitVec 36} : m.ssramData ⟨false, addr, d⟩ = m.ssram x := by
  have hnot : bit addr 5 = false := h.write
  rw [Mem.ssramData, Mem.memWrite, Mem.busWrite]
  change (if (bit addr 5 && _) = true then _ else _) = _
  rw [hnot, Bool.false_and, if_neg Bool.false_ne_true, ← h.word]
  rfl

theorem ReadAddr.cycle {addr : BitVec 36} {x : BitVec 20} (h : ReadAddr addr x) :
    MemCycle addr := ⟨h.memory, .inl h.read⟩

/-- A cycle that writes `d` to the word `x` is going on, or done; and what it leaves in the word
`y`, which held `v`. -/
structure Writing (x : BitVec 20) (d : BitVec 36) (y : BitVec 20) (v : BitVec 36)
    (s : Backplane) : Prop where
  addr : WriteAddr s.csl.regAddr x
  data : s.csl.regData = d
  phase : Going .write s.csl ∧ (x ≠ y → s.mem.ssram y = v) ∨
    s.csl.state = .idle ∧ s.mem.ssram y = if x = y then d else v

/-- A cycle that reads the word `x` is going on, or done; the word `y` holds `v`.  The data may be
lost. -/
structure Reading (lost : Prop) (x y : BitVec 20) (v : BitVec 36) (s : Backplane) : Prop where
  addr : ReadAddr s.csl.regAddr x
  word : s.mem.ssram y = v
  phase : Going .read s.csl ∨ s.csl.state = .idle ∧ (x = y → s.csl.regData = v ∨ lost)

/-- A cycle that is going on is not idle. -/
theorem Going.not_idle (hp : IsCycle p) (h : Going p c) : c.state ≠ .idle := by
  intro hidle
  rcases h with hstate | ⟨hstate | hstate, -⟩
  · rw [hidle] at hstate
    cases hp with
    | read => cases hstate
    | write => cases hstate
  · rw [hidle] at hstate
    cases hp with
    | read => cases hstate
    | write => cases hstate
  · rw [hidle] at hstate
    cases hp with
    | read => cases hstate
    | write => cases hstate

theorem Going.not_read (h : Going .write c) : c.state ≠ .read := by
  rcases h with hstate | ⟨hstate | hstate, -⟩
  · rw [hstate]; decide
  · rw [hstate]; decide
  · rw [hstate]; decide

/-- A write cycle goes on.  Another unit does not write the word `y`. -/
theorem Writing.next {x y : BitVec 20} {d v : BitVec 36} (h : Writing x d y v s)
    (hharm : Harmless s.csl (s.cslIn i)) (hother : ¬ s.OtherWrites i y) :
    Writing x d y v (s.next i) := by
  have hword := next_word hother
  constructor
  case addr =>
    rw [hharm.next_addr]
    exact h.addr
  case data =>
    rw [hharm.next_data, h.data]
    rcases h.phase with ⟨hgoing, -⟩ | ⟨hidle, -⟩
    · exact hgoing.not_read
    · rw [hidle]; decide
  case phase =>
    rcases h.phase with ⟨hgoing, hy⟩ | ⟨hidle, hy⟩
    · have hnext := hgoing.next .write hharm.go h.addr.cycle
      have hy' (hne : x ≠ y) : (s.next i).mem.ssram y = v := by
        rw [hword, if_neg fun hw => hne (h.addr.word.symm.trans hw.2.2.2), hy hne]
      split at hnext
      · rename_i hbus
        refine .inr ⟨hnext, ?_⟩
        by_cases hxy : x = y
        · rw [if_pos hxy, hword, if_pos ⟨IsCycle.write.bus_req hbus, h.addr.memory, h.addr.write,
            h.addr.word.trans hxy⟩, h.data]
        · rw [if_neg hxy, hy' hxy]
      · exact .inl ⟨.inr hnext, hy'⟩
    · have hreq : s.csl.busReqO = false := by
        rw [Csl.busReqO, hidle]
        rfl
      rw [if_neg (by simp [hreq])] at hword
      exact .inr ⟨next_idle hidle hharm.go, hword.trans hy⟩

/-- A read cycle goes on.  Another unit does not write the word `y`, and in the clock in which the
cycle loads its data the microcontroller writes nothing, or they are lost. -/
theorem Reading.next {lost : Prop} {x y : BitVec 20} {v : BitVec 36} (h : Reading lost x y v s)
    (hharm : Harmless s.csl (s.cslIn i)) (hother : ¬ s.OtherWrites i y)
    (hquiet : s.csl.state = .read → s.csl.cslWr = true → lost) :
    Reading lost x y v (s.next i) := by
  have hword := next_word hother
  rw [if_neg (by simp [h.addr.write])] at hword
  constructor
  case addr =>
    rw [hharm.next_addr]
    exact h.addr
  case word => rw [hword, h.word]
  case phase =>
    rcases h.phase with hgoing | ⟨hidle, hd⟩
    · have hnext := hgoing.next .read hharm.go h.addr.cycle
      split at hnext
      · rename_i hbus
        have hstate : s.csl.state = .read := hbus
        refine .inr ⟨hnext, fun hxy => ?_⟩
        cases hwr : s.csl.cslWr with
        | true => exact .inr (hquiet hstate hwr)
        | false =>
            have hdata : (s.next i).csl.regData = (s.cslIn i).busDataI := by
              change (s.csl.nextRegs (s.cslIn i)).regData = _
              rw [Csl.nextRegs, hwr, if_neg Bool.false_ne_true, if_pos hstate]
            rw [hdata, (cslIn_ack (IsCycle.read.bus_req hbus) h.addr.cycle).2, h.addr.ssramData,
              hxy, h.word]
            exact .inl rfl
      · exact .inl (.inr hnext)
    · refine .inr ⟨next_idle hidle hharm.go, fun hxy => ?_⟩
      rw [hharm.next_data (by rw [hidle]; decide)]
      exact hd hxy

/-! ## The end of a cycle -/

/-- The cycle waits for the bus only, or is done. -/
def Late (p : Phases) (c : Csl) : Prop :=
  (c.state = p.io ∨ c.state = p.bus) ∧ c.timer = 0 ∨ c.state = .idle

theorem Going.late (hp : IsCycle p) (h : Going p s.csl) (hharm : Harmless s.csl (s.cslIn i))
    (hmem : MemCycle s.csl.regAddr) : Late p (s.next i).csl := by
  have hnext := Going.next hp h hharm.go hmem
  split at hnext
  · exact .inr hnext
  · exact .inl hnext

theorem Late.next (hp : IsCycle p) (h : Late p s.csl) (hharm : Harmless s.csl (s.cslIn i))
    (hmem : MemCycle s.csl.regAddr) : Late p (s.next i).csl := by
  rcases h with hwait | hidle
  · exact Going.late hp (.inr hwait) hharm hmem
  · exact .inr (next_idle hidle hharm.go)

/-- Once the processor is in no IO cycle, the cycle is done two clocks later. -/
theorem Late.free (hp : IsCycle p) (h : Late p s.csl) (hharm : Harmless s.csl (s.cslIn i))
    (hmem : MemCycle s.csl.regAddr) (hfree : s.ioBusy i = false) :
    (s.next i).csl.state = p.bus ∧ (s.next i).csl.timer = 0 ∨ (s.next i).csl.state = .idle := by
  rcases h with ⟨hstate | hstate, htimer⟩ | hidle
  · have hio : Bus.busIo (s.cslIn i).busAddrI = false := hfree
    have hnext := hp.io_next hstate (s.cslIn i)
    rw [hio] at hnext
    exact .inl ⟨congrArg Prod.fst hnext, (congrArg Prod.snd hnext).trans htimer⟩
  · have hnext := Going.next (i := i) hp (.inr ⟨.inr hstate, htimer⟩) hharm.go hmem
    rw [if_pos hstate] at hnext
    exact .inr hnext
  · exact .inr (next_idle hidle hharm.go)

variable {si : Nat → In}

/-- A cycle of the console is done after `n + 3` clocks at the latest, where the processor is not
longer than `n` clocks in its IO cycles. -/
theorem done_of_going (hp : IsCycle p) {t e n : Nat} (h : Going p (run next s si t).csl)
    (hmem : MemCycle (run next s si t).csl.regAddr)
    (hharm : ∀ c, t ≤ c → c < e → Harmless (run next s si c).csl ((run next s si c).cslIn (si c)))
    (hfree : ∀ c, ∃ c', c ≤ c' ∧ c' < c + n ∧ (run next s si c').ioBusy (si c') = false)
    (he : t + n + 3 ≤ e) : (run next s si e).csl.state = .idle := by
  have hlate (k : Nat) (hk : t + 1 + k ≤ e) : Late p (run next s si (t + 1 + k)).csl ∧
      MemCycle (run next s si (t + 1 + k)).csl.regAddr := by
    induction k with
    | zero =>
        have hfirst := hharm t (Nat.le_refl t) (by omega)
        refine ⟨h.late hp hfirst hmem, ?_⟩
        rw [Nat.add_zero, run_succ, hfirst.next_addr]
        exact hmem
    | succ k ih =>
        obtain ⟨hlate, hcycle⟩ := ih (by omega)
        have hnext := hharm (t + 1 + k) (by omega) (by omega)
        refine ⟨hlate.next hp hnext hcycle, ?_⟩
        rw [← Nat.add_assoc, run_succ, hnext.next_addr]
        exact hcycle
  obtain ⟨c, hc, hcn, hio⟩ := hfree (t + 1)
  obtain ⟨k, rfl⟩ := Nat.exists_eq_add_of_le hc
  have hdone : (run next s si (t + 1 + k + 2)).csl.state = .idle := by
    obtain ⟨hl, hcycle⟩ := hlate k (by omega)
    have hharm₀ := hharm (t + 1 + k) (by omega) (by omega)
    have hharm₁ := hharm (t + 1 + k + 1) (by omega) (by omega)
    have hcycle₁ := (hlate (k + 1) (by omega)).2
    rcases hl.free hp hharm₀ hcycle hio with ⟨hbus, htimer⟩ | hidle
    · have hnext := Going.next (s := run next s si (t + 1 + k + 1)) (i := si (t + 1 + k + 1)) hp
        (.inr ⟨.inr hbus, htimer⟩) hharm₁.go hcycle₁
      rw [if_pos (by exact hbus)] at hnext
      exact hnext
    · exact next_idle hidle hharm₁.go
  have hstays (j : Nat) (hj : t + 1 + k + 2 + j ≤ e) :
      (run next s si (t + 1 + k + 2 + j)).csl.state = .idle := by
    induction j with
    | zero => exact hdone
    | succ j ih =>
        exact next_idle (ih (by omega)) (hharm (t + 1 + k + 2 + j) (by omega) (by omega)).go
  have hend := hstays (e - (t + 1 + k + 2)) (by omega)
  rwa [Nat.add_sub_cancel' (by omega)] at hend

/-! ## No cycle -/

/-- Without a cycle the console leaves the memory alone. -/
theorem next_word_idle {y : BitVec 20} (h : s.csl.state = .idle) (hother : ¬ s.OtherWrites i y) :
    (s.next i).mem.ssram y = s.mem.ssram y := by
  have hreq : s.csl.busReqO = false := by
    rw [Csl.busReqO, h]
    rfl
  rw [next_word hother, if_neg (by simp [hreq])]

end Backplane

end KS10
