import KS10.Console.Accesses

/-!
# Deposits and examines

The console deposits words in the memory and examines them by cycles of CSL.  Each is a program of
the microcontroller on the backplane: it sets up the address and the data register, writes the GO
bit, and waits until the status shows that the cycle is done, for at most 100 passes.

`writeMem_triple` and `readMem_triple` are the rules of the two.  They hold for each word of the
memory that no other unit writes meanwhile, where the processor does not hold up the console for
more than `maxBusy` clocks in one IO cycle.  What is examined may be wrong where the write of the
rest of the status register falls into the clock of the answer (`Collision`).
-/

namespace KS10

open Clocked

/-! ## The registers -/

namespace Csl

/-- A write of 64 bits. -/
def store (regs : Regs) (r : Reg) (v : BitVec 64) : Regs :=
  put (put (put (put regs r.base (v.extractLsb' 0 16)) (r.base + 2) (v.extractLsb' 16 16))
    (r.base + 4) (v.extractLsb' 32 16)) (r.base + 6) (v.extractLsb' 48 16)

theorem store_addr (regs : Regs) (v : BitVec 64) :
    (store regs .addr v).regAddr = v.setWidth 36 ∧
      (store regs .addr v).regData = regs.regData :=
  ⟨Board.setField_bytes regs.regAddr v, rfl⟩

theorem store_data (regs : Regs) (v : BitVec 64) :
    (store regs .data v).regAddr = regs.regAddr ∧
      (store regs .data v).regData = v.setWidth 36 :=
  ⟨rfl, Board.setField_bytes regs.regData v⟩

/-- The halfwords of a register of 36 bits. -/
theorem word_append (x : BitVec 36) :
    word x 6 ++ word x 4 ++ word x 2 ++ word x 0 = x.setWidth 64 :=
  Board.readReg64_data (Board.masked ⟨0, x, 0, false, false, false, false, false⟩ .idle false
    fun _ => false)

/-- The GO bit in the status register. -/
theorem statWord_go (r : Regs) (go cpuHalt cpuRun cpuCont cpuExec : Bool) :
    (word (statWord r go cpuHalt cpuRun cpuCont cpuExec) 2).getLsbD 0 = go := by
  have hword (x : BitVec 36) : (word x 2).getLsbD 0 = x.getLsbD 16 := by
    change (field x 4 19).getLsbD 0 = _
    rw [field, BitVec.getLsbD_extractLsb']
    rfl
  have hzero {m : Nat} (x : BitVec m) (k : Nat) : (x ++ 0#1).getLsbD (k + 1) = x.getLsbD k :=
    Board.lsb_append_ofBool x false k
  rw [hword, statWord, Board.lsb_append_ofBool, hzero, Board.lsb_append_ofBool,
    Board.lsb_append_ofBool, Board.lsb_append_ofBool, Board.lsb_append_ofBool,
    Board.lsb_append_ofBool, Board.lsb_append_ofBool, Board.lsb_append_ofBool,
    Board.lsb_append_ofBool, BitVec.getLsbD_append, if_neg (by decide),
    Board.lsb_append _ _ Nat.one_pos, BitVec.getLsbD_ofBool]
  rfl

theorem cslGo_of_quiet {s : Csl} {i : In} (h : s.cslWr = false) : s.cslGo i = false := by
  rw [cslGo, h]
  rfl

theorem nextRegs_of_quiet {s : Csl} {i : In} (h : s.cslWr = false) (hread : s.state ≠ .read)
    (hfail : s.state ≠ .fail) : s.nextRegs i = s.toRegs := by
  rw [nextRegs, h, if_neg Bool.false_ne_true, if_neg hread, if_neg hfail]

end Csl

namespace Backplane

variable {s : Backplane} {i : Nat → In} {e : Nat} {α : Type} {Q : α → Nat → Prop}

theorem harmless_of_quiet {c : Nat} (h : (run next s i c).csl.cslWr = false) :
    Harmless (run next s i c).csl ((run next s i c).cslIn (i c)) where
  go := Csl.cslGo_of_quiet h
  addr hwr := absurd hwr (by rw [h]; exact Bool.false_ne_true)
  data hwr := absurd hwr (by rw [h]; exact Bool.false_ne_true)

/-! ## Without a cycle -/

/-- There is no cycle, the registers hold `regs`, and the word `y` of the memory holds `v`. -/
structure Ready (regs : Csl.Regs) (y : BitVec 20) (v : BitVec 36) (s : Backplane) : Prop where
  idle : s.csl.state = .idle
  regs : s.csl.toRegs = regs
  word : s.mem.ssram y = v

section

variable {regs : Csl.Regs} {y : BitVec 20} {v : BitVec 36}
  (hother : ∀ c, c < e → ¬ (run next s i c).OtherWrites (i c) y)

include hother

theorem ready_kept : Kept s i e fun c => Ready regs y v (run next s i c) := by
  intro c hc hwr h
  constructor
  case idle => exact next_idle h.idle (Csl.cslGo_of_quiet hwr)
  case regs =>
    change (run next s i c).csl.nextRegs _ = _
    rw [Csl.nextRegs_of_quiet hwr (by rw [h.idle]; decide) (by rw [h.idle]; decide), h.regs]
  case word => rw [run_succ, next_word_idle h.idle (hother c hc), h.word]

/-- A write that is none of the GO bit. -/
theorem triple_put {addr : BitVec 8} (heven : addr &&& 0xfe = addr) (haddr : addr ≠ 0x12)
    {w : BitVec 16} {k : Prog (BitVec 8) (BitVec 16) α}
    (hk : Triple console next s i e
      (Between s i fun c => Ready (Csl.put regs addr w) y v (run next s i c)) k Q) :
    Triple console next s i e (Between s i fun c => Ready regs y v (run next s i c))
      (.write addr w k) Q := by
  refine triple_write heven (ready_kept hother) ?_ hk
  intro c hc hput h
  have hidle : (run next s i c).csl.state = .idle := by
    rcases h with h | h
    · exact h.idle
    · exact h.idle
  have hword : (run next s i c).mem.ssram y = v := by
    rcases h with h | h
    · exact h.word
    · exact h.word
  have hregs : Csl.put (run next s i c).csl.toRegs addr w = Csl.put regs addr w := by
    rcases h with h | h
    · rw [h.regs]
    · rw [h.regs, Csl.put_put]
  constructor
  case idle =>
    refine next_idle hidle ?_
    rw [hput.cslGo, beq_false_of_ne haddr, Bool.false_and]
  case regs =>
    change (run next s i c).csl.nextRegs _ = _
    rw [hput.nextRegs, hregs]
  case word => rw [run_succ, next_word_idle hidle (hother c hc), hword]

/-- A write of a register other than the status register. -/
theorem triple_store {r : Reg} (hr : r ≠ .stat) {w : BitVec 64} {k : Ks10 α}
    (hk : Triple console next s i e
      (Between s i fun c => Ready (Csl.store regs r w) y v (run next s i c)) k.lower Q) :
    Triple console next s i e (Between s i fun c => Ready regs y v (run next s i c))
      (Ks10.lower (.write r w k)) Q := by
  have hne : r.base ≠ 0x12 ∧ r.base + 2 ≠ 0x12 ∧ r.base + 4 ≠ 0x12 ∧ r.base + 6 ≠ 0x12 := by
    cases r with
    | addr => decide
    | data => decide
    | stat => exact absurd rfl hr
    | cir => decide
  obtain ⟨h0, h2, h4, h6⟩ := hne
  obtain ⟨heven0, heven2, heven4, heven6⟩ := r.even
  exact triple_put hother heven0 h0 (triple_put hother heven2 h2
    (triple_put hother heven4 h4 (triple_put hother heven6 h6 hk)))

end

/-- A read of a register that is not looked at. -/
theorem triple_peek {P : Nat → Prop} (hP : Kept s i e P) {r : Reg} {k : BitVec 64 → Ks10 α}
    (hk : ∀ v, Triple console next s i e (Between s i P) (k v).lower Q) :
    Triple console next s i e (Between s i P) (Ks10.lower (.read r k)) Q := by
  obtain ⟨heven0, heven2, heven4, heven6⟩ := r.even
  exact triple_read heven0 hP (fun c hc hwr _ h => hP c hc hwr h) fun _ =>
    triple_read heven2 hP (fun c hc hwr _ h => hP c hc hwr h) fun _ =>
      triple_read heven4 hP (fun c hc hwr _ h => hP c hc hwr h) fun _ =>
        triple_read heven6 hP (fun c hc hwr _ h => hP c hc hwr h) fun _ => hk _

/-! ## The start of a cycle -/

/-- The GO bit starts a cycle with these states. -/
def Opens (p : Phases) (addr : BitVec 36) : Prop :=
  ∀ (c : Csl) (ci : Csl.In), c.state = .idle → c.regAddr = addr → c.cslGo ci = true →
    (c.nextState ci).1 = p.go

theorem WriteAddr.opens {addr : BitVec 36} {x : BitVec 20} (h : WriteAddr addr x) :
    Opens .write addr := by
  intro c ci hidle haddr hgo
  have hread : bit addr 3 = false := h.read
  have hwrite : bit addr 5 = true := h.write
  rw [Csl.nextState, hidle]
  simp [haddr, hgo, hread, hwrite, Phases.write]

theorem ReadAddr.opens {addr : BitVec 36} {x : BitVec 20} (h : ReadAddr addr x) :
    Opens .read addr := by
  intro c ci hidle haddr hgo
  have hread : bit addr 3 = true := h.read
  rw [Csl.nextState, hidle]
  simp [haddr, hgo, hread, Phases.read]

/-- The cycle waits for the end of the GO bit. -/
structure Starting (p : Phases) (regs : Csl.Regs) (y : BitVec 20) (v : BitVec 36)
    (s : Backplane) : Prop where
  go : s.csl.state = p.go
  regs : s.csl.toRegs = regs
  word : s.mem.ssram y = v

theorem IsCycle.go_req {p : Phases} {c : Csl} (hp : IsCycle p) (h : c.state = p.go) :
    c.busReqO = false := by
  cases hp with
  | read => rw [Csl.busReqO, h]; rfl
  | write => rw [Csl.busReqO, h]; rfl

/-- The write of the GO bit. -/
theorem triple_go {p : Phases} (hp : IsCycle p) {regs : Csl.Regs} {y : BitVec 20} {v : BitVec 36}
    (hother : ∀ c, c < e → ¬ (run next s i c).OtherWrites (i c) y) (hopen : Opens p regs.regAddr)
    {w : BitVec 16} (hw : w.getLsbD 0 = true) {k : Prog (BitVec 8) (BitVec 16) α}
    (hk : Triple console next s i e
      (Between s i fun c => Starting p regs y v (run next s i c)) k Q) :
    Triple console next s i e (Between s i fun c => Ready regs y v (run next s i c))
      (.write 0x12 w k) Q := by
  refine triple_write rfl (ready_kept hother) ?_ hk
  intro c hc hput h
  have hgo : (run next s i c).csl.cslGo ((run next s i c).cslIn (i c)) = true := by
    rw [hput.cslGo, hw]
    rfl
  have hreq : (run next s i c).csl.busReqO = false := by
    rcases h with h | h
    · rw [Csl.busReqO, h.idle]
      rfl
    · exact hp.go_req h.go
  have hregs : (run next s i c).csl.toRegs = regs := by
    rcases h with h | h
    · exact h.regs
    · exact h.regs
  have hword : (run next s i c).mem.ssram y = v := by
    rcases h with h | h
    · exact h.word
    · exact h.word
  constructor
  case go =>
    rcases h with h | h
    · exact hopen _ _ h.idle (congrArg Csl.Regs.regAddr h.regs) hgo
    · exact hp.go_stay h.go hgo
  case regs =>
    change (run next s i c).csl.nextRegs _ = _
    rw [hput.nextRegs, hregs]
    rfl
  case word =>
    rw [run_succ, next_word (hother c hc), if_neg (by simp [hreq]), hword]

/-! ## The end of a cycle -/

/-- The cycle has been going on for `k` clocks at least, and nothing has touched it. -/
def Since (p : Phases) (s : Backplane) (i : Nat → In) (k t : Nat) : Prop :=
  ∃ t', t' + k ≤ t ∧ Going p (run next s i t').csl ∧ MemCycle (run next s i t').csl.regAddr ∧
    ∀ c, t' ≤ c → c < t → Harmless (run next s i c).csl ((run next s i c).cslIn (i c))

/-- What holds while a cycle goes on: harmless clocks keep it. -/
def Carried (s : Backplane) (i : Nat → In) (e : Nat) (W : Nat → Prop) : Prop :=
  ∀ c, c < e → Harmless (run next s i c).csl ((run next s i c).cslIn (i c)) → W c → W (c + 1)

/-- It is done, and the registers are left alone. -/
def Done (s : Backplane) (i : Nat → In) (W : Nat → Prop) (t : Nat) : Prop :=
  W t ∧ (run next s i t).csl.state = .idle

variable {p : Phases} {W : Nat → Prop}

theorem Since.next {k t : Nat} (h : Since p s i k t)
    (hharm : Harmless (run Backplane.next s i t).csl ((run Backplane.next s i t).cslIn (i t))) :
    Since p s i k (t + 1) ∧ Since p s i (k + 1) (t + 1) := by
  obtain ⟨t', hle, hgoing, hmem, hall⟩ := h
  have hall' (c : Nat) (hc : t' ≤ c) (hct : c < t + 1) : Harmless (run Backplane.next s i c).csl
      ((run Backplane.next s i c).cslIn (i c)) := by
    rcases Nat.lt_succ_iff_lt_or_eq.mp hct with hlt | rfl
    · exact hall c hc hlt
    · exact hharm
  exact ⟨⟨t', Nat.le_succ_of_le hle, hgoing, hmem, hall'⟩,
    ⟨t', Nat.succ_le_succ hle, hgoing, hmem, hall'⟩⟩

theorem kept_since (hW : Carried s i e W) (k : Nat) :
    Kept s i e fun t => W t ∧ Since p s i k t := by
  intro c hc hwr h
  have hharm := harmless_of_quiet hwr
  exact ⟨hW c hc hharm h.1, (h.2.next hharm).1⟩

theorem kept_done (hW : Carried s i e W) : Kept s i e (Done s i W) := by
  intro c hc hwr h
  have hharm := harmless_of_quiet hwr
  exact ⟨hW c hc hharm h.1, next_idle h.2 hharm.go⟩

/-- The rest of the status register is written while the cycle goes on. -/
theorem triple_rest (hW : Carried s i e W) {addr : BitVec 8} (haddr : addr = 0x14 ∨ addr = 0x16)
    {w : BitVec 16} {k : Prog (BitVec 8) (BitVec 16) α}
    (hk : Triple console next s i e (Between s i fun t => W t ∧ Since p s i 0 t) k Q) :
    Triple console next s i e (Between s i fun t => W t ∧ Since p s i 0 t) (.write addr w k) Q := by
  have heven : addr &&& 0xfe = addr := by
    rcases haddr with rfl | rfl
    · rfl
    · rfl
  refine triple_write heven (kept_since hW 0) ?_ hk
  intro c hc hput h
  have hnone : Csl.put (run next s i c).csl.toRegs addr w = (run next s i c).csl.toRegs := by
    rcases haddr with rfl | rfl
    · rfl
    · rfl
  have hharm : Harmless (run next s i c).csl ((run next s i c).cslIn (i c)) := by
    constructor
    case go =>
      rw [hput.cslGo]
      rcases haddr with rfl | rfl
      · rfl
      · rfl
    case addr => exact fun _ => by rw [hput.written, hnone]
    case data => exact fun _ => by rw [hput.written, hnone]
  have hboth : W c ∧ Since p s i 0 c := by
    rcases h with h | h
    · exact h
    · exact h
  exact ⟨hW c hc hharm hboth.1, (hboth.2.next hharm).1⟩

/-! ## The wait for the end -/

/-- The processor does not hold up the console for longer: it is again and again in no IO cycle. -/
def Yields (s : Backplane) (i : Nat → In) (maxBusy : Nat) : Prop :=
  ∀ c, ∃ c', c ≤ c' ∧ c' < c + maxBusy ∧ (run next s i c').ioBusy (i c') = false

def maxBusy : Nat := 397

theorem status_go {v : BitVec 64} : v &&& Ks10.statGO = 0 ↔ v.getLsbD 16 = false :=
  and_twoPow_eq_zero (k := 16) (by decide) v

/-- The GO bit in the status register. -/
theorem dout_go {c : Nat} (haddr : Csl.cslAddr ((run next s i c).cslIn (i c)) = 0x12) :
    ((run next s i c).dout (i c)).getLsbD 0 = ((run next s i c).csl.state != .idle) := by
  have hstat : (run next s i c).dout (i c) =
      Csl.word ((run next s i c).csl.regStat ((run next s i c).cslIn (i c))) 2 := by
    rw [dout, Csl.dout, haddr]
    rfl
  rw [hstat]
  exact Csl.statWord_go _ _ _ _ _ _

/-- One look at the status register. -/
theorem triple_poll (hW : Carried s i e W) {n : Nat} {f : BitVec 64 → Ks10 α}
    (hdone : ∀ v, v.getLsbD 16 = false →
      Triple console next s i e (Between s i (Done s i W)) (f v).lower Q)
    (hmore : ∀ v, v.getLsbD 16 = true →
      Triple console next s i e (Between s i fun t => W t ∧ Since p s i (n + 4) t)
        (f v).lower Q) :
    Triple console next s i e (Between s i fun t => W t ∧ Since p s i n t)
      (Ks10.lower (.read .stat f)) Q := by
  have hstep (k : Nat) (c : Nat) (hc : c < e) (hwr : (run next s i c).csl.cslWr = false)
      (h : W c ∧ Since p s i k c) : W (c + 1) ∧ Since p s i (k + 1) (c + 1) := by
    have hharm := harmless_of_quiet hwr
    exact ⟨hW c hc hharm h.1, (h.2.next hharm).2⟩
  -- What the second halfword has shown stays.
  have hseen (k : Nat) (b : Bool) : Kept s i e fun t =>
      (W t ∧ Since p s i k t) ∧ (b = false → (run next s i t).csl.state = .idle) := by
    intro c hc hwr h
    exact ⟨kept_since hW k c hc hwr h.1, fun hb => next_idle (h.2 hb) (Csl.cslGo_of_quiet hwr)⟩
  refine triple_read (R := fun _ t => W t ∧ Since p s i (n + 1) t) rfl (kept_since hW n)
    (fun c hc hwr _ h => hstep n c hc hwr h) fun v0 => ?_
  refine triple_read (R := fun v2 t => (W t ∧ Since p s i (n + 2) t) ∧
    (v2.getLsbD 0 = false → (run next s i t).csl.state = .idle)) rfl (kept_since hW (n + 1)) ?_
    fun v2 => ?_
  · intro c hc hwr haddr h
    refine ⟨hstep (n + 1) c hc hwr h, fun hbit => ?_⟩
    rw [dout_go haddr] at hbit
    exact next_idle (by simpa using hbit) (Csl.cslGo_of_quiet hwr)
  refine triple_read (R := fun _ t => (W t ∧ Since p s i (n + 3) t) ∧
    (v2.getLsbD 0 = false → (run next s i t).csl.state = .idle)) rfl (hseen (n + 2) _) ?_
    fun v4 => ?_
  · intro c hc hwr _ h
    exact ⟨hstep (n + 2) c hc hwr h.1, (hseen (n + 2) _ c hc hwr h).2⟩
  refine triple_read (R := fun _ t => (W t ∧ Since p s i (n + 4) t) ∧
    (v2.getLsbD 0 = false → (run next s i t).csl.state = .idle)) rfl (hseen (n + 3) _) ?_
    fun v6 => ?_
  · intro c hc hwr _ h
    exact ⟨hstep (n + 3) c hc hwr h.1, (hseen (n + 3) _ c hc hwr h).2⟩
  have hbit : (v6 ++ v4 ++ v2 ++ v0).getLsbD 16 = v2.getLsbD 0 := by
    rw [BitVec.getLsbD_append, if_neg (by decide), BitVec.getLsbD_append, if_pos (by decide)]
  cases hgo : v2.getLsbD 0 with
  | true => exact (hmore _ (hbit.trans hgo)).mono (fun t h => ⟨h.1, h.2.1⟩) fun _ _ h => h
  | false =>
      exact (hdone _ (hbit.trans hgo)).mono (fun t h => ⟨h.1, h.2.1.1, h.2.2 rfl⟩) fun _ _ h => h

theorem waitGo_succ (n : Nat) : Ks10.waitGo (n + 1) = .read .stat fun status =>
    if status &&& Ks10.statGO = 0 then .ret () else Ks10.waitGo n := rfl

/-- After the loop the cycle is done, even where no pass of it has seen that. -/
theorem waitGo_triple (hp : IsCycle p) (hW : Carried s i e W) (hfree : Yields s i maxBusy)
    {n m : Nat} (hn : 400 ≤ n + 4 * m) :
    Triple console next s i e (Between s i fun t => W t ∧ Since p s i n t) (Ks10.waitGo m).lower
      fun _ => Between s i (Done s i W) := by
  induction m generalizing n with
  | zero =>
      refine Triple.ret (kept_since hW n).stable ?_
      rintro t ⟨hquiet, hw, t', hle, hgoing, hmem, hharm⟩
      refine ⟨hquiet, hw, done_of_going hp hgoing hmem hharm hfree ?_⟩
      rw [maxBusy]
      omega
  | succ m ih =>
      rw [waitGo_succ]
      refine triple_poll hW ?_ ?_
      · intro v hv
        rw [if_pos (status_go.mpr hv)]
        exact Triple.ret (kept_done hW).stable fun t h => h
      · intro v hv
        rw [if_neg (by rw [status_go, hv]; exact Bool.true_eq_false_eq_False)]
        exact ih (by omega)

theorem go_eq : Ks10.go = .read .stat fun status =>
    .write .stat (status ||| Ks10.statGO) (Ks10.waitGo 100) := rfl

/-- A cycle, from the GO bit to its end.  It starts with the address and the data that are set up;
only the control bits of the status register are written. -/
theorem go_triple (hp : IsCycle p) (hW : Carried s i e W) (hfree : Yields s i maxBusy)
    {regs : Csl.Regs} {y : BitVec 20} {v : BitVec 36}
    (hother : ∀ c, c < e → ¬ (run next s i c).OtherWrites (i c) y)
    (hopen : Opens p regs.regAddr) (hmem : MemCycle regs.regAddr)
    (hstart : ∀ regs' : Csl.Regs, regs'.regAddr = regs.regAddr → regs'.regData = regs.regData →
      ∀ c, Starting p regs' y v (run next s i c) → W c) :
    Triple console next s i e (Between s i fun c => Ready regs y v (run next s i c))
      Ks10.go.lower fun _ => Between s i (Done s i W) := by
  rw [go_eq]
  refine triple_peek (ready_kept hother) fun status => ?_
  have hstat : (0x10 : BitVec 8) ≠ 0x12 := by decide
  refine triple_put hother rfl hstat ?_
  generalize hcontrol : Csl.put regs 0x10 _ = regs'
  have hregs : regs'.regAddr = regs.regAddr ∧ regs'.regData = regs.regData := by
    rw [← hcontrol]
    exact ⟨rfl, rfl⟩
  refine triple_go hp hother (by rw [hregs.1]; exact hopen) ?_ ?_
  · rw [BitVec.getLsbD_extractLsb', BitVec.getLsbD_or]
    exact Bool.or_true _
  refine Triple.mono (triple_rest hW (.inl rfl) (triple_rest hW (.inr rfl)
    (waitGo_triple hp hW hfree (m := 100) (by decide)))) ?_ fun _ _ h => h
  rintro t ⟨hquiet, hs⟩
  have haddr : (run next s i t).csl.regAddr = regs'.regAddr := congrArg Csl.Regs.regAddr hs.regs
  refine ⟨hquiet, hstart regs' hregs.1 hregs.2 t hs, t, Nat.le_refl t, .inl hs.go, ?_, ?_⟩
  · rw [haddr, hregs.1]
    exact hmem
  · intro c hc hct
    exact absurd hct (Nat.not_lt_of_le hc)

/-! ## Deposit and examine -/

/-- A write of the microcontroller falls into the clock in which a read cycle has its answer. -/
def Collision (s : Backplane) (i : Nat → In) (c : Nat) : Prop :=
  (run next s i c).csl.state = .read ∧ (run next s i c).csl.cslWr = true

/-- Between two functions of the console: no cycle is going on, and the word `y` holds `v`. -/
def Rest (s : Backplane) (i : Nat → In) (y : BitVec 20) (v : BitVec 36) : Nat → Prop :=
  Between s i fun t => ∃ regs, Ready regs y v (run next s i t)

theorem rest_kept {y : BitVec 20} {v : BitVec 36}
    (hother : ∀ c, c < e → ¬ (run next s i c).OtherWrites (i c) y) :
    Kept s i e fun t => ∃ regs, Ready regs y v (run next s i t) := by
  rintro c hc hwr ⟨regs, h⟩
  exact ⟨regs, ready_kept hother c hc hwr h⟩

/-- The registers that are there are some. -/
theorem triple_rest_of {y : BitVec 20} {v : BitVec 36} {k : Prog (BitVec 8) (BitVec 16) α}
    (hk : ∀ regs, Triple console next s i e
      (Between s i fun t => Ready regs y v (run next s i t)) k Q) :
    Triple console next s i e (Rest s i y v) k Q := by
  rintro t a u hu hp ⟨hquiet, regs, h⟩
  exact hk regs t a u hu hp ⟨hquiet, h⟩

/-- The word of the memory behind an address. -/
def memWord (addr : BitVec 64) : BitVec 20 := addr.extractLsb' 0 20

/-- A bit of a memory address with its flags, to the left of the address. -/
theorem bit_flags (addr flags : BitVec 64) {k : Nat} (hk : k < 16) :
    bit (((addr &&& Ks10.memAddrMask) ||| flags ||| Ks10.flagPhys).setWidth 36) k =
      (flags.getLsbD (35 - k) || Ks10.flagPhys.getLsbD (35 - k)) := by
  have hmask : ∀ k, k < 16 → Ks10.memAddrMask.getLsbD (35 - k) = false := by decide
  have hin : k < 36 := Nat.lt_trans hk (by decide)
  have hin' : 36 - 1 - k < 36 := by omega
  rw [bit, BitVec.getMsbD_eq_getLsbD, BitVec.getLsbD_setWidth, BitVec.getLsbD_or,
    BitVec.getLsbD_or, BitVec.getLsbD_and, hmask k hk]
  simp only [hin, hin', decide_true, Bool.true_and, Bool.and_false, Bool.false_or]

/-- The address is left as it is. -/
theorem field_flags (addr : BitVec 64) {flags : BitVec 64} (h : flags.extractLsb' 0 20 = 0) :
    field (((addr &&& Ks10.memAddrMask) ||| flags ||| Ks10.flagPhys).setWidth 36) 16 35 =
      memWord addr := by
  have hflags (k : Nat) (hk : k < 20) : flags.getLsbD k = false := by
    have hbit : (flags.extractLsb' 0 20).getLsbD k = flags.getLsbD (0 + k) := by
      rw [BitVec.getLsbD_extractLsb', decide_eq_true hk, Bool.true_and]
    rw [h, Nat.zero_add] at hbit
    rw [← hbit]
    exact BitVec.getLsbD_zero
  have hmask : ∀ k, k < 20 → Ks10.memAddrMask.getLsbD k = true ∧
      Ks10.flagPhys.getLsbD k = false := by decide
  apply BitVec.eq_of_getLsbD_eq
  intro k hk
  obtain ⟨hone, hzero⟩ := hmask k hk
  have hin : k < 36 := Nat.lt_of_lt_of_le hk (by decide)
  rw [field, memWord, BitVec.getLsbD_extractLsb', BitVec.getLsbD_extractLsb',
    BitVec.getLsbD_setWidth, BitVec.getLsbD_or, BitVec.getLsbD_or, BitVec.getLsbD_and]
  simp only [Nat.sub_self, Nat.zero_add, hk, hin, hone, hzero, hflags k hk, decide_true,
    Bool.true_and, Bool.and_true, Bool.or_false]

theorem writeAddr (addr : BitVec 64) : WriteAddr
    (((addr &&& Ks10.memAddrMask) ||| Ks10.flagWrite ||| Ks10.flagPhys).setWidth 36)
    (memWord addr) where
  memory := bit_flags addr Ks10.flagWrite (by decide)
  read := bit_flags addr Ks10.flagWrite (by decide)
  write := bit_flags addr Ks10.flagWrite (by decide)
  word := field_flags addr (by decide)

theorem readAddr (addr : BitVec 64) : ReadAddr
    (((addr &&& Ks10.memAddrMask) ||| Ks10.flagRead ||| Ks10.flagPhys).setWidth 36)
    (memWord addr) where
  memory := bit_flags addr Ks10.flagRead (by decide)
  read := bit_flags addr Ks10.flagRead (by decide)
  write := bit_flags addr Ks10.flagRead (by decide)
  word := field_flags addr (by decide)

/-- A read of a halfword of the data register. -/
theorem triple_half {regs : Csl.Regs} {y : BitVec 20} {v : BitVec 36}
    (hother : ∀ c, c < e → ¬ (run next s i c).OtherWrites (i c) y) {addr : BitVec 8}
    (heven : addr &&& 0xfe = addr) (haddr : addr &&& 0xf8 = 0x08)
    {k : BitVec 16 → Prog (BitVec 8) (BitVec 16) α}
    (hk : Triple console next s i e (Between s i fun c => Ready regs y v (run next s i c))
      (k (Csl.word regs.regData (addr &&& 7))) Q) :
    Triple console next s i e (Between s i fun c => Ready regs y v (run next s i c))
      (.read addr k) Q := by
  refine triple_read (R := fun w c => Ready regs y v (run next s i c) ∧
    w = Csl.word regs.regData (addr &&& 7)) heven (ready_kept hother) ?_ fun w => ?_
  · intro c hc hwr hcsl h
    refine ⟨ready_kept hother c hc hwr h, ?_⟩
    have hdata : (run next s i c).csl.regData = regs.regData :=
      congrArg Csl.Regs.regData h.regs
    rw [dout, Csl.dout, hcsl, haddr, hdata]
    rfl
  · rintro t a u hu hp ⟨hquiet, hready, rfl⟩
    exact hk t a u hu hp ⟨hquiet, hready⟩

/-- A read of the data register. -/
theorem triple_data {regs : Csl.Regs} {y : BitVec 20} {v : BitVec 36}
    (hother : ∀ c, c < e → ¬ (run next s i c).OtherWrites (i c) y) {f : BitVec 64 → Ks10 α}
    (hk : Triple console next s i e (Between s i fun c => Ready regs y v (run next s i c))
      (f (regs.regData.setWidth 64)).lower Q) :
    Triple console next s i e (Between s i fun c => Ready regs y v (run next s i c))
      (Ks10.lower (.read .data f)) Q := by
  rw [← Csl.word_append] at hk
  exact triple_half hother rfl rfl (triple_half hother rfl rfl (triple_half hother rfl rfl
    (triple_half hother rfl rfl hk)))

theorem dataMask_and (v : BitVec 36) : Ks10.dataMask &&& v.setWidth 64 = v.setWidth 64 := by
  apply BitVec.eq_of_getLsbD_eq
  intro k hk
  have hmask : ∀ k, k < 36 → Ks10.dataMask.getLsbD k = true := by decide
  rw [BitVec.getLsbD_and, BitVec.getLsbD_setWidth]
  by_cases h : k < 36
  · rw [hmask k h, Bool.true_and]
  · rw [BitVec.getLsbD_of_ge v k (Nat.le_of_not_lt h), Bool.and_false, Bool.and_false]

theorem readMem_eq (addr : BitVec 64) : Ks10.readMem addr =
    .write .addr ((addr &&& Ks10.memAddrMask) ||| Ks10.flagRead ||| Ks10.flagPhys)
      (Ks10.go >>= fun _ => .read .data fun data => .ret (Ks10.dataMask &&& data)) := rfl

theorem writeMem_eq (addr data : BitVec 64) : Ks10.writeMem addr data =
    .write .addr ((addr &&& Ks10.memAddrMask) ||| Ks10.flagWrite ||| Ks10.flagPhys)
      (.write .data data Ks10.go) := rfl

section

variable {y : BitVec 20} {v : BitVec 36}
  (hother : ∀ c, c < e → ¬ (run next s i c).OtherWrites (i c) y) (hfree : Yields s i maxBusy)

include hother hfree

/-- A deposit. -/
theorem writeMem_triple (addr data : BitVec 64) : Triple console next s i e (Rest s i y v)
    (Ks10.writeMem addr data).lower
      fun _ => Rest s i y (if memWord addr = y then data.setWidth 36 else v) := by
  refine triple_rest_of fun regs => ?_
  rw [writeMem_eq]
  refine triple_store hother (r := .addr) (by decide) ?_
  refine triple_store hother (r := .data) (by decide) ?_
  generalize hx : memWord addr = x
  generalize hd : data.setWidth 36 = d
  generalize hregs : Csl.store (Csl.store regs .addr _) .data data = regs'
  have haddr : WriteAddr regs'.regAddr x := by
    rw [← hregs, (Csl.store_data _ _).1, (Csl.store_addr _ _).1, ← hx]
    exact writeAddr addr
  have hdata : regs'.regData = d := by
    rw [← hregs, (Csl.store_data _ _).2, hd]
  have hW : Carried s i e fun c => Writing x d y v (run next s i c) :=
    fun c hc hharm h => h.next hharm (hother c hc)
  refine Triple.mono (go_triple .write hW hfree hother haddr.opens haddr.cycle ?_)
    (fun _ h => h) ?_
  · intro regs'' haddr' hdata' c h
    have hregAddr : (run next s i c).csl.regAddr = regs''.regAddr :=
      congrArg Csl.Regs.regAddr h.regs
    have hregData : (run next s i c).csl.regData = regs''.regData :=
      congrArg Csl.Regs.regData h.regs
    constructor
    case addr =>
      rw [hregAddr, haddr']
      exact haddr
    case data => rw [hregData, hdata', hdata]
    case phase => exact .inl ⟨.inl h.go, fun _ => h.word⟩
  · rintro _ t ⟨hquiet, hwriting, hidle⟩
    refine ⟨hquiet, (run next s i t).csl.toRegs, hidle, rfl, ?_⟩
    rcases hwriting.phase with ⟨hgoing, -⟩ | ⟨-, hword⟩
    · exact absurd hidle (hgoing.not_idle .write)
    · exact hword

/-- An examine: it returns the word, or the word is lost. -/
theorem readMem_triple (addr : BitVec 64) : Triple console next s i e (Rest s i y v)
    (Ks10.readMem addr).lower fun a t => Rest s i y v t ∧
      (memWord addr = y → a = v.setWidth 64 ∨ ∃ c, c < e ∧ Collision s i c) := by
  refine triple_rest_of fun regs => ?_
  rw [readMem_eq]
  refine triple_store hother (r := .addr) (by decide) ?_
  rw [Ks10.lower_bind]
  generalize hx : memWord addr = x
  generalize hregs : Csl.store regs .addr _ = regs'
  generalize hlost : (∃ c, c < e ∧ Collision s i c) = lost
  have haddr : ReadAddr regs'.regAddr x := by
    rw [← hregs, (Csl.store_addr _ _).1, ← hx]
    exact readAddr addr
  have hW : Carried s i e fun c => Reading lost x y v (run next s i c) := by
    intro c hc hharm h
    refine h.next hharm (hother c hc) fun hstate hwr => ?_
    rw [← hlost]
    exact ⟨c, hc, hstate, hwr⟩
  refine Triple.bind (go_triple .read hW hfree hother haddr.opens haddr.cycle ?_) fun _ => ?_
  · intro regs'' haddr' hdata' c h
    have hregAddr : (run next s i c).csl.regAddr = regs''.regAddr :=
      congrArg Csl.Regs.regAddr h.regs
    constructor
    case addr =>
      rw [hregAddr, haddr']
      exact haddr
    case word => exact h.word
    case phase => exact .inl (.inl h.go)
  · generalize hword : (fun t => Done s i (fun c => Reading lost x y v (run next s i c)) t) = W
    have hready : ∀ t, W t → ∃ regs, Ready regs y v (run next s i t) ∧
        (x = y → regs.regData = v ∨ lost) := by
      rw [← hword]
      rintro t ⟨hreading, hidle⟩
      refine ⟨(run next s i t).csl.toRegs, ⟨hidle, rfl, hreading.word⟩, ?_⟩
      rcases hreading.phase with hgoing | ⟨-, hdata⟩
      · exact absurd hidle (hgoing.not_idle .read)
      · exact hdata
    rintro t a u hu hp ⟨hquiet, hW'⟩
    obtain ⟨regs, hregs, hdata⟩ := hready t (by rw [← hword]; exact hW')
    refine triple_data (Q := fun a t => Rest s i y v t ∧
      (x = y → a = v.setWidth 64 ∨ lost)) hother ?_ t a u hu hp ⟨hquiet, hregs⟩
    refine Triple.ret (ready_kept hother).stable fun t' h => ⟨⟨h.1, regs, h.2⟩, fun hxy => ?_⟩
    rcases hdata hxy with hd | hl
    · exact .inl (by rw [hd, dataMask_and])
    · exact .inr hl

end

end Backplane

end KS10
